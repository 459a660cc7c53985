import Binkd.Lib.Run
import Binkd.Send

/-!
# The session (`recv_block` and `protocol`)

`processBlock` hands a complete block to the handler of its command or to the open
file, `recvBlock` collects the bytes of a block, and `iterate` is one round of the
main loop of `protocol`: it chooses the next file, sends `M_EOB`, ends a batch, and
then reads and writes as `select` allows.  A run is a list of such rounds, each
with the environment it meets (`Reachable`).
-/

namespace Binkd

/-! ### Receiving -/

/-- `commands`: the handler for a message type; `none` for an unknown type. -/
def command (config : BinkdConfig) (env : Env) (t : Byte) (buf : List Byte) (s : State) :
    Option (State × Bool) :=
  match t with
  | 0 => some (NUL config env buf s)
  | 1 => some (ADR config env buf s)
  | 2 => some (PWD config env buf s)
  | 3 => some (startFileRecv config env buf s)
  | 4 => some (OK config env buf s)
  | 5 => some (EOB config env s)
  | 6 => some (GOT config env buf s)
  | 7 => some (s, false)
  | 8 => some (s, false)
  | 9 => some (GET config env buf s)
  | 10 => some (SKIP config env buf s)
  | _ => none

/-- The message branch of `recv_block`. -/
def recvMsg (config : BinkdConfig) (env : Env) (block : List Byte) (s : State) : State × Bool :=
  let s := { s with link := { s.link with msgsInBatch := s.link.msgsInBatch + 1 } }
  match block with
  | [] => (s, true)
  | t :: buf => (command config env t buf s).getD (s, true)

/-- `recv_block` for a complete block. -/
def processBlock (config : BinkdConfig) (env : Env) (imsg : Bool) (block : List Byte) (s : State) :
    State × Bool :=
  if imsg then recvMsg config env block s else recvData config env block s

/-- The result of `recv` or `read`; no bytes mean that the connection is closed. -/
inductive RecvResult
  | bytes (l : List Byte)
  | wouldBlock
  | error
deriving DecidableEq

/-- The number of bytes that the block being read has, `sz` in `recv_block`. -/
def Link.want (l : Link) : Nat := l.isize.getD 2

/-- Reads bytes into the block: `decrypt_buf` where the session is encrypted. -/
def Link.read (crypt : CryptFlag) (bytes : List Byte) (l : Link) : Link :=
  let r := if crypt = .on then decryptBuf bytes l.keysIn else (bytes, l.keysIn)
  { l with ibuf := l.ibuf ++ r.1, keysIn := r.2 }

/-- What is complete after reading: nothing, a header of a block that has a body, or
a block. -/
inductive Arrived
  | nothing
  | header (imsg : Bool) (size : Nat)
  | block (imsg : Bool) (block : List Byte)
deriving DecidableEq

/-- The message bit and the size in a block header. -/
def headerMsg (h : List Byte) : Bool := 128 ≤ (h.headD 0).toNat
def headerSize (h : List Byte) : Nat := (h.headD 0).toNat % 128 * 256 + (h.getD 1 0).toNat

def Link.arrived (l : Link) : Arrived :=
  if l.ibuf.length = l.want then
    match l.isize with
    | none =>
      if headerSize l.ibuf = 0 then .block (headerMsg l.ibuf) []
      else .header (headerMsg l.ibuf) (headerSize l.ibuf)
    | some _ => .block l.imsg l.ibuf
  else .nothing

/-- The buffer made ready for the next header. -/
def Link.nextHeader (l : Link) : Link := { l with isize := none, ibuf := [] }

/-- The bytes that one `recv` has put into the block. -/
def recvBytes (bytes : List Byte) (s : State) : State :=
  { s with link := s.link.read s.login.cryptFlag (bytes.take (s.link.want - s.link.ibuf.length)) }

/-- The part of `recv_block` behind the `recv`. -/
def recvArrived (config : BinkdConfig) (env : Env) (s : State) : State × Bool :=
  match s.link.arrived with
  | .nothing => (s, true)
  | .header imsg size =>
    ({ s with link := { s.link with imsg := imsg, isize := some size, ibuf := [] } }, true)
  | .block imsg block =>
    match processBlock config env imsg block s with
    | (s, true) => ({ s with link := s.link.nextHeader }, true)
    | (s, false) => ({ s with link := { s.link with ibuf := [] } }, false)

/-- `recv_block`; the flag is false where it returns 0. -/
def recvBlock (config : BinkdConfig) (env : Env) (r : RecvResult) (s : State) : State × Bool :=
  match r with
  | .wouldBlock => (s, true)
  | .error => ({ s with link := { s.link with ioError := true } }, false)
  | .bytes l =>
    if l = [] ∧ s.link.want > 0 then ({ s with link := { s.link with ioError := true } }, false)
    else recvArrived config env (recvBytes l s)

/-! ### The head of the main loop -/

/-- The inner loop that looks for the next file.  Each round takes an entry of the
queue or closes the open flow file, which the fuel allows for. -/
def nextFileLoop (config : BinkdConfig) (env : Env) : Nat → State → State
  | 0, s => s
  | fuel + 1, s =>
    if s.tx.flo.f.isSome then
      match startFileTransfer config env none s with
      | (s, true) => s
      | (s, false) => nextFileLoop config env fuel s
    else match selectNextFile s.tx.q with
      | none => { s with tx := { s.tx with q := [] } }
      | some (file, q) =>
        match startFileTransfer config env (some file) { s with tx := { s.tx with q := q } } with
        | (s, true) => s
        | (s, false) => nextFileLoop config env fuel s

/-- Chooses the next file, if none is in transfer. -/
def nextFile (config : BinkdConfig) (env : Env) (s : State) : State :=
  if !s.tx.localEOB && s.tx.q ≠ [] && s.tx.out.f.isNone && !s.tx.waitingForGOT && !s.tx.offReqSent &&
      s.login.state ≠ .null then
    nextFileLoop config env (s.tx.q.length + 2) s
  else s

/-- Sends `M_EOB` when the batch has no more files. -/
def sendEOB (s : State) : State :=
  if s.tx.out.f.isNone && s.tx.q = [] && !s.tx.localEOB && s.login.state ≠ .null && s.tx.sentFls = [] &&
      (s.login.delayEob = 0 || s.login.major * 100 + s.login.minor > 100) then
    msgSend2 M_EOB [] [] { s with tx := { s.tx with localEOB := true } }
  else s

/-- Is there something to write? -/
def wantWrite (s : State) : Bool :=
  s.link.msgs ≠ [] || (s.tx.out.f.isSome && !s.tx.offReqSent && !s.tx.waitingForGOT) ||
    s.link.pend ≠ [] || s.tx.sendEof

/-- Has the batch ended on both sides? -/
def batchEnded (s : State) : Bool :=
  s.rx.remoteEOB && s.tx.sentFls = [] && s.tx.localEOB && s.rx.getFileBalance = 0 &&
    s.rx.inf.f.isNone && s.tx.out.f.isNone

/-- `process_rcvdlist`. -/
def processRcvdlist (config : BinkdConfig) (env : Env) (s : State) : Queue × State :=
  s.rx.rcvdlist.foldl (fun qs name => evtRun config env name true qs) (s.tx.q, s)

/-- `q_to_killlist`. -/
def qToKilllist (q : Queue) (l : List KillEntry) : Queue × List KillEntry :=
  (q.map fun e => if e.action = 97 then { e with action := 0 } else e,
    (q.filter fun e => e.action = 97).foldl (fun l e => addToKilllist e.path 0 l) l)

/-- The requests received in the batch are processed at its end. -/
def batchRequests (config : BinkdConfig) (env : Env) (s : State) : State :=
  if s.rx.rcvdlist = [] then s
  else
    let (q, s) := processRcvdlist config env s
    let (q, killlist) := qToKilllist q s.tx.killlist
    { s with tx := { s.tx with q := q, killlist := killlist }, rx := { s.rx with rcvdlist := [] } }

/-- The next batch. -/
def nextBatch (config : BinkdConfig) (env : Env) (s : State) : State :=
  let s := { s with
    link := { s.link with msgsInBatch := 0 }, rx := { s.rx with remoteEOB := false },
    tx := { s.tx with localEOB := false } }
  if okSendFiles config s then
    let (q, disk) := qScanBoxes config env s.login.active s.toNode.isSome (s.tx.q, s.disk)
    { s with disk := disk, tx := { s.tx with q := qSort s.login.active q } }
  else s

/-- The end of a batch: the flag is false where the session is over. -/
def endBatch (config : BinkdConfig) (env : Env) (s : State) : State × Bool :=
  let s := batchRequests config env s
  if s.link.msgsInBatch ≤ 2 ∨ s.login.major * 100 + s.login.minor ≤ 100 then
    (ndForget config env s, false)
  else (nextBatch config env s, true)

/-- The result of `select`: nothing within the time limit, an error, or what can be
read and written. -/
inductive SelectResult
  | timeout
  | error
  | ready (recv : Option RecvResult) (send : Option SendResult)
deriving DecidableEq

/-- What one round of the main loop meets. -/
structure Input where
  env : Env := {}
  select : SelectResult

/-- The two halves of a round behind `select`. -/
def exchange (config : BinkdConfig) (env : Env) (recv : Option RecvResult) (send : Option SendResult)
    (s : State) : State × Bool :=
  match (match recv with | some r => recvBlock config env r s | none => (s, true)) with
  | (s, false) => (s, false)
  | (s, true) => match send with
    | some r => sendBlock config env r s
    | none => (s, true)

/-- One round of the main loop of `protocol`; the flag is false where it breaks.
The disk has changed as the rest of the system pleased. -/
def iterate (config : BinkdConfig) (i : Input) (s : State) : State × Bool :=
  let s := { s with disk := i.env.outside s.disk }
  let s := sendEOB (nextFile config i.env s)
  if batchEnded s then endBatch config i.env s
  else match i.select with
    | .timeout => ({ s with link := { s.link with ioError := true } }, false)
    | .error => ({ s with link := { s.link with ioError := true } }, false)
    | .ready recv send =>
      exchange config i.env recv (if wantWrite s then send else none) s

/-! ### The end of the session -/

/-- `process_killlist`. -/
def processKilllist (env : Env) (success : Bool) (s : State) : State :=
  { s with disk := s.tx.killlist.foldl (fun disk k =>
      if k.cond ≠ 115 || success then (disk.delete env k.name).1 else disk) s.disk }

/-- Was the session successful? -/
def succeeded (s : State) : Bool := batchEnded s

/-- `bsy_remove` for the active addresses. -/
def bsyRemove (config : BinkdConfig) (env : Env) (s : State) : State :=
  { s with disk := s.login.active.foldl (fun disk fa =>
      let buf := ftnaddressToFilename fa config.pDomains
      if buf = [] then disk else (disk.delete env ((buf ++ str ".bsy").take maxPathLen)).1) s.disk }

/-- What follows the main loop, once no more can be sent. -/
def finish (config : BinkdConfig) (env : Env) (s : State) : State :=
  let s := if succeeded s then inbRemovePartial config env (processKilllist env true s)
    else processKilllist env false s
  bsyRemove config env (closePartial config env s)

/-! ### Runs -/

/-- The state in which the main loop starts. -/
def start (config : BinkdConfig) (env : Env) (disk : Disk) (peerName ipaddr : Str)
    (to_ : Option FtnNode) (fa : Option FtnAddr) : State :=
  banner config env { initProtocol config to_ fa with disk := disk, peerName := peerName, ipaddr := ipaddr }

/-- The states of a session in its main loop, where each round is allowed by `ok`;
the flag says whether the loop goes on. -/
abbrev Reachable (config : BinkdConfig) (ok : Input → State → Prop) (s0 : State) :
    State → Bool → Prop :=
  Lib.Run (iterate config) ok s0

/-! ### A small network

The addresses `2:5020/n` of one domain, for concrete runs. -/

def fidonet : FtnDomain where
  name := str "fidonet"
  path := str "/o"
  dir := str "out"
  z := 2

def aka (n : Int32) : FtnAddr := ⟨str "fidonet", 2, 5020, n, 0⟩

/-- Two passwords fit. -/
theorem aa_length : (str "aa").length ≤ maxPwdLen := by decide

theorem aa_nul : (0 : Byte) ∉ str "aa" := by decide

theorem bb_length : (str "bb").length ≤ maxPwdLen := by decide

theorem bb_nul : (0 : Byte) ∉ str "bb" := by decide

/-- The node 9 of the small network, which knows some other nodes. -/
def fidoConfig (nodes : List FtnNode) : BinkdConfig where
  pAddr := [aka 9]
  pDomains := [fidonet]
  pNodArray := nodes

end Binkd
