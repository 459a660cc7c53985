import Binkd.Spool

/-!
# The sending side (`start_file_transfer`, `GET`, `SKIP`, `GOT`)

`startFileTransfer` announces the next file of the queue or the next line of the
open flow file.  The remote answers with `M_GET` for another offset, `M_SKIP`, or
`M_GOT` for a file that it has; a file that has been sent waits in `sentFls` for
one of the three.
-/

namespace Binkd

/-! ### Compression -/

/-- `zrule_test (ZRULE_ALLOW, …)`: the first rule that fits allows. -/
def zruleAllows (config : BinkdConfig) (name : Str) : Bool :=
  match config.zrules.find? fun r => pmatchNcase r.mask name with
  | some r => r.allow
  | none => false

/-- Is the current file to be compressed? -/
def zWanted (config : BinkdConfig) (s : State) : Bool :=
  s.login.zCansend.isOn && s.login.extcmd && config.zminsize ≤ s.tx.out.size &&
    zruleAllows config s.tx.out.netname && !(s.toNode.any (·.ncFlag))

/-- The method that `z_send_init` chooses, with its extra parameter; a method that
is on already stays, without a parameter. -/
def zChoose (can : ZFlag) (z : ZSend) : Str × ZSend :=
  if z = .off then
    if can.bz2 then (str " BZ2", .bz2) else if can.gz then (str " GZ", .gz) else ([], .off)
  else ([], z)

/-- `z_send_init`. -/
def zSendInit (config : BinkdConfig) (env : Env) (s : State) : Str × State :=
  if zWanted config s then
    let (extra, z) := zChoose s.login.zCansend s.tx.zSend
    if z = .off then (extra, s)
    else if env.zInit then
      (extra, { s with tx := { s.tx with zSend := z, zOdata := some [] } })
    else ([], { s with tx := { s.tx with zSend := .off, zOdata := some [] } })
  else ([], s)

/-- `z_send_stop`. -/
def zSendStop (s : State) : State :=
  if s.tx.zSend ≠ .off ∧ s.tx.zOdata.isSome then
    { s with tx := { s.tx with zSend := .off, zOdata := none, zObuf := [] } }
  else { s with tx := { s.tx with zSend := .off } }

/-! ### `start_file_transfer` -/

/-- `prio` and `MAXFLVR`. -/
def prio : Str := str "IiCcDdOoFfHh"

def maxflvr (a b : Byte) : Byte :=
  let ix (c : Byte) : Nat := if c = 0 then 13 else if prio.contains c then prio.idxOf c + 1 else 0
  if ix a < ix b then a else b

/-- A file that has been found for sending: the open file, size, time and action
(`none` for the action of the queue entry). -/
structure Found where
  f : Option Handle
  size : Int
  time : Int
  action : Option Byte

/-- The loop of `start_file_transfer` over the lines of the open flow file.  Lines
whose file cannot be sent are removed from the spool; at the end the flow file is
closed and `none` returned.  The fuel bounds the lines. -/
def floLoop (config : BinkdConfig) (env : Env) (qpath : Str) : Nat → State → Option Found × State
  | 0, s => (none, s)
  | fuel + 1, s =>
    match s.tx.flo.f with
    | none => (none, s)
    | some h =>
      match readFloLine (h.bytes.length + 1) h with
      | none =>
        let s := { s with tx := { s.tx with flo := { s.tx.flo with f := none } } }
        let s := removeFromSpool config env s.tx.flo.path none 0 s
        (none, { s with tx := { s.tx with flo := .zero } })
      | some (path, action, h) =>
        let s := { s with tx := { s.tx with
          flo := { s.tx.flo with f := some h }, out := { s.tx.out with path := path } } }
        let w := transFloLine config path
        let drop := removeFromSpool config env s.tx.out.flo (some path) s.tx.out.action s
        if s.tx.nosendlist.contains (w.getD qpath) then floLoop config env qpath fuel drop
        else
          let name := w.getD path
          match s.disk.fopenR env name, s.disk.stat env name with
          | some f, some sb =>
            if sb.isDir then floLoop config env qpath fuel drop
            else (some ⟨some f, sb.bytes.length, sb.mtime, some action⟩, s)
          | _, _ => floLoop config env qpath fuel drop

/-- Opens the file of a queue entry; `none` where it cannot be opened.  A flow file
becomes the open flow file. -/
def openQueued (env : Env) (file : Ftnq) (s : State) : Option (Found × State) :=
  if file.type = 115 then some (⟨none, file.size, file.time, none⟩, s)
  else if s.tx.nosendlist.contains file.path then none
  else match s.disk.fopenR env file.path, s.disk.stat env file.path with
    | some f, some sb =>
      let found : Found := ⟨some f, sb.bytes.length, sb.mtime, none⟩
      if file.type = 108 then
        some (found, { s with tx := { s.tx with flo := { s.tx.flo with
          action := file.action, path := file.path, fa := file.fa, f := some f } } })
      else some (found, s)
    | _, _ => none

/-- The file is not sent because it is empty. -/
def dontSend (config : BinkdConfig) (out : TFile) : Bool :=
  ((out.type = 109 || (ispkt out.netname && config.dontsendempty ≠ .none)) && out.size ≤ 60) ||
  (config.dontsendempty ≠ .none && out.size = 0 && isarcmail out.netname) ||
  (config.dontsendempty = .all && out.size = 0)

/-- The offset that a new file is announced with: -1 in NR mode, the end for a
status, else 0. -/
def firstOffset (s : State) : Option Nat :=
  if s.login.nrFlag.we then none
  else if s.tx.out.f.isNone then some (toUnsigned64 s.tx.out.size)
  else some 0

/-- The part of `start_file_transfer` behind the search: the file is announced. -/
def announce (config : BinkdConfig) (env : Env) (s : State) : State × Bool :=
  if dontSend config s.tx.out then
    let s := { s with tx := { s.tx with out := { s.tx.out with f := none } } }
    let s := removeFromSpool config env s.tx.out.flo (some s.tx.out.path) s.tx.out.action s
    ({ s with tx := { s.tx with out := .zero } }, false)
  else
    let (extra, s) := zSendInit config env s
    let off := firstOffset s
    let s := sendFileMsg ⟨s.tx.out, off, extra⟩ s
    ({ s with tx := { s.tx with offReqSent := s.tx.offReqSent || s.login.nrFlag.we } }, true)

/-- `state->out` for a file that has been found. -/
def fillOut (env : Env) (file : Option Ftnq) (r : Found) (s : State) : State :=
  let out := { s.tx.out with f := r.f, size := r.size, time := r.time, start := env.now, id := s.tx.nextId }
  let out := match r.action, file with
    | some action, _ => { out with action := action, type := 0 }
    | none, some file => { out with path := file.path, flo := [], action := file.action, type := file.type }
    | none, none => out
  let out := { out with netname := netname env out }
  { s with tx := { s.tx with out := out, waitingForGOT := false, nextId := s.tx.nextId + 1 } }

/-- The search of `start_file_transfer` once a flow file is open. -/
def startFlo (config : BinkdConfig) (env : Env) (file : Option Ftnq) (s : State) : State × Bool :=
  let s := { s with tx := { s.tx with out := { s.tx.out with flo := s.tx.flo.path } } }
  let fuel := (s.tx.flo.f.map fun h => h.bytes.length + 1).getD 0
  match floLoop config env ((file.map (·.path)).getD []) fuel s with
  | (none, s) => (s, false)
  | (some r, s) =>
    announce config env (fillOut env file r
      { s with tx := { s.tx with out := { s.tx.out with fa := s.tx.flo.fa } } })

/-- `start_file_transfer`; the queue entry is null while a flow file is open. -/
def startFileTransfer (config : BinkdConfig) (env : Env) (file : Option Ftnq) (s : State) :
    State × Bool :=
  let s := { s with tx := { s.tx with out := .zero } }
  if s.tx.flo.f.isSome then startFlo config env file s
  else match file with
    | none => (s, false)
    | some file =>
      let s := { s with tx := { s.tx with maxflvr := maxflvr s.tx.maxflvr file.flvr } }
      match openQueued env file s with
      | none => (s, false)
      | some (r, s) =>
        let s := { s with tx := { s.tx with
          out := { s.tx.out with fa := file.fa }
          ndAddr := if s.login.ndFlag.we then s.tx.ndAddr else file.fa } }
        if s.tx.flo.f.isSome then startFlo config env (some file) s
        else announce config env (fillOut env (some file) r s)

/-! ### Files that have been sent -/

/-- `remove_from_sent_files_queue`: the name of the entry is blanked; when all are,
the list goes. -/
def removeSent (n : Nat) (l : List TFile) : List TFile :=
  let l := l.modify n fun t => { t with netname := [] }
  if l.all fun t => t.netname = [] then [] else l

/-- `ND_addr.z = -1` after its status was cleared. -/
def ndForget (config : BinkdConfig) (env : Env) (s : State) : State :=
  let s := ndClear config env s.tx.ndAddr s
  { s with tx := { s.tx with ndAddr := { s.tx.ndAddr with z := -1 } } }

/-! ### `M_GET` -/

/-- The first part of `GET`: a file that was sent becomes the current one again; a
current file takes its place. -/
def getFromSent (env : Env) (name : Str) (size time : Int) (s : State) : State :=
  match s.tx.sentFls.findIdx? fun t => tfileEq t name size time with
  | none => s
  | some i =>
    let t := s.tx.sentFls.getD i .zero
    let l := if s.tx.out.f.isSome then s.tx.sentFls.set i { s.tx.out with f := none }
      else removeSent i s.tx.sentFls
    let out := match s.disk.fopenR env t.path with
      | some f => { t with f := some f }
      | none => .zero
    { s with tx := { s.tx with sentFls := l, out := out } }

/-- `GET` of a status, which is answered so that the remote's count is right.  The
flag is false where the answer ends the handler. -/
def getStatus (config : BinkdConfig) (env : Env) (off : Nat) (s : State) : State × Bool :=
  let s := sendFileMsg ⟨s.tx.out, some off, []⟩ s
  if off = toUnsigned64 s.tx.out.size ∧ s.login.ndFlag.we then
    ({ s with tx := { s.tx with sendEof := true, waitingForGOT := true, offReqSent := false } }, false)
  else
    let s := ndClear config env s.tx.out.fa s
    ({ s with tx := { s.tx with out := .zero } }, true)

/-- `GET` of the open file. -/
def getFile (config : BinkdConfig) (env : Env) (name : Str) (off : Int) (extras : List Str)
    (h : Handle) (s : State) : State × Bool :=
  let close (s : State) : State := { s with tx := { s.tx with out := { s.tx.out with f := none } } }
  if off > s.tx.out.size then
    let s := msgSendf M_ERR (str "Invalid M_GET violates binkp: offset " ++ decimal (toUnsigned64 off) ++
      str " after end of file, file " ++ name ++ str " size " ++ decimal (toUnsigned64 s.tx.out.size)) s
    ({ close s with disk := s.disk.touch env s.tx.out.path env.now }, false)
  else if off < 0 ∨ (env.fault (.seek h.path off)).isSome then
    let s := msgSendf M_ERR (str "Error seeking: " ++ name ++ str " size " ++
      decimal (toUnsigned64 s.tx.out.size) ++ str " to offset " ++ decimal (toUnsigned64 off)) s
    (close s, false)
  else
    let s := zSendStop { s with tx := { s.tx with out := { s.tx.out with
      f := some { h with pos := off.toNat } } } }
    let (extra, s) := if extras.contains (str "NZ") then (str "(null)", s) else zSendInit config env s
    (sendFileMsg ⟨s.tx.out, some off.toNat, extra⟩ s, true)

/-- The end of `GET`. -/
def getEnd (config : BinkdConfig) (env : Env) (s : State) : State :=
  let s := ndForget config env s
  { s with tx := { s.tx with
      waitingForGOT := s.tx.waitingForGOT && !s.login.ndFlag.we, offReqSent := false } }

/-- `GET`. -/
def GET (config : BinkdConfig) (env : Env) (buf : List Byte) (s : State) : State × Bool :=
  match parseArgs 4 (cstr buf) with
  | some ([name, size, time, off], rest) =>
    let size := toSigned64 (strtoumax size)
    let time := safeAtol time
    let s := getFromSent env name size time s
    if (s.tx.out.f.isSome || s.tx.offReqSent) && tfileEq s.tx.out name size time then
      match s.tx.out.f with
      | none =>
        match getStatus config env (strtoumax off) s with
        | (s, false) => (s, true)
        | (s, true) => (getEnd config env s, true)
      | some h =>
        let r := getFile config env name (toSigned64 (strtoumax off))
          (getwords (rest ++ 0 :: env.tail) {}) h s
        (getEnd config env r.1, r.2)
    else (getEnd config env s, false)
  | _ => cannotParse "M_GET" s

/-! ### `M_SKIP` -/

/-- The loop of `SKIP` over the sent files, from index `n`. -/
def skipSent (name : Str) (size time : Int) : Nat → Nat → Tx → Tx
  | 0, _, tx => tx
  | fuel + 1, n, tx =>
    match tx.sentFls[n]? with
    | none => tx
    | some t =>
      if tfileEq t name size time then
        skipSent name size time fuel (n + 1)
          { tx with rSkippedFlag := true, ndAddr := t.fa, sentFls := removeSent n tx.sentFls }
      else skipSent name size time fuel (n + 1) tx

/-- `SKIP`. -/
def SKIP (config : BinkdConfig) (env : Env) (buf : List Byte) (s : State) : State × Bool :=
  match parseArgs 3 (cstr buf) with
  | some ([name, size, time], _) =>
    let size := toSigned64 (strtoumax size)
    let time := safeAtol time
    let s := { s with tx := skipSent name size time s.tx.sentFls.length 0 s.tx }
    let hit := tfileEq s.tx.out name size time
    let s := if hit then { s with tx := { s.tx with rSkippedFlag := true } } else s
    if hit ∧ s.tx.out.f.isNone then
      (msgSend2 M_ERR (str "Cannot skip ND-status") [] s, false)
    else
      let s := if hit then { s with tx := { s.tx with out := .zero } } else s
      let s := ndForget config env s
      if s.login.ndFlag.we ∨ s.login.nrFlag.we then
        ({ s with tx := { s.tx with waitingForGOT := false, offReqSent := false } }, true)
      else (s, true)
  | _ => cannotParse "M_SKIP" s

/-! ### `M_GOT` -/

/-- Writes or clears the status of `ND_addr`, unless the session has no use for it. -/
def gotStatus (config : BinkdConfig) (env : Env) (status : Option Str) (clear : Bool) (s : State) :
    State × Bool :=
  match status with
  | none => (s, true)
  | some status =>
    let (disk, rc) := ndSetStatus config env (if clear then [] else status) s.tx.ndAddr s.disk
    ({ s with disk := disk }, rc)

/-- `M_GOT` for the current file. -/
def gotOut (config : BinkdConfig) (env : Env) (status : Option Str) (s : State) : State × Bool :=
  let s := { s with tx := { s.tx with out := { s.tx.out with f := none }, ndAddr := s.tx.out.fa } }
  let (s, rc) := gotStatus config env status s.tx.offReqSent s
  let s := { s with tx := { s.tx with waitingForGOT := false, offReqSent := false } }
  let s := removeFromSpool config env s.tx.out.flo (some s.tx.out.path) s.tx.out.action s
  ({ s with tx := { s.tx with out := .zero } }, rc)

/-- `M_GOT` for the `n`-th sent file. -/
def gotSent (config : BinkdConfig) (env : Env) (status : Option Str) (n : Nat) (t : TFile) (s : State) :
    State × Bool :=
  let s := { s with tx := { s.tx with
    bytesSent := s.tx.bytesSent + t.size, filesSent := s.tx.filesSent + 1, ndAddr := t.fa } }
  let (s, rc) := gotStatus config env status (s.tx.offReqSent || !s.login.ndFlag.we) s
  let s := { s with tx := { s.tx with waitingForGOT := false } }
  let s := removeFromSpool config env t.flo (some t.path) t.action s
  ({ s with tx := { s.tx with sentFls := removeSent n s.tx.sentFls } }, rc)

/-- `GOT`. -/
def GOT (config : BinkdConfig) (env : Env) (buf : List Byte) (s : State) : State × Bool :=
  match parseArgs 3 (cstr buf) with
  | some ([name, size, time], _) =>
    let plainNr := s.login.nrFlag.we ∧ !s.login.ndFlag.we
    let s := if plainNr then ndClear config env s.tx.ndAddr s else s
    let status := if plainNr then none else some (cstr buf)
    let size := toSigned64 (strtoumax size)
    let time := safeAtol time
    if tfileEq s.tx.out name size time then gotOut config env status s
    else match s.tx.sentFls.findIdx? fun t => tfileEq t name size time with
      | none => (s, true)
      | some n => gotSent config env status n (s.tx.sentFls.getD n .zero) s
  | _ => cannotParse "M_GOT" s

end Binkd
