import Binkd.Pkt
import Binkd.State

/-!
# The output side of `protocol.c`

`msgSend2` puts a message into the queue, already encrypted when the session is;
`sendBlock` sends what is left in the output buffer, or packs queued messages into
it, or builds the next data block of the file in transfer.  A data block is only
built when no message is waiting, so that the order in which the frames are
encrypted is the order in which they go out.
-/

namespace Binkd

open Lib

/-! ### Frames -/

/-- `mkhdr`. -/
def mkhdr (u : Nat) : List Byte := [(u / 256).toUInt8, u.toUInt8]

/-- `sizeof (msg_text) - 1` in `msg_sendf`. -/
def msgTextMax : Nat := maxPathLen + 80 - 1

/-- Is it a message, and what follows the header? -/
def Item.imsg : Item → Bool
  | .data _ => false
  | _ => true

def Item.body : Item → List Byte
  | .msg t text => t :: text
  | .file m => M_FILE :: m.text.take msgTextMax
  | .data payload => payload

/-- The frame on the wire, before encryption. -/
def Item.bytes (i : Item) : List Byte :=
  mkhdr (if i.imsg then i.body.length ||| 0x8000 else i.body.length) ++ i.body

/-- `encrypt_buf`, if the session is encrypted. -/
def Link.encode (crypt : CryptFlag) (bytes : List Byte) (l : Link) : List Byte × Keys 64 :=
  if crypt = .on then encryptBuf bytes l.keysOut else (bytes, l.keysOut)

/-- A message goes into the queue. -/
def Link.queue (crypt : CryptFlag) (i : Item) (l : Link) : Link :=
  let r := l.encode crypt i.bytes
  { l with
    msgs := l.msgs ++ [r.1], keysOut := r.2, msgsInBatch := l.msgsInBatch + 1, log := i :: l.log }

/-- A data block becomes the content of the output buffer. -/
def Link.build (crypt : CryptFlag) (payload : List Byte) (l : Link) : Link :=
  let r := l.encode crypt (Item.data payload).bytes
  { l with pend := r.1, keysOut := r.2, log := .data payload :: l.log }

/-- `msg_send2`. -/
def msgSend2 (m : Byte) (s1 s2 : Str) (s : State) : State :=
  { s with link := s.link.queue s.login.cryptFlag (.msg m (s1 ++ s2)) }

/-- `msg_sendf`, with the text as formatted. -/
def msgSendf (m : Byte) (text : Str) (s : State) : State := msgSend2 m (text.take msgTextMax) [] s

/-- `msg_sendf` of an `M_FILE`. -/
def sendFileMsg (m : FileMsg) (s : State) : State :=
  { s with link := s.link.queue s.login.cryptFlag (.file { m with file := { m.file with f := none } }) }

section
variable (m : Byte) (a b : Str) (fm : FileMsg) (s : State)

@[simp] theorem msgSend2_toNode : (msgSend2 m a b s).toNode = s.toNode := rfl
@[simp] theorem msgSend2_remoteFa : (msgSend2 m a b s).remoteFa = s.remoteFa := rfl
@[simp] theorem msgSend2_login : (msgSend2 m a b s).login = s.login := rfl
@[simp] theorem msgSend2_tx : (msgSend2 m a b s).tx = s.tx := rfl
@[simp] theorem msgSend2_rx : (msgSend2 m a b s).rx = s.rx := rfl
@[simp] theorem msgSend2_disk : (msgSend2 m a b s).disk = s.disk := rfl
@[simp] theorem msgSend2_ops : (msgSend2 m a b s).ops = s.ops := rfl
@[simp] theorem msgSendf_toNode : (msgSendf m a s).toNode = s.toNode := rfl
@[simp] theorem msgSendf_remoteFa : (msgSendf m a s).remoteFa = s.remoteFa := rfl
@[simp] theorem msgSendf_login : (msgSendf m a s).login = s.login := rfl
@[simp] theorem msgSendf_tx : (msgSendf m a s).tx = s.tx := rfl
@[simp] theorem msgSendf_rx : (msgSendf m a s).rx = s.rx := rfl
@[simp] theorem msgSendf_disk : (msgSendf m a s).disk = s.disk := rfl
@[simp] theorem msgSendf_ops : (msgSendf m a s).ops = s.ops := rfl
@[simp] theorem sendFileMsg_toNode : (sendFileMsg fm s).toNode = s.toNode := rfl
@[simp] theorem sendFileMsg_login : (sendFileMsg fm s).login = s.login := rfl
@[simp] theorem sendFileMsg_tx : (sendFileMsg fm s).tx = s.tx := rfl
@[simp] theorem sendFileMsg_rx : (sendFileMsg fm s).rx = s.rx := rfl
@[simp] theorem sendFileMsg_disk : (sendFileMsg fm s).disk = s.disk := rfl
@[simp] theorem sendFileMsg_ops : (sendFileMsg fm s).ops = s.ops := rfl

end

/-! ### Reading the file in transfer -/

/-- `fread` of `n` bytes, which fails when the file is too short. -/
def Handle.read (n : Nat) (h : Handle) : Option (List Byte × Handle) :=
  if h.bytes.length < h.pos + n then none
  else some ((h.bytes.drop h.pos).take n, { h with pos := h.pos + n })

theorem Handle.read_spec {n : Nat} {h h' : Handle} {bytes : List Byte} (hread : h.read n = some (bytes, h')) :
    bytes.length = n ∧ h'.pos = h.pos + n := by
  unfold read at hread
  split_ifs at hread with hshort
  obtain ⟨rfl, rfl⟩ := Prod.mk.inj (Option.some.inj hread)
  refine ⟨?_, rfl⟩
  rw [List.length_take, List.length_drop]
  omega

/-- What the compression loop leaves: the calls made, the file, the part of the
buffer not taken, the output, and whether the compressed stream has ended. -/
structure ZOut where
  hist : List (Call Byte)
  h : Handle
  rest : List Byte
  obuf : List Byte
  ended : Bool

/-- The loop of `send_block` around `do_compress`.  The fuel is enough for every
codec that takes input or leaves output in each call. -/
def zLoop (z : Stepper Byte) (oblksize : Nat) (size : Int) :
    Nat → List (Call Byte) → Handle → List Byte → List Byte → Option ZOut
  | 0, _, _, _, _ => none
  | fuel + 1, hist, h, zbuf, obuf =>
    let fleft := (size - h.pos).toNat
    let k : Call Byte := ⟨zbuf, oblksize - obuf.length, fleft = 0⟩
    let a := z hist k
    if a.rc = -1 then none
    else if fleft = 0 ∧ a.rc = 1 then
      some ⟨k :: hist, h, zbuf.drop a.used, obuf ++ a.out, true⟩
    else if (obuf ++ a.out).length = oblksize then
      some ⟨k :: hist, h, zbuf.drop a.used, obuf ++ a.out, false⟩
    else if min fleft zblksize = 0 then zLoop z oblksize size fuel (k :: hist) h [] (obuf ++ a.out)
    else match h.read (min fleft zblksize) with
      | none => none
      | some (bytes, h) => zLoop z oblksize size fuel (k :: hist) h bytes (obuf ++ a.out)

/-- The compressor for a value of `z_send`. -/
def ZSend.stepper (z : ZSend) (config : BinkdConfig) : Stepper Byte :=
  config.zlib.doCompress (match z with | .bz2 => 2 | _ => 1)

/-- The address that a packet for a shared address is redirected to. -/
def pktTarget (s : State) : Option FtnAddr :=
  match s.toNode with
  | some n => some n.fa
  | none => s.login.fa.head?

/-- The first block of a packet for a shared address is readdressed to the main
address of the remote and gets its packet password. -/
def pktReaddress (config : BinkdConfig) (env : Env) (s : State) (pos : Nat) (buf : List Byte) :
    List Byte :=
  if pos = buf.length ∧ buf.length ≥ 60 ∧ ispkt s.tx.out.netname then
    match pktGetaddr buf with
    | none => buf
    | some (_, d) =>
      match config.shares.find? fun chn =>
          chn.sha.z.toInt = d.z ∧ chn.sha.net.toInt = d.net ∧ chn.sha.node.toInt = d.node ∧
            chn.sha.p.toInt = d.p with
      | none => buf
      | some _ => match pktTarget s with
        | none => buf
        | some fa =>
          let buf := pktSetaddr buf {} ⟨toShort fa.z.toInt, toShort fa.net.toInt, toShort fa.node.toInt,
            toShort fa.p.toInt⟩
          let fn := match s.toNode with
            | some n => some n
            | none => getNodeInfo env.now fa config
          pktSetPwd buf (match fn.bind (·.pktPwd) with
            | some pwd => pwd ++ 0 :: env.tail
            | none => [])
  else buf

theorem pktReaddress_length (config : BinkdConfig) (env : Env) (s : State) (pos : Nat) (buf : List Byte) :
    (pktReaddress config env s pos buf).length = buf.length := by
  unfold pktReaddress
  split
  · split
    · rfl
    · split
      · rfl
      · split
        · rfl
        · dsimp only
          rw [pktSetPwd_length, pktSetaddr_length]
  · rfl

/-! ### `send_block` -/

/-- `current_file_was_sent`. -/
def currentFileWasSent (s : State) : State :=
  { s with tx := { s.tx with
      sentFls := s.tx.sentFls ++ [{ s.tx.out with f := none }], out := .zero,
      waitingForGOT := s.tx.waitingForGOT || s.login.ndFlag.we } }

/-- The loop that moves queued messages into the output buffer: the buffer and the
messages left; `none` on a message that is too big. -/
def fillObuf : List (List Byte) → List Byte → Option (List Byte × List (List Byte))
  | [], obuf => some (obuf, [])
  | m :: msgs, obuf =>
    if m.length - 2 > maxBlksize then none
    else if obuf.length + m.length > maxBlksize then some (obuf, m :: msgs)
    else fillObuf msgs (obuf ++ m)

/-- A plain data block: the payload and the file behind it. -/
def plainBlock (config : BinkdConfig) (env : Env) (h : Handle) (s : State) :
    Option (List Byte × State) :=
  match h.read (min config.oblksize (s.tx.out.size - h.pos).toNat) with
  | none => none
  | some (bytes, h) => some (pktReaddress config env s h.pos bytes,
      { s with tx := { s.tx with out := { s.tx.out with f := some h } } })

/-- A compressed data block. -/
def zBlock (config : BinkdConfig) (env : Env) (h : Handle) (s : State) :
    Option (List Byte × State) :=
  let left := (s.tx.out.size - h.pos).toNat
  match h.read (min (zblksize - s.tx.zObuf.length) left) with
  | none => none
  | some (bytes, h) =>
    let zbuf := s.tx.zObuf ++ pktReaddress config env s h.pos bytes
    match zLoop (s.tx.zSend.stepper config) config.oblksize s.tx.out.size
        (left + zbuf.length + config.oblksize + 2) (s.tx.zOdata.getD []) h zbuf [] with
    | none => none
    | some r => some (r.obuf,
        { s with tx := { s.tx with
            out := { s.tx.out with f := some r.h }, zObuf := r.rest,
            zSend := if r.ended then .off else s.tx.zSend,
            zOdata := if r.ended then none else some r.hist } })

/-- A data block of the file in transfer. -/
def fileBlock (config : BinkdConfig) (env : Env) (h : Handle) (s : State) :
    Option (List Byte × State) :=
  if s.tx.zSend = .off then plainBlock config env h s else zBlock config env h s

/-- The file has been sent when the block is empty or the end is reached, and the
compressor has nothing more to say. -/
def fileEnded (payload : List Byte) (tx : Tx) : Bool :=
  match tx.out.f with
  | some h => (payload = [] || tx.out.size = h.pos) && tx.zSend = .off
  | none => false

/-- The data branch of `send_block`. -/
def sendData (config : BinkdConfig) (env : Env) (s : State) : State × Bool :=
  match s.tx.out.f with
  | none => ({ s with
      tx := { s.tx with sendEof := false }, link := s.link.build s.login.cryptFlag [] }, true)
  | some h => match fileBlock config env h s with
    | none => (s, false)
    | some (payload, s) =>
      let s := if fileEnded payload s.tx then currentFileWasSent s else s
      ({ s with link := s.link.build s.login.cryptFlag payload }, true)

/-- The message branch of `send_block`.  On a message that is too big the output
pointer is left behind what was packed, on bytes that were there before. -/
def sendMsgs (env : Env) (s : State) : State × Bool :=
  match fillObuf s.link.msgs [] with
  | some (obuf, msgs) => ({ s with link := { s.link with pend := obuf, msgs := msgs } }, true)
  | none =>
    let good := s.link.msgs.takeWhile fun m => m.length - 2 ≤ maxBlksize
    let n := good.flatten.length
    ({ s with link := { s.link with
        pend := (env.tail ++ List.replicate n 0).take n, msgs := s.link.msgs.drop good.length } }, false)

/-- The result of `send` or `write`. -/
inductive SendResult
  | sent (n : Nat)
  | wouldBlock
  | error
deriving DecidableEq

/-- The branch of `send_block` that sends what is left in the output buffer. -/
def sendPend (r : SendResult) (s : State) : State × Bool :=
  match r with
  | .sent n => ({ s with link := { s.link with pend := s.link.pend.drop n } }, true)
  | .wouldBlock => (s, true)
  | .error => ({ s with link := { s.link with ioError := true } }, false)

/-- `send_block`; the flag is false where it returns 0. -/
def sendBlock (config : BinkdConfig) (env : Env) (r : SendResult) (s : State) : State × Bool :=
  if s.link.pend ≠ [] then sendPend r s
  else if s.link.msgs ≠ [] then sendMsgs env s
  else if (s.tx.out.f.isSome && !s.tx.offReqSent && !s.tx.waitingForGOT) || s.tx.sendEof then
    sendData config env s
  else (s, true)

end Binkd
