import Binkd.Login

/-!
# The receiving side (`start_file_recv`, the data branch of `recv_block`, `EOB`)

`startFileRecv` handles an `M_FILE` of the remote: it refuses the file, asks for
it from another offset, or opens its temporary file; `recvData` appends a data
block to the open file and, when the file is complete, renames it or, in ND mode,
leaves that to the next `M_FILE` or `M_EOB`.
-/

namespace Binkd

open Lib

/-- The name, size and time of a file, as the replies repeat them. -/
def TFile.args (f : TFile) : Str :=
  f.netname ++ [32] ++ decimal (toUnsigned64 f.size) ++ [32] ++ decimal (toUnsigned64 f.time)

/-- The reply to a message whose arguments cannot be parsed. -/
def cannotParse (id : String) (s : State) : State × Bool :=
  (msgSend2 M_ERR (str id) (str ": cannot parse args") s, false)

/-- `close_partial`. -/
def closePartial (config : BinkdConfig) (env : Env) (s : State) : State :=
  match s.rx.inf.f with
  | none => { s with rx := { s.rx with inf := .zero } }
  | some h =>
    let s := { s with rx := { s.rx with inf := { s.rx.inf with f := none } } }
    let s := if ispkt s.rx.inf.netname ∨ h.pos = 0 then inbReject config env s else s
    { s with rx := { s.rx with inf := .zero } }

/-- Renames the file that is complete, in ND mode. -/
def inCompleteDone (config : BinkdConfig) (env : Env) (s : State) : State × Bool :=
  if s.login.ndFlag.they ∧ s.rx.inComplete.netname ≠ [] then
    match inbDone config env s.rx.inComplete s with
    | (s, false) => (msgSend2 M_ERR (str "Local error saving file") [] s, false)
    | (s, true) => ({ s with rx := { s.rx with inComplete := .zero } }, true)
  else (s, true)

/-- `skip_test`: the rule that refuses the file. -/
def skipTest (config : BinkdConfig) (s : State) : Option SkipChain :=
  let amask : AddrType := (if s.login.listedFlag ≠ 0 then 1 else 2) |||
    (if s.login.state = .secure then 4 else 8)
  (config.skipmask.find? fun ps => (ps.atype &&& amask) ≠ 0 ∧
    pmatchNcase ps.mask s.rx.inf.netname).filter
    fun ps => 0 ≤ ps.size ∧ ps.size ≤ s.rx.inf.size

/-! ### `M_FILE` -/

/-- Clears what is left of the decompression of the file before. -/
def zRecvStop (s : State) : State :=
  { s with rx := { s.rx with
      zIdata := if s.rx.zRecv.isOn then none else s.rx.zIdata, zRecv := ⟨false, false⟩ } }

/-- The new file in `state->in`, if none is open. -/
def newIn (env : Env) (name size time : Str) (s : State) : State :=
  if s.rx.inf.f.isSome then s
  else { s with rx := { s.rx with inf := { s.rx.inf with
      start := env.now, netname := name.take (maxNetname - 1), size := toSigned64 (strtoumax size),
      time := safeAtol time } } }

/-- The end of opening: a file that cannot be taken is skipped. -/
def skipAll (s : State) : State :=
  let s := msgSendf M_SKIP s.rx.inf.args s
  { s with rx := { s.rx with inf := .zero } }

/-- Whether the file is open now, or the message has been answered already. -/
inductive OpenStep
  | answered (s : State)
  | opened (s : State)

/-- The part of `start_file_recv` that opens the temporary file, if none is open. -/
def openIn (config : BinkdConfig) (env : Env) (s : State) : OpenStep :=
  if s.rx.inf.f.isSome then .opened s
  else match skipTest config s with
    | some mask => .answered (msgSendf (if mask.destr then M_GOT else M_SKIP) s.rx.inf.args s)
    | none =>
      if inbTest config env s.disk s.rx.inf s.rx.inbound then .answered (msgSendf M_GOT s.rx.inf.args s)
      else if s.rx.skipAllFlag then .answered (skipAll s)
      else match inbFopen config env s with
        | (none, s) => .answered (skipAll { s with rx := { s.rx with skipAllFlag := true } })
        | (some h, s) =>
          .opened { s with rx := { s.rx with inf := { s.rx.inf with f := some h } } }

/-- The extra parameters of an `M_FILE`. -/
def recvExtras (ws : List Str) (z : ZFlag) : ZFlag :=
  ⟨z.gz || ws.contains (str "GZ"), z.bz2 || ws.contains (str "BZ2")⟩

/-- The part of `start_file_recv` behind the opening, with the file at `pos`. -/
def acceptIn (env : Env) (offReq : Bool) (offset : Int) (extras : List Str) (pos : Nat) (s : State) :
    State × Bool :=
  if offReq ∨ offset ≠ pos then
    let s := msgSendf M_GET (s.rx.inf.args ++ [32] ++ decimal pos) s
    ({ s with rx := { s.rx with inf := .zero, getFileBalance := s.rx.getFileBalance + 1 } }, true)
  else
    let s := if offset ≠ 0 ∨ s.login.nrFlag.they then
        { s with rx := { s.rx with getFileBalance := s.rx.getFileBalance - 1 } } else s
    let s := { s with rx := { s.rx with zRecv := recvExtras extras s.rx.zRecv } }
    if s.rx.zRecv.gz ∧ s.rx.zRecv.bz2 then
      (msgSend2 M_ERR (str "Can't handle GZ and BZ2 at the same time for ") s.rx.inf.netname s, false)
    else match s.rx.inf.f with
      | some h => (s, (env.fault (.seek h.path offset)).isNone)
      | none => (s, true)

/-- `start_file_recv`. -/
def startFileRecv (config : BinkdConfig) (env : Env) (buf : List Byte) (s : State) : State × Bool :=
  match parseArgs 4 (cstr buf) with
  | some ([name, size, time, off], rest) =>
    let s := zRecvStop s
    let s := if s.rx.inf.f.isSome ∧ name ≠ s.rx.inf.netname then closePartial config env s else s
    match inCompleteDone config env s with
    | (s, false) => (s, false)
    | (s, true) =>
      let s := newIn env name size time s
      let offReq : Bool := off = str "-1"
      let s := if offReq then
          { s with login := { s.login with nrFlag := { s.login.nrFlag with they := true } } } else s
      match openIn config env s with
      | .answered s => (s, true)
      | .opened s =>
        acceptIn env offReq (toSigned64 (strtoumax off)) (getwords (rest ++ 0 :: env.tail) {})
          ((s.rx.inf.f.map (·.pos)).getD 0) s
  | _ => cannotParse "M_FILE" s

/-! ### Data blocks -/

/-- Appends to the open temporary file; `none` on a write error. -/
def appendIn (env : Env) (bytes : List Byte) (s : State) : Option State :=
  match s.rx.inf.f with
  | none => some s
  | some h =>
    if (env.fault (.write h.path)).isSome then none
    else
      let h' : Handle := { h with bytes := h.bytes ++ bytes, pos := h.bytes.length + bytes.length }
      some { s with
        disk := match s.disk.lookup h.path with
          | some f => s.disk.insert h.path { f with bytes := f.bytes ++ bytes, mtime := env.now }
          | none => s.disk
        rx := { s.rx with inf := { s.rx.inf with f := some h' } }
        ops := .append h.path bytes :: s.ops }

/-- The loop of `recv_block` around `do_decompress`: the last return code.  The
source may go round for ever; the fuel is enough for every codec that takes input
or leaves output in each call and leaves at most a block of output for each byte. -/
def unzLoop (config : BinkdConfig) (env : Env) (type : Nat) :
    Nat → List (Call Byte) → List Byte → Int → State → Option (List (Call Byte) × Int × State)
  | 0, _, _, _, _ => none
  | fuel + 1, hist, buf, rc, s =>
    if buf = [] then some (hist, rc, s)
    else
      let k : Call Byte := ⟨buf, zblksize, false⟩
      let a := config.zlib.doDecompress type hist k
      if a.rc < 0 then none
      else match (if a.out ≠ [] then appendIn env a.out s else some s) with
        | none => none
        | some s => unzLoop config env type fuel (k :: hist) (buf.drop a.used) a.rc s

/-- Puts a data block into the open file; `none` on an error. -/
def storeData (config : BinkdConfig) (env : Env) (payload : List Byte) (s : State) : Option State :=
  if s.rx.zRecv.isOn then
    if s.rx.zIdata.isNone ∧ !env.zInit then none
    else
      match unzLoop config env (if s.rx.zRecv.bz2 then 2 else 1) (2048 * (payload.length + 1))
          (s.rx.zIdata.getD []) payload 0 s with
      | none => none
      | some (hist, rc, s) =>
        some { s with rx := { s.rx with zIdata := if rc = 1 then none else some hist } }
  else if payload ≠ [] then appendIn env payload s
  else some s

/-- What `recv_block` does with a file that is complete. -/
def completeIn (config : BinkdConfig) (env : Env) (s : State) : State × Bool :=
  let s := { s with rx := { s.rx with inf := { s.rx.inf with f := none }
                                      zIdata := if s.rx.zRecv.isOn then none else s.rx.zIdata } }
  let got (s : State) : State × Bool :=
    let s := msgSendf M_GOT s.rx.inf.args s
    ({ s with rx := { s.rx with inf := .zero } }, true)
  if s.login.ndFlag.they then got { s with rx := { s.rx with inComplete := s.rx.inf } }
  else match inbDone config env s.rx.inf s with
    | (s, false) => (msgSend2 M_ERR (str "Local error saving file") [] s, false)
    | (s, true) => got s

/-- The data branch of `recv_block`. -/
def recvData (config : BinkdConfig) (env : Env) (payload : List Byte) (s : State) : State × Bool :=
  if s.rx.inf.f.isNone then (s, true)
  else match storeData config env payload s with
    | none => (s, false)
    | some s => match s.rx.inf.f with
      | none => (s, true)
      | some h =>
        if (h.pos : Int) = s.rx.inf.size then
          if (env.fault (.close h.path)).isSome then
            ({ s with rx := { s.rx with inf := { s.rx.inf with f := none } } }, false)
          else completeIn config env s
        else (s, (h.pos : Int) < s.rx.inf.size)

/-! ### `M_EOB` -/

/-- The file that the end of the batch interrupts. -/
def eobPartial (config : BinkdConfig) (env : Env) (s : State) : State :=
  match s.rx.inf.f with
  | none => s
  | some h =>
    if !s.login.nrFlag.they ∧ h.pos ≠ 0 then
      let s := inbReject config env { s with rx := { s.rx with inf := { s.rx.inf with f := none } } }
      { s with rx := { s.rx with inf := .zero } }
    else closePartial config env s

/-- `EOB`. -/
def EOB (config : BinkdConfig) (env : Env) (s : State) : State × Bool :=
  let s := { s with rx := { s.rx with remoteEOB := true } }
  match inCompleteDone config env (eobPartial config env s) with
  | (s, false) => (s, false)
  | (s, true) => ({ s with login := { s.login with delayEob := 0 } }, true)

end Binkd
