import Binkd.Receive

/-!
# The spool (`readflo.c`, `remove_from_spool`, `ND_set_status`, `netname_`)

Files for the remote stand in the outbound or in a filebox, or are named by the
lines of a flow file (`.?lo`).  A file that has been delivered is removed from the
spool: its flow line is marked and the action of the entry is performed.  In ND
mode the name of the last file that the remote has got is kept in a `.stc` file.
-/

namespace Binkd

/-! ### Flow files -/

/-- `read_flo_line`: the path and the action of the next line that is not marked,
and the position behind it.  The fuel bounds the lines. -/
def readFloLine : Nat → Handle → Option (Str × Byte × Handle)
  | 0, _ => none
  | fuel + 1, h =>
    match fgets maxPathLen (h.bytes.drop h.pos) with
    | none => none
    | some (line, _) =>
      let h := { h with pos := h.pos + line.length }
      match rtrim (cstr line) with
      | [] => readFloLine fuel h
      | 126 :: _ => readFloLine fuel h
      | 94 :: path => some (path, 100, h)
      | 35 :: path => some (path, 116, h)
      | path => some (path, 0, h)

/-- `trans_flo_line`: `none` where no rules are defined. -/
def transFloLine (config : BinkdConfig) (s : Str) : Option Str :=
  if config.rfRules = [] then none
  else some (config.rfRules.foldl (fun buf r => (ed buf r.1 r.2).take (maxPathLen - 1))
    (s.take (maxPathLen - 1)))

/-- What the marking of a flow file yields: its content, whether no line is left
unmarked, and whether a line was marked now. -/
structure MarkedFlo where
  bytes : List Byte
  empty : Bool
  found : Bool

/-- The loop of `remove_from_spool` over a flow file. -/
def markFlo (file : Option Str) : Nat → List Byte → MarkedFlo
  | 0, bytes => ⟨bytes, true, false⟩
  | fuel + 1, bytes =>
    match fgets maxPathLen bytes with
    | none => ⟨[], true, false⟩
    | some (line, rest) =>
      let buf := rtrim (cstr line)
      if buf = [] then
        let r := markFlo file fuel rest
        { r with bytes := line ++ r.bytes }
      else if file.any fun file =>
          file = buf ∨ ((buf.headD 0 = 94 ∨ buf.headD 0 = 35) ∧ file = buf.drop 1) then
        -- the line is read again from behind the mark
        let (line, rest) := (fgets maxPathLen (bytes.drop 1)).getD ([], [])
        let r := markFlo file fuel rest
        { r with bytes := 126 :: line ++ r.bytes, found := true }
      else
        let r := markFlo file fuel rest
        { r with bytes := line ++ r.bytes, empty := r.empty && buf.headD 0 = 126 }

/-! ### Removing files -/

/-- `add_to_killlist`. -/
def addToKilllist (name : Str) (cond : Byte) (l : List KillEntry) : List KillEntry :=
  l ++ [⟨name.take (maxPathLen - 1), cond⟩]

/-- `perform_action`. -/
def performAction (env : Env) (path : Str) (action : Byte) (s : State) : State :=
  if action = 100 then
    match s.disk.delete env path with
    | (disk, true) => { s with disk := disk }
    | (disk, false) =>
      { s with disk := disk, tx := { s.tx with nosendlist := s.tx.nosendlist ++ [path] } }
  else if action = 116 then { s with disk := (s.disk.truncFile env path).1 }
  else if action = 115 then { s with tx := { s.tx with killlist := addToKilllist path 115 s.tx.killlist } }
  else s

/-- Marks the lines of a flow file on the disk. -/
def Disk.setBytes (disk : Disk) (path : Str) (bytes : List Byte) : Disk :=
  match disk.lookup path with
  | some f => disk.insert path { f with bytes := bytes }
  | none => disk

/-- The flow-file part of `remove_from_spool`: whether a line was marked, or `none`
where the flow file cannot be opened. -/
def removeFromFlo (env : Env) (flopath : Str) (file : Option Str) (s : State) : Option Bool × State :=
  match s.tx.flo.f.filter fun _ => s.tx.flo.path = flopath with
  | some h =>
    let r := markFlo file (h.bytes.length + 1) h.bytes
    (some r.found, { s with
      disk := s.disk.setBytes flopath r.bytes
      tx := { s.tx with flo := { s.tx.flo with f := some { h with bytes := r.bytes } } } })
  | none => match s.disk.fopenR env flopath with
    | none => (none, s)
    | some h =>
      let r := markFlo file (h.bytes.length + 1) h.bytes
      let disk := s.disk.setBytes flopath r.bytes
      (some r.found, { s with disk := if r.empty then (disk.delete env flopath).1 else disk })

/-- `remove_from_spool`. -/
def removeFromSpool (config : BinkdConfig) (env : Env) (flopath : Str) (file : Option Str)
    (action : Byte) (s : State) : State :=
  let perform (w : Option Str) (s : State) : State := match w, file with
    | some w, _ => performAction env w action s
    | none, some file => performAction env file action s
    | none, none => s
  if flopath = [] then perform none s
  else match removeFromFlo env flopath file s with
    | (none, s) => s
    | (some found, s) => perform (if found then file.bind (transFloLine config) else none) s

/-! ### Status files -/

/-- The name of the status file of an address. -/
def stcName (config : BinkdConfig) (fa : FtnAddr) : Option Str :=
  if fa.z = -1 then none
  else
    let buf := ftnaddressToFilename fa config.pDomains
    if buf = [] then none else some ((buf ++ str ".stc").take maxPathLen)

/-- `ND_set_status`: writes the status file, or removes it for an empty status. -/
def ndSetStatus (config : BinkdConfig) (env : Env) (status : Str) (fa : FtnAddr) (disk : Disk) :
    Disk × Bool :=
  match stcName config fa with
  | none => (disk, false)
  | some buf =>
    if status = [] then
      match disk.delete env buf with
      | (disk, true) => (disk, true)
      | (disk, false) => (disk, (disk.lookup buf).isNone)
    else disk.rewrite env buf status

/-- `ND_set_status` with an empty status, the result unused. -/
def ndClear (config : BinkdConfig) (env : Env) (fa : FtnAddr) (s : State) : State :=
  { s with disk := (ndSetStatus config env [] fa s.disk).1 }

/-! ### Names for the remote -/

/-- `weekext`. -/
def weekext : List Str := [str "su", str "mo", str "tu", str "we", str "th", str "fr", str "sa"]

/-- An extension such as `0#x` gets the name of the weekday. -/
def weekdayExt (s : Str) : Str :=
  match strrchr 46 s with
  | some [a, 35, c] =>
    if 48 ≤ a ∧ a < 55 then s.take (s.length - 3) ++ weekext.getD (a.toNat - 48) [] ++ [c] else s
  | _ => s

/-- `netname_`. -/
def netname (env : Env) (q : TFile) : Str :=
  if q.type = 109 then hexPad 8 (env.rnd 0) ++ str ".pkt"
  else if q.type = 114 then hexPad 8 (env.rnd 0) ++ str ".req"
  else (strquote true true (weekdayExt ((extractFilename q.path).take (maxNetname - 1)))).take
    (maxNetname - 1)

/-- `tfile_cmp` is 0.  The difference of the times is returned as an `int`. -/
def tfileEq (a : TFile) (name : Str) (size time : Int) : Bool :=
  strdequote a.netname = strdequote name ∧ a.size = size ∧ toInt32 (a.time - time) = 0

end Binkd
