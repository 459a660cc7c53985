import Binkd.Misc.FreqRun
import Binkd.Lib.Records

/-!
# The binary logs (`binlog.c`)

At the end of a session binkd appends a record to the log of T-Mail, and one to a history of FrontDoor:
the one of outgoing or the one of incoming calls.  The records have one size, their numbers are written
with the low byte first, and their strings are cut and filled up with zeros.

Whatever the sessions were, a log is read back as the records of those sessions that could open it,
in their order (`binLogs_read`).
-/

namespace Binkd

open Lib

/-! ### Numbers -/

/-- `fput16`. -/
def fput16 (arg : UInt16) : List Byte := [(arg.toNat % 256).toUInt8, (arg.toNat / 256).toUInt8]

/-- `fput32`. -/
def fput32 (arg : UInt32) : List Byte :=
  fput16 (arg.toNat % 65536).toUInt16 ++ fput16 (arg.toNat / 65536).toUInt16

/-- The number in two bytes, and in four. -/
def fget16 (l : List Byte) : UInt16 := ((l.getD 0 0).toNat + (l.getD 1 0).toNat * 256).toUInt16
def fget32 (l : List Byte) : UInt32 := ((fget16 l).toNat + (fget16 (l.drop 2)).toNat * 65536).toUInt32

@[simp] theorem length_fput16 (x : UInt16) : (fput16 x).length = 2 := rfl
@[simp] theorem length_fput32 (x : UInt32) : (fput32 x).length = 4 := rfl

theorem fget16_fput16 (x : UInt16) (rest : List Byte) : fget16 (fput16 x ++ rest) = x := by
  have hx := x.toNat_lt
  refine UInt16.toNat_inj.mp ?_
  unfold fget16 fput16
  simp only [List.cons_append, List.nil_append, List.getD_cons_zero, List.getD_cons_succ, UInt16.toNat_ofNat',
    UInt8.toNat_ofNat']
  omega

theorem fget32_fput32 (x : UInt32) (rest : List Byte) : fget32 (fput32 x ++ rest) = x := by
  have hx := x.toNat_lt
  refine UInt32.toNat_inj.mp ?_
  unfold fget32 fput32
  rw [List.append_assoc, fget16_fput16, List.drop_left' (length_fput16 _), fget16_fput16]
  simp only [UInt32.toNat_ofNat', UInt16.toNat_ofNat']
  omega

/-! ### Strings -/

/-- What an array of `n` characters holds: a string with its NUL. -/
structure CharArray (n : ℕ) where
  text : Str
  nul : 0 ∉ text
  fits : text.length < n

/-- `strnzcpy` into an array; behind the string it writes zeros. -/
theorem strnzcpy_nul (src : Str) (n : ℕ) : 0 ∉ strnzcpy (cstr src) n := by
  intro h
  have hmem := List.mem_takeWhile_imp (List.mem_of_mem_take h)
  simp at hmem

theorem strnzcpy_fits (src : Str) (n : ℕ) : (strnzcpy (cstr src) (n + 1)).length < n + 1 :=
  Nat.lt_succ_of_le (List.length_take_le _ _)

def CharArray.copy (n : ℕ) (src : Str) : CharArray (n + 1) :=
  ⟨strnzcpy (cstr src) (n + 1), strnzcpy_nul src (n + 1), strnzcpy_fits src n⟩

/-- `fwrite` of an array. -/
def CharArray.bytes {n : ℕ} (a : CharArray n) : List Byte := a.text ++ List.replicate (n - a.text.length) 0

@[simp] theorem CharArray.length_bytes {n : ℕ} (a : CharArray n) : a.bytes.length = n := by
  have := a.fits
  rw [bytes, List.length_append, List.length_replicate]
  omega

/-- An array is read as far as its NUL. -/
theorem CharArray.copy_bytes {n : ℕ} (a : CharArray (n + 1)) (rest : List Byte) :
    CharArray.copy n ((a.bytes ++ rest).take (n + 1)) = a := by
  obtain ⟨text, nul, fits⟩ := a
  have hcstr : cstr (text ++ List.replicate (n + 1 - text.length) 0) = text := by
    obtain ⟨k, hk⟩ : ∃ k, n + 1 - text.length = k + 1 := ⟨n - text.length, by omega⟩
    rw [hk, List.replicate_succ]
    unfold cstr
    rw [List.takeWhile_append_of_pos fun c hc => by simpa using fun h : c = 0 => nul (h ▸ hc)]
    simp
  unfold CharArray.copy
  congr 1
  rw [List.take_left' (CharArray.length_bytes _)]
  unfold CharArray.bytes
  dsimp only
  rw [hcstr, strnzcpy, List.take_of_length_le (by omega)]

/-! ### Records -/

/-- `TS`: a record of T-Mail. -/
structure TLogRec where
  fZone : UInt16
  fNet : UInt16
  fNode : UInt16
  fPoint : UInt16
  fSTime : UInt32
  fLTime : UInt32
  fBReceive : UInt32
  fBSent : UInt32
  fFReceive : Byte
  fFSent : Byte
  fStatus : UInt16

/-- `std`: a record of FrontDoor. -/
structure FdLogRec where
  zone : UInt16
  net : UInt16
  node : UInt16
  point : UInt16
  domain : CharArray 16
  timeStart : UInt32
  timeEnd : UInt32
  stationName : CharArray 32
  stationLoc : CharArray 40
  received : UInt32
  sent : UInt32
  cost : UInt32

def TLogRec.bytes (r : TLogRec) : List Byte :=
  fput16 r.fZone ++ (fput16 r.fNet ++ (fput16 r.fNode ++ (fput16 r.fPoint ++ (fput32 r.fSTime ++
    (fput32 r.fLTime ++ (fput32 r.fBReceive ++ (fput32 r.fBSent ++ (r.fFReceive :: r.fFSent ::
      fput16 r.fStatus))))))))

def FdLogRec.bytes (r : FdLogRec) : List Byte :=
  fput16 r.zone ++ (fput16 r.net ++ (fput16 r.node ++ (fput16 r.point ++ (r.domain.bytes ++ (fput32 r.timeStart ++
    (fput32 r.timeEnd ++ (r.stationName.bytes ++ (r.stationLoc.bytes ++ (fput32 r.received ++ (fput32 r.sent ++
      (fput32 r.cost ++ [])))))))))))

/-- A reader takes a part of the record, and goes on behind it. -/
def next16 (l : List Byte) : UInt16 × List Byte := (fget16 l, l.drop 2)
def next32 (l : List Byte) : UInt32 × List Byte := (fget32 l, l.drop 4)
def nextChars (n : ℕ) (l : List Byte) : CharArray (n + 1) × List Byte :=
    (.copy n (l.take (n + 1)), l.drop (n + 1))

def TLogRec.read (l : List Byte) : TLogRec :=
  let (fZone, l) := next16 l
  let (fNet, l) := next16 l
  let (fNode, l) := next16 l
  let (fPoint, l) := next16 l
  let (fSTime, l) := next32 l
  let (fLTime, l) := next32 l
  let (fBReceive, l) := next32 l
  let (fBSent, l) := next32 l
  let (fFReceive, fFSent) := (l.getD 0 0, l.getD 1 0)
  ⟨fZone, fNet, fNode, fPoint, fSTime, fLTime, fBReceive, fBSent, fFReceive, fFSent, (next16 (l.drop 2)).1⟩

def FdLogRec.read (l : List Byte) : FdLogRec :=
  let (zone, l) := next16 l
  let (net, l) := next16 l
  let (node, l) := next16 l
  let (point, l) := next16 l
  let (domain, l) := nextChars 15 l
  let (timeStart, l) := next32 l
  let (timeEnd, l) := next32 l
  let (stationName, l) := nextChars 31 l
  let (stationLoc, l) := nextChars 39 l
  let (received, l) := next32 l
  let (sent, l) := next32 l
  ⟨zone, net, node, point, domain, timeStart, timeEnd, stationName, stationLoc, received, sent, (next32 l).1⟩

theorem TLogRec.length_bytes (r : TLogRec) : r.bytes.length = 28 := rfl

theorem FdLogRec.length_bytes (r : FdLogRec) : r.bytes.length = 116 := by
  simp [bytes]

theorem next16_fput16 (x : UInt16) (rest : List Byte) : next16 (fput16 x ++ rest) = (x, rest) :=
  Prod.ext (fget16_fput16 x rest) (List.drop_left' (length_fput16 x))

theorem next32_fput32 (x : UInt32) (rest : List Byte) : next32 (fput32 x ++ rest) = (x, rest) :=
  Prod.ext (fget32_fput32 x rest) (List.drop_left' (length_fput32 x))

theorem nextChars_bytes {n : ℕ} (a : CharArray (n + 1)) (rest : List Byte) :
    nextChars n (a.bytes ++ rest) = (a, rest) :=
  Prod.ext (a.copy_bytes rest) (List.drop_left' a.length_bytes)

theorem TLogRec.read_bytes (r : TLogRec) : TLogRec.read r.bytes = r := by
  have hlast := next16_fput16 r.fStatus []
  rw [List.append_nil] at hlast
  unfold read bytes
  simp only [next16_fput16, next32_fput32, List.getD_cons_zero, List.getD_cons_succ, List.drop_succ_cons,
    List.drop_zero, hlast]

theorem FdLogRec.read_bytes (r : FdLogRec) : FdLogRec.read r.bytes = r := by
  unfold read bytes
  simp only [next16_fput16, next32_fput32, nextChars_bytes]

/-! ### Sessions -/

/-- What a session leaves for the logs: `tzOff` is `tz_off`, in minutes. -/
structure LogSession where
  env : Env := {}
  /-- the session has succeeded -/
  status : Bool := false
  toFa : Option FtnAddr := none
  fa : Option FtnAddr := none
  startTime : Int := 0
  tzOff : Int → Int := fun _ => 0
  bytesRcvd : ℕ := 0
  bytesSent : ℕ := 0
  filesRcvd : Int32 := 0
  filesSent : Int32 := 0
  sysname : Str := []
  location : Str := []

/-- A time as it is cut to 32 bits. -/
def time32 (t : Int) : UInt32 := (t % 4294967296).toNat.toUInt32

/-- The record of `TLogStat`. -/
def tLogRec (s : LogSession) : TLogRec :=
  let fa := (s.toFa.or s.fa).getD ⟨[], 0, 0, 0, 0⟩
  let fStatus : UInt16 := if s.toFa.isSome then 1 else if s.fa.isSome then 2 else 0
  { fZone := fa.z.toUInt32.toUInt16, fNet := fa.net.toUInt32.toUInt16, fNode := fa.node.toUInt32.toUInt16
    fPoint := fa.p.toUInt32.toUInt16
    fSTime := time32 (s.startTime + s.tzOff s.startTime * 60), fLTime := time32 (s.env.now - s.startTime)
    fBReceive := s.bytesRcvd.toUInt32, fBSent := s.bytesSent.toUInt32
    fFReceive := s.filesRcvd.toUInt32.toUInt8, fFSent := s.filesSent.toUInt32.toUInt8
    fStatus := if s.status then fStatus ||| 3 else fStatus }

/-- The record of `FDLogStat`, where the remote has an address. -/
def fdLogRec (fa : FtnAddr) (s : LogSession) : FdLogRec where
  zone := fa.z.toUInt32.toUInt16
  net := fa.net.toUInt32.toUInt16
  node := fa.node.toUInt32.toUInt16
  point := fa.p.toUInt32.toUInt16
  domain := .copy 15 fa.domain
  timeStart := time32 (s.startTime + s.tzOff s.startTime * 60)
  timeEnd := time32 (s.env.now + s.tzOff s.env.now * 60)
  stationName := .copy 31 s.sysname
  stationLoc := .copy 39 s.location
  received := s.bytesRcvd.toUInt32
  sent := s.bytesSent.toUInt32
  cost := 0

/-- The paths of the logs; an empty one switches a log off. -/
structure LogPaths where
  binlogpath : Str := []
  fdinhist : Str := []
  fdouthist : Str := []

/-- `fopen (path, "ab")`, the writes and `fclose`; a log that cannot be opened stays as it is.  Whether the
writes succeed is not looked at, here as in the source. -/
def appendLog (env : Env) (path : Str) (bytes : List Byte) (disk : Disk) : Disk :=
  if (env.fault (.openW path)).isSome then disk else disk.append env.now path bytes

/-- `TLogStat`. -/
def tLogStat (paths : LogPaths) (s : LogSession) (disk : Disk) : Disk :=
  if paths.binlogpath = [] then disk else appendLog s.env paths.binlogpath (tLogRec s).bytes disk

/-- The history of a session. -/
def fdHist (paths : LogPaths) (s : LogSession) : Str :=
    if s.toFa.isSome then paths.fdouthist else paths.fdinhist

/-- `FDLogStat`. -/
def fdLogStat (paths : LogPaths) (s : LogSession) (disk : Disk) : Disk :=
  match s.fa with
  | none => disk
  | some fa => if fdHist paths s = [] then disk else appendLog s.env (fdHist paths s) (fdLogRec fa s).bytes disk

/-- `BinLogStat`. -/
def binLogStat (paths : LogPaths) (disk : Disk) (s : LogSession) : Disk :=
  fdLogStat paths s (tLogStat paths s disk)

/-- A log can be opened at the end of the session. -/
def LogSession.opens (path : Str) (s : LogSession) : Bool := (s.env.fault (.openW path)).isNone

/-- The record that a session leaves in a log of T-Mail, and in a history of FrontDoor. -/
def tRecord (paths : LogPaths) (path : Str) (s : LogSession) : Option TLogRec :=
  if paths.binlogpath = path ∧ s.opens path then some (tLogRec s) else none

def fdRecord (paths : LogPaths) (path : Str) (s : LogSession) : Option FdLogRec :=
  if fdHist paths s = path ∧ s.opens path then s.fa.map fun fa => fdLogRec fa s else none

variable {paths : LogPaths} {disk : Disk} {path : Str}

theorem content_appendLog (s : LogSession) (log : Str) (bytes : List Byte) (disk : Disk) (path : Str) :
    ((appendLog s.env log bytes disk).content path).getD [] =
      (disk.content path).getD [] ++ if log = path ∧ s.opens path then bytes else [] := by
  unfold appendLog
  by_cases hpath : log = path
  · rw [hpath]
    by_cases hopens : s.opens path = true
    · rw [if_neg (by simpa [LogSession.opens] using hopens), if_pos ⟨rfl, hopens⟩, content_append, if_pos rfl,
        Option.getD_some]
    · rw [if_pos (by simpa [LogSession.opens, Option.ne_none_iff_isSome] using hopens),
        if_neg fun h => hopens h.2, List.append_nil]
  · have hnot : ¬(log = path ∧ s.opens path = true) := fun h => hpath h.1
    rw [if_neg hnot, List.append_nil]
    split_ifs
    · rfl
    · rw [content_append, if_neg fun h => hpath h.symm]

theorem content_tLogStat (s : LogSession) (disk : Disk) (hpath : path ≠ []) :
    ((tLogStat paths s disk).content path).getD [] =
      (disk.content path).getD [] ++ (tRecord paths path s).toList.flatMap TLogRec.bytes := by
  unfold tLogStat tRecord
  by_cases hoff : paths.binlogpath = []
  · rw [if_pos hoff, if_neg fun h => hpath (h.1.symm.trans hoff)]
    simp
  · rw [if_neg hoff, content_appendLog]
    split_ifs
    · simp
    · simp

theorem content_fdLogStat (s : LogSession) (disk : Disk) (hpath : path ≠ []) :
    ((fdLogStat paths s disk).content path).getD [] =
      (disk.content path).getD [] ++ (fdRecord paths path s).toList.flatMap FdLogRec.bytes := by
  unfold fdLogStat fdRecord
  cases s.fa with
  | none => simp
  | some fa =>
    dsimp only
    by_cases hoff : fdHist paths s = []
    · rw [if_pos hoff, if_neg fun h => hpath (h.1.symm.trans hoff)]
      simp
    · rw [if_neg hoff, content_appendLog]
      split_ifs
      · simp
      · simp

/-- **One session** appends at most one record to each log. -/
theorem content_binLogStat (s : LogSession) (disk : Disk) (hpath : path ≠ []) :
    ((binLogStat paths disk s).content path).getD [] = (disk.content path).getD [] ++
      ((tRecord paths path s).toList.flatMap TLogRec.bytes ++
        (fdRecord paths path s).toList.flatMap FdLogRec.bytes) := by
  unfold binLogStat
  rw [content_fdLogStat s _ hpath, content_tLogStat s disk hpath, List.append_assoc]

/-- A log that gets records of one kind only. -/
theorem content_logs {α : Type} {bytes : α → List Byte} {record : LogSession → Option α} (hpath : path ≠ [])
    (hkind : ∀ s, (tRecord paths path s).toList.flatMap TLogRec.bytes ++
      (fdRecord paths path s).toList.flatMap FdLogRec.bytes = (record s).toList.flatMap bytes)
    (sessions : List LogSession) (disk : Disk) (old : List α) (hold : (disk.content path).getD [] = old.flatMap bytes) :
    ((sessions.foldl (binLogStat paths) disk).content path).getD [] =
      (old ++ sessions.filterMap record).flatMap bytes := by
  induction sessions generalizing disk old with
  | nil => rw [List.foldl_nil, List.filterMap_nil, List.append_nil, hold]
  | cons s sessions ih =>
    have hstep : ((binLogStat paths disk s).content path).getD [] = (old ++ (record s).toList).flatMap bytes := by
      rw [content_binLogStat s disk hpath, hkind, hold, List.flatMap_append]
    rw [List.foldl_cons, ih _ _ hstep, List.append_assoc]
    cases hs : record s with
    | none => rw [List.filterMap_cons_none hs]; rfl
    | some r => rw [List.filterMap_cons_some hs]; rfl

/-- **The logs are read back**: after any sessions a log of T-Mail consists of the records that were in it and
of one record for each session that could open it, in their order; and a history of FrontDoor of
one for each session of its direction that could open it and knew an address of the remote. -/
theorem binLogs_read (paths : LogPaths) (hin : paths.fdinhist ≠ paths.binlogpath)
    (hout : paths.fdouthist ≠ paths.binlogpath) (sessions : List LogSession) (disk : Disk) (path : Str)
    (hpath : path ≠ []) :
    (path = paths.binlogpath → ∀ old, (disk.content path).getD [] = old.flatMap TLogRec.bytes →
      readRecords TLogRec.read 28 (((sessions.foldl (binLogStat paths) disk).content path).getD []) =
        old ++ sessions.filterMap (tRecord paths path)) ∧
    (path ≠ paths.binlogpath → ∀ old, (disk.content path).getD [] = old.flatMap FdLogRec.bytes →
      readRecords FdLogRec.read 116 (((sessions.foldl (binLogStat paths) disk).content path).getD []) =
        old ++ sessions.filterMap (fdRecord paths path)) := by
  refine ⟨?_, fun hother old hold => ?_⟩
  · rintro rfl old hold
    have hhist : ∀ s, fdHist paths s ≠ paths.binlogpath := by
      intro s
      unfold fdHist
      split_ifs
      · exact hout
      · exact hin
    have hkind : ∀ s, (tRecord paths paths.binlogpath s).toList.flatMap TLogRec.bytes ++
        (fdRecord paths paths.binlogpath s).toList.flatMap FdLogRec.bytes =
          (tRecord paths paths.binlogpath s).toList.flatMap TLogRec.bytes := by
      intro s
      rw [fdRecord, if_neg fun h => hhist s h.1]
      simp
    rw [content_logs hpath hkind sessions disk old hold, ← List.append_nil (List.flatMap _ _)]
    exact readRecords_append (by decide) TLogRec.length_bytes TLogRec.read_bytes _ (by decide)
  · have hkind : ∀ s, (tRecord paths path s).toList.flatMap TLogRec.bytes ++
        (fdRecord paths path s).toList.flatMap FdLogRec.bytes =
          (fdRecord paths path s).toList.flatMap FdLogRec.bytes := by
      intro s
      rw [tRecord, if_neg fun h => hother h.1.symm]
      simp
    rw [content_logs hpath hkind sessions disk old hold, ← List.append_nil (List.flatMap _ _)]
    exact readRecords_append (by decide) FdLogRec.length_bytes FdLogRec.read_bytes _ (by decide)

def twoSessions : List LogSession :=
  [{ status := true, fa := some ⟨str "fidonet", 2, 5020, 1, 0⟩, bytesRcvd := 70000, sysname := str "Node" },
    { toFa := some ⟨str "fidonet", 2, 5020, 2, 0⟩, filesSent := 3 }]

/-- Two sessions, of which the second one has failed. -/
theorem binLogs_read_two :
    readRecords TLogRec.read 28 (((twoSessions.foldl (binLogStat { binlogpath := str "/log" }) ∅).content
      (str "/log")).getD []) = twoSessions.map tLogRec :=
  (binLogs_read { binlogpath := str "/log" } (by decide) (by decide) twoSessions ∅ (str "/log") (by decide)).1 rfl [] rfl

end Binkd
