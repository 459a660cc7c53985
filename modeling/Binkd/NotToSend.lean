import Binkd.Frame.Send
import Binkd.Session

/-!
# The not-to-send list

A delivered file that cannot be deleted is added to `nosendlist`, and
`start_file_transfer` tests a queue entry and each line of a flow file against the
list.  For a line it tests the name that the rewrite rules make of the path; where no
rules are defined there is no such name, and it tests the name of the queue entry in
its place, which is null when the flow file was opened by an earlier call.
-/

namespace Binkd

open Lib

variable {config : BinkdConfig} {env : Env} {q : Str}

/-! ### The lines of a flow file -/

/-- A file of this name can be opened, and is no directory. -/
def sendable (env : Env) (disk : Disk) (name : Str) : Option (Handle × FileInfo) :=
  match disk.fopenR env name, disk.stat env name with
  | some f, some sb => if sb.isDir then none else some (f, sb)
  | _, _ => none

theorem sendable_path {disk : Disk} {name : Str} {f : Handle} {sb : FileInfo} (h : sendable env disk name = some (f, sb)) :
    f.path = name := by
  unfold sendable at h
  split at h
  · next f' sb' hf _ =>
    split at h
    · contradiction
    · simp only [Option.some.injEq, Prod.mk.injEq] at h
      obtain ⟨rfl, rfl⟩ := h
      exact (Disk.fopenR_eq hf).1
  · contradiction

/-- The next line of the open flow file. -/
def nextLine (s : State) : Option (Str × Byte × Handle) :=
    s.tx.flo.f.bind fun h => readFloLine (h.bytes.length + 1) h

/-- The state behind the line. -/
def atLine (path : Str) (h : Handle) (s : State) : State :=
  { s with tx := { s.tx with flo := { s.tx.flo with f := some h }, out := { s.tx.out with path := path } } }

/-- A line that is not sent is removed from the spool. -/
def dropLine (config : BinkdConfig) (env : Env) (path : Str) (h : Handle) (s : State) : State :=
  removeFromSpool config env (atLine path h s).tx.out.flo (some path) (atLine path h s).tx.out.action (atLine path h s)

/-- The name under which the file of a line is opened. -/
def lineName (config : BinkdConfig) (path : Str) : Str := (transFloLine config path).getD path

/-- The name that the loop looks for in the list: that of the queue entry `q` where there are no rules.
-/
def testedName (config : BinkdConfig) (q path : Str) : Str := (transFloLine config path).getD q

/-- The state behind the last line: the flow file is closed. -/
def floEnd (config : BinkdConfig) (env : Env) (s : State) : State :=
  let s := { s with tx := { s.tx with flo := { s.tx.flo with f := none } } }
  let s := removeFromSpool config env s.tx.flo.path none 0 s
  { s with tx := { s.tx with flo := .zero } }

/-- The record of a line whose file can be sent. -/
def lineFound (f : Handle) (sb : FileInfo) (action : Byte) : Found :=
    ⟨some f, sb.bytes.length, sb.mtime, some action⟩

theorem floLoop_line {s : State} {path : Str} {action : Byte} {h : Handle} (hline : nextLine s = some (path, action, h))
    (fuel : ℕ) : floLoop config env q (fuel + 1) s =
      if testedName config q path ∈ s.tx.nosendlist then floLoop config env q fuel
      (dropLine config env path h s)
      else match sendable env s.disk (lineName config path) with
        | some (f, sb) => (some (lineFound f sb action), atLine path h s)
        | none => floLoop config env q fuel (dropLine config env path h s) := by
  obtain ⟨h0, hopen, hread⟩ := Option.bind_eq_some_iff.mp hline
  rw [floLoop, hopen]
  dsimp only
  rw [hread]
  dsimp only
  unfold testedName lineName sendable
  by_cases hlist : (transFloLine config path).getD q ∈ s.tx.nosendlist
  · rw [if_pos hlist, if_pos (List.contains_iff_mem.mpr hlist)]
    rfl
  · rw [if_neg hlist, if_neg (fun hc => hlist (List.contains_iff_mem.mp hc))]
    cases s.disk.fopenR env ((transFloLine config path).getD path) with
    | none => rfl
    | some f =>
      cases s.disk.stat env ((transFloLine config path).getD path) with
      | none => rfl
      | some sb =>
        dsimp only
        split
        · rfl
        · rfl

variable (config env q) in
theorem floLoop_end {s : State} (hline : nextLine s = none) (fuel : ℕ) :
    (floLoop config env q fuel s).1 = none := by
  cases fuel with
  | zero => rfl
  | succ fuel =>
    rw [floLoop]
    cases hopen : s.tx.flo.f with
    | none => rfl
    | some h =>
      have hread : readFloLine (h.bytes.length + 1) h = none := by simpa [nextLine, hopen] using hline
      dsimp only
      rw [hread]

/-! ### The loop -/

/-- The loop comes from one state at the head of a line to another: the lines between are dropped. -/
inductive FloComes (config : BinkdConfig) (env : Env) (q : Str) : State → State → Prop
  | here (s : State) : FloComes config env q s s
  | drop {s s' : State} (path : Str) (action : Byte) (h : Handle) (hline : nextLine s = some (path, action, h))
      (hdrop : testedName config q path ∈ s.tx.nosendlist ∨ sendable env s.disk (lineName config path) = none)
      (rest : FloComes config env q (dropLine config env path h s) s') : FloComes config env q s s'

/-- The loop ends with the file of a line. -/
structure FloFinds (config : BinkdConfig) (env : Env) (q : Str) (s s1 : State) (path : Str) (action : Byte) (h f : Handle)
    (sb : FileInfo) : Prop where
  comes : FloComes config env q s s1
  line : nextLine s1 = some (path, action, h)
  unlisted : testedName config q path ∉ s1.tx.nosendlist
  opened : sendable env s1.disk (lineName config path) = some (f, sb)

theorem floLoop_found {fuel : ℕ} {s s' : State} {r : Found} (hloop : floLoop config env q fuel s = (some r, s')) :
    ∃ s1 path action h f sb, FloFinds config env q s s1 path action h f sb ∧ r = lineFound f sb action ∧
      s' = atLine path h s1 := by
  induction fuel generalizing s with
  | zero => simp [floLoop] at hloop
  | succ fuel ih =>
    cases hline : nextLine s with
    | none =>
      have hnone := floLoop_end config env q hline (fuel + 1)
      rw [hloop] at hnone
      contradiction
    | some l =>
      obtain ⟨path, action, h⟩ := l
      rw [floLoop_line hline] at hloop
      split at hloop
      · next hlist =>
        obtain ⟨s1, p, a, h1, f, sb, hfinds, hr, hs'⟩ := ih hloop
        exact ⟨s1, p, a, h1, f, sb, { hfinds with comes := .drop path action h hline (.inl hlist) hfinds.comes }, hr, hs'⟩
      · next hlist =>
        split at hloop
        · next f sb hopened =>
          simp only [Prod.mk.injEq, Option.some.injEq] at hloop
          exact ⟨s, path, action, h, f, sb, ⟨.here s, hline, hlist, hopened⟩, hloop.1.symm, hloop.2.symm⟩
        · next hclosed =>
          obtain ⟨s1, p, a, h1, f, sb, hfinds, hr, hs'⟩ := ih hloop
          exact ⟨s1, p, a, h1, f, sb, { hfinds with comes := .drop path action h hline (.inr hclosed) hfinds.comes }, hr,
            hs'⟩

/-! ### How far the flow file is read -/

theorem fgets_length {size : ℕ} {bytes line rest : List Byte} (hsize : 1 < size) (h : fgets size bytes = some (line, rest)) :
    0 < line.length ∧ line.length + rest.length = bytes.length := by
  unfold fgets at h
  split at h
  · contradiction
  · next hne =>
    simp only [Option.some.injEq, Prod.mk.injEq] at h
    obtain ⟨rfl, rfl⟩ := h
    have hbody := (List.takeWhile_sublist (l := bytes) (· != 10)).length_le
    have hpos : 0 < bytes.length := List.length_pos_iff.mpr hne
    constructor
    · simp only [List.length_take]
      split
      · simp only [List.length_append, List.length_singleton]
        omega
      · omega
    · simp only [List.length_take, List.length_drop]
      split
      · simp only [List.length_append, List.length_singleton]
        omega
      · omega

/-- A line that is read is in the file, behind the position. -/
theorem readFloLine_pos {fuel : ℕ} {h h' : Handle} {path : Str} {action : Byte}
    (hread : readFloLine fuel h = some (path, action, h')) :
    h.pos < h'.pos ∧ h'.pos ≤ h.bytes.length ∧ h'.bytes = h.bytes := by
  induction fuel generalizing h with
  | zero => simp [readFloLine] at hread
  | succ fuel ih =>
    rw [readFloLine] at hread
    split at hread
    · contradiction
    · next line rest hline =>
      obtain ⟨hpos, hlen⟩ := fgets_length (by decide) hline
      rw [List.length_drop] at hlen
      have hskip : readFloLine fuel { h with pos := h.pos + line.length } = some (path, action, h') →
          h.pos < h'.pos ∧ h'.pos ≤ h.bytes.length ∧ h'.bytes = h.bytes := by
        intro hnext
        obtain ⟨h1, h2, h3⟩ := ih hnext
        dsimp only at h1 h2 h3
        exact ⟨by omega, h2, h3⟩
      have hthis : { h with pos := h.pos + line.length } = h' →
          h.pos < h'.pos ∧ h'.pos ≤ h.bytes.length ∧ h'.bytes = h.bytes := by
        rintro rfl
        exact ⟨by dsimp only; omega, by dsimp only; omega, rfl⟩
      dsimp only at hread
      split at hread
      · exact hskip hread
      · exact hskip hread
      · simp only [Option.some.injEq, Prod.mk.injEq] at hread
        exact hthis hread.2.2
      · simp only [Option.some.injEq, Prod.mk.injEq] at hread
        exact hthis hread.2.2
      · simp only [Option.some.injEq, Prod.mk.injEq] at hread
        exact hthis hread.2.2

/-- Marking keeps the length of a flow file. -/
theorem markFlo_length (file : Option Str) {fuel : ℕ} {bytes : List Byte} (hfuel : bytes.length < fuel) :
    (markFlo file fuel bytes).bytes.length = bytes.length := by
  induction fuel generalizing bytes with
  | zero => omega
  | succ fuel ih =>
    rw [markFlo]
    split
    · next hend =>
      unfold fgets at hend
      split at hend
      · rfl
      · contradiction
    · next line rest hline =>
      obtain ⟨hpos, hlen⟩ := fgets_length (by decide) hline
      have hrest : (markFlo file fuel rest).bytes.length = rest.length := ih (by omega)
      dsimp only
      split
      · simp only [List.length_append, hrest]
        omega
      · split
        · cases hre : fgets maxPathLen (bytes.drop 1) with
          | none =>
            have hdrop : bytes.drop 1 = [] := by
              unfold fgets at hre
              split at hre
              · assumption
              · contradiction
            have hone := congrArg List.length hdrop
            rw [List.length_drop, List.length_nil] at hone
            have hnil : (markFlo file fuel []).bytes.length = 0 := ih (by simp; omega)
            simp only [Option.getD_none, List.length_cons, List.length_append, List.length_nil, hnil]
            omega
          | some r =>
            obtain ⟨-, hrelen⟩ := fgets_length (by decide) hre
            rw [List.length_drop] at hrelen
            have hnext : (markFlo file fuel r.2).bytes.length = r.2.length := ih (by omega)
            simp only [Option.getD_some, List.length_cons, List.length_append, hnext]
            omega
        · simp only [List.length_append, hrest]
          omega

/-- A file that cannot be sent is no file that has been sent: no action is performed. -/
theorem removeFromSpool_zero (flopath : Str) (file : Option Str) (s : State) :
    removeFromSpool config env flopath file 0 s = if flopath = [] then s else
    (removeFromFlo env flopath file s).2 := by
  have hperform : ∀ path s, performAction env path 0 s = s := by
    intro path s
    simp [performAction]
  unfold removeFromSpool
  split
  · cases file with
    | none => rfl
    | some file => exact hperform file s
  · split
    · next s1 hs1 => rw [hs1]
    · next found s1 hs1 =>
      rw [hs1]
      dsimp only
      generalize (if found = true then file.bind (transFloLine config) else none) = w
      cases w with
      | some w => exact hperform w s1
      | none =>
        cases file with
        | none => rfl
        | some file => exact hperform file s1

variable (config env) in
/-- What is dropped changes the disk and the content of the open flow file, if anything. -/
theorem dropLine_eq {s : State} (path : Str) (h : Handle) (haction : s.tx.out.action = 0) :
    ∃ disk bytes, bytes.length = h.bytes.length ∧
      dropLine config env path h s = { atLine path { h with bytes := bytes } s with disk := disk } := by
  unfold dropLine
  have hzero : (atLine path h s).tx.out.action = 0 := haction
  rw [hzero, removeFromSpool_zero]
  split
  · exact ⟨s.disk, h.bytes, rfl, rfl⟩
  · unfold removeFromFlo
    split
    · next h1 hfilter =>
      obtain ⟨hopen, -⟩ := Option.filter_eq_some_iff.mp hfilter
      obtain rfl := Option.some.inj hopen
      exact ⟨_, _, markFlo_length _ (by omega), rfl⟩
    · split
      · exact ⟨s.disk, h.bytes, rfl, rfl⟩
      · exact ⟨_, h.bytes, rfl, rfl⟩

/-- With fuel for the bytes that are left, the loop finds the first line that can be sent. -/
theorem FloFinds.floLoop {s s1 : State} {path : Str} {action : Byte} {h f h0 : Handle} {sb : FileInfo} {fuel : ℕ}
    (hfinds : FloFinds config env q s s1 path action h f sb) (haction : s.tx.out.action = 0)
    (hopen : s.tx.flo.f = some h0) (hfuel : h0.bytes.length - h0.pos < fuel) :
    floLoop config env q fuel s = (some (lineFound f sb action), atLine path h s1) := by
  obtain ⟨hcomes, hline, hlist, hopened⟩ := hfinds
  induction hcomes generalizing fuel h0 with
  | here s =>
    obtain ⟨fuel, rfl⟩ : ∃ n, fuel = n + 1 := ⟨fuel - 1, by omega⟩
    rw [floLoop_line hline, if_neg hlist, hopened]
  | @drop s s' p a h2 hdropped hdrop rest ih =>
    obtain ⟨fuel, rfl⟩ : ∃ n, fuel = n + 1 := ⟨fuel - 1, by omega⟩
    have hread : readFloLine (h0.bytes.length + 1) h0 = some (p, a, h2) := by
      simpa [nextLine, hopen] using hdropped
    obtain ⟨hlt, hle, hbytes⟩ := readFloLine_pos hread
    obtain ⟨disk, bytes, hlen, heq⟩ := dropLine_eq config env p h2 haction
    have hloop : Binkd.floLoop config env q fuel (dropLine config env p h2 s) =
        (some (lineFound f sb action), atLine path h s') := by
      have hmarked : (dropLine config env p h2 s).tx.flo.f = some { h2 with bytes := bytes } := by
        rw [heq]
        rfl
      refine ih ?_ hmarked ?_ hline hlist hopened
      · rw [heq]
        exact haction
      · dsimp only
        rw [hlen, hbytes]
        omega
    rw [floLoop_line hdropped]
    split
    · exact hloop
    · next hnot => rw [hdrop.resolve_left hnot]; exact hloop

/-- The list stays as it is while lines are dropped. -/
theorem FloComes.keeps {s s1 : State} (h : FloComes config env q s s1) (haction : s.tx.out.action = 0) :
    s1.tx.nosendlist = s.tx.nosendlist ∧ s1.link = s.link := by
  induction h with
  | here => exact ⟨rfl, rfl⟩
  | drop path _ h _ _ _ ih =>
    obtain ⟨disk, bytes, -, heq⟩ := dropLine_eq config env path h haction
    rw [heq] at ih
    exact ih haction

/-! ### `start_file_transfer` -/

variable {file : Option Ftnq} {s s0 : State}

/-- The state with an open flow file, at the head of the loop. -/
def floHead (s : State) : Option State :=
  if s.tx.flo.f.isSome then some { s with tx := { s.tx with out := { s.tx.out with flo := s.tx.flo.path } } } else none

/-- The state in which the loop over a flow file starts, if it does: the flow file is open, or is the
queue entry. -/
def floStart (env : Env) (file : Option Ftnq) (s : State) : Option State :=
  let s := { s with tx := { s.tx with out := .zero } }
  if s.tx.flo.f.isSome then floHead s
  else file.bind fun file =>
    (openQueued env file { s with tx := { s.tx with maxflvr := maxflvr s.tx.maxflvr file.flvr } }).bind fun r =>
      floHead { r.2 with tx := { r.2.tx with
        out := { r.2.tx.out with fa := file.fa },
          ndAddr := if r.2.login.ndFlag.we then r.2.tx.ndAddr else file.fa } }

/-- The name of the queue entry; nothing is to be read where there is none. -/
def entryName (file : Option Ftnq) : Str := (file.map (·.path)).getD []

/-- `state->out` for a line whose file can be sent. -/
def lineOut (env : Env) (file : Option Ftnq) (path : Str) (action : Byte) (h f : Handle) (sb : FileInfo) (s : State) : State :=
  fillOut env file (lineFound f sb action)
    { atLine path h s with tx := { (atLine path h s).tx with out := { (atLine path h s).tx.out with fa := s.tx.flo.fa } } }

/-- The loop over the flow file and what follows it. -/
def searchFlo (config : BinkdConfig) (env : Env) (file : Option Ftnq) (s : State) : State × Bool :=
  match floLoop config env (entryName file) ((s.tx.flo.f.map fun h => h.bytes.length + 1).getD 0) s with
  | (none, s) => (s, false)
  | (some r, s) => announce config env (fillOut env file r
      { s with tx := { s.tx with out := { s.tx.out with fa := s.tx.flo.fa } } })

theorem floHead_eq (h : floHead s = some s0) : ∃ f, s0.tx.flo.f = some f ∧
    s0 = { s with tx := { s.tx with out := { s.tx.out with flo := s.tx.flo.path } } } := by
  unfold floHead at h
  split at h
  · next hopen =>
    obtain ⟨f, hf⟩ := Option.isSome_iff_exists.mp hopen
    obtain rfl := Option.some.inj h
    exact ⟨f, hf, rfl⟩
  · contradiction

theorem floStart_eq (h : floStart env file s = some s0) :
    (∃ f, s0.tx.flo.f = some f) ∧ s0.tx.out.action = 0 ∧ s0.tx.nosendlist = s.tx.nosendlist := by
  unfold floStart at h
  dsimp only at h
  split at h
  · obtain ⟨f, hf, rfl⟩ := floHead_eq h
    exact ⟨⟨f, hf⟩, rfl, rfl⟩
  · obtain ⟨entry, -, hopened⟩ := Option.bind_eq_some_iff.mp h
    obtain ⟨r, hr, hhead⟩ := Option.bind_eq_some_iff.mp hopened
    obtain ⟨f, hf, rfl⟩ := floHead_eq hhead
    obtain ⟨-, ⟨flo, heq⟩, -⟩ := openQueued_spec env hr
    rw [heq] at hf ⊢
    exact ⟨⟨f, hf⟩, rfl, rfl⟩

theorem startFlo_eq (h : floHead s = some s0) : startFlo config env file s = searchFlo config env file s0 := by
  obtain ⟨-, -, rfl⟩ := floHead_eq h
  rfl

theorem startFileTransfer_flo (h : floStart env file s = some s0) :
    startFileTransfer config env file s = searchFlo config env file s0 := by
  unfold floStart at h
  unfold startFileTransfer
  dsimp only at h ⊢
  split at h
  · next hopen =>
    rw [if_pos hopen]
    exact startFlo_eq h
  · next hopen =>
    rw [if_neg hopen]
    obtain ⟨entry, hentry, hopened⟩ := Option.bind_eq_some_iff.mp h
    obtain ⟨r, hr, hhead⟩ := Option.bind_eq_some_iff.mp hopened
    subst hentry
    dsimp only
    rw [hr]
    obtain ⟨f, hf, heq⟩ := floHead_eq hhead
    rw [heq] at hf
    dsimp only
    rw [if_pos (Option.isSome_iff_exists.mpr ⟨f, hf⟩)]
    exact startFlo_eq hhead

/-- A queue entry on the list is not opened. -/
theorem openQueued_unlisted {file : Ftnq} {r : Found} {s' : State} (h : openQueued env file s = some (r, s')) :
    ∀ f ∈ r.f, f.path ∉ s.tx.nosendlist := by
  intro f hf
  rw [((openQueued_spec env h).2.2.2 f hf).2.2.1]
  intro hlist
  unfold openQueued at h
  split at h
  · simp only [Option.some.injEq, Prod.mk.injEq] at h
    rw [← h.1] at hf
    contradiction
  · rw [if_pos (List.contains_iff_mem.mpr hlist)] at h
    contradiction

/-- An announcement sends the open file. -/
theorem announce_sent (h : (announce config env s).2 = true) :
    dontSend config s.tx.out = false ∧ (announce config env s).1.tx.out.f = s.tx.out.f := by
  cases hd : dontSend config s.tx.out with
  | true =>
    rw [announce, if_pos hd] at h
    contradiction
  | false =>
    obtain ⟨z, od, extra, heq⟩ := announce_eq config env hd
    rw [heq]
    exact ⟨rfl, rfl⟩

/-- Without a flow file what is sent is a queue entry that is not on the list. -/
theorem startFileTransfer_direct (h : floStart env file s = none) (hsent : (startFileTransfer config env file s).2 = true) :
    ∀ f ∈ (startFileTransfer config env file s).1.tx.out.f, f.path ∉ s.tx.nosendlist := by
  unfold floStart at h
  unfold startFileTransfer at hsent ⊢
  dsimp only at h hsent ⊢
  split at h
  · next hopen => simp [floHead, hopen] at h
  · next hopen =>
    rw [if_neg hopen] at hsent ⊢
    cases file with
    | none => contradiction
    | some file =>
      dsimp only [Option.bind_some] at h hsent ⊢
      split at hsent
      · contradiction
      · next r s1 hr =>
        rw [hr, Option.bind_some] at h
        have hclosed : ¬ s1.tx.flo.f.isSome = true := by
          intro hsome
          simp [floHead, hsome] at h
        rw [if_neg hclosed] at hsent ⊢
        rw [(announce_sent hsent).2]
        intro f hf
        have hrf : f ∈ r.f := by simpa [fillOut, (openQueued_spec env hr).1] using hf
        exact openQueued_unlisted hr f hrf

/-! ### The list -/

/-- An `M_FILE` is sent. -/
def Offers (s s' : State) : Prop := ∃ m, s'.link.log = .file m :: s.link.log

theorem offers_iff : Offers s (startFileTransfer config env file s).1 ↔
    (startFileTransfer config env file s).2 = true := by
  rcases startFileTransfer_outcome config env file s with ⟨⟨_, _, _, _, _, _, _, _, _, heq, -⟩,
    hfalse⟩ | ⟨s1, hp, hd, heq⟩
  · rw [heq, hfalse]
    constructor
    · rintro ⟨m, hlog⟩
      exact absurd hlog.symm (List.cons_ne_self _ _)
    · intro h
      contradiction
  · obtain ⟨z, od, extra, hann⟩ := announce_eq config env hd
    obtain ⟨_, _, _, _, _, _, hs1⟩ := hp.eq
    rw [heq, hann]
    refine ⟨fun _ => rfl, fun _ => ⟨⟨{ s1.tx.out with f := none }, firstOffset s1, extra⟩, ?_⟩⟩
    rw [hs1]
    rfl

/-- The loop compares the name of the queue entry, instead of a name of the line. -/
def EntryRead (config : BinkdConfig) (path : Str) (s : State) : Prop :=
  transFloLine config path = none ∧ s.tx.nosendlist ≠ []

/-- What the list is for. -/
structure NosendKept (config : BinkdConfig) (env : Env) (file : Option Ftnq) (s : State) : Prop where
  /-- the file that is opened for an `M_FILE` is not on the list -/
  unlisted : Offers s (startFileTransfer config env file s).1 →
    ∀ f ∈ (startFileTransfer config env file s).1.tx.out.f, f.path ∉ s.tx.nosendlist
  /-- no line makes the loop read a queue entry that is not there -/
  unread : file = none → ∀ s0 ∈ floStart env file s, ∀ s1, FloComes config env (entryName file) s0 s1 →
    ∀ path action h, nextLine s1 = some (path, action, h) → ¬ EntryRead config path s1

/-- The lines of the flow file cannot do harm: there is no queue entry and no line, or there is an entry
and
the first line whose file can be opened is not on the list, or is not sent because its file is empty. -/
def HarmlessLines (config : BinkdConfig) (env : Env) (file : Option Ftnq) (s0 : State) : Prop :=
  match file with
  | none => nextLine s0 = none
  | some entry => ∀ s1 path action h f sb, FloFinds config env entry.path s0 s1 path action h f sb →
      path ∈ s1.tx.nosendlist → dontSend config (lineOut env file path action h f sb s1).tx.out = true

theorem lineOut_f (file : Option Ftnq) (path : Str) (action : Byte) (h f : Handle) (sb : FileInfo) :
    (lineOut env file path action h f sb s).tx.out.f = some f := by
  simp [lineOut, fillOut, lineFound]

theorem transFloLine_nil (hnil : config.rfRules = []) (path : Str) : transFloLine config path = none := by
  rw [transFloLine, if_pos hnil]

/-- A line that could do harm does it. -/
theorem harmless_of_kept (hkept : NosendKept config env file s) (hnil : config.rfRules = [])
    (hlist : s.tx.nosendlist ≠ []) (hs0 : s0 ∈ floStart env file s) : HarmlessLines config env file s0 := by
  obtain ⟨hunlisted, hunread⟩ := hkept
  obtain ⟨⟨h0, hopen⟩, haction, hkeep⟩ := floStart_eq hs0
  unfold HarmlessLines
  split
  · cases hline : nextLine s0 with
    | none => rfl
    | some l =>
      obtain ⟨path, action, h⟩ := l
      exact absurd ⟨transFloLine_nil hnil path, by rwa [hkeep]⟩ (hunread rfl s0 hs0 s0 (.here s0) path action h hline)
  · next entry =>
    intro s1 path action h f sb hfinds hmem
    by_contra hd
    have hloop := hfinds.floLoop haction hopen (Nat.lt_succ_of_le (Nat.sub_le _ _))
    have hstart : startFileTransfer config env (some entry) s =
        announce config env (lineOut env (some entry) path action h f sb s1) := by
      rw [startFileTransfer_flo hs0, searchFlo, hopen]
      change (match floLoop config env entry.path (h0.bytes.length + 1) s0 with
        | (none, s) => (s, false)
        | (some r, s) => _) = _
      rw [hloop]
      rfl
    obtain ⟨z, od, extra, hann⟩ := announce_eq config env (Bool.not_eq_true _ ▸ hd)
    rw [hstart.symm] at hann
    refine hunlisted (offers_iff.mpr (by rw [hann])) f ?_ ?_
    · rw [hann]
      exact lineOut_f (some entry) path action h f sb
    · have hname := sendable_path hfinds.opened
      rw [lineName, transFloLine_nil hnil path] at hname
      rw [hname, ← hkeep, ← (hfinds.comes.keeps haction).1]
      exact hmem

/-- The file that is opened has been looked up, under the name that was tested. -/
theorem unlisted_of_harmless
    (hharmless : config.rfRules = [] → s.tx.nosendlist ≠ [] →
      ∀ s0 ∈ floStart env file s, HarmlessLines config env file s0)
    (hoffers : Offers s (startFileTransfer config env file s).1) (f : Handle)
    (hf : f ∈ (startFileTransfer config env file s).1.tx.out.f) : f.path ∉ s.tx.nosendlist := by
  intro hmem
  have hsent := offers_iff.mp hoffers
  cases hs0 : floStart env file s with
  | none => exact startFileTransfer_direct hs0 hsent f hf hmem
  | some s0 =>
    obtain ⟨⟨h0, hopen⟩, haction, hkeep⟩ := floStart_eq hs0
    rw [startFileTransfer_flo hs0, searchFlo] at hsent hf
    split at hsent
    · contradiction
    · next r s' hloop =>
      obtain ⟨s1, path, action, h, f', sb, hfinds, rfl, rfl⟩ := floLoop_found hloop
      rw [hloop] at hf
      dsimp only at hf
      obtain ⟨hd, hout⟩ := announce_sent hsent
      rw [hout] at hf
      obtain rfl : f' = f := Option.some.inj ((lineOut_f file path action h f' sb).symm.trans hf)
      rw [sendable_path hfinds.opened, ← hkeep, ← (hfinds.comes.keeps haction).1] at hmem
      by_cases hnil : config.rfRules = []
      · -- the name of the line is the one on the list, the name that was tested is not
        have hnone := transFloLine_nil hnil path
        have hlist : s.tx.nosendlist ≠ [] := by
          rw [← hkeep, ← (hfinds.comes.keeps haction).1]
          exact List.ne_nil_of_mem hmem
        have hthis := hharmless hnil hlist s0 hs0
        cases file with
        | none =>
          have hend := floLoop_end config env (entryName none) hthis
            ((s0.tx.flo.f.map fun h => h.bytes.length + 1).getD 0)
          rw [hloop] at hend
          contradiction
        | some entry =>
          rw [lineName, hnone] at hmem
          have hdont := hthis s1 path action h f' sb hfinds hmem
          exact absurd (hdont.symm.trans hd) (by decide)
      · obtain ⟨w, hw⟩ : ∃ w, transFloLine config path = some w := by
          rw [transFloLine, if_neg hnil]
          exact ⟨_, rfl⟩
        refine hfinds.unlisted ?_
        rw [testedName, hw]
        rwa [lineName, hw] at hmem

/-- Without a queue entry there is no line that is looked up. -/
theorem unread_of_harmless
    (hharmless : config.rfRules = [] → s.tx.nosendlist ≠ [] →
      ∀ s0 ∈ floStart env none s, HarmlessLines config env none s0)
    {s1 : State} (hs0 : s0 ∈ floStart env none s) (hcomes : FloComes config env (entryName none) s0 s1) {path : Str}
    {action : Byte} {h : Handle} (hline : nextLine s1 = some (path, action, h)) :
    ¬ EntryRead config path s1 := by
  rintro ⟨htrans, hlist⟩
  obtain ⟨-, haction, hkeep⟩ := floStart_eq hs0
  have hnil : config.rfRules = [] := by
    by_contra hne
    simp [transFloLine, hne] at htrans
  rw [(hcomes.keeps haction).1, hkeep] at hlist
  have hend : nextLine s0 = none := hharmless hnil hlist s0 hs0
  cases hcomes with
  | here => exact absurd (hend.symm.trans hline) (by simp)
  | drop _ _ _ hfirst => exact absurd (hend.symm.trans hfirst) (by simp)

/-- **The list is kept where there are rewrite rules, or nothing on it, or no flow file, or no line that
could
do harm.** -/
theorem nosend_kept : NosendKept config env file s ↔
    (config.rfRules = [] → s.tx.nosendlist ≠ [] → ∀ s0 ∈ floStart env file s, HarmlessLines config env file s0) := by
  constructor
  · intro hkept hnil hlist s0 hs0
    exact harmless_of_kept hkept hnil hlist hs0
  · intro hharmless
    refine ⟨fun hoffers f hf => unlisted_of_harmless hharmless hoffers f hf, ?_⟩
    rintro rfl s0 hs0 s1 hcomes path action h hline
    exact unread_of_harmless hharmless hs0 hcomes hline

/-! ### A file that could not be deleted -/

/-- A flow file that names `/a`, which stands in the outbound, and `/b`, which does not. -/
def listedDisk : Disk :=
  ((∅ : Disk).insert (str "/x.flo") { bytes := str "^/b" ++ [10] ++ str "^/a" ++ [10] }).insert (str "/a") { bytes := [1] }

/-- A session that could not delete `/a`. -/
def listedState : State :=
  let s := start (fidoConfig []) {} listedDisk [] [] none none
  { s with tx := { s.tx with nosendlist := [str "/a"] } }

/-- The queue entry of the flow file. -/
def floEntry : Ftnq := { path := str "/x.flo", type := 108 }

/-- The file on the list is sent again. -/
theorem listed_sent : Offers listedState (startFileTransfer (fidoConfig []) {} (some floEntry) listedState).1 ∧
    (startFileTransfer (fidoConfig []) {} (some floEntry) listedState).1.tx.out.f.map
    (·.path) = some (str "/a") ∧
    str "/a" ∈ listedState.tx.nosendlist :=
  ⟨offers_iff.mpr (by decide +kernel), by decide +kernel, by decide +kernel⟩

end Binkd
