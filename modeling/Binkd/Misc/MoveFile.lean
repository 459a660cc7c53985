import Binkd.Misc.Portable

/-!
# Moving a file (`move_file` of `misc/portable.c`)

A file is renamed, or else copied and removed.  The copy does not see a read error, and a
failed copy has already replaced what stood at the destination, so a move is all or nothing
for some failures only (`move_all_or_nothing`).
-/

namespace Binkd

/-- The contents of the two files of a move; `none` for a file that is not there. -/
structure MoveFiles where
  src : Option (List Byte)
  dst : Option (List Byte)
deriving DecidableEq

/-- The operations that fail.  A read error comes behind a number of bytes, a write error behind the
bytes that the disk has taken, and an error that `fclose` reports leaves a number of bytes on the
disk. -/
structure MoveFaults where
  removeDst : Bool := false
  rename : Bool := false
  openIn : Bool := false
  openOut : Bool := false
  read : Option ℕ := none
  write : Option ℕ := none
  close : Option ℕ := none
  removeSrc : Bool := false

/-- The bytes up to an error, if there is one. -/
def upTo (error : Option ℕ) (bytes : List Byte) : List Byte :=
  match error with
  | none => bytes
  | some k => bytes.take k

/-- What stands before an error is a prefix. -/
theorem upTo_initial (error : Option ℕ) (bytes : List Byte) : upTo error bytes <+: bytes := by
  unfold upTo
  split
  · exact List.prefix_refl _
  · exact List.take_prefix _ _

/-- `fread (buf, 1, sizeof (buf), in)` at a position. -/
def freadAt (f : MoveFaults) (content : List Byte) (pos : ℕ) : List Byte :=
    ((upTo f.read content).drop pos).take 4096

/-- The loop of `copy_file`: what it says, and what has been written. -/
def copyLoop (f : MoveFaults) (content : List Byte) : ℕ → ℕ → List Byte → Bool × List Byte
  | 0, _, out => (true, out)
  | fuel + 1, pos, out =>
    let buf := freadAt f content pos
    if buf = [] then (true, out)
    else if ∃ k ∈ f.write, k < pos + buf.length then (false, out ++ buf.take (f.write.getD 0 - pos))
    else copyLoop f content fuel (pos + buf.length) (out ++ buf)

/-- `copy_file`. -/
def copyFile (f : MoveFaults) (s : MoveFiles) : Bool × MoveFiles :=
  match s.src with
  | none => (false, s)
  | some content =>
    if f.openIn then (false, s)
    else if f.openOut then (false, s)
    else
      let (ok, out) := copyLoop f content (content.length + 1) 0 []
      (ok, { s with dst := some (upTo f.close out) })

/-- The files behind `remove (dst)`. -/
def MoveFiles.removed (f : MoveFaults) (s : MoveFiles) : MoveFiles :=
    if f.removeDst then s else { s with dst := none }

/-- `move_file`, for two different files. -/
def moveFileOn (f : MoveFaults) (s : MoveFiles) : Bool × MoveFiles :=
  let s := s.removed f
  if s.src.isSome ∧ f.rename = false then (true, { src := none, dst := s.src })
  else
    let r := copyFile f s
    if r.1 then (true, if f.removeSrc then r.2 else { r.2 with src := none }) else r

/-! ### The copy -/

variable {f : MoveFaults} {s : MoveFiles} {content out : List Byte}

/-- A write fails before all that can be read has been written. -/
def WriteFails (f : MoveFaults) (content : List Byte) : Prop :=
    ∃ k ∈ f.write, k < (upTo f.read content).length

instance decidableWriteFails (f : MoveFaults) (content : List Byte) : Decidable (WriteFails f content) :=
  inferInstanceAs (Decidable (∃ k ∈ f.write, _))

theorem freadAt_length (pos : ℕ) :
    (freadAt f content pos).length = min 4096 ((upTo f.read content).length - pos) := by
  rw [freadAt, List.length_take, List.length_drop]

/-- What is read next continues what has been read. -/
theorem take_freadAt (pos : ℕ) : (upTo f.read content).take pos ++ freadAt f content pos =
    (upTo f.read content).take (pos + (freadAt f content pos).length) := by
  rw [List.take_add]
  congr 1
  rw [freadAt_length, freadAt, List.take_eq_take_iff, List.length_drop]
  omega

theorem freadAt_end {pos : ℕ} (h : freadAt f content pos = []) : (upTo f.read content).length ≤ pos := by
  have hlen : (freadAt f content pos).length = _ := freadAt_length pos
  rw [h, List.length_nil] at hlen
  omega

/-- No write has failed before the end. -/
theorem not_writeFails {pos : ℕ} (hend : (upTo f.read content).length ≤ pos) (hpos : ∀ k ∈ f.write, pos ≤ k) :
    ¬ WriteFails f content := by
  rintro ⟨k, hk, hlt⟩
  have hle := hpos k hk
  omega

/-- The loop writes what can be read, up to the first write that fails. -/
theorem copyLoop_eq : ∀ (fuel pos : ℕ), (upTo f.read content).length < pos + fuel →
    (∀ k ∈ f.write, pos ≤ k) →
    copyLoop f content fuel pos ((upTo f.read content).take pos) =
      if WriteFails f content then (false, upTo f.write (upTo f.read content)) else
      (true, upTo f.read content) := by
  intro fuel
  induction fuel with
  | zero =>
    intro pos hfuel hpos
    rw [if_neg (not_writeFails (by omega) hpos), copyLoop, List.take_of_length_le (by omega)]
  | succ fuel ih =>
    intro pos hfuel hpos
    rw [copyLoop]
    by_cases hnil : freadAt f content pos = []
    · have hend := freadAt_end hnil
      rw [if_pos hnil, if_neg (not_writeFails hend hpos), List.take_of_length_le hend]
    · have hpositive : 0 < (freadAt f content pos).length := List.length_pos_iff.mpr hnil
      have hbuf : (freadAt f content pos).length = _ := freadAt_length pos
      rw [if_neg hnil, take_freadAt]
      by_cases hwrite : ∃ k ∈ f.write, k < pos + (freadAt f content pos).length
      · obtain ⟨k, hk, hlt⟩ := hwrite
        have hle := hpos k hk
        have hfails : WriteFails f content := ⟨k, hk, by omega⟩
        rw [if_pos ⟨k, hk, hlt⟩, if_pos hfails, Option.mem_def.mp hk]
        rw [upTo, Option.getD_some, freadAt, List.take_take, ← List.take_add]
        congr 2
        omega
      · have hnext : ∀ k ∈ f.write, pos + (freadAt f content pos).length ≤ k := by
          intro k hk
          by_contra hlt
          exact hwrite ⟨k, hk, by omega⟩
        rw [if_neg hwrite]
        exact ih _ (by omega) hnext

theorem copyFile_eq (hsrc : s.src = some content) (hin : f.openIn = false) (hout : f.openOut = false) :
    copyFile f s = if WriteFails f content then
      (false, { s with dst := some (upTo f.close (upTo f.write (upTo f.read content))) })
    else (true, { s with dst := some (upTo f.close (upTo f.read content)) }) := by
  have hloop : copyLoop f content (content.length + 1) 0 [] =
      if WriteFails f content then (false, upTo f.write (upTo f.read content)) else (true, upTo f.read content) := by
    have hle : (upTo f.read content).length ≤ content.length := (upTo_initial f.read content).length_le
    exact copyLoop_eq (content.length + 1) 0 (by omega) fun k _ => Nat.zero_le k
  rw [copyFile, hsrc]
  dsimp only
  rw [hin, hout, if_neg Bool.false_ne_true, if_neg Bool.false_ne_true, hloop]
  split_ifs <;> rfl

/-- An error behind the end is none. -/
theorem upTo_eq_iff (error : Option ℕ) (bytes : List Byte) : upTo error bytes = bytes ↔
    ∀ k ∈ error, bytes.length ≤ k := by
  cases error with
  | none => simp [upTo]
  | some k => simp [upTo, List.take_eq_self_iff]

/-- Two errors take nothing away only where neither does. -/
theorem upTo_upTo_eq_iff (close read : Option ℕ) (bytes : List Byte) :
    upTo close (upTo read bytes) = bytes ↔ (∀ k ∈ read, bytes.length ≤ k) ∧
    ∀ k ∈ close, bytes.length ≤ k := by
  rw [← upTo_eq_iff, ← upTo_eq_iff]
  constructor
  · intro h
    have hread : upTo read bytes = bytes := by
      apply (upTo_initial read bytes).eq_of_length_le
      have hle := (upTo_initial close (upTo read bytes)).length_le
      rwa [h] at hle
    rw [hread] at h
    exact ⟨hread, h⟩
  · rintro ⟨hread, hclose⟩
    rw [hread, hclose]

/-! ### All or nothing -/

/-- The promise of a move. -/
def AllOrNothing (s : MoveFiles) (r : Bool × MoveFiles) : Prop :=
  if r.1 then s.src.isSome ∧ r.2.dst = s.src
  else r.2.src = s.src ∧ (s.dst.isSome → r.2.dst = s.dst)

instance decidableAllOrNothing (s : MoveFiles) (r : Bool × MoveFiles) :
    Decidable (AllOrNothing s r) := by
  unfold AllOrNothing
  infer_instance

/-- No old destination is lost: there was none, or the system refuses to remove it. -/
def KeepsTarget (f : MoveFaults) (s : MoveFiles) : Prop := s.dst = none ∨ f.removeDst = true

/-- The failures that do no damage: none at all in a rename; those before the copy is opened, unless
an old destination has been removed; a write that fails where there was no destination, or just the
one that the bytes written make; and no read error and no error of `fclose`. -/
def Harmless (f : MoveFaults) (s : MoveFiles) : Prop :=
  match s.src with
  | none => KeepsTarget f s
  | some content =>
    f.rename = true →
      if f.openIn = true ∨ f.openOut = true then KeepsTarget f s
      else if WriteFails f content then
        s.dst = none ∨ s.dst = some (upTo f.close (upTo f.write (upTo f.read content)))
      else (∀ k ∈ f.read, content.length ≤ k) ∧ ∀ k ∈ f.close, content.length ≤ k

theorem removed_src (f : MoveFaults) (s : MoveFiles) : (s.removed f).src = s.src := by
  unfold MoveFiles.removed
  split_ifs <;> rfl

theorem keepsTarget_iff : KeepsTarget f s ↔ (s.dst.isSome → (s.removed f).dst = s.dst) := by
  unfold KeepsTarget MoveFiles.removed
  cases hdst : s.dst <;> cases f.removeDst <;> simp [hdst]

/-- Where nothing is renamed and no copy is opened, only the removal has been done. -/
theorem moveFileOn_closed (h : s.src = none ∨ f.rename = true ∧ (f.openIn = true ∨ f.openOut = true)) :
    moveFileOn f s = (false, s.removed f) := by
  have hren : ¬ ((s.removed f).src.isSome ∧ f.rename = false) := by
    rw [removed_src]
    rintro ⟨hsome, hfalse⟩
    rcases h with hnone | ⟨htrue, -⟩
    · rw [hnone] at hsome
      exact absurd hsome Bool.false_ne_true
    · rw [htrue] at hfalse
      exact absurd hfalse (by decide)
  have hcopy : copyFile f (s.removed f) = (false, s.removed f) := by
    rw [copyFile, removed_src]
    rcases h with hnone | ⟨-, hopen⟩
    · rw [hnone]
    · cases s.src with
      | none => rfl
      | some content =>
        dsimp only
        rcases hopen with hin | hout
        · rw [if_pos hin]
        · split_ifs <;> rfl
  unfold moveFileOn
  dsimp only
  rw [if_neg hren, hcopy]
  rfl

/-- Where the copy has been opened. -/
theorem moveFileOn_copied (hsrc : s.src = some content) (hren : f.rename = true) (hin : f.openIn = false)
    (hout : f.openOut = false) :
    (moveFileOn f s).1 = (¬ WriteFails f content : Bool) ∧
    (moveFileOn f s).2.dst = some (upTo f.close
      (if WriteFails f content then upTo f.write (upTo f.read content) else upTo f.read content)) ∧
    (WriteFails f content → (moveFileOn f s).2.src = s.src) := by
  have hsrc' : (s.removed f).src = some content := (removed_src f s).trans hsrc
  have hno : ¬ ((s.removed f).src.isSome ∧ f.rename = false) := by
    rintro ⟨-, hfalse⟩
    rw [hren] at hfalse
    exact absurd hfalse (by decide)
  have hcopy := copyFile_eq (f := f) hsrc' hin hout
  unfold moveFileOn
  dsimp only
  rw [if_neg hno, hcopy]
  by_cases hfails : WriteFails f content
  · rw [if_pos hfails, if_pos hfails]
    refine ⟨by simp [hfails], rfl, fun _ => removed_src f s⟩
  · rw [if_neg hfails, if_neg hfails]
    refine ⟨by simp [hfails], ?_, fun h => absurd h hfails⟩
    dsimp only
    rw [if_pos rfl]
    dsimp only
    split_ifs <;> rfl

/-- A move is all or nothing for just the failures that do no damage. -/
theorem move_all_or_nothing (f : MoveFaults) (s : MoveFiles) : AllOrNothing s (moveFileOn f s) ↔
    Harmless f s := by
  have hclosed (h : s.src = none ∨ f.rename = true ∧ (f.openIn = true ∨ f.openOut = true)) :
      AllOrNothing s (moveFileOn f s) ↔ KeepsTarget f s := by
    rw [moveFileOn_closed h, AllOrNothing, if_neg Bool.false_ne_true, keepsTarget_iff]
    exact and_iff_right (removed_src f s)
  cases hsrc : s.src with
  | none =>
    rw [hclosed (.inl hsrc), Harmless, hsrc]
  | some content =>
    rw [Harmless, hsrc]
    dsimp only
    cases hren : f.rename with
    | false =>
      have hmove : moveFileOn f s = (true, { src := none, dst := s.src }) := by
        have hok : (s.removed f).src.isSome ∧ f.rename = false := ⟨by rw [removed_src, hsrc]; rfl, hren⟩
        have heq : moveFileOn f s = (true, { src := none, dst := (s.removed f).src }) := if_pos hok
        rw [heq, removed_src]
      rw [hmove, AllOrNothing, if_pos rfl, hsrc]
      exact iff_of_true ⟨rfl, rfl⟩ fun h => absurd h Bool.false_ne_true
    | true =>
      rw [forall_prop_of_true rfl]
      by_cases hopen : f.openIn = true ∨ f.openOut = true
      · rw [if_pos hopen]
        exact hclosed (.inr ⟨hren, hopen⟩)
      · rw [not_or, Bool.not_eq_true, Bool.not_eq_true] at hopen
        obtain ⟨hret, hdst, hkept⟩ := moveFileOn_copied hsrc hren hopen.1 hopen.2
        rw [if_neg (by simp [hopen]), AllOrNothing, hret, hdst]
        by_cases hfails : WriteFails f content
        · rw [if_neg (by simp [hfails]), if_pos hfails, if_pos hfails, and_iff_right (hkept hfails)]
          cases s.dst with
          | none => simp
          | some old => simp [eq_comm]
        · rw [if_pos (by simp [hfails]), if_neg hfails, if_neg hfails, hsrc, ← upTo_upTo_eq_iff]
          simp only [Option.isSome_some, true_and, Option.some.injEq]

/-- A read error loses the file: the copy counts as done, and the source is removed. -/
theorem read_error_loses_file :
    moveFileOn { rename := true, read := some 1 } ⟨some [1, 2, 3], some [9]⟩ = (true, ⟨none, some [1]⟩) ∧
    ¬ AllOrNothing ⟨some [1, 2, 3], some [9]⟩ (moveFileOn { rename := true, read := some 1 } ⟨some [1, 2, 3], some [9]⟩) := by
  decide

end Binkd
