import Binkd.BeforeLogin
import Binkd.NotToSend
import Mathlib.Data.List.Chain

/-!
# Marking the lines of a flow file (`protocol.c`, `readflo.c`)

`remove_from_spool` reads the flow file once more, with a reader of its own.  The lines
of a content are what `fgets` cuts it into (`floLines`); `floLine` is what
`read_flo_line` makes of one, `Marks` the test of `remove_from_spool`.  The two agree
but for a path that begins with the sign of an action.
-/

namespace Binkd

variable {size fuel : ℕ} {bytes line rest : List Byte} {path flopath : Str} {config : BinkdConfig} {env : Env}
  {s : State}

/-! ### The lines of a file -/

/-- What `fgets` reads: up to a line end, to the end of the file, or as much as the buffer takes. -/
structure IsLine (size : ℕ) (line rest : List Byte) : Prop where
  nonempty : line ≠ []
  short : line.length < size
  inside : 10 ∉ line.dropLast
  ends : line.getLast? = some 10 ∨ rest = [] ∨ line.length + 1 = size

theorem takeWhile_line (bytes : List Byte) : 10 ∉ bytes.takeWhile (· != 10) := by
  intro hmem
  have h := List.all_takeWhile (p := (· != 10)) (l := bytes)
  exact absurd (List.all_eq_true.mp h 10 hmem) (by decide)

theorem takeWhile_append_line (h : 10 ∉ line) (rest : List Byte) :
    (line ++ rest).takeWhile (· != 10) = line ++ rest.takeWhile (· != 10) := by
  refine List.takeWhile_append_of_pos fun c hc => ?_
  rw [bne_iff_ne]
  rintro rfl
  exact h hc

theorem dropWhile_line (bytes : List Byte) : bytes = bytes.takeWhile (· != 10) ∨
    ∃ rest, bytes = bytes.takeWhile (· != 10) ++ 10 :: rest := by
  have happ := List.takeWhile_append_dropWhile (p := (· != 10)) (l := bytes)
  cases hdrop : bytes.dropWhile (· != 10) with
  | nil =>
    rw [hdrop, List.append_nil] at happ
    exact .inl happ.symm
  | cons c rest =>
    have hc : c = 10 := by
      have h := List.head?_dropWhile_not (· != 10) bytes
      rw [hdrop] at h
      simpa using h
    rw [hdrop, hc] at happ
    exact .inr ⟨rest, happ.symm⟩

theorem fgets_isLine (hsize : 1 < size) (h : fgets size bytes = some (line, rest)) :
    bytes = line ++ rest ∧ IsLine size line rest := by
  have hno := takeWhile_line bytes
  have hdrop := dropWhile_line bytes
  obtain ⟨hpos, hlen⟩ := fgets_length hsize h
  unfold fgets at h
  split at h
  · contradiction
  · simp only [Option.some.injEq, Prod.mk.injEq] at h
    generalize bytes.takeWhile (· != 10) = body at h hno hdrop
    obtain ⟨hline, hrest⟩ := h
    rw [hline] at hrest
    subst hrest
    have hinit : ∀ l : List Byte, l.take (size - 1) = line → 10 ∉ l.dropLast → l <+: bytes →
        (l.length < size → l.getLast? = some 10 ∨ l = bytes) → bytes = line ++ bytes.drop line.length ∧
          IsLine size line (bytes.drop line.length) := by
      rintro l rfl hno ⟨rest, rfl⟩ hends
      have hne := List.length_pos_iff.mp hpos
      rcases Nat.lt_or_ge l.length size with hshort | hfull
      · rw [List.take_of_length_le (by omega : l.length ≤ size - 1)] at hne ⊢
        rw [List.drop_left]
        exact ⟨rfl, hne, hshort, hno, (hends hshort).imp_right fun h => .inl (by simpa using h)⟩
      · have htake : (l.take (size - 1)).length = size - 1 := List.length_take_of_le (by omega)
        refine ⟨?_, hne, by omega, fun hmem => hno ?_, .inr (.inr (by omega))⟩
        · rw [htake, List.drop_append_of_le_length (by omega), ← List.append_assoc,
            List.take_append_drop]
        · rw [List.dropLast_eq_take]
          exact (List.take_prefix_take_left (by omega)).subset (List.dropLast_subset _ hmem)
    rcases hdrop with rfl | ⟨rest, rfl⟩
    · rw [if_neg (lt_irrefl _)] at hline
      exact hinit bytes hline (fun hmem => hno (List.dropLast_subset _ hmem)) (List.prefix_refl _) fun _ => .inr rfl
    · rw [if_pos (by simp)] at hline
      exact hinit _ hline (by simpa using hno) ⟨rest, by simp⟩ fun _ => .inl (by simp)

/-- A line before the rest of a file is read as it is. -/
theorem IsLine.fgets (h : IsLine size line rest) : fgets size (line ++ rest) = some (line, rest) := by
  have hne : line ++ rest ≠ [] := fun hnil => h.nonempty (List.append_eq_nil_iff.mp hnil).1
  have hread : ∀ l, l.take (size - 1) = line →
      (if ((line ++ rest).takeWhile (· != 10)).length < (line ++ rest).length then
        (line ++ rest).takeWhile (· != 10) ++ [10] else (line ++ rest).takeWhile (· != 10)) = l →
      Binkd.fgets size (line ++ rest) = some (line, rest) := by
    rintro l htake rfl
    unfold Binkd.fgets
    split
    · next hnil => exact absurd hnil hne
    · simp only [htake, List.drop_left]
  obtain ⟨init, c, hinit⟩ : ∃ init c, line = init ++ [c] :=
    ⟨_, _, (List.dropLast_append_getLast h.nonempty).symm⟩
  have hinside : 10 ∉ init := by simpa [hinit] using h.inside
  have hshort := h.short
  by_cases hc : c = 10
  · refine hread line (List.take_of_length_le (by omega)) ?_
    have htake : (line ++ rest).takeWhile (· != 10) = init := by
      rw [hinit, hc, List.append_assoc, takeWhile_append_line hinside]
      simp
    rw [htake, if_pos (by simp [hinit]), hinit, hc]
  · have hno : 10 ∉ line := by
      rw [hinit]
      simp [hinside, Ne.symm hc]
    rcases h.ends with hlast | hrest | hfull
    · rw [hinit, List.getLast?_concat] at hlast
      exact absurd (Option.some.inj hlast) hc
    · refine hread line (List.take_of_length_le (by omega)) ?_
      have hall : line.takeWhile (· != 10) = line := by
        simpa using takeWhile_append_line hno []
      rw [hrest, List.append_nil, hall, if_neg (lt_irrefl _)]
    · rw [takeWhile_append_line hno] at hread
      refine hread _ ?_ rfl
      split_ifs
      · rw [List.append_assoc]
        exact List.take_left' (by omega)
      · exact List.take_left' (by omega)

/-! ### The lines of a flow file -/

def floLinesFuel : ℕ → List Byte → List (List Byte)
  | 0, _ => []
  | fuel + 1, bytes =>
    match fgets maxPathLen bytes with
    | none => []
    | some (line, rest) => line :: floLinesFuel fuel rest

/-- The lines in which a flow file is read. -/
def floLines (bytes : List Byte) : List (List Byte) := floLinesFuel bytes.length bytes

/-- What a line says: the path and the action, where it is neither blank nor marked. -/
def floLine (line : List Byte) : Option (Str × Byte) :=
  match rtrim (cstr line) with
  | [] => none
  | 126 :: _ => none
  | 94 :: path => some (path, 100)
  | 35 :: path => some (path, 116)
  | path => some (path, 0)

theorem floLinesFuel_eq (hfuel : bytes.length ≤ fuel) : floLinesFuel fuel bytes = floLines bytes := by
  unfold floLines
  have hgen : ∀ n m, bytes.length ≤ n → bytes.length ≤ m →
      floLinesFuel n bytes = floLinesFuel m bytes := by
    intro n m hn hm
    induction n generalizing bytes m with
    | zero =>
      obtain rfl : bytes = [] := List.length_eq_zero_iff.mp (by omega)
      cases m <;> rfl
    | succ n ih =>
      cases m with
      | zero =>
        obtain rfl : bytes = [] := List.length_eq_zero_iff.mp (by omega)
        rfl
      | succ m =>
        rw [floLinesFuel, floLinesFuel]
        cases hline : fgets maxPathLen bytes with
        | none => rfl
        | some r =>
          obtain ⟨hpos, hlen⟩ := fgets_length (by decide) hline
          exact congrArg (r.1 :: ·) (ih (by omega) m (by omega) (by omega))
  exact hgen _ _ hfuel le_rfl

theorem floLines_nil : floLines [] = [] := rfl

theorem floLines_cons (h : fgets maxPathLen bytes = some (line, rest)) :
    floLines bytes = line :: floLines rest := by
  obtain ⟨hpos, hlen⟩ := fgets_length (by decide) h
  obtain ⟨n, hn⟩ : ∃ n, bytes.length = n + 1 := ⟨bytes.length - 1, by omega⟩
  rw [floLines, hn, floLinesFuel, h]
  exact congrArg (line :: ·) (floLinesFuel_eq (by omega))

theorem fgets_none (h : fgets size bytes = none) : bytes = [] := by
  unfold fgets at h
  split at h
  · rfl
  · contradiction

theorem floLines_flatten (bytes : List Byte) : (floLines bytes).flatten = bytes := by
  induction hn : bytes.length using Nat.strong_induction_on generalizing bytes with
  | _ n ih =>
    cases hline : fgets maxPathLen bytes with
    | none =>
      rw [fgets_none hline]
      rfl
    | some r =>
      obtain ⟨hpos, hlen⟩ := fgets_length (by decide) hline
      obtain ⟨happ, -⟩ := fgets_isLine (by decide) hline
      rw [floLines_cons hline, List.flatten_cons, ih r.2.length (by omega) r.2 rfl, ← happ]

theorem readFloLine_succ (fuel : ℕ) (h : Handle) : readFloLine (fuel + 1) h =
    match fgets maxPathLen (h.bytes.drop h.pos) with
    | none => none
    | some (line, _) =>
      match floLine line with
      | none => readFloLine fuel { h with pos := h.pos + line.length }
      | some (path, action) => some (path, action, { h with pos := h.pos + line.length }) := by
  rw [readFloLine]
  cases fgets maxPathLen (h.bytes.drop h.pos) with
  | none => rfl
  | some r =>
    dsimp only
    unfold floLine
    generalize rtrim (cstr r.1) = buf
    split
    · rfl
    · rfl
    · rfl
    · rfl
    · next hnil hmark hkill htrunc => split <;> simp_all

/-- `readFloLine` reads one line after another and stops at the first one that says something. -/
theorem readFloLine_lines {h : Handle} (hfuel : (h.bytes.drop h.pos).length < fuel) :
    (readFloLine fuel h = none ∧ ∀ l ∈ floLines (h.bytes.drop h.pos), floLine l = none) ∨
    ∃ path action h' before line, readFloLine fuel h = some (path, action, h') ∧
      floLines (h.bytes.drop h.pos) = before ++ line :: floLines (h'.bytes.drop h'.pos) ∧
        (∀ l ∈ before, floLine l = none) ∧ floLine line = some (path, action) := by
  induction fuel generalizing h with
  | zero => omega
  | succ fuel ih =>
    rw [readFloLine_succ]
    cases hline : fgets maxPathLen (h.bytes.drop h.pos) with
    | none =>
      rw [fgets_none hline]
      exact .inl ⟨rfl, by simp [floLines_nil]⟩
    | some r =>
      obtain ⟨line, rest⟩ := r
      obtain ⟨hpos, hlen⟩ := fgets_length (by decide) hline
      obtain ⟨happ, -⟩ := fgets_isLine (by decide) hline
      have hrest : h.bytes.drop (h.pos + line.length) = rest := by
        rw [← List.drop_drop, happ, List.drop_left]
      rw [floLines_cons hline]
      dsimp only
      cases htold : floLine line with
      | none =>
        have hnext := @ih { h with pos := h.pos + line.length } (by dsimp only; rw [hrest]; omega)
        dsimp only at hnext ⊢
        rw [hrest] at hnext
        rcases hnext with ⟨hend, hnone⟩ | ⟨path, action, h', before, l, hread, hlines, hbefore, hl⟩
        · exact .inl ⟨hend, by simpa [htold] using hnone⟩
        · exact .inr ⟨path, action, h', line :: before, l,
            hread, by rw [hlines]; rfl, by simpa [htold] using hbefore, hl⟩
      | some told =>
        obtain ⟨path, action⟩ := told
        exact .inr ⟨path, action, _, [], line, rfl, by rw [hrest]; rfl, by simp, htold⟩

/-! ### The lines that are marked -/

/-- The test of `remove_from_spool` on a line. -/
def Marks (path : Str) (line : List Byte) : Prop :=
  rtrim (cstr line) ≠ [] ∧ (path = rtrim (cstr line) ∨
    ((rtrim (cstr line)).headD 0 = 94 ∨ (rtrim (cstr line)).headD 0 = 35) ∧
      path = (rtrim (cstr line)).drop 1)

instance (path : Str) (line : List Byte) : Decidable (Marks path line) :=
    inferInstanceAs (Decidable (_ ∧ _))

/-- A line is for a path: it is not marked, and `read_flo_line` returns the path for it. -/
def For (path : Str) (line : List Byte) : Prop := (floLine line).map Prod.fst = some path

instance (path : Str) (line : List Byte) : Decidable (For path line) :=
    inferInstanceAs (Decidable (_ = _))

/-- A line is written like the path, whose first byte is taken for an action when the line is read. -/
def Clash (path : Str) (line : List Byte) : Prop :=
  rtrim (cstr line) = path ∧ (path.headD 0 = 94 ∨ path.headD 0 = 35)

instance (path : Str) (line : List Byte) : Decidable (Clash path line) :=
    inferInstanceAs (Decidable (_ ∧ _))

/-- The lines that are marked can be read again from behind the mark: they end with a line end, or
one follows. -/
def Rereads (path : Str) (lines : List (List Byte)) : Prop :=
  lines.IsChain fun line next => Marks path line → line.getLast? = some 10 ∨ next.head? = some 10

instance (path : Str) (lines : List (List Byte)) : Decidable (Rereads path lines) :=
  inferInstanceAs (Decidable (List.IsChain _ _))

theorem marks_iff : Marks path line ↔
    For path line ∨ Clash path line ∨ rtrim (cstr line) = path ∧ path.headD 0 = 126 := by
  unfold Marks For Clash floLine
  generalize rtrim (cstr line) = buf
  cases buf with
  | nil =>
    constructor
    · rintro ⟨hne, -⟩
      exact absurd rfl hne
    · rintro (h | ⟨rfl, h⟩ | ⟨rfl, h⟩)
      · contradiction
      · exact absurd h (by decide)
      · exact absurd h (by decide)
  | cons c buf =>
    have hmark : c :: buf = path ∧ path.headD 0 = 126 ↔ path = c :: buf ∧ c = 126 := by
      constructor
      · rintro ⟨rfl, h⟩
        exact ⟨rfl, h⟩
      · rintro ⟨rfl, h⟩
        exact ⟨rfl, h⟩
    have hclash : c :: buf = path ∧ (path.headD 0 = 94 ∨ path.headD 0 = 35) ↔ path = c :: buf ∧
        (c = 94 ∨ c = 35) := by
      constructor
      · rintro ⟨rfl, h⟩
        exact ⟨rfl, h⟩
      · rintro ⟨rfl, h⟩
        exact ⟨rfl, h⟩
    rw [hmark, hclash]
    by_cases h126 : c = 126
    · simp [h126]
    · by_cases h94 : c = 94
      · subst h94
        simp only [List.headD_cons, List.drop_one, List.tail_cons, Option.map_some, Option.some.injEq]
        grind
      · by_cases h35 : c = 35
        · subst h35
          simp only [List.headD_cons, List.drop_one, List.tail_cons, Option.map_some, Option.some.injEq]
          grind
        · simp [h126, h94, h35, eq_comm]

/-- A line that is marked does not begin with a line end. -/
theorem Marks.cons (h : Marks path line) (hline : IsLine size line rest) :
    ∃ b tl, line = b :: tl ∧ b ≠ 10 := by
  obtain ⟨b, tl, rfl⟩ := List.exists_cons_of_ne_nil hline.nonempty
  refine ⟨b, tl, rfl, ?_⟩
  rintro rfl
  cases tl with
  | nil => exact h.1 (by decide)
  | cons c tl => exact hline.inside (by simp)

/-- What is read from behind the mark. -/
theorem reread {b : Byte} {tl : List Byte} (hline : IsLine maxPathLen (b :: tl) rest) (hb : b ≠ 10)
    (hnext : (b :: tl).getLast? = some 10 ∨ rest = [] ∨ ∃ rest', rest = 10 :: rest') :
    (fgets maxPathLen (tl ++ rest)).getD ([], []) = (tl, rest) ∨
      ∃ rest', rest = 10 :: rest' ∧ (fgets maxPathLen (tl ++ rest)).getD
      ([], []) = (tl ++ [10], rest') := by
  have hshort : tl.length + 1 < maxPathLen := hline.short
  have hinside : 10 ∉ tl.dropLast := by
    intro hmem
    cases tl with
    | nil => simp at hmem
    | cons c tl => exact hline.inside (by simpa using .inr hmem)
  by_cases hlast : (b :: tl).getLast? = some 10
  · left
    have hne : tl ≠ [] := by
      rintro rfl
      exact hb (Option.some.inj hlast)
    obtain ⟨c, tl, rfl⟩ := List.exists_cons_of_ne_nil hne
    have h : IsLine maxPathLen (c :: tl) rest := ⟨hne, by omega, hinside, .inl (by simpa using hlast)⟩
    rw [h.fgets]
    rfl
  · rcases hnext with h | rfl | ⟨rest', rfl⟩
    · exact absurd h hlast
    · left
      cases tl with
      | nil => rfl
      | cons c tl =>
        have h : IsLine maxPathLen (c :: tl) [] := ⟨by simp, by omega, hinside, .inr (.inl rfl)⟩
        rw [h.fgets]
        rfl
    · right
      have hno : 10 ∉ tl := by
        intro hmem
        rcases List.eq_nil_or_concat tl with rfl | ⟨init, c, rfl⟩
        · simp at hmem
        · rw [List.concat_eq_append] at hlast hinside hmem
          rw [List.dropLast_concat] at hinside
          rw [← List.cons_append, List.getLast?_concat] at hlast
          simp [hinside] at hmem
          exact hlast (by rw [← hmem])
      have h : IsLine maxPathLen (tl ++ [10]) rest' :=
        ⟨by simp, by simpa using hshort, by simpa using hno, .inl (by simp)⟩
      have hread := h.fgets
      rw [List.append_assoc] at hread
      exact ⟨rest', rfl, by rw [show tl ++ 10 :: rest' = tl ++ ([10] ++ rest') from rfl, hread]; rfl⟩

/-! ### What the marking makes of a flow file -/

theorem Rereads.tail {l : List Byte} {ls : List (List Byte)} (h : Rereads path (l :: ls)) :
    Rereads path ls :=
  List.IsChain.of_cons h

/-- Behind a line that is marked the file ends, or a line end follows. -/
theorem Rereads.next (h : Rereads path (line :: floLines rest)) (hmarks : Marks path line) :
    line.getLast? = some 10 ∨ rest = [] ∨ ∃ rest', rest = 10 :: rest' := by
  cases hrest : fgets maxPathLen rest with
  | none => exact .inr (.inl (fgets_none hrest))
  | some r =>
    obtain ⟨happ, hline⟩ := fgets_isLine (by decide) hrest
    rw [floLines_cons hrest] at h
    rcases (List.isChain_cons_cons.mp h).1 hmarks with hlast | hhead
    · exact .inl hlast
    · obtain ⟨tl, htl⟩ := List.head?_eq_some_iff.mp hhead
      exact .inr (.inr ⟨tl ++ r.2, by rw [happ, htl]; rfl⟩)

theorem fgets_newline (rest : List Byte) : fgets maxPathLen (10 :: rest) = some ([10], rest) := by
  have h : IsLine maxPathLen [10] rest := ⟨by simp, by decide, by simp, .inl rfl⟩
  exact h.fgets

/-- Each line is marked, or it stays. -/
theorem markFlo_lines (hrereads : Rereads path (floLines bytes)) (hfuel : bytes.length < fuel) :
    (markFlo (some path) fuel bytes).bytes =
        ((floLines bytes).map fun l => if Marks path l then l.set 0 126 else l).flatten ∧
      ((markFlo (some path) fuel bytes).empty = true ↔
        ∀ l ∈ floLines bytes, ¬ Marks path l → rtrim (cstr l) ≠ [] →
      (rtrim (cstr l)).headD 0 = 126) := by
  induction fuel using Nat.strong_induction_on generalizing bytes with
  | _ fuel ih =>
    obtain ⟨fuel, rfl⟩ : ∃ n, fuel = n + 1 := ⟨fuel - 1, by omega⟩
    rw [markFlo]
    cases hread : fgets maxPathLen bytes with
    | none =>
      rw [fgets_none hread]
      simp [floLines_nil]
    | some r =>
      obtain ⟨line, rest⟩ := r
      obtain ⟨hpos, hlen⟩ := fgets_length (by decide) hread
      obtain ⟨happ, hline⟩ := fgets_isLine (by decide) hread
      rw [floLines_cons hread] at hrereads ⊢
      obtain ⟨hbytes, hempty⟩ := ih fuel (by omega) hrereads.tail (by omega)
      dsimp only
      rw [List.map_cons, List.flatten_cons, List.forall_mem_cons]
      by_cases hblank : rtrim (cstr line) = []
      · have hno : ¬ Marks path line := fun h => h.1 hblank
        rw [if_pos hblank, if_neg hno]
        exact ⟨congrArg (line ++ ·) hbytes, by simpa [hblank] using hempty⟩
      · rw [if_neg hblank]
        by_cases hmarks : Marks path line
        · have htest : (some path).any (fun file => decide (file = rtrim (cstr line) ∨
              ((rtrim (cstr line)).headD 0 = 94 ∨ (rtrim (cstr line)).headD 0 = 35) ∧
                file = (rtrim (cstr line)).drop 1)) = true := by
            simpa using hmarks.2
          rw [if_pos htest, if_pos hmarks]
          obtain ⟨b, tl, rfl, hb⟩ := hmarks.cons hline
          have hdrop : bytes.drop 1 = tl ++ rest := by
            rw [happ]
            rfl
          rw [hdrop, List.set_cons_zero]
          rcases reread hline hb (hrereads.next hmarks) with hre | ⟨rest', rfl, hre⟩
          · rw [hre]
            exact ⟨congrArg ((126 :: tl) ++ ·) hbytes, by simpa [hmarks] using hempty⟩
          · rw [hre]
            rw [floLines_cons (fgets_newline rest')] at hrereads ⊢
            obtain ⟨hbytes, hempty⟩ := ih fuel (by omega) hrereads.tail.tail (by simp at hlen; omega)
            have hno : ¬ Marks path [10] := fun h => h.1 (by decide)
            have hblank10 : rtrim (cstr [10]) = [] := by decide
            dsimp only
            rw [hbytes, List.map_cons, List.flatten_cons, List.forall_mem_cons, if_neg hno]
            refine ⟨by simp, ?_⟩
            simpa [hmarks, hblank10] using hempty
        · have htest : ¬ (some path).any (fun file => decide (file = rtrim (cstr line) ∨
              ((rtrim (cstr line)).headD 0 = 94 ∨ (rtrim (cstr line)).headD 0 = 35) ∧
                file = (rtrim (cstr line)).drop 1)) = true := by
            intro h
            exact hmarks ⟨hblank, by simpa using h⟩
          rw [if_neg htest, if_neg hmarks]
          refine ⟨congrArg (line ++ ·) hbytes, ?_⟩
          rw [Bool.and_eq_true, hempty, and_comm]
          simp [hmarks, hblank]

/-! ### A marked file, read again -/

/-- The content with every line for the path marked. -/
def markSent (path : Str) (bytes : List Byte) : List Byte :=
  ((floLines bytes).map fun l => if For path l then l.set 0 126 else l).flatten

theorem rtrim_cons {c : Byte} (h : isspace c = false) (s : Str) : ∃ tl, rtrim (c :: s) = c :: tl := by
  refine ⟨rtrim s, ?_⟩
  unfold rtrim
  rw [List.reverse_cons, List.dropWhile_append]
  split
  · next hempty =>
    rw [List.isEmpty_iff.mp hempty]
    simp [h]
  · simp

theorem floLine_marked (tl : List Byte) : floLine (126 :: tl) = none := by
  have hcstr : cstr (126 :: tl) = 126 :: cstr tl := rfl
  obtain ⟨tl', htl'⟩ := rtrim_cons (c := 126) (by decide) (cstr tl)
  unfold floLine
  rw [hcstr, htl']
  rfl

theorem For.marks (h : For path line) : Marks path line := marks_iff.mpr (.inl h)

theorem IsLine.mark {rest' : List Byte} (h : IsLine size line rest) (hfor : For path line) (hrest : rest = [] → rest' = []) :
    IsLine size (line.set 0 126) rest' := by
  obtain ⟨b, tl, rfl, hb⟩ := hfor.marks.cons h
  rw [List.set_cons_zero]
  refine ⟨by simp, h.short, fun hmem => ?_, ?_⟩
  · cases tl with
    | nil => simp at hmem
    | cons c tl => exact h.inside (by simpa using .inr (by simpa using hmem))
  · rcases h.ends with hlast | hnil | hfull
    · cases tl with
      | nil => exact absurd (Option.some.inj hlast) hb
      | cons c tl => exact .inl (by simpa using hlast)
    · exact .inr (.inl (hrest hnil))
    · exact .inr (.inr hfull)

/-- A marked file has the same lines. -/
theorem floLines_markSent (path : Str) (bytes : List Byte) :
    floLines (markSent path bytes) = (floLines bytes).map fun l => if For path l then l.set 0 126 else l := by
  induction hn : bytes.length using Nat.strong_induction_on generalizing bytes with
  | _ n ih =>
    cases hread : fgets maxPathLen bytes with
    | none =>
      rw [fgets_none hread]
      rfl
    | some r =>
      obtain ⟨line, rest⟩ := r
      obtain ⟨hpos, hlen⟩ := fgets_length (by decide) hread
      obtain ⟨-, hline⟩ := fgets_isLine (by decide) hread
      have hrest : rest = [] → markSent path rest = [] := by
        rintro rfl
        rfl
      have hmark : IsLine maxPathLen (if For path line then line.set 0 126 else line) (markSent path rest) := by
        split_ifs with hfor
        · exact hline.mark hfor hrest
        · exact ⟨hline.nonempty, hline.short, hline.inside, hline.ends.imp_right (.imp_left hrest)⟩
      have happ : markSent path bytes =
          (if For path line then line.set 0 126 else line) ++ markSent path rest := by
        rw [markSent, floLines_cons hread, List.map_cons, List.flatten_cons]
        rfl
      rw [happ, floLines_cons hmark.fgets, ih rest.length (by omega) rest rfl,
        floLines_cons hread, List.map_cons]

/-- What is left to be sent of a file whose lines are marked. -/
theorem markSent_sent : (∀ l ∈ floLines (markSent path bytes), floLine l = none) ↔
    ∀ l ∈ floLines bytes, ¬ For path l → floLine l = none := by
  rw [floLines_markSent, List.forall_mem_map]
  refine forall₂_congr fun l hl => ?_
  split_ifs with hfor
  · have hne : l ≠ [] := by
      rintro rfl
      exact absurd hfor (by simp [For, floLine, cstr, rtrim])
    obtain ⟨b, tl, rfl⟩ := List.exists_cons_of_ne_nil hne
    simp [hfor, List.set_cons_zero, floLine_marked]
  · simp [hfor]

theorem head_rtrim {c : Byte} {tl : Str} (h : rtrim (cstr line) = c :: tl) :
    ∃ rest, line = c :: rest := by
  have htrim : rtrim (cstr line) <+: cstr line := by
    unfold rtrim
    rw [← List.reverse_suffix, List.reverse_reverse]
    exact List.dropWhile_suffix _
  obtain ⟨more, hmore⟩ := htrim.trans (List.takeWhile_prefix _)
  rw [h] at hmore
  exact ⟨tl ++ more, hmore.symm⟩

theorem For.not_clash (h : For path line) : ¬ Clash path line := by
  rintro ⟨hbuf, hhead⟩
  unfold For floLine at h
  rw [hbuf] at h
  cases path with
  | nil => contradiction
  | cons c path =>
    have hlen : path ≠ c :: path := fun heq => by simpa using congrArg List.length heq
    rcases hhead with hc | hc
    · obtain rfl : c = 94 := hc
      exact hlen (Option.some.inj h)
    · obtain rfl : c = 35 := hc
      exact hlen (Option.some.inj h)

/-- The code marks a line that is for the path, or one that is marked already, but for a clash. -/
theorem clash_iff : (if Marks path line then line.set 0 126 else line) =
    (if For path line then line.set 0 126 else line) ↔ ¬ Clash path line := by
  by_cases hfor : For path line
  · rw [if_pos hfor.marks, if_pos hfor]
    exact ⟨fun _ => hfor.not_clash, fun _ => rfl⟩
  · rw [if_neg hfor]
    by_cases hclash : Clash path line
    · have hmarks : Marks path line := marks_iff.mpr (.inr (.inl hclash))
      rw [if_pos hmarks]
      refine ⟨fun heq => ?_, fun h => absurd hclash h⟩
      obtain ⟨hbuf, hhead⟩ := hclash
      cases path with
      | nil => exact absurd hhead (by decide)
      | cons c path =>
        obtain ⟨tl, rfl⟩ := head_rtrim hbuf
        obtain rfl : 126 = c := (List.cons.inj heq).1
        have hhead : (126 : Byte) = 94 ∨ (126 : Byte) = 35 := hhead
        exact absurd hhead (by decide)
    · refine ⟨fun _ => hclash, fun _ => ?_⟩
      by_cases hmarks : Marks path line
      · rw [if_pos hmarks]
        obtain ⟨hbuf, hhead⟩ := ((marks_iff.mp hmarks).resolve_left hfor).resolve_left hclash
        cases path with
        | nil => exact absurd hhead (by decide)
        | cons c path =>
          obtain ⟨tl, rfl⟩ := head_rtrim hbuf
          obtain rfl : c = 126 := hhead
          rfl
      · rw [if_neg hmarks]

theorem flatten_map_inj {f g : List Byte → List Byte} (hlen : ∀ l, (f l).length = (g l).length) (ls : List (List Byte)) :
    (ls.map f).flatten = (ls.map g).flatten ↔ ∀ l ∈ ls, f l = g l := by
  induction ls with
  | nil => simp
  | cons l ls ih =>
    rw [List.map_cons, List.map_cons, List.flatten_cons, List.flatten_cons, List.forall_mem_cons, ← ih]
    exact ⟨fun h => List.append_inj h (hlen l), fun h => by rw [h.1, h.2]⟩

/-- The bytes are those of a file in which the lines for the path are marked, if and only if no line
clashes. -/
theorem markFlo_markSent (hrereads : Rereads path (floLines bytes)) (hfuel : bytes.length < fuel) :
    (markFlo (some path) fuel bytes).bytes = markSent path bytes ↔
    ∀ l ∈ floLines bytes, ¬ Clash path l := by
  rw [(markFlo_lines hrereads hfuel).1, markSent, flatten_map_inj]
  · exact forall₂_congr fun l _ => clash_iff
  · intro l
    split_ifs <;> simp

/-- Where no line clashes, a file that counts as empty has nothing left to be sent. -/
theorem markFlo_empty (hrereads : Rereads path (floLines bytes)) (hfuel : bytes.length < fuel)
    (hclash : ∀ l ∈ floLines bytes, ¬ Clash path l) (hempty : (markFlo (some path) fuel bytes).empty = true) :
    ∀ l ∈ floLines (markSent path bytes), floLine l = none := by
  refine markSent_sent.mpr fun l hl hfor => ?_
  have hdone := (markFlo_lines hrereads hfuel).2.mp hempty l hl
  by_cases hblank : rtrim (cstr l) = []
  · simp [floLine, hblank]
  · have hhead : (rtrim (cstr l)).headD 0 = 126 := by
      by_cases hmarks : Marks path l
      · obtain ⟨hbuf, hhead⟩ := ((marks_iff.mp hmarks).resolve_left hfor).resolve_left (hclash l hl)
        rw [hbuf]
        exact hhead
      · exact hdone hmarks hblank
    obtain ⟨c, tl, hbuf⟩ := List.exists_cons_of_ne_nil hblank
    rw [hbuf] at hhead
    obtain rfl : c = 126 := hhead
    unfold floLine
    rw [hbuf]
    rfl

/-- A line that clashes is one that is still to be sent. -/
theorem Clash.unsent (h : Clash path line) : floLine line ≠ none := by
  obtain ⟨hbuf, hhead⟩ := h
  cases path with
  | nil => exact absurd hhead (by decide)
  | cons c path =>
    unfold floLine
    rw [hbuf]
    rcases hhead with hc | hc
    · obtain rfl : c = 94 := hc
      simp
    · obtain rfl : c = 35 := hc
      simp

/-! ### The flow file on the disk -/

/-- What `remove_from_spool` goes through: the flow file that is open, or the one on the disk. -/
def floContent (env : Env) (flopath : Str) (s : State) : Option (List Byte) :=
  match s.tx.flo.f.filter fun _ => s.tx.flo.path = flopath with
  | some h => some h.bytes
  | none => (s.disk.fopenR env flopath).map (·.bytes)

/-- The lines for the path are marked in the flow file and nothing else is changed; where the file
is gone, nothing of it was left to be sent. -/
structure FloMarked (path flopath : Str) (bytes : List Byte) (s s' : State) : Prop where
  disk : ∀ f, s.disk.lookup flopath = some f →
    s'.disk.lookup flopath = some { f with bytes := markSent path bytes } ∨
    s'.disk.lookup flopath = none ∧ ∀ l ∈ floLines (markSent path bytes), floLine l = none
  handle : ∀ h, s.tx.flo.f = some h → s.tx.flo.path = flopath →
    s'.tx.flo.f = some { h with bytes := markSent path bytes }

theorem setBytes_lookup {disk : Disk} {f : FileInfo} (h : disk.lookup flopath = some f) :
    (disk.setBytes flopath bytes).lookup flopath = some { f with bytes := bytes } := by
  unfold Disk.setBytes
  rw [h]
  exact AList.lookup_insert disk

theorem removeFromFlo_marked (hcontent : floContent env flopath s = some bytes) (hrereads : Rereads path (floLines bytes)) :
    FloMarked path flopath bytes s (removeFromFlo env flopath (some path) s).2 ↔
      ∀ l ∈ floLines bytes, ¬ Clash path l := by
  unfold floContent at hcontent
  unfold removeFromFlo
  cases hopen : s.tx.flo.f.filter fun _ => s.tx.flo.path = flopath with
  | some h =>
    rw [hopen] at hcontent
    obtain rfl := Option.some.inj hcontent
    obtain ⟨hf, hpath⟩ := Option.filter_eq_some_iff.mp hopen
    have hbytes := @markFlo_markSent (h.bytes.length + 1) h.bytes path hrereads (Nat.lt_succ_self _)
    dsimp only
    rw [← hbytes]
    constructor
    · intro hmarked
      exact congrArg Handle.bytes (Option.some.inj (hmarked.handle h hf (by simpa using hpath)))
    · intro heq
      rw [heq]
      refine ⟨fun f hlookup => .inl (setBytes_lookup hlookup), fun h' hf' _ => ?_⟩
      obtain rfl := Option.some.inj (hf.symm.trans hf')
      rfl
  | none =>
    rw [hopen] at hcontent
    obtain ⟨h, hfopen, rfl⟩ := Option.map_eq_some_iff.mp hcontent
    have hfuel : h.bytes.length < h.bytes.length + 1 := Nat.lt_succ_self _
    have hbytes := @markFlo_markSent (h.bytes.length + 1) h.bytes path hrereads hfuel
    obtain ⟨f, hlookup⟩ : ∃ f, s.disk.lookup flopath = some f := by
      unfold Disk.fopenR at hfopen
      split at hfopen
      · contradiction
      · obtain ⟨f, hf, -⟩ := Option.map_eq_some_iff.mp hfopen
        exact ⟨f, hf⟩
    have hset := @setBytes_lookup (markFlo (some path) (h.bytes.length + 1) h.bytes).bytes flopath s.disk f hlookup
    have hclosed : ∀ h', s.tx.flo.f = some h' → s.tx.flo.path ≠ flopath := by
      intro h' hf' hpath
      rw [hf', Option.filter_some, if_pos (by simpa using hpath)] at hopen
      contradiction
    rw [hfopen]
    dsimp only
    constructor
    · intro hmarked
      rcases hmarked.disk f hlookup with hkept | ⟨hgone, hsent⟩
      · rw [← hbytes]
        split_ifs at hkept with hempty
        · rcases (Disk.delete_lookup env _ flopath flopath).1 with hsame | ⟨-, hnone⟩
          · rw [hsame, hset] at hkept
            exact congrArg FileInfo.bytes (Option.some.inj hkept)
          · rw [hnone] at hkept
            contradiction
        · rw [hset] at hkept
          exact congrArg FileInfo.bytes (Option.some.inj hkept)
      · intro l hl hclash
        exact hclash.unsent (markSent_sent.mp hsent l hl fun hfor => hfor.not_clash hclash)
    · intro hclash
      rw [hbytes.mpr hclash] at hset ⊢
      refine ⟨fun f' hf' => ?_, fun h' hf' hpath => absurd hpath (hclosed h' hf')⟩
      obtain rfl := Option.some.inj (hlookup.symm.trans hf')
      split_ifs with hempty
      · rcases (Disk.delete_lookup env (s.disk.setBytes flopath (markSent path h.bytes)) flopath flopath).1 with
          hsame | ⟨-, hnone⟩
        · exact .inl (hsame.trans hset)
        · exact .inr ⟨hnone, markFlo_empty hrereads hfuel hclash hempty⟩
      · exact .inl hset

/-- An action is performed on the file it is for, and the flow files stay. -/
theorem performAction_flo {w : Str} {action : Byte} (hw : action = 100 ∨ action = 116 → w ≠ flopath) :
    (performAction env w action s).disk.lookup flopath = s.disk.lookup flopath ∧
      (performAction env w action s).tx.flo = s.tx.flo := by
  unfold performAction
  split_ifs with hkill htrunc hadd
  · have hne : flopath ≠ w := fun heq => hw (.inl hkill) heq.symm
    have hframe := (Disk.delete_lookup env s.disk w flopath).1.resolve_right fun h => hne h.1
    split
    · next disk hdel =>
      rw [hdel] at hframe
      exact ⟨hframe, rfl⟩
    · next disk hdel =>
      rw [hdel] at hframe
      exact ⟨hframe, rfl⟩
  · have hne : flopath ≠ w := fun heq => hw (.inr htrunc) heq.symm
    refine ⟨?_, rfl⟩
    unfold Disk.truncFile
    dsimp only
    split
    · split
      · rfl
      · exact AList.lookup_insert_ne hne
    · rfl
  · exact ⟨rfl, rfl⟩
  · exact ⟨rfl, rfl⟩

theorem FloMarked.perform {s' : State} {w : Str} {action : Byte} (hw : action = 100 ∨ action = 116 → w ≠ flopath) :
    FloMarked path flopath bytes s (performAction env w action s') ↔
    FloMarked path flopath bytes s s' := by
  obtain ⟨hdisk, hflo⟩ := @performAction_flo flopath env s' w action hw
  constructor
  · intro h
    exact ⟨fun f hf => by rw [← hdisk]; exact h.disk f hf,
      fun h' hf hpath => by rw [← hflo]; exact h.handle h' hf hpath⟩
  · intro h
    exact ⟨fun f hf => by rw [hdisk]; exact h.disk f hf,
      fun h' hf hpath => by rw [hflo]; exact h.handle h' hf hpath⟩

variable (config) in
/-- **Marking a flow file**: the lines for the path are marked, nothing else is changed, and only a
file with nothing left to be sent is deleted, if and only if no line is written like the path itself
where the path begins with the sign of an action. -/
theorem removeFromSpool_marks (action : Byte) (hne : flopath ≠ []) (hcontent : floContent env flopath s = some bytes)
    (hself : action = 100 ∨ action = 116 → ∀ w, w = path ∨ transFloLine config path = some w → w ≠ flopath)
    (hrereads : Rereads path (floLines bytes)) :
    FloMarked path flopath bytes s (removeFromSpool config env flopath (some path) action s) ↔
      ∀ l ∈ floLines bytes, ¬ Clash path l := by
  rw [← removeFromFlo_marked hcontent hrereads]
  unfold removeFromSpool
  rw [if_neg hne]
  have hopened : (removeFromFlo env flopath (some path) s).1.isSome := by
    unfold floContent at hcontent
    unfold removeFromFlo
    split
    · rfl
    · next hopen =>
      rw [hopen] at hcontent
      obtain ⟨h, hfopen, -⟩ := Option.map_eq_some_iff.mp hcontent
      rw [hfopen]
      rfl
  generalize removeFromFlo env flopath (some path) s = r at hopened ⊢
  obtain ⟨found, s'⟩ := r
  obtain ⟨found, rfl⟩ := Option.isSome_iff_exists.mp hopened
  dsimp only [Option.bind_some]
  cases hw : (if found = true then transFloLine config path else none) with
  | none => exact FloMarked.perform fun ha => hself ha path (.inl rfl)
  | some w =>
    refine FloMarked.perform fun ha => hself ha w (.inr ?_)
    split_ifs at hw
    exact hw

/-! ### Two lines that look alike -/

/-- A flow file on the disk that no session has open. -/
def floState (content : String) : State :=
  start inboundConfig {} ((∅ : Disk).insert (str "/f.flo") { bytes := str content }) [] [] none none

/-- A line for `^a`, one for `a` and one for `b`. -/
def alikeState : State := floState "^^a\n^a\nb\n"

/-- `^a` is returned for the first line, and `a`, which has not been sent, is marked with it. -/
theorem alike_marked :
    ((readFloLine 10 ⟨str "/f.flo", str "^^a\n^a\nb\n", 0⟩).map fun r => r.1) = some (str "^a") ∧
      ¬ FloMarked (str "^a") (str "/f.flo") (str "^^a\n^a\nb\n") alikeState
        (removeFromSpool inboundConfig {} (str "/f.flo") (some (str "^a")) 100 alikeState) := by
  refine ⟨by decide +kernel, fun h => ?_⟩
  have hdisk := h.disk { bytes := str "^^a\n^a\nb\n" } (by decide +kernel)
  revert hdisk
  decide +kernel

/-- Without the line for `a` it is as it should be. -/
theorem removeFromSpool_marks_one :
    FloMarked (str "^a") (str "/f.flo") (str "^^a\nb\n") (floState "^^a\nb\n")
      (removeFromSpool inboundConfig {} (str "/f.flo") (some (str "^a")) 100 (floState "^^a\nb\n")) := by
  have hrules : transFloLine inboundConfig (str "^a") = none := by decide
  refine (removeFromSpool_marks inboundConfig 100 (by decide) (by decide +kernel) ?_ (by decide +kernel)).mpr
    (by decide +kernel)
  rintro - w (rfl | hw)
  · decide
  · rw [hrules] at hw
    contradiction

end Binkd
