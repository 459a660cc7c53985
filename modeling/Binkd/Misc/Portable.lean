import Binkd.Env
import Binkd.Lib.Paths

/-!
# Helpers of the tools (`misc/portable.c`)

The string and path helpers that the tools around the mailer share, and the file
system as the tools see it: other processes work on the same directories, so what
a call finds is up to the file system each time it is asked.
-/

namespace Binkd

open Lib

/-- `MAX_LINE` of the tools. -/
def maxLine : Nat := 1024

/-! ### Strings -/

/-- A space or a tab. -/
def blank (c : Byte) : Bool := c == 32 || c == 9

/-- `trim_nl`. -/
def trimNl (s : Str) : Str := s.takeWhile fun c => c != 10 && c != 13

/-- `str_trim`. -/
def strTrim (s : Str) : Str := (s.reverse.dropWhile fun c => c == 13 || c == 10 || c == 32).reverse

/-- `skip_ws`. -/
def skipWs (s : Str) : Str := s.dropWhile blank

/-- `safe_strcasecmp` finds no difference. -/
def sameNoCase (a b : Str) : Bool := a.map toupper = b.map toupper

/-- `is_safe_filename`. -/
def isSafeFilename (name : Str) : Bool :=
  name ≠ [] && name.length ≤ 255 && name ≠ str "." && name ≠ str ".." && name.head? ≠ some 45 &&
    name.all fun c => isalnum c || c == 46 || c == 95 || c == 45

/-- `atol` with a 64-bit `long`. -/
def atol (s : Str) : Int :=
  match s.dropWhile isspace with
  | 45 :: r => -(min (digitsValue r) (2 ^ 63) : Nat)
  | 43 :: r => (min (digitsValue r) (2 ^ 63 - 1) : Nat)
  | r => (min (digitsValue r) (2 ^ 63 - 1) : Nat)

/-- The lines that `fgets` reads from a file, each up to its first NUL. -/
def readLines : Nat → List Byte → List Str
  | 0, _ => []
  | fuel + 1, bytes => match fgets maxLine bytes with
    | none => []
    | some (line, rest) => cstr line :: readLines fuel rest

/-- `is_wildcard`. -/
def isWildcard (s : Str) : Bool := s.any fun c => c == 42 || c == 63

/-- `wildmatch`. -/
def wildmatch : Str → Str → Bool
  | [], s => s = []
  | c :: pat, s =>
    if c = 42 then
      -- a run of stars is one star, and a star at the end takes everything
      if pat.all (· == 42) then true
      else s.tails.any fun t => t ≠ [] && wildmatch pat t
    else match s with
      | [] => false
      | d :: s => (c = 63 ∨ toupper c = toupper d) && wildmatch pat s

/-! ### Lines of a text file -/

theorem strTrim_snoc {c : Byte} (hc : c = 13 ∨ c = 10 ∨ c = 32) (s : Str) :
    strTrim (s ++ [c]) = strTrim s := by
  unfold strTrim
  rw [List.reverse_append, List.reverse_singleton, List.singleton_append, List.dropWhile_cons_of_pos]
  rcases hc with rfl | rfl | rfl <;> rfl

/-- A line that one `fgets` of the tools reads, without its line feed. -/
structure TextLine (line : Str) : Prop where
  newline : (10 : Byte) ∉ line
  nul : (0 : Byte) ∉ line
  length : line.length < 1023

theorem TextLine.cstr_eq {w : Str} (h : TextLine w) : cstr (w ++ [10]) = w ++ [10] := by
  apply cstr_eq_self
  rintro c hc rfl
  rcases List.mem_append.mp hc with hc | hc
  · exact h.nul hc
  · contradiction

theorem TextLine.fgets_eq {w : Str} (h : TextLine w) (rest : List Byte) :
    fgets maxLine (w ++ [10] ++ rest) = some (w ++ [10], rest) := by
  have hbody : (w ++ [10] ++ rest).takeWhile (· != 10) = w := by
    rw [List.append_assoc, List.takeWhile_append_of_pos]
    · simp
    · intro c hc
      have hne : c ≠ 10 := fun h10 => h.newline (h10 ▸ hc)
      simpa using hne
  have hlen := h.length
  unfold fgets
  split
  · next heq => exact absurd heq (by simp)
  · dsimp only
    rw [hbody, if_pos (by simp), List.take_of_length_le (by simp [maxLine]; omega), List.drop_left]

/-- The lines of a file are read one by one. -/
theorem readLines_flatten : ∀ (lines : List Str) (fuel : Nat),
    (∀ line ∈ lines, ∃ w, TextLine w ∧ line = w ++ [10]) → lines.length ≤ fuel →
    readLines fuel lines.flatten = lines := by
  intro lines
  induction lines with
  | nil =>
    intro fuel _ _
    cases fuel <;> rfl
  | cons line lines ih =>
    intro fuel hlines hfuel
    rw [List.length_cons] at hfuel
    obtain ⟨fuel, rfl⟩ : ∃ k, fuel = k + 1 := ⟨fuel - 1, by omega⟩
    obtain ⟨w, hw, rfl⟩ := hlines line List.mem_cons_self
    have hrest := ih fuel (fun l hl => hlines l (List.mem_cons_of_mem _ hl)) (by omega)
    rw [readLines, List.flatten_cons, hw.fgets_eq]
    dsimp only
    rw [hw.cstr_eq, hrest]

theorem fgets_lt {size : Nat} {bytes line rest : List Byte} (hsize : 0 < size)
    (h : fgets size bytes = some (line, rest)) : line.length < size := by
  unfold fgets at h
  split at h
  · contradiction
  · simp only [Option.some.injEq, Prod.mk.injEq] at h
    rw [← h.1, List.length_take]
    omega

theorem readLines_length {line : Str} : ∀ (fuel : Nat) (bytes : List Byte), line ∈ readLines fuel bytes →
    line.length < maxLine := by
  intro fuel
  induction fuel with
  | zero =>
    intro bytes hline
    exact absurd hline List.not_mem_nil
  | succ fuel ih =>
    intro bytes hline
    rw [readLines] at hline
    cases hread : fgets maxLine bytes with
    | none =>
      rw [hread] at hline
      exact absurd hline List.not_mem_nil
    | some p =>
      obtain ⟨first, rest⟩ := p
      rw [hread] at hline
      rcases List.mem_cons.mp hline with rfl | hline
      · have hcut : (cstr first).length ≤ first.length := (List.takeWhile_prefix _).length_le
        exact Nat.lt_of_le_of_lt hcut (fgets_lt (by decide) hread)
      · exact ih rest hline

/-! ### Paths -/

/-- The room that `path_join` leaves for the second part, and what of it fits. -/
def fit (outsize : Nat) (base sub : Str) : Str :=
  let out := base.take (outsize - 1)
  let blen := if out.getLast? ∈ [some 47, some 58, some 92] then out.length else min (out.length + 1) (outsize - 1)
  sub.take (outsize - 1 - blen)

/-- `path_join`. -/
def pathJoin (outsize : Nat) (base sub : Str) : Str :=
  let out := base.take (outsize - 1)
  let out := if out.getLast? ∈ [some 47, some 58, some 92] then out
    else if outsize - 1 - out.length > 0 then out ++ [47] else out
  out ++ sub.take (outsize - out.length - 1)

/-- A separator stands between the directory and the name: `path_join` puts none behind a colon
or a backslash. -/
def Joins (base sub : Str) : Prop :=
  (base.getLast? ≠ some 58 ∧ base.getLast? ≠ some 92) ∨ sub = [] ∨ sub.head? = some 47

instance (base sub : Str) : Decidable (Joins base sub) := by
  unfold Joins
  infer_instance

theorem pathJoin_fit {outsize : Nat} {base : Str} (hbase : base.length < outsize) (sub : Str) :
    pathJoin outsize base sub = base ++ fit outsize base sub ∧
        base.getLast? ∈ [some 47, some 58, some 92] ∨
      pathJoin outsize base sub = base ++ 47 :: fit outsize base sub ∧
        base.getLast? ∉ [some 47, some 58, some 92] ∨
      pathJoin outsize base sub = base ∧ fit outsize base sub = [] := by
  unfold pathJoin fit
  rw [List.take_of_length_le (by omega)]
  dsimp only
  by_cases hlast : base.getLast? ∈ [some 47, some 58, some 92]
  · rw [if_pos hlast, if_pos hlast]
    exact .inl ⟨by rw [show outsize - base.length - 1 = outsize - 1 - base.length by omega], hlast⟩
  · rw [if_neg hlast, if_neg hlast]
    by_cases hroom : outsize - 1 - base.length > 0
    · rw [if_pos hroom, min_eq_left (by omega)]
      refine .inr (.inl ⟨?_, hlast⟩)
      rw [List.length_append, List.length_singleton, List.append_assoc, List.singleton_append,
        show outsize - (base.length + 1) - 1 = outsize - 1 - (base.length + 1) by omega]
    · rw [if_neg hroom, min_eq_right (by omega)]
      refine .inr (.inr ⟨?_, by simp⟩)
      rw [show outsize - base.length - 1 = 0 by omega, List.take_zero, List.append_nil]

theorem pathJoin_length {outsize : Nat} {base : Str} (hbase : base.length < outsize) (sub : Str) :
    (pathJoin outsize base sub).length < outsize := by
  have htake : base.take (outsize - 1) = base := List.take_of_length_le (by omega)
  unfold pathJoin
  rw [htake]
  dsimp only
  split_ifs <;> simp only [List.length_append, List.length_take, List.length_singleton] <;> omega

/-- The components of a joined path. -/
theorem comps_pathJoin {outsize : Nat} {base sub : Str} (hbase : base.length < outsize)
    (hjoins : Joins base (fit outsize base sub)) :
    components 47 46 (pathJoin outsize base sub) = components 47 46 base ++ components 47 46
    (fit outsize base sub) := by
  rcases pathJoin_fit hbase sub with ⟨hjoin, hlast⟩ | ⟨hjoin, -⟩ | ⟨hjoin, hfit⟩
  · rw [hjoin]
    rcases hjoins with ⟨h58, h92⟩ | hnil | hhead
    · have h47 : base.getLast? = some 47 := by
        simp only [List.mem_cons, List.not_mem_nil, or_false] at hlast
        tauto
      obtain ⟨b, hb⟩ := List.getLast?_eq_some_iff.mp h47
      rw [hb, List.append_assoc, List.singleton_append]
      rw [components_append, components_snoc]
    · rw [hnil, List.append_nil]
      simp
    · obtain ⟨x, hx⟩ := List.head?_eq_some_iff.mp hhead
      rw [hx]
      rw [components_append]
      have hx' := components_append 47 46 ([] : Str) x
      rw [components_nil, List.nil_append, List.nil_append] at hx'
      rw [hx']
  · rw [hjoin, components_append]
  · rw [hjoin, hfit]
    simp

/-- Without a separator the path is not the directory and something behind it. -/
theorem comps_pathJoin_ne {outsize : Nat} {base sub : Str} (hbase : base.length < outsize)
    (hjoins : ¬ Joins base (fit outsize base sub)) (c : List Str) :
    components 47 46 (pathJoin outsize base sub) ≠ components 47 46 base ++ c := by
  unfold Joins at hjoins
  push Not at hjoins
  obtain ⟨hlast, hnil, hhead⟩ := hjoins
  have hend : base.getLast? = some 58 ∨ base.getLast? = some 92 := by tauto
  rcases pathJoin_fit hbase sub with ⟨hjoin, -⟩ | ⟨-, hnot⟩ | ⟨-, hfit⟩
  · rw [hjoin]
    refine components_extend ?_ ?_ ?_ hnil hhead c
    · rintro rfl
      simp at hend
    · rcases hend with h | h <;> simp [h]
    · rcases hend with h | h <;> simp [h]
  · rcases hend with h | h <;> simp [h] at hnot
  · exact absurd hfit hnil

/-- The joined path lies directly in the directory exactly if what fits of the name is one name. -/
theorem directlyIn_pathJoin {outsize : Nat} {base sub : Str} (hbase : base.length < outsize) :
    DirectlyIn 47 46 base (pathJoin outsize base sub) ↔ Joins base (fit outsize base sub) ∧
      (components 47 46 (fit outsize base sub)).length = 1 ∧
      [46, 46] ∉ components 47 46 (fit outsize base sub) := by
  constructor
  · rintro ⟨n, hn, hp⟩
    by_cases hjoins : Joins base (fit outsize base sub)
    · rw [comps_pathJoin hbase hjoins] at hp
      rw [List.append_cancel_left hp]
      exact ⟨hjoins, rfl, by simpa using fun h => hn h.symm⟩
    · exact absurd hp (comps_pathJoin_ne hbase hjoins [n])
  · rintro ⟨hjoins, hone, hup⟩
    obtain ⟨n, hn⟩ := List.length_eq_one_iff.mp hone
    rw [hn] at hup
    exact ⟨n, fun h => hup (by simp [h]), by rw [comps_pathJoin hbase hjoins, hn]⟩

/-- The joined path lies below the directory exactly if what fits of the name leads nowhere up. -/
theorem below_pathJoin {outsize : Nat} {base sub : Str} (hbase : base.length < outsize) :
    Below 47 46 base (pathJoin outsize base sub) ↔ Joins base (fit outsize base sub) ∧
      components 47 46 (fit outsize base sub) ≠ [] ∧ [46, 46] ∉ components 47 46
      (fit outsize base sub) := by
  constructor
  · rintro ⟨c, hne, hc, hp⟩
    by_cases hjoins : Joins base (fit outsize base sub)
    · rw [comps_pathJoin hbase hjoins] at hp
      obtain rfl := List.append_cancel_left hp
      exact ⟨hjoins, hne, hc⟩
    · exact absurd hp (comps_pathJoin_ne hbase hjoins c)
  · rintro ⟨hjoins, hne, hc⟩
    exact ⟨_, hne, hc, comps_pathJoin hbase hjoins⟩

/-! ### The file system -/

/-- What the file system answers, after the calls `κ` made so far, newest first. -/
structure FileSystem (κ : Type) where
  pathExists : List κ → Str → Bool
  isRegularFile : List κ → Str → Bool
  /-- the names in a directory; `none` where it cannot be opened -/
  readdir : List κ → Str → Option (List Str)
  mtime : List κ → Str → Int
  size : List κ → Str → Int
  /-- does a call that changes something succeed? -/
  ok : List κ → κ → Bool
  /-- a name is not empty and has no separator in it -/
  readdir_name : ∀ h dir names, readdir h dir = some names → ∀ n ∈ names, n ≠ [] ∧ 47 ∉ n

end Binkd
