import Binkd.HeaderLine
import Binkd.Misc.Freq

/-!
# Numbers and words of a line

What `sscanf` takes from a line for `%ld`, `%u`, `%s` and `%*s`, the sizes and times of
`misc/portable.c` that are read with it, and the lines of a text file: what has been printed
is read back.
-/

namespace Binkd

/-- A sign, if there is one: is it a minus? -/
def takeSign : Str → Bool × Str
  | 45 :: t => (true, t)
  | 43 :: t => (false, t)
  | t => (false, t)

/-- The digits of a number behind white space and a sign, as `scanf` takes them, and the rest. -/
def scanDigits (s : Str) : Option (Bool × ℕ × Str) :=
  let (neg, t) := takeSign (s.dropWhile isspace)
  if isdigit (t.headD 0) then some (neg, digitsValue t, t.dropWhile isdigit) else none

/-- `%ld`. -/
def scanLd (s : Str) : Option (Int × Str) :=
  (scanDigits s).map fun (neg, n, rest) =>
    (if neg then -(min n (2 ^ 63) : ℕ) else (min n (2 ^ 63 - 1) : ℕ), rest)

/-- `%u`: `strtoul`, cut to 32 bits. -/
def scanU (s : Str) : Option (ℕ × Str) :=
  (scanDigits s).map fun (neg, n, rest) =>
    ((if n ≥ 2 ^ 64 then 2 ^ 64 - 1 else if neg then 2 ^ 64 - n else n) % 2 ^ 32, rest)

/-- `%<n>s`. -/
def scanWord (n : ℕ) (s : Str) : Option (Str × Str) :=
  let s := s.dropWhile isspace
  let w := (s.takeWhile fun c => !isspace c).take n
  if w = [] then none else some (w, s.drop w.length)

/-- `%*s`. -/
def skipWord (s : Str) : Option Str :=
  let s := s.dropWhile isspace
  if s = [] then none else some (s.dropWhile fun c => !isspace c)

/-- The number of `%ld%c` times the factor of its suffix, in a `long`. -/
def parseSuffixed (factor : Byte → Option Int) (s : Str) : Int :=
  match scanLd s with
  | none => 0
  | some (num, []) => num
  | some (num, suffix :: _) => match factor (tolower suffix) with
    | some m => (num * m).bmod (2 ^ 64)
    | none => 0

/-- `parse_size`. -/
def parseSize : Str → Int := parseSuffixed fun
  | 107 => some 1024
  | 109 => some (1024 * 1024)
  | 103 => some (1024 * 1024 * 1024)
  | _ => none

/-- `parse_time`. -/
def parseTime : Str → Int := parseSuffixed fun
  | 115 => some 1
  | 109 => some 60
  | 104 => some (60 * 60)
  | 100 => some (60 * 60 * 24)
  | _ => none

variable {s t w : Str} {n : ℕ}

/-! ### Numbers that have been printed -/

/-- No digit comes next. -/
def PastDigits (s : Str) : Prop := isdigit (s.headD 0) = false

theorem digits_taken (hs : PastDigits s) (m : ℕ) :
    (decimal m ++ s).dropWhile isdigit = s ∧ digitsValue (decimal m ++ s) = m := by
  have hnil : s.takeWhile isdigit = [] := by
    cases s with
    | nil => rfl
    | cons c s => exact List.takeWhile_cons_of_neg (by simpa [PastDigits] using hs)
  have htake : (decimal m ++ s).takeWhile isdigit = decimal m := by
    rw [List.takeWhile_append_of_pos (decimal_isdigit m), hnil, List.append_nil]
  constructor
  · have happend := List.takeWhile_append_dropWhile (p := isdigit) (l := decimal m ++ s)
    rw [htake] at happend
    exact List.append_cancel_left happend
  · have hvalue := digitsValue_decimal m
    unfold digitsValue at hvalue ⊢
    rw [htake]
    rwa [List.takeWhile_eq_self_iff.mpr (decimal_isdigit m)] at hvalue

theorem scanDigits_decimal (hs : PastDigits s) (m : ℕ) :
    scanDigits (decimal m ++ s) = some (false, m, s) := by
  obtain ⟨hdrop, hvalue⟩ := digits_taken hs m
  obtain ⟨c, r, hc, hd⟩ := decimal_cons m
  obtain ⟨hspace, -, h45, h43⟩ := digit_not_space hd
  have hstart : (decimal m ++ s).dropWhile isspace = decimal m ++ s := by
    rw [hc, List.cons_append, List.dropWhile_cons_of_neg (by simp [hspace])]
  have hsign : takeSign (decimal m ++ s) = (false, decimal m ++ s) := by
    rw [hc, List.cons_append]
    unfold takeSign
    split
    · next heq => exact absurd (List.cons.inj heq).1 h45
    · next heq => exact absurd (List.cons.inj heq).1 h43
    · rfl
  have hdigit : isdigit ((decimal m ++ s).headD 0) = true := by
    rw [hc]
    exact hd
  unfold scanDigits
  rw [hstart, hsign]
  dsimp only
  rw [if_pos hdigit, hdrop, hvalue]

theorem scanDigits_neg (hs : PastDigits s) (m : ℕ) :
    scanDigits (45 :: (decimal m ++ s)) = some (true, m, s) := by
  obtain ⟨hdrop, hvalue⟩ := digits_taken hs m
  obtain ⟨c, r, hc, hd⟩ := decimal_cons m
  have hdigit : isdigit ((decimal m ++ s).headD 0) = true := by
    rw [hc]
    exact hd
  have hsign : takeSign (45 :: (decimal m ++ s)) = (true, decimal m ++ s) := rfl
  unfold scanDigits
  rw [List.dropWhile_cons_of_neg (by decide), hsign]
  dsimp only
  rw [if_pos hdigit, hdrop, hvalue]

theorem scanDigits_space (s : Str) : scanDigits (32 :: s) = scanDigits s := by
  unfold scanDigits
  rw [List.dropWhile_cons_of_pos (by rfl)]

/-- A `long`. -/
def IsLong (n : Int) : Prop := -2 ^ 63 ≤ n ∧ n < 2 ^ 63

/-- A number that has been printed behind a space is read back. -/
theorem scanLd_decimalInt {n : Int} (hn : IsLong n) (hs : PastDigits s) :
    scanLd (32 :: (decimalInt n ++ s)) = some (n, s) := by
  obtain ⟨hlow, hhigh⟩ := hn
  unfold scanLd decimalInt
  rw [scanDigits_space]
  split_ifs with hneg
  · have hcons : str "-" ++ decimal n.natAbs ++ s = 45 :: (decimal n.natAbs ++ s) := rfl
    rw [hcons, scanDigits_neg hs]
    simp only [Option.map_some, if_true, Option.some.injEq, Prod.mk.injEq, and_true]
    omega
  · rw [scanDigits_decimal hs]
    simp only [Option.map_some, Bool.false_eq_true, if_false, Option.some.injEq, Prod.mk.injEq, and_true]
    omega

/-- A word is read back with what stands behind it. -/
theorem scanWord_word (hw : Word w) (hlen : w.length ≤ n) (hs : s.head?.all isspace = true) :
    scanWord n (w ++ s) = some (w, s) := by
  have hstart : (w ++ s).dropWhile isspace = w ++ s := by
    obtain ⟨c, r, hc⟩ := List.exists_cons_of_ne_nil hw.ne_nil
    have hplain := (hw.plain c (by rw [hc]; exact List.mem_cons_self)).1
    rw [hc, List.cons_append, List.dropWhile_cons_of_neg (by simp [hplain])]
  have htake : (w ++ s).takeWhile (fun c => !isspace c) = w := by
    have hnil : s.takeWhile (fun c => !isspace c) = [] := by
      cases s with
      | nil => rfl
      | cons c s => exact List.takeWhile_cons_of_neg (by simpa using hs)
    rw [List.takeWhile_append_of_pos fun c hc => by simp [(hw.plain c hc).1], hnil, List.append_nil]
  unfold scanWord
  dsimp only
  rw [hstart, htake, List.take_of_length_le hlen, if_neg hw.ne_nil, List.drop_left]

/-! ### Lines of a text file -/

theorem readLines_textLines (lines : List Str) (fuel : ℕ) (hlines : ∀ line ∈ lines, TextLine line)
    (hfuel : lines.length ≤ fuel) : readLines fuel (lines.flatMap (· ++ [10])) = lines.map (· ++ [10]) := by
  rw [List.flatMap_def]
  apply readLines_flatten
  · intro line hline
    obtain ⟨w, hw, rfl⟩ := List.mem_map.mp hline
    exact ⟨w, hlines w hw, rfl⟩
  · rwa [List.length_map]

theorem strTrim_newline (h : Tight s) : strTrim (s ++ [10]) = s := by
  rw [strTrim_snoc (.inr (.inl rfl)), strTrim_tight h]

end Binkd
