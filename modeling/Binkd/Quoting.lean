import Binkd.Identity

/-!
# Quoting (`strquote`, `strdequote`)

`strquote` writes a byte that its flags ask for, and every backslash, as `\xHH`; a
netname that is quoted with both flags is one word for `parse_args`.  The decoder knows
two spellings of a quoted byte and takes a backslash that begins neither for itself, so
what it does depends on the bytes behind: `strdequote_quoteByte` is its step over one
byte that the encoder has written, whatever follows.
-/

namespace Binkd

variable {cntrl space : Bool} {s : Str}

/-! ### One byte -/

/-- What `strquote` writes for one byte. -/
def quoteByte (cntrl space : Bool) (c : Byte) : Str :=
  if (cntrl && iscntrl c) || (space && isspace c) || c = 92 then 92 :: 120 :: hexByte c else [c]

theorem strquote_eq (cntrl space : Bool) (s : Str) :
    strquote cntrl space s = s.flatMap (quoteByte cntrl space) := rfl

/-- The two digits of a byte are read back. -/
theorem xd_hexByte (c : Byte) : isxdigit (hexDigit (c.toNat / 16)) = true ∧
    isxdigit (hexDigit (c.toNat % 16)) = true ∧
    xd (hexDigit (c.toNat / 16)) * 16 + xd (hexDigit (c.toNat % 16)) = c :=
  forall_byte (p := fun c => isxdigit (hexDigit (c.toNat / 16)) = true ∧
    isxdigit (hexDigit (c.toNat % 16)) = true ∧
    xd (hexDigit (c.toNat / 16)) * 16 + xd (hexDigit (c.toNat % 16)) = c) (by decide +kernel) c

/-- A byte other than a backslash stands for itself. -/
theorem strdequoteBytes_cons {c : Byte} (hc : c ≠ 92) (t : List Byte) :
    strdequoteBytes (c :: t) = c :: strdequoteBytes t := by
  match t with
  | [] => rfl
  | [_] => rfl
  | [x, y] => rw [strdequoteBytes, if_neg fun h => hc h.1]; rfl
  | x :: y :: z :: t => rw [strdequoteBytes, if_neg fun h => hc h.1, if_neg fun h => hc h.1]

/-- The decoder takes a quoted byte as a whole, whatever follows. -/
theorem strdequote_quoteByte (cntrl space : Bool) (c : Byte) (t : List Byte) :
    strdequoteBytes (quoteByte cntrl space c ++ t) = c :: strdequoteBytes t := by
  unfold quoteByte
  split_ifs with hquoted
  · obtain ⟨hhigh, hlow, hvalue⟩ := xd_hexByte c
    rw [hexByte, List.cons_append, List.cons_append, List.cons_append, List.cons_append, List.nil_append,
      strdequoteBytes, if_pos ⟨rfl, rfl, hhigh, hlow⟩, hvalue]
  · have hc : c ≠ 92 := by
      rintro rfl
      simp at hquoted
    exact strdequoteBytes_cons hc t

/-! ### A text -/

theorem strdequoteBytes_strquote (cntrl space : Bool) (s : Str) (t : List Byte) :
    strdequoteBytes (strquote cntrl space s ++ t) = s ++ strdequoteBytes t := by
  rw [strquote_eq]
  induction s with
  | nil => rfl
  | cons c s ih =>
    rw [List.flatMap_cons, List.append_assoc, strdequote_quoteByte, ih]
    rfl

/-- `strquote` has the room that it allocates. -/
theorem strquote_length (cntrl space : Bool) (s : Str) : (strquote cntrl space s).length ≤ s.length * 4 := by
  rw [strquote_eq]
  induction s with
  | nil => exact Nat.le_refl _
  | cons c s ih =>
    have hbyte : (quoteByte cntrl space c).length ≤ 4 := by
      unfold quoteByte
      split_ifs <;> simp [hexByte]
    rw [List.flatMap_cons, List.length_append, List.length_cons]
    omega

/-- A word is delivered, whatever white space is before it and behind it. -/
theorem parseArgs_delivers {w : Str} (hw : Word w) {lead rest : Str} (hlead : ∀ c ∈ lead, isspace c = true)
    (hrest : ∀ c ∈ rest.head?, isspace c = true) (argc : ℕ) :
    parseArgs (argc + 1) (lead ++ w ++ rest) = (parseArgs argc (rest.drop 1)).map fun r =>
    (w :: r.1, r.2) := by
  obtain ⟨c, r, rfl⟩ := List.exists_cons_of_ne_nil hw.ne_nil
  have hword : ∀ x ∈ c :: r, (!isspace x) = true := fun x hx => by rw [(hw.plain x hx).1]; rfl
  have hc := (hw.plain c List.mem_cons_self).1
  have hstart : (lead ++ (c :: r) ++ rest).dropWhile isspace = (c :: r) ++ rest := by
    rw [List.append_assoc, List.dropWhile_append_of_pos hlead]
    exact List.dropWhile_cons_of_neg (by simp [hc])
  have hends : rest.takeWhile (!isspace ·) = [] ∧ rest.dropWhile (!isspace ·) = rest := by
    cases rest with
    | nil => exact ⟨rfl, rfl⟩
    | cons d rest =>
      have hd : ¬ (!isspace d) = true := by simp [hrest d rfl]
      exact ⟨List.takeWhile_cons_of_neg hd, List.dropWhile_cons_of_neg hd⟩
  have htake : ((c :: r) ++ rest).takeWhile (!isspace ·) = c :: r := by
    rw [List.takeWhile_append_of_pos hword, hends.1, List.append_nil]
  have hdrop : ((c :: r) ++ rest).dropWhile (!isspace ·) = rest := by
    rw [List.dropWhile_append_of_pos hword, hends.2]
  rw [parseArgs]
  simp only [hstart, htake, hdrop]
  rw [if_neg (List.cons_ne_nil c r)]
  cases parseArgs argc (rest.drop 1) <;> rfl

theorem strquote_word (h : s ≠ []) : Word (strquote true true s) := ⟨strquote_ne_nil h, strquote_plain s⟩

/-- **Quoting is undone**, with every combination of the flags; and a name that is quoted with both is
one argument, wherever it stands between white space. -/
theorem quoting_round_trip (hnul : 0 ∉ s) :
    (∀ cntrl space, strdequote (strquote cntrl space s) = s) ∧
    (s ≠ [] → (∀ c ∈ strquote true true s, isspace c = false) ∧
      ∀ (argc : ℕ) (lead rest : Str), (∀ c ∈ lead, isspace c = true) → (∀ c ∈ rest.head?, isspace c = true) →
        parseArgs (argc + 1) (lead ++ strquote true true s ++ rest) =
          (parseArgs argc (rest.drop 1)).map fun r => (strquote true true s :: r.1, r.2)) := by
  refine ⟨fun cntrl space => ?_, fun hne => ⟨fun c hc => (strquote_plain s c hc).1, ?_⟩⟩
  · have hbytes := strdequoteBytes_strquote cntrl space s []
    rw [List.append_nil] at hbytes
    rw [strdequote, hbytes]
    have hnil : strdequoteBytes [] = [] := rfl
    rw [hnil, List.append_nil]
    exact cstr_eq_self fun c hc h0 => hnul (h0 ▸ hc)
  · intro argc lead rest hlead hrest
    exact parseArgs_delivers (strquote_word hne) hlead hrest argc

/-- A name with a blank, a backslash and what looks like a quoted byte. -/
theorem quoting_round_trip_name : (∀ cntrl space, strdequote (strquote cntrl space (str "a \\x41 b")) = str "a \\x41 b") ∧
    parseArgs 2 (strquote true true (str "a \\x41 b") ++ str " 5") =
      some ([str "a\\x20\\x5cx41\\x20b", str "5"], []) := by
  obtain ⟨hback, hone⟩ := quoting_round_trip (s := str "a \\x41 b") (by decide +kernel)
  refine ⟨hback, ?_⟩
  have hdelivers := (hone (by decide)).2 1 [] (str " 5") (by simp) (by decide +kernel)
  rw [List.nil_append] at hdelivers
  rw [hdelivers]
  decide

end Binkd
