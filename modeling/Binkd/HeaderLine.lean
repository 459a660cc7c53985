import Binkd.Accepted
import Binkd.AddressText
import Binkd.FloMark
import Binkd.Presentation

/-!
# The line of a header (`creat_tmp_name` and `find_tmp_name` of `inbound.c`)

A header is written as four words and read with `getwordx` without escapes, but with
quotation marks.  A netname without them, the numbers and an address with a plain domain come
back as they were (`readHr_header`, `senderBack_of_domainBack`); one with them never does
(`readHr_unquoted`).
-/

namespace Binkd

open Lib

variable {env : Env} {file : TFile} {a : FtnAddr} {path : Str} {w : Str} {q : Bool} {dest src rest : List Byte}
  {fuel : ℕ} {pDomains : List FtnDomain}

/-! ### Words without escapes -/

/-- `GWX_NOESC`. -/
abbrev noEscapes : GwxFlags := { noesc := true }

theorem sep_space {c : Byte} (h : defFldsep.contains c = true) : isspace c = true := by
  have hsep : c = 32 ∨ c = 9 ∨ c = 10 ∨ c = 13 := by simpa [defFldsep] using h
  rcases hsep with rfl | rfl | rfl | rfl <;> decide

/-- A byte that is no white space does not end a word. -/
theorem not_sep {c : Byte} (h : isspace c = false) : c ≠ 10 ∧ c ≠ 13 ∧ defFldsep.contains c = false := by
  refine ⟨?_, ?_, ?_⟩
  · rintro rfl
    cases h
  · rintro rfl
    cases h
  · by_contra hsep
    rw [sep_space (by simpa using hsep)] at h
    cases h

/-- Outside quotes, and with no quotation mark in it, a word is read up to the blank or the line end. -/
theorem scan_word {e : Byte} (he : e = 32 ∨ e = 10) (hw : ∀ c ∈ w, isspace c = false ∧ c ≠ 0)
    (hquote : 34 ∉ w)
    (hfuel : w.length < fuel) :
    getwordxScan noEscapes defFldsep fuel false dest
    (w ++ e :: rest) = (dest ++ w, false, e :: rest) := by
  induction w generalizing dest fuel with
  | nil =>
    obtain ⟨fuel, rfl⟩ := Nat.exists_eq_succ_of_ne_zero (Nat.ne_of_gt hfuel)
    rw [List.append_nil]
    rcases he with rfl | rfl
    · rfl
    · rfl
  | cons c w ih =>
    obtain ⟨fuel, rfl⟩ := Nat.exists_eq_succ_of_ne_zero (Nat.ne_of_gt (Nat.lt_of_le_of_lt (Nat.zero_le _) hfuel))
    obtain ⟨hspace, hnul⟩ := hw c List.mem_cons_self
    obtain ⟨h10, h13, hsep⟩ := not_sep hspace
    have h34 : c ≠ 34 := fun h => hquote (h ▸ List.mem_cons_self)
    have hrest := @ih (dest ++ [c]) fuel (fun x hx => hw x (List.mem_cons_of_mem c hx))
      (fun h => hquote (List.mem_cons_of_mem c h)) (by simpa using hfuel)
    rw [List.cons_append, getwordxScan, if_neg (by simp), if_neg (by simp [hnul, h10, h13]),
      if_neg h34, if_neg (by rw [hsep]; decide), hrest, List.append_assoc]
    rfl

/-- The first word of a text that does not begin with a separator. -/
theorem word_head {c : Byte} {r : List Byte} (hsep : defFldsep.contains c = false) (hnul : c ≠ 0) :
    getwordx2From noEscapes defFldsep defFldsep 1 q (c :: r) =
      some (cstr (getwordxScan noEscapes defFldsep (r.length + 1) q [] (c :: r)).1) := by
  rw [getwordx2From, List.dropWhile_cons_of_neg (by simp only [hsep, Bool.false_and]; decide)]
  dsimp only
  rw [if_neg (by simp [hnul]), if_pos rfl]

theorem Word.cstr_eq (hw : Word w) : cstr w = w :=
  List.takeWhile_eq_self_iff.mpr fun c hc => by simp [(hw.plain c hc).2]

/-- The first word of a text. -/
theorem first_word {e : Byte} (he : e = 32 ∨ e = 10) (hw : Word w) (hquote : 34 ∉ w) (rest : List Byte) :
    getwordx2From noEscapes defFldsep defFldsep 1 false (w ++ e :: rest) = some w := by
  obtain ⟨c, r, rfl⟩ := List.exists_cons_of_ne_nil hw.ne_nil
  obtain ⟨hspace, hnul⟩ := hw.plain c List.mem_cons_self
  have hscan := @scan_word (c :: r) [] rest ((r ++ e :: rest).length + 1) e he hw.plain hquote (by simp)
  rw [List.cons_append] at hscan ⊢
  rw [word_head (not_sep hspace).2.2 hnul, hscan, List.nil_append, hw.cstr_eq]

/-- The words behind the first one. -/
theorem next_word (hw : Word w) (hquote : 34 ∉ w) (n : ℕ) (rest : List Byte) :
    getwordx2From noEscapes defFldsep defFldsep (n + 2) false (w ++ 32 :: rest) =
      getwordx2From noEscapes defFldsep defFldsep (n + 1) false rest := by
  obtain ⟨c, r, rfl⟩ := List.exists_cons_of_ne_nil hw.ne_nil
  obtain ⟨hspace, hnul⟩ := hw.plain c List.mem_cons_self
  have hscan := @scan_word (c :: r) [] rest ((r ++ 32 :: rest).length + 1) 32 (.inl rfl) hw.plain hquote (by simp)
  rw [List.cons_append] at hscan ⊢
  have hsep := (not_sep hspace).2.2
  rw [getwordx2From, List.dropWhile_cons_of_neg (by simp only [hsep, Bool.false_and]; decide)]
  dsimp only
  rw [if_neg (by simp [hnul]), hscan]
  dsimp only
  rw [if_neg (Nat.succ_ne_zero n)]
  rfl

/-- What is read of a word has no quotation mark. -/
theorem scan_unquoted (hdest : 34 ∉ dest) :
    34 ∉ (getwordxScan noEscapes defFldsep fuel q dest src).1 := by
  induction fuel generalizing q dest src with
  | zero => exact hdest
  | succ fuel ih =>
    cases src with
    | nil => exact hdest
    | cons c r =>
      rw [getwordxScan, if_neg (by simp)]
      split_ifs with hend hquote hsep
      · exact hdest
      · exact ih hdest
      · exact hdest
      · refine ih fun hmem => ?_
        rcases List.mem_append.mp hmem with h | h
        · exact hdest h
        · exact hquote (List.mem_singleton.mp h).symm

theorem word_unquoted {n : ℕ} (h : getwordx2From noEscapes defFldsep defFldsep n q src = some w) :
    34 ∉ w := by
  induction n generalizing q src with
  | zero => cases h
  | succ n ih =>
    rw [getwordx2From] at h
    split at h
    · cases h
    · next c r _ =>
      have hscan := @scan_unquoted q [] (c :: r) (r.length + 1) (by simp)
      generalize getwordxScan noEscapes defFldsep (r.length + 1) q [] (c :: r) = res at h hscan
      obtain ⟨v, q', src'⟩ := res
      dsimp only at h hscan
      by_cases hstop : c = 0 ∨ noEscapes.hash = true ∧ c = 35
      · rw [if_pos hstop] at h
        cases h
      · rw [if_neg hstop] at h
        by_cases hn : n = 0
        · rw [if_pos hn] at h
          obtain rfl := Option.some.inj h
          exact fun hmem => hscan ((List.takeWhile_prefix _).subset hmem)
        · rw [if_neg hn] at h
          split at h
          · exact ih h
          · exact ih h

/-- A word ends at the end of the line, whatever follows it. -/
theorem scan_line {x y y' : List Byte} {fuel' : ℕ} (hfuel : x.length < fuel) (hfuel' : x.length < fuel') :
    (getwordxScan noEscapes defFldsep fuel q dest (x ++ 10 :: y)).1 =
      (getwordxScan noEscapes defFldsep fuel' q dest (x ++ 10 :: y')).1 := by
  induction x generalizing q dest fuel fuel' with
  | nil =>
    obtain ⟨fuel, rfl⟩ := Nat.exists_eq_succ_of_ne_zero (Nat.ne_of_gt hfuel)
    obtain ⟨fuel', rfl⟩ := Nat.exists_eq_succ_of_ne_zero (Nat.ne_of_gt hfuel')
    rfl
  | cons c x ih =>
    obtain ⟨fuel, rfl⟩ := Nat.exists_eq_succ_of_ne_zero (Nat.ne_of_gt (Nat.lt_of_le_of_lt (Nat.zero_le _) hfuel))
    obtain ⟨fuel', rfl⟩ := Nat.exists_eq_succ_of_ne_zero (Nat.ne_of_gt (Nat.lt_of_le_of_lt (Nat.zero_le _) hfuel'))
    have hrest : ∀ (q : Bool) (dest : List Byte),
        (getwordxScan noEscapes defFldsep fuel q dest (x ++ 10 :: y)).1 =
          (getwordxScan noEscapes defFldsep fuel' q dest (x ++ 10 :: y')).1 :=
      fun q dest => ih (Nat.lt_of_succ_lt_succ hfuel) (Nat.lt_of_succ_lt_succ hfuel')
    simp only [List.cons_append, getwordxScan, noEscapes, Bool.not_true, Bool.false_and,
      Bool.false_eq_true, if_false]
    by_cases hend : c = 0 ∨ c = 10 ∨ c = 13
    · rw [if_pos hend, if_pos hend]
    · rw [if_neg hend, if_neg hend]
      by_cases hquote : c = 34
      · rw [if_pos hquote, if_pos hquote]
        exact hrest _ _
      · rw [if_neg hquote, if_neg hquote]
        by_cases hsep : (defFldsep.contains c && !q) = true
        · rw [if_pos hsep, if_pos hsep]
        · rw [if_neg hsep, if_neg hsep]
          exact hrest _ _

theorem first_word_line {c : Byte} {x y y' : List Byte} (hsep : defFldsep.contains c = false)
    (hnul : c ≠ 0) :
    getwordx2From noEscapes defFldsep defFldsep 1 false (c :: x ++ 10 :: y) =
      getwordx2From noEscapes defFldsep defFldsep 1 false (c :: x ++ 10 :: y') := by
  have hscan := @scan_line false [] ((x ++ 10 :: y).length + 1) (c :: x) y y' ((x ++ 10 :: y').length + 1)
    (by simp) (by simp)
  rw [List.cons_append, List.cons_append] at hscan ⊢
  rw [word_head hsep hnul, word_head hsep hnul, hscan]

/-! ### Reading a header -/

/-- The sender that is read back from a header: the first word of the address as it was printed. -/
def senderRead (a : FtnAddr) : Option Str :=
  getwordx2From noEscapes defFldsep defFldsep 1 false (ftnaddressToStr a ++ [10])

/-- The sender is read back as the address that it was. -/
def SenderBack (pDomains : List FtnDomain) (a : FtnAddr) : Prop :=
  ∃ w ∈ senderRead a, ∃ b ∈ parseFtnaddress w pDomains, ftnaddressCmp b a = 0

theorem decimalInt_head (n : ℤ) : ∃ c r, decimalInt n = c :: r ∧
    defFldsep.contains c = false ∧ c ≠ 0 := by
  unfold decimalInt
  split_ifs
  · exact ⟨45, decimal n.natAbs, rfl, by decide, by decide⟩
  · obtain ⟨c, r, h, hd⟩ := decimal_cons n.natAbs
    obtain ⟨hspace, hnul, -⟩ := digit_not_space hd
    exact ⟨c, r, h, (not_sep hspace).2.2, hnul⟩

/-- The text of an address begins with no separator. -/
theorem ftnaddressToStr_head (a : FtnAddr) :
    ∃ c r, ftnaddressToStr a = c :: r ∧ defFldsep.contains c = false ∧ c ≠ 0 := by
  have happ : ∀ {x : Str} (y : Str), (∃ c r, x = c :: r ∧ defFldsep.contains c = false ∧ c ≠ 0) →
      ∃ c r, x ++ y = c :: r ∧ defFldsep.contains c = false ∧ c ≠ 0 := by
    rintro x y ⟨c, r, rfl, h⟩
    exact ⟨c, r ++ y, rfl, h⟩
  unfold ftnaddressToStr xftnaddressToStr
  refine happ _ ?_
  by_cases hz : a.z = -1
  · by_cases hnet : a.net = -1
    · by_cases hnode : a.node = -1
      · rw [if_neg (not_not.mpr hz), if_neg (not_not.mpr hnet), if_neg (not_not.mpr hnode),
          if_pos (.inr (.inl hnode))]
        exact ⟨46, _, rfl, by decide, by decide⟩
      · rw [if_neg (not_not.mpr hz), if_neg (not_not.mpr hnet), if_pos hnode]
        exact ⟨47, _, rfl, by decide, by decide⟩
    · rw [if_neg (not_not.mpr hz), if_pos hnet]
      exact happ _ (happ _ (decimalInt_head _))
  · rw [if_pos hz]
    exact happ _ (happ _ (happ _ (happ _ (decimalInt_head _))))

/-- A text without white space, NUL and quotation mark. -/
def Unbroken (w : Str) : Prop := ∀ c ∈ w, isspace c = false ∧ c ≠ 0 ∧ c ≠ 34

theorem Unbroken.append {x y : Str} (hx : Unbroken x) (hy : Unbroken y) : Unbroken (x ++ y) := by
  intro c hc
  rcases List.mem_append.mp hc with h | h
  · exact hx c h
  · exact hy c h

theorem Unbroken.ite {c : Prop} [Decidable c] {x : Str} (hx : Unbroken x) :
    Unbroken (if c then x else []) := by
  split_ifs
  · exact hx
  · exact fun b hb => absurd hb List.not_mem_nil

theorem unbroken_sign {x : Byte} (hx : isspace x = false ∧ x ≠ 0 ∧ x ≠ 34) : Unbroken [x] := by
  intro c hc
  rw [List.mem_singleton.mp hc]
  exact hx

theorem decimalInt_unbroken (n : ℤ) : Unbroken (decimalInt n) := by
  have hdigits : Unbroken (decimal n.natAbs) := by
    intro c hc
    have hd := decimal_isdigit n.natAbs c hc
    refine ⟨(digit_not_space hd).1, (digit_not_space hd).2.1, ?_⟩
    rintro rfl
    cases hd
  unfold decimalInt
  split_ifs
  · exact Unbroken.append (@unbroken_sign 45 (by decide)) hdigits
  · exact hdigits

theorem wordByte_unbroken {c : Byte} (h : isWordByte c = true) : isspace c = false ∧ c ≠ 0 ∧ c ≠ 34 :=
  forall_byte (p := fun c => isWordByte c = true → isspace c = false ∧ c ≠ 0 ∧
    c ≠ 34) (by decide +kernel) c h

/-- An address with a plain domain is printed as one word. -/
theorem ftnaddressToStr_unbroken (hdomain : a.domain = [] ∨ DomainWord a.domain) :
    Unbroken (ftnaddressToStr a) := by
  have hd : Unbroken a.domain := by
    rcases hdomain with h | h
    · rw [h]
      exact fun b hb => absurd hb List.not_mem_nil
    · exact fun c hc => wordByte_unbroken (h.bytes c hc)
  have hcolon : Unbroken (str ":") := @unbroken_sign 58 (by decide)
  have hslash : Unbroken (str "/") := @unbroken_sign 47 (by decide)
  have hdot : Unbroken (str ".") := @unbroken_sign 46 (by decide)
  have hat : Unbroken (str "@") := @unbroken_sign 64 (by decide)
  have hz := ((decimalInt_unbroken a.z.toInt).append hcolon).ite (c := a.z ≠ -1)
  have hnet := (decimalInt_unbroken a.net.toInt).ite (c := a.net ≠ -1)
  have hnode := (hslash.append (decimalInt_unbroken a.node.toInt)).ite (c := a.node ≠ -1)
  have hp := (hdot.append (decimalInt_unbroken a.p.toInt)).ite (c := a.p ≠ 0 ∨
    a.node = -1 ∨ false = true)
  have hend := (hat.append hd).ite (c := a.domain ≠ [])
  exact (((hz.append hnet).append hnode).append hp).append hend

/-- The sender is read back where its domain is. -/
theorem senderBack_of_domainBack (hform : a.Formed) (hplain : a.Plain)
    (hlen : a.domain.length ≤ maxDomain) (hback : DomainBack pDomains a) :
    SenderBack pDomains a := by
  have hdomain : a.domain = [] ∨ DomainWord a.domain := hback.imp_right And.left
  have htext := ftnaddressToStr_unbroken hdomain
  obtain ⟨c, r, hcons, -, -⟩ := ftnaddressToStr_head a
  have hword : Word (ftnaddressToStr a) :=
    ⟨by rw [hcons]; exact List.cons_ne_nil c r, fun c hc => ⟨(htext c hc).1, (htext c hc).2.1⟩⟩
  have hread := first_word (.inr rfl) hword (fun h => (htext 34 h).2.2 rfl) []
  have hparse := (parse_back hform hplain hlen false).mpr hback
  exact ⟨ftnaddressToStr a, hread, a, hparse, ftnaddressCmp_eq_zero.mpr ⟨stricmp_self _, rfl, rfl, rfl, rfl⟩⟩

/-- So it is for each address that a text names without an alias, or with an alias for a plain domain. -/
theorem senderBack_of_namedPlainly {x : Str} (ht : DomainTable pDomains)
    (hnum : ∀ ds ∈ numerals 10 x, digitsValue ds < 2 ^ 31)
    (hparse : parseFtnaddress x pDomains = some a) (hplainly : NamedPlainly pDomains x) :
    SenderBack pDomains a := by
  obtain ⟨hform, hword, hdomain⟩ := parseFtnaddress_read hparse
  have hplain := parseFtnaddress_plain hparse hnum
  cases hw : domainWord x with
  | none =>
    rw [hw] at hdomain
    have hnil : a.domain = [] := hdomain
    exact senderBack_of_domainBack hform hplain (by rw [hnil]; exact Nat.zero_le _) (.inl hnil)
  | some w =>
    rw [hw] at hdomain hword
    obtain ⟨hlen, hiff⟩ := domainBack_iff ht.inv (hword w rfl) hdomain
    exact senderBack_of_domainBack hform hplain hlen (hiff.mpr (hplainly w hw))

/-- The three words in front of the sender. -/
def headerFront (file : TFile) : Str :=
  file.netname ++ 32 :: (decimal (toUnsigned64 file.size) ++ 32 :: (decimal (toUnsigned64 file.time) ++ [32]))

theorem hrLine_eq (file : TFile) (a : FtnAddr) :
    hrLine file (some a) = headerFront file ++ (ftnaddressToStr a ++ [10]) := by
  simp [hrLine, headerFront]

/-- A netname as an `M_FILE` gives it: a word, cut to the length of the record. -/
structure Netname (name : Str) : Prop where
  word : Word name
  length : name.length ≤ maxNetname - 1

theorem decimal_line (n : ℕ) : 10 ∉ decimal n ∧ 34 ∉ decimal n := by
  refine ⟨fun h => ?_, fun h => ?_⟩
  · exact absurd (decimal_isdigit n 10 h) (by decide)
  · exact absurd (decimal_isdigit n 34 h) (by decide)

theorem headerFront_line (hname : Netname file.netname) : 10 ∉ headerFront file := by
  have hword : 10 ∉ file.netname := fun h => absurd (hname.word.plain 10 h).1 (by decide)
  simp [headerFront, hword, (decimal_line _).1]

theorem headerFront_length (hname : Netname file.netname) : (headerFront file).length ≤ 297 := by
  have hlen := hname.length
  have hsize := decimal_length (toUnsigned64_lt file.size)
  have htime := decimal_length (toUnsigned64_lt file.time)
  have hmax : maxNetname = 255 := rfl
  simp only [headerFront, List.length_append, List.length_cons, List.length_nil]
  omega

/-- The first line of a header is read as a whole. -/
theorem header_fgets (hname : Netname file.netname) (ha : a.Fits) :
    ∃ c x y rest, ftnaddressToStr a ++ [10] = c :: x ++ 10 :: y ∧ defFldsep.contains c = false ∧ c ≠ 0 ∧
      fgets (maxPathLen + 80) (hrLine file (some a)) = some
      (headerFront file ++ (c :: x ++ [10]), rest) := by
  obtain ⟨c, r, htext, hsep, hnul⟩ := ftnaddressToStr_head a
  have hlen := ftnaddressToStr_length ha
  have h10 : c ≠ 10 := by
    rintro rfl
    cases hsep
  have hfront := headerFront_length hname
  have hline : ∃ x y, r ++ [10] = x ++ 10 :: y ∧ 10 ∉ x := by
    have hno := takeWhile_line (r ++ [10])
    rcases dropWhile_line (r ++ [10]) with hall | ⟨y, hy⟩
    · rw [← hall] at hno
      simp at hno
    · exact ⟨_, y, hy, hno⟩
  obtain ⟨x, y, hxy, hx⟩ := hline
  have hxlen : x.length ≤ r.length := by
    have := congrArg List.length hxy
    simp only [List.length_append, List.length_cons, List.length_nil] at this
    omega
  have hwhole : ftnaddressToStr a ++ [10] = c :: x ++ 10 :: y := by
    rw [htext, List.cons_append, hxy, List.cons_append]
  refine ⟨c, x, y, y, hwhole, hsep, hnul, ?_⟩
  have hisline : IsLine (maxPathLen + 80) (headerFront file ++ (c :: x ++ [10])) y := by
    refine ⟨by simp, ?_, ?_, .inl ?_⟩
    · have hmax : maxPathLen = 4096 := rfl
      have hsz : ftnAddrSz < 1000 := by decide
      rw [htext, List.length_cons] at hlen
      simp only [List.length_append, List.length_cons, List.length_nil]
      omega
    · rw [← List.append_assoc, List.dropLast_concat]
      intro hmem
      rcases List.mem_append.mp hmem with h | h
      · exact headerFront_line hname h
      · rcases List.mem_cons.mp h with h | h
        · exact h10 h.symm
        · exact hx h
    · rw [← List.append_assoc, List.getLast?_concat]
  have hbytes : hrLine file (some a) = headerFront file ++ (c :: x ++ [10]) ++ y := by
    rw [hrLine_eq, hwhole]
    simp
  rw [hbytes, hisline.fgets]

/-- The first three words, and the fourth as the first one of what is left. -/
theorem four_words {x y z : Str} (hx : Word x) (hqx : 34 ∉ x) (hy : Word y) (hqy : 34 ∉ y) (hz : Word z) (hqz : 34 ∉ z)
    (rest : List Byte) :
    getwordx2From noEscapes defFldsep defFldsep 1 false (x ++ 32 :: (y ++ 32 :: (z ++ 32 :: rest))) = some x ∧
    getwordx2From noEscapes defFldsep defFldsep 2 false (x ++ 32 :: (y ++ 32 :: (z ++ 32 :: rest))) = some y ∧
    getwordx2From noEscapes defFldsep defFldsep 3 false (x ++ 32 :: (y ++ 32 :: (z ++ 32 :: rest))) = some z ∧
    getwordx2From noEscapes defFldsep defFldsep 4 false (x ++ 32 :: (y ++ 32 :: (z ++ 32 :: rest))) =
      getwordx2From noEscapes defFldsep defFldsep 1 false rest := by
  refine ⟨first_word (.inl rfl) hx hqx _, ?_, ?_, ?_⟩
  · rw [next_word hx hqx]
    exact first_word (.inl rfl) hy hqy _
  · rw [next_word hx hqx, next_word hy hqy]
    exact first_word (.inl rfl) hz hqz _
  · rw [next_word hx hqx, next_word hy hqy, next_word hz hqz]

/-- **What is read of a header** whose netname has no quotation mark. -/
theorem readHr_header {disk : Disk} {h : Handle} (hname : Netname file.netname) (hquote : 34 ∉ file.netname)
    (ha : a.Fits) (hopen : disk.fopenR env path = some h) (hbytes : h.bytes = hrLine file (some a)) :
    readHr env disk path = some (some ((senderRead a).map fun sender =>
      ⟨file.netname, decimal (toUnsigned64 file.size), decimal (toUnsigned64 file.time), sender⟩)) := by
  obtain ⟨c, x, y, rest, hwhole, hsep, hnul, hline⟩ := @header_fgets file a hname ha
  rw [← hbytes] at hline
  have hwsize := Word.of_decimal (toUnsigned64 file.size)
  have hwtime := Word.of_decimal (toUnsigned64 file.time)
  have hqsize := (decimal_line (toUnsigned64 file.size)).2
  have hqtime := (decimal_line (toUnsigned64 file.time)).2
  have hbuf : headerFront file ++ (c :: x ++ [10]) ++ 0 :: env.tail = file.netname ++ 32 ::
      (decimal (toUnsigned64 file.size) ++ 32 :: (decimal (toUnsigned64 file.time) ++ 32 ::
        (c :: x ++ 10 :: 0 :: env.tail))) := by
    simp [headerFront]
  have hsender : getwordx2From noEscapes defFldsep defFldsep 1 false (c :: x ++ 10 :: 0 :: env.tail) = senderRead a := by
    rw [senderRead, hwhole]
    exact first_word_line hsep hnul
  obtain ⟨h1, h2, h3, h4⟩ := four_words hname.word hquote hwsize hqsize hwtime hqtime
    (c :: x ++ 10 :: 0 :: env.tail)
  rw [hsender] at h4
  rw [← hbuf] at h1 h2 h3 h4
  unfold readHr
  rw [hopen, Option.map_some, hline, Option.map_some]
  simp only [getwordx, getwordx2, h1, h2, h3, h4]
  cases senderRead a with
  | none => rfl
  | some w => rfl

/-- No netname that is read of a header has a quotation mark. -/
theorem readHr_unquoted {disk : Disk} {hr : HrInfo} (h : readHr env disk path = some (some (some hr))) :
    34 ∉ hr.netname := by
  unfold readHr at h
  obtain ⟨f, -, hf⟩ := Option.map_eq_some_iff.mp h
  obtain ⟨⟨line, rest⟩, -, hline⟩ := Option.map_eq_some_iff.mp hf
  dsimp only at hline
  split at hline
  · next n1 n2 n3 n4 h1 h2 h3 h4 =>
    obtain rfl := Option.some.inj hline
    exact word_unquoted h1
  · cases hline

end Binkd
