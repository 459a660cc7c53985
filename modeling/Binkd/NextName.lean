import Binkd.BeforeLogin
import Binkd.Identity
import Binkd.Inbound
import Binkd.Lib.Calls
import Binkd.Lib.Paths
import Mathlib.Algebra.Order.BigOperators.Group.Finset
import Mathlib.Data.Nat.Digits.Lemmas

/-!
# The names of the inbound, one after another (`inbound.c`)

Where a name is taken, `nextInbFilename` makes another one: a number behind the name,
or a counter that stands before the end of the name or before its extension and takes
one byte after another of the name as a new digit.  The number of calls that are left
is the rank of a name.
-/

namespace Binkd

open Lib

variable {style : RenameStyle} {c d : Byte} {A D R x fname inbound base : Str} {pos K fuel : ℕ} {t : Place}
  {fallback : Option Str}

/-! ### The counter -/

/-- The number of digits of the counter. -/
def radix : RenameStyle → ℕ
  | .renameBody => 16
  | _ => 36

/-- The digit behind which the counter goes on to the left. -/
def lastDigit : RenameStyle → Byte
  | .renameBody => 102
  | _ => 122

/-- A digit of the counter: the decimal digits, and small letters behind them. -/
def Digit (style : RenameStyle) (c : Byte) : Prop := 48 ≤ c ∧ c ≤ 57 ∨ 97 ≤ c ∧ c ≤ lastDigit style

instance : Decidable (Digit style c) := inferInstanceAs (Decidable (_ ∨ _))

def digitVal (c : Byte) : ℕ := if c ≤ 57 then c.toNat - 48 else c.toNat - 87

/-- The number that the digits stand for. -/
def count (style : RenameStyle) (D : Str) : ℕ := Nat.ofDigits (radix style) (D.reverse.map digitVal)

theorem radix_pos : 1 < radix style := by
  cases style <;> decide

theorem Digit.toNat (h : Digit style c) : 48 ≤ c.toNat ∧ c.toNat ≤ 57 ∨ 97 ≤ c.toNat ∧
    c.toNat ≤ (lastDigit style).toNat := by
  rcases h with ⟨h1, h2⟩ | ⟨h1, h2⟩
  · exact .inl ⟨UInt8.le_iff_toNat_le.mp h1, UInt8.le_iff_toNat_le.mp h2⟩
  · exact .inr ⟨UInt8.le_iff_toNat_le.mp h1, UInt8.le_iff_toNat_le.mp h2⟩

theorem digitVal_eq (c : Byte) : digitVal c = if c.toNat ≤ 57 then c.toNat - 48 else c.toNat - 87 := by
  unfold digitVal
  exact if_congr UInt8.le_iff_toNat_le rfl rfl

theorem lastDigit_toNat : (lastDigit style).toNat = radix style + 86 := by
  cases style <;> rfl

theorem Digit.val_lt (h : Digit style c) : digitVal c < radix style := by
  have hlast := @lastDigit_toNat style
  have hradix : 16 ≤ radix style := by cases style <;> decide
  rw [digitVal_eq]
  split
  · have := h.toNat
    omega
  · have := h.toNat
    omega

/-- The digit behind a digit other than `9` and the last one. -/
theorem Digit.succ (h : Digit style c) (h9 : c ≠ 57) (hlast : c ≠ lastDigit style) :
    Digit style (c + 1) ∧ digitVal (c + 1) = digitVal c + 1 := by
  have hradix : 16 ≤ radix style ∧ radix style ≤ 36 := by cases style <;> decide
  have htop := @lastDigit_toNat style
  have hne : c.toNat ≠ (lastDigit style).toNat := fun heq => hlast (UInt8.toNat.inj heq)
  have hne9 : c.toNat ≠ 57 := fun heq => h9 (UInt8.toNat.inj heq)
  have hc := h.toNat
  have hsucc : (c + 1).toNat = c.toNat + 1 := by
    rw [UInt8.toNat_add]
    have h1 : (1 : UInt8).toNat = 1 := rfl
    omega
  constructor
  · rcases hc with hc | hc
    · refine .inl ⟨UInt8.le_iff_toNat_le.mpr ?_, UInt8.le_iff_toNat_le.mpr ?_⟩
      · rw [hsucc]
        change 48 ≤ _
        omega
      · rw [hsucc]
        change _ ≤ 57
        omega
    · refine .inr ⟨UInt8.le_iff_toNat_le.mpr ?_, UInt8.le_iff_toNat_le.mpr ?_⟩
      · rw [hsucc]
        change 97 ≤ _
        omega
      · rw [hsucc]
        omega
  · rw [digitVal_eq, digitVal_eq, hsucc]
    split_ifs <;> omega

theorem Digit.isalnum (h : Digit style c) : isalnum c = true := by
  have htop := @lastDigit_toNat style
  have hradix : radix style ≤ 36 := by cases style <;> decide
  have hc := h.toNat
  have hle : ∀ {a b : Byte}, a.toNat ≤ b.toNat → a ≤ b := UInt8.le_iff_toNat_le.mpr
  rcases h with ⟨h1, h2⟩ | ⟨h1, h2⟩
  · simp [Binkd.isalnum, isdigit, h1, h2]
  · have h122 : c ≤ 122 := by
      refine hle ?_
      change _ ≤ 122
      have := UInt8.le_iff_toNat_le.mp h2
      omega
    simp [Binkd.isalnum, isalpha, islower, h1, h122]

theorem Digit.ne (h : Digit style c) : c ≠ 46 ∧ c ≠ 47 ∧ c ≠ 0 := by
  have hc := h.toNat
  refine ⟨?_, ?_, ?_⟩
  · rintro rfl
    revert hc
    change (48 ≤ 46 ∧ _) ∨ (97 ≤ 46 ∧ _) → False
    omega
  · rintro rfl
    revert hc
    change (48 ≤ 47 ∧ _) ∨ (97 ≤ 47 ∧ _) → False
    omega
  · rintro rfl
    revert hc
    change (48 ≤ 0 ∧ _) ∨ (97 ≤ 0 ∧ _) → False
    omega

theorem count_snoc (style : RenameStyle) (D : Str) (c : Byte) :
    count style (D ++ [c]) = digitVal c + radix style * count style D := by
  simp [count, Nat.ofDigits_cons]

theorem count_lt (hD : ∀ d ∈ D, Digit style d) : count style D < radix style ^ D.length := by
  have h := Nat.ofDigits_lt_base_pow_length (b := radix style) (l := D.reverse.map digitVal) radix_pos ?_
  · simpa [count] using h
  · intro v hv
    obtain ⟨d, hd, rfl⟩ := List.mem_map.mp hv
    exact (hD d (List.mem_reverse.mp hd)).val_lt

theorem count_zeros (n : ℕ) : count style (List.replicate n 48) = 0 := by
  induction n with
  | zero => rfl
  | succ n ih =>
    rw [List.replicate_succ', count_snoc, ih]
    rfl

/-! ### One step of the counter -/

/-- The counter has run over: it takes the byte before it as a new digit, unless that is a separator
or a dot. -/
def carryOut (A : Str) (n : ℕ) (R : Str) : Option (Str × ℕ) :=
  match A.getLast? with
  | none => none
  | some a => if a = 47 ∨ a = 46 ∨ a = 0 then none
      else some (A.dropLast ++ List.replicate (n + 1) 48 ++ R, A.length - 1)

theorem set_at (A R : Str) (c e : Byte) : (A ++ c :: R).set A.length e = A ++ e :: R := by
  rw [List.set_append_right _ _ le_rfl, Nat.sub_self]
  rfl

theorem getD_at (A R : Str) (c : Byte) : (A ++ c :: R).getD A.length 0 = c := by
  rw [List.getD_eq_getElem?_getD, List.getElem?_append_right le_rfl, Nat.sub_self]
  rfl

theorem carry_cond (hstyle : style ≠ .renamePostfix) :
    ((style = .renameExtension ∧ c = 122) ∨ (style = .renameBody ∧ c = 102)) ↔ c = lastDigit style := by
  cases style with
  | renamePostfix => exact absurd rfl hstyle
  | renameExtension => simp [lastDigit]
  | renameBody => simp [lastDigit]

/-- The last digit is counted up where it is not the last one there is. -/
theorem nextBody_digit (hstyle : style ≠ .renamePostfix) (hc : Digit style c) (hlast : c ≠ lastDigit style) :
    ∃ c', Digit style c' ∧ digitVal c' = digitVal c + 1 ∧
      nextBody style (fuel + 1) A.length (A ++ c :: R) pos = some (A ++ c' :: R, pos) := by
  rw [nextBody]
  dsimp only
  rw [getD_at]
  by_cases h9 : c = 57
  · refine ⟨97, .inr ⟨by decide, by cases style <;> decide⟩, by rw [h9]; rfl, ?_⟩
    rw [if_pos h9, set_at]
  · obtain ⟨hdigit, hval⟩ := hc.succ h9 hlast
    refine ⟨c + 1, hdigit, hval, ?_⟩
    rw [if_neg h9, if_neg (fun h => hlast ((carry_cond hstyle).mp h)), set_at]

/-- Else it becomes 0, and the digit before it is looked at. -/
theorem nextBody_last (hstyle : style ≠ .renamePostfix) (e : Byte) (he : Digit style e) (hA : pos ≤ A.length) :
    nextBody style (fuel + 1) (A.length + 1) (A ++ e :: lastDigit style :: R) pos =
      nextBody style fuel A.length (A ++ e :: 48 :: R) pos := by
  have hget : (A ++ e :: lastDigit style :: R).getD (A.length + 1) 0 = lastDigit style := by
    have h := getD_at (A ++ [e]) R (lastDigit style)
    rwa [List.length_append, List.append_assoc] at h
  have hset : (A ++ e :: lastDigit style :: R).set (A.length + 1) 48 = A ++ e :: 48 :: R := by
    have h := set_at (A ++ [e]) R (lastDigit style) 48
    rwa [List.length_append, List.append_assoc, List.append_assoc] at h
  have h9 : lastDigit style ≠ 57 := by cases style <;> decide
  obtain ⟨hdot, hslash, hnull⟩ := he.ne
  rw [nextBody]
  dsimp only
  rw [hget, if_neg h9, if_pos ((carry_cond hstyle).mpr rfl), hset, if_neg (Nat.succ_ne_zero _),
    Nat.add_sub_cancel,
    getD_at, if_neg (by simp [hdot, hslash, hnull]), if_pos (by omega)]

/-- The first digit runs over. -/
theorem nextBody_over (hstyle : style ≠ .renamePostfix) (R : Str) :
    nextBody style (fuel + 1) A.length (A ++ lastDigit style :: R) A.length = carryOut A 1 R := by
  have h9 : lastDigit style ≠ 57 := by cases style <;> decide
  rw [nextBody]
  dsimp only
  rw [getD_at, if_neg h9, if_pos ((carry_cond hstyle).mpr rfl), set_at]
  rcases List.eq_nil_or_concat A with rfl | ⟨A, a, rfl⟩
  · rfl
  · rw [carryOut, List.concat_eq_append, List.getLast?_concat]
    have hlen : (A ++ [a]).length - 1 = A.length := by simp
    have hget : (A ++ [a] ++ 48 :: R).getD A.length 0 = a := by
      rw [List.append_assoc]
      exact getD_at A (48 :: R) a
    have hset : (A ++ [a] ++ 48 :: R).set A.length 48 = A ++ [48, 48] ++ R := by
      rw [List.append_assoc, List.append_assoc]
      exact set_at A (48 :: R) a 48
    have hstay : ¬ (A.length + 1 ≠ (A ++ [a]).length) := by simp
    rw [if_neg (by simp), hlen, hget, hset, if_neg hstay, List.dropLast_concat]
    rfl

theorem carryOut_zero (A : Str) (n : ℕ) (R : Str) : carryOut A n (48 :: R) = carryOut A (n + 1) R := by
  have hzeros : ∀ B : Str, B ++ List.replicate (n + 1) 48 ++ 48 :: R = B ++ List.replicate (n + 1 + 1) 48 ++ R := by
    intro B
    rw [List.replicate_succ' (n := n + 1)]
    simp
  unfold carryOut
  simp only [hzeros]

/-- The counter goes on by one, or it has run over. -/
theorem nextBody_counts (hstyle : style ≠ .renamePostfix) (hD : ∀ d ∈ D, Digit style d) (hc : Digit style c)
    (hfuel : D.length < fuel) :
    (∃ D', D'.length = D.length + 1 ∧ (∀ d ∈ D', Digit style d) ∧ count style D' = count style (D ++ [c]) + 1 ∧
      nextBody style fuel (A ++ D).length (A ++ D ++ c :: R) A.length = some (A ++ D' ++ R, A.length)) ∨
    count style (D ++ [c]) + 1 = radix style ^ (D.length + 1) ∧
      nextBody style fuel (A ++ D).length (A ++ D ++ c :: R) A.length = carryOut A (D.length + 1) R := by
  have hlastval : digitVal (lastDigit style) + 1 = radix style := by cases style <;> rfl
  induction D using List.reverseRecOn generalizing c R fuel with
  | nil =>
    obtain ⟨fuel, rfl⟩ : ∃ n, fuel = n + 1 := ⟨fuel - 1, by omega⟩
    rw [List.append_nil]
    by_cases hlast : c = lastDigit style
    · rw [hlast]
      exact .inr ⟨by simpa [count] using hlastval, nextBody_over hstyle R⟩
    · obtain ⟨c', hc', hval, heq⟩ := @nextBody_digit style c A R A.length fuel hstyle hc hlast
      exact .inl ⟨[c'], rfl, by simpa using hc', by simpa [count] using hval, by simpa using heq⟩
  | append_singleton D e ih =>
    obtain ⟨fuel, rfl⟩ : ∃ n, fuel = n + 1 := ⟨fuel - 1, by omega⟩
    have he : Digit style e := hD e (by simp)
    by_cases hlast : c = lastDigit style
    · -- the carry goes to the digits before, which are followed by a 0 now
      have hcarry : nextBody style (fuel + 1) (A ++ (D ++ [e])).length (A ++ (D ++ [e]) ++ c :: R) A.length =
          nextBody style fuel (A ++ D).length (A ++ D ++ e :: 48 :: R) A.length := by
        have h := @nextBody_last style (A ++ D) R A.length fuel hstyle e he (by simp)
        rw [hlast]
        simpa [Nat.add_assoc] using h
      have hcount : count style (D ++ [e] ++ [c]) + 1 = radix style * (count style (D ++ [e]) + 1) := by
        rw [count_snoc, hlast, ← hlastval]
        ring
      rw [hcarry, hcount]
      rcases @ih e (48 :: R) fuel (fun d hd => hD d (by simp [hd])) he (by simp at hfuel; omega) with
        ⟨D', hlen, hdigits, hval, heq⟩ | ⟨hval, heq⟩
      · refine .inl ⟨D' ++ [48], by simp [hlen], fun d hd => ?_, ?_, by simpa using heq⟩
        · rcases List.mem_append.mp hd with hd | hd
          · exact hdigits d hd
          · rw [List.mem_singleton.mp hd]
            exact .inl (by decide)
        · rw [count_snoc, hval]
          exact Nat.zero_add _
      · refine .inr ⟨?_, ?_⟩
        · rw [hval, List.length_append, List.length_singleton, pow_succ' _ (D.length + 1)]
        · rw [heq, carryOut_zero, List.length_append, List.length_singleton]
    · obtain ⟨c', hc', hval, heq⟩ := @nextBody_digit style c (A ++ (D ++ [e])) R A.length fuel hstyle hc hlast
      refine .inl ⟨D ++ [e] ++ [c'], by simp, fun d hd => ?_, ?_, by simpa using heq⟩
      · rcases List.mem_append.mp hd with hd | hd
        · exact hD d hd
        · rw [List.mem_singleton.mp hd]
          exact hc'
      · rw [count_snoc style (D ++ [e]) c', count_snoc style (D ++ [e]) c, hval]
        omega

/-! ### The names of the counter -/

/-- The counter stands before the byte `K` of the first name `x`, with `n` digits. -/
structure Counter (style : RenameStyle) (x : Str) (K : ℕ) (fname : Str) (pos : ℕ) (D : Str) : Prop where
  name : fname = x.take pos ++ D ++ x.drop K
  place : pos + D.length = K
  digits : ∀ d ∈ D, Digit style d
  nonempty : D ≠ []
  inside : K ≤ x.length

/-- The name that the counter starts from: it ends there, or a dot follows. -/
def AtEnd (style : RenameStyle) (x : Str) (K : ℕ) : Prop :=
  style = .renameExtension ∧ K = x.length ∨ style = .renameBody ∧ ∃ R, x.drop K = 46 :: R

theorem AtEnd.style_ne (h : AtEnd style x K) : style ≠ .renamePostfix := by
  rcases h with ⟨rfl, -⟩ | ⟨rfl, -⟩ <;> decide

theorem AtEnd.le (h : AtEnd style x K) : K ≤ x.length := by
  rcases h with ⟨-, rfl⟩ | ⟨-, R, hR⟩
  · exact le_rfl
  · by_contra hgt
    rw [List.drop_eq_nil_of_le (by omega)] at hR
    contradiction

/-- The first call puts a 0 in place of the byte before. -/
theorem nextInbFilename_first (hend : AtEnd style x K) (hK : 0 < K) :
    ∃ fname, nextInbFilename style x K = some (fname, K - 1) ∧ Counter style x K fname (K - 1) [48] := by
  have hle := hend.le
  have hset : x.set (K - 1) 48 = x.take (K - 1) ++ [48] ++ x.drop K := by
    rw [List.set_eq_take_append_cons_drop, if_pos (by omega), Nat.sub_add_cancel hK, List.append_assoc]
    rfl
  have hcond : (style = .renameExtension ∧ K = x.length) ∨ (style = .renameBody ∧ x.getD K 0 = 46) := by
    rcases hend with h | ⟨hbody, R, hR⟩
    · exact .inl h
    · refine .inr ⟨hbody, ?_⟩
      have hhead : x[K]? = some 46 := by
        have h := congrArg List.head? hR
        rwa [List.head?_drop] at h
      rw [List.getD_eq_getElem?_getD, hhead]
      rfl
  refine ⟨x.set (K - 1) 48, ?_, hset, by simp; omega, by simp [Digit], by simp, hle⟩
  rw [nextInbFilename, if_neg hend.style_ne, if_pos hcond]

/-- What the place is moved over is not a separator. -/
def Passable (c : Byte) : Prop := c ≠ 47 ∧ c ≠ 46 ∧ c ≠ 0

/-- What the next call makes of a name of the counter. -/
inductive CounterStep (style : RenameStyle) (x : Str) (K : ℕ) (pos : ℕ) (D : Str) :
    Option (Str × ℕ) → Prop
  | one (fname D' : Str) (h : Counter style x K fname pos D') (hcount : count style D' = count style D + 1) :
      CounterStep style x K pos D (some (fname, pos))
  | carry (fname : Str) (hpos : 0 < pos) (hpass : Passable (x.getD (pos - 1) 0))
      (h : Counter style x K fname (pos - 1) (List.replicate (D.length + 1) 48))
      (hcount : count style D + 1 = radix style ^ D.length) :
      CounterStep style x K pos D (some (fname, pos - 1))
  | ends : CounterStep style x K pos D none

theorem Counter.takeWhile (h : Counter style x K fname pos D) (hend : AtEnd style x K) :
    pos + ((fname.drop (pos + 1)).takeWhile isalnum).length = pos + D.length - 1 := by
  obtain ⟨e, D1, rfl⟩ := List.exists_cons_of_ne_nil h.nonempty
  have hplace := h.place
  have hinside := h.inside
  rw [List.length_cons] at hplace
  have htake : (x.take pos).length = pos := List.length_take_of_le (by omega)
  have hdrop : fname.drop (pos + 1) = D1 ++ x.drop K := by
    rw [h.name, List.append_assoc, List.drop_append, htake, List.drop_eq_nil_of_le (by omega),
      Nat.add_sub_cancel_left]
    rfl
  have hstop : (x.drop K).takeWhile isalnum = [] := by
    rcases hend with ⟨-, rfl⟩ | ⟨-, R, hR⟩
    · simp
    · rw [hR]
      rfl
  rw [hdrop, List.takeWhile_append_of_pos fun d hd => (h.digits d (List.mem_cons_of_mem e hd)).isalnum, hstop,
    List.append_nil, List.length_cons]
  omega

theorem Counter.next (h : Counter style x K fname pos D) (hend : AtEnd style x K) :
    CounterStep style x K pos D (nextInbFilename style fname pos) := by
  have hplace := h.place
  have hinside := h.inside
  have hlen : 0 < D.length := List.length_pos_iff.mpr h.nonempty
  have htake : (x.take pos).length = pos := List.length_take_of_le (by omega)
  have hfname : fname.length = x.length := by
    rw [h.name, List.length_append, List.length_append, htake, List.length_drop]
    omega
  have hcond : ¬ ((style = .renameExtension ∧ pos = fname.length) ∨
      (style = .renameBody ∧ fname.getD pos 0 = 46)) := by
    rintro (⟨-, heq⟩ | ⟨-, hdot⟩)
    · omega
    · obtain ⟨e, D1, rfl⟩ := List.exists_cons_of_ne_nil h.nonempty
      have hget := getD_at (x.take pos) (D1 ++ x.drop K) e
      rw [htake] at hget
      rw [h.name, List.append_assoc] at hdot
      exact (h.digits e List.mem_cons_self).ne.1 (hget.symm.trans hdot)
  obtain ⟨D0, c, rfl⟩ : ∃ D0 c, D = D0 ++ [c] := ⟨_, _, (List.dropLast_append_getLast h.nonempty).symm⟩
  have hp : pos + (D0 ++ [c]).length - 1 = (x.take pos ++ D0).length := by
    simp [htake]
  have hname : fname = x.take pos ++ D0 ++ c :: x.drop K := by
    rw [h.name]
    simp
  rw [nextInbFilename, if_neg hend.style_ne, if_neg hcond]
  dsimp only
  rw [h.takeWhile hend, hp, hfname, hname]
  have hbody := @nextBody_counts style c (x.take pos) D0 (x.drop K) (x.length + 1) hend.style_ne
    (fun d hd => h.digits d (by simp [hd])) (h.digits c (by simp)) (by simp at hplace; omega)
  rw [htake] at hbody
  rcases hbody with ⟨D', hlen', hdigits, hcount, heq⟩ | ⟨hcount, heq⟩
  · rw [heq]
    refine .one _ D' ⟨rfl, ?_, hdigits, ?_, hinside⟩ hcount
    · rw [hlen']
      simpa using hplace
    · rw [← List.length_pos_iff, hlen']
      omega
  · rw [heq]
    rcases Nat.eq_zero_or_pos pos with rfl | hpos
    · exact .ends
    · have hsnoc : x.take pos = x.take (pos - 1) ++ [x.getD (pos - 1) 0] := by
        have hlt : pos - 1 < x.length := by omega
        have h := List.take_concat_get' x (pos - 1) hlt
        rw [Nat.sub_add_cancel hpos] at h
        rw [List.getD_eq_getElem?_getD, List.getElem?_eq_getElem hlt, Option.getD_some, h]
      have hlen' : (x.take (pos - 1)).length = pos - 1 := List.length_take_of_le (by omega)
      rw [carryOut, hsnoc, List.getLast?_concat]
      dsimp only
      split_ifs with hstop
      · exact .ends
      · rw [List.dropLast_concat, List.length_append, hlen', List.length_singleton, Nat.add_sub_cancel]
        refine .carry _ hpos ?_ ⟨?_, ?_, ?_, by simp, hinside⟩ (by simpa using hcount)
        · exact ⟨fun h => hstop (.inl h), fun h => hstop (.inr (.inl h)), fun h => hstop (.inr (.inr h))⟩
        · simp
        · rw [List.length_replicate]
          omega
        · intro d hd
          rw [List.eq_of_mem_replicate hd]
          exact .inl (by decide)

/-! ### The names with a postfix -/

/-- The `k`-th name with a postfix. -/
def postName (x : Str) (k : ℕ) : Str := if k = 0 then x else x ++ str "." ++ decimal k

theorem atoi_decimal {k : ℕ} (hk : k < 2 ^ 31) : atoi (decimal k) = k := by
  obtain ⟨c, r, hc, hd⟩ := decimal_cons k
  obtain ⟨hs, -, h45, h43⟩ := digit_not_space hd
  have hv := digitsValue_decimal k
  have h32 : toInt32 (k : ℤ) = k := by
    simp only [toInt32, Int.bmod]
    omega
  unfold atoi
  rw [hc] at hv ⊢
  rw [List.dropWhile_cons_of_neg (by simp [hs])]
  split
  · next heq => exact absurd (List.cons.inj heq).1 h45
  · next heq => exact absurd (List.cons.inj heq).1 h43
  · rw [hv, h32]

theorem nextInbFilename_suffixed (x : Str) {k : ℕ} (hmax : k ≤ 10001) :
    nextInbFilename .renamePostfix (postName x k) x.length =
      if k ≤ 10000 then some (postName x (k + 1), x.length) else none := by
  rw [nextInbFilename, if_pos rfl]
  by_cases hk : k = 0
  · subst hk
    have hone : str ".1" = str "." ++ decimal 1 := by decide
    rw [if_pos (by simp [postName]), if_pos (by omega), hone]
    simp [postName]
  · have hlen : x.length ≠ (postName x k).length := by
      have hdot : (str ".").length = 1 := by decide
      rw [postName, if_neg hk, List.length_append, List.length_append, hdot]
      omega
    have hdrop : (postName x k).drop (x.length + 1) = decimal k := by
      have h := @List.drop_left _ (x ++ str ".") (decimal k)
      rw [List.length_append] at h
      rw [postName, if_neg hk]
      exact h
    have htake : (postName x k).take (x.length + 1) = x ++ str "." := by
      have h := @List.take_left _ (x ++ str ".") (decimal k)
      rw [List.length_append] at h
      rw [postName, if_neg hk]
      exact h
    rw [if_neg hlen]
    dsimp only
    rw [hdrop, htake]
    rw [atoi_decimal (by omega)]
    by_cases hlast : k ≤ 10000
    · have hnext : decimalInt ((k : ℤ) + 1) = decimal (k + 1) := by
        rw [decimalInt, if_neg (by omega)]
        rfl
      rw [if_neg (by unfold maxInbRename; omega), if_pos hlast, hnext, postName,
        if_neg (Nat.succ_ne_zero k)]
    · rw [if_pos (by unfold maxInbRename; omega), if_neg hlast]

/-! ### The sequence of the calls -/

/-- The style, the name and the place in it. -/
abbrev Place := RenameStyle × Str × ℕ

/-- The name that the next call makes. -/
def made (t : Place) : Option Place := (nextInbFilename t.1 t.2.1 t.2.2).map fun r => (t.1, r.1, r.2)

/-- The next name that is tried; where the names of one style are at an end, those with a postfix of
the first name may follow. -/
def inbNext (fallback : Option Str) (t : Place) : Option Place :=
  match made t with
  | some t' => some t'
  | none => if t.1 = .renameExtension then fallback.map fun first => (.renamePostfix, first, first.length) else none

/-- The loop of `inb_test` goes through these names. -/
theorem inbTestLoop_next (env : Env) (disk : Disk) (size t : Int) (style : RenameStyle) (fuel : ℕ) (fp : Str) (pos : ℕ) :
    inbTestLoop env disk size t style (fuel + 1) fp pos =
      match disk.stat env fp with
      | none => false
      | some sb =>
        if (sb.bytes.length : Int) = size ∧ evenTime sb.mtime = evenTime t then true
        else match inbNext none (style, fp, pos) with
          | none => false
          | some p => inbTestLoop env disk size t p.1 fuel p.2.1 p.2.2 := by
  rw [inbTestLoop]
  cases disk.stat env fp with
  | none => rfl
  | some sb =>
    dsimp only
    congr 1
    unfold inbNext made
    cases nextInbFilename style fp pos with
    | none =>
      dsimp only [Option.map]
      split_ifs <;> rfl
    | some r => rfl

/-- The loop of `inb_done` does so, and has the first name to fall back to. -/
theorem renameLoop_next (env : Env) (tmpName first : Str) (fuel : ℕ) (style : RenameStyle) (real : Str) (pos : ℕ)
    (disk : Disk) : renameLoop env tmpName first (fuel + 1) style real pos disk =
      match disk.rename env tmpName real with
      | (disk, none) => (disk, some real)
      | (disk, some e) =>
        if e ≠ .exist ∧ e ≠ .acces ∧ e ≠ .again then (disk, none)
        else match inbNext (some first) (style, real, pos) with
          | none => (disk, none)
          | some p => renameLoop env tmpName first fuel p.1 p.2.1 p.2.2 disk := by
  rw [renameLoop]
  cases disk.rename env tmpName real with
  | mk disk e =>
    cases e with
    | none => rfl
    | some e =>
      dsimp only
      congr 1
      unfold inbNext made
      cases nextInbFilename style real pos with
      | none =>
        dsimp only [Option.map]
        split_ifs <;> rfl
      | some r => rfl

/-- More than the counter can count. -/
def counterMax (style : RenameStyle) (K : ℕ) : ℕ := ∑ i ∈ Finset.range K, radix style ^ (i + 1)

theorem counterMax_pred (style : RenameStyle) (hK : 0 < K) :
    counterMax style K = counterMax style (K - 1) + radix style ^ K := by
  have hsucc := Finset.sum_range_succ (fun i => radix style ^ (i + 1)) (K - 1)
  rwa [Nat.sub_add_cancel hK] at hsucc

/-- How far the counter has come: the numbers with fewer digits come first. -/
def rank (style : RenameStyle) (D : Str) : ℕ := counterMax style (D.length - 1) + count style D

/-- A name that is made from the first name `x`, with the place before the byte `K` of it, and its
rank. -/
inductive Made (style : RenameStyle) (x : Str) (K : ℕ) : Place → ℕ → Prop
  | counter (hend : AtEnd style x K) (fname : Str) (pos : ℕ) (D : Str) (h : Counter style x K fname pos D)
      (hpass : ∀ i, pos ≤ i → i + 1 < K → Passable (x.getD i 0)) :
      Made style x K (style, fname, pos) (counterMax style K + 10002 - rank style D)
  | suffixed (k : ℕ) (h0 : 0 < k) (hk : k ≤ 10001) :
  Made style x K (.renamePostfix, postName x k, x.length) (10001 - k)

/-- A state of the sequence: the first name, before the counter or before the postfixes, or one that
was made. -/
inductive NameState (style : RenameStyle) (x : Str) (K : ℕ) : Place → ℕ → Prop
  | first (hend : AtEnd style x K) (hK : 0 < K) :
  NameState style x K (style, x, K) (counterMax style K + 10003)
  | again : NameState style x K (.renamePostfix, x, x.length) 10001
  | made {t : Place} {r : ℕ} (h : Made style x K t r) : NameState style x K t r

theorem counterMax_le {n m : ℕ} (style : RenameStyle) (hle : n ≤ m) :
    counterMax style n ≤ counterMax style m :=
  Finset.sum_le_sum_of_subset (Finset.range_subset_range.mpr hle)

theorem rank_lt_counterMax (hD : ∀ d ∈ D, Digit style d) (hne : D ≠ []) :
    rank style D < counterMax style D.length := by
  have hcount := count_lt hD
  have hpred := counterMax_pred style (List.length_pos_iff.mpr hne)
  unfold rank
  omega

theorem Counter.rank_lt (h : Counter style x K fname pos D) : rank style D < counterMax style K := by
  have hplace := h.place
  exact (rank_lt_counterMax h.digits h.nonempty).trans_le (counterMax_le style (by omega))

theorem rank_replicate (style : RenameStyle) (n : ℕ) :
    rank style (List.replicate (n + 1) 48) = counterMax style n := by
  rw [rank, count_zeros, List.length_replicate, Nat.add_sub_cancel, Nat.add_zero]

theorem made_suffixed {k : ℕ} {t : Place} (hk : k ≤ 10001) (hmade : made (.renamePostfix, postName x k, x.length) = some t) :
    ∃ r', r' + 1 = 10001 - k ∧ Made style x K t r' := by
  unfold made at hmade
  dsimp only at hmade
  rw [nextInbFilename_suffixed x hk] at hmade
  by_cases hle : k ≤ 10000
  · rw [if_pos hle] at hmade
    obtain rfl := Option.some.inj hmade
    exact ⟨_, by omega, .suffixed (k + 1) (by omega) (by omega)⟩
  · rw [if_neg hle] at hmade
    contradiction

/-- Every call counts on by one. -/
theorem NameState.next {t t' : Place} {r : ℕ} (h : NameState style x K t r) (hmade : Binkd.made t = some t') :
    ∃ r', r' + 1 = r ∧ Made style x K t' r' := by
  cases h with
  | first hend hK =>
    obtain ⟨fname, heq, hcounter⟩ := nextInbFilename_first hend hK
    rw [Binkd.made, heq] at hmade
    obtain rfl := Option.some.inj hmade
    refine ⟨_, ?_, .counter hend fname (K - 1) [48] hcounter fun i h1 h2 => by omega⟩
    have hzero : rank style [48] = 0 := rank_replicate style 0
    omega
  | again => exact made_suffixed (Nat.zero_le _) hmade
  | made h =>
    cases h with
    | suffixed k h0 hk => exact made_suffixed hk hmade
    | counter hend fname pos D h hpass =>
      have hrank := h.rank_lt
      have hstep := h.next hend
      unfold Binkd.made at hmade
      dsimp only at hmade
      generalize nextInbFilename style fname pos = r at hstep hmade
      cases hstep with
      | one fname' D' h' hcount =>
        obtain rfl := Option.some.inj hmade
        have hrank' : rank style D' = rank style D + 1 := by
          have hlen : D'.length = D.length := by
            have h1 := h.place
            have h2 := h'.place
            omega
          rw [rank, rank, hlen, hcount]
          omega
        refine ⟨_, ?_, .counter hend fname' pos D' h' hpass⟩
        omega
      | carry fname' hpos hp h' hcount =>
        obtain rfl := Option.some.inj hmade
        have hlen : 0 < D.length := List.length_pos_iff.mpr h.nonempty
        have hrank' : counterMax style D.length = rank style D + 1 := by
          rw [rank, Nat.add_assoc, hcount]
          exact counterMax_pred style hlen
        refine ⟨_, ?_, .counter hend fname' (pos - 1) _ h' fun i h1 h2 => ?_⟩
        · rw [rank_replicate]
          omega
        · by_cases hi : i = pos - 1
          · rw [hi]
            exact hp
          · exact hpass i (by omega) h2
      | ends => contradiction

theorem nameState_lowers {fallback : Option Str} (hfall : style = .renameExtension → ∀ first ∈ fallback, first = x) :
    Lowers (inbNext fallback) (NameState style x K) := by
  intro t r ht t' hnext
  unfold inbNext at hnext
  split at hnext
  · next t1 hmade =>
    obtain rfl := Option.some.inj hnext
    obtain ⟨r', hr', hmade'⟩ := ht.next hmade
    exact ⟨r', by omega, .made hmade'⟩
  · split_ifs at hnext with hext
    · obtain ⟨first, hfirst, rfl⟩ := Option.map_eq_some_iff.mp hnext
      have hback : style = .renameExtension → first = x := fun h => hfall h first hfirst
      cases ht with
      | first =>
        obtain rfl := hback hext
        exact ⟨10001, by omega, .again⟩
      | again => contradiction
      | made h =>
        cases h with
        | suffixed => contradiction
        | counter hend fname pos D h =>
          have hrank := h.rank_lt
          obtain rfl := hback hext
          exact ⟨10001, by omega, .again⟩
    · contradiction

/-! ### Inside the directory -/

/-- The place at which a caller starts: a name in the inbound, and the place at the end of it, or at
the dot of its extension, with a byte of the name before. -/
structure WellPlaced (inbound : Str) (t : Place) : Prop where
  name : ∃ base, t.2.1 = withSeparator inbound ++ base ∧ 47 ∉ base ∧
    match t.1 with
    | .renamePostfix => t.2.2 = t.2.1.length
    | .renameExtension => t.2.2 = t.2.1.length ∧ base ≠ []
    | .renameBody => ∃ stem ext, base = stem ++ 46 :: ext ∧ stem ≠ [] ∧
        t.2.2 = (withSeparator inbound ++ stem).length

/-- The sequence of the names that are made. -/
structure InbNames (inbound : Str) (fallback : Option Str) (t : Place) : Prop where
  /-- they lie directly in the inbound -/
  inside : ∀ n a b, callSeq (inbNext fallback) t n = some a → made a = some b →
    DirectlyIn 47 46 inbound b.2.1
  /-- a name is made again only when the place has moved on, over digits of the counter -/
  again : ∀ n m a a' b b', n < m → callSeq (inbNext fallback) t n = some a → made a = some b →
    callSeq (inbNext fallback) t m = some a' → made a' = some b' → b'.2.1 = b.2.1 →
    b'.2.2 < b.2.2 ∧ ∀ i, b'.2.2 ≤ i → i < b.2.2 → Digit b.1 (b.2.1.getD i 0)
  /-- the sequence ends -/
  ends : ∃ n, callSeq (inbNext fallback) t n = none

theorem withSeparator_eq (h : inbound ≠ []) : ∃ u, withSeparator inbound = u ++ [47] ∧
    components 47 46 u = components 47 46 inbound := by
  unfold withSeparator
  split_ifs with hsep
  · exact ⟨inbound, rfl, rfl⟩
  · have hlast : inbound.getLast? = some 47 := by
      by_contra hne
      exact hsep ⟨h, hne⟩
    refine ⟨inbound.dropLast, (List.dropLast_append_getLast? 47 hlast).symm, ?_⟩
    conv_rhs => rw [← List.dropLast_append_getLast? 47 hlast]
    exact (components_snoc 47 46 _).symm

/-- A name with a digit in it lies directly in the inbound. -/
theorem directlyIn_name (h : inbound ≠ []) (hbase : 47 ∉ base) (hc : c ∈ base) (hdot : c ≠ 46) :
    DirectlyIn 47 46 inbound (withSeparator inbound ++ base) := by
  obtain ⟨u, hu, hcomp⟩ := withSeparator_eq h
  have hne : base ≠ [46, 46] := by
    rintro rfl
    simp [hdot] at hc
  have hname : base ≠ [] ∧ base ≠ [46] := by
    constructor
    · rintro rfl
      simp at hc
    · rintro rfl
      simp [hdot] at hc
  refine ⟨base, hne, ?_⟩
  rw [hu, List.append_assoc, List.singleton_append, components_append, components_name 47 46 hbase,
    if_pos hname, hcomp]

/-- The place of the counter stays behind the directory. -/
theorem Counter.directlyIn (h : Counter style x K fname pos D) (hx : x = withSeparator inbound ++ base) (hin : inbound ≠ [])
    (hbase : 47 ∉ base) (hK : (withSeparator inbound).length < K)
    (hpass : ∀ i, pos ≤ i → i + 1 < K → Passable (x.getD i 0)) : DirectlyIn 47 46 inbound fname := by
  obtain ⟨u, hu, -⟩ := withSeparator_eq hin
  have hlen : (withSeparator inbound).length = u.length + 1 := by simp [hu]
  have hpos : (withSeparator inbound).length ≤ pos := by
    by_contra hlt
    refine (hpass u.length (by omega) (by omega)).1 ?_
    have hget := getD_at u base 47
    rw [hx, hu, List.append_assoc]
    exact hget
  obtain ⟨e, D1, hD⟩ := List.exists_cons_of_ne_nil h.nonempty
  have hname : fname = withSeparator inbound ++
      (base.take (pos - (withSeparator inbound).length) ++ D ++ base.drop (K - (withSeparator inbound).length)) := by
    rw [h.name, hx, List.take_append, List.take_of_length_le hpos, List.drop_append,
      List.drop_eq_nil_of_le (Nat.le_of_lt hK)]
    simp
  rw [hname]
  refine directlyIn_name (c := e) hin ?_ (by simp [hD]) (h.digits e (by simp [hD])).ne.1
  simp only [List.mem_append, not_or]
  refine ⟨⟨fun hmem => hbase (List.mem_of_mem_take hmem), fun hmem => ?_⟩,
    fun hmem => hbase (List.mem_of_mem_drop hmem)⟩
  exact (h.digits 47 hmem).ne.2.1 rfl

theorem directlyIn_suffixed {k : ℕ} (hx : x = withSeparator inbound ++ base) (hin : inbound ≠ []) (hbase : 47 ∉ base)
    (hk : 0 < k) : DirectlyIn 47 46 inbound (postName x k) := by
  obtain ⟨c, r, hc, hdigit⟩ := decimal_cons k
  have hslash : ∀ d : Byte, isdigit d = true → d ≠ 47 ∧ d ≠ 46 :=
    forall_byte (p := fun d => isdigit d = true → d ≠ 47 ∧ d ≠ 46) (by decide +kernel)
  have hdot : str "." = [46] := by decide
  rw [postName, if_neg (by omega), hx, List.append_assoc, List.append_assoc]
  refine directlyIn_name (c := c) hin ?_ (by simp [hc]) (hslash c hdigit).2
  simp only [List.mem_append, not_or]
  refine ⟨hbase, ?_, fun hmem => (hslash 47 (decimal_isdigit k 47 hmem)).1 rfl⟩
  rw [hdot]
  decide

/-! ### Names that are made again -/

theorem Counter.length (h : Counter style x K fname pos D) : fname.length = x.length := by
  have hplace := h.place
  have hinside := h.inside
  rw [h.name, List.length_append, List.length_append, List.length_take_of_le (by omega),
    List.length_drop]
  omega

theorem postName_length {k : ℕ} (hk : 0 < k) : x.length < (postName x k).length := by
  have hdot : (str ".").length = 1 := by decide
  rw [postName, if_neg (by omega), List.length_append, List.length_append, hdot]
  omega

theorem postName_inj {k k' : ℕ} (hk : 0 < k) (hk' : 0 < k') (h : postName x k = postName x k') :
    k = k' := by
  rw [postName, if_neg (by omega), postName, if_neg (by omega)] at h
  have hdec := List.append_cancel_left h
  rw [← digitsValue_decimal k, hdec, digitsValue_decimal]

/-- A counter with more digits has come further. -/
theorem Counter.rank_length {fname' : Str} {pos' : ℕ} {D' : Str} (h : Counter style x K fname pos D)
    (h' : Counter style x K fname' pos' D') (hlt : pos < pos') : rank style D' < rank style D := by
  have hplace := h.place
  have hplace' := h'.place
  calc rank style D' < counterMax style D'.length := rank_lt_counterMax h'.digits h'.nonempty
    _ ≤ counterMax style (D.length - 1) := counterMax_le style (by omega)
    _ ≤ rank style D := Nat.le_add_right _ _

/-- A name of the counter that comes again is made with more digits, where the first name has
digits, too. -/
theorem Counter.again {pos' : ℕ} {D' : Str} (h : Counter style x K fname pos D)
    (h' : Counter style x K fname pos' D') (hrank : rank style D < rank style D') :
    pos' < pos ∧ ∀ i, pos' ≤ i → i < pos → Digit style (fname.getD i 0) := by
  have hplace := h.place
  have hplace' := h'.place
  have hinside := h.inside
  have hlt : pos' < pos := by
    rcases Nat.lt_trichotomy pos' pos with hlt | heq | hgt
    · exact hlt
    · subst heq
      have hname := h.name.symm.trans h'.name
      rw [List.append_assoc, List.append_assoc] at hname
      have hD := List.append_cancel_right (List.append_cancel_left hname)
      rw [hD] at hrank
      exact absurd hrank (lt_irrefl _)
    · exact absurd (h.rank_length h' hgt) (by omega)
  refine ⟨hlt, fun i h1 h2 => ?_⟩
  have htake : (x.take pos').length = pos' := List.length_take_of_le (by omega)
  have hi : i - pos' < D'.length := by omega
  have hget : fname[i]? = some (D'[i - pos']) := by
    rw [h'.name, List.append_assoc, List.getElem?_append_right (by omega), htake,
      List.getElem?_append_left hi,
      List.getElem?_eq_getElem hi]
  rw [List.getD_eq_getElem?_getD, hget]
  exact h'.digits _ (List.getElem_mem hi)

/-! ### The whole sequence -/

theorem WellPlaced.nameState (h : WellPlaced inbound t) : ∃ K r, NameState t.1 t.2.1 K t r ∧
    (t.1 ≠ .renamePostfix → (withSeparator inbound).length < K) := by
  obtain ⟨base, hname, -, hplace⟩ := h.name
  obtain ⟨style, x, pos⟩ := t
  dsimp only at hname hplace ⊢
  cases style with
  | renamePostfix =>
    obtain rfl : pos = x.length := hplace
    exact ⟨x.length, _, .again, fun h => absurd rfl h⟩
  | renameExtension =>
    obtain ⟨rfl, hbase⟩ := hplace
    have hlen : (withSeparator inbound).length < x.length := by
      rw [hname, List.length_append]
      have := List.length_pos_iff.mpr hbase
      omega
    exact ⟨x.length, _, .first (.inl ⟨rfl, rfl⟩) (by omega), fun _ => hlen⟩
  | renameBody =>
    obtain ⟨stem, ext, rfl, hstem, rfl⟩ := hplace
    have hlen : (withSeparator inbound).length < (withSeparator inbound ++ stem).length := by
      rw [List.length_append]
      have := List.length_pos_iff.mpr hstem
      omega
    refine ⟨_, _, .first (.inr ⟨rfl, ext, ?_⟩) (by omega), fun _ => hlen⟩
    rw [hname, ← List.append_assoc]
    exact List.drop_left

/-- The names from a good start: they stay in the inbound, and come to an end. -/
theorem WellPlaced.names (h : WellPlaced inbound t) (hin : inbound ≠ [])
    (hfall : t.1 = .renameExtension → ∀ first ∈ fallback, first = t.2.1) :
    InbNames inbound fallback t := by
  obtain ⟨K, r, hstate, hK⟩ := h.nameState
  obtain ⟨base, hname, hbase, -⟩ := h.name
  have hlowers : Lowers (inbNext fallback) (NameState t.1 t.2.1 K) := nameState_lowers hfall
  refine ⟨fun n a b hn hmade => ?_, ?_, r + 1, hlowers.ends hstate⟩
  · obtain ⟨ra, ha, -⟩ := hlowers.seq hstate hn
    obtain ⟨rb, -, hb⟩ := ha.next hmade
    cases hb with
    | counter hend fname pos D hcounter hpass =>
      exact hcounter.directlyIn hname hin hbase (hK hend.style_ne) hpass
    | suffixed k h0 hk => exact directlyIn_suffixed hname hin hbase h0
  · intro n m a a' b b' hlt hn hmade hm hmade' heq
    obtain ⟨ra, ra', ha, ha', hra⟩ := hlowers.later hstate hlt hn hm
    obtain ⟨rb, hrb, hb⟩ := ha.next hmade
    obtain ⟨rb', hrb', hb'⟩ := ha'.next hmade'
    cases hb with
    | counter hend fname pos D hcounter hpass =>
      have hrank := hcounter.rank_lt
      cases hb' with
      | counter hend' fname' pos' D' hcounter' hpass' =>
        obtain rfl : fname' = fname := heq
        have hrank' := hcounter'.rank_lt
        exact hcounter.again hcounter' (by omega)
      | suffixed k h0 hk =>
        have hlen := congrArg List.length heq
        dsimp only at hlen
        rw [hcounter.length] at hlen
        exact absurd hlen (postName_length h0).ne'
    | suffixed k h0 hk =>
      cases hb' with
      | counter hend' fname' pos' D' hcounter' hpass' =>
        have hlen := congrArg List.length heq
        dsimp only at hlen
        rw [hcounter'.length] at hlen
        exact absurd hlen (postName_length h0).ne
      | suffixed k' h0' hk' =>
        obtain rfl := postName_inj h0' h0 heq
        omega

/-! ### The callers -/

/-- Where `inb_test` starts. -/
def testPlace (config : BinkdConfig) (inbound netname : Str) : Place :=
  let fp := (withSeparator inbound ++ strwipe (strdequote netname)).take (maxPathLen - 1)
  ((inbStyle config netname).1, fp, fp.length - (inbStyle config netname).2)

/-- Where `inb_done` starts. -/
def donePlace (config : BinkdConfig) (env : Env) (tmpName netname : Str) (s : State) : Place :=
  let first := realName config s.rx.inbound netname
  let real := if ispkt netname then checkPkthdr config env tmpName first s else first
  ((inbStyle config netname).1, real, real.length - (inbStyle config netname).2)

theorem inbTest_start (config : BinkdConfig) (env : Env) (disk : Disk) (file : TFile) (inbound : Str) :
    inbTest config env disk file inbound =
      inbTestLoop env disk file.size file.time (testPlace config inbound file.netname).1 inbNames
        (testPlace config inbound file.netname).2.1 (testPlace config inbound file.netname).2.2 := rfl

theorem inbRename_start {config : BinkdConfig} {file : TFile} (env : Env) (tmpName : Str) (s : State)
    (hover : (config.overwrite.any (fun m => pmatchNcase m file.netname) && !ispkt file.netname &&
      !isarcmail file.netname) = false) :
    inbRename config env file tmpName s =
      renameLoop env tmpName (realName config s.rx.inbound file.netname) inbNames
        (donePlace config env tmpName file.netname s).1 (donePlace config env tmpName file.netname s).2.1
        (donePlace config env tmpName file.netname s).2.2 (s.disk.touch env tmpName file.time) := by
  unfold inbRename
  dsimp only
  rw [if_neg (by simp [hover])]
  rfl

theorem strwipe_slash (s : Str) : 47 ∉ strwipe s := by
  intro hmem
  obtain ⟨c, -, hc⟩ := List.mem_map.mp hmem
  by_cases hbad : iscntrl c = true ∨ c = 92 ∨ c = 47 ∨ c = 58
  · rw [if_pos hbad] at hc
    exact absurd hc (by decide)
  · rw [if_neg hbad] at hc
    exact hbad (.inr (.inr (.inl hc)))

/-- A name that is not cut, with something before its extension, is a good start. -/
theorem testPlace_wellPlaced {config : BinkdConfig} {netname : Str}
    (hshort : (withSeparator inbound ++ strwipe (strdequote netname)).length < maxPathLen)
    (hname : strwipe (strdequote netname) ≠ [])
    (hbody : (inbStyle config netname).1 = .renameBody → (inbStyle config netname).2 = 4 ∧
      ∃ stem a b c, strwipe (strdequote netname) = stem ++ [46, a, b, c] ∧ stem ≠ []) :
    WellPlaced inbound (testPlace config inbound netname) := by
  obtain ⟨hstyle, hback⟩ | ⟨hstyle, hback⟩ : (inbStyle config netname).1 = .renameBody ∧ True ∨
      (inbStyle config netname).1 ≠ .renameBody ∧ (inbStyle config netname).2 = 0 := by
    by_cases hstyle : (inbStyle config netname).1 = .renameBody
    · exact .inl ⟨hstyle, trivial⟩
    · refine .inr ⟨hstyle, ?_⟩
      unfold inbStyle at hstyle ⊢
      split_ifs at hstyle ⊢ with hext
      · exact absurd rfl hstyle
      · rfl
  · obtain ⟨hfour, stem, a, b, c, hstem, hne⟩ := hbody hstyle
    refine ⟨_, List.take_of_length_le (by omega), strwipe_slash _, ?_⟩
    simp only [testPlace, hstyle, hfour]
    refine ⟨stem, [a, b, c], hstem, hne, ?_⟩
    rw [List.take_of_length_le (by omega), hstem]
    simp only [List.length_append, List.length_cons, List.length_nil]
    omega
  · refine ⟨_, List.take_of_length_le (by omega), strwipe_slash _, ?_⟩
    cases hs : (inbStyle config netname).1 with
    | renameBody => exact absurd hs hstyle
    | renamePostfix => simp [testPlace, hs, hback]
    | renameExtension => simp [testPlace, hs, hback, hname]

end Binkd
