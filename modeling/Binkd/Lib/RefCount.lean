import Mathlib.Data.List.Basic
import Mathlib.Logic.Function.Basic

/-!
# Counted objects

Objects that are freed when their counter comes down to zero.  Between the count and the
free the object is on its way (`freeing`); `Balanced` says that the counters are the numbers
of uses, and is kept by a use more, a use less, a free and a new object.
-/

namespace Binkd.Lib

variable {counts : List Int} {freeing freed : List ℕ} {uses : ℕ → ℕ} {c : ℕ}

/-- Each object's counter is the number of its uses.  An object that is free or about to be freed,
which happens once, is one that has no use. -/
structure Balanced (counts : List Int) (freeing freed : List ℕ) (uses : ℕ → ℕ) : Prop where
  count_eq : ∀ (c : ℕ) (n : Int), counts[c]? = some n → n = uses c
  gone : ∀ c, freed.count c + freeing.count c = if c < counts.length ∧ uses c = 0 then 1 else 0
  unborn : ∀ c, counts.length ≤ c → uses c = 0

/-- An object that has a use is there. -/
theorem Balanced.lt_length (h : Balanced counts freeing freed uses) (hc : 0 < uses c) :
    c < counts.length := by
  by_contra hlen
  rw [h.unborn c (by omega)] at hc
  exact Nat.lt_irrefl 0 hc

theorem Balanced.used (h : Balanced counts freeing freed uses) (hc : 0 < uses c) :
    c ∉ freed ∧ c ∉ freeing := by
  have hgone := h.gone c
  rw [if_neg (by omega)] at hgone
  exact ⟨List.count_eq_zero.mp (by omega), List.count_eq_zero.mp (by omega)⟩

/-- No object is freed twice. -/
theorem Balanced.freed_once (h : Balanced counts freeing freed uses) (c : ℕ) : freed.count c ≤ 1 := by
  have hgone := h.gone c
  split_ifs at hgone
  · omega
  · omega

/-- What is freed, or about to be, is exactly what has no use any more. -/
theorem Balanced.gone_iff (h : Balanced counts freeing freed uses) (hc : c < counts.length) :
    c ∈ freed ∨ c ∈ freeing ↔ uses c = 0 := by
  have hgone := h.gone c
  rw [← List.count_pos_iff, ← List.count_pos_iff]
  constructor
  · intro hpos
    by_contra hne
    rw [if_neg (fun hh => hne hh.2)] at hgone
    omega
  · intro hzero
    rw [if_pos ⟨hc, hzero⟩] at hgone
    omega

/-- The empty heap. -/
theorem Balanced.empty : Balanced [] [] [] fun _ => 0 where
  count_eq c n h := by cases h
  gone c := by simp
  unborn c _ := rfl

/-- One counter is changed as the uses of its object are. -/
theorem Balanced.count_modify (h : Balanced counts freeing freed uses) (f : Int → Int) {u : ℕ} (hf : f (uses c) = u) :
    ∀ (d : ℕ) (n : Int), (counts.modify c f)[d]? = some n → n = Function.update uses c u d := by
  intro d n hd
  rw [List.getElem?_modify] at hd
  obtain ⟨m, hm, rfl⟩ := Option.map_eq_some_iff.mp hd
  have hm' := h.count_eq d m hm
  by_cases hcd : c = d
  · subst hcd
    rw [if_pos rfl, Function.update_self, hm', hf]
  · rw [if_neg hcd, Function.update_of_ne (Ne.symm hcd)]
    exact hm'

/-- A use more of an object in use. -/
theorem Balanced.retain (h : Balanced counts freeing freed uses) (hc : 0 < uses c) :
    Balanced (counts.modify c (· + 1)) freeing freed (Function.update uses c (uses c + 1)) where
  count_eq := h.count_modify _ (by push_cast; rfl)
  gone d := by
    rw [h.gone d, List.length_modify]
    by_cases hcd : d = c
    · subst hcd
      rw [Function.update_self, if_neg (by omega), if_neg (by omega)]
    · rw [Function.update_of_ne hcd]
  unborn d hd := by
    rw [List.length_modify] at hd
    have hlt := h.lt_length hc
    rw [Function.update_of_ne (by omega)]
    exact h.unborn d hd

/-- A use less; where it was the last one, the object is about to be freed. -/
theorem Balanced.release (h : Balanced counts freeing freed uses) (hc : 0 < uses c) :
    Balanced (counts.modify c (· - 1)) (if uses c = 1 then c :: freeing else freeing) freed
      (Function.update uses c (uses c - 1)) where
  count_eq := h.count_modify _ (by omega)
  gone d := by
    have hgone := h.gone d
    have hlt := h.lt_length hc
    rw [List.length_modify]
    by_cases hcd : d = c
    · subst hcd
      rw [if_neg (by omega)] at hgone
      rw [Function.update_self]
      by_cases hone : uses d = 1
      · rw [if_pos hone, if_pos ⟨hlt, by omega⟩, List.count_cons_self]
        omega
      · rw [if_neg hone, if_neg (by omega)]
        exact hgone
    · rw [Function.update_of_ne hcd, ← hgone]
      split_ifs
      · rw [List.count_cons_of_ne (Ne.symm hcd)]
      · rfl
  unborn d hd := by
    rw [List.length_modify] at hd
    have hlt := h.lt_length hc
    rw [Function.update_of_ne (by omega)]
    exact h.unborn d hd

/-- The object that is about to be freed is freed. -/
theorem Balanced.free (h : Balanced counts freeing freed uses) (hc : c ∈ freeing) :
    Balanced counts (freeing.erase c) (c :: freed) uses where
  count_eq := h.count_eq
  gone d := by
    rw [← h.gone d]
    by_cases hcd : d = c
    · subst hcd
      have hpos := List.count_pos_iff.mpr hc
      rw [List.count_cons_self, List.count_erase_self]
      omega
    · rw [List.count_cons_of_ne (Ne.symm hcd), List.count_erase_of_ne hcd]
  unborn := h.unborn

/-- A new object with one use. -/
theorem Balanced.alloc (h : Balanced counts freeing freed uses) :
    Balanced (counts ++ [1]) freeing freed (Function.update uses counts.length 1) where
  count_eq d n hd := by
    by_cases hlt : d < counts.length
    · rw [List.getElem?_append_left hlt] at hd
      rw [Function.update_of_ne (by omega)]
      exact h.count_eq d n hd
    · have hlen := (List.getElem?_eq_some_iff.mp hd).1
      rw [List.length_append, List.length_singleton] at hlen
      obtain rfl : d = counts.length := by omega
      rw [List.getElem?_concat_length] at hd
      rw [Function.update_self, ← Option.some.inj hd]
      rfl
  gone d := by
    rw [h.gone d, List.length_append, List.length_singleton]
    by_cases hd : d = counts.length
    · subst hd
      rw [Function.update_self, if_neg (by omega), if_neg (by omega)]
    · rw [Function.update_of_ne hd]
      by_cases huse : uses d = 0
      · by_cases hlt : d < counts.length
        · rw [if_pos ⟨hlt, huse⟩, if_pos ⟨by omega, huse⟩]
        · rw [if_neg (by omega), if_neg (by omega)]
      · rw [if_neg (by omega), if_neg (by omega)]
  unborn d hd := by
    rw [List.length_append, List.length_singleton] at hd
    rw [Function.update_of_ne (by omega)]
    exact h.unborn d (by omega)

end Binkd.Lib
