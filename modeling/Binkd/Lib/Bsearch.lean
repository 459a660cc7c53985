import Binkd.Lib.Insertion

/-!
# Binary search

`bsearch` of a list that is sorted by a comparison.  The comparison has to be a total
order on the keys that occur only; it may answer with a tie for keys that differ.
-/

namespace Binkd.Lib

variable {α β : Type} {cmp : α → α → Int} {S : α → Prop} {l : List β}

/-- The comparison is a total order on these values, up to ties. -/
structure CmpTotal (cmp : α → α → Int) (S : α → Prop) : Prop where
  antisymm : ∀ a b, S a → S b → (0 < cmp a b ↔ cmp b a < 0)
  trans : ∀ a b c, S a → S b → S c → cmp a b ≤ 0 → cmp b c ≤ 0 → cmp a c ≤ 0

theorem CmpTotal.consistent (key : β → α) (h : CmpTotal cmp S) (hl : ∀ e ∈ l, S (key e)) :
    Consistent (fun a b => cmp (key a) (key b)) l where
  antisymm a b hab := by
    have hmem := hab.subset
    exact h.antisymm _ _ (hl a (hmem List.mem_cons_self)) (hl b (hmem (List.mem_cons_of_mem a List.mem_cons_self)))
  trans a b c habc := by
    have hmem := habc.subset
    exact h.trans _ _ _ (hl a (hmem (by simp))) (hl b (hmem (by simp))) (hl c (hmem (by simp)))

theorem CmpTotal.eq_symm (h : CmpTotal cmp S) {a b : α} (ha : S a) (hb : S b) (heq : cmp a b = 0) :
    cmp b a = 0 := by
  have h1 := h.antisymm a b ha hb
  have h2 := h.antisymm b a hb ha
  omega

/-- What compares equal to one value compares alike with another. -/
theorem CmpTotal.eq_trans (h : CmpTotal cmp S) {a b c : α} (ha : S a) (hb : S b) (hc : S c) (hab : cmp a b = 0)
    (hbc : cmp b c = 0) : cmp a c = 0 := by
  have hba := h.eq_symm ha hb hab
  have hcb := h.eq_symm hb hc hbc
  have hle := h.trans a b c ha hb hc (by omega) (by omega)
  have hge := h.trans c b a hc hb ha (by omega) (by omega)
  have hiff := h.antisymm c a hc ha
  omega

theorem CmpTotal.lt_of_lt_of_le (h : CmpTotal cmp S) {a b c : α} (ha : S a) (hb : S b) (hc : S c) (hab : cmp a b < 0)
    (hbc : cmp b c ≤ 0) : cmp a c < 0 := by
  have hac := h.trans a b c ha hb hc (by omega) hbc
  have h1 := h.antisymm b a hb ha
  have h2 := h.antisymm a c ha hc
  have h3 := h.antisymm c a hc ha
  by_contra hno
  have hback := h.trans b c a hb hc ha hbc (by omega)
  omega

/-- `bsearch` between two places: the place of an entry that the comparison with the key finds equal. -/
def bsearchFrom (cmp : β → Int) (l : List β) : ℕ → ℕ → ℕ → Option ℕ
  | 0, _, _ => none
  | fuel + 1, lo, hi =>
    if lo < hi then
      match l[(lo + hi) / 2]? with
      | none => none
      | some e =>
        if cmp e < 0 then bsearchFrom cmp l fuel lo ((lo + hi) / 2)
        else if 0 < cmp e then bsearchFrom cmp l fuel ((lo + hi) / 2 + 1) hi
        else some ((lo + hi) / 2)
    else none

def bsearch (cmp : β → Int) (l : List β) : Option ℕ := bsearchFrom cmp l (l.length + 1) 0 l.length

theorem bsearchFrom_sound {cmp : β → Int} {fuel lo hi i : ℕ} (h : bsearchFrom cmp l fuel lo hi = some i) :
    ∃ e, l[i]? = some e ∧ cmp e = 0 := by
  induction fuel generalizing lo hi with
  | zero => cases h
  | succ fuel ih =>
    rw [bsearchFrom] at h
    by_cases hlt : lo < hi
    · rw [if_pos hlt] at h
      cases hget : l[(lo + hi) / 2]? with
      | none =>
        rw [hget] at h
        cases h
      | some e =>
        rw [hget] at h
        dsimp only at h
        split_ifs at h with hneg hpos
        · exact ih h
        · exact ih h
        · cases h
          exact ⟨e, hget, by omega⟩
    · rw [if_neg hlt] at h
      cases h

/-- The entries are in the order of the key: those before it, those that are equal, those behind it. -/
def InOrder (cmp : β → Int) (l : List β) : Prop :=
  l.Pairwise fun a b => (cmp a < 0 → cmp b < 0) ∧ (0 < cmp b → 0 < cmp a)

theorem bsearchFrom_complete {cmp : β → Int} (hord : InOrder cmp l) {fuel lo hi i : ℕ} (hlo : lo ≤ i) (hi' : i < hi)
    (hlen : hi ≤ l.length) (hfuel : hi - lo < fuel) (hil : i < l.length) (heq : cmp l[i] = 0) :
    ∃ j, bsearchFrom cmp l fuel lo hi = some j := by
  have hpair := List.pairwise_iff_getElem.mp hord
  induction fuel generalizing lo hi with
  | zero => omega
  | succ fuel ih =>
    have hmid : (lo + hi) / 2 < l.length := by omega
    rw [bsearchFrom, if_pos (by omega), List.getElem?_eq_getElem hmid]
    dsimp only
    split_ifs with hneg hpos
    · -- the key is before the entry in the middle
      have hi2 : i < (lo + hi) / 2 := by
        by_contra hge
        rcases Nat.eq_or_lt_of_le (Nat.le_of_not_lt hge) with h | h
        · simp only [h] at hneg
          omega
        · have := (hpair _ _ hmid (by omega) h).1 hneg
          omega
      exact ih hlo hi2 (by omega) (by omega)
    · have hlo2 : (lo + hi) / 2 + 1 ≤ i := by
        by_contra hge
        rcases Nat.eq_or_lt_of_le (Nat.le_of_lt_succ (Nat.lt_of_not_le hge)) with h | h
        · simp only [← h] at hpos
          omega
        · have := (hpair _ _ (by omega) hmid h).2 hpos
          omega
      exact ih hlo2 hi' hlen (by omega)
    · exact ⟨_, rfl⟩

theorem bsearch_sound {cmp : β → Int} {i : ℕ} (h : bsearch cmp l = some i) :
    ∃ e, l[i]? = some e ∧ cmp e = 0 :=
  bsearchFrom_sound h

theorem bsearch_complete {cmp : β → Int} (hord : InOrder cmp l) {e : β} (he : e ∈ l) (heq : cmp e = 0) :
    ∃ j, bsearch cmp l = some j := by
  obtain ⟨i, hi, rfl⟩ := List.mem_iff_getElem.mp he
  exact bsearchFrom_complete hord (Nat.zero_le i) hi (Nat.le_refl _) (by omega) hi heq

/-- A list that is sorted by the comparison is in the order of any key. -/
theorem CmpTotal.inOrder (key : β → α) {k : α} (h : CmpTotal cmp S) (hk : S k) (hl : ∀ e ∈ l, S (key e))
    (hsorted : l.Pairwise fun a b => cmp (key a) (key b) ≤ 0) : InOrder (fun e => cmp k (key e)) l := by
  refine hsorted.imp_of_mem fun {a b} ha hb hab => ⟨fun hneg => ?_, fun hpos => ?_⟩
  · exact h.lt_of_lt_of_le hk (hl a ha) (hl b hb) hneg hab
  · dsimp only at hpos ⊢
    have hbk := (h.antisymm _ _ hk (hl b hb)).mp hpos
    have h1 := h.antisymm _ _ (hl a ha) hk
    have h2 := h.antisymm _ _ hk (hl a ha)
    by_contra hno
    have hle := h.trans _ _ _ hk (hl a ha) (hl b hb) (by omega) hab
    omega

end Binkd.Lib
