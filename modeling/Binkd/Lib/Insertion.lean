import Mathlib.Data.List.Nodup
import Mathlib.Data.List.Perm.Subperm
import Mathlib.Data.List.Perm.Basic

/-!
# Insertion sort by a three-way comparison

The comparison answers with a number, positive if the first argument belongs behind
the second.  It has to be consistent on the entries of a list only: between any two
of them, taken at different places, it has to be antisymmetric up to ties, and
between any three it has to be transitive.  Then the sort is stable, so a relation
holds between any entry of the result and any later one if it holds between the
entries of the input in the order that the comparison gives them
(`pairwise_sortBy`).
-/

namespace Binkd.Lib

variable {α : Type} (cmp : α → α → Int)

/-- The entry goes before the first one that compares greater. -/
def insertBy (e : α) : List α → List α
  | [] => [e]
  | c :: l => if cmp c e > 0 then e :: c :: l else c :: insertBy e l

def sortBy (l : List α) : List α := l.foldl (fun acc e => insertBy cmp e acc) []

/-- The comparison is antisymmetric up to ties and transitive on the entries of a list. -/
structure Consistent (l : List α) : Prop where
  antisymm : ∀ a b, [a, b].Subperm l → (0 < cmp a b ↔ cmp b a < 0)
  trans : ∀ a b c, [a, b, c].Subperm l → cmp a b ≤ 0 → cmp b c ≤ 0 → cmp a c ≤ 0

/-- What holds of two entries in the order that the comparison gives them; on a tie in
the order in which they come. -/
def Ordered (R : α → α → Prop) (a b : α) : Prop := if cmp a b ≤ 0 then R a b else R b a

variable {cmp} {R : α → α → Prop} {l m : List α} {a b c e : α}

theorem Consistent.of_subperm (h : Consistent cmp m) (hlm : l.Subperm m) : Consistent cmp l where
  antisymm a b hab := h.antisymm a b (hab.trans hlm)
  trans a b c habc := h.trans a b c (habc.trans hlm)

/-- Two different entries, as a pair. -/
theorem pair_subperm (ha : a ∈ l) (hb : b ∈ l) (hab : a ≠ b) : [a, b].Subperm l := by
  apply List.subperm_of_subset
  · exact List.nodup_cons.mpr ⟨by simpa using hab, List.nodup_singleton b⟩
  · intro x hx
    rcases List.mem_cons.mp hx with rfl | hx
    · exact ha
    · exact List.mem_singleton.mp hx ▸ hb

theorem pair_swap (h : [a, b].Subperm l) : [b, a].Subperm l := (List.Perm.swap a b []).subperm.trans h

/-- The pairs of a list: one comes before the other. -/
theorem pairwise_of_pairs {S : α → α → Prop} (h : ∀ a b, [a, b].Subperm l → S a b) : l.Pairwise S := by
  induction l with
  | nil => exact List.Pairwise.nil
  | cons c l ih =>
    apply List.Pairwise.cons
    · intro b hb
      apply h c b
      exact (List.cons_sublist_cons.mpr (List.singleton_sublist.mpr hb)).subperm
    · apply ih
      intro a b hab
      exact h a b (hab.trans (List.sublist_cons_self c l).subperm)

/-- What does not depend on the order and holds between the entries holds of each pair. -/
theorem pairs_of_pairwise {S : α → α → Prop} (hsymm : ∀ {a b}, S a b → S b a) (h : l.Pairwise S)
    (hab : [a, b].Subperm l) : S a b := by
  obtain ⟨l', hperm, hsub⟩ := hab
  have hpair : [a, b].Pairwise S := (hperm.pairwise_iff hsymm).mp (h.sublist hsub)
  exact (List.pairwise_cons.mp hpair).1 b List.mem_cons_self

theorem insertBy_perm (e : α) (l : List α) : (insertBy cmp e l).Perm (e :: l) := by
  induction l with
  | nil => exact .refl _
  | cons c l ih =>
    rw [insertBy]
    split_ifs
    · exact .refl _
    · exact (ih.cons c).trans (.swap e c l)

/-- Behind an entry that compares greater all of a sorted list does. -/
theorem Consistent.greater (h : Consistent cmp (e :: c :: l)) (hsorted : (c :: l).Pairwise (cmp · · ≤ 0))
    (hc : cmp c e > 0) : ∀ x ∈ c :: l, cmp x e > 0 := by
  intro x hx
  rcases List.mem_cons.mp hx with rfl | hx
  · exact hc
  · by_contra hle
    have hcx : cmp c x ≤ 0 := (List.pairwise_cons.mp hsorted).1 x hx
    have hsub : [c, x, e].Subperm (e :: c :: l) := by
      have hperm : [c, x, e].Perm (e :: [c, x]) := @List.perm_append_comm α [c, x] [e]
      apply hperm.subperm.trans
      exact (List.cons_sublist_cons.mpr (List.cons_sublist_cons.mpr (List.singleton_sublist.mpr hx))).subperm
    have := h.trans c x e hsub hcx (by omega)
    omega

/-- One insertion, in a sorted list. -/
theorem pairwise_insertBy (h : Consistent cmp (e :: l)) (hsorted : l.Pairwise (cmp · · ≤ 0)) :
    (insertBy cmp e l).Pairwise R ↔ l.Pairwise R ∧ ∀ x ∈ l, Ordered cmp R x e := by
  induction l with
  | nil => simp [insertBy]
  | cons c l ih =>
    have htail : Consistent cmp (e :: l) :=
      h.of_subperm (List.cons_sublist_cons.mpr (List.sublist_cons_self c l)).subperm
    rw [insertBy]
    by_cases hc : cmp c e > 0
    · rw [if_pos hc, List.pairwise_cons, and_comm]
      apply and_congr_right'
      apply forall₂_congr
      intro x hx
      have hx : cmp x e > 0 := h.greater hsorted hc x hx
      rw [Ordered, if_neg (by omega)]
    · have hce : Ordered cmp R c e ↔ R c e := by rw [Ordered, if_pos (by omega)]
      rw [if_neg hc, List.pairwise_cons, ih htail (List.pairwise_cons.mp hsorted).2, List.pairwise_cons,
        List.forall_mem_cons, hce]
      have hmem : (∀ x ∈ insertBy cmp e l, R c x) ↔ R c e ∧ ∀ x ∈ l, R c x := by
        rw [← List.forall_mem_cons]
        exact forall_congr' fun x => by rw [(insertBy_perm e l).mem_iff]
      rw [hmem]
      tauto

/-- The comparison itself holds in the order that it gives. -/
theorem Consistent.ordered (h : Consistent cmp l) (hab : [a, b].Subperm l) :
    Ordered cmp (cmp · · ≤ 0) a b := by
  rw [Ordered]
  split_ifs with hle
  · exact hle
  · have := (h.antisymm a b hab).mp (by omega)
    omega

theorem sorted_insertBy (h : Consistent cmp (e :: l)) (hsorted : l.Pairwise (cmp · · ≤ 0)) :
    (insertBy cmp e l).Pairwise (cmp · · ≤ 0) := by
  apply (pairwise_insertBy h hsorted).mpr
  refine ⟨hsorted, ?_⟩
  intro x hx
  apply h.ordered
  exact pair_swap (List.cons_sublist_cons.mpr (List.singleton_sublist.mpr hx)).subperm

theorem foldl_insertBy_perm (l acc : List α) :
    (l.foldl (fun acc e => insertBy cmp e acc) acc).Perm (acc ++ l) := by
  induction l generalizing acc with
  | nil => simp
  | cons e l ih =>
    apply (ih _).trans
    exact ((insertBy_perm e acc).append_right l).trans List.perm_middle.symm

theorem sortBy_perm (l : List α) : (sortBy cmp l).Perm l := foldl_insertBy_perm l []

theorem foldl_insertBy {acc : List α} (h : Consistent cmp (acc ++ l)) (hsorted : acc.Pairwise (cmp · · ≤ 0)) :
    (l.foldl (fun acc e => insertBy cmp e acc) acc).Pairwise R ↔
      acc.Pairwise R ∧ l.Pairwise (Ordered cmp R) ∧ ∀ x ∈ acc, ∀ y ∈ l, Ordered cmp R x y := by
  induction l generalizing acc with
  | nil => simp
  | cons e l ih =>
    have hperm : (insertBy cmp e acc ++ l).Perm (acc ++ e :: l) :=
      ((insertBy_perm e acc).append_right l).trans List.perm_middle.symm
    have hhead : Consistent cmp (e :: acc) := by
      apply h.of_subperm
      exact (List.sublist_append_left (e :: acc) l).subperm.trans List.perm_middle.symm.subperm
    rw [List.foldl_cons, ih (h.of_subperm hperm.subperm) (sorted_insertBy hhead hsorted),
      pairwise_insertBy hhead hsorted, List.pairwise_cons]
    have hmem : (∀ x ∈ insertBy cmp e acc, ∀ y ∈ l, Ordered cmp R x y) ↔
        (∀ y ∈ l, Ordered cmp R e y) ∧ ∀ x ∈ acc, ∀ y ∈ l, Ordered cmp R x y := by
      rw [← List.forall_mem_cons (p := fun x => ∀ y ∈ l, Ordered cmp R x y)]
      exact forall_congr' fun x => by rw [(insertBy_perm e acc).mem_iff]
    rw [hmem]
    constructor
    · rintro ⟨⟨hacc, hx⟩, hl, he, hall⟩
      exact ⟨hacc, ⟨he, hl⟩, fun x hxa => List.forall_mem_cons.mpr ⟨hx x hxa, hall x hxa⟩⟩
    · rintro ⟨hacc, ⟨he, hl⟩, hall⟩
      exact ⟨⟨hacc, fun x hxa => (List.forall_mem_cons.mp (hall x hxa)).1⟩, hl, he,
        fun x hxa => (List.forall_mem_cons.mp (hall x hxa)).2⟩

/-- What holds between the entries of the result is what holds between those of the
input in the order of the comparison. -/
theorem pairwise_sortBy (h : Consistent cmp l) :
    (sortBy cmp l).Pairwise R ↔ l.Pairwise (Ordered cmp R) := by
  rw [sortBy, foldl_insertBy (by simpa using h) List.Pairwise.nil]
  simp

/-- The result is sorted. -/
theorem sortBy_sorted (h : Consistent cmp l) : (sortBy cmp l).Pairwise (cmp · · ≤ 0) :=
  (pairwise_sortBy h).mpr (pairwise_of_pairs fun _ _ => h.ordered)

/-- Some entry of a list is not behind any other. -/
theorem Consistent.exists_least (h : Consistent cmp l) (hl : l ≠ []) : ∃ e ∈ l, ∀ x ∈ l, x = e ∨
    cmp e x ≤ 0 := by
  have hsorted := sortBy_sorted h
  have hperm := @sortBy_perm α cmp l
  cases hs : sortBy cmp l with
  | nil => exact absurd (List.nil_perm.mp (hs ▸ hperm)) hl
  | cons e rest =>
    rw [hs] at hperm hsorted
    refine ⟨e, hperm.mem_iff.mp List.mem_cons_self, ?_⟩
    intro x hx
    rcases List.mem_cons.mp (hperm.mem_iff.mpr hx) with rfl | hx
    · exact .inl rfl
    · exact .inr ((List.pairwise_cons.mp hsorted).1 x hx)

end Binkd.Lib
