import Mathlib.Logic.Basic

/-!
# Removing keys step by step

A step of a program removes those keys from a table that a predicate names, and no others.  Steps that
are taken one after another remove what any of them names, as long as each may count on what
the earlier ones have left.
-/

namespace Binkd.Lib

variable {σ κ β ι : Type*} (lookup : σ → κ → Option β)

/-- The keys that are `doomed` are gone, and all the others are as they were. -/
def Prunes (doomed : κ → Prop) (s s' : σ) : Prop :=
  ∀ k, (doomed k → lookup s' k = none) ∧ (¬ doomed k → lookup s' k = lookup s k)

variable {lookup} {doomed doomed' : κ → Prop} {s s' s'' : σ}

theorem Prunes.refl (h : ∀ k, doomed k → lookup s k = none) : Prunes lookup doomed s s :=
  fun k => ⟨h k, fun _ => rfl⟩

theorem Prunes.trans (h : Prunes lookup doomed s s') (h' : Prunes lookup doomed' s' s'') :
    Prunes lookup (fun k => doomed k ∨ doomed' k) s s'' := by
  intro k
  refine ⟨fun hor => ?_, fun hnot => ?_⟩
  · by_cases hk' : doomed' k
    · exact (h' k).1 hk'
    · rw [(h' k).2 hk']
      exact (h k).1 (hor.resolve_right hk')
  · obtain ⟨hk, hk'⟩ := not_or.mp hnot
    rw [(h' k).2 hk', (h k).2 hk]

/-- What names the same keys prunes the same. -/
theorem Prunes.congr (h : Prunes lookup doomed s s') (hiff : ∀ k, doomed k ↔ doomed' k) :
    Prunes lookup doomed' s s' :=
  fun k => ⟨fun hk => (h k).1 ((hiff k).mpr hk), fun hk => (h k).2 fun hd => hk ((hiff k).mp hd)⟩

/-- Keys that are not there are doomed as well. -/
theorem Prunes.more (h : Prunes lookup doomed s s') (hmore : ∀ k, doomed k → doomed' k)
    (habsent : ∀ k, doomed' k → ¬ doomed k → lookup s k = none) : Prunes lookup doomed' s s' := by
  intro k
  refine ⟨fun hk' => ?_, fun hk' => (h k).2 fun hk => hk' (hmore k hk)⟩
  by_cases hk : doomed k
  · exact (h k).1 hk
  · rw [(h k).2 hk]
    exact habsent k hk' hk

/-- A key that is there afterwards was there before, as it is. -/
theorem Prunes.kept (h : Prunes lookup doomed s s') {k : κ} {b : β} (hb : lookup s' k = some b) :
    lookup s k = some b := by
  by_cases hk : doomed k
  · rw [(h k).1 hk] at hb
    contradiction
  · rwa [(h k).2 hk] at hb

/-- **A loop of pruning steps** prunes what any of them does; `inv` is what the steps count on. -/
theorem Prunes.foldl (inv : σ → Prop) {f : σ → ι → σ} {named : ι → κ → Prop} (xs : List ι)
    (hstep : ∀ x ∈ xs, ∀ s, inv s → Prunes lookup (named x) s (f s x))
    (hinv : ∀ x ∈ xs, ∀ s, inv s → inv (f s x)) (hs : inv s) :
    Prunes lookup (fun k => ∃ x ∈ xs, named x k) s (xs.foldl f s) ∧ inv (xs.foldl f s) := by
  induction xs generalizing s with
  | nil => exact ⟨.refl fun k hk => absurd hk (by simp), hs⟩
  | cons x xs ih =>
    have hmem : x ∈ x :: xs := List.mem_cons_self
    obtain ⟨hrest, hlast⟩ := ih (fun y hy => hstep y (List.mem_cons_of_mem x hy))
      (fun y hy => hinv y (List.mem_cons_of_mem x hy)) (hinv x hmem s hs)
    refine ⟨((hstep x hmem s hs).trans hrest).congr fun k => ?_, hlast⟩
    simp only [List.mem_cons, exists_eq_or_imp]

end Binkd.Lib
