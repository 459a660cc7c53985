import Mathlib.Data.Fintype.Card
import Mathlib.Data.Set.Finite.Basic
import Mathlib.Logic.Relation

/-!
# Recursion along a relation

A function calls itself for every element that a relation leads to, in loops over
lists.  With a bound on the depth a loop fails if one of its calls does and succeeds if
all do.  The calls end if no cycle can be reached and the elements are finitely many;
otherwise no bound is enough.
-/

namespace Binkd.Lib

variable {α σ τ : Type}

/-! ### Loops -/

theorem foldlM_imp {f g : σ → α → Option σ} {l : List α} {s r : σ}
    (hfg : ∀ x ∈ l, ∀ s r, f s x = some r → g s x = some r) (h : l.foldlM f s = some r) :
    l.foldlM g s = some r := by
  induction l generalizing s with
  | nil => exact h
  | cons x l ih =>
    rw [List.foldlM_cons] at h ⊢
    cases hx : f s x with
    | none =>
      rw [hx] at h
      exact absurd h (by simp)
    | some t =>
      rw [hx] at h
      rw [hfg x List.mem_cons_self s t hx]
      exact ih (fun y hy => hfg y (List.mem_cons_of_mem x hy)) h

theorem foldlM_isSome {f : σ → α → Option σ} {l : List α} (h : ∀ x ∈ l, ∀ s, (f s x).isSome = true) (s : σ) :
    (l.foldlM f s).isSome = true := by
  induction l generalizing s with
  | nil => rfl
  | cons x l ih =>
    obtain ⟨t, ht⟩ := Option.isSome_iff_exists.mp (h x List.mem_cons_self s)
    rw [List.foldlM_cons, ht]
    exact ih (fun y hy => h y (List.mem_cons_of_mem x hy)) t

theorem foldlM_none {f : σ → α → Option σ} {l : List α} {x : α} (hx : x ∈ l) (h : ∀ s, f s x = none) (s : σ) :
    l.foldlM f s = none := by
  induction l generalizing s with
  | nil => exact absurd hx (by simp)
  | cons y l ih =>
    rw [List.foldlM_cons]
    rcases List.mem_cons.mp hx with rfl | hx
    · rw [h s]
      rfl
    · cases hy : f s y with
      | none => rfl
      | some t => exact ih hx t

/-- What every round of a loop keeps the loop keeps. -/
theorem foldlM_rel {f : σ → α → Option σ} {R : σ → σ → Prop} (hrefl : ∀ s, R s s)
    (htrans : ∀ a b c, R a b → R b c → R a c) {l : List α} (hf : ∀ x ∈ l, ∀ s r, f s x = some r → R s r)
    {s r : σ} (h : l.foldlM f s = some r) : R s r := by
  induction l generalizing s with
  | nil =>
    have hsr : s = r := Option.some.inj h
    exact hsr ▸ hrefl s
  | cons x l ih =>
    rw [List.foldlM_cons] at h
    cases hx : f s x with
    | none =>
      rw [hx] at h
      exact absurd h (by simp)
    | some t =>
      rw [hx] at h
      exact htrans s t r (hf x List.mem_cons_self s t hx) (ih (fun y hy => hf y (List.mem_cons_of_mem x hy)) h)

/-- One bound for finitely many. -/
theorem exists_bound {P : ℕ → α → Prop} (hmono : ∀ n m a, n ≤ m → P n a → P m a) {l : List α}
    (h : ∀ a ∈ l, ∃ n, P n a) : ∃ n, ∀ a ∈ l, P n a := by
  induction l with
  | nil => exact ⟨0, by simp⟩
  | cons a l ih =>
    obtain ⟨n, hn⟩ := h a List.mem_cons_self
    obtain ⟨m, hm⟩ := ih fun b hb => h b (List.mem_cons_of_mem a hb)
    refine ⟨max n m, ?_⟩
    intro b hb
    rcases List.mem_cons.mp hb with rfl | hb
    · exact hmono n _ b (le_max_left n m) hn
    · exact hmono m _ b (le_max_right n m) (hm b hb)

/-! ### Cycles -/

/-- Some element that can be reached from `a` reaches itself again. -/
def ReachesCycle (r : α → α → Prop) (a : α) : Prop :=
  ∃ b, Relation.ReflTransGen r a b ∧ Relation.TransGen r b b

variable {r : α → α → Prop} {a : α}

/-- The way to a cycle goes on for ever. -/
theorem ReachesCycle.step (h : ReachesCycle r a) : ∃ b, r a b ∧ ReachesCycle r b := by
  obtain ⟨b, hab, hbb⟩ := h
  rcases Relation.ReflTransGen.cases_head hab with rfl | ⟨c, hac, hcb⟩
  · obtain ⟨c, hac, hca⟩ := Relation.TransGen.head'_iff.mp hbb
    exact ⟨c, hac, a, hca, hbb⟩
  · exact ⟨c, hac, b, hcb, hbb⟩

/-- Where no cycle can be reached, and only finitely many elements, every way ends. -/
theorem acc_of_not_reachesCycle {l : List α} (hfin : ∀ a b, r a b → b ∈ l) (h : ¬ ReachesCycle r a) :
    Acc (fun x y => r y x) a := by
  have hmem : ∀ b, Relation.ReflTransGen r a b → b ∈ a :: l := by
    intro b hb
    rcases Relation.ReflTransGen.cases_tail hb with rfl | ⟨c, -, hcb⟩
    · exact List.mem_cons_self
    · exact List.mem_cons_of_mem a (hfin c b hcb)
  let s : {b // Relation.ReflTransGen r a b} → {b // Relation.ReflTransGen r a b} → Prop :=
    fun x y => Relation.TransGen r y.1 x.1
  have hfinite : Finite {b // Relation.ReflTransGen r a b} := by
    exact ((List.finite_toSet (a :: l)).subset fun b hb => hmem b hb).to_subtype
  have htrans : IsTrans _ s := ⟨fun x y z hxy hyz => hyz.trans hxy⟩
  have hirrefl : Std.Irrefl s := ⟨fun x hx => h ⟨x.1, x.2, hx⟩⟩
  have hwf : WellFounded s := Finite.wellFounded_of_trans_of_irrefl s
  have hacc : ∀ x : {b // Relation.ReflTransGen r a b}, Acc (fun x y => r y x) x.1 := by
    intro x
    induction x using hwf.induction with
    | _ x ih =>
      apply Acc.intro
      intro y hy
      exact ih ⟨y, x.2.tail hy⟩ (Relation.TransGen.single hy)
  exact hacc ⟨a, .refl⟩

end Binkd.Lib
