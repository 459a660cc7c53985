import Mathlib.Data.Nat.Notation
import Mathlib.Data.Option.Basic
import Mathlib.Order.Basic

/-!
# Sequences of calls

A function that may fail is called with its own result again and again.  A relation
`R` ranks the states; where every call lowers the rank, two states of the sequence never
have the same rank, and the sequence ends.
-/

namespace Binkd.Lib

variable {α : Type}

/-- The results of the calls. -/
def callSeq (next : α → Option α) (a : α) : ℕ → Option α
  | 0 => some a
  | n + 1 => (callSeq next a n).bind next

/-- Every call lowers the rank. -/
def Lowers (next : α → Option α) (R : α → ℕ → Prop) : Prop :=
  ∀ a r, R a r → ∀ b ∈ next a, ∃ r' < r, R b r'

variable {next : α → Option α} {R : α → ℕ → Prop} {a b c : α} {r : ℕ}

theorem callSeq_add (next : α → Option α) (a : α) (n m : ℕ) :
    callSeq next a (n + m) = (callSeq next a n).bind fun b => callSeq next b m := by
  induction m with
  | zero => simp [callSeq]
  | succ m ih =>
    rw [← Nat.add_assoc, callSeq, ih, Option.bind_assoc]
    rfl

/-- The rank of a state, and how it falls behind it. -/
theorem Lowers.seq (h : Lowers next R) (ha : R a r) {n : ℕ} (hn : callSeq next a n = some b) :
    ∃ r', R b r' ∧ r' + n ≤ r := by
  induction n generalizing b with
  | zero =>
    obtain rfl := Option.some.inj hn
    exact ⟨r, ha, Nat.le_refl r⟩
  | succ n ih =>
    obtain ⟨c, hc, hnext⟩ := Option.bind_eq_some_iff.mp hn
    obtain ⟨r', hr', hle⟩ := ih hc
    obtain ⟨r'', hlt, hb⟩ := h c r' hr' b hnext
    exact ⟨r'', hb, by omega⟩

/-- The sequence ends. -/
theorem Lowers.ends (h : Lowers next R) (ha : R a r) : callSeq next a (r + 1) = none := by
  cases hn : callSeq next a (r + 1) with
  | none => rfl
  | some b =>
    obtain ⟨r', -, hle⟩ := h.seq ha hn
    omega

/-- A later state has a lower rank than any rank of an earlier one. -/
theorem Lowers.later (h : Lowers next R) (ha : R a r) {n m : ℕ} (hlt : n < m) (hn : callSeq next a n = some b)
    (hm : callSeq next a m = some c) : ∃ r' r'', R b r' ∧ R c r'' ∧ r'' < r' := by
  obtain ⟨r', hr', -⟩ := h.seq ha hn
  obtain ⟨k, rfl⟩ := Nat.exists_eq_add_of_lt hlt
  rw [Nat.add_assoc, callSeq_add, hn, Option.bind_some] at hm
  obtain ⟨r'', hr'', hle⟩ := h.seq hr' hm
  exact ⟨r', r'', hr', hr'', by omega⟩

end Binkd.Lib
