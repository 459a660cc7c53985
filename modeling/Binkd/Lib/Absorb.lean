import Mathlib.Data.List.Basic

/-!
# Functions that are fed block by block

A function of a long text may be computed by a state that takes in one block of `n` symbols after
the other, with the rest of less than a block kept in a buffer.  `absorb` takes in a given number
of blocks, and `Absorbed` relates the text fed so far to the state and the rest.

`Absorbed.feed` says that it does not matter how the text is cut into pieces: to feed another piece
is to take in the blocks of the rest and the piece.
-/

namespace Binkd.Lib

variable {σ β : Type} (f : σ → List β → σ) (n : ℕ)

/-- The state after the first `k` blocks of a text. -/
def absorb : ℕ → σ → List β → σ
  | 0, s, _ => s
  | k + 1, s, l => absorb k (f s (l.take n)) (l.drop n)

@[simp] theorem absorb_zero (s : σ) (l : List β) : absorb f n 0 s l = s := rfl

theorem absorb_succ (k : ℕ) (s : σ) (l : List β) :
    absorb f n (k + 1) s l = absorb f n k (f s (l.take n)) (l.drop n) := rfl

/-- First some blocks, then the blocks behind them. -/
theorem absorb_add (j k : ℕ) (s : σ) (l : List β) :
    absorb f n (j + k) s l = absorb f n k (absorb f n j s l) (l.drop (j * n)) := by
  induction j generalizing s l with
  | zero => simp
  | succ j ih =>
    rw [Nat.succ_add, absorb_succ, ih, absorb_succ, List.drop_drop]
    congr 2
    rw [Nat.succ_mul, Nat.add_comm]

/-- What stands behind the blocks has no part in it. -/
theorem absorb_append {k : ℕ} {l : List β} (hk : k * n ≤ l.length) (s : σ) (r : List β) :
    absorb f n k s (l ++ r) = absorb f n k s l := by
  induction k generalizing s l with
  | zero => rfl
  | succ k ih =>
    rw [Nat.succ_mul] at hk
    have hn : n ≤ l.length := by omega
    rw [absorb_succ, absorb_succ, List.take_append_of_le_length hn, List.drop_append_of_le_length hn,
      ih (by rw [List.length_drop]; omega)]

/-- The state and the rest of a text that has been fed. -/
structure Absorbed (s0 : σ) (l : List β) (s : σ) (rest : List β) : Prop where
  state : s = absorb f n (l.length / n) s0 l
  rest : rest = l.drop (l.length / n * n)

variable {f n}

theorem Absorbed.nil (s0 : σ) : Absorbed f n s0 [] s0 [] :=
  ⟨by rw [List.length_nil, Nat.zero_div, absorb_zero], List.drop_nil.symm⟩

theorem Absorbed.length_rest {s0 s : σ} {l rest : List β} (h : Absorbed f n s0 l s rest) :
    rest.length = l.length % n := by
  rw [h.rest, List.length_drop]
  have := Nat.div_add_mod' l.length n
  omega

/-- **Another piece**: its symbols stand behind the rest, and the blocks of the two are taken in. -/
theorem Absorbed.feed {s0 s : σ} {l rest : List β} (h : Absorbed f n s0 l s rest) (x : List β) :
    Absorbed f n s0 (l ++ x) (absorb f n ((rest ++ x).length / n) s (rest ++ x))
      ((rest ++ x).drop ((rest ++ x).length / n * n)) := by
  rcases Nat.eq_zero_or_pos n with rfl | hn
  · obtain ⟨rfl, rfl⟩ := h
    exact ⟨by simp, by simp⟩
  have hle : l.length / n * n ≤ l.length := Nat.div_mul_le_self _ _
  have hrest : rest ++ x = (l ++ x).drop (l.length / n * n) := by
    rw [List.drop_append_of_le_length hle, h.rest]
  have hlen : (l ++ x).length = l.length / n * n + (rest ++ x).length := by
    rw [hrest, List.length_drop, List.length_append]
    omega
  have hdiv : (l ++ x).length / n = l.length / n + (rest ++ x).length / n := by
    rw [hlen, Nat.add_comm, Nat.add_mul_div_right _ _ hn, Nat.add_comm]
  refine ⟨?_, ?_⟩
  · rw [hdiv, absorb_add, absorb_append f n hle, ← h.state, ← hrest]
  · rw [hdiv, Nat.add_mul, ← List.drop_drop, ← hrest]

/-- Nothing is taken in where the rest and the piece are less than a block. -/
theorem Absorbed.short {s0 s : σ} {l rest x : List β} (h : Absorbed f n s0 l s rest)
    (hx : (rest ++ x).length < n) : Absorbed f n s0 (l ++ x) s (rest ++ x) := by
  have hfeed := h.feed x
  rw [Nat.div_eq_of_lt hx, absorb_zero, Nat.zero_mul, List.drop_zero] at hfeed
  exact hfeed

/-- With the first block of the rest and the piece the others are taken in. -/
theorem Absorbed.long {s0 s : σ} {l rest x : List β} (h : Absorbed f n s0 l s rest) (hn : 0 < n)
    (hx : n ≤ (rest ++ x).length) : Absorbed f n s0 (l ++ x)
      (absorb f n (((rest ++ x).length - n) / n) (f s ((rest ++ x).take n)) ((rest ++ x).drop n))
      ((rest ++ x).drop (n + ((rest ++ x).length - n) / n * n)) := by
  have hdiv : (rest ++ x).length / n = ((rest ++ x).length - n) / n + 1 := by
    rw [← Nat.add_div_right _ hn, Nat.sub_add_cancel hx]
  have hfeed := h.feed x
  rw [hdiv, absorb_succ, Nat.succ_mul, Nat.add_comm] at hfeed
  exact hfeed

end Binkd.Lib
