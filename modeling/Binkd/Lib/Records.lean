import Mathlib.Data.List.Basic
import Mathlib.Data.List.Flatten

/-!
# Files of records of one size

A program appends records of `n` symbols to a file, and a reader takes the file apart again in pieces of
that size.  `readRecords_append` is the round trip; what is less than a record at the end is not read.
-/

namespace Binkd.Lib

variable {α β : Type*}

/-- The first `k` pieces of `n` symbols. -/
def pieces (n : ℕ) : ℕ → List β → List (List β)
  | 0, _ => []
  | k + 1, l => l.take n :: pieces n k (l.drop n)

/-- The records of a file. -/
def readRecords (decode : List β → α) (n : ℕ) (file : List β) : List α :=
  (pieces n (file.length / n) file).map decode

variable {encode : α → List β} {decode : List β → α} {n : ℕ}

theorem length_encodes (hlength : ∀ x, (encode x).length = n) (xs : List α) :
    (xs.flatMap encode).length = xs.length * n := by
  induction xs with
  | nil => simp
  | cons x xs ih => rw [List.flatMap_cons, List.length_append, ih, hlength, List.length_cons, Nat.succ_mul, Nat.add_comm]

theorem pieces_encodes (hlength : ∀ x, (encode x).length = n) (xs : List α) (rest : List β) :
    pieces n xs.length (xs.flatMap encode ++ rest) = xs.map encode := by
  induction xs with
  | nil => rfl
  | cons x xs ih =>
    rw [List.length_cons, pieces, List.flatMap_cons, List.append_assoc, List.take_left' (hlength x),
      List.drop_left' (hlength x), ih, List.map_cons]

/-- **What was appended is read back**, in its order. -/
theorem readRecords_append (hn : 0 < n) (hlength : ∀ x, (encode x).length = n) (hdecode : ∀ x, decode (encode x) = x)
    (xs : List α) {rest : List β} (hrest : rest.length < n) :
    readRecords decode n (xs.flatMap encode ++ rest) = xs := by
  have hcount : (xs.flatMap encode ++ rest).length / n = xs.length := by
    rw [List.length_append, length_encodes hlength, Nat.add_comm, Nat.add_mul_div_right _ _ hn,
      Nat.div_eq_of_lt hrest, Nat.zero_add]
  unfold readRecords
  rw [hcount, pieces_encodes hlength, List.map_map]
  exact (List.map_congr_left fun x _ => hdecode x).trans (List.map_id xs)

end Binkd.Lib
