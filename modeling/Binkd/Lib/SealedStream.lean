import Binkd.Lib.KeyStream

/-!
# A stream of frames that is encrypted from some frame on

The first `n` frames go over a connection as they are, those behind them go through an
`Autokey` cipher.  `stream` are the bytes of the connection and `keyAfter` is the key
behind the frames; `deciphered` is what the reader of the next frame makes of the bytes
that it has.  A part of a frame gives a part of its bytes (`deciphered_part`), and a whole
frame gives the frame and leaves the stream of the others (`deciphered_whole`).
-/

namespace Binkd.Lib

variable {κ β α : Type} (c : Autokey κ β) (bytes : α → List β)

/-- The bytes of the frames, of which those behind the first `n` are encrypted. -/
def stream : ℕ → κ → List α → List β
  | _, _, [] => []
  | 0, k, i :: is => c.encrypt k (bytes i) ++ stream 0 (c.advance k (bytes i)) is
  | n + 1, k, i :: is => bytes i ++ stream n k is

/-- The key behind the frames. -/
def keyAfter : ℕ → κ → List α → κ
  | _, k, [] => k
  | 0, k, i :: is => keyAfter 0 (c.advance k (bytes i)) is
  | n + 1, k, _ :: is => keyAfter n k is

/-- What the reader of the next frame makes of the bytes. -/
def deciphered (n : ℕ) (k : κ) (raw : List β) : List β := if n = 0 then c.decrypt k raw else raw

variable {c bytes} {n : ℕ} {k : κ} {raw rest : List β} {i : α} {is : List α}

theorem keyAfter_append (xs ys : List α) :
    keyAfter c bytes n k (xs ++ ys) = keyAfter c bytes (n - xs.length) (keyAfter c bytes n k xs) ys := by
  induction xs generalizing n k with
  | nil => rw [List.nil_append, List.length_nil, Nat.sub_zero, keyAfter]
  | cons x xs ih =>
    cases n with
    | zero =>
      rw [List.cons_append, keyAfter, keyAfter, ih, Nat.zero_sub, Nat.zero_sub]
    | succ n =>
      rw [List.cons_append, keyAfter, keyAfter, ih, List.length_cons, Nat.succ_sub_succ]

theorem stream_append (xs ys : List α) :
    stream c bytes n k (xs ++ ys) =
      stream c bytes n k xs ++ stream c bytes (n - xs.length) (keyAfter c bytes n k xs) ys := by
  induction xs generalizing n k with
  | nil => rw [List.nil_append, List.length_nil, Nat.sub_zero, keyAfter, stream, List.nil_append]
  | cons x xs ih =>
    cases n with
    | zero =>
      rw [List.cons_append, stream, stream, keyAfter, ih, Nat.zero_sub, Nat.zero_sub, List.append_assoc]
    | succ n =>
      rw [List.cons_append, stream, stream, keyAfter, ih, List.length_cons, Nat.succ_sub_succ,
        List.append_assoc]

/-- The key is not used before the last frame that goes as it is. -/
theorem keyAfter_plain {xs : List α} (h : xs.length ≤ n) : keyAfter c bytes n k xs = k := by
  induction xs generalizing n with
  | nil => rw [keyAfter]
  | cons x xs ih =>
    cases n with
    | zero => simp at h
    | succ n =>
      rw [keyAfter]
      exact ih (by simpa using h)

/-- One frame. -/
theorem stream_one : stream c bytes n k [i] = if n = 0 then c.encrypt k (bytes i) else bytes i := by
  cases n with
  | zero => simp [stream]
  | succ n => simp [stream]

theorem keyAfter_one : keyAfter c bytes n k [i] = if n = 0 then c.advance k (bytes i) else k := by
  cases n with
  | zero => simp [keyAfter]
  | succ n => simp [keyAfter]

theorem stream_cons :
    stream c bytes n k (i :: is) =
      stream c bytes n k [i] ++ stream c bytes (n - 1) (keyAfter c bytes n k [i]) is :=
  stream_append [i] is

@[simp] theorem length_deciphered : (deciphered c n k raw).length = raw.length := by
  unfold deciphered
  split_ifs
  · exact c.length_decrypt k raw
  · rfl

theorem length_stream_one : (stream c bytes n k [i]).length = (bytes i).length := by
  rw [stream_one]
  split_ifs
  · exact c.length_encrypt k (bytes i)
  · rfl

theorem deciphered_append (more : List β) : deciphered c n k (raw ++ more) =
    deciphered c n k raw ++ deciphered c n (c.advance k (deciphered c n k raw)) more := by
  unfold deciphered
  split_ifs
  · exact c.decrypt_append k raw more
  · rfl

/-- The whole frame is read back. -/
theorem deciphered_stream_one : deciphered c n k (stream c bytes n k [i]) = bytes i := by
  rw [stream_one]
  unfold deciphered
  split_ifs
  · exact c.decrypt_encrypt k (bytes i)
  · rfl

/-- A part of a frame is read as a part of its bytes. -/
theorem deciphered_part (h : raw ++ rest = stream c bytes n k (i :: is)) (hlen : raw.length ≤ (bytes i).length) :
    deciphered c n k raw = (bytes i).take raw.length := by
  rw [stream_cons] at h
  have hraw : stream c bytes n k [i] = raw ++ (stream c bytes n k [i]).drop raw.length := by
    have htake := congrArg (List.take raw.length) h
    rw [List.take_left, List.take_append_of_le_length (by rwa [length_stream_one])] at htake
    conv_lhs => rw [← List.take_append_drop raw.length (stream c bytes n k [i]), ← htake]
  have hall := @deciphered_stream_one _ _ _ c bytes n k i
  rw [hraw, deciphered_append] at hall
  rw [← hall, List.take_left' length_deciphered]

/-- **A whole frame** leaves the stream of those behind it. -/
theorem deciphered_whole (h : raw ++ rest = stream c bytes n k (i :: is)) (hlen : raw.length = (bytes i).length) :
    deciphered c n k raw = bytes i ∧ rest = stream c bytes (n - 1) (keyAfter c bytes n k [i]) is := by
  refine ⟨?_, ?_⟩
  · rw [deciphered_part h (Nat.le_of_eq hlen), hlen, List.take_length]
  · rw [stream_cons] at h
    exact (List.append_inj h (by rw [hlen, length_stream_one])).2

end Binkd.Lib
