import Mathlib.Data.List.Basic

/-!
# Copying in a buffer

`memcpy` and `memmove` in a buffer of known length, `none` where they would write or
read behind it, and the replacement of a part of the buffer by another of any length.
-/

namespace Binkd.Lib

variable {α : Type*} {pre old new post : List α}

/-- `memcpy` into a buffer: `none` where it writes behind the end. -/
def memcpy (buf : List α) (dst : ℕ) (src : List α) : Option (List α) :=
  if dst + src.length ≤ buf.length then some (buf.take dst ++ src ++ buf.drop (dst + src.length)) else none

/-- `memmove` inside a buffer. -/
def memmove (buf : List α) (dst src n : ℕ) : Option (List α) :=
  if src + n ≤ buf.length then memcpy buf dst ((buf.drop src).take n) else none

theorem memcpy_length {buf src buf' : List α} {dst : ℕ} (h : memcpy buf dst src = some buf') :
    buf'.length = buf.length := by
  unfold memcpy at h
  split_ifs at h with hle
  obtain rfl := Option.some.inj h
  rw [List.length_append, List.length_append, List.length_take, List.length_drop]
  omega

theorem memcpy_nil {buf : List α} {dst : ℕ} (h : dst ≤ buf.length) : memcpy buf dst [] = some buf := by
  unfold memcpy
  rw [if_pos (by simpa using h), List.append_nil, List.length_nil, Nat.add_zero, List.take_append_drop]

theorem memmove_length {buf buf' : List α} {dst src n : ℕ} (h : memmove buf dst src n = some buf') :
    buf'.length = buf.length := by
  unfold memmove at h
  split_ifs at h
  exact memcpy_length h

/-- What is written has the length of what stood there. -/
theorem memcpy_at (hlen : new.length = old.length) :
    memcpy (pre ++ old ++ post) pre.length new = some (pre ++ new ++ post) := by
  have htake : (pre ++ old ++ post).take pre.length = pre := by rw [List.append_assoc, List.take_left]
  have hdrop : (pre ++ old ++ post).drop (pre.length + new.length) = post := by
    rw [hlen, ← List.length_append, List.drop_left]
  unfold memcpy
  rw [if_pos (by rw [List.length_append, List.length_append]; omega), htake, hdrop]

/-- Replacing `old` by `new`: the rest is moved, and `new` is copied into the gap. -/
theorem memmove_memcpy {rest : List α} (hroom : pre.length + new.length + rest.length ≤
    (pre ++ old ++ (rest ++ post)).length) :
    ∃ post', (memmove (pre ++ old ++ (rest ++ post)) (pre.length + new.length) (pre.length + old.length)
      rest.length).bind (fun buf => memcpy buf pre.length new) = some (pre ++ new ++
      (rest ++ post')) := by
  have hdrop : ((pre ++ old ++ (rest ++ post)).drop (pre.length + old.length)).take rest.length = rest := by
    rw [← List.length_append, List.drop_left, List.take_left]
  unfold memmove
  rw [if_pos (by simp only [List.length_append]; omega), hdrop]
  generalize hbuf : pre ++ old ++ (rest ++ post) = buf at *
  have hpre : buf.take pre.length = pre := by rw [← hbuf, List.append_assoc, List.take_left]
  have hlen : (buf.take (pre.length + new.length)).length = pre.length + new.length := by
    rw [List.length_take]
    omega
  rw [memcpy, if_pos hroom, Option.bind_some]
  refine ⟨buf.drop (pre.length + new.length + rest.length), ?_⟩
  have htake : (buf.take (pre.length + new.length) ++ rest ++ buf.drop (pre.length + new.length + rest.length)).take
      pre.length = pre := by
    rw [List.append_assoc, List.take_append_of_le_length (by omega), List.take_take,
      Nat.min_eq_left (by omega), hpre]
  have hrest : (buf.take (pre.length + new.length) ++ rest ++ buf.drop (pre.length + new.length + rest.length)).drop
      (pre.length + new.length) = rest ++ buf.drop (pre.length + new.length + rest.length) := by
    rw [List.append_assoc, List.drop_append, hlen, Nat.sub_self, List.drop_eq_nil_of_le (by omega)]
    rfl
  rw [memcpy, if_pos, htake, hrest]
  rw [List.length_append, List.length_append, hlen]
  omega

end Binkd.Lib
