import Mathlib.Data.List.Basic

/-!
# Ciphers whose key advances on the plain text

An `Autokey` cipher masks each symbol with a value read off its key and then
advances the key by the *plain* symbol, so both sides walk through the same
keys although one of them only ever sees the masked text.

`decrypt_encrypt` is the inversion, with the two keys equal afterwards, and
`encrypt_append`, `decrypt_append` say that neither side notices how the text
is cut into pieces.  `Encrypts` and `Decrypts` are the two ends of a connection: text
goes through the cipher into a buffer that is emptied from the front.
-/

namespace Binkd.Lib

/-- A cipher on symbols `β` with keys `κ`: `mix` applies a mask and undoes it. -/
structure Autokey (κ β : Type) where
  mask : κ → β
  mix : β → β → β
  mix_mix : ∀ b m, mix (mix b m) m = b
  next : κ → β → κ

namespace Autokey

variable {κ β : Type} (c : Autokey κ β)

/-- The key after the plain text `s`. -/
def advance (k : κ) (s : List β) : κ := s.foldl c.next k

def encrypt : κ → List β → List β
  | _, [] => []
  | k, b :: s => c.mix b (c.mask k) :: encrypt (c.next k b) s

def decrypt : κ → List β → List β
  | _, [] => []
  | k, b :: s => c.mix b (c.mask k) :: decrypt (c.next k (c.mix b (c.mask k))) s

@[simp] theorem advance_nil (k : κ) : c.advance k [] = k := rfl

@[simp] theorem advance_cons (k : κ) (b : β) (s : List β) :
    c.advance k (b :: s) = c.advance (c.next k b) s := rfl

theorem advance_append (k : κ) (s t : List β) :
    c.advance k (s ++ t) = c.advance (c.advance k s) t := List.foldl_append

@[simp] theorem length_encrypt (k : κ) (s : List β) : (c.encrypt k s).length = s.length := by
  induction s generalizing k with
  | nil => rfl
  | cons b s ih => simp [encrypt, ih]

@[simp] theorem length_decrypt (k : κ) (s : List β) : (c.decrypt k s).length = s.length := by
  induction s generalizing k with
  | nil => rfl
  | cons b s ih => simp [decrypt, ih]

theorem encrypt_append (k : κ) (s t : List β) :
    c.encrypt k (s ++ t) = c.encrypt k s ++ c.encrypt (c.advance k s) t := by
  induction s generalizing k with
  | nil => rfl
  | cons b s ih => simp [encrypt, ih]

/-- **Inversion**: the plain text comes back. -/
theorem decrypt_encrypt (k : κ) (s : List β) : c.decrypt k (c.encrypt k s) = s := by
  induction s generalizing k with
  | nil => rfl
  | cons b s ih => simp [encrypt, decrypt, c.mix_mix, ih]

/-- Decryption in two pieces, the second with the key left by the first. -/
theorem decrypt_append (k : κ) (s t : List β) :
    c.decrypt k (s ++ t) = c.decrypt k s ++ c.decrypt (c.advance k (c.decrypt k s)) t := by
  induction s generalizing k with
  | nil => rfl
  | cons b s ih => simp [decrypt, ih]

/-! ### The buffers of the two ends -/

/-- What is taken from the front of a buffer can be taken at once. -/
theorem drop_drop_append (n m : ℕ) (xs ys : List β) :
    ∃ k, ((xs.drop n) ++ ys).drop m = (xs ++ ys).drop k := by
  refine ⟨min n xs.length + m, ?_⟩
  rw [← List.drop_drop, List.drop_append_of_le_length (Nat.min_le_right n xs.length)]
  have hmin : xs.drop (min n xs.length) = xs.drop n := by
    rcases Nat.le_total n xs.length with h | h
    · rw [Nat.min_eq_left h]
    · rw [Nat.min_eq_right h, List.drop_of_length_le h, List.drop_length]
  rw [hmin]

/-- `text` has been encrypted into the buffer. -/
def Encrypts (text : List β) (k k' : κ) (buf buf' : List β) : Prop :=
  k' = c.advance k text ∧ ∃ n, buf' = (buf ++ c.encrypt k text).drop n

/-- `bytes` have been decrypted into the buffer. -/
def Decrypts (bytes : List β) (k k' : κ) (buf buf' : List β) : Prop :=
  k' = c.advance k (c.decrypt k bytes) ∧ ∃ n, buf' = (buf ++ c.decrypt k bytes).drop n

variable {c} {k k' k'' : κ} {buf buf' buf'' : List β}

theorem Encrypts.taken (k : κ) (buf : List β) (n : ℕ) : c.Encrypts [] k k buf (buf.drop n) :=
  ⟨rfl, n, by rw [encrypt, List.append_nil]⟩

theorem Encrypts.trans {s t : List β} (h : c.Encrypts s k k' buf buf')
    (h' : c.Encrypts t k' k'' buf' buf'') : c.Encrypts (s ++ t) k k'' buf buf'' := by
  obtain ⟨rfl, n, rfl⟩ := h
  obtain ⟨rfl, m, rfl⟩ := h'
  obtain ⟨j, hj⟩ := drop_drop_append n m (buf ++ c.encrypt k s) (c.encrypt (c.advance k s) t)
  refine ⟨(c.advance_append k s t).symm, j, ?_⟩
  rw [hj, encrypt_append, List.append_assoc]

theorem Decrypts.taken (k : κ) (buf : List β) (n : ℕ) : c.Decrypts [] k k buf (buf.drop n) :=
  ⟨rfl, n, by rw [decrypt, List.append_nil]⟩

theorem Decrypts.trans {s t : List β} (h : c.Decrypts s k k' buf buf')
    (h' : c.Decrypts t k' k'' buf' buf'') : c.Decrypts (s ++ t) k k'' buf buf'' := by
  obtain ⟨rfl, n, rfl⟩ := h
  obtain ⟨rfl, m, rfl⟩ := h'
  obtain ⟨j, hj⟩ := drop_drop_append n m (buf ++ c.decrypt k s)
    (c.decrypt (c.advance k (c.decrypt k s)) t)
  refine ⟨?_, j, ?_⟩
  · rw [decrypt_append, advance_append]
  · rw [hj, decrypt_append, List.append_assoc]

end Autokey

end Binkd.Lib
