import Binkd.Lib.KeyStream

/-!
# The two ends of a cipher

`inChunks` runs a function over a text that comes in pieces, with the key that the piece
before has left; `Autokey.inChunks_encrypt` and `inChunks_decrypt` say that the cuts do
not show.  `Autokey.Related` compares two ciphers whose keys are not of one type: keys in
a relation give the same mask and stay in it, so that one end can undo what the other
has done.
-/

namespace Binkd.Lib

variable {κ κ' β : Type}

/-- A function over the pieces of a text, each with the key that the one before has left. -/
def inChunks (f : List β → κ → List β × κ) : List (List β) → κ → List (List β) × κ
  | [], k => ([], k)
  | buf :: bufs, k =>
    let r := f buf k
    let rs := inChunks f bufs r.2
    (r.1 :: rs.1, rs.2)

namespace Autokey

variable (c : Autokey κ β) {f : List β → κ → List β × κ}

theorem inChunks_encrypt (hf : ∀ buf k, f buf k = (c.encrypt k buf, c.advance k buf)) (bufs : List (List β)) (k : κ) :
    (inChunks f bufs k).1.flatten = c.encrypt k bufs.flatten ∧
    (inChunks f bufs k).2 = c.advance k bufs.flatten := by
  induction bufs generalizing k with
  | nil => exact ⟨rfl, rfl⟩
  | cons buf bufs ih =>
    obtain ⟨hout, hkey⟩ := ih (c.advance k buf)
    rw [inChunks, hf]
    dsimp only
    rw [List.flatten_cons, List.flatten_cons, hout, hkey, c.encrypt_append, c.advance_append]
    exact ⟨rfl, rfl⟩

theorem inChunks_decrypt (hf : ∀ buf k, f buf k = (c.decrypt k buf, c.advance k (c.decrypt k buf)))
    (bufs : List (List β)) (k : κ) :
    (inChunks f bufs k).1.flatten = c.decrypt k bufs.flatten ∧
      (inChunks f bufs k).2 = c.advance k (c.decrypt k bufs.flatten) := by
  induction bufs generalizing k with
  | nil => exact ⟨rfl, rfl⟩
  | cons buf bufs ih =>
    obtain ⟨hout, hkey⟩ := ih (c.advance k (c.decrypt k buf))
    rw [inChunks, hf]
    dsimp only
    rw [List.flatten_cons, List.flatten_cons, hout, hkey, c.decrypt_append, c.advance_append]
    exact ⟨rfl, rfl⟩

/-- Keys in the relation give the same mask, and stay in the relation. -/
structure Related (c : Autokey κ β) (d : Autokey κ' β) (R : κ → κ' → Prop) : Prop where
  mix : ∀ b m, c.mix b m = d.mix b m
  mask : ∀ {k k'}, R k k' → c.mask k = d.mask k'
  next : ∀ {k k'}, R k k' → ∀ b, R (c.next k b) (d.next k' b)

variable {c} {d : Autokey κ' β} {R : κ → κ' → Prop} {k : κ} {k' : κ'}

theorem Related.advance (h : c.Related d R) (hk : R k k') (s : List β) :
    R (c.advance k s) (d.advance k' s) := by
  induction s generalizing k k' with
  | nil => exact hk
  | cons b s ih => exact ih (h.next hk b)

theorem Related.encrypt (h : c.Related d R) (hk : R k k') (s : List β) : c.encrypt k s = d.encrypt k' s := by
  induction s generalizing k k' with
  | nil => rfl
  | cons b s ih => rw [Autokey.encrypt, Autokey.encrypt, h.mask hk, h.mix, ih (h.next hk b)]

/-- What one end has encrypted, the other end decrypts. -/
theorem Related.decrypt_encrypt (h : c.Related d R) (hk : R k k') (s : List β) :
    d.decrypt k' (c.encrypt k s) = s := by
  rw [h.encrypt hk, d.decrypt_encrypt]

end Autokey

end Binkd.Lib
