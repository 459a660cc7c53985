import Binkd.Lib.Codec

/-!
# Packing one stream

A caller packs one stream if it offers again what was left over, in front of what is new,
and offers nothing only with the request to finish; once it has asked, it offers what is
left over and asks again (`Proper`).  `Packing` is the contract of a compressor within such
a history: it takes its input until the output is full, and a request to finish leads to
the end of the stream, whose output decodes to the input.
-/

namespace Binkd.Lib

namespace Stepper

variable {β : Type} (c : Stepper β)

/-- The input that the last call has left over. -/
def left : List (Call β) → List β
  | [] => []
  | k :: h => k.src.drop (c h k).used

/-- The last call has asked to finish. -/
def Asked : List (Call β) → Prop
  | [] => False
  | k :: _ => k.finish = true

/-- The calls of a caller that packs one stream, not beyond its end. -/
inductive Proper : List (Call β) → Prop
  | nil : Proper []
  | cons {h : List (Call β)} {k : Call β} (hh : Proper h) (hrunning : ¬ c.Ended h) (hroom : 0 < k.room)
      (hsrc : k.src ≠ [] ∨ k.finish = true) (hleft : c.left h <+: k.src)
      (hasked : Asked h → k.finish = true ∧ k.src = c.left h) : Proper (k :: h)

/-- The contract of a compressor that packs one stream. -/
structure Packing (decode : List β → List β) (ratio : ℕ) : Prop where
  used_le : ∀ h k, c.Proper (k :: h) → (c h k).used ≤ k.src.length
  out_le : ∀ h k, c.Proper (k :: h) → (c h k).out.length ≤ k.room
  rc_cases : ∀ h k, c.Proper (k :: h) → (c h k).rc = 0 ∨ (c h k).rc = 1
  takes : ∀ h k, c.Proper (k :: h) → (c h k).out.length < k.room → (c h k).used = k.src.length
  ends : ∀ h k, c.Proper (k :: h) → (c h k).rc = 1 → k.finish = true ∧ (c h k).used = k.src.length
  /-- where there is room behind the output, a request to finish has come to the end -/
  finishes : ∀ h k, c.Proper (k :: h) → k.finish = true → (c h k).out.length < k.room → (c h k).rc = 1
  decode_made : ∀ h k, c.Proper (k :: h) → (c h k).rc = 1 → decode (c.made (k :: h)) = c.fed (k :: h)
  /-- the output is bounded by the input -/
  made_le : ∀ h, c.Proper h → (c.made h).length ≤ ratio * ((c.fed h).length + 1)

variable {c} {decode : List β → List β} {ratio : ℕ} {h : List (Call β)} {k : Call β}

/-- What is offered is taken or left over. -/
theorem fed_left (h : List (Call β)) (k : Call β) : c.fed (k :: h) ++ c.left (k :: h) = c.fed h ++ k.src := by
  rw [fed_cons, left, List.append_assoc, List.take_append_drop]

theorem Packing.left_of_room (hp : c.Packing decode ratio) (hk : c.Proper (k :: h))
    (hroom : (c h k).out.length < k.room) : c.left (k :: h) = [] := by
  rw [left, hp.takes h k hk hroom, List.drop_length]

theorem Packing.left_of_end (hp : c.Packing decode ratio) (hk : c.Proper (k :: h)) (hrc : (c h k).rc = 1) :
    c.left (k :: h) = [] := by
  rw [left, (hp.ends h k hk hrc).2, List.drop_length]

theorem not_ended (hrc : (c h k).rc = 0) : ¬ c.Ended (k :: h) := by
  intro hend
  have hpos : 0 < (c h k).rc := hend
  omega

theorem ended_cons (hrc : (c h k).rc = 1) : c.Ended (k :: h) := by
  have hpos : 0 < (c h k).rc := by omega
  exact hpos

/-- A stream that has ended decodes to what was put in. -/
theorem Packing.decode_ended (hp : c.Packing decode ratio) (hh : c.Proper h) (hend : c.Ended h) :
    decode (c.made h) = c.fed h := by
  cases h with
  | nil => exact hend.elim
  | cons k h =>
    refine hp.decode_made h k hh ((hp.rc_cases h k hh).resolve_left fun hrc => ?_)
    exact not_ended hrc hend

end Stepper

end Binkd.Lib
