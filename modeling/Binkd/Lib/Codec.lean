import Mathlib.Data.List.Infix

/-!
# Streaming codecs

A streaming codec is called again and again with some input and some room for
output, and each time takes a part of the input and leaves a piece of output.
What it does is a function of the calls made so far, so the list of these calls,
newest first, stands for its state and any such codec is a `Stepper`.

`fed` and `made` are the input it has taken and the output it has left in a
history of calls.  `Streaming` is the contract of the compressor side: within a
history in which each call went on where the one before stopped, the output
decodes to a prefix of the input.  `Compressing` adds what a caller's loop relies on:
the input is taken until the output is full, and the end comes when it is asked for.
`Inflating` is the contract of the decompressor side, which has to make progress
in each call up to the end of its stream; `Overfed` says that the data go on
behind that end.
-/

namespace Binkd.Lib

/-- One call: the input offered, the room for output, and the request to finish. -/
structure Call (β : Type) where
  src : List β
  room : Nat
  finish : Bool
deriving DecidableEq

/-- What a call did: how much input it took, the output, and the return code. -/
structure Answer (β : Type) where
  used : Nat
  out : List β
  rc : Int
deriving DecidableEq

/-- A codec by its history of calls, newest first. -/
abbrev Stepper (β : Type) := List (Call β) → Call β → Answer β

namespace Stepper

variable {β : Type} (c : Stepper β)

/-- The input taken in a history. -/
def fed : List (Call β) → List β
  | [] => []
  | k :: h => fed h ++ k.src.take (c h k).used

/-- The output made in a history. -/
def made : List (Call β) → List β
  | [] => []
  | k :: h => made h ++ (c h k).out

@[simp] theorem fed_nil : c.fed [] = [] := rfl
@[simp] theorem made_nil : c.made [] = [] := rfl

@[simp] theorem fed_cons (k : Call β) (h : List (Call β)) :
    c.fed (k :: h) = c.fed h ++ k.src.take (c h k).used := rfl

@[simp] theorem made_cons (k : Call β) (h : List (Call β)) :
    c.made (k :: h) = c.made h ++ (c h k).out := rfl

/-- The streaming contract with respect to a decoder. -/
structure Streaming (decode : List β → List β) : Prop where
  used_le : ∀ h k, (c h k).used ≤ k.src.length
  out_le : ∀ h k, (c h k).out.length ≤ k.room
  /-- what has come out so far decodes to a prefix of what has gone in -/
  decode_made : ∀ h, decode (c.made h) <+: c.fed h

/-- The last call has reported the end of the stream, or that a dictionary is needed. -/
def Ended : List (Call β) → Prop
  | [] => False
  | k :: h => 0 < (c h k).rc

/-- The streaming contract of a compressor: what it has not ended takes its input until its output
is full, and it ends when it is asked to and has taken all. -/
structure Compressing (decode : List β → List β) : Prop extends c.Streaming decode where
  rc_le : ∀ h k, (c h k).rc ≤ 1
  takes : ∀ h k, ¬ c.Ended h → (c h k).out.length < k.room → (c h k).used = k.src.length
  ends : ∀ h k, (c h k).rc = 1 → k.finish = true ∧ (c h k).used = k.src.length

/-! ### Decompressors -/

/-- Behind the end every call repeats the report, and takes and leaves nothing. -/
def Repeats : Prop :=
  ∀ h k, c.Ended h → 0 < (c h k).rc ∧ (c h k).used = 0 ∧ (c h k).out = []

/-- Behind the end every call is an error. -/
def Refuses : Prop :=
  ∀ h k, c.Ended h → (c h k).rc < 0

/-- The streaming contract of a decompressor. -/
structure Inflating (ratio : ℕ) : Prop where
  used_le : ∀ h k, (c h k).used ≤ k.src.length
  /-- before the end a call that is no error takes input or leaves output -/
  progress : ∀ h k, ¬ c.Ended h → k.src ≠ [] → 0 < k.room → 0 ≤ (c h k).rc →
    0 < (c h k).used ∨ (c h k).out ≠ []
  /-- the output is bounded by the input -/
  made_le : ∀ h, (c.made h).length ≤ ratio * ((c.fed h).length + 1)
  /-- zlib repeats the report of the end, bzip2 refuses -/
  behind : c.Repeats ∨ c.Refuses

/-- Called with the data again and again, the decompressor reports the end of the stream with
data left over; where nothing can be written, it has left no output before. -/
inductive Overfed (room : ℕ) (writable : Prop) : List (Call β) → List β → Prop
  | ends {h : List (Call β)} {buf : List β} (hend : 0 < (c h ⟨buf, room, false⟩).rc)
      (hout : (c h ⟨buf, room, false⟩).out = [] ∨ writable)
      (hleft : buf.drop (c h ⟨buf, room, false⟩).used ≠ []) : Overfed room writable h buf
  | goes {h : List (Call β)} {buf : List β} (hrun : (c h ⟨buf, room, false⟩).rc = 0)
      (hout : (c h ⟨buf, room, false⟩).out = [] ∨ writable)
      (hrest : Overfed room writable (⟨buf, room, false⟩ :: h) (buf.drop (c h ⟨buf, room, false⟩).used)) :
      Overfed room writable h buf

variable {c}

theorem Overfed.nonempty {room : ℕ} {writable : Prop} {h : List (Call β)} {buf : List β}
    (hover : c.Overfed room writable h buf) : buf ≠ [] := by
  intro hnil
  induction hover with
  | ends _ _ hleft => simp [hnil] at hleft
  | goes _ _ _ ih => exact ih (by rw [hnil, List.drop_nil])

/-- Behind the end all that is offered is left over. -/
theorem Repeats.overfed (hrep : c.Repeats) {room : ℕ} {writable : Prop} {h : List (Call β)} {buf : List β}
    (hended : c.Ended h) (hbuf : buf ≠ []) : c.Overfed room writable h buf := by
  obtain ⟨hrc, hused, hout⟩ := hrep h ⟨buf, room, false⟩ hended
  exact .ends hrc (.inl hout) (by rwa [hused])

/-- Being overfed is kept by the next call. -/
theorem Overfed.next (hrep : c.Repeats) {room : ℕ} {writable : Prop} {h : List (Call β)} {buf : List β}
    (hover : c.Overfed room writable h buf) :
    0 ≤ (c h ⟨buf, room, false⟩).rc ∧ ((c h ⟨buf, room, false⟩).out = [] ∨ writable) ∧
      c.Overfed room writable (⟨buf, room, false⟩ :: h) (buf.drop (c h ⟨buf, room, false⟩).used) := by
  cases hover with
  | ends hend hout hleft => exact ⟨Int.le_of_lt hend, hout, hrep.overfed hend hleft⟩
  | goes hrun hout hrest => exact ⟨Int.le_of_eq hrun.symm, hout, hrest⟩

end Stepper

end Binkd.Lib
