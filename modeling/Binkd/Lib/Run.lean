import Mathlib.Logic.Basic

/-!
# Runs of a machine that may stop

A machine takes an input and a state to the next state and says whether it goes
on.  `Run` collects the states it goes through when each input is allowed in the
state it meets; the flag of the last step stays with the state.  `Run.invariant`
is the induction over a run, `Run.weaken` forgets conditions on the inputs,
`Run.append` continues a run, and `Run.of_inputs` runs a list of inputs.  A `Traced`
run collects what its steps emit.
-/

namespace Binkd.Lib

variable {ι σ : Type} {next : ι → σ → σ × Bool} {ok ok' : ι → σ → Prop} {s0 s s' : σ} {live : Bool}

inductive Run (next : ι → σ → σ × Bool) (ok : ι → σ → Prop) (s0 : σ) : σ → Bool → Prop
  | start : Run next ok s0 s0 true
  | step {s : σ} (i : ι) : Run next ok s0 s true → ok i s → Run next ok s0 (next i s).1 (next i s).2

/-- What holds at the start and is kept by every allowed step holds in every state. -/
theorem Run.invariant (Inv : σ → Bool → Prop) (start : Inv s0 true)
    (step : ∀ i s, Inv s true → ok i s → Inv (next i s).1 (next i s).2)
    (run : Run next ok s0 s live) : Inv s live := by
  induction run with
  | start => exact start
  | step i _ hok ih => exact step i _ ih hok

theorem Run.weaken (h : ∀ i s, ok i s → ok' i s) (run : Run next ok s0 s live) :
    Run next ok' s0 s live := by
  induction run with
  | start => exact .start
  | step i _ hok ih => exact .step i ih (h i _ hok)

theorem Run.append (run : Run next ok s0 s true) (run' : Run next ok s s' live) :
    Run next ok s0 s' live := by
  induction run' with
  | start => exact run
  | step i _ hok ih => exact .step i ih hok

/-- The state behind a list of inputs. -/
def after (next : ι → σ → σ × Bool) : List ι → σ → σ
  | [], s => s
  | i :: is, s => after next is (next i s).1

/-- Every input of the list is allowed, and the machine goes on. -/
def Allowed (next : ι → σ → σ × Bool) (ok : ι → σ → Prop) : List ι → σ → Prop
  | [], _ => True
  | i :: is, s => ok i s ∧ (next i s).2 = true ∧ Allowed next ok is (next i s).1

instance decidableAllowed [∀ i s, Decidable (ok i s)] :
    ∀ (is : List ι) (s : σ), Decidable (Allowed next ok is s)
  | [], _ => isTrue trivial
  | i :: is, s =>
    have := decidableAllowed is (next i s).1
    inferInstanceAs (Decidable (ok i s ∧ (next i s).2 = true ∧ Allowed next ok is (next i s).1))

theorem Run.of_inputs {is : List ι} {s : σ} (h : Allowed next ok is s) :
    Run next ok s (after next is s) true := by
  induction is generalizing s with
  | nil => exact .start
  | cons i is ih =>
    obtain ⟨hok, hlive, h⟩ := h
    have hstep : Run next ok s (next i s).1 (next i s).2 := .step i .start hok
    rw [hlive] at hstep
    exact hstep.append (ih h)

/-- A run with what its steps emit, in order. -/
inductive Traced {ε : Type} (next : ι → σ → σ × Bool) (emit : ι → σ → List ε) (ok : ι → σ → Prop) (s0 : σ) :
    σ → Bool → List ε → Prop
  | start : Traced next emit ok s0 s0 true []
  | step {s : σ} {trace : List ε} (i : ι) : Traced next emit ok s0 s true trace → ok i s →
      Traced next emit ok s0 (next i s).1 (next i s).2 (trace ++ emit i s)

section
variable {ε : Type} {emit : ι → σ → List ε} {trace : List ε}

/-- Every run has a trace. -/
theorem Run.traced (emit : ι → σ → List ε) (run : Run next ok s0 s live) :
    ∃ trace, Traced next emit ok s0 s live trace := by
  induction run with
  | start => exact ⟨[], .start⟩
  | step i _ hok ih =>
    obtain ⟨trace, htrace⟩ := ih
    exact ⟨_, .step i htrace hok⟩

/-- What holds at the start of a trace and is kept as it grows holds at its end. -/
theorem Traced.invariant (Inv : σ → Bool → List ε → Prop) (start : Inv s0 true [])
    (step : ∀ i s trace, Inv s true trace → ok i s → Inv (next i s).1 (next i s).2 (trace ++ emit i s))
    (run : Traced next emit ok s0 s live trace) : Inv s live trace := by
  induction run with
  | start => exact start
  | step i _ hok ih => exact step i _ _ ih hok

/-- What a list of inputs emits. -/
def traceOf (next : ι → σ → σ × Bool) (emit : ι → σ → List ε) : List ι → σ → List ε
  | [], _ => []
  | i :: is, s => emit i s ++ traceOf next emit is (next i s).1

theorem Traced.inputs {is : List ι} (run : Traced next emit ok s0 s true trace) (h : Allowed next ok is s) :
    Traced next emit ok s0 (after next is s) true (trace ++ traceOf next emit is s) := by
  induction is generalizing s trace with
  | nil =>
    rw [traceOf, List.append_nil]
    exact run
  | cons i is ih =>
    obtain ⟨hok, hlive, h⟩ := h
    have hstep := Traced.step i run hok
    rw [hlive] at hstep
    rw [traceOf, ← List.append_assoc]
    exact ih hstep h

end

end Binkd.Lib
