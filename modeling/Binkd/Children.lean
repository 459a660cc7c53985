import Mathlib.Data.Int.Order.Basic
import Mathlib.Logic.Relation
import Mathlib.Tactic.SplitIfs

/-!
# The children of the managers (`do_client`, `do_server`, `chld`)

The client manager forks a child for each call, the server manager one for each connection.
They count their children in `n_clients` and `n_servers`, learn from `SIGCHLD` that a child has
ended, and collect the ended ones in `check_child`.  (The client manager is itself a child of the
server manager, not counted by it; the server manager ends when that child does.)  A `Manager` is
such a process between two statements; children end at any moment, and a signal that comes while
signals are blocked waits, and several that wait are one (`ManagerStep`).

No ended child is forgotten, the counter is right at every moment, it keeps its limit, and
`clientmgr` leaves in poll mode only when no child is running (`children_counted`).
-/

namespace Binkd

/-- The place between two statements. -/
inductive ManagerPc
  /-- signals are blocked, a child may be started -/
  | top
  /-- the child has been counted, `branch` comes next -/
  | counted
  /-- signals come in, the manager sleeps or waits -/
  | idle
  /-- `check_child` has found `got_sigchld` set -/
  | tested
  /-- `check_child` has blocked the signals -/
  | entered
  /-- the loop over `waitpid` -/
  | reaping
  /-- there is no ended child any more -/
  | reaped
  /-- `q_not_empty` is asked, with the signals blocked -/
  | polling
  | gone
deriving DecidableEq

/-- A manager with its children. -/
structure Manager where
  pc : ManagerPc := .top
  /-- `n_clients` or `n_servers` -/
  counter : Int := 0
  gotSigchld : ℕ := 0
  /-- children that run, and children that have ended and not been waited for -/
  running : ℕ := 0
  ended : ℕ := 0
  blocked : Bool := true
  /-- a `SIGCHLD` waits -/
  pending : Bool := false
deriving DecidableEq

/-- `SIGCHLD` comes in: the handler counts it, unless it has to wait. -/
def Manager.signal (m : Manager) : Manager :=
  if m.blocked then { m with pending := true } else { m with gotSigchld := m.gotSigchld + 1 }

/-- `unblocksig`: the signal that waits comes in. -/
def Manager.unblocksig (m : Manager) : Manager :=
  if m.pending then { m with blocked := false, pending := false, gotSigchld := m.gotSigchld + 1 }
  else { m with blocked := false }

@[simp] theorem Manager.signal_pc (m : Manager) : m.signal.pc = m.pc := by
  unfold signal
  split_ifs <;> rfl

@[simp] theorem Manager.signal_counter (m : Manager) : m.signal.counter = m.counter := by
  unfold signal
  split_ifs <;> rfl

@[simp] theorem Manager.signal_running (m : Manager) : m.signal.running = m.running := by
  unfold signal
  split_ifs <;> rfl

@[simp] theorem Manager.signal_ended (m : Manager) : m.signal.ended = m.ended := by
  unfold signal
  split_ifs <;> rfl

@[simp] theorem Manager.signal_blocked (m : Manager) : m.signal.blocked = m.blocked := by
  unfold signal
  split_ifs <;> rfl

/-- The signal is known or waits. -/
theorem Manager.signal_known (m : Manager) : 0 < m.signal.gotSigchld ∨ m.signal.pending = true := by
  unfold signal
  split_ifs
  · exact .inr rfl
  · exact .inl (Nat.succ_pos _)

theorem Manager.signal_pending (m : Manager) (hblocked : m.blocked = false) : m.signal.pending = m.pending := by
  unfold signal
  rw [if_neg (by simp [hblocked])]

@[simp] theorem Manager.unblocksig_pc (m : Manager) : m.unblocksig.pc = m.pc := by
  unfold unblocksig
  split_ifs <;> rfl

@[simp] theorem Manager.unblocksig_counter (m : Manager) : m.unblocksig.counter = m.counter := by
  unfold unblocksig
  split_ifs <;> rfl

@[simp] theorem Manager.unblocksig_running (m : Manager) : m.unblocksig.running = m.running := by
  unfold unblocksig
  split_ifs <;> rfl

@[simp] theorem Manager.unblocksig_ended (m : Manager) : m.unblocksig.ended = m.ended := by
  unfold unblocksig
  split_ifs <;> rfl

@[simp] theorem Manager.unblocksig_blocked (m : Manager) : m.unblocksig.blocked = false := by
  unfold unblocksig
  split_ifs <;> rfl

@[simp] theorem Manager.unblocksig_pending (m : Manager) : m.unblocksig.pending = false := by
  unfold unblocksig
  split_ifs with h
  · rfl
  · simpa using h

/-- What was known is known, and what waited is known, too. -/
theorem Manager.unblocksig_known (m : Manager) (h : 0 < m.gotSigchld ∨ m.pending = true) :
    0 < m.unblocksig.gotSigchld := by
  unfold unblocksig
  split_ifs with hpending
  · exact Nat.succ_pos _
  · exact h.resolve_right hpending

/-- What can happen next.  `limit` is `max_clients`, as long as no new config changes it, and `none` for
the server manager; `pollFlag` is the option of the client manager. -/
inductive ManagerStep (limit : Option Int) (pollFlag : Bool) : Manager → Manager → Prop
  /-- a child ends, at any moment -/
  | ends (m : Manager) (h : 0 < m.running) :
      ManagerStep limit pollFlag m
        (Manager.signal { m with running := m.running - 1, ended := m.ended + 1 })
  | count (m : Manager) (hpc : m.pc = .top) (hlimit : ∀ n ∈ limit, m.counter < n) :
      ManagerStep limit pollFlag m { m with pc := .counted, counter := m.counter + 1 }
  | branch (m : Manager) (hpc : m.pc = .counted) :
      ManagerStep limit pollFlag m { m with pc := .top, running := m.running + 1 }
  /-- `fork` has failed -/
  | noBranch (m : Manager) (hpc : m.pc = .counted) :
      ManagerStep limit pollFlag m { m with pc := .top, counter := m.counter - 1 }
  | unblock (m : Manager) (hpc : m.pc = .top) :
      ManagerStep limit pollFlag m (Manager.unblocksig { m with pc := .idle })
  | block (m : Manager) (hpc : m.pc = .idle) :
      ManagerStep limit pollFlag m { m with pc := .top, blocked := true }
  /-- `check_child` -/
  | test (m : Manager) (hpc : m.pc = .idle) (hgot : m.gotSigchld ≠ 0) :
      ManagerStep limit pollFlag m { m with pc := .tested }
  | enter (m : Manager) (hpc : m.pc = .tested) :
      ManagerStep limit pollFlag m { m with pc := .entered, blocked := true }
  | clear (m : Manager) (hpc : m.pc = .entered) :
      ManagerStep limit pollFlag m { m with pc := .reaping, gotSigchld := 0 }
  | reap (m : Manager) (hpc : m.pc = .reaping) (hended : 0 < m.ended) :
      ManagerStep limit pollFlag m { m with ended := m.ended - 1, counter := m.counter - 1 }
  | reaped (m : Manager) (hpc : m.pc = .reaping) (hended : m.ended = 0) :
      ManagerStep limit pollFlag m { m with pc := .reaped }
  | leave (m : Manager) (hpc : m.pc = .reaped) :
      ManagerStep limit pollFlag m (Manager.unblocksig { m with pc := .idle })
  /-- the client manager in poll mode looks whether there is something left -/
  | poll (m : Manager) (hpc : m.pc = .idle) (hpoll : pollFlag = true) (hnone : m.counter ≤ 0) :
      ManagerStep limit pollFlag m { m with pc := .polling, blocked := true }
  | more (m : Manager) (hpc : m.pc = .polling) :
      ManagerStep limit pollFlag m (Manager.unblocksig { m with pc := .idle })
  | quit (m : Manager) (hpc : m.pc = .polling) : ManagerStep limit pollFlag m { m with pc := .gone }
  /-- a `SIGCHLD` of no ended child: of one that has been collected before its signal came in, of a
  stopped one -/
  | stray (m : Manager) : ManagerStep limit pollFlag m m.signal

variable {limit : Option Int} {pollFlag : Bool} {m m' : Manager}

/-- The child that has been counted and not been started. -/
def Manager.ahead (m : Manager) : Int := if m.pc = .counted then 1 else 0

/-- What holds between any two statements. -/
structure ManagerInv (limit : Option Int) (m : Manager) : Prop where
  counter : m.counter = m.running + m.ended + m.ahead
  limit : ∀ n ∈ limit, 0 ≤ n → m.counter ≤ n
  /-- signals come in only where the manager sleeps or waits -/
  blocked : m.blocked = false ↔ m.pc = .idle ∨ m.pc = .tested
  pending : m.blocked = false → m.pending = false
  /-- an ended child has left its mark, or is about to be collected -/
  known : 0 < m.ended → 0 < m.gotSigchld ∨ m.pending = true ∨ m.pc = .reaping
  /-- nobody asks whether to go while a child is there -/
  alone : m.pc = .polling ∨ m.pc = .gone → m.running = 0 ∧ m.ended = 0

theorem ManagerInv.init : ManagerInv limit {} where
  counter := rfl
  limit := fun _ _ h => h
  blocked := by decide
  pending := by decide
  known := by decide
  alone := by decide

/-- After a signal every ended child is known, so only the rest is to be shown before it. -/
theorem ManagerInv.ofSignal (hcounter : m.counter = m.running + m.ended + m.ahead)
    (hlimit : ∀ n ∈ limit, 0 ≤ n → m.counter ≤ n)
    (hblocked : m.blocked = false ↔ m.pc = .idle ∨ m.pc = .tested)
    (hpending : m.blocked = false → m.pending = false)
    (halone : m.pc = .polling ∨ m.pc = .gone → m.running = 0 ∧ m.ended = 0) : ManagerInv limit m.signal where
  counter := by
    unfold Manager.ahead at hcounter ⊢
    rwa [Manager.signal_counter, Manager.signal_running, Manager.signal_ended, Manager.signal_pc]
  limit := by
    rwa [Manager.signal_counter]
  blocked := by
    rwa [Manager.signal_blocked, Manager.signal_pc]
  pending := by
    intro h
    rw [Manager.signal_blocked] at h
    rw [Manager.signal_pending _ h]
    exact hpending h
  known := fun _ => (Manager.signal_known _).imp_right .inl
  alone := by
    rwa [Manager.signal_pc, Manager.signal_running, Manager.signal_ended]

/-- A child ends. -/
theorem ManagerInv.ends (h : ManagerInv limit m) (hrunning : 0 < m.running) :
    ManagerInv limit (Manager.signal { m with running := m.running - 1, ended := m.ended + 1 }) := by
  refine .ofSignal ?_ h.limit h.blocked h.pending fun hpc => ?_
  · have hcounter := h.counter
    unfold Manager.ahead at hcounter ⊢
    dsimp only
    omega
  · have := (h.alone hpc).1
    omega

/-- The signals come in again, where nothing but what is known or waits has happened. -/
theorem ManagerInv.unblock (h : ManagerInv limit m) (hahead : m.pc ≠ .counted) (hreaping : m.pc ≠ .reaping) :
    ManagerInv limit (Manager.unblocksig { m with pc := .idle }) where
  counter := by
    have hcounter := h.counter
    simp only [Manager.ahead, if_neg hahead] at hcounter
    simp only [Manager.ahead, Manager.unblocksig_pc, Manager.unblocksig_counter, Manager.unblocksig_running,
      Manager.unblocksig_ended, reduceCtorEq, if_false]
    exact hcounter
  limit := by
    rw [Manager.unblocksig_counter]
    exact h.limit
  blocked := by simp
  pending := fun _ => Manager.unblocksig_pending _
  known := by
    intro hended
    rw [Manager.unblocksig_ended] at hended
    refine .inl (Manager.unblocksig_known _ ?_)
    rcases h.known hended with hgot | hpending | hpc
    · exact .inl hgot
    · exact .inr hpending
    · exact absurd hpc hreaping
  alone := by simp

/-- **One step** keeps the invariant. -/
theorem ManagerInv.step (h : ManagerInv limit m) (hstep : ManagerStep limit pollFlag m m') :
    ManagerInv limit m' := by
  have hcounter := h.counter
  unfold Manager.ahead at hcounter
  cases hstep with
  | ends hrunning => exact h.ends hrunning
  | count hpc hlimit =>
    rw [hpc] at hcounter
    refine ⟨?_, fun n hn _ => hlimit n hn, ?_, h.pending, fun hended => ?_, by simp⟩
    · simp [Manager.ahead, hcounter]
    · simpa [hpc] using h.blocked
    · simpa [hpc] using h.known hended
  | branch hpc =>
    rw [hpc] at hcounter
    refine ⟨?_, h.limit, ?_, h.pending, fun hended => ?_, by simp⟩
    · simp only [Manager.ahead, if_true, reduceCtorEq, if_false] at hcounter ⊢
      omega
    · simpa [hpc] using h.blocked
    · simpa [hpc] using h.known hended
  | noBranch hpc =>
    rw [hpc] at hcounter
    refine ⟨?_, fun n hn hzero => ?_, ?_, h.pending, fun hended => ?_, by simp⟩
    · simp only [Manager.ahead, if_true, reduceCtorEq, if_false] at hcounter ⊢
      omega
    · have := h.limit n hn hzero
      dsimp only
      omega
    · simpa [hpc] using h.blocked
    · simpa [hpc] using h.known hended
  | unblock hpc => exact h.unblock (by simp [hpc]) (by simp [hpc])
  | block hpc =>
    rw [hpc] at hcounter
    refine ⟨hcounter, h.limit, by simp, by simp, fun hended => ?_, by simp⟩
    simpa [hpc] using h.known hended
  | test hpc hgot =>
    rw [hpc] at hcounter
    refine ⟨hcounter, h.limit, ?_, h.pending, fun _ => .inl (Nat.pos_of_ne_zero hgot), by simp⟩
    simpa [hpc] using h.blocked
  | enter hpc =>
    rw [hpc] at hcounter
    refine ⟨hcounter, h.limit, by simp, by simp, fun hended => ?_, by simp⟩
    simpa [hpc] using h.known hended
  | clear hpc =>
    rw [hpc] at hcounter
    refine ⟨hcounter, h.limit, ?_, h.pending, fun _ => .inr (.inr rfl), by simp⟩
    simpa [hpc] using h.blocked
  | reap hpc hended =>
    rw [hpc] at hcounter
    refine ⟨?_, fun n hn hzero => ?_, h.blocked, h.pending, fun _ => .inr (.inr hpc), by simp [hpc]⟩
    · simp only [Manager.ahead, hpc, reduceCtorEq, if_false] at hcounter ⊢
      omega
    · have := h.limit n hn hzero
      dsimp only
      omega
  | reaped hpc hended =>
    rw [hpc] at hcounter
    refine ⟨hcounter, h.limit, ?_, h.pending, fun hpos => absurd hended (Nat.ne_of_gt hpos), by simp⟩
    simpa [hpc] using h.blocked
  | leave hpc => exact h.unblock (by simp [hpc]) (by simp [hpc])
  | poll hpc hpoll hnone =>
    rw [hpc] at hcounter
    refine ⟨hcounter, h.limit, by simp, by simp, fun hended => ?_, fun _ => ?_⟩
    · simpa [hpc] using h.known hended
    · simp only [reduceCtorEq, if_false] at hcounter
      dsimp only
      omega
  | more hpc => exact h.unblock (by simp [hpc]) (by simp [hpc])
  | quit hpc =>
    rw [hpc] at hcounter
    refine ⟨hcounter, h.limit, ?_, h.pending, fun hended => ?_, fun _ => h.alone (.inl hpc)⟩
    · simpa [hpc] using h.blocked
    · simpa [hpc] using h.known hended
  | stray => exact .ofSignal h.counter h.limit h.blocked h.pending h.alone

/-- **The children are counted**: whatever order things happen in, the counter of a manager is the number
of its children that run or have ended without being collected, and of the one about to be
started; it keeps its limit; an ended child is about to be collected or its signal is known or
waits, so where `check_child` has nothing to do no ended child is left; and a manager that goes in
poll mode leaves no child behind. -/
theorem children_counted (limit : Option Int) (pollFlag : Bool) (m : Manager)
    (run : Relation.ReflTransGen (ManagerStep limit pollFlag) {} m) :
    m.counter = m.running + m.ended + m.ahead ∧
    (∀ n ∈ limit, 0 ≤ n → m.counter ≤ n) ∧
    (0 < m.ended → 0 < m.gotSigchld ∨ m.pending = true ∨ m.pc = .reaping) ∧
    (m.pc = .idle → m.gotSigchld = 0 → m.ended = 0) ∧
    (m.pc = .gone → m.running = 0 ∧ m.ended = 0) := by
  have hinv : ManagerInv limit m := by
    induction run with
    | refl => exact .init
    | tail _ hstep ih => exact ih.step hstep
  refine ⟨hinv.counter, hinv.limit, hinv.known, fun hpc hgot => ?_, fun hpc => hinv.alone (.inr hpc)⟩
  · by_contra hne
    rcases hinv.known (Nat.pos_of_ne_zero hne) with hpos | hpending | hreaping
    · omega
    · rw [hinv.pending (hinv.blocked.mpr (.inl hpc))] at hpending
      contradiction
    · rw [hpc] at hreaping
      contradiction

/-- A client manager in poll mode, with one child that ends while it sleeps. -/
theorem children_counted_one :
    ∃ m, Relation.ReflTransGen (ManagerStep (some 1) true) {} m ∧ m.pc = .gone ∧
      m.counter = m.running + m.ended + m.ahead ∧ m.running = 0 ∧ m.ended = 0 := by
  have counting : Relation.ReflTransGen (ManagerStep (some 1) true) {} { pc := .counted, counter := 1 } :=
    .single (.count {} rfl (by decide))
  have started := counting.tail (.branch _ rfl)
  have slept := ((started.tail (.unblock _ rfl)).tail (.ends _ (by decide))).tail (.test _ rfl (by decide))
  have reaped := ((slept.tail (.enter _ rfl)).tail (.clear _ rfl)).tail (.reap _ rfl (by decide))
  have left := (reaped.tail (.reaped _ rfl rfl)).tail (.leave _ rfl)
  have gone := (left.tail (.poll _ rfl rfl (by decide))).tail (.quit _ rfl)
  have counted := children_counted (some 1) true _ gone
  exact ⟨_, gone, rfl, counted.1, counted.2.2.2.2 rfl⟩

end Binkd
