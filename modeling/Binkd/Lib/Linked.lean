import Mathlib.Data.List.Nodup
import Mathlib.Logic.Function.Basic

/-!
# Doubly linked lists in a store

A store has a cell at every number.  `Seg` says which cells a chain of `next` links
passes, and that the `prev` links run the other way; the cells of a list are
different, its first has no predecessor and its last no successor.  A link that is
changed outside a segment does not concern it, and two segments are joined by the
two links between them.
-/

namespace Binkd.Lib

/-- A cell with its links. -/
structure Cell (α : Type) where
  next : Option ℕ := none
  prev : Option ℕ := none
  val : α

abbrev Store (α : Type) := ℕ → Cell α

variable {α : Type}

namespace Store

def setNext (s : Store α) (i : ℕ) (p : Option ℕ) : Store α := Function.update s i { s i with next := p }
def setPrev (s : Store α) (i : ℕ) (p : Option ℕ) : Store α := Function.update s i { s i with prev := p }

variable (s : Store α) (i j : ℕ) (p : Option ℕ)

@[simp] theorem setNext_val : (s.setNext i p j).val = (s j).val := by
  by_cases h : j = i
  · subst h; simp [setNext]
  · simp [setNext, h]

@[simp] theorem setPrev_val : (s.setPrev i p j).val = (s j).val := by
  by_cases h : j = i
  · subst h; simp [setPrev]
  · simp [setPrev, h]

@[simp] theorem setNext_prev : (s.setNext i p j).prev = (s j).prev := by
  by_cases h : j = i
  · subst h; simp [setNext]
  · simp [setNext, h]

@[simp] theorem setPrev_next : (s.setPrev i p j).next = (s j).next := by
  by_cases h : j = i
  · subst h; simp [setPrev]
  · simp [setPrev, h]

theorem setNext_next : (s.setNext i p j).next = if j = i then p else (s j).next := by
  by_cases h : j = i
  · subst h; simp [setNext]
  · simp [setNext, h]

theorem setPrev_prev : (s.setPrev i p j).prev = if j = i then p else (s j).prev := by
  by_cases h : j = i
  · subst h; simp [setPrev]
  · simp [setPrev, h]

variable {i j}

theorem setPrev_of_ne (h : j ≠ i) : s.setPrev i p j = s j := Function.update_of_ne h _ _

end Store

/-! ### Segments -/

/-- The chain that begins at `head` passes the cells and then arrives at `after`; the
first of the cells has the predecessor `before`. -/
def Seg (s : Store α) : Option ℕ → Option ℕ → List ℕ → Option ℕ → Prop
  | _, head, [], after => head = after
  | before, head, a :: l, after =>
    head = some a ∧ (s a).prev = before ∧ Seg s (some a) (s a).next l after

/-- The last of the cells, or what comes before them. -/
def lastOf (before : Option ℕ) : List ℕ → Option ℕ
  | [] => before
  | a :: l => lastOf (some a) l

@[simp] theorem lastOf_append_cons (before : Option ℕ) (l m : List ℕ) (a : ℕ) :
    lastOf before (l ++ a :: m) = lastOf (some a) m := by
  induction l generalizing before with
  | nil => rfl
  | cons b l ih => exact ih (some b)

variable {s t : Store α} {before head after : Option ℕ} {l m : List ℕ} {a : ℕ}

/-- The end of a segment that is not empty is one of its cells. -/
theorem lastOf_mem (hl : l ≠ []) : ∃ a ∈ l, lastOf before l = some a := by
  induction l generalizing before with
  | nil => exact absurd rfl hl
  | cons b l ih =>
    by_cases hnil : l = []
    · subst hnil
      exact ⟨b, List.mem_cons_self, rfl⟩
    · obtain ⟨a, ha, hlast⟩ := @ih (some b) hnil
      exact ⟨a, List.mem_cons_of_mem b ha, hlast⟩

theorem lastOf_some (h : lastOf none l = some a) : l ≠ [] ∧ a ∈ l := by
  have hl : l ≠ [] := by
    intro hl
    rw [hl] at h
    exact absurd h (by simp [lastOf])
  obtain ⟨b, hb, hlast⟩ := @lastOf_mem none l hl
  exact ⟨hl, Option.some.inj (hlast.symm.trans h) ▸ hb⟩

/-- The store of a segment may be changed elsewhere. -/
theorem Seg.frame (h : Seg s before head l after) (hnext : ∀ a ∈ l, (t a).next = (s a).next)
    (hprev : ∀ a ∈ l, (t a).prev = (s a).prev) : Seg t before head l after := by
  induction l generalizing before head with
  | nil => exact h
  | cons a l ih =>
    obtain ⟨hhead, hbefore, hrest⟩ := h
    refine ⟨hhead, (hprev a List.mem_cons_self).trans hbefore, ?_⟩
    rw [hnext a List.mem_cons_self]
    apply ih hrest
    · intro b hb
      exact hnext b (List.mem_cons_of_mem a hb)
    · intro b hb
      exact hprev b (List.mem_cons_of_mem a hb)

/-- A segment of two parts. -/
theorem seg_append :
    Seg s before head (l ++ m) after ↔ ∃ p, Seg s before head l p ∧
    Seg s (lastOf before l) p m after := by
  induction l generalizing before head with
  | nil => exact ⟨fun h => ⟨head, rfl, h⟩, fun ⟨p, hp, h⟩ => by rwa [show head = p from hp]⟩
  | cons a l ih =>
    constructor
    · rintro ⟨hhead, hbefore, hrest⟩
      obtain ⟨p, hl, hm⟩ := ih.mp hrest
      exact ⟨p, ⟨hhead, hbefore, hl⟩, hm⟩
    · rintro ⟨p, ⟨hhead, hbefore, hl⟩, hm⟩
      exact ⟨hhead, hbefore, ih.mpr ⟨p, hl, hm⟩⟩

/-- The link out of a segment is that of its last cell. -/
theorem Seg.relink (h : Seg s before head l after) (hnodup : l.Nodup) (p : Option ℕ)
    (hlast : ∀ a ∈ l, (t a).next = if some a = lastOf before l then p else (s a).next)
    (hprev : ∀ a ∈ l, (t a).prev = (s a).prev) :
    Seg t before (if l = [] then p else head) l p := by
  induction l generalizing before head with
  | nil => exact rfl
  | cons a l ih =>
    obtain ⟨hhead, hbefore, hrest⟩ := h
    rw [if_neg (List.cons_ne_nil a l)]
    refine ⟨hhead, (hprev a List.mem_cons_self).trans hbefore, ?_⟩
    obtain ⟨ha, hl⟩ := List.nodup_cons.mp hnodup
    have hnext : (t a).next = if l = [] then p else (s a).next := by
      rw [hlast a List.mem_cons_self]
      by_cases hnil : l = []
      · rw [if_pos hnil, if_pos]
        subst hnil
        rfl
      · rw [if_neg hnil, if_neg]
        intro heq
        obtain ⟨b, hb, hb'⟩ := @lastOf_mem (some a) l hnil
        rw [show lastOf before (a :: l) = lastOf (some a) l from rfl, hb', Option.some.injEq] at heq
        exact ha (heq ▸ hb)
    rw [hnext]
    apply ih hrest hl
    · intro b hb
      rw [hlast b (List.mem_cons_of_mem a hb)]
      rfl
    · intro b hb
      exact hprev b (List.mem_cons_of_mem a hb)

/-- The chain from `head` on passes the cells and ends, whatever the `prev` links are. -/
def Pending (s : Store α) : Option ℕ → List ℕ → Prop
  | head, [] => head = none
  | head, a :: l => head = some a ∧ Pending s (s a).next l

theorem Seg.pending (h : Seg s before head l none) : Pending s head l := by
  induction l generalizing before head with
  | nil => exact h
  | cons a l ih => exact ⟨h.1, ih h.2.2⟩

theorem Pending.frame (h : Pending s head l) (hnext : ∀ a ∈ l, (t a).next = (s a).next) :
    Pending t head l := by
  induction l generalizing head with
  | nil => exact h
  | cons a l ih =>
    refine ⟨h.1, ?_⟩
    rw [hnext a List.mem_cons_self]
    apply ih h.2
    intro b hb
    exact hnext b (List.mem_cons_of_mem a hb)

/-! ### Lists -/

/-- A well formed list with the given first cell. -/
structure IsList (s : Store α) (first : Option ℕ) (cells : List ℕ) : Prop where
  seg : Seg s none first cells none
  nodup : cells.Nodup

/-- What the cells hold. -/
def vals (s : Store α) (cells : List ℕ) : List α := cells.map fun i => (s i).val

/-- The cells of a list are determined by its first. -/
theorem Seg.unique (h : Seg s before head l none) {b : Option ℕ} (h' : Seg s b head m none) : l = m := by
  induction l generalizing before b head m with
  | nil =>
    cases m with
    | nil => rfl
    | cons a m =>
      have hnone : head = none := h
      rw [hnone] at h'
      exact absurd h'.1 (by simp)
  | cons a l ih =>
    cases m with
    | nil =>
      have hnone : head = none := h'
      rw [hnone] at h
      exact absurd h.1 (by simp)
    | cons b m =>
      obtain ⟨hhead, -, hrest⟩ := h
      obtain ⟨hhead', -, hrest'⟩ := h'
      rw [hhead, Option.some.injEq] at hhead'
      subst hhead'
      rw [ih hrest hrest']

/-- A cell put between two parts of a list: its own links, the link to it from before
and the link to it from behind. -/
theorem IsList.insert {first : Option ℕ} {q : ℕ} (h : IsList s first (l ++ m)) (hq : q ∉ l ++ m)
    (hnext : ∀ a ∈ l ++ q :: m,
      (t a).next = if a = q then m.head? else if some a = lastOf none l then some q else (s a).next)
    (hprev : ∀ a ∈ l ++ q :: m,
      (t a).prev = if a = q then lastOf none l else if some a = m.head? then some q else (s a).prev) :
    IsList t (if l = [] then some q else first) (l ++ q :: m) := by
  obtain ⟨p, hl, hm⟩ := seg_append.mp h.seg
  obtain ⟨hnodupl, hnodupm, hdisj⟩ := List.nodup_append.mp h.nodup
  have hlq : ∀ a ∈ l, a ≠ q := by
    intro a ha heq
    exact hq (heq ▸ List.mem_append_left m ha)
  have hmq : ∀ a ∈ m, a ≠ q := by
    intro a ha heq
    exact hq (heq ▸ List.mem_append_right l ha)
  have hheadm : ∀ a ∈ l, ¬ some a = m.head? := by
    intro a ha heq
    exact hdisj a ha a (List.mem_of_mem_head? heq.symm) rfl
  have hlastl : ∀ a ∈ m, ¬ some a = lastOf none l := by
    intro a ha heq
    exact hdisj a (lastOf_some heq.symm).2 a ha rfl
  have hinl : ∀ a ∈ l, a ∈ l ++ q :: m := fun a ha => List.mem_append_left _ ha
  have hinm : ∀ a ∈ q :: m, a ∈ l ++ q :: m := fun a ha => List.mem_append_right l ha
  refine ⟨seg_append.mpr ⟨some q, ?_, rfl, ?_, ?_⟩, ?_⟩
  · apply hl.relink hnodupl (some q)
    · intro a ha
      rw [hnext a (hinl a ha), if_neg (hlq a ha)]
    · intro a ha
      rw [hprev a (hinl a ha), if_neg (hlq a ha), if_neg (hheadm a ha)]
  · rw [hprev q (hinm q List.mem_cons_self), if_pos rfl]
  · rw [hnext q (hinm q List.mem_cons_self), if_pos rfl]
    cases m with
    | nil => rfl
    | cons c m =>
      obtain ⟨-, -, hrest⟩ := hm
      have hcq : c ≠ q := hmq c List.mem_cons_self
      have hinc := hinm c (List.mem_cons_of_mem q List.mem_cons_self)
      refine ⟨rfl, ?_, ?_⟩
      · rw [hprev c hinc, if_neg hcq, if_pos List.head?_cons.symm]
      · rw [hnext c hinc, if_neg hcq, if_neg (hlastl c List.mem_cons_self)]
        apply hrest.frame
        · intro a ha
          have hmem := List.mem_cons_of_mem c ha
          rw [hnext a (hinm a (List.mem_cons_of_mem q hmem)), if_neg (hmq a hmem),
            if_neg (hlastl a hmem)]
        · intro a ha
          have hmem := List.mem_cons_of_mem c ha
          have hac : ¬ some a = (c :: m).head? := by
            rw [List.head?_cons, Option.some.injEq]
            intro heq
            exact (List.nodup_cons.mp hnodupm).1 (heq ▸ ha)
          rw [hprev a (hinm a (List.mem_cons_of_mem q hmem)), if_neg (hmq a hmem), if_neg hac]
  · exact List.nodup_middle.mpr (List.nodup_cons.mpr ⟨hq, h.nodup⟩)

/-- The first cell of a list. -/
theorem IsList.first_eq {first : Option ℕ} (h : IsList s first l) : first = l.head? := by
  cases l with
  | nil => exact h.seg
  | cons a l => exact h.seg.1

end Binkd.Lib
