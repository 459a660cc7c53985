import Binkd.Ftnq
import Binkd.Identity
import Binkd.Lib.Linked

/-!
# Sorting the outbound queue (`q_cmp`, `q_sort` in `ftnq.c`)

`q_sort` takes the entries of a queue one by one and links each into a new list, in
front of the first entry that `q_cmp` calls greater.  The links are those of the
cells here (`qSortCells`); the list that comes out is well formed and holds what
`qSort` says (`qSortCells_eq`).

`q_cmp` fails its purpose twice.  The difference of the two sent marks puts the
entries already sent before all others.  And only two entries with the *same*
address are compared by the list of addresses; if the address is null or in the list
then either of the two comes before the other.  Entries with different addresses
are ordered by their kinds alone.
-/

namespace Binkd

open Binkd.Lib

/-! ### The links -/

/-- The inner loop of `q_sort`: the first entry from `cur` on that is greater than `q`.
The first number bounds the rounds. -/
def findPlace (fa : List FtnAddr) (s : Store Ftnq) (q : ℕ) : ℕ → Option ℕ → Option (Option ℕ)
  | _, none => some none
  | 0, some _ => none
  | fuel + 1, some cur =>
    if qCmp fa (s cur).val (s q).val > 0 then some (some cur) else findPlace fa s q fuel (s cur).next

/-- The new list of `q_sort`: its cells, `head` and `tail`. -/
structure NewQueue where
  store : Store Ftnq
  head : ℕ
  tail : ℕ

/-- `q` is inserted in front of `cur`, or at the end. -/
def linkBefore (n : NewQueue) (q : ℕ) (cur : Option ℕ) : NewQueue :=
  let s := n.store.setNext q cur
  match cur with
  | some cur =>
    let s := s.setPrev q (s cur).prev
    match (s cur).prev with
    | some p => { n with store := (s.setNext p (some q)).setPrev cur (some q) }
    | none => { n with store := s.setPrev cur (some q), head := q }
  | none => { n with store := (s.setPrev q (some n.tail)).setNext n.tail (some q), tail := q }

/-- The outer loop of `q_sort`; `bound` is for the inner one. -/
def sortLoop (fa : List FtnAddr) (bound : ℕ) : ℕ → NewQueue → Option ℕ → Option NewQueue
  | _, n, none => some n
  | 0, _, some _ => none
  | fuel + 1, n, some q =>
    match findPlace fa n.store q bound (some n.head) with
    | none => none
    | some cur => sortLoop fa bound fuel (linkBefore n q cur) (n.store q).next

/-- `q_sort`: the cells and the first of them. -/
def qSortCells (fa : List FtnAddr) (fuel : ℕ) (s : Store Ftnq) (q : Option ℕ) :
    Option (Store Ftnq × Option ℕ) :=
  match q with
  | none => some (s, none)
  | some q => (sortLoop fa fuel fuel ⟨s.setNext q none, q, q⟩ (s q).next).map fun n => (n.store, some n.head)

/-- The new list while it grows. -/
structure NewQueue.Ok (n : NewQueue) (l : List ℕ) : Prop where
  list : IsList n.store (some n.head) l
  tail : lastOf none l = some n.tail

theorem findPlace_mono (fa : List FtnAddr) {s : Store Ftnq} {q : ℕ} {fuel fuel' : ℕ} (hle : fuel ≤ fuel')
    {cur r : Option ℕ} (h : findPlace fa s q fuel cur = some r) :
    findPlace fa s q fuel' cur = some r := by
  induction fuel generalizing cur fuel' with
  | zero =>
    cases cur with
    | none =>
      rw [findPlace] at h
      rw [findPlace, h]
    | some c => exact absurd h (by simp [findPlace])
  | succ fuel ih =>
    cases cur with
    | none =>
      rw [findPlace] at h
      rw [findPlace, h]
    | some c =>
      obtain ⟨fuel', rfl⟩ : ∃ k, fuel' = k + 1 := ⟨fuel' - 1, by omega⟩
      rw [findPlace] at h ⊢
      split_ifs at h ⊢
      · exact h
      · exact ih (by omega) h

theorem sortLoop_mono (fa : List FtnAddr) {bound bound' fuel fuel' : ℕ} (hbound : bound ≤ bound')
    (hle : fuel ≤ fuel') {n n' : NewQueue} {q : Option ℕ} (h : sortLoop fa bound fuel n q = some n') :
    sortLoop fa bound' fuel' n q = some n' := by
  induction fuel generalizing n q fuel' with
  | zero =>
    cases q with
    | none =>
      rw [sortLoop] at h
      rw [sortLoop, h]
    | some q => exact absurd h (by simp [sortLoop])
  | succ fuel ih =>
    cases q with
    | none =>
      rw [sortLoop] at h
      rw [sortLoop, h]
    | some q =>
      obtain ⟨fuel', rfl⟩ : ∃ k, fuel' = k + 1 := ⟨fuel' - 1, by omega⟩
      rw [sortLoop] at h ⊢
      cases hfind : findPlace fa n.store q bound (some n.head) with
      | none => exact absurd h (by simp [hfind])
      | some cur =>
        rw [hfind] at h
        rw [findPlace_mono fa hbound hfind]
        exact ih (by omega) h

/-- More rounds than enough change nothing. -/
theorem qSortCells_mono (fa : List FtnAddr) {fuel fuel' : ℕ} (hle : fuel ≤ fuel') {s : Store Ftnq}
    {q : Option ℕ} {r : Store Ftnq × Option ℕ} (h : qSortCells fa fuel s q = some r) :
    qSortCells fa fuel' s q = some r := by
  cases q with
  | none => exact h
  | some q =>
    rw [qSortCells, Option.map_eq_some_iff] at h ⊢
    obtain ⟨n, hloop, rfl⟩ := h
    exact ⟨n, sortLoop_mono fa hle hle hloop, rfl⟩

/-- The inner loop finds the place of the insertion. -/
theorem findPlace_spec (fa : List FtnAddr) {s : Store Ftnq} {q : ℕ} {before cur : Option ℕ} {l : List ℕ}
    (h : Seg s before cur l none) {fuel : ℕ} (hfuel : l.length ≤ fuel) :
    ∃ l1 l2, l = l1 ++ l2 ∧ findPlace fa s q fuel cur = some l2.head? ∧
      vals s (l1 ++ q :: l2) = insertBy (qCmp fa) (s q).val (vals s l) := by
  induction l generalizing before cur fuel with
  | nil =>
    refine ⟨[], [], rfl, ?_, rfl⟩
    rw [show cur = none from h]
    cases fuel <;> rfl
  | cons a l ih =>
    obtain ⟨rfl, -, hrest⟩ := h
    obtain ⟨fuel, rfl⟩ : ∃ k, fuel = k + 1 := ⟨fuel - 1, by simp only [List.length_cons] at hfuel; omega⟩
    rw [findPlace]
    by_cases hgt : qCmp fa (s a).val (s q).val > 0
    · refine ⟨[], a :: l, rfl, by rw [if_pos hgt]; rfl, ?_⟩
      simp only [vals, List.nil_append, List.map_cons, insertBy, if_pos hgt]
    · obtain ⟨l1, l2, hl, hfind, hvals⟩ := ih hrest (Nat.le_of_succ_le_succ hfuel)
      refine ⟨a :: l1, l2, by rw [hl]; rfl, by rw [if_neg hgt, hfind], ?_⟩
      simp only [vals, List.cons_append, List.map_cons, insertBy, if_neg hgt]
      exact congrArg _ hvals

/-- The links after an insertion at the end. -/
theorem linkBefore_none_next (n : NewQueue) (q b : ℕ) :
    ((linkBefore n q none).store b).next =
      if b = n.tail then some q else if b = q then none else (n.store b).next := by
  simp only [linkBefore, Store.setNext_next, Store.setPrev_next]

theorem linkBefore_none_prev (n : NewQueue) (q b : ℕ) :
    ((linkBefore n q none).store b).prev = if b = q then some n.tail else (n.store b).prev := by
  simp only [linkBefore, Store.setNext_prev, Store.setPrev_prev]

/-- The links after an insertion in front of another entry. -/
theorem linkBefore_some_next (n : NewQueue) {q c : ℕ} (hcq : c ≠ q) (b : ℕ) :
    ((linkBefore n q (some c)).store b).next =
      if (n.store c).prev = some b then some q else if b = q then some c else (n.store b).next := by
  simp only [linkBefore, Store.setPrev_prev, Store.setNext_prev, if_neg hcq]
  cases (n.store c).prev with
  | none => simp only [Store.setPrev_next, Store.setNext_next, reduceCtorEq, if_false]
  | some p => simp only [Store.setPrev_next, Store.setNext_next, Option.some.injEq, @eq_comm ℕ p b]

theorem linkBefore_some_prev (n : NewQueue) {q c : ℕ} (hcq : c ≠ q) (b : ℕ) :
    ((linkBefore n q (some c)).store b).prev =
      if b = c then some q else if b = q then (n.store c).prev else (n.store b).prev := by
  simp only [linkBefore, Store.setPrev_prev, Store.setNext_prev, if_neg hcq]
  cases (n.store c).prev with
  | none => simp only [Store.setPrev_prev, Store.setNext_prev]
  | some p => simp only [Store.setPrev_prev, Store.setNext_prev]

theorem linkBefore_some_head (n : NewQueue) {q c : ℕ} (hcq : c ≠ q) :
    (linkBefore n q (some c)).head = if (n.store c).prev = none then q else n.head := by
  simp only [linkBefore, Store.setPrev_prev, Store.setNext_prev, if_neg hcq]
  cases (n.store c).prev with
  | none => rfl
  | some p => rfl

theorem linkBefore_some_tail (n : NewQueue) (q c : ℕ) : (linkBefore n q (some c)).tail = n.tail := by
  simp only [linkBefore]
  split <;> rfl

/-- An insertion at the end. -/
theorem linkBefore_last {n : NewQueue} {l : List ℕ} {q : ℕ} (h : n.Ok l) (hq : q ∉ l) :
    (linkBefore n q none).Ok (l ++ [q]) := by
  obtain ⟨hnil, hmem⟩ := lastOf_some h.tail
  have hne : n.tail ≠ q := by
    intro heq
    exact hq (heq ▸ hmem)
  refine ⟨?_, lastOf_append_cons _ _ _ _⟩
  have hins := @IsList.insert Ftnq n.store (linkBefore n q none).store l [] (some n.head) q
    (by simpa using h.list) (by simpa using hq) ?_ ?_
  · rw [if_neg hnil] at hins
    exact hins
  · intro b _
    simp only [linkBefore_none_next, h.tail, Option.some.injEq, List.head?_nil]
    by_cases hb : b = n.tail
    · rw [if_pos hb, if_neg (hb ▸ hne), if_pos hb]
    · rw [if_neg hb, if_neg hb]
  · intro b _
    simp only [linkBefore_none_prev, h.tail, List.head?_nil, reduceCtorEq, if_false]

/-- An insertion in front of an entry. -/
theorem linkBefore_front {n : NewQueue} {l1 l2 : List ℕ} {q c : ℕ} (h : n.Ok (l1 ++ c :: l2))
    (hq : q ∉ l1 ++ c :: l2) : (linkBefore n q (some c)).Ok (l1 ++ q :: c :: l2) := by
  obtain ⟨p, -, -, hprev, -⟩ := seg_append.mp h.list.seg
  have hcq : c ≠ q := by
    intro heq
    exact hq (heq ▸ List.mem_append_right l1 List.mem_cons_self)
  constructor
  · have hins := @IsList.insert Ftnq n.store (linkBefore n q (some c)).store l1 (c :: l2) (some n.head) q
      h.list hq ?_ ?_
    · rw [linkBefore_some_head n hcq, hprev]
      by_cases hnil : l1 = []
      · rw [if_pos hnil] at hins
        rw [if_pos (by rw [hnil]; rfl)]
        exact hins
      · rw [if_neg hnil] at hins
        obtain ⟨a, -, ha⟩ := @lastOf_mem none l1 hnil
        rw [if_neg (by rw [ha]; simp)]
        exact hins
    · intro b _
      simp only [linkBefore_some_next n hcq, hprev, List.head?_cons, @eq_comm _ (some b)]
      by_cases hb : b = q
      · have hlast : lastOf none l1 ≠ some b := by
          intro heq
          exact hq (hb ▸ List.mem_append_left (c :: l2) (lastOf_some heq).2)
        rw [if_neg hlast, if_pos hb, if_pos hb]
      · rw [if_neg hb, if_neg hb]
    · intro b _
      simp only [linkBefore_some_prev n hcq, hprev, List.head?_cons, Option.some.injEq]
      by_cases hb : b = c
      · rw [if_pos hb, if_neg (hb ▸ hcq), if_pos hb]
      · rw [if_neg hb, if_neg hb]
  · rw [linkBefore_some_tail, ← h.tail, lastOf_append_cons, lastOf_append_cons]
    rfl

theorem linkBefore_ok {n : NewQueue} {l1 l2 : List ℕ} {q : ℕ} (h : n.Ok (l1 ++ l2)) (hq : q ∉ l1 ++ l2) :
    (linkBefore n q l2.head?).Ok (l1 ++ q :: l2) := by
  cases l2 with
  | nil => exact linkBefore_last (by simpa using h) (by simpa using hq)
  | cons c l2 => exact linkBefore_front h hq

/-- An insertion changes what no entry holds. -/
theorem linkBefore_val (n : NewQueue) (q : ℕ) (cur : Option ℕ) (a : ℕ) :
    ((linkBefore n q cur).store a).val = (n.store a).val := by
  cases cur with
  | none => simp [linkBefore]
  | some c =>
    simp only [linkBefore]
    split <;> simp

/-- Only the entry itself and those of the new list get another link. -/
theorem linkBefore_next {n : NewQueue} {l1 l2 : List ℕ} {q : ℕ} (h : n.Ok (l1 ++ l2)) (hq : q ∉ l1 ++ l2)
    {a : ℕ} (haq : a ≠ q) (ha : a ∉ l1 ++ l2) :
    ((linkBefore n q l2.head?).store a).next = (n.store a).next := by
  cases l2 with
  | nil =>
    have htail : a ≠ n.tail := by
      intro heq
      exact ha (heq ▸ (lastOf_some h.tail).2)
    rw [List.head?_nil, linkBefore_none_next, if_neg htail, if_neg haq]
  | cons c l2 =>
    obtain ⟨p, -, -, hprev, -⟩ := seg_append.mp h.list.seg
    have hcq : c ≠ q := by
      intro heq
      exact hq (heq ▸ List.mem_append_right l1 List.mem_cons_self)
    have hlast : ¬ lastOf none l1 = some a := by
      intro heq
      exact ha (List.mem_append_left (c :: l2) (lastOf_some heq).2)
    rw [List.head?_cons, linkBefore_some_next n hcq, hprev, if_neg hlast, if_neg haq]

/-- The outer loop: the new list takes the pending entries one after the other. -/
theorem sortLoop_spec (fa : List FtnAddr) {bound fuel : ℕ} {n : NewQueue} {l r : List ℕ} {q : Option ℕ}
    (h : n.Ok l) (hr : Pending n.store q r) (hnodup : (l ++ r).Nodup) (hbound : l.length + r.length ≤ bound)
    (hfuel : r.length ≤ fuel) :
    ∃ n' l', sortLoop fa bound fuel n q = some n' ∧ n'.Ok l' ∧ l'.Perm (l ++ r) ∧
      vals n'.store l' = (vals n.store r).foldl (fun acc e => insertBy (qCmp fa) e acc)
      (vals n.store l) ∧
      ∀ a, (n'.store a).val = (n.store a).val := by
  induction r generalizing n l q fuel with
  | nil =>
    refine ⟨n, l, ?_, h, by simp, rfl, fun _ => rfl⟩
    rw [show q = none from hr]
    cases fuel <;> rfl
  | cons a r ih =>
    obtain ⟨rfl, hr⟩ := hr
    simp only [List.length_cons] at hbound hfuel
    obtain ⟨fuel, rfl⟩ : ∃ k, fuel = k + 1 := ⟨fuel - 1, by omega⟩
    obtain ⟨l1, l2, rfl, hfind, hvals⟩ :=
      @findPlace_spec fa n.store a none (some n.head) l h.list.seg bound (by omega)
    have ha : a ∉ l1 ++ l2 := by
      intro hmem
      exact (List.nodup_append.mp hnodup).2.2 a hmem a List.mem_cons_self rfl
    have hperm : (l1 ++ a :: l2 ++ r).Perm (l1 ++ l2 ++ a :: r) :=
      (List.perm_middle.append_right r).trans List.perm_middle.symm
    have hpending : Pending (linkBefore n a l2.head?).store (n.store a).next r := by
      apply hr.frame
      intro b hb
      apply linkBefore_next h ha
      · intro heq
        exact (List.nodup_cons.mp (List.nodup_append.mp hnodup).2.1).1 (heq ▸ hb)
      · intro hmem
        exact (List.nodup_append.mp hnodup).2.2 b hmem b (List.mem_cons_of_mem a hb) rfl
    obtain ⟨n', l', hloop, hok, hperm', hvals', hval⟩ :=
      @ih fuel (linkBefore n a l2.head?) (l1 ++ a :: l2)
      (n.store a).next (linkBefore_ok h ha) hpending (hperm.nodup_iff.mpr hnodup)
      (by simp only [List.length_append, List.length_cons] at hbound ⊢; omega) (by omega)
    refine ⟨n', l', ?_, hok, hperm'.trans hperm, ?_, ?_⟩
    · rw [sortLoop, hfind]
      exact hloop
    · have hframe : ∀ m, vals (linkBefore n a l2.head?).store m = vals n.store m := by
        intro m
        exact List.map_congr_left fun b _ => linkBefore_val n a l2.head? b
      rw [hvals', hframe, hframe, hvals]
      rfl
    · intro b
      exact (hval b).trans (linkBefore_val n a l2.head? b)

/-- `q_sort` ends, with a well formed list of the same cells; they hold what they held,
in the order that `qSort` says. -/
theorem qSortCells_spec (fa : List FtnAddr) {s : Store Ftnq} {q : Option ℕ} {cells : List ℕ}
    (h : IsList s q cells) {fuel : ℕ} (hfuel : cells.length ≤ fuel) :
    ∃ s' q' cells', qSortCells fa fuel s q = some (s', q') ∧ IsList s' q' cells' ∧ cells'.Perm cells ∧
      vals s' cells' = qSort fa (vals s cells) ∧ ∀ a, (s' a).val = (s a).val := by
  cases cells with
  | nil =>
    have hnil : q = none := h.seg
    refine ⟨s, q, [], ?_, h, .refl _, rfl, fun _ => rfl⟩
    rw [hnil]
    rfl
  | cons a r =>
    obtain ⟨rfl, hprev, hrest⟩ := h.seg
    have hnodup := List.nodup_cons.mp h.nodup
    have hok : (NewQueue.mk (s.setNext a none) a a).Ok [a] := by
      refine ⟨⟨⟨rfl, ?_, ?_⟩, List.nodup_singleton a⟩, rfl⟩
      · rw [Store.setNext_prev, hprev]
      · exact (Store.setNext_next s a a none).trans (if_pos rfl)
    have hpending : Pending (s.setNext a none) (s a).next r := by
      apply hrest.pending.frame
      intro b hb
      rw [Store.setNext_next, if_neg]
      intro heq
      exact hnodup.1 (heq ▸ hb)
    obtain ⟨n', l', hloop, hok', hperm, hvals, hval⟩ := sortLoop_spec fa hok hpending h.nodup
      (by simpa [Nat.add_comm] using hfuel) (Nat.le_of_succ_le hfuel)
    refine ⟨n'.store, some n'.head, l', ?_, hok'.list, hperm, ?_, ?_⟩
    · rw [qSortCells, hloop]
      rfl
    · rw [hvals, qSort_eq]
      simp [vals, sortBy, insertBy]
    · intro b
      rw [hval, Store.setNext_val]

/-! ### The same address -/

/-- Strings without a zero byte compare equal if they are equal but for the case. -/
theorem stricmp_eq_zero {s t : Str} (hs : 0 ∉ s) (ht : 0 ∉ t) :
    stricmp s t = 0 ↔ s.map tolower = t.map tolower := by
  have hzero : ∀ c : Byte, c ≠ 0 → schar (tolower c) ≠ 0 :=
    forall_byte (p := fun c => c ≠ 0 → schar (tolower c) ≠ 0) (by decide +kernel)
  induction s generalizing t with
  | nil =>
    cases t with
    | nil => simp [stricmp]
    | cons b t =>
      have hb := hzero b fun h => ht (h ▸ List.mem_cons_self)
      simp only [stricmp, List.map_nil, List.map_cons, reduceCtorEq, iff_false]
      omega
  | cons a s ih =>
    cases t with
    | nil =>
      have ha := hzero a fun h => hs (h ▸ List.mem_cons_self)
      simpa [stricmp] using ha
    | cons b t =>
      rw [stricmp, List.map_cons, List.map_cons, List.cons.injEq]
      by_cases hab : tolower a = tolower b
      · rw [if_neg (not_not.mpr hab)]
        have := ih (fun h => hs (List.mem_cons_of_mem a h)) fun h => ht (List.mem_cons_of_mem b h)
        simp [this, hab]
      · rw [if_pos hab]
        have hne : schar (tolower a) ≠ schar (tolower b) := fun h => hab (schar_inj.mp h)
        simp only [hab, false_and, iff_false]
        omega

/-- The domain is a string. -/
def FtnAddr.Ok (a : FtnAddr) : Prop := 0 ∉ a.domain

section
variable {a b c : FtnAddr}

theorem same_symm (ha : a.Ok) (hb : b.Ok) (h : ftnaddressCmp a b = 0) : ftnaddressCmp b a = 0 := by
  obtain ⟨hdom, hz, hnet, hnode, hp⟩ := ftnaddressCmp_eq_zero.mp h
  rw [stricmp_eq_zero ha hb] at hdom
  exact ftnaddressCmp_eq_zero.mpr ⟨(stricmp_eq_zero hb ha).mpr hdom.symm, hz.symm, hnet.symm,
    hnode.symm, hp.symm⟩

theorem same_trans (ha : a.Ok) (hb : b.Ok) (hc : c.Ok) (h : ftnaddressCmp a b = 0) (h' : ftnaddressCmp b c = 0) :
    ftnaddressCmp a c = 0 := by
  obtain ⟨hdom, hz, hnet, hnode, hp⟩ := ftnaddressCmp_eq_zero.mp h
  obtain ⟨hdom', hz', hnet', hnode', hp'⟩ := ftnaddressCmp_eq_zero.mp h'
  rw [stricmp_eq_zero ha hb] at hdom
  rw [stricmp_eq_zero hb hc] at hdom'
  exact ftnaddressCmp_eq_zero.mpr ⟨(stricmp_eq_zero ha hc).mpr (hdom.trans hdom'), hz.trans hz',
    hnet.trans hnet',
    hnode.trans hnode', hp.trans hp'⟩

/-- An address with the address of a null one is null. -/
theorem same_isNull (hb : b.Ok) (h : ftnaddressCmp a b = 0) (ha : a.isNull = true) :
    b.isNull = true := by
  obtain ⟨hdom, hz, hnet, hnode, hp⟩ := ftnaddressCmp_eq_zero.mp h
  simp only [FtnAddr.isNull, decide_eq_true_eq] at ha ⊢
  obtain ⟨hnil, hz', hnet', hnode', hp'⟩ := ha
  rw [stricmp_eq_zero (by rw [hnil]; simp) hb, hnil] at hdom
  exact ⟨List.map_eq_nil_iff.mp hdom.symm, hz ▸ hz', hnet ▸ hnet', hnode ▸ hnode', hp ▸ hp'⟩

end

/-! ### The comparison -/

/-- The place of a kind in `typeorder`. -/
def typePos (type : Byte) : ℕ := (str "srmld").idxOf type

/-- The steps of `q_cmp` behind the addresses. -/
def cmpKind (a b : Ftnq) : Int :=
  if typePos a.type < typePos b.type then -1
  else if typePos b.type < typePos a.type then 1
  else if a.type = 100 ∧ b.type = 100 then cmpFileboxFiles a b
  else 0

/-- The address is null or in the list of addresses. -/
def Known (fa : List FtnAddr) (a : FtnAddr) : Prop := a.isNull = true ∨ ∃ x ∈ fa, ftnaddressCmp a x = 0

instance (fa : List FtnAddr) (a : FtnAddr) : Decidable (Known fa a) :=
  inferInstanceAs (Decidable (a.isNull = true ∨ ∃ x ∈ fa, ftnaddressCmp a x = 0))

theorem cmpType_eq {a b : Byte} (hab : a ≠ b) (order : List Byte) :
    cmpType a b order =
      if order.idxOf a < order.idxOf b then some (-1)
      else if order.idxOf b < order.idxOf a then some 1 else none := by
  induction order with
  | nil => rfl
  | cons t order ih =>
    rw [cmpType]
    by_cases ha : a = t
    · have hb : t ≠ b := fun h => hab (ha.trans h)
      rw [if_pos ha, ha, List.idxOf_cons_self, List.idxOf_cons_ne _ hb, if_pos (by omega)]
    · rw [if_neg ha, List.idxOf_cons_ne _ (Ne.symm ha)]
      by_cases hb : b = t
      · rw [if_pos hb, hb, List.idxOf_cons_self, if_neg (by omega), if_pos (by omega)]
      · rw [if_neg hb, List.idxOf_cons_ne _ (Ne.symm hb), ih]
        simp only [Nat.succ_lt_succ_iff]

/-- Two equal addresses are looked for in the list: the first is found. -/
theorem cmpAka_same {a b : FtnAddr} (ha : a.Ok) (hb : b.Ok) (h : ftnaddressCmp a b = 0) {fa : List FtnAddr}
    (hfa : ∀ x ∈ fa, x.Ok) : cmpAka a b fa = if ∃ x ∈ fa, ftnaddressCmp a x = 0 then some (-1) else none := by
  induction fa with
  | nil => simp [cmpAka]
  | cons x fa ih =>
    have hx := hfa x List.mem_cons_self
    rw [cmpAka]
    by_cases hax : ftnaddressCmp a x = 0
    · rw [if_pos hax, if_pos ⟨x, List.mem_cons_self, hax⟩]
    · have hbx : ftnaddressCmp b x ≠ 0 := fun hbx => hax (same_trans ha hb hx h hbx)
      rw [if_neg hax, if_neg hbx, ih fun y hy => hfa y (List.mem_cons_of_mem x hy)]
      simp [hax]

theorem qCmp_sent (fa : List FtnAddr) {a b : Ftnq} (h : a.sent = true ∨ b.sent = true) :
    qCmp fa a b = (b.sent.toNat : Int) - a.sent.toNat := by rw [qCmp, if_pos h]

/-- Two unsent entries with one known address come before each other; all others are
ordered by kind. -/
theorem qCmp_unsent {fa : List FtnAddr} (hfa : ∀ x ∈ fa, x.Ok) {a b : Ftnq} (ha : a.fa.Ok) (hb : b.fa.Ok)
    (hsa : a.sent = false) (hsb : b.sent = false) :
    qCmp fa a b = if ftnaddressCmp a.fa b.fa = 0 ∧ Known fa a.fa then -1 else cmpKind a b := by
  have htype : (if a.type ≠ b.type then cmpType a.type b.type (str "srmld") else none).elim
      (if a.type = 100 ∧ b.type = 100 then cmpFileboxFiles a b else 0) (fun r => r) = cmpKind a b := by
    by_cases hab : a.type = b.type
    · rw [if_neg (not_not.mpr hab), Option.elim_none, cmpKind, hab, if_neg (lt_irrefl _), if_neg (lt_irrefl _)]
    · rw [if_pos hab, cmpType_eq hab, cmpKind]
      simp only [typePos]
      split_ifs <;> rfl
  rw [qCmp, if_neg (by simp [hsa, hsb])]
  generalize (if a.type ≠ b.type then cmpType a.type b.type (str "srmld") else none) = o at htype ⊢
  by_cases hsame : ftnaddressCmp a.fa b.fa = 0
  · rw [if_pos hsame]
    by_cases hnull : a.fa.isNull = true
    · have hboth : ftnaddressCmp a.fa b.fa = 0 ∧ Known fa a.fa := ⟨hsame, .inl hnull⟩
      rw [if_pos hnull, if_pos hboth]
    · have hnullb : ¬ b.fa.isNull = true := fun h => hnull (same_isNull ha (same_symm ha hb hsame) h)
      rw [if_neg hnull, if_neg hnullb, cmpAka_same ha hb hsame hfa]
      by_cases hex : ∃ x ∈ fa, ftnaddressCmp a.fa x = 0
      · have hboth : ftnaddressCmp a.fa b.fa = 0 ∧ Known fa a.fa := ⟨hsame, .inr hex⟩
        rw [if_pos hex, if_pos hboth]
      · have hboth : ¬ (ftnaddressCmp a.fa b.fa = 0 ∧ Known fa a.fa) := fun h => h.2.elim hnull hex
        rw [if_neg hex, if_neg hboth]
        cases o <;> exact htype
  · have hboth : ¬ (ftnaddressCmp a.fa b.fa = 0 ∧ Known fa a.fa) := fun h => hsame h.1
    rw [if_neg hsame, if_neg hboth]
    cases o <;> exact htype

/-! ### Times of filebox files -/

/-- The times of the filebox files of one weight are at most `2 ^ 31 - 1` seconds after
that of one of them, if multiples of `2 ^ 32` do not count. -/
def InWindow (q : Queue) : Prop :=
  ∀ a ∈ q, a.type = 100 → ∃ e ∈ q, e.type = 100 ∧ weightByName e.path = weightByName a.path ∧
    ∀ b ∈ q, b.type = 100 → weightByName b.path = weightByName a.path →
      (b.time - e.time) % 2 ^ 32 < 2 ^ 31

theorem toInt32_sub (a b t : Int) (ha : (a - t) % 2 ^ 32 < 2 ^ 31) (hb : (b - t) % 2 ^ 32 < 2 ^ 31) :
    toInt32 (a - b) = (a - t) % 2 ^ 32 - (b - t) % 2 ^ 32 := by
  simp only [toInt32, Int.bmod]
  omega

/-- The comparison of two times follows a number that each has. -/
theorem InWindow.offsets {q : Queue} (h : InWindow q) : ∃ off : Ftnq → Int, ∀ a ∈ q, ∀ b ∈ q,
    a.type = 100 → b.type = 100 → weightByName a.path = weightByName b.path →
    toInt32 (a.time - b.time) = off a - off b := by
  have hbase : ∀ w : Int, ∃ t : Int, ∀ b ∈ q, b.type = 100 → weightByName b.path = w →
      (b.time - t) % 2 ^ 32 < 2 ^ 31 := by
    intro w
    by_cases hex : ∃ a ∈ q, a.type = 100 ∧ weightByName a.path = w
    · obtain ⟨a, ha, htype, rfl⟩ := hex
      obtain ⟨e, -, -, -, he⟩ := h a ha htype
      exact ⟨e.time, he⟩
    · exact ⟨0, fun b hb htype hw => absurd ⟨b, hb, htype, hw⟩ hex⟩
  choose base hbase using hbase
  refine ⟨fun a => (a.time - base (weightByName a.path)) % 2 ^ 32, ?_⟩
  intro a ha b hb hta htb hw
  have hta := hbase _ a ha hta rfl
  have htb := hbase _ b hb htb rfl
  dsimp only
  rw [hw] at hta ⊢
  exact toInt32_sub _ _ _ hta htb

/-- The order by kind is one of three numbers. -/
theorem InWindow.cmpKind {q : Queue} (h : InWindow q) : ∃ off : Ftnq → Int, ∀ a ∈ q, ∀ b ∈ q,
    cmpKind a b = if typePos a.type < typePos b.type then -1
      else if typePos b.type < typePos a.type then 1
      else if a.type = 100 ∧ b.type = 100 then
        if weightByName a.path = weightByName b.path then off a - off b
        else weightByName b.path - weightByName a.path
      else 0 := by
  obtain ⟨off, hoff⟩ := h.offsets
  refine ⟨off, ?_⟩
  intro a ha b hb
  rw [Binkd.cmpKind]
  by_cases hd : a.type = 100 ∧ b.type = 100
  · simp only [if_pos hd, cmpFileboxFiles]
    by_cases hw : weightByName a.path = weightByName b.path
    · rw [if_pos hw, if_pos hw, hoff a ha b hb hd.1 hd.2 hw]
    · rw [if_neg hw, if_neg hw]
  · simp only [if_neg hd]

/-- A filebox file has a place of its own in `typeorder`. -/
theorem typePos_eq {a b : Byte} (ha : a = 100) (h : typePos a = typePos b) : b = 100 := by
  revert h
  rw [ha]
  exact forall_byte (p := fun b => typePos 100 = typePos b → b = 100) (by decide +kernel) b

theorem InWindow.antisymm {q : Queue} (h : InWindow q) {a b : Ftnq} (ha : a ∈ q) (hb : b ∈ q) :
    0 < Binkd.cmpKind a b ↔ Binkd.cmpKind b a < 0 := by
  obtain ⟨off, hoff⟩ := h.cmpKind
  rw [hoff a ha b hb, hoff b hb a ha]
  split_ifs <;> first | omega | tauto

theorem InWindow.trans {q : Queue} (h : InWindow q) {a b c : Ftnq} (ha : a ∈ q) (hb : b ∈ q) (hc : c ∈ q)
    (hab : Binkd.cmpKind a b ≤ 0) (hbc : Binkd.cmpKind b c ≤ 0) : Binkd.cmpKind a c ≤ 0 := by
  obtain ⟨off, hoff⟩ := h.cmpKind
  rw [hoff a ha b hb] at hab
  rw [hoff b hb c hc] at hbc
  rw [hoff a ha c hc]
  have hposab : typePos a.type ≤ typePos b.type := by
    by_contra hlt
    rw [if_neg (by omega), if_pos (by omega)] at hab
    omega
  have hposbc : typePos b.type ≤ typePos c.type := by
    by_contra hlt
    rw [if_neg (by omega), if_pos (by omega)] at hbc
    omega
  by_cases hlt : typePos a.type < typePos c.type
  · rw [if_pos hlt]
    decide
  · rw [if_neg hlt, if_neg (by omega)]
    rw [if_neg (by omega), if_neg (by omega)] at hab hbc
    by_cases hd : a.type = 100 ∧ c.type = 100
    · have htb : b.type = 100 := typePos_eq hd.1 (by omega)
      rw [if_pos hd]
      rw [if_pos ⟨hd.1, htb⟩] at hab
      rw [if_pos ⟨htb, hd.2⟩] at hbc
      split_ifs at hab hbc ⊢ <;> omega
    · rw [if_neg hd]

/-! ### The order of the queue -/

/-- A queue in memory. -/
structure QueueCells where
  store : Store Ftnq
  first : Option ℕ
  cells : List ℕ
  list : IsList store first cells
  strings : ∀ e ∈ vals store cells, e.fa.Ok

/-- The entries of the queue. -/
def QueueCells.queue (q : QueueCells) : Queue := vals q.store q.cells

/-- The list of addresses that the queue is sorted for. -/
structure Akas where
  fa : List FtnAddr
  strings : ∀ x ∈ fa, x.Ok

/-- The position of an address in the list; behind it for others. -/
def akaPos (fa : List FtnAddr) (a : FtnAddr) : ℕ := fa.findIdx fun x => ftnaddressCmp a x = 0

/-- Status, request, mail, flow file, then the rest. -/
def kindPos (type : Byte) : ℕ := (str "srml").idxOf type

/-- `a` may stand before `b`: an entry already sent only before others sent, one for a later
address not before one for an earlier, and for one address in the order of the kinds. -/
structure InOrder (fa : List FtnAddr) (a b : Ftnq) : Prop where
  sent : a.sent = true → b.sent = true
  aka : a.sent = false → b.sent = false → a.fa.isNull = false → b.fa.isNull = false →
    akaPos fa a.fa ≤ akaPos fa b.fa
  kind : a.sent = false → b.sent = false → ftnaddressCmp a.fa b.fa = 0 → kindPos a.type ≤ kindPos b.type

instance (fa : List FtnAddr) (a b : Ftnq) : Decidable (InOrder fa a b) :=
  decidable_of_iff ((a.sent = true → b.sent = true) ∧
      (a.sent = false → b.sent = false → a.fa.isNull = false → b.fa.isNull = false →
        akaPos fa a.fa ≤ akaPos fa b.fa) ∧
      (a.sent = false → b.sent = false → ftnaddressCmp a.fa b.fa = 0 → kindPos a.type ≤ kindPos b.type))
    ⟨fun h => ⟨h.1, h.2.1, h.2.2⟩, fun h => ⟨h.sent, h.aka, h.kind⟩⟩

/-- `q_sort` ends with a well formed list of the same entries in their order, and `q_cmp` is
consistent on them. -/
structure WellSorted (akas : Akas) (q : QueueCells) : Prop where
  result : ∃ bound s first cells,
    (∀ fuel ≥ bound, qSortCells akas.fa fuel q.store q.first = some (s, first)) ∧ IsList s first cells ∧
    cells.Perm q.cells ∧ (∀ i ∈ q.cells, (s i).val = (q.store i).val) ∧
    (vals s cells).Pairwise (InOrder akas.fa)
  consistent : Consistent (qCmp akas.fa) q.queue

/-- Kind and, for filebox files, weight and time put `a` before `b`. -/
def Precedes (a b : Ftnq) : Prop :=
  typePos a.type < typePos b.type ∨ a.type = 100 ∧ b.type = 100 ∧ cmpFileboxFiles a b < 0

/-- The order of the kinds happens to be right: no entry is sent; two entries of one address have
one that is neither null nor in the list; the times of filebox files are not too far apart; and
the kinds, and on a tie the places in the queue, put no address before one that is earlier in
the list. -/
structure Orderly (fa : List FtnAddr) (q : Queue) : Prop where
  unsent : ∀ e ∈ q, e.sent = false
  unknown : q.Pairwise fun a b => ftnaddressCmp a.fa b.fa = 0 → ¬ Known fa a.fa
  window : InWindow q
  aka : q.Pairwise fun a b => a.fa.isNull = false → b.fa.isNull = false →
    (Precedes b a → akaPos fa b.fa ≤ akaPos fa a.fa) ∧ (¬ Precedes b a → akaPos fa a.fa ≤ akaPos fa b.fa)

theorem kindPos_eq (t : Byte) : kindPos t = min (typePos t) 4 :=
  forall_byte (p := fun t => kindPos t = min (typePos t) 4) (by decide +kernel) t

theorem precedes_iff {a b : Ftnq} : Precedes a b ↔ cmpKind a b < 0 := by
  rw [Precedes, cmpKind]
  by_cases hlt : typePos a.type < typePos b.type
  · simp [hlt]
  · by_cases hgt : typePos b.type < typePos a.type
    · have hne : ¬ (a.type = 100 ∧ b.type = 100) := by
        rintro ⟨ha, hb⟩
        rw [ha, hb] at hgt
        exact absurd hgt (lt_irrefl _)
      simp only [hlt, if_false, hgt, if_true, false_or]
      constructor
      · rintro ⟨ha, hb, -⟩
        exact absurd ⟨ha, hb⟩ hne
      · intro h
        omega
    · simp only [hlt, if_false, hgt, false_or]
      by_cases hd : a.type = 100 ∧ b.type = 100
      · simp [hd]
      · simp only [if_neg hd, lt_irrefl, iff_false]
        exact fun h => hd ⟨h.1, h.2.1⟩

/-- What comes first by kind has no later kind. -/
theorem kindPos_le {a b : Ftnq} (h : cmpKind a b ≤ 0) : kindPos a.type ≤ kindPos b.type := by
  have hle : typePos a.type ≤ typePos b.type := by
    by_contra hlt
    rw [cmpKind, if_neg (by omega), if_pos (by omega)] at h
    omega
  rw [kindPos_eq, kindPos_eq]
  omega

section
variable {akas : Akas} {q : QueueCells}

/-- The result of `q_sort` is what `qSort` says. -/
theorem WellSorted.pairwise (h : WellSorted akas q) :
    (qSort akas.fa q.queue).Pairwise (InOrder akas.fa) := by
  obtain ⟨bound, s, first, cells, hres, hlist, -, -, horder⟩ := h.result
  obtain ⟨s', first', cells', hres', hlist', -, hvals, -⟩ :=
    @qSortCells_spec akas.fa q.store q.first q.cells q.list (max bound q.cells.length) (le_max_right _ _)
  have heq := (hres _ (le_max_left _ _)).symm.trans hres'
  simp only [Option.some.injEq, Prod.mk.injEq] at heq
  obtain ⟨rfl, rfl⟩ := heq
  have hcells : cells = cells' := hlist.seg.unique hlist'.seg
  rw [← hcells] at hvals
  rwa [QueueCells.queue, ← hvals]

theorem wellSorted_iff : WellSorted akas q ↔
    Consistent (qCmp akas.fa) q.queue ∧ (qSort akas.fa q.queue).Pairwise (InOrder akas.fa) := by
  constructor
  · intro h
    exact ⟨h.consistent, h.pairwise⟩
  · rintro ⟨hcons, horder⟩
    refine ⟨?_, hcons⟩
    obtain ⟨s, first, cells, hres, hlist, hperm, hvals, hval⟩ :=
      qSortCells_spec akas.fa q.list (le_refl q.cells.length)
    refine ⟨q.cells.length, s, first, cells, ?_, hlist, hperm, fun i _ => hval i, ?_⟩
    · intro fuel hfuel
      exact qSortCells_mono akas.fa hfuel hres
    · rw [hvals]
      exact horder

/-- A sorted queue has only sent entries or none. -/
theorem WellSorted.all_sent (h : WellSorted akas q) :
    (∀ e ∈ q.queue, e.sent = true) ∨ ∀ e ∈ q.queue, e.sent = false := by
  have hpairs : q.queue.Pairwise (Ordered (qCmp akas.fa) (InOrder akas.fa)) := by
    rw [← pairwise_sortBy h.consistent, ← qSort_eq]
    exact h.pairwise
  have hsame : q.queue.Pairwise fun a b => a.sent = b.sent := by
    apply hpairs.imp
    intro a b hab
    by_contra hne
    have hor : a.sent = true ∨ b.sent = true := by
      cases ha : a.sent <;> cases hb : b.sent <;> simp_all
    rw [Ordered, qCmp_sent akas.fa hor] at hab
    cases ha : a.sent with
    | true =>
      have hb : b.sent = false := by
        cases hb : b.sent with
        | true => exact absurd (ha.trans hb.symm) hne
        | false => rfl
      rw [ha, hb, if_pos (by decide)] at hab
      exact absurd (hab.sent ha) (by simp [hb])
    | false =>
      have hb : b.sent = true := by
        cases hb : b.sent with
        | true => rfl
        | false => exact absurd (ha.trans hb.symm) hne
      rw [ha, hb, if_neg (by decide)] at hab
      exact absurd (hab.sent hb) (by simp [ha])
  by_contra hmixed
  simp only [not_or, not_forall, Bool.not_eq_true, Bool.not_eq_false] at hmixed
  obtain ⟨⟨a, ha, hsa⟩, b, hb, hsb⟩ := hmixed
  have hab : a ≠ b := by
    rintro rfl
    rw [hsa] at hsb
    exact absurd hsb (by simp)
  have := pairs_of_pairwise (fun h => Eq.symm h) hsame (pair_subperm ha hb hab)
  rw [hsa, hsb] at this
  exact absurd this (by simp)

/-- If all entries are sent then they stay as they are. -/
theorem wellSorted_of_sent (h : ∀ e ∈ q.queue, e.sent = true) : WellSorted akas q := by
  have hmem : ∀ {l : List Ftnq}, l.Subperm q.queue → ∀ a ∈ l, a.sent = true := fun hl a ha =>
    h a (hl.subset ha)
  have hcmp : ∀ {a b : Ftnq}, a.sent = true → b.sent = true → qCmp akas.fa a b = 0 := by
    intro a b ha hb
    rw [qCmp_sent akas.fa (.inl ha), ha, hb]
    rfl
  have hcons : Consistent (qCmp akas.fa) q.queue := by
    constructor
    · intro a b hab
      have ha := hmem hab a (by simp)
      have hb := hmem hab b (by simp)
      rw [hcmp ha hb, hcmp hb ha]
    · intro a b c habc _ _
      rw [hcmp (hmem habc a (by simp)) (hmem habc c (by simp))]
  rw [wellSorted_iff, qSort_eq]
  refine ⟨hcons, ?_⟩
  rw [pairwise_sortBy hcons]
  apply pairwise_of_pairs
  intro a b hab
  have ha := hmem hab a (by simp)
  have hb := hmem hab b (by simp)
  rw [Ordered, hcmp ha hb, if_pos (le_refl 0)]
  refine ⟨fun _ => hb, ?_, ?_⟩
  · intro hsa
    exact absurd hsa (by simp [ha])
  · intro hsa
    exact absurd hsa (by simp [ha])

/-- Two unsent entries of a queue, compared. -/
theorem qCmp_queue (h : ∀ e ∈ q.queue, e.sent = false) {a b : Ftnq} (ha : a ∈ q.queue) (hb : b ∈ q.queue) :
    qCmp akas.fa a b = if ftnaddressCmp a.fa b.fa = 0 ∧ Known akas.fa a.fa then -1 else cmpKind a b :=
  qCmp_unsent akas.strings (q.strings a ha) (q.strings b hb) (h a ha) (h b hb)

/-- What is known of one of two equal addresses is known of the other. -/
theorem known_same {a b : Ftnq} (ha : a ∈ q.queue) (hb : b ∈ q.queue)
    (hab : ftnaddressCmp a.fa b.fa = 0 → ¬ Known akas.fa a.fa) :
    ftnaddressCmp b.fa a.fa = 0 → ¬ Known akas.fa b.fa := by
  intro hba hknown
  have hoka := q.strings a ha
  have hokb := q.strings b hb
  apply hab (same_symm hokb hoka hba)
  rcases hknown with hnull | ⟨x, hx, hbx⟩
  · exact .inl (same_isNull hoka hba hnull)
  · exact .inr ⟨x, hx, same_trans hoka hokb (akas.strings x hx) (same_symm hokb hoka hba) hbx⟩

/-- No two entries of a sorted queue share a known address. -/
theorem WellSorted.unknown (h : WellSorted akas q) (hsent : ∀ e ∈ q.queue, e.sent = false) {a b : Ftnq}
    (hab : [a, b].Subperm q.queue) : ftnaddressCmp a.fa b.fa = 0 → ¬ Known akas.fa a.fa := by
  intro hsame hknown
  have ha : a ∈ q.queue := hab.subset (by simp)
  have hb : b ∈ q.queue := hab.subset (by simp)
  have hba : ftnaddressCmp b.fa a.fa = 0 ∧ Known akas.fa b.fa := by
    by_contra hnot
    have hback := @known_same akas q b a hb ha fun hs hk => hnot ⟨hs, hk⟩
    exact hback hsame hknown
  have hanti := h.consistent.antisymm a b hab
  rw [qCmp_queue hsent ha hb, qCmp_queue hsent hb ha, if_pos ⟨hsame, hknown⟩, if_pos hba] at hanti
  omega

theorem WellSorted.qCmp_eq (h : WellSorted akas q) (hsent : ∀ e ∈ q.queue, e.sent = false) {a b : Ftnq}
    (hab : [a, b].Subperm q.queue) : qCmp akas.fa a b = cmpKind a b := by
  rw [qCmp_queue hsent (hab.subset (by simp)) (hab.subset (by simp)), if_neg]
  exact fun hboth => h.unknown hsent hab hboth.1 hboth.2

/-- The times in a sorted queue are not too far apart: of the files of one weight one comes
before all others. -/
theorem WellSorted.window (h : WellSorted akas q) (hsent : ∀ e ∈ q.queue, e.sent = false) :
    InWindow q.queue := by
  intro a ha htype
  have hsub := (@List.filter_sublist _ (fun b : Ftnq => b.type = 100 ∧ weightByName b.path = weightByName a.path)
    q.queue).subperm
  obtain ⟨e, he, hleast⟩ := (h.consistent.of_subperm hsub).exists_least
    (List.ne_nil_of_mem (List.mem_filter.mpr ⟨ha, by simpa using htype⟩))
  obtain ⟨heq, hkind⟩ := List.mem_filter.mp he
  simp only [Bool.decide_and, Bool.and_eq_true, decide_eq_true_eq] at hkind
  refine ⟨e, heq, hkind.1, hkind.2, ?_⟩
  intro b hb hbtype hbw
  by_cases hbe : b = e
  · rw [hbe]
    simp
  · have hpair : [e, b].Subperm q.queue := pair_subperm heq hb (Ne.symm hbe)
    have hle : qCmp akas.fa e b ≤ 0 := by
      have hmem : b ∈ q.queue.filter fun b => b.type = 100 ∧ weightByName b.path = weightByName a.path :=
        List.mem_filter.mpr ⟨hb, by simpa using ⟨hbtype, hbw⟩⟩
      exact (hleast b hmem).resolve_left hbe
    have hback : ¬ qCmp akas.fa b e < 0 := by
      intro hlt
      have := (h.consistent.antisymm e b hpair).mpr hlt
      omega
    have hcmp : cmpKind b e = toInt32 (b.time - e.time) := by
      rw [cmpKind, hbtype, hkind.1, if_neg (lt_irrefl _), if_neg (lt_irrefl _),
        if_pos ⟨rfl, rfl⟩, cmpFileboxFiles,
        if_pos (hbw.trans hkind.2.symm)]
    rw [h.qCmp_eq hsent (pair_swap hpair), hcmp] at hback
    simp only [toInt32, Int.bmod] at hback
    omega

/-- The queues that get sorted. -/
theorem WellSorted.orderly (h : WellSorted akas q) (hsent : ∀ e ∈ q.queue, e.sent = false) :
    Orderly akas.fa q.queue where
  unsent := hsent
  unknown := pairwise_of_pairs fun _ _ hab => h.unknown hsent hab
  window := h.window hsent
  aka := by
    have hpairs : q.queue.Pairwise (Ordered (qCmp akas.fa) (InOrder akas.fa)) := by
      rw [← pairwise_sortBy h.consistent, ← qSort_eq]
      exact h.pairwise
    have hboth : q.queue.Pairwise fun a b => [a, b].Subperm q.queue :=
      pairwise_of_pairs fun _ _ hab => hab
    apply (hpairs.and hboth).imp_of_mem
    rintro a b ha hb ⟨hord, hab⟩ hnulla hnullb
    have hanti := h.consistent.antisymm a b hab
    rw [h.qCmp_eq hsent hab, h.qCmp_eq hsent (pair_swap hab)] at hanti
    rw [Ordered, h.qCmp_eq hsent hab] at hord
    rw [precedes_iff, ← hanti]
    constructor
    · intro hlt
      rw [if_neg (by omega)] at hord
      exact hord.aka (hsent b hb) (hsent a ha) hnullb hnulla
    · intro hle
      rw [if_pos (by omega)] at hord
      exact hord.aka (hsent a ha) (hsent b hb) hnulla hnullb

/-- In an orderly queue the comparison is that of the kinds. -/
theorem Orderly.qCmp_eq (h : Orderly akas.fa q.queue) {a b : Ftnq} (hab : [a, b].Subperm q.queue) :
    qCmp akas.fa a b = cmpKind a b := by
  have ha : a ∈ q.queue := hab.subset (by simp)
  have hb : b ∈ q.queue := hab.subset (by simp)
  have hunknown : ftnaddressCmp a.fa b.fa = 0 → ¬ Known akas.fa a.fa := by
    have hpairs : q.queue.Pairwise fun a b => a ∈ q.queue ∧ b ∈ q.queue ∧
        (ftnaddressCmp a.fa b.fa = 0 → ¬ Known akas.fa a.fa) :=
      h.unknown.imp_of_mem fun hx hy hxy => ⟨hx, hy, hxy⟩
    apply (pairs_of_pairwise ?_ hpairs hab).2.2
    rintro x y ⟨hx, hy, hxy⟩
    exact ⟨hy, hx, known_same hx hy hxy⟩
  rw [qCmp_queue h.unsent ha hb, if_neg]
  exact fun hboth => hunknown hboth.1 hboth.2

theorem Orderly.consistent (h : Orderly akas.fa q.queue) : Consistent (qCmp akas.fa) q.queue where
  antisymm a b hab := by
    rw [h.qCmp_eq hab, h.qCmp_eq (pair_swap hab)]
    exact h.window.antisymm (hab.subset (by simp)) (hab.subset (by simp))
  trans a b c habc hle hle' := by
    have hab : [a, b].Subperm q.queue :=
      (List.cons_sublist_cons.mpr (List.cons_sublist_cons.mpr (List.nil_sublist [c]))).subperm.trans habc
    have hbc : [b, c].Subperm q.queue := (List.sublist_cons_self a [b, c]).subperm.trans habc
    have hac : [a, c].Subperm q.queue :=
      (List.cons_sublist_cons.mpr (List.sublist_cons_self b [c])).subperm.trans habc
    rw [h.qCmp_eq hab] at hle
    rw [h.qCmp_eq hbc] at hle'
    rw [h.qCmp_eq hac]
    exact h.window.trans (habc.subset (by simp)) (habc.subset (by simp)) (habc.subset (by simp)) hle hle'

theorem Orderly.wellSorted (h : Orderly akas.fa q.queue) : WellSorted akas q := by
  rw [wellSorted_iff, qSort_eq]
  refine ⟨h.consistent, ?_⟩
  rw [pairwise_sortBy h.consistent]
  have hboth : q.queue.Pairwise fun a b => [a, b].Subperm q.queue := pairwise_of_pairs fun _ _ hab => hab
  apply (h.aka.and hboth).imp_of_mem
  rintro a b ha hb ⟨haka, hab⟩
  have hanti := h.window.antisymm ha hb
  rw [precedes_iff, ← hanti] at haka
  rw [Ordered, h.qCmp_eq hab]
  have hsa := h.unsent a ha
  have hsb := h.unsent b hb
  by_cases hle : cmpKind a b ≤ 0
  · rw [if_pos hle]
    refine ⟨fun hs => absurd hs (by simp [hsa]), ?_, ?_⟩
    · intro _ _ hnulla hnullb
      exact (haka hnulla hnullb).2 (by omega)
    · intro _ _ _
      exact kindPos_le hle
  · rw [if_neg hle]
    refine ⟨fun hs => absurd hs (by simp [hsb]), ?_, ?_⟩
    · intro _ _ hnullb hnulla
      exact (haka hnulla hnullb).1 (by omega)
    · intro _ _ _
      exact kindPos_le (by have := hanti.mp (by omega); omega)

/-- The queue is sorted exactly if all of its entries are sent, or if the order of the kinds
alone happens to be right. -/
theorem queue_sorted (akas : Akas) (q : QueueCells) :
    WellSorted akas q ↔ (∀ e ∈ q.queue, e.sent = true) ∨ Orderly akas.fa q.queue := by
  constructor
  · intro h
    rcases h.all_sent with hall | hnone
    · exact .inl hall
    · exact .inr (h.orderly hnone)
  · rintro (h | h)
    · exact wellSorted_of_sent h
    · exact h.wellSorted

end

/-- A queue of two entries. -/
def twoCells (a b : Ftnq) (ha : a.fa.Ok) (hb : b.fa.Ok) : QueueCells where
  store i := if i = 0 then ⟨some 1, none, a⟩ else ⟨none, some 0, b⟩
  first := some 0
  cells := [0, 1]
  list := ⟨⟨rfl, rfl, rfl, rfl, rfl⟩, by decide⟩
  strings := by
    intro e he
    simp only [vals, List.map_cons, List.map_nil, List.mem_cons, List.not_mem_nil, or_false] at he
    rcases he with rfl | rfl
    · exact ha
    · exact hb

/-- An address, and a file of one kind for it. -/
def boss : FtnAddr := ⟨str "fidonet", 2, 5020, 1, 0⟩
def fileFor (type : Byte) (sent : Bool) : Ftnq := { fa := boss, flvr := 102, type := type, sent := sent }

theorem boss_ok : boss.Ok := by unfold FtnAddr.Ok; decide +kernel

/-- A status behind the mail for the same address of the list stays there, and an entry already
sent stays before one to be sent. -/
theorem queue_sorted_not :
    qSort [boss] [fileFor 109 false, fileFor 115 false] = [fileFor 109 false, fileFor 115 false] ∧
    ¬ WellSorted ⟨[boss], by simpa using boss_ok⟩
    (twoCells (fileFor 109 false) (fileFor 115 false) boss_ok boss_ok) ∧
    qSort [boss] [fileFor 109 true, fileFor 109 false] = [fileFor 109 true, fileFor 109 false] ∧
    ¬ WellSorted ⟨[boss], by simpa using boss_ok⟩
    (twoCells (fileFor 109 true) (fileFor 109 false) boss_ok boss_ok) := by
  have hstatus : ¬ (qSort [boss] [fileFor 109 false, fileFor 115 false]).Pairwise (InOrder [boss]) := by
    decide +kernel
  have hsent : ¬ (qSort [boss] [fileFor 109 true, fileFor 109 false]).Pairwise (InOrder [boss]) := by
    decide +kernel
  exact ⟨by decide +kernel, fun h => hstatus h.pairwise, by decide +kernel, fun h => hsent h.pairwise⟩

end Binkd
