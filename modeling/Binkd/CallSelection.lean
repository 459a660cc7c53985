import Binkd.NodeTable
import Binkd.Send

/-!
# The node that is called next (`q_next_node` of `ftnq.c`)

The queue is a flavour for mail and one for files in each record of the node table.  A
traversal of the table finds a node that may be called and has the best flavour of all
such nodes, and a node that waits is found unless others are better (`call_selection`).
-/

namespace Binkd

open Lib

/-! ### Flavours -/

/-- A flavour of the queue: a letter of `prio`, or 0 for nothing to send. -/
structure Flvr where
  val : Byte
  known : val = 0 ∨ val ∈ prio
deriving DecidableEq

def Flvr.none : Flvr := ⟨0, .inl rfl⟩

/-- `strchr (prio, c)` as a place; the terminating NUL is found too. -/
def Flvr.rank (f : Flvr) : ℕ := if f.val = 0 then prio.length else prio.idxOf f.val

/-- `MAXFLVR`. -/
def maxFlvr (a b : Flvr) : Flvr := if a.rank < b.rank then a else b

/-- A flavour better than hold: it makes the program call. -/
def Flvr.BetterThanHold (f : Flvr) : Prop := f.rank < prio.idxOf 72

instance decidableBetterThanHold (f : Flvr) : Decidable f.BetterThanHold :=
    inferInstanceAs (Decidable (_ < _))

theorem Flvr.rank_inj {a b : Flvr} (h : a.rank = b.rank) : a = b := by
  obtain ⟨a, ha⟩ := a
  obtain ⟨b, hb⟩ := b
  have hlt {x : Byte} (hx : x ∈ prio) : prio.idxOf x < prio.length := List.idxOf_lt_length_of_mem hx
  simp only [rank] at h
  have hzero {x : Byte} (hx : x ∈ prio) : x ≠ 0 := fun h0 => absurd (h0 ▸ hx) (by decide)
  suffices a = b by subst this; rfl
  rcases ha with rfl | ha <;> rcases hb with rfl | hb
  · rfl
  · rw [if_pos rfl, if_neg (hzero hb)] at h
    exact absurd (hlt hb) (by omega)
  · rw [if_pos rfl, if_neg (hzero ha)] at h
    exact absurd (hlt ha) (by omega)
  · rw [if_neg (hzero ha), if_neg (hzero hb)] at h
    exact (List.idxOf_inj ha).mp h

theorem maxFlvr_rank (a b : Flvr) : (maxFlvr a b).rank = min a.rank b.rank := by
  unfold maxFlvr
  split_ifs with h <;> omega

/-- The test of `q_not_empty` at the end. -/
theorem betterThanHold_iff (f : Flvr) : f.BetterThanHold ↔ f.val ≠ 0 ∧ tolower f.val ≠ 104 := by
  have hprio : ∀ c ∈ prio, (if c = 0 then prio.length else prio.idxOf c) < prio.idxOf 72 ↔ c ≠ 0 ∧
      tolower c ≠ 104 := by
    decide +kernel
  obtain ⟨c, rfl | hc⟩ := f
  · decide
  · exact hprio c hc

/-! ### The nodes of the queue -/

/-- `FTN_NODE` with the fields that the queue sets. -/
structure CallNode extends NodeRec where
  mailFlvr : Flvr := .none
  filesFlvr : Flvr := .none
  holdUntil : Int := 0
  busy : Byte := 0

/-- The nodes of a configuration. -/
structure CallTable where
  nodes : List CallNode
  sorted : Bool
  havedefnode : Bool

/-- What a table of the program is like: no address stands for two nodes, and `defnode` has hosts,
as `check_config` has looked every node up. -/
structure CallTable.Valid (t : CallTable) : Prop where
  distinct : t.nodes.Pairwise fun a b => ftnaddressCmp a.fa b.fa ≠ 0
  defnode_hosts : t.havedefnode = true → ∀ np ∈ t.nodes, ftnaddressCmp defnodeAddr np.fa = 0 →
    np.hosts.isSome

/-- `search_for_node`: the place of the node with an address. -/
def placeOf (fa : FtnAddr) (nodes : List CallNode) : Option ℕ :=
    nodes.findIdx? fun n => ftnaddressCmp fa n.fa = 0

/-- What `get_node_info` makes of a node that is there; the program ends where `xstrdup` gets no text. -/
def nodeInfo (now : Int) (t : CallTable) (n : CallNode) : Option CallNode :=
  let np := if n.stale now && t.havedefnode then (placeOf defnodeAddr t.nodes).bind (t.nodes[·]?) else none
  match np with
  | none => some { n with toNodeRec := dashHosts n.toNodeRec }
  | some np =>
    if np.hosts.isNone then none
    else some { n with toNodeRec := dashHosts (copyDefnode np.toNodeRec n.toNodeRec) }

/-- `qn_not_empty_arg`; the node is given by its place. -/
structure QnArg where
  maxflvr : Flvr := .none
  fn : Option ℕ := none

/-- May the node be called now? -/
def CallNode.Callable (now : Int) (fn : CallNode) : Prop :=
  fn.busy = 0 ∧ fn.hosts ≠ some (str "-") ∧ fn.holdUntil < now

instance decidableCallable (now : Int) (fn : CallNode) : Decidable (fn.Callable now) :=
  inferInstanceAs (Decidable (_ ∧ _ ∧ _))

/-- `qn_not_empty`, for the node at a place. -/
def qnNotEmpty (now : Int) (i : ℕ) (fn : CallNode) (a : QnArg) : QnArg :=
  if fn.Callable now ∧ a.maxflvr ≠ maxFlvr fn.mailFlvr (maxFlvr fn.filesFlvr a.maxflvr) then
    { maxflvr := maxFlvr fn.mailFlvr fn.filesFlvr, fn := some i }
  else a

/-- One round of `foreach_node`.  For each place the clock is read twice, by `get_node_info` and by
`qn_not_empty`. -/
def visitNode (clock : ℕ → Int) (i : ℕ) (t : CallTable) (a : QnArg) : Option (CallTable × QnArg) :=
  match t.nodes[i]? with
  | none => some (t, a)
  | some n =>
    if n.hosts.isSome then some (t, qnNotEmpty (clock (2 * i + 1)) i n a)
    else match (placeOf n.fa t.nodes) with
      | none => none
      | some j => match t.nodes[j]?.bind (nodeInfo (clock (2 * i)) t) with
        | none => none
        | some n' => some ({ t with nodes := t.nodes.set j n' }, qnNotEmpty (clock (2 * i + 1)) j n' a)

/-- The loop of `foreach_node`, with `k` places to go. -/
def foreachNode (clock : ℕ → Int) : ℕ → ℕ → CallTable → QnArg → Option (CallTable × QnArg)
  | 0, _, t, a => some (t, a)
  | k + 1, i, t, a => (visitNode clock i t a).bind fun r => foreachNode clock k (i + 1) r.1 r.2

/-- `sort_nodes`, where the table is not sorted. -/
def CallTable.opened (t : CallTable) : CallTable :=
  if t.sorted then t else { t with nodes := sortBy (fun a b => ftnaddressCmp a.fa b.fa) t.nodes, sorted := true }

/-- `q_not_empty`: the place of the node that it finds. -/
def qNotEmpty (clock : ℕ → Int) (t : CallTable) : Option (Option ℕ × CallTable) :=
  let t := t.opened
  (foreachNode clock t.nodes.length 0 t {}).map fun (t, arg) =>
    (if arg.maxflvr.val ≠ 0 ∧ tolower arg.maxflvr.val ≠ 104 then arg.fn else none, t)

/-- The node is taken out of the queue. -/
def CallNode.taken (fn : CallNode) : CallNode :=
    { fn with mailFlvr := .none, filesFlvr := .none, busy := 99 }

/-- `q_next_node`. -/
def qNextNode (clock : ℕ → Int) (t : CallTable) : Option (Option ℕ × CallTable) :=
  (qNotEmpty clock t).map fun (fn, t) => match fn with
    | none => (none, t)
    | some i => (some i, { t with nodes := t.nodes.modify i CallNode.taken })

/-! ### Looking a node up -/

section

variable {t t' : CallTable} {n n' : CallNode} {now : Int} {a b : FtnAddr}

theorem stricmp_comm : ∀ {s u : Str}, stricmp s u = 0 → stricmp u s = 0 := by
  intro s
  induction s with
  | nil =>
    intro u h
    cases u with
    | nil => rfl
    | cons c u => simpa [stricmp] using h
  | cons c s ih =>
    intro u h
    cases u with
    | nil => simpa [stricmp] using h
    | cons d u =>
      unfold stricmp at h ⊢
      by_cases hcd : tolower c = tolower d
      · rw [if_neg (not_not_intro hcd)] at h
        rw [if_neg (not_not_intro hcd.symm)]
        exact ih h
      · rw [if_pos hcd] at h
        rw [if_pos (Ne.symm hcd)]
        omega

theorem ftnaddressCmp_comm (h : ftnaddressCmp a b = 0) : ftnaddressCmp b a = 0 := by
  obtain ⟨hdom, hz, hnet, hnode, hp⟩ := ftnaddressCmp_eq_zero.mp h
  exact ftnaddressCmp_eq_zero.mpr ⟨stricmp_comm hdom, hz.symm, hnet.symm, hnode.symm, hp.symm⟩

/-- No address stands for two nodes. -/
def Distinct (nodes : List CallNode) : Prop := nodes.Pairwise fun a b => ftnaddressCmp a.fa b.fa ≠ 0

/-- Two places with one address are one place. -/
theorem Distinct.eq {nodes : List CallNode} (h : Distinct nodes) {i j : ℕ} (hi : i < nodes.length)
    (hj : j < nodes.length)
    (hij : ftnaddressCmp nodes[i].fa nodes[j].fa = 0) : i = j := by
  rcases Nat.lt_trichotomy i j with hlt | heq | hgt
  · exact absurd hij (List.pairwise_iff_getElem.mp h i j hi hj hlt)
  · exact heq
  · exact absurd (ftnaddressCmp_comm hij) (List.pairwise_iff_getElem.mp h j i hj hi hgt)

/-- The search finds the node itself. -/
theorem placeOf_self (h : Distinct t.nodes) {i : ℕ} (hi : i < t.nodes.length) :
    placeOf t.nodes[i].fa t.nodes = some i := by
  rw [placeOf, List.findIdx?_eq_some_iff_getElem]
  refine ⟨hi, by simp [ftnaddressCmp_self], ?_⟩
  intro j hj
  have hne : i ≠ j := by omega
  simpa using fun heq => hne (h.eq hi (hj.trans hi) heq)

/-! ### One round -/

/-- What a lookup does to a node: it gets hosts, unless it has some, and stays as it is otherwise. -/
structure Looked (n n' : CallNode) : Prop where
  same : n.hosts.isSome → n' = n
  fa : n'.fa = n.fa
  mail : n'.mailFlvr = n.mailFlvr
  files : n'.filesFlvr = n.filesFlvr
  holdUntil : n'.holdUntil = n.holdUntil
  busy : n'.busy = n.busy

theorem Looked.refl (n : CallNode) : Looked n n := ⟨fun _ => rfl, rfl, rfl, rfl, rfl, rfl⟩

theorem Looked.trans {n₁ n₂ n₃ : CallNode} (h : Looked n₁ n₂) (h' : Looked n₂ n₃) : Looked n₁ n₃ where
  same hsome := by
    have h2 := h.same hsome
    have h3 := h'.same (h2 ▸ hsome)
    rw [h3, h2]
  fa := h'.fa.trans h.fa
  mail := h'.mail.trans h.mail
  files := h'.files.trans h.files
  holdUntil := h'.holdUntil.trans h.holdUntil
  busy := h'.busy.trans h.busy

/-- The lookup of a node of a valid table comes back, with hosts. -/
theorem nodeInfo_looked (now : Int) (hv : t.Valid) (hn : n.hosts.isSome = false) :
    ∃ n', nodeInfo now t n = some n' ∧ n'.hosts.isSome ∧ Looked n n' := by
  have hno {α : Prop} (h : n.hosts.isSome) : α := by rw [hn] at h; exact absurd h Bool.false_ne_true
  unfold nodeInfo
  dsimp only
  cases hnp : (if n.stale now && t.havedefnode then (placeOf defnodeAddr t.nodes).bind (t.nodes[·]?) else none) with
  | none => exact ⟨_, rfl, rfl, fun h => hno h, rfl, rfl, rfl, rfl, rfl⟩
  | some np =>
    have hmem : np.hosts.isSome := by
      split_ifs at hnp with hask
      obtain ⟨i, hi, hat⟩ := Option.bind_eq_some_iff.mp hnp
      obtain ⟨hlt, hcmp, -⟩ := List.findIdx?_eq_some_iff_getElem.mp hi
      rw [List.getElem?_eq_getElem hlt] at hat
      obtain rfl := Option.some.inj hat
      exact hv.defnode_hosts (Bool.and_eq_true _ _ ▸ hask).2 _ (List.getElem_mem hlt) (of_decide_eq_true hcmp)
    have hsome : np.hosts.isNone = false := by
      rw [← Option.not_isSome, hmem]
      rfl
    dsimp only
    rw [hsome, if_neg Bool.false_ne_true]
    exact ⟨_, rfl, rfl, fun h => hno h, rfl, rfl, rfl, rfl, rfl⟩

/-- A round looks up the node at its place, and no other. -/
theorem visitNode_eq (clock : ℕ → Int) (hv : t.Valid) {i : ℕ} (hi : i < t.nodes.length) (a : QnArg) :
    ∃ n', visitNode clock i t a = some ({ t with nodes := t.nodes.set i n' }, qnNotEmpty (clock (2 * i + 1)) i n' a) ∧
      n'.hosts.isSome ∧ Looked t.nodes[i] n' := by
  unfold visitNode
  rw [List.getElem?_eq_getElem hi]
  dsimp only
  cases hsome : t.nodes[i].hosts.isSome with
  | true =>
    refine ⟨t.nodes[i], ?_, hsome, Looked.refl _⟩
    rw [if_pos rfl, List.set_getElem_self]
  | false =>
    obtain ⟨n', hinfo, hhosts, hlooked⟩ := nodeInfo_looked (clock (2 * i)) hv hsome
    refine ⟨n', ?_, hhosts, hlooked⟩
    rw [if_neg Bool.false_ne_true, placeOf_self hv.distinct hi]
    dsimp only
    rw [List.getElem?_eq_getElem hi, Option.bind_some, hinfo]

/-- The table behind a round is valid. -/
theorem Valid.set (hv : t.Valid) {i : ℕ} (hi : i < t.nodes.length) (hfa : n'.fa = t.nodes[i].fa)
    (hhosts : n'.hosts.isSome) :
    CallTable.Valid { t with nodes := t.nodes.set i n' } := by
  constructor
  · have hmap : (t.nodes.set i n').map (·.fa) = t.nodes.map (·.fa) := by
      rw [List.map_set, hfa]
      have hset := List.set_getElem_self (show i < (t.nodes.map (·.fa)).length by rwa [List.length_map])
      rwa [List.getElem_map] at hset
    have hpair : (t.nodes.map (·.fa)).Pairwise fun a b => ftnaddressCmp a b ≠ 0 :=
      List.pairwise_map.mpr hv.distinct
    rw [← hmap] at hpair
    exact List.pairwise_map.mp hpair
  · intro hdef np hnp hcmp
    rcases List.mem_or_eq_of_mem_set hnp with hold | rfl
    · exact hv.defnode_hosts hdef np hold hcmp
    · exact hhosts

end

variable {t t' u : CallTable} {n n' m : CallNode} {now : Int} {a : QnArg} {clock : ℕ → Int} {i j k : ℕ}

/-! ### The whole traversal -/

/-- The better flavour of a node. -/
def CallNode.best (n : CallNode) : Flvr := maxFlvr n.mailFlvr n.filesFlvr

/-- The test with three flavours finds out whether the node is better than all before. -/
theorem qnNotEmpty_cases (now : Int) (i : ℕ) (n : CallNode) (a : QnArg) :
    (qnNotEmpty now i n a = a ∧ (n.Callable now → a.maxflvr.rank ≤ n.best.rank)) ∨
    (qnNotEmpty now i n a = ⟨n.best, some i⟩ ∧ n.Callable now ∧ n.best.rank < a.maxflvr.rank) := by
  have hbest : n.best.rank = min n.mailFlvr.rank n.filesFlvr.rank := maxFlvr_rank _ _
  have hall : (maxFlvr n.mailFlvr (maxFlvr n.filesFlvr a.maxflvr)).rank = min n.best.rank a.maxflvr.rank := by
    rw [maxFlvr_rank, maxFlvr_rank, hbest, min_assoc]
  unfold qnNotEmpty
  split_ifs with h
  · right
    refine ⟨rfl, h.1, ?_⟩
    by_contra hge
    apply h.2
    apply Flvr.rank_inj
    rw [hall]
    omega
  · left
    refine ⟨rfl, fun hcall => ?_⟩
    by_contra hlt
    apply h
    refine ⟨hcall, fun heq => ?_⟩
    rw [← heq] at hall
    omega

/-- What the rounds before the `i`-th have found. -/
structure QnInv (clock : ℕ → Int) (i : ℕ) (t : CallTable) (a : QnArg) : Prop where
  filled : ∀ (j : ℕ) (n : CallNode), j < i → t.nodes[j]? = some n → n.hosts.isSome
  least : ∀ (j : ℕ) (n : CallNode), j < i → t.nodes[j]? = some n → n.Callable (clock (2 * j + 1)) →
    a.maxflvr.rank ≤ n.best.rank
  found : a.fn = none ∧ a.maxflvr = .none ∨
    ∃ (j : ℕ) (n : CallNode), a.fn = some j ∧ j < i ∧ t.nodes[j]? = some n ∧
      n.Callable (clock (2 * j + 1)) ∧ n.best = a.maxflvr

/-- A traversal leaves a table with the same nodes at their places. -/
structure Traversed (t t' : CallTable) : Prop where
  length : t'.nodes.length = t.nodes.length
  looked : ∀ (j : ℕ) (n n' : CallNode), t.nodes[j]? = some n → t'.nodes[j]? = some n' → Looked n n'

theorem Traversed.refl (t : CallTable) : Traversed t t := by
  refine ⟨rfl, fun j n n' hn hn' => ?_⟩
  rw [hn] at hn'
  obtain rfl := Option.some.inj hn'
  exact Looked.refl n

theorem Traversed.trans (h : Traversed t t') (h' : Traversed t' u) : Traversed t u := by
  refine ⟨h'.length.trans h.length, fun j n n' hn hn' => ?_⟩
  obtain ⟨hlt, -⟩ := List.getElem?_eq_some_iff.mp hn
  have hmid := List.getElem?_eq_getElem (h.length ▸ hlt : j < t'.nodes.length)
  exact (h.looked j n _ hn hmid).trans (h'.looked j _ n' hmid hn')

theorem Traversed.set (hi : i < t.nodes.length) (h : Looked t.nodes[i] n') :
    Traversed t { t with nodes := t.nodes.set i n' } := by
  refine ⟨List.length_set, fun j n m hn hm => ?_⟩
  obtain ⟨hj, rfl⟩ := List.getElem?_eq_some_iff.mp hn
  dsimp only at hm
  by_cases hij : i = j
  · subst hij
    rw [List.getElem?_set_self hi] at hm
    obtain rfl := Option.some.inj hm
    exact h
  · rw [List.getElem?_set_ne hij, hn] at hm
    obtain rfl := Option.some.inj hm
    exact Looked.refl _

/-- One round more. -/
theorem QnInv.visit (h : QnInv clock i t a) (hi : i < t.nodes.length) (hhosts : n'.hosts.isSome) :
    QnInv clock (i + 1) { t with nodes := t.nodes.set i n' }
    (qnNotEmpty (clock (2 * i + 1)) i n' a) := by
  have hat : (t.nodes.set i n')[i]? = some n' := List.getElem?_set_self hi
  have hold {j : ℕ} (hj : j < i) : (t.nodes.set i n')[j]? = t.nodes[j]? :=
    List.getElem?_set_ne (by omega)
  -- every place up to `i` is an older one or `i` itself
  have hplace {j : ℕ} {n : CallNode} (hj : j < i + 1) (hn : (t.nodes.set i n')[j]? = some n) :
      j < i ∧ t.nodes[j]? = some n ∨ j = i ∧ n = n' := by
    rcases Nat.lt_succ_iff_lt_or_eq.mp hj with hlt | rfl
    · rw [hold hlt] at hn
      exact .inl ⟨hlt, hn⟩
    · rw [hat] at hn
      exact .inr ⟨rfl, (Option.some.inj hn).symm⟩
  constructor
  · intro j n hj hn
    rcases hplace hj hn with ⟨hlt, hn⟩ | ⟨rfl, rfl⟩
    · exact h.filled j n hlt hn
    · exact hhosts
  · intro j n hj hn hcall
    rcases qnNotEmpty_cases (clock (2 * i + 1)) i n' a with ⟨hq, hle⟩ | ⟨hq, -, hlt'⟩
    · rw [hq]
      rcases hplace hj hn with ⟨hlt, hn⟩ | ⟨rfl, rfl⟩
      · exact h.least j n hlt hn hcall
      · exact hle hcall
    · rw [hq]
      rcases hplace hj hn with ⟨hlt, hn⟩ | ⟨rfl, rfl⟩
      · exact hlt'.le.trans (h.least j n hlt hn hcall)
      · exact le_refl _
  · rcases qnNotEmpty_cases (clock (2 * i + 1)) i n' a with ⟨hq, -⟩ | ⟨hq, hcall, -⟩
    · rw [hq]
      rcases h.found with hnone | ⟨j, n, hfn, hlt, hn, hcall, hbest⟩
      · exact .inl hnone
      · exact .inr ⟨j, n, hfn, by omega, (hold hlt).trans hn, hcall, hbest⟩
    · rw [hq]
      exact .inr ⟨i, n', rfl, by omega, hat, hcall, rfl⟩

theorem foreachNode_inv (clock : ℕ → Int) : ∀ (k i : ℕ) (t : CallTable) (a : QnArg), t.Valid →
    QnInv clock i t a →
    i + k = t.nodes.length → ∃ t' a', foreachNode clock k i t a = some (t', a') ∧ t'.Valid ∧
      QnInv clock t'.nodes.length t' a' ∧ Traversed t t' := by
  intro k
  induction k with
  | zero =>
    intro i t a hv h hlen
    exact ⟨t, a, rfl, hv, by rwa [← hlen], Traversed.refl t⟩
  | succ k ih =>
    intro i t a hv h hlen
    have hi : i < t.nodes.length := by omega
    obtain ⟨n', hvisit, hhosts, hlooked⟩ := visitNode_eq clock hv hi a
    have hstep : Traversed t { t with nodes := t.nodes.set i n' } := Traversed.set hi hlooked
    obtain ⟨t', a', hrest, hv', hinv, htrav⟩ := ih (i + 1) _ _ (Valid.set hv hi hlooked.fa hhosts) (h.visit hi hhosts)
      (by rw [List.length_set]; omega)
    refine ⟨t', a', ?_, hv', hinv, hstep.trans htrav⟩
    rw [foreachNode, hvisit]
    exact hrest

/-- `q_not_empty` sorts the table. -/
theorem opened_perm (t : CallTable) : t.opened.nodes.Perm t.nodes := by
  unfold CallTable.opened
  split_ifs
  · exact List.Perm.refl _
  · exact sortBy_perm t.nodes

theorem Valid.opened (hv : t.Valid) : t.opened.Valid where
  distinct := (opened_perm t).symm.pairwise hv.distinct fun h hba => h (ftnaddressCmp_comm hba)
  defnode_hosts hdef np hnp := by
    refine hv.defnode_hosts ?_ np ((opened_perm t).subset hnp)
    unfold CallTable.opened at hdef
    split_ifs at hdef <;> exact hdef

/-! ### What is selected -/

/-- The node is one that may be called, and no other one has a better flavour. -/
structure Selected (clock : ℕ → Int) (u : CallTable) (i : ℕ) (n : CallNode) : Prop where
  node : u.nodes[i]? = some n
  callable : n.Callable (clock (2 * i + 1))
  better : n.best.BetterThanHold
  maximal : ∀ (j : ℕ) (m : CallNode), u.nodes[j]? = some m → m.Callable (clock (2 * j + 1)) →
    n.best.rank ≤ m.best.rank

/-- Some node may be called and has something better than hold for it. -/
def Wanted (clock : ℕ → Int) (u : CallTable) : Prop :=
  ∃ (j : ℕ) (m : CallNode), u.nodes[j]? = some m ∧ m.Callable (clock (2 * j + 1)) ∧ m.best.BetterThanHold

/-- `q_not_empty`, with the table that its traversal leaves. -/
theorem qNotEmpty_spec (clock : ℕ → Int) (hv : t.Valid) :
    ∃ r u, qNotEmpty clock t = some (r, u) ∧ u.Valid ∧ Traversed t.opened u ∧
    (∀ n ∈ u.nodes, n.hosts.isSome) ∧
      ((∃ i n, r = some i ∧ Selected clock u i n) ∨ r = none ∧ ¬ Wanted clock u) := by
  have hinit : QnInv clock 0 t.opened {} :=
    ⟨fun j _ hj => absurd hj (by omega), fun j _ hj => absurd hj (by omega), .inl ⟨rfl, rfl⟩⟩
  obtain ⟨u, a, hloop, hv', hinv, htrav⟩ := foreachNode_inv clock t.opened.nodes.length 0 t.opened {} (Valid.opened hv) hinit
    (by omega)
  have hlt {j : ℕ} {m : CallNode} (hm : u.nodes[j]? = some m) : j < u.nodes.length :=
    (List.getElem?_eq_some_iff.mp hm).1
  refine ⟨_, u, by rw [qNotEmpty, hloop]; rfl, hv', htrav, ?_, ?_⟩
  · intro n hn
    obtain ⟨j, hj, rfl⟩ := List.mem_iff_getElem.mp hn
    exact hinv.filled j _ hj (List.getElem?_eq_getElem hj)
  · by_cases hbetter : a.maxflvr.BetterThanHold
    · left
      rw [if_pos ((betterThanHold_iff _).mp hbetter)]
      rcases hinv.found with ⟨-, hnone⟩ | ⟨i, n, hfn, hi, hn, hcall, hbest⟩
      · rw [hnone] at hbetter
        exact absurd hbetter (by decide)
      · refine ⟨i, n, hfn, hn, hcall, ?_, ?_⟩
        · rwa [hbest]
        · intro j m hm hcallm
          rw [hbest]
          exact hinv.least j m (hlt hm) hm hcallm
    · right
      refine ⟨if_neg fun h => hbetter ((betterThanHold_iff _).mpr h), ?_⟩
      rintro ⟨j, m, hm, hcallm, hbetterm⟩
      apply hbetter
      have hle := hinv.least j m (hlt hm) hm hcallm
      exact lt_of_le_of_lt hle hbetterm

/-! ### Runs of calls -/

/-- A run of calls of `q_next_node`, each with its clock: the addresses of the nodes that they
return, and the table behind the last. -/
def callRun : List (ℕ → Int) → CallTable → Option (List FtnAddr × CallTable)
  | [], t => some ([], t)
  | clock :: clocks, t => (qNextNode clock t).bind fun (r, t1) =>
    (callRun clocks t1).map fun (addrs, t2) => ((r.bind (t1.nodes[·]?)).toList.map (·.fa) ++ addrs, t2)

/-- The table has a node with this address that no call has taken. -/
def Free (t : CallTable) (fa : FtnAddr) : Prop := ∃ n ∈ t.nodes, n.fa = fa ∧ n.busy = 0

theorem free_opened {fa : FtnAddr} (h : Free t.opened fa) : Free t fa := by
  obtain ⟨n, hn, hfa, hbusy⟩ := h
  exact ⟨n, (opened_perm t).subset hn, hfa, hbusy⟩

/-- A lookup makes no node free. -/
theorem free_traversed {fa : FtnAddr} (htrav : Traversed t u) (h : Free u fa) : Free t fa := by
  obtain ⟨n', hn', hfa, hbusy⟩ := h
  obtain ⟨j, hj, rfl⟩ := List.mem_iff_getElem.mp hn'
  have hj' : j < t.nodes.length := htrav.length ▸ hj
  have hlooked := htrav.looked j _ _ (List.getElem?_eq_getElem hj') (List.getElem?_eq_getElem hj)
  exact ⟨t.nodes[j], List.getElem_mem hj', hlooked.fa ▸ hfa, hlooked.busy ▸ hbusy⟩

/-- The node that a call takes is not free behind it; no other one gets free. -/
theorem free_taken (hv : u.Valid) (hi : i < u.nodes.length) {fa : FtnAddr}
    (h : Free { u with nodes := u.nodes.modify i CallNode.taken } fa) :
    Free u fa ∧ fa ≠ u.nodes[i].fa := by
  obtain ⟨n', hn', hfa, hbusy⟩ := h
  obtain ⟨j, hj, rfl⟩ := List.mem_iff_getElem.mp hn'
  dsimp only at hj hfa hbusy
  have hj' : j < u.nodes.length := by rwa [List.length_modify] at hj
  rw [List.getElem_modify] at hfa hbusy
  by_cases hij : i = j
  · rw [if_pos hij] at hbusy
    exact absurd hbusy (show (99 : Byte) ≠ 0 by decide)
  · rw [if_neg hij] at hfa hbusy
    refine ⟨⟨u.nodes[j], List.getElem_mem hj', hfa, hbusy⟩, fun heq => hij ?_⟩
    have hcmp : ftnaddressCmp u.nodes[i].fa u.nodes[j].fa = 0 := by
      rw [← heq, ← hfa]
      exact ftnaddressCmp_self _
    exact Distinct.eq hv.distinct hi hj' hcmp

theorem Valid.taken (hv : u.Valid) (i : ℕ) : CallTable.Valid
    { u with nodes := u.nodes.modify i CallNode.taken } := by
  have hmap : (u.nodes.modify i CallNode.taken).map (fun n => (n.fa, n.hosts)) = u.nodes.map (fun n => (n.fa, n.hosts)) := by
    apply List.ext_getElem
    · simp
    · intro j h1 h2
      simp only [List.getElem_map, List.getElem_modify]
      split_ifs <;> rfl
  constructor
  · have hpair : (u.nodes.map fun n => (n.fa, n.hosts)).Pairwise fun a b => ftnaddressCmp a.1 b.1 ≠ 0 :=
      List.pairwise_map.mpr hv.distinct
    rw [← hmap] at hpair
    exact List.pairwise_map.mp hpair
  · intro hdef np hnp hcmp
    have hmem : (np.fa, np.hosts) ∈ u.nodes.map fun n => (n.fa, n.hosts) :=
      hmap ▸ List.mem_map_of_mem hnp
    obtain ⟨m, hm, heq⟩ := List.mem_map.mp hmem
    obtain ⟨hfa, hhosts⟩ := Prod.mk.inj heq
    rw [← hhosts]
    exact hv.defnode_hosts hdef m hm (hfa ▸ hcmp)

/-- One call: a valid table again, and a node that was free and is so no more. -/
theorem qNextNode_step (clock : ℕ → Int) (hv : t.Valid) :
    ∃ r t', qNextNode clock t = some (r, t') ∧ t'.Valid ∧ (∀ fa, Free t' fa → Free t fa) ∧
      ∀ i, r = some i → ∃ n, t'.nodes[i]? = some n ∧ Free t n.fa ∧ ¬ Free t' n.fa := by
  obtain ⟨r, u, hq, hvu, htrav, -, hsel⟩ := qNotEmpty_spec clock hv
  have hfree (fa : FtnAddr) (h : Free u fa) : Free t fa := free_opened (free_traversed htrav h)
  rcases hsel with ⟨i, n, rfl, hs⟩ | ⟨rfl, -⟩
  · obtain ⟨hi, hn⟩ := List.getElem?_eq_some_iff.mp hs.node
    refine ⟨some i, { u with nodes := u.nodes.modify i CallNode.taken }, by rw [qNextNode, hq]; rfl,
      Valid.taken hvu i, ?_, ?_⟩
    · intro fa h
      exact hfree fa (free_taken hvu hi h).1
    · intro k hk
      obtain rfl := Option.some.inj hk
      refine ⟨n.taken, ?_, ?_, ?_⟩
      · dsimp only
        rw [List.getElem?_modify_eq, hs.node]
        rfl
      · exact hfree _ ⟨n, List.mem_of_getElem? hs.node, rfl, hs.callable.1⟩
      · intro h
        exact (free_taken hvu hi h).2 (by rw [hn]; rfl)
  · exact ⟨none, u, by rw [qNextNode, hq]; rfl, hvu, hfree, fun i hi => absurd hi (by simp)⟩

/-- A run comes to its end, with a valid table, and returns free nodes, none of them twice. -/
theorem callRun_nodup : ∀ (clocks : List (ℕ → Int)) (t : CallTable), t.Valid →
    ∃ addrs t', callRun clocks t = some (addrs, t') ∧ t'.Valid ∧ addrs.Nodup ∧
    ∀ fa ∈ addrs, Free t fa := by
  intro clocks
  induction clocks with
  | nil =>
    intro t hv
    exact ⟨[], t, rfl, hv, List.nodup_nil, fun fa h => absurd h List.not_mem_nil⟩
  | cons clock clocks ih =>
    intro t hv
    obtain ⟨r, t1, hcall, hv1, hless, hnew⟩ := qNextNode_step clock hv
    obtain ⟨addrs, t', hrun, hv', hnodup, hfree⟩ := ih t1 hv1
    have heq : callRun (clock :: clocks) t = some ((r.bind (t1.nodes[·]?)).toList.map (·.fa) ++ addrs, t') := by
      rw [callRun, hcall, Option.bind_some]
      dsimp only
      rw [hrun]
      rfl
    refine ⟨_, t', heq, hv', ?_⟩
    cases r with
    | none => exact ⟨hnodup, fun fa h => hless fa (hfree fa h)⟩
    | some i =>
      obtain ⟨n, hn, hwas, hno⟩ := hnew i rfl
      rw [Option.bind_some, hn]
      refine ⟨List.nodup_cons.mpr ⟨fun hmem => hno (hfree _ hmem), hnodup⟩, ?_⟩
      intro fa h
      rcases List.mem_cons.mp h with rfl | h
      · exact hwas
      · exact hless fa (hfree fa h)

/-- The selection of nodes to call.  In a run of calls no node is returned twice, and behind every
run the next call looks every node up and then returns a node that is not busy, not to be called
never and not on hold, with the best flavour of all such nodes; it returns none if and only if no
such node has a flavour better than hold. -/
theorem call_selection (t0 : CallTable) (hv : t0.Valid) (clocks : List (ℕ → Int)) :
    ∃ addrs t, callRun clocks t0 = some (addrs, t) ∧ addrs.Nodup ∧
      ∀ clock : ℕ → Int, ∃ u, Traversed t.opened u ∧ (∀ n ∈ u.nodes, n.hosts.isSome) ∧
        ((∃ i n, Selected clock u i n ∧
          qNextNode clock t = some (some i, { u with nodes := u.nodes.modify i CallNode.taken })) ∨
        ¬ Wanted clock u ∧ qNextNode clock t = some (none, u)) := by
  obtain ⟨addrs, t, hrun, hvt, hnodup, -⟩ := callRun_nodup clocks t0 hv
  refine ⟨addrs, t, hrun, hnodup, fun clock => ?_⟩
  obtain ⟨r, u, hq, -, htrav, hhosts, hsel⟩ := qNotEmpty_spec clock hvt
  refine ⟨u, htrav, hhosts, ?_⟩
  rcases hsel with ⟨i, n, rfl, hs⟩ | ⟨rfl, hno⟩
  · exact .inl ⟨i, n, hs, by rw [qNextNode, hq]; rfl⟩
  · exact .inr ⟨hno, by rw [qNextNode, hq]; rfl⟩

/-- A node with crash mail, and one with files on hold. -/
def crashTable : CallTable where
  nodes := [
    { fa := ⟨str "fidonet", 2, 5047, 13, 0⟩, hosts := some (str "*"), bwSend := 0, bwRecv := 0, affFlag := 0,
      mailFlvr := ⟨67, .inr (by decide)⟩ },
    { fa := ⟨str "fidonet", 2, 5047, 14, 0⟩, hosts := some (str "*"), bwSend := 0, bwRecv := 0, affFlag := 0,
      filesFlvr := ⟨104, .inr (by decide)⟩ }]
  sorted := true
  havedefnode := false

/-- The first call returns the node with the crash mail, the second none. -/
theorem crash_called :
    (∃ addrs t, callRun [fun _ => 1] crashTable = some (addrs, t) ∧ addrs.Nodup ∧
      ∀ clock : ℕ → Int, ∃ u, Traversed t.opened u ∧ (∀ n ∈ u.nodes, n.hosts.isSome) ∧
        ((∃ i n, Selected clock u i n ∧
          qNextNode clock t = some (some i, { u with nodes := u.nodes.modify i CallNode.taken })) ∨
        ¬ Wanted clock u ∧ qNextNode clock t = some (none, u))) ∧
    (callRun [fun _ => 1, fun _ => 2] crashTable).map (·.1) = some [⟨str "fidonet", 2, 5047, 13, 0⟩] := by
  refine ⟨call_selection crashTable ⟨?_, ?_⟩ [fun _ => 1], by decide +kernel⟩
  · exact List.pairwise_pair.mpr (by decide)
  · intro hno
    exact absurd hno Bool.false_ne_true

end Binkd
