import Binkd.FtnNode
import Binkd.Lib.Bsearch

/-!
# The node table (`ftnnode.c`)

`add_node` looks for the address in any order, appends and marks the table unsorted;
`get_node_info` sorts, searches by halves and may add a node from `defnode`.  The texts
of a record are values here: where the source hands on a pointer, the record gets the
text.  `NodesInv` holds of every table that a run reaches, and `Lookup` says what one
lookup does.
-/

namespace Binkd

open Lib

/-! ### The node table -/

/-- `FTN_NODE` with the fields that the sessions' part of it leaves out. -/
structure NodeRec extends FtnNode where
  npFlag : Bool := false
  ipAfamily : Int := 0
  bwSend : Int
  bwRecv : Int
  affFlag : Int

/-- `nNod`, `pNodArray`, `nNodSorted` and `havedefnode` of a configuration. -/
structure NodeTable where
  nodes : List NodeRec := []
  sorted : Bool := false
  havedefnode : Bool := false

/-- The arguments of `add_node`; a flag that is `none` is given as `USE_OLD`. -/
structure NodeArgs where
  hosts : Option Str := none
  pwd : Option Str := none
  pktPwd : Option Str := none
  outPwd : Option Str := none
  oboxFlvr : Byte := 45
  obox : Option Str := none
  ibox : Option Str := none
  nrFlag : Option Bool := none
  ndFlag : Option Bool := none
  mdFlag : MdFlag := .useOld
  restrictIP : Option RestrictIP := none
  hcFlag : HcFlag := .useOld
  npFlag : Option Bool := none
  ncFlag : Option Bool := none
  pipe : Option Str := none
  ipAfamily : Option Int := none
  bwSend : Int := 0
  bwRecv : Int := 0
  affFlag : Int := 0
  pwd_nul : ∀ s ∈ pwd, (0 : Byte) ∉ s := by decide
  outPwd_nul : ∀ s ∈ outPwd, (0 : Byte) ∉ s := by decide

/-- `RESOLVE_TTL`. -/
def resolveTtl : Int := 3600

/-- The record that `add_node` makes for an address it does not find. -/
def newNode (fa : FtnAddr) (args : NodeArgs) : NodeRec where
  fa := fa
  listed := 0
  bwSend := args.bwSend
  bwRecv := args.bwRecv
  affFlag := args.affFlag

/-- Has the node no password of its own yet? -/
def FtnNode.noPwds (pn : FtnNode) : Bool :=
  pn.pwd = str "-" && pn.pktPwd.getD (str "-") = str "-" && pn.outPwd.getD (str "-") = str "-"

/-- The passwords of `add_node`: a set that is there is left alone. -/
def setPwds (args : NodeArgs) (pn : NodeRec) : NodeRec :=
  match h : args.pwd with
  | none => pn
  | some pwd =>
    if pwd ≠ str "-" ∧ pn.noPwds then
      let pwd' := strnzcpy pwd (maxPwdLen + 1)
      have hnul : (0 : Byte) ∉ pwd' := fun h0 => args.pwd_nul pwd h (List.mem_of_mem_take h0)
      { pn with
        pwd := pwd'
        pktPwd := match args.pktPwd with
          | some w => if w ≠ str "-" then some w else none
          | none => some pwd'
        outPwd := match args.outPwd with
          | some w => if w ≠ str "-" then some w else none
          | none => some pwd'
        pwd_length := List.length_take_le _ _
        pwd_nul := hnul
        outPwd_nul := by
          intro s hs
          split at hs
          · next w hw =>
            split_ifs at hs
            · rw [← Option.some.inj hs]
              exact args.outPwd_nul w hw
            · cases hs
          · rw [← Option.some.inj hs]
            exact hnul }
    else pn

/-- The flags, the pipe and the hosts of `add_node`. -/
def setFlags (now : Int) (args : NodeArgs) (pn : NodeRec) : NodeRec :=
  { pn with
    recheck := now + resolveTtl
    mdFlag := if args.mdFlag ≠ .useOld then args.mdFlag else pn.mdFlag
    restrictIP := args.restrictIP.getD pn.restrictIP
    nrFlag := args.nrFlag.getD pn.nrFlag
    ndFlag := args.ndFlag.getD pn.ndFlag
    npFlag := args.npFlag.getD pn.npFlag
    ncFlag := args.ncFlag.getD pn.ncFlag
    hcFlag := if args.hcFlag ≠ .useOld then args.hcFlag else pn.hcFlag
    ipAfamily := args.ipAfamily.getD pn.ipAfamily
    pipe := args.pipe.or pn.pipe
    hosts := if args.hosts.getD [] ≠ [] then args.hosts else pn.hosts }

/-- The flavour and the boxes. -/
def setBoxes (args : NodeArgs) (pn : NodeRec) : NodeRec :=
  { pn with
    oboxFlvr := if args.oboxFlvr ≠ 45 then args.oboxFlvr else pn.oboxFlvr
    obox := args.obox.or pn.obox
    ibox := args.ibox.or pn.ibox }

/-- What `add_node` sets of a record, new or old. -/
def setNode (now : Int) (args : NodeArgs) (pn : NodeRec) : NodeRec :=
  setBoxes args (setPwds args (setFlags now args pn))

/-- `add_node`: the place of the node, and the table. -/
def addNode (now : Int) (fa : FtnAddr) (args : NodeArgs) (t : NodeTable) : ℕ × NodeTable :=
  match t.nodes.findIdx? fun pn => ftnaddressCmp pn.fa fa = 0 with
  | some cn => (cn, { t with nodes := t.nodes.modify cn (setNode now args) })
  | none =>
    (t.nodes.length, { t with nodes := t.nodes ++ [setNode now args (newNode fa args)], sorted := false })

/-- `sort_nodes`. -/
def sortNodes (t : NodeTable) : NodeTable :=
  { t with nodes := sortBy (fun a b => ftnaddressCmp a.fa b.fa) t.nodes, sorted := true }

/-- `search_for_node`: the place of the node in a sorted table. -/
def searchTable (fa : FtnAddr) (t : NodeTable) : Option ℕ :=
  bsearch (fun pn : NodeRec => ftnaddressCmp fa pn.fa) t.nodes

/-- The arguments with which `get_defnode_info` adds a node. -/
def NodeRec.defArgs (np : NodeRec) : NodeArgs where
  hosts := np.hosts
  oboxFlvr := np.oboxFlvr
  obox := np.obox
  ibox := np.ibox
  nrFlag := some np.nrFlag
  ndFlag := some np.ndFlag
  mdFlag := np.mdFlag
  restrictIP := some np.restrictIP
  hcFlag := np.hcFlag
  npFlag := some np.npFlag
  ncFlag := some np.ncFlag
  pipe := np.pipe
  ipAfamily := some np.ipAfamily
  bwSend := np.bwSend
  bwRecv := np.bwRecv
  affFlag := np.affFlag

/-- What `get_defnode_info` copies to a record that is there. -/
def copyDefnode (np on : NodeRec) : NodeRec :=
  { on with
    hosts := np.hosts, nrFlag := np.nrFlag, ndFlag := np.ndFlag, mdFlag := np.mdFlag,
      npFlag := np.npFlag,
    ncFlag := np.ncFlag, hcFlag := np.hcFlag, restrictIP := np.restrictIP, pipe := np.pipe,
    ipAfamily := np.ipAfamily, bwSend := np.bwSend, bwRecv := np.bwRecv, affFlag := np.affFlag }

/-- `get_defnode_info`; `on` is the place of the node, where it is known.  The program ends where
`xstrdup` gets no text. -/
def getDefnode (now : Int) (fa : FtnAddr) (on : Option ℕ) (t : NodeTable) :
    Option (Option ℕ × NodeTable) :=
  match (searchTable defnodeAddr t).bind (t.nodes[·]?) with
  | none => some (on, t)
  | some np => match on with
    | some i =>
      if np.hosts.isNone then none
      else some (some i, { t with nodes := t.nodes.modify i (copyDefnode np) })
    | none =>
      let t := sortNodes (addNode now fa np.defArgs t).2
      some (searchTable fa t, t)

/-- The hosts of a record that has none yet. -/
def dashHosts (np : NodeRec) : NodeRec := { np with hosts := some (np.hosts.getD (str "-")) }

/-- Is it time to ask `defnode` again? -/
def NodeRec.stale (now : Int) (n : NodeRec) : Bool := n.listed ≠ 1 && n.recheck < now

/-- The order that `get_node_info` needs. -/
def openTable (t : NodeTable) : NodeTable := if t.sorted then t else sortNodes t

/-- `get_node_info`: the place of the node, and the table. -/
def getNode (now : Int) (fa : FtnAddr) (t : NodeTable) : Option (Option ℕ × NodeTable) :=
  let t := openTable t
  let np := searchTable fa t
  let old : Bool := match np.bind (t.nodes[·]?) with
    | none => true
    | some n => n.stale now
  match if old && t.havedefnode then getDefnode now fa np t else some (np, t) with
  | none => none
  | some (none, t) => some (none, t)
  | some (some i, t) => some (some i, { t with nodes := t.nodes.modify i dashHosts })

/-- `poll_node`, what it does to the table. -/
def pollNode (now : Int) (fa : FtnAddr) (t : NodeTable) : Option NodeTable :=
  match getNode now fa t with
  | none => none
  | some (some _, t) => some t
  | some (none, t) => some (addNode now fa { hosts := some (str "*") } t).2

/-- What the lines of the configuration and of the password file set behind `add_node`. -/
inductive Listing
  | nlNode | nlPasswords
deriving DecidableEq

def listNode (l : Listing) (pn : NodeRec) : NodeRec :=
  match l with
  | .nlNode => { pn with listed := 1 }
  | .nlPasswords => { pn with listed := if pn.listed = 0 then 2 else pn.listed }

/-- The calls that use the table, and the line that sets `havedefnode`. -/
inductive NodeOp
  | add (now : Int) (fa : FtnAddr) (args : NodeArgs) (l : Listing)
  | poll (now : Int) (fa : FtnAddr)
  | get (now : Int) (fa : FtnAddr)
  | defnode

def nodeStep (t : NodeTable) : NodeOp → Option NodeTable
  | .add now fa args l =>
    let (cn, t) := addNode now fa args t
    some { t with nodes := t.nodes.modify cn (listNode l) }
  | .poll now fa => pollNode now fa t
  | .get now fa => (getNode now fa t).map (·.2)
  | .defnode => some { t with havedefnode := true }

def runNodes (ops : List NodeOp) (t : NodeTable) : Option NodeTable := ops.foldlM nodeStep t

/-- Has the table a node with the address? -/
def Holds (t : NodeTable) (fa : FtnAddr) : Prop := ∃ n ∈ t.nodes, ftnaddressCmp n.fa fa = 0

instance (t : NodeTable) (fa : FtnAddr) : Decidable (Holds t fa) :=
  inferInstanceAs (Decidable (∃ n ∈ t.nodes, ftnaddressCmp n.fa fa = 0))

/-- The address that a call adds: that of `add_node` and of `poll_node`, and that for which
`get_node_info` makes a node from `defnode`. -/
def NodeOp.adds (t : NodeTable) : NodeOp → List FtnAddr
  | .add _ fa _ _ => [fa]
  | .poll _ fa => [fa]
  | .get _ fa => if t.havedefnode = true ∧ Holds t defnodeAddr ∧ ¬ Holds t fa then [fa] else []
  | .defnode => []

/-- The addresses that a run adds. -/
def added : List NodeOp → NodeTable → List FtnAddr
  | [], _ => []
  | op :: ops, t => op.adds t ++ ((nodeStep t op).map (added ops)).getD []

def NodeOp.addrs : NodeOp → List FtnAddr
  | .add _ fa _ _ => [fa]
  | .poll _ fa => [fa]
  | .get _ fa => [fa]
  | .defnode => []

/-! ### What the calls leave alone -/

theorem setPwds_fa (args : NodeArgs) (pn : NodeRec) : (setPwds args pn).fa = pn.fa := by
  unfold setPwds
  split
  · rfl
  · split_ifs <;> rfl

theorem setNode_fa (now : Int) (args : NodeArgs) (pn : NodeRec) : (setNode now args pn).fa = pn.fa :=
  setPwds_fa args (setFlags now args pn)

theorem listNode_fa (l : Listing) (pn : NodeRec) : (listNode l pn).fa = pn.fa := by
  cases l <;> rfl

/-- The passwords of a node. -/
def NodeRec.pwds (pn : NodeRec) : Str × Option Str × Option Str := (pn.pwd, pn.pktPwd, pn.outPwd)

/-- A set of passwords that is there stays. -/
theorem setPwds_pwds (args : NodeArgs) {pn : NodeRec} (h : pn.noPwds = false) :
    setPwds args pn = pn := by
  unfold setPwds
  split
  · rfl
  · rw [if_neg (fun hc => by rw [h] at hc; exact absurd hc.2 Bool.false_ne_true)]

theorem setNode_pwds (now : Int) (args : NodeArgs) {pn : NodeRec} (h : pn.noPwds = false) :
    (setNode now args pn).pwds = pn.pwds := by
  have hflags : (setFlags now args pn).noPwds = false := h
  rw [setNode, setPwds_pwds args hflags]
  rfl

theorem listNode_pwds (l : Listing) (pn : NodeRec) : (listNode l pn).pwds = pn.pwds := by
  cases l <;> rfl

/-- What `add_node` does not set keeps its value. -/
structure KeepsOld (args : NodeArgs) (n n' : NodeRec) : Prop where
  nrFlag : args.nrFlag = none → n'.nrFlag = n.nrFlag
  ndFlag : args.ndFlag = none → n'.ndFlag = n.ndFlag
  mdFlag : args.mdFlag = .useOld → n'.mdFlag = n.mdFlag
  restrictIP : args.restrictIP = none → n'.restrictIP = n.restrictIP
  hcFlag : args.hcFlag = .useOld → n'.hcFlag = n.hcFlag
  npFlag : args.npFlag = none → n'.npFlag = n.npFlag
  ncFlag : args.ncFlag = none → n'.ncFlag = n.ncFlag
  ipAfamily : args.ipAfamily = none → n'.ipAfamily = n.ipAfamily
  hosts : args.hosts.getD [] = [] → n'.hosts = n.hosts
  pipe : args.pipe = none → n'.pipe = n.pipe
  oboxFlvr : args.oboxFlvr = 45 → n'.oboxFlvr = n.oboxFlvr
  obox : args.obox = none → n'.obox = n.obox
  ibox : args.ibox = none → n'.ibox = n.ibox

/-- The two records differ in their passwords only, as far as `add_node` sets them. -/
structure SameOptions (n n' : NodeRec) : Prop where
  nrFlag : n'.nrFlag = n.nrFlag
  ndFlag : n'.ndFlag = n.ndFlag
  mdFlag : n'.mdFlag = n.mdFlag
  restrictIP : n'.restrictIP = n.restrictIP
  hcFlag : n'.hcFlag = n.hcFlag
  npFlag : n'.npFlag = n.npFlag
  ncFlag : n'.ncFlag = n.ncFlag
  ipAfamily : n'.ipAfamily = n.ipAfamily
  hosts : n'.hosts = n.hosts
  pipe : n'.pipe = n.pipe
  oboxFlvr : n'.oboxFlvr = n.oboxFlvr
  obox : n'.obox = n.obox
  ibox : n'.ibox = n.ibox

theorem setPwds_same (args : NodeArgs) (pn : NodeRec) : SameOptions pn (setPwds args pn) := by
  unfold setPwds
  split
  · constructor <;> rfl
  · split_ifs <;> constructor <;> rfl

theorem setNode_keepsOld (now : Int) (args : NodeArgs) (pn : NodeRec) :
    KeepsOld args pn (setNode now args pn) := by
  have hs := setPwds_same args (setFlags now args pn)
  constructor <;> intro h
  · exact hs.nrFlag.trans (by simp [setFlags, h])
  · exact hs.ndFlag.trans (by simp [setFlags, h])
  · exact hs.mdFlag.trans (by simp [setFlags, h])
  · exact hs.restrictIP.trans (by simp [setFlags, h])
  · exact hs.hcFlag.trans (by simp [setFlags, h])
  · exact hs.npFlag.trans (by simp [setFlags, h])
  · exact hs.ncFlag.trans (by simp [setFlags, h])
  · exact hs.ipAfamily.trans (by simp [setFlags, h])
  · exact hs.hosts.trans (by simp [setFlags, h])
  · exact hs.pipe.trans (by simp [setFlags, h])
  · exact Eq.trans (by simp [setNode, setBoxes, h]) hs.oboxFlvr
  · exact Eq.trans (by simp [setNode, setBoxes, h]) hs.obox
  · exact Eq.trans (by simp [setNode, setBoxes, h]) hs.ibox

/-! ### What holds of the table -/

section Table

variable {S : FtnAddr → Prop} {t t' : NodeTable} {now : Int} {fa : FtnAddr}

/-- No two nodes have one address. -/
def NodeTable.Unique (t : NodeTable) : Prop := t.nodes.Pairwise fun a b => ftnaddressCmp a.fa b.fa ≠ 0

/-- The addresses can be compared, no two are the same, and a table that is marked so is sorted. -/
structure NodesInv (S : FtnAddr → Prop) (t : NodeTable) : Prop where
  inS : ∀ n ∈ t.nodes, S n.fa
  unique : t.Unique
  ordered : t.sorted = true → t.nodes.Pairwise fun a b => ftnaddressCmp a.fa b.fa ≤ 0

/-- The nodes of a table go on in another, with their passwords. -/
def GoesOn (t t' : NodeTable) : Prop :=
  ∀ n ∈ t.nodes, ∃ n' ∈ t'.nodes, n'.fa = n.fa ∧ (n.noPwds = false → n'.pwds = n.pwds)

theorem GoesOn.refl (t : NodeTable) : GoesOn t t := fun n hn => ⟨n, hn, rfl, fun _ => rfl⟩

theorem noPwds_congr {n n' : NodeRec} (h : n'.pwds = n.pwds) : n'.noPwds = n.noPwds := by
  have h1 : n'.pwd = n.pwd := congrArg (·.1) h
  have h2 : n'.pktPwd = n.pktPwd := congrArg (·.2.1) h
  have h3 : n'.outPwd = n.outPwd := congrArg (·.2.2) h
  unfold FtnNode.noPwds
  rw [h1, h2, h3]

theorem GoesOn.trans {t₁ t₂ t₃ : NodeTable} (h : GoesOn t₁ t₂) (h' : GoesOn t₂ t₃) : GoesOn t₁ t₃ := by
  intro n hn
  obtain ⟨n₂, hn₂, hfa₂, hpwd₂⟩ := h n hn
  obtain ⟨n₃, hn₃, hfa₃, hpwd₃⟩ := h' n₂ hn₂
  refine ⟨n₃, hn₃, hfa₃.trans hfa₂, fun hno => ?_⟩
  have heq := hpwd₂ hno
  exact (hpwd₃ ((noPwds_congr heq).trans hno)).trans heq

/-- An entry of a list that is changed at one place. -/
theorem mem_modify {α : Type} {l : List α} {i : ℕ} {f : α → α} {x : α} (hx : x ∈ l.modify i f) :
    x ∈ l ∨ ∃ y, l[i]? = some y ∧ x = f y := by
  obtain ⟨j, hj⟩ := List.mem_iff_getElem?.mp hx
  rw [List.getElem?_modify] at hj
  obtain ⟨y, hy, rfl⟩ := Option.map_eq_some_iff.mp hj
  by_cases hij : i = j
  · rw [if_pos hij]
    exact .inr ⟨y, hij ▸ hy, rfl⟩
  · rw [if_neg hij]
    exact .inl (List.mem_of_getElem? hy)

theorem mem_modify_of_mem {α : Type} {l : List α} {i : ℕ} {f : α → α} {x : α} (hx : x ∈ l) :
    x ∈ l.modify i f ∨ l[i]? = some x ∧ f x ∈ l.modify i f := by
  obtain ⟨j, hj⟩ := List.mem_iff_getElem?.mp hx
  by_cases hij : i = j
  · refine .inr ⟨hij ▸ hj, List.mem_of_getElem? (i := j) ?_⟩
    simp [hj, hij]
  · refine .inl (List.mem_of_getElem? (i := j) ?_)
    simp [hj, hij]

theorem map_fa_modify {f : NodeRec → NodeRec} (hf : ∀ n, (f n).fa = n.fa) (i : ℕ) (l : List NodeRec) :
    (l.modify i f).map (·.fa) = l.map (·.fa) := by
  apply List.ext_getElem?
  intro j
  rw [List.getElem?_map, List.getElem?_map, List.getElem?_modify]
  by_cases hij : i = j
  · cases l[j]? with
    | none => rfl
    | some n => simp [hij, hf]
  · simp [hij]

/-! ### A change at one place -/

theorem NodesInv.modify (h : NodesInv S t) {f : NodeRec → NodeRec} (hf : ∀ n, (f n).fa = n.fa) (i : ℕ) :
    NodesInv S { t with nodes := t.nodes.modify i f } := by
  have hmap := map_fa_modify hf i t.nodes
  refine ⟨fun n hn => ?_, ?_, fun hsorted => ?_⟩
  · rcases mem_modify hn with hn | ⟨y, hy, rfl⟩
    · exact h.inS n hn
    · rw [hf]
      exact h.inS y (List.mem_of_getElem? hy)
  · have hkeys : (t.nodes.map (·.fa)).Pairwise fun a b => ftnaddressCmp a b ≠ 0 :=
      List.pairwise_map.mpr h.unique
    rw [← hmap] at hkeys
    exact List.pairwise_map.mp hkeys
  · have hkeys : (t.nodes.map (·.fa)).Pairwise fun a b => ftnaddressCmp a b ≤ 0 :=
      List.pairwise_map.mpr (h.ordered hsorted)
    rw [← hmap] at hkeys
    exact List.pairwise_map.mp hkeys

/-- Which addresses a table holds, read off its keys. -/
theorem holds_iff_keys : Holds t fa ↔ ∃ a ∈ t.nodes.map (·.fa), ftnaddressCmp a fa = 0 := by
  simp [Holds]

theorem holds_modify {f : NodeRec → NodeRec} (hf : ∀ n, (f n).fa = n.fa) (i : ℕ) :
    Holds { t with nodes := t.nodes.modify i f } fa ↔ Holds t fa := by
  rw [holds_iff_keys, holds_iff_keys, map_fa_modify hf]

theorem goesOn_modify {f : NodeRec → NodeRec} (hf : ∀ n, (f n).fa = n.fa)
    (hpwds : ∀ n, n.noPwds = false → (f n).pwds = n.pwds) (i : ℕ) :
    GoesOn t { t with nodes := t.nodes.modify i f } := by
  intro n hn
  rcases mem_modify_of_mem (i := i) (f := f) hn with h | ⟨-, h⟩
  · exact ⟨n, h, rfl, fun _ => rfl⟩
  · exact ⟨f n, h, hf n, hpwds n⟩

/-! ### A node at the end -/

theorem NodesInv.append (h : NodesInv S t) {n : NodeRec} (hn : S n.fa) (hno : ¬ Holds t n.fa) :
    NodesInv S { t with nodes := t.nodes ++ [n], sorted := false } where
  inS m hm := by
    rcases List.mem_append.mp hm with hm | hm
    · exact h.inS m hm
    · exact List.mem_singleton.mp hm ▸ hn
  unique := by
    apply List.pairwise_append.mpr
    refine ⟨h.unique, List.pairwise_singleton _ _, fun a ha b hb => ?_⟩
    rw [List.mem_singleton.mp hb]
    intro heq
    exact hno ⟨a, ha, heq⟩
  ordered hsorted := by cases hsorted

/-! ### The order -/

theorem sortNodes_perm (t : NodeTable) : (sortNodes t).nodes.Perm t.nodes := sortBy_perm t.nodes

theorem NodesInv.sort (hcmp : CmpTotal ftnaddressCmp S) (h : NodesInv S t) :
    NodesInv S (sortNodes t) := by
  have hcons := hcmp.consistent (fun n : NodeRec => n.fa) h.inS
  have hperm := sortNodes_perm t
  refine ⟨fun n hn => h.inS n (hperm.subset hn), ?_, fun _ => sortBy_sorted hcons⟩
  have hboth : t.nodes.Pairwise fun a b => ftnaddressCmp a.fa b.fa ≠ 0 ∧
      ftnaddressCmp b.fa a.fa ≠ 0 := by
    refine h.unique.imp_of_mem fun {a b} ha hb hab => ⟨hab, fun hba => hab ?_⟩
    exact hcmp.eq_symm (h.inS b hb) (h.inS a ha) hba
  exact ((hperm.pairwise_iff And.symm).mpr hboth).imp And.left

theorem holds_sort : Holds (sortNodes t) fa ↔ Holds t fa := by
  have hperm := sortNodes_perm t
  constructor
  · rintro ⟨n, hn, heq⟩
    exact ⟨n, hperm.subset hn, heq⟩
  · rintro ⟨n, hn, heq⟩
    exact ⟨n, hperm.symm.subset hn, heq⟩

theorem mem_sort {n : NodeRec} : n ∈ (sortNodes t).nodes ↔ n ∈ t.nodes :=
  (sortNodes_perm t).mem_iff

theorem goesOn_sort : GoesOn t (sortNodes t) := fun n hn => ⟨n, mem_sort.mpr hn, rfl, fun _ => rfl⟩

/-! ### The order of a lookup -/

theorem mem_open {n : NodeRec} : n ∈ (openTable t).nodes ↔ n ∈ t.nodes := by
  unfold openTable
  split_ifs
  · rfl
  · exact mem_sort

theorem open_havedefnode : (openTable t).havedefnode = t.havedefnode := by
  unfold openTable
  split_ifs <;> rfl

theorem holds_open : Holds (openTable t) fa ↔ Holds t fa := by
  unfold openTable
  split_ifs
  · rfl
  · exact holds_sort

theorem open_sorted : (openTable t).sorted = true := by
  unfold openTable
  split_ifs with hs
  · exact hs
  · rfl

theorem NodesInv.opened (hcmp : CmpTotal ftnaddressCmp S) (h : NodesInv S t) :
    NodesInv S (openTable t) := by
  unfold openTable
  split_ifs
  · exact h
  · exact h.sort hcmp

theorem goesOn_open : GoesOn t (openTable t) := fun n hn => ⟨n, mem_open.mpr hn, rfl, fun _ => rfl⟩

/-! ### The lookup in a sorted table -/

theorem searchTable_some (hcmp : CmpTotal ftnaddressCmp S) (h : NodesInv S t) (hfa : S fa) {i : ℕ}
    (hi : searchTable fa t = some i) : ∃ n, t.nodes[i]? = some n ∧ ftnaddressCmp n.fa fa = 0 := by
  obtain ⟨n, hn, heq⟩ := bsearch_sound hi
  exact ⟨n, hn, hcmp.eq_symm hfa (h.inS n (List.mem_of_getElem? hn)) heq⟩

theorem searchTable_isSome (hcmp : CmpTotal ftnaddressCmp S) (h : NodesInv S t) (hsorted : t.sorted = true)
    (hfa : S fa) (hold : Holds t fa) : ∃ i, searchTable fa t = some i := by
  obtain ⟨n, hn, heq⟩ := hold
  have hord := hcmp.inOrder (fun n : NodeRec => n.fa) hfa h.inS (h.ordered hsorted)
  exact bsearch_complete hord hn (hcmp.eq_symm (h.inS n hn) hfa heq)

theorem searchTable_none (hcmp : CmpTotal ftnaddressCmp S) (h : NodesInv S t) (hfa : S fa) (hno : ¬ Holds t fa) :
    searchTable fa t = none := by
  cases hs : searchTable fa t with
  | none => rfl
  | some i =>
    obtain ⟨n, hn, heq⟩ := searchTable_some hcmp h hfa hs
    exact absurd ⟨n, List.mem_of_getElem? hn, heq⟩ hno

/-- A node is the only one with its address. -/
theorem NodesInv.eq_of_cmp (hcmp : CmpTotal ftnaddressCmp S) (h : NodesInv S t) (hfa : S fa) {n n' : NodeRec}
    (hn : n ∈ t.nodes) (hn' : n' ∈ t.nodes) (heq : ftnaddressCmp n.fa fa = 0) (heq' : ftnaddressCmp n'.fa fa = 0) :
    n = n' := by
  have hsame : ∀ {a b : NodeRec}, a ∈ t.nodes → b ∈ t.nodes → ftnaddressCmp a.fa fa = 0 →
    ftnaddressCmp b.fa fa = 0 →
      ftnaddressCmp a.fa b.fa = 0 := fun ha hb hacmp hbcmp =>
    hcmp.eq_trans (h.inS _ ha) hfa (h.inS _ hb) hacmp (hcmp.eq_symm (h.inS _ hb) hfa hbcmp)
  have hpair := List.pairwise_iff_getElem.mp h.unique
  obtain ⟨i, hi, rfl⟩ := List.mem_iff_getElem.mp hn
  obtain ⟨j, hj, rfl⟩ := List.mem_iff_getElem.mp hn'
  rcases Nat.lt_trichotomy i j with hij | rfl | hij
  · exact absurd (hsame hn hn' heq heq') (hpair i j hi hj hij)
  · rfl
  · exact absurd (hsame hn' hn heq' heq) (hpair j i hj hi hij)

/-! ### `add_node` -/

theorem findIdx?_holds {i : ℕ} (h : t.nodes.findIdx? (fun pn => ftnaddressCmp pn.fa fa = 0) = some i) :
    ∃ n, t.nodes[i]? = some n ∧ ftnaddressCmp n.fa fa = 0 := by
  obtain ⟨hi, heq, -⟩ := List.findIdx?_eq_some_iff_getElem.mp h
  exact ⟨_, List.getElem?_eq_getElem hi, of_decide_eq_true heq⟩

theorem findIdx?_holds_none (h : t.nodes.findIdx? (fun pn => ftnaddressCmp pn.fa fa = 0) = none) :
    ¬ Holds t fa := by
  rintro ⟨n, hn, heq⟩
  have := List.findIdx?_eq_none_iff.mp h n hn
  exact of_decide_eq_false this heq

/-- What `add_node` does: it sets the one node that has the address, or makes a new one. -/
theorem addNode_cases (now : Int) (fa : FtnAddr) (args : NodeArgs) (t : NodeTable) :
    (∃ i n, t.nodes[i]? = some n ∧ ftnaddressCmp n.fa fa = 0 ∧
      addNode now fa args t = (i, { t with nodes := t.nodes.modify i (setNode now args) })) ∨
    (¬ Holds t fa ∧ addNode now fa args t = (t.nodes.length,
      { t with nodes := t.nodes ++ [setNode now args (newNode fa args)], sorted := false })) := by
  unfold addNode
  cases hfind : t.nodes.findIdx? fun pn => ftnaddressCmp pn.fa fa = 0 with
  | some i =>
    obtain ⟨n, hn, heq⟩ := findIdx?_holds hfind
    exact .inl ⟨i, n, hn, heq, rfl⟩
  | none => exact .inr ⟨findIdx?_holds_none hfind, rfl⟩

/-- What one call does to the table: it keeps the invariant, the nodes go on, and it holds the
addresses it held and those that are added. -/
structure NodesExtend (S : FtnAddr → Prop) (new : List FtnAddr) (t t' : NodeTable) : Prop where
  inv : NodesInv S t'
  goesOn : GoesOn t t'
  holds : ∀ fa, S fa → (Holds t' fa ↔ Holds t fa ∨ ∃ a ∈ new, ftnaddressCmp a fa = 0)
  havedefnode : t'.havedefnode = t.havedefnode

/-- What one call does to the table, but for the switch of `defnode`. -/
structure StepExtends (S : FtnAddr → Prop) (new : List FtnAddr) (t t' : NodeTable) : Prop where
  inv : NodesInv S t'
  goesOn : GoesOn t t'
  holds : ∀ fa, S fa → (Holds t' fa ↔ Holds t fa ∨ ∃ a ∈ new, ftnaddressCmp a fa = 0)

theorem NodesExtend.step {new : List FtnAddr} (h : NodesExtend S new t t') : StepExtends S new t t' :=
  ⟨h.inv, h.goesOn, h.holds⟩

theorem StepExtends.trans {new new' : List FtnAddr} {t₁ t₂ t₃ : NodeTable} (h : StepExtends S new t₁ t₂)
    (h' : StepExtends S new' t₂ t₃) : StepExtends S (new ++ new') t₁ t₃ where
  inv := h'.inv
  goesOn := h.goesOn.trans h'.goesOn
  holds fa hfa := by
    rw [h'.holds fa hfa, h.holds fa hfa, or_assoc]
    simp only [List.mem_append, or_and_right, exists_or]

theorem NodesExtend.trans {new new' : List FtnAddr} {t₁ t₂ t₃ : NodeTable} (h : NodesExtend S new t₁ t₂)
    (h' : NodesExtend S new' t₂ t₃) : NodesExtend S (new ++ new') t₁ t₃ := by
  obtain ⟨hinv, hgoes, hholds⟩ := h.step.trans h'.step
  exact ⟨hinv, hgoes, hholds, h'.havedefnode.trans h.havedefnode⟩

theorem extends_modify (h : NodesInv S t) {f : NodeRec → NodeRec} (hf : ∀ n, (f n).fa = n.fa)
    (hpwds : ∀ n, n.noPwds = false → (f n).pwds = n.pwds) (i : ℕ) :
    NodesExtend S [] t { t with nodes := t.nodes.modify i f } where
  inv := h.modify hf i
  goesOn := goesOn_modify hf hpwds i
  holds fa _ := by simp [holds_modify hf]
  havedefnode := rfl

theorem extends_sort (hcmp : CmpTotal ftnaddressCmp S) (h : NodesInv S t) :
    NodesExtend S [] t (sortNodes t) where
  inv := h.sort hcmp
  goesOn := goesOn_sort
  holds fa _ := by simp [holds_sort]
  havedefnode := rfl

theorem extends_open (hcmp : CmpTotal ftnaddressCmp S) (h : NodesInv S t) :
    NodesExtend S [] t (openTable t) where
  inv := h.opened hcmp
  goesOn := goesOn_open
  holds fa _ := by simp [holds_open]
  havedefnode := open_havedefnode

theorem extends_addNode (hcmp : CmpTotal ftnaddressCmp S) (h : NodesInv S t) (now : Int) (hfa : S fa) (args : NodeArgs) :
    NodesExtend S [fa] t (addNode now fa args t).2 := by
  rcases addNode_cases now fa args t with ⟨i, n, hn, heq, hadd⟩ | ⟨hno, hadd⟩
  · rw [hadd]
    have hmod := extends_modify h (setNode_fa now args) (fun _ => setNode_pwds now args) i
    refine { hmod with holds := fun b hb => ?_ }
    rw [hmod.holds b hb]
    have hmem := List.mem_of_getElem? hn
    constructor
    · rintro (hold | ⟨a, ha, -⟩)
      · exact .inl hold
      · cases ha
    · rintro (hold | ⟨a, ha, hab⟩)
      · exact .inl hold
      · rw [List.mem_singleton.mp ha] at hab
        exact .inl ⟨n, hmem, hcmp.eq_trans (h.inS n hmem) hfa hb heq hab⟩
  · rw [hadd]
    have hnew : (setNode now args (newNode fa args)).fa = fa := setNode_fa now args (newNode fa args)
    refine ⟨h.append (hnew.symm ▸ hfa) (hnew.symm ▸ hno),
      fun n hn => ⟨n, List.mem_append_left _ hn, rfl, fun _ => rfl⟩,
      fun b _ => ?_, rfl⟩
    constructor
    · rintro ⟨n, hn, heq⟩
      rcases List.mem_append.mp hn with hn | hn
      · exact .inl ⟨n, hn, heq⟩
      · rw [List.mem_singleton.mp hn, hnew] at heq
        exact .inr ⟨fa, List.mem_singleton_self fa, heq⟩
    · rintro (⟨n, hn, heq⟩ | ⟨a, ha, hab⟩)
      · exact ⟨n, List.mem_append_left _ hn, heq⟩
      · rw [List.mem_singleton.mp ha] at hab
        exact ⟨_, List.mem_append_right _ (List.mem_singleton_self _), hnew.symm ▸ hab⟩

end Table

section Lookup

variable {S : FtnAddr → Prop} {t t' : NodeTable} {now : Int} {fa : FtnAddr}

/-- The node of an address, read off its place. -/
def nodeAt (fa : FtnAddr) (t : NodeTable) : Option NodeRec := (searchTable fa t).bind (t.nodes[·]?)

theorem nodeAt_some (hcmp : CmpTotal ftnaddressCmp S) (h : NodesInv S t) (hfa : S fa) {n : NodeRec}
    (hn : nodeAt fa t = some n) : n ∈ t.nodes ∧ ftnaddressCmp n.fa fa = 0 := by
  obtain ⟨i, hi, hget⟩ := Option.bind_eq_some_iff.mp hn
  obtain ⟨m, hm, heq⟩ := searchTable_some hcmp h hfa hi
  cases hget.symm.trans hm
  exact ⟨List.mem_of_getElem? hm, heq⟩

theorem nodeAt_of_mem (hcmp : CmpTotal ftnaddressCmp S) (h : NodesInv S t) (hsorted : t.sorted = true) (hfa : S fa)
    {n : NodeRec} (hn : n ∈ t.nodes) (heq : ftnaddressCmp n.fa fa = 0) :
    ∃ i, searchTable fa t = some i ∧ t.nodes[i]? = some n := by
  obtain ⟨i, hi⟩ := searchTable_isSome hcmp h hsorted hfa ⟨n, hn, heq⟩
  obtain ⟨m, hm, hmcmp⟩ := searchTable_some hcmp h hfa hi
  rw [h.eq_of_cmp hcmp hfa hn (List.mem_of_getElem? hm) heq hmcmp]
  exact ⟨i, hi, hm⟩

/-- The record of an address that is made from `defnode`. -/
def fromDefnode (now : Int) (fa : FtnAddr) (d : NodeRec) : NodeRec :=
    setNode now d.defArgs (newNode fa d.defArgs)

/-- What a lookup of an address does to a sorted table. -/
inductive Lookup (now : Int) (fa : FtnAddr) (t : NodeTable) : Option (Option ℕ × NodeTable) → Prop
  | found (i : ℕ) (n : NodeRec) (hn : t.nodes[i]? = some n) (heq : ftnaddressCmp n.fa fa = 0)
      (hfresh : t.havedefnode = true → Holds t defnodeAddr → n.stale now = false) :
      Lookup now fa t (some (some i, { t with nodes := t.nodes.modify i dashHosts }))
  | copied (i : ℕ) (n d : NodeRec) (hn : t.nodes[i]? = some n) (heq : ftnaddressCmp n.fa fa = 0)
      (hd : d ∈ t.nodes) (hdef : ftnaddressCmp d.fa defnodeAddr = 0) (hhosts : d.hosts ≠ none) :
      Lookup now fa t (some (some i,
        { t with nodes := (t.nodes.modify i (copyDefnode d)).modify i dashHosts }))
  | ended (n d : NodeRec) (hn : n ∈ t.nodes) (heq : ftnaddressCmp n.fa fa = 0) (hstale : n.stale now = true)
      (hhave : t.havedefnode = true) (hd : d ∈ t.nodes) (hdef : ftnaddressCmp d.fa defnodeAddr = 0)
      (hhosts : d.hosts = none) : Lookup now fa t none
  | made (i : ℕ) (d : NodeRec) (hno : ¬ Holds t fa) (hhave : t.havedefnode = true) (hd : d ∈ t.nodes)
      (hdef : ftnaddressCmp d.fa defnodeAddr = 0)
      (hi : (sortNodes (addNode now fa d.defArgs t).2).nodes[i]? = some (fromDefnode now fa d)) :
      Lookup now fa t (some (some i,
        { sortNodes (addNode now fa d.defArgs t).2 with
          nodes := (sortNodes (addNode now fa d.defArgs t).2).nodes.modify i dashHosts }))
  | missing (hno : ¬ Holds t fa) (hdef : t.havedefnode = true → ¬ Holds t defnodeAddr) :
      Lookup now fa t (some (none, t))

theorem fromDefnode_fa (now : Int) (fa : FtnAddr) (d : NodeRec) : (fromDefnode now fa d).fa = fa :=
  setNode_fa now d.defArgs (newNode fa d.defArgs)

theorem nodeAt_none (hcmp : CmpTotal ftnaddressCmp S) (h : NodesInv S t) (hsorted : t.sorted = true) (hfa : S fa)
    (hn : nodeAt fa t = none) : ¬ Holds t fa := by
  rintro ⟨n, hmem, heq⟩
  obtain ⟨i, hi, hget⟩ := nodeAt_of_mem hcmp h hsorted hfa hmem heq
  rw [nodeAt, hi, Option.bind_some, hget] at hn
  cases hn

/-- A node that is there, when it is looked up. -/
theorem lookup_there (hcmp : CmpTotal ftnaddressCmp S) (hdefS : S defnodeAddr) (h : NodesInv S t)
    (hsorted : t.sorted = true) (hfa : S fa) {n : NodeRec} (hn : n ∈ t.nodes) (heq : ftnaddressCmp n.fa fa = 0) :
    Lookup now fa t (getNode now fa t) := by
  obtain ⟨i, hi, hget⟩ := nodeAt_of_mem hcmp h hsorted hfa hn heq
  unfold getNode
  rw [openTable, if_pos hsorted]
  simp only [hi, Option.bind_some, hget]
  by_cases hask : (n.stale now && t.havedefnode) = true
  · rw [if_pos hask]
    obtain ⟨hstale, hhave⟩ := Bool.and_eq_true_iff.mp hask
    rw [getDefnode, ← nodeAt]
    cases hd : nodeAt defnodeAddr t with
    | none =>
      refine Lookup.found i n hget heq fun _ hholds => ?_
      exact absurd hholds (nodeAt_none hcmp h hsorted hdefS hd)
    | some d =>
      obtain ⟨hdmem, hdcmp⟩ := nodeAt_some hcmp h hdefS hd
      dsimp only
      cases hhosts : d.hosts with
      | none => exact Lookup.ended n d hn heq hstale hhave hdmem hdcmp hhosts
      | some hosts => exact Lookup.copied i n d hget heq hdmem hdcmp (by rw [hhosts]; exact Option.some_ne_none hosts)
  · rw [if_neg hask]
    refine Lookup.found i n hget heq fun hhave _ => ?_
    rw [hhave, Bool.and_true] at hask
    exact Bool.eq_false_iff.mpr hask

/-- An address that is not there, when it is looked up. -/
theorem lookup_new (hcmp : CmpTotal ftnaddressCmp S) (hdefS : S defnodeAddr) (h : NodesInv S t)
    (hsorted : t.sorted = true) (hfa : S fa) (hno : ¬ Holds t fa) :
    Lookup now fa t (getNode now fa t) := by
  have hnone := searchTable_none hcmp h hfa hno
  unfold getNode
  rw [openTable, if_pos hsorted]
  simp only [hnone, Option.bind_none, Bool.true_and]
  by_cases hhave : t.havedefnode = true
  · rw [if_pos hhave, getDefnode, ← nodeAt]
    cases hd : nodeAt defnodeAddr t with
    | none => exact Lookup.missing hno fun _ => nodeAt_none hcmp h hsorted hdefS hd
    | some d =>
      obtain ⟨hdmem, hdcmp⟩ := nodeAt_some hcmp h hdefS hd
      rcases addNode_cases now fa d.defArgs t with ⟨i, n, hn, heq, -⟩ | ⟨-, hadd⟩
      · exact absurd ⟨n, List.mem_of_getElem? hn, heq⟩ hno
      · have hinv := (extends_addNode hcmp h now hfa d.defArgs).inv
        have hmem : fromDefnode now fa d ∈ (sortNodes (addNode now fa d.defArgs t).2).nodes := by
          rw [mem_sort, hadd]
          exact List.mem_append_right _ (List.mem_singleton_self _)
        have hself : ftnaddressCmp (fromDefnode now fa d).fa fa = 0 := by
          rw [fromDefnode_fa]
          exact ftnaddressCmp_self fa
        obtain ⟨i, hi, hget⟩ := nodeAt_of_mem hcmp (hinv.sort hcmp) rfl hfa hmem hself
        dsimp only
        rw [hi]
        exact Lookup.made i d hno hhave hdmem hdcmp hget
  · rw [if_neg hhave]
    exact Lookup.missing hno fun hh => absurd hh hhave

theorem getNode_open (now : Int) (fa : FtnAddr) (t : NodeTable) :
    getNode now fa t = getNode now fa (openTable t) := by
  have hopen : openTable (openTable t) = openTable t := by
    rw [openTable, if_pos open_sorted]
  unfold getNode
  rw [hopen]

/-- What a lookup does. -/
theorem getNode_cases (now : Int) (hcmp : CmpTotal ftnaddressCmp S) (hdefS : S defnodeAddr) (h : NodesInv S t) (hfa : S fa) :
    Lookup now fa (openTable t) (getNode now fa t) := by
  have hinv := h.opened hcmp
  rw [getNode_open]
  by_cases hold : Holds (openTable t) fa
  · obtain ⟨n, hn, heq⟩ := hold
    exact lookup_there hcmp hdefS hinv open_sorted hfa hn heq
  · exact lookup_new hcmp hdefS hinv open_sorted hfa hold

theorem adds_open (now : Int) (fa : FtnAddr) (t : NodeTable) :
    (NodeOp.get now fa).adds (openTable t) = (NodeOp.get now fa).adds t := by
  unfold NodeOp.adds
  simp only [holds_open, open_havedefnode]

theorem adds_there {n : NodeRec} (hn : n ∈ t.nodes) (heq : ftnaddressCmp n.fa fa = 0) :
    (NodeOp.get now fa).adds t = [] := by
  unfold NodeOp.adds
  exact if_neg fun h => h.2.2 ⟨n, hn, heq⟩

/-- What a lookup does extends the table. -/
theorem Lookup.extends (hcmp : CmpTotal ftnaddressCmp S) (h : NodesInv S t) (hfa : S fa)
    {r : Option ℕ} (hl : Lookup now fa t (some (r, t'))) :
    NodesExtend S ((NodeOp.get now fa).adds t) t t' := by
  cases hl with
  | found i n hn heq _ =>
    rw [adds_there (List.mem_of_getElem? hn) heq]
    exact extends_modify (f := dashHosts) h (fun _ => rfl) (fun _ _ => rfl) i
  | copied i n d hn heq hd hdef hhosts =>
    rw [adds_there (List.mem_of_getElem? hn) heq]
    have hcopy := extends_modify (f := copyDefnode d) h (fun _ => rfl) (fun _ _ => rfl) i
    exact hcopy.trans (extends_modify (f := dashHosts) hcopy.inv (fun _ => rfl) (fun _ _ => rfl) i)
  | made i d hno hhave hd hdef hi =>
    have hadds : (NodeOp.get now fa).adds t = [fa] := by
      unfold NodeOp.adds
      exact if_pos ⟨hhave, ⟨d, hd, hdef⟩, hno⟩
    have hadd := extends_addNode hcmp h now hfa d.defArgs
    have hsort := hadd.trans (extends_sort hcmp hadd.inv)
    rw [hadds]
    exact hsort.trans (extends_modify (f := dashHosts) hsort.inv (fun _ => rfl) (fun _ _ => rfl) i)
  | missing hno hdef =>
    have hadds : (NodeOp.get now fa).adds t = [] := by
      unfold NodeOp.adds
      exact if_neg fun hc => hdef hc.1 hc.2.1
    rw [hadds]
    exact ⟨h, GoesOn.refl t, fun b _ => by simp, rfl⟩

/-- A lookup that returns only extends the table. -/
theorem extends_getNode (hcmp : CmpTotal ftnaddressCmp S) (hdefS : S defnodeAddr) (h : NodesInv S t) (hfa : S fa)
    {r : Option ℕ} (hget : getNode now fa t = some (r, t')) :
    NodesExtend S ((NodeOp.get now fa).adds t) t t' := by
  have hopen := extends_open hcmp h
  have hcases := getNode_cases now hcmp hdefS h hfa
  rw [hget] at hcases
  rw [← adds_open]
  exact hopen.trans (hcases.extends hcmp hopen.inv hfa)

/-- The node that a lookup returns. -/
theorem Lookup.node {i : ℕ} (hl : Lookup now fa t (some (some i, t'))) :
    (∃ n ∈ t.nodes, ftnaddressCmp n.fa fa = 0 ∧ ∃ n', t'.nodes[i]? = some n' ∧
      (n' = dashHosts n ∨
        ∃ d ∈ t.nodes, ftnaddressCmp d.fa defnodeAddr = 0 ∧ n' = dashHosts (copyDefnode d n))) ∨
    (¬ Holds t fa ∧ t.havedefnode = true ∧ ∃ d ∈ t.nodes, ftnaddressCmp d.fa defnodeAddr = 0 ∧
      t'.nodes[i]? = some (dashHosts (fromDefnode now fa d))) := by
  cases hl with
  | found i n hn heq hfresh =>
    exact .inl ⟨n, List.mem_of_getElem? hn, heq, dashHosts n, by simp [hn], .inl rfl⟩
  | copied i n d hn heq hd hdef hhosts =>
    exact .inl ⟨n, List.mem_of_getElem? hn, heq, dashHosts (copyDefnode d n), by simp [hn],
      .inr ⟨d, hd, hdef, rfl⟩⟩
  | made i d hno hhave hd hdef hi =>
    exact .inr ⟨hno, hhave, d, hd, hdef, by simp [hi]⟩

theorem Lookup.holds {i : ℕ} (hl : Lookup now fa t (some (some i, t'))) : Holds t' fa := by
  rcases hl.node with ⟨n, -, heq, n', hn', hor⟩ | ⟨-, -, d, -, -, hd⟩
  · refine ⟨n', List.mem_of_getElem? hn', ?_⟩
    rcases hor with rfl | ⟨d, -, -, rfl⟩
    · exact heq
    · exact heq
  · refine ⟨_, List.mem_of_getElem? hd, ?_⟩
    have hfa : (dashHosts (fromDefnode now fa d)).fa = fa := fromDefnode_fa now fa d
    rw [hfa]
    exact ftnaddressCmp_self fa

/-! ### A call -/

/-- A lookup has the hosts it needs: the program ends where a node that is not of the configuration
is asked for after its time, and `defnode` has no hosts. -/
def HostsKnown (now : Int) (fa : FtnAddr) (t : NodeTable) : Prop :=
  t.havedefnode = true → ∀ d ∈ t.nodes, ftnaddressCmp d.fa defnodeAddr = 0 → d.hosts = none →
    ∀ n ∈ t.nodes, ftnaddressCmp n.fa fa = 0 → n.stale now = false

instance (now : Int) (fa : FtnAddr) (t : NodeTable) : Decidable (HostsKnown now fa t) :=
  inferInstanceAs (Decidable (t.havedefnode = true → ∀ d ∈ t.nodes, ftnaddressCmp d.fa defnodeAddr = 0 →
    d.hosts = none → ∀ n ∈ t.nodes, ftnaddressCmp n.fa fa = 0 → n.stale now = false))

def NodeOp.Careful (t : NodeTable) : NodeOp → Prop
  | .get now fa => HostsKnown now fa t
  | .poll now fa => HostsKnown now fa t
  | _ => True

instance (t : NodeTable) (op : NodeOp) : Decidable (op.Careful t) :=
  match op with
  | .get now fa => inferInstanceAs (Decidable (HostsKnown now fa t))
  | .poll now fa => inferInstanceAs (Decidable (HostsKnown now fa t))
  | .add _ _ _ _ => .isTrue trivial
  | .defnode => .isTrue trivial

/-- A lookup returns exactly where it has the hosts it needs. -/
theorem getNode_returns (now : Int) (hcmp : CmpTotal ftnaddressCmp S) (hdefS : S defnodeAddr) (h : NodesInv S t) (hfa : S fa) :
    getNode now fa t ≠ none ↔ HostsKnown now fa t := by
  have hcases := getNode_cases now hcmp hdefS h hfa
  constructor
  · intro hsome hhave d hd hdef hhosts n hn heq
    have hinv := h.opened hcmp
    have hd' := mem_open.mpr hd
    have hn' := mem_open.mpr hn
    obtain ⟨r, hr⟩ := Option.ne_none_iff_exists'.mp hsome
    rw [hr] at hcases
    cases hcases with
    | found i m hm hmcmp hfresh =>
      rw [hinv.eq_of_cmp hcmp hfa hn' (List.mem_of_getElem? hm) heq hmcmp]
      exact hfresh (open_havedefnode.trans hhave) ⟨d, hd', hdef⟩
    | copied i m d' hm hmcmp hdm hdefm hhostsm =>
      rw [hinv.eq_of_cmp hcmp hdefS hd' hdm hdef hdefm] at hhosts
      exact absurd hhosts hhostsm
    | made i d' hno _ _ _ _ => exact absurd ⟨n, hn', heq⟩ hno
    | missing hno _ => exact absurd ⟨n, hn', heq⟩ hno
  · intro hknown hnone
    rw [hnone] at hcases
    cases hcases with
    | ended n d hn heq hstale hhave hd hdef hhosts =>
      have := hknown (open_havedefnode ▸ hhave) d (mem_open.mp hd) hdef hhosts n (mem_open.mp hn) heq
      rw [hstale] at this
      cases this

/-- A call returns exactly where it is careful. -/
theorem nodeStep_returns (hcmp : CmpTotal ftnaddressCmp S) (hdefS : S defnodeAddr) (h : NodesInv S t) {op : NodeOp}
    (hop : ∀ a ∈ op.addrs, S a) : nodeStep t op ≠ none ↔ op.Careful t := by
  cases op with
  | add now fa args l => exact ⟨fun _ => trivial, fun _ => Option.some_ne_none _⟩
  | poll now fa =>
    have hret := getNode_returns now hcmp hdefS h (hop fa (List.mem_singleton_self fa))
    rw [NodeOp.Careful, ← hret, nodeStep, pollNode]
    rcases getNode now fa t with _ | ⟨_ | i, t'⟩
    · exact ⟨fun h => absurd rfl h, fun h => absurd rfl h⟩
    · exact ⟨fun _ => Option.some_ne_none _, fun _ => Option.some_ne_none _⟩
    · exact ⟨fun _ => Option.some_ne_none _, fun _ => Option.some_ne_none _⟩
  | get now fa =>
    have hret := getNode_returns now hcmp hdefS h (hop fa (List.mem_singleton_self fa))
    rw [NodeOp.Careful, ← hret, nodeStep, ne_eq, Option.map_eq_none_iff]
  | defnode => exact ⟨fun _ => trivial, fun _ => Option.some_ne_none _⟩

/-- An address that the table holds in the end may as well count as added. -/
theorem StepExtends.absorb (hcmp : CmpTotal ftnaddressCmp S) {new : List FtnAddr} (h : StepExtends S new t t')
    (hfa : S fa) (hnew : ∀ a ∈ new, a = fa) (hheld : Holds t' fa) : StepExtends S [fa] t t' where
  inv := h.inv
  goesOn := h.goesOn
  holds b hb := by
    obtain ⟨n, hn, heq⟩ := hheld
    constructor
    · intro hold
      rcases (h.holds b hb).mp hold with hold | ⟨a, ha, hab⟩
      · exact .inl hold
      · exact .inr ⟨fa, List.mem_singleton_self fa, hnew a ha ▸ hab⟩
    · rintro (hold | ⟨a, ha, hab⟩)
      · exact (h.holds b hb).mpr (.inl hold)
      · rw [List.mem_singleton.mp ha] at hab
        exact ⟨n, hn, hcmp.eq_trans (h.inv.inS n hn) hfa hb heq hab⟩

theorem mem_adds {a : FtnAddr} (h : a ∈ (NodeOp.get now fa).adds t) : a = fa := by
  rw [NodeOp.adds] at h
  split_ifs at h
  · exact List.mem_singleton.mp h
  · cases h

/-- One call keeps the invariant. -/
theorem nodeStep_extends (hcmp : CmpTotal ftnaddressCmp S) (hdefS : S defnodeAddr) (h : NodesInv S t) {op : NodeOp}
    (hop : ∀ a ∈ op.addrs, S a) (hstep : nodeStep t op = some t') : StepExtends S (op.adds t) t t' := by
  cases op with
  | add now fa args l =>
    have hfa := hop fa (List.mem_singleton_self fa)
    have hadd := extends_addNode hcmp h now hfa args
    have hlist := extends_modify hadd.inv (listNode_fa l) (fun n _ => listNode_pwds l n) (addNode now fa args t).1
    cases hstep
    exact (hadd.trans hlist).step
  | poll now fa =>
    have hfa := hop fa (List.mem_singleton_self fa)
    rw [nodeStep, pollNode] at hstep
    cases hget : getNode now fa t with
    | none =>
      rw [hget] at hstep
      cases hstep
    | some r =>
      obtain ⟨r, t₁⟩ := r
      have hext := extends_getNode hcmp hdefS h hfa hget
      rw [hget] at hstep
      cases r with
      | none =>
        cases hstep
        have hadd := extends_addNode hcmp hext.inv now hfa { hosts := some (str "*") }
        have hheld := (hadd.holds fa hfa).mpr (.inr ⟨fa, List.mem_singleton_self fa, ftnaddressCmp_self fa⟩)
        refine (hext.trans hadd).step.absorb hcmp hfa (fun a ha => ?_) hheld
        rcases List.mem_append.mp ha with ha | ha
        · exact mem_adds ha
        · exact List.mem_singleton.mp ha
      | some i =>
        cases hstep
        have hcases := getNode_cases now hcmp hdefS h hfa
        rw [hget] at hcases
        exact hext.step.absorb hcmp hfa (fun a ha => mem_adds ha) hcases.holds
  | get now fa =>
    have hfa := hop fa (List.mem_singleton_self fa)
    obtain ⟨⟨r, t₁⟩, hget, rfl⟩ := Option.map_eq_some_iff.mp hstep
    exact (extends_getNode hcmp hdefS h hfa hget).step
  | defnode =>
    cases hstep
    exact ⟨⟨h.inS, h.unique, h.ordered⟩, GoesOn.refl t, fun fa _ => by simp [NodeOp.adds, Holds]⟩

end Lookup

section Runs

variable {S : FtnAddr → Prop} {t t' : NodeTable} {now : Int} {fa : FtnAddr}

theorem runNodes_cons (op : NodeOp) (ops : List NodeOp) (t : NodeTable) :
    runNodes (op :: ops) t = (nodeStep t op).bind (runNodes ops) := rfl

/-- A run in which every lookup has the hosts it needs. -/
def CarefulRun : List NodeOp → NodeTable → Prop
  | [], _ => True
  | op :: ops, t => op.Careful t ∧ ∀ t' ∈ nodeStep t op, CarefulRun ops t'

instance decidableCarefulRun : (ops : List NodeOp) → (t : NodeTable) → Decidable (CarefulRun ops t)
  | [], _ => .isTrue trivial
  | op :: ops, t =>
    have := decidableCarefulRun ops
    inferInstanceAs (Decidable (op.Careful t ∧ ∀ t' ∈ nodeStep t op, CarefulRun ops t'))

/-- What a run does to the table. -/
theorem runNodes_extends (hcmp : CmpTotal ftnaddressCmp S) (hdefS : S defnodeAddr) {ops : List NodeOp}
    (hops : ∀ op ∈ ops, ∀ a ∈ op.addrs, S a) (h : NodesInv S t) (hrun : runNodes ops t = some t') :
    StepExtends S (added ops t) t t' := by
  induction ops generalizing t with
  | nil =>
    cases hrun
    exact ⟨h, GoesOn.refl _, fun fa _ => by simp [added]⟩
  | cons op ops ih =>
    rw [runNodes_cons] at hrun
    obtain ⟨t₁, hstep, hrest⟩ := Option.bind_eq_some_iff.mp hrun
    have hone := nodeStep_extends hcmp hdefS h (hops op List.mem_cons_self) hstep
    have hall := hone.trans (ih (fun o ho => hops o (List.mem_cons_of_mem op ho)) hone.inv hrest)
    rw [added, hstep]
    exact hall

/-- A run that comes to its end is careful. -/
theorem careful_of_runNodes (hcmp : CmpTotal ftnaddressCmp S) (hdefS : S defnodeAddr) {ops : List NodeOp}
    (hops : ∀ op ∈ ops, ∀ a ∈ op.addrs, S a) (h : NodesInv S t) (hrun : runNodes ops t = some t') :
    CarefulRun ops t := by
  induction ops generalizing t with
  | nil => trivial
  | cons op ops ih =>
    rw [runNodes_cons] at hrun
    obtain ⟨t₁, hstep, hrest⟩ := Option.bind_eq_some_iff.mp hrun
    have hret := (nodeStep_returns hcmp hdefS h (hops op List.mem_cons_self)).mp (by rw [hstep]; exact Option.some_ne_none t₁)
    have hinv := (nodeStep_extends hcmp hdefS h (hops op List.mem_cons_self) hstep).inv
    refine ⟨hret, fun t₂ hstep₂ => ?_⟩
    cases Option.some.inj (hstep.symm.trans hstep₂)
    exact ih (fun o ho => hops o (List.mem_cons_of_mem op ho)) hinv hrest

/-- A careful run comes to its end. -/
theorem runNodes_returns (hcmp : CmpTotal ftnaddressCmp S) (hdefS : S defnodeAddr) {ops : List NodeOp}
    (hops : ∀ op ∈ ops, ∀ a ∈ op.addrs, S a) (h : NodesInv S t) (hcareful : CarefulRun ops t) :
    ∃ t', runNodes ops t = some t' := by
  induction ops generalizing t with
  | nil => exact ⟨t, rfl⟩
  | cons op ops ih =>
    have hret := (nodeStep_returns hcmp hdefS h (hops op List.mem_cons_self)).mpr hcareful.1
    obtain ⟨t₁, hstep⟩ := Option.ne_none_iff_exists'.mp hret
    have hinv := (nodeStep_extends hcmp hdefS h (hops op List.mem_cons_self) hstep).inv
    obtain ⟨t', hrest⟩ := ih (fun o ho => hops o (List.mem_cons_of_mem op ho)) hinv (hcareful.2 t₁ hstep)
    exact ⟨t', by rw [runNodes_cons, hstep, Option.bind_some, hrest]⟩

theorem tableInv_empty : NodesInv S {} := ⟨fun _ h => absurd h List.not_mem_nil, List.Pairwise.nil, fun _ => List.Pairwise.nil⟩

/-! ### One addition -/

theorem KeepsOld.listed {args : NodeArgs} {n n' : NodeRec} (h : KeepsOld args n n') (l : Listing) :
    KeepsOld args n (listNode l n') := by
  cases l <;> exact ⟨h.1, h.2, h.3, h.4, h.5, h.6, h.7, h.8, h.9, h.10, h.11, h.12, h.13⟩

/-- The node of the address keeps what is given as old. -/
theorem add_keepsOld (hcmp : CmpTotal ftnaddressCmp S) (h : NodesInv S t) (hfa : S fa) {args : NodeArgs} {l : Listing}
    (hstep : nodeStep t (.add now fa args l) = some t') {n : NodeRec} (hn : n ∈ t.nodes)
    (heq : ftnaddressCmp n.fa fa = 0) : ∃ n' ∈ t'.nodes, n'.fa = n.fa ∧ KeepsOld args n n' := by
  rcases addNode_cases now fa args t with ⟨i, m, hm, hmcmp, hadd⟩ | ⟨hno, -⟩
  · rw [h.eq_of_cmp hcmp hfa hn (List.mem_of_getElem? hm) heq hmcmp]
    rw [nodeStep, hadd] at hstep
    cases hstep
    refine ⟨listNode l (setNode now args m), List.mem_of_getElem? (i := i) (by simp [hm]), ?_,
      (setNode_keepsOld now args m).listed l⟩
    rw [listNode_fa, setNode_fa]
  · exact absurd ⟨n, hn, heq⟩ hno

/-- The other nodes stay as they are. -/
theorem add_frame {args : NodeArgs} {l : Listing} (hstep : nodeStep t (.add now fa args l) = some t') {n : NodeRec}
    (hn : n ∈ t.nodes) (hne : ftnaddressCmp n.fa fa ≠ 0) : n ∈ t'.nodes := by
  rcases addNode_cases now fa args t with ⟨i, m, hm, hmcmp, hadd⟩ | ⟨-, hadd⟩
  · rw [nodeStep, hadd] at hstep
    cases hstep
    rcases mem_modify_of_mem (i := i) (f := setNode now args) hn with hset | ⟨hget, -⟩
    · rcases mem_modify_of_mem (i := i) (f := listNode l) hset with hlist | ⟨hget, -⟩
      · exact hlist
      · rw [List.getElem?_modify, hm] at hget
        simp only [if_true, Option.map_eq_map, Option.map_some, Option.some.injEq] at hget
        rw [← hget, setNode_fa] at hne
        exact absurd hmcmp hne
    · cases hm.symm.trans hget
      exact absurd hmcmp hne
  · rw [nodeStep, hadd] at hstep
    cases hstep
    have happ : n ∈ t.nodes ++ [setNode now args (newNode fa args)] := List.mem_append_left _ hn
    rcases mem_modify_of_mem (i := t.nodes.length) (f := listNode l) happ with hlist | ⟨hget, -⟩
    · exact hlist
    · simp only [List.getElem?_append_right (Nat.le_refl _), Nat.sub_self, List.getElem?_cons_zero,
        Option.some.injEq] at hget
      rw [← hget, setNode_fa] at hne
      exact absurd (ftnaddressCmp_self fa) hne

theorem strnzcpy_ne_dash {pwd : Str} (hne : pwd ≠ str "-") : strnzcpy pwd (maxPwdLen + 1) ≠ str "-" := by
  intro heq
  have hlen := congrArg List.length heq
  have htake : strnzcpy pwd (maxPwdLen + 1) = pwd.take maxPwdLen := rfl
  rw [htake] at heq hlen
  have hone : (str "-").length = 1 := by decide
  rw [List.length_take, hone] at hlen
  have hmax : maxPwdLen = 40 := rfl
  rw [List.take_of_length_le (by omega)] at heq
  exact hne heq

/-- A set of passwords that is given is there. -/
theorem setPwds_given {args : NodeArgs} {pwd : Str} (hpwd : args.pwd = some pwd) (hne : pwd ≠ str "-") (pn : NodeRec) :
    (setPwds args pn).noPwds = false := by
  cases hno : pn.noPwds with
  | false =>
    rw [setPwds_pwds args hno]
    exact hno
  | true =>
    unfold setPwds
    split
    · next h => rw [hpwd] at h; cases h
    · next w h =>
      obtain rfl : pwd = w := Option.some.inj (hpwd.symm.trans h)
      rw [if_pos ⟨hne, hno⟩]
      have hkeep : strnzcpy pwd (maxPwdLen + 1) ≠ str "-" := strnzcpy_ne_dash hne
      simp [FtnNode.noPwds, hkeep]

theorem add_given {args : NodeArgs} {l : Listing} (hstep : nodeStep t (.add now fa args l) = some t') {pwd : Str}
    (hpwd : args.pwd = some pwd) (hne : pwd ≠ str "-") :
    ∃ n ∈ t'.nodes, ftnaddressCmp n.fa fa = 0 ∧ n.noPwds = false := by
  have hset : ∀ n, (setNode now args n).noPwds = false :=
    fun n => setPwds_given hpwd hne (setFlags now args n)
  rcases addNode_cases now fa args t with ⟨i, m, hm, hmcmp, hadd⟩ | ⟨-, hadd⟩
  · rw [nodeStep, hadd] at hstep
    cases hstep
    refine ⟨listNode l (setNode now args m), List.mem_of_getElem? (i := i) (by simp [hm]), ?_, ?_⟩
    · rw [listNode_fa, setNode_fa]
      exact hmcmp
    · exact (noPwds_congr (listNode_pwds l _)).trans (hset m)
  · rw [nodeStep, hadd] at hstep
    cases hstep
    refine ⟨listNode l (setNode now args (newNode fa args)),
      List.mem_of_getElem? (i := t.nodes.length) (by simp), ?_, ?_⟩
    · rw [listNode_fa, setNode_fa]
      exact ftnaddressCmp_self fa
    · exact (noPwds_congr (listNode_pwds l _)).trans (hset _)

/-! ### The table over a run -/

/-- What a lookup finds of an address: the node of that address; else the one made from `defnode`,
where it is set and there; else none. -/
def FindsNode (now : Int) (fa : FtnAddr) (t : NodeTable) (wasAdded : Prop) : Prop :=
  ∃ r t', getNode now fa t = some (r, t') ∧
    (wasAdded → ∃ n ∈ t.nodes, ftnaddressCmp n.fa fa = 0 ∧ ∃ i n', r = some i ∧ t'.nodes[i]? = some n' ∧
      (n' = dashHosts n ∨ ∃ d ∈ t.nodes, ftnaddressCmp d.fa defnodeAddr = 0 ∧
        n' = dashHosts (copyDefnode d n))) ∧
    (¬ wasAdded → t.havedefnode = true → ∀ d ∈ t.nodes, ftnaddressCmp d.fa defnodeAddr = 0 →
      ∃ i, r = some i ∧ t'.nodes[i]? = some (dashHosts (fromDefnode now fa d))) ∧
    (¬ wasAdded → (t.havedefnode = true → ¬ Holds t defnodeAddr) → r = none)

theorem findsNode (hcmp : CmpTotal ftnaddressCmp S) (hdefS : S defnodeAddr) (h : NodesInv S t) (hfa : S fa)
    (hknown : HostsKnown now fa t) {wasAdded : Prop} (hadded : wasAdded ↔ Holds t fa) :
    FindsNode now fa t wasAdded := by
  obtain ⟨⟨r, t'⟩, hget⟩ := Option.ne_none_iff_exists'.mp ((getNode_returns now hcmp hdefS h hfa).mpr hknown)
  have hcases := getNode_cases now hcmp hdefS h hfa
  have hinv := h.opened hcmp
  rw [hget] at hcases
  cases r with
  | some i =>
    refine ⟨some i, t', hget, fun hwas => ?_, fun hwas hhave d hd hdef => ?_, fun hwas hno => ?_⟩
    · rcases hcases.node with ⟨n, hn, heq, n', hn', hor⟩ | ⟨hno, -, -⟩
      · refine ⟨n, mem_open.mp hn, heq, i, n', rfl, hn', ?_⟩
        rcases hor with rfl | ⟨d, hd, hdef, rfl⟩
        · exact .inl rfl
        · exact .inr ⟨d, mem_open.mp hd, hdef, rfl⟩
      · exact absurd (holds_open.mpr (hadded.mp hwas)) hno
    · rcases hcases.node with ⟨n, hn, heq, -⟩ | ⟨-, -, d', hd', hdef', hmade⟩
      · exact absurd (hadded.mpr ⟨n, mem_open.mp hn, heq⟩) hwas
      · rw [hinv.eq_of_cmp hcmp hdefS (mem_open.mpr hd) hd' hdef hdef']
        exact ⟨i, rfl, hmade⟩
    · rcases hcases.node with ⟨n, hn, heq, -⟩ | ⟨-, hhave, d', hd', hdef', -⟩
      · exact absurd (hadded.mpr ⟨n, mem_open.mp hn, heq⟩) hwas
      · rw [open_havedefnode] at hhave
        exact absurd ⟨d', mem_open.mp hd', hdef'⟩ (hno hhave)
  | none =>
    cases hcases with
    | missing hno hdef =>
      rw [holds_open] at hno
      rw [open_havedefnode, holds_open] at hdef
      exact ⟨none, _, hget, fun hwas => absurd (hadded.mp hwas) hno,
        fun _ hhave d hd hdcmp => absurd ⟨d, hd, hdcmp⟩ (hdef hhave), fun _ _ => rfl⟩

end Runs

/-! ### A node of the password file -/

/-- A node of the password file, and one that no file names. -/
def pwdNode : FtnAddr := ⟨str "fidonet", 2, 5047, 13, 0⟩
def newAddr : FtnAddr := ⟨str "fidonet", 2, 5047, 14, 0⟩

/-- The configuration sets `defnode`, with or without hosts, and the password file names a node. -/
def defnodeRun (hosts : Option Str) : List NodeOp :=
  [.defnode, .add 0 defnodeAddr { hosts := hosts, nrFlag := some true, pipe := some [] } .nlNode,
    .add 0 pwdNode { pwd := some (str "secret") } .nlPasswords]

theorem few_total : CmpTotal ftnaddressCmp (· ∈ [defnodeAddr, pwdNode, newAddr]) where
  antisymm := by
    have h : ∀ a ∈ [defnodeAddr, pwdNode, newAddr], ∀ b ∈ [defnodeAddr, pwdNode, newAddr],
        (0 < ftnaddressCmp a b ↔ ftnaddressCmp b a < 0) := by decide
    exact fun a b ha hb => h a ha b hb
  trans := by
    have h : ∀ a ∈ [defnodeAddr, pwdNode, newAddr], ∀ b ∈ [defnodeAddr, pwdNode, newAddr],
        ∀ c ∈ [defnodeAddr, pwdNode, newAddr], ftnaddressCmp a b ≤ 0 → ftnaddressCmp b c ≤ 0 →
          ftnaddressCmp a c ≤ 0 := by decide
    exact fun a b c ha hb hc => h a ha b hb c hc

end Binkd
