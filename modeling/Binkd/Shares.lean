import Binkd.Acknowledge
import Binkd.Ftnq
import Binkd.Lib.Descent
import Binkd.Lib.Linked
import Binkd.Session

/-!
# Files for shared addresses (`q_add_file` in `ftnq.c`, `read_shares` in `readcfg.c`)

A file for a shared address is also for the members of the share, and for their
members if they are shared addresses themselves.  `q_add_file` calls itself for every
member, with the queue that it was given, but drops what the call returns: the entries
that the calls make are linked in front of the old head, and then the caller links its
own entry there.  So the queue gets that entry alone (`qAddFileCells_spec`), which is
enough only for an address that is not shared.  Where shares are members of each other
the calls do not end.
-/

namespace Binkd

open Binkd.Lib Relation

/-! ### The share table -/

/-- `exp_ftnaddress`, with the first own address. -/
def expFtnaddress (fa own : FtnAddr) (pAddr : List FtnAddr) (pDomains : List FtnDomain) : FtnAddr :=
  let z := if fa.z = -1 then
      match getDomainInfo fa.domain pDomains with
      | some d => ((d.alias4.bind fun name => getDomainInfo name pDomains).getD d).z
      | none => own.z
    else fa.z
  { domain := if fa.domain = [] then getMatchedDomain z pAddr pDomains else fa.domain
    z := z
    net := if fa.net = -1 then own.net else fa.net
    node := if fa.node = -1 then own.node else fa.node
    p := fa.p }

/-- An address of a `share` line.  Without an own address the configuration is refused. -/
def readShareAddr (config : BinkdConfig) (word : Str) : Option FtnAddr :=
  match config.pAddr with
  | [] => none
  | own :: _ => (parseFtnaddress word config.pDomains).map fun fa =>
    expFtnaddress fa own config.pAddr config.pDomains

/-- `read_shares`.  The node line that it simulates for the shared address is refused if the
word looks like an option. -/
def readShares (config : BinkdConfig) (words : List Str) : Option SharedChain :=
  match words with
  | word :: member :: members => do
    let sha ← readShareAddr config word
    if word.headD 0 = 45 then none
    else
      let sfa ← (member :: members).mapM (readShareAddr config)
      some ⟨sha, sfa⟩
  | _ => none

/-- `b` is a member of a share with the address `a`. -/
def Member (shares : List SharedChain) (a b : FtnAddr) : Prop :=
  ∃ chn ∈ shares, ftnaddressCmp a chn.sha = 0 ∧ b ∈ chn.sfa

/-- Every share that is read has a member. -/
theorem readShares_member {config : BinkdConfig} {words : List Str} {chn : SharedChain}
    (h : readShares config words = some chn) : chn.sfa ≠ [] := by
  unfold readShares at h
  split at h
  · next word member members =>
    simp only [Option.bind_eq_bind, Option.bind_eq_some_iff] at h
    obtain ⟨sha, -, h⟩ := h
    split_ifs at h
    simp only [Option.bind_eq_some_iff, Option.some.injEq] at h
    obtain ⟨sfa, hsfa, rfl⟩ := h
    intro hnil
    have hnil : sfa = [] := hnil
    rw [hnil, List.mapM_cons] at hsfa
    simp [Option.bind_eq_some_iff] at hsfa
  · exact absurd h (by simp)

/-! ### Adding a file -/

/-- The memory: its cells, and the first number that none has. -/
structure Heap where
  store : Store Ftnq
  top : ℕ

/-- A file to be added. -/
structure NewFile where
  filename : Str
  flvr : Byte
  action : Byte
  type : Byte

/-- The entry of a file for an address; a status that cannot be read has none. -/
def newEntry (env : Env) (disk : Disk) (f : NewFile) (fa1 : FtnAddr) : Option Ftnq :=
  if f.type = 115 then
    (readStatus env disk f.filename).map fun st =>
      { fa := fa1, flvr := f.flvr, action := f.action, type := f.type, path := st.1.take (maxPathLen - 1),
        size := st.2.1, time := st.2.2 }
  else some { fa := fa1, flvr := f.flvr, action := f.action, type := f.type,
              path := f.filename.take (maxPathLen - 1) }

/-- A new cell in front of `q`. -/
def Heap.push (h : Heap) (q : Option ℕ) (e : Ftnq) : Heap :=
  let store : Store Ftnq := Function.update h.store h.top ⟨q, none, e⟩
  { store := match q with
      | some q => store.setPrev q (some h.top)
      | none => store
    top := h.top + 1 }

/-- `q_add_file`.  The number bounds the depth of the calls. -/
def qAddFileCells (shares : List SharedChain) (entry : FtnAddr → Option Ftnq) :
    ℕ → Heap → Option ℕ → FtnAddr → Option (Heap × Option ℕ)
  | 0, _, _, _ => none
  | fuel + 1, h, q, fa1 =>
    let recursion := shares.foldlM (fun h chn =>
      if ftnaddressCmp fa1 chn.sha = 0 then
        chn.sfa.foldlM (fun h fa => (qAddFileCells shares entry fuel h q fa).map (·.1)) h
      else some h) h
    match recursion with
    | none => none
    | some h => match entry fa1 with
      | none => some (h, q)
      | some e => some (h.push q e, some h.top)

theorem qAddFile_eq (env : Env) (disk : Disk) (f : NewFile) (fa1 : FtnAddr) (q : Queue) :
    qAddFile env disk f.filename fa1 f.flvr f.action f.type q = (newEntry env disk f fa1).toList ++ q := by
  unfold qAddFile newEntry
  split_ifs
  · cases readStatus env disk f.filename with
    | none => rfl
    | some st => rfl
  · rfl

/-- Cells below the top that do not change but for the link back from `q`. -/
structure Extends (q : Option ℕ) (h h' : Heap) : Prop where
  top : h.top ≤ h'.top
  next : ∀ i < h.top, (h'.store i).next = (h.store i).next
  prev : ∀ i < h.top, some i ≠ q → (h'.store i).prev = (h.store i).prev
  val : ∀ i < h.top, (h'.store i).val = (h.store i).val

theorem Extends.refl (q : Option ℕ) (h : Heap) : Extends q h h :=
  ⟨le_refl _, fun _ _ => rfl, fun _ _ _ => rfl, fun _ _ => rfl⟩

theorem Extends.trans {q : Option ℕ} {a b c : Heap} (h : Extends q a b) (h' : Extends q b c) :
    Extends q a c where
  top := h.top.trans h'.top
  next i hi := (h'.next i (hi.trans_le h.top)).trans (h.next i hi)
  prev i hi hq := (h'.prev i (hi.trans_le h.top) hq).trans (h.prev i hi hq)
  val i hi := (h'.val i (hi.trans_le h.top)).trans (h.val i hi)

section
variable {h : Heap} {q : Option ℕ} {e : Ftnq} {i : ℕ}

theorem Heap.push_next (hi : i < h.top) : ((h.push q e).store i).next = (h.store i).next := by
  have hne : i ≠ h.top := by omega
  cases q <;> simp [Heap.push, hne]

theorem Heap.push_val (hi : i < h.top) : ((h.push q e).store i).val = (h.store i).val := by
  have hne : i ≠ h.top := by omega
  cases q <;> simp [Heap.push, hne]

theorem Heap.push_prev (hi : i < h.top) :
    ((h.push q e).store i).prev = if some i = q then some h.top else (h.store i).prev := by
  have hne : i ≠ h.top := by omega
  cases q <;> simp [Heap.push, Store.setPrev_prev, hne]

theorem Heap.push_new (hq : q ≠ some h.top) : (h.push q e).store h.top = ⟨q, none, e⟩ := by
  cases q with
  | none => simp [Heap.push]
  | some c =>
    have hne : h.top ≠ c := fun heq => hq (heq ▸ rfl)
    simp [Heap.push, Store.setPrev_of_ne _ _ hne]

theorem Heap.push_extends (h : Heap) (q : Option ℕ) (e : Ftnq) : Extends q h (h.push q e) where
  top := Nat.le_succ _
  next _ hi := Heap.push_next hi
  prev i hi hq := by rw [Heap.push_prev hi, if_neg hq]
  val _ hi := Heap.push_val hi

/-- A new cell in front of a list, which may have a wrong link back from its head. -/
theorem Heap.push_list {h0 : Heap} {cells : List ℕ} (hlist : IsList h0.store q cells)
    (hbelow : ∀ i ∈ cells, i < h0.top) (hext : Extends q h0 h) :
    IsList (h.push q e).store (some h.top) (h.top :: cells) := by
  have hne : ∀ i ∈ cells, i ≠ h.top := by
    intro i hi heq
    have := hbelow i hi
    have := hext.top
    omega
  have hq : q ≠ some h.top := by
    intro heq
    rw [hlist.first_eq] at heq
    exact hne h.top (List.mem_of_mem_head? heq) rfl
  have hins := @IsList.insert Ftnq h0.store (h.push q e).store [] cells q h.top (by simpa using hlist)
    (by simpa using fun hmem => hne h.top hmem rfl) ?_ ?_
  · simpa using hins
  · intro a ha
    rcases List.mem_cons.mp ha with rfl | ha
    · rw [if_pos rfl, Heap.push_new hq, hlist.first_eq]
    · rw [if_neg (hne a ha), if_neg (by simp [lastOf]),
        Heap.push_next ((hbelow a ha).trans_le hext.top), hext.next a (hbelow a ha)]
  · intro a ha
    rcases List.mem_cons.mp ha with rfl | ha
    · rw [if_pos rfl, Heap.push_new hq]
      rfl
    · rw [if_neg (hne a ha), Heap.push_prev ((hbelow a ha).trans_le hext.top), ← hlist.first_eq]
      split_ifs with heq
      · rfl
      · exact hext.prev a (hbelow a ha) heq

end

section
variable {shares : List SharedChain} {entry : FtnAddr → Option Ftnq} {fuel : ℕ} {h h' : Heap} {q q' : Option ℕ}
  {fa1 : FtnAddr}

/-- The loops over the shares and their members. -/
def addMembers (shares : List SharedChain) (call : Heap → FtnAddr → Option Heap) (fa1 : FtnAddr) (h : Heap) :
    Option Heap :=
  shares.foldlM (fun h chn =>
    if ftnaddressCmp fa1 chn.sha = 0 then chn.sfa.foldlM (fun h fa => call h fa) h else some h) h

theorem qAddFileCells_succ : qAddFileCells shares entry (fuel + 1) h q fa1 =
    (addMembers shares (fun h fa => (qAddFileCells shares entry fuel h q fa).map (·.1)) fa1 h).map fun h =>
      match entry fa1 with
      | none => (h, q)
      | some e => (h.push q e, some h.top) := by
  rw [qAddFileCells, addMembers]
  split
  · next heq => rw [heq]; rfl
  · next heq =>
    rw [heq]
    cases entry fa1 <;> rfl

variable {call call' : Heap → FtnAddr → Option Heap}

theorem addMembers_imp {s r : Heap} (himp : ∀ fa, Member shares fa1 fa → ∀ s r, call s fa = some r → call' s fa = some r)
    (h : addMembers shares call fa1 s = some r) : addMembers shares call' fa1 s = some r := by
  apply foldlM_imp ?_ h
  intro chn hchn s r hr
  split_ifs at hr ⊢ with hcmp
  · exact foldlM_imp (fun fa hfa => himp fa ⟨chn, hchn, hcmp, hfa⟩) hr
  · exact hr

theorem addMembers_isSome (hcall : ∀ fa, Member shares fa1 fa → ∀ s, (call s fa).isSome = true) (s : Heap) :
    (addMembers shares call fa1 s).isSome = true := by
  apply foldlM_isSome
  intro chn hchn s
  split_ifs with hcmp
  · exact foldlM_isSome (fun fa hfa => hcall fa ⟨chn, hchn, hcmp, hfa⟩) s
  · rfl

theorem addMembers_none {fa : FtnAddr} (hmem : Member shares fa1 fa) (hcall : ∀ s, call s fa = none) (s : Heap) :
    addMembers shares call fa1 s = none := by
  obtain ⟨chn, hchn, hcmp, hfa⟩ := hmem
  apply foldlM_none hchn
  intro s
  rw [if_pos hcmp]
  exact foldlM_none hfa hcall s

theorem addMembers_rel {R : Heap → Heap → Prop} (hrefl : ∀ s, R s s) (htrans : ∀ a b c, R a b → R b c → R a c)
    (hcall : ∀ fa, Member shares fa1 fa → ∀ s r, call s fa = some r → R s r) {s r : Heap}
    (h : addMembers shares call fa1 s = some r) : R s r := by
  apply foldlM_rel hrefl htrans ?_ h
  intro chn hchn s r hr
  split_ifs at hr with hcmp
  · exact foldlM_rel hrefl htrans (fun fa hfa => hcall fa ⟨chn, hchn, hcmp, hfa⟩) hr
  · have hsr : s = r := Option.some.inj hr
    exact hsr ▸ hrefl s

/-- A deeper bound changes nothing. -/
theorem qAddFileCells_mono {fuel' : ℕ} (hle : fuel ≤ fuel') {r : Heap × Option ℕ}
    (hr : qAddFileCells shares entry fuel h q fa1 = some r) :
    qAddFileCells shares entry fuel' h q fa1 = some r := by
  induction fuel generalizing fuel' h fa1 r with
  | zero => exact absurd hr (by simp [qAddFileCells])
  | succ fuel ih =>
    obtain ⟨fuel', rfl⟩ : ∃ k, fuel' = k + 1 := ⟨fuel' - 1, by omega⟩
    rw [qAddFileCells_succ, Option.map_eq_some_iff] at hr ⊢
    obtain ⟨m, hm, hr⟩ := hr
    refine ⟨m, addMembers_imp ?_ hm, hr⟩
    intro fa _ s t ht
    rw [Option.map_eq_some_iff] at ht ⊢
    obtain ⟨p, hp, rfl⟩ := ht
    exact ⟨p, ih (by omega) hp, rfl⟩

/-- The calls for the members change no cell that there was, but for the link back from the head. -/
theorem qAddFileCells_extends (hr : qAddFileCells shares entry fuel h q fa1 = some (h', q')) :
    Extends q h h' := by
  induction fuel generalizing h fa1 h' q' with
  | zero => exact absurd hr (by simp [qAddFileCells])
  | succ fuel ih =>
    rw [qAddFileCells_succ, Option.map_eq_some_iff] at hr
    obtain ⟨m, hm, hr⟩ := hr
    have hext : Extends q h m := by
      apply addMembers_rel (Extends.refl q) (fun _ _ _ => Extends.trans) ?_ hm
      intro fa _ s t ht
      rw [Option.map_eq_some_iff] at ht
      obtain ⟨⟨s', p⟩, hp, rfl⟩ := ht
      exact ih hp
    cases he : entry fa1 with
    | none =>
      simp only [he, Prod.mk.injEq] at hr
      exact hr.1 ▸ hext
    | some e =>
      simp only [he, Prod.mk.injEq] at hr
      exact hr.1 ▸ hext.trans (Heap.push_extends m q e)

/-- Without entries the memory stays as it is. -/
theorem qAddFileCells_none (hentry : ∀ a, entry a = none)
    (hr : qAddFileCells shares entry fuel h q fa1 = some (h', q')) : h' = h ∧ q' = q := by
  induction fuel generalizing h fa1 h' q' with
  | zero => exact absurd hr (by simp [qAddFileCells])
  | succ fuel ih =>
    rw [qAddFileCells_succ, Option.map_eq_some_iff] at hr
    obtain ⟨m, hm, hr⟩ := hr
    have hsame : h = m := by
      apply addMembers_rel (fun _ => rfl) (fun _ _ _ => Eq.trans) ?_ hm
      intro fa _ s t ht
      rw [Option.map_eq_some_iff] at ht
      obtain ⟨⟨s', p⟩, hp, rfl⟩ := ht
      exact (ih hp).1.symm
    simp only [hentry, Prod.mk.injEq] at hr
    exact ⟨hr.1.symm.trans hsame.symm, hr.2.symm⟩

/-- A call that ends has put its own entry in front of the list, and no other. -/
theorem qAddFileCells_spec {cells : List ℕ} (hlist : IsList h.store q cells) (hbelow : ∀ i ∈ cells, i < h.top)
    (hr : qAddFileCells shares entry fuel h q fa1 = some (h', q')) {e : Ftnq} (he : entry fa1 = some e) :
    ∃ n, h.top ≤ n ∧ IsList h'.store q' (n :: cells) ∧ (h'.store n).val = e ∧
      ∀ i ∈ cells, (h'.store i).val = (h.store i).val := by
  have hext := qAddFileCells_extends hr
  cases fuel with
  | zero => exact absurd hr (by simp [qAddFileCells])
  | succ fuel =>
    rw [qAddFileCells_succ, Option.map_eq_some_iff] at hr
    obtain ⟨m, hm, hr⟩ := hr
    have hextm : Extends q h m := by
      apply addMembers_rel (Extends.refl q) (fun _ _ _ => Extends.trans) ?_ hm
      intro fa _ s t ht
      rw [Option.map_eq_some_iff] at ht
      obtain ⟨⟨s', p⟩, hp, rfl⟩ := ht
      exact qAddFileCells_extends hp
    simp only [he, Prod.mk.injEq] at hr
    obtain ⟨rfl, rfl⟩ := hr
    refine ⟨m.top, hextm.top, Heap.push_list hlist hbelow hextm, ?_,
      fun i hi => hext.val i (hbelow i hi)⟩
    rw [Heap.push_new]
    intro heq
    rw [hlist.first_eq] at heq
    have := hbelow m.top (List.mem_of_mem_head? heq)
    have := hextm.top
    omega

/-! ### The depth of the calls -/

/-- Where shares are members of each other the calls do not end. -/
theorem qAddFileCells_cycle (hcycle : ReachesCycle (Member shares) fa1) :
    qAddFileCells shares entry fuel h q fa1 = none := by
  induction fuel generalizing h fa1 with
  | zero => rfl
  | succ fuel ih =>
    obtain ⟨fa, hmem, hfa⟩ := hcycle.step
    rw [qAddFileCells_succ, addMembers_none hmem]
    · rfl
    · intro s
      rw [ih hfa]
      rfl

/-- The addresses that are members of some share. -/
def allMembers (shares : List SharedChain) : List FtnAddr := shares.flatMap (·.sfa)

theorem Member.mem {a b : FtnAddr} (hab : Member shares a b) : b ∈ allMembers shares := by
  obtain ⟨chn, hchn, -, hb⟩ := hab
  exact List.mem_flatMap.mpr ⟨chn, hchn, hb⟩

/-- Otherwise they do. -/
theorem qAddFileCells_ends (hcycle : ¬ ReachesCycle (Member shares) fa1) (entry : FtnAddr → Option Ftnq)
    (q : Option ℕ) : ∃ fuel, ∀ h, (qAddFileCells shares entry fuel h q fa1).isSome = true := by
  have hacc := acc_of_not_reachesCycle (fun _ _ hab => Member.mem hab) hcycle
  clear hcycle
  induction hacc with
  | intro a _ ih =>
    have hbound : ∃ n, ∀ b ∈ allMembers shares, Member shares a b →
        ∀ h, (qAddFileCells shares entry n h q b).isSome = true := by
      apply exists_bound
      · intro n m b hnm hn hab s
        obtain ⟨r, hr⟩ := Option.isSome_iff_exists.mp (hn hab s)
        rw [qAddFileCells_mono hnm hr]
        rfl
      · intro b _
        by_cases hab : Member shares a b
        · obtain ⟨n, hn⟩ := ih b hab
          exact ⟨n, fun _ => hn⟩
        · exact ⟨0, fun hab' => absurd hab' hab⟩
    obtain ⟨n, hn⟩ := hbound
    refine ⟨n + 1, fun s => ?_⟩
    rw [qAddFileCells_succ, Option.isSome_map]
    apply addMembers_isSome
    intro b hab s
    rw [Option.isSome_map]
    exact hn b hab.mem hab s

end

/-! ### Whose files are queued -/

/-- A queue in memory. -/
structure OutQueue where
  heap : Heap
  first : Option ℕ
  cells : List ℕ
  list : IsList heap.store first cells
  below : ∀ i ∈ cells, i < heap.top

/-- `q_add_file` ends with a well formed list of the old entries and new ones, among them one for the
address and one for everyone that is a member of a share with it or with another such member. -/
def Added (shares : List SharedChain) (entry : FtnAddr → Option Ftnq) (q : OutQueue) (fa1 : FtnAddr) : Prop :=
  ∃ bound h first cells added,
    (∀ fuel ≥ bound, qAddFileCells shares entry fuel q.heap q.first fa1 = some (h, first)) ∧
    IsList h.store first cells ∧ cells.Perm (added ++ q.cells) ∧
    (∀ i ∈ q.cells, (h.store i).val = (q.heap.store i).val) ∧
    ∀ a, ReflTransGen (Member shares) fa1 a → ∀ e, entry a = some e → e ∈ vals h.store added

section
variable {shares : List SharedChain} {env : Env} {disk : Disk} {f : NewFile} {q : OutQueue} {fa1 a b : FtnAddr}

theorem newEntry_fa {e : Ftnq} (he : newEntry env disk f a = some e) : e.fa = a := by
  unfold newEntry at he
  split_ifs at he
  · obtain ⟨st, -, rfl⟩ := Option.map_eq_some_iff.mp he
    rfl
  · have he := Option.some.inj he
    rw [← he]

/-- Whether a file has an entry does not depend on the address. -/
theorem newEntry_none (h : newEntry env disk f a = none) (b : FtnAddr) :
    newEntry env disk f b = none := by
  unfold newEntry at h ⊢
  split_ifs at h ⊢
  rw [Option.map_eq_none_iff] at h ⊢
  exact h

/-- What is in the list in the end is what `qAddFile` says. -/
theorem qAddFileCells_queue {fuel : ℕ} {h : Heap} {first : Option ℕ}
    (hr : qAddFileCells shares (newEntry env disk f) fuel q.heap q.first fa1 = some (h, first)) :
    ∃ cells, IsList h.store first cells ∧
      vals h.store cells = qAddFile env disk f.filename fa1 f.flvr f.action f.type
      (vals q.heap.store q.cells) := by
  rw [qAddFile_eq]
  cases he : newEntry env disk f fa1 with
  | none =>
    obtain ⟨rfl, rfl⟩ := qAddFileCells_none (newEntry_none he) hr
    exact ⟨q.cells, q.list, rfl⟩
  | some e =>
    obtain ⟨n, -, hlist, hval, hvals⟩ := qAddFileCells_spec q.list q.below hr he
    refine ⟨n :: q.cells, hlist, ?_⟩
    rw [vals, List.map_cons, hval]
    exact congrArg (e :: ·) (List.map_congr_left hvals)

theorem Added.not_cycle {entry : FtnAddr → Option Ftnq} (h : Added shares entry q fa1) :
    ¬ ReachesCycle (Member shares) fa1 := by
  intro hcycle
  obtain ⟨bound, s, first, cells, added, hres, -⟩ := h
  have hnone := hres bound (le_refl bound)
  rw [qAddFileCells_cycle hcycle] at hnone
  exact absurd hnone (by simp)

/-- The entry for a member of a share is lost. -/
theorem Added.no_entry (h : Added shares (newEntry env disk f) q fa1) (hmem : Member shares fa1 b) :
    newEntry env disk f fa1 = none := by
  have hcycle := h.not_cycle
  obtain ⟨bound, s, first, cells, added, hres, hlist, hperm, -, hadded⟩ := h
  cases he : newEntry env disk f fa1 with
  | none => rfl
  | some e =>
    obtain ⟨n, -, hlist', hval, -⟩ := qAddFileCells_spec q.list q.below (hres bound (le_refl bound)) he
    have hone : added = [n] := by
      rw [hlist.seg.unique hlist'.seg] at hperm
      have hperm : ([n] ++ q.cells).Perm (added ++ q.cells) := hperm
      exact List.perm_singleton.mp ((List.perm_append_right_iff q.cells).mp hperm).symm
    have hall : ∀ a e, ReflTransGen (Member shares) fa1 a → newEntry env disk f a = some e →
        e = (s.store n).val := by
      intro a e ha he
      have hin := hadded a ha e he
      rw [hone] at hin
      simpa [vals] using hin
    cases hb : newEntry env disk f b with
    | none => exact absurd (newEntry_none hb fa1) (by simp [he])
    | some e' =>
      have hee : e' = e := (hall b e' (.single hmem) hb).trans (hall fa1 e .refl he).symm
      have hbfa : b = fa1 := by rw [← newEntry_fa hb, hee, newEntry_fa he]
      rw [hbfa] at hmem
      exact absurd ⟨fa1, .refl, .single hmem⟩ hcycle

/-- Without a cycle the call ends, with the entry that it makes itself. -/
theorem added_of_not_cycle (hcycle : ¬ ReachesCycle (Member shares) fa1)
    (hown : ∀ a, ReflTransGen (Member shares) fa1 a → ∀ e, newEntry env disk f a = some e → a = fa1) :
    Added shares (newEntry env disk f) q fa1 := by
  obtain ⟨bound, hbound⟩ := qAddFileCells_ends hcycle (newEntry env disk f) q.first
  obtain ⟨⟨h, first⟩, hres⟩ := Option.isSome_iff_exists.mp (hbound q.heap)
  cases he : newEntry env disk f fa1 with
  | none =>
    obtain ⟨rfl, rfl⟩ := qAddFileCells_none (newEntry_none he) hres
    refine ⟨bound, q.heap, q.first, q.cells, [], fun fuel hfuel => qAddFileCells_mono hfuel hres,
      q.list, .refl _,
      fun _ _ => rfl, ?_⟩
    intro a _ e hae
    rw [newEntry_none he a] at hae
    exact absurd hae (by simp)
  | some e =>
    obtain ⟨n, -, hlist, hval, hvals⟩ := qAddFileCells_spec q.list q.below hres he
    refine ⟨bound, h, first, n :: q.cells, [n], fun fuel hfuel => qAddFileCells_mono hfuel hres,
      hlist, .refl _,
      hvals, ?_⟩
    intro a ha e' hae
    rw [hown a ha e' hae, he] at hae
    rw [← Option.some.inj hae, ← hval]
    simp [vals]

/-- The file is added for everyone it is for exactly if its address is not a shared one, or if it has
no entry at all and no shares in reach are members of each other. -/
theorem shares_added (shares : List SharedChain) (env : Env) (disk : Disk) (f : NewFile) (q : OutQueue)
    (fa1 : FtnAddr) :
    Added shares (newEntry env disk f) q fa1 ↔
      (∀ b, ¬ Member shares fa1 b) ∨
        newEntry env disk f fa1 = none ∧ ¬ ReachesCycle (Member shares) fa1 := by
  constructor
  · intro h
    by_cases hmem : ∃ b, Member shares fa1 b
    · obtain ⟨b, hb⟩ := hmem
      exact .inr ⟨h.no_entry hb, h.not_cycle⟩
    · exact .inl (not_exists.mp hmem)
  · rintro (hmem | ⟨hnone, hcycle⟩)
    · apply added_of_not_cycle
      · intro hcycle
        obtain ⟨b, hb, -⟩ := hcycle.step
        exact hmem b hb
      · intro a ha _ _
        rcases ReflTransGen.cases_head ha with rfl | ⟨b, hb, -⟩
        · rfl
        · exact absurd hb (hmem b)
    · apply added_of_not_cycle hcycle
      intro a _ e hae
      rw [newEntry_none hnone a] at hae
      exact absurd hae (by simp)

end

deriving instance DecidableEq for SharedChain

/-- The empty queue, and a mail file. -/
def noQueue : OutQueue where
  heap := ⟨fun _ => ⟨none, none, {}⟩, 0⟩
  first := none
  cells := []
  list := ⟨rfl, List.nodup_nil⟩
  below := by simp

def mailFile : NewFile := ⟨str "/o/out/13940064.hut", 104, 100, 109⟩

/-- The file for a shared address is not queued for the member; and a share may be its own member,
then the call does not end. -/
theorem shares_added_not :
    readShares (fidoConfig []) [str "2:5020/100", str "2:5020/1"] = some ⟨aka 100, [aka 1]⟩ ∧
    ¬ Added [⟨aka 100, [aka 1]⟩] (newEntry {} spoolDisk mailFile) noQueue (aka 100) ∧
    readShares (fidoConfig []) [str "2:5020/100", str "2:5020/100"] = some ⟨aka 100, [aka 100]⟩ ∧
    ¬ Added [⟨aka 100, [aka 100]⟩] (newEntry {} spoolDisk mailFile) noQueue (aka 100) := by
  have hother : Member [⟨aka 100, [aka 1]⟩] (aka 100) (aka 1) :=
    ⟨_, List.mem_cons_self, ftnaddressCmp_self (aka 100), List.mem_cons_self⟩
  have hself : Member [⟨aka 100, [aka 100]⟩] (aka 100) (aka 100) :=
    ⟨_, List.mem_cons_self, ftnaddressCmp_self (aka 100), List.mem_cons_self⟩
  refine ⟨by decide +kernel, ?_, by decide +kernel, ?_⟩
  · intro h
    exact absurd (h.no_entry hother) (by simp [newEntry, mailFile])
  · intro h
    exact h.not_cycle ⟨aka 100, .refl, .single hself⟩

end Binkd
