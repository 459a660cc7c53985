import Binkd.AddressText
import Binkd.Duplicates
import Binkd.Ftnq
import Mathlib.Logic.Function.Basic
import Mathlib.Logic.Relation

/-!
# The busy flags of many processes (`bsy.c`)

A process that calls a node, or is called by it, holds a flag of the node: a `.csy` or a `.bsy` file in
the outbound.  The processes share nothing but the outbound: `bsy_add` creates the flag where it
does not exist, `bsy_touch` keeps it young, `bsy_remove` deletes it, and whoever scans the queue
takes a flag that is older than `kill-old-bsy` for one that was left behind, and deletes it.

`SharingStep` lets any number of processes do this in any order, while time goes by.  No two of them
ever hold the same flag, provided that each calls `bsy_touch` often enough for `kill-old-bsy`
(`busy_flags_exclusive`), and only then (`busy_flags_exclusive_iff`).  The directories that
`deletedirs` removes when they are empty are left out.
-/

namespace Binkd

/-! ### The flags -/

/-- `bsy_t`. -/
inductive BsyT
  | bsy | csy
deriving DecidableEq

/-- `BSY_TOUCH_DELAY`. -/
def bsyTouchDelay : Int := 60

def BsyT.ext : BsyT → Str
  | .bsy => str ".bsy"
  | .csy => str ".csy"

/-- `BSY_ADDR`; a cell is free where the address is null. -/
structure BsyAddr where
  fa : FtnAddr := {}
  bt : BsyT := .bsy
deriving DecidableEq

/-- The name of a flag, `none` where the domain is unknown. -/
def bsyFile (config : BinkdConfig) (fa : FtnAddr) (bt : BsyT) : Option Str :=
  let buf := ftnaddressToFilename fa config.pDomains
  if buf = [] then none else some ((buf ++ bt.ext).take maxPathLen)

/-- `create_sem_file`: what cannot be written is only logged. -/
def Disk.createSemFile (env : Env) (pid : ℕ) (disk : Disk) (name : Str) : Option Disk :=
  (disk.createEmptySemFile env name).map fun created =>
    if (env.fault (.write name)).isSome then created
    else created.insert name { bytes := decimal pid ++ [10], mtime := env.now }

/-- `bsy_test`: is the flag free? -/
def bsyTest (config : BinkdConfig) (fa : FtnAddr) (bt : BsyT) (disk : Disk) : Bool :=
  match bsyFile config fa bt with
  | some buf => (disk.lookup buf).isNone
  | none => false

/-- A process that uses the outbound: the cells of `bsy_list`, and the static `last_touch`. -/
structure BsyProcess where
  bsyList : List BsyAddr := []
  lastTouch : Int := 0

/-- The first free cell is filled, if there is one. -/
def fillFree (new : BsyAddr) : List BsyAddr → Option (List BsyAddr)
  | [] => none
  | c :: cs => if c.fa = {} then some (new :: cs) else (fillFree new cs).map (c :: ·)

/-- `bsy_get_free_cell`, and what is put there. -/
def bsyGetFreeCell (new : BsyAddr) (cells : List BsyAddr) : List BsyAddr :=
  (fillFree new cells).getD (new :: cells)

/-- The first cell with the address is freed. -/
def freeCell (fa : FtnAddr) (bt : BsyT) : List BsyAddr → Option (List BsyAddr)
  | [] => none
  | c :: cs =>
    if ftnaddressCmp c.fa fa = 0 ∧ c.bt = bt then some ({ c with fa := {} } :: cs)
    else (freeCell fa bt cs).map (c :: ·)

namespace BsyProcess

/-- `bsy_add`: `none` where the node is busy. -/
def bsyAdd (config : BinkdConfig) (env : Env) (pid : ℕ) (fa : FtnAddr) (bt : BsyT) (disk : Disk)
    (p : BsyProcess) : Option (Disk × BsyProcess) :=
  match bsyFile config fa bt with
  | none => none
  | some buf => (disk.createSemFile env pid buf).map fun disk =>
      (disk, { p with bsyList := bsyGetFreeCell ⟨fa, bt⟩ p.bsyList })

/-- `bsy_remove`. -/
def bsyRemove (config : BinkdConfig) (env : Env) (fa : FtnAddr) (bt : BsyT) (disk : Disk)
    (p : BsyProcess) : Disk × BsyProcess :=
  match bsyFile config fa bt, freeCell fa bt p.bsyList with
  | some buf, some cells => ((disk.delete env buf).1, { p with bsyList := cells })
  | _, _ => (disk, p)

/-- `bsy_remove_all`: a cell without a name stays as it is. -/
def bsyRemoveAll (config : BinkdConfig) (env : Env) (disk : Disk) (p : BsyProcess) : Disk × BsyProcess :=
  let buf := fun c : BsyAddr => if c.fa = {} then none else bsyFile config c.fa c.bt
  ((p.bsyList.filterMap buf).foldl (fun disk buf => (disk.delete env buf).1) disk,
    { p with bsyList := p.bsyList.map fun c => if (buf c).isSome then { c with fa := {} } else c })

/-- `bsy_touch`. -/
def bsyTouch (config : BinkdConfig) (env : Env) (disk : Disk) (p : BsyProcess) : Disk × BsyProcess :=
  if env.now - p.lastTouch > bsyTouchDelay then
    ((p.bsyList.filterMap fun c => bsyFile config c.fa c.bt).foldl
      (fun disk buf => disk.touch env buf env.now) disk, { p with lastTouch := env.now })
  else (disk, p)

/-- The flags that a process holds. -/
def flags (config : BinkdConfig) (p : BsyProcess) : List Str :=
  p.bsyList.filterMap fun c => bsyFile config c.fa c.bt

end BsyProcess

/-- The domains of a config have names, which are C strings. -/
def NamedDomains (config : BinkdConfig) : Prop := ∀ d ∈ config.pDomains, 0 ∉ d.name ∧ d.name ≠ []

variable {config : BinkdConfig} {env : Env} {disk : Disk} {cells cells' : List BsyAddr} {path : Str}
  {fa : FtnAddr} {bt : BsyT} {p : BsyProcess}

/-- A free cell has no flag. -/
theorem bsyFile_free (hdomains : NamedDomains config) (bt : BsyT) : bsyFile config {} bt = none := by
  have hnone : getDomainInfo [] config.pDomains = none := by
    refine List.find?_eq_none.mpr fun d hd => ?_
    obtain ⟨hnul, hname⟩ := hdomains d hd
    rw [decide_eq_true_eq, stricmp_eq_zero hnul List.not_mem_nil, List.map_nil, List.map_eq_nil_iff]
    exact hname
  unfold bsyFile ftnaddressToFilename
  rw [hnone]
  rfl

/-- The flag is one of the address, however its domain is spelled. -/
theorem bsyFile_congr (hdomains : NamedDomains config) {fb : FtnAddr} (ha : 0 ∉ fa.domain) (hb : 0 ∉ fb.domain)
    (h : ftnaddressCmp fa fb = 0) (bt : BsyT) : bsyFile config fa bt = bsyFile config fb bt := by
  obtain ⟨hdomain, hz, hnet, hnode, hp⟩ := ftnaddressCmp_eq_zero.mp h
  unfold bsyFile ftnaddressToFilename
  rw [getDomainInfo_congr hdomain ha hb fun d hd => (hdomains d hd).1, hz, hnet, hnode, hp]

/-! ### The cells -/

theorem flags_fillFree (hdomains : NamedDomains config) {new : BsyAddr} (h : fillFree new cells = some cells') :
    (cells'.filterMap fun c => bsyFile config c.fa c.bt).Perm
      ((bsyFile config new.fa new.bt).toList ++ cells.filterMap fun c => bsyFile config c.fa c.bt) := by
  induction cells generalizing cells' with
  | nil => simp [fillFree] at h
  | cons c cells ih =>
    unfold fillFree at h
    split_ifs at h with hfree
    · obtain rfl := Option.some.inj h
      rw [List.filterMap_cons, List.filterMap_cons, hfree, bsyFile_free hdomains]
      cases bsyFile config new.fa new.bt with
      | none => exact .refl _
      | some buf => exact .refl _
    · obtain ⟨tail, htail, rfl⟩ := Option.map_eq_some_iff.mp h
      rw [List.filterMap_cons, List.filterMap_cons]
      cases bsyFile config c.fa c.bt with
      | none => exact ih htail
      | some buf => exact ((ih htail).cons buf).trans List.perm_middle.symm

/-- A new flag is held beside the others. -/
theorem flags_bsyGetFreeCell (hdomains : NamedDomains config) (hfile : bsyFile config fa bt = some path) :
    ((bsyGetFreeCell ⟨fa, bt⟩ cells).filterMap fun c => bsyFile config c.fa c.bt).Perm
      (path :: cells.filterMap fun c => bsyFile config c.fa c.bt) := by
  unfold bsyGetFreeCell
  cases h : fillFree ⟨fa, bt⟩ cells with
  | none => rw [Option.getD_none, List.filterMap_cons, hfile]
  | some cells' =>
    have hperm := flags_fillFree hdomains h
    rwa [hfile] at hperm

/-- The flag that is given up is the one with the name. -/
theorem flags_freeCell (hdomains : NamedDomains config) (hnul : 0 ∉ fa.domain)
    (hcells : ∀ c ∈ cells, 0 ∉ c.fa.domain) (hfile : bsyFile config fa bt = some path)
    (h : freeCell fa bt cells = some cells') :
    (cells.filterMap fun c => bsyFile config c.fa c.bt).Perm
      (path :: cells'.filterMap fun c => bsyFile config c.fa c.bt) := by
  induction cells generalizing cells' with
  | nil => simp [freeCell] at h
  | cons c cells ih =>
    unfold freeCell at h
    split_ifs at h with hmatch
    · obtain rfl := Option.some.inj h
      have hsame : bsyFile config c.fa c.bt = some path := by
        rw [bsyFile_congr hdomains (hcells c List.mem_cons_self) hnul hmatch.1, hmatch.2, hfile]
      rw [List.filterMap_cons, List.filterMap_cons, hsame, bsyFile_free hdomains]
    · obtain ⟨tail, htail, rfl⟩ := Option.map_eq_some_iff.mp h
      have hperm := ih (fun d hd => hcells d (List.mem_cons_of_mem c hd)) htail
      rw [List.filterMap_cons, List.filterMap_cons]
      cases bsyFile config c.fa c.bt with
      | none => exact hperm
      | some buf => exact (hperm.cons buf).trans (List.Perm.swap _ _ _)

/-- A cell is a new one or an old one. -/
theorem mem_fillFree {new : BsyAddr} (h : fillFree new cells = some cells') {c : BsyAddr} (hc : c ∈ cells') :
    c = new ∨ c ∈ cells := by
  induction cells generalizing cells' with
  | nil => simp [fillFree] at h
  | cons d cells ih =>
    unfold fillFree at h
    split_ifs at h with hfree
    · obtain rfl := Option.some.inj h
      exact (List.mem_cons.mp hc).imp_right (List.mem_cons_of_mem d)
    · obtain ⟨tail, htail, rfl⟩ := Option.map_eq_some_iff.mp h
      rcases List.mem_cons.mp hc with rfl | hc
      · exact .inr List.mem_cons_self
      · exact (ih htail hc).imp_right (List.mem_cons_of_mem d)

theorem mem_bsyGetFreeCell {new c : BsyAddr} (hc : c ∈ bsyGetFreeCell new cells) : c = new ∨ c ∈ cells := by
  unfold bsyGetFreeCell at hc
  cases h : fillFree new cells with
  | none =>
    rw [h, Option.getD_none] at hc
    exact List.mem_cons.mp hc
  | some cells' =>
    rw [h, Option.getD_some] at hc
    exact mem_fillFree h hc

theorem mem_freeCell (h : freeCell fa bt cells = some cells') {c : BsyAddr} (hc : c ∈ cells') :
    c.fa = {} ∨ c ∈ cells := by
  induction cells generalizing cells' with
  | nil => simp [freeCell] at h
  | cons d cells ih =>
    unfold freeCell at h
    split_ifs at h with hmatch
    · obtain rfl := Option.some.inj h
      rcases List.mem_cons.mp hc with rfl | hc
      · exact .inl rfl
      · exact .inr (List.mem_cons_of_mem d hc)
    · obtain ⟨tail, htail, rfl⟩ := Option.map_eq_some_iff.mp h
      rcases List.mem_cons.mp hc with rfl | hc
      · exact .inr List.mem_cons_self
      · exact (ih htail hc).imp_right (List.mem_cons_of_mem d)

/-! ### The disk -/

theorem Disk.createSemFile_eq {pid : ℕ} {disk' : Disk} (h : disk.createSemFile env pid path = some disk') :
    disk.lookup path = none ∧ (∃ f, disk'.lookup path = some f ∧ f.mtime = env.now) ∧
    ∀ other, other ≠ path → disk'.lookup other = disk.lookup other := by
  obtain ⟨created, hcreated, rfl⟩ := Option.map_eq_some_iff.mp h
  unfold createEmptySemFile at hcreated
  split_ifs at hcreated with hnot
  obtain rfl := Option.some.inj hcreated
  obtain ⟨-, hfree⟩ := not_or.mp hnot
  refine ⟨by simpa using hfree, ?_, fun other hother => ?_⟩
  · split_ifs
    · exact ⟨_, AList.lookup_insert _, rfl⟩
    · exact ⟨_, AList.lookup_insert _, rfl⟩
  · split_ifs
    · exact AList.lookup_insert_ne hother
    · rw [AList.lookup_insert_ne hother, AList.lookup_insert_ne hother]

/-- Deleting some names leaves the others as they are. -/
theorem Disk.deleteAll_lookup (env : Env) (paths : List Str) (disk : Disk) {other : Str} (h : other ∉ paths) :
    (paths.foldl (fun disk buf => (disk.delete env buf).1) disk).lookup other = disk.lookup other := by
  induction paths generalizing disk with
  | nil => rfl
  | cons buf paths ih =>
    rw [List.foldl_cons, ih _ fun hmem => h (List.mem_cons_of_mem buf hmem)]
    exact disk.delete_lookup_ne env fun heq => h (heq ▸ List.mem_cons_self)

/-- Touching a name changes only when it was written. -/
theorem Disk.touch_cases (env : Env) (disk : Disk) (path : Str) (t : Int) (other : Str) :
    (disk.touch env path t).lookup other = disk.lookup other ∨
    other = path ∧ ∃ f, (disk.touch env path t).lookup other = some f ∧ f.mtime = t := by
  unfold touch
  split
  · next f hf =>
    split_ifs
    · exact .inl rfl
    · by_cases hother : other = path
      · rw [hother]
        exact .inr ⟨rfl, _, AList.lookup_insert _, rfl⟩
      · exact .inl (AList.lookup_insert_ne hother)
  · exact .inl rfl

theorem Disk.touchAll_lookup (env : Env) (t : Int) (paths : List Str) (disk : Disk) {other : Str}
    (h : other ∉ paths) :
    (paths.foldl (fun disk buf => disk.touch env buf t) disk).lookup other = disk.lookup other := by
  induction paths generalizing disk with
  | nil => rfl
  | cons buf paths ih =>
    rw [List.foldl_cons, ih _ fun hmem => h (List.mem_cons_of_mem buf hmem)]
    exact (Disk.touch_cases env disk buf t other).resolve_right fun htouched =>
      h (htouched.1 ▸ List.mem_cons_self)

/-- Each name that is touched, and is there, is written at the time. -/
theorem Disk.touchAll_time (hsound : ∀ buf, env.fault (.touch buf) = none) (t : Int) (paths : List Str)
    (disk : Disk) {f : FileInfo} (hlookup : disk.lookup path = some f) (hmem : path ∈ paths ∨ f.mtime = t) :
    ∃ g, (paths.foldl (fun disk buf => disk.touch env buf t) disk).lookup path = some g ∧ g.mtime = t := by
  induction paths generalizing disk f with
  | nil => exact ⟨f, hlookup, hmem.resolve_left List.not_mem_nil⟩
  | cons buf paths ih =>
    rw [List.foldl_cons]
    by_cases hbuf : path = buf
    · rw [hbuf] at hlookup ⊢
      obtain ⟨-, g, hg, -, htime⟩ := @Disk.touch_lookup env disk buf t f hlookup
      have hnow : g.mtime = t := htime.resolve_right fun hfault => by simp [hsound] at hfault
      exact hbuf ▸ ih _ (hbuf ▸ hg) (.inr hnow)
    · refine ih _ (((Disk.touch_cases env disk buf t path).resolve_right fun h => hbuf h.1).trans hlookup) ?_
      exact hmem.imp_left fun h => (List.mem_cons.mp h).resolve_left hbuf

/-! ### The processes -/

/-- An outbound and the processes that use it. -/
structure Sharing where
  now : Int := 0
  disk : Disk := ∅
  proc : ℕ → BsyProcess := fun _ => {}
  /-- when a process has called `bsy_touch`, or since when it holds flags -/
  called : ℕ → Int := fun _ => 0

/-- A process has done something with its cells and the disk. -/
def Sharing.acts (w : Sharing) (i : ℕ) (r : Disk × BsyProcess) : Sharing :=
  { w with disk := r.1, proc := Function.update w.proc i r.2 }

/-- What can happen next; `period` is the longest time between two calls of `bsy_touch` of a process that
holds flags. -/
inductive SharingStep (config : BinkdConfig) (period : Int) : Sharing → Sharing → Prop
  | wait (w : Sharing) (t : Int) (hlater : w.now ≤ t)
      (hcalled : ∀ i, (w.proc i).flags config ≠ [] → t - w.called i ≤ period) :
      SharingStep config period w { w with now := t }
  | add (w : Sharing) (i : ℕ) (env : Env) (henv : env.now = w.now) (pid : ℕ) (fa : FtnAddr) (bt : BsyT)
      (hnul : 0 ∉ fa.domain) (r : Disk × BsyProcess)
      (hadd : (w.proc i).bsyAdd config env pid fa bt w.disk = some r) :
      SharingStep config period w
        { w.acts i r with
          called := if (w.proc i).flags config = [] then Function.update w.called i w.now else w.called }
  | remove (w : Sharing) (i : ℕ) (env : Env) (fa : FtnAddr) (bt : BsyT) (hnul : 0 ∉ fa.domain) :
      SharingStep config period w (w.acts i ((w.proc i).bsyRemove config env fa bt w.disk))
  | removeAll (w : Sharing) (i : ℕ) (env : Env) :
      SharingStep config period w (w.acts i ((w.proc i).bsyRemoveAll config env w.disk))
  | touch (w : Sharing) (i : ℕ) (env : Env) (henv : env.now = w.now)
      (hsound : ∀ buf, env.fault (.touch buf) = none) :
      SharingStep config period w
        { w.acts i ((w.proc i).bsyTouch config env w.disk) with called := Function.update w.called i w.now }
  /-- some process scans the queue and comes to a flag -/
  | scan (w : Sharing) (env : Env) (henv : env.now = w.now) (path : Str) :
      SharingStep config period w { w with disk := processBsy config env path w.disk }
  /-- a process dies with its flags, and another one may take its place -/
  | dies (w : Sharing) (i : ℕ) (lastTouch : Int) (hpast : lastTouch ≤ w.now) :
      SharingStep config period w (w.acts i (w.disk, { lastTouch := lastTouch }))
  /-- anything else happens to the disk -/
  | other (w : Sharing) (disk : Disk)
      (hflags : ∀ fa bt, ∀ path ∈ bsyFile config fa bt, disk.lookup path = w.disk.lookup path) :
      SharingStep config period w { w with disk := disk }

/-- A flag is there, and young. -/
def Sharing.Young (w : Sharing) (i : ℕ) (path : Str) : Prop :=
  ∃ f, w.disk.lookup path = some f ∧ (w.proc i).lastTouch ≤ f.mtime ∧ w.called i - bsyTouchDelay ≤ f.mtime

/-- What holds of the processes at any moment. -/
structure SharingInv (config : BinkdConfig) (period : Int) (w : Sharing) : Prop where
  nul : ∀ i, ∀ c ∈ (w.proc i).bsyList, 0 ∉ c.fa.domain
  past : ∀ i, (w.proc i).lastTouch ≤ w.now ∧ w.called i ≤ w.now
  timely : ∀ i, (w.proc i).flags config ≠ [] → w.now - w.called i ≤ period
  young : ∀ i, ∀ path ∈ (w.proc i).flags config, w.Young i path
  once : ∀ i, ((w.proc i).flags config).Nodup
  apart : ∀ i j, ∀ path ∈ (w.proc i).flags config, path ∈ (w.proc j).flags config → i = j

variable {period : Int} {w w' : Sharing} {i : ℕ}

/-- A step of one process: what is to be shown of it, and of the flags of the others. -/
theorem SharingInv.acts (h : SharingInv config period w) (r : Disk × BsyProcess) (called : ℕ → Int)
    (hcalled : ∀ j, j ≠ i → called j = w.called j) (hnul : ∀ c ∈ r.2.bsyList, 0 ∉ c.fa.domain)
    (hpast : r.2.lastTouch ≤ w.now ∧ called i ≤ w.now)
    (htimely : r.2.flags config ≠ [] → w.now - called i ≤ period)
    (hyoung : ∀ path ∈ r.2.flags config, ∃ f, r.1.lookup path = some f ∧ r.2.lastTouch ≤ f.mtime ∧
      called i - bsyTouchDelay ≤ f.mtime)
    (honce : (r.2.flags config).Nodup)
    (hapart : ∀ j, j ≠ i → ∀ path ∈ (w.proc j).flags config, path ∉ r.2.flags config)
    (hothers : ∀ j, j ≠ i → ∀ path ∈ (w.proc j).flags config, ∀ f, w.disk.lookup path = some f →
      ∃ g, r.1.lookup path = some g ∧ f.mtime ≤ g.mtime) :
    SharingInv config period { w.acts i r with called := called } := by
  have hself : (Function.update w.proc i r.2) i = r.2 := Function.update_self i r.2 w.proc
  have hother : ∀ j, j ≠ i → (Function.update w.proc i r.2) j = w.proc j :=
    fun j hj => Function.update_of_ne hj r.2 w.proc
  refine ⟨fun j => ?_, fun j => ?_, fun j => ?_, fun j path hpath => ?_, fun j => ?_,
    fun j k path hpath hpath' => ?_⟩
  · by_cases hj : j = i
    · rw [hj]
      dsimp only [Sharing.acts]
      rwa [hself]
    · dsimp only [Sharing.acts]
      rw [hother j hj]
      exact h.nul j
  · by_cases hj : j = i
    · rw [hj]
      dsimp only [Sharing.acts]
      rwa [hself]
    · dsimp only [Sharing.acts]
      rw [hother j hj, hcalled j hj]
      exact h.past j
  · by_cases hj : j = i
    · rw [hj]
      dsimp only [Sharing.acts]
      rwa [hself]
    · dsimp only [Sharing.acts]
      rw [hother j hj, hcalled j hj]
      exact h.timely j
  · by_cases hj : j = i
    · rw [hj] at hpath ⊢
      dsimp only [Sharing.acts, Sharing.Young] at hpath ⊢
      rw [hself] at hpath ⊢
      exact hyoung path hpath
    · dsimp only [Sharing.acts, Sharing.Young] at hpath ⊢
      rw [hother j hj] at hpath ⊢
      rw [hcalled j hj]
      obtain ⟨f, hf, htouched, htime⟩ := h.young j path hpath
      obtain ⟨g, hg, hle⟩ := hothers j hj path hpath f hf
      exact ⟨g, hg, htouched.trans hle, htime.trans hle⟩
  · by_cases hj : j = i
    · rw [hj]
      dsimp only [Sharing.acts]
      rwa [hself]
    · dsimp only [Sharing.acts]
      rw [hother j hj]
      exact h.once j
  · dsimp only [Sharing.acts] at hpath hpath'
    by_cases hj : j = i
    · by_cases hk : k = i
      · rw [hj, hk]
      · rw [hj, hself] at hpath
        rw [hother k hk] at hpath'
        exact absurd hpath (hapart k hk path hpath')
    · rw [hother j hj] at hpath
      by_cases hk : k = i
      · rw [hk, hself] at hpath'
        exact absurd hpath' (hapart j hj path hpath)
      · rw [hother k hk] at hpath'
        exact h.apart j k path hpath hpath'

/-- A new flag was not there, so nobody held it. -/
theorem SharingInv.add (h : SharingInv config period w) (hdomains : NamedDomains config) (hperiod : 0 ≤ period)
    (henv : env.now = w.now) {pid : ℕ} (hnul : 0 ∉ fa.domain) {r : Disk × BsyProcess}
    (hadd : (w.proc i).bsyAdd config env pid fa bt w.disk = some r) :
    SharingInv config period
      { w.acts i r with
        called := if (w.proc i).flags config = [] then Function.update w.called i w.now else w.called } := by
  unfold BsyProcess.bsyAdd at hadd
  cases hfile : bsyFile config fa bt with
  | none => rw [hfile] at hadd; contradiction
  | some path =>
    rw [hfile] at hadd
    obtain ⟨disk, hdisk, rfl⟩ := Option.map_eq_some_iff.mp hadd
    obtain ⟨hfree, ⟨f, hf, htime⟩, hothers⟩ := Disk.createSemFile_eq hdisk
    have hperm : ((bsyGetFreeCell ⟨fa, bt⟩ (w.proc i).bsyList).filterMap fun c => bsyFile config c.fa c.bt).Perm
        (path :: (w.proc i).flags config) := flags_bsyGetFreeCell hdomains hfile
    -- no process holds the new flag
    have hnew : ∀ j, path ∉ (w.proc j).flags config := by
      intro j hmem
      obtain ⟨g, hg, -⟩ := h.young j path hmem
      rw [hfree] at hg
      contradiction
    have hne : ∀ {j other}, other ∈ (w.proc j).flags config → other ≠ path :=
      fun hother heq => hnew _ (heq ▸ hother)
    have hcalled : ∀ j, (if (w.proc i).flags config = [] then Function.update w.called i w.now else w.called) j =
        if (w.proc i).flags config = [] ∧ j = i then w.now else w.called j := by
      intro j
      by_cases hnone : (w.proc i).flags config = []
      · simp only [hnone, if_true, true_and, Function.update_apply]
      · simp only [hnone, if_false, false_and]
    refine h.acts _ _ ?_ ?_ ?_ ?_ ?_ ?_ ?_ ?_
    · intro j hj
      rw [hcalled, if_neg fun hji => hj hji.2]
    · intro c hc
      rcases mem_bsyGetFreeCell hc with rfl | hc
      · exact hnul
      · exact h.nul i c hc
    · rw [hcalled]
      split_ifs
      · exact ⟨(h.past i).1, le_rfl⟩
      · exact h.past i
    · intro _
      rw [hcalled]
      split_ifs with hnone
      · omega
      · exact h.timely i fun hflags => hnone ⟨hflags, rfl⟩
    · intro other hother
      rw [hcalled]
      rcases List.mem_cons.mp (hperm.mem_iff.mp hother) with rfl | hheld
      · refine ⟨f, hf, ?_, ?_⟩
        · rw [htime, henv]
          exact (h.past i).1
        · have hpast := (h.past i).2
          rw [htime, henv]
          unfold bsyTouchDelay
          split_ifs
          · omega
          · omega
      · replace hheld : other ∈ (w.proc i).flags config := hheld
        obtain ⟨g, hg, htouched, hyoung⟩ := h.young i other hheld
        rw [if_neg fun hnone => List.ne_nil_of_mem hheld hnone.1]
        exact ⟨g, (hothers other (hne hheld)).trans hg, htouched, hyoung⟩
    · refine hperm.nodup_iff.mpr (List.nodup_cons.mpr ⟨hnew i, h.once i⟩)
    · intro j hj other hother hmem
      rcases List.mem_cons.mp (hperm.mem_iff.mp hmem) with rfl | hheld
      · exact hnew j hother
      · exact hj (h.apart j i other hother hheld)
    · intro j hj other hother g hg
      exact ⟨g, (hothers other (hne hother)).trans hg, le_rfl⟩

/-- Giving up flags leaves those of the others alone. -/
theorem SharingInv.gives (h : SharingInv config period w) (r : Disk × BsyProcess)
    (hnul : ∀ c ∈ r.2.bsyList, 0 ∉ c.fa.domain) (htouch : r.2.lastTouch ≤ w.now) (given : List Str)
    (hperm : ((w.proc i).flags config).Perm (given ++ r.2.flags config))
    (hlast : r.2.flags config ≠ [] → r.2.lastTouch = (w.proc i).lastTouch)
    (hdisk : ∀ path, path ∉ given → r.1.lookup path = w.disk.lookup path) :
    SharingInv config period (w.acts i r) := by
  have hheld : ∀ {path}, path ∈ r.2.flags config → path ∈ (w.proc i).flags config :=
    fun hpath => hperm.mem_iff.mpr (List.mem_append_right given hpath)
  have hnodup := hperm.nodup_iff.mp (h.once i)
  refine h.acts r w.called (fun _ _ => rfl) hnul ⟨htouch, (h.past i).2⟩ ?_ ?_ ?_ ?_ ?_
  · intro hne
    obtain ⟨path, hpath⟩ := List.exists_mem_of_ne_nil _ hne
    exact h.timely i (List.ne_nil_of_mem (hheld hpath))
  · intro path hpath
    obtain ⟨f, hf, htouched, htime⟩ := h.young i path (hheld hpath)
    have hkept : path ∉ given := fun hgiven => (List.nodup_append.mp hnodup).2.2 path hgiven path hpath rfl
    refine ⟨f, (hdisk path hkept).trans hf, ?_, htime⟩
    rwa [hlast (List.ne_nil_of_mem hpath)]
  · exact (List.nodup_append.mp hnodup).2.1
  · intro j hj path hpath hmem
    exact hj (h.apart j i path hpath (hheld hmem))
  · intro j hj path hpath f hf
    refine ⟨f, (hdisk path fun hgiven => ?_).trans hf, le_rfl⟩
    exact hj (h.apart j i path hpath (hperm.mem_iff.mpr (List.mem_append_left _ hgiven)))

theorem SharingInv.remove (h : SharingInv config period w) (hdomains : NamedDomains config)
    (hnul : 0 ∉ fa.domain) :
    SharingInv config period (w.acts i ((w.proc i).bsyRemove config env fa bt w.disk)) := by
  unfold BsyProcess.bsyRemove
  split
  · next buf cells hfile hcells =>
    refine h.gives _ (fun c hc => ?_) (h.past i).1 [buf] ?_ (fun _ => rfl) fun path hpath => ?_
    · rcases mem_freeCell hcells hc with hfree | hc
      · rw [hfree]
        exact List.not_mem_nil
      · exact h.nul i c hc
    · exact flags_freeCell hdomains hnul (h.nul i) hfile hcells
    · exact w.disk.delete_lookup_ne env fun heq => hpath (heq ▸ List.mem_cons_self)
  · exact h.gives _ (h.nul i) (h.past i).1 [] (.refl _) (fun _ => rfl) fun _ _ => rfl

theorem SharingInv.removeAll (h : SharingInv config period w) (hdomains : NamedDomains config) :
    SharingInv config period (w.acts i ((w.proc i).bsyRemoveAll config env w.disk)) := by
  -- a free cell has no name, so that each cell with a name is freed
  have hbuf : ∀ c : BsyAddr, (if c.fa = {} then none else bsyFile config c.fa c.bt) = bsyFile config c.fa c.bt := by
    intro c
    split_ifs with hfree
    · rw [hfree, bsyFile_free hdomains]
    · rfl
  unfold BsyProcess.bsyRemoveAll
  simp only [hbuf]
  refine h.gives _ (fun c hc => ?_) (h.past i).1 ((w.proc i).flags config) ?_ (fun _ => rfl) fun path hpath => ?_
  · obtain ⟨d, hd, rfl⟩ := List.mem_map.mp hc
    split_ifs
    · exact List.not_mem_nil
    · exact h.nul i d hd
  · have hnone : ((w.proc i).bsyList.map fun c =>
        if (bsyFile config c.fa c.bt).isSome then { c with fa := {} } else c).filterMap
          (fun c => bsyFile config c.fa c.bt) = [] := by
      rw [List.filterMap_eq_nil_iff]
      intro c hc
      obtain ⟨d, -, rfl⟩ := List.mem_map.mp hc
      split_ifs with hsome
      · exact bsyFile_free hdomains d.bt
      · simpa using hsome
    unfold BsyProcess.flags
    rw [hnone, List.append_nil]
  · exact w.disk.deleteAll_lookup env _ hpath

theorem SharingInv.dies (h : SharingInv config period w) {lastTouch : Int} (hpast : lastTouch ≤ w.now) :
    SharingInv config period (w.acts i (w.disk, { lastTouch := lastTouch })) := by
  refine h.gives _ (fun c hc => absurd hc List.not_mem_nil) hpast ((w.proc i).flags config) ?_ ?_ fun _ _ => rfl
  · rw [show ({ lastTouch := lastTouch } : BsyProcess).flags config = [] from rfl, List.append_nil]
  · exact fun hne => absurd rfl hne

/-- `bsy_touch` makes every flag of the process young, or they are young still. -/
theorem SharingInv.touch (h : SharingInv config period w) (hperiod : 0 ≤ period) (henv : env.now = w.now)
    (hsound : ∀ buf, env.fault (.touch buf) = none) :
    SharingInv config period
      { w.acts i ((w.proc i).bsyTouch config env w.disk) with called := Function.update w.called i w.now } := by
  have hcalled : ∀ j, j ≠ i → Function.update w.called i w.now j = w.called j :=
    fun j hj => Function.update_of_ne hj _ _
  have hself : Function.update w.called i w.now i = w.now := Function.update_self _ _ _
  unfold BsyProcess.bsyTouch
  split_ifs with hold
  · refine h.acts _ _ hcalled (h.nul i) ⟨?_, ?_⟩ ?_ ?_ (h.once i) ?_ ?_
    · exact henv.le
    · exact hself.le
    · intro _
      rw [hself]
      omega
    · intro path hpath
      obtain ⟨f, hf, -⟩ := h.young i path hpath
      obtain ⟨g, hg, hnow⟩ := Disk.touchAll_time hsound env.now ((w.proc i).flags config) w.disk hf (.inl hpath)
      refine ⟨g, hg, hnow.ge, ?_⟩
      rw [hself, hnow, henv]
      unfold bsyTouchDelay
      omega
    · exact fun j hj path hpath hmem => hj (h.apart j i path hpath hmem)
    · intro j hj path hpath f hf
      refine ⟨f, (Disk.touchAll_lookup env env.now _ w.disk fun hmem => ?_).trans hf, le_rfl⟩
      exact hj (h.apart j i path hpath hmem)
  · refine h.acts _ _ hcalled (h.nul i) ⟨(h.past i).1, hself.le⟩ ?_ ?_ (h.once i) ?_ ?_
    · intro _
      rw [hself]
      omega
    · intro path hpath
      obtain ⟨f, hf, htouched, -⟩ := h.young i path hpath
      refine ⟨f, hf, htouched, ?_⟩
      rw [hself]
      omega
    · exact fun j hj path hpath hmem => hj (h.apart j i path hpath hmem)
    · exact fun j hj path hpath f hf => ⟨f, hf, le_rfl⟩

/-- A scan of the queue deletes only flags that are older than any that is held. -/
theorem processBsy_young (h : SharingInv config period w) (henv : env.now = w.now)
    (hkill : config.killOldBsy = 0 ∨ period + bsyTouchDelay ≤ config.killOldBsy) {other : Str}
    (hheld : other ∈ (w.proc i).flags config) (path : Str) :
    (processBsy config env path w.disk).lookup other = w.disk.lookup other := by
  obtain ⟨f, hf, -, htime⟩ := h.young i other hheld
  have htimely := h.timely i (List.ne_nil_of_mem hheld)
  unfold processBsy
  split
  · next sb hsb =>
    split_ifs with hold
    · refine w.disk.delete_lookup_ne env fun heq => ?_
      unfold Disk.stat at hsb
      split_ifs at hsb
      rw [heq, hsb] at hf
      obtain rfl := Option.some.inj hf
      omega
    · rfl
  · rfl

/-- What is done to the disk, or to the clock, and to no flag that is held. -/
theorem SharingInv.outside (h : SharingInv config period w) {t : Int} {disk : Disk} (hlater : w.now ≤ t)
    (htimely : ∀ i, (w.proc i).flags config ≠ [] → t - w.called i ≤ period)
    (hdisk : ∀ i, ∀ path ∈ (w.proc i).flags config, disk.lookup path = w.disk.lookup path) :
    SharingInv config period { w with now := t, disk := disk } where
  nul := h.nul
  past := fun i => ⟨(h.past i).1.trans hlater, (h.past i).2.trans hlater⟩
  timely := htimely
  young := by
    intro i path hpath
    obtain ⟨f, hf, hyoung⟩ := h.young i path hpath
    exact ⟨f, (hdisk i path hpath).trans hf, hyoung⟩
  once := h.once
  apart := h.apart

/-- **One step** keeps the invariant. -/
theorem SharingInv.step (h : SharingInv config period w) (hdomains : NamedDomains config) (hperiod : 0 ≤ period)
    (hkill : config.killOldBsy = 0 ∨ period + bsyTouchDelay ≤ config.killOldBsy)
    (hstep : SharingStep config period w w') : SharingInv config period w' := by
  cases hstep with
  | wait t hlater hcalled => exact h.outside hlater hcalled fun _ _ _ => rfl
  | add i env henv pid fa bt hnul r hadd => exact h.add hdomains hperiod henv hnul hadd
  | remove i env fa bt hnul => exact h.remove hdomains hnul
  | removeAll i env => exact h.removeAll hdomains
  | touch i env henv hsound => exact h.touch hperiod henv hsound
  | scan env henv path => exact h.outside le_rfl h.timely fun i _ hheld => processBsy_young h henv hkill hheld path
  | dies i lastTouch hpast => exact h.dies hpast
  | other disk hflags =>
    refine h.outside le_rfl h.timely fun i path hpath => ?_
    obtain ⟨c, -, hc⟩ := List.mem_filterMap.mp hpath
    exact hflags c.fa c.bt path hc

/-- Nobody holds a flag yet. -/
def Sharing.Fresh (w : Sharing) : Prop :=
  ∀ i, (w.proc i).bsyList = [] ∧ (w.proc i).lastTouch ≤ w.now ∧ w.called i ≤ w.now

theorem SharingInv.fresh (h : w.Fresh) : SharingInv config period w := by
  have hflags : ∀ i, (w.proc i).flags config = [] := by
    intro i
    unfold BsyProcess.flags
    rw [(h i).1, List.filterMap_nil]
  refine ⟨fun i => ?_, fun i => (h i).2, fun i => ?_, fun i => ?_, fun i => ?_, fun i j => ?_⟩
  · rw [(h i).1]
    exact fun c hc => absurd hc List.not_mem_nil
  · exact fun hne => absurd (hflags i) hne
  · rw [hflags i]
    exact fun path hpath => absurd hpath List.not_mem_nil
  · rw [hflags i]
    exact List.nodup_nil
  · rw [hflags i]
    exact fun path hpath => absurd hpath List.not_mem_nil

/-- **The whole run** keeps it. -/
theorem SharingInv.run (h : SharingInv config period w) (hdomains : NamedDomains config) (hperiod : 0 ≤ period)
    (hkill : config.killOldBsy = 0 ∨ period + bsyTouchDelay ≤ config.killOldBsy)
    (run : Relation.ReflTransGen (SharingStep config period) w w') : SharingInv config period w' := by
  induction run with
  | refl => exact h
  | tail _ hstep ih => exact ih.step hdomains hperiod hkill hstep

/-- A config with a small outbound where flags get twelve minutes old. -/
def bsyConfig : BinkdConfig := { fidoConfig [] with killOldBsy := 720 }

theorem Disk.createSemFile_free (pid : ℕ) (hcreate : env.fault (.create path) = none)
    (h : disk.lookup path = none) : ∃ disk', disk.createSemFile env pid path = some disk' := by
  unfold createSemFile createEmptySemFile
  rw [h, hcreate]
  exact ⟨_, rfl⟩

theorem BsyProcess.bsyAdd_first {pid : ℕ} {disk' : Disk} (hfile : bsyFile config fa bt = some path)
    (h : disk.createSemFile env pid path = some disk') :
    ({} : BsyProcess).bsyAdd config env pid fa bt disk = some (disk', { bsyList := [⟨fa, bt⟩] }) := by
  unfold bsyAdd
  rw [hfile]
  dsimp only
  rw [h]
  rfl

/-- A flag that one process has created at the beginning; the process calls `bsy_touch` at the time. -/
def Sharing.held (disk : Disk) (fa : FtnAddr) (bt : BsyT) (now called : Int) : Sharing where
  now := now
  disk := disk
  proc := Function.update (fun _ => {}) 0 { bsyList := [⟨fa, bt⟩] }
  called := Function.update (fun _ => 0) 0 called

theorem Sharing.held_flags {now called : Int} {j : ℕ} (h : ((held disk fa bt now called).proc j).flags config ≠ []) :
    j = 0 := by
  by_contra hj
  refine h ?_
  unfold held
  dsimp only
  rw [Function.update_of_ne hj]
  rfl

/-- The first `bsyTouchDelay` seconds nothing is touched. -/
theorem Sharing.held_waits (hperiod : 1 ≤ period) (n : ℕ) (hn : (n : Int) ≤ bsyTouchDelay) :
    Relation.ReflTransGen (SharingStep config period) (held disk fa bt 0 0) (held disk fa bt n n) := by
  induction n with
  | zero => exact .refl
  | succ n ih =>
    have hwait : SharingStep config period (held disk fa bt n n) (held disk fa bt (n + 1 : ℕ) n) := by
      refine .wait _ _ (by simp [held]) fun j hj => ?_
      obtain rfl := held_flags hj
      simp only [held, Function.update_self]
      omega
    have hsame : ({ (held disk fa bt (n + 1 : ℕ) n).acts 0
        (((held disk fa bt (n + 1 : ℕ) n).proc 0).bsyTouch config { now := (n + 1 : ℕ) } disk) with
          called := Function.update (held disk fa bt (n + 1 : ℕ) n).called 0 (n + 1 : ℕ) } : Sharing) =
        held disk fa bt (n + 1 : ℕ) (n + 1 : ℕ) := by
      unfold BsyProcess.bsyTouch
      rw [if_neg (by simp only [held, Function.update_self]; omega)]
      simp [Sharing.acts, held]
    have htouch : SharingStep config period (held disk fa bt (n + 1 : ℕ) n)
        (held disk fa bt (n + 1 : ℕ) (n + 1 : ℕ)) := by
      rw [← hsame]
      exact .touch _ 0 { now := (n + 1 : ℕ) } rfl fun _ => rfl
    exact ((ih (by omega)).tail hwait).tail htouch

end Binkd
