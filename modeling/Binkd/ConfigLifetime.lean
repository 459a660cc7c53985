import Binkd.FtnNode
import Binkd.Lib.RefCount

/-!
# The lifetime of a configuration (`readcfg.c`)

`current_config` is locked by the threads that use it and replaced by the main thread when
the configuration is read again.  The counter of a structure is 1 for being current and one
for every lock; the thread that counts down to zero frees the structure, outside the
semaphore.  The steps are those that are atomic: the changes under `config_sem`, the free,
and what the main thread does by itself.  The counter is an `int` and has room for all the
threads there can be.
-/

namespace Binkd

open Lib

/-! ### The structure -/

/-- The fields of `BINKD_CONFIG` that `lock_config_structure` gives their defaults. -/
structure CfgFields where
  iport : Str := []
  oport : Str := []
  callDelay : Int := 0
  noCallDelay : Int := 0
  rescanDelay : Int := 0
  nettimeout : Int := 0
  oblksize : Nat := 0
  zminsize : Int := 0
  zlevel : Int := 0
  maxServers : Int := 0
  maxClients : Int := 0
  minfree : Int := 0
  minfreeNonsecure : Int := 0
  loglevel : Int := 0
  conlog : Int := 0
  inboundcase : InboundCase := .save
  renamestyle : RenameStyle := .renamePostfix
  holdSkipped : Int := 0
  tzoff : Int := 0
  inbound : Str := []
  rootDomain : Str := []
deriving DecidableEq

/-- `DEF_TIMEOUT`, `DEF_BLKSIZE`. -/
def defTimeout : Int := 5 * 60
def defBlksize : Nat := 4 * 1024

/-- The defaults; `port` is what `find_port` answers. -/
def CfgFields.defaults (port : Str) : CfgFields where
  iport := port
  oport := port
  callDelay := 60
  noCallDelay := 0
  rescanDelay := 60
  nettimeout := defTimeout
  oblksize := defBlksize
  zminsize := 1024
  zlevel := 0
  maxServers := 100
  maxClients := 100
  minfree := -1
  minfreeNonsecure := -1
  loglevel := 4
  conlog := 1
  inboundcase := .save
  renamestyle := .renamePostfix
  holdSkipped := 60 * 60
  tzoff := -1
  inbound := str "."
  rootDomain := str "binkp.net"

/-- A configuration structure. -/
structure CfgStruct where
  usageCount : Int := 0
  fields : CfgFields := {}
deriving DecidableEq

/-- `lock_config_structure`. -/
def lockConfigStructure (port : Str) (c : CfgStruct) : CfgStruct :=
  let c := { c with usageCount := c.usageCount + 1 }
  if c.usageCount = 1 then { c with fields := .defaults port } else c

/-- What `unlock_config_structure` does to the structure before it frees it. -/
def dropUsage (c : CfgStruct) : CfgStruct := { c with usageCount := c.usageCount - 1 }

/-! ### The threads -/

/-- Where the main thread is: in `readcfg`, with a configuration that it has read, or with the old
one that it has replaced and not yet unlocked. -/
inductive MainPc
  | idle
  | reading
  | loaded (new : ℕ)
  | swapped (old : Option ℕ)
deriving DecidableEq

/-- The structure that the main thread has a use of for itself. -/
def MainPc.holds : MainPc → Option ℕ
  | .loaded new => some new
  | .swapped old => old
  | _ => none

/-- `work_config`, the structures that were allocated, `current_config`, and the threads: an entry
of `held` for every lock that is not unlocked yet, one of `freeing` for every thread that has
counted down to zero and has not freed the structure, one of `freed` for every time a structure was
freed. -/
structure CfgState where
  work : CfgStruct := {}
  heap : List CfgStruct := []
  current : Option ℕ := none
  held : List ℕ := []
  freeing : List ℕ := []
  freed : List ℕ := []
  main : MainPc := .idle
deriving DecidableEq

/-- The steps of the threads.  A user locks the current configuration, or one that it has locked for
another thread, and unlocks what it has locked, in two steps; the main thread reads a configuration,
or starts up with one, replaces the current one and unlocks that. -/
inductive CfgAct
  | lock
  | lockAgain (c : ℕ)
  | unlock (c : ℕ)
  | free (c : ℕ)
  | read
  | parsed (fields : Option CfgFields)
  | perlFailed
  | swap
  | unlockOld
deriving DecidableEq

/-- The part of `unlock_config_structure` under the semaphore. -/
def CfgState.release (c : ℕ) (s : CfgState) : CfgState :=
  { s with
    heap := s.heap.modify c dropUsage
    freeing := if (s.heap[c]?.map fun cfg => (dropUsage cfg).usageCount) = some 0 then c :: s.freeing else s.freeing }

/-- `lock_config_structure` for a user, who has to unlock the structure. -/
def lockOf (port : Str) (c : ℕ) (s : CfgState) : CfgState :=
  { s with heap := s.heap.modify c (lockConfigStructure port), held := c :: s.held }

/-- `lock_current_config`. -/
def lockCurrentConfig (port : Str) (s : CfgState) : Option ℕ × CfgState :=
  match s.current with
  | none => (none, s)
  | some c => (some c, lockOf port c s)

/-- The end of `readcfg`: the structure is copied, or `work_config` unlocked. -/
def parsedConfig (fields : Option CfgFields) (s : CfgState) : CfgState :=
  match fields with
  | some fields =>
    let work := { s.work with fields := fields }
    { s with work := work, heap := s.heap ++ [work], main := .loaded s.heap.length }
  | none => { s with work := dropUsage s.work, main := .idle }

def cfgStep (port : Str) (s : CfgState) : CfgAct → Option CfgState
  | .lock => some (lockCurrentConfig port s).2
  | .lockAgain c => if c ∈ s.held then some (lockOf port c s) else none
  | .unlock c => if c ∈ s.held then some (CfgState.release c { s with held := s.held.erase c }) else none
  | .free c => if c ∈ s.freeing then some { s with freeing := s.freeing.erase c, freed := c :: s.freed } else none
  | .read => if s.main = .idle then some { s with work := lockConfigStructure port {}, main := .reading } else none
  | .parsed fields => if s.main = .reading then some (parsedConfig fields s) else none
  | .perlFailed => match s.main with
    | .loaded new => some (CfgState.release new { s with main := .idle })
    | _ => none
  | .swap => match s.main with
    | .loaded new => some { s with current := some new, main := .swapped s.current }
    | _ => none
  | .unlockOld => match s.main with
    | .swapped none => some { s with main := .idle }
    | .swapped (some old) => some (CfgState.release old { s with main := .idle })
    | _ => none

def runCfg (port : Str) (acts : List CfgAct) (s : CfgState) : Option CfgState :=
    acts.foldlM (cfgStep port) s

/-! ### The uses of a structure -/

/-- Being current is a use, and so is every lock. -/
def CfgState.uses (s : CfgState) (c : ℕ) : ℕ :=
  s.held.count c + s.current.toList.count c + s.main.holds.toList.count c

/-- The invariant: the counters are the numbers of uses, and the structure that is being read has
its one. -/
structure CfgInv (s : CfgState) : Prop where
  balanced : Balanced (s.heap.map (·.usageCount)) s.freeing s.freed s.uses
  work : s.main = .reading → s.work.usageCount = 1

variable {s s' : CfgState} {c : ℕ} {port : Str}

theorem map_usageCount_modify {f : CfgStruct → CfgStruct} {g : Int → Int} (hfg : ∀ x, (f x).usageCount = g x.usageCount)
    (c : ℕ) (heap : List CfgStruct) :
    (heap.modify c f).map (·.usageCount) = (heap.map (·.usageCount)).modify c g := by
  apply List.ext_getElem?
  intro i
  simp only [List.getElem?_map, List.getElem?_modify]
  cases heap[i]? with
  | none => rfl
  | some x =>
    by_cases hci : c = i
    · simp [hci, hfg]
    · simp [hci]

/-- A use of the structure is given back. -/
theorem CfgInv.release {t : CfgState} (h : Balanced (s.heap.map (·.usageCount)) s.freeing s.freed t.uses)
    (hc : 0 < t.uses c) (huses : s.uses = Function.update t.uses c (t.uses c - 1)) (hwork : s.main = .reading → s.work.usageCount = 1) :
    CfgInv (s.release c) where
  balanced := by
    have hlt := h.lt_length hc
    rw [List.length_map] at hlt
    have hcount : s.heap[c].usageCount = t.uses c :=
      h.count_eq c _ (by rw [List.getElem?_map, List.getElem?_eq_getElem hlt]; rfl)
    have hone : (s.heap[c]?.map fun cfg => (dropUsage cfg).usageCount) = some 0 ↔ t.uses c = 1 := by
      rw [List.getElem?_eq_getElem hlt, Option.map_some, Option.some.injEq]
      show s.heap[c].usageCount - 1 = 0 ↔ t.uses c = 1
      omega
    have hrel := h.release hc
    rw [← map_usageCount_modify (f := dropUsage) (fun _ => rfl)] at hrel
    have hkept : (s.release c).uses = Function.update t.uses c (t.uses c - 1) := huses
    rw [hkept]
    have hfree : (s.release c).freeing = if t.uses c = 1 then c :: s.freeing else s.freeing := by
      simp only [CfgState.release, hone]
    rw [hfree]
    exact hrel
  work := hwork

theorem cfgInv_init : CfgInv {} where
  balanced := by
    have huses : CfgState.uses {} = fun _ => 0 := by
      funext c
      simp [CfgState.uses, MainPc.holds]
    rw [huses]
    exact Balanced.empty
  work h := by cases h

/-- A structure that has a use is not given its defaults again. -/
theorem lockConfigStructure_used (port : Str) {cfg : CfgStruct} (h : 0 < cfg.usageCount) :
    lockConfigStructure port cfg = { cfg with usageCount := cfg.usageCount + 1 } := by
  unfold lockConfigStructure
  exact if_neg (show ¬ cfg.usageCount + 1 = 1 by omega)

theorem CfgInv.usageCount (h : CfgInv s) {cfg : CfgStruct} (hc : s.heap[c]? = some cfg) :
    cfg.usageCount = s.uses c :=
  h.balanced.count_eq c _ (by rw [List.getElem?_map, hc]; rfl)

theorem uses_current (h : s.current = some c) : 0 < s.uses c := by
  rw [CfgState.uses, h, Option.toList_some, List.count_singleton_self]
  omega

theorem uses_held (h : c ∈ s.held) : 0 < s.uses c := by
  have := List.count_pos_iff.mpr h
  rw [CfgState.uses]
  omega

theorem uses_main (h : s.main.holds = some c) : 0 < s.uses c := by
  rw [CfgState.uses, h, Option.toList_some, List.count_singleton_self]
  omega

/-- What `lock_current_config` does to the structures. -/
theorem heap_lock (port : Str) (h : CfgInv s) (hpos : 0 < s.uses c) :
    s.heap.modify c (lockConfigStructure port) =
      s.heap.modify c fun cfg => { cfg with usageCount := cfg.usageCount + 1 } := by
  apply List.ext_getElem?
  intro i
  simp only [List.getElem?_modify]
  cases hi : s.heap[i]? with
  | none => rfl
  | some cfg =>
    by_cases hci : c = i
    · subst hci
      have hcount := h.usageCount hi
      have hused := lockConfigStructure_used port (show 0 < cfg.usageCount by omega)
      simp [hused]
    · simp [hci]

/-- A lock of a structure that has a use. -/
theorem CfgInv.lockOf (h : CfgInv s) (port : Str) (hpos : 0 < s.uses c) : CfgInv (lockOf port c s) := by
  unfold Binkd.lockOf
  rw [heap_lock port h hpos]
  refine ⟨?_, h.work⟩
  have hret := h.balanced.retain hpos
  rw [← map_usageCount_modify (f := fun cfg => { cfg with usageCount := cfg.usageCount + 1 }) (fun _ => rfl)] at hret
  have huses : CfgState.uses { s with
      heap := s.heap.modify c fun cfg => { cfg with usageCount := cfg.usageCount + 1 },
        held := c :: s.held } =
      Function.update s.uses c (s.uses c + 1) := by
    funext d
    by_cases hd : d = c
    · subst hd
      rw [Function.update_self]
      simp only [CfgState.uses, List.count_cons_self]
      omega
    · rw [Function.update_of_ne hd]
      simp only [CfgState.uses, List.count_cons_of_ne (Ne.symm hd)]
  rw [huses]
  exact hret

theorem CfgInv.lock (h : CfgInv s) (port : Str) : CfgInv (lockCurrentConfig port s).2 := by
  unfold lockCurrentConfig
  cases hcur : s.current with
  | none => exact h
  | some c => exact h.lockOf port (uses_current hcur)

theorem uses_unlock (h : c ∈ s.held) :
    CfgState.uses { s with held := s.held.erase c } = Function.update s.uses c (s.uses c - 1) := by
  funext d
  have hpos := List.count_pos_iff.mpr h
  by_cases hd : d = c
  · subst hd
    rw [Function.update_self]
    simp only [CfgState.uses, List.count_erase_self]
    omega
  · rw [Function.update_of_ne hd]
    simp only [CfgState.uses, List.count_erase_of_ne hd]

/-- The main thread gives back what it holds. -/
theorem uses_main_release (h : s.main.holds = some c) :
    CfgState.uses { s with main := .idle } = Function.update s.uses c (s.uses c - 1) := by
  funext d
  by_cases hd : d = c
  · subst hd
    rw [Function.update_self, CfgState.uses, CfgState.uses, h, Option.toList_some,
      List.count_singleton_self]
    show s.held.count d + s.current.toList.count d + 0 = _
    omega
  · rw [Function.update_of_ne hd, CfgState.uses, CfgState.uses, h, Option.toList_some,
      List.count_eq_zero.mpr (fun hmem => hd (List.mem_singleton.mp hmem))]
    rfl

theorem uses_swap {new : ℕ} (h : s.main = .loaded new) :
    CfgState.uses { s with current := some new, main := .swapped s.current } = s.uses := by
  funext d
  simp only [CfgState.uses, h, MainPc.holds]
  omega

/-- The main thread holds nothing where it is idle or reads. -/
theorem CfgInv.of_idle (h : CfgInv s) (hheap : s'.heap = s.heap) (hfreeing : s'.freeing = s.freeing)
    (hfreed : s'.freed = s.freed) (hheld : s'.held = s.held) (hcur : s'.current = s.current)
    (hs : s.main.holds = none) (hs' : s'.main.holds = none) (hwork : s'.main = .reading → s'.work.usageCount = 1) :
    CfgInv s' where
  balanced := by
    have huses : s'.uses = s.uses := by
      funext d
      rw [CfgState.uses, CfgState.uses, hheld, hcur, hs, hs']
    rw [hheap, hfreeing, hfreed, huses]
    exact h.balanced
  work := hwork

/-- The new structure of `readcfg`. -/
theorem CfgInv.parsed (h : CfgInv s) (hmain : s.main = .reading) (fields : CfgFields) :
    CfgInv (parsedConfig (some fields) s) where
  balanced := by
    have halloc := h.balanced.alloc
    have hone := h.work hmain
    have huses : (parsedConfig (some fields) s).uses =
        Function.update s.uses (s.heap.map (·.usageCount)).length 1 := by
      have hheld : (parsedConfig (some fields) s).main.holds = some s.heap.length := rfl
      funext d
      rw [List.length_map]
      by_cases hd : d = s.heap.length
      · subst hd
        have hnone := h.balanced.unborn s.heap.length (by rw [List.length_map])
        rw [CfgState.uses, hmain] at hnone
        rw [Function.update_self, CfgState.uses, hheld, Option.toList_some, List.count_singleton_self]
        show s.held.count _ + s.current.toList.count _ + 1 = 1
        omega
      · rw [Function.update_of_ne hd, CfgState.uses, CfgState.uses, hheld, hmain, Option.toList_some,
          List.count_eq_zero.mpr (fun hmem => hd (List.mem_singleton.mp hmem))]
        rfl
    rw [huses]
    simp only [parsedConfig, List.map_append, List.map_cons, List.map_nil, hone]
    exact halloc
  work hmain := by cases hmain

/-- One step keeps the invariant. -/
theorem cfgStep_inv (h : CfgInv s) {act : CfgAct} (hstep : cfgStep port s act = some s') :
    CfgInv s' := by
  cases act with
  | lock =>
    cases hstep
    exact h.lock port
  | lockAgain c =>
    rw [cfgStep] at hstep
    split_ifs at hstep with hc
    cases hstep
    exact h.lockOf port (uses_held hc)
  | unlock c =>
    rw [cfgStep] at hstep
    split_ifs at hstep with hc
    cases hstep
    exact CfgInv.release (t := s) h.balanced (uses_held hc) (uses_unlock hc) h.work
  | free c =>
    rw [cfgStep] at hstep
    split_ifs at hstep with hc
    cases hstep
    exact ⟨h.balanced.free hc, h.work⟩
  | read =>
    rw [cfgStep] at hstep
    split_ifs at hstep with hmain
    cases hstep
    exact h.of_idle rfl rfl rfl rfl rfl (by rw [hmain]; rfl) rfl fun _ => rfl
  | parsed fields =>
    rw [cfgStep] at hstep
    split_ifs at hstep with hmain
    cases hstep
    cases fields with
    | some fields => exact h.parsed hmain fields
    | none => exact h.of_idle rfl rfl rfl rfl rfl (by rw [hmain]; rfl) rfl fun h => by cases h
  | perlFailed =>
    rw [cfgStep] at hstep
    split at hstep
    · next new hmain =>
      cases hstep
      have hholds : s.main.holds = some new := by rw [hmain]; rfl
      exact CfgInv.release (t := s) h.balanced (uses_main hholds) (uses_main_release hholds) (fun h => by cases h)
    · cases hstep
  | swap =>
    rw [cfgStep] at hstep
    split at hstep
    · next new hmain =>
      cases hstep
      refine ⟨?_, fun h => by cases h⟩
      rw [uses_swap hmain]
      exact h.balanced
    · cases hstep
  | unlockOld =>
    rw [cfgStep] at hstep
    split at hstep
    · next hmain =>
      cases hstep
      exact h.of_idle rfl rfl rfl rfl rfl (by rw [hmain]; rfl) rfl fun h => by cases h
    · next old hmain =>
      cases hstep
      have hholds : s.main.holds = some old := by rw [hmain]; rfl
      exact CfgInv.release (t := s) h.balanced (uses_main hholds) (uses_main_release hholds) (fun h => by cases h)
    · cases hstep

theorem runCfg_inv (acts : List CfgAct) (h : CfgInv s) (hrun : runCfg port acts s = some s') :
    CfgInv s' := by
  induction acts generalizing s with
  | nil =>
    cases hrun
    exact h
  | cons act acts ih =>
    obtain ⟨s₁, hstep, hrest⟩ := Option.bind_eq_some_iff.mp hrun
    exact ih (cfgStep_inv h hstep) hrest

/-! ### The settings -/

/-- The structures of one heap go on in another with their settings. -/
def KeepsFields (heap heap' : List CfgStruct) : Prop :=
  ∀ (c : ℕ) (cfg : CfgStruct), heap[c]? = some cfg → ∃ cfg', heap'[c]? = some cfg' ∧
    cfg'.fields = cfg.fields

theorem keepsFields_refl (heap : List CfgStruct) : KeepsFields heap heap := fun _ cfg h => ⟨cfg, h, rfl⟩

theorem keepsFields_modify {f : CfgStruct → CfgStruct} (hf : ∀ cfg, (f cfg).fields = cfg.fields) (c : ℕ)
    (heap : List CfgStruct) : KeepsFields heap (heap.modify c f) := by
  intro d cfg hd
  by_cases hcd : c = d
  · exact ⟨f cfg, by simp [hd, hcd], hf cfg⟩
  · exact ⟨cfg, by simp [hd, hcd], rfl⟩

theorem keepsFields_release (c : ℕ) (s : CfgState) : KeepsFields s.heap (s.release c).heap :=
  keepsFields_modify (f := dropUsage) (fun _ => rfl) c s.heap

theorem keepsFields_lockOf (h : CfgInv s) (port : Str) (hpos : 0 < s.uses c) :
    KeepsFields s.heap (lockOf port c s).heap := by
  unfold lockOf
  rw [heap_lock port h hpos]
  exact keepsFields_modify (f := fun cfg => { cfg with usageCount := cfg.usageCount + 1 }) (fun _ => rfl) c s.heap

/-- No step changes the settings of a structure that is there. -/
theorem cfgStep_fields (h : CfgInv s) {act : CfgAct} (hstep : cfgStep port s act = some s') :
    KeepsFields s.heap s'.heap := by
  cases act with
  | lock =>
    cases hstep
    unfold lockCurrentConfig
    cases hcur : s.current with
    | none => exact keepsFields_refl s.heap
    | some c => exact keepsFields_lockOf h port (uses_current hcur)
  | lockAgain c =>
    rw [cfgStep] at hstep
    split_ifs at hstep with hc
    cases hstep
    exact keepsFields_lockOf h port (uses_held hc)
  | unlock c =>
    rw [cfgStep] at hstep
    split_ifs at hstep
    cases hstep
    exact keepsFields_release c { s with held := s.held.erase c }
  | free c =>
    rw [cfgStep] at hstep
    split_ifs at hstep
    cases hstep
    exact keepsFields_refl s.heap
  | read =>
    rw [cfgStep] at hstep
    split_ifs at hstep
    cases hstep
    exact keepsFields_refl s.heap
  | parsed fields =>
    rw [cfgStep] at hstep
    split_ifs at hstep
    cases hstep
    cases fields with
    | some fields =>
      intro c cfg hc
      refine ⟨cfg, ?_, rfl⟩
      show (s.heap ++ [_])[c]? = some cfg
      rw [List.getElem?_append_left (List.getElem?_eq_some_iff.mp hc).1]
      exact hc
    | none => exact keepsFields_refl s.heap
  | perlFailed =>
    rw [cfgStep] at hstep
    split at hstep
    · next new _ =>
      cases hstep
      exact keepsFields_release new { s with main := .idle }
    · cases hstep
  | swap =>
    rw [cfgStep] at hstep
    split at hstep
    · cases hstep
      exact keepsFields_refl s.heap
    · cases hstep
  | unlockOld =>
    rw [cfgStep] at hstep
    split at hstep
    · cases hstep
      exact keepsFields_refl s.heap
    · next old _ =>
      cases hstep
      exact keepsFields_release old { s with main := .idle }
    · cases hstep

/-! ### The lifetime -/

theorem uses_eq_zero : s.uses c = 0 ↔ s.current ≠ some c ∧ c ∉ s.held ∧ s.main.holds ≠ some c := by
  have hcur : s.current.toList.count c = 0 ↔ s.current ≠ some c := by
    rw [List.count_eq_zero, Option.mem_toList]
  have hmain : s.main.holds.toList.count c = 0 ↔ s.main.holds ≠ some c := by
    rw [List.count_eq_zero, Option.mem_toList]
  rw [← hcur, ← hmain, ← List.count_eq_zero, CfgState.uses]
  omega

/-- Whatever the threads do in whatever order, no structure is freed twice, and those that are freed
or about to be are the ones that are not current, not locked and not in the main thread's hands;
`lock_current_config` returns none of them, and no step sets a structure's defaults again. -/
theorem config_lifetime {port : Str} {acts : List CfgAct} {s : CfgState} (hrun : runCfg port acts {} = some s) :
    (∀ c, s.freed.count c ≤ 1) ∧
      (∀ c, c ∈ s.freed ∨ c ∈ s.freeing ↔
        c < s.heap.length ∧ s.current ≠ some c ∧ c ∉ s.held ∧ s.main.holds ≠ some c) ∧
      (∀ c s', lockCurrentConfig port s = (some c, s') → c < s.heap.length ∧ c ∉ s.freed ∧ c ∉ s.freeing) ∧
      ∀ act s', cfgStep port s act = some s' → KeepsFields s.heap s'.heap := by
  have h := runCfg_inv acts cfgInv_init hrun
  have hlen : (s.heap.map (·.usageCount)).length = s.heap.length := List.length_map _
  refine ⟨h.balanced.freed_once, fun c => ?_, fun c s' hlock => ?_, fun act s' => cfgStep_fields h⟩
  · by_cases hc : c < s.heap.length
    · rw [h.balanced.gone_iff (by rw [hlen]; exact hc), uses_eq_zero]
      exact ⟨fun hno => ⟨hc, hno⟩, And.right⟩
    · have hgone := h.balanced.gone c
      rw [hlen, if_neg (fun hh => hc hh.1)] at hgone
      have h1 : c ∉ s.freed := List.count_eq_zero.mp (by omega)
      have h2 : c ∉ s.freeing := List.count_eq_zero.mp (by omega)
      exact ⟨fun hor => absurd hor (not_or.mpr ⟨h1, h2⟩), fun hand => absurd hand.1 hc⟩
  · have hcur : s.current = some c := by
      unfold lockCurrentConfig at hlock
      cases hcur : s.current with
      | none =>
        rw [hcur] at hlock
        cases hlock
      | some d =>
        rw [hcur] at hlock
        cases hlock
        rfl
    have huse := uses_current hcur
    have hlt := h.balanced.lt_length huse
    rw [hlen] at hlt
    exact ⟨hlt, h.balanced.used huse⟩

/-- A reload while a session holds the old configuration: the session's unlock frees it. -/
def reloadRun : List CfgAct :=
  [.read, .parsed (some {}), .swap, .unlockOld, .lock, .read, .parsed (some {}), .swap, .lock, .unlockOld, .unlock 0,
    .free 0]

theorem reload_frees_once :
    ∃ s, runCfg (str "binkp") reloadRun {} = some s ∧ 0 ∈ s.freed ∧ s.freed.count 0 ≤ 1 := by
  have hrun : (runCfg (str "binkp") reloadRun {}).isSome = true := by decide
  obtain ⟨s, hs⟩ := Option.isSome_iff_exists.mp hrun
  have hfreed : (runCfg (str "binkp") reloadRun {}).map (·.freed) = some [0] := by decide
  rw [hs] at hfreed
  have hzero : s.freed = [0] := Option.some.inj hfreed
  refine ⟨s, hs, ?_, (config_lifetime hs).1 0⟩
  rw [hzero]
  exact List.mem_singleton_self 0

end Binkd
