import Binkd.Duplicates

/-!
# What is left of a file that could not be stored

Where `inb_done` fails, the complete file stays in its pair of temporary files, and
the other files of the inbound stay as they are.  There are two exceptions:
`find_tmp_name` removes the pairs that are old, or that are of another version of the
file, on its way to the pair of the file (`Discardable`), and a file that overwrites
unlinks its real name before it is renamed.
-/

namespace Binkd

open Lib

variable {config : BinkdConfig} {env : Env} {file : TFile} {s s' : State} {p path : Str}

/-! ### The pairs that are removed -/

/-- The path of a `.hr` file. -/
def hrPath (config : BinkdConfig) (s : State) (name : Str) : Str :=
  (withSeparator (tmpDir config s) ++ name).take (maxPathLen - 1)

/-- The `.hr` file is of this file, from an address of the remote. -/
def HrOf (config : BinkdConfig) (env : Env) (file : TFile) (path : Str) (s : State) : Prop :=
  ∃ hr i, readHr env s.disk path = some (some (some hr)) ∧ senderIndex config hr.sender s = some i ∧
    hr.netname = file.netname ∧ file.size = toSigned64 (strtoumax hr.size) ∧
    evenTime file.time = evenTime (safeAtol hr.time) ∧ i < s.login.fa.length

/-- The `.dt` and the `.hr` file of a pair. -/
def InPair (path p : Str) : Prop := p = setExt path (str ".dt") ∨ p = setExt path (str ".hr")

/-- The names of the `.hr` files among the temporary files. -/
def hrNames (config : BinkdConfig) (env : Env) (s : State) : List Str :=
  ((s.disk.readdir env (tmpDir config s)).getD []).filter isHrName

/-- A file of a pair that `find_tmp_name` may remove when it looks for the pair of another file. -/
structure Discardable (config : BinkdConfig) (env : Env) (file : TFile) (s : State) (p : Str) : Prop where
  option : config.killOldPartialFiles ≠ 0 ∨ config.killDupPartialFiles = true
  pair : ∃ name ∈ hrNames config env s, InPair (hrPath config s name) p ∧
    ¬ HrOf config env file (hrPath config s name) s

theorem removeHr_lookup (env : Env) (path p : Str) (s : State) :
    (removeHr env path s).disk.lookup p = s.disk.lookup p ∨
    InPair path p ∧ (removeHr env path s).disk.lookup p = none := by
  unfold removeHr
  rcases (Disk.delete_lookup env (s.disk.delete env (setExt path (str ".dt"))).1 (setExt path (str ".hr")) p).1 with
    heq | ⟨hp, hnone⟩
  · rcases (Disk.delete_lookup env s.disk (setExt path (str ".dt")) p).1 with heq' | ⟨hp, hnone⟩
    · exact .inl (heq.trans heq')
    · exact .inr ⟨.inl hp, heq.trans hnone⟩
  · exact .inr ⟨.inr hp, hnone⟩

theorem toBeDeleted_option {size : Int} (h : toBeDeleted config env path size s = true) :
    config.killOldPartialFiles ≠ 0 := by
  intro hzero
  rw [toBeDeleted, if_pos hzero] at h
  contradiction

theorem readHr_isSome {disk : Disk} {r : Option (Option HrInfo)} (h : readHr env disk path = some r) :
    (disk.lookup path).isSome := by
  unfold readHr Disk.fopenR at h
  split at h
  · contradiction
  · cases hlook : disk.lookup path with
    | none => simp [hlook] at h
    | some f => rfl

theorem readHr_congr {disk disk' : Disk} (h : disk.lookup path = disk'.lookup path) :
    readHr env disk path = readHr env disk' path := by
  unfold readHr Disk.fopenR
  rw [h]

/-- A `.hr` file that is removed is there, and is not the one of the file. -/
theorem findTmp1_removes (config : BinkdConfig) (env : Env) (file : TFile) (path : Str) (s : State) :
    (findTmp1 config env (some file) path s).2 = s ∨
    (findTmp1 config env (some file) path s).2 = removeHr env path s ∧ ¬ HrOf config env file path s ∧
      (config.killOldPartialFiles ≠ 0 ∨ config.killDupPartialFiles = true) ∧
      (s.disk.lookup path).isSome := by
  have old : ∀ (size : Int) r, readHr env s.disk path = some r → ¬ HrOf config env file path s →
      (if toBeDeleted config env path size s then removeHr env path s else s) = s ∨
      (if toBeDeleted config env path size s then removeHr env path s else s) = removeHr env path s ∧
        ¬ HrOf config env file path s ∧ (config.killOldPartialFiles ≠ 0 ∨
          config.killDupPartialFiles = true) ∧
        (s.disk.lookup path).isSome := by
    intro size r hread hno
    split_ifs with hold
    · exact .inr ⟨rfl, hno, .inl (toBeDeleted_option hold), readHr_isSome hread⟩
    · exact .inl rfl
  unfold findTmp1
  dsimp only
  split
  · exact .inl rfl
  · next hread =>
    refine old _ _ hread ?_
    rintro ⟨hr, i, hread', -⟩
    simp [hread] at hread'
  · next hread =>
    refine old _ _ hread ?_
    rintro ⟨hr, i, hread', -⟩
    simp [hread] at hread'
  · next hr hread =>
    have hof : HrOf config env file path s → ∃ i, senderIndex config hr.sender s = some i ∧
        hr.netname = file.netname ∧ file.size = toSigned64 (strtoumax hr.size) ∧
        evenTime file.time = evenTime (safeAtol hr.time) ∧ i < s.login.fa.length := by
      rintro ⟨hr', i, hread', hrest⟩
      rw [hread] at hread'
      obtain rfl : hr = hr' := by simpa using hread'
      exact ⟨i, hrest⟩
    split
    · next i hi =>
      by_cases hname : hr.netname = file.netname
      · rw [if_pos hname]
        split_ifs with hsame hnfa hdup
        · exact .inl rfl
        · exact .inl rfl
        · refine .inr ⟨rfl, fun h => ?_, .inr hdup.1, readHr_isSome hread⟩
          obtain ⟨j, hj, -, hrest⟩ := hof h
          rw [hi] at hj
          obtain rfl := Option.some.inj hj
          exact hsame hrest
        · exact .inl rfl
      · rw [if_neg hname]
        refine old _ _ hread fun h => ?_
        obtain ⟨-, -, hname', -⟩ := hof h
        exact hname hname'
    · next hi =>
      refine old _ _ hread fun h => ?_
      obtain ⟨j, hj, -⟩ := hof h
      rw [hi] at hj
      contradiction

/-- What the search has left of the disk: every file, but for the discardable ones. -/
structure Searched (config : BinkdConfig) (env : Env) (file : TFile) (s s' : State) : Prop where
  frame : DiskFrame s s'
  kept : ∀ p, s'.disk.lookup p = s.disk.lookup p ∨ s'.disk.lookup p = none ∧
    Discardable config env file s p

theorem Searched.step {name : Str} (h : Searched config env file s s') (hname : name ∈ hrNames config env s) :
    Searched config env file s (findTmp1 config env (some file) (hrPath config s name) s').2 := by
  rcases findTmp1_removes config env file (hrPath config s name) s' with heq | ⟨heq, hno, hoption, hsome⟩
  · rw [heq]
    exact h
  · rw [heq]
    refine ⟨h.frame.trans (removeHr_frame env _ _), fun p => ?_⟩
    rcases removeHr_lookup env (hrPath config s name) p s' with hsame | ⟨hpair, hnone⟩
    · rw [hsame]
      exact h.kept p
    · refine .inr ⟨hnone, hoption, name, hname, hpair, fun hof => hno ?_⟩
      -- the header is what it was before the search
      have hlook : s'.disk.lookup (hrPath config s name) = s.disk.lookup (hrPath config s name) := by
        rcases h.kept (hrPath config s name) with heq | ⟨hnone, -⟩
        · exact heq
        · rw [hnone] at hsome
          contradiction
      obtain ⟨hr, i, hread, hi, hrest⟩ := hof
      refine ⟨hr, i, (readHr_congr hlook).trans hread, ?_, ?_⟩
      · unfold senderIndex at hi ⊢
        rw [h.frame.login]
        exact hi
      · rw [h.frame.login]
        exact hrest

theorem Searched.loop {names : List Str} (h : Searched config env file s s')
    (hnames : ∀ name ∈ names, isHrName name = true → name ∈ hrNames config env s) :
    Searched config env file s (findTmpLoop config env (some file) (tmpDir config s) names s').2 := by
  induction names generalizing s' with
  | nil => exact h
  | cons name names ih =>
    have hrest : ∀ other ∈ names, isHrName other = true → other ∈ hrNames config env s :=
      fun other hmem => hnames other (List.mem_cons_of_mem _ hmem)
    rw [findTmpLoop]
    split_ifs with hhr
    · have hstep := h.step (hnames name List.mem_cons_self hhr)
      unfold hrPath at hstep
      split
      · next r s1 heq =>
        rw [heq] at hstep
        exact hstep
      · next s1 heq =>
        rw [heq] at hstep
        exact ih hstep hrest
    · exact ih h hrest

/-- What is there before the search for the pair is there afterwards, if it is not discardable. -/
theorem findTmpName_kept (hp : (s.disk.lookup p).isSome) (hdiscard : ¬ Discardable config env file s p) :
    (findTmpName config env (some file) s).2.disk.lookup p = s.disk.lookup p := by
  unfold findTmpName
  dsimp only
  split
  · rfl
  · next names hdir =>
    have hsearch : Searched config env file s
        (findTmpLoop config env (some file) (tmpDir config s) names s).2 := by
      refine Searched.loop ⟨.refl s, fun p => .inl rfl⟩ fun name hmem hhr => ?_
      exact List.mem_filter.mpr ⟨by rw [hdir]; exact hmem, hhr⟩
    have hkept := (hsearch.kept p).resolve_right fun h => hdiscard h.2
    split
    · next r s1 heq =>
      rw [heq] at hkept
      exact hkept
    · next s1 heq =>
      rw [heq] at hkept
      dsimp only at hkept ⊢
      split
      · next path s2 hcreat => exact (creatTmpName_lookup hcreat (by rw [hkept]; exact hp)).trans hkept
      · exact hkept

/-! ### The pair of the file -/

theorem setExt_hr (u ext : Str) : setExt (u ++ str ".hr") ext = u ++ ext := by
  have hrev : (u ++ str ".hr").reverse.takeWhile (· != 46) = [114, 104] := by
    rw [List.reverse_append]
    have hstr : (str ".hr").reverse = [114, 104, 46] := by decide
    rw [hstr]
    rfl
  have hlen : (str ".hr").length = 3 := by decide
  have htake : (u ++ str ".hr").length - ((u ++ str ".hr").reverse.takeWhile (· != 46)).length - 1 = u.length := by
    rw [hrev, List.length_append, hlen]
    rfl
  rw [setExt, htake, List.take_left]

/-- The temporary files are named in small letters, and their paths are not cut. -/
structure PlainNames (config : BinkdConfig) (env : Env) (s : State) : Prop where
  small : ∀ name ∈ hrNames config env s, name.drop 8 = str ".hr"
  short : (withSeparator (tmpDir config s)).length + 11 < maxPathLen

theorem PlainNames.hrPath_eq {name : Str} (h : PlainNames config env s) (hname : name ∈ hrNames config env s) :
    hrPath config s name = (withSeparator (tmpDir config s) ++ name.take 8) ++ str ".hr" ∧
    name.length = 11 := by
  have hsmall := h.small name hname
  have hlen : name.length = 11 := by
    have hdrop := congrArg List.length hsmall
    rw [List.length_drop] at hdrop
    have h3 : (str ".hr").length = 3 := by decide
    omega
  refine ⟨?_, hlen⟩
  have hshort := h.short
  rw [hrPath, List.take_of_length_le (by rw [List.length_append, hlen]; omega),
    List.append_assoc, ← hsmall,
    List.take_append_drop]

/-- The pair of the file is not discarded. -/
theorem PlainNames.pair {name : Str} (h : PlainNames config env s) (hname : name ∈ hrNames config env s)
    (hof : HrOf config env file (hrPath config s name) s) (hpair : InPair (hrPath config s name) p) :
    ¬ Discardable config env file s p := by
  rintro ⟨-, other, hother, hpair', hno⟩
  obtain ⟨hpath, hlen⟩ := h.hrPath_eq hname
  obtain ⟨hpath', hlen'⟩ := h.hrPath_eq hother
  have hext : ∀ {q q' : Str} (stem : Str), q = stem ++ str ".hr" → InPair q q' →
      ∃ ext, q' = stem ++ ext ∧ ext.length = 3 := by
    rintro q q' stem rfl (rfl | rfl)
    · exact ⟨_, setExt_hr stem _, by decide⟩
    · exact ⟨_, setExt_hr stem _, by decide⟩
  obtain ⟨ext, hp, h3⟩ := hext _ hpath hpair
  obtain ⟨ext', hp', h3'⟩ := hext _ hpath' hpair'
  rw [hp] at hp'
  have hstem := (List.append_inj' hp' (h3.trans h3'.symm)).1
  refine hno ?_
  rw [hpath', ← hstem, ← hpath]
  exact hof

/-! ### The renaming -/

/-- A file that is where it was, with its content; the time of the data may have been set. -/
def KeptAt (file : TFile) (tmp : FindTmp) (p : Str) (f : FileInfo) (disk : Disk) : Prop :=
  ∃ g, disk.lookup p = some g ∧ g.bytes = f.bytes ∧ g.isDir = f.isDir ∧
    (g.mtime = f.mtime ∨ tmp = .found p ∧ g.mtime = file.time)

theorem overwriteLoop_failed {disk disk1 : Disk} {tmpName real : Str} {n : ℕ}
    (h : overwriteLoop env tmpName real n disk = (disk1, false)) (hp : p ≠ real) :
    disk1.lookup p = disk.lookup p := by
  induction n generalizing disk with
  | zero =>
    rw [overwriteLoop] at h
    rw [(Prod.mk.inj h).1]
  | succ n ih =>
    rw [overwriteLoop] at h
    split at h
    · exact absurd (Prod.mk.inj h).2 (by decide)
    · next disk2 e hren =>
      obtain rfl := Disk.rename_failed hren
      have hunlinked := Disk.delete_lookup_ne env disk hp
      split_ifs at h
      · exact (ih h).trans hunlinked
      · rw [← (Prod.mk.inj h).1]
        exact hunlinked

theorem renameLoop_failed {disk disk1 : Disk} {tmpName first : Str} {fuel : ℕ} {style : RenameStyle} {real : Str} {pos : ℕ}
    (h : renameLoop env tmpName first fuel style real pos disk = (disk1, none)) : disk1 = disk := by
  induction fuel generalizing style real pos with
  | zero => exact (Prod.mk.inj h).1.symm
  | succ fuel ih =>
    rw [renameLoop] at h
    split at h
    · exact absurd (Prod.mk.inj h).2 (by simp)
    · next disk2 e hren =>
      obtain rfl := Disk.rename_failed hren
      by_cases hstop : e ≠ .exist ∧ e ≠ .acces ∧ e ≠ .again
      · rw [if_pos hstop] at h
        exact (Prod.mk.inj h).1.symm
      · rw [if_neg hstop] at h
        split at h
        · exact ih h
        · split_ifs at h
          · exact ih h
          · exact (Prod.mk.inj h).1.symm

theorem touch_kept {disk : Disk} {tmpName : Str} {f : FileInfo} (hp : disk.lookup p = some f) :
    KeptAt file (.found tmpName) p f (disk.touch env tmpName file.time) := by
  unfold Disk.touch
  split
  · next g hg =>
    split_ifs
    · exact ⟨f, hp, rfl, rfl, .inl rfl⟩
    · by_cases heq : p = tmpName
      · obtain rfl := heq
        obtain rfl := Option.some.inj (hg.symm.trans hp)
        exact ⟨_, AList.lookup_insert _, rfl, rfl, .inr ⟨rfl, rfl⟩⟩
      · exact ⟨f, (AList.lookup_insert_ne heq).trans hp, rfl, rfl, .inl rfl⟩
  · exact ⟨f, hp, rfl, rfl, .inl rfl⟩

/-- Where no name can be given to the file, only one that it was to overwrite may be gone. -/
theorem inbRename_failed {disk : Disk} {tmpName : Str} {f : FileInfo}
    (h : inbRename config env file tmpName s = (disk, none)) (hp : s.disk.lookup p = some f)
    (hreal : overwrites config file = true → p ≠ realName config s.rx.inbound file.netname) :
    KeptAt file (.found tmpName) p f disk := by
  unfold inbRename at h
  dsimp only at h
  split at h
  · next hover =>
    split at h
    · exact absurd (Prod.mk.inj h).2 (by simp)
    · next disk1 hloop =>
      obtain rfl := (Prod.mk.inj h).1
      exact ⟨f, (overwriteLoop_failed hloop (hreal hover)).trans hp, rfl, rfl, .inl rfl⟩
  · rw [renameLoop_failed h]
    exact touch_kept hp

/-! ### `inb_done` -/

/-- What is left where `inb_done` fails. -/
structure StoreKept (config : BinkdConfig) (env : Env) (file : TFile) (s : State) : Prop where
  /-- every file that is not discardable, and not the one that was to be overwritten -/
  files : ∀ p f, s.disk.lookup p = some f → ¬ Discardable config env file s p →
    (overwrites config file = true → p ≠ realName config s.rx.inbound file.netname) →
    KeptAt file (findTmpName config env (some file) s).1 p f (inbDone config env file s).1.disk
  /-- the pair of the file -/
  pair : PlainNames config env s → ∀ name ∈ hrNames config env s,
    HrOf config env file (hrPath config s name) s →
    ∀ p f, InPair (hrPath config s name) p → s.disk.lookup p = some f →
    (overwrites config file = true → p ≠ realName config s.rx.inbound file.netname) →
    KeptAt file (findTmpName config env (some file) s).1 p f (inbDone config env file s).1.disk

/-- Old partial files are removed. -/
def killConfig : BinkdConfig := { inboundConfig with killOldPartialFiles := 1 }

/-- The renaming fails, long after the file has come in. -/
def failEnv : Env :=
  { now := 1000, fault := fun op => if op = .rename (str "/n/00000000.dt") (str "/n/a") then some .io else none }

/-- The file is complete, and in the inbound is a pair of another file with it. -/
def partialState (config : BinkdConfig) : State :=
  let s := complete config ((∅ : Disk).insert (str "/n") { isDir := true })
  { s with disk := s.disk.insert (str "/n/00000001.hr") { bytes := str "b 5 0 2:5020/1" ++ [10] } }

end Binkd
