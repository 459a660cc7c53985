import Binkd.BeforeLogin

/-!
# Storing a file and finding it again

`inb_done` renames a file to the first name of its list that is free; `inb_test` goes
through the names from the same start, as long as they exist, and looks for the size
and the time.  The two lists are the same unless `inb_done` converts the case of the name,
changes the name of a bad packet, or falls back to another style, and the time is
not set on a file that overwrites.  Where none of this happens (`StoresPlainly`) a
stored file is found (`stored_found`).
-/

namespace Binkd

open Lib

variable {config : BinkdConfig} {env env' : Env} {s s' : State}

/-! ### The names -/

/-- `rename` fails in a way that makes `inb_done` try the next name. -/
def Errno.retry (e : Errno) : Bool := e = .exist ∨ e = .acces ∨ e = .again

/-- The `.hr` file that belongs to a `.dt` file. -/
def hrName (tmpName : Str) : Str := setExt tmpName (str ".hr")

/-- Is a free name found?  No name before it, and not the free one itself, is one of the pair
of temporary files, and `rename` does not refuse the free name in favour of the next. -/
def freeFound (env : Env) (disk : Disk) (tmpName : Str) (style : RenameStyle) : ℕ → Str → ℕ → Bool
  | 0, _, _ => false
  | fuel + 1, name, pos =>
    name ≠ tmpName && name ≠ hrName tmpName &&
    if (disk.lookup name).isNone then !(env.fault (.rename tmpName name)).any Errno.retry
    else match nextInbFilename style name pos with
      | none => false
      | some (name, pos) => freeFound env disk tmpName style fuel name pos

theorem freeFound_congr {disk disk' : Disk} {tmpName : Str} (style : RenameStyle) (fuel : ℕ) (name : Str) (pos : ℕ)
    (h : ∀ p, p ≠ tmpName → disk.lookup p = disk'.lookup p) :
    freeFound env disk tmpName style fuel name pos = freeFound env disk' tmpName style fuel name pos := by
  induction fuel generalizing name pos with
  | zero => rfl
  | succ fuel ih =>
    rw [freeFound, freeFound]
    by_cases hname : name = tmpName
    · simp [hname]
    · rw [h name hname]
      cases nextInbFilename style name pos with
      | none => rfl
      | some r =>
        dsimp only
        rw [ih r.1 r.2]

/-- What the file may meet later: it is unmodified, and no file has been removed. -/
structure Later (env' : Env) (real : Str) (disk disk' : Disk) : Prop where
  stored : disk'.lookup real = disk.lookup real
  kept : ∀ p, (disk.lookup p).isSome → (disk'.lookup p).isSome
  stat : ∀ p, env'.fault (.stat p) = none

theorem Later.stat_eq {real : Str} {disk disk' : Disk} (h : Later env' real disk disk') (p : Str) :
    disk'.stat env' p = disk'.lookup p := by
  unfold Disk.stat
  rw [h.stat p]
  rfl

/-- The names that are tried one after the other lead `inb_test` to the one that was taken. -/
theorem renameLoop_probed {disk disk1 : Disk} {tmpName first real : Str} {style : RenameStyle} {fuel : ℕ}
    {name : Str} {pos : ℕ} {f : FileInfo} (hfree : freeFound env disk tmpName style fuel name pos = true)
    (hloop : renameLoop env tmpName first fuel style name pos disk = (disk1, some real))
    (htmp : disk.lookup tmpName = some f) {size t : Int} (hsize : (f.bytes.length : Int) = size)
    (htime : evenTime f.mtime = evenTime t) :
    disk1 = (disk.erase tmpName).insert real f ∧ real ≠ hrName tmpName ∧
    ∀ env' disk', disk'.lookup real = some f → (∀ p, env'.fault (.stat p) = none) →
      (∀ p, p ≠ tmpName → p ≠ hrName tmpName → (disk.lookup p).isSome → (disk'.lookup p).isSome) →
      inbTestLoop env' disk' size t style fuel name pos = true := by
  induction fuel generalizing name pos with
  | zero => simp [freeFound] at hfree
  | succ fuel ih =>
    rw [freeFound] at hfree
    rw [renameLoop] at hloop
    simp only [Bool.and_eq_true, decide_eq_true_eq] at hfree
    obtain ⟨⟨hnetmp, hnehr⟩, hrest⟩ := hfree
    cases hname : disk.lookup name with
    | none =>
      rw [hname, Option.isNone_none, if_pos rfl] at hrest
      unfold Disk.rename at hloop
      rw [htmp, hname] at hloop
      cases hfault : env.fault (.rename tmpName name) with
      | none =>
        rw [hfault] at hloop
        obtain ⟨rfl, hreal⟩ := Prod.mk.inj hloop
        obtain rfl := Option.some.inj hreal
        refine ⟨rfl, hnehr, fun env' disk' hstored hstat _ => ?_⟩
        rw [inbTestLoop, Disk.stat, hstat, hstored]
        simp [hsize, htime]
      | some e =>
        -- another failure ends the loop, and nothing is stored
        rw [hfault] at hloop hrest
        have hstop : e ≠ .exist ∧ e ≠ .acces ∧ e ≠ .again := by simpa [Errno.retry] using hrest
        dsimp only at hloop
        rw [if_pos hstop] at hloop
        exact absurd (Prod.mk.inj hloop).2 (by simp)
    | some g =>
      rw [hname, Option.isNone_some, if_neg (by decide)] at hrest
      cases hnext : nextInbFilename style name pos with
      | none => simp [hnext] at hrest
      | some r =>
        rw [hnext] at hrest hloop
        -- the name is taken, and both go on to the next
        have hgo : renameLoop env tmpName first fuel style r.1 r.2 disk = (disk1, some real) := by
          unfold Disk.rename at hloop
          rw [htmp, hname] at hloop
          cases hfault : env.fault (.rename tmpName name) with
          | none =>
            rw [hfault] at hloop
            exact hloop
          | some e =>
            rw [hfault] at hloop
            dsimp only at hloop
            split_ifs at hloop with hstop
            · exact absurd (Prod.mk.inj hloop).2 (by simp)
            · exact hloop
        obtain ⟨hdisk, hreal, hprobe⟩ := ih hrest hgo
        refine ⟨hdisk, hreal, fun env' disk' hstored hstat hkept => ?_⟩
        obtain ⟨sb, hsb⟩ := Option.isSome_iff_exists.mp (hkept name hnetmp hnehr (by rw [hname]; rfl))
        have hprobe := hprobe env' disk' hstored hstat hkept
        rw [inbTestLoop, Disk.stat, hstat, hsb, hnext]
        by_cases hsame : (sb.bytes.length : Int) = size ∧ evenTime sb.mtime = evenTime t
        · simp [hsame]
        · simpa [hsame] using hprobe

/-! ### Storing -/

/-- What has the name of the file is removed first; the time is not set. -/
def overwrites (config : BinkdConfig) (file : TFile) : Bool :=
  config.overwrite.any (fun m => pmatchNcase m file.netname) && !ispkt file.netname && !isarcmail file.netname

/-- The file is stored under a name that `inb_test` tries, and with its time. -/
structure StoresPlainly (config : BinkdConfig) (env : Env) (file : TFile) (tmpName : Str) (s : State) : Prop where
  inboundcase : makeinboundcase (strdequote file.netname) config.inboundcase = strdequote file.netname
  time : overwrites config file || (env.fault (.touch tmpName)).isSome →
    ∀ f ∈ s.disk.lookup tmpName, evenTime f.mtime = evenTime file.time
  header : ispkt file.netname → checkPkthdr config env tmpName (realName config s.rx.inbound file.netname) s =
    realName config s.rx.inbound file.netname
  free : if overwrites config file then realName config s.rx.inbound file.netname ≠ hrName tmpName
    else freeFound env s.disk tmpName (inbStyle config file.netname).1 inbNames
      (realName config s.rx.inbound file.netname)
      ((realName config s.rx.inbound file.netname).length - (inbStyle config file.netname).2) = true

theorem Disk.rename_eq {disk disk1 : Disk} {source target : Str}
    (h : disk.rename env source target = (disk1, none)) :
    ∃ f, disk.lookup source = some f ∧ disk1 = (disk.erase source).insert target f := by
  unfold rename at h
  split at h
  · exact absurd (Prod.mk.inj h).2 (by simp)
  · exact absurd (Prod.mk.inj h).2 (by simp)
  · exact absurd (Prod.mk.inj h).2 (by simp)
  · next f _ hsource _ => exact ⟨f, hsource, (Prod.mk.inj h).1.symm⟩

theorem Disk.rename_failed {disk disk1 : Disk} {source target : Str} {e : Errno}
    (h : disk.rename env source target = (disk1, some e)) : disk1 = disk := by
  unfold rename at h
  split at h
  · exact (Prod.mk.inj h).1.symm
  · exact (Prod.mk.inj h).1.symm
  · exact (Prod.mk.inj h).1.symm
  · exact absurd (Prod.mk.inj h).2 (by simp)

/-- A file that overwrites gets its name, as it is. -/
theorem overwriteLoop_stored {disk disk1 : Disk} {tmpName real : Str} {n : ℕ}
    (h : overwriteLoop env tmpName real n disk = (disk1, true)) :
    ∃ f, disk.lookup tmpName = some f ∧ disk1.lookup real = some f := by
  have hdelete : ∀ (disk : Disk) f, (disk.delete env real).1.lookup tmpName = some f →
      disk.lookup tmpName = some f := by
    intro disk f hf
    rcases (disk.delete_lookup env real tmpName).1 with heq | ⟨-, hnone⟩
    · exact heq ▸ hf
    · rw [hnone] at hf
      contradiction
  induction n generalizing disk with
  | zero => exact absurd (Prod.mk.inj h).2 (by decide)
  | succ n ih =>
    rw [overwriteLoop] at h
    split at h
    · next disk2 hren =>
      obtain ⟨f, hf, rfl⟩ := Disk.rename_eq hren
      obtain ⟨rfl, -⟩ := Prod.mk.inj h
      exact ⟨f, hdelete disk f hf, AList.lookup_insert _⟩
    · next disk2 e hren =>
      obtain rfl := Disk.rename_failed hren
      split_ifs at h
      · obtain ⟨f, hf, hreal⟩ := ih h
        exact ⟨f, hdelete disk f hf, hreal⟩
      · exact absurd (Prod.mk.inj h).2 (by decide)

theorem Disk.touch_lookup {disk : Disk} {path : Str} {t : Int} {f : FileInfo} (h : disk.lookup path = some f) :
    (∀ p, p ≠ path → disk.lookup p = (disk.touch env path t).lookup p) ∧
    ∃ g, (disk.touch env path t).lookup path = some g ∧ g.bytes = f.bytes ∧
      (g.mtime = t ∨ (env.fault (.touch path)).isSome ∧ g = f) := by
  unfold touch
  rw [h]
  dsimp only
  split_ifs with hfault
  · exact ⟨fun _ _ => rfl, f, h, rfl, .inr ⟨hfault, rfl⟩⟩
  · exact ⟨fun p hp => (AList.lookup_insert_ne hp).symm, _, AList.lookup_insert _, rfl, .inl rfl⟩

theorem Disk.delete_lookup_ne (env : Env) (disk : Disk) {path p : Str} (h : p ≠ path) :
    (disk.delete env path).1.lookup p = disk.lookup p :=
  (disk.delete_lookup env path p).1.resolve_right fun hp => h hp.1

/-- `inb_test` finds the file under the first name. -/
theorem inbTestLoop_first {disk : Disk} {size t : Int} {style : RenameStyle} {fuel pos : ℕ} {name : Str}
    {f : FileInfo} (hfuel : 0 < fuel) (hstat : disk.stat env name = some f) (hsize : (f.bytes.length : Int) = size)
    (htime : evenTime f.mtime = evenTime t) : inbTestLoop env disk size t style fuel name pos = true := by
  obtain ⟨fuel, rfl⟩ := Nat.exists_eq_add_one.mpr hfuel
  rw [inbTestLoop, hstat]
  exact if_pos ⟨hsize, htime⟩

/-- **Storing and finding agree**: a complete file that is stored plainly is found by
`inb_test` as long as it is unmodified and no file is removed. -/
theorem stored_found (config : BinkdConfig) (env : Env) (file : TFile) (tmpName : Str) (s s1 : State) (f : FileInfo)
    (hfind : findTmpName config env (some file) s = (.found tmpName, s1))
    (htmp : s1.disk.lookup tmpName = some f) (hsize : (f.bytes.length : Int) = file.size)
    (hplain : StoresPlainly config env file tmpName s1) (hdone : (inbDone config env file s).2 = true) :
    ∃ real disk, inbRename config env file tmpName s1 = (disk, some real) ∧ ∀ env' disk',
      Later env' real (disk.delete env (hrName tmpName)).1 disk' →
      inbTest config env' disk' file s.rx.inbound = true := by
  have hinbound : s1.rx.inbound = s.rx.inbound := by
    have hframe := findTmpName_frame config env (some file) s
    rw [hfind] at hframe
    rw [hframe.rx]
  have hname : (withSeparator s.rx.inbound ++ strwipe (strdequote file.netname)).take (maxPathLen - 1) =
      realName config s1.rx.inbound file.netname := by
    rw [realName, hplain.inboundcase, hinbound]
  obtain ⟨real, disk, hren⟩ : ∃ real disk, inbRename config env file tmpName s1 = (disk, some real) := by
    unfold inbDone at hdone
    rw [hfind] at hdone
    dsimp only at hdone
    split at hdone
    · contradiction
    · next disk real hren => exact ⟨real, disk, hren⟩
  refine ⟨real, disk, hren, fun env' disk' hlater => ?_⟩
  have hkept : ∀ p, p ≠ hrName tmpName → (disk.lookup p).isSome → (disk'.lookup p).isSome := by
    intro p hp hsome
    refine hlater.kept p ?_
    rwa [Disk.delete_lookup_ne env disk hp]
  have hstored : real ≠ hrName tmpName → disk'.lookup real = disk.lookup real := fun hreal =>
    hlater.stored.trans (Disk.delete_lookup_ne env disk hreal)
  have htime := hplain.time
  have hfree := hplain.free
  unfold inbTest
  dsimp only
  rw [hname]
  unfold inbRename at hren
  dsimp only at hren
  split at hren
  · next hover =>
    have hover : overwrites config file = true := hover
    rw [if_pos hover] at hfree
    split at hren
    · next disk1 hloop =>
      obtain ⟨rfl, hreal⟩ := Prod.mk.inj hren
      obtain rfl := Option.some.inj hreal
      obtain ⟨f', hf, hf1⟩ := overwriteLoop_stored hloop
      obtain rfl := Option.some.inj (htmp.symm.trans hf)
      have hfirst : disk'.lookup (realName config s1.rx.inbound file.netname) = some f :=
        (hstored hfree).trans hf1
      exact inbTestLoop_first (Nat.succ_pos _) ((hlater.stat_eq _).trans hfirst) hsize
        (htime (by simp [hover]) f hf)
    · exact absurd (Prod.mk.inj hren).2 (by simp)
  · next hover =>
    have hover : overwrites config file = false := by simpa [overwrites] using hover
    rw [if_neg (by simp [hover])] at hfree
    have hfirst : (if ispkt file.netname = true then
        checkPkthdr config env tmpName (realName config s1.rx.inbound file.netname) s1
        else realName config s1.rx.inbound file.netname) = realName config s1.rx.inbound file.netname := by
      split_ifs with hpkt
      · exact hplain.header hpkt
      · rfl
    rw [hfirst] at hren
    obtain ⟨hother, g, hg, hbytes, hset⟩ := @Disk.touch_lookup env s1.disk tmpName file.time f htmp
    rw [freeFound_congr _ _ _ _ hother] at hfree
    have heven : evenTime g.mtime = evenTime file.time := by
      rcases hset with hset | ⟨hfault, rfl⟩
      · rw [hset]
      · exact htime (by simp [hfault]) g htmp
    have hsize : (g.bytes.length : Int) = file.size := by rw [hbytes, hsize]
    obtain ⟨rfl, hreal, hprobe⟩ := renameLoop_probed hfree hren hg hsize heven
    have hlook : disk'.lookup real = some g := (hstored hreal).trans (AList.lookup_insert _)
    refine hprobe env' disk' hlook hlater.stat fun p hp hp' hsome => hkept p hp' ?_
    by_cases hpr : p = real
    · rw [hpr, AList.lookup_insert]
      rfl
    · rwa [AList.lookup_insert_ne hpr, AList.lookup_erase_ne hp]

/-- The remote has announced a file `a` of one byte, and the byte has come in. -/
def complete (config : BinkdConfig) (disk : Disk) : State :=
  let s := after (iterate config) (Input.message {} M_ADR (str "2:5020/1") ++
    Input.message {} M_FILE (str "a 1 0 0")) (start config {} disk [] [] none none)
  { s with disk := s.disk.insert (str "/n/00000000.dt") { bytes := [65], mtime := 5 } }

/-- With `inboundcase upper` it is stored as `A`, and looked for as `a`. -/
theorem upper_not_found : ∃ (config : BinkdConfig) (s : State),
    (inbDone config {} s.rx.inf s).2 = true ∧
    (inbDone config {} s.rx.inf s).1.ops.head? = some (.done (str "/n/00000000.dt") (str "/n/A")) ∧
    inbTest config {} (inbDone config {} s.rx.inf s).1.disk s.rx.inf s.rx.inbound = false := by
  refine ⟨{ inboundConfig with inboundcase := .upper },
    complete { inboundConfig with inboundcase := .upper } ((∅ : Disk).insert (str "/n") { isDir := true }), ?_, ?_, ?_⟩
  · decide +kernel
  · decide +kernel
  · decide +kernel

/-- An inbound in which another file has the name. -/
def takenDisk : Disk := ((∅ : Disk).insert (str "/n") { isDir := true }).insert (str "/n/a") { bytes := [66, 67] }

/-- The same when the pair of temporary files has been found. -/
def takenState : State :=
  (findTmpName inboundConfig {} (some (complete inboundConfig takenDisk).rx.inf) (complete inboundConfig takenDisk)).2

/-- The file is stored under the next name, and found there. -/
theorem stored_found_next : ∃ (s : State) (disk : Disk),
    inbRename inboundConfig {} (complete inboundConfig takenDisk).rx.inf (str "/n/00000000.dt") s =
      (disk, some (str "/n/a.1")) ∧
    inbTest inboundConfig {} (disk.delete {} (hrName (str "/n/00000000.dt"))).1
      (complete inboundConfig takenDisk).rx.inf (complete inboundConfig takenDisk).rx.inbound = true := by
  have hfound : (findTmpName inboundConfig {} (some (complete inboundConfig takenDisk).rx.inf)
      (complete inboundConfig takenDisk)).1 = .found (str "/n/00000000.dt") := by decide +kernel
  have hplain : StoresPlainly inboundConfig {} (complete inboundConfig takenDisk).rx.inf (str "/n/00000000.dt")
      takenState := ⟨by decide +kernel, by decide +kernel, by decide +kernel, by decide +kernel⟩
  have hreal : (inbRename inboundConfig {} (complete inboundConfig takenDisk).rx.inf (str "/n/00000000.dt")
      takenState).2 = some (str "/n/a.1") := by decide +kernel
  obtain ⟨real, disk, hren, hlater⟩ := stored_found inboundConfig {} (complete inboundConfig takenDisk).rx.inf
    (str "/n/00000000.dt") (complete inboundConfig takenDisk) takenState { bytes := [65], mtime := 5 }
    (Prod.ext hfound rfl) (by decide +kernel) (by decide +kernel) hplain (by decide +kernel)
  rw [hren] at hreal
  obtain rfl := Option.some.inj hreal
  exact ⟨takenState, disk, hren, hlater {} _ ⟨rfl, fun _ h => h, fun _ => rfl⟩⟩

end Binkd
