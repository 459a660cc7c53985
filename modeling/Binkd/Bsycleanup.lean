import Binkd.Bsy
import Binkd.Lib.Prune
import Binkd.Outbound

/-!
# The flags at startup (`bsycleanup.c`)

When binkd starts it deletes the `.bsy`, `.csy` and `.try` files in the outbound directories of all
its domains, however old they are.  `cleanupOldBsy_exact` says which names go: those that lie directly
in a directory of an outbound, and nothing else.

The flags of a node that has no point number are among them, also those that another process
holds: once binkd has started, a second process can get a flag that is held
(`startup_breaks_exclusion`).
-/

namespace Binkd

open Lib

/-- A name that ends in `.bsy`, `.csy` or `.try`, and has something before that. -/
def isBsyName (s : Str) : Bool :=
  4 < s.length && [str ".bsy", str ".csy", str ".try"].any fun ext => stricmp (s.drop (s.length - 4)) ext = 0

/-- `scan_and_delete_bsy_in_dir`. -/
def scanAndDeleteBsyInDir (env : Env) (dir : Str) (disk : Disk) : Disk :=
  match disk.readdir env dir with
  | none => disk
  | some names => (names.filter isBsyName).foldl
      (fun disk s => (disk.delete env ((dir ++ 47 :: s).take maxPathLen)).1) disk

/-- The directory of the domain's outbound, or of another zone in it. -/
def isOutboundDir (d : FtnDomain) (name : Str) : Bool :=
  strnicmp d.dir.length name d.dir = 0 &&
    match name.drop d.dir.length with
    | [] => true
    | c :: rest => c = 46 && isxdigit (rest.headD 0)

/-- `base_path`. -/
def basePath (d : FtnDomain) : Str :=
  let path := d.path.take maxPathLen
  if path.getLast? = some 58 then path ++ [47] else path

/-- A round of the loop over the domains. -/
def cleanupDomain (env : Env) (disk : Disk) (d : FtnDomain) : Disk :=
  if d.alias4.isSome then disk
  else match disk.readdir env (basePath d) with
    | none => disk
    | some names => (names.filter (isOutboundDir d)).foldl
        (fun disk name => scanAndDeleteBsyInDir env ((basePath d ++ 47 :: name).take maxPathLen) disk) disk

/-- `cleanup_old_bsy`. -/
def cleanupOldBsy (config : BinkdConfig) (env : Env) (disk : Disk) : Disk :=
  config.pDomains.foldl (cleanupDomain env) disk

/-! ### Directories -/

def Disk.IsDir (disk : Disk) (p : Str) : Prop := ∃ f, disk.lookup p = some f ∧ f.isDir = true

/-- A name that does not end in a separator. -/
def PlainDir (dir : Str) : Prop := dir ≠ [] ∧ dir.getLast? ≠ some 47

/-- What the loops count on: the directories stay, and the names are not too long. -/
structure OutboundDisk (dirs : Str → Prop) (disk : Disk) : Prop where
  dirs : ∀ p, disk.IsDir p ↔ dirs p
  fits : ∀ p, (disk.lookup p).isSome → p.length ≤ maxPathLen

variable {config : BinkdConfig} {env : Env} {disk disk' : Disk} {dir : Str} {dirs doomed : Str → Prop}
  {d : FtnDomain}

/-- Pruning leaves the directories, where none of them is doomed. -/
theorem OutboundDisk.prune (h : OutboundDisk dirs disk)
    (hprune : Prunes (fun (disk : Disk) p => disk.lookup p) doomed disk disk') (hdirs : ∀ p, doomed p → ¬ dirs p) :
    OutboundDisk dirs disk' := by
  refine ⟨fun p => ?_, fun p hp => ?_⟩
  · rw [← h.dirs p]
    constructor
    · rintro ⟨f, hf, hdir⟩
      exact ⟨f, hprune.kept hf, hdir⟩
    · rintro ⟨f, hf, hdir⟩
      refine ⟨f, ((hprune p).2 fun hp => hdirs p hp ?_).trans hf, hdir⟩
      exact (h.dirs p).mp ⟨f, hf, hdir⟩
  · obtain ⟨f, hf⟩ := Option.isSome_iff_exists.mp hp
    have hold : disk.lookup p = some f := hprune.kept hf
    exact h.fits p (by rw [hold]; rfl)

theorem withSeparator_plain (h : PlainDir dir) : withSeparator dir = dir ++ [47] := by
  unfold withSeparator
  exact if_pos h

/-- The names that are listed are those of the entries below a directory. -/
theorem readdir_names (hsound : ∀ op, env.fault op = none) (hplain : PlainDir dir) :
    (disk.IsDir dir → ∃ names, disk.readdir env dir = some names ∧
      ∀ s, s ∈ names ↔ s ≠ [] ∧ 47 ∉ s ∧ (disk.lookup (dir ++ 47 :: s)).isSome) ∧
    (¬ disk.IsDir dir → disk.readdir env dir = none) := by
  have hfault : ¬ (env.fault (.opendir dir)).isSome = true := by simp [hsound]
  unfold Disk.readdir
  rw [if_neg hfault]
  constructor
  · rintro ⟨f, hf, hdir⟩
    obtain ⟨bytes, mtime, isDir⟩ := f
    obtain rfl : isDir = true := hdir
    rw [hf]
    refine ⟨_, rfl, fun s => ?_⟩
    rw [withSeparator_plain hplain, List.mem_map]
    constructor
    · rintro ⟨p, hp, rfl⟩
      obtain ⟨hkey, hname⟩ := List.mem_filter.mp hp
      simp only [Bool.and_eq_true, List.isPrefixOf_iff_prefix, decide_eq_true_eq, Bool.not_eq_true',
        List.contains_eq_mem, decide_eq_false_iff_not] at hname
      obtain ⟨⟨⟨rest, rfl⟩, hne⟩, hslash⟩ := hname
      rw [List.drop_left] at hslash ⊢
      refine ⟨fun hnil => hne (by rw [hnil, List.append_nil]), hslash, AList.lookup_isSome.mpr ?_⟩
      rw [AList.mem_keys]
      simpa using hkey
    · rintro ⟨hne, hslash, hsome⟩
      refine ⟨dir ++ [47] ++ s, List.mem_filter.mpr ⟨?_, ?_⟩, List.drop_left⟩
      · rw [← AList.mem_keys]
        simpa using AList.lookup_isSome.mp hsome
      · simp only [Bool.and_eq_true, List.isPrefixOf_iff_prefix, decide_eq_true_eq, Bool.not_eq_true',
          List.contains_eq_mem, decide_eq_false_iff_not]
        refine ⟨⟨List.prefix_append _ _, fun heq => hne ?_⟩, ?_⟩
        · exact List.append_right_eq_self.mp heq
        · rwa [List.drop_left]
  · intro hnot
    split
    · next bytes mtime hf => exact absurd ⟨_, hf, rfl⟩ hnot
    · rfl

/-- Deleting is pruning, where the system does not refuse. -/
theorem delete_prunes (hsound : ∀ op, env.fault op = none) (path : Str) (disk : Disk) :
    Prunes (fun (disk : Disk) p => disk.lookup p) (fun p => p = path) disk (disk.delete env path).1 := by
  intro p
  refine ⟨?_, fun hne => disk.delete_lookup_ne env hne⟩
  rintro rfl
  exact (disk.delete_lookup env p p).2.resolve_right (by simp [hsound])

/-- The names that go from a directory. -/
def BsyIn (dir p : Str) : Prop := ∃ s, isBsyName s = true ∧ 47 ∉ s ∧ p = dir ++ 47 :: s

theorem isBsyName_ne_nil {s : Str} (h : isBsyName s = true) : s ≠ [] := by
  rintro rfl
  exact absurd h (by decide)

theorem scanAndDelete_prunes (hsound : ∀ op, env.fault op = none) (hplain : PlainDir dir)
    (hdisk : OutboundDisk dirs disk) :
    Prunes (fun (disk : Disk) p => disk.lookup p) (fun p => dirs dir ∧ BsyIn dir p) disk
      (scanAndDeleteBsyInDir env dir disk) := by
  unfold scanAndDeleteBsyInDir
  by_cases hdir : disk.IsDir dir
  · obtain ⟨names, hnames, hmem⟩ := (readdir_names hsound hplain).1 hdir
    rw [hnames]
    dsimp only
    have hprune := (Prunes.foldl (fun _ : Disk => True) (names.filter isBsyName)
      (fun s _ disk _ => delete_prunes hsound ((dir ++ 47 :: s).take maxPathLen) disk)
      (fun _ _ _ _ => trivial) (s := disk) trivial).1
    have hcut : ∀ s ∈ names, (dir ++ 47 :: s).take maxPathLen = dir ++ 47 :: s :=
      fun s hs => List.take_of_length_le (hdisk.fits _ ((hmem s).mp hs).2.2)
    refine hprune.more ?_ ?_
    · rintro p ⟨s, hs, hp⟩
      obtain ⟨hs, hname⟩ := List.mem_filter.mp hs
      rw [hcut s hs] at hp
      exact ⟨(hdisk.dirs dir).mp hdir, s, hname, ((hmem s).mp hs).2.1, hp⟩
    · rintro p ⟨-, s, hname, hslash, rfl⟩ hnot
      by_contra hsome
      have hs : s ∈ names := (hmem s).mpr ⟨isBsyName_ne_nil hname, hslash, Option.isSome_iff_ne_none.mpr hsome⟩
      exact hnot ⟨s, List.mem_filter.mpr ⟨hs, hname⟩, (hcut s hs).symm⟩
  · rw [(readdir_names hsound hplain).2 hdir]
    exact .refl fun p hp => absurd ((hdisk.dirs dir).mpr hp.1) hdir

/-- The names that go from a domain. -/
def DomainBsy (dirs : Str → Prop) (d : FtnDomain) (p : Str) : Prop :=
  d.alias4 = none ∧ dirs d.path ∧ ∃ name, isOutboundDir d name = true ∧ name ≠ [] ∧ 47 ∉ name ∧
    dirs (d.path ++ 47 :: name) ∧ BsyIn (d.path ++ 47 :: name) p

theorem PlainDir.sub {name : Str} (hname : name ≠ []) (hslash : 47 ∉ name) : PlainDir (dir ++ 47 :: name) := by
  have hlast : (dir ++ 47 :: name).getLast? = name.getLast? := by
    obtain ⟨c, name, rfl⟩ := List.exists_cons_of_ne_nil hname
    rw [List.getLast?_append, List.getLast?_cons_cons]
    rfl
  refine ⟨by simp, ?_⟩
  rw [hlast]
  exact fun h => hslash (List.mem_of_getLast? h)

/-- The path of an outbound, as the config has it. -/
structure PlainPath (path : Str) : Prop where
  dir : PlainDir path
  colon : path.getLast? ≠ some 58
  length : path.length ≤ maxPathLen

theorem basePath_plain (h : PlainPath d.path) : basePath d = d.path := by
  unfold basePath
  rw [List.take_of_length_le h.length]
  exact if_neg h.colon

theorem cleanupDomain_prunes (hsound : ∀ op, env.fault op = none) (hpath : d.alias4 = none → PlainPath d.path)
    (hdirs : ∀ p, DomainBsy dirs d p → ¬ dirs p) (hdisk : OutboundDisk dirs disk) :
    Prunes (fun (disk : Disk) p => disk.lookup p) (DomainBsy dirs d) disk (cleanupDomain env disk d) := by
  unfold cleanupDomain
  cases halias : d.alias4 with
  | some a =>
    exact .refl fun p hp => absurd (halias.symm.trans hp.1) (by simp)
  | none =>
    have hplain := hpath halias
    rw [Option.isSome_none, if_neg Bool.false_ne_true, basePath_plain hplain]
    by_cases hdir : disk.IsDir d.path
    · obtain ⟨names, hnames, hmem⟩ := (readdir_names hsound hplain.dir).1 hdir
      rw [hnames]
      dsimp only
      have hcut : ∀ name ∈ names, (d.path ++ 47 :: name).take maxPathLen = d.path ++ 47 :: name :=
        fun name hname => List.take_of_length_le (hdisk.fits _ ((hmem name).mp hname).2.2)
      have hscan : ∀ name ∈ names.filter (isOutboundDir d), ∀ disk, OutboundDisk dirs disk →
          Prunes (fun (disk : Disk) p => disk.lookup p)
            (fun p => dirs (d.path ++ 47 :: name) ∧ BsyIn (d.path ++ 47 :: name) p) disk
            (scanAndDeleteBsyInDir env ((d.path ++ 47 :: name).take maxPathLen) disk) := by
        intro name hname disk hdisk
        obtain ⟨hne, hslash, -⟩ := (hmem name).mp (List.mem_filter.mp hname).1
        rw [hcut name (List.mem_filter.mp hname).1]
        exact scanAndDelete_prunes hsound (.sub hne hslash) hdisk
      have hdoomed : ∀ name ∈ names.filter (isOutboundDir d), ∀ p,
          dirs (d.path ++ 47 :: name) ∧ BsyIn (d.path ++ 47 :: name) p → DomainBsy dirs d p := by
        intro name hname p hp
        obtain ⟨hlisted, hout⟩ := List.mem_filter.mp hname
        obtain ⟨hne, hslash, -⟩ := (hmem name).mp hlisted
        exact ⟨halias, (hdisk.dirs _).mp hdir, name, hout, hne, hslash, hp⟩
      refine (Prunes.foldl (OutboundDisk dirs) _ hscan (fun name hname disk h => ?_) hdisk).1.congr fun p => ?_
      · exact h.prune (hscan name hname disk h) fun p hp => hdirs p (hdoomed name hname p hp)
      · constructor
        · rintro ⟨name, hname, hp⟩
          exact hdoomed name hname p hp
        · rintro ⟨-, -, name, hout, hne, hslash, hp⟩
          obtain ⟨f, hf, -⟩ := (hdisk.dirs _).mpr hp.1
          have hlisted : name ∈ names := (hmem name).mpr ⟨hne, hslash, by rw [hf]; rfl⟩
          exact ⟨name, List.mem_filter.mpr ⟨hlisted, hout⟩, hp⟩
    · rw [(readdir_names hsound hplain.dir).2 hdir]
      exact .refl fun p hp => absurd ((hdisk.dirs _).mpr hp.2.1) hdir

/-- The names that are deleted at startup. -/
def StaleBsy (config : BinkdConfig) (disk : Disk) (p : Str) : Prop :=
  ∃ d ∈ config.pDomains, DomainBsy disk.IsDir d p

theorem isBsyName_append (r : Str) {s : Str} (h : isBsyName s = true) : isBsyName (r ++ s) = true := by
  unfold isBsyName at h ⊢
  rw [Bool.and_eq_true, decide_eq_true_eq] at h ⊢
  have hdrop : (r ++ s).drop ((r ++ s).length - 4) = s.drop (s.length - 4) := by
    rw [List.length_append, Nat.add_sub_assoc h.1.le, List.drop_append, List.drop_eq_nil_of_le (by omega),
      List.nil_append, Nat.add_sub_cancel_left]
  refine ⟨?_, ?_⟩
  · rw [List.length_append]
    exact h.1.trans_le (Nat.le_add_left _ _)
  · rw [hdrop]
    exact h.2

/-- Nothing else goes than names with such an end. -/
theorem StaleBsy.name {p : Str} (h : StaleBsy config disk p) : isBsyName p = true := by
  obtain ⟨d, -, -, -, name, -, -, -, -, s, hs, -, rfl⟩ := h
  have hname := isBsyName_append (d.path ++ 47 :: name ++ [47]) hs
  rwa [List.append_assoc, List.singleton_append] at hname

/-- **What goes at startup**: where no directory has such a name, exactly the `.bsy`, `.csy` and `.try`
files that lie directly in an outbound directory of a domain. -/
theorem cleanupOldBsy_exact (config : BinkdConfig) (env : Env) (hsound : ∀ op, env.fault op = none)
    (hpaths : ∀ d ∈ config.pDomains, d.alias4 = none → PlainPath d.path) (disk : Disk)
    (hfits : ∀ p, (disk.lookup p).isSome → p.length ≤ maxPathLen)
    (hdirs : ∀ p, StaleBsy config disk p → ¬ disk.IsDir p) (p : Str) :
    (StaleBsy config disk p → (cleanupOldBsy config env disk).lookup p = none) ∧
    (¬ StaleBsy config disk p → (cleanupOldBsy config env disk).lookup p = disk.lookup p) := by
  have hdisk : OutboundDisk disk.IsDir disk := ⟨fun _ => .rfl, hfits⟩
  have hdomain : ∀ d ∈ config.pDomains, ∀ disk', OutboundDisk disk.IsDir disk' →
      Prunes (fun (disk : Disk) p => disk.lookup p) (DomainBsy disk.IsDir d) disk' (cleanupDomain env disk' d) :=
    fun d hd disk' h => cleanupDomain_prunes hsound (hpaths d hd) (fun p hp => hdirs p ⟨d, hd, hp⟩) h
  exact (Prunes.foldl (OutboundDisk disk.IsDir) config.pDomains hdomain
    (fun d hd disk' h => h.prune (hdomain d hd disk' h) fun p hp => hdirs p ⟨d, hd, hp⟩) hdisk).1 p

/-! ### The flags of the nodes -/

theorem strnicmp_append : ∀ s r : Str, strnicmp s.length (s ++ r) s = 0
  | [], _ => rfl
  | a :: s, r => by simp [strnicmp, strnicmp_append s r]

variable {fa : FtnAddr} {bt : BsyT} {path : Str}

theorem isOutboundDir_zone (d : FtnDomain) (h : fa.Regular) :
    isOutboundDir d (d.dir ++ zoneExt d fa.z) = true := by
  unfold isOutboundDir
  rw [strnicmp_append, List.drop_left]
  unfold zoneExt
  split_ifs
  · obtain ⟨-, hlength, hdigits⟩ := hexInt_spec (by decide) h.zValue
    obtain ⟨c, rest, hhex⟩ := List.exists_cons_of_length_eq_add_one hlength
    rw [hhex] at hdigits ⊢
    simp [hdigits c List.mem_cons_self]
  · rfl

theorem zoneExt_slash (d : FtnDomain) (h : fa.Regular) : 47 ∉ zoneExt d fa.z := by
  unfold zoneExt
  split_ifs
  · exact List.not_mem_cons_of_ne_of_not_mem (by decide) (xdigit_slash (hexInt_spec (by decide) h.zValue).2.2)
  · exact List.not_mem_nil

theorem BsyT.ext_length (bt : BsyT) : bt.ext.length = 4 := by
  cases bt
  · rfl
  · rfl

theorem BsyT.ext_slash (bt : BsyT) : 47 ∉ bt.ext := by
  cases bt
  · decide
  · decide

theorem isBsyName_ext {s : Str} (hs : s ≠ []) (bt : BsyT) : isBsyName (s ++ bt.ext) = true := by
  have hpos := List.length_pos_iff.mpr hs
  have hdrop : (s ++ bt.ext).drop ((s ++ bt.ext).length - 4) = bt.ext := by
    rw [List.length_append, bt.ext_length, Nat.add_sub_cancel, List.drop_left]
  unfold isBsyName
  rw [hdrop, List.length_append, bt.ext_length, decide_eq_true (by omega), Bool.true_and]
  cases bt
  · decide
  · decide

/-- The flag of a node lies in an outbound directory. -/
theorem bsyFile_stale (hd : getDomainInfo fa.domain config.pDomains = some d) (halias : d.alias4 = none)
    (hname : d.dir ≠ [] ∧ 47 ∉ d.dir) (hfa : fa.Regular) (hp : fa.p = 0)
    (hshort : (ftnaddressToFilename fa config.pDomains).length + 4 ≤ maxPathLen)
    (hpath : disk.IsDir d.path) (hdir : disk.IsDir (d.root ++ zoneExt d fa.z))
    (hfile : bsyFile config fa bt = some path) : StaleBsy config disk path := by
  have hfilename := ftnaddressToFilename_eq hd (by omega)
  have hroot : d.root ++ zoneExt d fa.z = d.path ++ 47 :: (d.dir ++ zoneExt d fa.z) := by
    simp [FtnDomain.root, str]
  have hnode : nodeName fa = hexInt 4 fa.net ++ hexInt 4 fa.node := by
    unfold nodeName
    rw [if_neg (by simp [hp]), List.append_nil]
  have hnet := hexInt_spec (w := 4) (by decide) hfa.net
  have hnum := hexInt_spec (w := 4) (by decide) hfa.node
  have hlength : (ftnaddressToFilename fa config.pDomains ++ bt.ext).length ≤ maxPathLen := by
    rw [List.length_append, bt.ext_length]
    exact hshort
  unfold bsyFile at hfile
  dsimp only at hfile
  split_ifs at hfile
  rw [List.take_of_length_le hlength, Option.some.injEq] at hfile
  refine ⟨d, List.mem_of_find?_eq_some hd, halias, hpath, d.dir ++ zoneExt d fa.z, isOutboundDir_zone d hfa,
    by simp [hname.1], ?_, hroot ▸ hdir, nodeName fa ++ bt.ext, ?_, ?_, ?_⟩
  · simp only [List.mem_append, hname.2, zoneExt_slash d hfa, or_self, not_false_eq_true]
  · refine isBsyName_ext (List.ne_nil_of_length_pos ?_) bt
    rw [hnode, List.length_append, hnet.2.1]
    omega
  · simp only [hnode, List.mem_append, xdigit_slash hnet.2.2, xdigit_slash hnum.2.2, bt.ext_slash, or_self,
      not_false_eq_true]
  · rw [← hfile, hfilename, ← List.append_assoc, hroot]
    simp

/-- **A start breaks the lock**: when binkd starts while another process of the outbound holds the flag of
a node that is no point, any process gets the same flag right after that. -/
theorem startup_breaks_exclusion (config : BinkdConfig) (env : Env) (hsound : ∀ op, env.fault op = none)
    (hpaths : ∀ d ∈ config.pDomains, d.alias4 = none → PlainPath d.path) (w : Sharing)
    (hfits : ∀ p, (w.disk.lookup p).isSome → p.length ≤ maxPathLen)
    (hdirs : ∀ p, StaleBsy config w.disk p → ¬ w.disk.IsDir p)
    (hd : getDomainInfo fa.domain config.pDomains = some d) (halias : d.alias4 = none)
    (hname : d.dir ≠ [] ∧ 47 ∉ d.dir) (hfa : fa.Regular) (hp : fa.p = 0)
    (hshort : (ftnaddressToFilename fa config.pDomains).length + 4 ≤ maxPathLen)
    (hpath : w.disk.IsDir d.path) (hdir : w.disk.IsDir (d.root ++ zoneExt d fa.z))
    (hfile : bsyFile config fa bt = some path) (hdomains : NamedDomains config) (i j : ℕ) (hij : i ≠ j)
    (hheld : path ∈ (w.proc i).flags config) (pid : ℕ) :
    ∃ r, (w.proc j).bsyAdd config env pid fa bt (cleanupOldBsy config env w.disk) = some r ∧
      path ∈ ((w.acts j r).proc i).flags config ∧ path ∈ ((w.acts j r).proc j).flags config := by
  have hstale := bsyFile_stale hd halias hname hfa hp hshort hpath hdir hfile
  have hgone := (cleanupOldBsy_exact config env hsound hpaths w.disk hfits hdirs path).1 hstale
  obtain ⟨disk', hdisk'⟩ := Disk.createSemFile_free pid (hsound _) hgone
  refine ⟨(disk', { w.proc j with bsyList := bsyGetFreeCell ⟨fa, bt⟩ (w.proc j).bsyList }), ?_, ?_, ?_⟩
  · unfold BsyProcess.bsyAdd
    rw [hfile]
    dsimp only
    rw [hdisk']
    rfl
  · dsimp only [Sharing.acts]
    rwa [Function.update_of_ne hij]
  · dsimp only [Sharing.acts]
    rw [Function.update_self]
    exact (flags_bsyGetFreeCell hdomains hfile).mem_iff.mpr List.mem_cons_self

/-! ### An outbound with one flag -/

def busyFlag : Str := str "/o/out/139c0001.bsy"

def busyDisk : Disk :=
  ((((∅ : Disk).insert (str "/o") { isDir := true }).insert (str "/o/out") { isDir := true }).insert
    busyFlag {}).insert (str "/o/out/139c0001.flo") {}

theorem busyDisk_names {p : Str} (h : (busyDisk.lookup p).isSome) :
    p = str "/o/out/139c0001.flo" ∨ p = busyFlag ∨ p = str "/o/out" ∨ p = str "/o" := by
  have hmem := AList.lookup_isSome.mp h
  simp only [busyDisk, AList.mem_insert] at hmem
  rcases hmem with h | h | h | h | h
  · exact .inl h
  · exact .inr (.inl h)
  · exact .inr (.inr (.inl h))
  · exact .inr (.inr (.inr h))
  · exact absurd h (AList.notMem_empty p)

theorem busyDisk_fits (p : Str) (h : (busyDisk.lookup p).isSome) : p.length ≤ maxPathLen := by
  rcases busyDisk_names h with rfl | rfl | rfl | rfl
  · decide
  · decide
  · decide
  · decide

theorem busyDisk_isDir {p : Str} (h : busyDisk.IsDir p) : p = str "/o/out" ∨ p = str "/o" := by
  obtain ⟨f, hf, hdir⟩ := h
  have hfile : ∀ {q}, p = q → busyDisk.lookup q = some {} → False := by
    rintro q rfl hq
    rw [hq] at hf
    obtain rfl := Option.some.inj hf
    exact absurd hdir (by decide)
  rcases busyDisk_names (Option.isSome_iff_exists.mpr ⟨f, hf⟩) with hp | hp | hp
  · exact (hfile hp rfl).elim
  · exact (hfile hp rfl).elim
  · exact hp

theorem busyDisk_dirs (p : Str) (h : StaleBsy bsyConfig busyDisk p) : ¬ busyDisk.IsDir p := by
  intro hdir
  obtain ⟨d, hd, -, -, name, -, -, -, -, s, -, -, rfl⟩ := h
  obtain rfl : d = fidonet := List.mem_singleton.mp hd
  have hslash : 47 ∈ (fidonet.path ++ 47 :: name ++ 47 :: s).drop 3 := by
    simp [fidonet, str]
  rcases busyDisk_isDir hdir with h | h
  · rw [h] at hslash
    exact absurd hslash (by decide)
  · rw [h] at hslash
    exact absurd hslash (by decide)

theorem busyDisk_plain : ∀ d ∈ bsyConfig.pDomains, d.alias4 = none → PlainPath d.path := by
  intro d hd _
  obtain rfl : d = fidonet := List.mem_singleton.mp hd
  exact ⟨⟨by decide, by decide⟩, by decide, by decide⟩

theorem busyFlag_stale : bsyFile bsyConfig (aka 1) .bsy = some busyFlag ∧
    StaleBsy bsyConfig busyDisk busyFlag := by
  have hfile : bsyFile bsyConfig (aka 1) .bsy = some busyFlag := by decide +kernel
  have hdomain : getDomainInfo (aka 1).domain bsyConfig.pDomains = some fidonet := rfl
  exact ⟨hfile, bsyFile_stale hdomain rfl (by decide) ⟨by decide, by decide, by decide, by decide⟩ rfl
    (by decide +kernel) ⟨_, rfl, rfl⟩ ⟨_, rfl, rfl⟩ hfile⟩

/-- The flag goes, and the `.flo` file stays. -/
theorem cleanupOldBsy_exact_flag :
    (cleanupOldBsy bsyConfig {} busyDisk).lookup busyFlag = none ∧
    (cleanupOldBsy bsyConfig {} busyDisk).lookup (str "/o/out/139c0001.flo") = some {} := by
  have hexact := cleanupOldBsy_exact bsyConfig {} (fun _ => rfl) busyDisk_plain busyDisk busyDisk_fits busyDisk_dirs
  refine ⟨(hexact busyFlag).1 busyFlag_stale.2, ((hexact _).2 fun h => ?_).trans rfl⟩
  exact absurd h.name (by decide)

/-- The first process has the flag, and then the second one, too. -/
theorem startup_breaks_exclusion_two :
    ∃ w : Sharing, busyFlag ∈ (w.proc 0).flags bsyConfig ∧ busyFlag ∈ (w.proc 1).flags bsyConfig := by
  let w : Sharing := { disk := busyDisk, proc := Function.update (fun _ => {}) 0 { bsyList := [⟨aka 1, .bsy⟩] } }
  have hheld : busyFlag ∈ (w.proc 0).flags bsyConfig := List.mem_filterMap.mpr
    ⟨⟨aka 1, .bsy⟩, List.mem_singleton_self _, busyFlag_stale.1⟩
  have hdomains : NamedDomains bsyConfig := fun d hd => List.mem_singleton.mp hd ▸ by decide
  have hdomain : getDomainInfo (aka 1).domain bsyConfig.pDomains = some fidonet := rfl
  obtain ⟨r, -, hboth⟩ := startup_breaks_exclusion bsyConfig {} (fun _ => rfl) busyDisk_plain w busyDisk_fits
    busyDisk_dirs hdomain rfl (by decide) ⟨by decide, by decide, by decide, by decide⟩ rfl
    (by decide +kernel) ⟨_, rfl, rfl⟩ ⟨_, rfl, rfl⟩ busyFlag_stale.1 hdomains 0 1 (by decide) hheld 78
  exact ⟨w.acts 1 r, hboth⟩

end Binkd
