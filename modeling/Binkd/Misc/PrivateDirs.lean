import Binkd.Misc.Scan
import Binkd.Misc.Srifreq

/-!
# The private directories (`load_config` of `misc/srifreq.c`)

The value of a line is everything behind its key, and the password is its third word.  So a
line `private <dir> <password>` is looked up as the directory `<dir> <password>` and never adds
the pair that it asks for (`private_dirs`).
-/

namespace Binkd

/-! ### The configuration file -/

/-- A BOM is skipped. -/
def skipBom : Str → Str
  | 0xEF :: 0xBB :: 0xBF :: t => t
  | t => t

/-- What may stand between the key and the value. -/
def separator (c : Byte) : Bool := blank c || c == 61

/-- Does the text of a line go on? -/
def inText (c : Byte) : Bool := c != 35 && c != 13 && c != 10

/-- Removes blanks at the end. -/
def trimBlanks (s : Str) : Str := (s.reverse.dropWhile blank).reverse

/-- `parse_config_line`: the key and the value. -/
def parseConfigLine (line : Str) : Option (Str × Str) :=
  let p := (skipBom line).dropWhile fun c => blank c || c == 13 || c == 10
  if p = [] ∨ p.head? = some 35 ∨ p.head? = some 59 then none
  else
    let key := (p.takeWhile fun c => !separator c).take 63
    if key = [] then none
    else
      let p := (p.drop key.length).dropWhile separator
      let val := trimBlanks ((p.takeWhile inText).take (maxPathLen - 1))
      if val = [] then none else some (key, val)

/-- `config_load`: each entry goes to the front. -/
def configLoad (file : List Byte) : List (Str × Str) :=
  ((readLines file.length file).filterMap parseConfigLine).reverse

/-- `config_lookup`. -/
def configLookup (cache : List (Str × Str)) (key : Str) : Option Str :=
    (cache.find? fun e => e.1 = key).map (·.2)

/-- What `load_config` asks about a path. -/
structure PathKinds where
  isDirectory : Str → Bool
  isRegularFile : Str → Bool

/-- `g_conf` as `load_config` leaves it, and what it has written to `stderr`. -/
structure LoadedConf where
  pubdir : Str
  logfile : Str
  aliases : Str
  trackfile : Str
  maxfiles : Int
  maxbytes : Int
  timewindow : Int
  privdirs : List PrivDir
  messages : List Str

/-- After `config_init`. -/
def LoadedConf.init : LoadedConf := ⟨[], [], [], [], 0, 0, 0, [], []⟩

/-- A key whose value is checked: where it fails, the loading stops. -/
def loadChecked (cache : List (Str × Str)) (key : Str) (good : Str → Bool) (message : Str)
    (put : Str → LoadedConf → LoadedConf) (conf : LoadedConf) : Except LoadedConf LoadedConf :=
  match configLookup cache key with
  | none => .ok conf
  | some val =>
    if good val then .ok (put val conf)
    else .error { conf with messages := conf.messages ++ [message ++ val ++ str "\n"] }

/-- A key whose value is taken as it is. -/
def loadValue (cache : List (Str × Str)) (key : Str) (put : Str → LoadedConf → LoadedConf) (conf : LoadedConf) :
    LoadedConf :=
  match configLookup cache key with
  | none => conf
  | some val => put val conf

/-- The password of a private line: its third word. -/
def thirdWord (line : Str) : Str :=
  (((skipWord line).bind skipWord).bind (scanWord 63)).elim [] (·.1)

theorem path_take_lt (path : Str) : (path.take (maxPathLen - 1)).length < maxPathLen := by
  rw [List.length_take, maxPathLen]
  omega

theorem password_take_ne (password : Str) (h : password ≠ []) : password.take 63 ≠ [] := by
  intro hnil
  rcases List.take_eq_nil_iff.mp hnil with hzero | hnil
  · contradiction
  · exact h hnil

/-- `config_add_private`. -/
def addPrivate (path password : Str) (h : password ≠ []) : PrivDir where
  path := path.take (maxPathLen - 1)
  password := password.take 63
  path_lt := path_take_lt path
  password_ne := password_take_ne password h

/-- What a line of the second reading adds to the private directories. -/
def addedBy (kinds : PathKinds) (line : Str) : Option PrivDir :=
  match parseConfigLine line with
  | none => none
  | some (key, v) =>
    if h : key = str "private" ∧ thirdWord line ≠ [] ∧ kinds.isDirectory v = true then
      some (addPrivate v (thirdWord line) h.2.1)
    else none

/-- What it complains about. -/
def complaint (kinds : PathKinds) (line : Str) : Option Str :=
  match parseConfigLine line with
  | none => none
  | some (key, v) =>
    if key = str "private" ∧ thirdWord line ≠ [] ∧ kinds.isDirectory v = false then
      some (str "srifreq: private path is not a directory: " ++ v ++ str "\n")
    else none

/-- The second reading of the file. -/
def loadPrivate (kinds : PathKinds) (file : List Byte) (conf : LoadedConf) : LoadedConf :=
  let lines := readLines file.length file
  { conf with
    privdirs := conf.privdirs ++ lines.filterMap (addedBy kinds)
    messages := conf.messages ++ lines.filterMap (complaint kinds) }

/-- A name that may stay empty or be `-`. -/
def PathKinds.fileOrDash (kinds : PathKinds) (val : Str) : Bool :=
    val = [] || kinds.isRegularFile val || val = str "-"

/-- A name that may stay empty. -/
def PathKinds.fileOrNone (kinds : PathKinds) (val : Str) : Bool := val = [] || kinds.isRegularFile val

/-- `load_config`: an error is a return of 0. -/
def loadConfig (kinds : PathKinds) (path : Str) (file : Option (List Byte)) :
    Except LoadedConf LoadedConf :=
  match file with
  | none => .error { LoadedConf.init with messages := [str "srifreq: cannot open config: " ++ path ++ str "\n"] }
  | some file => do
    let cache := configLoad file
    let conf ← loadChecked cache (str "pubdir") kinds.isDirectory (str "srifreq: pubdir is not a directory: ")
      (fun val conf => { conf with pubdir := val }) .init
    let conf ← loadChecked cache (str "logfile") kinds.fileOrDash (str "srifreq: logfile is not a regular file: ")
      (fun val conf => { conf with logfile := val }) conf
    let conf ← loadChecked cache (str "aliases") kinds.fileOrDash
      (str "srifreq: aliases file is not a regular file: ") (fun val conf => { conf with aliases := val }) conf
    let conf ← loadChecked cache (str "trackfile") kinds.fileOrNone
      (str "srifreq: trackfile is not a regular file: ") (fun val conf => { conf with trackfile := val }) conf
    let conf := loadValue cache (str "maxfiles") (fun val conf => { conf with maxfiles := atoi val }) conf
    let conf := loadValue cache (str "maxsize") (fun val conf => { conf with maxbytes := parseSize val }) conf
    let conf := loadValue cache (str "timewindow") (fun val conf => { conf with timewindow := parseTime val }) conf
    .ok (loadPrivate kinds file conf)

/-- The private directories that `load_config` leaves behind. -/
def privdirsOf (r : Except LoadedConf LoadedConf) : List PrivDir :=
  match r with
  | .ok conf => conf.privdirs
  | .error conf => conf.privdirs

variable {kinds : PathKinds} {line s t v : Str} {pd : PrivDir} {file : List Byte}

/-! ### The lines that ask for a private directory -/

/-- The next word between blanks and the rest. -/
def textWord (s : Str) : Str × Str := ((skipWs s).takeWhile fun c => !blank c, (skipWs s).dropWhile fun c => !blank c)

/-- The directory and the password of a line `private <dir> <password>`. -/
def pairOf (kinds : PathKinds) (line : Str) : Option (Str × Str) :=
  let (key, s) := textWord ((skipBom line).takeWhile inText)
  let (dir, s) := textWord s
  let (password, s) := textWord s
  if key = str "private" ∧ password ≠ [] ∧ skipWs s = [] ∧
    kinds.isDirectory dir = true then some (dir, password)
  else none

/-- The pairs of the file, in order. -/
def privatePairs (kinds : PathKinds) (file : List Byte) : List (Str × Str) :=
  (readLines file.length file).filterMap (pairOf kinds)

/-- The path and the password of an entry. -/
def PrivDir.pair (pd : PrivDir) : Str × Str := (pd.path, pd.password)

/-- What a line adds that is not the pair it asks for. -/
def strayEntry (kinds : PathKinds) (line : Str) : Option (Str × Str) :=
  ((addedBy kinds line).map (·.pair)).filter fun e => pairOf kinds line ≠ some e

/-! ### A line never adds the pair it asks for -/

theorem trimBlanks_split (s : Str) : ∃ b, s = trimBlanks s ++ b ∧ ∀ c ∈ b, blank c = true := by
  refine ⟨(s.reverse.takeWhile blank).reverse, ?_, ?_⟩
  · unfold trimBlanks
    rw [← List.reverse_append, List.takeWhile_append_dropWhile, List.reverse_reverse]
  · intro c hc
    exact List.mem_takeWhile_imp (List.mem_reverse.mp hc)

theorem trimBlanks_initial (s : Str) : trimBlanks s <+: s := by
  obtain ⟨b, hb, -⟩ := trimBlanks_split s
  exact ⟨b, hb.symm⟩

theorem skipWs_nil (h : ∀ c ∈ s, blank c = true) : skipWs s = [] := List.dropWhile_eq_nil_iff.mpr h

/-- Blanks are skipped up to a byte that is none, whatever stands behind it. -/
theorem skip_from_blanks {q : Byte → Bool} (hq : ∀ c, blank c = true → q c = true) :
    ∀ s : Str, skipWs s ≠ [] → (s ++ t).dropWhile q = (skipWs s ++ t).dropWhile q := by
  intro s
  induction s with
  | nil =>
    intro h
    exact absurd rfl h
  | cons c s ih =>
    intro h
    unfold skipWs at h ih ⊢
    by_cases hc : blank c = true
    · rw [List.dropWhile_cons_of_pos hc] at h ⊢
      rw [List.cons_append, List.dropWhile_cons_of_pos (hq c hc)]
      exact ih h
    · rw [List.dropWhile_cons_of_neg hc]

theorem head_dropWhile {q : Byte → Bool} {c : Byte} {s : Str} (h : (s.dropWhile q).head? = some c) :
    q c = false := by
  have hnot := List.head?_dropWhile_not q s
  rwa [h] at hnot

theorem textWord_split (s : Str) : skipWs s = (textWord s).1 ++ (textWord s).2 :=
  List.takeWhile_append_dropWhile.symm

theorem skipBom_suffix (line : Str) : skipBom line <:+ line := by
  unfold skipBom
  split
  · exact ⟨[0xEF, 0xBB, 0xBF], rfl⟩
  · exact List.suffix_refl _

theorem value_length {key : Str} (hv : parseConfigLine line = some (key, v)) :
    v.length ≤ maxPathLen - 1 := by
  unfold parseConfigLine at hv
  dsimp only at hv
  split_ifs at hv
  rw [← (Prod.mk.inj (Option.some.inj hv)).2]
  exact (trimBlanks_initial _).length_le.trans (List.length_take_le _ _)

/-- A line whose text begins with the word `private`. -/
theorem parsed_private {text tail rest : Str} (hline : skipBom line = text ++ tail)
    (hword : skipWs text = str "private" ++ rest)
    (hv : parseConfigLine line = some (str "private", v)) :
    v ≠ [] ∧
      v = trimBlanks ((((rest ++ tail).dropWhile separator).takeWhile inText).take (maxPathLen - 1)) := by
  have hp : (skipBom line).dropWhile (fun c => blank c || c == 13 || c == 10) = str "private" ++ (rest ++ tail) := by
    rw [hline, skip_from_blanks (fun c hc => by rw [hc, Bool.true_or, Bool.true_or]) text (by rw [hword]; exact List.cons_ne_nil _ _),
      hword, List.append_assoc]
    rfl
  unfold parseConfigLine at hv
  dsimp only at hv
  rw [hp] at hv
  split_ifs at hv with hnone hnokey hnoval
  obtain ⟨hk, hval⟩ := Prod.mk.inj (Option.some.inj hv)
  have hdrop : (str "private" ++ (rest ++ tail)).drop (str "private").length = rest ++ tail :=
    List.drop_left
  rw [hk, hdrop] at hval hnoval
  exact ⟨hval ▸ hnoval, hval.symm⟩

/-- The value of a line with a password is not its directory: it holds the password too. -/
theorem value_ne_dir {rest behind : Str} (hlen : line.length < maxPathLen)
    (hword : skipWs ((skipBom line).takeWhile inText) = str "private" ++ rest) (hdir : skipWs rest = v ++ behind)
    (hpassword : skipWs behind ≠ []) : parseConfigLine line ≠ some (str "private", v) := by
  intro hv
  obtain ⟨hne, hval⟩ := parsed_private List.takeWhile_append_dropWhile.symm hword hv
  rw [skip_from_blanks (fun c hc => by rw [separator, hc, Bool.true_or]) rest
    (by rw [hdir]; exact List.append_ne_nil_of_left_ne_nil hne _), hdir] at hval
  -- the value, and so the directory, begins with no separator
  have hstart : (v ++ behind ++ (skipBom line).dropWhile inText).dropWhile separator =
      v ++ behind ++ (skipBom line).dropWhile inText := by
    obtain ⟨c, v', rfl⟩ := List.exists_cons_of_ne_nil hne
    apply List.dropWhile_cons_of_neg
    have hbegins : c :: v' <+: (c :: v' ++ behind ++ (skipBom line).dropWhile inText).dropWhile separator := by
      nth_rewrite 1 [hval]
      exact ((trimBlanks_initial _).trans (List.take_prefix _ _)).trans (List.takeWhile_prefix _)
    obtain ⟨r, hr⟩ := hbegins
    have hnosep : separator c = false := head_dropWhile (by rw [← hr]; rfl)
    rw [hnosep]
    exact Bool.false_ne_true
  have hsub : v ++ behind <:+ (skipBom line).takeWhile inText := by
    have hrest : rest <:+ skipWs ((skipBom line).takeWhile inText) := hword ▸ List.suffix_append _ _
    have hskip : skipWs rest <:+ rest := List.dropWhile_suffix _
    exact hdir ▸ hskip.trans (hrest.trans (List.dropWhile_suffix _))
  have hvalue : (v ++ behind ++ (skipBom line).dropWhile inText).takeWhile inText = v ++ behind := by
    have hend : ((skipBom line).dropWhile inText).takeWhile inText = [] := by
      cases hd : (skipBom line).dropWhile inText with
      | nil => rfl
      | cons c r => exact List.takeWhile_cons_of_neg (by simp [head_dropWhile (c := c) (by rw [hd]; rfl)])
    rw [List.takeWhile_append_of_pos fun c hc => List.mem_takeWhile_imp (hsub.subset hc),
      hend, List.append_nil]
  have hfits : (v ++ behind).length ≤ maxPathLen - 1 := by
    have hbom : skipBom line <:+ line := skipBom_suffix line
    have h1 := hsub.length_le
    have h2 := (List.takeWhile_prefix inText (l := skipBom line)).length_le
    have h3 := hbom.length_le
    omega
  rw [hstart, hvalue, List.take_of_length_le hfits] at hval
  obtain ⟨b, hb, hblank⟩ := trimBlanks_split (v ++ behind)
  rw [← hval] at hb
  exact hpassword (skipWs_nil (List.append_cancel_left hb ▸ hblank))

/-- What a line adds is not the pair it asks for. -/
theorem addedBy_stray (hlen : line.length < maxPathLen) (h : addedBy kinds line = some pd) :
    pairOf kinds line ≠ some pd.pair := by
  intro hpair
  unfold addedBy at h
  cases hv : parseConfigLine line with
  | none => simp [hv] at h
  | some e =>
    obtain ⟨key, v⟩ := e
    rw [hv] at h
    dsimp only at h
    split_ifs at h with hadds
    have hpath : pd.path = v := by
      rw [← Option.some.inj h]
      exact List.take_of_length_le (value_length hv)
    obtain rfl : key = str "private" := hadds.1
    unfold pairOf at hpair
    dsimp only at hpair
    split_ifs at hpair with hasks
    obtain ⟨hkey, hpassword, -, -⟩ := hasks
    have hdir : (textWord (textWord ((skipBom line).takeWhile inText)).2).1 = v := by
      rw [← hpath]
      exact (Prod.mk.inj (Option.some.inj hpair)).1
    have hword := textWord_split ((skipBom line).takeWhile inText)
    have hrest := textWord_split (textWord ((skipBom line).takeWhile inText)).2
    rw [hkey] at hword
    rw [hdir] at hrest
    refine value_ne_dir hlen hword hrest ?_ hv
    intro hnil
    rw [textWord, hnil] at hpassword
    exact hpassword rfl

/-- So everything that is added is a stray entry. -/
theorem strayEntry_eq (hlen : line.length < maxPathLen) :
    strayEntry kinds line = (addedBy kinds line).map (·.pair) := by
  unfold strayEntry
  cases h : addedBy kinds line with
  | none => rfl
  | some pd => simp [addedBy_stray hlen h]

variable {path key message : Str} {cache : List (Str × Str)} {good : Str → Bool} {put : Str → LoadedConf → LoadedConf}
  {conf : LoadedConf}

/-! ### What is loaded -/

/-- The paths that the file gives pass their checks. -/
structure PathsChecked (kinds : PathKinds) (file : List Byte) : Prop where
  pubdir : (configLookup (configLoad file) (str "pubdir")).all kinds.isDirectory = true
  logfile : (configLookup (configLoad file) (str "logfile")).all kinds.fileOrDash = true
  aliases : (configLookup (configLoad file) (str "aliases")).all kinds.fileOrDash = true
  trackfile : (configLookup (configLoad file) (str "trackfile")).all kinds.fileOrNone = true

theorem loadValue_privdirs (hput : ∀ val conf, (put val conf).privdirs = conf.privdirs) :
    (loadValue cache key put conf).privdirs = conf.privdirs := by
  unfold loadValue
  cases configLookup cache key with
  | none => rfl
  | some val => exact hput val conf

theorem loadChecked_ok (h : (configLookup cache key).all good = true) :
    loadChecked cache key good message put conf = .ok (loadValue cache key put conf) := by
  unfold loadChecked loadValue
  cases hval : configLookup cache key with
  | none => rfl
  | some val =>
    rw [hval] at h
    exact if_pos h

theorem loadChecked_stops (h : (configLookup cache key).all good = false) :
    ∃ val, loadChecked cache key good message put conf =
      .error { conf with messages := conf.messages ++ [message ++ val ++ str "\n"] } := by
  unfold loadChecked
  cases hval : configLookup cache key with
  | none =>
    rw [hval] at h
    contradiction
  | some val =>
    rw [hval] at h
    refine ⟨val, if_neg ?_⟩
    rw [show good val = false from h]
    exact Bool.false_ne_true

/-- Where the checks pass, the lines give the list. -/
theorem privdirs_loaded (h : PathsChecked kinds file) : privdirsOf (loadConfig kinds path (some file)) =
    (readLines file.length file).filterMap (addedBy kinds) := by
  unfold loadConfig
  dsimp only [bind, Except.bind]
  rw [loadChecked_ok h.pubdir]
  dsimp only
  rw [loadChecked_ok h.logfile]
  dsimp only
  rw [loadChecked_ok h.aliases]
  dsimp only
  rw [loadChecked_ok h.trackfile]
  dsimp only [privdirsOf, loadPrivate]
  simp only [loadValue_privdirs, implies_true]
  rfl

/-- A check that fails stops the loading with what has been loaded before. -/
theorem loadChecked_bind (f : LoadedConf → Except LoadedConf LoadedConf) (hconf : conf.privdirs = [])
    (hput : ∀ val conf, (put val conf).privdirs = conf.privdirs)
    (hf : (configLookup cache key).all good = true → ∀ conf', conf'.privdirs = [] → privdirsOf (f conf') = []) :
    privdirsOf ((loadChecked cache key good message put conf).bind f) = [] := by
  by_cases hgood : (configLookup cache key).all good = true
  · rw [loadChecked_ok hgood]
    exact hf hgood _ ((loadValue_privdirs hput).trans hconf)
  · obtain ⟨val, hstop⟩ := loadChecked_stops (Bool.eq_false_iff.mpr hgood)
    rw [hstop]
    exact hconf

/-- Where one fails, there is none. -/
theorem privdirs_stopped (h : ¬ PathsChecked kinds file) :
    privdirsOf (loadConfig kinds path (some file)) = [] := by
  refine loadChecked_bind _ rfl (fun _ _ => rfl) fun hpubdir conf hconf => ?_
  refine loadChecked_bind _ hconf (fun _ _ => rfl) fun hlogfile conf hconf => ?_
  refine loadChecked_bind _ hconf (fun _ _ => rfl) fun haliases conf hconf => ?_
  refine loadChecked_bind _ hconf (fun _ _ => rfl) fun htrackfile conf hconf => ?_
  exact absurd ⟨hpubdir, hlogfile, haliases, htrackfile⟩ h

/-- The list is the list of the pairs that the lines ask for. -/
def PrivdirsRight (kinds : PathKinds) (path : Str) (file : List Byte) : Prop :=
  (privdirsOf (loadConfig kinds path (some file))).map (·.pair) = privatePairs kinds file

instance : Decidable (PrivdirsRight kinds path file) := by
  unfold PrivdirsRight
  infer_instance

theorem entries_stray : ((readLines file.length file).filterMap (addedBy kinds)).map (·.pair) =
    (readLines file.length file).filterMap (strayEntry kinds) := by
  rw [List.map_filterMap]
  apply List.filterMap_congr
  intro line hline
  exact (strayEntry_eq ((readLines_length _ _ hline).trans (by decide))).symm

/-- The only directory is `/priv`. -/
def privOnly : PathKinds := ⟨fun p => p = str "/priv", fun _ => false⟩

end Binkd
