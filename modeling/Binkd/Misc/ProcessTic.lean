import Binkd.Identity
import Binkd.Misc.Portable

/-!
# Files that come with a ticket (`misc/process_tic.c`)

A `.tic` file in the inbound names a file that came with it and the area it belongs to.
`process_one_tic` moves the file into the directory of the area below the filebox, and may
copy it to a public directory before.  File and area are texts of the remote, and no separator
in them is refused: the file stays in its directories only if the two do not lead elsewhere
(`tic_contained`).
-/

namespace Binkd

open Lib

structure TicConfig where
  inbound : Str
  filebox : Str
  pubdir : Str
  logfile : Str
  filelist : Str
  newfiles : Str
  ticlog : Str
  copypublic : Bool
  inbound_ne : inbound ≠ []
  filebox_ne : filebox ≠ []
  inbound_lt : inbound.length < maxPathLen
  filebox_lt : filebox.length < maxPathLen
  pubdir_lt : pubdir.length < maxPathLen

/-- The calls to the file system, with what each is made for. -/
inductive TicCall
  | stat (path : Str)
  /-- on the way to a configured directory -/
  | mkdir (path : Str)
  /-- on the way to the directory of the area -/
  | mkdirArea (path : Str)
  | copyPublic (src dst : Str)
  /-- `move_file`: the target is removed first, and copied where it cannot be renamed -/
  | removeTarget (path : Str)
  | rename (src dst : Str)
  | copyTarget (src dst : Str)
  | removeSource (path : Str)
  | append (path : Str)
  | removeTic (path : Str)
deriving DecidableEq

/-! ### Reading the ticket -/

/-- `parse_keyword_field`: the value of the field, if the line has it. -/
def parseKeywordField (line keyword : Str) (outsize : Nat) : Option Str :=
  let p := skipWs line
  if !sameNoCase (p.take keyword.length) keyword then none
  else match p.drop keyword.length with
    | [] => none
    | c :: rest =>
      if !blank c then none
      else
        let value := (trimNl (skipWs (c :: rest))).takeWhile fun c => !blank c
        if value = [] ∨ outsize ≤ value.length then none else some value

structure TicFields where
  file : Str := []
  area : Str := []
  origin : Str := []
  sender : Str := []

/-- A field is taken from the first line that has it. -/
def readField (keyword line value : Str) : Str :=
  if value = [] then (parseKeywordField line keyword maxPathLen).getD [] else value

/-- The loop over the lines.  A line has at most one of the keywords, so it does not matter that
`parse_keyword_field` cuts the line behind the value. -/
def parseTic (lines : List Str) : TicFields :=
  lines.foldl (fun t line =>
    ⟨readField (str "File") line t.file, readField (str "Area") line t.area,
      readField (str "Origin") line t.origin, readField (str "From") line t.sender⟩) {}

/-! ### Directories -/

/-- A slash or a backslash. -/
def isSep (c : Byte) : Bool := c == 47 || c == 92

/-- Backslashes become slashes. -/
def slashes (s : Str) : Str := s.map fun c => if c = 92 then 47 else c

/-- Strips the separators at the end, but leaves one byte. -/
def stripSeps (s : Str) : Str :=
  let r := (s.reverse.dropWhile isSep).reverse
  if r = [] then s.take 1 else r

/-- The loop of `mkdir_recursive` over the components of the path. -/
def mkdirWalk (mk : Str → TicCall) (fs : FileSystem TicCall) (done : Str) :
    Str → List TicCall → Str × List TicCall
  | [], log => (done, log)
  | c :: rest, log =>
    if isSep c then
      mkdirWalk mk fs (done ++ [47]) rest
        (if fs.pathExists log done then .stat done :: log else mk done :: .stat done :: log)
    else mkdirWalk mk fs (done ++ [c]) rest log

/-- `mkdir_recursive`. -/
def mkdirRecursive (mk : Str → TicCall) (fs : FileSystem TicCall) (path : Str) (log : List TicCall) :
    Bool × List TicCall :=
  if path = [] then (false, log)
  else
    let tmp := stripSeps (path.take 511)
    let (tmp, log) := mkdirWalk mk fs (tmp.take 1) (tmp.drop 1) log
    if fs.pathExists log tmp then (true, .stat tmp :: log)
    else (fs.ok (.stat tmp :: log) (mk tmp), mk tmp :: .stat tmp :: log)

/-- `ensure_dir`. -/
def ensureDir (mk : Str → TicCall) (fs : FileSystem TicCall) (path : Str) (log : List TicCall) :
    Bool × List TicCall :=
  if fs.pathExists log path then (true, .stat path :: log)
  else mkdirRecursive mk fs path (.stat path :: log)

/-- The path that `mkdir_recursive` works on: it turns the backslashes behind the first byte into
slashes. -/
def walked (s : Str) : Str := s.take 1 ++ slashes (s.drop 1)

theorem walked_isPrefix {a b : Str} (h : a <+: b) : walked a <+: walked b := by
  obtain ⟨r, rfl⟩ := h
  cases a with
  | nil => exact List.nil_prefix
  | cons c a =>
    refine ⟨slashes r, ?_⟩
    simp [walked, slashes]

theorem stripSeps_isPrefix (s : Str) : stripSeps s <+: s := by
  unfold stripSeps
  dsimp only
  split_ifs
  · exact List.take_prefix 1 s
  · have hsuffix := List.dropWhile_suffix (l := s.reverse) isSep
    rw [← List.reverse_prefix, List.reverse_reverse] at hsuffix
    exact hsuffix

/-- The path that is made in the end. -/
def madePath (path : Str) : Str := walked (stripSeps (path.take 511))

theorem madePath_isPrefix (path : Str) : madePath path <+: walked path := by
  have htake := List.take_prefix 511 path
  exact walked_isPrefix ((stripSeps_isPrefix _).trans htake)

/-- A directory that is made on the way: the path, or what is before a slash of it. -/
def OnTheWay (path p : Str) : Prop := p = madePath path ∨ ∃ q, madePath path = p ++ 47 :: q

theorem OnTheWay.isPrefix {path p : Str} (h : OnTheWay path p) : p <+: walked path := by
  rcases h with rfl | ⟨q, hq⟩
  · exact madePath_isPrefix path
  · exact (hq ▸ List.prefix_append p _).trans (madePath_isPrefix path)

section

variable {mk : Str → TicCall} {fs : FileSystem TicCall} {log : List TicCall} {call : TicCall}

theorem mkdirWalk_path (done rest : Str) : (mkdirWalk mk fs done rest log).1 = done ++ slashes rest := by
  induction rest generalizing done log with
  | nil => simp [mkdirWalk, slashes]
  | cons c rest ih =>
    rw [mkdirWalk]
    by_cases hc : isSep c
    · have h47 : (if c = 92 then 47 else c) = 47 := by
        by_cases h : c = 92
        · rw [if_pos h]
        · rw [if_neg h]
          simpa [isSep, h] using hc
      rw [if_pos hc, ih, List.append_assoc]
      simp [slashes, h47]
    · have h92 : c ≠ 92 := by
        rintro rfl
        exact hc rfl
      rw [if_neg hc, ih, List.append_assoc]
      simp [slashes, h92]

/-- The loop asks for paths and makes those that stand before a slash. -/
theorem mkdirWalk_calls {done rest : Str} (h : call ∈ (mkdirWalk mk fs done rest log).2) :
    call ∈ log ∨ (∃ p, call = .stat p) ∨ ∃ p q, call = mk p ∧ done ++ slashes rest = p ++ 47 :: q := by
  induction rest generalizing done log with
  | nil => exact .inl h
  | cons c rest ih =>
    rw [mkdirWalk] at h
    by_cases hc : isSep c
    · have h47 : (if c = 92 then 47 else c) = 47 := by
        by_cases h : c = 92
        · rw [if_pos h]
        · rw [if_neg h]
          simpa [isSep, h] using hc
      have hpath : done ++ slashes (c :: rest) = done ++ 47 :: slashes rest := by simp [slashes, h47]
      rw [if_pos hc] at h
      rw [hpath]
      rcases ih h with hmem | hstat | ⟨p, q, hcall, hsplit⟩
      · split_ifs at hmem
        · rcases List.mem_cons.mp hmem with rfl | hmem
          · exact .inr (.inl ⟨done, rfl⟩)
          · exact .inl hmem
        · rcases List.mem_cons.mp hmem with rfl | hmem
          · exact .inr (.inr ⟨done, slashes rest, rfl, rfl⟩)
          · rcases List.mem_cons.mp hmem with rfl | hmem
            · exact .inr (.inl ⟨done, rfl⟩)
            · exact .inl hmem
      · exact .inr (.inl hstat)
      · refine .inr (.inr ⟨p, q, hcall, ?_⟩)
        rw [← hsplit]
        simp
    · have h92 : c ≠ 92 := by
        rintro rfl
        exact hc rfl
      have hpath : done ++ slashes (c :: rest) = done ++ [c] ++ slashes rest := by simp [slashes, h92]
      rw [if_neg hc] at h
      rw [hpath]
      exact ih h

theorem mkdirWalk_log (done rest : Str) : log <:+ (mkdirWalk mk fs done rest log).2 := by
  induction rest generalizing done log with
  | nil => exact List.suffix_refl log
  | cons c rest ih =>
    rw [mkdirWalk]
    split_ifs
    · exact (List.suffix_cons _ _).trans (ih _)
    · exact ((List.suffix_cons _ _).trans (List.suffix_cons _ _)).trans (ih _)
    · exact ih _

theorem ensureDir_calls {path : Str} (h : call ∈ (ensureDir mk fs path log).2) :
    call ∈ log ∨ (∃ p, call = .stat p) ∨ ∃ p, call = mk p ∧ OnTheWay path p := by
  unfold ensureDir at h
  split_ifs at h
  · rcases List.mem_cons.mp h with rfl | h
    · exact .inr (.inl ⟨path, rfl⟩)
    · exact .inl h
  · unfold mkdirRecursive at h
    split_ifs at h
    · rcases List.mem_cons.mp h with rfl | h
      · exact .inr (.inl ⟨path, rfl⟩)
      · exact .inl h
    · have hpath := @mkdirWalk_path mk fs (.stat path :: log)
        ((stripSeps (path.take 511)).take 1) ((stripSeps (path.take 511)).drop 1)
      have hwalk : ∀ c ∈ (mkdirWalk mk fs ((stripSeps (path.take 511)).take 1)
          ((stripSeps (path.take 511)).drop 1) (.stat path :: log)).2,
          c ∈ log ∨ (∃ p, c = .stat p) ∨ ∃ p, c = mk p ∧ OnTheWay path p := by
        intro c hc
        rcases mkdirWalk_calls hc with hmem | hstat | ⟨p, q, hcall, hsplit⟩
        · rcases List.mem_cons.mp hmem with rfl | hmem
          · exact .inr (.inl ⟨path, rfl⟩)
          · exact .inl hmem
        · exact .inr (.inl hstat)
        · exact .inr (.inr ⟨p, hcall, .inr ⟨q, hsplit⟩⟩)
      dsimp only at h
      split_ifs at h
      · rcases List.mem_cons.mp h with rfl | h
        · exact .inr (.inl ⟨_, rfl⟩)
        · exact hwalk _ h
      · rcases List.mem_cons.mp h with rfl | h
        · exact .inr (.inr ⟨_, rfl, .inl hpath⟩)
        · rcases List.mem_cons.mp h with rfl | h
          · exact .inr (.inl ⟨_, rfl⟩)
          · exact hwalk _ h

theorem ensureDir_log (path : Str) : log <:+ (ensureDir mk fs path log).2 := by
  have hwalk := @mkdirWalk_log mk fs (.stat path :: log)
    ((stripSeps (path.take 511)).take 1) ((stripSeps (path.take 511)).drop 1)
  have hsub := (List.suffix_cons (TicCall.stat path) log).trans hwalk
  unfold ensureDir mkdirRecursive
  split_ifs
  · exact List.suffix_cons _ _
  · exact List.suffix_cons _ _
  · dsimp only
    split_ifs
    · exact hsub.trans (List.suffix_cons _ _)
    · exact hsub.trans ((List.suffix_cons _ _).trans (List.suffix_cons _ _))

end

/-! ### Files -/

/-- `path_find_ci`. -/
def pathFindCi (fs : FileSystem TicCall) (dir name : Str) (log : List TicCall) : Option Str :=
  match fs.readdir log dir with
  | none => none
  | some names =>
    (names.find? fun n => sameNoCase n name && fs.isRegularFile log (pathJoin maxPathLen dir n)).map
      (pathJoin maxPathLen dir)

/-- `move_file`. -/
def moveFile (fs : FileSystem TicCall) (src dst : Str) (log : List TicCall) : Bool × List TicCall :=
  let log := .removeTarget dst :: log
  if fs.ok log (.rename src dst) then (true, .rename src dst :: log)
  else
    let log := .rename src dst :: log
    if fs.ok log (.copyTarget src dst) then (true, .removeSource src :: .copyTarget src dst :: log)
    else (false, .copyTarget src dst :: log)

/-- Where the file is: under its name, or under one that differs in case. -/
def findSource (cfg : TicConfig) (fs : FileSystem TicCall) (file : Str) : Option Str × List TicCall :=
  let src := pathJoin maxPathLen cfg.inbound file
  if fs.pathExists [] src then (some src, [.stat src])
  else (pathFindCi fs cfg.inbound file [.stat src], [.stat src])

/-- The copy in the public directory; it is given up, without a failure, where that directory
cannot be made. -/
def publish (cfg : TicConfig) (fs : FileSystem TicCall) (src file : Str) (log : List TicCall) :
    Bool × List TicCall :=
  if cfg.copypublic ∧ cfg.pubdir ≠ [] then
    match ensureDir .mkdir fs cfg.pubdir log with
    | (false, log) => (true, log)
    | (true, log) =>
      let call := .copyPublic src (pathJoin maxPathLen cfg.pubdir file)
      (fs.ok log call, call :: log)
  else (true, log)

/-- The file of the day in the directory for new files. -/
def newfilesPath (cfg : TicConfig) (date : Str) : Str :=
  (pathJoin maxPathLen cfg.newfiles (str "newfiles-") ++ date ++ str ".txt").take (maxPathLen - 1)

/-- A line for each of the logs that are configured. -/
def appendLogs (cfg : TicConfig) (fs : FileSystem TicCall) (date : Str) (log : List TicCall) :
    List TicCall :=
  let log := if cfg.ticlog = [] then log else .append cfg.ticlog :: log
  let log := if cfg.logfile = [] then log else .append cfg.logfile :: log
  let log := if cfg.filelist = [] then log else .append cfg.filelist :: log
  if cfg.newfiles = [] then log
  else .append (newfilesPath cfg date) :: (ensureDir .mkdir fs cfg.newfiles log).2

/-- The directory of an area. -/
def areaDir (cfg : TicConfig) (area : Str) : Str := pathJoin maxPathLen cfg.filebox area

/-- `process_one_tic` for a ticket that names a file and an area: the calls, newest first. -/
def processFields (cfg : TicConfig) (fs : FileSystem TicCall) (date ticpath file area : Str) :
    List TicCall :=
  match findSource cfg fs file with
  | (none, log) => log
  | (some src, log) =>
    match ensureDir .mkdir fs cfg.filebox log with
    | (false, log) => log
    | (true, log) =>
      match ensureDir .mkdirArea fs (areaDir cfg area) log with
      | (false, log) => log
      | (true, log) =>
        match publish cfg fs src file log with
        | (false, log) => log
        | (true, log) =>
          match moveFile fs src (pathJoin maxPathLen (areaDir cfg area) file) log with
          | (false, log) => log
          | (true, log) => .removeTic ticpath :: appendLogs cfg fs date log

/-- `process_one_tic`. -/
def processOneTic (cfg : TicConfig) (fs : FileSystem TicCall) (date ticpath : Str) (content : List Byte) :
    List TicCall :=
  let t := parseTic (readLines content.length content)
  if t.file = [] ∨ t.area = [] then [] else processFields cfg fs date ticpath t.file t.area

/-! ### Where the calls stay -/

/-- The path lies directly in the directory of the area, and that lies below the filebox. -/
def InArea (cfg : TicConfig) (area p : Str) : Prop :=
  Below 47 46 cfg.filebox (areaDir cfg area) ∧ DirectlyIn 47 46 (areaDir cfg area) p

/-- The call keeps to its directories.  Directories are made on the way to the configured ones,
and on the way to the filebox and from there without a step up. -/
def TicCall.Contained (cfg : TicConfig) (date ticpath area : Str) : TicCall → Prop
  | .stat _ => True
  | .mkdir p => ∃ d ∈ [cfg.filebox, cfg.pubdir, cfg.newfiles], p <+: walked d
  | .mkdirArea p => (p <+: walked cfg.filebox ∨ walked cfg.filebox <+: p) ∧
      [46, 46] ∉ components 47 46 (p.drop cfg.filebox.length)
  | .copyPublic src dst => DirectlyIn 47 46 cfg.inbound src ∧ DirectlyIn 47 46 cfg.pubdir dst
  | .removeTarget p => InArea cfg area p
  | .rename src dst => DirectlyIn 47 46 cfg.inbound src ∧ InArea cfg area dst
  | .copyTarget src dst => DirectlyIn 47 46 cfg.inbound src ∧ InArea cfg area dst
  | .removeSource p => DirectlyIn 47 46 cfg.inbound p
  | .append p => p ∈ [cfg.ticlog, cfg.logfile, cfg.filelist, newfilesPath cfg date]
  | .removeTic p => p = ticpath

/-- What fits of the name behind the directory is one name, and `path_join` puts it in there. -/
def PlainIn (dir name : Str) : Prop :=
  Joins dir (fit maxPathLen dir name) ∧ (components 47 46 (fit maxPathLen dir name)).length = 1 ∧
    [46, 46] ∉ components 47 46 (fit maxPathLen dir name)

theorem plainIn_iff (dir name : Str) : (Joins dir (fit maxPathLen dir name) ∧
    (components 47 46 (fit maxPathLen dir name)).length = 1 ∧
    (components 47 46 (fit maxPathLen dir name)).all (fun c => c ≠ [46, 46]) = true) ↔ PlainIn dir name := by
  rw [PlainIn, List.all_eq_true]
  refine and_congr_right' (and_congr_right' ⟨fun hall hmem => ?_, fun hno c hc => ?_⟩)
  · exact of_decide_eq_true (hall _ hmem) rfl
  · exact decide_eq_true fun heq => hno (heq ▸ hc)

instance (dir name : Str) : Decidable (PlainIn dir name) := decidable_of_iff _ (plainIn_iff dir name)

/-- The file and the area of a ticket do not lead out of the directories. -/
structure TicSafe (cfg : TicConfig) (file area : Str) : Prop where
  source : PlainIn cfg.inbound file
  area_joins : Joins cfg.filebox (fit maxPathLen cfg.filebox area)
  area_ne : components 47 46 (fit maxPathLen cfg.filebox area) ≠ []
  area_up : [46, 46] ∉ components 47 46 (fit maxPathLen cfg.filebox area)
  /-- nor where backslashes are read as slashes -/
  made_up : [46, 46] ∉ components 47 46 ((madePath (areaDir cfg area)).drop cfg.filebox.length)
  target : PlainIn (areaDir cfg area) file
  inPublic : cfg.copypublic = true → cfg.pubdir ≠ [] → PlainIn cfg.pubdir file

section

variable {cfg : TicConfig} {fs : FileSystem TicCall} {date ticpath file area : Str}

theorem areaDir_lt (cfg : TicConfig) (area : Str) : (areaDir cfg area).length < maxPathLen :=
  pathJoin_length cfg.filebox_lt area

theorem filebox_isPrefix (cfg : TicConfig) (area : Str) : cfg.filebox <+: areaDir cfg area := by
  unfold areaDir
  rcases pathJoin_fit cfg.filebox_lt area with ⟨hjoin, -⟩ | ⟨hjoin, -⟩ | ⟨hjoin, -⟩
  · exact hjoin ▸ List.prefix_append _ _
  · exact hjoin ▸ List.prefix_append _ _
  · rw [hjoin]

/-- `TicSafe` in terms of the paths. -/
theorem ticSafe_iff : TicSafe cfg file area ↔
    DirectlyIn 47 46 cfg.inbound (pathJoin maxPathLen cfg.inbound file) ∧
    InArea cfg area (pathJoin maxPathLen (areaDir cfg area) file) ∧
    (cfg.copypublic = true → cfg.pubdir ≠ [] →
      DirectlyIn 47 46 cfg.pubdir (pathJoin maxPathLen cfg.pubdir file)) ∧
    [46, 46] ∉ components 47 46 ((madePath (areaDir cfg area)).drop cfg.filebox.length) := by
  constructor
  · intro h
    refine ⟨(directlyIn_pathJoin cfg.inbound_lt).mpr h.source, ⟨?_, ?_⟩, fun hcopy hpub => ?_, h.made_up⟩
    · exact (below_pathJoin cfg.filebox_lt).mpr ⟨h.area_joins, h.area_ne, h.area_up⟩
    · exact (directlyIn_pathJoin (areaDir_lt cfg area)).mpr h.target
    · exact (directlyIn_pathJoin cfg.pubdir_lt).mpr (h.inPublic hcopy hpub)
  · rintro ⟨hsource, ⟨hbelow, htarget⟩, hpublic, hmade⟩
    obtain ⟨hjoins, hne, hup⟩ := (below_pathJoin cfg.filebox_lt).mp hbelow
    exact ⟨(directlyIn_pathJoin cfg.inbound_lt).mp hsource, hjoins, hne, hup, hmade,
      (directlyIn_pathJoin (areaDir_lt cfg area)).mp htarget,
      fun hcopy hpub => (directlyIn_pathJoin cfg.pubdir_lt).mp (hpublic hcopy hpub)⟩

/-! ### A name in another case -/

theorem toupper_slash {c : Byte} : toupper c = 47 ↔ c = 47 :=
  forall_byte (p := fun c => toupper c = 47 ↔ c = 47) (by decide +kernel) c

theorem toupper_dot {c : Byte} : toupper c = 46 ↔ c = 46 :=
  forall_byte (p := fun c => toupper c = 46 ↔ c = 46) (by decide +kernel) c

theorem map_toupper_dots {l : Str} {k : ℕ} : l.map toupper = List.replicate k 46 ↔
    l = List.replicate k 46 := by
  rw [List.eq_replicate_iff, List.eq_replicate_iff, List.length_map]
  refine and_congr_right fun _ => ⟨fun h c hc => ?_, fun h c hc => ?_⟩
  · exact toupper_dot.mp (h _ (List.mem_map_of_mem hc))
  · obtain ⟨d, hd, rfl⟩ := List.mem_map.mp hc
    exact toupper_dot.mpr (h d hd)

theorem sameNoCase_slash {a b : Str} (h : sameNoCase a b = true) (ha : 47 ∉ a) : 47 ∉ b := by
  intro hb
  have hmap : a.map toupper = b.map toupper := of_decide_eq_true h
  have hmem : (47 : Byte) ∈ a.map toupper := by
    rw [hmap]
    exact List.mem_map.mpr ⟨47, hb, by decide⟩
  obtain ⟨c, hc, hc47⟩ := List.mem_map.mp hmem
  rw [toupper_slash.mp hc47] at hc
  exact ha hc

/-- A file that is found in the directory lies as plainly in it as the name asked for. -/
theorem directlyIn_sameNoCase {dir name n : Str} (hdir : dir.length < maxPathLen) (hn : 47 ∉ n)
    (hsame : sameNoCase n name = true) (hname : DirectlyIn 47 46 dir (pathJoin maxPathLen dir name)) :
    DirectlyIn 47 46 dir (pathJoin maxPathLen dir n) := by
  rw [directlyIn_pathJoin hdir] at hname ⊢
  obtain ⟨hjoins, hone, hup⟩ := hname
  obtain ⟨m, hcomps⟩ := List.length_eq_one_iff.mp hone
  rw [hcomps] at hup
  have hslash : ∀ {s : Str}, 47 ∉ s → (47 : Byte) ∉ fit maxPathLen dir s :=
    fun hs hmem => hs (List.mem_of_mem_take hmem)
  have hmap : (fit maxPathLen dir n).map toupper = (fit maxPathLen dir name).map toupper := by
    have h : n.map toupper = name.map toupper := of_decide_eq_true hsame
    unfold fit
    dsimp only
    rw [List.map_take, List.map_take, h]
  have hdots : ∀ k, fit maxPathLen dir n = List.replicate k 46 ↔
      fit maxPathLen dir name = List.replicate k 46 := by
    intro k
    rw [← map_toupper_dots, hmap, map_toupper_dots]
  have h0 := hdots 0
  have h1 := hdots 1
  have h2 := hdots 2
  simp only [List.replicate] at h0 h1 h2
  rw [components_name _ _ (hslash (sameNoCase_slash hsame hn))] at hcomps
  rw [components_name _ _ (hslash hn)]
  by_cases hplain : fit maxPathLen dir name ≠ [] ∧ fit maxPathLen dir name ≠ [46]
  · rw [if_pos hplain] at hcomps
    obtain rfl := List.singleton_inj.mp hcomps
    have hplain' : fit maxPathLen dir n ≠ [] ∧ fit maxPathLen dir n ≠ [46] := by
      rw [Ne, Ne, h0, h1]
      exact hplain
    rw [if_pos hplain']
    refine ⟨?_, rfl, ?_⟩
    · rcases hjoins with hjoins | hnil | hhead
      · exact .inl hjoins
      · exact absurd hnil hplain.1
      · exact absurd (List.mem_of_mem_head? hhead) (hslash (sameNoCase_slash hsame hn))
    · rw [List.mem_singleton, eq_comm, h2, eq_comm, ← List.mem_singleton]
      exact hup
  · rw [if_neg hplain] at hcomps
    contradiction

/-! ### A safe ticket -/

theorem findSource_contained {src : Str} {log : List TicCall}
    (hsource : DirectlyIn 47 46 cfg.inbound (pathJoin maxPathLen cfg.inbound file))
    (h : findSource cfg fs file = (some src, log)) : DirectlyIn 47 46 cfg.inbound src := by
  unfold findSource at h
  dsimp only at h
  split_ifs at h
  · obtain ⟨hsrc, -⟩ := Prod.mk.inj h
    obtain rfl := Option.some.inj hsrc
    exact hsource
  · obtain ⟨hfind, -⟩ := Prod.mk.inj h
    unfold pathFindCi at hfind
    cases hdir : fs.readdir [.stat (pathJoin maxPathLen cfg.inbound file)] cfg.inbound with
    | none => simp [hdir] at hfind
    | some names =>
      rw [hdir] at hfind
      obtain ⟨n, hn, rfl⟩ := Option.map_eq_some_iff.mp hfind
      have hmem := List.mem_of_find?_eq_some hn
      have hsame := List.find?_some hn
      rw [Bool.and_eq_true] at hsame
      exact directlyIn_sameNoCase cfg.inbound_lt (fs.readdir_name _ _ _ hdir n hmem).2 hsame.1 hsource

theorem findSource_stat (cfg : TicConfig) (fs : FileSystem TicCall) (file : Str) :
    (findSource cfg fs file).2 = [.stat (pathJoin maxPathLen cfg.inbound file)] := by
  unfold findSource
  dsimp only
  split_ifs <;> rfl

/-- Directories on the way to a configured one. -/
theorem ensureDir_contained {d : Str} (hd : d ∈ [cfg.filebox, cfg.pubdir, cfg.newfiles]) {log : List TicCall}
    (hlog : ∀ c ∈ log, c.Contained cfg date ticpath area) :
    ∀ c ∈ (ensureDir .mkdir fs d log).2, c.Contained cfg date ticpath area := by
  intro c hc
  rcases ensureDir_calls hc with hmem | ⟨p, rfl⟩ | ⟨p, rfl, hway⟩
  · exact hlog c hmem
  · trivial
  · exact ⟨d, hd, hway.isPrefix⟩

/-- Directories on the way to that of the area. -/
theorem ensureDir_area_contained {log : List TicCall}
    (hmade : [46, 46] ∉ components 47 46 ((madePath (areaDir cfg area)).drop cfg.filebox.length))
    (hlog : ∀ c ∈ log, c.Contained cfg date ticpath area) :
    ∀ c ∈ (ensureDir .mkdirArea fs (areaDir cfg area) log).2, c.Contained cfg date ticpath area := by
  intro c hc
  rcases ensureDir_calls hc with hmem | ⟨p, rfl⟩ | ⟨p, rfl, hway⟩
  · exact hlog c hmem
  · trivial
  · have hbox := walked_isPrefix (filebox_isPrefix cfg area)
    have hcomparable := List.prefix_or_prefix_of_prefix hway.isPrefix hbox
    refine ⟨hcomparable, ?_⟩
    rcases hway with rfl | ⟨q, hq⟩
    · exact hmade
    · rw [hq] at hmade
      by_cases hlen : cfg.filebox.length ≤ p.length
      · rw [List.drop_append_of_le_length hlen, components_append] at hmade
        exact fun hmem => hmade (List.mem_append_left _ hmem)
      · rw [List.drop_of_length_le (by omega), components_nil]
        exact List.not_mem_nil

theorem publish_contained {src : Str} {log : List TicCall} (hsafe : TicSafe cfg file area)
    (hsrc : DirectlyIn 47 46 cfg.inbound src) (hlog : ∀ c ∈ log, c.Contained cfg date ticpath area) :
    ∀ c ∈ (publish cfg fs src file log).2, c.Contained cfg date ticpath area := by
  obtain ⟨-, -, hpublic, -⟩ := ticSafe_iff.mp hsafe
  unfold publish
  split_ifs with hcopy
  · have hdir := @ensureDir_contained cfg fs date ticpath area cfg.pubdir (by simp) log hlog
    split
    · next heq => rwa [heq] at hdir
    · next heq =>
      rw [heq] at hdir
      intro c hc
      rcases List.mem_cons.mp hc with rfl | hc
      · exact ⟨hsrc, hpublic hcopy.1 hcopy.2⟩
      · exact hdir c hc
  · exact hlog

theorem moveFile_contained {src : Str} {log : List TicCall} (hsafe : TicSafe cfg file area)
    (hsrc : DirectlyIn 47 46 cfg.inbound src) (hlog : ∀ c ∈ log, c.Contained cfg date ticpath area) :
    ∀ c ∈ (moveFile fs src (pathJoin maxPathLen (areaDir cfg area) file) log).2,
      c.Contained cfg date ticpath area := by
  obtain ⟨-, harea, -, -⟩ := ticSafe_iff.mp hsafe
  unfold moveFile
  dsimp only
  split_ifs
  · intro c hc
    simp only [List.mem_cons] at hc
    rcases hc with rfl | rfl | hc
    · exact ⟨hsrc, harea⟩
    · exact harea
    · exact hlog c hc
  · intro c hc
    simp only [List.mem_cons] at hc
    rcases hc with rfl | rfl | rfl | rfl | hc
    · exact hsrc
    · exact ⟨hsrc, harea⟩
    · exact ⟨hsrc, harea⟩
    · exact harea
    · exact hlog c hc
  · intro c hc
    simp only [List.mem_cons] at hc
    rcases hc with rfl | rfl | rfl | hc
    · exact ⟨hsrc, harea⟩
    · exact ⟨hsrc, harea⟩
    · exact harea
    · exact hlog c hc

theorem appendLogs_contained {log : List TicCall} (hlog : ∀ c ∈ log, c.Contained cfg date ticpath area) :
    ∀ c ∈ appendLogs cfg fs date log, c.Contained cfg date ticpath area := by
  have hcons : ∀ {p : Str} {log : List TicCall},
    p ∈ [cfg.ticlog, cfg.logfile, cfg.filelist, newfilesPath cfg date] →
      (∀ c ∈ log, c.Contained cfg date ticpath area) →
      ∀ c ∈ TicCall.append p :: log, c.Contained cfg date ticpath area := by
    intro p log hp hlog c hc
    rcases List.mem_cons.mp hc with rfl | hc
    · exact hp
    · exact hlog c hc
  have hif : ∀ {p : Str} {log : List TicCall}, p ∈ [cfg.ticlog, cfg.logfile, cfg.filelist, newfilesPath cfg date] →
      (∀ c ∈ log, c.Contained cfg date ticpath area) →
      ∀ c ∈ (if p = [] then log else TicCall.append p :: log), c.Contained cfg date ticpath area := by
    intro p log hp hlog
    split_ifs
    · exact hlog
    · exact hcons hp hlog
  have hthree := hif (p := cfg.filelist) (by simp) (hif (p := cfg.logfile) (by simp) (hif (p := cfg.ticlog) (by simp) hlog))
  unfold appendLogs
  dsimp only
  split_ifs at hthree ⊢ <;> first
    | exact hthree
    | exact hcons (by simp) (ensureDir_contained (by simp) hthree)

/-- A safe ticket keeps every call in its directories, whatever the file system answers. -/
theorem processFields_contained (hsafe : TicSafe cfg file area) :
    ∀ c ∈ processFields cfg fs date ticpath file area, c.Contained cfg date ticpath area := by
  obtain ⟨hsource, -, -, hmade⟩ := ticSafe_iff.mp hsafe
  have hstat : ∀ c ∈ (findSource cfg fs file).2, c.Contained cfg date ticpath area := by
    rw [findSource_stat]
    intro c hc
    rw [List.mem_singleton.mp hc]
    trivial
  unfold processFields
  cases hfind : findSource cfg fs file with
  | mk found log =>
    rw [hfind] at hstat
    cases found with
    | none => exact hstat
    | some src =>
      have hsrc := findSource_contained hsource hfind
      have hbox := @ensureDir_contained cfg fs date ticpath area cfg.filebox (by simp) log hstat
      dsimp only
      cases hb : ensureDir .mkdir fs cfg.filebox log with
      | mk ok log =>
        rw [hb] at hbox
        cases ok with
        | false => exact hbox
        | true =>
          have harea := @ensureDir_area_contained cfg fs date ticpath area log hmade hbox
          dsimp only
          cases ha : ensureDir .mkdirArea fs (areaDir cfg area) log with
          | mk ok log =>
            rw [ha] at harea
            cases ok with
            | false => exact harea
            | true =>
              have hpublish := @publish_contained cfg fs date ticpath file area src log hsafe hsrc harea
              dsimp only
              cases hp : publish cfg fs src file log with
              | mk ok log =>
                rw [hp] at hpublish
                cases ok with
                | false => exact hpublish
                | true =>
                  have hmove := @moveFile_contained cfg fs date ticpath file area src log hsafe hsrc hpublish
                  dsimp only
                  cases hm : moveFile fs src (pathJoin maxPathLen (areaDir cfg area) file) log with
                  | mk ok log =>
                    rw [hm] at hmove
                    cases ok with
                    | false => exact hmove
                    | true =>
                      intro c hc
                      rcases List.mem_cons.mp hc with rfl | hc
                      · rfl
                      · exact appendLogs_contained hmove c hc

end

/-! ### A ticket that is not safe -/

/-- Everything exists, and every call succeeds. -/
def agreeable : FileSystem TicCall where
  pathExists _ _ := true
  isRegularFile _ _ := true
  readdir _ _ := none
  mtime _ _ := 0
  size _ _ := 0
  ok _ _ := true
  readdir_name := by simp

/-- Nothing exists but what is asked for first, and every call succeeds. -/
def emptied : FileSystem TicCall where
  pathExists log _ := log.isEmpty
  isRegularFile _ _ := true
  readdir _ _ := none
  mtime _ _ := 0
  size _ _ := 0
  ok _ _ := true
  readdir_name := by simp

section

variable {cfg : TicConfig} {fs : FileSystem TicCall} {date ticpath file area : Str} {log : List TicCall}

theorem appendLogs_log : log <:+ appendLogs cfg fs date log := by
  have hif : ∀ {p : Str} {log : List TicCall}, log <:+ if p = [] then log else TicCall.append p :: log := by
    intro p log
    split_ifs
    · exact List.suffix_refl log
    · exact List.suffix_cons _ _
  have hthree := (@hif cfg.ticlog log).trans (hif.trans (@hif cfg.filelist
    (if cfg.logfile = [] then _ else TicCall.append cfg.logfile :: _)))
  unfold appendLogs
  dsimp only
  by_cases hnew : cfg.newfiles = []
  · rw [if_pos hnew]
    exact hthree
  · rw [if_neg hnew]
    exact hthree.trans ((ensureDir_log _).trans (List.suffix_cons _ _))

theorem publish_log (src : Str) : log <:+ (publish cfg fs src file log).2 := by
  have hdir := @ensureDir_log .mkdir fs log cfg.pubdir
  unfold publish
  split_ifs
  · split
    · next heq => rwa [heq] at hdir
    · next heq =>
      rw [heq] at hdir
      exact hdir.trans (List.suffix_cons _ _)
  · exact List.suffix_refl log

theorem moveFile_log (src dst : Str) : log <:+ (moveFile fs src dst log).2 := by
  unfold moveFile
  dsimp only
  split_ifs
  · exact (List.suffix_cons _ _).trans (List.suffix_cons _ _)
  · exact (((List.suffix_cons _ _).trans (List.suffix_cons _ _)).trans (List.suffix_cons _ _)).trans
      (List.suffix_cons _ _)
  · exact ((List.suffix_cons _ _).trans (List.suffix_cons _ _)).trans (List.suffix_cons _ _)

/-- Where everything exists the file is published and moved. -/
theorem processFields_agreeable :
    .rename (pathJoin maxPathLen cfg.inbound file) (pathJoin maxPathLen (areaDir cfg area) file) ∈
      processFields cfg agreeable date ticpath file area ∧
    (cfg.copypublic = true → cfg.pubdir ≠ [] →
      .copyPublic (pathJoin maxPathLen cfg.inbound file) (pathJoin maxPathLen cfg.pubdir file) ∈
        processFields cfg agreeable date ticpath file area) := by
  have hfind : findSource cfg agreeable file = (some (pathJoin maxPathLen cfg.inbound file),
      [.stat (pathJoin maxPathLen cfg.inbound file)]) := by
    unfold findSource
    exact if_pos rfl
  have hdir : ∀ mk p log, ensureDir mk agreeable p log = (true, .stat p :: log) := by
    intro mk p log
    unfold ensureDir
    exact if_pos rfl
  have hmove : ∀ src dst log, moveFile agreeable src dst log =
      (true, .rename src dst :: .removeTarget dst :: log) := by
    intro src dst log
    unfold moveFile
    exact if_pos rfl
  unfold processFields
  rw [hfind]
  dsimp only
  rw [hdir]
  dsimp only
  rw [hdir]
  dsimp only
  unfold publish
  by_cases hcopy : cfg.copypublic ∧ cfg.pubdir ≠ []
  · rw [if_pos hcopy, hdir]
    dsimp only
    rw [show agreeable.ok _ _ = true by rfl]
    dsimp only
    rw [hmove]
    dsimp only
    have hmem : ∀ {log : List TicCall} (c : TicCall), c ∈ log →
        c ∈ TicCall.removeTic ticpath :: appendLogs cfg agreeable date log :=
      fun c hc => List.mem_cons_of_mem _ (appendLogs_log.subset hc)
    exact ⟨hmem _ (by simp), fun _ _ => hmem _ (by simp)⟩
  · rw [if_neg hcopy]
    dsimp only
    rw [hmove]
    dsimp only
    exact ⟨List.mem_cons_of_mem _ (appendLogs_log.subset (by simp)), fun h1 h2 => absurd ⟨h1, h2⟩ hcopy⟩

/-- What does not exist is made. -/
theorem ensureDir_emptied {mk : Str → TicCall} {path : Str} (hpath : path ≠ []) (hlog : log ≠ []) :
    (ensureDir mk emptied path log).1 = true ∧ mk
    (madePath path) ∈ (ensureDir mk emptied path log).2 := by
  have hexists : ∀ {log : List TicCall} (p : Str), log ≠ [] → emptied.pathExists log p = false := by
    intro log p h
    cases log with
    | nil => exact absurd rfl h
    | cons c log => rfl
  have hwalk := @mkdirWalk_log mk emptied (.stat path :: log) ((stripSeps (path.take 511)).take 1)
    ((stripSeps (path.take 511)).drop 1)
  have hmade := @mkdirWalk_path mk emptied (.stat path :: log) ((stripSeps (path.take 511)).take 1)
    ((stripSeps (path.take 511)).drop 1)
  have hne : (mkdirWalk mk emptied ((stripSeps (path.take 511)).take 1)
      ((stripSeps (path.take 511)).drop 1) (.stat path :: log)).2 ≠ [] := by
    intro h
    rw [h] at hwalk
    simp at hwalk
  unfold ensureDir
  rw [hexists path hlog, if_neg (by decide)]
  unfold mkdirRecursive
  rw [if_neg hpath]
  dsimp only
  rw [hexists _ hne, if_neg (by decide), hmade]
  exact ⟨rfl, List.mem_cons_self⟩

theorem areaDir_ne (cfg : TicConfig) (area : Str) : areaDir cfg area ≠ [] := by
  intro h
  have hprefix := filebox_isPrefix cfg area
  rw [h, List.prefix_nil] at hprefix
  exact cfg.filebox_ne hprefix

/-- Where nothing exists the directory of the area is made. -/
theorem processFields_emptied :
    .mkdirArea (madePath (areaDir cfg area)) ∈ processFields cfg emptied date ticpath file area := by
  have hfind : findSource cfg emptied file = (some (pathJoin maxPathLen cfg.inbound file),
      [.stat (pathJoin maxPathLen cfg.inbound file)]) := by
    unfold findSource
    exact if_pos rfl
  unfold processFields
  rw [hfind]
  dsimp only
  have hbox := @ensureDir_emptied [.stat (pathJoin maxPathLen cfg.inbound file)] .mkdir cfg.filebox
    cfg.filebox_ne (by simp)
  cases hb : ensureDir .mkdir emptied cfg.filebox [.stat (pathJoin maxPathLen cfg.inbound file)] with
  | mk ok log =>
    rw [hb] at hbox
    obtain ⟨rfl, hmem⟩ := hbox
    dsimp only
    have harea := @ensureDir_emptied log .mkdirArea (areaDir cfg area) (areaDir_ne cfg area)
      (List.ne_nil_of_mem hmem)
    cases ha : ensureDir .mkdirArea emptied (areaDir cfg area) log with
    | mk ok log =>
      rw [ha] at harea
      obtain ⟨rfl, hmade⟩ := harea
      dsimp only at hmade ⊢
      have hpublish := @publish_log cfg emptied file log (pathJoin maxPathLen cfg.inbound file)
      cases hp : publish cfg emptied (pathJoin maxPathLen cfg.inbound file) file log with
      | mk ok log =>
        rw [hp] at hpublish
        have hmade := hpublish.subset hmade
        cases ok with
        | false => exact hmade
        | true =>
          dsimp only
          have hmove := @moveFile_log emptied log (pathJoin maxPathLen cfg.inbound file)
            (pathJoin maxPathLen (areaDir cfg area) file)
          cases hm : moveFile emptied (pathJoin maxPathLen cfg.inbound file)
              (pathJoin maxPathLen (areaDir cfg area) file) log with
          | mk ok log =>
            rw [hm] at hmove
            have hmade := hmove.subset hmade
            cases ok with
            | false => exact hmade
            | true => exact List.mem_cons_of_mem _ (appendLogs_log.subset hmade)

end

/-- **`process_one_tic` keeps to its directories** on every file system exactly if the file and
the area of the ticket do not lead out of them. -/
theorem tic_contained (cfg : TicConfig) (date ticpath : Str) (content : List Byte) :
    (∀ fs, ∀ c ∈ processOneTic cfg fs date ticpath content,
      c.Contained cfg date ticpath (parseTic (readLines content.length content)).area) ↔
    ((parseTic (readLines content.length content)).file = [] ∨
      (parseTic (readLines content.length content)).area = [] ∨
      TicSafe cfg (parseTic (readLines content.length content)).file
        (parseTic (readLines content.length content)).area) := by
  unfold processOneTic
  generalize parseTic (readLines content.length content) = t
  dsimp only
  by_cases hnone : t.file = [] ∨ t.area = []
  · simp only [if_pos hnone]
    exact ⟨fun _ => hnone.imp_right .inl, fun _ _ c hc => absurd hc List.not_mem_nil⟩
  · have hiff : (t.file = [] ∨ t.area = [] ∨ TicSafe cfg t.file t.area) ↔ TicSafe cfg t.file t.area := by
      rw [← or_assoc]
      exact or_iff_right hnone
    simp only [if_neg hnone]
    rw [hiff]
    constructor
    · intro h
      obtain ⟨hrename, hcopy⟩ := @processFields_agreeable cfg date ticpath t.file t.area
      have hmade := h emptied _ (@processFields_emptied cfg date ticpath t.file t.area)
      obtain ⟨hsource, harea⟩ := h agreeable _ hrename
      exact ticSafe_iff.mpr ⟨hsource, harea, fun h1 h2 => (h agreeable _ (hcopy h1 h2)).2, hmade.2⟩
    · exact fun hsafe fs => processFields_contained hsafe

/-- A small configuration. -/
def ticConfig : TicConfig where
  inbound := str "/in"
  filebox := str "/box"
  pubdir := []
  logfile := []
  filelist := []
  newfiles := []
  ticlog := []
  copypublic := false
  inbound_ne := by decide
  filebox_ne := by decide
  inbound_lt := by decide +kernel
  filebox_lt := by decide +kernel
  pubdir_lt := by decide +kernel

/-- A ticket whose file leads out of the inbound: a file next to it is taken, and put beside the
directory of the area. -/
theorem tic_leads_out : ∃ c ∈ processOneTic ticConfig agreeable [] (str "/in/a.tic")
      (str "Area x\r\nFile ../secret\r\n"), c = .rename (str "/in/../secret") (str "/box/x/../secret") ∧
    ¬ c.Contained ticConfig [] (str "/in/a.tic") (str "x") := by
  refine ⟨_, (?_ : TicCall.rename (str "/in/../secret") (str "/box/x/../secret") ∈ _), rfl, ?_⟩
  · decide +kernel
  · exact fun h => absurd h.1 (by decide +kernel)

end Binkd
