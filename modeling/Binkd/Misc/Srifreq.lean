import Binkd.Misc.Freq

/-!
# The file-request server (`misc/srifreq.c`)

`srifreq` answers each line of a request file with the paths of files: the target of an alias,
the files that match a pattern, or the file of that name, in the public directory and in those
private directories whose password the line gives.  A name is joined to a directory as it
stands, so an answer stays in these directories only where the name does (`srifreq_contained`).
-/

namespace Binkd

open Lib

structure PrivDir where
  path : Str
  password : Str
  path_lt : path.length < maxPathLen
  password_ne : password ≠ []

/-- What `srifreq` has sent to a node within the window. -/
structure NodeTrack where
  aka : Str
  files : Int
  bytes : Int
  lastTime : Int

structure Alias where
  name : Str
  path : Str

structure SrifConfig where
  pubdir : Str
  trackfile : Str
  maxfiles : Int
  maxbytes : Int
  privdirs : List PrivDir
  aliases : List Alias
  pubdir_lt : pubdir.length < maxPathLen

/-- The part of the SRIF that decides about a file. -/
structure SRIF where
  aka : Str
  password : Str
  tranx : Int
  protectedSess : Bool

/-- What the file system is asked, with the request lines between. -/
inductive SrifCall
  | line
  | look (path : Str)
  | readdir (path : Str)

/-- The state of the loop: the calls so far, the tracking data and the paths that have been written
to the response list, newest first, each with its request. -/
structure Serving where
  log : List SrifCall
  tracking : List NodeTrack
  written : List (Request × Str)

/-! ### Passwords, aliases and limits -/

/-- `passwd_match`. -/
def passwdMatch (a b : Str) : Bool := sameNoCase (a.take 63) (b.take 63)

/-- `find_alias`. -/
def findAlias (aliases : List Alias) (name : Str) : Option Str :=
  (aliases.find? fun a => sameNoCase (name.take 63) (a.name.take 63)).map (·.path)

/-- `is_abs_path`. -/
def isAbsPath (p : Str) : Bool := p.head? = some 47 || p.head? = some 92 || (p ≠ [] && p[1]? = some 58)

/-- `tracking_check`. -/
def trackingCheck (conf : SrifConfig) (aka : Str) (tracking : List NodeTrack) : Bool :=
  match tracking.find? fun nt => nt.aka = aka with
  | none => true
  | some nt =>
    !(0 < conf.maxfiles && conf.maxfiles ≤ nt.files) && !(0 < conf.maxbytes && conf.maxbytes ≤ nt.bytes)

/-- Counts a file for the first entry of the node. -/
def trackingBump (aka : Str) (size now : Int) : List NodeTrack → List NodeTrack
  | [] => []
  | nt :: tracking =>
    if nt.aka = aka then ⟨nt.aka, nt.files + 1, nt.bytes + size, now⟩ :: tracking
    else nt :: trackingBump aka size now tracking

/-- `tracking_update`. -/
def trackingUpdate (aka : Str) (size now : Int) (tracking : List NodeTrack) : List NodeTrack :=
  if tracking.any fun nt => nt.aka = aka then trackingBump aka size now tracking
  else ⟨aka.take 255, 1, size, now⟩ :: tracking

/-! ### Serving -/

/-- `serve_one` for a request, with the password it is to be checked for. -/
def serveOne (conf : SrifConfig) (fs : FileSystem SrifCall) (srif : SRIF) (now : Int) (r : Request)
    (pass path : Str) (s : Serving) : Serving :=
  if conf.trackfile ≠ [] ∧ trackingCheck conf srif.aka s.tracking = false then s
  else if pass ≠ [] ∧ srif.protectedSess = false then s
  else if pass ≠ [] ∧ passwdMatch pass srif.password = false then s
  else if r.update = true ∧ 0 < srif.tranx ∧ fs.mtime s.log path ≤ srif.tranx then
    { s with log := .look path :: s.log }
  else if 0 < r.newer ∧ fs.mtime s.log path ≤ r.newer then { s with log := .look path :: s.log }
  else
    { log := .look path :: s.log
      tracking := if conf.trackfile ≠ [] then
          trackingUpdate srif.aka (max 0 (fs.size s.log path)) now s.tracking
        else s.tracking
      written := (r, path) :: s.written }

/-- Serves a path if it is a regular file. -/
def serveRegular (conf : SrifConfig) (fs : FileSystem SrifCall) (srif : SRIF) (now : Int) (r : Request)
    (pass path : Str) (s : Serving) : Serving :=
  if fs.isRegularFile s.log path then serveOne conf fs srif now r pass path { s with log := .look path :: s.log }
  else { s with log := .look path :: s.log }

/-- The path of an alias: a relative one is below the public directory. -/
def aliasPath (conf : SrifConfig) (target : Str) : Str :=
  if isAbsPath target then target.take (maxPathLen - 1) else pathJoin maxPathLen conf.pubdir target

/-- One entry of a directory that is scanned. -/
def scanEntry (conf : SrifConfig) (fs : FileSystem SrifCall) (srif : SRIF) (now : Int) (r : Request)
    (dir pass : Str) (s : Serving) (n : Str) : Serving :=
  if n = str "." ∨ n = str ".." ∨ wildmatch r.name n = false then s
  else serveRegular conf fs srif now r pass (pathJoin maxPathLen dir n) s

/-- The scan of a directory. -/
def scanDir (conf : SrifConfig) (fs : FileSystem SrifCall) (srif : SRIF) (now : Int) (r : Request)
    (dir pass : Str) (s : Serving) : Serving :=
  match fs.readdir s.log dir with
  | none => { s with log := .readdir dir :: s.log }
  | some names => names.foldl (scanEntry conf fs srif now r dir pass) { s with log := .readdir dir :: s.log }

/-- The scan of a private directory, if the line gives its password. -/
def scanPriv (conf : SrifConfig) (fs : FileSystem SrifCall) (srif : SRIF) (now : Int) (r : Request)
    (s : Serving) (pd : PrivDir) : Serving :=
  if passwdMatch r.pass pd.password then scanDir conf fs srif now r pd.path r.pass s else s

/-- The search of the private directories for one name: it stops where the path exists. -/
def searchPriv (conf : SrifConfig) (fs : FileSystem SrifCall) (srif : SRIF) (now : Int) (r : Request) :
    List PrivDir → Serving → Serving
  | [], s => s
  | pd :: privdirs, s =>
    if passwdMatch r.pass pd.password then
      let path := pathJoin maxPathLen pd.path r.name
      if fs.isRegularFile s.log path ∨ fs.pathExists s.log path then serveRegular conf fs srif now r r.pass path s
      else searchPriv conf fs srif now r privdirs { s with log := .look path :: s.log }
    else searchPriv conf fs srif now r privdirs s

/-- The answer to one request. -/
def serveRequest (conf : SrifConfig) (fs : FileSystem SrifCall) (srif : SRIF) (now : Int) (s : Serving)
    (r : Request) : Serving :=
  let s := { s with log := .line :: s.log }
  match findAlias conf.aliases r.name with
  | some target => serveRegular conf fs srif now r r.pass (aliasPath conf target) s
  | none =>
    if isWildcard r.name then
      conf.privdirs.foldl (scanPriv conf fs srif now r) (scanDir conf fs srif now r conf.pubdir [] s)
    else
      let path := pathJoin maxPathLen conf.pubdir r.name
      if fs.isRegularFile s.log path ∨ fs.pathExists s.log path ∨ r.pass = [] then
        serveRegular conf fs srif now r r.pass path s
      else searchPriv conf fs srif now r conf.privdirs { s with log := .look path :: s.log }

/-- The loop of `main` over the request file. -/
def serve (conf : SrifConfig) (fs : FileSystem SrifCall) (srif : SRIF) (now : Int) (tracking : List NodeTrack)
    (bytes : List Byte) : Serving :=
  (readRequests bytes).foldl (serveRequest conf fs srif now) ⟨[], tracking, []⟩

/-! ### Where the answers lie -/

/-- The path lies directly in the public directory, or in a private one whose password the request
gives. -/
def Opens (conf : SrifConfig) (r : Request) (p : Str) : Prop :=
  DirectlyIn 47 46 conf.pubdir p ∨
    ∃ pd ∈ conf.privdirs, passwdMatch r.pass pd.password = true ∧ DirectlyIn 47 46 pd.path p

/-- An answer that the request may get. -/
def MayServe (conf : SrifConfig) (r : Request) (p : Str) : Prop :=
  (∃ target, findAlias conf.aliases r.name = some target ∧ p = aliasPath conf target) ∨ Opens conf r p

/-- The directories that are open to a request. -/
def searched (conf : SrifConfig) (r : Request) : List Str :=
  conf.pubdir :: (conf.privdirs.filter fun pd => passwdMatch r.pass pd.password).map (·.path)

/-- What is joined to a directory for a request: a name that matches, or the name as it stands. -/
def Candidate (r : Request) (n : Str) : Prop :=
  if isWildcard r.name then n ≠ [] ∧ 47 ∉ n ∧ n ≠ str "." ∧ n ≠ str ".." ∧ wildmatch r.name n = true
  else n = r.name

/-- A request that is no alias leads from each directory that is open to it into such a directory. -/
def Stays (conf : SrifConfig) (r : Request) : Prop :=
  findAlias conf.aliases r.name = none →
    ∀ d ∈ searched conf r, ∀ n, Candidate r n → Opens conf r (pathJoin maxPathLen d n)

/-- Each path that has been written is one that its request may get. -/
def Kept (conf : SrifConfig) (s : Serving) : Prop := ∀ q ∈ s.written, MayServe conf q.1 q.2

theorem foldl_kept {conf : SrifConfig} {α : Type} {f : Serving → α → Serving} {l : List α}
    (hf : ∀ s, ∀ a ∈ l, Kept conf s → Kept conf (f s a)) {s : Serving} (hs : Kept conf s) :
    Kept conf (l.foldl f s) := by
  induction l generalizing s with
  | nil => exact hs
  | cons a l ih =>
    apply ih
    · intro s b hb
      exact hf s b (List.mem_cons_of_mem a hb)
    · exact hf s a List.mem_cons_self hs

section

variable {conf : SrifConfig} {fs : FileSystem SrifCall} {srif : SRIF} {now : Int} {r : Request}
  {dir pass path : Str} {s : Serving}

/-- `serve_one` writes the path or leaves the response list as it is. -/
theorem serveOne_written :
    (serveOne conf fs srif now r pass path s).written = s.written ∨
      (serveOne conf fs srif now r pass path s).written = (r, path) :: s.written := by
  unfold serveOne
  split_ifs
  · exact .inl rfl
  · exact .inl rfl
  · exact .inl rfl
  · exact .inl rfl
  · exact .inl rfl
  · exact .inr rfl
  · exact .inr rfl

theorem serveRegular_written :
    (serveRegular conf fs srif now r pass path s).written = s.written ∨
      (serveRegular conf fs srif now r pass path s).written = (r, path) :: s.written := by
  unfold serveRegular
  split_ifs
  · exact serveOne_written
  · exact .inl rfl

theorem serveRegular_kept (hpath : MayServe conf r path) (hs : Kept conf s) :
    Kept conf (serveRegular conf fs srif now r pass path s) := by
  intro q hq
  rcases serveRegular_written with hsame | hmore
  · rw [hsame] at hq
    exact hs q hq
  · rw [hmore] at hq
    rcases List.mem_cons.mp hq with rfl | hq
    · exact hpath
    · exact hs q hq

/-- A scan answers with names that match. -/
theorem scanDir_kept (hwild : isWildcard r.name = true)
    (hstays : ∀ n, Candidate r n → Opens conf r (pathJoin maxPathLen dir n)) (hs : Kept conf s) :
    Kept conf (scanDir conf fs srif now r dir pass s) := by
  unfold scanDir
  cases hdir : fs.readdir s.log dir with
  | none => exact hs
  | some names =>
    apply foldl_kept
    · intro s n hn hs
      obtain ⟨hne, hslash⟩ := fs.readdir_name _ _ _ hdir n hn
      unfold scanEntry
      by_cases hskip : n = str "." ∨ n = str ".." ∨ wildmatch r.name n = false
      · rwa [if_pos hskip]
      · rw [if_neg hskip]
        push Not at hskip
        have hcandidate : Candidate r n := by
          rw [Candidate, if_pos hwild]
          exact ⟨hne, hslash, hskip.1, hskip.2.1, by simpa using hskip.2.2⟩
        exact serveRegular_kept (.inr (hstays n hcandidate)) hs
    · exact hs

theorem mem_searched {pd : PrivDir} (hpd : pd ∈ conf.privdirs) (hmatch : passwdMatch r.pass pd.password = true) :
    pd.path ∈ searched conf r :=
  List.mem_cons_of_mem _ (List.mem_map_of_mem (List.mem_filter.mpr ⟨hpd, hmatch⟩))

theorem searchPriv_kept {privdirs : List PrivDir} (hsub : privdirs ⊆ conf.privdirs)
    (hstays : ∀ d ∈ searched conf r, Opens conf r (pathJoin maxPathLen d r.name)) (hs : Kept conf s) :
    Kept conf (searchPriv conf fs srif now r privdirs s) := by
  induction privdirs generalizing s with
  | nil => exact hs
  | cons pd privdirs ih =>
    have hrest : privdirs ⊆ conf.privdirs := fun x hx => hsub (List.mem_cons_of_mem _ hx)
    rw [searchPriv]
    by_cases hmatch : passwdMatch r.pass pd.password = true
    · rw [if_pos hmatch]
      dsimp only
      split_ifs
      · exact serveRegular_kept (.inr (hstays _ (mem_searched (hsub List.mem_cons_self) hmatch))) hs
      · exact ih hrest hs
    · rw [if_neg hmatch]
      exact ih hrest hs

/-- A request that stays in its directories gets such answers only. -/
theorem serveRequest_kept (hstays : Stays conf r) (hs : Kept conf s) :
    Kept conf (serveRequest conf fs srif now s r) := by
  unfold serveRequest
  dsimp only
  cases halias : findAlias conf.aliases r.name with
  | some target => exact serveRegular_kept (.inl ⟨target, halias, rfl⟩) hs
  | none =>
    have hopen := hstays halias
    have hpub : conf.pubdir ∈ searched conf r := List.mem_cons_self
    by_cases hwild : isWildcard r.name = true
    · dsimp only
      rw [if_pos hwild]
      apply foldl_kept
      · intro s pd hpd hs
        unfold scanPriv
        split_ifs with hmatch
        · exact scanDir_kept hwild (hopen _ (mem_searched hpd hmatch)) hs
        · exact hs
      · exact scanDir_kept hwild (hopen _ hpub) hs
    · have hname : ∀ d ∈ searched conf r, Opens conf r (pathJoin maxPathLen d r.name) := by
        intro d hd
        apply hopen d hd
        rw [Candidate, if_neg hwild]
      dsimp only
      rw [if_neg hwild]
      split_ifs
      · exact serveRegular_kept (.inr (hname _ hpub)) hs
      · exact searchPriv_kept (List.Subset.refl _) hname hs

/-! ### What has been written stays written -/

theorem serveRegular_suffix : s.written <:+ (serveRegular conf fs srif now r pass path s).written := by
  rcases serveRegular_written with hsame | hmore
  · rw [hsame]
  · rw [hmore]
    exact List.suffix_cons _ _

theorem foldl_suffix {α : Type} {f : Serving → α → Serving} (hf : ∀ s a, s.written <:+ (f s a).written)
    (l : List α) : s.written <:+ (l.foldl f s).written := by
  induction l generalizing s with
  | nil => exact List.suffix_refl _
  | cons a l ih => exact (hf s a).trans ih

theorem scanDir_suffix : s.written <:+ (scanDir conf fs srif now r dir pass s).written := by
  unfold scanDir
  cases fs.readdir s.log dir with
  | none => exact List.suffix_refl _
  | some names =>
    refine foldl_suffix (s := { s with log := .readdir dir :: s.log }) ?_ names
    intro s n
    unfold scanEntry
    split_ifs
    · exact List.suffix_refl _
    · exact serveRegular_suffix

theorem scanPriv_suffix (pd : PrivDir) : s.written <:+ (scanPriv conf fs srif now r s pd).written := by
  unfold scanPriv
  split_ifs
  · exact scanDir_suffix
  · exact List.suffix_refl _

theorem searchPriv_suffix (privdirs : List PrivDir) :
    s.written <:+ (searchPriv conf fs srif now r privdirs s).written := by
  induction privdirs generalizing s with
  | nil => exact List.suffix_refl _
  | cons pd privdirs ih =>
    rw [searchPriv]
    dsimp only
    split_ifs
    · exact serveRegular_suffix
    · exact @ih { s with log := .look (pathJoin maxPathLen pd.path r.name) :: s.log }
    · exact ih

theorem serveRequest_suffix : s.written <:+ (serveRequest conf fs srif now s r).written := by
  unfold serveRequest
  dsimp only
  cases findAlias conf.aliases r.name with
  | some target => exact @serveRegular_suffix conf fs srif now r r.pass _ { s with log := .line :: s.log }
  | none =>
    dsimp only
    split_ifs
    · exact (@scanDir_suffix conf fs srif now r conf.pubdir [] { s with log := .line :: s.log }).trans
        (foldl_suffix (fun s pd => scanPriv_suffix pd) conf.privdirs)
    · exact @serveRegular_suffix conf fs srif now r r.pass _ { s with log := .line :: s.log }
    · exact @searchPriv_suffix conf fs srif now r
        { s with log := .look (pathJoin maxPathLen conf.pubdir r.name) :: .line :: s.log } conf.privdirs

end

/-! ### A request that leaves its directories -/

/-- The number of request lines that have been read. -/
def lines (log : List SrifCall) : ℕ := log.countP fun c => match c with
  | .line => true
  | _ => false

@[simp] theorem lines_look (p : Str) (log : List SrifCall) : lines (.look p :: log) = lines log := by
  simp [lines]

@[simp] theorem lines_readdir (p : Str) (log : List SrifCall) :
    lines (.readdir p :: log) = lines log := by
  simp [lines]

@[simp] theorem lines_line (log : List SrifCall) : lines (.line :: log) = lines log + 1 := by
  simp [lines]

/-- Nothing is there but one file, while the line number `k` is answered; and one directory tells
its name. -/
def onlyThen (k : ℕ) (path dir : Str) (names : Option (List Str)) (t : Int)
    (hnames : ∀ ns, names = some ns → ∀ n ∈ ns, n ≠ [] ∧ 47 ∉ n) : FileSystem SrifCall where
  pathExists _ _ := false
  isRegularFile log p := lines log = k && p = path
  readdir log d := if lines log = k ∧ d = dir then names else none
  mtime _ _ := t
  size _ _ := 0
  ok _ _ := true
  readdir_name := by
    intro log d ns h
    split_ifs at h
    exact hnames ns h

/-- Nothing is written and nothing counted. -/
structure Quiet (s s' : Serving) : Prop where
  written : s'.written = s.written
  tracking : s'.tracking = s.tracking
  lines : lines s'.log = lines s.log

theorem Quiet.trans {a b c : Serving} (h : Quiet a b) (h' : Quiet b c) : Quiet a c :=
  ⟨h'.written.trans h.written, h'.tracking.trans h.tracking, h'.lines.trans h.lines⟩

theorem Quiet.refl (s : Serving) : Quiet s s := ⟨rfl, rfl, rfl⟩

section

variable {conf : SrifConfig} {srif : SRIF} {now : Int} {r : Request} {dir pass path p : Str} {s : Serving}
  {k : ℕ} {names : Option (List Str)} {t : Int} {hnames : ∀ ns, names = some ns → ∀ n ∈ ns, n ≠ [] ∧ 47 ∉ n}

/-- Another path, or another line, is not served. -/
theorem serveRegular_quiet (hother : lines s.log ≠ k ∨ p ≠ path) :
    Quiet s (serveRegular conf (onlyThen k path dir names t hnames) srif now r pass p s) := by
  have hnot : (onlyThen k path dir names t hnames).isRegularFile s.log p = false := by
    rcases hother with h | h <;> simp [onlyThen, h]
  unfold serveRegular
  rw [if_neg (by simp [hnot])]
  exact ⟨rfl, rfl, by simp⟩

theorem scanDir_quiet {d : Str} (hother : lines s.log ≠ k ∨ d ≠ dir) :
    Quiet s (scanDir conf (onlyThen k path dir names t hnames) srif now r d pass s) := by
  have hnone : (onlyThen k path dir names t hnames).readdir s.log d = none := by
    apply if_neg
    rintro ⟨hk, hd⟩
    rcases hother with h | h
    · exact h hk
    · exact h hd
  unfold scanDir
  rw [hnone]
  exact ⟨rfl, rfl, by simp⟩

theorem scanPriv_quiet {pd : PrivDir} (hother : lines s.log ≠ k) :
    Quiet s (scanPriv conf (onlyThen k path dir names t hnames) srif now r s pd) := by
  unfold scanPriv
  split_ifs
  · exact scanDir_quiet (.inl hother)
  · exact Quiet.refl s

theorem foldl_scanPriv_quiet (privdirs : List PrivDir) (hother : lines s.log ≠ k) :
    Quiet s (privdirs.foldl (scanPriv conf (onlyThen k path dir names t hnames) srif now r) s) := by
  induction privdirs generalizing s with
  | nil => exact Quiet.refl s
  | cons pd privdirs ih =>
    have hhead := @scanPriv_quiet conf srif now r dir path s k names t hnames pd hother
    exact hhead.trans (ih (by rwa [hhead.lines]))

theorem searchPriv_quiet (privdirs : List PrivDir) (hother : lines s.log ≠ k) :
    Quiet s (searchPriv conf (onlyThen k path dir names t hnames) srif now r privdirs s) := by
  induction privdirs generalizing s with
  | nil => exact Quiet.refl s
  | cons pd privdirs ih =>
    rw [searchPriv]
    dsimp only
    split_ifs
    · exact serveRegular_quiet (.inl hother)
    · have hlook : Quiet s { s with log := .look (pathJoin maxPathLen pd.path r.name) :: s.log } :=
        ⟨rfl, rfl, by simp⟩
      exact hlook.trans (ih (by simpa using hother))
    · exact ih hother

/-- While another line is answered nothing happens. -/
theorem serveRequest_quiet (hother : lines s.log + 1 ≠ k) :
    Quiet { s with log := .line :: s.log }
      (serveRequest conf (onlyThen k path dir names t hnames) srif now s r) := by
  have hline : lines ({ s with log := .line :: s.log } : Serving).log ≠ k := by simpa using hother
  unfold serveRequest
  dsimp only
  cases findAlias conf.aliases r.name with
  | some target => exact serveRegular_quiet (.inl hline)
  | none =>
    dsimp only
    split_ifs
    · have hpub := @scanDir_quiet conf srif now r dir [] path { s with log := .line :: s.log } k names t hnames
        conf.pubdir (.inl hline)
      exact hpub.trans (foldl_scanPriv_quiet conf.privdirs (by rwa [hpub.lines]))
    · exact serveRegular_quiet (.inl hline)
    · have hlook : Quiet { s with log := .line :: s.log }
          { s with log := .look (pathJoin maxPathLen conf.pubdir r.name) :: .line :: s.log } :=
            ⟨rfl, rfl, by simp⟩
      exact hlook.trans (searchPriv_quiet conf.privdirs (by simpa using hother))

/-- The SRIF of a node that has given the password of the request in a protected session. -/
def srifFor (r : Request) : SRIF := ⟨[], r.pass, 0, true⟩

/-- The file that is there is served, with or without the password. -/
theorem serveRegular_there (hk : lines s.log = k) (htracking : s.tracking = [])
    (hpass : pass = [] ∨ pass = r.pass) :
    (r, path) ∈ (serveRegular conf (onlyThen k path dir names (r.newer + 1) hnames) (srifFor r) now r pass
      path s).written := by
  have hthere : (onlyThen k path dir names (r.newer + 1) hnames).isRegularFile s.log path = true := by
    simp [onlyThen, hk]
  have hcheck : trackingCheck conf (srifFor r).aka s.tracking = true := by rw [htracking]; rfl
  have hself : passwdMatch r.pass r.pass = true := by simp [passwdMatch, sameNoCase]
  have hmatch : ¬ (pass ≠ [] ∧ passwdMatch pass (srifFor r).password = false) := by
    rintro ⟨hne, hfalse⟩
    rcases hpass with rfl | rfl
    · exact hne rfl
    · rw [srifFor, hself] at hfalse
      contradiction
  unfold serveRegular
  rw [if_pos hthere]
  unfold serveOne
  rw [if_neg (by simp [hcheck]), if_neg (by simp [srifFor]), if_neg hmatch,
    if_neg (by simp [srifFor]), if_neg]
  · exact List.mem_cons_self
  · rintro ⟨-, hle⟩
    have hmtime : (onlyThen k path dir names (r.newer + 1) hnames).mtime
      (SrifCall.look path :: s.log) path = r.newer + 1 := rfl
    rw [hmtime] at hle
    omega

end

section

variable {conf : SrifConfig} {now : Int} {r : Request} {dir pass n : Str} {s : Serving} {k : ℕ}

variable {names : Option (List Str)} {hnames : ∀ ns, names = some ns → ∀ n ∈ ns, n ≠ [] ∧ 47 ∉ n} {path : Str}

/-- The directory that tells the name is answered from. -/
theorem scanDir_there (htold : names = some [n]) (hdots : n ≠ str "." ∧ n ≠ str "..")
    (hmatch : wildmatch r.name n = true) (hk : lines s.log = k) (htracking : s.tracking = [])
    (hpass : pass = [] ∨ pass = r.pass) :
    (r, pathJoin maxPathLen dir n) ∈ (scanDir conf (onlyThen k (pathJoin maxPathLen dir n) dir names
      (r.newer + 1) hnames) (srifFor r) now r dir pass s).written := by
  have hread : (onlyThen k (pathJoin maxPathLen dir n) dir names (r.newer + 1)
      hnames).readdir s.log dir = some [n] := (if_pos ⟨hk, rfl⟩).trans htold
  unfold scanDir
  rw [hread]
  dsimp only
  rw [List.foldl_cons, List.foldl_nil]
  unfold scanEntry
  rw [if_neg (by simp [hdots.1, hdots.2, hmatch])]
  apply serveRegular_there
  · simpa using hk
  · exact htracking
  · exact hpass

/-- One of the private directories tells the name. -/
theorem foldl_scanPriv_there (htold : names = some [n]) (hdots : n ≠ str "." ∧ n ≠ str "..")
    (hmatch : wildmatch r.name n = true) {privdirs : List PrivDir} {pd : PrivDir} (hpd : pd ∈ privdirs)
    (hopen : passwdMatch r.pass pd.password = true) (hdir : pd.path = dir) (hk : lines s.log = k)
    (htracking : s.tracking = []) :
    (r, pathJoin maxPathLen dir n) ∈ (privdirs.foldl (scanPriv conf (onlyThen k (pathJoin maxPathLen dir n) dir
      names (r.newer + 1) hnames) (srifFor r) now r) s).written := by
  induction privdirs generalizing s with
  | nil => simp at hpd
  | cons pd' privdirs ih =>
    rw [List.foldl_cons]
    by_cases hhere : passwdMatch r.pass pd'.password = true ∧ pd'.path = dir
    · apply (foldl_suffix (fun s pd => scanPriv_suffix pd) privdirs).subset
      unfold scanPriv
      rw [if_pos hhere.1, hhere.2]
      exact scanDir_there htold hdots hmatch hk htracking (.inr rfl)
    · have hrest : pd ∈ privdirs := by
        rcases List.mem_cons.mp hpd with rfl | hrest
        · exact absurd ⟨hopen, hdir⟩ hhere
        · exact hrest
      have hquiet : Quiet s (scanPriv conf (onlyThen k (pathJoin maxPathLen dir n) dir names (r.newer + 1)
          hnames) (srifFor r) now r s pd') := by
        unfold scanPriv
        split_ifs with hmatch'
        · exact scanDir_quiet (.inr fun hd => hhere ⟨hmatch', hd⟩)
        · exact Quiet.refl s
      apply ih hrest
      · rw [hquiet.lines, hk]
      · rw [hquiet.tracking, htracking]

/-- One of the private directories has the file. -/
theorem searchPriv_there {privdirs : List PrivDir} {pd : PrivDir} (hpd : pd ∈ privdirs)
    (hopen : passwdMatch r.pass pd.password = true) (hpath : pathJoin maxPathLen pd.path r.name = path)
    (hk : lines s.log = k) (htracking : s.tracking = []) :
    (r, path) ∈ (searchPriv conf (onlyThen k path dir names (r.newer + 1) hnames) (srifFor r) now r
      privdirs s).written := by
  induction privdirs generalizing s with
  | nil => simp at hpd
  | cons pd' privdirs ih =>
    rw [searchPriv]
    by_cases hmatch : passwdMatch r.pass pd'.password = true
    · rw [if_pos hmatch]
      by_cases hhere : pathJoin maxPathLen pd'.path r.name = path
      · have hthere : (onlyThen k path dir names (r.newer + 1) hnames).isRegularFile s.log
            (pathJoin maxPathLen pd'.path r.name) = true := by simp [onlyThen, hk, hhere]
        dsimp only
        rw [if_pos (.inl hthere), hhere]
        exact serveRegular_there hk htracking (.inr rfl)
      · have hnot : ¬ ((onlyThen k path dir names (r.newer + 1) hnames).isRegularFile s.log
            (pathJoin maxPathLen pd'.path r.name) = true ∨
            (onlyThen k path dir names (r.newer + 1) hnames).pathExists s.log
              (pathJoin maxPathLen pd'.path r.name) = true) := by simp [onlyThen, hhere]
        have hrest : pd ∈ privdirs := by
          rcases List.mem_cons.mp hpd with rfl | hrest
          · exact absurd hpath hhere
          · exact hrest
        dsimp only
        rw [if_neg hnot]
        apply ih hrest
        · simpa using hk
        · exact htracking
    · have hrest : pd ∈ privdirs := by
        rcases List.mem_cons.mp hpd with rfl | hrest
        · exact absurd hopen hmatch
        · exact hrest
      rw [if_neg hmatch]
      exact ih hrest hk htracking

/-- What the directory tells for a candidate. -/
def told (r : Request) (n : Str) : Option (List Str) := if isWildcard r.name then some [n] else none

omit hnames in
theorem told_name (hn : Candidate r n) : ∀ ns, told r n = some ns → ∀ m ∈ ns, m ≠ [] ∧ 47 ∉ m := by
  intro ns hns m hm
  unfold told at hns
  unfold Candidate at hn
  split_ifs at hns hn
  obtain rfl := Option.some.inj hns
  rw [List.mem_singleton.mp hm]
  exact ⟨hn.1, hn.2.1⟩

/-- Each path that a request may be joined to is served on some file system. -/
theorem serveRequest_there {d : Str} (halias : findAlias conf.aliases r.name = none) (hd : d ∈ searched conf r)
    (hn : Candidate r n) (hk : lines s.log + 1 = k) (htracking : s.tracking = []) :
    (r, pathJoin maxPathLen d n) ∈ (serveRequest conf (onlyThen k (pathJoin maxPathLen d n) d (told r n)
      (r.newer + 1) (told_name hn)) (srifFor r) now s r).written := by
  have hline : lines ({ s with log := .line :: s.log } : Serving).log = k := by simpa using hk
  unfold serveRequest
  dsimp only
  rw [halias]
  dsimp only
  by_cases hwild : isWildcard r.name = true
  · have htold : told r n = some [n] := if_pos hwild
    have hcandidate := hn
    rw [Candidate, if_pos hwild] at hcandidate
    obtain ⟨-, -, hdot, hdots, hmatch⟩ := hcandidate
    rw [if_pos hwild]
    by_cases hpub : conf.pubdir = d
    · apply (foldl_suffix (fun s pd => scanPriv_suffix pd) conf.privdirs).subset
      rw [hpub]
      exact scanDir_there htold ⟨hdot, hdots⟩ hmatch hline htracking (.inl rfl)
    · rcases List.mem_cons.mp hd with rfl | hpriv
      · exact absurd rfl hpub
      · obtain ⟨pd, hpd, hpath⟩ := List.mem_map.mp hpriv
        rw [List.mem_filter] at hpd
        have hquiet := @scanDir_quiet conf (srifFor r) now r d [] (pathJoin maxPathLen d n)
          { s with log := .line :: s.log } k (told r n) (r.newer + 1) (told_name hn) conf.pubdir (.inr hpub)
        apply foldl_scanPriv_there htold ⟨hdot, hdots⟩ hmatch hpd.1 hpd.2 hpath
        · rw [hquiet.lines, hline]
        · rw [hquiet.tracking, htracking]
  · have hname : n = r.name := by rwa [Candidate, if_neg hwild] at hn
    rw [if_neg hwild]
    by_cases hpub : pathJoin maxPathLen conf.pubdir r.name = pathJoin maxPathLen d n
    · rw [if_pos (.inl (by simp [onlyThen, hk, hpub])), hpub]
      exact serveRegular_there hline htracking (.inr rfl)
    · rcases List.mem_cons.mp hd with rfl | hpriv
      · exact absurd (by rw [hname]) hpub
      · obtain ⟨pd, hpd, hpath⟩ := List.mem_map.mp hpriv
        rw [List.mem_filter] at hpd
        have hpass : r.pass ≠ [] := by
          intro hnil
          have hempty := hpd.2
          simp only [passwdMatch, sameNoCase, hnil, List.take_nil, List.map_nil,
            decide_eq_true_eq] at hempty
          have hnone := List.map_eq_nil_iff.mp hempty.symm
          rcases List.take_eq_nil_iff.mp hnone with h | h
          · contradiction
          · exact pd.password_ne h
        rw [if_neg (by simp [onlyThen, hpub, hpass])]
        apply searchPriv_there hpd.1 hpd.2 (by rw [hpath, hname])
        · simpa using hk
        · exact htracking

end

/-- The requests before a line leave everything as it is. -/
theorem foldl_serveRequest_quiet {conf : SrifConfig} {srif : SRIF} {now : Int} {path dir : Str} {k : ℕ}
    {names : Option (List Str)} {t : Int} {hnames : ∀ ns, names = some ns → ∀ n ∈ ns, n ≠ [] ∧ 47 ∉ n}
    (rs : List Request) {s : Serving} (hk : lines s.log + rs.length < k) :
    (rs.foldl (serveRequest conf (onlyThen k path dir names t hnames) srif now) s).tracking = s.tracking ∧
      lines (rs.foldl (serveRequest conf (onlyThen k path dir names t hnames) srif now) s).log =
        lines s.log + rs.length := by
  induction rs generalizing s with
  | nil => exact ⟨rfl, rfl⟩
  | cons r rs ih =>
    rw [List.length_cons] at hk
    have hquiet := @serveRequest_quiet conf srif now r dir path s k names t hnames (by omega)
    have hlines := hquiet.lines
    rw [lines_line] at hlines
    obtain ⟨htracking, hrest⟩ := ih (s := serveRequest conf (onlyThen k path dir names t hnames) srif now s r)
      (by omega)
    rw [List.foldl_cons]
    refine ⟨htracking.trans hquiet.tracking, ?_⟩
    rw [hrest, hlines, List.length_cons]
    omega

/-- **`srifreq` answers from the directories that are open to a request**, on every file system, for
every SRIF and all tracking data, exactly if each request that is no alias leads from each of these
directories into one of them. -/
theorem srifreq_contained (conf : SrifConfig) (bytes : List Byte) :
    (∀ fs srif now tracking, ∀ q ∈ (serve conf fs srif now tracking bytes).written, MayServe conf q.1 q.2) ↔
      ∀ r ∈ readRequests bytes, Stays conf r := by
  constructor
  · intro h r hr halias d hd n hn
    obtain ⟨before, behind, hsplit⟩ := List.append_of_mem hr
    have hlines : lines ([] : List SrifCall) = 0 := rfl
    obtain ⟨htracking, hlog⟩ := @foldl_serveRequest_quiet conf (srifFor r) 0 (pathJoin maxPathLen d n) d
      (before.length + 1) (told r n) (r.newer + 1) (told_name hn) before ⟨[], [], []⟩ (by rw [hlines]; omega)
    have hserved : (r, pathJoin maxPathLen d n) ∈ (serve conf (onlyThen (before.length + 1)
        (pathJoin maxPathLen d n) d (told r n) (r.newer + 1) (told_name hn)) (srifFor r) 0 [] bytes).written := by
      unfold serve
      rw [hsplit, List.foldl_append, List.foldl_cons]
      apply (foldl_suffix (fun s r => serveRequest_suffix) behind).subset
      apply serveRequest_there halias hd hn
      · rw [hlog, hlines, Nat.zero_add]
      · exact htracking
    rcases h _ _ _ _ _ hserved with ⟨target, htarget, -⟩ | hopens
    · rw [halias] at htarget
      contradiction
    · exact hopens
  · intro h fs srif now tracking
    apply foldl_kept
    · intro s r hr hs
      exact serveRequest_kept (h r hr) hs
    · intro q hq
      exact absurd hq List.not_mem_nil

/-- A plain name leads from a directory into it. -/
theorem opens_plain {conf : SrifConfig} {r : Request} {d n : Str} (hd : d ∈ searched conf r)
    (hjoins : Joins d (fit maxPathLen d n)) (hone : (components 47 46 (fit maxPathLen d n)).length = 1)
    (hup : [46, 46] ∉ components 47 46 (fit maxPathLen d n)) :
    Opens conf r (pathJoin maxPathLen d n) := by
  rcases List.mem_cons.mp hd with rfl | hpriv
  · exact .inl ((directlyIn_pathJoin conf.pubdir_lt).mpr ⟨hjoins, hone, hup⟩)
  · obtain ⟨pd, hpd, rfl⟩ := List.mem_map.mp hpriv
    rw [List.mem_filter] at hpd
    exact .inr ⟨pd, hpd.1, hpd.2, (directlyIn_pathJoin pd.path_lt).mpr ⟨hjoins, hone, hup⟩⟩

theorem pub_lt : (str "/pub").length < maxPathLen := by decide +kernel

/-- A public directory and nothing else. -/
def pubConfig : SrifConfig where
  pubdir := str "/pub"
  trackfile := []
  maxfiles := 0
  maxbytes := 0
  privdirs := []
  aliases := []
  pubdir_lt := pub_lt

/-- A name that leads out of the public directory is answered. -/
theorem request_leads_out : ∃ r ∈ readRequests (str "../secret\r\n"),
    (r, str "/pub/../secret") ∈ (serve pubConfig (onlyThen 1 (str "/pub/../secret") [] none 1 (by simp))
      (srifFor r) 0 [] (str "../secret\r\n")).written ∧ ¬ MayServe pubConfig r (str "/pub/../secret") := by
  have hread : readRequests (str "../secret\r\n") = [⟨str "../secret", [], 0, false⟩] := by decide +kernel
  refine ⟨⟨str "../secret", [], 0, false⟩, by rw [hread]; exact List.mem_cons_self, by decide +kernel, ?_⟩
  rintro (⟨target, htarget, -⟩ | hpub | ⟨pd, hpd, -⟩)
  · contradiction
  · exact absurd hpub (by decide +kernel)
  · exact absurd hpd List.not_mem_nil

end Binkd
