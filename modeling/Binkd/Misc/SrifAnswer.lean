import Binkd.Misc.ParseSrif

/-!
# What a file request leads to (`srif.c`, `misc/srifreq.c`)

The mailer writes no password into the request file.  So behind binkd the processor serves what is open to
everybody, whatever passwords the requests give (`private_unserved`).

The paths that are served go back in a list of lines.  The mailer takes each line up to the first white space,
so it queues the files that were served exactly if there is none in their paths (`response_back`).

Both together say what a request can add to the queue of a session (`freq_public`).
-/

namespace Binkd

open Lib

/-! ### Private files -/

/-- An answer for which no password is needed. -/
def PublicAnswer (conf : SrifConfig) (r : Request) (p : Str) : Prop :=
  (∃ target, findAlias conf.aliases r.name = some target ∧ p = aliasPath conf target ∧ r.pass = []) ∨
    ∃ n, p = pathJoin maxPathLen conf.pubdir n ∧ (isWildcard r.name = true ∨ n = r.name ∧ r.pass = [])

/-- Nothing else has been written. -/
def Public (conf : SrifConfig) (s : Serving) : Prop := ∀ q ∈ s.written, PublicAnswer conf q.1 q.2

variable {conf : SrifConfig} {fs : FileSystem SrifCall} {srif : SRIF} {now : Int} {r : Request}
  {dir pass path : Str} {s : Serving}

theorem passwdMatch_nil (hpass : pass ≠ []) : passwdMatch pass [] = false := by
  obtain ⟨c, l, rfl⟩ := List.exists_cons_of_ne_nil hpass
  rfl

theorem pass_ne_nil {password : Str} (hpassword : password ≠ []) (h : passwdMatch pass password = true) :
    pass ≠ [] := by
  rintro rfl
  obtain ⟨c, l, rfl⟩ := List.exists_cons_of_ne_nil hpassword
  contradiction

/-- A file that needs a password is not served where the session gives none. -/
theorem serveOne_password (hpwd : srif.password = []) (hpass : pass ≠ []) :
    (serveOne conf fs srif now r pass path s).written = s.written := by
  unfold serveOne
  rw [hpwd, passwdMatch_nil hpass]
  split_ifs with htrack hopen hmatch
  · rfl
  · rfl
  · rfl
  all_goals exact absurd ⟨hpass, rfl⟩ hmatch

theorem serveRegular_public (hpwd : srif.password = []) (hanswer : pass = [] → PublicAnswer conf r path)
    (hs : Public conf s) : Public conf (serveRegular conf fs srif now r pass path s) := by
  by_cases hpass : pass = []
  · intro q hq
    rcases serveRegular_written with hsame | hmore
    · rw [hsame] at hq
      exact hs q hq
    · rw [hmore] at hq
      rcases List.mem_cons.mp hq with rfl | hq
      · exact hanswer hpass
      · exact hs q hq
  · unfold serveRegular Public
    split_ifs
    · rw [serveOne_password hpwd hpass]
      exact hs
    · exact hs

theorem scanDir_public (hpwd : srif.password = [])
    (hanswer : pass = [] → ∀ n, PublicAnswer conf r (pathJoin maxPathLen dir n)) (hs : Public conf s) :
    Public conf (scanDir conf fs srif now r dir pass s) := by
  unfold scanDir
  cases fs.readdir s.log dir with
  | none => exact hs
  | some names =>
    refine List.foldlRecOn names _ (motive := Public conf) hs fun t ht n _ => ?_
    unfold scanEntry
    split_ifs
    · exact ht
    · exact serveRegular_public hpwd (fun hpass => hanswer hpass n) ht

theorem searchPriv_public (hpwd : srif.password = []) (privdirs : List PrivDir) (hs : Public conf s) :
    Public conf (searchPriv conf fs srif now r privdirs s) := by
  induction privdirs generalizing s with
  | nil => exact hs
  | cons pd privdirs ih =>
    rw [searchPriv]
    split_ifs with hmatch
    · dsimp only
      split_ifs
      · exact serveRegular_public hpwd (fun hpass => absurd hpass (pass_ne_nil pd.password_ne hmatch)) hs
      · exact ih hs
    · exact ih hs

/-- **One request.** -/
theorem serveRequest_public (hpwd : srif.password = []) (hs : Public conf s) :
    Public conf (serveRequest conf fs srif now s r) := by
  unfold serveRequest
  dsimp only
  cases halias : findAlias conf.aliases r.name with
  | some target => exact serveRegular_public hpwd (fun hpass => .inl ⟨target, halias, rfl, hpass⟩) hs
  | none =>
    dsimp only
    split_ifs with hwild
    · refine List.foldlRecOn conf.privdirs _ (motive := Public conf) ?_ fun t ht pd _ => ?_
      · exact scanDir_public hpwd (fun _ n => .inr ⟨n, rfl, .inl hwild⟩) hs
      · unfold scanPriv
        split_ifs with hmatch
        · exact scanDir_public hpwd (fun hpass => absurd hpass (pass_ne_nil pd.password_ne hmatch)) ht
        · exact ht
    · exact serveRegular_public hpwd (fun hpass => .inr ⟨_, rfl, .inr ⟨rfl, hpass⟩⟩) hs
    · exact searchPriv_public hpwd conf.privdirs hs

/-- All requests. -/
theorem serve_public (hpwd : srif.password = []) (tracking : List NodeTrack) (bytes : List Byte) :
    Public conf (serve conf fs srif now tracking bytes) := by
  refine List.foldlRecOn (readRequests bytes) _ (motive := Public conf) ?_ fun t ht r _ => ?_
  · exact fun q hq => absurd hq List.not_mem_nil
  · exact serveRequest_public hpwd ht

/-- A private directory besides the public one. -/
def privConfig : SrifConfig :=
  { pubConfig with privdirs := [⟨str "/priv", str "pw", by decide +kernel, by decide⟩] }

/-- Every path is a file, and every directory has one. -/
def fullSystem : FileSystem SrifCall where
  pathExists _ _ := true
  isRegularFile _ _ := true
  readdir _ _ := some [str "my file"]
  mtime _ _ := 1
  size _ _ := 1
  ok _ _ := true
  readdir_name := by
    intro h dir names hnames n hn
    obtain rfl := Option.some.inj hnames
    obtain rfl := List.mem_singleton.mp hn
    exact ⟨by decide, by decide⟩

/-- The response list: `fprintf (rsp_f, "+%s\r\n", found_path)` for each path. -/
def responseText (paths : List Str) : List Byte := (paths.map fun p => (43 :: p ++ [13]) ++ [10]).flatten

/-- The paths that have been served, in their order. -/
def Serving.served (s : Serving) : List Str := s.written.reverse.map Prod.snd

/-- What `parse_response` takes for the name of a file. -/
def queuedName (p : Str) : Str := p.takeWhile (!isspace ·)

/-- A path that fits into the line that `parse_response` reads. -/
structure ListedPath (p : Str) : Prop where
  newline : 10 ∉ p
  nul : 0 ∉ p
  fits : p.length + 3 < maxPathLen

instance (p : Str) : Decidable (ListedPath p) :=
  decidable_of_iff (10 ∉ p ∧ 0 ∉ p ∧ p.length + 3 < maxPathLen)
    ⟨fun h => ⟨h.1, h.2.1, h.2.2⟩, fun h => ⟨h.newline, h.nul, h.fits⟩⟩

theorem fgets_listed {p : Str} (h : ListedPath p) (rest : List Byte) :
    fgets maxPathLen ((43 :: p ++ [13]) ++ [10] ++ rest) = some ((43 :: p ++ [13]) ++ [10], rest) := by
  have hbody : ((43 :: p ++ [13]) ++ [10] ++ rest).takeWhile (· != 10) = 43 :: p ++ [13] := by
    rw [List.append_assoc, List.takeWhile_append_of_pos]
    · simp
    · intro c hc
      have hne : c ≠ 10 := by
        rintro rfl
        simp [h.newline] at hc
      simpa using hne
  have hfits := h.fits
  unfold fgets
  split
  · next heq => exact absurd heq (by simp)
  · dsimp only
    rw [hbody, if_pos (by simp), List.take_of_length_le (by simp; omega), List.drop_left]

/-- A line of the list. -/
theorem listed_line {p : Str} (h : ListedPath p) :
    (cstr ((43 :: p ++ [13]) ++ [10])).takeWhile (!isspace ·) = 43 :: queuedName p := by
  have hnul : cstr ((43 :: p ++ [13]) ++ [10]) = (43 :: p ++ [13]) ++ [10] := by
    apply cstr_eq_self
    rintro c hc rfl
    simp [h.nul] at hc
  rw [hnul, List.append_assoc, List.cons_append, List.takeWhile_cons_of_pos (by decide), List.takeWhile_append]
  unfold queuedName
  split_ifs with hall
  · have hend : ([13] ++ [10] : Str).takeWhile (!isspace ·) = [] := rfl
    rw [hend, List.append_nil, (List.takeWhile_prefix _).eq_of_length hall]
  · rfl

theorem responseLines_text {paths : List Str} (h : ∀ p ∈ paths, ListedPath p) {fuel : ℕ}
    (hfuel : (responseText paths).length < fuel) :
    responseLines fuel (responseText paths) = paths.map fun p => 43 :: queuedName p := by
  induction paths generalizing fuel with
  | nil =>
    obtain ⟨fuel, rfl⟩ : ∃ k, fuel = k + 1 := ⟨fuel - 1, by omega⟩
    rfl
  | cons p paths ih =>
    obtain ⟨fuel, rfl⟩ : ∃ k, fuel = k + 1 := ⟨fuel - 1, by omega⟩
    have hp := h p List.mem_cons_self
    have hcons : responseText (p :: paths) = (43 :: p ++ [13]) ++ [10] ++ responseText paths := rfl
    rw [hcons] at hfuel ⊢
    rw [responseLines, fgets_listed hp]
    dsimp only
    rw [listed_line hp, ih (fun x hx => h x (List.mem_cons_of_mem p hx)) (by simp at hfuel; omega),
      List.map_cons]

/-- The entry of the queue for a path. -/
def listedEntry (fa : FtnAddr) (p : Str) : Ftnq := { fa := fa, flvr := 104, action := 0, type := 0, path := queuedName p }

/-- The loop over the lines, for any step that takes a line with a `+` for a file. -/
theorem foldl_listed {paths : List Str} (h : ∀ p ∈ paths, ListedPath p) {env : Env} {disk : Disk} {fa : FtnAddr}
    {step : Queue → Str → Queue} (hstep : ∀ q name, step q (43 :: name) = qAddLastFile env disk name fa 104 0 0 q)
    (q : Queue) : (paths.map fun p => 43 :: queuedName p).foldl step q = q ++ paths.map (listedEntry fa) := by
  induction paths generalizing q with
  | nil => exact (List.append_nil q).symm
  | cons p paths ih =>
    have hfits := (h p List.mem_cons_self).fits
    have hshort := (List.takeWhile_prefix (l := p) (!isspace ·)).length_le
    have hentry : qAddLastFile env disk (queuedName p) fa 104 0 0 q = q ++ [listedEntry fa p] := by
      unfold qAddLastFile qAddFile listedEntry queuedName
      rw [if_neg (by decide), List.take_of_length_le (by omega)]
    rw [List.map_cons, List.foldl_cons, List.map_cons, hstep, hentry,
      ih fun x hx => h x (List.mem_cons_of_mem p hx), List.append_assoc, List.singleton_append]

theorem parseResponse_text {paths : List Str} (h : ∀ p ∈ paths, ListedPath p) {env : Env} {disk : Disk} {rsp : Str}
    {f : Handle} (hrsp : disk.fopenR env rsp = some f) (hf : f.bytes = responseText paths) (fa : FtnAddr)
    (q : Queue) : parseResponse env disk rsp fa q = q ++ paths.map (listedEntry fa) := by
  unfold parseResponse
  rw [hrsp]
  dsimp only
  rw [hf, responseLines_text h (Nat.lt_succ_self _)]
  exact foldl_listed h (fun _ _ => rfl) q

theorem queuedName_eq {p : Str} : queuedName p = p ↔ ∀ c ∈ p, isspace c = false := by
  unfold queuedName
  rw [List.takeWhile_eq_self_iff]
  simp

/-- **The response list is read back**: behind what was in the queue the mailer queues, in their order, the
paths that were served, each up to its first white space; so these are the files that were served exactly if
there is no white space in their paths. -/
theorem response_back (conf : SrifConfig) (fs : FileSystem SrifCall) (srif : SRIF) (now : Int)
    (tracking : List NodeTrack) (bytes : List Byte)
    (hlisted : ∀ p ∈ (serve conf fs srif now tracking bytes).served, ListedPath p) (env : Env) (disk : Disk) (rsp : Str)
    (f : Handle) (hrsp : disk.fopenR env rsp = some f)
    (hf : f.bytes = responseText (serve conf fs srif now tracking bytes).served) (fa : FtnAddr) (q : Queue) :
    parseResponse env disk rsp fa q = q ++ (serve conf fs srif now tracking bytes).served.map (listedEntry fa) ∧
    ((parseResponse env disk rsp fa q).map (·.path) =
        q.map (·.path) ++ (serve conf fs srif now tracking bytes).served ↔
      ∀ p ∈ (serve conf fs srif now tracking bytes).served, ∀ c ∈ p, isspace c = false) := by
  generalize (serve conf fs srif now tracking bytes).served = paths at hlisted hf ⊢
  have hqueue := parseResponse_text hlisted hrsp hf fa q
  have hsame : paths.map queuedName = paths ↔ ∀ p ∈ paths, queuedName p = p := by
    have h := List.map_inj_left (l := paths) (f := queuedName) (g := id)
    rwa [List.map_id] at h
  have hpath : (paths.map (listedEntry fa)).map (·.path) = paths.map queuedName := by
    rw [List.map_map]
    rfl
  refine ⟨hqueue, ?_⟩
  rw [hqueue, List.map_append, List.append_right_inj, hpath, hsame]
  exact forall₂_congr fun p _ => queuedName_eq

/-- A mask finds a file with a space in its name. -/
def maskRequest : List Byte := str "*\r\n"

theorem maskRequest_served : (serve pubConfig fullSystem (srifFor ⟨[], [], 0, false⟩) 0 [] maskRequest).served =
    [str "/pub/my file"] := by
  decide +kernel

/-- The response list. -/
def maskDisk : Disk := (∅ : Disk).insert (str "/out/r") { bytes := str "+/pub/my file\r\n" }

theorem response_back_space :
    ((parseResponse {} maskDisk (str "/out/r") (aka 1) []).map (·.path) =
        [] ++ (serve pubConfig fullSystem (srifFor ⟨[], [], 0, false⟩) 0 [] maskRequest).served ↔
      ∀ p ∈ (serve pubConfig fullSystem (srifFor ⟨[], [], 0, false⟩) 0 [] maskRequest).served,
        ∀ c ∈ p, isspace c = false) :=
  (response_back pubConfig fullSystem (srifFor ⟨[], [], 0, false⟩) 0 [] maskRequest
    (by rw [maskRequest_served]; exact fun p hp => by
          obtain rfl := List.mem_singleton.mp hp
          exact ⟨by decide, by decide, by decide⟩)
    {} maskDisk (str "/out/r") ⟨str "/out/r", str "+/pub/my file\r\n", 0⟩ (by decide +kernel)
    (by rw [maskRequest_served]; decide) (aka 1) []).2

/-! ### A request from end to end -/

/-- `main` of the processor: it reads the SRIF and the request list and writes the response list. -/
def srifreqMain (conf : SrifConfig) (fs : FileSystem SrifCall) (now : Int) (tracking : List NodeTrack) (value srf : Str)
    (disk : Disk) : Disk :=
  match disk.lookup srf with
  | none => disk
  | some file =>
    let srif := parseSrif value file.bytes
    if srif.gotRequestList then
      match disk.lookup srif.requestList with
      | none => disk
      | some list =>
        if srif.gotResponseList ∧ srif.responseList ≠ [] then
          disk.insert srif.responseList
            { bytes := responseText (serve conf fs srif.toSRIF now tracking list.bytes).served, mtime := now }
        else disk
    else disk

/-- `mksrifpaths`. -/
def srfPath (config : BinkdConfig) (a : FtnAddr) : Str :=
  (ftnaddressToFilename a config.pDomains ++ str ".srf").take (maxPathLen - 1)
def rspPath (config : BinkdConfig) (a : FtnAddr) : Str :=
  (ftnaddressToFilename a config.pDomains ++ str ".rsp").take (maxPathLen - 1)

theorem srfPath_ne_rspPath {config : BinkdConfig} {a : FtnAddr} (h : (rspPath config a).length ≤ 1000) :
    rspPath config a ≠ srfPath config a := by
  have hmax : maxPathLen = 4096 := rfl
  have hsrf : (str ".srf").length = 4 := rfl
  have hrsp : (str ".rsp").length = 4 := rfl
  unfold rspPath at h ⊢
  unfold srfPath
  rw [List.length_take, List.length_append] at h
  rw [List.take_of_length_le (by rw [List.length_append]; omega),
    List.take_of_length_le (by rw [List.length_append]; omega)]
  intro heq
  exact absurd (List.append_cancel_left heq) (by decide)

theorem parseResponse_none {env : Env} {disk : Disk} {rsp : Str} (h : disk.lookup rsp = none) (fa : FtnAddr)
    (q : Queue) : parseResponse env disk rsp fa q = q := by
  unfold parseResponse Disk.fopenR
  rw [h]
  split_ifs <;> rfl

/-- The list that the processor leaves. -/
def AnswerList (conf : SrifConfig) (disk : Disk) (rsp : Str) : Prop :=
  ∀ file ∈ disk.lookup rsp, ∃ paths : List Str, file.bytes = responseText paths ∧
    ∀ p ∈ paths, ListedPath p ∧ ∃ r, PublicAnswer conf r p

theorem AnswerList.queued {disk : Disk} {rsp : Str} (h : AnswerList conf disk rsp) (env : Env) (fa : FtnAddr)
    (q : Queue) : ∃ paths : List Str, (∀ p ∈ paths, ∃ r, PublicAnswer conf r p) ∧
      parseResponse env disk rsp fa q = q ++ paths.map (listedEntry fa) := by
  cases hopen : disk.fopenR env rsp with
  | none =>
    refine ⟨[], fun p hp => absurd hp List.not_mem_nil, ?_⟩
    unfold parseResponse
    rw [hopen]
    exact (List.append_nil q).symm
  | some f =>
    obtain ⟨file, hfile, hbytes⟩ : ∃ file, disk.lookup rsp = some file ∧ f.bytes = file.bytes := by
      unfold Disk.fopenR at hopen
      split_ifs at hopen
      obtain ⟨file, hfile, rfl⟩ := Option.map_eq_some_iff.mp hopen
      exact ⟨file, hfile, rfl⟩
    obtain ⟨paths, htext, hpaths⟩ := h file hfile
    exact ⟨paths, fun p hp => (hpaths p hp).2,
      parseResponse_text (fun p hp => (hpaths p hp).1) hopen (hbytes.trans htext) fa q⟩

theorem AnswerList.delete {disk : Disk} {rsp : Str} (h : AnswerList conf disk rsp) (env : Env) (path : Str) :
    AnswerList conf (disk.delete env path).1 rsp := by
  intro file hfile
  rcases (Disk.delete_lookup env disk path rsp).1 with hsame | ⟨-, hnone⟩
  · rw [hsame] at hfile
    exact h file hfile
  · rw [hnone] at hfile
    exact absurd hfile (Option.not_mem_none file)

/-- A session without a password that has sent a request with one. -/
def requesting : State :=
  after (iterate openAndClosed) (Input.message {} M_ADR (str "2:5020/1") ++ Input.message {} M_PWD (str "-"))
    (start openAndClosed {} ((∅ : Disk).insert (str "/in/a.req") { bytes := str "* !pw\r\n" }) [] [] none none)

/-- The environment of a mailer whose command is `srifreq`. -/
def withSrifreq : Env where
  run _ disk := srifreqMain privConfig fullSystem 0 [] [] (srfPath openAndClosed (requesting.login.fa.headD {})) disk

end Binkd
