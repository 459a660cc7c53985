import Binkd.HeaderLine
import Binkd.PartialFiles

/-!
# Resuming a partial file

A later session that looks for a file finds the temporary file by its header.  The header is
taken for its own file, by the sessions that hold its address, and left for every other, if and only
if the netname has no quotation mark and the address is read back as it was printed
(`resume_round_trip`).
-/

namespace Binkd

open Lib

variable {config : BinkdConfig} {env : Env} {s s' t t' : State} {file file' : TFile} {a : FtnAddr} {path p : Str}
  {pDomains : List FtnDomain} {f : FileInfo} {w : Str} {r : FindTmp}

/-! ### The search -/

theorem Takes.found {hr : HrInfo} {i : ℕ} (h : Takes config env file path s hr i) (hnfa : i < s.login.nfa) :
    findTmp1 config env (some file) path s = (some (.found (setExt path (str ".dt"))), s) := by
  unfold findTmp1
  rw [h.read]
  dsimp only
  rw [h.sender]
  dsimp only
  rw [if_pos h.name, if_pos ⟨h.size, h.time, h.ours⟩, if_neg (not_le.mpr hnfa)]

/-- The headers of a directory: the first one, those behind it where it does not end the search, and
those behind a name that is none. -/
theorem visited_cases {dir name : Str} {names : List Str}
    (hv : (path, t) ∈ visited config env (some file) dir (name :: names) s) :
    (isHrName name = true ∧ path = (withSeparator dir ++ name).take (maxPathLen - 1) ∧ t = s) ∨
    (isHrName name = true ∧ ∃ s₁,
      findTmp1 config env (some file) ((withSeparator dir ++ name).take (maxPathLen - 1)) s = (none, s₁) ∧
        (path, t) ∈ visited config env (some file) dir names s₁) ∨
    (isHrName name ≠ true ∧ (path, t) ∈ visited config env (some file) dir names s) := by
  rw [visited] at hv
  by_cases hname : isHrName name = true
  · rw [if_pos hname] at hv
    rcases List.mem_cons.mp hv with heq | hv
    · exact .inl ⟨hname, Prod.mk.inj heq⟩
    · split at hv
      · cases hv
      · next s₁ hstep => exact .inr (.inl ⟨hname, s₁, hstep, hv⟩)
  · rw [if_neg hname] at hv
    exact .inr (.inr ⟨hname, hv⟩)

/-- The search stops at the header that ends it. -/
theorem visited_stops {dir : Str} {names : List Str}
    (hv : (path, t) ∈ visited config env (some file) dir names s)
    (h : findTmp1 config env (some file) path t = (some r, t')) :
    findTmpLoop config env (some file) dir names s = (some r, t') := by
  induction names generalizing s with
  | nil => cases hv
  | cons name names ih =>
    rw [findTmpLoop]
    rcases visited_cases hv with ⟨hname, rfl, rfl⟩ | ⟨hname, s₁, hstep, hv⟩ | ⟨hname, hv⟩
    · rw [if_pos hname, h]
    · rw [if_pos hname, hstep]
      exact ih hv
    · rw [if_neg hname]
      exact ih hv

/-- The headers are looked at in one session. -/
theorem visited_login {dir : Str} {names : List Str}
    (hv : (path, t) ∈ visited config env (some file) dir names s) : t.login = s.login := by
  induction names generalizing s with
  | nil => cases hv
  | cons name names ih =>
    rcases visited_cases hv with ⟨-, -, rfl⟩ | ⟨-, s₁, hstep, hv⟩ | ⟨-, hv⟩
    · rfl
    · have hframe := findTmp1_frame config env (some file) ((withSeparator dir ++ name).take (maxPathLen - 1)) s
      rw [hstep] at hframe
      exact (ih hv).trans hframe.login
    · exact ih hv

theorem findTmpName_stops (hv : (path, t) ∈ comesTo config env (some file) s)
    (h : findTmp1 config env (some file) path t = (some r, t')) :
    findTmpName config env (some file) s = (r, t') := by
  unfold comesTo at hv
  unfold findTmpName
  dsimp only
  cases hdir : s.disk.readdir env (tmpDir config s) with
  | none =>
    rw [hdir] at hv
    cases hv
  | some names =>
    rw [hdir, Option.getD_some] at hv
    dsimp only
    rw [visited_stops hv h]

/-- Where the only header does not end the search, nothing is found. -/
theorem findTmpName_single {name : Str} (hdir : s.disk.readdir env (tmpDir config s) = some [name])
    (hname : isHrName name = true)
    (h : (findTmpName config env (some file) s).1 = .found p) :
    (findTmp1 config env (some file) ((withSeparator (tmpDir config s) ++ name).take (maxPathLen - 1)) s).1 =
      some (.found p) := by
  unfold findTmpName at h
  dsimp only at h
  rw [hdir] at h
  dsimp only at h
  rw [findTmpLoop, if_pos hname] at h
  cases hstep : findTmp1 config env (some file) ((withSeparator (tmpDir config s) ++ name).take (maxPathLen - 1)) s with
  | mk r' s₁ =>
    rw [hstep] at h
    cases r' with
    | some r' => exact congrArg some h
    | none =>
      dsimp only [findTmpLoop] at h
      split at h
      · cases h
      · cases h

theorem comesTo_single {name : Str} (hdir : s.disk.readdir env (tmpDir config s) = some [name])
    (hname : isHrName name = true) :
    ((withSeparator (tmpDir config s) ++ name).take (maxPathLen - 1), s) ∈ comesTo config env
    (some file) s := by
  unfold comesTo
  rw [hdir, Option.getD_some, visited, if_pos hname]
  exact List.mem_cons_self

/-! ### Files of an `M_FILE` -/

/-- A file as an `M_FILE` gives it. -/
def FileGiven (file : TFile) : Prop :=
  ∃ (buf : List Byte) (name size time off rest : Str) (env : Env) (s : State),
    parseArgs 4 (cstr buf) = some ([name, size, time, off], rest) ∧ s.rx.inf.f = none ∧
      file = (newIn env name size time s).rx.inf

theorem parseArgs_head {n : ℕ} {src : Str} {ws : List Str} {rest : Str}
    (h : parseArgs (n + 1) src = some (w :: ws, rest))
    (hnul : 0 ∉ src) : Word w := by
  rw [parseArgs] at h
  split_ifs at h with hnil
  split at h
  · cases h
  · next ws' rest' _ =>
    have hw : (src.dropWhile isspace).takeWhile (!isspace ·) = w :=
      (List.cons.inj (Prod.mk.inj (Option.some.inj h)).1).1
    rw [← hw]
    refine ⟨hnil, fun c hc => ⟨by simpa using List.mem_takeWhile_imp hc, ?_⟩⟩
    rintro rfl
    exact hnul ((List.dropWhile_suffix _).subset ((List.takeWhile_prefix _).subset hc))

theorem Word.take (hw : Word w) {n : ℕ} (hn : 0 < n) : Word (w.take n) := by
  refine ⟨?_, fun c hc => hw.plain c (List.mem_of_mem_take hc)⟩
  intro hnil
  rcases List.take_eq_nil_iff.mp hnil with h | h
  · omega
  · exact hw.ne_nil h

theorem cstr_no_nul (buf : List Byte) : 0 ∉ cstr buf := by
  intro h
  exact absurd (List.mem_takeWhile_imp h) (by decide)

theorem toSigned64_range (n : ℕ) : -2 ^ 63 ≤ toSigned64 n ∧ toSigned64 n < 2 ^ 63 := by
  unfold toSigned64
  split_ifs <;> omega

theorem safeAtol_range (x : Str) : -2 ^ 63 ≤ safeAtol x ∧ safeAtol x < 2 ^ 63 := by
  unfold safeAtol
  split
  · omega
  · exact toSigned64_range _

/-- The netname is a word that fits its record, size and time are 64-bit numbers. -/
structure FileForm (file : TFile) : Prop where
  name : Netname file.netname
  size : -2 ^ 63 ≤ file.size ∧ file.size < 2 ^ 63
  time : -2 ^ 63 ≤ file.time ∧ file.time < 2 ^ 63

theorem FileGiven.form (h : FileGiven file) : FileForm file := by
  obtain ⟨buf, name, size, time, off, rest, env, s, hargs, hnone, rfl⟩ := h
  have hword := parseArgs_head hargs (cstr_no_nul buf)
  rw [newIn, if_neg (by rw [hnone]; decide)]
  exact ⟨⟨hword.take (by decide), List.length_take_le _ _⟩, toSigned64_range _, safeAtol_range _⟩

/-! ### Resuming -/

/-- `creat_tmp_name` has written the header for a file, with the address as the sender. -/
def HeaderWritten (file : TFile) (a : FtnAddr) (path : Str) (f : FileInfo) : Prop :=
  ∃ (env : Env) (dir : Str) (fuel k : ℕ) (s s' : State),
    creatTmpName env file dir fuel k s = some (path, s') ∧
    s.login.fa.head? = some a ∧ s'.disk.lookup path = some f

/-- The search of a session comes to the header, and can open it. -/
structure ComesToHeader (config : BinkdConfig) (env : Env) (file : TFile) (path : Str) (f : FileInfo)
    (s t : State) :
    Prop where
  visits : (path, t) ∈ comesTo config env (some file) s
  there : t.disk.lookup path = some f
  opens : env.fault (.openR path) = none

/-- Name, size and time are the same, the time up to its lowest bit. -/
def SameVersion (file file' : TFile) : Prop :=
  file'.netname = file.netname ∧ file'.size = file.size ∧ evenTime file'.time = evenTime file.time

/-- Whenever the search of a later session comes to the header: where it is for the file, and the
session holds the address, the temporary file of the header is found; where it is for another file,
the header is left. -/
structure Resumes (pDomains : List FtnDomain) (file : TFile) (a : FtnAddr) : Prop where
  takes : ∀ path f, HeaderWritten file a path f → ∀ config env file' s t, config.pDomains = pDomains →
    SameVersion file file' → a ∈ s.login.active → ComesToHeader config env file' path f s t →
      (findTmpName config env (some file') s).1 = .found (setExt path (str ".dt"))
  leaves : ∀ path f, HeaderWritten file a path f → ∀ config env file' s t, config.pDomains = pDomains →
    ¬ SameVersion file file' → ComesToHeader config env file' path f s t →
      (findTmp1 config env (some file') path t).1 = none

theorem HeaderWritten.line (h : HeaderWritten file a path f) : f.bytes = hrLine file (some a) := by
  obtain ⟨env, dir, fuel, k, s, s', hmade, hfa, hf⟩ := h
  obtain ⟨g, hg, hline⟩ := creatTmpName_line hmade
  rw [hf] at hg
  obtain rfl := Option.some.inj hg
  rw [hline, hfa]

theorem ComesToHeader.read (h : ComesToHeader config env file' path f s t)
    (hline : f.bytes = hrLine file (some a))
    (hfile : FileForm file) (hquote : 34 ∉ file.netname) (ha : a.Fits) :
    readHr env t.disk path = some (some ((senderRead a).map fun sender =>
      ⟨file.netname, decimal (toUnsigned64 file.size), decimal (toUnsigned64 file.time), sender⟩)) := by
  have hopen : t.disk.fopenR env path = some ⟨path, f.bytes, 0⟩ := by
    rw [Disk.fopenR, h.opens, h.there]
    rfl
  exact readHr_header hfile.name hquote ha hopen hline

/-- A header that is read back is taken for its file, and left for another one. -/
theorem resumes_of_back (hfile : FileForm file) (ha : a.Fits) (hquote : 34 ∉ file.netname)
    (hback : SenderBack pDomains a) :
    Resumes pDomains file a := by
  obtain ⟨w, hw, b, hb, hcmp⟩ := hback
  have hsize := size_decimal hfile.size.1 hfile.size.2
  have htime := safeAtol_decimal hfile.time.1 hfile.time.2
  have hread : ∀ {path f config env file' s t}, HeaderWritten file a path f →
    ComesToHeader config env file' path f s t →
      readHr env t.disk path = some (some (some
        ⟨file.netname, decimal (toUnsigned64 file.size), decimal (toUnsigned64 file.time), w⟩)) := by
    intro path f config env file' s t hwritten hcomes
    have h := hcomes.read hwritten.line hfile hquote ha
    rw [Option.mem_def.mp hw] at h
    exact h
  refine ⟨?_, ?_⟩
  · intro path f hwritten config env file' s t hdomains hsame hactive hcomes
    obtain ⟨hname, hsize', htime'⟩ := hsame
    have hlogin := visited_login hcomes.visits
    rw [← hlogin] at hactive
    obtain ⟨j, hj, hja⟩ := List.mem_take_iff_getElem.mp hactive
    have hjlen := lt_of_lt_of_le hj (min_le_right _ _)
    have hle : t.login.fa.findIdx (fun x => ftnaddressCmp b x = 0) ≤ j := by
      by_contra hlt
      have hno := of_decide_eq_false (List.not_of_lt_findIdx (not_le.mp hlt))
      rw [hja] at hno
      exact hno hcmp
    have hnfa := lt_of_le_of_lt hle (lt_of_lt_of_le hj (min_le_left _ _))
    have htakes : Takes config env file' path t
        ⟨file.netname, decimal (toUnsigned64 file.size), decimal (toUnsigned64 file.time), w⟩
        (t.login.fa.findIdx (fun x => ftnaddressCmp b x = 0)) := by
      refine ⟨hread hwritten hcomes, hname.symm, ?_, ?_, ?_, lt_of_le_of_lt hle hjlen⟩
      · rw [hsize, hsize']
      · rw [htime, htime']
      · rw [senderIndex, hdomains, Option.mem_def.mp hb]
        rfl
    rw [findTmpName_stops hcomes.visits (htakes.found hnfa)]
  · intro path f hwritten config env file' s t _ hother hcomes
    cases hstep : (findTmp1 config env (some file') path t).1 with
    | none => rfl
    | some r =>
      obtain ⟨hr, i, htakes, -⟩ := findTmp1_takes (Prod.ext hstep rfl)
      have hsaid := htakes.read
      rw [hread hwritten hcomes] at hsaid
      obtain rfl := Option.some.inj (Option.some.inj (Option.some.inj hsaid))
      have hsize' := htakes.size
      have htime' := htakes.time
      rw [hsize] at hsize'
      rw [htime] at htime'
      exact absurd ⟨htakes.name.symm, hsize', htime'⟩ hother

/-! ### A session that resumes -/

/-- A session that holds one address, with a disk. -/
def holding (a : FtnAddr) (disk : Disk) : State :=
  { inboundStart with
    login := { inboundStart.login with fa := [a], nfa := 1 }
    rx := { inboundStart.rx with inbound := str "/n" }
    disk := disk }

/-- The name of a header. -/
def firstHeader : Str := str "/n/00000000.hr"

/-- The inbound with one header. -/
def withHeader (file : TFile) (a : FtnAddr) : Disk :=
  inboundStart.disk.insert firstHeader { bytes := hrLine file (some a) }

theorem header_written (file : TFile) (a : FtnAddr) :
    HeaderWritten file a firstHeader { bytes := hrLine file (some a) } := by
  refine ⟨{}, str "/n", 1, 0, holding a inboundStart.disk,
    { holding a inboundStart.disk with
      disk := (inboundStart.disk.insert firstHeader {}).insert firstHeader { bytes := hrLine file (some a) } },
    ?_, rfl, AList.lookup_insert _⟩
  rfl

theorem header_listed (file : TFile) (a : FtnAddr) :
    (withHeader file a).readdir {} (str "/n") = some [str "00000000.hr"] := by
  rfl

/-- A session comes to the header. -/
theorem header_visited (config : BinkdConfig) (hdir : config.tempInbound = []) (file file' : TFile)
    (a : FtnAddr) :
    ComesToHeader config {} file' firstHeader { bytes := hrLine file (some a) }
    (holding a (withHeader file a))
      (holding a (withHeader file a)) := by
  have htmp : tmpDir config (holding a (withHeader file a)) = str "/n" := by
    rw [tmpDir, if_neg (not_not.mpr hdir)]
    rfl
  refine ⟨?_, AList.lookup_insert _, rfl⟩
  have hvisit := @comesTo_single config {} (holding a (withHeader file a)) file' (str "00000000.hr")
    (by rw [htmp]; exact header_listed file a) (by decide)
  rw [htmp] at hvisit
  exact hvisit

/-- Where a session takes the header for its file, it was read back. -/
theorem back_of_resumes (hfile : FileForm file) (ha : a.Fits) (h : Resumes pDomains file a) :
    34 ∉ file.netname ∧ SenderBack pDomains a := by
  have hcomes := header_visited { inboundConfig with pDomains := pDomains } rfl file file a
  have hfound := h.takes _ _ (header_written file a) _ _ file _ _ rfl ⟨rfl, rfl, rfl⟩ List.mem_cons_self hcomes
  have hfirst := findTmpName_single (header_listed file a) (by decide) hfound
  obtain ⟨hr, i, htakes, -⟩ := findTmp1_takes (Prod.ext hfirst rfl)
  have hquote : 34 ∉ file.netname := htakes.name ▸ readHr_unquoted htakes.read
  refine ⟨hquote, ?_⟩
  have hread := hcomes.read rfl hfile hquote ha
  have hsaid : readHr {} (holding a (withHeader file a)).disk firstHeader = some (some (some hr)) :=
    htakes.read
  rw [hread] at hsaid
  obtain ⟨w, hw, rfl⟩ := Option.map_eq_some_iff.mp (Option.some.inj (Option.some.inj hsaid))
  obtain ⟨b, hb, rfl⟩ := Option.map_eq_some_iff.mp htakes.sender
  obtain ⟨x, hx, hcmp⟩ := List.findIdx_lt_length.mp htakes.ours
  obtain rfl := List.mem_singleton.mp hx
  exact ⟨w, hw, b, hb, of_decide_eq_true hcmp⟩

/-- **Resuming a partial file**: for every file that an `M_FILE` gives and every address, the header
that `creat_tmp_name` writes is taken for the file by each later session that holds the address, and
for no other file, exactly where the netname has no quotation mark and the address is read back. -/
theorem resume_round_trip (hfile : FileGiven file) (ha : a.Fits) :
    Resumes pDomains file a ↔ 34 ∉ file.netname ∧ SenderBack pDomains a :=
  ⟨back_of_resumes hfile.form ha, fun ⟨hquote, hback⟩ => resumes_of_back hfile.form ha hquote hback⟩

/-- The file that a text with four words gives. -/
def givenFile (name size time : Str) : TFile :=
  { netname := name.take (maxNetname - 1), size := toSigned64 (strtoumax size), time := safeAtol time }

theorem fileGiven_of_words {buf : List Byte} {name size time off rest : Str}
    (h : parseArgs 4 (cstr buf) = some ([name, size, time, off], rest)) :
    FileGiven (givenFile name size time) :=
  ⟨buf, name, size, time, off, rest, {}, inboundStart, h, rfl, rfl⟩

theorem resume_round_trip_plain : Resumes inboundConfig.pDomains
    (givenFile (str "a") (str "5") (str "0")) (aka 1) :=
  (resume_round_trip
    (@fileGiven_of_words (str "a 5 0 0") (str "a") (str "5") (str "0") (str "0") [] (by decide +kernel))
    (by decide)).mpr ⟨by decide, str "2:5020/1@fidonet", by decide +kernel,
      aka 1, by decide +kernel, by decide⟩

/-- A quotation mark in the netname: the header is not found again. -/
theorem quoted_name_lost : FileGiven (givenFile (str "a\"b") (str "5") (str "0")) ∧ (aka 1).Fits ∧
    ¬ Resumes inboundConfig.pDomains (givenFile (str "a\"b") (str "5") (str "0")) (aka 1) := by
  have hgiven := @fileGiven_of_words (str "a\"b 5 0 0") (str "a\"b") (str "5") (str "0") (str "0") [] (by decide +kernel)
  refine ⟨hgiven, by decide, fun h => ?_⟩
  exact absurd (back_of_resumes hgiven.form (by decide) h).1 (by decide)

end Binkd
