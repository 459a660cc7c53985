import Binkd.Misc.FreqPaths
import Binkd.Misc.Scan

/-!
# A run of `freq` (`main` of `misc/freq.c`)

A run appends the names of its command line to the request file and removes the file when it
meets an unsafe name.  What had been requested before is then lost (`freq_refused_intact`).
-/

namespace Binkd

/-! ### The arguments -/

/-- What the flags of `freq` set. -/
structure FreqOptions where
  useBso : Bool := false
  useZoneExt : Bool := false
  update : Bool := false
  password : Str := []
  newerThan : Int := 0

/-- Why a run ends. -/
inductive FreqExit
  | badTime | usage | noPath | notDirectory | badAddress | noOutbound | noReq | unsafeName | noFiles | noClo | done
deriving DecidableEq

/-- The system around a run. -/
structure FreqSystem where
  now : Int
  makeAbsPath : Str → Option Str
  isDirectory : Str → Bool
  /-- a directory is there or can be made -/
  mkdir : Str → Bool
  /-- `fopen (path, "a")` succeeds -/
  opens : Str → Bool
  /-- `remove (path)` succeeds -/
  removes : Str → Bool

/-- The value of `--newer-than`: with one of the letters of a suffix it is counted from now. -/
def newerThan (now : Int) (arg : Str) : Option Int :=
  let parsed := parseTime arg
  if parsed < 0 then none
  else if arg.any fun c => c ∈ str "smhdSMHD" then
    if parsed = 0 then none else some (now - parsed)
  else some parsed

/-- The flags of `main`, up to the first argument that is none; `none` for a time that is none. -/
def parseFlags (now : Int) : List Str → FreqOptions → Option (FreqOptions × List Str)
  | [], o => some (o, [])
  | a :: args, o =>
    if a = str "--bso" then parseFlags now args { o with useBso := true }
    else if a = str "--aso" then parseFlags now args { o with useBso := false }
    else if a = str "--zone-ext" then parseFlags now args { o with useZoneExt := true }
    else if a = str "--update" then parseFlags now args { o with update := true }
    else match args with
      | [] => some (o, [a])
      | v :: rest =>
        if a = str "--password" then parseFlags now rest { o with password := v }
        else if a = str "--newer-than" then
          match newerThan now v with
          | none => none
          | some t => parseFlags now rest { o with newerThan := t }
        else some (o, a :: v :: rest)

/-- `sscanf (addr, "%u:%u/%u.%u")`, where at least the first three are there. -/
def scanAddress (addr : Str) : Option (ℕ × ℕ × ℕ × ℕ) :=
  match scanU addr with
  | some (zone, 58 :: s) => match scanU s with
    | some (net, 47 :: s) => match scanU s with
      | some (node, 46 :: s) => some (zone, net, node, ((scanU s).map (·.1)).getD 0)
      | some (node, _) => some (zone, net, node, 0)
      | none => none
    | _ => none
  | _ => none

/-- What a run writes, and where. -/
structure FreqJob where
  options : FreqOptions
  reqPath : Str
  cloPath : Str
  names : List Str

/-- `main` up to the files. -/
def freqSetup (sys : FreqSystem) (argv : List Str) : Except FreqExit FreqJob :=
  match parseFlags sys.now argv {} with
  | none => .error .badTime
  | some (o, argOutbound :: argAddr :: name :: names) =>
    match sys.makeAbsPath argOutbound with
    | none => .error .noPath
    | some outbound =>
      if !sys.isDirectory outbound then .error .notDirectory
      else match scanAddress (argAddr.take 127) with
        | none => .error .badAddress
        | some (zone, net, node, point) =>
          let paths := if o.useBso then buildBsoPaths sys.mkdir outbound zone net node point o.useZoneExt
            else buildAsoPaths sys.mkdir outbound zone net node point
          match paths with
          | none => .error .noOutbound
          | some (req, clo) => .ok ⟨o, req, clo, name :: names⟩
  | some _ => .error .usage

/-! ### The files -/

/-- The loop over the names: are all safe, and what has been written? -/
def freqLoop (o : FreqOptions) : List Str → Bool × List Byte
  | [] => (true, [])
  | fname :: names =>
    if !isSafeFilename fname then (false, [])
    else
      let r := freqLoop o names
      (r.1, reqLine ⟨fname, o.password, o.newerThan, o.update⟩ ++ r.2)

/-- The content of a file behind `fopen (path, "a")`, some writes and `fclose`. -/
def Disk.append (now : Int) (disk : Disk) (path : Str) (bytes : List Byte) : Disk :=
  disk.insert path { bytes := ((disk.lookup path).map (·.bytes)).getD [] ++ bytes, mtime := now }

/-- `main` from the first file on. -/
def freqWrite (sys : FreqSystem) (job : FreqJob) (disk : Disk) : FreqExit × Disk :=
  if !sys.opens job.reqPath then (.noReq, disk)
  else
    let r := freqLoop job.options job.names
    let disk := disk.append sys.now job.reqPath r.2
    if !r.1 then (.unsafeName, if sys.removes job.reqPath then disk.erase job.reqPath else disk)
    else if job.names = [] then (.noFiles, disk)
    else if !sys.opens job.cloPath then (.noClo, disk)
    else (.done, disk.append sys.now job.cloPath (job.reqPath ++ str "\r\n"))

/-- `main`. -/
def freqMain (sys : FreqSystem) (argv : List Str) (disk : Disk) : FreqExit × Disk :=
  match freqSetup sys argv with
  | .error e => (e, disk)
  | .ok job => freqWrite sys job disk

/-! ### A refused name -/

variable {sys : FreqSystem} {argv : List Str} {disk : Disk} {job : FreqJob}

theorem freqLoop_safe (o : FreqOptions) {fname : Str} (hsafe : isSafeFilename fname = true)
    (names : List Str) :
    freqLoop o (fname :: names) =
      ((freqLoop o names).1, reqLine ⟨fname, o.password, o.newerThan, o.update⟩ ++ (freqLoop o names).2) := by
  rw [freqLoop, hsafe]
  rfl

theorem freqLoop_refused (o : FreqOptions) {fname : Str} (hbad : isSafeFilename fname = false)
    (names : List Str) :
    freqLoop o (fname :: names) = (false, []) := by
  rw [freqLoop, hbad]
  rfl

/-- The loop is the writer of the request lines, which keeps what it had written before a refused
name. -/
theorem freqLoop_append (o : FreqOptions) : ∀ names : List Str,
    freqAppend o.password o.newerThan o.update names = if (freqLoop o names).1 then some
    (freqLoop o names).2 else none := by
  intro names
  induction names with
  | nil => rfl
  | cons fname names ih =>
    rw [freqAppend]
    cases hsafe : isSafeFilename fname with
    | true =>
      rw [if_pos rfl, ih, freqLoop_safe o hsafe]
      dsimp only
      split_ifs <;> rfl
    | false =>
      rw [freqLoop_refused o hsafe]
      rfl

/-- Nothing has been written exactly where the first name is refused. -/
theorem freqLoop_nil (o : FreqOptions) {names : List Str} (hbad : (freqLoop o names).1 = false) :
    (freqLoop o names).2 = [] ↔ names.head?.all (fun fname => !isSafeFilename fname) := by
  cases names with
  | nil => exact Bool.noConfusion hbad
  | cons fname names =>
    rw [List.head?_cons, Option.all_some]
    cases hsafe : isSafeFilename fname with
    | true =>
      rw [freqLoop_safe o hsafe]
      refine iff_of_false ?_ (by decide)
      intro hnil
      have hlen := congrArg List.length hnil
      have hcrlf : (str "\r\n").length = 2 := by decide
      simp only [reqLine, List.length_append, List.length_nil, hcrlf] at hlen
      omega
    | false =>
      rw [freqLoop_refused o hsafe]
      exact iff_of_true rfl rfl

/-- The content of a file, if it is there. -/
def Disk.content (disk : Disk) (path : Str) : Option (List Byte) := (disk.lookup path).map (·.bytes)

theorem content_append (now : Int) (disk : Disk) (path p : Str) (bytes : List Byte) :
    (disk.append now path bytes).content p =
      if p = path then some ((disk.content path).getD [] ++ bytes) else disk.content p := by
  unfold Disk.append Disk.content
  split_ifs with hp
  · rw [hp, AList.lookup_insert]
    rfl
  · rw [AList.lookup_insert_ne hp]

theorem content_erase (disk : Disk) (path p : Str) :
    Disk.content (disk.erase path) p = if p = path then none else disk.content p := by
  unfold Disk.content
  split_ifs with hp
  · rw [hp, AList.lookup_erase]
    rfl
  · rw [AList.lookup_erase_ne hp]

/-- The request file and the list of files are as they were. -/
def Intact (job : FreqJob) (disk disk' : Disk) : Prop :=
  disk'.content job.reqPath = disk.content job.reqPath ∧
    disk'.content job.cloPath = disk.content job.cloPath

instance decidableIntact (job : FreqJob) (disk disk' : Disk) : Decidable (Intact job disk disk') :=
  inferInstanceAs (Decidable (_ ∧ _))

/-- A request file is not lost: there was none; or it cannot be removed, and nothing has been
written to it. -/
def KeepsRequests (sys : FreqSystem) (job : FreqJob) (disk : Disk) : Prop :=
  if sys.removes job.reqPath then disk.content job.reqPath = none
  else (disk.content job.reqPath).isSome ∧ job.names.head?.all (fun fname => !isSafeFilename fname)

instance decidableKeepsRequests (sys : FreqSystem) (job : FreqJob) (disk : Disk) :
    Decidable (KeepsRequests sys job disk) := by
  unfold KeepsRequests
  infer_instance

/-- A run that ends with a refused name leaves the outbound as it was exactly where no earlier
requests were waiting, or where the file could not be removed and nothing had been written. -/
theorem freq_refused_intact (hjob : freqSetup sys argv = .ok job)
    (hexit : (freqMain sys argv disk).1 = .unsafeName) :
    Intact job disk (freqMain sys argv disk).2 ↔ KeepsRequests sys job disk := by
  have hmain : freqMain sys argv disk = freqWrite sys job disk := by
    rw [freqMain, hjob]
  rw [hmain] at hexit ⊢
  unfold freqWrite at hexit ⊢
  by_cases hopen : (!sys.opens job.reqPath) = true
  · rw [if_pos hopen] at hexit
    exact absurd hexit (by simp)
  rw [if_neg hopen] at hexit ⊢
  dsimp only at hexit ⊢
  by_cases hbad : (!(freqLoop job.options job.names).1) = true
  · rw [if_pos hbad]
    dsimp only
    -- the list of files can be the request file itself, where the name is cut
    have hone {disk' : Disk} (h : ∀ p, p ≠ job.reqPath → disk'.content p = disk.content p) :
        Intact job disk disk' ↔ disk'.content job.reqPath = disk.content job.reqPath := by
      constructor
      · exact fun h => h.1
      · intro hreq
        refine ⟨hreq, ?_⟩
        by_cases hp : job.cloPath = job.reqPath
        · rw [hp, hreq]
        · exact h _ hp
    unfold KeepsRequests
    split_ifs with hremove
    · rw [hone (fun p hp => by rw [content_erase, if_neg hp, content_append, if_neg hp])]
      rw [content_erase, if_pos rfl]
      exact eq_comm
    · rw [hone (fun p hp => by rw [content_append, if_neg hp])]
      rw [content_append, if_pos rfl, ← freqLoop_nil job.options (by simpa using hbad)]
      cases disk.content job.reqPath with
      | none => simp
      | some old => simp
  · rw [if_neg hbad] at hexit
    split_ifs at hexit

/-- Plain arguments, on a system where everything succeeds. -/
def plainSystem : FreqSystem where
  now := 0
  makeAbsPath := some
  isDirectory _ := true
  mkdir _ := true
  opens _ := true
  removes _ := true

/-- A disk with a request of an earlier run. -/
def requestDisk : Disk := (∅ : Disk).insert (str "/out/2.5047.13.0.req") { bytes := str "OLD.ZIP\r\n" }

/-- The second name is refused, and the request of the earlier run is gone. -/
theorem earlier_request_lost :
    (freqMain plainSystem [str "/out", str "2:5047/13", str "A.ZIP", str "../B"] requestDisk).1 = .unsafeName ∧
    requestDisk.content (str "/out/2.5047.13.0.req") = some (str "OLD.ZIP\r\n") ∧
    (freqMain plainSystem [str "/out", str "2:5047/13", str "A.ZIP", str "../B"] requestDisk).2.content
      (str "/out/2.5047.13.0.req") = none := by
  decide +kernel

/-- Without an earlier request nothing is lost. -/
theorem no_request_kept :
    Intact ⟨{}, str "/out/2.5047.13.0.req", str "/out/2.5047.13.0.clo", [str "A.ZIP", str "../B"]⟩ ∅
      (freqMain plainSystem [str "/out", str "2:5047/13", str "A.ZIP", str "../B"] ∅).2 := by
  have hjob : freqSetup plainSystem [str "/out", str "2:5047/13", str "A.ZIP", str "../B"] =
      .ok ⟨{}, str "/out/2.5047.13.0.req", str "/out/2.5047.13.0.clo", [str "A.ZIP", str "../B"]⟩ := by
    rfl
  exact (freq_refused_intact hjob (by decide +kernel)).mpr (by decide +kernel)

end Binkd
