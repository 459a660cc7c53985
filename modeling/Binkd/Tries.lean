import Binkd.Ftnq

/-!
# Try files and held calls (`ftnq.c`, `client.c`)

The results of the calls of a node are counted in its try file.  After a run of calls the two
counts are the failures in a row and the successes, up to the rules that `bad_try` and
`good_try` have for them, and the node is held back exactly after as many failures as the
configuration says (`call_failures`).
-/

namespace Binkd

/-- The options of a configuration that the calls below read. -/
structure TryConfig extends BinkdConfig where
  tries : ℕ
  hold : Int
  removeTryFiles : Bool

/-- What has been done for a node: the results of its calls, and what they led to. -/
inductive TryLog
  | bad | good
  | hold (holdUntil : Int) | wrote (nok nbad : ℕ) | removed
deriving DecidableEq

/-- The disk, `hold_until` of the node's record (`none` where `get_node_info` finds no record) and
what has been done, the newest first. -/
structure TryState where
  disk : Disk
  holdUntil : Option Int
  log : List TryLog

/-- The outbound name of a node with an extension, as `strnzcat` leaves it in the buffer. -/
def outboundFile (config : TryConfig) (fa : FtnAddr) (ext : String) : Str :=
  (ftnaddressToFilename fa config.pDomains ++ str ext).take maxPathLen

/-- Has the node a name in the outbound? -/
def Outbound (config : TryConfig) (fa : FtnAddr) : Prop := ftnaddressToFilename fa config.pDomains ≠ []

instance decidableOutbound (config : TryConfig) (fa : FtnAddr) : Decidable (Outbound config fa) :=
  inferInstanceAs (Decidable (_ ≠ _))

/-- `hold_node`; `%lu` prints the time as an `unsigned long`. -/
def holdNode (config : TryConfig) (env : Env) (fa : FtnAddr) (holdUntil : Int) (s : TryState) :
    TryState :=
  let s := { s with log := .hold holdUntil :: s.log }
  let buf := outboundFile config fa ".hld"
  if Outbound config fa ∧ (env.fault (.openW buf)).isNone then
    { s with
      disk := (s.disk.rewrite env buf (decimal (holdUntil % 2 ^ 64).toNat)).1
      holdUntil := s.holdUntil.map fun _ => holdUntil }
  else s

/-- The bytes of a `.try` file. -/
def tryBytes (nok nbad : ℕ) (comment : Str) : List Byte :=
  [(nok % 256).toUInt8, (nok / 256).toUInt8, (nbad % 256).toUInt8, (nbad / 256).toUInt8,
    comment.length.toUInt8] ++ comment

/-- `write_try`. -/
def writeTry (config : TryConfig) (env : Env) (fa : FtnAddr) (nok nbad : ℕ) (comment : Str) (s : TryState) : TryState :=
  if config.tries > 0 ∧ Outbound config fa then
    { s with
      disk := (s.disk.rewrite env (outboundFile config fa ".try") (tryBytes nok nbad comment)).1
      log := .wrote nok nbad :: s.log }
  else s

/-- `fscanf (f, "%c%c%c%c", …)` and the two counts: the good tries and the bad ones. -/
def scanTry : List Byte → ℕ × ℕ
  | ch1 :: ch2 :: ch3 :: ch4 :: _ => (ch1.toNat + ch2.toNat * 256, ch3.toNat + ch4.toNat * 256)
  | _ => (0, 0)

/-- `read_try`.  For a node without a name the counts stay what the caller's variables held, and
nothing is written then. -/
def readTry (config : TryConfig) (env : Env) (fa : FtnAddr) (disk : Disk) : ℕ × ℕ :=
  if ¬ Outbound config fa then (0, 0)
  else ((disk.fopenR env (outboundFile config fa ".try")).map fun f => scanTry f.bytes).getD (0, 0)

/-- `bad_try`. -/
def badTry (config : TryConfig) (env : Env) (fa : FtnAddr) (error : Str) (s : TryState) : TryState :=
  let s := { s with log := .bad :: s.log }
  if config.tries = 0 then s
  else
    let (nok, nbad) := readTry config env fa s.disk
    let nbad := nbad + 1
    if nbad ≥ config.tries then
      writeTry config env fa 0 0 error (holdNode config env fa (env.now + config.hold) s)
    else writeTry config env fa nok nbad error s

/-- `remove_try`. -/
def removeTry (config : TryConfig) (env : Env) (fa : FtnAddr) (s : TryState) : TryState :=
  let buf := outboundFile config fa ".try"
  if config.tries = 0 ∨ ¬ Outbound config fa then s
  else
    let s := { s with log := .removed :: s.log }
    if (s.disk.stat env buf).isSome then { s with disk := (s.disk.delete env buf).1 } else s

/-- `good_try`. -/
def goodTry (config : TryConfig) (env : Env) (fa : FtnAddr) (comment : Str) (s : TryState) : TryState :=
  let s := { s with log := .good :: s.log }
  if config.tries = 0 then s
  else if config.removeTryFiles then removeTry config env fa s
  else
    let (nok, _) := readTry config env fa s.disk
    writeTry config env fa (nok + 1) 0 comment s

/-! ### What the calls do when no file operation fails -/

/-- No file operation fails. -/
def Env.Sound (env : Env) : Prop := ∀ op, env.fault op = none

/-- The failures since the last success or the last hold; `c` of them stood in the file at the start. -/
def streak (c : ℕ) : List TryLog → ℕ
  | [] => c
  | .bad :: l => streak c l + 1
  | .good :: _ => 0
  | .hold _ :: _ => 0
  | .wrote _ _ :: l => streak c l
  | .removed :: l => streak c l

/-- The number of failures that was last written; a file that has been removed stands for none. -/
def lastWritten (c : ℕ) : List TryLog → ℕ
  | .wrote _ nbad :: _ => nbad
  | .removed :: _ => 0
  | .bad :: l => lastWritten c l
  | .good :: l => lastWritten c l
  | .hold _ :: l => lastWritten c l
  | [] => c

variable {config : TryConfig} {env env' : Env} {fa : FtnAddr} {s : TryState} {c : ℕ}

theorem rewrite_sound (henv : env.Sound) (disk : Disk) (path : Str) (bytes : List Byte) :
    disk.rewrite env path bytes = (disk.insert path { bytes := bytes, mtime := env.now }, true) := by
  simp [Disk.rewrite, henv (.openW path), henv (.write path), henv (.close path)]

/-- What `read_try` reads does not depend on the environment. -/
theorem readTry_sound (henv : env.Sound) (hout : Outbound config fa) (disk : Disk) :
    readTry config env fa disk =
      ((disk.lookup (outboundFile config fa ".try")).map fun f => scanTry f.bytes).getD (0, 0) := by
  rw [readTry, if_neg (not_not_intro hout)]
  simp [Disk.fopenR, henv (.openR _), Function.comp_def]

theorem byte_of_lt {n : ℕ} (h : n < 256) : n.toUInt8.toNat = n := by
  simp only [UInt8.toNat_ofNat', Nat.reducePow]
  omega

/-- The counts of a file that has been written; the good tries wrap around. -/
theorem scanTry_tryBytes {nok nbad : ℕ} (hbad : nbad < 65536) (comment : Str) :
    scanTry (tryBytes nok nbad comment) = (nok % 65536, nbad) := by
  have hlow : (nok % 256).toUInt8.toNat = nok % 256 := byte_of_lt (Nat.mod_lt _ (by decide))
  have hlow' : (nbad % 256).toUInt8.toNat = nbad % 256 := byte_of_lt (Nat.mod_lt _ (by decide))
  have hhigh' : (nbad / 256).toUInt8.toNat = nbad / 256 := byte_of_lt (by omega)
  have hhigh : (nok / 256).toUInt8.toNat = nok / 256 % 256 := UInt8.toNat_ofNat'
  simp only [tryBytes, List.cons_append, scanTry, hlow, hhigh, hlow', hhigh', Prod.mk.injEq]
  omega

/-- Behind `write_try` the file holds the counts. -/
theorem readTry_writeTry (henv : env.Sound) (henv' : env'.Sound) (htries : 0 < config.tries)
    (hout : Outbound config fa)
    {nok nbad : ℕ} (hbad : nbad < 65536) (comment : Str) (s : TryState) :
    readTry config env' fa (writeTry config env fa nok nbad comment s).disk = (nok % 65536, nbad) := by
  rw [writeTry, if_pos ⟨htries, hout⟩, readTry_sound henv' hout, rewrite_sound henv]
  simp [AList.lookup_insert, scanTry_tryBytes hbad]

/-- A removed file counts for nothing. -/
theorem readTry_removeTry (henv : env.Sound) (henv' : env'.Sound) (htries : 0 < config.tries)
    (hout : Outbound config fa)
    (s : TryState) : readTry config env' fa (removeTry config env fa s).disk = (0, 0) := by
  have hno : ¬ (config.tries = 0 ∨ ¬ Outbound config fa) := by
    rintro (h | h)
    · omega
    · exact h hout
  rw [readTry_sound henv' hout, removeTry]
  simp only [if_neg hno, Disk.stat, henv (.stat _), Option.isSome_none, Bool.false_eq_true, if_false]
  by_cases hsome : (s.disk.lookup (outboundFile config fa ".try")).isSome
  · simp only [if_pos hsome, Disk.delete, henv (.unlink _), Option.isSome_none,
      Bool.false_eq_true, false_or]
    rw [if_neg (by simpa [Option.isNone_iff_eq_none, Option.isSome_iff_ne_none] using hsome)]
    simp [AList.lookup_erase]
  · rw [if_neg hsome]
    simp [Option.not_isSome_iff_eq_none.mp hsome]

/-- The node has been put on hold: so says its record, and its `.hld` file. -/
structure Held (config : TryConfig) (fa : FtnAddr) (now : Int) (s s' : TryState) : Prop where
  record : s'.holdUntil = s.holdUntil.map fun _ => now + config.hold
  log : s'.log = .wrote 0 0 :: .hold (now + config.hold) :: .bad :: s.log
  file : outboundFile config fa ".hld" ≠ outboundFile config fa ".try" →
    s'.disk.lookup (outboundFile config fa ".hld") =
      some { bytes := decimal ((now + config.hold) % 2 ^ 64).toNat, mtime := now }

/-- The node has not been put on hold: the count has been written, and no more. -/
structure NotHeld (config : TryConfig) (fa : FtnAddr) (s s' : TryState) : Prop where
  record : s'.holdUntil = s.holdUntil
  log : ∃ nok nbad, s'.log = .wrote nok nbad :: .bad :: s.log
  file : outboundFile config fa ".hld" ≠ outboundFile config fa ".try" →
    s'.disk.lookup (outboundFile config fa ".hld") = s.disk.lookup (outboundFile config fa ".hld")

theorem writeTry_eq (htries : 0 < config.tries) (hout : Outbound config fa) (nok nbad : ℕ)
    (comment : Str) (s : TryState) :
    writeTry config env fa nok nbad comment s =
      { s with
        disk := (s.disk.rewrite env (outboundFile config fa ".try") (tryBytes nok nbad comment)).1
        log := .wrote nok nbad :: s.log } := by
  rw [writeTry, if_pos ⟨htries, hout⟩]

/-- `bad_try` with a count that reaches the limit. -/
theorem badTry_held (henv : env.Sound) (htries : 0 < config.tries) (hout : Outbound config fa) (error : Str)
    (hge : config.tries ≤ (readTry config env fa s.disk).2 + 1) :
    badTry config env fa error s = writeTry config env fa 0 0 error
      (holdNode config env fa (env.now + config.hold) { s with log := .bad :: s.log }) ∧
    Held config fa env.now s (badTry config env fa error s) := by
  have hbad : badTry config env fa error s = writeTry config env fa 0 0 error
      (holdNode config env fa (env.now + config.hold) { s with log := .bad :: s.log }) := by
    unfold badTry
    rw [if_neg htries.ne']
    exact if_pos hge
  have hhold : Outbound config fa ∧ (env.fault (.openW (outboundFile config fa ".hld"))).isNone :=
    ⟨hout, by rw [henv]; rfl⟩
  refine ⟨hbad, ?_⟩
  rw [hbad, writeTry_eq htries hout, holdNode, if_pos hhold]
  refine ⟨rfl, rfl, ?_⟩
  intro hne
  simp [rewrite_sound henv, AList.lookup_insert_ne hne, AList.lookup_insert]

/-- `bad_try` with a count below it. -/
theorem badTry_notHeld (henv : env.Sound) (htries : 0 < config.tries) (hout : Outbound config fa)
    (error : Str)
    (hlt : (readTry config env fa s.disk).2 + 1 < config.tries) :
    badTry config env fa error s = writeTry config env fa (readTry config env fa s.disk).1
      ((readTry config env fa s.disk).2 + 1) error { s with log := .bad :: s.log } ∧
    NotHeld config fa s (badTry config env fa error s) := by
  have hbad : badTry config env fa error s = writeTry config env fa (readTry config env fa s.disk).1
      ((readTry config env fa s.disk).2 + 1) error { s with log := .bad :: s.log } := by
    unfold badTry
    rw [if_neg htries.ne']
    exact if_neg (Nat.not_le.mpr hlt)
  refine ⟨hbad, ?_⟩
  rw [hbad, writeTry_eq htries hout]
  refine ⟨rfl, ⟨_, _, rfl⟩, ?_⟩
  intro hne
  simp [rewrite_sound henv, AList.lookup_insert_ne hne]

/-! ### Runs of calls -/

/-- One call, and the environment it meets. -/
inductive TryCall
  | bad (env : Env) (error : Str)
  | good (env : Env) (comment : Str)

/-- The environment of a call. -/
def TryCall.meets : TryCall → Env
  | .bad env _ => env
  | .good env _ => env

def tryStep (config : TryConfig) (fa : FtnAddr) (s : TryState) : TryCall → TryState
  | .bad env error => badTry config env fa error s
  | .good env comment => goodTry config env fa comment s

def runTries (config : TryConfig) (fa : FtnAddr) (calls : List TryCall) (s : TryState) : TryState :=
  calls.foldl (tryStep config fa) s

/-- What holds between two calls: the file holds the failures since the last success or hold. -/
structure TryInv (config : TryConfig) (fa : FtnAddr) (c : ℕ) (s : TryState) : Prop where
  read : ∀ env : Env, env.Sound → (readTry config env fa s.disk).2 = lastWritten c s.log
  streak_eq : lastWritten c s.log = streak c s.log
  below : c < config.tries → streak c s.log < config.tries

theorem badTry_inv (henv : env.Sound) (htries : 0 < config.tries) (hle : config.tries ≤ 65535)
    (hout : Outbound config fa)
    (error : Str) (h : TryInv config fa c s) : TryInv config fa c (badTry config env fa error s) := by
  by_cases hge : config.tries ≤ (readTry config env fa s.disk).2 + 1
  · obtain ⟨hbad, hheld⟩ := badTry_held henv htries hout error hge
    constructor
    · intro env' henv'
      rw [hheld.log, hbad, readTry_writeTry henv henv' htries hout (by decide)]
      rfl
    · rw [hheld.log]
      rfl
    · rw [hheld.log]
      intro _
      exact htries
  · have hlt : (readTry config env fa s.disk).2 + 1 < config.tries := by omega
    obtain ⟨hbad, -⟩ := badTry_notHeld henv htries hout error hlt
    have hread := h.read env henv
    have hlog : (badTry config env fa error s).log =
        .wrote (readTry config env fa s.disk).1 ((readTry config env fa s.disk).2 + 1) :: .bad :: s.log := by
      rw [hbad, writeTry_eq htries hout]
    have hstreak : streak c (badTry config env fa error s).log = (readTry config env fa s.disk).2 + 1 := by
      rw [hlog, hread, h.streak_eq]
      rfl
    constructor
    · intro env' henv'
      rw [hlog, hbad, readTry_writeTry henv henv' htries hout (by omega)]
      rfl
    · rw [hstreak, hlog]
      rfl
    · intro _
      rw [hstreak]
      exact hlt

/-- `good_try` ends in a file that counts no failure, or in none. -/
theorem goodTry_cases (henv : env.Sound) (htries : 0 < config.tries) (hout : Outbound config fa)
    (comment : Str) (s : TryState) :
    (goodTry config env fa comment s).holdUntil = s.holdUntil ∧
    (∀ env' : Env, env'.Sound → (readTry config env' fa (goodTry config env fa comment s).disk).2 = 0) ∧
    ((goodTry config env fa comment s).log = .removed :: .good :: s.log ∨
      ∃ nok, (goodTry config env fa comment s).log = .wrote nok 0 :: .good :: s.log) := by
  unfold goodTry
  rw [if_neg htries.ne']
  by_cases hrem : config.removeTryFiles = true
  · have hno : ¬ (config.tries = 0 ∨ ¬ Outbound config fa) := by
      rintro (h | h)
      · omega
      · exact h hout
    rw [if_pos hrem]
    refine ⟨?_, ?_, .inl ?_⟩
    · rw [removeTry, if_neg hno]
      dsimp only
      split_ifs <;> rfl
    · intro env' henv'
      rw [readTry_removeTry henv henv' htries hout]
    · rw [removeTry, if_neg hno]
      dsimp only
      split_ifs <;> rfl
  · rw [if_neg hrem]
    dsimp only
    refine ⟨?_, ?_, .inr ⟨(readTry config env fa s.disk).1 + 1, ?_⟩⟩
    · rw [writeTry_eq htries hout]
    · intro env' henv'
      rw [readTry_writeTry henv henv' htries hout (by decide)]
    · rw [writeTry_eq htries hout]

theorem goodTry_inv (henv : env.Sound) (htries : 0 < config.tries) (hout : Outbound config fa)
    (comment : Str)
    (s : TryState) : TryInv config fa c (goodTry config env fa comment s) := by
  obtain ⟨-, hread, hlog⟩ := goodTry_cases henv htries hout comment s
  rcases hlog with hlog | ⟨nok, hlog⟩
  all_goals
    refine ⟨fun env' henv' => ?_, ?_, fun _ => ?_⟩
    · rw [hread env' henv', hlog]
      rfl
    · rw [hlog]
      rfl
    · rw [hlog]
      exact htries

theorem tryStep_inv (htries : 0 < config.tries) (hle : config.tries ≤ 65535)
    (hout : Outbound config fa) {call : TryCall}
    (henv : call.meets.Sound) (h : TryInv config fa c s) :
    TryInv config fa c (tryStep config fa s call) := by
  cases call with
  | bad env error => exact badTry_inv henv htries hle hout error h
  | good env comment => exact goodTry_inv henv htries hout comment s

theorem runTries_inv (htries : 0 < config.tries) (hle : config.tries ≤ 65535) (hout : Outbound config fa) :
    ∀ (calls : List TryCall) (s : TryState), (∀ call ∈ calls, call.meets.Sound) → TryInv config fa c s →
      TryInv config fa c (runTries config fa calls s) := by
  intro calls
  induction calls with
  | nil =>
    intro s _ h
    exact h
  | cons call calls ih =>
    intro s hsound h
    apply ih
    · intro call' hcall'
      exact hsound call' (List.mem_cons_of_mem call hcall')
    · exact tryStep_inv htries hle hout (hsound call List.mem_cons_self) h

/-- A configured domain gives a name. -/
theorem outbound_of_domain (hdom : (getDomainInfo fa.domain config.pDomains).isSome) :
    Outbound config fa := by
  obtain ⟨d, hd⟩ := Option.isSome_iff_exists.mp hdom
  intro hnil
  rw [ftnaddressToFilename, hd] at hnil
  have hlen := congrArg List.length hnil
  have hslash : (str "/").length = 1 := by decide
  simp only [List.length_take, List.length_append, hslash, maxPathLen, List.length_nil] at hlen
  omega

/-- The failures of a node: with files that do not fail, the count that `read_try` reads is the one
last written, it is the number of failures since the last success or hold, and a failure puts the
node on hold if and only if it is at least the `tries`-th of them; it is never more than the
`tries`-th, unless the file held as many at the start. -/
theorem call_failures (config : TryConfig) (fa : FtnAddr)
    (hdom : (getDomainInfo fa.domain config.pDomains).isSome)
    (htries : 0 < config.tries) (hle : config.tries ≤ 65535) (s0 : TryState) (hstart : s0.log = [])
    (calls : List TryCall) (hsound : ∀ call ∈ calls, call.meets.Sound) :
    let c := (readTry config {} fa s0.disk).2
    let s := runTries config fa calls s0
    (∀ env : Env, env.Sound → (readTry config env fa s.disk).2 = lastWritten c s.log) ∧
    lastWritten c s.log = streak c s.log ∧
    (c < config.tries → streak c s.log < config.tries) ∧
    (∀ env : Env, env.Sound → ∀ error,
      if config.tries ≤ streak c s.log + 1 then Held config fa env.now s (badTry config env fa error s)
      else NotHeld config fa s (badTry config env fa error s)) ∧
    ∀ env : Env, env.Sound → ∀ comment, (goodTry config env fa comment s).holdUntil = s.holdUntil ∧
      streak c (goodTry config env fa comment s).log = 0 := by
  intro c s
  have hout := outbound_of_domain hdom
  have hempty : Env.Sound {} := fun _ => rfl
  have hinit : TryInv config fa c s0 := by
    refine ⟨fun env henv => ?_, ?_, ?_⟩
    · rw [readTry_sound henv hout, ← readTry_sound hempty hout, hstart]
      rfl
    · rw [hstart]
      rfl
    · rw [hstart]
      exact id
  have hinv : TryInv config fa c s := runTries_inv htries hle hout calls s0 hsound hinit
  refine ⟨hinv.read, hinv.streak_eq, hinv.below, ?_, ?_⟩
  · intro env henv error
    have hread := hinv.read env henv
    rw [hinv.streak_eq] at hread
    split_ifs with hge
    · exact (badTry_held henv htries hout error (by omega)).2
    · exact (badTry_notHeld henv htries hout error (by omega)).2
  · intro env henv comment
    obtain ⟨hhold, -, hlog⟩ := goodTry_cases henv htries hout comment s
    refine ⟨hhold, ?_⟩
    rcases hlog with hlog | ⟨nok, hlog⟩
    · rw [hlog]
      rfl
    · rw [hlog]
      rfl

def tryConfig : TryConfig where
  pAddr := []
  pDomains := [⟨str "fidonet", str "/o", str "out", 2, none, none⟩]
  tries := 2
  hold := 600
  removeTryFiles := false

def tryAddr : FtnAddr := ⟨str "fidonet", 2, 5047, 13, 0⟩

/-- One failure has been written down, and the second one puts the node on hold. -/
theorem second_failure_holds :
    Held tryConfig tryAddr 0 (runTries tryConfig tryAddr [.bad {} (str "busy")] ⟨∅, some 0, []⟩)
      (badTry tryConfig {} tryAddr (str "busy") (runTries tryConfig tryAddr [.bad {} (str "busy")] ⟨∅, some 0, []⟩)) := by
  have hempty : Env.Sound {} := fun _ => rfl
  obtain ⟨-, -, -, hbad, -⟩ := call_failures tryConfig tryAddr (by decide) (by decide) (by decide) ⟨∅,
    some 0, []⟩ rfl
    [.bad {} (str "busy")] (by
      intro call hcall
      obtain rfl := List.mem_singleton.mp hcall
      exact hempty)
  have hheld := hbad {} hempty (str "busy")
  rwa [if_pos (by decide +kernel)] at hheld

end Binkd
