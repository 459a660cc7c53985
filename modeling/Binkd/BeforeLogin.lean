import Binkd.Frame.Answers
import Binkd.Opening

/-!
# Files before the login

Nothing in the command table asks for a login before an `M_FILE`.  As long as no `M_FILE`
that comes as far as `inb_fopen` arrives in the state `P_NULL` (`LoginBeforeFile`), a
session that has not logged in has no file open and has done nothing to the inbound
(`nothing_before_login`); with one such message the whole of a file can be stored
(`earlyFile_stored`).
-/

namespace Binkd

open Lib

variable {config : BinkdConfig} {env : Env} {s s' : State}

/-- Does the `M_FILE` come as far as `inb_fopen`, when no file is open?  It does unless
its arguments cannot be parsed, a rule skips the file, or the file is there already. -/
def takesFile (config : BinkdConfig) (env : Env) (buf : List Byte) (s : State) : Bool :=
  match parseArgs 4 (cstr buf) with
  | some ([name, size, time, _], _) =>
    let s := newIn env name size time (zRecvStop s)
    (skipTest config s).isNone && !inbTest config env s.disk s.rx.inf s.rx.inbound && !s.rx.skipAllFlag
  | _ => false

/-- An `M_FILE` that `start_file_recv` takes comes after the login. -/
def FileAfterLogin (config : BinkdConfig) (env : Env) (s : State) (t : Byte) (buf : List Byte) : Prop :=
  t = M_FILE → s.login.state = .null → takesFile config env buf s = false

instance (config : BinkdConfig) (env : Env) (s : State) (t : Byte) (buf : List Byte) :
    Decidable (FileAfterLogin config env s t buf) :=
  inferInstanceAs (Decidable (t = M_FILE → s.login.state = .null → takesFile config env buf s = false))

/-- The rounds of a run in which no file is taken before the login. -/
def LoginBeforeFile (config : BinkdConfig) (i : Input) : State → Prop :=
  Meets config (FileAfterLogin config i.env) i

instance (config : BinkdConfig) (i : Input) (s : State) : Decidable (LoginBeforeFile config i s) :=
  inferInstanceAs (Decidable (Meets config (FileAfterLogin config i.env) i s))

/-- Nothing has been received: no file is open or waits for its name, and nothing has been
done to the inbound. -/
structure Untouched (s : State) : Prop where
  inf : s.rx.inf.f = none
  inComplete : s.rx.inComplete.netname = []
  ops : s.ops = []
  localEOB : s.tx.localEOB = false

/-- The invariant of a session before its login. -/
def EarlyInv (s : State) : Prop := s.login.state = .null → Untouched s

theorem Untouched.same (h : Untouched s) (hinf : s'.rx.inf.f = s.rx.inf.f)
    (hcomplete : s'.rx.inComplete = s.rx.inComplete) (hops : s'.ops = s.ops)
    (heob : s'.tx.localEOB = s.tx.localEOB) : Untouched s' :=
  ⟨hinf.trans h.inf, by rw [hcomplete]; exact h.inComplete, hops.trans h.ops, heob.trans h.localEOB⟩

theorem EarlyInv.same (h : EarlyInv s) (hstate : s'.login.state = s.login.state) (hinf : s'.rx.inf.f = s.rx.inf.f)
    (hcomplete : s'.rx.inComplete = s.rx.inComplete) (hops : s'.ops = s.ops)
    (heob : s'.tx.localEOB = s.tx.localEOB) : EarlyInv s' :=
  fun hnull => (h (hstate.symm.trans hnull)).same hinf hcomplete hops heob

/-! ### The small steps -/

theorem EarlyInv.act {a b : State} (hact : Act config env a b) (h : EarlyInv a) : EarlyInv b := by
  intro hnull
  have hstate : a.login.state = .null := by
    obtain ⟨_, _, hl⟩ := hact.frame.login
    rw [hl] at hnull
    exact hnull
  have ha := h hstate
  cases hact with
  | queued h => exact absurd hstate h.state
  | floLine h => exact absurd hstate h.state
  | eob _ hlogin => exact absurd hstate hlogin
  | batch hended =>
    -- no batch ends before an `M_EOB` of ours, which waits for the login
    simp [batchEnded, ha.localEOB] at hended
  | data =>
    unfold recvData
    rw [if_pos (by rw [ha.inf]; rfl)]
    exact ha
  | pack =>
    obtain ⟨_, _, heq⟩ := sendMsgs_spec env a
    rw [heq]
    exact ha.same rfl rfl rfl rfl
  | block =>
    obtain ⟨_, _, _, _, _, _, _, _, heq⟩ := sendData_spec config env a
    rw [heq]
    exact ha.same rfl rfl rfl rfl
  | _ => exact ha.same rfl rfl rfl rfl

/-! ### `M_FILE` -/

/-- A file that is not opened is answered. -/
theorem openIn_refused (h : Untouched s)
    (hrefused : ((skipTest config s).isNone && !inbTest config env s.disk s.rx.inf s.rx.inbound &&
      !s.rx.skipAllFlag) = false) :
    ∃ s', openIn config env s = .answered s' ∧ Untouched s' ∧ s'.disk = s.disk := by
  unfold openIn
  rw [if_neg (by simp [h.inf])]
  cases hskip : skipTest config s with
  | some mask => exact ⟨_, rfl, h.same rfl rfl rfl rfl, rfl⟩
  | none =>
    rw [hskip] at hrefused
    dsimp only
    split_ifs with htest hall
    · exact ⟨_, rfl, h.same rfl rfl rfl rfl, rfl⟩
    · exact ⟨_, rfl, h.same h.inf.symm rfl rfl rfl, rfl⟩
    · simp [htest, hall] at hrefused

/-- A file that is not taken is answered, or the message cannot be parsed. -/
theorem startFileRecv_refused {buf : List Byte} (h : Untouched s) (htakes : takesFile config env buf s = false) :
    Untouched (startFileRecv config env buf s).1 ∧ (startFileRecv config env buf s).1.disk = s.disk := by
  unfold takesFile at htakes
  unfold startFileRecv
  rcases namedFile_four buf with ⟨name, size, time, off, rest, hargs, -⟩ | ⟨hargs, -⟩
  · rw [hargs] at htakes ⊢
    dsimp only at htakes ⊢
    have hstop : Untouched (zRecvStop s) := h.same rfl rfl rfl rfl
    rw [if_neg (by simp [hstop.inf])]
    unfold inCompleteDone
    rw [if_neg (by simp [hstop.inComplete])]
    dsimp only
    have hnew : Untouched (newIn env name size time (zRecvStop s)) ∧
        (newIn env name size time (zRecvStop s)).disk = s.disk := by
      unfold newIn
      rw [if_neg (by simp [hstop.inf])]
      exact ⟨hstop.same rfl rfl rfl rfl, rfl⟩
    generalize newIn env name size time (zRecvStop s) = s1 at htakes hnew ⊢
    obtain ⟨hnew, hdisk⟩ := hnew
    -- the wish for NR mode has no part in the choice
    have hoff : ∃ s2, openIn config env (if decide (off = str "-1") = true then { s1 with login := { s1.login with
        nrFlag := { s1.login.nrFlag with they := true } } } else s1) = .answered s2 ∧
        Untouched s2 ∧ s2.disk = s1.disk := by
      split_ifs
      · exact openIn_refused (s := { s1 with login := { s1.login with
          nrFlag := { s1.login.nrFlag with they := true } } }) (hnew.same rfl rfl rfl rfl) htakes
      · exact openIn_refused hnew htakes
    obtain ⟨s2, heq, hs2, hdisk2⟩ := hoff
    rw [heq]
    exact ⟨hs2, hdisk2.trans hdisk⟩
  · rw [hargs]
    exact ⟨h.same rfl rfl rfl rfl, rfl⟩

/-! ### The messages -/

theorem EarlyInv.pwd (buf : List Byte) (h : EarlyInv s) : EarlyInv (PWD config env buf s).1 := by
  by_cases hto : s.toNode = none
  · have hout := PWD_outcome config env buf s hto
    generalize PWD config env buf s = r at hout
    have hsame : ∀ {s' : State}, AdrFrame s s' → s'.login.state = s.login.state → EarlyInv s' := by
      intro s' hf hstate
      obtain ⟨_, htx⟩ := hf.tx
      exact h.same hstate (by rw [hf.rx]) (by rw [hf.rx]) hf.ops (by rw [htx])
    cases hout with
    | double _ s' hs hl => exact hsame hs (by rw [hl])
    | refused m s' _ hs hl => exact hsame hs (by rw [hl])
    | nonsecure m digest early ext want s' _ _ hs =>
      intro hnull
      rw [hs.login] at hnull
      contradiction
    | secure m want s' _ _ hs =>
      intro hnull
      rw [hs.login] at hnull
      contradiction
  · unfold PWD
    rw [if_pos (Option.isSome_iff_ne_none.mpr hto)]
    exact h

theorem EarlyInv.ok (buf : List Byte) (h : EarlyInv s) : EarlyInv (OK config env buf s).1 := by
  unfold OK
  split
  · exact h
  · next n _ =>
    obtain ⟨_, _, _, heq, -⟩ := completeLogin_spec config env { s with login := okLogin n env.tail buf s.login }
    rw [heq]
    exact fun hnull => absurd hnull (okLogin_state n env.tail buf s.login)

theorem EOB_untouched (h : Untouched s) : Untouched (EOB config env s).1 := by
  unfold EOB eobPartial
  dsimp only
  rw [h.inf]
  dsimp only
  unfold inCompleteDone
  rw [if_neg (by simp [h.inComplete])]
  exact h.same rfl rfl rfl rfl

theorem EarlyInv.message {t : Byte} {buf : List Byte} (hfile : FileAfterLogin config env s t buf)
    (h : EarlyInv s) : EarlyInv (handle config env t buf s).1 := by
  have hh := handled config env t buf s
  generalize (handle config env t buf s).1 = s' at hh
  cases hh with
  | nul => exact h.same (nulLogin_keeps config s.toNode env.tail buf s.login).state rfl rfl rfl rfl
  | adr =>
    have hf := ADR_frame config env buf s
    obtain ⟨_, _, _, _, _, _, _, _, hl⟩ := hf.login
    obtain ⟨_, htx⟩ := hf.tx
    exact h.same (by rw [hl]) (by rw [hf.rx]) (by rw [hf.rx]) hf.ops (by rw [htx])
  | pwd => exact h.pwd buf
  | file ht =>
    intro hnull
    obtain ⟨_, _, hl⟩ := (startFileRecv_frame config env buf s).login
    rw [hl] at hnull
    exact (startFileRecv_refused (h hnull) (hfile ht hnull)).1
  | ok => exact h.ok buf
  | eob =>
    intro hnull
    obtain ⟨_, _, hl⟩ := (EOB_frame config env s).login
    rw [hl] at hnull
    exact EOB_untouched (h hnull)
  | got =>
    have hf := GOT_frame config env buf s
    have hout := GOT_outcome config env buf s
    have heob : (GOT config env buf s).1.tx.localEOB = s.tx.localEOB := by
      generalize GOT config env buf s = r at hout
      cases hout <;> rfl
    exact h.same (by rw [hf.login]) (by rw [hf.rx]) (by rw [hf.rx]) hf.ops heob
  | get =>
    have hf := GET_frame config env buf s
    have hout := GET_outcome config env buf s
    have heob : (GET config env buf s).1.tx.localEOB = s.tx.localEOB := by
      generalize GET config env buf s = r at hout
      cases hout <;> rfl
    exact h.same (by rw [hf.login]) (by rw [hf.rx]) (by rw [hf.rx]) hf.ops heob
  | skip =>
    have hf := SKIP_frame config env buf s
    have hout := SKIP_outcome config env buf s
    have heob : (SKIP config env buf s).1.tx.localEOB = s.tx.localEOB := by
      generalize SKIP config env buf s = r at hout
      cases hout <;> rfl
    exact h.same (by rw [hf.login]) (by rw [hf.rx]) (by rw [hf.rx]) hf.ops heob
  | ignored => exact h

/-! ### Runs -/

/-- **Nothing before the login**: in a run in which no `M_FILE` is taken in the state `P_NULL`,
a session that has not logged in has no file open and has opened, written and renamed nothing;
and such an `M_FILE` leaves the disk as it was. -/
theorem nothing_before_login (config : BinkdConfig) (env : Env) (disk : Disk) (peerName ipaddr : Str)
    (to_ : Option FtnNode) (fa : Option FtnAddr) (s : State) (live : Bool)
    (run : Reachable config (LoginBeforeFile config) (start config env disk peerName ipaddr to_ fa) s live) :
    (s.login.state = .null → s.rx.inf.f = none ∧ s.ops = []) ∧
    ∀ i a buf, LoginBeforeFile config i s → arrives config i s = some (a, M_FILE, buf) →
      a.login.state = .null →
      (handle config i.env M_FILE buf a).1.disk = a.disk ∧
      (handle config i.env M_FILE buf a).1.ops = [] := by
  have hinv : EarlyInv s := by
    refine run.invariant (fun s _ => EarlyInv s) (fun _ => ?_) fun i s h hi => ?_
    · have h := start_opening config env disk peerName ipaddr to_ fa
      exact ⟨by rw [h.rx], by rw [h.rx], h.ops, by rw [h.tx]⟩
    · exact iterate_induction (fun a b hact ha => ha.act hact)
        (fun a t buf harr ha => ha.message (hi (a, t, buf) harr)) h
  refine ⟨fun hnull => ⟨(hinv hnull).inf, (hinv hnull).ops⟩, fun i a buf hi harr hnull => ?_⟩
  have ha : EarlyInv a := (arrives_acts harr).keeps (fun a b hact ha => ha.act hact) hinv
  obtain ⟨huntouched, hdisk⟩ := startFileRecv_refused (ha hnull) (hi (a, M_FILE, buf) harr rfl hnull)
  exact ⟨hdisk, huntouched.ops⟩

/-- A network whose non-secure inbound is `/n`. -/
def inboundConfig : BinkdConfig := { fidoConfig [] with inboundNonsecure := str "/n" }

/-- The start of a session that answers, with the inbound there. -/
def inboundStart : State :=
  start inboundConfig {} ((∅ : Disk).insert (str "/n") { isDir := true }) [] [] none none

/-- An address, and a file of one byte with its data. -/
def oneByteFile : List Input :=
  Input.message {} M_ADR (str "2:5020/1") ++ Input.message {} M_FILE (str "a 1 0 0") ++
    [⟨{}, .ready (some (.bytes (mkhdr 1))) none⟩, ⟨{}, .ready (some (.bytes [65])) none⟩]

/-- The file is stored, and nobody has logged in. -/
theorem earlyFile_stored : ∃ s, Reachable inboundConfig (fun _ _ => True) inboundStart s true ∧
    s.login.state = .null ∧ s.ops = [.done (str "/n/00000000.dt") (str "/n/a"),
      .append (str "/n/00000000.dt") [65], .openTmp (str "/n/00000000.dt")] :=
  ⟨after (iterate inboundConfig) oneByteFile inboundStart,
    Run.of_inputs (by decide +kernel), by decide +kernel, by decide +kernel⟩

/-- A remote that acknowledges a file and ends the batch before it logs in. -/
def strangerState : State :=
  after (iterate inboundConfig) (Input.message {} M_ADR (str "2:5020/1") ++
    Input.message {} M_GOT (str "a 1 0") ++ Input.message {} M_EOB []) inboundStart

/-- It is still without a file. -/
theorem nothing_before_login_stranger : strangerState.login.state = .null ∧
    (strangerState.login.state = .null → strangerState.rx.inf.f = none ∧ strangerState.ops = []) :=
  ⟨by decide +kernel, (nothing_before_login inboundConfig {} ((∅ : Disk).insert (str "/n") { isDir := true })
    [] [] none none strangerState true (Run.of_inputs (by decide +kernel))).1⟩

end Binkd
