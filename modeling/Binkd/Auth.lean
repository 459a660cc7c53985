import Binkd.Aka

/-!
# Authentication on the answering side

An answering session becomes secure only through an `M_PWD`, and `pwdCheck` decides
about it from the password that `ADR` has collected.  `PwdFits` says what a password
has to be.  The plain branch of `PWD` refuses everything once the collected password
is empty, but the digest branch does not: the digest keyed with the empty string is
accepted (`EmptyKey`).  Without such a message every login is sound
(`login_sound`), and a conflict of passwords in an `M_ADR` bars every later one.
-/

namespace Binkd

open Lib

variable (config : BinkdConfig)

/-! ### The decision -/

/-- The password that is presented is the one that is expected, as a text or as the
digest of the challenge, or any will do. -/
def PwdFits (l : Login) (pwd : Str) : Prop :=
  l.expectedPwd ≠ [] ∧ l.expectedPwd ≠ str "-" ∧
  (l.expectedPwd = str "!" ∨ pwd = l.expectedPwd ∨
    ∃ challenge ∈ l.mdChallenge, stricmp (mdBuildDigest l.expectedPwd challenge) pwd = 0)

instance (l : Login) (pwd : Str) : Decidable (PwdFits l pwd) :=
  inferInstanceAs (Decidable (_ ∧ _ ∧ (_ ∨ _ ∨ _)))

/-- The expected password is empty, and the digest keyed with it is presented. -/
def EmptyKey (l : Login) (pwd : Str) : Prop :=
  l.state = .null ∧ l.expectedPwd = [] ∧ pwdByDigest l pwd = true ∧
  ∃ challenge ∈ l.mdChallenge, stricmp (mdBuildDigest [] challenge) pwd = 0

instance (l : Login) (pwd : Str) : Decidable (EmptyKey l pwd) :=
  inferInstanceAs (Decidable (_ ∧ _ ∧ _ ∧ _))

/-- What a digest is compared with begins as a digest. -/
theorem isCram_of_digest {key challenge : List Byte} {pwd : Str}
    (h : stricmp (mdBuildDigest key challenge) pwd = 0) : isCram pwd = true := by
  have hcram : mdBuildDigest key challenge =
      str "CRAM-" ++ (str "MD5-" ++ (hmacMd5 challenge key).flatMap hexByte) := by
    rw [← List.append_assoc]
    rfl
  rw [hcram] at h
  have h5 := strnicmp_of_stricmp (str "CRAM-") _ (by decide +kernel) h
  have hlen : (str "CRAM-").length = 5 := by decide
  rw [hlen] at h5
  simpa [isCram] using h5

theorem badDigest_eq_false {l : Login} {pwd : Str} (h : badDigest l pwd = false) :
    l.expectedPwd = str "!" ∨
    ∃ challenge ∈ l.mdChallenge, stricmp (mdBuildDigest l.expectedPwd challenge) pwd = 0 := by
  unfold badDigest at h
  split at h
  · next he => exact .inl he
  · split at h
    · next challenge hc => exact .inr ⟨challenge, hc, by simpa using h⟩
    · contradiction

theorem badPlain_eq_false {l : Login} {pwd : Str} (h : badPlain l pwd = false) :
    l.expectedPwd = str "!" ∨ l.expectedPwd ≠ [] ∧ pwd = l.expectedPwd := by
  unfold badPlain at h
  split at h
  · next he => exact .inl he
  · simp only [Bool.or_eq_false_iff, decide_eq_false_iff_not, ne_eq, not_not] at h
    exact .inr ⟨h.1, h.2.symm⟩

/-- A login by password fits, unless it is by the digest of the empty password. -/
theorem pwdCheck_secure {l : Login} {pwd : Str} {m : BitVec 32} (h : pwdCheck l pwd = .secure m)
    (hkey : l.expectedPwd = [] → pwdByDigest l pwd = true →
      ∀ challenge ∈ l.mdChallenge, stricmp (mdBuildDigest [] challenge) pwd ≠ 0) : PwdFits l pwd := by
  have hbang : str "!" ≠ [] := by decide
  have hdash : str "!" ≠ str "-" := by decide
  unfold pwdCheck at h
  dsimp only at h
  split at h
  · contradiction
  · split at h
    · next hd =>
      split at h
      · contradiction
      · split at h
        · contradiction
        · next hno =>
          split at h
          · contradiction
          · next hbad =>
            rcases badDigest_eq_false (by simpa using hbad) with he | ⟨challenge, hc, hs⟩
            · exact ⟨he ▸ hbang, he ▸ hdash, .inl he⟩
            · refine ⟨fun he => ?_, by simpa using hno, .inr (.inr ⟨challenge, hc, hs⟩)⟩
              exact hkey he hd challenge hc (he ▸ hs)
    · split at h
      · contradiction
      · next hno =>
        split at h
        · contradiction
        · next hbad =>
          rcases badPlain_eq_false (by simpa using hbad) with he | ⟨hne, he⟩
          · exact ⟨he ▸ hbang, he ▸ hdash, .inl he⟩
          · exact ⟨hne, by simpa using hno, .inr (.inl he)⟩

/-- A login without password is one where none is expected. -/
theorem pwdCheck_nonsecure {l : Login} {pwd : Str} {m : BitVec 32} {digest early : Bool}
    (h : pwdCheck l pwd = .nonsecure m digest early) : l.expectedPwd = str "-" := by
  by_contra hne
  unfold pwdCheck at h
  simp only [hne, false_and, if_false] at h
  split at h <;> split at h <;> first | contradiction | (split at h <;> contradiction)

/-- The digest of the empty password is accepted where an empty one is expected. -/
theorem pwdCheck_emptyKey {l : Login} {pwd : Str} (he : l.expectedPwd = [])
    (hd : pwdByDigest l pwd = true) {challenge : List Byte} (hc : challenge ∈ l.mdChallenge)
    (hs : stricmp (mdBuildDigest [] challenge) pwd = 0) : pwdCheck l pwd = .secure 1 := by
  have hcram := isCram_of_digest hs
  have hbad : badDigest l pwd = false := by
    unfold badDigest
    rw [he, if_neg (by decide), Option.mem_def.mp hc]
    simpa using hs
  have hdash : ¬ ([] : Str) = str "-" := by decide
  simp [pwdCheck, he, hd, hcram, hbad, hdash]

/-! ### What the messages do to a login -/

variable {config} {env : Env} {t : Byte} {buf : List Byte} {s s' : State}

/-- What a login by `M_PWD` looks like before and after. -/
inductive PwdState (s : State) (pwd : Str) (s' : State) : Prop
  | same (hs : AdrFrame s s') (hl : ∃ m, s'.login = { s.login with mdFlag := m })
  | granted (state : Security) (mdFlag : BitVec 32) (ext : SecurityExt) (want : Bool)
      (hs : PwdGranted s s' mdFlag state ext want) (hnull : s.login.state = .null)
      (hc : state = .secure ∧ pwdCheck s.login pwd = .secure mdFlag ∨
        state = .nonsecure ∧ ∃ digest early, pwdCheck s.login pwd = .nonsecure mdFlag digest early)

theorem PWD_state (config : BinkdConfig) (env : Env) (buf : List Byte) (hto : s.toNode = none) :
    PwdState s (cstr buf) (PWD config env buf s).1 ∧ (PWD config env buf s).1.toNode = none := by
  have h := PWD_outcome config env buf s hto
  generalize PWD config env buf s = r at h
  cases h with
  | double _ s' hs hl => exact ⟨.same hs ⟨_, hl⟩, hs.toNode.trans hto⟩
  | refused m s' _ hs hl => exact ⟨.same hs ⟨m, hl⟩, hs.toNode.trans hto⟩
  | nonsecure m digest early ext want s' hnull hc hs =>
    exact ⟨.granted .nonsecure m ext want hs hnull (.inr ⟨rfl, digest, early, hc⟩), hs.toNode.trans hto⟩
  | secure m want s' hnull hc hs =>
    exact ⟨.granted .secure m _ want hs hnull (.inl ⟨rfl, hc⟩), hs.toNode.trans hto⟩

/-- On the answering side a message leaves the session one that answers. -/
theorem Handshake.toNode_none (h : Handshake config env t buf s s') (hto : s.toNode = none) :
    s'.toNode = none := by
  cases h with
  | nul => exact hto
  | adr => exact (ADR_frame config env buf s).toNode.trans hto
  | pwd => exact (PWD_state config env buf hto).2
  | ok => simp [OK, hto]
  | other _ h => exact h.toNode.trans hto

/-- The challenge stays the one of the banner. -/
theorem Handshake.mdChallenge (h : Handshake config env t buf s s') (hto : s.toNode = none) :
    s'.login.mdChallenge = s.login.mdChallenge := by
  cases h with
  | nul => exact (nulLogin_keeps config s.toNode env.tail buf s.login).mdChallenge hto
  | adr =>
    obtain ⟨_, _, _, _, _, _, _, _, hl⟩ := (ADR_frame config env buf s).login
    rw [hl]
  | pwd =>
    cases (PWD_state config env buf hto).1 with
    | same _ hl =>
      obtain ⟨_, hl⟩ := hl
      rw [hl]
    | granted _ _ _ _ hs =>
      rw [hs.login]
      rfl
  | ok => simp [OK, hto]
  | other _ h =>
    obtain ⟨_, _, hl⟩ := h.login
    rw [hl]

/-- The state of the login changes by an `M_PWD` alone. -/
theorem Handshake.state (h : Handshake config env t buf s s') (hto : s.toNode = none) :
    s'.login.state = s.login.state ∨
    t = M_PWD ∧ s.login.state = .null ∧ ∃ mdFlag,
      (s'.login.state = .secure ∧ pwdCheck s.login (cstr buf) = .secure mdFlag ∨
       s'.login.state = .nonsecure ∧
        ∃ digest early, pwdCheck s.login (cstr buf) = .nonsecure mdFlag digest early) := by
  cases h with
  | nul => exact .inl (nulLogin_keeps config s.toNode env.tail buf s.login).state
  | adr =>
    obtain ⟨_, _, _, _, _, _, _, _, hl⟩ := (ADR_frame config env buf s).login
    exact .inl (by rw [hl])
  | pwd ht =>
    cases (PWD_state config env buf hto).1 with
    | same _ hl =>
      obtain ⟨_, hl⟩ := hl
      exact .inl (by rw [hl])
    | granted state mdFlag ext want hs hnull hc =>
      have hstate : (PWD config env buf s).1.login.state = state := by
        rw [hs.login]
        rfl
      refine .inr ⟨ht, hnull, mdFlag, ?_⟩
      rw [hstate]
      exact hc
  | ok => exact .inl (by simp [OK, hto])
  | other _ h =>
    obtain ⟨_, _, hl⟩ := h.login
    exact .inl (by rw [hl])

theorem ActFrame.state (h : ActFrame s s') : s'.login.state = s.login.state := by
  obtain ⟨_, _, hl⟩ := h.login
  rw [hl]

theorem ActFrame.mdChallenge (h : ActFrame s s') : s'.login.mdChallenge = s.login.mdChallenge := by
  obtain ⟨_, _, hl⟩ := h.login
  rw [hl]

theorem ActFrame.expectedPwd (h : ActFrame s s') : s'.login.expectedPwd = s.login.expectedPwd := by
  obtain ⟨_, _, hl⟩ := h.login
  rw [hl]

/-- An empty expected password stays empty on the answering side. -/
theorem Handshake.expected_nil (h : Handshake config env t buf s s') (hto : s.toNode = none)
    (hlive : t = M_ADR → (ADR config env buf s).2 = true) (he : s.login.expectedPwd = []) :
    s'.login.expectedPwd = [] := by
  cases h with
  | nul => exact (nulLogin_keeps config s.toNode env.tail buf s.login).expectedPwd.trans he
  | adr ht => exact ADR_expected_nil hto (hlive ht) he
  | pwd =>
    cases (PWD_state config env buf hto).1 with
    | same _ hl =>
      obtain ⟨_, hl⟩ := hl
      rw [hl, he]
    | granted _ _ _ _ hs =>
      rw [hs.login]
      exact he
  | ok => simpa [OK, hto] using he
  | other _ h => rw [h.expectedPwd, he]

/-! ### Runs -/

/-- No message of the round is the digest of an empty password that is expected. -/
def NoEmptyKey (config : BinkdConfig) : Input → State → Prop :=
  Meets config fun a t buf => t = M_PWD → ¬ EmptyKey a.login (cstr buf)

instance (config : BinkdConfig) (i : Input) (s : State) : Decidable (NoEmptyKey config i s) :=
  inferInstanceAs (Decidable (Meets config _ i s))

/-- Some replies are sent, and nothing else happens. -/
def Says (s s' : State) : Prop :=
  ∃ link, s' = { s with link := link } ∧ Queues (·.isReply) s.login.cryptFlag s.link link

theorem Says.send {s s' : State} (h : Says s s') {m : Byte} {a b : Str}
    (hm : m ≠ M_FILE) : Says s (msgSend2 m a b s') := by
  obtain ⟨link, rfl, hq⟩ := h
  exact ⟨_, rfl, hq.trans (.one (by simpa [Item.isReply] using hm) _)⟩

theorem bannerInfo_says (config : BinkdConfig) (env : Env) (s : State) :
    Says s (bannerInfo config env s) := by
  have h : Says s s := ⟨s.link, rfl, .refl _ _ _⟩
  unfold bannerInfo msgSendf
  have hm : M_NUL ≠ M_FILE := by decide
  exact (((((h.send hm).send hm).send hm).send hm).send hm).send hm

/-- The start of a session that answers: the challenge is out, and nothing is known. -/
theorem start_answer (config : BinkdConfig) (env : Env) (disk : Disk) (peerName ipaddr : Str)
    (fa : Option FtnAddr) : ∃ p link,
      start config env disk peerName ipaddr none fa = { initProtocol config none fa with
        disk := disk, peerName := peerName, ipaddr := ipaddr, link := link
        login := { (initProtocol config none fa).login with
          pAddr := p, mdChallenge := if config.noMD5 then none else some env.challenge } } := by
  unfold start banner
  have hch : ∃ link, bannerChallenge config env
      { initProtocol config none fa with disk := disk, peerName := peerName, ipaddr := ipaddr } =
      { initProtocol config none fa with
        disk := disk, peerName := peerName, ipaddr := ipaddr, link := link
        login := { (initProtocol config none fa).login with
          mdChallenge := if config.noMD5 then none else some env.challenge } } := by
    cases hmd : config.noMD5 <;> simp [bannerChallenge, hmd, initProtocol, msgSend2]
  obtain ⟨link, hch⟩ := hch
  rw [hch]
  obtain ⟨link, hinfo, -⟩ := bannerInfo_says config env
    { initProtocol config none fa with
        disk := disk, peerName := peerName, ipaddr := ipaddr, link := link
        login := { (initProtocol config none fa).login with
          mdChallenge := if config.noMD5 then none else some env.challenge } }
  rw [hinfo]
  dsimp only
  split
  · exact ⟨_, _, rfl⟩
  · exact ⟨_, _, rfl⟩

/-- What every state of a session that answers keeps of its start. -/
structure Answers (s0 s : State) : Prop where
  toNode : s.toNode = none
  mdChallenge : s.login.mdChallenge = s0.login.mdChallenge

theorem Answers.act {s0 : State} (h : Answers s0 s) (hf : ActFrame s s') : Answers s0 s' :=
  ⟨hf.toNode.trans h.toNode, hf.mdChallenge.trans h.mdChallenge⟩

theorem Answers.message {s0 : State} (h : Answers s0 s) : Answers s0 (handle config env t buf s).1 :=
  have hs := handshake config env t buf s
  ⟨hs.toNode_none h.toNode, (hs.mdChallenge h.toNode).trans h.mdChallenge⟩

theorem Answers.iterate {s0 : State} (h : Answers s0 s) (i : Input) :
    Answers s0 (iterate config i s).1 :=
  iterate_induction (fun _ _ hact ha => ha.act hact.frame) (fun _ _ _ _ ha => ha.message) h

theorem Answers.run {s0 : State} {ok : Input → State → Prop} {live : Bool} (hto : s0.toNode = none)
    (run : Reachable config ok s0 s live) : Answers s0 s :=
  run.invariant (fun s _ => Answers s0 s) ⟨hto, rfl⟩ fun i _ h _ => h.iterate i

/-- A round changes the state of the login through an `M_PWD` alone. -/
theorem iterate_state (config : BinkdConfig) (hto : s.toNode = none) (i : Input) :
    (iterate config i s).1.login.state = s.login.state ∨
    ∃ a buf, arrives config i s = some (a, M_PWD, buf) ∧ ActFrame s a ∧ a.login.state = .null ∧ ∃ mdFlag,
      ((iterate config i s).1.login.state = .secure ∧ pwdCheck a.login (cstr buf) = .secure mdFlag ∨
       (iterate config i s).1.login.state = .nonsecure ∧
        ∃ digest early, pwdCheck a.login (cstr buf) = .nonsecure mdFlag digest early) := by
  cases iterate_acts config i s with
  | quiet _ acts => exact .inl acts.frame.state
  | message a t buf harr before behind _ =>
    have hb := before.frame
    have hs := handshake config i.env t buf a
    rw [behind.frame.state]
    rcases hs.state (hb.toNode.trans hto) with h | ⟨rfl, hnull, hc⟩
    · exact .inl (h.trans hb.state)
    · exact .inr ⟨a, buf, harr, hb, hnull, hc⟩

/-- A round that becomes secure has met a password that fits. -/
def SoundLogin (config : BinkdConfig) (challenge : Option (List Byte)) (i : Input) (s : State) : Prop :=
  s.login.state ≠ .secure → (iterate config i s).1.login.state = .secure →
    ∃ m ∈ arrives config i s, m.2.1 = M_PWD ∧ m.1.login.mdChallenge = challenge ∧
      PwdFits m.1.login (cstr m.2.2)

instance (config : BinkdConfig) (challenge : Option (List Byte)) (i : Input) (s : State) :
    Decidable (SoundLogin config challenge i s) :=
  inferInstanceAs (Decidable (_ → _ → ∃ m ∈ arrives config i s,
    m.2.1 = M_PWD ∧ m.1.login.mdChallenge = challenge ∧ PwdFits m.1.login (cstr m.2.2)))

/-- A round in which no `M_PWD` has any effect on the login. -/
def RefusesPwd (config : BinkdConfig) (i : Input) (s : State) : Prop :=
  ∀ a buf, arrives config i s = some (a, M_PWD, buf) →
    (PWD config i.env buf a).2 = false ∧ (iterate config i s).1.login.state = s.login.state

theorem iterate_sound {s0 : State} (h : Answers s0 s) {i : Input} (hi : NoEmptyKey config i s) :
    SoundLogin config s0.login.mdChallenge i s := by
  intro hnot hsecure
  rcases iterate_state config h.toNode i with hsame | ⟨a, buf, harr, hb, hnull, m, hc⟩
  · exact absurd (hsame.symm.trans hsecure) hnot
  · refine ⟨_, harr, rfl, hb.mdChallenge.trans h.mdChallenge, ?_⟩
    rcases hc with ⟨-, hc⟩ | ⟨hns, -⟩
    · refine pwdCheck_secure hc fun he hd challenge hch hs => ?_
      exact hi _ harr rfl ⟨hnull, he, hd, challenge, hch, hs⟩
    · rw [hsecure] at hns
      contradiction

/-- Without the digest of the empty password an empty expected password bars every login. -/
theorem refusesPwd_of_nil (hto : s.toNode = none) (he : s.login.expectedPwd = []) {i : Input}
    (hi : NoEmptyKey config i s) : RefusesPwd config i s := by
  intro a buf harr
  have hno : ∀ a' buf', arrives config i s = some (a', M_PWD, buf') → ActFrame s a' →
      a'.login.state = .null → ∀ m, pwdCheck a'.login (cstr buf') ≠ .secure m ∧
        ∀ digest early, pwdCheck a'.login (cstr buf') ≠ .nonsecure m digest early := by
    intro a' buf' harr' hb hnull m
    have ha : a'.login.expectedPwd = [] := hb.expectedPwd.trans he
    refine ⟨fun hc => ?_, fun digest early hc => ?_⟩
    · refine (pwdCheck_secure hc fun _ hd challenge hch hs => ?_).1 ha
      exact hi _ harr' rfl ⟨hnull, ha, hd, challenge, hch, hs⟩
    · exact absurd (ha.symm.trans (pwdCheck_nonsecure hc)) (by decide)
  refine ⟨?_, ?_⟩
  · cases iterate_acts config i s with
    | quiet h => simp [h] at harr
    | message a' t buf' harr' before _ _ =>
      rw [harr] at harr'
      simp only [Option.some.injEq, Prod.mk.injEq] at harr'
      obtain ⟨rfl, -, -⟩ := harr'
      have h := PWD_outcome config i.env buf a (before.frame.toNode.trans hto)
      generalize PWD config i.env buf a = r at h
      cases h with
      | double => rfl
      | refused => rfl
      | nonsecure m digest early _ _ _ hnull hc =>
        exact absurd hc ((hno a buf harr before.frame hnull m).2 digest early)
      | secure m _ _ hnull hc => exact absurd hc (hno a buf harr before.frame hnull m).1
  · rcases iterate_state config hto i with hsame | ⟨a', buf', harr', hb, hnull, m, hc⟩
    · exact hsame
    · rcases hc with ⟨-, hc⟩ | ⟨-, digest, early, hc⟩
      · exact absurd hc (hno a' buf' harr' hb hnull m).1
      · exact absurd hc ((hno a' buf' harr' hb hnull m).2 digest early)

/-- An empty expected password stays so as long as the session goes on. -/
theorem expected_nil_run {ok : Input → State → Prop} {live : Bool} (hto : s.toNode = none)
    (he : s.login.expectedPwd = []) (run : Reachable config ok s s' live) :
    s'.toNode = none ∧ (live = true → s'.login.expectedPwd = []) := by
  refine run.invariant (fun s live => s.toNode = none ∧ (live = true → s.login.expectedPwd = []))
    ⟨hto, fun _ => he⟩ ?_
  rintro i s ⟨hto, he⟩ -
  have hans : Answers s s := ⟨hto, rfl⟩
  refine ⟨(hans.iterate i).toNode, fun hlive => ?_⟩
  cases iterate_acts config i s with
  | quiet _ acts => exact acts.frame.expectedPwd.trans (he rfl)
  | message a t buf harr before behind _ =>
    have hto' := before.frame.toNode.trans hto
    have hs := handshake config i.env t buf a
    refine behind.frame.expectedPwd.trans (hs.expected_nil hto' (fun ht => ?_)
      (before.frame.expectedPwd.trans (he rfl)))
    subst ht
    exact (iterate_acts config i s).handled_live harr hlive

/-- **Logins are sound**: in a run without the digest of an empty password, a session that
answers becomes secure through a password that fits only, and a conflict of
passwords in an `M_ADR` has every later `M_PWD` refused. -/
theorem login_sound (config : BinkdConfig) (env : Env) (disk : Disk) (peerName ipaddr : Str)
    (fa : Option FtnAddr) (s : State)
    (run : Reachable config (NoEmptyKey config) (start config env disk peerName ipaddr none fa) s true)
    (i : Input) (hi : NoEmptyKey config i s) :
    SoundLogin config (if config.noMD5 then none else some env.challenge) i s ∧
    ∀ a buf, arrives config i s = some (a, M_ADR, buf) → Conflict config i.env buf →
      (iterate config i s).2 = true → ∀ s', Reachable config (NoEmptyKey config)
      (iterate config i s).1 s' true →
        ∀ j, NoEmptyKey config j s' → RefusesPwd config j s' := by
  obtain ⟨p, link, hstart⟩ := start_answer config env disk peerName ipaddr fa
  rw [hstart] at run
  have hans := Answers.run rfl run
  refine ⟨iterate_sound hans hi, fun a buf harr hconf hlive s' run' j hj => ?_⟩
  have hnext : (iterate config i s).1.login.expectedPwd = [] := by
    cases iterate_acts config i s with
    | quiet h => simp [h] at harr
    | message a' t buf' harr' before behind _ =>
      rw [harr] at harr'
      simp only [Option.some.injEq, Prod.mk.injEq] at harr'
      obtain ⟨rfl, rfl, rfl⟩ := harr'
      have hgo := (iterate_acts config i s).handled_live harr hlive
      exact behind.frame.expectedPwd.trans
        (ADR_conflict (before.frame.toNode.trans hans.toNode) hgo hconf)
  obtain ⟨hto', he'⟩ := expected_nil_run (hans.iterate i).toNode hnext run'
  exact refusesPwd_of_nil hto' (he' rfl) hj

/-- Two nodes with different passwords. -/
def twoPwds : BinkdConfig :=
  fidoConfig [{ fa := aka 1, pwd := str "aa", pwd_length := aa_length, pwd_nul := aa_nul },
    { fa := aka 2, pwd := str "bb", pwd_length := bb_length, pwd_nul := bb_nul }]

/-- The digest of the challenge with the empty password. -/
def emptyDigest : Str := mdBuildDigest [] (List.replicate 16 0)

/-- A conflict of passwords, then the digest of the empty password: the session is secure. -/
theorem emptyKey_accepted : ∃ s i,
    Reachable twoPwds (fun _ _ => True) (start twoPwds {} ∅ [] [] none none) s true ∧
    s.login.expectedPwd = [] ∧ ¬ SoundLogin twoPwds (some (List.replicate 16 0)) i s := by
  refine ⟨after (iterate twoPwds) (Input.message {} M_ADR (str "2:5020/1 2:5020/2") ++
      (Input.message {} M_PWD emptyDigest).take 1) (start twoPwds {} ∅ [] [] none none),
    (Input.message {} M_PWD emptyDigest).getLast (by decide), ?_, ?_, ?_⟩
  · exact Run.of_inputs (by decide +kernel)
  · decide +kernel
  · decide +kernel

/-- One node whose password is known: the digest of it makes the session secure. -/
theorem login_sound_aa : SoundLogin twoPwds (some (List.replicate 16 0))
    ((Input.message {} M_PWD (str "aa")).getLast (by decide))
    (after (iterate twoPwds) (Input.message {} M_ADR (str "2:5020/1") ++
      (Input.message {} M_PWD (str "aa")).take 1) (start twoPwds {} ∅ [] [] none none)) :=
  (login_sound twoPwds {} ∅ [] [] none _ (Run.of_inputs (by decide +kernel)) _ (by decide +kernel)).1

end Binkd
