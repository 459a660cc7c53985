import Binkd.OptionLines

/-!
# Two sides in a handshake

What each side puts into its log before it has logged in: the caller its options behind lines that
say nothing, then its password (`start_caller`, `ADR_caller`); the answering side nothing of the modes
until the `M_OK` with its options before it (`start_answerer`, `ADR_answerer`, `PWD_log`).  A `Pair` is
the two sides with the number of messages that each has read of the log of the other, and `Talk` lets
them go on in any order.
-/

namespace Binkd

open Lib

variable {config : BinkdConfig} {env : Env} {s s' : State}

/-! ### The opening of each side -/

/-- An address, or a line that says nothing about the modes. -/
inductive Hushed : Item → Prop
  | nul {text : Str} (h : LineSays text silent) : Hushed (.msg M_NUL text)
  | adr (text : Str) : Hushed (.msg M_ADR text)

theorem bannerInfo_log (config : BinkdConfig) (env : Env) (s : State) :
    ∃ items, (∀ i ∈ items, Hushed i) ∧ (bannerInfo config env s).link.log = items ++ s.link.log := by
  refine ⟨[.msg M_NUL ((str "VER binkd/1.1a-115" ++ env.osString ++ str " binkp/1.1").take msgTextMax ++ []),
    .msg M_NUL (str "TIME " ++ env.localTime), .msg M_NUL (str "NDL " ++ config.nodeinfo),
    .msg M_NUL (str "LOC " ++ config.location), .msg M_NUL (str "ZYZ " ++ config.sysop),
    .msg M_NUL (str "SYS " ++ config.sysname)], ?_, rfl⟩
  intro i hi
  simp only [List.mem_cons, List.not_mem_nil, or_false] at hi
  obtain rfl | rfl | rfl | rfl | rfl | rfl := hi
  all_goals exact .nul (other_said rfl (by decide) (by decide))

theorem sendADR_log (config : BinkdConfig) (s : State) :
    ∃ i, Hushed i ∧ (sendADR config s).link.log = i :: s.link.log :=
  ⟨_, .adr _, rfl⟩

/-- The caller opens with its options behind lines that say nothing. -/
theorem start_caller (config : BinkdConfig) (env : Env) (disk : Disk) (peerName ipaddr : Str) (n : FtnNode)
    (fa : Option FtnAddr) : ∃ l info, (start config env disk peerName ipaddr (some n) fa).link.log =
      .msg M_NUL (str "OPT" ++ callerOpt l) :: info ∧ (∀ i ∈ info, Hushed i) ∧
      l.ndFlag.they = n.ndFlag ∧ l.cryptFlag.we = !config.noCrypt := by
  unfold start banner
  have hch : bannerChallenge config env
      { initProtocol config (some n) fa with disk := disk, peerName := peerName, ipaddr := ipaddr } =
      { initProtocol config (some n) fa with disk := disk, peerName := peerName, ipaddr := ipaddr } := by
    unfold bannerChallenge
    rw [if_neg (by simp [initProtocol])]
    rfl
  rw [hch]
  obtain ⟨items, hitems, hlog⟩ := bannerInfo_log config env
    { initProtocol config (some n) fa with disk := disk, peerName := peerName, ipaddr := ipaddr }
  obtain ⟨link, hinfo, -⟩ := bannerInfo_says config env
    { initProtocol config (some n) fa with disk := disk, peerName := peerName, ipaddr := ipaddr }
  rw [hinfo] at hlog ⊢
  dsimp only
  rw [if_pos (by rfl)]
  obtain ⟨i, hi, hadr⟩ := sendADR_log config { initProtocol config (some n) fa with
    disk := disk, peerName := peerName, ipaddr := ipaddr, link := link }
  rw [if_pos (by rfl)]
  obtain ⟨want, hnr⟩ := autoNr_eq config env config.inboundNonsecure (sendADR config
    { initProtocol config (some n) fa with disk := disk, peerName := peerName, ipaddr := ipaddr, link := link })
  have hinb : (sendADR config { initProtocol config (some n) fa with
    disk := disk, peerName := peerName, ipaddr := ipaddr,
      link := link }).rx.inbound = config.inboundNonsecure := rfl
  rw [hinb, hnr]
  refine ⟨_, i :: items, congrArg (_ :: ·) (hadr.trans (congrArg (i :: ·) ?_)), ?_, rfl, rfl⟩
  · rw [hlog]
    exact List.append_nil items
  · intro j hj
    rcases List.mem_cons.mp hj with rfl | hj
    · exact hi
    · exact hitems j hj

/-- The answering side opens with lines that say nothing. -/
theorem start_answerer (config : BinkdConfig) (env : Env) (disk : Disk) (peerName ipaddr : Str)
    (fa : Option FtnAddr) : ∀ i ∈ (start config env disk peerName ipaddr none fa).link.log, Hushed i := by
  have hch : ∀ i ∈ (bannerChallenge config env
      { initProtocol config none fa with disk := disk, peerName := peerName, ipaddr := ipaddr }).link.log,
      Hushed i := by
    unfold bannerChallenge
    split_ifs
    · intro i hi
      obtain rfl := List.mem_singleton.mp hi
      exact .nul (by rw [List.append_nil]; exact challenge_said env.challenge)
    · exact fun i hi => absurd hi List.not_mem_nil
  have hto : (bannerInfo config env (bannerChallenge config env
      { initProtocol config none fa with disk := disk, peerName := peerName, ipaddr := ipaddr })).toNode = none := by
    unfold bannerChallenge
    split_ifs <;> rfl
  unfold start banner
  dsimp only
  generalize bannerChallenge config env
      { initProtocol config none fa with disk := disk, peerName := peerName, ipaddr := ipaddr } = s0 at hch hto ⊢
  obtain ⟨items, hitems, hlog⟩ := bannerInfo_log config env s0
  have hinfo : ∀ i ∈ (bannerInfo config env s0).link.log, Hushed i := by
    rw [hlog]
    exact fun i hi => (List.mem_append.mp hi).elim (hitems i) (hch i)
  generalize bannerInfo config env s0 = s1 at hinfo hto ⊢
  rw [hto]
  split_ifs with hdelay hsome
  · exact absurd hsome (by simp [sendADR, msgSend2, hto])
  · obtain ⟨j, hj, hlog⟩ := sendADR_log config s1
    rw [hlog]
    exact fun i hi => (List.mem_cons.mp hi).elim (fun h => h ▸ hj) (hinfo i)
  · exact absurd ‹_› (by simp [hto])
  · exact hinfo

/-! ### `ADR` in the handshake -/

/-- What a loop over addresses does that goes on to its end. -/
structure AdrGoes (s s' : State) : Prop where
  toNode : s'.toNode = s.toNode
  link : s'.link = s.link
  login : ∃ e fa nfa m l, s'.login = { s.login with
    expectedPwd := e, fa := fa, nfa := nfa, mdFlag := m, listedFlag := l }
  /-- the caller does not take over another password for its own -/
  pwd : s.toNode.isSome → s.login.expectedPwd ≠ str "-" → s.login.expectedPwd ≠ str "!" →
    s'.login.expectedPwd = s.login.expectedPwd ∨ s'.login.expectedPwd = []

theorem AdrGoes.refl (s : State) : AdrGoes s s := ⟨rfl, rfl, ⟨_, _, _, _, _, rfl⟩, fun _ _ _ => .inl rfl⟩

theorem AdrGoes.trans {a b c : State} (h : AdrGoes a b) (h' : AdrGoes b c) : AdrGoes a c := by
  obtain ⟨_, _, _, _, _, hl⟩ := h.login
  obtain ⟨_, _, _, _, _, hl'⟩ := h'.login
  refine ⟨h'.toNode.trans h.toNode, h'.link.trans h.link, ⟨_, _, _, _, _, hl'.trans (by rw [hl])⟩,
    fun hto hdash hbang => ?_⟩
  have hto' : b.toNode.isSome := by rw [h.toNode]; exact hto
  rcases h.pwd hto hdash hbang with he | he
  · rw [← he]
    rw [← he] at hdash hbang
    exact h'.pwd hto' hdash hbang
  · have hnil := h'.pwd hto' (by rw [he]; decide) (by rw [he]; decide)
    rw [he] at hnil
    exact .inr (hnil.elim id id)

theorem adrPwd_caller {toNode : Option FtnNode} (hto : toNode.isSome) (remoteFa : Option FtnAddr) (fa : FtnAddr)
    (pn : FtnNode) (l : Login) (hdash : l.expectedPwd ≠ str "-") (hbang : l.expectedPwd ≠ str "!") :
    (adrPwd toNode remoteFa fa pn l).login.expectedPwd = l.expectedPwd ∨
      (adrPwd toNode remoteFa fa pn l).login.expectedPwd = [] := by
  have hneutral : ¬ (l.expectedPwd = str "-" ∨ l.expectedPwd = str "!") := not_or.mpr ⟨hdash, hbang⟩
  unfold adrPwd
  rw [if_pos hto]
  generalize pn.outPwd = pwd
  cases pwd with
  | none =>
    split_ifs
    · exact .inl rfl
    · exact .inl rfl
  | some pwd =>
    dsimp only
    rw [if_neg hneutral, if_pos hto]
    split_ifs
    · exact .inl rfl
    · exact .inl rfl
    · exact .inr rfl
    · exact .inl rfl
    · exact .inl rfl

theorem adrBusy_goes {fa : FtnAddr} {pn : Option FtnNode} {l l' : AdrLocals}
    (h : adrBusy config env fa pn s l = .next s' l') : AdrGoes s s' := by
  unfold adrBusy at h
  split at h
  · obtain ⟨rfl, -⟩ := AdrStep.next.inj h
    exact ⟨rfl, rfl, ⟨_, _, _, _, _, rfl⟩, fun _ _ _ => .inl rfl⟩
  · split at h
    · contradiction
    · obtain ⟨rfl, -⟩ := AdrStep.next.inj h
      exact ⟨rfl, rfl, ⟨_, _, _, _, _, rfl⟩, fun _ _ _ => .inl rfl⟩

theorem adrLogin_goes {fa : FtnAddr} {pn : Option FtnNode} {l l' : AdrLocals}
    (h : adrLogin config env fa pn s l = .next s' l') : AdrGoes s s' := by
  unfold adrLogin at h
  split at h
  · exact adrBusy_goes h
  · next n =>
    dsimp only at h
    have hlogin := adrPwd_login s.toNode s.remoteFa fa n
      { s.login with listedFlag := s.login.listedFlag ||| n.listed }
    have hpwd := fun hto : s.toNode.isSome => adrPwd_caller hto s.remoteFa fa n
      { s.login with listedFlag := s.login.listedFlag ||| n.listed }
    generalize adrPwd s.toNode s.remoteFa fa n _ = r at h hlogin hpwd
    have hgoes : AdrGoes s { s with login := r.login } := by
      obtain ⟨e, m, he⟩ := hlogin
      exact ⟨rfl, rfl, ⟨_, _, _, _, _, he⟩, hpwd⟩
    cases r with
    | drop login =>
      obtain ⟨rfl, -⟩ := AdrStep.next.inj h
      exact hgoes
    | accept login => exact hgoes.trans (adrBusy_goes h)

theorem adrStep_goes {w : Str} {l l' : AdrLocals} (h : adrStep config env w s l = .next s' l') :
    AdrGoes s s' := by
  unfold adrStep at h
  split at h
  · contradiction
  · dsimp only at h
    split at h
    · exact adrLogin_goes h
    · split at h
      · split at h
        · exact adrLogin_goes h
        · split at h
          · split at h
            · contradiction
            · obtain ⟨rfl, -⟩ := AdrStep.next.inj h
              exact .refl s
          · exact adrLogin_goes h
      · exact adrLogin_goes h

theorem adrLoop_goes {ws : List Str} {l l' : AdrLocals} (h : adrLoop config env ws s l = .next s' l') :
    AdrGoes s s' := by
  induction ws generalizing s l with
  | nil =>
    obtain ⟨rfl, -⟩ := AdrStep.next.inj h
    exact .refl s
  | cons w ws ih =>
    rw [adrLoop] at h
    split at h
    · contradiction
    · next s1 l1 hstep => exact (adrStep_goes hstep).trans (ih h)

theorem freq_said : LineSays (str "FREQ") silent := other_said rfl (by decide) (by decide)

/-- Some lines are sent that say nothing. -/
def Silently (s s' : State) : Prop := ∃ items, (∀ i ∈ items, Hushed i) ∧
    s'.link.log = items ++ s.link.log

theorem Silently.refl (s : State) : Silently s s := ⟨[], fun _ hi => absurd hi List.not_mem_nil, rfl⟩

theorem Silently.trans {a b c : State} (h : Silently a b) (h' : Silently b c) : Silently a c := by
  obtain ⟨items, hitems, hlog⟩ := h
  obtain ⟨items', hitems', hlog'⟩ := h'
  refine ⟨items' ++ items, fun i hi => ?_, by rw [hlog', hlog, List.append_assoc]⟩
  exact (List.mem_append.mp hi).elim (hitems' i) (hitems i)

theorem Silently.one {i : Item} (hi : Hushed i) (hlog : s'.link.log = i :: s.link.log) :
    Silently s s' := by
  refine ⟨[i], fun j hj => ?_, hlog⟩
  obtain rfl := List.mem_singleton.mp hj
  exact hi

/-- The prescan sends lines that say nothing. -/
theorem doPrescan_silent (config : BinkdConfig) (env : Env) (s : State) :
    Silently s (doPrescan config env s) := by
  have hfreq : ∀ (n : ℕ) (s : State), Silently s ((msgSend2 M_NUL (str "FREQ") [])^[n] s) := by
    intro n
    induction n with
    | zero => exact .refl
    | succ n ih => exact fun s => (Silently.one (.nul freq_said) rfl).trans (ih _)
  unfold doPrescan
  split
  · dsimp only
    split
    · refine Silently.trans (Silently.one (.nul ?_) rfl) (hfreq _ _)
      exact other_said rfl (by decide) (by decide)
    · refine Silently.one (.nul ?_) rfl
      exact other_said rfl (by decide) (by decide)
  · exact .refl s

/-- On the calling side an `M_ADR` that is accepted is answered by the password, behind lines that
say nothing. -/
theorem ADR_caller {n : FtnNode} {buf : List Byte} (hto : s.toNode = some n)
    (hlive : (ADR config env buf s).2 = true) : ∃ s1 pwd, Silently s s1 ∧
      (ADR config env buf s).1.link.log = .msg M_PWD pwd :: s1.link.log ∧
      (ADR config env buf s).1.toNode = some n ∧
      (∃ e fa nfa m l, (ADR config env buf s).1.login = { s.login with
        expectedPwd := e, fa := fa, nfa := nfa, mdFlag := m, listedFlag := l }) ∧
      (n.outPwdText.take maxPwdLen ≠ str "-" → n.outPwdText.take maxPwdLen ≠ str "!" →
        (ADR config env buf s).1.login.expectedPwd ≠ str "!") := by
  obtain ⟨s1, l1, hloop, -, hcall, heq⟩ := ADR_call hto hlive
  have hgoes := adrLoop_goes hloop
  obtain ⟨e, fa, nfa, m, l, hlogin⟩ := hgoes.login
  have hexp : (adrExpect s).toNode = some n ∧ (adrExpect s).link = s.link ∧
      (adrExpect s).login = { s.login with expectedPwd := n.outPwdText.take maxPwdLen } := by
    unfold adrExpect
    rw [hto]
    exact ⟨rfl, rfl, rfl⟩
  obtain ⟨hto1, hlink1, hlogin1⟩ := hexp
  have hpwd : n.outPwdText.take maxPwdLen ≠ str "-" → n.outPwdText.take maxPwdLen ≠ str "!" →
      s1.login.expectedPwd ≠ str "!" := by
    intro hdash hbang
    have he := hgoes.pwd (by rw [hto1]; rfl) (by rw [hlogin1]; exact hdash) (by rw [hlogin1]; exact hbang)
    rcases he with he | he
    · rw [he, hlogin1]
      exact hbang
    · rw [he]
      decide
  have hscan := doPrescan_silent config env s1
  obtain ⟨disk, q, link, hspec, -, -⟩ := doPrescan_spec config env s1
  have hsilent : Silently s (doPrescan config env s1) := by
    obtain ⟨items, hitems, hlog⟩ := hscan
    exact ⟨items, hitems, by rw [hlog, hgoes.link, hlink1]⟩
  have hto2 : s1.toNode = some n := hgoes.toNode.trans hto1
  refine ⟨doPrescan config env s1, ?_⟩
  rw [heq]
  unfold adrCall at hcall ⊢
  dsimp only at hcall ⊢
  rw [hlogin1] at hlogin
  rw [hspec] at hcall hsilent ⊢
  dsimp only at hcall ⊢
  split
  · next challenge _ =>
    exact ⟨_, hsilent, rfl, hto2, ⟨e, fa, nfa, 1, l, by dsimp only [msgSend2]; rw [hlogin]⟩, hpwd⟩
  · next hc =>
    rw [hc] at hcall
    dsimp only at hcall
    split_ifs at hcall ⊢ with hmd
    exact ⟨_, hsilent, rfl, hto2, ⟨e, fa, nfa, m, l, hlogin⟩, hpwd⟩

/-- On the answering side an `M_ADR` that is accepted is answered by our addresses at most. -/
theorem ADR_answerer {buf : List Byte} (hto : s.toNode = none) (hlive : (ADR config env buf s).2 = true) :
    Silently s (ADR config env buf s).1 := by
  have hexp : adrExpect s = s := by simp [adrExpect, hto]
  unfold ADR at hlive ⊢
  rw [hexp] at hlive ⊢
  split
  · next hws => simp [hws] at hlive
  · split
    · next hws s1 hs => simp [hs] at hlive
    · next hws s1 l1 hs =>
      simp only [hs] at hlive
      have hgoes := adrLoop_goes hs
      have hto1 : s1.toNode = none := hgoes.toNode.trans hto
      have hsend : Silently s (adrAnswer config l1 s1) := by
        unfold adrAnswer
        dsimp only
        split
        · obtain ⟨i, hi, hlog⟩ := sendADR_log config s1
          exact .one hi (hlog.trans (by rw [hgoes.link]))
        · exact ⟨[], fun i hi => absurd hi List.not_mem_nil, by rw [hgoes.link]; rfl⟩
      unfold adrEnd at hlive ⊢
      rw [hto1] at hlive ⊢
      split_ifs at hlive ⊢
      exact hsend

/-- A password that is accepted is answered by the options and the result, behind lines that say
nothing. -/
theorem PWD_log {buf : List Byte} (hto : s.toNode = none) (hlive : (PWD config env buf s).2 = true) :
    ∃ opt ok s1, Silently s s1 ∧ (PWD config env buf s).1.link.log =
      .msg M_OK ok :: .msg M_NUL opt :: s1.link.log := by
  have hgrant : ∀ s1 : State, ∃ opt ok, (pwdGrant config env s1).1.link.log =
      .msg M_OK ok :: .msg M_NUL opt :: s1.link.log := by
    intro s1
    unfold pwdGrant
    dsimp only
    obtain ⟨want, hnr⟩ := autoNr_eq config env
      (selectInbound config env { s1 with login := pwdModes s1.login }) { s1 with login := pwdModes s1.login }
    rw [hnr]
    obtain ⟨disk, q, inbound, heq, -⟩ := completeLogin_spec config env _
    rw [heq]
    exact ⟨_, _, rfl⟩
  have hsame : ∀ s1 s2 : State, Silently s s1 → s2.link = s1.link → ∃ opt ok s1, Silently s s1 ∧
      (pwdGrant config env s2).1.link.log = .msg M_OK ok :: .msg M_NUL opt :: s1.link.log := by
    intro s1 s2 hs hlink
    obtain ⟨opt, ok, hlog⟩ := hgrant s2
    exact ⟨opt, ok, s1, hs, by rw [hlog, hlink]⟩
  unfold PWD at hlive ⊢
  dsimp only at hlive ⊢
  rw [if_neg (by simp [hto])] at hlive ⊢
  by_cases hstate : s.login.state = .null
  · rw [if_neg (not_not.mpr hstate)] at hlive ⊢
    cases hc : pwdCheck s.login (cstr buf) with
    | mustMd5 => simp [hc] at hlive
    | bad m => simp [hc] at hlive
    | secure m =>
      exact hsame _ _ (doPrescan_silent config env { s with login := { s.login with mdFlag := m, state := .secure } }) rfl
    | nonsecure m digest early =>
      cases early with
      | true => exact hsame _ _ (doPrescan_silent config env { s with login := { s.login with mdFlag := m } }) rfl
      | false =>
        exact hsame _ _ (doPrescan_silent config env
          { s with login := { s.login with mdFlag := m, state := .nonsecure } }) rfl
  · rw [if_pos hstate] at hlive
    contradiction

/-! ### What has been heard -/

/-- What the options of the other side have set. -/
def Login.heard (l : Login) : Said := ⟨l.ndFlag.we, l.ndFlag.canNda, l.cryptFlag.they⟩

def Said.or (x y : Said) : Said := ⟨x.nd || y.nd, x.nda || y.nda, x.crypt || y.crypt⟩

theorem nulLogin_nda (config : BinkdConfig) (toNode : Option FtnNode) (tail buf : List Byte) (l : Login) :
    (nulLogin config toNode tail buf l).ndFlag.canNda =
      (l.ndFlag.canNda || (optWords tail buf).contains (str "NDA")) := by
  refine nulLogin_flag config (fun l => l.ndFlag.canNda) (str "NDA") toNode (fun x l => ?_)
    (fun _ _ _ _ _ _ => ⟨rfl, rfl, rfl⟩) tail buf l
  by_cases hx : x = str "NDA"
  · subst hx
    unfold nulOption
    rw [if_neg (by decide), if_neg (by decide), if_pos rfl]
    simp
  · simp only [hx, decide_false, Bool.or_false]
    unfold nulOption
    rw [if_neg hx]
    split_ifs
    all_goals first | rfl | skip
    split
    · split_ifs <;> rfl
    · rfl

theorem heard_nul (config : BinkdConfig) (toNode : Option FtnNode) {text : Str} {x : Said} (h : LineSays text x)
    (tail : List Byte) (l : Login) : (nulLogin config toNode tail text l).heard = l.heard.or x := by
  rw [← h tail]
  simp only [Login.heard, nulLogin_nd, nulLogin_nda, nulLogin_crypt, Said.or, said]

/-- What is said of the modes by a side itself: neither flag is changed by what it hears. -/
structure Own (we yes they : Bool) (l : Login) : Prop where
  we : l.cryptFlag.we = we
  yes : l.cryptFlag.yes = yes
  they : l.ndFlag.they = they

/-! ### Two sides -/

/-- The two sides of a handshake, and how much of what the other has sent each has read. -/
structure Pair where
  caller : State
  answerer : State
  callerRead : ℕ
  answererRead : ℕ

/-- The next message of the other side, read by a side that is still in the handshake. -/
def reads (config : BinkdConfig) (env : Env) (log : List Item) (n : ℕ) (s : State) : Option State :=
  if s.login.state ≠ .null then none
  else match log.reverse[n]? with
    | some (.msg t text) => if (handle config env t text s).2 then some (handle config env t text s).1 else none
    | _ => none

/-- A handshake: each side reads what the other has sent, in order, and does what it does by itself,
in any order of the two. -/
inductive Talk (callerConfig answererConfig : BinkdConfig) (p0 : Pair) : Pair → Prop
  | start : Talk callerConfig answererConfig p0 p0
  | caller (env : Env) {p : Pair} {s : State} (h : Talk callerConfig answererConfig p0 p)
      (hread : reads callerConfig env p.answerer.link.log p.callerRead p.caller = some s) :
      Talk callerConfig answererConfig p0 { p with caller := s, callerRead := p.callerRead + 1 }
  | answerer (env : Env) {p : Pair} {s : State} (h : Talk callerConfig answererConfig p0 p)
      (hread : reads answererConfig env p.caller.link.log p.answererRead p.answerer = some s) :
      Talk callerConfig answererConfig p0 { p with answerer := s, answererRead := p.answererRead + 1 }
  | callerAct (env : Env) {p : Pair} {s : State} (h : Talk callerConfig answererConfig p0 p)
      (hnull : p.caller.login.state = .null) (hact : Act callerConfig env p.caller s)
      (hlog : s.link.log = p.caller.link.log) : Talk callerConfig answererConfig p0 { p with caller := s }
  | answererAct (env : Env) {p : Pair} {s : State} (h : Talk callerConfig answererConfig p0 p)
      (hnull : p.answerer.login.state = .null) (hact : Act answererConfig env p.answerer s)
      (hlog : s.link.log = p.answerer.link.log) :
        Talk callerConfig answererConfig p0 { p with answerer := s }

theorem reads_some {log : List Item} {n : ℕ} (h : reads config env log n s = some s') :
    s.login.state = .null ∧
    ∃ t text, log.reverse[n]? = some (.msg t text) ∧ (handle config env t text s).2 = true ∧
      s' = (handle config env t text s).1 := by
  unfold reads at h
  split_ifs at h with hnull
  split at h
  · next t text hitem =>
    split_ifs at h with hlive
    exact ⟨not_not.mp hnull, t, text, hitem, hlive, (Option.some.inj h).symm⟩
  · contradiction

/-- The item that is read comes before, at, or behind a given one. -/
theorem read_cases {log later info : List Item} {x i : Item} {k : ℕ} (h : log = later ++ x :: info)
    (hk : log.reverse[k]? = some i) :
    k < info.length ∧ i ∈ info ∨ k = info.length ∧ i = x ∨ info.length < k ∧ i ∈ later := by
  have hrev : log.reverse = info.reverse ++ x :: later.reverse := by simp [h]
  rw [hrev] at hk
  rcases Nat.lt_trichotomy k info.length with hlt | heq | hgt
  · rw [List.getElem?_append_left (by simpa using hlt)] at hk
    exact .inl ⟨hlt, List.mem_reverse.mp (List.mem_of_getElem? hk)⟩
  · rw [List.getElem?_append_right (by simp [heq]), heq, List.length_reverse, Nat.sub_self] at hk
    exact .inr (.inl ⟨heq, (Option.some.inj hk).symm⟩)
  · rw [List.getElem?_append_right (by simp; omega), List.length_reverse] at hk
    obtain ⟨d, rfl⟩ := Nat.exists_eq_add_of_lt hgt
    have hd : info.length + d + 1 - info.length = d + 1 := by omega
    rw [hd, List.getElem?_cons_succ] at hk
    exact .inr (.inr ⟨hgt, List.mem_reverse.mp (List.mem_of_getElem? hk)⟩)

end Binkd
