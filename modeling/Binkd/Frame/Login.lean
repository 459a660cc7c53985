import Binkd.Frame
import Binkd.Login

/-!
# The frame of the handshake

`ADR` changes a few fields of the handshake, sends replies, and on the calling side
makes up the queue (`AdrFrame`).  `PWD` and `OK` end in `completeLogin`, which is
the only place where the keys and the inbound are set.
-/

namespace Binkd

open Lib

variable (config : BinkdConfig) (env : Env)

/-! ### `M_NUL` -/

/-- The fields that an option or a line of an `M_NUL` leaves alone. -/
structure NulKeeps (toNode : Option FtnNode) (l l' : Login) : Prop where
  expectedPwd : l'.expectedPwd = l.expectedPwd
  fa : l'.fa = l.fa
  nfa : l'.nfa = l.nfa
  pAddr : l'.pAddr = l.pAddr
  state : l'.state = l.state
  stateExt : l'.stateExt = l.stateExt
  mdFlag : l'.mdFlag = l.mdFlag
  want : l'.nrFlag.want = l.nrFlag.want
  theyNd : l'.ndFlag.they = l.ndFlag.they
  weCrypt : l'.cryptFlag.we = l.cryptFlag.we
  yesCrypt : l'.cryptFlag.yes = l.cryptFlag.yes
  mdChallenge : toNode = none → l'.mdChallenge = l.mdChallenge

theorem NulKeeps.refl (toNode : Option FtnNode) (l : Login) : NulKeeps toNode l l :=
  ⟨rfl, rfl, rfl, rfl, rfl, rfl, rfl, rfl, rfl, rfl, rfl, fun _ => rfl⟩

theorem NulKeeps.trans {toNode : Option FtnNode} {a b c : Login} (h : NulKeeps toNode a b)
    (h' : NulKeeps toNode b c) : NulKeeps toNode a c :=
  ⟨h'.expectedPwd.trans h.expectedPwd, h'.fa.trans h.fa, h'.nfa.trans h.nfa, h'.pAddr.trans h.pAddr,
    h'.state.trans h.state, h'.stateExt.trans h.stateExt, h'.mdFlag.trans h.mdFlag,
    h'.want.trans h.want, h'.theyNd.trans h.theyNd, h'.weCrypt.trans h.weCrypt,
    h'.yesCrypt.trans h.yesCrypt, fun hn => (h'.mdChallenge hn).trans (h.mdChallenge hn)⟩

theorem nulOption_keeps (toNode : Option FtnNode) (w : Str) (l : Login) :
    NulKeeps toNode l (nulOption config toNode w l) := by
  have h := NulKeeps.refl toNode l
  unfold nulOption
  split_ifs
  all_goals first
    | exact h
    | exact { h with }
    | skip
  split
  · split_ifs
    · exact { h with mdChallenge := fun hn => by contradiction }
    · exact h
  · exact h

theorem nulLogin_keeps (toNode : Option FtnNode) (tail buf : List Byte) (l : Login) :
    NulKeeps toNode l (nulLogin config toNode tail buf l) := by
  have h := NulKeeps.refl toNode l
  unfold nulLogin
  dsimp only
  split
  · exact { h with }
  · split_ifs
    · induction getwords _ {} generalizing l with
      | nil => exact .refl _ _
      | cons w ws ih =>
        rw [List.foldl_cons]
        exact (nulOption_keeps config toNode w l).trans (ih _ (.refl _ _))
    · exact { h with }
    · exact { h with }
    · exact h

/-! ### `M_ADR` -/

/-- What `ADR` may do. -/
structure AdrFrame (s s' : State) : Prop where
  toNode : s'.toNode = s.toNode
  remoteFa : s'.remoteFa = s.remoteFa
  login : ∃ e fa nfa p m l nd nr, s'.login = { s.login with
    expectedPwd := e, fa := fa, nfa := nfa, pAddr := p, mdFlag := m, listedFlag := l
    ndFlag := { s.login.ndFlag with they := nd }, nrFlag := { s.login.nrFlag with want := nr } }
  link : Queues (·.isReply) s.login.cryptFlag s.link s'.link
  tx : ∃ q, s'.tx = { s.tx with q := q }
  rx : s'.rx = s.rx
  ops : s'.ops = s.ops
  /-- the answering side makes up no queue yet -/
  q : s.toNode = none → s'.tx.q = s.tx.q

namespace AdrFrame

theorem refl (s : State) : AdrFrame s s :=
  ⟨rfl, rfl, ⟨_, _, _, _, _, _, _, _, rfl⟩, .refl _ _ _, ⟨_, rfl⟩, rfl, rfl, fun _ => rfl⟩

theorem trans {a b c : State} (h : AdrFrame a b) (h' : AdrFrame b c) : AdrFrame a c := by
  obtain ⟨_, _, _, _, _, _, _, _, hl⟩ := h.login
  obtain ⟨_, _, _, _, _, _, _, _, hl'⟩ := h'.login
  obtain ⟨_, hq⟩ := h.tx
  obtain ⟨_, hq'⟩ := h'.tx
  have hc : b.login.cryptFlag = a.login.cryptFlag := by rw [hl]
  refine ⟨h'.toNode.trans h.toNode, h'.remoteFa.trans h.remoteFa, ?_, h.link.trans (hc ▸ h'.link),
    ⟨_, by rw [hq', hq]⟩, h'.rx.trans h.rx, h'.ops.trans h.ops,
    fun hto => (h'.q (h.toNode.trans hto)).trans (h.q hto)⟩
  rw [hl', hl]
  exact ⟨_, _, _, _, _, _, _, _, rfl⟩

theorem send {s s' : State} (h : AdrFrame s s') {m : Byte} {a b : Str}
    (hm : m ≠ M_FILE) : AdrFrame s (msgSend2 m a b s') :=
  h.trans ⟨rfl, rfl, ⟨_, _, _, _, _, _, _, _, rfl⟩, .one (by simpa [Item.isReply] using hm) _,
    ⟨_, rfl⟩, rfl, rfl, fun _ => rfl⟩

theorem sendf {s s' : State} (h : AdrFrame s s') {m : Byte} {a : Str}
    (hm : m ≠ M_FILE) : AdrFrame s (msgSendf m a s') := h.send hm

end AdrFrame

theorem sendADR_frame (s : State) : AdrFrame s (sendADR config s) := by
  unfold sendADR
  dsimp only
  refine AdrFrame.send ?_ (by decide)
  exact ⟨rfl, rfl, ⟨_, _, _, _, _, _, _, _, rfl⟩, .refl _ _ _, ⟨_, rfl⟩, rfl, rfl, fun _ => rfl⟩

/-- The state and the locals that a round ends with. -/
def AdrStep.state : AdrStep → State
  | .stop s => s
  | .next s _ => s

/-- The handshake that the comparison of passwords ends with. -/
def PwdStep.login : PwdStep → Login
  | .accept l => l
  | .drop l => l

theorem adrPwd_login (toNode : Option FtnNode) (remoteFa : Option FtnAddr) (fa : FtnAddr)
    (pn : FtnNode) (l : Login) :
    ∃ e m, (adrPwd toNode remoteFa fa pn l).login = { l with expectedPwd := e, mdFlag := m } := by
  unfold adrPwd
  generalize (if toNode.isSome = true then pn.outPwd else some pn.pwd) = pwd
  split
  · exact ⟨_, _, rfl⟩
  · cases pwd with
    | none => exact ⟨_, _, rfl⟩
    | some pwd =>
      dsimp only
      split_ifs <;> exact ⟨_, _, rfl⟩

theorem adrBusy_frame (fa : FtnAddr) (pn : Option FtnNode) (s : State) (l : AdrLocals) :
    AdrFrame s (adrBusy config env fa pn s l).state := by
  unfold adrBusy
  split
  · exact ⟨rfl, rfl, ⟨_, _, _, _, _, _, _, _, rfl⟩, .refl _ _ _, ⟨_, rfl⟩, rfl, rfl, fun _ => rfl⟩
  · split
    · exact (AdrFrame.refl s).sendf (by decide)
    · exact ⟨rfl, rfl, ⟨_, _, _, _, _, _, _, _, rfl⟩, .refl _ _ _, ⟨_, rfl⟩, rfl, rfl, fun _ => rfl⟩

theorem adrLogin_frame (fa : FtnAddr) (pn : Option FtnNode) (s : State) (l : AdrLocals) :
    AdrFrame s (adrLogin config env fa pn s l).state := by
  unfold adrLogin
  split
  · exact adrBusy_frame config env fa none s l
  · next n =>
    dsimp only
    have h := adrPwd_login s.toNode s.remoteFa fa n
      { s.login with listedFlag := s.login.listedFlag ||| n.listed }
    have hs : ∀ l' : Login, (∃ e m, l' = { s.login with
        listedFlag := s.login.listedFlag ||| n.listed, expectedPwd := e, mdFlag := m }) →
        AdrFrame s { s with login := l' } := by
      rintro _ ⟨e, m, rfl⟩
      exact ⟨rfl, rfl, ⟨_, _, _, _, _, _, _, _, rfl⟩, .refl _ _ _, ⟨_, rfl⟩, rfl, rfl, fun _ => rfl⟩
    split
    · next l' heq =>
      rw [heq] at h
      exact hs l' h
    · next l' heq =>
      rw [heq] at h
      exact (hs l' h).trans (adrBusy_frame config env fa (some n) _ l)

theorem adrStep_frame (w : Str) (s : State) (l : AdrLocals) :
    AdrFrame s (adrStep config env w s l).state := by
  unfold adrStep
  split
  · exact (AdrFrame.refl s).send (by decide)
  · dsimp only
    split
    · exact adrLogin_frame config env _ _ s _
    · split
      · split
        · exact adrLogin_frame config env _ _ s _
        · split
          · split
            · exact (AdrFrame.refl s).send (by decide)
            · exact .refl s
          · exact adrLogin_frame config env _ _ s _
      · exact adrLogin_frame config env _ _ s _

theorem adrLoop_frame (ws : List Str) (s : State) (l : AdrLocals) :
    AdrFrame s (adrLoop config env ws s l).state := by
  induction ws generalizing s l with
  | nil => exact .refl s
  | cons w ws ih =>
    have h := adrStep_frame config env w s l
    rw [adrLoop]
    split
    · next s1 heq =>
      rw [heq] at h
      exact h
    · next s1 l1 heq =>
      rw [heq] at h
      exact h.trans (ih s1 l1)

theorem doPrescan_frame (s : State) (hto : s.toNode ≠ none) : AdrFrame s (doPrescan config env s) := by
  have hfreq : ∀ (n : Nat) (s : State), AdrFrame s ((msgSend2 M_NUL (str "FREQ") [])^[n] s) := by
    intro n
    induction n with
    | zero => exact .refl
    | succ n ih => exact fun s => ((AdrFrame.refl s).send (by decide)).trans (ih _)
  unfold doPrescan
  split
  · dsimp only
    have h1 : ∀ (q : Queue) (disk : Disk),
        AdrFrame s { s with disk := disk, tx := { s.tx with q := q } } := fun q disk =>
      ⟨rfl, rfl, ⟨_, _, _, _, _, _, _, _, rfl⟩, .refl _ _ _, ⟨_, rfl⟩, rfl, rfl, fun h => absurd h hto⟩
    split
    · exact ((h1 _ _).send (by decide)).trans (hfreq _ _)
    · exact (h1 _ _).send (by decide)
  · exact .refl s

theorem adrAnswer_frame (l : AdrLocals) (s : State) : AdrFrame s (adrAnswer config l s) := by
  have h1 : AdrFrame s (if s.login.delayAdr = true then sendADR config s else s) := by
    split
    · exact sendADR_frame config s
    · exact .refl s
  unfold adrAnswer
  exact h1.trans ⟨rfl, rfl, ⟨_, _, _, _, _, _, _, _, rfl⟩, .refl _ _ _, ⟨_, rfl⟩, rfl, rfl, fun _ => rfl⟩

theorem adrCall_frame (n : FtnNode) (s : State) (hto : s.toNode ≠ none) :
    AdrFrame s (adrCall config env n s).1 := by
  have h1 := doPrescan_frame config env s hto
  unfold adrCall
  dsimp only
  split
  · exact (h1.send (by decide)).trans ⟨rfl, rfl, ⟨_, _, _, _, _, _, _, _, rfl⟩, .refl _ _ _, ⟨_, rfl⟩,
      rfl, rfl, fun _ => rfl⟩
  · split
    · exact h1
    · exact h1.send (by decide)

theorem adrEnd_frame (s : State) (l : AdrLocals) : AdrFrame s (adrEnd config env s l).1 := by
  have h := AdrFrame.refl s
  unfold adrEnd
  split
  · exact h.send (by decide)
  · split
    · exact h
    · split
      · exact h.send (by decide)
      · split
        · exact adrAnswer_frame config l s
        · next hto => exact adrCall_frame config env _ s (by simp [hto])

theorem adrExpect_frame (s : State) : AdrFrame s (adrExpect s) := by
  unfold adrExpect
  split
  · exact ⟨rfl, rfl, ⟨_, _, _, _, _, _, _, _, rfl⟩, .refl _ _ _, ⟨_, rfl⟩, rfl, rfl, fun _ => rfl⟩
  · exact .refl s

theorem ADR_frame (buf : List Byte) (s : State) : AdrFrame s (ADR config env buf s).1 := by
  unfold ADR
  split
  · exact .refl s
  · have h := (adrExpect_frame s).trans
      (adrLoop_frame config env (adrWords config env buf) (adrExpect s) {})
    split
    · next s1 heq =>
      rw [heq] at h
      exact h
    · next s1 l heq =>
      rw [heq] at h
      exact h.trans (adrEnd_frame config env s1 l)

/-! ### `complete_login` -/

/-- The mode matters for the queue only in whether it is `YES_CRYPT`. -/
theorem Link.queue_congr {c c' : CryptFlag} (h : c = .on ↔ c' = .on) (i : Item) (l : Link) :
    l.queue c i = l.queue c' i := by
  simp only [queue, encode, h]

theorem Link.queueAll_congr {c c' : CryptFlag} (h : c = .on ↔ c' = .on) (items : List Item)
    (l : Link) : l.queueAll c items = l.queueAll c' items := by
  induction items generalizing l with
  | nil => rfl
  | cons i items ih => rw [queueAll_cons, queueAll_cons, queue_congr h, ih]

/-- A scan for the login queues files of the active addresses only. -/
theorem loginQueue_spec (s : State) : ∃ disk q, loginQueue config env s =
      { s with disk := disk, tx := { s.tx with q := q } } ∧
    ((∀ a ∈ s.login.active, a.is4D) → AddsOnly (· ∈ s.login.active) s.tx.q q) := by
  unfold loginQueue
  split
  · by_cases hq : s.tx.q = []
    · rw [if_pos hq]
      refine ⟨_, _, rfl, fun h4 e he => ?_⟩
      have hscan := qScanAddrs_fa config env s.login.active s.toNode.isSome h4 ([], s.disk)
      exact .inr ((hscan e ((qSort_perm _ _).mem_iff.mp he)).resolve_left List.not_mem_nil)
    · rw [if_neg hq]
      exact ⟨_, _, rfl, fun _ e he => .inl ((qSort_perm _ _).mem_iff.mp he)⟩
  · exact ⟨s.disk, s.tx.q, rfl, fun _ => .refl _ _⟩

/-- The handshake after `completeLogin`. -/
def completed (l : Login) : Login :=
  { l with nrFlag := { l.nrFlag with we := l.nrFlag.we || l.ndFlag.we }, cryptFlag := loginCrypt l }

/-- The link after `completeLogin`. -/
def Link.completed (toNode : Option FtnNode) (login : Login) (l : Link) : Link :=
  let keys := if loginSetsKeys login then loginKeys toNode login.expectedPwd else (l.keysOut, l.keysIn)
  { l with msgsInBatch := 0, keysOut := keys.1, keysIn := keys.2 }

theorem completeLogin_spec (s : State) : ∃ disk q inbound, completeLogin config env s =
      ({ s with
        disk := disk, tx := { s.tx with q := q }, rx := { s.rx with inbound := inbound }
        login := completed s.login, link := s.link.completed s.toNode s.login }, true) ∧
    ((∀ a ∈ s.login.active, a.is4D) → AddsOnly (· ∈ s.login.active) s.tx.q q) := by
  unfold completeLogin
  dsimp only
  obtain ⟨disk, q, heq, hq⟩ := loginQueue_spec config env
    { s with rx := { s.rx with inbound := selectInbound config env s } }
  rw [heq]
  exact ⟨disk, q, _, rfl, hq⟩

/-- An `M_OK` on the calling side settles the state. -/
theorem okLogin_state (n : FtnNode) (tail buf : List Byte) (l : Login) :
    (okLogin n tail buf l).state ≠ .null := by
  unfold okLogin
  dsimp only
  split_ifs <;> simp

/-! ### `M_PWD` -/

/-- The handshake in which `PWD` sends its options: the modes are settled, and the
NR mode may be asked for because of partial files. -/
def granted (l : Login) (mdFlag : BitVec 32) (state : Security) (ext : SecurityExt) (want : Bool) :
    Login :=
  let l := pwdModes { l with mdFlag := mdFlag, state := state, stateExt := ext }
  { l with nrFlag := { l.nrFlag with want := want } }

/-- The two messages at the end of a login. -/
def grantItems (l : Login) : List Item :=
  [.msg M_NUL (str "OPT" ++ answerOpt l),
    .msg M_OK ((if l.state = .secure then str "secure" else str "non-secure") ++ [])]

/-- What `PWD` has done where it has granted a login. -/
structure PwdGranted (s s' : State) (mdFlag : BitVec 32) (state : Security) (ext : SecurityExt)
    (want : Bool) : Prop where
  toNode : s'.toNode = s.toNode
  remoteFa : s'.remoteFa = s.remoteFa
  login : s'.login = completed (granted s.login mdFlag state ext want)
  link : s.login.cryptFlag ≠ .on → ∃ pre, (∀ i ∈ pre, i.isReply) ∧
    s'.link = (s.link.queueAll s.login.cryptFlag
      (pre ++ grantItems (granted s.login mdFlag state ext want))).completed s.toNode
        (granted s.login mdFlag state ext want)
  tx : ∃ q, s'.tx = { s.tx with q := q } ∧
    ((∀ a ∈ s.login.active, a.is4D) → AddsOnly (· ∈ s.login.active) s.tx.q q)
  rx : ∃ inbound, s'.rx = { s.rx with inbound := inbound }
  ops : s'.ops = s.ops

/-- The prescan changes the queue, the disk and the link only. -/
theorem doPrescan_spec (s : State) : ∃ disk q link, doPrescan config env s =
      { s with disk := disk, tx := { s.tx with q := q }, link := link } ∧
    Queues (·.isReply) s.login.cryptFlag s.link link ∧
    ((∀ a ∈ s.login.active, a.is4D) → AddsOnly (· ∈ s.login.active) s.tx.q q) := by
  have hfreq : ∀ (n : Nat) (s : State), ∃ link,
      (msgSend2 M_NUL (str "FREQ") [])^[n] s = { s with link := link } ∧
      Queues (·.isReply) s.login.cryptFlag s.link link := by
    intro n
    induction n with
    | zero => exact fun s => ⟨s.link, rfl, .refl _ _ _⟩
    | succ n ih =>
      intro s
      obtain ⟨link, heq, hq⟩ := ih (msgSend2 M_NUL (str "FREQ") [] s)
      exact ⟨link, heq, Queues.trans (.one (by decide) _) hq⟩
  unfold doPrescan
  split
  · have hscan := qScanAddrs_fa config env s.login.active s.toNode.isSome
    have hsize := qGetSizes_fa env (qScanAddrs config env s.login.active s.toNode.isSome ([], s.disk)).2
      (qScanAddrs config env s.login.active s.toNode.isSome ([], s.disk)).1
    have hadds : (∀ a ∈ s.login.active, a.is4D) → AddsOnly (· ∈ s.login.active) s.tx.q _ :=
      fun h4 e he => by
        obtain ⟨e', he', hfa⟩ := hsize e he
        exact .inr (hfa ▸ ((hscan h4 _ e' he').resolve_left List.not_mem_nil))
    dsimp only
    split
    · obtain ⟨link, heq, hq⟩ := hfreq _ _
      rw [heq]
      exact ⟨_, _, _, rfl, Queues.trans (.one (by rfl) _) hq, hadds⟩
    · exact ⟨_, _, _, rfl, .one (by rfl) _, hadds⟩
  · exact ⟨s.disk, s.tx.q, s.link, rfl, .refl _ _ _, fun _ => .refl _ _⟩

theorem autoNr_eq (inbound : Str) (s : State) : ∃ want, autoNr config env inbound s =
    { s with login := { s.login with nrFlag := { s.login.nrFlag with want := want } } } := by
  unfold autoNr
  split
  · exact ⟨true, rfl⟩
  · exact ⟨s.login.nrFlag.want, rfl⟩

/-- The modes never switch the encryption on. -/
theorem granted_cryptFlag {l : Login} (h : l.cryptFlag ≠ .on) (mdFlag : BitVec 32) (state : Security)
    (ext : SecurityExt) (want : Bool) : (granted l mdFlag state ext want).cryptFlag ≠ .on := by
  simp only [granted, pwdModes]
  split_ifs
  · decide
  · decide
  · decide
  · exact h

/-- `pwdGrant` once the outcome of the check is in the state. -/
theorem pwdGrant_spec (s0 : State) {s : State} {mdFlag : BitVec 32} {state : Security} {ext : SecurityExt}
    {disk : Disk} {q : Queue} {link : Link}
    (hs : s = { s0 with disk := disk, tx := { s0.tx with q := q }, link := link, login :=
      { s0.login with mdFlag := mdFlag, state := state, stateExt := ext } })
    (hlink : Queues (·.isReply) s0.login.cryptFlag s0.link link)
    (hq : (∀ a ∈ s0.login.active, a.is4D) → AddsOnly (· ∈ s0.login.active) s0.tx.q q) :
    (pwdGrant config env s).2 = true ∧
      ∃ want, PwdGranted s0 (pwdGrant config env s).1 mdFlag state ext want := by
  obtain ⟨want, hnr⟩ := autoNr_eq config env
    (selectInbound config env { s with login := pwdModes s.login }) { s with login := pwdModes s.login }
  have hgrant : pwdGrant config env s = completeLogin config env
      (msgSend2 M_OK (if state = .secure then str "secure" else str "non-secure") []
        (msgSend2 M_NUL (str "OPT") (answerOpt (granted s0.login mdFlag state ext want))
          { s with login := granted s0.login mdFlag state ext want })) := by
    unfold pwdGrant
    dsimp only
    rw [hnr, hs]
    rfl
  obtain ⟨disk', q', inbound, heq, hq'⟩ := completeLogin_spec config env
    (msgSend2 M_OK (if state = .secure then str "secure" else str "non-secure") []
      (msgSend2 M_NUL (str "OPT") (answerOpt (granted s0.login mdFlag state ext want))
        { s with login := granted s0.login mdFlag state ext want }))
  rw [hgrant, heq]
  subst hs
  refine ⟨rfl, want, rfl, rfl, rfl, fun hc => ?_, ⟨q', rfl, fun h4 => (hq h4).trans (hq' h4)⟩,
    ⟨inbound, rfl⟩, rfl⟩
  obtain ⟨pre, hpre, rfl⟩ := hlink
  refine ⟨pre, hpre, ?_⟩
  have hcong : (granted s0.login mdFlag state ext want).cryptFlag = .on ↔ s0.login.cryptFlag = .on :=
    iff_of_false (granted_cryptFlag hc mdFlag state ext want) hc
  rw [Link.queueAll_append, Link.queueAll_congr hcong.symm (grantItems _)]
  rfl

/-- What `PWD` can do on the answering side. -/
inductive PwdOutcome (s : State) (pwd : Str) : State × Bool → Prop
  /-- a password after a login -/
  | double (h : s.login.state ≠ .null) (s' : State) (hs : AdrFrame s s') (hl : s'.login = s.login) :
      PwdOutcome s pwd (s', false)
  /-- a password that does not fit -/
  | refused (m : BitVec 32) (s' : State) (h : s.login.state = .null) (hs : AdrFrame s s')
      (hl : s'.login = { s.login with mdFlag := m }) : PwdOutcome s pwd (s', false)
  /-- a session without password -/
  | nonsecure (mdFlag : BitVec 32) (digest early : Bool) (ext : SecurityExt) (want : Bool) (s' : State)
      (h : s.login.state = .null) (hc : pwdCheck s.login pwd = .nonsecure mdFlag digest early)
      (hs : PwdGranted s s' mdFlag .nonsecure ext want) : PwdOutcome s pwd (s', true)
  | secure (mdFlag : BitVec 32) (want : Bool) (s' : State) (h : s.login.state = .null)
      (hc : pwdCheck s.login pwd = .secure mdFlag)
      (hs : PwdGranted s s' mdFlag .secure s.login.stateExt want) : PwdOutcome s pwd (s', true)

theorem PWD_outcome (buf : List Byte) (s : State) (hto : s.toNode = none) :
    PwdOutcome s (cstr buf) (PWD config env buf s) := by
  unfold PWD
  dsimp only
  rw [if_neg (by simp [hto])]
  by_cases hstate : s.login.state = .null
  · rw [if_neg (not_not.mpr hstate)]
    cases hc : pwdCheck s.login (cstr buf) with
    | mustMd5 => exact .refused _ _ hstate ((AdrFrame.refl s).send (by decide)) rfl
    | bad m =>
      refine .refused m _ hstate ?_ rfl
      exact ⟨rfl, rfl, ⟨_, _, _, _, _, _, _, _, rfl⟩, .one (by rfl) _, ⟨_, rfl⟩, rfl, rfl, fun _ => rfl⟩
    | secure m =>
      dsimp only
      obtain ⟨disk, q, link, heq, hlink, hq⟩ := doPrescan_spec config env
        { s with login := { s.login with mdFlag := m, state := .secure } }
      rw [heq]
      obtain ⟨h2, want, h1⟩ := pwdGrant_spec config env s rfl hlink hq
      rw [← Prod.eta (pwdGrant config env _), h2]
      exact .secure m want _ hstate hc h1
    | nonsecure m digest early =>
      cases early with
      | true =>
        simp only [if_true]
        obtain ⟨disk, q, link, heq, hlink, hq⟩ := doPrescan_spec config env
          { s with login := { s.login with mdFlag := m } }
        rw [heq]
        obtain ⟨h2, want, h1⟩ := pwdGrant_spec config env s rfl hlink hq
        rw [← Prod.eta (pwdGrant config env _), h2]
        exact .nonsecure m digest true _ want _ hstate hc h1
      | false =>
        simp only [Bool.false_eq_true, if_false]
        obtain ⟨disk, q, link, heq, hlink, hq⟩ := doPrescan_spec config env
          { s with login := { s.login with mdFlag := m, state := .nonsecure } }
        rw [heq]
        obtain ⟨h2, want, h1⟩ := pwdGrant_spec config env s rfl hlink hq
        rw [← Prod.eta (pwdGrant config env _), h2]
        exact .nonsecure m digest false _ want _ hstate hc h1
  · rw [if_pos hstate]
    exact .double hstate _ ((AdrFrame.refl s).send (by decide)) rfl

/-- After the login a password changes nothing. -/
theorem PWD_again (buf : List Byte) (s : State) (hstate : s.login.state ≠ .null) :
    AdrFrame s (PWD config env buf s).1 ∧ (PWD config env buf s).1.login = s.login := by
  by_cases hto : s.toNode = none
  · have hout := PWD_outcome config env buf s hto
    generalize PWD config env buf s = r at hout
    cases hout with
    | double _ s' hs hl => exact ⟨hs, hl⟩
    | refused _ _ hnull => exact absurd hnull hstate
    | nonsecure _ _ _ _ _ _ hnull => exact absurd hnull hstate
    | secure _ _ _ hnull => exact absurd hnull hstate
  · unfold PWD
    rw [if_pos (Option.isSome_iff_ne_none.mpr hto)]
    exact ⟨.refl s, rfl⟩

end Binkd
