import Binkd.Auth

/-!
# Active addresses and the login that covers them

On the answering side an address with a password becomes active while the password
is still only expected (`Pledged`); the login that follows knows it, so that every
active address is covered from then on (`Covered`), and files are queued for
active addresses only.

The handler of `M_ADR` may be called after the login, too, and then adds addresses
that no password was asked for.  `aka_binding` is the invariant for runs in which
no `M_ADR` of this kind arrives.
-/

namespace Binkd

open Lib

/-! ### The invariant -/

/-- The password `p` of an address is known to the remote. -/
def KnowsPwd (l : Login) (p : Str) : Prop := l.state = .secure ∧ (p = str "!" ∨ p = l.expectedPwd)

instance (l : Login) (p : Str) : Decidable (KnowsPwd l p) :=
  inferInstanceAs (Decidable (_ ∧ (_ ∨ _)))

/-- Every active address with a password is covered by the login. -/
def Covered (config : BinkdConfig) (l : Login) : Prop :=
  ∀ a ∈ l.active, ∀ p ∈ nodePwd a config, p ≠ str "-" → KnowsPwd l p

instance (config : BinkdConfig) (l : Login) : Decidable (Covered config l) :=
  inferInstanceAs (Decidable (∀ a ∈ l.active, ∀ p ∈ nodePwd a config, p ≠ str "-" → KnowsPwd l p))

/-- Before the login: every active address with a password is covered by the password
that is expected, unless there is none any more. -/
def Pledged (config : BinkdConfig) (l : Login) : Prop :=
  ∀ a ∈ l.active, ∀ p ∈ nodePwd a config, p ≠ str "-" →
    l.expectedPwd ≠ str "-" ∧ (p = str "!" ∨ p = l.expectedPwd ∨ l.expectedPwd = [])

/-- After the login the active addresses and the files in the queue belong to it. -/
def Bound (config : BinkdConfig) (s : State) : Prop :=
  s.login.state ≠ .null → Covered config s.login ∧
    ∀ e ∈ s.tx.q, ∀ p ∈ nodePwd e.fa config, p ≠ str "-" → KnowsPwd s.login p

instance (config : BinkdConfig) (s : State) : Decidable (Bound config s) :=
  inferInstanceAs (Decidable (_ → _ ∧ ∀ e ∈ s.tx.q, ∀ p ∈ nodePwd e.fa config, p ≠ str "-" →
    KnowsPwd s.login p))

/-- What an `M_ADR` may name after the login. -/
def CoveredAdr (config : BinkdConfig) (env : Env) (remoteFa : Option FtnAddr) (l : Login)
    (buf : List Byte) : Prop :=
  l.state ≠ .null → ∀ w ∈ adrWords config env buf, ∀ a ∈ akaOf config w, ∀ p ∈ nodePwd a config,
    p ≠ str "-" → KnowsPwd l p ∧ (p = str "!" → ftnaddressCmpOpt remoteFa a = 0)

instance (config : BinkdConfig) (env : Env) (remoteFa : Option FtnAddr) (l : Login) (buf : List Byte) :
    Decidable (CoveredAdr config env remoteFa l buf) :=
  inferInstanceAs (Decidable (_ → ∀ w ∈ adrWords config env buf, ∀ a ∈ akaOf config w,
    ∀ p ∈ nodePwd a config, p ≠ str "-" → KnowsPwd l p ∧ (_ → _)))

/-- No message of the round is the digest of an empty password that is expected, or names
an address that the login does not cover. -/
def NoLateAdr (config : BinkdConfig) (i : Input) (s : State) : Prop :=
  Meets config (fun a t buf => (t = M_PWD → ¬ EmptyKey a.login (cstr buf)) ∧
    (t = M_ADR → CoveredAdr config i.env a.remoteFa a.login buf)) i s

instance (config : BinkdConfig) (i : Input) (s : State) : Decidable (NoLateAdr config i s) :=
  inferInstanceAs (Decidable (Meets config _ i s))

variable {config : BinkdConfig} {env : Env}

/-- The lists of addresses are in order, and whatever is in the first place is active. -/
structure AkaLists (l : Login) : Prop where
  nfa_le : l.nfa ≤ l.fa.length
  is4D : ∀ a ∈ l.fa, a.is4D = true
  first : ∀ a ∈ l.fa.head?, a ∈ l.active

/-- The invariant of a session that answers. -/
structure BindInv (config : BinkdConfig) (s : State) : Prop where
  toNode : s.toNode = none
  lists : AkaLists s.login
  pledged : s.login.state = .null → Pledged config s.login
  covered : s.login.state ≠ .null → Covered config s.login
  known : s.login.state = .secure → s.login.expectedPwd ≠ [] ∧ s.login.expectedPwd ≠ str "-"
  q : ∀ e ∈ s.tx.q, e.fa ∈ s.login.active

theorem BindInv.bound {s : State} (h : BindInv config s) : Bound config s := fun hl =>
  ⟨h.covered hl, fun e he => h.covered hl e.fa (h.q e he)⟩

/-! ### The addresses of an `M_ADR` -/

/-- Both lists after a round. -/
theorem AdrRound.lists {remoteFa : Option FtnAddr} {w : Str} {l l' : Login}
    (h : AdrRound config env remoteFa w l l') (hle : l.nfa ≤ l.fa.length)
    (h4 : ∀ a ∈ l.fa, a.is4D = true) : l'.nfa ≤ l'.fa.length ∧ ∀ a ∈ l'.fa, a.is4D = true := by
  obtain ⟨a, e, m, x, fa, nfa, added, ha, rfl, hadd, -, -⟩ := h.round
  rcases hadd with ⟨rfl, rfl⟩ | ⟨-, hadd⟩
  · exact ⟨hle, h4⟩
  · obtain ⟨h1, h2, -⟩ := hadd.lists hle
    refine ⟨h1, fun y hy => ?_⟩
    rcases h2 y hy with hy | rfl
    · exact h4 y hy
    · exact akaOf_is4D ha

/-- No active address is lost in a round. -/
theorem AdrRound.active {remoteFa : Option FtnAddr} {w : Str} {l l' : Login}
    (h : AdrRound config env remoteFa w l l') (hle : l.nfa ≤ l.fa.length) :
    ∀ a ∈ l.active, a ∈ l'.active := by
  obtain ⟨a, e, m, x, fa, nfa, added, ha, rfl, hadd, -, -⟩ := h.round
  intro b hb
  rcases hadd with ⟨rfl, rfl⟩ | ⟨-, hadd⟩
  · exact hb
  · change b ∈ fa.take nfa
    rcases (hadd.lists hle).2.2 with hact | hact
    · rwa [hact]
    · rw [hact]
      exact List.mem_append_left _ hb

/-- Before the login a round keeps the pledge. -/
theorem AdrRound.pledged {remoteFa : Option FtnAddr} {w : Str} {l l' : Login}
    (h : AdrRound config env remoteFa w l l') (hle : l.nfa ≤ l.fa.length)
    (hp : Pledged config l) : Pledged config l' := by
  obtain ⟨a, e, m, x, fa, nfa, added, ha, rfl, hadd, hnone, hsome⟩ := h.round
  have hbang : str "!" ≠ [] := by decide
  -- the addresses that were active before
  have hold : ∀ b ∈ l.active, ∀ p ∈ nodePwd b config, p ≠ str "-" →
      e ≠ str "-" ∧ (p = str "!" ∨ p = e ∨ e = []) := by
    intro b hb p hpb hdash
    obtain ⟨h1, h2⟩ := hp b hb p hpb hdash
    cases hn : getNodeInfo env.now a config with
    | none =>
      rw [(hnone hn).1]
      exact ⟨h1, h2⟩
    | some n =>
      have hr := hsome n hn
      cases hr with
      | neutral => exact ⟨h1, h2⟩
      | emptied => exact ⟨h1, h2⟩
      | refused => exact ⟨by decide, .inr (.inr rfl)⟩
      | first hd he =>
        have he := he.resolve_left h1
        rw [he] at h2
        refine ⟨hd, .inl ?_⟩
        rcases h2 with h2 | h2 | h2
        · exact h2
        · exact h2
        · exact absurd h2 hbang
      | again => exact ⟨h1, h2⟩
  -- the new address
  have hnew : added = true → ∀ p ∈ nodePwd a config, p ≠ str "-" →
      e ≠ str "-" ∧ (p = str "!" ∨ p = e ∨ e = []) := by
    intro hadded p hpa hdash
    rw [← getNodeInfo_pwd env.now] at hpa
    obtain ⟨n, hn, rfl⟩ := Option.map_eq_some_iff.mp hpa
    have hr := hsome n hn
    cases hr with
    | neutral hd => exact absurd hd hdash
    | emptied he =>
      rw [he]
      exact ⟨by decide, .inr (.inr rfl)⟩
    | refused => exact absurd hadded (by simp)
    | first hd => exact ⟨hd, .inr (.inl rfl)⟩
    | again _ _ he hp => exact ⟨he, hp.elim (fun h => .inr (.inl h.symm)) .inl⟩
  rcases hadd with ⟨rfl, rfl⟩ | ⟨hadded, hadd⟩
  · exact hold
  · obtain ⟨-, -, hact⟩ := hadd.lists hle
    intro b hb
    change b ∈ fa.take nfa at hb
    rcases hact with hact | hact
    · rw [hact] at hb
      exact hold b hb
    · rw [hact] at hb
      rcases List.mem_append.mp hb with hb | hb
      · exact hold b hb
      · obtain rfl := List.mem_singleton.mp hb
        exact hnew hadded

/-- After the login a round with an address that is covered keeps the cover. -/
theorem AdrRound.covered {remoteFa : Option FtnAddr} {w : Str} {l l' : Login}
    (h : AdrRound config env remoteFa w l l') (hle : l.nfa ≤ l.fa.length)
    (hknown : l.state = .secure → l.expectedPwd ≠ [] ∧ l.expectedPwd ≠ str "-")
    (hw : ∀ a ∈ akaOf config w, ∀ p ∈ nodePwd a config,
      p ≠ str "-" → KnowsPwd l p ∧ (p = str "!" → ftnaddressCmpOpt remoteFa a = 0))
    (hp : Covered config l) :
    Covered config l' ∧ l'.expectedPwd = l.expectedPwd ∧ l'.state = l.state := by
  obtain ⟨a, e, m, x, fa, nfa, added, ha, rfl, hadd, hnone, hsome⟩ := h.round
  have he : e = l.expectedPwd := by
    cases hn : getNodeInfo env.now a config with
    | none => exact (hnone hn).1
    | some n =>
      have hcov := hw a ha n.pwd (pwd_of_getNodeInfo hn)
      have hr := hsome n hn
      cases hr with
      | neutral => rfl
      | emptied => rfl
      | refused hd _ hno =>
        obtain ⟨⟨-, hk⟩, hmine⟩ := hcov hd
        rcases hno with ⟨hb, hno⟩ | ⟨hb, hno⟩
        · exact absurd (hmine hb) hno
        · exact absurd (hk.resolve_left hb) hno
      | first hd hfirst =>
        obtain ⟨⟨hsec, hk⟩, -⟩ := hcov hd
        have hbang := hfirst.resolve_left (hknown hsec).2
        rcases hk with hk | hk
        · rw [hk, hbang]
        · exact hk
      | again => rfl
  subst he
  refine ⟨?_, rfl, rfl⟩
  rcases hadd with ⟨rfl, rfl⟩ | ⟨-, hadd⟩
  · exact hp
  · obtain ⟨-, -, hact⟩ := hadd.lists hle
    intro b hb
    change b ∈ fa.take nfa at hb
    rcases hact with hact | hact
    · rw [hact] at hb
      exact hp b hb
    · rw [hact] at hb
      rcases List.mem_append.mp hb with hb | hb
      · exact hp b hb
      · obtain rfl := List.mem_singleton.mp hb
        exact fun p hpa hd => (hw b ha p hpa hd).1

/-! ### The steps -/

variable {t : Byte} {buf : List Byte} {s s' : State}

/-- The invariant looks at a few fields of the handshake only. -/
theorem BindInv.of_login (h : BindInv config s) (hto : s'.toNode = none)
    (h1 : s'.login.fa = s.login.fa) (h2 : s'.login.nfa = s.login.nfa)
    (h3 : s'.login.state = s.login.state) (h4 : s'.login.expectedPwd = s.login.expectedPwd)
    (hq : ∀ e ∈ s'.tx.q, e.fa ∈ s.login.active) : BindInv config s' := by
  have hact : s'.login.active = s.login.active := by rw [Login.active, h1, h2]; rfl
  refine ⟨hto, ⟨?_, ?_, ?_⟩, fun hl => ?_, fun hl => ?_, fun hl => ?_, ?_⟩
  · rw [h1, h2]; exact h.lists.nfa_le
  · rw [h1]; exact h.lists.is4D
  · rw [h1, hact]; exact h.lists.first
  · rw [h3] at hl
    unfold Pledged
    rw [hact, h4]
    exact h.pledged hl
  · rw [h3] at hl
    unfold Covered KnowsPwd
    rw [hact, h3, h4]
    exact h.covered hl
  · rw [h3] at hl
    rw [h4]
    exact h.known hl
  · rw [hact]
    exact hq

theorem BindInv.frame (h : BindInv config s) (hf : ActFrame s s') : BindInv config s' := by
  obtain ⟨d, n, hl⟩ := hf.login
  refine h.of_login (hf.toNode.trans h.toNode) (by rw [hl]) (by rw [hl]) (by rw [hl]) (by rw [hl]) ?_
  intro e he
  rcases hf.q e he with ⟨e', he', hfa⟩ | hhead | hact
  · rw [← hfa]
    exact h.q e' he'
  · exact h.lists.first _ hhead
  · exact hact

/-- The address in the first place is active once there is an active one. -/
theorem first_active {l : Login} (h : l.nfa ≠ 0) : ∀ a ∈ l.fa.head?, a ∈ l.active := by
  intro a ha
  cases hfa : l.fa with
  | nil => simp [hfa] at ha
  | cons b fa =>
    obtain ⟨n, hn⟩ := Nat.exists_eq_succ_of_ne_zero h
    simp only [hfa, List.head?_cons, Option.mem_def, Option.some.injEq] at ha
    simp [Login.active, hfa, hn, ha]

/-- The lists of addresses after an `M_ADR`. -/
theorem BindInv.adr_lists (h : BindInv config s) (env : Env) (buf : List Byte) :
    ((ADR config env buf s).1.login.nfa ≤ (ADR config env buf s).1.login.fa.length ∧
      ∀ a ∈ (ADR config env buf s).1.login.fa, a.is4D = true) ∧
    ∀ a ∈ s.login.active, a ∈ (ADR config env buf s).1.login.active :=
  ADR_keeps config env buf (P := fun l => (l.nfa ≤ l.fa.length ∧ ∀ a ∈ l.fa, a.is4D = true) ∧
      ∀ a ∈ s.login.active, a ∈ l.active) h.toNode
    ⟨⟨h.lists.nfa_le, h.lists.is4D⟩, fun _ => id⟩ (fun _ _ _ _ ha => ha)
    fun _ _ _ _ hr ha => ⟨hr.lists ha.1.1 ha.1.2, fun x hx => hr.active ha.1.1 x (ha.2 x hx)⟩

/-- The handshake after an `M_ADR` before the login. -/
theorem BindInv.adr_pledged (h : BindInv config s) (hnull : s.login.state = .null) :
    Pledged config (ADR config env buf s).1.login :=
  (ADR_keeps config env buf (P := fun l => (l.nfa ≤ l.fa.length ∧ ∀ a ∈ l.fa, a.is4D = true) ∧ Pledged config l)
    h.toNode ⟨⟨h.lists.nfa_le, h.lists.is4D⟩, h.pledged hnull⟩ (fun _ _ _ _ ha => ha)
    fun _ _ _ _ hr ha => ⟨hr.lists ha.1.1 ha.1.2, hr.pledged ha.1.1 ha.2⟩).2

/-- The handshake after an `M_ADR` that the login covers. -/
theorem BindInv.adr_covered (h : BindInv config s) (hlog : s.login.state ≠ .null)
    (hc : CoveredAdr config env s.remoteFa s.login buf) :
    Covered config (ADR config env buf s).1.login ∧
    (ADR config env buf s).1.login.expectedPwd = s.login.expectedPwd := by
  have hkeep := ADR_keeps config env buf (P := fun l =>
      (l.nfa ≤ l.fa.length ∧ ∀ a ∈ l.fa, a.is4D = true) ∧ Covered config l ∧
      l.expectedPwd = s.login.expectedPwd ∧ l.state = s.login.state)
    h.toNode ⟨⟨h.lists.nfa_le, h.lists.is4D⟩, h.covered hlog, rfl, rfl⟩ (fun _ _ _ _ ha => ha) ?_
  · exact ⟨hkeep.2.1, hkeep.2.2.1⟩
  · intro w hw a b hr ⟨ha, hcov, he, hs⟩
    have hknown : a.state = .secure → a.expectedPwd ≠ [] ∧ a.expectedPwd ≠ str "-" := by
      rw [hs, he]
      exact h.known
    have hw' : ∀ x ∈ akaOf config w, ∀ p ∈ nodePwd x config,
        p ≠ str "-" → KnowsPwd a p ∧ (p = str "!" → ftnaddressCmpOpt s.remoteFa x = 0) := by
      intro x hx p hp hd
      have hkp := hc hlog w hw x hx p hp hd
      unfold KnowsPwd at hkp ⊢
      rw [hs, he]
      exact hkp
    obtain ⟨h1, h2, h3⟩ := hr.covered ha.1 hknown hw' hcov
    exact ⟨hr.lists ha.1 ha.2, h1, h2.trans he, h3.trans hs⟩

/-- A granted login covers what was pledged. -/
theorem BindInv.granted (h : BindInv config s) (buf : List Byte) {state : Security} {mdFlag : BitVec 32}
    {ext : SecurityExt} {want : Bool} (hs : PwdGranted s s' mdFlag state ext want)
    (hnull : s.login.state = .null)
    (hc : state = .secure ∧ PwdFits s.login (cstr buf) ∨
      state = .nonsecure ∧ s.login.expectedPwd = str "-") : BindInv config s' := by
  have hp := h.pledged hnull
  have hl := hs.login
  have h1 : s'.login.fa = s.login.fa := by rw [hl]; rfl
  have h2 : s'.login.nfa = s.login.nfa := by rw [hl]; rfl
  have h3 : s'.login.state = state := by rw [hl]; rfl
  have h4 : s'.login.expectedPwd = s.login.expectedPwd := by rw [hl]; rfl
  have hact : s'.login.active = s.login.active := by rw [Login.active, h1, h2]; rfl
  refine ⟨hs.toNode.trans h.toNode, ⟨?_, ?_, ?_⟩, fun hn => ?_, fun _ => ?_,
    fun hsec => ?_, fun e he => ?_⟩
  · rw [h1, h2]; exact h.lists.nfa_le
  · rw [h1]; exact h.lists.is4D
  · rw [h1, hact]; exact h.lists.first
  · rw [h3] at hn
    rcases hc with ⟨rfl, -⟩ | ⟨rfl, -⟩ <;> contradiction
  · intro a ha p hpa hd
    rw [hact] at ha
    obtain ⟨hne, hfit⟩ := hp a ha p hpa hd
    rcases hc with ⟨rfl, hfits⟩ | ⟨-, hdash⟩
    · refine ⟨h3, ?_⟩
      rw [h4]
      exact hfit.imp_right fun h => h.resolve_right hfits.1
    · exact absurd hdash hne
  · rw [h3] at hsec
    rw [h4]
    rcases hc with ⟨-, hfits⟩ | ⟨rfl, -⟩
    · exact ⟨hfits.1, hfits.2.1⟩
    · contradiction
  · obtain ⟨q, hq, hadds⟩ := hs.tx
    rw [hq] at he
    rw [hact]
    exact (hadds (fun a ha => h.lists.is4D a (List.mem_of_mem_take ha)) e he).elim (h.q e) id

/-- A message keeps the invariant, or stops the session with the login intact. -/
theorem BindInv.message (h : BindInv config s) (hkey : t = M_PWD → ¬ EmptyKey s.login (cstr buf))
    (hadr : t = M_ADR → CoveredAdr config env s.remoteFa s.login buf) :
    ((handle config env t buf s).2 = true → BindInv config (handle config env t buf s).1) ∧
    Bound config (handle config env t buf s).1 := by
  by_cases ht : t = M_ADR
  · subst ht
    have heq : handle config env M_ADR buf s = ADR config env buf s := rfl
    rw [heq]
    have hf := ADR_frame config env buf s
    have hstate : (ADR config env buf s).1.login.state = s.login.state := by
      obtain ⟨_, _, _, _, _, _, _, _, hl⟩ := hf.login
      rw [hl]
    have hq := hf.q h.toNode
    refine ⟨fun hlive => ?_, fun hlog => ?_⟩
    · obtain ⟨s1, l1, hloop, hnfa, p, nd, nr, hl⟩ := ADR_answer h.toNode hlive
      have hfirst := first_active (l := (ADR config env buf s).1.login) (by rw [hl]; exact hnfa)
      obtain ⟨⟨hle, h4⟩, hact⟩ := h.adr_lists env buf
      refine ⟨hf.toNode.trans h.toNode, ⟨hle, h4, hfirst⟩, fun hn => ?_, fun hlog => ?_, fun hsec => ?_,
        fun e he => ?_⟩
      · exact h.adr_pledged (hstate.symm.trans hn)
      · rw [hstate] at hlog
        exact (h.adr_covered hlog (hadr rfl)).1
      · rw [hstate] at hsec
        rw [(h.adr_covered (by simp [hsec]) (hadr rfl)).2]
        exact h.known hsec
      · rw [hq] at he
        exact hact _ (h.q e he)
    · rw [hstate] at hlog
      obtain ⟨hcov, he⟩ := h.adr_covered hlog (hadr rfl)
      refine ⟨hcov, fun e hmem p hp hd => ?_⟩
      rw [hq] at hmem
      have hk := h.covered hlog e.fa (h.q e hmem) p hp hd
      unfold KnowsPwd at hk ⊢
      rwa [hstate, he]
  · have hinv : BindInv config (handle config env t buf s).1 := by
      have hs := handshake config env t buf s
      generalize (handle config env t buf s).1 = s' at hs
      cases hs with
      | nul =>
        have hk := nulLogin_keeps config s.toNode env.tail buf s.login
        exact h.of_login h.toNode hk.fa hk.nfa hk.state hk.expectedPwd h.q
      | adr hadr' => exact absurd hadr' ht
      | pwd hpwd =>
        cases (PWD_state config env buf h.toNode).1 with
        | same hf hl =>
          obtain ⟨m, hl⟩ := hl
          refine h.of_login (hf.toNode.trans h.toNode) (by rw [hl]) (by rw [hl]) (by rw [hl]) (by rw [hl]) ?_
          rw [hf.q h.toNode]
          exact h.q
        | granted state mdFlag ext want hs hnull hc =>
          refine h.granted buf hs hnull ?_
          rcases hc with ⟨rfl, hc⟩ | ⟨rfl, digest, early, hc⟩
          · refine .inl ⟨rfl, pwdCheck_secure hc fun he hd challenge hch hm => ?_⟩
            exact hkey hpwd ⟨hnull, he, hd, challenge, hch, hm⟩
          · exact .inr ⟨rfl, pwdCheck_nonsecure hc⟩
      | ok => simpa [OK, h.toNode] using h
      | other _ hf => exact h.frame hf
    exact ⟨fun _ => hinv, hinv.bound⟩

/-! ### Runs -/

theorem BindInv.iterate (h : BindInv config s) {i : Input} (hi : NoLateAdr config i s) :
    BindInv config (iterate config i s).1 ∨
      (iterate config i s).2 = false ∧ Bound config (iterate config i s).1 := by
  refine iterate_induction_stop (fun a b hact ha => ha.frame hact.frame) (fun a t buf harr ha => ?_) h
  obtain ⟨hkey, hadr⟩ := hi _ harr
  obtain ⟨h1, h2⟩ := ha.message hkey hadr
  exact ⟨h1, fun _ => h2⟩

theorem bindInv_start (config : BinkdConfig) (env : Env) (disk : Disk) (peerName ipaddr : Str)
    (fa : Option FtnAddr) : BindInv config (start config env disk peerName ipaddr none fa) := by
  obtain ⟨p, link, hstart⟩ := start_answer config env disk peerName ipaddr fa
  rw [hstart]
  refine ⟨rfl, ⟨le_rfl, ?_, ?_⟩, fun _ => ?_, fun h => absurd rfl h, fun h => by contradiction, ?_⟩
  · exact fun a ha => absurd ha List.not_mem_nil
  · exact fun a ha => by simp [initProtocol] at ha
  · exact fun a ha => absurd ha List.not_mem_nil
  · exact fun e he => absurd he List.not_mem_nil

/-- **Addresses are bound to the login**: in a run without the digest of an empty password
and without an `M_ADR` that names an address which the login does not cover, every
state behind the login is bound. -/
theorem aka_binding (config : BinkdConfig) (env : Env) (disk : Disk) (peerName ipaddr : Str)
    (fa : Option FtnAddr) (s : State) (live : Bool)
    (run : Reachable config (NoLateAdr config) (start config env disk peerName ipaddr none fa) s live) :
    Bound config s := by
  have hinv := run.invariant (fun s live => BindInv config s ∨ live = false ∧ Bound config s)
    (.inl (bindInv_start config env disk peerName ipaddr fa)) ?_
  · exact hinv.elim BindInv.bound And.right
  · intro i s h hi
    rcases h with h | ⟨hno, -⟩
    · exact h.iterate hi
    · contradiction

/-- One node without and one with a password. -/
def openAndClosed : BinkdConfig :=
  fidoConfig [{ fa := aka 1 }, { fa := aka 2, pwd := str "bb", pwd_length := bb_length, pwd_nul := bb_nul }]

/-- A session without password that then names the other address. -/
def lateAdr : List Input :=
  Input.message {} M_ADR (str "2:5020/1") ++ Input.message {} M_PWD (str "-") ++
    Input.message {} M_ADR (str "2:5020/2")

/-- After the late `M_ADR` the address with the password is active in a session without. -/
theorem lateAdr_unbound : ∃ s,
    Reachable openAndClosed (fun _ _ => True) (start openAndClosed {} ∅ [] [] none none) s true ∧
    ¬ Bound openAndClosed s :=
  ⟨after (iterate openAndClosed) lateAdr (start openAndClosed {} ∅ [] [] none none),
    Run.of_inputs (by decide +kernel), by decide +kernel⟩

/-- Both addresses are named before the login, which then needs the password. -/
theorem aka_binding_both : Bound openAndClosed
    (after (iterate openAndClosed)
      (Input.message {} M_ADR (str "2:5020/1 2:5020/2") ++ Input.message {} M_PWD (str "bb"))
      (start openAndClosed {} ∅ [] [] none none)) :=
  aka_binding openAndClosed {} ∅ [] [] none _ true (Run.of_inputs (by decide +kernel))

end Binkd
