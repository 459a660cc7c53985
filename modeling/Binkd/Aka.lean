import Binkd.Round

/-!
# The addresses of a remote that calls

`ADR` goes through the addresses one by one.  `PwdRound` is what the password of an
address does to the password that is expected: `-` is neutral, `!` goes with any
other, and a second password that differs empties it for good.  `AdrRound` is a
whole round of the loop for a session that answers, `adrLoop_rounds` a whole loop.
-/

namespace Binkd

open Lib

/-- The address that a word of an `M_ADR` names. -/
def akaOf (config : BinkdConfig) (w : Str) : Option FtnAddr :=
  ((parseFtnaddress w config.pDomains).filter (·.is4D)).map fun fa =>
    if fa.domain = [] then { fa with domain := getMatchedDomain fa.z config.pAddr config.pDomains } else fa

/-- The inbound password of a word. -/
def akaPwd (config : BinkdConfig) (w : Str) : Option Str := (akaOf config w).bind (nodePwd · config)

theorem akaOf_is4D {config : BinkdConfig} {w : Str} {a : FtnAddr} (h : akaOf config w = some a) :
    a.is4D = true := by
  obtain ⟨fa, hfa, rfl⟩ := Option.map_eq_some_iff.mp h
  have h4 := (Option.filter_eq_some_iff.mp hfa).2
  split
  · exact h4
  · exact h4

/-! ### One password -/

/-- The expected password and the MD5 flag before and after the password of a node,
and whether its address goes on to be added.  An address with `!` must be the one
that is called (`mine`). -/
inductive PwdRound (mine : Prop) (n : FtnNode) (e : Str) (m : BitVec 32) : Str → BitVec 32 → Bool → Prop
  | neutral (h : n.pwd = str "-") (added : Bool) : PwdRound mine n e m e m added
  | emptied (he : e = []) : PwdRound mine n e m e m true
  | refused (h : n.pwd ≠ str "-") (he : e ≠ [])
      (hno : n.pwd = str "!" ∧ ¬ mine ∨ n.pwd ≠ str "!" ∧ n.pwd ≠ e) : PwdRound mine n e m [] m false
  | first (h : n.pwd ≠ str "-") (he : e = str "-" ∨ e = str "!") :
      PwdRound mine n e m n.pwd (m ||| n.mdFlag.val) true
  | again (h : n.pwd ≠ str "-") (hne : e ≠ []) (he : e ≠ str "-") (hp : e = n.pwd ∨ n.pwd = str "!") :
      PwdRound mine n e m e (m ||| n.mdFlag.val) true

/-- Is the address accepted? -/
def PwdStep.accepted : PwdStep → Bool
  | .accept _ => true
  | .drop _ => false

theorem adrPwd_round (remoteFa : Option FtnAddr) (fa : FtnAddr) (n : FtnNode) (l : Login) :
    ∃ e m, (adrPwd none remoteFa fa n l).login = { l with expectedPwd := e, mdFlag := m } ∧
      PwdRound (ftnaddressCmpOpt remoteFa fa = 0) n l.expectedPwd l.mdFlag e m
        (adrPwd none remoteFa fa n l).accepted := by
  unfold adrPwd
  by_cases he : l.expectedPwd = []
  · rw [if_pos he]
    exact ⟨_, _, rfl, .emptied he⟩
  · rw [if_neg he]
    simp only [Option.isSome_none, Bool.false_eq_true, if_false]
    by_cases hdash : n.pwd = str "-"
    · rw [if_pos hdash]
      exact ⟨_, _, rfl, .neutral hdash _⟩
    · rw [if_neg hdash, List.take_of_length_le n.pwd_length]
      split
      · next hno => exact ⟨_, _, rfl, .refused hdash he (.inl hno)⟩
      · split
        · next hfirst => exact ⟨_, _, rfl, .first hdash hfirst⟩
        · next hfirst =>
          split
          · next hagain => exact ⟨_, _, rfl, .again hdash he (not_or.mp hfirst).1 hagain⟩
          · next hagain =>
            obtain ⟨h1, h2⟩ := not_or.mp hagain
            exact ⟨_, _, rfl, .refused hdash he (.inr ⟨h2, fun h => h1 h.symm⟩)⟩

/-! ### One round -/

/-- How the lists of addresses grow in a round. -/
inductive AkaAdded (a : FtnAddr) (fa : List FtnAddr) (nfa : Nat) : List FtnAddr → Nat → Prop
  | busy : AkaAdded a fa nfa (fa ++ [a]) nfa
  | active : AkaAdded a fa nfa (fa.take nfa ++ a :: fa.drop nfa) (nfa + 1)

/-- The lists stay in order in a round, but for the first place. -/
theorem AkaAdded.lists {a : FtnAddr} {l : Login} {fa : List FtnAddr} {nfa : Nat}
    (h : AkaAdded a l.fa l.nfa fa nfa) (hle : l.nfa ≤ l.fa.length) :
    nfa ≤ fa.length ∧ (∀ x ∈ fa, x ∈ l.fa ∨ x = a) ∧
      (fa.take nfa = l.active ∨ fa.take nfa = l.active ++ [a]) := by
  cases h with
  | busy =>
    refine ⟨by simp; omega, fun x hx => by simpa using hx, .inl ?_⟩
    exact List.take_append_of_le_length hle
  | active =>
    have hlen : (l.fa.take l.nfa).length = l.nfa := List.length_take_of_le hle
    refine ⟨by simp; omega, fun x hx => ?_, .inr ?_⟩
    · rcases List.mem_append.mp hx with hx | hx
      · exact .inl (List.mem_of_mem_take hx)
      · rcases List.mem_cons.mp hx with rfl | hx
        · exact .inr rfl
        · exact .inl (List.mem_of_mem_drop hx)
    · rw [List.take_append, hlen, List.take_of_length_le (by omega), Nat.add_sub_cancel_left]
      rfl

/-- A round of the loop of `ADR` on the answering side. -/
structure AdrRound (config : BinkdConfig) (env : Env) (remoteFa : Option FtnAddr) (w : Str) (l l' : Login) :
    Prop where
  round : ∃ a e m x fa nfa added, akaOf config w = some a ∧
    l' = { l with expectedPwd := e, mdFlag := m, listedFlag := x, fa := fa, nfa := nfa } ∧
    (fa = l.fa ∧ nfa = l.nfa ∨ added = true ∧ AkaAdded a l.fa l.nfa fa nfa) ∧
    (getNodeInfo env.now a config = none → e = l.expectedPwd ∧ m = l.mdFlag) ∧
    ∀ n ∈ getNodeInfo env.now a config,
      PwdRound (ftnaddressCmpOpt remoteFa a = 0) n l.expectedPwd l.mdFlag e m added

variable {config : BinkdConfig} {env : Env} {mine : Prop}

theorem adrBusy_added (config : BinkdConfig) (env : Env) (fa : FtnAddr) (pn : Option FtnNode) (s : State)
    (l : AdrLocals) : ∃ fas nfa,
      (adrBusy config env fa pn s l).state.login = { s.login with fa := fas, nfa := nfa } ∧
      (fas = s.login.fa ∧ nfa = s.login.nfa ∨ AkaAdded fa s.login.fa s.login.nfa fas nfa) := by
  unfold adrBusy
  split
  · exact ⟨_, _, rfl, .inr .active⟩
  · split
    · exact ⟨_, _, rfl, .inl ⟨rfl, rfl⟩⟩
    · exact ⟨_, _, rfl, .inr .busy⟩

theorem adrLogin_round {w : Str} {fa : FtnAddr} {s : State} {l : AdrLocals}
    (hto : s.toNode = none) (hw : akaOf config w = some fa) : AdrRound config env s.remoteFa w s.login
      (adrLogin config env fa (getNodeInfo env.now fa config) s l).state.login := by
  unfold adrLogin
  split
  · next hn =>
    obtain ⟨fas, nfa, hl, hadd⟩ := adrBusy_added config env fa none s l
    exact ⟨fa, s.login.expectedPwd, s.login.mdFlag, s.login.listedFlag, fas, nfa, true, hw, hl,
      hadd.imp_right fun h => ⟨rfl, h⟩, fun _ => ⟨rfl, rfl⟩, by simp [hn]⟩
  · next n hn =>
    dsimp only
    obtain ⟨e, m, hl, hround⟩ := adrPwd_round s.remoteFa fa n
      { s.login with listedFlag := s.login.listedFlag ||| n.listed }
    rw [← hto] at hl hround
    have hnode : ∀ {added : Bool},
        PwdRound (ftnaddressCmpOpt s.remoteFa fa = 0) n s.login.expectedPwd s.login.mdFlag e m added →
        ∀ n' ∈ getNodeInfo env.now fa config,
          PwdRound (ftnaddressCmpOpt s.remoteFa fa = 0) n' s.login.expectedPwd s.login.mdFlag e m added := by
      intro added hr n' hn'
      rw [hn] at hn'
      obtain rfl := Option.some.inj hn'
      exact hr
    split
    · next login hdrop =>
      rw [hdrop] at hl hround
      exact ⟨fa, e, m, _, s.login.fa, s.login.nfa, false, hw, hl, .inl ⟨rfl, rfl⟩, by simp [hn],
        hnode hround⟩
    · next login hacc =>
      rw [hacc] at hl hround
      obtain ⟨fas, nfa, hl', hadd⟩ := adrBusy_added config env fa (some n) { s with login := login } l
      simp only [PwdStep.login] at hl
      rw [hl] at hl' hadd
      rw [hl]
      exact ⟨fa, e, m, _, fas, nfa, true, hw, hl', hadd.imp_right fun h => ⟨rfl, h⟩, by simp [hn],
        hnode hround⟩

/-- Does the loop go on? -/
def AdrStep.goes : AdrStep → Bool
  | .stop _ => false
  | .next _ _ => true

theorem adrStep_round (config : BinkdConfig) (env : Env) (w : Str) {s : State} (l : AdrLocals) (hto : s.toNode = none) :
    AdrRound config env s.remoteFa w s.login (adrStep config env w s l).state.login ∨
    (adrStep config env w s l).goes = false ∧ (adrStep config env w s l).state.login = s.login := by
  unfold adrStep
  split
  · exact .inr ⟨rfl, rfl⟩
  · next fa hfa =>
    dsimp only
    have hw : akaOf config w = some (if fa.domain = [] then
        { fa with domain := getMatchedDomain fa.z config.pAddr config.pDomains } else fa) := by
      simp [akaOf, hfa]
    generalize (if fa.domain = [] then
        { fa with domain := getMatchedDomain fa.z config.pAddr config.pDomains } else fa) = a at hw
    have hlogin : ∀ l, AdrRound config env s.remoteFa w s.login
        (adrLogin config env a (getNodeInfo env.now a config) s l).state.login :=
      fun l => adrLogin_round hto hw
    split
    · next hn => exact .inl (hn ▸ hlogin l)
    · next n hn =>
      split
      · split
        · exact .inl (hlogin _)
        · split
          · split
            · exact .inr ⟨rfl, rfl⟩
            · next hstop =>
              have hdash : n.pwd = str "-" := by
                by_contra hne
                exact hstop ⟨hne, by simp [hto]⟩
              refine .inl ⟨a, s.login.expectedPwd, s.login.mdFlag, s.login.listedFlag, s.login.fa,
                s.login.nfa, false, hw, rfl, .inl ⟨rfl, rfl⟩, by simp [hn], fun n' hn' => ?_⟩
              rw [hn] at hn'
              obtain rfl := Option.some.inj hn'
              exact .neutral hdash false
          · exact .inl (hlogin _)
      · exact .inl (hlogin _)

/-! ### The loop -/

/-- A whole loop: what every round keeps holds at the end. -/
theorem adrLoop_rounds {P : List Str → Login → Prop} {ws : List Str} {s s' : State} {l l' : AdrLocals}
    (hto : s.toNode = none) (h : adrLoop config env ws s l = .next s' l') (h0 : P [] s.login)
    (step : ∀ done w a b, AdrRound config env s.remoteFa w a b → P done a → P (done ++ [w]) b) :
    P ws s'.login := by
  have key : ∀ (ws done : List Str) (s1 : State) (l : AdrLocals), s1.toNode = none →
      s1.remoteFa = s.remoteFa → adrLoop config env ws s1 l = .next s' l' → P done s1.login →
      P (done ++ ws) s'.login := by
    intro ws
    induction ws with
    | nil =>
      intro done s l _ _ h hP
      simp only [adrLoop, AdrStep.next.injEq] at h
      rw [List.append_nil, ← h.1]
      exact hP
    | cons w ws ih =>
      intro done s1 l hto hremote h hP
      have hframe := adrStep_frame config env w s1 l
      rw [adrLoop] at h
      split at h
      · contradiction
      · next s2 l2 hstep =>
        rw [hstep] at hframe
        rw [List.append_cons]
        have hround : AdrRound config env s.remoteFa w s1.login s2.login := by
          have hr := adrStep_round config env w l hto
          rw [hstep, hremote] at hr
          exact hr.resolve_right fun hno => by simp [AdrStep.goes] at hno
        exact ih _ s2 l2 (hframe.toNode.trans hto) (hframe.remoteFa.trans hremote) h
          (step done w _ _ hround hP)
  exact key ws [] s l hto rfl h h0

/-- A loop that may stop: what every round with one of its words keeps holds at the end. -/
theorem adrLoop_keeps {P : Login → Prop} {ws : List Str} {s : State} (l : AdrLocals)
    (hto : s.toNode = none) (h0 : P s.login)
    (step : ∀ w ∈ ws, ∀ a b, AdrRound config env s.remoteFa w a b → P a → P b) :
    P (adrLoop config env ws s l).state.login := by
  induction ws generalizing s l with
  | nil => exact h0
  | cons w ws ih =>
    have hframe := adrStep_frame config env w s l
    have hP : P (adrStep config env w s l).state.login := by
      rcases adrStep_round config env w l hto with hround | ⟨-, heq⟩
      · exact step w List.mem_cons_self _ _ hround h0
      · rwa [heq]
    rw [adrLoop]
    split
    · next s1 hs =>
      rw [hs] at hP
      exact hP
    · next s1 l1 hs =>
      rw [hs] at hP hframe
      refine ih l1 (hframe.toNode.trans hto) hP fun w hw a b hr => ?_
      have hremote : s1.remoteFa = s.remoteFa := hframe.remoteFa
      exact step w (List.mem_cons_of_mem _ hw) a b (hremote ▸ hr)

/-- What the loop keeps, `ADR` keeps, if modes and our addresses have no part in it. -/
theorem ADR_keeps (config : BinkdConfig) (env : Env) (buf : List Byte) {P : Login → Prop} {s : State}
    (hto : s.toNode = none)
    (h0 : P s.login)
    (modes : ∀ a p nd nr, P a → P { a with
      pAddr := p, ndFlag := { a.ndFlag with they := nd }, nrFlag := { a.nrFlag with want := nr } })
    (step : ∀ w ∈ adrWords config env buf, ∀ a b, AdrRound config env s.remoteFa w a b → P a → P b) :
    P (ADR config env buf s).1.login := by
  have hexp : adrExpect s = s := by simp [adrExpect, hto]
  have hloop := adrLoop_keeps {} hto h0 step
  have hframe := adrLoop_frame config env (adrWords config env buf) s {}
  unfold ADR
  rw [hexp]
  split
  · exact h0
  · split
    · next s1 hs =>
      rw [hs] at hloop
      exact hloop
    · next s1 l1 hs =>
      rw [hs] at hloop hframe
      have hto1 : s1.toNode = none := hframe.toNode.trans hto
      unfold adrEnd
      split
      · exact hloop
      · split
        · exact hloop
        · split
          · exact hloop
          · rw [hto1]
            dsimp only [adrAnswer]
            split
            · exact modes s1.login _ _ _ hloop
            · exact modes s1.login s1.login.pAddr _ _ hloop

/-- On the answering side `ADR` is the loop, and then modes that the passwords have no part in. -/
theorem ADR_answer {buf : List Byte} {s : State} (hto : s.toNode = none)
    (hlive : (ADR config env buf s).2 = true) : ∃ s1 l1,
      adrLoop config env (adrWords config env buf) s {} = .next s1 l1 ∧ s1.login.nfa ≠ 0 ∧
      ∃ p nd nr, (ADR config env buf s).1.login = { s1.login with
        pAddr := p, ndFlag := { s1.login.ndFlag with they := nd }
        nrFlag := { s1.login.nrFlag with want := nr } } := by
  have hexp : adrExpect s = s := by simp [adrExpect, hto]
  have hframe := adrLoop_frame config env (adrWords config env buf) s {}
  unfold ADR at hlive ⊢
  rw [hexp] at hlive ⊢
  split
  · next hws => simp [hws] at hlive
  · split
    · next hws s1 hs => simp [hs] at hlive
    · next hws s1 l1 hs =>
      simp only [hs] at hlive
      rw [hs] at hframe
      have hto1 : s1.toNode = none := hframe.toNode.trans hto
      refine ⟨s1, l1, hs, ?_⟩
      unfold adrEnd at hlive ⊢
      split at hlive
      · contradiction
      · next hnfa =>
        rw [if_neg hnfa]
        refine ⟨hnfa, ?_⟩
        split at hlive
        · contradiction
        · next hmain =>
          rw [if_neg hmain]
          split at hlive
          · contradiction
          · next hip =>
            rw [if_neg hip, hto1]
            dsimp only [adrAnswer]
            split
            · exact ⟨_, _, _, rfl⟩
            · exact ⟨_, _, _, rfl⟩

/-! ### The expected password -/

/-- Two addresses of the `M_ADR` have different passwords. -/
def Conflict (config : BinkdConfig) (env : Env) (buf : List Byte) : Prop :=
  ∃ w ∈ adrWords config env buf, ∃ w' ∈ adrWords config env buf, ∃ p ∈ akaPwd config w,
    ∃ p' ∈ akaPwd config w', p ≠ p' ∧ (p ≠ str "-" ∧ p ≠ str "!") ∧ (p' ≠ str "-" ∧ p' ≠ str "!")

theorem PwdRound.nil {n : FtnNode} {m m' : BitVec 32} {e' : Str} {added : Bool}
    (h : PwdRound mine n [] m e' m' added) : e' = [] := by
  cases h with
  | neutral => rfl
  | emptied => rfl
  | refused _ he _ => exact absurd rfl he
  | first _ he => exact absurd he (by decide)
  | again => rfl

/-- A password of a node is the expected one after its round, or none is any more. -/
theorem PwdRound.own {n : FtnNode} {e e' : Str} {m m' : BitVec 32} {added : Bool}
    (h : PwdRound mine n e m e' m' added) (hdash : n.pwd ≠ str "-") (hbang : n.pwd ≠ str "!") :
    e' = n.pwd ∨ e' = [] := by
  cases h with
  | neutral h => exact absurd h hdash
  | emptied he => exact .inr he
  | refused => exact .inr rfl
  | first => exact .inl rfl
  | again _ _ _ hp => exact .inl (hp.resolve_right hbang)

/-- A password that is expected stays so, or none is any more. -/
theorem PwdRound.keeps {n : FtnNode} {e e' : Str} {m m' : BitVec 32} {added : Bool}
    (h : PwdRound mine n e m e' m' added) (hdash : e ≠ str "-") (hbang : e ≠ str "!") :
    e' = e ∨ e' = [] := by
  cases h with
  | neutral => exact .inl rfl
  | emptied => exact .inl rfl
  | refused => exact .inr rfl
  | first _ he => exact absurd he (not_or.mpr ⟨hdash, hbang⟩)
  | again => exact .inl rfl

theorem AdrRound.expected_nil {remoteFa : Option FtnAddr} {w : Str} {l l' : Login}
    (h : AdrRound config env remoteFa w l l')
    (he : l.expectedPwd = []) : l'.expectedPwd = [] := by
  obtain ⟨a, e, m, x, fa, nfa, added, -, rfl, -, hnone, hsome⟩ := h.round
  cases hn : getNodeInfo env.now a config with
  | none => exact (hnone hn).1.trans he
  | some n =>
    have hround := hsome n hn
    rw [he] at hround
    exact hround.nil

theorem ADR_expected_nil {buf : List Byte} {s : State} (hto : s.toNode = none)
    (hlive : (ADR config env buf s).2 = true) (he : s.login.expectedPwd = []) :
    (ADR config env buf s).1.login.expectedPwd = [] := by
  obtain ⟨s1, l1, hloop, -, p, nd, nr, hl⟩ := ADR_answer hto hlive
  rw [hl]
  exact adrLoop_rounds (P := fun _ l => l.expectedPwd = []) hto hloop he
    fun _ _ _ _ hround => hround.expected_nil

/-- **A conflict of passwords leaves no password that could be known.** -/
theorem ADR_conflict {buf : List Byte} {s : State} (hto : s.toNode = none)
    (hlive : (ADR config env buf s).2 = true) (hc : Conflict config env buf) :
    (ADR config env buf s).1.login.expectedPwd = [] := by
  obtain ⟨s1, l1, hloop, -, p, nd, nr, hl⟩ := ADR_answer hto hlive
  have hseen := adrLoop_rounds (P := fun done l => ∀ w ∈ done, ∀ p ∈ akaPwd config w,
      p ≠ str "-" → p ≠ str "!" → l.expectedPwd = p ∨ l.expectedPwd = []) hto hloop (by simp) ?_
  · obtain ⟨w, hw, w', hw', p, hp, p', hp', hne, ⟨h1, h2⟩, h1', h2'⟩ := hc
    rw [hl]
    rcases hseen w hw p hp h1 h2 with he | he
    · rcases hseen w' hw' p' hp' h1' h2' with he' | he'
      · exact absurd (he.symm.trans he') hne
      · exact he'
    · exact he
  · intro done w l l' hround hP w0 hw0 p hp hdash hbang
    obtain ⟨a, e, m, x, fa, nfa, added, ha, rfl, -, hnone, hsome⟩ := hround.round
    rcases List.mem_append.mp hw0 with hold | hnew
    · -- an earlier word: its password stays, or is emptied now
      have hkeep : ∀ e0, e0 = p ∨ e0 = [] → l.expectedPwd = e0 → e = p ∨ e = [] := by
        rintro e0 he0 rfl
        cases hn : getNodeInfo env.now a config with
        | none => rwa [(hnone hn).1]
        | some n =>
          have hr := hsome n hn
          rcases he0 with he0 | he0
          · rw [he0] at hr
            exact hr.keeps hdash hbang
          · rw [he0] at hr
            exact .inr hr.nil
      exact hkeep _ (hP w0 hold p hp hdash hbang) rfl
    · obtain rfl := List.mem_singleton.mp hnew
      simp only [akaPwd, ha, Option.bind_some, Option.mem_def] at hp
      rw [← getNodeInfo_pwd env.now] at hp
      obtain ⟨n, hn, rfl⟩ := Option.map_eq_some_iff.mp hp
      exact (hsome n hn).own hdash hbang

end Binkd
