import Binkd.Talk

/-!
# What the two sides of a handshake agree on

The caller keeps its own flags and learns those of the other side (`CallerSide`); so does the answering
side (`AnswererSide`) until the password comes and it settles the modes (`LoggedIn`), which its options
and the `M_OK` carry back (`Settled`).  `TalkInv` says how far the two are, in any order of their steps.

`complete_login` turns the encryption on when `MD_flag` is not 0.  A password that was taken as it is
leaves there what the nodes of the remote have set, and `-nomd` sets -1: then the answering side
encrypts and the caller, whose `MD_flag` is 0, does not (`plainPair_apart`).  This is the only way in
which the two can differ (`handshake_agrees`).
-/

namespace Binkd

open Lib

variable {config ca cb : BinkdConfig} {env : Env} {s s' : State} {n : FtnNode} {lc : Login} {info : List Item}

/-! ### The calling side -/

/-- The caller in the handshake: its options stand behind lines that say nothing, and behind them come
such lines and passwords. -/
structure CallerSide (config : BinkdConfig) (n : FtnNode) (lc : Login) (info : List Item) (s : State) : Prop where
  toNode : s.toNode = some n
  said : ∃ later, s.link.log = later ++ .msg M_NUL (str "OPT" ++ callerOpt lc) :: info ∧
    ∀ i ∈ later, Hushed i ∨ ∃ pwd, i = .msg M_PWD pwd
  null : s.login.state = .null
  own : Own (!config.noCrypt) false n.ndFlag s.login
  expected : (∃ pwd, .msg M_PWD pwd ∈ s.link.log) → n.outPwdText.take maxPwdLen ≠ str "-" →
    n.outPwdText.take maxPwdLen ≠ str "!" → s.login.expectedPwd ≠ str "!"

theorem CallerSide.nul (h : CallerSide config n lc info s) (env : Env) (text : Str) :
    CallerSide config n lc info (NUL config env text s).1 := by
  have hk := nulLogin_keeps config s.toNode env.tail text s.login
  refine ⟨h.toNode, h.said, hk.state.trans h.null,
    ⟨hk.weCrypt.trans h.own.we, hk.yesCrypt.trans h.own.yes,
    hk.theyNd.trans h.own.they⟩, fun hpwd hdash hbang => ?_⟩
  have he : (NUL config env text s).1.login.expectedPwd = s.login.expectedPwd := hk.expectedPwd
  rw [he]
  exact h.expected hpwd hdash hbang

theorem CallerSide.adr (h : CallerSide config n lc info s) {text : Str} (hlive : (ADR config env text s).2 = true) :
    CallerSide config n lc info (ADR config env text s).1 ∧
    (ADR config env text s).1.login.heard = s.login.heard := by
  obtain ⟨s1, pwd, ⟨items, hitems, hlog1⟩, hlog, hto, ⟨e, fa, nfa, m, l, hlogin⟩, hexp⟩ :=
    ADR_caller h.toNode hlive
  obtain ⟨later, hlater, hkinds⟩ := h.said
  refine ⟨⟨hto, ⟨.msg M_PWD pwd :: (items ++ later), ?_, fun i hi => ?_⟩, ?_, ⟨?_, ?_, ?_⟩, fun _ => hexp⟩, ?_⟩
  · rw [hlog, hlog1, hlater]
    simp
  · rcases List.mem_cons.mp hi with rfl | hi
    · exact .inr ⟨pwd, rfl⟩
    · exact (List.mem_append.mp hi).elim (fun hi => .inl (hitems i hi)) (hkinds i)
  · rw [hlogin]
    exact h.null
  · rw [hlogin]
    exact h.own.we
  · rw [hlogin]
    exact h.own.yes
  · rw [hlogin]
    exact h.own.they
  · rw [hlogin]
    rfl

theorem CallerSide.act (h : CallerSide config n lc info s) (hact : Act config env s s')
    (hlog : s'.link.log = s.link.log) :
    CallerSide config n lc info s' ∧ s'.login.heard = s.login.heard := by
  obtain ⟨d, t, hl⟩ := hact.frame.login
  refine ⟨⟨hact.frame.toNode.trans h.toNode, by rw [hlog]; exact h.said, by rw [hl]; exact h.null, ⟨?_, ?_, ?_⟩,
    fun hpwd hdash hbang => ?_⟩, by rw [hl]; rfl⟩
  · rw [hl]
    exact h.own.we
  · rw [hl]
    exact h.own.yes
  · rw [hl]
    exact h.own.they
  · rw [hlog] at hpwd
    rw [hl]
    exact h.expected hpwd hdash hbang

/-! ### The answering side -/

/-- The answering side in the handshake, which has said nothing of the modes. -/
structure AnswererSide (config : BinkdConfig) (s : State) : Prop where
  toNode : s.toNode = none
  null : s.login.state = .null
  we : s.login.cryptFlag.we = !config.noCrypt
  yes : s.login.cryptFlag.yes = false
  hushed : ∀ i ∈ s.link.log, Hushed i

theorem Silently.hushed (h : Silently s s') (hs : ∀ i ∈ s.link.log, Hushed i) :
    ∀ i ∈ s'.link.log, Hushed i := by
  obtain ⟨items, hitems, hlog⟩ := h
  rw [hlog]
  exact fun i hi => (List.mem_append.mp hi).elim (hitems i) (hs i)

theorem AnswererSide.nul (h : AnswererSide config s) (env : Env) (text : Str) :
    AnswererSide config (NUL config env text s).1 := by
  have hk := nulLogin_keeps config s.toNode env.tail text s.login
  exact ⟨h.toNode, hk.state.trans h.null, hk.weCrypt.trans h.we, hk.yesCrypt.trans h.yes, h.hushed⟩

theorem AnswererSide.adr (h : AnswererSide config s) {text : Str} (hlive : (ADR config env text s).2 = true) :
    AnswererSide config (ADR config env text s).1 ∧
    (ADR config env text s).1.login.heard = s.login.heard := by
  have hframe := ADR_frame config env text s
  obtain ⟨_, _, _, _, _, _, _, _, hl⟩ := hframe.login
  refine ⟨⟨hframe.toNode.trans h.toNode, by rw [hl]; exact h.null, by rw [hl]; exact h.we, by rw [hl]; exact h.yes,
    (ADR_answerer h.toNode hlive).hushed h.hushed⟩, by rw [hl]; rfl⟩

theorem AnswererSide.act (h : AnswererSide config s) (hact : Act config env s s') (hlog : s'.link.log = s.link.log) :
    AnswererSide config s' ∧ s'.login.heard = s.login.heard := by
  obtain ⟨d, t, hl⟩ := hact.frame.login
  exact ⟨⟨hact.frame.toNode.trans h.toNode, by rw [hl]; exact h.null, by rw [hl]; exact h.we, by rw [hl]; exact h.yes,
    by rw [hlog]; exact h.hushed⟩, by rw [hl]; rfl⟩

/-- The answering side has logged in, with the modes of `g`: its options and its result stand last. -/
structure LoggedIn (x : Said) (we : Bool) (g : Login) (before : List Item) (s : State) : Prop where
  login : s.login = completed g
  state : g.state ≠ .null
  log : s.link.log = .msg M_OK ((if g.state = .secure then str "secure" else str "non-secure") ++ []) ::
    .msg M_NUL (str "OPT" ++ answerOpt g) :: before
  nd : g.ndFlag.we = x.nd
  both : g.cryptFlag = .both ↔ x.crypt = true ∧ we = true ∧ g.state = .secure ∧ g.mdFlag ≠ 0 ∧
    g.expectedPwd ≠ str "!"
  notOn : g.cryptFlag ≠ .on
  keys : loginSetsKeys g = true → s.link.keysOut = (loginKeys none g.expectedPwd).1 ∧
    s.link.keysIn = (loginKeys none g.expectedPwd).2
  pwd : g.state = .secure → g.expectedPwd ≠ str "-"

theorem LoggedIn.secured {x : Said} {we : Bool} {g : Login} {before : List Item} (h : LoggedIn x we g before s) :
    s.login.state ≠ .null := by
  rw [h.login]
  exact h.state

theorem pwdCheck_secure_expected {l : Login} {pwd : Str} {m : BitVec 32} (h : pwdCheck l pwd = .secure m) :
    l.expectedPwd ≠ str "-" := by
  intro he
  unfold pwdCheck at h
  simp only [he, true_and, if_true] at h
  split_ifs at h

/-- The encryption that the modes leave open. -/
theorem granted_both {l : Login} {we : Bool} (hyes : l.cryptFlag.yes = false) (hwe : l.cryptFlag.we = we)
    (m : BitVec 32) (st : Security) (ext : SecurityExt) (want : Bool) :
    (granted l m st ext want).cryptFlag = .both ↔ l.heard.crypt = true ∧ we = true ∧
    st = .secure ∧ m ≠ 0 ∧
      l.expectedPwd ≠ str "!" := by
  have hboth : l.cryptFlag = .both ↔ l.heard.crypt = true ∧ we = true := by
    rw [← hwe, Login.heard]
    dsimp only
    generalize l.cryptFlag = c at hyes
    obtain ⟨w, t, y⟩ := c
    obtain rfl : y = false := hyes
    cases w <;> cases t <;> decide
  have hno : CryptFlag.no ≠ .both := by decide
  simp only [granted, pwdModes]
  split_ifs with h1 h2 h3
  · exact iff_of_false hno fun h => h1 h.2.2.1
  · exact iff_of_false hno fun h => h.2.2.2.1 h2.2
  · exact iff_of_false hno fun h => h.2.2.2.2 h3.2
  · rw [hboth]
    refine ⟨fun h => ⟨h.1, h.2, not_not.mp h1, fun hm => h2 ⟨hboth.mpr h, hm⟩, fun he => h3 ⟨hboth.mpr h, he⟩⟩,
      fun h => ⟨h.1, h.2.1⟩⟩

theorem AnswererSide.pwd (h : AnswererSide config s) {text : Str} (hlive : (PWD config env text s).2 = true) :
    ∃ g before, (∀ i ∈ before, Hushed i) ∧ s.link.log <:+ before ∧
      LoggedIn s.login.heard (!config.noCrypt) g before (PWD config env text s).1 := by
  have hcrypt : s.login.cryptFlag ≠ .on := by
    intro h'
    have hyes := h.yes
    rw [h'] at hyes
    exact absurd hyes (by decide)
  obtain ⟨opt, ok, s1, hsilent, hlog⟩ := PWD_log h.toNode hlive
  have hgranted : ∀ {m : BitVec 32} {st : Security} {ext : SecurityExt} {want : Bool} {s' : State},
      s'.link.log = .msg M_OK ok :: .msg M_NUL opt :: s1.link.log → st ≠ .null →
      (st = .secure → s.login.expectedPwd ≠ str "-") →
      PwdGranted s s' m st ext want → ∃ g before, (∀ i ∈ before, Hushed i) ∧ s.link.log <:+ before ∧
        LoggedIn s.login.heard (!config.noCrypt) g before s' := by
    intro m st ext want s' hlog hst hpwd hg
    obtain ⟨pre, -, hlink⟩ := hg.link hcrypt
    refine ⟨granted s.login m st ext want, s1.link.log, hsilent.hushed h.hushed, ?_,
      hg.login, hst, ?_, ?_, ?_,
      granted_cryptFlag hcrypt m st ext want, ?_, hpwd⟩
    · obtain ⟨items, -, hitems⟩ := hsilent
      exact ⟨items, hitems.symm⟩
    · have hlog' : s'.link.log = (grantItems (granted s.login m st ext want)).reverse ++ (pre.reverse ++ s.link.log) := by
        rw [hlink]
        simp [Link.completed, Link.queueAll_log]
      rw [hlog] at hlog' ⊢
      simp only [grantItems, List.reverse_cons, List.reverse_nil, List.nil_append, List.cons_append,
        List.cons.injEq] at hlog'
      rw [hlog'.1, hlog'.2.1]
    · rfl
    · exact granted_both h.yes h.we m st ext want
    · intro hkeys
      rw [hlink, Link.completed, if_pos hkeys, h.toNode]
      exact ⟨rfl, rfl⟩
  have hout := PWD_outcome config env text s h.toNode
  generalize PWD config env text s = r at hout hlive hlog
  cases hout with
  | double => contradiction
  | refused => contradiction
  | nonsecure m digest early ext want s' hnull hc hs => exact hgranted hlog (by decide) (fun h => absurd h (by decide)) hs
  | secure m want s' hnull hc hs =>
    exact hgranted hlog (by decide) (fun _ => pwdCheck_secure_expected hc) hs

/-! ### The end of the handshake -/

theorem loginCrypt_on_iff {l : Login} (h : l.cryptFlag ≠ .on) : loginCrypt l = .on ↔
    l.state = .secure ∧ l.cryptFlag = .both ∧ l.mdFlag ≠ 0 ∧ l.expectedPwd ≠ str "!" := by
  have hno : CryptFlag.no ≠ .on := by decide
  unfold loginCrypt
  split_ifs with h1 h2 h3 h4
  · exact iff_of_false hno fun h => h1 h.1
  · exact iff_of_false hno fun h => h.2.2.1 h2.2
  · exact iff_of_false hno fun h => h.2.2.2 h3.2
  · exact iff_of_true rfl ⟨not_not.mp h1, h4, fun hm => h2 ⟨h4, hm⟩, fun he => h3 ⟨h4, he⟩⟩
  · exact iff_of_false hno fun h => h4 h.2.1

theorem loginSetsKeys_iff (l : Login) : loginSetsKeys l = true ↔
    l.state = .secure ∧ l.cryptFlag = .both ∧ l.mdFlag ≠ 0 ∧ l.expectedPwd ≠ str "!" := by
  simp [loginSetsKeys]

theorem okLogin_facts (n : FtnNode) (tail buf : List Byte) (l : Login) :
    (okLogin n tail buf l).mdFlag = l.mdFlag ∧ (okLogin n tail buf l).expectedPwd = l.expectedPwd ∧
    (okLogin n tail buf l).state = (if n.outPwdText ≠ str "-" then .secure else .nonsecure) ∧
    (okLogin n tail buf l).cryptFlag =
      (if n.outPwdText ≠ str "-" ∧ okNonsecure tail buf = true then .no else l.cryptFlag) ∧
    (okLogin n tail buf l).ndFlag =
      (if l.ndFlag = { we := true } ∨ l.ndFlag = { they := true } then {} else l.ndFlag) := by
  unfold okLogin
  dsimp only
  split_ifs <;> simp_all

theorem okNonsecure_secure (tail : List Byte) : okNonsecure tail (str "secure" ++ []) = false := by
  have hwords : getwords (str "secure" ++ 0 :: tail) {} = [str "secure"] :=
    getwords_plain (by decide +kernel) tail rfl
  have hcstr : cstr (str "secure" ++ []) = str "secure" := by decide
  rw [okNonsecure, hcstr, hwords]
  decide

/-- The end of the handshake on the calling side, where the other side has the modes of `g`. -/
structure Settled (n : FtnNode) (g : Login) (s : State) : Prop where
  state : s.login.state ≠ .null
  we : s.login.ndFlag.we = g.ndFlag.they
  they : s.login.ndFlag.they = g.ndFlag.we
  crypt : s.login.cryptFlag = .on ↔ g.cryptFlag = .both ∧ n.outPwdText ≠ str "-" ∧ s.login.mdFlag ≠ 0 ∧
    s.login.expectedPwd ≠ str "!"
  keys : s.login.cryptFlag = .on → s.link.keysOut = initKeys n.outPwdText ∧
    s.link.keysIn = keysFrom n.outPwdText

/-- What the options of the answering side say. -/
def Login.answers (g : Login) : Said := ⟨g.ndFlag.they, g.ndFlag.we ≠ g.ndFlag.they, g.cryptFlag = .both⟩

-- the handshake of the two sides until the `M_OK`, and what the calling side has heard of the other
section
variable {n : FtnNode} {lc g : Login} {info before : List Item} {x : Said} {we : Bool} {b : State}

/-- The batch mode stays as it is: the two sides do not want it on one side only. -/
theorem CallerSide.ok_nd (h : CallerSide config n lc info s) (hb : LoggedIn x we g before b)
    (hnd : x.nd = n.ndFlag) (hheard : s.login.heard = g.answers) (tail text : Str) :
    (okLogin n tail text s.login).ndFlag = s.login.ndFlag := by
  obtain ⟨-, -, -, -, hndf⟩ := okLogin_facts n tail text s.login
  simp only [Login.heard, Login.answers, Said.mk.injEq] at hheard
  obtain ⟨hwe, hnda, -⟩ := hheard
  have hgwe : g.ndFlag.we = s.login.ndFlag.they := hb.nd.trans (hnd.trans h.own.they.symm)
  rw [hndf, if_neg]
  rintro (hasym | hasym)
  · rw [hasym] at hwe hnda hgwe
    simp [hgwe, ← hwe] at hnda
  · rw [hasym] at hwe hnda hgwe
    simp [hgwe, ← hwe] at hnda

/-- The encryption is not switched on before the end of the login. -/
theorem CallerSide.ok_off (h : CallerSide config n lc info s) (tail text : Str) :
    (okLogin n tail text s.login).cryptFlag ≠ .on := by
  obtain ⟨-, -, -, hcr, -⟩ := okLogin_facts n tail text s.login
  rw [hcr]
  split_ifs
  · decide
  · intro hon
    have hyes := h.own.yes
    rw [hon] at hyes
    exact absurd hyes (by decide)

/-- The calling side takes the session for a secure one that both sides want to encrypt if and only if
it has a password, and the other side takes it for that. -/
theorem CallerSide.ok_both (h : CallerSide config n lc info s) (hb : LoggedIn x we g before b)
    (hcrypt : x.crypt = !config.noCrypt) (hheard : s.login.heard = g.answers) (tail : Str) {text : Str}
    (htext : ((if g.state = .secure then str "secure" else str "non-secure") ++ [] : Str) = text) :
    (okLogin n tail text s.login).state = .secure ∧ (okLogin n tail text s.login).cryptFlag = .both ↔
      n.outPwdText ≠ str "-" ∧ g.cryptFlag = .both := by
  obtain ⟨-, -, hstate, hcr, -⟩ := okLogin_facts n tail text s.login
  simp only [Login.heard, Login.answers, Said.mk.injEq] at hheard
  obtain ⟨-, -, hthey⟩ := hheard
  rw [hstate, hcr]
  constructor
  · rintro ⟨hsec, hcf⟩
    split_ifs at hsec with hpwd
    split_ifs at hcf with hno
    · exact absurd hcf (by decide)
    · rw [hcf] at hthey
      exact ⟨hpwd, of_decide_eq_true hthey.symm⟩
  · rintro ⟨hpwd, hg⟩
    obtain ⟨hx, -, hsec, -⟩ := hb.both.mp hg
    rw [if_pos hsec] at htext
    rw [if_pos hpwd, ← htext, okNonsecure_secure, if_neg (by simp)]
    refine ⟨rfl, ?_⟩
    have hwe := h.own.we
    have hyes := h.own.yes
    rw [← hcrypt, hx] at hwe
    rw [hg] at hthey
    generalize s.login.cryptFlag = c at hwe hyes hthey
    obtain ⟨w, t, y⟩ := c
    obtain rfl : w = true := hwe
    obtain rfl : y = false := hyes
    obtain rfl : t = true := hthey
    rfl

/-- The `M_OK` settles the modes. -/
theorem CallerSide.ok (h : CallerSide config n lc info s) (hb : LoggedIn x we g before b) (hnd : x.nd = n.ndFlag)
    (hcrypt : x.crypt = !config.noCrypt) (hheard : s.login.heard = g.answers) :
    Settled n g (OK config env ((if g.state = .secure then str "secure" else str "non-secure") ++ []) s).1 ∧
      (OK config env ((if g.state = .secure then str "secure" else str "non-secure") ++ []) s).1.login.expectedPwd =
        s.login.expectedPwd ∧
      (OK config env ((if g.state = .secure then str "secure" else str "non-secure") ++ []) s).1.link.log = s.link.log := by
  generalize htext : ((if g.state = .secure then str "secure" else str "non-secure") ++ [] : Str) = text
  obtain ⟨hmd, hexp, -⟩ := okLogin_facts n env.tail text s.login
  obtain ⟨disk, q, inbound, heq, -⟩ := completeLogin_spec config env
    { s with login := okLogin n env.tail text s.login }
  have hok : (OK config env text s).1 = (completeLogin config env { s with login := okLogin n env.tail text s.login }).1 := by
    unfold OK
    rw [h.toNode]
  rw [hok, heq]
  have hsame := h.ok_nd hb hnd hheard env.tail text
  have hboth := h.ok_both hb hcrypt hheard env.tail htext
  have hon := loginCrypt_on_iff (h.ok_off env.tail text)
  rw [← and_assoc, hboth, hmd, hexp] at hon
  have hwe : s.login.ndFlag.we = g.ndFlag.they := congrArg Said.nd hheard
  refine ⟨⟨okLogin_state n env.tail text s.login, ?_, ?_, ?_, fun hc => ?_⟩, hexp, rfl⟩
  · exact (congrArg NdFlag.we hsame).trans hwe
  · exact (congrArg NdFlag.they hsame).trans (h.own.they.trans (hnd.symm.trans hb.nd.symm))
  · refine Iff.trans hon ?_
    have hmd' : (completed (okLogin n env.tail text s.login)).mdFlag = s.login.mdFlag := hmd
    have hexp' : (completed (okLogin n env.tail text s.login)).expectedPwd = s.login.expectedPwd := hexp
    rw [hmd', hexp', and_assoc, and_left_comm]
  · have hkeys : loginSetsKeys (okLogin n env.tail text s.login) = true := by
      rw [loginSetsKeys_iff, ← and_assoc, hboth, hmd, hexp]
      exact hon.mp hc
    dsimp only [Link.completed]
    rw [if_pos hkeys, h.toNode]
    exact ⟨rfl, rfl⟩

end

/-! ### Both sides -/

theorem Said.or_silent (x : Said) : x.or silent = x := by simp [Said.or, silent]

theorem Said.silent_or (x : Said) : silent.or x = x := by simp [Said.or, silent]

/-- A message that says nothing changes nothing of the modes. -/
theorem NUL_heard {text : Str} {x : Said} (h : LineSays text x) :
    (NUL config env text s).1.login.heard = s.login.heard.or x := heard_nul config s.toNode h env.tail s.login

theorem CallerSide.hush (h : CallerSide config n lc info s) {t : Byte} {text : Str} (hi : Hushed (.msg t text))
    (hlive : (handle config env t text s).2 = true) :
    CallerSide config n lc info (handle config env t text s).1 ∧
      (handle config env t text s).1.login.heard = s.login.heard ∧
      s.link.log <:+ (handle config env t text s).1.link.log := by
  have hlog := @handle_log_suffix s config env t text
  cases hi with
  | nul hsays => exact ⟨h.nul env text, (NUL_heard hsays).trans (Said.or_silent _), hlog⟩
  | adr => exact ⟨(h.adr hlive).1, (h.adr hlive).2, hlog⟩

theorem AnswererSide.hush (h : AnswererSide config s) {t : Byte} {text : Str} (hi : Hushed (.msg t text))
    (hlive : (handle config env t text s).2 = true) :
    AnswererSide config (handle config env t text s).1 ∧
      (handle config env t text s).1.login.heard = s.login.heard := by
  cases hi with
  | nul hsays => exact ⟨h.nul env text, (NUL_heard hsays).trans (Said.or_silent _)⟩
  | adr => exact h.adr hlive

/-- What the options of the caller say. -/
def callerSays (ca : BinkdConfig) (n : FtnNode) : Said := ⟨n.ndFlag, true, !ca.noCrypt⟩

/-- How far the handshake is. -/
inductive Phase (ca cb : BinkdConfig) (n : FtnNode) (lc : Login) (info : List Item) (p : Pair) : Prop
  | greeting (hcaller : CallerSide ca n lc info p.caller) (hanswerer : AnswererSide cb p.answerer)
      (hheard : p.caller.login.heard = silent)
      (hheard' : p.answerer.login.heard = if info.length < p.answererRead then callerSays ca n else silent)
  | granted (g : Login) (before : List Item) (hcaller : CallerSide ca n lc info p.caller)
      (hanswerer : LoggedIn (callerSays ca n) (!cb.noCrypt) g before p.answerer)
      (hbefore : ∀ i ∈ before, Hushed i)
      (hheard : p.caller.login.heard = if before.length < p.callerRead then g.answers else silent)
      (hsent : ∃ pwd, .msg M_PWD pwd ∈ p.caller.link.log)
  | settled (g : Login) (before : List Item) (hcaller : Settled n g p.caller)
      (hanswerer : LoggedIn (callerSays ca n) (!cb.noCrypt) g before p.answerer)
      (hexpected : n.outPwdText.take maxPwdLen ≠ str "-" → n.outPwdText.take maxPwdLen ≠ str "!" →
        p.caller.login.expectedPwd ≠ str "!")

structure TalkInv (ca cb : BinkdConfig) (n : FtnNode) (lc : Login) (info : List Item) (p : Pair) : Prop where
  read_le : p.callerRead ≤ p.answerer.link.log.length
  phase : Phase ca cb n lc info p

theorem reverse_getElem_lt {l : List Item} {k : ℕ} {i : Item} (h : l.reverse[k]? = some i) :
    k < l.length := by
  by_contra hle
  rw [List.getElem?_eq_none (by simpa using hle)] at h
  contradiction

theorem handle_nul (text : Str) : handle config env M_NUL text s = NUL config env text s := rfl

theorem handle_ok (text : Str) : handle config env M_OK text s = OK config env text s := rfl

theorem handle_pwd (text : Str) : handle config env M_PWD text s = PWD config env text s := rfl

/-- What the caller reads. -/
theorem TalkInv.callerReads {p : Pair} (h : TalkInv ca cb n lc info p)
    (hread : reads ca env p.answerer.link.log p.callerRead p.caller = some s) :
    TalkInv ca cb n lc info { p with caller := s, callerRead := p.callerRead + 1 } := by
  obtain ⟨hnull, t, text, hitem, hlive, rfl⟩ := reads_some hread
  refine ⟨reverse_getElem_lt hitem, ?_⟩
  cases h.phase with
  | greeting hcaller hanswerer hheard hheard' =>
    have hi := hanswerer.hushed _ (List.mem_reverse.mp (List.mem_of_getElem? hitem))
    obtain ⟨hcaller', hsame, -⟩ := hcaller.hush hi hlive
    exact .greeting hcaller' hanswerer (hsame.trans hheard) hheard'
  | granted g before hcaller hanswerer hbefore hheard hsent =>
    rcases @read_cases _ [_] _ _ _ _ hanswerer.log hitem with ⟨hlt, hmem⟩ | ⟨heq, hopt⟩ | ⟨hgt, hok⟩
    · obtain ⟨hcaller', hsame, hlog⟩ := hcaller.hush (hbefore _ hmem) hlive
      refine .granted g before hcaller' hanswerer hbefore ?_ (hsent.imp fun _ => hlog.mem)
      rw [hsame, hheard, if_neg (by omega), if_neg (by dsimp only; omega)]
    · -- the options of the other side
      obtain ⟨rfl, rfl⟩ := Item.msg.inj hopt
      rw [if_neg (by omega)] at hheard
      rw [handle_nul]
      refine .granted g before (hcaller.nul env _) hanswerer hbefore ?_ hsent
      refine (NUL_heard (answerLine_said g)).trans ?_
      rw [hheard, Said.silent_or, if_pos (by simp [heq])]
      rfl
    · obtain ⟨rfl, rfl⟩ := Item.msg.inj (List.mem_singleton.mp hok)
      rw [if_pos hgt] at hheard
      rw [handle_ok]
      obtain ⟨hsettled, hexp, -⟩ := @CallerSide.ok _ env _ _ _ _ _ _ _ _ _ hcaller hanswerer rfl rfl hheard
      refine .settled g before hsettled hanswerer fun hdash hbang => ?_
      rw [hexp]
      exact hcaller.expected hsent hdash hbang
  | settled g before hcaller => exact absurd hnull hcaller.state

/-- The pair with the answering side a message further. -/
def Pair.answered (p : Pair) (s : State) : Pair := ⟨p.caller, s, p.callerRead, p.answererRead + 1⟩

theorem greeting_hushed {p : Pair} (hcaller : CallerSide ca n lc info p.caller) (hanswerer : AnswererSide cb p.answerer)
    (hheard : p.caller.login.heard = silent)
    (hheard' : p.answerer.login.heard = if info.length < p.answererRead then callerSays ca n else silent)
    {t : Byte} {text : Str} (hi : Hushed (.msg t text)) (hlive : (handle cb env t text p.answerer).2 = true)
    (hiff : info.length < p.answererRead ↔ info.length < p.answererRead + 1) :
    Phase ca cb n lc info (p.answered (handle cb env t text p.answerer).1) := by
  obtain ⟨hanswerer', hsame⟩ := hanswerer.hush hi hlive
  generalize (handle cb env t text p.answerer).1 = s at hanswerer' hsame
  refine .greeting hcaller hanswerer' hheard ?_
  refine hsame.trans (hheard'.trans ?_)
  unfold Pair.answered
  simp only [hiff]

theorem greeting_opt {p : Pair} (hcaller : CallerSide ca n lc info p.caller) (hanswerer : AnswererSide cb p.answerer)
    (hheard : p.caller.login.heard = silent) (hheard' : p.answerer.login.heard = silent)
    (hread : p.answererRead = info.length) {line : Str} (hline : LineSays line (callerSays ca n)) :
    Phase ca cb n lc info (p.answered (NUL cb env line p.answerer).1) := by
  have hheard1 : (NUL cb env line p.answerer).1.login.heard = callerSays ca n := by
    refine (NUL_heard hline).trans ?_
    rw [hheard', Said.silent_or]
  have hanswerer' := hanswerer.nul env line
  generalize (NUL cb env line p.answerer).1 = s at hanswerer' hheard1
  refine .greeting hcaller hanswerer' hheard (hheard1.trans ?_)
  unfold Pair.answered
  rw [if_pos (by dsimp only; omega)]

theorem greeting_pwd {p : Pair} (hread : p.callerRead ≤ p.answerer.link.log.length)
    (hcaller : CallerSide ca n lc info p.caller) (hanswerer : AnswererSide cb p.answerer)
    (hheard : p.caller.login.heard = silent) (hheard' : p.answerer.login.heard = callerSays ca n)
    {pwd : Str} (hsent : .msg M_PWD pwd ∈ p.caller.link.log)
    (hlive : (PWD cb env pwd p.answerer).2 = true) :
    Phase ca cb n lc info (p.answered (PWD cb env pwd p.answerer).1) := by
  obtain ⟨g, before, hbefore, hsuffix, hlogged⟩ := hanswerer.pwd hlive
  rw [hheard'] at hlogged
  generalize (PWD cb env pwd p.answerer).1 = s at hlogged
  refine .granted g before hcaller hlogged hbefore ?_ ⟨pwd, hsent⟩
  refine hheard.trans ?_
  unfold Pair.answered
  rw [if_neg (not_lt.mpr (hread.trans hsuffix.length_le))]

/-- What the answering side reads. -/
theorem TalkInv.answererReads {p : Pair} (hinfo : ∀ i ∈ info, Hushed i) (hnd : lc.ndFlag.they = n.ndFlag)
    (hwe : lc.cryptFlag.we = !ca.noCrypt) (h : TalkInv ca cb n lc info p)
    (hread : reads cb env p.caller.link.log p.answererRead p.answerer = some s) :
    TalkInv ca cb n lc info { p with answerer := s, answererRead := p.answererRead + 1 } := by
  obtain ⟨hnull, t, text, hitem, hlive, rfl⟩ := reads_some hread
  have hlog := @handle_log_suffix p.answerer cb env t text
  refine ⟨h.read_le.trans hlog.length_le, ?_⟩
  cases h.phase with
  | greeting hcaller hanswerer hheard hheard' =>
    obtain ⟨later, hlater, hkinds⟩ := hcaller.said
    rcases read_cases hlater hitem with ⟨hlt, hmem⟩ | ⟨heq, hopt⟩ | ⟨hgt, hmem⟩
    · exact greeting_hushed hcaller hanswerer hheard hheard' (hinfo _ hmem) hlive (by omega)
    · injection hopt with ht htext
      subst ht htext
      have hline : LineSays (str "OPT" ++ callerOpt lc) (callerSays ca n) := by
        have hsays := callerLine_said lc
        rw [hnd, hwe] at hsays
        exact hsays
      rw [if_neg (by omega)] at hheard'
      rw [handle_nul]
      exact greeting_opt hcaller hanswerer hheard hheard' heq hline
    · rcases hkinds _ hmem with hi | ⟨pwd, hi⟩
      · exact greeting_hushed hcaller hanswerer hheard hheard' hi hlive (by omega)
      · injection hi with ht htext
        subst ht htext
        rw [if_pos hgt] at hheard'
        rw [handle_pwd] at hlive ⊢
        have hsent : .msg M_PWD text ∈ p.caller.link.log := by
          rw [hlater]
          exact List.mem_append_left _ hmem
        exact greeting_pwd h.read_le hcaller hanswerer hheard hheard' hsent hlive
  | granted g before _ hanswerer => exact absurd hnull hanswerer.secured
  | settled g before _ hanswerer => exact absurd hnull hanswerer.secured

/-- What the caller does by itself. -/
theorem TalkInv.callerActs {p : Pair} (h : TalkInv ca cb n lc info p) (hnull : p.caller.login.state = .null)
    (hact : Act ca env p.caller s) (hlog : s.link.log = p.caller.link.log) :
    TalkInv ca cb n lc info { p with caller := s } := by
  refine ⟨h.read_le, ?_⟩
  cases h.phase with
  | greeting hcaller hanswerer hheard hheard' =>
    obtain ⟨hcaller', hsame⟩ := hcaller.act hact hlog
    exact .greeting hcaller' hanswerer (hsame.trans hheard) hheard'
  | granted g before hcaller hanswerer hbefore hheard hsent =>
    obtain ⟨hcaller', hsame⟩ := hcaller.act hact hlog
    exact .granted g before hcaller' hanswerer hbefore (hsame.trans hheard) (by rw [hlog]; exact hsent)
  | settled g before hcaller => exact absurd hnull hcaller.state

/-- What the answering side does by itself. -/
theorem TalkInv.answererActs {p : Pair} (h : TalkInv ca cb n lc info p) (hnull : p.answerer.login.state = .null)
    (hact : Act cb env p.answerer s) (hlog : s.link.log = p.answerer.link.log) :
    TalkInv ca cb n lc info { p with answerer := s } := by
  refine ⟨by rw [hlog]; exact h.read_le, ?_⟩
  cases h.phase with
  | greeting hcaller hanswerer hheard hheard' =>
    obtain ⟨hanswerer', hsame⟩ := hanswerer.act hact hlog
    exact .greeting hcaller hanswerer' hheard (hsame.trans hheard')
  | granted g before _ hanswerer => exact absurd hnull hanswerer.secured
  | settled g before _ hanswerer => exact absurd hnull hanswerer.secured

/-- The two sides of a call that has just been taken. -/
def openPair (ca cb : BinkdConfig) (envA envB : Env) (diskA diskB : Disk) (nameA nameB ipA ipB : Str) (n : FtnNode)
    (faA faB : Option FtnAddr) : Pair :=
  ⟨start ca envA diskA nameA ipA (some n) faA, start cb envB diskB nameB ipB none faB, 0, 0⟩

theorem talkInv_run {p0 p : Pair} (hinfo : ∀ i ∈ info, Hushed i) (hnd : lc.ndFlag.they = n.ndFlag)
    (hwe : lc.cryptFlag.we = !ca.noCrypt) (h0 : TalkInv ca cb n lc info p0) (run : Talk ca cb p0 p) :
    TalkInv ca cb n lc info p := by
  induction run with
  | start => exact h0
  | caller env _ hread ih => exact ih.callerReads hread
  | answerer env _ hread ih => exact ih.answererReads hinfo hnd hwe hread
  | callerAct env _ hnull hact hlog ih => exact ih.callerActs hnull hact hlog
  | answererAct env _ hnull hact hlog ih => exact ih.answererActs hnull hact hlog

/-- The two sides agree on the encryption with its keys, and on the ND modes. -/
structure Agrees (p : Pair) : Prop where
  crypt : p.caller.login.cryptFlag = .on ↔ p.answerer.login.cryptFlag = .on
  keys : p.caller.login.cryptFlag = .on → p.caller.link.keysOut = p.answerer.link.keysIn ∧
    p.answerer.link.keysOut = p.caller.link.keysIn
  nd : p.caller.login.ndFlag.we = p.answerer.login.ndFlag.they ∧
    p.caller.login.ndFlag.they = p.answerer.login.ndFlag.we

variable {p0 p q r : Pair}

/-! ### The agreement -/

/-- The password `pwd` comes to the answering side of `q`, which becomes `s`. -/
def TakesPwd (config : BinkdConfig) (q : Pair) (pwd : Str) (s : State) : Prop :=
  q.answerer.login.state = .null ∧ q.caller.link.log.reverse[q.answererRead]? = some (.msg M_PWD pwd) ∧
    ∃ env, (PWD config env pwd q.answerer).2 = true ∧ s = (PWD config env pwd q.answerer).1

/-- The `M_OK` comes to the caller of `r`, which becomes `s`. -/
def TakesOk (config : BinkdConfig) (r : Pair) (s : State) : Prop :=
  r.caller.login.state = .null ∧ ∃ env text, r.answerer.link.log.reverse[r.callerRead]? = some (.msg M_OK text) ∧
    s = (OK config env text r.caller).1

/-- Both sides want the encryption and the answering side takes a password for it, with its `MD_flag`
set, from a caller whose `MD_flag` is 0. -/
def Apart (ca cb : BinkdConfig) (a : Login) (pwd : Str) (c : Login) : Prop :=
  ca.noCrypt = false ∧ cb.noCrypt = false ∧ a.expectedPwd ≠ str "-" ∧ a.expectedPwd ≠ str "!" ∧
    (a.mdFlag ≠ 0 ∨ pwdByDigest a (cstr pwd) = true) ∧ c.mdFlag = 0

/-- What `PWD` grants depends on whether a password is expected, and `MD_flag` stays or becomes 1. -/
theorem pwdCheck_md {l : Login} {pwd : Str} {m : BitVec 32} (h : pwdCheck l pwd = .secure m) :
    m ≠ 0 ↔ l.mdFlag ≠ 0 ∨ pwdByDigest l pwd = true := by
  unfold pwdCheck at h
  dsimp only at h
  by_cases hd : pwdByDigest l pwd = true
  · rw [if_pos hd] at h
    split_ifs at h
    obtain rfl := PwdCheck.secure.inj h
    exact iff_of_true (by decide) (.inr hd)
  · rw [if_neg hd] at h
    split_ifs at h
    obtain rfl := PwdCheck.secure.inj h
    exact ⟨.inl, fun h => h.resolve_right hd⟩

/-- What the login of an answering side says of the step before. -/
theorem PWD_login (hto : s.toNode = none) {pwd : Str} (hlive : (PWD config env pwd s).2 = true) :
    (PWD config env pwd s).1.login.expectedPwd = s.login.expectedPwd ∧
    ((PWD config env pwd s).1.login.state = .secure ↔ s.login.expectedPwd ≠ str "-") ∧
    ((PWD config env pwd s).1.login.state = .secure →
      ((PWD config env pwd s).1.login.mdFlag ≠ 0 ↔ s.login.mdFlag ≠ 0 ∨ pwdByDigest s.login (cstr pwd) = true)) := by
  have hout := PWD_outcome config env pwd s hto
  generalize PWD config env pwd s = x at hout hlive
  cases hout with
  | double => contradiction
  | refused => contradiction
  | nonsecure m digest early ext want s' hnull hc hs =>
    rw [hs.login]
    have hexp := pwdCheck_nonsecure hc
    exact ⟨rfl, iff_of_false (by rintro ⟨⟩) (fun h => h hexp), by rintro ⟨⟩⟩
  | secure m want s' hnull hc hs =>
    rw [hs.login]
    exact ⟨rfl, iff_of_true rfl (pwdCheck_secure_expected hc), fun _ => pwdCheck_md hc⟩

/-- The step of a handshake in which the answering side has logged in. -/
theorem Talk.answerer_step (run : Talk ca cb p0 p) (h0 : p0.answerer.login.state = .null)
    (h : p.answerer.login.state ≠ .null) : ∃ q env, Talk ca cb p0 q ∧
      reads cb env q.caller.link.log q.answererRead q.answerer = some p.answerer := by
  induction run with
  | start => exact absurd h0 h
  | caller env _ _ ih => exact ih h
  | answerer env run hread => exact ⟨_, env, run, hread⟩
  | callerAct env _ _ _ _ ih => exact ih h
  | answererAct env _ hnull hact _ =>
    obtain ⟨d, t, hl⟩ := hact.frame.login
    rw [hl] at h
    exact absurd hnull h

/-- The step of a handshake in which the caller has logged in. -/
theorem Talk.caller_step (run : Talk ca cb p0 p) (h0 : p0.caller.login.state = .null)
    (h : p.caller.login.state ≠ .null) : ∃ r env, Talk ca cb p0 r ∧
      reads ca env r.answerer.link.log r.callerRead r.caller = some p.caller := by
  induction run with
  | start => exact absurd h0 h
  | caller env run hread => exact ⟨_, env, run, hread⟩
  | answerer env _ _ ih => exact ih h
  | callerAct env _ hnull hact _ =>
    obtain ⟨d, t, hl⟩ := hact.frame.login
    rw [hl] at h
    exact absurd hnull h
  | answererAct env _ _ _ _ ih => exact ih h

theorem TalkInv.takesPwd (hinfo : ∀ i ∈ info, Hushed i) (h : TalkInv ca cb n lc info q)
    (hread : reads cb env q.caller.link.log q.answererRead q.answerer = some s) (hs : s.login.state ≠ .null) :
    q.answerer.toNode = none ∧ ∃ pwd, TakesPwd cb q pwd s := by
  obtain ⟨hnull, t, text, hitem, hlive, rfl⟩ := reads_some hread
  cases h.phase with
  | greeting hcaller hanswerer _ _ =>
    obtain ⟨later, hlog, hkinds⟩ := hcaller.said
    have hushed : ∀ hi : Hushed (.msg t text), False := fun hi => hs (hanswerer.hush hi hlive).1.null
    refine ⟨hanswerer.toNode, ?_⟩
    rcases read_cases hlog hitem with ⟨-, hmem⟩ | ⟨-, hopt⟩ | ⟨-, hmem⟩
    · exact (hushed (hinfo _ hmem)).elim
    · injection hopt with ht htext
      subst ht
      rw [handle_nul] at hs
      exact absurd (hanswerer.nul env text).null hs
    · rcases hkinds _ hmem with hi | ⟨pwd, hi⟩
      · exact (hushed hi).elim
      · injection hi with ht htext
        subst ht
        rw [handle_pwd] at hlive ⊢
        exact ⟨text, hnull, hitem, env, hlive, rfl⟩
  | granted g before _ hanswerer => exact absurd hnull hanswerer.secured
  | settled g before _ hanswerer => exact absurd hnull hanswerer.secured

theorem TalkInv.takesOk (h : TalkInv ca cb n lc info r)
    (hread : reads ca env r.answerer.link.log r.callerRead r.caller = some s) (hs : s.login.state ≠ .null) :
    TakesOk ca r s := by
  obtain ⟨hnull, t, text, hitem, hlive, rfl⟩ := reads_some hread
  cases h.phase with
  | greeting hcaller hanswerer _ _ =>
    have hi := hanswerer.hushed _ (List.mem_reverse.mp (List.mem_of_getElem? hitem))
    exact absurd (hcaller.hush hi hlive).1.null hs
  | granted g before hcaller hanswerer hbefore _ _ =>
    rcases @read_cases _ [_] _ _ _ _ hanswerer.log hitem with ⟨-, hmem⟩ | ⟨-, hopt⟩ | ⟨-, hok⟩
    · exact absurd (hcaller.hush (hbefore _ hmem) hlive).1.null hs
    · injection hopt with ht htext
      subst ht
      exact absurd (hcaller.nul env text).null hs
    · obtain ⟨rfl, -⟩ := Item.msg.inj (List.mem_singleton.mp hok)
      exact ⟨hnull, env, text, hitem, rfl⟩
  | settled g before hcaller => exact absurd hnull hcaller.state

/-- The invariant of a handshake holds when the call has been taken. -/
theorem talkInv_open (ca cb : BinkdConfig) (envA envB : Env) (diskA diskB : Disk) (nameA nameB ipA ipB : Str)
    (n : FtnNode) (faA faB : Option FtnAddr) : ∃ lc info, (∀ i ∈ info, Hushed i) ∧
    lc.ndFlag.they = n.ndFlag ∧
      lc.cryptFlag.we = !ca.noCrypt ∧
      TalkInv ca cb n lc info (openPair ca cb envA envB diskA diskB nameA nameB ipA ipB n faA faB) ∧
      (openPair ca cb envA envB diskA diskB nameA nameB ipA ipB n faA faB).caller.login.state = .null ∧
      (openPair ca cb envA envB diskA diskB nameA nameB ipA ipB n faA faB).answerer.login.state = .null := by
  obtain ⟨lc, info, hlog, hinfo, hnd, hwe⟩ := start_caller ca envA diskA nameA ipA n faA
  have ha := start_opening ca envA diskA nameA ipA (some n) faA
  have hb := start_opening cb envB diskB nameB ipB none faB
  obtain ⟨pa, c, w, hla, -⟩ := ha.login
  obtain ⟨pb, c', w', hlb, -⟩ := hb.login
  have hsilent := start_answerer cb envB diskB nameB ipB faB
  refine ⟨lc, info, hinfo, hnd, hwe, ⟨Nat.zero_le _, ?_⟩, congrArg Login.state hla,
    congrArg Login.state hlb⟩
  unfold openPair
  generalize start ca envA diskA nameA ipA (some n) faA = a at hlog ha hla
  generalize start cb envB diskB nameB ipB none faB = b at hb hlb hsilent
  refine .greeting ⟨ha.toNode, ⟨[], hlog, fun _ hi => absurd hi List.not_mem_nil⟩, ?_, ⟨?_, ?_, ?_⟩, ?_⟩
    ⟨hb.toNode, ?_, ?_, ?_, hsilent⟩ ?_ ?_
  · exact congrArg Login.state hla
  · exact congrArg (·.cryptFlag.we) hla
  · exact congrArg (·.cryptFlag.yes) hla
  · exact congrArg (·.ndFlag.they) hla
  · rintro ⟨pwd, hmem⟩
    rw [hlog] at hmem
    rcases List.mem_cons.mp hmem with hopt | hmem
    · exact absurd (Item.msg.inj hopt).1 (by decide)
    · cases hinfo _ hmem
  · exact congrArg Login.state hlb
  · exact congrArg (·.cryptFlag.we) hlb
  · exact congrArg (·.cryptFlag.yes) hlb
  · exact congrArg Login.heard hla
  · exact (congrArg Login.heard hlb).trans (if_neg (Nat.not_lt_zero _)).symm

theorem take_short {l x : Str} {k : ℕ} (h : l.take k = x) (hk : x.length < k) : l = x := by
  have hlen := congrArg List.length h
  rw [List.length_take] at hlen
  rw [← h, List.take_of_length_le (by omega)]

theorem OK_mdFlag (text : Str) : (OK config env text s).1.login.mdFlag = s.login.mdFlag := by
  cases hto : s.toNode with
  | none =>
    unfold OK
    rw [hto]
  | some n =>
    obtain ⟨disk, q, inbound, heq, -⟩ := completeLogin_spec config env
      { s with login := okLogin n env.tail text s.login }
    have hok : (OK config env text s).1 =
        (completeLogin config env { s with login := okLogin n env.tail text s.login }).1 := by
      unfold OK
      rw [hto]
    rw [hok, heq]
    exact (okLogin_facts n env.tail text s.login).1

/-- The modes at the end, from what the two sides were before their last steps. -/
theorem Settled.agrees {g : Login} {before : List Item} {pwd : Str}
    (ha : Settled n g p.caller) (hb : LoggedIn (callerSays ca n) (!cb.noCrypt) g before p.answerer)
    (hpwd : p.answerer.login.expectedPwd = n.outPwdText) (hto : q.answerer.toNode = none)
    (hexp : n.outPwdText.take maxPwdLen ≠ str "-" → n.outPwdText.take maxPwdLen ≠ str "!" →
      p.caller.login.expectedPwd ≠ str "!")
    (hq : TakesPwd cb q pwd p.answerer) (hmd : p.caller.login.mdFlag = r.caller.login.mdFlag) :
    Agrees p ↔ ¬ Apart ca cb q.answerer.login pwd r.caller.login := by
  obtain ⟨-, -, env, hlive, hs⟩ := hq
  obtain ⟨hexp', hsec, hmdFlag⟩ := PWD_login hto hlive
  rw [← hs] at hexp' hsec hmdFlag
  have hcompleted := hb.login
  have hg : g.state = p.answerer.login.state ∧ g.mdFlag = p.answerer.login.mdFlag ∧
      g.expectedPwd = p.answerer.login.expectedPwd := by
    rw [hcompleted]
    exact ⟨rfl, rfl, rfl⟩
  have hnd : p.answerer.login.ndFlag = g.ndFlag := by
    rw [hcompleted]
    rfl
  have hcr : p.answerer.login.cryptFlag = loginCrypt g := by
    rw [hcompleted]
    rfl
  -- the modes that the answering side has left open
  have hboth : g.cryptFlag = .both ↔ ca.noCrypt = false ∧ cb.noCrypt = false ∧
    q.answerer.login.expectedPwd ≠ str "-" ∧
      q.answerer.login.expectedPwd ≠ str "!" ∧
      (q.answerer.login.mdFlag ≠ 0 ∨ pwdByDigest q.answerer.login (cstr pwd) = true) := by
    rw [hb.both, hg.1, hg.2.1, hg.2.2, ← hexp', callerSays, Bool.not_eq_true', Bool.not_eq_true']
    constructor
    · rintro ⟨hca, hcb, hstate, hm, hbang⟩
      exact ⟨hca, hcb, hexp' ▸ hsec.mp hstate, hbang, (hmdFlag hstate).mp hm⟩
    · rintro ⟨hca, hcb, hdash, hbang, hm⟩
      have hstate := hsec.mpr (hexp' ▸ hdash)
      exact ⟨hca, hcb, hstate, (hmdFlag hstate).mpr hm, hbang⟩
  have hans : p.answerer.login.cryptFlag = .on ↔ g.cryptFlag = .both := by
    rw [hcr, loginCrypt_on_iff hb.notOn]
    refine ⟨fun h => h.2.1, fun h => ?_⟩
    obtain ⟨-, -, hstate, hm, hbang⟩ := hb.both.mp h
    exact ⟨hstate, h, hm, hbang⟩
  have hcal : p.caller.login.cryptFlag = .on ↔ g.cryptFlag = .both ∧ r.caller.login.mdFlag ≠ 0 := by
    rw [ha.crypt, hmd]
    refine ⟨fun h => ⟨h.1, h.2.2.1⟩, fun h => ?_⟩
    obtain ⟨-, -, hdash, hbang, -⟩ := hboth.mp h.1
    rw [← hexp', hpwd] at hdash hbang
    have hdash' : n.outPwdText.take maxPwdLen ≠ str "-" := fun ht => hdash (take_short ht (by decide))
    have hbang' : n.outPwdText.take maxPwdLen ≠ str "!" := fun ht => hbang (take_short ht (by decide))
    exact ⟨h.1, hdash, h.2, hexp hdash' hbang'⟩
  have hapart : Apart ca cb q.answerer.login pwd r.caller.login ↔
      g.cryptFlag = .both ∧ r.caller.login.mdFlag = 0 := by
    rw [hboth]
    simp only [Apart, and_assoc]
  rw [hapart]
  constructor
  · rintro hagrees ⟨hg, hzero⟩
    exact (hcal.mp (hagrees.crypt.mpr (hans.mpr hg))).2 hzero
  · intro hnot
    refine ⟨?_, fun hon => ?_, by rw [hnd]; exact ha.we, by rw [hnd]; exact ha.they⟩
    · rw [hcal, hans]
      exact ⟨fun h => h.1, fun h => ⟨h, fun hzero => hnot ⟨h, hzero⟩⟩⟩
    · have hkeys : loginSetsKeys g = true := by
        rw [loginSetsKeys_iff, ← loginCrypt_on_iff hb.notOn, ← hcr, hans]
        exact (hcal.mp hon).1
      obtain ⟨hout, hin⟩ := hb.keys hkeys
      obtain ⟨hout', hin'⟩ := ha.keys hon
      rw [hout, hin, hout', hin', hg.2.2, hpwd]
      exact ⟨rfl, rfl⟩

/-- **The agreement of a handshake**: when both sides have logged in with one password, they agree
on the encryption, on its keys and on the ND modes if and only if the two have not been apart when
the password and the `M_OK` came. -/
theorem handshake_agrees (ca cb : BinkdConfig) (envA envB : Env) (diskA diskB : Disk) (nameA nameB ipA ipB : Str)
    (n : FtnNode) (faA faB : Option FtnAddr) (p : Pair)
    (run : Talk ca cb (openPair ca cb envA envB diskA diskB nameA nameB ipA ipB n faA faB) p)
    (hcaller : p.caller.login.state ≠ .null) (hanswerer : p.answerer.login.state ≠ .null)
    (hpwd : p.answerer.login.expectedPwd = n.outPwdText) :
    ∃ q r pwd, Talk ca cb (openPair ca cb envA envB diskA diskB nameA nameB ipA ipB n faA faB) q ∧
      TakesPwd cb q pwd p.answerer ∧
      Talk ca cb (openPair ca cb envA envB diskA diskB nameA nameB ipA ipB n faA faB) r ∧
      TakesOk ca r p.caller ∧ (Agrees p ↔ ¬ Apart ca cb q.answerer.login pwd r.caller.login) := by
  obtain ⟨lc, info, hinfo, hnd, hwe, h0, hnullA, hnullB⟩ :=
    talkInv_open ca cb envA envB diskA diskB nameA nameB ipA ipB n faA faB
  generalize openPair ca cb envA envB diskA diskB nameA nameB ipA ipB n faA faB = p0 at run h0 hnullA hnullB ⊢
  obtain ⟨q, env, hq, hreadq⟩ := run.answerer_step hnullB hanswerer
  obtain ⟨r, env', hr, hreadr⟩ := run.caller_step hnullA hcaller
  obtain ⟨hto, pwd, htakes⟩ := (talkInv_run hinfo hnd hwe h0 hq).takesPwd hinfo hreadq hanswerer
  have hok := (talkInv_run hinfo hnd hwe h0 hr).takesOk hreadr hcaller
  refine ⟨q, r, pwd, hq, htakes, hr, hok, ?_⟩
  cases (talkInv_run hinfo hnd hwe h0 run).phase with
  | greeting h => exact absurd h.null hcaller
  | granted g before h => exact absurd h.null hcaller
  | settled g before hsettled hlogged hexp =>
    have hmd : p.caller.login.mdFlag = r.caller.login.mdFlag := by
      obtain ⟨-, env, text, -, hs⟩ := hok
      rw [hs]
      exact OK_mdFlag text
    exact hsettled.agrees hlogged hpwd hto hexp htakes hmd

/-- A handshake in which each side reads what it can, the caller first. -/
def talk (ca cb : BinkdConfig) (env : Env) : ℕ → Pair → Pair
  | 0, p => p
  | k + 1, p => match reads ca env p.answerer.link.log p.callerRead p.caller with
    | some s => talk ca cb env k { p with caller := s, callerRead := p.callerRead + 1 }
    | none => match reads cb env p.caller.link.log p.answererRead p.answerer with
      | some s => talk ca cb env k { p with answerer := s, answererRead := p.answererRead + 1 }
      | none => p

theorem talk_run {p0 p : Pair} (h : Talk ca cb p0 p) (env : Env) (k : ℕ) :
    Talk ca cb p0 (talk ca cb env k p) := by
  induction k generalizing p with
  | zero => exact h
  | succ k ih =>
    rw [talk]
    split
    · next s hread => exact ih (h.caller env hread)
    · split
      · next s hread => exact ih (h.answerer env hread)
      · exact h

/-- The address 2, which calls the address 1 with a password. -/
def callerConfig : BinkdConfig := { fidoConfig [calledNode] with pAddr := [aka 2] }

/-- The address 1, which expects this password. -/
def answererConfig (mdFlag : MdFlag) : BinkdConfig :=
  { fidoConfig [{ fa := aka 2, pwd := str "aa", mdFlag := mdFlag, pwd_length := aa_length, pwd_nul := aa_nul }] with
    pAddr := [aka 1] }

/-- A call without MD5, to a side that has `-nomd` for the caller. -/
def plainPair : Pair :=
  talk { callerConfig with noMD5 := true } (answererConfig .off) {} 40
    (openPair { callerConfig with noMD5 := true } (answererConfig .off) {} {} ∅ ∅ [] [] [] [] calledNode none none)

/-- A call with MD5. -/
def digestPair : Pair :=
  talk callerConfig (answererConfig .useOld) {} 40
    (openPair callerConfig (answererConfig .useOld) {} {} ∅ ∅ [] [] [] [] calledNode none none)

/-- The answering side of the first call encrypts and the caller does not. -/
theorem plainPair_apart :
    Talk { callerConfig with noMD5 := true } (answererConfig .off)
      (openPair { callerConfig with noMD5 := true } (answererConfig .off) {} {} ∅ ∅ [] [] [] [] calledNode none none)
      plainPair ∧
    plainPair.caller.login.state ≠ .null ∧ plainPair.answerer.login.state ≠ .null ∧
    plainPair.answerer.login.expectedPwd = calledNode.outPwdText ∧
    plainPair.caller.login.cryptFlag = .no ∧ plainPair.answerer.login.cryptFlag = .on ∧
        ¬ Agrees plainPair := by
  have h : (plainPair.caller.login.state ≠ .null ∧ plainPair.answerer.login.state ≠ .null ∧
      plainPair.answerer.login.expectedPwd = calledNode.outPwdText) ∧
      plainPair.caller.login.cryptFlag = .no ∧ plainPair.answerer.login.cryptFlag = .on := by decide +kernel
  refine ⟨talk_run .start {} 40, h.1.1, h.1.2.1, h.1.2.2, h.2.1, h.2.2, fun hagrees => ?_⟩
  have hon := hagrees.crypt.mpr h.2.2
  rw [h.2.1] at hon
  exact absurd hon (by decide)

/-- Both sides of the second call encrypt. -/
theorem handshake_agrees_digest : digestPair.caller.login.cryptFlag = .on ∧
    ∃ q r pwd, Talk callerConfig (answererConfig .useOld)
        (openPair callerConfig (answererConfig .useOld) {} {} ∅ ∅ [] [] [] [] calledNode none none) q ∧
      TakesPwd (answererConfig .useOld) q pwd digestPair.answerer ∧
      Talk callerConfig (answererConfig .useOld)
        (openPair callerConfig (answererConfig .useOld) {} {} ∅ ∅ [] [] [] [] calledNode none none) r ∧
      TakesOk callerConfig r digestPair.caller ∧
      (Agrees digestPair ↔ ¬ Apart callerConfig (answererConfig .useOld) q.answerer.login pwd r.caller.login) := by
  have h : digestPair.caller.login.cryptFlag = .on ∧ digestPair.caller.login.state ≠ .null ∧
      digestPair.answerer.login.state ≠ .null ∧
      digestPair.answerer.login.expectedPwd = calledNode.outPwdText := by decide +kernel
  exact ⟨h.1, handshake_agrees callerConfig (answererConfig .useOld) {} {} ∅ ∅ [] [] [] [] calledNode none none
    digestPair (talk_run .start {} 40) h.2.1 h.2.2.1 h.2.2.2⟩

end Binkd
