import Binkd.Auth
import Binkd.Calling
import Binkd.Options

/-!
# The MD5 policy

`MD_ON`, `MD_OFF` and `MD_USE_OLD` are 1, -1 and 0, and `ADR` ors those of the nodes of
a remote together.  So a node with `MD_OFF` sets every bit, and `MD_flag` is then neither
1, which `PWD` takes for "MD5 required", nor 0, which `completeLogin` takes for "no MD5".
As long as no password is compared as a text, and none is presented as a text, with such
a flag, the policy holds (`md5_policy`): a text is not accepted for a node that requires
MD5, and only a session with CRAM-MD5 is encrypted.
-/

namespace Binkd

open Lib

variable {config : BinkdConfig} {env : Env} {t : Byte} {buf : List Byte} {s s' : State}

/-! ### The answering side -/

/-- The node of the address, at some time of the session, did not require MD5 for its
inbound password. -/
def PlainAllowed (config : BinkdConfig) (a : FtnAddr) : Prop :=
  ∃ now, ∀ n ∈ getNodeInfo now a config, n.pwd ≠ str "-" → n.mdFlag ≠ .on

/-- An accepted address whose node requires MD5 has left its mark in `MD_flag`. -/
def MdKept (config : BinkdConfig) (l : Login) : Prop :=
  ∀ a ∈ l.fa, PlainAllowed config a ∨ l.mdFlag.getLsbD 0 = true ∧ l.expectedPwd ≠ str "-" ∨
    l.expectedPwd = []

theorem AkaAdded.mem {a x : FtnAddr} {fa fa' : List FtnAddr} {nfa nfa' : Nat}
    (h : AkaAdded a fa nfa fa' nfa') (hx : x ∈ fa') : x ∈ fa ∨ x = a := by
  cases h with
  | busy => simpa using hx
  | active =>
    rcases List.mem_append.mp hx with hx | hx
    · exact .inl (List.mem_of_mem_take hx)
    · rcases List.mem_cons.mp hx with rfl | hx
      · exact .inr rfl
      · exact .inl (List.mem_of_mem_drop hx)

/-- What the password of one node does to the mark of another. -/
theorem PwdRound.mark {mine : Prop} {n : FtnNode} {e e' : Str} {m m' : BitVec 32} {added : Bool}
    (h : PwdRound mine n e m e' m' added)
    (hmark : m.getLsbD 0 = true ∧ e ≠ str "-" ∨ e = []) : m'.getLsbD 0 = true ∧
    e' ≠ str "-" ∨ e' = [] := by
  cases h with
  | neutral => exact hmark
  | emptied => exact hmark
  | refused => exact .inr rfl
  | first hne he =>
    have he' : e ≠ [] := by rcases he with rfl | rfl <;> decide
    exact .inl ⟨by simp [(hmark.resolve_right he').1], hne⟩
  | again _ hne hdash => exact .inl ⟨by simp [(hmark.resolve_right hne).1], hdash⟩

/-- A node that requires MD5 leaves its mark. -/
theorem PwdRound.own_mark {mine : Prop} {n : FtnNode} {e e' : Str} {m m' : BitVec 32} {added : Bool}
    (h : PwdRound mine n e m e' m' added) : (n.pwd ≠ str "-" → n.mdFlag ≠ .on) ∨
      m'.getLsbD 0 = true ∧ e' ≠ str "-" ∨ e' = [] := by
  have hbit : ∀ m : BitVec 32, n.mdFlag = .on → (m ||| n.mdFlag.val).getLsbD 0 = true := by
    intro m hon
    rw [hon]
    simp [MdFlag.val]
  by_cases hon : n.mdFlag = .on
  · cases h with
    | neutral hdash => exact .inl fun hne => absurd hdash hne
    | emptied he => exact .inr (.inr he)
    | refused => exact .inr (.inr rfl)
    | first hne he => exact .inr (.inl ⟨hbit m hon, hne⟩)
    | again _ _ hdash => exact .inr (.inl ⟨hbit m hon, hdash⟩)
  · exact .inl fun _ => hon

theorem AdrRound.mdKept {remoteFa : Option FtnAddr} {w : Str} {l l' : Login}
    (h : AdrRound config env remoteFa w l l') (hl : MdKept config l) : MdKept config l' := by
  obtain ⟨a, e, m, x, fa, nfa, added, -, rfl, hadd, hnone, hsome⟩ := h.round
  intro b hb
  have hold : b ∈ l.fa → PlainAllowed config b ∨ m.getLsbD 0 = true ∧ e ≠ str "-" ∨ e = [] := by
    intro hb
    refine (hl b hb).imp_right fun hmark => ?_
    cases hn : getNodeInfo env.now a config with
    | none =>
      obtain ⟨rfl, rfl⟩ := hnone hn
      exact hmark
    | some n => exact (hsome n hn).mark hmark
  rcases hadd with ⟨rfl, -⟩ | ⟨-, hadd⟩
  · exact hold hb
  · rcases hadd.mem hb with hb | rfl
    · exact hold hb
    · cases hn : getNodeInfo env.now b config with
      | none => exact .inl ⟨env.now, by simp [hn]⟩
      | some n =>
        refine ((hsome n hn).own_mark).imp_left fun hallowed => ⟨env.now, fun n' hn' => ?_⟩
        obtain rfl : n = n' := Option.some.inj (hn.symm.trans hn')
        exact hallowed

/-- The session answers, and the marks of its addresses are kept. -/
structure AnswerMd (config : BinkdConfig) (s : State) : Prop where
  toNode : s.toNode = none
  kept : MdKept config s.login

theorem AnswerMd.same (h : AnswerMd config s) (hto : s'.toNode = s.toNode)
    (hfa : s'.login.fa = s.login.fa) (he : s'.login.expectedPwd = s.login.expectedPwd)
    (hm : s'.login.mdFlag = s.login.mdFlag ∨ s'.login.mdFlag = 1) : AnswerMd config s' := by
  refine ⟨hto.trans h.toNode, fun a ha => ?_⟩
  rw [hfa] at ha
  rw [he]
  refine (h.kept a ha).imp_right (Or.imp_left fun hmark => ⟨?_, hmark.2⟩)
  rcases hm with hm | hm
  · rw [hm]
    exact hmark.1
  · rw [hm]
    decide

theorem pwdCheck_mdFlag {l : Login} {pwd : Str} {m : BitVec 32} (h : pwdCheck l pwd = .secure m ∨
    ∃ digest early, pwdCheck l pwd = .nonsecure m digest early) : m = l.mdFlag ∨ m = 1 := by
  unfold pwdCheck at h
  dsimp only at h
  split_ifs at h
  all_goals simp_all

theorem AnswerMd.adr (h : AnswerMd config s) : AnswerMd config (ADR config env buf s).1 := by
  refine ⟨(ADR_frame config env buf s).toNode.trans h.toNode, ?_⟩
  exact ADR_keeps config env buf (P := MdKept config) h.toNode h.kept (fun _ _ _ _ ha => ha)
    fun _ _ _ _ hround ha => hround.mdKept ha

theorem AnswerMd.pwd (h : AnswerMd config s) (hlive : (PWD config env buf s).2 = true) :
    AnswerMd config (PWD config env buf s).1 := by
  have hout := PWD_outcome config env buf s h.toNode
  generalize PWD config env buf s = r at hout hlive
  cases hout with
  | double => contradiction
  | refused => contradiction
  | nonsecure m digest early ext want s' _ hc hs =>
    refine h.same hs.toNode (by rw [hs.login]; rfl) (by rw [hs.login]; rfl) ?_
    rw [hs.login]
    exact pwdCheck_mdFlag (.inr ⟨digest, early, hc⟩)
  | secure m want s' _ hc hs =>
    refine h.same hs.toNode (by rw [hs.login]; rfl) (by rw [hs.login]; rfl) ?_
    rw [hs.login]
    exact pwdCheck_mdFlag (.inl hc)

theorem AnswerMd.message (h : AnswerMd config s) (hlive : (handle config env t buf s).2 = true) :
    AnswerMd config (handle config env t buf s).1 := by
  by_cases hpwd : t = M_PWD
  · subst hpwd
    exact h.pwd hlive
  · have hs := handshake config env t buf s
    generalize (handle config env t buf s).1 = s' at hs
    cases hs with
    | nul =>
      have hk := nulLogin_keeps config s.toNode env.tail buf s.login
      exact h.same rfl hk.fa hk.expectedPwd (.inl hk.mdFlag)
    | adr => exact h.adr
    | pwd ht => exact absurd ht hpwd
    | ok =>
      simp only [OK, h.toNode]
      exact h
    | other _ hf =>
      obtain ⟨_, _, hl⟩ := hf.login
      exact h.same hf.toNode (by rw [hl]) (by rw [hl]) (.inl (by rw [hl]))

theorem AnswerMd.act (h : AnswerMd config s) (hact : Act config env s s') : AnswerMd config s' := by
  obtain ⟨_, _, hl⟩ := hact.frame.login
  exact h.same hact.frame.toNode (by rw [hl]) (by rw [hl]) (.inl (by rw [hl]))

/-- A text that is accepted is one that the nodes of all addresses allow, if no text is
compared while `MD_flag` is set. -/
theorem plain_accepted {l : Login} (hl : MdKept config l) {pwd : Str} {m : BitVec 32}
    (hguard : pwdByDigest l pwd = true ∨ l.mdFlag = 0) (hplain : isCram pwd = false)
    (h : pwdCheck l pwd = .secure m ∨ ∃ digest early, pwdCheck l pwd = .nonsecure m digest early) :
    ∀ a ∈ l.fa, PlainAllowed config a := by
  have hallowed : l.mdFlag = 0 ∧ l.expectedPwd ≠ [] ∨ l.expectedPwd = str "-" := by
    by_cases hno : l.expectedPwd = str "-"
    · exact .inr hno
    · refine .inl ?_
      have hdigest : pwdByDigest l pwd = false := by
        by_contra hd
        have hone : l.mdFlag = 1 := by simpa [pwdByDigest, hplain] using hd
        simp [pwdCheck, hno, hplain, pwdByDigest, hone] at h
      have hzero : l.mdFlag = 0 := hguard.resolve_left (by simp [hdigest])
      refine ⟨hzero, fun hnil => ?_⟩
      have hbad : badPlain l pwd = true := by
        unfold badPlain
        rw [hnil, if_neg (by decide)]
        rfl
      simp [pwdCheck, hno, hplain, hdigest, hbad] at h
  intro a ha
  rcases hl a ha with hok | ⟨hbit, hdash⟩ | hnil
  · exact hok
  · rcases hallowed with ⟨hzero, -⟩ | hno
    · rw [hzero] at hbit
      simp at hbit
    · exact absurd hno hdash
  · rcases hallowed with ⟨-, hne⟩ | hno
    · exact absurd hnil hne
    · rw [hno] at hnil
      contradiction

/-- A password that lets a session be encrypted is verified by its digest. -/
theorem digest_verified {l : Login} {pwd : Str} {m : BitVec 32} (h : pwdCheck l pwd = .secure m)
    (hguard : pwdByDigest l pwd = true ∨ l.mdFlag = 0) (hm : m ≠ 0) (hbang : l.expectedPwd ≠ str "!") :
    ∃ challenge ∈ l.mdChallenge, stricmp (mdBuildDigest l.expectedPwd challenge) pwd = 0 := by
  unfold pwdCheck at h
  dsimp only at h
  split_ifs at h with _ hd _ _ hbad _ hbad
  · exact (badDigest_eq_false (by simpa using hbad)).resolve_left hbang
  · obtain rfl := PwdCheck.secure.inj h
    exact absurd (hguard.resolve_left hd) hm

/-! ### The encryption is switched on -/

theorem loginCrypt_on {l : Login} (h : loginCrypt l = .on) : l.cryptFlag = .on ∨
    l.cryptFlag = .both ∧ l.state = .secure ∧ l.mdFlag ≠ 0 ∧ l.expectedPwd ≠ str "!" := by
  unfold loginCrypt at h
  split_ifs at h with h1 h2 h3 h4 h5
  · contradiction
  · contradiction
  · contradiction
  · exact .inr ⟨h4, not_not.mp h1, fun hm => h2 ⟨h4, hm⟩, fun he => h3 ⟨h4, he⟩⟩
  · exact .inl h5
  · contradiction

theorem nulLogin_was_on {toNode : Option FtnNode} {tail buf : List Byte} {l : Login}
    (h : (nulLogin config toNode tail buf l).cryptFlag = .on) : l.cryptFlag = .on := by
  have hk := nulLogin_keeps config toNode tail buf l
  have hthey := nulLogin_crypt config toNode tail buf l
  have hwe := hk.weCrypt
  have hyes := hk.yesCrypt
  rw [h] at hthey hwe hyes
  generalize l.cryptFlag = c at hthey hwe hyes
  obtain ⟨we, they, yes⟩ := c
  have hthey' : they = false := by
    cases they with
    | false => rfl
    | true => exact absurd hthey (by simp [CryptFlag.on])
  rw [show we = _ from hwe.symm, show yes = _ from hyes.symm, hthey']
  rfl

theorem okLogin_keeps (n : FtnNode) (tail buf : List Byte) (l : Login) :
    (okLogin n tail buf l).mdFlag = l.mdFlag ∧ (okLogin n tail buf l).mdChallenge = l.mdChallenge ∧
    ((okLogin n tail buf l).cryptFlag = l.cryptFlag ∨ (okLogin n tail buf l).cryptFlag = .no) := by
  unfold okLogin
  dsimp only
  split_ifs <;> exact ⟨rfl, rfl, by first | exact .inl rfl | exact .inr rfl⟩

/-- The messages that switch the encryption on. -/
theorem crypt_switched (hoff : s.login.cryptFlag ≠ .on)
    (hon : (handle config env t buf s).1.login.cryptFlag = .on) :
    (t = M_PWD ∧ s.toNode = none ∧ s.login.state = .null ∧ s.login.expectedPwd ≠ str "!" ∧
      ∃ m, pwdCheck s.login (cstr buf) = .secure m ∧ m ≠ 0) ∨
    (t = M_OK ∧ s.toNode.isSome ∧ s.login.cryptFlag = .both ∧ s.login.mdFlag ≠ 0) := by
  have hs := handshake config env t buf s
  generalize (handle config env t buf s).1 = s' at hs hon
  cases hs with
  | nul => exact absurd (nulLogin_was_on hon) hoff
  | adr =>
    obtain ⟨_, _, _, _, _, _, _, _, hl⟩ := (ADR_frame config env buf s).login
    rw [hl] at hon
    exact absurd hon hoff
  | pwd ht =>
    by_cases hto : s.toNode = none
    · cases (PWD_state config env buf hto).1 with
      | same _ hl =>
        obtain ⟨_, hl⟩ := hl
        rw [hl] at hon
        exact absurd hon hoff
      | granted state m ext want hs hnull hc =>
        rw [hs.login] at hon
        rcases loginCrypt_on hon with hon' | ⟨-, hsecure, hm, hbang⟩
        · exact absurd hon' (granted_cryptFlag hoff m state ext want)
        · rcases hc with ⟨-, hc⟩ | ⟨hstate, -⟩
          · exact .inl ⟨ht, hto, hnull, hbang, m, hc, hm⟩
          · rw [hstate] at hsecure
            contradiction
    · rw [PWD_call config env buf (Option.isSome_iff_ne_none.mpr hto)] at hon
      exact absurd hon hoff
  | ok ht =>
    unfold OK at hon
    split at hon
    · exact absurd hon hoff
    · next n hto =>
      obtain ⟨_, _, _, heq, -⟩ := completeLogin_spec config env
        { s with login := okLogin n env.tail buf s.login }
      rw [heq] at hon
      obtain ⟨hmd, -, hflag⟩ := okLogin_keeps n env.tail buf s.login
      rcases loginCrypt_on hon with hon' | ⟨hboth, -, hm, -⟩
      · rcases hflag with hflag | hflag
        · exact absurd (hflag.symm.trans hon') hoff
        · rw [hflag] at hon'
          contradiction
      · rw [hmd] at hm
        rcases hflag with hflag | hflag
        · exact .inr ⟨ht, by simp [hto], hflag.symm.trans hboth, hm⟩
        · rw [hflag] at hboth
          contradiction
  | other _ hf =>
    obtain ⟨_, _, hl⟩ := hf.login
    rw [hl] at hon
    exact absurd hon hoff

/-! ### The calling side -/

/-- A session on the calling side whose `MD_flag` is set has presented a digest, or knows of
no challenge. -/
structure CallMd (n : FtnNode) (s : State) : Prop where
  toNode : s.toNode = some n
  md : s.login.mdFlag ≠ 0 → DigestSent n s.link.log ∨ s.login.mdChallenge = none

theorem CallMd.same {n : FtnNode} (h : CallMd n s) (hto : s'.toNode = s.toNode)
    (hm : s'.login.mdFlag = s.login.mdFlag) (hc : s.login.mdFlag ≠ 0 → s.login.mdChallenge = none →
      s'.login.mdChallenge = none) (hlog : s.link.log <:+ s'.link.log) : CallMd n s' := by
  refine ⟨hto.trans h.toNode, fun hne => ?_⟩
  rw [hm] at hne
  exact (h.md hne).imp (·.mono hlog) (hc hne)

theorem CallMd.act {n : FtnNode} (h : CallMd n s) (hact : Act config env s s') : CallMd n s' := by
  obtain ⟨_, _, hl⟩ := hact.frame.login
  exact h.same hact.frame.toNode (by rw [hl]) (fun _ hc => by rw [hl]; exact hc) hact.log_suffix

/-- No option is a challenge. -/
def NoChallenge (tail buf : List Byte) : Prop :=
    ∀ w ∈ optWords tail buf, (str "CRAM-").isPrefixOf w = false

instance (tail buf : List Byte) : Decidable (NoChallenge tail buf) :=
  inferInstanceAs (Decidable (∀ w ∈ optWords tail buf, _))

theorem CallMd.message {n : FtnNode} (h : CallMd n s)
    (hnul : t = M_NUL → s.login.mdFlag = 0 ∨ s.login.mdChallenge.isSome ∨ NoChallenge env.tail buf)
    (hlive : (handle config env t buf s).2 = true) : CallMd n (handle config env t buf s).1 := by
  have hlog := @handle_log_suffix s config env t buf
  by_cases hadr : t = M_ADR
  · subst hadr
    have hframe := ADR_frame config env buf s
    obtain ⟨s1, l1, hloop, -, hcall, heq⟩ := ADR_call h.toNode hlive
    have hmd1 : s1.login.mdChallenge = s.login.mdChallenge := by
      have hloopFrame := (adrExpect_frame s).trans
        (adrLoop_frame config env (adrWords config env buf) (adrExpect s) {})
      rw [hloop] at hloopFrame
      obtain ⟨_, _, _, _, _, _, _, _, hl⟩ := hloopFrame.login
      show s1.login.mdChallenge = _
      rw [show s1.login = _ from hl]
    obtain ⟨disk, q, link, m, hs, hsent⟩ := adrCall_outcome n hcall
    refine ⟨hframe.toNode.trans h.toNode, fun _ => ?_⟩
    show DigestSent n (ADR config env buf s).1.link.log ∨
      (ADR config env buf s).1.login.mdChallenge = none
    rw [heq, hs]
    rcases hsent with ⟨challenge, -, hmem⟩ | ⟨hnone, -⟩
    · exact .inl ⟨challenge, hmem⟩
    · exact .inr hnone
  · have hs := handshake config env t buf s
    generalize (handle config env t buf s).1 = s' at hs hlog
    cases hs with
    | nul ht =>
      have hk := nulLogin_keeps config s.toNode env.tail buf s.login
      refine h.same rfl hk.mdFlag (fun hne hnone => ?_) hlog
      rcases hnul ht with hzero | hsome | hno
      · exact absurd hzero hne
      · simp [hnone] at hsome
      · exact (nulLogin_challenge config s.toNode s.login hno).trans hnone
    | adr ht => exact absurd ht hadr
    | pwd =>
      rw [PWD_call config env buf (by simp [h.toNode])]
      exact h
    | ok =>
      unfold OK
      split
      · exact h
      · next n' hto =>
        obtain ⟨_, _, _, heq, -⟩ := completeLogin_spec config env
          { s with login := okLogin n' env.tail buf s.login }
        obtain ⟨hmd, hch, -⟩ := okLogin_keeps n' env.tail buf s.login
        rw [heq]
        exact h.same rfl hmd (fun _ hnone => hch.trans hnone) List.suffix_rfl
    | other _ hf =>
      obtain ⟨_, _, hl⟩ := hf.login
      exact h.same hf.toNode (by rw [hl]) (fun _ hc => by rw [hl]; exact hc) hlog

/-! ### Runs -/

/-- The policy in one round: a text is accepted only where every accepted address allows it,
and the encryption is switched on only with a digest that was verified or presented. -/
structure Md5Policy (config : BinkdConfig) (i : Input) (s : State) : Prop where
  plain : ∀ a buf, arrives config i s = some (a, M_PWD, buf) → a.toNode = none → a.login.state = .null →
    isCram (cstr buf) = false → (iterate config i s).1.login.state ≠ .null →
    ∀ x ∈ a.login.fa, PlainAllowed config x
  crypt : s.login.cryptFlag ≠ .on → (iterate config i s).1.login.cryptFlag = .on →
    (∃ a buf, arrives config i s = some (a, M_PWD, buf) ∧ s.toNode = none ∧
      ∃ challenge ∈ a.login.mdChallenge,
        stricmp (mdBuildDigest a.login.expectedPwd challenge) (cstr buf) = 0) ∨
    ∃ n, s.toNode = some n ∧ DigestSent n (iterate config i s).1.link.log

/-- On the answering side no text is compared while `MD_flag` is set. -/
def TextCompared (s : State) (buf : List Byte) : Prop :=
  s.toNode = none → s.login.state = .null → pwdByDigest s.login (cstr buf) = true ∨ s.login.mdFlag = 0

/-- On the calling side no text has been presented while `MD_flag` is set. -/
def TextPresented (s : State) : Prop :=
  s.toNode.isSome → s.login.cryptFlag = .both → s.login.mdFlag = 0 ∨ s.login.mdChallenge.isSome

/-- On the calling side no challenge comes late, when `MD_flag` is set. -/
def LateChallenge (env : Env) (s : State) (buf : List Byte) : Prop :=
  s.toNode.isSome → s.login.mdFlag = 0 ∨ s.login.mdChallenge.isSome ∨ NoChallenge env.tail buf

instance (s : State) (buf : List Byte) : Decidable (TextCompared s buf) :=
  inferInstanceAs (Decidable (_ → _ → _ ∨ _))

instance (s : State) : Decidable (TextPresented s) := inferInstanceAs (Decidable (_ → _ → _ ∨ _))

instance (env : Env) (s : State) (buf : List Byte) : Decidable (LateChallenge env s buf) :=
  inferInstanceAs (Decidable (_ → _ ∨ _ ∨ _))

/-- `MD_flag` is not set where a password is a text. -/
def MdGuard (config : BinkdConfig) (i : Input) (s : State) : Prop :=
  Meets config (fun a t buf => (t = M_PWD → TextCompared a buf) ∧ (t = M_OK → TextPresented a) ∧
    (t = M_NUL → LateChallenge i.env a buf)) i s

instance (config : BinkdConfig) (i : Input) (s : State) : Decidable (MdGuard config i s) :=
  inferInstanceAs (Decidable (Meets config _ i s))

/-- What a session of either side keeps. -/
def MdInv (config : BinkdConfig) (s : State) : Prop :=
  AnswerMd config s ∨ ∃ n, CallMd n s

theorem MdInv.act (h : MdInv config s) (hact : Act config env s s') : MdInv config s' :=
  h.imp (·.act hact) fun ⟨n, hn⟩ => ⟨n, hn.act hact⟩

theorem Acts.mdInv (hacts : Acts config env s s') (h : MdInv config s) : MdInv config s' := by
  induction hacts with
  | refl => exact h
  | tail _ hact ih => exact ih.act hact

theorem Acts.log_suffix (hacts : Acts config env s s') : s.link.log <:+ s'.link.log := by
  induction hacts with
  | refl => exact List.suffix_rfl
  | tail _ hact ih => exact ih.trans hact.log_suffix

theorem MdInv.policy (h : MdInv config s) {i : Input} (hi : MdGuard config i s) :
    Md5Policy config i s := by
  refine ⟨fun a buf harr hto hnull hplain hstate => ?_, fun hoff hon => ?_⟩
  · cases iterate_acts config i s with
    | quiet hnone => simp [hnone] at harr
    | message a' t buf' harr' before behind _ =>
      rw [harr] at harr'
      simp only [Option.some.injEq, Prod.mk.injEq] at harr'
      obtain ⟨rfl, rfl, rfl⟩ := harr'
      have hkept : AnswerMd config a := (before.mdInv h).resolve_right fun ⟨n, hn⟩ => by
        have hn' := hn.toNode
        rw [hto] at hn'
        contradiction
      have hs := handshake config i.env M_PWD buf a
      rw [behind.frame.state] at hstate
      rcases hs.state hto with hsame | ⟨-, -, m, hc⟩
      · exact absurd (hsame.trans hnull) hstate
      · refine plain_accepted (m := m) hkept.kept ((hi _ harr).1 rfl hto hnull) hplain ?_
        exact hc.imp And.right And.right
  · cases iterate_acts config i s with
    | quiet hnone acts =>
      obtain ⟨_, _, hl⟩ := acts.frame.login
      rw [hl] at hon
      exact absurd hon hoff
    | message a t buf harr before behind _ =>
      have hflag : a.login.cryptFlag = s.login.cryptFlag := by
        obtain ⟨_, _, hl⟩ := before.frame.login
        rw [hl]
      have hon' : (handle config i.env t buf a).1.login.cryptFlag = .on := by
        obtain ⟨_, _, hl⟩ := behind.frame.login
        rw [hl] at hon
        exact hon
      obtain ⟨hpwd, hok, -⟩ := hi _ harr
      rcases crypt_switched (by rwa [hflag]) hon' with
        ⟨rfl, hto, hnull, hbang, m, hc, hm⟩ | ⟨rfl, hto, hboth, hm⟩
      · refine .inl ⟨a, buf, harr, before.frame.toNode.symm.trans hto, ?_⟩
        exact digest_verified hc (hpwd rfl hto hnull) hm hbang
      · rcases before.mdInv h with hans | ⟨n, hcall⟩
        · have hno : a.toNode = none := hans.toNode
          rw [hno] at hto
          contradiction
        · refine .inr ⟨n, before.frame.toNode.symm.trans hcall.toNode, ?_⟩
          have hchallenge : a.login.mdChallenge ≠ none := by
            rcases hok rfl hto hboth with hzero | hsome
            · exact absurd hzero hm
            · exact Option.isSome_iff_ne_none.mp hsome
          have hsent : DigestSent n a.link.log := (hcall.md hm).resolve_right hchallenge
          exact hsent.mono ((handle_log_suffix config i.env M_OK buf).trans behind.log_suffix)

theorem MdInv.iterate (h : MdInv config s) {i : Input} (hi : MdGuard config i s)
    (hlive : (iterate config i s).2 = true) : MdInv config (iterate config i s).1 := by
  have hrule := @iterate_induction_stop config (MdInv config) (fun _ => True) i s
    (fun a b hact ha => ha.act hact) (fun a t buf harr ha => ⟨fun hgo => ?_, fun _ => trivial⟩) h
  · exact hrule.resolve_right fun hstop => by simp [hstop.1] at hlive
  · obtain ⟨-, -, hnul⟩ := hi _ harr
    rcases ha with ha | ⟨n, ha⟩
    · exact .inl (ha.message hgo)
    · exact .inr ⟨n, ha.message (fun ht => hnul ht (by simp [ha.toNode])) hgo⟩

/-- **The MD5 policy**: in a session in which no password is a text while `MD_flag` is set,
every round keeps the policy. -/
theorem md5_policy (config : BinkdConfig) (env : Env) (disk : Disk) (peerName ipaddr : Str)
    (to_ : Option FtnNode) (fa : Option FtnAddr) (s : State)
    (run : Reachable config (MdGuard config) (start config env disk peerName ipaddr to_ fa) s true)
    (i : Input) (hi : MdGuard config i s) : Md5Policy config i s := by
  have hinv : true = true → MdInv config s := by
    refine run.invariant (fun s live => live = true →
      MdInv config s) (fun _ => ?_) fun i s h hi hlive => ?_
    · have h := start_opening config env disk peerName ipaddr to_ fa
      obtain ⟨p, c, w, hl, -⟩ := h.login
      cases hto : to_ with
      | none =>
        subst hto
        refine .inl ⟨h.toNode, fun a ha => ?_⟩
        rw [hl] at ha
        simp [initProtocol] at ha
      | some n =>
        subst hto
        refine .inr ⟨n, h.toNode, fun hm => ?_⟩
        rw [hl] at hm
        exact absurd rfl hm
    · exact (h rfl).iterate hi hlive
  exact (hinv rfl).policy hi

/-- A node that requires MD5, one that forbids it, and one without a setting. -/
def mdNode (n : Int32) (mdFlag : MdFlag) : FtnNode :=
  { fa := aka n, pwd := str "aa", mdFlag := mdFlag, pwd_length := aa_length, pwd_nul := aa_nul }
def mdNodes : BinkdConfig := fidoConfig [mdNode 1 .on, mdNode 2 .off, mdNode 3 .useOld]

/-- A session that has come as far as the last byte of its password. -/
def mdSession (adr : Str) : State :=
  after (iterate mdNodes) (Input.message {} M_ADR adr ++ (Input.message {} M_PWD (str "aa")).take 1)
    (start mdNodes {} ∅ [] [] none none)

/-- The round in which the password comes in as a text. -/
def textRound : Input := ⟨{}, .ready (some (.bytes (M_PWD :: str "aa"))) none⟩

/-- Together with a node that forbids MD5, a node that requires it gets a text. -/
theorem mdOff_undoes_mdOn :
    Reachable mdNodes (fun _ _ => True) (start mdNodes {} ∅ [] [] none none)
      (mdSession (str "2:5020/1 2:5020/2")) true ∧
    ¬ Md5Policy mdNodes textRound (mdSession (str "2:5020/1 2:5020/2")) := by
  refine ⟨Run.of_inputs (by decide +kernel), fun h => ?_⟩
  have harr : ∃ m ∈ arrives mdNodes textRound (mdSession (str "2:5020/1 2:5020/2")),
      m.2.1 = M_PWD ∧ m.1.toNode = none ∧ m.1.login.state = .null ∧ isCram (cstr m.2.2) = false ∧
      aka 1 ∈ m.1.login.fa := by decide +kernel
  obtain ⟨⟨a, t, buf⟩, harr, rfl, hto, hnull, hplain, hmem⟩ := harr
  obtain ⟨now, hallowed⟩ := h.plain a buf harr hto hnull hplain (by decide +kernel) (aka 1) hmem
  exact hallowed { mdNode 1 .on with hosts := some (str "-") } rfl (by decide) rfl

/-- Alone, a node without a setting may get a text. -/
theorem md5_policy_text : Md5Policy mdNodes textRound (mdSession (str "2:5020/3")) :=
  md5_policy mdNodes {} ∅ [] [] none none _ (Run.of_inputs (by decide +kernel)) textRound
    (by decide +kernel)

end Binkd
