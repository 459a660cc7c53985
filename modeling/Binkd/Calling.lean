import Binkd.Frame.Adr
import Binkd.Frame.Log
import Binkd.Opening

/-!
# The order of the login on the calling side

The calling side sends its password when it has gone through the addresses of an `M_ADR`
and found the one that it called among them; an `M_ADR` that fails in this stops the
session.  So a session that has active addresses has presented its password
(`CallInv`).  `M_OK` is not bound to that order: one that comes first logs the
session in all the same.
-/

namespace Binkd

open Lib

variable {config : BinkdConfig} {env : Env} {t : Byte} {buf : List Byte} {s s' : State}

/-- On the calling side a password of the remote changes nothing. -/
theorem PWD_call (config : BinkdConfig) (env : Env) (buf : List Byte) (hto : s.toNode.isSome) :
    PWD config env buf s = (s, true) := by
  unfold PWD
  rw [if_pos hto]

/-! ### What an `M_ADR` has done that is accepted -/

/-- The address that was called is active. -/
def CalledActive (n : FtnNode) (l : Login) : Prop := ∃ a ∈ l.active, ftnaddressCmp a n.fa = 0

instance (n : FtnNode) (l : Login) : Decidable (CalledActive n l) :=
  inferInstanceAs (Decidable (∃ a ∈ l.active, _))

/-- A digest of the session's password was presented. -/
def DigestSent (n : FtnNode) (log : List Item) : Prop :=
  ∃ challenge, .msg M_PWD (mdBuildDigest n.outPwdText challenge) ∈ log

/-- The session's password was presented, as a digest where that is asked for. -/
def PwdSent (config : BinkdConfig) (n : FtnNode) (log : List Item) : Prop :=
  DigestSent n log ∨ .msg M_PWD n.outPwdText ∈ log ∧ ¬ (n.mdFlag = .on ∧ config.noMD5 = false)

theorem DigestSent.mono {n : FtnNode} {log log' : List Item} (h : DigestSent n log) (hlog : log <:+ log') :
    DigestSent n log' := by
  obtain ⟨challenge, hmem⟩ := h
  exact ⟨challenge, hlog.mem hmem⟩

theorem PwdSent.mono {n : FtnNode} {log log' : List Item} (h : PwdSent config n log) (hlog : log <:+ log') :
    PwdSent config n log' :=
  h.imp (·.mono hlog) fun h => ⟨hlog.mem h.1, h.2⟩

/-- The lists of addresses are in order, and the address called is active where the loop
of `ADR` has found it. -/
structure AdrLists (s : State) (l : AdrLocals) : Prop where
  length : s.login.nfa ≤ s.login.fa.length
  main : l.mainAkaOk = true → ∀ n ∈ s.toNode, CalledActive n s.login

theorem CalledActive.mono {n : FtnNode} {l l' : Login} (h : CalledActive n l)
    (hmono : ∀ a ∈ l.active, a ∈ l'.active) : CalledActive n l' := by
  obtain ⟨a, ha, hcmp⟩ := h
  exact ⟨a, hmono a ha, hcmp⟩

theorem AdrMove.lists {w : Str} {l l' : AdrLocals} (h : AdrMove config env w s l s' l')
    (hto : s'.toNode = s.toNode) (hl : AdrLists s l) :
    AdrLists s' l' ∧ ∀ a ∈ s.login.active, a ∈ s'.login.active := by
  cases h with
  | dropped hfa hnfa _ hmain =>
    have hactive : s'.login.active = s.login.active := by rw [Login.active, hfa, hnfa, Login.active]
    refine ⟨⟨by rw [hfa, hnfa]; exact hl.length, fun hm n hn => ?_⟩, fun a ha => by rwa [hactive]⟩
    exact (hl.main (hmain ▸ hm) n (hto ▸ hn)).mono fun a ha => by rwa [hactive]
  | busy a _ _ hfa hnfa _ hmain =>
    have hactive : s'.login.active = s.login.active := by
      rw [Login.active, hfa, hnfa, List.take_append_of_le_length hl.length, Login.active]
    refine ⟨⟨?_, fun hm n hn => ?_⟩, fun a ha => by rwa [hactive]⟩
    · rw [hfa, hnfa, List.length_append]
      exact Nat.le_add_right_of_le hl.length
    · exact (hl.main (hmain ▸ hm) n (hto ▸ hn)).mono fun a ha => by rwa [hactive]
  | active a _ _ _ hfa hnfa _ hmain =>
    obtain ⟨htake, -, hlen⟩ := insert_lists hl.length a
    have hactive : s'.login.active = s.login.active ++ [a] := by
      rw [Login.active, hfa, hnfa, htake, Login.active]
    have hkeep : ∀ b ∈ s.login.active, b ∈ s'.login.active := by
      rw [hactive]
      exact fun b hb => List.mem_append_left _ hb
    refine ⟨⟨by rw [hfa, hnfa]; exact hlen, fun hm n hn => ?_⟩, hkeep⟩
    rcases hmain hm with hm | ⟨n', hn', hcmp⟩
    · exact (hl.main hm n (hto ▸ hn)).mono hkeep
    · rw [hto] at hn
      obtain rfl : n = n' := Option.some.inj (hn.symm.trans hn')
      exact ⟨a, by rw [hactive]; simp, hcmp⟩

/-- Nothing that the lists say is lost while the login and the node stay. -/
theorem AdrLists.of_eq {l : AdrLocals} (h : AdrLists s l) (hto : s'.toNode = s.toNode)
    (hfa : s'.login.fa = s.login.fa) (hnfa : s'.login.nfa = s.login.nfa) : AdrLists s' l := by
  have hactive : s'.login.active = s.login.active := by rw [Login.active, hfa, hnfa, Login.active]
  refine ⟨by rw [hfa, hnfa]; exact h.length, fun hm n hn => ?_⟩
  exact (h.main hm n (hto ▸ hn)).mono fun a ha => by rwa [hactive]

/-- The loop of `ADR` keeps the lists in order and loses no active address. -/
theorem adrLoop_lists {ws : List Str} (hlen : s.login.nfa ≤ s.login.fa.length) :
    (∀ s1 l1, adrLoop config env ws s {} = .next s1 l1 →
      AdrLists s1 l1 ∧ ∀ a ∈ s.login.active, a ∈ s1.login.active) ∧
    ∀ s1, adrLoop config env ws s {} = .stop s1 →
      s1.login.nfa ≤ s1.login.fa.length ∧ ∀ a ∈ s.login.active, a ∈ s1.login.active := by
  have hrule := @adrLoop_moves config env
    (fun _ a la => AdrLists a la ∧ ∀ x ∈ s.login.active, x ∈ a.login.active) ws s {}
    ⟨⟨hlen, by simp⟩, fun _ hx => hx⟩ ?_ ?_
  · refine ⟨hrule.1, fun s1 hstop => ?_⟩
    obtain ⟨_, _, _, -, hl, hmono⟩ := hrule.2 s1 hstop
    exact ⟨hl.length, hmono⟩
  · rintro done w a la b lb - hframe hmove ⟨hl, hmono⟩
    obtain ⟨hl', hmono'⟩ := hmove.lists hframe.toNode hl
    exact ⟨hl', fun x hx => hmono' x (hmono x hx)⟩
  · rintro done a la b hframe hstill ⟨hl, hmono⟩
    refine ⟨hl.of_eq hframe.toNode hstill.fa hstill.nfa, fun x hx => ?_⟩
    rw [Login.active, hstill.fa, hstill.nfa]
    exact hmono x hx

/-- `ADR` loses no active address, whichever way it ends. -/
theorem ADR_active (config : BinkdConfig) (env : Env) (buf : List Byte)
    (hlen : s.login.nfa ≤ s.login.fa.length) :
    (ADR config env buf s).1.login.nfa ≤ (ADR config env buf s).1.login.fa.length ∧
    ∀ a ∈ s.login.active, a ∈ (ADR config env buf s).1.login.active := by
  have hexp : (adrExpect s).login.fa = s.login.fa ∧ (adrExpect s).login.nfa = s.login.nfa := by
    unfold adrExpect
    split <;> exact ⟨rfl, rfl⟩
  have hactive : (adrExpect s).login.active = s.login.active := by
    rw [Login.active, hexp.1, hexp.2, Login.active]
  have hloop := @adrLoop_lists config env (adrExpect s) (adrWords config env buf)
    (by rw [hexp.1, hexp.2]; exact hlen)
  rw [hactive] at hloop
  unfold ADR
  split
  · exact ⟨hlen, fun a ha => ha⟩
  · split
    · next s1 heq => exact hloop.2 s1 heq
    · next s1 l1 heq =>
      obtain ⟨hl, hmono⟩ := hloop.1 s1 l1 heq
      obtain ⟨hfa, hnfa⟩ := adrEnd_lists config env s1 l1
      have hend : (adrEnd config env s1 l1).1.login.active = s1.login.active := by
        rw [Login.active, hfa, hnfa, Login.active]
      rw [hend, hfa, hnfa]
      exact ⟨hl.length, hmono⟩

/-- What `ADR` does on the calling side once the called address is found. -/
theorem adrCall_outcome (n : FtnNode) (h : (adrCall config env n s).2 = true) : ∃ disk q link m,
    (adrCall config env n s).1 = { s with
      disk := disk, tx := { s.tx with q := q }, link := link, login := { s.login with mdFlag := m } } ∧
    ((∃ challenge ∈ s.login.mdChallenge, .msg M_PWD (mdBuildDigest n.outPwdText challenge) ∈ link.log) ∨
      s.login.mdChallenge = none ∧ .msg M_PWD n.outPwdText ∈ link.log ∧
      ¬ (n.mdFlag = .on ∧ config.noMD5 = false)) := by
  obtain ⟨disk, q, link, heq, -, -⟩ := doPrescan_spec config env s
  unfold adrCall at h ⊢
  dsimp only at h ⊢
  rw [heq] at h ⊢
  dsimp only at h ⊢
  split
  · next challenge hc =>
    refine ⟨disk, q, link.queue s.login.cryptFlag (.msg M_PWD (mdBuildDigest n.outPwdText challenge ++ [])),
      1, rfl, .inl ⟨challenge, hc, ?_⟩⟩
    simp [Link.queue]
  · next hc =>
    rw [hc] at h
    dsimp only at h
    split at h
    · contradiction
    · next hmd =>
      rw [if_neg hmd]
      refine ⟨disk, q, link.queue s.login.cryptFlag (.msg M_PWD (n.outPwdText ++ [])),
        s.login.mdFlag, rfl,
        .inr ⟨hc, ?_, by simpa using hmd⟩⟩
      simp [Link.queue]

/-- An `M_ADR` that the calling side accepts. -/
theorem ADR_call {n : FtnNode} (hto : s.toNode = some n)
    (hlive : (ADR config env buf s).2 = true) : ∃ s1 l1,
      adrLoop config env (adrWords config env buf) (adrExpect s) {} = .next s1 l1 ∧
      l1.mainAkaOk = true ∧ (adrCall config env n s1).2 = true ∧
      (ADR config env buf s).1 = (adrCall config env n s1).1 := by
  have hframe := (adrExpect_frame s).trans
    (adrLoop_frame config env (adrWords config env buf) (adrExpect s) {})
  unfold ADR at hlive ⊢
  split
  · next hws => simp [hws] at hlive
  · split
    · next hws s1 hs => simp [hs] at hlive
    · next hws s1 l1 hs =>
      simp only [hs] at hlive
      rw [hs] at hframe
      have hto1 : s1.toNode = some n := hframe.toNode.trans hto
      refine ⟨s1, l1, hs, ?_⟩
      unfold adrEnd at hlive ⊢
      rw [hto1] at hlive ⊢
      split_ifs at hlive ⊢ with h1 h2 h3
      · exact ⟨by simpa using h2, hlive, rfl⟩

/-! ### The invariant -/

/-- A session on the calling side that has active addresses has found the called one among
them and has presented its password. -/
structure CallInv (config : BinkdConfig) (n : FtnNode) (s : State) : Prop where
  toNode : s.toNode = some n
  length : s.login.nfa ≤ s.login.fa.length
  called : s.login.nfa ≠ 0 → CalledActive n s.login ∧ PwdSent config n s.link.log
  logged : s.login.state ≠ .null → s.login.nfa ≠ 0

/-- What is left of it when a handler has stopped the session. -/
def LoginOrder (config : BinkdConfig) (n : FtnNode) (s : State) : Prop :=
  s.login.state ≠ .null → CalledActive n s.login ∧ PwdSent config n s.link.log

theorem CallInv.order {n : FtnNode} (h : CallInv config n s) : LoginOrder config n s :=
  fun hstate => h.called (h.logged hstate)

/-- The lists stay, and the log grows. -/
theorem CallInv.same {n : FtnNode} (h : CallInv config n s) (hto : s'.toNode = s.toNode)
    (hfa : s'.login.fa = s.login.fa) (hnfa : s'.login.nfa = s.login.nfa)
    (hstate : s'.login.state ≠ .null → s.login.nfa ≠ 0) (hlog : s.link.log <:+ s'.link.log) :
    CallInv config n s' := by
  have hactive : s'.login.active = s.login.active := by rw [Login.active, hfa, hnfa, Login.active]
  refine ⟨hto.trans h.toNode, by rw [hfa, hnfa]; exact h.length, fun hne => ?_, fun hne => ?_⟩
  · rw [hnfa] at hne
    obtain ⟨hcalled, hsent⟩ := h.called hne
    exact ⟨hcalled.mono fun a ha => by rwa [hactive], hsent.mono hlog⟩
  · rw [hnfa]
    exact hstate hne

theorem CallInv.act {n : FtnNode} (h : CallInv config n s) (hact : Act config env s s') :
    CallInv config n s' := by
  obtain ⟨_, _, hl⟩ := hact.frame.login
  refine h.same hact.frame.toNode (by rw [hl]) (by rw [hl]) (fun hne => h.logged ?_) hact.log_suffix
  rwa [hl] at hne

theorem CallInv.adr {n : FtnNode} (h : CallInv config n s) :
    ((ADR config env buf s).2 = true → CallInv config n (ADR config env buf s).1) ∧
    LoginOrder config n (ADR config env buf s).1 := by
  have hframe := ADR_frame config env buf s
  obtain ⟨hlen, hmono⟩ := ADR_active config env buf h.length
  have hstate : (ADR config env buf s).1.login.state = s.login.state := by
    obtain ⟨_, _, _, _, _, _, _, _, hl⟩ := hframe.login
    rw [hl]
  refine ⟨fun hlive => ⟨hframe.toNode.trans h.toNode, hlen, fun _ => ?_, fun hne => ?_⟩, fun hne => ?_⟩
  · obtain ⟨s1, l1, hloop, hmain, hcall, heq⟩ := ADR_call h.toNode hlive
    have hexp : (adrExpect s).login.fa = s.login.fa ∧ (adrExpect s).login.nfa = s.login.nfa := by
      unfold adrExpect
      split <;> exact ⟨rfl, rfl⟩
    have hlists := (@adrLoop_lists config env (adrExpect s) (adrWords config env buf)
      (by rw [hexp.1, hexp.2]; exact h.length)).1 s1 l1 hloop
    have hto1 : s1.toNode = some n := by
      have hloopFrame := (adrExpect_frame s).trans
        (adrLoop_frame config env (adrWords config env buf) (adrExpect s) {})
      rw [hloop] at hloopFrame
      exact hloopFrame.toNode.trans h.toNode
    obtain ⟨disk, q, link, m, hs, hsent⟩ := adrCall_outcome n hcall
    rw [heq, hs]
    refine ⟨hlists.1.main hmain n hto1, ?_⟩
    rcases hsent with ⟨challenge, -, hmem⟩ | ⟨-, hmem, hmd⟩
    · exact .inl ⟨challenge, hmem⟩
    · exact .inr ⟨hmem, hmd⟩
  · -- the session was logged in before, so that there were active addresses
    rw [hstate] at hne
    obtain ⟨⟨a, ha, -⟩, -⟩ := h.order hne
    intro hzero
    have hmem := hmono a ha
    simp [Login.active, hzero] at hmem
  · rw [hstate] at hne
    obtain ⟨hcalled, hsent⟩ := h.order hne
    exact ⟨hcalled.mono hmono, hsent.mono hframe.link.log_suffix⟩

/-- `M_OK` comes after an `M_ADR`. -/
def AdrFirst (config : BinkdConfig) (i : Input) (s : State) : Prop :=
  Meets config (fun a t _ => t = M_OK → a.login.nfa ≠ 0) i s

instance (config : BinkdConfig) (i : Input) (s : State) : Decidable (AdrFirst config i s) :=
  inferInstanceAs (Decidable (Meets config _ i s))

theorem CallInv.message {n : FtnNode} (h : CallInv config n s) (hok : t = M_OK → s.login.nfa ≠ 0) :
    ((handle config env t buf s).2 = true → CallInv config n (handle config env t buf s).1) ∧
    ((handle config env t buf s).2 = false → LoginOrder config n (stopped (handle config env t buf s).1)) := by
  have hlog := @handle_log_suffix s config env t buf
  by_cases hadr : t = M_ADR
  · subst hadr
    exact ⟨fun hlive => h.adr.1 hlive, fun _ => h.adr.2⟩
  · have hcall : CallInv config n (handle config env t buf s).1 := by
      have hs := handshake config env t buf s
      have hlists := @handle_lists config env t buf s hadr
      generalize (handle config env t buf s).1 = s' at hs hlog hlists
      cases hs with
      | nul =>
        have hk := nulLogin_keeps config s.toNode env.tail buf s.login
        exact h.same rfl hk.fa hk.nfa (fun hne => h.logged fun hnull => hne (hk.state.trans hnull)) hlog
      | adr ht => exact absurd ht hadr
      | pwd =>
        rw [PWD_call config env buf (by simp [h.toNode])]
        exact h
      | ok ht =>
        have hto : (OK config env buf s).1.toNode = s.toNode := by
          unfold OK
          split
          · rfl
          · next n' _ =>
            obtain ⟨_, _, _, heq, -⟩ := completeLogin_spec config env
              { s with login := okLogin n' env.tail buf s.login }
            rw [heq]
        exact h.same hto hlists.1 hlists.2 (fun _ => hok ht) hlog
      | other _ hf =>
        obtain ⟨_, _, hl⟩ := hf.login
        refine h.same hf.toNode (by rw [hl]) (by rw [hl]) (fun hne => h.logged ?_) hlog
        rwa [hl] at hne
    exact ⟨fun _ => hcall, fun _ => hcall.order⟩

/-! ### Runs -/

/-- **The order of the login**: in a run in which no `M_OK` comes before an `M_ADR` that is
accepted, a session on the calling side that has logged in has the called address among the
active ones and has presented its own password, as a digest where the node asks for MD5. -/
theorem login_order (config : BinkdConfig) (env : Env) (disk : Disk) (peerName ipaddr : Str)
    (n : FtnNode) (fa : Option FtnAddr) (s : State) (live : Bool)
    (run : Reachable config (AdrFirst config) (start config env disk peerName ipaddr (some n) fa) s live) :
    s.login.state ≠ .null → CalledActive n s.login ∧ PwdSent config n s.link.log := by
  have hinv : (live = true → CallInv config n s) ∧ LoginOrder config n s := by
    refine run.invariant (fun s live => (live = true → CallInv config n s) ∧ LoginOrder config n s) ?_
      fun i s h hi => ?_
    · have h := start_opening config env disk peerName ipaddr (some n) fa
      obtain ⟨p, c, w, hl, -⟩ := h.login
      have hcall : CallInv config n (start config env disk peerName ipaddr (some n) fa) := by
        refine ⟨h.toNode, by rw [hl]; exact Nat.zero_le _, fun hne => ?_, fun hne => ?_⟩
        · rw [hl] at hne
          exact absurd rfl hne
        · rw [hl] at hne
          exact absurd rfl hne
      exact ⟨fun _ => hcall, hcall.order⟩
    · have hstep := @iterate_induction_stop config (CallInv config n) (LoginOrder config n) i s
        (fun a b hact ha => ha.act hact) (fun a t buf harr ha => ha.message (hi (a, t, buf) harr)) (h.1 rfl)
      rcases hstep with h' | ⟨hstop, h'⟩
      · exact ⟨fun _ => h', h'.order⟩
      · exact ⟨fun hlive => absurd hlive (by simp [hstop]), h'⟩
  exact hinv.2

/-- A node that is called with a password. -/
def calledNode : FtnNode := { fa := aka 1, outPwd := some (str "aa") }

/-- The start of a call to it. -/
def callStart : State := start (fidoConfig [calledNode]) {} ∅ [] [] (some calledNode) none

/-- An `M_OK` at once. -/
theorem earlyOk_logs_in : ∃ s, Reachable (fidoConfig [calledNode]) (fun _ _ => True) callStart s true ∧
    s.login.state ≠ .null ∧ ¬ CalledActive calledNode s.login :=
  ⟨after (iterate (fidoConfig [calledNode])) (Input.message {} M_OK (str "secure")) callStart,
    Run.of_inputs (by decide +kernel), by decide +kernel, by decide +kernel⟩

/-- A login in order. -/
def orderlyCall : State :=
  after (iterate (fidoConfig [calledNode]))
    (Input.message {} M_ADR (str "2:5020/1") ++ Input.message {} M_OK (str "secure")) callStart

/-- It has presented the password of the node. -/
theorem login_order_aa : orderlyCall.login.state ≠ .null ∧ (orderlyCall.login.state ≠ .null →
    CalledActive calledNode orderlyCall.login ∧
    PwdSent (fidoConfig [calledNode]) calledNode orderlyCall.link.log) :=
  ⟨by decide +kernel, login_order (fidoConfig [calledNode]) {} ∅ [] [] calledNode none orderlyCall true
    (Run.of_inputs (by decide +kernel))⟩

end Binkd
