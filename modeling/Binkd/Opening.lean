import Binkd.Round

/-!
# The state in which a session starts

`start` queues the messages of `banner` and settles nothing yet: the session has no
file, has received nothing, and its login is the one of `initProtocol` but for our
addresses, the challenge, and the wish for NR mode.
-/

namespace Binkd

open Lib

variable (config : BinkdConfig) (to_ : Option FtnNode) (fa : Option FtnAddr)

/-- What `banner` leaves as it was. -/
structure Opening (s : State) : Prop where
  toNode : s.toNode = to_
  remoteFa : s.remoteFa = fa
  login : ∃ p c w, s.login = { (initProtocol config to_ fa).login with
      pAddr := p, mdChallenge := c
      nrFlag := { (initProtocol config to_ fa).login.nrFlag with want := w } } ∧
    (to_.isSome → c = none)
  link : Queues (·.isReply) s.login.cryptFlag {} s.link
  tx : s.tx = {}
  rx : s.rx = { inbound := config.inboundNonsecure }
  ops : s.ops = []

variable {config to_ fa}

theorem Opening.cryptFlag {s : State} (h : Opening config to_ fa s) :
    s.login.cryptFlag = { we := !config.noCrypt } := by
  obtain ⟨p, c, w, hl, -⟩ := h.login
  rw [hl]
  rfl

theorem Opening.send {s : State} (h : Opening config to_ fa s) {m : Byte} {a b : Str}
    (hm : m ≠ M_FILE) : Opening config to_ fa (msgSend2 m a b s) :=
  ⟨h.toNode, h.remoteFa, h.login, h.link.trans (.one (by simpa [Item.isReply] using hm) _), h.tx, h.rx,
    h.ops⟩

theorem Opening.addresses {s : State} (h : Opening config to_ fa s) (p : Option (List FtnAddr)) :
    Opening config to_ fa { s with login := { s.login with pAddr := p } } := by
  obtain ⟨_, c, w, hl, hc⟩ := h.login
  refine ⟨h.toNode, h.remoteFa, ⟨p, c, w, ?_, hc⟩, h.link, h.tx, h.rx, h.ops⟩
  dsimp only
  rw [hl]

theorem bannerInfo_opening (env : Env) {s : State} (h : Opening config to_ fa s) :
    Opening config to_ fa (bannerInfo config env s) := by
  unfold bannerInfo msgSendf
  have hm : M_NUL ≠ M_FILE := by decide
  exact (((((h.send hm).send hm).send hm).send hm).send hm).send hm

theorem sendADR_opening {s : State} (h : Opening config to_ fa s) :
    Opening config to_ fa (sendADR config s) := by
  unfold sendADR
  exact (h.addresses _).send (by decide)

theorem autoNr_opening {env : Env} {inbound : Str} {s : State} (h : Opening config to_ fa s) :
    Opening config to_ fa (autoNr config env inbound s) := by
  obtain ⟨want, heq⟩ := autoNr_eq config env inbound s
  obtain ⟨p, c, w, hl, hc⟩ := h.login
  rw [heq]
  refine ⟨h.toNode, h.remoteFa, ⟨p, c, want, ?_, hc⟩, h.link, h.tx, h.rx, h.ops⟩
  dsimp only
  rw [hl]

/-- **The start of a session.** -/
theorem start_opening (config : BinkdConfig) (env : Env) (disk : Disk) (peerName ipaddr : Str)
    (to_ : Option FtnNode) (fa : Option FtnAddr) :
    Opening config to_ fa (start config env disk peerName ipaddr to_ fa) := by
  have hchallenge : ∀ (c : Option (List Byte)), (to_.isSome → c = none) → Opening config to_ fa
      { initProtocol config to_ fa with
        disk := disk, peerName := peerName, ipaddr := ipaddr
        login := { (initProtocol config to_ fa).login with mdChallenge := c } } := fun c hc =>
    ⟨rfl, rfl, ⟨none, c, (initProtocol config to_ fa).login.nrFlag.want, rfl, hc⟩, .refl _ _ _, rfl, rfl, rfl⟩
  have hbanner : Opening config to_ fa (bannerChallenge config env
      { initProtocol config to_ fa with disk := disk, peerName := peerName, ipaddr := ipaddr }) := by
    unfold bannerChallenge
    split
    · next h =>
      simp only [Bool.and_eq_true, Option.isNone_iff_eq_none] at h
      refine (hchallenge (some env.challenge) fun hto => ?_).send (by decide)
      have hnone : to_ = none := h.2
      rw [hnone] at hto
      contradiction
    · exact hchallenge none fun _ => rfl
  have hinfo := bannerInfo_opening env hbanner
  unfold start banner
  dsimp only
  generalize bannerInfo config env _ = s1 at hinfo ⊢
  have hadr : Opening config to_ fa (if s1.toNode.isSome || !s1.login.delayAdr then sendADR config s1 else s1) := by
    split
    · exact sendADR_opening hinfo
    · exact hinfo
  generalize (if s1.toNode.isSome || !s1.login.delayAdr then sendADR config s1 else s1) = s2 at hadr ⊢
  split
  · exact (autoNr_opening hadr).send (by decide)
  · exact hadr

end Binkd
