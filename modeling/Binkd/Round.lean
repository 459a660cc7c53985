import Binkd.Frame.Login
import Binkd.Frame.Receive
import Binkd.Frame.Send
import Binkd.Session

/-!
# One round of the main loop in small steps

A round of the main loop does some things of its own (`Act`): it chooses the next
file, ends a batch, reads bytes, stores a data block, writes.  At most once it
hands a message of the remote to the handler of its command; `arrives` says which
and in which state.  `iterate_acts` cuts a round at that message, and
`iterate_induction` is the rule that the invariants of the session are proved by.
-/

namespace Binkd

open Lib

variable (config : BinkdConfig)

/-! ### The small steps -/

/-- May the next file be chosen? -/
structure State.Ready (s : State) : Prop where
  localEOB : s.tx.localEOB = false
  out : s.tx.out.f = none
  waitingForGOT : s.tx.waitingForGOT = false
  offReqSent : s.tx.offReqSent = false
  state : s.login.state ≠ .null

/-- What a round does without a message of the remote. -/
inductive Act (env : Env) : State → State → Prop
  | outside (s : State) (disk : Disk) : Act env s { s with disk := disk }
  | queued (s : State) {e : Ftnq} {q : Queue} (h : s.Ready) (hq : selectNextFile s.tx.q = some (e, q)) :
      Act env s (startFileTransfer config env (some e) { s with tx := { s.tx with q := q } }).1
  | floLine (s : State) (h : s.Ready) (hflo : s.tx.flo.f.isSome) :
      Act env s (startFileTransfer config env none s).1
  | noFile (s : State) : Act env s { s with tx := { s.tx with q := [] } }
  | eob (s : State) (hout : s.tx.out.f = none) (hstate : s.login.state ≠ .null) :
      Act env s (msgSend2 M_EOB [] [] { s with tx := { s.tx with localEOB := true } })
  | batch (s : State) (h : batchEnded s) : Act env s (endBatch config env s).1
  | ioError (s : State) : Act env s { s with link := { s.link with ioError := true } }
  | read (s : State) (bytes : List Byte) : Act env s (recvBytes bytes s)
  | header (s : State) {imsg : Bool} {size : Nat} (h : s.link.arrived = .header imsg size) :
      Act env s { s with link := { s.link with imsg := imsg, isize := some size, ibuf := [] } }
  | count (s : State) : Act env s { s with link := { s.link with msgsInBatch := s.link.msgsInBatch + 1 } }
  | data (s : State) {block : List Byte} (h : s.link.arrived = .block false block) :
      Act env s (recvData config env block s).1
  | nextHeader (s : State) : Act env s { s with link := s.link.nextHeader }
  | dropBlock (s : State) : Act env s { s with link := { s.link with ibuf := [] } }
  | pend (s : State) (n : Nat) : Act env s { s with link := { s.link with pend := s.link.pend.drop n } }
  | pack (s : State) (hp : s.link.pend = []) (hm : s.link.msgs ≠ []) : Act env s (sendMsgs env s).1
  | block (s : State) (hp : s.link.pend = []) (hm : s.link.msgs = [])
      (h : (s.tx.out.f.isSome && !s.tx.offReqSent && !s.tx.waitingForGOT) || s.tx.sendEof) :
      Act env s (sendData config env s).1

/-- Any number of small steps. -/
abbrev Acts (env : Env) : State → State → Prop := Relation.ReflTransGen (Act config env)

variable {config} {env : Env}

theorem Acts.one {s s' : State} (h : Act config env s s') : Acts config env s s' := .single h

/-! ### The head of a round -/

/-- The state that a round meets, with the next file chosen. -/
def roundHead (config : BinkdConfig) (i : Input) (s : State) : State :=
  sendEOB (nextFile config i.env { s with disk := i.env.outside s.disk })

/-- Without an announcement the next file may still be chosen. -/
theorem startFileTransfer_ready {file : Option Ftnq} {s s' : State} (h : s.Ready)
    (hs : startFileTransfer config env file s = (s', false)) : s'.Ready := by
  have hout := startFileTransfer_outcome config env file s
  rw [hs] at hout
  rcases hout with ⟨⟨_, _, o, _, _, _, _, w, _, rfl, ho, hw, _⟩, -⟩ | ⟨s1, hp, hd, hr⟩
  · refine ⟨h.localEOB, ho, ?_, h.offReqSent, h.state⟩
    cases w with
    | false => rfl
    | true => exact absurd (hw rfl) (by simp [h.waitingForGOT])
  · have h2 := (Prod.ext_iff.mp hr).2
    unfold announce at h2
    rw [if_neg (by simp [hd])] at h2
    simp at h2

theorem nextFileLoop_acts (fuel : Nat) {s : State} (h : s.Ready) :
    Acts config env s (nextFileLoop config env fuel s) := by
  induction fuel generalizing s with
  | zero => exact .refl
  | succ fuel ih =>
    rw [nextFileLoop]
    split
    · next hflo =>
      have hact := @Act.floLine config env s h hflo
      split
      · next s1 hs =>
        rw [hs] at hact
        exact .single hact
      · next s1 hs =>
        rw [hs] at hact
        exact .head hact (ih (startFileTransfer_ready h hs))
    · split
      · exact .single (.noFile s)
      · next file q hq =>
        have hact := @Act.queued config env s _ _ h hq
        split
        · next s1 hs =>
          rw [hs] at hact
          exact .single hact
        · next s1 hs =>
          rw [hs] at hact
          have hq : State.Ready { s with tx := { s.tx with q := q } } :=
            ⟨h.localEOB, h.out, h.waitingForGOT, h.offReqSent, h.state⟩
          exact .head hact (ih (startFileTransfer_ready hq hs))

theorem nextFile_acts (s : State) : Acts config env s (nextFile config env s) := by
  unfold nextFile
  split
  · next h =>
    simp only [Bool.and_eq_true, Bool.not_eq_true', Option.isNone_iff_eq_none, decide_eq_true_eq,
      ne_eq] at h
    obtain ⟨⟨⟨⟨⟨h1, -⟩, h2⟩, h3⟩, h4⟩, h5⟩ := h
    exact nextFileLoop_acts _ ⟨h1, h2, h3, h4, h5⟩
  · exact .refl

theorem sendEOB_acts (s : State) : Acts config env s (sendEOB s) := by
  unfold sendEOB
  split
  · next h =>
    simp only [Bool.and_eq_true, Option.isNone_iff_eq_none, decide_eq_true_eq, ne_eq] at h
    exact .single (.eob s h.1.1.1.1.1 h.1.1.2)
  · exact .refl

theorem roundHead_acts (config : BinkdConfig) (i : Input) (s : State) :
    Acts config i.env s (roundHead config i s) :=
  (Relation.ReflTransGen.head (.outside s (i.env.outside s.disk)) (nextFile_acts _)).trans
    (sendEOB_acts _)

/-! ### The message of a round -/

/-- The message that a round hands to its handler, with the state it does so in. -/
def arrives (config : BinkdConfig) (i : Input) (s : State) : Option (State × Byte × List Byte) :=
  let s := roundHead config i s
  if batchEnded s then none
  else match i.select with
    | .ready (some (.bytes l)) _ =>
      if l = [] ∧ s.link.want > 0 then none
      else
        let s := recvBytes l s
        match s.link.arrived with
        | .block true (t :: buf) =>
          some ({ s with link := { s.link with msgsInBatch := s.link.msgsInBatch + 1 } }, t, buf)
        | _ => none
    | _ => none

/-- The message of a round, if there is one, is as `cond` asks for. -/
def Meets (config : BinkdConfig) (cond : State → Byte → List Byte → Prop) (i : Input) (s : State) : Prop :=
  ∀ m ∈ arrives config i s, cond m.1 m.2.1 m.2.2

instance (config : BinkdConfig) (cond : State → Byte → List Byte → Prop)
    [∀ a t buf, Decidable (cond a t buf)] (i : Input) (s : State) : Decidable (Meets config cond i s) :=
  inferInstanceAs (Decidable (∀ m ∈ arrives config i s, cond m.1 m.2.1 m.2.2))

/-- The two rounds in which a message comes in, its header first. -/
def Input.message (env : Env) (t : Byte) (text : Str) : List Input :=
  [⟨env, .ready (some (.bytes (mkhdr ((text.length + 1) ||| 0x8000)))) none⟩,
    ⟨env, .ready (some (.bytes (t :: text))) none⟩]

/-- What the handler of a message makes of a state; an unknown message changes nothing. -/
def handle (config : BinkdConfig) (env : Env) (t : Byte) (buf : List Byte) (s : State) :
    State × Bool :=
  (command config env t buf s).getD (s, true)

theorem sendBlock_acts (r : SendResult) (s : State) :
    Acts config env s (sendBlock config env r s).1 := by
  unfold sendBlock
  split
  · unfold sendPend
    split
    · exact .single (.pend s _)
    · exact .refl
    · exact .single (.ioError s)
  · next hp =>
    split
    · next hm => exact .single (.pack s (not_not.mp hp) hm)
    · next hm =>
      split
      · next h => exact .single (.block s (not_not.mp hp) (not_not.mp hm) h)
      · exact .refl

/-- A block that is not a message with a type is stored or ignored. -/
theorem processBlock_acts {imsg : Bool} {block : List Byte} {s : State}
    (h : s.link.arrived = .block imsg block) (hm : imsg = false ∨ block = []) :
    Acts config env s (processBlock config env imsg block s).1 := by
  unfold processBlock
  cases imsg with
  | false => exact .single (.data s h)
  | true =>
    obtain rfl := hm.resolve_left (by simp)
    exact .single (.count s)

/-- The state that a round ends in when a handler has stopped the session. -/
def stopped (s : State) : State := { s with link := { s.link with ibuf := [] } }

/-- How a round goes: small steps only, or small steps before and after a message.
Nothing comes behind a handler that stops the session. -/
inductive Round (config : BinkdConfig) (i : Input) (s : State) (r : State × Bool) : Prop
  | quiet (h : arrives config i s = none) (acts : Acts config i.env s r.1)
  | message (a : State) (t : Byte) (buf : List Byte) (h : arrives config i s = some (a, t, buf))
      (before : Acts config i.env s a) (behind : Acts config i.env (handle config i.env t buf a).1 r.1)
      (stop : (handle config i.env t buf a).2 = false → r = (stopped (handle config i.env t buf a).1, false))

/-- The end of `recv_block` gets the buffer ready for the next header, or drops the block. -/
theorem recvArrived_end (config : BinkdConfig) (env : Env) (r : State × Bool) : Acts config env r.1
    (match r with
      | (s, true) => (({ s with link := s.link.nextHeader }, true) : State × Bool)
      | (s, false) => ({ s with link := { s.link with ibuf := [] } }, false)).1 := by
  obtain ⟨s, b⟩ := r
  cases b with
  | true => exact .single (.nextHeader s)
  | false => exact .single (.dropBlock s)

/-- What follows the reading half of a round. -/
theorem exchange_send {r : State × Bool} (send : Option SendResult) : Acts config env r.1
    (match r with
      | (s, false) => (s, false)
      | (s, true) => match send with
        | some r => sendBlock config env r s
        | none => (s, true)).1 := by
  obtain ⟨s, b⟩ := r
  cases b with
  | false => exact .refl
  | true =>
    cases send with
    | none => exact .refl
    | some r => exact sendBlock_acts r s

/-- The message in a complete block. -/
def messageOf (s : State) : Option (State × Byte × List Byte) :=
  match s.link.arrived with
  | .block true (t :: buf) =>
    some ({ s with link := { s.link with msgsInBatch := s.link.msgsInBatch + 1 } }, t, buf)
  | _ => none

/-- The part of a round behind the bytes that have come in. -/
theorem received_round {i : Input} {s s1 : State} {l : List Byte} (hl : ¬ (l = [] ∧ s1.link.want > 0))
    (harr : arrives config i s = messageOf (recvBytes l s1)) (hread : Acts config i.env s (recvBytes l s1))
    (send' : Option SendResult) : Round config i s (exchange config i.env (some (.bytes l)) send' s1) := by
  unfold exchange
  simp only [recvBlock, if_neg hl]
  generalize recvBytes l s1 = s2 at harr hread ⊢
  unfold messageOf at harr
  unfold recvArrived
  cases ha : s2.link.arrived with
  | nothing =>
    rw [ha] at harr
    exact .quiet harr (hread.trans (exchange_send (r := (s2, true)) send'))
  | header imsg size =>
    rw [ha] at harr
    exact .quiet harr ((hread.tail (.header s2 ha)).trans (exchange_send (r := (_, true)) send'))
  | block imsg block =>
    rw [ha] at harr
    dsimp only
    have hend := (recvArrived_end config i.env
      (processBlock config i.env imsg block s2)).trans (exchange_send send')
    by_cases hm : imsg = false ∨ block = []
    · have hnone : arrives config i s = none := by
        rw [harr]
        rcases hm with rfl | rfl
        · rfl
        · cases imsg <;> rfl
      exact .quiet hnone ((hread.trans (processBlock_acts ha hm)).trans hend)
    · obtain ⟨t, buf, rfl⟩ := List.exists_cons_of_ne_nil (not_or.mp hm).2
      obtain rfl : imsg = true := by simpa using (not_or.mp hm).1
      refine .message _ t buf harr (hread.tail (.count s2)) hend fun hstop => ?_
      have hb : (processBlock config i.env true (t :: buf) s2).2 = false := hstop
      rw [← Prod.eta (processBlock config i.env true (t :: buf) s2), hb]
      rfl

theorem iterate_acts (config : BinkdConfig) (i : Input) (s : State) :
    Round config i s (iterate config i s) := by
  have hhead := roundHead_acts config i s
  unfold iterate
  dsimp only
  have hfold : sendEOB (nextFile config i.env { s with disk := i.env.outside s.disk }) = roundHead config i s := rfl
  rw [hfold]
  generalize hs1 : roundHead config i s = s1 at hhead ⊢
  have harr : arrives config i s = (if batchEnded s1 then none
    else match i.select with
      | .ready (some (.bytes l)) _ =>
        if l = [] ∧ s1.link.want > 0 then none
        else messageOf (recvBytes l s1)
      | _ => none) := by
    rw [← hs1]
    unfold messageOf
    rfl
  cases hb : batchEnded s1 with
  | true =>
    rw [hb] at harr
    exact .quiet harr (hhead.tail (.batch s1 hb))
  | false =>
    rw [hb, if_neg (by simp)] at harr
    rw [if_neg (by simp)]
    cases hsel : i.select with
    | timeout =>
      rw [hsel] at harr
      exact .quiet harr (hhead.tail (.ioError s1))
    | error =>
      rw [hsel] at harr
      exact .quiet harr (hhead.tail (.ioError s1))
    | ready recv send =>
      rw [hsel] at harr
      dsimp only
      generalize (if wantWrite s1 = true then send else none) = send'
      cases recv with
      | none => exact .quiet harr (hhead.trans (exchange_send (r := (s1, true)) send'))
      | some r =>
        cases r with
        | wouldBlock => exact .quiet harr (hhead.trans (exchange_send (r := (s1, true)) send'))
        | error => exact .quiet harr (hhead.tail (.ioError s1))
        | bytes l =>
          by_cases hl : l = [] ∧ s1.link.want > 0
          · dsimp only at harr
            rw [if_pos hl] at harr
            simp only [exchange, recvBlock, if_pos hl]
            exact .quiet harr (hhead.tail (.ioError s1))
          · dsimp only at harr
            rw [if_neg hl] at harr
            exact received_round hl harr (hhead.tail (.read s1 l)) send'

/-- A handler has not stopped a session that goes on. -/
theorem Round.handled_live {config : BinkdConfig} {i : Input} {s a : State} {r : State × Bool} {t : Byte}
    {buf : List Byte} (h : Round config i s r) (harr : arrives config i s = some (a, t, buf))
    (hlive : r.2 = true) : (handle config i.env t buf a).2 = true := by
  cases h with
  | quiet hnone => simp [hnone] at harr
  | message a' t' buf' harr' _ _ stop =>
    rw [harr] at harr'
    simp only [Option.some.injEq, Prod.mk.injEq] at harr'
    obtain ⟨rfl, rfl, rfl⟩ := harr'
    by_contra hne
    rw [stop (by simpa using hne)] at hlive
    contradiction

/-- What every small step keeps. -/
theorem Acts.keeps {Inv : State → Prop} {a b : State} (h : Acts config env a b)
    (act : ∀ a b, Act config env a b → Inv a → Inv b) (ha : Inv a) : Inv b := by
  induction h with
  | refl => exact ha
  | tail _ hstep ih => exact act _ _ hstep ih

/-- Small steps lead to a message. -/
theorem arrives_acts {i : Input} {s a : State} {t : Byte} {buf : List Byte}
    (h : arrives config i s = some (a, t, buf)) : Acts config i.env s a := by
  cases iterate_acts config i s with
  | quiet hnone => simp [hnone] at h
  | message a' t' buf' harr before =>
    rw [h] at harr
    simp only [Option.some.injEq, Prod.mk.injEq] at harr
    obtain ⟨rfl, -, -⟩ := harr
    exact before

/-- **The rule for invariants**: what the small steps and the handlers keep is kept by
a round. -/
theorem iterate_induction {Inv : State → Prop} {i : Input} {s : State}
    (act : ∀ a b, Act config i.env a b → Inv a → Inv b)
    (message : ∀ a t buf, arrives config i s = some (a, t, buf) →
      Inv a → Inv (handle config i.env t buf a).1)
    (h : Inv s) : Inv (iterate config i s).1 := by
  cases iterate_acts config i s with
  | quiet _ hacts => exact hacts.keeps act h
  | message a t buf harr before behind _ => exact behind.keeps act (message a t buf harr (before.keeps act h))

/-- The rule for an invariant that a handler may break when it stops the session. -/
theorem iterate_induction_stop {Inv Dead : State → Prop} {i : Input} {s : State}
    (act : ∀ a b, Act config i.env a b → Inv a → Inv b)
    (message : ∀ a t buf, arrives config i s = some (a, t, buf) → Inv a →
      ((handle config i.env t buf a).2 = true → Inv (handle config i.env t buf a).1) ∧
      ((handle config i.env t buf a).2 = false → Dead (stopped (handle config i.env t buf a).1)))
    (h : Inv s) : Inv (iterate config i s).1 ∨
      (iterate config i s).2 = false ∧ Dead (iterate config i s).1 := by
  cases iterate_acts config i s with
  | quiet _ hacts => exact .inl (hacts.keeps act h)
  | message a t buf harr before behind stop =>
    obtain ⟨hgo, hend⟩ := message a t buf harr (before.keeps act h)
    cases hflag : (handle config i.env t buf a).2 with
    | true => exact .inl (behind.keeps act (hgo hflag))
    | false =>
      rw [stop hflag]
      exact .inr ⟨rfl, hend hflag⟩

/-! ### What the small steps leave alone -/

/-- What every small step keeps, and whose files it may queue. -/
structure ActFrame (s s' : State) : Prop where
  toNode : s'.toNode = s.toNode
  remoteFa : s'.remoteFa = s.remoteFa
  login : ∃ d t, s'.login =
    { s.login with delayEob := d, nrFlag := { s.login.nrFlag with they := t } }
  q : ∀ e ∈ s'.tx.q, (∃ e' ∈ s.tx.q, e'.fa = e.fa) ∨ s.login.fa.head? = some e.fa ∨
    e.fa ∈ s.login.active
  inbound : s'.rx.inbound = s.rx.inbound

namespace ActFrame

theorem of_recv {s s' : State} (h : RecvFrame s s') : ActFrame s s' := by
  obtain ⟨q, hq, ha⟩ := h.tx
  refine ⟨h.toNode, h.remoteFa, h.login, fun e he => ?_, h.inbound⟩
  rw [hq] at he
  exact (ha e he).imp (fun h => ⟨e, h, rfl⟩) .inl

theorem of_send {s s' : State} (h : SendFrame s s') : ActFrame s s' :=
  ⟨h.toNode, h.remoteFa, ⟨_, _, h.login⟩, fun e he => .inl ⟨e, h.q ▸ he, rfl⟩, by rw [h.rx]⟩

theorem trans {a b c : State} (h : ActFrame a b) (h' : ActFrame b c) : ActFrame a c := by
  obtain ⟨d, t, hl⟩ := h.login
  obtain ⟨d', t', hl'⟩ := h'.login
  have hfa : b.login.fa = a.login.fa := by rw [hl]
  have hactive : b.login.active = a.login.active := by rw [hl]; rfl
  refine ⟨h'.toNode.trans h.toNode, h'.remoteFa.trans h.remoteFa, ⟨d', t', by rw [hl', hl]⟩,
    fun e he => ?_, h'.inbound.trans h.inbound⟩
  rcases h'.q e he with ⟨e', he', hfe⟩ | hhead
  · rw [← hfe]
    exact h.q e' he'
  · rw [hfa, hactive] at hhead
    exact .inr hhead

end ActFrame

theorem processRcvdlist_frame (config : BinkdConfig) (env : Env) (s : State) :
    EvtFrame s (processRcvdlist config env s).2 ∧
    AddsOnly (fun a => s.login.fa.head? = some a) s.tx.q (processRcvdlist config env s).1 := by
  unfold processRcvdlist
  have hloop : ∀ (l : List Str) (qs : Queue × State), qs.2.login = s.login →
      AddsOnly (fun a => s.login.fa.head? = some a) qs.1
        (l.foldl (fun qs name => evtRun config env name true qs) qs).1 := by
    intro l
    induction l with
    | nil => exact fun qs _ => .refl _ _
    | cons name l ih =>
      intro qs hl
      have h1 := evtRun_fa config env name true qs
      rw [hl] at h1
      exact h1.trans (ih _ ((evtRun_frame config env name true qs).login.trans hl))
  exact ⟨EvtFrame.foldl Prod.snd _ (fun qs name => evtRun_frame config env name true qs) (s.tx.q, s),
    hloop _ _ rfl⟩

/-- What the end of a batch changes: the queue, the lists of pending work, and the
flags of the batch. -/
structure BatchFrame (s s' : State) : Prop where
  toNode : s'.toNode = s.toNode
  remoteFa : s'.remoteFa = s.remoteFa
  login : s'.login = s.login
  link : ∃ n, s'.link = { s.link with msgsInBatch := n }
  tx : ∃ q k a eob, s'.tx = { s.tx with q := q, killlist := k, ndAddr := a, localEOB := eob }
  rx : ∃ r e eob, s'.rx = { s.rx with rcvdlist := r, evtQueue := e, remoteEOB := eob }
  ops : s'.ops = s.ops
  q : ∀ e ∈ s'.tx.q, (∃ e' ∈ s.tx.q, e'.fa = e.fa) ∨ s.login.fa.head? = some e.fa ∨
    e.fa ∈ s.login.active

theorem BatchFrame.trans {a b c : State} (h : BatchFrame a b) (h' : BatchFrame b c) :
    BatchFrame a c := by
  obtain ⟨_, hl⟩ := h.link
  obtain ⟨_, hl'⟩ := h'.link
  obtain ⟨_, _, _, _, ht⟩ := h.tx
  obtain ⟨_, _, _, _, ht'⟩ := h'.tx
  obtain ⟨_, _, _, hr⟩ := h.rx
  obtain ⟨_, _, _, hr'⟩ := h'.rx
  refine ⟨h'.toNode.trans h.toNode, h'.remoteFa.trans h.remoteFa, h'.login.trans h.login,
    ⟨_, by rw [hl', hl]⟩, ⟨_, _, _, _, by rw [ht', ht]⟩, ⟨_, _, _, by rw [hr', hr]⟩,
    h'.ops.trans h.ops, fun e he => ?_⟩
  rcases h'.q e he with ⟨e', he', hfe⟩ | hhead
  · rw [← hfe]
    exact h.q e' he'
  · rw [h.login] at hhead
    exact .inr hhead

theorem batchRequests_frame (config : BinkdConfig) (env : Env) (s : State) :
    BatchFrame s (batchRequests config env s) := by
  unfold batchRequests
  split
  · exact ⟨rfl, rfl, rfl, ⟨_, rfl⟩, ⟨_, _, _, _, rfl⟩, ⟨_, _, _, rfl⟩, rfl,
      fun e he => .inl ⟨e, he, rfl⟩⟩
  · obtain ⟨hf, hq⟩ := processRcvdlist_frame config env s
    generalize processRcvdlist config env s = r at hf hq
    obtain ⟨q, s1⟩ := r
    obtain ⟨r, e, hr⟩ := hf.rx
    dsimp only at hf hq hr ⊢
    refine ⟨hf.toNode, hf.remoteFa, hf.login, ⟨s.link.msgsInBatch, ?_⟩,
      ⟨(qToKilllist q s1.tx.killlist).1, (qToKilllist q s1.tx.killlist).2, s.tx.ndAddr, s.tx.localEOB, ?_⟩,
      ⟨[], e, s.rx.remoteEOB, ?_⟩, hf.ops, fun e he => ?_⟩
    · dsimp only
      rw [hf.link]
    · dsimp only
      rw [hf.tx]
    · dsimp only
      rw [hr]
    · simp only [qToKilllist, List.mem_map] at he
      obtain ⟨e', he', rfl⟩ := he
      have hfa : (if e'.action = 97 then { e' with action := 0 } else e').fa = e'.fa := by
        split <;> rfl
      rw [hfa]
      exact (hq e' he').imp (fun h => ⟨e', h, rfl⟩) .inl

theorem nextBatch_frame (config : BinkdConfig) (env : Env) (s : State) :
    BatchFrame s (nextBatch config env s) := by
  unfold nextBatch
  dsimp only
  split
  · have hq := qScanBoxes_fa config env s.login.active s.toNode.isSome (s.tx.q, s.disk)
    refine ⟨rfl, rfl, rfl, ⟨_, rfl⟩, ⟨_, _, _, _, rfl⟩, ⟨_, _, _, rfl⟩, rfl, fun e he => ?_⟩
    exact (hq e ((qSort_perm _ _).mem_iff.mp he)).imp (fun h => ⟨e, h, rfl⟩) .inr
  · exact ⟨rfl, rfl, rfl, ⟨_, rfl⟩, ⟨_, _, _, _, rfl⟩, ⟨_, _, _, rfl⟩, rfl,
      fun e he => .inl ⟨e, he, rfl⟩⟩

theorem endBatch_frame (config : BinkdConfig) (env : Env) (s : State) :
    BatchFrame s (endBatch config env s).1 := by
  have h := batchRequests_frame config env s
  unfold endBatch
  dsimp only
  split
  · exact h.trans ⟨rfl, rfl, rfl, ⟨_, rfl⟩, ⟨_, _, _, _, rfl⟩, ⟨_, _, _, rfl⟩, rfl,
      fun e he => .inl ⟨e, he, rfl⟩⟩
  · exact h.trans (nextBatch_frame config env _)

/-- What a step that writes a data block changes. -/
theorem sendData_spec (config : BinkdConfig) (env : Env) (s : State) :
    ∃ out sent w eof z od ob link, (sendData config env s).1 = { s with link := link, tx := { s.tx with
      out := out, sentFls := sent, waitingForGOT := w, sendEof := eof, zSend := z, zOdata := od
      zObuf := ob } } := by
  have hblock : ∀ h payload s1, fileBlock config env h s = some (payload, s1) →
      ∃ out z od ob, s1 = { s with tx := { s.tx with out := out, zSend := z, zOdata := od, zObuf := ob } } := by
    intro h payload s1 heq
    unfold fileBlock at heq
    split at heq
    · unfold plainBlock at heq
      split at heq
      · contradiction
      · simp only [Option.some.injEq, Prod.mk.injEq] at heq
        exact ⟨_, _, _, _, heq.2.symm⟩
    · unfold zBlock at heq
      dsimp only at heq
      split at heq
      · contradiction
      · split at heq
        · contradiction
        · simp only [Option.some.injEq, Prod.mk.injEq] at heq
          exact ⟨_, _, _, _, heq.2.symm⟩
  unfold sendData
  split
  · exact ⟨_, _, _, _, _, _, _, _, rfl⟩
  · split
    · exact ⟨_, _, _, _, _, _, _, _, rfl⟩
    · next payload s1 heq =>
      obtain ⟨out, z, od, ob, rfl⟩ := hblock _ _ _ heq
      dsimp only
      split
      · exact ⟨_, _, _, _, _, _, _, _, rfl⟩
      · exact ⟨_, _, _, _, _, _, _, _, rfl⟩

theorem sendMsgs_spec (env : Env) (s : State) : ∃ pend msgs, (sendMsgs env s).1 =
    { s with link := { s.link with pend := pend, msgs := msgs } } := by
  unfold sendMsgs
  split <;> exact ⟨_, _, rfl⟩

/-- Every small step keeps the frame. -/
theorem Act.frame {config : BinkdConfig} {env : Env} {s s' : State} (h : Act config env s s') :
    ActFrame s s' := by
  have same : ∀ {s s' : State}, s'.toNode = s.toNode → s'.remoteFa = s.remoteFa → s'.login = s.login →
      s'.tx.q = s.tx.q → s'.rx.inbound = s.rx.inbound → ActFrame s s' :=
    fun h1 h2 h3 h4 h5 => ⟨h1, h2, ⟨_, _, h3⟩, fun e he => .inl ⟨e, h4 ▸ he, rfl⟩, h5⟩
  cases h with
  | outside disk => exact same rfl rfl rfl rfl rfl
  | queued _ hq =>
    refine ActFrame.trans ?_ (.of_send (startFileTransfer_frame config env _ _))
    exact ⟨rfl, rfl, ⟨_, _, rfl⟩, fun x hx => .inl ((selectNextFile_mem hq).2 x hx), rfl⟩
  | floLine => exact .of_send (startFileTransfer_frame config env none s)
  | noFile => exact ⟨rfl, rfl, ⟨_, _, rfl⟩, fun e he => absurd he List.not_mem_nil, rfl⟩
  | eob => exact same rfl rfl rfl rfl rfl
  | batch =>
    have hb := endBatch_frame config env s
    obtain ⟨_, _, _, hr⟩ := hb.rx
    exact ⟨hb.toNode, hb.remoteFa, ⟨_, _, hb.login⟩, hb.q, by rw [hr]⟩
  | ioError => exact same rfl rfl rfl rfl rfl
  | read => exact same rfl rfl rfl rfl rfl
  | header => exact same rfl rfl rfl rfl rfl
  | count => exact same rfl rfl rfl rfl rfl
  | data => exact .of_recv (recvData_frame config env _ s)
  | nextHeader => exact same rfl rfl rfl rfl rfl
  | dropBlock => exact same rfl rfl rfl rfl rfl
  | pend => exact same rfl rfl rfl rfl rfl
  | pack =>
    obtain ⟨_, _, heq⟩ := sendMsgs_spec env s
    rw [heq]
    exact same rfl rfl rfl rfl rfl
  | block =>
    obtain ⟨_, _, _, _, _, _, _, _, heq⟩ := sendData_spec config env s
    rw [heq]
    exact same rfl rfl rfl rfl rfl

theorem Acts.frame {config : BinkdConfig} {env : Env} {s s' : State} (h : Acts config env s s') :
    ActFrame s s' := by
  induction h with
  | refl => exact .of_recv (.refl s)
  | tail _ hstep ih => exact ih.trans hstep.frame

/-! ### The handlers -/

/-- Which handler a message goes to. -/
inductive Handled (config : BinkdConfig) (env : Env) (t : Byte) (buf : List Byte) (s : State) :
    State → Prop
  | nul (ht : t = M_NUL) : Handled config env t buf s (NUL config env buf s).1
  | adr (ht : t = M_ADR) : Handled config env t buf s (ADR config env buf s).1
  | pwd (ht : t = M_PWD) : Handled config env t buf s (PWD config env buf s).1
  | file (ht : t = M_FILE) : Handled config env t buf s (startFileRecv config env buf s).1
  | ok (ht : t = M_OK) : Handled config env t buf s (OK config env buf s).1
  | eob (ht : t = M_EOB) : Handled config env t buf s (EOB config env s).1
  | got (ht : t = M_GOT) : Handled config env t buf s (GOT config env buf s).1
  | get (ht : t = M_GET) : Handled config env t buf s (GET config env buf s).1
  | skip (ht : t = M_SKIP) : Handled config env t buf s (SKIP config env buf s).1
  | ignored : Handled config env t buf s s

theorem handled (config : BinkdConfig) (env : Env) (t : Byte) (buf : List Byte) (s : State) :
    Handled config env t buf s (handle config env t buf s).1 := by
  unfold handle command
  split
  · exact .nul rfl
  · exact .adr rfl
  · exact .pwd rfl
  · exact .file rfl
  · exact .ok rfl
  · exact .eob rfl
  · exact .got rfl
  · exact .ignored
  · exact .ignored
  · exact .get rfl
  · exact .skip rfl
  · exact .ignored

/-- The four messages of the handshake; any other keeps the frame of the small steps. -/
inductive Handshake (config : BinkdConfig) (env : Env) (t : Byte) (buf : List Byte) (s : State) :
    State → Prop
  | nul (ht : t = M_NUL) : Handshake config env t buf s (NUL config env buf s).1
  | adr (ht : t = M_ADR) : Handshake config env t buf s (ADR config env buf s).1
  | pwd (ht : t = M_PWD) : Handshake config env t buf s (PWD config env buf s).1
  | ok (ht : t = M_OK) : Handshake config env t buf s (OK config env buf s).1
  | other (s' : State) (h : ActFrame s s') : Handshake config env t buf s s'

theorem handshake (config : BinkdConfig) (env : Env) (t : Byte) (buf : List Byte) (s : State) :
    Handshake config env t buf s (handle config env t buf s).1 := by
  have h := handled config env t buf s
  generalize (handle config env t buf s).1 = s' at h
  cases h with
  | nul ht => exact .nul ht
  | adr ht => exact .adr ht
  | pwd ht => exact .pwd ht
  | ok ht => exact .ok ht
  | file => exact .other _ (.of_recv (startFileRecv_frame config env buf s))
  | eob => exact .other _ (.of_recv (EOB_frame config env s))
  | got => exact .other _ (.of_send (GOT_frame config env buf s))
  | get => exact .other _ (.of_send (GET_frame config env buf s))
  | skip => exact .other _ (.of_send (SKIP_frame config env buf s))
  | ignored => exact .other _ (.of_recv (.refl s))

end Binkd
