import Binkd.Inbound
import Binkd.Output

/-!
# What a function may change

Most of the functions of `protocol.c` change one side of the session only.
`RecvFrame` is what the receiving side may do, `SendFrame` what the sending side
may do: both leave the handshake alone and put messages into the queue, in the
mode the session is in.  The frames compose, so that each handler gets its frame
from those of the functions it calls.
-/

namespace Binkd

open Lib

/-! ### Several messages in a row -/

/-- Messages go into the queue one after the other. -/
def Link.queueAll (crypt : CryptFlag) (items : List Item) (l : Link) : Link :=
  items.foldl (fun l i => l.queue crypt i) l

@[simp] theorem Link.queueAll_nil (crypt : CryptFlag) (l : Link) : l.queueAll crypt [] = l := rfl

@[simp] theorem Link.queueAll_cons (crypt : CryptFlag) (i : Item) (items : List Item) (l : Link) :
    l.queueAll crypt (i :: items) = (l.queue crypt i).queueAll crypt items := rfl

theorem Link.queueAll_append (crypt : CryptFlag) (xs ys : List Item) (l : Link) :
    l.queueAll crypt (xs ++ ys) = (l.queueAll crypt xs).queueAll crypt ys := List.foldl_append

/-- A reply: a message other than `M_FILE`. -/
def Item.isReply : Item → Bool
  | .msg t _ => t ≠ M_FILE
  | _ => false

/-- The link after some messages that `ok` allows. -/
def Queues (ok : Item → Prop) (crypt : CryptFlag) (l l' : Link) : Prop :=
  ∃ items, (∀ i ∈ items, ok i) ∧ l' = l.queueAll crypt items

theorem Queues.refl (ok : Item → Prop) (crypt : CryptFlag) (l : Link) : Queues ok crypt l l :=
  ⟨[], by simp, rfl⟩

theorem Queues.trans {ok : Item → Prop} {crypt : CryptFlag} {a b c : Link}
    (h : Queues ok crypt a b) (h' : Queues ok crypt b c) : Queues ok crypt a c := by
  obtain ⟨xs, hx, rfl⟩ := h
  obtain ⟨ys, hy, rfl⟩ := h'
  refine ⟨xs ++ ys, fun i hi => ?_, (Link.queueAll_append crypt xs ys a).symm⟩
  exact (List.mem_append.mp hi).elim (hx i) (hy i)

theorem Queues.mono {ok ok' : Item → Prop} {crypt : CryptFlag} {a b : Link}
    (h : Queues ok crypt a b) (hok : ∀ i, ok i → ok' i) : Queues ok' crypt a b := by
  obtain ⟨xs, hx, rfl⟩ := h
  exact ⟨xs, fun i hi => hok i (hx i hi), rfl⟩

theorem Queues.one {ok : Item → Prop} {crypt : CryptFlag} {i : Item} (h : ok i) (l : Link) :
    Queues ok crypt l (l.queue crypt i) := ⟨[i], by simpa using h, rfl⟩

/-- What does not depend on the queue is as before. -/
theorem Link.queueAll_log (crypt : CryptFlag) (items : List Item) (l : Link) :
    (l.queueAll crypt items).log = items.reverse ++ l.log := by
  induction items generalizing l with
  | nil => rfl
  | cons i items ih => rw [queueAll_cons, ih]; simp [queue]

/-! ### The receiving side -/

/-- What the receiving side may do.  Of the handshake it changes the count of
delayed `M_EOB`s and the NR mode of the remote; it may queue files that answer a
request. -/
structure RecvFrame (s s' : State) : Prop where
  toNode : s'.toNode = s.toNode
  remoteFa : s'.remoteFa = s.remoteFa
  login : ∃ d t, s'.login =
    { s.login with delayEob := d, nrFlag := { s.login.nrFlag with they := t } }
  link : Queues (·.isReply) s.login.cryptFlag s.link s'.link
  tx : ∃ q, s'.tx = { s.tx with q := q } ∧
    AddsOnly (fun a => s.login.fa.head? = some a) s.tx.q q
  inbound : s'.rx.inbound = s.rx.inbound

namespace RecvFrame

theorem of_eq {s s' : State} (h1 : s'.toNode = s.toNode)
    (h2 : s'.remoteFa = s.remoteFa) (h3 : s'.login = s.login)
    (h4 : s'.link = s.link) (h5 : s'.tx = s.tx)
    (h6 : s'.rx.inbound = s.rx.inbound) : RecvFrame s s' :=
  ⟨h1, h2, ⟨_, _, h3⟩, h4 ▸ .refl _ _ _, ⟨s.tx.q, h5, .refl _ _⟩, h6⟩

theorem refl (s : State) : RecvFrame s s := of_eq rfl rfl rfl rfl rfl rfl

theorem trans {a b c : State} (h : RecvFrame a b) (h' : RecvFrame b c) : RecvFrame a c := by
  obtain ⟨d, t, hl⟩ := h.login
  obtain ⟨d', t', hl'⟩ := h'.login
  obtain ⟨q, hq, ha⟩ := h.tx
  obtain ⟨q', hq', ha'⟩ := h'.tx
  have hc : b.login.cryptFlag = a.login.cryptFlag := by rw [hl]
  have hf : b.login.fa = a.login.fa := by rw [hl]
  refine ⟨h'.toNode.trans h.toNode, h'.remoteFa.trans h.remoteFa, ⟨d', t', ?_⟩,
    h.link.trans (hc ▸ h'.link), ⟨q', ?_, ?_⟩, h'.inbound.trans h.inbound⟩
  · rw [hl', hl]
  · rw [hq', hq]
  · rw [hf, hq] at ha'
    exact ha.trans ha'

theorem of_disk {s s' : State} (h : DiskFrame s s') : RecvFrame s s' :=
  .of_eq h.toNode h.remoteFa h.login h.link h.tx (by rw [h.rx])

/-- The receiving part may change, but not where files go. -/
theorem rx {s s' : State} (h : RecvFrame s s') {rx : Rx}
    (hrx : rx.inbound = s'.rx.inbound) : RecvFrame s { s' with rx := rx } :=
  h.trans (of_eq rfl rfl rfl rfl rfl hrx)

theorem reply {s s' : State} (h : RecvFrame s s') {m : Byte} {a b : Str}
    (hm : m ≠ M_FILE) : RecvFrame s (msgSend2 m a b s') :=
  h.trans ⟨rfl, rfl, ⟨_, _, rfl⟩, .one (by simpa [Item.isReply] using hm) _,
    ⟨s'.tx.q, rfl, .refl _ _⟩, rfl⟩

theorem replyf {s s' : State} (h : RecvFrame s s') {m : Byte} {a : Str}
    (hm : m ≠ M_FILE) : RecvFrame s (msgSendf m a s') := h.reply hm

theorem theyNr {s s' : State} (h : RecvFrame s s') {d : Nat} {t : Bool} : RecvFrame s { s' with login :=
    { s'.login with delayEob := d, nrFlag := { s'.login.nrFlag with they := t } } } :=
  h.trans ⟨rfl, rfl, ⟨_, _, rfl⟩, .refl _ _ _, ⟨_, rfl, .refl _ _⟩, rfl⟩

end RecvFrame

/-! ### The sending side -/

/-- What the sending side may do, apart from what it does to its own part. -/
structure SendFrame (s s' : State) : Prop where
  toNode : s'.toNode = s.toNode
  remoteFa : s'.remoteFa = s.remoteFa
  login : s'.login = s.login
  link : Queues (fun i => i.imsg = true) s.login.cryptFlag s.link s'.link
  q : s'.tx.q = s.tx.q
  rx : s'.rx = s.rx
  ops : s'.ops = s.ops

namespace SendFrame

theorem of_eq {s s' : State} (h1 : s'.toNode = s.toNode)
    (h2 : s'.remoteFa = s.remoteFa) (h3 : s'.login = s.login)
    (h4 : s'.link = s.link) (h5 : s'.tx.q = s.tx.q)
    (h6 : s'.rx = s.rx) (h7 : s'.ops = s.ops) : SendFrame s s' :=
  ⟨h1, h2, h3, h4 ▸ .refl _ _ _, h5, h6, h7⟩

theorem refl (s : State) : SendFrame s s := of_eq rfl rfl rfl rfl rfl rfl rfl

theorem trans {a b c : State} (h : SendFrame a b) (h' : SendFrame b c) : SendFrame a c :=
  ⟨h'.toNode.trans h.toNode, h'.remoteFa.trans h.remoteFa, h'.login.trans h.login,
    h.link.trans (h.login ▸ h'.link), h'.q.trans h.q, h'.rx.trans h.rx, h'.ops.trans h.ops⟩

/-- The sending part may change, but not the queue. -/
theorem tx {s s' : State} (h : SendFrame s s') {tx : Tx} (htx : tx.q = s'.tx.q) :
    SendFrame s { s' with tx := tx } :=
  h.trans (of_eq rfl rfl rfl rfl htx rfl rfl)

theorem disk {s s' : State} (h : SendFrame s s') {disk : Disk} :
    SendFrame s { s' with disk := disk } := h.trans (of_eq rfl rfl rfl rfl rfl rfl rfl)

theorem send {s s' : State} (h : SendFrame s s') {m : Byte} {a b : Str} :
    SendFrame s (msgSend2 m a b s') :=
  h.trans ⟨rfl, rfl, rfl, ⟨[.msg m (a ++ b)], by simp [Item.imsg], rfl⟩, rfl, rfl, rfl⟩

theorem sendf {s s' : State} (h : SendFrame s s') {m : Byte} {a : Str} :
    SendFrame s (msgSendf m a s') := h.send

theorem file {s s' : State} (h : SendFrame s s') {m : FileMsg} : SendFrame s (sendFileMsg m s') :=
  h.trans ⟨rfl, rfl, rfl, ⟨[.file { m with file := { m.file with f := none } }], by simp [Item.imsg], rfl⟩,
    rfl, rfl, rfl⟩

end SendFrame

/-! ### The inbound -/

theorem inbEvents_frame (config : BinkdConfig) (env : Env) (real : Str) (s : State) :
    RecvFrame s (inbEvents config env real s) ∧ (inbEvents config env real s).ops = s.ops := by
  have htest := evtTest_frame config env real s
  unfold inbEvents
  split
  · next s1 heq =>
    rw [heq] at htest
    obtain ⟨r, e, hr⟩ := htest.rx
    have hrun := evtRun_frame config env real (s1.login.delayEob > 0) (s1.tx.q, s1)
    have hfa := evtRun_fa config env real (s1.login.delayEob > 0) (s1.tx.q, s1)
    obtain ⟨r', e', hr'⟩ := hrun.rx
    dsimp only at hrun hfa hr' hr ⊢
    generalize evtRun config env real (s1.login.delayEob > 0) (s1.tx.q, s1) = qs at *
    rw [htest.login, htest.tx] at hfa
    refine ⟨⟨hrun.toNode.trans htest.toNode, hrun.remoteFa.trans htest.remoteFa,
      ⟨_, _, hrun.login.trans htest.login⟩, ?_, ⟨qs.1, ?_, hfa⟩, ?_⟩, hrun.ops.trans htest.ops⟩
    · dsimp only
      rw [hrun.link, htest.link]
      exact .refl _ _ _
    · dsimp only
      rw [hrun.tx, htest.tx]
    · dsimp only
      rw [hr', hr]
  · next s1 heq =>
    rw [heq] at htest
    obtain ⟨r, e, hr⟩ := htest.rx
    exact ⟨.of_eq htest.toNode htest.remoteFa htest.login htest.link htest.tx (by rw [hr]), htest.ops⟩

theorem inbDone_frame (config : BinkdConfig) (env : Env) (file : TFile) (s : State) :
    RecvFrame s (inbDone config env file s).1 := by
  have hfind := RecvFrame.of_disk (findTmpName_frame config env (some file) s)
  unfold inbDone
  split
  · next tmpName s1 heq =>
    rw [heq] at hfind
    split
    · exact hfind.trans (.of_eq rfl rfl rfl rfl rfl rfl)
    · next disk real _ =>
      refine hfind.trans ?_
      have hev : ∀ s2 : State, RecvFrame s2 (if real ≠ [] then inbEvents config env real s2 else s2) := by
        intro s2
        split_ifs
        · exact (inbEvents_frame config env real s2).1
        · exact .refl s2
      have hdelay : ∀ s2 : State, RecvFrame s2 (if s2.login.delayEob > 0 ∧ isreq file.netname then
          { s2 with login := { s2.login with delayEob := s2.login.delayEob - 1 } } else s2) := by
        intro s2
        split_ifs
        · exact (RecvFrame.refl s2).theyNr
        · exact .refl s2
      have hdone : RecvFrame s1 { s1 with
          disk := (disk.delete env (setExt tmpName (str ".hr"))).1
          ops := .done tmpName real :: s1.ops } := .of_eq rfl rfl rfl rfl rfl rfl
      exact ((hdone.trans (hev _)).trans (hdelay _)).rx (by rfl)
  · next s1 _ heq =>
    rw [heq] at hfind
    exact hfind

end Binkd
