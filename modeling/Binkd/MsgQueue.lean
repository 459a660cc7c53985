import Binkd.Encryption
import Binkd.Session

/-!
# The queue of messages

`send_block` packs queued messages into the output buffer.  It refuses a message longer
than a block, and packs while the buffer holds no more than `MAX_BLKSIZE` bytes with the
headers: a message that a header makes longer than that is neither refused nor packed
(`queue_drains`).
-/

namespace Binkd

variable {config : BinkdConfig} {env : Env} {s s' : State}

/-! ### Packing -/

/-- What `send_block` packs: some messages from the head of the queue. -/
theorem fillObuf_moves {msgs rest : List (List Byte)} {acc obuf : List Byte}
    (h : fillObuf msgs acc = some (obuf, rest)) :
    ∃ moved, msgs = moved ++ rest ∧ obuf = acc ++ moved.flatten ∧
      (acc.length ≤ maxBlksize → obuf.length ≤ maxBlksize) := by
  induction msgs generalizing acc with
  | nil =>
    obtain ⟨rfl, rfl⟩ := Prod.mk.inj (Option.some.inj h)
    exact ⟨[], rfl, by simp, id⟩
  | cons m msgs ih =>
    unfold fillObuf at h
    split_ifs at h with hbig hfull
    · obtain ⟨rfl, rfl⟩ := Prod.mk.inj (Option.some.inj h)
      exact ⟨[], rfl, by simp, id⟩
    · obtain ⟨moved, rfl, rfl, hle⟩ := ih h
      refine ⟨m :: moved, rfl, by simp, fun _ => hle ?_⟩
      rw [List.length_append]
      omega

/-- Nothing is refused, and a first message that fits is packed. -/
theorem fillObuf_checked {msgs : List (List Byte)}
    (hcheck : ∀ m ∈ msgs, m.length - 2 ≤ maxBlksize) (acc : List Byte) :
    ∃ obuf rest, fillObuf msgs acc = some (obuf, rest) := by
  induction msgs generalizing acc with
  | nil => exact ⟨acc, [], rfl⟩
  | cons m msgs ih =>
    unfold fillObuf
    have hm := hcheck m List.mem_cons_self
    rw [if_neg (by omega)]
    split_ifs
    · exact ⟨acc, m :: msgs, rfl⟩
    · exact ih (fun x hx => hcheck x (List.mem_cons_of_mem m hx)) _

/-! ### The calls of `send_block` -/

/-- The bytes that `obuf` has room for. -/
def obufSize : ℕ := maxBlksize + 3

/-- A call that packs at least one message, from the head of the queue, into the output buffer. -/
structure Packs (s s' : State) : Prop where
  moves : ∃ moved, moved ≠ [] ∧ s.link.msgs = moved ++ s'.link.msgs ∧ s'.link.pend = moved.flatten
  fits : s'.link.pend.length ≤ obufSize

/-- Calls of `send_block` on a writable connection until nothing is left, with the bytes sent. -/
inductive Calls (config : BinkdConfig) (s : State) : ℕ → List Byte → State → Prop
  | none : Calls config s 0 [] s
  | call (env : Env) {n : ℕ} {wire : List Byte} {t : State} (k : ℕ) (h : Calls config s n wire t)
      (hleft : t.link.pend ≠ [] ∨ t.link.msgs ≠ []) (hk : 0 < k) :
      Calls config s (n + 1) (wire ++ t.link.pend.take k) (sendBlock config env (.sent k) t).1

/-- The queue drains: no call is without effect, the messages go out whole and in order, and
the calls come to an end. -/
structure Drains (config : BinkdConfig) (s : State) : Prop where
  packs : ∀ {n wire t}, Calls config s n wire t → t.link.pend = [] → t.link.msgs ≠ [] →
    ∀ env r, (sendBlock config env r t).2 = true ∧ Packs t (sendBlock config env r t).1
  order : ∀ {n wire t}, Calls config s n wire t →
    wire ++ t.link.pend ++ t.link.msgs.flatten = s.link.pend ++ s.link.msgs.flatten
  ends : ∃ bound, ∀ {n wire t}, Calls config s n wire t → n ≤ bound

/-- With an empty buffer, a call packs. -/
theorem sendBlock_packs (hpend : s.link.pend = []) (hmsgs : s.link.msgs ≠ [])
    (hcheck : ∀ m ∈ s.link.msgs, m.length - 2 ≤ maxBlksize) (env : Env) (r : SendResult) :
    ∃ moved rest, s.link.msgs = moved ++ rest ∧ moved.flatten.length ≤ maxBlksize ∧
      fillObuf s.link.msgs [] = some (moved.flatten, rest) ∧
      sendBlock config env r s = ({ s with link := { s.link with pend := moved.flatten, msgs := rest } }, true) := by
  obtain ⟨obuf, rest, hfill⟩ := fillObuf_checked hcheck []
  obtain ⟨moved, heq, rfl, hle⟩ := fillObuf_moves hfill
  rw [List.nil_append] at hfill hle
  refine ⟨moved, rest, heq, hle (Nat.zero_le _), hfill, ?_⟩
  rw [sendBlock, if_neg (not_not.mpr hpend), if_pos hmsgs, sendMsgs, hfill]

/-- With something in the buffer, a call sends. -/
theorem sendBlock_sends (hpend : s.link.pend ≠ []) (env : Env) (k : ℕ) :
    sendBlock config env (.sent k) s =
      ({ s with link := { s.link with pend := s.link.pend.drop k } }, true) := by
  rw [sendBlock, if_pos hpend, sendPend]

/-- A first message that fits is among those packed. -/
theorem fillObuf_first {m : List Byte} {msgs rest : List (List Byte)} {obuf : List Byte}
    (hm : m.length ≤ maxBlksize) (h : fillObuf (m :: msgs) [] = some (obuf, rest)) :
    rest ≠ m :: msgs := by
  unfold fillObuf at h
  rw [if_neg (by omega), if_neg (by simpa using hm)] at h
  obtain ⟨moved, rfl, -⟩ := fillObuf_moves h
  intro heq
  have := congrArg List.length heq
  rw [List.length_cons, List.length_append] at this
  omega

/-! ### A queue of messages that fit -/

/-- The calls that are left at most. -/
def Link.toSend (l : Link) : ℕ := l.pend.length + (l.msgs.map fun m => m.length + 1).sum

theorem toSend_packed (moved : List (List Byte)) :
    moved.flatten.length + moved.length = (moved.map fun m => m.length + 1).sum := by
  induction moved with
  | nil => rfl
  | cons m moved ih =>
    rw [List.flatten_cons, List.length_append, List.length_cons, List.map_cons, List.sum_cons, ← ih]
    omega

/-- What calls of `send_block` keep while every message fits. -/
structure CallsInv (s : State) (n : ℕ) (wire : List Byte) (t : State) : Prop where
  fits : ∀ m ∈ t.link.msgs, m.length ≤ maxBlksize
  order : wire ++ t.link.pend ++ t.link.msgs.flatten = s.link.pend ++ s.link.msgs.flatten
  left : n + t.link.toSend ≤ s.link.toSend

theorem packs_of_fits (hpend : s.link.pend = []) (hmsgs : s.link.msgs ≠ [])
    (hfits : ∀ m ∈ s.link.msgs, m.length ≤ maxBlksize) (env : Env) (r : SendResult) :
    (sendBlock config env r s).2 = true ∧ Packs s (sendBlock config env r s).1 := by
  obtain ⟨moved, rest, heq, hle, hfill, hsend⟩ := @sendBlock_packs config s hpend hmsgs
    (fun m hm => by have := hfits m hm; omega) env r
  rw [hsend]
  refine ⟨rfl, ⟨moved, ?_, heq, rfl⟩, ?_⟩
  · rintro rfl
    match hm : s.link.msgs, hmsgs with
    | m :: msgs, _ =>
      rw [hm] at hfill heq hfits
      exact fillObuf_first (hfits m List.mem_cons_self) hfill heq.symm
  · show moved.flatten.length ≤ maxBlksize + 3
    omega

theorem Calls.inv {n : ℕ} {wire : List Byte} {t : State} (h : Calls config s n wire t)
    (hfits : ∀ m ∈ s.link.msgs, m.length ≤ maxBlksize) : CallsInv s n wire t := by
  induction h with
  | none => exact ⟨hfits, by simp, by omega⟩
  | @call env n wire t k h hleft hk ih =>
    by_cases hpend : t.link.pend = []
    · have hmsgs : t.link.msgs ≠ [] := hleft.resolve_left (not_not.mpr hpend)
      obtain ⟨-, ⟨moved, hne, heq, hpend'⟩, -⟩ :=
        @packs_of_fits config t hpend hmsgs ih.fits env (.sent k)
      have hlen : 0 < moved.length := List.length_pos_iff.mpr hne
      refine ⟨fun m hm => ih.fits m (heq ▸ List.mem_append_right _ hm), ?_, ?_⟩
      · rw [hpend', ← ih.order, heq, hpend]
        simp
      · have hleft := ih.left
        rw [Link.toSend, hpend, heq, List.map_append, List.sum_append, ← toSend_packed] at hleft
        rw [Link.toSend, hpend']
        simp only [List.length_nil] at hleft
        omega
    · rw [sendBlock_sends hpend]
      refine ⟨ih.fits, ?_, ?_⟩
      · rw [← ih.order, List.append_assoc wire, List.take_append_drop]
      · have hleft := ih.left
        have hpos : 0 < t.link.pend.length := List.length_pos_iff.mpr hpend
        rw [Link.toSend] at hleft ⊢
        simp only [List.length_drop]
        omega

theorem drains_of_fits (hfits : ∀ m ∈ s.link.msgs, m.length ≤ maxBlksize) : Drains config s where
  packs h hpend hmsgs env r := packs_of_fits hpend hmsgs (h.inv hfits).fits env r
  order h := (h.inv hfits).order
  ends := ⟨s.link.toSend, fun h => by have := (h.inv hfits).left; omega⟩

/-! ### A message that does not fit -/

theorem Calls.trans {n k : ℕ} {wire wire' : List Byte} {t u : State} (h : Calls config s n wire t)
    (h' : Calls config t k wire' u) : Calls config s (n + k) (wire ++ wire') u := by
  induction h' with
  | none => rwa [List.append_nil]
  | call env k h hleft hk ih =>
    rw [← List.append_assoc]
    exact .call env k ih hleft hk

/-- Where every call packs, every message fits: the first one that does not would come to the
head of the queue and stay there. -/
theorem fits_of_packs (hpend : s.link.pend = []) (hcheck : ∀ m ∈ s.link.msgs, m.length - 2 ≤ maxBlksize)
    (hpacks : ∀ {n wire t}, Calls config s n wire t → t.link.pend = [] → t.link.msgs ≠ [] →
      ∀ env r, (sendBlock config env r t).2 = true ∧ Packs t (sendBlock config env r t).1) :
    ∀ m ∈ s.link.msgs, m.length ≤ maxBlksize := by
  induction hlen : s.link.msgs.length using Nat.strong_induction_on generalizing s with
  | _ len ih =>
    by_cases hmsgs : s.link.msgs = []
    · rw [hmsgs]
      exact fun m hm => absurd hm List.not_mem_nil
    · obtain ⟨moved, rest, heq, hle, hfill, hsend⟩ :=
        @sendBlock_packs config s hpend hmsgs hcheck {} (.sent 1)
      obtain ⟨-, ⟨moved', hne, heq', -⟩, -⟩ := hpacks .none hpend hmsgs {} (.sent 1)
      rw [hsend] at heq'
      obtain rfl : moved' = moved := List.append_cancel_right (heq'.symm.trans heq)
      -- the packed messages fit, and are sent in one call
      obtain ⟨t, n, wire, hcalls, ht, htmsgs⟩ : ∃ t n wire, Calls config s n wire t ∧
          t.link.pend = [] ∧ t.link.msgs = rest := by
        have hfirst := Calls.call {} 1 (.none : Calls config s 0 [] s) (.inr hmsgs) Nat.one_pos
        rw [hsend] at hfirst
        by_cases hflat : moved'.flatten = []
        · exact ⟨_, _, _, hfirst, hflat, rfl⟩
        · have hsecond := Calls.call {} moved'.flatten.length hfirst (.inl hflat) (List.length_pos_iff.mpr hflat)
          rw [sendBlock_sends hflat] at hsecond
          exact ⟨_, _, _, hsecond, List.drop_length, rfl⟩
      have hrest : ∀ m ∈ t.link.msgs, m.length ≤ maxBlksize := by
        refine ih t.link.msgs.length ?_ ht (fun m hm => ?_) (fun h => hpacks (hcalls.trans h)) rfl
        · rw [htmsgs, ← hlen, heq, List.length_append]
          have := List.length_pos_iff.mpr hne
          omega
        · rw [htmsgs] at hm
          exact hcheck m (heq ▸ List.mem_append_right _ hm)
      intro m hm
      rw [heq] at hm
      rcases List.mem_append.mp hm with hm | hm
      · exact (List.sublist_flatten_of_mem hm).length_le.trans hle
      · exact hrest m (htmsgs ▸ hm)

/-- **The queue drains exactly if every message fits** with its header into `MAX_BLKSIZE`. -/
theorem queue_drains (config : BinkdConfig) {s : State} (hpend : s.link.pend = [])
    (hcheck : ∀ m ∈ s.link.msgs, m.length - 2 ≤ maxBlksize) :
    Drains config s ↔ ∀ m ∈ s.link.msgs, m.length ≤ maxBlksize :=
  ⟨fun h => fits_of_packs hpend hcheck h.packs, drains_of_fits⟩

/-- A session that has queued one message. -/
def oneQueued (text : Str) : State := msgSend2 M_ADR text [] (initProtocol (fidoConfig []) none none)

theorem oneQueued_msgs (text : Str) : ∃ m, (oneQueued text).link.msgs = [m] ∧
    m.length = text.length + 3 := by
  refine ⟨(Item.msg M_ADR (text ++ [])).bytes, rfl, ?_⟩
  rw [List.append_nil, Item.bytes, List.length_append, mkhdr]
  simp only [List.length_cons, List.length_nil, Item.body]
  omega

theorem queue_drains_address : Drains (fidoConfig []) (oneQueued (str "2:5020/1")) := by
  have hshort : (str "2:5020/1").length + 3 ≤ maxBlksize := by decide +kernel
  obtain ⟨m, hm, hlen⟩ := oneQueued_msgs (str "2:5020/1")
  refine (queue_drains (fidoConfig []) rfl fun x hx => ?_).mpr fun x hx => ?_
  · rw [hm, List.mem_singleton] at hx
    rw [hx]
    omega
  · rw [hm, List.mem_singleton] at hx
    rw [hx]
    omega

/-- The argument has 32765 bytes: the message passes the check, and stays. -/
theorem queue_stuck : ∃ s : State, s.link.pend = [] ∧ s.link.msgs ≠ [] ∧
    (∀ m ∈ s.link.msgs, m.length - 2 ≤ maxBlksize) ∧ ¬ Drains (fidoConfig []) s := by
  obtain ⟨m, hm, hlen⟩ := oneQueued_msgs (List.replicate (maxBlksize - 2) 49)
  rw [List.length_replicate] at hlen
  have hmax : maxBlksize = 32767 := rfl
  have hcheck : ∀ x ∈ (oneQueued (List.replicate (maxBlksize - 2) 49)).link.msgs,
      x.length - 2 ≤ maxBlksize := by
    intro x hx
    rw [hm, List.mem_singleton] at hx
    rw [hx]
    omega
  refine ⟨oneQueued (List.replicate (maxBlksize - 2) 49), rfl, by rw [hm]; simp, hcheck, fun h => ?_⟩
  have := fits_of_packs rfl hcheck h.packs m (hm ▸ List.mem_singleton_self m)
  omega

end Binkd
