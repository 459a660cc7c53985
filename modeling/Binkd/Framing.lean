import Binkd.Encryption
import Binkd.Lib.SealedStream

/-!
# Framing

`Pipe` is one direction of a connection: a sender, the bytes on the way, a receiver and
the frames that it has read.  Messages are queued and data blocks built in any order, the
bytes are sent and received in pieces of any size, and both sides may switch the encryption
on at the same frame boundary.  The receiver reads the frames of the sender, in their
order and with their content (`framing_round_trip`).
-/

namespace Binkd

open Lib

variable {config configA configB : BinkdConfig} {env : Env} {n : ℕ} {key : Keys 64}

/-! ### Headers -/

/-- What arrives of a frame: is it a message, and the payload. -/
def Item.frame (i : Item) : Bool × List Byte := (i.imsg, i.body)

/-- The header that `mkhdr` makes is read back, for a payload of less than 32768 bytes. -/
theorem mkhdr_read (imsg : Bool) (u : ℕ) (hu : u ≤ maxBlksize) :
    headerSize (mkhdr (if imsg then u ||| 0x8000 else u)) = u ∧
      headerMsg (mkhdr (if imsg then u ||| 0x8000 else u)) = imsg := by
  have hu : u < 2 ^ 15 := by
    unfold maxBlksize at hu
    omega
  have hor : u ||| 0x8000 = u + 0x8000 := by
    have h := Nat.two_pow_add_eq_or_of_lt hu 1
    rw [Nat.mul_one] at h
    rw [Nat.or_comm, ← h, Nat.add_comm]
  have hread : ∀ v, v < 2 ^ 16 → headerSize (mkhdr v) = v % 2 ^ 15 ∧
      headerMsg (mkhdr v) = decide (2 ^ 15 ≤ v) := by
    intro v hv
    have hhigh : (v / 256).toUInt8.toNat = v / 256 := Nat.mod_eq_of_lt (by omega)
    have hlow : v.toUInt8.toNat = v % 256 := rfl
    unfold headerSize headerMsg mkhdr
    simp only [List.headD_cons, List.getD_cons_succ, List.getD_cons_zero, hhigh, hlow]
    refine ⟨by omega, ?_⟩
    rw [decide_eq_decide]
    omega
  cases imsg with
  | true =>
    rw [if_pos rfl, hor]
    obtain ⟨hsize, hmsg⟩ := hread (u + 0x8000) (by omega)
    rw [hsize, hmsg]
    exact ⟨by omega, decide_eq_true (by omega)⟩
  | false =>
    rw [if_neg (by decide)]
    obtain ⟨hsize, hmsg⟩ := hread u (by omega)
    rw [hsize, hmsg]
    exact ⟨by omega, decide_eq_false (by omega)⟩

/-- The header of a frame. -/
def Item.header (i : Item) : List Byte := mkhdr (if i.imsg then i.body.length ||| 0x8000 else i.body.length)

theorem Item.bytes_eq (i : Item) : i.bytes = i.header ++ i.body := rfl

theorem Item.length_header (i : Item) : i.header.length = 2 := rfl

theorem Item.length_bytes (i : Item) : i.bytes.length = i.body.length + 2 := by
  rw [bytes_eq, List.length_append, length_header, Nat.add_comm]

/-! ### One direction of a connection -/

/-- A sender, the bytes on the way, a receiver, and the frames that have arrived there. -/
structure Pipe where
  a : State
  wire : List Byte
  b : State
  got : List (Bool × List Byte)

/-- Nothing has been sent yet. -/
structure Pipe.Fresh (p : Pipe) : Prop where
  msgs : p.a.link.msgs = []
  pend : p.a.link.pend = []
  log : p.a.link.log = []
  wire : p.wire = []
  ibuf : p.b.link.ibuf = []
  isize : p.b.link.isize = none
  got : p.got = []

/-- The bytes that `send` takes from the output buffer. -/
def written (r : SendResult) (s : State) : List Byte :=
  match r with
  | .sent n => s.link.pend.take n
  | _ => []

/-- The frame that is complete once the bytes have come in, as `recv_block` hands it on. -/
def delivered (l : List Byte) (s : State) : List (Bool × List Byte) :=
  match (recvBytes l s).link.arrived with
  | .block imsg block => [(imsg, block)]
  | _ => []

/-- The frames behind the first `n` are encrypted, beginning with the key. -/
def Sealed (n : ℕ) (key : Keys 64) (crypt : CryptFlag) (count : ℕ) (keys : Keys 64) : Prop :=
  (crypt = .on ↔ n ≤ count) ∧ (count = n → keys = key)

instance (n : ℕ) (key : Keys 64) (crypt : CryptFlag) (count : ℕ) (keys : Keys 64) :
    Decidable (Sealed n key crypt count keys) :=
  inferInstanceAs (Decidable ((crypt = .on ↔ n ≤ count) ∧ (count = n → keys = key)))

/-- What can happen on the connection.  Both sides switch the encryption on between the
`n`-th frame and the next, with the same key, and leave the keys alone afterwards. -/
inductive PipeStep (configA configB : BinkdConfig) (n : ℕ) (key : Keys 64) : Pipe → Pipe → Prop
  /-- a message is queued -/
  | msg (p : Pipe) (m : Byte) (text : Str) (hshort : text.length + 3 ≤ maxBlksize)
      (hseal : Sealed n key p.a.login.cryptFlag p.a.link.log.length p.a.link.keysOut) :
      PipeStep configA configB n key p { p with a := msgSend2 m text [] p.a }
  | file (p : Pipe) (m : FileMsg)
      (hseal : Sealed n key p.a.login.cryptFlag p.a.link.log.length p.a.link.keysOut) :
      PipeStep configA configB n key p { p with a := sendFileMsg m p.a }
  /-- `send_block` packs messages, builds a data block or sends a part of the buffer -/
  | send (p : Pipe) (env : Env) (r : SendResult)
      (hseal : Sealed n key p.a.login.cryptFlag p.a.link.log.length p.a.link.keysOut) :
      PipeStep configA configB n key p
        { p with a := (sendBlock configA env r p.a).1, wire := p.wire ++ written r p.a }
  /-- whatever else the sender does -/
  | sender (p : Pipe) (a : State) (hmsgs : a.link.msgs = p.a.link.msgs) (hpend : a.link.pend = p.a.link.pend)
      (hlog : a.link.log = p.a.link.log) (hkeys : n < p.a.link.log.length →
        a.link.keysOut = p.a.link.keysOut) :
      PipeStep configA configB n key p { p with a := a }
  /-- `recv_block` with some of the bytes on the way, no more than it asks for -/
  | recv (p : Pipe) (env : Env) (l rest : List Byte) (b : State) (hne : l ≠ []) (hwire : p.wire = l ++ rest)
      (hask : l.length ≤ p.b.link.want - p.b.link.ibuf.length)
      (hseal : p.b.login.cryptFlag = .on ↔ n ≤ p.got.length)
      (hfirst : p.got.length = n → p.b.link.isize = none → p.b.link.ibuf = [] → p.b.link.keysIn = key)
      (hrecv : recvBlock configB env (.bytes l) p.b = (b, true))
      (hkeys : n < (p.got ++ delivered l p.b).length → b.link.keysIn = (recvBytes l p.b).link.keysIn) :
      PipeStep configA configB n key p { p with wire := rest, b := b, got := p.got ++ delivered l p.b }
  /-- whatever else the receiver does -/
  | receiver (p : Pipe) (b : State) (hisize : b.link.isize = p.b.link.isize) (himsg : b.link.imsg = p.b.link.imsg)
      (hibuf : b.link.ibuf = p.b.link.ibuf)
      (hkeys : (p.got.length ≤ n ∧ p.b.link.isize = none ∧ p.b.link.ibuf = []) ∨
        b.link.keysIn = p.b.link.keysIn) :
      PipeStep configA configB n key p { p with b := b }

/-! ### The invariant -/

/-- The frames of the sender behind those that have arrived are on their way. -/
structure Flows (n : ℕ) (key : Keys 64) (p : Pipe) (sent rest : List Item) (raw : List Byte) : Prop where
  log : p.a.link.log.reverse = sent ++ rest
  got : p.got = sent.map Item.frame
  flow : raw ++ p.wire ++ p.a.link.outgoing =
    stream (crypt 64) Item.bytes (n - sent.length) (keyAfter (crypt 64) Item.bytes n key sent) rest
  short : ∀ i ∈ p.a.link.log, i.body.length ≤ maxBlksize
  msgs : ∀ m ∈ p.a.link.msgs, m.length ≤ maxBlksize
  keysOut : n < p.a.link.log.length →
    p.a.link.keysOut = keyAfter (crypt 64) Item.bytes n key p.a.link.log.reverse

/-- What the receiver has made of the bytes of the next frame. -/
structure Reads (n : ℕ) (key : Keys 64) (p : Pipe) (sent rest : List Item) (raw : List Byte) : Prop where
  header : p.b.link.isize = none → raw.length < 2 ∧ p.b.link.ibuf =
    deciphered (crypt 64) (n - sent.length) (keyAfter (crypt 64) Item.bytes n key sent) raw
  body : ∀ size, p.b.link.isize = some size → ∃ i is, rest = i :: is ∧ size = i.body.length ∧
    p.b.link.imsg = i.imsg ∧
    p.b.link.ibuf.length < size ∧ i.header ++ p.b.link.ibuf =
      deciphered (crypt 64) (n - sent.length) (keyAfter (crypt 64) Item.bytes n key sent) raw
  keysIn : n ≤ sent.length → (n < sent.length ∨ raw ≠ []) → p.b.link.keysIn =
    (crypt 64).advance (keyAfter (crypt 64) Item.bytes n key sent)
      (deciphered (crypt 64) (n - sent.length) (keyAfter (crypt 64) Item.bytes n key sent) raw)

/-- The connection between two steps. -/
def PipeInv (n : ℕ) (key : Keys 64) (p : Pipe) : Prop :=
  ∃ sent rest raw, Flows n key p sent rest raw ∧ Reads n key p sent rest raw

theorem Pipe.Fresh.inv {p : Pipe} (h : p.Fresh) : PipeInv n key p := by
  refine ⟨[], [], [], ⟨?_, ?_, ?_, ?_, ?_, ?_⟩, ⟨fun _ => ⟨by decide, ?_⟩, fun size hsize => ?_, fun _ hor => ?_⟩⟩
  · rw [h.log]
    rfl
  · exact h.got
  · rw [h.wire, Link.outgoing, h.pend, h.msgs, stream]
    rfl
  · rw [h.log]
    exact fun _ hi => absurd hi List.not_mem_nil
  · rw [h.msgs]
    exact fun _ hm => absurd hm List.not_mem_nil
  · rw [h.log]
    exact fun hlt => absurd hlt (Nat.not_lt_zero _)
  · rw [h.ibuf]
    exact (List.eq_nil_of_length_eq_zero length_deciphered).symm
  · rw [h.isize] at hsize
    contradiction
  · rcases hor with hlt | hne
    · exact absurd hlt (Nat.not_lt_zero _)
    · exact absurd rfl hne

/-! ### The sender -/

/-- A frame is put behind the others. -/
theorem Flows.push {p : Pipe} {a : State} {sent rest : List Item} {raw : List Byte} {i : Item}
    (h : Flows n key p sent rest raw)
    (hseal : Sealed n key p.a.login.cryptFlag p.a.link.log.length p.a.link.keysOut)
    (hshort : i.body.length ≤ maxBlksize) (hlog : a.link.log = i :: p.a.link.log)
    (hmsgs : ∀ m ∈ a.link.msgs, m.length ≤ maxBlksize)
    (hout : a.link.outgoing = p.a.link.outgoing ++ (p.a.link.encode p.a.login.cryptFlag i.bytes).1)
    (hkeys : a.link.keysOut = (p.a.link.encode p.a.login.cryptFlag i.bytes).2) :
    Flows n key { p with a := a } sent (rest ++ [i]) raw := by
  have hlen : p.a.link.log.length = sent.length + rest.length := by
    rw [← List.length_reverse, h.log, List.length_append]
  have hafter : keyAfter (crypt 64) Item.bytes (n - sent.length) (keyAfter (crypt 64) Item.bytes n key sent) rest =
      keyAfter (crypt 64) Item.bytes n key p.a.link.log.reverse := by
    rw [h.log, keyAfter_append]
  have hn : n - sent.length - rest.length = n - p.a.link.log.length := by omega
  -- the key of an encrypted frame is the one that the receiver will have
  have hkey : n ≤ p.a.link.log.length →
      p.a.link.keysOut = keyAfter (crypt 64) Item.bytes n key p.a.link.log.reverse := by
    intro hle
    rcases Nat.lt_or_eq_of_le hle with hlt | heq
    · exact h.keysOut hlt
    · rw [hseal.2 heq.symm, keyAfter_plain (by rw [List.length_reverse, heq])]
  have hcode : p.a.link.encode p.a.login.cryptFlag i.bytes =
      (stream (crypt 64) Item.bytes (n - p.a.link.log.length)
          (keyAfter (crypt 64) Item.bytes n key p.a.link.log.reverse) [i],
        if n ≤ p.a.link.log.length then
          (crypt 64).advance (keyAfter (crypt 64) Item.bytes n key p.a.link.log.reverse) i.bytes
        else p.a.link.keysOut) := by
    unfold Link.encode
    rw [stream_one]
    by_cases hle : n ≤ p.a.link.log.length
    · rw [if_pos (hseal.1.mpr hle), if_pos (by omega), if_pos hle, encryptBuf_eq, hkey hle]
    · rw [if_neg (fun hon => hle (hseal.1.mp hon)), if_neg (by omega), if_neg hle]
  refine ⟨?_, h.got, ?_, ?_, hmsgs, ?_⟩
  · dsimp only
    rw [hlog, List.reverse_cons, h.log, List.append_assoc]
  · dsimp only
    rw [hout, ← List.append_assoc, h.flow, hcode, stream_append, hafter, hn]
  · dsimp only
    rw [hlog]
    intro x hx
    rcases List.mem_cons.mp hx with rfl | hx
    · exact hshort
    · exact h.short x hx
  · dsimp only
    rw [hlog, List.length_cons, List.reverse_cons, hkeys, hcode, keyAfter_append,
      List.length_reverse, keyAfter_one]
    intro hlt
    rw [if_pos (by omega), if_pos (by omega)]

/-- Bytes move on, and no frame is added. -/
theorem Flows.move {p : Pipe} {a : State} {wire : List Byte} {sent rest : List Item} {raw : List Byte}
    (h : Flows n key p sent rest raw) (hlog : a.link.log = p.a.link.log)
    (hmsgs : ∀ m ∈ a.link.msgs, m ∈ p.a.link.msgs)
    (hout : wire ++ a.link.outgoing = p.wire ++ p.a.link.outgoing)
    (hkeys : n < p.a.link.log.length → a.link.keysOut = p.a.link.keysOut) :
    Flows n key { p with a := a, wire := wire } sent rest raw := by
  refine ⟨?_, h.got, ?_, ?_, fun m hm => h.msgs m (hmsgs m hm), ?_⟩
  · dsimp only
    rw [hlog, h.log]
  · dsimp only
    rw [List.append_assoc, hout, ← List.append_assoc, h.flow]
  · dsimp only
    rw [hlog]
    exact h.short
  · dsimp only
    rw [hlog]
    exact fun hlt => (hkeys hlt).trans (h.keysOut hlt)

/-- The receiver does not notice. -/
theorem Reads.sender {p : Pipe} {a : State} {wire : List Byte} {sent rest : List Item} {raw : List Byte}
    (h : Reads n key p sent rest raw) (more : List Item) :
    Reads n key { p with a := a, wire := wire } sent (rest ++ more) raw := by
  refine ⟨h.header, fun size hsize => ?_, h.keysIn⟩
  obtain ⟨i, is, rfl, hrest⟩ := h.body size hsize
  exact ⟨i, is ++ more, rfl, hrest⟩

theorem Link.length_encode (flag : CryptFlag) (bytes : List Byte) (l : Link) :
    (l.encode flag bytes).1.length = bytes.length := by
  unfold encode
  split_ifs
  · rw [encryptBuf_eq]
    exact (crypt 64).length_encrypt _ _
  · rfl

theorem Flows.queue {p : Pipe} {a : State} {sent rest : List Item} {raw : List Byte} {i : Item}
    (h : Flows n key p sent rest raw)
    (hseal : Sealed n key p.a.login.cryptFlag p.a.link.log.length p.a.link.keysOut)
    (hshort : i.body.length + 2 ≤ maxBlksize) (hlink : a.link = p.a.link.queue p.a.login.cryptFlag i) :
    Flows n key { p with a := a } sent (rest ++ [i]) raw := by
  refine h.push hseal (by omega) ?_ (fun m hm => ?_) ?_ ?_
  · rw [hlink]
    rfl
  · rw [hlink] at hm
    rcases List.mem_append.mp hm with hm | hm
    · exact h.msgs m hm
    · rw [List.mem_singleton.mp hm, Link.length_encode, Item.length_bytes]
      exact hshort
  · rw [hlink]
    simp [Link.outgoing, Link.queue]
  · rw [hlink]
    rfl

theorem Flows.build {p : Pipe} {a : State} {sent rest : List Item} {raw payload : List Byte}
    (h : Flows n key p sent rest raw)
    (hseal : Sealed n key p.a.login.cryptFlag p.a.link.log.length p.a.link.keysOut)
    (hshort : payload.length ≤ maxBlksize) (hpend : p.a.link.pend = []) (hmsgs : p.a.link.msgs = [])
    (hlink : a.link = p.a.link.build p.a.login.cryptFlag payload) :
    Flows n key { p with a := a } sent (rest ++ [.data payload]) raw := by
  refine h.push hseal hshort ?_ (fun m hm => ?_) ?_ ?_
  · rw [hlink]
    rfl
  · rw [hlink] at hm
    exact h.msgs m hm
  · rw [hlink]
    simp [Link.outgoing, Link.build, hpend, hmsgs]
  · rw [hlink]
    rfl

/-! ### Data blocks -/

/-- zlib and bzip2 write no more than the room that they are given. -/
def BinkdConfig.WithinRoom (config : BinkdConfig) : Prop :=
  ∀ type h k, (config.zlib.doCompress type h k).out.length ≤ k.room

theorem zLoop_short {z : Stepper Byte} {oblksize : ℕ} {size : Int} {fuel : ℕ} {hist : List (Call Byte)} {h : Handle}
    {zbuf obuf : List Byte} {r : ZOut} (hz : ∀ h k, (z h k).out.length ≤ k.room)
    (hloop : zLoop z oblksize size fuel hist h zbuf obuf = some r) (hobuf : obuf.length ≤ oblksize) :
    r.obuf.length ≤ oblksize := by
  induction fuel generalizing hist h zbuf obuf with
  | zero => simp [zLoop] at hloop
  | succ fuel ih =>
    rw [zLoop] at hloop
    have hout := hz hist ⟨zbuf, oblksize - obuf.length, decide ((size - h.pos).toNat = 0)⟩
    have hnext : (obuf ++ (z hist ⟨zbuf, oblksize - obuf.length, decide ((size - h.pos).toNat = 0)⟩).out).length ≤
        oblksize := by
      rw [List.length_append]
      dsimp only at hout
      omega
    split_ifs at hloop
    · obtain rfl := Option.some.inj hloop
      exact hnext
    · obtain rfl := Option.some.inj hloop
      exact hnext
    · exact ih hloop hnext
    · split at hloop
      · contradiction
      · exact ih hloop hnext

/-- A data block fits into the output buffer. -/
theorem fileBlock_short {s s' : State} {h : Handle} {payload : List Byte} (hz : config.WithinRoom)
    (hb : fileBlock config env h s = some (payload, s')) : payload.length ≤ maxBlksize := by
  refine le_trans ?_ config.oblksize_max
  unfold fileBlock at hb
  split at hb
  · unfold plainBlock at hb
    split at hb
    · contradiction
    · next bytes h1 hread =>
      obtain ⟨hlen, -⟩ := Handle.read_spec hread
      obtain ⟨rfl, -⟩ := Prod.mk.inj (Option.some.inj hb)
      rw [pktReaddress_length, hlen]
      exact Nat.min_le_left _ _
  · unfold zBlock at hb
    dsimp only at hb
    split at hb
    · contradiction
    · split at hb
      · contradiction
      · next r hloop =>
        obtain ⟨rfl, -⟩ := Prod.mk.inj (Option.some.inj hb)
        exact zLoop_short (fun h k => hz _ h k) hloop (Nat.zero_le _)

/-! ### `send_block` -/

theorem fillObuf_subset {msgs rest : List (List Byte)} {acc obuf : List Byte}
    (h : fillObuf msgs acc = some (obuf, rest)) : ∀ m ∈ rest, m ∈ msgs := by
  induction msgs generalizing acc with
  | nil =>
    obtain ⟨-, rfl⟩ := Prod.mk.inj (Option.some.inj h)
    exact fun _ hm => hm
  | cons m msgs ih =>
    unfold fillObuf at h
    split_ifs at h
    · obtain ⟨-, rfl⟩ := Prod.mk.inj (Option.some.inj h)
      exact fun _ hm => hm
    · exact fun x hx => List.mem_cons_of_mem m (ih h x hx)

/-- **What `send_block` does to the stream**: it moves bytes on, or builds a data block. -/
theorem Flows.send {p : Pipe} {sent rest : List Item} {raw : List Byte} (hz : config.WithinRoom) (r : SendResult)
    (h : Flows n key p sent rest raw)
    (hseal : Sealed n key p.a.login.cryptFlag p.a.link.log.length p.a.link.keysOut) :
    ∃ more, Flows n key { p with a := (sendBlock config env r p.a).1, wire := p.wire ++ written r p.a } sent
      (rest ++ more) raw := by
  have hmove : ∀ {a wire}, Flows n key { p with a := a, wire := wire } sent rest raw →
      ∃ more, Flows n key { p with a := a, wire := wire } sent (rest ++ more) raw := fun hflow =>
    ⟨[], by rwa [List.append_nil]⟩
  unfold sendBlock
  split
  · unfold sendPend written
    split
    · next k =>
      refine hmove (h.move rfl (fun _ hm => hm) ?_ fun _ => rfl)
      dsimp only [Link.outgoing]
      rw [List.append_assoc, ← List.append_assoc (p.a.link.pend.take k), List.take_append_drop]
    · exact hmove (h.move rfl (fun _ hm => hm) (by simp [Link.outgoing]) fun _ => rfl)
    · exact hmove (h.move rfl (fun _ hm => hm) (by simp [Link.outgoing]) fun _ => rfl)
  · next hpend =>
    have hpend : p.a.link.pend = [] := not_not.mp hpend
    have hnone : p.wire ++ written r p.a = p.wire := by
      unfold written
      split
      · rw [hpend, List.take_nil, List.append_nil]
      · rw [List.append_nil]
    rw [hnone]
    split
    · unfold sendMsgs
      split
      · next obuf msgs hfill =>
        refine hmove (h.move rfl (fillObuf_subset hfill) ?_ fun _ => rfl)
        dsimp only [Link.outgoing]
        rw [(fillObuf_some hfill).1, hpend]
      · next hfill =>
        -- every message fits, so packing does not fail
        obtain ⟨m, hm, hbig⟩ := fillObuf_none hfill
        have := h.msgs m (List.mem_of_mem_drop hm)
        omega
    · next hmsgs =>
      have hmsgs : p.a.link.msgs = [] := not_not.mp hmsgs
      split
      · have hout := sendData_outcome config env p.a
        generalize sendData config env p.a = result at hout
        cases hout with
        | empty => exact ⟨[.data []], h.build hseal (Nat.zero_le _) hpend hmsgs rfl⟩
        | failed => exact hmove (h.move rfl (fun _ hm => hm) rfl fun _ => rfl)
        | more f hf payload f' z od ob hb =>
          exact ⟨[.data payload], h.build hseal (fileBlock_short hz hb) hpend hmsgs rfl⟩
        | last f hf payload f' z od ob hb =>
          exact ⟨[.data payload], h.build hseal (fileBlock_short hz hb) hpend hmsgs rfl⟩
      · exact hmove (h.move rfl (fun _ hm => hm) rfl fun _ => rfl)

/-! ### The receiver -/

/-- What `recv_block` leaves of the block being read. -/
theorem recvBlock_arrived {s b : State} {l : List Byte} (hrecv : recvBlock config env (.bytes l) s = (b, true))
    (hne : l ≠ []) :
    match (recvBytes l s).link.arrived with
    | .nothing => b = recvBytes l s
    | .header imsg size => b.link = { (recvBytes l s).link with imsg := imsg, isize := some size, ibuf := [] }
    | .block _ _ => b.link.isize = none ∧ b.link.ibuf = [] := by
  unfold recvBlock at hrecv
  dsimp only at hrecv
  rw [if_neg (fun h => hne h.1)] at hrecv
  unfold recvArrived at hrecv
  cases harr : (recvBytes l s).link.arrived with
  | nothing =>
    rw [harr] at hrecv
    exact (Prod.mk.inj hrecv).1.symm
  | header imsg size =>
    rw [harr] at hrecv
    rw [← (Prod.mk.inj hrecv).1]
  | block imsg block =>
    rw [harr] at hrecv
    rcases hproc : processBlock config env imsg block (recvBytes l s) with ⟨s', live⟩
    dsimp only at hrecv
    rw [hproc] at hrecv
    cases live with
    | true =>
      rw [← (Prod.mk.inj hrecv).1]
      exact ⟨rfl, rfl⟩
    | false => exact absurd (Prod.mk.inj hrecv).2 (by decide)

/-- What is complete after reading, and what that takes. -/
theorem Link.arrived_spec (l : Link) :
    match l.arrived with
    | .nothing => l.ibuf.length ≠ l.want
    | .header imsg size => l.isize = none ∧ l.ibuf.length = 2 ∧ imsg = headerMsg l.ibuf ∧
    size = headerSize l.ibuf ∧
        size ≠ 0
    | .block imsg block => (l.isize = none ∧ l.ibuf.length = 2 ∧ imsg = headerMsg l.ibuf ∧ headerSize l.ibuf = 0 ∧
        block = []) ∨ (∃ size, l.isize = some size ∧ l.ibuf.length = size ∧ imsg = l.imsg ∧
      block = l.ibuf) := by
  unfold arrived
  by_cases hwant : l.ibuf.length = l.want
  · rw [if_pos hwant]
    cases hsize : l.isize with
    | none =>
      have hlen : l.ibuf.length = 2 := by rw [hwant, want, hsize]; rfl
      dsimp only
      by_cases hzero : headerSize l.ibuf = 0
      · rw [if_pos hzero]
        exact .inl ⟨rfl, hlen, rfl, hzero, rfl⟩
      · rw [if_neg hzero]
        exact ⟨rfl, hlen, rfl, rfl, hzero⟩
    | some size =>
      have hlen : l.ibuf.length = size := by rw [hwant, want, hsize]; rfl
      exact .inr ⟨size, rfl, hlen, rfl, rfl⟩
  · rw [if_neg hwant]
    exact hwant

section
variable {p : Pipe} {sent rest : List Item} {raw l wire : List Byte}

/-- The bytes that come in are read with the key that they were written with. -/
theorem Reads.read (h : Reads n key p sent rest raw) (hgot : p.got = sent.map Item.frame)
    (hask : l.length ≤ p.b.link.want - p.b.link.ibuf.length)
    (hseal : p.b.login.cryptFlag = .on ↔ n ≤ p.got.length)
    (hfirst : p.got.length = n → p.b.link.isize = none → p.b.link.ibuf = [] → p.b.link.keysIn = key) :
    (recvBytes l p.b).link.ibuf.length = p.b.link.ibuf.length + l.length ∧
    (∃ d, (recvBytes l p.b).link.ibuf = p.b.link.ibuf ++ d ∧
      deciphered (crypt 64) (n - sent.length) (keyAfter (crypt 64) Item.bytes n key sent) (raw ++ l) =
        deciphered (crypt 64) (n - sent.length) (keyAfter (crypt 64) Item.bytes n key sent) raw ++ d) ∧
    (n ≤ sent.length → (recvBytes l p.b).link.keysIn = (crypt 64).advance (keyAfter (crypt 64) Item.bytes n key sent)
      (deciphered (crypt 64) (n - sent.length) (keyAfter (crypt 64) Item.bytes n key sent) (raw ++ l))) := by
  have hcount : p.got.length = sent.length := by rw [hgot, List.length_map]
  have htake : l.take (p.b.link.want - p.b.link.ibuf.length) = l := List.take_of_length_le hask
  unfold recvBytes Link.read
  rw [htake]
  by_cases hle : n ≤ sent.length
  · have hzero : n - sent.length = 0 := by omega
    -- the first encrypted frame begins with the key of the switch
    have hkeys : p.b.link.keysIn = (crypt 64).advance (keyAfter (crypt 64) Item.bytes n key sent)
        (deciphered (crypt 64) (n - sent.length) (keyAfter (crypt 64) Item.bytes n key sent) raw) := by
      by_cases hor : n < sent.length ∨ raw ≠ []
      · exact h.keysIn hle hor
      · obtain ⟨hlt, hraw⟩ := not_or.mp hor
        obtain rfl := not_not.mp hraw
        have hn : sent.length = n := by omega
        have hnil : deciphered (crypt 64) (n - sent.length) (keyAfter (crypt 64) Item.bytes n key sent) [] = [] :=
          List.eq_nil_of_length_eq_zero length_deciphered
        have hisize : p.b.link.isize = none := by
          cases hsize : p.b.link.isize with
          | none => rfl
          | some size =>
            obtain ⟨i, is, -, -, -, -, hheader⟩ := h.body size hsize
            rw [hnil] at hheader
            exact absurd (congrArg List.length hheader) (by simp [Item.length_header])
        have hibuf := (h.header hisize).2
        rw [hnil] at hibuf ⊢
        rw [hfirst (hcount.trans hn) hisize hibuf, keyAfter_plain (by omega)]
        rfl
    have hon : p.b.login.cryptFlag = .on := hseal.mpr (by omega)
    have hall := @deciphered_append _ _ (crypt 64) (n - sent.length) (keyAfter (crypt 64) Item.bytes n key sent) raw l
    rw [← hkeys] at hall
    have hd : deciphered (crypt 64) (n - sent.length) p.b.link.keysIn l = (crypt 64).decrypt p.b.link.keysIn l := by
      rw [hzero]
      rfl
    rw [hd] at hall
    rw [if_pos hon, decryptBuf_eq]
    dsimp only
    refine ⟨?_, ⟨_, rfl, hall⟩, fun _ => ?_⟩
    · rw [List.length_append, (crypt 64).length_decrypt]
    · rw [hall, (crypt 64).advance_append, ← hkeys]
  · have hoff : p.b.login.cryptFlag ≠ .on := fun hon => hle (by rw [← hcount]; exact hseal.mp hon)
    have hpos : n - sent.length ≠ 0 := by omega
    rw [if_neg hoff]
    dsimp only
    refine ⟨List.length_append, ⟨l, rfl, ?_⟩, fun h => absurd h hle⟩
    unfold deciphered
    rw [if_neg hpos, if_neg hpos]

/-- The next frame, once some of its bytes are there. -/
theorem Flows.next (h : Flows n key p sent rest raw) (hwire : p.wire = l ++ wire) (hne : raw ++ l ≠ []) :
    ∃ i is, rest = i :: is ∧ i.body.length ≤ maxBlksize ∧ (raw ++ l) ++ (wire ++ p.a.link.outgoing) =
      stream (crypt 64) Item.bytes (n - sent.length) (keyAfter (crypt 64) Item.bytes n key sent)
      (i :: is) := by
  have hflow : (raw ++ l) ++ (wire ++ p.a.link.outgoing) = stream (crypt 64) Item.bytes (n - sent.length)
      (keyAfter (crypt 64) Item.bytes n key sent) rest := by
    rw [← h.flow, hwire]
    simp only [List.append_assoc]
  cases rest with
  | nil =>
    rw [stream] at hflow
    exact absurd (List.append_eq_nil_iff.mp hflow).1 hne
  | cons i is =>
    refine ⟨i, is, rfl, h.short i ?_, hflow⟩
    rw [← List.mem_reverse, h.log]
    exact List.mem_append_right _ List.mem_cons_self

/-- A frame is complete. -/
theorem Flows.frame {b : State} {i : Item} {is : List Item} (h : Flows n key p sent (i :: is) raw)
    (hwire : p.wire = l ++ wire) (hlen : (raw ++ l).length = i.bytes.length) (hisize : b.link.isize = none)
    (hibuf : b.link.ibuf = [])
    (hkeys : n ≤ sent.length → b.link.keysIn = (crypt 64).advance (keyAfter (crypt 64) Item.bytes n key sent)
      (deciphered (crypt 64) (n - sent.length) (keyAfter (crypt 64) Item.bytes n key sent) (raw ++ l))) :
    PipeInv n key { p with wire := wire, b := b, got := p.got ++ [i.frame] } := by
  have hflow : (raw ++ l) ++ (wire ++ p.a.link.outgoing) = stream (crypt 64) Item.bytes (n - sent.length)
      (keyAfter (crypt 64) Item.bytes n key sent) (i :: is) := by
    rw [← h.flow, hwire]
    simp only [List.append_assoc]
  obtain ⟨hdec, hrest⟩ := deciphered_whole hflow hlen
  have hkey : keyAfter (crypt 64) Item.bytes n key (sent ++ [i]) =
      keyAfter (crypt 64) Item.bytes (n - sent.length) (keyAfter (crypt 64) Item.bytes n key sent) [i] :=
        keyAfter_append _ _
  have hcount : n - (sent ++ [i]).length = n - sent.length - 1 := by
    rw [List.length_append, List.length_singleton]
    omega
  have hnil : ∀ m k, deciphered (crypt 64) m k [] = [] :=
    fun m k => List.eq_nil_of_length_eq_zero length_deciphered
  refine ⟨sent ++ [i], is, [], ⟨?_, ?_, ?_, h.short, h.msgs, h.keysOut⟩,
    ⟨fun _ => ⟨by decide, ?_⟩, fun size hsize => ?_,
    fun hle hor => ?_⟩⟩
  · dsimp only
    rw [h.log, List.append_assoc, List.singleton_append]
  · dsimp only
    rw [h.got, List.map_append, List.map_singleton]
  · dsimp only
    rw [hcount, hkey, ← hrest, List.nil_append]
  · rw [hnil]
    exact hibuf
  · rw [hisize] at hsize
    contradiction
  · have hle : n ≤ sent.length := by
      have hlt := hor.resolve_right (fun h => h rfl)
      rw [List.length_append, List.length_singleton] at hlt
      omega
    rw [hnil, hkey, keyAfter_one, if_pos (by omega), (crypt 64).advance_nil, ← hdec]
    exact hkeys hle

/-- A header that is complete is the header of the next frame. -/
theorem Reads.whole_header {i : Item} {is : List Item} {d later : List Byte} (h : Reads n key p sent (i :: is) raw)
    (hibuf : (recvBytes l p.b).link.ibuf = p.b.link.ibuf ++ d)
    (hdec : deciphered (crypt 64) (n - sent.length) (keyAfter (crypt 64) Item.bytes n key sent) (raw ++ l) =
      deciphered (crypt 64) (n - sent.length) (keyAfter (crypt 64) Item.bytes n key sent) raw ++ d)
    (hstream : (raw ++ l) ++ later = stream (crypt 64) Item.bytes (n - sent.length)
      (keyAfter (crypt 64) Item.bytes n key sent) (i :: is))
    (hisize : p.b.link.isize = none) (htwo : (recvBytes l p.b).link.ibuf.length = 2) :
    (raw ++ l).length = 2 ∧ (recvBytes l p.b).link.ibuf = i.header := by
  have hbytes := i.length_bytes
  obtain ⟨-, hraw⟩ := h.header hisize
  have htwo' : (raw ++ l).length = 2 := by
    rw [← @length_deciphered _ _ (crypt 64) (n - sent.length) (keyAfter (crypt 64) Item.bytes n key sent), hdec,
      ← hraw, ← hibuf, htwo]
  refine ⟨htwo', ?_⟩
  rw [hibuf, hraw, ← hdec, deciphered_part hstream (by omega), htwo']
  rfl

/-- A body that is complete is the body of the next frame. -/
theorem Reads.whole_body {i : Item} {is : List Item} {d later : List Byte} (h : Reads n key p sent (i :: is) raw)
    (hibuf : (recvBytes l p.b).link.ibuf = p.b.link.ibuf ++ d)
    (hdec : deciphered (crypt 64) (n - sent.length) (keyAfter (crypt 64) Item.bytes n key sent) (raw ++ l) =
      deciphered (crypt 64) (n - sent.length) (keyAfter (crypt 64) Item.bytes n key sent) raw ++ d)
    (hstream : (raw ++ l) ++ later = stream (crypt 64) Item.bytes (n - sent.length)
      (keyAfter (crypt 64) Item.bytes n key sent) (i :: is))
    {size : ℕ} (hisize : p.b.link.isize = some size) (hfull : (recvBytes l p.b).link.ibuf.length = size) :
    (raw ++ l).length = i.bytes.length ∧ p.b.link.imsg = i.imsg ∧ (recvBytes l p.b).link.ibuf = i.body := by
  have hbytes := i.length_bytes
  obtain ⟨j, js, hcons, rfl, hj, hlt, hpart⟩ := h.body size hisize
  obtain ⟨rfl, rfl⟩ := List.cons.inj hcons
  have hall : deciphered (crypt 64) (n - sent.length) (keyAfter (crypt 64) Item.bytes n key sent) (raw ++ l) =
      i.header ++ (recvBytes l p.b).link.ibuf := by rw [hdec, ← hpart, hibuf, List.append_assoc]
  have hrawlen : (raw ++ l).length = i.bytes.length := by
    rw [← @length_deciphered _ _ (crypt 64) (n - sent.length) (keyAfter (crypt 64) Item.bytes n key sent), hall,
      List.length_append, i.length_header]
    omega
  refine ⟨hrawlen, hj, ?_⟩
  rw [(deciphered_whole hstream hrawlen).1, i.bytes_eq] at hall
  exact (List.append_cancel_left hall).symm

/-- **What `recv_block` makes of the stream**. -/
theorem PipeInv.recv {b : State} (hflow : Flows n key p sent rest raw) (hread : Reads n key p sent rest raw)
    (hne : l ≠ []) (hwire : p.wire = l ++ wire) (hask : l.length ≤ p.b.link.want - p.b.link.ibuf.length)
    (hseal : p.b.login.cryptFlag = .on ↔ n ≤ p.got.length)
    (hfirst : p.got.length = n → p.b.link.isize = none → p.b.link.ibuf = [] → p.b.link.keysIn = key)
    (hrecv : recvBlock configB env (.bytes l) p.b = (b, true))
    (hkeys : n < (p.got ++ delivered l p.b).length → b.link.keysIn = (recvBytes l p.b).link.keysIn) :
    PipeInv n key { p with wire := wire, b := b, got := p.got ++ delivered l p.b } := by
  obtain ⟨hlen, ⟨d, hibuf, hdec⟩, hkeysIn⟩ := hread.read hflow.got hask hseal hfirst
  have hb := recvBlock_arrived hrecv hne
  have hraw : raw ++ l ≠ [] := fun h => hne (List.append_eq_nil_iff.mp h).2
  obtain ⟨i, is, rfl, hshort, hstream⟩ := hflow.next hwire hraw
  obtain ⟨hsize, hmsg⟩ := mkhdr_read i.imsg i.body.length hshort
  have hspec := (recvBytes l p.b).link.arrived_spec
  have hlength : (raw ++ l).length = raw.length + l.length := List.length_append
  have hbytes := i.length_bytes
  have hheader := hread.whole_header hibuf hdec hstream
  unfold delivered at hkeys ⊢
  cases harr : (recvBytes l p.b).link.arrived with
  | nothing =>
    rw [harr] at hb hspec hkeys
    dsimp only at hb hspec hkeys ⊢
    subst hb
    rw [List.append_nil] at hkeys ⊢
    have hwant : (recvBytes l p.b).link.want = p.b.link.want := rfl
    refine ⟨sent, i :: is, raw ++ l, ⟨hflow.log, hflow.got, ?_, hflow.short, hflow.msgs, hflow.keysOut⟩,
      ⟨fun hisize => ?_,
      fun size hisize => ?_, fun hle _ => hkeysIn hle⟩⟩
    · rw [← hstream]
      simp only [List.append_assoc]
    · have hisize : p.b.link.isize = none := hisize
      obtain ⟨hlt, hraw⟩ := hread.header hisize
      have hrawlen := congrArg List.length hraw
      rw [length_deciphered] at hrawlen
      have htwo : p.b.link.want = 2 := by rw [Link.want, hisize]; rfl
      refine ⟨by omega, ?_⟩
      dsimp only
      rw [hibuf, hraw, hdec]
    · have hisize : p.b.link.isize = some size := hisize
      obtain ⟨j, js, hcons, hj, himsg, hlt, hpart⟩ := hread.body size hisize
      have hsz : p.b.link.want = size := by rw [Link.want, hisize]; rfl
      refine ⟨j, js, hcons, hj, himsg, by dsimp only; omega, ?_⟩
      dsimp only
      rw [hibuf, hdec, ← hpart, List.append_assoc]
  | header imsg size =>
    rw [harr] at hb hspec hkeys
    dsimp only at hb hspec hkeys ⊢
    obtain ⟨hisize, htwo, himsg, hsz, hnz⟩ := hspec
    obtain ⟨hrawlen, hhdr⟩ := hheader hisize htwo
    have hread' : size = i.body.length ∧ imsg = i.imsg := by
      rw [hsz, himsg, hhdr]
      exact ⟨hsize, hmsg⟩
    rw [List.append_nil] at hkeys ⊢
    refine ⟨sent, i :: is, raw ++ l, ⟨hflow.log, hflow.got, ?_, hflow.short, hflow.msgs, hflow.keysOut⟩,
      ⟨fun hnone => ?_,
      fun size' hsome => ?_, fun hle _ => ?_⟩⟩
    · rw [← hstream]
      simp only [List.append_assoc]
    · rw [hb] at hnone
      contradiction
    · rw [hb] at hsome ⊢
      obtain rfl := Option.some.inj hsome
      refine ⟨i, is, rfl, hread'.1, hread'.2, Nat.pos_of_ne_zero hnz, ?_⟩
      rw [hdec, ← (hread.header hisize).2, ← hibuf, hhdr]
      exact List.append_nil _
    · dsimp only
      rw [hb]
      exact hkeysIn hle
  | block imsg block =>
    rw [harr] at hb hspec hkeys
    dsimp only at hb hspec hkeys ⊢
    have hframe : (raw ++ l).length = i.bytes.length ∧ (imsg, block) = i.frame := by
      rcases hspec with ⟨hisize, htwo, himsg, hzero, rfl⟩ | ⟨size, hisize, hfull, himsg, rfl⟩
      · obtain ⟨hrawlen, hhdr⟩ := hheader hisize htwo
        have hbody : i.body.length = 0 := by
          rw [← hsize]
          exact (congrArg headerSize hhdr).symm.trans hzero
        refine ⟨by omega, ?_⟩
        rw [Item.frame, List.eq_nil_of_length_eq_zero hbody, himsg, hhdr]
        exact congrArg (·, []) hmsg
      · obtain ⟨hrawlen, hj, hbody⟩ := hread.whole_body hibuf hdec hstream hisize hfull
        have hmsg' : imsg = i.imsg := himsg.trans hj
        refine ⟨hrawlen, ?_⟩
        rw [Item.frame, hbody, hmsg']
    rw [hframe.2] at hkeys ⊢
    refine hflow.frame hwire hframe.1 hb.1 hb.2 fun hle => ?_
    rw [hkeys ?_]
    · exact hkeysIn hle
    · rw [hflow.got, List.length_append, List.length_map, List.length_singleton]
      omega

end

/-! ### The round trip -/

theorem PipeInv.step {p p' : Pipe} (hz : configA.WithinRoom) (hstep : PipeStep configA configB n key p p')
    (h : PipeInv n key p) : PipeInv n key p' := by
  obtain ⟨sent, rest, raw, hflow, hread⟩ := h
  cases hstep with
  | msg m text hshort hseal =>
    have hfit : (Item.msg m (text ++ [])).body.length + 2 ≤ maxBlksize := by
      rw [Item.body, List.append_nil, List.length_cons]
      omega
    have hlink : (msgSend2 m text [] p.a).link = p.a.link.queue p.a.login.cryptFlag (.msg m (text ++ [])) := rfl
    have hqueue := hflow.queue hseal hfit hlink
    exact ⟨sent, _, raw, hqueue, hread.sender _⟩
  | file m hseal =>
    have hshort : ∀ m : FileMsg, (Item.file m).body.length + 2 ≤ maxBlksize := by
      intro m
      have hmax : msgTextMax + 3 ≤ maxBlksize := by decide
      have htake : (m.text.take msgTextMax).length ≤ msgTextMax := List.length_take_le _ _
      rw [Item.body, List.length_cons]
      omega
    have hlink : (sendFileMsg m p.a).link = p.a.link.queue p.a.login.cryptFlag
        (.file { m with file := { m.file with f := none } }) := rfl
    have hqueue := hflow.queue hseal (hshort _) hlink
    exact ⟨sent, _, raw, hqueue, hread.sender _⟩
  | send env r hseal =>
    obtain ⟨more, hsend⟩ := hflow.send hz r hseal
    exact ⟨sent, rest ++ more, raw, hsend, hread.sender more⟩
  | sender a hmsgs hpend hlog hkeys =>
    have hmove : Flows n key { p with a := a } sent rest raw := by
      refine hflow.move hlog (fun m hm => hmsgs ▸ hm) ?_ hkeys
      rw [Link.outgoing, hmsgs, hpend]
      rfl
    have hsame : Reads n key { p with a := a } sent (rest ++ []) raw := hread.sender []
    rw [List.append_nil] at hsame
    exact ⟨sent, rest, raw, hmove, hsame⟩
  | recv env l wire b hne hwire hask hseal hfirst hrecv hkeys =>
    exact PipeInv.recv hflow hread hne hwire hask hseal hfirst hrecv hkeys
  | receiver b hisize himsg hibuf hkeys =>
    refine ⟨sent, rest, raw, ⟨hflow.log, hflow.got, hflow.flow, hflow.short, hflow.msgs, hflow.keysOut⟩,
      ⟨fun hnone => ?_, fun size hsome => ?_, fun hle hor => ?_⟩⟩
    · dsimp only at hnone ⊢
      rw [hibuf]
      exact hread.header (hisize.symm.trans hnone)
    · dsimp only at hsome ⊢
      rw [hibuf, himsg]
      exact hread.body size (hisize.symm.trans hsome)
    · dsimp only
      rw [← hread.keysIn hle hor]
      refine hkeys.resolve_left ?_
      rintro ⟨hcount, hnone, hempty⟩
      rw [hflow.got, List.length_map] at hcount
      rcases hor with hlt | hraw
      · omega
      · -- nothing of the next frame has been read
        have hdec := (hread.header hnone).2.symm.trans hempty
        have hlen := congrArg List.length hdec
        rw [length_deciphered] at hlen
        exact hraw (List.eq_nil_of_length_eq_zero hlen)

/-- Less than a frame has been read of the next one. -/
theorem Reads.part {p : Pipe} {sent is : List Item} {raw : List Byte} {i : Item}
    (h : Reads n key p sent (i :: is) raw) : raw.length < i.bytes.length := by
  rw [i.length_bytes]
  cases hsize : p.b.link.isize with
  | none =>
    have := (h.header hsize).1
    omega
  | some size =>
    obtain ⟨j, js, hcons, rfl, -, hlt, hpart⟩ := h.body size hsize
    obtain ⟨rfl, -⟩ := List.cons.inj hcons
    have hlen := congrArg List.length hpart
    rw [length_deciphered, List.length_append, i.length_header] at hlen
    omega

/-- **Framing**: what arrives is a prefix of what was sent, all of it once nothing is on its
way, and behind each frame the key of the receiver is the one of the sender behind it. -/
theorem framing_round_trip (configA configB : BinkdConfig) (n : ℕ) (key : Keys 64) (p0 p : Pipe)
    (hz : configA.WithinRoom) (fresh : p0.Fresh)
    (run : Relation.ReflTransGen (PipeStep configA configB n key) p0 p) :
    p.got <+: p.a.link.log.reverse.map Item.frame ∧
    (p.wire = [] → p.a.link.outgoing = [] → p.got = p.a.link.log.reverse.map Item.frame ∧
      (n < p.a.link.log.length → p.b.link.keysIn = p.a.link.keysOut)) ∧
    (n < p.got.length → p.b.link.isize = none → p.b.link.ibuf = [] → p.b.link.keysIn =
      keyAfter (crypt 64) Item.bytes n key (p.a.link.log.reverse.take p.got.length)) ∧
    (n < p.a.link.log.length →
      p.a.link.keysOut = keyAfter (crypt 64) Item.bytes n key p.a.link.log.reverse) := by
  have hinv : PipeInv n key p := by
    induction run with
    | refl => exact fresh.inv
    | tail _ hstep ih => exact ih.step hz hstep
  obtain ⟨sent, rest, raw, hflow, hread⟩ := hinv
  have hcount : p.got.length = sent.length := by rw [hflow.got, List.length_map]
  have hbehind : raw = [] → n < sent.length → p.b.link.keysIn = keyAfter (crypt 64) Item.bytes n key sent := by
    rintro rfl hlt
    have hnil : ∀ m k, deciphered (crypt 64) m k [] = [] :=
      fun m k => List.eq_nil_of_length_eq_zero length_deciphered
    rw [hread.keysIn hlt.le (.inl hlt), hnil]
    rfl
  refine ⟨?_, fun hwire hout => ?_, fun hlt hisize hibuf => ?_, hflow.keysOut⟩
  · rw [hflow.got, hflow.log, List.map_append]
    exact List.prefix_append _ _
  · have hraw := hflow.flow
    rw [hwire, hout, List.append_nil, List.append_nil] at hraw
    cases rest with
    | nil =>
      rw [stream] at hraw
      have hlog := hflow.log
      rw [List.append_nil] at hlog
      refine ⟨by rw [hflow.got, hlog], fun hlt => ?_⟩
      have hlen : p.a.link.log.length = sent.length := by rw [← List.length_reverse, hlog]
      rw [hbehind hraw (by omega), hflow.keysOut hlt, hlog]
    | cons i is =>
      have hpart := hread.part
      rw [hraw, stream_cons, List.length_append, length_stream_one] at hpart
      omega
  · have hraw : raw = [] := by
      have hlen := congrArg List.length ((hread.header hisize).2.symm.trans hibuf)
      rw [length_deciphered] at hlen
      exact List.eq_nil_of_length_eq_zero hlen
    rw [hbehind hraw (by omega), hflow.log, hcount, List.take_left]

/-- A side with the encryption on. -/
def sealedSide : State :=
  { toNode := none, remoteFa := none, rx := { inbound := [] }, login := { cryptFlag := .on } }

/-- Some of the bytes on the way are received. -/
def Pipe.receive (k : ℕ) (p : Pipe) : Pipe :=
  { p with
    wire := p.wire.drop k, b := (recvBlock (fidoConfig []) {} (.bytes (p.wire.take k)) p.b).1
    got := p.got ++ delivered (p.wire.take k) p.b }

/-- `send_block` is called. -/
def Pipe.sendBlock (r : SendResult) (p : Pipe) : Pipe :=
  { p with a := (Binkd.sendBlock (fidoConfig []) {} r p.a).1, wire := p.wire ++ written r p.a }

/-- A message without argument is queued, packed and sent, and received in two pieces. -/
def sealedPipe : Pipe :=
  (((Pipe.sendBlock .wouldBlock ⟨msgSend2 M_NUL [] [] sealedSide, [], sealedSide, []⟩).sendBlock
    (.sent 3)).receive 2).receive 1

theorem framing_round_trip_sealed : sealedPipe.got = [(true, [M_NUL])] ∧
    sealedPipe.got = sealedPipe.a.link.log.reverse.map Item.frame := by
  have hroom : (fidoConfig []).WithinRoom := fun _ _ k => List.length_take_le _ _
  have queue : PipeStep (fidoConfig []) (fidoConfig []) 0 ⟨0, 0, 0⟩ ⟨sealedSide, [], sealedSide, []⟩
      ⟨msgSend2 M_NUL [] [] sealedSide, [], sealedSide, []⟩ :=
        .msg _ M_NUL [] (by decide) (by decide +kernel)
  have pack : PipeStep (fidoConfig []) (fidoConfig []) 0 ⟨0, 0, 0⟩ ⟨msgSend2 M_NUL [] [] sealedSide, [], sealedSide, []⟩
      (Pipe.sendBlock .wouldBlock ⟨msgSend2 M_NUL [] [] sealedSide, [], sealedSide, []⟩) :=
    .send _ {} .wouldBlock (by decide +kernel)
  have receive : ∀ p k, p.wire.take k ≠ [] → (p.wire.take k).length ≤ p.b.link.want - p.b.link.ibuf.length →
      p.b.login.cryptFlag = .on → p.b.link.keysIn = ⟨0, 0, 0⟩ ∨ p.got.length ≠ 0 ∨
        p.b.link.isize ≠ none →
      (recvBlock (fidoConfig []) {} (.bytes (p.wire.take k)) p.b).2 = true →
      (recvBlock (fidoConfig []) {} (.bytes (p.wire.take k)) p.b).1.link.keysIn =
        (recvBytes (p.wire.take k) p.b).link.keysIn →
      PipeStep (fidoConfig []) (fidoConfig []) 0 ⟨0, 0, 0⟩ p (p.receive k) := by
    intro p k hne hask hon hkeys hlive hsame
    refine .recv p {} _ _ _ hne (List.take_append_drop k p.wire).symm hask ⟨fun _ => Nat.zero_le _,
      fun _ => hon⟩
      (fun hzero hnone _ => ?_) (Prod.ext rfl hlive) fun _ => hsame
    rcases hkeys with hkeys | hgot | hsome
    · exact hkeys
    · exact absurd hzero hgot
    · exact absurd hnone hsome
  have run := (((Relation.ReflTransGen.single queue).tail pack).tail
    (.send _ {} (.sent 3) (by decide +kernel))).tail (receive _ 2 (by decide +kernel) (by decide +kernel)
      (by decide +kernel) (.inl (by decide +kernel)) (by decide +kernel) (by decide +kernel))
  have run : Relation.ReflTransGen (PipeStep (fidoConfig []) (fidoConfig []) 0 ⟨0, 0, 0⟩)
      ⟨sealedSide, [], sealedSide, []⟩ sealedPipe :=
    run.tail (receive _ 1 (by decide +kernel) (by decide +kernel) (by decide +kernel) (.inr (.inr (by decide +kernel)))
      (by decide +kernel) (by decide +kernel))
  have hall := (framing_round_trip (fidoConfig []) (fidoConfig []) 0 ⟨0, 0, 0⟩ _ sealedPipe hroom
    ⟨rfl, rfl, rfl, rfl, rfl, rfl, rfl⟩ run).2.1 (by decide +kernel) (by decide +kernel)
  exact ⟨by decide +kernel, hall.1⟩

end Binkd
