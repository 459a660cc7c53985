import Binkd.Auth
import Binkd.Calling
import Binkd.Options

/-!
# The encryption of a session

`completeLogin` switches the encryption on by setting the whole of `cryptFlag` to
`YES_CRYPT`, and the input and output compare the whole of it.  While it stays so,
every frame is encrypted when it is queued or built, every byte that comes in is
decrypted, and both keys go on from where they are (`crypt_stays`).  It does not stay
so when the remote says `OPT CRYPT` once more, which adds a bit to the flag, or when an
`M_OK` with the word `non-secure` follows.
-/

namespace Binkd

open Lib

variable {config : BinkdConfig} {env : Env} {t : Byte} {buf : List Byte} {s s' : State}

/-! ### A connection whose bytes go through the cipher -/

/-- A message that does not fit into the output buffer is waiting; nothing more is sent. -/
def Link.TooBig (l : Link) : Prop := ∃ m ∈ l.msgs, maxBlksize < m.length - 2

/-- The bytes that are on their way out. -/
def Link.outgoing (l : Link) : List Byte := l.pend ++ l.msgs.flatten

/-- From one state of a connection to a later one everything went through the cipher:
the frames of the log on their way out, the bytes received on their way in. -/
structure Ciphered (l l' : Link) : Prop where
  sent : ∃ items : List Item, l'.log = items.reverse ++ l.log ∧
    l'.keysOut = (crypt 64).advance l.keysOut (items.flatMap Item.bytes) ∧
    (l'.TooBig ∨ (crypt 64).Encrypts (items.flatMap Item.bytes) l.keysOut l'.keysOut
      l.outgoing l'.outgoing)
  received : ∃ bytes, (crypt 64).Decrypts bytes l.keysIn l'.keysIn l.ibuf l'.ibuf
  tooBig : l.TooBig → l'.TooBig

namespace Ciphered

/-- Some bytes were taken from the buffers, and nothing else happened. -/
theorem taken {l l' : Link} (hlog : l'.log = l.log) (hout : l'.keysOut = l.keysOut)
    (hin : l'.keysIn = l.keysIn) (hbig : l.TooBig → l'.TooBig)
    (hsent : l'.TooBig ∨ ∃ n, l'.outgoing = l.outgoing.drop n) (hibuf : ∃ n, l'.ibuf = l.ibuf.drop n) :
    Ciphered l l' := by
  refine ⟨⟨[], hlog, hout, hsent.imp_right ?_⟩, ⟨[], ?_⟩, hbig⟩
  · rintro ⟨n, hn⟩
    rw [hout, hn]
    exact .taken _ _ n
  · obtain ⟨n, hn⟩ := hibuf
    rw [hin, hn]
    exact .taken _ _ n

theorem refl (l : Link) : Ciphered l l := taken rfl rfl rfl id (.inr ⟨0, rfl⟩) ⟨0, rfl⟩

theorem trans {a b c : Link} (h : Ciphered a b) (h' : Ciphered b c) : Ciphered a c := by
  obtain ⟨xs, hlog, hkeys, hsent⟩ := h.sent
  obtain ⟨ys, hlog', hkeys', hsent'⟩ := h'.sent
  obtain ⟨_, hin⟩ := h.received
  obtain ⟨_, hin'⟩ := h'.received
  refine ⟨⟨xs ++ ys, ?_, ?_, ?_⟩, ⟨_, hin.trans hin'⟩, fun hbig => h'.tooBig (h.tooBig hbig)⟩
  · rw [hlog', hlog, List.reverse_append, List.append_assoc]
  · rw [hkeys', hkeys, List.flatMap_append, (crypt 64).advance_append]
  · rcases hsent' with hbig | henc'
    · exact .inl hbig
    · rcases hsent with hbig | henc
      · exact .inl (h'.tooBig hbig)
      · rw [List.flatMap_append]
        exact .inr (henc.trans henc')

/-- A message is encrypted when it is queued. -/
theorem queue (i : Item) (l : Link) : Ciphered l (l.queue .on i) := by
  have henc : l.encode .on i.bytes =
      ((crypt 64).encrypt l.keysOut i.bytes, (crypt 64).advance l.keysOut i.bytes) := encryptBuf_eq _ _
  refine ⟨⟨[i], rfl, ?_, .inr ⟨?_, 0, ?_⟩⟩, ⟨[], .taken _ _ 0⟩, fun ⟨m, hm, hlen⟩ => ?_⟩
  · simp [Link.queue, henc]
  · simp [Link.queue, henc]
  · simp [Link.queue, Link.outgoing, henc]
  · exact ⟨m, List.mem_append_left _ hm, hlen⟩

theorem queueAll (items : List Item) (l : Link) : Ciphered l (l.queueAll .on items) := by
  induction items generalizing l with
  | nil => exact .refl l
  | cons i items ih => exact (queue i l).trans (ih _)

theorem queues {ok : Item → Prop} {l l' : Link} (h : Queues ok .on l l') : Ciphered l l' := by
  obtain ⟨items, -, rfl⟩ := h
  exact queueAll items l

/-- A data block is encrypted when it is built, which is when nothing else waits. -/
theorem build (payload : List Byte) {l : Link} (hp : l.pend = []) (hm : l.msgs = []) :
    Ciphered l (l.build .on payload) := by
  have henc : l.encode .on (Item.data payload).bytes =
      ((crypt 64).encrypt l.keysOut (Item.data payload).bytes,
        (crypt 64).advance l.keysOut (Item.data payload).bytes) := encryptBuf_eq _ _
  refine ⟨⟨[.data payload], rfl, ?_, .inr ⟨?_, 0, ?_⟩⟩, ⟨[], .taken _ _ 0⟩, fun ⟨m, hbig, _⟩ => ?_⟩
  · simp [Link.build, henc]
  · simp [Link.build, henc]
  · simp [Link.build, Link.outgoing, henc, hp, hm]
  · simp [hm] at hbig

/-- Bytes are decrypted when they are read. -/
theorem read (bytes : List Byte) (l : Link) : Ciphered l (l.read .on bytes) := by
  have hdec := decryptBuf_eq bytes l.keysIn
  refine ⟨⟨[], rfl, rfl, .inr (.taken _ _ 0)⟩, ⟨bytes, ?_, 0, ?_⟩, id⟩
  · simp [Link.read, hdec]
  · simp [Link.read, hdec]

end Ciphered

/-! ### Packing -/

/-- What was packed and what is left are the messages; none is left out. -/
theorem fillObuf_some {msgs rest : List (List Byte)} {acc obuf : List Byte}
    (h : fillObuf msgs acc = some (obuf, rest)) : obuf ++ rest.flatten = acc ++ msgs.flatten ∧
      ∀ m ∈ msgs, maxBlksize < m.length - 2 → m ∈ rest := by
  induction msgs generalizing acc with
  | nil =>
    obtain ⟨rfl, rfl⟩ := Prod.mk.inj (Option.some.inj h)
    exact ⟨rfl, fun m hm => absurd hm List.not_mem_nil⟩
  | cons m msgs ih =>
    unfold fillObuf at h
    split at h
    · contradiction
    · next hfit =>
      split at h
      · obtain ⟨rfl, rfl⟩ := Prod.mk.inj (Option.some.inj h)
        exact ⟨rfl, fun m hm _ => hm⟩
      · obtain ⟨hflat, hbig⟩ := ih h
        refine ⟨by rw [hflat, List.flatten_cons, List.append_assoc], fun m' hm' hlen => ?_⟩
        rcases List.mem_cons.mp hm' with rfl | hm'
        · exact absurd hlen hfit
        · exact hbig m' hm' hlen

/-- Packing fails at a message that is too big, which stays in the queue. -/
theorem fillObuf_none {msgs : List (List Byte)} {acc : List Byte} (h : fillObuf msgs acc = none) :
    ∃ m ∈ msgs.drop (msgs.takeWhile fun m => m.length - 2 ≤ maxBlksize).length,
      maxBlksize < m.length - 2 := by
  induction msgs generalizing acc with
  | nil => simp [fillObuf] at h
  | cons m msgs ih =>
    unfold fillObuf at h
    split at h
    · next hbig =>
      have hneg : ¬ decide (m.length - 2 ≤ maxBlksize) = true :=
        fun hle => absurd (of_decide_eq_true hle) (Nat.not_le.mpr hbig)
      refine ⟨m, ?_, hbig⟩
      rw [@List.takeWhile_cons_of_neg _ (fun m : List Byte => decide (m.length - 2 ≤ maxBlksize)) m msgs hneg]
      exact List.mem_cons_self
    · next hfit =>
      split at h
      · contradiction
      · rw [List.takeWhile_cons_of_pos (by simpa using hfit)]
        exact ih h

theorem sendMsgs_ciphered (env : Env) {s : State} (hp : s.link.pend = []) :
    Ciphered s.link (sendMsgs env s).1.link := by
  unfold sendMsgs
  split
  · next obuf msgs heq =>
    obtain ⟨hflat, hbig⟩ := fillObuf_some heq
    refine .taken rfl rfl rfl (fun ⟨m, hm, hlen⟩ => ⟨m, hbig m hm hlen, hlen⟩) (.inr ⟨0, ?_⟩) ⟨0, rfl⟩
    simp [Link.outgoing, hflat, hp]
  · next heq =>
    have hbig := fillObuf_none heq
    exact .taken rfl rfl rfl (fun _ => hbig) (.inl hbig) ⟨0, rfl⟩

/-! ### The invariant -/

/-- Only a session that logged in with a password has the encryption on. -/
def CryptInv (s : State) : Prop :=
  s.login.cryptFlag.yes = true → s.login.state = .secure ∧ ∀ n ∈ s.toNode, n.outPwdText ≠ str "-"

theorem loginCrypt_yes {l : Login} (h : (loginCrypt l).yes = true) : l.state = .secure := by
  by_contra hne
  rw [loginCrypt, if_pos hne] at h
  contradiction

theorem CryptInv.same (h : CryptInv s) (hto : s'.toNode = s.toNode)
    (hyes : s'.login.cryptFlag.yes = s.login.cryptFlag.yes) (hstate : s'.login.state = s.login.state) :
    CryptInv s' := by
  intro hon
  rw [hyes] at hon
  rw [hto, hstate]
  exact h hon

theorem CryptInv.act (h : CryptInv s) (hact : Act config env s s') : CryptInv s' := by
  obtain ⟨_, _, hl⟩ := hact.frame.login
  exact h.same hact.frame.toNode (by rw [hl]) (by rw [hl])

theorem okLogin_secure {n : FtnNode} {tail buf : List Byte} {l : Login}
    (h : (okLogin n tail buf l).state = .secure) : n.outPwdText ≠ str "-" := by
  intro hout
  have hstate : (okLogin n tail buf l).state = .nonsecure := by
    unfold okLogin
    dsimp only
    split_ifs <;> first | rfl | contradiction
  rw [hstate] at h
  contradiction

theorem CryptInv.handle (h : CryptInv s) (config : BinkdConfig) (env : Env) (t : Byte)
    (buf : List Byte) : CryptInv (handle config env t buf s).1 := by
  have hs := handshake config env t buf s
  generalize (Binkd.handle config env t buf s).1 = s' at hs
  cases hs with
  | nul =>
    have hk := nulLogin_keeps config s.toNode env.tail buf s.login
    exact h.same rfl hk.yesCrypt hk.state
  | adr =>
    have hf := ADR_frame config env buf s
    obtain ⟨_, _, _, _, _, _, _, _, hl⟩ := hf.login
    exact h.same hf.toNode (by rw [hl]) (by rw [hl])
  | pwd =>
    by_cases hto : s.toNode = none
    · obtain ⟨hpwd, hto'⟩ := PWD_state config env buf hto
      cases hpwd with
      | same hs hl =>
        obtain ⟨_, hl⟩ := hl
        exact h.same hs.toNode (by rw [hl]) (by rw [hl])
      | granted state m ext want hs =>
        intro hon
        rw [hs.login] at hon ⊢
        refine ⟨loginCrypt_yes (l := granted s.login m state ext want) hon, fun n hn => ?_⟩
        rw [hs.toNode, hto] at hn
        contradiction
    · unfold PWD
      rw [if_pos (Option.isSome_iff_ne_none.mpr hto)]
      exact h
  | ok =>
    unfold OK
    split
    · exact h
    · next n hto =>
      obtain ⟨_, _, _, heq, -⟩ := completeLogin_spec config env
        { s with login := okLogin n env.tail buf s.login }
      rw [heq]
      intro hon
      have hsecure := loginCrypt_yes hon
      refine ⟨hsecure, fun n' hn' => ?_⟩
      obtain rfl : n = n' := by simpa [hto] using hn'
      exact okLogin_secure hsecure
  | other _ hf =>
    obtain ⟨_, _, hl⟩ := hf.login
    exact h.same hf.toNode (by rw [hl]) (by rw [hl])

/-! ### The messages of a session that is encrypted -/

/-- The encryption is on, and everything since `l` went through the cipher. -/
structure CryptOn (l : Link) (s : State) : Prop where
  inv : CryptInv s
  flag : s.login.cryptFlag = .on
  link : Ciphered l s.link

/-- No `M_NUL` asks for the encryption again, and no `M_OK` calls it off. -/
def KeepsCrypt (config : BinkdConfig) (i : Input) (s : State) : Prop :=
  Meets config (fun a t buf => (t = M_NUL → str "CRYPT" ∉ optWords i.env.tail buf) ∧
    (t = M_OK → a.toNode.isSome → okNonsecure i.env.tail buf = false)) i s

instance (config : BinkdConfig) (i : Input) (s : State) : Decidable (KeepsCrypt config i s) :=
  inferInstanceAs (Decidable (Meets config _ i s))

theorem RecvFrame.ciphered (h : RecvFrame s s') (hon : s.login.cryptFlag = .on) :
    Ciphered s.link s'.link := .queues (hon ▸ h.link)

theorem SendFrame.ciphered (h : SendFrame s s') (hon : s.login.cryptFlag = .on) :
    Ciphered s.link s'.link := .queues (hon ▸ h.link)

theorem Act.ciphered (h : Act config env s s') (hon : s.login.cryptFlag = .on) :
    Ciphered s.link s'.link := by
  cases h with
  | outside => exact .refl _
  | @queued e q _ _ =>
    exact SendFrame.ciphered (s := { s with tx := { s.tx with q := q } })
      (startFileTransfer_frame config env (some e) _) hon
  | floLine => exact (startFileTransfer_frame config env none s).ciphered hon
  | noFile => exact .refl _
  | eob =>
    show Ciphered s.link (s.link.queue s.login.cryptFlag _)
    rw [hon]
    exact .queue _ _
  | batch =>
    obtain ⟨_, hl⟩ := (endBatch_frame config env s).link
    rw [hl]
    exact .taken rfl rfl rfl id (.inr ⟨0, rfl⟩) ⟨0, rfl⟩
  | ioError => exact .taken rfl rfl rfl id (.inr ⟨0, rfl⟩) ⟨0, rfl⟩
  | read =>
    unfold recvBytes
    rw [hon]
    exact .read _ _
  | header => exact .taken rfl rfl rfl id (.inr ⟨0, rfl⟩) ⟨_, List.drop_length.symm⟩
  | count => exact .taken rfl rfl rfl id (.inr ⟨0, rfl⟩) ⟨0, rfl⟩
  | data => exact (recvData_frame config env _ s).ciphered hon
  | nextHeader => exact .taken rfl rfl rfl id (.inr ⟨0, rfl⟩) ⟨_, List.drop_length.symm⟩
  | dropBlock => exact .taken rfl rfl rfl id (.inr ⟨0, rfl⟩) ⟨_, List.drop_length.symm⟩
  | pend n =>
    refine .taken rfl rfl rfl id (.inr ⟨min n s.link.pend.length, ?_⟩) ⟨0, rfl⟩
    simp only [Link.outgoing]
    rw [List.drop_append_of_le_length (Nat.min_le_right _ _)]
    rcases Nat.le_total n s.link.pend.length with hle | hle
    · rw [Nat.min_eq_left hle]
    · rw [Nat.min_eq_right hle, List.drop_of_length_le hle, List.drop_length]
  | pack hp => exact sendMsgs_ciphered env hp
  | block hp hm =>
    have hout := sendData_outcome config env s
    generalize sendData config env s = r at hout
    have hbuild : ∀ payload, Ciphered s.link (s.link.build s.login.cryptFlag payload) := by
      rw [hon]
      exact fun payload => .build payload hp hm
    cases hout with
    | empty => exact hbuild []
    | failed => exact .refl _
    | more _ _ payload => exact hbuild payload
    | last _ _ payload => exact hbuild payload

/-- A second `M_OK` that does not call the encryption off keeps the flag and the keys. -/
theorem OK_on (h : CryptInv s) (hon : s.login.cryptFlag = .on)
    (hok : s.toNode.isSome → okNonsecure env.tail buf = false) :
    (OK config env buf s).1.login.cryptFlag = .on ∧ Ciphered s.link (OK config env buf s).1.link := by
  unfold OK
  split
  · exact ⟨hon, .refl _⟩
  · next n hto =>
    have hout : n.outPwdText ≠ str "-" := (h (by rw [hon]; rfl)).2 n hto
    have hword : okNonsecure env.tail buf = false := hok (by simp [hto])
    have hkeep : ¬ (n.outPwdText ≠ str "-" ∧ okNonsecure env.tail buf = true) := by simp [hword]
    have hlogin : (okLogin n env.tail buf s.login).state = .secure ∧
        (okLogin n env.tail buf s.login).cryptFlag = .on := by
      unfold okLogin
      dsimp only
      rw [if_pos hout, if_neg hkeep]
      split_ifs <;> exact ⟨rfl, hon⟩
    have hboth : CryptFlag.on ≠ CryptFlag.both := by decide
    obtain ⟨_, _, _, heq, -⟩ := completeLogin_spec config env
      { s with login := okLogin n env.tail buf s.login }
    rw [heq]
    refine ⟨?_, ?_⟩
    · simp [completed, loginCrypt, hlogin, hboth]
    · have hkeys : loginSetsKeys (okLogin n env.tail buf s.login) = false := by
        simp [loginSetsKeys, hlogin, hboth]
      simp only [Link.completed, hkeys, Bool.false_eq_true, if_false]
      exact .taken rfl rfl rfl id (.inr ⟨0, rfl⟩) ⟨0, rfl⟩

/-- An `M_NUL` that does not ask for the encryption again leaves it on. -/
theorem nulLogin_on (config : BinkdConfig) (toNode : Option FtnNode) {tail buf : List Byte} {l : Login}
    (hon : l.cryptFlag = .on) (hnul : str "CRYPT" ∉ optWords tail buf) :
    (nulLogin config toNode tail buf l).cryptFlag = .on := by
  have hk := nulLogin_keeps config toNode tail buf l
  have hthey := nulLogin_crypt config toNode tail buf l
  have hwe := hk.weCrypt
  have hyes := hk.yesCrypt
  rw [List.contains_eq_mem, decide_eq_false hnul] at hthey
  rw [hon] at hthey hwe hyes
  generalize (nulLogin config toNode tail buf l).cryptFlag = c at hthey hwe hyes
  obtain ⟨we, they, yes⟩ := c
  simp only [Bool.or_false] at hthey
  rw [show we = _ from hwe, show they = _ from hthey, show yes = _ from hyes]

/-- A message that keeps the encryption leaves it on, and is answered through the cipher. -/
theorem CryptOn.handle {l : Link} (h : CryptOn l s)
    (hnul : t = M_NUL → str "CRYPT" ∉ optWords env.tail buf)
    (hok : t = M_OK → s.toNode.isSome → okNonsecure env.tail buf = false) :
    CryptOn l (handle config env t buf s).1 := by
  obtain ⟨hstate, hout⟩ := h.inv (by rw [h.flag]; rfl)
  refine ⟨h.inv.handle config env t buf, ?_, h.link.trans ?_⟩
  · have hs := handshake config env t buf s
    generalize (Binkd.handle config env t buf s).1 = s' at hs
    cases hs with
    | nul ht => exact nulLogin_on config s.toNode h.flag (hnul ht)
    | adr =>
      obtain ⟨_, _, _, _, _, _, _, _, hl⟩ := (ADR_frame config env buf s).login
      rw [hl]
      exact h.flag
    | pwd =>
      rw [(PWD_again config env buf s (by simp [hstate])).2]
      exact h.flag
    | ok ht => exact (OK_on h.inv h.flag (hok ht)).1
    | other _ hf =>
      obtain ⟨_, _, hl⟩ := hf.login
      rw [hl]
      exact h.flag
  · have hs := handled config env t buf s
    generalize (Binkd.handle config env t buf s).1 = s' at hs
    cases hs with
    | nul => exact .refl _
    | adr => exact .queues (h.flag ▸ (ADR_frame config env buf s).link)
    | pwd => exact .queues (h.flag ▸ (PWD_again config env buf s (by simp [hstate])).1.link)
    | file => exact (startFileRecv_frame config env buf s).ciphered h.flag
    | ok ht => exact (OK_on h.inv h.flag (hok ht)).2
    | eob => exact (EOB_frame config env s).ciphered h.flag
    | got => exact (GOT_frame config env buf s).ciphered h.flag
    | get => exact (GET_frame config env buf s).ciphered h.flag
    | skip => exact (SKIP_frame config env buf s).ciphered h.flag
    | ignored => exact .refl _

theorem CryptOn.act {l : Link} (h : CryptOn l s) (hact : Act config env s s') : CryptOn l s' := by
  obtain ⟨_, _, hl⟩ := hact.frame.login
  exact ⟨h.inv.act hact, by rw [hl]; exact h.flag, h.link.trans (hact.ciphered h.flag)⟩

theorem CryptOn.iterate {l : Link} {i : Input} (h : CryptOn l s) (hi : KeepsCrypt config i s) :
    CryptOn l (iterate config i s).1 := by
  refine iterate_induction (fun a b hact ha => ha.act hact) (fun a t buf harr ha => ?_) h
  obtain ⟨hnul, hok⟩ := hi (a, t, buf) harr
  exact ha.handle hnul hok

/-- A complete block is what was read into the buffer. -/
theorem arrived_block {l : Link} {imsg : Bool} {b : Byte} {block : List Byte}
    (h : l.arrived = .block imsg (b :: block)) : l.ibuf = b :: block := by
  unfold Link.arrived at h
  split at h
  · split at h
    · split at h
      · simp at h
      · simp at h
    · exact (Arrived.block.inj h).2
  · simp at h

/-- The message of a round is read from the buffer. -/
theorem arrives_ibuf {i : Input} {a : State} (h : arrives config i s = some (a, t, buf)) :
    a.link.ibuf = t :: buf := by
  unfold arrives at h
  dsimp only at h
  split_ifs at h
  split at h
  · split_ifs at h
    split at h
    · next heq =>
      simp only [Option.some.injEq, Prod.mk.injEq] at h
      obtain ⟨rfl, rfl, rfl⟩ := h
      exact arrived_block heq
    · contradiction
  · contradiction

theorem Acts.cryptOn {l : Link} (h : CryptOn l s) (hacts : Acts config env s s') : CryptOn l s' := by
  induction hacts with
  | refl => exact h
  | tail _ hact ih => exact ih.act hact

/-- The message of a round was decrypted. -/
def MessageCiphered (config : BinkdConfig) (i : Input) (s : State) : Prop :=
  ∀ a t buf, arrives config i s = some (a, t, buf) →
    a.login.cryptFlag = .on ∧ Ciphered s.link a.link ∧ a.link.ibuf = t :: buf

theorem CryptOn.message {l : Link} (h : CryptOn l s) (i : Input) : MessageCiphered config i s := by
  intro a t buf harr
  cases iterate_acts config i s with
  | quiet hnone => simp [hnone] at harr
  | message a' t' buf' harr' before =>
    rw [harr] at harr'
    simp only [Option.some.injEq, Prod.mk.injEq] at harr'
    obtain ⟨rfl, rfl, rfl⟩ := harr'
    have ha := Acts.cryptOn (⟨h.inv, h.flag, .refl _⟩ : CryptOn s.link s) before
    exact ⟨ha.flag, ha.link, arrives_ibuf harr⟩

/-! ### Runs -/

/-- **No downgrade**: from a state of a session with the encryption on, while the remote
neither asks for it again nor calls it off, it stays on, all frames go through the cipher
with the keys of that state, and so does every message that comes in. -/
theorem crypt_stays (config : BinkdConfig) (env : Env) (disk : Disk) (peerName ipaddr : Str)
    (to_ : Option FtnNode) (fa : Option FtnAddr) (s : State)
    (login : Reachable config (fun _ _ => True) (start config env disk peerName ipaddr to_ fa) s true)
    (hon : s.login.cryptFlag = .on) (s' : State) (live : Bool)
    (run : Reachable config (KeepsCrypt config) s s' live) :
    s'.login.cryptFlag = .on ∧ Ciphered s.link s'.link ∧ ∀ i, MessageCiphered config i s' := by
  have hinv : CryptInv s := by
    refine login.invariant (fun s _ => CryptInv s) ?_ fun i s h _ => ?_
    · intro hyes
      rw [(start_opening config env disk peerName ipaddr to_ fa).cryptFlag] at hyes
      contradiction
    · exact iterate_induction (fun _ _ hact ha => ha.act hact)
        (fun _ t buf _ ha => ha.handle config i.env t buf) h
  have hrun : CryptOn s.link s' :=
    run.invariant (fun s' _ => CryptOn s.link s') ⟨hinv, hon, .refl _⟩ fun i s' h hi => h.iterate hi
  exact ⟨hrun.flag, hrun.link, hrun.message⟩

/-- A call that logs in with a digest, both sides able to encrypt. -/
def cryptCall : List Input :=
  Input.message {} M_NUL (str "OPT CRAM-MD5-00 CRYPT") ++ Input.message {} M_ADR (str "2:5020/1") ++
    Input.message {} M_OK (str "secure")

/-- The session after this login. -/
def cryptSession : State := after (iterate (fidoConfig [calledNode])) cryptCall callStart

/-- The two rounds of an encrypted message. -/
def Input.sealed (keys : Keys 64) (t : Byte) (text : Str) : List Input :=
  let header := encryptBuf (mkhdr ((text.length + 1) ||| 0x8000)) keys
  [⟨{}, .ready (some (.bytes header.1)) none⟩,
    ⟨{}, .ready (some (.bytes (encryptBuf (t :: text) header.2).1)) none⟩]

/-- The encrypted session after one more `M_NUL`. -/
def cryptAfter (text : Str) : State :=
  after (iterate (fidoConfig [calledNode])) (Input.sealed cryptSession.link.keysIn M_NUL text) cryptSession

/-- Another `OPT CRYPT` ends the encryption. -/
theorem lateCrypt_downgrades :
    Reachable (fidoConfig [calledNode]) (fun _ _ => True) callStart cryptSession true ∧
    cryptSession.login.cryptFlag = .on ∧
    Reachable (fidoConfig [calledNode]) (fun _ _ => True) cryptSession
    (cryptAfter (str "OPT CRYPT")) true ∧
    (cryptAfter (str "OPT CRYPT")).login.cryptFlag ≠ .on :=
  ⟨Run.of_inputs (by decide +kernel), by decide +kernel, Run.of_inputs (by decide +kernel),
    by decide +kernel⟩

/-- Another option does not. -/
theorem crypt_stays_nr : (cryptAfter (str "OPT NR")).login.cryptFlag = .on ∧
    Ciphered cryptSession.link (cryptAfter (str "OPT NR")).link ∧
    ∀ i, MessageCiphered (fidoConfig [calledNode]) i (cryptAfter (str "OPT NR")) :=
  crypt_stays (fidoConfig [calledNode]) {} ∅ [] [] (some calledNode) none cryptSession
    (Run.of_inputs (by decide +kernel)) (by decide +kernel) _ true (Run.of_inputs (by decide +kernel))

end Binkd
