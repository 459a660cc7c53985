import Binkd.Auth
import Binkd.Frame.Answers
import Binkd.Opening
import Binkd.Options

/-!
# The NR and ND modes

`completeLogin` makes ND mode imply NR mode, so that a new file is announced by an
offset request and nothing of it is sent before the remote has asked for it
(`nd_presumes_nr`).  Nothing keeps it so: an `OPT ND` after the login sets the one flag
without the other, an `M_SKIP` for another file clears a request that is open, and an
empty block that is still due makes the next file go out at once.
-/

namespace Binkd

open Lib

variable {config : BinkdConfig} {env : Env} {t : Byte} {buf : List Byte} {s s' : State}

/-! ### The last announcement -/

/-- The last `M_FILE` of a log. -/
def lastFile : List Item → Option FileMsg
  | [] => none
  | .file m :: _ => some m
  | _ :: log => lastFile log

/-- The last `M_FILE` names an offset. -/
def Offered (log : List Item) : Prop := ∃ m ∈ lastFile log, m.off.isSome

/-- Every data block with content follows an `M_FILE` that names an offset. -/
def DataAsked : List Item → Prop
  | [] => True
  | .data payload :: log => (payload ≠ [] → Offered log) ∧ DataAsked log
  | _ :: log => DataAsked log

theorem lastFile_reply {i : Item} (h : i.isReply = true) (log : List Item) :
    lastFile (i :: log) = lastFile log := by
  cases i with
  | msg => rfl
  | file => contradiction
  | data => contradiction

theorem dataAsked_msg {i : Item} (h : i.imsg = true) {log : List Item} (hlog : DataAsked log) :
    DataAsked (i :: log) := by
  cases i with
  | msg => exact hlog
  | file => exact hlog
  | data => contradiction

theorem Item.imsg_of_isReply {i : Item} (h : i.isReply = true) : i.imsg = true := by
  cases i with
  | msg => rfl
  | file => contradiction
  | data => contradiction

/-- Replies change neither. -/
theorem Queues.reply_log {crypt : CryptFlag} {l l' : Link} (h : Queues (·.isReply) crypt l l') :
    lastFile l'.log = lastFile l.log ∧ (DataAsked l.log → DataAsked l'.log) := by
  obtain ⟨items, hitems, rfl⟩ := h
  induction items generalizing l with
  | nil => exact ⟨rfl, id⟩
  | cons i items ih =>
    have hi := hitems i List.mem_cons_self
    obtain ⟨h1, h2⟩ := ih (l := l.queue crypt i) fun j hj => hitems j (List.mem_cons_of_mem i hj)
    exact ⟨h1.trans (lastFile_reply hi l.log),
      fun h => h2 (dataAsked_msg (Item.imsg_of_isReply hi) h)⟩

/-! ### The invariant -/

/-- The invariant of the modes. -/
structure ModeInv (s : State) : Prop where
  /-- a session that has not logged in sends in plain -/
  plain : s.login.state = .null → s.login.cryptFlag.yes = false
  nr : s.login.state ≠ .null → s.login.ndFlag.we = true → s.login.nrFlag.we = true
  asked : DataAsked s.link.log
  file : s.tx.out.f.isSome → Offered s.link.log ∨ s.tx.offReqSent = true ∧ s.tx.sendEof = false
  eof : s.tx.sendEof = true → s.tx.waitingForGOT = true

/-- The part of the invariant that is left when a handler has stopped the session. -/
structure ModeEnd (s : State) : Prop where
  nr : s.login.state ≠ .null → s.login.ndFlag.we = true → s.login.nrFlag.we = true
  asked : DataAsked s.link.log

/-- The same login and the same file, with replies in the queue. -/
theorem ModeInv.reply (h : ModeInv s) (hstate : s'.login.state = s.login.state)
    (hcrypt : s'.login.cryptFlag.yes = s.login.cryptFlag.yes)
    (hnd : s'.login.ndFlag.we = s.login.ndFlag.we) (hnr : s'.login.nrFlag.we = s.login.nrFlag.we)
    {c : CryptFlag} (hlink : Queues (·.isReply) c s.link s'.link) (hf : s'.tx.out.f = s.tx.out.f)
    (hoff : s'.tx.offReqSent = s.tx.offReqSent) (heof : s'.tx.sendEof = s.tx.sendEof)
    (hw : s'.tx.waitingForGOT = s.tx.waitingForGOT) : ModeInv s' := by
  obtain ⟨hlast, hasked⟩ := hlink.reply_log
  refine ⟨?_, ?_, hasked h.asked, ?_, ?_⟩
  · rw [hstate, hcrypt]
    exact h.plain
  · rw [hstate, hnd, hnr]
    exact h.nr
  · rw [hf, Offered, hlast, hoff, heof]
    exact h.file
  · rw [heof, hw]
    exact h.eof

theorem ModeInv.recv (h : ModeInv s) (hf : RecvFrame s s') : ModeInv s' := by
  obtain ⟨_, _, hl⟩ := hf.login
  obtain ⟨_, htx, -⟩ := hf.tx
  exact h.reply (by rw [hl]) (by rw [hl]) (by rw [hl]) (by rw [hl]) hf.link (by rw [htx]) (by rw [htx])
    (by rw [htx]) (by rw [htx])

/-- Nothing that the invariant speaks about changes. -/
theorem ModeInv.same (h : ModeInv s) (hl : s'.login = s.login) (hlog : s'.link.log = s.link.log)
    (hf : s'.tx.out.f = s.tx.out.f) (hoff : s'.tx.offReqSent = s.tx.offReqSent)
    (heof : s'.tx.sendEof = s.tx.sendEof) (hw : s'.tx.waitingForGOT = s.tx.waitingForGOT) :
    ModeInv s' := by
  refine ⟨?_, ?_, ?_, ?_, ?_⟩
  · rw [hl]
    exact h.plain
  · rw [hl]
    exact h.nr
  · rw [hlog]
    exact h.asked
  · rw [hf, hlog, hoff, heof]
    exact h.file
  · rw [heof, hw]
    exact h.eof

/-! ### Sending -/

theorem ModeInv.start (h : ModeInv s) (hready : s.Ready) (q : Queue) (file : Option Ftnq) :
    ModeInv (startFileTransfer config env file { s with tx := { s.tx with q := q } }).1 := by
  have heof : s.tx.sendEof = false := by
    by_contra hne
    have hw := h.eof (by simpa using hne)
    rw [hready.waitingForGOT] at hw
    contradiction
  rcases startFileTransfer_outcome config env file { s with tx := { s.tx with q := q } } with
    ⟨⟨disk, flo, o, k, n, m, a, w, i, heq, ho, hw, -⟩, -⟩ | ⟨s1, hp, hd, hr⟩
  · rw [heq]
    refine ⟨h.plain, h.nr, h.asked, fun hf => ?_, fun he => ?_⟩
    · simp [ho] at hf
    · simp [heof] at he
  · obtain ⟨z, od, extra, ha⟩ := announce_eq config env hd
    obtain ⟨disk, flo, k, n, m, a, hs1⟩ := hp.eq
    have hlogin : s1.login = s.login := by rw [hs1]
    have hlog : s1.link.log = s.link.log := by rw [hs1]
    have hs1eof : s1.tx.sendEof = s.tx.sendEof := by rw [hs1]
    rw [hr, ha]
    refine ⟨?_, ?_, ?_, fun _ => ?_, fun he => ?_⟩
    · dsimp only
      rw [hlogin]
      exact h.plain
    · dsimp only
      rw [hlogin]
      exact h.nr
    · show DataAsked s1.link.log
      rw [hlog]
      exact h.asked
    · cases hnr : s1.login.nrFlag.we with
      | true => exact .inr ⟨by simp, hs1eof.trans heof⟩
      | false =>
        refine .inl ⟨_, rfl, ?_⟩
        simp only [firstOffset, hnr]
        rw [if_neg (by simp)]
        split <;> rfl
    · have he' : s1.tx.sendEof = true := he
      rw [hs1eof, heof] at he'
      contradiction

theorem ModeInv.block (h : ModeInv s)
    (hsend : (s.tx.out.f.isSome && !s.tx.offReqSent && !s.tx.waitingForGOT) || s.tx.sendEof) :
    ModeInv (sendData config env s).1 := by
  have hoffered : s.tx.out.f.isSome → Offered s.link.log := by
    intro hf
    rcases h.file hf with hoff | ⟨hreq, heof⟩
    · exact hoff
    · simp [hreq, heof] at hsend
  have hout := sendData_outcome config env s
  generalize sendData config env s = r at hout
  cases hout with
  | empty hf =>
    refine ⟨h.plain, h.nr, ⟨fun hne => absurd rfl hne, h.asked⟩, fun hsome => ?_, fun he => ?_⟩
    · simp [hf] at hsome
    · simp at he
  | failed => exact h
  | more h1 hf payload h' z od ob =>
    have hoff := hoffered (by simp [hf])
    exact ⟨h.plain, h.nr, ⟨fun _ => hoff, h.asked⟩, fun _ => .inl hoff, h.eof⟩
  | last h1 hf payload h' z od ob =>
    have hoff := hoffered (by simp [hf])
    refine ⟨h.plain, h.nr, ⟨fun _ => hoff, h.asked⟩, fun hsome => ?_, fun he => ?_⟩
    · simp [TFile.zero] at hsome
    · simp [h.eof he]

theorem ModeInv.act (h : ModeInv s) (hact : Act config env s s') : ModeInv s' := by
  cases hact with
  | outside disk => exact h.same rfl rfl rfl rfl rfl rfl
  | queued hready hq => exact h.start hready _ _
  | floLine hready => exact h.start hready s.tx.q none
  | noFile => exact h.same rfl rfl rfl rfl rfl rfl
  | eob => exact h.reply rfl rfl rfl rfl (.one (by rfl) s.link) rfl rfl rfl rfl
  | batch =>
    have hb := endBatch_frame config env s
    obtain ⟨_, hl⟩ := hb.link
    obtain ⟨_, _, _, _, htx⟩ := hb.tx
    exact h.same hb.login (by rw [hl]) (by rw [htx]) (by rw [htx]) (by rw [htx]) (by rw [htx])
  | ioError => exact h.same rfl rfl rfl rfl rfl rfl
  | read => exact h.same rfl rfl rfl rfl rfl rfl
  | header => exact h.same rfl rfl rfl rfl rfl rfl
  | count => exact h.same rfl rfl rfl rfl rfl rfl
  | data => exact h.recv (recvData_frame config env _ s)
  | nextHeader => exact h.same rfl rfl rfl rfl rfl rfl
  | dropBlock => exact h.same rfl rfl rfl rfl rfl rfl
  | pend => exact h.same rfl rfl rfl rfl rfl rfl
  | pack =>
    obtain ⟨_, _, heq⟩ := sendMsgs_spec env s
    rw [heq]
    exact h.same rfl rfl rfl rfl rfl rfl
  | block _ _ hsend => exact h.block hsend

/-! ### The messages -/

/-- `OPT ND` comes with NR mode. -/
def NdWithNr (env : Env) (s : State) (buf : List Byte) : Prop :=
  s.login.state ≠ .null → str "ND" ∈ optWords env.tail buf →
    str "NR" ∈ optWords env.tail buf ∨ s.login.nrFlag.we = true

instance (env : Env) (s : State) (buf : List Byte) : Decidable (NdWithNr env s buf) :=
  inferInstanceAs (Decidable (_ → _ → _ ∨ _))

/-- An open request is skipped by its own name only. -/
def SkipsRequest (s : State) (buf : List Byte) : Prop :=
  s.tx.offReqSent = true → s.tx.out.f.isSome = true → ∀ f ∈ namedFile 3 buf, s.tx.out.Named f

instance (s : State) (buf : List Byte) : Decidable (SkipsRequest s buf) :=
  inferInstanceAs (Decidable (_ → _ → ∀ f ∈ namedFile 3 buf, s.tx.out.Named f))

/-- The file is one that is in transfer or has been sent. -/
def Outstanding (argc : Nat) (s : State) (buf : List Byte) : Prop :=
  ∃ f ∈ namedFile argc buf, s.tx.out.Named f ∨ (sentIndex s f).isSome

instance (argc : Nat) (s : State) (buf : List Byte) : Decidable (Outstanding argc s buf) :=
  inferInstanceAs (Decidable (∃ f ∈ namedFile argc buf, _ ∨ _))

/-- Nothing ends the wait for the answer to a status before the empty block is out. -/
def EofFirst (s : State) (t : Byte) (buf : List Byte) : Prop :=
  s.tx.sendEof = true → t ≠ M_SKIP ∧ (t = M_GET → ¬ Outstanding 4 s buf) ∧
    (t = M_GOT → ¬ Outstanding 3 s buf)

instance (s : State) (t : Byte) (buf : List Byte) : Decidable (EofFirst s t buf) :=
  inferInstanceAs (Decidable (_ → _ ∧ _ ∧ _))

/-- The options and answers of a round are as a session expects them. -/
def ModesKept (config : BinkdConfig) (i : Input) (s : State) : Prop :=
  Meets config (fun a t buf => (t = M_NUL → NdWithNr i.env a buf) ∧ (t = M_SKIP → SkipsRequest a buf) ∧
    EofFirst a t buf) i s

instance (config : BinkdConfig) (i : Input) (s : State) : Decidable (ModesKept config i s) :=
  inferInstanceAs (Decidable (Meets config _ i s))

theorem ModeInv.ended (h : ModeInv s) : ModeEnd (stopped s) := ⟨h.nr, h.asked⟩

theorem ModeInv.adr (h : ModeInv s) : ModeInv (ADR config env buf s).1 := by
  have hf := ADR_frame config env buf s
  obtain ⟨_, _, _, _, _, _, _, _, hl⟩ := hf.login
  obtain ⟨_, htx⟩ := hf.tx
  exact h.reply (by rw [hl]) (by rw [hl]) (by rw [hl]) (by rw [hl]) hf.link (by rw [htx]) (by rw [htx])
    (by rw [htx]) (by rw [htx])

/-- A login that is complete has the NR mode with the ND mode. -/
theorem ModeInv.completed (h : ModeInv s) {l : Login} (hl : s'.login = completed l)
    (hstate : l.state ≠ .null) (hlast : lastFile s'.link.log = lastFile s.link.log)
    (hasked : DataAsked s'.link.log) (hf : s'.tx.out.f = s.tx.out.f)
    (hoff : s'.tx.offReqSent = s.tx.offReqSent) (heof : s'.tx.sendEof = s.tx.sendEof)
    (hw : s'.tx.waitingForGOT = s.tx.waitingForGOT) : ModeInv s' := by
  refine ⟨fun hnull => ?_, fun _ hnd => ?_, hasked, ?_, ?_⟩
  · rw [hl] at hnull
    exact absurd hnull hstate
  · rw [hl] at hnd ⊢
    have hnd' : l.ndFlag.we = true := hnd
    simp [Binkd.completed, hnd']
  · rw [hf, Offered, hlast, hoff, heof]
    exact h.file
  · rw [heof, hw]
    exact h.eof

theorem ModeInv.pwd (h : ModeInv s) : ModeInv (PWD config env buf s).1 := by
  by_cases hto : s.toNode = none
  · have hout := PWD_outcome config env buf s hto
    generalize PWD config env buf s = r at hout
    have hsame : ∀ s', AdrFrame s s' → s'.login.state = s.login.state →
        s'.login.cryptFlag = s.login.cryptFlag → s'.login.ndFlag = s.login.ndFlag →
        s'.login.nrFlag = s.login.nrFlag → ModeInv s' := by
      intro s' hs h1 h2 h3 h4
      obtain ⟨_, htx⟩ := hs.tx
      exact h.reply h1 (by rw [h2]) (by rw [h3]) (by rw [h4]) hs.link (by rw [htx]) (by rw [htx])
        (by rw [htx]) (by rw [htx])
    have hgrant : ∀ s' m state ext want, s.login.state = .null → state ≠ .null →
        PwdGranted s s' m state ext want → ModeInv s' := by
      intro s' m state ext want hnull hstate hs
      have hcrypt : s.login.cryptFlag ≠ .on := fun hon => by
        have hyes := h.plain hnull
        rw [hon] at hyes
        contradiction
      obtain ⟨pre, hpre, hlink⟩ := hs.link hcrypt
      obtain ⟨_, htx, -⟩ := hs.tx
      have hq : Queues (·.isReply) s.login.cryptFlag s.link (s.link.queueAll s.login.cryptFlag
          (pre ++ grantItems (granted s.login m state ext want))) := by
        refine ⟨_, fun i hi => ?_, rfl⟩
        rcases List.mem_append.mp hi with hi | hi
        · exact hpre i hi
        · rcases List.mem_cons.mp hi with rfl | hi
          · rfl
          · rw [List.mem_singleton.mp hi]
            rfl
      obtain ⟨hlast, hasked⟩ := hq.reply_log
      have hlog : s'.link.log = (s.link.queueAll s.login.cryptFlag
          (pre ++ grantItems (granted s.login m state ext want))).log := by
        rw [hlink]
        rfl
      exact h.completed hs.login hstate (by rw [hlog, hlast]) (by rw [hlog]; exact hasked h.asked)
        (by rw [htx]) (by rw [htx]) (by rw [htx]) (by rw [htx])
    cases hout with
    | double _ s' hs hl => exact hsame s' hs (by rw [hl]) (by rw [hl]) (by rw [hl]) (by rw [hl])
    | refused m s' _ hs hl => exact hsame s' hs (by rw [hl]) (by rw [hl]) (by rw [hl]) (by rw [hl])
    | nonsecure m digest early ext want s' hnull _ hs => exact hgrant s' m _ ext want hnull (by decide) hs
    | secure m want s' hnull _ hs => exact hgrant s' m _ _ want hnull (by decide) hs
  · have hsome : s.toNode.isSome := Option.isSome_iff_ne_none.mpr hto
    unfold PWD
    rw [if_pos hsome]
    exact h

theorem ModeInv.ok (h : ModeInv s) : ModeInv (OK config env buf s).1 := by
  unfold OK
  split
  · exact h
  · next n _ =>
    obtain ⟨disk, q, inbound, heq, -⟩ := completeLogin_spec config env
      { s with login := okLogin n env.tail buf s.login }
    rw [heq]
    exact h.completed rfl (okLogin_state n env.tail buf s.login) rfl h.asked rfl rfl rfl rfl

theorem ModeInv.nul (h : ModeInv s) (hnd : NdWithNr env s buf) : ModeInv (NUL config env buf s).1 := by
  have hk := nulLogin_keeps config s.toNode env.tail buf s.login
  refine ⟨?_, ?_, h.asked, h.file, h.eof⟩
  · show (nulLogin config s.toNode env.tail buf s.login).state = .null → _
    rw [hk.state]
    intro hnull
    exact hk.yesCrypt.trans (h.plain hnull)
  · show (nulLogin config s.toNode env.tail buf s.login).state ≠ .null →
      (nulLogin config s.toNode env.tail buf s.login).ndFlag.we = true →
      (nulLogin config s.toNode env.tail buf s.login).nrFlag.we = true
    rw [hk.state, nulLogin_nd, nulLogin_nr]
    intro hstate hwe
    rcases Bool.or_eq_true_iff.mp hwe with hwe | hwe
    · simp [h.nr hstate hwe]
    · rcases hnd hstate (by simpa using hwe) with hnr | hnr
      · simp [hnr]
      · simp [hnr]

theorem ModeInv.got (h : ModeInv s) (heof : s.tx.sendEof = true → ¬ Outstanding 3 s buf) :
    ModeInv (GOT config env buf s).1 := by
  have hout := GOT_outcome config env buf s
  generalize GOT config env buf s = r at hout
  cases hout with
  | garbled => exact h.reply rfl rfl rfl rfl (.one (by rfl) s.link) rfl rfl rfl rfl
  | out f hf heq disk fl k n a b =>
    refine ⟨h.plain, h.nr, h.asked, fun hsome => ?_, fun he => ?_⟩
    · simp [TFile.zero] at hsome
    · exact absurd ⟨f, hf, .inl heq⟩ (heof he)
  | sent f hf hne i hi disk fl k n b =>
    refine ⟨h.plain, h.nr, h.asked, h.file, fun he => ?_⟩
    exact absurd ⟨f, hf, .inr (by simp [hi])⟩ (heof he)
  | foreign f hf hne hno disk => exact h.same rfl rfl rfl rfl rfl rfl

theorem ModeInv.skip (h : ModeInv s) (heof : s.tx.sendEof = false)
    (hreq : SkipsRequest s buf) :
    ModeInv (SKIP config env buf s).1 := by
  have hout := SKIP_outcome config env buf s
  generalize SKIP config env buf s = r at hout
  cases hout with
  | garbled => exact h.reply rfl rfl rfl rfl (.one (by rfl) s.link) rfl rfl rfl rfl
  | status f hf heq hnone a l hl =>
    exact h.reply rfl rfl rfl rfl (.one (by rfl) s.link) rfl rfl rfl rfl
  | out f hf heq hsome disk a l hl w o hw =>
    refine ⟨h.plain, h.nr, h.asked, fun hs => ?_, fun he => ?_⟩
    · simp [TFile.zero] at hs
    · simp [heof] at he
  | other f hf hne disk r a l hl w o hw =>
    refine ⟨h.plain, h.nr, h.asked, fun hs => ?_, fun he => ?_⟩
    · rcases h.file hs with hoff | ⟨hr, -⟩
      · exact .inl hoff
      · exact absurd (hreq hr hs f hf) hne
    · simp [heof] at he

/-- What `GET` has found is outstanding. -/
theorem Fetched.outstanding {f : Str × Int × Int} {o : TFile} {l : List TFile} (h : Fetched env s f o l)
    (hf : namedFile 4 buf = some f) (hnamed : o.Named f) : Outstanding 4 s buf := by
  refine ⟨f, hf, ?_⟩
  cases h with
  | current => exact .inl hnamed
  | reopened i hi => exact .inr (by simp [hi])
  | gone i hi => exact .inr (by simp [hi])

/-- A session that `GET` does not stop keeps the invariant. -/
theorem ModeInv.get (h : ModeInv s) (heof : s.tx.sendEof = true → ¬ Outstanding 4 s buf) :
    ((GET config env buf s).2 = true → ModeInv (GET config env buf s).1) ∧
    ModeEnd (stopped (GET config env buf s).1) := by
  have hout := GET_outcome config env buf s
  generalize GET config env buf s = r at hout
  cases hout with
  | garbled => exact ⟨fun hb => absurd hb (by simp [cannotParse]), h.nr, h.asked⟩
  | failed f hf o l _ o' _ disk link a w hlink =>
    exact ⟨fun hb => absurd hb (by simp), h.nr, hlink.reply_log.2 h.asked⟩
  | eof f hf o l _ _ hnone =>
    refine ⟨fun _ => ⟨h.plain, h.nr, h.asked, fun hs => ?_, fun _ => rfl⟩, h.nr, h.asked⟩
    simp [hnone] at hs
  | status f hf o l hfetch hnamed hnone _ off disk a =>
    refine ⟨fun _ => ⟨h.plain, h.nr, h.asked, fun hs => ?_, fun he => ?_⟩, h.nr, h.asked⟩
    · simp [TFile.zero] at hs
    · exact absurd (hfetch.outstanding hf hnamed) (heof he)
  | resumed f hf o l hfetch hnamed h' _ off _ nz extra z od ob _ disk a =>
    refine ⟨fun _ => ⟨h.plain, h.nr, h.asked, fun _ => .inl ⟨_, rfl, rfl⟩, fun he => ?_⟩, h.nr, h.asked⟩
    exact absurd (hfetch.outstanding hf hnamed) (heof he)

/-- Every message keeps the invariant, if it keeps the modes. -/
theorem ModeInv.message {i : Input} (h : ModeInv s) (hnul : t = M_NUL → NdWithNr i.env s buf)
    (hskip : t = M_SKIP → SkipsRequest s buf) (heof : EofFirst s t buf) :
    ((handle config i.env t buf s).2 = true → ModeInv (handle config i.env t buf s).1) ∧
    ((handle config i.env t buf s).2 = false → ModeEnd (stopped (handle config i.env t buf s).1)) := by
  have hkeep : ∀ r : State × Bool, ModeInv r.1 →
      (r.2 = true → ModeInv r.1) ∧ (r.2 = false → ModeEnd (stopped r.1)) :=
    fun r hr => ⟨fun _ => hr, fun _ => hr.ended⟩
  by_cases hget : t = M_GET
  · subst hget
    have hend := @ModeInv.get config i.env buf s h fun he => (heof he).2.1 rfl
    exact ⟨hend.1, fun _ => hend.2⟩
  · refine hkeep _ ?_
    have hcase := handled config i.env t buf s
    generalize (handle config i.env t buf s).1 = s' at hcase
    cases hcase with
    | nul ht => exact h.nul (hnul ht)
    | adr => exact h.adr
    | pwd => exact h.pwd
    | file => exact h.recv (startFileRecv_frame config i.env buf s)
    | ok => exact h.ok
    | eob => exact h.recv (EOB_frame config i.env s)
    | got ht => exact h.got fun he => (heof he).2.2 ht
    | get ht => exact absurd ht hget
    | skip ht =>
      refine h.skip ?_ (hskip ht)
      by_contra hne
      exact (heof (by simpa using hne)).1 ht
    | ignored => exact h

theorem ModeInv.iterate (h : ModeInv s) {i : Input} (hi : ModesKept config i s) :
    ModeInv (iterate config i s).1 ∨ (iterate config i s).2 = false ∧
    ModeEnd (iterate config i s).1 := by
  refine iterate_induction_stop (fun a b hact ha => ha.act hact) (fun a t buf harr ha => ?_) h
  obtain ⟨hnul, hskip, heof⟩ := hi (a, t, buf) harr
  exact ha.message hnul hskip heof

theorem modeInv_start {to_ : Option FtnNode} {fa : Option FtnAddr} (h : Opening config to_ fa s) :
    ModeInv s := by
  obtain ⟨p, c, w, hl, -⟩ := h.login
  refine ⟨fun _ => ?_, fun hstate => ?_, h.link.reply_log.2 trivial, fun hf => ?_, fun he => ?_⟩
  · rw [hl]
    rfl
  · rw [hl] at hstate
    exact absurd rfl hstate
  · simp [h.tx] at hf
  · simp [h.tx] at he

/-! ### New files in a round -/

/-- The log has grown, by announcements that `P` allows and by anything else. -/
def Grows (P : FileMsg → Prop) (l l' : Link) : Prop :=
  ∃ new, l'.log = new ++ l.log ∧ ∀ m, Item.file m ∈ new → P m

theorem Grows.refl (P : FileMsg → Prop) (l : Link) : Grows P l l := ⟨[], rfl, by simp⟩

theorem Grows.of_log {P : FileMsg → Prop} {l l' : Link} (h : l'.log = l.log) : Grows P l l' :=
  ⟨[], h, by simp⟩

theorem Grows.trans {P : FileMsg → Prop} {a b c : Link} (h : Grows P a b) (h' : Grows P b c) :
    Grows P a c := by
  obtain ⟨xs, hx, hP⟩ := h
  obtain ⟨ys, hy, hP'⟩ := h'
  refine ⟨ys ++ xs, by rw [hy, hx, List.append_assoc], fun m hm => ?_⟩
  exact (List.mem_append.mp hm).elim (hP' m) (hP m)

theorem Queues.grows {P : FileMsg → Prop} {ok : Item → Prop} {crypt : CryptFlag} {l l' : Link}
    (h : Queues ok crypt l l') (hok : ∀ m, ok (.file m) → P m) : Grows P l l' := by
  obtain ⟨items, hitems, rfl⟩ := h
  refine ⟨items.reverse, Link.queueAll_log crypt items l, fun m hm => ?_⟩
  exact hok m (hitems _ (List.mem_reverse.mp hm))

theorem Queues.reply_grows {P : FileMsg → Prop} {crypt : CryptFlag} {l l' : Link}
    (h : Queues (·.isReply) crypt l l') : Grows P l l' :=
  h.grows fun m hm => by simp [Item.isReply] at hm

/-- In NR mode the small steps announce new files without an offset. -/
theorem Act.grows {P : FileMsg → Prop} (hP : ∀ m : FileMsg, m.off = none → P m)
    (h : Act config env s s') (hnr : s.login.nrFlag.we = true) : Grows P s.link s'.link := by
  have hstart : ∀ (q : Queue) (file : Option Ftnq),
      Grows P s.link (startFileTransfer config env file { s with tx := { s.tx with q := q } }).1.link := by
    intro q file
    rcases startFileTransfer_outcome config env file { s with tx := { s.tx with q := q } } with
      ⟨⟨disk, flo, o, k, n, m, a, w, i, heq, -⟩, -⟩ | ⟨s1, hp, hd, hr⟩
    · rw [heq]
      exact .refl P s.link
    · obtain ⟨z, od, extra, ha⟩ := announce_eq config env hd
      obtain ⟨disk, flo, k, n, m, a, hs1⟩ := hp.eq
      have hlink : s1.link = s.link := by rw [hs1]
      have hwe : s1.login.nrFlag.we = true := by rw [hs1]; exact hnr
      rw [hr, ha]
      refine ⟨[.file ⟨{ s1.tx.out with f := none }, firstOffset s1, extra⟩], ?_, fun m hm => hP m ?_⟩
      · rw [← hlink]
        rfl
      · obtain rfl := Item.file.inj (List.mem_singleton.mp hm)
        simp [firstOffset, hwe]
  cases h with
  | outside => exact .refl P s.link
  | queued _ _ => exact hstart _ _
  | floLine => exact hstart s.tx.q none
  | noFile => exact .refl P s.link
  | eob => exact (Queues.one (by rfl) s.link : Queues (·.isReply) s.login.cryptFlag s.link _).reply_grows
  | batch =>
    obtain ⟨_, hl⟩ := (endBatch_frame config env s).link
    exact .of_log (by rw [hl])
  | ioError => exact .of_log rfl
  | read => exact .of_log rfl
  | header => exact .of_log rfl
  | count => exact .of_log rfl
  | data => exact (recvData_frame config env _ s).link.reply_grows
  | nextHeader => exact .of_log rfl
  | dropBlock => exact .of_log rfl
  | pend => exact .of_log rfl
  | pack =>
    obtain ⟨_, _, heq⟩ := sendMsgs_spec env s
    rw [heq]
    exact .of_log rfl
  | block =>
    have hout := sendData_outcome config env s
    generalize sendData config env s = r at hout
    cases hout with
    | empty => exact ⟨[.data []], rfl, by simp⟩
    | failed => exact .refl P s.link
    | more _ _ payload => exact ⟨[.data payload], rfl, by simp⟩
    | last _ _ payload => exact ⟨[.data payload], rfl, by simp⟩

/-- A session that has logged in stays in NR mode. -/
theorem handle_nr (config : BinkdConfig) (env : Env) (t : Byte) (buf : List Byte)
    (hstate : s.login.state ≠ .null) (hnr : s.login.nrFlag.we = true) :
    (handle config env t buf s).1.login.state ≠ .null ∧
    (handle config env t buf s).1.login.nrFlag.we = true := by
  have hs := handshake config env t buf s
  generalize (handle config env t buf s).1 = s' at hs
  cases hs with
  | nul =>
    have hk := nulLogin_keeps config s.toNode env.tail buf s.login
    refine ⟨fun h => hstate (hk.state.symm.trans h), ?_⟩
    show (nulLogin config s.toNode env.tail buf s.login).nrFlag.we = true
    rw [nulLogin_nr, hnr, Bool.true_or]
  | adr =>
    obtain ⟨_, _, _, _, _, _, _, _, hl⟩ := (ADR_frame config env buf s).login
    rw [hl]
    exact ⟨hstate, hnr⟩
  | pwd =>
    rw [(PWD_again config env buf s hstate).2]
    exact ⟨hstate, hnr⟩
  | ok =>
    unfold OK
    split
    · exact ⟨hstate, hnr⟩
    · next n _ =>
      obtain ⟨_, _, _, heq, -⟩ := completeLogin_spec config env
        { s with login := okLogin n env.tail buf s.login }
      have hwe : (okLogin n env.tail buf s.login).nrFlag = s.login.nrFlag := by
        unfold okLogin
        dsimp only
        split_ifs <;> rfl
      rw [heq]
      exact ⟨okLogin_state n env.tail buf s.login, by simp [completed, hwe, hnr]⟩
  | other _ hf =>
    obtain ⟨_, _, hl⟩ := hf.login
    rw [hl]
    exact ⟨hstate, hnr⟩

/-- After the login a handler announces a file only as the answer to an `M_GET`. -/
theorem handle_grows {P : FileMsg → Prop} (config : BinkdConfig) (env : Env) (t : Byte)
    (buf : List Byte) (hstate : s.login.state ≠ .null) (hget : t = M_GET → ∀ m, P m) :
    Grows P s.link (handle config env t buf s).1.link := by
  have hs := handled config env t buf s
  generalize (handle config env t buf s).1 = s' at hs
  cases hs with
  | nul => exact .of_log rfl
  | adr => exact (ADR_frame config env buf s).link.reply_grows
  | pwd => exact (PWD_again config env buf s hstate).1.link.reply_grows
  | file => exact (startFileRecv_frame config env buf s).link.reply_grows
  | ok =>
    unfold OK
    split
    · exact .refl P s.link
    · obtain ⟨_, _, _, heq, -⟩ := completeLogin_spec config env
        { s with login := okLogin _ env.tail buf s.login }
      rw [heq]
      exact .of_log rfl
  | eob => exact (EOB_frame config env s).link.reply_grows
  | got =>
    have hout := GOT_outcome config env buf s
    generalize GOT config env buf s = r at hout
    cases hout with
    | garbled => exact (Queues.one (by rfl) s.link : Queues (·.isReply) s.login.cryptFlag s.link _).reply_grows
    | out => exact .refl P s.link
    | sent => exact .refl P s.link
    | foreign => exact .refl P s.link
  | get ht => exact (GET_frame config env buf s).link.grows fun m _ => hget ht m
  | skip =>
    have hout := SKIP_outcome config env buf s
    generalize SKIP config env buf s = r at hout
    cases hout with
    | garbled => exact (Queues.one (by rfl) s.link : Queues (·.isReply) s.login.cryptFlag s.link _).reply_grows
    | status => exact (Queues.one (by rfl) s.link : Queues (·.isReply) s.login.cryptFlag s.link _).reply_grows
    | out => exact .refl P s.link
    | other => exact .refl P s.link
  | ignored => exact .refl P s.link

/-- In NR mode a round announces a new file without an offset, and a file with an
offset only as the answer to an `M_GET`. -/
def RequestsFirst (config : BinkdConfig) (i : Input) (s : State) : Prop :=
  Grows (fun m => m.off = none ∨ ∃ a buf, arrives config i s = some (a, M_GET, buf)) s.link
    (iterate config i s).1.link

theorem requestsFirst_of_nr (hstate : s.login.state ≠ .null) (hnr : s.login.nrFlag.we = true)
    (i : Input) : RequestsFirst config i s := by
  have hrule := @iterate_induction config
    (fun s' => s'.login.state ≠ .null ∧ s'.login.nrFlag.we = true ∧
      Grows (fun m => m.off = none ∨ ∃ a buf, arrives config i s = some (a, M_GET, buf)) s.link s'.link) i s
    (fun a b hact ha => ?_) (fun a t buf harr ha => ?_) ⟨hstate, hnr, .refl _ _⟩
  · exact hrule.2.2
  · obtain ⟨_, _, hl⟩ := hact.frame.login
    rw [hl]
    exact ⟨ha.1, ha.2.1, ha.2.2.trans (hact.grows (fun m hm => .inl hm) ha.2.1)⟩
  · obtain ⟨h1, h2⟩ := handle_nr config i.env t buf ha.1 ha.2.1
    refine ⟨h1, h2, ha.2.2.trans (handle_grows config i.env t buf ha.1 ?_)⟩
    rintro rfl m
    exact .inr ⟨a, buf, harr⟩

/-! ### Runs -/

/-- **ND mode presumes NR mode**: in a run that keeps the modes, a session in ND mode is in
NR mode, new files are announced by offset requests, and data follows only an
announcement that names an offset, which is the answer to an `M_GET`. -/
theorem nd_presumes_nr (config : BinkdConfig) (env : Env) (disk : Disk) (peerName ipaddr : Str)
    (to_ : Option FtnNode) (fa : Option FtnAddr) (s : State) (live : Bool)
    (run : Reachable config (ModesKept config) (start config env disk peerName ipaddr to_ fa) s live) :
    (s.login.state ≠ .null → s.login.ndFlag.we = true →
      s.login.nrFlag.we = true ∧ ∀ i, RequestsFirst config i s) ∧ DataAsked s.link.log := by
  have hinv : (live = true → ModeInv s) ∧ ModeEnd s := by
    refine run.invariant (fun s live => (live = true → ModeInv s) ∧ ModeEnd s) ?_ fun i s h hi => ?_
    · have h := modeInv_start (start_opening config env disk peerName ipaddr to_ fa)
      exact ⟨fun _ => h, h.nr, h.asked⟩
    · rcases (h.1 rfl).iterate hi with h' | ⟨hstop, h'⟩
      · exact ⟨fun _ => h', h'.nr, h'.asked⟩
      · exact ⟨fun hlive => absurd hlive (by simp [hstop]), h'⟩
  refine ⟨fun hstate hnd => ?_, hinv.2.asked⟩
  have hnr := hinv.2.nr hstate hnd
  exact ⟨hnr, requestsFirst_of_nr hstate hnr⟩

/-- One node without a password. -/
def openNode : BinkdConfig := fidoConfig [{ fa := aka 1 }]

/-- A session without password and the options that come after the login. -/
def lateOptions (words : Str) : List Input :=
  Input.message {} M_ADR (str "2:5020/1") ++ Input.message {} M_PWD (str "-") ++
    Input.message {} M_NUL (str "OPT " ++ words)

/-- The session after the late options. -/
def lateModes (words : Str) : State :=
  after (iterate openNode) (lateOptions words) (start openNode {} ∅ [] [] none none)

/-- After a late `OPT ND` the session is in ND mode without NR mode. -/
theorem lateNd_without_nr :
    Reachable openNode (fun _ _ => True) (start openNode {} ∅ [] [] none none)
    (lateModes (str "ND")) true ∧
    (lateModes (str "ND")).login.state ≠ .null ∧ (lateModes (str "ND")).login.ndFlag.we = true ∧
    (lateModes (str "ND")).login.nrFlag.we = false :=
  ⟨Run.of_inputs (by decide +kernel), by decide +kernel⟩

/-- With both options the two modes come together. -/
theorem nd_presumes_nr_both : (lateModes (str "ND NR")).login.ndFlag.we = true ∧
    ((lateModes (str "ND NR")).login.state ≠ .null → (lateModes (str "ND NR")).login.ndFlag.we = true →
      (lateModes (str "ND NR")).login.nrFlag.we = true ∧
      ∀ i, RequestsFirst openNode i (lateModes (str "ND NR"))) ∧
    DataAsked (lateModes (str "ND NR")).link.log :=
  ⟨by decide +kernel,
    nd_presumes_nr openNode {} ∅ [] [] none none _ true (Run.of_inputs (by decide +kernel))⟩

end Binkd
