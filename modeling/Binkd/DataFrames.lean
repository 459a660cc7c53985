import Binkd.Blocks

/-!
# The data frames on the wire

Between the announcement of a file and the next, the data frames are a prefix of that file from
the announced offset on, once they are decoded as the announcement says.  A run is taken
apart into its small steps, with the messages of the remote at any place between them
(`Moves`); every run in rounds is one (`Moves.rounds`).  `WireInv` is what the steps keep:
the open file is the one announced last, and `Feeds` holds of it.

`SKIP` and `GOT` close the current file and leave its compressor on.  The next file then
finds it, is announced as plain and sent compressed (`skipped_packed`).  So the steps
are asked to start a file with the compressor off (`CleanStart`).
-/

namespace Binkd

open Lib

variable {config : BinkdConfig} {env : Env} {s s' : State}

/-! ### The data behind an announcement -/

/-- The last announcement in a log, and the data behind it. -/
def current : List Item → Option (FileMsg × List Byte)
  | [] => none
  | .file m :: _ => some (m, [])
  | .data payload :: log => (current log).map fun c => (c.1, c.2 ++ payload)
  | .msg _ _ :: log => current log

theorem current_reply {i : Item} (hi : i.isReply = true) (log : List Item) :
    current (i :: log) = current log := by
  cases i with
  | msg t text => rfl
  | file m => exact absurd hi (by simp [Item.isReply])
  | data p => exact absurd hi (by simp [Item.isReply])

theorem current_replies {log log' : List Item} (h : Replies log log') : current log' = current log := by
  obtain ⟨items, hitems, rfl⟩ := h
  induction items with
  | nil => rfl
  | cons i items ih =>
    rw [List.cons_append, current_reply (hitems i List.mem_cons_self)]
    exact ih fun x hx => hitems x (List.mem_cons_of_mem i hx)

/-- The open file is the one that was announced last, and the data behind the announcement are
those of it. -/
structure WireInv (config : BinkdConfig) (s : State) : Prop where
  tidy : Tidy s.tx
  file : ∀ h, s.tx.out.f = some h → (h.pos : Int) ≤ s.tx.out.size ∧
    ∃ m data, current s.link.log = some (m, data) ∧ m.file = s.tx.out.closed ∧ Feeds config s.tx h m data

/-- What one step does to the wire. -/
inductive WireStep (decode : ZSend → List Byte → List Byte) (s s' : State) : Prop
  /-- no file and no data; the file may have been closed -/
  | quiet (hlog : Replies s.link.log s'.link.log) (hfile : s'.tx.out.f = none ∨ s'.tx.out.f = s.tx.out.f)
  /-- a file is announced -/
  | file (m : FileMsg) (hlog : s'.link.log = .file m :: s.link.log)
  /-- an empty block ends a status -/
  | empty (hlog : s'.link.log = .data [] :: s.link.log) (hnone : s.tx.out.f = none)
    (hfile : s'.tx.out.f = none)
  /-- a block of the open file -/
  | data (h : Handle) (payload : List Byte) (m : FileMsg) (data : List Byte) (hopen : s.tx.out.f = some h)
      (hlog : s'.link.log = .data payload :: s.link.log) (hcur : current s.link.log = some (m, data))
      (hfile : ∀ h', s'.tx.out.f = some h' → h'.bytes = h.bytes)
      (hdecoded : decoded decode m (data ++ payload) <+: h.bytes.drop (m.off.getD 0))

/-- Nothing of the file has changed. -/
theorem WireInv.keep (h : WireInv config s) (hout : s'.tx.out = s.tx.out) (hz : s'.tx.zSend = s.tx.zSend)
    (hod : s'.tx.zOdata = s.tx.zOdata) (hob : s'.tx.zObuf = s.tx.zObuf)
    (hlog : Replies s.link.log s'.link.log) :
    WireInv config s' := by
  refine ⟨⟨?_, ?_⟩, fun f hf => ?_⟩
  · rw [hz, hob]
    exact h.tidy.rest
  · rw [hz, hod]
    exact h.tidy.state
  · rw [hout] at hf
    obtain ⟨hpos, m, data, hcur, hsame, hfeeds⟩ := h.file f hf
    rw [hout]
    refine ⟨hpos, m, data, (current_replies hlog).trans hcur, hsame, hfeeds.off, ?_, ?_, ?_⟩
    · rw [hz]
      exact hfeeds.method
    · rw [hz]
      exact hfeeds.plain
    · rw [hz, hod, hob]
      exact hfeeds.packed

/-- There is no open file. -/
theorem WireInv.closed (h : WireInv config s) (hout : s'.tx.out.f = none) (hz : s'.tx.zSend = s.tx.zSend)
    (hod : s'.tx.zOdata = s.tx.zOdata) (hob : s'.tx.zObuf = s.tx.zObuf) : WireInv config s' := by
  refine ⟨⟨?_, ?_⟩, fun f hf => absurd (hout.symm.trans hf) (by simp)⟩
  · rw [hz, hob]
    exact h.tidy.rest
  · rw [hz, hod]
    exact h.tidy.state

/-- A file is announced, with a compressor of its own. -/
theorem WireInv.announced {m : FileMsg} (hlog : s'.link.log = .file m :: s.link.log)
    (hmethod : announcedZ m.extra = s'.tx.zSend) (hrest : s'.tx.zObuf = [])
    (hstate : s'.tx.zSend ≠ .off → s'.tx.zOdata = some [])
    (hfile : ∀ f, s'.tx.out.f = some f → m.file = s'.tx.out.closed ∧ f.pos = m.off.getD 0 ∧
      (f.pos : Int) ≤ s'.tx.out.size) : WireInv config s' := by
  refine ⟨.new hrest hstate, fun f hf => ?_⟩
  obtain ⟨hsame, hoff, hle⟩ := hfile f hf
  exact ⟨hle, m, [], by rw [hlog]; rfl, hsame, .new hoff hmethod hrest hstate⟩

/-! ### The small steps -/

theorem zSendInit_eq (config : BinkdConfig) (env : Env) (s : State) :
    ∃ z od extra, zSendInit config env s =
    (extra, { s with tx := { s.tx with zSend := z, zOdata := od } }) := by
  unfold zSendInit
  split
  · dsimp only
    split
    · exact ⟨_, _, _, rfl⟩
    · split <;> exact ⟨_, _, _, rfl⟩
  · exact ⟨_, _, _, rfl⟩

/-- An announcement with the compressor off before. -/
theorem announce_wire {s1 : State} (hd : dontSend config s1.tx.out = false) (hoff : s1.tx.zSend = .off)
    (hrest : s1.tx.zObuf = [])
    (hpos : ∀ f, s1.tx.out.f = some f → f.pos = 0 ∧ (f.pos : Int) ≤ s1.tx.out.size) :
    WireInv config (announce config env s1).1 := by
  obtain ⟨hmethod, hrest', hstate⟩ := zSendInit_new config env hoff hrest
  obtain ⟨z, od, extra, heq⟩ := zSendInit_eq config env s1
  rw [heq] at hmethod hrest' hstate
  unfold announce
  rw [if_neg (by simp [hd]), heq]
  apply @WireInv.announced config s1 _ ⟨{ s1.tx.out with f := none }, firstOffset s1, extra⟩
  · rfl
  · exact hmethod
  · exact hrest'
  · exact hstate
  · intro f hf
    have hf : s1.tx.out.f = some f := hf
    obtain ⟨hzero, hle⟩ := hpos f hf
    exact ⟨rfl, hzero.trans (firstOffset_open hf).symm, hle⟩

theorem announce_log {s1 : State} (hd : dontSend config s1.tx.out = false) :
    ∃ m, (announce config env s1).1.link.log = .file m :: s1.link.log := by
  obtain ⟨z, od, extra, heq⟩ := announce_eq config env hd
  rw [heq]
  exact ⟨_, rfl⟩

/-- The next file of the queue. -/
theorem WireInv.start {decode : ZSend → List Byte → List Byte} (h : WireInv config s) (file : Option Ftnq)
    (hclean : (∃ m, (startFileTransfer config env file s).1.link.log = .file m :: s.link.log) →
      s.tx.zSend = .off) :
    WireInv config (startFileTransfer config env file s).1 ∧
      WireStep decode s (startFileTransfer config env file s).1 := by
  rcases startFileTransfer_outcome config env file s with ⟨hnot, -⟩ | ⟨s1, hprep, hd, hr⟩
  · obtain ⟨_, _, o, _, _, _, _, _, i, heq, ho, -, -⟩ := hnot
    rw [heq]
    exact ⟨h.closed ho rfl rfl rfl, .quiet (.refl _) (.inl ho)⟩
  · obtain ⟨disk, flo, k, n, m, a, hs1⟩ := hprep.eq
    obtain ⟨m, hlog⟩ := @announce_log config env s1 hd
    have hlink : s1.link.log = s.link.log := by rw [hs1]
    have hz : s1.tx.zSend = s.tx.zSend := by rw [hs1]
    have hob : s1.tx.zObuf = s.tx.zObuf := by rw [hs1]
    rw [hlink] at hlog
    rw [hr] at hclean ⊢
    have hoff := hclean ⟨m, hlog⟩
    refine ⟨announce_wire hd (hz.trans hoff) (hob.trans (h.tidy.rest hoff)) fun f hf => ?_, .file m hlog⟩
    obtain ⟨hzero, hsize, -⟩ := hprep.fresh.file f hf
    exact ⟨hzero, by omega⟩

/-- A block of the open file, or the one that ends a status. -/
theorem WireInv.block {decode : ZSend → List Byte → List Byte} (hcodec : Codec config decode)
    (hshares : config.shares = []) (h : WireInv config s) (env : Env) :
    WireInv config (sendData config env s).1 ∧ WireStep decode s (sendData config env s).1 := by
  have hout := sendData_outcome config env s
  generalize sendData config env s = r at hout
  cases hout with
  | empty hf =>
    have hinv : WireInv config { s with
        tx := { s.tx with sendEof := false }, link := s.link.build s.login.cryptFlag [] } :=
      h.closed hf rfl rfl rfl
    exact ⟨hinv, .empty rfl hf hf⟩
  | failed => exact ⟨h, .quiet (.refl _) (.inr rfl)⟩
  | more f hf payload f' z od ob hb he =>
    obtain ⟨hpos, m, data, hcur, hsame, hfeeds⟩ := h.file f hf
    obtain ⟨hbytes, hdec, hgoes, htidy⟩ := fileBlock_feeds hcodec hshares h.tidy hfeeds hpos hb rfl
    refine ⟨⟨⟨htidy.rest, htidy.state⟩, fun g hg => ?_⟩,
      .data f payload m data hf rfl hcur (fun g hg => ?_) hdec⟩
    · obtain rfl := Option.some.inj hg
      have hnext := hgoes he
      exact ⟨(fileBlock_pos hb rfl hpos).1, m, data ++ payload, by
        show (current s.link.log).map _ = _
        rw [hcur]
        rfl, hsame, hnext.off, hnext.method, hnext.plain, hnext.packed⟩
    · obtain rfl := Option.some.inj hg
      exact hbytes
  | last f hf payload f' z od ob hb he =>
    obtain ⟨hpos, m, data, hcur, hsame, hfeeds⟩ := h.file f hf
    obtain ⟨hbytes, hdec, -, htidy⟩ := fileBlock_feeds hcodec hshares h.tidy hfeeds hpos hb rfl
    refine ⟨⟨⟨htidy.rest, htidy.state⟩, fun g hg => ?_⟩,
      .data f payload m data hf rfl hcur (fun g hg => ?_) hdec⟩
    · exact absurd hg (by simp [TFile.zero])
    · exact absurd hg (by simp [TFile.zero])

/-- **What a small step keeps**, if it announces no file while the compressor is on. -/
theorem WireInv.act {decode : ZSend → List Byte → List Byte} (hcodec : Codec config decode)
    (hshares : config.shares = [])
    (h : WireInv config s) (hact : Act config env s s')
    (hclean : (∃ m, s'.link.log = .file m :: s.link.log) → s.tx.zSend = .off) :
    WireInv config s' ∧ WireStep decode s s' := by
  have quiet : ∀ s' : State, s'.tx.out = s.tx.out → s'.tx.zSend = s.tx.zSend →
    s'.tx.zOdata = s.tx.zOdata →
      s'.tx.zObuf = s.tx.zObuf → Replies s.link.log s'.link.log →
      WireInv config s' ∧ WireStep decode s s' :=
    fun s' hout hz hod hob hlog => ⟨h.keep hout hz hod hob hlog, .quiet hlog (.inr (by rw [hout]))⟩
  cases hact with
  | @queued e q _ _ =>
    have hq : WireInv config { s with tx := { s.tx with q := q } } := h.keep rfl rfl rfl rfl (.refl _)
    obtain ⟨hinv, hstep⟩ := @WireInv.start config env _ decode hq (some e) hclean
    refine ⟨hinv, ?_⟩
    cases hstep with
    | quiet hlog hfile => exact .quiet hlog hfile
    | file m hlog => exact .file m hlog
    | empty hlog hnone hfile => exact .empty hlog hnone hfile
    | data f p m d hopen hlog hcur hfile hdec => exact .data f p m d hopen hlog hcur hfile hdec
  | floLine => exact h.start none hclean
  | eob => exact quiet _ rfl rfl rfl rfl (.one (by decide) _ _)
  | batch =>
    obtain ⟨_, _, _, _, htx⟩ := (endBatch_frame config env s).tx
    obtain ⟨_, hl⟩ := (endBatch_frame config env s).link
    apply quiet
    · rw [htx]
    · rw [htx]
    · rw [htx]
    · rw [htx]
    · rw [hl]
      exact .refl _
  | data =>
    obtain ⟨_, htx, -⟩ := (recvData_frame config env _ s).tx
    apply quiet
    · rw [htx]
    · rw [htx]
    · rw [htx]
    · rw [htx]
    · exact (recvData_frame config env _ s).link.replies
  | pack =>
    obtain ⟨_, _, heq⟩ := sendMsgs_spec env s
    rw [heq]
    exact quiet _ rfl rfl rfl rfl (.refl _)
  | block => exact h.block hcodec hshares env
  | _ => exact quiet _ rfl rfl rfl rfl (.refl _)

/-! ### The messages of the remote -/

/-- A question for a file: what goes on is announced again, with its own compressor. -/
theorem WireInv.get {decode : ZSend → List Byte → List Byte} (h : WireInv config s) (buf : List Byte) :
    ((GET config env buf s).2 = true → WireInv config (GET config env buf s).1 ∧
      WireStep decode s (GET config env buf s).1) ∧
    ((GET config env buf s).2 = false → Replies s.link.log (GET config env buf s).1.link.log) := by
  have hout := GET_outcome config env buf s
  generalize GET config env buf s = r at hout
  cases hout with
  | garbled =>
    refine ⟨fun _ => ⟨h.keep rfl rfl rfl rfl (.one (by decide) _ _), ?_⟩, fun _ => .one (by decide) _ _⟩
    exact .quiet (.one (by decide) _ _) (.inr rfl)
  | failed f hf o l hfetch o' ho disk link a w hlink =>
    exact ⟨fun hgo => absurd hgo (by simp), fun _ => hlink.replies⟩
  | eof f hf o l hfetch hnamed hnone =>
    refine ⟨fun _ => ⟨h.closed hnone rfl rfl rfl, ?_⟩, fun hstop => absurd hstop (by simp)⟩
    exact .file _ rfl
  | status f hf o l hfetch hnamed hnone hreq off disk a =>
    refine ⟨fun _ => ⟨h.closed rfl rfl rfl rfl, ?_⟩, fun hstop => absurd hstop (by simp)⟩
    exact .file _ rfl
  | resumed f hf o l hfetch hnamed g hopen off hoff nz extra z od ob hz disk a =>
    refine ⟨fun _ => ⟨?_, .file _ rfl⟩, fun hstop => absurd hstop (by simp)⟩
    have htidy : Tidy ({ s with tx := { s.tx with
        sentFls := l, out := { o with f := some { g with pos := off } } } } : State).tx :=
      ⟨h.tidy.rest, h.tidy.state⟩
    obtain ⟨hmethod, hrest, hstate⟩ := zResume_new config env nz htidy
    rw [hz] at hmethod hrest hstate
    apply @WireInv.announced config s _ ⟨{ o with f := none }, some off, extra⟩
    · rfl
    · exact hmethod
    · exact hrest
    · exact hstate
    · intro f' hf'
      obtain rfl := Option.some.inj hf'
      exact ⟨rfl, rfl, hoff⟩

/-- **What a message keeps**: a file that is given up leaves the compressor as it is. -/
theorem WireInv.message {decode : ZSend → List Byte → List Byte} (h : WireInv config s) (t : Byte)
    (buf : List Byte) :
    ((handle config env t buf s).2 = true → WireInv config (handle config env t buf s).1 ∧
      WireStep decode s (handle config env t buf s).1) ∧
    ((handle config env t buf s).2 = false →
      Replies s.link.log (handle config env t buf s).1.link.log) := by
  by_cases hget : t = M_GET
  · subst hget
    exact h.get buf
  · have quiet : ∀ s' : State, s'.tx.out = s.tx.out ∨ s'.tx.out.f = none → s'.tx.zSend = s.tx.zSend →
        s'.tx.zOdata = s.tx.zOdata → s'.tx.zObuf = s.tx.zObuf → Replies s.link.log s'.link.log →
        (WireInv config s' ∧ WireStep decode s s') ∧ Replies s.link.log s'.link.log := by
      intro s' hout hz hod hob hlog
      refine ⟨?_, hlog⟩
      rcases hout with hout | hout
      · exact ⟨h.keep hout hz hod hob hlog, .quiet hlog (.inr (by rw [hout]))⟩
      · exact ⟨h.closed hout hz hod hob, .quiet hlog (.inl hout)⟩
    have hboth : (WireInv config (handle config env t buf s).1 ∧
        WireStep decode s (handle config env t buf s).1) ∧
        Replies s.link.log (handle config env t buf s).1.link.log := by
      by_cases ht : t ∈ answers
      · rcases List.mem_cons.mp ht with rfl | ht
        · have hout := GOT_outcome config env buf s
          change (WireInv config (GOT config env buf s).1 ∧ WireStep decode s (GOT config env buf s).1) ∧
            Replies s.link.log (GOT config env buf s).1.link.log
          generalize GOT config env buf s = r at hout
          cases hout with
          | garbled => exact quiet _ (.inl rfl) rfl rfl rfl (.one (by decide) _ _)
          | out => exact quiet _ (.inr rfl) rfl rfl rfl (.refl _)
          | sent => exact quiet _ (.inl rfl) rfl rfl rfl (.refl _)
          | foreign => exact quiet _ (.inl rfl) rfl rfl rfl (.refl _)
        · obtain rfl := (List.mem_cons.mp ht).resolve_right fun h => hget (List.mem_singleton.mp h)
          have hout := SKIP_outcome config env buf s
          change (WireInv config (SKIP config env buf s).1 ∧
            WireStep decode s (SKIP config env buf s).1) ∧
            Replies s.link.log (SKIP config env buf s).1.link.log
          generalize SKIP config env buf s = r at hout
          cases hout with
          | garbled => exact quiet _ (.inl rfl) rfl rfl rfl (.one (by decide) _ _)
          | status => exact quiet _ (.inl rfl) rfl rfl rfl (.one (by decide) _ _)
          | out => exact quiet _ (.inr rfl) rfl rfl rfl (.refl _)
          | other => exact quiet _ (.inl rfl) rfl rfl rfl (.refl _)
      · obtain ⟨q, htx⟩ := handle_tx config env buf s ht
        apply quiet
        · rw [htx]
          exact .inl rfl
        · rw [htx]
        · rw [htx]
        · rw [htx]
        · exact handle_replies config env buf s ht
    exact ⟨fun _ => hboth.1, fun _ => hboth.2⟩

/-! ### Runs in small steps -/

/-- A run in small steps and messages of the remote, in any order and at any moment; `ok` is asked of
the small steps.  The flag is false once a handler has stopped the session. -/
inductive Moves (config : BinkdConfig) (ok : State → State → Prop) (s0 : State) : State → Bool → Prop
  | start : Moves config ok s0 s0 true
  | act (env : Env) {s s' : State} (h : Moves config ok s0 s true) (hact : Act config env s s')
      (hok : ok s s') : Moves config ok s0 s' true
  | message (env : Env) {s : State} (t : Byte) (buf : List Byte) (h : Moves config ok s0 s true) :
      Moves config ok s0 (handle config env t buf s).1 (handle config env t buf s).2
  | stopped {s : State} (h : Moves config ok s0 s false) : Moves config ok s0 (stopped s) false

theorem Moves.acts {ok : State → State → Prop} {s0 a b : State} (h : Moves config ok s0 a true)
    (hacts : Acts config env a b) (hok : ∀ a b, ok a b) : Moves config ok s0 b true := by
  induction hacts with
  | refl => exact h
  | tail _ hact ih => exact .act env ih hact (hok _ _)

/-- A run in rounds is a run in small steps. -/
theorem Moves.rounds {s0 : State} {live : Bool} (run : Run (iterate config) (fun _ _ => True) s0 s live) :
    ∃ live', (live = true → live' = true) ∧ Moves config (fun _ _ => True) s0 s live' := by
  induction run with
  | start => exact ⟨true, id, .start⟩
  | @step s i _ _ ih =>
    obtain ⟨_, hlive, h⟩ := ih
    obtain rfl := hlive rfl
    cases iterate_acts config i s with
    | quiet _ hacts => exact ⟨true, fun _ => rfl, h.acts hacts fun _ _ => trivial⟩
    | message a t buf harr before behind stop =>
      have hmsg := Moves.message i.env t buf (h.acts before fun _ _ => trivial)
      cases hflag : (handle config i.env t buf a).2 with
      | true =>
        rw [hflag] at hmsg
        exact ⟨true, fun _ => rfl, hmsg.acts behind fun _ _ => trivial⟩
      | false =>
        rw [hflag] at hmsg
        rw [stop hflag]
        exact ⟨false, fun h => absurd h (by simp), .stopped hmsg⟩

/-- A step that announces a file finds the compressor off. -/
def CleanStart (s s' : State) : Prop := (∃ m, s'.link.log = .file m :: s.link.log) → s.tx.zSend = .off

/-- The data blocks of a part of the log. -/
def dataOf : List Item → List Byte
  | [] => []
  | .data payload :: log => dataOf log ++ payload
  | _ :: log => dataOf log

/-- What the open file holds. -/
def openContent (s : State) : List Byte :=
  match s.tx.out.f with
  | some h => h.bytes
  | none => []

theorem Moves.wireInv {decode : ZSend → List Byte → List Byte} (hcodec : Codec config decode)
    (hshares : config.shares = []) {s0 : State} {live : Bool} (h0 : WireInv config s0)
    (run : Moves config CleanStart s0 s live) : live = true → WireInv config s := by
  induction run with
  | start => exact fun _ => h0
  | act env h hact hok ih => exact fun _ => ((ih rfl).act hcodec hshares hact hok).1
  | message env t buf h ih =>
    intro hlive
    exact ((@WireInv.message config env _ decode (ih rfl) t buf).1 hlive).1
  | stopped => exact fun hlive => absurd hlive (by decide)

theorem dataOf_replies {log : List Item} {items : List Item} (hitems : ∀ i ∈ items, i.isReply = true) :
    dataOf (items ++ log) = dataOf log := by
  induction items with
  | nil => rfl
  | cons i items ih =>
    have hrest := ih fun x hx => hitems x (List.mem_cons_of_mem i hx)
    cases i with
    | msg t text => exact hrest
    | file m => exact absurd (hitems _ List.mem_cons_self) (by simp [Item.isReply])
    | data p => exact absurd (hitems _ List.mem_cons_self) (by simp [Item.isReply])

/-- Behind an announcement and before the next. -/
theorem current_segment {m : FileMsg} {later rest : List Item} (hno : ∀ m', Item.file m' ∉ later) :
    current (later ++ .file m :: rest) = some (m, dataOf later) := by
  induction later with
  | nil => rfl
  | cons i later ih =>
    have hrest := ih fun m' hm' => hno m' (List.mem_cons_of_mem i hm')
    cases i with
    | msg t text => exact hrest
    | file m' => exact absurd List.mem_cons_self (hno m')
    | data p =>
      show (current (later ++ .file m :: rest)).map _ = _
      rw [hrest]
      rfl

/-- The data behind an announcement, as long as there is no other; a machine that goes on has the
same file open. -/
def Sofar (decode : ZSend → List Byte → List Byte) (m : FileMsg) (rest : List Item) (content : List Byte)
    (s : State)
    (live : Bool) : Prop :=
  ∃ later, s.link.log = later ++ .file m :: rest ∧ ((∀ m', Item.file m' ∉ later) →
    decoded decode m (dataOf later) <+: content.drop (m.off.getD 0) ∧
    (live = true → ∀ h, s.tx.out.f = some h → h.bytes = content))

section
variable {decode : ZSend → List Byte → List Byte} {m : FileMsg} {rest : List Item} {content : List Byte}

/-- Nothing has been sent but replies. -/
theorem Sofar.replies {live : Bool} (h : Sofar decode m rest content s true)
    (hlog : Replies s.link.log s'.link.log)
    (hfile : live = true → s'.tx.out.f = none ∨ s'.tx.out.f = s.tx.out.f) :
    Sofar decode m rest content s' live := by
  obtain ⟨later, hlater, hdata⟩ := h
  obtain ⟨items, hitems, hlog⟩ := hlog
  refine ⟨items ++ later, by rw [hlog, hlater, List.append_assoc], fun hno => ?_⟩
  obtain ⟨hdec, hopen⟩ := hdata fun m' hm' => hno m' (List.mem_append_right items hm')
  refine ⟨by rw [dataOf_replies hitems]; exact hdec, fun hlive f hf => ?_⟩
  rcases hfile hlive with hnone | hsame
  · exact absurd (hnone.symm.trans hf) (by simp)
  · exact hopen rfl f (hsame.symm.trans hf)

/-- One step takes the data on. -/
theorem Sofar.step (h : Sofar decode m rest content s true) (hstep : WireStep decode s s') :
    Sofar decode m rest content s' true := by
  cases hstep with
  | quiet hlog hfile => exact h.replies hlog fun _ => hfile
  | file m' hlog =>
    obtain ⟨later, hlater, -⟩ := h
    refine ⟨.file m' :: later, by rw [hlog, hlater]; rfl, fun hno => ?_⟩
    exact absurd List.mem_cons_self (hno m')
  | empty hlog hnone hfile =>
    obtain ⟨later, hlater, hdata⟩ := h
    refine ⟨.data [] :: later, by rw [hlog, hlater]; rfl, fun hno => ?_⟩
    obtain ⟨hdec, -⟩ := hdata fun m' hm' => hno m' (List.mem_cons_of_mem _ hm')
    refine ⟨by rw [dataOf, List.append_nil]; exact hdec, fun _ f hf => ?_⟩
    exact absurd (hfile.symm.trans hf) (by simp)
  | data f payload m2 data hopen hlog hcur hfile hdecoded =>
    obtain ⟨later, hlater, hdata⟩ := h
    refine ⟨.data payload :: later, by rw [hlog, hlater]; rfl, fun hno => ?_⟩
    have hno' : ∀ m', Item.file m' ∉ later := fun m' hm' => hno m' (List.mem_cons_of_mem _ hm')
    obtain ⟨-, hcontent⟩ := hdata hno'
    rw [hlater, current_segment hno', Option.some.injEq, Prod.mk.injEq] at hcur
    obtain ⟨rfl, rfl⟩ := hcur
    have hbytes := hcontent rfl f hopen
    refine ⟨by rw [dataOf, ← hbytes]; exact hdecoded, fun _ f' hf' => (hfile f' hf').trans hbytes⟩

/-- A run takes the data on. -/
theorem Sofar.moves {s1 s2 : State} {live : Bool} (hcodec : Codec config decode)
    (hshares : config.shares = [])
    (h1 : WireInv config s1) (run : Moves config CleanStart s1 s2 live)
    (h : Sofar decode m rest content s1 true) :
    Sofar decode m rest content s2 live := by
  induction run with
  | start => exact h
  | act env hrun hact hok ih =>
    exact ih.step ((hrun.wireInv hcodec hshares h1 rfl).act hcodec hshares hact hok).2
  | @message env s t buf hrun ih =>
    have hinv := hrun.wireInv hcodec hshares h1 rfl
    obtain ⟨hgoes, hstops⟩ := @WireInv.message config env s decode hinv t buf
    cases hlive : (handle config env t buf s).2 with
    | true => exact ih.step (hgoes hlive).2
    | false => exact ih.replies (hstops hlive) fun h => absurd h (by decide)
  | stopped h ih => exact ih

end

/-- Between `s`, where a file has just been announced, and `s'`: the announced file is the open one,
and the data frames before the next announcement, decoded as the announcement says, are a prefix of
what it holds from the offset on. -/
def SendsAnnounced (decode : ZSend → List Byte → List Byte) (s s' : State) : Prop :=
  ∀ m rest later, s.link.log = .file m :: rest → s'.link.log = later ++ .file m :: rest →
    (∀ m', Item.file m' ∉ later) → (s.tx.out.f.isSome → m.file = s.tx.out.closed) ∧
      decoded decode m (dataOf later) <+: (openContent s).drop (m.off.getD 0)

theorem decoded_nil {decode : ZSend → List Byte → List Byte} (hcodec : Codec config decode) (m : FileMsg) :
    decoded decode m [] = [] := by
  unfold decoded
  split_ifs with hoff
  · rfl
  · exact List.prefix_nil.mp ((hcodec _ hoff).decode_made [])

/-- **The data frames**: in every run whose steps start no file with the compressor on, the data
behind an announcement are those of the announced file. -/
theorem frames_of_file {decode : ZSend → List Byte → List Byte} (hcodec : Codec config decode)
    (hshares : config.shares = [])
    (env : Env) (disk : Disk) (peerName ipaddr : Str) (to_ : Option FtnNode) (fa : Option FtnAddr)
    {s s' : State} {live : Bool}
    (run : Moves config CleanStart (start config env disk peerName ipaddr to_ fa) s true)
    (run' : Moves config CleanStart s s' live) : SendsAnnounced decode s s' := by
  have h0 : WireInv config (start config env disk peerName ipaddr to_ fa) := by
    have htx := (start_opening config env disk peerName ipaddr to_ fa).tx
    refine ⟨⟨?_, ?_⟩, ?_⟩
    · rw [htx]
      exact fun _ => rfl
    · rw [htx]
      exact fun h => absurd rfl h
    · rw [htx]
      exact fun h hf => absurd hf (by simp)
  have h1 := run.wireInv hcodec hshares h0 rfl
  intro m rest later hlog hlater hno
  have hstart : Sofar decode m rest (openContent s) s true := by
    refine ⟨[], hlog, fun _ => ⟨?_, fun _ h hf => ?_⟩⟩
    · rw [dataOf, decoded_nil hcodec]
      exact List.nil_prefix
    · rw [openContent, hf]
  obtain ⟨later', hlater', hdata⟩ := hstart.moves hcodec hshares h1 run'
  obtain rfl : later' = later := List.append_cancel_right (hlater'.symm.trans hlater)
  refine ⟨fun hopen => ?_, (hdata hno).1⟩
  obtain ⟨f, hf⟩ := Option.isSome_iff_exists.mp hopen
  obtain ⟨-, m', data, hcur, hsame, -⟩ := h1.file f hf
  rw [hlog, current, Option.some.injEq, Prod.mk.injEq] at hcur
  rw [hcur.1]
  exact hsame

/-- A compressor that counts every byte up by one. -/
def countedUp : Stepper Byte := fun _ k =>
  ⟨min k.src.length k.room, (k.src.take k.room).map (· + 1),
    if k.finish ∧ k.src.length ≤ k.room then 1 else 0⟩

theorem countedUp_made (h : List (Call Byte)) : countedUp.made h = (countedUp.fed h).map (· + 1) := by
  induction h with
  | nil => rfl
  | cons k h ih =>
    rw [Stepper.made_cons, Stepper.fed_cons, ih, List.map_append]
    simp [countedUp, List.take_eq_take_min, Nat.min_comm]

theorem countedUp_compressing : countedUp.Compressing (List.map (· - 1)) where
  used_le _ k := Nat.min_le_left _ _
  out_le _ k := by simp [countedUp]
  decode_made h := by
    rw [countedUp_made, List.map_map]
    simp [Function.comp_def]
  rc_le _ k := by
    simp only [countedUp]
    split_ifs <;> decide
  takes _ k _ hroom := by
    simp only [countedUp, List.length_map, List.length_take] at hroom ⊢
    omega
  ends _ k hrc := by
    simp only [countedUp] at hrc ⊢
    split_ifs at hrc with h
    · exact ⟨h.1, Nat.min_eq_left h.2⟩
    · contradiction

/-- A node that compresses every file in this way. -/
def packConfig : BinkdConfig :=
  { fidoConfig [] with
    zrules := [⟨str "*", true⟩], zminsize := 1
    zlib := { ZLib.stored with doCompress := fun _ => countedUp } }

def packStart : State := start packConfig {} spoolDisk [] [] none none

theorem packConfig_codec : Codec packConfig fun _ => List.map (· - 1) := fun _ _ => countedUp_compressing

/-- The remote logs in, and skips the first file before anything of it has been sent. -/
def firstSkipped : List Input :=
  Input.message {} M_NUL (str "OPT EXTCMD GZ") ++ Input.message {} M_ADR (str "2:5020/1") ++
    Input.message {} M_PWD (str "-") ++ Input.message {} M_SKIP (str "a 1 0") ++ [⟨{}, .ready none none⟩]

/-- Then the second is sent. -/
def secondSent : List Input := List.replicate 3 ⟨{}, .ready none (some (.sent 10000))⟩

/-- The second file is announced as plain, and its byte is sent compressed. -/
theorem skipped_packed : ∃ (decode : ZSend → List Byte → List Byte) (s s' : State),
    Codec packConfig decode ∧ packConfig.shares = [] ∧
    Run (iterate packConfig) (fun _ _ => True) packStart s true ∧
    Run (iterate packConfig) (fun _ _ => True) s s' true ∧ ¬ SendsAnnounced decode s s' := by
  have hrun : Allowed (iterate packConfig) (fun _ _ => True) firstSkipped packStart ∧
      Allowed (iterate packConfig) (fun _ _ => True) secondSent
        (after (iterate packConfig) firstSkipped packStart) := by decide +kernel
  have hlog : (after (iterate packConfig) firstSkipped packStart).link.log =
      .file ⟨(after (iterate packConfig) firstSkipped packStart).tx.out.closed, some 0, []⟩ ::
        (after (iterate packConfig) firstSkipped packStart).link.log.tail ∧
      (after (iterate packConfig) secondSent (after (iterate packConfig) firstSkipped packStart)).link.log =
      [.data [67]] ++ (after (iterate packConfig) firstSkipped packStart).link.log ∧
      openContent (after (iterate packConfig) firstSkipped packStart) = [66] := by
    decide +kernel
  obtain ⟨hfirst, hlater, hcontent⟩ := hlog
  refine ⟨fun _ => List.map (· - 1), _, _, packConfig_codec, rfl, Run.of_inputs hrun.1,
    Run.of_inputs hrun.2,
    fun h => ?_⟩
  have hdata := (h _ _ [.data [67]] hfirst (by rw [hlater, ← hfirst]) (by simp)).2
  rw [hcontent] at hdata
  exact absurd hdata (by decide)

instance (log log' : List Item) : Decidable (∃ m, log' = .file m :: log) :=
  match log' with
  | .file m :: l => decidable_of_iff (l = log) (by simp)
  | [] => isFalse (by simp)
  | .msg _ _ :: _ => isFalse (by simp)
  | .data _ :: _ => isFalse (by simp)

instance (s : State) : Decidable s.Ready :=
  decidable_of_iff (s.tx.localEOB = false ∧ s.tx.out.f = none ∧ s.tx.waitingForGOT = false ∧
      s.tx.offReqSent = false ∧ s.login.state ≠ .null)
    ⟨fun ⟨a, b, c, d, e⟩ => ⟨a, b, c, d, e⟩, fun ⟨a, b, c, d, e⟩ => ⟨a, b, c, d, e⟩⟩

instance (s s' : State) : Decidable (CleanStart s s') :=
  inferInstanceAs (Decidable ((∃ m, s'.link.log = .file m :: s.link.log) → s.tx.zSend = .off))

/-- The remote has logged in to the packing node. -/
def packLogin : State :=
  (handle packConfig {} M_PWD (str "-") (handle packConfig {} M_ADR (str "2:5020/1")
    (handle packConfig {} M_NUL (str "OPT EXTCMD GZ") packStart).1).1).1

theorem packLogin_queue : (selectNextFile packLogin.tx.q).isSome = true := by decide +kernel

/-- The flow file is opened, and the first file is announced. -/
def packAnnounced : State :=
  (startFileTransfer packConfig {} (some ((selectNextFile packLogin.tx.q).get packLogin_queue).1)
    { packLogin with tx := { packLogin.tx with
        q := ((selectNextFile packLogin.tx.q).get packLogin_queue).2 } }).1

/-- What is in the queue of messages is written. -/
def packWritten : State :=
  { (sendMsgs {} packAnnounced).1 with link := { (sendMsgs {} packAnnounced).1.link with
      pend := (sendMsgs {} packAnnounced).1.link.pend.drop 10000 } }

/-- The block of the first file. -/
def packSent : State := (sendData packConfig {} packWritten).1

/-- The first file is sent compressed, as it was announced. -/
theorem frames_of_packed : SendsAnnounced (fun _ => List.map (· - 1)) packAnnounced packSent ∧
    packAnnounced.link.log = .file ⟨packAnnounced.tx.out.closed, some 0, str " GZ"⟩ :: packLogin.link.log ∧
    packSent.link.log = .data [66] :: packAnnounced.link.log := by
  have hgo : (handle packConfig {} M_NUL (str "OPT EXTCMD GZ") packStart).2 = true ∧
      (handle packConfig {} M_ADR (str "2:5020/1")
        (handle packConfig {} M_NUL (str "OPT EXTCMD GZ") packStart).1).2 = true ∧
      (handle packConfig {} M_PWD (str "-") (handle packConfig {} M_ADR (str "2:5020/1")
        (handle packConfig {} M_NUL (str "OPT EXTCMD GZ") packStart).1).1).2 = true ∧
      packLogin.Ready ∧ CleanStart packLogin packAnnounced := by decide +kernel
  obtain ⟨hnul, hadr, hpwd, hready, hannounce⟩ := hgo
  have message : ∀ t buf s, Moves packConfig CleanStart packStart s true →
      (handle packConfig {} t buf s).2 = true →
      Moves packConfig CleanStart packStart (handle packConfig {} t buf s).1 true := by
    intro t buf s hs hgo
    have hmsg := Moves.message {} t buf hs
    rwa [hgo] at hmsg
  have hlogin : Moves packConfig CleanStart packStart packLogin true :=
    message _ _ _ (message _ _ _ (message _ _ _ .start hnul) hadr) hpwd
  have hann : Moves packConfig CleanStart packStart packAnnounced true :=
    .act {} hlogin (.queued packLogin hready (Option.some_get packLogin_queue).symm) hannounce
  have hblock : (packAnnounced.link.pend = [] ∧ packAnnounced.link.msgs ≠ [] ∧
      CleanStart packAnnounced (sendMsgs {} packAnnounced).1 ∧
      CleanStart (sendMsgs {} packAnnounced).1 packWritten) ∧
      (packWritten.link.pend = [] ∧ packWritten.link.msgs = [] ∧
      ((packWritten.tx.out.f.isSome && !packWritten.tx.offReqSent && !packWritten.tx.waitingForGOT) ||
        packWritten.tx.sendEof) = true ∧ CleanStart packWritten packSent) ∧
      packAnnounced.link.log =
        .file ⟨packAnnounced.tx.out.closed, some 0, str " GZ"⟩ :: packLogin.link.log ∧
      packSent.link.log = .data [66] :: packAnnounced.link.log := by decide +kernel
  obtain ⟨⟨hpend, hmsgs, hquiet, hquiet'⟩, ⟨hpend', hmsgs', hopen, hquiet''⟩, hlog⟩ := hblock
  have hpack : Moves packConfig CleanStart packAnnounced (sendMsgs {} packAnnounced).1 true :=
    .act {} .start (.pack packAnnounced hpend hmsgs) hquiet
  have hwritten : Moves packConfig CleanStart packAnnounced packWritten true :=
    .act {} hpack (.pend _ 10000) hquiet'
  have hsent : Moves packConfig CleanStart packAnnounced packSent true :=
    .act {} hwritten (.block _ hpend' hmsgs' hopen) hquiet''
  have hframes := frames_of_file packConfig_codec rfl {} spoolDisk [] [] none none hann hsent
  exact ⟨hframes, hlog⟩

end Binkd
