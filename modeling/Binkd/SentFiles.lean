import Binkd.Acknowledge
import Mathlib.Data.List.Infix

/-!
# The files that were sent

`Upto` follows a file through the log, from its last `M_FILE` over the data blocks built
from it, and `Transmitted` says that the blocks have brought it to its end.  A file gets
into `sent_fls` by its last block.  `GET` has another way in: it exchanges the current
file, wherever it stands, with the sent one that is asked for.  Where it does not
(`NoExchange`) every entry of `sent_fls` has been transmitted (`sent_transmitted`).
-/

namespace Binkd

open Lib

variable {config : BinkdConfig} {env : Env} {s s' : State}

/-! ### The position of the current file -/

/-- The loop around the compressor reads no further than the end of the file, and is done at
the end only. -/
theorem zLoop_pos {z : Stepper Byte} {oblksize : ℕ} {size : Int} {fuel : ℕ} {hist : List (Call Byte)} {h : Handle}
    {zbuf obuf : List Byte} {r : ZOut} (hloop : zLoop z oblksize size fuel hist h zbuf obuf = some r)
    (hpos : (h.pos : Int) ≤ size) : (r.h.pos : Int) ≤ size ∧
    (r.ended = true → (r.h.pos : Int) = size) := by
  induction fuel generalizing hist h zbuf obuf with
  | zero => simp [zLoop] at hloop
  | succ fuel ih =>
    rw [zLoop] at hloop
    split_ifs at hloop with herr hend hfull hleft
    · obtain rfl := Option.some.inj hloop
      have hleft := hend.1
      exact ⟨hpos, fun _ => by show (h.pos : Int) = size; omega⟩
    · obtain rfl := Option.some.inj hloop
      exact ⟨hpos, fun h => absurd h (by simp)⟩
    · exact ih hloop hpos
    · split at hloop
      · contradiction
      · next bytes h' hread =>
        obtain ⟨-, hpos'⟩ := Handle.read_spec hread
        refine ih hloop ?_
        omega

/-- A data block takes the file no further than its end, and a block that ends it takes it there. -/
theorem fileBlock_pos {h h' : Handle} {payload : List Byte}
    (hb : fileBlock config env h s = some (payload, s')) (hopen' : s'.tx.out.f = some h')
    (hpos : (h.pos : Int) ≤ s.tx.out.size) :
    (h'.pos : Int) ≤ s.tx.out.size ∧ (fileEnded payload s'.tx = true → (h'.pos : Int) = s.tx.out.size) := by
  unfold fileBlock at hb
  split at hb
  · unfold plainBlock at hb
    split at hb
    · contradiction
    · next bytes h1 hread =>
      obtain ⟨hlen, hpos1⟩ := Handle.read_spec hread
      obtain ⟨rfl, rfl⟩ := Prod.mk.inj (Option.some.inj hb)
      obtain rfl := Option.some.inj hopen'
      have hblk := config.oblksize_min
      refine ⟨by omega, fun hended => ?_⟩
      simp only [fileEnded, Bool.and_eq_true, Bool.or_eq_true, decide_eq_true_eq] at hended
      rcases hended.1 with hempty | hsize
      · have hzero : bytes.length = 0 := by
          rw [← pktReaddress_length config env s h1.pos bytes, hempty]
          rfl
        have : 0 < minBlksize := by decide
        omega
      · exact hsize.symm
  · next hz =>
    unfold zBlock at hb
    dsimp only at hb
    split at hb
    · contradiction
    · next bytes h1 hread =>
      obtain ⟨-, hpos1⟩ := Handle.read_spec hread
      split at hb
      · contradiction
      · next r hloop =>
        obtain ⟨rfl, rfl⟩ := Prod.mk.inj (Option.some.inj hb)
        obtain rfl := Option.some.inj hopen'
        obtain ⟨hle, hend⟩ := zLoop_pos hloop (by omega)
        refine ⟨hle, fun hended => hend ?_⟩
        simp only [fileEnded, Bool.and_eq_true, decide_eq_true_eq] at hended
        by_contra hne
        have hoff := hended.2
        rw [if_neg hne] at hoff
        exact hz hoff

/-! ### The log of a file -/

/-- How far a file is: the open file and the compressor. -/
structure Progress where
  h : Handle
  zSend : ZSend
  zOdata : Option (List (Call Byte))
  zObuf : List Byte

def Tx.progress (tx : Tx) (h : Handle) : Progress := ⟨h, tx.zSend, tx.zOdata, tx.zObuf⟩

/-- The log up to now: the file was announced last at some offset, and the data blocks built
from it since have brought it as far as it is. -/
inductive Upto (config : BinkdConfig) (t : TFile) : List Item → Progress → Prop
  | file (m : FileMsg) (log : List Item) (p : Progress) (hm : m.file = t) (hpos : p.h.pos = m.off.getD 0) :
      Upto config t (.file m :: log) p
  | reply {log : List Item} {p : Progress} (i : Item) (hi : i.isReply) (h : Upto config t log p) :
      Upto config t (i :: log) p
  | data (env : Env) (s s' : State) (h h' : Handle) (payload : List Byte) (hout : s.tx.out.closed = t)
      (hopen : s.tx.out.f = some h) (hb : fileBlock config env h s = some (payload, s'))
      (hopen' : s'.tx.out.f = some h') (hupto : Upto config t s.link.log (s.tx.progress h)) :
      Upto config t (.data payload :: s.link.log) (s'.tx.progress h')

/-- The file was transmitted up to its end, and has not been announced since. -/
def Transmitted (config : BinkdConfig) (log : List Item) (t : TFile) : Prop :=
  ∃ later payload sofar p, log = later ++ .data payload :: sofar ∧
    Upto config t (.data payload :: sofar) p ∧
    (p.h.pos : Int) = t.size ∧ p.zSend = .off ∧ ∀ m, .file m ∈ later → m.file ≠ t

theorem Upto.replies {t : TFile} {log log' : List Item} {p : Progress} (h : Upto config t log p)
    (hlog : Replies log log') : Upto config t log' p := by
  obtain ⟨items, hitems, rfl⟩ := hlog
  induction items with
  | nil => exact h
  | cons i items ih =>
    exact .reply i (hitems i List.mem_cons_self) (ih fun x hx => hitems x (List.mem_cons_of_mem i hx))

theorem Transmitted.cons {t : TFile} {log : List Item} {i : Item} (h : Transmitted config log t)
    (hi : ∀ m, i = .file m → m.file ≠ t) : Transmitted config (i :: log) t := by
  obtain ⟨later, payload, sofar, p, rfl, hupto, hpos, hz, hlater⟩ := h
  refine ⟨i :: later, payload, sofar, p, rfl, hupto, hpos, hz, fun m hm => ?_⟩
  rcases List.mem_cons.mp hm with heq | hm
  · exact hi m heq.symm
  · exact hlater m hm

theorem Transmitted.replies {t : TFile} {log log' : List Item} (h : Transmitted config log t)
    (hlog : Replies log log') : Transmitted config log' t := by
  obtain ⟨items, hitems, rfl⟩ := hlog
  induction items with
  | nil => exact h
  | cons i items ih =>
    refine (ih fun x hx => hitems x (List.mem_cons_of_mem i hx)).cons fun m hm => ?_
    have := hitems i List.mem_cons_self
    rw [hm] at this
    simp [Item.isReply] at this

/-- A file that was followed was announced. -/
theorem Upto.announced {t : TFile} {log : List Item} {p : Progress} (h : Upto config t log p) :
    ∃ m, .file m ∈ log ∧ m.file = t := by
  induction h with
  | file m log p hm => exact ⟨m, List.mem_cons_self, hm⟩
  | reply i hi h ih =>
    obtain ⟨m, hmem, hm⟩ := ih
    exact ⟨m, List.mem_cons_of_mem _ hmem, hm⟩
  | data env s s' h h' payload hout hopen hb hopen' hupto ih =>
    obtain ⟨m, hmem, hm⟩ := ih
    exact ⟨m, List.mem_cons_of_mem _ hmem, hm⟩

/-- A data block follows the announcement of a transmitted file. -/
theorem Transmitted.announced {t : TFile} {log : List Item} (h : Transmitted config log t) :
    ∃ payload sofar, .data payload :: sofar <:+ log ∧ ∃ m, .file m ∈ sofar ∧ m.file = t := by
  obtain ⟨later, payload, sofar, p, rfl, hupto, -⟩ := h
  refine ⟨payload, sofar, List.suffix_append _ _, ?_⟩
  obtain ⟨m, hmem, hm⟩ := hupto.announced
  rcases List.mem_cons.mp hmem with heq | hmem
  · contradiction
  · exact ⟨m, hmem, hm⟩

/-! ### The invariant -/

/-- Every entry with a name has been transmitted. -/
def AllSent (config : BinkdConfig) (s : State) : Prop :=
  ∀ t ∈ s.tx.sentFls, t.netname ≠ [] → Transmitted config s.link.log t.closed

/-- The current file is as far as the log says, and the sent files are at their ends. -/
structure SentInv (config : BinkdConfig) (s : State) : Prop where
  num : Numbered s.tx
  out : ∀ h ∈ s.tx.out.f, (h.pos : Int) ≤ s.tx.out.size ∧
    Upto config s.tx.out.closed s.link.log (s.tx.progress h)
  sent : AllSent config s

theorem AllSent.replies (h : AllSent config s) (hsent : LiveSubset s'.tx.sentFls s.tx.sentFls)
    (hlog : Replies s.link.log s'.link.log) : AllSent config s' :=
  fun t ht hname => (h t (hsent t ht hname) hname).replies hlog

/-- Neither the current file nor what was sent of it has changed. -/
theorem SentInv.keep (h : SentInv config s) (hnum : Numbered s'.tx) (hout : s'.tx.out = s.tx.out)
    (hprog : ∀ f, s'.tx.progress f = s.tx.progress f) (hsent : LiveSubset s'.tx.sentFls s.tx.sentFls)
    (hlog : Replies s.link.log s'.link.log) : SentInv config s' := by
  refine ⟨hnum, fun f hf => ?_, h.sent.replies hsent hlog⟩
  rw [hout] at hf
  obtain ⟨hpos, hupto⟩ := h.out f hf
  rw [hout, hprog]
  exact ⟨hpos, hupto.replies hlog⟩

/-- There is no open file. -/
theorem SentInv.closed (h : SentInv config s) (hnum : Numbered s'.tx) (hout : s'.tx.out.f = none)
    (hsent : LiveSubset s'.tx.sentFls s.tx.sentFls) (hlog : Replies s.link.log s'.link.log) :
    SentInv config s' :=
  ⟨hnum, fun f hf => by simp [hout] at hf, h.sent.replies hsent hlog⟩

/-- A sent file is another than the current one. -/
theorem Numbered.closed_ne {tx : Tx} (h : Numbered tx) {t : TFile} (ht : t ∈ tx.sentFls) (hname : t.netname ≠ []) :
    tx.out.closed ≠ t.closed := by
  intro heq
  by_cases hout : tx.out.netname = []
  · exact hname ((congrArg TFile.netname heq).symm.trans hout)
  · exact h.out_ne hout ht hname (congrArg TFile.id heq).symm

/-- The announcement of the current file. -/
theorem SentInv.announce {m : FileMsg} (h : SentInv config s) (hnum : Numbered s'.tx)
    (hsent : LiveSubset s'.tx.sentFls s.tx.sentFls) (hlog : s'.link.log = .file m :: s.link.log)
    (hm : m.file = s'.tx.out.closed)
    (hpos : ∀ f ∈ s'.tx.out.f, f.pos = m.off.getD 0 ∧ (f.pos : Int) ≤ s'.tx.out.size) :
    SentInv config s' := by
  refine ⟨hnum, fun f hf => ?_, fun t ht hname => ?_⟩
  · obtain ⟨hoff, hle⟩ := hpos f hf
    rw [hlog]
    exact ⟨hle, .file m _ _ hm hoff⟩
  · rw [hlog]
    refine (h.sent t (hsent t ht hname) hname).cons fun m' heq => ?_
    obtain rfl := Item.file.inj heq
    rw [hm]
    exact hnum.closed_ne ht hname

/-! ### The small steps -/

theorem LiveSubset.rfl (l : List TFile) : LiveSubset l l := fun _ ht _ => ht

theorem firstOffset_open {h : Handle} (hopen : s.tx.out.f = some h) : (firstOffset s).getD 0 = 0 := by
  unfold firstOffset
  rw [hopen]
  cases s.login.nrFlag.we <;> rfl

theorem SentInv.start (h : SentInv config s) (file : Option Ftnq)
    (hnum : Numbered (startFileTransfer config env file s).1.tx) :
    SentInv config (startFileTransfer config env file s).1 := by
  rcases startFileTransfer_outcome config env file s with ⟨hnot, -⟩ | ⟨s1, hprep, hd, hr⟩
  · obtain ⟨_, _, o, _, _, _, _, _, i, heq, ho, -, -⟩ := hnot
    rw [heq] at hnum ⊢
    exact h.closed hnum ho (.rfl _) (.refl _)
  · obtain ⟨z, od, extra, heq⟩ := announce_eq config env hd
    obtain ⟨disk, flo, k, n, m, a, hs1⟩ := hprep.eq
    have hsent : s1.tx.sentFls = s.tx.sentFls := by rw [hs1]
    have hlink : s1.link = s.link := by rw [hs1]
    rw [hr, heq] at hnum ⊢
    refine h.announce (m := ⟨{ s1.tx.out with f := none }, firstOffset s1, extra⟩) hnum ?_ ?_ rfl fun f hf => ?_
    · dsimp only
      rw [hsent]
      exact .rfl _
    · change Item.file _ :: s1.link.log = _
      rw [hlink]
    · obtain ⟨hpos, hsize, -⟩ := hprep.fresh.file f hf
      have hoff : (firstOffset s1).getD 0 = 0 := firstOffset_open hf
      exact ⟨hpos.trans hoff.symm, by dsimp only; omega⟩

/-- **What a small step keeps**. -/
theorem SentInv.act (hact : Act config env s s') (h : SentInv config s) : SentInv config s' := by
  have hnum := h.num.act hact
  cases hact with
  | @queued e q _ _ =>
    have hq : SentInv config { s with tx := { s.tx with q := q } } :=
      h.keep (h.num.less le_rfl le_rfl) rfl (fun _ => rfl) (.rfl _) (.refl _)
    exact hq.start (some e) hnum
  | floLine => exact h.start none hnum
  | eob => exact h.keep hnum rfl (fun _ => rfl) (.rfl _) (.one (by decide) _ _)
  | batch =>
    obtain ⟨_, _, _, _, htx⟩ := (endBatch_frame config env s).tx
    obtain ⟨_, hl⟩ := (endBatch_frame config env s).link
    refine h.keep hnum ?_ ?_ ?_ ?_
    · rw [htx]
    · intro f
      rw [htx]
      rfl
    · rw [htx]
      exact .rfl _
    · rw [hl]
      exact .refl _
  | data =>
    obtain ⟨_, htx, -⟩ := (recvData_frame config env _ s).tx
    refine h.keep hnum ?_ ?_ ?_ (recvData_frame config env _ s).link.replies
    · rw [htx]
    · intro f
      rw [htx]
      rfl
    · rw [htx]
      exact .rfl _
  | pack =>
    obtain ⟨_, _, heq⟩ := sendMsgs_spec env s
    rw [heq] at hnum ⊢
    exact h.keep hnum rfl (fun _ => rfl) (.rfl _) (.refl _)
  | block =>
    have hout := sendData_outcome config env s
    generalize sendData config env s = r at hout hnum
    cases hout with
    | empty hf =>
      refine ⟨hnum, fun f hf' => ?_, fun t ht hname => (h.sent t ht hname).cons fun _ heq => by contradiction⟩
      exact absurd (hf.symm.trans hf') (by simp)
    | failed => exact h
    | more f hf payload f' z od ob hb he =>
      obtain ⟨hpos, hupto⟩ := h.out f hf
      have hnext := Upto.data env s _ f f' payload rfl hf hb rfl hupto
      refine ⟨hnum, fun g hg => ?_, fun t ht hname => (h.sent t ht hname).cons fun _ heq => by contradiction⟩
      obtain rfl := Option.some.inj hg
      exact ⟨(fileBlock_pos hb rfl hpos).1, hnext⟩
    | last f hf payload f' z od ob hb he =>
      obtain ⟨hpos, hupto⟩ := h.out f hf
      refine ⟨hnum, fun g hg => by simp [TFile.zero] at hg, fun t ht hname => ?_⟩
      rcases List.mem_append.mp ht with ht | ht
      · exact (h.sent t ht hname).cons fun _ heq => by contradiction
      · obtain rfl := List.mem_singleton.mp ht
        -- the last block takes the file to its end, with the compressor off
        have hend := (fileBlock_pos hb rfl hpos).2 he
        have hz : z = .off := by
          simp only [fileEnded, Bool.and_eq_true, decide_eq_true_eq] at he
          exact he.2
        have hnext := Upto.data env s _ f f' payload rfl hf hb rfl hupto
        exact ⟨[], payload, s.link.log, _, rfl, hnext, hend, hz,
          fun _ hm => absurd hm List.not_mem_nil⟩
  | _ => exact h.keep hnum rfl (fun _ => rfl) (.rfl _) (.refl _)

/-! ### The messages of the remote -/

/-- `GET` does not exchange the current file with a sent one. -/
def NoExchange (s : State) (t : Byte) (buf : List Byte) : Prop :=
  t = M_GET → s.tx.out.f.isSome → ∀ f ∈ namedFile 4 buf, sentIndex s f = none

instance (s : State) (t : Byte) (buf : List Byte) : Decidable (NoExchange s t buf) :=
  inferInstanceAs (Decidable (t = M_GET → s.tx.out.f.isSome → ∀ f ∈ namedFile 4 buf, sentIndex s f = none))

/-- The rounds of a run in which no file is exchanged. -/
def NoExchanges (config : BinkdConfig) : Input → State → Prop := Meets config NoExchange

instance (config : BinkdConfig) (i : Input) (s : State) : Decidable (NoExchanges config i s) :=
  inferInstanceAs (Decidable (Meets config NoExchange i s))

/-- Then the sent files lose an entry at most. -/
theorem Fetched.subset {f : Str × Int × Int} {o : TFile} {l : List TFile} (h : Fetched env s f o l)
    (hno : s.tx.out.f.isSome → sentIndex s f = none) : LiveSubset l s.tx.sentFls := by
  have hclosed : ∀ i, sentIndex s f = some i → ¬ s.tx.out.f.isSome := fun i hi hopen => by
    simp [hno hopen] at hi
  cases h with
  | current => exact .rfl _
  | reopened i hi =>
    rw [if_neg (hclosed i hi)]
    exact removeSent_live i _
  | gone i hi =>
    rw [if_neg (hclosed i hi)]
    exact removeSent_live i _

/-- What is not open is no file that was sent. -/
theorem Fetched.closed {f : Str × Int × Int} {o : TFile} {l : List TFile} (h : Fetched env s f o l)
    (hnone : o.f = none) : (o = s.tx.out ∧ l = s.tx.sentFls) ∨ o = .zero := by
  cases h with
  | current => exact .inl ⟨rfl, rfl⟩
  | reopened => simp at hnone
  | gone => exact .inr rfl

/-- What `GET` takes up is closed, or is open at a place in the file. -/
theorem SentInv.get (h : SentInv config s) (buf : List Byte) (hno : NoExchange s M_GET buf) :
    ((GET config env buf s).2 = true → SentInv config (GET config env buf s).1) ∧
      AllSent config (GET config env buf s).1 := by
  have hnum : Numbered (GET config env buf s).1.tx := @handle_numbered config env s M_GET buf h.num
  have hout := GET_outcome config env buf s
  generalize GET config env buf s = r at hout hnum
  cases hout with
  | garbled =>
    have hkeep : SentInv config (cannotParse "M_GET" s).1 :=
      h.keep hnum rfl (fun _ => rfl) (.rfl _) (.one (by decide) _ _)
    exact ⟨fun _ => hkeep, hkeep.sent⟩
  | failed f hf o l hfetch o' ho disk link a w hlink =>
    exact ⟨fun hgo => absurd hgo (by simp), h.sent.replies (hfetch.subset fun hopen => hno rfl hopen f hf)
      hlink.replies⟩
  | eof f hf o l hfetch hnamed hnone =>
    have hinv := h.announce (m := ⟨{ o with f := none }, some (toUnsigned64 o.size), []⟩) hnum
      (hfetch.subset fun hopen => hno rfl hopen f hf) rfl rfl fun g hg => by simp [hnone] at hg
    exact ⟨fun _ => hinv, hinv.sent⟩
  | status f hf o l hfetch hnamed hnone hreq off disk a =>
    have hinv : SentInv config { sendFileMsg ⟨o, some off, []⟩ s with
        disk := disk
        tx := { s.tx with
          sentFls := l, out := .zero, ndAddr := a
          waitingForGOT := s.tx.waitingForGOT && !s.login.ndFlag.we, offReqSent := false } } := by
      refine ⟨hnum, fun g hg => by simp [TFile.zero] at hg, fun t ht hname => ?_⟩
      refine (h.sent t (hfetch.subset (fun hopen => hno rfl hopen f hf) t ht hname) hname).cons fun m heq => ?_
      obtain rfl := Item.file.inj heq
      rcases hfetch.closed hnone with ⟨rfl, rfl⟩ | rfl
      · exact h.num.closed_ne ht hname
      · exact fun heq => hname (congrArg TFile.netname heq).symm
    exact ⟨fun _ => hinv, hinv.sent⟩
  | resumed f hf o l hfetch hnamed g hopen off hoff nz extra z od ob hz disk a =>
    have hinv := h.announce (m := ⟨{ o with f := none }, some off, extra⟩) hnum
      (hfetch.subset fun hopen => hno rfl hopen f hf) rfl rfl fun g' hg => by
        obtain rfl := Option.some.inj hg
        exact ⟨rfl, hoff⟩
    exact ⟨fun _ => hinv, hinv.sent⟩

/-- **What a message keeps** that does not exchange the current file. -/
theorem SentInv.message {t : Byte} {buf : List Byte} (h : SentInv config s) (hno : NoExchange s t buf) :
    ((handle config env t buf s).2 = true → SentInv config (handle config env t buf s).1) ∧
      AllSent config (handle config env t buf s).1 := by
  have hnum : Numbered (handle config env t buf s).1.tx := handle_numbered h.num
  by_cases hget : t = M_GET
  · subst hget
    exact h.get buf hno
  · have hkeep : SentInv config (handle config env t buf s).1 := by
      by_cases ht : t ∈ answers
      · rcases List.mem_cons.mp ht with rfl | ht
        · have hout := GOT_outcome config env buf s
          change SentInv config (GOT config env buf s).1
          change Numbered (GOT config env buf s).1.tx at hnum
          generalize GOT config env buf s = r at hout hnum
          cases hout with
          | garbled => exact h.keep hnum rfl (fun _ => rfl) (.rfl _) (.one (by decide) _ _)
          | out => exact h.closed hnum rfl (.rfl _) (.refl _)
          | sent f hf hne i => exact h.keep hnum rfl (fun _ => rfl) (removeSent_live i _) (.refl _)
          | foreign => exact h.keep hnum rfl (fun _ => rfl) (.rfl _) (.refl _)
        · obtain rfl := (List.mem_cons.mp ht).resolve_right fun h => hget (List.mem_singleton.mp h)
          have hout := SKIP_outcome config env buf s
          change SentInv config (SKIP config env buf s).1
          change Numbered (SKIP config env buf s).1.tx at hnum
          generalize SKIP config env buf s = r at hout hnum
          cases hout with
          | garbled => exact h.keep hnum rfl (fun _ => rfl) (.rfl _) (.one (by decide) _ _)
          | status f hf heq hnone a l hl => exact h.keep hnum rfl (fun _ => rfl) hl (.one (by decide) _ _)
          | out f hf heq hsome disk a l hl => exact h.closed hnum rfl hl (.refl _)
          | other f hf hne disk r a l hl => exact h.keep hnum rfl (fun _ => rfl) hl (.refl _)
      · obtain ⟨q, htx⟩ := handle_tx config env buf s ht
        refine h.keep hnum ?_ ?_ ?_ (handle_replies config env buf s ht)
        · rw [htx]
        · intro f
          rw [htx]
          rfl
        · rw [htx]
          exact .rfl _
    exact ⟨fun _ => hkeep, hkeep.sent⟩

/-- **Sent means transmitted**: in a run in which no file is exchanged, every entry of
`sent_fls` has been transmitted to its end since it was announced last, and none of them is
the current file. -/
theorem sent_transmitted (config : BinkdConfig) (env : Env) (disk : Disk) (peerName ipaddr : Str)
    (to_ : Option FtnNode) (fa : Option FtnAddr) (s : State) (live : Bool)
    (run : Run (iterate config) (NoExchanges config) (start config env disk peerName ipaddr to_ fa) s live) :
    (∀ t ∈ s.tx.sentFls, t.netname ≠ [] → Transmitted config s.link.log t.closed) ∧
    (s.tx.out.netname ≠ [] → ∀ t ∈ s.tx.sentFls, t.netname ≠ [] → t.id ≠ s.tx.out.id) := by
  have hinv : (live = true → SentInv config s) ∧ Numbered s.tx ∧ AllSent config s := by
    refine run.invariant (fun s live => (live = true → SentInv config s) ∧ Numbered s.tx ∧
      AllSent config s) ?_ ?_
    · have htx := (start_opening config env disk peerName ipaddr to_ fa).tx
      have hsent : AllSent config (start config env disk peerName ipaddr to_ fa) := by
        intro t ht
        rw [htx] at ht
        exact absurd ht List.not_mem_nil
      refine ⟨fun _ => ⟨start_numbered htx, ?_, hsent⟩, start_numbered htx, hsent⟩
      rw [htx]
      exact fun f hf => by contradiction
    · intro i s h hno
      have hnext := @iterate_induction_stop config (SentInv config) (fun s => Numbered s.tx ∧
        AllSent config s) i s
        (fun _ _ => SentInv.act) (fun a t buf harr ha => ?_) (h.1 rfl)
      · rcases hnext with hinv | ⟨hstop, hend⟩
        · exact ⟨fun _ => hinv, hinv.num, hinv.sent⟩
        · exact ⟨fun hlive => absurd (hlive.symm.trans hstop) (by decide), hend⟩
      · obtain ⟨hgo, hsent⟩ := @SentInv.message config i.env a t buf ha (hno (a, t, buf) harr)
        exact ⟨hgo, fun _ => ⟨handle_numbered ha.num, hsent⟩⟩
  exact ⟨hinv.2.2, fun hout t ht hname => hinv.2.1.out_ne hout ht hname⟩

/-- The remote logs in; the first file is sent, and the second is announced. -/
def secondAnnounced : List Input :=
  Input.message {} M_ADR (str "2:5020/1") ++ Input.message {} M_PWD (str "-") ++
    List.replicate 4 ⟨{}, .ready none (some (.sent 10000))⟩

/-- Then the remote asks for the first file once more. -/
def askedAgain : List Input := secondAnnounced ++ Input.message {} M_GET (str "a 1 0 0")

/-- Is there no data block behind the announcement of the file? -/
def noData (log : List Item) (t : TFile) : Bool :=
  log.tails.all fun l => match l with
    | .data _ :: sofar => sofar.all fun i => match i with
      | .file m => decide (m.file ≠ t)
      | _ => true
    | _ => true

theorem Transmitted.noData_false {t : TFile} {log : List Item} (h : Transmitted config log t) :
    noData log t = false := by
  obtain ⟨payload, sofar, hsuffix, m, hmem, hm⟩ := h.announced
  refine Bool.eq_false_iff.mpr fun hall => ?_
  have htail := List.all_eq_true.mp hall _ ((List.mem_tails _ _).mpr hsuffix)
  have hfile := List.all_eq_true.mp htail (.file m) hmem
  exact of_decide_eq_true hfile hm

/-- The second file stands in `sent_fls`, and nothing of it was sent. -/
theorem asked_again_untransmitted : ∃ (s : State) (t : TFile),
    Run (iterate (fidoConfig [])) (fun _ _ => True) spoolStart s true ∧ t ∈ s.tx.sentFls ∧
    t.netname = str "b" ∧ ¬ Transmitted (fidoConfig []) s.link.log t.closed := by
  have hrun : Allowed (iterate (fidoConfig [])) (fun _ _ => True) askedAgain spoolStart := by decide +kernel
  have hnone : noData (after (iterate (fidoConfig [])) askedAgain spoolStart).link.log
      ((after (iterate (fidoConfig [])) askedAgain spoolStart).tx.sentFls.getD 0 .zero).closed = true := by
    decide +kernel
  refine ⟨_, _, Run.of_inputs hrun, ?_, ?_, fun h => absurd (hnone.symm.trans h.noData_false) (by decide)⟩
  · decide +kernel
  · decide +kernel

/-- Without that question the first file has been transmitted. -/
theorem sent_transmitted_first : ∃ (s : State) (t : TFile),
    t ∈ s.tx.sentFls ∧ t.netname = str "a" ∧ Transmitted (fidoConfig []) s.link.log t.closed := by
  have hrun : Allowed (iterate (fidoConfig [])) (NoExchanges (fidoConfig [])) secondAnnounced spoolStart := by
    decide +kernel
  have run := Run.of_inputs hrun
  have hsent := (sent_transmitted (fidoConfig []) {} spoolDisk [] [] none none _ true run).1
  have hmem : (after (iterate (fidoConfig [])) secondAnnounced spoolStart).tx.sentFls.getD 0 .zero ∈
      (after (iterate (fidoConfig [])) secondAnnounced spoolStart).tx.sentFls := by decide +kernel
  have hname : ((after (iterate (fidoConfig [])) secondAnnounced spoolStart).tx.sentFls.getD 0 .zero).netname =
      str "a" := by decide +kernel
  have hdone := hsent _ hmem (by rw [hname]; decide)
  exact ⟨after (iterate (fidoConfig [])) secondAnnounced spoolStart, _, hmem, hname, hdone⟩

end Binkd
