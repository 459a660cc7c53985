import Binkd.Frame.Answers
import Binkd.Frame.Log
import Mathlib.Algebra.Order.Group.Multiset
import Mathlib.Tactic.Abel

/-!
# The files whose fate is open

A file that has been announced is the current file or stands in `sent_fls` until the
remote has told what became of it; an entry with a blank name is none any more.
`Tx.outstanding` are these files, however they are distributed.  A small step keeps
them or announces a new one, and no answer of the remote adds to them.
-/

namespace Binkd

open Lib

variable {config : BinkdConfig} {env : Env} {s s' : State}

/-- The record without the open file. -/
def TFile.closed (t : TFile) : TFile := { t with f := none }

/-- The records with a name. -/
def live (l : List TFile) : Multiset TFile := ((l.filter (·.netname ≠ [])).map TFile.closed : List TFile)

/-- The current file and those that were sent. -/
def Tx.outstanding (tx : Tx) : Multiset TFile := live (tx.out :: tx.sentFls)

theorem live_append (l l' : List TFile) : live (l ++ l') = live l + live l' := by
  simp [live]

theorem live_cons (t : TFile) (l : List TFile) : live (t :: l) = live [t] + live l := live_append [t] l

theorem live_nil : live [] = 0 := rfl

theorem live_blank {t : TFile} (h : t.netname = []) : live [t] = 0 := by
  simp [live, h]

theorem live_named {t : TFile} (h : t.netname ≠ []) : live [t] = {t.closed} := by
  simp [live, h]

/-- The open file has no part in it. -/
theorem live_open (t : TFile) (f : Option Handle) : live [{ t with f := f }] = live [t] := by
  by_cases h : t.netname = []
  · rw [live_blank h, live_blank (t := { t with f := f }) h]
  · rw [live_named h, live_named (t := { t with f := f }) h]
    rfl

theorem mem_live {x : TFile} {l : List TFile} : x ∈ live l ↔ ∃ t ∈ l, t.netname ≠ [] ∧ t.closed = x := by
  simp [live, and_assoc]

/-- What stands in a list is what stands before it, at an index, and behind it. -/
theorem live_split {l : List TFile} {i : ℕ} (hi : i < l.length) :
    live l = live (l.take i) + (live [l[i]] + live (l.drop (i + 1))) := by
  conv_lhs => rw [← List.take_append_drop i l, List.drop_eq_getElem_cons hi]
  rw [live_append, live_cons]

/-- An entry that another takes the place of. -/
theorem live_set {l : List TFile} {i : ℕ} (hi : i < l.length) (x : TFile) :
    live (l.set i x) + live [l[i]] = live [x] + live l := by
  rw [List.set_eq_take_append_cons_drop, if_pos hi, live_append, live_cons, live_split hi]
  abel

/-- An entry whose name is blanked. -/
theorem live_removeSent {l : List TFile} {i : ℕ} (hi : i < l.length) :
    live [l[i]] + live (removeSent i l) = live l := by
  have hmodify : live [l[i]] + live (l.modify i fun t => { t with netname := [] }) = live l := by
    have hblank : live ({ l[i] with netname := [] } :: l.drop (i + 1)) = live (l.drop (i + 1)) := by
      rw [live_cons, live_blank (by rfl), zero_add]
    rw [List.modify_eq_take_cons_drop hi, live_append, hblank, live_split hi]
    abel
  unfold removeSent
  dsimp only
  split
  · next hall =>
    have hblank : live (l.modify i fun t => { t with netname := [] }) = 0 := by
      rw [live, List.filter_eq_nil_iff.mpr fun t ht => by simpa using List.all_eq_true.mp hall t ht]
      rfl
    rw [← hmodify, hblank, live_nil]
  · exact hmodify

/-- The index of a named record. -/
theorem sentIndex_spec {f : Str × Int × Int} {i : ℕ} (h : sentIndex s f = some i) :
    ∃ hi : i < s.tx.sentFls.length, s.tx.sentFls.getD i .zero = s.tx.sentFls[i] ∧
    (s.tx.sentFls[i]).Named f := by
  obtain ⟨hi, hnamed, -⟩ := List.findIdx?_eq_some_iff_getElem.mp h
  exact ⟨hi, by simp [List.getD, hi], hnamed⟩

/-! ### The answers of the remote -/

theorem outstanding_eq (tx : Tx) : tx.outstanding = live [tx.out] + live tx.sentFls := live_cons _ _

/-- What `GET` takes from the sent files was outstanding. -/
theorem Fetched.live_le {f : Str × Int × Int} {o : TFile} {l : List TFile} (h : Fetched env s f o l) :
    live [o] + live l ≤ s.tx.outstanding := by
  rw [outstanding_eq]
  have hswap : ∀ i (hi : i < s.tx.sentFls.length), live [s.tx.sentFls[i]] +
      live (if s.tx.out.f.isSome then s.tx.sentFls.set i { s.tx.out with f := none }
        else removeSent i s.tx.sentFls) ≤ live [s.tx.out] + live s.tx.sentFls := by
    intro i hi
    split
    · rw [add_comm, live_set hi, live_open]
    · rw [live_removeSent hi]
      exact Multiset.le_add_left _ _
  cases h with
  | current => exact le_rfl
  | reopened i hi h =>
    obtain ⟨hlt, hget, -⟩ := sentIndex_spec hi
    rw [hget, live_open]
    exact hswap i hlt
  | gone i hi =>
    obtain ⟨hlt, -, -⟩ := sentIndex_spec hi
    rw [live_blank rfl, zero_add]
    exact (Multiset.le_add_left _ _).trans (hswap i hlt)

theorem skipSent_live (name : Str) (size time : Int) (fuel n : ℕ) (tx : Tx) :
    live (skipSent name size time fuel n tx).sentFls ≤ live tx.sentFls := by
  induction fuel generalizing n tx with
  | zero => exact le_rfl
  | succ fuel ih =>
    rw [skipSent]
    split
    · exact le_rfl
    · next t ht =>
      split_ifs
      · obtain ⟨hn, -⟩ := List.getElem?_eq_some_iff.mp ht
        refine (ih (n + 1) _).trans ?_
        rw [← live_removeSent hn]
        exact Multiset.le_add_left _ _
      · exact ih (n + 1) tx

/-- What is left of the current file and the sent files, if no entry has been added. -/
theorem outstanding_le {tx tx' : Tx} (hout : tx'.out = .zero ∨ tx'.out.closed = tx.out.closed)
    (hsent : live tx'.sentFls ≤ live tx.sentFls) : tx'.outstanding ≤ tx.outstanding := by
  rw [outstanding_eq, outstanding_eq]
  refine add_le_add ?_ hsent
  rcases hout with hout | hout
  · rw [hout, live_blank rfl]
    exact Multiset.zero_le _
  · rw [← live_open tx'.out none, ← live_open tx.out none]
    exact le_of_eq (congrArg (fun t => live [t]) hout)

theorem SKIP_outstanding (config : BinkdConfig) (env : Env) (buf : List Byte) (s : State) :
    (SKIP config env buf s).1.tx.outstanding ≤ s.tx.outstanding := by
  unfold SKIP
  split
  · next name size time rest _ =>
    dsimp only
    have hl := skipSent_live name (toSigned64 (strtoumax size)) (safeAtol time) s.tx.sentFls.length 0 s.tx
    obtain ⟨r, a, l, htx, -⟩ := skipSent_eq name (toSigned64 (strtoumax size)) (safeAtol time)
      s.tx.sentFls.length 0 s.tx
    rw [htx] at hl ⊢
    dsimp only at hl ⊢
    generalize tfileEq s.tx.out name (toSigned64 (strtoumax size)) (safeAtol time) = hit
    cases hit with
    | true =>
      simp only [if_true, true_and]
      split_ifs
      · exact outstanding_le (.inr rfl) hl
      · exact outstanding_le (.inl rfl) hl
      · exact outstanding_le (.inl rfl) hl
    | false =>
      simp only [Bool.false_eq_true, if_false, false_and]
      split_ifs
      · exact outstanding_le (.inr rfl) hl
      · exact outstanding_le (.inr rfl) hl
  · exact le_rfl

theorem GET_outstanding (config : BinkdConfig) (env : Env) (buf : List Byte) (s : State) :
    (GET config env buf s).1.tx.outstanding ≤ s.tx.outstanding := by
  have hout := GET_outcome config env buf s
  generalize GET config env buf s = r at hout
  cases hout with
  | garbled => exact le_rfl
  | failed f hf o l hfetch o' ho =>
    refine le_trans (le_of_eq ?_) hfetch.live_le
    rw [outstanding_eq, ← live_open o' none, ← live_open o none]
    exact congrArg (fun t => live [t] + live l) ho
  | eof f hf o l hfetch =>
    rw [outstanding_eq]
    exact hfetch.live_le
  | status f hf o l hfetch =>
    refine le_trans ?_ hfetch.live_le
    rw [outstanding_eq]
    exact add_le_add (by rw [live_blank rfl]; exact Multiset.zero_le _) le_rfl
  | resumed f hf o l hfetch hnamed h =>
    refine le_trans (le_of_eq ?_) hfetch.live_le
    rw [outstanding_eq, live_open]

/-- An `M_GOT` takes the file away that it is for, if that has a name. -/
theorem GOT_outstanding (config : BinkdConfig) (env : Env) (buf : List Byte) (s : State) :
    (∃ f ∈ namedFile 3 buf, s.tx.out.Named f ∧
      live [s.tx.out] + (GOT config env buf s).1.tx.outstanding = s.tx.outstanding ∧
      (GOT config env buf s).1.tx.filesSent = s.tx.filesSent) ∨
    (∃ f ∈ namedFile 3 buf, ∃ i, ¬ s.tx.out.Named f ∧ sentIndex s f = some i ∧
      live [s.tx.sentFls.getD i .zero] + (GOT config env buf s).1.tx.outstanding = s.tx.outstanding ∧
      (GOT config env buf s).1.tx.filesSent = s.tx.filesSent + 1) ∨
    (∀ f ∈ namedFile 3 buf, ¬ s.tx.out.Named f ∧ sentIndex s f = none) ∧
      (GOT config env buf s).1.tx = s.tx := by
  have hout := GOT_outcome config env buf s
  generalize GOT config env buf s = r at hout
  cases hout with
  | garbled h => exact .inr (.inr ⟨fun f hf => by simp [h] at hf, rfl⟩)
  | out f hf heq =>
    refine .inl ⟨f, hf, heq, ?_, rfl⟩
    rw [outstanding_eq, outstanding_eq, live_blank (t := .zero) rfl, zero_add]
  | sent f hf hne i hi =>
    refine .inr (.inl ⟨f, hf, i, hne, hi, ?_, rfl⟩)
    obtain ⟨hlt, hget, -⟩ := sentIndex_spec hi
    rw [outstanding_eq, outstanding_eq, hget, ← live_removeSent hlt]
    exact add_left_comm _ _ _
  | foreign f hf hne hno =>
    refine .inr (.inr ⟨fun g hg => ?_, rfl⟩)
    obtain rfl := Option.some.inj (hf.symm.trans hg)
    exact ⟨hne, hno⟩

/-! ### The small steps -/

theorem announce_blank (h : (announce config env s).2 = false) :
    (announce config env s).1.tx.out.netname = [] := by
  cases hd : dontSend config s.tx.out with
  | true =>
    unfold announce
    rw [if_pos hd]
    rfl
  | false =>
    obtain ⟨_, _, _, heq⟩ := announce_eq config env hd
    rw [heq] at h
    contradiction

theorem startFlo_blank {file : Option Ftnq} (hout : s.tx.out.netname = [])
    (h : (startFlo config env file s).2 = false) :
    (startFlo config env file s).1.tx.out.netname = [] := by
  have hspec := (floLoop_spec config env ((file.map (·.path)).getD [])
    ((s.tx.flo.f.map fun h => h.bytes.length + 1).getD 0)
    { s with tx := { s.tx with out := { s.tx.out with flo := s.tx.flo.path } } }).1
  unfold startFlo at h ⊢
  dsimp only at h ⊢
  split at h
  · next s1 hs1 =>
    rw [hs1] at hspec
    obtain ⟨_, _, _, _, _, heq⟩ := hspec
    dsimp only at heq ⊢
    rw [heq]
    exact hout
  · exact announce_blank h

/-- Nothing is announced in place of the current file. -/
theorem startFileTransfer_blank {file : Option Ftnq} (h : (startFileTransfer config env file s).2 = false) :
    (startFileTransfer config env file s).1.tx.out.netname = [] := by
  unfold startFileTransfer at h ⊢
  dsimp only at h ⊢
  split at h
  · next hflo =>
    rw [if_pos hflo]
    exact startFlo_blank rfl h
  · next hflo =>
    rw [if_neg hflo]
    cases file with
    | none => rfl
    | some file =>
      dsimp only at h ⊢
      split at h
      · rfl
      · next r s1 heq =>
        obtain ⟨-, ⟨flo, rfl⟩, -, -⟩ := openQueued_spec env heq
        dsimp only at h ⊢
        split at h
        · next hopen =>
          rw [if_pos hopen]
          exact startFlo_blank rfl h
        · next hopen =>
          rw [if_neg hopen]
          exact announce_blank h

theorem startFileTransfer_outstanding (config : BinkdConfig) (env : Env) (file : Option Ftnq) (s : State) :
    (startFileTransfer config env file s).1.tx.filesSent = s.tx.filesSent ∧
    ((startFileTransfer config env file s).1.tx.outstanding ≤ s.tx.outstanding ∧
        s.tx.nextId ≤ (startFileTransfer config env file s).1.tx.nextId ∨
      ∃ t : TFile, t.id = s.tx.nextId ∧ (startFileTransfer config env file s).1.tx.nextId = s.tx.nextId + 1 ∧
        (startFileTransfer config env file s).1.tx.outstanding ≤ t ::ₘ s.tx.outstanding ∧
        ∃ m, .file m ∈ (startFileTransfer config env file s).1.link.log ∧ m.file = t) := by
  have hblank := @startFileTransfer_blank config env s file
  rcases startFileTransfer_outcome config env file s with ⟨hnot, hr⟩ | ⟨s1, hprep, hd, hr⟩
  · have hname := hblank hr
    obtain ⟨_, _, o, _, _, _, _, _, i, heq, -, -, hi⟩ := hnot
    rw [heq] at hname ⊢
    refine ⟨rfl, .inl ⟨?_, hi⟩⟩
    rw [outstanding_eq, outstanding_eq, live_blank hname, zero_add]
    exact Multiset.le_add_left _ _
  · obtain ⟨z, od, extra, heq⟩ := announce_eq config env hd
    rw [hr, heq]
    obtain ⟨disk, flo, k, n, m, a, hs1⟩ := hprep.eq
    have hsent : s1.tx.sentFls = s.tx.sentFls := by rw [hs1]
    have hlink : s1.link = s.link := by rw [hs1]
    refine ⟨by rw [hs1], .inr ⟨s1.tx.out.closed, hprep.id, by rw [hs1], ?_, ?_⟩⟩
    · rw [outstanding_eq, outstanding_eq]
      dsimp only
      rw [hsent]
      by_cases hname : s1.tx.out.netname = []
      · rw [live_blank hname, zero_add]
        exact (Multiset.le_add_left _ _).trans (Multiset.le_cons_self _ _)
      · rw [live_named hname, Multiset.singleton_add]
        exact Multiset.cons_le_cons _ (Multiset.le_add_left _ _)
    · exact ⟨_, List.mem_cons_self, rfl⟩

/-- **What a small step does to the outstanding files**: it keeps them, or loses some, or
announces a new one. -/
theorem Act.outstanding (hact : Act config env s s') :
    s'.tx.filesSent = s.tx.filesSent ∧
    (s'.tx.outstanding ≤ s.tx.outstanding ∧ s.tx.nextId ≤ s'.tx.nextId ∨
      ∃ t : TFile, t.id = s.tx.nextId ∧ s'.tx.nextId = s.tx.nextId + 1 ∧
        s'.tx.outstanding ≤ t ::ₘ s.tx.outstanding ∧ ∃ m, .file m ∈ s'.link.log ∧ m.file = t) := by
  cases hact with
  | @queued e q _ _ => exact startFileTransfer_outstanding config env (some e) { s with tx := { s.tx with q := q } }
  | floLine => exact startFileTransfer_outstanding config env none s
  | noFile => exact ⟨rfl, .inl ⟨le_rfl, le_rfl⟩⟩
  | eob => exact ⟨rfl, .inl ⟨le_rfl, le_rfl⟩⟩
  | batch =>
    obtain ⟨_, _, _, _, htx⟩ := (endBatch_frame config env s).tx
    rw [htx]
    exact ⟨rfl, .inl ⟨le_rfl, le_rfl⟩⟩
  | data =>
    obtain ⟨_, htx, -⟩ := (recvData_frame config env _ s).tx
    rw [htx]
    exact ⟨rfl, .inl ⟨le_rfl, le_rfl⟩⟩
  | pack =>
    obtain ⟨_, _, heq⟩ := sendMsgs_spec env s
    rw [heq]
    exact ⟨rfl, .inl ⟨le_rfl, le_rfl⟩⟩
  | block =>
    have hout := sendData_outcome config env s
    generalize sendData config env s = r at hout
    cases hout with
    | empty => exact ⟨rfl, .inl ⟨le_rfl, le_rfl⟩⟩
    | failed => exact ⟨rfl, .inl ⟨le_rfl, le_rfl⟩⟩
    | more h hf payload h' =>
      exact ⟨rfl, .inl ⟨outstanding_le (.inr rfl) le_rfl, le_rfl⟩⟩
    | last h hf payload h' =>
      refine ⟨rfl, .inl ⟨?_, le_rfl⟩⟩
      rw [outstanding_eq, outstanding_eq, live_blank (t := .zero) rfl, zero_add, live_append, live_open]
      exact (add_comm _ _).le
  | _ => exact ⟨rfl, .inl ⟨le_rfl, le_rfl⟩⟩

/-! ### Numbers -/

/-- Each outstanding file has a number of its own, which is given away. -/
structure Numbered (tx : Tx) : Prop where
  ids : (tx.outstanding.map (·.id)).Nodup
  fresh : ∀ t ∈ tx.outstanding, t.id < tx.nextId

theorem Numbered.less {tx tx' : Tx} (h : Numbered tx) (hle : tx'.outstanding ≤ tx.outstanding)
    (hid : tx.nextId ≤ tx'.nextId) : Numbered tx' :=
  ⟨Multiset.nodup_of_le (Multiset.map_le_map hle) h.ids,
    fun t ht => (h.fresh t (Multiset.mem_of_le hle ht)).trans_le hid⟩

theorem Numbered.act (hact : Act config env s s') (h : Numbered s.tx) : Numbered s'.tx := by
  obtain ⟨-, ⟨hle, hid⟩ | ⟨t, ht, hid, hle, -⟩⟩ := hact.outstanding
  · exact h.less hle hid
  · refine ⟨Multiset.nodup_of_le (Multiset.map_le_map hle) ?_, fun x hx => ?_⟩
    · rw [Multiset.map_cons, Multiset.nodup_cons]
      refine ⟨fun hin => ?_, h.ids⟩
      obtain ⟨x, hx, heq⟩ := Multiset.mem_map.mp hin
      have := h.fresh x hx
      omega
    · rcases Multiset.mem_cons.mp (Multiset.mem_of_le hle hx) with rfl | hx
      · omega
      · have := h.fresh x hx
        omega

/-- A sent file is not the current one. -/
theorem Numbered.out_ne {tx : Tx} (h : Numbered tx) (hout : tx.out.netname ≠ []) {t : TFile} (ht : t ∈ tx.sentFls)
    (hname : t.netname ≠ []) : t.id ≠ tx.out.id := by
  have hids := h.ids
  rw [outstanding_eq, live_named hout, Multiset.singleton_add, Multiset.map_cons,
    Multiset.nodup_cons] at hids
  exact fun heq => hids.1 (Multiset.mem_map.mpr ⟨t.closed, mem_live.mpr ⟨t, ht, hname, rfl⟩, heq⟩)

theorem start_numbered {tx : Tx} (h : tx = {}) : Numbered tx := by
  have hnone : tx.outstanding = 0 := by
    rw [h]
    rfl
  refine ⟨?_, ?_⟩
  · rw [hnone]
    exact Multiset.nodup_zero
  · rw [hnone]
    exact fun _ h => absurd h (Multiset.notMem_zero _)

/-! ### The other messages -/

/-- Any other message has no part in the sending side, but for the queue. -/
theorem handle_tx (config : BinkdConfig) (env : Env) {t : Byte} (buf : List Byte) (s : State) (ht : t ∉ answers) :
    ∃ q, (handle config env t buf s).1.tx = { s.tx with q := q } := by
  have hh := handled config env t buf s
  generalize (handle config env t buf s).1 = s' at hh
  cases hh with
  | nul => exact ⟨_, rfl⟩
  | adr => exact (ADR_frame config env buf s).tx
  | pwd =>
    by_cases hto : s.toNode = none
    · have hout := PWD_outcome config env buf s hto
      generalize PWD config env buf s = r at hout
      cases hout with
      | double _ s' hs => exact hs.tx
      | refused m s' _ hs => exact hs.tx
      | nonsecure m digest early ext want s' _ _ hs =>
        obtain ⟨q, hq, -⟩ := hs.tx
        exact ⟨q, hq⟩
      | secure m want s' _ _ hs =>
        obtain ⟨q, hq, -⟩ := hs.tx
        exact ⟨q, hq⟩
    · unfold PWD
      rw [if_pos (Option.isSome_iff_ne_none.mpr hto)]
      exact ⟨s.tx.q, rfl⟩
  | file =>
    obtain ⟨q, hq, -⟩ := (startFileRecv_frame config env buf s).tx
    exact ⟨q, hq⟩
  | ok =>
    unfold OK
    split
    · exact ⟨s.tx.q, rfl⟩
    · next n _ =>
      obtain ⟨_, q, _, heq, -⟩ := completeLogin_spec config env { s with login := okLogin n env.tail buf s.login }
      rw [heq]
      exact ⟨q, rfl⟩
  | eob =>
    obtain ⟨q, hq, -⟩ := (EOB_frame config env s).tx
    exact ⟨q, hq⟩
  | got ht' => exact absurd (by simp [answers, ht']) ht
  | get ht' => exact absurd (by simp [answers, ht']) ht
  | skip ht' => exact absurd (by simp [answers, ht']) ht
  | ignored => exact ⟨s.tx.q, rfl⟩

/-- No answer adds to the outstanding files. -/
theorem answer_outstanding {t : Byte} {buf : List Byte} (ht : t ∈ answers) :
    (handle config env t buf s).1.tx.outstanding ≤ s.tx.outstanding := by
  rcases List.mem_cons.mp ht with rfl | ht
  · rcases GOT_outstanding config env buf s with ⟨_, _, _, hle, -⟩ | ⟨_, _, _, _, _, hle, -⟩ | ⟨-, htx⟩
    · rw [← hle]
      exact Multiset.le_add_left _ _
    · rw [← hle]
      exact Multiset.le_add_left _ _
    · exact le_of_eq (congrArg Tx.outstanding htx)
  · rcases List.mem_cons.mp ht with rfl | ht
    · exact SKIP_outstanding config env buf s
    · obtain rfl := List.mem_singleton.mp ht
      exact GET_outstanding config env buf s

/-- The handlers of the answers give no new number. -/
theorem answer_nextId {t : Byte} {buf : List Byte} (ht : t ∈ answers) :
    (handle config env t buf s).1.tx.nextId = s.tx.nextId := by
  rcases List.mem_cons.mp ht with rfl | ht
  · have hout := GOT_outcome config env buf s
    change (GOT config env buf s).1.tx.nextId = _
    generalize GOT config env buf s = r at hout
    cases hout <;> rfl
  · rcases List.mem_cons.mp ht with rfl | ht
    · have hout := SKIP_outcome config env buf s
      change (SKIP config env buf s).1.tx.nextId = _
      generalize SKIP config env buf s = r at hout
      cases hout <;> rfl
    · obtain rfl := List.mem_singleton.mp ht
      have hout := GET_outcome config env buf s
      change (GET config env buf s).1.tx.nextId = _
      generalize GET config env buf s = r at hout
      cases hout <;> rfl

theorem handle_numbered {t : Byte} {buf : List Byte} (h : Numbered s.tx) :
    Numbered (handle config env t buf s).1.tx := by
  by_cases ht : t ∈ answers
  · exact h.less (answer_outstanding ht) (answer_nextId ht).ge
  · obtain ⟨q, htx⟩ := handle_tx config env buf s ht
    rw [htx]
    exact h.less le_rfl le_rfl

end Binkd
