import Binkd.Opening
import Binkd.Outstanding

/-!
# Acknowledging a file

`M_GOT` removes a file from the spool and counts it; `M_SKIP` and `M_GET` do not.  All
three look for their file among the current file and the sent ones with `tfile_cmp`,
which also fits an entry whose name has been blanked, by a name that is empty once it is
dequoted, and a time that differs by a multiple of `2 ^ 32`.  Where no answer fits such
a record (`ExactAnswers`) every file is acknowledged once at most, after its `M_FILE`
(`got_once`).
-/

namespace Binkd

open Lib

variable {config : BinkdConfig} {env : Env} {s s' : State}

/-! ### What an answer names -/

/-- The file that an answer of the remote names. -/
def answerFile (t : Byte) (buf : List Byte) : Option (Str × Int × Int) :=
  if t = M_GOT ∨ t = M_SKIP then namedFile 3 buf else if t = M_GET then namedFile 4 buf else none

/-- The record has the name, the size and the time. -/
def TFile.Is (t : TFile) (f : Str × Int × Int) : Prop :=
  strdequote t.netname = strdequote f.1 ∧ t.size = f.2.1 ∧ t.time = f.2.2

/-- The records that the answer fits have a name, and the very time. -/
def ExactAnswer (s : State) (t : Byte) (buf : List Byte) : Prop :=
  ∀ f ∈ answerFile t buf, ∀ x ∈ s.tx.out :: s.tx.sentFls, x.Named f → x.netname ≠ [] ∧ x.time = f.2.2

instance (s : State) (t : Byte) (buf : List Byte) : Decidable (ExactAnswer s t buf) :=
  inferInstanceAs (Decidable (∀ f ∈ answerFile t buf, ∀ x ∈ s.tx.out :: s.tx.sentFls, _))

/-- The rounds of a run in which every answer is exact. -/
def ExactAnswers (config : BinkdConfig) : Input → State → Prop := Meets config ExactAnswer

instance (config : BinkdConfig) (i : Input) (s : State) : Decidable (ExactAnswers config i s) :=
  inferInstanceAs (Decidable (Meets config ExactAnswer i s))

theorem TFile.Named.is {x : TFile} {f : Str × Int × Int} (h : x.Named f) (htime : x.time = f.2.2) :
    x.Is f := by
  simp only [TFile.Named, tfileEq, decide_eq_true_eq] at h
  exact ⟨h.1, h.2.1, htime⟩

theorem ExactAnswer.out {t : Byte} {buf : List Byte} {f : Str × Int × Int} (h : ExactAnswer s t buf)
    (hf : answerFile t buf = some f) (hnamed : s.tx.out.Named f) : s.tx.out.netname ≠ [] ∧
    s.tx.out.Is f := by
  obtain ⟨hname, htime⟩ := h f hf s.tx.out List.mem_cons_self hnamed
  exact ⟨hname, hnamed.is htime⟩

theorem ExactAnswer.sent {t : Byte} {buf : List Byte} {f : Str × Int × Int} {i : ℕ} (h : ExactAnswer s t buf)
    (hf : answerFile t buf = some f) (hi : sentIndex s f = some i) :
    (s.tx.sentFls.getD i .zero).netname ≠ [] ∧ (s.tx.sentFls.getD i .zero).Is f := by
  obtain ⟨hlt, hget, hnamed⟩ := sentIndex_spec hi
  rw [hget]
  obtain ⟨hname, htime⟩ := h f hf _ (List.mem_cons_of_mem _ (List.getElem_mem hlt)) hnamed
  exact ⟨hname, hnamed.is htime⟩

/-- Is nothing that is outstanding named? -/
def Foreign (s : State) (t : Byte) (buf : List Byte) : Prop :=
  ∀ f ∈ answerFile t buf, ∀ x ∈ s.tx.outstanding, ¬ x.Is f

/-- Then the handlers find nothing. -/
theorem ExactAnswer.foreign {t : Byte} {buf : List Byte} {f : Str × Int × Int} (h : ExactAnswer s t buf)
    (hforeign : Foreign s t buf) (hf : answerFile t buf = some f) : ¬ s.tx.out.Named f ∧
    sentIndex s f = none := by
  have hnone : ∀ x ∈ s.tx.out :: s.tx.sentFls, ¬ x.Named f := by
    intro x hx hnamed
    obtain ⟨hname, htime⟩ := h f hf x hx hnamed
    exact hforeign f hf x.closed (mem_live.mpr ⟨x, hx, hname, rfl⟩) (hnamed.is htime)
  refine ⟨hnone _ List.mem_cons_self, List.findIdx?_eq_none_iff.mpr fun x hx => ?_⟩
  have := hnone x (List.mem_cons_of_mem _ hx)
  simpa [TFile.Named] using this

/-! ### The spool -/

/-- The same files with the same content, but for the status files. -/
def SameFiles (config : BinkdConfig) (disk disk' : Disk) : Prop :=
  ∀ p, (∀ fa, stcName config fa ≠ some p) → (disk'.lookup p).map (·.bytes) = (disk.lookup p).map (·.bytes)

/-- The queue, the spool and the counters are as they were. -/
structure KeepsSpool (config : BinkdConfig) (s s' : State) : Prop where
  q : s'.tx.q = s.tx.q
  flo : s'.tx.flo = s.tx.flo
  killlist : s'.tx.killlist = s.tx.killlist
  nosendlist : s'.tx.nosendlist = s.tx.nosendlist
  filesSent : s'.tx.filesSent = s.tx.filesSent
  bytesSent : s'.tx.bytesSent = s.tx.bytesSent
  files : SameFiles config s.disk s'.disk

theorem KeepsSpool.refl (s : State) : KeepsSpool config s s :=
    ⟨rfl, rfl, rfl, rfl, rfl, rfl, fun _ _ => rfl⟩

theorem KeepsSpool.trans {a b c : State} (h : KeepsSpool config a b) (h' : KeepsSpool config b c) :
    KeepsSpool config a c :=
  ⟨h'.q.trans h.q, h'.flo.trans h.flo, h'.killlist.trans h.killlist, h'.nosendlist.trans h.nosendlist,
    h'.filesSent.trans h.filesSent, h'.bytesSent.trans h.bytesSent,
      fun p hp => (h'.files p hp).trans (h.files p hp)⟩

/-- The other parts of the state may change. -/
theorem KeepsSpool.same {a b c : State} (h : KeepsSpool config a b) (hq : c.tx.q = b.tx.q) (hflo : c.tx.flo = b.tx.flo)
    (hkill : c.tx.killlist = b.tx.killlist) (hno : c.tx.nosendlist = b.tx.nosendlist)
    (hfiles : c.tx.filesSent = b.tx.filesSent) (hbytes : c.tx.bytesSent = b.tx.bytesSent) (hdisk : c.disk = b.disk) :
    KeepsSpool config a c :=
  h.trans ⟨hq, hflo, hkill, hno, hfiles, hbytes, fun _ _ => by rw [hdisk]⟩

theorem ndClear_spool (fa : FtnAddr) (s : State) : KeepsSpool config s (ndClear config env fa s) := by
  refine ⟨rfl, rfl, rfl, rfl, rfl, rfl, fun p hp => ?_⟩
  unfold ndClear ndSetStatus
  dsimp only
  split
  · rfl
  · next buf hbuf =>
    rw [if_pos rfl]
    have hlookup : ((s.disk.delete env buf).1).lookup p = s.disk.lookup p :=
      (Disk.delete_lookup env s.disk buf p).1.resolve_right fun h => hp fa (h.1 ▸ hbuf)
    split
    · next heq =>
      rw [heq] at hlookup
      rw [hlookup]
    · next heq =>
      rw [heq] at hlookup
      rw [hlookup]

theorem ndForget_spool (s : State) : KeepsSpool config s (ndForget config env s) :=
  (ndClear_spool s.tx.ndAddr s).same rfl rfl rfl rfl rfl rfl rfl

theorem touch_files (disk : Disk) (path : Str) (t : Int) :
    SameFiles config disk (disk.touch env path t) := by
  intro p _
  unfold Disk.touch
  split
  · next f hf =>
    split_ifs
    · rfl
    · by_cases hp : p = path
      · subst hp
        rw [AList.lookup_insert, hf]
        rfl
      · rw [AList.lookup_insert_ne hp]
  · rfl

/-- `SKIP` leaves the spool alone. -/
theorem SKIP_spool (config : BinkdConfig) (env : Env) (buf : List Byte) (s : State) :
    KeepsSpool config s (SKIP config env buf s).1 := by
  unfold SKIP
  split
  · next name size time rest _ =>
    dsimp only
    obtain ⟨r, a, l, htx, -⟩ := skipSent_eq name (toSigned64 (strtoumax size)) (safeAtol time)
      s.tx.sentFls.length 0 s.tx
    rw [htx]
    generalize tfileEq _ name (toSigned64 (strtoumax size)) (safeAtol time) = hit
    have hsame : ∀ (r : Bool) (o : TFile), KeepsSpool config s
        { s with tx := { s.tx with out := o, rSkippedFlag := r, ndAddr := a, sentFls := l } } := fun r o =>
      ⟨rfl, rfl, rfl, rfl, rfl, rfl, fun _ _ => rfl⟩
    cases hit with
    | true =>
      simp only [if_true, true_and]
      split_ifs
      · exact (hsame true s.tx.out).same rfl rfl rfl rfl rfl rfl rfl
      · exact ((hsame true .zero).trans (ndForget_spool _)).same rfl rfl rfl rfl rfl rfl rfl
      · exact (hsame true .zero).trans (ndForget_spool _)
    | false =>
      simp only [Bool.false_eq_true, if_false, false_and]
      split_ifs
      · exact ((hsame r s.tx.out).trans (ndForget_spool _)).same rfl rfl rfl rfl rfl rfl rfl
      · exact (hsame r s.tx.out).trans (ndForget_spool _)
  · exact (KeepsSpool.refl s).same rfl rfl rfl rfl rfl rfl rfl

theorem getFile_spool (name : Str) (off : Int) (extras : List Str) (h : Handle) (s : State) :
    KeepsSpool config s (getFile config env name off extras h s).1 := by
  have hz : ∀ nz, KeepsSpool config s (zResume config env nz { s with tx := { s.tx with
      out := { s.tx.out with f := some { h with pos := off.toNat } } } }).2 := by
    intro nz
    obtain ⟨_, _, _, heq⟩ := zResume_eq config env nz { s with tx := { s.tx with
      out := { s.tx.out with f := some { h with pos := off.toNat } } } }
    rw [heq]
    exact ⟨rfl, rfl, rfl, rfl, rfl, rfl, fun _ _ => rfl⟩
  unfold getFile
  dsimp only
  split_ifs
  · exact ⟨rfl, rfl, rfl, rfl, rfl, rfl, touch_files s.disk _ _⟩
  · exact ⟨rfl, rfl, rfl, rfl, rfl, rfl, fun _ _ => rfl⟩
  · exact (hz true).same rfl rfl rfl rfl rfl rfl rfl
  · exact (hz false).same rfl rfl rfl rfl rfl rfl rfl

/-- `GET` leaves the spool alone. -/
theorem GET_spool (config : BinkdConfig) (env : Env) (buf : List Byte) (s : State) :
    KeepsSpool config s (GET config env buf s).1 := by
  unfold GET
  split
  · next name size time off rest _ =>
    dsimp only
    have hfetch : KeepsSpool config s (getFromSent env name (toSigned64 (strtoumax size)) (safeAtol time) s) := by
      unfold getFromSent
      split
      · exact .refl s
      · exact ⟨rfl, rfl, rfl, rfl, rfl, rfl, fun _ _ => rfl⟩
    generalize getFromSent env name (toSigned64 (strtoumax size)) (safeAtol time) s = s1 at hfetch ⊢
    split
    · split
      · have hstatus : KeepsSpool config s (getStatus config env (strtoumax off) s1).1 := by
          unfold getStatus
          dsimp only
          split_ifs
          · exact hfetch.same rfl rfl rfl rfl rfl rfl rfl
          · exact (hfetch.trans (ndClear_spool _ _)).same rfl rfl rfl rfl rfl rfl rfl
        split
        · next heq =>
          rw [heq] at hstatus
          exact hstatus
        · next heq =>
          rw [heq] at hstatus
          exact (hstatus.trans (ndForget_spool _)).same rfl rfl rfl rfl rfl rfl rfl
      · exact ((hfetch.trans (getFile_spool _ _ _ _ s1)).trans (ndForget_spool _)).same rfl rfl rfl rfl rfl rfl rfl
    · exact (hfetch.trans (ndForget_spool s1)).same rfl rfl rfl rfl rfl rfl rfl
  · exact (KeepsSpool.refl s).same rfl rfl rfl rfl rfl rfl rfl

/-! ### An answer for no file -/

/-- The handler has left the current file and the sent files as they were. -/
def KeepsFiles (s s' : State) : Prop := s'.tx.out = s.tx.out ∧ s'.tx.sentFls = s.tx.sentFls

/-- The answer fits no record. -/
def Unmatched (s : State) (f : Str × Int × Int) : Prop := ¬ s.tx.out.Named f ∧ sentIndex s f = none

theorem GOT_foreign {buf : List Byte} (hnone : ∀ f ∈ namedFile 3 buf, Unmatched s f) :
    KeepsSpool config s (GOT config env buf s).1 ∧ KeepsFiles s (GOT config env buf s).1 := by
  unfold GOT
  rcases namedFile_three buf with ⟨name, size, time, rest, hparse, hnamed⟩ | ⟨hparse, -⟩
  · obtain ⟨hout, hsent⟩ := hnone _ hnamed
    have hout : ¬ tfileEq s.tx.out name (toSigned64 (strtoumax size)) (safeAtol time) = true := hout
    rw [hparse]
    dsimp only
    have hclear : KeepsSpool config s (if s.login.nrFlag.we = true ∧ (!s.login.ndFlag.we) = true then
        ndClear config env s.tx.ndAddr s else s) ∧
        (if s.login.nrFlag.we = true ∧ (!s.login.ndFlag.we) = true then
          ndClear config env s.tx.ndAddr s else s).tx = s.tx := by
      split_ifs
      · exact ⟨ndClear_spool _ s, rfl⟩
      · exact ⟨.refl s, rfl⟩
    generalize (if s.login.nrFlag.we = true ∧ (!s.login.ndFlag.we) = true then
        ndClear config env s.tx.ndAddr s else s) = s1 at hclear ⊢
    obtain ⟨hspool, htx⟩ := hclear
    rw [htx, if_neg hout]
    unfold sentIndex at hsent
    rw [hsent]
    exact ⟨hspool, congrArg Tx.out htx, congrArg Tx.sentFls htx⟩
  · rw [hparse]
    exact ⟨(KeepsSpool.refl s).same rfl rfl rfl rfl rfl rfl rfl, rfl, rfl⟩

theorem skipSent_none {name : Str} {size time : Int} (fuel n : ℕ) {tx : Tx}
    (h : ∀ x ∈ tx.sentFls, tfileEq x name size time = false) :
    skipSent name size time fuel n tx = tx := by
  induction fuel generalizing n with
  | zero => rfl
  | succ fuel ih =>
    rw [skipSent]
    split
    · rfl
    · next x hx =>
      rw [h x (List.mem_of_getElem? hx)]
      exact ih (n + 1)

theorem SKIP_foreign {buf : List Byte} (hnone : ∀ f ∈ namedFile 3 buf, Unmatched s f) :
    KeepsFiles s (SKIP config env buf s).1 := by
  unfold SKIP
  rcases namedFile_three buf with ⟨name, size, time, rest, hparse, hnamed⟩ | ⟨hparse, -⟩
  · obtain ⟨hout, hsent⟩ := hnone _ hnamed
    have hout : tfileEq s.tx.out name (toSigned64 (strtoumax size)) (safeAtol time) = false := by
      simpa [TFile.Named] using hout
    rw [hparse]
    dsimp only
    rw [skipSent_none _ _ fun x hx => by simpa using List.findIdx?_eq_none_iff.mp hsent x hx, hout]
    simp only [Bool.false_eq_true, if_false, false_and]
    split_ifs
    · exact ⟨rfl, rfl⟩
    · exact ⟨rfl, rfl⟩
  · rw [hparse]
    exact ⟨rfl, rfl⟩

theorem GET_foreign {buf : List Byte} (hnone : ∀ f ∈ namedFile 4 buf, Unmatched s f) :
    KeepsFiles s (GET config env buf s).1 := by
  unfold GET
  rcases namedFile_four buf with ⟨name, size, time, off, rest, hparse, hnamed⟩ | ⟨hparse, -⟩
  · obtain ⟨hout, hsent⟩ := hnone _ hnamed
    have hout : tfileEq s.tx.out name (toSigned64 (strtoumax size)) (safeAtol time) = false := by
      simpa [TFile.Named] using hout
    have hsame : getFromSent env name (toSigned64 (strtoumax size)) (safeAtol time) s = s := by
      unfold sentIndex at hsent
      unfold getFromSent
      rw [hsent]
    rw [hparse]
    dsimp only
    rw [hsame, hout, Bool.and_false, if_neg (by decide)]
    exact ⟨rfl, rfl⟩
  · rw [hparse]
    exact ⟨rfl, rfl⟩

/-- An answer that finds no file changes neither the spool nor the files that are outstanding. -/
theorem answer_foreign {t : Byte} {buf : List Byte} (ht : t ∈ answers)
    (hnone : ∀ f ∈ answerFile t buf, Unmatched s f) :
    KeepsSpool config s (handle config env t buf s).1 ∧ KeepsFiles s (handle config env t buf s).1 := by
  rcases List.mem_cons.mp ht with rfl | ht
  · exact GOT_foreign hnone
  · rcases List.mem_cons.mp ht with rfl | ht
    · exact ⟨SKIP_spool config env buf s, SKIP_foreign hnone⟩
    · obtain rfl := List.mem_singleton.mp ht
      exact ⟨GET_spool config env buf s, GET_foreign hnone⟩

/-! ### Acknowledgements -/

/-- An acknowledgement: the file and what the `M_GOT` named, whether the file is counted, and
the frames that were sent before. -/
structure Ack where
  file : TFile
  named : Str × Int × Int
  counted : Bool
  log : List Item

/-- The file that `GOT` removes from the spool, and whether it counts it. -/
def gotFile (s : State) (f : Str × Int × Int) : Option (TFile × Bool) :=
  if s.tx.out.Named f then some (s.tx.out, false)
  else (sentIndex s f).map fun i => (s.tx.sentFls.getD i .zero, true)

/-- The acknowledgement that a message makes. -/
def acked (s : State) (t : Byte) (buf : List Byte) : List Ack :=
  if t = M_GOT then
    ((namedFile 3 buf).bind fun f => (gotFile s f).map fun r => ⟨r.1.closed, f, r.2, s.link.log⟩).toList
  else []

/-- The acknowledgement of a round. -/
def roundAcks (config : BinkdConfig) (i : Input) (s : State) : List Ack :=
  match arrives config i s with
  | some (a, t, buf) => acked a t buf
  | none => []

/-- The file was announced. -/
def Announced (log : List Item) (t : TFile) : Prop := ∃ m, Item.file m ∈ log ∧ m.file = t

theorem Announced.mono {log log' : List Item} {t : TFile} (h : Announced log t) (hlog : log <:+ log') :
    Announced log' t := by
  obtain ⟨m, hm, rfl⟩ := h
  exact ⟨m, hlog.mem hm, rfl⟩

/-- What holds of the acknowledgements, whatever becomes of the session. -/
structure AckTrace (filesSent : ℕ) (acks : List Ack) : Prop where
  once : (acks.map (·.file.id)).Nodup
  sent : ∀ k ∈ acks, k.file.Is k.named ∧ Announced k.log k.file
  count : filesSent = (acks.filter (·.counted)).length

/-- The files outstanding have been announced, each with a number of its own, and none of
them has been acknowledged. -/
structure AckInv (s : State) (acks : List Ack) : Prop where
  trace : AckTrace s.tx.filesSent acks
  num : Numbered s.tx
  announced : ∀ t ∈ s.tx.outstanding, Announced s.link.log t
  old : ∀ k ∈ acks, k.file.id < s.tx.nextId ∧ ∀ t ∈ s.tx.outstanding, t.id ≠ k.file.id

theorem AckInv.less {acks : List Ack} (h : AckInv s acks) (hsent : s'.tx.filesSent = s.tx.filesSent)
    (hle : s'.tx.outstanding ≤ s.tx.outstanding) (hid : s.tx.nextId ≤ s'.tx.nextId)
    (hlog : s.link.log <:+ s'.link.log) : AckInv s' acks := by
  refine ⟨hsent ▸ h.trace, h.num.less hle hid, fun t ht => ?_, fun k hk => ⟨?_, fun t ht => ?_⟩⟩
  · exact (h.announced t (Multiset.mem_of_le hle ht)).mono hlog
  · exact (h.old k hk).1.trans_le hid
  · exact (h.old k hk).2 t (Multiset.mem_of_le hle ht)

theorem AckInv.act {acks : List Ack} (hact : Act config env s s') (h : AckInv s acks) :
    AckInv s' acks := by
  have hlog := hact.log_suffix
  obtain ⟨hsent, ⟨hle, hid⟩ | ⟨t, ht, hid, hle, hann⟩⟩ := hact.outstanding
  · exact h.less hsent hle hid hlog
  · have hmem : ∀ x ∈ s'.tx.outstanding, x = t ∨ x ∈ s.tx.outstanding := fun x hx =>
      Multiset.mem_cons.mp (Multiset.mem_of_le hle hx)
    refine ⟨hsent ▸ h.trace, h.num.act hact, fun x hx => ?_, fun k hk => ⟨?_, fun x hx => ?_⟩⟩
    · rcases hmem x hx with rfl | hx
      · exact hann
      · exact (h.announced x hx).mono hlog
    · have := (h.old k hk).1
      omega
    · rcases hmem x hx with rfl | hx
      · have := (h.old k hk).1
        omega
      · exact (h.old k hk).2 x hx

/-- A file is acknowledged that was outstanding. -/
theorem AckInv.ack {acks : List Ack} {t : TFile} {f : Str × Int × Int} {counted : Bool} (h : AckInv s acks)
    (hname : t.netname ≠ []) (his : t.Is f) (hle : live [t] + s'.tx.outstanding = s.tx.outstanding)
    (hsent : s'.tx.filesSent = s.tx.filesSent + counted.toNat) (hid : s'.tx.nextId = s.tx.nextId)
    (hlog : s.link.log <:+ s'.link.log) : AckInv s' (acks ++ [⟨t.closed, f, counted, s.link.log⟩]) := by
  rw [live_named hname, Multiset.singleton_add] at hle
  have hmem : t.closed ∈ s.tx.outstanding := by
    rw [← hle]
    exact Multiset.mem_cons_self _ _
  have hless : s'.tx.outstanding ≤ s.tx.outstanding := by
    rw [← hle]
    exact Multiset.le_cons_self _ _
  have hids := h.num.ids
  rw [← hle, Multiset.map_cons, Multiset.nodup_cons] at hids
  refine ⟨⟨?_, fun k hk => ?_, ?_⟩, h.num.less hless hid.ge, fun x hx => ?_,
    fun k hk => ⟨?_, fun x hx => ?_⟩⟩
  · rw [List.map_append, List.nodup_append]
    refine ⟨h.trace.once, List.nodup_singleton _, ?_⟩
    rintro a ha b hb rfl
    obtain ⟨k, hk, rfl⟩ := List.mem_map.mp ha
    have hb : k.file.id = t.closed.id := by simpa using hb
    exact (h.old k hk).2 t.closed hmem hb.symm
  · rcases List.mem_append.mp hk with hk | hk
    · exact h.trace.sent k hk
    · obtain rfl := List.mem_singleton.mp hk
      exact ⟨his, h.announced t.closed hmem⟩
  · rw [hsent, h.trace.count, List.filter_append, List.length_append]
    cases counted <;> rfl
  · exact (h.announced x (Multiset.mem_of_le hless hx)).mono hlog
  · rw [hid]
    rcases List.mem_append.mp hk with hk | hk
    · exact (h.old k hk).1
    · obtain rfl := List.mem_singleton.mp hk
      exact h.num.fresh t.closed hmem
  · rcases List.mem_append.mp hk with hk | hk
    · exact (h.old k hk).2 x (Multiset.mem_of_le hless hx)
    · obtain rfl := List.mem_singleton.mp hk
      exact fun heq => hids.1 (Multiset.mem_map.mpr ⟨x, hx, heq⟩)

theorem AckInv.got {acks : List Ack} {buf : List Byte} (h : AckInv s acks) (hexact : ExactAnswer s M_GOT buf) :
    AckInv (handle config env M_GOT buf s).1 (acks ++ acked s M_GOT buf) := by
  have hlog := handle_log_suffix config env M_GOT buf (s := s)
  have hid := @answer_nextId config env s M_GOT buf List.mem_cons_self
  have hout := GOT_outstanding config env buf s
  change _ ∨ _ ∨ _ ∧ (handle config env M_GOT buf s).1.tx = s.tx at hout
  rw [acked, if_pos rfl]
  rcases hout with ⟨f, hf, hnamed, hle, hsent⟩ | ⟨f, hf, i, hne, hi, hle, hsent⟩ | ⟨hnone, htx⟩
  · obtain ⟨hname, his⟩ := hexact.out hf hnamed
    have hone : ((namedFile 3 buf).bind fun f => (gotFile s f).map fun r =>
        (⟨r.1.closed, f, r.2, s.link.log⟩ : Ack)).toList = [⟨s.tx.out.closed, f, false, s.link.log⟩] := by
      rw [Option.mem_def.mp hf, Option.bind_some, gotFile, if_pos hnamed]
      rfl
    rw [hone]
    exact h.ack hname his hle hsent hid hlog
  · obtain ⟨hname, his⟩ := hexact.sent hf hi
    have hone : ((namedFile 3 buf).bind fun f => (gotFile s f).map fun r =>
        (⟨r.1.closed, f, r.2, s.link.log⟩ : Ack)).toList =
        [⟨(s.tx.sentFls.getD i .zero).closed, f, true, s.link.log⟩] := by
      rw [Option.mem_def.mp hf, Option.bind_some, gotFile, if_neg hne, hi]
      rfl
    rw [hone]
    exact h.ack hname his hle hsent hid hlog
  · have hno : ((namedFile 3 buf).bind fun f => (gotFile s f).map fun r =>
        (⟨r.1.closed, f, r.2, s.link.log⟩ : Ack)) = none := by
      cases hf : namedFile 3 buf with
      | none => rfl
      | some f =>
        obtain ⟨hne, hi⟩ := hnone f hf
        rw [Option.bind_some, gotFile, if_neg hne, hi]
        rfl
    rw [hno, Option.toList_none, List.append_nil]
    exact h.less (by rw [htx]) (by rw [htx]) (by rw [htx]) hlog

theorem AckInv.message {acks : List Ack} {t : Byte} {buf : List Byte} (h : AckInv s acks)
    (hexact : ExactAnswer s t buf) :
    ((handle config env t buf s).2 = true → AckInv (handle config env t buf s).1 (acks ++ acked s t buf)) ∧
    AckTrace (handle config env t buf s).1.tx.filesSent (acks ++ acked s t buf) := by
  have hlog := handle_log_suffix config env t buf (s := s)
  by_cases hgot : t = M_GOT
  · subst hgot
    have hack : AckInv (handle config env M_GOT buf s).1 (acks ++ acked s M_GOT buf) := h.got hexact
    exact ⟨fun _ => hack, hack.trace⟩
  · rw [acked, if_neg hgot, List.append_nil]
    by_cases ht : t ∈ answers
    · have hid := @answer_nextId config env s t buf ht
      rcases List.mem_cons.mp ht with rfl | ht
      · exact absurd rfl hgot
      · rcases List.mem_cons.mp ht with rfl | ht
        · have hsent := (SKIP_spool config env buf s).filesSent
          have hle := SKIP_outstanding config env buf s
          exact ⟨fun _ => h.less hsent hle hid.ge hlog, hsent ▸ h.trace⟩
        · obtain rfl := List.mem_singleton.mp ht
          have hsent := (GET_spool config env buf s).filesSent
          exact ⟨fun _ => h.less hsent (GET_outstanding config env buf s) hid.ge hlog, hsent ▸ h.trace⟩
    · obtain ⟨q, htx⟩ := handle_tx config env buf s ht
      have hack : AckInv (handle config env t buf s).1 acks :=
        h.less (by rw [htx]) (by rw [htx]; exact le_rfl) (by rw [htx]) hlog
      exact ⟨fun _ => hack, hack.trace⟩

/-- A round adds its acknowledgement to the trace. -/
theorem AckInv.iterate {acks : List Ack} {i : Input} (h : AckInv s acks) (hi : ExactAnswers config i s) :
    ((iterate config i s).2 = true → AckInv (iterate config i s).1 (acks ++ roundAcks config i s)) ∧
    AckTrace (iterate config i s).1.tx.filesSent (acks ++ roundAcks config i s) := by
  have acts : ∀ {a b : State} {acks : List Ack}, Acts config i.env a b → AckInv a acks →
      AckInv b acks := by
    intro a b acks hacts
    exact @Acts.keeps config i.env (fun s => AckInv s acks) a b hacts fun _ _ hact ha => AckInv.act hact ha
  unfold roundAcks
  cases iterate_acts config i s with
  | quiet hnone hacts =>
    rw [hnone, List.append_nil]
    exact ⟨fun _ => acts hacts h, (acts hacts h).trace⟩
  | message a t buf harr before behind stop =>
    rw [harr]
    dsimp only
    obtain ⟨hgo, htrace⟩ := @AckInv.message config i.env a _ t buf (acts before h) (hi (a, t, buf) harr)
    cases hflag : (handle config i.env t buf a).2 with
    | true =>
      have hend := acts behind (hgo hflag)
      exact ⟨fun _ => hend, hend.trace⟩
    | false =>
      rw [stop hflag]
      exact ⟨fun hlive => absurd hlive (by simp), htrace⟩

/-- **Acknowledged once**: in a run in which every answer of the remote is exact, each file is
acknowledged once at most, by an `M_GOT` that names it and after its `M_FILE`, and the files
counted as sent are among those.  `M_SKIP` and `M_GET` leave the spool alone, and so does an
`M_GOT` for no file that is outstanding. -/
theorem got_once (config : BinkdConfig) (env : Env) (disk : Disk) (peerName ipaddr : Str)
    (to_ : Option FtnNode) (fa : Option FtnAddr) (s : State) (live : Bool) (acks : List Ack)
    (run : Traced (iterate config) (roundAcks config) (ExactAnswers config)
      (start config env disk peerName ipaddr to_ fa) s live acks) :
    ((acks.map (·.file.id)).Nodup ∧ (∀ k ∈ acks, k.file.Is k.named ∧ Announced k.log k.file) ∧
      s.tx.filesSent = (acks.filter (·.counted)).length) ∧
    ∀ i a t buf, ExactAnswers config i s → arrives config i s = some (a, t, buf) → t ∈ answers →
      (t ≠ M_GOT → KeepsSpool config a (handle config i.env t buf a).1) ∧
      (Foreign a t buf → KeepsSpool config a (handle config i.env t buf a).1 ∧
        KeepsFiles a (handle config i.env t buf a).1) := by
  have hinv : (live = true → AckInv s acks) ∧ AckTrace s.tx.filesSent acks := by
    refine run.invariant (fun s live acks => (live = true → AckInv s acks) ∧
      AckTrace s.tx.filesSent acks) ?_
      fun i s acks h hi => (h.1 rfl).iterate hi
    have htx := (start_opening config env disk peerName ipaddr to_ fa).tx
    have htrace : AckTrace (start config env disk peerName ipaddr to_ fa).tx.filesSent [] := by
      rw [htx]
      exact ⟨List.nodup_nil, fun _ h => absurd h List.not_mem_nil, rfl⟩
    refine ⟨fun _ => ⟨htrace, start_numbered htx, ?_, fun _ h => absurd h List.not_mem_nil⟩, htrace⟩
    rw [htx]
    exact fun _ h => absurd h (Multiset.notMem_zero _)
  refine ⟨⟨hinv.2.once, hinv.2.sent, hinv.2.count⟩,
    fun i a t buf hi harr ht => ⟨fun hne => ?_, fun hforeign => ?_⟩⟩
  · rcases List.mem_cons.mp ht with rfl | ht
    · exact absurd rfl hne
    · rcases List.mem_cons.mp ht with rfl | ht
      · exact SKIP_spool config i.env buf a
      · obtain rfl := List.mem_singleton.mp ht
        exact GET_spool config i.env buf a
  · exact answer_foreign ht fun f hf => (hi (a, t, buf) harr).foreign hforeign hf

/-- An outbound with a flow file that names two files of one byte. -/
def spoolDisk : Disk :=
  ((((∅ : Disk).insert (str "/o/out") { isDir := true }).insert (str "/o/out/139c0001.flo")
    { bytes := str "/f/a\n/f/b\n" }).insert (str "/f/a") { bytes := [65] }).insert (str "/f/b") { bytes := [66] }

/-- The start of a session that answers, with this outbound. -/
def spoolStart : State := start (fidoConfig []) {} spoolDisk [] [] none none

/-- The remote logs in, and both files are sent. -/
def bothSent : List Input :=
  Input.message {} M_ADR (str "2:5020/1") ++ Input.message {} M_PWD (str "-") ++
    List.replicate 12 ⟨{}, .ready none (some (.sent 10000))⟩

/-- An `M_GOT` for the first file, and one whose name is empty once it is dequoted. -/
def gotTwice : List Input :=
  bothSent ++ Input.message {} M_GOT (str "a 1 0") ++ Input.message {} M_GOT (str "\\x00 1 0")

/-- The first file is counted twice, and the second is still outstanding. -/
theorem blank_acknowledged : ∃ (s : State) (acks : List Ack),
    Traced (iterate (fidoConfig [])) (roundAcks (fidoConfig []))
    (fun _ _ => True) spoolStart s true acks ∧
    acks.map (·.file.id) = [1, 1] ∧ s.tx.filesSent = 2 ∧ s.tx.sentFls.map (·.id) = [1, 2] := by
  have hrun : Allowed (iterate (fidoConfig [])) (fun _ _ => True) gotTwice spoolStart := by decide +kernel
  exact ⟨_, _, Traced.start.inputs hrun, by decide +kernel, by decide +kernel, by decide +kernel⟩

/-- An `M_GOT` for each of the files. -/
def gotBoth : List Input :=
  bothSent ++ Input.message {} M_GOT (str "b 1 0") ++ Input.message {} M_GOT (str "a 1 0")

/-- Both are acknowledged, each once. -/
theorem got_once_both : ∃ acks : List Ack, acks.map (·.file.id) = [2, 1] ∧
    (acks.map (·.file.id)).Nodup := by
  have hrun : Allowed (iterate (fidoConfig [])) (ExactAnswers (fidoConfig [])) gotBoth spoolStart := by
    decide +kernel
  have htraced := @Traced.start _ _ _ (iterate (fidoConfig [])) (roundAcks (fidoConfig []))
    (ExactAnswers (fidoConfig [])) spoolStart
  have honce := (got_once (fidoConfig []) {} spoolDisk [] [] none none _ true _ (htraced.inputs hrun)).1.1
  exact ⟨_, by decide +kernel, honce⟩

end Binkd
