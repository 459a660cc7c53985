import Binkd.Frame.Send

/-!
# What the answers of the remote do

`M_GOT`, `M_SKIP` and `M_GET` name a file, and the handlers look for it in the current
file and among the files that have been sent.  `GOT_outcome`, `SKIP_outcome` and
`GET_outcome` say once for each handler which parts of the sending side it changes in
which case; the invariants of the sending side are read off from them.
-/

namespace Binkd

open Lib

variable (config : BinkdConfig) (env : Env)

/-- The file that the arguments of an `M_GOT` or `M_SKIP` (`argc` 3) or of an `M_GET`
(`argc` 4) name. -/
def namedFile (argc : Nat) (buf : List Byte) : Option (Str × Int × Int) :=
  match parseArgs argc (cstr buf) with
  | some (name :: size :: time :: _, _) => some (name, toSigned64 (strtoumax size), safeAtol time)
  | _ => none

/-- The record is of the named file. -/
def TFile.Named (t : TFile) (f : Str × Int × Int) : Prop := tfileEq t f.1 f.2.1 f.2.2 = true

instance (t : TFile) (f : Str × Int × Int) : Decidable (t.Named f) :=
  inferInstanceAs (Decidable (_ = true))

/-- The first of the sent files that is named. -/
def sentIndex (s : State) (f : Str × Int × Int) : Option Nat :=
  s.tx.sentFls.findIdx? fun t => tfileEq t f.1 f.2.1 f.2.2

theorem parseArgs_length {n : Nat} {src : Str} {ws : List Str} {rest : Str}
    (h : parseArgs n src = some (ws, rest)) : ws.length = n := by
  induction n generalizing src ws rest with
  | zero =>
    simp only [parseArgs, Option.some.injEq, Prod.mk.injEq] at h
    rw [← h.1, List.length_nil]
  | succ n ih =>
    rw [parseArgs] at h
    split at h
    · contradiction
    · split at h
      · contradiction
      · next ws' rest' heq =>
        simp only [Option.some.injEq, Prod.mk.injEq] at h
        rw [← h.1, List.length_cons, ih heq]

theorem namedFile_three (buf : List Byte) : (∃ name size time rest,
      parseArgs 3 (cstr buf) = some ([name, size, time], rest) ∧
      namedFile 3 buf = some (name, toSigned64 (strtoumax size), safeAtol time)) ∨
    parseArgs 3 (cstr buf) = none ∧ namedFile 3 buf = none := by
  unfold namedFile
  cases h : parseArgs 3 (cstr buf) with
  | none => exact .inr ⟨rfl, rfl⟩
  | some r =>
    obtain ⟨ws, rest⟩ := r
    obtain ⟨a, b, c, rfl⟩ := List.length_eq_three.mp (parseArgs_length h)
    exact .inl ⟨a, b, c, rest, rfl, rfl⟩

/-! ### `M_GOT` -/

/-- What `GOT` can do. -/
inductive GotOutcome (s : State) (named : Option (Str × Int × Int)) : State × Bool → Prop
  | garbled (h : named = none) : GotOutcome s named (cannotParse "M_GOT" s)
  /-- for the current file -/
  | out (f : Str × Int × Int) (hf : named = some f) (heq : s.tx.out.Named f) (disk : Disk)
      (fl : Option Handle) (k : List KillEntry) (n : List Str) (a : FtnAddr) (b : Bool) :
      GotOutcome s named ({ s with disk := disk, tx := { s.tx with
        out := .zero, flo := { s.tx.flo with f := fl }, killlist := k, nosendlist := n, ndAddr := a
        waitingForGOT := false, offReqSent := false } }, b)
  /-- for a file that was sent -/
  | sent (f : Str × Int × Int) (hf : named = some f) (hne : ¬ s.tx.out.Named f) (i : Nat)
      (hi : sentIndex s f = some i) (disk : Disk) (fl : Option Handle) (k : List KillEntry)
      (n : List Str) (b : Bool) :
      GotOutcome s named ({ s with disk := disk, tx := { s.tx with
        flo := { s.tx.flo with f := fl }, killlist := k, nosendlist := n
        ndAddr := (s.tx.sentFls.getD i .zero).fa, waitingForGOT := false
        sentFls := removeSent i s.tx.sentFls
        bytesSent := s.tx.bytesSent + (s.tx.sentFls.getD i .zero).size
        filesSent := s.tx.filesSent + 1 } }, b)
  /-- for none that is known -/
  | foreign (f : Str × Int × Int) (hf : named = some f) (hne : ¬ s.tx.out.Named f)
      (hno : sentIndex s f = none) (disk : Disk) : GotOutcome s named ({ s with disk := disk }, true)

theorem gotStatus_eq (status : Option Str) (clear : Bool) (s : State) :
    ∃ disk, (gotStatus config env status clear s).1 = { s with disk := disk } := by
  unfold gotStatus
  split
  · exact ⟨s.disk, rfl⟩
  · exact ⟨_, rfl⟩

theorem GOT_outcome (buf : List Byte) (s : State) :
    GotOutcome s (namedFile 3 buf) (GOT config env buf s) := by
  unfold GOT
  rcases namedFile_three buf with ⟨name, size, time, rest, hparse, hnamed⟩ | ⟨hparse, hnamed⟩
  · rw [hparse, hnamed]
    dsimp only
    obtain ⟨disk, hs1⟩ : ∃ disk, (if s.login.nrFlag.we = true ∧ (!s.login.ndFlag.we) = true then
        ndClear config env s.tx.ndAddr s else s) = { s with disk := disk } := by
      split_ifs
      · exact ⟨_, rfl⟩
      · exact ⟨s.disk, rfl⟩
    rw [hs1]
    dsimp only
    generalize (if s.login.nrFlag.we = true ∧ (!s.login.ndFlag.we) = true then none
      else some (cstr buf)) = status
    generalize hfile : (name, toSigned64 (strtoumax size), safeAtol time) = f
    have hname : name = f.1 := by rw [← hfile]
    have hsize : toSigned64 (strtoumax size) = f.2.1 := by rw [← hfile]
    have htime : safeAtol time = f.2.2 := by rw [← hfile]
    rw [hname, hsize, htime]
    split
    · next heq =>
      have hnamed : s.tx.out.Named f := heq
      unfold gotOut
      dsimp only
      obtain ⟨disk2, hst⟩ := gotStatus_eq config env status s.tx.offReqSent { s with
        disk := disk, tx := { s.tx with out := { s.tx.out with f := none }, ndAddr := s.tx.out.fa } }
      rw [hst]
      obtain ⟨disk3, fl, k, n, hrm⟩ := removeFromSpool_frame config env s.tx.out.flo
        (some s.tx.out.path) s.tx.out.action { s with
          disk := disk2, tx := { s.tx with
            out := { s.tx.out with f := none }, ndAddr := s.tx.out.fa
            waitingForGOT := false, offReqSent := false } }
      dsimp only
      rw [hrm]
      exact .out f rfl hnamed disk3 fl k n _ _
    · next hne =>
      split
      · next hno => exact .foreign f rfl hne hno disk
      · next i hi =>
        unfold gotSent
        dsimp only
        obtain ⟨disk2, hst⟩ := gotStatus_eq config env status (s.tx.offReqSent || !s.login.ndFlag.we)
          { s with disk := disk, tx := { s.tx with
            bytesSent := s.tx.bytesSent + (s.tx.sentFls.getD i .zero).size
            filesSent := s.tx.filesSent + 1, ndAddr := (s.tx.sentFls.getD i .zero).fa } }
        rw [hst]
        obtain ⟨disk3, fl, k, n, hrm⟩ := removeFromSpool_frame config env
          (s.tx.sentFls.getD i .zero).flo (some (s.tx.sentFls.getD i .zero).path)
          (s.tx.sentFls.getD i .zero).action { s with
            disk := disk2, tx := { s.tx with
              bytesSent := s.tx.bytesSent + (s.tx.sentFls.getD i .zero).size
              filesSent := s.tx.filesSent + 1, ndAddr := (s.tx.sentFls.getD i .zero).fa
              waitingForGOT := false } }
        dsimp only
        rw [hrm]
        exact .sent f rfl hne i hi disk3 fl k n _
  · rw [hparse, hnamed]
    exact .garbled rfl

/-! ### `M_SKIP` -/

/-- Entries of the one list that are not blank stand in the other. -/
def LiveSubset (l' l : List TFile) : Prop := ∀ t ∈ l', t.netname ≠ [] → t ∈ l

theorem removeSent_live (i : Nat) (l : List TFile) : LiveSubset (removeSent i l) l := by
  intro t ht hne
  unfold removeSent at ht
  dsimp only at ht
  split at ht
  · simp at ht
  · rw [List.mem_iff_getElem?] at ht
    obtain ⟨j, hj⟩ := ht
    rw [List.getElem?_modify] at hj
    cases hl : l[j]? with
    | none => simp [hl] at hj
    | some x =>
      rw [hl] at hj
      by_cases hij : i = j
      · have ht : { x with netname := [] } = t := by simpa [hij] using hj
        rw [← ht] at hne
        exact absurd rfl hne
      · have ht : x = t := by simpa [hij] using hj
        rw [← ht]
        exact List.mem_of_getElem? hl

/-- The loop of `SKIP` blanks sent files. -/
theorem skipSent_eq (name : Str) (size time : Int) (fuel n : Nat) (tx : Tx) :
    ∃ r a l, skipSent name size time fuel n tx =
      { tx with rSkippedFlag := r, ndAddr := a, sentFls := l } ∧ LiveSubset l tx.sentFls := by
  induction fuel generalizing n tx with
  | zero => exact ⟨tx.rSkippedFlag, tx.ndAddr, tx.sentFls, rfl, fun t ht _ => ht⟩
  | succ fuel ih =>
    rw [skipSent]
    split
    · exact ⟨tx.rSkippedFlag, tx.ndAddr, tx.sentFls, rfl, fun t ht _ => ht⟩
    · next t _ =>
      split_ifs
      · obtain ⟨r, a, l, heq, hl⟩ := ih (n + 1)
          { tx with rSkippedFlag := true, ndAddr := t.fa, sentFls := removeSent n tx.sentFls }
        exact ⟨r, a, l, heq, fun x hx hne => removeSent_live n _ x (hl x hx hne) hne⟩
      · exact ih (n + 1) tx

/-- What `SKIP` can do. -/
inductive SkipOutcome (s : State) (named : Option (Str × Int × Int)) : State × Bool → Prop
  | garbled (h : named = none) : SkipOutcome s named (cannotParse "M_SKIP" s)
  /-- a status cannot be skipped -/
  | status (f : Str × Int × Int) (hf : named = some f) (heq : s.tx.out.Named f)
      (hnone : s.tx.out.f = none) (a : FtnAddr) (l : List TFile) (hl : LiveSubset l s.tx.sentFls) :
      SkipOutcome s named (msgSend2 M_ERR (str "Cannot skip ND-status") []
        { s with tx := { s.tx with rSkippedFlag := true, ndAddr := a, sentFls := l } }, false)
  /-- the current file is given up -/
  | out (f : Str × Int × Int) (hf : named = some f) (heq : s.tx.out.Named f)
      (hsome : s.tx.out.f.isSome) (disk : Disk) (a : FtnAddr) (l : List TFile)
      (hl : LiveSubset l s.tx.sentFls) (w o : Bool) (hw : w = true → s.tx.waitingForGOT = true) :
      SkipOutcome s named ({ s with disk := disk, tx := { s.tx with
        out := .zero, rSkippedFlag := true, ndAddr := a, sentFls := l, waitingForGOT := w
        offReqSent := o } }, true)
  /-- the current file stays -/
  | other (f : Str × Int × Int) (hf : named = some f) (hne : ¬ s.tx.out.Named f) (disk : Disk)
      (r : Bool) (a : FtnAddr) (l : List TFile) (hl : LiveSubset l s.tx.sentFls) (w o : Bool)
      (hw : w = true → s.tx.waitingForGOT = true) :
      SkipOutcome s named ({ s with disk := disk, tx := { s.tx with
        rSkippedFlag := r, ndAddr := a, sentFls := l, waitingForGOT := w, offReqSent := o } }, true)

theorem SKIP_outcome (buf : List Byte) (s : State) :
    SkipOutcome s (namedFile 3 buf) (SKIP config env buf s) := by
  unfold SKIP
  rcases namedFile_three buf with ⟨name, size, time, rest, hparse, hnamed⟩ | ⟨hparse, hnamed⟩
  · rw [hparse, hnamed]
    dsimp only
    obtain ⟨r, a, l, htx, hl⟩ := skipSent_eq name (toSigned64 (strtoumax size)) (safeAtol time)
      s.tx.sentFls.length 0 s.tx
    rw [htx]
    dsimp only
    generalize htrip : (name, toSigned64 (strtoumax size), safeAtol time) = f
    have hf : tfileEq s.tx.out name (toSigned64 (strtoumax size)) (safeAtol time) =
        tfileEq s.tx.out f.1 f.2.1 f.2.2 := by rw [← htrip]
    rw [hf]
    cases hit : tfileEq s.tx.out f.1 f.2.1 f.2.2 with
    | true =>
      simp only [if_true, true_and]
      split_ifs with hnone hmode
      · exact .status f rfl hit (by simpa using hnone) a l hl
      · exact .out f rfl hit (Option.isSome_iff_ne_none.mpr (by simpa using hnone)) _ _ l hl _ _
          (by simp)
      · exact .out f rfl hit (Option.isSome_iff_ne_none.mpr (by simpa using hnone)) _ _ l hl _ _ id
    | false =>
      simp only [Bool.false_eq_true, if_false, false_and]
      have hne : ¬ s.tx.out.Named f := by rw [TFile.Named, hit]; decide
      split_ifs
      · exact .other f rfl hne _ r _ l hl _ _ (by simp)
      · exact .other f rfl hne _ r _ l hl _ _ id
  · rw [hparse, hnamed]
    exact .garbled rfl

/-! ### `M_GET` -/

/-- The current file and the sent files after the first part of `GET`. -/
inductive Fetched (s : State) (f : Str × Int × Int) : TFile → List TFile → Prop
  | current (hno : sentIndex s f = none) : Fetched s f s.tx.out s.tx.sentFls
  | reopened (i : Nat) (hi : sentIndex s f = some i) (h : Handle)
      (hopen : s.disk.fopenR env (s.tx.sentFls.getD i .zero).path = some h) :
      Fetched s f { s.tx.sentFls.getD i .zero with f := some h }
        (if s.tx.out.f.isSome then s.tx.sentFls.set i { s.tx.out with f := none }
          else removeSent i s.tx.sentFls)
  | gone (i : Nat) (hi : sentIndex s f = some i)
      (hopen : s.disk.fopenR env (s.tx.sentFls.getD i .zero).path = none) :
      Fetched s f .zero
        (if s.tx.out.f.isSome then s.tx.sentFls.set i { s.tx.out with f := none }
          else removeSent i s.tx.sentFls)

theorem getFromSent_eq (f : Str × Int × Int) (s : State) : ∃ o l, Fetched env s f o l ∧
    getFromSent env f.1 f.2.1 f.2.2 s = { s with tx := { s.tx with sentFls := l, out := o } } := by
  unfold getFromSent
  split
  · next hno => exact ⟨_, _, .current hno, rfl⟩
  · next i hi =>
    dsimp only
    cases hopen : s.disk.fopenR env (s.tx.sentFls.getD i .zero).path with
    | none => exact ⟨_, _, .gone i hi hopen, rfl⟩
    | some h => exact ⟨_, _, .reopened i hi h hopen, rfl⟩

/-- The compressor state with which a file goes on, and the extra parameters. -/
def zResume (nz : Bool) (s : State) : Str × State :=
  if nz then (str "(null)", zSendStop s) else zSendInit config env (zSendStop s)

/-- What `GET` can do. -/
inductive GetOutcome (s : State) (named : Option (Str × Int × Int)) : State × Bool → Prop
  | garbled (h : named = none) : GetOutcome s named (cannotParse "M_GET" s)
  /-- the file is not known, or its offset is invalid -/
  | failed (f : Str × Int × Int) (hf : named = some f) (o : TFile) (l : List TFile)
      (hfetch : Fetched env s f o l) (o' : TFile) (ho : { o' with f := none } = { o with f := none })
      (disk : Disk) (link : Link) (a : FtnAddr) (w : Bool)
      (hlink : Queues (·.isReply) s.login.cryptFlag s.link link) :
      GetOutcome s named ({ s with disk := disk, link := link, tx := { s.tx with
        sentFls := l, out := o', ndAddr := a, waitingForGOT := w, offReqSent := false } }, false)
  /-- a status that the remote has taken up: an empty block will follow -/
  | eof (f : Str × Int × Int) (hf : named = some f) (o : TFile) (l : List TFile)
      (hfetch : Fetched env s f o l) (hnamed : o.Named f) (hnone : o.f = none)
      (hreq : s.tx.offReqSent = true) (hnd : s.login.ndFlag.we = true) :
      GetOutcome s named ({ sendFileMsg ⟨o, some (toUnsigned64 o.size), []⟩ s with tx := { s.tx with
        sentFls := l, out := o, sendEof := true, waitingForGOT := true, offReqSent := false } }, true)
  /-- a status that the remote knows nothing about -/
  | status (f : Str × Int × Int) (hf : named = some f) (o : TFile) (l : List TFile)
      (hfetch : Fetched env s f o l) (hnamed : o.Named f) (hnone : o.f = none)
      (hreq : s.tx.offReqSent = true) (off : Nat) (disk : Disk) (a : FtnAddr) :
      GetOutcome s named ({ sendFileMsg ⟨o, some off, []⟩ s with
        disk := disk
        tx := { s.tx with
          sentFls := l, out := .zero, ndAddr := a
          waitingForGOT := s.tx.waitingForGOT && !s.login.ndFlag.we, offReqSent := false } }, true)
  /-- the file goes on from the offset -/
  | resumed (f : Str × Int × Int) (hf : named = some f) (o : TFile) (l : List TFile)
      (hfetch : Fetched env s f o l) (hnamed : o.Named f) (h : Handle) (hopen : o.f = some h)
      (off : Nat) (hoff : (off : Int) ≤ o.size) (nz : Bool) (extra : Str) (z : ZSend)
      (od : Option (List (Call Byte))) (ob : List Byte)
      (hz : zResume config env nz { s with tx := { s.tx with
          sentFls := l, out := { o with f := some { h with pos := off } } } } =
        (extra, { s with tx := { s.tx with
          sentFls := l, out := { o with f := some { h with pos := off } }
          zSend := z, zOdata := od, zObuf := ob } })) (disk : Disk) (a : FtnAddr) :
      GetOutcome s named ({ sendFileMsg ⟨{ o with f := some { h with pos := off } }, some off, extra⟩ s with
        disk := disk
        tx := { s.tx with
          sentFls := l, out := { o with f := some { h with pos := off } }
          zSend := z, zOdata := od, zObuf := ob, ndAddr := a
          waitingForGOT := s.tx.waitingForGOT && !s.login.ndFlag.we, offReqSent := false } }, true)

theorem namedFile_four (buf : List Byte) : (∃ name size time off rest,
      parseArgs 4 (cstr buf) = some ([name, size, time, off], rest) ∧
      namedFile 4 buf = some (name, toSigned64 (strtoumax size), safeAtol time)) ∨
    parseArgs 4 (cstr buf) = none ∧ namedFile 4 buf = none := by
  unfold namedFile
  cases h : parseArgs 4 (cstr buf) with
  | none => exact .inr ⟨rfl, rfl⟩
  | some r =>
    obtain ⟨ws, rest⟩ := r
    have hlen := parseArgs_length h
    match ws, hlen with
    | [a, b, c, d], _ => exact .inl ⟨a, b, c, d, rest, rfl, rfl⟩

theorem getEnd_eq (s : State) : ∃ disk a, getEnd config env s = { s with disk := disk, tx := { s.tx with
    ndAddr := a, waitingForGOT := s.tx.waitingForGOT && !s.login.ndFlag.we, offReqSent := false } } :=
  ⟨_, _, rfl⟩

/-- The compressor state alone changes when a file goes on. -/
theorem zResume_eq (nz : Bool) (s : State) : ∃ z od ob, (zResume config env nz s).2 =
    { s with tx := { s.tx with zSend := z, zOdata := od, zObuf := ob } } := by
  have hstop : ∃ z od ob, zSendStop s = { s with tx := { s.tx with zSend := z, zOdata := od, zObuf := ob } } := by
    unfold zSendStop
    split
    · exact ⟨_, _, _, rfl⟩
    · exact ⟨_, s.tx.zOdata, s.tx.zObuf, rfl⟩
  obtain ⟨z, od, ob, hstop⟩ := hstop
  unfold zResume
  rw [hstop]
  cases nz with
  | true => exact ⟨z, od, ob, rfl⟩
  | false =>
    simp only [Bool.false_eq_true, if_false]
    unfold zSendInit
    split
    · dsimp only
      split
      · exact ⟨z, od, ob, rfl⟩
      · split
        · exact ⟨_, _, ob, rfl⟩
        · exact ⟨_, _, ob, rfl⟩
    · exact ⟨z, od, ob, rfl⟩

theorem GET_outcome (buf : List Byte) (s : State) :
    GetOutcome config env s (namedFile 4 buf) (GET config env buf s) := by
  unfold GET
  rcases namedFile_four buf with ⟨name, size, time, off, rest, hparse, hnamed⟩ | ⟨hparse, hnamed⟩
  · rw [hparse, hnamed]
    dsimp only
    generalize hfile : (name, toSigned64 (strtoumax size), safeAtol time) = f
    have hname : name = f.1 := by rw [← hfile]
    have hsize : toSigned64 (strtoumax size) = f.2.1 := by rw [← hfile]
    have htime : safeAtol time = f.2.2 := by rw [← hfile]
    rw [hname, hsize, htime]
    obtain ⟨o, l, hfetch, hs1⟩ := getFromSent_eq env f s
    rw [hs1]
    dsimp only
    split
    · next hcond =>
      simp only [Bool.and_eq_true, Bool.or_eq_true] at hcond
      obtain ⟨hopen, hmatch⟩ := hcond
      split
      · next hnone =>
        have hreq : s.tx.offReqSent = true := hopen.resolve_left (by simp [hnone])
        unfold getStatus
        dsimp only
        split
        · next s2 heq =>
          split_ifs at heq with heof
          · obtain ⟨hoff, hnd⟩ := heof
            obtain rfl := (Prod.mk.inj heq).1.symm
            rw [hoff]
            exact .eof f rfl o l hfetch hmatch hnone hreq hnd
          · exact absurd (Prod.mk.inj heq).2 (by decide)
        · next s2 heq =>
          split_ifs at heq with heof
          · exact absurd (Prod.mk.inj heq).2 (by decide)
          · obtain rfl := (Prod.mk.inj heq).1.symm
            exact .status f rfl o l hfetch hmatch hnone hreq (strtoumax off) _ _
      · next h hsome =>
        have hopen : o.f = some h := hsome
        unfold getFile
        dsimp only
        generalize toSigned64 (strtoumax off) = off'
        split_ifs with hbig hneg hnz
        · exact .failed f rfl o l hfetch { o with f := none } rfl _ _ _ _ (.one (by rfl) _)
        · exact .failed f rfl o l hfetch { o with f := none } rfl _ _ _ _ (.one (by rfl) _)
        · have hoff : (off'.toNat : Int) ≤ o.size := by omega
          obtain ⟨z, od, ob, hst⟩ := zResume_eq config env true { s with tx := { s.tx with
            sentFls := l, out := { o with f := some { h with pos := off'.toNat } } } }
          have hstop : zSendStop { s with tx := { s.tx with
            sentFls := l, out := { o with f := some { h with pos := off'.toNat } } } } = _ := hst
          rw [hstop]
          exact .resumed f rfl o l hfetch hmatch h hopen _ hoff true _ z od ob (Prod.ext rfl hst) _ _
        · have hoff : (off'.toNat : Int) ≤ o.size := by omega
          obtain ⟨z, od, ob, hst⟩ := zResume_eq config env false { s with tx := { s.tx with
            sentFls := l, out := { o with f := some { h with pos := off'.toNat } } } }
          have hinit : (zSendInit config env (zSendStop { s with tx := { s.tx with
            sentFls := l, out := { o with f := some { h with pos := off'.toNat } } } })).2 = _ := hst
          rw [hinit]
          exact .resumed f rfl o l hfetch hmatch h hopen _ hoff false _ z od ob (Prod.ext rfl hst) _ _
    · obtain ⟨disk, a, hend⟩ := getEnd_eq config env
        { s with tx := { s.tx with sentFls := l, out := o } }
      rw [hend]
      exact .failed f rfl o l hfetch o rfl disk s.link a _ (.refl _ _ _)
  · rw [hparse, hnamed]
    exact .garbled rfl

end Binkd
