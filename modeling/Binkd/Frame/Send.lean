import Binkd.Frame
import Binkd.Send

/-!
# The frame of the sending side

Removing a file from the spool touches the disk, the open flow file and two lists
only (`SpoolFrame`).  `startFileTransfer`, `GET`, `SKIP` and `GOT` stay in the
frame of the sending side.
-/

namespace Binkd

open Lib

variable (config : BinkdConfig) (env : Env)

/-! ### The spool -/

/-- The two states differ in the disk, the open flow file, and the lists of files to
delete and of files not to send. -/
def SpoolFrame (s s' : State) : Prop :=
  ∃ disk f k n, s' = { s with disk := disk, tx := { s.tx with
    flo := { s.tx.flo with f := f }, killlist := k, nosendlist := n } }

theorem SpoolFrame.refl (s : State) : SpoolFrame s s := ⟨s.disk, s.tx.flo.f, _, _, rfl⟩

theorem SpoolFrame.trans {a b c : State} (h : SpoolFrame a b) (h' : SpoolFrame b c) :
    SpoolFrame a c := by
  obtain ⟨_, _, _, _, rfl⟩ := h
  obtain ⟨d, f, k, n, rfl⟩ := h'
  exact ⟨d, f, k, n, rfl⟩

theorem SpoolFrame.disk (s : State) (disk : Disk) : SpoolFrame s { s with disk := disk } :=
  ⟨disk, s.tx.flo.f, _, _, rfl⟩

theorem SpoolFrame.send {s s' : State} (h : SpoolFrame s s') : SendFrame s s' := by
  obtain ⟨_, _, _, _, rfl⟩ := h
  exact .of_eq rfl rfl rfl rfl rfl rfl rfl

theorem performAction_frame (path : Str) (action : Byte) (s : State) :
    SpoolFrame s (performAction env path action s) := by
  unfold performAction
  split_ifs
  · split
    · exact .disk s _
    · exact ⟨_, s.tx.flo.f, _, _, rfl⟩
  · exact .disk s _
  · exact ⟨s.disk, s.tx.flo.f, _, _, rfl⟩
  · exact .refl s

theorem removeFromFlo_frame (flopath : Str) (file : Option Str) (s : State) :
    SpoolFrame s (removeFromFlo env flopath file s).2 := by
  unfold removeFromFlo
  split
  · exact ⟨_, _, s.tx.killlist, s.tx.nosendlist, rfl⟩
  · split
    · exact .refl s
    · exact .disk s _

theorem removeFromSpool_frame (flopath : Str) (file : Option Str) (action : Byte) (s : State) :
    SpoolFrame s (removeFromSpool config env flopath file action s) := by
  have hflo := removeFromFlo_frame env flopath file s
  unfold removeFromSpool
  dsimp only
  split_ifs
  · cases file with
    | some file => exact performAction_frame env file action s
    | none => exact .refl s
  · split
    · next s1 heq =>
      rw [heq] at hflo
      exact hflo
    · next found s1 heq =>
      rw [heq] at hflo
      refine hflo.trans ?_
      generalize (if found = true then file.bind (transFloLine config) else none) = w
      cases w with
      | some w => exact performAction_frame env w action s1
      | none =>
        cases file with
        | some file => exact performAction_frame env file action s1
        | none => exact .refl s1

theorem ndClear_frame (fa : FtnAddr) (s : State) : SpoolFrame s (ndClear config env fa s) :=
  .disk s _

/-! ### `start_file_transfer` -/

theorem zSendInit_frame (s : State) : SendFrame s (zSendInit config env s).2 := by
  unfold zSendInit
  split
  · dsimp only
    split
    · exact .refl s
    · split <;> exact (SendFrame.refl s).tx (by rfl)
  · exact .refl s

theorem zSendStop_frame (s : State) : SendFrame s (zSendStop s) := by
  unfold zSendStop
  split_ifs <;> exact (SendFrame.refl s).tx (by rfl)

theorem floLoop_frame (qpath : Str) (fuel : Nat) (s : State) :
    SendFrame s (floLoop config env qpath fuel s).2 := by
  induction fuel generalizing s with
  | zero => exact .refl s
  | succ fuel ih =>
    rw [floLoop]
    split
    · exact .refl s
    · next h _ =>
      split
      · have h1 : SendFrame s { s with tx := { s.tx with flo := { s.tx.flo with f := none } } } :=
          (SendFrame.refl s).tx (by rfl)
        exact (h1.trans (removeFromSpool_frame config env s.tx.flo.path none 0 _).send).tx (by rfl)
      · next path action h' _ =>
        have h1 : SendFrame s { s with tx := { s.tx with
          flo := { s.tx.flo with f := some h' }, out := { s.tx.out with path := path } } } :=
          (SendFrame.refl s).tx (by rfl)
        have hdrop := (h1.trans (removeFromSpool_frame config env s.tx.out.flo (some path)
          s.tx.out.action _).send).trans (ih _)
        dsimp only
        split_ifs
        · exact hdrop
        · split
          · split_ifs
            · exact hdrop
            · exact h1
          · exact hdrop

theorem announce_frame (s : State) : SendFrame s (announce config env s).1 := by
  unfold announce
  split_ifs
  · have h1 : SendFrame s { s with tx := { s.tx with out := { s.tx.out with f := none } } } :=
      (SendFrame.refl s).tx (by rfl)
    exact (h1.trans (removeFromSpool_frame config env _ _ _ _).send).tx (by rfl)
  · exact (zSendInit_frame config env s).file.tx (by rfl)

theorem fillOut_frame (file : Option Ftnq) (r : Found) (s : State) :
    SendFrame s (fillOut env file r s) := (SendFrame.refl s).tx (by rfl)

theorem startFlo_frame (file : Option Ftnq) (s : State) :
    SendFrame s (startFlo config env file s).1 := by
  unfold startFlo
  dsimp only
  have h1 : SendFrame s { s with tx := { s.tx with out := { s.tx.out with flo := s.tx.flo.path } } } :=
    (SendFrame.refl s).tx (by rfl)
  have h2 := h1.trans (floLoop_frame config env ((file.map (·.path)).getD [])
    ((s.tx.flo.f.map fun h => h.bytes.length + 1).getD 0) _)
  split
  · next s1 heq =>
    rw [heq] at h2
    exact h2
  · next r s1 heq =>
    rw [heq] at h2
    exact ((h2.tx (by rfl)).trans (fillOut_frame env file r _)).trans (announce_frame config env _)

theorem openQueued_frame {file : Ftnq} {s : State} {r : Found × State}
    (h : openQueued env file s = some r) : SendFrame s r.2 := by
  unfold openQueued at h
  split at h
  · obtain rfl := Option.some.inj h
    exact .refl s
  · split at h
    · contradiction
    · split at h
      · dsimp only at h
        split at h
        · obtain rfl := Option.some.inj h
          exact (SendFrame.refl s).tx (by rfl)
        · obtain rfl := Option.some.inj h
          exact .refl s
      · contradiction

theorem startFileTransfer_frame (file : Option Ftnq) (s : State) :
    SendFrame s (startFileTransfer config env file s).1 := by
  have h1 : SendFrame s { s with tx := { s.tx with out := .zero } } := (SendFrame.refl s).tx (by rfl)
  unfold startFileTransfer
  dsimp only
  split
  · exact h1.trans (startFlo_frame config env file _)
  · split
    · exact h1
    · next file =>
      have h2 : SendFrame s { s with tx := { s.tx with
        out := .zero, maxflvr := maxflvr s.tx.maxflvr file.flvr } } := (SendFrame.refl s).tx (by rfl)
      split
      · exact h2
      · next r s1 heq =>
        have h3 : SendFrame s s1 := h2.trans (openQueued_frame env heq)
        split
        · refine SendFrame.trans ?_ (startFlo_frame config env (some file) _)
          exact h3.tx (by rfl)
        · refine SendFrame.trans ?_ (announce_frame config env _)
          refine SendFrame.trans ?_ (fillOut_frame env (some file) r _)
          exact h3.tx (by rfl)

/-! ### What `start_file_transfer` announces -/

/-- A record as it is announced: a status, or a file that has just been opened. -/
structure Fresh (t : TFile) : Prop where
  status : t.f = none → t.type = 115
  file : ∀ h ∈ t.f, h.pos = 0 ∧ t.size = h.bytes.length ∧
    (h.path = t.path ∨ transFloLine config t.path = some h.path) ∧
    ∃ disk : Disk, disk.fopenR env h.path = some h

/-- Before the announcement: the current file is new, and so is its number. -/
structure Prepared (s s1 : State) : Prop where
  eq : ∃ disk flo k n m a, s1 = { s with disk := disk, tx := { s.tx with
    out := s1.tx.out, flo := flo, killlist := k, nosendlist := n, maxflvr := m, ndAddr := a
    waitingForGOT := false, nextId := s.tx.nextId + 1 } }
  id : s1.tx.out.id = s.tx.nextId
  fresh : Fresh config env s1.tx.out

/-- No file is announced: what has changed then. -/
def NotSent (s s' : State) : Prop :=
  ∃ disk flo o k n m a w i, s' = { s with disk := disk, tx := { s.tx with
      out := o, flo := flo, killlist := k, nosendlist := n, maxflvr := m, ndAddr := a
      waitingForGOT := w, nextId := i } } ∧
    o.f = none ∧ (w = true → s.tx.waitingForGOT = true) ∧ s.tx.nextId ≤ i

/-- The loop over a flow file changes the flow file and the path of the current file. -/
theorem floLoop_spec (qpath : Str) (fuel : Nat) (s : State) :
    (∃ disk flo p k n, (floLoop config env qpath fuel s).2 = { s with disk := disk, tx := { s.tx with
      out := { s.tx.out with path := p }, flo := flo, killlist := k, nosendlist := n } }) ∧
    ∀ r ∈ (floLoop config env qpath fuel s).1, ∃ h a, r.f = some h ∧ r.action = some a ∧ h.pos = 0 ∧
      r.size = h.bytes.length ∧
      h.path = (transFloLine config (floLoop config env qpath fuel s).2.tx.out.path).getD
        (floLoop config env qpath fuel s).2.tx.out.path ∧
      ∃ disk : Disk, disk.fopenR env h.path = some h := by
  induction fuel generalizing s with
  | zero => exact ⟨⟨s.disk, s.tx.flo, s.tx.out.path, _, _, rfl⟩, by simp [floLoop]⟩
  | succ fuel ih =>
    rw [floLoop]
    split
    · exact ⟨⟨s.disk, s.tx.flo, s.tx.out.path, _, _, rfl⟩, by simp⟩
    · next h _ =>
      split
      · obtain ⟨disk, f, k, n, heq⟩ := removeFromSpool_frame config env s.tx.flo.path none 0
          { s with tx := { s.tx with flo := { s.tx.flo with f := none } } }
        dsimp only
        rw [heq]
        exact ⟨⟨disk, .zero, s.tx.out.path, k, n, rfl⟩, by simp⟩
      · next path action h' _ =>
        dsimp only
        have hdrop := removeFromSpool_frame config env s.tx.out.flo (some path) s.tx.out.action
          { s with tx := { s.tx with
            flo := { s.tx.flo with f := some h' }, out := { s.tx.out with path := path } } }
        generalize removeFromSpool config env s.tx.out.flo (some path) s.tx.out.action
          { s with tx := { s.tx with
            flo := { s.tx.flo with f := some h' },
              out := { s.tx.out with path := path } } } = s1 at hdrop ⊢
        have hdropped : (∃ disk flo p k n, (floLoop config env qpath fuel s1).2 =
            { s with disk := disk, tx := { s.tx with
              out := { s.tx.out with path := p }, flo := flo, killlist := k, nosendlist := n } }) := by
          obtain ⟨disk, f, k, n, rfl⟩ := hdrop
          obtain ⟨disk', flo', p', k', n', heq'⟩ := (ih _).1
          exact ⟨disk', flo', p', k', n', heq'⟩
        split
        · exact ⟨hdropped, (ih s1).2⟩
        · split
          · next f sb hf hsb =>
            split
            · exact ⟨hdropped, (ih s1).2⟩
            · refine ⟨⟨s.disk, _, path, _, _, rfl⟩, fun r hr => ?_⟩
              obtain rfl := Option.some.inj hr
              obtain ⟨hpath, hpos, hbytes⟩ := Disk.fopenR_eq hf
              refine ⟨f, action, rfl, rfl, hpos, ?_, hpath, s.disk, hpath ▸ hf⟩
              dsimp only
              rw [hbytes sb hsb]
          · exact ⟨hdropped, (ih s1).2⟩

/-- The result of `start_file_transfer`: nothing is sent, or a new file is announced. -/
def StartOutcome (s : State) (r : State × Bool) : Prop :=
  (NotSent s r.1 ∧ r.2 = false) ∨
  ∃ s1, Prepared config env s s1 ∧ dontSend config s1.tx.out = false ∧ r = announce config env s1

theorem announce_outcome {s s1 : State} (h : Prepared config env s s1) :
    StartOutcome config env s (announce config env s1) := by
  cases hd : dontSend config s1.tx.out with
  | false => exact .inr ⟨s1, h, hd, rfl⟩
  | true =>
    refine .inl ?_
    unfold announce
    rw [if_pos hd]
    dsimp only
    obtain ⟨disk, f, k, n, heq⟩ := removeFromSpool_frame config env s1.tx.out.flo (some s1.tx.out.path)
      s1.tx.out.action { s1 with tx := { s1.tx with out := { s1.tx.out with f := none } } }
    rw [heq]
    obtain ⟨_, flo, _, _, m, a, hs1⟩ := h.eq
    refine ⟨⟨disk, { s1.tx.flo with f := f }, .zero, k, n, m, a, false, s.tx.nextId + 1, ?_, rfl, by simp,
      by omega⟩, rfl⟩
    rw [hs1]

theorem startFlo_outcome (file : Option Ftnq) (s : State) (hf : s.tx.out.f = none) :
    StartOutcome config env s (startFlo config env file s) := by
  have hspec := floLoop_spec config env ((file.map (·.path)).getD [])
    ((s.tx.flo.f.map fun h => h.bytes.length + 1).getD 0)
    { s with tx := { s.tx with out := { s.tx.out with flo := s.tx.flo.path } } }
  unfold startFlo
  dsimp only
  obtain ⟨⟨disk, flo, p, k, n, heq⟩, hr⟩ := hspec
  split
  · next s1 hs1 =>
    rw [hs1] at heq
    dsimp only at heq
    subst heq
    exact .inl ⟨⟨disk, flo, _, k, n, _, _, _, _, rfl, hf, id, le_rfl⟩, rfl⟩
  · next r s1 hs1 =>
    rw [hs1] at heq hr
    dsimp only at heq hr
    obtain ⟨h, a, hrf, hra, hpos, hsize, hpath, hdisk⟩ := hr r rfl
    subst heq
    refine announce_outcome config env ⟨⟨disk, flo, k, n, _, _, rfl⟩, ?_, ?_⟩
    · simp [fillOut, hra]
    · refine ⟨fun hn => ?_, fun h' hh => ?_⟩
      · simp [fillOut, hra, hrf] at hn
      · simp only [fillOut, hra, hrf, Option.mem_def, Option.some.injEq] at hh ⊢
        subst hh
        refine ⟨hpos, hsize, ?_, hdisk⟩
        cases htr : transFloLine config p with
        | none => exact .inl (by simpa [htr] using hpath)
        | some w => exact .inr (by simp [htr] at hpath; rw [hpath])

theorem openQueued_spec {file : Ftnq} {s : State} {r : Found} {s' : State}
    (h : openQueued env file s = some (r, s')) :
    r.action = none ∧ (∃ flo, s' = { s with tx := { s.tx with flo := flo } }) ∧
    (r.f = none → file.type = 115) ∧
    ∀ f ∈ r.f, f.pos = 0 ∧ r.size = f.bytes.length ∧ f.path = file.path ∧
      ∃ disk : Disk, disk.fopenR env f.path = some f := by
  unfold openQueued at h
  split at h
  · next ht =>
    simp only [Option.some.injEq, Prod.mk.injEq] at h
    obtain ⟨rfl, rfl⟩ := h
    exact ⟨rfl, ⟨s.tx.flo, rfl⟩, fun _ => ht, by simp⟩
  · split at h
    · contradiction
    · split at h
      · next f sb hf hsb =>
        obtain ⟨hpath, hpos, hbytes⟩ := Disk.fopenR_eq hf
        have hfile : ∀ f' ∈ some f, f'.pos = 0 ∧ (sb.bytes.length : Int) = f'.bytes.length ∧
            f'.path = file.path ∧ ∃ disk : Disk, disk.fopenR env f'.path = some f' := by
          intro f' hf'
          obtain rfl := Option.some.inj hf'
          exact ⟨hpos, by rw [hbytes sb hsb], hpath, s.disk, hpath ▸ hf⟩
        dsimp only at h
        split at h
        · simp only [Option.some.injEq, Prod.mk.injEq] at h
          obtain ⟨rfl, rfl⟩ := h
          exact ⟨rfl, ⟨_, rfl⟩, by simp, hfile⟩
        · simp only [Option.some.injEq, Prod.mk.injEq] at h
          obtain ⟨rfl, rfl⟩ := h
          exact ⟨rfl, ⟨s.tx.flo, rfl⟩, by simp, hfile⟩
      · contradiction

theorem StartOutcome.of_update {s : State} {r : State × Bool} (o flo : TFile) (m : Byte) (a : FtnAddr)
    (h : StartOutcome config env
      { s with tx := { s.tx with out := o, flo := flo, maxflvr := m, ndAddr := a } } r) :
    StartOutcome config env s r := by
  rcases h with ⟨⟨d, f, o, k, n, m, a, w, i, heq, ho, hw, hi⟩, h2⟩ |
    ⟨s1, ⟨⟨d, f, k, n, m, a, heq⟩, hid, hf⟩, hd, hr⟩
  · exact .inl ⟨⟨d, f, o, k, n, m, a, w, i, heq, ho, hw, hi⟩, h2⟩
  · exact .inr ⟨s1, ⟨⟨d, f, k, n, m, a, heq⟩, hid, hf⟩, hd, hr⟩

/-- **What `start_file_transfer` does**: the sending side alone changes, and a new file
is announced or the current file is closed. -/
theorem startFileTransfer_outcome (file : Option Ftnq) (s : State) :
    StartOutcome config env s (startFileTransfer config env file s) := by
  unfold startFileTransfer
  dsimp only
  split
  · exact .of_update config env .zero s.tx.flo s.tx.maxflvr s.tx.ndAddr
      (startFlo_outcome config env file _ rfl)
  · split
    · exact .inl ⟨⟨s.disk, s.tx.flo, .zero, _, _, _, _, _, _, rfl, rfl, id, le_rfl⟩, rfl⟩
    · next file =>
      split
      · exact .inl ⟨⟨s.disk, s.tx.flo, .zero, _, _, _, _, _, _, rfl, rfl, id, le_rfl⟩, rfl⟩
      · next r s1 heq =>
        obtain ⟨hra, ⟨flo, rfl⟩, hnone, hsome⟩ := openQueued_spec env heq
        split
        · exact .of_update config env { TFile.zero with fa := file.fa } flo
            (maxflvr s.tx.maxflvr file.flvr) (if s.login.ndFlag.we then s.tx.ndAddr else file.fa)
            (startFlo_outcome config env (some file) _ rfl)
        · refine .of_update config env { TFile.zero with fa := file.fa } flo
            (maxflvr s.tx.maxflvr file.flvr) (if s.login.ndFlag.we then s.tx.ndAddr else file.fa)
            (announce_outcome config env ⟨⟨s.disk, flo, _, _, _, _, rfl⟩, ?_, ?_⟩)
          · simp [fillOut, hra]
          · refine ⟨fun hn => ?_, fun h' hh => ?_⟩
            · simp only [fillOut, hra] at hn ⊢
              exact hnone hn
            · simp only [fillOut, hra, Option.mem_def] at hh ⊢
              obtain ⟨h1, h2, h3, h4⟩ := hsome h' hh
              exact ⟨h1, h2, .inl h3, h4⟩

/-- An announcement, of a file that is to be sent. -/
theorem announce_eq {s : State} (hd : dontSend config s.tx.out = false) :
    ∃ z od extra, announce config env s =
      ({ s with
          link := s.link.queue s.login.cryptFlag
            (.file ⟨{ s.tx.out with f := none }, firstOffset s, extra⟩)
          tx := { s.tx with
            zSend := z, zOdata := od, offReqSent := s.tx.offReqSent || s.login.nrFlag.we } }, true) := by
  have hz : ∃ z od extra, zSendInit config env s =
      (extra, { s with tx := { s.tx with zSend := z, zOdata := od } }) := by
    unfold zSendInit
    split
    · dsimp only
      split
      · exact ⟨_, _, _, rfl⟩
      · split <;> exact ⟨_, _, _, rfl⟩
    · exact ⟨_, _, _, rfl⟩
  obtain ⟨z, od, extra, hz⟩ := hz
  unfold announce
  rw [if_neg (by simp [hd]), hz]
  exact ⟨z, od, extra, rfl⟩

/-! ### `send_block` -/

/-- What the data branch of `send_block` can do. -/
inductive SendDataOutcome (s : State) : State × Bool → Prop
  /-- the empty block -/
  | empty (hf : s.tx.out.f = none) : SendDataOutcome s
      ({ s with tx := { s.tx with sendEof := false }, link := s.link.build s.login.cryptFlag [] }, true)
  | failed (h : Handle) (hf : s.tx.out.f = some h) : SendDataOutcome s (s, false)
  /-- a block of the file, which is not the last one -/
  | more (h : Handle) (hf : s.tx.out.f = some h) (payload : List Byte) (h' : Handle) (z : ZSend)
      (od : Option (List (Call Byte))) (ob : List Byte)
      (hb : fileBlock config env h s = some (payload, { s with tx := { s.tx with
        out := { s.tx.out with f := some h' }, zSend := z, zOdata := od, zObuf := ob } }))
      (he : fileEnded payload { s.tx with
        out := { s.tx.out with f := some h' }, zSend := z, zOdata := od, zObuf := ob } = false) :
      SendDataOutcome s ({ s with
        tx := { s.tx with out := { s.tx.out with f := some h' }, zSend := z, zOdata := od, zObuf := ob }
        link := s.link.build s.login.cryptFlag payload }, true)
  /-- the last block of the file -/
  | last (h : Handle) (hf : s.tx.out.f = some h) (payload : List Byte) (h' : Handle) (z : ZSend)
      (od : Option (List (Call Byte))) (ob : List Byte)
      (hb : fileBlock config env h s = some (payload, { s with tx := { s.tx with
        out := { s.tx.out with f := some h' }, zSend := z, zOdata := od, zObuf := ob } }))
      (he : fileEnded payload { s.tx with
        out := { s.tx.out with f := some h' }, zSend := z, zOdata := od, zObuf := ob } = true) :
      SendDataOutcome s ({ s with
        tx := { s.tx with
          out := .zero, sentFls := s.tx.sentFls ++ [{ s.tx.out with f := none }]
          waitingForGOT := s.tx.waitingForGOT || s.login.ndFlag.we
          zSend := z, zOdata := od, zObuf := ob }
        link := s.link.build s.login.cryptFlag payload }, true)

/-- A data block moves the file on, and the compressor. -/
theorem fileBlock_eq {h : Handle} {payload : List Byte} {s s1 : State}
    (heq : fileBlock config env h s = some (payload, s1)) : ∃ h' z od ob,
      s1 = { s with tx := { s.tx with
        out := { s.tx.out with f := some h' }, zSend := z, zOdata := od, zObuf := ob } } := by
  unfold fileBlock at heq
  split at heq
  · unfold plainBlock at heq
    split at heq
    · contradiction
    · simp only [Option.some.injEq, Prod.mk.injEq] at heq
      exact ⟨_, s.tx.zSend, s.tx.zOdata, s.tx.zObuf, heq.2.symm⟩
  · unfold zBlock at heq
    dsimp only at heq
    split at heq
    · contradiction
    · split at heq
      · contradiction
      · simp only [Option.some.injEq, Prod.mk.injEq] at heq
        exact ⟨_, _, _, _, heq.2.symm⟩

theorem sendData_outcome (s : State) :
    SendDataOutcome config env s (sendData config env s) := by
  unfold sendData
  split
  · next hf => exact .empty hf
  · next h hf =>
    split
    · exact .failed h hf
    · next payload s1 heq =>
      obtain ⟨h', z, od, ob, rfl⟩ := fileBlock_eq config env heq
      cases he : fileEnded payload { s.tx with
          out := { s.tx.out with f := some h' }, zSend := z, zOdata := od, zObuf := ob } with
      | true =>
        dsimp only
        rw [if_pos rfl]
        exact .last h hf payload h' z od ob heq he
      | false =>
        dsimp only
        rw [if_neg (by decide)]
        exact .more h hf payload h' z od ob heq he

/-! ### `M_GET`, `M_SKIP`, `M_GOT` -/

theorem ndForget_frame (s : State) : SendFrame s (ndForget config env s) :=
  (ndClear_frame config env s.tx.ndAddr s).send.tx (by rfl)

theorem getFromSent_frame (name : Str) (size time : Int) (s : State) :
    SendFrame s (getFromSent env name size time s) := by
  unfold getFromSent
  split
  · exact .refl s
  · exact (SendFrame.refl s).tx (by rfl)

theorem getStatus_frame (off : Nat) (s : State) : SendFrame s (getStatus config env off s).1 := by
  unfold getStatus
  have h := (SendFrame.refl s).file (m := ⟨s.tx.out, some off, []⟩)
  dsimp only
  split_ifs
  · exact h.tx (by rfl)
  · exact (h.trans (ndClear_frame config env _ _).send).tx (by rfl)

theorem getFile_frame (name : Str) (off : Int) (extras : List Str) (h : Handle) (s : State) :
    SendFrame s (getFile config env name off extras h s).1 := by
  unfold getFile
  have h0 := SendFrame.refl s
  split_ifs
  · exact (h0.sendf.tx (by rfl)).disk
  · exact h0.sendf.tx (by rfl)
  · exact ((h0.tx (by rfl)).trans (zSendStop_frame _)).file
  · exact (((h0.tx (by rfl)).trans (zSendStop_frame _)).trans (zSendInit_frame config env _)).file

theorem getEnd_frame (s : State) : SendFrame s (getEnd config env s) :=
  (ndForget_frame config env s).tx (by rfl)

theorem GET_frame (buf : List Byte) (s : State) : SendFrame s (GET config env buf s).1 := by
  unfold GET
  split
  · next name size time off rest _ =>
    dsimp only
    have h1 := getFromSent_frame env name (toSigned64 (strtoumax size)) (safeAtol time) s
    generalize getFromSent env name (toSigned64 (strtoumax size)) (safeAtol time) s = s1 at h1 ⊢
    split
    · split
      · have h2 := h1.trans (getStatus_frame config env (strtoumax off) s1)
        split
        · next s2 heq =>
          rw [heq] at h2
          exact h2
        · next s2 heq =>
          rw [heq] at h2
          exact h2.trans (getEnd_frame config env s2)
      · next h _ =>
        exact (h1.trans (getFile_frame config env _ _ _ h s1)).trans (getEnd_frame config env _)
    · exact h1.trans (getEnd_frame config env s1)
  · exact (SendFrame.refl s).send

theorem skipSent_q (name : Str) (size time : Int) (fuel n : Nat) (tx : Tx) :
    (skipSent name size time fuel n tx).q = tx.q := by
  induction fuel generalizing n tx with
  | zero => rfl
  | succ fuel ih =>
    rw [skipSent]
    split
    · rfl
    · split_ifs
      · exact ih _ _
      · exact ih _ _

theorem SKIP_frame (buf : List Byte) (s : State) : SendFrame s (SKIP config env buf s).1 := by
  unfold SKIP
  split
  · next name size time rest _ =>
    dsimp only
    generalize toSigned64 (strtoumax size) = size
    generalize safeAtol time = time
    have h1 : SendFrame s { s with tx := skipSent name size time s.tx.sentFls.length 0 s.tx } :=
      (SendFrame.refl s).tx (skipSent_q _ _ _ _ _ _)
    generalize skipSent name size time s.tx.sentFls.length 0 s.tx = tx at h1 ⊢
    cases hit : tfileEq tx.out name size time with
    | true =>
      simp only [if_true, true_and]
      have h2 : SendFrame s { s with tx := { tx with rSkippedFlag := true, out := .zero } } :=
        h1.tx (by rfl)
      split_ifs
      · exact (h1.tx (by rfl)).send
      · exact (h2.trans (ndForget_frame config env _)).tx (by rfl)
      · exact h2.trans (ndForget_frame config env _)
    | false =>
      simp only [Bool.false_eq_true, if_false, false_and]
      split_ifs
      · exact (h1.trans (ndForget_frame config env _)).tx (by rfl)
      · exact h1.trans (ndForget_frame config env _)
  · exact (SendFrame.refl s).send

theorem gotStatus_frame (status : Option Str) (clear : Bool) (s : State) :
    SpoolFrame s (gotStatus config env status clear s).1 := by
  unfold gotStatus
  split
  · exact .refl s
  · exact .disk s _

theorem gotOut_frame (status : Option Str) (s : State) :
    SendFrame s (gotOut config env status s).1 := by
  unfold gotOut
  dsimp only
  have h1 : SendFrame s { s with tx := { s.tx with
    out := { s.tx.out with f := none }, ndAddr := s.tx.out.fa } } := (SendFrame.refl s).tx (by rfl)
  exact (((h1.trans (gotStatus_frame config env status _ _).send).tx (by rfl)).trans
    (removeFromSpool_frame config env _ _ _ _).send).tx (by rfl)

theorem gotSent_frame (status : Option Str) (n : Nat) (t : TFile) (s : State) :
    SendFrame s (gotSent config env status n t s).1 := by
  unfold gotSent
  dsimp only
  have h1 : SendFrame s { s with tx := { s.tx with
    bytesSent := s.tx.bytesSent + t.size, filesSent := s.tx.filesSent + 1, ndAddr := t.fa } } :=
    (SendFrame.refl s).tx (by rfl)
  exact (((h1.trans (gotStatus_frame config env status _ _).send).tx (by rfl)).trans
    (removeFromSpool_frame config env _ _ _ _).send).tx (by rfl)

theorem GOT_frame (buf : List Byte) (s : State) : SendFrame s (GOT config env buf s).1 := by
  unfold GOT
  split
  · dsimp only
    have h1 : SendFrame s (if s.login.nrFlag.we = true ∧ (!s.login.ndFlag.we) = true then
        ndClear config env s.tx.ndAddr s else s) := by
      split_ifs
      · exact (ndClear_frame config env _ s).send
      · exact .refl s
    generalize (if s.login.nrFlag.we = true ∧ (!s.login.ndFlag.we) = true then
        ndClear config env s.tx.ndAddr s else s) = s1 at h1 ⊢
    split
    · exact h1.trans (gotOut_frame config env _ s1)
    · split
      · exact h1
      · exact h1.trans (gotSent_frame config env _ _ _ s1)
  · exact (SendFrame.refl s).send

end Binkd
