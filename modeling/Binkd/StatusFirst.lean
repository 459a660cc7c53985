import Binkd.Acknowledge

/-!
# The status of a file and its removal from the spool

In ND mode `GOT` records the status of the file that the remote has got, and removes the
file from the spool.  The session is dropped where the status cannot be recorded, but the
file is removed all the same: it stays only if there is nothing to remove
(`status_before_removal`).
-/

namespace Binkd

open Lib

variable {config : BinkdConfig} {env : Env} {s s' : State}

/-! ### Removing depends on the spool only -/

/-- The same disk, open flow file and list of files to delete. -/
structure SameSpool (s s' : State) : Prop where
  disk : s'.disk = s.disk
  flo : s'.tx.flo = s.tx.flo
  kill : s'.tx.killlist = s.tx.killlist

theorem SameSpool.refl (s : State) : SameSpool s s := ⟨rfl, rfl, rfl⟩

theorem SameSpool.symm (h : SameSpool s s') : SameSpool s' s := ⟨h.disk.symm, h.flo.symm, h.kill.symm⟩

theorem SameSpool.trans {a b c : State} (h : SameSpool a b) (h' : SameSpool b c) : SameSpool a c :=
  ⟨h'.disk.trans h.disk, h'.flo.trans h.flo, h'.kill.trans h.kill⟩

theorem SameSpool.perform (h : SameSpool s s') (path : Str) (action : Byte) :
    SameSpool (performAction env path action s) (performAction env path action s') := by
  unfold performAction
  rw [h.disk, h.kill]
  split_ifs
  · split
    · exact ⟨rfl, h.flo, h.kill⟩
    · exact ⟨rfl, h.flo, h.kill⟩
  · exact ⟨rfl, h.flo, h.kill⟩
  · exact ⟨rfl, h.flo, rfl⟩
  · exact h

theorem SameSpool.flow (h : SameSpool s s') (flopath : Str) (file : Option Str) :
    (removeFromFlo env flopath file s').1 = (removeFromFlo env flopath file s).1 ∧
      SameSpool (removeFromFlo env flopath file s).2 (removeFromFlo env flopath file s').2 := by
  unfold removeFromFlo
  rw [h.disk, h.flo]
  split
  · exact ⟨rfl, rfl, rfl, h.kill⟩
  · split
    · exact ⟨rfl, h⟩
    · exact ⟨rfl, rfl, h.flo, h.kill⟩

theorem SameSpool.remove (h : SameSpool s s') (flopath : Str) (file : Option Str) (action : Byte) :
    SameSpool (removeFromSpool config env flopath file action s)
      (removeFromSpool config env flopath file action s') := by
  obtain ⟨hfound, hflow⟩ := @SameSpool.flow env s s' h flopath file
  unfold removeFromSpool
  dsimp only
  split_ifs
  · cases file with
    | some file => exact h.perform file action
    | none => exact h
  · cases hr : removeFromFlo env flopath file s with
    | mk found s1 =>
      cases hr' : removeFromFlo env flopath file s' with
      | mk found' s1' =>
        rw [hr, hr'] at hfound hflow
        dsimp only at hfound hflow
        subst hfound
        cases found' with
        | none => exact hflow
        | some found =>
          dsimp only
          generalize (if found = true then file.bind (transFloLine config) else none) = w
          cases w with
          | some w => exact hflow.perform w action
          | none =>
            cases file with
            | some file => exact hflow.perform file action
            | none => exact hflow

/-! ### `GOT` -/

/-- How the status of the file is recorded: it is cleared where an offset was asked for. -/
def recorded (config : BinkdConfig) (env : Env) (buf : List Byte) (s : State) (t : TFile) :
    Disk × Bool :=
  ndSetStatus config env (if s.tx.offReqSent then [] else cstr buf) t.fa s.disk

/-- Removing the file from the spool has no effect: no line of a flow file is marked, and nothing
is deleted, truncated or put on the list of files to delete. -/
def NothingToRemove (config : BinkdConfig) (env : Env) (t : TFile) (s : State) : Prop :=
  SameSpool s (removeFromSpool config env t.flo (some t.path) t.action s)

/-- A file of its own without an action is not removed. -/
theorem nothingToRemove_kept {t : TFile} (hflo : t.flo = []) (hdelete : t.action ≠ 100) (htrunc : t.action ≠ 116)
    (hkill : t.action ≠ 115) : NothingToRemove config env t s := by
  unfold NothingToRemove removeFromSpool performAction
  rw [if_pos hflo]
  dsimp only
  rw [if_neg hdelete, if_neg htrunc, if_neg hkill]
  exact .refl s

/-- In ND mode `GOT` records the status and removes the file, whatever came of the status. -/
theorem GOT_removes {buf : List Byte} {f : Str × Int × Int} {t : TFile} {counted : Bool} (hnd : s.login.ndFlag.we = true)
    (hfile : namedFile 3 buf = some f) (hgot : gotFile s f = some (t, counted)) :
    (GOT config env buf s).2 = (recorded config env buf s t).2 ∧
      SameSpool (removeFromSpool config env t.flo (some t.path) t.action
        { s with disk := (recorded config env buf s t).1 }) (GOT config env buf s).1 := by
  unfold GOT
  rcases namedFile_three buf with ⟨name, size, time, rest, hparse, hnamed⟩ | ⟨hparse, hnamed⟩
  · rw [hnamed] at hfile
    obtain rfl := Option.some.inj hfile
    rw [hparse]
    dsimp only
    have hplain : ¬ (s.login.nrFlag.we = true ∧ (!s.login.ndFlag.we) = true) := by simp [hnd]
    simp only [if_neg hplain]
    by_cases hout : tfileEq s.tx.out name (toSigned64 (strtoumax size)) (safeAtol time) = true
    · have hout' : s.tx.out.Named (name, toSigned64 (strtoumax size), safeAtol time) := hout
      rw [gotFile, if_pos hout'] at hgot
      rw [if_pos hout]
      obtain ⟨rfl, -⟩ := Prod.mk.inj (Option.some.inj hgot)
      refine ⟨rfl, ?_⟩
      refine SameSpool.trans (SameSpool.remove ?_ _ _ _) ⟨rfl, rfl, rfl⟩
      exact ⟨rfl, rfl, rfl⟩
    · have hout' : ¬ s.tx.out.Named (name, toSigned64 (strtoumax size), safeAtol time) := hout
      rw [gotFile, if_neg hout'] at hgot
      rw [if_neg hout]
      obtain ⟨n, hn, heq⟩ := Option.map_eq_some_iff.mp hgot
      obtain ⟨rfl, -⟩ := Prod.mk.inj heq
      have hclear : (s.tx.offReqSent || !s.login.ndFlag.we) = s.tx.offReqSent := by simp [hnd]
      unfold sentIndex at hn
      rw [hn]
      refine ⟨?_, ?_⟩
      · unfold gotSent gotStatus recorded
        dsimp only
        rw [hclear]
      · unfold gotSent gotStatus recorded
        dsimp only
        rw [hclear]
        refine SameSpool.trans (SameSpool.remove ?_ _ _ _) ⟨rfl, rfl, rfl⟩
        exact ⟨rfl, rfl, rfl⟩
  · rw [hnamed] at hfile
    contradiction

/-- **Status before removal** holds for an `M_GOT` in ND mode exactly if the status is recorded,
or there is nothing to remove. -/
theorem status_before_removal (config : BinkdConfig) (env : Env) (buf : List Byte) (s : State)
    (f : Str × Int × Int) (t : TFile) (counted : Bool) (hnd : s.login.ndFlag.we = true)
    (hfile : namedFile 3 buf = some f) (hgot : gotFile s f = some (t, counted)) :
    ((recorded config env buf s t).2 = false → (GOT config env buf s).2 = false ∧
      SameSpool { s with disk := (recorded config env buf s t).1 } (GOT config env buf s).1) ↔
    ((recorded config env buf s t).2 = true ∨
      NothingToRemove config env t { s with disk := (recorded config env buf s t).1 }) := by
  obtain ⟨hresult, hspool⟩ := @GOT_removes config env s buf f t counted hnd hfile hgot
  constructor
  · intro hkept
    by_cases hrec : (recorded config env buf s t).2 = true
    · exact .inl hrec
    · exact .inr ((hkept (Bool.eq_false_iff.mpr hrec)).2.trans hspool.symm)
  · rintro (hrec | hnothing) hfailed
    · rw [hrec] at hfailed
      contradiction
    · exact ⟨hresult.trans hfailed, hnothing.trans hspool⟩

/-- The remote asks for ND mode and for the first file of its flow file from the beginning; the
file has been sent when the run ends. -/
def ndRun : List Input :=
  Input.message {} M_NUL (str "OPT ND") ++ Input.message {} M_ADR (str "2:5020/1") ++
    Input.message {} M_PWD (str "-") ++
    List.replicate 3 ⟨{}, .ready none (some (.sent 10000))⟩ ++ Input.message {} M_GET (str "a 1 0 0") ++
    List.replicate 3 ⟨{}, .ready none (some (.sent 10000))⟩

/-- The session at the end of `ndRun`. -/
def ndState : State := after (iterate (fidoConfig [])) ndRun spoolStart

/-- No file can be opened for writing. -/
def readOnlyEnv : Env where
  fault
    | .openW _ => some .acces
    | _ => none

/-- The file that the remote has got. -/
def ndFile : TFile := ndState.tx.sentFls.getD 0 TFile.zero

/-- The status cannot be written, and the line of the file is marked in the flow file: the file
that the session was dropped for is never sent again. -/
theorem removed_without_status : ∃ s,
    Run (iterate (fidoConfig [])) (fun _ _ => True) spoolStart s true ∧ s.login.ndFlag.we = true ∧
    namedFile 3 (str "a 1 0") = some (str "a", 1, 0) ∧ gotFile s (str "a", 1, 0) = some (ndFile, true) ∧
    (recorded (fidoConfig []) readOnlyEnv (str "a 1 0") s ndFile).2 = false ∧
    (s.disk.lookup ndFile.flo).map (·.bytes) = some (str "/f/a\n/f/b\n") ∧
    ((GOT (fidoConfig []) readOnlyEnv (str "a 1 0") s).1.disk.lookup ndFile.flo).map (·.bytes) =
      some (str "~f/a\n/f/b\n") := by
  have hrun : Allowed (iterate (fidoConfig [])) (fun _ _ => True) ndRun spoolStart := by decide +kernel
  have run := Run.of_inputs hrun
  exact ⟨ndState, run, by decide +kernel⟩

/-- The same `M_GOT` where the status can be written. -/
theorem status_before_removal_written :
    (recorded (fidoConfig []) {} (str "a 1 0") ndState ndFile).2 = true ∧
    ((recorded (fidoConfig []) {} (str "a 1 0") ndState ndFile).2 = false →
      (GOT (fidoConfig []) {} (str "a 1 0") ndState).2 = false ∧
      SameSpool { ndState with disk := (recorded (fidoConfig []) {} (str "a 1 0") ndState ndFile).1 }
        (GOT (fidoConfig []) {} (str "a 1 0") ndState).1) := by
  have hrecorded : (recorded (fidoConfig []) {} (str "a 1 0") ndState ndFile).2 = true := by decide +kernel
  exact ⟨hrecorded, (status_before_removal (fidoConfig []) {} (str "a 1 0") ndState (str "a", 1, 0) ndFile true
    (by decide +kernel) (by decide +kernel) (by decide +kernel)).mpr (.inl hrecorded)⟩

end Binkd
