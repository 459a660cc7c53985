import Binkd.BeforeLogin

/-!
# The file that an accepted `M_FILE` opens

`find_tmp_name` finds the temporary files of a file by their header, or makes a pair with
such a header (`findTmpName_headed`).  An `M_FILE` that `start_file_recv` accepts continues
the file being received if only the name is the same, whatever size and time it gives, and
cuts a long name: apart from that, the record has the arguments of the message, and the
open file is the temporary file of that very file (`accepted_file`).
-/

namespace Binkd

open Lib

variable {config : BinkdConfig} {env : Env} {s s' : State}

/-! ### Headers -/

/-- Name, size and time of a file. -/
def TFile.key (t : TFile) : Str × Int × Int := (t.netname, t.size, t.time)

/-- A header says whose the temporary files are: a file (`find_tmp_name` leaves out the lowest
bit of its time) of an address of the remote. -/
inductive Header (config : BinkdConfig) (env : Env) (fa : List FtnAddr) (nfa : ℕ) (file : Str × Int × Int)
    (hr : Str) (disk : Disk) : Prop
  | found (info : HrInfo) (a : FtnAddr) (hread : readHr env disk hr = some (some (some info)))
      (hname : info.netname = file.1) (hsize : toSigned64 (strtoumax info.size) = file.2.1)
      (htime : evenTime (safeAtol info.time) = evenTime file.2.2)
      (hsender : ∃ sender, parseFtnaddress info.sender config.pDomains = some sender ∧
        ftnaddressCmp sender a = 0)
      (hours : a ∈ fa.take nfa)
  | created (f : FileInfo) (hmade : disk.lookup hr = some f)
      (hline : f.bytes = hrLine { netname := file.1, size := file.2.1, time := file.2.2 } fa.head?)

/-- The name of a temporary file with such a header. -/
def Headed (config : BinkdConfig) (env : Env) (fa : List FtnAddr) (nfa : ℕ) (file : Str × Int × Int)
    (path : Str) (disk : Disk) : Prop :=
  ∃ hr, path = setExt hr (str ".dt") ∧ Header config env fa nfa file hr disk

/-- The header that has been written. -/
theorem creatTmpName_line {file : TFile} {dir path : Str} {fuel k : ℕ}
    (h : creatTmpName env file dir fuel k s = some (path, s')) :
    ∃ f, s'.disk.lookup path = some f ∧ f.bytes = hrLine file s.login.fa.head? := by
  induction fuel generalizing k with
  | zero => simp [creatTmpName] at h
  | succ fuel ih =>
    rw [creatTmpName] at h
    dsimp only at h
    split at h
    · exact ih h
    · next disk _ =>
      split_ifs at h with hok
      obtain ⟨rfl, rfl⟩ := Prod.mk.inj (Option.some.inj h)
      unfold Disk.rewrite at hok ⊢
      split_ifs at hok ⊢
      exact ⟨_, AList.lookup_insert _, rfl⟩

theorem creatTmpName_created {file : TFile} {dir : Str} {fuel k : ℕ} {path : Str}
    (h : creatTmpName env file dir fuel k s = some (path, s')) :
    Header config env s.login.fa s.login.nfa file.key path s'.disk := by
  obtain ⟨f, hmade, hline⟩ := creatTmpName_line h
  exact .created f hmade hline

/-- What a header that ends the search says. -/
structure Takes (config : BinkdConfig) (env : Env) (file : TFile) (path : Str) (s : State)
    (hr : HrInfo) (i : ℕ) : Prop where
  read : readHr env s.disk path = some (some (some hr))
  name : hr.netname = file.netname
  size : file.size = toSigned64 (strtoumax hr.size)
  time : evenTime file.time = evenTime (safeAtol hr.time)
  sender : senderIndex config hr.sender s = some i
  ours : i < s.login.fa.length

/-- A header ends the search for its file only: with its temporary file, or with none if the address
is busy. -/
theorem findTmp1_takes {file : TFile} {path : Str} {r : FindTmp}
    (h : findTmp1 config env (some file) path s = (some r, s')) :
    ∃ hr i, Takes config env file path s hr i ∧ s' = s ∧
      r = if i ≥ s.login.nfa then .failed else .found (setExt path (str ".dt")) := by
  unfold findTmp1 at h
  dsimp only at h
  split at h
  · simp at h
  · simp at h
  · simp at h
  · next hr hread =>
    split at h
    · next i hi =>
      by_cases hname : hr.netname = file.netname
      · rw [if_pos hname] at h
        by_cases hkey : file.size = toSigned64 (strtoumax hr.size) ∧
            evenTime file.time = evenTime (safeAtol hr.time) ∧ i < s.login.fa.length
        · rw [if_pos hkey] at h
          refine ⟨hr, i, ⟨hread, hname, hkey.1, hkey.2.1, hi, hkey.2.2⟩, ?_⟩
          split_ifs at h ⊢
          · obtain ⟨hr, rfl⟩ := Prod.mk.inj h
            exact ⟨rfl, (Option.some.inj hr).symm⟩
          · obtain ⟨hr, rfl⟩ := Prod.mk.inj h
            exact ⟨rfl, (Option.some.inj hr).symm⟩
        · rw [if_neg hkey] at h
          split_ifs at h
          · simp at h
          · simp at h
      · rw [if_neg hname] at h
        simp at h
    · simp at h

theorem findTmp1_found {file : TFile} {hr path : Str}
    (h : findTmp1 config env (some file) hr s = (some (.found path), s')) :
    path = setExt hr (str ".dt") ∧ Header config env s.login.fa s.login.nfa file.key hr s'.disk := by
  obtain ⟨info, i, htakes, rfl, hr⟩ := findTmp1_takes h
  split_ifs at hr with hbusy
  refine ⟨FindTmp.found.inj hr, ?_⟩
  obtain ⟨sender, hsender, rfl⟩ := Option.map_eq_some_iff.mp htakes.sender
  have hlt := htakes.ours
  have hcmp := List.findIdx_getElem (w := hlt)
  refine .found info _ htakes.read htakes.name htakes.size.symm htakes.time.symm
    ⟨sender, hsender, of_decide_eq_true hcmp⟩ (List.mem_take_iff_getElem.mpr ⟨_, ?_, rfl⟩)
  exact lt_min (not_le.mp hbusy) hlt

theorem findTmp1_result {file : TFile} {hr : Str} {r : FindTmp}
    (h : findTmp1 config env (some file) hr s = (some r, s')) :
    r = .failed ∨ ∃ path, r = .found path := by
  obtain ⟨-, i, -, -, rfl⟩ := findTmp1_takes h
  split_ifs
  · exact .inl rfl
  · exact .inr ⟨_, rfl⟩

/-- The temporary file that a search ends with. -/
def FindTmp.path : FindTmp → Option Str
  | .failed => none
  | .found path => some path
  | .created path => some path

theorem findTmpLoop_headed {file : TFile} {dir : Str} {names : List Str} {r : FindTmp} {path : Str}
    (h : findTmpLoop config env (some file) dir names s = (some r, s')) (hpath : r.path = some path) :
    Headed config env s.login.fa s.login.nfa file.key path s'.disk := by
  induction names generalizing s with
  | nil => simp [findTmpLoop] at h
  | cons name names ih =>
    rw [findTmpLoop] at h
    split_ifs at h
    · split at h
      · next r1 s1 heq =>
        obtain ⟨hr, rfl⟩ := Prod.mk.inj h
        obtain rfl := Option.some.inj hr
        rcases findTmp1_result heq with rfl | ⟨p, rfl⟩
        · contradiction
        · obtain rfl := Option.some.inj hpath
          exact ⟨_, findTmp1_found heq⟩
      · next s1 heq =>
        have hframe := findTmp1_frame config env (some file)
          ((withSeparator dir ++ name).take (maxPathLen - 1)) s
        rw [heq] at hframe
        rw [← hframe.login]
        exact ih h
    · exact ih h

/-- **What `find_tmp_name` returns has a header** that names the file and an address of the remote. -/
theorem findTmpName_headed {file : TFile} {r : FindTmp} {path : Str}
    (h : findTmpName config env (some file) s = (r, s')) (hpath : r.path = some path) :
    Headed config env s.login.fa s.login.nfa file.key path s'.disk := by
  unfold findTmpName at h
  dsimp only at h
  split at h
  · obtain ⟨rfl, rfl⟩ := Prod.mk.inj h
    contradiction
  · next names _ =>
    have hframe := findTmpLoop_frame config env (some file) (tmpDir config s) names s
    split at h
    · next r1 s1 heq =>
      obtain ⟨rfl, rfl⟩ := Prod.mk.inj h
      exact findTmpLoop_headed heq hpath
    · next s1 heq =>
      rw [heq] at hframe
      split at h
      · next hr s2 heq2 =>
        obtain ⟨rfl, rfl⟩ := Prod.mk.inj h
        obtain rfl := Option.some.inj hpath
        rw [← hframe.login]
        exact ⟨hr, rfl, creatTmpName_created heq2⟩
      · obtain ⟨rfl, rfl⟩ := Prod.mk.inj h
        contradiction

/-! ### Opening -/

/-- The two disks differ in one file at most. -/
def SameBut (path : Str) (disk disk' : Disk) : Prop := ∀ p, p ≠ path → disk'.lookup p = disk.lookup p

theorem SameBut.refl (path : Str) (disk : Disk) : SameBut path disk disk := fun _ _ => rfl

theorem SameBut.trans {path : Str} {a b c : Disk} (h : SameBut path a b) (h' : SameBut path b c) :
    SameBut path a c :=
  fun p hp => (h' p hp).trans (h p hp)

theorem SameBut.insert (path : Str) (disk : Disk) (f : FileInfo) :
    SameBut path disk (disk.insert path f) :=
  fun _ hp => AList.lookup_insert_ne hp

theorem SameBut.delete (env : Env) (path : Str) (disk : Disk) :
    SameBut path disk (disk.delete env path).1 := by
  unfold Disk.delete
  split_ifs
  · exact .refl path disk
  · exact fun _ hp => AList.lookup_erase_ne hp

theorem SameBut.truncFile (env : Env) (path : Str) (disk : Disk) :
    SameBut path disk (disk.truncFile env path).1 := by
  unfold Disk.truncFile
  split
  · split_ifs
    · exact .refl path disk
    · exact .insert path disk _
  · exact .refl path disk

/-- Opening a data file touches no other file. -/
theorem inbOpenDt_opened {buf : Str} {fuel : ℕ} {h : Handle}
    (hopen : inbOpenDt config env buf fuel s = (some h, s')) :
    h.path = buf ∧ SameBut buf s.disk s'.disk := by
  induction fuel generalizing s with
  | zero => simp [inbOpenDt] at hopen
  | succ fuel ih =>
    rw [inbOpenDt] at hopen
    dsimp only at hopen
    split_ifs at hopen
    · simp at hopen
    · have htrunc := SameBut.truncFile env buf
        (s.disk.insert buf ((s.disk.lookup buf).getD { mtime := env.now }))
      split at hopen
      · next disk heq =>
        rw [heq] at htrunc
        obtain ⟨hpath, hsame⟩ := ih hopen
        exact ⟨hpath, ((SameBut.insert buf s.disk _).trans htrunc).trans hsame⟩
      · next disk heq =>
        rw [heq] at htrunc
        have hdelete := SameBut.delete env buf disk
        split at hopen
        · next disk' heq' =>
          rw [heq'] at hdelete
          obtain ⟨hpath, hsame⟩ := ih hopen
          exact ⟨hpath, (((SameBut.insert buf s.disk _).trans htrunc).trans hdelete).trans hsame⟩
        · simp at hopen
    · obtain ⟨hh, rfl⟩ := Prod.mk.inj hopen
      obtain rfl := Option.some.inj hh
      exact ⟨rfl, .insert buf s.disk _⟩
    · simp at hopen

/-- The temporary file of a file: it has a header, and nothing but the file itself has changed since. -/
def TmpFile (config : BinkdConfig) (env : Env) (fa : List FtnAddr) (nfa : ℕ) (file : Str × Int × Int)
    (path : Str) (disk : Disk) : Prop :=
  ∃ before, Headed config env fa nfa file path before ∧ SameBut path before disk

theorem inbFopen_tmpFile {h : Handle} (hopen : inbFopen config env s = (some h, s')) :
    TmpFile config env s.login.fa s.login.nfa s.rx.inf.key h.path s'.disk := by
  have hopened : ∀ {r : FindTmp} {path : Str} {s1 : State},
    findTmpName config env (some s.rx.inf) s = (r, s1) →
      r.path = some path → inbOpenDt config env path 3 s1 = (some h, s') →
      TmpFile config env s.login.fa s.login.nfa s.rx.inf.key h.path s'.disk := by
    intro r path s1 hfind hpath hdt
    obtain ⟨rfl, hsame⟩ := inbOpenDt_opened hdt
    exact ⟨s1.disk, findTmpName_headed hfind hpath, hsame⟩
  unfold inbFopen at hopen
  split at hopen
  · simp at hopen
  · next path s1 heq => exact hopened heq rfl hopen
  · next path s1 heq => exact hopened heq rfl hopen

theorem openIn_opened (hopen : openIn config env s = .opened s') :
    (s.rx.inf.f.isSome ∧ s' = s) ∨
    (s.rx.inf.f = none ∧ ∃ h, s'.rx.inf = { s.rx.inf with f := some h } ∧ s'.login = s.login ∧
      TmpFile config env s.login.fa s.login.nfa s.rx.inf.key h.path s'.disk) := by
  unfold openIn at hopen
  split at hopen
  · next hsome => exact .inl ⟨hsome, (OpenStep.opened.inj hopen).symm⟩
  · next hnone =>
    split at hopen
    · contradiction
    · split_ifs at hopen
      have hframe := inbFopen_frame config env s
      split at hopen
      · contradiction
      · next h s1 heq =>
        obtain rfl := OpenStep.opened.inj hopen
        rw [heq] at hframe
        have htmp := inbFopen_tmpFile heq
        refine .inr ⟨by simpa using hnone, h, ?_, hframe.login, htmp⟩
        dsimp only
        rw [hframe.rx]

/-- A message that is answered opens nothing. -/
theorem openIn_answered (hanswer : openIn config env s = .answered s') : s'.rx.inf.f = none := by
  unfold openIn at hanswer
  split at hanswer
  · contradiction
  · next hnone =>
    have hnone : s.rx.inf.f = none := by simpa using hnone
    split at hanswer
    · obtain rfl := OpenStep.answered.inj hanswer
      exact hnone
    · split_ifs at hanswer
      · obtain rfl := OpenStep.answered.inj hanswer
        exact hnone
      · obtain rfl := OpenStep.answered.inj hanswer
        rfl
      · split at hanswer
        · obtain rfl := OpenStep.answered.inj hanswer
          rfl
        · contradiction

/-- A message that is accepted leaves the open file as it is. -/
theorem acceptIn_accepts {offReq : Bool} {offset : Int} {extras : List Str} {pos : ℕ}
    (haccept : acceptIn env offReq offset extras pos s = (s', true)) (hopen : s'.rx.inf.f.isSome) :
    s'.rx.inf = s.rx.inf ∧ s'.disk = s.disk := by
  have hcount : ∀ z : ZFlag, (if offset ≠ 0 ∨ s.login.nrFlag.they then
      { s with rx := { s.rx with getFileBalance := s.rx.getFileBalance - 1 } } else s).rx.inf = s.rx.inf ∧
      (if offset ≠ 0 ∨ s.login.nrFlag.they then
      { s with rx := { s.rx with getFileBalance := s.rx.getFileBalance - 1 } } else s).disk = s.disk := by
    intro _
    split_ifs <;> exact ⟨rfl, rfl⟩
  unfold acceptIn at haccept
  by_cases hget : offReq ∨ offset ≠ pos
  · rw [if_pos hget] at haccept
    obtain ⟨rfl, -⟩ := Prod.mk.inj haccept
    simp [TFile.zero] at hopen
  · rw [if_neg hget] at haccept
    dsimp only at haccept
    have hinf := hcount {}
    generalize (if offset ≠ 0 ∨ s.login.nrFlag.they then
      { s with rx := { s.rx with getFileBalance := s.rx.getFileBalance - 1 } } else s) = s1 at hinf haccept
    split_ifs at haccept
    · simp at haccept
    · split at haccept
      · obtain ⟨rfl, -⟩ := Prod.mk.inj haccept
        exact hinf
      · obtain ⟨rfl, -⟩ := Prod.mk.inj haccept
        exact hinf

theorem inbEvents_inf (config : BinkdConfig) (env : Env) (real : Str) (s : State) :
    (inbEvents config env real s).rx.inf = s.rx.inf := by
  have htest := evtTest_frame config env real s
  unfold inbEvents
  split
  · next s1 heq =>
    rw [heq] at htest
    obtain ⟨_, _, hr⟩ := htest.rx
    obtain ⟨_, _, hr'⟩ := (evtRun_frame config env real (s1.login.delayEob > 0) (s1.tx.q, s1)).rx
    dsimp only at hr hr' ⊢
    rw [hr', hr]
  · next s1 heq =>
    rw [heq] at htest
    obtain ⟨_, _, hr⟩ := htest.rx
    dsimp only at hr
    rw [hr]

/-- Renaming a complete file does not touch the record of the one being received. -/
theorem inCompleteDone_inf (config : BinkdConfig) (env : Env) (s : State) :
    (inCompleteDone config env s).1.rx.inf = s.rx.inf := by
  have hdone : ∀ file, (inbDone config env file s).1.rx.inf = s.rx.inf := by
    intro file
    have hfind := findTmpName_frame config env (some file) s
    unfold inbDone
    split
    · next tmpName s1 heq =>
      rw [heq] at hfind
      split
      · dsimp only
        rw [hfind.rx]
      · dsimp only
        split_ifs
        all_goals first | rw [inbEvents_inf, hfind.rx] | rw [hfind.rx]
    · next s1 _ heq =>
      rw [heq] at hfind
      rw [hfind.rx]
  unfold inCompleteDone
  split_ifs
  · have hinf := hdone s.rx.inComplete
    split
    · next s1 heq =>
      rw [heq] at hinf
      exact hinf
    · next s1 heq =>
      rw [heq] at hinf
      exact hinf
  · rfl

/-! ### `start_file_recv` -/

/-- Another file than the one being received is closed first. -/
theorem startFileRecv_closes (config : BinkdConfig) (env : Env) (s : State) (name : Str) :
    ∃ s1, (if (zRecvStop s).rx.inf.f.isSome ∧ name ≠ (zRecvStop s).rx.inf.netname
      then closePartial config env (zRecvStop s) else zRecvStop s) = s1 ∧ RecvFrame s s1 ∧
      ((s.rx.inf.f.isSome ∧ name = s.rx.inf.netname ∧ s1.rx.inf = s.rx.inf) ∨
        (¬ (s.rx.inf.f.isSome ∧ name = s.rx.inf.netname) ∧ s1.rx.inf.f = none)) := by
  refine ⟨_, rfl, ?_⟩
  have hstop := zRecvStop_frame s
  by_cases hf : s.rx.inf.f.isSome
  · by_cases hname : name = s.rx.inf.netname
    · rw [if_neg fun hne => hne.2 hname]
      exact ⟨hstop, .inl ⟨hf, hname, rfl⟩⟩
    · rw [if_pos ⟨hf, hname⟩]
      refine ⟨hstop.trans (closePartial_frame config env _), .inr ⟨fun heq => hname heq.2, ?_⟩⟩
      unfold closePartial
      split <;> rfl
  · rw [if_neg fun hne => hf hne.1]
    have hnone : s.rx.inf.f = none := by simpa using hf
    exact ⟨hstop, .inr ⟨fun heq => hf heq.1, hnone⟩⟩

/-- A new record is made where no file is open. -/
theorem newIn_cases (env : Env) (name size time : Str) (s : State) :
    (s.rx.inf.f.isSome ∧ (newIn env name size time s).rx.inf = s.rx.inf) ∨
    (s.rx.inf.f = none ∧ (newIn env name size time s).rx.inf.f = none ∧
      (newIn env name size time s).rx.inf.key =
        (name.take (maxNetname - 1), toSigned64 (strtoumax size), safeAtol time)) := by
  unfold newIn
  split_ifs with hf
  · exact .inl ⟨hf, rfl⟩
  · have hf : s.rx.inf.f = none := by simpa using hf
    exact .inr ⟨hf, hf, rfl⟩

/-- A message that goes on with the open file leaves its record; any other one makes a new record
with the name as long as it fits, and opens the temporary file of that record. -/
theorem startFileRecv_accepts {buf : List Byte} {r : State} {h : Handle} {f : Str × Int × Int}
    (hfile : namedFile 4 buf = some f) (haccept : startFileRecv config env buf s = (r, true))
    (hopen : r.rx.inf.f = some h) :
    (s.rx.inf.f.isSome ∧ f.1 = s.rx.inf.netname ∧ r.rx.inf = s.rx.inf) ∨
    (¬ (s.rx.inf.f.isSome ∧ f.1 = s.rx.inf.netname) ∧ r.rx.inf.key = (f.1.take (maxNetname - 1), f.2) ∧
      TmpFile config env s.login.fa s.login.nfa r.rx.inf.key h.path r.disk) := by
  have hsome : r.rx.inf.f.isSome := by rw [hopen]; rfl
  unfold startFileRecv at haccept
  split at haccept
  · next name size time off rest hparse =>
    have hf : (name, toSigned64 (strtoumax size), safeAtol time) = f := by
      rw [namedFile, hparse] at hfile
      exact Option.some.inj hfile
    obtain rfl := hf
    dsimp only at haccept ⊢
    obtain ⟨s1, heq1, hframe1, hcases⟩ := startFileRecv_closes config env s name
    rw [heq1] at haccept
    have hdone := inCompleteDone_inf config env s1
    have hframe2 := inCompleteDone_frame config env s1
    split at haccept
    · simp at haccept
    · next s2 heq2 =>
      rw [heq2] at hdone hframe2
      dsimp only at hdone hframe2
      have hframe := (hframe1.trans hframe2).trans (newIn_frame env name size time s2)
      have hnew := newIn_cases env name size time s2
      generalize newIn env name size time s2 = s3 at haccept hframe hnew
      have hoff : ∃ s4, (if decide (off = str "-1") = true then { s3 with login := { s3.login with
          nrFlag := { s3.login.nrFlag with they := true } } } else s3) = s4 ∧ s4.rx = s3.rx ∧
          s4.login.fa = s.login.fa ∧ s4.login.nfa = s.login.nfa := by
        obtain ⟨d, t, hlogin⟩ := hframe.login
        refine ⟨_, rfl, ?_⟩
        split_ifs
        · exact ⟨rfl, by rw [hlogin], by rw [hlogin]⟩
        · exact ⟨rfl, by rw [hlogin], by rw [hlogin]⟩
      obtain ⟨s4, heq4, hrx4, hfa4, hnfa4⟩ := hoff
      rw [heq4] at haccept
      split at haccept
      · next s5 heq5 =>
        obtain ⟨rfl, -⟩ := Prod.mk.inj haccept
        rw [openIn_answered heq5] at hopen
        contradiction
      · next s5 heq5 =>
        obtain ⟨hinf, hdisk⟩ := acceptIn_accepts haccept hsome
        rcases hcases with ⟨hf, hname, hinf1⟩ | ⟨hother, hnone1⟩
        · -- the file goes on
          refine .inl ⟨hf, hname, ?_⟩
          have hf2 : s2.rx.inf.f.isSome := by rw [hdone, hinf1]; exact hf
          rcases hnew with ⟨-, hinf3⟩ | ⟨hnone2, -⟩
          · rcases openIn_opened heq5 with ⟨-, rfl⟩ | ⟨hnone4, -⟩
            · rw [hinf, hrx4, hinf3, hdone, hinf1]
            · rw [hrx4, hinf3] at hnone4
              simp [hnone4] at hf2
          · simp [hnone2] at hf2
        · refine .inr ⟨hother, ?_⟩
          rcases hnew with ⟨hf2, -⟩ | ⟨-, hnone3, hkey3⟩
          · rw [hdone, hnone1] at hf2
            contradiction
          · rcases openIn_opened heq5 with ⟨hf4, -⟩ | ⟨-, g, hinf5, -, htmp⟩
            · rw [hrx4, hnone3] at hf4
              contradiction
            · rw [hinf, hinf5] at hopen
              obtain rfl := Option.some.inj hopen
              have hkey : r.rx.inf.key = s4.rx.inf.key := by rw [hinf, hinf5]; rfl
              rw [hkey, hdisk]
              refine ⟨?_, ?_⟩
              · rw [hrx4]
                exact hkey3
              · rw [← hfa4, ← hnfa4]
                exact htmp
  · simp [cannotParse] at haccept

/-- The record is that of the named file, and the open file is its temporary file: it was being
received already, or the file has the header of it. -/
structure Receives (config : BinkdConfig) (env : Env) (s r : State) (f : Str × Int × Int) (h : Handle) :
    Prop where
  record : r.rx.inf.key = f
  tmp : (s.rx.inf.f = some h ∧ s.rx.inf.key = f) ∨
    TmpFile config env s.login.fa s.login.nfa f h.path r.disk

/-- The file being received is another one or the very file of the message, and the name of
another one is not cut. -/
def SameFile (s : State) (f : Str × Int × Int) : Prop :=
  if s.rx.inf.f.isSome ∧ f.1 = s.rx.inf.netname then s.rx.inf.key = f else f.1.length < maxNetname

instance (s : State) (f : Str × Int × Int) : Decidable (SameFile s f) :=
  inferInstanceAs (Decidable (if s.rx.inf.f.isSome ∧ f.1 = s.rx.inf.netname then s.rx.inf.key = f
    else f.1.length < maxNetname))

/-- **What an accepted `M_FILE` opens** is the file that it names exactly if it does not go on
with another file of that name, and the name fits. -/
theorem accepted_file (config : BinkdConfig) (env : Env) (buf : List Byte) (s r : State) (h : Handle)
    (f : Str × Int × Int) (hfile : namedFile 4 buf = some f)
    (haccept : startFileRecv config env buf s = (r, true)) (hopen : r.rx.inf.f = some h) :
    Receives config env s r f h ↔ SameFile s f := by
  unfold SameFile
  rcases startFileRecv_accepts hfile haccept hopen with ⟨hf, hname, hinf⟩ | ⟨hother, hkey, htmp⟩
  · rw [if_pos ⟨hf, hname⟩]
    rw [hinf] at hopen
    constructor
    · intro hrecv
      rw [← hinf]
      exact hrecv.record
    · intro hsame
      exact ⟨by rw [hinf, hsame], .inl ⟨hopen, hsame⟩⟩
  · rw [if_neg hother]
    have hcut : f.1.take (maxNetname - 1) = f.1 ↔ f.1.length < maxNetname := by
      rw [List.take_eq_self_iff]
      unfold maxNetname
      omega
    constructor
    · intro hrecv
      rw [← hcut]
      exact congrArg Prod.fst (hkey.symm.trans hrecv.record)
    · intro hshort
      have hkey : r.rx.inf.key = f := by rw [hkey, hcut.mpr hshort]
      rw [hkey] at htmp
      exact ⟨hkey, .inr htmp⟩

/-- The remote has given its address. -/
def knownRemote : State := after (iterate inboundConfig) (Input.message {} M_ADR (str "2:5020/1")) inboundStart

/-- What `start_file_recv` makes of an `M_FILE`. -/
def fileMessage (text : Str) (s : State) : State := (startFileRecv inboundConfig {} text s).1

/-- A file of two bytes goes on with one of the same name that has one byte. -/
theorem other_size_continued : ∃ s, Reachable inboundConfig (fun _ _ => True) inboundStart s true ∧
    namedFile 4 (str "a 2 0 0") = some (str "a", 2, 0) ∧ ∃ r h,
      startFileRecv inboundConfig {} (str "a 2 0 0") s = (r, true) ∧ r.rx.inf.f = some h ∧
      ¬ Receives inboundConfig {} s r (str "a", 2, 0) h := by
  have hrun : Allowed (iterate inboundConfig) (fun _ _ => True)
      (Input.message {} M_ADR (str "2:5020/1") ++ Input.message {} M_FILE (str "a 1 0 0")) inboundStart := by
    decide +kernel
  have run := Run.of_inputs hrun
  refine ⟨_, run, by decide +kernel, _, ⟨str "/n/00000000.dt", [], 0⟩, Prod.ext rfl ?_, ?_, fun h => ?_⟩
  · decide +kernel
  · decide +kernel
  · have hsize := congrArg (fun k => k.2.1) h.record
    revert hsize
    decide +kernel

theorem accepted_file_new : ∃ h, (fileMessage (str "a 1 0 0") knownRemote).rx.inf.f = some h ∧
    Receives inboundConfig {} knownRemote (fileMessage (str "a 1 0 0") knownRemote)
    (str "a", 1, 0) h := by
  have haccept : startFileRecv inboundConfig {} (str "a 1 0 0") knownRemote =
      (fileMessage (str "a 1 0 0") knownRemote, true) := Prod.ext rfl (by decide +kernel)
  have hopen : (fileMessage (str "a 1 0 0") knownRemote).rx.inf.f = some ⟨str "/n/00000000.dt", [], 0⟩ := by
    decide +kernel
  refine ⟨_, hopen, ?_⟩
  exact (accepted_file inboundConfig {} (str "a 1 0 0") knownRemote _ _ (str "a", 1, 0) (by decide +kernel)
    haccept hopen).mpr (by decide +kernel)

end Binkd
