import Binkd.BusyFlags
import Binkd.FailedStore

/-!
# The partial files of other sessions (`find_tmp_name` of `inbound.c`)

A partial file belongs to the address in its header.  Another session may be receiving it
if the address is not one of the active ones, of which this session holds the busy flag.
`find_tmp_name` removes partial files that are old, those of the remote at the end of a
session, and other versions of the file it looks for; in the last two it counts all the
addresses that the remote has presented.
-/

namespace Binkd

open Lib

/-! ### The partial files of others -/

/-- Is the partial file older than `kill-old-partial-files`? -/
def olderPartial (config : BinkdConfig) (env : Env) (path : Str) (s : State) : Bool :=
  config.killOldPartialFiles ≠ 0 && match s.disk.stat env path with
    | none => false
    | some sd => env.now - ((s.disk.stat env (setExt path (str ".dt"))).getD sd).mtime > config.killOldPartialFiles

/-- A partial file that is not old, of an address that is not one of the active ones. -/
def OfOthers (config : BinkdConfig) (env : Env) (path : Str) (s : State) : Prop :=
  ∃ hr fa, readHr env s.disk path = some (some (some hr)) ∧
    parseFtnaddress hr.sender config.pDomains = some fa ∧
    (∀ a ∈ s.login.active, ftnaddressCmp fa a ≠ 0) ∧ olderPartial config env path s = false

/-- The headers that the loop of `find_tmp_name` comes to, each with the state that it finds. -/
def visited (config : BinkdConfig) (env : Env) (file : Option TFile) (dir : Str) : List Str → State →
    List (Str × State)
  | [], _ => []
  | name :: names, s =>
    if isHrName name then
      let path := (withSeparator dir ++ name).take (maxPathLen - 1)
      (path, s) :: match findTmp1 config env file path s with
        | (some _, _) => []
        | (none, s') => visited config env file dir names s'
    else visited config env file dir names s

/-- The headers that a call of `find_tmp_name` comes to. -/
def comesTo (config : BinkdConfig) (env : Env) (file : Option TFile) (s : State) : List (Str × State) :=
  visited config env file (tmpDir config s) ((s.disk.readdir env (tmpDir config s)).getD []) s

/-- Does `find_tmp_name` call `remove_hr` for the header? -/
def Removes (config : BinkdConfig) (env : Env) (file : Option TFile) (path : Str) (s : State) : Prop :=
  (findTmp1 config env file path s).2 = removeHr env path s

/-- The call removes no pair of others.  `remove_hr` removes the pair with the small `.hr`. -/
def SparesOthers (config : BinkdConfig) (env : Env) (file : Option TFile) (s : State) : Prop :=
  ∀ v ∈ comesTo config env file s, Removes config env file v.1 v.2 →
    ¬ OfOthers config env (setExt v.1 (str ".hr")) v.2

/-- Is the partial file one to remove whatever its age?  At the end of a session that skips nothing
it is, and else as another version of the file. -/
def Unwanted (config : BinkdConfig) (file : Option TFile) (hr : HrInfo) (s : State) : Prop :=
  match file with
  | none => s.rx.skipAllFlag = false
  | some file => config.killDupPartialFiles = true ∧ hr.netname = file.netname ∧
      ¬ (file.size = toSigned64 (strtoumax hr.size) ∧ evenTime file.time = evenTime (safeAtol hr.time))

/-- A header of an address that the remote has presented but that is busy: it is removed at the end
of a session that skips nothing, or as another version of the file that is looked for. -/
def BusyPartial (config : BinkdConfig) (env : Env) (file : Option TFile) (path : Str) (s : State) : Prop :=
  ∃ hr i, readHr env s.disk path = some (some (some hr)) ∧ senderIndex config hr.sender s = some i ∧
    s.login.nfa ≤ i ∧ i < s.login.fa.length ∧ olderPartial config env path s = false ∧
      Unwanted config file hr s

theorem removeHr_ne (env : Env) (path : Str) (s : State) : removeHr env path s ≠ s := by
  intro heq
  have hops := congrArg (fun t : State => t.ops.length) heq
  simp [removeHr] at hops

/-- What `to_be_deleted` accepts is old. -/
theorem toBeDeleted_older {size : Int} (h : toBeDeleted config env path size s = true) :
    olderPartial config env path s = true := by
  unfold toBeDeleted at h
  unfold olderPartial
  split_ifs at h with hzero
  cases hstat : s.disk.stat env path with
  | none =>
    rw [hstat] at h
    cases h
  | some sd =>
    rw [hstat] at h
    dsimp only at h ⊢
    cases hdt : s.disk.stat env (setExt path (str ".dt")) with
    | none =>
      rw [hdt] at h
      simpa [hzero] using h
    | some sb =>
      rw [hdt] at h
      simp only [Bool.and_eq_true] at h
      simpa [hzero] using h.2

/-- An index among the active addresses is that of an active one. -/
theorem senderIndex_active {sender : Str} {fa : FtnAddr} (hfa : parseFtnaddress sender config.pDomains = some fa)
    {i : ℕ} (hi : senderIndex config sender s = some i) (hlen : i < s.login.fa.length) (hnfa : i < s.login.nfa) :
    ∃ a ∈ s.login.active, ftnaddressCmp fa a = 0 := by
  rw [senderIndex, hfa] at hi
  obtain rfl := Option.some.inj hi
  have hfound := List.findIdx_getElem (w := hlen)
  refine ⟨_, List.mem_take_iff_getElem.mpr ⟨_, lt_min hnfa hlen, rfl⟩, of_decide_eq_true hfound⟩

/-- An index behind them is that of an address that is none of them. -/
theorem senderIndex_busy {sender : Str} {fa : FtnAddr} (hfa : parseFtnaddress sender config.pDomains = some fa)
    {i : ℕ} (hi : senderIndex config sender s = some i) (hnfa : s.login.nfa ≤ i) :
    ∀ a ∈ s.login.active, ftnaddressCmp fa a ≠ 0 := by
  rw [senderIndex, hfa] at hi
  obtain rfl := Option.some.inj hi
  intro a ha
  obtain ⟨j, hj, rfl⟩ := List.mem_take_iff_getElem.mp ha
  have hno := List.not_of_lt_findIdx (lt_of_lt_of_le (lt_of_lt_of_le hj (min_le_left _ _)) hnfa)
  exact of_decide_eq_false hno

/-- What `find_tmp_name` removes is old, or of an address of the remote. -/
theorem removes_cases (hrem : Removes config env file path s) :
    olderPartial config env path s = true ∨
    ∃ hr i, readHr env s.disk path = some (some (some hr)) ∧ senderIndex config hr.sender s = some i ∧
      i < s.login.fa.length ∧ Unwanted config file hr s := by
  have hold : ∀ size : Int, (if toBeDeleted config env path size s then removeHr env path s else s) = removeHr env path s →
      olderPartial config env path s = true := by
    intro size h
    split_ifs at h with hdel
    · exact toBeDeleted_older hdel
    · exact absurd h.symm (removeHr_ne env path s)
  unfold Removes findTmp1 at hrem
  dsimp only at hrem
  split at hrem
  · exact absurd hrem.symm (removeHr_ne env path s)
  · exact .inl (hold _ hrem)
  · exact .inl (hold _ hrem)
  · next hr hread =>
    cases file with
    | none =>
      dsimp only at hrem
      cases hi : senderIndex config hr.sender s with
      | none =>
        rw [hi] at hrem
        exact absurd hrem.symm (removeHr_ne env path s)
      | some i =>
        rw [hi] at hrem
        dsimp only at hrem
        split_ifs at hrem with hcond
        · have hskip : s.rx.skipAllFlag = false := by simpa using hcond.2
          exact .inr ⟨hr, i, hread, hi, hcond.1, hskip⟩
        · exact absurd hrem.symm (removeHr_ne env path s)
    | some file =>
      dsimp only at hrem
      cases hi : senderIndex config hr.sender s with
      | none =>
        rw [hi] at hrem
        exact .inl (hold _ hrem)
      | some i =>
        rw [hi] at hrem
        dsimp only at hrem
        by_cases hname : hr.netname = file.netname
        · rw [if_pos hname] at hrem
          split_ifs at hrem with hsame hbusy hdup
          · exact absurd hrem.symm (removeHr_ne env path s)
          · exact absurd hrem.symm (removeHr_ne env path s)
          · exact .inr ⟨hr, i, hread, hi, hdup.2, hdup.1, hname, fun h => hsame ⟨h.1, h.2, hdup.2⟩⟩
          · exact absurd hrem.symm (removeHr_ne env path s)
        · rw [if_neg hname] at hrem
          exact .inl (hold _ hrem)

/-- Partial files of busy addresses are removed. -/
theorem BusyPartial.removes (h : BusyPartial config env file path s) :
    Removes config env file path s := by
  obtain ⟨hr, i, hread, hi, -, hlen, -, hmode⟩ := h
  unfold Removes findTmp1
  rw [hread]
  dsimp only
  rw [hi]
  cases file with
  | none =>
    have hskip : s.rx.skipAllFlag = false := hmode
    dsimp only
    rw [if_pos ⟨hlen, by rw [hskip]; rfl⟩]
  | some file =>
    obtain ⟨hdup, hname, hother⟩ := hmode
    dsimp only
    rw [if_pos hname, if_neg (fun hh => hother ⟨hh.1, hh.2.1⟩), if_pos ⟨hdup, hlen⟩]

theorem BusyPartial.ofOthers (h : BusyPartial config env file path s) : OfOthers config env path s := by
  obtain ⟨hr, i, hread, hi, hnfa, -, hyoung, -⟩ := h
  obtain ⟨fa, hfa, -⟩ := Option.map_eq_some_iff.mp hi
  exact ⟨hr, fa, hread, hfa, senderIndex_busy hfa hi hnfa, hyoung⟩

/-- A pair of others is removed exactly where its address is presented and busy. -/
theorem removes_others (hrem : Removes config env file path s) (h : OfOthers config env path s) :
    BusyPartial config env file path s := by
  obtain ⟨hr, fa, hread, hfa, hothers, hyoung⟩ := h
  rcases removes_cases hrem with hold | ⟨hr', i, hread', hi, hlen, hmode⟩
  · rw [hyoung] at hold
    cases hold
  · rw [hread] at hread'
    cases hread'
    refine ⟨hr, i, hread, hi, ?_, hlen, hyoung, hmode⟩
    by_contra hlt
    obtain ⟨a, ha, hcmp⟩ := senderIndex_active hfa hi hlen (by omega)
    exact hothers a ha hcmp

/-! ### A call of `find_tmp_name` -/

/-- A header that puts a pair of others in danger: one of a busy address, or one that is removed and
is not spelled as the header of the pair, which is of others. -/
def Endangers (config : BinkdConfig) (env : Env) (file : Option TFile) (path : Str) (s : State) : Prop :=
  if setExt path (str ".hr") = path then BusyPartial config env file path s
  else Removes config env file path s ∧ OfOthers config env (setExt path (str ".hr")) s

/-- `remove_hr` is called for no pair of others exactly where the header endangers none. -/
theorem endangers_iff : ¬ Endangers config env file path s ↔
    (Removes config env file path s → ¬ OfOthers config env (setExt path (str ".hr")) s) := by
  unfold Endangers
  split_ifs with hsmall
  · rw [hsmall]
    exact ⟨fun hno hrem hothers => hno (removes_others hrem hothers),
      fun himp h => himp h.removes h.ofOthers⟩
  · exact not_and

/-- Two pairs with a file in common are one pair. -/
theorem pair_eq (hp : setExt p (str ".hr") = p) (hpq : InPair p q) (hpath : InPair path q) :
    setExt path (str ".hr") = p := by
  have hsplit : ∀ {u : Str}, InPair u q → ∃ e, q = u.take (u.length - (u.reverse.takeWhile (· != 46)).length - 1) ++ e ∧
      e.length = 3 := by
    rintro u (h | h)
    · exact ⟨str ".dt", h, by decide⟩
    · exact ⟨str ".hr", h, by decide⟩
  obtain ⟨e, he, hlen⟩ := hsplit hpq
  obtain ⟨e', he', hlen'⟩ := hsplit hpath
  have hstem := (List.append_inj' (he'.symm.trans he) (hlen'.trans hlen.symm)).1
  rw [← hp, setExt, setExt, hstem]

/-- What a header and its data say does not depend on the other files. -/
theorem OfOthers.congr (h : OfOthers config env p s) (hhr : s'.disk.lookup p = s.disk.lookup p)
    (hdt : s'.disk.lookup (setExt p (str ".dt")) = s.disk.lookup (setExt p (str ".dt")))
    (hlogin : s'.login = s.login) : OfOthers config env p s' := by
  obtain ⟨hr, fa, hread, hfa, hothers, hyoung⟩ := h
  refine ⟨hr, fa, (readHr_congr hhr).trans hread, hfa, ?_, ?_⟩
  · rw [hlogin]
    exact hothers
  · unfold olderPartial Disk.stat at hyoung ⊢
    rw [hhr, hdt]
    exact hyoung

/-- One header leaves the pair of others. -/
theorem findTmp1_spares (hp : setExt p (str ".hr") = p) (hothers : OfOthers config env p s)
    (hspare : Removes config env file path s → ¬ OfOthers config env (setExt path (str ".hr")) s) :
    DiskFrame s (findTmp1 config env file path s).2 ∧
      ∀ q, InPair p q → (findTmp1 config env file path s).2.disk.lookup q = s.disk.lookup q := by
  rcases findTmp1_state config env file path s with hsame | hrem
  · rw [hsame]
    exact ⟨.refl s, fun _ _ => rfl⟩
  · have hvictim := hspare hrem
    rw [hrem]
    refine ⟨removeHr_frame env path s, fun q hq => ?_⟩
    rcases removeHr_lookup env path q s with hsame | ⟨hpair, -⟩
    · exact hsame
    · rw [pair_eq hp hq hpair] at hvictim
      exact absurd hothers hvictim

/-- The loop leaves the pair of others. -/
theorem findTmpLoop_spares {dir : Str} (hp : setExt p (str ".hr") = p) (names : List Str)
    (hothers : OfOthers config env p s)
    (hspare : ∀ v ∈ visited config env file dir names s,
      Removes config env file v.1 v.2 → ¬ OfOthers config env (setExt v.1 (str ".hr")) v.2) :
    ∀ q, InPair p q → (findTmpLoop config env file dir names s).2.disk.lookup q = s.disk.lookup q := by
  induction names generalizing s with
  | nil => exact fun _ _ => rfl
  | cons name names ih =>
    rw [findTmpLoop]
    rw [visited] at hspare
    by_cases hname : isHrName name = true
    · rw [if_pos hname] at hspare ⊢
      obtain ⟨hframe, hkept⟩ := findTmp1_spares hp hothers (hspare _ List.mem_cons_self)
      have hrest := fun v hv => hspare v (List.mem_cons_of_mem _ hv)
      cases hstep : findTmp1 config env file ((withSeparator dir ++ name).take (maxPathLen - 1)) s with
      | mk r s₁ =>
        rw [hstep] at hframe hkept hrest
        cases r with
        | some r => exact hkept
        | none =>
          have hhr := hkept p (.inr hp.symm)
          have hothers₁ := hothers.congr hhr (hkept _ (.inl rfl)) hframe.login
          intro q hq
          exact (ih hothers₁ hrest q hq).trans (hkept q hq)
    · rw [if_neg hname] at hspare ⊢
      exact ih hothers hspare

/-- **A call of `find_tmp_name`**, whatever it is for, removes no young pair of an address that is
not one of the active ones exactly where it comes to no header that endangers one; and where it
removes none, the files of every such pair are what they were. -/
theorem findTmpName_spares (config : BinkdConfig) (env : Env) (file : Option TFile) (s : State) :
    (SparesOthers config env file s ↔ ∀ v ∈ comesTo config env file s, ¬ Endangers config env file v.1 v.2) ∧
    (SparesOthers config env file s → ∀ p q, setExt p (str ".hr") = p → OfOthers config env p s → InPair p q →
      (s.disk.lookup q).isSome → (findTmpName config env file s).2.disk.lookup q = s.disk.lookup q) := by
  refine ⟨forall₂_congr fun v _ => endangers_iff.symm, fun hspare p q hp hothers hq hsome => ?_⟩
  unfold findTmpName
  unfold SparesOthers comesTo at hspare
  dsimp only
  cases hdir : s.disk.readdir env (tmpDir config s) with
  | none => rfl
  | some names =>
    rw [hdir, Option.getD_some] at hspare
    have hkept := findTmpLoop_spares hp names hothers hspare q hq
    dsimp only
    cases hloop : findTmpLoop config env file (tmpDir config s) names s with
    | mk r s₁ =>
      rw [hloop] at hkept
      dsimp only at hkept
      cases r with
      | some r => exact hkept
      | none =>
        cases file with
        | none => exact hkept
        | some file =>
          dsimp only
          cases hcreat : creatTmpName env file (tmpDir config s) 65536 0 s₁ with
          | none => exact hkept
          | some r => exact (creatTmpName_lookup hcreat (by rw [hkept]; exact hsome)).trans hkept

/-! ### A session with a busy address -/

/-- The address 2:5020/2 is busy, and has a partial file in the inbound. -/
def busyPartialDisk : Disk :=
  (((∅ : Disk).insert (str "/n") { isDir := true }).insert (bsyPath inboundConfig (aka 2)) {}).insert
    (str "/n/00000001.hr") { bytes := str "b 5 0 2:5020/2@fidonet" ++ [10] }

/-- The remote presents the busy address and another one. -/
def busyPresented : State :=
  after (iterate inboundConfig) (Input.message {} M_ADR (str "2:5020/2 2:5020/1"))
    (start inboundConfig {} busyPartialDisk [] [] none none)

/-- At the end of the session the partial file is removed. -/
theorem busyPartial_removed :
    busyPresented.login.active = [aka 1] ∧ OfOthers inboundConfig {}
    (str "/n/00000001.hr") busyPresented ∧
      (busyPresented.disk.lookup (str "/n/00000001.hr")).isSome ∧
      (inbRemovePartial inboundConfig {} busyPresented).disk.lookup (str "/n/00000001.hr") = none := by
  have hactive : busyPresented.login.active = [aka 1] := by decide +kernel
  have hsender : (((readHr {} busyPresented.disk (str "/n/00000001.hr")).bind id).bind id).map (·.sender) =
      some (str "2:5020/2@fidonet") := by decide +kernel
  have hparse : parseFtnaddress (str "2:5020/2@fidonet") inboundConfig.pDomains = some (aka 2) := by decide +kernel
  refine ⟨hactive, ?_, by decide +kernel, by decide +kernel⟩
  rcases hread : readHr {} busyPresented.disk (str "/n/00000001.hr") with _ | _ | _ | hr
  · rw [hread] at hsender
    cases hsender
  · rw [hread] at hsender
    cases hsender
  · rw [hread] at hsender
    cases hsender
  · rw [hread] at hsender
    have hhr : hr.sender = str "2:5020/2@fidonet" := Option.some.inj hsender
    refine ⟨hr, aka 2, hread, by rw [hhr]; exact hparse, ?_, rfl⟩
    rw [hactive]
    intro a ha
    rw [List.mem_singleton.mp ha]
    decide

end Binkd
