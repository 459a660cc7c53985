import Binkd.Ftnq

/-!
# Events for received files (`srif.c`)

A received file may set a flag file, run a command, or, for a command with `*S`,
run a file-request processor whose answers join the queue of the first address of
the remote (`evtRun_fa`).  What a command does to the disk is up to the
environment.
-/

namespace Binkd

/-- `evt_queue`. -/
def evtAppend (eq : List Evtq) (e : Evtq) : List Evtq := if e ∈ eq then eq else e :: eq

/-- `evt_test`: whether some command is to run; flag files are set or queued. -/
def evtTest (config : BinkdConfig) (env : Env) (filename : Str) (s : State) : Bool × State :=
  config.evtFlags.foldl (fun (r : Bool × State) curr =>
    if pmatchNcase curr.pattern filename then
      match curr.path, curr.command with
      | some path, _ =>
        if curr.imm then
          (r.1, { r.2 with disk := match r.2.disk.createEmptySemFile env path with
            | some disk => disk
            | none => r.2.disk.touch env path env.now })
        else (r.1, { r.2 with rx := { r.2.rx with evtQueue := evtAppend r.2.rx.evtQueue ⟨102, path⟩ } })
      | none, some _ => (true, r.2)
      | none, none => r
    else r) (false, s)

/-! ### Commands -/

/-- `valid_filename_chars` and the alphanumeric bytes. -/
def validChar (c : Byte) : Bool := isalnum c || (str ".\\-_:/@").contains c

/-- What stands for a placeholder: the placeholder, its text, and whether it is the
name of the file. -/
def runPlaceholder (s : State) (fn pn : Str) (sp : Str) : Option (Str × Str × Bool) :=
  let active := s.login.fa.take s.login.nfa
  let c := toupper (sp.getD 1 0)
  let d := sp.getD 2 0
  if c = 78 then some (str "*N", fn, true)
  else if c = 70 then some (str "*F", fn, true)
  else if c = 65 then
    if d = 64 ∨ d = 42 then
      some (str "*A" ++ [d], (active.map ftnaddressToStr).intersperse [32] |>.flatten, false)
    else
      let i := if isdigit d then d.toNat - 48 else 0
      let adr := match active[i]? with
        | some a => ftnaddressToStr a
        | none => str "-"
      some (cstr (str "*A" ++ [d]), if isdigit d then adr else cstr (adr ++ [d]), false)
  else if c = 80 then some (str "*P", if s.login.state = .secure then str "1" else str "0", false)
  else if c = 76 then some (str "*L", if s.login.listedFlag ≠ 0 then str "1" else str "0", false)
  else if c = 72 then some (str "*H", pn, false)
  else none

/-- The loop of `run_args` from position `l` of the command line `w`. -/
def runLoop (s : State) (fn pn : Str) : Nat → Nat → Str → Bool → Str × Bool
  | 0, _, w, useFn => (w, useFn)
  | fuel + 1, l, w, useFn =>
    match (w.drop l).dropWhile (· != 42) with
    | [] => (w, useFn)
    | sp =>
      let l := w.length - sp.length
      match runPlaceholder s fn pn sp with
      | none => runLoop s fn pn fuel (l + 1) w useFn
      | some (a, b, isFn) => runLoop s fn pn fuel (l + 1) (ed w a b) (useFn || isFn)

/-- `run_args`: the command line, if it may be executed. -/
def runArgs (s : State) (cmd filename : Str) : Option Str :=
  let bad := !filename.all validChar
  let fn := if bad then str "-" else filename
  let pn := if s.peerName.all validChar && s.peerName ≠ [] then s.peerName else s.ipaddr
  let (w, useFn) := runLoop s fn pn maxPathLen 0 cmd false
  if bad && useFn then none else some w

/-- The files of a response list, with the predictor of each. -/
def responseLines : Nat → List Byte → List Str
  | 0, _ => []
  | fuel + 1, bytes =>
    match fgets maxPathLen bytes with
    | none => []
    | some (line, bytes) => (cstr line).takeWhile (!isspace ·) :: responseLines fuel bytes

/-- `parse_response`. -/
def parseResponse (env : Env) (disk : Disk) (rsp : Str) (fa : FtnAddr) (q : Queue) : Queue :=
  match disk.fopenR env rsp with
  | none => q
  | some f => (responseLines (f.bytes.length + 1) f.bytes).foldl (fun q line =>
      match line with
      | 61 :: name => qAddLastFile env disk name fa 104 100 0 q
      | 43 :: name => qAddLastFile env disk name fa 104 0 0 q
      | 45 :: name => qAddLastFile env disk name fa 104 97 0 q
      | _ => q) q

/-- `srif_fill`: the request file. -/
def srifText (s : State) (req rsp : Str) : List Byte :=
  let line (a b : Str) := a ++ [32] ++ b ++ [10]
  line (str "Sysop") s.login.sysop ++
  ((s.login.fa.take s.login.nfa).map fun a => line (str "AKA") (ftnaddressToStr a)).flatten ++
  line (str "Baud") (str "115200") ++ line (str "Time") (str "-1") ++
  line (str "RequestList") req ++ line (str "ResponseList") rsp ++
  line (str "RemoteStatus") (if s.login.state = .secure then str "PROTECTED" else str "UNPROTECTED") ++
  line (str "SystemStatus") (if s.login.listedFlag ≠ 0 then str "LISTED" else str "UNLISTED") ++
  line (str "CallerID") s.peerName ++ line (str "SessionType") (str "OTHER")

/-- The branch of `evt_run` that runs a file-request processor at once. -/
def evtSrif (config : BinkdConfig) (env : Env) (filename command : Str) (qs : Queue × State) :
    Queue × State :=
  let (q, s) := qs
  match s.login.fa.head? with
  | none => qs
  | some fa =>
    let base := ftnaddressToFilename fa config.pDomains
    if base = [] then qs
    else
      let srf := (base ++ str ".srf").take (maxPathLen - 1)
      let rsp := (base ++ str ".rsp").take (maxPathLen - 1)
      let w := ed command (str "*S") srf
      let (disk, filled) := s.disk.rewrite env srf (srifText s filename rsp)
      let disk :=
        if filled then
          let disk := match runArgs s w filename with
            | some cmd => env.run cmd disk
            | none => disk
          (disk.delete env filename).1
        else disk
      (parseResponse env disk rsp fa q,
        { s with disk := ((disk.delete env srf).1.delete env rsp).1 })

/-- `evt_run` for one event whose pattern fits. -/
def evtRun1 (config : BinkdConfig) (env : Env) (filename : Str) (immFreq : Bool) (imm : Bool)
    (command : Str) (qs : Queue × State) : Queue × State :=
  if (strstr (str "*S") command).isSome ∨ (strstr (str "*s") command).isSome then
    if immFreq then evtSrif config env filename command qs
    else (qs.1, { qs.2 with rx := { qs.2.rx with
      rcvdlist := qs.2.rx.rcvdlist ++ [filename.take (maxPathLen - 1)] } })
  else match runArgs qs.2 command filename with
    | none => qs
    | some cmd =>
      if imm then (qs.1, { qs.2 with disk := env.run cmd qs.2.disk })
      else (qs.1, { qs.2 with rx := { qs.2.rx with
        evtQueue := evtAppend qs.2.rx.evtQueue ⟨101, cmd⟩ } })

/-- `evt_run`. -/
def evtRun (config : BinkdConfig) (env : Env) (filename : Str) (immFreq : Bool)
    (qs : Queue × State) : Queue × State :=
  config.evtFlags.foldl (fun qs curr =>
    match curr.command with
    | some command =>
      if pmatchNcase curr.pattern filename then
        evtRun1 config env filename immFreq curr.imm command qs
      else qs
    | none => qs) qs

/-! ### What an event leaves alone -/

/-- The two states differ in the disk and in the lists of pending events only. -/
structure EvtFrame (s s' : State) : Prop where
  toNode : s'.toNode = s.toNode
  remoteFa : s'.remoteFa = s.remoteFa
  login : s'.login = s.login
  link : s'.link = s.link
  tx : s'.tx = s.tx
  ops : s'.ops = s.ops
  rx : ∃ r e, s'.rx = { s.rx with rcvdlist := r, evtQueue := e }

theorem EvtFrame.refl (s : State) : EvtFrame s s :=
  ⟨rfl, rfl, rfl, rfl, rfl, rfl, s.rx.rcvdlist, s.rx.evtQueue, rfl⟩

theorem EvtFrame.trans {a b c : State} (h : EvtFrame a b) (h' : EvtFrame b c) : EvtFrame a c := by
  obtain ⟨r, e, hr⟩ := h.rx
  obtain ⟨r', e', hr'⟩ := h'.rx
  exact ⟨h'.toNode.trans h.toNode, h'.remoteFa.trans h.remoteFa, h'.login.trans h.login,
    h'.link.trans h.link, h'.tx.trans h.tx, h'.ops.trans h.ops, r', e', by rw [hr', hr]⟩

/-- A loop over the events keeps the frame if each round does. -/
theorem EvtFrame.foldl {σ α : Type} (p : σ → State) {f : σ → α → σ} (l : List α)
    (h : ∀ st x, EvtFrame (p st) (p (f st x))) (st : σ) : EvtFrame (p st) (p (l.foldl f st)) := by
  induction l generalizing st with
  | nil => exact .refl _
  | cons x l ih => exact (h st x).trans (ih _)

theorem evtTest_frame (config : BinkdConfig) (env : Env) (filename : Str) (s : State) :
    EvtFrame s (evtTest config env filename s).2 := by
  refine EvtFrame.foldl Prod.snd _ (fun r curr => ?_) (false, s)
  cases curr.path with
  | some path =>
    dsimp only
    split_ifs
    · exact ⟨rfl, rfl, rfl, rfl, rfl, rfl, _, _, rfl⟩
    · exact ⟨rfl, rfl, rfl, rfl, rfl, rfl, _, _, rfl⟩
    · exact .refl _
  | none =>
    cases curr.command <;> dsimp only <;> split_ifs <;> exact .refl _

theorem evtRun1_frame (config : BinkdConfig) (env : Env) (filename : Str) (immFreq imm : Bool)
    (command : Str) (qs : Queue × State) :
    EvtFrame qs.2 (evtRun1 config env filename immFreq imm command qs).2 := by
  obtain ⟨q, s⟩ := qs
  dsimp only [evtRun1]
  split_ifs
  · dsimp only [evtSrif]
    cases s.login.fa.head? with
    | none => exact .refl _
    | some fa =>
      dsimp only
      split_ifs
      · exact .refl _
      · exact ⟨rfl, rfl, rfl, rfl, rfl, rfl, _, _, rfl⟩
      · exact ⟨rfl, rfl, rfl, rfl, rfl, rfl, _, _, rfl⟩
  · exact ⟨rfl, rfl, rfl, rfl, rfl, rfl, _, _, rfl⟩
  · cases runArgs s command filename with
    | none => exact .refl _
    | some cmd => exact ⟨rfl, rfl, rfl, rfl, rfl, rfl, _, _, rfl⟩
  · cases runArgs s command filename with
    | none => exact .refl _
    | some cmd => exact ⟨rfl, rfl, rfl, rfl, rfl, rfl, _, _, rfl⟩

theorem evtRun_frame (config : BinkdConfig) (env : Env) (filename : Str) (immFreq : Bool)
    (qs : Queue × State) : EvtFrame qs.2 (evtRun config env filename immFreq qs).2 := by
  refine EvtFrame.foldl Prod.snd _ (fun qs curr => ?_) qs
  cases curr.command with
  | none => exact .refl _
  | some command =>
    dsimp only
    split_ifs
    · exact evtRun1_frame config env filename immFreq curr.imm command qs
    · exact .refl _

theorem qAddLastFile_fa (env : Env) (disk : Disk) (filename : Str) (fa1 : FtnAddr)
    (flvr action type : Byte) (q : Queue) :
    AddsOnly (· = fa1) q (qAddLastFile env disk filename fa1 flvr action type q) := by
  intro e he
  rcases List.mem_append.mp he with he | he
  · exact .inl he
  · exact .inr ((qAddFile_fa env disk filename fa1 flvr action type [] e he).resolve_left
      (List.not_mem_nil))

theorem parseResponse_fa (env : Env) (disk : Disk) (rsp : Str) (fa : FtnAddr) (q : Queue) :
    AddsOnly (· = fa) q (parseResponse env disk rsp fa q) := by
  unfold parseResponse
  split
  · exact .refl _ _
  · refine AddsOnly.foldl id _ (fun q line _ => ?_) q
    dsimp only [id]
    split
    · exact qAddLastFile_fa _ _ _ _ _ _ _ _
    · exact qAddLastFile_fa _ _ _ _ _ _ _ _
    · exact qAddLastFile_fa _ _ _ _ _ _ _ _
    · exact .refl _ _

theorem evtRun1_fa (config : BinkdConfig) (env : Env) (filename : Str) (immFreq imm : Bool)
    (command : Str) (qs : Queue × State) :
    AddsOnly (fun a => qs.2.login.fa.head? = some a) qs.1
      (evtRun1 config env filename immFreq imm command qs).1 := by
  obtain ⟨q, s⟩ := qs
  dsimp only [evtRun1]
  split_ifs
  · dsimp only [evtSrif]
    cases hfa : s.login.fa.head? with
    | none => exact .refl _ _
    | some fa =>
      dsimp only
      split_ifs
      · exact .refl _ _
      · exact (parseResponse_fa _ _ _ _ _).mono fun x hx => by rw [hx]
      · exact (parseResponse_fa _ _ _ _ _).mono fun x hx => by rw [hx]
  · exact .refl _ _
  · cases runArgs s command filename <;> exact .refl _ _
  · cases runArgs s command filename <;> exact .refl _ _

/-- What an event adds to the queue is for the first address of the remote. -/
theorem evtRun_fa (config : BinkdConfig) (env : Env) (filename : Str) (immFreq : Bool)
    (qs : Queue × State) :
    AddsOnly (fun a => qs.2.login.fa.head? = some a) qs.1
      (evtRun config env filename immFreq qs).1 := by
  unfold evtRun
  induction config.evtFlags generalizing qs with
  | nil => exact .refl _ _
  | cons curr l ih =>
    rw [List.foldl_cons]
    cases curr.command with
    | none => exact ih qs
    | some command =>
      dsimp only
      split_ifs
      · have hf := evtRun1_frame config env filename immFreq curr.imm command qs
        have ht := ih (evtRun1 config env filename immFreq curr.imm command qs)
        rw [hf.login] at ht
        exact (evtRun1_fa config env filename immFreq curr.imm command qs).trans ht
      · exact ih qs

end Binkd
