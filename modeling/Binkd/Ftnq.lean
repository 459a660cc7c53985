import Binkd.Lib.Insertion
import Binkd.State

/-!
# The outbound queue (`ftnq.c`)

`qScanAddrs` collects the files that the outbound and the fileboxes hold for a
list of addresses, `qScanBoxes` those of the fileboxes alone.  The queue is the
list that its `next` pointers make; a file goes to its head.  Scanning also
removes old flags and empty boxes, so it threads the disk.

Every entry that a scan adds belongs to one of the addresses it was given
(`qScanAddrs_fa`, `qScanBoxes_fa`).
-/

namespace Binkd

abbrev Queue := List Ftnq

/-! ### Adding files -/

/-- The status line of a `.stc` file: name, size and time. -/
def readStatus (env : Env) (disk : Disk) (filename : Str) : Option (Str × Int × Int) :=
  match disk.fopenR env filename with
  | none => none
  | some f => match fgets (maxPathLen + 1) f.bytes with
    | none => none
    | some (line, _) =>
      let line := cstr line
      if (line.headD 0 != 0) && isspace (line.headD 0) then none
      else match parseArgs 3 (rtrim line) with
        | some ([name, size, time], _) => some (name, toSigned64 (strtoumax size), safeAtol time)
        | _ => none

/-- `q_add_file` for a queue.  The entries that its recursion over the share table
makes are not in the queue that is returned. -/
def qAddFile (env : Env) (disk : Disk) (filename : Str) (fa1 : FtnAddr) (flvr action type : Byte)
    (q : Queue) : Queue :=
  if type = 115 then
    match readStatus env disk filename with
    | none => q
    | some (name, size, time) =>
      { fa := fa1, flvr := flvr, action := action, type := type, path := name.take (maxPathLen - 1),
        size := size, time := time } :: q
  else { fa := fa1, flvr := flvr, action := action, type := type,
         path := filename.take (maxPathLen - 1) } :: q

/-- `q_add_last_file`. -/
def qAddLastFile (env : Env) (disk : Disk) (filename : Str) (fa1 : FtnAddr) (flvr action type : Byte)
    (q : Queue) : Queue :=
  q ++ qAddFile env disk filename fa1 flvr action type []

/-! ### Outbound directories -/

/-- The value that `sscanf` reads with `%x`. -/
def hexValue (s : Str) : UInt32 := s.foldl (fun v c => v * 16 + (xd c).toUInt32) 0

/-- The value that `fscanf` reads with `%ld`. -/
def scanLong (bytes : List Byte) : Option Int :=
  let s := bytes.dropWhile isspace
  let digits := match s with
    | c :: r => if c = 45 ∨ c = 43 then r else s
    | [] => []
  if isdigit (digits.headD 0) then some (safeAtol s) else none

/-- `process_hld`. -/
def processHld (config : BinkdConfig) (env : Env) (fa : FtnAddr) (path : Str) (disk : Disk) : Disk :=
  match getNodeInfo env.now fa config with
  | none => disk
  | some _ =>
    let holdUntil := ((disk.fopenR env path).bind fun f => scanLong f.bytes).getD 0
    if holdUntil ≤ env.now then (disk.delete env path).1 else disk

/-- `process_bsy`, as far as files go. -/
def processBsy (config : BinkdConfig) (env : Env) (path : Str) (disk : Disk) : Disk :=
  match disk.stat env path with
  | some sb =>
    if config.killOldBsy ≠ 0 ∧ env.now - sb.mtime > config.killOldBsy then (disk.delete env path).1
    else disk
  | none => disk

/-- `flo_flvrs` and `out_flvrs`. -/
def floFlvrs : Str := str "icdfhICDFH"
def outFlvrs : Str := str "icdohICDOH"

/-- A name of the outbound: eight hexadecimal digits, a dot and three more bytes. -/
def isOutboundName (s : Str) : Bool :=
  (s.take 8).all isxdigit && s.length = 12 && s.getD 8 0 = 46 && !(s.drop 9).contains 46

/-- The address of a file in an outbound directory with the address wildcard `fa1`. -/
def outboundAddr (fa1 : FtnAddr) (s : Str) : FtnAddr :=
  if fa1.node ≠ -1 ∧ fa1.p ≠ 0 then { fa1 with p := (hexValue (s.take 8)).toInt32 }
  else { fa1 with net := (hexValue (s.take 4)).toInt32, node := (hexValue ((s.drop 4).take 4)).toInt32 }

/-- What `q_add_dir` does with one file that is not a directory of points. -/
def qAddOutbound (config : BinkdConfig) (env : Env) (buf s : Str) (fa1 fa2 : FtnAddr)
    (qd : Queue × Disk) : Queue × Disk :=
  let ext := s.drop 9
  let disk := if stricmp ext (str "bsy") = 0 ∨ stricmp ext (str "csy") = 0 then
    processBsy config env buf qd.2 else qd.2
  if !config.havedefnode && (getNodeInfo env.now fa2 config).isNone && !fa1.is5D then (qd.1, disk)
  else if outFlvrs.contains (ext.headD 0) && (ext.drop 1).map tolower = str "ut" then
    (qAddFile env disk buf fa2 (ext.headD 0) 100 109 qd.1, disk)
  else if stricmp ext (str "req") = 0 then (qAddFile env disk buf fa2 104 115 114 qd.1, disk)
  else if stricmp ext (str "hld") = 0 then (qd.1, processHld config env fa2 buf disk)
  else if floFlvrs.contains (ext.headD 0) && (ext.drop 1).map tolower = str "lo" then
    (qAddFile env disk buf fa2 (ext.headD 0) 100 108 qd.1, disk)
  else if stricmp ext (str "stc") = 0 then (qAddFile env disk buf fa2 104 0 115 qd.1, disk)
  else (qd.1, disk)

/-- `q_add_dir`.  The first argument bounds the depth of the directories of points. -/
def qAddDir (config : BinkdConfig) (env : Env) : Nat → Str → FtnAddr → Queue × Disk → Queue × Disk
  | 0, _, _, qd => qd
  | depth + 1, dir, fa1, qd =>
    match qd.2.readdir env dir with
    | none => qd
    | some names => names.foldl (fun qd s =>
        if !isOutboundName s then qd
        else
          let fa2 := outboundAddr fa1 s
          if fa1.node ≠ -1 ∧ fa1.p ≠ -1 ∧ ftnaddressCmp fa1 fa2 ≠ 0 then qd
          else
            let buf := dir ++ str "/" ++ s
            if stricmp (s.drop 9) (str "pnt") = 0 ∧ fa2.p = -1 then
              match qd.2.stat env buf with
              | some ⟨_, _, true⟩ => qAddDir config env depth buf fa2 qd
              | _ => qd
            else
              qAddOutbound config env buf s fa1 (if fa2.p = -1 then { fa2 with p := 0 } else fa2) qd) qd

/-! ### Fileboxes -/

/-- `q_scan_box`. -/
def qScanBox (env : Env) (fa : FtnAddr) (boxpath : Str) (flvr : Byte) (deleteempty : Bool)
    (qd : Queue × Disk) : Queue × Disk :=
  match qd.2.readdir env boxpath with
  | none => qd
  | some names =>
    let files := names.filter fun name => name.headD 0 != 46 &&
      ((qd.2.stat env (boxpath ++ str "/" ++ name)).map (·.isDir)) = some false
    let q := files.foldl
      (fun q name => qAddFile env qd.2 (boxpath ++ str "/" ++ name) fa flvr 100 0 q) qd.1
    (q, if files = [] ∧ deleteempty ∧ names = [] then (qd.2.delete env boxpath).1 else qd.2)

/-- `to32`. -/
def to32 (n : Int) : Byte :=
  if 0 ≤ n ∧ n ≤ 9 then 48 + n.toNat.toUInt8
  else if 9 < n ∧ n < 32 then 65 + n.toNat.toUInt8 - 10
  else 90

/-- `brakeExt`. -/
def brakeExt : List (Str × Byte) :=
  [(str "immediate", 105), (str "crash", 99), (str "direct", 100), (str "normal", 102),
   (str "hold", 104), (str "Immediate", 105), (str "Crash", 99), (str "Direct", 100),
   (str "Normal", 102), (str "Hold", 104)]

/-- The T-Mail name of the filebox of an address. -/
def tmailName (fa : FtnAddr) : Str :=
  let z := fa.z.toInt; let net := fa.net.toInt; let node := fa.node.toInt; let p := fa.p.toInt
  [to32 (z.tdiv 32), to32 (z.tmod 32), to32 (net.tdiv 1024), to32 ((net.tdiv 32).tmod 32),
   to32 (net.tmod 32), to32 (node.tdiv 1024), to32 ((node.tdiv 32).tmod 32), to32 (node.tmod 32), 46,
   to32 (p.tdiv 32), to32 (p.tmod 32)]

/-- The name of a hold box: with a capital `H` if there is such a directory. -/
def holdBox (env : Env) (disk : Disk) (base : Str) : Str :=
  match disk.stat env (base ++ str "H") with
  | some ⟨_, _, true⟩ => base ++ str "H"
  | _ => base ++ str "h"

/-- The boxes of one address: paths with their flavours, and whether an empty box
is deleted. -/
def fileboxes (config : BinkdConfig) (env : Env) (disk : Disk) (fa : FtnAddr)
    (node : Option FtnNode) : List (Str × Byte × Bool) :=
  (match node with
    | some n => match n.obox with
      | some obox => [(obox, n.oboxFlvr, false)]
      | none => []
    | none => []) ++
  (if config.bfilebox ≠ [] then
    brakeExt.map fun (ext, flv) =>
      (config.bfilebox ++ str "/" ++ fa.domain ++ str "." ++ decimalUnsigned fa.z ++ str "." ++
        decimalUnsigned fa.net ++ str "." ++ decimalUnsigned fa.node ++ str "." ++
        decimalUnsigned fa.p ++ str "." ++ ext, flv, config.deleteablebox)
  else []) ++
  (if config.tfilebox ≠ [] then
    let plain := config.tfilebox ++ str "/" ++ decimalUnsigned fa.z ++ str "." ++
      decimalUnsigned fa.net ++ str "." ++ decimalUnsigned fa.node ++ str "." ++ decimalUnsigned fa.p
    let short := config.tfilebox ++ str "/" ++ tmailName fa
    [(plain, 102, config.deleteablebox), (holdBox env disk (plain ++ str "."), 104, config.deleteablebox),
     (short, 102, config.deleteablebox), (holdBox env disk short, 104, config.deleteablebox)]
  else [])

/-- Mail goes out with `send-if-pwd` only to nodes that have a password. -/
def mayScan (config : BinkdConfig) (out : Bool) (node : Option FtnNode) : Bool :=
  out || !config.sendIfPwd || (match node with
    | none => false
    | some n => n.pwd ≠ str "-")

/-- `q_scan_boxes`. -/
def qScanBoxes (config : BinkdConfig) (env : Env) (fa : List FtnAddr) (out : Bool)
    (qd : Queue × Disk) : Queue × Disk :=
  fa.foldl (fun qd a =>
    let node := getNodeInfo env.now a config
    if mayScan config out node then
      (fileboxes config env qd.2 a node).foldl (fun qd b => qScanBox env a b.1 b.2.1 b.2.2 qd) qd
    else qd) qd

/-- `q_scan_addrs`. -/
def qScanAddrs (config : BinkdConfig) (env : Env) (fa : List FtnAddr) (out : Bool)
    (qd : Queue × Disk) : Queue × Disk :=
  qScanBoxes config env fa out (fa.foldl (fun qd a =>
    if mayScan config out (getNodeInfo env.now a config) then
      match lastSlash (ftnaddressToFilename a config.pDomains) with
      | some (dir, _) => qAddDir config env 16 dir a qd
      | none => qd
    else qd) qd)

/-! ### Order and selection -/

/-- `weight_by_name`. -/
def weightByName (s : Str) : Int :=
  if ispkt s then 100 else if isarcmail s then 50 else if istic s then -100 else 0

/-- `cmp_filebox_files`. -/
def cmpFileboxFiles (a b : Ftnq) : Int :=
  if weightByName a.path = weightByName b.path then toInt32 (a.time - b.time)
  else weightByName b.path - weightByName a.path

/-- The loop of `q_cmp` that looks for the first address of either entry. -/
def cmpAka (a b : FtnAddr) : List FtnAddr → Option Int
  | [] => none
  | x :: fa =>
    if ftnaddressCmp a x = 0 then some (-1)
    else if ftnaddressCmp b x = 0 then some 1
    else cmpAka a b fa

/-- The loop of `q_cmp` over `typeorder`. -/
def cmpType (a b : Byte) : List Byte → Option Int
  | [] => none
  | t :: order => if a = t then some (-1) else if b = t then some 1 else cmpType a b order

/-- `q_cmp`. -/
def qCmp (fa : List FtnAddr) (a b : Ftnq) : Int :=
  if a.sent ∨ b.sent then (b.sent.toNat : Int) - a.sent.toNat
  else
    let aka :=
      if ftnaddressCmp a.fa b.fa = 0 then
        if a.fa.isNull then some (-1) else if b.fa.isNull then some 1 else cmpAka a.fa b.fa fa
      else none
    match aka with
    | some r => r
    | none =>
      match (if a.type ≠ b.type then cmpType a.type b.type (str "srmld") else none) with
      | some r => r
      | none => if a.type = 100 ∧ b.type = 100 then cmpFileboxFiles a b else 0

/-- One insertion of `q_sort`: before the first entry that compares greater. -/
def qInsert (fa : List FtnAddr) (q : Ftnq) : Queue → Queue
  | [] => [q]
  | cur :: l => if qCmp fa cur q > 0 then q :: cur :: l else cur :: qInsert fa q l

/-- `q_sort`. -/
def qSort (fa : List FtnAddr) (q : Queue) : Queue := q.foldl (fun l e => qInsert fa e l) []

/-- `select_next_file`: the first entry not sent yet, and the queue with it marked. -/
def selectNextFile : Queue → Option (Ftnq × Queue)
  | [] => none
  | e :: q =>
    if e.sent then (selectNextFile q).map fun (x, q) => (x, e :: q)
    else some (e, { e with sent := true } :: q)

/-- The sizes that a flow file names: their sum and the latest time. -/
def floSizes (env : Env) (disk : Disk) : Nat → List Byte → Int × Int → Int × Int
  | 0, _, acc => acc
  | fuel + 1, bytes, acc =>
    match fgets (maxPathLen + 2) bytes with
    | none => acc
    | some (line, bytes) =>
      let s := (cstr line).takeWhile (· != 10)
      let p := if s.headD 0 = 35 ∨ s.headD 0 = 94 then s.drop 1 else s
      let acc :=
        if (cstr line).headD 0 = 126 ∨ (cstr line).headD 0 = 36 then acc
        else match disk.stat env p with
          | some st => (acc.1 + st.bytes.length, max acc.2 st.mtime)
          | none => acc
      floSizes env disk fuel bytes acc

/-- One step of `q_get_sizes`: the entry with its size filled in, and what it adds
to the net mail and to the files. -/
def qGetSize (env : Env) (disk : Disk) (curr : Ftnq) : Ftnq × Int × Int :=
  if curr.type = 108 then
    if curr.size ≠ 0 then (curr, 0, curr.size)
    else match disk.fopenR env curr.path with
      | some f =>
        let r := floSizes env disk (f.bytes.length + 1) f.bytes (0, 0)
        ({ curr with size := r.1, time := r.2 }, 0, r.1)
      | none => (curr, 0, 0)
  else if curr.type = 115 then (curr, 0, curr.size)
  else
    let curr := if curr.size = 0 then
        match disk.stat env curr.path with
        | some st => { curr with size := st.bytes.length, time := st.mtime }
        | none => curr
      else curr
    if curr.type = 109 then (curr, curr.size, 0) else (curr, 0, curr.size)

/-- `q_get_sizes`: the queue, `netsize` and `filessize`. -/
def qGetSizes (env : Env) (disk : Disk) (q : Queue) : Queue × Int × Int :=
  let r := q.map (qGetSize env disk)
  (r.map (·.1), (r.map (·.2.1)).sum, (r.map (·.2.2)).sum)

/-- `q_freq_num`. -/
def qFreqNum (q : Queue) : Nat := (q.filter fun e => e.type = 114).length

/-! ### Whose files are queued -/

/-- Every new entry belongs to an address that `ok` allows. -/
def AddsOnly (ok : FtnAddr → Prop) (q q' : Queue) : Prop := ∀ e ∈ q', e ∈ q ∨ ok e.fa

theorem AddsOnly.refl (ok : FtnAddr → Prop) (q : Queue) : AddsOnly ok q q := fun _ h => .inl h

theorem AddsOnly.trans {ok : FtnAddr → Prop} {a b c : Queue} (h : AddsOnly ok a b)
    (h' : AddsOnly ok b c) : AddsOnly ok a c := fun e he =>
  (h' e he).elim (h e) .inr

theorem AddsOnly.mono {ok ok' : FtnAddr → Prop} {a b : Queue} (h : AddsOnly ok a b)
    (hok : ∀ x, ok x → ok' x) : AddsOnly ok' a b := fun e he => (h e he).imp_right (hok _)

/-- A loop adds only what each of its rounds adds; `p` finds the queue in its state. -/
theorem AddsOnly.foldl {σ α : Type} {ok : FtnAddr → Prop} (p : σ → Queue) {f : σ → α → σ}
    (l : List α) (h : ∀ st, ∀ x ∈ l, AddsOnly ok (p st) (p (f st x))) (st : σ) :
    AddsOnly ok (p st) (p (l.foldl f st)) := by
  induction l generalizing st with
  | nil => exact .refl _ _
  | cons x l ih =>
    have hx := h st x List.mem_cons_self
    exact hx.trans (ih (fun st y hy => h st y (List.mem_cons_of_mem _ hy)) (f st x))

theorem qAddFile_fa (env : Env) (disk : Disk) (filename : Str) (fa1 : FtnAddr)
    (flvr action type : Byte) (q : Queue) :
    AddsOnly (· = fa1) q (qAddFile env disk filename fa1 flvr action type q) := by
  intro e he
  unfold qAddFile at he
  split at he
  · split at he
    · exact .inl he
    · rcases List.mem_cons.mp he with rfl | he
      · exact .inr rfl
      · exact .inl he
  · rcases List.mem_cons.mp he with rfl | he
    · exact .inr rfl
    · exact .inl he

theorem qAddOutbound_fa (config : BinkdConfig) (env : Env) (buf s : Str) (fa1 fa2 : FtnAddr)
    (qd : Queue × Disk) :
    AddsOnly (· = fa2) qd.1 (qAddOutbound config env buf s fa1 fa2 qd).1 := by
  unfold qAddOutbound
  dsimp only
  generalize (if stricmp (s.drop 9) (str "bsy") = 0 ∨ stricmp (s.drop 9) (str "csy") = 0 then
    processBsy config env buf qd.2 else qd.2) = disk
  split_ifs <;> dsimp only <;> first | exact .refl _ _ | apply qAddFile_fa

/-- In a directory for one full address only files for that address are taken. -/
theorem qAddDir_fa (config : BinkdConfig) (env : Env) (depth : Nat) (dir : Str) (fa1 : FtnAddr)
    (hp : fa1.p ≠ -1) (hn : fa1.node ≠ -1) (qd : Queue × Disk) :
    AddsOnly (· = fa1) qd.1 (qAddDir config env depth dir fa1 qd).1 := by
  cases depth with
  | zero => exact .refl _ _
  | succ depth =>
    rw [qAddDir]
    split
    · exact .refl _ _
    · next names _ =>
      refine AddsOnly.foldl Prod.fst names (fun qd s _ => ?_) qd
      dsimp only
      by_cases hname : isOutboundName s = true
      · by_cases hcmp : ftnaddressCmp fa1 (outboundAddr fa1 s) = 0
        · have hfa : outboundAddr fa1 s = fa1 := by
            obtain ⟨-, hz, hnet, hnode, hpt⟩ := ftnaddressCmp_eq_zero.mp hcmp
            have hdom : (outboundAddr fa1 s).domain = fa1.domain := by
              unfold outboundAddr; split_ifs <;> rfl
            exact FtnAddr.ext hdom hz.symm hnet.symm hnode.symm hpt.symm
          simp only [hname, hfa, hp, ftnaddressCmp_self, Bool.not_true, Bool.false_eq_true,
            if_false, ne_eq, not_true_eq_false, and_false]
          exact qAddOutbound_fa _ _ _ _ _ _ _
        · simp only [hname, hp, hn, hcmp, Bool.not_true, Bool.false_eq_true, if_false, ne_eq,
            not_false_eq_true, and_self, if_true]
          exact .refl _ _
      · simp only [hname, Bool.not_false, if_true]
        exact .refl _ _

theorem qScanBox_fa (env : Env) (fa : FtnAddr) (boxpath : Str) (flvr : Byte) (deleteempty : Bool)
    (qd : Queue × Disk) :
    AddsOnly (· = fa) qd.1 (qScanBox env fa boxpath flvr deleteempty qd).1 := by
  unfold qScanBox
  split
  · exact .refl _ _
  · exact AddsOnly.foldl id _ (fun _ _ _ => qAddFile_fa _ _ _ _ _ _ _ _) qd.1

/-- What a scan of the fileboxes adds belongs to one of the addresses. -/
theorem qScanBoxes_fa (config : BinkdConfig) (env : Env) (fa : List FtnAddr) (out : Bool)
    (qd : Queue × Disk) :
    AddsOnly (· ∈ fa) qd.1 (qScanBoxes config env fa out qd).1 := by
  refine AddsOnly.foldl Prod.fst fa (fun qd a ha => ?_) qd
  dsimp only
  split_ifs
  · refine AddsOnly.foldl Prod.fst _ (fun qd b _ => ?_) qd
    exact (qScanBox_fa _ _ _ _ _ _).mono fun x hx => hx ▸ ha
  · exact .refl _ _

/-- What a scan of the outbound adds belongs to one of the addresses. -/
theorem qScanAddrs_fa (config : BinkdConfig) (env : Env) (fa : List FtnAddr) (out : Bool)
    (h4 : ∀ a ∈ fa, a.is4D) (qd : Queue × Disk) :
    AddsOnly (· ∈ fa) qd.1 (qScanAddrs config env fa out qd).1 := by
  refine AddsOnly.trans (AddsOnly.foldl Prod.fst fa (fun qd a ha => ?_) qd)
    (qScanBoxes_fa config env fa out _)
  have h4a := h4 a ha
  simp only [FtnAddr.is4D, ne_eq, decide_eq_true_eq] at h4a
  split_ifs
  · split
    · exact (qAddDir_fa config env _ _ a h4a.2.2.2 h4a.2.1 qd).mono fun x hx => hx ▸ ha
    · exact .refl _ _
  · exact .refl _ _

/-! ### Sorting -/

theorem qInsert_eq (fa : List FtnAddr) (e : Ftnq) (q : Queue) :
    qInsert fa e q = Lib.insertBy (qCmp fa) e q := by
  induction q with
  | nil => rfl
  | cons c q ih => rw [qInsert, Lib.insertBy, ih]

/-- `q_sort` is an insertion sort. -/
theorem qSort_eq (fa : List FtnAddr) (q : Queue) : qSort fa q = Lib.sortBy (qCmp fa) q := by
  rw [qSort, Lib.sortBy]
  congr 1
  funext l e
  exact qInsert_eq fa e l

/-- Sorting a queue only permutes it. -/
theorem qSort_perm (fa : List FtnAddr) (q : Queue) : (qSort fa q).Perm q := by
  rw [qSort_eq]
  exact Lib.sortBy_perm q

/-! ### The sizes -/

/-- The sizes are filled in without a change of the addresses. -/
theorem qGetSize_fa (env : Env) (disk : Disk) (e : Ftnq) : (qGetSize env disk e).1.fa = e.fa := by
  have hstat : (match disk.stat env e.path with
      | some st => { e with size := (st.bytes.length : Int), time := st.mtime }
      | none => e).fa = e.fa := by
    split <;> rfl
  unfold qGetSize
  split_ifs
  · rfl
  · split <;> rfl
  · rfl
  all_goals
    dsimp only
    split_ifs <;> first | exact hstat | rfl

theorem qGetSizes_fa (env : Env) (disk : Disk) (q : Queue) :
    ∀ e ∈ (qGetSizes env disk q).1, ∃ e' ∈ q, e'.fa = e.fa := by
  intro e he
  simp only [qGetSizes, List.map_map, List.mem_map] at he
  obtain ⟨e', hmem, rfl⟩ := he
  exact ⟨e', hmem, (qGetSize_fa env disk e').symm⟩

/-- An entry that is chosen is of the queue, and the queue keeps its addresses. -/
theorem selectNextFile_mem {q q' : Queue} {e : Ftnq} (h : selectNextFile q = some (e, q')) :
    e ∈ q ∧ ∀ x ∈ q', ∃ y ∈ q, y.fa = x.fa := by
  induction q generalizing q' with
  | nil => simp [selectNextFile] at h
  | cons a q ih =>
    rw [selectNextFile] at h
    split at h
    · cases hs : selectNextFile q with
      | none => simp [hs] at h
      | some r =>
        simp only [hs, Option.map_some, Option.some.injEq, Prod.mk.injEq] at h
        obtain ⟨rfl, rfl⟩ := h
        obtain ⟨hmem, hq⟩ := ih hs
        refine ⟨List.mem_cons_of_mem a hmem, fun x hx => ?_⟩
        rcases List.mem_cons.mp hx with rfl | hx
        · exact ⟨x, List.mem_cons_self, rfl⟩
        · obtain ⟨y, hy, hfa⟩ := hq x hx
          exact ⟨y, List.mem_cons_of_mem a hy, hfa⟩
    · simp only [Option.some.injEq, Prod.mk.injEq] at h
      obtain ⟨rfl, rfl⟩ := h
      refine ⟨List.mem_cons_self, fun x hx => ?_⟩
      rcases List.mem_cons.mp hx with rfl | hx
      · exact ⟨a, List.mem_cons_self, rfl⟩
      · exact ⟨x, List.mem_cons_of_mem a hx, rfl⟩

end Binkd
