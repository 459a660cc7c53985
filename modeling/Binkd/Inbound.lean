import Binkd.Pkt
import Binkd.Srif

/-!
# The inbound (`inbound.c`)

A file is received into a pair of temporary files: the `.hr` header names it and
its sender, the `.dt` file takes the data.  `findTmpName` looks for the pair of a
file or makes one, `inbFopen` opens it, `inbDone` renames a complete file into the
inbound directory and `inbReject` throws a pair away.  `inbTest` asks whether a
file is in the inbound already.
-/

namespace Binkd

/-- `MAX_INB_RENAME`. -/
def maxInbRename : Int := 10000

/-- Only the disk and the record of file operations differ. -/
structure DiskFrame (s s' : State) : Prop where
  toNode : s'.toNode = s.toNode
  remoteFa : s'.remoteFa = s.remoteFa
  login : s'.login = s.login
  link : s'.link = s.link
  tx : s'.tx = s.tx
  rx : s'.rx = s.rx

theorem DiskFrame.refl (s : State) : DiskFrame s s := ⟨rfl, rfl, rfl, rfl, rfl, rfl⟩

theorem DiskFrame.trans {a b c : State} (h : DiskFrame a b) (h' : DiskFrame b c) : DiskFrame a c :=
  ⟨h'.toNode.trans h.toNode, h'.remoteFa.trans h.remoteFa, h'.login.trans h.login,
    h'.link.trans h.link, h'.tx.trans h.tx, h'.rx.trans h.rx⟩

/-! ### Temporary files -/

/-- `remove_hr`. -/
def removeHr (env : Env) (path : Str) (s : State) : State :=
  { s with
    disk := ((s.disk.delete env (setExt path (str ".dt"))).1.delete env (setExt path (str ".hr"))).1
    ops := .removeTmp (setExt path (str ".dt")) :: s.ops }

/-- The directory of the temporary files. -/
def tmpDir (config : BinkdConfig) (s : State) : Str :=
  if config.tempInbound ≠ [] then config.tempInbound else s.rx.inbound

/-- The header line of a file. -/
def hrLine (file : TFile) (sender : Option FtnAddr) : List Byte :=
  file.netname ++ [32] ++ decimal (toUnsigned64 file.size) ++ [32] ++
    decimal (toUnsigned64 file.time) ++ [32] ++
    (match sender with | some a => ftnaddressToStr a | none => str "0:0/0.0@unknown") ++ [10]

/-- `creat_tmp_name`: the `.hr` file of a new pair.  The source tries new names for
ever; the fuel bounds the tries. -/
def creatTmpName (env : Env) (file : TFile) (dir : Str) : Nat → Nat → State → Option (Str × State)
  | 0, _, _ => none
  | fuel + 1, k, s =>
    let path := (withSeparator dir ++ hexPad 8 (env.rnd k) ++ str ".hr").take (maxPathLen - 1)
    match s.disk.createEmptySemFile env path with
    | none => creatTmpName env file dir fuel (k + 1) s
    | some disk =>
      let (disk, ok) := disk.rewrite env path (hrLine file s.login.fa.head?)
      if ok then some (path, { s with disk := disk }) else none

/-- `to_be_deleted`. -/
def toBeDeleted (config : BinkdConfig) (env : Env) (path : Str) (filesize : Int) (s : State) : Bool :=
  if config.killOldPartialFiles = 0 then false
  else match s.disk.stat env path with
    | none => false
    | some sd => match s.disk.stat env (setExt path (str ".dt")) with
      | some sb => (sb.bytes.length : Int) ≠ filesize && env.now - sb.mtime > config.killOldPartialFiles
      | none => env.now - sd.mtime > config.killOldPartialFiles

/-- What a `.hr` file says: name, size, time and sender, where it has four fields. -/
structure HrInfo where
  netname : Str
  size : Str
  time : Str
  sender : Str

/-- The first line of a `.hr` file, if there is one. -/
def readHr (env : Env) (disk : Disk) (path : Str) : Option (Option (Option HrInfo)) :=
  (disk.fopenR env path).map fun f =>
    (fgets (maxPathLen + 80) f.bytes).map fun (line, _) =>
      let w i := getwordx (line ++ 0 :: env.tail) i { noesc := true }
      match w 1, w 2, w 3, w 4 with
      | some a, some b, some c, some d => some ⟨a, b, c, d⟩
      | _, _, _, _ => none

/-- `t & ~1`. -/
def evenTime (t : Int) : Int := t - t % 2

/-- The results of `find_tmp_name`: 0, 1 and 2, the latter with the name of the
`.dt` file. -/
inductive FindTmp
  | failed
  | found (path : Str)
  | created (path : Str)
deriving DecidableEq

/-- Is it the name of a `.hr` file? -/
def isHrName (name : Str) : Bool :=
  8 ≤ name.length && (name.take 8).all isxdigit && stricmp (name.drop 8) (str ".hr") = 0

/-- The index of the sender among all addresses of the remote (`nallfa` if it is
none of them), or `none` if it cannot be parsed. -/
def senderIndex (config : BinkdConfig) (sender : Str) (s : State) : Option Nat :=
  (parseFtnaddress sender config.pDomains).map fun fa =>
    s.login.fa.findIdx fun a => ftnaddressCmp fa a = 0

/-- What `find_tmp_name` does with one `.hr` file: `some` result ends the search. -/
def findTmp1 (config : BinkdConfig) (env : Env) (file : Option TFile) (path : Str) (s : State) :
    Option FindTmp × State :=
  let old (size : Int) (s : State) := if toBeDeleted config env path size s then removeHr env path s else s
  match readHr env s.disk path with
  | none => (none, s)
  | some none => (none, old (-1) s)
  | some (some none) => (none, old (-1) s)
  | some (some (some hr)) =>
    let i := senderIndex config hr.sender s
    match file with
    | none =>
      match i with
      | some i => if i < s.login.fa.length ∧ !s.rx.skipAllFlag then (none, removeHr env path s) else (none, s)
      | none => (none, s)
    | some file =>
      match i with
      | some i =>
        if hr.netname = file.netname then
          if file.size = toSigned64 (strtoumax hr.size) ∧
            evenTime file.time = evenTime (safeAtol hr.time) ∧
              i < s.login.fa.length then
            if i ≥ s.login.nfa then (some .failed, s)
            else (some (.found (setExt path (str ".dt"))), s)
          else if config.killDupPartialFiles ∧ i < s.login.fa.length then (none, removeHr env path s)
          else (none, s)
        else (none, old (toSigned64 (strtoumax hr.size)) s)
      | none => (none, old (toSigned64 (strtoumax hr.size)) s)

/-- The loop of `find_tmp_name` over the directory. -/
def findTmpLoop (config : BinkdConfig) (env : Env) (file : Option TFile) (dir : Str) :
    List Str → State → Option FindTmp × State
  | [], s => (none, s)
  | name :: names, s =>
    if isHrName name then
      match findTmp1 config env file ((withSeparator dir ++ name).take (maxPathLen - 1)) s with
      | (some r, s) => (some r, s)
      | (none, s) => findTmpLoop config env file dir names s
    else findTmpLoop config env file dir names s

/-- `find_tmp_name`; without a file it removes the partial files of the remote. -/
def findTmpName (config : BinkdConfig) (env : Env) (file : Option TFile) (s : State) :
    FindTmp × State :=
  let dir := tmpDir config s
  match s.disk.readdir env dir with
  | none => (.failed, s)
  | some names =>
    match findTmpLoop config env file dir names s with
    | (some r, s) => (r, s)
    | (none, s) =>
      match file with
      | none => (.failed, s)
      | some file => match creatTmpName env file dir 65536 0 s with
        | some (path, s) => (.created (setExt path (str ".dt")), s)
        | none => (.failed, s)

/-- `inb_has_partials`. -/
def inbHasPartials (config : BinkdConfig) (env : Env) (s : State) : Bool :=
  match s.disk.readdir env (tmpDir config s) with
  | none => false
  | some names => names.any fun name =>
      isHrName name &&
      match s.disk.fopenR env ((withSeparator (tmpDir config s) ++ name).take (maxPathLen - 1)) with
      | none => false
      | some f => match fgets (maxPathLen + 80) f.bytes with
        | none => false
        | some (line, _) =>
          match (getwordx (line ++ 0 :: env.tail) 4 { noesc := true }).bind
              (parseFtnaddress · config.pDomains) with
          | none => false
          | some fa => (s.login.fa.take s.login.nfa).any fun a => ftnaddressCmp fa a = 0

/-- `inb_remove_partial`. -/
def inbRemovePartial (config : BinkdConfig) (env : Env) (s : State) : State :=
  (findTmpName config env none s).2

/-- Is there room for the rest of a file of which `have_` bytes are there? -/
def enoughSpace (config : BinkdConfig) (env : Env) (buf : Str) (have_ : Nat) (s : State) : Bool :=
  let reqFree := if s.login.state = .secure then config.minfree else config.minfreeNonsecure
  let freespace2 := env.getfree s.rx.inbound
  let freespace :=
    if config.tempInbound ≠ [] ∧ config.tempInbound.isPrefixOf buf then
      min (env.getfree config.tempInbound) freespace2
    else freespace2
  reqFree < 0 || ((s.rx.inf.size - have_ + 1023) / 1024 + reqFree) ≤ freespace

/-- The part of `inb_fopen` from `fopen_again` on.  A partial file longer than the
file is emptied; the second round then opens it. -/
def inbOpenDt (config : BinkdConfig) (env : Env) (buf : Str) : Nat → State → Option Handle × State
  | 0, s => (none, s)
  | fuel + 1, s =>
    if (env.fault (.openW buf)).isSome then (none, s)
    else
      let f := (s.disk.lookup buf).getD { mtime := env.now }
      let s := { s with disk := s.disk.insert buf f, ops := .openTmp buf :: s.ops }
      if (f.bytes.length : Int) > s.rx.inf.size then
        match s.disk.truncFile env buf with
        | (disk, true) => inbOpenDt config env buf fuel { s with disk := disk }
        | (disk, false) =>
          match disk.delete env buf with
          | (disk, true) => inbOpenDt config env buf fuel { s with disk := disk }
          | (disk, false) => (none, { s with disk := disk })
      else if enoughSpace config env buf f.bytes.length s then (some ⟨buf, f.bytes, f.bytes.length⟩, s)
      else (none, s)

/-- `inb_fopen` for `state->in`. -/
def inbFopen (config : BinkdConfig) (env : Env) (s : State) : Option Handle × State :=
  match findTmpName config env (some s.rx.inf) s with
  | (.failed, s) => (none, s)
  | (.found path, s) => inbOpenDt config env path 3 s
  | (.created path, s) => inbOpenDt config env path 3 s

/-- `inb_reject`. -/
def inbReject (config : BinkdConfig) (env : Env) (s : State) : State :=
  match findTmpName config env (some s.rx.inf) s with
  | (.found path, s) => removeHr env path s
  | (_, s) => s

/-! ### Real names -/

/-- `next_inb_filename`, from the first of the alphanumeric bytes that are counted
up; `p` is the byte looked at and `pos` the place `*s`. -/
def nextBody (style : RenameStyle) : Nat → Nat → Str → Nat → Option (Str × Nat)
  | 0, _, _, _ => none
  | fuel + 1, p, fname, pos =>
    let c := fname.getD p 0
    if c = 57 then some (fname.set p 97, pos)
    else if (style = .renameExtension ∧ c = 122) ∨ (style = .renameBody ∧ c = 102) then
      let fname := fname.set p 48
      if p = 0 then none
      else
        let p := p - 1
        let d := fname.getD p 0
        if d = 47 ∨ d = 46 ∨ d = 0 then none
        else if p + 1 ≠ pos then nextBody style fuel p fname pos
        else some (fname.set p 48, p)
    else some (fname.set p (c + 1), pos)

/-- `next_inb_filename`: the next name and the place in it, or `none` at the end. -/
def nextInbFilename (style : RenameStyle) (fname : Str) (pos : Nat) : Option (Str × Nat) :=
  if style = .renamePostfix then
    if pos = fname.length then some (fname ++ str ".1", pos)
    else
      let num := atoi (fname.drop (pos + 1))
      if num ≤ 0 ∨ num > maxInbRename then none
      else some (fname.take (pos + 1) ++ decimalInt (num + 1), pos)
  else if (style = .renameExtension ∧ pos = fname.length) ∨
      (style = .renameBody ∧ fname.getD pos 0 = 46) then
    some (fname.set (pos - 1) 48, pos - 1)
  else
    let run := (fname.drop (pos + 1)).takeWhile isalnum
    nextBody style (fname.length + 1) (pos + run.length) fname pos

/-- More than the number of names that `next_inb_filename` can make. -/
def inbNames : Nat := 37 ^ 256 + 20000

/-- The style for a netname, and how far before the end of the name it works. -/
def inbStyle (config : BinkdConfig) (netname : Str) : RenameStyle × Nat :=
  if ispkt netname || istic netname || isarcmail netname || isreq netname then (.renameBody, 4)
  else (config.renamestyle, 0)

/-- The loop of `inb_test`. -/
def inbTestLoop (env : Env) (disk : Disk) (size t : Int) (style : RenameStyle) :
    Nat → Str → Nat → Bool
  | 0, _, _ => false
  | fuel + 1, fp, pos =>
    match disk.stat env fp with
    | none => false
    | some sb =>
      if (sb.bytes.length : Int) = size ∧ evenTime sb.mtime = evenTime t then true
      else match nextInbFilename style fp pos with
        | none => false
        | some (fp, pos) => inbTestLoop env disk size t style fuel fp pos

/-- `inb_test`. -/
def inbTest (config : BinkdConfig) (env : Env) (disk : Disk) (file : TFile) (inbound : Str) : Bool :=
  let fp := (withSeparator inbound ++ strwipe (strdequote file.netname)).take (maxPathLen - 1)
  let (style, back) := inbStyle config file.netname
  inbTestLoop env disk file.size file.time style inbNames fp (fp.length - back)

/-- The name that `inb_done` tries first. -/
def realName (config : BinkdConfig) (inbound netname : Str) : Str :=
  (withSeparator inbound ++ strwipe (makeinboundcase (strdequote netname) config.inboundcase)).take
    (maxPathLen - 1)

/-- Does `check_pkthdr` have to look at the packet? -/
def pkthdrChecked (config : BinkdConfig) (env : Env) (s : State) : Bool :=
  let nodes := s.login.fa.filterMap fun a => getNodeInfo env.now a config
  let secure := s.login.state = .secure
  let listed := nodes.any fun n => n.fa.z.toInt > 0
  let t := config.pkthdrType
  if (nodes.find? fun n => n.hcFlag = .off).isSome then false
  else nodes.any (fun n => n.hcFlag = .on) ||
    !(t = 0 || (t = 4 && !secure) || (t = 8 && secure) || (t = 1 && !listed) || (t = 2 && listed))

/-- `check_pkthdr`: the real name, with another extension for a packet that is not
from the remote. -/
def checkPkthdr (config : BinkdConfig) (env : Env) (tmpName real : Str) (s : State) : Str :=
  match config.pkthdrBad with
  | none => real
  | some bad =>
    if !pkthdrChecked config env s then real
    else
      let origin := (s.disk.fopenR env tmpName).bind fun f =>
        if f.bytes.length < 58 then none else (pktGetaddr (f.bytes.take 58)).map (·.1)
      let ok := match origin with
        | none => false
        | some o => s.login.fa.any fun a =>
            (o.z < 0 || a.z.toInt = o.z) && (o.net < 0 || a.net.toInt = o.net) && a.node.toInt = o.node &&
            (o.p < 0 || a.p.toInt = o.p)
      if ok then real
      else
        let ext := (real.reverse.takeWhile (· != 46)).reverse
        if ext.length + 1 < real.length then
          real.take (real.length - ext.length) ++ bad.take ext.length
        else real

/-- The loop of `inb_done` for a file that overwrites: eleven tries. -/
def overwriteLoop (env : Env) (tmpName real : Str) : Nat → Disk → Disk × Bool
  | 0, disk => (disk, false)
  | n + 1, disk =>
    match (disk.delete env real).1.rename env tmpName real with
    | (disk, none) => (disk, true)
    | (disk, some e) =>
      if e = .exist ∨ e = .acces ∨ e = .again then overwriteLoop env tmpName real n disk else
      (disk, false)

/-- The loop of `inb_done` that looks for a name that is free: the name taken. -/
def renameLoop (env : Env) (tmpName : Str) (first : Str) :
    Nat → RenameStyle → Str → Nat → Disk → Disk × Option Str
  | 0, _, _, _, disk => (disk, none)
  | fuel + 1, style, real, pos, disk =>
    match disk.rename env tmpName real with
    | (disk, none) => (disk, some real)
    | (disk, some e) =>
      if e ≠ .exist ∧ e ≠ .acces ∧ e ≠ .again then (disk, none)
      else match nextInbFilename style real pos with
        | some (real, pos) => renameLoop env tmpName first fuel style real pos disk
        | none =>
          if style = .renameExtension then
            renameLoop env tmpName first fuel .renamePostfix first first.length disk
          else (disk, none)

/-- The renaming part of `inb_done`: the disk, and the real name where it went well. -/
def inbRename (config : BinkdConfig) (env : Env) (file : TFile) (tmpName : Str) (s : State) :
    Disk × Option Str :=
  let first := realName config s.rx.inbound file.netname
  if config.overwrite.any (fun m => pmatchNcase m file.netname) && !ispkt file.netname &&
      !isarcmail file.netname then
    match overwriteLoop env tmpName first 11 s.disk with
    | (disk, true) => (disk, some first)
    | (disk, false) => (disk, none)
  else
    let real := if ispkt file.netname then checkPkthdr config env tmpName first s else first
    let (style, back) := inbStyle config file.netname
    renameLoop env tmpName first inbNames style real (real.length - back)
      (s.disk.touch env tmpName file.time)

/-- The events that follow a renamed file. -/
def inbEvents (config : BinkdConfig) (env : Env) (real : Str) (s : State) : State :=
  match evtTest config env real s with
  | (true, s) =>
    let (q, s) := evtRun config env real (s.login.delayEob > 0) (s.tx.q, s)
    { s with tx := { s.tx with q := q } }
  | (false, s) => s

/-- `inb_done`. -/
def inbDone (config : BinkdConfig) (env : Env) (file : TFile) (s : State) : State × Bool :=
  match findTmpName config env (some file) s with
  | (.found tmpName, s) =>
    match inbRename config env file tmpName s with
    | (disk, none) => ({ s with disk := disk }, false)
    | (disk, some real) =>
      let s := { s with
        disk := (disk.delete env (setExt tmpName (str ".hr"))).1, ops := .done tmpName real :: s.ops }
      let s := if real ≠ [] then inbEvents config env real s else s
      let s := if s.login.delayEob > 0 ∧ isreq file.netname then
          { s with login := { s.login with delayEob := s.login.delayEob - 1 } } else s
      ({ s with rx := { s.rx with
          bytesRcvd := s.rx.bytesRcvd + file.size, filesRcvd := s.rx.filesRcvd + 1 } }, true)
  | (_, s) => (s, false)

/-! ### What these functions leave alone -/

theorem creatTmpName_frame {env : Env} {file : TFile} {dir : Str} {fuel k : Nat} {s : State}
    {r : Str × State} (h : creatTmpName env file dir fuel k s = some r) : DiskFrame s r.2 := by
  induction fuel generalizing k with
  | zero => simp [creatTmpName] at h
  | succ fuel ih =>
    rw [creatTmpName] at h
    dsimp only at h
    split at h
    · exact ih h
    · split_ifs at h
      obtain rfl := Option.some.inj h
      exact ⟨rfl, rfl, rfl, rfl, rfl, rfl⟩

/-- A new pair does not touch a file that is there. -/
theorem creatTmpName_lookup {env : Env} {file : TFile} {dir p : Str} {fuel k : Nat} {s : State}
    {r : Str × State} (h : creatTmpName env file dir fuel k s = some r) (hp : (s.disk.lookup p).isSome) :
    r.2.disk.lookup p = s.disk.lookup p := by
  induction fuel generalizing k with
  | zero => simp [creatTmpName] at h
  | succ fuel ih =>
    rw [creatTmpName] at h
    dsimp only at h
    generalize (withSeparator dir ++ hexPad 8 (env.rnd k) ++ str ".hr").take (maxPathLen - 1) = path at h
    split at h
    · exact ih h
    · next disk hcreate =>
      have hne : p ≠ path := by
        rintro rfl
        unfold Disk.createEmptySemFile at hcreate
        rw [if_pos (.inr hp)] at hcreate
        contradiction
      have hdisk : disk.lookup p = s.disk.lookup p := by
        unfold Disk.createEmptySemFile at hcreate
        split at hcreate
        · contradiction
        · obtain rfl := Option.some.inj hcreate
          exact AList.lookup_insert_ne hne
      split_ifs at h with hok
      obtain rfl := Option.some.inj h
      dsimp only
      unfold Disk.rewrite
      split_ifs
      · exact hdisk
      · exact (AList.lookup_insert_ne hne).trans hdisk
      · exact (AList.lookup_insert_ne hne).trans hdisk

theorem removeHr_frame (env : Env) (path : Str) (s : State) : DiskFrame s (removeHr env path s) :=
  ⟨rfl, rfl, rfl, rfl, rfl, rfl⟩

/-- A `.hr` file that is looked at is left alone, or removed with its pair. -/
theorem findTmp1_state (config : BinkdConfig) (env : Env) (file : Option TFile) (path : Str) (s : State) :
    (findTmp1 config env file path s).2 = s ∨ (findTmp1 config env file path s).2 = removeHr env path s := by
  have old : ∀ size : Int,
      (if toBeDeleted config env path size s then removeHr env path s else s) = s ∨
      (if toBeDeleted config env path size s then removeHr env path s else s) = removeHr env path s := by
    intro size
    split_ifs
    · exact .inr rfl
    · exact .inl rfl
  unfold findTmp1
  dsimp only
  split
  · exact .inl rfl
  · exact old _
  · exact old _
  · split
    · split
      · split_ifs
        · exact .inr rfl
        · exact .inl rfl
      · exact .inl rfl
    · split
      · split_ifs
        · exact .inl rfl
        · exact .inl rfl
        · exact .inr rfl
        · exact .inl rfl
        · exact .inr rfl
        · exact .inl rfl
      · exact old _

theorem findTmp1_frame (config : BinkdConfig) (env : Env) (file : Option TFile) (path : Str)
    (s : State) : DiskFrame s (findTmp1 config env file path s).2 := by
  rcases findTmp1_state config env file path s with h | h
  · rw [h]
    exact .refl s
  · rw [h]
    exact removeHr_frame env path s

theorem findTmpLoop_frame (config : BinkdConfig) (env : Env) (file : Option TFile) (dir : Str)
    (names : List Str) (s : State) : DiskFrame s (findTmpLoop config env file dir names s).2 := by
  induction names generalizing s with
  | nil => exact .refl s
  | cons name names ih =>
    rw [findTmpLoop]
    split_ifs
    · have h1 := findTmp1_frame config env file ((withSeparator dir ++ name).take (maxPathLen - 1)) s
      split
      · next r s' heq => rw [heq] at h1; exact h1
      · next s' heq => rw [heq] at h1; exact h1.trans (ih s')
    · exact ih s

theorem findTmpName_frame (config : BinkdConfig) (env : Env) (file : Option TFile) (s : State) :
    DiskFrame s (findTmpName config env file s).2 := by
  unfold findTmpName
  dsimp only
  split
  · exact .refl s
  · next names _ =>
    have h1 := findTmpLoop_frame config env file (tmpDir config s) names s
    split
    · next r s' heq => rw [heq] at h1; exact h1
    · next s' heq =>
      rw [heq] at h1
      split
      · exact h1
      · next file =>
        split
        · next path s'' hc => exact h1.trans (creatTmpName_frame hc)
        · exact h1

theorem inbOpenDt_frame (config : BinkdConfig) (env : Env) (buf : Str) (fuel : Nat) (s : State) :
    DiskFrame s (inbOpenDt config env buf fuel s).2 := by
  induction fuel generalizing s with
  | zero => exact .refl s
  | succ fuel ih =>
    rw [inbOpenDt]
    dsimp only
    split_ifs
    · exact .refl s
    · split
      · refine DiskFrame.trans ?_ (ih _)
        exact ⟨rfl, rfl, rfl, rfl, rfl, rfl⟩
      · split
        · refine DiskFrame.trans ?_ (ih _)
          exact ⟨rfl, rfl, rfl, rfl, rfl, rfl⟩
        · exact ⟨rfl, rfl, rfl, rfl, rfl, rfl⟩
    · exact ⟨rfl, rfl, rfl, rfl, rfl, rfl⟩
    · exact ⟨rfl, rfl, rfl, rfl, rfl, rfl⟩

theorem inbFopen_frame (config : BinkdConfig) (env : Env) (s : State) :
    DiskFrame s (inbFopen config env s).2 := by
  have h1 := findTmpName_frame config env (some s.rx.inf) s
  unfold inbFopen
  split
  · next heq => rw [heq] at h1; exact h1
  · next heq => rw [heq] at h1; exact h1.trans (inbOpenDt_frame ..)
  · next heq => rw [heq] at h1; exact h1.trans (inbOpenDt_frame ..)

theorem inbReject_frame (config : BinkdConfig) (env : Env) (s : State) :
    DiskFrame s (inbReject config env s) := by
  have h1 := findTmpName_frame config env (some s.rx.inf) s
  unfold inbReject
  split
  · next heq => rw [heq] at h1; exact h1.trans (removeHr_frame ..)
  · next heq => rw [heq] at h1; exact h1

end Binkd
