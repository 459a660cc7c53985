import Binkd.Misc.Portable
import Binkd.Names

/-!
# The node lines of a nodelist (`misc/nodelist.c`)

The compiler keeps the zone and the net of the lines above and prints a node line for each
entry with an `IBN` flag.  An entry `Host` is the node 0 of its net, but it is printed with
its net's number, so the addresses are right if and only if no such entry can be called
(`nodelist_addresses`).
-/

namespace Binkd

/-! ### A line -/

/-- `split_fields`: the first `MAX_FIELDS` fields. -/
def splitFields (buf : Str) : List Str := (buf.splitOn 44).take 20

/-- The fields of a line; `none` for a comment and for a line with less than two. -/
def nodelistFields (line : Str) : Option (Str × Str × List Str) :=
  let buf := strTrim line
  if buf = [] ∨ buf.head? = some 59 then none
  else match splitFields buf with
    | f0 :: f1 :: rest => some (f0, f1, rest)
    | _ => none

/-- `find_flag`: the value of the first field that begins with the flag, if there is one, cut to its
buffer. -/
def findFlag (fields : List Str) (flag : Str) (vsize : ℕ) : Option Str :=
  (fields.find? fun f => (f.take flag.length).map toupper = flag.map toupper).map fun f =>
    match f.drop flag.length with
    | 58 :: val => val.take (vsize - 1)
    | _ => []

/-- A port, or the usual one. -/
def portOf (s : Str) : Int := if atoi s > 0 then atoi s else 24554

/-- The host and the port of the flags behind the seventh field; `none` where there is no `IBN` flag
or no host. -/
def hostPort (fields : List Str) : Option (Str × Int) :=
  match findFlag fields (str "IBN") 32 with
  | none => none
  | some ibnPort =>
    let inaHost := (findFlag fields (str "INA") 256).getD []
    let (host, port) :=
      if inaHost = [] ∧ ibnPort ≠ [] then
        if 58 ∈ ibnPort then
          (ibnPort.takeWhile (· != 58), portOf (ibnPort.dropWhile (· != 58)).tail)
        else if ibnPort.any fun c => c == 46 || (65 ≤ c && c ≤ 90) || (97 ≤ c && c ≤ 122) then (ibnPort, 24554)
        else (inaHost, portOf ibnPort)
      else (inaHost, portOf ibnPort)
    if host = [] then none else some (host, port)

/-! ### The compiler -/

/-- `cur_zone` and `cur_net`. -/
structure NlContext where
  curZone : Int := 0
  curNet : Int := 0
deriving DecidableEq

/-- A line `node zone:net/node@domain host:port -` of the output. -/
structure NodeLine where
  zone : Int
  net : Int
  node : Int
  host : Str
  port : Int
deriving DecidableEq

def NodeLine.print (domain : Str) (l : NodeLine) : Str :=
  str "node " ++ decimalInt l.zone ++ str ":" ++ decimalInt l.net ++ str "/" ++ decimalInt l.node ++ str "@" ++ domain ++
    str " " ++ l.host ++ str ":" ++ decimalInt l.port ++ str " -\n"

/-- `type` of an entry. -/
def entryType (f0 : Str) : Str := if f0 = [] then str "Node" else f0.take 31

/-- The part of the loop of `main` behind the context: what an entry emits. -/
def nlEmit (ctx : NlContext) (type : Str) (nodeNum : Int) (flags : List Str) : Option NodeLine :=
  if type ∈ [str "Pvt", str "PVT", str "Hold", str "HOLD", str "Down", str "DOWN", str "Boss", str "BOSS"] then none
  else match hostPort flags with
    | none => none
    | some (host, port) => if ctx.curZone = 0 then none else some ⟨ctx.curZone, ctx.curNet, nodeNum, host, port⟩

/-- The loop of `main`, for a nodelist that is no pointlist: the context behind a line, and what it
emits. -/
def nlStep (ctx : NlContext) (line : Str) : NlContext × Option NodeLine :=
  match nodelistFields line with
  | none => (ctx, none)
  | some (f0, f1, rest) =>
    let type := entryType f0
    let nodeNum := atoi f1
    if type = str "Zone" ∨ type = str "ZONE" then ({ curZone := nodeNum, curNet := nodeNum }, none)
    else if type = str "Region" ∨ type = str "REGION" then ({ ctx with curNet := nodeNum }, none)
    else
      let ctx := if type = str "Host" ∨ type = str "HOST" then { ctx with curNet := nodeNum } else ctx
      (ctx, nlEmit ctx type nodeNum (rest.drop 5))

/-- What each line emits. -/
def nlRun (ctx : NlContext) : List Str → List (Option NodeLine)
  | [] => []
  | line :: lines => (nlStep ctx line).2 :: nlRun (nlStep ctx line).1 lines

/-- `main`: the text that is written for a nodelist. -/
def compileNodelist (domain : Str) (text : List Byte) : List Byte :=
  ((nlRun {} (readLines text.length text)).flatMap Option.toList).flatMap (NodeLine.print domain)

/-! ### The meaning of a nodelist -/

/-- The kinds of entries that make up the address of others. -/
inductive EntryKind
  | zone | region | host | other
deriving DecidableEq

def kindOf (type : Str) : EntryKind :=
  if type = str "Zone" ∨ type = str "ZONE" then .zone
  else if type = str "Region" ∨ type = str "REGION" then .region
  else if type = str "Host" ∨ type = str "HOST" then .host
  else .other

/-- The kind and the number of an entry; `none` for a line that is none. -/
def entryOf (line : Str) : Option (EntryKind × Int) :=
  (nodelistFields line).map fun (f0, f1, _) => (kindOf (entryType f0), atoi f1)

/-- The zone behind these lines: the number of the last zone. -/
def zoneAfter (lines : List Str) : Int :=
  ((lines.reverse.filterMap entryOf).find? fun e => e.1 = .zone).elim 0 (·.2)

/-- The net behind these lines: the number of the last zone, region or host. -/
def netAfter (lines : List Str) : Int :=
  ((lines.reverse.filterMap entryOf).find? fun e => e.1 ≠ .other).elim 0 (·.2)

/-- The address of an entry: a host is node 0 of its net, any other entry a node of the current net. -/
def addressAt (lines : List Str) (i : ℕ) : Option (Int × Int × Int) :=
  ((lines[i]?).bind entryOf).map fun (kind, n) => match kind with
    | .host => (zoneAfter (lines.take i), n, 0)
    | _ => (zoneAfter (lines.take i), netAfter (lines.take i), n)

def NodeLine.addr (l : NodeLine) : Int × Int × Int := (l.zone, l.net, l.node)

/-- What the line at a place emits. -/
def emittedAt (lines : List Str) (i : ℕ) : Option NodeLine := ((nlRun {} lines)[i]?).join

/-- Every line that is emitted carries the address of its entry, and entries with different
addresses are emitted under different ones. -/
def AddressesRight (lines : List Str) : Prop :=
  (∀ i l, emittedAt lines i = some l → addressAt lines i = some l.addr) ∧
  ∀ i j l m, emittedAt lines i = some l → emittedAt lines j = some m →
    addressAt lines i ≠ addressAt lines j →
    l.addr ≠ m.addr

/-- The place holds a host with a number other than 0, with an `IBN` flag and a host name, below a
zone. -/
def CallableHost (lines : List Str) (i : ℕ) : Prop :=
  ∃ f0 f1 rest, (lines[i]?).bind nodelistFields = some (f0, f1, rest) ∧
    kindOf (entryType f0) = .host ∧ atoi f1 ≠ 0 ∧
    (hostPort (rest.drop 5)).isSome ∧ zoneAfter (lines.take i) ≠ 0

/-! ### The context -/

/-- The context behind some lines. -/
def contextAfter (lines : List Str) : NlContext := ⟨zoneAfter lines, netAfter lines⟩

theorem zoneAfter_snoc (lines : List Str) (line : Str) :
    zoneAfter (lines ++ [line]) = match entryOf line with
      | some (.zone, n) => n
      | _ => zoneAfter lines := by
  unfold zoneAfter
  rw [List.reverse_append, List.reverse_singleton, List.singleton_append, List.filterMap_cons]
  cases entryOf line with
  | none => rfl
  | some e =>
    obtain ⟨kind, n⟩ := e
    cases kind <;> rfl

theorem netAfter_snoc (lines : List Str) (line : Str) :
    netAfter (lines ++ [line]) = match entryOf line with
      | none => netAfter lines
      | some (.other, _) => netAfter lines
      | some (_, n) => n := by
  unfold netAfter
  rw [List.reverse_append, List.reverse_singleton, List.singleton_append, List.filterMap_cons]
  cases entryOf line with
  | none => rfl
  | some e =>
    obtain ⟨kind, n⟩ := e
    cases kind <;> rfl

/-- A step keeps the context that the lines before it make. -/
theorem nlStep_context (lines : List Str) (line : Str) :
    (nlStep (contextAfter lines) line).1 = contextAfter (lines ++ [line]) := by
  unfold contextAfter
  rw [zoneAfter_snoc, netAfter_snoc]
  unfold nlStep entryOf
  cases nodelistFields line with
  | none => rfl
  | some f =>
    obtain ⟨f0, f1, rest⟩ := f
    dsimp only [Option.map_some]
    unfold kindOf
    by_cases hzone : entryType f0 = str "Zone" ∨ entryType f0 = str "ZONE"
    · rw [if_pos hzone, if_pos hzone]
    rw [if_neg hzone, if_neg hzone]
    by_cases hregion : entryType f0 = str "Region" ∨ entryType f0 = str "REGION"
    · rw [if_pos hregion, if_pos hregion]
    rw [if_neg hregion, if_neg hregion]
    by_cases hhost : entryType f0 = str "Host" ∨ entryType f0 = str "HOST"
    · rw [if_pos hhost, if_pos hhost]
    · rw [if_neg hhost, if_neg hhost]

theorem nlRun_at : ∀ (lines pre : List Str) (i : ℕ),
    (nlRun (contextAfter pre) lines)[i]? = lines[i]?.map fun line =>
    (nlStep (contextAfter (pre ++ lines.take i)) line).2 := by
  intro lines
  induction lines with
  | nil =>
    intro pre i
    rfl
  | cons line lines ih =>
    intro pre i
    cases i with
    | zero =>
      rw [nlRun, List.take_zero, List.append_nil]
      rfl
    | succ i =>
      rw [nlRun, List.getElem?_cons_succ, List.getElem?_cons_succ, nlStep_context, ih,
        List.take_succ_cons,
        List.append_assoc, List.singleton_append]

/-- What a place emits is up to its line and the context that the lines before it make. -/
theorem emittedAt_eq (lines : List Str) (i : ℕ) :
    emittedAt lines i = (lines[i]?).bind fun line => (nlStep (contextAfter (lines.take i)) line).2 := by
  have hrun := nlRun_at lines [] i
  rw [List.nil_append] at hrun
  have hstart : ({} : NlContext) = contextAfter [] := rfl
  rw [emittedAt, hstart, hrun]
  cases lines[i]? <;> rfl

/-! ### The addresses -/

variable {lines : List Str} {i : ℕ} {l : NodeLine}

theorem nlEmit_some {ctx : NlContext} {type : Str} {nodeNum : Int} {flags : List Str}
    (h : nlEmit ctx type nodeNum flags = some l) :
    l.addr = (ctx.curZone, ctx.curNet, nodeNum) ∧ (hostPort flags).isSome ∧ ctx.curZone ≠ 0 := by
  unfold nlEmit at h
  by_cases hskip : type ∈ [str "Pvt", str "PVT", str "Hold", str "HOLD", str "Down", str "DOWN", str "Boss", str "BOSS"]
  · rw [if_pos hskip] at h
    exact absurd h (by simp)
  rw [if_neg hskip] at h
  cases hhost : hostPort flags with
  | none =>
    rw [hhost] at h
    exact absurd h (by simp)
  | some hp =>
    rw [hhost] at h
    dsimp only at h
    by_cases hzone : ctx.curZone = 0
    · rw [if_pos hzone] at h
      exact absurd h (by simp)
    · rw [if_neg hzone] at h
      obtain rfl := Option.some.inj h
      exact ⟨rfl, rfl, hzone⟩

/-- An entry that is emitted is a host or a node, and stands below a zone. -/
theorem emitted_entry (h : emittedAt lines i = some l) :
    ∃ f0 f1 rest, (lines[i]?).bind nodelistFields = some (f0, f1, rest) ∧
    (hostPort (rest.drop 5)).isSome ∧
      zoneAfter (lines.take i) ≠ 0 ∧
      (kindOf (entryType f0) = .host ∧ l.addr = (zoneAfter (lines.take i), atoi f1, atoi f1) ∨
        kindOf (entryType f0) = .other ∧ l.addr = (zoneAfter (lines.take i), netAfter (lines.take i), atoi f1)) := by
  rw [emittedAt_eq] at h
  obtain ⟨line, hline, hstep⟩ := Option.bind_eq_some_iff.mp h
  unfold nlStep at hstep
  cases hfields : nodelistFields line with
  | none =>
    rw [hfields] at hstep
    exact absurd hstep (by simp)
  | some f =>
    obtain ⟨f0, f1, rest⟩ := f
    rw [hfields] at hstep
    dsimp only at hstep
    unfold kindOf
    refine ⟨f0, f1, rest, by rw [hline]; exact hfields, ?_⟩
    by_cases hzone : entryType f0 = str "Zone" ∨ entryType f0 = str "ZONE"
    · rw [if_pos hzone] at hstep
      exact absurd hstep (by simp)
    by_cases hregion : entryType f0 = str "Region" ∨ entryType f0 = str "REGION"
    · rw [if_neg hzone, if_pos hregion] at hstep
      exact absurd hstep (by simp)
    rw [if_neg hzone, if_neg hregion] at hstep ⊢
    by_cases hhost : entryType f0 = str "Host" ∨ entryType f0 = str "HOST"
    · rw [if_pos hhost] at hstep ⊢
      obtain ⟨haddr, hport, hz⟩ := nlEmit_some hstep
      exact ⟨hport, hz, .inl ⟨rfl, haddr⟩⟩
    · rw [if_neg hhost] at hstep ⊢
      obtain ⟨haddr, hport, hz⟩ := nlEmit_some hstep
      exact ⟨hport, hz, .inr ⟨rfl, haddr⟩⟩

/-- A host that can be called is emitted, under its number twice. -/
theorem host_emitted {f0 f1 : Str} {rest : List Str}
    (hfields : (lines[i]?).bind nodelistFields = some (f0, f1, rest))
    (hkind : kindOf (entryType f0) = .host) (hport : (hostPort (rest.drop 5)).isSome) (hzone : zoneAfter (lines.take i) ≠ 0) :
    ∃ l, emittedAt lines i = some l ∧ l.addr = (zoneAfter (lines.take i), atoi f1, atoi f1) := by
  obtain ⟨line, hline, hf⟩ := Option.bind_eq_some_iff.mp hfields
  obtain ⟨⟨host, port⟩, hhp⟩ := Option.isSome_iff_exists.mp hport
  have htype : entryType f0 = str "Host" ∨ entryType f0 = str "HOST" := by
    unfold kindOf at hkind
    split_ifs at hkind with h1 h2 h3
    exact h3
  have hemit (ctx : NlContext) (hz : ctx.curZone ≠ 0) :
      nlEmit ctx (entryType f0) (atoi f1) (rest.drop 5) = some ⟨ctx.curZone, ctx.curNet, atoi f1, host, port⟩ := by
    unfold nlEmit
    rw [hhp]
    dsimp only
    rw [if_neg hz, if_neg]
    rcases htype with h | h
    all_goals
      rw [h]
      decide
  refine ⟨⟨zoneAfter (lines.take i), atoi f1, atoi f1, host, port⟩, ?_, rfl⟩
  rw [emittedAt_eq, hline, Option.bind_some]
  unfold nlStep
  rw [hf]
  dsimp only
  rw [if_neg, if_neg, if_pos htype, hemit _ hzone]
  · rfl
  all_goals
    rcases htype with h | h
    all_goals
      rw [h]
      decide

theorem addressAt_eq {f0 f1 : Str} {rest : List Str}
    (hfields : (lines[i]?).bind nodelistFields = some (f0, f1, rest)) :
    addressAt lines i = some (match kindOf (entryType f0) with
      | .host => (zoneAfter (lines.take i), atoi f1, 0)
      | _ => (zoneAfter (lines.take i), netAfter (lines.take i), atoi f1)) := by
  have hentry : (lines[i]?).bind entryOf = some (kindOf (entryType f0), atoi f1) := by
    obtain ⟨line, hline, hf⟩ := Option.bind_eq_some_iff.mp hfields
    rw [hline, Option.bind_some, entryOf, hf]
    rfl
  rw [addressAt, hentry]
  rfl

/-- The addresses are right for just the nodelists without a host that can be called, but for those
of number 0. -/
theorem nodelist_addresses (lines : List Str) : AddressesRight lines ↔ ∀ i, ¬ CallableHost lines i := by
  constructor
  · rintro ⟨hright, -⟩ i ⟨f0, f1, rest, hfields, hkind, hnum, hport, hzone⟩
    obtain ⟨l, hl, haddr⟩ := host_emitted hfields hkind hport hzone
    have heq := hright i l hl
    rw [addressAt_eq hfields, hkind, haddr] at heq
    have hzero : 0 = atoi f1 := by simpa using heq
    exact hnum hzero.symm
  · intro hno
    have hright : ∀ i l, emittedAt lines i = some l → addressAt lines i = some l.addr := by
      intro i l hl
      obtain ⟨f0, f1, rest, hfields, hport, hzone, ⟨hkind, haddr⟩ | ⟨hkind, haddr⟩⟩ := emitted_entry hl
      · rw [addressAt_eq hfields, hkind, haddr]
        by_cases hnum : atoi f1 = 0
        · rw [hnum]
        · exact absurd ⟨f0, f1, rest, hfields, hkind, hnum, hport, hzone⟩ (hno i)
      · rw [addressAt_eq hfields, hkind, haddr]
    refine ⟨hright, fun i j l m hl hm hne heq => hne ?_⟩
    rw [hright i l hl, hright j m hm, heq]

/-- The host of net 5020 and its node 5020: both are emitted as node 5020. -/
def hostLines : List Str :=
  [str "Zone,2,Europe
", str "Host,5020,Net,City,Name,-Unpublished-,300,IBN:hub.example.org
",
    str ",5020,Node,City,Name,-Unpublished-,300,IBN:node.example.org
"]

theorem host_collides :
    (emittedAt hostLines 1).map NodeLine.addr = some (2, 5020, 5020) ∧
    addressAt hostLines 1 = some (2, 5020, 0) ∧
    (emittedAt hostLines 2).map NodeLine.addr = some (2, 5020, 5020) ∧ addressAt hostLines 2 = some
    (2, 5020, 5020) ∧
    ¬ AddressesRight hostLines := by
  have hemit : (emittedAt hostLines 1).map NodeLine.addr = some (2, 5020, 5020) := by decide +kernel
  have haddr : addressAt hostLines 1 = some (2, 5020, 0) := by decide +kernel
  refine ⟨hemit, haddr, by decide +kernel, by decide +kernel, ?_⟩
  rintro ⟨hright, -⟩
  obtain ⟨l, hl, hladdr⟩ := Option.map_eq_some_iff.mp hemit
  have heq := hright 1 l hl
  rw [haddr, hladdr] at heq
  exact absurd heq (by decide)

end Binkd
