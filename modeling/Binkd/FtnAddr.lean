import Binkd.Names

/-!
# Addresses and domains (`ftnaddr.c`, `ftndom.c`)

An address is `zone:net/node.point@domain`, with `-1` for a part that is absent.
`parseFtnaddress` reads one through the tokens of `gettoken`, `ftnaddressCmp`
compares two, and `ftnaddressToFilename` is the name of the outbound files of an
address, without their extension.
-/

namespace Binkd

/-- `MAX_DOMAIN`, `MAXPATHLEN`. -/
def maxDomain : Nat := 32
def maxPathLen : Nat := 4096

/-- `FTN_ADDR`; the numbers are `int`s. -/
@[ext]
structure FtnAddr where
  domain : Str := []
  z : Int32 := -1
  net : Int32 := -1
  node : Int32 := -1
  p : Int32 := -1
deriving DecidableEq, Repr

/-- `FTN_DOMAIN`; `alias4` is the name of the domain that this one stands for. -/
structure FtnDomain where
  name : Str
  path : Str
  dir : Str
  z : Int32
  alias4 : Option Str := none
  idomain : Option Str := none

/-- `FA_ISNULL`. -/
def FtnAddr.isNull (fa : FtnAddr) : Bool :=
  fa.domain = [] ∧ fa.z = -1 ∧ fa.net = -1 ∧ fa.node = -1 ∧ fa.p = -1

def FtnAddr.is4D (fa : FtnAddr) : Bool := fa.z ≠ -1 ∧ fa.node ≠ -1 ∧ fa.net ≠ -1 ∧ fa.p ≠ -1

def FtnAddr.is5D (fa : FtnAddr) : Bool := fa.is4D && fa.domain ≠ []

/-- `get_domain_info`. -/
def getDomainInfo (name : Str) (pDomains : List FtnDomain) : Option FtnDomain :=
  pDomains.find? fun d => stricmp d.name name = 0

/-- `get_matched_domain`; at least one domain is defined. -/
def getMatchedDomain (zone : Int32) (pAddr : List FtnAddr) (pDomains : List FtnDomain) : Str :=
  match pDomains.find? fun d => d.alias4.isNone && d.z = zone with
  | some d => d.name
  | none => match pAddr.find? fun a => zone = a.z with
    | some a => a.domain
    | none => match pAddr with
      | a :: _ => a.domain
      | [] => (pDomains.head?.map (·.name)).getD []

/-! ### Parsing -/

/-- `TOKEN`. -/
structure Token where
  c : Byte := 0
  n : Int32 := 0
  s : Str := []
deriving DecidableEq

inductive TokenType
  | null | sep | num | word
deriving DecidableEq

/-- `token_type`. -/
def Token.type (t : Token) : TokenType :=
  if t.s ≠ [] then .word else if t.c ≠ 0 then .sep else if t.n = -1 then .null else .num

/-- `gettoken`: a token and the text behind it; `none` where it returns -1. -/
def gettoken (s : Str) : Option (Token × Str) :=
  match s with
  | [] => some ({ n := -1 }, [])
  | c :: r =>
    if c = 58 ∨ c = 47 ∨ c = 46 ∨ c = 64 then some ({ c := c }, r)
    else if isdigit c then
      some ({ n := ((c :: r).takeWhile isdigit).foldl
                (fun n d => n * 10 + d.toUInt32.toInt32 - 48) 0 },
        (c :: r).dropWhile isdigit)
    else if isalpha c then
      let w := ((c :: r).takeWhile fun c => c = 46 ∨ c = 45 ∨ c = 95 ∨ isalnum c).take maxDomain
      some ({ s := w }, (c :: r).drop w.length)
    else none

def gettokens : Nat → Str → Option (List Token)
  | 0, _ => some []
  | n + 1, s => match gettoken s with
    | none => none
    | some (t, r) => (gettokens n r).map (t :: ·)

/-- The checks at the end of `parse_ftnaddress`, and the default point. -/
def parseEnd (fa : FtnAddr) (rest : List Token) : Option FtnAddr :=
  if (rest.headD {}).type ≠ .null ∨ (fa.node = -1 ∧ fa.p = -1) ∨ (fa.domain ≠ [] ∧ fa.z = -1) ∨
      (fa.z ≠ -1 ∧ fa.net = -1) ∨ (fa.net ≠ -1 ∧ fa.node = -1) then none
  else some (if fa.p = -1 then { fa with p := 0 } else fa)

/-- The domain part of `parse_ftnaddress`. -/
def parseDomain (pDomains : List FtnDomain) (fa : FtnAddr) : List Token → Option FtnAddr
  | t :: u :: rest =>
    if t.c = 64 then
      if u.type ≠ .word then none
      else parseEnd { fa with domain := match getDomainInfo u.s pDomains with
        | some d => d.alias4.getD d.name
        | none => u.s } rest
    else parseEnd fa (t :: u :: rest)
  | rest => parseEnd fa rest

/-- The point part of `parse_ftnaddress`. -/
def parsePoint (pDomains : List FtnDomain) (fa : FtnAddr) : List Token → Option FtnAddr
  | t :: u :: rest =>
    if t.c = 46 then
      if u.type ≠ .num then none else parseDomain pDomains { fa with p := u.n } rest
    else parseDomain pDomains fa (t :: u :: rest)
  | rest => parseDomain pDomains fa rest

/-- The node part of `parse_ftnaddress`, behind an optional slash. -/
def parseNode (pDomains : List FtnDomain) (fa : FtnAddr) (ts : List Token) : Option FtnAddr :=
  let ts := if (ts.headD {}).c = 47 then ts.drop 1 else ts
  match ts with
  | t :: rest =>
    if t.type = .num then parsePoint pDomains { fa with node := t.n } rest
    else if t.c ≠ 46 then none
    else parsePoint pDomains fa (t :: rest)
  | [] => none

/-- The net part of `parse_ftnaddress`. -/
def parseNet (pDomains : List FtnDomain) (fa : FtnAddr) : List Token → Option FtnAddr
  | t :: u :: rest =>
    if t.type = .num ∧ u.c = 47 then parseNode pDomains { fa with net := t.n } (u :: rest)
    else parseNode pDomains fa (t :: u :: rest)
  | rest => parseNode pDomains fa rest

/-- `parse_ftnaddress`: ten tokens, then zone, net, node, point and domain. -/
def parseFtnaddress (s : Str) (pDomains : List FtnDomain) : Option FtnAddr :=
  match gettokens 10 s with
  | some (t :: u :: rest) =>
    if t.type = .num ∧ u.c = 58 then parseNet pDomains { z := t.n } rest
    else parseNet pDomains {} (t :: u :: rest)
  | _ => none

/-! ### Printing -/

/-- `xftnaddress_to_str`. -/
def xftnaddressToStr (fa : FtnAddr) (forcePoint : Bool) : Str :=
  (if fa.z ≠ -1 then decimalInt fa.z.toInt ++ str ":" else []) ++
  (if fa.net ≠ -1 then decimalInt fa.net.toInt else []) ++
  (if fa.node ≠ -1 then str "/" ++ decimalInt fa.node.toInt else []) ++
  (if fa.p ≠ 0 ∨ fa.node = -1 ∨ forcePoint then str "." ++ decimalInt fa.p.toInt else []) ++
  (if fa.domain ≠ [] then str "@" ++ fa.domain else [])

/-- `ftnaddress_to_str`. -/
def ftnaddressToStr (fa : FtnAddr) : Str := xftnaddressToStr fa false

example : (parseFtnaddress (str "2:5047/13@FidoNet") [⟨str "fidonet", str "/o", str "out", 2, none, none⟩]).map
    ftnaddressToStr = some (str "2:5047/13@fidonet") := by decide

/-- `ftnaddress_to_filename`: the outbound files of an address without their
extension, or the empty string for an unknown domain. -/
def ftnaddressToFilename (fa : FtnAddr) (pDomains : List FtnDomain) : Str :=
  match getDomainInfo fa.domain pDomains with
  | none => []
  | some d =>
    (d.path ++ str "/" ++ d.dir ++ (if fa.z ≠ d.z then str "." ++ hexInt 3 fa.z else []) ++ str "/" ++
      hexInt 4 fa.net ++ hexInt 4 fa.node ++
      (if fa.p ≠ 0 then str ".pnt/" ++ hexInt 8 fa.p else [])).take (maxPathLen - 1)

/-! ### Comparison -/

/-- `ftnaddress_cmp` of two addresses; the differences are `int`s. -/
def ftnaddressCmp (a b : FtnAddr) : Int :=
  if stricmp a.domain b.domain ≠ 0 then stricmp a.domain b.domain
  else if a.z ≠ b.z then (a.z - b.z).toInt
  else if a.net ≠ b.net then (a.net - b.net).toInt
  else if a.node ≠ b.node then (a.node - b.node).toInt
  else if a.p ≠ b.p then (a.p - b.p).toInt
  else 0

/-- `ftnaddress_cmp` where the first pointer may be null. -/
def ftnaddressCmpOpt (a : Option FtnAddr) (b : FtnAddr) : Int :=
  match a with
  | none => -1
  | some a => ftnaddressCmp a b

/-- `ftnamask_cmpm`: 0 if any of the addresses matches the mask. -/
def ftnamaskCmpm (mask : Str) (fa : List FtnAddr) : Int :=
  if fa.any fun a => pmatchNcase mask (xftnaddressToStr a true) then 0 else -1

/-- The comparison tells addresses apart that differ in more than the case of the domain. -/
theorem ftnaddressCmp_eq_zero {a b : FtnAddr} :
    ftnaddressCmp a b = 0 ↔
      stricmp a.domain b.domain = 0 ∧ a.z = b.z ∧ a.net = b.net ∧ a.node = b.node ∧ a.p = b.p := by
  have sub_eq : ∀ {x y : Int32}, (x - y).toInt = 0 → x = y := by
    intro x y h
    have h0 : x - y = 0 := Int32.toInt_inj.mp h
    rw [← Int32.sub_add_cancel x y, h0, Int32.zero_add]
  unfold ftnaddressCmp
  constructor
  · intro h
    split_ifs at h with h1 h2 h3 h4 h5
    · exact absurd h h1
    · exact absurd (sub_eq h) h2
    · exact absurd (sub_eq h) h3
    · exact absurd (sub_eq h) h4
    · exact absurd (sub_eq h) h5
    · simp only [ne_eq, not_not] at h1 h2 h3 h4 h5
      exact ⟨h1, h2, h3, h4, h5⟩
  · rintro ⟨h1, h2, h3, h4, h5⟩
    simp [h1, h2, h3, h4, h5]

theorem ftnaddressCmp_self (a : FtnAddr) : ftnaddressCmp a a = 0 := by
  simp [ftnaddressCmp, stricmp_self]

end Binkd
