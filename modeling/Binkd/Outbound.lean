import Binkd.Session
import Mathlib.Data.List.GetD
import Mathlib.Data.List.TakeWhile

/-!
# Names of the outbound

`ftnaddress_to_filename` puts an address into a name: the directory of its domain, with
the zone as an extension where it is not the default one, net and node in eight
hexadecimal digits, and a point in a directory of its own.  `q_scan` finds the
directories again by the name of the domain's directory and reads the address back.
Domains whose directories are apart (`DomainsApart`) get different names for different addresses
(`ftnaddressToFilename_inj`), and what `q_scan` finds under such a name belongs to the
very address (`FoundByScan.decodes`).
-/

namespace Binkd

/-! ### Hexadecimal numbers -/

/-- The number that hexadecimal digits stand for. -/
def hexNat (s : Str) : Nat := s.foldl (fun v c => v * 16 + (xd c).toNat) 0

theorem hexNat_append (s t : Str) :
    hexNat (s ++ t) = t.foldl (fun v c => v * 16 + (xd c).toNat) (hexNat s) :=
  List.foldl_append

theorem hexNat_zeros (n : Nat) (s : Str) : hexNat (List.replicate n 48 ++ s) = hexNat s := by
  induction n with
  | zero => rfl
  | succ n ih =>
    rw [List.replicate_succ, List.cons_append]
    exact ih

theorem digitChar_hex : ∀ k < 16, isxdigit (Nat.digitChar k).toNat.toUInt8 = true ∧
    (xd (Nat.digitChar k).toNat.toUInt8).toNat = k := by decide +kernel

theorem toDigits_hex (n : Nat) : hexNat ((Nat.toDigits 16 n).map fun c => c.toNat.toUInt8) = n ∧
    ∀ c ∈ (Nat.toDigits 16 n).map fun c => c.toNat.toUInt8, isxdigit c = true := by
  induction n using Nat.strong_induction_on with
  | _ n ih =>
    rw [Nat.toDigits_eq_if (by decide)]
    split
    · next hlt =>
      obtain ⟨hdigit, hval⟩ := digitChar_hex n hlt
      refine ⟨?_, fun c hc => ?_⟩
      · simp [hexNat, hval]
      · simp only [List.map_cons, List.map_nil, List.mem_singleton] at hc
        rw [hc, hdigit]
    · next hge =>
      obtain ⟨hval, hdigits⟩ := ih (n / 16) (Nat.div_lt_self (by omega) (by decide))
      obtain ⟨hdigit, hlast⟩ := digitChar_hex (n % 16) (Nat.mod_lt _ (by decide))
      refine ⟨?_, fun c hc => ?_⟩
      · rw [List.map_append, hexNat_append, hval]
        simp only [List.map_cons, List.map_nil, List.foldl_cons, List.foldl_nil, hlast]
        omega
      · rw [List.map_append, List.mem_append] at hc
        rcases hc with hc | hc
        · exact hdigits c hc
        · simp only [List.map_cons, List.map_nil, List.mem_singleton] at hc
          rw [hc, hdigit]

/-- What `%0<w>x` prints is a number again, of `w` digits where they are enough. -/
theorem hexPad_spec {w n : Nat} (hw : 0 < w) (h : n < 16 ^ w) :
    hexNat (hexPad w n) = n ∧ (hexPad w n).length = w ∧ ∀ c ∈ hexPad w n, isxdigit c = true := by
  obtain ⟨hval, hdigits⟩ := toDigits_hex n
  have hlen : (Nat.toDigits 16 n).length ≤ w := (Nat.length_toDigits_le_iff (by decide) hw).mpr h
  refine ⟨?_, ?_, fun c hc => ?_⟩
  · rw [hexPad, hexNat_zeros, hval]
  · rw [hexPad, List.length_append, List.length_replicate, List.length_map]
    omega
  · rcases List.mem_append.mp hc with hc | hc
    · rw [List.eq_of_mem_replicate hc]
      decide
    · exact hdigits c hc

theorem hexValue_eq (s : Str) : hexValue s = UInt32.ofNat (hexNat s) := by
  have hfold : ∀ (v : Nat), s.foldl (fun v c => v * 16 + (xd c).toUInt32) (UInt32.ofNat v) =
      UInt32.ofNat (s.foldl (fun v c => v * 16 + (xd c).toNat) v) := by
    induction s with
    | nil => exact fun _ => rfl
    | cons c s ih =>
      intro v
      rw [List.foldl_cons, List.foldl_cons, ← ih]
      congr 1
      rw [UInt32.ofNat_add, UInt32.ofNat_mul]
      congr 1
      exact UInt32.toNat_inj.mp (by simp)
  exact hfold 0

/-! ### `q_scan` -/

/-- `strtol (s, 0, 16)` behind a hexadecimal digit, as an `int`. -/
def strtolHex (s : Str) : Int32 :=
  let s := if s.headD 0 = 48 ∧ tolower (s.getD 1 0) = 120 ∧ isxdigit (s.getD 2 0) then s.drop 2 else s
  Int32.ofInt (min (hexNat (s.takeWhile isxdigit)) (2 ^ 63 - 1 : Nat))

/-- Is it the directory of a domain, with a zone or without? -/
def isDomainDir (d : FtnDomain) (name : Str) : Bool :=
  strnicmp d.dir.length name d.dir = 0 &&
    (name.length = d.dir.length ||
      (name.getD d.dir.length 0 = 46 && isxdigit (name.getD (d.dir.length + 1) 0)))

/-- The zone of the directory. -/
def dirZone (d : FtnDomain) (name : Str) : Int32 :=
  if name.getD d.dir.length 0 = 46 then strtolHex (name.drop (d.dir.length + 1)) else d.z

/-- `q_scan` for one domain. -/
def qScanDomain (config : BinkdConfig) (env : Env) (qd : Queue × Disk) (d : FtnDomain) : Queue × Disk :=
  if d.alias4.isSome then qd
  else match qd.2.readdir env (if d.path.getLast? = some 58 then d.path ++ str "/" else d.path) with
    | none => qd
    | some names => names.foldl (fun qd name =>
        if isDomainDir d name && (name.length = d.dir.length || dirZone d name ≠ d.z) then
          qAddDir config env 16 (d.path ++ str "/" ++ name) { domain := d.name, z := dirZone d name } qd
        else qd) qd

/-- The loop of `q_scan` over the domains. -/
def qScanDomains (config : BinkdConfig) (env : Env) (qd : Queue × Disk) : Queue × Disk :=
  config.pDomains.foldl (qScanDomain config env) qd

/-- `q_scan`. -/
def qScan (config : BinkdConfig) (env : Env) (qd : Queue × Disk) : Queue × Disk :=
  config.pNodArray.foldl (fun qd node => qScanBoxes config env [node.fa] true qd)
    (qScanDomains config env qd)

/-! ### The directories of the domains -/

/-- The directory of the default zone. -/
def FtnDomain.root (d : FtnDomain) : Str := d.path ++ str "/" ++ d.dir

/-- Ignoring case, the one directory is the other, or begins with it and goes on with a slash
or the way a zone does. -/
def Covers (r r' : Str) : Prop :=
  ∃ w, r'.map tolower = r.map tolower ++ w ∧
    (w = [] ∨ w.head? = some 47 ∨ ∃ x w', w = 46 :: x :: w' ∧ isxdigit x)

theorem Covers.prefix {r r' : Str} (h : Covers r r') : r.map tolower <+: r'.map tolower := by
  obtain ⟨w, hw, -⟩ := h
  exact ⟨w, hw.symm⟩

/-- No directory covers that of another domain. -/
def DomainsApart (pDomains : List FtnDomain) : Prop :=
  ∀ c ∈ pDomains, ∀ d ∈ pDomains, c ≠ d → ¬ Covers c.root d.root

/-- What a zone adds to a directory. -/
structure IsZoneExt (ext : Str) : Prop where
  shape : ext = [] ∨ ∃ x w, ext = 46 :: x :: w ∧ isxdigit x
  slash : 47 ∉ ext

theorem tolower_xdigit (x : Byte) : isxdigit (tolower x) = isxdigit x := by
  have hall : ∀ n < 256, isxdigit (tolower (UInt8.ofNat n)) = isxdigit (UInt8.ofNat n) := by
    decide +kernel
  have hx := hall x.toNat x.toNat_lt
  rwa [UInt8.ofNat_toNat] at hx

/-- What stands behind a directory, and goes on as another one behind more of it. -/
theorem IsZoneExt.covers {ext w rest more r : Str} (hext : IsZoneExt ext) (hw : w ≠ [])
    (heq : ext ++ 47 :: rest = w ++ more) (hmore : ∃ b t, more = b :: t ∧ isxdigit b = false) :
    Covers r (r ++ w) := by
  refine ⟨w.map tolower, List.map_append, .inr ?_⟩
  rcases hext.shape with rfl | ⟨x, t, rfl, hx⟩
  · cases w with
    | nil => exact absurd rfl hw
    | cons b w =>
      obtain ⟨rfl, -⟩ := List.cons.inj heq
      exact .inl rfl
  · match w, hw with
    | [b], _ =>
      -- a lone dot is followed by a digit
      obtain ⟨b', t', rfl, hb'⟩ := hmore
      obtain ⟨-, htail⟩ := List.cons.inj heq
      obtain ⟨rfl, -⟩ := List.cons.inj htail
      rw [hx] at hb'
      contradiction
    | b :: c :: w, _ =>
      obtain ⟨rfl, htail⟩ := List.cons.inj heq
      obtain ⟨rfl, -⟩ := List.cons.inj htail
      exact .inr ⟨tolower x, w.map tolower, rfl, by rw [tolower_xdigit, hx]⟩

theorem IsZoneExt.head {ext rest : Str} (hext : IsZoneExt ext) :
    ∃ b t, ext ++ 47 :: rest = b :: t ∧ isxdigit b = false := by
  rcases hext.shape with rfl | ⟨x, t, rfl, -⟩
  · exact ⟨47, rest, rfl, by decide⟩
  · exact ⟨46, _, rfl, by decide⟩

/-- A name is cut at its first slash in one way. -/
theorem slash_inj {x y a b : Str} (hx : 47 ∉ x) (hy : 47 ∉ y) (h : x ++ 47 :: a = y ++ 47 :: b) :
    x = y ∧ a = b := by
  induction x generalizing y with
  | nil =>
    cases y with
    | nil => exact ⟨rfl, (List.cons.inj h).2⟩
    | cons c y => exact absurd ((List.cons.inj h).1 ▸ List.mem_cons_self) hy
  | cons c x ih =>
    cases y with
    | nil => exact absurd ((List.cons.inj h).1 ▸ List.mem_cons_self) hx
    | cons d y =>
      obtain ⟨rfl, htail⟩ := List.cons.inj h
      obtain ⟨rfl, rfl⟩ := ih (fun hm => hx (List.mem_cons_of_mem _ hm))
        (fun hm => hy (List.mem_cons_of_mem _ hm)) htail
      exact ⟨rfl, rfl⟩

/-- **Two ways to read a name**: the directory, the zone and the rest are the same. -/
theorem DomainsApart.split {pDomains : List FtnDomain} (hapart : DomainsApart pDomains)
    {c d : FtnDomain} (hc : c ∈ pDomains) (hd : d ∈ pDomains) {r ext ext' rest rest' : Str}
    (hr : r.map tolower = c.root.map tolower) (hext : IsZoneExt ext) (hext' : IsZoneExt ext')
    (heq : r ++ (ext ++ 47 :: rest) = d.root ++ (ext' ++ 47 :: rest')) :
    c = d ∧ ext = ext' ∧ rest = rest' := by
  have same : ∀ {a b a' b' : Str}, a.map tolower = a'.map tolower → b.map tolower = b'.map tolower →
      Covers a b → Covers a' b' := by
    rintro a b a' b' ha hb ⟨w, hw, hshape⟩
    exact ⟨w, by rw [← hb, ← ha, hw], hshape⟩
  have longer : ∀ {w : Str}, w ≠ [] → c.root.map tolower ≠ c.root.map tolower ++ w.map tolower := by
    intro w hw hlen
    have := congrArg List.length hlen
    rw [List.length_append, List.length_map, List.length_map] at this
    exact hw (List.eq_nil_of_length_eq_zero (by omega))
  rcases List.append_eq_append_iff.mp heq with ⟨w, hw, hmore⟩ | ⟨w, hw, hmore⟩
  · by_cases hnil : w = []
    · rw [hnil, List.append_nil] at hw
      rw [hnil, List.nil_append] at hmore
      have hcd : c = d := by
        by_contra hne
        exact hapart c hc d hd hne ⟨[], by rw [List.append_nil, hw, hr], .inl rfl⟩
      exact ⟨hcd, slash_inj hext.slash hext'.slash hmore⟩
    · -- the directory of `d` goes on as a zone or a slash behind that of `c`
      have hcovers : Covers c.root d.root := same hr (by rw [hw]) (hext.covers hnil hmore hext'.head)
      have hcd : c = d := by
        by_contra hne
        exact hapart c hc d hd hne hcovers
      refine absurd ?_ (longer hnil)
      rw [← hr, ← List.map_append, ← hw, hr, hcd]
  · by_cases hnil : w = []
    · rw [hnil, List.append_nil] at hw
      rw [hnil, List.nil_append] at hmore
      have hcd : c = d := by
        by_contra hne
        exact hapart c hc d hd hne ⟨[], by rw [List.append_nil, ← hw, hr], .inl rfl⟩
      obtain ⟨hexts, hrests⟩ := slash_inj hext'.slash hext.slash hmore
      exact ⟨hcd, hexts.symm, hrests.symm⟩
    · have hcovers : Covers d.root c.root :=
        same rfl (by rw [← hw, hr]) (hext'.covers hnil hmore hext.head)
      have hcd : d = c := by
        by_contra hne
        exact hapart d hd c hc hne hcovers
      refine absurd ?_ (longer hnil)
      rw [← List.map_append]
      conv_rhs => rw [← hcd]
      rw [← hw, hr]

/-! ### The name of an address -/

/-- `.%03x` of a zone that is not the default one. -/
def zoneExt (d : FtnDomain) (z : Int32) : Str := if z ≠ d.z then 46 :: hexInt 3 z else []

/-- What follows the directory. -/
def nodeName (fa : FtnAddr) : Str :=
  hexInt 4 fa.net ++ hexInt 4 fa.node ++ (if fa.p ≠ 0 then str ".pnt" ++ 47 :: hexInt 8 fa.p else [])

/-- The numbers that the formats are written for. -/
structure FtnAddr.Regular (fa : FtnAddr) : Prop where
  z : 1 ≤ fa.z.toInt ∧ fa.z.toInt < 4096
  net : 0 ≤ fa.net.toInt ∧ fa.net.toInt < 65536
  node : 0 ≤ fa.node.toInt ∧ fa.node.toInt < 65536
  p : 0 ≤ fa.p.toInt ∧ fa.p.toInt < 65536

theorem toNat_toUInt32 {n : Int32} (h : 0 ≤ n.toInt) : (n.toUInt32.toNat : Int) = n.toInt := by
  have hto : n.toInt = n.toBitVec.toInt := rfl
  have hun : n.toUInt32.toNat = n.toBitVec.toNat := rfl
  have hlt := n.toBitVec.isLt
  rw [hto, BitVec.toInt_eq_toNat_cond] at h ⊢
  rw [hun]
  split at h
  · next hcond => rw [if_pos hcond]
  · omega

theorem hexInt_spec {w : Nat} {n : Int32} (hw : 0 < w) (hn : 0 ≤ n.toInt ∧ n.toInt < 16 ^ w) :
    hexNat (hexInt w n) = n.toUInt32.toNat ∧ (hexInt w n).length = w ∧
      ∀ c ∈ hexInt w n, isxdigit c = true := by
  refine hexPad_spec hw (Int.ofNat_lt.mp ?_)
  rw [toNat_toUInt32 hn.1, Int.natCast_pow]
  exact hn.2

/-- `%x` reads what `%0<w>x` printed. -/
theorem hexValue_hexInt {w : Nat} {n : Int32} (hw : 0 < w) (hn : 0 ≤ n.toInt ∧ n.toInt < 16 ^ w) :
    (hexValue (hexInt w n)).toInt32 = n := by
  rw [hexValue_eq, (hexInt_spec hw hn).1, UInt32.ofNat_toNat, Int32.toInt32_toUInt32]

theorem FtnAddr.Regular.zValue {fa : FtnAddr} (h : fa.Regular) : 0 ≤ fa.z.toInt ∧ fa.z.toInt < 16 ^ 3 :=
  ⟨by have := h.z; omega, h.z.2⟩

theorem FtnAddr.Regular.pValue {fa : FtnAddr} (h : fa.Regular) : 0 ≤ fa.p.toInt ∧ fa.p.toInt < 16 ^ 8 :=
  ⟨h.p.1, by have := h.p.2; omega⟩

theorem xdigit_slash {s : Str} (h : ∀ c ∈ s, isxdigit c = true) : 47 ∉ s :=
  fun hm => absurd (h 47 hm) (by decide)

theorem zoneExt_isZoneExt (d : FtnDomain) {fa : FtnAddr} (h : fa.Regular) :
    IsZoneExt (zoneExt d fa.z) := by
  obtain ⟨-, hlen, hdigits⟩ := hexInt_spec (by decide) h.zValue
  unfold zoneExt
  split_ifs
  · refine ⟨.inr ?_, fun hm => ?_⟩
    · cases hx : hexInt 3 fa.z with
      | nil => rw [hx] at hlen; contradiction
      | cons x w => exact ⟨x, w, rfl, hdigits x (hx ▸ List.mem_cons_self)⟩
    · rcases List.mem_cons.mp hm with heq | hm
      · exact absurd heq (by decide)
      · exact xdigit_slash hdigits hm
  · exact ⟨.inl rfl, List.not_mem_nil⟩

theorem zoneExt_inj (d : FtnDomain) {a b : FtnAddr} (ha : a.Regular) (hb : b.Regular)
    (h : zoneExt d a.z = zoneExt d b.z) : a.z = b.z := by
  have hvalue : ∀ {x : FtnAddr}, x.Regular → (hexValue (hexInt 3 x.z)).toInt32 = x.z := fun hx =>
    hexValue_hexInt (by decide) hx.zValue
  unfold zoneExt at h
  split_ifs at h with hza hzb hzb
  · rw [← hvalue ha, (List.cons.inj h).2, hvalue hb]
  · rw [not_not.mp hza, not_not.mp hzb]

/-- The name, before it is cut. -/
theorem ftnaddressToFilename_eq {fa : FtnAddr} {pDomains : List FtnDomain} {d : FtnDomain}
    (hd : getDomainInfo fa.domain pDomains = some d)
    (hfits : (ftnaddressToFilename fa pDomains).length < maxPathLen - 1) :
    ftnaddressToFilename fa pDomains = d.root ++ (zoneExt d fa.z ++ 47 :: nodeName fa) := by
  have hcut : ftnaddressToFilename fa pDomains =
      (d.root ++ (zoneExt d fa.z ++ 47 :: nodeName fa)).take (maxPathLen - 1) := by
    unfold ftnaddressToFilename zoneExt nodeName FtnDomain.root
    rw [hd]
    dsimp only
    congr 1
    split_ifs <;> simp [str]
  rw [hcut] at hfits ⊢
  refine List.take_of_length_le ?_
  rw [List.length_take] at hfits
  omega

/-- What `q_add_dir` reads from the name of a node. -/
theorem nodeName_inj {a b : FtnAddr} (ha : a.Regular) (hb : b.Regular) (h : nodeName a = nodeName b) :
    a.net = b.net ∧ a.node = b.node ∧ a.p = b.p := by
  have hvalue : ∀ {n : Int32}, 0 ≤ n.toInt ∧ n.toInt < 16 ^ 4 → (hexValue (hexInt 4 n)).toInt32 = n :=
    fun hn => hexValue_hexInt (by decide) hn
  have hlen : ∀ {n : Int32}, 0 ≤ n.toInt ∧ n.toInt < 16 ^ 4 → (hexInt 4 n).length = 4 :=
    fun hn => (hexInt_spec (by decide) hn).2.1
  have hpoint : ∀ {x : FtnAddr}, x.Regular → (hexValue (hexInt 8 x.p)).toInt32 = x.p :=
    fun hx => hexValue_hexInt (by decide) hx.pValue
  unfold nodeName at h
  rw [List.append_assoc, List.append_assoc] at h
  obtain ⟨hnet, h⟩ := List.append_inj h (by rw [hlen ha.net, hlen hb.net])
  obtain ⟨hnode, h⟩ := List.append_inj h (by rw [hlen ha.node, hlen hb.node])
  refine ⟨by rw [← hvalue ha.net, hnet, hvalue hb.net],
    by rw [← hvalue ha.node, hnode, hvalue hb.node], ?_⟩
  split_ifs at h with hpa hpb hpb
  · have hp := (List.cons.inj (List.append_cancel_left h)).2
    rw [← hpoint ha, hp, hpoint hb]
  · exact absurd h (by simp)
  · exact absurd h (by simp)
  · rw [not_not.mp hpa, not_not.mp hpb]

/-- **Different addresses have different names**. -/
theorem ftnaddressToFilename_inj {pDomains : List FtnDomain} (hapart : DomainsApart pDomains)
    {a b : FtnAddr} {c d : FtnDomain} (hc : getDomainInfo a.domain pDomains = some c)
    (hd : getDomainInfo b.domain pDomains = some d) (ha : a.Regular) (hb : b.Regular)
    (hfita : (ftnaddressToFilename a pDomains).length < maxPathLen - 1)
    (hfitb : (ftnaddressToFilename b pDomains).length < maxPathLen - 1)
    (h : ftnaddressToFilename a pDomains = ftnaddressToFilename b pDomains) :
    { a with domain := c.name } = { b with domain := d.name } := by
  rw [ftnaddressToFilename_eq hc hfita, ftnaddressToFilename_eq hd hfitb] at h
  obtain ⟨rfl, hext, hname⟩ := hapart.split (List.mem_of_find?_eq_some hc)
    (List.mem_of_find?_eq_some hd) rfl (zoneExt_isZoneExt c ha) (zoneExt_isZoneExt d hb) h
  obtain ⟨hnet, hnode, hp⟩ := nodeName_inj ha hb hname
  have hz := zoneExt_inj c ha hb hext
  exact FtnAddr.ext rfl hz hnet hnode hp

/-! ### What `q_scan` finds -/

/-- Every new entry is as `ok` says. -/
def Adds (ok : Ftnq → Prop) (q q' : Queue) : Prop := ∀ e ∈ q', e ∈ q ∨ ok e

theorem Adds.refl (ok : Ftnq → Prop) (q : Queue) : Adds ok q q := fun _ h => .inl h

theorem Adds.mono {ok ok' : Ftnq → Prop} {q q' : Queue} (h : Adds ok q q') (hok : ∀ e, ok e → ok' e) :
    Adds ok' q q' := fun e he => (h e he).imp_right (hok e)

theorem Adds.foldl {α : Type} {ok : Ftnq → Prop} {f : Queue × Disk → α → Queue × Disk}
    (l : List α) (h : ∀ qd, ∀ x ∈ l, Adds ok qd.1 (f qd x).1) (qd : Queue × Disk) :
    Adds ok qd.1 (l.foldl f qd).1 := by
  induction l generalizing qd with
  | nil => exact .refl _ _
  | cons x l ih =>
    intro e he
    rcases ih (fun qd y hy => h qd y (List.mem_cons_of_mem _ hy)) (f qd x) e he with he | hok
    · exact h qd x List.mem_cons_self e he
    · exact .inr hok

/-- The address that `q_add_dir` reads from a name below a directory. -/
inductive Decodes : FtnAddr → Str → FtnAddr → Prop
  | file (fa1 : FtnAddr) (s : Str) (hs : isOutboundName s = true) (hslash : 47 ∉ s) : Decodes fa1 s
      (if (outboundAddr fa1 s).p = -1 then { outboundAddr fa1 s with p := 0 } else outboundAddr fa1 s)
  | dir (fa1 : FtnAddr) (s rest : Str) (fa : FtnAddr) (hs : isOutboundName s = true)
      (hslash : 47 ∉ s) (hp : (outboundAddr fa1 s).p = -1)
      (hrest : Decodes (outboundAddr fa1 s) rest fa) :
      Decodes fa1 (s ++ 47 :: rest) fa

/-- The entry is a status, or a file below the directory. -/
def FoundIn (dir : Str) (fa1 : FtnAddr) (e : Ftnq) : Prop :=
  e.type = 115 ∨ ∃ rest, e.path = (dir ++ 47 :: rest).take (maxPathLen - 1) ∧ Decodes fa1 rest e.fa

theorem Disk.readdir_slash {env : Env} {disk : Disk} {dir : Str} {names : List Str}
    (h : disk.readdir env dir = some names) : ∀ s ∈ names, 47 ∉ s := by
  unfold readdir at h
  split at h
  · contradiction
  · split at h
    · obtain rfl := Option.some.inj h
      intro s hs
      obtain ⟨p, hp, rfl⟩ := List.mem_map.mp hs
      have hno := (List.mem_filter.mp hp).2
      rw [Bool.and_eq_true, Bool.not_eq_true'] at hno
      simpa using hno.2
    · contradiction

theorem qAddFile_adds (env : Env) (disk : Disk) (filename : Str) (fa1 : FtnAddr)
    (flvr action type : Byte) (q : Queue) :
    Adds (fun e => e.type = 115 ∨ e.path = filename.take (maxPathLen - 1) ∧ e.fa = fa1) q
      (qAddFile env disk filename fa1 flvr action type q) := by
  intro e he
  unfold qAddFile at he
  split at he
  · next htype =>
    split at he
    · exact .inl he
    · rcases List.mem_cons.mp he with rfl | he
      · exact .inr (.inl htype)
      · exact .inl he
  · rcases List.mem_cons.mp he with rfl | he
    · exact .inr (.inr ⟨rfl, rfl⟩)
    · exact .inl he

theorem qAddOutbound_adds (config : BinkdConfig) (env : Env) (buf s : Str) (fa1 fa2 : FtnAddr)
    (qd : Queue × Disk) :
    Adds (fun e => e.type = 115 ∨ e.path = buf.take (maxPathLen - 1) ∧ e.fa = fa2) qd.1
      (qAddOutbound config env buf s fa1 fa2 qd).1 := by
  unfold qAddOutbound
  dsimp only
  generalize (if stricmp (s.drop 9) (str "bsy") = 0 ∨ stricmp (s.drop 9) (str "csy") = 0 then
    processBsy config env buf qd.2 else qd.2) = disk
  split_ifs
  all_goals dsimp only
  · exact .refl _ _
  · exact qAddFile_adds env disk buf fa2 _ _ _ _
  · exact qAddFile_adds env disk buf fa2 _ _ _ _
  · exact .refl _ _
  · exact qAddFile_adds env disk buf fa2 _ _ _ _
  · exact qAddFile_adds env disk buf fa2 _ _ _ _
  · exact .refl _ _

/-- **What `q_add_dir` finds**. -/
theorem qAddDir_found (config : BinkdConfig) (env : Env) (depth : Nat) (dir : Str) (fa1 : FtnAddr)
    (qd : Queue × Disk) :
    Adds (FoundIn dir fa1) qd.1 (qAddDir config env depth dir fa1 qd).1 := by
  induction depth generalizing dir fa1 qd with
  | zero => exact .refl _ _
  | succ depth ih =>
    rw [qAddDir]
    split
    · exact .refl _ _
    · next names hnames =>
      refine Adds.foldl names (fun qd s hs => ?_) qd
      have hslash := Disk.readdir_slash hnames s hs
      have hbuf : dir ++ str "/" ++ s = dir ++ 47 :: s := by simp [str]
      dsimp only
      split
      · exact .refl _ _
      · next hname =>
        have hname : isOutboundName s = true := by simpa using hname
        split
        · exact .refl _ _
        · split
          · next hpnt =>
            split
            · refine (ih _ (outboundAddr fa1 s) qd).mono fun e he => ?_
              rcases he with htype | ⟨rest, hpath, hrest⟩
              · exact .inl htype
              · refine .inr ⟨s ++ 47 :: rest, ?_, .dir fa1 s rest e.fa hname hslash hpnt.2 hrest⟩
                rw [hpath, hbuf]
                congr 1
                simp
            · exact .refl _ _
          · refine (qAddOutbound_adds config env _ s fa1 _ qd).mono fun e he => ?_
            rcases he with htype | ⟨hpath, hfa⟩
            · exact .inl htype
            · refine .inr ⟨s, by rw [hpath, hbuf], ?_⟩
              rw [hfa]
              exact .file fa1 s hname hslash

/-- What `q_scan` finds: a file below a directory of a domain. -/
def FoundByScan (pDomains : List FtnDomain) (e : Ftnq) : Prop :=
  ∃ d ∈ pDomains, ∃ name, isDomainDir d name = true ∧ 47 ∉ name ∧
    FoundIn (d.path ++ str "/" ++ name) { domain := d.name, z := dirZone d name } e

theorem qScanDomains_found (config : BinkdConfig) (env : Env) (qd : Queue × Disk) :
    Adds (FoundByScan config.pDomains) qd.1 (qScanDomains config env qd).1 := by
  refine Adds.foldl config.pDomains (fun qd d hd => ?_) qd
  unfold qScanDomain
  split
  · exact .refl _ _
  · split
    · exact .refl _ _
    · next names hnames =>
      refine Adds.foldl names (fun qd name hname => ?_) qd
      split
      · next hdir =>
        have hdir : isDomainDir d name = true := (Bool.and_eq_true_iff.mp hdir).1
        exact (qAddDir_found config env 16 _ _ qd).mono fun e he =>
          ⟨d, hd, name, hdir, Disk.readdir_slash hnames name hname, he⟩
      · exact .refl _ _

theorem qAddFile_type (env : Env) (disk : Disk) (filename : Str) (fa1 : FtnAddr)
    (flvr action type : Byte) (htype : type ≠ 115) (q : Queue) : Adds (fun e => e.type = type) q
      (qAddFile env disk filename fa1 flvr action type q) := by
  intro e he
  rw [qAddFile, if_neg htype] at he
  rcases List.mem_cons.mp he with rfl | he
  · exact .inr rfl
  · exact .inl he

theorem qScanBoxes_adds (config : BinkdConfig) (env : Env) (fa : List FtnAddr) (out : Bool)
    (qd : Queue × Disk) :
    Adds (fun e => e.type = 0) qd.1 (qScanBoxes config env fa out qd).1 := by
  refine Adds.foldl fa (fun qd a _ => ?_) qd
  dsimp only
  split
  · refine Adds.foldl _ (fun qd b _ => ?_) qd
    unfold qScanBox
    split
    · exact .refl _ _
    · next names hnames =>
      dsimp only
      generalize (names.filter _) = files
      generalize qd.1 = q
      induction files generalizing q with
      | nil => exact .refl _ _
      | cons name files ih =>
        intro e he
        rcases ih _ e he with he | hok
        · exact qAddFile_type env qd.2 _ a _ 100 0 (by decide) q e he
        · exact .inr hok
  · exact .refl _ _

/-- **What `q_scan` finds** is what it found below a directory of a domain, and files of boxes. -/
theorem qScan_found (config : BinkdConfig) (env : Env) (qd : Queue × Disk) :
    Adds (fun e => e.type = 0 ∨ FoundByScan config.pDomains e) qd.1 (qScan config env qd).1 := by
  intro e he
  rcases Adds.foldl config.pNodArray (fun qd node _ => qScanBoxes_adds config env [node.fa] true qd)
    _ e he with he | hbox
  · exact (qScanDomains_found config env qd e he).imp_right .inr
  · exact .inr (.inl hbox)

/-! ### The address is read back -/

theorem strnicmp_eq {n : Nat} {s t : Str} (ht : t.length = n) (hnul : 0 ∉ t) (h : strnicmp n s t = 0) :
    (s.take n).map tolower = t.map tolower := by
  have hlower : ∀ k < 256, tolower (UInt8.ofNat k) = 0 → UInt8.ofNat k = 0 := by decide +kernel
  induction t generalizing n s with
  | nil =>
    rw [← ht]
    rfl
  | cons b t ih =>
    rw [List.length_cons] at ht
    obtain rfl := ht
    cases s with
    | nil =>
      have hzero : schar (tolower b) = schar 0 := by
        rw [strnicmp] at h
        have : schar 0 = 0 := by decide
        omega
      have hb := hlower b.toNat b.toNat_lt
      rw [UInt8.ofNat_toNat] at hb
      exact absurd (hb (schar_inj.mp hzero) ▸ List.mem_cons_self) hnul
    | cons a s =>
      rw [strnicmp] at h
      split_ifs at h with hab
      · exact absurd (schar_inj.mp (by omega)) hab
      · rw [List.take_succ_cons, List.map_cons, List.map_cons, not_not.mp hab,
          ih rfl (fun hm => hnul (List.mem_cons_of_mem _ hm)) h]

/-- The name of a domain's directory is that of its root, ignoring case, and a zone. -/
theorem isDomainDir_split {d : FtnDomain} {name : Str} (hdir : isDomainDir d name = true)
    (hslash : 47 ∉ name) (hnul : 0 ∉ d.dir) :
    ∃ root ext, name = root ++ ext ∧ root.length = d.dir.length ∧
      root.map tolower = d.dir.map tolower ∧ IsZoneExt ext := by
  obtain ⟨hcmp, hshape⟩ := Bool.and_eq_true_iff.mp hdir
  have hlower := strnicmp_eq rfl hnul (of_decide_eq_true hcmp)
  have hlen : (name.take d.dir.length).length = d.dir.length := by
    simpa using congrArg List.length hlower
  refine ⟨_, _, (List.take_append_drop d.dir.length name).symm, hlen, hlower, ?_,
    fun hm => hslash (List.mem_of_mem_drop hm)⟩
  rcases Bool.or_eq_true_iff.mp hshape with hend | hzone
  · refine .inl (List.drop_eq_nil_of_le ?_)
    have := of_decide_eq_true hend
    omega
  · obtain ⟨hdot, hx⟩ := Bool.and_eq_true_iff.mp hzone
    have hdot : name.getD d.dir.length 0 = 46 := of_decide_eq_true hdot
    have hat : ∀ k, name.getD (d.dir.length + k) 0 = (name.drop d.dir.length).getD k 0 := by
      intro k
      rw [List.getD_eq_getElem?_getD, List.getD_eq_getElem?_getD, List.getElem?_drop]
    rw [← Nat.add_zero d.dir.length, hat] at hdot
    rw [hat] at hx
    generalize name.drop d.dir.length = ext at hdot hx
    match ext, hdot, hx with
    | b :: x :: w, hdot, hx => exact .inr ⟨x, w, congrArg (· :: x :: w) hdot, hx⟩

theorem strtolHex_hexInt {z : Int32} (h : 0 ≤ z.toInt ∧ z.toInt < 16 ^ 3) :
    strtolHex (hexInt 3 z) = z := by
  obtain ⟨hval, hlen, hdigits⟩ := hexInt_spec (by decide) h
  unfold strtolHex
  match hs : hexInt 3 z, hlen with
  | [a, b, c], _ =>
    rw [hs] at hval hdigits
    have hnox : tolower b ≠ 120 := fun hx => by
      have := hdigits b (by simp)
      rw [← tolower_xdigit, hx] at this
      exact absurd this (by decide)
    have hall : [a, b, c].takeWhile isxdigit = [a, b, c] := List.takeWhile_eq_self_iff.mpr hdigits
    have hcond : ¬ ([a, b, c].headD 0 = 48 ∧ tolower ([a, b, c].getD 1 0) = 120 ∧
        isxdigit ([a, b, c].getD 2 0) = true) :=
      fun hx => hnox hx.2.1
    dsimp only
    rw [if_neg hcond, hall, hval, toNat_toUInt32 h.1, Int.min_eq_left (by omega), Int32.ofInt_toInt]

/-- The zone is read back. -/
theorem dirZone_zoneExt (d : FtnDomain) {fa : FtnAddr} (h : fa.Regular) {root : Str}
    (hlen : root.length = d.dir.length) :
    dirZone d (root ++ zoneExt d fa.z) = fa.z := by
  unfold dirZone zoneExt
  rw [← hlen, List.getD_append_right _ _ _ _ (le_refl _), Nat.sub_self]
  split_ifs with hz hdot hdot
  · rw [List.drop_length_add_append]
    exact strtolHex_hexInt h.zValue
  · exact absurd rfl hdot
  · exact absurd hdot (by decide)
  · exact (not_not.mp hz).symm

/-- The numbers in the name of a node. -/
theorem outboundAddr_node (fa1 : FtnAddr) {fa : FtnAddr} (h : fa.Regular) (hnode : fa1.node = -1)
    (s : Str) : outboundAddr fa1 (hexInt 4 fa.net ++ hexInt 4 fa.node ++ s) =
      { fa1 with net := fa.net, node := fa.node } := by
  have hnet := (hexInt_spec (w := 4) (by decide) h.net).2.1
  have hlen := (hexInt_spec (w := 4) (by decide) h.node).2.1
  rw [outboundAddr, if_neg (fun hne => hne.1 hnode), List.append_assoc, List.take_left' hnet,
    List.drop_left' hnet, List.take_left' hlen, hexValue_hexInt (by decide) h.net,
    hexValue_hexInt (by decide) h.node]

/-- The number in the name of a point. -/
theorem outboundAddr_point (fa1 : FtnAddr) {fa : FtnAddr} (h : fa.Regular) (hnode : fa1.node ≠ -1)
    (hp : fa1.p ≠ 0) (s : Str) : outboundAddr fa1 (hexInt 8 fa.p ++ s) = { fa1 with p := fa.p } := by
  have hlen := (hexInt_spec (by decide) h.pValue).2.1
  rw [outboundAddr, if_pos ⟨hnode, hp⟩, List.take_left' hlen, hexValue_hexInt (by decide) h.pValue]

theorem Decodes.eq {name : Str} {fa a : FtnAddr} {ext : Str} (hfa : fa.Regular) (hext : 47 ∉ ext)
    (h : Decodes { domain := name, z := fa.z } (nodeName fa ++ ext) a) :
    a = { fa with domain := name } := by
  have hnoteq : ∀ {n : Int32}, 0 ≤ n.toInt → n ≠ -1 := by
    rintro n hn rfl
    exact absurd hn (by decide)
  have hplain : 47 ∉ hexInt 4 fa.net ++ hexInt 4 fa.node := fun hm => (List.mem_append.mp hm).elim
    (xdigit_slash (hexInt_spec (by decide) hfa.net).2.2)
    (xdigit_slash (hexInt_spec (by decide) hfa.node).2.2)
  unfold nodeName at h
  split_ifs at h with hp
  · -- a point: its node's directory, and a file there
    have hstart : 47 ∉ hexInt 4 fa.net ++ hexInt 4 fa.node ++ str ".pnt" := fun hm =>
      (List.mem_append.mp hm).elim hplain (by decide)
    have hend : 47 ∉ hexInt 8 fa.p ++ ext := fun hm => (List.mem_append.mp hm).elim
      (xdigit_slash (hexInt_spec (by decide) hfa.pValue).2.2) hext
    have hshape : hexInt 4 fa.net ++ hexInt 4 fa.node ++ (str ".pnt" ++ 47 :: hexInt 8 fa.p) ++ ext =
        (hexInt 4 fa.net ++ hexInt 4 fa.node ++ str ".pnt") ++ 47 :: (hexInt 8 fa.p ++ ext) := by
      simp only [List.append_assoc, List.cons_append]
    rw [hshape] at h
    generalize hs : (hexInt 4 fa.net ++ hexInt 4 fa.node ++ str ".pnt") ++
      47 :: (hexInt 8 fa.p ++ ext) = s at h
    cases h with
    | file _ _ _ hslash => exact absurd (hs ▸ List.mem_append_right _ List.mem_cons_self) hslash
    | dir _ dirname rest _ _ hslash _ hrest =>
      obtain ⟨rfl, rfl⟩ := slash_inj hstart hslash hs
      rw [outboundAddr_node _ hfa rfl] at hrest
      generalize hs : hexInt 8 fa.p ++ ext = s at hrest
      cases hrest with
      | file =>
        have hpoint := outboundAddr_point
          { domain := name, z := fa.z, net := fa.net, node := fa.node } hfa (hnoteq hfa.node.1)
          (show (-1 : Int32) ≠ 0 by decide) ext
        rw [← hs, hpoint, if_neg (hnoteq hfa.p.1)]
      | dir => exact absurd (hs ▸ List.mem_append_right _ List.mem_cons_self) hend
  · rw [List.append_nil] at h
    generalize hs : hexInt 4 fa.net ++ hexInt 4 fa.node ++ ext = s at h
    cases h with
    | file =>
      rw [← hs, outboundAddr_node _ hfa rfl, if_pos rfl]
      exact FtnAddr.ext rfl rfl rfl rfl (not_not.mp hp).symm
    | dir =>
      refine absurd (hs ▸ List.mem_append_right _ List.mem_cons_self) fun hm => ?_
      exact (List.mem_append.mp hm).elim hplain hext

/-- A file that bears the name of an address belongs to it. -/
theorem FoundByScan.decodes {pDomains : List FtnDomain} (hapart : DomainsApart pDomains)
    (hnul : ∀ d ∈ pDomains, 0 ∉ d.dir) {fa : FtnAddr} {d : FtnDomain} {ext : Str} {e : Ftnq}
    (hd : getDomainInfo fa.domain pDomains = some d) (hfa : fa.Regular) (hext : 47 ∉ ext)
    (hfits : (ftnaddressToFilename fa pDomains ++ ext).length < maxPathLen - 1) (htype : e.type ≠ 115)
    (hpath : e.path = ftnaddressToFilename fa pDomains ++ ext) (h : FoundByScan pDomains e) :
    e.fa = { fa with domain := d.name } := by
  obtain ⟨c, hc, name, hdir, hslash, hfound⟩ := h
  obtain ⟨root, zext, rfl, hlen, hlower, hzext⟩ := isDomainDir_split hdir hslash (hnul c hc)
  rcases hfound with hstatus | ⟨rest, hrest, hdecodes⟩
  · exact absurd hstatus htype
  · rw [hpath] at hrest
    rw [hrest, List.length_take] at hfits
    rw [List.take_of_length_le (by omega)] at hrest
    have hfit : (ftnaddressToFilename fa pDomains).length < maxPathLen - 1 := by
      have := congrArg List.length hrest
      rw [List.length_append] at this
      omega
    rw [ftnaddressToFilename_eq hd hfit] at hrest
    have hsplit : (c.path ++ str "/" ++ root) ++ (zext ++ 47 :: rest) =
        d.root ++ (zoneExt d fa.z ++ 47 :: (nodeName fa ++ ext)) := by
      simpa only [List.append_assoc, List.cons_append] using hrest.symm
    have hroot : (c.path ++ str "/" ++ root).map tolower = c.root.map tolower := by
      rw [FtnDomain.root, List.map_append, hlower, ← List.map_append]
    obtain ⟨rfl, rfl, rfl⟩ := hapart.split hc (List.mem_of_find?_eq_some hd) hroot hzext
      (zoneExt_isZoneExt d hfa) hsplit
    rw [dirZone_zoneExt c hfa hlen] at hdecodes
    exact hdecodes.eq hfa hext

/-- Another domain, with a directory of its own. -/
def othernet : FtnDomain where
  name := str "othernet"
  path := str "/o"
  dir := str "other"
  z := 7

def twoDomains (d : FtnDomain) : BinkdConfig :=
  { fidoConfig [] with pDomains := [fidonet, d], havedefnode := true }

/-- A file for the point 3:5020/1.5 in its directory. -/
def pointDisk : Disk :=
  let dirs := [str "/o", str "/o/out.003", str "/o/out.003/139c0001.pnt"]
  (dirs.foldl (fun disk dir => disk.insert dir { isDir := true }) (∅ : Disk)).insert
    (str "/o/out.003/139c0001.pnt/00000005.flo") {}

/-- A directory that is too long is the whole name. -/
theorem ftnaddressToFilename_cut {fa : FtnAddr} {pDomains : List FtnDomain} {d : FtnDomain}
    (hd : getDomainInfo fa.domain pDomains = some d) (hlen : maxPathLen - 1 ≤ d.path.length) :
    ftnaddressToFilename fa pDomains = d.path.take (maxPathLen - 1) := by
  unfold ftnaddressToFilename
  rw [hd]
  simp only [List.append_assoc]
  exact List.take_append_of_le_length hlen

def numberednet : FtnDomain := { othernet with dir := str "out.001" }

def deepnet : FtnDomain := { fidonet with path := List.replicate maxPathLen 111 }

end Binkd
