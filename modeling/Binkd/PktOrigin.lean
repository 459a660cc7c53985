import Binkd.Banner
import Binkd.Inbound
import Binkd.PktDialects

/-!
# The origin of a packet (`check_pkthdr` of `inbound.c`)

A received packet has to come from one of the session's addresses.  The parts of the
origin are compared as `short`s, in which a negative one passes with every address.
-/

namespace Binkd

/-! ### `check_pkthdr` -/

/-- The value that `check_pkthdr` returns. -/
def pkthdrRc (config : BinkdConfig) (env : Env) (tmpName : Str) (s : State) : Bool :=
  match config.pkthdrBad with
  | none => true
  | some _ =>
    if !pkthdrChecked config env s then true
    else
      match (s.disk.fopenR env tmpName).bind fun f =>
        if f.bytes.length < 58 then none else (pktGetaddr (f.bytes.take 58)).map (·.1) with
      | none => false
      | some o => s.login.fa.any fun a =>
          (o.z < 0 || a.z.toInt = o.z) && (o.net < 0 || a.net.toInt = o.net) && a.node.toInt = o.node &&
          (o.p < 0 || a.p.toInt = o.p)

/-- `check_pkthdr` leaves the name of a packet that it accepts alone. -/
theorem checkPkthdr_rc {config : BinkdConfig} {env : Env} {tmpName : Str} {s : State} (real : Str)
    (h : pkthdrRc config env tmpName s = true) : checkPkthdr config env tmpName real s = real := by
  unfold pkthdrRc at h
  unfold checkPkthdr
  cases hbad : config.pkthdrBad with
  | none => rfl
  | some bad =>
    rw [hbad] at h
    dsimp only at h ⊢
    by_cases hchecked : (!pkthdrChecked config env s) = true
    · rw [if_pos hchecked]
    · rw [if_neg hchecked] at h ⊢
      exact if_pos h

/-- The check is made: an extension for bad packets is configured, and nothing excepts the session. -/
structure InForce (config : BinkdConfig) (env : Env) (s : State) : Prop where
  bad : config.pkthdrBad ≠ none
  checked : pkthdrChecked config env s = true

/-- The temporary file begins with these 58 bytes. -/
def HasHeader (env : Env) (tmpName : Str) (s : State) (raw : List Byte) : Prop :=
  ∃ f, s.disk.fopenR env tmpName = some f ∧ f.bytes.take 58 = raw

/-- The parts of the origin that a header carries, as 16-bit numbers. -/
structure Carried where
  z : Option ℕ
  net : ℕ
  node : ℕ
  p : Option ℕ

/-- What the dialect of a header carries of the origin. -/
def carriedOrigin (raw : List Byte) : Carried where
  z := if pktDialect raw = .plain then none else some (getByte2 raw (pktDialect raw).zones.1)
  net := originNet raw
  node := getByte2 raw 0
  p := if pktDialect raw = .type2 then some (getByte2 raw 50) else none

/-- The address has every part that is carried. -/
structure Carried.Of (c : Carried) (a : FtnAddr) : Prop where
  z : ∀ z ∈ c.z, a.z.toInt = z
  net : a.net.toInt = c.net
  node : a.node.toInt = c.node
  p : ∀ p ∈ c.p, a.p.toInt = p

/-- No part that is carried is negative as a `short`. -/
structure Carried.Below (c : Carried) : Prop where
  z : ∀ z ∈ c.z, z < 0x8000
  net : c.net < 0x8000
  node : c.node < 0x8000
  p : ∀ p ∈ c.p, p < 0x8000

/-- What the loop over the session's addresses compares. -/
structure Carried.Passes (c : Carried) (a : FtnAddr) : Prop where
  z : ∀ z ∈ c.z, 0x8000 ≤ z ∨ a.z.toInt = z
  net : 0x8000 ≤ c.net ∨ a.net.toInt = c.net
  node : a.node.toInt = toShort c.node
  p : ∀ p ∈ c.p, 0x8000 ≤ p ∨ a.p.toInt = p

theorem originNet_lt (raw : List Byte) : originNet raw < 65536 := by
  unfold originNet
  split_ifs <;> exact getByte2_lt raw _

/-- A part that is negative as a `short` passes with every address. -/
theorem part_passes {n : ℕ} (h : n < 65536) (k : Int) :
    (toShort n < 0 ∨ k = toShort n) ↔ 0x8000 ≤ n ∨ k = n := by
  rw [toShort_neg h, toShort_eq h]
  split_ifs with hlt
  · rfl
  · have hge : 0x8000 ≤ n := Nat.le_of_not_lt hlt
    exact ⟨fun _ => .inl hge, fun _ => .inl hge⟩

theorem originPasses_iff {raw : List Byte} {o : PktAddr} (a : FtnAddr)
    (ho : o = (pktDialect raw).stored ⟨toShort (getByte2 raw (pktDialect raw).zones.1), toShort (originNet raw),
      toShort (getByte2 raw 0), toShort (getByte2 raw 50)⟩) :
    ((o.z < 0 || a.z.toInt = o.z) && (o.net < 0 || a.net.toInt = o.net) && a.node.toInt = o.node &&
      (o.p < 0 || a.p.toInt = o.p)) = true ↔ (carriedOrigin raw).Passes a := by
  have hpart : ∀ (x : ℕ) (k : Int), (toShort (getByte2 raw x) < 0 ∨ k = toShort (getByte2 raw x)) ↔
      0x8000 ≤ getByte2 raw x ∨ k = getByte2 raw x := fun x => part_passes (getByte2_lt raw x)
  have hnet := part_passes (originNet_lt raw) a.net.toInt
  have hiff : (carriedOrigin raw).Passes a ↔ (∀ z ∈ (carriedOrigin raw).z, 0x8000 ≤ z ∨ a.z.toInt = z) ∧
      (0x8000 ≤ originNet raw ∨ a.net.toInt = originNet raw) ∧ a.node.toInt = toShort (getByte2 raw 0) ∧
      ∀ p ∈ (carriedOrigin raw).p, 0x8000 ≤ p ∨ a.p.toInt = p :=
    ⟨fun h => ⟨h.z, h.net, h.node, h.p⟩, fun h => ⟨h.1, h.2.1, h.2.2.1, h.2.2.2⟩⟩
  simp only [Bool.and_eq_true, Bool.or_eq_true, decide_eq_true_eq, and_assoc]
  rw [ho, hiff]
  unfold carriedOrigin
  cases pktDialect raw <;>
    simp [PktDialect.stored, PktDialect.zones, hpart, hnet]

/-- In force, `check_pkthdr` accepts a packet if and only if its origin passes with one of the
addresses. -/
theorem pkthdrRc_iff {config : BinkdConfig} {env : Env} {tmpName : Str} {s : State} {raw : List Byte}
    (hforce : InForce config env s) (hraw : HasHeader env tmpName s raw) (hlen : raw.length = 58) :
    pkthdrRc config env tmpName s = true ↔
      getByte2 raw 18 = 2 ∧ ∃ a ∈ s.login.fa, (carriedOrigin raw).Passes a := by
  obtain ⟨f, hopen, rfl⟩ := hraw
  obtain ⟨bad, hbad⟩ := Option.ne_none_iff_exists'.mp hforce.bad
  have hshort : ¬ f.bytes.length < 58 := fun h => by
    rw [List.length_take] at hlen
    omega
  unfold pkthdrRc
  rw [hbad, hopen]
  dsimp only
  rw [hforce.checked, if_neg (by decide), Option.bind_some, if_neg hshort]
  generalize f.bytes.take 58 = raw
  by_cases hver : getByte2 raw 18 = 2
  · rw [pktGetaddr_eq hver, Option.map_some]
    simp only [hver, true_and, List.any_eq_true]
    exact exists_congr fun a => and_congr_right fun _ => originPasses_iff a rfl
  · have hnone : pktGetaddr raw = none := if_pos hver
    rw [hnone]
    exact ⟨fun h => absurd h Bool.false_ne_true, fun h => absurd h.1 hver⟩

/-- With every part below 0x8000 only an address that has them all passes. -/
theorem Carried.Below.of_passes {c : Carried} {a : FtnAddr} (h : c.Below) (hpass : c.Passes a) :
    c.Of a := by
  refine ⟨fun z hz => ?_, ?_, ?_, fun p hp => ?_⟩
  · have hlt := h.z z hz
    exact (hpass.z z hz).resolve_left (by omega)
  · have hlt := h.net
    exact hpass.net.resolve_left (by omega)
  · have hlt := h.node
    rw [hpass.node, toShort_eq (by omega), if_pos hlt]
  · have hlt := h.p p hp
    exact (hpass.p p hp).resolve_left (by omega)

/-- An address that passes, with 0 for every part that passes with all of them. -/
def Carried.forged (c : Carried) : FtnAddr where
  z := match c.z with
    | some z => if z < 0x8000 then Int32.ofNat z else 0
    | none => 0
  net := if c.net < 0x8000 then Int32.ofNat c.net else 0
  node := Int32.ofInt (toShort c.node)
  p := match c.p with
    | some p => if p < 0x8000 then Int32.ofNat p else 0
    | none => 0

theorem part_forged (n : ℕ) : 0x8000 ≤ n ∨ (if n < 0x8000 then Int32.ofNat n else 0 : Int32).toInt = n := by
  by_cases h : n < 0x8000
  · rw [if_pos h]
    exact .inr (Int32.toInt_ofNat_of_lt (by omega))
  · exact .inl (by omega)

theorem toInt_toShort (n : ℕ) (h : n < 65536) : (Int32.ofInt (toShort n)).toInt = toShort n := by
  have hle : -32768 ≤ toShort n ∧ toShort n < 32768 := by
    rw [toShort_eq h]
    split_ifs <;> omega
  exact Int32.toInt_ofInt_of_le (by omega) (by omega)

theorem Carried.forged_passes (c : Carried) (h : c.node < 65536) : c.Passes c.forged := by
  refine ⟨fun z hz => ?_, part_forged c.net, toInt_toShort c.node h, fun p hp => ?_⟩
  · rw [forged, Option.mem_def.mp hz]
    exact part_forged z
  · rw [forged, Option.mem_def.mp hp]
    exact part_forged p

/-- It has every part that is carried only where all of them are below 0x8000. -/
theorem Carried.forged_of {c : Carried} (h : c.node < 65536) (hof : c.Of c.forged) : c.Below := by
  have hpart : ∀ n : ℕ, (if n < 0x8000 then Int32.ofNat n else 0 : Int32).toInt = n → n < 0x8000 := by
    intro n hn
    by_contra hge
    rw [if_neg hge] at hn
    have hzero : (0 : Int32).toInt = 0 := rfl
    omega
  refine ⟨fun z hz => hpart z ?_, hpart c.net hof.net, ?_, fun p hp => hpart p ?_⟩
  · have hz' := hof.z z hz
    rw [forged, Option.mem_def.mp hz] at hz'
    exact hz'
  · have hnode := hof.node
    rw [forged, toInt_toShort c.node h, toShort_eq h] at hnode
    split_ifs at hnode with hlt
    · exact hlt
    · omega
  · have hp' := hof.p p hp
    rw [forged, Option.mem_def.mp hp] at hp'
    exact hp'

/-- A session in which the check is in force, with one address and one file. -/
def packetConfig : BinkdConfig := { pAddr := [], pDomains := [], pkthdrBad := some (str "bad"), pkthdrType := -1 }

def packetSession (a : FtnAddr) (raw : List Byte) : State :=
  { initProtocol packetConfig none none with
    login := { fa := [a] }, disk := (∅ : Disk).insert (str "/in/0.dt") { bytes := raw } }

theorem packetSession_inForce (a : FtnAddr) (raw : List Byte) :
    InForce packetConfig {} (packetSession a raw) :=
  ⟨Option.some_ne_none _, rfl⟩

theorem packetSession_hasHeader {raw : List Byte} (a : FtnAddr) (hlen : raw.length = 58) :
    HasHeader {} (str "/in/0.dt") (packetSession a raw) raw :=
  ⟨⟨str "/in/0.dt", raw, 0⟩, rfl, List.take_of_length_le (Nat.le_of_eq hlen)⟩

/-- **The origin of a packet**: in force, `check_pkthdr` accepts packets with a header only from one
of the session's addresses, whatever these are, if and only if each part of the origin that the
header carries is below 0x8000. -/
theorem checkPkthdr_origin (raw : List Byte) (hlen : raw.length = 58) :
    (∀ config env tmpName s, InForce config env s → HasHeader env tmpName s raw →
      pkthdrRc config env tmpName s = true → ∃ a ∈ s.login.fa, (carriedOrigin raw).Of a) ↔
    (getByte2 raw 18 = 2 → (carriedOrigin raw).Below) := by
  constructor
  · intro h hver
    have hnode : (carriedOrigin raw).node < 65536 := getByte2_lt raw 0
    have hforce := packetSession_inForce (carriedOrigin raw).forged raw
    have hraw := packetSession_hasHeader (carriedOrigin raw).forged hlen
    have hrc := (pkthdrRc_iff hforce hraw hlen).mpr
      ⟨hver, _, List.mem_singleton_self _, (carriedOrigin raw).forged_passes hnode⟩
    obtain ⟨a, ha, hof⟩ := h _ _ _ _ hforce hraw hrc
    obtain rfl := List.mem_singleton.mp ha
    exact Carried.forged_of hnode hof
  · intro hbelow config env tmpName s hforce hraw hrc
    obtain ⟨hver, a, ha, hpass⟩ := (pkthdrRc_iff hforce hraw hlen).mp hrc
    exact ⟨a, ha, (hbelow hver).of_passes hpass⟩

/-- A packet from the point 1:5/7.1 is accepted in a session with that address. -/
theorem packet_accepted :
    ∃ a ∈ (packetSession ⟨[], 1, 5, 7, 1⟩ (nodeHeader.set 50 1)).login.fa,
      (carriedOrigin (nodeHeader.set 50 1)).Of a :=
  (checkPkthdr_origin (nodeHeader.set 50 1) rfl).mpr
    (fun _ => ⟨by decide, by decide, by decide, by decide⟩) packetConfig {} (str "/in/0.dt") _
    (packetSession_inForce _ _) (packetSession_hasHeader _ rfl) (by decide +kernel)

/-- A header with the zone 0xffff passes for every zone. -/
theorem forgedZone_accepted : ¬ ∀ raw : List Byte, raw.length = 58 → ∀ config env tmpName s,
    InForce config env s → HasHeader env tmpName s raw → pkthdrRc config env tmpName s = true →
    ∃ a ∈ s.login.fa, (carriedOrigin raw).Of a := by
  intro h
  have hlen : ((nodeHeader.set 46 255).set 47 255).length = 58 := rfl
  obtain ⟨a, ha, hof⟩ := h _ hlen packetConfig {} (str "/in/0.dt") (packetSession ⟨[], 2, 5, 7, 0⟩ _)
    (packetSession_inForce _ _) (packetSession_hasHeader _ hlen) (by decide +kernel)
  obtain rfl := List.mem_singleton.mp ha
  exact absurd (hof.z 0xffff (by decide)) (by decide)

end Binkd
