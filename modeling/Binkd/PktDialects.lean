import Binkd.Pkt

/-!
# The dialects of a packet header

`pkt_getaddr` and `pkt_setaddr` by dialect: what a header of each dialect stores of an
address, and where.  `pktSetaddr_eq` is the header that a change of the destination
leaves; a type 2+ header of a point has its origin net moved by it.
-/

namespace Binkd

/-! ### Two bytes of a header -/

theorem getByte2_lt (raw : List Byte) (x : ℕ) : getByte2 raw x < 65536 := by
  unfold getByte2
  have h0 := (raw.getD x 0).toNat_lt
  have h1 := (raw.getD (x + 1) 0).toNat_lt
  omega

theorem getD_setByte2 {raw : List Byte} {x y : ℕ} (v : Int) (hx : y ≠ x) (hx' : y ≠ x + 1) :
    (setByte2 raw x v).getD y 0 = raw.getD y 0 := by
  unfold setByte2
  split_ifs
  · rfl
  · rw [List.getD_eq_getElem?_getD, List.getElem?_set_ne (by omega), List.getElem?_set_ne (by omega),
      ← List.getD_eq_getElem?_getD]

theorem getByte2_setByte2_ne {raw : List Byte} {x y : ℕ} (v : Int) (hxy : y + 1 < x ∨ x + 1 < y) :
    getByte2 (setByte2 raw x v) y = getByte2 raw y := by
  unfold getByte2
  rw [getD_setByte2 v (by omega) (by omega), getD_setByte2 v (by omega) (by omega)]

/-- A `short` is read back, where it is one that `pkt_setaddr` stores. -/
theorem getByte2_setByte2 {raw : List Byte} {x : ℕ} {v : Int} (hlt : v < 32768) (hlen : x + 1 < raw.length) :
    getByte2 (setByte2 raw x v) x = if v < 0 then getByte2 raw x else v.toNat := by
  unfold setByte2
  split_ifs with hneg
  · rfl
  · have h0 : ((raw.set x (v % 256).toNat.toUInt8).set (x + 1) (v / 256 % 256).toNat.toUInt8).getD x 0 =
        (v % 256).toNat.toUInt8 := by
      rw [List.getD_eq_getElem?_getD, List.getElem?_set_ne (by omega), List.getElem?_set_self (by omega)]
      rfl
    have h1 : ((raw.set x (v % 256).toNat.toUInt8).set (x + 1) (v / 256 % 256).toNat.toUInt8).getD (x + 1) 0 =
        (v / 256 % 256).toNat.toUInt8 := by
      rw [List.getD_eq_getElem?_getD, List.getElem?_set_self (by rw [List.length_set]; omega)]
      rfl
    have hnat : ∀ n : ℕ, n.toUInt8.toNat = n % 2 ^ 8 := fun n => UInt8.toNat_ofNat'
    unfold getByte2
    rw [h0, h1, hnat, hnat]
    omega

/-! ### The cast to `short` -/

theorem toShort_eq {n : ℕ} (h : n < 65536) : toShort n = if n < 0x8000 then (n : Int) else n - 65536 := by
  unfold toShort
  split_ifs with hn
  · exact Int.bmod_eq_of_le (by omega) (by omega)
  · rw [← Int.sub_bmod_right]
    exact Int.bmod_eq_of_le (by omega) (by omega)

theorem toShort_neg {n : ℕ} (h : n < 65536) : toShort n < 0 ↔ 0x8000 ≤ n := by
  rw [toShort_eq h]
  split_ifs <;> omega

theorem toShort_inj {m n : ℕ} (hm : m < 65536) (hn : n < 65536) : toShort m = toShort n ↔ m = n := by
  rw [toShort_eq hm, toShort_eq hn]
  split_ifs <;> omega

/-! ### The dialects -/

/-- The headers that `pkt_getaddr` and `pkt_setaddr` tell apart: those of qmail and zmail, that have
zones, those of type 2 that have points, and the others. -/
inductive PktDialect
  | plain | mailer | type2
deriving DecidableEq

def pktDialect (raw : List Byte) : PktDialect :=
  if raw.getD 24 0 = 0x29 ∨ raw.getD 24 0 = 0x35 then .mailer
  else if raw.getD 44 0 &&& 1 ≠ 0 then .type2
  else .plain

/-- What a dialect stores of an address. -/
def PktDialect.stored : PktDialect → PktAddr → PktAddr
  | .plain, a => { a with z := -1, p := -1 }
  | .mailer, a => { a with p := -1 }
  | .type2, a => a

/-- A type 2+ header of a point: its origin net may be the auxiliary one. -/
def PointPlus (raw : List Byte) : Prop :=
  pktDialect raw = .type2 ∧ raw.getD 44 0 = raw.getD 41 0 ∧ raw.getD 45 0 = raw.getD 40 0 ∧
    getByte2 raw 50 ≠ 0

instance (raw : List Byte) : Decidable (PointPlus raw) :=
  inferInstanceAs (Decidable (_ ∧ _ ∧ _ ∧ _))

/-- Where a dialect has the zones. -/
def PktDialect.zones : PktDialect → ℕ × ℕ
  | .mailer => (34, 36)
  | _ => (46, 48)

/-- The origin net. -/
def originNet (raw : List Byte) : ℕ :=
  if PointPlus raw ∧ getByte2 raw 20 = 0xffff then getByte2 raw 38 else getByte2 raw 20

theorem pktGetaddr_eq {raw : List Byte} (hver : getByte2 raw 18 = 2) :
    pktGetaddr raw = some
      ((pktDialect raw).stored ⟨toShort (getByte2 raw (pktDialect raw).zones.1), toShort (originNet raw),
        toShort (getByte2 raw 0), toShort (getByte2 raw 50)⟩,
      (pktDialect raw).stored ⟨toShort (getByte2 raw (pktDialect raw).zones.2), toShort (getByte2 raw 22),
        toShort (getByte2 raw 2), toShort (getByte2 raw 52)⟩) := by
  have haux : toShort (getByte2 raw 20) = -1 ↔ getByte2 raw 20 = 0xffff := by
    rw [show (-1 : Int) = toShort (0xffff : ℕ) from rfl, toShort_inj (getByte2_lt raw 20) (by omega)]
  unfold pktGetaddr originNet
  rw [if_neg (not_not_intro hver)]
  dsimp only
  by_cases hmail : raw.getD 24 0 = 0x29 ∨ raw.getD 24 0 = 0x35
  · have hdialect : pktDialect raw = .mailer := if_pos hmail
    have hplus : ¬ (PointPlus raw ∧ getByte2 raw 20 = 0xffff) := fun h => by
      have htype := h.1.1
      rw [hdialect] at htype
      cases htype
    rw [if_pos hmail, if_neg hplus, hdialect]
    simp only [PktDialect.stored, PktDialect.zones]
  · rw [if_neg hmail]
    by_cases hpoint : raw.getD 44 0 &&& 1 ≠ 0
    · have hdialect : pktDialect raw = .type2 := by rw [pktDialect, if_neg hmail, if_pos hpoint]
      have hplus : (raw.getD 44 0 = raw.getD 41 0 ∧ raw.getD 45 0 = raw.getD 40 0 ∧ getByte2 raw 50 ≠ 0 ∧
          getByte2 raw 20 = 0xffff) ↔ PointPlus raw ∧ getByte2 raw 20 = 0xffff :=
        ⟨fun h => ⟨⟨hdialect, h.1, h.2.1, h.2.2.1⟩, h.2.2.2⟩, fun h => ⟨h.1.2.1, h.1.2.2.1, h.1.2.2.2, h.2⟩⟩
      rw [if_pos hpoint]
      simp only [haux, hplus, hdialect, PktDialect.stored, PktDialect.zones]
      split_ifs <;> rfl
    · have hdialect : pktDialect raw = .plain := by rw [pktDialect, if_neg hmail, if_neg hpoint]
      have hplus : ¬ (PointPlus raw ∧ getByte2 raw 20 = 0xffff) := fun h => by
        have htype := h.1.1
        rw [hdialect] at htype
        cases htype
      rw [if_neg hpoint, if_neg hplus, hdialect]
      simp only [PktDialect.stored]

/-! ### The header that `pkt_setaddr` leaves -/

section

variable {raw : List Byte} (d : PktAddr)

/-- What has been stored of a destination, before the origin net is moved. -/
def storeDest (raw : List Byte) (d : PktAddr) : List Byte :=
  let raw' := setByte2 (setByte2 raw 2 d.node) 22 d.net
  match pktDialect raw with
  | .plain => raw'
  | .mailer => setByte2 raw' 36 d.z
  | .type2 => setByte2 (setByte2 raw' 48 d.z) 52 d.p

theorem getD_set {x y : ℕ} {c : Byte} (hlen : x < raw.length) :
    (raw.set x c).getD y 0 = if y = x then c else raw.getD y 0 := by
  rw [List.getD_eq_getElem?_getD, List.getElem?_set]
  by_cases h : x = y
  · rw [if_pos h, if_pos hlen, if_pos h.symm]
    rfl
  · rw [if_neg h, if_neg (fun hyx => h hyx.symm), List.getD_eq_getElem?_getD]

theorem setByte2_none (raw : List Byte) (x : ℕ) : setByte2 raw x (-1) = raw := if_pos (by decide)

theorem getD_storeDest {y : ℕ} (hy : y < 2 ∨ 3 < y ∧ y < 22 ∨ 23 < y ∧ y < 36 ∨ 37 < y ∧ y < 48 ∨ 49 < y ∧ y < 52) :
    (storeDest raw d).getD y 0 = raw.getD y 0 := by
  unfold storeDest
  dsimp only
  cases pktDialect raw with
  | plain =>
    dsimp only
    rw [getD_setByte2 _ (by omega) (by omega), getD_setByte2 _ (by omega) (by omega)]
  | mailer =>
    dsimp only
    rw [getD_setByte2 _ (by omega) (by omega), getD_setByte2 _ (by omega) (by omega),
      getD_setByte2 _ (by omega) (by omega)]
  | type2 =>
    dsimp only
    rw [getD_setByte2 _ (by omega) (by omega), getD_setByte2 _ (by omega) (by omega),
      getD_setByte2 _ (by omega) (by omega), getD_setByte2 _ (by omega) (by omega)]

theorem getByte2_storeDest {y : ℕ}
    (hy : y < 1 ∨ 3 < y ∧ y < 21 ∨ 23 < y ∧ y < 35 ∨ 37 < y ∧ y < 47 ∨ 49 < y ∧ y < 51) :
    getByte2 (storeDest raw d) y = getByte2 raw y := by
  unfold getByte2
  rw [getD_storeDest d (by omega), getD_storeDest d (by omega)]

theorem pktDialect_storeDest : pktDialect (storeDest raw d) = pktDialect raw := by
  unfold pktDialect
  rw [getD_storeDest d (by omega), getD_storeDest d (by omega)]

theorem pointPlus_storeDest : PointPlus (storeDest raw d) ↔ PointPlus raw := by
  unfold PointPlus
  rw [pktDialect_storeDest, getD_storeDest d (by omega), getD_storeDest d (by omega),
    getD_storeDest d (by omega),
    getD_storeDest d (by omega), getByte2_storeDest d (by omega)]

theorem pktSetaddr_eq (hver : getByte2 raw 18 = 2) : pktSetaddr raw {} d =
    if PointPlus raw then
      ((((storeDest raw d).set 38 (raw.getD 20 0)).set 39 (raw.getD 21 0)).set 20 255).set 21 255
    else storeDest raw d := by
  have h24 : (setByte2 (setByte2 raw 2 d.node) 22 d.net).getD 24 0 = raw.getD 24 0 := by
    rw [getD_setByte2 _ (by omega) (by omega), getD_setByte2 _ (by omega) (by omega)]
  have h44 : (setByte2 (setByte2 raw 2 d.node) 22 d.net).getD 44 0 = raw.getD 44 0 := by
    rw [getD_setByte2 _ (by omega) (by omega), getD_setByte2 _ (by omega) (by omega)]
  unfold pktSetaddr
  rw [if_neg (not_not_intro hver)]
  simp only [setByte2_none]
  rw [h24, h44]
  by_cases hmail : raw.getD 24 0 = 0x29 ∨ raw.getD 24 0 = 0x35
  · have hdialect : pktDialect raw = .mailer := if_pos hmail
    rw [if_pos hmail, if_neg (fun h => by rw [PointPlus, hdialect] at h; cases h.1), storeDest, hdialect]
  · rw [if_neg hmail]
    by_cases hpoint : raw.getD 44 0 &&& 1 ≠ 0
    · have hdialect : pktDialect raw = .type2 := by rw [pktDialect, if_neg hmail, if_pos hpoint]
      have hstore : setByte2 (setByte2 (setByte2 (setByte2 raw 2 d.node) 22 d.net) 48 d.z) 52 d.p =
          storeDest raw d := by rw [storeDest, hdialect]
      have hplus : (raw.getD 44 0 = raw.getD 41 0 ∧ raw.getD 45 0 = raw.getD 40 0 ∧
        getByte2 raw 50 ≠ 0) ↔
          PointPlus raw := ⟨fun h => ⟨hdialect, h⟩, fun h => h.2⟩
      rw [if_pos hpoint, hstore, getD_storeDest d (by omega), getD_storeDest d (by omega),
        getD_storeDest d (by omega), getD_storeDest d (by omega), getD_storeDest d (by omega),
        getD_storeDest d (by omega), getByte2_storeDest d (by omega)]
      simp only [hplus]
    · have hdialect : pktDialect raw = .plain := by rw [pktDialect, if_neg hmail, if_neg hpoint]
      rw [if_neg hpoint, if_neg (fun h => by rw [PointPlus, hdialect] at h; cases h.1),
        storeDest, hdialect]

/-- The bytes of the header that is left: those of the auxiliary net, and those of the net, that
`pkt_setaddr` moves for a point. -/
theorem getD_pktSetaddr {y : ℕ} (hver : getByte2 raw 18 = 2) (hlen : 58 ≤ raw.length) :
    (pktSetaddr raw {} d).getD y 0 = if PointPlus raw then
      if y = 20 ∨ y = 21 then 255 else if y = 38 then raw.getD 20 0 else if y = 39 then raw.getD 21 0
      else (storeDest raw d).getD y 0
    else (storeDest raw d).getD y 0 := by
  have hstore : (storeDest raw d).length = raw.length := by
    unfold storeDest
    dsimp only
    cases pktDialect raw <;> simp only [setByte2_length]
  rw [pktSetaddr_eq d hver]
  by_cases hplus : PointPlus raw
  · rw [if_pos hplus, if_pos hplus]
    rw [getD_set (by simp only [List.length_set, hstore]; omega),
      getD_set (by simp only [List.length_set, hstore]; omega),
      getD_set (by simp only [List.length_set, hstore]; omega), getD_set (by rw [hstore]; omega)]
    split_ifs <;> first | rfl | omega
  · rw [if_neg hplus, if_neg hplus]

theorem getD_pktSetaddr_kept {y : ℕ} (hver : getByte2 raw 18 = 2) (hlen : 58 ≤ raw.length)
    (hy : y < 20 ∨ 21 < y ∧ y < 38 ∨ 39 < y) :
    (pktSetaddr raw {} d).getD y 0 = (storeDest raw d).getD y 0 := by
  rw [getD_pktSetaddr d hver hlen, if_neg (show ¬ (y = 20 ∨ y = 21) by omega),
    if_neg (show ¬ y = 38 by omega),
    if_neg (show ¬ y = 39 by omega), ite_self]

theorem getByte2_pktSetaddr {y : ℕ} (hver : getByte2 raw 18 = 2) (hlen : 58 ≤ raw.length)
    (hy : y < 19 ∨ 21 < y ∧ y < 37 ∨ 39 < y) :
    getByte2 (pktSetaddr raw {} d) y = getByte2 (storeDest raw d) y := by
  unfold getByte2
  rw [getD_pktSetaddr_kept d hver hlen (by omega), getD_pktSetaddr_kept d hver hlen (by omega)]

theorem pktDialect_pktSetaddr (hver : getByte2 raw 18 = 2) (hlen : 58 ≤ raw.length) :
    pktDialect (pktSetaddr raw {} d) = pktDialect raw := by
  unfold pktDialect
  rw [getD_pktSetaddr_kept d hver hlen (by omega), getD_pktSetaddr_kept d hver hlen (by omega),
    getD_storeDest d (by omega), getD_storeDest d (by omega)]

theorem pointPlus_pktSetaddr (hver : getByte2 raw 18 = 2) (hlen : 58 ≤ raw.length) :
    PointPlus (pktSetaddr raw {} d) ↔ PointPlus raw := by
  rw [← @pointPlus_storeDest raw d]
  unfold PointPlus
  rw [pktDialect_pktSetaddr d hver hlen, pktDialect_storeDest,
    getByte2_pktSetaddr d hver hlen (by omega),
    getD_pktSetaddr_kept d hver hlen (by omega), getD_pktSetaddr_kept d hver hlen (by omega),
    getD_pktSetaddr_kept d hver hlen (by omega), getD_pktSetaddr_kept d hver hlen (by omega)]

/-- The origin net of the header that is left: for a point it is the net of the header, which
`pkt_setaddr` has moved, and not the auxiliary one. -/
theorem originNet_pktSetaddr (hver : getByte2 raw 18 = 2) (hlen : 58 ≤ raw.length) :
    originNet (pktSetaddr raw {} d) = getByte2 raw 20 := by
  have hget : ∀ y, (pktSetaddr raw {} d).getD y 0 = _ := fun y => getD_pktSetaddr d hver hlen
  unfold originNet
  simp only [pointPlus_pktSetaddr d hver hlen]
  by_cases hplus : PointPlus raw
  · have h20 : getByte2 (pktSetaddr raw {} d) 20 = 0xffff := by
      unfold getByte2
      rw [hget, hget, if_pos hplus, if_pos hplus, if_pos (.inl rfl), if_pos (.inr rfl)]
      decide
    have h38 : getByte2 (pktSetaddr raw {} d) 38 = getByte2 raw 20 := by
      unfold getByte2
      rw [hget, hget, if_pos hplus, if_pos hplus, if_neg (by decide), if_pos rfl, if_neg (by decide),
        if_neg (by decide), if_pos rfl]
    rw [if_pos ⟨hplus, h20⟩, h38]
  · rw [if_neg (fun h => hplus h.1)]
    unfold getByte2
    rw [hget, hget, if_neg hplus, if_neg hplus, getD_storeDest d (by omega), getD_storeDest d (by omega)]

/-! ### Redirecting a packet -/

/-- The parts of an address with the places where the dialect of a header has them in the destination. -/
def destFields (raw : List Byte) (z net node p : UInt16) : List (ℕ × UInt16) :=
  match pktDialect raw with
  | .plain => [(22, net), (2, node)]
  | .mailer => [(36, z), (22, net), (2, node)]
  | .type2 => [(48, z), (22, net), (2, node), (52, p)]

/-- The casts of `send_block`. -/
def shortAddr (z net node p : UInt16) : PktAddr :=
  ⟨toShort z.toNat, toShort net.toNat, toShort node.toNat, toShort p.toNat⟩

/-- A header that has its origin net as the auxiliary one. -/
def AuxNet (raw : List Byte) : Prop := PointPlus raw ∧ getByte2 raw 20 = 0xffff ∧
    getByte2 raw 38 ≠ 0xffff

instance (raw : List Byte) : Decidable (AuxNet raw) :=
  inferInstanceAs (Decidable (_ ∧ _ ∧ _))

/-- A part of an address is read back, as a `short`, if and only if it is below 0x8000 or there
already. -/
theorem toShort_stored (raw : List Byte) (x : ℕ) (n : UInt16) :
    toShort ((if toShort n.toNat < 0 then getByte2 raw x else (toShort n.toNat).toNat : ℕ)) = toShort n.toNat ↔
      n.toNat < 0x8000 ∨ getByte2 raw x = n.toNat := by
  have hn : n.toNat < 65536 := n.toNat_lt
  have hx := getByte2_lt raw x
  by_cases hlt : n.toNat < 0x8000
  · have hpos : ¬ toShort n.toNat < 0 := fun h => by
      have hge := (toShort_neg hn).mp h
      omega
    rw [if_neg hpos, toShort_eq hn, if_pos hlt, Int.toNat_natCast, toShort_eq hn, if_pos hlt]
    exact ⟨fun _ => .inl hlt, fun _ => rfl⟩
  · rw [if_pos ((toShort_neg hn).mpr (by omega)), toShort_inj hx hn]
    exact ⟨.inr, fun h => h.resolve_left hlt⟩

/-- What the cast of `send_block` leaves in two bytes. -/
theorem getByte2_shortAddr {x : ℕ} (raw : List Byte) (n : UInt16) (hlen : x + 1 < raw.length) :
    getByte2 (setByte2 raw x (toShort n.toNat)) x =
      if toShort n.toNat < 0 then getByte2 raw x else (toShort n.toNat).toNat := by
  refine getByte2_setByte2 ?_ hlen
  have hn := n.toNat_lt
  rw [toShort_eq hn]
  split_ifs <;> omega

/-- The destination is stored if and only if each of its parts is. -/
theorem stored_dest (hlen : 58 ≤ raw.length) (z net node p : UInt16) :
    (pktDialect raw).stored
        ⟨toShort (getByte2 (storeDest raw (shortAddr z net node p)) (pktDialect raw).zones.2),
          toShort (getByte2 (storeDest raw (shortAddr z net node p)) 22),
          toShort (getByte2 (storeDest raw (shortAddr z net node p)) 2),
          toShort (getByte2 (storeDest raw (shortAddr z net node p)) 52)⟩ =
      (pktDialect raw).stored (shortAddr z net node p) ↔
    ∀ f ∈ destFields raw z net node p, f.2.toNat < 0x8000 ∨ getByte2 raw f.1 = f.2.toNat := by
  unfold storeDest destFields shortAddr
  cases pktDialect raw with
  | plain =>
    dsimp only [PktDialect.stored, PktDialect.zones]
    rw [getByte2_shortAddr _ _ (by rw [setByte2_length]; omega), getByte2_setByte2_ne _ (by omega),
      getByte2_setByte2_ne _ (by omega), getByte2_shortAddr _ _ (by omega),
        PktAddr.mk.injEq, toShort_stored,
      toShort_stored]
    simp [and_comm]
  | mailer =>
    dsimp only [PktDialect.stored, PktDialect.zones]
    rw [getByte2_shortAddr _ _ (by rw [setByte2_length, setByte2_length]; omega),
      getByte2_setByte2_ne _ (by omega), getByte2_setByte2_ne _ (by omega),
        getByte2_setByte2_ne _ (by omega),
      getByte2_shortAddr _ _ (by rw [setByte2_length]; omega), getByte2_setByte2_ne _ (by omega),
      getByte2_setByte2_ne _ (by omega), getByte2_setByte2_ne _ (by omega),
        getByte2_shortAddr _ _ (by omega),
      PktAddr.mk.injEq, toShort_stored, toShort_stored, toShort_stored]
    simp
  | type2 =>
    dsimp only [PktDialect.stored, PktDialect.zones]
    rw [getByte2_setByte2_ne _ (by omega),
      getByte2_shortAddr _ _ (by rw [setByte2_length, setByte2_length]; omega),
        getByte2_setByte2_ne _ (by omega),
      getByte2_setByte2_ne _ (by omega), getByte2_setByte2_ne _ (by omega),
        getByte2_setByte2_ne _ (by omega),
      getByte2_shortAddr _ _ (by rw [setByte2_length]; omega), getByte2_setByte2_ne _ (by omega),
      getByte2_setByte2_ne _ (by omega), getByte2_setByte2_ne _ (by omega),
        getByte2_setByte2_ne _ (by omega),
      getByte2_shortAddr _ _ (by omega),
      getByte2_shortAddr _ _ (by rw [setByte2_length, setByte2_length, setByte2_length]; omega),
      getByte2_setByte2_ne _ (by omega), getByte2_setByte2_ne _ (by omega),
        getByte2_setByte2_ne _ (by omega),
      PktAddr.mk.injEq, toShort_stored, toShort_stored, toShort_stored, toShort_stored]
    simp

/-- The origin stays if and only if it has not its net as the auxiliary one. -/
theorem stored_origin (hver : getByte2 raw 18 = 2) (hlen : 58 ≤ raw.length) (d : PktAddr) :
    (pktDialect raw).stored ⟨toShort (getByte2 (pktSetaddr raw {} d) (pktDialect raw).zones.1),
        toShort (originNet (pktSetaddr raw {} d)), toShort (getByte2 (pktSetaddr raw {} d) 0),
        toShort (getByte2 (pktSetaddr raw {} d) 50)⟩ =
      (pktDialect raw).stored ⟨toShort (getByte2 raw (pktDialect raw).zones.1), toShort (originNet raw),
        toShort (getByte2 raw 0), toShort (getByte2 raw 50)⟩ ↔ ¬ AuxNet raw := by
  have hlt : originNet raw < 65536 := by
    unfold originNet
    split_ifs <;> exact getByte2_lt raw _
  have hnet : toShort (getByte2 raw 20 : ℕ) = toShort (originNet raw) ↔ ¬ AuxNet raw := by
    rw [toShort_inj (getByte2_lt raw 20) hlt, originNet, AuxNet]
    by_cases haux : PointPlus raw ∧ getByte2 raw 20 = 0xffff
    · rw [if_pos haux, haux.2]
      exact ⟨fun h hne => hne.2.2 h.symm, fun h => by_contra fun hne => h ⟨haux.1, rfl, fun heq => hne heq.symm⟩⟩
    · rw [if_neg haux]
      exact ⟨fun _ h => haux ⟨h.1, h.2.1⟩, fun _ => rfl⟩
  have hget : ∀ y, y < 1 ∨ 23 < y ∧ y < 35 ∨ 39 < y ∧ y < 47 ∨ 49 < y ∧ y < 51 →
      getByte2 (pktSetaddr raw {} d) y = getByte2 raw y := by
    intro y hy
    rw [getByte2_pktSetaddr d hver hlen (by omega), getByte2_storeDest d (by omega)]
  rw [originNet_pktSetaddr d hver hlen, hget 0 (by omega), hget 50 (by omega), ← hnet]
  cases pktDialect raw with
  | plain => simp [PktDialect.stored]
  | mailer => simp [PktDialect.stored, PktDialect.zones, hget 34 (by omega)]
  | type2 => simp [PktDialect.stored, PktDialect.zones, hget 46 (by omega)]

/-- **Redirecting a packet**: after `send_block` has changed the destination of a header, the new
destination is read from it, and the origin that was read before, if and only if every part of the
destination that the dialect stores is below 0x8000 or there already, and the header does not have
its origin net as the auxiliary one. -/
theorem pktSetaddr_redirects (hver : getByte2 raw 18 = 2) (hlen : 58 ≤ raw.length) (z net node p : UInt16) :
    (∃ o old, pktGetaddr raw = some (o, old) ∧ pktGetaddr (pktSetaddr raw {} (shortAddr z net node p)) =
      some (o, (pktDialect raw).stored (shortAddr z net node p))) ↔
    (∀ f ∈ destFields raw z net node p, f.2.toNat < 0x8000 ∨ getByte2 raw f.1 = f.2.toNat) ∧
    ¬ AuxNet raw := by
  have hver' : getByte2 (pktSetaddr raw {} (shortAddr z net node p)) 18 = 2 := by
    rw [getByte2_pktSetaddr _ hver hlen (by omega), getByte2_storeDest _ (by omega), hver]
  have hiff : ∀ o o' old d d' : PktAddr, (∃ a b, some (o, old) = some (a, b) ∧
    some (o', d) = some (a, d')) ↔
      o' = o ∧ d = d' := by
    intro o o' old d d'
    constructor
    · rintro ⟨a, b, h, h'⟩
      cases h
      cases h'
      exact ⟨rfl, rfl⟩
    · rintro ⟨rfl, rfl⟩
      exact ⟨_, _, rfl, rfl⟩
  have hzone : getByte2 (pktSetaddr raw {} (shortAddr z net node p)) (pktDialect raw).zones.2 =
      getByte2 (storeDest raw (shortAddr z net node p)) (pktDialect raw).zones.2 := by
    cases pktDialect raw <;> exact getByte2_pktSetaddr _ hver hlen (by dsimp only [PktDialect.zones]; omega)
  rw [pktGetaddr_eq hver, pktGetaddr_eq hver', pktDialect_pktSetaddr _ hver hlen, hiff,
    stored_origin hver hlen, hzone, getByte2_pktSetaddr _ hver hlen (by omega),
    getByte2_pktSetaddr _ hver hlen (by omega), getByte2_pktSetaddr _ hver hlen (by omega),
    stored_dest hlen, and_comm]

end

/-- The header of a packet from the point 1, its net as the auxiliary one: 5 in `auxNet`, 0xffff in
its place. -/
def auxHeader : List Byte :=
  [7, 0, 3, 0, 0, 0, 0, 0, 0, 0, 0, 0, 0, 0, 0, 0, 0, 0, 2, 0, 255, 255, 2, 0, 0, 0, 0, 0, 0, 0, 0, 0, 0, 0, 0, 0,
    0, 0, 5, 0, 0, 1, 0, 0, 1, 0, 1, 0, 1, 0, 1, 0, 0, 0, 0, 0, 0, 0]

/-- The same of a packet from the node itself. -/
def nodeHeader : List Byte := (((auxHeader.set 20 5).set 21 0).set 38 0).set 50 0

theorem nodeHeader_redirected : ∃ o old, pktGetaddr nodeHeader = some (o, old) ∧
    pktGetaddr (pktSetaddr nodeHeader {} (shortAddr 2 5020 1042 0)) =
      some (o, (pktDialect nodeHeader).stored (shortAddr 2 5020 1042 0)) :=
  (pktSetaddr_redirects (by decide) (by decide) 2 5020 1042 0).mpr ⟨by decide, by decide⟩

/-- The origin net of `auxHeader` is lost: 0xffff is moved over it. -/
theorem auxHeader_origin : ¬ ∀ raw : List Byte, raw.length = 58 → getByte2 raw 18 = 2 →
    ∀ z net node p : UInt16,
    ∃ o old, pktGetaddr raw = some (o, old) ∧ pktGetaddr (pktSetaddr raw {} (shortAddr z net node p)) =
      some (o, (pktDialect raw).stored (shortAddr z net node p)) := by
  intro h
  obtain ⟨o, old, hold, hnew⟩ := h auxHeader rfl rfl 2 5020 1042 0
  have hnet : (pktGetaddr auxHeader).map (·.1.net) = some 5 := by decide
  have hlost : (pktGetaddr (pktSetaddr auxHeader {} (shortAddr 2 5020 1042 0))).map (·.1.net) = some (-1) := by
    decide
  rw [hold, Option.map_some, Option.some.injEq] at hnet
  rw [hnew, Option.map_some, Option.some.injEq] at hlost
  exact absurd (hnet.symm.trans hlost) (by decide)

end Binkd
