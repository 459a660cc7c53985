import Binkd.FtnNode

/-!
# Mail packet headers (`pkt_getaddr` and `pkt_setaddr` of `tools.c`)

The addresses in the 58 bytes of a type-2 packet header.  The plain header has net
and node; the dialects of qmail and zmail add zones, type 2+ and FSC-48 zones and
points.
-/

namespace Binkd

/-- `GET_BYTE2`. -/
def getByte2 (raw : List Byte) (x : Nat) : Nat :=
    (raw.getD x 0).toNat + (raw.getD (x + 1) 0).toNat * 0x100

/-- `SET_BYTE2` of a non-negative `short`. -/
def setByte2 (raw : List Byte) (x : Nat) (v : Int) : List Byte :=
  if v < 0 then raw
  else (raw.set x (v % 256).toNat.toUInt8).set (x + 1) (v / 256 % 256).toNat.toUInt8

/-- The cast to `short`. -/
def toShort (n : Int) : Int := n.bmod (2 ^ 16)

/-- The four parts of an address as `short`s. -/
structure PktAddr where
  z : Int := -1
  net : Int := -1
  node : Int := -1
  p : Int := -1
deriving DecidableEq

/-- `pkt_getaddr`: origin and destination, or `none` for another packet version. -/
def pktGetaddr (raw : List Byte) : Option (PktAddr × PktAddr) :=
  if getByte2 raw 18 ≠ 2 then none
  else
    let sh x := toShort (getByte2 raw x)
    let o : PktAddr := { net := sh 20, node := sh 0 }
    let d : PktAddr := { net := sh 22, node := sh 2 }
    if raw.getD 24 0 = 0x29 ∨ raw.getD 24 0 = 0x35 then
      some ({ o with z := sh 34 }, { d with z := sh 36 })
    else if raw.getD 44 0 &&& 1 ≠ 0 then
      let o := { o with z := sh 46, p := sh 50 }
      let d := { d with z := sh 48, p := sh 52 }
      let aux := raw.getD 44 0 = raw.getD 41 0 ∧ raw.getD 45 0 = raw.getD 40 0 ∧ getByte2 raw 50 ≠ 0 ∧
        o.net = -1
      some (if aux then { o with net := sh 38 } else o, d)
    else some (o, d)

/-- `pkt_setaddr`; negative parts are left alone. -/
def pktSetaddr (raw : List Byte) (o d : PktAddr) : List Byte :=
  if getByte2 raw 18 ≠ 2 then raw
  else
    let raw := setByte2 (setByte2 raw 0 o.node) 20 o.net
    let raw := setByte2 (setByte2 raw 2 d.node) 22 d.net
    if raw.getD 24 0 = 0x29 ∨ raw.getD 24 0 = 0x35 then setByte2 (setByte2 raw 34 o.z) 36 d.z
    else if raw.getD 44 0 &&& 1 ≠ 0 then
      let raw := setByte2 (setByte2 raw 46 o.z) 50 o.p
      let raw := setByte2 (setByte2 raw 48 d.z) 52 d.p
      if raw.getD 44 0 = raw.getD 41 0 ∧ raw.getD 45 0 = raw.getD 40 0 ∧ getByte2 raw 50 ≠ 0 then
        (((raw.set 38 (raw.getD 20 0)).set 39 (raw.getD 21 0)).set 20 255).set 21 255
      else raw
    else raw

/-- `memset (buf + 26, 0, 8)` and the copy of the packet password. -/
def pktSetPwd (raw pwd : List Byte) : List Byte :=
  (List.range 8).foldl (fun raw i => raw.set (26 + i) (pwd.getD i 0)) raw

theorem setByte2_length (raw : List Byte) (x : Nat) (v : Int) :
    (setByte2 raw x v).length = raw.length := by
  unfold setByte2
  split_ifs <;> simp

/-- Changing a header keeps its length. -/
theorem pktSetaddr_length (raw : List Byte) (o d : PktAddr) :
    (pktSetaddr raw o d).length = raw.length := by
  unfold pktSetaddr
  dsimp only
  split_ifs <;> simp [setByte2_length]

theorem pktSetPwd_length (raw pwd : List Byte) : (pktSetPwd raw pwd).length = raw.length := by
  unfold pktSetPwd
  induction List.range 8 generalizing raw with
  | nil => rfl
  | cons i l ih => rw [List.foldl_cons, ih, List.length_set]

end Binkd
