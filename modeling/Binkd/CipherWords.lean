import Binkd.Crypt
import Binkd.Identity
import Binkd.Lib.KeyRelation

/-!
# The cipher in machine words

The functions of `crypt.c` again, with the `int`s that they pass: a byte of the buffer is
a `char`, which the compiler may extend with its sign, `keyshift` is an `int`, and
`unsigned long` has 32 or 64 bits.  `crc32Int_byte` says that only the low byte of an
`int` counts, so that the loops are those of the cipher `crypt`.  Two ends whose words
differ in width keep `SameKeys`: the first and the third key have no bits above 32, and
the low 32 bits of the second one agree.
-/

namespace Binkd

open Lib

variable {v w : ℕ} {c : Byte} {n : ℕ}

/-! ### The functions with their `int`s -/

/-- A `char` as the `int` that it is passed as. -/
def charInt (signed : Bool) (c : Byte) : Int32 := if signed then c.toInt8.toInt32 else c.toUInt32.toInt32

/-- The macro `CRC32`. -/
def crc32Int (c : BitVec w) (b : Int32) : BitVec w :=
  BitVec.ofNat w (crc32Tab.getD ((c.setWidth 32 ^^^ b.toBitVec) &&& 0xff).toNat 0) ^^^ (c >>> 8)

/-- `update_keys`. -/
def updateKeysInt (keys : Keys w) (c : Int32) : Keys w :=
  let k0 := crc32Int keys.k0 c
  let k1 := (keys.k1 + (k0 &&& 0xff)) * 134775813 + 1
  let keyshift := Int32.ofBitVec ((k1 >>> 24).setWidth 32)
  ⟨k0, k1, crc32Int keys.k2 keyshift⟩

/-- `decrypt_byte`; `temp` is an `unsigned`. -/
def decryptByteInt (keys : Keys w) : BitVec 32 :=
  let temp := (keys.k2.setWidth 32 &&& 0xffff) ||| 2
  ((temp * (temp ^^^ 1)) >>> 8) &&& 0xff

/-- `encrypt_buf`. -/
def encryptBufInt (signed : Bool) : List Byte → Keys w → List Byte × Keys w
  | [], keys => ([], keys)
  | b :: buf, keys =>
    let t := decryptByteInt keys
    let r := encryptBufInt signed buf (updateKeysInt keys (charInt signed b))
    ((b ^^^ t.toNat.toUInt8) :: r.1, r.2)

/-- `decrypt_buf`. -/
def decryptBufInt (signed : Bool) : List Byte → Keys w → List Byte × Keys w
  | [], keys => ([], keys)
  | b :: buf, keys =>
    let b := b ^^^ (decryptByteInt keys).toNat.toUInt8
    let r := decryptBufInt signed buf (updateKeysInt keys (charInt signed b))
    (b :: r.1, r.2)

/-- The bytes that a text is masked with. -/
def keystream (signed : Bool) : Keys w → List Byte → List Byte
  | _, [] => []
  | keys, b :: text =>
    (decryptByteInt keys).toNat.toUInt8 :: keystream signed (updateKeysInt keys (charInt signed b)) text

/-! ### Only the low byte counts -/

theorem charInt_low (signed : Bool) (c : Byte) : (charInt signed c).toBitVec.toNat % 256 = c.toNat := by
  have hbyte : ∀ c : Byte, (charInt true c).toBitVec.toNat % 256 = c.toNat ∧
      (charInt false c).toBitVec.toNat % 256 = c.toNat :=
    forall_byte (by decide +kernel)
  cases signed with
  | true => exact (hbyte c).1
  | false => exact (hbyte c).2

theorem low_byte (x : BitVec n) (h : 8 ≤ n) : (x &&& 0xff).toNat = x.toNat % 256 := by
  have hmask : (0xff : BitVec n).toNat = 2 ^ 8 - 1 := by
    have hlt : 255 < 2 ^ n := Nat.lt_of_lt_of_le (by decide) (Nat.pow_le_pow_right (by decide) h)
    have hlit : (0xff : BitVec n).toNat = 255 % 2 ^ n := BitVec.toNat_ofNat 255 n
    exact hlit.trans (Nat.mod_eq_of_lt hlt)
  rw [BitVec.toNat_and, hmask, Nat.and_two_pow_sub_one_eq_mod]

/-- The macro looks at the low byte of its second argument only. -/
theorem crc32Int_byte (k : BitVec w) {b : Int32} (hb : b.toBitVec.toNat % 256 = c.toNat) :
    crc32Int k b = crc32 k c := by
  have hindex : ((k.setWidth 32 ^^^ b.toBitVec) &&& 0xff).toNat = (k.toNat % 256) ^^^ c.toNat := by
    rw [low_byte _ (by decide), BitVec.toNat_xor, BitVec.toNat_setWidth]
    have hmod : (256 : ℕ) = 2 ^ 8 := by decide
    rw [hmod, Nat.xor_mod_two_pow, ← hmod, hb, Nat.mod_mod_of_dvd _ (by decide)]
  rw [crc32Int, crc32, hindex]

theorem updateKeysInt_char (signed : Bool) (keys : Keys w) (c : Byte) :
    updateKeysInt keys (charInt signed c) = updateKeys keys c := by
  have hshift (x : BitVec w) : (Int32.ofBitVec (x.setWidth 32)).toBitVec.toNat % 256 = x.toNat.toUInt8.toNat := by
    have hof : (Int32.ofBitVec (x.setWidth 32)).toBitVec = x.setWidth 32 := rfl
    rw [hof, BitVec.toNat_setWidth, Nat.mod_mod_of_dvd _ (by decide)]
    rfl
  unfold updateKeysInt updateKeys
  rw [crc32Int_byte keys.k0 (charInt_low signed c)]
  dsimp only
  rw [crc32Int_byte keys.k2 (hshift _)]

/-- The product does not leave the 32 bits of `temp`. -/
theorem decryptByteInt_byte (keys : Keys w) : (decryptByteInt keys).toNat.toUInt8 = decryptByte keys := by
  have hmask : (0xffff : BitVec 32).toNat = 2 ^ 16 - 1 := by decide
  have htemp : ((keys.k2.setWidth 32 &&& 0xffff) ||| 2).toNat = (keys.k2.toNat % 65536) ||| 2 := by
    rw [BitVec.toNat_or, BitVec.toNat_and, hmask, Nat.and_two_pow_sub_one_eq_mod, BitVec.toNat_setWidth,
      Nat.mod_mod_of_dvd _ (by decide)]
    rfl
  have hlt : (keys.k2.toNat % 65536) ||| 2 < 2 ^ 16 :=
    Nat.or_lt_two_pow (Nat.mod_lt _ (by decide)) (by decide)
  unfold decryptByteInt decryptByte
  dsimp only
  generalize (keys.k2.toNat % 65536) ||| 2 = temp at htemp hlt
  have hxor : temp ^^^ 1 < 2 ^ 16 := Nat.xor_lt_two_pow hlt (by decide)
  have hmul : temp * (temp ^^^ 1) < 2 ^ 32 := by
    have h := Nat.mul_lt_mul_of_lt_of_le hlt hxor.le (by decide)
    omega
  rw [low_byte _ (by decide), BitVec.toNat_ushiftRight, BitVec.toNat_mul, BitVec.toNat_xor, htemp]
  have hone : (1 : BitVec 32).toNat = 1 := rfl
  rw [hone, Nat.mod_eq_of_lt hmul, Nat.shiftRight_eq_div_pow]
  apply UInt8.toNat_inj.mp
  simp

theorem encryptBufInt_eq (signed : Bool) (buf : List Byte) (keys : Keys w) :
    encryptBufInt signed buf keys = ((crypt w).encrypt keys buf, (crypt w).advance keys buf) := by
  rw [← encryptBuf_eq]
  induction buf generalizing keys with
  | nil => rfl
  | cons b buf ih => rw [encryptBufInt, encryptBuf, decryptByteInt_byte, updateKeysInt_char, ih]

theorem decryptBufInt_eq (signed : Bool) (buf : List Byte) (keys : Keys w) :
    decryptBufInt signed buf keys =
      ((crypt w).decrypt keys buf, (crypt w).advance keys ((crypt w).decrypt keys buf)) := by
  rw [← decryptBuf_eq]
  induction buf generalizing keys with
  | nil => rfl
  | cons b buf ih => rw [decryptBufInt, decryptBuf, decryptByteInt_byte, updateKeysInt_char, ih]

/-! ### Words of different width -/

/-- The keys of two ends, where the words of each have at least 32 bits. -/
structure SameKeys (a : Keys v) (b : Keys w) : Prop where
  k0 : a.k0.toNat = b.k0.toNat
  k1 : a.k1.toNat % 2 ^ 32 = b.k1.toNat % 2 ^ 32
  k2 : a.k2.toNat = b.k2.toNat
  k0_lt : a.k0.toNat < 2 ^ 32
  k2_lt : a.k2.toNat < 2 ^ 32

variable {a : Keys v} {b : Keys w}

theorem crc32Tab_lt (i : ℕ) : crc32Tab.getD i 0 < 2 ^ 32 := by
  rcases Nat.lt_or_ge i 256 with hlt | hge
  · have hall : ∀ i < 256, crc32Tab.getD i 0 < 2 ^ 32 := by decide +kernel
    exact hall i hlt
  · have hsize : crc32Tab.size = 256 := by decide +kernel
    rw [Array.getD_eq_getD_getElem?, Array.getElem?_eq_none (by omega)]
    decide

/-- A word that is long enough holds the whole of the macro's value. -/
theorem crc32_toNat (hw : 32 ≤ w) (k : BitVec w) (c : Byte) :
    (crc32 k c).toNat = crc32Tab.getD ((k.toNat % 256) ^^^ c.toNat) 0 ^^^ (k.toNat / 256) := by
  have hfits : 2 ^ 32 ≤ 2 ^ w := Nat.pow_le_pow_right (by decide) hw
  rw [crc32, BitVec.toNat_xor, BitVec.toNat_ofNat, BitVec.toNat_ushiftRight, Nat.shiftRight_eq_div_pow,
    Nat.mod_eq_of_lt (Nat.lt_of_lt_of_le (crc32Tab_lt _) hfits)]

theorem crc32_lt (hw : 32 ≤ w) {k : BitVec w} (hk : k.toNat < 2 ^ 32) (c : Byte) :
    (crc32 k c).toNat < 2 ^ 32 := by
  rw [crc32_toNat hw]
  exact Nat.xor_lt_two_pow (crc32Tab_lt _) (by omega)

/-- The low bits of the second key follow from its low bits. -/
theorem k1_low (hw : 32 ≤ w) (k1 k0 : BitVec w) : ((k1 + (k0 &&& 0xff)) * 134775813 + 1).toNat % 2 ^ 32 =
    ((k1.toNat % 2 ^ 32 + k0.toNat % 256) * 134775813 + 1) % 2 ^ 32 := by
  have hdvd : 2 ^ 32 ∣ 2 ^ w := Nat.pow_dvd_pow 2 hw
  have hlit : ∀ m : ℕ, (BitVec.ofNat w m).toNat % 2 ^ 32 = m % 2 ^ 32 := fun m => by
    rw [BitVec.toNat_ofNat, Nat.mod_mod_of_dvd _ hdvd]
  have hmul : (134775813 : BitVec w).toNat % 2 ^ 32 = 134775813 % 2 ^ 32 := hlit 134775813
  have hone : (1 : BitVec w).toNat % 2 ^ 32 = 1 % 2 ^ 32 := hlit 1
  rw [BitVec.toNat_add, Nat.mod_mod_of_dvd _ hdvd, Nat.add_mod, hone, BitVec.toNat_mul,
    Nat.mod_mod_of_dvd _ hdvd,
    Nat.mul_mod, hmul, BitVec.toNat_add, Nat.mod_mod_of_dvd _ hdvd, low_byte k0 (by omega)]
  omega

theorem SameKeys.update (hv : 32 ≤ v) (hw : 32 ≤ w) (h : SameKeys a b) (c : Byte) :
    SameKeys (updateKeys a c) (updateKeys b c) := by
  have hk0 : (crc32 a.k0 c).toNat = (crc32 b.k0 c).toNat := by rw [crc32_toNat hv, crc32_toNat hw, h.k0]
  have hk1 : ((a.k1 + (crc32 a.k0 c &&& 0xff)) * 134775813 + 1).toNat % 2 ^ 32 =
      ((b.k1 + (crc32 b.k0 c &&& 0xff)) * 134775813 + 1).toNat % 2 ^ 32 := by
    rw [k1_low hv, k1_low hw, h.k1, hk0]
  unfold updateKeys
  dsimp only
  generalize (a.k1 + (crc32 a.k0 c &&& 0xff)) * 134775813 + 1 = x at hk1
  generalize (b.k1 + (crc32 b.k0 c &&& 0xff)) * 134775813 + 1 = y at hk1
  -- the byte that goes into the third key is in the low bits of the second one
  have hshift : (x >>> 24).toNat.toUInt8 = (y >>> 24).toNat.toUInt8 := by
    apply UInt8.toNat_inj.mp
    rw [BitVec.toNat_ushiftRight, BitVec.toNat_ushiftRight, Nat.shiftRight_eq_div_pow,
      Nat.shiftRight_eq_div_pow]
    simp only [Nat.toUInt8, UInt8.toNat_ofNat']
    omega
  have hk2 : (crc32 a.k2 (x >>> 24).toNat.toUInt8).toNat = (crc32 b.k2 (y >>> 24).toNat.toUInt8).toNat := by
    rw [crc32_toNat hv, crc32_toNat hw, h.k2, hshift]
  exact ⟨hk0, hk1, hk2, crc32_lt hv h.k0_lt c, crc32_lt hv h.k2_lt _⟩

theorem SameKeys.mask (h : SameKeys a b) : decryptByte a = decryptByte b := by
  rw [decryptByte, decryptByte, h.k2]

theorem sameKeys_related (hv : 32 ≤ v) (hw : 32 ≤ w) : (crypt v).Related (crypt w) SameKeys where
  mix _ _ := rfl
  mask := SameKeys.mask
  next h c := h.update hv hw c

/-- The keys of a password are the same on both ends. -/
theorem SameKeys.init (hv : 32 ≤ v) (hw : 32 ≤ w) (passwd : Str) :
    SameKeys (initKeys passwd : Keys v) (initKeys passwd : Keys w) := by
  have hlit {u : ℕ} (hu : 32 ≤ u) (m : ℕ) (hm : m < 2 ^ 32) : (BitVec.ofNat u m).toNat = m := by
    have hfits : 2 ^ 32 ≤ 2 ^ u := Nat.pow_le_pow_right (by decide) hu
    rw [BitVec.toNat_ofNat, Nat.mod_eq_of_lt (Nat.lt_of_lt_of_le hm hfits)]
  have hstart : SameKeys (⟨305419896, 591751049, 878082192⟩ : Keys v) (⟨305419896, 591751049, 878082192⟩ : Keys w) := by
    have h0 {u : ℕ} (hu : 32 ≤ u) : (305419896 : BitVec u).toNat = 305419896 := hlit hu _ (by decide)
    have h1 {u : ℕ} (hu : 32 ≤ u) : (591751049 : BitVec u).toNat = 591751049 := hlit hu _ (by decide)
    have h2 {u : ℕ} (hu : 32 ≤ u) : (878082192 : BitVec u).toNat = 878082192 := hlit hu _ (by decide)
    exact ⟨(h0 hv).trans (h0 hw).symm, by rw [h1 hv, h1 hw], (h2 hv).trans (h2 hw).symm,
      (h0 hv).trans_lt (by decide), (h2 hv).trans_lt (by decide)⟩
  exact (sameKeys_related hv hw).advance hstart passwd

/-- Every state of 32-bit words is one of longer words, too. -/
theorem SameKeys.widen (hw : 32 ≤ w) (keys : Keys 32) :
    SameKeys keys (⟨keys.k0.setWidth w, keys.k1.setWidth w, keys.k2.setWidth w⟩ : Keys w) := by
  have hsame (x : BitVec 32) : (x.setWidth w).toNat = x.toNat := by
    have hfits : 2 ^ 32 ≤ 2 ^ w := Nat.pow_le_pow_right (by decide) hw
    rw [BitVec.toNat_setWidth, Nat.mod_eq_of_lt (Nat.lt_of_lt_of_le x.isLt hfits)]
  exact ⟨(hsame _).symm, by rw [hsame], (hsame _).symm, keys.k0.isLt, keys.k2.isLt⟩

/-! ### The inversion -/

/-- What the encrypting side makes of its pieces, and the decrypting side of the same bytes in its own. -/
theorem decrypt_pieces (hv : 32 ≤ v) (hw : 32 ≤ w) (h : SameKeys a b) (se sd : Bool) {bufs pieces : List (List Byte)}
    (hpieces : pieces.flatten = (inChunks (encryptBufInt se) bufs a).1.flatten) :
    (inChunks (decryptBufInt sd) pieces b).1.flatten = bufs.flatten ∧
      SameKeys (inChunks (encryptBufInt se) bufs a).2 (inChunks (decryptBufInt sd) pieces b).2 := by
  obtain ⟨hout, hkey⟩ := (crypt v).inChunks_encrypt (encryptBufInt_eq se) bufs a
  obtain ⟨hback, hkey'⟩ := (crypt w).inChunks_decrypt (decryptBufInt_eq sd) pieces b
  have hrel := sameKeys_related hv hw
  have hplain : (crypt w).decrypt b pieces.flatten = bufs.flatten := by
    rw [hpieces, hout, hrel.decrypt_encrypt h]
  rw [hback, hkey, hkey', hplain]
  exact ⟨rfl, hrel.advance h _⟩

theorem keystream_same (hv : 32 ≤ v) (hw : 32 ≤ w) (h : SameKeys a b) (se sd : Bool) (text : List Byte) :
    keystream se a text = keystream sd b text := by
  induction text generalizing a b with
  | nil => rfl
  | cons c text ih =>
    rw [keystream, keystream, decryptByteInt_byte, decryptByteInt_byte, h.mask, updateKeysInt_char,
      updateKeysInt_char,
      ih (h.update hv hw c)]

/-- **Decryption undoes encryption**, however each side cuts the text and extends its `char`s, and leaves
the same keys; and between words of 32 and 64 bits neither the keystream nor this shows the width. -/
theorem cipher_inversion :
    (∀ (w : ℕ) (keys : Keys w) (se sd : Bool) (bufs pieces : List (List Byte)),
      pieces.flatten = (inChunks (encryptBufInt se) bufs keys).1.flatten →
      (inChunks (decryptBufInt sd) pieces keys).1.flatten = bufs.flatten ∧
        (inChunks (decryptBufInt sd) pieces keys).2 = (inChunks (encryptBufInt se) bufs keys).2) ∧
    (∀ (v w : ℕ) (a : Keys v) (b : Keys w) (se sd : Bool), 32 ≤ v → 32 ≤ w → SameKeys a b →
      (∀ text, keystream se a text = keystream sd b text) ∧
      ∀ bufs pieces : List (List Byte), pieces.flatten = (inChunks (encryptBufInt se) bufs a).1.flatten →
        (inChunks (decryptBufInt sd) pieces b).1.flatten = bufs.flatten ∧
          SameKeys (inChunks (encryptBufInt se) bufs a).2 (inChunks (decryptBufInt sd) pieces b).2) ∧
    (∀ keys : Keys 32, SameKeys keys (⟨keys.k0.setWidth 64, keys.k1.setWidth 64, keys.k2.setWidth 64⟩ : Keys 64)) ∧
    ∀ passwd : Str, SameKeys (initKeys passwd : Keys 32) (initKeys passwd : Keys 64) := by
  refine ⟨fun w keys se sd bufs pieces hpieces => ?_, fun v w a b se sd hv hw h => ⟨?_, ?_⟩, ?_, ?_⟩
  · obtain ⟨hout, hkey⟩ := (crypt w).inChunks_encrypt (encryptBufInt_eq se) bufs keys
    obtain ⟨hback, hkey'⟩ := (crypt w).inChunks_decrypt (decryptBufInt_eq sd) pieces keys
    rw [hpieces, hout, (crypt w).decrypt_encrypt] at hback hkey'
    exact ⟨hback, hkey'.trans hkey.symm⟩
  · exact keystream_same hv hw h se sd
  · intro bufs pieces hpieces
    exact decrypt_pieces hv hw h se sd hpieces
  · exact SameKeys.widen (by decide)
  · exact SameKeys.init (by decide) (by decide)

end Binkd
