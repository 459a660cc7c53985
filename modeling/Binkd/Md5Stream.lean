import Binkd.Lib.Absorb
import Binkd.Md5

/-!
# MD5 in pieces (`MD5Init`, `MD5Update`, `MD5Final`)

`Md5Ctx` is the context of the source, with its counter of bits in two words and its buffer of 64
bytes.  However a text is cut into pieces, the digest of the pieces is the digest of the text, and
nothing is written outside the buffer (`md5_pieces`).  So `hmac_md5`, which feeds a pad and a
text, computes what `hmacMd5` says (`hmacMd5Ctx_eq`).
-/

namespace Binkd

open Lib

/-! ### The context -/

/-- `MD5_CTX`. -/
structure Md5Ctx where
  count0 : UInt32
  count1 : UInt32
  state : Md5State
  buffer : List Byte

/-- `MD5_memcpy` to `&buffer[index]`. -/
def md5Memcpy (buffer : List Byte) (index : ℕ) (input : List Byte) : List Byte :=
  buffer.take index ++ input ++ buffer.drop (index + input.length)

/-- `MD5Init`; the buffer is left as it is. -/
def md5Init (buffer : List Byte) : Md5Ctx := ⟨0, 0, {}, buffer⟩

/-- The loop of `MD5Update` over whole blocks, from `i`; the fuel bounds their number.  `i + 63` is an
`unsigned int`. -/
def md5UpdateLoop (input : List Byte) : ℕ → Md5State → ℕ → Md5State × ℕ
  | 0, s, i => (s, i)
  | fuel + 1, s, i =>
    if (i + 63) % 2 ^ 32 < input.length then
      md5UpdateLoop input fuel (md5Transform s ((input.drop i).take 64)) ((i + 64) % 2 ^ 32)
    else (s, i)

/-- `MD5Update`. -/
def md5Update (context : Md5Ctx) (input : List Byte) : Md5Ctx :=
  let index := ((context.count0 >>> 3) &&& 0x3F).toNat
  let inputLen := input.length.toUInt32
  let count0 := context.count0 + inputLen <<< 3
  let count1 := (if count0 < inputLen <<< 3 then context.count1 + 1 else context.count1) + inputLen >>> 29
  let partLen := 64 - index
  if partLen ≤ input.length then
    let buffer := md5Memcpy context.buffer index (input.take partLen)
    let r := md5UpdateLoop input input.length (md5Transform context.state buffer) partLen
    ⟨count0, count1, r.1, md5Memcpy buffer 0 (input.drop r.2)⟩
  else ⟨count0, count1, context.state, md5Memcpy context.buffer index input⟩

/-- `PADDING`. -/
def md5Padding : List Byte := 0x80 :: List.replicate 63 0

/-- `MD5Final`. -/
def md5Final (context : Md5Ctx) : List Byte :=
  let bits := md5Encode context.count0 ++ md5Encode context.count1
  let index := ((context.count0 >>> 3) &&& 0x3F).toNat
  let padLen := if index < 56 then 56 - index else 120 - index
  let context := md5Update (md5Update context (md5Padding.take padLen)) bits
  md5Encode context.state.a ++ md5Encode context.state.b ++ md5Encode context.state.c ++
    md5Encode context.state.d

/-- `hmac_md5` with its contexts; `buffer` is what their buffers hold at first. -/
def hmacMd5Ctx (buffer text key : List Byte) : List Byte :=
  let key := if key.length > 64 then md5Final (md5Update (md5Init buffer) key) else key
  let pad := (key ++ List.replicate (65 - key.length) 0).take 64
  let digest := md5Final (md5Update (md5Update (md5Init buffer) (pad.map (· ^^^ 0x36))) text)
  md5Final (md5Update (md5Update (md5Init buffer) (pad.map (· ^^^ 0x5c))) digest)

/-! ### The counter -/

/-- The counter holds the number of bits. -/
def Counts (n : ℕ) (count0 count1 : UInt32) : Prop :=
  count0 = (8 * n).toUInt32 ∧ count1 = (8 * n / 2 ^ 32).toUInt32

theorem Counts.zero : Counts 0 0 0 := ⟨rfl, rfl⟩

/-- The place in the buffer. -/
theorem Counts.index {n : ℕ} {count0 count1 : UInt32} (h : Counts n count0 count1) :
    ((count0 >>> 3) &&& 0x3F).toNat = n % 64 := by
  have hmask : (0x3F : UInt32).toNat = 2 ^ 6 - 1 := rfl
  have hthree : (3 : UInt32).toNat % 32 = 3 := rfl
  have hcount : ((8 * n).toUInt32).toNat = 8 * n % 2 ^ 32 := rfl
  rw [h.1, UInt32.toNat_and, UInt32.toNat_shiftRight, hmask, hthree, hcount, Nat.and_two_pow_sub_one_eq_mod,
    Nat.shiftRight_eq_div_pow]
  omega

theorem toNat_shift_three {k : ℕ} (hk : k < 2 ^ 32) : (k.toUInt32 <<< 3).toNat = 8 * k % 2 ^ 32 := by
  have hthree : (3 : UInt32).toNat % 32 = 3 := rfl
  have hcount : (k.toUInt32).toNat = k % 2 ^ 32 := rfl
  rw [UInt32.toNat_shiftLeft, hthree, hcount, Nat.shiftLeft_eq, Nat.mod_eq_of_lt hk, Nat.mul_comm]

theorem toNat_shift_high {k : ℕ} (hk : k < 2 ^ 32) : (k.toUInt32 >>> 29).toNat = k / 2 ^ 29 := by
  have hshift : (29 : UInt32).toNat % 32 = 29 := rfl
  have hcount : (k.toUInt32).toNat = k % 2 ^ 32 := rfl
  rw [UInt32.toNat_shiftRight, hshift, hcount, Nat.shiftRight_eq_div_pow, Nat.mod_eq_of_lt hk]

/-- The addition with its carry. -/
theorem Counts.add {n k : ℕ} {count0 count1 : UInt32} (h : Counts n count0 count1) (hk : k < 2 ^ 32) :
    Counts (n + k) (count0 + k.toUInt32 <<< 3)
      ((if count0 + k.toUInt32 <<< 3 < k.toUInt32 <<< 3 then count1 + 1 else count1) + k.toUInt32 >>> 29) := by
  obtain ⟨rfl, rfl⟩ := h
  have hlow := toNat_shift_three hk
  have hhigh := toNat_shift_high hk
  have hof : ∀ v : ℕ, (v.toUInt32).toNat = v % 2 ^ 32 := fun v => rfl
  have hsum : ((8 * n).toUInt32 + k.toUInt32 <<< 3).toNat = (8 * n % 2 ^ 32 + 8 * k % 2 ^ 32) % 2 ^ 32 := by
    rw [UInt32.toNat_add, hlow, hof]
  refine ⟨UInt32.toNat_inj.mp ?_, UInt32.toNat_inj.mp ?_⟩
  · rw [hsum, hof]
    omega
  · rw [UInt32.toNat_add, hhigh, hof]
    -- the low word has gone round exactly if it is now less than what was added
    split_ifs with hcarry
    · rw [UInt32.lt_iff_toNat_lt, hsum, hlow] at hcarry
      have hone : (1 : UInt32).toNat = 1 := rfl
      rw [UInt32.toNat_add, hof, hone]
      omega
    · rw [UInt32.lt_iff_toNat_lt, hsum, hlow] at hcarry
      rw [hof]
      omega

/-! ### Pieces -/

/-- The context after some text: the counter, the blocks taken in and the rest in the buffer. -/
structure Md5Fed (text : List Byte) (context : Md5Ctx) : Prop where
  count : Counts text.length context.count0 context.count1
  length_buffer : context.buffer.length = 64
  absorbed : Absorbed md5Transform 64 {} text context.state (context.buffer.take (text.length % 64))

theorem md5Init_fed {buffer : List Byte} (hbuffer : buffer.length = 64) : Md5Fed [] (md5Init buffer) :=
  ⟨.zero, hbuffer, .nil _⟩

theorem length_md5Memcpy {buffer input : List Byte} {index : ℕ} (h : index + input.length ≤ buffer.length) :
    (md5Memcpy buffer index input).length = buffer.length := by
  unfold md5Memcpy
  rw [List.length_append, List.length_append, List.length_take, List.length_drop]
  omega

theorem take_md5Memcpy {buffer input : List Byte} {index : ℕ} (h : index + input.length ≤ buffer.length) :
    (md5Memcpy buffer index input).take (index + input.length) = buffer.take index ++ input := by
  unfold md5Memcpy
  rw [List.take_append_of_le_length, List.take_of_length_le]
  · rw [List.length_append, List.length_take]
    omega
  · rw [List.length_append, List.length_take]
    omega

/-- The loop takes in all the blocks there are behind `i`. -/
theorem md5UpdateLoop_eq {input : List Byte} (hinput : input.length < 2 ^ 31) (fuel : ℕ) (s : Md5State) {i : ℕ}
    (hi : i ≤ input.length) (hfuel : input.length < i + 64 * (fuel + 1)) :
    md5UpdateLoop input fuel s i = (absorb md5Transform 64 ((input.length - i) / 64) s (input.drop i),
      i + (input.length - i) / 64 * 64) := by
  induction fuel generalizing s i with
  | zero =>
    rw [Nat.div_eq_of_lt (by omega)]
    rfl
  | succ fuel ih =>
    rw [md5UpdateLoop, Nat.mod_eq_of_lt (by omega), Nat.mod_eq_of_lt (by omega)]
    by_cases hblock : i + 63 < input.length
    · have hdiv : (input.length - i) / 64 = (input.length - (i + 64)) / 64 + 1 := by omega
      rw [if_pos hblock, ih _ (by omega) (by omega), hdiv, absorb_succ, List.drop_drop]
      refine Prod.ext rfl ?_
      show i + 64 + (input.length - (i + 64)) / 64 * 64 = _
      omega
    · rw [if_neg hblock, Nat.div_eq_of_lt (by omega)]
      rfl

/-- **One piece.** -/
theorem Md5Fed.update {text input : List Byte} {context : Md5Ctx} (h : Md5Fed text context)
    (hinput : input.length < 2 ^ 31) : Md5Fed (text ++ input) (md5Update context input) := by
  have hcount := h.count.add (k := input.length) (by omega)
  rw [← List.length_append] at hcount
  have hindex := h.count.index
  have hlen := h.length_buffer
  have hrest : (context.buffer.take (text.length % 64)).length = text.length % 64 := by
    rw [List.length_take]
    omega
  unfold md5Update
  dsimp only
  rw [hindex]
  by_cases hpart : 64 - text.length % 64 ≤ input.length
  · rw [if_pos hpart]
    -- the buffer is filled up and taken in, then the blocks behind it
    generalize hindex' : text.length % 64 = index at hrest hpart ⊢
    have hlt : index < 64 := by omega
    have htake : (input.take (64 - index)).length = 64 - index := by
      rw [List.length_take]
      omega
    have hblock : md5Memcpy context.buffer index (input.take (64 - index)) =
        (context.buffer.take index ++ input).take 64 := by
      have hwhole : (context.buffer.take index).take 64 = context.buffer.take index :=
        List.take_of_length_le (by omega)
      unfold md5Memcpy
      rw [htake, List.drop_of_length_le (by omega), List.append_nil, List.take_append, hrest, hwhole]
    have hbehind : (context.buffer.take index ++ input).drop 64 = input.drop (64 - index) := by
      rw [List.drop_append, hrest, List.drop_of_length_le (by omega), List.nil_append]
    have hall : (context.buffer.take index ++ input).length - 64 = input.length - (64 - index) := by
      rw [List.length_append, hrest]
      omega
    have habsorbed := h.absorbed
    rw [hindex'] at habsorbed
    have hlong := habsorbed.long (x := input) (by decide) (by rw [List.length_append, hrest]; omega)
    rw [hall, ← List.drop_drop, hbehind, List.drop_drop, ← hblock] at hlong
    rw [md5UpdateLoop_eq hinput _ _ hpart (by omega)]
    have hbuffer : (md5Memcpy context.buffer index (input.take (64 - index))).length = 64 := by
      rw [length_md5Memcpy (by omega), hlen]
    generalize hi : 64 - index + (input.length - (64 - index)) / 64 * 64 = i at hlong ⊢
    have hleft : (input.drop i).length = (text ++ input).length % 64 := by
      rw [← hlong.length_rest]
    have hfit : 0 + (input.drop i).length ≤ (md5Memcpy context.buffer index (input.take (64 - index))).length := by
      rw [hleft, hbuffer]
      omega
    refine ⟨hcount, (length_md5Memcpy hfit).trans hbuffer, ?_⟩
    have hcopied := take_md5Memcpy hfit
    rw [Nat.zero_add, List.take_zero, List.nil_append] at hcopied
    rw [← hleft, hcopied]
    exact hlong
  · rw [if_neg hpart]
    -- all of the piece goes into the buffer
    have hshort : (context.buffer.take (text.length % 64) ++ input).length < 64 := by
      rw [List.length_append, hrest]
      omega
    have hfit : text.length % 64 + input.length ≤ context.buffer.length := by omega
    refine ⟨hcount, (length_md5Memcpy hfit).trans hlen, ?_⟩
    have hplace : (text ++ input).length % 64 = text.length % 64 + input.length := by
      rw [List.length_append]
      omega
    rw [hplace, take_md5Memcpy hfit]
    exact h.absorbed.short hshort

/-! ### The digest -/

theorem Md5Fed.pieces {pieces : List (List Byte)} (hpieces : ∀ x ∈ pieces, x.length < 2 ^ 31)
    {text : List Byte} {context : Md5Ctx} (h : Md5Fed text context) :
    Md5Fed (text ++ pieces.flatten) (pieces.foldl md5Update context) := by
  induction pieces generalizing text context with
  | nil => rwa [List.flatten_nil, List.append_nil]
  | cons x pieces ih =>
    rw [List.flatten_cons, ← List.append_assoc]
    exact ih (fun y hy => hpieces y (List.mem_cons_of_mem x hy)) (h.update (hpieces x List.mem_cons_self))

theorem md5Blocks_eq_absorb (k : ℕ) (s : Md5State) (bytes : List Byte) :
    md5Blocks k s bytes = absorb md5Transform 64 k s bytes := by
  induction k generalizing s bytes with
  | zero => rfl
  | succ k ih => exact ih _ _

theorem padding_short {k : ℕ} (hk : k ≤ 64) : (md5Padding.take k).length < 2 ^ 31 := by
  rw [List.length_take]
  omega

/-- `MD5Final` gives the digest of the text that has been fed. -/
theorem Md5Fed.final {text : List Byte} {context : Md5Ctx} (h : Md5Fed text context) :
    md5Final context = md5 text := by
  have hpad : ∀ k, 0 < k → k ≤ 64 → md5Padding.take k = 0x80 :: List.replicate (k - 1) 0 := by
    intro k hpos hk
    obtain ⟨k, rfl⟩ := Nat.exists_eq_succ_of_ne_zero hpos.ne'
    rw [md5Padding, List.take_succ_cons, List.take_replicate, Nat.min_eq_left (by omega)]
    rfl
  unfold md5Final md5
  dsimp only
  rw [h.count.index, h.count.1, h.count.2]
  generalize hk : (if text.length % 64 < 56 then 56 - text.length % 64 else 120 - text.length % 64) = k
  have hbound : 0 < k ∧ k ≤ 64 ∧ (text.length + k) % 64 = 56 := by
    split_ifs at hk <;> omega
  have hbits : (md5Encode (8 * text.length).toUInt32 ++
    md5Encode (8 * text.length / 2 ^ 32).toUInt32).length = 8 := rfl
  have hpadded := h.update (padding_short hbound.2.1)
  have hfed := hpadded.update (hbits.trans_lt (by decide))
  rw [hpad k hbound.1 hbound.2.1] at hfed ⊢
  rw [hfed.absorbed.state, md5Blocks_eq_absorb, ← List.append_assoc]

/-- **MD5 in pieces**: the digest of the pieces of a text is the digest of the text, and after each piece
the counter is the number of bits and the buffer has kept its 64 bytes. -/
theorem md5_pieces (buffer : List Byte) (pieces : List (List Byte)) (hbuffer : buffer.length = 64)
    (hpieces : ∀ x ∈ pieces, x.length < 2 ^ 31) :
    md5Final (pieces.foldl md5Update (md5Init buffer)) = md5 pieces.flatten ∧
    ∀ k, Counts ((pieces.take k).flatten).length ((pieces.take k).foldl md5Update (md5Init buffer)).count0
        ((pieces.take k).foldl md5Update (md5Init buffer)).count1 ∧
      ((pieces.take k).foldl md5Update (md5Init buffer)).buffer.length = 64 := by
  refine ⟨((md5Init_fed hbuffer).pieces hpieces).final, fun k => ?_⟩
  have hfed := (md5Init_fed hbuffer).pieces fun x (hx : x ∈ pieces.take k) => hpieces x (List.mem_of_mem_take hx)
  exact ⟨hfed.count, hfed.length_buffer⟩

/-- The digest of "abc", fed in two pieces. -/
theorem md5_pieces_abc : md5Final ([str "a", str "bc"].foldl md5Update (md5Init (List.replicate 64 7))) =
    md5 (str "abc") :=
  (md5_pieces (List.replicate 64 7) [str "a", str "bc"] (by decide) (by decide)).1

/-! ### The keyed digest -/

theorem md5_length (bytes : List Byte) : (md5 bytes).length = 16 := rfl

/-- **The keyed digest**: `hmac_md5` computes what `hmacMd5` says, for a key of any length. -/
theorem hmacMd5Ctx_eq {buffer text key : List Byte} (hbuffer : buffer.length = 64) (htext : text.length < 2 ^ 31)
    (hkey : key.length < 2 ^ 31) : hmacMd5Ctx buffer text key = hmacMd5 text key := by
  have hinit := md5Init_fed hbuffer
  unfold hmacMd5Ctx hmacMd5
  rw [(hinit.update hkey).final, List.nil_append]
  dsimp only
  have hshort : (if key.length > 64 then md5 key else key).length ≤ 64 := by
    split_ifs with hlong
    · rw [md5_length]
      decide
    · omega
  generalize (if key.length > 64 then md5 key else key) = key at hshort
  have hpad : (key ++ List.replicate (65 - key.length) 0).take 64 = key ++ List.replicate (64 - key.length) 0 := by
    rw [List.take_append, List.take_of_length_le hshort, List.take_replicate, Nat.min_eq_left (by omega)]
  rw [hpad]
  have hlen : (key ++ List.replicate (64 - key.length) (0 : Byte)).length = 64 := by
    rw [List.length_append, List.length_replicate]
    omega
  generalize key ++ List.replicate (64 - key.length) (0 : Byte) = pad at hlen
  have hxor : ∀ c : Byte, (pad.map (· ^^^ c)).length < 2 ^ 31 := fun c => by
    rw [List.length_map, hlen]
    decide
  rw [((hinit.update (hxor 0x36)).update htext).final, List.nil_append,
    ((hinit.update (hxor 0x5c)).update (by rw [md5_length]; decide)).final, List.nil_append]

/-- The digest of a challenge, keyed with a password. -/
theorem hmacMd5Ctx_eq_challenge :
    hmacMd5Ctx (List.replicate 64 0) (str "challenge") (str "password") = hmacMd5 (str "challenge") (str "password") :=
  hmacMd5Ctx_eq List.length_replicate (by decide) (by decide)

end Binkd
