import Binkd.Names

/-!
# MD5 and the CRAM challenge (`md5b.c`)

`md5` is `MD5Init`, `MD5Update` and `MD5Final` on one input, block by block;
`hmacMd5` is `hmac_md5`.  On top of them the three functions the session calls:
`mdToString` prints a byte string as `CRAM-MD5-…`, `mdBuildDigest` is the text of
the keyed digest of a challenge, and `mdGetChallenge` reads a challenge out of an
`OPT` word of the remote.
-/

namespace Binkd

/-! ### The digest -/

def md5S : Array UInt32 := #[
  7, 12, 17, 22, 7, 12, 17, 22, 7, 12, 17, 22, 7, 12, 17, 22,
  5, 9, 14, 20, 5, 9, 14, 20, 5, 9, 14, 20, 5, 9, 14, 20,
  4, 11, 16, 23, 4, 11, 16, 23, 4, 11, 16, 23, 4, 11, 16, 23,
  6, 10, 15, 21, 6, 10, 15, 21, 6, 10, 15, 21, 6, 10, 15, 21]

def md5Ac : Array UInt32 := #[
  0xd76aa478, 0xe8c7b756, 0x242070db, 0xc1bdceee, 0xf57c0faf, 0x4787c62a, 0xa8304613, 0xfd469501,
  0x698098d8, 0x8b44f7af, 0xffff5bb1, 0x895cd7be, 0x6b901122, 0xfd987193, 0xa679438e, 0x49b40821,
  0xf61e2562, 0xc040b340, 0x265e5a51, 0xe9b6c7aa, 0xd62f105d, 0x02441453, 0xd8a1e681, 0xe7d3fbc8,
  0x21e1cde6, 0xc33707d6, 0xf4d50d87, 0x455a14ed, 0xa9e3e905, 0xfcefa3f8, 0x676f02d9, 0x8d2a4c8a,
  0xfffa3942, 0x8771f681, 0x6d9d6122, 0xfde5380c, 0xa4beea44, 0x4bdecfa9, 0xf6bb4b60, 0xbebfbc70,
  0x289b7ec6, 0xeaa127fa, 0xd4ef3085, 0x04881d05, 0xd9d4d039, 0xe6db99e5, 0x1fa27cf8, 0xc4ac5665,
  0xf4292244, 0x432aff97, 0xab9423a7, 0xfc93a039, 0x655b59c3, 0x8f0ccc92, 0xffeff47d, 0x85845dd1,
  0x6fa87e4f, 0xfe2ce6e0, 0xa3014314, 0x4e0811a1, 0xf7537e82, 0xbd3af235, 0x2ad7d2bb, 0xeb86d391]

/-- `UINT4 state[4]`. -/
structure Md5State where
  a : UInt32 := 0x67452301
  b : UInt32 := 0xefcdab89
  c : UInt32 := 0x98badcfe
  d : UInt32 := 0x10325476
deriving DecidableEq

def rotateLeft (x n : UInt32) : UInt32 := (x <<< n) ||| (x >>> (32 - n))

/-- The function and the message word of step `i`: `F`, `G`, `H`, `I` in turn. -/
def md5Fun (i : Nat) (x y z : UInt32) : UInt32 :=
  match i / 16 with
  | 0 => (x &&& y) ||| (~~~x &&& z)
  | 1 => (x &&& z) ||| (y &&& ~~~z)
  | 2 => x ^^^ y ^^^ z
  | _ => y ^^^ (x ||| ~~~z)

def md5Word (i : Nat) : Nat :=
  match i / 16 with
  | 0 => i
  | 1 => (5 * i + 1) % 16
  | 2 => (3 * i + 5) % 16
  | _ => (7 * i) % 16

/-- Step `i` of `MD5Transform`; the four variables take turns, so that the one
written is always `a` and the tuple is rotated afterwards. -/
def md5Step (x : Array UInt32) (s : Md5State) (i : Nat) : Md5State :=
  let a := s.a + md5Fun i s.b s.c s.d + x.getD (md5Word i) 0 + md5Ac.getD i 0
  ⟨s.d, rotateLeft a (md5S.getD i 0) + s.b, s.b, s.c⟩

/-- `Decode`. -/
def md5Decode : List Byte → List UInt32
  | a :: b :: c :: d :: s =>
    (a.toUInt32 ||| b.toUInt32 <<< 8 ||| c.toUInt32 <<< 16 ||| d.toUInt32 <<< 24) :: md5Decode s
  | _ => []

/-- `Encode`. -/
def md5Encode (w : UInt32) : List Byte :=
  [w.toUInt8, (w >>> 8).toUInt8, (w >>> 16).toUInt8, (w >>> 24).toUInt8]

/-- `MD5Transform`. -/
def md5Transform (s : Md5State) (block : List Byte) : Md5State :=
  let t := (List.range 64).foldl (md5Step (md5Decode block).toArray) s
  ⟨s.a + t.a, s.b + t.b, s.c + t.c, s.d + t.d⟩

/-- `MD5Update` on whole blocks; the first argument bounds their number. -/
def md5Blocks : Nat → Md5State → List Byte → Md5State
  | 0, s, _ => s
  | n + 1, s, bytes => md5Blocks n (md5Transform s (bytes.take 64)) (bytes.drop 64)

/-- `MD5Final` of one `MD5Update`: padding, the length in bits, and the digest. -/
def md5 (bytes : List Byte) : List Byte :=
  let index := bytes.length % 64
  let padLen := if index < 56 then 56 - index else 120 - index
  let bits := 8 * bytes.length
  let msg := bytes ++ 0x80 :: List.replicate (padLen - 1) 0 ++
    md5Encode bits.toUInt32 ++ md5Encode (bits / 2 ^ 32).toUInt32
  let s := md5Blocks (msg.length / 64) {} msg
  md5Encode s.a ++ md5Encode s.b ++ md5Encode s.c ++ md5Encode s.d

/-- `hmac_md5`. -/
def hmacMd5 (text key : List Byte) : List Byte :=
  let key := if key.length > 64 then md5 key else key
  let pad := key ++ List.replicate (64 - key.length) 0
  md5 (pad.map (· ^^^ 0x5c) ++ md5 (pad.map (· ^^^ 0x36) ++ text))

example : md5 (str "abc") =
    [0x90, 0x01, 0x50, 0x98, 0x3c, 0xd2, 0x4f, 0xb0, 0xd6, 0x96, 0x3f, 0x7d, 0x28, 0xe1, 0x7f, 0x72] := by
  decide +kernel

/-! ### The challenge -/

def mdDigestLen : Nat := 16
def mdChallengeLen : Nat := 16

/-- `MD_toString`. -/
def mdToString (digest : List Byte) : Str := str "CRAM-MD5-" ++ digest.flatMap hexByte

/-- `MD_buildDigest`, keyed with the password `pw`. -/
def mdBuildDigest (pw : Str) (challenge : List Byte) : Str := mdToString (hmacMd5 challenge pw)

/-- One value of a hexadecimal digit, as `MD_getChallenge` reads it. -/
def mdDigit (c : Byte) : Byte :=
  let c := tolower c
  if c > 57 then c - 87 else c - 48

/-- The bytes spelt by hexadecimal digits; an odd one at the end is dropped. -/
def mdBytes : Str → List Byte
  | a :: b :: s => (mdDigit a <<< 4 ||| mdDigit b) :: mdBytes s
  | _ => []

/-- `MD_getChallenge (str, NULL)`: the challenge of an `OPT` word.  At most 128
digits are read. -/
def mdGetChallenge (s : Str) : Option (List Byte) :=
  match strstr (str "CRAM") s with
  | none => none
  | some sp => match strstr (str "MD5") sp with
    | none => none
    | some sp =>
      match (sp.dropWhile (· != 45)).drop 1 with
      | [] => none
      | sp => some (mdBytes ((sp.takeWhile isxdigit).take 128))

end Binkd
