import Mathlib.Algebra.Group.Int.Defs
import Mathlib.Algebra.Group.Nat.Defs
import Mathlib.Data.List.Basic
import Mathlib.Data.List.TakeDrop
import Mathlib.Data.List.TakeWhile
import Mathlib.Tactic.Common

/-!
# Byte strings and the text helpers of `tools.c` and `getw.c`

A C string is the list of its bytes without the terminating NUL (`Str`); a
buffer that a function may scan past its NUL is a plain list of bytes with the
NUL in it, and reading beyond the list reads NUL.  `cstr` cuts a buffer at its
first NUL, `str` writes a literal.

The helpers follow their sources byte for byte: `stricmp` is `o_stricmp`,
`strdequote` reverses `strquote`, `parseArgs` is `parse_args` and `getwordx` is
the field splitter `getwordx2` with the default separators (no caller of the
session code passes `GWX_SUBST`, so the `%VAR%` branch is left out).
-/

namespace Binkd

abbrev Byte := UInt8

/-- A C string: its bytes, without the NUL. -/
abbrev Str := List Byte

/-- The bytes of an ASCII literal. -/
def str (s : String) : Str := s.toList.map fun c => c.toNat.toUInt8

/-- The C string at the start of a buffer. -/
def cstr (buf : List Byte) : Str := buf.takeWhile (· != 0)

theorem cstr_eq_self {w : Str} (hw : ∀ c ∈ w, c ≠ 0) : cstr w = w :=
  List.takeWhile_eq_self_iff.mpr fun c hc => by simpa using hw c hc

/-! ### Character classes (C locale) -/

def isdigit (c : Byte) : Bool := 48 ≤ c && c ≤ 57
def isupper (c : Byte) : Bool := 65 ≤ c && c ≤ 90
def islower (c : Byte) : Bool := 97 ≤ c && c ≤ 122
def isalpha (c : Byte) : Bool := isupper c || islower c
def isalnum (c : Byte) : Bool := isalpha c || isdigit c
def iscntrl (c : Byte) : Bool := c < 32 || c == 127
def isspace (c : Byte) : Bool := c == 32 || (9 ≤ c && c ≤ 13)
def isxdigit (c : Byte) : Bool := isdigit c || (65 ≤ c && c ≤ 70) || (97 ≤ c && c ≤ 102)
def tolower (c : Byte) : Byte := if isupper c then c + 32 else c
def toupper (c : Byte) : Byte := if islower c then c - 32 else c

/-- The value of a `char`, which is signed. -/
def schar (c : Byte) : Int := c.toInt8.toInt

/-! ### Comparison -/

/-- `o_stricmp`. -/
def stricmp : Str → Str → Int
  | [], [] => 0
  | [], b :: _ => -schar (tolower b)
  | a :: _, [] => schar (tolower a)
  | a :: s, b :: t =>
    if tolower a ≠ tolower b then schar (tolower a) - schar (tolower b) else stricmp s t

/-- `o_strnicmp`. -/
def strnicmp : Nat → Str → Str → Int
  | 0, _, _ => 0
  | _ + 1, [], [] => 0
  | _ + 1, [], b :: _ => -schar (tolower b)
  | _ + 1, a :: _, [] => schar (tolower a)
  | n + 1, a :: s, b :: t =>
    if tolower a ≠ tolower b then schar (tolower a) - schar (tolower b) else strnicmp n s t

theorem stricmp_self : ∀ s : Str, stricmp s s = 0
  | [] => rfl
  | a :: s => by simp [stricmp, stricmp_self s]

theorem schar_inj {a b : Byte} : schar a = schar b ↔ a = b := by
  unfold schar
  constructor
  · intro h
    simpa using congrArg Int8.toUInt8 (Int8.toInt_inj.mp h)
  · rintro rfl
    rfl

/-- A text that is equal to one with a given beginning, but for the case of letters,
begins so, too. -/
theorem strnicmp_of_stricmp (p r : Str) {s : Str} (hp : ∀ c ∈ p, tolower c ≠ 0)
    (h : stricmp (p ++ r) s = 0) : strnicmp p.length s p = 0 := by
  induction p generalizing s with
  | nil => rfl
  | cons a p ih =>
    have ha : tolower a ≠ 0 := hp a List.mem_cons_self
    cases s with
    | nil => exact absurd (schar_inj.mp (h.trans (by decide : (0 : Int) = schar 0))) ha
    | cons b s =>
      simp only [List.cons_append, stricmp] at h
      split_ifs at h with hab
      · exact absurd (schar_inj.mp (by omega)) hab
      · rw [List.length_cons, strnicmp, if_neg (not_not.mpr (not_not.mp hab).symm)]
        exact ih (fun c hc => hp c (List.mem_cons_of_mem a hc)) h

theorem strnicmp_self : ∀ (n : Nat) (s : Str), strnicmp n s s = 0
  | 0, _ => rfl
  | _ + 1, [] => rfl
  | n + 1, a :: s => by simp [strnicmp, strnicmp_self n s]

/-- `strnzcpy` into a buffer of `len` bytes. -/
def strnzcpy (src : Str) (len : Nat) : Str := src.take (len - 1)

/-! ### Numbers -/

/-- The decimal digits of `n`, as `%u` prints them. -/
def decimal (n : Nat) : Str := (Nat.toDigits 10 n).map fun c => c.toNat.toUInt8

/-- `%i`. -/
def decimalInt (n : Int) : Str :=
  if n < 0 then str "-" ++ decimal n.natAbs else decimal n.natAbs

/-- The value of the leading decimal digits. -/
def digitsValue (s : Str) : Nat :=
  (s.takeWhile isdigit).foldl (fun v c => 10 * v + (c.toNat - 48)) 0

/-- `strtoumax (s, NULL, 10)` with a 64-bit `uintmax_t`: white space, a sign, and
digits that saturate; a minus sign negates the result in `uintmax_t`. -/
def strtoumax (s : Str) : Nat :=
  match s.dropWhile isspace with
  | [] => 0
  | c :: r =>
    if c = 45 then (if digitsValue r < 2 ^ 64 then (2 ^ 64 - digitsValue r) % 2 ^ 64 else 2 ^ 64 - 1)
    else min (digitsValue (if c = 43 then r else c :: r)) (2 ^ 64 - 1)

/-- The cast to a signed 64-bit type (`boff_t`, `long`, `time_t`). -/
def toSigned64 (n : Nat) : Int := if n % 2 ^ 64 < 2 ^ 63 then (n % 2 ^ 64 : Nat) else (n % 2 ^ 64 : Nat) - 2 ^ 64

/-- The cast to `uintmax_t`, as `PRIuMAX` prints a `boff_t` or a `time_t`. -/
def toUnsigned64 (n : Int) : Nat := (n % 2 ^ 64).toNat

/-- The cast of a 64-bit value to `int`. -/
def toInt32 (n : Int) : Int := n.bmod (2 ^ 32)

/-- `safe_atol`: `atol` after a minus sign, else `strtoul` cast to `long`. -/
def safeAtol (s : Str) : Int :=
  match s with
  | 45 :: r => -(min (digitsValue r) (2 ^ 63) : Nat)
  | _ => toSigned64 (strtoumax s)

/-! ### Quoting -/

/-- `%02x` of one byte. -/
def hexDigit (n : Nat) : Byte := if n < 10 then (48 + n).toUInt8 else (87 + n).toUInt8

def hexByte (c : Byte) : Str := [hexDigit (c.toNat / 16), hexDigit (c.toNat % 16)]

/-- `strquote` with the flags `SQ_CNTRL` and `SQ_SPACE`. -/
def strquote (cntrl space : Bool) (s : Str) : Str :=
  s.flatMap fun c =>
    if (cntrl && iscntrl c) || (space && isspace c) || c = 92 then 92 :: 120 :: hexByte c else [c]

/-- The macro `XD`. -/
def xd (c : Byte) : Byte := if isdigit c then c - 48 else tolower c - 97 + 10

/-- `strdequote`: `\xHH` and `\HH` stand for the byte `HH`. -/
def strdequoteBytes : List Byte → List Byte
  | a :: b :: c :: d :: s =>
    if a = 92 ∧ b = 120 ∧ isxdigit c ∧ isxdigit d then (xd c * 16 + xd d) :: strdequoteBytes s
    else if a = 92 ∧ isxdigit b ∧ isxdigit c then (xd b * 16 + xd c) :: strdequoteBytes (d :: s)
    else a :: strdequoteBytes (b :: c :: d :: s)
  | [a, b, c] =>
    if a = 92 ∧ isxdigit b ∧ isxdigit c then [xd b * 16 + xd c] else [a, b, c]
  | s => s

/-- The result of `strdequote` as a C string: a quoted NUL ends it. -/
def strdequote (s : Str) : Str := cstr (strdequoteBytes s)

/-! ### Words -/

/-- `parse_args`: the first `argc` words and the text after the byte that ended
the last of them, or `none` when there are fewer. -/
def parseArgs : Nat → Str → Option (List Str × Str)
  | 0, src => some ([], src)
  | argc + 1, src =>
    let s := src.dropWhile isspace
    let w := s.takeWhile (!isspace ·)
    if w = [] then none
    else match parseArgs argc ((s.dropWhile (!isspace ·)).drop 1) with
      | none => none
      | some (ws, rest) => some (w :: ws, rest)

/-- `GWX_NOESC` and `GWX_HASH`. -/
structure GwxFlags where
  noesc : Bool := false
  hash : Bool := false

/-- `DEF_FLDSEP` and `DEF_FLDSKIP`. -/
def defFldsep : Str := [32, 9, 10, 13]

/-- An escape of `getwordx2`, read from behind the backslash: the byte it stands
for and the buffer after it.  The byte behind the backslash is consumed even
when it is the terminating NUL. -/
def getwordxEscape : List Byte → Byte × List Byte
  | [] => (0, [])
  | c :: r =>
    if !isdigit c && c != 120 && c != 88 then
      (match c with
        | 97 => 7 | 98 => 8 | 102 => 12 | 110 => 10 | 114 => 13 | 116 => 9 | 69 => 27 | c => c, r)
    else if c = 120 ∨ c = 88 then
      ((r.takeWhile isxdigit).foldl (fun v d => v * 16 + xd d) 0, r.dropWhile isxdigit)
    else
      (((c :: r).takeWhile isdigit).foldl (fun v d => v * 8 + xd d) 0, (c :: r).dropWhile isdigit)

/-- The inner loop of `getwordx2`: one field, whether a quote is open, and the buffer behind the field.
-/
def getwordxScan (flags : GwxFlags) (fldsep : Str) : Nat → Bool → List Byte → List Byte →
    Str × Bool × List Byte
  | 0, quoted, dest, src => (dest, quoted, src)
  | _ + 1, quoted, dest, [] => (dest, quoted, [])
  | fuel + 1, quoted, dest, c :: r =>
    if !flags.noesc && c = 92 then
      getwordxScan flags fldsep fuel quoted (dest ++ [(getwordxEscape r).1]) (getwordxEscape r).2
    else if c = 0 ∨ c = 10 ∨ c = 13 then (dest, quoted, c :: r)
    else if c = 34 then getwordxScan flags fldsep fuel (!quoted) dest r
    else if fldsep.contains c && !quoted then (dest, quoted, c :: r)
    else getwordxScan flags fldsep fuel quoted (dest ++ [c]) r

/-- The outer loop of `getwordx2`.  A quote that a line end has left open is open in the next field, too.
-/
def getwordx2From (flags : GwxFlags) (fldsep fldskip : Str) : Nat → Bool → List Byte → Option Str
  | 0, _, _ => none
  | n + 1, quoted, src =>
    match src.dropWhile (fun c => fldskip.contains c && c != 0) with
    | [] => none
    | c :: r =>
      if c = 0 ∨ (flags.hash ∧ c = 35) then none
      else
        let (w, quoted, src) := getwordxScan flags fldsep (r.length + 1) quoted [] (c :: r)
        if n = 0 then some (cstr w)
        else match src with
          | c :: r => getwordx2From flags fldsep fldskip n quoted (if fldsep.contains c then r else c :: r)
          | [] => getwordx2From flags fldsep fldskip n quoted []

/-- `getwordx2`: the `n`-th field of the buffer (`n` from 1), if there is one. -/
def getwordx2 (flags : GwxFlags) (fldsep fldskip : Str) (n : Nat) (src : List Byte) : Option Str :=
  getwordx2From flags fldsep fldskip n false src

/-- `getwordx (src, n, flags)`. -/
def getwordx (src : List Byte) (n : Nat) (flags : GwxFlags) : Option Str :=
  getwordx2 flags defFldsep defFldsep n src

/-- The loop `for (i = 1; (w = getwordx2 (s, i, ...)) != 0; ++i)`: all fields in
order.  `fuel` bounds the number of fields; a buffer has fewer than it has bytes. -/
def getwordsFrom (flags : GwxFlags) (fldsep fldskip : Str) (src : List Byte) : Nat → Nat → List Str
  | 0, _ => []
  | fuel + 1, i =>
    match getwordx2 flags fldsep fldskip i src with
    | none => []
    | some w => w :: getwordsFrom flags fldsep fldskip src fuel (i + 1)

/-- All fields of a buffer. -/
def getwords (src : List Byte) (flags : GwxFlags) : List Str :=
  getwordsFrom flags defFldsep defFldsep src (src.length + 1) 1

example : getwords (str "2:5047/13@fidonet \"a b\" c\\x41" ++ [0]) {} =
    [str "2:5047/13@fidonet", str "a b", str "cA"] := by decide

/-- The position-independent `strstr`: the suffix that starts with `pat`. -/
def strstr (pat : Str) : Str → Option Str
  | [] => if pat = [] then some [] else none
  | c :: s => if pat.isPrefixOf (c :: s) then some (c :: s) else strstr pat s

end Binkd
