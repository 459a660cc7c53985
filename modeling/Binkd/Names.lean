import Binkd.Tools

/-!
# File names and masks

The name tests of `tools.c` (`ispkt`, `istic`, `isarcmail`, `isreq`), the
shell-style matcher `xpmatch` of `pmatch.c` they rest on, and the functions that
cut, wipe or re-case a file name.
-/

namespace Binkd

/-- `atoi`. -/
def atoi (s : Str) : Int :=
  match s.dropWhile isspace with
  | 45 :: r => toInt32 (-(digitsValue r : Int))
  | 43 :: r => toInt32 (digitsValue r)
  | r => toInt32 (digitsValue r)

/-- The hexadecimal digits of `n`, at least `width` of them, as `%0<width>x` prints them. -/
def hexPad (width n : Nat) : Str :=
  let d := (Nat.toDigits 16 n).map fun c => c.toNat.toUInt8
  List.replicate (width - d.length) 48 ++ d

/-- `%0<width>x` and `%u` of an `int`. -/
def hexInt (width : Nat) (n : Int32) : Str := hexPad width n.toUInt32.toNat

def decimalUnsigned (n : Int32) : Str := decimal n.toUInt32.toNat

/-! ### Shell patterns -/

/-- Is there a closing bracket?  The scan of `endp` in `xpmatch`. -/
def xpmatchClosed : Nat → Str → Bool
  | 0, _ => false
  | _ + 1, [] => false
  | fuel + 1, c :: p =>
    let p := if c = 92 then p else c :: p
    match p.drop 1 with
    | 93 :: _ => true
    | [] => false
    | r => xpmatchClosed fuel r

/-- The loop over a bracket expression: whether `chr` is in it, and the pattern
behind the closing bracket. -/
def xpmatchClass : Nat → Byte → Byte → Str → Bool → Bool × Str
  | 0, _, _, p, found => (found, p)
  | fuel + 1, chr, c, p, found =>
    let (c, p) := if c = 92 then (p.headD 0, p.drop 1) else (c, p)
    let (found, p) :=
      if p.headD 0 = 45 ∧ p.getD 1 0 ≠ 93 then
        let p := p.drop 1
        let p := if p.headD 0 = 92 then p.drop 1 else p
        (found || (decide (schar c ≤ schar chr) && decide (schar chr ≤ schar (p.headD 0))), p.drop 1)
      else (found || chr = c, p)
    if p.headD 0 = 93 then (found, p.drop 1)
    else xpmatchClass fuel chr (p.headD 0) (p.drop 1) found

/-- `xpmatch`; the fuel bounds the pattern characters still to be read.  Behind a
`*` the source skips to the next place where the following plain character
occurs, which drops only attempts that fail at once. -/
def xpmatchFuel (ncase : Bool) : Nat → Str → Str → Bool
  | 0, _, _ => false
  | _ + 1, [], q => q = []
  | fuel + 1, c :: p, q =>
    let plain := match q with
      | [] => false
      | d :: q =>
        (if ncase then toupper d = toupper c else d = c) && xpmatchFuel ncase fuel p q
    if c = 92 then
      match q with
      | d :: q => d = p.headD 0 && xpmatchFuel ncase fuel (p.drop 1) q
      | [] => false
    else if c = 63 then
      match q with
      | _ :: q => xpmatchFuel ncase fuel p q
      | [] => false
    else if c = 42 then q.tails.any fun q => xpmatchFuel ncase fuel p q
    else if c = 91 then
      let body := if p.headD 0 = 33 then p.drop 1 else p
      if xpmatchClosed (p.length + 1) body then
        let invert : Bool := p.headD 0 = 33
        let r := xpmatchClass (p.length + 1) (q.headD 0) (body.headD 0) (body.drop 1) false
        if r.1 = invert then false else xpmatchFuel ncase fuel r.2 (q.drop 1)
      else plain
    else plain

/-- `pmatch_ncase`. -/
def pmatchNcase (pattern s : Str) : Bool := xpmatchFuel true (pattern.length + 1) pattern s

example : pmatchNcase (str "*.bOX.[ab]?[!x]") (str "mail.Box.a1y") = true := by decide

/-! ### Tests on netnames -/

def ispkt (s : Str) : Bool := pmatchNcase (str "*.pkt") s
def isreq (s : Str) : Bool := pmatchNcase (str "*.req") s
def istic (s : Str) : Bool := pmatchNcase (str "*.?ic") s

def isarcmail (s : Str) : Bool :=
  ["*.su?", "*.mo?", "*.tu?", "*.we?", "*.th?", "*.fr?", "*.sa?"].any fun p => pmatchNcase (str p) s

/-! ### Parts of a path -/

/-- `last_slash`: what stands behind the last separator, and what stands before it. -/
def lastSlash (s : Str) : Option (Str × Str) :=
  if s.any (fun c => c = 47 ∨ c = 92) then
    let tail := s.reverse.takeWhile (fun c => c ≠ 47 ∧ c ≠ 92)
    some (s.take (s.length - tail.length - 1), tail.reverse)
  else none

/-- `extract_filename`. -/
def extractFilename (s : Str) : Str :=
  (s.reverse.takeWhile fun c => c ≠ 47 ∧ c ≠ 92 ∧ c ≠ 58).reverse

/-- What follows the last byte `c`, `strrchr (s, c) + 1`. -/
def strrchr (c : Byte) (s : Str) : Option Str :=
  if s.contains c then some (s.reverse.takeWhile (· != c)).reverse else none

/-- `strcpy (strrchr (s, '.'), ext)`. -/
def setExt (s ext : Str) : Str :=
  s.take (s.length - (s.reverse.takeWhile (· != 46)).length - 1) ++ ext

/-- Appends `PATH_SEPARATOR` unless the path ends with one. -/
def withSeparator (s : Str) : Str :=
  if s ≠ [] ∧ s.getLast? ≠ some 47 then s ++ [47] else s

/-- `strwipe`. -/
def strwipe (s : Str) : Str :=
  s.map fun c => if iscntrl c ∨ c = 92 ∨ c = 47 ∨ c = 58 then 95 else c

/-- The scan of `ed`; the fuel is the length of the text. -/
def edFuel (a b : Str) : Nat → Str → Str
  | 0, s => s
  | _ + 1, [] => []
  | fuel + 1, c :: s =>
    if strnicmp a.length (c :: s) a = 0 ∧ a.length ≤ (c :: s).length then
      b ++ edFuel a b fuel ((c :: s).drop a.length)
    else c :: edFuel a b fuel s

/-- `ed`: every `a` in `s` replaced by `b`, whatever its case. -/
def ed (s a b : Str) : Str := if a = [] then s else edFuel a b s.length s

example : ed (str "get *S now *s") (str "*S") (str "x*s") = str "get x*s now x*s" := by decide

/-- `enum inbcasetype`. -/
inductive InboundCase
  | save | upper | lower | mixed
deriving DecidableEq

/-- The tail of the `INB_MIXED` loop; `prev` is the byte before, already re-cased. -/
def mixedCase : Byte → Str → Str
  | _, [] => []
  | prev, c :: s =>
    let c := if isalnum prev then tolower c else toupper c
    c :: mixedCase c s

/-- `makeinboundcase`. -/
def makeinboundcase (s : Str) (inbcase : InboundCase) : Str :=
  match inbcase with
  | .save => s
  | .upper => s.map toupper
  | .lower => s.map tolower
  | .mixed => match s with
    | [] => []
    | c :: s => toupper c :: mixedCase (toupper c) s

end Binkd
