import Binkd.Words

/-!
# The buffers of `getwordx2` (`getw.c`)

`getwordx2` here has all its flags, and its buffers: the text up to the NUL, `varname`,
and `dest`, which every variable resizes.  `fieldReads` reads the same fields without
a buffer, each as its pieces; `fill` writes pieces into a buffer.  The scanner is the
two together (`scanField_fill`).
-/

namespace Binkd

/-! ### The buffers of `getwordx2` -/

/-- The arguments of `getwordx2` other than the text and the number, with `GWX_SUBST`, and the
environment. -/
structure GwxArgs where
  flags : GwxFlags := {}
  subst : Bool := false
  fldsep : Str := defFldsep
  fldskip : Str := defFldsep
  getenv : Str → Option Str := fun _ => none

/-- `sizeof (varname)`. -/
def varnameSize : ℕ := 257

/-- The loop over the name of a variable, with the bytes that `varname` has left: the name and the
text from the byte that ends it.  The NUL of the text is taken for a byte of the name. -/
def scanVarname : ℕ → Str → Option (Str × Str)
  | 0, _ => none
  | _ + 1, [] => none
  | room + 1, c :: r =>
    if isspace c ∨ c = 37 then some ([], c :: r)
    else (scanVarname room r).map fun (name, rest) => (toupper c :: name, rest)

section

variable (a : GwxArgs)

/-- The inner loop of `getwordx2` on a text with its end for the NUL, where `dest` has `size` bytes:
the field, whether a quote is open, the size of `dest` and the text behind the field; `none` where
the loop leaves the text or a buffer. -/
def scanField : ℕ → Bool → ℕ → Str → Str → Option (Str × Bool × ℕ × Str)
  | 0, quoted, size, dest, src => some (dest, quoted, size, src)
  | _ + 1, quoted, size, dest, [] => some (dest, quoted, size, [])
  | fuel + 1, quoted, size, dest, c :: r =>
    if !a.flags.noesc && c = 92 then
      -- behind a backslash the NUL is a byte like others
      if r = [] then none
      else if dest.length < size then
        scanField fuel quoted size (dest ++ [(getwordxEscape r).1]) (getwordxEscape r).2
      else none
    else if c = 10 ∨ c = 13 then some (dest, quoted, size, c :: r)
    else if c = 34 then scanField fuel (!quoted) size dest r
    else if a.fldsep.contains c && !quoted then some (dest, quoted, size, c :: r)
    else if c = 37 ∧ a.subst ∧ r.head? = some 37 then
      if dest.length < size then scanField fuel quoted size (dest ++ [37]) (r.drop 1) else none
    else if c = 37 ∧ a.subst then
      match scanVarname varnameSize r with
      | none => none
      | some (name, rest) =>
        let var := (a.getenv name).getD []
        let size := rest.length + var.length + 1
        if dest.length + var.length < size then scanField fuel quoted size (dest ++ var) (rest.drop 1) else none
    else if dest.length < size then scanField fuel quoted size (dest ++ [c]) r
    else none

/-- The outer loop of `getwordx2`. -/
def getwordx2Loop : ℕ → Bool → ℕ → Str → Option (Option Str)
  | 0, _, _, _ => some none
  | n + 1, quoted, size, src =>
    match src.dropWhile a.fldskip.contains with
    | [] => some none
    | c :: r =>
      if a.flags.hash ∧ c = 35 then some none
      else match scanField a (r.length + 1) quoted size [] (c :: r) with
        | none => none
        | some (dest, quoted, size, src) =>
          if n = 0 then if dest.length < size then some (some (cstr dest)) else none
          else getwordx2Loop n quoted size (if src.head?.any a.fldsep.contains then src.drop 1 else src)

/-- `getwordx2` on a text, with its buffers: `none` where it reads behind the NUL or writes outside
a buffer. -/
def getwordx2Safe (n : ℕ) (src : Str) : Option (Option Str) :=
    getwordx2Loop a n false (src.length + 1) src

/-! ### The fields of a text -/

/-- What a field is made of: a byte, or the value of a variable, with the number of bytes of the
text from the end of its name on; or the text ends within. -/
inductive Piece
  | byte (c : Byte)
  | var (value : Str) (left : ℕ)
  | cut

/-- The pieces of a field. -/
def fieldPieces : ℕ → Bool → Str → List Piece × Bool × Str
  | 0, quoted, src => ([], quoted, src)
  | _ + 1, quoted, [] => ([], quoted, [])
  | fuel + 1, quoted, c :: r =>
    if !a.flags.noesc && c = 92 then
      if r = [] then ([.cut], quoted, [])
      else
        let p := fieldPieces fuel quoted (getwordxEscape r).2
        (.byte (getwordxEscape r).1 :: p.1, p.2)
    else if c = 10 ∨ c = 13 then ([], quoted, c :: r)
    else if c = 34 then fieldPieces fuel (!quoted) r
    else if a.fldsep.contains c && !quoted then ([], quoted, c :: r)
    else if c = 37 ∧ a.subst ∧ r.head? = some 37 then
      let p := fieldPieces fuel quoted (r.drop 1)
      (.byte 37 :: p.1, p.2)
    else if c = 37 ∧ a.subst then
      match scanVarname varnameSize r with
      | none => ([.cut], quoted, [])
      | some (name, rest) =>
        let p := fieldPieces fuel quoted (rest.drop 1)
        (.var ((a.getenv name).getD []) rest.length :: p.1, p.2)
    else
      let p := fieldPieces fuel quoted r
      (.byte c :: p.1, p.2)

def Piece.value : Piece → Str
  | .byte c => [c]
  | .var value _ => value
  | .cut => []

def Piece.isByte : Piece → Bool
  | .byte _ => true
  | _ => false

/-- What a field stands for. -/
def fieldValue (p : List Piece) : Str := p.flatMap Piece.value

/-- A field: its pieces, and the byte that ends it. -/
structure FieldRead where
  pieces : List Piece
  ending : Option Byte

/-- The fields of a text, one after another; the byte that ends a field is not part of the next one. -/
def fieldReads : ℕ → Bool → Str → List FieldRead
  | 0, _, _ => []
  | fuel + 1, quoted, src =>
    match src.dropWhile a.fldskip.contains with
    | [] => []
    | c :: r =>
      if a.flags.hash ∧ c = 35 then []
      else
        let p := fieldPieces a (r.length + 1) quoted (c :: r)
        ⟨p.1, p.2.2.head?⟩ :: fieldReads fuel p.2.1 (p.2.2.drop 1)

/-- The fields of a text as strings. -/
def fieldList (src : Str) : List Str := (fieldReads a src.length false src).map fun f => cstr (fieldValue f.pieces)

/-! ### When a field fits -/

/-- The bytes up to the next variable, with the NUL where there is none. -/
def untilVar (p : List Piece) : ℕ := (p.takeWhile Piece.isByte).length + if p.all Piece.isByte then 1 else 0

/-- A field is read in its bounds: the text does not end within an escape or the name of a variable,
and at each variable the bytes that the field has already, and those that follow up to the next
variable, are no more than the text has left. -/
structure FieldRead.Fits (f : FieldRead) : Prop where
  whole : .cut ∉ f.pieces
  room : ∀ before value left after, f.pieces = before ++ .var value left :: after →
    (fieldValue before).length ≤ left ∧ (fieldValue before).length + untilVar after ≤ left + 1

/-- The byte that ends a field is a separator, or one that is skipped. -/
def FieldRead.Ends (f : FieldRead) : Prop := ∀ c ∈ f.ending, a.fldsep.contains c = true ∨
    a.fldskip.contains c = true

end

variable {a : GwxArgs} {fuel size size' i m n : ℕ} {q : Bool} {src dest rest name : Str} {p : List Piece} {c : Byte}

/-! ### Filling the buffer -/

/-- The size of the buffer when the pieces have been written behind its first `i` bytes. -/
def fill : ℕ → ℕ → List Piece → Option ℕ
  | size, _, [] => some size
  | size, i, .byte _ :: p => if i < size then fill size (i + 1) p else none
  | _, i, .var value left :: p =>
    if i + value.length < left + value.length + 1 then fill (left + value.length + 1)
    (i + value.length) p else none
  | _, _, .cut :: _ => none

/-- The inner loop fills the buffer with the pieces of the field. -/
theorem scanField_fill (a : GwxArgs) (fuel : ℕ) (q : Bool) (size : ℕ) (dest src : Str) :
    scanField a fuel q size dest src = (fill size dest.length (fieldPieces a fuel q src).1).map fun size' =>
      (dest ++ fieldValue (fieldPieces a fuel q src).1, (fieldPieces a fuel q src).2.1, size',
        (fieldPieces a fuel q src).2.2) := by
  have hbyte : ∀ (fuel size : ℕ) (q : Bool) (dest src : Str) (b : Byte) (p : List Piece × Bool × Str),
      (scanField a fuel q size (dest ++ [b]) src = (fill size (dest ++ [b]).length p.1).map fun size' =>
        (dest ++ [b] ++ fieldValue p.1, p.2.1, size', p.2.2)) →
      (if dest.length < size then scanField a fuel q size (dest ++ [b]) src else none) =
        (fill size dest.length (.byte b :: p.1)).map fun size' =>
          (dest ++ fieldValue (.byte b :: p.1), p.2.1, size', p.2.2) := by
    intro fuel size q dest src b p h
    rw [fill, h]
    split_ifs
    · simp [fieldValue, Piece.value]
    · rfl
  induction fuel generalizing q size dest src with
  | zero => simp [scanField, fieldPieces, fill, fieldValue]
  | succ fuel ih =>
    cases src with
    | nil => simp [scanField, fieldPieces, fill, fieldValue]
    | cons c r =>
      rw [scanField, fieldPieces]
      by_cases hesc : (!a.flags.noesc && decide (c = 92)) = true
      · rw [if_pos hesc, if_pos hesc]
        by_cases hcut : r = []
        · rw [if_pos hcut, if_pos hcut]
          rfl
        · rw [if_neg hcut, if_neg hcut]
          exact hbyte _ _ _ _ _ _ _ (ih _ _ _ _)
      rw [if_neg hesc, if_neg hesc]
      by_cases hend : c = 10 ∨ c = 13
      · rw [if_pos hend, if_pos hend]
        simp [fill, fieldValue]
      rw [if_neg hend, if_neg hend]
      by_cases hquote : c = 34
      · rw [if_pos hquote, if_pos hquote]
        exact ih _ _ _ _
      rw [if_neg hquote, if_neg hquote]
      by_cases hsep : (a.fldsep.contains c && !q) = true
      · rw [if_pos hsep, if_pos hsep]
        simp [fill, fieldValue]
      rw [if_neg hsep, if_neg hsep]
      by_cases hpercent : c = 37 ∧ a.subst = true ∧ r.head? = some 37
      · rw [if_pos hpercent, if_pos hpercent]
        exact hbyte _ _ _ _ _ _ _ (ih _ _ _ _)
      rw [if_neg hpercent, if_neg hpercent]
      by_cases hvar : c = 37 ∧ a.subst = true
      · rw [if_pos hvar, if_pos hvar]
        cases hname : scanVarname varnameSize r with
        | none => rfl
        | some s =>
          dsimp only
          rw [fill, ih, List.length_append]
          split_ifs
          · simp [fieldValue, Piece.value]
          · rfl
      · rw [if_neg hvar, if_neg hvar]
        exact hbyte _ _ _ _ _ _ _ (ih _ _ _ _)

/-- The conditions on the variables of a field that has `i` bytes already. -/
def VarsFit (i : ℕ) (p : List Piece) : Prop := ∀ before value left after, p = before ++ .var value left :: after →
  i + (fieldValue before).length ≤ left ∧ i + (fieldValue before).length + untilVar after ≤ left + 1

theorem varsFit_cons {x : Piece} (hx : x.isByte = true) : VarsFit i (x :: p) ↔
    VarsFit (i + x.value.length) p := by
  constructor
  · rintro h before value left after rfl
    have := h (x :: before) value left after rfl
    rw [show fieldValue (x :: before) = x.value ++ fieldValue before from rfl,
      List.length_append] at this
    omega
  · intro h before value left after heq
    cases before with
    | nil =>
      obtain ⟨rfl, -⟩ := List.cons.inj heq
      contradiction
    | cons y before =>
      obtain ⟨rfl, rfl⟩ := List.cons.inj heq
      have := h before value left after rfl
      rw [show fieldValue (x :: before) = x.value ++ fieldValue before from rfl, List.length_append]
      omega

theorem varsFit_var {value : Str} {left : ℕ} : VarsFit i (.var value left :: p) ↔
    i ≤ left ∧ i + untilVar p ≤ left + 1 ∧ VarsFit (i + value.length) p := by
  constructor
  · intro h
    have hhere := h [] value left p rfl
    refine ⟨hhere.1, hhere.2, ?_⟩
    rintro before value' left' after rfl
    have := h (.var value left :: before) value' left' after rfl
    rw [show fieldValue (.var value left :: before) = value ++ fieldValue before from rfl,
      List.length_append] at this
    omega
  · rintro ⟨h1, h2, h⟩ before value' left' after heq
    cases before with
    | nil =>
      obtain ⟨hx, rfl⟩ := List.cons.inj heq
      obtain ⟨rfl, rfl⟩ := Piece.var.inj hx
      exact ⟨h1, h2⟩
    | cons y before =>
      obtain ⟨rfl, rfl⟩ := List.cons.inj heq
      have := h before value' left' after rfl
      rw [show fieldValue (.var value left :: before) = value ++ fieldValue before from rfl,
        List.length_append]
      omega

theorem untilVar_byte (c : Byte) (p : List Piece) : untilVar (.byte c :: p) = untilVar p + 1 := by
  simp only [untilVar, List.takeWhile_cons, List.all_cons, Piece.isByte, if_true,
    List.length_cons, Bool.true_and]
  omega

/-- The pieces can be written, with the NUL behind them, if and only if the conditions hold. -/
theorem fill_iff (hi : i ≤ size) : (∃ size', fill size i p = some size' ∧ i + (fieldValue p).length < size') ↔
    .cut ∉ p ∧ i + untilVar p ≤ size ∧ VarsFit i p := by
  induction p generalizing size i with
  | nil =>
    have hvars : VarsFit i [] := by
      intro before value left after heq
      exact absurd heq.symm (by simp)
    have hfill : fill size i [] = some size := rfl
    have hlen : i + (fieldValue ([] : List Piece)).length = i := rfl
    have huntil : i + untilVar ([] : List Piece) = i + 1 := rfl
    rw [hfill, hlen, huntil]
    constructor
    · rintro ⟨_, heq, hlt⟩
      cases heq
      exact ⟨List.not_mem_nil, hlt, hvars⟩
    · rintro ⟨-, hlt, -⟩
      exact ⟨size, rfl, hlt⟩
  | cons x p ih =>
    cases x with
    | cut => simp [fill]
    | byte c =>
      rw [untilVar_byte, varsFit_cons rfl]
      have hlen : (fieldValue (.byte c :: p)).length = (fieldValue p).length + 1 := by
        rw [show fieldValue (.byte c :: p) = [c] ++ fieldValue p from rfl,
          List.length_append, Nat.add_comm]
        rfl
      rw [fill, hlen]
      by_cases hlt : i < size
      · rw [if_pos hlt]
        have h := @ih size (i + 1) hlt
        rw [show i + ((fieldValue p).length + 1) = i + 1 + (fieldValue p).length by omega, h]
        simp only [List.mem_cons, reduceCtorEq, false_or]
        rw [show i + (untilVar p + 1) = i + 1 + untilVar p by omega]
        rfl
      · rw [if_neg hlt]
        constructor
        · rintro ⟨_, h, -⟩
          contradiction
        · rintro ⟨-, h, -⟩
          omega
    | var value left =>
      have hlen : (fieldValue (.var value left :: p)).length = value.length + (fieldValue p).length := by
        rw [show fieldValue (.var value left :: p) = value ++ fieldValue p from rfl, List.length_append]
      have huntil : untilVar (.var value left :: p) = 0 := rfl
      rw [fill, hlen, varsFit_var, huntil]
      by_cases hle : i ≤ left
      · rw [if_pos (by omega)]
        have h := @ih (left + value.length + 1) (i + value.length) (by omega)
        rw [← Nat.add_assoc, h]
        simp only [List.mem_cons, reduceCtorEq, false_or]
        constructor
        · rintro ⟨h1, h2, h3⟩
          exact ⟨h1, hi, hle, by omega, h3⟩
        · rintro ⟨h1, -, -, h2, h3⟩
          exact ⟨h1, by omega, h3⟩
      · rw [if_neg (by omega)]
        constructor
        · rintro ⟨_, h, -⟩
          contradiction
        · rintro ⟨-, -, h, -⟩
          omega

/-- The buffer stays as large as the text that is left. -/
theorem fill_size (h : fill size i p = some size') (hm : m < size) (hleft : ∀ value left, .var value left ∈ p → m ≤ left) :
    m < size' := by
  induction p generalizing size i with
  | nil =>
    obtain rfl := Option.some.inj h
    exact hm
  | cons x p ih =>
    have hnext : ∀ value left, .var value left ∈ p → m ≤ left := fun value left hmem =>
      hleft value left (List.mem_cons_of_mem x hmem)
    cases x with
    | cut => contradiction
    | byte c =>
      rw [fill] at h
      split_ifs at h
      exact ih h hm hnext
    | var value left =>
      rw [fill] at h
      split_ifs at h
      have := hleft value left List.mem_cons_self
      exact ih h (by omega) hnext

theorem scanVarname_suffix {room : ℕ} (h : scanVarname room src = some (name, rest)) :
    rest.length ≤ src.length ∧ rest ≠ [] := by
  induction room generalizing src name with
  | zero => contradiction
  | succ room ih =>
    cases src with
    | nil => contradiction
    | cons c r =>
      rw [scanVarname] at h
      split_ifs at h
      · obtain ⟨-, rfl⟩ := Prod.mk.inj (Option.some.inj h)
        exact ⟨Nat.le_refl _, List.cons_ne_nil _ _⟩
      · obtain ⟨⟨name', rest'⟩, hs, heq⟩ := Option.map_eq_some_iff.mp h
        obtain ⟨-, rfl⟩ := Prod.mk.inj heq
        obtain ⟨hle, hne⟩ := ih hs
        exact ⟨Nat.le_succ_of_le hle, hne⟩

/-- What a field takes of the text, and what is left of it behind the field. -/
structure Taken (a : GwxArgs) (q : Bool) (src : Str) (p : List Piece × Bool × Str) : Prop where
  bytes : (p.1.takeWhile Piece.isByte).length + p.2.2.length ≤ src.length
  left : ∀ value left, .var value left ∈ p.1 → p.2.2.length ≤ left
  ending : ∀ c ∈ p.2.2.head?, c = 10 ∨ c = 13 ∨ a.fldsep.contains c = true

theorem fieldPieces_taken (hfuel : src.length ≤ fuel) : Taken a q src (fieldPieces a fuel q src) := by
  have hbyte : ∀ {q q' : Bool} {src src' : Str} {p : List Piece × Bool × Str} (b : Byte),
    Taken a q' src' p →
      src'.length < src.length → Taken a q src (.byte b :: p.1, p.2) := by
    intro q q' src src' p b h hlt
    refine ⟨?_, ?_, h.ending⟩
    · have := h.bytes
      simp only [List.takeWhile_cons, Piece.isByte, if_true, List.length_cons]
      omega
    · intro value left hmem
      exact h.left value left (by simpa using hmem)
  induction fuel generalizing q src with
  | zero =>
    obtain rfl : src = [] := List.length_eq_zero_iff.mp (by omega)
    exact ⟨by simp [fieldPieces], by simp [fieldPieces], by simp [fieldPieces]⟩
  | succ fuel ih =>
    cases src with
    | nil => exact ⟨by simp [fieldPieces], by simp [fieldPieces], by simp [fieldPieces]⟩
    | cons c r =>
      have hr : r.length ≤ fuel := Nat.le_of_succ_le_succ hfuel
      have hdrop : (r.drop 1).length ≤ r.length := by simp
      have hstay : (c = 10 ∨ c = 13 ∨ a.fldsep.contains c = true) →
          Taken a q (c :: r) ([], q, c :: r) := fun hc =>
        ⟨by simp, by simp, by simpa using hc⟩
      have hcut : Taken a q (c :: r) ([.cut], q, []) := ⟨by simp [Piece.isByte], by simp, by simp⟩
      rw [fieldPieces]
      split_ifs with hesc hnil hend hquote hsep hpercent hvar
      · exact hcut
      · have hlen := (getwordxEscape_suffix r).length_le
        exact hbyte _ (ih (by omega)) (Nat.lt_succ_of_le hlen)
      · exact hstay (hend.imp_right .inl)
      · have h := @ih (!q) r hr
        exact ⟨Nat.le_succ_of_le h.bytes, h.left, h.ending⟩
      · exact hstay (.inr (.inr (Bool.and_eq_true_iff.mp hsep).1))
      · exact hbyte _ (ih (by omega)) (Nat.lt_succ_of_le hdrop)
      · cases hname : scanVarname varnameSize r with
        | none => exact hcut
        | some s =>
          obtain ⟨name, rest⟩ := s
          obtain ⟨hle, hne⟩ := scanVarname_suffix hname
          have hpos : 0 < rest.length := List.length_pos_iff.mpr hne
          have h := @ih q (rest.drop 1) (by simp; omega)
          have hbytes := h.bytes
          rw [List.length_drop] at hbytes
          refine ⟨?_, ?_, h.ending⟩
          · have htake : ∀ v n l, (Piece.var v n :: l).takeWhile Piece.isByte = [] := fun _ _ _ => rfl
            rw [htake, List.length_nil, List.length_cons]
            dsimp only
            omega
          · intro value left hmem
            rcases List.mem_cons.mp hmem with heq | hmem
            · obtain ⟨-, rfl⟩ := Piece.var.inj heq
              dsimp only
              omega
            · exact h.left value left hmem
      · exact hbyte _ (ih hr) (Nat.lt_succ_self _)

/-! ### All fields -/

theorem getwordx2Loop_skip (hc : a.fldskip.contains c = true) (n : ℕ) (q : Bool) (size : ℕ) (r : Str) :
    getwordx2Loop a (n + 1) q size (c :: r) = getwordx2Loop a (n + 1) q size r := by
  rw [getwordx2Loop, getwordx2Loop, List.dropWhile_cons_of_pos hc]

/-- A line end that neither separates nor is skipped is a field for every number. -/
theorem getwordx2Loop_stuck (hc : c = 10 ∨ c = 13) (hsep : a.fldsep.contains c = false)
    (hskip : a.fldskip.contains c = false) (hsize : 0 < size) (r : Str) :
    getwordx2Loop a (n + 1) q size (c :: r) = some (some []) := by
  have hesc : c ≠ 92 ∧ c ≠ 35 := by
    rcases hc with rfl | rfl <;> decide
  induction n with
  | zero =>
    rw [getwordx2Loop, List.dropWhile_cons_of_neg (by rw [hskip]; decide)]
    dsimp only
    rw [if_neg (fun h => hesc.2 h.2), scanField, if_neg (by simp [hesc.1]), if_pos hc]
    dsimp only
    rw [if_pos rfl, List.length_nil, if_pos hsize]
    rfl
  | succ n ih =>
    rw [getwordx2Loop, List.dropWhile_cons_of_neg (by rw [hskip]; decide)]
    dsimp only
    rw [if_neg (fun h => hesc.2 h.2), scanField, if_neg (by simp [hesc.1]), if_pos hc]
    dsimp only
    rw [if_neg (Nat.succ_ne_zero n), List.head?_cons, Option.any_some, hsep]
    exact ih

theorem fits_iff {f : FieldRead} (huntil : untilVar f.pieces ≤ size) :
    f.Fits ↔ ∃ size', fill size 0 f.pieces = some size' ∧ (fieldValue f.pieces).length < size' := by
  have h := @fill_iff size 0 f.pieces (Nat.zero_le _)
  rw [Nat.zero_add, Nat.zero_add] at h
  rw [h]
  constructor
  · rintro ⟨hwhole, hroom⟩
    exact ⟨hwhole, huntil, fun before value left after heq => by simpa using hroom before value left after heq⟩
  · rintro ⟨hwhole, -, hroom⟩
    exact ⟨hwhole, fun before value left after heq => by simpa using hroom before value left after heq⟩

/-- One field of the loop. -/
theorem getwordx2Loop_field (hdrop : src.dropWhile a.fldskip.contains = c :: r)
    (hhash : ¬ (a.flags.hash = true ∧ c = 35)) (size : ℕ) {pieces : List Piece} {q' : Bool} {rest : Str}
    (hpieces : fieldPieces a (r.length + 1) q (c :: r) = (pieces, q', rest)) (n : ℕ) :
    getwordx2Loop a (n + 1) q size src =
      match fill size 0 pieces with
      | none => none
      | some size' =>
        if n = 0 then if (fieldValue pieces).length < size' then some (some (cstr (fieldValue pieces))) else none
        else getwordx2Loop a n q' size' (if rest.head?.any a.fldsep.contains then rest.drop 1 else rest) := by
  have hscan := scanField_fill a (r.length + 1) q size [] (c :: r)
  rw [hpieces] at hscan
  rw [getwordx2Loop, hdrop]
  dsimp only at hscan ⊢
  rw [if_neg hhash, hscan]
  cases fill size 0 pieces with
  | none => rfl
  | some size' => rfl

/-- Behind a field that ends well its ending is passed. -/
theorem getwordx2Loop_next {pieces : List Piece} {rest : Str} (hends : FieldRead.Ends a ⟨pieces, rest.head?⟩)
    (q : Bool) (size n : ℕ) : getwordx2Loop a (n + 1) q size (if rest.head?.any a.fldsep.contains then rest.drop 1 else rest) =
      getwordx2Loop a (n + 1) q size (rest.drop 1) := by
  cases rest with
  | nil => rfl
  | cons d r' =>
    rw [List.head?_cons, Option.any_some, List.drop_one, List.tail_cons]
    split_ifs with hd
    · rfl
    · exact getwordx2Loop_skip ((hends d rfl).resolve_left hd) n q size r'

theorem FieldRead.not_ends {pieces : List Piece} {rest : Str} (h : ¬ FieldRead.Ends a ⟨pieces, rest.head?⟩) :
    ∃ d r', rest = d :: r' ∧ a.fldsep.contains d = false ∧ a.fldskip.contains d = false := by
  cases rest with
  | nil => exact absurd (fun _ h => by simp at h) h
  | cons d r' =>
    refine ⟨d, r', rfl, ?_, ?_⟩
    · by_contra hd
      exact h fun x hx => .inl (by obtain rfl := Option.some.inj hx; simpa using hd)
    · by_contra hd
      exact h fun x hx => .inr (by obtain rfl := Option.some.inj hx; simpa using hd)

section
variable {pieces : List Piece} {q' : Bool} {rest : Str} {size' : ℕ}

/-- The first field is returned. -/
theorem getwordx2Loop_first (hdrop : src.dropWhile a.fldskip.contains = c :: r)
    (hhash : ¬ (a.flags.hash = true ∧ c = 35)) (hpieces : fieldPieces a (r.length + 1) q (c :: r) = (pieces, q', rest))
    (hfill : fill size 0 pieces = some size') : getwordx2Loop a 1 q size src =
      if (fieldValue pieces).length < size' then some (some (cstr (fieldValue pieces))) else none := by
  rw [getwordx2Loop_field hdrop hhash size hpieces 0, hfill]
  dsimp only
  rw [if_pos rfl]

/-- For a later field the loop goes on behind the first one. -/
theorem getwordx2Loop_later (hdrop : src.dropWhile a.fldskip.contains = c :: r)
    (hhash : ¬ (a.flags.hash = true ∧ c = 35)) (hpieces : fieldPieces a (r.length + 1) q (c :: r) = (pieces, q', rest))
    (hfill : fill size 0 pieces = some size') (n : ℕ) : getwordx2Loop a (n + 1 + 1) q size src =
      getwordx2Loop a (n + 1) q' size' (if rest.head?.any a.fldsep.contains then rest.drop 1 else rest) := by
  rw [getwordx2Loop_field hdrop hhash size hpieces (n + 1), hfill]
  dsimp only
  rw [if_neg (Nat.succ_ne_zero n)]

/-- A field that does not fit is not returned. -/
theorem getwordx2Loop_unfit (hdrop : src.dropWhile a.fldskip.contains = c :: r)
    (hhash : ¬ (a.flags.hash = true ∧ c = 35)) (hpieces : fieldPieces a (r.length + 1) q (c :: r) = (pieces, q', rest))
    (huntil : untilVar pieces ≤ size) (hfit : ¬ FieldRead.Fits ⟨pieces, rest.head?⟩) :
    getwordx2Loop a 1 q size src = none := by
  have hfits := @fits_iff size ⟨pieces, rest.head?⟩ huntil
  cases hfill : fill size 0 pieces with
  | none =>
    rw [getwordx2Loop_field hdrop hhash size hpieces 0, hfill]
  | some size' =>
    rw [getwordx2Loop_first hdrop hhash hpieces hfill, if_neg fun hlt => hfit (hfits.mpr ⟨size', hfill, hlt⟩)]

/-- Behind a field that does not end, every field is empty. -/
theorem getwordx2Loop_unended (hdrop : src.dropWhile a.fldskip.contains = c :: r)
    (hhash : ¬ (a.flags.hash = true ∧ c = 35)) (hpieces : fieldPieces a (r.length + 1) q (c :: r) = (pieces, q', rest))
    (hfill : fill size 0 pieces = some size') (htaken : Taken a q (c :: r) (pieces, q', rest))
    (hsize : rest.length < size') (hends : ¬ FieldRead.Ends a ⟨pieces, rest.head?⟩) (n : ℕ) :
    getwordx2Loop a (n + 1 + 1) q size src = some (some []) := by
  obtain ⟨d, r', rfl, hsep, hskip⟩ := FieldRead.not_ends hends
  have hline : d = 10 ∨ d = 13 := by
    rcases htaken.ending d rfl with h | h | h
    · exact .inl h
    · exact .inr h
    · rw [hsep] at h
      contradiction
  rw [getwordx2Loop_later hdrop hhash hpieces hfill, List.head?_cons, Option.any_some, hsep, if_neg (by decide),
    getwordx2Loop_stuck hline hsep hskip (by omega)]

end

/-- The number of fields is that of the text, and each is returned for its number, if and only if
every field is read in its bounds and none is ended by a line end that is not taken away. -/
theorem getwordx2Loop_fields (hfuel : src.length ≤ fuel) (hsize : src.length < size) :
    (∀ n, getwordx2Loop a (n + 1) q size src =
        some ((fieldReads a fuel q src).map fun f => cstr (fieldValue f.pieces))[n]?) ↔
      ∀ f ∈ fieldReads a fuel q src, f.Fits ∧ f.Ends a := by
  induction fuel generalizing q size src with
  | zero =>
    obtain rfl : src = [] := List.length_eq_zero_iff.mp (by omega)
    simp [fieldReads, getwordx2Loop]
  | succ fuel ih =>
    have hdropLen := (List.dropWhile_suffix (l := src) a.fldskip.contains).length_le
    cases hdrop : src.dropWhile a.fldskip.contains with
    | nil =>
      have hnone : ∀ n, getwordx2Loop a (n + 1) q size src = some none := fun n => by
        rw [getwordx2Loop, hdrop]
      simp [fieldReads, hdrop, hnone]
    | cons c r =>
      rw [hdrop] at hdropLen
      by_cases hhash : a.flags.hash = true ∧ c = 35
      · have hnone : ∀ n, getwordx2Loop a (n + 1) q size src = some none := fun n => by
          rw [getwordx2Loop, hdrop]
          dsimp only
          rw [if_pos hhash]
        simp [fieldReads, hdrop, hhash, hnone]
      · have hreads : fieldReads a (fuel + 1) q src =
            ⟨(fieldPieces a (r.length + 1) q (c :: r)).1, (fieldPieces a (r.length + 1) q (c :: r)).2.2.head?⟩ ::
              fieldReads a fuel (fieldPieces a (r.length + 1) q (c :: r)).2.1
                ((fieldPieces a (r.length + 1) q (c :: r)).2.2.drop 1) := by
          rw [fieldReads, hdrop]
          dsimp only
          rw [if_neg hhash]
        have htaken := @fieldPieces_taken a (r.length + 1) q (c :: r) (Nat.le_refl _)
        rw [hreads]
        generalize hpieces : fieldPieces a (r.length + 1) q (c :: r) = p at htaken ⊢
        obtain ⟨pieces, q', rest⟩ := p
        rw [List.map_cons, List.forall_mem_cons]
        dsimp only at htaken ⊢
        have hbytes := htaken.bytes
        dsimp only at hbytes
        have huntil : untilVar pieces ≤ size := by
          unfold untilVar
          split_ifs <;> omega
        by_cases hfit : FieldRead.Fits ⟨pieces, rest.head?⟩
        · obtain ⟨size', hfill, hlt⟩ := (@fits_iff size ⟨pieces, rest.head?⟩ huntil).mp hfit
          dsimp only at hfill hlt
          have hfirst := getwordx2Loop_first hdrop hhash hpieces hfill
          rw [if_pos hlt] at hfirst
          have hsize' : rest.length < size' := fill_size hfill (by omega) htaken.left
          by_cases hends : FieldRead.Ends a ⟨pieces, rest.head?⟩
          · have hlater (n : ℕ) := (getwordx2Loop_later hdrop hhash hpieces hfill n).trans (getwordx2Loop_next hends q' size' n)
            have hiff := @ih size' q' (rest.drop 1) (by simp; omega) (by simp; omega)
            rw [← hiff]
            refine ⟨fun h => ⟨⟨hfit, hends⟩, fun n => ?_⟩, fun h n => ?_⟩
            · have hn := h (n + 1)
              rw [hlater, List.getElem?_cons_succ] at hn
              exact hn
            · cases n with
              | zero => exact hfirst
              | succ n =>
                rw [hlater, List.getElem?_cons_succ]
                exact h.2 n
          · refine ⟨fun h => ?_, fun h => absurd h.1.2 hends⟩
            -- the fields do not end
            have hn := h ((fieldReads a fuel q' (rest.drop 1)).length + 1)
            rw [getwordx2Loop_unended hdrop hhash hpieces hfill htaken hsize' hends, List.getElem?_cons_succ,
              List.getElem?_eq_none (by simp)] at hn
            contradiction
        · refine ⟨fun h => ?_, fun h => absurd h.1.1 hfit⟩
          have hn := h 0
          rw [getwordx2Loop_unfit hdrop hhash hpieces huntil hfit] at hn
          contradiction

/-- **Reading fields**: for every number the field of that number is returned, none where there are
fewer, and nothing is read or written outside the buffers, if and only if every field fits and no
field is ended by a line end that is neither a separator nor skipped. -/
theorem getwordx2_fields (a : GwxArgs) (src : Str) :
    (∀ n, getwordx2Safe a (n + 1) src = some (fieldList a src)[n]?) ↔
      ∀ f ∈ fieldReads a src.length false src, f.Fits ∧ f.Ends a :=
  getwordx2Loop_fields (Nat.le_refl _) (Nat.lt_succ_self _)

/-- A backslash before the NUL. -/
theorem backslash_leaves : ¬ ∀ n, getwordx2Safe {} (n + 1) (str "a\\") = some (fieldList {} (str "a\\"))[n]? := by
  intro h
  have h0 := h 0
  revert h0
  decide +kernel

example : getwordx2Safe { subst := true } 1 (str "%HOME") = none := by decide +kernel

example : getwordx2Safe { fldsep := str ",", fldskip := [] } 9 (str "a\n") = some (some []) := by decide +kernel

example : getwordx2Safe { subst := true, getenv := fun _ => some (str "x") } 1 (str "abcdef%A%") = none := by
  decide +kernel

example : getwordx2Safe { subst := true, getenv := fun _ => some (str "xyz") } 2 (str "a b%A%c%%d e") =
    some (some (str "bxyzc%d")) := by
  decide +kernel

end Binkd
