import Binkd.Lib.Buffer
import Binkd.Names

/-!
# The loop of `ed` (`tools.c`)

`ed` edits a line in its buffer: the rest is moved, the replacement copied into the
gap, and the buffer grown where it is short.  `edLoop` is that loop with the buffer and
the arithmetic of `size_t`; `ed` of `Names.lean` is what it leaves in the buffer.
-/

namespace Binkd

open Lib

/-! ### `ed` in its buffer -/

/-- The numbers of `size_t`, and the size of the largest object. -/
def sizeMod : ℕ := 2 ^ 64
def ptrdiffMax : ℕ := 2 ^ 63 - 1

def sizeAdd (x y : ℕ) : ℕ := (x + y) % sizeMod
def sizeSub (x y : ℕ) : ℕ := (x + (sizeMod - y)) % sizeMod

/-- A C string: no NUL, and no longer than an object with its NUL. -/
structure CText where
  text : Str
  nul : 0 ∉ text
  size : text.length < ptrdiffMax

/-- The variables of `ed`. -/
structure EdState where
  r : List Byte
  i : ℕ := 0
  j : ℕ := 0
  sr : ℕ
  sz : ℕ

/-- What one pass of the loop ends in: `exit` where `xrealloc` gets no memory, `fault` where the
buffer or the pattern is left. -/
inductive EdNext
  | next (s : EdState)
  | exit (sz : ℕ)
  | fault

/-- `xrealloc` to a larger size, with anything in the new bytes. -/
def xrealloc (junk : ℕ → Byte) (r : List Byte) (sz : ℕ) : Option (List Byte) :=
  if sz ≤ ptrdiffMax then some (r ++ (List.range (sz - r.length)).map junk) else none

/-- The size that the buffer is given for a replacement. -/
def edSize (len_a len_b sr sz : ℕ) : ℕ :=
  if sizeAdd (sizeSub sr len_a) len_b ≥ sz then if len_b < 64 then sizeAdd sz 64 else sizeAdd sz len_b else sz

/-- The replacement of the `a` that ends at `i`. -/
def edReplace (a b : Str) (s : EdState) : EdNext :=
  let i := sizeSub s.i (a.length - 1)
  let moved := if a.length ≠ b.length then
      memmove s.r (sizeAdd i b.length) (sizeAdd i a.length) (sizeAdd (sizeSub (sizeSub s.sr i) a.length) 1)
    else some s.r
  let copied := moved.bind fun r => if b ≠ [] then memcpy r i b else some r
  match copied with
  | none => .fault
  | some r => .next { s with
      r := r, j := 0, i := sizeAdd (sizeAdd i (sizeSub b.length 1)) 1,
      sr := sizeAdd s.sr (sizeSub b.length a.length) }

/-- One pass of the loop of `ed`. -/
def edStep (junk : ℕ → Byte) (a b : Str) (s : EdState) : EdNext :=
  match s.r[s.i]?, (a ++ [0])[s.j]? with
  | some c, some d =>
    if tolower c ≠ tolower d then .next { s with i := sizeAdd (sizeSub s.i s.j) 1, j := 0 }
    else match (a ++ [0])[s.j + 1]? with
      | none => .fault
      | some e =>
        if e ≠ 0 then .next { s with i := sizeAdd s.i 1, j := s.j + 1 }
        else
          let sz := edSize a.length b.length s.sr s.sz
          if sz = s.sz then edReplace a b s
          else match xrealloc junk s.r sz with
            | none => .exit sz
            | some r => edReplace a b { s with r := r, sz := sz }
  | _, _ => .fault

inductive EdEnd
  | done (s : EdState)
  | exit (sz : ℕ)
  | fault
  | more

/-- The loop of `ed`, for so many passes. -/
def edLoop (junk : ℕ → Byte) (a b : Str) : ℕ → EdState → EdEnd
  | 0, _ => .more
  | fuel + 1, s =>
    if s.i < s.sr then
      match edStep junk a b s with
      | .next s => edLoop junk a b fuel s
      | .exit sz => .exit sz
      | .fault => .fault
    else .done s

/-- `ed`, from the buffer of `s`; without `size` the text is copied to one of its own. -/
def edStart (buf : List Byte) (size : Option ℕ) : EdState :=
  match size with
  | none => { r := cstr buf ++ [0], sr := (cstr buf).length, sz := (cstr buf).length + 1 }
  | some sz => { r := buf, sr := (cstr buf).length, sz := sz }

/-! ### Replacing all -/

/-- The text is the pattern, in any case. -/
def Matches (a p : Str) : Prop := p.map tolower = a.map tolower

/-- `r` is `s` with every `a` replaced by `b`: the leftmost first, and none in what is brought in. -/
inductive Replaced (a b : Str) : Str → Str → Prop
  | nil : Replaced a b [] []
  | hit (p s r : Str) (hp : Matches a p) (h : Replaced a b s r) : Replaced a b (p ++ s) (b ++ r)
  | miss (c : Byte) (s r : Str) (hc : ∀ p s', c :: s = p ++ s' → ¬ Matches a p) (h : Replaced a b s r) :
      Replaced a b (c :: s) (c :: r)

section

variable {a b p w : Str}

theorem Matches.length (h : Matches a p) : p.length = a.length := by
  have hlen := congrArg List.length h
  rwa [List.length_map, List.length_map] at hlen

/-- A text that is shorter than the pattern is left alone. -/
theorem replaced_short (b : Str) (h : w.length < a.length) : Replaced a b w w := by
  induction w with
  | nil => exact .nil
  | cons c w ih =>
    rw [List.length_cons] at h
    refine .miss c w w (fun p s' heq hp => ?_) (ih (by omega))
    have hlen := congrArg List.length heq
    rw [List.length_cons, List.length_append, hp.length] at hlen
    omega

/-- The text has the pattern at its beginning, as `strnicmp` says. -/
theorem strnicmp_matches (h : p.length = a.length) : strnicmp a.length (p ++ w) a = 0 ↔ Matches a p := by
  unfold Matches
  induction a generalizing p with
  | nil =>
    obtain rfl : p = [] := List.length_eq_zero_iff.mp h
    exact ⟨fun _ => rfl, fun _ => by rw [List.length_nil, strnicmp]⟩
  | cons d a ih =>
    cases p with
    | nil => cases h
    | cons c p =>
      rw [List.length_cons, List.cons_append, strnicmp, List.map_cons, List.map_cons, List.cons.injEq]
      by_cases hcd : tolower c = tolower d
      · rw [if_neg (not_not_intro hcd), ih (Nat.succ.inj h)]
        exact ⟨fun h => ⟨hcd, h⟩, fun h => h.2⟩
      · rw [if_pos hcd]
        refine ⟨fun h => absurd (schar_inj.mp (by omega)) hcd, fun h => absurd h.1 hcd⟩

theorem edFuel_replaced (ha : a ≠ []) : ∀ (fuel : ℕ) (s : Str), s.length ≤ fuel →
    Replaced a b s (edFuel a b fuel s) := by
  intro fuel
  induction fuel with
  | zero =>
    intro s hs
    obtain rfl : s = [] := List.length_eq_zero_iff.mp (by omega)
    exact .nil
  | succ fuel ih =>
    intro s hs
    cases s with
    | nil => exact .nil
    | cons c s =>
      rw [List.length_cons] at hs
      have hpos := List.length_pos_iff.mpr ha
      rw [edFuel]
      by_cases hhit : strnicmp a.length (c :: s) a = 0 ∧ a.length ≤ (c :: s).length
      · rw [if_pos hhit]
        have hlen : ((c :: s).take a.length).length = a.length := List.length_take_of_le hhit.2
        have hsplit : (c :: s).take a.length ++ (c :: s).drop a.length = c :: s :=
          List.take_append_drop _ _
        have hp : Matches a ((c :: s).take a.length) := by
          rw [← strnicmp_matches (w := (c :: s).drop a.length) hlen, hsplit]
          exact hhit.1
        have hrest := ih ((c :: s).drop a.length) (by rw [List.length_drop, List.length_cons]; omega)
        have h := Replaced.hit _ _ _ hp hrest
        rwa [hsplit] at h
      · rw [if_neg hhit]
        refine .miss c s _ (fun p s' heq hp => hhit ?_) (ih s (by omega))
        rw [heq, strnicmp_matches hp.length]
        exact ⟨hp, by rw [List.length_append, hp.length]; omega⟩

/-- `ed` replaces all. -/
theorem ed_replaced (s b : Str) (ha : a ≠ []) : Replaced a b s (ed s a b) := by
  rw [ed, if_neg ha]
  exact edFuel_replaced ha s.length s (Nat.le_refl _)

/-- There is one such text. -/
theorem Replaced.unique (ha : a ≠ []) {s r r' : Str} (h : Replaced a b s r) (h' : Replaced a b s r') :
    r = r' := by
  induction h generalizing r' with
  | nil =>
    generalize hs : ([] : Str) = s at h'
    cases h' with
    | nil => rfl
    | hit p s r hp h =>
      rw [List.nil_eq_append_iff] at hs
      rw [hs.1] at hp
      exact absurd (List.length_eq_zero_iff.mp hp.length.symm) ha
    | miss => cases hs
  | hit p s r hp h ih =>
    generalize hs : p ++ s = t at h'
    cases h' with
    | nil =>
      rw [List.append_eq_nil_iff] at hs
      rw [hs.1] at hp
      exact absurd (List.length_eq_zero_iff.mp hp.length.symm) ha
    | hit p' s' r' hp' h' =>
      obtain ⟨rfl, rfl⟩ := List.append_inj hs (hp.length.trans hp'.length.symm)
      rw [ih h']
    | miss c s' r' hc h' => exact absurd hp (hc p s hs.symm)
  | miss c s r hc h ih =>
    generalize hs : c :: s = t at h'
    cases h' with
    | nil => cases hs
    | hit p s' r' hp h' => exact absurd hp (hc p s' hs)
    | miss c' s' r' hc' h' =>
      cases hs
      rw [ih h']

end

/-! ### The arithmetic of `size_t` -/

theorem sizeAdd_eq {x y : ℕ} (h : x + y < sizeMod) : sizeAdd x y = x + y := Nat.mod_eq_of_lt h

theorem sizeSub_eq {x y : ℕ} (hle : y ≤ x) (hx : x < sizeMod) : sizeSub x y = x - y := by
  unfold sizeSub sizeMod at *
  omega

/-- Adding a difference, also where the difference alone is negative. -/
theorem sizeAdd_sizeSub {x y z : ℕ} (hz : z < sizeMod) (hle : z ≤ x + y) (hlt : x + y - z < sizeMod) :
    sizeAdd x (sizeSub y z) = x + y - z := by
  unfold sizeAdd sizeSub sizeMod at *
  omega

section

variable {a b done p w junk : Str} {s : EdState}

/-- The pattern is replaced where it has been found, and the text behind it is kept. -/
theorem edReplace_spec (hr : s.r = done ++ p ++ (w ++ 0 :: junk)) (hp : p.length = a.length) (ha : a ≠ [])
    (hi : s.i = done.length + (a.length - 1)) (hsr : s.sr = done.length + p.length + w.length)
    (hroom : done.length + b.length + w.length < s.r.length) (hbound : s.r.length ≤ ptrdiffMax) :
    ∃ junk', (done ++ b ++ (w ++ 0 :: junk')).length = s.r.length ∧ edReplace a b s = .next
      { s with
        r := done ++ b ++ (w ++ 0 :: junk'), j := 0, i := done.length + b.length,
        sr := done.length + b.length + w.length } := by
  have hla : 0 < a.length := List.length_pos_iff.mpr ha
  have hlen : s.r.length = done.length + p.length + (w.length + (junk.length + 1)) := by
    rw [hr]
    simp only [List.length_append, List.length_cons]
  have hmax : ptrdiffMax < sizeMod := by decide
  have hi' : sizeSub s.i (a.length - 1) = done.length := by
    rw [sizeSub_eq (by omega) (by omega)]
    omega
  have hdst : sizeAdd done.length b.length = done.length + b.length := sizeAdd_eq (by omega)
  have hsrc : sizeAdd done.length a.length = done.length + a.length := sizeAdd_eq (by omega)
  have hcount : sizeAdd (sizeSub (sizeSub s.sr done.length) a.length) 1 = (w ++ [0]).length := by
    have hbehind : sizeSub s.sr done.length = p.length + w.length := by
      rw [sizeSub_eq (by omega) (by omega)]
      omega
    have hrest : sizeSub (p.length + w.length) a.length = w.length := by
      rw [sizeSub_eq (by omega) (by omega)]
      omega
    rw [hbehind, hrest, sizeAdd_eq (by omega), List.length_append, List.length_singleton]
  have hnext : sizeAdd (sizeAdd done.length (sizeSub b.length 1)) 1 = done.length + b.length := by
    unfold sizeAdd sizeSub
    unfold sizeMod at *
    omega
  have hsr' : sizeAdd s.sr (sizeSub b.length a.length) = done.length + b.length + w.length := by
    rw [sizeAdd_sizeSub (by omega) (by omega) (by omega)]
    omega
  -- what is moved and copied, whatever the lengths
  have hcopied : ∃ junk', (if a.length ≠ b.length then memmove s.r (done.length + b.length)
      (done.length + a.length) (w ++ [0]).length else some s.r).bind (fun r => memcpy r done.length b) =
        some (done ++ b ++ (w ++ 0 :: junk')) := by
    by_cases heq : a.length = b.length
    · rw [if_neg (not_not_intro heq), Option.bind_some, hr, memcpy_at (by omega)]
      exact ⟨junk, rfl⟩
    · have hlay : s.r = done ++ p ++ ((w ++ [0]) ++ junk) := by
        rw [hr, List.append_assoc w]
        rfl
      obtain ⟨post, hpost⟩ := @memmove_memcpy _ done p b junk (w ++ [0]) (by
        rw [← hlay, List.length_append, List.length_singleton]
        omega)
      rw [if_pos heq, hlay, ← hp, hpost]
      exact ⟨post, by rw [List.append_assoc w]; rfl⟩
  obtain ⟨junk', hjunk⟩ := hcopied
  have hmoved : ∀ m ∈ (if a.length ≠ b.length then memmove s.r (done.length + b.length)
      (done.length + a.length) (w ++ [0]).length else some s.r), m.length = s.r.length := by
    intro m hm
    split_ifs at hm
    · exact memmove_length hm
    · rw [Option.some.inj hm]
  refine ⟨junk', ?_, ?_⟩
  · obtain ⟨m, hm, hcopy⟩ := Option.bind_eq_some_iff.mp hjunk
    rw [memcpy_length hcopy, hmoved m hm]
  · have hsame : (if a.length ≠ b.length then memmove s.r (done.length + b.length)
        (done.length + a.length) (w ++ [0]).length else some s.r).bind
          (fun r => if b ≠ [] then memcpy r done.length b else some r) = some (done ++ b ++ (w ++ 0 :: junk')) := by
      rw [← hjunk]
      refine Option.bind_congr fun m hm => ?_
      by_cases hb : b = []
      · rw [if_neg (not_not_intro hb), hb, memcpy_nil (by rw [hmoved m hm]; omega)]
      · rw [if_pos hb]
    unfold edReplace
    dsimp only
    rw [hi', hdst, hsrc, hcount, hsame]
    dsimp only
    rw [hnext, hsr']

/-- The new size has room for a replacement, where the old one had room for the text. -/
theorem edSize_room {len_a len_b sr sz : ℕ} (ha : 0 < len_a) (hle : len_a ≤ sr) (hsr : sr < sz)
    (hsz : sz ≤ ptrdiffMax) (hb : len_b < ptrdiffMax) :
    sr - len_a + len_b < edSize len_a len_b sr sz ∧ sz ≤ edSize len_a len_b sr sz := by
  have hmax : ptrdiffMax + ptrdiffMax < sizeMod := by decide
  have hmax' : ptrdiffMax + 64 < sizeMod := by decide
  unfold edSize
  rw [sizeSub_eq hle (by omega), sizeAdd_eq (by omega), sizeAdd_eq (by omega), sizeAdd_eq (by omega)]
  split_ifs <;> omega

/-- Where the loop stands: `done` has been edited, the first `k` bytes of `w` are those of the
pattern. -/
structure EdAt (a : Str) (s : EdState) (done w : Str) (k : ℕ) : Prop where
  layout : ∃ junk, s.r = done ++ (w ++ 0 :: junk)
  i : s.i = done.length + k
  j : s.j = k
  sr : s.sr = done.length + w.length
  sz : s.sz = s.r.length
  bound : s.r.length ≤ ptrdiffMax
  nul : 0 ∉ w
  inside : k < a.length
  behind : k ≤ w.length
  same : Matches (a.take k) (w.take k)

/-- What the loop ends in, after as many passes as it takes. -/
def EdEnds (junk : ℕ → Byte) (a b : Str) (s : EdState) (e : EdEnd) : Prop :=
  ∃ fuel, edLoop junk a b fuel s = e

theorem EdEnds.next {junk : ℕ → Byte} {s s' : EdState} {e : EdEnd} (hlt : s.i < s.sr)
    (hstep : edStep junk a b s = .next s') (h : EdEnds junk a b s' e) : EdEnds junk a b s e := by
  obtain ⟨fuel, h⟩ := h
  refine ⟨fuel + 1, ?_⟩
  rw [edLoop, if_pos hlt, hstep]
  exact h

/-- The bytes that a pass compares. -/
theorem EdAt.bytes {k : ℕ} (h : EdAt a s done w k) (hlt : k < w.length) :
    s.r[s.i]? = some (w.getD k 0) ∧ (a ++ [0])[s.j]? = some (a.getD k 0) := by
  obtain ⟨junk, hr⟩ := h.layout
  have hinside := h.inside
  constructor
  · rw [hr, h.i, List.getElem?_append_right (by omega), Nat.add_sub_cancel_left,
      List.getElem?_append_left hlt, List.getD_eq_getElem?_getD, List.getElem?_eq_getElem hlt]
    rfl
  · rw [h.j, List.getElem?_append_left hinside, List.getD_eq_getElem?_getD,
      List.getElem?_eq_getElem hinside]
    rfl

theorem EdAt.lt {k : ℕ} (h : EdAt a s done w k) (hlt : k < w.length) : s.i < s.sr ∧ s.i < sizeMod := by
  have hi := h.i
  have hsr := h.sr
  obtain ⟨junk, hr⟩ := h.layout
  have hbound := h.bound
  rw [hr, List.length_append, List.length_append] at hbound
  have hmax : ptrdiffMax < sizeMod := by decide
  omega

/-- A byte that is not the next one of the pattern: the search goes on behind where it began. -/
theorem EdAt.miss {junk : ℕ → Byte} {k : ℕ} (h : EdAt a s done w k) (hlt : k < w.length)
    (hne : tolower (w.getD k 0) ≠ tolower (a.getD k 0)) :
    ∃ c w' s', w = c :: w' ∧ edStep junk a b s = .next s' ∧ EdAt a s' (done ++ [c]) w' 0 := by
  obtain ⟨c, w', rfl⟩ : ∃ c w', w = c :: w' := List.exists_cons_of_ne_nil fun hnil => by
    rw [hnil] at hlt
    exact absurd hlt (Nat.not_lt_zero k)
  obtain ⟨hc, hd⟩ := h.bytes hlt
  obtain ⟨hi, hmod⟩ := h.lt hlt
  have hieq := h.i
  have hjeq := h.j
  have hsr := h.sr
  rw [List.length_cons] at hsr
  obtain ⟨slack, hr⟩ := h.layout
  have hbound := h.bound
  have hmax : ptrdiffMax < sizeMod := by decide
  have hback : sizeAdd (sizeSub s.i s.j) 1 = done.length + 1 := by
    rw [sizeSub_eq (by omega) hmod, sizeAdd_eq (by
      rw [hr, List.length_append] at hbound
      simp only [List.cons_append, List.length_cons] at hbound
      omega)]
    omega
  refine ⟨c, w', { s with i := sizeAdd (sizeSub s.i s.j) 1, j := 0 }, rfl, ?_, ?_⟩
  · unfold edStep
    rw [hc, hd]
    dsimp only
    rw [if_pos hne]
  · exact ⟨⟨slack, by rw [hr]; simp⟩, by rw [hback]; simp, rfl, by rw [hsr]; simp; omega, h.sz, h.bound,
      fun hz => h.nul (List.mem_cons_of_mem c hz), Nat.lt_of_le_of_lt (Nat.zero_le k) h.inside,
        Nat.zero_le _, rfl⟩

theorem take_same {k : ℕ} {a w : Str} (hsame : Matches (a.take k) (w.take k)) (hk : k < a.length) (hlt : k < w.length)
    (heq : tolower (w.getD k 0) = tolower (a.getD k 0)) : Matches (a.take (k + 1)) (w.take (k + 1)) := by
  unfold Matches at *
  rw [List.getD_eq_getElem?_getD, List.getD_eq_getElem?_getD, List.getElem?_eq_getElem hlt,
    List.getElem?_eq_getElem hk] at heq
  rw [List.take_succ_eq_append_getElem hlt, List.take_succ_eq_append_getElem hk, List.map_append,
    List.map_append, hsame,
    List.map_singleton, List.map_singleton]
  exact congrArg (fun c => (a.take k).map tolower ++ [c]) heq

/-- The next byte of the pattern, and not the last one. -/
theorem EdAt.more {junk : ℕ → Byte} {k : ℕ} (ha0 : 0 ∉ a) (h : EdAt a s done w k) (hlt : k < w.length)
    (heq : tolower (w.getD k 0) = tolower (a.getD k 0)) (hk : k + 1 < a.length) :
    ∃ s', edStep junk a b s = .next s' ∧ EdAt a s' done w (k + 1) := by
  obtain ⟨hc, hd⟩ := h.bytes hlt
  obtain ⟨hi, hmod⟩ := h.lt hlt
  have hieq := h.i
  have hjeq := h.j
  have hsr := h.sr
  have hnext : (a ++ [0])[s.j + 1]? = some (a[k + 1]) := by
    rw [h.j, List.getElem?_append_left hk, List.getElem?_eq_getElem hk]
  have hne : a[k + 1] ≠ 0 := fun h0 => ha0 (h0 ▸ List.getElem_mem hk)
  have hmax : ptrdiffMax < sizeMod := by decide
  obtain ⟨slack, hr⟩ := h.layout
  have hbound := h.bound
  have hi' : sizeAdd s.i 1 = s.i + 1 := sizeAdd_eq (by
    rw [hr, List.length_append, List.length_append] at hbound
    omega)
  refine ⟨{ s with i := sizeAdd s.i 1, j := s.j + 1 }, ?_, ?_⟩
  · unfold edStep
    rw [hc, hd]
    dsimp only
    rw [if_neg (not_not_intro heq), hnext]
    dsimp only
    rw [if_pos hne]
  · exact ⟨h.layout, by dsimp only; omega, by dsimp only; omega, hsr, h.sz, h.bound, h.nul, hk, hlt,
      take_same h.same h.inside hlt heq⟩

/-- The step at the last byte of the pattern. -/
theorem EdAt.last {junk : ℕ → Byte} {k : ℕ} (h : EdAt a s done w k) (hlt : k < w.length)
    (heq : tolower (w.getD k 0) = tolower (a.getD k 0)) (hk : k + 1 = a.length) :
    edStep junk a b s =
      if edSize a.length b.length s.sr s.sz = s.sz then edReplace a b s
      else match xrealloc junk s.r (edSize a.length b.length s.sr s.sz) with
        | none => .exit (edSize a.length b.length s.sr s.sz)
        | some r => edReplace a b { s with r := r, sz := edSize a.length b.length s.sr s.sz } := by
  obtain ⟨hc, hd⟩ := h.bytes hlt
  have hend : (a ++ [0])[s.j + 1]? = some 0 := by
    rw [h.j, hk, List.getElem?_append_right (Nat.le_refl _), Nat.sub_self]
    rfl
  unfold edStep
  rw [hc, hd]
  dsimp only
  rw [if_neg (not_not_intro heq), hend]
  dsimp only
  rw [if_neg (by decide)]

/-- The replacement, in the buffer as it was or in a larger one. -/
theorem EdAt.replaced {k : ℕ} (h : EdAt a s done w k) (hlt : k < w.length) (hk : k + 1 = a.length)
    {r slack : List Byte} {sz : ℕ} (hr : r = done ++ (w ++ 0 :: slack)) (hsz : sz = r.length)
    (hbound : sz ≤ ptrdiffMax) (hroom : s.sr - a.length + b.length < sz) :
    ∃ s', edReplace a b { s with r := r, sz := sz } = .next s' ∧
      EdAt a s' (done ++ b) (w.drop a.length) 0 := by
  have hla : (w.take a.length).length = a.length := List.length_take_of_le (by omega)
  have hw : w.take a.length ++ w.drop a.length = w := List.take_append_drop a.length w
  have hwlen : w.length = a.length + (w.drop a.length).length := by
    rw [List.length_drop]
    omega
  have hsr := h.sr
  have hi := h.i
  have hne : a ≠ [] := by
    rw [← List.length_pos_iff]
    omega
  have hrlen : r.length = done.length + (w.length + (slack.length + 1)) := by
    rw [hr]
    simp only [List.length_append, List.length_cons]
  have hnul : 0 ∉ w.drop a.length := fun h0 => h.nul (List.mem_of_mem_drop h0)
  have hlay : r = done ++ w.take a.length ++ (w.drop a.length ++ 0 :: slack) := by
    rw [List.append_assoc, ← List.append_assoc (w.take a.length), hw, hr]
  obtain ⟨junk', hlen', hstep⟩ := @edReplace_spec a b done (w.take a.length) (w.drop a.length) slack
    { s with r := r, sz := sz } hlay hla hne (by dsimp only; omega) (by dsimp only; omega) (by dsimp only; omega)
    (by dsimp only; omega)
  refine ⟨_, hstep, ⟨junk', ?_⟩, ?_, rfl, ?_, ?_, ?_, hnul, by omega, Nat.zero_le _, rfl⟩
  · simp
  · simp
  · simp
  · dsimp only at hlen' ⊢
    rw [hlen', hsz]
  · dsimp only at hlen' ⊢
    rw [hlen', ← hsz]
    exact hbound

/-- The last byte of the pattern: it is replaced, unless there is no memory. -/
theorem EdAt.found {junk : ℕ → Byte} {k : ℕ} (hb : b.length < ptrdiffMax) (h : EdAt a s done w k) (hlt : k < w.length)
    (heq : tolower (w.getD k 0) = tolower (a.getD k 0)) (hk : k + 1 = a.length) :
    ∃ p w', w = p ++ w' ∧ p.length = a.length ∧ Matches a p ∧
      ((∃ s', edStep junk a b s = .next s' ∧ EdAt a s' (done ++ b) w' 0) ∨
        ∃ sz > ptrdiffMax, edStep junk a b s = .exit sz) := by
  have hmatch := take_same h.same h.inside hlt heq
  rw [hk, List.take_length] at hmatch
  have hla : (w.take a.length).length = a.length := List.length_take_of_le (by omega)
  have hw : w.take a.length ++ w.drop a.length = w := List.take_append_drop a.length w
  have hsr := h.sr
  have hsz := h.sz
  have hbound := h.bound
  obtain ⟨slack, hr⟩ := h.layout
  have hrlen : s.r.length = done.length + (w.length + (slack.length + 1)) := by
    rw [hr]
    simp only [List.length_append, List.length_cons]
  obtain ⟨hroom, hgrow⟩ := @edSize_room a.length b.length s.sr s.sz (by omega) (by omega) (by omega) (by omega) hb
  refine ⟨w.take a.length, w.drop a.length, hw.symm, hla, hmatch, ?_⟩
  rw [h.last hlt heq hk]
  by_cases hsame : edSize a.length b.length s.sr s.sz = s.sz
  · rw [if_pos hsame]
    exact .inl (h.replaced hlt hk hr hsz (by omega) (by omega))
  · rw [if_neg hsame, xrealloc]
    by_cases hfits : edSize a.length b.length s.sr s.sz ≤ ptrdiffMax
    · rw [if_pos hfits]
      have hlay : s.r ++ (List.range (edSize a.length b.length s.sr s.sz - s.r.length)).map junk =
          done ++ (w ++ 0 :: (slack ++ (List.range (edSize a.length b.length s.sr s.sz - s.r.length)).map junk)) := by
        rw [hr]
        simp
      refine .inl (h.replaced hlt hk hlay ?_ hfits hroom)
      rw [List.length_append, List.length_map, List.length_range]
      omega
    · rw [if_neg hfits]
      exact .inr ⟨_, by omega, rfl⟩

/-- The rest of the text is edited, unless there is no memory. -/
theorem edLoop_replaces (junk : ℕ → Byte) (ha0 : 0 ∉ a) (hb : b.length < ptrdiffMax) :
    ∀ (n m : ℕ) (s : EdState) (done w : Str) (k : ℕ), w.length = n → a.length - k = m →
    EdAt a s done w k →
      ∃ out e, Replaced a b w out ∧ EdEnds junk a b s e ∧
        ((∃ s' slack, e = .done s' ∧ s'.r = done ++ out ++ 0 :: slack ∧ s'.sz = s'.r.length) ∨
          ∃ sz > ptrdiffMax, e = .exit sz) := by
  intro n
  induction n using Nat.strongRecOn with
  | ind n ihn =>
    intro m
    induction m with
    | zero =>
      intro s done w k _ hm h
      have hinside := h.inside
      omega
    | succ m ihm =>
      intro s done w k hn hm h
      by_cases hlt : k < w.length
      · obtain ⟨hi, -⟩ := h.lt hlt
        by_cases heq : tolower (w.getD k 0) = tolower (a.getD k 0)
        · by_cases hk : k + 1 < a.length
          · obtain ⟨s', hstep, h'⟩ := @EdAt.more a b done w s junk k ha0 h hlt heq hk
            obtain ⟨out, e, hout, hends, hres⟩ := ihm s' done w (k + 1) hn (by omega) h'
            exact ⟨out, e, hout, hends.next hi hstep, hres⟩
          · have hinside := h.inside
            obtain ⟨p, w', rfl, hp, hmatch, ⟨s', hstep, h'⟩ | ⟨sz, hsz, hstep⟩⟩ :=
              @EdAt.found a b done w s junk k hb h hlt heq (by omega)
            · rw [List.length_append] at hn
              obtain ⟨out, e, hout, hends, hres⟩ :=
                ihn w'.length (by omega) _ s' (done ++ b) w' 0 rfl rfl h'
              refine ⟨b ++ out, e, .hit p w' out hmatch hout, hends.next hi hstep, ?_⟩
              rwa [← List.append_assoc]
            · exact ⟨_, _, ed_replaced (p ++ w') b (by rw [← List.length_pos_iff]; omega),
                ⟨1, by rw [edLoop, if_pos hi, hstep]⟩, .inr ⟨sz, hsz, rfl⟩⟩
        · obtain ⟨c, w', s', rfl, hstep, h'⟩ := @EdAt.miss a b done w s junk k h hlt heq
          rw [List.length_cons] at hn
          obtain ⟨out, e, hout, hends, hres⟩ := ihn w'.length (by omega) _ s' (done ++ [c]) w' 0 rfl rfl h'
          refine ⟨c :: out, e, .miss c w' out ?_ hout, hends.next hi hstep, ?_⟩
          · intro p s1 heq1 hp
            have hget : tolower ((c :: w').getD k 0) = tolower (a.getD k 0) := by
              have hinside := h.inside
              have hplen := hp.length
              have hk := congrArg (fun l : Str => l[k]?) hp
              rw [List.getElem?_map, List.getElem?_map, List.getElem?_eq_getElem (by omega),
                List.getElem?_eq_getElem (by omega)] at hk
              rw [heq1, List.getD_eq_getElem?_getD, List.getD_eq_getElem?_getD,
                List.getElem?_append_left (by omega), List.getElem?_eq_getElem (by omega),
                List.getElem?_eq_getElem (by omega)]
              exact Option.some.inj hk
            exact heq hget
          · rwa [List.append_assoc] at hres
      · obtain ⟨slack, hr⟩ := h.layout
        have hbehind := h.behind
        have hend : ¬ s.i < s.sr := by
          rw [h.i, h.sr]
          omega
        refine ⟨w, .done s, replaced_short b (by have := h.inside; omega),
          ⟨1, by rw [edLoop, if_neg hend]⟩,
          .inl ⟨s, slack, rfl, ?_, h.sz⟩⟩
        rw [hr, List.append_assoc]

end

theorem cstr_text (s : CText) (slack : List Byte) : cstr (s.text ++ 0 :: slack) = s.text := by
  unfold cstr
  rw [List.takeWhile_append_of_pos fun c hc => by
    simpa using fun h0 : c = 0 => s.nul (h0 ▸ hc)]
  exact List.append_nil _

/-- **Replace all**: the loop of `ed` ends with every `a` in `s` replaced by `b`, having stayed in
its buffer and its pattern, unless a size was needed that no object has. -/
theorem ed_replaces_all (junk : ℕ → Byte) (s a b : CText) (slack : List Byte) (size : Option ℕ) (ha : a.text ≠ [])
    (hbuf : (s.text ++ 0 :: slack).length ≤ ptrdiffMax) (hsize : ∀ n ∈ size, n = (s.text ++ 0 :: slack).length) :
    Replaced a.text b.text s.text (ed s.text a.text b.text) ∧
    ∃ fuel e, edLoop junk a.text b.text fuel (edStart (s.text ++ 0 :: slack) size) = e ∧
      ((∃ s' slack', e = .done s' ∧ s'.r = ed s.text a.text b.text ++ 0 :: slack' ∧ s'.sz = s'.r.length) ∨
        ∃ sz > ptrdiffMax, e = .exit sz) := by
  have hat : EdAt a.text (edStart (s.text ++ 0 :: slack) size) [] s.text 0 := by
    cases size with
    | none =>
      have hlen := s.size
      refine ⟨⟨[], ?_⟩, rfl, rfl, ?_, ?_, ?_, s.nul, List.length_pos_iff.mpr ha, Nat.zero_le _, rfl⟩
      · rw [edStart, cstr_text]
        rfl
      · rw [edStart, cstr_text]
        exact (Nat.zero_add _).symm
      · rw [edStart, cstr_text, List.length_append]
        rfl
      · rw [edStart, cstr_text, List.length_append, List.length_singleton]
        omega
    | some n =>
      refine ⟨⟨slack, rfl⟩, rfl, rfl, ?_, hsize n rfl, hbuf, s.nul, List.length_pos_iff.mpr ha,
        Nat.zero_le _, rfl⟩
      rw [edStart, cstr_text]
      exact (Nat.zero_add _).symm
  obtain ⟨out, e, hout, ⟨fuel, hends⟩, ⟨s', slack', he, hr, hsz⟩ | hexit⟩ :=
    edLoop_replaces junk a.nul b.size _ _ _ [] s.text 0 rfl rfl hat
  · obtain rfl := hout.unique ha (ed_replaced s.text b.text ha)
    exact ⟨ed_replaced s.text b.text ha, fuel, e, hends, .inl ⟨s', slack', he, hr, hsz⟩⟩
  · exact ⟨ed_replaced s.text b.text ha, fuel, e, hends, .inr hexit⟩

/-- A replacement that has the pattern in it. -/
def selfText : CText := ⟨str "get *S", by decide, by decide⟩
def selfFrom : CText := ⟨str "*S", by decide, by decide⟩
def selfTo : CText := ⟨str "x*s", by decide, by decide⟩

theorem selfText_replaced : Replaced selfFrom.text selfTo.text selfText.text
      (ed selfText.text selfFrom.text selfTo.text) ∧
    ∃ fuel e, edLoop (fun _ => 0) selfFrom.text selfTo.text fuel
    (edStart (selfText.text ++ 0 :: []) none) = e ∧
      ((∃ s' slack', e = .done s' ∧ s'.r = ed selfText.text selfFrom.text selfTo.text ++ 0 :: slack' ∧
        s'.sz = s'.r.length) ∨ ∃ sz > ptrdiffMax, e = .exit sz) :=
  ed_replaces_all (fun _ => 0) selfText selfFrom selfTo [] none (by decide) (by decide) (fun n hn => by cases hn)

end Binkd
