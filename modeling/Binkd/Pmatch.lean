import Binkd.Lib.Glob
import Binkd.Misc.Portable
import Binkd.Names
import Mathlib.Data.List.Infix

/-!
# The two matchers (`pmatch.c`, `wildmatch` of `misc/portable.c`)

`xpmatch` walks through a string in memory up to its terminating NUL, and behind a `*` it runs to
the next place where the following character occurs.  `globOf` reads a pattern as a list of tokens;
where no token takes the NUL itself, the matcher decides the language of the tokens, whatever stands
behind the string (`xpmatch_language`).  A class that takes the NUL, as every `[!…]` does, lets it run
beyond the end (`xpmatch_overrun`).

The tools of `misc` have a matcher of their own.  On patterns without brackets and
backslashes the two agree (`wildmatch_agrees`).
-/

namespace Binkd

open Lib

variable {ncase : Bool} {s tail : List Byte} {p : Str} {g : List (Glob Byte)}

/-! ### `xpmatch` in memory -/

/-- A character that stands for itself. -/
def plainChar (ncase : Bool) (c d : Byte) : Bool := if ncase then toupper d = toupper c else d = c

/-- The characters behind a `*` that are not searched for. -/
def specialChar (c : Byte) : Bool := c == 92 || c == 63 || c == 42 || c == 91

/-- `while (*q != c)`: the next place where the character occurs, `none` at the end of the string. -/
def xpmatchSkip (ncase : Bool) (c : Byte) : List Byte → Option (List Byte)
  | [] => none
  | d :: q =>
    if d = c ∨ (ncase ∧ toupper d = toupper c) then some (d :: q)
    else if d = 0 then none
    else xpmatchSkip ncase c q

/-- The places that `do … while (*q++ != '\0')` comes to. -/
def xpmatchPlaces : List Byte → List (List Byte)
  | [] => []
  | d :: q => (d :: q) :: if d = 0 then [] else xpmatchPlaces q

/-- `xpmatch` on the memory from `q` on; the fuel bounds the pattern characters still to be read. -/
def xpmatch (ncase : Bool) : Nat → Str → List Byte → Bool
  | 0, _, _ => false
  | _ + 1, [], q => q.headD 0 = 0
  | fuel + 1, c :: p, q =>
    let plain := plainChar ncase c (q.headD 0) && xpmatch ncase fuel p (q.drop 1)
    if c = 92 then q.headD 0 = p.headD 0 && xpmatch ncase fuel (p.drop 1) (q.drop 1)
    else if c = 63 then q.headD 0 != 0 && xpmatch ncase fuel p (q.drop 1)
    else if c = 42 then
      match (if specialChar (p.headD 0) then some q else xpmatchSkip ncase (p.headD 0) q) with
      | none => false
      | some q => (xpmatchPlaces q).any fun q => xpmatch ncase fuel p q
    else if c = 91 then
      let body := if p.headD 0 = 33 then p.drop 1 else p
      if xpmatchClosed (p.length + 1) body then
        let invert : Bool := p.headD 0 = 33
        let r := xpmatchClass (p.length + 1) (q.headD 0) (body.headD 0) (body.drop 1) false
        if r.1 = invert then false else xpmatch ncase fuel r.2 (q.drop 1)
      else plain
    else plain

/-- A class that takes the NUL goes on behind the string: what it finds there decides. -/
theorem xpmatch_overrun : xpmatch true 6 (str "*[!x]") (str "x" ++ [0, 0]) = true ∧
    xpmatch true 6 (str "*[!x]") (str "x" ++ [0, 65]) = false := by decide

/-! ### The tokens of a pattern -/

/-- The tokens of a pattern; `none` for one that ends in a backslash. -/
def globOf (ncase : Bool) : Nat → Str → Option (List (Glob Byte))
  | 0, _ => none
  | _ + 1, [] => some []
  | fuel + 1, c :: p =>
    let plain := (globOf ncase fuel p).map (.one (plainChar ncase c) :: ·)
    if c = 92 then
      if p = [] then none else (globOf ncase fuel (p.drop 1)).map (.one (· == p.headD 0) :: ·)
    else if c = 63 then (globOf ncase fuel p).map (.one (· != 0) :: ·)
    else if c = 42 then (globOf ncase fuel p).map (.star :: ·)
    else if c = 91 then
      let body := if p.headD 0 = 33 then p.drop 1 else p
      if xpmatchClosed (p.length + 1) body then
        let invert : Bool := p.headD 0 = 33
        let inClass := fun chr => xpmatchClass (p.length + 1) chr (body.headD 0) (body.drop 1) false
        (globOf ncase fuel (inClass 0).2).map (.one (fun chr => (inClass chr).1 != invert) :: ·)
      else plain
    else plain

/-- Where a class ends does not depend on the character. -/
theorem xpmatchClass_rest (fuel : ℕ) (chr chr' c : Byte) (p : Str) (found found' : Bool) :
    (xpmatchClass fuel chr c p found).2 = (xpmatchClass fuel chr' c p found').2 := by
  induction fuel generalizing c p found found' with
  | zero => rfl
  | succ fuel ih =>
    rw [xpmatchClass, xpmatchClass]
    dsimp only
    generalize (if c = 92 then (p.headD 0, p.drop 1) else (c, p)) = cp
    split_ifs
    all_goals first | rfl | exact ih _ _ _ _

/-- A class ends in the pattern. -/
theorem xpmatchClass_suffix (fuel : ℕ) (chr c : Byte) (p : Str) (found : Bool) :
    (xpmatchClass fuel chr c p found).2 <:+ p := by
  induction fuel generalizing c p found with
  | zero => exact List.suffix_rfl
  | succ fuel ih =>
    rw [xpmatchClass]
    dsimp only
    have hcp : (if c = 92 then (p.headD 0, p.drop 1) else (c, p)).2 <:+ p := by
      split_ifs
      · exact List.drop_suffix 1 p
      · exact List.suffix_rfl
    generalize (if c = 92 then (p.headD 0, p.drop 1) else (c, p)) = cp at hcp ⊢
    have hdrop : ∀ r : Str, r <:+ p → r.drop 1 <:+ p := fun r hr => (List.drop_suffix 1 r).trans hr
    split_ifs
    all_goals first
      | exact hdrop _ (hdrop _ (hdrop _ (hdrop _ hcp)))
      | exact hdrop _ (hdrop _ (hdrop _ hcp))
      | exact hdrop _ hcp
      | exact (ih _ _ _).trans (hdrop _ (hdrop _ (hdrop _ (hdrop _ hcp))))
      | exact (ih _ _ _).trans (hdrop _ (hdrop _ (hdrop _ hcp)))
      | exact (ih _ _ _).trans (hdrop _ hcp)

/-- What stands behind a class is in the pattern. -/
theorem xpmatchClass_behind (p : Str) :
    (xpmatchClass (p.length + 1) 0 ((if p.headD 0 = 33 then p.drop 1 else p).headD 0)
      ((if p.headD 0 = 33 then p.drop 1 else p).drop 1) false).2 <:+ p := by
  have hbody : (if p.headD 0 = 33 then p.drop 1 else p) <:+ p := by
    split_ifs
    · exact List.drop_suffix 1 p
    · exact List.suffix_rfl
  exact ((xpmatchClass_suffix _ _ _ _ _).trans (List.drop_suffix 1 _)).trans hbody

/-! ### The matcher decides the language -/

theorem toupper_ne_zero {d : Byte} (hd : d ≠ 0) : toupper d ≠ 0 := by
  unfold toupper
  split_ifs with hlow
  · intro hzero
    have hspace : d = 32 := by
      rw [← UInt8.sub_add_cancel d 32, hzero]
      rfl
    rw [hspace] at hlow
    contradiction
  · exact hd

theorem plainChar_zero {c : Byte} (hc : c ≠ 0) : plainChar ncase c 0 = false := by
  have hzero : toupper 0 = 0 := by decide
  unfold plainChar
  split_ifs
  · rw [hzero]
    exact decide_eq_false (toupper_ne_zero hc).symm
  · exact decide_eq_false hc.symm

theorem plainChar_iff {c d : Byte} : plainChar ncase c d = true ↔ d = c ∨ (ncase ∧ toupper d = toupper c) := by
  unfold plainChar
  cases ncase with
  | true => simpa using fun h : d = c => congrArg toupper h
  | false => simp

/-- One token that does not take the NUL, at the place where the string stands in memory. -/
theorem token_step {f : Byte → Bool} (hzero : f 0 = false) (hs : 0 ∉ s) {X : List Byte → Bool}
    (hX : ∀ r : List Byte, 0 ∉ r → (X (r ++ 0 :: tail) = true ↔ r ∈ globLang g)) :
    (f ((s ++ 0 :: tail).headD 0) && X ((s ++ 0 :: tail).drop 1)) = true ↔ s ∈ globLang (.one f :: g) := by
  cases s with
  | nil =>
    refine iff_of_false ?_ nil_not_mem_globLang_one
    rw [List.nil_append, List.headD_cons, hzero, Bool.false_and]
    decide
  | cons d r =>
    have hr := hX r fun h => hs (List.mem_cons_of_mem d h)
    rw [List.cons_append, List.headD_cons, List.drop_succ_cons, List.drop_zero, Bool.and_eq_true, hr,
      cons_mem_globLang_one]

theorem mem_xpmatchPlaces (hs : 0 ∉ s) {t : List Byte} :
    t ∈ xpmatchPlaces (s ++ 0 :: tail) ↔ ∃ u, u <:+ s ∧ t = u ++ 0 :: tail := by
  induction s with
  | nil => simp [xpmatchPlaces]
  | cons d r ih =>
    have hd : d ≠ 0 := fun h => hs (h ▸ List.mem_cons_self)
    rw [List.cons_append, xpmatchPlaces, if_neg hd, List.mem_cons, ih fun h => hs (List.mem_cons_of_mem d h)]
    constructor
    · rintro (rfl | ⟨u, hu, rfl⟩)
      · exact ⟨d :: r, List.suffix_rfl, rfl⟩
      · exact ⟨u, hu.trans (List.suffix_cons d r), rfl⟩
    · rintro ⟨u, hu, rfl⟩
      rcases List.suffix_cons_iff.mp hu with rfl | hu
      · exact .inl rfl
      · exact .inr ⟨u, hu, rfl⟩

/-- The search behind a `*`: it ends at the first place where the character stands. -/
theorem xpmatchSkip_eq (c : Byte) (hs : 0 ∉ s) : xpmatchSkip ncase c (s ++ 0 :: tail) =
    if c = 0 ∨ ∃ d ∈ s, plainChar ncase c d = true then some (s.dropWhile (!plainChar ncase c ·) ++ 0 :: tail)
    else none := by
  induction s with
  | nil =>
    rw [List.nil_append, xpmatchSkip]
    by_cases hc : c = 0
    · rw [if_pos (.inl hc.symm), if_pos (.inl hc)]
      rfl
    · have hzero : plainChar ncase c 0 = false := plainChar_zero hc
      rw [← Bool.not_eq_true, plainChar_iff] at hzero
      rw [if_neg hzero, if_pos rfl, if_neg (by simpa using hc)]
  | cons d r ih =>
    have hd : d ≠ 0 := fun h => hs (h ▸ List.mem_cons_self)
    rw [List.cons_append, xpmatchSkip]
    by_cases hplain : plainChar ncase c d = true
    · rw [if_pos (plainChar_iff.mp hplain), if_pos (.inr ⟨d, List.mem_cons_self, hplain⟩),
        List.dropWhile_cons_of_neg (by simp [hplain])]
      rfl
    · rw [if_neg (fun h => hplain (plainChar_iff.mpr h)), if_neg hd, ih fun h => hs (List.mem_cons_of_mem d h),
        List.dropWhile_cons_of_pos (by simpa using hplain)]
      simp only [List.mem_cons, exists_eq_or_imp, hplain, Bool.false_eq_true, false_or]

/-- Behind a `*` the search begins at the first place, and takes in all behind it. -/
theorem star_step {fuel : ℕ} (hs : 0 ∉ s) (hp : 0 ∉ p) (hg : globOf ncase fuel p = some g)
    (ih : ∀ r : List Byte, 0 ∉ r → (xpmatch ncase fuel p (r ++ 0 :: tail) = true ↔ r ∈ globLang g)) :
    (match (if specialChar (p.headD 0) then some (s ++ 0 :: tail)
        else xpmatchSkip ncase (p.headD 0) (s ++ 0 :: tail)) with
      | none => false
      | some q => (xpmatchPlaces q).any fun q => xpmatch ncase fuel p q) = true ↔ s ∈ globLang (.star :: g) := by
  have hplaces : ∀ r : List Byte, 0 ∉ r → (((xpmatchPlaces (r ++ 0 :: tail)).any fun q => xpmatch ncase fuel p q) = true ↔
      r ∈ globLang (.star :: g)) := by
    intro r hr
    rw [List.any_eq_true, mem_globLang_star]
    constructor
    · rintro ⟨t, ht, hmatch⟩
      obtain ⟨u, hu, rfl⟩ := (mem_xpmatchPlaces hr).mp ht
      exact ⟨u, hu, (ih u fun h => hr (hu.subset h)).mp hmatch⟩
    · rintro ⟨u, hu, hmem⟩
      exact ⟨_, (mem_xpmatchPlaces hr).mpr ⟨u, hu, rfl⟩, (ih u fun h => hr (hu.subset h)).mpr hmem⟩
  by_cases hspecial : specialChar (p.headD 0) = true
  · rw [if_pos hspecial]
    exact hplaces s hs
  · rw [if_neg hspecial, xpmatchSkip_eq _ hs]
    obtain _ | ⟨c, p⟩ := p
    · -- the star ends the pattern
      rw [if_pos (.inl rfl)]
      dsimp only
      rw [hplaces _ fun h => hs ((List.dropWhile_suffix _).subset h)]
      have hnil : g = [] := by
        cases fuel with
        | zero => contradiction
        | succ fuel => exact (Option.some.inj hg).symm
      rw [hnil, mem_globLang_star, mem_globLang_star]
      exact ⟨fun _ => ⟨[], List.nil_suffix, mem_globLang_nil.mpr rfl⟩,
        fun _ => ⟨[], List.nil_suffix, mem_globLang_nil.mpr rfl⟩⟩
    · rw [List.headD_cons] at hspecial ⊢
      have hc : c ≠ 0 := fun h => hp (h ▸ List.mem_cons_self)
      obtain ⟨g', rfl⟩ : ∃ g', g = .one (plainChar ncase c) :: g' := by
        cases fuel with
        | zero => contradiction
        | succ fuel =>
          simp only [specialChar, Bool.or_eq_true, beq_iff_eq, not_or] at hspecial
          obtain ⟨⟨⟨h92, h63⟩, h42⟩, h91⟩ := hspecial
          rw [globOf] at hg
          dsimp only at hg
          rw [if_neg h92, if_neg h63, if_neg h42, if_neg h91] at hg
          obtain ⟨g', -, hg⟩ := Option.map_eq_some_iff.mp hg
          exact ⟨g', hg.symm⟩
      by_cases hfound : ∃ d ∈ s, plainChar ncase c d = true
      · rw [if_pos (.inr hfound)]
        dsimp only
        rw [hplaces _ fun h => hs ((List.dropWhile_suffix _).subset h)]
        exact mem_globLang_skip.symm
      · rw [if_neg (not_or.mpr ⟨hc, hfound⟩)]
        dsimp only
        refine ⟨fun h => absurd h (by decide), fun hmem => absurd hmem (not_mem_globLang_skip fun d hd => ?_)⟩
        exact Bool.eq_false_iff.mpr fun h => hfound ⟨d, hd, h⟩

/-- No token takes the NUL that ends a string. -/
def NulFree (g : List (Glob Byte)) : Prop := ∀ pr, Glob.one pr ∈ g → pr 0 = false

theorem NulFree.rest {t : Glob Byte} (h : NulFree (t :: g)) : NulFree g :=
  fun pr hpr => h pr (List.mem_cons_of_mem t hpr)

/-- The matcher in memory decides the language of its pattern. -/
theorem xpmatch_iff {fuel : ℕ} (hp : 0 ∉ p) (hs : 0 ∉ s) (hg : globOf ncase fuel p = some g)
    (hnul : NulFree g) : xpmatch ncase fuel p (s ++ 0 :: tail) = true ↔ s ∈ globLang g := by
  induction fuel generalizing p s g with
  | zero => contradiction
  | succ fuel ih =>
    cases p with
    | nil =>
      obtain rfl := Option.some.inj hg
      rw [mem_globLang_nil, xpmatch, decide_eq_true_eq]
      cases s with
      | nil => simp
      | cons d r => simpa using fun h : d = 0 => hs (h ▸ List.mem_cons_self)
    | cons c p =>
      have hc : c ≠ 0 := fun h => hp (h ▸ List.mem_cons_self)
      have hp' : 0 ∉ p := fun h => hp (List.mem_cons_of_mem c h)
      have plain : ∀ g, (globOf ncase fuel p).map (.one (plainChar ncase c) :: ·) = some g → NulFree g →
          ((plainChar ncase c ((s ++ 0 :: tail).headD 0) && xpmatch ncase fuel p ((s ++ 0 :: tail).drop 1)) = true ↔
            s ∈ globLang g) := by
        intro g hg hnul
        obtain ⟨g', hg', rfl⟩ := Option.map_eq_some_iff.mp hg
        exact token_step (plainChar_zero hc) hs fun r hr => ih hp' hr hg' hnul.rest
      rw [globOf] at hg
      rw [xpmatch]
      dsimp only at hg ⊢
      by_cases h92 : c = 92
      · rw [if_pos h92] at hg ⊢
        cases p with
        | nil => contradiction
        | cons d p =>
          rw [if_neg (List.cons_ne_nil d p)] at hg
          obtain ⟨g', hg', rfl⟩ := Option.map_eq_some_iff.mp hg
          have hd : d ≠ 0 := fun h => hp' (h ▸ List.mem_cons_self)
          exact token_step (f := (· == d)) (by simpa using hd.symm) hs fun r hr =>
            ih (fun h => hp' (List.mem_cons_of_mem d h)) hr hg' hnul.rest
      rw [if_neg h92] at hg ⊢
      by_cases h63 : c = 63
      · rw [if_pos h63] at hg ⊢
        obtain ⟨g', hg', rfl⟩ := Option.map_eq_some_iff.mp hg
        exact token_step (f := (· != 0)) rfl hs fun r hr => ih hp' hr hg' hnul.rest
      rw [if_neg h63] at hg ⊢
      by_cases h42 : c = 42
      · rw [if_pos h42] at hg ⊢
        obtain ⟨g', hg', rfl⟩ := Option.map_eq_some_iff.mp hg
        exact star_step hs hp' hg' fun r hr => ih hp' hr hg' hnul.rest
      rw [if_neg h42] at hg ⊢
      by_cases h91 : c = 91
      · rw [if_pos h91] at hg ⊢
        have hrest := xpmatchClass_behind p
        generalize (if p.headD 0 = 33 then p.drop 1 else p) = body at hg hrest ⊢
        by_cases hclosed : xpmatchClosed (p.length + 1) body = true
        · rw [if_pos hclosed] at hg ⊢
          obtain ⟨g', hg', rfl⟩ := Option.map_eq_some_iff.mp hg
          have hstep := token_step (f := fun chr => (xpmatchClass (p.length + 1) chr (body.headD 0) (body.drop 1)
            false).1 != decide (p.headD 0 = 33)) (hnul _ List.mem_cons_self) hs fun r hr =>
              ih (fun h => hp' (hrest.subset h)) hr hg' hnul.rest
          rw [xpmatchClass_rest (p.length + 1) _ 0 _ _ _ false, ← hstep, Bool.and_eq_true, bne_iff_ne]
          split_ifs with hin
          · exact ⟨fun h => absurd h (by decide), fun h => absurd hin h.1⟩
          · exact (and_iff_right hin).symm
        · rw [if_neg hclosed] at hg ⊢
          exact plain g hg hnul
      · rw [if_neg h91] at hg ⊢
        exact plain g hg hnul

/-! ### The plain matcher -/

/-- The matcher on the string alone decides the same language. -/
theorem xpmatchFuel_language {fuel : ℕ} (hp : 0 ∉ p) (hs : 0 ∉ s) (hg : globOf ncase fuel p = some g)
    (hnul : NulFree g) : xpmatchFuel ncase fuel p s = true ↔ s ∈ globLang g := by
  induction fuel generalizing p s g with
  | zero => contradiction
  | succ fuel ih =>
    cases p with
    | nil =>
      obtain rfl := Option.some.inj hg
      rw [mem_globLang_nil, xpmatchFuel, decide_eq_true_eq]
    | cons c p =>
      have hp' : 0 ∉ p := fun h => hp (List.mem_cons_of_mem c h)
      rw [globOf] at hg
      rw [xpmatchFuel.eq_def]
      dsimp only at hg ⊢
      by_cases h92 : c = 92
      · rw [if_pos h92] at hg ⊢
        cases p with
        | nil => contradiction
        | cons e p =>
          rw [if_neg (List.cons_ne_nil e p)] at hg
          obtain ⟨g', hg', rfl⟩ := Option.map_eq_some_iff.mp hg
          cases s with
          | nil => exact iff_of_false Bool.false_ne_true nil_not_mem_globLang_one
          | cons d r =>
            have hr := ih (fun h => hp' (List.mem_cons_of_mem e h)) (fun h => hs (List.mem_cons_of_mem d h)) hg' hnul.rest
            rw [cons_mem_globLang_one, ← hr, beq_iff_eq]
            simp
      rw [if_neg h92] at hg ⊢
      by_cases h63 : c = 63
      · rw [if_pos h63] at hg ⊢
        obtain ⟨g', hg', rfl⟩ := Option.map_eq_some_iff.mp hg
        cases s with
        | nil => exact iff_of_false Bool.false_ne_true nil_not_mem_globLang_one
        | cons d r =>
          have hd : d ≠ 0 := fun h => hs (h ▸ List.mem_cons_self)
          rw [cons_mem_globLang_one, ← ih hp' (fun h => hs (List.mem_cons_of_mem d h)) hg' hnul.rest]
          exact (and_iff_right (bne_iff_ne.mpr hd)).symm
      rw [if_neg h63] at hg ⊢
      by_cases h42 : c = 42
      · rw [if_pos h42] at hg ⊢
        obtain ⟨g', hg', rfl⟩ := Option.map_eq_some_iff.mp hg
        rw [mem_globLang_star, List.any_eq_true]
        constructor
        · rintro ⟨t, ht, hmatch⟩
          have hsuffix := (List.mem_tails _ _).mp ht
          exact ⟨t, hsuffix, (ih hp' (fun h => hs (hsuffix.subset h)) hg' hnul.rest).mp hmatch⟩
        · rintro ⟨t, ht, hmem⟩
          exact ⟨t, (List.mem_tails _ _).mpr ht, (ih hp' (fun h => hs (ht.subset h)) hg' hnul.rest).mpr hmem⟩
      rw [if_neg h42] at hg ⊢
      by_cases hclass : c = 91 ∧ xpmatchClosed (p.length + 1) (if p.headD 0 = 33 then p.drop 1 else p) = true
      · obtain ⟨h91, hclosed⟩ := hclass
        rw [if_pos h91] at hg ⊢
        have hrest := xpmatchClass_behind p
        generalize (if p.headD 0 = 33 then p.drop 1 else p) = body at hg hclosed hrest ⊢
        rw [if_pos hclosed] at hg ⊢
        obtain ⟨g', hg', rfl⟩ := Option.map_eq_some_iff.mp hg
        rw [xpmatchClass_rest (p.length + 1) _ 0 _ _ _ false]
        cases s with
        | nil =>
          have hzero := hnul _ List.mem_cons_self
          rw [bne_eq_false_iff_eq] at hzero
          rw [List.headD_nil, if_pos hzero]
          exact iff_of_false Bool.false_ne_true nil_not_mem_globLang_one
        | cons d r =>
          rw [cons_mem_globLang_one, ← ih (fun h => hp' (hrest.subset h))
            (fun h => hs (List.mem_cons_of_mem d h)) hg' hnul.rest, bne_iff_ne, List.headD_cons,
            List.drop_succ_cons, List.drop_zero]
          by_cases hin : (xpmatchClass (p.length + 1) d (body.headD 0) (body.drop 1) false).1 =
            decide (p.headD 0 = 33)
          · rw [if_pos hin]
            exact ⟨fun h => absurd h (by decide), fun h => absurd hin h.1⟩
          · rw [if_neg hin]
            exact (and_iff_right hin).symm
      · -- a character that stands for itself
        have hplain : (globOf ncase fuel p).map (.one (plainChar ncase c) :: ·) = some g := by
          by_cases h91 : c = 91
          · rwa [if_pos h91, if_neg fun h => hclass ⟨h91, h⟩] at hg
          · rwa [if_neg h91] at hg
        obtain ⟨g', hg', rfl⟩ := Option.map_eq_some_iff.mp hplain
        cases s with
        | nil =>
          refine iff_of_false ?_ nil_not_mem_globLang_one
          by_cases h91 : c = 91
          · rw [if_pos h91, if_neg fun h => hclass ⟨h91, h⟩]
            exact Bool.false_ne_true
          · rw [if_neg h91]
            exact Bool.false_ne_true
        | cons d r =>
          rw [cons_mem_globLang_one, ← ih hp' (fun h => hs (List.mem_cons_of_mem d h)) hg' hnul.rest,
            ← Bool.and_eq_true]
          by_cases h91 : c = 91
          · rw [if_pos h91, if_neg fun h => hclass ⟨h91, h⟩]
            exact Iff.rfl
          · rw [if_neg h91]
            exact Iff.rfl

/-- **`xpmatch` decides the language of its pattern**, whatever stands behind the string, where no token
of the pattern takes the NUL; and the search behind a `*` finds what trying every place finds. -/
theorem xpmatch_language (fuel : ℕ) (p s tail : List Byte) (hp : 0 ∉ p) (hs : 0 ∉ s)
    (hg : globOf ncase fuel p = some g) (hnul : NulFree g) :
    (xpmatch ncase fuel p (s ++ 0 :: tail) = true ↔ s ∈ globLang g) ∧
      xpmatch ncase fuel p (s ++ 0 :: tail) = xpmatchFuel ncase fuel p s := by
  have hmem : xpmatch ncase fuel p (s ++ 0 :: tail) = true ↔ s ∈ globLang g := xpmatch_iff hp hs hg hnul
  refine ⟨hmem, ?_⟩
  rw [Bool.eq_iff_iff, hmem]
  exact (xpmatchFuel_language hp hs hg hnul).symm

/-- The tokens of a class and a star. -/
def classTokens : List (Glob Byte) :=
  [.one (fun chr => (xpmatchClass 5 chr 97 (str "b]*") false).1 != false), .star]

theorem xpmatch_language_class : xpmatch true 6 (str "[ab]*") (str "bc" ++ 0 :: str "xyz") = true ↔
    str "bc" ∈ globLang classTokens := by
  refine (xpmatch_language (g := classTokens) 6 (str "[ab]*") (str "bc") (str "xyz") (by decide) (by decide) rfl
    fun f hf => ?_).1
  simp only [classTokens, List.mem_cons, Glob.one.injEq, List.not_mem_nil, or_false, reduceCtorEq] at hf
  rw [hf]
  rfl

/-! ### `wildmatch` -/

/-- The token that a character of a mask is, where there are no brackets and backslashes. -/
def maskToken (c : Byte) : Glob Byte :=
  if c = 42 then .star else if c = 63 then .one (· != 0) else .one (plainChar true c)

/-- A mask without brackets and backslashes is read character by character. -/
theorem globOf_mask {fuel : ℕ} (hfuel : p.length < fuel) (hplain : 91 ∉ p ∧ 92 ∉ p) :
    globOf true fuel p = some (p.map maskToken) := by
  induction fuel generalizing p with
  | zero => contradiction
  | succ fuel ih =>
    cases p with
    | nil => rfl
    | cons c p =>
      have h91 : c ≠ 91 := fun h => hplain.1 (h ▸ List.mem_cons_self)
      have h92 : c ≠ 92 := fun h => hplain.2 (h ▸ List.mem_cons_self)
      have hrest := ih (Nat.lt_of_succ_lt_succ hfuel) ⟨fun h => hplain.1 (List.mem_cons_of_mem c h),
        fun h => hplain.2 (List.mem_cons_of_mem c h)⟩
      rw [globOf, hrest, List.map_cons, maskToken]
      dsimp only
      rw [if_neg h92, if_neg h91]
      by_cases h42 : c = 42
      · rw [if_neg (by rw [h42]; decide), if_pos h42, if_pos h42]
        rfl
      · rw [if_neg h42, if_neg h42]
        split_ifs <;> rfl

theorem mask_nulFree (hp : 0 ∉ p) : NulFree (p.map maskToken) := by
  intro f hf
  obtain ⟨c, hc, heq⟩ := List.mem_map.mp hf
  have hzero : c ≠ 0 := fun h => hp (h ▸ hc)
  unfold maskToken at heq
  split_ifs at heq
  · obtain rfl := Glob.one.inj heq
    rfl
  · obtain rfl := Glob.one.inj heq
    exact plainChar_zero hzero

/-- A mask takes the empty string exactly if it is made of stars. -/
theorem nil_mem_mask : [] ∈ globLang (p.map maskToken) ↔ (p.all (· == 42)) = true := by
  induction p with
  | nil => exact ⟨fun _ => rfl, fun _ => mem_globLang_nil.mpr rfl⟩
  | cons c p ih =>
    rw [List.map_cons, List.all_cons, Bool.and_eq_true, beq_iff_eq, ← ih, maskToken]
    split_ifs with hstar
    · rw [mem_globLang_star]
      constructor
      · rintro ⟨t, ht, hmem⟩
        obtain rfl := List.suffix_nil.mp ht
        exact ⟨hstar, hmem⟩
      · rintro ⟨-, hmem⟩
        exact ⟨[], List.suffix_rfl, hmem⟩
    · refine ⟨fun hmem => ?_, fun h => absurd h.1 hstar⟩
      obtain ⟨_, _, hnil, -⟩ := mem_globLang_one.mp hmem
      exact absurd hnil (by simp)
    · refine ⟨fun hmem => ?_, fun h => absurd h.1 hstar⟩
      obtain ⟨_, _, hnil, -⟩ := mem_globLang_one.mp hmem
      exact absurd hnil (by simp)

/-- `wildmatch` decides the language of its mask. -/
theorem wildmatch_language (hs : 0 ∉ s) : wildmatch p s = true ↔ s ∈ globLang (p.map maskToken) := by
  induction p generalizing s with
  | nil =>
    rw [wildmatch, decide_eq_true_eq]
    exact mem_globLang_nil.symm
  | cons c p ih =>
    rw [wildmatch.eq_def, List.map_cons, maskToken]
    dsimp only
    by_cases hstar : c = 42
    · rw [if_pos hstar, if_pos hstar, mem_globLang_star]
      by_cases hall : (p.all (· == 42)) = true
      · rw [if_pos hall]
        exact ⟨fun _ => ⟨[], List.nil_suffix, nil_mem_mask.mpr hall⟩, fun _ => rfl⟩
      · rw [if_neg hall, List.any_eq_true]
        constructor
        · rintro ⟨t, ht, hmatch⟩
          have hsuffix := (List.mem_tails _ _).mp ht
          rw [Bool.and_eq_true] at hmatch
          exact ⟨t, hsuffix, (ih fun h => hs (hsuffix.subset h)).mp hmatch.2⟩
        · rintro ⟨t, ht, hmem⟩
          refine ⟨t, (List.mem_tails _ _).mpr ht, ?_⟩
          -- what does not end in stars alone takes a character
          have hne : t ≠ [] := fun hnil => hall (nil_mem_mask.mp (hnil ▸ hmem))
          rw [Bool.and_eq_true]
          exact ⟨by simpa using hne, (ih fun h => hs (ht.subset h)).mpr hmem⟩
    · rw [if_neg hstar, if_neg hstar]
      cases s with
      | nil =>
        refine iff_of_false Bool.false_ne_true ?_
        split_ifs
        · exact nil_not_mem_globLang_one
        · exact nil_not_mem_globLang_one
      | cons d r =>
        have hd : d ≠ 0 := fun h => hs (h ▸ List.mem_cons_self)
        have hr := ih (s := r) fun h => hs (List.mem_cons_of_mem d h)
        dsimp only
        rw [Bool.and_eq_true, decide_eq_true_eq, hr]
        split_ifs with hany
        · rw [cons_mem_globLang_one]
          exact and_congr_left fun _ => iff_of_true (.inl hany) (bne_iff_ne.mpr hd)
        · rw [cons_mem_globLang_one, plainChar_iff]
          refine and_congr_left fun _ => ⟨fun h => .inr ⟨rfl, (h.resolve_left hany).symm⟩, ?_⟩
          rintro (rfl | ⟨-, h⟩)
          · exact .inr rfl
          · exact .inr h.symm

/-- **The two matchers agree** on masks without brackets and backslashes. -/
theorem wildmatch_agrees (pat name : Str) (hpat : 0 ∉ pat ∧ 91 ∉ pat ∧ 92 ∉ pat) (hname : 0 ∉ name) :
    wildmatch pat name = pmatchNcase pat name := by
  have hg := globOf_mask (Nat.lt_succ_self pat.length) hpat.2
  rw [Bool.eq_iff_iff, wildmatch_language hname]
  exact (xpmatchFuel_language hpat.1 hname hg (mask_nulFree hpat.1)).symm

theorem wildmatch_agrees_mask : wildmatch (str "*.su?") (str "MAIL.Su0") = pmatchNcase (str "*.su?") (str "MAIL.Su0") :=
  wildmatch_agrees (str "*.su?") (str "MAIL.Su0") (by decide) (by decide)

end Binkd
