import Binkd.EditLine
import Binkd.HeaderLine
import Binkd.Srif

/-!
# The command of an event (`run_args` of `srif.c`)

The placeholders of a template are replaced one kind after the other in the whole command
line, and the search goes on behind what has been brought in.  The command is the template
with its own placeholders replaced, where no star of the template forms one together with
what stands behind it (`run_args_right`).
-/

namespace Binkd

/-! ### The parts of a template -/

/-- A placeholder of a template: its text, the pattern that is searched for, and what it stands for. -/
structure Placeholder where
  text : Str
  pattern : Str
  value : Str
  isFile : Bool
deriving DecidableEq

inductive CmdPart
  | lit (c : Byte)
  | hole (h : Placeholder)
deriving DecidableEq

/-- The parts of a template from left to right; the bytes of a placeholder that has been found are
skipped. -/
def cmdParts (s : State) (fn pn : Str) : ℕ → Str → List CmdPart
  | _, [] => []
  | k + 1, _ :: r => cmdParts s fn pn k r
  | 0, c :: r =>
    if c = 42 then
      match runPlaceholder s fn pn (c :: r) with
      | some (a, b, isFn) =>
        .hole ⟨(c :: r).take a.length, a, b, isFn⟩ :: cmdParts s fn pn (a.length - 1) r
      | none => .lit c :: cmdParts s fn pn 0 r
    else .lit c :: cmdParts s fn pn 0 r

/-- A part with the placeholders of some patterns replaced. -/
def CmdPart.render (done : Str → Bool) : CmdPart → Str
  | .lit c => [c]
  | .hole h => if done h.pattern then h.value else h.text

/-- A template with the placeholders of some patterns replaced. -/
def render (done : Str → Bool) (parts : List CmdPart) : Str := parts.flatMap (·.render done)

/-- The template with its placeholders, and nothing else, replaced. -/
def expanded (parts : List CmdPart) : Str := render (fun _ => true) parts

/-- The placeholders of a template. -/
def holes (parts : List CmdPart) : List Placeholder := parts.filterMap fun
  | .lit _ => none
  | .hole h => some h

/-- The patterns are the same in any case. -/
def samePattern (a a' : Str) : Bool := a.map tolower = a'.map tolower

/-- The patterns that come before. -/
def doneBy (before : List CmdPart) (a : Str) : Bool :=
    (holes before).any fun h => samePattern h.pattern a

/-- The pattern stands at the beginning. -/
def StandsFirst (a w : Str) : Prop := samePattern a (w.take a.length) = true

instance decidableStandsFirst (a w : Str) : Decidable (StandsFirst a w) :=
    inferInstanceAs (Decidable (_ = true))

/-! ### What a placeholder looks like -/

/-- Two bytes, or three for an address, unless the template ends with it. -/
inductive Shaped (s : State) (fn pn : Str) (h : Placeholder) : List CmdPart → Prop
  | two {x : Byte} {rest : List CmdPart} (hx : toupper x ≠ 65) (hc : x ≠ 42) (htext : h.text = [42, x])
      (hpattern : h.pattern = [42, toupper x])
      (hrun : ∀ y, runPlaceholder s fn pn (42 :: x :: y) = some (h.pattern, h.value, h.isFile)) :
      Shaped s fn pn h rest
  | last {x : Byte} (hx : toupper x = 65) (htext : h.text = [42, x]) (hpattern : h.pattern = [42, 65])
      (hrun : runPlaceholder s fn pn [42, x] = some (h.pattern, h.value, h.isFile)) : Shaped s fn pn h []
  | three {x d : Byte} {rest : List CmdPart} (hx : toupper x = 65) (htext : h.text = [42, x, d])
      (hpattern : h.pattern = [42, 65, d])
      (hrun : ∀ y, runPlaceholder s fn pn (42 :: x :: d :: y) = some (h.pattern, h.value, h.isFile)) :
      Shaped s fn pn h rest

/-- Each placeholder among the parts has its shape. -/
inductive WellShaped (s : State) (fn pn : Str) : List CmdPart → Prop
  | nil : WellShaped s fn pn []
  | lit {c : Byte} {rest : List CmdPart} (h : WellShaped s fn pn rest) :
  WellShaped s fn pn (.lit c :: rest)
  | hole {h : Placeholder} {rest : List CmdPart} (hshape : Shaped s fn pn h rest) (hrest : WellShaped s fn pn rest) :
      WellShaped s fn pn (.hole h :: rest)

variable {s : State} {fn pn w a b p : Str} {c d x : Byte} {isFn : Bool} {parts before rest : List CmdPart} {h h' : Placeholder}
  {done : Str → Bool}

theorem placeholder_two (hx : toupper x ≠ 65) (y : Str) : runPlaceholder s fn pn (42 :: x :: y) =
    runPlaceholder s fn pn [42, x] := by
  unfold runPlaceholder
  simp only [List.getD_cons_succ, List.getD_cons_zero, hx, if_false]

theorem pattern_two (hx : toupper x ≠ 65) (hrun : runPlaceholder s fn pn [42, x] = some (a, b, isFn)) :
    a = [42, toupper x] := by
  unfold runPlaceholder at hrun
  simp only [List.getD_cons_succ, List.getD_cons_zero, hx, if_false] at hrun
  have hletter : ∀ {l : Byte} {b' : Str} {f : Bool}, toupper x = l →
    some ([42, l], b', f) = some (a, b, isFn) →
      a = [42, toupper x] := by
    intro l b' f hl heq
    rw [hl, (Prod.mk.inj (Option.some.inj heq)).1]
  split_ifs at hrun <;> exact hletter ‹toupper x = _› hrun

theorem pattern_three (hx : toupper x = 65) (y : Str)
    (hrun : runPlaceholder s fn pn (42 :: x :: y) = some (a, b, isFn)) :
    a = cstr [42, 65, y.headD 0] := by
  have hd : (42 :: x :: y).getD 2 0 = y.headD 0 := by cases y <;> rfl
  unfold runPlaceholder at hrun
  rw [hd] at hrun
  simp only [List.getD_cons_succ, List.getD_cons_zero, hx] at hrun
  rw [if_neg (by decide), if_neg (by decide), if_pos trivial] at hrun
  split_ifs at hrun with h1
  · rw [← (Prod.mk.inj (Option.some.inj hrun)).1]
    rcases h1 with h1 | h1 <;> rw [h1] <;> rfl
  · exact (Prod.mk.inj (Option.some.inj hrun)).1.symm
  · exact (Prod.mk.inj (Option.some.inj hrun)).1.symm

theorem cstr_three (d : Byte) : cstr [42, 65, d] = if d = 0 then [42, 65] else [42, 65, d] := by
  unfold cstr
  rw [List.takeWhile_cons_of_pos (by decide), List.takeWhile_cons_of_pos (by decide)]
  split_ifs with hd
  · rw [hd]
    rfl
  · rw [List.takeWhile_cons_of_pos (by simpa using hd)]
    rfl

theorem pattern_ne_nil {sp : Str} (hrun : runPlaceholder s fn pn sp = some (a, b, isFn)) : a ≠ [] := by
  unfold runPlaceholder at hrun
  dsimp only at hrun
  split_ifs at hrun <;> rw [← (Prod.mk.inj (Option.some.inj hrun)).1] <;> exact List.cons_ne_nil _ _

theorem cmdParts_skip : ∀ (w : Str) (k : ℕ), cmdParts s fn pn k w = cmdParts s fn pn 0 (w.drop k) := by
  intro w
  induction w with
  | nil =>
    intro k
    cases k <;> rfl
  | cons c w ih =>
    intro k
    cases k with
    | zero => rfl
    | succ k => exact ih k

/-- A placeholder that is found has one of the shapes, and the parts go on behind it. -/
theorem shaped_of_run {r : Str} (hnul : 0 ∉ r)
    (hrun : runPlaceholder s fn pn (42 :: r) = some (a, b, isFn)) :
    Shaped s fn pn ⟨(42 :: r).take a.length, a, b, isFn⟩
    (cmdParts s fn pn 0 (r.drop (a.length - 1))) := by
  cases r with
  | nil => exact absurd hrun (by simp [runPlaceholder, toupper, islower])
  | cons x y =>
    by_cases hx : toupper x = 65
    · have hpattern := pattern_three hx y hrun
      rw [cstr_three] at hpattern
      cases y with
      | nil =>
        rw [List.headD_nil, if_pos rfl] at hpattern
        subst hpattern
        exact .last hx rfl rfl hrun
      | cons d y =>
        have hd : d ≠ 0 := by
          rintro rfl
          simp at hnul
        rw [List.headD_cons, if_neg hd] at hpattern
        subst hpattern
        exact .three hx rfl rfl fun y' => hrun
    · rw [placeholder_two hx] at hrun
      have hpattern := pattern_two hx hrun
      subst hpattern
      refine .two hx ?_ rfl rfl fun y' => (placeholder_two hx y').trans hrun
      rintro rfl
      simp [runPlaceholder, toupper, islower] at hrun

theorem cmdParts_shaped : ∀ (n : ℕ) (w : Str), w.length ≤ n → 0 ∉ w →
    WellShaped s fn pn (cmdParts s fn pn 0 w) := by
  intro n
  induction n with
  | zero =>
    intro w hlen _
    rw [List.length_eq_zero_iff.mp (Nat.le_zero.mp hlen)]
    exact .nil
  | succ n ih =>
    intro w hlen hnul
    cases w with
    | nil => exact .nil
    | cons c r =>
      rw [List.length_cons] at hlen
      have hr : 0 ∉ r := fun h0 => hnul (List.mem_cons_of_mem c h0)
      rw [cmdParts]
      by_cases hc : c = 42
      · rw [if_pos hc]
        subst hc
        cases hrun : runPlaceholder s fn pn (42 :: r) with
        | none => exact .lit (ih r (by omega) hr)
        | some e =>
          obtain ⟨a, b, isFn⟩ := e
          dsimp only
          rw [cmdParts_skip]
          refine .hole (shaped_of_run hr hrun) (ih _ ?_ fun h0 => hr (List.mem_of_mem_drop h0))
          rw [List.length_drop]
          omega
      · rw [if_neg hc]
        exact .lit (ih r (by omega) hr)

/-- Nothing replaced, the parts are the template. -/
theorem render_none : ∀ (n : ℕ) (w : Str), w.length ≤ n →
    render (fun _ => false) (cmdParts s fn pn 0 w) = w := by
  intro n
  induction n with
  | zero =>
    intro w hlen
    rw [List.length_eq_zero_iff.mp (Nat.le_zero.mp hlen)]
    rfl
  | succ n ih =>
    intro w hlen
    cases w with
    | nil => rfl
    | cons c r =>
      rw [List.length_cons] at hlen
      rw [cmdParts]
      by_cases hc : c = 42
      · rw [if_pos hc]
        cases hrun : runPlaceholder s fn pn (c :: r) with
        | none => exact congrArg (c :: ·) (ih r (by omega))
        | some e =>
          obtain ⟨a, b, isFn⟩ := e
          dsimp only
          rw [cmdParts_skip]
          have hrest := ih (r.drop (a.length - 1)) (by rw [List.length_drop]; omega)
          have hpos : a ≠ [] := pattern_ne_nil hrun
          obtain ⟨k, hk⟩ := Nat.exists_eq_succ_of_ne_zero (List.length_pos_iff.mpr hpos).ne'
          have htake : (c :: r).take a.length ++ r.drop (a.length - 1) = c :: r := by
            rw [hk, Nat.succ_sub_one, Nat.succ_eq_add_one, List.take_succ_cons, List.cons_append,
              List.take_append_drop]
          unfold render at hrest ⊢
          rw [List.flatMap_cons, hrest]
          exact htake
      · rw [if_neg hc]
        exact congrArg (c :: ·) (ih r (by omega))

/-! ### What a star may form -/

/-- A star that begins no placeholder that is left: one of the template, or the last byte of `*A*`. -/
def CmdPart.looseStar (done : Str → Bool) (p : Str) : CmdPart → Bool
  | .lit c => c = 42
  | .hole h => h.pattern = str "*A*" && !done h.pattern && !samePattern p h.pattern

/-- No such star reads, with what stands behind it, as the pattern. -/
def unformed (done : Str → Bool) (p : Str) : List CmdPart → Bool
  | [] => true
  | part :: rest => !(part.looseStar done p && decide (StandsFirst p (42 :: render done rest))) && unformed done p rest

/-- From left to right: where a placeholder is replaced, nothing else reads as it, and a star of the
template is no placeholder with what stands behind it by then. -/
def formsNothing (s : State) (fn pn : Str) (before : List CmdPart) : List CmdPart → Bool
  | [] => true
  | .lit c :: rest =>
    (c ≠ 42 || (runPlaceholder s fn pn (42 :: render (doneBy before) rest)).isNone) &&
      formsNothing s fn pn (before ++ [.lit c]) rest
  | .hole h :: rest =>
    (doneBy before h.pattern || unformed (doneBy before) h.pattern (before ++ .hole h :: rest)) &&
      formsNothing s fn pn (before ++ [.hole h]) rest

variable {v t r : Str}

/-! ### Bytes in any case -/

theorem tolower_toupper (x : Byte) : tolower (toupper x) = tolower x := by
  revert x
  apply forall_byte
  decide +kernel

theorem tolower_star (c : Byte) : tolower c = 42 ↔ c = 42 := by
  revert c
  apply forall_byte
  decide +kernel

theorem tolower_a (x : Byte) : tolower x = 97 ↔ toupper x = 65 := by
  revert x
  apply forall_byte
  decide +kernel

theorem samePattern_iff : samePattern a b = true ↔ a.map tolower = b.map tolower := decide_eq_true_iff

/-! ### Replacing one pattern -/

theorem replaced_miss (hno : ¬ StandsFirst p (c :: t)) (h : Replaced p v t r) :
    Replaced p v (c :: t) (c :: r) := by
  refine .miss c t r (fun q t' heq hq => hno ?_) h
  have hlen := hq.length
  rw [StandsFirst, heq, ← hlen, List.take_left]
  exact samePattern_iff.mpr hq.symm

/-- A pattern begins with a star. -/
theorem not_begins (hc : c ≠ 42) : ¬ StandsFirst (42 :: p) (c :: t) := by
  intro hb
  have hmap := samePattern_iff.mp hb
  rw [List.length_cons, List.take_succ_cons, List.map_cons, List.map_cons] at hmap
  exact hc ((tolower_star c).mp (List.cons.inj hmap).1.symm)

theorem replaced_block (hp : p.head? = some 42) : ∀ b : Str, 42 ∉ b → Replaced p v t r →
    Replaced p v (b ++ t) (b ++ r) := by
  obtain ⟨p', rfl⟩ : ∃ p', p = 42 :: p' := by
    cases p with
    | nil => contradiction
    | cons c p' => exact ⟨p', by rw [Option.some.inj hp]⟩
  intro b
  induction b with
  | nil =>
    intro _ h
    exact h
  | cons c b ih =>
    intro hb h
    have hc : c ≠ 42 := fun h42 => hb (h42 ▸ List.mem_cons_self)
    exact replaced_miss (not_begins hc) (ih (fun hin => hb (List.mem_cons_of_mem c hin)) h)

/-- The text of a placeholder is its pattern in some case. -/
theorem Shaped.text_pattern (h : Shaped s fn pn h' rest) :
    h'.text.map tolower = h'.pattern.map tolower := by
  cases h with
  | two hx hc htext hpattern hrun => rw [htext, hpattern]; simp [tolower_toupper]
  | last hx htext hpattern hrun =>
    rw [htext, hpattern]
    simp only [List.map_cons, List.map_nil, (tolower_a _).mpr hx]
    rfl
  | three hx htext hpattern hrun =>
    rw [htext, hpattern]
    simp only [List.map_cons, List.map_nil, (tolower_a _).mpr hx]
    rfl

theorem Shaped.head (h : Shaped s fn pn h' rest) : h'.pattern.head? = some 42 := by
  cases h with
  | two hx hc htext hpattern hrun => rw [hpattern]; rfl
  | last hx htext hpattern hrun => rw [hpattern]; rfl
  | three hx htext hpattern hrun => rw [hpattern]; rfl

/-- A pattern is not found at the beginning of another placeholder, but for `*A` itself. -/
theorem not_begins_other (done : Str → Bool) {rest' : List CmdPart} (hp : Shaped s fn pn h rest')
    (hlast : h.pattern ≠ str "*A")
    (ht : Shaped s fn pn h' rest) (hother : samePattern h.pattern h'.pattern = false) :
    ¬ StandsFirst h.pattern (h'.text ++ render done rest) := by
  intro hb
  refine Bool.eq_false_iff.mp hother (samePattern_iff.mpr ?_)
  rw [← ht.text_pattern]
  have hmap := samePattern_iff.mp hb
  cases hp with
  | @two x _ hx hc htext hpattern hrun =>
    -- the second byte tells that the other one is no address
    rw [hpattern] at hmap ⊢
    cases ht with
    | @two y _ hy hc' htext' hpattern' hrun' =>
      rw [htext'] at hmap ⊢
      exact hmap
    | @last y hy htext' hpattern' hrun' =>
      rw [htext'] at hmap ⊢
      exact hmap
    | @three y d _ hy htext' hpattern' hrun' =>
      rw [htext'] at hmap
      simp only [List.length_cons, List.length_nil, List.cons_append, List.take_succ_cons,
        List.take_zero, List.map_cons,
        List.map_nil, List.cons.injEq, and_true, true_and, tolower_toupper] at hmap
      exact absurd ((tolower_a x).mp (hmap.trans ((tolower_a y).mpr hy))) hx
  | last hx htext hpattern hrun => exact absurd hpattern hlast
  | @three x d _ hx htext hpattern hrun =>
    rw [hpattern] at hmap ⊢
    cases ht with
    | @two y _ hy hc' htext' hpattern' hrun' =>
      rw [htext'] at hmap
      have hsecond := congrArg (fun l => l[1]?) hmap
      simp at hsecond
      exact absurd ((tolower_a y).mp hsecond.symm) hy
    | @last y hy htext' hpattern' hrun' =>
      rw [htext'] at hmap
      have hlen := congrArg List.length hmap
      simp [render] at hlen
    | @three y e _ hy htext' hpattern' hrun' =>
      rw [htext'] at hmap ⊢
      exact hmap

theorem loose_no {part : CmdPart} (h : (!(part.looseStar done p && decide (StandsFirst p w))) = true)
    (hstar : part.looseStar done p = true) : ¬ StandsFirst p w := by
  rw [hstar, Bool.true_and, Bool.not_eq_true'] at h
  exact of_decide_eq_false h

/-- A placeholder of another kind is left as it stands. -/
theorem replaced_other {rest' : List CmdPart} (hp : Shaped s fn pn h rest') (hshape : Shaped s fn pn h' rest)
    (hself : ¬ StandsFirst h.pattern (h'.text ++ t))
    (hall : h'.pattern = str "*A*" → ¬ StandsFirst h.pattern (42 :: t)) (hr : Replaced h.pattern v t r) :
    Replaced h.pattern v (h'.text ++ t) (h'.text ++ r) := by
  obtain ⟨p, hpattern⟩ : ∃ p, h.pattern = 42 :: p := List.head?_eq_some_iff.mp hp.head
  have hbyte : ∀ {c : Byte} {t r : Str}, c ≠ 42 → Replaced h.pattern v t r →
      Replaced h.pattern v (c :: t) (c :: r) := by
    intro c t r hc hr
    refine replaced_miss ?_ hr
    rw [hpattern]
    exact not_begins hc
  have hletter : ∀ {x : Byte}, toupper x = 65 → x ≠ 42 := by
    rintro x hx rfl
    contradiction
  cases hshape with
  | two hx hc htext hpattern' hrun =>
    rw [htext] at hself ⊢
    exact replaced_miss hself (hbyte hc hr)
  | last hx htext hpattern' hrun =>
    rw [htext] at hself ⊢
    exact replaced_miss hself (hbyte (hletter hx) hr)
  | @three x d _ hx htext hpattern' hrun =>
    rw [htext] at hself ⊢
    refine replaced_miss hself (hbyte (hletter hx) ?_)
    -- the star of `*A*` is loose as long as it stands there
    by_cases hd : d = 42
    · subst hd
      exact replaced_miss (hall hpattern') hr
    · exact hbyte hd hr

/-- What `ed` makes of the template with some patterns replaced. -/
theorem render_replaced {rest' : List CmdPart} (hp : Shaped s fn pn h rest') :
    ∀ parts, WellShaped s fn pn parts →
    unformed done h.pattern parts = true →
    (∀ h' ∈ holes parts, samePattern h.pattern h'.pattern = true → h'.value = h.value) →
    (∀ h' ∈ holes parts, 42 ∉ h'.value) →
    (h.pattern = str "*A" → ∀ h' ∈ holes parts, done h'.pattern = false → samePattern h.pattern h'.pattern = true) →
    Replaced h.pattern h.value (render done parts)
    (render (fun a => done a || samePattern h.pattern a) parts) := by
  intro parts
  induction parts with
  | nil =>
    intro _ _ _ _ _
    exact .nil
  | cons part parts ih =>
    intro hw hun hsame hstar hlast
    rw [unformed, Bool.and_eq_true] at hun
    obtain ⟨hloose, hun⟩ := hun
    cases hw with
    | @lit c _ hw =>
      have hrest := ih hw hun hsame hstar hlast
      refine replaced_miss (fun hb => ?_) hrest
      by_cases hc : c = 42
      · subst hc
        exact loose_no hloose rfl hb
      · obtain ⟨p, hp⟩ : ∃ p, h.pattern = 42 :: p := List.head?_eq_some_iff.mp hp.head
        rw [hp] at hb
        exact not_begins hc hb
    | @hole h' _ hshape hw =>
      have hsame' : ∀ h' ∈ holes parts, samePattern h.pattern h'.pattern = true → h'.value = h.value :=
        fun x hx => hsame x (List.mem_cons_of_mem _ hx)
      have hrest := ih hw hun hsame' (fun x hx => hstar x (List.mem_cons_of_mem _ hx))
        fun heq x hx => hlast heq x (List.mem_cons_of_mem _ hx)
      have hmem : h' ∈ holes (.hole h' :: parts) := List.mem_cons_self
      have hcons : ∀ f, render f (.hole h' :: parts) =
      (if f h'.pattern then h'.value else h'.text) ++ render f parts :=
        fun f => rfl
      rw [hcons, hcons]
      cases hdone : done h'.pattern with
      | true => exact replaced_block hp.head _ (hstar h' hmem) hrest
      | false =>
        rw [Bool.false_or, if_neg Bool.false_ne_true]
        cases hother : samePattern h.pattern h'.pattern with
        | true =>
          rw [if_pos rfl, hsame h' hmem hother]
          refine .hit _ _ _ ?_ hrest
          rw [Matches, hshape.text_pattern]
          exact (samePattern_iff.mp hother).symm
        | false =>
          rw [if_neg Bool.false_ne_true]
          have hpa : h.pattern ≠ str "*A" := by
            intro heq
            rw [hlast heq h' hmem hdone] at hother
            contradiction
          refine replaced_other hp hshape (not_begins_other done hp hpa hshape hother) (fun hall => ?_) hrest
          apply loose_no hloose
          rw [CmdPart.looseStar, hall, decide_eq_true rfl, ← hall, hdone, hother]
          rfl

/-! ### Parts that have been replaced -/

theorem render_append (done : Str → Bool) (before rest : List CmdPart) :
    render done (before ++ rest) = render done before ++ render done rest := List.flatMap_append

theorem holes_append (before rest : List CmdPart) :
    holes (before ++ rest) = holes before ++ holes rest :=
  List.filterMap_append

theorem samePattern_refl (a : Str) : samePattern a a = true := samePattern_iff.mpr rfl

theorem doneBy_mem (hmem : h ∈ holes before) : doneBy before h.pattern = true :=
  List.any_eq_true.mpr ⟨h, hmem, samePattern_refl _⟩

theorem doneBy_snoc_lit (before : List CmdPart) (c : Byte) :
    doneBy (before ++ [.lit c]) = doneBy before := by
  funext a
  unfold doneBy
  rw [holes_append]
  exact congrArg (List.any · _) (List.append_nil _)

theorem doneBy_snoc_hole (before : List CmdPart) (h : Placeholder) : doneBy (before ++ [.hole h]) =
    fun a => doneBy before a || samePattern h.pattern a := by
  funext a
  unfold doneBy
  rw [holes_append, List.any_append]
  exact congrArg (_ || ·) (Bool.or_false _)

/-- A placeholder of a kind that has come before adds nothing. -/
theorem doneBy_again (hdone : doneBy before h.pattern = true) :
    doneBy (before ++ [.hole h]) = doneBy before := by
  obtain ⟨h0, hmem, hsame⟩ := List.any_eq_true.mp hdone
  rw [doneBy_snoc_hole]
  funext a
  cases hown : samePattern h.pattern a with
  | false => exact Bool.or_false _
  | true =>
    rw [Bool.or_true]
    exact (List.any_eq_true.mpr ⟨h0, hmem, samePattern_iff.mpr
      ((samePattern_iff.mp hsame).trans (samePattern_iff.mp hown))⟩).symm

/-- Where all are replaced, the parts are expanded. -/
theorem render_done (hdone : ∀ h ∈ holes parts, done h.pattern = true) :
    render done parts = expanded parts := by
  induction parts with
  | nil => rfl
  | cons part parts ih =>
    cases part with
    | lit c => exact congrArg (c :: ·) (ih hdone)
    | hole h =>
      have hrest := ih fun x hx => hdone x (List.mem_cons_of_mem h hx)
      have hcons : ∀ f, render f (.hole h :: parts) =
      (if f h.pattern then h.value else h.text) ++ render f parts :=
        fun f => rfl
      unfold expanded at hrest ⊢
      rw [hcons, hcons, hrest, hdone h List.mem_cons_self]

theorem WellShaped.behind : ∀ before : List CmdPart, WellShaped s fn pn (before ++ rest) →
    WellShaped s fn pn rest := by
  intro before
  induction before with
  | nil => exact fun h => h
  | cons part before ih =>
    intro h
    cases h with
    | lit h => exact ih h
    | hole _ h => exact ih h

theorem WellShaped.shape : ∀ {parts : List CmdPart}, WellShaped s fn pn parts → h ∈ holes parts →
    ∃ rest, Shaped s fn pn h rest := by
  intro parts
  induction parts with
  | nil =>
    intro _ hmem
    exact absurd hmem List.not_mem_nil
  | cons part parts ih =>
    intro hw hmem
    cases hw with
    | lit hw => exact ih hw hmem
    | hole hshape hw =>
      rcases List.mem_cons.mp hmem with rfl | hmem
      · exact ⟨_, hshape⟩
      · exact ih hw hmem

theorem tolower_file (x : Byte) : (tolower x = 110 ∨ tolower x = 102) ↔
    (toupper x = 78 ∨ toupper x = 70) := by
  revert x
  apply forall_byte
  decide +kernel

theorem run_isFile (hrun : runPlaceholder s fn pn (42 :: x :: r) = some (a, b, isFn)) :
    isFn = true ↔ toupper x = 78 ∨ toupper x = 70 := by
  have hflag : ∀ {a' b' : Str} {f : Bool}, some (a', b', f) = some (a, b, isFn) → f = isFn :=
    fun h => (Prod.mk.inj (Prod.mk.inj (Option.some.inj h)).2).2
  unfold runPlaceholder at hrun
  simp only [List.getD_cons_succ, List.getD_cons_zero] at hrun
  by_cases hn : toupper x = 78
  · rw [if_pos hn] at hrun
    exact iff_of_true (hflag hrun).symm (.inl hn)
  · rw [if_neg hn] at hrun
    by_cases hf : toupper x = 70
    · rw [if_pos hf] at hrun
      exact iff_of_true (hflag hrun).symm (.inr hf)
    · rw [if_neg hf] at hrun
      refine iff_of_false ?_ (not_or.mpr ⟨hn, hf⟩)
      split_ifs at hrun <;> rw [← hflag hrun] <;> exact Bool.false_ne_true

/-- Whether a placeholder is the file's name can be told from its text in any case. -/
theorem Shaped.isFile_iff (hs : Shaped s fn pn h rest) :
    h.isFile = true ↔ ((h.text.map tolower).getD 1 0 = 110 ∨ (h.text.map tolower).getD 1 0 = 102) := by
  cases hs with
  | @two x _ hx hc htext hpattern hrun =>
    rw [htext]
    exact (run_isFile (hrun [])).trans (tolower_file x).symm
  | @last x hx htext hpattern hrun =>
    rw [htext]
    exact (run_isFile hrun).trans (tolower_file x).symm
  | @three x d _ hx htext hpattern hrun =>
    rw [htext]
    exact (run_isFile (hrun [])).trans (tolower_file x).symm

theorem isFile_same {rest' : List CmdPart} (hs : Shaped s fn pn h rest) (hs' : Shaped s fn pn h' rest')
    (hsame : samePattern h.pattern h'.pattern = true) (hfile : h'.isFile = true) : h.isFile = true := by
  rw [hs'.isFile_iff, hs'.text_pattern, ← samePattern_iff.mp hsame, ← hs.text_pattern] at hfile
  exact hs.isFile_iff.mpr hfile

/-- Where a placeholder stands, the program finds it. -/
theorem Shaped.run (hs : Shaped s fn pn h rest) (done : Str → Bool) :
    ∃ r, h.text ++ render done rest = 42 :: r ∧
    runPlaceholder s fn pn (42 :: r) = some (h.pattern, h.value, h.isFile) := by
  cases hs with
  | two hx hc htext hpattern hrun => exact ⟨_, by rw [htext]; rfl, hrun _⟩
  | last hx htext hpattern hrun => exact ⟨_, by rw [htext]; rfl, hrun⟩
  | three hx htext hpattern hrun => exact ⟨_, by rw [htext]; rfl, hrun _⟩

/-- `*A` itself is the end of its template. -/
theorem Shaped.last_of (hs : Shaped s fn pn h rest) (hpattern : h.pattern = str "*A") : rest = [] := by
  cases hs with
  | two hx hc htext hpattern' hrun =>
    rw [hpattern'] at hpattern
    have hsecond := congrArg (fun l => l[1]?) hpattern
    exact absurd (Option.some.inj hsecond) hx
  | last hx htext hpattern' hrun => rfl
  | three hx htext hpattern' hrun =>
    rw [hpattern'] at hpattern
    have hlen := congrArg List.length hpattern
    exact absurd hlen (show 3 ≠ 2 by decide)

/-! ### The loop -/

theorem runLoop_skip (hv : 42 ∉ v) : runLoop s fn pn fuel w.length (w ++ (v ++ r)) u =
    runLoop s fn pn fuel (w ++ v).length ((w ++ v) ++ r) u := by
  rw [List.append_assoc]
  cases fuel with
  | zero => rfl
  | succ fuel =>
    have hdrop : (w ++ (v ++ r)).drop (w ++ v).length = r := by
      rw [← List.append_assoc, List.drop_left]
    have hskip : (v ++ r).dropWhile (· != 42) = r.dropWhile (· != 42) := by
      apply List.dropWhile_append_of_pos
      intro c hc
      have hne : c ≠ 42 := fun h42 => hv (h42 ▸ hc)
      simpa using hne
    rw [runLoop, runLoop, List.drop_left, hdrop, hskip]

theorem drop_star (w r : Str) : (((w ++ 42 :: r).drop w.length).dropWhile (· != 42)) = 42 :: r := by
  rw [List.drop_left]
  exact List.dropWhile_cons_of_neg (by decide)

/-- A star that begins no placeholder is passed. -/
theorem runLoop_pass (hrun : runPlaceholder s fn pn (42 :: r) = none) :
    runLoop s fn pn (fuel + 1) w.length (w ++ 42 :: r) u = runLoop s fn pn fuel (w ++ [42]).length
    ((w ++ [42]) ++ r) u := by
  have hlen : (w ++ 42 :: r).length - (42 :: r).length + 1 = (w ++ [42]).length := by
    rw [List.length_append, List.length_append, Nat.add_sub_cancel, List.length_singleton]
  rw [runLoop, drop_star]
  dsimp only
  rw [hrun]
  dsimp only
  rw [hlen, List.append_assoc, List.singleton_append]

/-- A placeholder is replaced, and the loop goes on behind what has been brought in. -/
theorem runLoop_replace (hrun : runPlaceholder s fn pn (42 :: r) = some (a, b, isFn)) (hb : b ≠ [])
    (hstar : 42 ∉ b)
    (hed : ed (w ++ 42 :: r) a b = w ++ (b ++ t)) :
    runLoop s fn pn (fuel + 1) w.length (w ++ 42 :: r) u = runLoop s fn pn fuel (w ++ b).length
    ((w ++ b) ++ t) (u || isFn) := by
  obtain ⟨c, b', rfl⟩ := List.exists_cons_of_ne_nil hb
  have hlen : (w ++ 42 :: r).length - (42 :: r).length + 1 = (w ++ [c]).length := by
    rw [List.length_append, List.length_append, Nat.add_sub_cancel, List.length_singleton]
  rw [runLoop, drop_star]
  dsimp only
  rw [hrun]
  dsimp only
  have hsplit : w ++ (c :: b' ++ t) = (w ++ [c]) ++ (b' ++ t) := by simp
  rw [hlen, hed, hsplit, runLoop_skip fun hin => hstar (List.mem_cons_of_mem c hin)]
  simp

/-- What the loop asks of a template: placeholders of one kind stand for the same, which is not empty
and has no star. -/
structure Expandable (s : State) (fn pn : Str) (parts : List CmdPart) : Prop where
  shaped : WellShaped s fn pn parts
  same : ∀ h ∈ holes parts, ∀ h' ∈ holes parts, samePattern h.pattern h'.pattern = true → h'.value = h.value
  plain : ∀ h ∈ holes parts, h.value ≠ [] ∧ 42 ∉ h.value

theorem render_hole_done (hdone : done h.pattern = true) :
    render done (.hole h :: rest) = h.value ++ render done rest := by
  show (if done h.pattern then h.value else h.text) ++ render done rest = _
  rw [if_pos hdone]

theorem render_hole_new (hnew : done h.pattern = false) :
    render done (.hole h :: rest) = h.text ++ render done rest := by
  show (if done h.pattern then h.value else h.text) ++ render done rest = _
  rw [hnew, if_neg Bool.false_ne_true]

theorem expanded_snoc_hole (before : List CmdPart) (h : Placeholder) :
    expanded (before ++ [.hole h]) = expanded before ++ h.value := by
  unfold expanded
  rw [render_append]
  exact congrArg (_ ++ ·) (List.append_nil _)

theorem mem_holes_hole (before rest : List CmdPart) (h : Placeholder) : h ∈ holes (before ++ .hole h :: rest) := by
  rw [holes_append]
  exact List.mem_append_right _ List.mem_cons_self

/-- `ed` replaces the placeholders of the kind that is found, and nothing else. -/
theorem ed_hole (hparts : Expandable s fn pn (before ++ .hole h :: rest)) (hshape : Shaped s fn pn h rest)
    (hun : unformed (doneBy before) h.pattern (before ++ .hole h :: rest) = true) :
    ed (expanded before ++ render (doneBy before) (.hole h :: rest)) h.pattern h.value =
      expanded before ++ (h.value ++ render (doneBy (before ++ [.hole h])) rest) := by
  have hpattern : h.pattern ≠ [] := by
    intro hnil
    have hhead := hshape.head
    rw [hnil] at hhead
    contradiction
  have hfrom : expanded before ++ render (doneBy before) (.hole h :: rest) =
      render (doneBy before) (before ++ .hole h :: rest) := by
    rw [render_append, render_done fun x hx => doneBy_mem hx]
  have hto : expanded before ++ (h.value ++ render (doneBy (before ++ [.hole h])) rest) =
      render (doneBy (before ++ [.hole h])) (before ++ .hole h :: rest) := by
    have hrendered : render (doneBy (before ++ [.hole h])) (before ++ [.hole h]) =
        expanded (before ++ [.hole h]) := by
      apply render_done
      intro x hx
      exact doneBy_mem hx
    rw [← List.append_assoc, ← expanded_snoc_hole, ← hrendered, ← render_append, List.append_assoc]
    rfl
  rw [hto, hfrom, doneBy_snoc_hole]
  refine Replaced.unique hpattern (ed_replaced _ _ hpattern) ?_
  refine render_replaced hshape _ hparts.shaped hun (hparts.same h (mem_holes_hole before rest h))
    (fun x hx => (hparts.plain x hx).2) ?_
  intro hlast x hx hxdone
  -- `*A` itself comes last, when all others have been replaced
  obtain rfl := hshape.last_of hlast
  rw [holes_append] at hx
  rcases List.mem_append.mp hx with hx | hx
  · rw [doneBy_mem hx] at hxdone
    contradiction
  · rw [List.mem_singleton.mp hx]
    exact samePattern_refl _

/-! ### Has the name of the file been brought in? -/

theorem files_lit (hfile : ∀ h ∈ holes before, h.isFile = true → u = true) (c : Byte) :
    ∀ h ∈ holes (before ++ [.lit c]), h.isFile = true → u = true := by
  rw [holes_append]
  intro h hmem
  exact hfile h ((List.mem_append.mp hmem).resolve_right List.not_mem_nil)

theorem files_new (hfile : ∀ h ∈ holes before, h.isFile = true → u = true) (h : Placeholder) :
    ∀ x ∈ holes (before ++ [.hole h]), x.isFile = true → (u || h.isFile) = true := by
  intro x hx hxfile
  rw [holes_append] at hx
  rcases List.mem_append.mp hx with hx | hx
  · rw [hfile x hx hxfile, Bool.true_or]
  · obtain rfl := List.mem_singleton.mp hx
    rw [hxfile, Bool.or_true]

/-- A placeholder of a kind that has come before is the file's name only if that was. -/
theorem files_again (hw : WellShaped s fn pn (before ++ .hole h :: rest)) (hshape : Shaped s fn pn h rest)
    (hdone : doneBy before h.pattern = true) (hfile : ∀ h ∈ holes before, h.isFile = true → u = true) :
    ∀ x ∈ holes (before ++ [.hole h]), x.isFile = true → u = true := by
  intro x hx hxfile
  rw [holes_append] at hx
  rcases List.mem_append.mp hx with hx | hx
  · exact hfile x hx hxfile
  · obtain rfl := List.mem_singleton.mp hx
    obtain ⟨h0, hmem0, hsame0⟩ := List.any_eq_true.mp hdone
    have hmem : h0 ∈ holes (before ++ .hole x :: rest) := by
      rw [holes_append]
      exact List.mem_append_left _ hmem0
    obtain ⟨rest0, hshape0⟩ := hw.shape hmem
    exact hfile h0 hmem0 (isFile_same hshape0 hshape hsame0 hxfile)

/-- What the loop does for a template that forms nothing: it ends with the template expanded. -/
theorem runLoop_expands : ∀ (rest before : List CmdPart) (u : Bool), Expandable s fn pn (before ++ rest) →
    formsNothing s fn pn before rest = true → (∀ h ∈ holes before, h.isFile = true → u = true) →
    ∃ u', (∀ fuel, rest.length ≤ fuel → runLoop s fn pn fuel (expanded before).length
        (expanded before ++ render (doneBy before) rest) u = (expanded (before ++ rest), u')) ∧
      ∀ h ∈ holes (before ++ rest), h.isFile = true → u' = true := by
  intro rest
  induction rest with
  | nil =>
    intro before u _ _ hfile
    refine ⟨u, fun fuel _ => ?_, by rwa [List.append_nil]⟩
    have hnil : render (doneBy before) [] = [] := rfl
    rw [hnil, List.append_nil, List.append_nil]
    cases fuel with
    | zero => rfl
    | succ fuel => rw [runLoop, List.drop_length, List.dropWhile_nil]
  | cons part rest ih =>
    intro before u hparts hforms hfile
    have hsplit : before ++ part :: rest = (before ++ [part]) ++ rest := by simp
    have hparts' : Expandable s fn pn ((before ++ [part]) ++ rest) := hsplit ▸ hparts
    rw [hsplit]
    cases part with
    | lit c =>
      rw [formsNothing, Bool.and_eq_true] at hforms
      have hexpanded : expanded (before ++ [.lit c]) = expanded before ++ [c] := render_append _ _ _
      obtain ⟨u', hnext, hall⟩ := ih (before ++ [.lit c]) u hparts' hforms.2 (files_lit hfile c)
      rw [doneBy_snoc_lit, hexpanded] at hnext
      refine ⟨u', fun fuel hfuel => ?_, hall⟩
      rw [List.length_cons] at hfuel
      by_cases hc : c = 42
      · subst hc
        have hpass : runPlaceholder s fn pn (42 :: render (doneBy before) rest) = none := by simpa using hforms.1
        obtain ⟨fuel, rfl⟩ : ∃ k, fuel = k + 1 := ⟨fuel - 1, by omega⟩
        show runLoop s fn pn (fuel + 1) _ (expanded before ++ 42 :: render (doneBy before) rest) u = _
        rw [runLoop_pass hpass]
        exact hnext fuel (by omega)
      · show runLoop s fn pn fuel _ (expanded before ++ ([c] ++ render (doneBy before) rest)) u = _
        rw [runLoop_skip (by simpa using Ne.symm hc)]
        exact hnext fuel (by omega)
    | hole h =>
      rw [formsNothing, Bool.and_eq_true, Bool.or_eq_true] at hforms
      obtain ⟨hne, hstar⟩ := hparts.plain h (mem_holes_hole before rest h)
      have hshape : Shaped s fn pn h rest := by
        cases WellShaped.behind before hparts.shaped with
        | hole hshape _ => exact hshape
      cases hdone : doneBy before h.pattern with
      | true =>
        -- it has been replaced with an earlier one of its kind
        have hfile' := files_again hparts.shaped hshape hdone hfile
        obtain ⟨u', hnext, hall⟩ := ih (before ++ [.hole h]) u hparts' hforms.2 hfile'
        rw [doneBy_again hdone, expanded_snoc_hole] at hnext
        refine ⟨u', fun fuel hfuel => ?_, hall⟩
        rw [List.length_cons] at hfuel
        rw [render_hole_done hdone, runLoop_skip hstar]
        exact hnext fuel (by omega)
      | false =>
        have hun := hforms.1.resolve_left (by rw [hdone]; exact Bool.false_ne_true)
        have hed := ed_hole hparts hshape hun
        obtain ⟨u', hnext, hall⟩ := ih (before ++ [.hole h]) (u || h.isFile) hparts' hforms.2 (files_new hfile h)
        obtain ⟨r, hr, hrun⟩ := hshape.run (doneBy before)
        rw [expanded_snoc_hole] at hnext
        refine ⟨u', fun fuel hfuel => ?_, hall⟩
        rw [List.length_cons] at hfuel
        obtain ⟨fuel, rfl⟩ : ∃ k, fuel = k + 1 := ⟨fuel - 1, by omega⟩
        rw [render_hole_new hdone, hr] at hed ⊢
        rw [runLoop_replace hrun hne hstar hed]
        exact hnext fuel (by omega)

/-! ### The values -/

/-- A string over the letters, the digits and `valid_filename_chars`. -/
def ValidText (v : Str) : Prop := ∀ c ∈ v, validChar c = true

instance decidableValidText (v : Str) : Decidable (ValidText v) :=
    inferInstanceAs (Decidable (∀ c ∈ v, _))

/-- What may be brought in for a placeholder: a valid text, for all the addresses with spaces between. -/
structure Admitted (h : Placeholder) (v : Str) : Prop where
  ne_nil : v ≠ []
  valid : ∀ c ∈ v, validChar c = true ∨ (c = 32 ∧ (h.pattern = str "*A@" ∨ h.pattern = str "*A*"))

/-- The value of a placeholder is such a text, and the byte behind `*A` where it is no digit. -/
def Filled (h : Placeholder) : Prop :=
  ∃ v, Admitted h v ∧ (h.value = v ∨ ∃ d, h.pattern = [42, 65, d] ∧ d ≠ 42 ∧ h.value = v ++ [d])

/-- `run_args` with the fuel of its loop. -/
def runCommand (s : State) (cmd filename : Str) (fuel : ℕ) : Option Str :=
  let bad := !filename.all validChar
  let fn := if bad then str "-" else filename
  let pn := if s.peerName.all validChar && s.peerName ≠ [] then s.peerName else s.ipaddr
  let (w, useFn) := runLoop s fn pn fuel 0 cmd false
  if bad && useFn then none else some w

theorem runArgs_eq (s : State) (cmd filename : Str) :
    runArgs s cmd filename = runCommand s cmd filename maxPathLen := rfl

/-- The name that is brought in. -/
def fileArg (filename : Str) : Str := if !filename.all validChar then str "-" else filename

/-- The name or the address of the peer that is brought in. -/
def peerArg (s : State) : Str := if s.peerName.all validChar && s.peerName ≠ [] then s.peerName else s.ipaddr

/-- The parts of a command's template. -/
def templateParts (s : State) (cmd filename : Str) : List CmdPart :=
  cmdParts s (fileArg filename) (peerArg s) 0 cmd

/-- The command that is executed or queued is the template with its own placeholders replaced by
admitted texts, there is none for a bad name that the template uses, and the loop ends. -/
def CommandRight (s : State) (cmd filename : Str) : Prop :=
  ∃ n r, (∀ fuel, n ≤ fuel → runCommand s cmd filename fuel = r) ∧
    (∀ w, r = some w → w = expanded (templateParts s cmd filename)) ∧
    (∀ h ∈ holes (templateParts s cmd filename), Filled h) ∧
    (¬ ValidText filename → (∃ h ∈ holes (templateParts s cmd filename), h.isFile = true) → r = none)

/-- What the callers promise: a name, a command that is a C string, the addresses of a session,
which have been parsed, and the numeric address of the peer. -/
structure RunArgs (s : State) (cmd filename : Str) : Prop where
  filename : filename ≠ []
  cmd : 0 ∉ cmd
  addresses : s.login.fa.take s.login.nfa ≠ []
  domains : ∀ a ∈ s.login.fa.take s.login.nfa, ValidText a.domain
  ipaddr : s.ipaddr ≠ [] ∧ ValidText s.ipaddr

/-- The template forms no placeholder but its own, and those that differ in case only stand for the
same. -/
structure Tame (s : State) (cmd filename : Str) : Prop where
  forms : formsNothing s (fileArg filename) (peerArg s) [] (templateParts s cmd filename) = true
  twins : ∀ h ∈ holes (templateParts s cmd filename), ∀ h' ∈ holes (templateParts s cmd filename),
    samePattern h.pattern h'.pattern = true → h'.value = h.value

theorem validChar_digit (hc : isdigit c = true) : validChar c = true := by
  unfold validChar isalnum
  rw [hc, Bool.or_true, Bool.true_or]

theorem decimalInt_valid (n : Int) : ValidText (decimalInt n) := by
  intro c hc
  unfold decimalInt at hc
  split_ifs at hc
  · rcases List.mem_append.mp hc with hc | hc
    · obtain rfl := List.mem_singleton.mp hc
      decide
    · exact validChar_digit (decimal_isdigit _ c hc)
  · exact validChar_digit (decimal_isdigit _ c hc)

theorem ValidText.append {v w : Str} (hv : ValidText v) (hw : ValidText w) : ValidText (v ++ w) := by
  intro c hc
  rcases List.mem_append.mp hc with hc | hc
  · exact hv c hc
  · exact hw c hc

theorem validText_nil : ValidText [] := fun _ hc => absurd hc List.not_mem_nil

/-- An address is printed as a valid text. -/
theorem ftnaddressToStr_valid (hdomain : ValidText fa.domain) : ValidText (ftnaddressToStr fa) := by
  have hsep : ∀ {v : Str}, (v = str ":" ∨ v = str "/" ∨ v = str "." ∨ v = str "@") → ValidText v := by
    rintro v (rfl | rfl | rfl | rfl) <;> decide +kernel
  have hif : ∀ {q : Prop} [Decidable q] {v : Str}, ValidText v → ValidText (if q then v else []) := by
    intro q _ v hv
    split_ifs
    · exact hv
    · exact validText_nil
  unfold ftnaddressToStr xftnaddressToStr
  refine ((((hif ?_).append (hif ?_)).append (hif ?_)).append (hif ?_)).append (hif ?_)
  · exact (decimalInt_valid _).append (hsep (.inl rfl))
  · exact decimalInt_valid _
  · exact (hsep (.inr (.inl rfl))).append (decimalInt_valid _)
  · exact (hsep (.inr (.inr (.inl rfl)))).append (decimalInt_valid _)
  · exact (hsep (.inr (.inr (.inr rfl)))).append hdomain

theorem ftnaddressToStr_ne_nil (fa : FtnAddr) : ftnaddressToStr fa ≠ [] := by
  obtain ⟨c, r, hcons, -⟩ := ftnaddressToStr_head fa
  rw [hcons]
  exact List.cons_ne_nil c r

theorem mem_intersperse : ∀ l : List Str, ∀ c ∈ (l.intersperse [32]).flatten, c = 32 ∨
    ∃ v ∈ l, c ∈ v := by
  intro l
  induction l with
  | nil =>
    intro c hc
    exact absurd hc List.not_mem_nil
  | cons v l ih =>
    intro c hc
    cases l with
    | nil =>
      refine .inr ⟨v, List.mem_cons_self, ?_⟩
      simpa using hc
    | cons v' l =>
      rw [List.intersperse_cons_cons, List.flatten_cons, List.flatten_cons] at hc
      rcases List.mem_append.mp hc with hc | hc
      · exact .inr ⟨v, List.mem_cons_self, hc⟩
      · rcases List.mem_append.mp hc with hc | hc
        · exact .inl (List.mem_singleton.mp hc)
        · rcases ih c hc with h32 | ⟨w, hw, hcw⟩
          · exact .inl h32
          · exact .inr ⟨w, List.mem_cons_of_mem v hw, hcw⟩

theorem intersperse_ne_nil {l : List Str} (hl : l ≠ []) (hne : ∀ v ∈ l, v ≠ []) :
    (l.intersperse [32]).flatten ≠ [] := by
  obtain ⟨v, l, rfl⟩ := List.exists_cons_of_ne_nil hl
  have hv := hne v List.mem_cons_self
  cases l with
  | nil => simpa using hv
  | cons v' l =>
    rw [List.intersperse_cons_cons, List.flatten_cons]
    exact List.append_ne_nil_of_left_ne_nil hv _

/-- The values of the placeholders that are no addresses. -/
theorem value_two (hx : toupper x ≠ 65) (hfn : fn ≠ [] ∧ ValidText fn) (hpn : pn ≠ [] ∧ ValidText pn)
    (hrun : runPlaceholder s fn pn [42, x] = some (a, b, isFn)) : b ≠ [] ∧ ValidText b := by
  have hvalue : ∀ {a' b' : Str} {f : Bool}, b' ≠ [] ∧ ValidText b' →
    some (a', b', f) = some (a, b, isFn) →
      b ≠ [] ∧ ValidText b := by
    intro a' b' f hb heq
    rwa [← (Prod.mk.inj (Prod.mk.inj (Option.some.inj heq)).2).1]
  have hflag : str "1" ≠ [] ∧ ValidText (str "1") := by decide +kernel
  have hno : str "0" ≠ [] ∧ ValidText (str "0") := by decide +kernel
  unfold runPlaceholder at hrun
  simp only [List.getD_cons_succ, List.getD_cons_zero, hx, if_false] at hrun
  split_ifs at hrun
  · exact hvalue hfn hrun
  · exact hvalue hfn hrun
  · exact hvalue hflag hrun
  · exact hvalue hno hrun
  · exact hvalue hflag hrun
  · exact hvalue hno hrun
  · exact hvalue hpn hrun

/-- The text of the address that `*A` stands for. -/
theorem address_valid {l : List FtnAddr} (hdomains : ∀ a ∈ l, ValidText a.domain) (i : ℕ) :
    ∀ v, v = (match l[i]? with | some a => ftnaddressToStr a | none => str "-") → v ≠ [] ∧
    ValidText v := by
  rintro v rfl
  cases hi : l[i]? with
  | none => exact ⟨by decide, by decide +kernel⟩
  | some fa => exact ⟨ftnaddressToStr_ne_nil fa, ftnaddressToStr_valid (hdomains fa (List.mem_of_getElem? hi))⟩

theorem validText_nul {v : Str} (hv : ValidText v) : ∀ c ∈ v, c ≠ 0 := by
  rintro c hc rfl
  have hvalid := hv 0 hc
  contradiction

/-- The values of the placeholders of addresses: all of them, or one with the byte behind it. -/
theorem value_three (hx : toupper x = 65) {y : Str} (haddr : s.login.fa.take s.login.nfa ≠ [])
    (hdomains : ∀ a ∈ s.login.fa.take s.login.nfa, ValidText a.domain)
    (hrun : runPlaceholder s fn pn (42 :: x :: y) = some (a, b, isFn)) :
    ∃ v, v ≠ [] ∧ (((y.headD 0 = 64 ∨ y.headD 0 = 42) ∧ b = v ∧ ∀ c ∈ v, validChar c = true ∨ c = 32) ∨
      (ValidText v ∧ (b = v ∨ y.headD 0 ≠ 42 ∧ y.headD 0 ≠ 0 ∧ b = v ++ [y.headD 0]))) := by
  have hd : (42 :: x :: y).getD 2 0 = y.headD 0 := by cases y <;> rfl
  unfold runPlaceholder at hrun
  rw [hd] at hrun
  generalize y.headD 0 = d at hrun ⊢
  simp only [List.getD_cons_succ, List.getD_cons_zero, hx] at hrun
  rw [if_neg (by decide), if_neg (by decide), if_pos trivial] at hrun
  by_cases hall : d = 64 ∨ d = 42
  · rw [if_pos hall] at hrun
    have hb := (Prod.mk.inj (Prod.mk.inj (Option.some.inj hrun)).2).1
    refine ⟨b, ?_, .inl ⟨hall, rfl, ?_⟩⟩
    · rw [← hb]
      apply intersperse_ne_nil (by simpa using haddr)
      intro v hv
      obtain ⟨fa, -, rfl⟩ := List.mem_map.mp hv
      exact ftnaddressToStr_ne_nil fa
    · rw [← hb]
      intro c hc
      rcases mem_intersperse _ c hc with h32 | ⟨v, hv, hcv⟩
      · exact .inr h32
      · obtain ⟨fa, hfa, rfl⟩ := List.mem_map.mp hv
        exact .inl (ftnaddressToStr_valid (hdomains fa hfa) c hcv)
  · rw [if_neg hall] at hrun
    have hb := (Prod.mk.inj (Prod.mk.inj (Option.some.inj hrun)).2).1
    obtain ⟨v, hv⟩ : ∃ v, v = (match (s.login.fa.take s.login.nfa)[if isdigit d = true then d.toNat - 48 else 0]? with
      | some a => ftnaddressToStr a
      | none => str "-") := ⟨_, rfl⟩
    obtain ⟨hne, hvalid⟩ := address_valid hdomains _ v hv
    refine ⟨v, hne, .inr ⟨hvalid, ?_⟩⟩
    by_cases hdigit : isdigit d = true
    · rw [if_pos hdigit] at hb
      exact .inl (hb.symm.trans hv.symm)
    · rw [if_neg hdigit] at hb
      replace hb : cstr (v ++ [d]) = b := by
        rw [hv]
        exact hb
      have hcstr : cstr (v ++ [d]) = v ++ cstr [d] :=
        List.takeWhile_append_of_pos fun c hc => by simpa using validText_nul hvalid c hc
      by_cases hnul : d = 0
      · subst hnul
        refine .inl ?_
        rw [← hb, hcstr]
        exact List.append_nil v
      · refine .inr ⟨fun h42 => hall (.inr h42), hnul, ?_⟩
        rw [← hb, hcstr]
        congr 1
        exact List.takeWhile_cons_of_pos (by simpa using hnul)

/-- Each placeholder is filled with an admitted text. -/
theorem Shaped.filled (hs : Shaped s fn pn h rest) (hfn : fn ≠ [] ∧ ValidText fn)
    (hpn : pn ≠ [] ∧ ValidText pn)
    (haddr : s.login.fa.take s.login.nfa ≠ []) (hdomains : ∀ a ∈ s.login.fa.take s.login.nfa, ValidText a.domain) :
    Filled h := by
  cases hs with
  | two hx hc htext hpattern hrun =>
    obtain ⟨hne, hvalid⟩ := value_two hx hfn hpn (hrun [])
    exact ⟨h.value, ⟨hne, fun c hc => .inl (hvalid c hc)⟩, .inl rfl⟩
  | last hx htext hpattern hrun =>
    obtain ⟨v, hne, ⟨hall, -, -⟩ | ⟨hvalid, hb | ⟨-, hnul, -⟩⟩⟩ := value_three hx haddr hdomains hrun
    · exact absurd hall (by decide)
    · exact ⟨v, ⟨hne, fun c hc => .inl (hvalid c hc)⟩, .inl hb⟩
    · exact absurd rfl hnul
  | @three x d _ hx htext hpattern hrun =>
    obtain ⟨v, hne, ⟨hall, hb, hvalid⟩ | ⟨hvalid, hb | ⟨hstar, -, hb⟩⟩⟩ :=
      value_three hx haddr hdomains (hrun [])
    · refine ⟨v, ⟨hne, fun c hc => ?_⟩, .inl hb⟩
      rcases hvalid c hc with hvalid | h32
      · exact .inl hvalid
      · refine .inr ⟨h32, ?_⟩
        rw [hpattern]
        rcases hall with hd | hd
        · exact .inl (by rw [show d = 64 from hd]; rfl)
        · exact .inr (by rw [show d = 42 from hd]; rfl)
    · exact ⟨v, ⟨hne, fun c hc => .inl (hvalid c hc)⟩, .inl hb⟩
    · exact ⟨v, ⟨hne, fun c hc => .inl (hvalid c hc)⟩, .inr ⟨d, hpattern, hstar, hb⟩⟩

/-- No star is brought in. -/
theorem Filled.plain (hf : Filled h) : h.value ≠ [] ∧ 42 ∉ h.value := by
  obtain ⟨v, ⟨hne, hvalid⟩, hvalue⟩ := hf
  have hstar : 42 ∉ v := by
    intro h42
    rcases hvalid 42 h42 with hv | ⟨hv, -⟩
    · contradiction
    · contradiction
  rcases hvalue with hvalue | ⟨d, -, hd, hvalue⟩
  · rw [hvalue]
    exact ⟨hne, hstar⟩
  · rw [hvalue]
    refine ⟨List.append_ne_nil_of_left_ne_nil hne _, ?_⟩
    intro h42
    rcases List.mem_append.mp h42 with h42 | h42
    · exact hstar h42
    · exact hd (List.mem_singleton.mp h42).symm

/-! ### The command -/

theorem fileArg_valid (hne : filename ≠ []) : fileArg filename ≠ [] ∧ ValidText (fileArg filename) := by
  unfold fileArg
  by_cases hvalid : filename.all validChar = true
  · rw [hvalid]
    exact ⟨hne, List.all_eq_true.mp hvalid⟩
  · rw [Bool.eq_false_iff.mpr hvalid]
    exact ⟨show str "-" ≠ [] by decide, show ValidText (str "-") by decide +kernel⟩

theorem peerArg_valid (hip : s.ipaddr ≠ [] ∧ ValidText s.ipaddr) :
    peerArg s ≠ [] ∧ ValidText (peerArg s) := by
  unfold peerArg
  split_ifs with hname
  · rw [Bool.and_eq_true, decide_eq_true_iff] at hname
    exact ⟨hname.2, List.all_eq_true.mp hname.1⟩
  · exact hip

/-- The command of a template that forms no placeholder is right. -/
theorem run_args_right (hargs : RunArgs s cmd filename) (htame : Tame s cmd filename) :
    CommandRight s cmd filename := by
  have hshaped : WellShaped s (fileArg filename) (peerArg s) (templateParts s cmd filename) :=
    cmdParts_shaped cmd.length cmd (Nat.le_refl _) hargs.cmd
  have hfilled : ∀ h ∈ holes (templateParts s cmd filename), Filled h := by
    intro h hmem
    obtain ⟨rest, hshape⟩ := hshaped.shape hmem
    exact hshape.filled (fileArg_valid hargs.filename) (peerArg_valid hargs.ipaddr) hargs.addresses hargs.domains
  obtain ⟨u, hloop, hfile⟩ := runLoop_expands (templateParts s cmd filename) [] false
    ⟨hshaped, htame.twins, fun h hmem => (hfilled h hmem).plain⟩ htame.forms
    (fun h hmem => absurd hmem List.not_mem_nil)
  have hstart : expanded [] ++ render (doneBy []) (templateParts s cmd filename) = cmd :=
    render_none cmd.length cmd (Nat.le_refl _)
  rw [hstart] at hloop
  have hcommand : ∀ fuel, (templateParts s cmd filename).length ≤ fuel → runCommand s cmd filename fuel =
      if (!filename.all validChar) && u then none else some (expanded (templateParts s cmd filename)) := by
    intro fuel hfuel
    have hrun := hloop fuel hfuel
    unfold fileArg peerArg at hrun
    unfold runCommand
    dsimp only at hrun ⊢
    rw [show (expanded []).length = 0 from rfl] at hrun
    rw [hrun]
    rfl
  refine ⟨(templateParts s cmd filename).length, _, hcommand, ?_, hfilled, ?_⟩
  · intro w hw
    split_ifs at hw
    exact (Option.some.inj hw).symm
  · rintro hbad ⟨h, hmem, hisfile⟩
    have hno : filename.all validChar = false := by
      rw [Bool.eq_false_iff]
      exact fun hall => hbad (List.all_eq_true.mp hall)
    rw [hfile h hmem hisfile, hno]
    rfl

/-- A session with a remote that has the name of a host. -/
def namedRemote : State where
  toNode := none
  remoteFa := none
  peerName := str "fido.example.org"
  ipaddr := str "192.0.2.1"
  login := { fa := [{ z := 2, net := 5020, node := 1, p := 0, domain := str "fidonet" }], nfa := 1 }
  rx := { inbound := str "/in" }

/-- The star before `*H` and the name that comes in for it read as `*F`. -/
theorem placeholder_formed : RunArgs namedRemote (str "log **H *F") (str "/in/x") ∧
    ¬ CommandRight namedRemote (str "log **H *F") (str "/in/x") := by
  refine ⟨⟨by decide, by decide +kernel, by decide, by decide +kernel, by decide +kernel⟩, ?_⟩
  rintro ⟨n, r, hends, hright, -, -⟩
  have hrun : runCommand namedRemote (str "log **H *F") (str "/in/x") (n + 8) =
      some (str "log /in/xido.example.org /in/x") := rfl
  have hcommand := hright _ ((hends (n + 8) (Nat.le_add_right n 8)).symm.trans hrun)
  exact absurd hcommand (by decide +kernel)

/-- Placeholders in either case, with a star that stands alone. -/
theorem plain_template_right : CommandRight namedRemote (str "echo * *n *H *A@ *A1;*P") (str "/in/x") :=
  run_args_right ⟨by decide, by decide +kernel, by decide, by decide +kernel, by decide +kernel⟩
    ⟨by decide +kernel, by decide +kernel⟩

end Binkd
