import Binkd.Tools
import Mathlib.Data.List.TakeWhile
import Mathlib.Data.Nat.Notation

/-!
# The words of a text (`getw.c`)

`Field` says how `getwordx2` reads one field with the default separators, `Fields` all
fields up to the NUL.  How a field is read depends on its own bytes only
(`Field.subst`): another text may follow it.
-/

namespace Binkd

variable {q q1 q' : Bool} {src rest raw gap X Y R tail : List Byte} {v w : Str} {ws : List Str} {c : Byte} {fuel : ℕ}

/-! ### Fields -/

/-- A byte that ends a field, where no quote is open unless it is a line end. -/
def Ends (q : Bool) (c : Byte) : Prop := c = 0 ∨ c = 10 ∨ c = 13 ∨ q = false ∧
    defFldsep.contains c = true

/-- A buffer that begins with the end of a field. -/
def Stop (q : Bool) (src : List Byte) : Prop := ∃ c r, src = c :: r ∧ Ends q c

/-- One field of a buffer: what it stands for, and the buffer behind it. -/
inductive Field : Bool → List Byte → Str → Bool → List Byte → Prop
  | stop {q : Bool} {c : Byte} {r : List Byte} (h : Ends q c) : Field q (c :: r) [] q (c :: r)
  | nil {q : Bool} : Field q [] [] q []
  | escape {q q' : Bool} {r rest : List Byte} {v : Str} (h : Field q (getwordxEscape r).2 v q' rest) :
      Field q (92 :: r) ((getwordxEscape r).1 :: v) q' rest
  | quote {q q' : Bool} {r rest : List Byte} {v : Str} (h : Field (!q) r v q' rest) :
  Field q (34 :: r) v q' rest
  | char {q q' : Bool} {c : Byte} {r rest : List Byte} {v : Str} (h92 : c ≠ 92) (h34 : c ≠ 34) (hends : ¬ Ends q c)
      (h : Field q r v q' rest) : Field q (c :: r) (c :: v) q' rest

theorem getwordxEscape_suffix (r : List Byte) : (getwordxEscape r).2 <:+ r := by
  unfold getwordxEscape
  split
  · exact List.suffix_refl _
  · next c r =>
    split_ifs
    · exact List.suffix_cons c r
    · exact (List.dropWhile_suffix _).trans (List.suffix_cons c r)
    · exact List.dropWhile_suffix _

theorem Ends.ne (h : Ends q c) : c ≠ 92 ∧ c ≠ 34 ∧ isxdigit c = false ∧ isdigit c = false ∧
    c ≠ 120 ∧ c ≠ 88 := by
  rcases h with rfl | rfl | rfl | ⟨-, h⟩
  · decide
  · decide
  · decide
  · have hsep : c = 32 ∨ c = 9 ∨ c = 10 ∨ c = 13 := by simpa [defFldsep] using h
    rcases hsep with rfl | rfl | rfl | rfl <;> decide

theorem exists_field (q : Bool) (src : List Byte) : ∃ v q' rest, Field q src v q' rest := by
  induction hn : src.length using Nat.strongRecOn generalizing q src with
  | _ n ih =>
    cases src with
    | nil => exact ⟨_, _, _, .nil⟩
    | cons c r =>
      by_cases h92 : c = 92
      · subst h92
        have hlen := (getwordxEscape_suffix r).length_le
        obtain ⟨v, q', rest, h⟩ := ih _ (by simp at hn; omega) q (getwordxEscape r).2 rfl
        exact ⟨_, _, _, .escape h⟩
      · by_cases hends : Ends q c
        · exact ⟨_, _, _, .stop hends⟩
        · by_cases h34 : c = 34
          · subst h34
            obtain ⟨v, q', rest, h⟩ := ih r.length (by simp at hn; omega) (!q) r rfl
            exact ⟨_, _, _, .quote h⟩
          · obtain ⟨v, q', rest, h⟩ := ih r.length (by simp at hn; omega) q r rfl
            exact ⟨_, _, _, .char h92 h34 hends h⟩

/-- `getwordxScan` reads a field. -/
theorem Field.scan (h : Field q src v q' rest) (dest : List Byte) (hfuel : src.length ≤ fuel) :
    getwordxScan {} defFldsep fuel q dest src = (dest ++ v, q', rest) := by
  induction h generalizing dest fuel with
  | nil => cases fuel <;> simp [getwordxScan]
  | @stop q c r h =>
    obtain ⟨fuel, rfl⟩ : ∃ n, fuel = n + 1 := ⟨fuel - 1, by simp at hfuel; omega⟩
    obtain ⟨h92, h34, -⟩ := h.ne
    rw [getwordxScan, if_neg (by simp [h92]), List.append_nil]
    by_cases hend : c = 0 ∨ c = 10 ∨ c = 13
    · rw [if_pos hend]
    · obtain ⟨hq, hsep⟩ : q = false ∧ defFldsep.contains c = true := by
        rcases h with h | h | h | h
        · exact absurd (.inl h) hend
        · exact absurd (.inr (.inl h)) hend
        · exact absurd (.inr (.inr h)) hend
        · exact h
      rw [if_neg hend, if_neg h34, if_pos (by rw [hsep, hq]; rfl)]
  | @escape q q' r rest v h ih =>
    obtain ⟨fuel, rfl⟩ : ∃ n, fuel = n + 1 := ⟨fuel - 1, by simp at hfuel; omega⟩
    have hlen := (getwordxEscape_suffix r).length_le
    rw [getwordxScan, if_pos (by simp), ih _ (by simp at hfuel; omega)]
    simp
  | quote h ih =>
    obtain ⟨fuel, rfl⟩ : ∃ n, fuel = n + 1 := ⟨fuel - 1, by simp at hfuel; omega⟩
    rw [getwordxScan, if_neg (by simp), if_neg (by decide), if_pos rfl, ih _ (by simp at hfuel; omega)]
  | char h92 h34 hends h ih =>
    obtain ⟨fuel, rfl⟩ : ∃ n, fuel = n + 1 := ⟨fuel - 1, by simp at hfuel; omega⟩
    rw [getwordxScan, if_neg (by simp [h92]), if_neg (fun h => hends (by rcases h with h | h | h <;> simp [Ends, h])),
      if_neg h34, if_neg (fun h => hends (.inr (.inr (.inr (by simpa [and_comm] using h))))),
        ih _ (by simp at hfuel; omega)]
    simp

theorem Field.behind (h : Field q src v q' rest) : rest <:+ src ∧ (rest = [] ∨ Stop q' rest) := by
  induction h with
  | nil => exact ⟨List.suffix_refl _, .inl rfl⟩
  | stop h => exact ⟨List.suffix_refl _, .inr ⟨_, _, rfl, h⟩⟩
  | escape h ih => exact ⟨(ih.1.trans (getwordxEscape_suffix _)).trans (List.suffix_cons _ _), ih.2⟩
  | quote h ih => exact ⟨ih.1.trans (List.suffix_cons _ _), ih.2⟩
  | char h92 h34 hends h ih => exact ⟨ih.1.trans (List.suffix_cons _ _), ih.2⟩

theorem Stop.takeWhile {p : Byte → Bool} (hp : p = isxdigit ∨ p = isdigit) (hY : Stop q Y) (e : List Byte) :
    (e ++ Y).takeWhile p = e.takeWhile p ∧ (e ++ Y).dropWhile p = e.dropWhile p ++ Y := by
  obtain ⟨c, r, rfl, hends⟩ := hY
  have hc : p c = false := by
    rcases hp with rfl | rfl
    · exact hends.ne.2.2.1
    · exact hends.ne.2.2.2.1
  induction e with
  | nil => simp [hc]
  | cons a e ih =>
    by_cases ha : p a = true
    · simpa [ha] using ih
    · simp [ha]

/-- An escape is read the same, whatever ends the field behind it. -/
theorem getwordxEscape_local (hY : Stop q Y) (hX : Stop q X) {e e' : List Byte} (he : e ≠ [])
    (h : (getwordxEscape (e ++ Y)).2 = e' ++ Y) :
    getwordxEscape (e ++ X) = ((getwordxEscape (e ++ Y)).1, e' ++ X) := by
  obtain ⟨c, e, rfl⟩ := List.exists_cons_of_ne_nil he
  rw [List.cons_append] at h ⊢
  rw [List.cons_append]
  unfold getwordxEscape at h ⊢
  dsimp only at h ⊢
  obtain ⟨htx, hdx⟩ := hY.takeWhile (.inl rfl) e
  obtain ⟨htx', hdx'⟩ := hX.takeWhile (.inl rfl) e
  obtain ⟨htd, hdd⟩ := hY.takeWhile (.inr rfl) (c :: e)
  obtain ⟨htd', hdd'⟩ := hX.takeWhile (.inr rfl) (c :: e)
  rw [List.cons_append] at htd hdd htd' hdd'
  split_ifs at h ⊢
  · rw [List.append_cancel_right h]
  · rw [hdx] at h
    rw [htx', htx, hdx', List.append_cancel_right h]
  · rw [hdd] at h
    rw [htd', htd, hdd', List.append_cancel_right h]

/-- An escape takes the byte that would end the field. -/
theorem Stop.escape_lt (h : Stop q src) : (getwordxEscape src).2.length < src.length := by
  obtain ⟨c, r, rfl, hends⟩ := h
  obtain ⟨-, -, -, hd, hx, hX⟩ := hends.ne
  unfold getwordxEscape
  dsimp only
  rw [if_pos (by simp [hd, hx, hX])]
  exact Nat.lt_succ_self _

theorem suffix_split (h : Y <:+ raw ++ X) (hlen : X.length ≤ Y.length) : ∃ e, Y = e ++ X := by
  obtain ⟨a, ha⟩ := h
  rcases List.append_eq_append_iff.mp ha with ⟨b, hb, hY⟩ | ⟨b, hb, hX⟩
  · exact ⟨b, hY⟩
  · obtain rfl : b = [] := by
      have hlen' := congrArg List.length hX
      rw [List.length_append] at hlen'
      exact List.length_eq_zero_iff.mp (by omega)
    exact ⟨[], hX.symm⟩

/-- A field is read the same, whatever ends it. -/
theorem Field.subst (h : Field q src v q1 Y) (hsrc : src = raw ++ Y) (hX : Stop q1 X) (hY : Y ≠ []) :
    Field q (raw ++ X) v q1 X := by
  have hstop := h.behind.2.resolve_left hY
  induction h generalizing raw with
  | nil => exact absurd rfl hY
  | @stop q c r h =>
    obtain rfl : raw = [] := by
      have hlen := congrArg List.length hsrc
      rw [List.length_append] at hlen
      exact List.length_eq_zero_iff.mp (by omega)
    obtain ⟨c, r, rfl, hends⟩ := hX
    exact .stop hends
  | @escape q q' r rest v h ih =>
    obtain ⟨hsuffix, -⟩ := h.behind
    have hle := hsuffix.length_le
    have hle' := (getwordxEscape_suffix r).length_le
    cases raw with
    | nil =>
      have hlen := congrArg List.length hsrc
      simp only [List.nil_append, List.length_cons] at hlen
      omega
    | cons a raw =>
      obtain ⟨rfl, hr⟩ := List.cons.inj hsrc
      obtain rfl : r = raw ++ rest := hr
      have hraw : raw ≠ [] := by
        rintro rfl
        have hlt := hstop.escape_lt
        rw [List.nil_append] at hle
        omega
      obtain ⟨e, he⟩ := suffix_split (getwordxEscape_suffix _) hle
      have hlocal := getwordxEscape_local hstop hX hraw he
      have hnext := ih he hX hY hstop
      rw [List.cons_append]
      have hesc : (getwordxEscape (raw ++ X)).2 = e ++ X := congrArg Prod.snd hlocal
      rw [← congrArg Prod.fst hlocal]
      exact .escape (by rw [hesc]; exact hnext)
  | @quote q q' r rest v h ih =>
    have hle := h.behind.1.length_le
    cases raw with
    | nil =>
      have hlen := congrArg List.length hsrc
      simp only [List.nil_append, List.length_cons] at hlen
      omega
    | cons a raw =>
      obtain ⟨rfl, rfl⟩ := List.cons.inj hsrc
      exact .quote (ih rfl hX hY hstop)
  | @char q q' c r rest v h92 h34 hends h ih =>
    have hle := h.behind.1.length_le
    cases raw with
    | nil =>
      have hlen := congrArg List.length hsrc
      simp only [List.nil_append, List.length_cons] at hlen
      omega
    | cons a raw =>
      obtain ⟨rfl, rfl⟩ := List.cons.inj hsrc
      exact .char h92 h34 hends (ih rfl hX hY hstop)

/-! ### All fields of a buffer -/

/-- The fields of a buffer up to its NUL, and whether a quote is open there. -/
inductive Fields : Bool → List Byte → List Str → Bool → Prop
  | done {q : Bool} {r : List Byte} : Fields q (0 :: r) [] q
  | skip {q q' : Bool} {c : Byte} {r : List Byte} {ws : List Str} (hc : defFldsep.contains c = true)
      (h : Fields q r ws q') : Fields q (c :: r) ws q'
  | field {q q1 q' : Bool} {c : Byte} {r rest : List Byte} {v : Str} {ws : List Str}
      (hc : defFldsep.contains c = false) (h0 : c ≠ 0) (hf : Field q (c :: r) v q1 rest) (hrest : rest ≠ [])
      (h : Fields q1 rest ws q') : Fields q (c :: r) (cstr v :: ws) q'

theorem getwordx2From_skip (hc : defFldsep.contains c = true) (n : ℕ) (q : Bool) (r : List Byte) :
    getwordx2From {} defFldsep defFldsep (n + 1) q (c :: r) = getwordx2From {} defFldsep defFldsep
    (n + 1) q r := by
  have h0 : c ≠ 0 := by
    rintro rfl
    exact absurd hc (by decide)
  rw [getwordx2From, getwordx2From, List.dropWhile_cons_of_pos (by simp only [hc, Bool.true_and, bne_iff_ne]; exact h0)]

theorem Fields.get (h : Fields q src ws q') (n : ℕ) :
    getwordx2From {} defFldsep defFldsep (n + 1) q src = ws[n]? := by
  induction h generalizing n with
  | done => rfl
  | skip hc h ih => rw [getwordx2From_skip hc, ih]
  | @field q q1 q' c r rest v ws hc h0 hf hrest h ih =>
    have hscan := hf.scan [] (Nat.le_refl (c :: r).length)
    rw [getwordx2From, List.dropWhile_cons_of_neg (by simp only [hc, Bool.false_and]; decide)]
    dsimp only
    rw [if_neg (by simp [h0])]
    rw [List.length_cons, List.nil_append] at hscan
    rw [hscan]
    dsimp only
    cases n with
    | zero => rfl
    | succ n =>
      rw [if_neg (Nat.succ_ne_zero n), List.getElem?_cons_succ, ← ih n]
      obtain ⟨d, r', rfl⟩ := List.exists_cons_of_ne_nil hrest
      dsimp only
      split_ifs with hd
      · rw [getwordx2From_skip hd]
      · rfl

theorem Ends.of_sep (h : Ends q c) (h0 : c ≠ 0) : defFldsep.contains c = true := by
  rcases h with h | rfl | rfl | ⟨-, h⟩
  · exact absurd h h0
  · decide
  · decide
  · exact h

/-- A field that does not begin with its end takes a byte. -/
theorem Field.lt (hf : Field q (c :: R) v q1 rest) (hc : defFldsep.contains c = false) (h0 : c ≠ 0) :
    rest.length < (c :: R).length := by
  cases hf with
  | stop h => exact absurd (h.of_sep h0) (by rw [hc]; decide)
  | escape h => exact Nat.lt_succ_of_le (h.behind.1.trans (getwordxEscape_suffix R)).length_le
  | quote h => exact Nat.lt_succ_of_le h.behind.1.length_le
  | char h92 h34 hends h => exact Nat.lt_succ_of_le h.behind.1.length_le

theorem Fields.length_le (h : Fields q src ws q') : ws.length ≤ src.length := by
  induction h with
  | done => exact Nat.zero_le _
  | skip hc h ih => exact Nat.le_succ_of_le ih
  | @field q q1 q' c r rest v ws hc h0 hf hrest h ih =>
    have hlt := hf.lt hc h0
    simp only [List.length_cons] at hlt ⊢
    omega

theorem getwords_eq (hget : ∀ i, getwordx2 {} defFldsep defFldsep (i + 1) src = ws[i]?) (hlen : ws.length ≤ src.length) :
    getwords src {} = ws := by
  have hfrom : ∀ fuel i, ws.length - i < fuel → getwordsFrom {} defFldsep defFldsep src fuel (i + 1) = ws.drop i := by
    intro fuel
    induction fuel with
    | zero => exact fun i h => absurd h (Nat.not_lt_zero _)
    | succ fuel ih =>
      intro i hfuel
      rw [getwordsFrom, hget]
      by_cases hi : i < ws.length
      · rw [List.getElem?_eq_getElem hi]
        dsimp only
        rw [ih (i + 1) (by omega), List.drop_eq_getElem_cons hi]
      · rw [List.getElem?_eq_none (Nat.le_of_not_lt hi), List.drop_eq_nil_of_le (Nat.le_of_not_lt hi)]
  rw [getwords, hfrom _ _ (by omega), List.drop_zero]

/-! ### Words that stand for themselves -/

/-- The words with a blank before each. -/
def spaced (ws : List Str) : Str := ws.flatMap (32 :: ·)

/-- A field begins with a byte that does not separate fields. -/
def Begins (raw : List Byte) : Prop := ∃ c r, raw = c :: r ∧ defFldsep.contains c = false ∧ c ≠ 0

theorem Fields.skips (hgap : ∀ c ∈ gap, defFldsep.contains c = true) (h : Fields q X ws q') :
    Fields q (gap ++ X) ws q' := by
  induction gap with
  | nil => exact h
  | cons c gap ih =>
    exact .skip (hgap c List.mem_cons_self) (ih fun d hd => hgap d (List.mem_cons_of_mem c hd))

theorem Fields.cons (hraw : Begins raw) (hf : Field q (raw ++ X) v q1 X) (hX : X ≠ []) (h : Fields q1 X ws q') :
    Fields q (raw ++ X) (cstr v :: ws) q' := by
  obtain ⟨c, r, rfl, hc, h0⟩ := hraw
  exact .field hc h0 hf hX h

theorem Fields.getwords (h : Fields false src ws q) : getwords src {} = ws :=
  getwords_eq h.get h.length_le

/-- A word that stands for itself. -/
def Unquoted (w : Str) : Prop := w ≠ [] ∧ ∀ c ∈ w, c ≠ 0 ∧ c ≠ 34 ∧ c ≠ 92 ∧ defFldsep.contains c = false

instance (w : Str) : Decidable (Unquoted w) := inferInstanceAs (Decidable (_ ∧ _))

theorem Unquoted.begins (h : Unquoted w) : Begins w := by
  obtain ⟨hne, hw⟩ := h
  obtain ⟨a, r, rfl⟩ := List.exists_cons_of_ne_nil hne
  obtain ⟨h0, -, -, hsep⟩ := hw a List.mem_cons_self
  exact ⟨a, r, rfl, hsep, h0⟩

theorem Field.plain (hw : ∀ c ∈ w, c ≠ 0 ∧ c ≠ 34 ∧ c ≠ 92 ∧ defFldsep.contains c = false) (hc : c = 0 ∨ c = 32) :
    Field false (w ++ c :: R) w false (c :: R) := by
  induction w with
  | nil =>
    refine .stop ?_
    rcases hc with rfl | rfl
    · exact .inl rfl
    · exact .inr (.inr (.inr ⟨rfl, by decide⟩))
  | cons a w ih =>
    obtain ⟨h0, h34, h92, hsep⟩ := hw a List.mem_cons_self
    refine .char h92 h34 (fun hends => ?_) (ih fun b hb => hw b (List.mem_cons_of_mem a hb))
    have hcontains := hends.of_sep h0
    rw [hsep] at hcontains
    contradiction

/-- A line of plain words. -/
theorem Fields.plain (hws : ∀ w ∈ ws, Unquoted w) : Fields false (spaced ws ++ 0 :: tail) ws false := by
  induction ws with
  | nil => exact .done
  | cons w ws ih =>
    have hbegins := (hws w List.mem_cons_self).begins
    obtain ⟨-, hplain⟩ := hws w List.mem_cons_self
    have hcstr : cstr w = w := cstr_eq_self fun c hc => (hplain c hc).1
    have hnext := ih fun x hx => hws x (List.mem_cons_of_mem w hx)
    obtain ⟨c, src, hsrc, hc⟩ : ∃ c src, spaced ws ++ 0 :: tail = c :: src ∧ (c = 0 ∨ c = 32) := by
      cases ws with
      | nil => exact ⟨0, tail, rfl, .inl rfl⟩
      | cons w' ws => exact ⟨32, _, rfl, .inr rfl⟩
    have hfield := (Field.plain hplain hc (R := src))
    rw [← hsrc] at hfield
    have hline : spaced (w :: ws) ++ 0 :: tail = 32 :: (w ++ (spaced ws ++ 0 :: tail)) := by
      simp [spaced]
    have hword := hnext.cons hbegins hfield (by simp)
    rw [hcstr] at hword
    rw [hline]
    exact .skip (by decide) hword

end Binkd
