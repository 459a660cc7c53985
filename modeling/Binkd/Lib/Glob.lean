import Mathlib.Computability.Language

/-!
# Wildcard patterns

A pattern is a list of tokens: one symbol that fulfils a condition, or any text (`Glob`).  Its
language is the product of the languages of its tokens (`globLang`).

`mem_globLang_star` reads a star off a text by its suffixes, and `mem_globLang_skip` says that the
search behind a star may begin at the first symbol that fulfils what stands behind the star.
-/

namespace Binkd.Lib

variable {β : Type}

/-- A token of a pattern. -/
inductive Glob (β : Type) where
  | one (p : β → Bool)
  | star

/-- The texts that a token takes. -/
def Glob.lang : Glob β → Language β
  | .one p => { l | ∃ c, p c = true ∧ l = [c] }
  | .star => Set.univ

/-- The texts that a pattern takes: its tokens take them piece by piece. -/
def globLang (g : List (Glob β)) : Language β := (g.map Glob.lang).prod

theorem mem_globLang_nil {l : List β} : l ∈ globLang ([] : List (Glob β)) ↔ l = [] := by
  rw [globLang, List.map_nil, List.prod_nil, Language.mem_one]

theorem mem_globLang_one {p : β → Bool} {g : List (Glob β)} {l : List β} :
    l ∈ globLang (.one p :: g) ↔ ∃ c r, l = c :: r ∧ p c = true ∧ r ∈ globLang g := by
  rw [globLang, List.map_cons, List.prod_cons, Language.mem_mul]
  constructor
  · rintro ⟨_, ⟨c, hc, rfl⟩, r, hr, rfl⟩
    exact ⟨c, r, rfl, hc, hr⟩
  · rintro ⟨c, r, rfl, hc, hr⟩
    exact ⟨[c], ⟨c, hc, rfl⟩, r, hr, rfl⟩

theorem nil_not_mem_globLang_one {p : β → Bool} {g : List (Glob β)} : [] ∉ globLang (.one p :: g) := by
  intro hmem
  obtain ⟨_, _, hnil, -⟩ := mem_globLang_one.mp hmem
  exact absurd hnil.symm (List.cons_ne_nil _ _)

theorem cons_mem_globLang_one {p : β → Bool} {g : List (Glob β)} {c : β} {l : List β} :
    c :: l ∈ globLang (.one p :: g) ↔ p c = true ∧ l ∈ globLang g := by
  rw [mem_globLang_one]
  constructor
  · rintro ⟨d, r, heq, hd, hmem⟩
    obtain ⟨rfl, rfl⟩ := List.cons.inj heq
    exact ⟨hd, hmem⟩
  · rintro ⟨hc, hmem⟩
    exact ⟨c, l, rfl, hc, hmem⟩

theorem mem_globLang_star {g : List (Glob β)} {l : List β} :
    l ∈ globLang (.star :: g) ↔ ∃ t, t <:+ l ∧ t ∈ globLang g := by
  rw [globLang, List.map_cons, List.prod_cons, Language.mem_mul]
  constructor
  · rintro ⟨x, -, t, ht, rfl⟩
    exact ⟨t, List.suffix_append x t, ht⟩
  · rintro ⟨t, ⟨x, rfl⟩, ht⟩
    exact ⟨x, Set.mem_univ x, t, ht, rfl⟩

/-- **The search behind a star** may begin at the first symbol that the next token takes. -/
theorem mem_globLang_skip {p : β → Bool} {g : List (Glob β)} {l : List β} :
    l ∈ globLang (.star :: .one p :: g) ↔ l.dropWhile (!p ·) ∈ globLang (.star :: .one p :: g) := by
  constructor
  · intro hall
    obtain ⟨t, ht, hmem⟩ := mem_globLang_star.mp hall
    obtain ⟨c, r, rfl, hc, -⟩ := mem_globLang_one.mp hmem
    refine mem_globLang_star.mpr ⟨c :: r, ?_, hmem⟩
    clear hall hmem
    -- the token takes the symbol, so it does not stand in what is left out
    obtain ⟨x, rfl⟩ := ht
    induction x with
    | nil =>
      rw [List.nil_append, List.dropWhile_cons_of_neg (by simp [hc])]
    | cons d x ih =>
      rw [List.cons_append]
      by_cases hd : p d = true
      · rw [List.dropWhile_cons_of_neg (by simp [hd])]
        exact List.suffix_append (d :: x) (c :: r)
      · rw [List.dropWhile_cons_of_pos (by simpa using hd)]
        exact ih
  · intro hmem
    obtain ⟨t, ht, hmem⟩ := mem_globLang_star.mp hmem
    exact mem_globLang_star.mpr ⟨t, ht.trans (List.dropWhile_suffix _), hmem⟩

/-- Without a symbol that the next token takes there is nothing to find. -/
theorem not_mem_globLang_skip {p : β → Bool} {g : List (Glob β)} {l : List β} (hnone : ∀ c ∈ l, p c = false) :
    l ∉ globLang (.star :: .one p :: g) := by
  intro hmem
  obtain ⟨t, ht, hmem⟩ := mem_globLang_star.mp hmem
  obtain ⟨c, r, rfl, hc, -⟩ := mem_globLang_one.mp hmem
  have := hnone c (ht.subset List.mem_cons_self)
  rw [hc] at this
  contradiction

end Binkd.Lib
