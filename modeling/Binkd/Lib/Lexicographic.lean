import Binkd.Lib.Bsearch

/-!
# Comparisons one after another

A record is compared by its first field, where that ties by the second, and so on.
`thenCmp` is one step of this, and it keeps a total order (`CmpTotal.thenCmp`); the
differences of integers are one (`cmpTotal_sub`).
-/

namespace Binkd.Lib

variable {α β : Type} {f g : α → α → Int} {S : α → Prop}

/-- The first comparison, and where it finds a tie the second one. -/
def thenCmp (f g : α → α → Int) (a b : α) : Int := if f a b ≠ 0 then f a b else g a b

theorem thenCmp_of_ne {a b : α} (h : f a b ≠ 0) : thenCmp f g a b = f a b := if_pos h

theorem thenCmp_of_eq {a b : α} (h : f a b = 0) : thenCmp f g a b = g a b := if_neg (not_not_intro h)

theorem CmpTotal.thenCmp (hf : CmpTotal f S) (hg : CmpTotal g S) : CmpTotal (thenCmp f g) S where
  antisymm a b ha hb := by
    have hab := hf.antisymm a b ha hb
    have hba := hf.antisymm b a hb ha
    by_cases htie : f a b = 0
    · rw [thenCmp_of_eq htie, thenCmp_of_eq (hf.eq_symm ha hb htie)]
      exact hg.antisymm a b ha hb
    · have hne : f b a ≠ 0 := fun h => htie (hf.eq_symm hb ha h)
      rw [thenCmp_of_ne htie, thenCmp_of_ne hne]
      exact hab
  trans a b c ha hb hc hab hbc := by
    by_cases htie : f a b = 0
    · rw [thenCmp_of_eq htie] at hab
      by_cases htie' : f b c = 0
      · rw [thenCmp_of_eq htie'] at hbc
        rw [thenCmp_of_eq (hf.eq_trans ha hb hc htie htie')]
        exact hg.trans a b c ha hb hc hab hbc
      · -- the first comparison decides between `b` and `c`, so it decides between `a` and `c`
        rw [thenCmp_of_ne htie'] at hbc
        have hle := hf.trans a b c ha hb hc (by omega) hbc
        have hne : f a c ≠ 0 := fun h => htie' (hf.eq_trans hb ha hc (hf.eq_symm ha hb htie) h)
        rw [thenCmp_of_ne hne]
        exact hle
    · rw [thenCmp_of_ne htie] at hab
      have hle : f b c ≤ 0 := by
        by_cases htie' : f b c = 0
        · omega
        · rwa [thenCmp_of_ne htie'] at hbc
      have hlt := hf.lt_of_lt_of_le ha hb hc (by omega) hle
      rw [thenCmp_of_ne (by omega)]
      omega

/-- Values are compared by a key. -/
theorem CmpTotal.comap {T : β → Prop} (hf : CmpTotal f S) (key : β → α) (hkey : ∀ b, T b → S (key b)) :
    CmpTotal (fun a b => f (key a) (key b)) T where
  antisymm a b ha hb := hf.antisymm _ _ (hkey a ha) (hkey b hb)
  trans a b c ha hb hc := hf.trans _ _ _ (hkey a ha) (hkey b hb) (hkey c hc)

theorem CmpTotal.congr (hf : CmpTotal f S) (h : ∀ a b, S a → S b → g a b = f a b) : CmpTotal g S where
  antisymm a b ha hb := by
    rw [h a b ha hb, h b a hb ha]
    exact hf.antisymm a b ha hb
  trans a b c ha hb hc := by
    rw [h a b ha hb, h b c hb hc, h a c ha hc]
    exact hf.trans a b c ha hb hc

theorem cmpTotal_sub (key : α → Int) : CmpTotal (fun a b => key a - key b) S where
  antisymm a b _ _ := by omega
  trans a b c _ _ _ := by omega

end Binkd.Lib
