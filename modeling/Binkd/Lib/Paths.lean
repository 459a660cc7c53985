import Mathlib.Data.List.Basic
import Mathlib.Data.List.Infix

/-!
# Paths

A path is a list of characters with a separator between its components; empty
components and those that are a single dot do not count.  A path lies directly in
a directory if it has one component more, and below it if it has some more, none
of which leads up (two dots).  Links are not followed.
-/

namespace Binkd.Lib

variable {β : Type} [DecidableEq β] (sep dot : β)

/-- The components of a path. -/
def components (p : List β) : List (List β) := (p.splitOn sep).filter fun n => n ≠ [] ∧ n ≠ [dot]

@[simp] theorem components_nil : components sep dot [] = [] := by simp [components]

/-- A separator separates. -/
theorem components_append (a b : List β) :
    components sep dot (a ++ sep :: b) = components sep dot a ++ components sep dot b := by
  unfold components
  rw [List.splitOn_append_cons_self, List.filter_append]

theorem components_snoc (a : List β) : components sep dot (a ++ [sep]) = components sep dot a := by
  rw [components_append, components_nil, List.append_nil]

/-- A name is its only component, unless it is empty or a dot. -/
theorem components_name {n : List β} (hn : sep ∉ n) :
    components sep dot n = if n ≠ [] ∧ n ≠ [dot] then [n] else [] := by
  unfold components
  rw [List.splitOn_eq_singleton hn, List.filter_cons]
  simp only [decide_eq_true_eq, List.filter_nil]

/-- The path lies directly in the directory. -/
def DirectlyIn (dir p : List β) : Prop :=
  ∃ n, n ≠ [dot, dot] ∧ components sep dot p = components sep dot dir ++ [n]

/-- The path lies below the directory. -/
def Below (dir p : List β) : Prop :=
  ∃ c, c ≠ [] ∧ [dot, dot] ∉ c ∧ components sep dot p = components sep dot dir ++ c

instance (dir p : List β) : Decidable (DirectlyIn sep dot dir p) :=
  decidable_of_iff ((components sep dot p).dropLast = components sep dot dir ∧
    ∃ n ∈ (components sep dot p).getLast?, n ≠ [dot, dot]) <| by
    constructor
    · rintro ⟨hdir, n, hn, hup⟩
      refine ⟨n, hup, ?_⟩
      rw [← hdir, List.dropLast_append_getLast? n hn]
    · rintro ⟨n, hup, hp⟩
      rw [hp]
      exact ⟨List.dropLast_concat, n, by simp, hup⟩

variable {sep dot}

/-- What lies directly in a directory below lies below. -/
theorem DirectlyIn.below {dir p : List β} (h : DirectlyIn sep dot dir p) : Below sep dot dir p := by
  obtain ⟨n, hn, hp⟩ := h
  exact ⟨[n], by simp, by simpa using fun h => hn h.symm, hp⟩

variable (sep) in
/-- A path is a name, or a directory and a name. -/
theorem eq_name_or_split (p : List β) : ∃ w, sep ∉ w ∧ (p = w ∨ ∃ a, p = a ++ sep :: w) := by
  induction p with
  | nil => exact ⟨[], by simp, .inl rfl⟩
  | cons c p ih =>
    obtain ⟨w, hw, rfl | ⟨a, rfl⟩⟩ := ih
    · by_cases hc : c = sep
      · exact ⟨p, hw, .inr ⟨[], by rw [hc]; rfl⟩⟩
      · exact ⟨c :: p, by simp [hw, Ne.symm hc], .inl rfl⟩
    · exact ⟨w, hw, .inr ⟨c :: a, rfl⟩⟩

variable (sep) in
/-- A path is a name, or a name and what is behind it. -/
theorem eq_name_or_head (p : List β) : ∃ w, sep ∉ w ∧ (p = w ∨ ∃ b, p = w ++ sep :: b) := by
  induction p with
  | nil => exact ⟨[], by simp, .inl rfl⟩
  | cons c p ih =>
    by_cases hc : c = sep
    · exact ⟨[], by simp, .inr ⟨p, by rw [hc]; rfl⟩⟩
    · obtain ⟨w, hw, rfl | ⟨b, rfl⟩⟩ := ih
      · exact ⟨c :: p, by simp [hw, Ne.symm hc], .inl rfl⟩
      · exact ⟨c :: w, by simp [hw, Ne.symm hc], .inr ⟨b, rfl⟩⟩

/-- What is put directly behind the last name of a path changes this name. -/
theorem components_extend {p x : List β} (hp : p ≠ []) (hsep : p.getLast? ≠ some sep)
    (hdot : p.getLast? ≠ some dot) (hx : x ≠ []) (hhead : x.head? ≠ some sep) (c : List (List β)) :
    components sep dot (p ++ x) ≠ components sep dot p ++ c := by
  intro heq
  obtain ⟨w, hw, hsplit⟩ := eq_name_or_split sep p
  have hne : w ≠ [] := by
    rintro rfl
    rcases hsplit with rfl | ⟨a, rfl⟩
    · exact hp rfl
    · simp at hsep
  have hwdot : w ≠ [dot] := by
    rintro rfl
    rcases hsplit with rfl | ⟨a, rfl⟩ <;> simp at hdot
  have hdir : components sep dot w = [w] := by rw [components_name _ _ hw, if_pos ⟨hne, hwdot⟩]
  obtain ⟨y, hy, hrest⟩ := eq_name_or_head sep x
  have hyne : y ≠ [] := by
    rintro rfl
    rcases hrest with rfl | ⟨b, rfl⟩
    · exact hx rfl
    · exact hhead rfl
  have hlong : w ++ y ≠ [dot] := by
    intro h
    have hlen := congrArg List.length h
    have := List.length_pos_iff.mpr hne
    have := List.length_pos_iff.mpr hyne
    simp only [List.length_append, List.length_singleton] at hlen
    omega
  have hwy : components sep dot (w ++ y) = [w ++ y] := by
    rw [components_name _ _ (by simp [hw, hy]), if_pos ⟨by simp [hne], hlong⟩]
  have hname : ∃ r, components sep dot (w ++ x) = (w ++ y) :: r := by
    rcases hrest with rfl | ⟨b, rfl⟩
    · exact ⟨[], hwy⟩
    · exact ⟨components sep dot b, by rw [← List.append_assoc, components_append, hwy, List.singleton_append]⟩
  obtain ⟨r, hr⟩ := hname
  have hlast : (w ++ y) :: r = w :: c := by
    rcases hsplit with rfl | ⟨a, rfl⟩
    · rwa [hr, hdir] at heq
    · rw [List.append_assoc, List.cons_append, components_append, components_append, hdir, hr,
        List.append_assoc] at heq
      exact List.append_cancel_left heq
  exact hyne (by simpa using (List.cons.inj hlast).1)

end Binkd.Lib
