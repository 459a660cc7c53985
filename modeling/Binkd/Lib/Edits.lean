import Mathlib.Data.List.Induction
import Mathlib.Data.List.Nodup

/-!
# Edits of a list without repetitions

A list holds at most one element for each key.  An edit puts an element at the end, unless its
key is there, or takes away what has a key.  After a chain of edits a key is there if the last
edit for it has put it there; a key that no edit is about is there if it was before
(`mem_edits`).
-/

namespace Binkd.Lib

variable {α κ : Type*} [DecidableEq κ] (key : α → κ)

/-- An edit for the key of an element. -/
structure Edit (α : Type*) where
  puts : Bool
  elem : α

/-- One edit. -/
def Edit.apply (e : Edit α) (l : List α) : List α :=
  if e.puts then (if l.any fun a => key a = key e.elem then l else l ++ [e.elem])
  else l.filter fun a => key a ≠ key e.elem

/-- A chain of edits. -/
def edits (es : List (Edit α)) (l : List α) : List α := es.foldl (fun l e => e.apply key l) l

variable {key} {e : Edit α} {es : List (Edit α)} {l : List α} {k : κ}

theorem edits_snoc (es : List (Edit α)) (e : Edit α) (l : List α) :
    edits key (es ++ [e]) l = e.apply key (edits key es l) := by
  simp [edits]

theorem Edit.apply_nodup (h : (l.map key).Nodup) : ((e.apply key l).map key).Nodup := by
  unfold apply
  split_ifs with hputs hany
  · exact h
  · rw [List.map_append, List.nodup_append]
    refine ⟨h, List.nodup_singleton _, ?_⟩
    rintro a ha b hb rfl
    obtain ⟨c, hc, hkey⟩ := List.mem_map.mp ha
    refine hany (List.any_eq_true.mpr ⟨c, hc, ?_⟩)
    simpa [hkey] using hb
  · exact h.sublist (List.filter_sublist.map key)

theorem Edit.mem_apply (e : Edit α) (l : List α) (k : κ) : k ∈ (e.apply key l).map key ↔
    if key e.elem = k then e.puts = true else k ∈ l.map key := by
  unfold apply
  by_cases hk : key e.elem = k
  · subst hk
    rw [if_pos rfl]
    split_ifs with hputs hany
    · obtain ⟨a, ha, hkey⟩ := List.any_eq_true.mp hany
      exact iff_of_true (List.mem_map.mpr ⟨a, ha, of_decide_eq_true hkey⟩) hputs
    · exact iff_of_true (by simp) hputs
    · refine iff_of_false (fun h => ?_) hputs
      obtain ⟨a, ha, hkey⟩ := List.mem_map.mp h
      exact of_decide_eq_true (List.mem_filter.mp ha).2 hkey
  · rw [if_neg hk]
    split_ifs with hputs hany
    · rfl
    · rw [List.map_append, List.mem_append, List.map_singleton, List.mem_singleton]
      exact or_iff_left fun h => hk h.symm
    · constructor
      · intro h
        obtain ⟨a, ha, hkey⟩ := List.mem_map.mp h
        exact List.mem_map.mpr ⟨a, List.mem_of_mem_filter ha, hkey⟩
      · intro h
        obtain ⟨a, ha, hkey⟩ := List.mem_map.mp h
        refine List.mem_map.mpr ⟨a, List.mem_filter.mpr ⟨ha, decide_eq_true ?_⟩, hkey⟩
        rw [hkey]
        exact fun h => hk h.symm

/-- No chain of edits repeats a key. -/
theorem edits_nodup (h : (l.map key).Nodup) (es : List (Edit α)) : ((edits key es l).map key).Nodup := by
  induction es using List.reverseRecOn with
  | nil => exact h
  | append_singleton es e ih =>
    rw [edits_snoc]
    exact Edit.apply_nodup ih

/-- The last edit for a key decides. -/
theorem mem_edits (es : List (Edit α)) (l : List α) (k : κ) : k ∈ (edits key es l).map key ↔
    match es.reverse.find? fun e => key e.elem = k with
    | some e => e.puts = true
    | none => k ∈ l.map key := by
  induction es using List.reverseRecOn with
  | nil => rfl
  | append_singleton es e ih =>
    rw [edits_snoc, Edit.mem_apply, List.reverse_append, List.reverse_singleton, List.singleton_append]
    by_cases hk : key e.elem = k
    · rw [if_pos hk, List.find?_cons_of_pos (by simpa using hk)]
    · rw [if_neg hk, ih, List.find?_cons_of_neg (by simpa using hk)]

end Binkd.Lib
