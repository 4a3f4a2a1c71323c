import Mathlib.Data.List.Induction
import Mathlib.Data.List.Nodup

/-!
# Numbers in the order of first appearance

Keys that are numbered when they are first seen: the number of a key is its position in the list of
the keys seen so far.
-/

namespace Sockperf

set_option autoImplicit false

universe u

variable {α : Type u} [DecidableEq α]

/-- Every element once, where it comes first. -/
def firsts (l : List α) : List α :=
  l.foldl (fun seen a => if a ∈ seen then seen else seen ++ [a]) []

variable {l : List α} {a : α}

theorem firsts_concat (l : List α) (a : α) :
    firsts (l ++ [a]) = if a ∈ firsts l then firsts l else firsts l ++ [a] :=
  List.foldl_concat _ _ _ _

theorem mem_firsts : a ∈ firsts l ↔ a ∈ l := by
  induction l using List.reverseRecOn with
  | nil => exact Iff.rfl
  | append_singleton l b ih =>
    rw [firsts_concat]
    split
    · next hb =>
      rw [List.mem_append, List.mem_singleton, ih]
      refine ⟨Or.inl, ?_⟩
      rintro (ha | rfl)
      · exact ha
      · exact ih.mp hb
    · rw [List.mem_append, List.mem_append, ih]

theorem idxOf?_of_mem (ha : a ∈ l) : l.idxOf? a = some (l.idxOf a) := by
  have hsome : l.idxOf? a ≠ none := mt List.idxOf?_eq_none_iff.mp (not_not.mpr ha)
  obtain ⟨i, hi⟩ := Option.ne_none_iff_exists'.mp hsome
  rw [hi, List.idxOf_eq_getD_idxOf?, hi, Option.getD_some]

theorem firsts_nodup (l : List α) : (firsts l).Nodup := by
  induction l using List.reverseRecOn with
  | nil => exact List.nodup_nil
  | append_singleton l b ih =>
    rw [firsts_concat]
    split
    · exact ih
    · next hb => exact List.nodup_append.mpr ⟨ih, List.nodup_singleton b, by
        intro x hx y hy heq
        rw [List.mem_singleton.mp hy] at heq
        exact hb (heq ▸ hx)⟩

end Sockperf
