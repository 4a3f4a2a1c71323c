import Mathlib.Data.List.Count
import Mathlib.Data.List.Sort
import Mathlib.Order.Defs.LinearOrder
import Mathlib.Tactic.Linarith

/-!
# Order statistics

The value of rank `m` in a list has at least `m` elements up to it, and at least as many from it on
as there are ranks from `m` on. Larger ranks have larger values, and in a sorted list the ranks are
the positions. A median has half of the list on either side.
-/

namespace Sockperf

set_option autoImplicit false

universe u

variable {α : Type u} [LinearOrder α]

structure Rank (l : List α) (m : Nat) (v : α) : Prop where
  mem : v ∈ l
  below : m ≤ l.countP (· ≤ v)
  above : l.length < l.countP (v ≤ ·) + m

structure IsMedian (l : List α) (v : α) : Prop where
  below : l.length ≤ 2 * l.countP (· ≤ v)
  above : l.length ≤ 2 * l.countP (v ≤ ·)

variable {l l' : List α} {m m' k : Nat} {v w : α}

theorem countP_le_add_countP_ge (h : v < w) :
    l.countP (· ≤ v) + l.countP (w ≤ ·) ≤ l.length := by
  induction l with
  | nil => exact le_rfl
  | cons x l ih =>
    rw [List.countP_cons, List.countP_cons, List.length_cons]
    by_cases hv : x ≤ v
    · have hw : ¬ w ≤ x := not_le.mpr (hv.trans_lt h)
      simp only [hv, hw, decide_true, decide_false, if_true, Bool.false_eq_true, if_false]
      omega
    · simp only [hv, decide_false, Bool.false_eq_true, if_false]
      split <;> omega

theorem countP_le_mono (h : v ≤ w) : l.countP (· ≤ v) ≤ l.countP (· ≤ w) := by
  apply List.countP_mono_left
  intro x _ hx
  exact decide_eq_true ((of_decide_eq_true hx).trans h)

theorem countP_ge_anti (h : v ≤ w) : l.countP (w ≤ ·) ≤ l.countP (v ≤ ·) := by
  apply List.countP_mono_left
  intro x _ hx
  exact decide_eq_true (h.trans (of_decide_eq_true hx))

namespace Rank

theorem perm (hp : l.Perm l') (h : Rank l m v) : Rank l' m v where
  mem := hp.mem_iff.mp h.mem
  below := hp.countP_eq _ ▸ h.below
  above := by
    rw [← hp.length_eq, ← hp.countP_eq]
    exact h.above

theorem mono (h : Rank l m v) (h' : Rank l m' w) (hle : m ≤ m') : v ≤ w := by
  by_contra hlt
  have hdisjoint := countP_le_add_countP_ge (l := l) (not_le.mp hlt)
  have hbelow := h'.below
  have habove := h.above
  omega

theorem first_le (h : Rank l 1 v) (hw : w ∈ l) : v ≤ w := by
  by_contra hlt
  have hall := h.above
  have hle : l.countP (v ≤ ·) < l.length := by
    rw [List.countP_lt_length_iff]
    exact ⟨w, hw, by simpa using hlt⟩
  omega

theorem le_last (h : Rank l l.length v) (hw : w ∈ l) : w ≤ v := by
  have hall : l.countP (· ≤ v) = l.length := le_antisymm List.countP_le_length h.below
  rw [List.countP_eq_length] at hall
  exact of_decide_eq_true (hall w hw)

theorem of_sorted (hs : l.Pairwise (· ≤ ·)) (hk : l[k]? = some v) : Rank l (k + 1) v := by
  induction l generalizing k with
  | nil => cases hk
  | cons x l ih =>
    obtain ⟨hx, hs⟩ := List.pairwise_cons.mp hs
    cases k with
    | zero =>
      obtain rfl : x = v := Option.some.inj hk
      have hall : l.countP (x ≤ ·) = l.length := by
        rw [List.countP_eq_length]
        intro y hy
        exact decide_eq_true (hx y hy)
      refine ⟨List.mem_cons_self, ?_, ?_⟩
      · rw [List.countP_cons, if_pos (decide_eq_true le_rfl)]
        omega
      · rw [List.countP_cons, if_pos (decide_eq_true le_rfl), hall, List.length_cons]
        omega
    | succ k =>
      rw [List.getElem?_cons_succ] at hk
      have h := ih hs hk
      have hxv := hx v h.mem
      have hbelow := h.below
      have habove := h.above
      refine ⟨List.mem_cons_of_mem _ h.mem, ?_, ?_⟩
      · rw [List.countP_cons, if_pos (decide_eq_true hxv)]
        omega
      · rw [List.countP_cons, List.length_cons]
        split <;> omega

theorem isMedian (h : Rank l (k + 1) v) (hk : l.length = 2 * k + 1) : IsMedian l v := by
  have hbelow := h.below
  have habove := h.above
  constructor <;> omega

theorem isMedian_between {c : α} (h : Rank l k v) (h' : Rank l (k + 1) w) (hk : l.length = 2 * k)
    (hv : v ≤ c) (hw : c ≤ w) : IsMedian l c := by
  have hbelow := h.below.trans (countP_le_mono hv)
  have habove := h'.above.trans_le (Nat.add_le_add_right (countP_ge_anti hw) _)
  constructor <;> omega

end Rank

theorem IsMedian.perm (hp : l.Perm l') (h : IsMedian l v) : IsMedian l' v where
  below := by
    rw [← hp.length_eq, ← hp.countP_eq]
    exact h.below
  above := by
    rw [← hp.length_eq, ← hp.countP_eq]
    exact h.above

end Sockperf
