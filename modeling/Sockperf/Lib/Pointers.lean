import Mathlib.Data.List.Rotate
import Mathlib.Data.List.Nodup

/-!
# Following pointers

A pointer structure is a partial function `next`. `Follows next a as b` says that from `a` on it
visits the list `as` and then gets to `b`. A path that meets its end for the first time does not
meet anything twice, and a closed path is met in the same order from each of its points.
-/

namespace Sockperf

set_option autoImplicit false

universe u
variable {α : Type u}

inductive Follows (next : α → Option α) : α → List α → α → Prop where
  | nil (a : α) : Follows next a [] a
  | cons {a b c : α} {as : List α} :
      next a = some b → Follows next b as c → Follows next a (a :: as) c

namespace Follows
variable {next next' : α → Option α} {a b c d : α} {as bs : List α}

theorem append (h : Follows next a as b) (h' : Follows next b bs c) :
    Follows next a (as ++ bs) c := by
  induction h with
  | nil => exact h'
  | cons hnext _ ih => exact .cons hnext (ih h')

theorem concat (h : Follows next a as b) (hnext : next b = some c) :
    Follows next a (as ++ [b]) c :=
  h.append (.cons hnext (.nil c))

theorem split (h : Follows next a (as ++ bs) c) :
    ∃ b, Follows next a as b ∧ Follows next b bs c := by
  induction as generalizing a with
  | nil => exact ⟨a, .nil a, h⟩
  | cons x as ih =>
    cases h with
    | cons hnext h =>
      obtain ⟨b, hfirst, hrest⟩ := ih h
      exact ⟨b, .cons hnext hfirst, hrest⟩

theorem isSome (h : Follows next a as b) : ∀ x ∈ as, (next x).isSome = true := by
  induction h with
  | nil => exact fun x hx => absurd hx List.not_mem_nil
  | cons hnext _ ih =>
    intro x hx
    rcases List.mem_cons.mp hx with rfl | hx
    · rw [hnext]
      rfl
    · exact ih x hx

theorem head (h : Follows next a as b) : (as ++ [b])[0]? = some a := by
  cases h with
  | nil => rfl
  | cons => rfl

theorem next_eq (h : Follows next a as b) {j : Nat} {x y : α} (hx : as[j]? = some x)
    (hy : (as ++ [b])[j + 1]? = some y) : next x = some y := by
  induction h generalizing j with
  | nil => cases hx
  | cons hnext hrest ih =>
    rw [List.cons_append, List.getElem?_cons_succ] at hy
    cases j with
    | zero =>
      cases hx
      rw [hnext, ← hy]
      exact hrest.head.symm
    | succ j =>
      rw [List.getElem?_cons_succ] at hx
      exact ih hx hy

theorem eq_head {x : α} (h : Follows next a (x :: as) c) : x = a := by
  cases h
  rfl

theorem start_mem (h : Follows next a as b) : a ∈ as ++ [b] := by
  cases h with
  | nil => exact List.mem_singleton_self a
  | cons => exact List.mem_cons_self

theorem unique (h : Follows next a as c) (h' : Follows next a bs c) (hc : c ∉ as) (hc' : c ∉ bs) :
    as = bs := by
  induction h generalizing bs with
  | nil =>
    cases h' with
    | nil => rfl
    | cons => exact absurd List.mem_cons_self hc'
  | cons hnext _ ih =>
    cases h' with
    | nil => exact absurd List.mem_cons_self hc
    | cons hnext' h' =>
      cases hnext.symm.trans hnext'
      rw [ih h' (fun hmem => hc (List.mem_cons_of_mem _ hmem))
        (fun hmem => hc' (List.mem_cons_of_mem _ hmem))]

theorem nodup (h : Follows next a as c) (hc : c ∉ as) : as.Nodup := by
  induction h with
  | nil => exact List.nodup_nil
  | @cons a b c as hnext h ih =>
    have hrest : c ∉ as := fun hmem => hc (List.mem_cons_of_mem a hmem)
    refine List.nodup_cons.mpr ⟨?_, ih hrest⟩
    intro hmem
    obtain ⟨before, after, rfl⟩ := List.append_of_mem hmem
    obtain ⟨d, -, hagain⟩ := h.split
    cases hagain.eq_head
    have heq := unique (.cons hnext h) hagain hc
      (fun hmem => hrest (List.mem_append_right before hmem))
    have hlength := congrArg List.length heq
    simp at hlength
    omega

theorem congr (h : Follows next a as b) (heq : ∀ x ∈ as, next' x = next x) :
    Follows next' a as b := by
  induction h with
  | nil => exact .nil _
  | @cons a _ _ as hnext _ ih =>
    refine .cons ((heq a List.mem_cons_self).trans hnext) (ih ?_)
    intro x hx
    exact heq x (List.mem_cons_of_mem a hx)

end Follows

/-- The `n` points from `a` on, and the one after them. -/
def follow (next : α → Option α) : Nat → α → Option (List α × α)
  | 0, a => some ([], a)
  | n+1, a =>
    match next a with
    | none => none
    | some b => (follow next n b).map fun r => (a :: r.1, r.2)

variable {next : α → Option α} {a b : α} {as : List α} {n : Nat}

theorem Follows.follow_eq (h : Follows next a as b) : follow next as.length a = some (as, b) := by
  induction h with
  | nil => rfl
  | cons hnext _ ih => simp [follow, hnext, ih]

/-! ## Rings -/

/-- From `first` on the list is visited once, up to `last`, and then `first` is met again. -/
structure IsRing (next : α → Option α) (first last : α) (as : List α) : Prop where
  path : Follows next first as first
  nodup : as.Nodup
  last_eq : as.getLast? = some last

namespace IsRing
variable {first last : α}

theorem of_arrival (h : Follows next first as last) (hlast : last ∉ as)
    (hnext : next last = some first) : IsRing next first last (as ++ [last]) where
  path := h.concat hnext
  nodup := List.nodup_append.mpr ⟨h.nodup hlast, List.nodup_singleton last, by
    rintro x hx y hy rfl
    exact hlast (List.mem_singleton.mp hy ▸ hx)⟩
  last_eq := by simp

theorem arrival (h : IsRing next first last as) :
    ∃ before, as = before ++ [last] ∧ Follows next first before last ∧ last ∉ before ∧
      next last = some first := by
  obtain ⟨before, rfl⟩ := List.getLast?_eq_some_iff.mp h.last_eq
  obtain ⟨b, hpath, hback⟩ := h.path.split
  cases hback with
  | cons hnext hnil =>
    cases hnil
    refine ⟨before, rfl, hpath, ?_, hnext⟩
    intro hmem
    exact (List.nodup_append.mp h.nodup).2.2 last hmem last (List.mem_singleton_self last) rfl

theorem rotate_one (h : Follows next a as a) (hne : as ≠ []) :
    ∃ b, next a = some b ∧ Follows next b (as.rotate 1) b := by
  cases h with
  | nil => exact absurd rfl hne
  | @cons _ b _ as hnext h =>
    refine ⟨b, hnext, ?_⟩
    rw [List.rotate_cons_succ, List.rotate_zero]
    exact h.concat hnext

theorem follow_ring (h : Follows next a as a) (hne : as ≠ []) (k : Nat) :
    ∃ passed b, follow next k a = some (passed, b) ∧ Follows next b (as.rotate k) b := by
  induction k generalizing a as with
  | zero => exact ⟨[], a, rfl, by rwa [List.rotate_zero]⟩
  | succ k ih =>
    obtain ⟨b, hnext, hb⟩ := rotate_one h hne
    obtain ⟨passed, c, hfollow, hc⟩ := ih hb (by simpa using hne)
    refine ⟨a :: passed, c, by simp [follow, hnext, hfollow], ?_⟩
    rwa [List.rotate_rotate, Nat.add_comm] at hc

theorem window (h : IsRing next first last as) (k : Nat) :
    ∃ passed b visited, follow next k first = some (passed, b) ∧
      follow next as.length b = some (visited, b) ∧ visited.Perm as := by
  have hne : as ≠ [] := by
    rintro rfl
    cases h.last_eq
  obtain ⟨passed, b, hfollow, hb⟩ := follow_ring h.path hne k
  refine ⟨passed, b, as.rotate k, hfollow, ?_, List.rotate_perm as k⟩
  rw [← List.length_rotate as k]
  exact hb.follow_eq

theorem visits (h : IsRing next first last as) {bs : List α} {b : α} (hbs : Follows next first bs b)
    {j : Nat} {x : α} (hx : (bs ++ [b])[j]? = some x) : as[j % as.length]? = some x := by
  have hpos : 0 < as.length := by
    rw [List.length_pos_iff]
    rintro rfl
    cases h.last_eq
  have hfirst : as[0]? = some first := by
    rw [← h.path.head, List.getElem?_append_left hpos]
  induction j generalizing x with
  | zero =>
    rw [Nat.zero_mod, hfirst, ← hx]
    exact hbs.head.symm
  | succ j ih =>
    have hj : j < bs.length := by
      have hlt := (List.getElem?_eq_some_iff.mp hx).1
      rw [List.length_append, List.length_singleton] at hlt
      omega
    have hmod := Nat.mod_lt j hpos
    have hbefore : bs[j]? = some bs[j] := List.getElem?_eq_getElem hj
    have hpassed : as[j % as.length]? = some bs[j] := by
      apply ih
      rw [List.getElem?_append_left hj]
      exact hbefore
    have hnext : next bs[j] = some x := hbs.next_eq hbefore hx
    -- either the next place of the ring or, from its end, the first one
    rcases Nat.lt_or_ge (j % as.length + 1) as.length with hlt | hge
    · have hstep := h.path.next_eq hpassed
        (by rw [List.getElem?_append_left hlt]; exact List.getElem?_eq_getElem hlt)
      rw [Nat.add_mod, Nat.one_mod_eq_one.mpr (by omega), Nat.mod_eq_of_lt hlt,
        List.getElem?_eq_getElem hlt]
      exact hstep.symm.trans hnext
    · have hlast : j % as.length + 1 = as.length := by omega
      have hstep := h.path.next_eq hpassed (by rw [hlast]; exact List.getElem?_concat_length)
      have hwrap : (j + 1) % as.length = 0 := by
        rw [← Nat.mod_add_mod, hlast, Nat.mod_self]
      rw [hwrap, hfirst]
      exact hstep.symm.trans hnext

end IsRing

end Sockperf
