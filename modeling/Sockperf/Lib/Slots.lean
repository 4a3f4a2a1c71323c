import Mathlib.Data.List.Perm.Basic
import Sockperf.Lib.While

/-!
# Slots that are used first-fit

A row of slots, some of them free. A value goes into the first free slot and
leaves its slot free again, in any order, while somebody else counts the used
ones. A reader who trusts that count looks at the slots from the first one on
until it has seen as many used slots as were counted.
-/

namespace Slots

open Sockperf.While
set_option autoImplicit false

universe u v
variable {α : Type u} [DecidableEq α] {free : α} {l : List α} {x : α}

variable (free) in
/-- The values in the used slots, in order. -/
def used (l : List α) : List α := l.filter (· ≠ free)

@[simp] theorem used_nil : used free [] = [] := rfl

@[simp] theorem used_cons_free : used free (free :: l) = used free l := by simp [used]

theorem used_cons (hx : x ≠ free) : used free (x :: l) = x :: used free l := by simp [used, hx]

theorem used_append (l l' : List α) : used free (l ++ l') = used free l ++ used free l' :=
  List.filter_append l l'

theorem mem_used : x ∈ used free l ↔ x ∈ l ∧ x ≠ free := by simp [used]

theorem used_replicate (n : Nat) : used free (List.replicate n free) = [] := by
  induction n with
  | zero => rfl
  | succ n ih => rw [List.replicate_succ, used_cons_free, ih]

theorem used_replace_free (hx : x ≠ free) (h : free ∈ l) :
    (used free (l.replace free x)).Perm (x :: used free l) := by
  induction l with
  | nil => cases h
  | cons y l ih =>
    by_cases hy : y = free
    · subst hy
      rw [List.replace_cons_self, used_cons hx, used_cons_free]
    · have hmem : free ∈ l := by
        rcases List.mem_cons.mp h with heq | hmem
        · exact absurd heq.symm hy
        · exact hmem
      rw [List.replace_cons, beq_false_of_ne (Ne.symm hy), used_cons hy, used_cons hy]
      exact ((ih hmem).cons y).trans (List.Perm.swap x y _)

theorem used_replace_used (hx : x ≠ free) :
    used free (l.replace x free) = (used free l).erase x := by
  induction l with
  | nil => rfl
  | cons y l ih =>
    by_cases hy : y = x
    · subst hy
      rw [List.replace_cons_self, used_cons_free, used_cons hx, List.erase_cons_head]
    · rw [List.replace_cons, beq_false_of_ne (Ne.symm hy)]
      by_cases hfree : y = free
      · subst hfree
        rw [used_cons_free, used_cons_free]
        exact ih
      · rw [used_cons hfree, used_cons hfree, List.erase_cons_tail (by simpa using hy)]
        exact congrArg _ ih

variable (free) in
/-- All used slots are among the first `n`. -/
def Within (n : Nat) (l : List α) : Prop := ∀ i y, l[i]? = some y → y ≠ free → i < n

omit [DecidableEq α] in
theorem Within.of_cons {n : Nat} {y : α} (h : Within free (n + 1) (y :: l)) : Within free n l := by
  intro i z hz hne
  have hlt := h (i + 1) z (by rw [List.getElem?_cons_succ]; exact hz) hne
  omega

omit [DecidableEq α] in
theorem Within.cons {n : Nat} (h : Within free n l) (y : α) : Within free (n + 1) (y :: l) := by
  intro i z hz hne
  cases i with
  | zero => omega
  | succ i =>
    rw [List.getElem?_cons_succ] at hz
    have hlt := h i z hz hne
    omega

theorem Within.used_zero (h : Within free 0 l) : used free l = [] := by
  apply List.filter_eq_nil_iff.mpr
  intro y hy hne
  obtain ⟨i, hi⟩ := List.getElem?_of_mem hy
  exact absurd (h i y hi (of_decide_eq_true hne)) (Nat.not_lt_zero i)

theorem Within.used_one (h : Within free 1 l) :
    used free l = [] ∨ ∃ y, l[0]? = some y ∧ used free l = [y] := by
  cases l with
  | nil => exact Or.inl rfl
  | cons y l =>
    have hrest : used free l = [] := h.of_cons.used_zero
    by_cases hy : y = free
    · rw [hy, used_cons_free]
      exact Or.inl hrest
    · rw [used_cons hy, hrest]
      exact Or.inr ⟨y, rfl, rfl⟩

omit [DecidableEq α] in
theorem Within.replicate (n k : Nat) : Within free n (List.replicate k free) := by
  intro i y hy hne
  exact absurd (List.eq_of_mem_replicate (List.mem_of_getElem? hy)) hne

theorem Within.replace_free {n : Nat} (h : Within free n l) (hroom : (used free l).length < n) :
    Within free n (l.replace free x) := by
  induction l generalizing n with
  | nil => exact h
  | cons y l ih =>
    obtain ⟨n, rfl⟩ : ∃ k, n = k + 1 := ⟨n - 1, by omega⟩
    by_cases hy : y = free
    · subst hy
      rw [List.replace_cons_self]
      exact h.of_cons.cons x
    · rw [List.replace_cons, beq_false_of_ne (Ne.symm hy)]
      rw [used_cons hy, List.length_cons] at hroom
      exact (ih h.of_cons (by omega)).cons y

theorem Within.replace_used {n : Nat} (h : Within free n l) : Within free n (l.replace x free) := by
  intro i y hy hne
  rw [List.getElem?_replace] at hy
  split at hy
  · next hx =>
    split at hy
    · exact h i y (by rw [← hy]; simpa using hx) hne
    · cases hy
      exact absurd rfl hne
  · exact h i y hy hne

/-! ## Reading the used slots -/

inductive Fault where
  | outOfBounds
  | limit
  | check
  deriving DecidableEq, Repr

section Scan
variable {ρ : Type v} (free) (limit : Nat) (visit : ρ → α → ρ) (check : ρ → Bool) (l)

structure Scan (ρ : Type v) where
  i : Nat
  count : Int
  seen : ρ

/-- The slot with `y` was looked at. -/
def Scan.past (s : Scan ρ) (y : α) : Scan ρ :=
  if y ≠ free then ⟨s.i + 1, s.count - 1, visit s.seen y⟩ else { s with i := s.i + 1 }

/-- One turn of a loop that counts down at each used slot. The index is checked against a limit,
and what was gathered is checked too. -/
def scanTurn (s : Scan ρ) : Turn (Scan ρ) (Except Fault (Scan ρ)) :=
  if s.count = 0 then .done (.ok s)
  else
    match l[s.i]? with
    | none => .done (.error .outOfBounds)
    | some y =>
      let s := s.past free visit y
      if ¬ s.i < limit then .done (.error .limit)
      else if check s.seen then .next s
      else .done (.error .check)

variable (init : ρ)

/-- What the loop has done when it comes to index `i`. -/
structure Scanned (s : Scan ρ) : Prop where
  count : s.count = (used free (l.drop s.i)).length
  seen : s.seen = (used free (l.take s.i)).foldl visit init
  below : s.i < limit

variable {free l limit visit check init}

theorem Scanned.ended {s : Scan ρ} (h : Scanned free l limit visit init s) (hcount : s.count = 0) :
    s.seen = (used free l).foldl visit init := by
  have hnil : used free (l.drop s.i) = [] := by
    apply List.length_eq_zero_iff.mp
    have := h.count
    omega
  have hall : used free l = used free (l.take s.i) := by
    rw [← List.append_nil (used free (l.take s.i)), ← hnil, ← used_append, List.take_append_drop]
  rw [hall]
  exact h.seen

theorem Scanned.index {s : Scan ρ} (h : Scanned free l limit visit init s) (hcount : s.count ≠ 0)
    {n : Nat} (hwithin : Within free n l) : s.i < n ∧ ∃ y, l[s.i]? = some y := by
  have hne : used free (l.drop s.i) ≠ [] := by
    intro hnil
    apply hcount
    rw [h.count, hnil]
    rfl
  obtain ⟨y, hy⟩ := List.exists_mem_of_ne_nil _ hne
  obtain ⟨hmem, hused⟩ := mem_used.mp hy
  obtain ⟨j, hj⟩ := List.mem_iff_getElem?.mp hmem
  rw [List.getElem?_drop] at hj
  have hlt := hwithin _ y hj hused
  have hlen : s.i < l.length := by
    have := (List.getElem?_eq_some_iff.mp hj).1
    omega
  exact ⟨by omega, l[s.i], List.getElem?_eq_getElem hlen⟩

theorem used_take_isPrefix (n : Nat) : used free (l.take n) <+: used free l := by
  refine ⟨used free (l.drop n), ?_⟩
  rw [← used_append, List.take_append_drop]

theorem Scanned.past {s : Scan ρ} (h : Scanned free l limit visit init s) (hcount : s.count ≠ 0)
    {n : Nat} (hwithin : Within free n l) (hn : n < limit) :
    ∃ y, l[s.i]? = some y ∧ Scanned free l limit visit init (s.past free visit y) ∧
      (s.past free visit y).i = s.i + 1 ∧ s.i < l.length := by
  obtain ⟨hi, y, hy⟩ := h.index hcount hwithin
  obtain ⟨hlen, hget⟩ := List.getElem?_eq_some_iff.mp hy
  have hdrop : l.drop s.i = y :: l.drop (s.i + 1) := by
    rw [List.drop_eq_getElem_cons hlen, hget]
  have htake : l.take (s.i + 1) = l.take s.i ++ [y] := by
    rw [List.take_add_one, hy]
    rfl
  have hc := h.count
  rw [hdrop] at hc
  refine ⟨y, hy, ?_⟩
  unfold Scan.past
  by_cases hfree : y = free
  · subst hfree
    rw [used_cons_free] at hc
    rw [if_neg (by simp)]
    refine ⟨⟨hc, ?_, by dsimp only; omega⟩, rfl, hlen⟩
    dsimp only
    rw [htake, used_append, used_cons_free, used_nil, List.append_nil]
    exact h.seen
  · rw [used_cons hfree, List.length_cons] at hc
    rw [if_pos hfree]
    refine ⟨⟨by dsimp only; omega, ?_, by dsimp only; omega⟩, rfl, hlen⟩
    dsimp only
    rw [htake, used_append, used_cons hfree, used_nil, List.foldl_append, ← h.seen]
    rfl

variable (check) in
theorem Scanned.turn {s : Scan ρ} (h : Scanned free l limit visit init s) (hcount : s.count ≠ 0)
    {n : Nat} (hwithin : Within free n l) (hn : n < limit) :
    ∃ s', scanTurn free l limit visit check s =
        (if check s'.seen then .next s' else .done (.error .check)) ∧
      Scanned free l limit visit init s' ∧ s'.i = s.i + 1 ∧ s.i < l.length := by
  obtain ⟨y, hy, hscanned, hi, hlen⟩ := h.past hcount hwithin hn
  refine ⟨_, ?_, hscanned, hi, hlen⟩
  unfold scanTurn
  rw [if_neg hcount, hy]
  dsimp only
  rw [if_neg (not_not.mpr hscanned.below)]

variable (visit check init) in
/-- A reader with the right count stays below the limit: it visits every used slot once unless
what it has gathered fails the check. -/
theorem scan_ends {n : Nat} (hwithin : Within free n l) (hn : n < limit) :
    ∃ r, iterate (scanTurn free l limit visit check) (l.length + 1)
        ⟨0, (used free l).length, init⟩ = some r ∧
      ((r = .error .check ∧ ∃ xs, xs <+: used free l ∧ check (xs.foldl visit init) = false) ∨
        ∃ i, i < limit ∧ r = .ok ⟨i, 0, (used free l).foldl visit init⟩) := by
  have hstart : Scanned free l limit visit init ⟨0, (used free l).length, init⟩ :=
    ⟨rfl, rfl, by dsimp only; omega⟩
  apply returns_of_variant (scanTurn free l limit visit check) (Scanned free l limit visit init) _
    (fun s => l.length - s.i) hstart
  intro s hs
  by_cases hcount : s.count = 0
  · refine Or.inr ⟨.ok s, ?_, Or.inr ⟨s.i, hs.below, ?_⟩⟩
    · rw [scanTurn, if_pos hcount]
    · rw [← hs.ended hcount, ← hcount]
  · obtain ⟨s', hturn, hnext, hi, hlen⟩ := hs.turn check hcount hwithin hn
    cases hcheck : check s'.seen with
    | true =>
      rw [hcheck, if_pos rfl] at hturn
      exact Or.inl ⟨s', hturn, hnext, by omega⟩
    | false =>
      rw [hcheck, if_neg Bool.false_ne_true] at hturn
      rw [hnext.seen] at hcheck
      exact Or.inr ⟨_, hturn, Or.inl ⟨rfl, _, used_take_isPrefix _, hcheck⟩⟩

variable (visit check init) in
theorem scan_returns {n : Nat} (hwithin : Within free n l) (hn : n < limit)
    (hcheck : ∀ xs, xs <+: used free l → check (xs.foldl visit init) = true) :
    ∃ i, i < limit ∧ iterate (scanTurn free l limit visit check) (l.length + 1)
      ⟨0, (used free l).length, init⟩ = some (.ok ⟨i, 0, (used free l).foldl visit init⟩) := by
  obtain ⟨r, hr, hend⟩ := scan_ends visit check init hwithin hn
  rcases hend with ⟨-, xs, hfirst, hfails⟩ | ⟨i, hi, rfl⟩
  · exact absurd (hcheck xs hfirst) (Bool.eq_false_iff.mp hfails)
  · exact ⟨i, hi, hr⟩

end Scan

end Slots
