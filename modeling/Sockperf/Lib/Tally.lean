import Mathlib.Algebra.BigOperators.Group.Finset.Basic
import Mathlib.Algebra.BigOperators.Ring.Finset
import Mathlib.Algebra.Order.BigOperators.Group.Finset
import Mathlib.Order.Lattice.Nat
import Sockperf.Lib.Machine

/-!
# Counting by key

A map from keys to counters of `w` bits, and the loop that counts the key of every input. After
the loop a key has the number of its inputs modulo `2 ^ w`, so the counters add up to the number
of inputs just when none of them wrapped around.
-/

namespace Sockperf.Tally

open Machine
set_option autoImplicit false

theorem foldl_greatest {α : Type} (es : List (α × Int)) (top : Int) :
    let last := es.foldl (fun top e => if e.2 > top then e.2 else top) top
    top ≤ last ∧ (∀ e ∈ es, e.2 ≤ last) ∧ (last = top ∨ ∃ e ∈ es, e.2 = last) := by
  induction es generalizing top with
  | nil => exact ⟨le_rfl, fun e he => absurd he List.not_mem_nil, Or.inl rfl⟩
  | cons e es ih =>
    rw [List.foldl_cons]
    have hmax : (if e.2 > top then e.2 else top) = max top e.2 := by
      split <;> omega
    rw [hmax]
    obtain ⟨htop, hall, hlast⟩ := ih (max top e.2)
    refine ⟨(le_max_left _ _).trans htop, ?_, ?_⟩
    · intro e' he'
      rcases List.mem_cons.mp he' with rfl | he'
      · exact (le_max_right _ _).trans htop
      · exact hall e' he'
    · rcases hlast with hlast | ⟨e', he', hlast⟩
      · rw [hlast]
        rcases max_choice top e.2 with hchoice | hchoice
        · exact Or.inl hchoice
        · exact Or.inr ⟨e, List.mem_cons_self, hchoice.symm⟩
      · exact Or.inr ⟨e', List.mem_cons_of_mem e he', hlast⟩

section Keys
variable {κ : Type} [DecidableEq κ] {w : Nat} {ks : List κ} {k : κ}

def Fits (w : Nat) (ks : List κ) : Prop := ∀ k, ks.count k < 2 ^ w

theorem Fits.of_append {ls : List κ} (h : Fits w (ks ++ ls)) : Fits w ks := by
  intro k
  have hk := h k
  rw [List.count_append] at hk
  omega

theorem Fits.append_singleton (h : Fits w ks) (hk : (ks ++ [k]).count k < 2 ^ w) :
    Fits w (ks ++ [k]) := by
  intro l
  by_cases hl : k = l
  · rw [← hl]
    exact hk
  · rw [List.count_append, List.count_singleton, beq_eq_false_iff_ne.mpr hl]
    exact h l

def peak (ks : List κ) : Nat := ks.toFinset.sup fun k => ks.count k

theorem count_le_peak (hk : k ∈ ks) : ks.count k ≤ peak ks :=
  Finset.le_sup (f := fun k => ks.count k) (List.mem_toFinset.mpr hk)

theorem exists_peak (hne : ks ≠ []) : ∃ k ∈ ks, ks.count k = peak ks := by
  have hnonempty : ks.toFinset.Nonempty := List.toFinset_nonempty_iff ks |>.mpr hne
  obtain ⟨k, hk, hsup⟩ := Finset.exists_mem_eq_sup _ hnonempty fun k => ks.count k
  exact ⟨k, List.mem_toFinset.mp hk, hsup.symm⟩

theorem fits_of_peak (h : peak ks < 2 ^ w) : Fits w ks := by
  intro k
  by_cases hk : k ∈ ks
  · exact (count_le_peak hk).trans_lt h
  · rw [List.count_eq_zero.mpr hk]
    exact Nat.two_pow_pos w

end Keys

variable {κ : Type} [Ord κ] {ε : Type}

/-- `m[k]++` -/
def bump (w : Nat) (m : Std.TreeMap κ Int) (k : κ) : Machine (Std.TreeMap κ Int) := do
  let count ← uint w (m.getD k 0 + 1)
  return m.insert k count

def tallyOne (w : Nat) (key : ε → Machine κ) (m : Std.TreeMap κ Int) (x : ε) :
    Machine (Std.TreeMap κ Int) := do
  let k ← key x
  bump w m k

def tally (w : Nat) (key : ε → Machine κ) (xs : List ε) (m : Std.TreeMap κ Int) :
    Machine (Std.TreeMap κ Int) :=
  xs.foldlM (tallyOne w key) m

def greatest (m : Std.TreeMap κ Int) : Int :=
  m.toList.foldl (fun top e => if e.2 > top then e.2 else top) 0

section Counters
variable [DecidableEq κ]

/-- The map after the keys `ks`. -/
def Counts (w : Nat) (ks : List κ) (m : Std.TreeMap κ Int) : Prop :=
  ∀ k, m[k]? = if k ∈ ks then some ((ks.count k : Int) % 2 ^ w) else none

variable {w : Nat} {ks : List κ} {k : κ} {c : Int} {m m' : Std.TreeMap κ Int}
variable [Std.TransOrd κ]

theorem counts_nil (w : Nat) : Counts w ([] : List κ) ∅ := by
  intro k
  rw [Std.TreeMap.getElem?_emptyc, if_neg List.not_mem_nil]

theorem Counts.getD_eq (h : Counts w ks m) (k : κ) : m.getD k 0 = (ks.count k : Int) % 2 ^ w := by
  rw [Std.TreeMap.getD_eq_getD_getElem?, h k]
  split
  · rfl
  · next hmem =>
    rw [List.count_eq_zero.mpr hmem]
    rfl

variable [Std.LawfulEqOrd κ]

theorem Counts.insert (h : Counts w ks m) (k : κ) :
    Counts w (ks ++ [k]) (m.insert k ((m.getD k 0 + 1) % 2 ^ w)) := by
  intro l
  rw [Std.TreeMap.getElem?_insert, h.getD_eq, h l, List.count_append]
  by_cases hl : k = l
  · subst hl
    rw [if_pos (Std.LawfulEqOrd.compare_eq_iff_eq.mpr rfl), if_pos (by simp),
      List.count_singleton_self, Nat.cast_add, Nat.cast_one, Int.emod_add_emod]
  · rw [if_neg (fun heq => hl (Std.LawfulEqOrd.compare_eq_iff_eq.mp heq)),
      List.count_singleton, beq_eq_false_iff_ne.mpr hl]
    have hmem : l ∈ ks ++ [k] ↔ l ∈ ks := by
      simp [Ne.symm hl]
    simp only [hmem]
    rfl

theorem Counts.mem_toList (h : Counts w ks m) :
    (k, c) ∈ m.toList ↔ k ∈ ks ∧ c = (ks.count k : Int) % 2 ^ w := by
  rw [Std.TreeMap.mem_toList_iff_getElem?_eq_some, h k]
  split
  · next hmem =>
    rw [Option.some_inj]
    exact ⟨fun heq => ⟨hmem, heq.symm⟩, fun heq => heq.2.symm⟩
  · next hmem =>
    exact ⟨nofun, fun heq => absurd heq.1 hmem⟩

theorem Counts.mem_toList_of_fits (h : Counts w ks m) (hfits : Fits w ks) :
    (k, c) ∈ m.toList ↔ k ∈ ks ∧ c = (ks.count k : Int) := by
  rw [h.mem_toList, Int.emod_eq_of_lt (Int.natCast_nonneg _) (by exact_mod_cast hfits k)]

/-! ## The loop -/

variable {key : ε → Machine κ} {f : ε → κ}

theorem Counts.gives_bump (h : Counts w ks m) (k : κ) :
    ∃ m', Gives (bump w m k) m' ∧ Counts w (ks ++ [k]) m' :=
  ⟨_, (Gives.uint w _).bind (Gives.pure _), h.insert k⟩

theorem Counts.gives_tally (xs : List ε) (hkey : ∀ x ∈ xs, Gives (key x) (f x))
    (h : Counts w ks m) : ∃ m', Gives (tally w key xs m) m' ∧ Counts w (ks ++ xs.map f) m' := by
  induction xs generalizing ks m with
  | nil => exact ⟨m, Gives.pure m, by simpa using h⟩
  | cons x xs ih =>
    obtain ⟨m₁, hbump, h₁⟩ := h.gives_bump (f x)
    obtain ⟨m', htally, h'⟩ := ih (fun y hy => hkey y (List.mem_cons_of_mem x hy)) h₁
    refine ⟨m', ?_, by simpa using h'⟩
    unfold tally at htally ⊢
    rw [List.foldlM_cons]
    exact ((hkey x List.mem_cons_self).bind hbump).bind htally

omit [Std.LawfulEqOrd κ] in
theorem Counts.exact_bump (h : Counts w ks m) (hfits : ks.count k < 2 ^ w) :
    Exact (bump w m k) m' ↔
      (ks ++ [k]).count k < 2 ^ w ∧ m' = m.insert k ((m.getD k 0 + 1) % 2 ^ w) := by
  have hcount : m.getD k 0 = ks.count k := by
    rw [h.getD_eq, Int.emod_eq_of_lt (Int.natCast_nonneg _) (by exact_mod_cast hfits)]
  have hlt : ((ks.count k : Int) + 1 < 2 ^ w) ↔ (ks ++ [k]).count k < 2 ^ w := by
    rw [List.count_append, List.count_singleton_self]
    exact_mod_cast Iff.rfl
  unfold bump
  simp only [exact_bind, exact_uint, exact_pure, hcount]
  constructor
  · rintro ⟨_, ⟨⟨hnonneg, hin⟩, rfl⟩, rfl⟩
    rw [Int.emod_eq_of_lt hnonneg hin]
    exact ⟨hlt.mp hin, rfl⟩
  · rintro ⟨hin, rfl⟩
    have hin := hlt.mpr hin
    refine ⟨_, ⟨⟨by omega, hin⟩, rfl⟩, ?_⟩
    rw [Int.emod_eq_of_lt (by omega) hin]

theorem Counts.exact_tally (xs : List ε) (hkey : ∀ x ∈ xs, Exact (key x) (f x))
    (h : Counts w ks m) (hfits : Fits w ks) :
    (∀ m', Exact (tally w key xs m) m' → Fits w (ks ++ xs.map f) ∧ Counts w (ks ++ xs.map f) m') ∧
    (Fits w (ks ++ xs.map f) → ∃ m', Exact (tally w key xs m) m') := by
  induction xs generalizing ks m with
  | nil =>
    refine ⟨?_, fun _ => ⟨m, rfl⟩⟩
    intro m' hm'
    cases exact_pure.mp hm'
    rw [List.map_nil, List.append_nil]
    exact ⟨hfits, h⟩
  | cons x xs ih =>
    have hrest := fun y hy => hkey y (List.mem_cons_of_mem x hy)
    have hone : ∀ m₁, Exact (tallyOne w key m x) m₁ ↔ Exact (bump w m (f x)) m₁ := by
      intro m₁
      unfold tallyOne
      rw [exact_bind]
      constructor
      · rintro ⟨k, hk, hbump⟩
        cases hk.symm.trans (hkey x List.mem_cons_self)
        exact hbump
      · intro hbump
        exact ⟨f x, hkey x List.mem_cons_self, hbump⟩
    have hsplit : ks ++ (x :: xs).map f = (ks ++ [f x]) ++ xs.map f := by simp
    rw [hsplit]
    unfold tally
    rw [List.foldlM_cons]
    constructor
    · intro m' hm'
      obtain ⟨m₁, hbump, hm'⟩ := exact_bind.mp hm'
      obtain ⟨hin, rfl⟩ := (h.exact_bump (hfits (f x))).mp ((hone m₁).mp hbump)
      exact (ih hrest (h.insert (f x)) (hfits.append_singleton hin)).1 m' hm'
    · intro hall
      have hin := hall.of_append
      obtain ⟨m', hm'⟩ := (ih hrest (h.insert (f x)) hin).2 hall
      exact ⟨m', exact_bind.mpr ⟨_, (hone _).mpr
        ((h.exact_bump (hfits (f x))).mpr ⟨hin (f x), rfl⟩), hm'⟩⟩

/-! ## The counters together -/

theorem Counts.keys_toFinset (h : Counts w ks m) : m.keys.toFinset = ks.toFinset := by
  ext k
  rw [List.mem_toFinset, List.mem_toFinset, ← Std.TreeMap.map_fst_toList_eq_keys, List.mem_map]
  constructor
  · rintro ⟨⟨k, c⟩, he, rfl⟩
    exact (h.mem_toList.mp he).1
  · intro hk
    exact ⟨(k, _), h.mem_toList.mpr ⟨hk, rfl⟩, rfl⟩

theorem Counts.sum_eq (h : Counts w ks m) :
    (m.toList.map Prod.snd).sum = ∑ k ∈ ks.toFinset, (ks.count k : Int) % 2 ^ w := by
  have hvalues : m.toList.map Prod.snd = m.keys.map fun k => (ks.count k : Int) % 2 ^ w := by
    rw [← Std.TreeMap.map_fst_toList_eq_keys, List.map_map]
    apply List.map_congr_left
    rintro ⟨k, c⟩ he
    exact (h.mem_toList.mp he).2
  rw [hvalues, ← List.sum_toFinset _ Std.TreeMap.nodup_keys, h.keys_toFinset]

theorem Counts.sum_eq_length_iff (h : Counts w ks m) :
    (m.toList.map Prod.snd).sum = ks.length ↔ Fits w ks := by
  have hpos : (0 : Int) < 2 ^ w := Int.pow_pos (by decide)
  have hlength : (ks.length : Int) = ∑ k ∈ ks.toFinset, (ks.count k : Int) := by
    rw [← List.sum_toFinset_count_eq_length ks, Nat.cast_sum]
  have hle : ∀ k ∈ ks.toFinset, (ks.count k : Int) % 2 ^ w ≤ ks.count k := by
    intro k _
    exact_mod_cast Nat.mod_le (ks.count k) (2 ^ w)
  rw [h.sum_eq, hlength, Finset.sum_eq_sum_iff_of_le hle]
  constructor
  · intro heq k
    by_cases hk : k ∈ ks
    · have hlt := Int.emod_lt_of_pos (ks.count k : Int) hpos
      rw [heq k (List.mem_toFinset.mpr hk)] at hlt
      exact_mod_cast hlt
    · rw [List.count_eq_zero.mpr hk]
      exact Nat.two_pow_pos w
  · intro hfits k _
    exact Int.emod_eq_of_lt (Int.natCast_nonneg _) (by exact_mod_cast hfits k)

theorem Counts.greatest_eq (h : Counts w ks m) (hfits : Fits w ks) (hne : ks ≠ []) :
    greatest m = peak ks := by
  obtain ⟨htop, hall, hlast⟩ := foldl_greatest m.toList 0
  change 0 ≤ greatest m at htop
  change ∀ e ∈ m.toList, e.2 ≤ greatest m at hall
  change greatest m = 0 ∨ ∃ e ∈ m.toList, e.2 = greatest m at hlast
  apply le_antisymm
  · rcases hlast with hlast | ⟨⟨k, c⟩, he, hlast⟩
    · rw [hlast]
      exact Int.natCast_nonneg _
    · obtain ⟨hk, hc⟩ := (h.mem_toList_of_fits hfits).mp he
      rw [← hlast]
      change c ≤ _
      rw [hc]
      exact_mod_cast count_le_peak hk
  · obtain ⟨k, hk, hpeak⟩ := exists_peak hne
    have hmem := (h.mem_toList_of_fits hfits).mpr ⟨hk, rfl⟩
    rw [← hpeak]
    exact hall _ hmem

end Counters

end Sockperf.Tally
