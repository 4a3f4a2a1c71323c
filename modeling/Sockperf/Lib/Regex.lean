import Mathlib.Data.List.TakeWhile

/-!
# Regular expressions with groups

Patterns of character classes that are repeated, as in the ECMAScript grammar, with groups that note
what they matched. A pattern may match a text in several ways; they are tried in the order of the
list `results`, and a match of the whole text is the first that leaves nothing over. Which ways
there are does not depend on what follows: `Parses` says it without the search.
-/

namespace Sockperf

set_option autoImplicit false

inductive Regex where
  /-- `[..]{lo,hi}`, as many characters as possible first -/
  | run (p : Char → Bool) (lo : Nat) (hi : Option Nat)
  | seq (r q : Regex)
  /-- `r|q` -/
  | alt (r q : Regex)
  /-- `r?` -/
  | opt (r : Regex)
  /-- the group of this number -/
  | group (i : Nat) (r : Regex)

namespace Regex

abbrev Groups := List (Nat × List Char)

/-- A match: its text, what is behind it, and the groups. -/
abbrev Match := List Char × List Char × Groups

def class' (p : Char → Bool) : Regex := run p 1 (some 1)

def char (c : Char) : Regex := class' (· == c)

def plus (p : Char → Bool) : Regex := run p 1 none

/-- The number of characters that a repetition may take at most. -/
def longest (p : Char → Bool) (hi : Option Nat) (s : List Char) : Nat :=
  match hi with
  | none => (s.takeWhile p).length
  | some hi => min hi (s.takeWhile p).length

/-- The matches at the start of a text, in the order they are tried in. -/
def results : Regex → List Char → List Match
  | run p lo hi, s =>
    (((List.range (longest p hi s + 1)).filter (lo ≤ ·)).reverse).map fun k =>
      (s.take k, s.drop k, [])
  | seq r q, s => (results r s).flatMap fun m =>
      (results q m.2.1).map fun n => (m.1 ++ n.1, n.2.1, m.2.2 ++ n.2.2)
  | alt r q, s => results r s ++ results q s
  | opt r, s => results r s ++ [([], s, [])]
  | group i r, s => (results r s).map fun m => (m.1, m.2.1, (i, m.1) :: m.2.2)

/-- `regex_match`: the groups of the first match of the whole text. -/
def fullMatch (r : Regex) (s : List Char) : Option Groups :=
  ((results r s).find? fun m => m.2.1.isEmpty).map fun m => m.2.2

/-- A text that the pattern matches, with the groups. -/
def Parses : Regex → List Char → Groups → Prop
  | run p lo hi, t, gs => (∀ c ∈ t, p c = true) ∧ lo ≤ t.length ∧
      (∀ k, hi = some k → t.length ≤ k) ∧ gs = []
  | seq r q, t, gs => ∃ t₁ gs₁ t₂ gs₂, Parses r t₁ gs₁ ∧ Parses q t₂ gs₂ ∧
      t = t₁ ++ t₂ ∧ gs = gs₁ ++ gs₂
  | alt r q, t, gs => Parses r t gs ∨ Parses q t gs
  | opt r, t, gs => Parses r t gs ∨ t = [] ∧ gs = []
  | group i r, t, gs => ∃ gs', Parses r t gs' ∧ gs = (i, t) :: gs'

variable {r q : Regex} {s t rest : List Char} {gs : Groups} {p : Char → Bool} {c : Char}

theorem le_longest_iff {hi : Option Nat} {k : Nat} :
    k ≤ longest p hi s ↔ k ≤ (s.takeWhile p).length ∧ ∀ h, hi = some h → k ≤ h := by
  unfold longest
  cases hi with
  | none => exact (and_iff_left nofun).symm
  | some h =>
    rw [Nat.le_min, and_comm]
    refine and_congr_right fun _ => ⟨fun hk h' heq => ?_, fun hk => hk h rfl⟩
    cases heq
    exact hk

theorem take_of_le_takeWhile {k : Nat} (hk : k ≤ (s.takeWhile p).length) (hc : c ∈ s.take k) :
    p c = true := by
  rw [← List.takeWhile_append_dropWhile (p := p) (l := s), List.take_append_of_le_length hk] at hc
  exact List.mem_takeWhile_imp (List.mem_of_mem_take hc)

theorem mem_results_run {lo : Nat} {hi : Option Nat} :
    (t, rest, gs) ∈ results (run p lo hi) s ↔ Parses (run p lo hi) t gs ∧ s = t ++ rest := by
  refine List.mem_map.trans ⟨?_, ?_⟩
  · rintro ⟨k, hk, heq⟩
    cases heq
    rw [List.mem_reverse, List.mem_filter, List.mem_range, Nat.lt_succ_iff, le_longest_iff,
      decide_eq_true_eq] at hk
    obtain ⟨⟨hlen, hhi⟩, hlo⟩ := hk
    have hle : k ≤ s.length := hlen.trans (List.takeWhile_prefix p).length_le
    have htake : (s.take k).length = k := List.length_take_of_le hle
    exact ⟨⟨fun c => take_of_le_takeWhile hlen, hlo.trans htake.ge,
      fun h heq => htake.le.trans (hhi h heq), rfl⟩, (List.take_append_drop k s).symm⟩
  · rintro ⟨⟨hall, hlo, hhi, rfl⟩, rfl⟩
    refine ⟨t.length, ?_, ?_⟩
    · rw [List.mem_reverse, List.mem_filter, List.mem_range, Nat.lt_succ_iff, le_longest_iff,
        decide_eq_true_eq]
      refine ⟨⟨?_, hhi⟩, hlo⟩
      rw [List.takeWhile_append_of_pos hall, List.length_append]
      exact Nat.le_add_right _ _
    · rw [List.take_left, List.drop_left]

theorem mem_results : (t, rest, gs) ∈ results r s ↔ Parses r t gs ∧ s = t ++ rest := by
  induction r generalizing s t rest gs with
  | run p lo hi => exact mem_results_run
  | seq r q ihr ihq =>
    refine List.mem_flatMap.trans ⟨?_, ?_⟩
    · rintro ⟨⟨t₁, rest₁, gs₁⟩, h₁, hmap⟩
      obtain ⟨⟨t₂, rest₂, gs₂⟩, h₂, heq⟩ := List.mem_map.mp hmap
      cases heq
      obtain ⟨hr, rfl⟩ := ihr.mp h₁
      obtain ⟨hq, hrest⟩ := ihq.mp h₂
      dsimp only at hrest
      rw [hrest]
      exact ⟨⟨t₁, gs₁, t₂, gs₂, hr, hq, rfl, rfl⟩, (List.append_assoc ..).symm⟩
    · rintro ⟨⟨t₁, gs₁, t₂, gs₂, hr, hq, rfl, rfl⟩, rfl⟩
      refine ⟨(t₁, t₂ ++ rest, gs₁), ihr.mpr ⟨hr, List.append_assoc ..⟩, ?_⟩
      exact List.mem_map.mpr ⟨(t₂, rest, gs₂), ihq.mpr ⟨hq, rfl⟩, rfl⟩
  | alt r q ihr ihq =>
    refine List.mem_append.trans ?_
    rw [ihr, ihq, ← or_and_right]
    rfl
  | opt r ih =>
    refine List.mem_append.trans ?_
    rw [ih, List.mem_singleton]
    refine Iff.trans (or_congr_right ⟨?_, ?_⟩) or_and_right.symm
    · intro heq
      cases heq
      exact ⟨⟨rfl, rfl⟩, rfl⟩
    · rintro ⟨⟨rfl, rfl⟩, rfl⟩
      rfl
  | group i r ih =>
    refine List.mem_map.trans ⟨?_, ?_⟩
    · rintro ⟨⟨t', rest', gs'⟩, h, heq⟩
      cases heq
      obtain ⟨hr, hs⟩ := ih.mp h
      exact ⟨⟨gs', hr, rfl⟩, hs⟩
    · rintro ⟨⟨gs', hr, rfl⟩, hs⟩
      exact ⟨(t, rest, gs'), ih.mpr ⟨hr, hs⟩, rfl⟩

/-! ## Matches of a whole text -/

theorem fullMatch_eq_none : fullMatch r s = none ↔ ∀ gs, ¬ Parses r s gs := by
  unfold fullMatch
  rw [Option.map_eq_none_iff, List.find?_eq_none]
  constructor
  · intro h gs hparses
    exact h (s, [], gs) (mem_results.mpr ⟨hparses, (List.append_nil s).symm⟩) rfl
  · rintro h ⟨t, rest, gs⟩ hmem hrest
    obtain ⟨hparses, rfl⟩ := mem_results.mp hmem
    have hnil : rest = [] := List.isEmpty_iff.mp hrest
    rw [hnil, List.append_nil] at h
    exact h gs hparses

theorem parses_of_fullMatch (h : fullMatch r s = some gs) : Parses r s gs := by
  obtain ⟨⟨t, rest, gs'⟩, hfind, heq⟩ := Option.map_eq_some_iff.mp h
  cases heq
  obtain ⟨hparses, rfl⟩ := mem_results.mp (List.mem_of_find?_eq_some hfind)
  have hrest := List.find?_some hfind
  have hnil : rest = [] := List.isEmpty_iff.mp hrest
  rwa [hnil, List.append_nil]

theorem fullMatch_of_unique (h : Parses r s gs) (hunique : ∀ gs', Parses r s gs' → gs' = gs) :
    fullMatch r s = some gs := by
  cases hmatch : fullMatch r s with
  | none => exact absurd h (fullMatch_eq_none.mp hmatch gs)
  | some gs' => rw [hunique gs' (parses_of_fullMatch hmatch)]

theorem fullMatch_of_iff {P : Prop} (h : ∀ gs', Parses r s gs' ↔ P ∧ gs' = gs) :
    (P → fullMatch r s = some gs) ∧ (¬ P → fullMatch r s = none) := by
  constructor
  · intro hP
    exact fullMatch_of_unique ((h gs).mpr ⟨hP, rfl⟩) fun gs' hgs => ((h gs').mp hgs).2
  · intro hP
    exact fullMatch_eq_none.mpr fun gs' hgs => hP ((h gs').mp hgs).1

theorem fullMatch_opt_seq :
    fullMatch (seq (opt r) q) s = (fullMatch (seq r q) s).or (fullMatch q s) := by
  have hresults : results (seq (opt r) q) s = results (seq r q) s ++ results q s := by
    refine List.flatMap_append.trans ?_
    rw [List.flatMap_singleton]
    exact congrArg (results (seq r q) s ++ ·) (List.map_id _)
  unfold fullMatch
  rw [hresults, List.find?_append]
  cases (results (seq r q) s).find? fun m => m.2.1.isEmpty <;> rfl

/-! ## Runs of a class -/

theorem run_unique {x y u v : List Char} (hx : ∀ c ∈ x, p c = true) (hy : ∀ c ∈ y, p c = true)
    (hu : ∀ c ∈ u.head?, p c = false) (hv : ∀ c ∈ v.head?, p c = false) (h : x ++ u = y ++ v) :
    x = y ∧ u = v := by
  have htake : ∀ {x u : List Char}, (∀ c ∈ x, p c = true) → (∀ c ∈ u.head?, p c = false) →
      (x ++ u).takeWhile p = x := by
    intro x u hx hu
    rw [List.takeWhile_append_of_pos hx]
    cases u with
    | nil => rw [List.takeWhile_nil, List.append_nil]
    | cons c u =>
      have hc := hu c rfl
      rw [List.takeWhile_cons_of_neg (by rw [hc]; nofun), List.append_nil]
  have heq : x = y := by
    rw [← htake hx hu, h, htake hy hv]
  subst heq
  exact ⟨rfl, List.append_cancel_left h⟩

theorem parses_class : Parses (class' p) t gs ↔ ∃ c, p c = true ∧ t = [c] ∧ gs = [] := by
  constructor
  · rintro ⟨hall, hlo, hhi, rfl⟩
    have hlen : t.length = 1 := Nat.le_antisymm (hhi 1 rfl) hlo
    obtain ⟨d, rfl⟩ := List.length_eq_one_iff.mp hlen
    exact ⟨d, hall d List.mem_cons_self, rfl, rfl⟩
  · rintro ⟨d, hd, rfl, rfl⟩
    refine ⟨?_, le_refl 1, fun k hk => ?_, rfl⟩
    · intro e he
      rw [List.mem_singleton.mp he]
      exact hd
    · cases hk
      exact le_refl 1

theorem parses_char : Parses (char c) t gs ↔ t = [c] ∧ gs = [] := by
  unfold char
  rw [parses_class]
  constructor
  · rintro ⟨d, hd, rfl, rfl⟩
    rw [beq_iff_eq.mp hd]
    exact ⟨rfl, rfl⟩
  · rintro ⟨rfl, rfl⟩
    exact ⟨c, beq_self_eq_true c, rfl, rfl⟩

theorem parses_plus :
    Parses (plus p) t gs ↔ t ≠ [] ∧ (∀ c ∈ t, p c = true) ∧ gs = [] := by
  constructor
  · rintro ⟨hall, hlo, -, hgs⟩
    exact ⟨List.length_pos_iff.mp hlo, hall, hgs⟩
  · rintro ⟨hne, hall, hgs⟩
    exact ⟨hall, List.length_pos_iff.mpr hne, nofun, hgs⟩

theorem parses_class_seq :
    Parses (seq (class' p) q) t gs ↔ ∃ c t', p c = true ∧ t = c :: t' ∧ Parses q t' gs := by
  constructor
  · rintro ⟨t₁, gs₁, t₂, gs₂, h₁, h₂, rfl, rfl⟩
    obtain ⟨c, hc, rfl, rfl⟩ := parses_class.mp h₁
    exact ⟨c, t₂, hc, rfl, h₂⟩
  · rintro ⟨c, t', hc, rfl, h⟩
    exact ⟨[c], [], t', gs, parses_class.mpr ⟨c, hc, rfl, rfl⟩, h, rfl, rfl⟩

theorem parses_char_seq : Parses (seq (char c) q) t gs ↔ ∃ t', t = c :: t' ∧ Parses q t' gs := by
  unfold char
  rw [parses_class_seq]
  constructor
  · rintro ⟨d, t', hd, rfl, h⟩
    rw [beq_iff_eq.mp hd]
    exact ⟨t', rfl, h⟩
  · rintro ⟨t', rfl, h⟩
    exact ⟨c, t', beq_self_eq_true c, rfl, h⟩

end Regex

end Sockperf
