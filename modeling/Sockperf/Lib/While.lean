import Mathlib.Logic.Relation

/-!
# Loops with an unbounded number of turns

A loop is one function `turn`: from a state it either goes on with a new state
or leaves with a result. `iterate` runs it with a bound on the number of turns;
`Returns` says that some bound is enough. A loop for which no bound is enough
does not return, and nothing here assumes that it does.
-/

namespace Sockperf.While

set_option autoImplicit false

universe u v

/-- What one turn of a loop does. -/
inductive Turn (σ : Type u) (ρ : Type v) where
  | next (s : σ) : Turn σ ρ
  | done (r : ρ) : Turn σ ρ

variable {σ : Type u} {ρ : Type v}

/-- Run at most `n` turns; `none` when the loop is still running. -/
def iterate (turn : σ → Turn σ ρ) : Nat → σ → Option ρ
  | 0, _ => none
  | n+1, s =>
    match turn s with
    | .next s' => iterate turn n s'
    | .done r => some r

/-- The loop leaves with `r`. -/
def Returns (turn : σ → Turn σ ρ) (s : σ) (r : ρ) : Prop := ∃ n, iterate turn n s = some r

/-- `s'` is the state after one turn that goes on. -/
def Next (turn : σ → Turn σ ρ) (s s' : σ) : Prop := turn s = .next s'

/-- The states at which a turn is taken, from `s` on. -/
def Visits (turn : σ → Turn σ ρ) : σ → σ → Prop := Relation.ReflTransGen (Next turn)

section Rules
variable {turn : σ → Turn σ ρ} {s s' : σ} {r : ρ}

@[simp] theorem iterate_zero : iterate turn 0 s = none := rfl

theorem iterate_next {n : Nat} (h : turn s = .next s') :
    iterate turn (n+1) s = iterate turn n s' := by simp [iterate, h]

theorem iterate_done {n : Nat} (h : turn s = .done r) : iterate turn (n+1) s = some r := by
  simp [iterate, h]

theorem iterate_mono {n k : Nat} (h : iterate turn n s = some r) (hk : n ≤ k) :
    iterate turn k s = some r := by
  induction n generalizing s k with
  | zero => simp at h
  | succ n ih =>
    obtain ⟨k, rfl⟩ : ∃ j, k = j + 1 := ⟨k - 1, by omega⟩
    cases ht : turn s with
    | next s' =>
      rw [iterate_next ht] at h ⊢
      exact ih h (by omega)
    | done r' =>
      rw [iterate_done ht] at h ⊢
      exact h

theorem Returns.unique {r' : ρ} (h : Returns turn s r) (h' : Returns turn s r') : r = r' := by
  obtain ⟨n, hn⟩ := h
  obtain ⟨k, hk⟩ := h'
  have h1 := iterate_mono hn (Nat.le_max_left n k)
  have h2 := iterate_mono hk (Nat.le_max_right n k)
  exact Option.some.inj (h1.symm.trans h2)

theorem Returns.of_done (h : turn s = .done r) : Returns turn s r := ⟨1, iterate_done h⟩

theorem Returns.of_next (h : turn s = .next s') (hr : Returns turn s' r) : Returns turn s r := by
  obtain ⟨n, hn⟩ := hr
  exact ⟨n + 1, (iterate_next h).trans hn⟩

theorem Returns.next_iff (h : turn s = .next s') : Returns turn s r ↔ Returns turn s' r := by
  constructor
  · rintro ⟨n, hn⟩
    cases n with
    | zero => simp at hn
    | succ n => exact ⟨n, (iterate_next h).symm.trans hn⟩
  · exact Returns.of_next h

theorem Visits.refl (turn : σ → Turn σ ρ) (s : σ) : Visits turn s s := Relation.ReflTransGen.refl

theorem Visits.head {t : σ} (h : turn s = .next s') (ht : Visits turn s' t) : Visits turn s t :=
  Relation.ReflTransGen.head h ht

theorem Visits.tail {t : σ} (h : Visits turn s t) (ht : turn t = .next s') : Visits turn s s' :=
  Relation.ReflTransGen.tail h ht

theorem Visits.eq_or_next {t : σ} (h : Visits turn s t) :
    t = s ∨ ∃ s', turn s = .next s' ∧ Visits turn s' t := by
  rcases Relation.ReflTransGen.cases_head h with rfl | ⟨s', hs, ht⟩
  · exact Or.inl rfl
  · exact Or.inr ⟨s', hs, ht⟩

theorem iterate_of_self (h : turn s = .next s) (n : Nat) : iterate turn n s = none := by
  induction n with
  | zero => rfl
  | succ n ih => rw [iterate_next h, ih]

theorem Visits.invariant (Inv : σ → Prop) (hv : Visits turn s s') (h : Inv s)
    (step : ∀ a b, Visits turn s a → Inv a → turn a = .next b → Inv b) : Inv s' := by
  induction hv with
  | refl => exact h
  | tail hab hbc ih => exact step _ _ hab ih hbc

/-- Partial correctness: an invariant of the turns gives the postcondition of the result. -/
theorem Returns.post (Inv : σ → Prop) (Post : ρ → Prop) (hr : Returns turn s r) (h : Inv s)
    (step : ∀ a, Visits turn s a → Inv a →
      (∀ b, turn a = .next b → Inv b) ∧ (∀ q, turn a = .done q → Post q)) : Post r := by
  obtain ⟨n, hn⟩ := hr
  induction n generalizing s with
  | zero => simp at hn
  | succ n ih =>
    have hs := step s (Visits.refl turn s) h
    cases ht : turn s with
    | done q =>
      rw [iterate_done ht] at hn
      cases hn
      exact hs.2 _ ht
    | next b =>
      rw [iterate_next ht] at hn
      exact ih (hs.1 b ht) (fun a ha => step a (ha.head ht)) hn

theorem Returns.of_visits (hr : Returns turn s r) (hv : Visits turn s s') : Returns turn s' r := by
  induction hv with
  | refl => exact hr
  | tail _ hnext ih => exact (Returns.next_iff hnext).mp ih

theorem Returns.visits (hr : Returns turn s r) : ∃ t, Visits turn s t ∧ turn t = .done r :=
  hr.post (fun _ => True) (fun q => ∃ t, Visits turn s t ∧ turn t = .done q) trivial
    fun a ha _ => ⟨fun _ _ => trivial, fun _ hq => ⟨a, ha, hq⟩⟩

/-- Total correctness: when every turn either leaves with the postcondition or goes on with a
smaller variant, the loop returns within one turn more than the variant counts. -/
theorem returns_of_variant (turn : σ → Turn σ ρ) (Inv : σ → Prop) (Post : ρ → Prop)
    (variant : σ → Nat) (h : Inv s)
    (step : ∀ a, Inv a → (∃ b, turn a = .next b ∧ Inv b ∧ variant b < variant a) ∨
      ∃ q, turn a = .done q ∧ Post q) :
    ∃ r, iterate turn (variant s + 1) s = some r ∧ Post r := by
  generalize hn : variant s = n
  induction n using Nat.strongRecOn generalizing s with
  | _ n ih =>
    rcases step s h with ⟨b, hb, hinv, hlt⟩ | ⟨q, hq, hpost⟩
    · obtain ⟨r, hr, hp⟩ := ih (variant b) (hn ▸ hlt) hinv rfl
      refine ⟨r, ?_, hp⟩
      rw [iterate_next hb]
      exact iterate_mono hr (by omega)
    · exact ⟨q, iterate_done hq, hpost⟩

/-- Two loops run in lockstep: they go on together, or leave together with related results. -/
def Lockstep {σ' : Type u} {ρ' : Type v} (turn : σ → Turn σ ρ) (turn' : σ' → Turn σ' ρ')
    (R : σ → σ' → Prop) (Q : ρ → ρ' → Prop) : Prop :=
  ∀ a b, R a b → (∃ a' b', turn a = .next a' ∧ turn' b = .next b' ∧ R a' b') ∨
    ∃ q q', turn a = .done q ∧ turn' b = .done q' ∧ Q q q'

section Lockstep
variable {σ' : Type u} {ρ' : Type v} {turn' : σ' → Turn σ' ρ'} {R : σ → σ' → Prop}
variable {Q : ρ → ρ' → Prop} {t : σ'}

theorem Lockstep.visits (hl : Lockstep turn turn' R Q) (h : R s t) (hv : Visits turn s s') :
    ∃ t', Visits turn' t t' ∧ R s' t' := by
  induction hv with
  | refl => exact ⟨t, Visits.refl turn' t, h⟩
  | @tail b c _ hbc ih =>
    obtain ⟨t', ht', hr⟩ := ih
    rcases hl b t' hr with ⟨b', u, hb, hu, hr'⟩ | ⟨q, q', hb, -, -⟩
    · obtain rfl : b' = c := Turn.next.inj (hb.symm.trans hbc)
      exact ⟨u, ht'.tail hu, hr'⟩
    · cases hb.symm.trans hbc

theorem Lockstep.returns (hl : Lockstep turn turn' R Q) (h : R s t) (hr : Returns turn s r) :
    ∃ r', Returns turn' t r' ∧ Q r r' := by
  obtain ⟨n, hn⟩ := hr
  induction n generalizing s t with
  | zero => simp at hn
  | succ n ih =>
    rcases hl s t h with ⟨a', b', ha, hb, hr'⟩ | ⟨q, q', ha, hb, hq⟩
    · rw [iterate_next ha] at hn
      obtain ⟨r', hret, hq⟩ := ih hr' hn
      exact ⟨r', hret.of_next hb, hq⟩
    · rw [iterate_done ha] at hn
      cases hn
      exact ⟨q', Returns.of_done hb, hq⟩

end Lockstep

end Rules

end Sockperf.While
