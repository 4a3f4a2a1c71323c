import Mathlib.Algebra.Order.Ring.Int

/-!
# Machine arithmetic

A piece of C arithmetic either is undefined (a signed overflow, a division by zero) or has a
value, and then it matters whether an unsigned operation wrapped around on the way. `Gives m a`
says that `m` has the value `a`, and `Exact m a` that nothing wrapped around either.
-/

namespace Sockperf

set_option autoImplicit false

universe u

inductive Machine (α : Type u) where
  | undefined
  | value (a : α) (wrapped : Bool)
  deriving DecidableEq, Repr

namespace Machine
variable {α β : Type u}

def pure (a : α) : Machine α := value a false

def bind : Machine α → (α → Machine β) → Machine β
  | undefined, _ => undefined
  | value a wrapped, f =>
    match f a with
    | undefined => undefined
    | value b wrapped' => value b (wrapped || wrapped')

instance : Monad Machine where
  pure := pure
  bind := bind

/-- An unsigned result of `w` bits. -/
def uint (w : Nat) (x : Int) : Machine Int := value (x % 2 ^ w) (decide (x < 0 ∨ 2 ^ w ≤ x))

/-- A result that is undefined unless `p` holds. -/
def check (p : Prop) [Decidable p] (a : α) : Machine α := if p then value a false else undefined

/-- A signed result of `w` bits. -/
def sint (w : Nat) (x : Int) : Machine Int := check (-2 ^ (w - 1) ≤ x ∧ x < 2 ^ (w - 1)) x

def div (x y : Int) : Machine Int := check (y ≠ 0) (x.tdiv y)

def mod (x y : Int) : Machine Int := check (y ≠ 0) (x.tmod y)

/-- The value is `a`. -/
def Gives (m : Machine α) (a : α) : Prop := ∃ wrapped, m = value a wrapped

/-- The value is `a`, as it is without bounds on the numbers. -/
def Exact (m : Machine α) (a : α) : Prop := m = value a false

variable {m : Machine α} {f : α → Machine β} {a : α} {b : β} {w : Nat} {x y z : Int}

theorem Gives.pure (a : α) : Gives (Pure.pure a : Machine α) a := ⟨false, rfl⟩

theorem Gives.bind (h : Gives m a) (hf : Gives (f a) b) : Gives (m >>= f) b := by
  obtain ⟨wrapped, rfl⟩ := h
  obtain ⟨wrapped', hf⟩ := hf
  refine ⟨wrapped || wrapped', ?_⟩
  change bind (value a wrapped) f = _
  unfold bind
  dsimp only
  rw [hf]

theorem Gives.uint (w : Nat) (x : Int) : Gives (uint w x) (x % 2 ^ w) := ⟨_, rfl⟩

theorem Exact.gives (h : Exact m a) : Gives m a := ⟨false, h⟩

theorem exact_pure {a b : α} : Exact (Pure.pure a : Machine α) b ↔ a = b := by
  constructor
  · intro h
    cases h
    rfl
  · rintro rfl
    rfl

theorem exact_bind : Exact (m >>= f) b ↔ ∃ a, Exact m a ∧ Exact (f a) b := by
  constructor
  · intro h
    cases m with
    | undefined => cases h
    | value a wrapped =>
      change bind (value a wrapped) f = value b false at h
      unfold bind at h
      dsimp only at h
      split at h
      · cases h
      · next b' wrapped' hf =>
        obtain ⟨rfl, hor⟩ := value.inj h
        obtain ⟨rfl, rfl⟩ := Bool.or_eq_false_iff.mp hor
        exact ⟨a, rfl, hf⟩
  · rintro ⟨a, rfl, hf⟩
    change bind (value a false) f = value b false
    unfold bind
    dsimp only
    rw [hf]
    rfl

theorem exact_uint : Exact (uint w x) y ↔ (0 ≤ x ∧ x < 2 ^ w) ∧ x = y := by
  unfold Exact uint
  constructor
  · intro h
    obtain ⟨hval, hin⟩ := value.inj h
    have hrange : 0 ≤ x ∧ x < 2 ^ w := by
      rw [decide_eq_false_iff_not, not_or, not_lt, not_le] at hin
      exact hin
    exact ⟨hrange, (Int.emod_eq_of_lt hrange.1 hrange.2).symm.trans hval⟩
  · rintro ⟨⟨hpos, hlt⟩, rfl⟩
    rw [Int.emod_eq_of_lt hpos hlt, decide_eq_false (by omega)]

theorem exact_check {p : Prop} [Decidable p] {a b : α} : Exact (check p a) b ↔ p ∧ a = b := by
  unfold Exact check
  split
  · next h =>
    constructor
    · intro heq
      exact ⟨h, (value.inj heq).1⟩
    · rintro ⟨-, rfl⟩
      rfl
  · next h =>
    constructor
    · intro heq
      cases heq
    · rintro ⟨hp, -⟩
      exact absurd hp h

theorem exact_sint : Exact (sint w x) y ↔ (-2 ^ (w - 1) ≤ x ∧ x < 2 ^ (w - 1)) ∧ x = y :=
  exact_check

theorem exact_div : Exact (div x y) z ↔ y ≠ 0 ∧ x.tdiv y = z := exact_check

theorem exact_mod : Exact (mod x y) z ↔ y ≠ 0 ∧ x.tmod y = z := exact_check

theorem Gives.unique {b : α} (ha : Gives m a) (hb : Gives m b) : a = b := by
  obtain ⟨_, rfl⟩ := ha
  obtain ⟨_, hb⟩ := hb
  cases hb
  rfl

theorem exists_exact_bind :
    (∃ b, Exact (m >>= f) b) ↔ ∃ a, Exact m a ∧ ∃ b, Exact (f a) b := by
  simp only [exact_bind]
  constructor
  · rintro ⟨b, a, ha, hb⟩
    exact ⟨a, ha, b, hb⟩
  · rintro ⟨a, ha, b, hb⟩
    exact ⟨b, a, ha, hb⟩

theorem exists_exact_mapM {as : List α} :
    (∃ bs, Exact (as.mapM' f) bs) ↔ ∀ a ∈ as, ∃ b, Exact (f a) b := by
  induction as with
  | nil => exact iff_of_true ⟨[], exact_pure.mpr rfl⟩ fun a ha => absurd ha List.not_mem_nil
  | cons a as ih =>
    rw [List.mapM'_cons, exists_exact_bind, List.forall_mem_cons, ← ih]
    constructor
    · rintro ⟨b, hb, bs, hbs⟩
      obtain ⟨bs, hbs, -⟩ := exact_bind.mp hbs
      exact ⟨⟨b, hb⟩, bs, hbs⟩
    · rintro ⟨⟨b, hb⟩, bs, hbs⟩
      exact ⟨b, hb, _, exact_bind.mpr ⟨bs, hbs, exact_pure.mpr rfl⟩⟩

theorem Exact.mem_mapM {as : List α} {bs : List β} (h : Exact (as.mapM' f) bs) (hb : b ∈ bs) :
    ∃ a ∈ as, Exact (f a) b := by
  induction as generalizing bs with
  | nil =>
    cases exact_pure.mp h
    exact absurd hb List.not_mem_nil
  | cons a as ih =>
    rw [List.mapM'_cons] at h
    obtain ⟨b', hb', h⟩ := exact_bind.mp h
    obtain ⟨bs', hbs', h⟩ := exact_bind.mp h
    cases exact_pure.mp h
    rcases List.mem_cons.mp hb with rfl | hb
    · exact ⟨a, List.mem_cons_self, hb'⟩
    · obtain ⟨a', ha', hexact⟩ := ih hbs' hb
      exact ⟨a', List.mem_cons_of_mem a ha', hexact⟩

end Machine

end Sockperf
