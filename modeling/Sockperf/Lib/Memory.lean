import Mathlib.Data.List.Basic
import Mathlib.Tactic.Ring

/-!
# Flat byte memory

Addresses are integers, so pointer arithmetic may move in both directions. A
`store` changes exactly the bytes it names; `load` reads a block as a list.
-/

namespace Sockperf.Memory

set_option autoImplicit false

abbrev Mem := Int → UInt8

/-- The `n` bytes from address `a` on. -/
def load (m : Mem) (a : Int) (n : Nat) : List UInt8 :=
  (List.range n).map fun i : Nat => m (a + i)

/-- Write a block of bytes from address `a` on. -/
def store (m : Mem) (a : Int) (bs : List UInt8) : Mem := fun x =>
  if a ≤ x ∧ x < a + bs.length then bs[(x - a).toNat]?.getD 0 else m x

/-- Copy `n` bytes; the source is read completely before anything is written. -/
def memmove (m : Mem) (dst src : Int) (n : Nat) : Mem := store m dst (load m src n)

/-- Two memories hold the same bytes at the addresses from `lo` up to, not including, `hi`. -/
def Agree (m m' : Mem) (lo hi : Int) : Prop := ∀ x, lo ≤ x → x < hi → m x = m' x

section Load
variable {m m' : Mem} {a : Int} {n k : Nat}

@[simp] theorem load_length : (load m a n).length = n := by simp [load]

@[simp] theorem load_zero : load m a 0 = [] := rfl

theorem load_getElem? {i : Nat} (hi : i < n) : (load m a n)[i]? = some (m (a + i)) := by
  simp [load, hi]

theorem load_eq_iff {bs : List UInt8} :
    load m a bs.length = bs ↔ ∀ i (hi : i < bs.length), m (a + i) = bs[i] := by
  constructor
  · intro h i hi
    have hl := load_getElem? (m := m) (a := a) hi
    rw [h, List.getElem?_eq_getElem hi] at hl
    exact (Option.some.inj hl).symm
  · intro h
    apply List.ext_getElem (by simp)
    intro i h1 h2
    simp [load, h i h2]

theorem load_congr (h : Agree m m' a (a + n)) : load m a n = load m' a n := by
  apply List.map_congr_left
  intro i hi
  have hi' : i < n := List.mem_range.mp hi
  exact h (a + i) (by omega) (by omega)

theorem load_add : load m a (n + k) = load m a n ++ load m (a + n) k := by
  simp only [load, List.range_add, List.map_append, List.map_map]
  congr 1
  apply List.map_congr_left
  intro i _
  simp only [Function.comp_apply, Nat.cast_add]
  congr 1
  ring

theorem load_take (h : n ≤ k) : (load m a k).take n = load m a n := by
  obtain ⟨d, rfl⟩ := Nat.exists_eq_add_of_le h
  rw [load_add, List.take_left' (by simp)]

theorem load_drop : (load m a (n + k)).drop n = load m (a + n) k := by
  rw [load_add, List.drop_left' (by simp)]

theorem load_behind {t : List UInt8} (h : load m a n = t.take n) (hk : k ≤ n)
    (hm : ∀ x, a + k ≤ x → x < a + n → m' x = m x) :
    load m' (a + k) (n - k) = (t.drop k).take (n - k) := by
  obtain ⟨i, rfl⟩ := Nat.exists_eq_add_of_le hk
  have hload : load m' (a + k) i = load m (a + k) i := by
    apply load_congr
    intro x h1 h2
    exact hm x h1 (by omega)
  rw [Nat.add_sub_cancel_left, hload, ← load_drop, h, List.drop_take, Nat.add_sub_cancel_left]

end Load

section Store
variable {m : Mem} {a : Int} {bs : List UInt8}

theorem store_outside {x : Int} (h : x < a ∨ a + bs.length ≤ x) : store m a bs x = m x := by
  unfold store
  rw [if_neg (by omega)]

theorem store_inside {i : Nat} (hi : i < bs.length) : store m a bs (a + i) = bs[i] := by
  unfold store
  rw [if_pos (by omega)]
  simp [hi]

@[simp] theorem load_store_same : load (store m a bs) a bs.length = bs :=
  load_eq_iff.mpr fun _ hi => store_inside hi

theorem load_store_same' {n : Nat} (h : n = bs.length) : load (store m a bs) a n = bs := by
  subst h
  exact load_store_same

theorem load_store_disjoint {b : Int} {n : Nat} (h : b + n ≤ a ∨ a + bs.length ≤ b) :
    load (store m a bs) b n = load m b n := by
  apply load_congr
  intro x h1 h2
  exact store_outside (by omega)

theorem agree_store {lo hi : Int} (h : hi ≤ a ∨ a + bs.length ≤ lo) :
    Agree (store m a bs) m lo hi := by
  intro x h1 h2
  exact store_outside (by omega)

end Store

theorem Agree.refl (m : Mem) (lo hi : Int) : Agree m m lo hi := fun _ _ _ => rfl

theorem Agree.symm {m m' : Mem} {lo hi : Int} (h : Agree m m' lo hi) : Agree m' m lo hi :=
  fun x h1 h2 => (h x h1 h2).symm

theorem Agree.trans {m m' m'' : Mem} {lo hi : Int} (h : Agree m m' lo hi)
    (h' : Agree m' m'' lo hi) : Agree m m'' lo hi :=
  fun x h1 h2 => (h x h1 h2).trans (h' x h1 h2)

theorem Agree.mono {m m' : Mem} {lo hi lo' hi' : Int} (h : Agree m m' lo hi)
    (hlo : lo ≤ lo') (hhi : hi' ≤ hi) : Agree m m' lo' hi' :=
  fun x h1 h2 => h x (by omega) (by omega)

end Sockperf.Memory
