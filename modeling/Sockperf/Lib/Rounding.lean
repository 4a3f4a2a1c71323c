import Mathlib.Data.Rat.Floor
import Mathlib.Tactic.Linarith

/-!
# Rounded arithmetic

A rounding keeps the order, keeps the quarters of small integers, and is wrong by a relative error
and, where numbers are very small, an absolute one. The arithmetic of a floating point format is
the exact arithmetic with a rounding after every operation.
-/

namespace Sockperf

set_option autoImplicit false

structure Rounding where
  round : ℚ → ℚ
  /-- the relative error -/
  u : ℚ
  /-- the absolute error -/
  e : ℚ
  /-- the quarters of integers up to this one are kept -/
  limit : ℤ
  u_nonneg : 0 ≤ u
  u_le_one : u ≤ 1
  e_nonneg : 0 ≤ e
  limit_nonneg : 0 ≤ limit
  mono : Monotone round
  quarters : ∀ n : ℤ, |n| ≤ limit → round (n / 4) = n / 4
  error : ∀ x, |round x - x| ≤ u * |x| + e

namespace Rounding
variable (r : Rounding) {x : ℚ} {n : ℤ}

def exact : Rounding where
  round := id
  u := 0
  e := 0
  limit := 2 ^ 53
  u_nonneg := le_rfl
  u_le_one := zero_le_one
  e_nonneg := le_rfl
  limit_nonneg := by norm_num
  mono := monotone_id
  quarters _ _ := rfl
  error x := by simp

theorem round_le (hn : |n| ≤ r.limit) (h : x ≤ n / 4) : r.round x ≤ n / 4 := by
  have hmono := r.mono h
  rwa [r.quarters n hn] at hmono

theorem le_round (hn : |n| ≤ r.limit) (h : n / 4 ≤ x) : n / 4 ≤ r.round x := by
  have hmono := r.mono h
  rwa [r.quarters n hn] at hmono

theorem round_nonneg (h : 0 ≤ x) : 0 ≤ r.round x := by
  have hzero : |(0 : ℤ)| ≤ r.limit := by
    rw [abs_zero]
    exact r.limit_nonneg
  have hle : ((0 : ℤ) : ℚ) / 4 ≤ x := by
    rw [Int.cast_zero, zero_div]
    exact h
  have hround := r.le_round hzero hle
  rwa [Int.cast_zero, zero_div] at hround

theorem error_le {b : ℚ} (h : 0 ≤ x) (hb : x ≤ b) : |r.round x - x| ≤ r.u * b + r.e := by
  have herror := r.error x
  rw [abs_of_nonneg h] at herror
  linarith [mul_le_mul_of_nonneg_left hb r.u_nonneg]

theorem round_upper (h : 0 ≤ x) : r.round x ≤ (1 + r.u) * x + r.e := by
  have herror := (abs_le.mp (r.error x)).2
  rw [abs_of_nonneg h] at herror
  linarith

theorem round_lower (h : 0 ≤ x) : (1 - r.u) * x - r.e ≤ r.round x := by
  have herror := (abs_le.mp (r.error x)).1
  rw [abs_of_nonneg h] at herror
  linarith

end Rounding

/-- A conversion to an integer type drops the fraction. -/
def truncate (x : ℚ) : ℤ := if 0 ≤ x then ⌊x⌋ else ⌈x⌉

theorem truncate_of_nonneg {x : ℚ} (h : 0 ≤ x) : truncate x = ⌊x⌋ := if_pos h

end Sockperf
