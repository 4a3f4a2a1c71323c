import Mathlib.Algebra.Order.BigOperators.Group.List
import Mathlib.Tactic.NormNum
import Sockperf.Lib.Ranks
import Sockperf.Lib.Rounding
import Sockperf.Report

/-!
# The printed numbers

`client_statistics` sorts the latencies of the scan and prints their average, two measures of their
spread and a few percentiles. Positions in the sorted array are computed in floating point.
-/

namespace Sockperf

open While
set_option autoImplicit false

/-! ## The functions of `TicksDuration` -/

/-- `TicksDuration::sort`; the order is total, so `qsort` has one result only. -/
def sortDurations (arr : List TicksTime) : List TicksTime := arr.insertionSort (· ≤ ·)

section Durations
variable (r : Rounding) (arr : List TicksTime)

/-- `(int)(0.5 + p * size) - 1` -/
def percentileIndex (p : ℚ) (size : Nat) : Int :=
  truncate (r.round (1 / 2 + r.round (r.round p * size))) - 1

/-- `TicksDuration::median` of a sorted array; `none` is a read outside it. -/
def median : Option TicksTime :=
  if arr.length ≤ 1 then some 0
  else if arr.length % 2 = 1 then arr[arr.length / 2]?
  else do
    let low ← arr[arr.length / 2 - 1]?
    let high ← arr[arr.length / 2]?
    some ((low + high).tdiv 2)

/-- `scaleToConsistentEstimatorForStdDev` -/
def madScale : ℚ := 148260221851 / 100000000000

def scaled (t : TicksTime) : TicksTime := truncate (r.round (r.round t * r.round madScale))

def deviations (center : TicksTime) : List TicksTime :=
  arr.map fun t => if t < center then center - t else t - center

/-- `TicksDuration::medianad`, the median absolute deviation of a sorted array. -/
def medianad : Option TicksTime :=
  if arr.length ≤ 1 then some 0
  else do
    let center ← median arr
    let spread ← median (sortDurations (deviations arr center))
    some (scaled r spread)

def readAt (index : Int) : Option TicksTime := if 0 ≤ index then arr[index.toNat]? else none

/-- `TicksDuration::siqr`, the semi-interquartile range of a sorted array. -/
def siqr : Option TicksTime :=
  if arr.length ≤ 1 then some 0
  else do
    let p75 ← readAt arr (percentileIndex r (3 / 4) arr.length)
    let p25 ← readAt arr (percentileIndex r (1 / 4) arr.length)
    some ((p75 - p25).tdiv 2)

def reportedPercentiles : List ℚ :=
  [99999 / 100000, 9999 / 10000, 999 / 1000, 99 / 100, 9 / 10, 3 / 4, 1 / 2, 1 / 4]

/-- The loop of `printPercentiles`. -/
def printPercentiles : List ℚ → Option (List (ℚ × TicksTime))
  | [] => some []
  | p :: ps =>
    let index := percentileIndex r p arr.length
    if 0 ≤ index then do
      let t ← readAt arr index
      let rest ← printPercentiles ps
      some ((p, t) :: rest)
    else printPercentiles ps

end Durations

/-- What is printed about the latencies. -/
structure Summary where
  average : TicksTime
  medianad : TicksTime
  siqr : TicksTime
  max : TicksTime
  percentiles : List (ℚ × TicksTime)
  min : TicksTime
  deriving DecidableEq

/-- The part of `client_statistics` after the scan; `none` is a read outside the array. -/
def Statistics.summary (st : Statistics) (r : Rounding) (s : Scan) : Option Summary := do
  let sorted := sortDurations s.lat
  let avgRtt := s.sumRtt.tdiv ((s.counter : Int).bmod (2 ^ 32))
  let medianad ← medianad r sorted
  let siqr ← siqr r sorted
  let max ← sorted[s.counter - 1]?
  let percentiles ← printPercentiles r sorted reportedPercentiles
  let min ← sorted[0]?
  some ⟨if st.fullRtt then avgRtt else avgRtt.tdiv 2, medianad, siqr, max, percentiles, min⟩

/-! ## Positions -/

section Positions
variable {r : Rounding} {p q : ℚ} {n : Nat}

def percentileSum (r : Rounding) (p : ℚ) (n : Nat) : ℚ :=
  r.round (1 / 2 + r.round (r.round p * n))

theorem abs_le_limit (hfit : 4 * (n : ℤ) + 2 ≤ r.limit) {k : ℤ} (h0 : 0 ≤ k)
    (hk : k ≤ 4 * n + 2) : |k| ≤ r.limit := by
  rw [abs_of_nonneg h0]
  exact hk.trans hfit

theorem percentileSum_nonneg (hp : 0 ≤ p) : 0 ≤ percentileSum r p n := by
  apply r.round_nonneg
  have hround : 0 ≤ r.round (r.round p * n) :=
    r.round_nonneg (mul_nonneg (r.round_nonneg hp) n.cast_nonneg)
  linarith

theorem percentileIndex_eq (hp : 0 ≤ p) :
    percentileIndex r p n = ⌊percentileSum r p n⌋ - 1 := by
  unfold percentileIndex
  rw [← percentileSum, truncate_of_nonneg (percentileSum_nonneg hp)]

theorem percentileSum_mono (hpq : p ≤ q) : percentileSum r p n ≤ percentileSum r q n := by
  apply r.mono
  apply add_le_add_right
  apply r.mono
  exact mul_le_mul_of_nonneg_right (r.mono hpq) n.cast_nonneg

theorem percentileIndex_mono (hp : 0 ≤ p) (hpq : p ≤ q) :
    percentileIndex r p n ≤ percentileIndex r q n := by
  rw [percentileIndex_eq hp, percentileIndex_eq (hp.trans hpq)]
  exact Int.sub_le_sub_right (Int.floor_le_floor (percentileSum_mono hpq)) 1

theorem percentileSum_le (hfit : 4 * (n : ℤ) + 2 ≤ r.limit) {k : ℤ} (h0 : 0 ≤ k)
    (hk : k ≤ 4 * n) (h : r.round p * n ≤ k / 4) : percentileSum r p n ≤ (k + 2 : ℤ) / 4 := by
  have hproduct := r.round_le (abs_le_limit hfit h0 (by omega)) h
  apply r.round_le (abs_le_limit hfit (by omega) (by omega))
  push_cast
  linarith

theorem le_percentileSum (hfit : 4 * (n : ℤ) + 2 ≤ r.limit) {k : ℤ} (h0 : 0 ≤ k)
    (hk : k ≤ 4 * n) (h : k / 4 ≤ r.round p * n) : (k + 2 : ℤ) / 4 ≤ percentileSum r p n := by
  have hproduct := r.le_round (abs_le_limit hfit h0 (by omega)) h
  apply r.le_round (abs_le_limit hfit (by omega) (by omega))
  push_cast
  linarith

theorem round_le_one (hfit : 4 * (n : ℤ) + 2 ≤ r.limit) (hn : n ≠ 0) (hp : p ≤ 1) :
    r.round p ≤ 1 := by
  have h := r.round_le (n := 4) (abs_le_limit hfit (by omega) (by omega)) (x := p)
  norm_num at h
  exact h hp

theorem percentileIndex_lt (hfit : 4 * (n : ℤ) + 2 ≤ r.limit) (hn : n ≠ 0) (h0 : 0 ≤ p)
    (hp : p ≤ 1) : percentileIndex r p n < n := by
  have hone := round_le_one hfit hn hp
  have hproduct : r.round p * n ≤ ((4 * n : ℤ) : ℚ) / 4 := by
    push_cast
    have hcast : (0 : ℚ) ≤ n := n.cast_nonneg
    nlinarith
  have hsum := percentileSum_le hfit (by omega) le_rfl hproduct
  have hfloor : ⌊percentileSum r p n⌋ < (n : ℤ) + 1 := by
    rw [Int.floor_lt]
    push_cast at hsum ⊢
    linarith
  rw [percentileIndex_eq h0]
  omega

/-- What the three roundings can add or take away. -/
def percentileSlip (r : Rounding) (n : Nat) : ℚ := r.u * (3 * n + 1 / 2) + r.e * (n + 2)

theorem percentileSum_error (hfit : 4 * (n : ℤ) + 2 ≤ r.limit) (hn : n ≠ 0) (h0 : 0 ≤ p)
    (hp : p ≤ 1) : |percentileSum r p n - (1 / 2 + p * n)| ≤ percentileSlip r n := by
  have hcast : (0 : ℚ) ≤ n := n.cast_nonneg
  have hproduct : 0 ≤ r.round p * n := mul_nonneg (r.round_nonneg h0) hcast
  have hle : r.round p * n ≤ n := mul_le_of_le_one_left hcast (round_le_one hfit hn hp)
  have hle' : r.round (r.round p * n) ≤ n := by
    have hround := r.round_le (n := 4 * n) (abs_le_limit hfit (by omega) (by omega))
      (x := r.round p * n) (by push_cast; linarith)
    push_cast at hround
    linarith
  -- one bound for each of the three roundings
  have hfirst : |r.round p * n - p * n| ≤ (r.u * 1 + r.e) * n := by
    rw [← sub_mul, abs_mul, abs_of_nonneg hcast]
    exact mul_le_mul_of_nonneg_right (r.error_le h0 hp) hcast
  have hsecond : |r.round (r.round p * n) - r.round p * n| ≤ r.u * n + r.e :=
    r.error_le hproduct hle
  have hthird : |percentileSum r p n - (1 / 2 + r.round (r.round p * n))| ≤
      r.u * (1 / 2 + n) + r.e :=
    r.error_le (add_nonneg one_half_pos.le (r.round_nonneg hproduct)) (add_le_add_right hle' _)
  rw [abs_le] at hfirst hsecond hthird ⊢
  unfold percentileSlip
  constructor <;> linarith

/-- Up to the roundings the rank, one more than the position, is the integer nearest to the
product. -/
theorem percentileIndex_spec (hfit : 4 * (n : ℤ) + 2 ≤ r.limit) (hn : n ≠ 0) (h0 : 0 ≤ p)
    (hp : p ≤ 1) : percentileIndex r p n + 1 / 2 - percentileSlip r n ≤ p * n ∧
      p * n < percentileIndex r p n + 3 / 2 + percentileSlip r n := by
  obtain ⟨hlow, hhigh⟩ := abs_le.mp (percentileSum_error hfit hn h0 hp)
  have hle := Int.floor_le (percentileSum r p n)
  have hlt := Int.lt_floor_add_one (percentileSum r p n)
  rw [percentileIndex_eq h0]
  push_cast
  constructor <;> linarith

theorem percentileIndex_quarter (hfit : 4 * (n : ℤ) + 2 ≤ r.limit) (hn : n ≠ 0) {k : Nat}
    (hk : k ≤ 4) : percentileIndex r (k / 4) n = (k * n + 2) / 4 - 1 := by
  have hround : r.round ((k : ℤ) / 4) = (k : ℤ) / 4 :=
    r.quarters k (abs_le_limit hfit (by omega) (by omega))
  have hkn : k * n ≤ 4 * n := Nat.mul_le_mul_right n hk
  have hproduct : r.round ((k : ℚ) / 4) * n = ((k * n : ℤ) : ℚ) / 4 := by
    push_cast at hround ⊢
    rw [hround]
    ring
  have hk0 : (0 : ℤ) ≤ k * n := by positivity
  have hkn' : (k * n : ℤ) ≤ 4 * n := by exact_mod_cast hkn
  have hsum : percentileSum r (k / 4) n = (k * n + 2 : ℤ) / 4 :=
    le_antisymm (percentileSum_le hfit hk0 hkn' hproduct.le)
      (le_percentileSum hfit hk0 hkn' hproduct.ge)
  rw [percentileIndex_eq (by positivity), hsum]
  have hfloor : ⌊((k * n + 2 : ℤ) : ℚ) / 4⌋ = (k * n + 2 : ℤ) / 4 := by
    have h := Rat.floor_intCast_div_natCast (k * n + 2) 4
    exact_mod_cast h
  rw [hfloor]

end Positions

/-! ## Sorted arrays -/

theorem sortDurations_perm (arr : List TicksTime) : (sortDurations arr).Perm arr :=
  List.perm_insertionSort _ arr

theorem sortDurations_sorted (arr : List TicksTime) : (sortDurations arr).Pairwise (· ≤ ·) :=
  List.pairwise_insertionSort _ arr

theorem half_between {a b : Int} (h : a ≤ b) : a ≤ (a + b).tdiv 2 ∧ (a + b).tdiv 2 ≤ b := by
  have hdiv := Int.mul_tdiv_add_tmod (a + b) 2
  have hlower := Int.lt_tmod_of_pos (a + b) zero_lt_two
  have hupper := Int.tmod_lt_of_pos (a + b) zero_lt_two
  omega

theorem reportedPercentiles_unit : ∀ p ∈ reportedPercentiles, 0 ≤ p ∧ p ≤ 1 := by
  unfold reportedPercentiles
  simp only [List.mem_cons, List.not_mem_nil, or_false, forall_eq_or_imp, forall_eq]
  norm_num

section Sorted
variable {r : Rounding} {arr : List TicksTime} (hs : arr.Pairwise (· ≤ ·))
include hs

theorem exists_rank {m : Nat} (hm : m < arr.length) : ∃ t, arr[m]? = some t ∧ Rank arr (m + 1) t :=
  have hget : arr[m]? = some arr[m] := List.getElem?_eq_getElem hm
  ⟨arr[m], hget, Rank.of_sorted hs hget⟩

theorem exists_readAt {index : Int} (h0 : 0 ≤ index) (hlt : index < arr.length) :
    ∃ t, readAt arr index = some t ∧ Rank arr (index + 1).toNat t := by
  obtain ⟨t, hget, hrank⟩ := exists_rank hs (m := index.toNat) (by omega)
  refine ⟨t, ?_, ?_⟩
  · rw [readAt, if_pos h0, hget]
  · rwa [Int.toNat_add h0 zero_le_one]

theorem median_spec (hsize : 2 ≤ arr.length) : ∃ t, median arr = some t ∧ IsMedian arr t := by
  unfold median
  rw [if_neg (by omega)]
  split
  · next hodd =>
    obtain ⟨t, hget, hrank⟩ := exists_rank hs (m := arr.length / 2) (by omega)
    exact ⟨t, hget, hrank.isMedian (by omega)⟩
  · next heven =>
    obtain ⟨low, hlow, hrankLow⟩ := exists_rank hs (m := arr.length / 2 - 1) (by omega)
    obtain ⟨high, hhigh, hrankHigh⟩ := exists_rank hs (m := arr.length / 2) (by omega)
    rw [Nat.sub_add_cancel (by omega)] at hrankLow
    have hle : low ≤ high := hrankLow.mono hrankHigh (Nat.le_succ _)
    refine ⟨(low + high).tdiv 2, ?_, ?_⟩
    · rw [hlow, hhigh]
      rfl
    · obtain ⟨hfst, hsnd⟩ := half_between hle
      exact hrankLow.isMedian_between hrankHigh (by omega) hfst hsnd

theorem medianad_spec (hsize : 2 ≤ arr.length) : ∃ c d, medianad r arr = some (scaled r d) ∧
    IsMedian arr c ∧ IsMedian (arr.map fun t => |t - c|) d := by
  obtain ⟨c, hc, hcenter⟩ := median_spec hs hsize
  have hdev : deviations arr c = arr.map fun t => |t - c| := by
    unfold deviations
    apply List.map_congr_left
    intro t _
    split
    · next hlt => rw [abs_of_neg (sub_neg.mpr hlt), neg_sub]
    · next hge => rw [abs_of_nonneg (sub_nonneg.mpr (not_lt.mp hge))]
  have hperm := sortDurations_perm (deviations arr c)
  obtain ⟨d, hd, hspread⟩ := median_spec (sortDurations_sorted (deviations arr c)) (by
    rw [hperm.length_eq, hdev, List.length_map]
    exact hsize)
  refine ⟨c, d, ?_, hcenter, ?_⟩
  · rw [medianad, if_neg (by omega), hc]
    simp only [Option.bind_eq_bind, Option.bind_some, hd]
  · rw [← hdev]
    exact hspread.perm hperm

theorem exists_medianad : ∃ t, medianad r arr = some t ∧ (arr.length = 1 → t = 0) ∧
    (2 ≤ arr.length → ∃ c d, t = scaled r d ∧ IsMedian arr c ∧
      IsMedian (arr.map fun t => |t - c|) d) := by
  rcases Nat.lt_or_ge arr.length 2 with hlt | hge
  · exact ⟨0, if_pos (by omega), fun _ => rfl, fun h => absurd h (by omega)⟩
  · obtain ⟨c, d, ht, hc, hd⟩ := medianad_spec (r := r) hs hge
    exact ⟨_, ht, fun h => absurd h (by omega), fun _ => ⟨c, d, rfl, hc, hd⟩⟩

theorem siqr_spec (hfit : 4 * (arr.length : ℤ) + 2 ≤ r.limit) (hsize : 2 ≤ arr.length) :
    ∃ q3 q1, siqr r arr = some ((q3 - q1).tdiv 2) ∧ Rank arr ((3 * arr.length + 2) / 4) q3 ∧
      Rank arr ((arr.length + 2) / 4) q1 := by
  have hn : arr.length ≠ 0 := by omega
  have h75 := percentileIndex_quarter hfit hn (k := 3) (by omega)
  have h25 := percentileIndex_quarter hfit hn (k := 1) (by omega)
  norm_num at h75 h25
  have hindex3 : 0 ≤ (3 * (arr.length : Int) + 2) / 4 - 1 := by omega
  have hindex1 : 0 ≤ ((arr.length : Int) + 2) / 4 - 1 := by omega
  obtain ⟨q3, hq3, hrank3⟩ := exists_readAt hs hindex3 (by omega)
  obtain ⟨q1, hq1, hrank1⟩ := exists_readAt hs hindex1 (by omega)
  refine ⟨q3, q1, ?_, ?_, ?_⟩
  · rw [siqr, if_neg (by omega), h75, h25, hq3, hq1]
    rfl
  · convert hrank3 using 1
    omega
  · convert hrank1 using 1
    omega

theorem exists_siqr (hfit : 4 * (arr.length : ℤ) + 2 ≤ r.limit) : ∃ t, siqr r arr = some t ∧
    (arr.length = 1 → t = 0) ∧ (2 ≤ arr.length → ∃ q3 q1, t = (q3 - q1) / 2 ∧
      Rank arr ((3 * arr.length + 2) / 4) q3 ∧ Rank arr ((arr.length + 2) / 4) q1) := by
  rcases Nat.lt_or_ge arr.length 2 with hlt | hge
  · exact ⟨0, if_pos (by omega), fun _ => rfl, fun h => absurd h (by omega)⟩
  · obtain ⟨q3, q1, ht, hrank3, hrank1⟩ := siqr_spec hs hfit hge
    have hle : q1 ≤ q3 := hrank1.mono hrank3 (by omega)
    rw [Int.tdiv_eq_ediv_of_nonneg (sub_nonneg.mpr hle)] at ht
    exact ⟨_, ht, fun h => absurd h (by omega), fun _ => ⟨q3, q1, rfl, hrank3, hrank1⟩⟩

section Percentiles
variable (hfit : 4 * (arr.length : ℤ) + 2 ≤ r.limit) (hn : arr.length ≠ 0)
include hfit hn

theorem printPercentiles_spec {ps : List ℚ} (hps : ∀ p ∈ ps, 0 ≤ p ∧ p ≤ 1) : ∃ out,
    printPercentiles r arr ps = some out ∧
      (∀ x ∈ out, x.1 ∈ ps ∧ 0 ≤ percentileIndex r x.1 arr.length ∧
        Rank arr (percentileIndex r x.1 arr.length + 1).toNat x.2) ∧
      ∀ p ∈ ps, 0 ≤ percentileIndex r p arr.length → ∃ t, (p, t) ∈ out := by
  induction ps with
  | nil => exact ⟨[], rfl, by simp, by simp⟩
  | cons p ps ih =>
    obtain ⟨⟨h0, h1⟩, hps⟩ := List.forall_mem_cons.mp hps
    obtain ⟨rest, hrest, hranks, hall⟩ := ih hps
    unfold printPercentiles
    dsimp only
    split
    · next hindex =>
      obtain ⟨t, ht, hrank⟩ := exists_readAt hs hindex (percentileIndex_lt hfit hn h0 h1)
      refine ⟨(p, t) :: rest, ?_, ?_, ?_⟩
      · rw [ht, hrest]
        rfl
      · intro x hx
        rcases List.mem_cons.mp hx with rfl | hx
        · exact ⟨List.mem_cons_self, hindex, hrank⟩
        · obtain ⟨hmem, hrank⟩ := hranks x hx
          exact ⟨List.mem_cons_of_mem _ hmem, hrank⟩
      · intro q hq hindexq
        rcases List.mem_cons.mp hq with rfl | hq
        · exact ⟨t, List.mem_cons_self⟩
        · obtain ⟨u, hu⟩ := hall q hq hindexq
          exact ⟨u, List.mem_cons_of_mem _ hu⟩
    · next hindex =>
      refine ⟨rest, hrest, ?_, ?_⟩
      · intro x hx
        obtain ⟨hmem, hrank⟩ := hranks x hx
        exact ⟨List.mem_cons_of_mem _ hmem, hrank⟩
      · intro q hq hindexq
        rcases List.mem_cons.mp hq with rfl | hq
        · exact absurd hindexq hindex
        · exact hall q hq hindexq

theorem exists_percentiles : ∃ out, printPercentiles r arr reportedPercentiles = some out ∧
    (∀ x ∈ out, ∃ m : Nat, Rank arr m x.2 ∧
      m - 1 / 2 - percentileSlip r arr.length ≤ x.1 * arr.length ∧
      x.1 * arr.length < m + 1 / 2 + percentileSlip r arr.length) ∧
    (∀ p ∈ reportedPercentiles, (∃ t, (p, t) ∈ out) ∨
      p * arr.length < 1 / 2 + percentileSlip r arr.length) ∧
    ∀ x ∈ out, ∀ y ∈ out, x.1 ≤ y.1 → x.2 ≤ y.2 := by
  obtain ⟨out, hout, hranks, hall⟩ :=
    printPercentiles_spec hs hfit hn reportedPercentiles_unit
  have hspec := fun p hp => percentileIndex_spec (p := p) hfit hn
    (reportedPercentiles_unit p hp).1 (reportedPercentiles_unit p hp).2
  refine ⟨out, hout, ?_, ?_, ?_⟩
  · intro x hx
    obtain ⟨hmem, h0, hrank⟩ := hranks x hx
    obtain ⟨hlow, hhigh⟩ := hspec x.1 hmem
    have hcast : (((percentileIndex r x.1 arr.length + 1).toNat : ℤ) : ℚ) =
        (percentileIndex r x.1 arr.length + 1 : ℤ) :=
      congrArg _ (Int.toNat_of_nonneg (by omega))
    push_cast at hcast
    refine ⟨_, hrank, ?_, ?_⟩
    · rw [hcast]
      linarith
    · rw [hcast]
      linarith
  · intro p hp
    by_cases h0 : 0 ≤ percentileIndex r p arr.length
    · exact Or.inl (hall p hp h0)
    · right
      have hle : (percentileIndex r p arr.length : ℚ) ≤ (-1 : ℤ) :=
        Int.cast_le.mpr (by omega)
      have hhigh := (hspec p hp).2
      push_cast at hle
      linarith
  · intro x hx y hy hle
    obtain ⟨hmem, h0, hrank⟩ := hranks x hx
    obtain ⟨-, -, hrank'⟩ := hranks y hy
    apply hrank.mono hrank'
    have hmono := percentileIndex_mono (r := r) (n := arr.length)
      (reportedPercentiles_unit x.1 hmem).1 hle
    omega

end Percentiles

end Sorted

/-! ## What is printed -/

/-- The printed numbers describe the round trips: the latencies are the round trips divided by
`d`. -/
structure Summary.Describes (r : Rounding) (d : Int) (rtts : List TicksTime) (sm : Summary) :
    Prop where
  average : sm.average = rtts.sum / (rtts.length * d)
  between : sm.min ≤ sm.average ∧ sm.average ≤ sm.max
  min : Rank (rtts.map (· / d)) 1 sm.min
  max : Rank (rtts.map (· / d)) rtts.length sm.max
  /-- up to the roundings, the rank is the integer nearest to the share of the sample -/
  percentile : ∀ x ∈ sm.percentiles, ∃ m : Nat, Rank (rtts.map (· / d)) m x.2 ∧
    m - 1 / 2 - percentileSlip r rtts.length ≤ x.1 * rtts.length ∧
    x.1 * rtts.length < m + 1 / 2 + percentileSlip r rtts.length
  complete : ∀ p ∈ reportedPercentiles, (∃ t, (p, t) ∈ sm.percentiles) ∨
    p * rtts.length < 1 / 2 + percentileSlip r rtts.length
  ordered : ∀ x ∈ sm.percentiles, ∀ y ∈ sm.percentiles, x.1 ≤ y.1 → x.2 ≤ y.2
  single : rtts.length = 1 → sm.medianad = 0 ∧ sm.siqr = 0
  deviation : 2 ≤ rtts.length → ∃ center spread, sm.medianad = scaled r spread ∧
    IsMedian (rtts.map (· / d)) center ∧
      IsMedian ((rtts.map (· / d)).map fun t => |t - center|) spread
  quartiles : 2 ≤ rtts.length → ∃ q3 q1, sm.siqr = (q3 - q1) / 2 ∧
    Rank (rtts.map (· / d)) ((3 * rtts.length + 2) / 4) q3 ∧
      Rank (rtts.map (· / d)) ((rtts.length + 2) / 4) q1

namespace Statistics
variable {st : Statistics} {a b : TicksTime} {s : Scan}

variable (st s) in
/-- The sum and the latencies are those of the logged observations. -/
structure Tallied : Prop where
  lat : s.lat = s.fullLog.map fun x => (x.2 - x.1).tdiv st.denominator
  sum : s.sumRtt = (s.fullLog.map fun x => x.2 - x.1).sum

theorem tallied_start : st.Tallied st.scanStart := ⟨rfl, rfl⟩

theorem Tallied.enter (h : st.Tallied s) (seqNo : Nat) (txTime : TicksTime) :
    st.Tallied (s.enter seqNo txTime) := by
  unfold Scan.enter
  split
  · exact ⟨h.lat, h.sum⟩
  · exact h

theorem Tallied.drop (h : st.Tallied s) (serverNo seqNo : Nat) (txTime : TicksTime) :
    st.Tallied (s.drop serverNo seqNo txTime) := by
  unfold Scan.drop
  dsimp only
  split
  · exact ⟨h.lat, h.sum⟩
  · exact ⟨h.lat, h.sum⟩

theorem Tallied.observe (h : st.Tallied s) (seqNo : Nat) (txTime rxTime : TicksTime) :
    st.Tallied (s.observe st.denominator seqNo txTime rxTime) := by
  unfold Scan.observe
  constructor
  · simp [h.lat]
  · simp [h.sum]

theorem Tallied.step {s' : Scan} (hR : 0 < st.replyEvery) (hc : st.Counted a b s)
    (h : st.Tallied s) (hturn : st.turn a b s = .next s') : st.Tallied s' := by
  have hof := turn_of (a := a) (b := b) hR hc.same
  rw [hturn] at hof
  generalize hr : Turn.next (ρ := Option Scan) s' = r at hof
  cases hof with
  | full h => cases hr
  | outside room h => cases hr
  | stop room inTable h => cases hr
  | before room passes hlt =>
    cases hr
    exact ⟨h.lat, h.sum⟩
  | drop room passes inside h0 =>
    cases hr
    exact (h.enter _ _).drop _ _ _
  | outOfOrder room passes inside answered hlt =>
    cases hr
    have he := h.enter (s.i * st.replyEvery) (st.tx s.i)
    exact ⟨he.lat, he.sum⟩
  | observe room passes inside answered hle =>
    cases hr
    exact (h.enter _ _).observe _ _ _

theorem tallied_of_visits (hR : 0 < st.replyEvery) (hrx : ∀ j, 0 ≤ st.rx j)
    (hv : Visits (st.turn a b) st.scanStart s) : st.Tallied s :=
  hv.invariant st.Tallied tallied_start fun _ _ ht h hturn =>
    h.step hR (counted_of_visits hR hrx ht) hturn

theorem denominator_pos : 0 < st.denominator := by
  unfold denominator
  split <;> omega

end Statistics

/-! ## The average -/

section Average
variable {d lo hi : Int} {rtts : List Int} (hd : 0 < d) (hne : rtts ≠ [])
include hd hne

theorem le_average (h : ∀ x ∈ rtts, lo ≤ x / d) : lo ≤ rtts.sum / (rtts.length * d) := by
  have hpos : (0 : Int) < rtts.length := by
    exact_mod_cast List.length_pos_of_ne_nil hne
  have hsum : rtts.length • (lo * d) ≤ rtts.sum := by
    apply List.card_nsmul_le_sum
    intro x hx
    exact (Int.le_ediv_iff_mul_le hd).mp (h x hx)
  rw [Int.le_ediv_iff_mul_le (mul_pos hpos hd)]
  rw [nsmul_eq_mul] at hsum
  linarith

theorem average_le (h : ∀ x ∈ rtts, x / d ≤ hi) : rtts.sum / (rtts.length * d) ≤ hi := by
  have hpos : (0 : Int) < rtts.length := by
    exact_mod_cast List.length_pos_of_ne_nil hne
  have hsum : rtts.sum ≤ rtts.length • ((hi + 1) * d - 1) := by
    apply List.sum_le_card_nsmul
    intro x hx
    have hlt := (Int.ediv_lt_iff_lt_mul hd).mp (Int.lt_add_one_of_le (h x hx))
    omega
  apply Int.le_of_lt_add_one
  rw [Int.ediv_lt_iff_lt_mul (mul_pos hpos hd)]
  rw [nsmul_eq_mul] at hsum
  nlinarith

end Average

section Describe
variable (r : Rounding) {st : Statistics} {s : Scan} {rtts : List TicksTime}
  (hlat : s.lat = rtts.map (·.tdiv st.denominator)) (hsum : s.sumRtt = rtts.sum)
  (hcounter : s.counter = rtts.length) (hnonneg : ∀ t ∈ rtts, 0 ≤ t)

variable (st) in
include hsum hcounter hnonneg in
theorem average_eq (hint : s.counter < 2 ^ 31) :
    (let avgRtt := s.sumRtt.tdiv ((s.counter : Int).bmod (2 ^ 32))
      if st.fullRtt then avgRtt else avgRtt.tdiv 2) =
      rtts.sum / (rtts.length * st.denominator) := by
  have hsum0 : 0 ≤ rtts.sum := List.sum_nonneg hnonneg
  have hcast : (s.counter : Int).bmod (2 ^ 32) = rtts.length := by
    rw [hcounter] at hint ⊢
    exact Int.bmod_eq_of_le (by omega) (by omega)
  have hdiv : s.sumRtt.tdiv ((s.counter : Int).bmod (2 ^ 32)) = rtts.sum / rtts.length := by
    rw [hcast, hsum, Int.tdiv_eq_ediv_of_nonneg hsum0]
  dsimp only
  rw [hdiv, Statistics.denominator]
  split
  · rw [mul_one]
  · rw [Int.tdiv_eq_ediv_of_nonneg (Int.ediv_nonneg hsum0 (Int.natCast_nonneg _)),
      Int.ediv_ediv_of_nonneg (Int.natCast_nonneg _)]

include hlat hsum hcounter hnonneg in
theorem Statistics.summary_spec (hne : rtts ≠ []) (hint : s.counter < 2 ^ 31)
    (hfit : 4 * (s.counter : ℤ) + 2 ≤ r.limit) :
    ∃ sm, st.summary r s = some sm ∧ sm.Describes r st.denominator rtts := by
  have hsample : s.lat = rtts.map (· / st.denominator) := by
    rw [hlat]
    apply List.map_congr_left
    intro t ht
    exact Int.tdiv_eq_ediv_of_nonneg (hnonneg t ht)
  have hsorted := sortDurations_sorted s.lat
  have hperm := sortDurations_perm s.lat
  have haverage := average_eq st hsum hcounter hnonneg hint
  unfold Statistics.summary
  dsimp only at haverage ⊢
  rw [haverage]
  generalize sortDurations s.lat = arr at hsorted hperm ⊢
  rw [hsample] at hperm
  have hlength : arr.length = rtts.length := by rw [hperm.length_eq, List.length_map]
  have hpos : 0 < rtts.length := List.length_pos_of_ne_nil hne
  rw [hcounter, ← hlength] at hfit
  have hn : arr.length ≠ 0 := by omega
  obtain ⟨out, hout, hranks, hcomplete, hordered⟩ := exists_percentiles hsorted hfit hn
  obtain ⟨most, hmost, hrankMost⟩ := exists_rank hsorted (m := s.counter - 1) (by omega)
  obtain ⟨least, hleast, hrankLeast⟩ := exists_rank hsorted (m := 0) (by omega)
  have hmin := hrankLeast.perm hperm
  have hmax : Rank (rtts.map (· / st.denominator)) rtts.length most := by
    have h := hrankMost.perm hperm
    rwa [hcounter, Nat.sub_add_cancel hpos] at h
  obtain ⟨mad, hmad, hmad1, hmad2⟩ := exists_medianad (r := r) hsorted
  obtain ⟨range, hrange, hrange1, hrange2⟩ := exists_siqr hsorted hfit
  rw [hmad, hrange, hmost, hout, hleast]
  simp only [Option.bind_eq_bind, Option.bind_some, Option.some.injEq, exists_eq_left']
  rw [hlength] at hmad1 hmad2 hrange1 hrange2 hranks hcomplete
  refine ⟨rfl, ⟨?_, ?_⟩, hmin, hmax, ?_, hcomplete, hordered, ?_, ?_, ?_⟩
  · apply le_average Statistics.denominator_pos hne
    intro t ht
    exact hmin.first_le (List.mem_map_of_mem ht)
  · apply average_le Statistics.denominator_pos hne
    intro t ht
    apply Rank.le_last (l := rtts.map (· / st.denominator)) _ (List.mem_map_of_mem ht)
    rwa [List.length_map]
  · intro x hx
    obtain ⟨m, hrank, hbounds⟩ := hranks x hx
    exact ⟨m, hrank.perm hperm, hbounds⟩
  · intro hone
    exact ⟨hmad1 hone, hrange1 hone⟩
  · intro htwo
    obtain ⟨c, d, ht, hc, hd⟩ := hmad2 htwo
    exact ⟨c, d, ht, hc.perm hperm, hd.perm (hperm.map _)⟩
  · intro htwo
    obtain ⟨q3, q1, ht, hrank3, hrank1⟩ := hrange2 htwo
    exact ⟨q3, q1, ht, hrank3.perm hperm, hrank1.perm hperm⟩

end Describe

/-- The numbers printed after a scan with observations describe the round trips of exactly the
requests that are judged to be observations: nothing is read outside the array, the average lies
between the least and the largest latency, and the percentiles are order statistics. -/
theorem report_describes_observations {p : UserParams} {st : Statistics} (r : Rounding)
    (h : Recorded p st)
    (causal : ∀ i k, st.times.rx i k ≠ 0 → st.tx i ≤ st.times.rx i k) {s : Scan}
    (hs : st.ClientStatistics (some (.scanned s))) (hne : s.counter ≠ 0)
    (hint : s.counter < 2 ^ 31) (hfit : 4 * (s.counter : ℤ) + 2 ≤ r.limit) :
    ∃ a sm, st.testStart = some a ∧ st.summary r s = some sm ∧
      sm.Describes r st.denominator
        ((st.judged a s.i .observation).map fun i => st.rx i - st.tx i) := by
  obtain ⟨a, b, ha, -, hr⟩ := Statistics.returns_of_scanned hs
  have hv := Statistics.visits_of_returns h.replyEvery_pos h.rx_nonneg hr
  have hc := Statistics.counted_of_visits h.replyEvery_pos h.rx_nonneg hv
  have ht := Statistics.tallied_of_visits h.replyEvery_pos h.rx_nonneg hv
  have hlat : s.lat = ((st.judged a s.i .observation).map fun i => st.rx i - st.tx i).map
      (·.tdiv st.denominator) := by
    rw [ht.lat, hc.log, List.map_map, List.map_map]
    rfl
  have hsum : s.sumRtt = ((st.judged a s.i .observation).map fun i => st.rx i - st.tx i).sum := by
    rw [ht.sum, hc.log, List.map_map]
    rfl
  have hnonneg : ∀ t ∈ (st.judged a s.i .observation).map fun i => st.rx i - st.tx i, 0 ≤ t := by
    intro t ht
    obtain ⟨i, hi, rfl⟩ := List.mem_map.mp ht
    have hverdict := (Statistics.mem_judged.mp hi).2.2.2
    exact sub_nonneg.mpr (causal i st.serverNo (Statistics.verdict_eq_observation.mp hverdict).1)
  have hsome : (st.judged a s.i .observation).map (fun i => st.rx i - st.tx i) ≠ [] := by
    intro hnil
    rw [List.map_eq_nil_iff] at hnil
    rw [hc.counter, hnil] at hne
    exact hne rfl
  obtain ⟨sm, hsm, hdescribes⟩ := Statistics.summary_spec r hlat hsum
    (by rw [hc.counter, List.length_map]) hnonneg hsome hint hfit
  exact ⟨a, sm, ha, hsm, hdescribes⟩

/-- Four messages are played back and answered after 10, 40, 30 and 20 ticks. -/
def fourAnswered : Statistics :=
  Statistics.ofReplies ⟨.playback 4, 1, 1000, 1, 1, 1, 1⟩ [1, 11, 31, 51] [11, 51, 61, 71]

def fourSummary : Summary where
  average := 12
  medianad := 7
  siqr := 5
  max := 20
  percentiles := [(99999 / 100000, 20), (9999 / 10000, 20), (999 / 1000, 20), (99 / 100, 20),
    (9 / 10, 20), (3 / 4, 15), (1 / 2, 10), (1 / 4, 5)]
  min := 5

theorem report_describes_observations_four : ∃ a s,
    fourAnswered.ClientStatistics (some (.scanned s)) ∧
      fourAnswered.summary .exact s = some fourSummary ∧
      fourSummary.Describes .exact fourAnswered.denominator
        ((fourAnswered.judged a s.i .observation).map
          fun i => fourAnswered.rx i - fourAnswered.tx i) := by
  have hrec : Recorded ⟨.playback 4, 1, 1000, 1, 1, 1, 1⟩ fourAnswered := by
    refine Statistics.recorded_ofReplies rfl rfl ?_ ?_ rfl ?_ ?_
    · rintro target ⟨⟩
    · decide
    · decide
    · decide
  have hcausal : ∀ i ≤ 4, fourAnswered.rx i ≠ 0 → fourAnswered.tx i ≤ fourAnswered.rx i := by
    decide
  obtain ⟨s, hs, hcounter, hlat, hsum⟩ : ∃ s,
      fourAnswered.ClientStatistics (some (.scanned s)) ∧ s.counter = 4 ∧
        s.lat = [5, 20, 15, 10] ∧ s.sumRtt = 100 :=
    ⟨_, ⟨6, rfl⟩, rfl, rfl, rfl⟩
  have hsm : fourAnswered.summary .exact s = some fourSummary := by
    unfold Statistics.summary
    rw [hlat, hsum, hcounter]
    decide +kernel
  obtain ⟨a, sm, -, hsm', hdescribes⟩ := report_describes_observations .exact hrec
    (fun i k hrx => by
      obtain ⟨-, -, hi, hk⟩ := hrec.received i k hrx
      obtain rfl : k = 0 := Nat.lt_one_iff.mp hk
      exact hcausal i ((Nat.mul_one i).ge.trans hi) hrx)
    hs (by omega) (by omega) (by rw [hcounter]; decide)
  cases hsm.symm.trans hsm'
  exact ⟨a, s, hs, hsm, hdescribes⟩

end Sockperf
