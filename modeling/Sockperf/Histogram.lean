import Mathlib.Algebra.Order.Field.Rat
import Mathlib.Data.Rat.Floor
import Mathlib.Tactic.Linarith
import Sockperf.Lib.Tally

/-!
# The bins of the histogram

`makeHistogram` counts the latencies, in microseconds, in bins of a fixed size between two
bounds, with one more bin on either side. The index of a bin, the index of the bin on the right
and the edge printed for that one come from three formulas.
-/

namespace Sockperf

open Machine Tally
set_option autoImplicit false

/-- A value of an `uint32_t`. -/
def IsUint32 (x : Int) : Prop := 0 ≤ x ∧ x < 2 ^ 32

structure HistogramParams where
  binSize : Int
  lowerRange : Int
  upperRange : Int
  binSize_isUint32 : IsUint32 binSize
  lowerRange_isUint32 : IsUint32 lowerRange
  upperRange_isUint32 : IsUint32 upperRange

/-! ## The option -/

/-- What the format `%u:%u:%u%c` finds in the argument of `--histogram`: the numbers, and whether
a character follows the third. -/
structure HistogramArg where
  numbers : List Int
  suffix : Bool

/-- `%u` of `sscanf`: a number out of range is read as the largest `unsigned long`. -/
def scanUint32 (n : Int) : Int := if n.natAbs < 2 ^ 64 then n % 2 ^ 32 else 2 ^ 32 - 1

theorem scanUint32_isUint32 (n : Int) : IsUint32 (scanUint32 n) := by
  unfold scanUint32 IsUint32
  split <;> omega

/-- `--histogram`; `none` is "Format should be binsize:lowerrange:upperrange". -/
def parseHistogram (arg : HistogramArg) : Option HistogramParams :=
  match arg.numbers, arg.suffix with
  | [binSize, lowerRange, upperRange], false =>
    some ⟨scanUint32 binSize, scanUint32 lowerRange, scanUint32 upperRange,
      scanUint32_isUint32 binSize, scanUint32_isUint32 lowerRange, scanUint32_isUint32 upperRange⟩
  | _, _ => none

theorem scanUint32_eq {n : Int} (h : IsUint32 n) : scanUint32 n = n := by
  obtain ⟨hpos, hlt⟩ := h
  unfold scanUint32
  rw [if_pos (by omega), Int.emod_eq_of_lt hpos hlt]

theorem parseHistogram_accepts (p : HistogramParams) :
    parseHistogram ⟨[p.binSize, p.lowerRange, p.upperRange], false⟩ = some p := by
  unfold parseHistogram
  simp only [scanUint32_eq p.binSize_isUint32, scanUint32_eq p.lowerRange_isUint32,
    scanUint32_eq p.upperRange_isUint32]

/-! ## The bins -/

/-- The conversion of a `double` to `uint32_t`. -/
def castUint32 (x : ℚ) : Machine Int := check (-1 < x ∧ x < 2 ^ 32) (max 0 ⌊x⌋)

def getLeftOutlierBinIndexReserved : Int := 0

namespace HistogramParams
variable (p : HistogramParams)

def getStartOfRightOutlierBin : Machine Int := do
  let startBinEdge := p.upperRange
  let range ← uint 32 (p.upperRange - p.lowerRange)
  let overflowRemainder ← mod range p.binSize
  if overflowRemainder ≠ 0 then
    let shift ← uint 32 (p.binSize - overflowRemainder)
    uint 32 (startBinEdge + shift)
  else return startBinEdge

def getRightOutlierBinIndexReserved : Machine Int := do
  let range ← uint 32 (p.upperRange - p.lowerRange)
  let bins ← div range p.binSize
  uint 32 (2 + bins)

def binIndex (rightOutlierBinIndex : Int) (value : ℚ) : Machine Int :=
  if value < p.lowerRange then return getLeftOutlierBinIndexReserved
  else if value ≥ p.upperRange then return rightOutlierBinIndex
  -- the quotient is infinite or not a number, and its conversion undefined
  else if p.binSize = 0 then .undefined
  else castUint32 (1 + (value - p.lowerRange) / p.binSize)

/-- The loop of `makeHistogram`. -/
def activeBins (rightOutlierBinIndex : Int) (latencies : List ℚ) :
    Machine (Std.TreeMap Int Int) :=
  tally 32 (p.binIndex rightOutlierBinIndex) latencies ∅

/-- The start that is printed for a bin between the outliers. -/
def startBinEdge (index : Int) : Machine Int := do
  let before ← uint 32 (index - 1)
  let offset ← uint 32 (before * p.binSize)
  uint 32 (offset + p.lowerRange)

/-! ## What they are without bounds -/

/-- The index after the last bin that begins in the range. -/
def rightIndex : Int := 2 + (p.upperRange - p.lowerRange) / p.binSize

/-- The end of the last bin, where it overflows the range. -/
def rightEdge : Int :=
  if (p.upperRange - p.lowerRange) % p.binSize = 0 then p.upperRange
  else p.upperRange + (p.binSize - (p.upperRange - p.lowerRange) % p.binSize)

def index (rightOutlierBinIndex : Int) (value : ℚ) : Int :=
  if value < p.lowerRange then 0
  else if value ≥ p.upperRange then rightOutlierBinIndex
  else 1 + ⌊(value - p.lowerRange) / p.binSize⌋

variable {p} {right index edge : Int} {value : ℚ}

theorem exact_getRightOutlierBinIndexReserved :
    Exact p.getRightOutlierBinIndexReserved right ↔
      (1 ≤ p.binSize ∧ p.lowerRange ≤ p.upperRange ∧ p.rightIndex < 2 ^ 32) ∧
        right = p.rightIndex := by
  have hb := p.binSize_isUint32
  have hl := p.lowerRange_isUint32
  have hu := p.upperRange_isUint32
  unfold IsUint32 at hb hl hu
  unfold getRightOutlierBinIndexReserved rightIndex
  simp only [exact_bind, exact_uint, exact_div]
  constructor
  · rintro ⟨_, ⟨⟨hrange, -⟩, rfl⟩, _, ⟨hne, rfl⟩, ⟨-, hlt⟩, rfl⟩
    rw [Int.tdiv_eq_ediv_of_nonneg hrange] at hlt ⊢
    exact ⟨⟨by omega, by omega, hlt⟩, rfl⟩
  · rintro ⟨⟨hpos, hle, hlt⟩, rfl⟩
    have hdiv := Int.ediv_nonneg (a := p.upperRange - p.lowerRange) (by omega) hb.1
    refine ⟨_, ⟨⟨by omega, by omega⟩, rfl⟩, _, ⟨by omega, rfl⟩, ?_⟩
    rw [Int.tdiv_eq_ediv_of_nonneg (by omega)]
    exact ⟨⟨by omega, hlt⟩, rfl⟩

theorem exact_getStartOfRightOutlierBin :
    Exact p.getStartOfRightOutlierBin edge ↔
      (1 ≤ p.binSize ∧ p.lowerRange ≤ p.upperRange ∧ p.rightEdge < 2 ^ 32) ∧
        edge = p.rightEdge := by
  have hb := p.binSize_isUint32
  have hl := p.lowerRange_isUint32
  have hu := p.upperRange_isUint32
  unfold IsUint32 at hb hl hu
  unfold getStartOfRightOutlierBin rightEdge
  simp only [exact_bind, exact_uint, exact_mod]
  constructor
  · rintro ⟨_, ⟨⟨hrange, -⟩, rfl⟩, _, ⟨hne, rfl⟩, hedge⟩
    rw [Int.tmod_eq_emod_of_nonneg hrange] at hedge
    split at hedge
    · next hrem =>
      obtain ⟨_, ⟨-, rfl⟩, ⟨-, hlt⟩, rfl⟩ := by simpa only [exact_bind, exact_uint] using hedge
      rw [if_neg hrem]
      exact ⟨⟨by omega, by omega, hlt⟩, rfl⟩
    · next hrem =>
      rw [if_pos (not_not.mp hrem)]
      exact ⟨⟨by omega, by omega, hu.2⟩, (exact_pure.mp hedge).symm⟩
  · rintro ⟨⟨hpos, hle, hlt⟩, rfl⟩
    refine ⟨_, ⟨⟨by omega, by omega⟩, rfl⟩, _, ⟨by omega, rfl⟩, ?_⟩
    rw [Int.tmod_eq_emod_of_nonneg (by omega)]
    have hrem := Int.emod_lt_of_pos (p.upperRange - p.lowerRange) (by omega : 0 < p.binSize)
    have hnonneg := Int.emod_nonneg (p.upperRange - p.lowerRange) (by omega : p.binSize ≠ 0)
    split
    · next hne =>
      rw [if_neg hne] at hlt
      rw [exact_bind]
      exact ⟨_, exact_uint.mpr ⟨⟨by omega, by omega⟩, rfl⟩,
        exact_uint.mpr ⟨⟨by omega, hlt⟩, rfl⟩⟩
    · next hzero =>
      rw [if_pos (not_not.mp hzero)]
      exact exact_pure.mpr rfl

theorem exact_startBinEdge :
    Exact (p.startBinEdge index) edge ↔
      (1 ≤ index ∧ index ≤ 2 ^ 32 ∧ (index - 1) * p.binSize + p.lowerRange < 2 ^ 32) ∧
        edge = (index - 1) * p.binSize + p.lowerRange := by
  have hl := p.lowerRange_isUint32.1
  unfold startBinEdge
  simp only [exact_bind, exact_uint]
  constructor
  · rintro ⟨_, ⟨⟨hone, hle⟩, rfl⟩, _, ⟨-, rfl⟩, ⟨-, hlt⟩, rfl⟩
    exact ⟨⟨by omega, by omega, hlt⟩, rfl⟩
  · rintro ⟨⟨hone, hle, hlt⟩, rfl⟩
    have hnonneg := Int.mul_nonneg (Int.sub_nonneg_of_le hone) p.binSize_isUint32.1
    exact ⟨_, ⟨⟨by omega, by omega⟩, rfl⟩, _, ⟨⟨hnonneg, by omega⟩, rfl⟩, ⟨by omega, hlt⟩, rfl⟩

/-! ## The bin of a latency -/

theorem floor_bounds (hb : 1 ≤ p.binSize) (value : ℚ) :
    (⌊(value - p.lowerRange) / p.binSize⌋ * p.binSize : ℚ) ≤ value - p.lowerRange ∧
      value - p.lowerRange < (⌊(value - p.lowerRange) / p.binSize⌋ + 1) * p.binSize := by
  have hpos : (0 : ℚ) < p.binSize := by exact_mod_cast hb
  exact ⟨(le_div_iff₀ hpos).mp (Int.floor_le _), (div_lt_iff₀ hpos).mp (Int.lt_floor_add_one _)⟩

theorem floor_range (hb : 1 ≤ p.binSize) (hl : (p.lowerRange : ℚ) ≤ value)
    (hu : value < p.upperRange) :
    0 ≤ ⌊(value - p.lowerRange) / p.binSize⌋ ∧
      ⌊(value - p.lowerRange) / p.binSize⌋ * p.binSize < p.upperRange - p.lowerRange := by
  have hpos : (0 : ℚ) < p.binSize := by exact_mod_cast hb
  refine ⟨Int.floor_nonneg.mpr (div_nonneg (sub_nonneg.mpr hl) hpos.le), ?_⟩
  have hle := (floor_bounds hb value).1
  have hlt : (⌊(value - p.lowerRange) / p.binSize⌋ * p.binSize : ℚ) <
      p.upperRange - p.lowerRange := by
    linarith
  exact_mod_cast hlt

theorem quotient_lt (hb : 1 ≤ p.binSize) (hl : (p.lowerRange : ℚ) ≤ value)
    (hu : value < p.upperRange) : 1 + (value - p.lowerRange) / p.binSize < 2 ^ 32 := by
  have hone : (1 : ℚ) ≤ p.binSize := by exact_mod_cast hb
  have hle := div_le_self (sub_nonneg.mpr hl) hone
  have hlow : (0 : ℚ) ≤ p.lowerRange := by exact_mod_cast p.lowerRange_isUint32.1
  have hhigh : (p.upperRange : ℚ) + 1 ≤ 2 ^ 32 := by exact_mod_cast p.upperRange_isUint32.2
  linarith

theorem exact_binIndex (hb : 1 ≤ p.binSize) (right : Int) (value : ℚ) :
    Exact (p.binIndex right value) (p.index right value) := by
  unfold binIndex HistogramParams.index
  split
  · exact exact_pure.mpr rfl
  · next hl =>
    split
    · exact exact_pure.mpr rfl
    · next hu =>
      have hl := not_lt.mp hl
      have hu := not_le.mp hu
      have hfloor := (floor_range hb hl hu).1
      have hnonneg := Int.floor_nonneg.mp hfloor
      rw [if_neg (by omega)]
      apply exact_check.mpr
      refine ⟨⟨by linarith, quotient_lt hb hl hu⟩, ?_⟩
      rw [add_comm (1 : ℚ), Int.floor_add_one, max_eq_right (by omega), add_comm]

theorem index_left (h : value < p.lowerRange) : p.index right value = 0 := if_pos h

theorem index_right (hle : p.lowerRange ≤ p.upperRange) (h : p.upperRange ≤ value) :
    p.index right value = right := by
  have hle : (p.lowerRange : ℚ) ≤ p.upperRange := by exact_mod_cast hle
  unfold HistogramParams.index
  rw [if_neg (not_lt.mpr (hle.trans h)), if_pos h]

theorem index_regular (hl : p.lowerRange ≤ value) (hu : value < p.upperRange) :
    p.index right value = 1 + ⌊(value - p.lowerRange) / p.binSize⌋ := by
  unfold HistogramParams.index
  rw [if_neg (not_lt.mpr hl), if_neg (not_le.mpr hu)]

theorem regular_between (right : Int) (hb : 1 ≤ p.binSize) (hl : p.lowerRange ≤ value)
    (hu : value < p.upperRange) :
    1 ≤ p.index right value ∧ p.index right value < p.rightIndex := by
  obtain ⟨hnonneg, hlt⟩ := floor_range hb hl hu
  rw [index_regular hl hu]
  refine ⟨by omega, ?_⟩
  have hle := Int.le_ediv_of_mul_le (by omega : 0 < p.binSize) hlt.le
  unfold rightIndex
  omega

theorem regular_edges (right : Int) (hb : 1 ≤ p.binSize) (hl : p.lowerRange ≤ value)
    (hu : value < p.upperRange) :
    ∃ edge, Exact (p.startBinEdge (p.index right value)) edge ∧
      (p.lowerRange ≤ edge ∧ edge < p.upperRange) ∧ edge ≤ value ∧ value < edge + p.binSize := by
  obtain ⟨hnonneg, hlt⟩ := floor_range hb hl hu
  obtain ⟨hlow, hhigh⟩ := floor_bounds hb value
  have hmul : ⌊(value - p.lowerRange) / p.binSize⌋ ≤
      ⌊(value - p.lowerRange) / p.binSize⌋ * p.binSize := le_mul_of_one_le_right hnonneg hb
  have hupper := p.upperRange_isUint32
  have hlower := p.lowerRange_isUint32
  unfold IsUint32 at hupper hlower
  rw [index_regular hl hu]
  generalize ⌊(value - p.lowerRange) / p.binSize⌋ = k at *
  refine ⟨k * p.binSize + p.lowerRange, exact_startBinEdge.mpr ⟨⟨?_, ?_, ?_⟩, ?_⟩, ⟨?_, ?_⟩, ?_, ?_⟩
  · omega
  · omega
  · rw [add_sub_cancel_left]
    omega
  · rw [add_sub_cancel_left]
  · omega
  · omega
  · push_cast
    linarith
  · push_cast
    linarith

theorem upperRange_le_rightEdge (hb : 1 ≤ p.binSize) :
    p.upperRange ≤ p.rightEdge ∧ p.rightEdge < p.upperRange + p.binSize := by
  have hrem := Int.emod_lt_of_pos (p.upperRange - p.lowerRange) (by omega : 0 < p.binSize)
  have hnonneg := Int.emod_nonneg (p.upperRange - p.lowerRange) (by omega : p.binSize ≠ 0)
  unfold rightEdge
  split <;> omega

theorem gives_getRightOutlierBinIndexReserved (hb : 1 ≤ p.binSize)
    (hle : p.lowerRange ≤ p.upperRange) :
    Gives p.getRightOutlierBinIndexReserved (p.rightIndex % 2 ^ 32) := by
  have hu := p.upperRange_isUint32.2
  have hl := p.lowerRange_isUint32.1
  refine Gives.bind (exact_uint.mpr ⟨⟨by omega, by omega⟩, rfl⟩).gives ?_
  refine Gives.bind (exact_div.mpr ⟨by omega, rfl⟩).gives ?_
  rw [Int.tdiv_eq_ediv_of_nonneg (by omega)]
  exact Gives.uint 32 _

end HistogramParams

/-! ## The bins as a partition -/

/-- Every latency is in one bin, and the edges that are printed say in which. -/
structure IsPartition (p : HistogramParams) (latencies : List ℚ) (rightIndex rightEdge : Int)
    (bins : Std.TreeMap Int Int) : Prop where
  total : (bins.toList.map Prod.snd).sum = latencies.length
  left : ∀ value ∈ latencies,
    Gives (p.binIndex rightIndex value) getLeftOutlierBinIndexReserved ↔ value < p.lowerRange
  right : ∀ value ∈ latencies,
    Gives (p.binIndex rightIndex value) rightIndex ↔ (rightEdge : ℚ) ≤ value
  regular : ∀ value ∈ latencies, p.lowerRange ≤ value → value < rightEdge →
    ∃ index edge, Gives (p.binIndex rightIndex value) index ∧
      index ≠ getLeftOutlierBinIndexReserved ∧ index ≠ rightIndex ∧
      Gives (p.startBinEdge index) edge ∧ (edge : ℚ) ≤ value ∧ value < edge + p.binSize

section Partition
variable {p : HistogramParams} {right : Int} {value : ℚ} {index : Int}

theorem gives_binIndex (hb : 1 ≤ p.binSize) :
    Gives (p.binIndex right value) index ↔ p.index right value = index := by
  constructor
  · intro h
    exact (HistogramParams.exact_binIndex hb right value).gives.unique h
  · rintro rfl
    exact (HistogramParams.exact_binIndex hb right value).gives

/-- With these bounds the index on the right is at most `2 ^ 32`, where it wraps around. -/
theorem rightIndex_bounds (hb : 1 ≤ p.binSize) (hlt : p.lowerRange < p.upperRange)
    (hedge : p.upperRange + p.binSize < 2 ^ 32) : 2 ≤ p.rightIndex ∧ p.rightIndex ≤ 2 ^ 32 := by
  have hl := p.lowerRange_isUint32.1
  have hrange : 0 ≤ p.upperRange - p.lowerRange := by omega
  have hdiv := Int.ediv_nonneg hrange (by omega : 0 ≤ p.binSize)
  have hle := Int.ediv_le_self p.binSize hrange
  unfold HistogramParams.rightIndex
  omega

theorem index_cases (hb : 1 ≤ p.binSize) (hlt : p.lowerRange < p.upperRange) (right : Int)
    (value : ℚ) :
    (value < p.lowerRange ∧ p.index right value = 0) ∨
    (p.upperRange ≤ value ∧ p.index right value = right) ∨
    ((p.lowerRange ≤ value ∧ value < p.upperRange) ∧
      1 ≤ p.index right value ∧ p.index right value < p.rightIndex) := by
  by_cases hl : value < p.lowerRange
  · exact Or.inl ⟨hl, HistogramParams.index_left hl⟩
  · have hl := not_lt.mp hl
    by_cases hu : value < p.upperRange
    · exact Or.inr (Or.inr ⟨⟨hl, hu⟩, HistogramParams.regular_between right hb hl hu⟩)
    · have hu := not_lt.mp hu
      exact Or.inr (Or.inl ⟨hu, HistogramParams.index_right hlt.le hu⟩)

variable {latencies : List ℚ} {bins : Std.TreeMap Int Int}

theorem IsPartition.between (h : IsPartition p latencies right p.rightEdge bins)
    (hb : 1 ≤ p.binSize) (hlt : p.lowerRange < p.upperRange) :
    ∀ value ∈ latencies, value < p.upperRange ∨ p.rightEdge ≤ value := by
  intro value hvalue
  by_cases hu : value < p.upperRange
  · exact Or.inl hu
  · apply Or.inr
    apply (h.right value hvalue).mp
    exact (gives_binIndex hb).mpr (HistogramParams.index_right hlt.le (not_lt.mp hu))

theorem IsPartition.no_outliers (h : IsPartition p latencies 0 p.rightEdge bins)
    (hb : 1 ≤ p.binSize) (hlt : p.lowerRange < p.upperRange) :
    ∀ value ∈ latencies, p.lowerRange ≤ value ∧ value < p.upperRange := by
  intro value hvalue
  have hle : (p.upperRange : ℚ) ≤ p.rightEdge := by
    exact_mod_cast (HistogramParams.upperRange_le_rightEdge hb).1
  have hlt' : (p.lowerRange : ℚ) < p.upperRange := by exact_mod_cast hlt
  rcases index_cases hb hlt 0 value with ⟨hl, hindex⟩ | ⟨hu, hindex⟩ | ⟨hin, -⟩
  · -- a left outlier would be one on the right as well
    have hright := (h.right value hvalue).mp ((gives_binIndex hb).mpr hindex)
    linarith
  · have hleft := (h.left value hvalue).mp ((gives_binIndex hb).mpr hindex)
    linarith
  · exact hin

theorem isPartition_of (hb : 1 ≤ p.binSize) (hlt : p.lowerRange < p.upperRange)
    (hright : right ≤ 0 ∨ p.rightIndex ≤ right)
    (hcounts : Counts 32 (latencies.map (p.index right)) bins)
    (hfits : Fits 32 (latencies.map (p.index right)))
    (hbetween : ∀ value ∈ latencies, value < p.upperRange ∨ p.rightEdge ≤ value)
    (hinside : right = 0 → ∀ value ∈ latencies, p.lowerRange ≤ value ∧ value < p.upperRange) :
    IsPartition p latencies right p.rightEdge bins := by
  have hle : (p.upperRange : ℚ) ≤ p.rightEdge := by
    exact_mod_cast (HistogramParams.upperRange_le_rightEdge hb).1
  have hlt' : (p.lowerRange : ℚ) < p.upperRange := by exact_mod_cast hlt
  refine ⟨?_, ?_, ?_, ?_⟩
  · rw [hcounts.sum_eq_length_iff.mpr hfits, List.length_map]
  · intro value hvalue
    rw [gives_binIndex hb]
    unfold getLeftOutlierBinIndexReserved
    rcases index_cases hb hlt right value with ⟨hl, hindex⟩ | ⟨hu, hindex⟩ | ⟨hin, hindex⟩
    · exact iff_of_true hindex hl
    · refine iff_of_false ?_ (by linarith)
      intro hzero
      linarith [(hinside (hindex.symm.trans hzero) value hvalue).2]
    · exact iff_of_false (by omega) (not_lt.mpr hin.1)
  · intro value hvalue
    rw [gives_binIndex hb]
    rcases index_cases hb hlt right value with ⟨hl, hindex⟩ | ⟨hu, hindex⟩ | ⟨hin, hindex⟩
    · refine iff_of_false ?_ (by linarith)
      intro hzero
      linarith [(hinside (hzero.symm.trans hindex) value hvalue).1]
    · exact iff_of_true hindex ((hbetween value hvalue).resolve_left (not_lt.mpr hu))
    · exact iff_of_false (by omega) (by linarith)
  · intro value hvalue hl hu
    have hu : value < p.upperRange := (hbetween value hvalue).resolve_right (not_le.mpr hu)
    obtain ⟨hone, hindex⟩ := HistogramParams.regular_between right hb hl hu
    obtain ⟨edge, hedge, -, hstart, hend⟩ := HistogramParams.regular_edges right hb hl hu
    refine ⟨_, edge, (gives_binIndex hb).mpr rfl, ?_, by omega, hedge.gives, hstart, hend⟩
    unfold getLeftOutlierBinIndexReserved
    omega

end Partition

/-- The bins are a partition with the edges that are printed just when no counter wraps around, no
latency is between the upper bound and the end of the last bin, and, where the index on the right
wraps around to that on the left, there are no outliers. -/
theorem bins_partition_iff (p : HistogramParams) (latencies : List ℚ) (hb : 1 ≤ p.binSize)
    (hlt : p.lowerRange < p.upperRange) (hedge : p.upperRange + p.binSize < 2 ^ 32) :
    ∃ right bins, Gives p.getRightOutlierBinIndexReserved right ∧
      Gives p.getStartOfRightOutlierBin p.rightEdge ∧ Gives (p.activeBins right latencies) bins ∧
      (IsPartition p latencies right p.rightEdge bins ↔
        (∀ index, (latencies.map (p.index right)).count index < 2 ^ 32) ∧
        (∀ value ∈ latencies, value < p.upperRange ∨ p.rightEdge ≤ value) ∧
        (p.rightIndex = 2 ^ 32 → ∀ value ∈ latencies,
          p.lowerRange ≤ value ∧ value < p.upperRange)) := by
  obtain ⟨htwo, hmax⟩ := rightIndex_bounds hb hlt hedge
  have hedges := HistogramParams.upperRange_le_rightEdge hb
  obtain ⟨bins, hbins, hcounts⟩ := (counts_nil 32).gives_tally
    (f := p.index (p.rightIndex % 2 ^ 32)) latencies
    fun value _ => (HistogramParams.exact_binIndex hb _ value).gives
  rw [List.nil_append] at hcounts
  have hstart := HistogramParams.exact_getStartOfRightOutlierBin.mpr
    ⟨⟨hb, hlt.le, by omega⟩, rfl⟩
  refine ⟨_, bins, HistogramParams.gives_getRightOutlierBinIndexReserved hb hlt.le,
    hstart.gives, hbins, ?_, ?_⟩
  · intro h
    have htotal := h.total
    rw [← List.length_map (f := p.index (p.rightIndex % 2 ^ 32))] at htotal
    refine ⟨hcounts.sum_eq_length_iff.mp htotal, h.between hb hlt, ?_⟩
    intro hwrap
    rw [hwrap] at h
    exact h.no_outliers hb hlt
  · rintro ⟨hfits, hbetween, hinside⟩
    refine isPartition_of hb hlt (by omega) hcounts hfits hbetween ?_
    intro hzero
    exact hinside (by omega)

def evenRange : HistogramParams where
  binSize := 10
  lowerRange := 0
  upperRange := 100
  binSize_isUint32 := ⟨by decide, by decide⟩
  lowerRange_isUint32 := ⟨by decide, by decide⟩
  upperRange_isUint32 := ⟨by decide, by decide⟩

theorem bins_partition_evenRange :
    ∃ right bins, Gives evenRange.getRightOutlierBinIndexReserved right ∧
      Gives (evenRange.activeBins right [5, 50, 150]) bins ∧
      IsPartition evenRange [5, 50, 150] right evenRange.rightEdge bins := by
  obtain ⟨right, bins, hright, -, hbins, hiff⟩ :=
    bins_partition_iff evenRange [5, 50, 150] (by decide) (by decide) (by decide)
  refine ⟨right, bins, hright, hbins, hiff.mpr ⟨?_, ?_, ?_⟩⟩
  · intro index
    exact List.count_le_length.trans_lt (by simp)
  · decide
  · intro hwrap
    exact absurd hwrap (by decide)

def oddRange : HistogramParams where
  binSize := 10
  lowerRange := 0
  upperRange := 95
  binSize_isUint32 := ⟨by decide, by decide⟩
  lowerRange_isUint32 := ⟨by decide, by decide⟩
  upperRange_isUint32 := ⟨by decide, by decide⟩

def wholeRange : HistogramParams where
  binSize := 1
  lowerRange := 0
  upperRange := 2 ^ 32 - 2
  binSize_isUint32 := ⟨by decide, by decide⟩
  lowerRange_isUint32 := ⟨by decide, by decide⟩
  upperRange_isUint32 := ⟨by decide, by decide⟩

/-- A latency of 97 is printed among those from 100 on. In the widest range the largest latency
is counted among those below the range. -/
theorem bins_not_partition :
    oddRange.getRightOutlierBinIndexReserved = .value 11 false ∧
    oddRange.getStartOfRightOutlierBin = .value 100 false ∧
    oddRange.binIndex 11 97 = .value 11 false ∧
    (∀ bins, ¬ IsPartition oddRange [97] 11 100 bins) ∧
    wholeRange.getRightOutlierBinIndexReserved = .value 0 true ∧
    wholeRange.binIndex 0 4294967295 = .value getLeftOutlierBinIndexReserved false := by
  have hcounted : oddRange.binIndex 11 97 = .value 11 false := by decide
  refine ⟨by decide, by decide, hcounted, ?_, by decide, by decide⟩
  intro bins h
  have hle := (h.right 97 List.mem_cons_self).mp ⟨false, hcounted⟩
  exact absurd hle (by decide)

end Sockperf
