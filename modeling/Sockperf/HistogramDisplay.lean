import Mathlib.Data.Nat.Log
import Sockperf.Histogram

/-!
# Printing the histogram

`printHistogram` scales the bins to the width of the terminal and `storeHistogram` writes them to
the full log. All numbers are unsigned; widths, edges and rounded quotients come from the option,
the terminal and the latencies.
-/

namespace Sockperf

open Machine Tally
set_option autoImplicit false

/-- `getNumberOfDigits`: the logarithm of zero has no digits. -/
def getNumberOfDigits (input : Int) : Machine Int := check (0 < input) (Nat.log 10 input.toNat + 1)

/-- `(count + unit - 1) / unit` -/
def roundUp (count unit : Int) : Machine Int := do
  let sum ← uint 32 (count + unit)
  let less ← uint 32 (sum - 1)
  div less unit

structure BinLine where
  startBinEdge : Int
  endBinEdge : Int
  /-- The number of `#`. -/
  frequencyScaledDownCount : Int
  outliers : Bool
  deriving DecidableEq, Repr

structure Display where
  scalingUnit : Int
  maxDisplayWidth : Int
  columnWidthOfStartBinEdge : Int
  columnWidthOfEndBinEdge : Int
  binsHeaderWidth : Int
  frequencyHeaderWidth : Int
  lines : List BinLine
  deriving DecidableEq, Repr

/-- A line of the full log; the bins between the outliers have no end. -/
structure StoredLine where
  startBinEdge : Int
  endBinEdge : Option Int
  columnWidth : Int
  frequency : Int
  deriving DecidableEq, Repr

structure HistogramOutput where
  display : Display
  stored : Option (List StoredLine)
  deriving DecidableEq, Repr

/-- The width that is left for the bars, in `size_t`. -/
def maxDisplayWidth (terminalWidth maxBinMessage : Int) : Machine Int := do
  let afterPrefix ← uint 64 (terminalWidth - 10)
  let afterBins ← uint 64 (afterPrefix - maxBinMessage)
  let afterOutliers ← uint 64 (afterBins - 12)
  let left ← uint 64 (afterOutliers - 2)
  uint 32 left

/-- `maxDisplayWidth` and `scalingUnit`; a width of zero is that of a file. -/
def scaleToTerminal (terminalWidth maxBinMessage maxFrequency : Int) : Machine (Int × Int) :=
  if terminalWidth = 0 then do
    let scalingUnit ← roundUp maxFrequency 80
    return (0, scalingUnit)
  else do
    let width ← maxDisplayWidth terminalWidth maxBinMessage
    let scalingUnit ← roundUp maxFrequency width
    return (width, scalingUnit)

def binsHeaderWidth (maxStartBinDigits maxEndBinDigits : Int) : Machine Int := do
  let digits ← uint 32 (maxStartBinDigits + maxEndBinDigits)
  let message ← uint 32 (digits + 2)
  let half ← div message 2
  let width ← uint 64 (half + 2)
  uint 32 width

def frequencyHeaderWidth (maxDisplayWidth : Int) : Machine Int := do
  let half ← div maxDisplayWidth 2
  let width ← uint 64 (half + 4)
  uint 32 width

namespace HistogramParams
variable (p : HistogramParams)

/-- The body of the loop of `printHistogram`. -/
def printBin (rightOutlierBinIndex minValue maxValue scalingUnit : Int) (bin : Int × Int) :
    Machine BinLine := do
  let bar ← roundUp bin.2 scalingUnit
  if bin.1 = getLeftOutlierBinIndexReserved then
    return ⟨minValue, p.lowerRange, bar, true⟩
  else if bin.1 = rightOutlierBinIndex then do
    let start ← p.getStartOfRightOutlierBin
    return ⟨start, maxValue, bar, true⟩
  else do
    let start ← p.startBinEdge bin.1
    let stop ← uint 32 (start + p.binSize)
    return ⟨start, stop, bar, false⟩

def maxBinMessage (maxEndBinDigits : Int) : Machine Int := do
  let lastEdge ← uint 32 (p.upperRange + p.binSize)
  let digits ← getNumberOfDigits lastEdge
  let message ← uint 32 (digits + 1)
  uint 32 (message + maxEndBinDigits)

def printHistogram (activeBins : Std.TreeMap Int Int) (minValue maxValue terminalWidth : Int) :
    Machine Display := do
  let rightOutlierBinIndex ← p.getRightOutlierBinIndexReserved
  let startOfRight ← p.getStartOfRightOutlierBin
  let maxStartBinDigits ← getNumberOfDigits startOfRight
  let maxEndBinDigits ← getNumberOfDigits maxValue
  let columnWidthOfEndBinEdge ← uint 32 (maxEndBinDigits + 2)
  let message ← p.maxBinMessage maxEndBinDigits
  let scale ← scaleToTerminal terminalWidth message (greatest activeBins)
  let binsHeader ← binsHeaderWidth maxStartBinDigits maxEndBinDigits
  let frequencyHeader ← frequencyHeaderWidth scale.1
  let lines ← activeBins.toList.mapM' (p.printBin rightOutlierBinIndex minValue maxValue scale.2)
  return ⟨scale.2, scale.1, maxStartBinDigits, columnWidthOfEndBinEdge, binsHeader,
    frequencyHeader, lines⟩

/-- The body of the loop of `storeHistogram`, which computes the edge for outliers too. -/
def storeBin (rightOutlierBinIndex minValue maxValue : Int) (widths : Int × Int × Int)
    (bin : Int × Int) : Machine StoredLine := do
  let edge ← p.startBinEdge bin.1
  if bin.1 = getLeftOutlierBinIndexReserved then
    return ⟨minValue, some p.lowerRange, widths.2.1, bin.2⟩
  else if bin.1 = rightOutlierBinIndex then do
    let start ← p.getStartOfRightOutlierBin
    return ⟨start, some maxValue, widths.2.2, bin.2⟩
  else return ⟨edge, none, widths.1, bin.2⟩

/-- `columnWidth`, `columnWidthLeftOutlier` and `columnWidthRightOutlier` -/
def columnWidths (upperRangeDigits maxValueDigits minValueDigits : Int) :
    Machine (Int × Int × Int) := do
  let dash ← uint 32 (maxValueDigits + 1)
  let message ← uint 32 (dash + upperRangeDigits)
  let columnWidth ← uint 32 (message + 20)
  let less ← uint 32 (columnWidth - 1)
  let left ← uint 32 (less - minValueDigits)
  let right ← uint 32 (less - upperRangeDigits)
  return (columnWidth, left, right)

def storeHistogram (activeBins : Std.TreeMap Int Int) (minValue maxValue : Int) :
    Machine (List StoredLine) := do
  let rightOutlierBinIndex ← p.getRightOutlierBinIndexReserved
  let upperRangeDigits ← getNumberOfDigits p.upperRange
  let maxValueDigits ← getNumberOfDigits maxValue
  let minValueDigits ← getNumberOfDigits minValue
  let widths ← columnWidths upperRangeDigits maxValueDigits minValueDigits
  activeBins.toList.mapM' (p.storeBin rightOutlierBinIndex minValue maxValue widths)

/-- `static_cast<uint32_t>(sortedpLat[i].toDecimalUsec())` for the first or the last. -/
def castLatency : Option ℚ → Machine Int
  | some latency => castUint32 latency
  | none => .undefined

/-- The end of `makeHistogram`: the full log, if there is one. -/
def withFullLog (activeBins : Std.TreeMap Int Int) (minValue maxValue : Int) (fileFullLog : Bool)
    (display : Display) : Machine HistogramOutput :=
  if fileFullLog then do
    let stored ← p.storeHistogram activeBins minValue maxValue
    return ⟨display, some stored⟩
  else return ⟨display, none⟩

def makeHistogram (latencies : List ℚ) (terminalWidth : Int) (fileFullLog : Bool) :
    Machine HistogramOutput := do
  let rightOutlierBinIndex ← p.getRightOutlierBinIndexReserved
  let minValue ← castLatency latencies.head?
  let maxValue ← castLatency latencies.getLast?
  let bins ← p.activeBins rightOutlierBinIndex latencies
  let display ← p.printHistogram bins minValue maxValue terminalWidth
  p.withFullLog bins minValue maxValue fileFullLog display

end HistogramParams

/-! ## Without bounds -/

def digits (n : Int) : Int := Nat.log 10 n.toNat + 1

def ceilDiv (count unit : Int) : Int := (count + unit - 1) / unit

def barWidth (terminalWidth maxBinMessage : Int) : Int :=
  if terminalWidth = 0 then 80 else terminalWidth - 24 - maxBinMessage

section Numbers
variable {n d count unit quotient : Int}

theorem digits_bounds (hlt : n < 2 ^ 32) : 1 ≤ digits n ∧ digits n ≤ 10 := by
  have hpow : n.toNat < 10 ^ 10 := by omega
  have hlog := Nat.log_lt_of_lt_pow' (by decide) hpow
  unfold digits
  omega

theorem exact_getNumberOfDigits : Exact (getNumberOfDigits n) d ↔ 0 < n ∧ d = digits n := by
  unfold getNumberOfDigits
  rw [exact_check, eq_comm]
  rfl

theorem exact_roundUp (hcount : 0 ≤ count) (hunit : 0 ≤ unit) :
    Exact (roundUp count unit) quotient ↔
      (1 ≤ unit ∧ count + unit < 2 ^ 32) ∧ quotient = ceilDiv count unit := by
  unfold roundUp ceilDiv
  simp only [exact_bind, exact_uint, exact_div]
  constructor
  · rintro ⟨_, ⟨⟨-, hlt⟩, rfl⟩, _, ⟨⟨hnonneg, -⟩, rfl⟩, hne, rfl⟩
    rw [Int.tdiv_eq_ediv_of_nonneg hnonneg]
    exact ⟨⟨by omega, hlt⟩, rfl⟩
  · rintro ⟨⟨hone, hlt⟩, rfl⟩
    refine ⟨_, ⟨⟨by omega, hlt⟩, rfl⟩, _, ⟨⟨by omega, by omega⟩, rfl⟩, by omega, ?_⟩
    rw [Int.tdiv_eq_ediv_of_nonneg (by omega)]

theorem ceilDiv_pos (hcount : 1 ≤ count) (hunit : 1 ≤ unit) : 1 ≤ ceilDiv count unit := by
  unfold ceilDiv
  apply Int.le_ediv_of_mul_le
  · omega
  · omega

theorem ceilDiv_le {width : Int} (hunit : 1 ≤ unit) (hle : count ≤ width * unit) :
    ceilDiv count unit ≤ width := by
  unfold ceilDiv
  apply Int.lt_add_one_iff.mp
  apply Int.ediv_lt_of_lt_mul (by omega)
  rw [add_mul]
  omega

theorem le_mul_ceilDiv (hunit : 1 ≤ unit) : count ≤ unit * ceilDiv count unit := by
  have hlt := Int.lt_mul_ediv_self_add (x := count + unit - 1) (by omega : 0 < unit)
  unfold ceilDiv
  omega

theorem bar_bounds {greatest width : Int} (hwidth : 1 ≤ width) (hcount : 1 ≤ count)
    (hle : count ≤ greatest) :
    1 ≤ ceilDiv count (ceilDiv greatest width) ∧
      ceilDiv count (ceilDiv greatest width) ≤ width := by
  have hunit := ceilDiv_pos (hcount.trans hle) hwidth
  exact ⟨ceilDiv_pos hcount hunit, ceilDiv_le hunit (hle.trans (le_mul_ceilDiv hwidth))⟩

variable {terminalWidth message width : Int}

theorem exact_maxDisplayWidth (hterminal : 0 ≤ terminalWidth ∧ terminalWidth < 65536)
    (hmessage : 0 ≤ message) :
    Exact (maxDisplayWidth terminalWidth message) width ↔
      24 + message ≤ terminalWidth ∧ width = terminalWidth - 24 - message := by
  unfold maxDisplayWidth
  simp only [exact_bind, exact_uint]
  constructor
  · rintro ⟨_, ⟨-, rfl⟩, _, ⟨-, rfl⟩, _, ⟨-, rfl⟩, _, ⟨⟨hnonneg, -⟩, rfl⟩, -, rfl⟩
    omega
  · rintro ⟨hle, rfl⟩
    refine ⟨_, ⟨?_, rfl⟩, _, ⟨?_, rfl⟩, _, ⟨?_, rfl⟩, _, ⟨?_, rfl⟩, ?_, ?_⟩
    all_goals omega

theorem exact_scaleToTerminal {scale : Int × Int} (hcount : 0 ≤ count)
    (hterminal : 0 ≤ terminalWidth ∧ terminalWidth < 65536) (hmessage : 0 ≤ message) :
    Exact (scaleToTerminal terminalWidth message count) scale ↔
      (1 ≤ barWidth terminalWidth message ∧ count + barWidth terminalWidth message < 2 ^ 32) ∧
      scale = (if terminalWidth = 0 then 0 else barWidth terminalWidth message,
        ceilDiv count (barWidth terminalWidth message)) := by
  unfold scaleToTerminal barWidth
  split
  · simp only [exact_bind, exact_pure, exact_roundUp hcount (by omega : (0 : Int) ≤ 80)]
    constructor
    · rintro ⟨_, ⟨hlt, rfl⟩, rfl⟩
      exact ⟨hlt, rfl⟩
    · rintro ⟨hlt, rfl⟩
      exact ⟨_, ⟨hlt, rfl⟩, rfl⟩
  · simp only [exact_bind, exact_pure, exact_maxDisplayWidth hterminal hmessage]
    constructor
    · rintro ⟨_, ⟨hle, rfl⟩, unit, hunit, rfl⟩
      obtain ⟨hlt, rfl⟩ := (exact_roundUp hcount (by omega)).mp hunit
      exact ⟨hlt, rfl⟩
    · rintro ⟨hlt, rfl⟩
      exact ⟨_, ⟨by omega, rfl⟩, _, (exact_roundUp hcount (by omega)).mpr ⟨hlt, rfl⟩, rfl⟩

theorem exact_binsHeaderWidth {a b : Int} (ha : 1 ≤ a ∧ a ≤ 10) (hb : 1 ≤ b ∧ b ≤ 10) :
    Exact (binsHeaderWidth a b) width ↔ width = (a + b + 2) / 2 + 2 := by
  unfold binsHeaderWidth
  simp only [exact_bind, exact_uint, exact_div]
  constructor
  · rintro ⟨_, ⟨-, rfl⟩, _, ⟨⟨hnonneg, -⟩, rfl⟩, _, ⟨-, rfl⟩, _, ⟨-, rfl⟩, -, rfl⟩
    rw [Int.tdiv_eq_ediv_of_nonneg hnonneg]
  · rintro rfl
    refine ⟨_, ⟨by omega, rfl⟩, _, ⟨by omega, rfl⟩, _, ⟨by omega, rfl⟩, ?_⟩
    rw [Int.tdiv_eq_ediv_of_nonneg (by omega)]
    refine ⟨_, ⟨by omega, rfl⟩, by omega, rfl⟩

theorem exact_frequencyHeaderWidth {header : Int} (hwidth : 0 ≤ width ∧ width < 65536) :
    Exact (frequencyHeaderWidth width) header ↔ header = width / 2 + 4 := by
  unfold frequencyHeaderWidth
  simp only [exact_bind, exact_uint, exact_div, Int.tdiv_eq_ediv_of_nonneg hwidth.1]
  constructor
  · rintro ⟨_, ⟨-, rfl⟩, _, ⟨-, rfl⟩, -, rfl⟩
    rfl
  · rintro rfl
    exact ⟨_, ⟨by omega, rfl⟩, _, ⟨by omega, rfl⟩, by omega, rfl⟩

end Numbers

namespace HistogramParams
variable {p : HistogramParams}

def messageWidth (p : HistogramParams) (maxValue : Int) : Int :=
  digits (p.upperRange + p.binSize) + 1 + digits maxValue

theorem exact_maxBinMessage {maxValue message : Int} (hmax : maxValue < 2 ^ 32) :
    Exact (p.maxBinMessage (digits maxValue)) message ↔
      (p.upperRange + p.binSize < 2 ^ 32 ∧ 0 < p.upperRange + p.binSize) ∧
        message = p.messageWidth maxValue := by
  have hb := p.binSize_isUint32.1
  have hu := p.upperRange_isUint32.1
  have hdigits := digits_bounds hmax
  unfold maxBinMessage messageWidth
  simp only [exact_bind, exact_uint, exact_getNumberOfDigits]
  constructor
  · rintro ⟨_, ⟨⟨-, hlt⟩, rfl⟩, _, ⟨hpos, rfl⟩, _, ⟨-, rfl⟩, -, rfl⟩
    exact ⟨⟨hlt, hpos⟩, rfl⟩
  · rintro ⟨⟨hlt, hpos⟩, rfl⟩
    have hedge := digits_bounds hlt
    exact ⟨_, ⟨⟨by omega, hlt⟩, rfl⟩, _, ⟨hpos, rfl⟩, _, ⟨by omega, rfl⟩, by omega, rfl⟩

/-! ## The lines -/

section Lines
variable {right minValue maxValue unit : Int} {bin : Int × Int} {line : BinLine}

theorem exact_printBin_bar (hbin : 0 ≤ bin.2) (hunit : 0 ≤ unit)
    (h : Exact (p.printBin right minValue maxValue unit bin) line) :
    (1 ≤ unit ∧ bin.2 + unit < 2 ^ 32) ∧
      line.frequencyScaledDownCount = ceilDiv bin.2 unit := by
  obtain ⟨bar, hbar, hline⟩ := exact_bind.mp h
  obtain ⟨hfits, rfl⟩ := (exact_roundUp hbin hunit).mp hbar
  refine ⟨hfits, ?_⟩
  split at hline
  · cases exact_pure.mp hline
    rfl
  · split at hline
    · obtain ⟨_, -, hline⟩ := exact_bind.mp hline
      cases exact_pure.mp hline
      rfl
    · obtain ⟨_, -, hline⟩ := exact_bind.mp hline
      obtain ⟨_, -, hline⟩ := exact_bind.mp hline
      cases exact_pure.mp hline
      rfl

/-- The bins that latencies are counted in, and the room for their edges. -/
structure HasEdges (p : HistogramParams) : Prop where
  binSize_pos : 1 ≤ p.binSize
  range : p.lowerRange ≤ p.upperRange
  upperRange_pos : 1 ≤ p.upperRange
  lastEdge : p.upperRange + p.binSize < 2 ^ 32
  rightIndex_lt : p.rightIndex < 2 ^ 32

theorem HasEdges.rightEdge_lt (h : HasEdges p) : p.rightEdge < 2 ^ 32 :=
  (upperRange_le_rightEdge h.binSize_pos).2.trans h.lastEdge

theorem HasEdges.exact_right (h : HasEdges p) :
    Exact p.getRightOutlierBinIndexReserved p.rightIndex :=
  exact_getRightOutlierBinIndexReserved.mpr ⟨⟨h.binSize_pos, h.range, h.rightIndex_lt⟩, rfl⟩

theorem HasEdges.exact_start (h : HasEdges p) :
    Exact p.getStartOfRightOutlierBin p.rightEdge :=
  exact_getStartOfRightOutlierBin.mpr ⟨⟨h.binSize_pos, h.range, h.rightEdge_lt⟩, rfl⟩

theorem HasEdges.inside (h : HasEdges p) {latency : ℚ}
    (hleft : p.index p.rightIndex latency ≠ getLeftOutlierBinIndexReserved)
    (hright : p.index p.rightIndex latency ≠ p.rightIndex) :
    p.lowerRange ≤ latency ∧ latency < p.upperRange := by
  constructor
  · apply not_lt.mp
    intro hl
    exact hleft (index_left hl)
  · apply not_le.mp
    intro hu
    exact hright (index_right h.range hu)

theorem HasEdges.exists_printBin (h : HasEdges p) {latency : ℚ}
    (hindex : bin.1 = p.index p.rightIndex latency) (hbin : 0 ≤ bin.2) (hunit : 1 ≤ unit)
    (hfits : bin.2 + unit < 2 ^ 32) :
    ∃ line, Exact (p.printBin p.rightIndex minValue maxValue unit bin) line := by
  unfold printBin
  rw [exists_exact_bind]
  refine ⟨_, (exact_roundUp hbin (by omega)).mpr ⟨⟨hunit, hfits⟩, rfl⟩, ?_⟩
  split
  · exact ⟨_, exact_pure.mpr rfl⟩
  · next hleft =>
    split
    · exact ⟨_, exact_bind.mpr ⟨_, h.exact_start, exact_pure.mpr rfl⟩⟩
    · next hright =>
      rw [hindex] at hleft hright ⊢
      obtain ⟨hl, hu⟩ := h.inside hleft hright
      obtain ⟨edge, hedge, ⟨hlow, hhigh⟩, -⟩ := regular_edges p.rightIndex h.binSize_pos hl hu
      have hlower := p.lowerRange_isUint32.1
      have hbinSize := h.binSize_pos
      have hlast := h.lastEdge
      rw [exists_exact_bind]
      exact ⟨edge, hedge, _, exact_bind.mpr ⟨_, exact_uint.mpr ⟨⟨by omega, by omega⟩, rfl⟩,
        exact_pure.mpr rfl⟩⟩

theorem HasEdges.exact_startBinEdge_right (h : HasEdges p) :
    ∃ edge, Exact (p.startBinEdge p.rightIndex) edge := by
  have hdiv := Int.mul_ediv_add_emod (p.upperRange - p.lowerRange) p.binSize
  have hnonneg := Int.emod_nonneg (p.upperRange - p.lowerRange)
    (by have := h.binSize_pos; omega : p.binSize ≠ 0)
  have hquot : 0 ≤ (p.upperRange - p.lowerRange) / p.binSize :=
    Int.ediv_nonneg (Int.sub_nonneg_of_le h.range) p.binSize_isUint32.1
  have hlast := h.lastEdge
  have hright := h.rightIndex_lt
  have hedge : (p.rightIndex - 1) * p.binSize + p.lowerRange =
      p.upperRange - (p.upperRange - p.lowerRange) % p.binSize + p.binSize := by
    unfold rightIndex
    linarith
  refine ⟨_, exact_startBinEdge.mpr ⟨⟨?_, hright.le, ?_⟩, rfl⟩⟩
  · unfold rightIndex
    omega
  · omega

theorem HasEdges.exists_storeBin (h : HasEdges p) {latency : ℚ} (widths : Int × Int × Int)
    (hindex : bin.1 = p.index p.rightIndex latency) :
    (∃ line, Exact (p.storeBin p.rightIndex minValue maxValue widths bin) line) ↔
      p.lowerRange ≤ latency := by
  unfold storeBin
  rw [exists_exact_bind, hindex]
  constructor
  · rintro ⟨edge, hedge, -⟩
    apply not_lt.mp
    intro hl
    rw [index_left hl, exact_startBinEdge] at hedge
    omega
  · intro hl
    by_cases hu : latency < p.upperRange
    · obtain ⟨edge, hedge, -⟩ := regular_edges p.rightIndex h.binSize_pos hl hu
      obtain ⟨hone, hright⟩ := regular_between p.rightIndex h.binSize_pos hl hu
      refine ⟨edge, hedge, ?_⟩
      rw [if_neg (by unfold getLeftOutlierBinIndexReserved; omega), if_neg hright.ne]
      exact ⟨_, exact_pure.mpr rfl⟩
    · rw [index_right h.range (not_lt.mp hu)]
      obtain ⟨edge, hedge⟩ := h.exact_startBinEdge_right
      refine ⟨edge, hedge, ?_⟩
      split
      · exact ⟨_, exact_pure.mpr rfl⟩
      · rw [if_pos rfl]
        exact ⟨_, exact_bind.mpr ⟨_, h.exact_start, exact_pure.mpr rfl⟩⟩

end Lines

/-! ## The whole output -/

section Output
variable {bins : Std.TreeMap Int Int} {minValue maxValue terminalWidth : Int} {display : Display}

def screenWidth (p : HistogramParams) (maxValue terminalWidth : Int) : Int :=
  barWidth terminalWidth (p.messageWidth maxValue)

/-- There is room for bars, and for the sum with the greatest count. -/
structure HasWidth (p : HistogramParams) (maxValue terminalWidth frequency : Int) : Prop where
  maxValue_pos : 0 < maxValue
  width_pos : 1 ≤ p.screenWidth maxValue terminalWidth
  frequency_lt : frequency + p.screenWidth maxValue terminalWidth < 2 ^ 32

theorem rightEdge_pos_iff (hb : 1 ≤ p.binSize) (hle : p.lowerRange ≤ p.upperRange) :
    0 < p.rightEdge ↔ 1 ≤ p.upperRange := by
  have hedge := (upperRange_le_rightEdge hb).1
  refine ⟨?_, fun h => by omega⟩
  intro hpos
  by_contra hzero
  have hl := p.lowerRange_isUint32.1
  have hupper : p.upperRange = 0 := by
    have := p.upperRange_isUint32.1
    omega
  have hlower : p.lowerRange = 0 := by omega
  unfold rightEdge at hpos
  rw [hupper, hlower, Int.sub_zero, if_pos (Int.zero_emod _)] at hpos
  exact absurd hpos (by decide)

theorem exact_printHistogram (hmax : IsUint32 maxValue)
    (hterminal : 0 ≤ terminalWidth ∧ terminalWidth < 65536) (hcount : 0 ≤ greatest bins) :
    Exact (p.printHistogram bins minValue maxValue terminalWidth) display ↔
      HasEdges p ∧ HasWidth p maxValue terminalWidth (greatest bins) ∧
      ∃ scale binsHeader frequencyHeader lines,
        scale = (if terminalWidth = 0 then 0 else p.screenWidth maxValue terminalWidth,
          ceilDiv (greatest bins) (p.screenWidth maxValue terminalWidth)) ∧
        Exact (binsHeaderWidth (digits p.rightEdge) (digits maxValue)) binsHeader ∧
        Exact (frequencyHeaderWidth scale.1) frequencyHeader ∧
        Exact (bins.toList.mapM' (p.printBin p.rightIndex minValue maxValue scale.2)) lines ∧
        display = ⟨scale.2, scale.1, digits p.rightEdge, digits maxValue + 2, binsHeader,
          frequencyHeader, lines⟩ := by
  have hdigits := digits_bounds hmax.2
  have hmessage : p.upperRange + p.binSize < 2 ^ 32 → 0 ≤ p.messageWidth maxValue := by
    intro hlt
    have := digits_bounds hlt
    unfold messageWidth
    omega
  unfold printHistogram
  simp only [exact_bind, exact_pure, exact_uint, exact_getNumberOfDigits,
    exact_getRightOutlierBinIndexReserved, exact_getStartOfRightOutlierBin]
  constructor
  · rintro ⟨_, ⟨⟨hb, hle, hright⟩, rfl⟩, _, ⟨-, rfl⟩, _, ⟨hstart, rfl⟩, _, ⟨hpos, rfl⟩, _, ⟨-, rfl⟩,
      message, hexact, scale, hscale, binsHeader, hbins, frequencyHeader, hfrequency, lines, hlines,
      rfl⟩
    obtain ⟨⟨hlast, -⟩, rfl⟩ := (exact_maxBinMessage hmax.2).mp hexact
    obtain ⟨⟨hwidth, hlt⟩, hscale⟩ :=
      (exact_scaleToTerminal hcount hterminal (hmessage hlast)).mp hscale
    exact ⟨⟨hb, hle, (rightEdge_pos_iff hb hle).mp hstart, hlast, hright⟩, ⟨hpos, hwidth, hlt⟩,
      scale, binsHeader, frequencyHeader, lines, hscale, hbins, hfrequency, hlines, rfl⟩
  · rintro ⟨hedges, hwidth, scale, binsHeader, frequencyHeader, lines, hscale, hbins, hfrequency,
      hlines, rfl⟩
    have hb := hedges.binSize_pos
    have hle := hedges.range
    have hupper := hedges.upperRange_pos
    exact ⟨_, ⟨⟨hb, hle, hedges.rightIndex_lt⟩, rfl⟩, _, ⟨⟨hb, hle, hedges.rightEdge_lt⟩, rfl⟩,
      _, ⟨(rightEdge_pos_iff hb hle).mpr hupper, rfl⟩, _, ⟨hwidth.maxValue_pos, rfl⟩,
      _, ⟨by omega, rfl⟩,
      _, (exact_maxBinMessage hmax.2).mpr ⟨⟨hedges.lastEdge, by omega⟩, rfl⟩,
      scale, (exact_scaleToTerminal hcount hterminal (hmessage hedges.lastEdge)).mpr
        ⟨⟨hwidth.width_pos, hwidth.frequency_lt⟩, hscale⟩,
      binsHeader, hbins, frequencyHeader, hfrequency, lines, hlines, rfl⟩

theorem exists_columnWidths {a b c : Int} (ha : 1 ≤ a ∧ a ≤ 10) (hb : 1 ≤ b ∧ b ≤ 10)
    (hc : 1 ≤ c ∧ c ≤ 10) : ∃ widths, Exact (columnWidths a b c) widths := by
  unfold columnWidths
  simp only [exact_bind, exact_uint, exact_pure]
  exact ⟨_, _, ⟨by omega, rfl⟩, _, ⟨by omega, rfl⟩, _, ⟨by omega, rfl⟩, _, ⟨by omega, rfl⟩,
    _, ⟨by omega, rfl⟩, _, ⟨by omega, rfl⟩, rfl⟩

theorem HasEdges.exists_storeHistogram (h : HasEdges p) (hmin : IsUint32 minValue)
    (hmax : IsUint32 maxValue) (hpos : 0 < maxValue) {latencies : List ℚ}
    (hbins : ∀ bin ∈ bins.toList, ∃ latency ∈ latencies, bin.1 = p.index p.rightIndex latency)
    (hall : ∀ latency ∈ latencies, ∃ bin ∈ bins.toList, bin.1 = p.index p.rightIndex latency) :
    (∃ lines, Exact (p.storeHistogram bins minValue maxValue) lines) ↔
      0 < minValue ∧ ∀ latency ∈ latencies, p.lowerRange ≤ latency := by
  unfold storeHistogram
  constructor
  · rintro ⟨lines, hlines⟩
    obtain ⟨right, hright, hlines⟩ := exact_bind.mp hlines
    obtain ⟨upperDigits, -, hlines⟩ := exact_bind.mp hlines
    obtain ⟨maxDigits, -, hlines⟩ := exact_bind.mp hlines
    obtain ⟨minDigits, hminDigits, hlines⟩ := exact_bind.mp hlines
    obtain ⟨widths, -, hlines⟩ := exact_bind.mp hlines
    cases (exact_getRightOutlierBinIndexReserved.mp hright).2
    refine ⟨(exact_getNumberOfDigits.mp hminDigits).1, ?_⟩
    intro latency hlatency
    obtain ⟨bin, hbin, hindex⟩ := hall latency hlatency
    exact (h.exists_storeBin widths hindex).mp (exists_exact_mapM.mp ⟨lines, hlines⟩ bin hbin)
  · rintro ⟨hminPos, hinside⟩
    have hupper := h.upperRange_pos
    obtain ⟨widths, hwidths⟩ := exists_columnWidths (digits_bounds p.upperRange_isUint32.2)
      (digits_bounds hmax.2) (digits_bounds hmin.2)
    have hlines : ∃ lines, Exact (bins.toList.mapM'
        (p.storeBin p.rightIndex minValue maxValue widths)) lines := by
      apply exists_exact_mapM.mpr
      intro bin hbin
      obtain ⟨latency, hlatency, hindex⟩ := hbins bin hbin
      exact (h.exists_storeBin widths hindex).mpr (hinside latency hlatency)
    obtain ⟨lines, hlines⟩ := hlines
    refine ⟨lines, ?_⟩
    simp only [exact_bind, exact_getNumberOfDigits]
    exact ⟨_, h.exact_right, _, ⟨by omega, rfl⟩, _, ⟨hpos, rfl⟩, _, ⟨hminPos, rfl⟩, widths, hwidths,
      hlines⟩

end Output

section Bins
variable {latencies : List ℚ} {bins : Std.TreeMap Int Int}

def indexes (p : HistogramParams) (latencies : List ℚ) : List Int :=
  latencies.map (p.index p.rightIndex)

def maxFrequency (p : HistogramParams) (latencies : List ℚ) : Int := peak (p.indexes latencies)

theorem exact_activeBins (hb : 1 ≤ p.binSize) (latencies : List ℚ) :
    (∀ bins, Exact (p.activeBins p.rightIndex latencies) bins →
      Fits 32 (p.indexes latencies) ∧ Counts 32 (p.indexes latencies) bins) ∧
    (Fits 32 (p.indexes latencies) → ∃ bins, Exact (p.activeBins p.rightIndex latencies) bins) :=
  (counts_nil 32).exact_tally latencies
    (fun latency _ => exact_binIndex hb p.rightIndex latency) fun _ => Nat.two_pow_pos 32

theorem mem_bins (hcounts : Counts 32 (p.indexes latencies) bins)
    (hfits : Fits 32 (p.indexes latencies)) {bin : Int × Int} (hbin : bin ∈ bins.toList) :
    (∃ latency ∈ latencies, bin.1 = p.index p.rightIndex latency) ∧
      1 ≤ bin.2 ∧ bin.2 ≤ p.maxFrequency latencies := by
  obtain ⟨hmem, hcount⟩ := (hcounts.mem_toList_of_fits hfits).mp
    (Prod.mk.eta ▸ hbin : (bin.1, bin.2) ∈ bins.toList)
  obtain ⟨latency, hlatency, hindex⟩ := List.mem_map.mp hmem
  refine ⟨⟨latency, hlatency, hindex.symm⟩, ?_, ?_⟩
  · rw [hcount]
    exact_mod_cast List.count_pos_iff.mpr hmem
  · rw [hcount]
    unfold maxFrequency
    exact_mod_cast count_le_peak hmem

theorem exists_bin (hcounts : Counts 32 (p.indexes latencies) bins) {latency : ℚ}
    (hlatency : latency ∈ latencies) :
    ∃ bin ∈ bins.toList, bin.1 = p.index p.rightIndex latency :=
  ⟨(_, _), hcounts.mem_toList.mpr ⟨List.mem_map_of_mem hlatency, rfl⟩, rfl⟩

theorem HasEdges.exists_storeHistogram_counted (h : HasEdges p) {minValue maxValue : Int}
    (hmin : IsUint32 minValue) (hmax : IsUint32 maxValue) (hpos : 0 < maxValue)
    (hcounts : Counts 32 (p.indexes latencies) bins) (hfits : Fits 32 (p.indexes latencies)) :
    (∃ lines, Exact (p.storeHistogram bins minValue maxValue) lines) ↔
      0 < minValue ∧ ∀ latency ∈ latencies, p.lowerRange ≤ latency := by
  apply h.exists_storeHistogram hmin hmax hpos
  · intro bin hbin
    exact (mem_bins hcounts hfits hbin).1
  · intro latency hlatency
    exact exists_bin hcounts hlatency

end Bins

end HistogramParams

/-! ## Safe output -/

/-- No division by zero, no wrap-around and no digits of zero, and bars that fit the screen. -/
def PrintsSafely (p : HistogramParams) (latencies : List ℚ) (terminalWidth : Int)
    (fileFullLog : Bool) : Prop :=
  ∃ output, Exact (p.makeHistogram latencies terminalWidth fileFullLog) output ∧
    1 ≤ output.display.scalingUnit ∧
    ∀ line ∈ output.display.lines, 1 ≤ line.frequencyScaledDownCount ∧
      line.frequencyScaledDownCount ≤
        if terminalWidth = 0 then 80 else output.display.maxDisplayWidth

/-- What the option, the terminal and the latencies have to be like for that. -/
structure Printable (p : HistogramParams) (latencies : List ℚ) (first last : ℚ)
    (terminalWidth : Int) (fileFullLog : Bool) : Prop where
  edges : p.HasEdges
  first_gt : -1 < first
  last_ge : 1 ≤ last
  last_lt : last < 2 ^ 32
  width_pos : 1 ≤ p.screenWidth ⌊last⌋ terminalWidth
  width_lt : p.maxFrequency latencies + p.screenWidth ⌊last⌋ terminalWidth < 2 ^ 32
  unit_lt : p.maxFrequency latencies +
    ceilDiv (p.maxFrequency latencies) (p.screenWidth ⌊last⌋ terminalWidth) < 2 ^ 32
  stored : fileFullLog = true → 1 ≤ first ∧ p.lowerRange ≤ first

section Safe
variable {p : HistogramParams} {latencies : List ℚ} {first last : ℚ} {terminalWidth : Int}
  {fileFullLog : Bool} {bins : Std.TreeMap Int Int}

theorem castUint32_isUint32 {value : ℚ} {n : Int} (h : Exact (castUint32 value) n) :
    (-1 < value ∧ value < 2 ^ 32) ∧ n = max 0 ⌊value⌋ ∧ IsUint32 n := by
  obtain ⟨hrange, rfl⟩ := exact_check.mp h
  refine ⟨hrange, rfl, le_max_left _ _, ?_⟩
  have hlt : ⌊value⌋ < 2 ^ 32 := Int.floor_lt.mpr (by exact_mod_cast hrange.2)
  omega

theorem floor_of_pos {value : ℚ} (h : 0 < max 0 ⌊value⌋) : 1 ≤ value ∧ max 0 ⌊value⌋ = ⌊value⌋ := by
  have hone : 1 ≤ ⌊value⌋ := by omega
  refine ⟨?_, max_eq_right (by omega)⟩
  have hle := Int.le_floor.mp hone
  exact_mod_cast hle

theorem mem_indexes (hfirst : latencies.head? = some first) :
    p.index p.rightIndex first ∈ p.indexes latencies :=
  List.mem_map_of_mem (List.mem_of_head? hfirst)

theorem greatest_eq_maxFrequency (hfirst : latencies.head? = some first)
    (hcounts : Counts 32 (p.indexes latencies) bins) (hfits : Fits 32 (p.indexes latencies)) :
    greatest bins = p.maxFrequency latencies := by
  apply hcounts.greatest_eq hfits
  exact List.ne_nil_of_mem (mem_indexes hfirst)

theorem exists_largest_bin (hfirst : latencies.head? = some first)
    (hcounts : Counts 32 (p.indexes latencies) bins) (hfits : Fits 32 (p.indexes latencies)) :
    ∃ bin ∈ bins.toList, bin.2 = p.maxFrequency latencies := by
  obtain ⟨k, hk, hpeak⟩ := exists_peak (List.ne_nil_of_mem (mem_indexes (p := p) hfirst))
  refine ⟨(k, _), (hcounts.mem_toList_of_fits hfits).mpr ⟨hk, rfl⟩, ?_⟩
  dsimp only
  rw [hpeak]
  rfl

theorem maxFrequency_pos (hfirst : latencies.head? = some first) :
    1 ≤ p.maxFrequency latencies := by
  have hmem := mem_indexes (p := p) hfirst
  have hpos := (List.count_pos_iff.mpr hmem).trans_le (count_le_peak hmem)
  unfold HistogramParams.maxFrequency
  exact_mod_cast hpos

theorem printable_of_exact {output : HistogramOutput} (hfirst : latencies.head? = some first)
    (hlast : latencies.getLast? = some last)
    (hterminal : 0 ≤ terminalWidth ∧ terminalWidth < 65536)
    (h : Exact (p.makeHistogram latencies terminalWidth fileFullLog) output) :
    Printable p latencies first last terminalWidth fileFullLog := by
  obtain ⟨right, hright, hrest⟩ := exact_bind.mp h
  obtain ⟨minValue, hmin, hrest⟩ := exact_bind.mp hrest
  obtain ⟨maxValue, hmax, hrest⟩ := exact_bind.mp hrest
  obtain ⟨bins, hbins, hrest⟩ := exact_bind.mp hrest
  obtain ⟨display, hdisplay, hstore⟩ := exact_bind.mp hrest
  rw [hfirst] at hmin
  rw [hlast] at hmax
  obtain ⟨⟨hb, -⟩, rfl⟩ := HistogramParams.exact_getRightOutlierBinIndexReserved.mp hright
  obtain ⟨hminRange, rfl, hminUint⟩ := castUint32_isUint32 hmin
  obtain ⟨hmaxRange, rfl, hmaxUint⟩ := castUint32_isUint32 hmax
  obtain ⟨hfits, hcounts⟩ := (HistogramParams.exact_activeBins hb latencies).1 bins hbins
  have hgreatest := greatest_eq_maxFrequency hfirst hcounts hfits
  have hone := maxFrequency_pos (p := p) hfirst
  obtain ⟨hedges, hwidth, scale, -, -, lines, rfl, -, -, hlines, -⟩ :=
    (HistogramParams.exact_printHistogram hmaxUint hterminal (by omega)).mp hdisplay
  obtain ⟨hlastOne, hfloor⟩ := floor_of_pos hwidth.maxValue_pos
  rw [hgreatest, hfloor] at hwidth hlines
  refine ⟨hedges, hminRange.1, hlastOne, hmaxRange.2, hwidth.width_pos, hwidth.frequency_lt, ?_, ?_⟩
  · obtain ⟨bin, hbin, hlargest⟩ := exists_largest_bin hfirst hcounts hfits
    obtain ⟨line, hline⟩ := exists_exact_mapM.mp ⟨lines, hlines⟩ bin hbin
    have hunit := ceilDiv_pos hone hwidth.width_pos
    have hbar := HistogramParams.exact_printBin_bar (by omega) (by omega) hline
    rw [hlargest] at hbar
    exact hbar.1.2
  · intro hlog
    unfold HistogramParams.withFullLog at hstore
    rw [if_pos hlog] at hstore
    obtain ⟨stored, hstored, -⟩ := exact_bind.mp hstore
    obtain ⟨hpos, hinside⟩ := (hedges.exists_storeHistogram_counted hminUint hmaxUint
      (by rw [hfloor]; exact hwidth.maxValue_pos) hcounts hfits).mp ⟨stored, hstored⟩
    exact ⟨(floor_of_pos hpos).1, hinside first (List.mem_of_head? hfirst)⟩

theorem exact_castUint32 {value : ℚ} (hgt : -1 < value) (hlt : value < 2 ^ 32) :
    Exact (castUint32 value) (max 0 ⌊value⌋) :=
  exact_check.mpr ⟨⟨hgt, hlt⟩, rfl⟩

theorem head_le {latency : ℚ} (hfirst : latencies.head? = some first)
    (hsorted : latencies.Pairwise (· ≤ ·)) (hlatency : latency ∈ latencies) : first ≤ latency := by
  cases latencies with
  | nil => exact absurd hlatency List.not_mem_nil
  | cons v vs =>
    cases hfirst
    rcases List.mem_cons.mp hlatency with rfl | hlatency
    · exact le_rfl
    · exact List.rel_of_pairwise_cons hsorted hlatency

theorem Printable.exists_display
    (h : Printable p latencies first last terminalWidth fileFullLog)
    (hfirst : latencies.head? = some first) (hmax : IsUint32 ⌊last⌋) (minValue : Int)
    (hterminal : 0 ≤ terminalWidth ∧ terminalWidth < 65536)
    (hcounts : Counts 32 (p.indexes latencies) bins) (hfits : Fits 32 (p.indexes latencies)) :
    ∃ display, Exact (p.printHistogram bins minValue ⌊last⌋ terminalWidth) display ∧
      1 ≤ display.scalingUnit ∧
      ∀ line ∈ display.lines, 1 ≤ line.frequencyScaledDownCount ∧
        line.frequencyScaledDownCount ≤
          if terminalWidth = 0 then 80 else display.maxDisplayWidth := by
  have hone := maxFrequency_pos (p := p) hfirst
  have hgreatest := greatest_eq_maxFrequency hfirst hcounts hfits
  have hunit := ceilDiv_pos hone h.width_pos
  have hunitLt := h.unit_lt
  have hscreen : 0 ≤ (if terminalWidth = 0 then 0 else p.screenWidth ⌊last⌋ terminalWidth) ∧
      (if terminalWidth = 0 then 0 else p.screenWidth ⌊last⌋ terminalWidth) < 65536 := by
    have := h.width_pos
    have := digits_bounds h.edges.lastEdge
    have := digits_bounds hmax.2
    unfold HistogramParams.screenWidth HistogramParams.messageWidth barWidth at *
    split <;> omega
  have hlines : ∃ lines, Exact (bins.toList.mapM' (p.printBin p.rightIndex minValue ⌊last⌋
      (ceilDiv (p.maxFrequency latencies) (p.screenWidth ⌊last⌋ terminalWidth)))) lines := by
    apply exists_exact_mapM.mpr
    intro bin hbin
    obtain ⟨⟨latency, -, hindex⟩, hpos, hle⟩ := HistogramParams.mem_bins hcounts hfits hbin
    exact h.edges.exists_printBin hindex (by omega) hunit (by omega)
  obtain ⟨lines, hlines⟩ := hlines
  refine ⟨_, (HistogramParams.exact_printHistogram hmax hterminal (by omega)).mpr
    ⟨h.edges, ⟨Int.floor_pos.mpr h.last_ge, h.width_pos, ?_⟩, _, _, _, lines, rfl,
      (exact_binsHeaderWidth (digits_bounds h.edges.rightEdge_lt) (digits_bounds hmax.2)).mpr rfl,
      (exact_frequencyHeaderWidth hscreen).mpr rfl, ?_, rfl⟩, ?_, ?_⟩
  · rw [hgreatest]
    exact h.width_lt
  · rw [hgreatest]
    exact hlines
  · dsimp only
    rw [hgreatest]
    exact hunit
  · intro line hline
    obtain ⟨bin, hbin, hexact⟩ := hlines.mem_mapM hline
    obtain ⟨-, hpos, hle⟩ := HistogramParams.mem_bins hcounts hfits hbin
    obtain ⟨-, hbar⟩ := HistogramParams.exact_printBin_bar (by omega) (by omega) hexact
    obtain ⟨hlow, hhigh⟩ := bar_bounds h.width_pos hpos hle
    rw [hbar]
    refine ⟨hlow, hhigh.trans ?_⟩
    dsimp only
    split
    · next hzero =>
      unfold HistogramParams.screenWidth barWidth
      rw [if_pos hzero]
    · exact le_rfl

theorem Printable.exists_stored
    (h : Printable p latencies first last terminalWidth fileFullLog)
    (hfirst : latencies.head? = some first) (hsorted : latencies.Pairwise (· ≤ ·))
    (hmin : IsUint32 (max 0 ⌊first⌋)) (hmax : IsUint32 ⌊last⌋)
    (hcounts : Counts 32 (p.indexes latencies) bins) (hfits : Fits 32 (p.indexes latencies))
    (display : Display) :
    ∃ stored, Exact (p.withFullLog bins (max 0 ⌊first⌋) ⌊last⌋ fileFullLog display)
      ⟨display, stored⟩ := by
  unfold HistogramParams.withFullLog
  split
  · next hlog =>
    obtain ⟨hone, hlower⟩ := h.stored hlog
    have hpos : 0 < max 0 ⌊first⌋ := lt_max_of_lt_right (Int.floor_pos.mpr hone)
    obtain ⟨stored, hstored⟩ := (h.edges.exists_storeHistogram_counted hmin hmax
      (Int.floor_pos.mpr h.last_ge) hcounts hfits).mpr
        ⟨hpos, fun latency hlatency => hlower.trans (head_le hfirst hsorted hlatency)⟩
    exact ⟨some stored, exact_bind.mpr ⟨stored, hstored, exact_pure.mpr rfl⟩⟩
  · exact ⟨none, exact_pure.mpr rfl⟩

theorem Printable.printsSafely (h : Printable p latencies first last terminalWidth fileFullLog)
    (hfirst : latencies.head? = some first) (hlast : latencies.getLast? = some last)
    (hsorted : latencies.Pairwise (· ≤ ·))
    (hterminal : 0 ≤ terminalWidth ∧ terminalWidth < 65536) :
    PrintsSafely p latencies terminalWidth fileFullLog := by
  have hle := head_le hfirst hsorted (List.mem_of_getLast? hlast)
  have hmin := exact_castUint32 h.first_gt (hle.trans_lt h.last_lt)
  have hmax := exact_castUint32 (h.first_gt.trans_le hle) h.last_lt
  have hminUint := (castUint32_isUint32 hmin).2.2
  have hmaxUint := (castUint32_isUint32 hmax).2.2
  have hfloor : 0 < ⌊last⌋ := Int.floor_pos.mpr h.last_ge
  rw [max_eq_right hfloor.le] at hmax hmaxUint
  have hwidth := h.width_pos
  have hwidthLt := h.width_lt
  have hfits : Fits 32 (p.indexes latencies) := by
    apply fits_of_peak
    unfold HistogramParams.maxFrequency at hwidthLt
    omega
  obtain ⟨bins, hbins⟩ := (HistogramParams.exact_activeBins h.edges.binSize_pos latencies).2 hfits
  obtain ⟨-, hcounts⟩ :=
    (HistogramParams.exact_activeBins h.edges.binSize_pos latencies).1 bins hbins
  obtain ⟨display, hdisplay, hscale, hlines⟩ :=
    h.exists_display hfirst hmaxUint (max 0 ⌊first⌋) hterminal hcounts hfits
  obtain ⟨stored, hstored⟩ := h.exists_stored hfirst hsorted hminUint hmaxUint hcounts hfits display
  refine ⟨⟨display, stored⟩, ?_, hscale, hlines⟩
  unfold HistogramParams.makeHistogram
  rw [hfirst, hlast]
  exact exact_bind.mpr ⟨_, h.edges.exact_right, exact_bind.mpr ⟨_, hmin, exact_bind.mpr ⟨_, hmax,
    exact_bind.mpr ⟨bins, hbins, exact_bind.mpr ⟨display, hdisplay, hstored⟩⟩⟩⟩⟩

/-- The histogram is printed safely just when the option, the terminal and the latencies are
printable. No option is refused. -/
theorem prints_safely_iff (p : HistogramParams) (latencies : List ℚ) (first last : ℚ)
    (hfirst : latencies.head? = some first) (hlast : latencies.getLast? = some last)
    (hsorted : latencies.Pairwise (· ≤ ·)) (terminalWidth : Int)
    (hterminal : 0 ≤ terminalWidth ∧ terminalWidth < 65536) (fileFullLog : Bool) :
    parseHistogram ⟨[p.binSize, p.lowerRange, p.upperRange], false⟩ = some p ∧
    (PrintsSafely p latencies terminalWidth fileFullLog ↔
      Printable p latencies first last terminalWidth fileFullLog) := by
  refine ⟨parseHistogram_accepts p, ?_, ?_⟩
  · rintro ⟨output, houtput, -⟩
    exact printable_of_exact hfirst hlast hterminal houtput
  · intro h
    exact h.printsSafely hfirst hlast hsorted hterminal

end Safe

theorem prints_safely_evenRange : PrintsSafely evenRange [5, 50, 150] 120 true := by
  have hfloor : ⌊(150 : ℚ)⌋ = 150 := by decide
  have hmax : evenRange.maxFrequency [5, 50, 150] = 1 := by decide +kernel
  apply (prints_safely_iff evenRange [5, 50, 150] 5 150 rfl rfl (by decide) 120 (by decide)
    true).2.mpr
  refine ⟨⟨by decide, by decide, by decide, by decide, by decide⟩, by decide, by decide, by decide,
    ?_, ?_, ?_, fun _ => by decide⟩
  · rw [hfloor]
    decide
  · rw [hfloor, hmax]
    decide
  · rw [hfloor, hmax]
    decide

def zeroBins : HistogramParams where
  binSize := 0
  lowerRange := 0
  upperRange := 100
  binSize_isUint32 := evenRange.lowerRange_isUint32
  lowerRange_isUint32 := evenRange.lowerRange_isUint32
  upperRange_isUint32 := evenRange.upperRange_isUint32

/-- Bins of no size, a terminal without room for bars and latencies below a microsecond. -/
theorem histogram_undefined :
    parseHistogram ⟨[0, 0, 100], false⟩ = some zeroBins ∧
    zeroBins.makeHistogram [50] 80 false = .undefined ∧
    evenRange.makeHistogram [50] 30 false = .undefined ∧
    evenRange.makeHistogram [1 / 2] 80 false = .undefined := by
  exact ⟨rfl, by decide, by decide +kernel, by decide +kernel⟩

end Sockperf
