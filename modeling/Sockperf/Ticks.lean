import Mathlib.Algebra.Order.Ring.Int
import Mathlib.Tactic.Ring
import Sockperf.PacketTimes

/-!
# Ticks

Conversion of nanoseconds to the ticks of the chosen clock. The constants such as
`TICKS1MSEC` are built by static constructors, before `TicksBase::init` chooses
the mode, so that they always are counts of the time stamp counter.
-/

namespace Sockperf

set_option autoImplicit false

/-- `TicksBase::Mode`. -/
inductive TicksMode where
  | rdtsc
  | clock
  deriving DecidableEq, Repr

def int64Max : Int := 2 ^ 63 - 1
def nsecInSec : Int := 1000 * 1000 * 1000
def nsecInMsec : Int := 1000 * 1000

/-- The mode and the calibrated rate `TICKS_PER_MSEC` of the time stamp counter. -/
structure Ticks where
  mode : TicksMode
  perMsec : Int
  pos : 0 < perMsec

namespace Ticks
variable (k : Ticks)

def maxMsecConvert : Int :=
  if nsecInMsec < k.perMsec then int64Max / k.perMsec else int64Max / nsecInMsec

def nsec2ticksSmallNumbers (v : Int) : Int := (v * k.perMsec).tdiv nsecInMsec

/-- `TicksImplRdtsc::nsec2ticks`. -/
def nsec2ticksRdtsc (v : Int) : Int :=
  if v < k.maxMsecConvert then k.nsec2ticksSmallNumbers v
  else v.tdiv nsecInMsec * k.perMsec + k.nsec2ticksSmallNumbers (v.tmod nsecInMsec)

/-- `TicksDuration(nsec)` once the mode is chosen. -/
def nsec2ticks (v : Int) : Int :=
  match k.mode with
  | .rdtsc => k.nsec2ticksRdtsc v
  | .clock => v

def ticks1msec : Int := k.nsec2ticksRdtsc nsecInMsec

theorem nsec2ticksRdtsc_eq {v : Int} (hv : 0 ≤ v) :
    k.nsec2ticksRdtsc v = v * k.perMsec / nsecInMsec := by
  have hpos := k.pos
  have hsmall : ∀ {u : Int}, 0 ≤ u → k.nsec2ticksSmallNumbers u = u * k.perMsec / nsecInMsec := by
    intro u hu
    exact Int.tdiv_eq_ediv_of_nonneg (Int.mul_nonneg hu hpos.le)
  unfold nsec2ticksRdtsc
  split
  · exact hsmall hv
  · have hmod : 0 ≤ v % nsecInMsec := Int.emod_nonneg v (by decide)
    rw [Int.tdiv_eq_ediv_of_nonneg hv, Int.tmod_eq_emod_of_nonneg hv, hsmall hmod]
    have hdiv : v * k.perMsec =
        v % nsecInMsec * k.perMsec + v / nsecInMsec * k.perMsec * nsecInMsec := by
      conv_lhs => rw [← Int.emod_add_mul_ediv v nsecInMsec]
      ring
    rw [hdiv, Int.add_mul_ediv_right _ _ (by decide)]
    ring

theorem ticks1msec_eq : k.ticks1msec = k.perMsec := by
  rw [ticks1msec, k.nsec2ticksRdtsc_eq (by decide), Int.mul_ediv_cancel_left _ (by decide)]

end Ticks

end Sockperf
