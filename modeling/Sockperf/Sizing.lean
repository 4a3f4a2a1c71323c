import Sockperf.Bringup
import Sockperf.Lib.Machine

/-!
# The sizes in machine arithmetic

`proc_mode_ping_pong` lowers `MPS_MAX` with the burst size, and `bringup` computes the cycle and
`_maxSequenceNo` from it. The operands are `int`, `unsigned int`, `uint32_t`, `int64_t` and
`uint64_t`, and every operation has the type that its own operands give it.
-/

namespace Sockperf

open Machine
set_option autoImplicit false

/-- `UINT32_MAX`, which stands for `--mps=max`. -/
def uint32Max : Nat := 2 ^ 32 - 1
def mpsMaxUl : Nat := 10 * 1000 * 1000
def mpsMaxPp : Nat := 600 * 1000
def maxDuration : Nat := 36000000

structure Sizes where
  mpsMax : Int
  cycleDurationNsec : Int
  maxSequenceNo : Int
  deriving DecidableEq, Repr

namespace UserParams
variable (pingPong : Bool) (p : UserParams)

/-- `MPS_MAX` after `proc_mode_ping_pong` or `proc_mode_under_load`. -/
def mpsMax : Machine Int :=
  if pingPong = true ∧ p.mps = uint32Max then do
    let mpsMax ← uint 32 (mpsMaxPp * p.burstSize)
    return if mpsMax > mpsMaxUl then (mpsMaxUl : Int) else mpsMax
  else return mpsMaxUl

/-- `cycleDurationNsec` as it is computed first. -/
def cycleNsec : Machine Int := do
  let nsec ← sint 64 (nsecInSec * p.burstSize)
  div nsec p.mps

def testDuration : Machine Int := do
  let msec ← uint 32 (p.warmupMsec + cooldownMsec)
  let sec ← sint 32 (1 + p.secTestDuration)
  uint 32 (sec + msec / 1000)

/-- `_maxSequenceNo`; a number of packets or a playback vector overrides it afterwards. -/
def sequenceNo (mps : Int) : Machine Int := do
  let duration ← p.testDuration
  let sent ← uint 64 (duration * mps)
  let replies ← uint 32 (10 * p.replyEvery)
  let total ← uint 64 (sent + replies)
  uint 64 (total + p.burstSize)

/-- The internal data set up by `bringup`. -/
def sizes : Machine Sizes := do
  let mpsMax ← p.mpsMax pingPong
  let cycle ← p.cycleNsec
  let maxSequenceNo ← p.sequenceNo (if p.mps = uint32Max then mpsMax else p.mps)
  return ⟨mpsMax, if p.mps = uint32Max then 0 else cycle, maxSequenceNo⟩

structure Accepted : Prop where
  duration : 1 ≤ p.secTestDuration ∧ p.secTestDuration ≤ maxDuration
  burst : 1 ≤ p.burstSize ∧ p.burstSize < 2 ^ 31
  reply : 1 ≤ p.replyEvery ∧ p.replyEvery ≤ 2 ^ 30
  mps : 1 ≤ p.mps ∧ p.mps ≤ 2 ^ 30 ∨ p.mps = uint32Max
  /-- `s_fd_num` is an `int` -/
  sockets : p.fdNum < 2 ^ 31

/-! ## The sizes without bounds on the numbers -/

/-- The rate of `--mps=max`. -/
def exactMpsMax : Int :=
  if pingPong = true ∧ p.mps = uint32Max then min (600000 * p.burstSize) 10000000 else 10000000

def exactRate : Int := if p.mps = uint32Max then p.exactMpsMax pingPong else p.mps

/-- There is no pacing at the highest rate. -/
def exactCycle : Int := if p.mps = uint32Max then 0 else 10 ^ 9 * p.burstSize / p.mps

def exactDuration : Int := 1 + p.secTestDuration + (p.warmupMsec + cooldownMsec : Nat) / 1000

def exactSequenceNo : Int :=
  p.exactDuration * p.exactRate pingPong + 10 * p.replyEvery + p.burstSize

def exactSizes : Sizes := ⟨p.exactMpsMax pingPong, p.exactCycle, p.exactSequenceNo pingPong⟩

variable {pingPong p}

theorem exact_mpsMax {m : Int} : Exact (p.mpsMax pingPong) m ↔
    (pingPong = true ∧ p.mps = uint32Max → 600000 * p.burstSize < 2 ^ 32) ∧
      p.exactMpsMax pingPong = m := by
  unfold mpsMax exactMpsMax
  split
  · next hmax =>
    simp only [exact_bind, exact_uint, exact_pure]
    have hprod : ((mpsMaxPp : Int) * p.burstSize) = 600000 * p.burstSize := rfl
    have hmin : (if (600000 * (p.burstSize : Int)) > (mpsMaxUl : Int) then (mpsMaxUl : Int)
        else 600000 * p.burstSize) = min (600000 * (p.burstSize : Int)) 10000000 := by
      have hul : (mpsMaxUl : Int) = 10000000 := rfl
      rw [hul]
      split <;> omega
    rw [hprod]
    constructor
    · rintro ⟨x, ⟨⟨-, hlt⟩, rfl⟩, rfl⟩
      exact ⟨fun _ => by omega, hmin.symm⟩
    · rintro ⟨hlt, rfl⟩
      have := hlt hmax
      exact ⟨_, ⟨⟨by omega, by omega⟩, rfl⟩, hmin⟩
  · next hother =>
    rw [exact_pure]
    exact ⟨fun h => ⟨fun hmax => absurd hmax hother, h⟩, And.right⟩

/-! ## Nothing else can wrap around -/

section Bounds
variable (h : p.Accepted)
include h

theorem Accepted.warmup_lt : p.warmupMsec + cooldownMsec < 2 ^ 28 := by
  have hsockets := h.sockets
  have hcooldown : cooldownMsec = 50 := rfl
  have hstart : testStartWarmupMsec = 400 := rfl
  have hfirst : testFirstConnectionFirstPacketTtlThresholdMsec = 50 := rfl
  unfold warmupMsec
  dsimp only
  split
  · omega
  · omega

theorem Accepted.duration_bounds : 0 ≤ p.exactDuration ∧ p.exactDuration < 2 ^ 27 := by
  have hwarmup := h.warmup_lt
  have hduration := h.duration
  have hlong : maxDuration = 36000000 := rfl
  unfold exactDuration
  omega

variable (pingPong) in
theorem Accepted.rate_bounds : 0 ≤ p.exactRate pingPong ∧ p.exactRate pingPong ≤ 2 ^ 30 := by
  have hmps := h.mps
  unfold exactRate exactMpsMax
  split
  · split
    · omega
    · omega
  · omega

theorem Accepted.exact_cycleNsec {c : Int} :
    Exact p.cycleNsec c ↔ 10 ^ 9 * p.burstSize / p.mps = c := by
  have hburst := h.burst
  have hmps := h.mps
  have hpos : (p.mps : Int) ≠ 0 := by
    have hne : uint32Max ≠ 0 := by decide
    omega
  have hnsec : nsecInSec * (p.burstSize : Int) = 10 ^ 9 * p.burstSize := rfl
  unfold cycleNsec
  simp only [exact_bind, exact_sint, exact_div]
  rw [hnsec]
  constructor
  · rintro ⟨nsec, ⟨-, rfl⟩, -, rfl⟩
    exact (Int.tdiv_eq_ediv_of_nonneg (by omega)).symm
  · rintro rfl
    exact ⟨_, ⟨⟨by omega, by omega⟩, rfl⟩, hpos, Int.tdiv_eq_ediv_of_nonneg (by omega)⟩

theorem Accepted.exact_testDuration : Exact p.testDuration p.exactDuration := by
  have hwarmup := h.warmup_lt
  have hduration := h.duration
  have hlong : maxDuration = 36000000 := rfl
  unfold testDuration exactDuration
  simp only [exact_bind, exact_uint, exact_sint]
  exact ⟨_, ⟨⟨by omega, by omega⟩, rfl⟩, _, ⟨⟨by omega, by omega⟩, rfl⟩, ⟨by omega, by omega⟩,
    rfl⟩

theorem Accepted.sent_bounds {rate : Int} (hrate : 0 ≤ rate ∧ rate ≤ 2 ^ 30) :
    0 ≤ p.exactDuration * rate ∧ p.exactDuration * rate < 2 ^ 57 := by
  obtain ⟨hpos, hlt⟩ := h.duration_bounds
  refine ⟨Int.mul_nonneg hpos hrate.1, ?_⟩
  calc p.exactDuration * rate ≤ p.exactDuration * 2 ^ 30 :=
        Int.mul_le_mul_of_nonneg_left hrate.2 hpos
    _ < 2 ^ 57 := by omega

theorem Accepted.exact_sequenceNo {rate n : Int} (hrate : 0 ≤ rate ∧ rate ≤ 2 ^ 30) :
    Exact (p.sequenceNo rate) n ↔ 10 * p.replyEvery < 2 ^ 32 ∧
      p.exactDuration * rate + 10 * p.replyEvery + p.burstSize = n := by
  have hburst := h.burst
  obtain ⟨hsent, hsent_lt⟩ := h.sent_bounds hrate
  unfold sequenceNo
  simp only [exact_bind, exact_uint]
  constructor
  · rintro ⟨d, hd, -, ⟨-, rfl⟩, -, ⟨⟨-, hreplies⟩, rfl⟩, -, ⟨-, rfl⟩, -, rfl⟩
    cases h.exact_testDuration.symm.trans hd
    exact ⟨by omega, rfl⟩
  · rintro ⟨hreplies, rfl⟩
    exact ⟨_, h.exact_testDuration, _, ⟨⟨hsent, by omega⟩, rfl⟩, _, ⟨⟨by omega, by omega⟩, rfl⟩,
      _, ⟨⟨by omega, by omega⟩, rfl⟩, ⟨by omega, by omega⟩, rfl⟩

theorem Accepted.gives_sequenceNo {rate : Int} (hrate : 0 ≤ rate ∧ rate ≤ 2 ^ 30) :
    Gives (p.sequenceNo rate)
      (p.exactDuration * rate + 10 * p.replyEvery % 2 ^ 32 + p.burstSize) := by
  have hburst := h.burst
  obtain ⟨hsent, hsent_lt⟩ := h.sent_bounds hrate
  refine h.exact_testDuration.gives.bind ?_
  refine (exact_uint.mpr ⟨⟨hsent, by omega⟩, rfl⟩).gives.bind ?_
  refine (Gives.uint 32 _).bind ?_
  refine (exact_uint.mpr ⟨⟨by omega, by omega⟩, rfl⟩).gives.bind ?_
  exact (exact_uint.mpr ⟨⟨by omega, by omega⟩, rfl⟩).gives

variable (pingPong) in
/-- These are the sizes of `UserParams` for a time based test below the highest rate. -/
theorem Accepted.gives_sizes (hmode : p.mode = .timeBased) (hmps : p.mps ≠ uint32Max) :
    Gives (p.sizes pingPong) ⟨mpsMaxUl, p.cycleDurationNsec, p.maxSequenceNo⟩ := by
  have hrate : p.exactRate pingPong = p.mps := if_neg hmps
  have hsequence := h.gives_sequenceNo (h.rate_bounds pingPong)
  rw [hrate] at hsequence
  have hmpsMax : p.mpsMax pingPong = Pure.pure (mpsMaxUl : Int) := if_neg fun hmax => hmps hmax.2
  have hnumber : p.exactDuration * p.mps + 10 * p.replyEvery % 2 ^ 32 + p.burstSize =
      (p.maxSequenceNo : Int) := by
    unfold exactDuration maxSequenceNo maxTestDuration
    rw [hmode]
    push_cast
    rfl
  unfold sizes
  rw [hmpsMax, ← hnumber]
  refine (Gives.pure _).bind ((h.exact_cycleNsec.mpr rfl).gives.bind ?_)
  rw [if_neg hmps, if_neg hmps]
  exact hsequence.bind (Gives.pure _)

end Bounds

end UserParams

/-- For the options that are accepted, the sizes are the exact ones and nothing wraps around on
the way exactly when `10 * reply_every` fits into 32 bits, and in ping-pong at the highest rate
`MPS_MAX_PP * burst_size` does. -/
theorem sizes_exact_iff (pingPong : Bool) (p : UserParams) (h : p.Accepted) :
    Exact (p.sizes pingPong) (p.exactSizes pingPong) ↔ 10 * p.replyEvery < 2 ^ 32 ∧
      (pingPong = true ∧ p.mps = uint32Max → 600000 * p.burstSize < 2 ^ 32) := by
  have hrate := h.rate_bounds pingPong
  unfold UserParams.sizes UserParams.exactSizes
  simp only [exact_bind, exact_pure, UserParams.exact_mpsMax, h.exact_cycleNsec]
  constructor
  · rintro ⟨-, ⟨hmax, rfl⟩, -, rfl, n, hn, -⟩
    exact ⟨((h.exact_sequenceNo hrate).mp hn).1, hmax⟩
  · rintro ⟨hreplies, hmax⟩
    exact ⟨_, ⟨hmax, rfl⟩, _, rfl, _, (h.exact_sequenceNo hrate).mpr ⟨hreplies, rfl⟩, rfl⟩

def pingPongDefault : UserParams := ⟨.timeBased, 1, uint32Max, 1, 1, 1, 1⟩

theorem pingPongDefault_accepted : pingPongDefault.Accepted :=
  ⟨by decide, by decide, by decide, Or.inr rfl, by decide⟩

theorem sizes_exact_default : pingPongDefault.Accepted ∧
    Exact (pingPongDefault.sizes true) ⟨600000, 0, 1200011⟩ :=
  ⟨pingPongDefault_accepted,
    (sizes_exact_iff true pingPongDefault pingPongDefault_accepted).mpr ⟨by decide, by decide⟩⟩

/-- Ping-pong in bursts of 7159 messages, and a server that answers every 2^30th message. -/
theorem sizes_wrapped :
    (⟨.timeBased, 1, uint32Max, 7159, 1, 1, 1⟩ : UserParams).Accepted ∧
    (⟨.timeBased, 1, uint32Max, 7159, 1, 1, 1⟩ : UserParams).sizes true =
      .value ⟨432704, 0, 872577⟩ true ∧
    (⟨.timeBased, 1, uint32Max, 7159, 1, 1, 1⟩ : UserParams).exactSizes true =
      ⟨10000000, 0, 20007169⟩ ∧
    (⟨.timeBased, 1, 10000, 1, 2 ^ 30, 1, 1⟩ : UserParams).Accepted ∧
    (⟨.timeBased, 1, 10000, 1, 2 ^ 30, 1, 1⟩ : UserParams).sizes false =
      .value ⟨10000000, 100000, 2147503649⟩ true ∧
    (⟨.timeBased, 1, 10000, 1, 2 ^ 30, 1, 1⟩ : UserParams).exactSizes false =
      ⟨10000000, 100000, 10737438241⟩ :=
  ⟨⟨by decide, by decide, by decide, Or.inr rfl, by decide⟩, by decide, by decide,
    ⟨by decide, by decide, by decide, Or.inl (by decide), by decide⟩, by decide, by decide⟩

end Sockperf
