import Mathlib.Logic.Relation
import Sockperf.Statistics

/-!
# Pacing and the test timer

Bursts are released by `SwitchOnCycleDuration`, and a time based run is ended by
the timer of `set_client_timer`. The table of packet times has to hold what is
sent in between, and the statistics cut off what the timer added.
-/

namespace Sockperf

set_option autoImplicit false

/-- `it_value` of the timer. -/
structure Timer where
  tvSec : Nat
  tvUsec : Nat
  deriving DecidableEq, Repr

def Timer.nsec (t : Timer) : Int := t.tvSec * nsecInSec + t.tvUsec * 1000

def UserParams.setClientTimer (p : UserParams) : Timer where
  tvSec := (UserParams.cooldownMsec + p.warmupMsec) / 1000 + p.secTestDuration
  -- the remainder is a number of milliseconds
  tvUsec := (UserParams.cooldownMsec + p.warmupMsec) % 1000

def UserParams.cycleDuration (p : UserParams) (k : Ticks) : TicksTime :=
  k.nsec2ticks p.cycleDurationNsec

/-- The time from arming the timer to its signal, in ticks. -/
def UserParams.timerTicks (p : UserParams) (k : Ticks) : TicksTime :=
  k.nsec2ticks p.setClientTimer.nsec

/-! ## Paced bursts -/

/-- The sender: the last reading of the clock and what is left of the burst. -/
structure Pacer where
  cycleStartTime : TicksTime
  now : TicksTime
  left : Nat
  sequenceCounter : Nat
  exit : Bool

namespace Pacer

/-- `initBeforeLoop` -/
def start (cycle startTime : TicksTime) : Pacer := ⟨startTime - cycle, startTime, 0, 0, false⟩

/-- The steps of `client_send_burst` between two readings of a clock that does not go back. The
signal of the timer comes no later than `expiry`. -/
inductive Step (cycle expiry : TicksTime) (burstSize : Nat) : Pacer → Pacer → Prop
  | wait {s : Pacer} {t : TicksTime} (up : s.exit = false) (idle : s.left = 0) (mono : s.now ≤ t)
      (running : t ≤ expiry) (early : t < s.cycleStartTime + cycle) :
      Step cycle expiry burstSize s { s with now := t }
  | release {s : Pacer} {t : TicksTime} (up : s.exit = false) (idle : s.left = 0)
      (mono : s.now ≤ t) (running : t ≤ expiry) (due : s.cycleStartTime + cycle ≤ t) :
      Step cycle expiry burstSize s
        { s with now := t, cycleStartTime := s.cycleStartTime + cycle, left := burstSize }
  | send {s : Pacer} {t : TicksTime} {n : Nat} (up : s.exit = false) (more : s.left = n + 1)
      (mono : s.now ≤ t) (running : t ≤ expiry) :
      Step cycle expiry burstSize s
        { s with now := t, left := n, sequenceCounter := s.sequenceCounter + 1 }
  | skip {s : Pacer} {t : TicksTime} {n : Nat} (up : s.exit = false) (more : s.left = n + 1)
      (mono : s.now ≤ t) (running : t ≤ expiry) :
      Step cycle expiry burstSize s { s with now := t, left := n }
  | signal {s : Pacer} {t : TicksTime} (mono : s.now ≤ t) :
      Step cycle expiry burstSize s { s with now := t, exit := true }

def Run (cycle expiry : TicksTime) (burstSize : Nat) : Pacer → Pacer → Prop :=
  Relation.ReflTransGen (Step cycle expiry burstSize)

section Run
variable {cycle expiry startTime : TicksTime} {burstSize : Nat} {s s' : Pacer}

/-- `r` bursts were released, the last of them when it was due and before the timer expired. -/
structure Released (cycle expiry startTime : TicksTime) (burstSize r : Nat) (s : Pacer) : Prop where
  next : s.cycleStartTime + cycle = startTime + r * cycle
  count : s.sequenceCounter + s.left ≤ r * burstSize
  due : r ≠ 0 → startTime + (r - 1) * cycle ≤ expiry

theorem released_start :
    Released cycle expiry startTime burstSize 0 (start cycle startTime) := by
  refine ⟨?_, Nat.zero_le _, fun h => absurd rfl h⟩
  simp [start]

theorem Released.step {r : Nat} (h : Released cycle expiry startTime burstSize r s)
    (hstep : Step cycle expiry burstSize s s') :
    ∃ r', Released cycle expiry startTime burstSize r' s' := by
  have hcount := h.count
  cases hstep with
  | wait up idle mono running early => exact ⟨r, h.next, h.count, h.due⟩
  | release up idle mono running due =>
    refine ⟨r + 1, ?_, ?_, fun _ => ?_⟩
    · show s.cycleStartTime + cycle + cycle = _
      rw [h.next]
      push_cast
      ring
    · show s.sequenceCounter + burstSize ≤ _
      rw [Nat.add_mul, Nat.one_mul]
      omega
    · have heq : startTime + ((r + 1 : Nat) - 1) * cycle = s.cycleStartTime + cycle := by
        rw [h.next]
        push_cast
        ring
      rw [heq]
      exact due.trans running
  | @send _ n up more mono running =>
    refine ⟨r, h.next, ?_, h.due⟩
    show s.sequenceCounter + 1 + n ≤ _
    omega
  | @skip _ n up more mono running =>
    refine ⟨r, h.next, ?_, h.due⟩
    show s.sequenceCounter + n ≤ _
    omega
  | signal mono => exact ⟨r, h.next, h.count, h.due⟩

theorem Released.run (h : Run cycle expiry burstSize (start cycle startTime) s) :
    ∃ r, Released cycle expiry startTime burstSize r s := by
  induction h with
  | refl => exact ⟨0, released_start⟩
  | tail _ hstep ih =>
    obtain ⟨r, hr⟩ := ih
    exact hr.step hstep

theorem sequenceCounter_le {duration : TicksTime} (hcycle : 0 < cycle) (hduration : 0 ≤ duration)
    (hexp : expiry ≤ startTime + duration)
    (h : Run cycle expiry burstSize (start cycle startTime) s) :
    (s.sequenceCounter : Int) ≤ burstSize * (duration / cycle + 1) := by
  obtain ⟨r, hr⟩ := Released.run h
  have hle : (r : Int) ≤ duration / cycle + 1 := by
    by_cases h0 : r = 0
    · have hdiv : 0 ≤ duration / cycle := Int.ediv_nonneg hduration hcycle.le
      rw [h0, Nat.cast_zero]
      linarith
    · have hdue := hr.due h0
      have hdiv : (r : Int) - 1 ≤ duration / cycle := by
        rw [Int.le_ediv_iff_mul_le hcycle]
        linarith
      linarith
  have hcount : s.sequenceCounter ≤ r * burstSize := (Nat.le_add_right _ _).trans hr.count
  calc (s.sequenceCounter : Int) ≤ r * burstSize := by exact_mod_cast hcount
    _ = burstSize * r := mul_comm _ _
    _ ≤ burstSize * (duration / cycle + 1) :=
        mul_le_mul_of_nonneg_left hle (Int.natCast_nonneg _)

theorem run_burst (n m : Nat) (c : TicksTime) {t : TicksTime} (running : t ≤ expiry) :
    Run cycle expiry burstSize ⟨c, t, n, m, false⟩ ⟨c, t, 0, m + n, false⟩ := by
  induction n generalizing m with
  | zero => exact Relation.ReflTransGen.refl
  | succ n ih =>
    refine Relation.ReflTransGen.head (Step.send rfl rfl le_rfl running) ?_
    rw [show m + (n + 1) = m + 1 + n by omega]
    exact ih (m + 1)

variable (burstSize)

theorem exists_run (hcycle : 0 ≤ cycle) (r : Nat) (hdue : startTime + r * cycle ≤ expiry) :
    ∃ s, Run cycle expiry burstSize (start cycle startTime) s ∧
      s = ⟨startTime + r * cycle, startTime + r * cycle, 0, (r + 1) * burstSize, false⟩ := by
  induction r with
  | zero =>
    refine ⟨_, ?_, rfl⟩
    simp only [Nat.cast_zero, zero_mul, add_zero, Nat.zero_add, Nat.one_mul] at hdue ⊢
    refine Relation.ReflTransGen.head
      (Step.release (t := startTime) rfl rfl le_rfl hdue (by simp [start])) ?_
    have hrun : Run cycle expiry burstSize _ _ := run_burst burstSize 0 startTime hdue
    rw [Nat.zero_add] at hrun
    simpa only [start, sub_add_cancel, Run] using hrun
  | succ r ih =>
    have hstep : startTime + (r : Int) * cycle + cycle =
        startTime + ((r + 1 : Nat) : Int) * cycle := by
      push_cast
      ring
    have hle : startTime + (r : Int) * cycle ≤ startTime + ((r + 1 : Nat) : Int) * cycle := by
      rw [← hstep]
      exact le_add_of_nonneg_right hcycle
    obtain ⟨s, hrun, rfl⟩ := ih (hle.trans hdue)
    refine ⟨_, hrun.trans ?_, rfl⟩
    refine Relation.ReflTransGen.head
      (Step.release (t := startTime + ((r + 1 : Nat) : Int) * cycle) rfl rfl hle hdue hstep.le) ?_
    have hburst : Run cycle expiry burstSize _ _ :=
      run_burst burstSize ((r + 1) * burstSize) (startTime + (r : Int) * cycle + cycle) hdue
    rw [show (r + 1) * burstSize + burstSize = (r + 1 + 1) * burstSize by ring] at hburst
    rw [hstep] at hburst ⊢
    exact hburst

theorem exists_run_gt (hburst : 0 < burstSize) (hexp : startTime ≤ expiry) (m : Nat) :
    ∃ s, Run 0 expiry burstSize (start 0 startTime) s ∧ m < s.sequenceCounter := by
  have hdue : startTime + (m : Int) * 0 ≤ expiry := by simpa using hexp
  obtain ⟨s, hrun, rfl⟩ := exists_run burstSize le_rfl m hdue
  refine ⟨_, hrun, ?_⟩
  show m < (m + 1) * burstSize
  exact (Nat.lt_succ_self m).trans_le (Nat.le_mul_of_pos_right _ hburst)

theorem exists_run_max (hcycle : 0 < cycle) (hexp : startTime ≤ expiry) :
    ∃ s, Run cycle expiry burstSize (start cycle startTime) s ∧
      (s.sequenceCounter : Int) = burstSize * ((expiry - startTime) / cycle + 1) := by
  have hdiv : 0 ≤ (expiry - startTime) / cycle :=
    Int.ediv_nonneg (sub_nonneg.mpr hexp) hcycle.le
  obtain ⟨r, hr⟩ := Int.eq_ofNat_of_zero_le hdiv
  have hdue : startTime + (r : Int) * cycle ≤ expiry := by
    rw [← hr]
    have hle := Int.ediv_mul_le (expiry - startTime) hcycle.ne'
    linarith
  obtain ⟨s, hrun, rfl⟩ := exists_run burstSize hcycle.le r hdue
  refine ⟨_, hrun, ?_⟩
  rw [hr]
  push_cast
  ring

end Run

end Pacer

namespace UserParams
variable (p : UserParams) (k : Ticks)

theorem nsec2ticks_nonneg {v : Int} (hv : 0 ≤ v) : 0 ≤ k.nsec2ticks v := by
  unfold Ticks.nsec2ticks
  split
  · rw [k.nsec2ticksRdtsc_eq hv]
    exact Int.ediv_nonneg (Int.mul_nonneg hv k.pos.le) (by decide)
  · exact hv

theorem cycleDuration_nonneg : 0 ≤ p.cycleDuration k := by
  apply nsec2ticks_nonneg
  exact Int.ediv_nonneg (Int.mul_nonneg (by decide) (Int.natCast_nonneg _)) (Int.natCast_nonneg _)

theorem timerTicks_nonneg : 0 ≤ p.timerTicks k := by
  apply nsec2ticks_nonneg
  unfold Timer.nsec
  have hsec : (0 : Int) ≤ p.setClientTimer.tvSec * nsecInSec :=
    Int.mul_nonneg (Int.natCast_nonneg _) (by decide)
  omega

end UserParams

/-- For every clock, and for every time that passes between arming the timer and the start of the
test, the sequence counter stays inside the table exactly when a cycle lasts at least one tick and
the bursts whose cycles start before the timer expires fit. -/
theorem paced_run_fits (k : Ticks) (p : UserParams) (hburst : 0 < p.burstSize) :
    (∀ armed startTime, armed ≤ startTime → ∀ s,
      Pacer.Run (p.cycleDuration k) (armed + p.timerTicks k) p.burstSize
        (Pacer.start (p.cycleDuration k) startTime) s → s.sequenceCounter ≤ p.maxSequenceNo) ↔
      0 < p.cycleDuration k ∧
        p.burstSize * (p.timerTicks k / p.cycleDuration k + 1) ≤ p.maxSequenceNo := by
  have htimer := p.timerTicks_nonneg k
  have hexp : (0 : TicksTime) ≤ 0 + p.timerTicks k := by rwa [zero_add]
  constructor
  · intro hall
    have hcycle : 0 < p.cycleDuration k := by
      refine lt_of_le_of_ne (p.cycleDuration_nonneg k) fun hzero => ?_
      obtain ⟨s, hrun, hgt⟩ := Pacer.exists_run_gt p.burstSize hburst hexp p.maxSequenceNo
      have hle := hall 0 0 le_rfl s
      rw [← hzero] at hle
      exact absurd (hle hrun) (not_le.mpr hgt)
    refine ⟨hcycle, ?_⟩
    obtain ⟨s, hrun, heq⟩ := Pacer.exists_run_max p.burstSize hcycle hexp
    rw [zero_add, sub_zero] at heq
    rw [← heq]
    exact_mod_cast hall 0 0 le_rfl s hrun
  · rintro ⟨hcycle, hfit⟩ armed startTime harmed s hrun
    have hle := Pacer.sequenceCounter_le hcycle htimer (by linarith) hrun
    exact_mod_cast hle.trans hfit

/-- Three million messages in a second, for a thousand seconds. -/
def fastRun : UserParams := ⟨.timeBased, 1000, 3000000, 1, 1, 1, 1⟩

def clockTicks : Ticks := ⟨.clock, 1000000, by decide⟩

/-- A cycle is rounded down to 333 ns, which is 4344 messages more than the table holds. -/
theorem fast_run_outgrows : ∃ s,
    Pacer.Run (fastRun.cycleDuration clockTicks) (fastRun.timerTicks clockTicks) 1
      (Pacer.start (fastRun.cycleDuration clockTicks) 0) s ∧
      fastRun.maxSequenceNo < s.sequenceCounter := by
  have hcycle : 0 < fastRun.cycleDuration clockTicks := by decide
  have hexp : 0 ≤ fastRun.timerTicks clockTicks := by decide
  obtain ⟨s, hrun, heq⟩ := Pacer.exists_run_max 1 hcycle hexp
  refine ⟨s, hrun, ?_⟩
  have hlt : (fastRun.maxSequenceNo : Int) < (1 : Nat) *
      ((fastRun.timerTicks clockTicks - 0) / fastRun.cycleDuration clockTicks + 1) := by decide
  rw [← heq] at hlt
  exact_mod_cast hlt

theorem paced_run_fits_one_per_msec : ∃ s,
    Pacer.Run (onePerMsec.cycleDuration clockTicks) (0 + onePerMsec.timerTicks clockTicks) 1
      (Pacer.start (onePerMsec.cycleDuration clockTicks) 0) s ∧
      s.sequenceCounter ≤ onePerMsec.maxSequenceNo := by
  have hcycle : 0 < onePerMsec.cycleDuration clockTicks := by decide
  have hexp : 0 ≤ 0 + onePerMsec.timerTicks clockTicks := by decide
  obtain ⟨s, hrun, -⟩ := Pacer.exists_run_max 1 hcycle hexp
  exact ⟨s, hrun, (paced_run_fits clockTicks onePerMsec (by decide)).mpr (by decide) 0 0 le_rfl s
    hrun⟩

/-! ## The measured window of a time based run -/

namespace UserParams
variable (p : UserParams)

theorem timer_exact_iff : p.setClientTimer.nsec =
    p.secTestDuration * nsecInSec + (p.warmupMsec + cooldownMsec) * nsecInMsec ↔
      (p.warmupMsec + cooldownMsec) % 1000 = 0 := by
  simp only [Timer.nsec, setClientTimer, nsecInSec, nsecInMsec, Nat.add_comm cooldownMsec]
  omega

end UserParams

namespace Ticks
variable (k : Ticks)

/-- The ticks of the chosen clock in a millisecond. -/
def rate : Int :=
  match k.mode with
  | .rdtsc => k.perMsec
  | .clock => nsecInMsec

theorem rate_pos : 0 < k.rate := by
  unfold rate
  split
  · exact k.pos
  · decide

theorem perMsec_eq_rate_iff : k.perMsec = k.rate ↔ k.mode = .rdtsc ∨ k.perMsec = nsecInMsec := by
  unfold rate
  cases k.mode with
  | rdtsc => simp
  | clock => simp

theorem nsec2ticks_eq {v : Int} (hv : 0 ≤ v) : k.nsec2ticks v = v * k.rate / nsecInMsec := by
  unfold nsec2ticks rate
  cases k.mode with
  | rdtsc => exact k.nsec2ticksRdtsc_eq hv
  | clock => exact (Int.mul_ediv_cancel v (show nsecInMsec ≠ 0 by decide)).symm

theorem nsec2ticks_msec (n : Nat) : k.nsec2ticks (n * nsecInMsec) = n * k.rate := by
  rw [k.nsec2ticks_eq (Int.mul_nonneg (Int.natCast_nonneg _) (by decide)), mul_right_comm,
    Int.mul_ediv_cancel _ (by decide)]

end Ticks

theorem UserParams.timerTicks_eq (p : UserParams) (k : Ticks) : p.timerTicks k =
    (p.secTestDuration + ((p.warmupMsec + cooldownMsec) / 1000 : Nat)) * 1000 * k.rate +
      ((p.warmupMsec + cooldownMsec) % 1000 : Nat) * k.rate / 1000 := by
  have hnsec : p.setClientTimer.nsec * k.rate =
      ((p.warmupMsec + cooldownMsec) % 1000 : Nat) * k.rate * 1000 +
        (p.secTestDuration + ((p.warmupMsec + cooldownMsec) / 1000 : Nat)) * 1000 * k.rate *
          nsecInMsec := by
    simp only [Timer.nsec, setClientTimer, nsecInSec, nsecInMsec, Nat.add_comm cooldownMsec]
    push_cast
    ring
  have hnonneg : 0 ≤ p.setClientTimer.nsec := by
    have hsec : (0 : Int) ≤ p.setClientTimer.tvSec * nsecInSec :=
      Int.mul_nonneg (Int.natCast_nonneg _) (by decide)
    unfold Timer.nsec
    omega
  rw [timerTicks, k.nsec2ticks_eq hnonneg, hnsec, Int.add_mul_ediv_right _ _ (by decide), add_comm]
  congr 1
  exact Int.mul_ediv_mul_of_pos_left _ _ (by decide)

section Window
variable (k : Ticks) (p : UserParams) {st : Statistics} {first last : TicksTime}
variable (hmode : st.mode = .timeBased) (hticks : st.ticks1msec = k.ticks1msec)
include hmode hticks

theorem testStart_timeBased (hfirst : st.times.getTxTime st.replyEvery = some first) :
    st.testStart = some (first + 400 * k.perMsec) := by
  rw [Statistics.testStart, hfirst, hmode, hticks, k.ticks1msec_eq]
  exact congrArg (fun x => some (first + x)) (mul_comm _ _)

theorem testEnd_timeBased (hlast : st.times.getTxTime st.sendCount = some last) :
    st.testEnd = some (last - 50 * k.perMsec) := by
  rw [Statistics.testEnd, hlast, hmode, hticks, k.ticks1msec_eq]
  exact congrArg (fun x => some (last - x)) (mul_comm _ _)

/-- When each of the three parts agrees with `bringup`, and when the window of a run that sends
from the start until the timer expires lasts as long as the test was asked to. The three parts
never agree together. -/
theorem measured_window (hfirst : st.times.getTxTime st.replyEvery = some first)
    (hlast : st.times.getTxTime st.sendCount = some last) :
    (p.setClientTimer.nsec = p.secTestDuration * nsecInSec +
        (p.warmupMsec + UserParams.cooldownMsec) * nsecInMsec ↔
      (p.warmupMsec + UserParams.cooldownMsec) % 1000 = 0) ∧
    (st.testStart = some (first + k.nsec2ticks (p.warmupMsec * nsecInMsec)) ↔
      400 * k.perMsec = p.warmupMsec * k.rate) ∧
    (st.testEnd = some (last - k.nsec2ticks (UserParams.cooldownMsec * nsecInMsec)) ↔
      k.perMsec = k.rate) ∧
    (last - first = p.timerTicks k →
      ((∃ a b, st.testStart = some a ∧ st.testEnd = some b ∧
          b - a = k.nsec2ticks (p.secTestDuration * nsecInSec)) ↔
        ((p.warmupMsec + UserParams.cooldownMsec) / 1000 : Nat) * 1000 * k.rate +
          ((p.warmupMsec + UserParams.cooldownMsec) % 1000 : Nat) * k.rate / 1000 =
            450 * k.perMsec)) ∧
    ¬ (p.setClientTimer.nsec = p.secTestDuration * nsecInSec +
        (p.warmupMsec + UserParams.cooldownMsec) * nsecInMsec ∧
      st.testStart = some (first + k.nsec2ticks (p.warmupMsec * nsecInMsec)) ∧
      st.testEnd = some (last - k.nsec2ticks (UserParams.cooldownMsec * nsecInMsec))) := by
  have hstart : st.testStart = some (first + k.nsec2ticks (p.warmupMsec * nsecInMsec)) ↔
      400 * k.perMsec = p.warmupMsec * k.rate := by
    rw [testStart_timeBased k hmode hticks hfirst, k.nsec2ticks_msec, Option.some.injEq,
      add_right_inj]
  have hend : st.testEnd = some (last - k.nsec2ticks (UserParams.cooldownMsec * nsecInMsec)) ↔
      k.perMsec = k.rate := by
    rw [testEnd_timeBased k hmode hticks hlast, k.nsec2ticks_msec, Option.some.injEq,
      sub_right_inj, show (UserParams.cooldownMsec : Int) = 50 from rfl]
    exact mul_right_inj' (by decide)
  refine ⟨p.timer_exact_iff, hstart, hend, fun hrun => ?_, ?_⟩
  · have hduration : k.nsec2ticks (p.secTestDuration * nsecInSec) =
        p.secTestDuration * 1000 * k.rate := by
      have hmsec := k.nsec2ticks_msec (p.secTestDuration * 1000)
      have hnsec : (p.secTestDuration : Int) * nsecInSec =
          ((p.secTestDuration * 1000 : Nat) : Int) * nsecInMsec := by
        simp only [nsecInSec, nsecInMsec]
        push_cast
        ring
      rw [hnsec, hmsec]
      push_cast
      rfl
    rw [p.timerTicks_eq k] at hrun
    rw [testStart_timeBased k hmode hticks hfirst, testEnd_timeBased k hmode hticks hlast, hduration]
    constructor
    · rintro ⟨a, b, ha, hb, hab⟩
      cases ha
      cases hb
      linarith
    · intro h
      refine ⟨_, _, rfl, rfl, ?_⟩
      linarith
  · rw [p.timer_exact_iff, hstart, hend]
    rintro ⟨hexact, hwarm, hrate⟩
    have hwarmup : p.warmupMsec = 400 := by
      rw [hrate] at hwarm
      exact_mod_cast (mul_right_cancel₀ k.rate_pos.ne' hwarm).symm
    rw [hwarmup] at hexact
    exact absurd hexact (by decide)

end Window

/-- A run of one second that sends until the timer expires, in nanoseconds. -/
def oneSecond : Statistics :=
  { Statistics.ofReplies onePerMsec [1, 1000450001] [2, 1000450002] with
    ticks1msec := clockTicks.ticks1msec }

/-- The timer ends the run 450 microseconds after the second, not 450 milliseconds, and 550
milliseconds are left of it; with 4000 sockets the warm-up of 450 milliseconds is cut by 400. -/
theorem short_window : onePerMsec.setClientTimer.nsec = 1000450000 ∧
    onePerMsec.secTestDuration * nsecInSec +
      (onePerMsec.warmupMsec + UserParams.cooldownMsec) * nsecInMsec = 1450000000 ∧
    oneSecond.testStart = some 400000001 ∧ oneSecond.testEnd = some 950450001 ∧
    { onePerMsec with fdNum := 4000 }.warmupMsec = 450 := by
  decide

theorem measured_window_one_second :
    oneSecond.testStart =
      some (1 + clockTicks.nsec2ticks (onePerMsec.warmupMsec * nsecInMsec)) := by
  have hfirst : oneSecond.times.getTxTime oneSecond.replyEvery = some 1 := rfl
  have hlast : oneSecond.times.getTxTime oneSecond.sendCount = some 1000450001 := rfl
  exact (measured_window clockTicks onePerMsec rfl rfl hfirst hlast).2.1.mpr (by decide)

end Sockperf
