import Mathlib.Algebra.Order.Field.Rat
import Mathlib.Data.Rat.Floor
import Sockperf.Pacing

/-!
# Durations and the choice of the clock

A `TicksDuration` keeps a number of ticks. What a tick lasts is decided by `ms_mode`, which is
`RDTSC` until `bringup` calls `TicksBase::init`; by then the static constants and the items of a
playback file are built.
-/

namespace Sockperf

set_option autoImplicit false

/-- A result of type `int64_t`; there is none on overflow. -/
def int64 (x : Int) : Option Int := if -int64Max - 1 ≤ x ∧ x ≤ int64Max then some x else none

theorem int64_of_le {x : Int} (h0 : 0 ≤ x) (hx : x ≤ int64Max) : int64 x = some x := by
  have hmin : -int64Max - 1 ≤ 0 := by decide
  exact if_pos ⟨hmin.trans h0, hx⟩

/-- The conversions of `TicksImplRdtsc`: `v` units of which `den` last as long as `num` others. -/
def convert64 (limit num den v : Int) : Option Int :=
  if v < limit then (int64 (v * num)).map (·.tdiv den)
  else do
    let whole ← int64 (v.tdiv den * num)
    let rest ← (int64 (v.tmod den * num)).map (·.tdiv den)
    int64 (whole + rest)

theorem convert64_eq {limit num den v : Int} (hv : 0 ≤ v) (hnum : 0 < num) (hden : 0 < den)
    (hlimit : limit * num ≤ int64Max) (hpart : den * num ≤ int64Max)
    (hfit : v * num / den ≤ int64Max) : convert64 limit num den v = some (v * num / den) := by
  have hprod : 0 ≤ v * num := Int.mul_nonneg hv hnum.le
  unfold convert64
  split
  · next hlt =>
    have hle : v * num ≤ int64Max := (Int.mul_le_mul_of_nonneg_right hlt.le hnum.le).trans hlimit
    rw [int64_of_le hprod hle, Option.map_some, Int.tdiv_eq_ediv_of_nonneg hprod]
  · have hmod := Int.emod_nonneg v hden.ne'
    have hrest : 0 ≤ v % den * num := Int.mul_nonneg hmod hnum.le
    have hrestLe : v % den * num ≤ int64Max :=
      (Int.mul_le_mul_of_nonneg_right (Int.emod_lt_of_pos v hden).le hnum.le).trans hpart
    have hwhole : 0 ≤ v / den * num := Int.mul_nonneg (Int.ediv_nonneg hv hden.le) hnum.le
    have hquot : 0 ≤ v % den * num / den := Int.ediv_nonneg hrest hden.le
    have hsum : v / den * num + v % den * num / den = v * num / den := by
      have hsplit : v * num = v % den * num + v / den * num * den := by
        conv_lhs => rw [← Int.emod_add_mul_ediv v den]
        ring
      rw [hsplit, Int.add_mul_ediv_right _ _ hden.ne', add_comm]
    rw [Int.tdiv_eq_ediv_of_nonneg hv, Int.tmod_eq_emod_of_nonneg hv,
      int64_of_le hwhole (by omega), int64_of_le hrest hrestLe]
    simp only [Option.bind_eq_bind, Option.bind_some, Option.map_some]
    rw [Int.tdiv_eq_ediv_of_nonneg hrest, hsum]
    exact int64_of_le (Int.ediv_nonneg hprod hden.le) hfit

namespace Ticks
variable (k : Ticks)

/-- `TicksBase::nsec2ticks` -/
def nsec2ticks64 (v : Int) : Option Int :=
  match k.mode with
  | .rdtsc => convert64 k.maxMsecConvert k.perMsec nsecInMsec v
  | .clock => some v

/-- `TicksBase::ticks2nsec` -/
def ticks2nsec64 (v : Int) : Option Int :=
  match k.mode with
  | .rdtsc => convert64 k.maxMsecConvert nsecInMsec k.perMsec v
  | .clock => some v

theorem maxMsecConvert_mul_le : k.maxMsecConvert * k.perMsec ≤ int64Max ∧
    k.maxMsecConvert * nsecInMsec ≤ int64Max := by
  have hpos := k.pos
  have hmsec : (0 : Int) < nsecInMsec := by decide
  have hmax : (0 : Int) ≤ int64Max := by decide
  unfold maxMsecConvert
  split
  · next hlt =>
    have hdiv := Int.ediv_mul_le int64Max hpos.ne'
    refine ⟨hdiv, le_trans ?_ hdiv⟩
    exact Int.mul_le_mul_of_nonneg_left hlt.le (Int.ediv_nonneg hmax hpos.le)
  · next hge =>
    have hdiv := Int.ediv_mul_le int64Max hmsec.ne'
    refine ⟨le_trans ?_ hdiv, hdiv⟩
    exact Int.mul_le_mul_of_nonneg_left (not_lt.mp hge) (Int.ediv_nonneg hmax hmsec.le)

/-- A count of nanoseconds whose ticks are an `int64_t`. -/
structure Fits (nsec : Int) : Prop where
  nonneg : 0 ≤ nsec
  nsec_le : nsec ≤ int64Max
  ticks_le : nsec * k.perMsec / nsecInMsec ≤ int64Max

variable {k} (hrate : nsecInMsec * k.perMsec ≤ int64Max)
include hrate

theorem Fits.nsec2ticks64 {n : Int} (h : k.Fits n) (m : TicksMode) :
    ({ k with mode := m } : Ticks).nsec2ticks64 n =
      some (n * ({ k with mode := m } : Ticks).rate / nsecInMsec) := by
  cases m with
  | rdtsc =>
    exact convert64_eq h.nonneg k.pos (by decide) k.maxMsecConvert_mul_le.1 hrate h.ticks_le
  | clock =>
    have hne : nsecInMsec ≠ 0 := by decide
    exact congrArg some (Int.mul_ediv_cancel n hne).symm

theorem Fits.ticks2nsec64 {n : Int} (h : k.Fits n) :
    ∃ nsec, k.ticks2nsec64 (n * k.rate / nsecInMsec) = some nsec ∧ nsec ≤ n ∧
      (n - nsec) * k.rate < nsecInMsec + k.rate := by
  have hmsec : (0 : Int) < nsecInMsec := by decide
  have hpos := k.pos
  unfold Ticks.ticks2nsec64 rate
  cases k.mode with
  | rdtsc =>
    dsimp only
    have ht : 0 ≤ n * k.perMsec / nsecInMsec :=
      Int.ediv_nonneg (Int.mul_nonneg h.nonneg hpos.le) hmsec.le
    have hdown : n * k.perMsec / nsecInMsec * nsecInMsec ≤ n * k.perMsec :=
      Int.ediv_mul_le _ hmsec.ne'
    have hup : n * k.perMsec < n * k.perMsec / nsecInMsec * nsecInMsec + nsecInMsec :=
      Int.lt_ediv_add_one_mul_self _ hmsec |>.trans_eq (by ring)
    have hback : n * k.perMsec / nsecInMsec * nsecInMsec / k.perMsec ≤ n := by
      apply Int.ediv_le_of_le_mul hpos
      exact hdown
    have hlast : n * k.perMsec / nsecInMsec * nsecInMsec <
        n * k.perMsec / nsecInMsec * nsecInMsec / k.perMsec * k.perMsec + k.perMsec :=
      Int.lt_ediv_add_one_mul_self _ hpos |>.trans_eq (by ring)
    refine ⟨_, convert64_eq ht hmsec hpos k.maxMsecConvert_mul_le.2 ?_ (hback.trans h.nsec_le),
      hback, ?_⟩
    · rw [mul_comm]
      exact hrate
    · rw [Int.sub_mul]
      linarith
  | clock =>
    dsimp only
    rw [Int.mul_ediv_cancel n hmsec.ne']
    exact ⟨n, rfl, le_rfl, by rw [sub_self, zero_mul]; decide⟩

end Ticks

/-! ## The conversions are floors -/

namespace Ticks
variable {k : Ticks} (hmode : k.mode = .rdtsc) (hrate : nsecInMsec * k.perMsec ≤ int64Max)
include hmode hrate

theorem nsec2ticks64_eq {v : Int} (hv : 0 ≤ v)
    (hfit : v * k.perMsec / nsecInMsec ≤ int64Max) :
    k.nsec2ticks64 v = some (v * k.perMsec / nsecInMsec) := by
  unfold nsec2ticks64
  rw [hmode]
  exact convert64_eq hv k.pos (by decide) k.maxMsecConvert_mul_le.1 hrate hfit

theorem ticks2nsec64_eq {t : Int} (ht : 0 ≤ t)
    (hfit : t * nsecInMsec / k.perMsec ≤ int64Max) :
    k.ticks2nsec64 t = some (t * nsecInMsec / k.perMsec) := by
  unfold ticks2nsec64
  rw [hmode]
  rw [mul_comm] at hrate
  exact convert64_eq ht (by decide) k.pos k.maxMsecConvert_mul_le.2 hrate hfit

end Ticks

theorem ediv_mul_mono {v v' num den : Int} (h : v ≤ v') (hnum : 0 < num) (hden : 0 < den) :
    v * num / den ≤ v' * num / den :=
  Int.ediv_le_ediv hden (Int.mul_le_mul_of_nonneg_right h hnum.le)

/-- At every rate of the counter up to nine million ticks in a nanosecond, no product overflows as
long as the result fits, both conversions round down, and there and back no more is lost than one
tick, rounded up. -/
theorem tick_conversions_exact (k : Ticks) (hmode : k.mode = .rdtsc)
    (hrate : k.perMsec ≤ 9 * 10 ^ 12) :
    (∀ v, 0 ≤ v → v * k.perMsec / 10 ^ 6 ≤ int64Max →
      k.nsec2ticks64 v = some (v * k.perMsec / 10 ^ 6)) ∧
    (∀ t, 0 ≤ t → t * 10 ^ 6 / k.perMsec ≤ int64Max →
      k.ticks2nsec64 t = some (t * 10 ^ 6 / k.perMsec)) ∧
    (∀ v v', 0 ≤ v → v ≤ v' → v' * k.perMsec / 10 ^ 6 ≤ int64Max →
      ∃ t t', k.nsec2ticks64 v = some t ∧ k.nsec2ticks64 v' = some t' ∧ t ≤ t') ∧
    (∀ t t', 0 ≤ t → t ≤ t' → t' * 10 ^ 6 / k.perMsec ≤ int64Max →
      ∃ v v', k.ticks2nsec64 t = some v ∧ k.ticks2nsec64 t' = some v' ∧ v ≤ v') ∧
    ∀ v, 0 ≤ v → v ≤ int64Max → v * k.perMsec / 10 ^ 6 ≤ int64Max →
      ∃ t v', k.nsec2ticks64 v = some t ∧ k.ticks2nsec64 t = some v' ∧
        0 ≤ v - v' ∧ v - v' ≤ ⌈(10 ^ 6 : ℚ) / k.perMsec⌉ := by
  have hpos := k.pos
  have hmsec : (10 : Int) ^ 6 = nsecInMsec := rfl
  have hmax : int64Max = 9223372036854775807 := rfl
  have hprod : nsecInMsec * k.perMsec ≤ int64Max := by
    rw [← hmsec]
    omega
  rw [hmsec]
  have hmsecPos : 0 < nsecInMsec := by decide
  refine ⟨?_, ?_, ?_, ?_, ?_⟩
  · intro v hv hfit
    exact Ticks.nsec2ticks64_eq hmode hprod hv hfit
  · intro t ht hfit
    exact Ticks.ticks2nsec64_eq hmode hprod ht hfit
  · intro v v' hv hle hfit
    have hmono := ediv_mul_mono hle hpos hmsecPos
    exact ⟨_, _, Ticks.nsec2ticks64_eq hmode hprod hv (hmono.trans hfit),
      Ticks.nsec2ticks64_eq hmode hprod (hv.trans hle) hfit, hmono⟩
  · intro t t' ht hle hfit
    have hmono := ediv_mul_mono hle hmsecPos hpos
    exact ⟨_, _, Ticks.ticks2nsec64_eq hmode hprod ht (hmono.trans hfit),
      Ticks.ticks2nsec64_eq hmode hprod (ht.trans hle) hfit, hmono⟩
  · intro v hv hle hfit
    have hrdtsc : k.rate = k.perMsec := by
      unfold Ticks.rate
      rw [hmode]
    obtain ⟨v', hback, hdown, hloss⟩ := Ticks.Fits.ticks2nsec64 hprod ⟨hv, hle, hfit⟩
    rw [hrdtsc] at hback hloss
    refine ⟨_, v', Ticks.nsec2ticks64_eq hmode hprod hv hfit, hback, by omega, ?_⟩
    rw [Int.le_ceil_iff, lt_div_iff₀ (by exact_mod_cast hpos)]
    have hlast : (v - v' - 1) * k.perMsec < nsecInMsec := by
      rw [Int.sub_mul]
      omega
    exact_mod_cast hlast

theorem tick_conversions_exact_microsecond :
    (⟨.rdtsc, 3000000, by decide⟩ : Ticks).nsec2ticks64 1000 = some 3000 ∧
    (⟨.rdtsc, 3000000, by decide⟩ : Ticks).ticks2nsec64 3000 = some 1000 := by
  obtain ⟨hticks, hnsec, -⟩ := tick_conversions_exact ⟨.rdtsc, 3000000, by decide⟩ rfl (by decide)
  exact ⟨hticks 1000 (by decide) (by decide), hnsec 3000 (by decide) (by decide)⟩

/-! ## The program -/

/-- A `TicksDuration`, with what it was built from and the mode at that time. -/
structure Duration where
  nsec : Int
  mode : TicksMode
  ticks : Option Int

inductive TicksCall where
  | init (mode : TicksMode)
  | duration (nsec : Int)

/-- `ms_mode` and the durations built so far. -/
structure TicksBase where
  msMode : TicksMode
  durations : List Duration

/-- `TicksDuration(nsec)` -/
def Ticks.duration (k : Ticks) (mode : TicksMode) (nsec : Int) : Duration :=
  ⟨nsec, mode, ({ k with mode } : Ticks).nsec2ticks64 nsec⟩

namespace TicksBase
variable (k : Ticks)

/-- `isInited` is never set, so every call of `init` is obeyed. -/
def call (s : TicksBase) : TicksCall → TicksBase
  | .init mode => { s with msMode := mode }
  | .duration nsec => { s with durations := s.durations ++ [k.duration s.msMode nsec] }

def run (s : TicksBase) (calls : List TicksCall) : TicksBase := calls.foldl (call k) s

/-- `TICKS0`, `TICKS1USEC`, `TICKS1MSEC` and `TICKS1SEC` -/
def constants : List Int := [0, 1000, 1000 * 1000, 1000 * 1000 * 1000]

/-- Static constructors, the options, `bringup` and what follows. -/
def program (playback : List Int) (mode : TicksMode) (later : List Int) : List TicksCall :=
  (constants ++ playback).map .duration ++ .init mode :: later.map .duration

/-- The durations of a program that chooses the clock `k`. -/
def ofProgram (playback later : List Int) : TicksBase :=
  run k ⟨.rdtsc, []⟩ (program playback k.mode later)

variable {k}

theorem run_durations (nsecs : List Int) : ∀ s : TicksBase,
    run k s (nsecs.map .duration) =
      { s with durations := s.durations ++ nsecs.map (k.duration s.msMode) } := by
  induction nsecs with
  | nil =>
    intro s
    rw [List.map_nil, List.map_nil, List.append_nil]
    rfl
  | cons n nsecs ih =>
    intro s
    rw [List.map_cons, run, List.foldl_cons]
    refine (ih _).trans ?_
    simp [call]

theorem ofProgram_eq (playback later : List Int) : ofProgram k playback later =
    ⟨k.mode, (constants ++ playback).map (k.duration .rdtsc) ++
      later.map (k.duration k.mode)⟩ := by
  rw [ofProgram, program, run, List.foldl_append]
  refine Eq.trans (congrArg (List.foldl (call k) · _) (run_durations _ _)) ?_
  exact (run_durations _ _).trans (by simp [call])

end TicksBase

namespace Duration

/-- `toNsec()` gives what the duration was built from, up to the rounding. -/
def Keeps (k : Ticks) (d : Duration) : Prop :=
  ∃ ticks nsec, d.ticks = some ticks ∧ k.ticks2nsec64 ticks = some nsec ∧ nsec ≤ d.nsec ∧
    (d.nsec - nsec) * k.rate < nsecInMsec + k.rate

variable {k : Ticks} (hrate : nsecInMsec * k.perMsec ≤ int64Max)
include hrate

theorem keeps_same {n : Int} (h : k.Fits n) : (k.duration k.mode n).Keeps k := by
  obtain ⟨nsec, hback, hle, hlt⟩ := h.ticks2nsec64 hrate
  exact ⟨_, nsec, h.nsec2ticks64 hrate k.mode, hback, hle, hlt⟩

theorem keeps_rdtsc_iff {n : Int} (h : k.Fits n) : (k.duration .rdtsc n).Keeps k ↔
    k.mode = .rdtsc ∨ n - 1 ≤ n * k.perMsec / nsecInMsec ∧ n * k.perMsec / nsecInMsec ≤ n := by
  by_cases hmode : k.mode = .rdtsc
  · have hsame := keeps_same hrate h
    rw [hmode] at hsame
    exact ⟨fun _ => Or.inl hmode, fun _ => hsame⟩
  have hclock : k.mode = .clock := by
    cases hm : k.mode with
    | rdtsc => exact absurd hm hmode
    | clock => rfl
  have hticks : (k.duration .rdtsc n).ticks = some (n * k.perMsec / nsecInMsec) :=
    h.nsec2ticks64 hrate .rdtsc
  have hread : ∀ v, k.ticks2nsec64 v = some v := by
    intro v
    rw [Ticks.ticks2nsec64, hclock]
  have hrateClock : k.rate = nsecInMsec := by rw [Ticks.rate, hclock]
  rw [or_iff_right hmode]
  constructor
  · rintro ⟨ticks, nsec, ht, hn, hle, hlt⟩
    obtain rfl : n * k.perMsec / nsecInMsec = ticks := Option.some.inj (hticks.symm.trans ht)
    obtain rfl : n * k.perMsec / nsecInMsec = nsec := Option.some.inj ((hread _).symm.trans hn)
    refine ⟨?_, hle⟩
    rw [hrateClock] at hlt
    change (n - n * k.perMsec / nsecInMsec) * nsecInMsec < _ at hlt
    unfold nsecInMsec at hlt ⊢
    omega
  · rintro ⟨hge, hle⟩
    refine ⟨_, _, hticks, hread _, hle, ?_⟩
    rw [hrateClock]
    change (n - n * k.perMsec / nsecInMsec) * nsecInMsec < _
    unfold nsecInMsec at hge ⊢
    omega

end Duration

section Trim
variable (k : Ticks) (hrate : nsecInMsec * k.perMsec ≤ int64Max)
include hrate

theorem Ticks.fits_msec : k.Fits nsecInMsec := by
  have hmsec : (1 : Int) ≤ nsecInMsec := by decide
  refine ⟨by decide, by decide, ?_⟩
  rw [Int.mul_ediv_cancel_left _ (by decide)]
  exact (le_mul_of_one_le_left k.pos.le hmsec).trans hrate

theorem Ticks.duration_msec : (k.duration .rdtsc nsecInMsec).ticks = some k.ticks1msec := by
  refine ((k.fits_msec hrate).nsec2ticks64 hrate .rdtsc).trans (congrArg some ?_)
  rw [k.ticks1msec_eq]
  exact Int.mul_ediv_cancel_left _ (by decide)

theorem trim_iff {st : Statistics} {first last : TicksTime} (hmode : st.mode = .timeBased)
    (hmsec : (k.duration .rdtsc nsecInMsec).ticks = some st.ticks1msec)
    (hfirst : st.times.getTxTime st.replyEvery = some first)
    (hlast : st.times.getTxTime st.sendCount = some last) :
    st.testStart = some (first + k.nsec2ticks (testStartWarmupMsec * nsecInMsec)) ∧
        st.testEnd = some (last - k.nsec2ticks (testEndCooldownMsec * nsecInMsec)) ↔
      k.mode = .rdtsc ∨ k.perMsec = nsecInMsec := by
  have hticks : st.ticks1msec = k.ticks1msec :=
    Option.some.inj (hmsec.symm.trans (k.duration_msec hrate))
  rw [testStart_timeBased k hmode hticks hfirst, testEnd_timeBased k hmode hticks hlast,
    k.nsec2ticks_msec, k.nsec2ticks_msec, Option.some.injEq, Option.some.injEq, add_right_inj,
    sub_right_inj, ← k.perMsec_eq_rate_iff]
  constructor
  · rintro ⟨hwarmup, -⟩
    exact mul_left_cancel₀ (by decide) hwarmup
  · intro heq
    rw [← heq]
    exact ⟨rfl, rfl⟩

end Trim

/-- What a duration means in the end depends on the mode at the time it was built. The constants and
the playback items are built too early, and so the statistics cut off what they should only if the
clock is the time stamp counter, or the counter as fast as a nanosecond clock. -/
theorem durations_keep_meaning (k : Ticks) (hrate : nsecInMsec * k.perMsec ≤ int64Max)
    (playback later : List Int) :
    (TicksBase.ofProgram k playback later).msMode = k.mode ∧
    (TicksBase.ofProgram k playback later).durations.map (fun d => (d.nsec, d.mode)) =
      (TicksBase.constants ++ playback).map (·, .rdtsc) ++ later.map (·, k.mode) ∧
    (∀ d ∈ (TicksBase.ofProgram k playback later).durations, k.Fits d.nsec →
      (d.Keeps k ↔ d.mode = k.mode ∨ d.nsec - 1 ≤ d.nsec * k.perMsec / nsecInMsec ∧
        d.nsec * k.perMsec / nsecInMsec ≤ d.nsec)) ∧
    ∀ (st : Statistics) (first last : TicksTime), st.mode = .timeBased →
      (k.duration .rdtsc nsecInMsec).ticks = some st.ticks1msec →
      st.times.getTxTime st.replyEvery = some first →
      st.times.getTxTime st.sendCount = some last →
      (st.testStart = some (first + k.nsec2ticks (testStartWarmupMsec * nsecInMsec)) ∧
          st.testEnd = some (last - k.nsec2ticks (testEndCooldownMsec * nsecInMsec)) ↔
        k.mode = .rdtsc ∨ k.perMsec = nsecInMsec) := by
  rw [TicksBase.ofProgram_eq]
  refine ⟨rfl, ?_, ?_, fun st first last => trim_iff k hrate⟩
  · rw [List.map_append, List.map_map, List.map_map]
    rfl
  · intro d hd hfits
    rcases List.mem_append.mp hd with hearly | hlate
    · obtain ⟨n, -, rfl⟩ := List.mem_map.mp hearly
      change k.Fits n at hfits
      rw [Duration.keeps_rdtsc_iff hrate hfits]
      exact or_congr_left eq_comm
    · obtain ⟨n, -, rfl⟩ := List.mem_map.mp hlate
      exact ⟨fun _ => Or.inl rfl, fun _ => Duration.keeps_same hrate hfits⟩

def threeGigahertz : Ticks := ⟨.clock, 3000000, by decide⟩

def slowClockRun : Statistics :=
  { Statistics.ofReplies onePerMsec [1, 5000000001] [2, 5000000002] with
    ticks1msec := threeGigahertz.ticks1msec }

/-- `TICKS1MSEC` is three milliseconds, and 1.2 seconds are cut off for the warm-up, 150
milliseconds for the cool-down. -/
theorem constants_misread :
    threeGigahertz.duration .rdtsc nsecInMsec ∈
      (TicksBase.ofProgram threeGigahertz [] []).durations ∧
    (threeGigahertz.duration .rdtsc nsecInMsec).ticks = some slowClockRun.ticks1msec ∧
    threeGigahertz.ticks2nsec64 slowClockRun.ticks1msec = some (3 * nsecInMsec) ∧
    ¬ (threeGigahertz.duration .rdtsc nsecInMsec).Keeps threeGigahertz ∧
    slowClockRun.testStart = some (1 + 1200 * nsecInMsec) ∧
    slowClockRun.testEnd = some (5000000001 - 150 * nsecInMsec) := by
  refine ⟨?_, by decide, by decide, ?_, by decide, by decide⟩
  · rw [TicksBase.ofProgram_eq]
    apply List.mem_append_left
    exact List.mem_map_of_mem (by decide)
  · rw [Duration.keeps_rdtsc_iff (by decide) (threeGigahertz.fits_msec (by decide))]
    decide

/-- A cycle duration of 100 microseconds, on the same machine. -/
theorem durations_keep_meaning_cycle :
    (threeGigahertz.duration .clock 100000).Keeps threeGigahertz := by
  have hbuilt := durations_keep_meaning threeGigahertz (by decide) [] [100000]
  apply (hbuilt.2.2.1 _ ?_ ⟨by decide, by decide, by decide⟩).mpr (Or.inl rfl)
  rw [TicksBase.ofProgram_eq]
  exact List.mem_append_right _ List.mem_cons_self

end Sockperf
