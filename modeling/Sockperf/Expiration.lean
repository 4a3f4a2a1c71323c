import Mathlib.Algebra.Order.Field.Rat
import Mathlib.Data.Rat.Floor
import Mathlib.Tactic.Linarith
import Mathlib.Tactic.FieldSimp
import Mathlib.Tactic.NormNum
import Sockperf.NumberLoop

/-!
# The expiration timer of a number based test

When the warm-up packets of a number based test are answered, the client estimates from them how
long the test will take and arms a timer that ends it. The timer gets whole seconds only, and half
of the estimate is added before the rest is cut off.
-/

namespace Sockperf

set_option autoImplicit false

/-- `waitingCap`, from the seconds the warm-up packets took. -/
def waitingCap (numberTarget : Nat) (sampleTime : ℚ) : ℚ :=
  3 / 2 * (sampleTime / testStartWarmupNum * stopCounting numberTarget)

/-- `it_value.tv_sec` of `set_client_expiration_timer`; a timer of zero seconds is disarmed. -/
def expirationTimer (numberTarget : Nat) (sampleTime : ℚ) : Int :=
  ⌊waitingCap numberTarget sampleTime⌋

section Timer
variable (target : Nat) (τ : ℚ)

/-- The seconds the timer gets when every packet takes `τ` seconds. -/
def steadyTimer : Int := expirationTimer target (testStartWarmupNum * τ)

def restOfRun : ℚ := (target + testEndCooldownNum : Nat) * τ

/-- More than a second is left, and the timer gets less than two. -/
def CutOff : Prop := 1 < restOfRun target τ ∧ 3 / 2 * τ * stopCounting target < 2

instance : Decidable (CutOff target τ) := inferInstanceAs (Decidable (_ ∧ _))

/-- The timer goes off before packet `k + 1` is answered. The first packet is sent at time zero,
and the timer is armed when the last of the warm-up packets is answered. -/
def Expires (k : Nat) : Prop :=
  steadyTimer target τ ≠ 0 ∧
    testStartWarmupNum * τ + steadyTimer target τ < (k + 1 : Nat) * τ

instance (k : Nat) : Decidable (Expires target τ k) := inferInstanceAs (Decidable (_ ∧ _))

theorem steadyTimer_eq : steadyTimer target τ = ⌊3 / 2 * τ * stopCounting target⌋ := by
  have hw : (testStartWarmupNum : ℚ) ≠ 0 := by norm_num [testStartWarmupNum]
  unfold steadyTimer expirationTimer waitingCap
  congr 1
  field_simp

variable {target τ} (hτ : 0 < τ)
include hτ

variable (target) in
theorem restOfRun_le : 3 / 2 * restOfRun target τ ≤ 3 / 2 * τ * stopCounting target := by
  have hle : ((target + testEndCooldownNum : Nat) : ℚ) ≤ (stopCounting target : ℚ) := by
    apply Nat.cast_le.mpr
    unfold stopCounting
    omega
  have hmul := mul_le_mul_of_nonneg_right hle hτ.le
  unfold restOfRun
  linarith

theorem timer_short_iff :
    steadyTimer target τ ≠ 0 ∧ (steadyTimer target τ : ℚ) < restOfRun target τ ↔
      CutOff target τ := by
  have hrest := restOfRun_le target hτ
  have hcap : 0 ≤ 3 / 2 * τ * (stopCounting target : ℚ) := by positivity
  have hfloor := Int.lt_floor_add_one (3 / 2 * τ * (stopCounting target : ℚ))
  have hnonneg := Int.floor_nonneg.mpr hcap
  rw [← steadyTimer_eq] at hfloor hnonneg
  constructor
  · rintro ⟨hne, hlt⟩
    have hone : 1 ≤ steadyTimer target τ := by omega
    have htwo : steadyTimer target τ < 2 := by
      have hreal : (steadyTimer target τ : ℚ) < 2 := by linarith
      exact_mod_cast hreal
    obtain heq : steadyTimer target τ = 1 := by omega
    rw [heq] at hlt hfloor
    push_cast at hlt hfloor
    exact ⟨hlt, by linarith⟩
  · rintro ⟨hlong, hshort⟩
    have hge : 1 ≤ steadyTimer target τ := by
      rw [steadyTimer_eq]
      apply Int.le_floor.mpr
      push_cast
      linarith
    have hlt : steadyTimer target τ < 2 := by
      rw [steadyTimer_eq]
      exact Int.floor_lt.mpr (by exact_mod_cast hshort)
    obtain heq : steadyTimer target τ = 1 := by omega
    rw [heq]
    exact ⟨by decide, by exact_mod_cast hlong⟩

theorem Expires.mono {j k : Nat} (hjk : j ≤ k) (h : Expires target τ j) : Expires target τ k := by
  have hle : ((j + 1 : Nat) : ℚ) * τ ≤ ((k + 1 : Nat) : ℚ) * τ := by
    apply mul_le_mul_of_nonneg_right _ hτ.le
    exact_mod_cast Nat.succ_le_succ hjk
  exact ⟨h.1, h.2.trans_le hle⟩

theorem exists_expires_iff :
    (∃ k, k < stopCounting target ∧ Expires target τ k) ↔ CutOff target τ := by
  have hstop : stopCounting target - 1 + 1 = stopCounting target := by
    unfold stopCounting testStartWarmupNum
    omega
  have hsplit : (stopCounting target : ℚ) * τ =
      testStartWarmupNum * τ + restOfRun target τ := by
    unfold stopCounting restOfRun
    push_cast
    ring
  rw [← timer_short_iff hτ]
  constructor
  · rintro ⟨k, hk, hexpires⟩
    obtain ⟨hne, hlt⟩ := hexpires.mono hτ (Nat.le_sub_one_of_lt hk)
    rw [hstop, hsplit] at hlt
    exact ⟨hne, by linarith⟩
  · rintro ⟨hne, hlt⟩
    refine ⟨stopCounting target - 1, by omega, hne, ?_⟩
    rw [hstop, hsplit]
    linarith

end Timer

/-! ## A run at a constant rate -/

/-- Turn `k` of a run without losses; nothing is received after the timer went off. -/
def Readings.steadyTurn (c : Readings) (target : Nat) (τ : ℚ) (k : Nat) : BurstTurn :=
  if Expires target τ k then ⟨c.sends (k * 1) 1, [], true⟩ else c.turn 1 k

section Run
variable (clt : Client) (p : UserParams) (target : Nat) (c : Readings) (length : UInt32)
  (payload : List UInt8) (τ : ℚ)

/-- The loop after `k` turns of a test in which every packet takes `τ` seconds. -/
def steadyRun (k : Nat) : NumberLoop :=
  NumberLoop.run clt target (.start (clt.initial length payload p.maxSequenceNo))
    ((List.range k).map (c.steadyTurn target τ))

/-- All packets of the test are counted. -/
def Completes : Prop :=
  ∃ k, (steadyRun clt p target c length payload τ k).counterValid = stopCounting target ∧
    (steadyRun clt p target c length payload τ k).client.exited = none

theorem steadyRun_succ (k : Nat) : steadyRun clt p target c length payload τ (k + 1) =
    if (steadyRun clt p target c length payload τ k).exit ||
        (steadyRun clt p target c length payload τ k).client.exited.isSome then
      steadyRun clt p target c length payload τ k
    else (steadyRun clt p target c length payload τ k).turn clt target
      (c.steadyTurn target τ k) := by
  rw [steadyRun, List.range_succ, List.map_append]
  exact NumberLoop.run_append _ _ _

variable {clt p target c length payload τ} (hone : p.burstSize = 1)
include hone

variable (clt c length payload) in
theorem steadyRun_before {k : Nat} (h : ∀ j, j < k → ¬ Expires target τ j) :
    steadyRun clt p target c length payload τ k = losslessRun clt p target c length payload k := by
  unfold steadyRun losslessRun
  rw [hone, Readings.turns]
  congr 1
  apply List.map_congr_left
  intro j hj
  exact if_neg (h j (List.mem_range.mp hj))

variable (c length payload) in
theorem losslessRun_counted (hping : clt.PingPong) (hmode : p.mode = .numberBased target)
    (htarget : target ≤ maxPacketNumber) {k : Nat} (hk : k ≤ stopCounting target) :
    NumberLoop.Lossless clt target c length p.maxSequenceNo p.burstSize k
      (losslessRun clt p target c length payload k) := by
  rcases losslessRun_spec c length payload hping hmode hone.ge k hk with ⟨-, h⟩ | ⟨hlt, -⟩
  · exact h
  · rw [hone, maxSequenceNo_numberBased hmode] at hlt
    unfold stopCounting testStartWarmupNum testEndCooldownNum at hk
    unfold maxPacketNumber at htarget
    omega

theorem NumberLoop.Lossless.expires {k : Nat} {s : NumberLoop} (hping : clt.PingPong)
    (hmode : p.mode = .numberBased target) (hk : k < 100009000)
    (h : NumberLoop.Lossless clt target c length p.maxSequenceNo p.burstSize k s)
    (hexpires : Expires target τ k) :
    (s.turn clt target (c.steadyTurn target τ k)).exit = true ∧
      (s.turn clt target (c.steadyTurn target τ k)).counterValid = k := by
  have hmax := maxSequenceNo_numberBased hmode
  have hclient := h.client
  rw [hone] at hclient
  have hsent := hclient.sendBurst (by omega) hping 1 _ _ (by omega)
  have hturn : c.steadyTurn target τ k = ⟨c.sends (k * 1) 1, [], true⟩ := if_pos hexpires
  have hburst : clt.sendThenReceive s.client ⟨c.sends (k * 1) 1, [], true⟩ =
      clt.sendBurst s.client (c.sends (k * 1) 1) := rfl
  rw [hturn]
  unfold NumberLoop.turn
  dsimp only
  rw [hburst, hsent.exited, hsent.receiveCount, h.seqNo, Nat.mul_one, if_neg (by decide),
    if_pos rfl]
  exact ⟨rfl, h.counterValid⟩

variable (c length payload) in
theorem steadyRun_cut (hping : clt.PingPong) (hmode : p.mode = .numberBased target)
    (htarget : target ≤ maxPacketNumber) {k : Nat} (hk : k < stopCounting target)
    (hfirst : ∀ j, j < k → ¬ Expires target τ j) (hexpires : Expires target τ k) (n : Nat) :
    (steadyRun clt p target c length payload τ (k + 1 + n)).exit = true ∧
      (steadyRun clt p target c length payload τ (k + 1 + n)).counterValid = k := by
  induction n with
  | zero =>
    have hless := losslessRun_counted c length payload hone hping hmode htarget hk.le
    have hlt : k < 100009000 := by
      unfold stopCounting testStartWarmupNum testEndCooldownNum at hk
      unfold maxPacketNumber at htarget
      omega
    rw [Nat.add_zero, steadyRun_succ, steadyRun_before clt c length payload hone hfirst, hless.exit,
      hless.client.exited, decide_eq_false hk.ne]
    exact hless.expires hone hping hmode hlt hexpires
  | succ n ih =>
    rw [← Nat.add_assoc, steadyRun_succ, ih.1]
    exact ih

theorem completes_iff (hping : clt.PingPong) (hmode : p.mode = .numberBased target)
    (htarget : target ≤ maxPacketNumber) (hτ : 0 < τ) :
    Completes clt p target c length payload τ ↔ ¬ CutOff target τ := by
  rw [← exists_expires_iff hτ]
  constructor
  · rintro ⟨n, hcounted, -⟩ ⟨k, hk, hexpires⟩
    -- the first packet the timer comes before
    have hex : ∃ j, Expires target τ j := ⟨k, hexpires⟩
    have hfirst := fun j hj => Nat.find_min hex (m := j) hj
    have hle : Nat.find hex ≤ k := Nat.find_min' hex hexpires
    have hcut := steadyRun_cut c length payload hone hping hmode htarget (hle.trans_lt hk) hfirst
      (Nat.find_spec hex)
    rcases Nat.lt_or_ge (Nat.find hex) n with hlt | hge
    · have hn := (hcut (n - (Nat.find hex + 1))).2
      rw [Nat.add_sub_cancel' hlt] at hn
      omega
    · have hbefore := steadyRun_before clt c length payload hone fun j hj =>
        hfirst j (Nat.lt_of_lt_of_le hj hge)
      have hless := losslessRun_counted c length payload hone hping hmode htarget
        (hge.trans (hle.trans hk.le))
      rw [hbefore, hless.counterValid] at hcounted
      omega
  · intro hnever
    have hbefore := steadyRun_before clt c length payload hone fun j hj hexpires =>
      hnever ⟨j, hj, hexpires⟩
    have hless := losslessRun_counted c length payload hone hping hmode htarget (Nat.le_refl _)
    refine ⟨stopCounting target, ?_, ?_⟩
    · rw [hbefore, hless.counterValid]
    · rw [hbefore, hless.client.exited]

end Run

/-- A run at the sampled rate is cut off exactly if more than a second of it is left when the timer
is armed, and the timer gets less than two. -/
theorem steady_run_completes (clt : Client) (hping : clt.PingPong) (p : UserParams) (target : Nat)
    (hmode : p.mode = .numberBased target) (htarget : target ≤ maxPacketNumber)
    (hone : p.burstSize = 1) (c : Readings) (length : UInt32) (payload : List UInt8) (τ : ℚ)
    (hτ : 0 < τ) :
    (Completes clt p target c length payload τ ↔ ¬ CutOff target τ) ∧
      (steadyTimer target τ = 0 ∨ restOfRun target τ ≤ steadyTimer target τ ↔
        ¬ CutOff target τ) := by
  refine ⟨completes_iff hone hping hmode htarget hτ, ?_⟩
  rw [← timer_short_iff hτ, not_and_or, not_not, not_lt]

def hundredThousand : UserParams := ⟨.numberBased 100000, 1, 1000, 1, 1, 1, 1⟩

/-- A packet takes a little more than 12 microseconds. The timer gets one second when 1.23 seconds
are left, and the test ends with 90000 of 109000 packets. -/
theorem steady_run_cut_off :
    steadyTimer 100000 (1 / 82000) = 1 ∧ restOfRun 100000 (1 / 82000) = 101 / 82 ∧
      (∀ n, (steadyRun pingPong hundredThousand 100000 alternating 14 [] (1 / 82000)
        (90001 + n)).exit = true ∧
        (steadyRun pingPong hundredThousand 100000 alternating 14 [] (1 / 82000)
          (90001 + n)).counterValid = 90000) ∧
      ¬ Completes pingPong hundredThousand 100000 alternating 14 [] (1 / 82000) := by
  have htimer : steadyTimer 100000 (1 / 82000) = 1 := by
    rw [steadyTimer_eq, Int.floor_eq_iff]
    norm_num [stopCounting, testStartWarmupNum, testEndCooldownNum]
  have hrest : restOfRun 100000 (1 / 82000) = 101 / 82 := by
    norm_num [restOfRun, testEndCooldownNum]
  have hexpires : ∀ k, Expires 100000 (1 / 82000) k ↔ 90000 ≤ k := by
    intro k
    unfold Expires
    rw [htimer, ← Nat.cast_le (α := ℚ), testStartWarmupNum]
    push_cast
    constructor
    · rintro ⟨-, hlt⟩
      have hcast : (90000 : ℚ) < (k + 1 : Nat) := by
        push_cast
        linarith
      exact_mod_cast Nat.le_of_lt_succ (by exact_mod_cast hcast)
    · intro hle
      exact ⟨by decide, by linarith⟩
  have hcut : CutOff 100000 (1 / 82000) := by
    rw [← timer_short_iff (by norm_num), htimer, hrest]
    norm_num
  refine ⟨htimer, hrest, ?_, ?_⟩
  · apply steadyRun_cut alternating 14 [] rfl pingPong_pingPong rfl (by decide) (by decide)
    · intro j hj
      rw [hexpires]
      exact Nat.not_le_of_lt hj
    · exact (hexpires _).mpr (Nat.le_refl _)
  · rw [completes_iff rfl pingPong_pingPong rfl (by decide) (by norm_num), not_not]
    exact hcut

/-- At a packet per millisecond the timer gets 13 seconds, and one is left. -/
theorem steady_run_completes_one :
    Completes pingPong onePacketByOne 1 alternating 14 [] (1 / 1000) := by
  apply (steady_run_completes pingPong pingPong_pingPong onePacketByOne 1 rfl (by decide) rfl
    alternating 14 [] (1 / 1000) (by norm_num)).1.mpr
  rintro ⟨-, hshort⟩
  norm_num [stopCounting, testStartWarmupNum, testEndCooldownNum] at hshort

end Sockperf
