import Mathlib.Data.List.TakeWhile
import Sockperf.Expiration

/-!
# How many packets a number based test sends

The loop of a number based test counts one packet per burst, and it ends early when the timer it
armed behind the warm-up goes off. So a test without losses sends what was asked for if a burst is
one packet and the timer leaves time for all of them.
-/

namespace Sockperf

set_option autoImplicit false

/-- The clock in a test without losses, in which a burst is answered before the next one is sent.
The timer is armed when the last of the warm-up bursts has been answered. -/
structure TestClock (b : Nat) extends Readings where
  /-- ticks in a second -/
  perSec : Int
  /-- `endSampling` -/
  armed : TicksTime
  perSec_pos : 0 < perSec
  answered : ∀ k, tx ((k + 1) * b) ≤ rx (k * b + 1)
  next : ∀ k, rx ((k + 1) * b) ≤ tx ((k + 1) * b + 1)
  armed_after : rx (testStartWarmupNum * b) ≤ armed
  armed_before : armed ≤ tx (testStartWarmupNum * b + 1)

namespace TestClock
variable {b : Nat} (c : TestClock b) (target : Nat)

/-- The seconds that `set_client_expiration_timer` gives to the timer. -/
def timer : Int := expirationTimer target ((c.armed - c.tx 1 : Int) / (c.perSec : ℚ))

/-- The time at which `client_sig_handler` sets `g_b_exit`; a timer of zero seconds is disarmed. -/
def deadline : Option TicksTime :=
  if c.timer target = 0 then none else some (c.armed + c.timer target * c.perSec)

/-- `g_b_exit` is not set at this time. -/
def inTime (now : TicksTime) : Bool := (c.deadline target).all (now ≤ ·)

/-- Turn `k` of the loop: the sends and replies up to the deadline. The loop is left before the next
burst if the deadline is over by then. -/
def turn (k : Nat) : BurstTurn where
  sends := (c.sends (k * b) b).takeWhile (c.inTime target)
  replies := (c.replies (k * b) b).takeWhile fun r => c.inTime target r.now
  expired := !c.inTime target (c.tx ((k + 1) * b + 1))

theorem turn_sends_prefix (k : Nat) : (c.turn target k).sends <+: c.sends (k * b) b :=
  List.takeWhile_prefix _

variable {c target}

theorem inTime.mono {t t' : TicksTime} (hle : t ≤ t') (h : c.inTime target t' = true) :
    c.inTime target t = true := by
  unfold inTime at h ⊢
  cases hd : c.deadline target with
  | none => rfl
  | some d =>
    rw [hd, Option.all_some, decide_eq_true_iff] at h
    rw [Option.all_some, decide_eq_true_iff]
    exact hle.trans h

section Turn
variable (hb : 1 ≤ b) {k : Nat}
include hb

theorem turn_of_inTime (h : c.inTime target (c.rx ((k + 1) * b)) = true) :
    c.turn target k = { c.toReadings.turn b k with
      expired := !c.inTime target (c.tx ((k + 1) * b + 1)) } := by
  have hmul : (k + 1) * b = k * b + b := Nat.succ_mul k b
  have hsends : (c.sends (k * b) b).takeWhile (c.inTime target) = c.sends (k * b) b := by
    rw [List.takeWhile_eq_self_iff]
    intro x hx
    obtain ⟨i, hi, rfl⟩ := List.mem_map.mp hx
    have hib := List.mem_range.mp hi
    have htx : c.tx (k * b + i + 1) ≤ c.tx ((k + 1) * b) := c.tx_mono (by omega)
    have hrx : c.rx (k * b + 1) ≤ c.rx ((k + 1) * b) := c.rx_mono (by omega)
    exact inTime.mono (htx.trans ((c.answered k).trans hrx)) h
  have hreplies : (c.replies (k * b) b).takeWhile (fun r => c.inTime target r.now) =
      c.replies (k * b) b := by
    rw [List.takeWhile_eq_self_iff]
    intro r hr
    obtain ⟨i, hi, rfl⟩ := List.mem_map.mp hr
    have hib := List.mem_range.mp hi
    have hrx : c.rx (k * b + i + 1) ≤ c.rx ((k + 1) * b) := c.rx_mono (by omega)
    exact inTime.mono hrx h
  rw [turn, hsends, hreplies, Readings.turn]

theorem inTime_of_replies (h : b ≤ (c.turn target k).replies.length) :
    c.inTime target (c.rx ((k + 1) * b)) = true := by
  have hmul : (k + 1) * b = k * b + (b - 1) + 1 := by
    rw [Nat.succ_mul]
    omega
  have hlen : (c.replies (k * b) b).length = b := by simp [Readings.replies]
  have hall : (c.replies (k * b) b).takeWhile (fun r => c.inTime target r.now) =
      c.replies (k * b) b :=
    (List.takeWhile_prefix _).eq_of_length_le (by rw [hlen]; exact h)
  have hlast : (⟨UInt64.ofNat (k * b + (b - 1) + 1), c.rx (k * b + (b - 1) + 1)⟩ : Reply) ∈
      c.replies (k * b) b := List.mem_map.mpr ⟨b - 1, List.mem_range.mpr (by omega), rfl⟩
  rw [hmul]
  exact (List.takeWhile_eq_self_iff (l := c.replies (k * b) b)).mp hall _ hlast

end Turn

end TestClock

/-! ## The signal in a turn -/

namespace NumberLoop
variable {clt : Client} {target : Nat} (s : NumberLoop)

theorem validate_exit : ({ s with exit := true } : NumberLoop).validate target =
    { ({ s with exit := false } : NumberLoop).validate target with exit := true } := by
  unfold validate
  dsimp only
  -- what the packet table says does not depend on the flag
  generalize (if s.seqNo = 0 then s.client.times.getTxTime 1 else some s.testStart) = first
  generalize s.client.times.getTxTime (s.seqNo + 1) = txTime
  generalize s.client.times.getRxTimeArray (s.seqNo + 1) = rxTimes
  match first, txTime, rxTimes with
  | some _, some _, some _ =>
    dsimp only
    split
    · rfl
    · split <;> rfl
  | none, _, _ => rfl
  | some _, none, _ => rfl
  | some _, some _, none => rfl

theorem turn_expired (t : BurstTurn) : s.turn clt target { t with expired := true } =
    { s.turn clt target { t with expired := false } with exit := true } := by
  have hsame : ∀ e, clt.sendThenReceive s.client { t with expired := e } =
      clt.sendThenReceive s.client t := fun _ => rfl
  unfold turn
  simp only [hsame]
  split
  · rfl
  · split
    · rfl
    · exact validate_exit { s with client := clt.sendThenReceive s.client t }

theorem turn_exit_of_expired {t : BurstTurn} (h : t.expired = true) :
    (s.turn clt target t).exit = true := by
  have ht : t = { t with expired := true } := by rw [← h]
  rw [ht, turn_expired]

theorem turn_receiveCount (t : BurstTurn) : (s.turn clt target t).client.receiveCount =
    (clt.sendThenReceive s.client t).receiveCount := by
  unfold turn
  dsimp only
  split
  · rfl
  · split
    · rfl
    · unfold validate
      dsimp only
      split
      · split
        · rfl
        · split <;> rfl
      · rfl

variable {s} in
theorem Lossless.goesOn {c : Readings} {length : UInt32} {max b k : Nat}
    (h : Lossless clt target c length max b k s) (hk : k < stopCounting target) :
    (s.exit || s.client.exited.isSome) = false := by
  rw [h.exit, h.client.exited, decide_eq_false hk.ne]
  rfl

end NumberLoop

theorem Client.Answered.sendBurst_receiveCount {clt : Client} {c : Readings} {length : UInt32}
    {max n m b : Nat} {s : ClientState} {sends : List TicksTime}
    (h : clt.Answered c length max n m s) (hmax : max + 1 < 2 ^ 64) (hping : clt.PingPong)
    (hpre : sends <+: c.sends n b) (hfit : n + b ≤ max) :
    (clt.sendBurst s sends).receiveCount = m := by
  have hlen : (c.sends n b).length = b := by simp [Readings.sends]
  have hle : sends.length ≤ b := hlen ▸ hpre.length_le
  have htake : sends = c.sends n sends.length := by
    rw [List.prefix_iff_eq_take.mp hpre, Readings.sends, ← List.map_take, List.take_range,
      List.length_map, List.length_range, Nat.min_eq_left (by simpa using hle)]
    rfl
  rw [htake]
  exact (h.sendBurst hmax hping _ n s (by omega)).receiveCount

theorem Client.handleReply_count (s : ClientState) (r : Reply) :
    (handleReply s r).receiveCount ≤ s.receiveCount + 1 := by
  unfold handleReply
  split
  · exact Nat.le_succ _
  · split
    · exact Nat.le_succ _
    · next counted _ =>
      dsimp only
      split <;> omega

theorem Client.receiveBurst_count (replies : List Reply) : ∀ s : ClientState,
    (receiveBurst s replies).receiveCount ≤ s.receiveCount + replies.length := by
  induction replies with
  | nil => exact fun s => le_rfl
  | cons r rest ih =>
    intro s
    cases hexit : s.exited with
    | some e =>
      rw [receiveBurst_exited (by rw [hexit]; rfl)]
      exact Nat.le_add_right _ _
    | none =>
      rw [receiveBurst_cons hexit, List.length_cons]
      have hrest := ih (handleReply s r)
      have hone := handleReply_count s r
      omega

/-! ## The run with its timer -/

section Run
variable (clt : Client) (p : UserParams) (target : Nat) (c : TestClock p.burstSize)
  (length : UInt32) (payload : List UInt8)

/-- The loop after `k` turns of a test in which every reply arrives, with what `bringup` sets up. -/
def timedRun (k : Nat) : NumberLoop :=
  NumberLoop.run clt target (.start (clt.initial length payload p.maxSequenceNo))
    ((List.range k).map (c.turn target))

/-- The test ends with burst `k`, the first whole one by which enough packets were sent and
answered, and stays inside the table. -/
structure EndsAt (k : Nat) : Prop where
  exit : (timedRun clt p target c length payload k).exit = true
  sent : (timedRun clt p target c length payload k).client.request.sequenceNumber.toNat =
    k * p.burstSize
  answered : (timedRun clt p target c length payload k).client.receiveCount = k * p.burstSize
  enough : stopCounting target ≤ k * p.burstSize
  first : ∀ j, j < k → ¬ (timedRun clt p target c length payload j).Enough target
  up : ∀ j, j ≤ k → (timedRun clt p target c length payload j).client.exited = none
  inside : ∀ j, j ≤ k → (timedRun clt p target c length payload
    j).client.request.sequenceNumber.toNat ≤ p.maxSequenceNo

/-- The test sends what was asked for. -/
def EndsWhenAsked : Prop := ∃ k, EndsAt clt p target c length payload k

def burstsAsked : Nat := (stopCounting target + p.burstSize - 1) / p.burstSize

theorem timedRun_succ (k : Nat) : timedRun clt p target c length payload (k + 1) =
    if (timedRun clt p target c length payload k).exit ||
        (timedRun clt p target c length payload k).client.exited.isSome then
      timedRun clt p target c length payload k
    else (timedRun clt p target c length payload k).turn clt target (c.turn target k) := by
  rw [timedRun, List.range_succ, List.map_append]
  exact NumberLoop.run_append _ _ _

variable {clt p target c length payload}

theorem timedRun_of_exit {k : Nat} (h : (timedRun clt p target c length payload k).exit = true)
    {n : Nat} (hle : k ≤ n) :
    timedRun clt p target c length payload n = timedRun clt p target c length payload k := by
  induction n, hle using Nat.le_induction with
  | base => rfl
  | succ n _ ih =>
    rw [timedRun_succ, ih, h]
    rfl

theorem timedRun_exit {k : Nat}
    (hup : (timedRun clt p target c length payload k).client.exited = none)
    (h : c.inTime target (c.tx ((k + 1) * p.burstSize + 1)) = false) :
    (timedRun clt p target c length payload (k + 1)).exit = true := by
  rw [timedRun_succ]
  cases hexit : (timedRun clt p target c length payload k).exit with
  | true => exact hexit
  | false =>
    rw [hup]
    exact NumberLoop.turn_exit_of_expired _ (by rw [TestClock.turn, h]; rfl)

section Bursts
variable (hb : 1 ≤ p.burstSize)
include hb

variable (target) in
theorem burstsAsked_le_iff {j : Nat} :
    burstsAsked p target ≤ j ↔ stopCounting target ≤ j * p.burstSize := by
  rw [burstsAsked, Nat.div_le_iff_le_mul_add_pred hb, Nat.mul_comm]
  omega

variable (target) in
theorem burstsAsked_le_stopCounting : burstsAsked p target ≤ stopCounting target := by
  rw [burstsAsked_le_iff _ hb]
  exact Nat.le_mul_of_pos_right _ hb

variable (target) in
theorem burstsAsked_pos : 0 < burstsAsked p target := by
  by_contra hzero
  have hle := (burstsAsked_le_iff target hb).mp (Nat.le_of_not_lt hzero)
  unfold stopCounting testStartWarmupNum at hle
  omega

theorem one_of_burstsAsked (h : burstsAsked p target = stopCounting target) : p.burstSize = 1 := by
  have htwo : 2 ≤ stopCounting target := by
    unfold stopCounting testStartWarmupNum
    omega
  obtain ⟨j, hj⟩ : ∃ j, stopCounting target = j + 1 := ⟨stopCounting target - 1, by omega⟩
  have hnot : ¬ stopCounting target ≤ j * p.burstSize := by
    rw [← burstsAsked_le_iff _ hb]
    omega
  by_contra hne
  have hmul : j * 2 ≤ j * p.burstSize := Nat.mul_le_mul_left j (by omega)
  omega

theorem timedRun_before {k : Nat}
    (h : ∀ j, j < k → c.inTime target (c.tx ((j + 1) * p.burstSize + 1)) = true) :
    timedRun clt p target c length payload k =
      losslessRun clt p target c.toReadings length payload k := by
  unfold timedRun losslessRun Readings.turns
  congr 1
  apply List.map_congr_left
  intro j hj
  have hnext := h j (List.mem_range.mp hj)
  rw [TestClock.turn_of_inTime hb (TestClock.inTime.mono (c.next j) hnext), hnext]
  rfl

theorem timedRun_before_last {k j : Nat}
    (htime : c.inTime target (c.rx ((k + 1) * p.burstSize)) = true) (hj : j ≤ k) :
    timedRun clt p target c length payload j =
      losslessRun clt p target c.toReadings length payload j := by
  refine timedRun_before hb fun i hi => TestClock.inTime.mono ?_ htime
  have hburst : (i + 1) * p.burstSize + 1 ≤ (k + 1) * p.burstSize := by
    have := Nat.mul_le_mul_right p.burstSize (show i + 1 ≤ k by omega)
    rw [Nat.succ_mul k]
    omega
  have hfirst : c.rx (k * p.burstSize + 1) ≤ c.rx ((k + 1) * p.burstSize) :=
    c.rx_mono (by rw [Nat.succ_mul]; omega)
  exact (c.tx_mono hburst).trans ((c.answered k).trans hfirst)

variable (hping : clt.PingPong) (hmode : p.mode = .numberBased target)
include hping hmode

variable (c length payload) in
theorem losslessRun_of_up {k : Nat} (hk : k ≤ stopCounting target)
    (hup : (losslessRun clt p target c.toReadings length payload k).client.exited = none) :
    k * p.burstSize ≤ p.maxSequenceNo ∧ NumberLoop.Lossless clt target c.toReadings length
      p.maxSequenceNo p.burstSize k (losslessRun clt p target c.toReadings length payload k) := by
  rcases losslessRun_spec c.toReadings length payload hping hmode hb k hk with h | ⟨-, hexited⟩
  · exact h
  · rw [hup] at hexited
    cases hexited

variable (c length payload) in
theorem losslessRun_of_fits {k : Nat} (hk : k ≤ stopCounting target)
    (hfit : k * p.burstSize ≤ p.maxSequenceNo) : NumberLoop.Lossless clt target c.toReadings length
      p.maxSequenceNo p.burstSize k (losslessRun clt p target c.toReadings length payload k) := by
  rcases losslessRun_spec c.toReadings length payload hping hmode hb k hk with ⟨-, h⟩ | ⟨hlt, -⟩
  · exact h
  · omega

theorem timedRun_last {k : Nat} (hk : k + 1 ≤ stopCounting target)
    (hasked : stopCounting target ≤ (k + 1) * p.burstSize)
    (hfit : (k + 1) * p.burstSize ≤ p.maxSequenceNo)
    (htime : c.inTime target (c.rx ((k + 1) * p.burstSize)) = true)
    (hend : p.burstSize = 1 ∨ c.inTime target (c.tx ((k + 1) * p.burstSize + 1)) = false) :
    timedRun clt p target c length payload (k + 1) =
      { losslessRun clt p target c.toReadings length payload (k + 1) with exit := true } := by
  have hless := losslessRun_of_fits c length payload hb hping hmode (show k ≤ _ by omega)
    ((Nat.mul_le_mul_right _ k.le_succ).trans hfit)
  have hgoes := hless.goesOn hk
  rw [timedRun_succ, losslessRun_succ, timedRun_before_last hb htime le_rfl, hgoes,
    TestClock.turn_of_inTime hb htime]
  cases hnext : c.inTime target (c.tx ((k + 1) * p.burstSize + 1)) with
  | false => exact NumberLoop.turn_expired _ (c.toReadings.turn p.burstSize k)
  | true =>
    -- a burst is a packet, so the loop has counted all of them
    have hone : p.burstSize = 1 := hend.resolve_right (by rw [hnext]; exact Bool.noConfusion)
    have hexit := (losslessRun_of_fits c length payload hb hping hmode hk hfit).exit
    rw [losslessRun_succ, hgoes] at hexit
    rw [hone, Nat.mul_one] at hasked
    rw [decide_eq_true (by omega)] at hexit
    exact congrArg (fun e => { NumberLoop.turn clt target _ _ with exit := e }) hexit

theorem endsWhenAsked_of_inTime
    (hfit : burstsAsked p target * p.burstSize ≤ p.maxSequenceNo)
    (htime : c.inTime target (c.rx (burstsAsked p target * p.burstSize)) = true)
    (hend : p.burstSize = 1 ∨
      c.inTime target (c.tx (burstsAsked p target * p.burstSize + 1)) = false) :
    EndsWhenAsked clt p target c length payload := by
  have hmax : p.maxSequenceNo < 2 ^ 64 := by
    rw [maxSequenceNo_numberBased hmode]
    decide
  have hstop := burstsAsked_le_stopCounting target hb
  have hasked : stopCounting target ≤ burstsAsked p target * p.burstSize :=
    (burstsAsked_le_iff _ hb).mp le_rfl
  obtain ⟨k, hk⟩ : ∃ k, burstsAsked p target = k + 1 :=
    ⟨burstsAsked p target - 1, by have := burstsAsked_pos target hb; omega⟩
  have hless : ∀ j, j ≤ k + 1 → j * p.burstSize ≤ p.maxSequenceNo ∧
      NumberLoop.Lossless clt target c.toReadings length p.maxSequenceNo p.burstSize j
        (losslessRun clt p target c.toReadings length payload j) := by
    intro j hj
    have hle : j * p.burstSize ≤ p.maxSequenceNo :=
      (Nat.mul_le_mul_right _ (by omega)).trans hfit
    exact ⟨hle, losslessRun_of_fits c length payload hb hping hmode (by omega) hle⟩
  rw [hk] at hfit htime hend hasked
  -- up to the last burst the timer makes no difference
  have hbefore : ∀ j, j ≤ k → timedRun clt p target c length payload j =
      losslessRun clt p target c.toReadings length payload j := fun j =>
    timedRun_before_last hb htime
  have hlast : timedRun clt p target c length payload (k + 1) =
      { losslessRun clt p target c.toReadings length payload (k + 1) with exit := true } :=
    timedRun_last hb hping hmode (by omega) hasked hfit htime hend
  have hclient : ∀ j, j ≤ k + 1 → (timedRun clt p target c length payload j).client =
      (losslessRun clt p target c.toReadings length payload j).client := by
    intro j hj
    rcases Nat.lt_or_eq_of_le hj with hlt | rfl
    · rw [hbefore j (by omega)]
    · rw [hlast]
  refine ⟨k + 1, by rw [hlast], ?_, ?_, hasked, fun j hj => ?_, fun j hj => ?_, fun j hj => ?_⟩
  · rw [hclient _ le_rfl]
    exact (hless _ le_rfl).2.sequenceNumber hmax hfit
  · rw [hclient _ le_rfl]
    exact (hless _ le_rfl).2.client.receiveCount
  · rw [hbefore j (by omega), (hless j (by omega)).2.enough_iff hmax (hless j (by omega)).1,
      ← burstsAsked_le_iff _ hb]
    omega
  · rw [hclient j hj]
    exact (hless j hj).2.client.exited
  · rw [hclient j hj, (hless j hj).2.sequenceNumber hmax (hless j hj).1]
    exact (hless j hj).1

section End
variable {k : Nat} (h : EndsAt clt p target c length payload k)
include h

theorem EndsAt.early {j : Nat} (hj : j < k) (hle : j ≤ stopCounting target)
    (heq : timedRun clt p target c length payload j =
      losslessRun clt p target c.toReadings length payload j) : j < burstsAsked p target := by
  have hmax : p.maxSequenceNo < 2 ^ 64 := by
    rw [maxSequenceNo_numberBased hmode]
    decide
  have hup := h.up j hj.le
  rw [heq] at hup
  obtain ⟨hfit, hless⟩ := losslessRun_of_up c length payload hb hping hmode hle hup
  have hnot := h.first j hj
  rwa [heq, hless.enough_iff hmax hfit, ← burstsAsked_le_iff _ hb, Nat.not_le] at hnot

theorem EndsAt.undisturbed
    (hnever : ∀ j, j < k → c.inTime target (c.tx ((j + 1) * p.burstSize + 1)) = true) :
    burstsAsked p target = k ∧ p.burstSize = 1 := by
  have hbefore : ∀ j, j ≤ k → timedRun clt p target c length payload j =
      losslessRun clt p target c.toReadings length payload j := fun j hj =>
    timedRun_before hb fun i hi => hnever i (Nat.lt_of_lt_of_le hi hj)
  have hbursts : burstsAsked p target ≤ k := (burstsAsked_le_iff _ hb).mpr h.enough
  have hstop := burstsAsked_le_stopCounting target hb
  have hle : k ≤ stopCounting target := by
    by_contra hlt
    have := h.early hb hping hmode (Nat.lt_of_not_le hlt) le_rfl (hbefore _ (Nat.le_of_not_le hlt))
    omega
  have hexit := h.exit
  have hup := h.up k le_rfl
  rw [hbefore k le_rfl] at hexit hup
  obtain ⟨-, hless⟩ := losslessRun_of_up c length payload hb hping hmode hle hup
  rw [hless.exit, decide_eq_true_iff] at hexit
  have hk : burstsAsked p target = k := by
    by_contra hne
    have hlt : burstsAsked p target < k := Nat.lt_of_le_of_ne hbursts hne
    exact Nat.lt_irrefl _ (h.early hb hping hmode hlt hstop (hbefore _ hlt.le))
  exact ⟨hk, one_of_burstsAsked hb (hk.trans hexit)⟩

theorem EndsAt.cut {q : Nat} (hqk : q < k)
    (hnever : ∀ j, j < q → c.inTime target (c.tx ((j + 1) * p.burstSize + 1)) = true)
    (hcut : c.inTime target (c.tx ((q + 1) * p.burstSize + 1)) = false) :
    burstsAsked p target = k ∧ k = q + 1 ∧
      c.inTime target (c.rx ((q + 1) * p.burstSize)) = true := by
  have hbefore : ∀ j, j ≤ q → timedRun clt p target c length payload j =
      losslessRun clt p target c.toReadings length payload j := fun j hj =>
    timedRun_before hb fun i hi => hnever i (Nat.lt_of_lt_of_le hi hj)
  have hbursts : burstsAsked p target ≤ k := (burstsAsked_le_iff _ hb).mpr h.enough
  have hstop := burstsAsked_le_stopCounting target hb
  have hq : q < stopCounting target := by
    by_contra hge
    have := h.early hb hping hmode (Nat.lt_of_le_of_lt (Nat.le_of_not_lt hge) hqk) le_rfl
      (hbefore _ (Nat.le_of_not_lt hge))
    omega
  have hlast := timedRun_exit (h.up q hqk.le) hcut
  have hk : k = q + 1 := by
    by_contra hne
    refine h.first (q + 1) (by omega) ?_
    rw [← timedRun_of_exit hlast (Nat.succ_le_of_lt hqk), NumberLoop.Enough, h.sent, h.answered]
    exact ⟨h.enough, h.enough⟩
  have hearly := h.early hb hping hmode hqk hq.le (hbefore q le_rfl)
  refine ⟨by omega, hk, TestClock.inTime_of_replies hb ?_⟩
  subst hk
  have hup := h.up q hqk.le
  have hcount := h.answered
  have hfit : (q + 1) * p.burstSize ≤ p.maxSequenceNo := h.sent ▸ h.inside (q + 1) le_rfl
  rw [hbefore q le_rfl] at hup
  obtain ⟨-, hless⟩ := losslessRun_of_up c length payload hb hping hmode hq.le hup
  rw [timedRun_succ, hbefore q le_rfl, hless.goesOn hq, if_neg Bool.false_ne_true,
    NumberLoop.turn_receiveCount, Client.sendThenReceive] at hcount
  have hmax : p.maxSequenceNo + 1 < 2 ^ 64 := by
    rw [maxSequenceNo_numberBased hmode]
    decide
  have hmul : (q + 1) * p.burstSize = q * p.burstSize + p.burstSize := Nat.succ_mul _ _
  -- a burst counts no more packets than it gets replies
  have hreceived := Client.receiveBurst_count (c.turn target q).replies
    (clt.sendBurst (losslessRun clt p target c.toReadings length payload q).client
      (c.turn target q).sends)
  rw [hless.client.sendBurst_receiveCount hmax hping (c.turn_sends_prefix target q)
    (by omega)] at hreceived
  omega

end End

theorem inTime_of_endsWhenAsked (h : EndsWhenAsked clt p target c length payload) :
    burstsAsked p target * p.burstSize ≤ p.maxSequenceNo ∧
      c.inTime target (c.rx (burstsAsked p target * p.burstSize)) = true ∧
      (p.burstSize = 1 ∨
        c.inTime target (c.tx (burstsAsked p target * p.burstSize + 1)) = false) := by
  obtain ⟨k, h⟩ := h
  have hfit : k * p.burstSize ≤ p.maxSequenceNo := h.sent ▸ h.inside k le_rfl
  by_cases hnever : ∀ j, j < k → c.inTime target (c.tx ((j + 1) * p.burstSize + 1)) = true
  · obtain ⟨hk, hone⟩ := h.undisturbed hb hping hmode hnever
    obtain ⟨i, hi⟩ : ∃ i, k = i + 1 :=
      ⟨k - 1, by have := burstsAsked_pos target hb; omega⟩
    rw [hk]
    refine ⟨hfit, ?_, Or.inl hone⟩
    rw [hi]
    exact TestClock.inTime.mono (c.next i) (hnever i (by omega))
  · -- the first burst that the deadline ends
    have hex : ∃ j, j < k ∧ c.inTime target (c.tx ((j + 1) * p.burstSize + 1)) = false := by
      simpa using hnever
    obtain ⟨hqk, hcut⟩ := Nat.find_spec hex
    have hleast : ∀ j, j < Nat.find hex →
        c.inTime target (c.tx ((j + 1) * p.burstSize + 1)) = true := by
      intro j hj
      have hmin := Nat.find_min hex hj
      simp only [not_and, Bool.not_eq_false] at hmin
      exact hmin (by omega)
    obtain ⟨hk, hq, htime⟩ := h.cut hb hping hmode hqk hleast hcut
    rw [hk]
    refine ⟨hfit, ?_, Or.inr ?_⟩
    · rwa [← hq] at htime
    · rwa [← hq] at hcut

end Bursts

end Run

section Evenly
variable {b : Nat}

def burstOf (b i : Nat) : Nat := (i - 1) / b

theorem burstOf_mono (b : Nat) : Monotone (burstOf b) := fun _ _ hij =>
  Nat.div_le_div_right (Nat.sub_le_sub_right hij 1)

theorem burstOf_first (hb : 0 < b) (k : Nat) : burstOf b (k * b + 1) = k := by
  rw [burstOf, Nat.add_sub_cancel, Nat.mul_div_cancel _ hb]

theorem burstOf_last (hb : 0 < b) (k : Nat) : burstOf b ((k + 1) * b) = k := by
  rw [burstOf, Nat.succ_mul, Nat.add_sub_assoc hb, Nat.mul_comm, Nat.mul_add_div hb,
    Nat.div_eq_of_lt (Nat.sub_lt hb Nat.one_pos), Nat.add_zero]

theorem evenly_pos (b i : Nat) :
    0 < 2 * (burstOf b i : Int) + 1 ∧ 0 < 2 * (burstOf b i : Int) + 2 := by
  omega

theorem evenly_mono (b : Nat) (d : Int) : Monotone fun i => 2 * (burstOf b i : Int) + d := by
  intro i j hij
  have := burstOf_mono b hij
  dsimp only
  omega

theorem evenly_answered (hb : 0 < b) (k : Nat) :
    2 * (burstOf b ((k + 1) * b) : Int) + 1 ≤ 2 * burstOf b (k * b + 1) + 2 := by
  rw [burstOf_last hb, burstOf_first hb]
  omega

theorem evenly_next (hb : 0 < b) (k : Nat) :
    2 * (burstOf b ((k + 1) * b) : Int) + 2 ≤ 2 * burstOf b ((k + 1) * b + 1) + 1 := by
  rw [burstOf_last hb, burstOf_first hb]
  omega

theorem evenly_armed (hb : 0 < b) :
    2 * (burstOf b (testStartWarmupNum * b) : Int) + 2 ≤ 2 * testStartWarmupNum ∧
      2 * (testStartWarmupNum : Int) ≤ 2 * burstOf b (testStartWarmupNum * b + 1) + 1 := by
  rw [burstOf_first hb, testStartWarmupNum, burstOf_last hb 7999]
  omega

/-- A burst is sent at an odd time and answered at the next even one. -/
def evenly (b : Nat) (hb : 0 < b) (perSec : Int) (hpos : 0 < perSec) : TestClock b where
  tx i := 2 * burstOf b i + 1
  rx i := 2 * burstOf b i + 2
  tx_pos i := (evenly_pos b i).1
  rx_pos i := (evenly_pos b i).2
  tx_mono := evenly_mono b 1
  rx_mono := evenly_mono b 2
  perSec := perSec
  armed := 2 * testStartWarmupNum
  perSec_pos := hpos
  answered := evenly_answered hb
  next := evenly_next hb
  armed_after := (evenly_armed hb).1
  armed_before := (evenly_armed hb).2

end Evenly

theorem evenly_deadline (b : Nat) (hb : 0 < b) :
    (evenly b hb 1000 (by decide)).deadline 1 = some 43000 := by
  have htimer : (evenly b hb 1000 (by decide)).timer 1 = 27 := by
    have hfirst : (evenly b hb 1000 (by decide)).tx 1 = 1 := by
      show (2 * ((1 - 1) / b : Nat) + 1 : Int) = 1
      rw [Nat.sub_self, Nat.zero_div]
      rfl
    rw [TestClock.timer, hfirst, expirationTimer, waitingCap, Int.floor_eq_iff]
    norm_num [evenly, stopCounting, testStartWarmupNum, testEndCooldownNum]
  rw [TestClock.deadline, htimer, if_neg (by decide)]
  rfl

def onePacketByTwo : UserParams := ⟨.numberBased 1, 1, 1000, 2, 1, 1, 1⟩

def slowByTwo : TestClock onePacketByTwo.burstSize := evenly 2 (by decide) 1000 (by decide)

theorem slowByTwo_deadline : slowByTwo.deadline 1 = some 43000 := evenly_deadline 2 _

def fastByOne : TestClock hundredThousand.burstSize := evenly 1 (by decide) 164000 (by decide)

theorem fastByOne_deadline : fastByOne.deadline 100000 = some 180000 := by
  have htimer : fastByOne.timer 100000 = 1 := by
    have hfirst : fastByOne.tx 1 = 1 := rfl
    rw [TestClock.timer, hfirst, expirationTimer, waitingCap, Int.floor_eq_iff]
    norm_num [fastByOne, evenly, stopCounting, testStartWarmupNum, testEndCooldownNum]
  rw [TestClock.deadline, htimer, if_neg (by decide)]
  rfl

def slowByOne : TestClock onePacketByOne.burstSize := evenly 1 (by decide) 1000 (by decide)

theorem slowByOne_deadline : slowByOne.deadline 1 = some 43000 := evenly_deadline 1 _

end Sockperf
