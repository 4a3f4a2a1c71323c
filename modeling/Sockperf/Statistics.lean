import Mathlib.Order.Interval.Finset.Nat
import Mathlib.Algebra.BigOperators.Group.Finset.Piecewise
import Mathlib.Algebra.Order.BigOperators.Group.Finset
import Mathlib.Data.List.GetD
import Mathlib.Tactic.Linarith
import Sockperf.Lib.While
import Sockperf.Bringup

/-!
# The statistics pass

`client_statistics` scans the table of packet times once, from the first pong
request on. The scan has no index bound of its own: it ends when as many
observations were found as replies were received, or at a send time of zero or
after the end of the test. What it counts is described by a verdict on each
pong request that depends on the table only.
-/

namespace Sockperf

open While
set_option autoImplicit false

/-- What `client_statistics` reads. -/
structure Statistics where
  mode : TestMode
  fullRtt : Bool
  ticks1msec : TicksTime
  sendCount : Nat
  receiveCount : Nat
  serverNo : Nat
  times : PacketTimes

structure Scan where
  i : Nat
  counter : Nat
  sumRtt : TicksTime
  prevRxTime : TicksTime
  startValidTime : TicksTime
  endValidTime : TicksTime
  startValidSeqNo : Nat
  endValidSeqNo : Nat
  lat : List TicksTime
  fullLog : List (TicksTime × TicksTime)
  times : PacketTimes

namespace Scan
variable (s : Scan)

/-- `startValidSeqNo` and `startValidTime` are set by the first pong request of the window. -/
def enter (seqNo : Nat) (txTime : TicksTime) : Scan :=
  if s.startValidSeqNo = 0 then { s with startValidSeqNo := seqNo, startValidTime := txTime } else s

def drop (serverNo seqNo : Nat) (txTime : TicksTime) : Scan :=
  let s := { s with times := s.times.incDroppedCount serverNo, i := s.i + 1 }
  if s.endValidTime < txTime then { s with endValidSeqNo := seqNo, endValidTime := txTime } else s

def outOfOrder (serverNo : Nat) : Scan :=
  { s with times := s.times.incOooCount serverNo, i := s.i + 1 }

def observe (denominator : Int) (seqNo : Nat) (txTime rxTime : TicksTime) : Scan :=
  { s with
    fullLog := s.fullLog ++ [(txTime, rxTime)]
    endValidSeqNo := seqNo
    endValidTime := rxTime
    sumRtt := s.sumRtt + (rxTime - txTime)
    lat := s.lat ++ [(rxTime - txTime).tdiv denominator]
    prevRxTime := rxTime
    counter := s.counter + 1
    i := s.i + 1 }

end Scan

/-- How `client_statistics` ends when it does not leave the process. -/
inductive Report where
  /-- "No messages were received from the server. Is the server down?" -/
  | noMessages
  /-- "Test end before test start. Ending statistics early" -/
  | endBeforeStart
  | scanned (s : Scan)

namespace Statistics
variable (st : Statistics)

def replyEvery : Nat := st.times.replyEvery

def denominator : Int := if st.fullRtt then 1 else 2

def testStart : Option TicksTime :=
  (st.times.getTxTime st.replyEvery).map fun t =>
    match st.mode with
    | .timeBased => t + st.ticks1msec * testStartWarmupMsec
    | _ => t

def testEnd : Option TicksTime :=
  (st.times.getTxTime st.sendCount).map fun t =>
    match st.mode with
    | .timeBased => t - st.ticks1msec * testEndCooldownMsec
    | _ => t

def startSearchHere : Nat :=
  match st.mode with
  | .numberBased _ => 1 + testStartWarmupNum
  | _ => 1

/-- `seqNo >= endNumberSearchHere`, tested in number based mode only. -/
def pastNumber (seqNo : Nat) : Bool :=
  match st.mode with
  | .numberBased target => st.startSearchHere + target ≤ seqNo
  | _ => false

/-- One turn of the loop; `none` is the exit in `verifyError`. -/
def turn (testStart testEnd : TicksTime) (s : Scan) : Turn Scan (Option Scan) :=
  if s.counter < st.receiveCount then
    let seqNo := s.i * st.replyEvery
    match s.times.getTxTime seqNo, s.times.getRxTimeArray seqNo with
    | some txTime, some rxTimes =>
      let rxTime := rxTimes st.serverNo
      if testEnd < txTime ∨ txTime = 0 then .done (some s)
      else if st.pastNumber seqNo then .done (some s)
      else if txTime < testStart then .next { s with i := s.i + 1 }
      else
        let s := s.enter seqNo txTime
        if rxTime = 0 then .next (s.drop st.serverNo seqNo txTime)
        else if rxTime < s.prevRxTime then .next (s.outOfOrder st.serverNo)
        else .next (s.observe st.denominator seqNo txTime rxTime)
    | _, _ => .done none
  else .done (some s)

def scanStart : Scan := ⟨st.startSearchHere, 0, 0, 0, 0, 0, 0, 0, [], [], st.times⟩

/-- `client_statistics`; the inner `none` is the exit in `verifyError`, the outer one means that
the fuel is used up. -/
def clientStatistics (fuel : Nat) : Option (Option Report) :=
  if st.receiveCount = 0 then some (some .noMessages)
  else
    match st.testStart, st.testEnd with
    | some a, some b =>
      if b < a then some (some .endBeforeStart)
      else (iterate (st.turn a b) fuel st.scanStart).map (Option.map .scanned)
    | _, _ => some none

def ClientStatistics (r : Option Report) : Prop := ∃ fuel, st.clientStatistics fuel = some r

/-! ## What the scan counts -/

/-- What becomes of a pong request of the window. -/
inductive Verdict where
  | observation
  | dropped
  | outOfOrder
  deriving DecidableEq, Repr

def tx (i : Nat) : TicksTime := st.times.tx i

def rx (i : Nat) : TicksTime := st.times.rx i st.serverNo

/-- The indices below `i` that are searched and were sent at `a` or later. -/
def window (a : TicksTime) (i : Nat) : List Nat :=
  (List.range' st.startSearchHere (i - st.startSearchHere)).filter fun j => a ≤ st.tx j

def verdict (a : TicksTime) (i : Nat) : Verdict :=
  if st.rx i = 0 then .dropped
  else if ∃ j ∈ st.window a i, st.rx i < st.rx j then .outOfOrder
  else .observation

/-- The indices of the window below `i` with the given verdict. -/
def judged (a : TicksTime) (i : Nat) (v : Verdict) : List Nat :=
  (st.window a i).filter fun j => st.verdict a j = v

/-- The scan does not stop at index `i`. -/
structure Passes (b : TicksTime) (i : Nat) : Prop where
  inTable : i * st.replyEvery ≤ st.times.maxSequenceNo
  le_end : st.tx i ≤ b
  sent : st.tx i ≠ 0
  number : st.pastNumber (i * st.replyEvery) = false

inductive TurnOf (a b : TicksTime) (s : Scan) : Turn Scan (Option Scan) → Prop
  | full (h : st.receiveCount ≤ s.counter) : TurnOf a b s (.done (some s))
  | outside (room : s.counter < st.receiveCount)
      (h : st.times.maxSequenceNo < s.i * st.replyEvery) : TurnOf a b s (.done none)
  | stop (room : s.counter < st.receiveCount)
      (inTable : s.i * st.replyEvery ≤ st.times.maxSequenceNo) (h : ¬ st.Passes b s.i) :
      TurnOf a b s (.done (some s))
  | before (room : s.counter < st.receiveCount) (passes : st.Passes b s.i)
      (h : st.tx s.i < a) : TurnOf a b s (.next { s with i := s.i + 1 })
  | drop (room : s.counter < st.receiveCount) (passes : st.Passes b s.i) (inside : a ≤ st.tx s.i)
      (h : st.rx s.i = 0) :
      TurnOf a b s (.next ((s.enter (s.i * st.replyEvery) (st.tx s.i)).drop st.serverNo
        (s.i * st.replyEvery) (st.tx s.i)))
  | outOfOrder (room : s.counter < st.receiveCount) (passes : st.Passes b s.i)
      (inside : a ≤ st.tx s.i) (answered : st.rx s.i ≠ 0) (h : st.rx s.i < s.prevRxTime) :
      TurnOf a b s (.next ((s.enter (s.i * st.replyEvery) (st.tx s.i)).outOfOrder st.serverNo))
  | observe (room : s.counter < st.receiveCount) (passes : st.Passes b s.i)
      (inside : a ≤ st.tx s.i) (answered : st.rx s.i ≠ 0) (h : s.prevRxTime ≤ st.rx s.i) :
      TurnOf a b s (.next ((s.enter (s.i * st.replyEvery) (st.tx s.i)).observe st.denominator
        (s.i * st.replyEvery) (st.tx s.i) (st.rx s.i)))

structure SameTimes (s : Scan) : Prop where
  tx : s.times.tx = st.times.tx
  rx : s.times.rx = st.times.rx
  max : s.times.maxSequenceNo = st.times.maxSequenceNo
  every : s.times.replyEvery = st.times.replyEvery

variable {st} {a b : TicksTime} {s : Scan}

@[simp] theorem enter_i (seqNo : Nat) (txTime : TicksTime) : (s.enter seqNo txTime).i = s.i := by
  unfold Scan.enter
  split <;> rfl

@[simp] theorem enter_counter (seqNo : Nat) (txTime : TicksTime) :
    (s.enter seqNo txTime).counter = s.counter := by
  unfold Scan.enter
  split <;> rfl

@[simp] theorem enter_prevRxTime (seqNo : Nat) (txTime : TicksTime) :
    (s.enter seqNo txTime).prevRxTime = s.prevRxTime := by
  unfold Scan.enter
  split <;> rfl

@[simp] theorem enter_times (seqNo : Nat) (txTime : TicksTime) :
    (s.enter seqNo txTime).times = s.times := by
  unfold Scan.enter
  split <;> rfl

section Scan
variable (hR : 0 < st.replyEvery)

include hR in
theorem turn_of (same : st.SameTimes s) : st.TurnOf a b s (st.turn a b s) := by
  have hmax := same.max
  have hevery : s.times.replyEvery = st.replyEvery := same.every
  unfold turn
  by_cases room : s.counter < st.receiveCount
  · rw [if_pos room]
    by_cases inTable : s.i * st.replyEvery ≤ st.times.maxSequenceNo
    · have hindex : s.times.seq2index (s.i * st.replyEvery) = some s.i := by
        rw [PacketTimes.seq2index_eq_some, hmax, hevery]
        exact ⟨inTable, Nat.mul_div_cancel _ hR⟩
      have htx : s.times.getTxTime (s.i * st.replyEvery) = some (st.tx s.i) := by
        rw [PacketTimes.getTxTime, hindex, Option.map_some, same.tx]
        rfl
      have hrx : s.times.getRxTimeArray (s.i * st.replyEvery) = some (st.times.rx s.i) := by
        rw [PacketTimes.getRxTimeArray, hindex, Option.map_some, same.rx]
      simp only [htx, hrx, enter_prevRxTime]
      split
      · next h =>
        refine TurnOf.stop room inTable fun hp => ?_
        rcases h with h | h
        · exact absurd hp.le_end (not_le.mpr h)
        · exact hp.sent h
      next h1 =>
      split
      · next h =>
        refine TurnOf.stop room inTable fun hp => ?_
        rw [hp.number] at h
        cases h
      next h2 =>
      rw [not_or, not_lt] at h1
      have hpass : st.Passes b s.i := ⟨inTable, h1.1, h1.2, by simpa using h2⟩
      split
      · next h => exact TurnOf.before room hpass h
      next h3 =>
      rw [not_lt] at h3
      split
      · next h => exact TurnOf.drop room hpass h3 h
      next h4 =>
      split
      · next h => exact TurnOf.outOfOrder room hpass h3 h4 h
      · next h => exact TurnOf.observe room hpass h3 h4 (not_lt.mp h)
    · have hindex : s.times.seq2index (s.i * st.replyEvery) = none := by
        rw [PacketTimes.seq2index, hmax, if_neg inTable]
      simp only [PacketTimes.getTxTime, hindex, Option.map_none]
      exact TurnOf.outside room (by omega)
  · rw [if_neg room]
    exact TurnOf.full (by omega)

@[simp] theorem drop_i (serverNo seqNo : Nat) (txTime : TicksTime) :
    (s.drop serverNo seqNo txTime).i = s.i + 1 := by
  unfold Scan.drop
  dsimp only
  split <;> rfl

include hR in
theorem next_of {s' : Scan} (same : st.SameTimes s) (hturn : st.turn a b s = .next s') :
    st.Passes b s.i ∧ s'.i = s.i + 1 := by
  have hof := turn_of (a := a) (b := b) hR same
  rw [hturn] at hof
  generalize hr : Turn.next (ρ := Option Scan) s' = r at hof
  cases hof with
  | full h => cases hr
  | outside room h => cases hr
  | stop room inTable h => cases hr
  | before room passes hlt =>
    cases hr
    exact ⟨passes, rfl⟩
  | drop room passes inside h0 =>
    cases hr
    exact ⟨passes, by simp⟩
  | outOfOrder room passes inside answered hlt =>
    cases hr
    exact ⟨passes, by simp [Scan.outOfOrder]⟩
  | observe room passes inside answered hle =>
    cases hr
    exact ⟨passes, by simp [Scan.observe]⟩

theorem window_succ {i : Nat} (hi : st.startSearchHere ≤ i) :
    st.window a (i + 1) = if a ≤ st.tx i then st.window a i ++ [i] else st.window a i := by
  have hrange : List.range' st.startSearchHere (i + 1 - st.startSearchHere) =
      List.range' st.startSearchHere (i - st.startSearchHere) ++ [i] := by
    have h1 : i + 1 - st.startSearchHere = i - st.startSearchHere + 1 := by omega
    rw [h1, List.range'_1_concat, Nat.add_sub_cancel' hi]
  unfold window
  rw [hrange, List.filter_append]
  split
  · next h => simp [h]
  · next h => simp [h]

theorem mem_window {i j : Nat} :
    j ∈ st.window a i ↔ st.startSearchHere ≤ j ∧ j < i ∧ a ≤ st.tx j := by
  simp only [window, List.mem_filter, List.mem_range'_1, decide_eq_true_eq]
  constructor
  · rintro ⟨⟨h1, h2⟩, h3⟩
    exact ⟨h1, by omega, h3⟩
  · rintro ⟨h1, h2, h3⟩
    exact ⟨⟨h1, by omega⟩, h3⟩

theorem judged_succ {i : Nat} (hi : st.startSearchHere ≤ i) (v : Verdict) :
    st.judged a (i + 1) v =
      if a ≤ st.tx i ∧ st.verdict a i = v then st.judged a i v ++ [i] else st.judged a i v := by
  unfold judged
  rw [window_succ hi]
  by_cases h : a ≤ st.tx i
  · by_cases hv : st.verdict a i = v
    · simp [h, hv, List.filter_append]
    · simp [h, hv, List.filter_append]
  · simp [h]

/-! ## The invariant of the scan -/

variable (st a b s) in
/-- The counters agree with the verdicts on the indices scanned so far. -/
structure Counted : Prop where
  same : st.SameTimes s
  start_le : st.startSearchHere ≤ s.i
  passed : ∀ j, st.startSearchHere ≤ j → j < s.i → st.Passes b j
  counter : s.counter = (st.judged a s.i .observation).length
  dropped : s.times.dropped st.serverNo =
    st.times.dropped st.serverNo + (st.judged a s.i .dropped).length
  ooo : s.times.ooo st.serverNo = st.times.ooo st.serverNo + (st.judged a s.i .outOfOrder).length
  log : s.fullLog = (st.judged a s.i .observation).map fun j => (st.tx j, st.rx j)
  prev_ge : ∀ j ∈ st.window a s.i, st.rx j ≤ s.prevRxTime
  prev_mem : s.prevRxTime = 0 ∨ ∃ j ∈ st.window a s.i, st.rx j = s.prevRxTime
  counter_le : s.counter ≤ st.receiveCount

theorem counted_start : st.Counted a b st.scanStart := by
  have hwindow : st.window a st.startSearchHere = [] := by simp [window]
  have hjudged : ∀ v, st.judged a st.startSearchHere v = [] := by simp [judged, hwindow]
  refine ⟨⟨rfl, rfl, rfl, rfl⟩, le_rfl, fun j h1 h2 => ?_, ?_, ?_, ?_, ?_, ?_, Or.inl rfl,
    Nat.zero_le _⟩
  · exact absurd h2 (not_lt.mpr h1)
  all_goals simp [scanStart, hwindow, hjudged]

section Step
variable (h : st.Counted a b s)
include h

theorem Counted.passed_succ (passes : st.Passes b s.i) :
    ∀ j, st.startSearchHere ≤ j → j < s.i + 1 → st.Passes b j := by
  intro j h1 h2
  rcases Nat.lt_succ_iff_lt_or_eq.mp h2 with h2 | rfl
  · exact h.passed j h1 h2
  · exact passes

theorem Counted.verdict_outOfOrder (hrx : ∀ j, 0 ≤ st.rx j) (answered : st.rx s.i ≠ 0)
    (hlt : st.rx s.i < s.prevRxTime) : st.verdict a s.i = .outOfOrder := by
  have hex : ∃ j ∈ st.window a s.i, st.rx s.i < st.rx j := by
    rcases h.prev_mem with h0 | ⟨j, hj, hprev⟩
    · rw [h0] at hlt
      exact absurd (hrx s.i) (not_le.mpr hlt)
    · exact ⟨j, hj, by rw [hprev]; exact hlt⟩
  rw [verdict, if_neg answered, if_pos hex]

theorem Counted.verdict_observation (answered : st.rx s.i ≠ 0)
    (hle : s.prevRxTime ≤ st.rx s.i) : st.verdict a s.i = .observation := by
  have hex : ¬ ∃ j ∈ st.window a s.i, st.rx s.i < st.rx j := by
    rintro ⟨j, hj, hlt⟩
    exact absurd ((h.prev_ge j hj).trans hle) (not_le.mpr hlt)
  rw [verdict, if_neg answered, if_neg hex]

theorem Counted.judged_next (inside : a ≤ st.tx s.i) {v : Verdict} (hv : st.verdict a s.i = v)
    (u : Verdict) : st.judged a (s.i + 1) u =
      if v = u then st.judged a s.i u ++ [s.i] else st.judged a s.i u := by
  rw [judged_succ h.start_le, hv]
  simp [inside]

theorem Counted.window_next (inside : a ≤ st.tx s.i) :
    st.window a (s.i + 1) = st.window a s.i ++ [s.i] := by
  rw [window_succ h.start_le, if_pos inside]

theorem Counted.before (passes : st.Passes b s.i) (hlt : st.tx s.i < a) :
    st.Counted a b { s with i := s.i + 1 } := by
  have hout : ¬ a ≤ st.tx s.i := not_le.mpr hlt
  have hjudged : ∀ v, st.judged a (s.i + 1) v = st.judged a s.i v := by
    intro v
    rw [judged_succ h.start_le, if_neg fun hc => hout hc.1]
  have hwindow : st.window a (s.i + 1) = st.window a s.i := by
    rw [window_succ h.start_le, if_neg hout]
  refine ⟨⟨h.same.tx, h.same.rx, h.same.max, h.same.every⟩, h.start_le.trans (Nat.le_succ _),
    h.passed_succ passes, ?_, ?_, ?_, ?_, ?_, ?_, h.counter_le⟩
  · simpa only [hjudged] using h.counter
  · simpa only [hjudged] using h.dropped
  · simpa only [hjudged] using h.ooo
  · simpa only [hjudged] using h.log
  · simpa only [hwindow] using h.prev_ge
  · simpa only [hwindow] using h.prev_mem

theorem Counted.enter (seqNo : Nat) (txTime : TicksTime) :
    st.Counted a b (s.enter seqNo txTime) := by
  unfold Scan.enter
  split
  · exact ⟨⟨h.same.tx, h.same.rx, h.same.max, h.same.every⟩, h.start_le, h.passed, h.counter,
      h.dropped, h.ooo, h.log, h.prev_ge, h.prev_mem, h.counter_le⟩
  · exact h

theorem Counted.drop (passes : st.Passes b s.i) (inside : a ≤ st.tx s.i) (hrx : st.rx s.i = 0)
    (hprev : 0 ≤ s.prevRxTime) (seqNo : Nat) (txTime : TicksTime) :
    st.Counted a b (s.drop st.serverNo seqNo txTime) := by
  have hv : st.verdict a s.i = .dropped := if_pos hrx
  have key : st.Counted a b
      { s with times := s.times.incDroppedCount st.serverNo, i := s.i + 1 } := by
    refine ⟨⟨h.same.tx, h.same.rx, h.same.max, h.same.every⟩, h.start_le.trans (Nat.le_succ _),
      h.passed_succ passes, ?_, ?_, ?_, ?_, ?_, ?_, h.counter_le⟩
    · simpa [h.judged_next inside hv] using h.counter
    · simp [h.judged_next inside hv, PacketTimes.incDroppedCount, h.dropped, Nat.add_assoc]
    · simpa [h.judged_next inside hv, PacketTimes.incDroppedCount] using h.ooo
    · simpa [h.judged_next inside hv] using h.log
    · simp only [h.window_next inside, List.mem_append, List.mem_singleton]
      rintro j (hj | rfl)
      · exact h.prev_ge j hj
      · rwa [hrx]
    · rcases h.prev_mem with h0 | ⟨j, hj, hprev⟩
      · exact Or.inl h0
      · exact Or.inr ⟨j, by simp [h.window_next inside, hj], hprev⟩
  unfold Scan.drop
  dsimp only
  split
  · exact ⟨⟨key.same.tx, key.same.rx, key.same.max, key.same.every⟩, key.start_le, key.passed,
      key.counter, key.dropped, key.ooo, key.log, key.prev_ge, key.prev_mem, key.counter_le⟩
  · exact key

theorem Counted.outOfOrder (passes : st.Passes b s.i) (inside : a ≤ st.tx s.i)
    (hrx : ∀ j, 0 ≤ st.rx j) (answered : st.rx s.i ≠ 0) (hlt : st.rx s.i < s.prevRxTime) :
    st.Counted a b (s.outOfOrder st.serverNo) := by
  have hv := h.verdict_outOfOrder hrx answered hlt
  refine ⟨⟨h.same.tx, h.same.rx, h.same.max, h.same.every⟩, h.start_le.trans (Nat.le_succ _),
    h.passed_succ passes, ?_, ?_, ?_, ?_, ?_, ?_, h.counter_le⟩
  · simpa [Scan.outOfOrder, h.judged_next inside hv] using h.counter
  · simpa [Scan.outOfOrder, h.judged_next inside hv, PacketTimes.incOooCount] using h.dropped
  · simp [Scan.outOfOrder, h.judged_next inside hv, PacketTimes.incOooCount, h.ooo, Nat.add_assoc]
  · simpa [Scan.outOfOrder, h.judged_next inside hv] using h.log
  · simp only [Scan.outOfOrder, h.window_next inside, List.mem_append, List.mem_singleton]
    rintro j (hj | rfl)
    · exact h.prev_ge j hj
    · exact hlt.le
  · rcases h.prev_mem with h0 | ⟨j, hj, hprev⟩
    · exact Or.inl h0
    · exact Or.inr ⟨j, by simp [Scan.outOfOrder, h.window_next inside, hj], hprev⟩

theorem Counted.observe (room : s.counter < st.receiveCount) (passes : st.Passes b s.i)
    (inside : a ≤ st.tx s.i) (answered : st.rx s.i ≠ 0) (hle : s.prevRxTime ≤ st.rx s.i)
    (seqNo : Nat) :
    st.Counted a b (s.observe st.denominator seqNo (st.tx s.i) (st.rx s.i)) := by
  have hv := h.verdict_observation answered hle
  refine ⟨⟨h.same.tx, h.same.rx, h.same.max, h.same.every⟩, h.start_le.trans (Nat.le_succ _),
    h.passed_succ passes, ?_, ?_, ?_, ?_, ?_, ?_, room⟩
  · simp [Scan.observe, h.judged_next inside hv, h.counter]
  · simpa [Scan.observe, h.judged_next inside hv] using h.dropped
  · simpa [Scan.observe, h.judged_next inside hv] using h.ooo
  · simp [Scan.observe, h.judged_next inside hv, h.log]
  · simp only [Scan.observe, h.window_next inside, List.mem_append, List.mem_singleton]
    rintro j (hj | rfl)
    · exact (h.prev_ge j hj).trans hle
    · exact le_rfl
  · exact Or.inr ⟨s.i, by simp [Scan.observe, h.window_next inside], rfl⟩

end Step

theorem Counted.prev_nonneg (h : st.Counted a b s) (hrx : ∀ j, 0 ≤ st.rx j) :
    0 ≤ s.prevRxTime := by
  rcases h.prev_mem with h0 | ⟨j, -, hprev⟩
  · exact h0.ge
  · rw [← hprev]
    exact hrx j

include hR in
theorem Counted.step {s' : Scan} (h : st.Counted a b s) (hrx : ∀ j, 0 ≤ st.rx j)
    (hturn : st.turn a b s = .next s') : st.Counted a b s' := by
  have hof := turn_of (a := a) (b := b) hR h.same
  rw [hturn] at hof
  generalize hr : Turn.next (ρ := Option Scan) s' = r at hof
  cases hof with
  | full h => cases hr
  | outside room h => cases hr
  | stop room inTable h => cases hr
  | before room passes hlt =>
    cases hr
    exact h.before passes hlt
  | drop room passes inside h0 =>
    cases hr
    have he := h.enter (s.i * st.replyEvery) (st.tx s.i)
    refine he.drop ?_ ?_ ?_ (he.prev_nonneg hrx) _ _ <;> rwa [enter_i]
  | outOfOrder room passes inside answered hlt =>
    cases hr
    have he := h.enter (s.i * st.replyEvery) (st.tx s.i)
    apply he.outOfOrder <;> simpa
  | observe room passes inside answered hle =>
    cases hr
    have he := (h.enter (s.i * st.replyEvery) (st.tx s.i)).observe (by simpa using room)
      (by simpa using passes) (by simpa using inside) (by simpa using answered) (by simpa using hle)
      (s.i * st.replyEvery)
    rwa [enter_i] at he

def Ended (st : Statistics) (a b : TicksTime) : Option Scan → Prop
  | none => ∃ s, st.Counted a b s ∧ s.counter < st.receiveCount ∧
      st.times.maxSequenceNo < s.i * st.replyEvery
  | some s => st.Counted a b s ∧ (s.counter = st.receiveCount ∨
      s.counter < st.receiveCount ∧ s.i * st.replyEvery ≤ st.times.maxSequenceNo ∧
        ¬ st.Passes b s.i)

include hR in
/-- The run lemma: the scan ends, because every turn that goes on was inside the table. -/
theorem scan_returns (hrx : ∀ j, 0 ≤ st.rx j) :
    ∃ r, Returns (st.turn a b) st.scanStart r ∧ st.Ended a b r := by
  suffices hstep : ∀ s, st.Counted a b s →
      (∃ s', st.turn a b s = .next s' ∧ st.Counted a b s' ∧
        st.times.maxSequenceNo + 1 - s'.i < st.times.maxSequenceNo + 1 - s.i) ∨
      ∃ r, st.turn a b s = .done r ∧ st.Ended a b r by
    obtain ⟨r, hr, hend⟩ := returns_of_variant (st.turn a b) (st.Counted a b) (st.Ended a b)
      (fun s => st.times.maxSequenceNo + 1 - s.i) counted_start hstep
    exact ⟨r, ⟨_, hr⟩, hend⟩
  intro s h
  have hof := turn_of (a := a) (b := b) hR h.same
  cases hturn : st.turn a b s with
  | done r =>
    right
    refine ⟨r, rfl, ?_⟩
    rw [hturn] at hof
    generalize hr : Turn.done (σ := Scan) r = t at hof
    cases hof with
    | full hfull =>
      cases hr
      exact ⟨h, Or.inl (le_antisymm h.counter_le hfull)⟩
    | outside room hout =>
      cases hr
      exact ⟨s, h, room, hout⟩
    | stop room inTable hstop =>
      cases hr
      exact ⟨h, Or.inr ⟨room, inTable, hstop⟩⟩
    | before => cases hr
    | drop => cases hr
    | outOfOrder => cases hr
    | observe => cases hr
  | next s' =>
    left
    have h' := h.step hR hrx hturn
    obtain ⟨passes, hi⟩ := next_of hR h.same hturn
    refine ⟨s', rfl, h', ?_⟩
    have hle : s.i * 1 ≤ s.i * st.replyEvery := Nat.mul_le_mul_left _ hR
    have hin := passes.inTable
    omega

end Scan

theorem mem_judged {i j : Nat} {v : Verdict} :
    j ∈ st.judged a i v ↔
      st.startSearchHere ≤ j ∧ j < i ∧ a ≤ st.tx j ∧ st.verdict a j = v := by
  simp only [judged, List.mem_filter, mem_window, decide_eq_true_eq, and_assoc]

theorem judged_nodup (i : Nat) (v : Verdict) : (st.judged a i v).Nodup :=
  (List.Nodup.filter _ List.nodup_range').filter _

theorem verdict_eq_observation {i : Nat} :
    st.verdict a i = .observation ↔ st.rx i ≠ 0 ∧
      ∀ j, st.startSearchHere ≤ j → j < i → a ≤ st.tx j → st.rx j ≤ st.rx i := by
  unfold verdict
  split
  · next h => simp [h]
  · next h =>
    split
    · next hex =>
      obtain ⟨j, hj, hlt⟩ := hex
      obtain ⟨h1, h2, h3⟩ := mem_window.mp hj
      constructor
      · intro hc
        cases hc
      · rintro ⟨-, hle⟩
        exact absurd (hle j h1 h2 h3) (not_le.mpr hlt)
    · next hex =>
      refine ⟨fun _ => ⟨h, fun j h1 h2 h3 => ?_⟩, fun _ => rfl⟩
      by_contra hlt
      exact hex ⟨j, mem_window.mpr ⟨h1, h2, h3⟩, not_le.mp hlt⟩

/-! ## The whole function -/

section Whole
variable {r : Option Report}

theorem clientStatistics_of_zero (h : st.receiveCount = 0) :
    st.ClientStatistics r ↔ r = some .noMessages := by
  simp only [ClientStatistics, clientStatistics, if_pos h, exists_const, Option.some.injEq, eq_comm]

theorem clientStatistics_of_none (h : st.receiveCount ≠ 0) (hb : st.testEnd = none) :
    st.ClientStatistics r ↔ r = none := by
  simp only [ClientStatistics, clientStatistics, if_neg h, hb]
  cases st.testStart <;> simp [eq_comm]

theorem clientStatistics_of_lt (h : st.receiveCount ≠ 0) (ha : st.testStart = some a)
    (hb : st.testEnd = some b) (hab : b < a) :
    st.ClientStatistics r ↔ r = some .endBeforeStart := by
  simp only [ClientStatistics, clientStatistics, if_neg h, ha, hb, if_pos hab, exists_const,
    Option.some.injEq, eq_comm]

theorem clientStatistics_of_le (h : st.receiveCount ≠ 0) (ha : st.testStart = some a)
    (hb : st.testEnd = some b) (hab : a ≤ b) :
    st.ClientStatistics r ↔
      ∃ x, Returns (st.turn a b) st.scanStart x ∧ r = x.map .scanned := by
  simp only [ClientStatistics, clientStatistics, if_neg h, ha, hb, if_neg (not_lt.mpr hab), Returns,
    Option.map_eq_some_iff]
  constructor
  · rintro ⟨n, x, hx, rfl⟩
    exact ⟨x, ⟨n, hx⟩, rfl⟩
  · rintro ⟨x, ⟨n, hx⟩, rfl⟩
    exact ⟨n, x, hx, rfl⟩

theorem reports_iff (hpos : st.receiveCount ≠ 0) (ha : st.testStart = some a)
    (hb : st.testEnd = some b) : (∃ r, st.ClientStatistics (some r)) ↔
      b < a ∨ ∃ s, Returns (st.turn a b) st.scanStart (some s) := by
  by_cases hab : b < a
  · simp only [clientStatistics_of_lt hpos ha hb hab, Option.some.injEq, exists_eq, hab, true_or]
  · simp only [clientStatistics_of_le hpos ha hb (not_lt.mp hab), hab, false_or]
    constructor
    · rintro ⟨r, x, hx, hr⟩
      obtain ⟨s, rfl, -⟩ := Option.map_eq_some_iff.mp hr.symm
      exact ⟨s, hx⟩
    · rintro ⟨s, hs⟩
      exact ⟨.scanned s, some s, hs, rfl⟩

end Whole

end Statistics

/-! ## Recorded runs -/

/-- A table that sends and replies can have left behind: the pong requests up to the sequence
counter have a time, replies were recorded for such requests only, and all of them were counted. -/
structure Recorded (p : UserParams) (st : Statistics) : Prop where
  mode : st.mode = p.mode
  every : st.times.replyEvery = p.replyEvery
  every_pos : 0 < p.replyEvery
  maxSequenceNo : st.times.maxSequenceNo = p.maxSequenceNo
  /-- `-n` is an option of ping-pong, which sets `reply_every` to 1 -/
  number : ∀ target, p.mode = .numberBased target → p.replyEvery = 1 ∧ target ≤ maxPacketNumber
  ticks : 0 < st.ticks1msec
  server : st.serverNo < p.clientWorkWithSrvNum
  /-- `setTxTime` leaves the process otherwise -/
  inTable : ∀ i, i * p.replyEvery ≤ st.sendCount → i * p.replyEvery ≤ p.maxSequenceNo
  sent : ∀ i, 1 ≤ i → i * p.replyEvery ≤ st.sendCount → 0 < st.times.tx i
  unsent : ∀ i, st.sendCount < i * p.replyEvery → st.times.tx i = 0
  received : ∀ i k, st.times.rx i k ≠ 0 → 0 < st.times.rx i k ∧ 1 ≤ i ∧
    i * p.replyEvery ≤ st.sendCount ∧ k < p.clientWorkWithSrvNum
  receiveCount : st.receiveCount = ∑ i ∈ Finset.Icc 1 (st.sendCount / p.replyEvery),
    ((Finset.range p.clientWorkWithSrvNum).filter fun k => st.times.rx i k ≠ 0).card
  fresh : st.times.dropped st.serverNo = 0 ∧ st.times.ooo st.serverNo = 0

namespace Recorded
open Statistics
variable {p : UserParams} {st : Statistics} (h : Recorded p st)
include h

theorem replyEvery_pos : 0 < st.replyEvery := by
  rw [Statistics.replyEvery, h.every]
  exact h.every_pos

theorem rx_nonneg (i : Nat) : 0 ≤ st.rx i := by
  by_cases h0 : st.rx i = 0
  · exact h0.ge
  · exact (h.received i st.serverNo h0).1.le

theorem le_last {i : Nat} : i ≤ st.sendCount / p.replyEvery ↔ i * p.replyEvery ≤ st.sendCount :=
  Nat.le_div_iff_mul_le h.every_pos

def replies (_ : Recorded p st) (i : Nat) : Finset Nat :=
  (Finset.range p.clientWorkWithSrvNum).filter fun k => st.times.rx i k ≠ 0

theorem mem_replies {i k : Nat} : k ∈ h.replies i ↔ st.times.rx i k ≠ 0 := by
  rw [replies, Finset.mem_filter, Finset.mem_range]
  exact ⟨fun hk => hk.2, fun hk => ⟨(h.received i k hk).2.2.2, hk⟩⟩

section Count
variable {a : TicksTime} {i : Nat}

theorem observation_mem {j : Nat} (hj : j ∈ st.judged a i .observation) :
    st.serverNo ∈ h.replies j ∧ j ∈ Finset.Icc 1 (st.sendCount / p.replyEvery) := by
  obtain ⟨-, -, -, hv⟩ := mem_judged.mp hj
  have hrx := (verdict_eq_observation.mp hv).1
  obtain ⟨-, hone, hsent, -⟩ := h.received j st.serverNo hrx
  exact ⟨h.mem_replies.mpr hrx, Finset.mem_Icc.mpr ⟨hone, h.le_last.mpr hsent⟩⟩

theorem length_observations : (st.judged a i .observation).length =
    ∑ j ∈ Finset.Icc 1 (st.sendCount / p.replyEvery),
      if j ∈ st.judged a i .observation then 1 else 0 := by
  rw [← Finset.card_filter, ← List.toFinset_card_of_nodup (judged_nodup i .observation)]
  congr 1
  ext j
  rw [List.mem_toFinset, Finset.mem_filter]
  exact ⟨fun hj => ⟨(h.observation_mem hj).2, hj⟩, fun hj => hj.2⟩

theorem observation_le (j : Nat) :
    (if j ∈ st.judged a i .observation then 1 else 0) ≤ (h.replies j).card := by
  split
  · next hj => exact Finset.card_pos.mpr ⟨_, (h.observation_mem hj).1⟩
  · exact Nat.zero_le _

theorem observations_eq_iff : (st.judged a i .observation).length = st.receiveCount ↔
    ∀ j k, st.times.rx j k ≠ 0 → k = st.serverNo ∧ j ∈ st.judged a i .observation := by
  rw [h.length_observations, h.receiveCount]
  refine (Finset.sum_eq_sum_iff_of_le fun j _ => h.observation_le j).trans ⟨?_, ?_⟩
  · intro heq j k hrx
    obtain ⟨-, hone, hsent, -⟩ := h.received j k hrx
    have hk : k ∈ h.replies j := h.mem_replies.mpr hrx
    have hj := heq j (Finset.mem_Icc.mpr ⟨hone, h.le_last.mpr hsent⟩)
    have hmem : j ∈ st.judged a i .observation := by
      by_contra hn
      rw [if_neg hn] at hj
      exact absurd hj.symm (Finset.card_ne_zero.mpr ⟨k, hk⟩)
    rw [if_pos hmem] at hj
    exact ⟨Finset.card_le_one.mp hj.symm.le k hk _ (h.observation_mem hmem).1, hmem⟩
  · intro hall j hj
    by_cases hmem : j ∈ st.judged a i .observation
    · have hone : h.replies j = {st.serverNo} := by
        ext k
        rw [Finset.mem_singleton]
        refine ⟨fun hk => (hall j k (h.mem_replies.mp hk)).1, ?_⟩
        rintro rfl
        exact (h.observation_mem hmem).1
      rw [if_pos hmem]
      show 1 = (h.replies j).card
      rw [hone, Finset.card_singleton]
    · rw [if_neg hmem]
      symm
      rw [Finset.card_eq_zero]
      apply Finset.filter_eq_empty_iff.mpr
      intro k _ hk
      exact hmem (hall j k hk).2

end Count

/-! ## The bounds of the table -/

section Ends
variable (hpos : st.receiveCount ≠ 0)
include hpos

theorem one_le_last : 1 ≤ st.sendCount / p.replyEvery := by
  have hsum : ∑ j ∈ Finset.Icc 1 (st.sendCount / p.replyEvery), (h.replies j).card ≠ 0 := by
    have hcount := h.receiveCount
    rwa [hcount] at hpos
  obtain ⟨j, hj, -⟩ := Finset.exists_ne_zero_of_sum_ne_zero hsum
  obtain ⟨h1, h2⟩ := Finset.mem_Icc.mp hj
  exact h1.trans h2

theorem testStart_eq : st.testStart = some (match p.mode with
    | .timeBased => st.tx 1 + st.ticks1msec * testStartWarmupMsec
    | _ => st.tx 1) := by
  have hindex : st.times.seq2index st.replyEvery = some 1 := by
    rw [PacketTimes.seq2index_eq_some, h.maxSequenceNo, Statistics.replyEvery, h.every]
    have hone := h.inTable 1 (h.le_last.mp (h.one_le_last hpos))
    rw [Nat.one_mul] at hone
    exact ⟨hone, Nat.div_self h.every_pos⟩
  rw [testStart, PacketTimes.getTxTime, hindex, h.mode]
  rfl

omit hpos in
theorem testEnd_eq (hfit : st.sendCount ≤ p.maxSequenceNo) : st.testEnd = some (match p.mode with
    | .timeBased => st.tx (st.sendCount / p.replyEvery) - st.ticks1msec * testEndCooldownMsec
    | _ => st.tx (st.sendCount / p.replyEvery)) := by
  have hindex : st.times.seq2index st.sendCount = some (st.sendCount / p.replyEvery) := by
    rw [PacketTimes.seq2index_eq_some, h.maxSequenceNo, h.every]
    exact ⟨hfit, rfl⟩
  rw [testEnd, PacketTimes.getTxTime, hindex, h.mode]
  rfl

omit hpos in
theorem testEnd_none (hfit : p.maxSequenceNo < st.sendCount) : st.testEnd = none := by
  rw [testEnd, PacketTimes.getTxTime, PacketTimes.seq2index, h.maxSequenceNo,
    if_neg (not_le.mpr hfit)]
  rfl

end Ends

section Scanned
variable {a b : TicksTime}

theorem last_lt {s : Scan} (hout : st.times.maxSequenceNo < s.i * st.replyEvery) :
    st.sendCount / p.replyEvery < s.i := by
  rw [h.maxSequenceNo, Statistics.replyEvery, h.every] at hout
  by_contra hle
  exact absurd (h.inTable s.i (h.le_last.mp (not_lt.mp hle))) (not_le.mpr hout)

theorem le_last_of_passes {i : Nat} (hp : st.Passes b i) : i ≤ st.sendCount / p.replyEvery := by
  rw [h.le_last]
  by_contra hlt
  exact hp.sent (h.unsent i (not_le.mp hlt))

/-- Where the scan leaves the table it has not counted every reply, so not every reply is an
observation. -/
theorem not_all_observed (hend : st.Ended a b none) : ¬ ∀ i k, st.times.rx i k ≠ 0 →
    k = st.serverNo ∧ st.startSearchHere ≤ i ∧ a ≤ st.tx i ∧ st.verdict a i = .observation := by
  obtain ⟨s, hc, room, hout⟩ := hend
  intro hall
  have heq : (st.judged a s.i .observation).length = st.receiveCount := by
    rw [h.observations_eq_iff]
    intro j k hrx
    obtain ⟨hk, hstart, hin, hv⟩ := hall j k hrx
    have hj : j < s.i := (h.le_last.mpr (h.received j k hrx).2.2.1).trans_lt (h.last_lt hout)
    exact ⟨hk, mem_judged.mpr ⟨hstart, hj, hin, hv⟩⟩
  rw [hc.counter, heq] at room
  exact lt_irrefl _ room

theorem all_observed {s : Scan} (hc : st.Counted a b s) (hfull : s.counter = st.receiveCount) :
    ∀ i k, st.times.rx i k ≠ 0 →
      k = st.serverNo ∧ st.startSearchHere ≤ i ∧ a ≤ st.tx i ∧ st.verdict a i = .observation := by
  rw [hc.counter, h.observations_eq_iff] at hfull
  intro i k hrx
  obtain ⟨hk, hi⟩ := hfull i k hrx
  obtain ⟨h1, -, h2, h3⟩ := mem_judged.mp hi
  exact ⟨hk, h1, h2, h3⟩

theorem scan_decides (P : Prop) (hnone : st.Ended a b none → ¬ P)
    (hsome : ∀ s, st.Ended a b (some s) → P) :
    (∃ s, Returns (st.turn a b) st.scanStart (some s)) ↔ P := by
  obtain ⟨r, hr, hend⟩ := scan_returns (a := a) (b := b) h.replyEvery_pos h.rx_nonneg
  cases r with
  | none =>
    refine ⟨?_, fun hP => absurd hP (hnone hend)⟩
    rintro ⟨s, hs⟩
    cases hs.unique hr
  | some s => exact ⟨fun _ => hsome s hend, fun _ => ⟨s, hr⟩⟩

end Scanned

/-- In playback mode the table ends at the last message. A scan that is still short of replies
there leaves it, unless a request of the run was sent after the last one. -/
def Inside (p : UserParams) (st : Statistics) : Prop :=
  st.sendCount ≤ p.maxSequenceNo ∧
    ((∀ size, p.mode ≠ .playback size) ∨
      (st.sendCount / p.replyEvery + 1) * p.replyEvery ≤ p.maxSequenceNo ∨
      (∃ i, 1 ≤ i ∧ i * p.replyEvery ≤ st.sendCount ∧
        st.tx (st.sendCount / p.replyEvery) < st.tx i) ∨
      ∀ i k, st.times.rx i k ≠ 0 → k = st.serverNo ∧ st.tx 1 ≤ st.tx i ∧
        ∀ j, 1 ≤ j → j < i → st.tx 1 ≤ st.tx j → st.rx j ≤ st.rx i)

section Modes
variable {a b : TicksTime}

theorem scan_timeBased (hpos : st.receiveCount ≠ 0) (hmode : p.mode = .timeBased)
    (hb : b = st.tx (st.sendCount / p.replyEvery) - st.ticks1msec * testEndCooldownMsec) :
    ∃ s, Returns (st.turn a b) st.scanStart (some s) := by
  refine (h.scan_decides True ?_ fun _ _ => trivial).mpr trivial
  rintro ⟨s, hc, room, hout⟩ -
  have hstart : st.startSearchHere = 1 := by rw [startSearchHere, h.mode, hmode]
  have hp := (hc.passed _ (hstart ▸ h.one_le_last hpos) (h.last_lt hout)).le_end
  have hticks := h.ticks
  rw [hb, show (testEndCooldownMsec : Int) = 50 from rfl] at hp
  linarith

theorem scan_numberBased {target : Nat} (hmode : p.mode = .numberBased target) :
    ∃ s, Returns (st.turn a b) st.scanStart (some s) := by
  refine (h.scan_decides True ?_ fun _ _ => trivial).mpr trivial
  rintro ⟨s, hc, room, hout⟩ -
  obtain ⟨hone, htarget⟩ := h.number target hmode
  have hstart : st.startSearchHere = 8001 := by rw [startSearchHere, h.mode, hmode]; rfl
  have hmax : p.maxSequenceNo = 100009000 := by rw [UserParams.maxSequenceNo, hmode]; rfl
  have hR : st.replyEvery = 1 := by rw [Statistics.replyEvery, h.every, hone]
  rw [h.maxSequenceNo, hR, hmax, Nat.mul_one] at hout
  have hle : target ≤ 100000000 := htarget
  have hp := (hc.passed (8001 + target) (by omega) (by omega)).number
  simp [pastNumber, h.mode, hmode, hstart, hR] at hp

theorem scan_playback {size : Nat} (hmode : p.mode = .playback size)
    (hone : 1 ≤ st.sendCount / p.replyEvery) :
    (∃ s, Returns (st.turn (st.tx 1) (st.tx (st.sendCount / p.replyEvery))) st.scanStart
      (some s)) ↔
      (st.sendCount / p.replyEvery + 1) * p.replyEvery ≤ p.maxSequenceNo ∨
      (∃ i, 1 ≤ i ∧ i * p.replyEvery ≤ st.sendCount ∧
        st.tx (st.sendCount / p.replyEvery) < st.tx i) ∨
      ∀ i k, st.times.rx i k ≠ 0 → k = st.serverNo ∧ st.tx 1 ≤ st.tx i ∧
        ∀ j, 1 ≤ j → j < i → st.tx 1 ≤ st.tx j → st.rx j ≤ st.rx i := by
  have hstart : st.startSearchHere = 1 := by rw [startSearchHere, h.mode, hmode]
  apply h.scan_decides
  · rintro hend hP
    rcases hP with hroom | ⟨i, hi, hsent, hlt⟩ | hall
    · obtain ⟨s, hc, room, hout⟩ := hend
      have hlast : st.sendCount / p.replyEvery + 1 < s.i := by
        rw [h.maxSequenceNo, Statistics.replyEvery, h.every] at hout
        exact Nat.lt_of_mul_lt_mul_right (hroom.trans_lt hout)
      have hp := h.le_last_of_passes (hc.passed _ (by omega) hlast)
      omega
    · obtain ⟨s, hc, room, hout⟩ := hend
      have hp := hc.passed i (by omega) ((h.le_last.mpr hsent).trans_lt (h.last_lt hout))
      exact absurd hp.le_end (not_le.mpr hlt)
    · refine h.not_all_observed hend fun i k hrx => ?_
      obtain ⟨hk, hin, hle⟩ := hall i k hrx
      obtain ⟨-, hi, -, -⟩ := h.received i k hrx
      refine ⟨hk, by omega, hin, verdict_eq_observation.mpr ⟨?_, fun j hj => ?_⟩⟩
      · rw [hk] at hrx
        exact hrx
      · exact hle j (by omega)
  · rintro s ⟨hc, hfull | ⟨room, inTable, hstop⟩⟩
    · refine Or.inr (Or.inr fun i k hrx => ?_)
      obtain ⟨hk, -, hin, hv⟩ := h.all_observed hc hfull i k hrx
      refine ⟨hk, hin, fun j hj => ?_⟩
      exact (verdict_eq_observation.mp hv).2 j (by omega)
    · -- within the requests the only way to stop is a send time after the last one
      by_contra hno
      simp only [not_or, not_exists, not_and, not_lt] at hno
      obtain ⟨hroom, hlate, -⟩ := hno
      have hi := hc.start_le
      rw [h.maxSequenceNo, Statistics.replyEvery, h.every] at inTable
      have hlast : s.i * p.replyEvery ≤ st.sendCount := by
        rw [← h.le_last]
        by_contra hgt
        exact hroom ((Nat.mul_le_mul_right _ (not_le.mp hgt)).trans inTable)
      apply hstop
      refine ⟨?_, hlate s.i (by omega) hlast, (h.sent s.i (by omega) hlast).ne', ?_⟩
      · rw [h.maxSequenceNo, Statistics.replyEvery, h.every]
        exact inTable
      · rw [pastNumber, h.mode, hmode]

end Modes

theorem reports_of_inside (hpos : st.receiveCount ≠ 0) :
    (∃ r, st.ClientStatistics (some r)) ↔ Inside p st := by
  unfold Inside
  by_cases hfit : st.sendCount ≤ p.maxSequenceNo
  · have ha := h.testStart_eq hpos
    have hb := h.testEnd_eq hfit
    rw [reports_iff hpos ha hb]
    simp only [hfit, true_and]
    cases hmode : p.mode with
    | timeBased =>
      simp only [ne_eq, reduceCtorEq, not_false_eq_true, implies_true, true_or, iff_true]
      exact Or.inr (h.scan_timeBased hpos hmode rfl)
    | numberBased target =>
      simp only [ne_eq, reduceCtorEq, not_false_eq_true, implies_true, true_or, iff_true]
      exact Or.inr (h.scan_numberBased hmode)
    | playback size =>
      simp only [ne_eq, TestMode.playback.injEq, forall_eq', false_or]
      rw [h.scan_playback hmode (h.one_le_last hpos)]
      -- a last request sent before the first one is one of the cases of the scan
      refine or_iff_right_of_imp fun hlt => Or.inr (Or.inl ⟨1, le_rfl, ?_, hlt⟩)
      exact h.le_last.mp (h.one_le_last hpos)
  · simp only [hfit, false_and, iff_false, not_exists]
    intro r
    simp [clientStatistics_of_none hpos (h.testEnd_none (not_le.mp hfit))]

end Recorded

/-- The statistics are printed, and the exit in `verifyError` is not taken, exactly when nothing
was received or the scan ends inside the table. -/
theorem statistics_stay_inside {p : UserParams} {st : Statistics} (h : Recorded p st) :
    (∃ r, st.ClientStatistics (some r)) ↔ st.receiveCount = 0 ∨ Recorded.Inside p st := by
  by_cases h0 : st.receiveCount = 0
  · simp only [Statistics.clientStatistics_of_zero h0, Option.some.injEq, exists_eq, h0, true_or]
  · rw [h.reports_of_inside h0]
    simp only [h0, false_or]

namespace Statistics

/-- A run with one server that answers every message: the send times, and the reply times with 0
where no reply came. -/
def ofReplies (p : UserParams) (tx rx : List TicksTime) : Statistics where
  mode := p.mode
  fullRtt := false
  ticks1msec := 1
  sendCount := tx.length
  receiveCount := ∑ i ∈ Finset.Icc 1 tx.length, if rx.getD (i - 1) 0 ≠ 0 then 1 else 0
  serverNo := 0
  times :=
    { PacketTimes.new p.maxSequenceNo 1 with
      tx := fun i => if i = 0 then 0 else tx.getD (i - 1) 0
      rx := fun i k => if i = 0 ∨ k ≠ 0 then 0 else rx.getD (i - 1) 0 }

theorem recorded_ofReplies {p : UserParams} {tx rx : List TicksTime} (hR : p.replyEvery = 1)
    (hservers : p.clientWorkWithSrvNum = 1)
    (hnumber : ∀ target, p.mode = .numberBased target → target ≤ maxPacketNumber)
    (hfit : tx.length ≤ p.maxSequenceNo) (hlength : rx.length = tx.length)
    (htx : ∀ t ∈ tx, 0 < t) (hrx : ∀ t ∈ rx, 0 ≤ t) : Recorded p (ofReplies p tx rx) where
  mode := rfl
  every := hR.symm
  every_pos := hR ▸ Nat.one_pos
  maxSequenceNo := rfl
  number target hmode := ⟨hR, hnumber target hmode⟩
  ticks := Int.one_pos
  server := hservers ▸ Nat.one_pos
  inTable i hi := hi.trans hfit
  sent i hone hi := by
    rw [hR, Nat.mul_one] at hi
    have hlt : i - 1 < tx.length := by
      have hi' : i ≤ tx.length := hi
      omega
    have hne : i ≠ 0 := by omega
    simp only [ofReplies, if_neg hne, List.getD_eq_getElem _ _ hlt]
    exact htx _ (List.getElem_mem hlt)
  unsent i hi := by
    rw [hR, Nat.mul_one] at hi
    have hle : tx.length ≤ i - 1 := Nat.le_sub_one_of_lt hi
    have hne : i ≠ 0 := (Nat.zero_le _).trans_lt hi |>.ne'
    simp only [ofReplies, if_neg hne, List.getD_eq_default _ _ hle]
  received i k hne := by
    simp only [ofReplies] at hne ⊢
    split at hne
    · exact absurd rfl hne
    · next hik =>
      rw [not_or, not_not] at hik
      have hlt : i - 1 < rx.length := by
        by_contra hle
        exact hne (List.getD_eq_default _ _ (not_lt.mp hle))
      rw [if_neg (by simpa using hik)]
      rw [List.getD_eq_getElem _ _ hlt] at hne ⊢
      have hnonneg := hrx _ (List.getElem_mem hlt)
      rw [hR, hservers, hik.2]
      exact ⟨lt_of_le_of_ne hnonneg hne.symm, by omega, by omega, Nat.one_pos⟩
  receiveCount := by
    rw [hR, hservers, Nat.div_one]
    show (∑ i ∈ Finset.Icc 1 tx.length, if rx.getD (i - 1) 0 ≠ 0 then 1 else 0) =
      ∑ i ∈ Finset.Icc 1 tx.length, _
    refine Finset.sum_congr rfl fun i hi => ?_
    have hne : i ≠ 0 := by
      have hone := (Finset.mem_Icc.mp hi).1
      omega
    rw [Finset.card_filter, Finset.sum_range_one]
    simp [ofReplies, hne]
  fresh := ⟨rfl, rfl⟩

end Statistics

def playTwo : UserParams := ⟨.playback 2, 1, 1000, 1, 1, 1, 1⟩

/-- The two replies arrive in the opposite order: the second one is out of order, one observation
is short of two replies, and message 3 is not in the table. -/
theorem reordered_playback_exits :
    Recorded playTwo (Statistics.ofReplies playTwo [1, 2] [20, 10]) ∧
      (Statistics.ofReplies playTwo [1, 2] [20, 10]).ClientStatistics none := by
  refine ⟨Statistics.recorded_ofReplies rfl rfl ?_ ?_ rfl ?_ ?_, 4, rfl⟩
  · rintro target ⟨⟩
  · decide
  · decide
  · decide

def onePerMsec : UserParams := ⟨.timeBased, 1, 1000, 1, 1, 1, 1⟩

theorem statistics_stay_inside_reordered :
    ∃ r, (Statistics.ofReplies onePerMsec [1, 2, 500, 600] [20, 10, 0, 601]).ClientStatistics
      (some r) := by
  refine (statistics_stay_inside (p := onePerMsec) (Statistics.recorded_ofReplies rfl rfl ?_ ?_
    (by decide) ?_ ?_)).mpr (Or.inr ⟨?_, Or.inl ?_⟩)
  · rintro target ⟨⟩
  · decide
  · decide
  · decide
  · decide
  · rintro size ⟨⟩

end Sockperf
