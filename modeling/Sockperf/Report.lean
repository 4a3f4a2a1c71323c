import Sockperf.Statistics

/-!
# What the statistics report

The counters of `client_statistics` partition the part of the window that the
scan visits. Whether it visits all of it depends on which replies are missing:
the scan ends as soon as it has found as many observations as replies were
received.
-/

namespace Sockperf

open While
set_option autoImplicit false

namespace Statistics
variable {st : Statistics} {a b : TicksTime} {s : Scan}

/-! ## The states of the scan -/

theorem counted_of_visits (hR : 0 < st.replyEvery) (hrx : ∀ j, 0 ≤ st.rx j)
    (hv : Visits (st.turn a b) st.scanStart s) : st.Counted a b s :=
  hv.invariant (st.Counted a b) counted_start fun _ _ _ h hturn => h.step hR hrx hturn

theorem visits_of_returns (hR : 0 < st.replyEvery) (hrx : ∀ j, 0 ≤ st.rx j)
    (hr : Returns (st.turn a b) st.scanStart (some s)) :
    Visits (st.turn a b) st.scanStart s := by
  obtain ⟨t, hv, hturn⟩ := hr.visits
  have hof := turn_of (a := a) (b := b) hR (counted_of_visits hR hrx hv).same
  rw [hturn] at hof
  generalize hd : Turn.done (σ := Scan) (some s) = d at hof
  cases hof with
  | full h =>
    cases hd
    exact hv
  | stop room inTable h =>
    cases hd
    exact hv
  | outside room h => cases hd
  | before => cases hd
  | drop => cases hd
  | outOfOrder => cases hd
  | observe => cases hd

theorem returns_of_scanned (h : st.ClientStatistics (some (.scanned s))) : ∃ a b,
    st.testStart = some a ∧ st.testEnd = some b ∧
      Returns (st.turn a b) st.scanStart (some s) := by
  obtain ⟨fuel, hf⟩ := h
  unfold clientStatistics at hf
  split at hf
  · cases hf
  split at hf
  · next a b ha hb =>
    split at hf
    · cases hf
    · obtain ⟨x, hx, hmap⟩ := Option.map_eq_some_iff.mp hf
      obtain ⟨t, rfl, ht⟩ := Option.map_eq_some_iff.mp hmap
      cases ht
      exact ⟨a, b, ha, hb, fuel, hx⟩
  · cases hf

@[simp] theorem drop_counter (serverNo seqNo : Nat) (txTime : TicksTime) :
    (s.drop serverNo seqNo txTime).counter = s.counter := by
  unfold Scan.drop
  dsimp only
  split <;> rfl

theorem answered_last (hR : 0 < st.replyEvery) (hrx : ∀ j, 0 ≤ st.rx j)
    (hpos : st.receiveCount ≠ 0) (hv : Visits (st.turn a b) st.scanStart s) :
    s.counter < st.receiveCount ∨ ∃ j, s.i = j + 1 ∧ st.rx j ≠ 0 := by
  refine hv.invariant
    (fun s => s.counter < st.receiveCount ∨ ∃ j, s.i = j + 1 ∧ st.rx j ≠ 0)
    (Or.inl (Nat.pos_of_ne_zero hpos)) fun t t' ht _ hturn => ?_
  have hof := turn_of (a := a) (b := b) hR (counted_of_visits hR hrx ht).same
  rw [hturn] at hof
  generalize hr : Turn.next (ρ := Option Scan) t' = r at hof
  cases hof with
  | full h => cases hr
  | outside room h => cases hr
  | stop room inTable h => cases hr
  | before room passes hlt =>
    cases hr
    exact Or.inl room
  | drop room passes inside h0 =>
    cases hr
    left
    rwa [drop_counter, enter_counter]
  | outOfOrder room passes inside answered hlt =>
    cases hr
    left
    show (t.enter _ _).counter < _
    rwa [enter_counter]
  | observe room passes inside answered hle =>
    cases hr
    exact Or.inr ⟨t.i, by simp [Scan.observe], answered⟩

/-! ## The requests that should be reported -/

/-- The request lies between the start and the end of the test and, in number based mode, in the
range of the measured numbers. -/
def measured (st : Statistics) (i : Nat) : Bool :=
  match st.testStart, st.testEnd with
  | some a, some b =>
    st.startSearchHere ≤ i ∧ a ≤ st.tx i ∧ st.tx i ≤ b ∧ !st.pastNumber (i * st.replyEvery)
  | _, _ => false

/-- The measured pong requests without a reply of this server. -/
def unanswered (st : Statistics) : Finset Nat :=
  (Finset.Icc 1 (st.sendCount / st.replyEvery)).filter fun i => st.measured i ∧ st.rx i = 0

/-- The reply is an observation: no earlier measured request was answered later. -/
def Observed (st : Statistics) (i k : Nat) : Prop :=
  k = st.serverNo ∧ st.measured i ∧ ∀ j, j < i → st.measured j → st.rx j ≤ st.rx i

theorem one_le_start : 1 ≤ st.startSearchHere := by
  unfold startSearchHere
  split <;> omega

theorem pastNumber_mono {m n : Nat} (hmn : m ≤ n) (hn : st.pastNumber n = false) :
    st.pastNumber m = false := by
  unfold pastNumber at hn ⊢
  split
  · next target hmode =>
    simp only [hmode, decide_eq_false_iff_not, not_le] at hn ⊢
    exact hmn.trans_lt hn
  · rfl

theorem verdict_eq_dropped {i : Nat} : st.verdict a i = .dropped ↔ st.rx i = 0 := by
  unfold verdict
  split
  · next h0 => simp [h0]
  · next h0 => split <;> simp [h0]

end Statistics

/-- `getDroppedCount` after `client_statistics`. -/
def Report.dropped (st : Statistics) : Report → Nat
  | .scanned s => s.times.dropped st.serverNo
  | _ => st.times.dropped st.serverNo

namespace Recorded
open Statistics
variable {p : UserParams} {st : Statistics} (h : Recorded p st)
include h

theorem replyEvery_eq : st.replyEvery = p.replyEvery := h.every

theorem mem_unanswered {i : Nat} : i ∈ st.unanswered ↔
    (1 ≤ i ∧ i * p.replyEvery ≤ st.sendCount) ∧ st.measured i = true ∧ st.rx i = 0 := by
  rw [unanswered, Finset.mem_filter, Finset.mem_Icc, h.replyEvery_eq, h.le_last]

section Exact
variable {a b : TicksTime} {s : Scan} (ha : st.testStart = some a) (hb : st.testEnd = some b)
include ha hb

omit h in
theorem measured_iff {i : Nat} : st.measured i = true ↔ st.startSearchHere ≤ i ∧ a ≤ st.tx i ∧
    st.tx i ≤ b ∧ st.pastNumber (i * st.replyEvery) = false := by
  simp [measured, ha, hb]

omit h in
theorem measured_of_passes {i : Nat} (hp : st.Passes b i) (hstart : st.startSearchHere ≤ i)
    (hin : a ≤ st.tx i) : st.measured i = true :=
  (measured_iff ha hb).mpr ⟨hstart, hin, hp.le_end, hp.number⟩

theorem dropped_eq (hc : st.Counted a b s) :
    s.times.dropped st.serverNo = (st.unanswered.filter (· < s.i)).card := by
  rw [hc.dropped, h.fresh.1, Nat.zero_add,
    ← List.toFinset_card_of_nodup (judged_nodup s.i .dropped)]
  congr 1
  ext i
  rw [List.mem_toFinset, mem_judged, Finset.mem_filter, unanswered, Finset.mem_filter,
    Finset.mem_Icc, verdict_eq_dropped, h.replyEvery_eq]
  constructor
  · rintro ⟨hstart, hlt, hin, hrx⟩
    have hp := hc.passed i hstart hlt
    have hone : 1 ≤ i := one_le_start.trans hstart
    exact ⟨⟨⟨hone, h.le_last_of_passes hp⟩, measured_of_passes ha hb hp hstart hin, hrx⟩, hlt⟩
  · rintro ⟨⟨-, hm, hrx⟩, hlt⟩
    obtain ⟨hstart, hin, -, -⟩ := (measured_iff ha hb).mp hm
    exact ⟨hstart, hlt, hin, hrx⟩

theorem dropped_exact_iff (hc : st.Counted a b s) :
    s.times.dropped st.serverNo = st.unanswered.card ↔ ∀ i ∈ st.unanswered, i < s.i := by
  rw [h.dropped_eq ha hb hc, Finset.card_filter_eq_iff]

section Increasing
variable (increasing : ∀ i j, 1 ≤ i → i < j → j * p.replyEvery ≤ st.sendCount →
  st.tx i < st.tx j)
include increasing

omit h in
theorem measured_below {i j : Nat} (hm : st.measured i = true)
    (hsent : i * p.replyEvery ≤ st.sendCount) (hlt : j < i) :
    st.measured j = true ↔ st.startSearchHere ≤ j ∧ a ≤ st.tx j := by
  obtain ⟨hstart, hin, hle, hnumber⟩ := (measured_iff ha hb).mp hm
  rw [measured_iff ha hb]
  refine ⟨fun hj => ⟨hj.1, hj.2.1⟩, fun hj => ⟨hj.1, hj.2, ?_, ?_⟩⟩
  · exact (increasing j i (one_le_start.trans hj.1) hlt hsent).le.trans hle
  · exact pastNumber_mono (Nat.mul_le_mul_right _ hlt.le) hnumber

theorem observed_iff {i k : Nat} (hrx : st.times.rx i k ≠ 0) :
    st.Observed i k ↔ k = st.serverNo ∧ st.measured i = true ∧ st.verdict a i = .observation := by
  obtain ⟨-, hone, hsent, -⟩ := h.received i k hrx
  unfold Observed
  refine and_congr_right fun hk => and_congr_right fun hm => ?_
  rw [verdict_eq_observation]
  have hrx' : st.rx i ≠ 0 := by rwa [hk] at hrx
  simp only [ne_eq, hrx', not_false_eq_true, true_and]
  refine forall_congr' fun j => ⟨fun hj hstart hlt hin => ?_, fun hj hlt hmj => ?_⟩
  · exact hj hlt ((measured_below ha hb increasing hm hsent hlt).mpr ⟨hstart, hin⟩)
  · obtain ⟨hstart, hin⟩ := (measured_below ha hb increasing hm hsent hlt).mp hmj
    exact hj hstart hlt hin

theorem visited_of_stop {i : Nat} (hstart : st.startSearchHere ≤ s.i)
    (inTable : s.i * st.replyEvery ≤ st.times.maxSequenceNo) (hstop : ¬ st.Passes b s.i)
    (hm : st.measured i = true) (hsent : i * p.replyEvery ≤ st.sendCount) : i < s.i := by
  by_contra hle
  rw [not_lt] at hle
  obtain ⟨-, -, hend, hnumber⟩ := (measured_iff ha hb).mp hm
  have hone : 1 ≤ s.i := one_le_start.trans hstart
  have hsent' : s.i * p.replyEvery ≤ st.sendCount := (Nat.mul_le_mul_right _ hle).trans hsent
  refine hstop ⟨inTable, ?_, (h.sent s.i hone hsent').ne', ?_⟩
  · rcases hle.eq_or_lt with heq | hlt
    · rwa [heq]
    · exact (increasing s.i i hone hlt hsent).le.trans hend
  · exact pastNumber_mono (Nat.mul_le_mul_right _ hle) hnumber

/-- The scan ended before it had found as many observations as replies: some reply is not an
observation, and the drops are exact. -/
theorem exact_of_stop (hc : st.Counted a b s) (room : s.counter < st.receiveCount)
    (inTable : s.i * st.replyEvery ≤ st.times.maxSequenceNo) (hstop : ¬ st.Passes b s.i) :
    s.times.dropped st.serverNo = st.unanswered.card ∧
      ∃ i k, st.times.rx i k ≠ 0 ∧ ¬ st.Observed i k := by
  constructor
  · rw [h.dropped_exact_iff ha hb hc]
    intro i hi
    obtain ⟨⟨-, hsent⟩, hm, -⟩ := h.mem_unanswered.mp hi
    exact h.visited_of_stop ha hb increasing hc.start_le inTable hstop hm hsent
  · by_contra hall
    simp only [not_exists, not_and, not_not] at hall
    have heq : (st.judged a s.i .observation).length = st.receiveCount := by
      rw [h.observations_eq_iff]
      intro j k hrx
      obtain ⟨hk, hm, hv⟩ := (h.observed_iff ha hb increasing hrx).mp (hall j k hrx)
      obtain ⟨hstart, hin, -, -⟩ := (measured_iff ha hb).mp hm
      have hlt := h.visited_of_stop ha hb increasing hc.start_le inTable hstop hm
        (h.received j k hrx).2.2.1
      exact ⟨hk, mem_judged.mpr ⟨hstart, hlt, hin, hv⟩⟩
    rw [hc.counter, heq] at room
    exact lt_irrefl _ room

/-- The scan ended with as many observations as replies: every reply is an observation, and the
drops are exact when the last of them comes after every unanswered request. -/
theorem exact_of_full (hc : st.Counted a b s) (hfull : s.counter = st.receiveCount)
    (hlast : ∃ j, s.i = j + 1 ∧ st.rx j ≠ 0) :
    (∀ i k, st.times.rx i k ≠ 0 → st.Observed i k) ∧
      (s.times.dropped st.serverNo = st.unanswered.card ↔
        ∀ i ∈ st.unanswered, ∃ j, i < j ∧ st.rx j ≠ 0) := by
  have hmem : ∀ i k, st.times.rx i k ≠ 0 → k = st.serverNo ∧ i ∈ st.judged a s.i .observation := by
    rw [hc.counter, h.observations_eq_iff] at hfull
    exact hfull
  constructor
  · intro i k hrx
    obtain ⟨hk, hi⟩ := hmem i k hrx
    obtain ⟨hstart, hlt, hin, hv⟩ := mem_judged.mp hi
    rw [h.observed_iff ha hb increasing hrx]
    exact ⟨hk, measured_of_passes ha hb (hc.passed i hstart hlt) hstart hin, hv⟩
  · rw [h.dropped_exact_iff ha hb hc]
    refine forall₂_congr fun i hi => ⟨fun hlt => ?_, ?_⟩
    · obtain ⟨j, hj, hrx⟩ := hlast
      refine ⟨j, lt_of_le_of_ne (by omega) ?_, hrx⟩
      rintro rfl
      exact hrx (h.mem_unanswered.mp hi).2.2
    · rintro ⟨j, hlt, hrx⟩
      exact hlt.trans (mem_judged.mp (hmem j _ hrx).2).2.1

end Increasing

theorem unanswered_eq_empty_of_lt (hab : b < a) : st.unanswered = ∅ := by
  apply Finset.eq_empty_of_forall_notMem
  intro i hi
  obtain ⟨-, hin, hle, -⟩ := (measured_iff ha hb).mp (h.mem_unanswered.mp hi).2.1
  exact absurd (hin.trans hle) (not_le.mpr hab)

end Exact

/-- What was received decides whether the scan visits every unanswered request. -/
def Complete (st : Statistics) : Prop :=
  (∃ i k, st.times.rx i k ≠ 0 ∧ ¬ st.Observed i k) ∨
    ∀ i ∈ st.unanswered, ∃ j, i < j ∧ st.rx j ≠ 0

theorem exact_of_zero (h0 : st.receiveCount = 0) :
    (∃ r, st.ClientStatistics (some r) ∧ r.dropped st = st.unanswered.card) ↔ Complete st := by
  have hrx : ∀ i k, st.times.rx i k = 0 := by
    intro i k
    by_contra hne
    have hall := (h.observations_eq_iff (a := 0) (i := 0)).mp (by simp [judged, window, h0])
    obtain ⟨-, hmem⟩ := hall i k hne
    exact absurd (mem_judged.mp hmem).2.1 (Nat.not_lt_zero i)
  have hdropped : (Report.noMessages).dropped st = 0 := h.fresh.1
  simp only [clientStatistics_of_zero h0, Option.some.injEq, exists_eq_left, hdropped, Complete,
    Statistics.rx, hrx, ne_eq, not_true, false_and, exists_false, and_false, false_or, imp_false]
  rw [eq_comm, Finset.card_eq_zero, Finset.eq_empty_iff_forall_notMem]

end Recorded

/-- For send times that increase, the dropped count is the number of measured requests without a
reply exactly when the statistics are printed and either some reply is not an observation or every
such request has an answered one after it. -/
theorem statistics_drops_exact {p : UserParams} {st : Statistics} (h : Recorded p st)
    (increasing : ∀ i j, 1 ≤ i → i < j → j * p.replyEvery ≤ st.sendCount → st.tx i < st.tx j) :
    (∃ r, st.ClientStatistics (some r) ∧ r.dropped st = st.unanswered.card) ↔
      (st.receiveCount = 0 ∨ Recorded.Inside p st) ∧
        ((∃ i k, st.times.rx i k ≠ 0 ∧ ¬ st.Observed i k) ∨
          ∀ i ∈ st.unanswered, ∃ j, i < j ∧ st.rx j ≠ 0) := by
  change _ ↔ _ ∧ Recorded.Complete st
  by_cases h0 : st.receiveCount = 0
  · simp only [h.exact_of_zero h0, h0, true_or, true_and]
  simp only [h0, false_or]
  rw [← h.reports_of_inside h0]
  by_cases hfit : st.sendCount ≤ p.maxSequenceNo
  swap
  · simp [Statistics.clientStatistics_of_none h0 (h.testEnd_none (not_le.mp hfit))]
  obtain ⟨a, ha⟩ : ∃ a, st.testStart = some a := ⟨_, h.testStart_eq h0⟩
  obtain ⟨b, hb⟩ : ∃ b, st.testEnd = some b := ⟨_, h.testEnd_eq hfit⟩
  by_cases hab : b < a
  · have hempty := h.unanswered_eq_empty_of_lt ha hb hab
    simp [Statistics.clientStatistics_of_lt h0 ha hb hab, Recorded.Complete, hempty,
      Report.dropped, h.fresh.1]
  obtain ⟨r, hr, hend⟩ := Statistics.scan_returns (a := a) (b := b) h.replyEvery_pos h.rx_nonneg
  have hreport : ∀ q, st.ClientStatistics q ↔ q = r.map .scanned := by
    intro q
    rw [Statistics.clientStatistics_of_le h0 ha hb (not_lt.mp hab)]
    constructor
    · rintro ⟨x, hx, rfl⟩
      rw [hx.unique hr]
    · rintro rfl
      exact ⟨r, hr, rfl⟩
  cases r with
  | none => simp [hreport]
  | some s =>
    simp only [hreport, Option.map_some, Option.some.injEq, exists_eq_left, exists_eq, true_and,
      Report.dropped, Recorded.Complete]
    obtain ⟨hc, hfull | ⟨room, inTable, hstop⟩⟩ := hend
    · have hv := Statistics.visits_of_returns h.replyEvery_pos h.rx_nonneg hr
      have hlast := (Statistics.answered_last h.replyEvery_pos h.rx_nonneg h0 hv).resolve_left
        (by omega)
      obtain ⟨hall, hiff⟩ := h.exact_of_full ha hb increasing hc hfull hlast
      rw [hiff, or_iff_right]
      rintro ⟨i, k, hrx, hno⟩
      exact hno (hall i k hrx)
    · obtain ⟨hexact, hsome⟩ := h.exact_of_stop ha hb increasing hc room inTable hstop
      exact ⟨fun _ => Or.inl hsome, fun _ => hexact⟩

def playThree : UserParams := ⟨.playback 3, 1, 1000, 1, 1, 1, 1⟩

/-- The reply to the last message is lost. Both replies that came are found by the time the scan
reaches it, and no drop is reported. -/
theorem lost_last_reply_unreported :
    Recorded playThree (Statistics.ofReplies playThree [1, 2, 3] [10, 20, 0]) ∧
      (Statistics.ofReplies playThree [1, 2, 3] [10, 20, 0]).unanswered = {3} ∧
      ∃ r, (Statistics.ofReplies playThree [1, 2, 3] [10, 20, 0]).clientStatistics 4 =
        some (some r) ∧
        r.dropped (Statistics.ofReplies playThree [1, 2, 3] [10, 20, 0]) = 0 := by
  refine ⟨Statistics.recorded_ofReplies rfl rfl ?_ ?_ rfl ?_ ?_, ?_, _, rfl, rfl⟩
  · rintro target ⟨⟩
  · decide
  · decide
  · decide
  · decide

theorem statistics_drops_exact_middle :
    ∃ r, (Statistics.ofReplies onePerMsec [1, 500, 600, 700] [2, 501, 0, 701]).ClientStatistics
        (some r) ∧
      r.dropped (Statistics.ofReplies onePerMsec [1, 500, 600, 700] [2, 501, 0, 701]) =
        (Statistics.ofReplies onePerMsec [1, 500, 600, 700] [2, 501, 0, 701]).unanswered.card := by
  refine (statistics_drops_exact (p := onePerMsec) (Statistics.recorded_ofReplies rfl rfl ?_ ?_
    (by decide) ?_ ?_) ?_).mpr ⟨Or.inr ⟨?_, Or.inl ?_⟩, Or.inr ?_⟩
  · rintro target ⟨⟩
  · decide
  · decide
  · decide
  · have hfour : ∀ j ≤ 4, ∀ i < j, 1 ≤ i →
        (Statistics.ofReplies onePerMsec [1, 500, 600, 700] [2, 501, 0, 701]).tx i <
          (Statistics.ofReplies onePerMsec [1, 500, 600, 700] [2, 501, 0, 701]).tx j := by
      decide
    intro i j hone hlt hj
    exact hfour j ((Nat.mul_one j).ge.trans hj) i hlt hone
  · decide
  · rintro size ⟨⟩
  · have hthree : (Statistics.ofReplies onePerMsec [1, 500, 600, 700]
        [2, 501, 0, 701]).unanswered = {3} := by decide
    intro i hi
    rw [hthree, Finset.mem_singleton] at hi
    exact ⟨4, by omega, by decide⟩

/-! ## The valid part of the run -/

namespace Statistics
variable {st : Statistics} {a b : TicksTime} {s : Scan}

variable (st a s) in
/-- The first request of the window starts the valid part; observations and later drops move its
end. -/
structure Bounded : Prop where
  first : st.window a s.i = [] ∧ s.startValidSeqNo = 0 ∨
    ∃ i ∈ st.window a s.i, s.startValidSeqNo = i * st.replyEvery ∧ s.startValidTime = st.tx i ∧
      ∀ j ∈ st.window a s.i, i ≤ j
  prev_le : s.prevRxTime ≤ s.endValidTime
  seqNo_le : ∀ j ∈ st.judged a s.i .observation, j * st.replyEvery ≤ s.endValidSeqNo

theorem bounded_start : st.Bounded a st.scanStart := by
  have hwindow : st.window a st.startSearchHere = [] := by simp [window]
  refine ⟨Or.inl ⟨hwindow, rfl⟩, le_rfl, ?_⟩
  simp [scanStart, judged, hwindow]

section Step
variable (h : st.Bounded a s)
include h

theorem Bounded.enter_first (hR : 0 < st.replyEvery) (hstart : st.startSearchHere ≤ s.i)
    (inside : a ≤ st.tx s.i) : ∃ i ∈ st.window a (s.i + 1),
      (s.enter (s.i * st.replyEvery) (st.tx s.i)).startValidSeqNo = i * st.replyEvery ∧
      (s.enter (s.i * st.replyEvery) (st.tx s.i)).startValidTime = st.tx i ∧
      ∀ j ∈ st.window a (s.i + 1), i ≤ j := by
  have hnext : st.window a (s.i + 1) = st.window a s.i ++ [s.i] := by
    rw [window_succ hstart, if_pos inside]
  rw [hnext]
  rcases h.first with ⟨hnil, hzero⟩ | ⟨i, hi, hseq, htime, hmin⟩
  · refine ⟨s.i, by simp, ?_, ?_, ?_⟩
    · rw [Scan.enter, if_pos hzero]
    · rw [Scan.enter, if_pos hzero]
    · simp [hnil]
  · have hne : s.startValidSeqNo ≠ 0 := by
      rw [hseq]
      have hone : 1 ≤ i := one_le_start.trans (mem_window.mp hi).1
      exact (Nat.mul_pos hone hR).ne'
    refine ⟨i, List.mem_append_left _ hi, ?_, ?_, ?_⟩
    · rw [Scan.enter, if_neg hne, hseq]
    · rw [Scan.enter, if_neg hne, htime]
    · intro j hj
      rcases List.mem_append.mp hj with hj | hj
      · exact hmin j hj
      · rw [List.mem_singleton.mp hj]
        exact (mem_window.mp hi).2.1.le

end Step

@[simp] theorem enter_endValidTime (seqNo : Nat) (txTime : TicksTime) :
    (s.enter seqNo txTime).endValidTime = s.endValidTime := by
  unfold Scan.enter
  split <;> rfl

@[simp] theorem enter_endValidSeqNo (seqNo : Nat) (txTime : TicksTime) :
    (s.enter seqNo txTime).endValidSeqNo = s.endValidSeqNo := by
  unfold Scan.enter
  split <;> rfl

theorem drop_spec (serverNo seqNo : Nat) (txTime : TicksTime) :
    let t := s.drop serverNo seqNo txTime
    t.startValidSeqNo = s.startValidSeqNo ∧ t.startValidTime = s.startValidTime ∧
      t.prevRxTime = s.prevRxTime ∧ s.endValidTime ≤ t.endValidTime ∧
      (t.endValidSeqNo = s.endValidSeqNo ∨ t.endValidSeqNo = seqNo) := by
  unfold Scan.drop
  dsimp only
  split
  · next hlt => exact ⟨rfl, rfl, rfl, hlt.le, Or.inr rfl⟩
  · exact ⟨rfl, rfl, rfl, le_rfl, Or.inl rfl⟩

theorem Bounded.step {s' : Scan} (hR : 0 < st.replyEvery) (hc : st.Counted a b s)
    (hrx : ∀ j, 0 ≤ st.rx j) (h : st.Bounded a s) (hturn : st.turn a b s = .next s') :
    st.Bounded a s' := by
  have hof := turn_of (a := a) (b := b) hR hc.same
  rw [hturn] at hof
  generalize hr : Turn.next (ρ := Option Scan) s' = r at hof
  cases hof with
  | full h => cases hr
  | outside room h => cases hr
  | stop room inTable h => cases hr
  | before room passes hlt =>
    cases hr
    have hout : ¬ a ≤ st.tx s.i := not_le.mpr hlt
    have hwindow : st.window a (s.i + 1) = st.window a s.i := by
      rw [window_succ hc.start_le, if_neg hout]
    refine ⟨?_, h.prev_le, ?_⟩
    · simpa only [hwindow] using h.first
    · have hjudged : st.judged a (s.i + 1) .observation = st.judged a s.i .observation := by
        rw [judged_succ hc.start_le, if_neg fun hh => hout hh.1]
      simpa only [hjudged] using h.seqNo_le
  | drop room passes inside h0 =>
    cases hr
    have hv : st.verdict a s.i = .dropped := if_pos h0
    obtain ⟨hseq, htime, hprev, hend, hendSeq⟩ := drop_spec
      (s := s.enter (s.i * st.replyEvery) (st.tx s.i)) st.serverNo (s.i * st.replyEvery) (st.tx s.i)
    refine ⟨Or.inr ?_, ?_, ?_⟩
    · rw [drop_i, enter_i, hseq, htime]
      exact h.enter_first hR hc.start_le inside
    · rw [hprev, enter_prevRxTime]
      rw [enter_endValidTime] at hend
      exact h.prev_le.trans hend
    · rw [drop_i, enter_i, hc.judged_next inside hv, if_neg (by decide)]
      intro j hj
      rcases hendSeq with heq | heq
      · rw [heq, enter_endValidSeqNo]
        exact h.seqNo_le j hj
      · rw [heq]
        exact Nat.mul_le_mul_right _ (mem_judged.mp hj).2.1.le
  | outOfOrder room passes inside answered hlt =>
    cases hr
    have hv := hc.verdict_outOfOrder hrx answered hlt
    refine ⟨Or.inr ?_, ?_, ?_⟩
    · simpa [Scan.outOfOrder] using h.enter_first hR hc.start_le inside
    · simpa [Scan.outOfOrder] using h.prev_le
    · simpa [Scan.outOfOrder, hc.judged_next inside hv] using h.seqNo_le
  | observe room passes inside answered hle =>
    cases hr
    have hv := hc.verdict_observation answered hle
    refine ⟨Or.inr ?_, le_rfl, ?_⟩
    · simpa [Scan.observe] using h.enter_first hR hc.start_le inside
    · simp only [Scan.observe, enter_i, hc.judged_next inside hv, if_true, List.mem_append,
        List.mem_singleton]
      rintro j (hj | rfl)
      · exact Nat.mul_le_mul_right _ (mem_judged.mp hj).2.1.le
      · exact le_rfl

theorem bounded_of_visits (hR : 0 < st.replyEvery) (hrx : ∀ j, 0 ≤ st.rx j)
    (hv : Visits (st.turn a b) st.scanStart s) : st.Bounded a s :=
  hv.invariant (st.Bounded a) bounded_start
    fun _ _ ht h hturn => h.step hR (counted_of_visits hR hrx ht) hrx hturn

variable (st a s) in
/-- What the counters and the valid part of a scan say about the requests visited in the window. -/
structure Partitioned : Prop where
  /-- every visited request of the window has one verdict, -/
  unique : ∀ i ∈ st.window a s.i, ∃! v, i ∈ st.judged a s.i v
  /-- and is counted under it -/
  counted : s.counter = (st.judged a s.i .observation).length ∧
    s.times.dropped st.serverNo = (st.judged a s.i .dropped).length ∧
    s.times.ooo st.serverNo = (st.judged a s.i .outOfOrder).length
  total : s.counter + s.times.dropped st.serverNo + s.times.ooo st.serverNo =
    (st.window a s.i).length
  outOfOrder_iff : ∀ i ∈ st.window a s.i, st.rx i ≠ 0 →
    (i ∈ st.judged a s.i .outOfOrder ↔ ∃ j ∈ st.window a s.i, j < i ∧ st.rx i < st.rx j)
  /-- the observations, in their order -/
  log : s.fullLog = (st.judged a s.i .observation).map fun j => (st.tx j, st.rx j)
  sorted : (s.fullLog.map Prod.snd).Pairwise (· ≤ ·)
  bounds : ∀ i ∈ st.judged a s.i .observation, s.startValidTime ≤ st.tx i ∧
    st.rx i ≤ s.endValidTime ∧ s.startValidSeqNo ≤ i * st.replyEvery ∧
    i * st.replyEvery ≤ s.endValidSeqNo
  /-- the printed run time and numbers of messages -/
  valid : s.counter ≠ 0 → 0 ≤ s.endValidTime - s.startValidTime ∧
    s.counter ≤ s.endValidSeqNo - s.startValidSeqNo + 1

theorem verdict_eq_outOfOrder {i : Nat} : st.verdict a i = .outOfOrder ↔
    st.rx i ≠ 0 ∧ ∃ j ∈ st.window a i, st.rx i < st.rx j := by
  unfold verdict
  split
  · next h0 => simp [h0]
  · next h0 =>
    split
    · next hex => exact ⟨fun _ => ⟨h0, hex⟩, fun _ => rfl⟩
    · next hex => simp [hex]

theorem length_judged (i : Nat) : (st.judged a i .observation).length +
    (st.judged a i .dropped).length + (st.judged a i .outOfOrder).length =
      (st.window a i).length := by
  unfold judged
  induction st.window a i with
  | nil => rfl
  | cons j l ih =>
    cases hv : st.verdict a j <;> simp [hv] <;> omega

theorem judged_pairwise (i : Nat) (v : Verdict) : (st.judged a i v).Pairwise (· < ·) :=
  (List.Pairwise.filter _ List.pairwise_lt_range').filter _

theorem observations_sorted (i : Nat) :
    ((st.judged a i .observation).map st.rx).Pairwise (· ≤ ·) := by
  rw [List.pairwise_map]
  refine (judged_pairwise i .observation).imp_of_mem fun {j k} hj hk hlt => ?_
  obtain ⟨hstart, -, hin, -⟩ := mem_judged.mp hj
  obtain ⟨-, -, -, hv⟩ := mem_judged.mp hk
  exact (verdict_eq_observation.mp hv).2 j hstart hlt hin

theorem unique_verdict {i j : Nat} (hj : j ∈ st.window a i) : ∃! v, j ∈ st.judged a i v := by
  refine ⟨st.verdict a j, by simp [judged, hj], fun v hv => ?_⟩
  exact (mem_judged.mp hv).2.2.2.symm

theorem outOfOrder_of_window {i j : Nat} (hj : j ∈ st.window a i) (hrx : st.rx j ≠ 0) :
    j ∈ st.judged a i .outOfOrder ↔ ∃ k ∈ st.window a i, k < j ∧ st.rx j < st.rx k := by
  obtain ⟨hstart, hlt, hin⟩ := mem_window.mp hj
  rw [mem_judged, verdict_eq_outOfOrder]
  constructor
  · rintro ⟨-, -, -, -, k, hk, hrk⟩
    obtain ⟨h1, h2, h3⟩ := mem_window.mp hk
    exact ⟨k, mem_window.mpr ⟨h1, h2.trans hlt, h3⟩, h2, hrk⟩
  · rintro ⟨k, hk, hkj, hrk⟩
    obtain ⟨h1, -, h3⟩ := mem_window.mp hk
    exact ⟨hstart, hlt, hin, hrx, k, mem_window.mpr ⟨h1, hkj, h3⟩, hrk⟩

/-- Observations have different sequence numbers between the first and the last one. -/
theorem length_observations_le {i lo hi : Nat} (hR : 0 < st.replyEvery)
    (hlo : ∀ j ∈ st.judged a i .observation, lo ≤ j * st.replyEvery)
    (hhi : ∀ j ∈ st.judged a i .observation, j * st.replyEvery ≤ hi) :
    (st.judged a i .observation).length ≤ hi + 1 - lo := by
  rw [← List.toFinset_card_of_nodup (judged_nodup i .observation), ← Nat.card_Icc]
  apply Finset.card_le_card_of_injOn (· * st.replyEvery)
  · intro j hj
    have hj' := List.mem_toFinset.mp hj
    exact Finset.mem_coe.mpr (Finset.mem_Icc.mpr ⟨hlo j hj', hhi j hj'⟩)
  · intro j _ k _ heq
    exact Nat.eq_of_mul_eq_mul_right hR heq

end Statistics

namespace Recorded
open Statistics
variable {p : UserParams} {st : Statistics} (h : Recorded p st) {a b : TicksTime} {s : Scan}
include h

theorem bounds_of_visits (hv : Visits (st.turn a b) st.scanStart s)
    (ordered : ∀ i j, 1 ≤ i → i ≤ j → j * p.replyEvery ≤ st.sendCount → st.tx i ≤ st.tx j) :
    ∀ i ∈ st.judged a s.i .observation, s.startValidTime ≤ st.tx i ∧ st.rx i ≤ s.endValidTime ∧
      s.startValidSeqNo ≤ i * st.replyEvery ∧ i * st.replyEvery ≤ s.endValidSeqNo := by
  have hc := counted_of_visits h.replyEvery_pos h.rx_nonneg hv
  have hb := bounded_of_visits h.replyEvery_pos h.rx_nonneg hv
  intro i hi
  obtain ⟨hstart, hlt, hin, -⟩ := mem_judged.mp hi
  have hw : i ∈ st.window a s.i := mem_window.mpr ⟨hstart, hlt, hin⟩
  obtain ⟨first, hfirst, hseq, htime, hmin⟩ := hb.first.resolve_left fun hnil => by
    rw [hnil.1] at hw
    exact List.not_mem_nil hw
  have hle := hmin i hw
  have hsent := h.le_last.mp (h.le_last_of_passes (hc.passed i hstart hlt))
  refine ⟨?_, (hc.prev_ge i hw).trans hb.prev_le, ?_, hb.seqNo_le i hi⟩
  · rw [htime]
    exact ordered first i (one_le_start.trans (mem_window.mp hfirst).1) hle hsent
  · rw [hseq]
    exact Nat.mul_le_mul_right _ hle

end Recorded

/-- Along the scan of a run whose send times do not decrease and whose replies come after their
requests, the three counters partition the visited part of the window; the printed report is about
such a state. -/
theorem statistics_partition {p : UserParams} {st : Statistics} (h : Recorded p st)
    (ordered : ∀ i j, 1 ≤ i → i ≤ j → j * p.replyEvery ≤ st.sendCount → st.tx i ≤ st.tx j)
    (causal : ∀ i k, st.times.rx i k ≠ 0 → st.tx i ≤ st.times.rx i k) :
    (∀ a b s, Visits (st.turn a b) st.scanStart s → st.Partitioned a s) ∧
      ∀ s, st.ClientStatistics (some (.scanned s)) → ∃ a b, st.testStart = some a ∧
        st.testEnd = some b ∧ Visits (st.turn a b) st.scanStart s := by
  constructor
  · intro a b s hv
    have hc := Statistics.counted_of_visits h.replyEvery_pos h.rx_nonneg hv
    have hbounds := h.bounds_of_visits hv ordered
    have hdropped := hc.dropped
    have hooo := hc.ooo
    rw [h.fresh.1, Nat.zero_add] at hdropped
    rw [h.fresh.2, Nat.zero_add] at hooo
    refine ⟨fun i hi => Statistics.unique_verdict hi, ⟨hc.counter, hdropped, hooo⟩, ?_,
      fun i hi hrx => Statistics.outOfOrder_of_window hi hrx, hc.log, ?_, hbounds, fun hne => ?_⟩
    · rw [hc.counter, hdropped, hooo, Statistics.length_judged]
    · rw [hc.log, List.map_map]
      exact Statistics.observations_sorted s.i
    · obtain ⟨i, hi⟩ := List.exists_mem_of_length_pos
        (Nat.pos_of_ne_zero (hc.counter ▸ hne))
      obtain ⟨h1, h2, h3, h4⟩ := hbounds i hi
      have hcausal := causal i st.serverNo
        (Statistics.verdict_eq_observation.mp (Statistics.mem_judged.mp hi).2.2.2).1
      refine ⟨sub_nonneg.mpr (h1.trans (hcausal.trans h2)), ?_⟩
      have hlength := Statistics.length_observations_le h.replyEvery_pos
        (fun j hj => (hbounds j hj).2.2.1) (fun j hj => (hbounds j hj).2.2.2)
      rw [hc.counter]
      omega
  · intro s hs
    obtain ⟨a, b, ha, hb, hr⟩ := Statistics.returns_of_scanned hs
    exact ⟨a, b, ha, hb, Statistics.visits_of_returns h.replyEvery_pos h.rx_nonneg hr⟩

/-- A playback of four messages that ended after three: one observation, one reply out of order
and one drop. -/
def threeOfFour : Statistics :=
  Statistics.ofReplies ⟨.playback 4, 1, 1000, 1, 1, 1, 1⟩ [1, 2, 3] [20, 10, 0]

theorem statistics_partition_playback : ∃ a s,
    threeOfFour.ClientStatistics (some (.scanned s)) ∧ threeOfFour.Partitioned a s ∧
      s.counter = 1 ∧ s.times.ooo 0 = 1 ∧ s.times.dropped 0 = 1 := by
  have hthree : ∀ j ≤ 3, ∀ i ≤ j, 1 ≤ i → threeOfFour.tx i ≤ threeOfFour.tx j := by decide
  have hcausal : ∀ i ≤ 3, threeOfFour.rx i ≠ 0 → threeOfFour.tx i ≤ threeOfFour.rx i := by decide
  have hrec : Recorded ⟨.playback 4, 1, 1000, 1, 1, 1, 1⟩ threeOfFour := by
    refine Statistics.recorded_ofReplies rfl rfl ?_ ?_ rfl ?_ ?_
    · rintro target ⟨⟩
    · decide
    · decide
    · decide
  have key := statistics_partition hrec
    (fun i j hone hle hj => hthree j ((Nat.mul_one j).ge.trans hj) i hle hone)
    (fun i k hrx => by
      obtain ⟨-, -, hi, hk⟩ := hrec.received i k hrx
      obtain rfl : k = 0 := Nat.lt_one_iff.mp hk
      exact hcausal i ((Nat.mul_one i).ge.trans hi) hrx)
  obtain ⟨s, hs, hcounts⟩ : ∃ s, threeOfFour.ClientStatistics (some (.scanned s)) ∧
      s.counter = 1 ∧ s.times.ooo 0 = 1 ∧ s.times.dropped 0 = 1 := by
    refine ⟨_, ⟨5, rfl⟩, ?_⟩
    exact ⟨rfl, rfl, rfl⟩
  obtain ⟨a, b, -, -, hv⟩ := key.2 s hs
  exact ⟨a, s, hs, key.1 a b s hv, hcounts⟩

end Sockperf
