import Sockperf.NumberLoop
import Sockperf.Report

/-!
# The statistics of a number based test

Every run of `doSendThenReceiveLoop` leaves a table of packet times that `client_statistics` can
read, whatever replies were lost, repeated or delayed. A run that ends because enough packets were
validated has received more replies than the scan visits numbers.
-/

namespace Sockperf

open While
set_option autoImplicit false

/-! ## The scan of the measured numbers -/

/-- The statistics visit the measured numbers and no others, count each of them once, and are never
short of replies. -/
def AccountsFor (st : Statistics) (target : Nat) : Prop :=
  ∃ a b s, st.testStart = some a ∧ st.testEnd = some b ∧
    st.ClientStatistics (some (.scanned s)) ∧
    (∀ i, (∃ t t', Visits (st.turn a b) st.scanStart t ∧ st.turn a b t = .next t' ∧ t.i = i) ↔
      testStartWarmupNum + 1 ≤ i ∧ i ≤ testStartWarmupNum + target) ∧
    s.counter + s.times.dropped st.serverNo + s.times.ooo st.serverNo = target ∧
    ∀ t, Visits (st.turn a b) st.scanStart t → t.counter < st.receiveCount

namespace Statistics
variable {st : Statistics} {a b : TicksTime} {s : Scan} {target : Nat}

theorem passed_of_visits (hR : 0 < st.replyEvery) (hrx : ∀ j, 0 ≤ st.rx j)
    (hv : Visits (st.turn a b) st.scanStart s) :
    ∀ i, st.startSearchHere ≤ i → i < s.i →
      ∃ t t', Visits (st.turn a b) st.scanStart t ∧ st.turn a b t = .next t' ∧ t.i = i := by
  refine hv.invariant
    (fun s => ∀ i, st.startSearchHere ≤ i → i < s.i →
      ∃ t t', Visits (st.turn a b) st.scanStart t ∧ st.turn a b t = .next t' ∧ t.i = i) ?_ ?_
  · intro i hle hlt
    exact absurd hlt (not_lt.mpr hle)
  · intro t t' ht ih hturn i hle hlt
    have hi := (next_of hR (counted_of_visits hR hrx ht).same hturn).2
    rcases Nat.lt_or_ge i t.i with hbelow | habove
    · exact ih i hle hbelow
    · exact ⟨t, t', ht, hturn, by omega⟩

end Statistics

namespace Recorded
open Statistics
variable {p : UserParams} {st : Statistics} (h : Recorded p st) {target : Nat}
  (hmode : p.mode = .numberBased target)
include h hmode

theorem startSearchHere_eq : st.startSearchHere = testStartWarmupNum + 1 := by
  rw [startSearchHere, h.mode, hmode]
  exact Nat.add_comm _ _

theorem replyEvery_one : st.replyEvery = 1 := by
  rw [Statistics.replyEvery, h.every]
  exact (h.number target hmode).1

theorem pastNumber_iff (i : Nat) :
    st.pastNumber (i * st.replyEvery) = false ↔ i ≤ testStartWarmupNum + target := by
  rw [h.replyEvery_one hmode, Nat.mul_one, pastNumber, h.startSearchHere_eq hmode, h.mode, hmode]
  simp only [decide_eq_false_iff_not, not_le]
  omega

section Scanned
variable {a b : TicksTime} {s : Scan}

theorem le_of_visits (hv : Visits (st.turn a b) st.scanStart s) :
    s.i ≤ testStartWarmupNum + target + 1 := by
  have hc := counted_of_visits h.replyEvery_pos h.rx_nonneg hv
  by_contra hlt
  have hp := hc.passed (testStartWarmupNum + target + 1)
    (by rw [h.startSearchHere_eq hmode]; omega) (by omega)
  have hle := (h.pastNumber_iff hmode _).mp hp.number
  omega

theorem counter_le_of_visits (hv : Visits (st.turn a b) st.scanStart s) : s.counter ≤ target := by
  have hc := counted_of_visits h.replyEvery_pos h.rx_nonneg hv
  have hle := h.le_of_visits hmode hv
  have hlength : (st.window a s.i).length ≤ s.i - st.startSearchHere := by
    refine (List.length_filter_le _ _).trans ?_
    rw [List.length_range']
  have hjudged : (st.judged a s.i .observation).length + (st.judged a s.i .dropped).length +
      (st.judged a s.i .outOfOrder).length = (st.window a s.i).length := length_judged s.i
  rw [h.startSearchHere_eq hmode] at hlength
  rw [hc.counter]
  omega

/-- All requests of the run lie between the start and the end of the test. -/
def Within (st : Statistics) (a b : TicksTime) : Prop :=
  ∀ i, 1 ≤ i → i ≤ st.sendCount → a ≤ st.tx i ∧ st.tx i ≤ b

theorem scan_end (hwithin : Within st a b) (henough : target < st.receiveCount)
    (hsent : testStartWarmupNum + target < st.sendCount)
    (hr : Returns (st.turn a b) st.scanStart (some s)) :
    s.i = testStartWarmupNum + target + 1 := by
  have hv := visits_of_returns h.replyEvery_pos h.rx_nonneg hr
  have hle := h.le_of_visits hmode hv
  have hcounter := h.counter_le_of_visits hmode hv
  obtain ⟨r, hr', hend⟩ := scan_returns (a := a) (b := b) h.replyEvery_pos h.rx_nonneg
  obtain rfl := hr'.unique hr
  obtain ⟨hc, hfull | ⟨-, -, hstop⟩⟩ := hend
  · omega
  · by_contra hne
    have hstart := hc.start_le
    rw [h.startSearchHere_eq hmode] at hstart
    have hone : p.replyEvery = 1 := (h.number target hmode).1
    have hsmall : s.i * p.replyEvery ≤ st.sendCount := by
      rw [hone]
      omega
    refine hstop ⟨?_, (hwithin s.i (by omega) (by omega)).2, (h.sent s.i (by omega) hsmall).ne', ?_⟩
    · rw [h.maxSequenceNo, h.replyEvery_eq]
      exact h.inTable s.i hsmall
    · exact (h.pastNumber_iff hmode s.i).mpr (by omega)

theorem window_length (hwithin : Within st a b) (hsent : testStartWarmupNum + target < st.sendCount)
    (hi : s.i = testStartWarmupNum + target + 1) : (st.window a s.i).length = target := by
  have hall : ∀ j ∈ List.range' st.startSearchHere (s.i - st.startSearchHere),
      decide (a ≤ st.tx j) = true := by
    intro j hj
    rw [h.startSearchHere_eq hmode, List.mem_range'_1] at hj
    exact decide_eq_true (hwithin j (by omega) (by omega)).1
  rw [window, List.filter_eq_self.mpr hall, List.length_range', h.startSearchHere_eq hmode]
  omega

end Scanned

/-- When more replies than measured numbers were received, the scan is not cut short. -/
theorem accountsFor
    (increasing : ∀ i j, 1 ≤ i → i < j → j * p.replyEvery ≤ st.sendCount → st.tx i < st.tx j)
    (henough : stopCounting target ≤ st.receiveCount) (hle : st.receiveCount ≤ st.sendCount) :
    AccountsFor st target := by
  have hR := h.replyEvery_pos
  have hone : p.replyEvery = 1 := (h.number target hmode).1
  have hstop : stopCounting target = testStartWarmupNum + target + 1000 := rfl
  have hpos : st.receiveCount ≠ 0 := by omega
  have hfit : st.sendCount ≤ p.maxSequenceNo := by
    have hin := h.inTable st.sendCount (by rw [hone, Nat.mul_one])
    rwa [hone, Nat.mul_one] at hin
  have ha : st.testStart = some (st.tx 1) := by
    rw [h.testStart_eq hpos, hmode]
  have hb : st.testEnd = some (st.tx st.sendCount) := by
    rw [h.testEnd_eq hfit, hmode, hone, Nat.div_one]
  have hmono : ∀ i j, 1 ≤ i → i ≤ j → j ≤ st.sendCount → st.tx i ≤ st.tx j := by
    intro i j hi hij hj
    rcases Nat.eq_or_lt_of_le hij with rfl | hlt
    · exact le_rfl
    · exact (increasing i j hi hlt (by rwa [hone, Nat.mul_one])).le
  have hwithin : Within st (st.tx 1) (st.tx st.sendCount) := fun i hi hj =>
    ⟨hmono 1 i le_rfl hi hj, hmono i _ hi hj le_rfl⟩
  obtain ⟨s, hs⟩ := h.scan_numberBased (a := st.tx 1) (b := st.tx st.sendCount) hmode
  have hv := visits_of_returns hR h.rx_nonneg hs
  have hc := counted_of_visits hR h.rx_nonneg hv
  have hend := h.scan_end hmode hwithin (by omega) (by omega) hs
  refine ⟨st.tx 1, st.tx st.sendCount, s, ha, hb, ?_, fun i => ⟨?_, ?_⟩, ?_, fun t ht => ?_⟩
  · rw [clientStatistics_of_le hpos ha hb (hmono 1 _ le_rfl (by omega) le_rfl)]
    exact ⟨some s, hs, rfl⟩
  · rintro ⟨t, t', ht, hturn, rfl⟩
    have hcount := counted_of_visits hR h.rx_nonneg ht
    have hstart := hcount.start_le
    rw [h.startSearchHere_eq hmode] at hstart
    exact ⟨hstart, (h.pastNumber_iff hmode _).mp (next_of hR hcount.same hturn).1.number⟩
  · rintro ⟨hlow, hhigh⟩
    exact passed_of_visits hR h.rx_nonneg hv i (by rw [h.startSearchHere_eq hmode]; exact hlow)
      (by omega)
  · rw [hc.counter, hc.dropped, hc.ooo, h.fresh.1, h.fresh.2, Nat.zero_add, Nat.zero_add,
      length_judged, h.window_length hmode hwithin (by omega) hend]
  · have hcounter := h.counter_le_of_visits hmode ht
    omega

end Recorded

/-! ## The table that a run leaves behind -/

/-- `n` messages were sent, at increasing times, and the replies to some of them recorded. -/
structure Client.Tallied (clt : Client) (length : UInt32) (max n : Nat) (s : ClientState) :
    Prop where
  request : s.request = ⟨UInt64.ofNat n, clt.idleFlags, length⟩
  maxSequenceNo : s.times.maxSequenceNo = max
  replyEvery : s.times.replyEvery = 1
  fits : n ≤ max
  sent : ∀ i, 1 ≤ i → i ≤ n → 0 < s.times.tx i
  unsent : ∀ i, n < i → s.times.tx i = 0
  increasing : ∀ i j, 1 ≤ i → i < j → j ≤ n → s.times.tx i < s.times.tx j
  received : ∀ i k, s.times.rx i k ≠ 0 → 0 < s.times.rx i k ∧ 1 ≤ i ∧ i ≤ n ∧ k = 0
  receiveCount : s.receiveCount =
    ((Finset.Icc 1 n).filter fun i => s.times.rx i 0 ≠ 0).card
  fresh : s.times.dropped 0 = 0 ∧ s.times.ooo 0 = 0
  exited : s.exited = none

/-- The clock readings still to come are later than every send so far. -/
def ClientState.Ahead (s : ClientState) (pending : List TicksTime) : Prop :=
  ∀ now ∈ pending, 0 < now ∧ ∀ i, s.times.tx i < now

namespace Client
variable {clt : Client} {length : UInt32} {max n : Nat} {s : ClientState}

theorem tallied_initial (hping : clt.PingPong) (payload : List UInt8) :
    clt.Tallied length max 0 (clt.initial length payload max) := by
  refine ⟨rfl, rfl, hping.every, Nat.zero_le _, ?_, fun _ _ => rfl, ?_, ?_, rfl, ⟨rfl, rfl⟩, rfl⟩
  · intro i hone hle
    omega
  · intro i j _ _ hle
    omega
  · intro i k hrx
    exact absurd rfl hrx

section Run
variable (hmax : max + 1 < 2 ^ 64)
include hmax

theorem Tallied.send {now : TicksTime} {rest : List TicksTime} (hping : clt.PingPong)
    (h : clt.Tallied length max n s) (hahead : s.Ahead (now :: rest))
    (hsorted : (now :: rest).Pairwise (· < ·))
    (hup : (clt.sendPacket s now .sent).1.exited = none) :
    clt.Tallied length max (n + 1) (clt.sendPacket s now .sent).1 ∧
      (clt.sendPacket s now .sent).1.Ahead rest := by
  obtain ⟨hpos, hlater⟩ := hahead now List.mem_cons_self
  obtain ⟨hrest, -⟩ := List.pairwise_cons.mp hsorted
  have hfits : n + 1 ≤ max := by
    by_contra hlt
    have hexit := sendPacket_beyond hping h.request (by have := h.fits; omega)
      (by rw [h.maxSequenceNo]; omega) now
    rw [hexit] at hup
    cases hup
  rw [sendPacket_pingPong hping h.request (by omega) h.exited h.replyEvery
    (by rw [h.maxSequenceNo]; exact hfits)]
  have hself : Function.update s.times.tx (n + 1) now (n + 1) = now := Function.update_self _ _ _
  have hother : ∀ i, i ≠ n + 1 → Function.update s.times.tx (n + 1) now i = s.times.tx i :=
    fun i hi => Function.update_of_ne hi _ _
  refine ⟨⟨rfl, h.maxSequenceNo, h.replyEvery, hfits, fun i hone hle => ?_, fun i hlt => ?_,
    fun i j hone hij hle => ?_, fun i k hrx => ?_, ?_, h.fresh, h.exited⟩, fun t ht => ?_⟩
  · show 0 < Function.update s.times.tx (n + 1) now i
    by_cases hi : i = n + 1
    · rw [hi, hself]
      exact hpos
    · rw [hother i hi]
      exact h.sent i hone (by omega)
  · show Function.update s.times.tx (n + 1) now i = 0
    rw [hother i (by omega)]
    exact h.unsent i (by omega)
  · show Function.update s.times.tx (n + 1) now i < Function.update s.times.tx (n + 1) now j
    rw [hother i (by omega)]
    by_cases hj : j = n + 1
    · rw [hj, hself]
      exact hlater i
    · rw [hother j hj]
      exact h.increasing i j hone hij (by omega)
  · obtain ⟨hrxpos, hone, hle, hk⟩ := h.received i k hrx
    exact ⟨hrxpos, hone, Nat.le_succ_of_le hle, hk⟩
  · show s.receiveCount = _
    rw [h.receiveCount]
    congr 1
    ext i
    simp only [Finset.mem_filter, Finset.mem_Icc]
    constructor
    · rintro ⟨⟨hone, hle⟩, hrx⟩
      exact ⟨⟨hone, Nat.le_succ_of_le hle⟩, hrx⟩
    · rintro ⟨-, hrx⟩
      obtain ⟨-, hone, hle, -⟩ := h.received i 0 hrx
      exact ⟨⟨hone, hle⟩, hrx⟩
  · refine ⟨(hahead t (List.mem_cons_of_mem _ ht)).1, fun i => ?_⟩
    show Function.update s.times.tx (n + 1) now i < t
    by_cases hi : i = n + 1
    · rw [hi, hself]
      exact hrest t ht
    · rw [hother i hi]
      exact (hahead t (List.mem_cons_of_mem _ ht)).2 i

theorem Tallied.receive {r : Reply} (h : clt.Tallied length max n s) (hone : 1 ≤ r.seqNo.toNat)
    (hnow : 0 < r.now) (hup : (handleReply s r).exited = none) :
    clt.Tallied length max n (handleReply s r) ∧
      s.receiveCount ≤ (handleReply s r).receiveCount ∧
      (handleReply s r).times.tx = s.times.tx := by
  have hn : n < 2 ^ 64 := by
    have := h.fits
    omega
  have hle : r.seqNo ≤ s.request.sequenceNumber := by
    rw [← UInt64.not_lt]
    intro hlt
    rw [handleReply, if_pos hlt] at hup
    cases hup
  have hle' : r.seqNo.toNat ≤ n := by
    rw [h.request, UInt64.le_iff_toNat_le, UInt64.toNat_ofNat_of_lt' hn] at hle
    exact hle
  rw [handleReply_eq hle h.replyEvery (by rw [h.maxSequenceNo]; exact hle'.trans h.fits)]
  by_cases hfirst : s.times.rx r.seqNo.toNat 0 = 0
  · rw [if_pos hfirst]
    refine ⟨⟨h.request, h.maxSequenceNo, h.replyEvery, h.fits, h.sent, h.unsent, h.increasing,
      fun i k hrx => ?_, ?_, h.fresh, h.exited⟩, Nat.le_succ _, rfl⟩
    · by_cases hi : i = r.seqNo.toNat
      · subst hi
        by_cases hk : k = 0
        · subst hk
          refine ⟨?_, hone, hle', rfl⟩
          simpa using hnow
        · simp only [Function.update_self, Function.update_of_ne hk] at hrx ⊢
          exact h.received _ k hrx
      · simp only [Function.update_of_ne hi] at hrx ⊢
        exact h.received i k hrx
    · show s.receiveCount + 1 = _
      rw [h.receiveCount, ← Finset.card_insert_of_notMem (a := r.seqNo.toNat)]
      · congr 1
        ext i
        by_cases hi : i = r.seqNo.toNat
        · subst hi
          simp [hnow.ne', hone, hle']
        · simp [hi]
      · rw [Finset.mem_filter]
        rintro ⟨-, hrx⟩
        exact hrx hfirst
  · rw [if_neg hfirst]
    exact ⟨⟨h.request, h.maxSequenceNo, h.replyEvery, h.fits, h.sent, h.unsent, h.increasing,
      h.received, h.receiveCount, h.fresh, h.exited⟩, le_rfl, rfl⟩

theorem Tallied.sendBurst (hping : clt.PingPong) (rest : List TicksTime) (sends : List TicksTime) :
    ∀ n s, clt.Tallied length max n s → s.Ahead (sends ++ rest) →
      (sends ++ rest).Pairwise (· < ·) → (clt.sendBurst s sends).exited = none →
      ∃ n', clt.Tallied length max n' (clt.sendBurst s sends) ∧
        (clt.sendBurst s sends).Ahead rest ∧
        (clt.sendBurst s sends).receiveCount = s.receiveCount := by
  induction sends with
  | nil =>
    intro n s h hahead _ _
    exact ⟨n, h, hahead, rfl⟩
  | cons now sends ih =>
    intro n s h hahead hsorted hup
    rw [List.cons_append] at hahead hsorted
    rw [sendBurst_cons h.exited] at hup ⊢
    have hstep : (clt.sendPacket s now .sent).1.exited = none := by
      by_contra hexit
      rw [sendBurst_exited (Option.isSome_iff_ne_none.mpr hexit)] at hup
      exact hexit hup
    obtain ⟨htallied, hahead'⟩ := h.send hmax hping hahead hsorted hstep
    obtain ⟨n', h', hrest, hcount⟩ := ih _ _ htallied hahead' (List.pairwise_cons.mp hsorted).2 hup
    refine ⟨n', h', hrest, hcount.trans ?_⟩
    rw [sendPacket_pingPong hping h.request (by have := h.fits; omega) h.exited h.replyEvery]
    rw [h.maxSequenceNo]
    exact htallied.fits

theorem Tallied.receiveBurst (replies : List Reply) :
    ∀ s, clt.Tallied length max n s →
      (∀ r ∈ replies, 1 ≤ r.seqNo.toNat ∧ 0 < r.now) → (receiveBurst s replies).exited = none →
      clt.Tallied length max n (receiveBurst s replies) ∧
        s.receiveCount ≤ (receiveBurst s replies).receiveCount ∧
        (receiveBurst s replies).times.tx = s.times.tx := by
  induction replies with
  | nil =>
    intro s h _ _
    exact ⟨h, le_rfl, rfl⟩
  | cons r replies ih =>
    intro s h hreplies hup
    rw [receiveBurst_cons h.exited] at hup ⊢
    have hstep : (handleReply s r).exited = none := by
      by_contra hexit
      rw [receiveBurst_exited (Option.isSome_iff_ne_none.mpr hexit)] at hup
      exact hexit hup
    obtain ⟨hone, hnow⟩ := hreplies r List.mem_cons_self
    obtain ⟨h', hcount, htx⟩ := h.receive hmax hone hnow hstep
    obtain ⟨h'', hcount', htx'⟩ := ih _ h' (fun q hq => hreplies q (List.mem_cons_of_mem r hq)) hup
    exact ⟨h'', hcount.trans hcount', htx'.trans htx⟩

end Run

end Client

namespace NumberLoop
variable {clt : Client} {length : UInt32} {max target : Nat} {s : NumberLoop}

/-- What the loop keeps: it validates at most one packet for each reply. -/
structure Behind (clt : Client) (length : UInt32) (max : Nat) (pending : List TicksTime)
    (s : NumberLoop) : Prop where
  tallied : ∃ n, clt.Tallied length max n s.client
  ahead : s.client.Ahead pending
  counterValid : s.counterValid ≤ s.seqNo
  seqNo : s.seqNo ≤ s.client.receiveCount

theorem Behind.validate {pending : List TicksTime} (h : Behind clt length max pending s)
    (hmore : s.client.receiveCount ≠ s.seqNo) (hup : (s.validate target).client.exited = none) :
    Behind clt length max pending (s.validate target) := by
  obtain ⟨hle, -, hexit | ⟨hclient, hseq⟩⟩ := validate_cases target s
  · rw [hexit] at hup
    cases hup
  · have hcounter := h.counterValid
    have hseqNo := h.seqNo
    refine ⟨?_, ?_, by omega, ?_⟩
    · rw [hclient]
      exact h.tallied
    · rw [hclient]
      exact h.ahead
    · rw [hclient, hseq]
      omega

theorem Behind.turn (hmax : max + 1 < 2 ^ 64) (hping : clt.PingPong) {rest : List TicksTime}
    {t : BurstTurn} (h : Behind clt length max (t.sends ++ rest) s)
    (hsorted : (t.sends ++ rest).Pairwise (· < ·))
    (hreplies : ∀ r ∈ t.replies, 1 ≤ r.seqNo.toNat ∧ 0 < r.now)
    (hup : (s.turn clt target t).client.exited = none) :
    Behind clt length max rest (s.turn clt target t) := by
  obtain ⟨n, htallied⟩ := h.tallied
  have hdone : (clt.sendThenReceive s.client t).exited = none := by
    by_contra hexit
    have hsome := Option.isSome_iff_ne_none.mpr hexit
    rw [NumberLoop.turn] at hup
    dsimp only at hup
    rw [if_pos hsome] at hup
    exact hexit hup
  have hburst : (clt.sendBurst s.client t.sends).exited = none := by
    by_contra hexit
    rw [Client.sendThenReceive, Client.receiveBurst_exited (Option.isSome_iff_ne_none.mpr hexit)]
      at hdone
    exact hexit hdone
  obtain ⟨n', hsent, hahead, hsame⟩ :=
    htallied.sendBurst hmax hping rest t.sends n s.client h.ahead hsorted hburst
  obtain ⟨hreceived, hcount, htx⟩ := hsent.receiveBurst hmax t.replies _ hreplies hdone
  have hseqNo := h.seqNo
  have hnow : Behind clt length max rest
      { s with client := clt.sendThenReceive s.client t, exit := t.expired } := by
    refine ⟨⟨n', hreceived⟩, fun now hmem => ⟨(hahead now hmem).1, fun i => ?_⟩, h.counterValid, ?_⟩
    · show (Client.receiveBurst _ t.replies).times.tx i < now
      rw [htx]
      exact (hahead now hmem).2 i
    · show s.seqNo ≤ (Client.receiveBurst _ t.replies).receiveCount
      omega
  rw [NumberLoop.turn] at hup ⊢
  dsimp only at hup ⊢
  rw [if_neg (by rw [hdone]; decide)] at hup ⊢
  split
  · exact hnow
  · next hmore =>
    rw [if_neg hmore] at hup
    exact hnow.validate hmore hup

variable (target) in
theorem behind_run (hmax : max + 1 < 2 ^ 64) (hping : clt.PingPong) (turns : List BurstTurn) :
    ∀ s, Behind clt length max (turns.flatMap (·.sends)) s →
      (turns.flatMap (·.sends)).Pairwise (· < ·) →
      (∀ t ∈ turns, ∀ r ∈ t.replies, 1 ≤ r.seqNo.toNat ∧ 0 < r.now) →
      (run clt target s turns).client.exited = none →
      Behind clt length max [] (run clt target s turns) := by
  induction turns with
  | nil =>
    intro s h _ _ _
    exact h
  | cons t turns ih =>
    intro s h hsorted hreplies hup
    rw [List.flatMap_cons] at h hsorted
    by_cases hstop : (s.exit || s.client.exited.isSome) = true
    · rw [run_stopped hstop]
      exact ⟨h.tallied, fun now hnow => absurd hnow List.not_mem_nil, h.counterValid, h.seqNo⟩
    · have hcons : run clt target s (t :: turns) =
          run clt target (s.turn clt target t) turns := by
        rw [run, List.foldl_cons, if_neg hstop]
        rfl
      rw [hcons] at hup ⊢
      have hturn : (s.turn clt target t).client.exited = none := by
        by_contra hexit
        have hsome := Option.isSome_iff_ne_none.mpr hexit
        rw [run_stopped (by rw [hsome, Bool.or_true])] at hup
        exact hexit hup
      have hnext := h.turn hmax hping hsorted (hreplies t List.mem_cons_self) hturn
      exact ih _ hnext (List.pairwise_append.mp hsorted).2.1
        (fun u hu => hreplies u (List.mem_cons_of_mem t hu)) hup

/-- What `client_statistics` reads after the loop. -/
def statistics (s : NumberLoop) (p : UserParams) (fullRtt : Bool) (ticks1msec : TicksTime) :
    Statistics where
  mode := p.mode
  fullRtt := fullRtt
  ticks1msec := ticks1msec
  sendCount := s.client.request.sequenceNumber.toNat
  receiveCount := s.client.receiveCount
  serverNo := 0
  times := s.client.times

theorem recorded {p : UserParams} {n : Nat} (hmode : p.mode = .numberBased target)
    (htarget : target ≤ maxPacketNumber) (hevery : p.replyEvery = 1)
    (hserver : p.clientWorkWithSrvNum = 1) (h : clt.Tallied length p.maxSequenceNo n s.client)
    {ticks1msec : TicksTime} (hticks : 0 < ticks1msec) (fullRtt : Bool) :
    Recorded p (s.statistics p fullRtt ticks1msec) ∧
      (s.statistics p fullRtt ticks1msec).sendCount = n := by
  have hfits := h.fits
  rw [maxSequenceNo_numberBased hmode] at hfits
  have hcount : (s.statistics p fullRtt ticks1msec).sendCount = n := by
    show s.client.request.sequenceNumber.toNat = n
    rw [h.request]
    exact UInt64.toNat_ofNat_of_lt' (Nat.lt_of_le_of_lt hfits (by decide))
  refine ⟨⟨rfl, ?_, ?_, h.maxSequenceNo, fun _ htarget' => ?_, hticks, ?_, fun i hi => ?_,
    fun i hone hi => ?_, fun i hi => ?_, fun i k hrx => ?_, ?_, h.fresh⟩, hcount⟩
  · rw [hevery]
    exact h.replyEvery
  · rw [hevery]
    exact Nat.one_pos
  · rw [hmode] at htarget'
    cases htarget'
    exact ⟨hevery, htarget⟩
  · rw [hserver]
    exact Nat.one_pos
  · rw [hcount] at hi
    exact hi.trans h.fits
  · rw [hcount, hevery, Nat.mul_one] at hi
    exact h.sent i hone hi
  · rw [hcount, hevery, Nat.mul_one] at hi
    exact h.unsent i hi
  · rw [hcount, hevery, Nat.mul_one, hserver]
    obtain ⟨hpos, hone, hle, rfl⟩ := h.received i k hrx
    exact ⟨hpos, hone, hle, Nat.one_pos⟩
  · rw [hcount, hevery, Nat.div_one, hserver, Finset.range_one]
    show s.client.receiveCount = _
    rw [h.receiveCount, Finset.card_filter]
    refine Finset.sum_congr rfl fun i _ => ?_
    rw [Finset.filter_singleton]
    show _ = (if s.client.times.rx i 0 ≠ 0 then _ else _ : Finset Nat).card
    split <;> rfl

end NumberLoop

/-- A number based run that ends because enough packets were validated accounts for all packets
that were asked for. -/
theorem number_run_accounts (clt : Client) (hping : clt.PingPong) (p : UserParams) (target : Nat)
    (hmode : p.mode = .numberBased target) (hevery : p.replyEvery = 1)
    (hserver : p.clientWorkWithSrvNum = 1) (length : UInt32) (payload : List UInt8)
    (turns : List BurstTurn) (hsorted : (turns.flatMap (·.sends)).Pairwise (· < ·))
    (hpos : ∀ now ∈ turns.flatMap (·.sends), 0 < now)
    (hreplies : ∀ t ∈ turns, ∀ r ∈ t.replies, 1 ≤ r.seqNo.toNat ∧ 0 < r.now)
    (s : NumberLoop)
    (hrun : s = NumberLoop.run clt target (.start (clt.initial length payload p.maxSequenceNo))
      turns)
    (hup : s.client.exited = none) (hreached : s.counterValid = stopCounting target)
    (fullRtt : Bool) (ticks1msec : TicksTime) (hticks : 0 < ticks1msec) :
    AccountsFor (s.statistics p fullRtt ticks1msec) target := by
  have hmax : p.maxSequenceNo = 100009000 := maxSequenceNo_numberBased hmode
  have hstart : NumberLoop.Behind clt length p.maxSequenceNo (turns.flatMap (·.sends))
      (.start (clt.initial length payload p.maxSequenceNo)) :=
    ⟨⟨0, Client.tallied_initial hping payload⟩, fun now hnow => ⟨hpos now hnow, fun _ => hpos now hnow⟩,
      Nat.le_refl _, Nat.le_refl _⟩
  have hbehind := NumberLoop.behind_run target (by omega) hping turns _ hstart hsorted
    hreplies (hrun ▸ hup)
  rw [← hrun] at hbehind
  obtain ⟨n, htallied⟩ := hbehind.tallied
  have hcounter := hbehind.counterValid
  have hseqNo := hbehind.seqNo
  have hle : s.client.receiveCount ≤ n := by
    rw [htallied.receiveCount]
    refine (Finset.card_filter_le _ _).trans ?_
    rw [Nat.card_Icc]
    omega
  have hfits := htallied.fits
  have htarget : target ≤ maxPacketNumber := by
    rw [stopCounting, testStartWarmupNum, testEndCooldownNum] at hreached
    rw [maxPacketNumber]
    omega
  obtain ⟨hrecorded, hcount⟩ :=
    NumberLoop.recorded (s := s) hmode htarget hevery hserver htallied hticks fullRtt
  refine hrecorded.accountsFor hmode (fun i j hone hij hj => ?_) ?_ ?_
  · rw [hcount, hevery, Nat.mul_one] at hj
    exact htallied.increasing i j hone hij hj
  · show stopCounting target ≤ s.client.receiveCount
    omega
  · rw [hcount]
    exact hle

theorem Readings.turns_one_sends (c : Readings) (k : Nat) :
    (c.turns 1 k).flatMap (·.sends) = (List.range k).map fun i => c.tx (i + 1) := by
  induction k with
  | zero => rfl
  | succ k ih =>
    rw [c.turns_succ, List.flatMap_append, ih, List.range_succ, List.map_append]
    simp [Readings.turn, Readings.sends]

theorem number_run_accounts_one :
    AccountsFor ((losslessRun pingPong onePacketByOne 1 alternating 14 [] 9001).statistics
      onePacketByOne false 1) 1 := by
  have hrun : NumberLoop.Lossless pingPong 1 alternating 14 onePacketByOne.maxSequenceNo 1 9001
      (losslessRun pingPong onePacketByOne 1 alternating 14 [] 9001) := by
    rcases losslessRun_spec alternating 14 [] pingPong_pingPong (p := onePacketByOne) rfl
      (by decide) 9001 (by decide) with ⟨-, h⟩ | ⟨hlt, -⟩
    · exact h
    · exact absurd hlt (by decide)
  have hdef : losslessRun pingPong onePacketByOne 1 alternating 14 [] 9001 =
      NumberLoop.run pingPong 1 (.start (pingPong.initial 14 [] onePacketByOne.maxSequenceNo))
        (alternating.turns 1 9001) := by
    rw [losslessRun, show onePacketByOne.burstSize = 1 from rfl]
  refine number_run_accounts pingPong pingPong_pingPong onePacketByOne 1 rfl rfl rfl 14 []
    (alternating.turns 1 9001) ?_ ?_ ?_ _ hdef hrun.client.exited ?_ false 1 (by decide)
  · rw [alternating.turns_one_sends, List.pairwise_map]
    refine List.pairwise_lt_range.imp fun {i j} hij => ?_
    show 2 * ((i + 1 : Nat) : Int) + 1 < 2 * ((j + 1 : Nat) : Int) + 1
    omega
  · rw [alternating.turns_one_sends]
    intro now hnow
    obtain ⟨i, -, rfl⟩ := List.mem_map.mp hnow
    exact alternating.tx_pos (i + 1)
  · intro t ht r hr
    obtain ⟨k, hk, rfl⟩ := List.mem_map.mp ht
    obtain ⟨i, hi, rfl⟩ := List.mem_map.mp hr
    rw [List.mem_range] at hk hi
    refine ⟨?_, alternating.rx_pos _⟩
    show 1 ≤ (UInt64.ofNat (k * 1 + i + 1)).toNat
    rw [UInt64.toNat_ofNat_of_lt' (Nat.lt_of_lt_of_le (by omega : k * 1 + i + 1 < 10000) (by decide))]
    omega
  · exact hrun.counterValid

end Sockperf
