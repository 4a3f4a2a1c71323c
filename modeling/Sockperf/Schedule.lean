import Mathlib.Data.Int.ConditionallyCompleteOrder
import Sockperf.Pacing
import Sockperf.Lib.While

/-!
# The schedule of the bursts

`execute` of `SwitchOnCycleDuration` and of `SwitchOnDummySend` reads the clock until the next
cycle starts. The clock is a sequence of readings; a call takes the readings from where it starts,
and what happens between two calls takes any number of them.
-/

namespace Sockperf

open While
set_option autoImplicit false

/-- The global variables of the switches. -/
structure PaceState where
  cycleStartTime : TicksTime
  /-- the next reading of the clock -/
  reading : Nat
  waitLoopCounter : Nat
  /-- dummy messages that were sent -/
  dummySends : Nat

section Switches
variable (clock : Nat → TicksTime) (nextCycleStartTime : TicksTime)

/-- The loop of `SwitchOnCycleDuration::execute`. -/
def SwitchOnCycleDuration.turn (s : PaceState) : Turn PaceState PaceState :=
  if clock s.reading ≥ nextCycleStartTime then
    .done { s with reading := s.reading + 1, cycleStartTime := nextCycleStartTime }
  else .next { s with reading := s.reading + 1, waitLoopCounter := s.waitLoopCounter + 1 }

/-- The loop of `SwitchOnDummySend::execute`, with `nextDummySendTime`. What `sendto` returns is
ignored. -/
def SwitchOnDummySend.turn (dummyCycle : TicksTime) :
    PaceState × TicksTime → Turn (PaceState × TicksTime) PaceState := fun (s, nextDummySendTime) =>
  let now := clock s.reading
  let s := { s with reading := s.reading + 1 }
  if now ≥ nextCycleStartTime then .done { s with cycleStartTime := nextCycleStartTime }
  else
    let t := { s with waitLoopCounter := s.waitLoopCounter + 1 }
    if now ≥ nextDummySendTime then
      .next ({ t with dummySends := t.dummySends + 1 }, nextDummySendTime + dummyCycle)
    else .next (t, nextDummySendTime)

end Switches

/-- The switch of a client that is paced. -/
inductive SwitchCycleDuration where
  | onCycleDuration
  | onDummySend (dummyCycle : TicksTime)

/-- A call of `execute` from `s` returns in `s'`. -/
def SwitchCycleDuration.Executes (clock : Nat → TicksTime) (cycle : TicksTime) (s s' : PaceState) :
    SwitchCycleDuration → Prop
  | onCycleDuration => Returns (SwitchOnCycleDuration.turn clock (s.cycleStartTime + cycle)) s s'
  | onDummySend dummyCycle =>
    Returns (SwitchOnDummySend.turn clock (s.cycleStartTime + cycle) dummyCycle)
      (s, s.cycleStartTime + dummyCycle) s'

/-- The calls since `initBeforeLoop` took the start time, with the reading each returned at. -/
inductive Paced (clock : Nat → TicksTime) (cycle startTime : TicksTime)
    (switch : SwitchCycleDuration) : PaceState → List Nat → Prop
  | start (reading : Nat) :
      Paced clock cycle startTime switch ⟨startTime - cycle, reading, 0, 0⟩ []
  | delay {s : PaceState} {released : List Nat} (reading : Nat)
      (before : Paced clock cycle startTime switch s released) (later : s.reading ≤ reading) :
      Paced clock cycle startTime switch { s with reading } released
  | call {s s' : PaceState} {released : List Nat}
      (before : Paced clock cycle startTime switch s released)
      (executes : switch.Executes clock cycle s s') :
      Paced clock cycle startTime switch s' (released ++ [s'.reading - 1])

/-! ## One call -/

/-- The first reading from `start` on that is not before `due`. -/
structure FirstReading (clock : Nat → TicksTime) (due : TicksTime) (start i : Nat) : Prop where
  after : start ≤ i
  reached : due ≤ clock i
  first : ∀ j, start ≤ j → j < i → clock j < due

theorem FirstReading.unique {clock : Nat → TicksTime} {due : TicksTime} {start i j : Nat}
    (hi : FirstReading clock due start i) (hj : FirstReading clock due start j) : i = j := by
  rcases lt_trichotomy i j with hlt | heq | hgt
  · exact absurd hi.reached (not_le.mpr (hj.first i hi.after hlt))
  · exact heq
  · exact absurd hj.reached (not_le.mpr (hi.first j hj.after hgt))

/-- A call that returned after the reading `i`. -/
structure ReleasedAt (next : TicksTime) (s : PaceState) (i : Nat) (s' : PaceState) : Prop where
  reading : s'.reading = i + 1
  cycleStartTime : s'.cycleStartTime = next
  waited : s'.waitLoopCounter + s.reading = s.waitLoopCounter + i

universe u
variable {σ : Type u} {clock : Nat → TicksTime} {next : TicksTime} {pace : σ → PaceState}
  {turn : σ → Turn σ PaceState}

variable (clock next pace turn) in
/-- What the loops of both switches do with a reading. -/
structure WaitsFor : Prop where
  release : ∀ x, next ≤ clock (pace x).reading →
    turn x = .done { pace x with reading := (pace x).reading + 1, cycleStartTime := next }
  wait : ∀ x, clock (pace x).reading < next → ∃ x', turn x = .next x' ∧
    (pace x').reading = (pace x).reading + 1 ∧
    (pace x').waitLoopCounter = (pace x).waitLoopCounter + 1

theorem SwitchOnCycleDuration.waitsFor (clock : Nat → TicksTime) (next : TicksTime) :
    WaitsFor clock next id (SwitchOnCycleDuration.turn clock next) where
  release _ hdue := if_pos hdue
  wait _ hearly := ⟨_, if_neg (not_le.mpr hearly), rfl, rfl⟩

theorem SwitchOnDummySend.waitsFor (clock : Nat → TicksTime) (next dummyCycle : TicksTime) :
    WaitsFor clock next Prod.fst (SwitchOnDummySend.turn clock next dummyCycle) where
  release _ hdue := if_pos hdue
  wait x hearly := by
    have hturn : SwitchOnDummySend.turn clock next dummyCycle x = _ := if_neg (not_le.mpr hearly)
    by_cases hdummy : clock x.1.reading ≥ x.2
    · exact ⟨_, hturn.trans (if_pos hdummy), rfl, rfl⟩
    · exact ⟨_, hturn.trans (if_neg hdummy), rfl, rfl⟩

section Call
variable (h : WaitsFor clock next pace turn) {x : σ}
include h

theorem WaitsFor.first {s' : PaceState} (hr : Returns turn x s') :
    ∃ i, FirstReading clock next (pace x).reading i ∧ ReleasedAt next (pace x) i s' := by
  refine hr.post (fun y => (pace x).reading ≤ (pace y).reading ∧
      (pace y).waitLoopCounter + (pace x).reading = (pace x).waitLoopCounter + (pace y).reading ∧
      ∀ j, (pace x).reading ≤ j → j < (pace y).reading → clock j < next)
    (fun s' => ∃ i, FirstReading clock next (pace x).reading i ∧ ReleasedAt next (pace x) i s')
    ⟨le_rfl, rfl, fun j hj hlt => absurd hj (not_le.mpr hlt)⟩ ?_
  rintro y - ⟨hafter, hwaited, hearly⟩
  rcases lt_or_ge (clock (pace y).reading) next with hlt | hdue
  · obtain ⟨y', hturn, hreading, hcount⟩ := h.wait y hlt
    refine ⟨fun z hz => ?_, fun q hq => nomatch hturn.symm.trans hq⟩
    obtain rfl := Turn.next.inj (hturn.symm.trans hz)
    rw [hreading, hcount]
    refine ⟨by omega, by omega, fun j hj hle => ?_⟩
    rcases Nat.lt_succ_iff_lt_or_eq.mp hle with hbefore | rfl
    · exact hearly j hj hbefore
    · exact hlt
  · have hturn := h.release y hdue
    refine ⟨fun z hz => (nomatch hturn.symm.trans hz), fun q hq => ?_⟩
    obtain rfl := Turn.done.inj (hturn.symm.trans hq)
    exact ⟨(pace y).reading, ⟨hafter, hdue, hearly⟩, rfl, rfl, hwaited⟩

theorem WaitsFor.returns {i : Nat} (hi : FirstReading clock next (pace x).reading i) :
    ∃ s', Returns turn x s' := by
  obtain ⟨s', hs', -⟩ := returns_of_variant turn
    (fun y => (pace x).reading ≤ (pace y).reading ∧ (pace y).reading ≤ i) (fun _ => True)
    (fun y => i - (pace y).reading) ⟨le_rfl, hi.after⟩ (by
      rintro y ⟨hafter, hle⟩
      rcases lt_or_ge (clock (pace y).reading) next with hlt | hdue
      · obtain ⟨y', hturn, hreading, -⟩ := h.wait y hlt
        have hne : (pace y).reading ≠ i := by
          rintro rfl
          exact absurd hi.reached (not_le.mpr hlt)
        exact Or.inl ⟨y', hturn, by omega, by omega⟩
      · exact Or.inr ⟨_, h.release y hdue, trivial⟩)
  exact ⟨s', _, hs'⟩

end Call

namespace SwitchCycleDuration
variable {switch : SwitchCycleDuration} {cycle : TicksTime} {s s' : PaceState}

/-- The spec of both switches: a call returns after the first reading that is due. -/
theorem Executes.first (h : switch.Executes clock cycle s s') :
    ∃ i, FirstReading clock (s.cycleStartTime + cycle) s.reading i ∧
      ReleasedAt (s.cycleStartTime + cycle) s i s' := by
  cases switch with
  | onCycleDuration => exact (SwitchOnCycleDuration.waitsFor clock _).first h
  | onDummySend dummyCycle => exact (SwitchOnDummySend.waitsFor clock _ dummyCycle).first h

variable (switch) in
theorem executes_of_first {i : Nat}
    (h : FirstReading clock (s.cycleStartTime + cycle) s.reading i) :
    ∃ s', switch.Executes clock cycle s s' := by
  cases switch with
  | onCycleDuration => exact (SwitchOnCycleDuration.waitsFor clock _).returns h
  | onDummySend dummyCycle =>
    exact (SwitchOnDummySend.waitsFor clock _ dummyCycle).returns
      (x := (s, s.cycleStartTime + dummyCycle)) h

variable (switch) in
theorem executes_late (h : s.cycleStartTime + cycle ≤ clock s.reading) :
    switch.Executes clock cycle s
      { s with reading := s.reading + 1, cycleStartTime := s.cycleStartTime + cycle } := by
  cases switch with
  | onCycleDuration => exact Returns.of_done ((SwitchOnCycleDuration.waitsFor clock _).release s h)
  | onDummySend dummyCycle =>
    exact Returns.of_done ((SwitchOnDummySend.waitsFor clock _ dummyCycle).release (s, _) h)

theorem Executes.pacer {expiry : TicksTime} (burstSize : Nat) (mono : Monotone clock)
    (h : switch.Executes clock cycle s s') {p : Pacer} (up : p.exit = false) (idle : p.left = 0)
    (hstart : p.cycleStartTime = s.cycleStartTime) (hnow : p.now ≤ clock s.reading)
    (running : clock (s'.reading - 1) ≤ expiry) :
    Pacer.Run cycle expiry burstSize p
      { p with
        now := clock (s'.reading - 1)
        cycleStartTime := s'.cycleStartTime
        left := burstSize } := by
  obtain ⟨i, hfirst, hat⟩ := h.first
  have hlast : s'.reading - 1 = i := by
    rw [hat.reading]
    rfl
  rw [hlast] at running ⊢
  rw [hat.cycleStartTime]
  -- the readings that are too early, one after the other
  have hwaits : ∀ n, s.reading + n ≤ i → ∃ t, t ≤ clock (s.reading + n) ∧
      Pacer.Run cycle expiry burstSize p { p with now := t } := by
    intro n
    induction n with
    | zero => exact fun _ => ⟨p.now, hnow, Relation.ReflTransGen.refl⟩
    | succ n ih =>
      intro hle
      obtain ⟨t, ht, hrun⟩ := ih (by omega)
      have hearly := hfirst.first (s.reading + n) (by omega) (by omega)
      rw [← hstart] at hearly
      exact ⟨clock (s.reading + n), mono (by omega), hrun.tail
        (.wait up idle ht ((mono (by omega)).trans running) hearly)⟩
  have hafter := hfirst.after
  obtain ⟨t, ht, hrun⟩ := hwaits (i - s.reading) (by omega)
  rw [Nat.add_sub_cancel' hafter] at ht
  have hdue := hfirst.reached
  rw [← hstart] at hdue ⊢
  exact hrun.tail (.release up idle ht running hdue)

end SwitchCycleDuration

/-! ## All calls -/

section Run
variable {cycle startTime : TicksTime} {switch : SwitchCycleDuration} {s s' : PaceState}
  {released : List Nat}

variable (clock cycle startTime s released) in
structure OnSchedule : Prop where
  next : s.cycleStartTime + cycle = startTime + released.length * cycle
  due : ∀ k r : Nat, released[k]? = some r → startTime + k * cycle ≤ clock r
  past : ∀ r ∈ released, r < s.reading

/-- The step lemma. -/
theorem OnSchedule.call (h : OnSchedule clock cycle startTime s released)
    (hcall : switch.Executes clock cycle s s') :
    OnSchedule clock cycle startTime s' (released ++ [s'.reading - 1]) := by
  obtain ⟨i, hfirst, hat⟩ := hcall.first
  have hlast : s'.reading - 1 = i := by
    rw [hat.reading]
    rfl
  have hreached := hfirst.reached
  have hafter := hfirst.after
  rw [h.next] at hreached
  rw [hlast]
  refine ⟨?_, ?_, ?_⟩
  · rw [hat.cycleStartTime, h.next, List.length_append, List.length_singleton]
    push_cast
    ring
  · intro k r hk
    rcases lt_trichotomy k released.length with hlt | rfl | hgt
    · rw [List.getElem?_append_left hlt] at hk
      exact h.due k r hk
    · rw [List.getElem?_concat_length] at hk
      cases hk
      exact hreached
    · have hlen : (released ++ [i]).length ≤ k := by
        rw [List.length_append]
        exact hgt
      rw [List.getElem?_eq_none hlen] at hk
      cases hk
  · intro r hr
    rw [hat.reading]
    rcases List.mem_append.mp hr with hold | hnew
    · have := h.past r hold
      omega
    · have := List.mem_singleton.mp hnew
      omega

theorem Paced.onSchedule (h : Paced clock cycle startTime switch s released) :
    OnSchedule clock cycle startTime s released := by
  induction h with
  | start reading =>
    refine ⟨?_, fun k r hk => (nomatch hk), fun r hr => (nomatch hr)⟩
    simp
  | delay _ _ later ih =>
    exact ⟨ih.next, ih.due, fun r hr => (ih.past r hr).trans_le later⟩
  | call _ executes ih => exact ih.call executes

theorem Paced.without_dummies (h : Paced clock cycle startTime switch s released) :
    ∃ t, Paced clock cycle startTime .onCycleDuration t released ∧
      t.cycleStartTime = s.cycleStartTime ∧ t.reading = s.reading := by
  induction h with
  | start reading => exact ⟨_, .start reading, rfl, rfl⟩
  | delay reading _ later ih =>
    obtain ⟨t, ht, hstart, hreading⟩ := ih
    exact ⟨_, ht.delay reading (by rw [hreading]; exact later), hstart, rfl⟩
  | call _ executes ih =>
    obtain ⟨t, ht, hstart, hreading⟩ := ih
    obtain ⟨i, hfirst, hat⟩ := executes.first
    rw [← hstart, ← hreading] at hfirst
    obtain ⟨t', hcall⟩ := SwitchCycleDuration.onCycleDuration.executes_of_first hfirst
    obtain ⟨j, hfirst', hat'⟩ := hcall.first
    obtain rfl := hfirst.unique hfirst'
    have hsame : t'.reading = _ := hat'.reading.trans hat.reading.symm
    have hrun := ht.call hcall
    rw [hsame] at hrun
    refine ⟨t', hrun, ?_, hsame⟩
    rw [hat'.cycleStartTime, hat.cycleStartTime, hstart]

theorem length_filter_le {α : Type*} {xs : List α} {p : α → Bool} {m : Nat}
    (h : ∀ k x, xs[k]? = some x → p x = true → k < m) : (xs.filter p).length ≤ m := by
  have hrest : (xs.drop m).filter p = [] := by
    apply List.filter_eq_nil_iff.mpr
    intro x hx hp
    obtain ⟨k, hk⟩ := List.mem_iff_getElem?.mp hx
    rw [List.getElem?_drop] at hk
    have := h (m + k) x hk hp
    omega
  have hsplit : xs.filter p = (xs.take m).filter p := by
    conv_lhs => rw [← List.take_append_drop m xs]
    rw [List.filter_append, hrest, List.append_nil]
  rw [hsplit]
  exact (List.length_filter_le p _).trans (List.length_take_le m xs)

theorem OnSchedule.released_le (h : OnSchedule clock cycle startTime s released)
    (hpos : 0 < cycle) {t : TicksTime} (ht : startTime ≤ t) :
    ((released.filter fun r => clock r ≤ t).length : Int) ≤ (t - startTime) / cycle + 1 := by
  have hquot : 0 ≤ (t - startTime) / cycle := Int.ediv_nonneg (Int.sub_nonneg_of_le ht) hpos.le
  have hlen : (released.filter fun r => clock r ≤ t).length ≤
      ((t - startTime) / cycle + 1).toNat := by
    apply length_filter_le
    intro k r hk hle
    have hk' : (k : Int) ≤ (t - startTime) / cycle := by
      apply Int.le_ediv_of_mul_le hpos
      apply Int.le_sub_left_of_add_le
      exact (h.due k r hk).trans (of_decide_eq_true hle)
    exact Int.lt_toNat.mpr (Int.lt_add_one_of_le hk')
  exact (Int.le_toNat (Int.le_add_one hquot)).mp hlen

end Run

/-- Both switches follow the schedule: call number `k` returns after the first of its readings
that is not before `startTime + k * cycle` and leaves that as the start of the cycle. Up to a time
`t` there is at most one burst for every cycle that has begun, a sender that is late does not wait
until it has caught up, and dummy messages change nothing. -/
theorem bursts_on_schedule (switch : SwitchCycleDuration) (clock : Nat → TicksTime)
    (mono : Monotone clock) (startTime cycle : TicksTime) (hpos : 0 < cycle) {s : PaceState}
    {released : List Nat} (run : Paced clock cycle startTime switch s released) :
    (∀ i, (∃ s', switch.Executes clock cycle s s' ∧ s'.reading = i + 1) ↔
      FirstReading clock (startTime + released.length * cycle) s.reading i) ∧
    (∀ s', switch.Executes clock cycle s s' →
      s'.cycleStartTime = startTime + released.length * cycle ∧ s.reading < s'.reading) ∧
    (∀ t, startTime ≤ t →
      ((released.filter fun r => clock r ≤ t).length : Int) ≤ (t - startTime) / cycle + 1) ∧
    (∀ r ∈ released, startTime + released.length * cycle ≤ clock r →
      switch.Executes clock cycle s { s with
        reading := s.reading + 1, cycleStartTime := startTime + released.length * cycle }) ∧
    ∃ t, Paced clock cycle startTime .onCycleDuration t released ∧
      t.cycleStartTime = s.cycleStartTime ∧ t.reading = s.reading := by
  have h := run.onSchedule
  refine ⟨?_, ?_, ?_, ?_, run.without_dummies⟩
  · intro i
    rw [← h.next]
    constructor
    · rintro ⟨s', hcall, hreading⟩
      obtain ⟨j, hfirst, hat⟩ := hcall.first
      obtain rfl : j = i := Nat.succ.inj (hat.reading.symm.trans hreading)
      exact hfirst
    · intro hfirst
      obtain ⟨s', hcall⟩ := switch.executes_of_first hfirst
      obtain ⟨j, hfirst', hat⟩ := hcall.first
      obtain rfl := hfirst.unique hfirst'
      exact ⟨s', hcall, hat.reading⟩
  · intro s' hcall
    obtain ⟨i, hfirst, hat⟩ := hcall.first
    have hafter := hfirst.after
    refine ⟨hat.cycleStartTime.trans h.next, ?_⟩
    rw [hat.reading]
    omega
  · intro t ht
    exact h.released_le hpos ht
  · intro r hr hlate
    have hnow : s.cycleStartTime + cycle ≤ clock s.reading := by
      rw [h.next]
      exact hlate.trans (mono (h.past r hr).le)
    have hcall := switch.executes_late hnow
    rw [h.next] at hcall
    exact hcall

/-- A burst every third tick, with dummy messages in between. The sender comes to the third burst
late, and then does not wait for the fourth. -/
theorem bursts_on_schedule_first :
    Paced (fun n => n) 3 0 (.onDummySend 1) ⟨6, 11, 2, 2⟩ [0, 3, 10] ∧
      (SwitchCycleDuration.onDummySend 1).Executes (fun n => n) 3 ⟨6, 11, 2, 2⟩ ⟨9, 12, 2, 2⟩ := by
  have hmono : Monotone fun n : Nat => (n : TicksTime) := fun a b hab => Int.ofNat_le.mpr hab
  have first : Paced (fun n => n) 3 0 (.onDummySend 1) ⟨0, 1, 0, 0⟩ [0] :=
    (Paced.start 0).call ⟨1, rfl⟩
  have second : Paced (fun n => n) 3 0 (.onDummySend 1) ⟨3, 4, 2, 2⟩ [0, 3] :=
    first.call ⟨3, rfl⟩
  have third : Paced (fun n => n) 3 0 (.onDummySend 1) ⟨6, 11, 2, 2⟩ [0, 3, 10] :=
    (second.delay 10 (by decide)).call ⟨1, rfl⟩
  obtain ⟨-, -, -, hlate, -⟩ := bursts_on_schedule _ _ hmono 0 3 (by decide) third
  exact ⟨third, hlate 10 (by decide) (by decide)⟩

end Sockperf
