import Sockperf.Lib.Rounding
import Sockperf.IoHandlers
import Sockperf.Ring
import Sockperf.Schedule
import Sockperf.SendPackets
import Mathlib.Tactic.Ring

/-!
# Playback

A playback file says at which time the client sends a message of which size. It is turned into
waiting times when it is read, each of them rounded, and `doPlayback` sends the messages one after
the other, on the sockets in turn. The waiting times are added to the time when the last message
was due and not to the time when it was sent. The file is read before the clock is chosen, so that
the waiting times are counts of the time stamp counter whatever the clock.
-/

namespace Sockperf

open While
set_option autoImplicit false

/-! ## The file -/

structure PlaybackItem where
  duration : TicksTime
  size : Int
  deriving DecidableEq, Repr

def PlaybackItem.isValid (pi : PlaybackItem) : Bool :=
  0 < pi.duration && 14 ≤ pi.size && pi.size ≤ 64000

/-- A line, as `sscanf(s, "%lf, %d")` reads it. -/
inductive PlaybackLine where
  /-- the line is empty or begins with '#' -/
  | comment
  | item (time : ℚ) (size : Int)
  | unreadable
  deriving DecidableEq, Repr

inductive PlaybackError where
  /-- "out-of-order timestamp at line" -/
  | outOfOrder (line : Nat)
  /-- "illegal time or size at line" -/
  | illegal (line : Nat)
  /-- "can't read time & size, at line" -/
  | unreadable (line : Nat)
  deriving DecidableEq, Repr

section File
variable (r : Rounding) (k : Ticks)

/-- `TicksDuration::setFromSeconds`, before the mode is chosen -/
def setFromSeconds (seconds : ℚ) : TicksTime :=
  k.nsec2ticksRdtsc (truncate (r.round (seconds * nsecInSec)))

/-- The loop of `parsePlaybackData` from line `i` on. -/
def parsePlaybackData (prevTime : ℚ) (i : Nat) :
    List PlaybackLine → Except PlaybackError (List PlaybackItem)
  | [] => .ok []
  | .comment :: sv => parsePlaybackData prevTime (i + 1) sv
  | .unreadable :: _ => .error (.unreadable (i + 1))
  | .item currTime size :: sv =>
    if prevTime > currTime then .error (.outOfOrder (i + 1))
    else
      let pi : PlaybackItem := ⟨setFromSeconds r k (r.round (currTime - prevTime)), size⟩
      if pi.isValid = false then .error (.illegal (i + 1))
      else
        match parsePlaybackData currTime (i + 1) sv with
        | .error e => .error e
        | .ok pv => .ok (pi :: pv)

end File

/-- The times and sizes in the file. -/
def playbackTimes : List PlaybackLine → List (ℚ × Int)
  | [] => []
  | .item time size :: sv => (time, size) :: playbackTimes sv
  | _ :: sv => playbackTimes sv

/-- The time from the start until message `j` is due. -/
def playbackDue (pv : List PlaybackItem) (j : Nat) : TicksTime :=
  ((pv.take (j + 1)).map PlaybackItem.duration).sum

/-! ### Rounding errors -/

section Errors
variable (r : Rounding) (k : Ticks)

/-- What the roundings of the arithmetic can add to a waiting time, in ticks. -/
def roundingSlip : ℚ := k.perMsec / nsecInMsec * (r.e * (nsecInSec * (1 + r.u) + 1))

/-- What one waiting time can be too short: the fraction of a nanosecond, the fraction of a tick
and what the roundings take away. -/
def mostShort : ℚ := roundingSlip r k + k.perMsec / nsecInMsec + 1

/-- A second of the clock in use. -/
def ticksInSec : ℚ := k.rate * 1000

/-- Counts of the time stamp counter are read as ticks of the clock in use. -/
def playbackSpeed : ℚ := k.perMsec / k.rate

theorem ticksInSec_speed (seconds : ℚ) :
    ticksInSec k * (playbackSpeed k * seconds) = k.perMsec * 1000 * seconds := by
  have hrate : (k.rate : ℚ) ≠ 0 := Int.cast_ne_zero.mpr k.rate_pos.ne'
  unfold ticksInSec playbackSpeed
  field_simp

theorem playbackSpeed_eq_one :
    playbackSpeed k = 1 ↔ k.mode = .rdtsc ∨ k.perMsec = nsecInMsec := by
  have hrate : (k.rate : ℚ) ≠ 0 := Int.cast_ne_zero.mpr k.rate_pos.ne'
  unfold playbackSpeed
  rw [div_eq_one_iff_eq hrate, Int.cast_inj, k.perMsec_eq_rate_iff]

variable {r k} {seconds : ℚ}

theorem round_nsec (h : 0 ≤ seconds) :
    (1 - r.u) ^ 2 * (seconds * nsecInSec) - r.e * (nsecInSec * (1 + r.u) + 1) ≤
        r.round (r.round seconds * nsecInSec) ∧
      r.round (r.round seconds * nsecInSec) ≤
        (1 + r.u) ^ 2 * (seconds * nsecInSec) + r.e * (nsecInSec * (1 + r.u) + 1) := by
  have hu := r.u_nonneg
  have he := r.e_nonneg
  have hround := r.round_nonneg h
  have hsec : (nsecInSec : ℚ) = 1000000000 := by
    rw [nsecInSec]
    norm_num
  have hproduct : 0 ≤ r.round seconds * nsecInSec := by
    rw [hsec]
    positivity
  constructor
  · have hfirst := r.round_lower h
    have hsecond := r.round_lower hproduct
    rw [hsec] at hsecond ⊢
    have hscaled := mul_le_mul_of_nonneg_left hfirst
      (mul_nonneg (sub_nonneg.mpr r.u_le_one) (by norm_num : (0 : ℚ) ≤ 1000000000))
    nlinarith [mul_nonneg hu he]
  · have hfirst := r.round_upper h
    have hsecond := r.round_upper hproduct
    rw [hsec] at hsecond ⊢
    have hscaled := mul_le_mul_of_nonneg_left hfirst
      (mul_nonneg (add_nonneg zero_le_one hu) (by norm_num : (0 : ℚ) ≤ 1000000000))
    nlinarith

theorem setFromSeconds_bounds (h : 0 ≤ seconds) :
    (1 - r.u) ^ 2 * (ticksInSec k * (playbackSpeed k * seconds)) - mostShort r k ≤
        setFromSeconds r k (r.round seconds) ∧
      setFromSeconds r k (r.round seconds) ≤
        (1 + r.u) ^ 2 * (ticksInSec k * (playbackSpeed k * seconds)) + roundingSlip r k := by
  have hsec : (0 : ℚ) ≤ nsecInSec := by
    rw [nsecInSec]
    norm_num
  have hnonneg := r.round_nonneg (mul_nonneg (r.round_nonneg h) hsec)
  obtain ⟨hlow, hhigh⟩ := round_nsec (r := r) h
  have hticks : setFromSeconds r k (r.round seconds) =
      ⌊r.round (r.round seconds * nsecInSec)⌋ * k.perMsec / nsecInMsec := by
    rw [setFromSeconds, truncate_of_nonneg hnonneg,
      k.nsec2ticksRdtsc_eq (Int.floor_nonneg.mpr hnonneg)]
  rw [hticks]
  generalize r.round (r.round seconds * nsecInSec) = y at hnonneg hlow hhigh ⊢
  have hmsec : (0 : ℤ) < nsecInMsec := by decide
  have hmsecQ : (0 : ℚ) < nsecInMsec := Int.cast_pos.mpr hmsec
  -- the fraction of a tick
  have hfloor : ((⌊y⌋ * k.perMsec / nsecInMsec : ℤ) : ℚ) ≤ ⌊y⌋ * (k.perMsec / nsecInMsec) := by
    rw [← mul_div_assoc, le_div_iff₀ hmsecQ]
    exact_mod_cast Int.ediv_mul_le _ hmsec.ne'
  have hceil : ⌊y⌋ * ((k.perMsec : ℚ) / nsecInMsec) - 1 ≤
      ((⌊y⌋ * k.perMsec / nsecInMsec : ℤ) : ℚ) := by
    rw [← mul_div_assoc, sub_le_iff_le_add, div_le_iff₀ hmsecQ]
    exact_mod_cast (Int.lt_ediv_add_one_mul_self _ hmsec).le
  have hrate : (0 : ℚ) ≤ k.perMsec / nsecInMsec :=
    div_nonneg (Int.cast_nonneg k.pos.le) hmsecQ.le
  have hsecond : (k.perMsec : ℚ) / nsecInMsec * (seconds * nsecInSec) =
      ticksInSec k * (playbackSpeed k * seconds) := by
    rw [ticksInSec_speed]
    unfold nsecInMsec nsecInSec
    push_cast
    ring
  unfold mostShort roundingSlip
  rw [← hsecond]
  constructor
  · have hnsec := mul_le_mul_of_nonneg_right (Int.lt_floor_add_one y).le hrate
    have hscaled := mul_le_mul_of_nonneg_left hlow hrate
    linarith
  · have hnsec := mul_le_mul_of_nonneg_right (Int.floor_le y) hrate
    have hscaled := mul_le_mul_of_nonneg_left hhigh hrate
    linarith

end Errors

/-! ### The items follow the file -/

theorem playbackDue_zero (pi : PlaybackItem) (pv : List PlaybackItem) :
    playbackDue (pi :: pv) 0 = pi.duration := by
  simp [playbackDue]

theorem playbackDue_succ (pi : PlaybackItem) (pv : List PlaybackItem) (j : Nat) :
    playbackDue (pi :: pv) (j + 1) = pi.duration + playbackDue pv j := by
  simp [playbackDue]

/-- The items against the times and sizes of a file that is read from `prevTime` on. -/
structure Tracks (r : Rounding) (k : Ticks) (prevTime : ℚ) (times : List (ℚ × Int))
    (pv : List PlaybackItem) : Prop where
  sizes : pv.map PlaybackItem.size = times.map Prod.snd
  valid : ∀ pi ∈ pv, pi.isValid = true
  notLate : ∀ j t size, times[j]? = some (t, size) →
    playbackDue pv j ≤ (1 + r.u) ^ 2 * (ticksInSec k * (playbackSpeed k * (t - prevTime))) +
      (j + 1) * roundingSlip r k
  notEarly : ∀ j t size, times[j]? = some (t, size) →
    (1 - r.u) ^ 2 * (ticksInSec k * (playbackSpeed k * (t - prevTime))) -
      (j + 1) * mostShort r k ≤ playbackDue pv j

section Parse
variable {r : Rounding} {k : Ticks} {prevTime currTime : ℚ} {times : List (ℚ × Int)}
  {pv : List PlaybackItem}

theorem Tracks.nil : Tracks r k prevTime [] [] where
  sizes := rfl
  valid _ hmem := absurd hmem List.not_mem_nil
  notLate _ _ _ hget := by cases hget
  notEarly _ _ _ hget := by cases hget

theorem Tracks.cons (h : Tracks r k currTime times pv) (hle : prevTime ≤ currTime) {size : Int}
    (hvalid : (⟨setFromSeconds r k (r.round (currTime - prevTime)), size⟩ :
      PlaybackItem).isValid = true) :
    Tracks r k prevTime ((currTime, size) :: times)
      (⟨setFromSeconds r k (r.round (currTime - prevTime)), size⟩ :: pv) := by
  obtain ⟨hearly, hlate⟩ := setFromSeconds_bounds (r := r) (k := k) (sub_nonneg.mpr hle)
  refine ⟨?_, ?_, ?_, ?_⟩
  · rw [List.map_cons, List.map_cons, h.sizes]
  · intro pi hpi
    rcases List.mem_cons.mp hpi with rfl | hpi
    · exact hvalid
    · exact h.valid pi hpi
  · intro j t n hget
    cases j with
    | zero =>
      cases hget
      rw [playbackDue_zero, Nat.cast_zero, zero_add, one_mul]
      exact hlate
    | succ j =>
      have hrest := h.notLate j t n hget
      rw [playbackDue_succ]
      push_cast
      linarith
  · intro j t n hget
    cases j with
    | zero =>
      cases hget
      rw [playbackDue_zero, Nat.cast_zero, zero_add, one_mul]
      exact hearly
    | succ j =>
      have hrest := h.notEarly j t n hget
      rw [playbackDue_succ]
      push_cast
      linarith

theorem parsePlaybackData_tracks {sv : List PlaybackLine} {i : Nat}
    (h : parsePlaybackData r k prevTime i sv = .ok pv) :
    Tracks r k prevTime (playbackTimes sv) pv := by
  induction sv generalizing prevTime i pv with
  | nil =>
    cases h
    exact .nil
  | cons line sv ih =>
    cases line with
    | comment => exact ih h
    | unreadable => cases h
    | item currTime size =>
      unfold parsePlaybackData at h
      split at h
      · cases h
      next hle =>
      dsimp only at h
      split at h
      · cases h
      next hvalid =>
      split at h
      · cases h
      next pv' hrest =>
      cases h
      exact (ih hrest).cons (not_lt.mp hle) (Bool.eq_true_of_not_eq_false hvalid)

end Parse

/-! ## The run -/

section Wait
variable {clock : Nat → TicksTime} {nextCycleStartTime : TicksTime} {reading i : Nat}

variable (clock nextCycleStartTime) in
/-- The loop of `playbackCycleDurationWait`, which leaves with the reading that was due. -/
def playbackWaitTurn (reading : Nat) : Turn Nat Nat :=
  if clock reading ≥ nextCycleStartTime then .done reading else .next (reading + 1)

theorem playbackWait_first (h : Returns (playbackWaitTurn clock nextCycleStartTime) reading i) :
    FirstReading clock nextCycleStartTime reading i := by
  refine h.post (fun j => reading ≤ j ∧ ∀ l, reading ≤ l → l < j → clock l < nextCycleStartTime)
    (FirstReading clock nextCycleStartTime reading) ⟨le_rfl, ?_⟩ ?_
  · intro l hl hlt
    omega
  · rintro j - ⟨hafter, hearly⟩
    unfold playbackWaitTurn
    split
    · next hdue =>
      refine ⟨fun b heq => ?_, fun q heq => ?_⟩
      · cases heq
      · cases heq
        exact ⟨hafter, hdue, hearly⟩
    · next hnot =>
      refine ⟨fun b heq => ?_, fun q heq => ?_⟩
      · cases heq
        refine ⟨by omega, fun l hl hlt => ?_⟩
        rcases Nat.lt_succ_iff_lt_or_eq.mp hlt with hbefore | rfl
        · exact hearly l hl hbefore
        · exact not_le.mp hnot
      · cases heq

theorem playbackWait_returns (n : Nat) (hdue : nextCycleStartTime ≤ clock (reading + n)) :
    ∃ i, Returns (playbackWaitTurn clock nextCycleStartTime) reading i := by
  induction n generalizing reading with
  | zero => exact ⟨reading, .of_done (if_pos hdue)⟩
  | succ n ih =>
    by_cases hnow : nextCycleStartTime ≤ clock reading
    · exact ⟨reading, .of_done (if_pos hnow)⟩
    · have hlater : reading + 1 + n = reading + (n + 1) := by omega
      obtain ⟨i, hi⟩ := ih (hlater ▸ hdue)
      exact ⟨i, .of_next (if_neg hnow) hi⟩

end Wait

/-- One turn of `doPlayback`: the wait, and the call of `client_send_packet`. -/
structure PlayCall where
  /-- the reading from which the turn waits -/
  ready : Nat
  released : Nat
  send : Client.SendCall
  deriving DecidableEq, Repr

structure Playback where
  i : Nat
  ifd : Int
  cycleStartTime : TicksTime
  /-- the next reading of the clock -/
  reading : Nat
  client : ClientState
  /-- the messages that were sent, and on which sockets -/
  wire : List (Int × List UInt8)

def Client.setLength (s : ClientState) (size : Int) : ClientState :=
  { s with request := { s.request with length := UInt32.ofNat size.toNat } }

/-- Before the first turn; `s_cycleStartTime` is set when the first wait begins. -/
def Playback.start (clock : Nat → TicksTime) (reading : Nat) (fdMin : Int) (client : ClientState) :
    Playback :=
  ⟨0, fdMin, clock reading, reading + 1, client, []⟩

def Playback.play (clt : Client) (s : Playback) (item : PlaybackItem) (released : Nat)
    (c : Client.SendCall) (nextFd : Int) : Playback :=
  let sent := clt.sendPacket (Client.setLength s.client item.size) c.now c.result
  { i := s.i + 1
    ifd := nextFd
    cycleStartTime := s.cycleStartTime + item.duration
    reading := released + 1
    client := sent.1
    wire := s.wire ++ sent.2.toList.map (s.ifd, ·) }

/-- The turns of `doPlayback`, with any delays between them. -/
inductive Plays (clt : Client) (t : Connections) (pv : List PlaybackItem) (clock : Nat → TicksTime)
    (s₀ : Playback) : Playback → List PlayCall → Prop
  | start : Plays clt t pv clock s₀ s₀ []
  | delay {s : Playback} {calls : List PlayCall} (reading : Nat)
      (before : Plays clt t pv clock s₀ s calls) (later : s.reading ≤ reading) :
      Plays clt t pv clock s₀ { s with reading } calls
  | turn {s : Playback} {calls : List PlayCall} {item : PlaybackItem} {released : Nat}
      (c : Client.SendCall) {nextFd : Int} (before : Plays clt t pv clock s₀ s calls)
      (up : s.client.exited = none) (get : pv[s.i]? = some item)
      (waits : Returns (playbackWaitTurn clock (s.cycleStartTime + item.duration)) s.reading
        released)
      (next : t.nextFd s.ifd = some nextFd) :
      Plays clt t pv clock s₀ (s.play clt item released c nextFd)
        (calls ++ [⟨s.reading, released, c⟩])

def sentItems (calls : List PlayCall) : List Nat :=
  (calls.zipIdx.filter fun c => c.1.send.sent).map Prod.snd

theorem sentItems_append (calls : List PlayCall) (c : PlayCall) :
    sentItems (calls ++ [c]) =
      sentItems calls ++ if c.send.sent then [calls.length] else [] := by
  unfold sentItems
  rw [List.zipIdx_append, List.filter_append, List.map_append]
  cases hsent : c.send.sent with
  | true => simp [hsent]
  | false => simp [hsent]

theorem sentItems_length_le (calls : List PlayCall) : (sentItems calls).length ≤ calls.length := by
  unfold sentItems
  rw [List.length_map]
  exact (List.length_filter_le _ _).trans List.length_zipIdx.le

structure Playback.OnSchedule (clt : Client) (t : Connections) (pv : List PlaybackItem)
    (clock : Nat → TicksTime) (startTime : TicksTime) (fdMin : Int) (payload : List UInt8)
    (socket : Nat → Option Int) (s : Playback) (calls : List PlayCall) : Prop where
  count : s.i = calls.length
  bound : calls.length ≤ pv.length
  cycle : s.cycleStartTime = startTime + ((pv.take s.i).map PlaybackItem.duration).sum
  waited : ∀ j c, calls[j]? = some c →
    FirstReading clock (startTime + playbackDue pv j) c.ready c.released
  past : ∀ c ∈ calls, c.released < s.reading
  ordered : calls.Pairwise fun c c' => c.released < c'.ready
  path : ∃ passed, Follows t.nextFd fdMin passed s.ifd ∧ passed.length = s.i
  request : ∃ length,
    s.client.request = ⟨UInt64.ofNat (sentItems calls).length, clt.idleFlags, length⟩
  payload_eq : s.client.payload = payload
  maxSequenceNo : s.client.times.maxSequenceNo = pv.length
  exited : s.client.exited = none
  wire_length : s.wire.length = (sentItems calls).length
  wire : ∀ n j : Nat, (sentItems calls)[n]? = some j → ∃ item fd, pv[j]? = some item ∧
    socket j = some fd ∧
    s.wire[n]? = some (fd, clt.wireMessage (UInt32.ofNat item.size.toNat) payload (n + 1))

section Run
variable {clt : Client} {t : Connections} {pv : List PlaybackItem} {clock : Nat → TicksTime}
  {startTime : TicksTime} {fdMin fdMax : Int} {payload : List UInt8} {ring : List Int}
  {s : Playback} {calls : List PlayCall}

theorem Playback.onSchedule_start (msgSize : UInt32) (reading : Nat) :
    (Playback.start clock reading fdMin (clt.initial msgSize payload pv.length)).OnSchedule clt t pv
      clock (clock reading) fdMin payload (fun j => ring[j % ring.length]?) [] where
  count := rfl
  bound := Nat.zero_le _
  cycle := (Int.add_zero _).symm
  waited _ _ hget := by cases hget
  past _ hmem := absurd hmem List.not_mem_nil
  ordered := .nil
  path := ⟨[], .nil fdMin, rfl⟩
  request := ⟨msgSize, rfl⟩
  payload_eq := rfl
  maxSequenceNo := rfl
  exited := rfl
  wire_length := rfl
  wire _ _ hget := by cases hget

theorem getElem?_concat_cases {α : Type*} {l : List α} {x y : α} {j : Nat}
    (h : (l ++ [x])[j]? = some y) : j < l.length ∧ l[j]? = some y ∨ j = l.length ∧ y = x := by
  have hlt := (List.getElem?_eq_some_iff.mp h).1
  rw [List.length_append, List.length_singleton] at hlt
  rcases Nat.lt_succ_iff_lt_or_eq.mp hlt with hold | rfl
  · rw [List.getElem?_append_left hold] at h
    exact Or.inl ⟨hold, h⟩
  · rw [List.getElem?_concat_length] at h
    exact Or.inr ⟨rfl, (Option.some.inj h).symm⟩

theorem Client.sendPacket_play {c : ClientState} {n : Nat} {length : UInt32} (size : Int)
    (hreq : c.request = ⟨UInt64.ofNat n, clt.idleFlags, length⟩) (hexited : c.exited = none)
    (hroom : n + 1 ≤ c.times.maxSequenceNo) (hmax : c.times.maxSequenceNo < 2 ^ 64)
    (send : Client.SendCall) :
    ∃ s', clt.sendPacket (setLength c size) send.now send.result =
        (s', if send.sent then
          some (clt.wireMessage (UInt32.ofNat size.toNat) c.payload (n + 1)) else none) ∧
      s'.request = ⟨UInt64.ofNat (n + if send.sent then 1 else 0), clt.idleFlags,
        UInt32.ofNat size.toNat⟩ ∧
      s'.payload = c.payload ∧ s'.times.maxSequenceNo = c.times.maxSequenceNo ∧
      s'.exited = none := by
  have hn : n + 1 < 2 ^ 64 := by omega
  have hsucc : UInt64.ofNat n + 1 = UInt64.ofNat (n + 1) := (UInt64.ofNat_add n 1).symm
  have hnat : (UInt64.ofNat (n + 1)).toNat = n + 1 := UInt64.toNat_ofNat_of_lt' hn
  have hset : (setLength c size).request =
      ⟨UInt64.ofNat n, clt.idleFlags, UInt32.ofNat size.toNat⟩ := by
    rw [setLength, hreq]
  have hsend := sendPacket_eq hset hexited send (by
    intro _
    rw [hsucc, hnat]
    exact hroom)
  rw [hsucc, outgoing_eq_wireHeader hn] at hsend
  refine ⟨_, hsend, ?_, rfl, ?_, hexited⟩
  · cases send.sent <;> rfl
  · dsimp only
    split <;> rfl

variable (hring : IsRing t.nextFd fdMin fdMax ring)
include hring

theorem Playback.OnSchedule.ifd_eq {socket : Nat → Option Int}
    (h : s.OnSchedule clt t pv clock startTime fdMin payload socket calls) :
    ring[s.i % ring.length]? = some s.ifd := by
  obtain ⟨passed, hpath, hlength⟩ := h.path
  apply hring.visits hpath
  rw [← hlength]
  exact List.getElem?_concat_length

theorem Playback.OnSchedule.wire_play
    (h : s.OnSchedule clt t pv clock startTime fdMin payload (fun j => ring[j % ring.length]?)
      calls) {item : PlaybackItem} (get : pv[s.i]? = some item) (ready released : Nat)
    (send : Client.SendCall) (n j : Nat)
    (hget : (sentItems (calls ++ [⟨ready, released, send⟩]))[n]? = some j) :
    ∃ item' fd, pv[j]? = some item' ∧ ring[j % ring.length]? = some fd ∧
      (s.wire ++ if send.sent then [(s.ifd, clt.wireMessage (UInt32.ofNat item.size.toNat) payload
        ((sentItems calls).length + 1))] else [])[n]? =
        some (fd, clt.wireMessage (UInt32.ofNat item'.size.toNat) payload (n + 1)) := by
  have hcount := h.count
  rw [sentItems_append] at hget
  cases hsent : send.sent with
  | false =>
    rw [hsent, if_neg Bool.false_ne_true, List.append_nil] at hget
    rw [if_neg Bool.false_ne_true, List.append_nil]
    exact h.wire n j hget
  | true =>
    rw [hsent, if_pos rfl] at hget
    rw [if_pos rfl]
    rcases getElem?_concat_cases hget with ⟨hlt, hold⟩ | ⟨rfl, rfl⟩
    · obtain ⟨item', fd, hitem', hfd, hwire⟩ := h.wire n j hold
      refine ⟨item', fd, hitem', hfd, ?_⟩
      rw [List.getElem?_append_left (by rw [h.wire_length]; exact hlt)]
      exact hwire
    · -- the message that was sent just now
      refine ⟨item, s.ifd, ?_, ?_, ?_⟩
      · rw [← hcount]
        exact get
      · rw [← hcount]
        exact h.ifd_eq hring
      · rw [← h.wire_length]
        exact List.getElem?_concat_length

theorem Playback.OnSchedule.turn
    (h : s.OnSchedule clt t pv clock startTime fdMin payload (fun j => ring[j % ring.length]?)
      calls) (hlen : pv.length < 2 ^ 64) {item : PlaybackItem} (get : pv[s.i]? = some item)
    {released : Nat}
    (waits : Returns (playbackWaitTurn clock (s.cycleStartTime + item.duration)) s.reading released)
    (send : Client.SendCall) {nextFd : Int} (next : t.nextFd s.ifd = some nextFd) :
    (s.play clt item released send nextFd).OnSchedule clt t pv clock startTime fdMin payload
      (fun j => ring[j % ring.length]?) (calls ++ [⟨s.reading, released, send⟩]) := by
  have hfirst := playbackWait_first waits
  have hi : s.i < pv.length := (List.getElem?_eq_some_iff.mp get).1
  have hcount := h.count
  obtain ⟨length, hreq⟩ := h.request
  have hle := sentItems_length_le calls
  obtain ⟨client, hsend, hrequest, hpayload, hmax, hexited⟩ :=
    Client.sendPacket_play item.size hreq h.exited (by rw [h.maxSequenceNo]; omega)
      (by rw [h.maxSequenceNo]; exact hlen) send
  have hplay : s.play clt item released send nextFd =
      { i := s.i + 1, ifd := nextFd, cycleStartTime := s.cycleStartTime + item.duration,
        reading := released + 1, client := client,
        wire := s.wire ++ (if send.sent then [(s.ifd,
          clt.wireMessage (UInt32.ofNat item.size.toNat) payload ((sentItems calls).length + 1))]
          else []) } := by
    unfold Playback.play
    rw [hsend, h.payload_eq]
    cases send.sent <;> rfl
  have htake : pv.take (s.i + 1) = pv.take s.i ++ [item] := by
    rw [List.take_add_one, get]
    rfl
  have hcycle : s.cycleStartTime + item.duration = startTime + playbackDue pv s.i := by
    rw [h.cycle, playbackDue, htake, List.map_append, List.sum_append, List.map_singleton,
      List.sum_singleton, Int.add_assoc]
  have hafter : ∀ c ∈ calls, c.released < s.reading := h.past
  rw [hplay]
  refine ⟨?_, ?_, ?_, ?_, ?_, ?_, ?_, ?_, ?_, ?_, hexited, ?_, ?_⟩
  · rw [List.length_append, List.length_singleton, hcount]
  · rw [List.length_append, List.length_singleton]
    omega
  · exact hcycle
  · intro j c hget
    rcases getElem?_concat_cases hget with ⟨-, hold⟩ | ⟨rfl, rfl⟩
    · exact h.waited j c hold
    · rw [← hcount, ← hcycle]
      exact hfirst
  · intro c hc
    have hready := hfirst.after
    rcases List.mem_append.mp hc with hold | hnew
    · have := hafter c hold
      dsimp only
      omega
    · cases List.mem_singleton.mp hnew
      exact Nat.lt_succ_self _
  · rw [List.pairwise_append]
    refine ⟨h.ordered, List.pairwise_singleton _ _, ?_⟩
    intro c hc c' hc'
    cases List.mem_singleton.mp hc'
    exact hafter c hc
  · obtain ⟨passed, hpath, hlength⟩ := h.path
    refine ⟨passed ++ [s.ifd], hpath.concat next, ?_⟩
    rw [List.length_append, List.length_singleton, hlength]
  · refine ⟨UInt32.ofNat item.size.toNat, hrequest.trans ?_⟩
    rw [sentItems_append, List.length_append]
    cases send.sent <;> rfl
  · exact hpayload.trans h.payload_eq
  · exact hmax.trans h.maxSequenceNo
  · rw [List.length_append, h.wire_length, sentItems_append, List.length_append]
    cases send.sent <;> rfl
  · exact h.wire_play hring get s.reading released send

theorem Plays.onSchedule (hlen : pv.length < 2 ^ 64) {s₀ : Playback}
    (h₀ : s₀.OnSchedule clt t pv clock startTime fdMin payload (fun j => ring[j % ring.length]?) [])
    (run : Plays clt t pv clock s₀ s calls) :
    s.OnSchedule clt t pv clock startTime fdMin payload (fun j => ring[j % ring.length]?)
      calls := by
  induction run with
  | start => exact h₀
  | delay reading _ later ih =>
    exact { ih with past := fun c hc => (ih.past c hc).trans_le later }
  | turn c _ up get waits next ih => exact ih.turn hring hlen get waits c next

theorem Playback.OnSchedule.goes_on {socket : Nat → Option Int}
    (h : s.OnSchedule clt t pv clock startTime fdMin payload socket calls) {item : PlaybackItem}
    {i : Nat} (hi : s.reading ≤ i) (hdue : s.cycleStartTime + item.duration ≤ clock i) :
    ∃ released nextFd,
      Returns (playbackWaitTurn clock (s.cycleStartTime + item.duration)) s.reading released ∧
      t.nextFd s.ifd = some nextFd := by
  have hlater : s.cycleStartTime + item.duration ≤ clock (s.reading + (i - s.reading)) := by
    rwa [Nat.add_sub_cancel' hi]
  obtain ⟨released, hreleased⟩ := playbackWait_returns _ hlater
  have hmem : s.ifd ∈ ring := List.mem_of_getElem? (h.ifd_eq hring)
  obtain ⟨nextFd, hnext⟩ := Option.isSome_iff_exists.mp (hring.path.isSome _ hmem)
  exact ⟨released, nextFd, hreleased, hnext⟩

end Run

/-- A comment and two messages, on one socket and a clock with a tick for every nanosecond. -/
def twoMessages : List PlaybackLine := [.comment, .item (1 / 1000000) 14, .item (3 / 1000000) 20]

end Sockperf
