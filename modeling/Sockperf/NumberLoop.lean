import Mathlib.Tactic.Linarith
import Mathlib.Data.Int.ConditionallyCompleteOrder
import Mathlib.Order.Monotone.Basic
import Sockperf.Bringup
import Sockperf.SendPackets

/-!
# The loop of a number based test

`doSendThenReceiveLoop` of a ping-pong client that was given a number of packets. The loop sends a
burst, receives replies, and then validates one packet. How many replies come back, for which
requests and in which order is left to the network.
-/

namespace Sockperf

open Memory

set_option autoImplicit false

/-- A reply as `handle_message` sees it: its sequence number and the clock when it is handled. -/
structure Reply where
  seqNo : UInt64
  now : TicksTime
  deriving DecidableEq, Repr

/-- What happens while `client_send_then_receive` runs: the clock at each send, the replies, and
whether a signal sets `g_b_exit`. -/
structure BurstTurn where
  sends : List TicksTime
  replies : List Reply
  expired : Bool
  deriving DecidableEq, Repr

structure NumberLoop where
  client : ClientState
  seqNo : Nat
  counterValid : Nat
  testStart : TicksTime
  prevRxTime : TicksTime
  exit : Bool

def stopCounting (numberTarget : Nat) : Nat :=
  testStartWarmupNum + numberTarget + testEndCooldownNum

namespace Client
variable (clt : Client)

/-- `handle_message` on a reply of the one server, without the data integrity test. -/
def handleReply (s : ClientState) (r : Reply) : ClientState :=
  if s.request.sequenceNumber < r.seqNo then { s with exited := some .sequenceHigher }
  else
    match s.times.setRxTime r.seqNo.toNat r.now 0 false with
    | none => { s with exited := some .verifyError }
    | some (times, counted) =>
      { s with times, receiveCount := s.receiveCount + if counted then 1 else 0 }

theorem handleMessage_reply {clt : Client} (recvfromAddr : SockAddr) {m : Mem} {msg : Message}
    {s : ClientState} (hvalid : msg.isValidHeader clt.msMaxSize m = true)
    (hexit : (clt.outside s.handled).exit = false)
    (hclient : (msg.getHeader m).isClient = false)
    (hwarmup : (msg.getHeader m).isWarmupMessage = false) (hserver : clt.workWithSrvNum = 1)
    (hintegrity : clt.dataIntegrity = false) :
    { (clt.handleMessage recvfromAddr m msg s).2.2 with
      handled := s.handled, accepted := s.accepted } =
    handleReply s ⟨msg.getSequenceCounter m, (clt.outside s.handled).now⟩ := by
  unfold handleReply
  by_cases hhigher : s.request.sequenceNumber < msg.getSequenceCounter m
  · rw [handleMessage_higher recvfromAddr hvalid hhigher, if_pos hhigher]
  · have hcounts : clt.Counts m msg s := ⟨hvalid, UInt64.not_lt.mp hhigher, hclient, hwarmup⟩
    rw [handleMessage_counts recvfromAddr hcounts hexit, countReply, getServerId, if_pos hserver,
      hintegrity, if_neg hhigher]
    dsimp only
    cases s.times.setRxTime (msg.getSequenceCounter m).toNat (clt.outside s.handled).now 0 false with
    | none => rfl
    | some x => rfl

/-- `client_send_burst` without send errors. -/
def sendBurst (s : ClientState) (sends : List TicksTime) : ClientState :=
  (clt.sendPackets (s, []) (sends.map (⟨·, true⟩))).1

/-- `client_receive_burst`; nothing follows an exit. -/
def receiveBurst (s : ClientState) (replies : List Reply) : ClientState :=
  replies.foldl (fun s r => if s.exited.isSome then s else handleReply s r) s

def sendThenReceive (s : ClientState) (t : BurstTurn) : ClientState :=
  receiveBurst (clt.sendBurst s t.sends) t.replies

end Client

namespace NumberLoop

/-- The part of a turn behind `client_send_then_receive`: the next packet is validated. -/
def validate (numberTarget : Nat) (s : NumberLoop) : NumberLoop :=
  let first := if s.seqNo = 0 then s.client.times.getTxTime 1 else some s.testStart
  match first, s.client.times.getTxTime (s.seqNo + 1),
      s.client.times.getRxTimeArray (s.seqNo + 1) with
  | some testStart, some txTime, some rxTimes =>
    let rxTime := rxTimes 0
    let s := { s with testStart, seqNo := s.seqNo + 1 }
    if txTime = 0 ∨ txTime < testStart ∨ rxTime = 0 ∨ rxTime < s.prevRxTime then s
    else
      let s := { s with prevRxTime := rxTime, counterValid := s.counterValid + 1 }
      if s.counterValid = stopCounting numberTarget then { s with exit := true } else s
  | _, _, _ => { s with client := { s.client with exited := some .verifyError } }

def turn (clt : Client) (numberTarget : Nat) (s : NumberLoop) (t : BurstTurn) : NumberLoop :=
  let s := { s with client := clt.sendThenReceive s.client t, exit := t.expired }
  if s.client.exited.isSome then s
  -- "Packet not recorded, nothing to validate"
  else if s.client.receiveCount = s.seqNo then s
  else s.validate numberTarget

/-- The turns of a run; nothing follows the end of the loop. -/
def run (clt : Client) (numberTarget : Nat) (s : NumberLoop) (turns : List BurstTurn) :
    NumberLoop :=
  turns.foldl (fun s t => if s.exit || s.client.exited.isSome then s
    else s.turn clt numberTarget t) s

def start (client : ClientState) : NumberLoop := ⟨client, 0, 0, 0, 0, false⟩

end NumberLoop

/-! ## Sends and replies of a ping-pong client -/

/-- Ping-pong sets `reply_every` to 1, and so every message asks for a reply. -/
structure Client.PingPong (clt : Client) : Prop where
  always : clt.pongMode = .always
  every : clt.replyEvery = 1

namespace Client
variable {clt : Client} {s : ClientState} {length : UInt32} {n : Nat}

theorem sendPackets_fst (calls : List SendCall) : ∀ (s : ClientState) (wire : List (List UInt8)),
    (clt.sendPackets (s, wire) calls).1 = (clt.sendPackets (s, []) calls).1 := by
  induction calls with
  | nil =>
    intro s wire
    rfl
  | cons c rest ih =>
    intro s wire
    by_cases hexit : s.exited.isSome = true
    · rw [sendPackets_exited hexit, sendPackets_exited hexit]
    · simp only [sendPackets, List.foldl_cons, hexit, Bool.false_eq_true, if_false] at ih ⊢
      rw [ih, ih _ ([] ++ _)]

theorem sendBurst_cons (hexit : s.exited = none) (now : TicksTime) (rest : List TicksTime) :
    clt.sendBurst s (now :: rest) = clt.sendBurst (clt.sendPacket s now .sent).1 rest := by
  have hsent : (SendCall.mk now true).result = .sent := rfl
  unfold sendBurst
  rw [List.map_cons, sendPackets, List.foldl_cons, hexit]
  exact sendPackets_fst _ _ _

theorem sendBurst_exited (hexit : s.exited.isSome = true) (sends : List TicksTime) :
    clt.sendBurst s sends = s := by
  rw [sendBurst, sendPackets_exited hexit]

theorem receiveBurst_cons (hexit : s.exited = none) (r : Reply) (rest : List Reply) :
    receiveBurst s (r :: rest) = receiveBurst (handleReply s r) rest := by
  rw [receiveBurst, List.foldl_cons, hexit]
  rfl

theorem receiveBurst_exited (hexit : s.exited.isSome = true) (replies : List Reply) :
    receiveBurst s replies = s := by
  induction replies with
  | nil => rfl
  | cons r rest ih =>
    rw [receiveBurst, List.foldl_cons, if_pos hexit]
    exact ih

section Send
variable (hping : clt.PingPong) (hreq : s.request = ⟨UInt64.ofNat n, clt.idleFlags, length⟩)
  (hn : n + 1 < 2 ^ 64)
include hping hreq hn

theorem sendPacket_pingPong (hexit : s.exited = none) (hevery : s.times.replyEvery = 1)
    (hmax : n + 1 ≤ s.times.maxSequenceNo) (now : TicksTime) :
    (clt.sendPacket s now .sent).1 =
      { s with
        request := ⟨UInt64.ofNat (n + 1), clt.idleFlags, length⟩
        times := { s.times with tx := Function.update s.times.tx (n + 1) now } } := by
  have hsucc : UInt64.ofNat n + 1 = UInt64.ofNat (n + 1) := (UInt64.ofNat_add n 1).symm
  have hnat : (UInt64.ofNat (n + 1)).toNat = n + 1 := UInt64.toNat_ofNat_of_lt' hn
  have hwants : clt.wantsPong ⟨UInt64.ofNat n + 1, clt.idleFlags, length⟩ = true := by
    rw [wantsPong, hping.always]
  have hsend := sendPacket_eq hreq hexit ⟨now, true⟩ fun _ => by
    rw [hsucc, hnat]
    exact hmax
  have hindex : (n + 1) / s.times.replyEvery = n + 1 := by
    rw [hevery, Nat.div_one]
  rw [hwants, hsucc, hnat, stamp, hindex] at hsend
  exact congrArg Prod.fst hsend

theorem sendPacket_beyond (hmax : s.times.maxSequenceNo < n + 1) (now : TicksTime) :
    (clt.sendPacket s now .sent).1.exited = some .verifyError := by
  have hsucc : UInt64.ofNat n + 1 = UInt64.ofNat (n + 1) := (UInt64.ofNat_add n 1).symm
  have hnat : (UInt64.ofNat (n + 1)).toNat = n + 1 := UInt64.toNat_ofNat_of_lt' hn
  refine sendPacket_exit hreq ⟨now, true⟩ ?_ ?_
  · rw [wantsPong, hping.always]
  · rw [hsucc, hnat]
    exact hmax

end Send

theorem handleReply_eq {r : Reply} (hle : r.seqNo ≤ s.request.sequenceNumber)
    (hevery : s.times.replyEvery = 1) (hmax : r.seqNo.toNat ≤ s.times.maxSequenceNo) :
    handleReply s r =
      if s.times.rx r.seqNo.toNat 0 = 0 then
        { s with
          times := { s.times with
            rx := Function.update s.times.rx r.seqNo.toNat
              (Function.update (s.times.rx r.seqNo.toNat) 0 r.now) }
          receiveCount := s.receiveCount + 1 }
      else { s with times := s.times.incDupCount 0 } := by
  have hlt : ¬ s.request.sequenceNumber < r.seqNo := UInt64.not_lt.mpr hle
  have hindex : s.times.seq2index r.seqNo.toNat = some r.seqNo.toNat :=
    PacketTimes.seq2index_eq_some.mpr ⟨hmax, by rw [hevery, Nat.div_one]⟩
  rw [handleReply, if_neg hlt, PacketTimes.setRxTime, hindex, Option.map_some]
  by_cases hrx : s.times.rx r.seqNo.toNat 0 = 0
  · rw [if_pos hrx, if_pos hrx]
    rfl
  · rw [if_neg hrx, if_neg hrx]
    rfl

end Client

/-! ## Runs in which every reply arrives -/

/-- The clock readings of a run without losses: when request `i` is sent and when its reply is
handled. -/
structure Readings where
  tx : Nat → TicksTime
  rx : Nat → TicksTime
  tx_pos : ∀ i, 0 < tx i
  rx_pos : ∀ i, 0 < rx i
  tx_mono : Monotone tx
  rx_mono : Monotone rx

namespace Readings
variable (c : Readings)

/-- The next `b` sends after `n` messages. -/
def sends (n b : Nat) : List TicksTime := (List.range b).map fun i => c.tx (n + i + 1)

def replies (n b : Nat) : List Reply :=
  (List.range b).map fun i => ⟨UInt64.ofNat (n + i + 1), c.rx (n + i + 1)⟩

/-- Turn `k` of a run with bursts of `b`, in which no signal comes. -/
def turn (b k : Nat) : BurstTurn := ⟨c.sends (k * b) b, c.replies (k * b) b, false⟩

def turns (b k : Nat) : List BurstTurn := (List.range k).map (c.turn b)

theorem turns_succ (b k : Nat) : c.turns b (k + 1) = c.turns b k ++ [c.turn b k] := by
  rw [turns, List.range_succ, List.map_append]
  rfl

theorem sends_succ (n b : Nat) : c.sends n (b + 1) = c.tx (n + 1) :: c.sends (n + 1) b := by
  unfold sends
  rw [List.range_succ_eq_map, List.map_cons, List.map_map]
  refine congrArg (List.cons _) (List.map_congr_left fun i _ => ?_)
  simp only [Function.comp, Nat.succ_eq_add_one]
  congr 1
  omega

theorem replies_succ (n b : Nat) : c.replies n (b + 1) =
    ⟨UInt64.ofNat (n + 1), c.rx (n + 1)⟩ :: c.replies (n + 1) b := by
  unfold replies
  rw [List.range_succ_eq_map, List.map_cons, List.map_map]
  refine congrArg (List.cons _) (List.map_congr_left fun i _ => ?_)
  have hi : n + (i + 1) + 1 = n + 1 + i + 1 := by omega
  simp only [Function.comp, Nat.succ_eq_add_one, hi]

end Readings

/-- `n` messages were sent and the first `m` of them answered. -/
structure Client.Answered (clt : Client) (c : Readings) (length : UInt32) (max n m : Nat)
    (s : ClientState) : Prop where
  request : s.request = ⟨UInt64.ofNat n, clt.idleFlags, length⟩
  maxSequenceNo : s.times.maxSequenceNo = max
  replyEvery : s.times.replyEvery = 1
  tx : ∀ i, 1 ≤ i → i ≤ n → s.times.tx i = c.tx i
  rx : ∀ i, s.times.rx i 0 = if 1 ≤ i ∧ i ≤ m then c.rx i else 0
  receiveCount : s.receiveCount = m
  exited : s.exited = none

namespace Client
variable {clt : Client} {c : Readings} {length : UInt32} {max : Nat} (hmax : max + 1 < 2 ^ 64)
include hmax

theorem Answered.send {n m : Nat} {s : ClientState} (hping : clt.PingPong)
    (h : clt.Answered c length max n m s) (hn : n + 1 ≤ max) :
    clt.Answered c length max (n + 1) m (clt.sendPacket s (c.tx (n + 1)) .sent).1 := by
  rw [sendPacket_pingPong hping h.request (by omega) h.exited h.replyEvery
    (by rw [h.maxSequenceNo]; exact hn)]
  refine ⟨rfl, h.maxSequenceNo, h.replyEvery, fun i hone hle => ?_, h.rx, h.receiveCount, h.exited⟩
  by_cases hi : i = n + 1
  · subst hi
    exact Function.update_self _ _ _
  · rw [← h.tx i hone (by omega)]
    exact Function.update_of_ne hi _ _

theorem Answered.receive {n m : Nat} {s : ClientState} (h : clt.Answered c length max n m s)
    (hm : m + 1 ≤ n) (hn : n ≤ max) :
    clt.Answered c length max n (m + 1)
      (handleReply s ⟨UInt64.ofNat (m + 1), c.rx (m + 1)⟩) := by
  have hsmall : n < 2 ^ 64 := by omega
  have hnat : (UInt64.ofNat (m + 1)).toNat = m + 1 :=
    UInt64.toNat_ofNat_of_lt' (Nat.lt_of_le_of_lt hm hsmall)
  have hle : UInt64.ofNat (m + 1) ≤ s.request.sequenceNumber := by
    rw [h.request, UInt64.le_iff_toNat_le, hnat, UInt64.toNat_ofNat_of_lt' hsmall]
    exact hm
  have hfree : s.times.rx (m + 1) 0 = 0 := by
    rw [h.rx, if_neg (by omega)]
  rw [handleReply_eq hle h.replyEvery (by rw [hnat, h.maxSequenceNo]; omega)]
  dsimp only
  rw [hnat, if_pos hfree]
  refine ⟨h.request, h.maxSequenceNo, h.replyEvery, h.tx, fun i => ?_, ?_, h.exited⟩
  · by_cases hi : i = m + 1
    · subst hi
      simp
    · simp only [Function.update_of_ne hi, h.rx]
      congr 1
      exact propext ⟨fun hle => ⟨hle.1, by omega⟩, fun hle => ⟨hle.1, by omega⟩⟩
  · rw [h.receiveCount]

theorem Answered.sendBurst (hping : clt.PingPong) {m : Nat} (b : Nat) : ∀ n s,
    clt.Answered c length max n m s → n + b ≤ max →
      clt.Answered c length max (n + b) m (clt.sendBurst s (c.sends n b)) := by
  induction b with
  | zero =>
    intro n s h _
    exact h
  | succ b ih =>
    intro n s h hle
    rw [c.sends_succ, sendBurst_cons h.exited]
    have hstep := ih (n + 1) _ (h.send hmax hping (by omega)) (by omega)
    rwa [Nat.add_right_comm] at hstep

theorem Answered.receiveBurst {n : Nat} (hn : n ≤ max) (b : Nat) : ∀ m s,
    clt.Answered c length max n m s → m + b ≤ n →
      clt.Answered c length max n (m + b) (receiveBurst s (c.replies m b)) := by
  induction b with
  | zero =>
    intro m s h _
    exact h
  | succ b ih =>
    intro m s h hle
    rw [c.replies_succ, receiveBurst_cons h.exited]
    have hstep := ih (m + 1) _ (h.receive hmax (by omega) hn) (by omega)
    rwa [Nat.add_right_comm] at hstep

theorem Answered.sendBurst_exits (hping : clt.PingPong) {m : Nat} (b : Nat) : ∀ n s,
    clt.Answered c length max n m s → n ≤ max → max < n + b →
      (clt.sendBurst s (c.sends n b)).exited = some .verifyError := by
  induction b with
  | zero =>
    intro n s h hle hlt
    omega
  | succ b ih =>
    intro n s h hle hlt
    rw [c.sends_succ, sendBurst_cons h.exited]
    by_cases hn : n + 1 ≤ max
    · exact ih (n + 1) _ (h.send hmax hping hn) hn (by omega)
    · have hexit := sendPacket_beyond hping h.request (by omega)
        (by rw [h.maxSequenceNo]; omega) (c.tx (n + 1))
      rw [sendBurst_exited (by rw [hexit]; rfl)]
      exact hexit

end Client

namespace NumberLoop
variable {clt : Client} {target : Nat} {s : NumberLoop}

/-! ## What a turn can do -/

variable (target s) in
theorem validate_cases : (s.validate target).counterValid ≤ s.counterValid + 1 ∧
    ((s.validate target).exit = s.exit ∨
      (s.validate target).counterValid = stopCounting target) ∧
    ((s.validate target).client.exited = some .verifyError ∨
      (s.validate target).client = s.client ∧ (s.validate target).seqNo = s.seqNo + 1) := by
  unfold validate
  dsimp only
  split
  · split
    · exact ⟨Nat.le_succ _, Or.inl rfl, Or.inr ⟨rfl, rfl⟩⟩
    · split
      · next h => exact ⟨Nat.le_refl _, Or.inr h, Or.inr ⟨rfl, rfl⟩⟩
      · exact ⟨Nat.le_refl _, Or.inl rfl, Or.inr ⟨rfl, rfl⟩⟩
  · exact ⟨Nat.le_succ _, Or.inl rfl, Or.inl rfl⟩

theorem run_stopped (hstop : (s.exit || s.client.exited.isSome) = true) (turns : List BurstTurn) :
    run clt target s turns = s := by
  induction turns with
  | nil => rfl
  | cons t rest ih =>
    rw [run, List.foldl_cons, if_pos hstop]
    exact ih

theorem run_append (s : NumberLoop) (turns : List BurstTurn) (t : BurstTurn) :
    run clt target s (turns ++ [t]) =
      if (run clt target s turns).exit || (run clt target s turns).client.exited.isSome then
        run clt target s turns
      else (run clt target s turns).turn clt target t := by
  rw [run, List.foldl_append]
  rfl

/-- The loop after `k` turns in which all replies arrived. -/
structure Lossless (clt : Client) (target : Nat) (c : Readings) (length : UInt32) (max b k : Nat)
    (s : NumberLoop) : Prop where
  client : clt.Answered c length max (k * b) (k * b) s.client
  seqNo : s.seqNo = k
  counterValid : s.counterValid = k
  testStart : k ≠ 0 → s.testStart = c.tx 1
  prevRxTime : s.prevRxTime ≤ c.rx (k + 1)
  exit : s.exit = decide (k = stopCounting target)

section Lossless
variable {c : Readings} {length : UInt32} {max b k : Nat}

theorem validate_lossless (hclient : clt.Answered c length max ((k + 1) * b) ((k + 1) * b) s.client)
    (hb : 1 ≤ b) (hfit : (k + 1) * b ≤ max) (hseqNo : s.seqNo = k) (hcounter : s.counterValid = k)
    (hstart : k ≠ 0 → s.testStart = c.tx 1) (hprev : s.prevRxTime ≤ c.rx (k + 1))
    (hexit : s.exit = false) : Lossless clt target c length max b (k + 1) (s.validate target) := by
  have hle : k + 1 ≤ (k + 1) * b := Nat.le_mul_of_pos_right _ hb
  have hindex : ∀ i, i ≤ (k + 1) * b → s.client.times.seq2index i = some i := fun i hi =>
    PacketTimes.seq2index_eq_some.mpr
      ⟨by rw [hclient.maxSequenceNo]; omega, by rw [hclient.replyEvery, Nat.div_one]⟩
  have hfirst : (if s.seqNo = 0 then s.client.times.getTxTime 1 else some s.testStart) =
      some (c.tx 1) := by
    rw [hseqNo]
    split
    · rw [PacketTimes.getTxTime, hindex 1 (by omega), Option.map_some,
        hclient.tx 1 (Nat.le_refl 1) (by omega)]
    · next hk => rw [hstart hk]
  have htx : s.client.times.getTxTime (s.seqNo + 1) = some (c.tx (k + 1)) := by
    rw [hseqNo, PacketTimes.getTxTime, hindex _ hle, Option.map_some,
      hclient.tx _ (by omega) hle]
  have hrxs : s.client.times.getRxTimeArray (s.seqNo + 1) = some (s.client.times.rx (k + 1)) := by
    rw [hseqNo, PacketTimes.getRxTimeArray, hindex _ hle, Option.map_some]
  have hrx : s.client.times.rx (k + 1) 0 = c.rx (k + 1) := by
    rw [hclient.rx, if_pos ⟨by omega, hle⟩]
  have hvalid : ¬ (c.tx (k + 1) = 0 ∨ c.tx (k + 1) < c.tx 1 ∨ c.rx (k + 1) = 0 ∨
      c.rx (k + 1) < s.prevRxTime) := by
    have hmono : c.tx 1 ≤ c.tx (k + 1) := c.tx_mono (by omega)
    simp only [not_or, not_lt]
    exact ⟨(c.tx_pos (k + 1)).ne', hmono, (c.rx_pos (k + 1)).ne', hprev⟩
  have hnext : c.rx (k + 1) ≤ c.rx (k + 1 + 1) := c.rx_mono (Nat.le_succ _)
  unfold validate
  simp only [hfirst, htx, hrxs, hrx, if_neg hvalid]
  rw [hcounter]
  split
  · next hstop =>
    exact ⟨hclient, by rw [hseqNo], rfl, fun _ => rfl, hnext, by simp [hstop]⟩
  · next hstop =>
    exact ⟨hclient, by rw [hseqNo], rfl, fun _ => rfl, hnext, by simp [hstop, hexit]⟩

theorem Lossless.turn (hmax : max + 1 < 2 ^ 64) (hping : clt.PingPong) (hb : 1 ≤ b)
    (h : Lossless clt target c length max b k s) (hfit : (k + 1) * b ≤ max) :
    Lossless clt target c length max b (k + 1) (s.turn clt target (c.turn b k)) := by
  have hmul : (k + 1) * b = k * b + b := Nat.succ_mul k b
  have hsent := h.client.sendBurst hmax hping b (k * b) s.client (by omega)
  have hclient : clt.Answered c length max ((k + 1) * b) ((k + 1) * b)
      (clt.sendThenReceive s.client (c.turn b k)) := by
    rw [hmul]
    exact hsent.receiveBurst hmax (by omega) b (k * b) _ (Nat.le_refl _)
  have hle : k + 1 ≤ (k + 1) * b := Nat.le_mul_of_pos_right _ hb
  unfold NumberLoop.turn
  dsimp only
  rw [if_neg, if_neg]
  · exact validate_lossless hclient hb hfit h.seqNo h.counterValid h.testStart h.prevRxTime rfl
  · show ¬ (clt.sendThenReceive s.client (c.turn b k)).receiveCount = s.seqNo
    rw [hclient.receiveCount, h.seqNo]
    omega
  · show ¬ (clt.sendThenReceive s.client (c.turn b k)).exited.isSome = true
    rw [hclient.exited]
    decide

theorem Lossless.turn_exits (hmax : max + 1 < 2 ^ 64) (hping : clt.PingPong)
    (h : Lossless clt target c length max b k s) (hfit : k * b ≤ max) (hlt : max < (k + 1) * b) :
    (s.turn clt target (c.turn b k)).client.exited = some .verifyError := by
  have hmul : (k + 1) * b = k * b + b := Nat.succ_mul k b
  have hsend := h.client.sendBurst_exits hmax hping b (k * b) s.client hfit (by omega)
  have hexit : (clt.sendThenReceive s.client (c.turn b k)).exited = some .verifyError := by
    unfold Client.sendThenReceive
    rw [Client.receiveBurst_exited]
    · exact hsend
    · show (clt.sendBurst s.client (c.sends (k * b) b)).exited.isSome = true
      rw [hsend]
      rfl
  unfold NumberLoop.turn
  dsimp only
  rw [hexit]
  exact hexit

end Lossless

end NumberLoop

/-! ## The number of packets of a test -/

section Test
variable (clt : Client) (p : UserParams) (target : Nat) (c : Readings) (length : UInt32)
  (payload : List UInt8)

/-- The loop after `k` turns of a test in which every reply arrives, with what `bringup` sets up. -/
def losslessRun (k : Nat) : NumberLoop :=
  NumberLoop.run clt target (.start (clt.initial length payload p.maxSequenceNo))
    (c.turns p.burstSize k)

/-- As many packets as asked for were sent and answered. -/
def NumberLoop.Enough (s : NumberLoop) : Prop :=
  stopCounting target ≤ s.client.request.sequenceNumber.toNat ∧
    stopCounting target ≤ s.client.receiveCount

variable {clt p target c length payload}

theorem maxSequenceNo_numberBased (hmode : p.mode = .numberBased target) :
    p.maxSequenceNo = 100009000 := by
  rw [UserParams.maxSequenceNo, hmode]
  rfl

theorem losslessRun_succ (k : Nat) : losslessRun clt p target c length payload (k + 1) =
    if (losslessRun clt p target c length payload k).exit ||
        (losslessRun clt p target c length payload k).client.exited.isSome then
      losslessRun clt p target c length payload k
    else (losslessRun clt p target c length payload k).turn clt target
      (c.turn p.burstSize k) := by
  rw [losslessRun, c.turns_succ, NumberLoop.run_append]
  rfl

variable (c length payload) in
theorem losslessRun_spec (hping : clt.PingPong) (hmode : p.mode = .numberBased target)
    (hb : 1 ≤ p.burstSize) (k : Nat) (hk : k ≤ stopCounting target) :
    k * p.burstSize ≤ p.maxSequenceNo ∧
        NumberLoop.Lossless clt target c length p.maxSequenceNo p.burstSize k
          (losslessRun clt p target c length payload k) ∨
      p.maxSequenceNo < k * p.burstSize ∧
        (losslessRun clt p target c length payload k).client.exited = some .verifyError := by
  have hmaxSequenceNo := maxSequenceNo_numberBased hmode
  have hmax : p.maxSequenceNo + 1 < 2 ^ 64 := by omega
  induction k with
  | zero =>
    refine Or.inl ⟨by omega, ⟨?_, rfl, rfl, fun h => absurd rfl h, (c.rx_pos 1).le, ?_⟩⟩
    · refine ⟨?_, rfl, hping.every, fun i hone hle => ?_, fun i => ?_, ?_, rfl⟩
      · rw [Nat.zero_mul]
        rfl
      · omega
      · rw [if_neg (by omega)]
        rfl
      · rw [Nat.zero_mul]
        rfl
    · rfl
  | succ k ih =>
    have hmul : (k + 1) * p.burstSize = k * p.burstSize + p.burstSize := Nat.succ_mul k _
    rcases ih (by omega) with ⟨hfit, h⟩ | ⟨hlt, hexited⟩
    · have hgoes : ((losslessRun clt p target c length payload k).exit ||
          (losslessRun clt p target c length payload k).client.exited.isSome) = false := by
        rw [h.exit, h.client.exited, decide_eq_false (by omega)]
        rfl
      rw [losslessRun_succ, hgoes]
      rcases Nat.lt_or_ge p.maxSequenceNo ((k + 1) * p.burstSize) with hlt | hle
      · exact Or.inr ⟨hlt, h.turn_exits hmax hping hfit hlt⟩
      · exact Or.inl ⟨hle, h.turn hmax hping hb hle⟩
    · refine Or.inr ⟨by omega, ?_⟩
      rw [losslessRun_succ, hexited, Option.isSome_some, Bool.or_true, if_pos rfl]
      exact hexited

theorem NumberLoop.Lossless.sequenceNumber {s : NumberLoop} {max b k : Nat} (hmax : max < 2 ^ 64)
    (h : NumberLoop.Lossless clt target c length max b k s) (hfit : k * b ≤ max) :
    s.client.request.sequenceNumber.toNat = k * b := by
  rw [h.client.request]
  exact UInt64.toNat_ofNat_of_lt' (Nat.lt_of_le_of_lt hfit hmax)

theorem NumberLoop.Lossless.enough_iff {s : NumberLoop} {max b k : Nat} (hmax : max < 2 ^ 64)
    (h : NumberLoop.Lossless clt target c length max b k s) (hfit : k * b ≤ max) :
    s.Enough target ↔ stopCounting target ≤ k * b := by
  rw [NumberLoop.Enough, h.sequenceNumber hmax hfit, h.client.receiveCount, and_self]

end Test

def pingPong : Client where
  msMaxSize := 14
  pongMode := .always
  replyEvery := 1
  workWithSrvNum := 1
  isMulticast := false
  isStream := false
  dataIntegrity := false
  outside := fun _ => ⟨false, 0⟩

theorem pingPong_pingPong : pingPong.PingPong := ⟨rfl, rfl⟩

/-- Each packet is sent at an odd time and answered at the next even one. -/
def alternating : Readings where
  tx := fun i => 2 * (i : Int) + 1
  rx := fun i => 2 * (i : Int) + 2
  tx_pos := fun i => by
    show (0 : Int) < 2 * (i : Int) + 1
    omega
  rx_pos := fun i => by
    show (0 : Int) < 2 * (i : Int) + 2
    omega
  tx_mono := fun i j hij => by
    show 2 * (i : Int) + 1 ≤ 2 * (j : Int) + 1
    omega
  rx_mono := fun i j hij => by
    show 2 * (i : Int) + 2 ≤ 2 * (j : Int) + 2
    omega

def onePacketByOne : UserParams := ⟨.numberBased 1, 1, 1000, 1, 1, 1, 1⟩

end Sockperf
