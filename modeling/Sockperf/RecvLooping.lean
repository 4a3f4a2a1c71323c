import Mathlib.Data.Int.Basic
import Sockperf.Durations
import Sockperf.Lib.While

/-!
# Receiving more than once

`--recv_looping_num` is meant to set how many receives are made on a descriptor that is ready. The
option parser, the loop of the server in `doLoop` and the loop of the client in `client_receive`,
while no signal ends the process.
-/

namespace Sockperf

open While
set_option autoImplicit false

/-! ## The option -/

inductive RecvLoopingError where
  /-- "Invalid number of loops" -/
  | invalidNumber
  /-- "recv_looping_num larger then one must be used in a none-blocked mode only. add
  --nonblocked." -/
  | nonblockedOnly
  /-- "recv_looping_num cannot be equal to 0." -/
  | zero
  deriving DecidableEq, Repr

/-- `int value = strtol(...)`; there is none if `strtol` sets `errno`. -/
def strtolInt (n : Int) : Option Int := (int64 n).map (·.bmod (2 ^ 32))

/-- The part of `parse_common_opt` for `--recv_looping_num`: the new `max_looping_over_recv`. -/
def parseRecvLooping (nonblocked : Bool) (n maxLoopingOverRecv : Int) :
    Except RecvLoopingError Int :=
  match strtolInt n with
  | none => .error .invalidNumber
  | some value =>
    if 1 ≠ value then
      if nonblocked then .ok maxLoopingOverRecv else .error .nonblockedOnly
    else if 0 = value then .error .zero
    else .ok value

theorem parseRecvLooping_ok {nonblocked : Bool} {n m : Int}
    (h : parseRecvLooping nonblocked n 1 = .ok m) : m = 1 := by
  unfold parseRecvLooping at h
  split at h
  · cases h
  · split at h
    · split at h
      · cases h
        rfl
      · cases h
    · next hvalue =>
      split at h
      · cases h
      · cases h
        exact (not_not.mp hvalue).symm

theorem parseRecvLooping_blocked (n : Int) :
    (∃ e, parseRecvLooping false n 1 = .error e) ↔ strtolInt n ≠ some 1 := by
  unfold parseRecvLooping
  cases strtolInt n with
  | none => simp
  | some value =>
    by_cases hone : 1 = value
    · subst hone
      simp
    · simp [hone, Ne.symm hone]

/-! ## The loops -/

/-- What one receive meets, and whether a reply that is sent meanwhile resets `errno`. -/
inductive RecvOutcome where
  | data (packets : Nat) (resets : Bool)
  /-- `handle_message` returned false -/
  | rejected (packets : Nat) (resets : Bool)
  /-- `EAGAIN` -/
  | wouldBlock
  /-- `EINTR` -/
  | interrupted
  /-- no bytes, `EPIPE` or `ECONNRESET` -/
  | shutdown
  deriving DecidableEq, Repr

structure RecvLoop where
  /-- `m_recived` -/
  left : Int
  /-- `errno` is `EAGAIN` -/
  eagain : Bool
  /-- `close_ifd` removed the record -/
  gone : Bool
  doUpdate : Bool
  /-- the client left the process -/
  exited : Bool
  packets : Nat
  /-- receives so far -/
  made : Nat
  deriving DecidableEq, Repr

namespace RecvLoop

def start (maxLoopingOverRecv : Int) (eagain : Bool) : RecvLoop :=
  ⟨maxLoopingOverRecv, eagain, false, false, false, 0, 0⟩

variable (s : RecvLoop)

/-- `if (m_recived > 0) m_recived--` -/
def countdown : RecvLoop := { s with left := if 0 < s.left then s.left - 1 else s.left }

/-- A receive leaves `errno` as it was unless it fails. -/
def receive : RecvOutcome → RecvLoop
  | .data _ resets | .rejected _ resets =>
    { s with made := s.made + 1, eagain := s.eagain && !resets }
  | .wouldBlock => { s with made := s.made + 1, eagain := true }
  | .interrupted | .shutdown => { s with made := s.made + 1, eagain := false }

end RecvLoop

section Loops
variable (stream : Bool) (env : Nat → RecvOutcome)

/-- `server_receive_then_send`; true stands for `do_update`. -/
def serverReceive (s : RecvLoop) : Bool × RecvLoop :=
  if s.gone then (true, s)
  else
    let o := env s.made
    let s := s.receive o
    match o with
    | .shutdown | .rejected _ _ => (true, { s with gone := stream })
    | _ => (false, s)

/-- One turn of the loop in `Server::doLoop`. -/
def serverTurn (s : RecvLoop) : Turn RecvLoop RecvLoop :=
  if s.left = 0 then .done s
  else
    let (update, s) := serverReceive stream env s.countdown
    if update then .next { s with doUpdate := true }
    else if s.eagain then .done s
    else .next s

/-- `client_receive_from_selected`; there is no result when it leaves the process. -/
def clientReceive (s : RecvLoop) : Option Nat × RecvLoop :=
  let o := env s.made
  let s := s.receive o
  match o with
  | .data packets _ | .rejected packets _ => (some packets, s)
  | .shutdown => (if stream then none else some 0, s)
  | _ => (some 0, s)

/-- One turn of the loop in `Client::client_receive`. -/
def clientTurn (s : RecvLoop) : Turn RecvLoop RecvLoop :=
  if s.left = 0 then .done s
  else
    match clientReceive stream env s.countdown with
    | (none, s) => .done { s with exited := true }
    | (some recievedPackets, s) =>
      if recievedPackets = 0 ∧ s.eagain then .done s
      else .next { s with packets := s.packets + recievedPackets }

/-- Nothing to read, or the server closes the connection. -/
def serverStops : RecvOutcome → Bool
  | .wouldBlock => true
  | .shutdown | .rejected _ _ => stream
  | _ => false

def clientStops : RecvOutcome → Bool
  | .wouldBlock => true
  | .shutdown => stream
  | _ => false

end Loops

/-- As many receives as the option asks for: up to the first one that `stop`s, and `limit` at
most. -/
structure Asked (limit : Int) (stop : Nat → Bool) (n : Nat) : Prop where
  pos : 1 ≤ n
  before : ∀ i, i + 1 < n → stop i = false
  limited : 0 ≤ limit → n ≤ limit
  last : stop (n - 1) = true ∨ (n : Int) = limit

/-! ## How many receives are made -/

section Made
variable {stream : Bool} {env : Nat → RecvOutcome} {s : RecvLoop} {limit : Int} {n : Nat}

variable (stream env) in
theorem serverTurn_zero (hleft : s.left = 0) : serverTurn stream env s = .done s := if_pos hleft

variable (stream env) in
theorem clientTurn_zero (hleft : s.left = 0) : clientTurn stream env s = .done s := if_pos hleft

variable (stream env) in
theorem serverTurn_gone (hleft : s.left ≠ 0) (hgone : s.gone = true) :
    serverTurn stream env s = .next { s.countdown with doUpdate := true } := by
  have hstill : s.countdown.gone = true := hgone
  simp only [serverTurn, serverReceive, hleft, hstill, if_false, if_true]

variable (stream env) in
theorem serverTurn_cases (hleft : s.left ≠ 0) (hgone : s.gone = false) :
    ∃ s', s'.made = s.made + 1 ∧ s'.left = s.countdown.left ∧
      (serverTurn stream env s = .done s' ∧ (env s.made = .wouldBlock ∨ s.eagain = true) ∨
        serverTurn stream env s = .next s' ∧ env s.made ≠ .wouldBlock ∧
          s'.gone = serverStops stream (env s.made) ∧ (s.eagain = false → s'.eagain = false)) := by
  have hstill : s.countdown.gone = false := hgone
  have hmade : s.countdown.made = s.made := rfl
  have hstale : s.countdown.eagain = s.eagain := rfl
  simp only [serverTurn, serverReceive, hleft, hstill, hmade, if_false, Bool.false_eq_true]
  cases henv : env s.made with
  | data packets resets =>
    refine ⟨s.countdown.receive (.data packets resets), rfl, rfl, ?_⟩
    by_cases hlate : (s.countdown.receive (.data packets resets)).eagain = true
    · refine Or.inl ⟨if_pos hlate, Or.inr ?_⟩
      exact (Bool.and_eq_true_iff.mp hlate).1
    · refine Or.inr ⟨if_neg hlate, nofun, hgone, fun hfresh => ?_⟩
      exact Bool.eq_false_of_not_eq_true hlate
  | rejected packets resets =>
    refine ⟨{ s.countdown.receive (.rejected packets resets) with
      gone := stream, doUpdate := true }, rfl, rfl, Or.inr ⟨rfl, nofun, rfl, fun hfresh => ?_⟩⟩
    show (s.countdown.eagain && !resets) = false
    rw [hstale, hfresh, Bool.false_and]
  | wouldBlock => exact ⟨s.countdown.receive .wouldBlock, rfl, rfl, Or.inl ⟨rfl, Or.inl rfl⟩⟩
  | interrupted =>
    exact ⟨s.countdown.receive .interrupted, rfl, rfl, Or.inr ⟨rfl, nofun, hgone, fun _ => rfl⟩⟩
  | shutdown =>
    exact ⟨{ s.countdown.receive .shutdown with gone := stream, doUpdate := true }, rfl, rfl,
      Or.inr ⟨rfl, nofun, rfl, fun _ => rfl⟩⟩

variable (stream env) in
theorem clientTurn_cases (hleft : s.left ≠ 0) :
    ∃ s', s'.made = s.made + 1 ∧ s'.left = s.countdown.left ∧
      (clientTurn stream env s = .done s' ∧
          (clientStops stream (env s.made) = true ∨ s.eagain = true) ∨
        clientTurn stream env s = .next s' ∧ clientStops stream (env s.made) = false ∧
          (s.eagain = false → s'.eagain = false)) := by
  have hmade : s.countdown.made = s.made := rfl
  simp only [clientTurn, clientReceive, hleft, hmade, if_false]
  cases henv : env s.made with
  | data packets resets | rejected packets resets =>
    dsimp only
    split
    · next hlate =>
      refine ⟨_, ?_, ?_, Or.inl ⟨rfl, Or.inr (Bool.and_eq_true_iff.mp hlate.2).1⟩⟩
      · rfl
      · rfl
    · refine ⟨_, ?_, ?_, Or.inr ⟨rfl, rfl, fun hfresh => ?_⟩⟩
      · rfl
      · rfl
      show (s.eagain && !resets) = false
      rw [hfresh, Bool.false_and]
  | wouldBlock => exact ⟨s.countdown.receive .wouldBlock, rfl, rfl, Or.inl ⟨rfl, Or.inl rfl⟩⟩
  | interrupted =>
    exact ⟨{ s.countdown.receive .interrupted with packets := s.packets + 0 }, rfl, rfl,
      Or.inr ⟨rfl, rfl, fun _ => rfl⟩⟩
  | shutdown =>
    cases stream with
    | true =>
      exact ⟨{ s.countdown.receive .shutdown with exited := true }, rfl, rfl,
        Or.inl ⟨rfl, Or.inl rfl⟩⟩
    | false =>
      exact ⟨{ s.countdown.receive .shutdown with packets := s.packets + 0 }, rfl, rfl,
        Or.inr ⟨rfl, rfl, fun _ => rfl⟩⟩

theorem countdown_one (hleft : s.left = 1) : s.countdown.left = 0 := by
  simp [RecvLoop.countdown, hleft]

variable (stream env) in
theorem serverLoop_one (hleft : s.left = 1) (hgone : s.gone = false) :
    ∃ s', Returns (serverTurn stream env) s s' ∧ s'.made = s.made + 1 := by
  obtain ⟨s', hmade, hleft', hdone | hnext⟩ := serverTurn_cases stream env (by omega) hgone
  · exact ⟨s', Returns.of_done hdone.1, hmade⟩
  · have hzero := serverTurn_zero stream env (hleft'.trans (countdown_one hleft))
    exact ⟨s', (Returns.of_done hzero).of_next hnext.1, hmade⟩

variable (stream env) in
theorem clientLoop_one (hleft : s.left = 1) :
    ∃ s', Returns (clientTurn stream env) s s' ∧ s'.made = s.made + 1 := by
  obtain ⟨s', hmade, hleft', hdone | hnext⟩ := clientTurn_cases stream env (s := s) (by omega)
  · exact ⟨s', Returns.of_done hdone.1, hmade⟩
  · have hzero := clientTurn_zero stream env (hleft'.trans (countdown_one hleft))
    exact ⟨s', (Returns.of_done hzero).of_next hnext.1, hmade⟩

end Made

/-! ## The option does what it says -/

/-- The receives on a descriptor that is ready, with `limit` in `max_looping_over_recv`. -/
structure Obeys (limit n : Int) : Prop where
  server : ∀ stream env eagain k, Asked n (fun i => serverStops stream (env i)) k →
    ∃ s, Returns (serverTurn stream env) (.start limit eagain) s ∧ s.made = k
  client : ∀ stream env eagain k, Asked n (fun i => clientStops stream (env i)) k →
    ∃ s, Returns (clientTurn stream env) (.start limit eagain) s ∧ s.made = k

/-- `--recv_looping_num n`: it is rejected for 0 and, unless `--nonblocked`, for all but 1;
otherwise the loops do what it asks for. -/
structure DoesWhatItSays (nonblocked : Bool) (n : Int) : Prop where
  rejected : n = 0 ∨ nonblocked = false ∧ n ≠ 1 → ∃ e, parseRecvLooping nonblocked n 1 = .error e
  accepted : n ≠ 0 → (nonblocked = false → n = 1) →
    ∃ limit, parseRecvLooping nonblocked n 1 = .ok limit ∧ Obeys limit n

theorem Asked.one {stop : Nat → Bool} {k : Nat} (h : Asked 1 stop k) : k = 1 := by
  have hle := h.limited (by decide)
  have hpos := h.pos
  omega

theorem Obeys.one : Obeys 1 1 where
  server stream env eagain k h := by
    rw [h.one]
    exact serverLoop_one stream env rfl rfl
  client stream env eagain k h := by
    rw [h.one]
    exact clientLoop_one stream env rfl

def once : Nat → RecvOutcome
  | 0 => .data 1 false
  | _ => .wouldBlock

theorem Asked.once {n : Int} (hn : n ≠ 0) (hone : n ≠ 1) :
    Asked n (fun i => serverStops false (once i)) 2 where
  pos := by decide
  before i hi := by
    obtain rfl : i = 0 := by omega
    rfl
  limited hn := by omega
  last := Or.inl rfl

theorem not_obeys_one {n : Int} (hn : n ≠ 0) (hone : n ≠ 1) : ¬ Obeys 1 n := by
  intro h
  obtain ⟨s, hret, hmade⟩ := h.server false once false 2 (Asked.once hn hone)
  obtain ⟨s', hret', hmade'⟩ := serverLoop_one false once (s := .start 1 false) rfl rfl
  rw [hret.unique hret', hmade'] at hmade
  cases hmade

/-- The number is never kept unless it is 1, which is the default, and 0 is not rejected if
`--nonblocked` is given. -/
theorem recv_looping_num_iff (nonblocked : Bool) (n : Int) :
    DoesWhatItSays nonblocked n ↔ n = 1 ∨ nonblocked = false ∧ strtolInt n ≠ some 1 := by
  constructor
  · intro h
    by_contra! hne
    obtain ⟨hone, hwrapped⟩ := hne
    cases nonblocked with
    | false =>
      -- another number that is 1 as an `int`
      have hrejected := h.rejected (Or.inr ⟨rfl, hone⟩)
      exact (parseRecvLooping_blocked n).mp hrejected (hwrapped rfl)
    | true =>
      by_cases hzero : n = 0
      · subst hzero
        obtain ⟨e, he⟩ := h.rejected (Or.inl rfl)
        cases he
      · obtain ⟨limit, hok, hobeys⟩ := h.accepted hzero nofun
        rw [parseRecvLooping_ok hok] at hobeys
        exact not_obeys_one hzero hone hobeys
  · rintro (rfl | ⟨rfl, hne⟩)
    · refine ⟨fun hbad => absurd hbad (by simp), fun _ _ => ⟨1, rfl, .one⟩⟩
    · refine ⟨fun _ => (parseRecvLooping_blocked n).mpr hne, fun hzero hone => ?_⟩
      obtain rfl := hone rfl
      exact absurd rfl hne

/-- `--nonblocked --recv_looping_num 5` makes one receive where two are asked for, and
`--nonblocked --recv_looping_num 0` is accepted. -/
theorem recv_looping_num_ignored :
    ¬ DoesWhatItSays true 5 ∧ parseRecvLooping true 5 1 = .ok 1 ∧
      parseRecvLooping true 0 1 = .ok 1 := by
  refine ⟨fun h => ?_, rfl, rfl⟩
  obtain ⟨limit, hok, hobeys⟩ := h.accepted (by decide) nofun
  rw [parseRecvLooping_ok hok] at hobeys
  exact not_obeys_one (by decide) (by decide) hobeys

end Sockperf
