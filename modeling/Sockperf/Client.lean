import Sockperf.PacketTimes
import Sockperf.Server

/-!
# The client

A send is made of the statements of `client_send_packet` and of `msg_sendto` of
the pong mode, in their order, because under load another thread receives while
this one sends. `handle_message` is a callback of the parser; it reads the
header of the request message where the sender left it.
-/

namespace Sockperf

open Memory
set_option autoImplicit false

/-- `PongModeNormal` asks for a reply to some messages, `PongModeAlways` to all and
`PongModeNever` to none. -/
inductive PongMode where
  | normal
  | always
  | never
  deriving DecidableEq, Repr

/-- The ways the client leaves the process while it handles messages and sends them. -/
inductive ClientExit where
  /-- "Message received was larger than expected." -/
  | largerThanExpected
  /-- "Sequence Number received was higher than expected" -/
  | sequenceHigher
  /-- "Number of servers more than expected" -/
  | tooManyServers
  /-- "data integrity test failed" -/
  | dataIntegrity
  /-- "_seqN > m_maxSequenceNo" -/
  | verifyError
  /-- "A connection was forcibly closed by a peer" -/
  | closedByPeer
  deriving DecidableEq, Repr

/-- `IPAddress` of a socket address, without the port. -/
inductive IPAddress where
  | inet (ip : UInt32)
  | inet6 (ip : BitVec 128)
  | unix (path : String)
  deriving DecidableEq, Repr

def SockAddr.ipAddress : SockAddr → IPAddress
  | inet ip _ => .inet ip
  | inet6 ip _ _ _ => .inet6 ip
  | unix path => .unix path

/-- What happens outside while a message is handled. -/
structure ClientOutside where
  exit : Bool
  now : TicksTime

/-- The parameters of one client socket. -/
structure Client where
  msMaxSize : Int
  pongMode : PongMode
  replyEvery : Nat
  workWithSrvNum : Nat
  isMulticast : Bool
  isStream : Bool
  dataIntegrity : Bool
  outside : Nat → ClientOutside

structure ClientState where
  /-- header of `m_pMsgRequest` as it lies in memory -/
  request : MsgHeader
  /-- the bytes of its buffer behind the header -/
  payload : List UInt8
  times : PacketTimes
  receiveCount : Nat
  skipCount : Nat
  /-- `m_ServerList`; the id of a server is its position -/
  serverList : List IPAddress
  /-- messages handled so far, the argument of the oracle -/
  handled : Nat
  /-- the replies that were counted -/
  accepted : List MessageView
  exited : Option ClientExit

namespace Client
variable (clt : Client)

/-- The flags of the request message between two sends, as the constructors leave them. -/
def idleFlags : UInt16 :=
  match clt.pongMode with
  | .normal => ((MsgHeader.mk 0 0 0).setClient).resetPongRequest.flags
  | .always => ((MsgHeader.mk 0 0 0).setClient).setPongRequest.flags
  | .never => ((MsgHeader.mk 0 0 0).setClient).resetPongRequest.flags

/-- `ClientBase` and the pong mode after construction. -/
def initial (msgSize : UInt32) (payload : List UInt8) (maxSequenceNo : Nat) : ClientState where
  request := ⟨0, clt.idleFlags, msgSize⟩
  payload := payload
  times := .new maxSequenceNo clt.replyEvery
  receiveCount := 0
  skipCount := 0
  serverList := []
  handled := 0
  accepted := []
  exited := none

section Send
variable (s : ClientState)

/-- Whether `msg_sendto` of the pong mode asks for a reply. -/
def wantsPong (h : MsgHeader) : Bool :=
  match clt.pongMode with
  | .normal => h.sequenceNumber.toNat % clt.replyEvery == 0
  | .always => true
  | .never => false

/-- `setPongRequest`, in the mode that sets the flag for some messages only. -/
def markPong (h : MsgHeader) : MsgHeader :=
  match clt.pongMode with
  | .normal => h.setPongRequest
  | _ => h

/-- `resetPongRequest` after such a send. -/
def unmarkPong (h : MsgHeader) : MsgHeader :=
  match clt.pongMode with
  | .normal => h.resetPongRequest
  | _ => h

def incSequenceCounter : ClientState :=
  { s with request := { s.request with sequenceNumber := s.request.sequenceNumber + 1 } }

def decSequenceCounter : ClientState :=
  { s with request := { s.request with sequenceNumber := s.request.sequenceNumber - 1 } }

def setHeaderToNetwork : ClientState := { s with request := s.request.hton }

def setHeaderToHost : ClientState := { s with request := s.request.ntoh }

/-- `msg_sendto` of the pong mode up to the call of `::msg_sendto`. -/
def prepareSend (now : TicksTime) : ClientState :=
  if clt.wantsPong s.request then
    let request := clt.markPong s.request
    match s.times.setTxTime request.sequenceNumber.toNat now with
    | none => { s with request, exited := some .verifyError }
    | some times => setHeaderToNetwork { s with request, times }
  else setHeaderToNetwork s

/-- What `::msg_sendto` passes to the socket. -/
def wireBytes (length : Nat) : List UInt8 := (s.request.bytes ++ s.payload).take length

/-- `msg_sendto` of the pong mode after `setHeaderToHost`. -/
def afterSend (pong : Bool) (result : SendResult) : ClientState :=
  if pong then
    match result with
    | .skipped =>
      match s.times.clearTxTime s.request.sequenceNumber.toNat with
      | none => { s with exited := some .verifyError }
      | some times => { s with request := clt.unmarkPong s.request, times }
    | _ => { s with request := clt.unmarkPong s.request }
  else s

/-- The end of `client_send_packet`. -/
def afterSendPacket (result : SendResult) : ClientState :=
  match result with
  | .shutdown => if clt.isStream then { s with exited := some .closedByPeer } else s
  | .skipped => decSequenceCounter { s with skipCount := s.skipCount + 1 }
  | _ => s

end Send

/-- `client_get_server_id`, with the list it may extend; `none` is -1. -/
def getServerId (addr : IPAddress) (servers : List IPAddress) : Option Nat × List IPAddress :=
  if clt.workWithSrvNum = 1 then (some 0, servers)
  else if clt.isMulticast then
    match servers.idxOf? addr with
    | some i => (some i, servers)
    | none =>
      if clt.workWithSrvNum ≤ servers.length then (none, servers)
      else (some servers.length, servers ++ [addr])
  else (some 0, servers)

/-- `SwitchOnDataIntegrity::execute`; false when the test fails. -/
def checkDataIntegrity (m : Mem) (msg : Message) (s : ClientState) : Bool × Mem :=
  let m := msg.setClient m
  let size := s.request.length.toNat
  (load m msg.addr size == (s.request.bytes ++ s.payload).take size, m)

def handleMessage (recvfromAddr : SockAddr) : Callback ClientState := fun m msg s =>
  let now := clt.outside s.handled
  let s := { s with handled := s.handled + 1 }
  if !msg.isValidHeader clt.msMaxSize m then
    (false, m, { s with exited := some .largerThanExpected })
  else if s.request.sequenceNumber < msg.getSequenceCounter m then
    (false, m, { s with exited := some .sequenceHigher })
  else if now.exit then (false, m, s)
  else if (msg.getHeader m).isClient then (true, m, s)
  else if (msg.getHeader m).isWarmupMessage then (true, m, s)
  else
    let s := { s with accepted := s.accepted ++ [msg.view clt.msMaxSize m] }
    match clt.getServerId recvfromAddr.ipAddress s.serverList with
    | (none, _) => (false, m, { s with exited := some .tooManyServers })
    | (some serverNo, serverList) =>
      match s.times.setRxTime (msg.getSequenceCounter m).toNat now.now serverNo now.exit with
      | none => (false, m, { s with serverList, exited := some .verifyError })
      | some (times, counted) =>
        let s := { s with
          serverList, times, receiveCount := s.receiveCount + if counted then 1 else 0 }
        if clt.dataIntegrity then
          let (same, m) := checkDataIntegrity m msg s
          if same then (true, m, s) else (false, m, { s with exited := some .dataIntegrity })
        else (true, m, s)

/-! ## The ways through `handle_message` -/

section Ways
variable (recvfromAddr : SockAddr) (m : Mem) (msg : Message) (s : ClientState)

/-- A message is looked at as a reply. -/
structure Counts : Prop where
  valid : msg.isValidHeader clt.msMaxSize m = true
  seq : msg.getSequenceCounter m ≤ s.request.sequenceNumber
  client : (msg.getHeader m).isClient = false
  warmup : (msg.getHeader m).isWarmupMessage = false

/-- A message that is not compared: the test is over, or the message looks like one of the client
or like a warm-up message. -/
structure Overlooked : Prop where
  valid : msg.isValidHeader clt.msMaxSize m = true
  seq : msg.getSequenceCounter m ≤ s.request.sequenceNumber
  dropped : (clt.outside s.handled).exit = true ∨ (msg.getHeader m).isClient = true ∨
    (msg.getHeader m).isWarmupMessage = true

/-- The part of `handle_message` that is about replies. -/
def countReply : Bool × Mem × ClientState :=
  let now := clt.outside s.handled
  let s := { s with
    handled := s.handled + 1, accepted := s.accepted ++ [msg.view clt.msMaxSize m] }
  match clt.getServerId recvfromAddr.ipAddress s.serverList with
  | (none, _) => (false, m, { s with exited := some .tooManyServers })
  | (some serverNo, serverList) =>
    match s.times.setRxTime (msg.getSequenceCounter m).toNat now.now serverNo false with
    | none => (false, m, { s with serverList, exited := some .verifyError })
    | some (times, counted) =>
      let s := { s with
        serverList, times, receiveCount := s.receiveCount + if counted then 1 else 0 }
      if clt.dataIntegrity then
        let (same, m) := checkDataIntegrity m msg s
        if same then (true, m, s) else (false, m, { s with exited := some .dataIntegrity })
      else (true, m, s)

variable {clt m msg s}

theorem handleMessage_invalid (h : msg.isValidHeader clt.msMaxSize m = false) :
    clt.handleMessage recvfromAddr m msg s =
      (false, m, { s with handled := s.handled + 1, exited := some .largerThanExpected }) := by
  unfold handleMessage
  dsimp only
  rw [h, if_pos Bool.not_false]

theorem handleMessage_higher (hvalid : msg.isValidHeader clt.msMaxSize m = true)
    (hlt : s.request.sequenceNumber < msg.getSequenceCounter m) :
    clt.handleMessage recvfromAddr m msg s =
      (false, m, { s with handled := s.handled + 1, exited := some .sequenceHigher }) := by
  unfold handleMessage
  dsimp only
  rw [hvalid, if_neg (by simp), if_pos hlt]

theorem handleMessage_overlooked (h : clt.Overlooked m msg s) :
    ∃ ok, clt.handleMessage recvfromAddr m msg s =
      (ok, m, { s with handled := s.handled + 1 }) := by
  have hlt : ¬ s.request.sequenceNumber < msg.getSequenceCounter m := UInt64.not_lt.mpr h.seq
  unfold handleMessage
  dsimp only
  rw [h.valid, if_neg (by simp), if_neg hlt]
  by_cases hexit : (clt.outside s.handled).exit = true
  · exact ⟨false, if_pos hexit⟩
  · rw [if_neg hexit]
    by_cases hclient : (msg.getHeader m).isClient = true
    · exact ⟨true, if_pos hclient⟩
    · rw [if_neg hclient]
      exact ⟨true, if_pos ((h.dropped.resolve_left hexit).resolve_left hclient)⟩

theorem handleMessage_counts (h : clt.Counts m msg s)
    (hexit : (clt.outside s.handled).exit = false) :
    clt.handleMessage recvfromAddr m msg s = clt.countReply recvfromAddr m msg s := by
  have hlt : ¬ s.request.sequenceNumber < msg.getSequenceCounter m := UInt64.not_lt.mpr h.seq
  unfold handleMessage countReply
  dsimp only
  rw [h.valid, if_neg (by simp), if_neg hlt, hexit, if_neg Bool.false_ne_true, h.client,
    if_neg Bool.false_ne_true, h.warmup, if_neg Bool.false_ne_true]

variable (clt m msg s) in
/-- The two exits on the header, a message that is overlooked, or a reply. -/
theorem handleMessage_sorts : msg.isValidHeader clt.msMaxSize m = false ∨
    (msg.isValidHeader clt.msMaxSize m = true ∧
      s.request.sequenceNumber < msg.getSequenceCounter m) ∨
    clt.Overlooked m msg s ∨ clt.Counts m msg s ∧ (clt.outside s.handled).exit = false := by
  by_cases hvalid : msg.isValidHeader clt.msMaxSize m = true
  · by_cases hlt : s.request.sequenceNumber < msg.getSequenceCounter m
    · exact Or.inr (Or.inl ⟨hvalid, hlt⟩)
    · have hseq : msg.getSequenceCounter m ≤ s.request.sequenceNumber := UInt64.not_lt.mp hlt
      by_cases hdropped : (clt.outside s.handled).exit = true ∨
          (msg.getHeader m).isClient = true ∨ (msg.getHeader m).isWarmupMessage = true
      · exact Or.inr (Or.inr (Or.inl ⟨hvalid, hseq, hdropped⟩))
      · simp only [not_or, Bool.not_eq_true] at hdropped
        exact Or.inr (Or.inr (Or.inr ⟨⟨hvalid, hseq, hdropped.2.1, hdropped.2.2⟩, hdropped.1⟩))
  · exact Or.inl (by simpa using hvalid)

end Ways

end Client

end Sockperf
