import Sockperf.Client
import Sockperf.InPlace

/-!
# The echo protocol

One client and one server that replies, connected by datagrams that may be lost,
delayed, duplicated and reordered, or by two byte streams. A multicast socket
also receives what its own side sent. Under load the client receives in a thread
of its own, so a receive may come between any two statements of a send.
-/

namespace Sockperf

open Memory While ByteOrder
set_option autoImplicit false

universe u v
variable {σ : Type u} {γ : Type v}

/-- The message the server sends back: everything but the client flag is as it came. -/
def WireMessage.echo (w : WireMessage) : WireMessage := ⟨w.header.setServer, w.body, w.length_eq⟩

structure WireMessage.IsRequest (w : WireMessage) : Prop where
  client : w.header.isClient = true
  pong : w.header.isPongRequest = true
  warm : w.header.isWarmupMessage = false

section Flags
variable (h : MsgHeader)

theorem MsgHeader.isClient_setServer : h.setServer.isClient = false := by
  have : h.flags &&& ~~~maskClient &&& maskClient = 0 := by
    rw [UInt16.and_assoc, show ~~~maskClient &&& maskClient = 0 by decide, UInt16.and_zero]
  simp [isClient, setServer, this]

theorem MsgHeader.isPongRequest_setServer : h.setServer.isPongRequest = h.isPongRequest := by
  have : h.flags &&& ~~~maskClient &&& maskPong = h.flags &&& maskPong := by
    rw [UInt16.and_assoc, show ~~~maskClient &&& maskPong = maskPong by decide]
  simp [isPongRequest, setServer, this]

end Flags

theorem load_setHeader_of_view {msMaxSize : Int} {m : Mem} {msg : Message} {w : WireMessage}
    (hv : msg.isValidHeader msMaxSize m = true)
    (hw : msg.view msMaxSize m = w.view) (h : MsgHeader) :
    load (msg.setHeader m h) msg.addr w.size = h.bytes ++ w.body := by
  have hh := header_of_view hw
  have hb := congrArg MessageView.body hw
  have hlen := w.length_eq
  simp only [Message.view, hv, if_true, hh, WireMessage.view, Message.getData] at hb
  have htail : load m (msg.addr + (effectiveSize : Nat)) w.body.length = w.body := by
    rw [show w.body.length = w.header.length.toNat - effectiveSize by omega]
    exact hb
  have hsz : w.size = effectiveSize + w.body.length := w.size_eq
  rw [hsz, load_add, Message.setHeader, load_store_same' (by simp),
    load_store_disjoint (Or.inr (by simp)), htail]

section ServerSpec
variable (srv : Server γ) (recvfromAddr : SockAddr) {m : Mem} {msg : Message}
  {s : ServerState γ} {w : WireMessage}

theorem Server.calcGaps_mem (r : Bool × Mem × ServerState γ) :
    (srv.calcGaps recvfromAddr msg r).2.1 = r.2.1 := by
  unfold Server.calcGaps
  split
  · rfl
  · rfl

theorem Server.calcGaps_sent (r : Bool × Mem × ServerState γ) :
    (srv.calcGaps recvfromAddr msg r).2.2.sent = r.2.2.sent := by
  unfold Server.calcGaps
  split
  · rfl
  · rfl

theorem Server.prepareHeader_outside {x : Int} (hx : x < msg.addr ∨ msg.addr + 14 ≤ x) :
    srv.prepareHeader m msg x = m x := by
  unfold Server.prepareHeader
  split
  · rfl
  · exact Message.setHeader_outside _ _ _ hx

theorem Server.reply_outside (result : SendResult) {x : Int}
    (hx : x < msg.addr ∨ msg.addr + 14 ≤ x) :
    (srv.reply recvfromAddr result m msg s).2.1 x = m x := by
  have hnetwork : msg.setHeaderToNetwork (srv.prepareHeader m msg) x = m x :=
    (Message.setHeader_outside _ _ _ hx).trans (srv.prepareHeader_outside hx)
  have hhost : msg.setHeaderToHost (msg.setHeaderToNetwork (srv.prepareHeader m msg)) x = m x :=
    (Message.setHeader_outside _ _ _ hx).trans hnetwork
  unfold Server.reply
  dsimp only
  split
  · exact hnetwork
  · exact hhost
  · exact hhost

theorem Server.handleMessage_outside {x : Int} (hx : x < msg.addr ∨ msg.addr + 14 ≤ x) :
    (srv.handleMessage recvfromAddr m msg s).2.1 x = m x := by
  unfold Server.handleMessage
  dsimp only
  iterate 5
    split
    · rfl
  rw [srv.calcGaps_mem]
  split
  · exact srv.reply_outside recvfromAddr _ hx
  · rfl

/-- What the server puts on the wire for a message: nothing, or the echo of a request. -/
theorem Server.handleMessage_sent (hbridge : srv.params.bridge = false)
    (hsend : ∀ n, (srv.outside n).send = .sent ∨ (srv.outside n).send = .skipped)
    (h0 : 0 ≤ srv.msMaxSize) (h31 : srv.msMaxSize < 2 ^ 31)
    (hv : msg.isValidHeader srv.msMaxSize m = true) (hw : msg.view srv.msMaxSize m = w.view) :
    (srv.handleMessage recvfromAddr m msg s).2.2.sent = s.sent ∨
      w.IsRequest ∧ (srv.handleMessage recvfromAddr m msg s).2.2.sent =
        s.sent ++ [(srv.sendtoAddr recvfromAddr, w.echo.encode)] := by
  have hh := header_of_view hw
  unfold Server.handleMessage
  dsimp only
  rw [hh]
  split
  · exact Or.inl rfl
  split
  · exact Or.inl rfl
  split
  · exact Or.inl rfl
  next hclient =>
  split
  · exact Or.inl rfl
  next hwarm =>
  split
  · exact Or.inl rfl
  rw [srv.calcGaps_sent]
  split
  · next hpong =>
    -- the reply: the header in host order loses the client flag and is then swapped
    have hlen : msg.getLength (msg.setServer m) = w.size := by
      have hle := (Message.isValidHeader_iff msg m h0 h31).mp hv
      rw [hh] at hle
      rw [Message.getLength_eq msg _ h31 (by
        simpa only [Message.setServer, Message.getHeader_setHeader, hh, MsgHeader.setServer] using hle)]
      simp only [Message.setServer, Message.getHeader_setHeader, hh, MsgHeader.setServer,
        WireMessage.size]
    have hsz := w.size_eq
    have hbytes : load (msg.setHeaderToNetwork (msg.setServer m)) msg.addr w.size =
        w.echo.encode := by
      rw [Message.setHeaderToNetwork, Message.setServer, Message.getHeader_setHeader,
        Message.setHeader_setHeader, hh]
      exact load_setHeader_of_view hv hw _
    unfold Server.reply
    simp only [Server.prepareHeader, hbridge, Bool.false_eq_true, if_false, hlen,
      Int.toNat_natCast, Server.msgSendto]
    rw [if_neg (by omega)]
    rcases hsend s.handled with hs | hs
    · rw [hs]
      refine Or.inr ⟨⟨by simpa using hclient, hpong, by simpa using hwarm⟩, ?_⟩
      simp only [hbytes]
    · rw [hs]
      exact Or.inl rfl
  · exact Or.inl rfl

end ServerSpec

section ClientSpec
variable (clt : Client) (recvfromAddr : SockAddr) {m : Mem} {msg : Message} {s : ClientState}

/-- What handling a message leaves of the client: an exit other than the two on the header, and
either nothing new or one more accepted message and its time. -/
structure ClientState.Handled (v : MessageView) (s s' : ClientState) : Prop where
  request : s'.request = s.request
  payload : s'.payload = s.payload
  maxSequenceNo : s'.times.maxSequenceNo = s.times.maxSequenceNo
  replyEvery : s'.times.replyEvery = s.times.replyEvery
  exited : s'.exited = s.exited ∨ s'.exited = some .tooManyServers ∨
    s'.exited = some .verifyError ∨ s'.exited = some .dataIntegrity
  accepted : (s'.accepted = s.accepted ∧ s'.times.rx = s.times.rx) ∨
    v.header.isClient = false ∧ v.header.isWarmupMessage = false ∧
      s'.accepted = s.accepted ++ [v] ∧ ∀ i k, s'.times.rx i k ≠ 0 →
        s.times.rx i k ≠ 0 ∨ i = v.header.sequenceNumber.toNat / s.times.replyEvery

variable (m msg s) in
theorem Client.countReply_handled (hclient : (msg.getHeader m).isClient = false)
    (hwarm : (msg.getHeader m).isWarmupMessage = false) :
    s.Handled (msg.view clt.msMaxSize m) (clt.countReply recvfromAddr m msg s).2.2 := by
  unfold Client.countReply
  dsimp only
  split
  · exact ⟨rfl, rfl, rfl, rfl, Or.inr (Or.inl rfl),
      Or.inr ⟨hclient, hwarm, rfl, fun _ _ h => Or.inl h⟩⟩
  split
  · exact ⟨rfl, rfl, rfl, rfl, Or.inr (Or.inr (Or.inl rfl)),
      Or.inr ⟨hclient, hwarm, rfl, fun _ _ h => Or.inl h⟩⟩
  next times counted hset =>
  obtain ⟨hmax, hevery, -, hrx⟩ := PacketTimes.setRxTime_spec hset
  generalize (s.receiveCount + if counted = true then 1 else 0) = n
  split
  · split
    · exact ⟨rfl, rfl, hmax, hevery, Or.inl rfl, Or.inr ⟨hclient, hwarm, rfl, hrx⟩⟩
    · exact ⟨rfl, rfl, hmax, hevery, Or.inr (Or.inr (Or.inr rfl)),
        Or.inr ⟨hclient, hwarm, rfl, hrx⟩⟩
  · exact ⟨rfl, rfl, hmax, hevery, Or.inl rfl, Or.inr ⟨hclient, hwarm, rfl, hrx⟩⟩

theorem Client.handleMessage_handled (hv : msg.isValidHeader clt.msMaxSize m = true)
    (hseq : msg.getSequenceCounter m ≤ s.request.sequenceNumber) :
    s.Handled (msg.view clt.msMaxSize m) (clt.handleMessage recvfromAddr m msg s).2.2 := by
  rcases clt.handleMessage_sorts m msg s with
    hinvalid | ⟨-, hlt⟩ | hover | ⟨hcounts, hexit⟩
  · cases hv.symm.trans hinvalid
  · exact absurd hlt (UInt64.not_lt.mpr hseq)
  · obtain ⟨ok, heq⟩ := Client.handleMessage_overlooked recvfromAddr hover
    rw [heq]
    exact ⟨rfl, rfl, rfl, rfl, Or.inl rfl, Or.inl ⟨rfl, rfl⟩⟩
  · rw [Client.handleMessage_counts recvfromAddr hcounts hexit]
    exact clt.countReply_handled recvfromAddr m msg s hcounts.client hcounts.warmup

theorem Client.countReply_outside {x : Int} (hx : x < msg.addr ∨ msg.addr + 14 ≤ x) :
    (clt.countReply recvfromAddr m msg s).2.1 x = m x := by
  have hset : msg.setClient m x = m x := Message.setHeader_outside _ _ _ hx
  unfold Client.countReply
  dsimp only
  split
  · rfl
  split
  · rfl
  next counted _ =>
  generalize (s.receiveCount + if counted = true then 1 else 0) = n
  split
  · split
    · exact hset
    · exact hset
  · rfl

theorem Client.handleMessage_outside {x : Int} (hx : x < msg.addr ∨ msg.addr + 14 ≤ x) :
    (clt.handleMessage recvfromAddr m msg s).2.1 x = m x := by
  rcases clt.handleMessage_sorts m msg s with
    hinvalid | ⟨hvalid, hlt⟩ | hover | ⟨hcounts, hexit⟩
  · rw [Client.handleMessage_invalid recvfromAddr hinvalid]
  · rw [Client.handleMessage_higher recvfromAddr hvalid hlt]
  · obtain ⟨ok, heq⟩ := Client.handleMessage_overlooked recvfromAddr hover
    rw [heq]
  · rw [Client.handleMessage_counts recvfromAddr hcounts hexit]
    exact clt.countReply_outside recvfromAddr hx

end ClientSpec

/-! ## The system -/

/-- Where the sender thread stands in a send: nothing is being sent, the counter was incremented,
the header was swapped, the message was passed to the socket, the header was swapped back. -/
inductive Phase where
  | idle
  | counted
  | network (pong : Bool) (length : Nat)
  | transmitted (pong : Bool) (result : SendResult)
  | restored (pong : Bool) (result : SendResult)
  deriving DecidableEq, Repr

/-- One client socket, one server socket and the promises on them. -/
structure EchoSystem (γ : Type v) where
  client : Client
  server : Server γ
  clientWindow : Window
  serverWindow : Window
  /-- TCP -/
  stream : Bool
  maxSequenceNo : Nat
  msgSize : UInt32
  payload : List UInt8
  serverMsgSize : UInt32
  serverPayload : List UInt8
  client_max : client.msMaxSize = clientWindow.msMaxSize
  server_max : server.msMaxSize = serverWindow.msMaxSize
  no_bridge : server.params.bridge = false
  sends : ∀ n, (server.outside n).send = .sent ∨ (server.outside n).send = .skipped
  replyEvery_pos : 0 < client.replyEvery
  not_never : client.pongMode ≠ .never
  always_one : client.pongMode = .always → client.replyEvery = 1
  counter_fits : maxSequenceNo + client.replyEvery < 2 ^ 64
  stream_unicast : stream = true → client.isMulticast = false
  payload_length : clientWindow.maxSize ≤ 14 + payload.length
  serverPayload_length : serverWindow.maxSize ≤ 14 + serverPayload.length
  msgSize_ok : 14 ≤ msgSize.toNat ∧ msgSize.toNat ≤ clientWindow.maxSize ∧
    msgSize.toNat ≤ serverWindow.maxSize
  serverMsgSize_ok : 14 ≤ serverMsgSize.toNat ∧ serverMsgSize.toNat ≤ serverWindow.maxSize

structure EchoState (γ : Type v) where
  client : Ctx ClientState
  phase : Phase
  server : Ctx (ServerState γ)
  /-- what the client put on the wire -/
  clientSent : List (List UInt8)
  /-- the warm-up messages of the server; its replies stand in its own state -/
  serverWarmups : List (List UInt8)
  /-- bytes taken from the two streams -/
  readByClient : Nat
  readByServer : Nat
  /-- `g_b_exit` was seen while a message was handled -/
  clientDown : Bool
  serverDown : Bool

namespace EchoState
variable (s : EchoState γ)

def setClient (f : ClientState → ClientState) : EchoState γ :=
  { s with client := { s.client with state := f s.client.state } }

def replies : List (List UInt8) := s.server.state.sent.map Prod.snd

/-- The header of the request message stands in network order. -/
def swapped : Bool :=
  match s.phase with
  | .network _ _ => true
  | .transmitted _ _ => true
  | _ => false

/-- The sequence counter of the client, whatever the byte order of the header. -/
def counter : UInt64 :=
  if s.swapped then htonll s.client.state.request.sequenceNumber
  else s.client.state.request.sequenceNumber

/-- A reply may be handled: the header of the request is not swapped, or the counter is below
`2 ^ 32`, so that a swapped counter is above all sequence numbers used so far. -/
def Calm : Prop := s.swapped = true → s.counter.toNat < 2 ^ 32

end EchoState

namespace EchoSystem
variable (sys : EchoSystem γ)

/-- The lengths both sides can send and receive. -/
def InRange (length : Nat) : Prop :=
  14 ≤ length ∧ length ≤ sys.clientWindow.maxSize ∧ length ≤ sys.serverWindow.maxSize

/-- `IoHandler::warmup` on the server: what it passes to a multicast socket. -/
def serverWarmup : List UInt8 :=
  ((MsgHeader.mk 0 0 sys.serverMsgSize).setServer.setWarmupMessage.hton.bytes ++
    sys.serverPayload).take sys.serverMsgSize.toNat

def clientWarmup (c : ClientState) : List UInt8 :=
  Client.wireBytes { c with request := c.request.setWarmupMessage.hton } c.request.length.toNat

def afterWarmup (c : ClientState) : ClientState :=
  { c with request := c.request.setWarmupMessage.hton.ntoh.resetWarmupMessage }

structure Initial (s : EchoState γ) : Prop where
  client : s.client.state = sys.client.initial sys.msgSize sys.payload sys.maxSequenceNo
  clientRecv : s.client.recv = freshRecv sys.clientWindow.base sys.clientWindow.maxSize
  clientAsserts : s.client.asserts = true
  phase : s.phase = .idle
  serverSent : s.server.state.sent = []
  serverRecv : s.server.recv = freshRecv sys.serverWindow.base sys.serverWindow.maxSize
  serverAsserts : s.server.asserts = true
  clientSent : s.clientSent = []
  serverWarmups : s.serverWarmups = []
  readByClient : s.readByClient = 0
  readByServer : s.readByServer = 0

/-- A read of at most `size` bytes: the next bytes of the stream, or any of the datagrams. -/
def Arrives (written : List UInt8) (datagrams : List (List UInt8)) (size : Int)
    (bs : List UInt8) : Prop :=
  if sys.stream then 1 ≤ bs.length ∧ bs.length ≤ size ∧ bs <+: written
  else ∃ d ∈ datagrams, bs = d.take size.toNat

/-- What the server may receive next. A multicast socket also hears its own side. -/
def ToServer (s : EchoState γ) (bs : List UInt8) : Prop :=
  sys.Arrives (s.clientSent.flatten.drop s.readByServer)
    (s.clientSent ++ if sys.client.isMulticast then s.serverWarmups ++ s.replies else [])
    s.server.recv.curSize bs

def ToClient (s : EchoState γ) (bs : List UInt8) : Prop :=
  sys.Arrives (s.replies.flatten.drop s.readByClient)
    (s.replies ++ if sys.client.isMulticast then s.serverWarmups ++ s.clientSent else [])
    s.client.recv.curSize bs

/-- The client is not handed a warm-up message of the server that is longer than its own buffer. The
server sends `MAX_PAYLOAD_SIZE` bytes whatever the client was told to send, and a multicast socket
of the client gets as much of them as it has room for. -/
def Takes (s : EchoState γ) (bs : List UInt8) : Prop :=
  sys.client.isMulticast = true → sys.clientWindow.maxSize < sys.serverMsgSize.toNat →
    bs ≠ sys.serverWarmup.take s.client.recv.curSize.toNat

/-- A receive that can do no harm. -/
def Calm (s : EchoState γ) (bs : List UInt8) : Prop := s.Calm ∧ sys.Takes s bs

/-- The process of the client is still there. -/
def Running (s : EchoState γ) : Prop := s.client.state.exited = none

/-- One statement of the sender, one warm-up message, or one receive of either side. A client
receive happens only when `calm` allows it. -/
inductive Step (calm : EchoState γ → List UInt8 → Prop) : EchoState γ → EchoState γ → Prop
  /-- `SwitchOnMsgSize` -/
  | setLength {s : EchoState γ} (up : Running s) (idle : s.phase = .idle) (length : UInt32)
      (fits : sys.InRange length.toNat) :
      Step calm s (s.setClient fun c => { c with request := { c.request with length } })
  | count {s : EchoState γ} (up : Running s) (idle : s.phase = .idle) :
      Step calm s { s.setClient Client.incSequenceCounter with phase := .counted }
  | prepare {s : EchoState γ} (up : Running s) (counted : s.phase = .counted) (now : TicksTime) :
      Step calm s { s.setClient (sys.client.prepareSend · now) with
        phase := .network (sys.client.wantsPong s.client.state.request)
          s.client.state.request.length.toNat }
  | send {s : EchoState γ} {pong : Bool} {length : Nat} (up : Running s)
      (network : s.phase = .network pong length) :
      Step calm s { s with
        clientSent := s.clientSent ++ [Client.wireBytes s.client.state length]
        phase := .transmitted pong .sent }
  | skip {s : EchoState γ} {pong : Bool} {length : Nat} (up : Running s)
      (network : s.phase = .network pong length) :
      Step calm s { s with phase := .transmitted pong .skipped }
  | restore {s : EchoState γ} {pong : Bool} {result : SendResult} (up : Running s)
      (transmitted : s.phase = .transmitted pong result) :
      Step calm s { s.setClient Client.setHeaderToHost with phase := .restored pong result }
  | finish {s : EchoState γ} {pong : Bool} {result : SendResult} (up : Running s)
      (restored : s.phase = .restored pong result) :
      Step calm s { s.setClient fun c =>
        sys.client.afterSendPacket (sys.client.afterSend c pong result) result with phase := .idle }
  | clientWarmup {s : EchoState γ} (up : Running s) (idle : s.phase = .idle)
      (multicast : sys.client.isMulticast = true) (sent : Bool) :
      Step calm s { s.setClient afterWarmup with
        clientSent := if sent then s.clientSent ++ [EchoSystem.clientWarmup s.client.state]
          else s.clientSent }
  | serverWarmup {s : EchoState γ} (multicast : sys.client.isMulticast = true) :
      Step calm s { s with serverWarmups := s.serverWarmups ++ [sys.serverWarmup] }
  | serverReceive {s : EchoState γ} (up : s.serverDown = false) {bs : List UInt8}
      (arrives : sys.ToServer s bs) (recvfromAddr : SockAddr) {ok : Bool}
      {c : Ctx (ServerState γ)}
      (received : RecvFrom sys.server.msMaxSize (sys.server.handleMessage recvfromAddr) s.server bs
        ok c) :
      Step calm s { s with
        server := c, readByServer := s.readByServer + bs.length, serverDown := !ok }
  | clientReceive {s : EchoState γ} (up : Running s) (listening : s.clientDown = false)
      {bs : List UInt8} (allowed : calm s bs) (arrives : sys.ToClient s bs)
      (recvfromAddr : SockAddr) {ok : Bool} {c : Ctx ClientState}
      (received : RecvFrom sys.client.msMaxSize (sys.client.handleMessage recvfromAddr) s.client bs
        ok c) :
      Step calm s { s with
        client := c, readByClient := s.readByClient + bs.length, clientDown := !ok }

def Run (calm : EchoState γ → List UInt8 → Prop) : EchoState γ → EchoState γ → Prop :=
  Relation.ReflTransGen (sys.Step calm)

end EchoSystem

end Sockperf
