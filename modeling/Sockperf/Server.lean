import Sockperf.InputHandlers

/-!
# The server

`Server::handle_message` as a callback of the parser. What the outside world
decides while it runs (the exit flag raised by a signal, the result of a send)
comes from an oracle that is asked once per handled message.
-/

namespace Sockperf

open Memory While
set_option autoImplicit false

universe u
variable {γ : Type u}

/-- `struct sockaddr_store_t`. -/
inductive SockAddr where
  | inet (ip : UInt32) (port : UInt16)
  | inet6 (ip : BitVec 128) (port : UInt16) (flowinfo scopeId : UInt32)
  | unix (path : String)
  deriving DecidableEq, Repr

namespace SockAddr

def getPortn : SockAddr → UInt16
  | inet _ port => port
  | inet6 _ port _ _ => port
  | unix _ => 0

def setPortn : SockAddr → UInt16 → SockAddr
  | inet ip _, port => inet ip port
  | inet6 ip _ flowinfo scopeId, port => inet6 ip port flowinfo scopeId
  | unix path, _ => unix path

end SockAddr

/-- The ways `::msg_sendto` ends: everything was sent, nothing was sent because the socket would
block, the peer is gone, or another error that the callers do not look at. -/
inductive SendResult where
  | sent
  | skipped
  | shutdown
  | failed
  deriving DecidableEq, Repr

/-- The fields of `fds_data` that `handle_message` reads. -/
structure FdsData where
  serverAddr : SockAddr
  isMulticast : Bool
  isStream : Bool
  membershipsSize : Nat
  deriving DecidableEq, Repr

/-- The constant parameters that `handle_message` reads. -/
structure ServerParams where
  dontReply : Bool
  bridge : Bool
  replyViaUc : Bool
  deriving DecidableEq, Repr

/-- What happens outside during one `handle_message`. -/
structure Outside where
  exit : Bool
  send : SendResult

structure ServerState (γ : Type u) where
  /-- messages handled so far, the argument of the oracle -/
  handled : Nat
  receiveCount : UInt64
  gaps : γ
  /-- what was put on the wire, with its destination -/
  sent : List (SockAddr × List UInt8)
  /-- `close_ifd` was called -/
  closed : Bool

/-- One socket of the server: what `handle_message` works with besides the message. The gap
calculation is a parameter, as in the source. -/
structure Server (γ : Type u) where
  msMaxSize : Int
  params : ServerParams
  fd : FdsData
  execute : SockAddr → UInt64 → Bool → γ → γ
  outside : Nat → Outside

namespace Server
variable (srv : Server γ)

def sendtoAddr (recvfromAddr : SockAddr) : SockAddr :=
  if srv.fd.membershipsSize ≠ 0 || !srv.fd.isMulticast || srv.params.replyViaUc then recvfromAddr
  else srv.fd.serverAddr.setPortn recvfromAddr.getPortn

/-- `::msg_sendto`: its loop is not entered for an empty message, and it then returns 0, which is
`RET_SOCKET_SHUTDOWN`. -/
def msgSendto (length : Int) (result : SendResult) : SendResult :=
  if length = 0 then .shutdown else result

/-- The header of a reply, still in host order. -/
def prepareHeader (m : Mem) (msg : Message) : Mem :=
  if srv.params.bridge then m else msg.setServer m

theorem prepareHeader_getLength (m : Mem) (msg : Message) :
    msg.getLength (srv.prepareHeader m msg) = msg.getLength m := by
  unfold prepareHeader
  split
  · rfl
  · simp only [Message.getLength, Message.setServer, Message.getHeader_setHeader,
      MsgHeader.setServer]

/-- The reply to a pong request; false when the peer is gone. -/
def reply (recvfromAddr : SockAddr) (result : SendResult) (m : Mem) (msg : Message)
    (s : ServerState γ) : Bool × Mem × ServerState γ :=
  let m := srv.prepareHeader m msg
  let length := msg.getLength m
  let m := msg.setHeaderToNetwork m
  match msgSendto length result with
  | .shutdown => (false, m, { s with closed := s.closed || srv.fd.isStream })
  | .sent =>
    (true, msg.setHeaderToHost m,
      { s with sent := s.sent ++ [(srv.sendtoAddr recvfromAddr, load m msg.addr length.toNat)] })
  | _ => (true, msg.setHeaderToHost m, s)

/-- The end of `handle_message`: the gap calculation, unless the reply failed. -/
def calcGaps (recvfromAddr : SockAddr) (msg : Message) (r : Bool × Mem × ServerState γ) :
    Bool × Mem × ServerState γ :=
  if r.1 then
    let seqNum := msg.getSequenceCounter r.2.1
    (true, r.2.1, { r.2.2 with gaps := srv.execute recvfromAddr seqNum false r.2.2.gaps })
  else (false, r.2.1, r.2.2)

def handleMessage (recvfromAddr : SockAddr) : Callback (ServerState γ) := fun m msg s =>
  let now := srv.outside s.handled
  let s := { s with handled := s.handled + 1 }
  if !msg.isValidHeader srv.msMaxSize m then (false, m, s)
  else if now.exit then (false, m, s)
  else if !(msg.getHeader m).isClient then (true, m, s)
  else if (msg.getHeader m).isWarmupMessage then
    (true, m, { s with gaps := srv.execute recvfromAddr 0 true s.gaps })
  else
    let s := { s with receiveCount := s.receiveCount + 1 }
    if (msg.getHeader m).isPongRequest && srv.params.dontReply then (true, m, s)
    else
      srv.calcGaps recvfromAddr msg
        (if (msg.getHeader m).isPongRequest then srv.reply recvfromAddr now.send m msg s
        else (true, m, s))

/-- What `receive_pending_data` returned. -/
inductive Received where
  | data (recvfromAddr : SockAddr) (bs : List UInt8)
  | shutdown
  | error

/-- `close_ifd`, called for stream sockets only. -/
def closeIfd (c : Ctx (ServerState γ)) : Ctx (ServerState γ) :=
  if srv.fd.isStream then { c with state := { c.state with closed := true } } else c

/-- `server_receive_then_send_impl<RecvFromInputHandler>`; the first component is the result,
`do_update` when true. -/
def receiveThenSend (fuel : Nat) (c : Ctx (ServerState γ)) :
    Received → Option (Bool × Ctx (ServerState γ))
  | .data recvfromAddr bs =>
    match recvFrom srv.msMaxSize (srv.handleMessage recvfromAddr) fuel c bs with
    | none => none
    | some (true, c) => some (false, c)
    | some (false, c) => some (true, srv.closeIfd c)
  | .shutdown => some (true, srv.closeIfd c)
  | .error => some (false, c)

end Server

end Sockperf
