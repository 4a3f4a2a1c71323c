import Sockperf.Echo
import Sockperf.Gaps

/-!
# The server on messages

As long as nobody stops the server and no peer is gone, what `handle_message` does with the bytes of
a message is what a much simpler machine does with the message: one step, which knows the address
the message came from.
-/

namespace Sockperf

open Memory While
set_option autoImplicit false

universe u
variable {γ : Type u}

/-- A message that `handle_message` counts. -/
def WireMessage.counts (w : WireMessage) : Bool := w.header.isClient && !w.header.isWarmupMessage

namespace Server
variable (srv : Server γ)

/-- A pong request to a server that does not reply is counted and then dropped. -/
def mute (w : WireMessage) : Bool := w.header.isPongRequest && srv.params.dontReply

/-- What is sent for a message, the `k`-th one of the server. -/
def answer (k : Nat) (src : SockAddr) (w : WireMessage) : List (SockAddr × List UInt8) :=
  if w.counts && w.header.isPongRequest && !srv.params.dontReply &&
      decide ((srv.outside k).send = .sent) then
    [(srv.sendtoAddr src, (if srv.params.bridge then w else w.echo).encode)]
  else []

def gapEvent (w : WireMessage) : Option GapEvent :=
  if !w.header.isClient then none
  else if w.header.isWarmupMessage then some .warmup
  else if srv.mute w then none
  else some (.data w.header.sequenceNumber)

def noteGap (src : SockAddr) (gaps : γ) : Option GapEvent → γ
  | none => gaps
  | some .warmup => srv.execute src 0 true gaps
  | some (.data seqNum) => srv.execute src seqNum false gaps

def settle (src : SockAddr) (t : ServerState γ) (w : WireMessage) : ServerState γ where
  handled := t.handled + 1
  receiveCount := t.receiveCount + if w.counts then 1 else 0
  gaps := srv.noteGap src t.gaps (srv.gapEvent w)
  sent := t.sent ++ srv.answer t.handled src w
  closed := t.closed

/-- Nobody asks the server to stop, and no reply finds the socket shut down. -/
def GoesOn : Prop := ∀ n, (srv.outside n).exit = false ∧ (srv.outside n).send ≠ .shutdown

end Server

/-! ## One message in memory -/

theorem getLength_of_view {msMaxSize : Int} {m : Mem} {msg : Message} {w : WireMessage}
    (h0 : 0 ≤ msMaxSize) (h31 : msMaxSize < 2 ^ 31) (hv : msg.isValidHeader msMaxSize m = true)
    (hw : msg.view msMaxSize m = w.view) : msg.getLength m = w.size := by
  have hle := (Message.isValidHeader_iff msg m h0 h31).mp hv
  rw [Message.getLength_eq msg m h31 hle, header_of_view hw]
  rfl

section Handle
variable {srv : Server γ} {src : SockAddr} {m : Mem} {msg : Message} {t : ServerState γ}
  {w : WireMessage} (h0 : 0 ≤ srv.msMaxSize) (h31 : srv.msMaxSize < 2 ^ 31)
  (hv : msg.isValidHeader srv.msMaxSize m = true) (hw : msg.view srv.msMaxSize m = w.view)
include h0 h31 hv hw

variable (src t) in
/-- A reply leaves the header in host order; what is sent has the flag of a server, except in
bridge mode. -/
theorem Server.reply_eq {result : SendResult} (hresult : result ≠ .shutdown) :
    ∃ m', srv.reply src result m msg t = (true, m', { t with sent := t.sent ++
        if result = .sent then
          [(srv.sendtoAddr src, (if srv.params.bridge then w else w.echo).encode)] else [] }) ∧
      msg.getSequenceCounter m' = w.header.sequenceNumber := by
  have hh := header_of_view hw
  have hsize := w.size_eq
  have hlen : msg.getLength (srv.prepareHeader m msg) = w.size := by
    rw [srv.prepareHeader_getLength, getLength_of_view h0 h31 hv hw]
  have hbytes : load (msg.setHeaderToNetwork (srv.prepareHeader m msg)) msg.addr w.size =
      (if srv.params.bridge then w else w.echo).encode := by
    unfold Server.prepareHeader
    split
    · rw [Message.setHeaderToNetwork, hh]
      exact load_setHeader_of_view hv hw _
    · rw [Message.setHeaderToNetwork, Message.setServer, Message.getHeader_setHeader,
        Message.setHeader_setHeader, hh]
      exact load_setHeader_of_view hv hw _
  have hseq : msg.getSequenceCounter
      (msg.setHeaderToHost (msg.setHeaderToNetwork (srv.prepareHeader m msg))) =
        w.header.sequenceNumber := by
    simp only [Message.getSequenceCounter, Message.setHeaderToHost, Message.setHeaderToNetwork,
      Message.getHeader_setHeader, MsgHeader.ntoh_hton]
    unfold Server.prepareHeader
    split
    · rw [hh]
    · simp only [Message.setServer, Message.getHeader_setHeader, hh, MsgHeader.setServer]
  refine ⟨_, ?_, hseq⟩
  unfold Server.reply
  dsimp only
  rw [hlen, Server.msgSendto, if_neg (by omega)]
  cases result with
  | shutdown => exact absurd rfl hresult
  | sent =>
    simp only [Int.toNat_natCast, hbytes]
    rfl
  | skipped => simp
  | failed => simp

variable (src t) in
theorem Server.handleMessage_settle (goesOn : srv.GoesOn) :
    (srv.handleMessage src m msg t).1 = true ∧
      (srv.handleMessage src m msg t).2.2 = srv.settle src t w := by
  obtain ⟨hexit, hsend⟩ := goesOn t.handled
  have hh := header_of_view hw
  unfold Server.handleMessage Server.settle Server.gapEvent Server.answer
  simp only [hexit, hv, hh, Bool.not_true, Bool.false_eq_true, if_false]
  by_cases hclient : w.header.isClient = true
  · by_cases hwarm : w.header.isWarmupMessage = true
    · simp [hclient, hwarm, WireMessage.counts, Server.noteGap]
    · have hcounts : w.counts = true := by simp [WireMessage.counts, hclient, hwarm]
      by_cases hpong : w.header.isPongRequest = true
      · by_cases hdont : srv.params.dontReply = true
        · simp [hclient, hwarm, hcounts, hpong, hdont, Server.mute, Server.noteGap]
        · obtain ⟨m', hreply, hseq⟩ := Server.reply_eq src
            { t with handled := t.handled + 1, receiveCount := t.receiveCount + 1 } h0 h31 hv hw
            hsend
          simp [hclient, hwarm, hcounts, hpong, hdont, Server.mute, Server.noteGap,
            Server.calcGaps, hreply, hseq]
      · simp [hclient, hwarm, hcounts, hpong, Server.mute, Server.noteGap, Server.calcGaps,
          Message.getSequenceCounter, hh]
  · simp [hclient, WireMessage.counts, Server.noteGap]

end Handle

section Runs
variable {srv : Server γ} (h0 : 0 ≤ srv.msMaxSize) (h31 : srv.msMaxSize < 2 ^ 31)
  (goesOn : srv.GoesOn)
include h0 h31 goesOn

theorem Server.settle_callback (src : SockAddr) (all old : List WireMessage) (t : ServerState γ) :
    CallbackOk srv.msMaxSize (srv.handleMessage src) (all.map WireMessage.view)
      (Since old fun new s => s = new.foldl (srv.settle src) t) fun _ => False := by
  refine callbackOk_since (fun _ _ _ _ hx => srv.handleMessage_outside src hx) ?_ old
  rintro new _ m msg w - hv hw rfl
  obtain ⟨htrue, hstate⟩ := Server.handleMessage_settle src (new.foldl (srv.settle src) t) h0 h31 hv
    hw goesOn
  exact ⟨htrue, by rw [hstate, List.foldl_concat]⟩

end Runs

namespace Server
variable {srv : Server γ} {src : SockAddr}

/-- What the gap detection is told about messages from one address. -/
def noteGaps (srv : Server γ) (src : SockAddr) (gaps : γ) (ws : List WireMessage) : γ :=
  ws.foldl (fun x w => srv.noteGap src x (srv.gapEvent w)) gaps

theorem settle_foldl_gaps (ws : List WireMessage) (t : ServerState γ) (x : γ) :
    ws.foldl (srv.settle src) { t with gaps := x } =
      { ws.foldl (srv.settle src) t with gaps := srv.noteGaps src x ws } := by
  induction ws generalizing t x with
  | nil => rfl
  | cons w ws ih =>
    rw [List.foldl_cons, List.foldl_cons]
    exact ih (srv.settle src t w) (srv.noteGap src x (srv.gapEvent w))

theorem settle_foldl_handled (ws : List WireMessage) (t : ServerState γ) :
    (ws.foldl (srv.settle src) t).handled = t.handled + ws.length := by
  induction ws generalizing t with
  | nil => rfl
  | cons w ws ih =>
    rw [List.foldl_cons, ih, List.length_cons, settle]
    dsimp only
    omega

theorem settle_foldl_closed (ws : List WireMessage) (t : ServerState γ) :
    (ws.foldl (srv.settle src) t).closed = t.closed := by
  induction ws generalizing t with
  | nil => rfl
  | cons w ws ih => exact ih (srv.settle src t w)

end Server

end Sockperf
