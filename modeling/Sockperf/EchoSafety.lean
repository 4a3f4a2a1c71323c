import Sockperf.Echo
import Sockperf.Link

/-!
# Safety of the echo protocol

The invariant names every message on the wire: a request as the client sent it,
the echo of a pong request, or a warm-up message. A receive of either side keeps
it whatever the network does, and a statement of the sender keeps the counter
above all sequence numbers on the wire.
-/

namespace Sockperf

open Memory While ByteOrder
set_option autoImplicit false

universe v
variable {γ : Type v}

/-! ## The messages on the wire -/

section Cut
variable (h : MsgHeader) (payload : List UInt8) (low : 14 ≤ h.length.toNat)
  (high : h.length.toNat ≤ 14 + payload.length)

include low high in
theorem length_of_cut :
    h.length.toNat = effectiveSize + (payload.take (h.length.toNat - 14)).length := by
  rw [List.length_take, effectiveSize]
  omega

def WireMessage.cut : WireMessage :=
  ⟨h, payload.take (h.length.toNat - 14), length_of_cut h payload low high⟩

theorem WireMessage.encode_cut :
    (cut h payload low high).encode = (h.hton.bytes ++ payload).take h.length.toNat := by
  rw [take_bytes _ low]
  rfl

end Cut

structure ClientState.Quiet (s s' : ClientState) : Prop where
  payload : s'.payload = s.payload
  accepted : s'.accepted = s.accepted
  maxSequenceNo : s'.times.maxSequenceNo = s.times.maxSequenceNo
  replyEvery : s'.times.replyEvery = s.times.replyEvery
  rx : s'.times.rx = s.times.rx
  exited : s'.exited = s.exited ∨ s'.exited = some .verifyError

section Statements
variable (clt : Client) {s : ClientState}

/-- The header of the message that goes out for the request `h`. -/
def Client.outgoing (pong : Bool) (h : MsgHeader) : MsgHeader := if pong then clt.markPong h else h

theorem Client.quiet_of_request (r : MsgHeader) : s.Quiet { s with request := r } :=
  ⟨rfl, rfl, rfl, rfl, rfl, Or.inl rfl⟩

theorem Client.quiet_setHeaderToHost : s.Quiet (Client.setHeaderToHost s) := by
  rw [Client.setHeaderToHost]
  exact Client.quiet_of_request _

theorem Client.markPong_fields (h : MsgHeader) :
    (clt.markPong h).sequenceNumber = h.sequenceNumber ∧ (clt.markPong h).length = h.length := by
  unfold Client.markPong
  split <;> exact ⟨rfl, rfl⟩

theorem Client.outgoing_fields (pong : Bool) (h : MsgHeader) :
    (clt.outgoing pong h).sequenceNumber = h.sequenceNumber ∧
      (clt.outgoing pong h).length = h.length := by
  unfold Client.outgoing
  split
  · exact clt.markPong_fields h
  · exact ⟨rfl, rfl⟩

theorem Client.idleFlags_eq : clt.idleFlags =
    match clt.pongMode with
    | .always => 3
    | _ => 1 := by
  unfold Client.idleFlags
  cases clt.pongMode <;> decide

theorem Client.outgoing_flags (pong : Bool) (seq : UInt64) (length : UInt32) :
    (clt.outgoing pong ⟨seq, clt.idleFlags, length⟩).flags =
      match clt.pongMode, pong with
      | .normal, true => 3
      | .always, _ => 3
      | _, _ => 1 := by
  rw [clt.idleFlags_eq, Client.outgoing]
  unfold Client.markPong
  cases clt.pongMode with
  | always => cases pong <;> rfl
  | never => cases pong <;> rfl
  | normal =>
    cases pong with
    | false => rfl
    | true => exact (by decide : (1 ||| MsgHeader.maskPong : UInt16) = 3)

theorem Client.unmarkPong_markPong (seq : UInt64) (length : UInt32) :
    clt.unmarkPong (clt.markPong ⟨seq, clt.idleFlags, length⟩) = ⟨seq, clt.idleFlags, length⟩ := by
  rw [clt.idleFlags_eq]
  unfold Client.unmarkPong Client.markPong
  cases clt.pongMode with
  | always => rfl
  | never => rfl
  | normal =>
    have hflags : ((1 ||| MsgHeader.maskPong) &&& ~~~MsgHeader.maskPong : UInt16) = 1 := by decide
    simp only [MsgHeader.resetPongRequest, MsgHeader.setPongRequest, hflags]

theorem Client.prepareSend_spec (now : TicksTime) :
    s.Quiet (clt.prepareSend s now) ∧ ((clt.prepareSend s now).exited = none →
      (clt.prepareSend s now).request =
        (clt.outgoing (clt.wantsPong s.request) s.request).hton ∧
      (clt.wantsPong s.request = true →
        s.request.sequenceNumber.toNat ≤ s.times.maxSequenceNo)) := by
  unfold Client.prepareSend Client.outgoing
  by_cases hwants : clt.wantsPong s.request = true
  · simp only [if_pos hwants, Client.setHeaderToNetwork]
    cases hset : s.times.setTxTime (clt.markPong s.request).sequenceNumber.toNat now with
    | none => exact ⟨⟨rfl, rfl, rfl, rfl, rfl, Or.inr rfl⟩, fun h => by cases h⟩
    | some times =>
      obtain ⟨hle, hmax, hevery, hrx⟩ := PacketTimes.setTxTime_spec hset
      rw [(clt.markPong_fields s.request).1] at hle
      exact ⟨⟨rfl, rfl, hmax, hevery, hrx, Or.inl rfl⟩, fun _ => ⟨rfl, fun _ => hle⟩⟩
  · simp only [if_neg hwants, Client.setHeaderToNetwork]
    exact ⟨⟨rfl, rfl, rfl, rfl, rfl, Or.inl rfl⟩, fun _ => ⟨trivial, fun h => absurd h hwants⟩⟩

/-- While the table has a block for the message, it is prepared and nobody exits. -/
theorem Client.prepareSend_of_le (now : TicksTime)
    (hle : s.request.sequenceNumber.toNat ≤ s.times.maxSequenceNo) :
    ∃ times, clt.prepareSend s now = { s with
        request := (clt.outgoing (clt.wantsPong s.request) s.request).hton, times } ∧
      times.maxSequenceNo = s.times.maxSequenceNo := by
  unfold Client.prepareSend Client.outgoing
  by_cases hwants : clt.wantsPong s.request = true
  · obtain ⟨times, hset⟩ : ∃ times,
        s.times.setTxTime (clt.markPong s.request).sequenceNumber.toNat now = some times := by
      rw [(clt.markPong_fields s.request).1, PacketTimes.setTxTime, PacketTimes.seq2index, if_pos hle]
      exact ⟨_, rfl⟩
    simp only [if_pos hwants, hset, Client.setHeaderToNetwork]
    exact ⟨times, rfl, (PacketTimes.setTxTime_spec hset).2.1⟩
  · simp only [if_neg hwants, Client.setHeaderToNetwork]
    exact ⟨_, rfl, rfl⟩

theorem Client.afterSend_spec {seq : UInt64} {length : UInt32} {pong : Bool} (result : SendResult)
    (hreq : s.request = clt.outgoing pong ⟨seq, clt.idleFlags, length⟩) :
    s.Quiet (clt.afterSend s pong result) ∧ ((clt.afterSend s pong result).exited = none →
      (clt.afterSend s pong result).request = ⟨seq, clt.idleFlags, length⟩) := by
  unfold Client.afterSend
  cases pong with
  | false => exact ⟨Client.quiet_of_request _, fun _ => hreq⟩
  | true =>
    have hun : clt.unmarkPong s.request = ⟨seq, clt.idleFlags, length⟩ := by
      rw [hreq]
      exact clt.unmarkPong_markPong seq length
    rw [if_pos rfl, hun]
    split
    · split
      · exact ⟨⟨rfl, rfl, rfl, rfl, rfl, Or.inr rfl⟩, fun h => by cases h⟩
      · next times hclear =>
        obtain ⟨hmax, hevery, hrx⟩ := PacketTimes.clearTxTime_spec hclear
        exact ⟨⟨rfl, rfl, hmax, hevery, hrx, Or.inl rfl⟩, fun _ => rfl⟩
    · exact ⟨Client.quiet_of_request _, fun _ => rfl⟩

end Statements

namespace EchoSystem
variable (sys : EchoSystem γ)

structure Request (w : WireMessage) : Prop where
  client : w.header.isClient = true
  range : sys.InRange w.size
  every : w.IsRequest → w.header.sequenceNumber.toNat % sys.client.replyEvery = 0

theorem serverMsgSize_low :
    14 ≤ (MsgHeader.mk 0 0 sys.serverMsgSize).setServer.setWarmupMessage.length.toNat :=
  sys.serverMsgSize_ok.1

theorem serverMsgSize_high :
    (MsgHeader.mk 0 0 sys.serverMsgSize).setServer.setWarmupMessage.length.toNat ≤
      14 + sys.serverPayload.length := by
  have h1 := sys.serverMsgSize_ok.2
  have h2 := sys.serverPayload_length
  simp only [MsgHeader.setServer, MsgHeader.setWarmupMessage]
  omega

def warmupMessage : WireMessage :=
  .cut (MsgHeader.mk 0 0 sys.serverMsgSize).setServer.setWarmupMessage sys.serverPayload
    sys.serverMsgSize_low sys.serverMsgSize_high

theorem encode_warmupMessage : sys.warmupMessage.encode = sys.serverWarmup :=
  WireMessage.encode_cut _ _ _ _

theorem warmupMessage_flags : sys.warmupMessage.header.isClient = false ∧
    sys.warmupMessage.header.isWarmupMessage = true := by
  have hflags : sys.warmupMessage.header.flags = MsgHeader.maskWarmupMsg := by
    show 0 &&& ~~~MsgHeader.maskClient ||| MsgHeader.maskWarmupMsg = MsgHeader.maskWarmupMsg
    decide
  rw [MsgHeader.isClient, MsgHeader.isWarmupMessage, hflags]
  decide

/-- The messages that can be on the wire once the client has sent `reqs`. -/
inductive Known (reqs : List WireMessage) : WireMessage → Prop
  | request {w : WireMessage} (mem : w ∈ reqs) : Known reqs w
  | echo {w : WireMessage} (mem : w ∈ reqs) (isRequest : w.IsRequest) : Known reqs w.echo
  | warmup : Known reqs sys.warmupMessage

/-- The replies and reply times of the client go back to requests in `reqs`, and neither of the
two exits on the header of a message was taken. -/
structure Safe (reqs : List WireMessage) (c : ClientState) : Prop where
  payload : c.payload = sys.payload
  maxSequenceNo : c.times.maxSequenceNo = sys.maxSequenceNo
  replyEvery : c.times.replyEvery = sys.client.replyEvery
  accepted : ∀ v ∈ c.accepted, ∃ q ∈ reqs, q.IsRequest ∧ v = q.echo.view
  rx : ∀ i k, c.times.rx i k ≠ 0 → ∃ q ∈ reqs, q.IsRequest ∧
    q.header.sequenceNumber.toNat = i * sys.client.replyEvery
  exited : c.exited ≠ some .sequenceHigher ∧ c.exited ≠ some .largerThanExpected

variable {sys} {reqs : List WireMessage} {w : WireMessage}

section Known
variable (h : sys.Known reqs w)
include h

theorem Known.fits_server (hreqs : ∀ v ∈ reqs, sys.Request v) :
    w.size ≤ sys.serverWindow.maxSize := by
  cases h with
  | request mem => exact (hreqs _ mem).range.2.2
  | @echo q mem _ => exact (hreqs q mem).range.2.2
  | warmup => exact sys.serverMsgSize_ok.2

theorem Known.fits_client (hreqs : ∀ v ∈ reqs, sys.Request v)
    (hwarm : w = sys.warmupMessage → sys.serverMsgSize.toNat ≤ sys.clientWindow.maxSize) :
    w.size ≤ sys.clientWindow.maxSize := by
  cases h with
  | request mem => exact (hreqs _ mem).range.2.1
  | @echo q mem _ => exact (hreqs q mem).range.2.1
  | warmup => exact hwarm rfl

theorem Known.seq_le {n : Nat}
    (hreqs : ∀ v ∈ reqs, v.header.sequenceNumber.toNat ≤ n) :
    w.header.sequenceNumber.toNat ≤ n := by
  cases h with
  | request mem => exact hreqs _ mem
  | @echo q mem _ => exact hreqs q mem
  | warmup => exact Nat.zero_le n

theorem Known.mem_of_isClient (hc : w.header.isClient = true) : w ∈ reqs := by
  cases h with
  | request mem => exact mem
  | @echo q _ _ =>
    rw [WireMessage.echo, MsgHeader.isClient_setServer] at hc
    cases hc
  | warmup =>
    rw [sys.warmupMessage_flags.1] at hc
    cases hc

theorem Known.echo_of_reply (hreqs : ∀ v ∈ reqs, sys.Request v)
    (hc : w.header.isClient = false) (hwarm : w.header.isWarmupMessage = false) :
    ∃ q ∈ reqs, q.IsRequest ∧ w = q.echo := by
  cases h with
  | request mem =>
    rw [(hreqs _ mem).client] at hc
    cases hc
  | @echo q mem hq => exact ⟨q, mem, hq, rfl⟩
  | warmup =>
    rw [sys.warmupMessage_flags.2] at hwarm
    cases hwarm

end Known

theorem Safe.mono {c : ClientState} {reqs' : List WireMessage} (h : sys.Safe reqs c)
    (hsub : ∀ v ∈ reqs, v ∈ reqs') : sys.Safe reqs' c where
  payload := h.payload
  maxSequenceNo := h.maxSequenceNo
  replyEvery := h.replyEvery
  accepted := fun v hv =>
    let ⟨q, hq, hr⟩ := h.accepted v hv
    ⟨q, hsub q hq, hr⟩
  rx := fun i k hk =>
    let ⟨q, hq, hr⟩ := h.rx i k hk
    ⟨q, hsub q hq, hr⟩
  exited := h.exited

theorem Safe.quiet {c c' : ClientState} (h : sys.Safe reqs c) (hq : c.Quiet c') :
    sys.Safe reqs c' where
  payload := hq.payload.trans h.payload
  maxSequenceNo := hq.maxSequenceNo.trans h.maxSequenceNo
  replyEvery := hq.replyEvery.trans h.replyEvery
  accepted := by
    rw [hq.accepted]
    exact h.accepted
  rx := by
    rw [hq.rx]
    exact h.rx
  exited := by
    rcases hq.exited with he | he <;> rw [he]
    · exact h.exited
    · exact ⟨by simp, by simp⟩

theorem Safe.handled {c c' : ClientState} (h : sys.Safe reqs c)
    (hreqs : ∀ v ∈ reqs, sys.Request v) (hk : sys.Known reqs w) (hh : c.Handled w.view c') :
    sys.Safe reqs c' where
  payload := hh.payload.trans h.payload
  maxSequenceNo := hh.maxSequenceNo.trans h.maxSequenceNo
  replyEvery := hh.replyEvery.trans h.replyEvery
  accepted := by
    rcases hh.accepted with ⟨ha, -⟩ | ⟨hc, hwarm, ha, -⟩
    · rw [ha]
      exact h.accepted
    · obtain ⟨q, hq, hr, rfl⟩ := hk.echo_of_reply hreqs hc hwarm
      intro v hv
      rw [ha] at hv
      rcases List.mem_append.mp hv with hv | hv
      · exact h.accepted v hv
      · exact ⟨q, hq, hr, List.mem_singleton.mp hv⟩
  rx := by
    rcases hh.accepted with ⟨-, hrx⟩ | ⟨hc, hwarm, -, hrx⟩
    · rw [hrx]
      exact h.rx
    · obtain ⟨q, hq, hr, rfl⟩ := hk.echo_of_reply hreqs hc hwarm
      intro i k hk
      rcases hrx i k hk with hold | hi
      · exact h.rx i k hold
      · refine ⟨q, hq, hr, ?_⟩
        rw [h.replyEvery] at hi
        rw [hi]
        exact (Nat.div_mul_cancel (Nat.dvd_of_mod_eq_zero ((hreqs q hq).every hr))).symm
  exited := by
    rcases hh.exited with he | he | he | he <;> rw [he]
    · exact h.exited
    all_goals exact ⟨by simp, by simp⟩

/-! ## The two receivers -/

theorem clientHandler (hreqs : ∀ v ∈ reqs, sys.Request v) (recvfromAddr : SockAddr)
    {request : MsgHeader}
    (hle : ∀ v ∈ reqs, v.header.sequenceNumber.toNat ≤ request.sequenceNumber.toNat) :
    HandlerOk sys.clientWindow.msMaxSize (sys.client.handleMessage recvfromAddr)
      (fun w => sys.Known reqs w ∧ w.size ≤ sys.clientWindow.maxSize)
      (fun c => sys.Safe reqs c ∧ c.request = request)
      (fun c => sys.Safe reqs c ∧ c.request = request) := by
  have hkeep : ∀ c m msg v, (sys.Safe reqs c ∧ c.request = request) →
      msg.isValidHeader sys.clientWindow.msMaxSize m = true → sys.Known reqs v →
      msg.view sys.clientWindow.msMaxSize m = v.view →
      sys.Safe reqs (sys.client.handleMessage recvfromAddr m msg c).2.2 ∧
        (sys.client.handleMessage recvfromAddr m msg c).2.2.request = request := by
    rintro c m msg v ⟨hsafe, hreq⟩ hv hk hview
    have hseq : msg.getSequenceCounter m ≤ c.request.sequenceNumber := by
      rw [Message.getSequenceCounter, header_of_view hview, hreq, UInt64.le_iff_toNat_le]
      exact hk.seq_le hle
    rw [← sys.client_max] at hv hview
    have hh := sys.client.handleMessage_handled recvfromAddr hv hseq
    rw [hview] at hh
    exact ⟨hsafe.handled hreqs hk hh, hh.request.trans hreq⟩
  exact ⟨fun _ _ _ _ hx => sys.client.handleMessage_outside recvfromAddr hx,
    fun c m msg v hS hv hk hview _ => hkeep c m msg v hS hv hk.1 hview,
    fun c m msg v hS hv hk hview _ => hkeep c m msg v hS hv hk.1 hview⟩

/-- The server sent `replies` and then only echoes of requests. -/
def Echoes (reqs replies : List WireMessage) (c : ServerState γ) : Prop :=
  ∃ more : List WireMessage, c.sent.map Prod.snd = (replies ++ more).map WireMessage.encode ∧
    ∀ v ∈ more, ∃ q ∈ reqs, q.IsRequest ∧ v = q.echo

theorem serverHandler (replies : List WireMessage) (recvfromAddr : SockAddr) :
    HandlerOk sys.serverWindow.msMaxSize (sys.server.handleMessage recvfromAddr) (sys.Known reqs)
      (Echoes reqs replies) (Echoes reqs replies) := by
  have hkeep : ∀ (c : ServerState γ) m msg v, Echoes reqs replies c →
      msg.isValidHeader sys.serverWindow.msMaxSize m = true → sys.Known reqs v →
      msg.view sys.serverWindow.msMaxSize m = v.view →
      Echoes reqs replies (sys.server.handleMessage recvfromAddr m msg c).2.2 := by
    rintro c m msg v ⟨more, hsent, hmore⟩ hv hk hview
    have h0 := sys.serverWindow.nonneg
    have h31 := sys.serverWindow.lt_int
    rw [← sys.server_max] at hv hview h0 h31
    rcases sys.server.handleMessage_sent recvfromAddr sys.no_bridge sys.sends h0 h31 hv hview with
      hs | ⟨hreq, hs⟩
    · exact ⟨more, by rw [hs, hsent], hmore⟩
    · refine ⟨more ++ [v.echo], by rw [hs, List.map_append, hsent]; simp, fun u hu => ?_⟩
      rcases List.mem_append.mp hu with hu | hu
      · exact hmore u hu
      · exact ⟨v, hk.mem_of_isClient hreq.client, hreq, List.mem_singleton.mp hu⟩
  exact ⟨fun _ _ _ _ hx => sys.server.handleMessage_outside recvfromAddr hx,
    fun c m msg v hS hv hk hview _ => hkeep c m msg v hS hv hk hview,
    fun c m msg v hS hv hk hview _ => hkeep c m msg v hS hv hk hview⟩

/-! ## The sender -/

variable (sys reqs) in
/-- All sequence numbers on the wire are at most `n`. -/
def Bounded (n : Nat) : Prop := ∀ v ∈ reqs, v.header.sequenceNumber.toNat ≤ n

variable (sys) in
/-- The table has a block for the last multiple of `reply_every` up to `n`. -/
def Room (n : Nat) : Prop := n / sys.client.replyEvery * sys.client.replyEvery ≤ sys.maxSequenceNo

variable (sys reqs) in
/-- The header of the request message in every phase of a send. The counter stands at `seq + 1`
while the message `seq + 1` is sent. -/
inductive Sending : Phase → MsgHeader → Prop
  | idle {seq : UInt64} {length : UInt32} (fits : sys.InRange length.toNat)
      (room : sys.Room seq.toNat) (bounded : Bounded reqs seq.toNat) :
      Sending .idle ⟨seq, sys.client.idleFlags, length⟩
  | counted {seq : UInt64} {length : UInt32} (fits : sys.InRange length.toNat)
      (room : sys.Room seq.toNat) (bounded : Bounded reqs seq.toNat) :
      Sending .counted ⟨seq + 1, sys.client.idleFlags, length⟩
  | network {seq : UInt64} {length : UInt32} {h : MsgHeader}
      (hh : h = ⟨seq + 1, sys.client.idleFlags, length⟩) (fits : sys.InRange length.toNat)
      (old : sys.Room seq.toNat) (room : sys.Room (seq.toNat + 1))
      (bounded : Bounded reqs seq.toNat) :
      Sending (.network (sys.client.wantsPong h) length.toNat)
        (sys.client.outgoing (sys.client.wantsPong h) h).hton
  | transmitted {seq : UInt64} {length : UInt32} {h : MsgHeader} {pong : Bool}
      {result : SendResult} (hh : h = ⟨seq + 1, sys.client.idleFlags, length⟩)
      (fits : sys.InRange length.toNat) (old : sys.Room seq.toNat)
      (room : sys.Room (seq.toNat + 1))
      (sent : result = .sent ∧ Bounded reqs (seq.toNat + 1) ∨
        result = .skipped ∧ Bounded reqs seq.toNat) :
      Sending (.transmitted pong result) (sys.client.outgoing pong h).hton
  | restored {seq : UInt64} {length : UInt32} {h : MsgHeader} {pong : Bool}
      {result : SendResult} (hh : h = ⟨seq + 1, sys.client.idleFlags, length⟩)
      (fits : sys.InRange length.toNat) (old : sys.Room seq.toNat)
      (room : sys.Room (seq.toNat + 1))
      (sent : result = .sent ∧ Bounded reqs (seq.toNat + 1) ∨
        result = .skipped ∧ Bounded reqs seq.toNat) :
      Sending (.restored pong result) (sys.client.outgoing pong h)

theorem Room.succ {seq : UInt64} (h : sys.Room seq.toNat) : (seq + 1).toNat = seq.toNat + 1 := by
  have hfits := sys.counter_fits
  have hpos := sys.replyEvery_pos
  have hmod := Nat.div_add_mod seq.toNat sys.client.replyEvery
  have hlt := Nat.mod_lt seq.toNat hpos
  unfold Room at h
  rw [Nat.mul_comm] at h
  rw [UInt64.toNat_add]
  apply Nat.mod_eq_of_lt
  rw [UInt64.toNat_one]
  omega

theorem Bounded.mono {n k : Nat} (h : Bounded reqs n) (hle : n ≤ k) : Bounded reqs k :=
  fun v hv => (h v hv).trans hle

theorem swapped_ge {seq : UInt64} {length : UInt32} {h : MsgHeader} {pong : Bool}
    (old : sys.Room seq.toNat) (hh : h = ⟨seq + 1, sys.client.idleFlags, length⟩)
    (calm : true = true → (htonll (sys.client.outgoing pong h).hton.sequenceNumber).toNat < 2 ^ 32) :
    seq.toNat + 1 ≤ (sys.client.outgoing pong h).hton.sequenceNumber.toNat := by
  have hseq : (sys.client.outgoing pong h).hton.sequenceNumber = htonll (seq + 1) := by
    rw [MsgHeader.hton, (sys.client.outgoing_fields pong h).1, hh]
  have hlt := calm rfl
  rw [hseq, htonll_htonll, old.succ] at hlt
  rw [hseq, toNat_htonll, old.succ]
  have hge := swap_eight_ge (show 0 < seq.toNat + 1 by omega) hlt
  omega

theorem Sending.bounded {s : EchoState γ} (h : sys.Sending reqs s.phase s.client.state.request)
    (calm : s.Calm) : Bounded reqs s.client.state.request.sequenceNumber.toNat := by
  unfold EchoState.Calm EchoState.counter EchoState.swapped at calm
  generalize s.client.state.request = r at h calm
  generalize s.phase = phase at h calm
  cases h with
  | idle fits room bounded => exact bounded
  | counted fits room bounded =>
    rw [room.succ]
    exact bounded.mono (Nat.le_succ _)
  | @network seq length h hh fits old room bounded =>
    exact bounded.mono ((Nat.le_succ _).trans (swapped_ge old hh calm))
  | @transmitted seq length h pong result hh fits old room sent =>
    have hge := swapped_ge old hh calm
    rcases sent with ⟨-, bounded⟩ | ⟨-, bounded⟩
    · exact bounded.mono hge
    · exact bounded.mono ((Nat.le_succ _).trans hge)
  | @restored seq length h pong result hh fits old room sent =>
    have hseq : (sys.client.outgoing pong h).sequenceNumber.toNat = seq.toNat + 1 := by
      rw [(sys.client.outgoing_fields pong h).1, hh, old.succ]
    rw [hseq]
    rcases sent with ⟨-, bounded⟩ | ⟨-, bounded⟩
    · exact bounded
    · exact bounded.mono (Nat.le_succ _)

/-! ## The invariant -/

variable (sys) in
structure Inv (s : EchoState γ) (reqs replies : List WireMessage) : Prop where
  clientSent : s.clientSent = reqs.map WireMessage.encode
  serverSent : s.replies = replies.map WireMessage.encode
  warmups : ∀ d ∈ s.serverWarmups, d = sys.serverWarmup
  requests : ∀ w ∈ reqs, sys.Request w
  echoes : ∀ w ∈ replies, ∃ q ∈ reqs, q.IsRequest ∧ w = q.echo
  safe : sys.Safe reqs s.client.state
  sending : Running s → sys.Sending reqs s.phase s.client.state.request
  clientLink : s.clientDown = false →
    Link sys.clientWindow sys.stream replies s.readByClient s.client
  serverLink : s.serverDown = false →
    Link sys.serverWindow sys.stream reqs s.readByServer s.server

section Inv
variable {s : EchoState γ} {replies : List WireMessage} (h : sys.Inv s reqs replies)
include h

theorem Inv.sender {c : ClientState} {phase : Phase} (quiet : s.client.state.Quiet c)
    (sending : c.exited = none → sys.Sending reqs phase c.request) :
    sys.Inv { s with client := { s.client with state := c }, phase := phase } reqs replies :=
  { h with
    safe := h.safe.quiet quiet
    sending := sending
    clientLink := fun hd => (h.clientLink hd).env c }

theorem Inv.transmit {c : ClientState} {phase : Phase} {w : WireMessage} {d : List UInt8}
    (hd : d = w.encode) (hw : sys.Request w) (quiet : s.client.state.Quiet c)
    (sending : c.exited = none → sys.Sending (reqs ++ [w]) phase c.request) :
    sys.Inv { s with
      client := { s.client with state := c }
      phase := phase
      clientSent := s.clientSent ++ [d] } (reqs ++ [w]) replies := by
  have hsub : ∀ v ∈ reqs, v ∈ reqs ++ [w] := fun v hv => List.mem_append_left _ hv
  refine { h with
    clientSent := ?_
    requests := ?_
    echoes := ?_
    safe := (h.safe.quiet quiet).mono hsub
    sending := sending
    clientLink := fun hd => (h.clientLink hd).env c
    serverLink := fun hd => (h.serverLink hd).append [w] }
  · simp only [h.clientSent, hd, List.map_append, List.map_cons, List.map_nil]
  · intro v hv
    rcases List.mem_append.mp hv with hv | hv
    · exact h.requests v hv
    · rwa [List.mem_singleton.mp hv]
  · intro v hv
    obtain ⟨q, hq, hr⟩ := h.echoes v hv
    exact ⟨q, hsub q hq, hr⟩

theorem Inv.known {d : List UInt8} (hd : d ∈ s.clientSent ∨ d ∈ s.serverWarmups ∨ d ∈ s.replies) :
    ∃ w, sys.Known reqs w ∧ d = w.encode := by
  rcases hd with hd | hd | hd
  · rw [h.clientSent] at hd
    obtain ⟨w, hw, rfl⟩ := List.mem_map.mp hd
    exact ⟨w, Known.request hw, rfl⟩
  · exact ⟨_, Known.warmup, (h.warmups d hd).trans sys.encode_warmupMessage.symm⟩
  · rw [h.serverSent] at hd
    obtain ⟨w, hw, rfl⟩ := List.mem_map.mp hd
    obtain ⟨q, hq, hr, rfl⟩ := h.echoes w hw
    exact ⟨q.echo, Known.echo hq hr, rfl⟩

end Inv

section Sender
variable {s : EchoState γ} {replies : List WireMessage}

/-- The table keeps up with the counter: a block is missing only for a pong request, and then
`setTxTime` leaves the process. -/
theorem Room.next {seq : UInt64} {length : UInt32} (h : sys.Room seq.toNat)
    (hle : sys.client.wantsPong ⟨seq + 1, sys.client.idleFlags, length⟩ = true →
      (seq + 1).toNat ≤ sys.maxSequenceNo) : sys.Room (seq.toNat + 1) := by
  rw [h.succ] at hle
  unfold Room at h ⊢
  by_cases hp : sys.client.wantsPong ⟨seq + 1, sys.client.idleFlags, length⟩ = true
  · exact (Nat.div_mul_le_self _ _).trans (hle hp)
  · have hdvd : ¬ sys.client.replyEvery ∣ seq.toNat + 1 := by
      intro hd
      apply hp
      unfold Client.wantsPong
      split
      · simp only [Room.succ h, beq_iff_eq]
        exact Nat.mod_eq_zero_of_dvd hd
      · rfl
      · next hmode => exact absurd hmode sys.not_never
    rw [Nat.succ_div_of_not_dvd hdvd]
    exact h

theorem request_of_outgoing {seq : UInt64} {length : UInt32} {h : MsgHeader} {w : WireMessage}
    (hh : h = ⟨seq + 1, sys.client.idleFlags, length⟩) (fits : sys.InRange length.toNat)
    (hw : w.header = sys.client.outgoing (sys.client.wantsPong h) h) : sys.Request w := by
  have hflags := sys.client.outgoing_flags (sys.client.wantsPong h) (seq + 1) length
  obtain ⟨hseq, hlen⟩ := sys.client.outgoing_fields (sys.client.wantsPong h) h
  rw [← hh, ← hw] at hflags
  rw [← hw] at hseq hlen
  refine ⟨?_, ?_, fun hreq => ?_⟩
  · rw [MsgHeader.isClient, hflags]
    split <;> decide
  · rw [WireMessage.size, hlen, hh]
    exact fits
  · rw [hseq]
    cases hmode : sys.client.pongMode with
    | always =>
      rw [sys.always_one hmode]
      exact Nat.mod_one _
    | never => exact absurd hmode sys.not_never
    | normal =>
      cases hp : sys.client.wantsPong h with
      | true =>
        rw [Client.wantsPong, hmode] at hp
        simpa using hp
      | false =>
        have hpong := hreq.pong
        rw [MsgHeader.isPongRequest, hflags, hmode, hp] at hpong
        exact absurd hpong (by decide)

/-! One lemma for each statement: the header of the request before and after it. -/

section Statements
variable {r : MsgHeader} {pong : Bool} {result : SendResult}

theorem Sending.setLength (h : sys.Sending reqs .idle r) {length : UInt32}
    (fits : sys.InRange length.toNat) : sys.Sending reqs .idle { r with length } := by
  cases h with
  | idle _ room bounded => exact Sending.idle fits room bounded

theorem Sending.count (h : sys.Sending reqs .idle r) :
    sys.Sending reqs .counted { r with sequenceNumber := r.sequenceNumber + 1 } := by
  cases h with
  | idle fits room bounded => exact Sending.counted fits room bounded

theorem Sending.prepare (h : sys.Sending reqs .counted r)
    (hle : sys.client.wantsPong r = true → r.sequenceNumber.toNat ≤ sys.maxSequenceNo) :
    sys.Sending reqs (.network (sys.client.wantsPong r) r.length.toNat)
      (sys.client.outgoing (sys.client.wantsPong r) r).hton := by
  cases h with
  | counted fits room bounded => exact Sending.network rfl fits room (room.next hle) bounded

theorem Sending.skip {length : Nat} (h : sys.Sending reqs (.network pong length) r) :
    sys.Sending reqs (.transmitted pong .skipped) r := by
  cases h with
  | network hh fits old room bounded =>
    exact Sending.transmitted hh fits old room (Or.inr ⟨rfl, bounded⟩)

theorem Sending.send {length : Nat} (h : sys.Sending reqs (.network pong length) r) :
    ∃ w : WireMessage, (r.bytes ++ sys.payload).take length = w.encode ∧ sys.Request w ∧
      sys.Sending (reqs ++ [w]) (.transmitted pong .sent) r := by
  cases h with
  | @network seq length h hh fits old room bounded =>
    obtain ⟨hseq, hlen⟩ := sys.client.outgoing_fields (sys.client.wantsPong h) h
    have hpay := sys.payload_length
    have hlow := fits.1
    have hhigh := fits.2.1
    have hlen' : (sys.client.outgoing (sys.client.wantsPong h) h).length = length := by
      rw [hlen, hh]
    rw [← hlen'] at hlow hhigh
    refine ⟨.cut (sys.client.outgoing (sys.client.wantsPong h) h) sys.payload hlow (by omega),
      ?_, request_of_outgoing hh fits rfl, ?_⟩
    · rw [WireMessage.encode_cut, hlen']
    · refine Sending.transmitted hh fits old room (Or.inl ⟨rfl, fun v hv => ?_⟩)
      rcases List.mem_append.mp hv with hv | hv
      · exact (bounded v hv).trans (Nat.le_succ _)
      · rw [List.mem_singleton.mp hv]
        show (sys.client.outgoing (sys.client.wantsPong h) h).sequenceNumber.toNat ≤ seq.toNat + 1
        rw [hseq, hh, old.succ]

theorem Sending.restore (h : sys.Sending reqs (.transmitted pong result) r) :
    sys.Sending reqs (.restored pong result) r.ntoh := by
  cases h with
  | transmitted hh fits old room sent =>
    rw [MsgHeader.ntoh_hton]
    exact Sending.restored hh fits old room sent

theorem Sending.finish (h : sys.Sending reqs (.restored pong result) r) :
    ∃ (seq : UInt64) (length : UInt32),
      r = sys.client.outgoing pong ⟨seq, sys.client.idleFlags, length⟩ ∧
      (result = .sent ∧ sys.Sending reqs .idle ⟨seq, sys.client.idleFlags, length⟩ ∨
        result = .skipped ∧ sys.Sending reqs .idle ⟨seq - 1, sys.client.idleFlags, length⟩) := by
  cases h with
  | @restored seq length h _ _ hh fits old room sent =>
    refine ⟨seq + 1, length, by rw [hh], ?_⟩
    rcases sent with ⟨hr, bounded⟩ | ⟨hr, bounded⟩
    · rw [← old.succ] at room bounded
      exact Or.inl ⟨hr, Sending.idle fits room bounded⟩
    · rw [UInt64.add_sub_cancel]
      exact Or.inr ⟨hr, Sending.idle fits old bounded⟩

theorem Sending.warmup (h : sys.Sending reqs .idle r) :
    r.setWarmupMessage.resetWarmupMessage = r ∧
    ∃ w : WireMessage, (r.setWarmupMessage.hton.bytes ++ sys.payload).take r.length.toNat = w.encode ∧
      sys.Request w ∧ sys.Sending (reqs ++ [w]) .idle r := by
  cases h with
  | @idle seq length fits room bounded =>
    have hflags : sys.client.idleFlags = 1 ∨ sys.client.idleFlags = 3 := by
      rw [sys.client.idleFlags_eq]
      cases sys.client.pongMode
      · exact Or.inl rfl
      · exact Or.inr rfl
      · exact Or.inl rfl
    have hpay := sys.payload_length
    have hhigh := fits.2.1
    refine ⟨?_, .cut (MsgHeader.mk seq sys.client.idleFlags length).setWarmupMessage sys.payload
      fits.1 (by simp only [MsgHeader.setWarmupMessage]; omega), ?_, ⟨?_, fits, fun hreq => ?_⟩,
      Sending.idle fits room fun v hv => ?_⟩
    · simp only [MsgHeader.resetWarmupMessage, MsgHeader.setWarmupMessage, MsgHeader.mk.injEq,
        true_and, and_true]
      rcases hflags with hf | hf <;> rw [hf] <;> decide
    · exact (WireMessage.encode_cut (MsgHeader.mk seq sys.client.idleFlags length).setWarmupMessage
        _ _ _).symm
    · simp only [WireMessage.cut, MsgHeader.isClient, MsgHeader.setWarmupMessage]
      rcases hflags with hf | hf <;> rw [hf] <;> decide
    · have hwarm := hreq.warm
      simp only [WireMessage.cut, MsgHeader.isWarmupMessage, MsgHeader.setWarmupMessage] at hwarm
      rcases hflags with hf | hf <;> rw [hf] at hwarm <;> exact absurd hwarm (by decide)
    · rcases List.mem_append.mp hv with hv | hv
      · exact bounded v hv
      · rw [List.mem_singleton.mp hv]
        exact le_rfl

end Statements

theorem Inv.finish (h : sys.Inv s reqs replies) (up : Running s) {pong : Bool}
    {result : SendResult} (hphase : s.phase = .restored pong result) :
    sys.Inv { s.setClient fun c =>
      sys.client.afterSendPacket (sys.client.afterSend c pong result) result with
        phase := .idle } reqs replies := by
  have hs := h.sending up
  rw [hphase] at hs
  obtain ⟨seq, length, hreq, hresult⟩ := hs.finish
  obtain ⟨quiet, hafter⟩ := sys.client.afterSend_spec result hreq
  rcases hresult with ⟨rfl, hidle⟩ | ⟨rfl, hidle⟩
  · refine h.sender quiet fun hex => ?_
    have hsent := hafter hex
    simp only [Client.afterSendPacket, hsent]
    exact hidle
  · refine h.sender ⟨quiet.payload, quiet.accepted, quiet.maxSequenceNo, quiet.replyEvery, quiet.rx,
      quiet.exited⟩ fun hex => ?_
    have hdec := hafter hex
    simp only [Client.afterSendPacket, Client.decSequenceCounter, hdec]
    exact hidle

end Sender

theorem Arrives.delivers {written : List UInt8} {datagrams : List (List UInt8)} {size : Int}
    {bs : List UInt8} (known : WireMessage → Prop) (h : sys.Arrives written datagrams size bs)
    (hknown : ∀ d ∈ datagrams, bs = d.take size.toNat → ∃ w, known w ∧ d = w.encode) :
    Delivers sys.stream known written size bs := by
  unfold Arrives at h
  unfold Delivers
  split
  · next hs => rwa [if_pos hs] at h
  · next hs =>
    rw [if_neg hs] at h
    obtain ⟨d, hd, rfl⟩ := h
    obtain ⟨w, hw, rfl⟩ := hknown d hd rfl
    exact ⟨w, hw, rfl⟩

section Receive
variable {s : EchoState γ} {replies : List WireMessage} (h : sys.Inv s reqs replies)
include h

theorem Inv.fits_replies : ∀ w ∈ replies, w.size ≤ sys.clientWindow.maxSize := by
  intro w hw
  obtain ⟨q, hq, -, rfl⟩ := h.echoes w hw
  exact (h.requests q hq).range.2.1

theorem Inv.known_replies : ∀ w ∈ replies, sys.Known reqs w := by
  intro w hw
  obtain ⟨q, hq, hr, rfl⟩ := h.echoes w hw
  exact Known.echo hq hr

theorem Inv.serverReceives (up : s.serverDown = false) {bs : List UInt8}
    (arrives : sys.ToServer s bs) (recvfromAddr : SockAddr) :
    ∃ ok c, RecvFrom sys.server.msMaxSize (sys.server.handleMessage recvfromAddr) s.server bs ok c ∧
      ∃ replies', sys.Inv { s with
        server := c, readByServer := s.readByServer + bs.length, serverDown := !ok } reqs
        replies' := by
  have hstart : Echoes reqs replies s.server.state :=
    ⟨[], by rw [List.append_nil]; exact h.serverSent, by simp⟩
  have hdelivers : Delivers sys.stream (sys.Known reqs)
      ((encodeAll reqs).drop s.readByServer) s.server.recv.curSize bs := by
    have hd := arrives.delivers (sys.Known reqs) fun d hd _ => h.known <| by
      split at hd <;> simp only [List.mem_append, List.append_nil] at hd <;> tauto
    rwa [h.clientSent] at hd
  obtain ⟨ok, c, hr, htrue, hfalse⟩ := (h.serverLink up).receive
    (sys.serverHandler replies recvfromAddr) hstart (fun w hw => Known.request hw)
    (fun w hw => hw.fits_server h.requests) hdelivers
  have hechoes : Echoes reqs replies c.state := by
    cases ok with
    | true => exact (htrue rfl).1
    | false => exact hfalse rfl
  obtain ⟨more, hsent, hmore⟩ := hechoes
  rw [← sys.server_max] at hr
  refine ⟨ok, c, hr, replies ++ more, { h with
    serverSent := hsent
    echoes := fun w hw => ?_
    clientLink := fun hd => (h.clientLink hd).append more
    serverLink := fun hd => (htrue (by simpa using hd)).2 }⟩
  rcases List.mem_append.mp hw with hw | hw
  · exact h.echoes w hw
  · exact hmore w hw

theorem Inv.clientDelivers {bs : List UInt8} (takes : sys.Takes s bs)
    (arrives : sys.ToClient s bs) :
    Delivers sys.stream (fun w => sys.Known reqs w ∧ w.size ≤ sys.clientWindow.maxSize)
      ((encodeAll replies).drop s.readByClient) s.client.recv.curSize bs := by
  have hdelivers := arrives.delivers
    (fun w => sys.Known reqs w ∧ w.size ≤ sys.clientWindow.maxSize) fun d hd hbs => by
    cases hmulticast : sys.client.isMulticast with
    | true =>
      rw [hmulticast, if_pos rfl, List.mem_append, List.mem_append] at hd
      obtain ⟨w, hknown, rfl⟩ := h.known (by tauto)
      refine ⟨w, ⟨hknown, hknown.fits_client h.requests fun heq => ?_⟩, rfl⟩
      by_contra hlong
      rw [heq, encode_warmupMessage] at hbs
      exact takes hmulticast (not_le.mp hlong) hbs
    | false =>
      rw [hmulticast, if_neg Bool.false_ne_true, List.append_nil, h.serverSent] at hd
      obtain ⟨w, hw, rfl⟩ := List.mem_map.mp hd
      obtain ⟨q, hq, hr, rfl⟩ := h.echoes w hw
      exact ⟨q.echo, ⟨Known.echo hq hr, (h.requests q hq).range.2.1⟩, rfl⟩
  rwa [h.serverSent] at hdelivers

theorem Inv.clientReceives (up : Running s) (listening : s.clientDown = false)
    {bs : List UInt8} (calm : sys.Calm s bs) (arrives : sys.ToClient s bs)
    (recvfromAddr : SockAddr) :
    ∃ ok c, RecvFrom sys.client.msMaxSize (sys.client.handleMessage recvfromAddr) s.client bs ok c ∧
      sys.Inv { s with
        client := c, readByClient := s.readByClient + bs.length, clientDown := !ok } reqs
        replies := by
  have hsending := h.sending up
  obtain ⟨ok, c, hr, htrue, hfalse⟩ := (h.clientLink listening).receive
    (sys.clientHandler h.requests recvfromAddr (hsending.bounded calm.1)) ⟨h.safe, rfl⟩
    (fun w hw => ⟨h.known_replies w hw, h.fits_replies w hw⟩) (fun w hw => hw.2)
    (h.clientDelivers calm.2 arrives)
  have hafter : sys.Safe reqs c.state ∧ c.state.request = s.client.state.request := by
    cases ok with
    | true => exact (htrue rfl).1
    | false => exact hfalse rfl
  rw [← sys.client_max] at hr
  refine ⟨ok, c, hr, { h with
    safe := hafter.1
    sending := fun _ => ?_
    clientLink := fun hd => (htrue (by simpa using hd)).2 }⟩
  simp only [hafter.2]
  exact hsending

theorem Inv.step {s' : EchoState γ} (hstep : sys.Step sys.Calm s s') :
    ∃ reqs' replies', sys.Inv s' reqs' replies' := by
  cases hstep with
  | setLength up idle length fits =>
    refine ⟨reqs, replies, h.sender (Client.quiet_of_request _) fun _ => ?_⟩
    have hs := h.sending up
    rw [idle] at hs ⊢
    exact hs.setLength fits
  | count up idle =>
    refine ⟨reqs, replies, h.sender (Client.quiet_of_request _) fun _ => ?_⟩
    have hs := h.sending up
    rw [idle] at hs
    exact hs.count
  | prepare up counted now =>
    obtain ⟨quiet, hrequest⟩ := sys.client.prepareSend_spec (s := s.client.state) now
    refine ⟨reqs, replies, h.sender quiet fun hex => ?_⟩
    obtain ⟨hreq, hle⟩ := hrequest hex
    have hs := h.sending up
    rw [counted] at hs
    rw [h.safe.maxSequenceNo] at hle
    rw [hreq]
    exact hs.prepare hle
  | send up network =>
    have hs := h.sending up
    rw [network] at hs
    obtain ⟨w, hw, hrequest, hsent⟩ := hs.send
    rw [← h.safe.payload] at hw
    exact ⟨reqs ++ [w], replies, h.transmit hw hrequest (Client.quiet_of_request _) fun _ => hsent⟩
  | skip up network =>
    refine ⟨reqs, replies, h.sender (Client.quiet_of_request _) fun _ => ?_⟩
    have hs := h.sending up
    rw [network] at hs
    exact hs.skip
  | restore up transmitted =>
    -- unfolded first: the unifier would otherwise compare the two headers byte by byte
    dsimp only [EchoState.setClient]
    refine ⟨reqs, replies, h.sender Client.quiet_setHeaderToHost fun _ => ?_⟩
    have hs := h.sending up
    rw [transmitted] at hs
    exact hs.restore
  | finish up restored => exact ⟨reqs, replies, h.finish up restored⟩
  | clientWarmup up idle multicast sent =>
    have hs := h.sending up
    rw [idle] at hs
    obtain ⟨hreset, w, hw, hrequest, hsent⟩ := hs.warmup
    have hafter : afterWarmup s.client.state =
        { s.client.state with request := s.client.state.request } := by
      rw [afterWarmup, MsgHeader.ntoh_hton, hreset]
    cases sent with
    | true =>
      rw [← h.safe.payload] at hw
      refine ⟨reqs ++ [w], replies, ?_⟩
      rw [EchoState.setClient, hafter]
      exact h.transmit hw hrequest (Client.quiet_of_request _) fun _ => by rwa [idle]
    | false =>
      refine ⟨reqs, replies, ?_⟩
      rw [EchoState.setClient, hafter]
      exact h
  | serverWarmup multicast =>
    refine ⟨reqs, replies, { h with warmups := fun d hd => ?_ }⟩
    rcases List.mem_append.mp hd with hd | hd
    · exact h.warmups d hd
    · exact List.mem_singleton.mp hd
  | serverReceive up arrives recvfromAddr received =>
    obtain ⟨ok, c, hr, hinv⟩ := h.serverReceives up arrives recvfromAddr
    cases hr.unique received
    exact ⟨reqs, hinv⟩
  | clientReceive up listening allowed arrives recvfromAddr received =>
    obtain ⟨ok, c, hr, hinv⟩ := h.clientReceives up listening allowed arrives recvfromAddr
    cases hr.unique received
    exact ⟨reqs, replies, hinv⟩

end Receive

theorem Initial.inv {s : EchoState γ} (h : sys.Initial s) : sys.Inv s [] [] := by
  have hstate : s.client.state.exited = none := by
    rw [h.client]
    rfl
  refine ⟨h.clientSent, ?_, ?_, by simp, by simp, ?_, fun _ => ?_, fun _ => ?_, fun _ => ?_⟩
  · rw [EchoState.replies, h.serverSent]
    rfl
  · simp [h.serverWarmups]
  · rw [h.client]
    exact ⟨rfl, rfl, rfl, by simp [Client.initial], by simp [Client.initial, PacketTimes.new],
      by simp [Client.initial]⟩
  · rw [h.phase, h.client]
    refine Sending.idle sys.msgSize_ok ?_ (by simp [Bounded])
    unfold Room
    rw [UInt64.toNat_zero, Nat.zero_div, Nat.zero_mul]
    exact Nat.zero_le _
  · rw [h.readByClient]
    exact Link.fresh h.clientRecv h.clientAsserts
  · rw [h.readByServer]
    exact Link.fresh h.serverRecv h.serverAsserts

theorem Run.inv {s s' : EchoState γ} (h : sys.Initial s) (hrun : sys.Run sys.Calm s s') :
    ∃ reqs replies, sys.Inv s' reqs replies := by
  induction hrun with
  | refl => exact ⟨[], [], h.inv⟩
  | tail _ hstep ih =>
    obtain ⟨reqs, replies, hinv⟩ := ih
    exact hinv.step hstep

end EchoSystem

/-- In every run in which the client makes calm receives only: an accepted reply is
the echo of a pong request that was put on the wire, reply times stand for such requests only, the
exits on the header of a message are not taken, and every receive returns. -/
theorem echo_safety (sys : EchoSystem γ) {s₀ s : EchoState γ} (start : sys.Initial s₀)
    (run : sys.Run sys.Calm s₀ s) :
    (∀ v ∈ s.client.state.accepted, ∃ w : WireMessage, w.IsRequest ∧ w.encode ∈ s.clientSent ∧
      v.header.sequenceNumber = w.header.sequenceNumber ∧ v.header.length = w.header.length ∧
      v.body = w.body ∧ v.header.isClient = false ∧ v.header.isPongRequest = true) ∧
    (∀ i k, s.client.state.times.rx i k ≠ 0 → ∃ w : WireMessage, w.IsRequest ∧
      w.encode ∈ s.clientSent ∧
      w.header.sequenceNumber.toNat = i * sys.client.replyEvery) ∧
    s.client.state.exited ≠ some .sequenceHigher ∧
    s.client.state.exited ≠ some .largerThanExpected ∧
    (∀ bs recvfromAddr, s.serverDown = false → sys.ToServer s bs → ∃ ok c,
      RecvFrom sys.server.msMaxSize (sys.server.handleMessage recvfromAddr) s.server bs ok c) ∧
    (∀ bs recvfromAddr, EchoSystem.Running s → s.clientDown = false → sys.Calm s bs →
      sys.ToClient s bs → ∃ ok c,
      RecvFrom sys.client.msMaxSize (sys.client.handleMessage recvfromAddr) s.client bs ok c) := by
  obtain ⟨reqs, replies, h⟩ := EchoSystem.Run.inv start run
  have hwire : ∀ q ∈ reqs, q.encode ∈ s.clientSent := by
    intro q hq
    rw [h.clientSent]
    exact List.mem_map_of_mem hq
  refine ⟨?_, ?_, h.safe.exited.1, h.safe.exited.2, ?_, ?_⟩
  · intro v hv
    obtain ⟨q, hq, hreq, rfl⟩ := h.safe.accepted v hv
    exact ⟨q, hreq, hwire q hq, rfl, rfl, rfl, q.header.isClient_setServer,
      q.header.isPongRequest_setServer.trans hreq.pong⟩
  · intro i k hk
    obtain ⟨q, hq, hreq, hseq⟩ := h.safe.rx i k hk
    exact ⟨q, hreq, hwire q hq, hseq⟩
  · intro bs recvfromAddr up arrives
    obtain ⟨ok, c, hr, -⟩ := h.serverReceives up arrives recvfromAddr
    exact ⟨ok, c, hr⟩
  · intro bs recvfromAddr up listening calm arrives
    obtain ⟨ok, c, hr, -⟩ := h.clientReceives up listening calm arrives recvfromAddr
    exact ⟨ok, c, hr⟩

theorem Client.recvFrom_higher (clt : Client) (recvfromAddr : SockAddr) {g : Window}
    (hmax : clt.msMaxSize = g.msMaxSize) {c : Ctx ClientState} {w : WireMessage}
    (hrecv : c.recv = freshRecv g.base g.maxSize) (hasserts : c.asserts = true)
    (hsize : w.size ≤ g.maxSize)
    (hlt : c.state.request.sequenceNumber < w.header.sequenceNumber) :
    ∃ c', RecvFrom clt.msMaxSize (clt.handleMessage recvfromAddr) c w.encode false c' ∧
      c'.state.exited = some .sequenceHigher := by
  have hpark : g.Parked [] [] c := Window.fresh_between _ [] hrecv hasserts trivial
  obtain ⟨ok, c', hr, m, msg, hv, hview, hok, hstate⟩ := hpark.recvFrom_single
    (clt.handleMessage recvfromAddr)
    (fun _ _ _ _ hx => clt.handleMessage_outside recvfromAddr hx) hsize
  have hlt' : c.state.request.sequenceNumber < msg.getSequenceCounter m := by
    rw [Message.getSequenceCounter, header_of_view hview]
    exact hlt
  rw [← hmax] at hv hr
  have heval := Client.handleMessage_higher recvfromAddr hv hlt'
  rw [heval] at hok hstate
  rw [← hok] at hr
  refine ⟨c', hr, ?_⟩
  rw [hstate]

/-! ## A long test

`under-load --reply-every=65536 --mps=2000000 -t 3600 -m 14` sends more than `2 ^ 32` messages.
-/

def raceSystem : EchoSystem Unit where
  client := ⟨15, .normal, 65536, 1, false, false, false, fun _ => ⟨false, 1⟩⟩
  server := ⟨65507, ⟨false, false, false⟩, ⟨.inet 1 1, false, false, 0⟩, fun _ _ _ g => g,
    fun _ => ⟨false, .sent⟩⟩
  clientWindow := ⟨0, 14, 15, by decide, by decide, by decide, by decide⟩
  serverWindow := ⟨0, 65507, 65507, by decide, by decide, by decide, by decide⟩
  stream := false
  maxSequenceNo := 7202655361
  msgSize := 14
  payload := [0]
  serverMsgSize := 65507
  serverPayload := List.replicate 65493 0
  client_max := rfl
  server_max := rfl
  no_bridge := rfl
  sends := fun _ => Or.inl rfl
  replyEvery_pos := by decide
  not_never := by decide
  always_one := by decide
  counter_fits := by decide
  stream_unicast := by decide
  payload_length := by decide
  serverPayload_length := by
    rw [List.length_replicate]
    decide
  msgSize_ok := by decide
  serverMsgSize_ok := by decide

def raceStart : EchoState Unit where
  client := ⟨fun _ => 0, freshRecv 0 14, ⟨0⟩, raceSystem.client.initial 14 [0] 7202655361, true⟩
  phase := .idle
  server := ⟨fun _ => 0, freshRecv 0 65507, ⟨0⟩, ⟨0, 0, (), [], false⟩, true⟩
  clientSent := []
  serverWarmups := []
  readByClient := 0
  readByServer := 0
  clientDown := false
  serverDown := false

section Race

/-- The client has only sent so far, and the server has received nothing. -/
structure Race (s : EchoState Unit) : Prop where
  run : raceSystem.Run (fun _ _ => True) raceStart s
  client : s.client = { raceStart.client with state := s.client.state }
  payload : s.client.state.payload = [0]
  maxSequenceNo : s.client.state.times.maxSequenceNo = 7202655361
  exited : s.client.state.exited = none
  server : s.server = raceStart.server
  clientUp : s.clientDown = false
  serverUp : s.serverDown = false

variable {n : Nat} {s : EchoState Unit}

theorem Race.next (h : Race s) {c : ClientState} {phase : Phase} {sent : List (List UInt8)}
    (hstep : raceSystem.Step (fun _ _ => True) s { s with
      client := { s.client with state := c }, phase := phase, clientSent := sent })
    (quiet : s.client.state.Quiet c) (hex : c.exited = none) :
    Race { s with client := { s.client with state := c }, phase := phase, clientSent := sent } where
  run := h.run.tail hstep
  client := by rw [h.client]
  payload := quiet.payload.trans h.payload
  maxSequenceNo := quiet.maxSequenceNo.trans h.maxSequenceNo
  exited := hex
  server := h.server
  clientUp := h.clientUp
  serverUp := h.serverUp

/-- The header while the message `n + 1` is sent. -/
def raceHeader (n : Nat) : MsgHeader := ⟨UInt64.ofNat (n + 1), 1, 14⟩

/-- A send up to the point where the message is on the wire and the header still swapped. -/
theorem Race.send (h : Race s) (idle : s.phase = .idle)
    (hreq : s.client.state.request = ⟨UInt64.ofNat n, 1, 14⟩) (hn : n + 1 ≤ 7202655361) :
    ∃ s', Race s' ∧
      s'.phase = .transmitted (raceSystem.client.wantsPong (raceHeader n)) .sent ∧
      s'.client.state.request = (raceSystem.client.outgoing
        (raceSystem.client.wantsPong (raceHeader n)) (raceHeader n)).hton ∧
      Client.wireBytes s'.client.state 14 ∈ s'.clientSent := by
  have h1 := h.next (.count h.exited idle) (Client.quiet_of_request _) h.exited
  have hreq1 : (Client.incSequenceCounter s.client.state).request = raceHeader n := by
    simp only [Client.incSequenceCounter, hreq, raceHeader, UInt64.ofNat_add]
    rfl
  generalize Client.incSequenceCounter s.client.state = c1 at h1 hreq1
  have hle : c1.request.sequenceNumber.toNat ≤ c1.times.maxSequenceNo := by
    have hmax : c1.times.maxSequenceNo = 7202655361 := h1.maxSequenceNo
    rw [hmax, hreq1, raceHeader, UInt64.toNat_ofNat']
    omega
  obtain ⟨times, hprep, -⟩ := raceSystem.client.prepareSend_of_le 1 hle
  have hex2 : (raceSystem.client.prepareSend c1 1).exited = none := by
    rw [hprep]
    exact h1.exited
  have h2 := h1.next (.prepare h1.exited rfl 1) (raceSystem.client.prepareSend_spec 1).1 hex2
  have hreq2 : (raceSystem.client.prepareSend c1 1).request = (raceSystem.client.outgoing
      (raceSystem.client.wantsPong (raceHeader n)) (raceHeader n)).hton := by
    rw [hprep, hreq1]
  simp only [hreq1] at h2
  generalize raceSystem.client.prepareSend c1 1 = c2 at h2 hreq2
  have h3 := h2.next (.send h2.exited rfl) (Client.quiet_of_request _) h2.exited
  exact ⟨_, h3, rfl, hreq2, List.mem_append_right _ (List.mem_singleton.mpr rfl)⟩

theorem Race.finish (h : Race s) {pong : Bool} (hphase : s.phase = .transmitted pong .sent)
    (hreq : s.client.state.request = (raceSystem.client.outgoing pong (raceHeader n)).hton) :
    ∃ s', Race s' ∧ s'.phase = .idle ∧
      s'.client.state.request = ⟨UInt64.ofNat (n + 1), 1, 14⟩ := by
  have hex1 : (Client.setHeaderToHost s.client.state).exited = none := by
    rw [Client.setHeaderToHost]
    exact h.exited
  have hstep : raceSystem.Step (fun _ _ => True) s _ := .restore h.exited hphase
  dsimp only [EchoState.setClient] at hstep
  have h1 := h.next hstep Client.quiet_setHeaderToHost hex1
  have hreq1 : (Client.setHeaderToHost s.client.state).request =
      raceSystem.client.outgoing pong ⟨UInt64.ofNat (n + 1), raceSystem.client.idleFlags, 14⟩ := by
    rw [Client.setHeaderToHost, hreq, MsgHeader.ntoh_hton]
    rfl
  generalize Client.setHeaderToHost s.client.state = c1 at h1 hreq1
  obtain ⟨quiet, hafter⟩ := raceSystem.client.afterSend_spec .sent hreq1
  have hex2 : (raceSystem.client.afterSend c1 pong .sent).exited = none := by
    cases pong <;> exact h1.exited
  have h2 := h1.next (.finish h1.exited rfl) quiet hex2
  exact ⟨_, h2, rfl, hafter hex2⟩

theorem race_reach (hn : n ≤ 7202655361) : ∃ s, Race s ∧ s.phase = .idle ∧
    s.client.state.request = ⟨UInt64.ofNat n, 1, 14⟩ := by
  induction n with
  | zero =>
    exact ⟨raceStart, ⟨.refl, rfl, rfl, rfl, rfl, rfl, rfl, rfl⟩, rfl, rfl⟩
  | succ n ih =>
    obtain ⟨s, h, idle, hreq⟩ := ih (by omega)
    obtain ⟨s', h', hphase, hreq', -⟩ := h.send idle hreq hn
    exact h'.finish hphase hreq'

end Race

/-- Message `2 ^ 32` and the reply to it. -/
def raceRequest : WireMessage := ⟨⟨4294967296, 3, 14⟩, [], rfl⟩

theorem race_reply : ∃ c, RecvFrom raceSystem.server.msMaxSize
    (raceSystem.server.handleMessage (.inet 2 2)) raceStart.server raceRequest.encode true c ∧
      c.state.sent = [(.inet 2 2, raceRequest.echo.encode)] := by
  have heval : (recvFrom raceSystem.server.msMaxSize (raceSystem.server.handleMessage (.inet 2 2)) 3
      raceStart.server raceRequest.encode).map (fun r => (r.1, r.2.state.sent)) =
      some (true, [(.inet 2 2, raceRequest.echo.encode)]) := by
    decide +kernel
  exact RecvFrom.of_map (fun c : Ctx (ServerState Unit) => c.state.sent) heval

theorem raceStart_initial : raceSystem.Initial raceStart :=
  ⟨rfl, rfl, rfl, rfl, rfl, rfl, rfl, rfl, rfl, rfl, rfl⟩

theorem race_exits : ∃ s, raceSystem.Run (fun _ _ => True) raceStart s ∧
    s.client.state.exited = some .sequenceHigher := by
  obtain ⟨s, h, idle, hreq⟩ := race_reach (n := 4294967295) (by decide)
  obtain ⟨s1, h1, -, hreq1, hwire⟩ := h.send idle hreq (by decide)
  have hbytes : Client.wireBytes s1.client.state 14 = raceRequest.encode := by
    rw [Client.wireBytes, hreq1, h1.payload]
    decide +kernel
  obtain ⟨c, hc, hsent⟩ := race_reply
  have harrives : raceSystem.ToServer s1 raceRequest.encode := by
    refine ⟨raceRequest.encode, List.mem_append_left _ (hbytes ▸ hwire), ?_⟩
    rw [h1.server]
    decide +kernel
  rw [← h1.server] at hc
  have h2 := h1.run.tail (.serverReceive h1.serverUp harrives (.inet 2 2) hc)
  generalize hs2 : EchoState.mk _ _ _ _ _ _ _ _ _ = s2 at h2
  have hclient : s2.client = s1.client := by rw [← hs2]
  have hup : s2.clientDown = false := by
    rw [← hs2]
    exact h1.clientUp
  have hreplies : s2.replies = [raceRequest.echo.encode] := by
    rw [← hs2, EchoState.replies, hsent]
    rfl
  have hrecv : s2.client.recv = freshRecv 0 14 := by
    rw [hclient, h1.client]
    rfl
  have hasserts : s2.client.asserts = true := by
    rw [hclient, h1.client]
    rfl
  have hlt : s2.client.state.request.sequenceNumber < raceRequest.echo.header.sequenceNumber := by
    rw [hclient, hreq1]
    decide +kernel
  obtain ⟨c', hc', hexit⟩ := raceSystem.client.recvFrom_higher (.inet 1 1)
    raceSystem.client_max hrecv hasserts (w := raceRequest.echo) (by decide) hlt
  have harrives2 : raceSystem.ToClient s2 raceRequest.echo.encode := by
    refine ⟨raceRequest.echo.encode, List.mem_append_left _ ?_, ?_⟩
    · rw [hreplies]
      exact List.mem_singleton.mpr rfl
    · rw [hrecv]
      decide +kernel
  have hexited : s2.client.state.exited = none := by
    rw [hclient]
    exact h1.exited
  have h3 := h2.tail (.clientReceive hexited hup trivial harrives2 (.inet 1 1) hc')
  exact ⟨_, h3, hexit⟩

/-! ## A warm-up message of the server

The same client with a multicast group. The server sends 65507 bytes at its start.
-/

def groupSystem : EchoSystem Unit := { raceSystem with
  client := { raceSystem.client with isMulticast := true }
  stream_unicast := fun h => by cases h }

theorem group_warmup : groupSystem.serverWarmup.take 14 =
    (MsgHeader.mk 0 MsgHeader.maskWarmupMsg 65507).hton.bytes := by
  rw [EchoSystem.serverWarmup, List.take_take]
  exact List.take_left' (MsgHeader.bytes_length _)

theorem group_exits : ∃ s, groupSystem.Run (fun s _ => s.Calm) raceStart s ∧
    s.client.state.exited = some .largerThanExpected := by
  obtain ⟨c, hc, hexit⟩ := RecvFrom.of_map (fun c : Ctx ClientState => c.state.exited)
    (by decide +kernel : (recvFrom groupSystem.client.msMaxSize
        (groupSystem.client.handleMessage (.inet 1 1)) 3 raceStart.client
        (MsgHeader.mk 0 MsgHeader.maskWarmupMsg 65507).hton.bytes).map
        (fun r => (r.1, r.2.state.exited)) = some (false, some .largerThanExpected))
  have hwarmup : groupSystem.Run (fun s _ => s.Calm) raceStart
      { raceStart with serverWarmups := [groupSystem.serverWarmup] } := .single (.serverWarmup rfl)
  have hup : EchoSystem.Running
      { raceStart with serverWarmups := [groupSystem.serverWarmup] } := rfl
  have harrives : groupSystem.ToClient
      { raceStart with serverWarmups := [groupSystem.serverWarmup] }
      (MsgHeader.mk 0 MsgHeader.maskWarmupMsg 65507).hton.bytes :=
    ⟨_, List.mem_singleton.mpr rfl, group_warmup.symm⟩
  exact ⟨_, hwarmup.tail (.clientReceive hup rfl (fun h => by cases h) harrives (.inet 1 1) hc),
    hexit⟩

/-- The client exits over the reply to message `2 ^ 32` because it compares the sequence number
with a counter that the sender has just swapped; and over the first warm-up message of a server that
may send more than it. -/
theorem swapped_counter_exits : raceSystem.Initial raceStart ∧
    (∃ s, raceSystem.Run (fun _ _ => True) raceStart s ∧
      s.client.state.exited = some .sequenceHigher) ∧
    groupSystem.Initial raceStart ∧
    ∃ s, groupSystem.Run (fun s _ => s.Calm) raceStart s ∧
      s.client.state.exited = some .largerThanExpected :=
  ⟨raceStart_initial, race_exits, ⟨rfl, rfl, rfl, rfl, rfl, rfl, rfl, rfl, rfl, rfl, rfl⟩,
    group_exits⟩

/-! ## A short test -/

/-- `ping-pong -m 14` with room for ten messages. -/
def pingSystem : EchoSystem Unit := { raceSystem with
  client := ⟨15, .always, 1, 1, false, false, false, fun _ => ⟨false, 7⟩⟩
  maxSequenceNo := 10
  client_max := rfl
  replyEvery_pos := by decide
  not_never := by decide
  always_one := by decide
  counter_fits := by decide
  stream_unicast := by decide }

/-- The system with the client in the given state, before anybody has received anything. -/
def pingAt (c : ClientState) (phase : Phase) (sent : List (List UInt8)) : EchoState Unit :=
  { raceStart with
    client := { raceStart.client with state := c }
    phase := phase
    clientSent := sent }

def pingStart : ClientState := pingSystem.client.initial 14 [0] 10

def pingRequest : WireMessage := ⟨⟨1, 3, 14⟩, [], rfl⟩

/-- The client with its first message on the wire and the header still swapped. -/
def pingSent : ClientState :=
  pingSystem.client.prepareSend (Client.incSequenceCounter pingStart) 5

theorem ping_send : pingSystem.Run pingSystem.Calm (pingAt pingStart .idle [])
    (pingAt pingSent (.transmitted true .sent) [pingRequest.encode]) := by
  have h1 : pingSystem.Step pingSystem.Calm (pingAt pingStart .idle [])
    (pingAt (Client.incSequenceCounter pingStart) .counted []) := .count rfl rfl
  have hup1 : EchoSystem.Running (pingAt (Client.incSequenceCounter pingStart) .counted []) := rfl
  have h2 : pingSystem.Step pingSystem.Calm (pingAt (Client.incSequenceCounter pingStart) .counted [])
    (pingAt pingSent (.network true 14) []) := .prepare hup1 rfl 5
  have hup2 : EchoSystem.Running (pingAt pingSent (.network true 14) []) :=
    (by decide +kernel : pingSent.exited = none)
  have hwire : Client.wireBytes pingSent 14 = pingRequest.encode := by decide +kernel
  have h3 : pingSystem.Step pingSystem.Calm (pingAt pingSent (.network true 14) [])
    (pingAt pingSent (.transmitted true .sent) [Client.wireBytes pingSent 14]) := .send hup2 rfl
  rw [hwire] at h3
  exact ((Relation.ReflTransGen.single h1).tail h2).tail h3

theorem ping_accepted : ∃ s, pingSystem.Run pingSystem.Calm (pingAt pingStart .idle []) s ∧
    s.client.state.accepted = [pingRequest.echo.view] := by
  obtain ⟨cs, hcs, hsent⟩ := RecvFrom.of_map (fun c : Ctx (ServerState Unit) => c.state.sent)
    (by decide +kernel : (recvFrom pingSystem.server.msMaxSize
        (pingSystem.server.handleMessage (.inet 2 2)) 3 raceStart.server pingRequest.encode).map
        (fun r => (r.1, r.2.state.sent)) = some (true, [(.inet 2 2, pingRequest.echo.encode)]))
  obtain ⟨cc, hcc, haccepted⟩ := RecvFrom.of_map (fun c : Ctx ClientState => c.state.accepted)
    (by decide +kernel : (recvFrom pingSystem.client.msMaxSize
        (pingSystem.client.handleMessage (.inet 1 1)) 3
        { raceStart.client with state := pingSent } pingRequest.echo.encode).map
        (fun r => (r.1, r.2.state.accepted)) = some (true, [pingRequest.echo.view]))
  have hserver : pingSystem.ToServer (pingAt pingSent (.transmitted true .sent)
      [pingRequest.encode]) pingRequest.encode :=
    ⟨pingRequest.encode, List.mem_singleton.mpr rfl, by decide +kernel⟩
  have h4 := ping_send.tail (.serverReceive rfl hserver (.inet 2 2) hcs)
  generalize hs : EchoState.mk _ _ _ _ _ _ _ _ _ = s at h4
  have hclient : s.client = { raceStart.client with state := pingSent } := by
    rw [← hs]
    rfl
  have hreplies : s.replies = [pingRequest.echo.encode] := by
    rw [← hs, EchoState.replies, hsent]
    rfl
  have harrives : pingSystem.ToClient s pingRequest.echo.encode := by
    refine ⟨pingRequest.echo.encode, List.mem_append_left _ ?_, ?_⟩
    · rw [hreplies]
      exact List.mem_singleton.mpr rfl
    · rw [hclient]
      decide +kernel
  have hcalm : s.Calm := by
    have hphase : s.phase = .transmitted true .sent := by rw [← hs]; rfl
    rw [EchoState.Calm, EchoState.counter, EchoState.swapped, hphase, hclient]
    decide +kernel
  have hunicast : pingSystem.Takes s pingRequest.echo.encode := fun h => by cases h
  have hup : EchoSystem.Running s := by
    rw [EchoSystem.Running, hclient]
    decide +kernel
  have hdown : s.clientDown = false := by rw [← hs]; rfl
  rw [← hclient] at hcc
  have h5 := h4.tail (.clientReceive hup hdown ⟨hcalm, hunicast⟩ harrives (.inet 1 1) hcc)
  exact ⟨_, h5, haccepted⟩

theorem echo_safety_ping : ∃ s, pingSystem.Initial (pingAt pingStart .idle []) ∧
    pingSystem.Run pingSystem.Calm (pingAt pingStart .idle []) s ∧
    s.client.state.accepted = [pingRequest.echo.view] ∧
    s.client.state.exited ≠ some .sequenceHigher := by
  obtain ⟨s, hrun, haccepted⟩ := ping_accepted
  have hinit : pingSystem.Initial (pingAt pingStart .idle []) :=
    ⟨rfl, rfl, rfl, rfl, rfl, rfl, rfl, rfl, rfl, rfl, rfl⟩
  exact ⟨s, hinit, hrun, haccepted, (echo_safety pingSystem hinit hrun).2.2.1⟩

end Sockperf
