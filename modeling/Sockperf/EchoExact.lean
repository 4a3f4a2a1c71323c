import Sockperf.EchoSafety
import Sockperf.StreamServer

/-!
# A connection loses nothing

On a stream the replies come back in the order of the requests. While nobody asks the two processes
to stop, the client takes one reply for each request that the server has read to its end and whose
reply it has read to its end, whatever pieces the streams are read in and however the sender and
the two receivers take turns.
-/

namespace Sockperf

open Memory While
set_option autoImplicit false

universe v
variable {γ : Type v}

/-! ## Messages of a stream -/

theorem WireMessage.encode_injective : Function.Injective WireMessage.encode := by
  intro w v h
  obtain ⟨hheader, hbody⟩ := List.append_inj h (by simp)
  have hhton := congrArg MsgHeader.ofBytes hheader
  rw [MsgHeader.ofBytes_bytes, MsgHeader.ofBytes_bytes] at hhton
  have hsame := congrArg MsgHeader.ntoh hhton
  rw [MsgHeader.ntoh_hton, MsgHeader.ntoh_hton] at hsame
  apply WireMessage.view_injective
  exact congrArg₂ MessageView.mk hsame hbody

theorem completed_isPrefix (ws : List WireMessage) (n : Nat) : completed ws n <+: ws := by
  induction ws generalizing n with
  | nil => exact List.prefix_rfl
  | cons w ws ih =>
    rw [completed]
    split
    · exact List.nil_prefix
    · exact (List.prefix_cons_inj w).mpr (ih _)

theorem completed_more {ws : List WireMessage} {n : Nat} (h : n ≤ (encodeAll ws).length)
    (vs : List WireMessage) : completed (ws ++ vs) n = completed ws n := by
  induction ws generalizing n with
  | nil =>
    rw [Nat.le_zero.mp h]
    exact completed_zero vs
  | cons w ws ih =>
    rw [encodeAll_cons, List.length_append, WireMessage.encode_length] at h
    rw [List.cons_append, completed, completed]
    split
    · rfl
    · rw [ih (by omega)]

theorem completed_all (ws : List WireMessage) : completed ws (encodeAll ws).length = ws := by
  have h := completed_append (d := ws) (partOf_zero [])
  rwa [List.append_nil, Nat.add_zero] at h

def WireMessage.asks (w : WireMessage) : Bool := w.counts && w.header.isPongRequest

theorem WireMessage.IsRequest.of_asks {w : WireMessage} (h : w.asks = true) : w.IsRequest := by
  simp only [WireMessage.asks, WireMessage.counts, Bool.and_eq_true, Bool.not_eq_true'] at h
  exact ⟨h.1.1, h.2, h.1.2⟩

theorem ServerParams.replies_eq {p : ServerParams} (h : p.dontReply = false)
    (ws : List WireMessage) :
    ws.flatMap p.replies = ((ws.filter WireMessage.asks).map WireMessage.echo).map
      WireMessage.encode := by
  induction ws with
  | nil => rfl
  | cons w ws ih =>
    rw [List.flatMap_cons, ih, ServerParams.replies, h, Bool.not_false, Bool.and_true,
      List.filter_cons, show (w.counts && w.header.isPongRequest) = w.asks from rfl]
    by_cases hasks : w.asks = true
    · rw [if_pos hasks, if_pos hasks]
      rfl
    · rw [if_neg hasks, if_neg hasks]
      rfl

theorem MsgHeader.isWarmupMessage_setServer (h : MsgHeader) :
    h.setServer.isWarmupMessage = h.isWarmupMessage := by
  have : h.flags &&& ~~~maskClient &&& maskWarmupMsg = h.flags &&& maskWarmupMsg := by
    rw [UInt16.and_assoc, show ~~~maskClient &&& maskWarmupMsg = maskWarmupMsg by decide]
  simp [isWarmupMessage, setServer, this]

/-! ## The replies that a client takes -/

def WireMessage.block (replyEvery : Nat) (w : WireMessage) : Nat :=
  w.header.sequenceNumber.toNat / replyEvery

/-- What the client did with the replies `new`. -/
structure ClientState.Took (s : ClientState) (new : List WireMessage) (s' : ClientState) :
    Prop where
  request : s'.request = s.request
  maxSequenceNo : s'.times.maxSequenceNo = s.times.maxSequenceNo
  replyEvery : s'.times.replyEvery = s.times.replyEvery
  exited : s'.exited = s.exited
  accepted : s'.accepted = s.accepted ++ new.map WireMessage.view
  rx : ∀ i k, s'.times.rx i k ≠ 0 → s.times.rx i k ≠ 0 ∨
    ∃ w ∈ new, w.block s.times.replyEvery = i
  count : (∀ w ∈ new, s.times.rx (w.block s.times.replyEvery) 0 = 0) →
    (new.map (WireMessage.block s.times.replyEvery)).Nodup →
    s'.receiveCount = s.receiveCount + new.length

section Client
variable {clt : Client} {s s' s'' : ClientState} {new new' : List WireMessage} {w : WireMessage}
  {m : Mem} {msg : Message}

theorem ClientState.Took.refl : s.Took [] s :=
  ⟨rfl, rfl, rfl, rfl, by simp, fun _ _ h => Or.inl h, fun _ _ => rfl⟩

theorem ClientState.Took.trans (h : s.Took new s') (h' : s'.Took new' s'') :
    s.Took (new ++ new') s'' where
  request := h'.request.trans h.request
  maxSequenceNo := h'.maxSequenceNo.trans h.maxSequenceNo
  replyEvery := h'.replyEvery.trans h.replyEvery
  exited := h'.exited.trans h.exited
  accepted := by rw [h'.accepted, h.accepted, List.map_append, List.append_assoc]
  rx := by
    intro i k hk
    rcases h'.rx i k hk with hold | ⟨w, hw, hi⟩
    · rcases h.rx i k hold with hold | ⟨w, hw, hi⟩
      · exact Or.inl hold
      · exact Or.inr ⟨w, List.mem_append_left new' hw, hi⟩
    · rw [h.replyEvery] at hi
      exact Or.inr ⟨w, List.mem_append_right new hw, hi⟩
  count := by
    intro hfree hnodup
    rw [List.map_append, List.nodup_append] at hnodup
    obtain ⟨hfirst, hsecond, hcross⟩ := hnodup
    have hone := h.count (fun w hw => hfree w (List.mem_append_left new' hw)) hfirst
    have htwo := h'.count (by
      intro w hw
      by_contra hne
      rw [h.replyEvery] at hne
      rcases h.rx _ _ hne with hold | ⟨u, hu, hblock⟩
      · exact hold (hfree w (List.mem_append_right new hw))
      · exact hcross _ (List.mem_map_of_mem hu) _ (List.mem_map_of_mem hw) hblock)
      (by rw [h.replyEvery]; exact hsecond)
    rw [htwo, hone, List.length_append]
    omega

structure WireMessage.Expected (w : WireMessage) (s : ClientState) : Prop where
  server : w.header.isClient = false
  regular : w.header.isWarmupMessage = false
  sent : w.header.sequenceNumber ≤ s.request.sequenceNumber
  inside : w.header.sequenceNumber.toNat ≤ s.times.maxSequenceNo

theorem WireMessage.Expected.took (h : w.Expected s) (took : s.Took new s') : w.Expected s' :=
  ⟨h.server, h.regular, by rw [took.request]; exact h.sent,
    by rw [took.maxSequenceNo]; exact h.inside⟩

/-- A client of one server that is not asked to stop and does not compare the contents. -/
structure Client.Plain (clt : Client) : Prop where
  unicast : clt.isMulticast = false
  unchecked : clt.dataIntegrity = false
  undisturbed : ∀ n, (clt.outside n).exit = false

theorem Client.Plain.getServerId (plain : clt.Plain) (addr : IPAddress)
    (servers : List IPAddress) : clt.getServerId addr servers = (some 0, servers) := by
  unfold Client.getServerId
  rw [plain.unicast]
  split
  · rfl
  · rfl

theorem PacketTimes.setRxTime_of_le {t : PacketTimes} {seqNo : Nat}
    (h : seqNo ≤ t.maxSequenceNo) (time : TicksTime) :
    ∃ t' counted, t.setRxTime seqNo time 0 false = some (t', counted) ∧
      (t.rx (seqNo / t.replyEvery) 0 = 0 → counted = true) := by
  unfold PacketTimes.setRxTime
  rw [PacketTimes.seq2index_eq_some.mpr ⟨h, rfl⟩, Option.map_some]
  by_cases hfree : t.rx (seqNo / t.replyEvery) 0 = 0
  · rw [if_pos hfree]
    exact ⟨_, true, rfl, fun _ => rfl⟩
  · rw [if_neg hfree]
    exact ⟨_, false, rfl, fun h => absurd h hfree⟩

variable (plain : clt.Plain)
include plain

theorem Client.handleMessage_takes (src : SockAddr)
    (hv : msg.isValidHeader clt.msMaxSize m = true) (hw : msg.view clt.msMaxSize m = w.view)
    (expected : w.Expected s) :
    (clt.handleMessage src m msg s).1 = true ∧
      s.Took [w] (clt.handleMessage src m msg s).2.2 := by
  have hheader := header_of_view hw
  have hseq : msg.getSequenceCounter m = w.header.sequenceNumber := by
    rw [Message.getSequenceCounter, hheader]
  have hcounts : clt.Counts m msg s := by
    refine ⟨hv, ?_, ?_, ?_⟩
    · rw [hseq]
      exact expected.sent
    · rw [hheader]
      exact expected.server
    · rw [hheader]
      exact expected.regular
  rw [Client.handleMessage_counts src hcounts (plain.undisturbed s.handled)]
  obtain ⟨times, counted, hset, hcounted⟩ := PacketTimes.setRxTime_of_le expected.inside
    (clt.outside s.handled).now
  obtain ⟨hmax, hevery, -, hrx⟩ := PacketTimes.setRxTime_spec hset
  unfold Client.countReply
  simp only [plain.getServerId, hseq, hset, plain.unchecked, Bool.false_eq_true, if_false]
  refine ⟨trivial, rfl, hmax, hevery, rfl, by rw [hw]; rfl, ?_, ?_⟩
  · intro i k hk
    rcases hrx i k hk with hold | hi
    · exact Or.inl hold
    · exact Or.inr ⟨w, List.mem_singleton_self w, hi.symm⟩
  · intro hfree _
    rw [if_pos (hcounted (hfree w (List.mem_singleton_self w))), List.length_singleton]

theorem Client.handleMessage_callback (src : SockAddr) {all : List WireMessage}
    (expected : ∀ w ∈ all, w.Expected s) (old : List WireMessage) :
    CallbackOk clt.msMaxSize (clt.handleMessage src) (all.map WireMessage.view)
      (Since old s.Took) fun _ => False := by
  refine callbackOk_since (fun _ _ _ _ hx => clt.handleMessage_outside src hx) ?_ old
  intro new s' m msg w hmem hv hw hnew
  obtain ⟨htrue, hone⟩ := Client.handleMessage_takes plain src hv hw ((expected w hmem).took hnew)
  exact ⟨htrue, hnew.trans hone⟩

end Client

section Counters
variable (clt : Client) (c : ClientState)

/-- Not by `rfl`, which would compare the two headers byte by byte. -/
theorem Client.setHeaderToHost_count :
    (Client.setHeaderToHost c).receiveCount = c.receiveCount := by
  dsimp only [Client.setHeaderToHost]

theorem Client.prepareSend_count (now : TicksTime) :
    (clt.prepareSend c now).receiveCount = c.receiveCount := by
  unfold Client.prepareSend Client.setHeaderToNetwork
  split
  · dsimp only
    split
    · rfl
    · rfl
  · rfl

theorem Client.afterSend_count (pong : Bool) (result : SendResult) :
    (clt.afterSend c pong result).receiveCount = c.receiveCount := by
  unfold Client.afterSend
  split
  · split
    · split
      · rfl
      · rfl
    · rfl
  · rfl

end Counters

/-! ## The connection -/

namespace EchoSystem
variable {sys : EchoSystem γ} {s s' : EchoState γ} {reqs replies : List WireMessage}

/-- TCP, and nobody asks the two processes to stop. -/
structure Reliable (sys : EchoSystem γ) : Prop where
  stream : sys.stream = true
  client : sys.client.Plain
  server : sys.server.Undisturbed
  replies : sys.server.params.dontReply = false

def answers (reqs : List WireMessage) (n : Nat) : List WireMessage :=
  ((completed reqs n).filter WireMessage.asks).map WireMessage.echo

variable (sys) in
structure Matched (s : EchoState γ) (reqs : List WireMessage) : Prop where
  inv : sys.Inv s reqs (answers reqs s.readByServer)
  up : s.serverDown = false
  listening : s.clientDown = false
  exited : s.client.state.exited = none ∨ s.client.state.exited = some .verifyError
  increasing : reqs.Pairwise fun v w =>
    v.header.sequenceNumber.toNat < w.header.sequenceNumber.toNat
  inside : ∀ w ∈ reqs, w.IsRequest → w.header.sequenceNumber.toNat ≤ sys.maxSequenceNo
  accepted : s.client.state.accepted =
    (completed (answers reqs s.readByServer) s.readByClient).map WireMessage.view
  count : s.client.state.receiveCount =
    (completed (answers reqs s.readByServer) s.readByClient).length
  rx : ∀ i k, s.client.state.times.rx i k ≠ 0 →
    ∃ w ∈ completed (answers reqs s.readByServer) s.readByClient,
      w.block sys.client.replyEvery = i

theorem answers_append (reqs new : List WireMessage) {n k : Nat}
    (h : completed reqs (n + k) = completed reqs n ++ new) :
    answers reqs (n + k) =
      answers reqs n ++ (new.filter WireMessage.asks).map WireMessage.echo := by
  rw [answers, answers, h, List.filter_append, List.map_append]

theorem mem_answers {n : Nat} {w : WireMessage} (h : w ∈ answers reqs n) :
    ∃ q ∈ reqs, q.IsRequest ∧ w = q.echo := by
  obtain ⟨q, hq, rfl⟩ := List.mem_map.mp h
  obtain ⟨hmem, hasks⟩ := List.mem_filter.mp hq
  exact ⟨q, (completed_isPrefix reqs n).subset hmem, .of_asks hasks, rfl⟩

theorem Inv.pin {reqs' replies' : List WireMessage} (h : sys.Inv s reqs' replies')
    (hc : s.clientSent = reqs.map WireMessage.encode)
    (hr : s.replies = replies.map WireMessage.encode) : sys.Inv s reqs replies := by
  obtain rfl : reqs' = reqs :=
    WireMessage.encode_injective.list_map (h.clientSent.symm.trans hc)
  obtain rfl : replies' = replies :=
    WireMessage.encode_injective.list_map (h.serverSent.symm.trans hr)
  exact h

theorem Inv.flatten_sent (h : sys.Inv s reqs replies) : s.clientSent.flatten = encodeAll reqs := by
  rw [h.clientSent]
  rfl

theorem Inv.flatten_replies (h : sys.Inv s reqs replies) :
    s.replies.flatten = encodeAll replies := by
  rw [h.serverSent]
  rfl

section Links
variable (h : sys.Matched s reqs) (stream : sys.stream = true)
include h stream

theorem Matched.serverLink : s.readByServer ≤ (encodeAll reqs).length ∧
    sys.serverWindow.Parked reqs ((encodeAll reqs).drop s.readByServer) s.server := by
  have hlink := h.inv.serverLink h.up
  unfold Link at hlink
  rwa [if_pos stream] at hlink

theorem Matched.clientLink :
    s.readByClient ≤ (encodeAll (answers reqs s.readByServer)).length ∧
      sys.clientWindow.Parked (answers reqs s.readByServer)
        ((encodeAll (answers reqs s.readByServer)).drop s.readByClient) s.client := by
  have hlink := h.inv.clientLink h.listening
  unfold Link at hlink
  rwa [if_pos stream] at hlink

end Links

theorem Matched.blocks_nodup (h : sys.Matched s reqs) (n : Nat) :
    ((answers reqs n).map (WireMessage.block sys.client.replyEvery)).Nodup := by
  have hsub : ((completed reqs n).filter WireMessage.asks).Sublist reqs :=
    List.filter_sublist.trans (completed_isPrefix reqs n).sublist
  have hpairs := h.increasing.sublist hsub
  unfold answers
  rw [List.map_map, List.Nodup, List.pairwise_map]
  apply hpairs.imp_of_mem
  intro v w hv hw hlt heq
  have hevery : ∀ u ∈ (completed reqs n).filter WireMessage.asks,
      sys.client.replyEvery ∣ u.header.sequenceNumber.toNat := by
    intro u hu
    apply Nat.dvd_of_mod_eq_zero
    exact (h.inv.requests u (hsub.subset hu)).every (.of_asks (List.mem_filter.mp hu).2)
  have hsame : v.header.sequenceNumber.toNat / sys.client.replyEvery =
      w.header.sequenceNumber.toNat / sys.client.replyEvery := heq
  have hv' := Nat.div_mul_cancel (hevery v hv)
  have hw' := Nat.div_mul_cancel (hevery w hw)
  rw [hsame] at hv'
  omega

/-! ## The sender -/

theorem Matched.quiet (h : sys.Matched s reqs) {c : ClientState} {phase : Phase}
    (hstep : sys.Step sys.Calm s
      { s with client := { s.client with state := c }, phase := phase })
    (quiet : s.client.state.Quiet c) (count : c.receiveCount = s.client.state.receiveCount) :
    sys.Matched { s with client := { s.client with state := c }, phase := phase } reqs := by
  obtain ⟨_, _, hinv⟩ := h.inv.step hstep
  refine ⟨hinv.pin h.inv.clientSent h.inv.serverSent, h.up, h.listening, ?_, h.increasing,
    h.inside, quiet.accepted.trans h.accepted, count.trans h.count, ?_⟩
  · rcases quiet.exited with he | he
    · rw [he]
      exact h.exited
    · exact Or.inr he
  · intro i k hk
    rw [quiet.rx] at hk
    exact h.rx i k hk

/-- The message that goes out has a higher number than those before it, and the table has a block
for it if it asks for a reply. -/
theorem Sending.newer {pong : Bool} {length : Nat} {r : MsgHeader} {w : WireMessage}
    (h : sys.Sending reqs (.network pong length) r)
    (hw : (r.bytes ++ sys.payload).take length = w.encode) (hrequest : sys.Request w) :
    (∀ v ∈ reqs, v.header.sequenceNumber.toNat < w.header.sequenceNumber.toNat) ∧
      (w.IsRequest → w.header.sequenceNumber.toNat ≤ sys.maxSequenceNo) := by
  cases h with
  | @network seq length h hh fits old room bounded =>
    have hbytes := congrArg (List.take effectiveSize) hw
    have hlow : effectiveSize ≤ length.toNat := fits.1
    rw [List.take_take, Nat.min_eq_left hlow, WireMessage.encode,
      List.take_left' (MsgHeader.bytes_length _), List.take_left' (MsgHeader.bytes_length _)]
      at hbytes
    have hhton := congrArg MsgHeader.ofBytes hbytes
    rw [MsgHeader.ofBytes_bytes, MsgHeader.ofBytes_bytes] at hhton
    have hheader := congrArg MsgHeader.ntoh hhton
    rw [MsgHeader.ntoh_hton, MsgHeader.ntoh_hton] at hheader
    have hseq : w.header.sequenceNumber.toNat = seq.toNat + 1 := by
      rw [← hheader, (sys.client.outgoing_fields _ h).1, hh, old.succ]
    constructor
    · intro v hv
      have := bounded v hv
      omega
    · intro hasks
      have hdvd := Nat.dvd_of_mod_eq_zero (hrequest.every hasks)
      rw [hseq] at hdvd ⊢
      unfold Room at room
      rwa [Nat.div_mul_cancel hdvd] at room

theorem Matched.restore (h : sys.Matched s reqs) (up : Running s) {pong : Bool}
    {result : SendResult} (transmitted : s.phase = .transmitted pong result) :
    sys.Matched { s.setClient Client.setHeaderToHost with phase := .restored pong result }
      reqs := by
  have hstep : sys.Step sys.Calm s _ := .restore up transmitted
  have hcount := Client.setHeaderToHost_count s.client.state
  have hquiet := Client.quiet_setHeaderToHost (s := s.client.state)
  unfold EchoState.setClient at hstep ⊢
  generalize Client.setHeaderToHost s.client.state = c at hstep hcount hquiet ⊢
  exact h.quiet hstep hquiet hcount

theorem Matched.finish (h : sys.Matched s reqs) (up : Running s) {pong : Bool}
    {result : SendResult} (restored : s.phase = .restored pong result) :
    sys.Matched { s.setClient fun c =>
      sys.client.afterSendPacket (sys.client.afterSend c pong result) result with
        phase := .idle } reqs := by
  have hs := h.inv.sending up
  rw [restored] at hs
  obtain ⟨seq, length, hreq, hresult⟩ := hs.finish
  obtain ⟨quiet, -⟩ := sys.client.afterSend_spec result hreq
  have hcount := sys.client.afterSend_count s.client.state pong result
  rcases hresult with ⟨rfl, -⟩ | ⟨rfl, -⟩
  · exact h.quiet (.finish up restored) quiet hcount
  · exact h.quiet (.finish up restored) ⟨quiet.payload, quiet.accepted, quiet.maxSequenceNo,
      quiet.replyEvery, quiet.rx, quiet.exited⟩ hcount

theorem Matched.send (h : sys.Matched s reqs) (stream : sys.stream = true) {pong : Bool}
    {length : Nat} (up : Running s) (network : s.phase = .network pong length) :
    ∃ reqs', sys.Matched { s with
      clientSent := s.clientSent ++ [Client.wireBytes s.client.state length]
      phase := .transmitted pong .sent } reqs' := by
  have hs := h.inv.sending up
  rw [network] at hs
  obtain ⟨w, hw, hrequest, -⟩ := hs.send
  obtain ⟨hnewer, hinside⟩ := hs.newer hw hrequest
  obtain ⟨_, _, hinv⟩ := h.inv.step (.send up network)
  have hwire : Client.wireBytes s.client.state length = w.encode := by
    rw [Client.wireBytes, h.inv.safe.payload, hw]
  have hsent : s.clientSent ++ [Client.wireBytes s.client.state length] =
      (reqs ++ [w]).map WireMessage.encode := by
    rw [hwire, h.inv.clientSent, List.map_append, List.map_singleton]
  have hanswers : answers (reqs ++ [w]) s.readByServer = answers reqs s.readByServer := by
    rw [answers, answers, completed_more (h.serverLink stream).1]
  refine ⟨reqs ++ [w], ?_, h.up, h.listening, h.exited, ?_, ?_, ?_, ?_, ?_⟩
  · rw [hanswers]
    exact hinv.pin hsent h.inv.serverSent
  · rw [List.pairwise_append]
    refine ⟨h.increasing, List.pairwise_singleton _ _, ?_⟩
    intro v hv w' hw'
    rw [List.mem_singleton.mp hw']
    exact hnewer v hv
  · intro v hv
    rcases List.mem_append.mp hv with hv | hv
    · exact h.inside v hv
    · rw [List.mem_singleton.mp hv]
      exact hinside
  · rw [hanswers]
    exact h.accepted
  · rw [hanswers]
    exact h.count
  · rw [hanswers]
    exact h.rx

/-! ## The receivers -/

theorem Arrives.split {written : List UInt8} {datagrams : List (List UInt8)} {size : Int}
    {bs : List UInt8} (h : sys.Arrives written datagrams size bs) (stream : sys.stream = true) :
    bs.length ≤ size ∧ ∃ future, written = bs ++ future := by
  unfold Arrives at h
  rw [if_pos stream] at h
  obtain ⟨-, hle, future, hfuture⟩ := h
  exact ⟨hle, future, hfuture.symm⟩

theorem Matched.expected (h : sys.Matched s reqs) (up : Running s) (calm : s.Calm) :
    ∀ w ∈ answers reqs s.readByServer, w.Expected s.client.state := by
  intro w hw
  obtain ⟨q, hq, hasks, rfl⟩ := mem_answers hw
  have hbounded := (h.inv.sending up).bounded calm
  refine ⟨q.header.isClient_setServer, ?_, ?_, ?_⟩
  · exact q.header.isWarmupMessage_setServer.trans hasks.warm
  · rw [UInt64.le_iff_toNat_le]
    exact hbounded q hq
  · rw [h.inv.safe.maxSequenceNo]
    exact h.inside q hq hasks

section Receive
variable (reliable : sys.Reliable) (h : sys.Matched s reqs)
include reliable h

theorem Matched.serverReceive {bs : List UInt8} (arrives : sys.ToServer s bs) (src : SockAddr)
    {ok : Bool} {c : Ctx (ServerState γ)}
    (received : RecvFrom sys.server.msMaxSize (sys.server.handleMessage src) s.server bs ok c) :
    sys.Matched { s with
      server := c, readByServer := s.readByServer + bs.length, serverDown := !ok } reqs := by
  obtain ⟨hle, future, hfuture⟩ := Arrives.split arrives reliable.stream
  rw [h.inv.flatten_sent] at hfuture
  obtain ⟨hread, hparked⟩ := h.serverLink reliable.stream
  obtain ⟨hreadc, -⟩ := h.clientLink reliable.stream
  have fits : ∀ w ∈ reqs, (w.size : Int) ≤ sys.serverWindow.msMaxSize := by
    intro w hw
    exact (h.inv.requests w hw).range.2.2.trans sys.serverWindow.le_msMaxSize
  have hdone := completed_add reqs s.readByServer bs.length
  obtain ⟨c', hr, -, -, hnew⟩ := Server.receive_stream sys.server
    sys.server_max.symm sys.no_bridge reliable.server fits hread hfuture hparked hle src
  cases hr.unique received
  obtain ⟨_, _, hinv⟩ := h.inv.step (.serverReceive h.up arrives src received)
  have hanswers := answers_append reqs _ hdone
  have hmore : completed (answers reqs (s.readByServer + bs.length)) s.readByClient =
      completed (answers reqs s.readByServer) s.readByClient := by
    rw [hanswers, completed_more hreadc]
  have hreplies : c.state.sent.map Prod.snd =
      (answers reqs (s.readByServer + bs.length)).map WireMessage.encode := by
    rw [hnew.sent, ServerParams.replies_eq reliable.replies, hanswers, List.map_append]
    exact congrArg (· ++ _) h.inv.serverSent
  refine ⟨hinv.pin h.inv.clientSent hreplies, rfl, h.listening, h.exited, h.increasing, h.inside,
    ?_, ?_, ?_⟩
  · exact h.accepted.trans (congrArg _ hmore.symm)
  · exact h.count.trans (congrArg _ hmore.symm)
  · intro i k hk
    dsimp only
    rw [hmore]
    exact h.rx i k hk

theorem Matched.clientReceive (up : Running s) {bs : List UInt8} (calm : sys.Calm s bs)
    (arrives : sys.ToClient s bs) (src : SockAddr) {ok : Bool} {c : Ctx ClientState}
    (received : RecvFrom sys.client.msMaxSize (sys.client.handleMessage src) s.client bs ok c) :
    sys.Matched { s with
      client := c, readByClient := s.readByClient + bs.length, clientDown := !ok } reqs := by
  obtain ⟨hle, future, hfuture⟩ := Arrives.split arrives reliable.stream
  rw [h.inv.flatten_replies] at hfuture
  obtain ⟨hread, hparked⟩ := h.clientLink reliable.stream
  have hexpected := h.expected up calm.1
  have fits : ∀ w ∈ answers reqs s.readByServer,
      (w.size : Int) ≤ sys.clientWindow.msMaxSize := by
    intro w hw
    obtain ⟨q, hq, -, rfl⟩ := mem_answers hw
    exact (h.inv.requests q hq).range.2.1.trans sys.clientWindow.le_msMaxSize
  have hcb := fun d => Client.handleMessage_callback reliable.client src hexpected d
  rw [sys.client_max] at hcb received
  have hdone := completed_add (answers reqs s.readByServer) s.readByClient bs.length
  obtain ⟨c', hr, -, -, htook⟩ := hparked.receive (s.client.state.Took) .refl hcb fits hread hfuture
    hle
  cases hr.unique received
  rw [← sys.client_max] at received
  obtain ⟨_, _, hinv⟩ := h.inv.step (.clientReceive up h.listening calm arrives src received)
  have hevery := h.inv.safe.replyEvery
  -- no reply has the block of another one
  have hblocks := h.blocks_nodup s.readByServer
  have hprefix := (completed_isPrefix (answers reqs s.readByServer)
    (s.readByClient + bs.length)).map (WireMessage.block sys.client.replyEvery)
  have hnodup := hblocks.sublist hprefix.sublist
  rw [hdone, List.map_append, List.nodup_append] at hnodup
  obtain ⟨-, hnew, hcross⟩ := hnodup
  have hfree : ∀ w ∈ arrived (answers reqs s.readByServer) s.readByClient bs.length,
      s.client.state.times.rx (w.block s.client.state.times.replyEvery) 0 = 0 := by
    intro w hw
    by_contra hne
    rw [hevery] at hne
    obtain ⟨u, hu, hblock⟩ := h.rx _ _ hne
    exact hcross _ (List.mem_map_of_mem hu) _ (List.mem_map_of_mem hw) hblock
  have hcount := htook.count hfree (by rw [hevery]; exact hnew)
  refine ⟨hinv.pin h.inv.clientSent h.inv.serverSent, h.up, rfl, ?_, h.increasing, h.inside,
    ?_, ?_, ?_⟩
  · dsimp only
    rw [htook.exited]
    exact h.exited
  · dsimp only
    rw [htook.accepted, hdone, List.map_append, h.accepted]
  · dsimp only
    rw [hcount, hdone, List.length_append, h.count]
  · intro i k hk
    dsimp only at hk ⊢
    rw [hdone]
    rcases htook.rx i k hk with hold | ⟨w, hw, hi⟩
    · obtain ⟨u, hu, hi⟩ := h.rx i k hold
      exact ⟨u, List.mem_append_left _ hu, hi⟩
    · rw [hevery] at hi
      exact ⟨w, List.mem_append_right _ hw, hi⟩

theorem Matched.step (hstep : sys.Step sys.Calm s s') : ∃ reqs', sys.Matched s' reqs' := by
  cases hstep with
  | setLength up idle length fits =>
    exact ⟨reqs, h.quiet (.setLength up idle length fits) (Client.quiet_of_request _) rfl⟩
  | count up idle => exact ⟨reqs, h.quiet (.count up idle) (Client.quiet_of_request _) rfl⟩
  | prepare up counted now =>
    exact ⟨reqs, h.quiet (.prepare up counted now) (sys.client.prepareSend_spec now).1
      (sys.client.prepareSend_count _ now)⟩
  | send up network => exact h.send reliable.stream up network
  | skip up network => exact ⟨reqs, h.quiet (.skip up network) (Client.quiet_of_request _) rfl⟩
  | restore up transmitted =>
    exact ⟨reqs, h.restore up transmitted⟩
  | finish up restored => exact ⟨reqs, h.finish up restored⟩
  | clientWarmup up idle multicast sent =>
    cases (sys.stream_unicast reliable.stream).symm.trans multicast
  | serverWarmup multicast =>
    cases (sys.stream_unicast reliable.stream).symm.trans multicast
  | serverReceive up arrives src received =>
    exact ⟨reqs, Matched.serverReceive reliable h arrives src received⟩
  | clientReceive up listening allowed arrives src received =>
    exact ⟨reqs, Matched.clientReceive reliable h up allowed arrives src received⟩

end Receive

theorem Initial.matched (h : sys.Initial s) (up : s.serverDown = false)
    (listening : s.clientDown = false) : sys.Matched s [] := by
  have hstate := h.client
  refine ⟨h.inv, up, listening, ?_, List.Pairwise.nil, ?_, ?_, ?_, ?_⟩
  · rw [hstate]
    exact Or.inl rfl
  · intro w hw
    cases hw
  · rw [hstate]
    rfl
  · rw [hstate]
    rfl
  · rw [hstate]
    intro i k hk
    exact absurd rfl hk

theorem Run.matched {s₀ : EchoState γ} (reliable : sys.Reliable) (h : sys.Matched s₀ [])
    (run : sys.Run sys.Calm s₀ s) : ∃ reqs, sys.Matched s reqs := by
  induction run with
  | refl => exact ⟨[], h⟩
  | tail _ hstep ih =>
    obtain ⟨reqs, hmatched⟩ := ih
    exact Matched.step reliable hmatched hstep

end EchoSystem

open EchoSystem in
/-- Requests and replies on a stream. The server has replied to the requests that it read to their
end, in their order, and the client has taken the replies that it read to their end, in their order
and each of them once. When both have read everything, each request has its reply. Neither side
drops a message, and the client can only leave because its table is full. -/
theorem echo_exact (sys : EchoSystem γ) (reliable : sys.Reliable) {s₀ s : EchoState γ}
    (start : sys.Initial s₀) (up : s₀.serverDown = false ∧ s₀.clientDown = false)
    (run : sys.Run sys.Calm s₀ s) :
    ∃ reqs : List WireMessage, s.clientSent = reqs.map WireMessage.encode ∧
      (reqs.Pairwise fun v w =>
        v.header.sequenceNumber.toNat < w.header.sequenceNumber.toNat) ∧
      s.replies = (answers reqs s.readByServer).map WireMessage.encode ∧
      s.client.state.accepted =
        (completed (answers reqs s.readByServer) s.readByClient).map WireMessage.view ∧
      s.client.state.receiveCount = s.client.state.accepted.length ∧
      (s.client.state.exited = none ∨ s.client.state.exited = some .verifyError) ∧
      s.serverDown = false ∧ s.clientDown = false ∧
      (s.readByServer = s.clientSent.flatten.length → s.readByClient = s.replies.flatten.length →
        s.client.state.accepted =
          (reqs.filter WireMessage.asks).map fun w => w.echo.view) := by
  obtain ⟨reqs, h⟩ := EchoSystem.Run.matched reliable (start.matched up.1 up.2) run
  refine ⟨reqs, h.inv.clientSent, h.increasing, h.inv.serverSent, h.accepted, ?_, h.exited, h.up,
    h.listening, ?_⟩
  · rw [h.count, h.accepted, List.length_map]
  · intro hserver hclient
    rw [h.inv.flatten_sent] at hserver
    rw [h.inv.flatten_replies] at hclient
    have hall : answers reqs s.readByServer =
        (reqs.filter WireMessage.asks).map WireMessage.echo := by
      rw [answers, hserver, completed_all]
    rw [h.accepted, hclient, completed_all, hall, List.map_map]
    rfl

def tcpPing : EchoSystem Unit := { pingSystem with
  stream := true
  stream_unicast := fun _ => rfl }

theorem tcpPing_reliable : tcpPing.Reliable :=
  ⟨rfl, ⟨rfl, rfl, fun _ => rfl⟩, fun _ => ⟨rfl, rfl⟩, rfl⟩

theorem tcpPing_initial : tcpPing.Initial (pingAt pingStart .idle []) :=
  ⟨rfl, rfl, rfl, rfl, rfl, rfl, rfl, rfl, rfl, rfl, rfl⟩

theorem tcpPing_send : tcpPing.Run tcpPing.Calm (pingAt pingStart .idle [])
    (pingAt pingSent (.transmitted true .sent) [pingRequest.encode]) := by
  have hcount : tcpPing.Step tcpPing.Calm (pingAt pingStart .idle [])
    (pingAt (Client.incSequenceCounter pingStart) .counted []) := .count rfl rfl
  have hup : EchoSystem.Running (pingAt (Client.incSequenceCounter pingStart) .counted []) := rfl
  have hprepare : tcpPing.Step tcpPing.Calm
    (pingAt (Client.incSequenceCounter pingStart) .counted [])
    (pingAt pingSent (.network true 14) []) := .prepare hup rfl 5
  have hup' : EchoSystem.Running (pingAt pingSent (.network true 14) []) :=
    (by decide +kernel : pingSent.exited = none)
  have hwire : Client.wireBytes pingSent 14 = pingRequest.encode := by decide +kernel
  have hsend : tcpPing.Step tcpPing.Calm (pingAt pingSent (.network true 14) [])
    (pingAt pingSent (.transmitted true .sent) [Client.wireBytes pingSent 14]) := .send hup' rfl
  rw [hwire] at hsend
  exact ((Relation.ReflTransGen.single hcount).tail hprepare).tail hsend

theorem echo_exact_ping : ∃ s, tcpPing.Run tcpPing.Calm (pingAt pingStart .idle []) s ∧
    s.client.state.accepted = [pingRequest.echo.view] ∧ s.client.state.receiveCount = 1 := by
  obtain ⟨cs, hcs, hsent⟩ := RecvFrom.of_map (fun c : Ctx (ServerState Unit) => c.state.sent)
    (by decide +kernel : (recvFrom tcpPing.server.msMaxSize
        (tcpPing.server.handleMessage (.inet 2 2)) 3 raceStart.server pingRequest.encode).map
        (fun r => (r.1, r.2.state.sent)) = some (true, [(.inet 2 2, pingRequest.echo.encode)]))
  obtain ⟨cc, hcc, -⟩ := RecvFrom.of_map (fun c : Ctx ClientState => c.state.exited)
    (by decide +kernel : (recvFrom tcpPing.client.msMaxSize
        (tcpPing.client.handleMessage (.inet 1 1)) 3
        { raceStart.client with state := pingSent } pingRequest.echo.encode).map
        (fun r => (r.1, r.2.state.exited)) = some (true, none))
  have hserver : tcpPing.ToServer (pingAt pingSent (.transmitted true .sent)
      [pingRequest.encode]) pingRequest.encode :=
    ⟨by decide +kernel, by decide +kernel, [], by decide +kernel⟩
  have hone := tcpPing_send.tail (.serverReceive rfl hserver (.inet 2 2) hcs)
  generalize hs : EchoState.mk _ _ _ _ _ _ _ _ _ = s at hone
  have hclient : s.client = { raceStart.client with state := pingSent } := by
    rw [← hs]
    rfl
  have hreplies : s.replies = [pingRequest.echo.encode] := by
    rw [← hs, EchoState.replies, hsent]
    rfl
  have hread : s.readByClient = 0 := by
    rw [← hs]
    rfl
  have harrives : tcpPing.ToClient s pingRequest.echo.encode := by
    unfold EchoSystem.ToClient
    rw [hreplies, hclient, hread]
    exact ⟨by decide +kernel, by decide +kernel, [], by decide +kernel⟩
  have hcalm : s.Calm := by
    have hphase : s.phase = .transmitted true .sent := by rw [← hs]; rfl
    rw [EchoState.Calm, EchoState.counter, EchoState.swapped, hphase, hclient]
    decide +kernel
  have hup : EchoSystem.Running s := by
    rw [EchoSystem.Running, hclient]
    decide +kernel
  have hdown : s.clientDown = false := by rw [← hs]; rfl
  rw [← hclient] at hcc
  have htwo := hone.tail (.clientReceive hup hdown ⟨hcalm, fun h => by cases h⟩ harrives
    (.inet 1 1) hcc)
  obtain ⟨reqs, hreqs, -, -, -, hcount, -, -, -, hdone⟩ :=
    echo_exact tcpPing tcpPing_reliable tcpPing_initial ⟨rfl, rfl⟩ htwo
  have hwire : s.clientSent = [pingRequest].map WireMessage.encode := by rw [← hs]; rfl
  obtain rfl : reqs = [pingRequest] :=
    WireMessage.encode_injective.list_map (hreqs.symm.trans hwire)
  have hdone' := hdone (by
    show s.readByServer = s.clientSent.flatten.length
    rw [hwire, ← hs]
    show 0 + pingRequest.encode.length = _
    decide +kernel)
  have haccepted := hdone' (by
    show s.readByClient + pingRequest.echo.encode.length = s.replies.flatten.length
    rw [hreplies, hread]
    decide +kernel)
  refine ⟨_, htwo, haccepted.trans (by decide +kernel), hcount.trans ?_⟩
  rw [haccepted]
  decide +kernel

end Sockperf
