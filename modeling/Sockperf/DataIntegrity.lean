import Sockperf.EchoSafety

/-!
# The data integrity test

With `--data_integrity` every reply is compared with the request buffer as it stands when the reply
is handled. In ping-pong mode the buffer holds the last request, so the test is about the reply to
that request only: any other reply fails it, however well it was echoed.
-/

namespace Sockperf

open Memory While ByteOrder
set_option autoImplicit false

universe v
variable {γ : Type v}

/-! ## One message -/

/-- The bytes of the message differ from the request somewhere inside its length, not counting the
client flag. -/
def Client.Differs (m : Mem) (msg : Message) (s : ClientState) : Prop :=
  load (msg.setClient m) msg.addr s.request.length.toNat ≠
    (s.request.bytes ++ s.payload).take s.request.length.toNat

structure Client.Tests (clt : Client) : Prop where
  integrity : clt.dataIntegrity = true
  oneServer : clt.workWithSrvNum = 1

section Handle
variable {clt : Client} {recvfromAddr : SockAddr} {m : Mem} {msg : Message} {s : ClientState}

variable (recvfromAddr) in
theorem Client.handleMessage_tests (ht : clt.Tests) (h : clt.Counts m msg s)
    (hexit : (clt.outside s.handled).exit = false)
    (hmax : (msg.getSequenceCounter m).toNat ≤ s.times.maxSequenceNo) :
    (Client.Differs m msg s →
      (clt.handleMessage recvfromAddr m msg s).2.2.exited = some .dataIntegrity) ∧
    (¬ Client.Differs m msg s → (clt.handleMessage recvfromAddr m msg s).2.2.exited = s.exited) := by
  obtain ⟨times, counted, hset⟩ : ∃ times counted, s.times.setRxTime
      (msg.getSequenceCounter m).toNat (clt.outside s.handled).now 0 false =
      some (times, counted) := by
    rw [PacketTimes.setRxTime, PacketTimes.seq2index, if_pos hmax]
    exact ⟨_, _, rfl⟩
  rw [Client.handleMessage_counts recvfromAddr h hexit]
  unfold Client.countReply Client.checkDataIntegrity Client.Differs
  dsimp only
  rw [Client.getServerId, if_pos ht.oneServer, ht.integrity]
  simp only [hset, if_true, beq_iff_eq]
  constructor
  · intro hdiffers
    rw [if_neg hdiffers]
  · intro hsame
    rw [if_pos (not_not.mp hsame)]

theorem Client.header_of_same {w : WireMessage} (hview : msg.view clt.msMaxSize m = w.view)
    (hlow : 14 ≤ s.request.length.toNat) (hsame : ¬ Client.Differs m msg s) :
    w.header.setClient = s.request := by
  have hheader : msg.getHeader (msg.setClient m) = s.request :=
    getHeader_of_load hlow (not_not.mp hsame)
  rw [← hheader, Message.setClient, Message.getHeader_setHeader, header_of_view hview]

theorem Client.same_of_header {w : WireMessage} (hvalid : msg.isValidHeader clt.msMaxSize m = true)
    (hview : msg.view clt.msMaxSize m = w.view) (hheader : w.header.setClient = s.request)
    (hbody : w.body = s.payload.take (w.size - 14)) : ¬ Client.Differs m msg s := by
  have hlength : s.request.length.toNat = w.size := by
    rw [← hheader]
    rfl
  have hlow : 14 ≤ s.request.length.toNat := by
    have := w.size_eq
    omega
  apply not_not.mpr
  rw [take_bytes _ hlow, hlength, ← hbody, ← hheader, Message.setClient, header_of_view hview]
  exact load_setHeader_of_view hvalid hview _

variable (recvfromAddr) in
theorem Client.detects_iff (ht : clt.Tests) (hup : s.exited = none) :
    (Client.Differs m msg s → (clt.handleMessage recvfromAddr m msg s).2.2.exited ≠ none) ↔
      ¬ (Client.Differs m msg s ∧ clt.Overlooked m msg s) := by
  constructor
  · rintro hdetects ⟨hdiffers, hover⟩
    obtain ⟨ok, heq⟩ := Client.handleMessage_overlooked recvfromAddr hover
    apply hdetects hdiffers
    rw [heq]
    exact hup
  · intro hseen hdiffers
    rcases clt.handleMessage_sorts m msg s with
      hinvalid | ⟨hvalid, hlt⟩ | hover | ⟨hcounts, hexit⟩
    · rw [Client.handleMessage_invalid recvfromAddr hinvalid]
      intro heq
      cases heq
    · rw [Client.handleMessage_higher recvfromAddr hvalid hlt]
      intro heq
      cases heq
    · exact absurd ⟨hdiffers, hover⟩ hseen
    · by_cases hmax : (msg.getSequenceCounter m).toNat ≤ s.times.maxSequenceNo
      · rw [(Client.handleMessage_tests recvfromAddr ht hcounts hexit hmax).1 hdiffers]
        intro heq
        cases heq
      · -- `setRxTime` has no block for the number
        have hset : s.times.setRxTime (msg.getSequenceCounter m).toNat
            (clt.outside s.handled).now 0 false = none := by
          rw [PacketTimes.setRxTime, PacketTimes.seq2index, if_neg hmax]
          rfl
        rw [Client.handleMessage_counts recvfromAddr hcounts hexit, Client.countReply,
          Client.getServerId, if_pos ht.oneServer]
        dsimp only
        rw [hset]
        intro heq
        cases heq

end Handle

/-! ## One datagram

A datagram is a header and what follows it, whatever the header says about its length. The first
message of it is handed out if the header announces no more than was received, or more than the
parser accepts.
-/

section Datagram

section Parser
variable {σ : Type*} {msMaxSize : Int} {handle : Callback σ} {c : Ctx σ} {hdr : MsgHeader}
  {body : List UInt8} (hoff : c.recv.curOffset = 0)
include hoff

variable (hdr body) in
theorem load_received : load (receivePendingData c (hdr.hton.bytes ++ body)).matchHeader.mem
    c.recv.curAddr (14 + body.length) = hdr.bytes ++ body := by
  have hlen : (hdr.hton.bytes ++ body).length = 14 + body.length := by simp [effectiveSize]
  have hall : ∀ h : MsgHeader, (h.bytes ++ body).take (14 + body.length) = h.bytes ++ body :=
    fun h => List.take_of_length_le (by simp [effectiveSize])
  have hstored : load (receivePendingData c (hdr.hton.bytes ++ body)).mem c.recv.curAddr
      (14 + body.length) = (hdr.hton.bytes ++ body).take (14 + body.length) := by
    rw [receivePendingData, hoff, add_zero, hall]
    exact load_store_same' hlen.symm
  rw [matchHeader_mem_of_lt (receivePendingData c (hdr.hton.bytes ++ body))
    (show c.recv.curOffset < 14 by omega)]
  exact (load_setHeaderToHost (by omega) hstored).trans (hall hdr)

variable (hdr body) in
theorem header_received : (Message.mk c.recv.curAddr).getHeader
    (receivePendingData c (hdr.hton.bytes ++ body)).matchHeader.mem = hdr := by
  have hload := load_received hdr body hoff
  apply getHeader_of_load (Nat.le_add_right 14 body.length) (t := body)
  rw [hload, List.take_of_length_le (by simp [effectiveSize])]

variable (hdr body) in
theorem announced_received :
    (receivePendingData c (hdr.hton.bytes ++ body)).announced = hdr.length.toNat := by
  have hheader := header_received hdr body hoff
  rw [Ctx.announced, matchHeader_msg]
  exact congrArg (fun h => h.length.toNat) hheader

variable (h0 : 0 ≤ msMaxSize) (h31 : msMaxSize < 2 ^ 31)
include h0 h31

variable (handle) in
theorem recvFrom_keeps (hle : (hdr.length.toNat : Int) ≤ msMaxSize)
    (hlt : (hdr.hton.bytes ++ body).length < hdr.length.toNat) :
    ∃ c', RecvFrom msMaxSize handle c (hdr.hton.bytes ++ body) true c' ∧ c'.state = c.state := by
  have hann := announced_received hdr body hoff
  have henter := enter_received_of_zero hoff (hdr.hton.bytes ++ body)
    (hdr.hton.bytes ++ body).length
  have hlen : (hdr.hton.bytes ++ body).length = 14 + body.length := by simp [effectiveSize]
  generalize hdr.hton.bytes ++ body = bs at hann henter hlt hlen ⊢
  have hoff' : (receivePendingData c bs).recv.curOffset = 0 := hoff
  have hchunk := processChunk_incomplete (c := receivePendingData c bs) (n := bs.length) h0 h31
    (by omega) (by omega) (by omega)
  have hturn := Loop.turn_keep (S := .inPlace) handle
    (l := ⟨receivePendingData c bs, true, 0, c.recv.curAddr, bs.length⟩) (by simp only; omega)
    hchunk (by simp only; omega)
  generalize hl : Loop.mk _ _ _ _ (_ - (bs.length : Int)) = l at hturn
  have hexit : l.turn .inPlace msMaxSize handle = .done (true, l.finish .inPlace) := by
    apply Loop.turn_exit
    rw [← hl]
    exact (sub_self _).le
  refine ⟨l.finish .inPlace, ?_, ?_⟩
  · unfold RecvFrom ProcessBuffer
    rw [henter]
    exact (Returns.of_done hexit).of_next hturn
  · rw [Loop.finish_state, ← hl]
    exact matchHeader_state _

theorem first_chunk (hcalled : msMaxSize < hdr.length.toNat ∨
      hdr.length.toNat ≤ (hdr.hton.bytes ++ body).length) :
    ∃ recv n, processChunk msMaxSize (receivePendingData c (hdr.hton.bytes ++ body))
        (hdr.hton.bytes ++ body).length =
      ({ (receivePendingData c (hdr.hton.bytes ++ body)).matchHeader with recv := recv }, n) ∧
      recv.curOffset = 0 ∧
      (hdr.length.toNat = (hdr.hton.bytes ++ body).length → n = hdr.length.toNat) := by
  have hann := announced_received hdr body hoff
  have hlen : (hdr.hton.bytes ++ body).length = 14 + body.length := by simp [effectiveSize]
  generalize hdr.hton.bytes ++ body = bs at hann hcalled hlen ⊢
  have hoff' : (receivePendingData c bs).recv.curOffset = 0 := hoff
  rcases lt_or_ge msMaxSize (hdr.length.toNat : Int) with hbig | hle
  · exact ⟨_, _, processChunk_oversize h0 h31 (by omega) (by omega), rfl, fun h => by omega⟩
  · exact ⟨_, _, processChunk_complete h0 h31 (by omega) (by omega) (by omega), rfl,
      fun _ => by omega⟩

section Called
variable (hcalled : msMaxSize < hdr.length.toNat ∨
  hdr.length.toNat ≤ (hdr.hton.bytes ++ body).length)
  {m : Mem} (hm : (receivePendingData c (hdr.hton.bytes ++ body)).matchHeader.mem = m)
include hcalled hm

variable (handle) in
theorem first_turn : ∃ (recv : SocketRecvData) (n : Int),
    (hdr.length.toNat = (hdr.hton.bytes ++ body).length → n = hdr.length.toNat) ∧
    Loop.turn .inPlace msMaxSize handle ⟨receivePendingData c (hdr.hton.bytes ++ body), true, 0,
        c.recv.curAddr, (hdr.hton.bytes ++ body).length⟩ =
      let c' : Ctx σ := { (receivePendingData c (hdr.hton.bytes ++ body)).matchHeader with
        recv := recv
        mem := (handle m ⟨c.recv.curAddr⟩ c.state).2.1
        state := (handle m ⟨c.recv.curAddr⟩ c.state).2.2 }
      if (handle m ⟨c.recv.curAddr⟩ c.state).1 then
        .next (Loop.advance ⟨receivePendingData c (hdr.hton.bytes ++ body), true, 0,
          c.recv.curAddr, (hdr.hton.bytes ++ body).length⟩ c' n)
      else .done (false, c') := by
  obtain ⟨recv, n, hchunk, hzero, hn⟩ := first_chunk hoff h0 h31 hcalled
  have hpos : 0 < (hdr.hton.bytes ++ body).length := by simp [effectiveSize]
  have hmsg := matchHeader_msg (receivePendingData c (hdr.hton.bytes ++ body))
  have hstate := matchHeader_state (receivePendingData c (hdr.hton.bytes ++ body))
  refine ⟨recv, n, hn, ?_⟩
  generalize hdr.hton.bytes ++ body = bs at hchunk hm hmsg hstate hpos ⊢
  have hturn := Loop.turn_deliver (S := .inPlace) handle
    (l := ⟨receivePendingData c bs, true, 0, c.recv.curAddr, bs.length⟩) (by simp only; omega)
    hchunk hzero
  dsimp only at hturn ⊢
  rw [hm, hmsg, hstate] at hturn
  rw [hmsg]
  exact hturn

theorem recvFrom_rejects (hrej : (handle m ⟨c.recv.curAddr⟩ c.state).1 = false) :
    ∃ c', RecvFrom msMaxSize handle c (hdr.hton.bytes ++ body) false c' ∧
      c'.state = (handle m ⟨c.recv.curAddr⟩ c.state).2.2 := by
  obtain ⟨recv, n, -, hturn⟩ := first_turn handle hoff h0 h31 hcalled hm
  dsimp only at hturn
  rw [hrej, if_neg Bool.false_ne_true] at hturn
  generalize hc' : Ctx.mk _ _ _ _ _ = c' at hturn
  refine ⟨c', ?_, by rw [← hc']⟩
  unfold RecvFrom ProcessBuffer
  rw [enter_received_of_zero hoff]
  exact Returns.of_done hturn

theorem recvFrom_accepts (hwhole : hdr.length.toNat = (hdr.hton.bytes ++ body).length)
    (hacc : (handle m ⟨c.recv.curAddr⟩ c.state).1 = true) :
    ∃ c', RecvFrom msMaxSize handle c (hdr.hton.bytes ++ body) true c' ∧
      c'.state = (handle m ⟨c.recv.curAddr⟩ c.state).2.2 := by
  obtain ⟨recv, n, hn, hturn⟩ := first_turn handle hoff h0 h31 hcalled hm
  dsimp only at hturn
  rw [if_pos hacc] at hturn
  generalize hl : Loop.advance _ _ _ = l at hturn
  have hexit : l.turn .inPlace msMaxSize handle = .done (true, l.finish .inPlace) := by
    apply Loop.turn_exit
    rw [← hl, Loop.advance, hn hwhole, hwhole]
    exact (sub_self _).le
  refine ⟨l.finish .inPlace, ?_, ?_⟩
  · unfold RecvFrom ProcessBuffer
    rw [enter_received_of_zero hoff]
    exact (Returns.of_done hexit).of_next hturn
  · rw [Loop.finish_state, ← hl]
    rfl

end Called

end Parser

/-- The bytes of a datagram differ from the request, not counting the client flag. -/
def Client.Altered (s : ClientState) (hdr : MsgHeader) (body : List UInt8) : Prop :=
  hdr.setClient.bytes ++ body ≠ (s.request.bytes ++ s.payload).take s.request.length.toNat

/-- The first message of a datagram of `size` bytes is larger than expected, or it is complete and
is neither dropped after the end of the test nor taken for a message of a client or a warm-up. -/
def Client.Notices (clt : Client) (s : ClientState) (hdr : MsgHeader) (size : Nat) : Prop :=
  clt.msMaxSize < hdr.length.toNat ∨ hdr.length.toNat ≤ size ∧
    (s.request.sequenceNumber < hdr.sequenceNumber ∨
      (clt.outside s.handled).exit = false ∧ hdr.isClient = false ∧ hdr.isWarmupMessage = false)

variable {clt : Client} {recvfromAddr : SockAddr} {m : Mem} {msg : Message} {s : ClientState}

theorem Client.handleMessage_goes_on
    (h : (clt.handleMessage recvfromAddr m msg s).1 = true) :
    (clt.handleMessage recvfromAddr m msg s).2.2.exited = s.exited := by
  rcases clt.handleMessage_sorts m msg s with
    hinvalid | ⟨hvalid, hlt⟩ | hover | ⟨hcounts, hexit⟩
  · rw [Client.handleMessage_invalid recvfromAddr hinvalid] at h
    cases h
  · rw [Client.handleMessage_higher recvfromAddr hvalid hlt] at h
    cases h
  · obtain ⟨ok, heq⟩ := Client.handleMessage_overlooked recvfromAddr hover
    rw [heq]
  · rw [Client.handleMessage_counts recvfromAddr hcounts hexit] at h ⊢
    unfold Client.countReply at h ⊢
    dsimp only at h ⊢
    split at h
    · cases h
    split at h
    · cases h
    next counted _ =>
    generalize (s.receiveCount + if counted = true then 1 else 0) = n at h ⊢
    split at h
    · next hint =>
      split at h
      · next hsame => rw [if_pos hint, if_pos hsame]
      · cases h
    · next hint => rw [if_neg hint]

variable (recvfromAddr) in
theorem Client.handleMessage_exiting (hvalid : msg.isValidHeader clt.msMaxSize m = true)
    (hseq : msg.getSequenceCounter m ≤ s.request.sequenceNumber)
    (hexit : (clt.outside s.handled).exit = true) :
    clt.handleMessage recvfromAddr m msg s = (false, m, { s with handled := s.handled + 1 }) := by
  have hlt : ¬ s.request.sequenceNumber < msg.getSequenceCounter m := UInt64.not_lt.mpr hseq
  unfold Client.handleMessage
  dsimp only
  rw [hvalid, if_neg (by simp), if_neg hlt, if_pos hexit]

variable {c : Ctx ClientState} {hdr : MsgHeader} {body : List UInt8}

/-- Changed bytes end the process if the client takes notice of the datagram. Otherwise it goes on,
and only behind a short message that it overlooks does it look for another one. -/
theorem Client.recvFrom_altered (ht : clt.Tests) (h0 : 0 ≤ clt.msMaxSize)
    (h31 : clt.msMaxSize < 2 ^ 31) (hoff : c.recv.curOffset = 0) (hup : c.state.exited = none)
    (hlen : (hdr.hton.bytes ++ body).length = c.state.request.length.toNat)
    (haltered : Client.Altered c.state hdr body) :
    (clt.Notices c.state hdr (hdr.hton.bytes ++ body).length →
      ∃ c', RecvFrom clt.msMaxSize (clt.handleMessage recvfromAddr) c (hdr.hton.bytes ++ body)
        false c' ∧ c'.state.exited ≠ none) ∧
    (¬ clt.Notices c.state hdr (hdr.hton.bytes ++ body).length →
      (hdr.hton.bytes ++ body).length ≤ hdr.length.toNat ∨
        (clt.outside c.state.handled).exit = true →
      ∃ ok c', RecvFrom clt.msMaxSize (clt.handleMessage recvfromAddr) c (hdr.hton.bytes ++ body)
        ok c' ∧ c'.state.exited = none) := by
  obtain ⟨m, hm⟩ : ∃ m, (receivePendingData c (hdr.hton.bytes ++ body)).matchHeader.mem = m :=
    ⟨_, rfl⟩
  have hheader : (Message.mk c.recv.curAddr).getHeader m = hdr := by
    rw [← hm]
    exact header_received hdr body hoff
  have hseq : (Message.mk c.recv.curAddr).getSequenceCounter m = hdr.sequenceNumber :=
    congrArg MsgHeader.sequenceNumber hheader
  have hvalid : (Message.mk c.recv.curAddr).isValidHeader clt.msMaxSize m = true ↔
      (hdr.length.toNat : Int) ≤ clt.msMaxSize := by
    rw [Message.isValidHeader_iff _ _ h0 h31, hheader]
  have hdiffers : Client.Differs m ⟨c.recv.curAddr⟩ c.state := by
    have hsize : c.state.request.length.toNat = 14 + body.length := by
      rw [← hlen]
      simp [effectiveSize]
    have hload : load m c.recv.curAddr (14 + body.length) =
        (hdr.bytes ++ body).take (14 + body.length) := by
      rw [← hm, load_received hdr body hoff, List.take_of_length_le (by simp [effectiveSize])]
    unfold Client.Differs
    rw [Message.setClient, hheader, hsize, load_setHeader (by omega) hload, ← hsize,
      List.take_of_length_le (by rw [← hlen]; simp)]
    exact haltered
  constructor
  · intro hnotices
    have hexited := (Client.detects_iff recvfromAddr ht hup).mpr (by
      rintro ⟨-, hover⟩
      have hle := hvalid.mp hover.valid
      rcases hnotices with hbig | ⟨-, hhigher | ⟨hexit, hclient, hwarm⟩⟩
      · omega
      · exact absurd (hseq ▸ hhigher) (UInt64.not_lt.mpr hover.seq)
      · rcases hover.dropped with hd | hd | hd
        · cases hexit.symm.trans hd
        · rw [hheader, hclient] at hd
          cases hd
        · rw [hheader, hwarm] at hd
          cases hd) hdiffers
    have hrej : (clt.handleMessage recvfromAddr m ⟨c.recv.curAddr⟩ c.state).1 = false := by
      by_contra hok
      exact hexited ((Client.handleMessage_goes_on (by simpa using hok)).trans hup)
    obtain ⟨c', hr, hstate⟩ := recvFrom_rejects hoff h0 h31 (hnotices.imp_right And.left) hm hrej
    exact ⟨c', hr, by rwa [hstate]⟩
  · intro hnotices hrest
    have hle : (hdr.length.toNat : Int) ≤ clt.msMaxSize := by
      by_contra hbig
      exact hnotices (Or.inl (not_le.mp hbig))
    rcases Nat.lt_or_ge (hdr.hton.bytes ++ body).length hdr.length.toNat with hlt | hcomplete
    · obtain ⟨c', hr, hstate⟩ := recvFrom_keeps (clt.handleMessage recvfromAddr) hoff h0 h31 hle
        hlt
      exact ⟨true, c', hr, by rw [hstate, hup]⟩
    · have hover : clt.Overlooked m ⟨c.recv.curAddr⟩ c.state := by
        refine ⟨hvalid.mpr hle, ?_, ?_⟩
        · rw [hseq, ← UInt64.not_lt]
          exact fun hhigher => hnotices (Or.inr ⟨hcomplete, Or.inl hhigher⟩)
        · rw [hheader]
          by_contra hdropped
          simp only [not_or, Bool.not_eq_true] at hdropped
          exact hnotices (Or.inr ⟨hcomplete, Or.inr hdropped⟩)
      obtain ⟨ok, heq⟩ := Client.handleMessage_overlooked recvfromAddr hover
      have hstate := congrArg (fun r => r.2.2.exited) heq
      cases ok with
      | false =>
        obtain ⟨c', hr, hc'⟩ := recvFrom_rejects hoff h0 h31 (Or.inr hcomplete) hm
          (congrArg Prod.fst heq)
        exact ⟨false, c', hr, by rw [hc', hstate.trans hup]⟩
      | true =>
        -- the process is not about to leave, so all of the datagram is this message
        have hwhole : hdr.length.toNat = (hdr.hton.bytes ++ body).length := by
          rcases hrest with hge | hexit
          · exact Nat.le_antisymm hcomplete hge
          · have hrej := Client.handleMessage_exiting recvfromAddr hover.valid hover.seq hexit
            cases (congrArg Prod.fst heq).symm.trans (congrArg Prod.fst hrej)
        obtain ⟨c', hr, hc'⟩ := recvFrom_accepts hoff h0 h31 (Or.inr hcomplete) hm hwhole
          (congrArg Prod.fst heq)
        exact ⟨true, c', hr, by rw [hc', hstate.trans hup]⟩

end Datagram

/-! ## Runs of a ping-pong client -/

theorem MsgHeader.isWarmupMessage_setWarmupMessage (h : MsgHeader) :
    h.setWarmupMessage.isWarmupMessage = true := by
  have hmask : (h.flags ||| maskWarmupMsg) &&& maskWarmupMsg = maskWarmupMsg := by
    apply UInt16.toBitVec_inj.mp
    rw [UInt16.toBitVec_and, UInt16.toBitVec_or]
    ext i
    simp only [BitVec.getElem_and, BitVec.getElem_or, Bool.and_eq_right_iff_imp, Bool.or_eq_true]
    exact Or.inr
  simp only [isWarmupMessage, setWarmupMessage, hmask]
  decide

theorem Client.outgoing_always (clt : Client) (halways : clt.pongMode = .always) (pong : Bool)
    (seq : UInt64) (length : UInt32) :
    clt.outgoing pong ⟨seq, clt.idleFlags, length⟩ = ⟨seq, 3, length⟩ := by
  have hfields := clt.outgoing_fields pong ⟨seq, clt.idleFlags, length⟩
  apply MsgHeader.eq_mk hfields.1 _ hfields.2
  rw [clt.outgoing_flags, halways]

namespace EchoSystem
variable (sys : EchoSystem γ)

/-- `ping-pong --data-integrity` over datagrams. -/
structure Pings : Prop where
  datagrams : sys.stream = false
  always : sys.client.pongMode = .always
  tests : sys.client.Tests

/-- The one thread of the client receives only when it is not sending. -/
def Idle (s : EchoState γ) : Prop := s.phase = .idle

/-- It receives only then, and no warm-up message that does not fit. -/
def Waits (s : EchoState γ) (bs : List UInt8) : Prop := Idle s ∧ sys.Takes s bs

/-- The datagram is a reply, but not to the request in the buffer. -/
def Stale (s : EchoState γ) (bs : List UInt8) : Prop :=
  ∃ w : WireMessage, bs = w.encode ∧ w.header.isClient = false ∧
    w.header.isWarmupMessage = false ∧
    ¬ (w.header.sequenceNumber = s.client.state.request.sequenceNumber ∧
      w.header.length = s.client.state.request.length)

/-- Everything the client sent is a pong request or a warm-up message, cut from its buffer. -/
def Exact (s : EchoState γ) : Prop :=
  ∀ d ∈ s.clientSent, ∃ h : MsgHeader, 14 ≤ h.length.toNat ∧
    d = (h.hton.bytes ++ sys.payload).take h.length.toNat ∧
    (h.isWarmupMessage = false → h.flags = 3)

variable {sys} {s s' : EchoState γ} {reqs replies : List WireMessage}

theorem Idle.calm (h : Idle s) : s.Calm := by
  unfold EchoState.Calm EchoState.swapped
  rw [h]
  intro hswapped
  cases hswapped

theorem Waits.calm {bs : List UInt8} (h : sys.Waits s bs) : sys.Calm s bs := ⟨h.1.calm, h.2⟩

theorem Step.mono {calm calm' : EchoState γ → List UInt8 → Prop}
    (h : ∀ s bs, calm s bs → calm' s bs)
    (hstep : sys.Step calm s s') : sys.Step calm' s s' := by
  cases hstep with
  | setLength up idle length fits => exact .setLength up idle length fits
  | count up idle => exact .count up idle
  | prepare up counted now => exact .prepare up counted now
  | send up network => exact .send up network
  | skip up network => exact .skip up network
  | restore up transmitted => exact .restore up transmitted
  | finish up restored => exact .finish up restored
  | clientWarmup up idle multicast sent => exact .clientWarmup up idle multicast sent
  | serverWarmup multicast => exact .serverWarmup multicast
  | serverReceive up arrives recvfromAddr received =>
    exact .serverReceive up arrives recvfromAddr received
  | clientReceive up listening allowed arrives recvfromAddr received =>
    exact .clientReceive up listening (h _ _ allowed) arrives recvfromAddr received

section Sending
variable {r : MsgHeader}

theorem Sending.idle_range (h : sys.Sending reqs .idle r) : sys.InRange r.length.toNat := by
  cases h with
  | idle fits room bounded => exact fits

theorem Sending.network_always (halways : sys.client.pongMode = .always) {pong : Bool} {length : Nat}
    (h : sys.Sending reqs (.network pong length) r) : ∃ hdr : MsgHeader, hdr.flags = 3 ∧
      14 ≤ hdr.length.toNat ∧ length = hdr.length.toNat ∧ r = hdr.hton := by
  cases h with
  | @network seq length hdr hh fits old room bounded =>
    refine ⟨⟨seq + 1, 3, length⟩, rfl, fits.1, rfl, ?_⟩
    rw [hh, sys.client.outgoing_always halways]

end Sending

theorem Exact.same (h : sys.Exact s) (hsent : s'.clientSent = s.clientSent) : sys.Exact s' := by
  intro d hd
  rw [hsent] at hd
  exact h d hd

theorem Exact.append (h : sys.Exact s) (hdr : MsgHeader) (hlow : 14 ≤ hdr.length.toNat)
    (hflags : hdr.isWarmupMessage = false → hdr.flags = 3) {d : List UInt8}
    (hd : d = (hdr.hton.bytes ++ sys.payload).take hdr.length.toNat)
    (hsent : s'.clientSent = s.clientSent ++ [d]) : sys.Exact s' := by
  intro e he
  rw [hsent] at he
  rcases List.mem_append.mp he with he | he
  · exact h e he
  · exact ⟨hdr, hlow, (List.mem_singleton.mp he).trans hd, hflags⟩

theorem Exact.step (hp : sys.Pings) (hinv : sys.Inv s reqs replies) (h : sys.Exact s)
    {calm : EchoState γ → List UInt8 → Prop} (hstep : sys.Step calm s s') : sys.Exact s' := by
  cases hstep with
  | send up network =>
    have hs := hinv.sending up
    rw [network] at hs
    obtain ⟨hdr, hflags, hlow, hlen, hr⟩ := hs.network_always hp.always
    refine h.append hdr hlow (fun _ => hflags) ?_ rfl
    rw [Client.wireBytes, hinv.safe.payload, hr, hlen]
  | clientWarmup up idle multicast sent =>
    have hs := hinv.sending up
    rw [idle] at hs
    cases sent with
    | false => exact h.same rfl
    | true =>
      refine h.append s.client.state.request.setWarmupMessage hs.idle_range.1 ?_ ?_ rfl
      · intro hwarm
        rw [MsgHeader.isWarmupMessage_setWarmupMessage] at hwarm
        cases hwarm
      · rw [EchoSystem.clientWarmup, Client.wireBytes, hinv.safe.payload]
        rfl
  | setLength up idle length fits => exact h.same rfl
  | count up idle => exact h.same rfl
  | prepare up counted now => exact h.same rfl
  | skip up network => exact h.same rfl
  | restore up transmitted =>
    apply h.same
    dsimp only [EchoState.setClient]
  | finish up restored => exact h.same rfl
  | serverWarmup multicast => exact h.same rfl
  | serverReceive up arrives recvfromAddr received => exact h.same rfl
  | clientReceive up listening allowed arrives recvfromAddr received => exact h.same rfl

theorem encode_eq {w : WireMessage} {h : MsgHeader} {body : List UInt8}
    (heq : w.encode = h.hton.bytes ++ body) : w.header = h ∧ w.body = body := by
  obtain ⟨hbytes, hbody⟩ := List.append_inj heq (by rw [MsgHeader.bytes_length, MsgHeader.bytes_length])
  have hhton : w.header.hton = h.hton := by
    rw [← MsgHeader.ofBytes_bytes w.header.hton, hbytes, MsgHeader.ofBytes_bytes]
  exact ⟨by rw [← MsgHeader.ntoh_hton w.header, hhton, MsgHeader.ntoh_hton], hbody⟩

theorem Exact.request (hinv : sys.Inv s reqs replies) (h : sys.Exact s) {q : WireMessage}
    (hq : q ∈ reqs) (hrequest : q.IsRequest) :
    q.header.flags = 3 ∧ q.body = sys.payload.take (q.size - 14) := by
  have hmem : q.encode ∈ s.clientSent := by
    rw [hinv.clientSent]
    exact List.mem_map_of_mem hq
  obtain ⟨hdr, hlow, hencode, hflags⟩ := h _ hmem
  rw [take_bytes _ hlow] at hencode
  obtain ⟨hheader, hbody⟩ := encode_eq hencode
  rw [← hheader] at hflags hbody
  exact ⟨hflags hrequest.warm, hbody⟩

/-- The echo of a request passes the test exactly if it has the number and the length of the
request in the buffer. -/
theorem setClient_echo {q : WireMessage} (hflags : q.header.flags = 3) (seq : UInt64)
    (length : UInt32) : q.echo.header.setClient = ⟨seq, 3, length⟩ ↔
      q.echo.header.sequenceNumber = seq ∧ q.echo.header.length = length := by
  have hback : q.echo.header.setClient.flags = 3 := by
    show q.header.flags &&& ~~~MsgHeader.maskClient ||| MsgHeader.maskClient = 3
    rw [hflags]
    decide
  constructor
  · intro heq
    exact ⟨congrArg MsgHeader.sequenceNumber heq, congrArg MsgHeader.length heq⟩
  · rintro ⟨hseq, hlength⟩
    exact MsgHeader.eq_mk hseq hback hlength

section Receive
variable (hp : sys.Pings) (hinv : sys.Inv s reqs replies) (hexact : sys.Exact s)
include hp hinv hexact

omit hexact in
theorem client_parked (listening : s.clientDown = false) :
    sys.clientWindow.Parked [] [] s.client := by
  have hpark := hinv.clientLink listening
  rw [Link, hp.datagrams, if_neg Bool.false_ne_true] at hpark
  exact hpark

omit hexact in
theorem received_known (listening : s.clientDown = false) {bs : List UInt8}
    (takes : sys.Takes s bs) (arrives : sys.ToClient s bs) {recvfromAddr : SockAddr} {ok : Bool} {c : Ctx ClientState}
    (received : RecvFrom sys.client.msMaxSize (sys.client.handleMessage recvfromAddr) s.client bs
      ok c) :
    ∃ w, sys.Known reqs w ∧ bs = w.encode ∧
      CalledOnce sys.client.msMaxSize (sys.client.handleMessage recvfromAddr) w s.client.state
        ok c.state := by
  have hpark := client_parked hp hinv listening
  have hdelivers := hinv.clientDelivers takes arrives
  rw [Delivers, hp.datagrams, if_neg Bool.false_ne_true] at hdelivers
  obtain ⟨w, ⟨hknown, hsize⟩, rfl⟩ := hdelivers
  have htake : w.encode.take s.client.recv.curSize.toNat = w.encode := by
    apply List.take_of_length_le
    rw [hpark.curSize, WireMessage.encode_length]
    omega
  rw [htake] at received ⊢
  obtain ⟨ok', c', hr, hcalled⟩ := hpark.recvFrom_single (sys.client.handleMessage recvfromAddr)
    (fun _ _ _ _ hx => sys.client.handleMessage_outside recvfromAddr hx) hsize
  rw [← sys.client_max] at hr hcalled
  cases hr.unique received
  exact ⟨w, hknown, rfl, hcalled⟩

omit hexact in
theorem request_idle (up : Running s) (idle : Idle s) : ∃ seq length,
    s.client.state.request = ⟨seq, 3, length⟩ ∧ 14 ≤ length.toNat ∧
      seq.toNat ≤ s.client.state.times.maxSequenceNo ∧
      ∀ q ∈ reqs, q.header.sequenceNumber.toNat ≤ seq.toNat := by
  have hs := hinv.sending up
  rw [idle] at hs
  have hone : sys.client.replyEvery = 1 := sys.always_one hp.always
  have hidle : sys.client.idleFlags = 3 := by
    rw [sys.client.idleFlags_eq, hp.always]
  rw [hinv.safe.maxSequenceNo]
  generalize s.client.state.request = r at hs
  cases hs with
  | @idle seq length fits room bounded =>
    unfold Room at room
    rw [hone, Nat.div_one, Nat.mul_one] at room
    exact ⟨seq, length, by rw [hidle], fits.1, room, bounded⟩

theorem receive_exited (up : Running s) (listening : s.clientDown = false)
    {bs : List UInt8} (waits : sys.Waits s bs) (arrives : sys.ToClient s bs) {recvfromAddr : SockAddr} {ok : Bool}
    {c : Ctx ClientState}
    (received : RecvFrom sys.client.msMaxSize (sys.client.handleMessage recvfromAddr) s.client bs
      ok c) :
    c.state.exited = some .dataIntegrity ↔
      Stale s bs ∧ (sys.client.outside s.client.state.handled).exit = false := by
  obtain ⟨w, hknown, rfl, m, msg, hvalid, hview, -, hstate⟩ :=
    received_known hp hinv listening waits.2 arrives received
  obtain ⟨seq, length, hreq, hlow, hmax, hbounded⟩ := request_idle hp hinv up waits.1
  have hheader : msg.getHeader m = w.header := header_of_view hview
  have hcounter : msg.getSequenceCounter m = w.header.sequenceNumber := by
    rw [Message.getSequenceCounter, hheader]
  have hseq : msg.getSequenceCounter m ≤ s.client.state.request.sequenceNumber := by
    rw [hcounter, hreq, UInt64.le_iff_toNat_le]
    exact hknown.seq_le hbounded
  rw [hstate]
  rcases sys.client.handleMessage_sorts m msg s.client.state with
    hv | ⟨-, hlt⟩ | hover | ⟨hcounts, hexit⟩
  · rw [hvalid] at hv
    cases hv
  · exact absurd hlt (UInt64.not_lt.mpr hseq)
  · obtain ⟨ok, heq⟩ := Client.handleMessage_overlooked recvfromAddr hover
    rw [heq]
    constructor
    · intro heq
      cases up.symm.trans heq
    · rintro ⟨⟨v, hencode, hclient, hwarm, -⟩, hexit⟩
      rw [(encode_eq hencode).1] at hheader
      rcases hover.dropped with hd | hd | hd
      · cases hexit.symm.trans hd
      · rw [hheader, hclient] at hd
        cases hd
      · rw [hheader, hwarm] at hd
        cases hd
  · have hclient := hcounts.client
    have hwarm := hcounts.warmup
    rw [hheader] at hclient hwarm
    obtain ⟨q, hq, hrequest, rfl⟩ := hknown.echo_of_reply hinv.requests hclient hwarm
    obtain ⟨hflags, hbody⟩ := hexact.request hinv hq hrequest
    have hsame : ¬ Client.Differs m msg s.client.state ↔
        q.echo.header.setClient = s.client.state.request := by
      constructor
      · exact Client.header_of_same hview (by rw [hreq]; exact hlow)
      · intro heq
        apply Client.same_of_header hvalid hview heq
        rw [hinv.safe.payload]
        exact hbody
    rw [hreq, setClient_echo hflags] at hsame
    have hstale : Stale s q.echo.encode ↔ Client.Differs m msg s.client.state := by
      rw [← not_iff_not, hsame]
      constructor
      · intro hfresh
        by_contra hne
        refine hfresh ⟨q.echo, rfl, hclient, hwarm, ?_⟩
        rw [hreq]
        exact hne
      · rintro hfields ⟨v, hencode, -, -, hne⟩
        rw [← (encode_eq (w := q.echo) hencode).1, hreq] at hne
        exact hne hfields
    obtain ⟨hfail, hpass⟩ := Client.handleMessage_tests recvfromAddr hp.tests hcounts hexit (by
      rw [hcounter]
      exact (hbounded q hq).trans hmax)
    rw [hstale, and_iff_left hexit]
    constructor
    · intro heq
      by_contra hsame
      cases ((hpass hsame).trans up).symm.trans heq
    · exact hfail

end Receive

variable (sys) in
/-- A step in which the client is handed no stale reply. -/
inductive FreshStep : EchoState γ → EchoState γ → Prop
  | other {s s' : EchoState γ} (h : sys.Step (fun _ _ => False) s s') : FreshStep s s'
  | receive {s : EchoState γ} (up : Running s) (listening : s.clientDown = false)
      {bs : List UInt8} (waits : sys.Waits s bs) (arrives : sys.ToClient s bs)
      (fresh : ¬ Stale s bs)
      (recvfromAddr : SockAddr) {ok : Bool} {c : Ctx ClientState}
      (received : RecvFrom sys.client.msMaxSize (sys.client.handleMessage recvfromAddr) s.client bs
        ok c) :
      FreshStep s { s with
        client := c, readByClient := s.readByClient + bs.length, clientDown := !ok }

theorem fresh_of_quiet (h : sys.Run (fun _ _ => False) s s') :
    Relation.ReflTransGen sys.FreshStep s s' := by
  induction h with
  | refl => exact .refl
  | tail _ hstep ih => exact ih.tail (.other hstep)

theorem FreshStep.step (h : sys.FreshStep s s') : sys.Step sys.Waits s s' := by
  cases h with
  | other hstep => exact hstep.mono fun _ _ hfalse => hfalse.elim
  | receive up listening waits arrives fresh recvfromAddr received =>
    exact .clientReceive up listening waits arrives recvfromAddr received

theorem afterSendPacket_exited (clt : Client) (c : ClientState) (pong : Bool) (result : SendResult)
    (h : c.exited ≠ some .dataIntegrity) :
    (clt.afterSendPacket (clt.afterSend c pong result) result).exited ≠ some .dataIntegrity := by
  have hafter : (clt.afterSend c pong result).exited ≠ some .dataIntegrity := by
    unfold Client.afterSend
    split
    · split
      · split
        · exact fun heq => nomatch heq
        · exact h
      · exact h
    · exact h
  unfold Client.afterSendPacket
  split
  · split
    · exact fun heq => nomatch heq
    · exact hafter
  · exact hafter
  · exact hafter

theorem Step.exited (hstep : sys.Step (fun _ _ => False) s s')
    (h : s.client.state.exited ≠ some .dataIntegrity) :
    s'.client.state.exited ≠ some .dataIntegrity := by
  cases hstep with
  | prepare up counted now =>
    rcases (sys.client.prepareSend_spec (s := s.client.state) now).1.exited with hsame | hverify
    · exact fun heq => h (hsame.symm.trans heq)
    · exact fun heq => nomatch hverify.symm.trans heq
  | finish up restored => exact afterSendPacket_exited _ _ _ _ h
  | clientReceive up listening allowed arrives recvfromAddr received => exact allowed.elim
  | setLength up idle length fits => exact h
  | count up idle => exact h
  | send up network => exact h
  | skip up network => exact h
  | restore up transmitted =>
    show (Client.setHeaderToHost s.client.state).exited ≠ _
    rw [Client.setHeaderToHost]
    exact h
  | clientWarmup up idle multicast sent =>
    show (afterWarmup s.client.state).exited ≠ _
    rw [afterWarmup]
    exact h
  | serverWarmup multicast => exact h
  | serverReceive up arrives recvfromAddr received => exact h

theorem idle_run (hp : sys.Pings) {s₀ s : EchoState γ} (start : sys.Initial s₀)
    (run : sys.Run sys.Waits s₀ s) : (∃ reqs replies, sys.Inv s reqs replies) ∧ sys.Exact s := by
  induction run with
  | refl =>
    refine ⟨⟨[], [], start.inv⟩, fun d hd => ?_⟩
    rw [start.clientSent] at hd
    exact absurd hd List.not_mem_nil
  | tail _ hstep ih =>
    obtain ⟨⟨reqs, replies, hinv⟩, hexact⟩ := ih
    exact ⟨hinv.step (hstep.mono fun _ _ => Waits.calm), hexact.step hp hinv hstep⟩

theorem fresh_run (hp : sys.Pings) {s₀ s : EchoState γ} (start : sys.Initial s₀)
    (run : Relation.ReflTransGen sys.FreshStep s₀ s) :
    sys.Run sys.Waits s₀ s ∧ s.client.state.exited ≠ some .dataIntegrity := by
  induction run with
  | refl =>
    refine ⟨.refl, ?_⟩
    rw [start.client]
    exact fun heq => nomatch heq
  | tail _ hstep ih =>
    obtain ⟨hrun, hexited⟩ := ih
    refine ⟨hrun.tail hstep.step, ?_⟩
    cases hstep with
    | other h => exact h.exited hexited
    | receive up listening waits arrives fresh recvfromAddr received =>
      obtain ⟨⟨reqs, replies, hinv⟩, hexact⟩ := idle_run hp start hrun
      intro heq
      exact fresh ((receive_exited hp hinv hexact up listening waits arrives received).mp heq).1

section Sender

def sender (s : EchoState γ) (c : ClientState) (phase : Phase) (sent : List (List UInt8)) :
    EchoState γ :=
  { s with client := { s.client with state := c }, phase := phase, clientSent := sent }

variable {c : ClientState} (hup : c.exited = none) {sent : List (List UInt8)}
include hup

theorem running_sender (phase : Phase) : Running (sender s c phase sent) := hup

theorem sender_count : sys.Step (fun _ _ => False) (sender s c .idle sent)
    (sender s (Client.incSequenceCounter c) .counted sent) :=
  .count (running_sender hup _) rfl

theorem sender_prepare (now : TicksTime) : sys.Step (fun _ _ => False) (sender s c .counted sent)
    (sender s (sys.client.prepareSend c now)
      (.network (sys.client.wantsPong c.request) c.request.length.toNat) sent) :=
  .prepare (running_sender hup _) rfl now

theorem sender_send {pong : Bool} {length : Nat} :
    sys.Step (fun _ _ => False) (sender s c (.network pong length) sent)
      (sender s c (.transmitted pong .sent) (sent ++ [Client.wireBytes c length])) :=
  .send (running_sender hup _) rfl

theorem sender_restore {pong : Bool} {result : SendResult} :
    sys.Step (fun _ _ => False) (sender s c (.transmitted pong result) sent)
      (sender s (Client.setHeaderToHost c) (.restored pong result) sent) := by
  have hstep : sys.Step (fun _ _ => False) (sender s c (.transmitted pong result) sent) _ :=
    .restore (running_sender hup _) rfl
  dsimp only [EchoState.setClient, sender] at hstep ⊢
  exact hstep

theorem sender_finish {pong : Bool} :
    sys.Step (fun _ _ => False) (sender s c (.restored pong .sent) sent)
      (sender s (sys.client.afterSend c pong .sent) .idle sent) :=
  .finish (running_sender hup _) rfl

variable (halways : sys.client.pongMode = .always)
include halways

variable (sys s sent) in
theorem sender_transmits {hdr : MsgHeader}
    (hreq : { c.request with sequenceNumber := c.request.sequenceNumber + 1 } = hdr)
    (hle : hdr.sequenceNumber.toNat ≤ c.times.maxSequenceNo) :
    ∃ c' : ClientState, c'.request = hdr.hton ∧ c'.exited = none ∧
      sys.Run (fun _ _ => False) (sender s c .idle sent) (sender s c' (.transmitted true .sent)
        (sent ++ [(hdr.hton.bytes ++ c.payload).take hdr.length.toNat])) := by
  have hcount : sys.Step (fun _ _ => False) (sender s c .idle sent) _ := sender_count hup
  have hup1 : (Client.incSequenceCounter c).exited = none := hup
  have hpay1 : (Client.incSequenceCounter c).payload = c.payload := rfl
  have hreq1 : (Client.incSequenceCounter c).request = hdr := hreq
  have hle1 : (Client.incSequenceCounter c).request.sequenceNumber.toNat ≤
      (Client.incSequenceCounter c).times.maxSequenceNo := by
    rw [hreq1]
    exact hle
  rw [← hpay1]
  generalize Client.incSequenceCounter c = c1 at hcount hup1 hreq1 hle1
  -- the mode sets the pong flag once and for all
  have hwants : sys.client.wantsPong c1.request = true := by
    rw [Client.wantsPong, halways]
  have hmark : sys.client.outgoing true c1.request = c1.request := by
    rw [Client.outgoing, if_pos rfl, Client.markPong, halways]
  obtain ⟨times, hprep, -⟩ := sys.client.prepareSend_of_le 1 hle1
  have hprepare : sys.Step (fun _ _ => False) (sender s c1 .counted sent) _ := sender_prepare hup1 1
  rw [hprep, hwants, hmark, hreq1] at hprepare
  obtain ⟨c2, hc2⟩ : ∃ c2, c2 = { c1 with request := hdr.hton, times } := ⟨_, rfl⟩
  rw [← hc2] at hprepare
  have hup2 : c2.exited = none := by
    rw [hc2]
    exact hup1
  have hsend : sys.Step (fun _ _ => False) (sender s c2 (.network true hdr.length.toNat) sent) _ :=
    sender_send hup2
  have hwire : Client.wireBytes c2 hdr.length.toNat =
      (hdr.hton.bytes ++ c1.payload).take hdr.length.toNat := by
    rw [hc2, Client.wireBytes]
  rw [hwire] at hsend
  refine ⟨c2, by rw [hc2], hup2, ?_⟩
  exact ((Relation.ReflTransGen.single hcount).tail hprepare).tail hsend

variable (sys s sent) in
theorem sender_finishes {hdr : MsgHeader} (hreq : c.request = hdr.hton) :
    ∃ c' : ClientState, c'.request = hdr ∧ c'.exited = none ∧
      sys.Run (fun _ _ => False) (sender s c (.transmitted true .sent) sent)
        (sender s c' .idle sent) := by
  have hrestore : sys.Step (fun _ _ => False) (sender s c (.transmitted true .sent) sent) _ :=
    sender_restore hup
  have hup1 : (Client.setHeaderToHost c).exited = none := by
    rw [Client.setHeaderToHost]
    exact hup
  have hreq1 : (Client.setHeaderToHost c).request = hdr := by
    rw [Client.setHeaderToHost, hreq]
    exact hdr.ntoh_hton
  generalize Client.setHeaderToHost c = c1 at hrestore hup1 hreq1
  refine ⟨sys.client.afterSend c1 true .sent, ?_, hup1,
    (Relation.ReflTransGen.single hrestore).tail (sender_finish hup1)⟩
  show sys.client.unmarkPong c1.request = hdr
  rw [Client.unmarkPong, halways]
  exact hreq1

variable (sys s sent) in
theorem ping {hdr : MsgHeader}
    (hreq : { c.request with sequenceNumber := c.request.sequenceNumber + 1 } = hdr)
    (hle : hdr.sequenceNumber.toNat ≤ c.times.maxSequenceNo) :
    ∃ c' : ClientState, c'.request = hdr ∧ c'.exited = none ∧
      sys.Run (fun _ _ => False) (sender s c .idle sent) (sender s c' .idle
        (sent ++ [(hdr.hton.bytes ++ c.payload).take hdr.length.toNat])) := by
  obtain ⟨c1, hreq1, hup1, htransmit⟩ := sender_transmits sys s hup sent halways hreq hle
  obtain ⟨c2, hreq2, hup2, hfinish⟩ := sender_finishes sys s hup1 _ halways hreq1
  exact ⟨c2, hreq2, hup2, htransmit.trans hfinish⟩

end Sender

end EchoSystem

/-- In a run without stale replies the test does not fail, and a stale reply fails it. A message
with changed bytes ends the process exactly if it is not overlooked. A datagram as long as the
request, with changed bytes, ends the process if the client takes notice of it, and does not if it
is kept as incomplete, comes after the end of the test, or is overlooked as a whole. -/
theorem data_integrity_exact (sys : EchoSystem γ) (hp : sys.Pings) :
    (∀ s₀ s, sys.Initial s₀ → Relation.ReflTransGen sys.FreshStep s₀ s →
      s.client.state.exited ≠ some .dataIntegrity) ∧
    (∀ s₀ s, sys.Initial s₀ → sys.Run sys.Waits s₀ s → EchoSystem.Running s →
      s.clientDown = false → ∀ bs recvfromAddr ok c, sys.Waits s bs → sys.ToClient s bs →
        RecvFrom sys.client.msMaxSize (sys.client.handleMessage recvfromAddr) s.client bs ok c →
        (c.state.exited = some .dataIntegrity ↔
          EchoSystem.Stale s bs ∧ (sys.client.outside s.client.state.handled).exit = false)) ∧
    (∀ recvfromAddr m msg (c : ClientState), c.exited = none →
      ((Client.Differs m msg c →
          (sys.client.handleMessage recvfromAddr m msg c).2.2.exited ≠ none) ↔
        ¬ (Client.Differs m msg c ∧ sys.client.Overlooked m msg c))) ∧
    (∀ s₀ s, sys.Initial s₀ → sys.Run sys.Waits s₀ s → EchoSystem.Running s →
      s.clientDown = false → ∀ hdr body recvfromAddr,
        (hdr.hton.bytes ++ body).length = s.client.state.request.length.toNat →
        Client.Altered s.client.state hdr body →
        (sys.client.Notices s.client.state hdr (hdr.hton.bytes ++ body).length →
          ∃ c, RecvFrom sys.client.msMaxSize (sys.client.handleMessage recvfromAddr) s.client
            (hdr.hton.bytes ++ body) false c ∧ c.state.exited ≠ none) ∧
        (¬ sys.client.Notices s.client.state hdr (hdr.hton.bytes ++ body).length →
          (hdr.hton.bytes ++ body).length ≤ hdr.length.toNat ∨
            (sys.client.outside s.client.state.handled).exit = true →
          ∃ ok c, RecvFrom sys.client.msMaxSize (sys.client.handleMessage recvfromAddr) s.client
            (hdr.hton.bytes ++ body) ok c ∧ c.state.exited = none)) := by
  refine ⟨?_, ?_, ?_, ?_⟩
  · intro s₀ s start run
    exact (EchoSystem.fresh_run hp start run).2
  · intro s₀ s start run up listening bs recvfromAddr ok c waits arrives received
    obtain ⟨⟨reqs, replies, hinv⟩, hexact⟩ := EchoSystem.idle_run hp start run
    exact EchoSystem.receive_exited hp hinv hexact up listening waits arrives received
  · intro recvfromAddr m msg c hup
    exact Client.detects_iff _ hp.tests hup
  · intro s₀ s start run up listening hdr body recvfromAddr hlen haltered
    obtain ⟨⟨reqs, replies, hinv⟩, -⟩ := EchoSystem.idle_run hp start run
    have hoff := (EchoSystem.client_parked hp hinv listening).curOffset
    have h0 := sys.clientWindow.nonneg
    have h31 := sys.clientWindow.lt_int
    rw [← sys.client_max] at h0 h31
    exact Client.recvFrom_altered hp.tests h0 h31 hoff up hlen haltered

/-! ## A duplicated reply -/

/-- `ping-pong --data-integrity -m 14` with room for ten messages. -/
def checkSystem : EchoSystem Unit := { pingSystem with
  client := ⟨15, .always, 1, 1, false, false, true, fun _ => ⟨false, 7⟩⟩
  client_max := rfl
  replyEvery_pos := by decide
  not_never := by decide
  always_one := by decide
  counter_fits := by decide
  stream_unicast := by decide }

def checkStart : EchoState Unit := pingAt pingStart .idle []

theorem checkSystem_pings : checkSystem.Pings := ⟨rfl, rfl, ⟨rfl, rfl⟩⟩

theorem checkStart_initial : checkSystem.Initial checkStart :=
  ⟨rfl, rfl, rfl, rfl, rfl, rfl, rfl, rfl, rfl, rfl, rfl⟩

/-- The client with its first message on the wire and the header still swapped. -/
def checkSent : ClientState :=
  checkSystem.client.prepareSend (Client.incSequenceCounter pingStart) 5

def checkWaits : ClientState :=
  checkSystem.client.afterSend (Client.setHeaderToHost checkSent) true .sent

theorem check_send : checkSystem.Run (fun _ _ => False) checkStart
    (EchoSystem.sender checkStart checkWaits .idle [pingRequest.encode]) := by
  have hcount : checkSystem.Step (fun _ _ => False) checkStart
      (EchoSystem.sender checkStart (Client.incSequenceCounter pingStart) .counted []) :=
    EchoSystem.sender_count rfl
  have hprepare : checkSystem.Step (fun _ _ => False)
      (EchoSystem.sender checkStart (Client.incSequenceCounter pingStart) .counted [])
      (EchoSystem.sender checkStart checkSent (.network true 14) []) :=
    EchoSystem.sender_prepare rfl 5
  have hup : checkSent.exited = none := by decide +kernel
  have hsend : checkSystem.Step (fun _ _ => False)
      (EchoSystem.sender checkStart checkSent (.network true 14) [])
      (EchoSystem.sender checkStart checkSent (.transmitted true .sent)
        [Client.wireBytes checkSent 14]) :=
    EchoSystem.sender_send hup
  have hwire : Client.wireBytes checkSent 14 = pingRequest.encode := by decide +kernel
  rw [hwire] at hsend
  have hup1 : (Client.setHeaderToHost checkSent).exited = none := by decide +kernel
  exact ((((Relation.ReflTransGen.single hcount).tail hprepare).tail hsend).tail
    (EchoSystem.sender_restore hup)).tail (EchoSystem.sender_finish hup1)

theorem check_answered : ∃ s, Relation.ReflTransGen checkSystem.FreshStep checkStart s ∧
    s.phase = .idle ∧ s.clientDown = false ∧ s.replies = [pingRequest.echo.encode] ∧
    (s.client.state.request, s.client.state.times.maxSequenceNo, s.client.state.exited,
      s.client.state.accepted) = (⟨1, 3, 14⟩, 10, none, [pingRequest.echo.view]) := by
  obtain ⟨cs, hcs, hsent⟩ := RecvFrom.of_map (fun c : Ctx (ServerState Unit) => c.state.sent)
    (by decide +kernel : (recvFrom checkSystem.server.msMaxSize
        (checkSystem.server.handleMessage (.inet 2 2)) 3 raceStart.server pingRequest.encode).map
        (fun r => (r.1, r.2.state.sent)) = some (true, [(.inet 2 2, pingRequest.echo.encode)]))
  obtain ⟨cc, hcc, hclient⟩ := RecvFrom.of_map (fun c : Ctx ClientState =>
      (c.state.request, c.state.times.maxSequenceNo, c.state.exited, c.state.accepted))
    (by decide +kernel : (recvFrom checkSystem.client.msMaxSize
        (checkSystem.client.handleMessage (.inet 1 1)) 3
        { raceStart.client with state := checkWaits } pingRequest.echo.encode).map
        (fun r => (r.1, r.2.state.request, r.2.state.times.maxSequenceNo, r.2.state.exited,
          r.2.state.accepted)) =
      some (true, ⟨1, 3, 14⟩, 10, none, [pingRequest.echo.view]))
  have hserver : checkSystem.ToServer
      (EchoSystem.sender checkStart checkWaits .idle [pingRequest.encode]) pingRequest.encode :=
    ⟨pingRequest.encode, List.mem_singleton.mpr rfl, by decide +kernel⟩
  have hreplied := check_send.tail (.serverReceive rfl hserver (.inet 2 2) hcs)
  generalize hs : EchoState.mk _ _ _ _ _ _ _ _ _ = s at hreplied
  have hs_client : s.client = { raceStart.client with state := checkWaits } := by
    rw [← hs]
    rfl
  have hs_replies : s.replies = [pingRequest.echo.encode] := by
    rw [← hs, EchoState.replies, hsent]
    rfl
  have hidle : EchoSystem.Idle s := by
    rw [← hs]
    rfl
  have hdown : s.clientDown = false := by
    rw [← hs]
    rfl
  have hup : EchoSystem.Running s := by
    rw [EchoSystem.Running, hs_client]
    decide +kernel
  have harrives : checkSystem.ToClient s pingRequest.echo.encode := by
    refine ⟨pingRequest.echo.encode, List.mem_append_left _ ?_, ?_⟩
    · rw [hs_replies]
      exact List.mem_singleton.mpr rfl
    · rw [hs_client]
      decide +kernel
  have hfresh : ¬ EchoSystem.Stale s pingRequest.echo.encode := by
    rintro ⟨w, hw, -, -, hne⟩
    rw [← (EchoSystem.encode_eq (w := pingRequest.echo) hw).1, hs_client] at hne
    exact hne (by decide +kernel)
  rw [← hs_client] at hcc
  have hanswered := (EchoSystem.fresh_of_quiet hreplied).tail
    (.receive hup hdown ⟨hidle, fun h => by cases h⟩ harrives hfresh (.inet 1 1) hcc)
  exact ⟨_, hanswered, hidle, rfl, hs_replies, hclient⟩

/-- The network delivers the reply to the first message once more after the second was sent, and
the client fails. It takes no notice of a reply whose warm-up flag or whose length was changed. -/
theorem duplicated_reply_fails : checkSystem.Pings ∧ checkSystem.Initial checkStart ∧
    (∃ s, checkSystem.Run checkSystem.Waits checkStart s ∧
      s.client.state.exited = some .dataIntegrity) ∧
    ∀ hdr ∈ [(⟨1, 6, 14⟩ : MsgHeader), ⟨1, 2, 15⟩], Client.Altered checkWaits hdr [] ∧
      ∃ c, RecvFrom checkSystem.client.msMaxSize (checkSystem.client.handleMessage (.inet 1 1))
        { raceStart.client with state := checkWaits } hdr.hton.bytes true c ∧
        c.state.exited = none := by
  have hunnoticed : ∀ hdr ∈ [(⟨1, 6, 14⟩ : MsgHeader), ⟨1, 2, 15⟩],
      hdr.setClient.bytes ++ [] ≠ (checkWaits.request.bytes ++ checkWaits.payload).take 14 ∧
      (recvFrom checkSystem.client.msMaxSize (checkSystem.client.handleMessage (.inet 1 1)) 3
        { raceStart.client with state := checkWaits } hdr.hton.bytes).map
        (fun r => (r.1, r.2.state.exited)) = some (true, none) := by
    decide +kernel
  refine ⟨checkSystem_pings, checkStart_initial, ?_, fun hdr hmem => ?_⟩
  swap
  · obtain ⟨haltered, heval⟩ := hunnoticed hdr hmem
    exact ⟨haltered, RecvFrom.of_map (fun c : Ctx ClientState => c.state.exited) heval⟩
  obtain ⟨s, hrun, hidle, hdown, hreplies, hclient⟩ := check_answered
  simp only [Prod.mk.injEq] at hclient
  obtain ⟨hreq, hmax, hup, -⟩ := hclient
  obtain ⟨c, hreq2, hup2, hping⟩ :=
    EchoSystem.ping checkSystem s hup s.clientSent rfl (by rw [hreq]) (by rw [hmax]; decide)
  have hs : EchoSystem.sender s s.client.state .idle s.clientSent = s := by
    rw [← hidle, EchoSystem.sender]
  rw [hs] at hping
  have hall := (EchoSystem.fresh_run checkSystem_pings checkStart_initial
    (hrun.trans (EchoSystem.fresh_of_quiet hping))).1
  generalize hs2 : EchoSystem.sender s c _ _ = s2 at hall
  have hclient2 : s2.client.state = c := by
    rw [← hs2, EchoSystem.sender]
  have hidle2 : EchoSystem.Idle s2 := by
    rw [← hs2]
    rfl
  have hdown2 : s2.clientDown = false := by
    rw [← hs2]
    exact hdown
  have hup2 : EchoSystem.Running s2 := by
    rw [EchoSystem.Running, hclient2]
    exact hup2
  have hreplies2 : s2.replies = [pingRequest.echo.encode] := by
    rw [← hs2]
    exact hreplies
  obtain ⟨⟨reqs, replies, hinv⟩, hexact⟩ :=
    EchoSystem.idle_run checkSystem_pings checkStart_initial hall
  have hsize : s2.client.recv.curSize = 14 :=
    (EchoSystem.client_parked checkSystem_pings hinv hdown2).curSize
  have harrives : checkSystem.ToClient s2 pingRequest.echo.encode := by
    refine ⟨pingRequest.echo.encode, List.mem_append_left _ ?_, ?_⟩
    · rw [hreplies2]
      exact List.mem_singleton.mpr rfl
    · rw [hsize]
      decide +kernel
  have hwaits : checkSystem.Waits s2 pingRequest.echo.encode := ⟨hidle2, fun h => by cases h⟩
  obtain ⟨ok, c', hreceived, -⟩ := hinv.clientReceives hup2 hdown2 hwaits.calm harrives (.inet 1 1)
  refine ⟨_, hall.tail (.clientReceive hup2 hdown2 hwaits harrives (.inet 1 1) hreceived), ?_⟩
  refine (EchoSystem.receive_exited checkSystem_pings hinv hexact hup2 hdown2 hwaits harrives
    hreceived).mpr ⟨⟨pingRequest.echo, rfl, by decide, by decide, ?_⟩, rfl⟩
  rw [hclient2, hreq2]
  decide

theorem data_integrity_exact_ping : ∃ s,
    Relation.ReflTransGen checkSystem.FreshStep checkStart s ∧
      s.client.state.accepted = [pingRequest.echo.view] ∧
      s.client.state.exited ≠ some .dataIntegrity := by
  obtain ⟨s, hrun, -, -, -, hclient⟩ := check_answered
  have haccepted : s.client.state.accepted = [pingRequest.echo.view] := by
    simp only [Prod.mk.injEq] at hclient
    exact hclient.2.2.2
  exact ⟨s, hrun, haccepted,
    (data_integrity_exact checkSystem checkSystem_pings).1 _ s checkStart_initial hrun⟩

end Sockperf
