import Sockperf.EchoSafety

/-!
# The bookkeeping of sends

`client_send_packet` as a whole, and what a sequence of calls leaves behind when
some of the sends are skipped because the socket would block.
-/

namespace Sockperf

set_option autoImplicit false

namespace Client
variable (clt : Client)

/-- `client_send_packet`, with what was put on the wire. -/
def sendPacket (s : ClientState) (now : TicksTime) (result : SendResult) :
    ClientState × Option (List UInt8) :=
  let s := incSequenceCounter s
  let length := s.request.length.toNat
  let pong := clt.wantsPong s.request
  let s := clt.prepareSend s now
  if s.exited.isSome then (s, none)
  else
    let wire := wireBytes s length
    let s := clt.afterSend (setHeaderToHost s) pong result
    if s.exited.isSome then (s, none)
    else (clt.afterSendPacket s result, if result = .sent then some wire else none)

/-- A call of `client_send_packet`: the reading of the clock and whether the message was sent or
skipped. -/
structure SendCall where
  now : TicksTime
  sent : Bool
  deriving DecidableEq, Repr

def SendCall.result (c : SendCall) : SendResult := if c.sent then .sent else .skipped

def sendPackets (x : ClientState × List (List UInt8)) (calls : List SendCall) :
    ClientState × List (List UInt8) :=
  calls.foldl (fun x c =>
    if x.1.exited.isSome then x
    else
      let r := clt.sendPacket x.1 c.now c.result
      (r.1, x.2 ++ r.2.toList)) x

/-- Whether the mode asks for a reply to message `k`. -/
def asks (k : Nat) : Bool :=
  match clt.pongMode with
  | .normal => k % clt.replyEvery = 0
  | .always => true
  | .never => false

/-- The header of message `k`, in host order. -/
def wireHeader (length : UInt32) (k : Nat) : MsgHeader :=
  ⟨UInt64.ofNat k,
    (if clt.asks k then (MsgHeader.mk 0 0 0).setClient.setPongRequest
      else (MsgHeader.mk 0 0 0).setClient).flags, length⟩

/-- The bytes of message `k`, the header in network order. -/
def wireMessage (length : UInt32) (payload : List UInt8) (k : Nat) : List UInt8 :=
  ((clt.wireHeader length k).hton.bytes ++ payload).take length.toNat

theorem isPongRequest_wireHeader (length : UInt32) (k : Nat) :
    (clt.wireHeader length k).isPongRequest = clt.asks k := by
  unfold wireHeader
  cases clt.asks k with
  | false =>
    exact (by decide : (((MsgHeader.mk 0 0 0).setClient.flags &&& MsgHeader.maskPong) != 0) = false)
  | true =>
    exact (by decide :
      (((MsgHeader.mk 0 0 0).setClient.setPongRequest.flags &&& MsgHeader.maskPong) != 0) = true)

/-! ## One call -/

section Call
variable {clt} {s : ClientState} {seq : UInt64} {length : UInt32}

def stamp (t : PacketTimes) (seqNo : Nat) (time : TicksTime) : PacketTimes :=
  { t with tx := Function.update t.tx (seqNo / t.replyEvery) time }

theorem setTxTime_eq {t : PacketTimes} {seqNo : Nat} (hle : seqNo ≤ t.maxSequenceNo)
    (now : TicksTime) : t.setTxTime seqNo now = some (stamp t seqNo now) := by
  rw [PacketTimes.setTxTime, PacketTimes.seq2index, if_pos hle]
  rfl

theorem clearTxTime_stamp {t : PacketTimes} {seqNo : Nat} (hle : seqNo ≤ t.maxSequenceNo)
    (now : TicksTime) : (stamp t seqNo now).clearTxTime seqNo = some (stamp t seqNo 0) := by
  have hindex : (stamp t seqNo now).seq2index seqNo = some (seqNo / t.replyEvery) := if_pos hle
  rw [PacketTimes.clearTxTime, hindex]
  simp only [stamp, Option.map_some, Function.update_idem]

theorem setHeaderToHost_network : setHeaderToHost (setHeaderToNetwork s) = s := by
  rw [setHeaderToHost, setHeaderToNetwork]
  simp only [MsgHeader.ntoh_hton]

theorem prepareSend_eq (now : TicksTime)
    (hle : clt.wantsPong s.request = true →
      s.request.sequenceNumber.toNat ≤ s.times.maxSequenceNo) :
    clt.prepareSend s now = setHeaderToNetwork
      { s with
        request := clt.outgoing (clt.wantsPong s.request) s.request
        times := if clt.wantsPong s.request then stamp s.times s.request.sequenceNumber.toNat now
          else s.times } := by
  unfold prepareSend outgoing
  by_cases hwants : clt.wantsPong s.request = true
  · simp only [hwants, if_true, (clt.markPong_fields _).1, setTxTime_eq (hle hwants)]
  · simp only [hwants, Bool.false_eq_true, if_false]

theorem sendPacket_of_prepared {p : ClientState} {now : TicksTime} (result : SendResult)
    (hinc : (incSequenceCounter s).request = ⟨seq, clt.idleFlags, length⟩)
    (hprepare : clt.prepareSend (incSequenceCounter s) now = setHeaderToNetwork p)
    (hexited : p.exited = none)
    (hafter : (clt.afterSend p (clt.wantsPong ⟨seq, clt.idleFlags, length⟩) result).exited = none) :
    clt.sendPacket s now result =
      (clt.afterSendPacket
        (clt.afterSend p (clt.wantsPong ⟨seq, clt.idleFlags, length⟩) result) result,
        if result = .sent then some ((p.request.hton.bytes ++ p.payload).take length.toNat)
        else none) := by
  have hnetwork : (setHeaderToNetwork p).exited = none := by
    rw [setHeaderToNetwork]
    exact hexited
  have hwire : wireBytes (setHeaderToNetwork p) length.toNat =
      (p.request.hton.bytes ++ p.payload).take length.toNat := by
    rw [wireBytes, setHeaderToNetwork]
  unfold sendPacket
  simp only [hprepare, hinc, hnetwork, setHeaderToHost_network, hafter, hwire, Option.isSome_none,
    Bool.false_eq_true, if_false]

theorem sendPacket_eq (hreq : s.request = ⟨seq, clt.idleFlags, length⟩) (hexited : s.exited = none)
    (c : SendCall)
    (hle : clt.wantsPong ⟨seq + 1, clt.idleFlags, length⟩ = true →
      (seq + 1).toNat ≤ s.times.maxSequenceNo) :
    clt.sendPacket s c.now c.result =
      ({ s with
          request := ⟨if c.sent then seq + 1 else seq, clt.idleFlags, length⟩
          times := if clt.wantsPong ⟨seq + 1, clt.idleFlags, length⟩ then
            stamp s.times (seq + 1).toNat (if c.sent then c.now else 0) else s.times
          skipCount := if c.sent then s.skipCount else s.skipCount + 1 },
        if c.sent then some (((clt.outgoing (clt.wantsPong ⟨seq + 1, clt.idleFlags, length⟩)
          ⟨seq + 1, clt.idleFlags, length⟩).hton.bytes ++ s.payload).take length.toNat)
        else none) := by
  have hinc : incSequenceCounter s =
      { s with request := ⟨seq + 1, clt.idleFlags, length⟩ } := by
    rw [incSequenceCounter, hreq]
  have hdec : seq + 1 - 1 = seq := UInt64.add_sub_cancel seq 1
  have hfields := clt.markPong_fields ⟨seq + 1, clt.idleFlags, length⟩
  have hunmark := clt.unmarkPong_markPong (seq + 1) length
  obtain ⟨now, sent⟩ := c
  have hprepare : clt.prepareSend (incSequenceCounter s) now = setHeaderToNetwork
      { s with
        request := clt.outgoing (clt.wantsPong ⟨seq + 1, clt.idleFlags, length⟩)
          ⟨seq + 1, clt.idleFlags, length⟩
        times := if clt.wantsPong ⟨seq + 1, clt.idleFlags, length⟩ then
          stamp s.times (seq + 1).toNat now else s.times } := by
    rw [hinc]
    exact prepareSend_eq now hle
  by_cases hwants : clt.wantsPong ⟨seq + 1, clt.idleFlags, length⟩ = true
  · simp only [hwants, if_true, outgoing] at hprepare ⊢
    cases sent with
    | true =>
      rw [sendPacket_of_prepared _ (by rw [hinc]) hprepare hexited]
      · simp [hwants, afterSend, afterSendPacket, SendCall.result, hunmark]
      · simp [hwants, afterSend, SendCall.result, hexited]
    | false =>
      have hclear := clearTxTime_stamp (hle hwants) now
      rw [sendPacket_of_prepared _ (by rw [hinc]) hprepare hexited]
      · simp [-UInt64.toNat_add, hwants, afterSend, afterSendPacket, SendCall.result, hunmark,
          hfields.1, hclear, decSequenceCounter, hdec]
      · simp [-UInt64.toNat_add, hwants, afterSend, SendCall.result, hfields.1, hclear, hexited]
  · simp only [hwants, Bool.false_eq_true, if_false, outgoing] at hprepare ⊢
    cases sent with
    | true =>
      rw [sendPacket_of_prepared _ (by rw [hinc]) hprepare hexited]
      · simp [hwants, afterSend, afterSendPacket, SendCall.result]
      · simp [hwants, afterSend, hexited]
    | false =>
      rw [sendPacket_of_prepared _ (by rw [hinc]) hprepare hexited]
      · simp [hwants, afterSend, afterSendPacket, SendCall.result, decSequenceCounter, hdec]
      · simp [hwants, afterSend, hexited]

theorem sendPacket_exit (hreq : s.request = ⟨seq, clt.idleFlags, length⟩) (c : SendCall)
    (hwants : clt.wantsPong ⟨seq + 1, clt.idleFlags, length⟩ = true)
    (hlt : s.times.maxSequenceNo < (seq + 1).toNat) :
    (clt.sendPacket s c.now c.result).1.exited = some .verifyError := by
  have hinc : incSequenceCounter s =
      { s with request := ⟨seq + 1, clt.idleFlags, length⟩ } := by
    rw [incSequenceCounter, hreq]
  have hset : s.times.setTxTime (seq + 1).toNat c.now = none := by
    rw [PacketTimes.setTxTime, PacketTimes.seq2index, if_neg (not_le.mpr hlt)]
    rfl
  have hprepare : (clt.prepareSend (incSequenceCounter s) c.now).exited = some .verifyError := by
    rw [hinc, prepareSend, if_pos hwants]
    simp only [(clt.markPong_fields _).1, hset]
  unfold sendPacket
  simp only [hprepare, Option.isSome_some, if_true]

end Call

/-! ## Any calls -/

section Calls
variable {clt} {length : UInt32} {payload : List UInt8} {max n j : Nat}
variable {x : ClientState × List (List UInt8)}

variable (clt length payload max) in
/-- `n` messages were sent and `j` were skipped. -/
structure Booked (n j : Nat) (x : ClientState × List (List UInt8)) : Prop where
  request : x.1.request = ⟨UInt64.ofNat n, clt.idleFlags, length⟩
  payload_eq : x.1.payload = payload
  skipCount : x.1.skipCount = j
  wire : x.2 = (List.range n).map fun i => clt.wireMessage length payload (i + 1)
  maxSequenceNo : x.1.times.maxSequenceNo = max
  replyEvery : x.1.times.replyEvery = clt.replyEvery
  tx : ∀ b, x.1.times.tx b ≠ 0 ↔ 1 ≤ b ∧ b * clt.replyEvery ≤ n ∧ clt.pongMode ≠ .never
  exited : x.1.exited = none

theorem booked_initial (hR : 0 < clt.replyEvery) :
    clt.Booked length payload max 0 0 (clt.initial length payload max, []) := by
  refine ⟨rfl, rfl, rfl, rfl, rfl, rfl, fun b => ⟨fun h => absurd rfl h, ?_⟩, rfl⟩
  rintro ⟨hone, hle, -⟩
  have hpos : 0 < b * clt.replyEvery := Nat.mul_pos hone hR
  omega

theorem wantsPong_eq (hn : n < 2 ^ 64) :
    clt.wantsPong ⟨UInt64.ofNat n, clt.idleFlags, length⟩ = clt.asks n := by
  unfold wantsPong asks
  cases clt.pongMode with
  | normal =>
    show ((UInt64.ofNat n).toNat % clt.replyEvery == 0) = _
    rw [UInt64.toNat_ofNat', Nat.mod_eq_of_lt hn]
    rfl
  | always => rfl
  | never => rfl

theorem outgoing_eq_wireHeader (hn : n < 2 ^ 64) :
    clt.outgoing (clt.wantsPong ⟨UInt64.ofNat n, clt.idleFlags, length⟩)
      ⟨UInt64.ofNat n, clt.idleFlags, length⟩ = clt.wireHeader length n := by
  have hfields := clt.outgoing_fields (clt.asks n) ⟨UInt64.ofNat n, clt.idleFlags, length⟩
  have hclient : (MsgHeader.mk 0 0 0).setClient.flags = 1 := by decide
  have hpong : (MsgHeader.mk 0 0 0).setClient.setPongRequest.flags = 3 := by decide
  rw [wantsPong_eq hn]
  apply MsgHeader.eq_mk hfields.1 _ hfields.2
  rw [clt.outgoing_flags]
  unfold asks
  cases clt.pongMode with
  | normal =>
    cases decide (n % clt.replyEvery = 0) with
    | false => exact hclient.symm
    | true => exact hpong.symm
  | always => exact hpong.symm
  | never => exact hclient.symm

theorem asks_dvd (halways : clt.pongMode = .always → clt.replyEvery = 1)
    (hasks : clt.asks n = true) : clt.replyEvery ∣ n ∧ clt.pongMode ≠ .never := by
  unfold asks at hasks
  cases hmode : clt.pongMode with
  | normal =>
    rw [hmode] at hasks
    exact ⟨Nat.dvd_of_mod_eq_zero (by simpa using hasks), by decide⟩
  | always =>
    rw [halways hmode]
    exact ⟨Nat.one_dvd n, by decide⟩
  | never =>
    rw [hmode] at hasks
    cases hasks

theorem not_dvd_of_not_asks (hasks : clt.asks n = false) (hmode : clt.pongMode ≠ .never) :
    ¬ clt.replyEvery ∣ n := by
  unfold asks at hasks
  cases h : clt.pongMode with
  | normal =>
    rw [h] at hasks
    intro hdvd
    simp [Nat.mod_eq_zero_of_dvd hdvd] at hasks
  | always =>
    rw [h] at hasks
    cases hasks
  | never => exact absurd h hmode

theorem tx_step {times : PacketTimes} {c : SendCall} (hR : 0 < clt.replyEvery)
    (halways : clt.pongMode = .always → clt.replyEvery = 1) (hnow : c.now ≠ 0)
    (hevery : times.replyEvery = clt.replyEvery)
    (htx : ∀ b, times.tx b ≠ 0 ↔ 1 ≤ b ∧ b * clt.replyEvery ≤ n ∧ clt.pongMode ≠ .never) (b : Nat) :
    (if clt.asks (n + 1) then stamp times (n + 1) (if c.sent then c.now else 0)
        else times).tx b ≠ 0 ↔
      1 ≤ b ∧ b * clt.replyEvery ≤ n + (if c.sent then 1 else 0) ∧ clt.pongMode ≠ .never := by
  by_cases hasks : clt.asks (n + 1) = true
  · obtain ⟨hdvd, hmode⟩ := asks_dvd halways hasks
    have hlast : (n + 1) / times.replyEvery * clt.replyEvery = n + 1 := by
      rw [hevery]
      exact Nat.div_mul_cancel hdvd
    rw [if_pos hasks, stamp]
    by_cases hb : b = (n + 1) / times.replyEvery
    · -- the block of the message itself
      subst hb
      have hone : 1 ≤ (n + 1) / times.replyEvery :=
        Nat.pos_of_ne_zero fun h => by rw [h] at hlast; omega
      simp only [Function.update_self, hlast]
      cases c.sent with
      | true => simpa [hone, hmode] using hnow
      | false => simp
    · have hne : b * clt.replyEvery ≠ n + 1 := fun h =>
        hb (Nat.eq_of_mul_eq_mul_right hR (h.trans hlast.symm))
      simp only [Function.update_of_ne hb, htx]
      cases c.sent with
      | true =>
        have hle : b * clt.replyEvery ≤ n ↔ b * clt.replyEvery ≤ n + 1 := by omega
        simp [hle]
      | false => simp
  · have hfalse : clt.asks (n + 1) = false := by simpa using hasks
    rw [if_neg hasks, htx]
    cases c.sent with
    | false => simp
    | true =>
      refine and_congr_right fun _ => ⟨fun ⟨hle, hmode⟩ => ⟨by simp; omega, hmode⟩, ?_⟩
      rintro ⟨hle, hmode⟩
      have hne : b * clt.replyEvery ≠ n + 1 := fun h =>
        not_dvd_of_not_asks hfalse hmode ⟨b, by rw [← h, Nat.mul_comm]⟩
      simp only [if_true] at hle
      exact ⟨by omega, hmode⟩

theorem booked_step {c : SendCall} (hR : 0 < clt.replyEvery)
    (halways : clt.pongMode = .always → clt.replyEvery = 1) (hnow : c.now ≠ 0) (hn : n + 1 < 2 ^ 64)
    (hroom : clt.asks (n + 1) = true → n + 1 ≤ max) (h : clt.Booked length payload max n j x) :
    clt.Booked length payload max (n + if c.sent then 1 else 0) (j + if c.sent then 0 else 1)
      (clt.sendPackets x [c]) := by
  have hsucc : UInt64.ofNat n + 1 = UInt64.ofNat (n + 1) := (UInt64.ofNat_add n 1).symm
  have hnat : (UInt64.ofNat (n + 1)).toNat = n + 1 := UInt64.toNat_ofNat_of_lt' hn
  have hsend := sendPacket_eq h.request h.exited c (by
    rw [hsucc, wantsPong_eq hn, hnat, h.maxSequenceNo]
    exact hroom)
  rw [hsucc, wantsPong_eq hn, hnat, h.payload_eq] at hsend
  have houtgoing : clt.outgoing (clt.asks (n + 1)) ⟨UInt64.ofNat (n + 1), clt.idleFlags, length⟩ =
      clt.wireHeader length (n + 1) := by
    rw [← outgoing_eq_wireHeader hn, wantsPong_eq hn]
  have htx := tx_step hR halways hnow h.replyEvery h.tx
  have hrun : clt.sendPackets x [c] = ((clt.sendPacket x.1 c.now c.result).1,
      x.2 ++ (clt.sendPacket x.1 c.now c.result).2.toList) := by
    simp only [sendPackets, List.foldl_cons, List.foldl_nil, h.exited, Option.isSome_none,
      Bool.false_eq_true, if_false]
  rw [hrun, hsend, houtgoing]
  have hkeeps : ∀ time, (if clt.asks (n + 1) then stamp x.1.times (n + 1) time
      else x.1.times).maxSequenceNo = max ∧
      (if clt.asks (n + 1) then stamp x.1.times (n + 1) time
      else x.1.times).replyEvery = clt.replyEvery := by
    intro time
    split <;> exact ⟨h.maxSequenceNo, h.replyEvery⟩
  cases hsent : c.sent with
  | true =>
    simp only [hsent, if_true] at htx ⊢
    refine ⟨rfl, rfl, h.skipCount, ?_, (hkeeps _).1, (hkeeps _).2, htx, h.exited⟩
    rw [List.range_succ, List.map_append, h.wire]
    rfl
  | false =>
    simp only [hsent, Bool.false_eq_true, if_false] at htx ⊢
    refine ⟨rfl, rfl, ?_, ?_, (hkeeps _).1, (hkeeps _).2, htx, h.exited⟩
    · rw [h.skipCount]
    · rw [h.wire]
      exact List.append_nil _

theorem exit_step {c : SendCall} (hn : n + 1 < 2 ^ 64) (hasks : clt.asks (n + 1) = true)
    (hlt : max < n + 1) (h : clt.Booked length payload max n j x) :
    (clt.sendPackets x [c]).1.exited = some .verifyError := by
  have hsucc : UInt64.ofNat n + 1 = UInt64.ofNat (n + 1) := (UInt64.ofNat_add n 1).symm
  have hnat : (UInt64.ofNat (n + 1)).toNat = n + 1 := UInt64.toNat_ofNat_of_lt' hn
  simp only [sendPackets, List.foldl_cons, List.foldl_nil, h.exited, Option.isSome_none,
    Bool.false_eq_true, if_false]
  apply sendPacket_exit h.request c
  · rw [hsucc, wantsPong_eq hn, hasks]
  · rw [hsucc, hnat, h.maxSequenceNo]
    exact hlt

theorem sendPackets_exited (hexit : x.1.exited.isSome = true) (calls : List SendCall) :
    clt.sendPackets x calls = x := by
  induction calls with
  | nil => rfl
  | cons c rest ih =>
    rw [sendPackets, List.foldl_cons, if_pos hexit]
    exact ih

/-- Over any calls: either the bookkeeping is exact, or the process was left at a request that has
no block. -/
theorem booked_run (hR : 0 < clt.replyEvery)
    (halways : clt.pongMode = .always → clt.replyEvery = 1) (calls : List SendCall) :
    ∀ n j x, clt.Booked length payload max n j x → n + calls.length < 2 ^ 64 →
      (∀ c ∈ calls, c.now ≠ 0) →
      clt.Booked length payload max (n + calls.countP (·.sent)) (j + calls.countP (!·.sent))
          (clt.sendPackets x calls) ∨
        max < n + calls.length ∧ (clt.sendPackets x calls).1.exited = some .verifyError := by
  induction calls with
  | nil =>
    intro n j x h _ _
    exact Or.inl h
  | cons c rest ih =>
    intro n j x h hlen hnow
    rw [List.length_cons] at hlen
    have hcons : clt.sendPackets x (c :: rest) = clt.sendPackets (clt.sendPackets x [c]) rest := rfl
    rw [hcons]
    by_cases hroom : clt.asks (n + 1) = true → n + 1 ≤ max
    · have hstep := booked_step hR halways (hnow c List.mem_cons_self) (by omega) hroom h
      have hle : (if c.sent then 1 else 0) ≤ 1 := by split <;> omega
      rcases ih _ _ _ hstep (by omega) fun d hd => hnow d (List.mem_cons_of_mem c hd) with
        hbooked | ⟨hlt, hexit⟩
      · left
        convert hbooked using 1
        · rw [List.countP_cons]
          omega
        · rw [List.countP_cons]
          cases c.sent
          · simp
            omega
          · simp
      · exact Or.inr ⟨by rw [List.length_cons]; omega, hexit⟩
    · obtain ⟨hasks, hlt⟩ := Classical.not_imp.mp hroom
      have hexit := exit_step (c := c) (by omega) hasks (by omega) h
      right
      rw [sendPackets_exited (by rw [hexit]; rfl)]
      exact ⟨by rw [List.length_cons]; omega, hexit⟩

/-- The bookkeeping of sends is exact, whatever was sent and whatever was skipped. -/
theorem send_bookkeeping_exact (clt : Client) (hR : 0 < clt.replyEvery)
    (halways : clt.pongMode = .always → clt.replyEvery = 1) (length : UInt32)
    (payload : List UInt8) (max : Nat) (calls : List SendCall) (hlen : calls.length < 2 ^ 64)
    (hnow : ∀ c ∈ calls, c.now ≠ 0) :
    ∃ s wire, clt.sendPackets (clt.initial length payload max, []) calls = (s, wire) ∧
      (calls.length ≤ max → s.exited = none) ∧
      (∀ k, (clt.wireHeader length k).isPongRequest = clt.asks k) ∧
      (s.exited = none →
        wire = (List.range (calls.countP (·.sent))).map
          (fun i => clt.wireMessage length payload (i + 1)) ∧
        s.request = ⟨UInt64.ofNat (calls.countP (·.sent)), clt.idleFlags, length⟩ ∧
        s.skipCount = calls.countP (!·.sent) ∧
        ∀ b, s.times.tx b ≠ 0 ↔
          1 ≤ b ∧ b * clt.replyEvery ≤ calls.countP (·.sent) ∧ clt.pongMode ≠ .never) := by
  have hinitial : clt.Booked length payload max 0 0 (clt.initial length payload max, []) :=
    booked_initial hR
  have hrun := booked_run hR halways calls 0 0 _ hinitial (by omega) hnow
  rw [Nat.zero_add, Nat.zero_add, Nat.zero_add] at hrun
  refine ⟨_, _, rfl, ?_, clt.isPongRequest_wireHeader length, ?_⟩
  · intro hmax
    rcases hrun with h | ⟨hlt, -⟩
    · exact h.exited
    · omega
  · intro hexited
    rcases hrun with h | ⟨-, hexit⟩
    · exact ⟨h.wire, h.request, h.skipCount, h.tx⟩
    · have hnone := hexit.symm.trans hexited
      cases hnone

end Calls

/-- A client that asks for a reply to every second message. -/
def everySecond : Client where
  msMaxSize := 14
  pongMode := .normal
  replyEvery := 2
  workWithSrvNum := 1
  isMulticast := false
  isStream := false
  dataIntegrity := false
  outside := fun _ => ⟨false, 0⟩

/-- The second message is skipped once and takes its number at the next attempt. -/
theorem send_bookkeeping_exact_retry : ∃ s wire,
    everySecond.sendPackets (everySecond.initial 14 [] 4, [])
        [⟨5, true⟩, ⟨6, false⟩, ⟨7, true⟩] = (s, wire) ∧
      wire = [everySecond.wireMessage 14 [] 1, everySecond.wireMessage 14 [] 2] ∧
      s.request.sequenceNumber = 2 ∧ s.skipCount = 1 ∧ s.times.tx 1 ≠ 0 := by
  obtain ⟨s, wire, hrun, hexited, -, hbooks⟩ :=
    send_bookkeeping_exact everySecond (by decide) (by decide) 14 [] 4
      [⟨5, true⟩, ⟨6, false⟩, ⟨7, true⟩] (by decide) (by decide)
  obtain ⟨hwire, hrequest, hskip, htx⟩ := hbooks (hexited (by decide))
  refine ⟨s, wire, hrun, hwire, ?_, hskip, ?_⟩
  · rw [hrequest]
    rfl
  · exact (htx 1).mpr (by decide)

end Client

end Sockperf
