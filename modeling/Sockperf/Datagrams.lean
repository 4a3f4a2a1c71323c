import Mathlib.Data.UInt
import Sockperf.ReceiveWindow

/-!
# Independence of datagrams

The messages that a datagram hands to the server, compared between a socket with
a past and a fresh one. A datagram socket uses the stream accumulator, so the
comparison is decided by what earlier datagrams left in `cur_offset` and
`cur_size`.
-/

namespace Sockperf

open Memory While
set_option autoImplicit false

universe u v
variable {σ : Type u}

section Same
variable {m m' : Mem} {a a' : Int} {n : Nat}

theorem getHeader_same (h : load m a n = load m' a' n) (hn : 14 ≤ n) :
    (Message.mk a).getHeader m = (Message.mk a').getHeader m' := by
  have h14 : load m a effectiveSize = load m' a' effectiveSize := by
    rw [← load_take (show effectiveSize ≤ n from hn), h, load_take (show effectiveSize ≤ n from hn)]
  rw [Message.getHeader, Message.getHeader, h14]

theorem load_same_drop {k : Nat} (h : load m a (n + k) = load m' a' (n + k)) :
    load m (a + n) k = load m' (a' + n) k := by
  rw [← load_drop, h, load_drop]

theorem setHeader_same (h : load m a n = load m' a' n) (hn : 14 ≤ n) (hd : MsgHeader) :
    load ((Message.mk a).setHeader m hd) a n = load ((Message.mk a').setHeader m' hd) a' n := by
  obtain ⟨k, rfl⟩ := Nat.exists_eq_add_of_le hn
  have hlen : 14 = hd.bytes.length := by simp [effectiveSize]
  rw [load_add, load_add, Message.setHeader, Message.setHeader, load_store_same' hlen,
    load_store_same' hlen, load_store_disjoint (Or.inr (by rw [← hlen])),
    load_store_disjoint (Or.inr (by rw [← hlen])), load_same_drop h]

theorem mapHeader_same (h : load m a n = load m' a' n) (hn : 14 ≤ n) (f : MsgHeader → MsgHeader) :
    load ((Message.mk a).setHeader m (f ((Message.mk a).getHeader m))) a n =
      load ((Message.mk a').setHeader m' (f ((Message.mk a').getHeader m'))) a' n := by
  rw [getHeader_same h hn]
  exact setHeader_same h hn _

theorem getLength_same (h : load m a n = load m' a' n) (hn : 14 ≤ n) :
    (Message.mk a).getLength m = (Message.mk a').getLength m' := by
  rw [Message.getLength, Message.getLength, getHeader_same h hn]

theorem isValidHeader_same (h : load m a n = load m' a' n) (hn : 14 ≤ n) (msMaxSize : Int) :
    (Message.mk a).isValidHeader msMaxSize m = (Message.mk a').isValidHeader msMaxSize m' := by
  rw [Message.isValidHeader, Message.isValidHeader, getLength_same h hn]

end Same

/-- Two results of a callback on messages at `a` and `a'` agree, in memory as far as `n` bytes. -/
structure SameResult (a a' : Int) (n : Nat) (r r' : Bool × Mem × σ) : Prop where
  ok : r.1 = r'.1
  state : r.2.2 = r'.2.2
  mem : load r.2.1 a n = load r'.2.1 a' n

theorem SameResult.of_mem {a a' : Int} {n : Nat} {m m' : Mem} (ok : Bool) (s : σ)
    (h : load m a n = load m' a' n) : SameResult a a' n (ok, m, s) (ok, m', s) := ⟨rfl, rfl, h⟩

theorem SameResult.ite {a a' : Int} {n : Nat} {x x' y y' : Bool × Mem × σ} {b : Prop} [Decidable b]
    (h : b → SameResult a a' n x x') (h' : ¬ b → SameResult a a' n y y') :
    SameResult a a' n (if b then x else y) (if b then x' else y') := by
  split
  · next hb => exact h hb
  · next hb => exact h' hb

/-- A callback that depends on the bytes of a message only, not on the place they lie at. -/
def Uniform (msMaxSize : Int) (handle : Callback σ) : Prop :=
  ∀ m m' a a' (n : Nat) s, 14 ≤ n → load m a n = load m' a' n →
    ((Message.mk a).isValidHeader msMaxSize m = true → (Message.mk a).getLength m ≤ n) →
    SameResult a a' n (handle m ⟨a⟩ s) (handle m' ⟨a'⟩ s)

theorem view_same {msMaxSize : Int} (h0 : 0 ≤ msMaxSize) (h31 : msMaxSize < 2 ^ 31) {m m' : Mem}
    {a a' : Int} {n : Nat} (h : load m a n = load m' a' n) (hn : 14 ≤ n)
    (hL : (Message.mk a).isValidHeader msMaxSize m = true → (Message.mk a).getLength m ≤ n) :
    (Message.mk a).view msMaxSize m = (Message.mk a').view msMaxSize m' := by
  have hh := getHeader_same h hn
  have hv := isValidHeader_same h hn msMaxSize
  simp only [Message.view, ← hh, ← hv]
  split
  · next hval =>
    have hle := (Message.isValidHeader_iff _ _ h0 h31).mp hval
    have hlen := hL hval
    rw [Message.getLength_eq _ _ h31 hle] at hlen
    obtain ⟨k, hk⟩ := Nat.exists_eq_add_of_le hn
    have hbody : load m (a + (14 : Nat)) k = load m' (a' + (14 : Nat)) k := by
      subst hk
      exact load_same_drop h
    have hj : ((Message.mk a).getHeader m).length.toNat - effectiveSize ≤ k := by
      simp only [effectiveSize]
      omega
    have := congrArg (List.take (((Message.mk a).getHeader m).length.toNat - effectiveSize)) hbody
    rw [load_take hj, load_take hj] at this
    simp only [Message.getData]
    rw [show ((effectiveSize : Nat) : Int) = (14 : Nat) from rfl, this]
  · rfl

theorem Uniform.logging {msMaxSize : Int} {handle : Callback σ} (h0 : 0 ≤ msMaxSize)
    (h31 : msMaxSize < 2 ^ 31) (h : Uniform msMaxSize handle) :
    Uniform msMaxSize (logging msMaxSize handle) := by
  intro m m' a a' n s hn hload hL
  obtain ⟨hok, hstate, hmem⟩ := h m m' a a' n s.1 hn hload hL
  refine ⟨hok, ?_, hmem⟩
  simp only [Sockperf.logging, hstate, view_same h0 h31 hload hn hL]

section Server
variable {γ : Type v} (srv : Server γ) (recvfromAddr : SockAddr)

theorem Server.reply_same (result : SendResult) {m m' : Mem} {a a' : Int} {n : Nat}
    (s : ServerState γ) (hn : 14 ≤ n) (h : load m a n = load m' a' n)
    (hL : (Message.mk a).getLength m ≤ n) :
    SameResult a a' n (srv.reply recvfromAddr result m ⟨a⟩ s)
      (srv.reply recvfromAddr result m' ⟨a'⟩ s) := by
  have hreply : load (srv.prepareHeader m ⟨a⟩) a n = load (srv.prepareHeader m' ⟨a'⟩) a' n := by
    unfold Server.prepareHeader
    split
    · exact h
    · unfold Message.setServer
      exact mapHeader_same h hn MsgHeader.setServer
  rw [← srv.prepareHeader_getLength] at hL
  unfold Server.reply
  dsimp only
  generalize srv.prepareHeader m ⟨a⟩ = p at hreply hL
  generalize srv.prepareHeader m' ⟨a'⟩ = p' at hreply
  have hnet : load ((Message.mk a).setHeaderToNetwork p) a n =
      load ((Message.mk a').setHeaderToNetwork p') a' n := by
    unfold Message.setHeaderToNetwork
    exact mapHeader_same hreply hn MsgHeader.hton
  have hhost : load ((Message.mk a).setHeaderToHost ((Message.mk a).setHeaderToNetwork p)) a n =
      load ((Message.mk a').setHeaderToHost ((Message.mk a').setHeaderToNetwork p')) a' n := by
    unfold Message.setHeaderToHost
    exact mapHeader_same hnet hn MsgHeader.ntoh
  have hsent : load ((Message.mk a).setHeaderToNetwork p) a ((Message.mk a).getLength p).toNat =
      load ((Message.mk a').setHeaderToNetwork p') a' ((Message.mk a).getLength p).toNat := by
    have hle : ((Message.mk a).getLength p).toNat ≤ n := by omega
    rw [← load_take hle, hnet, load_take hle]
  rw [← getLength_same hreply hn]
  cases Server.msgSendto ((Message.mk a).getLength p) result with
  | sent =>
    dsimp only
    rw [hsent]
    exact SameResult.of_mem true _ hhost
  | skipped => exact SameResult.of_mem true s hhost
  | shutdown => exact SameResult.of_mem false _ hnet
  | failed => exact SameResult.of_mem true s hhost

theorem Server.calcGaps_same {a a' : Int} {n : Nat} (hn : 14 ≤ n)
    {r r' : Bool × Mem × ServerState γ} (h : SameResult a a' n r r') :
    SameResult a a' n (srv.calcGaps recvfromAddr ⟨a⟩ r) (srv.calcGaps recvfromAddr ⟨a'⟩ r') := by
  have hseq : (Message.mk a).getSequenceCounter r.2.1 =
      (Message.mk a').getSequenceCounter r'.2.1 := by
    rw [Message.getSequenceCounter, Message.getSequenceCounter, getHeader_same h.mem hn]
  unfold Server.calcGaps
  rw [← h.ok, ← h.state, ← hseq]
  exact SameResult.ite (fun _ => .of_mem true _ h.mem) (fun _ => .of_mem false _ h.mem)

theorem Server.handleMessage_uniform : Uniform srv.msMaxSize (srv.handleMessage recvfromAddr) := by
  intro m m' a a' n s hn hload hL
  have same : ∀ ok (t : ServerState γ), SameResult a a' n (ok, m, t) (ok, m', t) :=
    fun ok t => SameResult.of_mem ok t hload
  unfold Server.handleMessage
  dsimp only
  rw [← getHeader_same hload hn, ← isValidHeader_same hload hn srv.msMaxSize]
  refine SameResult.ite (fun _ => same _ _) fun hval => ?_
  refine SameResult.ite (fun _ => same _ _) fun _ => ?_
  refine SameResult.ite (fun _ => same _ _) fun _ => ?_
  refine SameResult.ite (fun _ => same _ _) fun _ => ?_
  refine SameResult.ite (fun _ => same _ _) fun _ => srv.calcGaps_same recvfromAddr hn ?_
  refine SameResult.ite (fun _ => ?_) fun _ => same _ _
  exact srv.reply_same recvfromAddr _ _ hn hload (hL (by simpa using hval))

end Server

/-- Two loops in front of the same unread bytes, in the same state otherwise. -/
structure Loop.Parallel (l l' : Loop σ) : Prop where
  len : l'.len = l.len
  nonneg : 0 ≤ l.len
  state : l'.ctx.state = l.ctx.state
  direct : 0 < l.len → l.direct = true ∧ l'.direct = true
  start : 0 < l.len → l.offset = 0 ∧ l'.offset = 0
  idle : 0 < l.len → l.ctx.recv.curOffset = 0 ∧ l'.ctx.recv.curOffset = 0
  size : 0 < l.len → l'.ctx.recv.curSize = l.ctx.recv.curSize ∧
    l'.ctx.recv.maxSize = l.ctx.recv.maxSize
  data : 0 < l.len → load l.ctx.mem l.ctx.recv.curAddr l.len.toNat =
    load l'.ctx.mem l'.ctx.recv.curAddr l.len.toNat

theorem Loop.Parallel.of_zero {l l' : Loop σ} (h : l.len = 0) (h' : l'.len = 0)
    (hs : l'.ctx.state = l.ctx.state) : Loop.Parallel l l' := by
  refine ⟨by rw [h, h'], h.ge, hs, ?_, ?_, ?_, ?_, ?_⟩ <;> omega

section Parallel
variable {msMaxSize : Int} {handle : Callback σ} {l l' : Loop σ}

theorem Loop.Parallel.hand (hu : Uniform msMaxSize handle) (h : Loop.Parallel l l')
    (hlen : 14 ≤ l.len) {n s s' : Int}
    (hL : (Message.mk l.ctx.recv.curAddr).isValidHeader msMaxSize l.ctx.matchHeader.mem = true →
      (Message.mk l.ctx.recv.curAddr).getLength l.ctx.matchHeader.mem ≤ l.len)
    (hn0 : 0 ≤ n) (hn : n ≤ l.len) (hs : n < l.len → s = s')
    (hc : processChunk msMaxSize (l.prepared .inPlace) l.chunkLen =
      ({ l.ctx.matchHeader with recv := { l.ctx.recv with curSize := s, curOffset := 0 } }, n))
    (hc' : processChunk msMaxSize (l'.prepared .inPlace) l'.chunkLen =
      ({ l'.ctx.matchHeader with recv := { l'.ctx.recv with curSize := s', curOffset := 0 } }, n)) :
    (∃ k k', l.turn .inPlace msMaxSize handle = .next k ∧
      l'.turn .inPlace msMaxSize handle = .next k' ∧ Loop.Parallel k k') ∨
    ∃ q q', l.turn .inPlace msMaxSize handle = .done q ∧
      l'.turn .inPlace msMaxSize handle = .done q' ∧ q'.1 = q.1 ∧ q'.2.state = q.2.state := by
  have hpos : 0 < l.len := by omega
  have hlen' := h.len
  have h14 : 14 ≤ l.len.toNat := by omega
  obtain ⟨hz, hz'⟩ := h.idle hpos
  obtain ⟨hd, hd'⟩ := h.direct hpos
  obtain ⟨ho, ho'⟩ := h.start hpos
  have hmem : load l.ctx.matchHeader.mem l.ctx.recv.curAddr l.len.toNat =
      load l'.ctx.matchHeader.mem l'.ctx.recv.curAddr l.len.toNat := by
    rw [matchHeader_mem_of_lt _ (by omega), matchHeader_mem_of_lt _ (by omega)]
    unfold Message.setHeaderToHost
    exact mapHeader_same (h.data hpos) h14 MsgHeader.ntoh
  have same := hu _ _ _ _ _ l.ctx.state h14 hmem (by
    intro hv
    have := hL hv
    omega)
  have hturn := Loop.turn_deliver handle hpos hc rfl
  have hturn' := Loop.turn_deliver handle (by omega) hc' rfl
  simp only [matchHeader_msg, matchHeader_state, h.state] at hturn hturn'
  rw [← same.ok, ← same.state] at hturn'
  generalize handle l.ctx.matchHeader.mem ⟨l.ctx.recv.curAddr⟩ l.ctx.state = r at same hturn hturn'
  generalize handle l'.ctx.matchHeader.mem ⟨l'.ctx.recv.curAddr⟩ l.ctx.state = r' at same hturn'
  cases hr : r.1 with
  | false =>
    rw [hr, if_neg Bool.false_ne_true] at hturn hturn'
    exact Or.inr ⟨_, _, hturn, hturn', rfl, rfl⟩
  | true =>
    rw [hr, if_pos rfl] at hturn hturn'
    have hdata : load r.2.1 (l.ctx.recv.curAddr + n) (l.len - n).toNat =
        load r'.2.1 (l'.ctx.recv.curAddr + n) (l.len - n).toNat := by
      have hsplit : l.len.toNat = n.toNat + (l.len - n).toNat := by omega
      have hsame := same.mem
      rw [hsplit] at hsame
      have hdrop := load_same_drop hsame
      rwa [Int.toNat_of_nonneg hn0] at hdrop
    refine Or.inl ⟨_, _, hturn, hturn', ?_, ?_, rfl, fun _ => ⟨rfl, rfl⟩, fun _ => ⟨rfl, rfl⟩,
      fun _ => ⟨rfl, rfl⟩, fun hm => ⟨?_, (h.size hpos).2⟩, fun _ => ?_⟩
    · simp only [Loop.advance, hlen']
    · simp only [Loop.advance]
      omega
    · simp only [Loop.advance] at hm ⊢
      exact (hs (by omega)).symm
    · simpa only [Loop.advance, hd, hd', if_true, ho, ho', zero_add] using hdata

theorem Loop.Parallel.wait (h : Loop.Parallel l l') (hpos : 0 < l.len) {d d' : Ctx σ}
    (hp : processChunk msMaxSize (l.prepared .inPlace) l.chunkLen = (d, l.len))
    (hp' : processChunk msMaxSize (l'.prepared .inPlace) l'.chunkLen = (d', l.len))
    (hd : d.recv.curOffset ≠ 0) (hd' : d'.recv.curOffset ≠ 0) (hs : d.state = l.ctx.state)
    (hs' : d'.state = l'.ctx.state) :
    ∃ k k', l.turn .inPlace msMaxSize handle = .next k ∧
      l'.turn .inPlace msMaxSize handle = .next k' ∧ Loop.Parallel k k' := by
  have hpos' : 0 < l'.len := by
    rw [h.len]
    exact hpos
  refine ⟨_, _, Loop.turn_keep handle hpos hp hd, Loop.turn_keep handle hpos' hp' hd',
    .of_zero (sub_self l.len) ?_ ?_⟩
  · rw [h.len]
    exact sub_self l.len
  · rw [hs, hs']
    exact h.state

theorem Loop.Parallel.announced (h : Loop.Parallel l l') (h14 : 14 ≤ l.len) :
    l'.ctx.announced = l.ctx.announced := by
  have hpos : 0 < l.len := by omega
  obtain ⟨hz, hz'⟩ := h.idle hpos
  have hload := getHeader_same (h.data hpos) (show 14 ≤ l.len.toNat by omega)
  simp only [← matchHeader_pendingLength, Ctx.pendingLength, matchHeader_recv,
    matchHeader_mem_of_lt l.ctx (by omega), matchHeader_mem_of_lt l'.ctx (by omega),
    Message.setHeaderToHost, Message.getHeader_setHeader, hload]

theorem Loop.parallel_lockstep (h0 : 0 ≤ msMaxSize) (h31 : msMaxSize < 2 ^ 31)
    (hu : Uniform msMaxSize handle) :
    Lockstep (Loop.turn .inPlace msMaxSize handle) (Loop.turn .inPlace msMaxSize handle)
      Loop.Parallel fun q q' => q'.1 = q.1 ∧ q'.2.state = q.2.state := by
  intro l l' h
  have hlen' := h.len
  rcases h.nonneg.eq_or_lt with hzero | hpos
  · exact Or.inr ⟨_, _, Loop.turn_exit hzero.ge, Loop.turn_exit (by omega), rfl, by simp [h.state]⟩
  obtain ⟨hz, hz'⟩ := h.idle hpos
  obtain ⟨hd, hd'⟩ := h.direct hpos
  obtain ⟨hsize, hmax⟩ := h.size hpos
  have hprep : l.prepared .inPlace = l.ctx := Loop.prepared_direct hd
  have hprep' : l'.prepared .inPlace = l'.ctx := Loop.prepared_direct hd'
  have hchunk : l.chunkLen = l.len := Loop.chunkLen_direct hd
  have hchunk' : l'.chunkLen = l.len := (Loop.chunkLen_direct hd').trans hlen'
  have hproc' : processChunk msMaxSize (l'.prepared .inPlace) l'.chunkLen =
      processChunk msMaxSize l'.ctx l.len := by
    rw [hprep', hchunk']
  have ho := processChunk_outcome h0 h31 (l.prepared .inPlace) l.chunkLen
  generalize hp : processChunk msMaxSize (l.prepared .inPlace) l.chunkLen = r at ho
  rw [hprep, hchunk] at ho
  cases ho with
  | short lt =>
    have hp' := hproc'.trans (processChunk_short (by omega))
    exact Or.inl (h.wait hpos hp hp' (by simp only; omega) (by simp only; omega) rfl rfl)
  | oversize ge big =>
    have hann := h.announced (by omega)
    have hp' := hproc'.trans (processChunk_oversize h0 h31 (by omega) (by rw [hann]; exact big))
    refine h.hand hu (by omega) (fun hv => ?_) (by omega) le_rfl
      (fun hlt => absurd hlt (lt_irrefl _)) hp hp'
    rw [← matchHeader_msg, Message.isValidHeader_iff _ _ h0 h31] at hv
    exact absurd big (not_lt.mpr hv)
  | incomplete ge le lt =>
    have hann := h.announced (by omega)
    have hp' := hproc'.trans (processChunk_incomplete h0 h31 (by omega) (by rw [hann]; exact le)
      (by rw [hann]; omega))
    exact Or.inl (h.wait hpos hp hp' (by simp only; omega) (by simp only; omega)
      (matchHeader_state _) (matchHeader_state _))
  | complete ge le reached =>
    have hann := h.announced (by omega)
    have hp' : processChunk msMaxSize (l'.prepared .inPlace) l'.chunkLen =
        ({ l'.ctx.matchHeader with recv := { l'.ctx.recv with
          curSize := if l.len - (l.ctx.announced - l.ctx.recv.curOffset) ≠ 0
            then l.ctx.recv.curSize - (l.ctx.announced - l.ctx.recv.curOffset)
            else l.ctx.recv.maxSize
          curOffset := 0 } }, l.ctx.announced - l.ctx.recv.curOffset) := by
      rw [hproc', processChunk_complete h0 h31 (by omega) (by rw [hann]; exact le)
        (by rw [hann]; omega), hann, hsize, hmax, hz, hz']
    refine h.hand hu (by omega) (fun _ => ?_) (by omega) (by omega) (fun _ => rfl) hp hp'
    have hg := Message.getLength_eq l.ctx.matchHeader.msg l.ctx.matchHeader.mem h31 le
    rw [← matchHeader_msg, hg]
    change (l.ctx.announced : Int) ≤ l.len
    omega

end Parallel

section Sized
variable (maxSize msMaxSize : Int)

structure Ctx.Sized (c : Ctx σ) : Prop where
  max_eq : c.recv.maxSize = maxSize
  sound : c.Sound msMaxSize
  idle : c.recv.curOffset = 0 → c.recv.curSize ≤ maxSize
  short : 0 < c.recv.curOffset → c.recv.curOffset < 14 →
    c.recv.curOffset + c.recv.curSize ≤ maxSize
  long : 14 ≤ c.recv.curOffset → c.recv.curSize = c.pendingLength - c.recv.curOffset

structure Loop.Sized (l : Loop σ) : Prop where
  ctx : l.ctx.Sized maxSize msMaxSize
  sound : l.Sound msMaxSize
  nonneg : 0 ≤ l.len
  len_le : 0 < l.len → l.len ≤ l.ctx.recv.curSize

end Sized

section SizedStep
variable {maxSize msMaxSize : Int} {handle : Callback σ} {l : Loop σ} {c : Ctx σ}

theorem Ctx.Sized.congr {c' : Ctx σ} (h : c.Sized maxSize msMaxSize) (hrecv : c'.recv = c.recv)
    (hlen : 14 ≤ c.recv.curOffset → c'.pendingLength = c.pendingLength) :
    c'.Sized maxSize msMaxSize := by
  refine ⟨hrecv ▸ h.max_eq, h.sound.congr hrecv hlen, hrecv ▸ h.idle, hrecv ▸ h.short, ?_⟩
  rw [hrecv]
  intro hp
  rw [hlen hp]
  exact h.long hp

theorem Ctx.Sized.of_zero (hmax : c.recv.maxSize = maxSize) (hz : c.recv.curOffset = 0)
    (hle : c.recv.curSize ≤ maxSize) : c.Sized maxSize msMaxSize :=
  ⟨hmax, .of_zero hz, fun _ => hle, fun hp => absurd hz hp.ne', fun hp => by omega⟩

theorem Loop.Sized.enter {buf len : Int} (h : c.Sized maxSize msMaxSize) (hlen : 0 ≤ len)
    (hle : len ≤ c.recv.curSize) : (enter c buf len).Sized maxSize msMaxSize := by
  have hs := h.sound.enter buf len
  by_cases hz : c.recv.curOffset = 0
  · rw [enter_of_zero hz] at hs ⊢
    exact ⟨.of_zero h.max_eq hz (h.idle hz), hs, hlen, fun _ => hle⟩
  · rw [enter_of_ne hz] at hs ⊢
    exact ⟨h, hs, hlen, fun _ => hle⟩

theorem Loop.Sized.finish (h : l.Sized maxSize msMaxSize) :
    (l.finish .inPlace).Sized maxSize msMaxSize := by
  by_cases hz : l.ctx.recv.curOffset = 0
  · have hfin : l.finish .inPlace =
        { l.ctx with recv := { l.ctx.recv with curAddr := l.ctx.recv.buf } } := if_pos hz
    rw [hfin]
    exact .of_zero h.ctx.max_eq hz (h.ctx.idle hz)
  · have hrecv := Loop.finish_inPlace_recv hz
    refine h.ctx.congr hrecv fun _ => ?_
    rw [Ctx.pendingLength, hrecv, Loop.finish_inPlace_mem, Ctx.pendingLength]

/-- A chunk leaves the sizes right, and a tail behind a delivered message fits the read. -/
theorem Loop.Sized.chunk (h0 : 0 ≤ msMaxSize) (h31 : msMaxSize < 2 ^ 31) (h14 : 14 ≤ maxSize)
    (hms : maxSize ≤ msMaxSize) {n : Int} (h : l.Sized maxSize msMaxSize) (hlen : 0 < l.len)
    (hp : processChunk msMaxSize (l.prepared .inPlace) l.chunkLen = (c, n)) :
    c.Sized maxSize msMaxSize ∧ n ≤ l.len ∧ (c.recv.curOffset ≠ 0 → n = l.len) ∧
      (n < l.len → l.len - n ≤ c.recv.curSize) := by
  have hle := h.len_le hlen
  have hnn := h.sound.ctx.nonneg
  have hidle := h.ctx.idle
  have hshort := h.ctx.short
  have hrecv : (l.prepared .inPlace).recv = l.ctx.recv := Loop.prepared_recv
  have hmax : (l.prepared .inPlace).recv.maxSize = maxSize := by rw [hrecv, h.ctx.max_eq]
  have hlong : 14 ≤ l.ctx.recv.curOffset →
      l.ctx.recv.curSize = (l.prepared .inPlace).announced - l.ctx.recv.curOffset := by
    intro hp
    rw [Loop.announced_of_le hp]
    exact h.ctx.long hp
  have hsound := processChunk_sound (c := l.prepared .inPlace) (n := l.chunkLen) h0 h31
    (by rwa [hrecv]) (by rwa [Loop.chunkLen_of_le hle])
  have ho := processChunk_outcome h0 h31 (l.prepared .inPlace) l.chunkLen
  rw [hp, Loop.chunkLen_of_le hle] at ho
  rw [hp] at hsound
  have hlength := matchHeader_pendingLength (l.prepared .inPlace)
  simp only [Ctx.pendingLength, matchHeader_recv, hrecv] at hlength
  cases ho with
  | short lt =>
    rw [hrecv] at lt
    refine ⟨⟨hmax, hsound, fun hz => ?_, fun _ _ => ?_, fun hge => ?_⟩, le_rfl, fun _ => rfl,
      fun hlt => absurd hlt (lt_irrefl _)⟩
    · simp only [hrecv] at hz
      omega
    · simp only [hrecv]
      split <;> omega
    · simp only [hrecv] at hge
      omega
  | oversize =>
    exact ⟨.of_zero hmax rfl hmax.le, le_rfl, fun _ => rfl, fun hlt => absurd hlt (lt_irrefl _)⟩
  | incomplete ge le lt =>
    refine ⟨⟨hmax, hsound, fun hz => ?_, fun _ hlt => ?_, fun _ => ?_⟩, le_rfl, fun _ => rfl,
      fun hlt => absurd hlt (lt_irrefl _)⟩
    · simp only [hrecv] at hz
      omega
    · simp only at hlt
      omega
    · simp only [Ctx.pendingLength, hlength, hrecv] at lt ⊢
      split <;> omega
  | complete ge le reached =>
    simp only [hrecv] at ge reached ⊢
    have hctx := h.ctx.max_eq
    refine ⟨.of_zero hctx rfl ?_, by omega, fun hz => absurd rfl hz, fun hlt => ?_⟩
    · simp only
      split <;> omega
    · rw [if_pos (by omega)]
      omega

theorem Loop.Sized.next (h0 : 0 ≤ msMaxSize) (h31 : msMaxSize < 2 ^ 31) (h14 : 14 ≤ maxSize)
    (hms : maxSize ≤ msMaxSize) {l' : Loop σ} (h : l.Sized maxSize msMaxSize)
    (ht : l.turn .inPlace msMaxSize handle = .next l') : l'.Sized maxSize msMaxSize := by
  have hs := h.sound.next h0 h31 ht
  rcases h.nonneg.eq_or_lt with hlen | hlen
  · rw [Loop.turn_exit hlen.ge] at ht
    cases ht
  generalize hp : processChunk msMaxSize (l.prepared .inPlace) l.chunkLen = r
  obtain ⟨c, n⟩ := r
  obtain ⟨hc, hn, hkeep, htail⟩ := h.chunk h0 h31 h14 hms hlen hp
  by_cases hz : c.recv.curOffset = 0
  · rw [Loop.turn_deliver handle hlen hp hz] at ht
    split at ht
    · cases ht
      refine ⟨.of_zero hc.max_eq hz (hc.idle hz), hs, ?_, fun hpos => ?_⟩
      · simp only [Loop.advance]
        omega
      · simp only [Loop.advance] at hpos ⊢
        exact htail (by omega)
    · cases ht
  · rw [Loop.turn_keep handle hlen hp hz] at ht
    obtain rfl := hkeep hz
    cases ht
    exact ⟨hc, hs, by simp, fun hpos => by simp at hpos⟩

theorem Loop.Sized.done (h0 : 0 ≤ msMaxSize) (h31 : msMaxSize < 2 ^ 31) (h14 : 14 ≤ maxSize)
    (hms : maxSize ≤ msMaxSize) {ok : Bool} (h : l.Sized maxSize msMaxSize)
    (ht : l.turn .inPlace msMaxSize handle = .done (ok, c)) : c.Sized maxSize msMaxSize := by
  rcases h.nonneg.eq_or_lt with hlen | hlen
  · rw [Loop.turn_exit hlen.ge] at ht
    cases ht
    exact h.finish
  generalize hp : processChunk msMaxSize (l.prepared .inPlace) l.chunkLen = r
  obtain ⟨c', n⟩ := r
  have hc := (h.chunk h0 h31 h14 hms hlen hp).1
  by_cases hz : c'.recv.curOffset = 0
  · rw [Loop.turn_deliver handle hlen hp hz] at ht
    split at ht
    · cases ht
    · cases ht
      exact .of_zero hc.max_eq hz (hc.idle hz)
  · rw [Loop.turn_keep handle hlen hp hz] at ht
    cases ht

theorem ServerRun.sized {γ : Type v} {srv : Server γ} {base : Int}
    {Ok : Ctx (ServerState γ) → Server.Received → Prop} (h0 : 0 ≤ srv.msMaxSize)
    (h31 : srv.msMaxSize < 2 ^ 31) (h14 : 14 ≤ maxSize) (hms : maxSize ≤ srv.msMaxSize)
    {c : Ctx (ServerState γ)} (h : ServerRun srv base maxSize Ok c) : c.Sized maxSize srv.msMaxSize := by
  refine h.invariant (Ctx.Sized maxSize srv.msMaxSize) ?_ ?_ ?_ ?_
  · intro c hc
    exact .of_zero (by rw [hc]; rfl) (by rw [hc]; rfl) (by rw [hc]; exact le_rfl)
  · intro c m ih hm
    exact ih.congr rfl fun hp => Ctx.pendingLength_env hp hm
  · intro c ih
    exact ih.congr (by simp) fun _ => by simp [Ctx.pendingLength]
  · intro c c' recvfromAddr bs ok ih _ hle _ hr
    have hc : (receivePendingData c bs).Sized maxSize srv.msMaxSize :=
      ih.congr rfl fun hp => Ctx.pendingLength_env hp (agree_store (Or.inl le_rfl)).symm
    exact hr.post (Loop.Sized maxSize srv.msMaxSize) (fun q => q.2.Sized maxSize srv.msMaxSize)
      (.enter hc (by omega) hle) fun a _ ha =>
        ⟨fun b hb => ha.next h0 h31 h14 hms hb, fun q hq => ha.done h0 h31 h14 hms hq⟩

end SizedStep

section Handed
variable (msMaxSize : Int) (handle : Callback σ)

/-- The context with an empty record of the messages handed out. -/
def Ctx.withLog (c : Ctx σ) : Ctx (σ × List MessageView) :=
  ⟨c.mem, c.recv, c.msg, (c.state, []), c.asserts⟩

/-- The loop that a datagram starts; `recvfrom` cuts off what exceeds `cur_size`. -/
def datagramLoop (c : Ctx σ) (d : List UInt8) : Loop (σ × List MessageView) :=
  let bs := d.take c.recv.curSize.toNat
  enter (receivePendingData c.withLog bs) (c.recv.curAddr + c.recv.curOffset) bs.length

/-- `vs` have been handed out at some point of the loop, or when it is left. -/
def HandedFrom (l : Loop (σ × List MessageView)) (vs : List MessageView) : Prop :=
  (∃ l', Visits (Loop.turn .inPlace msMaxSize (logging msMaxSize handle)) l l' ∧
    l'.ctx.state.2 = vs) ∨
  ∃ q, Returns (Loop.turn .inPlace msMaxSize (logging msMaxSize handle)) l q ∧ q.2.state.2 = vs

/-- The messages handed to `handle` while the datagram `d` is processed: all initial parts of the
list, so that a loop that never ends has a meaning too. -/
def Handed (c : Ctx σ) (d : List UInt8) (vs : List MessageView) : Prop :=
  HandedFrom msMaxSize handle (datagramLoop c d) vs

end Handed

section HandedRules
variable {msMaxSize : Int} {handle : Callback σ} {l l' : Loop (σ × List MessageView)}
  {c f : Ctx σ} {d : List UInt8} {vs pre : List MessageView}

theorem HandedFrom.parallel (h0 : 0 ≤ msMaxSize) (h31 : msMaxSize < 2 ^ 31)
    (hu : Uniform msMaxSize handle) (h : Loop.Parallel l l') (hv : HandedFrom msMaxSize handle l vs) :
    HandedFrom msMaxSize handle l' vs := by
  have lockstep := Loop.parallel_lockstep h0 h31 (hu.logging h0 h31)
  rcases hv with ⟨k, hk, hlog⟩ | ⟨q, hq, hlog⟩
  · obtain ⟨k', hk', hpar⟩ := lockstep.visits h hk
    exact Or.inl ⟨k', hk', by rw [hpar.state, hlog]⟩
  · obtain ⟨q', hq', -, hstate⟩ := lockstep.returns h hq
    exact Or.inr ⟨q', hq', by rw [hstate, hlog]⟩

theorem turn_logs :
    (∀ l', l.turn .inPlace msMaxSize (logging msMaxSize handle) = .next l' →
      l.ctx.state.2 <+: l'.ctx.state.2) ∧
    ∀ q, l.turn .inPlace msMaxSize (logging msMaxSize handle) = .done q →
      l.ctx.state.2 <+: q.2.state.2 := by
  by_cases hlen : 0 < l.len
  · have hstate := processChunk_state msMaxSize (l.prepared .inPlace) l.chunkLen
    generalize hp : processChunk msMaxSize (l.prepared .inPlace) l.chunkLen = r at hstate
    obtain ⟨c, n⟩ := r
    simp only [Loop.prepared_state] at hstate
    by_cases hz : c.recv.curOffset = 0
    · rw [Loop.turn_deliver _ hlen hp hz]
      constructor <;> intro q hq <;> split at hq <;> cases hq <;>
        simp [Loop.advance, logging, hstate]
    · rw [Loop.turn_keep _ hlen hp hz]
      constructor
      · rintro l' ⟨⟩
        simp [hstate]
      · rintro q ⟨⟩
  · rw [Loop.turn_exit (not_lt.mp hlen)]
    constructor
    · rintro l' ⟨⟩
    · rintro q ⟨⟩
      simp

theorem HandedFrom.log_prefix (hpre : pre <+: l.ctx.state.2) (hv : HandedFrom msMaxSize handle l vs) :
    pre <+: vs := by
  rcases hv with ⟨k, hk, rfl⟩ | ⟨q, hq, rfl⟩
  · exact hk.invariant (fun k => pre <+: k.ctx.state.2) hpre fun a b _ ha hb =>
      ha.trans (turn_logs.1 b hb)
  · exact hq.post (fun k => pre <+: k.ctx.state.2) (fun q => pre <+: q.2.state.2) hpre fun a _ ha =>
      ⟨fun b hb => ha.trans (turn_logs.1 b hb), fun q hq => ha.trans (turn_logs.2 q hq)⟩

theorem HandedFrom.of_exit (hlen : l.len ≤ 0) (hv : HandedFrom msMaxSize handle l vs) :
    vs = l.ctx.state.2 := by
  have hexit : l.turn .inPlace msMaxSize (logging msMaxSize handle) = .done (true, _) :=
    Loop.turn_exit hlen
  rcases hv with ⟨k, hk, rfl⟩ | ⟨q, hq, rfl⟩
  · rcases hk.eq_or_next with rfl | ⟨b, hb, -⟩
    · rfl
    · rw [hexit] at hb
      cases hb
  · rw [hq.unique (Returns.of_done hexit), Loop.finish_state]

theorem HandedFrom.of_next {l' : Loop (σ × List MessageView)}
    (ht : l.turn .inPlace msMaxSize (logging msMaxSize handle) = .next l')
    (hv : HandedFrom msMaxSize handle l vs) :
    vs = l.ctx.state.2 ∨ HandedFrom msMaxSize handle l' vs := by
  rcases hv with ⟨k, hk, rfl⟩ | ⟨q, hq, rfl⟩
  · rcases hk.eq_or_next with rfl | ⟨b, hb, hv'⟩
    · exact Or.inl rfl
    · obtain rfl : l' = b := Turn.next.inj (ht.symm.trans hb)
      exact Or.inr (Or.inl ⟨k, hv', rfl⟩)
  · exact Or.inr (Or.inr ⟨q, (Returns.next_iff ht).mp hq, rfl⟩)

theorem HandedFrom.of_done {q : Bool × Ctx (σ × List MessageView)}
    (ht : l.turn .inPlace msMaxSize (logging msMaxSize handle) = .done q)
    (hv : HandedFrom msMaxSize handle l vs) : vs = l.ctx.state.2 ∨ vs = q.2.state.2 := by
  rcases hv with ⟨k, hk, rfl⟩ | ⟨q', hq, rfl⟩
  · rcases hk.eq_or_next with rfl | ⟨b, hb, -⟩
    · exact Or.inl rfl
    · rw [ht] at hb
      cases hb
  · exact Or.inr (by rw [hq.unique (Returns.of_done ht)])

theorem HandedFrom.keep {c : Ctx (σ × List MessageView)} {n : Int} (hlen : 0 < l.len)
    (hp : processChunk msMaxSize (l.prepared .inPlace) l.chunkLen = (c, n))
    (hz : c.recv.curOffset ≠ 0) (hn : n = l.len) (hv : HandedFrom msMaxSize handle l vs) :
    vs = l.ctx.state.2 := by
  have hstate : c.state = l.ctx.state := by
    simpa [hp] using processChunk_state msMaxSize (l.prepared .inPlace) l.chunkLen
  rcases hv.of_next (Loop.turn_keep _ hlen hp hz) with h | h
  · exact h
  · rw [h.of_exit (by simp only; omega), hstate]

section Deliver
variable {c : Ctx (σ × List MessageView)} {n : Int} (hlen : 0 < l.len)
variable (hp : processChunk msMaxSize (l.prepared .inPlace) l.chunkLen = (c, n))
variable (hz : c.recv.curOffset = 0)
include hlen hp hz

theorem HandedFrom.deliver (hv : HandedFrom msMaxSize handle l vs) :
    vs = l.ctx.state.2 ∨ l.ctx.state.2 ++ [c.msg.view msMaxSize c.mem] <+: vs := by
  have hstate : c.state = l.ctx.state := by
    simpa [hp] using processChunk_state msMaxSize (l.prepared .inPlace) l.chunkLen
  have ht := Loop.turn_deliver (logging msMaxSize handle) hlen hp hz
  split at ht
  · refine (hv.of_next ht).imp id fun h => h.log_prefix ?_
    simp [Loop.advance, logging, hstate]
  · refine (hv.of_done ht).imp id fun h => ?_
    simp [h, logging, hstate]

theorem handedFrom_deliver (handle : Callback σ) :
    HandedFrom msMaxSize handle l (l.ctx.state.2 ++ [c.msg.view msMaxSize c.mem]) := by
  have hstate : c.state = l.ctx.state := by
    simpa [hp] using processChunk_state msMaxSize (l.prepared .inPlace) l.chunkLen
  have ht := Loop.turn_deliver (logging msMaxSize handle) hlen hp hz
  split at ht
  · refine Or.inl ⟨_, (Visits.refl _ _).tail ht, ?_⟩
    simp [Loop.advance, logging, hstate]
  · refine Or.inr ⟨_, Returns.of_done ht, ?_⟩
    simp [logging, hstate]

end Deliver

end HandedRules

section Probe
variable {msMaxSize : Int} {handle : Callback σ} {c : Ctx σ} {d : List UInt8}
  {vs : List MessageView} {w : WireMessage}

theorem datagramLoop_idle (hoff : c.recv.curOffset = 0) {bs : List UInt8}
    (hbs : d.take c.recv.curSize.toNat = bs) :
    datagramLoop c d = ⟨receivePendingData c.withLog bs, true, 0, c.recv.curAddr, bs.length⟩ ∧
      load (receivePendingData c.withLog bs).mem c.recv.curAddr bs.length = bs := by
  subst hbs
  refine ⟨enter_received_of_zero (c := c.withLog) hoff _ _, ?_⟩
  change load (store c.mem (c.recv.curAddr + c.recv.curOffset) _) _ _ = _
  rw [hoff, add_zero, load_store_same]

theorem handed_whole (h0 : 0 ≤ msMaxSize) (h31 : msMaxSize < 2 ^ 31) (hoff : c.recv.curOffset = 0)
    (hw : (w.size : Int) ≤ msMaxSize) (hsize : (w.size : Int) ≤ c.recv.curSize) :
    Handed msMaxSize handle c w.encode [w.view] := by
  have hpos := w.size_eq
  have hlen := w.encode_length
  have htake : w.encode.take c.recv.curSize.toNat = w.encode :=
    List.take_of_length_le (by omega)
  obtain ⟨hloop, hload⟩ := datagramLoop_idle hoff htake
  have hD : load (receivePendingData c.withLog w.encode).mem c.recv.curAddr
      (0 + w.encode.length) = (w.stored 0 ++ []).take (0 + w.encode.length) := by
    rw [zero_add, hload, List.append_nil, w.stored_zero, List.take_length]
  obtain ⟨c', hc', del⟩ := processChunk_deliver (c := receivePendingData c.withLog w.encode)
    (p := 0) h0 h31 hw hoff hD (by omega)
  unfold Handed
  rw [hloop]
  have hand := handedFrom_deliver (c := c')
    (l := ⟨receivePendingData c.withLog w.encode, true, 0, c.recv.curAddr, w.encode.length⟩)
    (by simp only; omega) hc' (by rw [del.recv]) handle
  rwa [del.view] at hand

theorem handed_cut (h0 : 0 ≤ msMaxSize) (h31 : msMaxSize < 2 ^ 31) (hoff : c.recv.curOffset = 0)
    (hw : (w.size : Int) ≤ msMaxSize) (hsize : c.recv.curSize < w.size)
    (hv : Handed msMaxSize handle c w.encode vs) : vs = [] := by
  have hmsg := w.size_eq
  have henc := w.encode_length
  generalize hbs : w.encode.take c.recv.curSize.toNat = bs
  have hlen : bs.length < w.size := by
    rw [← hbs, List.length_take]
    omega
  obtain ⟨hloop, hload⟩ := datagramLoop_idle hoff hbs
  unfold Handed at hv
  rw [hloop] at hv
  rcases Nat.eq_zero_or_pos bs.length with hz | hpos
  · exact hv.of_exit (by simp only; omega)
  have hD : load (receivePendingData c.withLog bs).mem c.recv.curAddr (0 + bs.length) =
      (w.stored 0 ++ []).take (0 + bs.length) := by
    rw [zero_add, hload, List.append_nil, w.stored_zero, ← hbs, List.length_take,
      ← List.take_eq_take_min]
  obtain ⟨c', hc', kept⟩ := processChunk_keep (c := receivePendingData c.withLog bs) (p := 0) h0 h31
    hw hoff hD (by omega)
  have hnew : c'.recv.curOffset ≠ 0 := by
    rw [kept.recv]
    simp only
    omega
  have hlen' : (0 : Int) < bs.length := by omega
  have hempty := hv.keep hlen' (n := bs.length) (c := c')
    (by rw [Loop.prepared_direct rfl, Loop.chunkLen_direct rfl]; exact hc') hnew rfl
  rw [hempty]
  rfl

def MsgHeader.leadByte (h : MsgHeader) : UInt8 := h.hton.bytes.headD 0

/-- The first byte on the wire of the message that is pending. -/
def Ctx.leadByte (c : Ctx σ) : UInt8 :=
  if c.recv.curOffset < 14 then c.mem c.recv.curAddr
  else ((Message.mk c.recv.curAddr).getHeader c.mem).leadByte

theorem leadByte_matchHeader (c : Ctx σ) :
    (c.matchHeader.msg.getHeader c.matchHeader.mem).leadByte = c.leadByte := by
  rw [matchHeader_msg, Ctx.leadByte]
  split
  · next hp =>
    have hb : ((Message.mk c.recv.curAddr).getHeader c.mem).bytes =
        load c.mem c.recv.curAddr effectiveSize := MsgHeader.bytes_ofBytes (by simp)
    rw [matchHeader_mem_of_lt c hp, Message.setHeaderToHost, Message.getHeader_setHeader,
      MsgHeader.leadByte, MsgHeader.hton_ntoh, hb]
    simp [load, effectiveSize, List.range_succ_eq_map]
  · next hp => rw [matchHeader_mem_of_le c (by omega)]

theorem leadByte_receive (hp : 0 < c.recv.curOffset) (bs : List UInt8) :
    (receivePendingData c.withLog bs).leadByte = c.leadByte := by
  have hrecv : (receivePendingData c.withLog bs).recv = c.recv := rfl
  have hmem : (receivePendingData c.withLog bs).mem =
      store c.mem (c.recv.curAddr + c.recv.curOffset) bs := rfl
  unfold Ctx.leadByte
  rw [hrecv, hmem, store_outside (Or.inl (by omega))]
  split
  · rfl
  · next h14 =>
    rw [Message.getHeader, Message.getHeader,
      load_store_disjoint (Or.inl (by simp only [effectiveSize]; omega))]

theorem handed_pending (h0 : 0 ≤ msMaxSize) (h31 : msMaxSize < 2 ^ 31) (hp : 0 < c.recv.curOffset)
    (hv : Handed msMaxSize handle c d vs) :
    vs = [] ∨ ∃ v, [v] <+: vs ∧ v.header.leadByte = c.leadByte := by
  unfold Handed datagramLoop at hv
  generalize hbs : d.take c.recv.curSize.toNat = bs at hv
  have hle : bs.length ≤ c.recv.curSize.toNat := by
    rw [← hbs, List.length_take]
    omega
  rw [enter_of_ne (c := receivePendingData c.withLog bs) (fun h => hp.ne' h)] at hv
  generalize hl : Loop.mk (receivePendingData c.withLog bs) false 0
    (c.recv.curAddr + c.recv.curOffset) bs.length = l at hv
  have hlog : l.ctx.state.2 = [] := by rw [← hl]; rfl
  rcases Nat.eq_zero_or_pos bs.length with hz | hpos
  · exact Or.inl ((hv.of_exit (by rw [← hl]; simp only; omega)).trans hlog)
  have hlen : 0 < l.len := by rw [← hl]; simp only; omega
  have hprep : l.prepared .inPlace = l.ctx := by
    rw [← hl]
    exact Loop.prepared_inPlace (add_zero _).symm
  have hchunk : l.chunkLen = l.len := by
    rw [← hl]
    refine Loop.chunkLen_of_le ?_
    change (bs.length : Int) ≤ c.recv.curSize
    omega
  have hlead : l.ctx.leadByte = c.leadByte := by
    rw [← hl]
    exact leadByte_receive hp bs
  have hoff : 0 < l.ctx.recv.curOffset := by rw [← hl]; exact hp
  have ho := processChunk_outcome h0 h31 (l.prepared .inPlace) l.chunkLen
  generalize hr : processChunk msMaxSize (l.prepared .inPlace) l.chunkLen = r at ho
  rw [hprep, hchunk] at ho
  have hview : ∀ m', m' = l.ctx.matchHeader.mem →
      (l.ctx.matchHeader.msg.view msMaxSize m').header.leadByte = c.leadByte := by
    rintro _ rfl
    exact (leadByte_matchHeader l.ctx).trans hlead
  cases ho with
  | short lt => exact Or.inl ((hv.keep hlen hr (by simp only; omega) rfl).trans hlog)
  | oversize ge big =>
    rcases hv.deliver hlen hr rfl with h | h
    · exact Or.inl (h.trans hlog)
    · rw [hlog] at h
      exact Or.inr ⟨_, h, hview _ rfl⟩
  | incomplete ge le lt => exact Or.inl ((hv.keep hlen hr (by simp only; omega) rfl).trans hlog)
  | complete ge le reached =>
    rcases hv.deliver hlen hr rfl with h | h
    · exact Or.inl (h.trans hlog)
    · rw [hlog] at h
      exact Or.inr ⟨_, h, hview _ rfl⟩

end Probe

/-- An empty message, with sequence number 0 or `2 ^ 56`. -/
def emptyMessage (b : Bool) : WireMessage where
  header := ⟨if b then 2 ^ 56 else 0, 0, 14⟩
  body := []
  length_eq := rfl

theorem emptyMessage_leadByte (b : Bool) :
    (emptyMessage b).header.leadByte = if b then 1 else 0 := by
  cases b <;> decide +kernel

def zeroMessage (k : Nat) (hk : 14 + k < 2 ^ 32) : WireMessage where
  header := ⟨0, 0, UInt32.ofNat (14 + k)⟩
  body := List.replicate k 0
  length_eq := by
    rw [List.length_replicate, UInt32.toNat_ofNat', Nat.mod_eq_of_lt hk, effectiveSize]

theorem datagramLoop_parallel {c f : Ctx σ} (hc : c.recv.curOffset = 0) (hf : f.recv.curOffset = 0)
    (hsize : f.recv.curSize = c.recv.curSize) (hmax : f.recv.maxSize = c.recv.maxSize)
    (hstate : f.state = c.state) (d : List UInt8) :
    Loop.Parallel (datagramLoop c d) (datagramLoop f d) := by
  obtain ⟨hloop, hload⟩ := datagramLoop_idle (d := d) hc rfl
  obtain ⟨hloop', hload'⟩ := datagramLoop_idle (d := d) hf rfl
  rw [hsize] at hloop' hload'
  rw [hloop, hloop']
  refine ⟨rfl, by simp only; omega, ?_, fun _ => ⟨rfl, rfl⟩, fun _ => ⟨rfl, rfl⟩,
    fun _ => ⟨hc, hf⟩, fun _ => ⟨hsize, hmax⟩, fun _ => ?_⟩
  · simp only [receivePendingData, Ctx.withLog, hstate]
  · simp only [Int.toNat_natCast]
    exact hload.trans hload'.symm

section Independence
variable {γ : Type v} {srv : Server γ} {base maxSize : Int}

/-- After any datagrams, a socket treats every datagram as a fresh socket does exactly when no
bytes are pending and the full size is asked for. -/
theorem datagram_independent_iff (h14 : 14 ≤ maxSize) (hms : maxSize ≤ srv.msMaxSize)
    (h31 : srv.msMaxSize < 2 ^ 31) {c f : Ctx (ServerState γ)}
    (h : ServerRun srv base maxSize (fun _ _ => True) c) (hf : f.recv = freshRecv base maxSize)
    (hstate : f.state = c.state) :
    (∀ recvfromAddr d vs, Handed srv.msMaxSize (srv.handleMessage recvfromAddr) c d vs ↔
      Handed srv.msMaxSize (srv.handleMessage recvfromAddr) f d vs) ↔
    c.recv.curOffset = 0 ∧ c.recv.curSize = maxSize := by
  have h0 : 0 ≤ srv.msMaxSize := by omega
  have hsized := h.sized h0 h31 h14 hms
  have hoff : f.recv.curOffset = 0 := by rw [hf]; rfl
  have hsize : f.recv.curSize = maxSize := by rw [hf]; rfl
  have hmax : f.recv.maxSize = c.recv.maxSize := by
    rw [hsized.max_eq, hf]
    rfl
  constructor
  · intro hall
    by_contra hne
    rcases hsized.sound.nonneg.eq_or_lt with hz | hp
    · -- a message that the full size would hold is cut off
      have hle := hsized.idle hz.symm
      have hlt : c.recv.curSize < maxSize := by omega
      have hk : 14 + (maxSize - 14).toNat < 2 ^ 32 := by omega
      have hw : ((zeroMessage (maxSize - 14).toNat hk).size : Int) = maxSize := by
        rw [WireMessage.size_eq, zeroMessage, List.length_replicate]
        omega
      have hfresh : Handed srv.msMaxSize (srv.handleMessage (.unix "")) f
          (zeroMessage (maxSize - 14).toNat hk).encode _ :=
        handed_whole h0 h31 hoff (by omega) (by omega)
      have hnil := handed_cut h0 h31 hz.symm (by omega) (by omega) ((hall _ _ _).mpr hfresh)
      cases hnil
    · -- an empty message is taken for the continuation of the pending one
      obtain ⟨b, hb⟩ : ∃ b, (emptyMessage b).header.leadByte ≠ c.leadByte := by
        rcases eq_or_ne c.leadByte 0 with hl | hl
        · exact ⟨true, by rw [emptyMessage_leadByte, hl]; decide⟩
        · exact ⟨false, by rw [emptyMessage_leadByte]; exact hl.symm⟩
      have hw : ((emptyMessage b).size : Int) = 14 := rfl
      have hfresh : Handed srv.msMaxSize (srv.handleMessage (.unix "")) f (emptyMessage b).encode _ :=
        handed_whole h0 h31 hoff (by omega) (by omega)
      rcases handed_pending h0 h31 hp ((hall _ _ _).mpr hfresh) with hnil | ⟨v, hv, hlead⟩
      · cases hnil
      · obtain rfl : v = (emptyMessage b).view := List.cons_prefix_cons.mp hv |>.1
        exact hb hlead
  · rintro ⟨hz, hfull⟩ recvfromAddr d vs
    have hu := srv.handleMessage_uniform recvfromAddr
    constructor
    · exact HandedFrom.parallel h0 h31 hu
        (datagramLoop_parallel hz hoff (hsize.trans hfull.symm) hmax hstate d)
    · exact HandedFrom.parallel h0 h31 hu
        (datagramLoop_parallel hoff hz (hfull.trans hsize.symm) hmax.symm hstate.symm d)

end Independence

theorem byte_left_pending : ∃ c,
    RecvFrom udpServer.msMaxSize (udpServer.handleMessage (.inet 1 1)) udpFresh [0] true c ∧
    c.recv.curOffset = 1 ∧ c.state = udpFresh.state ∧ c.leadByte = 0 := by
  obtain ⟨c, hr, hmem, hstate, hrecv, -⟩ := recvFrom_short udpServer.msMaxSize
    (udpServer.handleMessage (.inet 1 1)) (c := udpFresh) rfl (show 0 < [0].length by decide)
    (by decide)
  refine ⟨c, hr, by rw [hrecv]; rfl, hstate, ?_⟩
  unfold Ctx.leadByte
  rw [hrecv, hmem]
  decide

/-- A datagram of one byte, then a datagram that is an empty message: a fresh socket hands the
message out, this one does not. -/
theorem byte_changes_next_datagram :
    ∃ c, RecvFrom udpServer.msMaxSize (udpServer.handleMessage (.inet 1 1)) udpFresh [0] true c ∧
      c.state = udpFresh.state ∧
      Handed udpServer.msMaxSize (udpServer.handleMessage (.inet 2 2)) udpFresh
        (emptyMessage true).encode [(emptyMessage true).view] ∧
      ¬ Handed udpServer.msMaxSize (udpServer.handleMessage (.inet 2 2)) c
        (emptyMessage true).encode [(emptyMessage true).view] := by
  obtain ⟨c, hr, hoff, hstate, hlead⟩ := byte_left_pending
  refine ⟨c, hr, hstate, ?_, fun hc => ?_⟩
  · exact handed_whole (by decide) (by decide) rfl (by decide) (by decide)
  rcases handed_pending (by decide) (by decide) (by omega) hc with hnil | ⟨v, hv, hlead'⟩
  · cases hnil
  · obtain rfl : v = (emptyMessage true).view := List.cons_prefix_cons.mp hv |>.1
    rw [hlead] at hlead'
    exact absurd ((emptyMessage_leadByte true).symm.trans hlead') (by decide)

theorem datagram_independent_iff_byte :
    ∃ c, c.recv.curOffset = 1 ∧
      ((∀ recvfromAddr d vs,
        Handed udpServer.msMaxSize (udpServer.handleMessage recvfromAddr) c d vs ↔
          Handed udpServer.msMaxSize (udpServer.handleMessage recvfromAddr) udpFresh d vs) ↔
      c.recv.curOffset = 0 ∧ c.recv.curSize = 65507) := by
  obtain ⟨c, hr, hoff, hstate, -⟩ := byte_left_pending
  obtain ⟨fuel, hf⟩ := Server.receiveThenSend_of_recvFrom hr
  have hfresh : ServerRun udpServer 0 65507 (fun _ _ => True) udpFresh := .fresh rfl
  have hrun := hfresh.receive (r := .data (.inet 1 1) [0]) ⟨by decide, by decide⟩ trivial hf
  rw [if_pos rfl] at hrun
  exact ⟨c, hoff, datagram_independent_iff (by decide) (by decide) (by decide) hrun rfl
    hstate.symm⟩

end Sockperf
