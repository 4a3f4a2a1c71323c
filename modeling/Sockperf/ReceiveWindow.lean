import Sockperf.Progress
import Sockperf.Framing
import Sockperf.Server

/-!
# The receive window of a datagram socket

Where the next `recvfrom` may write after datagrams of arbitrary content. The
window stays inside the buffer as long as no message behind the first one of a
datagram is rejected and no read limited to the rest of a header completes a
header that announces less than itself.
-/

namespace Sockperf

open Memory While
set_option autoImplicit false

universe u v
variable {σ : Type u}

section Invariant
variable (base maxSize msMaxSize : Int)

/-- A pending message starts in the first half of the buffer, and the next read ends there too
or is limited to what is missing. -/
structure Ctx.Inside (c : Ctx σ) : Prop where
  low : base ≤ c.recv.curAddr
  high : c.recv.curAddr < base + maxSize
  room : c.recv.curAddr + c.recv.curOffset + c.recv.curSize ≤ base + maxSize ∨
    (c.recv.curOffset < 14 ∧ c.recv.curSize = 14 - c.recv.curOffset) ∨
    (14 ≤ c.recv.curOffset ∧ c.recv.curSize = c.pendingLength - c.recv.curOffset)

structure Ctx.Within (c : Ctx σ) : Prop where
  buf_eq : c.recv.buf = base
  max_eq : c.recv.maxSize = maxSize
  sound : c.Sound msMaxSize
  idle : c.recv.curOffset = 0 →
    c.recv.curAddr = base ∧ 0 < c.recv.curSize ∧ c.recv.curSize ≤ maxSize
  pending : 0 < c.recv.curOffset → c.Inside base maxSize

structure Loop.Within (l : Loop σ) : Prop where
  buf_eq : l.ctx.recv.buf = base
  max_eq : l.ctx.recv.maxSize = maxSize
  sound : l.Sound msMaxSize
  nonneg : 0 ≤ l.len
  offset : 0 < l.len → l.offset = 0 ∧ l.buf = l.ctx.recv.curAddr + l.ctx.recv.curOffset
  len_le : 0 < l.len → l.len ≤ l.ctx.recv.curSize
  front : 0 < l.len → l.ctx.recv.curOffset = 0 →
    base ≤ l.ctx.recv.curAddr ∧ l.ctx.recv.curAddr + l.ctx.recv.curSize ≤ base + maxSize
  pending : 0 < l.ctx.recv.curOffset → l.ctx.Inside base maxSize
  idle : l.len = 0 → l.ctx.recv.curOffset = 0 → l.ctx.recv.curSize = maxSize

/-- What a turn must not do: reject a message that does not start at the buffer, or complete a
header that announces less than itself in a read limited to the rest of it. -/
structure Loop.WindowOk (handle : Callback σ) (l : Loop σ) : Prop where
  rejected : ∀ c n, processChunk msMaxSize (l.prepared .inPlace) l.chunkLen = (c, n) →
    c.recv.curOffset = 0 → (handle c.mem c.msg c.state).1 = false → l.ctx.recv.curAddr = base
  header : 0 < l.ctx.recv.curOffset → l.ctx.recv.curOffset < 14 →
    14 ≤ l.ctx.recv.curOffset + l.chunkLen → (l.prepared .inPlace).announced < 14 →
    l.ctx.recv.curAddr + l.ctx.recv.curOffset + l.ctx.recv.curSize ≤ base + maxSize

end Invariant

section Step
variable {base maxSize msMaxSize : Int} {handle : Callback σ} {l : Loop σ} {c : Ctx σ}

theorem Ctx.Within.window (h : c.Within base maxSize msMaxSize) (h14 : 14 ≤ maxSize)
    (hms : msMaxSize ≤ maxSize + 1) : base ≤ c.recv.curAddr ∧ 0 < c.recv.curSize ∧
      c.recv.curAddr + c.recv.curOffset + c.recv.curSize ≤ base + 2 * maxSize := by
  rcases h.sound.nonneg.eq_or_lt with hp | hp
  · have := h.idle hp.symm
    omega
  · have hin := h.pending hp
    have hlow := hin.low
    have hhigh := hin.high
    have hsize := h.sound.size hp
    rcases hin.room with hr | hr | hr
    · omega
    · omega
    · have := h.sound.header hr.1
      omega

theorem Ctx.Within.enter {buf len : Int} (h : c.Within base maxSize msMaxSize)
    (hbuf : buf = c.recv.curAddr + c.recv.curOffset) (hlen : 0 < len)
    (hle : len ≤ c.recv.curSize) : (enter c buf len).Within base maxSize msMaxSize := by
  have hs := h.sound.enter buf len
  by_cases hz : c.recv.curOffset = 0
  · obtain ⟨haddr, hpos, hmax⟩ := h.idle hz
    rw [enter_of_zero hz] at hs ⊢
    refine ⟨h.buf_eq, h.max_eq, hs, hlen.le, fun _ => ⟨rfl, ?_⟩, fun _ => hle, fun _ _ => ?_, ?_, ?_⟩
    · simp only
      omega
    · simp only
      omega
    · intro hp
      simp only at hp
      omega
    · intro h0
      simp only at h0
      omega
  · rw [enter_of_ne hz] at hs ⊢
    have hnn := h.sound.nonneg
    exact ⟨h.buf_eq, h.max_eq, hs, hlen.le, fun _ => ⟨rfl, hbuf⟩, fun _ => hle,
      fun _ h0 => absurd h0 hz, h.pending, fun h0 => by simp only at h0; omega⟩

theorem Loop.Within.finish (h : l.Within base maxSize msMaxSize) (h14 : 14 ≤ maxSize)
    (hlen : l.len = 0) : (l.finish .inPlace).Within base maxSize msMaxSize := by
  have hs : (l.finish .inPlace).Sound msMaxSize := h.sound.finish
  unfold Loop.finish at hs ⊢
  by_cases hz : l.ctx.recv.curOffset = 0
  · rw [if_pos hz] at hs ⊢
    have hsize := h.idle hlen hz
    refine ⟨h.buf_eq, h.max_eq, hs, fun _ => ⟨h.buf_eq, ?_, ?_⟩, fun hp => ?_⟩
    · simp only [AccumulationStrategy.resetReadBuffer]
      omega
    · simp only [AccumulationStrategy.resetReadBuffer]
      omega
    · simp only [AccumulationStrategy.resetReadBuffer] at hp
      omega
  · rw [if_neg hz] at hs ⊢
    split at hs
    · next hd =>
      rw [if_pos hd]
      exact ⟨h.buf_eq, h.max_eq, hs, fun h0 => absurd h0 hz, fun hp =>
        ⟨(h.pending hp).low, (h.pending hp).high, (h.pending hp).room⟩⟩
    · next hd =>
      rw [if_neg hd]
      exact ⟨h.buf_eq, h.max_eq, hs, fun h0 => absurd h0 hz, h.pending⟩

theorem Loop.Within.chunkLen_eq (h : l.Within base maxSize msMaxSize) (hlen : 0 < l.len) :
    l.chunkLen = l.len := Loop.chunkLen_of_le (h.len_le hlen)

theorem Loop.Within.addr (h : l.Within base maxSize msMaxSize) (hlen : 0 < l.len) :
    base ≤ l.ctx.recv.curAddr ∧ l.ctx.recv.curAddr < base + maxSize := by
  have hle := h.len_le hlen
  rcases h.sound.ctx.nonneg.eq_or_lt with hp | hp
  · have := h.front hlen hp.symm
    omega
  · exact ⟨(h.pending hp).low, (h.pending hp).high⟩

theorem Loop.Within.room (h : l.Within base maxSize msMaxSize) (hlen : 0 < l.len) :
    l.ctx.recv.curAddr + l.ctx.recv.curOffset + l.ctx.recv.curSize ≤ base + maxSize ∨
      (0 < l.ctx.recv.curOffset ∧ l.ctx.recv.curOffset < 14 ∧
        l.ctx.recv.curSize = 14 - l.ctx.recv.curOffset) ∨
      (14 ≤ l.ctx.recv.curOffset ∧
        l.ctx.recv.curSize = (l.prepared .inPlace).announced - l.ctx.recv.curOffset) := by
  rcases h.sound.ctx.nonneg.eq_or_lt with hp | hp
  · have := h.front hlen hp.symm
    exact Or.inl (by omega)
  · rcases (h.pending hp).room with hr | hr | hr
    · exact Or.inl hr
    · exact Or.inr (Or.inl ⟨hp, hr⟩)
    · rw [Loop.announced_of_le hr.1]
      exact Or.inr (Or.inr hr)

theorem Loop.Within.keep (h0 : 0 ≤ msMaxSize) (h31 : msMaxSize < 2 ^ 31) {n : Int}
    (h : l.Within base maxSize msMaxSize) (hlen : 0 < l.len)
    (hp : processChunk msMaxSize (l.prepared .inPlace) l.chunkLen = (c, n))
    (hc : c.recv.curOffset ≠ 0) : n = l.len ∧ c.Inside base maxSize := by
  have haddr := h.addr hlen
  have hroom := h.room hlen
  have hrecv : (l.prepared .inPlace).recv = l.ctx.recv := Loop.prepared_recv
  have ho := processChunk_outcome h0 h31 (l.prepared .inPlace) l.chunkLen
  rw [hp, h.chunkLen_eq hlen] at ho
  cases ho with
  | short lt =>
    refine ⟨rfl, ?_, ?_, ?_⟩
    · simpa using haddr.1
    · simpa using haddr.2
    · simp only [hrecv] at lt ⊢
      split <;> omega
  | oversize => exact absurd rfl hc
  | incomplete ge le lt =>
    have hlength := matchHeader_pendingLength (l.prepared .inPlace)
    simp only [Ctx.pendingLength, matchHeader_recv, hrecv] at hlength
    refine ⟨rfl, ?_, ?_, ?_⟩
    · simpa using haddr.1
    · simpa using haddr.2
    · simp only [Ctx.pendingLength, hlength, hrecv] at ge lt ⊢
      split <;> omega
  | complete => exact absurd rfl hc

/-- What is left behind a message that is handed out: nothing, or data with room up to the half
of the buffer. -/
theorem Loop.Within.deliver (h0 : 0 ≤ msMaxSize) (h31 : msMaxSize < 2 ^ 31) {n : Int}
    (h : l.Within base maxSize msMaxSize) (hok : l.WindowOk base maxSize msMaxSize handle)
    (hlen : 0 < l.len) (hp : processChunk msMaxSize (l.prepared .inPlace) l.chunkLen = (c, n))
    (hc : c.recv.curOffset = 0) :
    (n = l.len ∧ c.recv.curSize = maxSize) ∨
      (n < l.len ∧ 0 ≤ l.ctx.recv.curOffset + n ∧ c.recv.curSize = l.ctx.recv.curSize - n ∧
        l.ctx.recv.curAddr + l.ctx.recv.curOffset + l.ctx.recv.curSize ≤ base + maxSize) := by
  have hroom := h.room hlen
  have hle := h.len_le hlen
  have hnn := h.sound.ctx.nonneg
  have hhdr := hok.header
  have hrecv : (l.prepared .inPlace).recv = l.ctx.recv := Loop.prepared_recv
  have hmax : (l.prepared .inPlace).recv.maxSize = maxSize := by rw [hrecv, h.max_eq]
  have ho := processChunk_outcome h0 h31 (l.prepared .inPlace) l.chunkLen
  rw [h.chunkLen_eq hlen] at hhdr
  rw [hp, h.chunkLen_eq hlen] at ho
  cases ho with
  | short lt =>
    simp only [hrecv] at hc
    omega
  | oversize => exact Or.inl ⟨rfl, hmax⟩
  | incomplete ge le lt =>
    simp only [hrecv] at hc
    omega
  | complete ge le reached =>
    simp only [hrecv] at hmax ge reached ⊢
    split
    · refine Or.inr ⟨by omega, by omega, rfl, ?_⟩
      rcases hroom with hr | ⟨hpos, h14, hr⟩ | ⟨hge, hr⟩
      · exact hr
      · exact hhdr hpos h14 ge (by omega)
      · omega
    · exact Or.inl ⟨by omega, hmax⟩

theorem Loop.Within.next (h0 : 0 ≤ msMaxSize) (h31 : msMaxSize < 2 ^ 31) {l' : Loop σ}
    (h : l.Within base maxSize msMaxSize)
    (hok : 0 < l.len → l.WindowOk base maxSize msMaxSize handle)
    (ht : l.turn .inPlace msMaxSize handle = .next l') : l'.Within base maxSize msMaxSize := by
  have hs := h.sound.next h0 h31 ht
  rcases h.nonneg.eq_or_lt with hlen | hlen
  · rw [Loop.turn_exit hlen.ge] at ht
    cases ht
  have hbuf := processChunk_buf msMaxSize (l.prepared .inPlace) l.chunkLen
  have hmax := processChunk_maxSize msMaxSize (l.prepared .inPlace) l.chunkLen
  have haddr := processChunk_curAddr msMaxSize (l.prepared .inPlace) l.chunkLen
  generalize hp : processChunk msMaxSize (l.prepared .inPlace) l.chunkLen = r at hbuf hmax haddr
  obtain ⟨c, n⟩ := r
  simp only [Loop.prepared_recv, h.buf_eq, h.max_eq] at hbuf hmax haddr
  by_cases hz : c.recv.curOffset = 0
  · rw [Loop.turn_deliver handle hlen hp hz] at ht
    split at ht
    · cases ht
      have hoff := h.offset hlen
      have hle := h.len_le hlen
      have hlow := (h.addr hlen).1
      have hnn := h.sound.ctx.nonneg
      have hadv : (l.advance { c with
          mem := (handle c.mem c.msg c.state).2.1, state := (handle c.mem c.msg c.state).2.2 }
          n).ctx.recv.curAddr = l.ctx.recv.curAddr + l.ctx.recv.curOffset + n := by
        simp only [Loop.advance, hoff.1, haddr]
        split
        · next hd =>
          have := h.sound.direct hd
          omega
        · omega
      have hdel := h.deliver h0 h31 (hok hlen) hlen hp hz
      refine ⟨hbuf, hmax, hs, ?_, fun _ => ⟨rfl, ?_⟩, fun hpos => ?_, fun hpos _ => ?_, fun hpos => ?_,
        fun hzero _ => ?_⟩
      · simp only [Loop.advance]
        omega
      · rw [hadv]
        simp only [Loop.advance, hz]
        omega
      · simp only [Loop.advance] at hpos ⊢
        omega
      · rw [hadv]
        simp only [Loop.advance] at hpos ⊢
        omega
      · simp only [Loop.advance] at hpos
        omega
      · simp only [Loop.advance] at hzero ⊢
        omega
    · cases ht
  · rw [Loop.turn_keep handle hlen hp hz] at ht
    obtain ⟨rfl, hin⟩ := h.keep h0 h31 hlen hp hz
    cases ht
    refine ⟨hbuf, hmax, hs, by simp, ?_, ?_, ?_, fun _ => hin, fun _ h0 => absurd h0 hz⟩
    all_goals
      intro hpos
      simp at hpos

theorem Loop.Within.done (h0 : 0 ≤ msMaxSize) (h31 : msMaxSize < 2 ^ 31) (h14 : 14 ≤ maxSize)
    {ok : Bool} (h : l.Within base maxSize msMaxSize)
    (hok : 0 < l.len → l.WindowOk base maxSize msMaxSize handle)
    (ht : l.turn .inPlace msMaxSize handle = .done (ok, c)) :
    c.Within base maxSize msMaxSize := by
  have hs := h.sound.done ht
  rcases h.nonneg.eq_or_lt with hlen | hlen
  · rw [Loop.turn_exit hlen.ge] at ht
    cases ht
    exact h.finish h14 hlen.symm
  have hbuf := processChunk_buf msMaxSize (l.prepared .inPlace) l.chunkLen
  have hmax := processChunk_maxSize msMaxSize (l.prepared .inPlace) l.chunkLen
  have haddr := processChunk_curAddr msMaxSize (l.prepared .inPlace) l.chunkLen
  generalize hp : processChunk msMaxSize (l.prepared .inPlace) l.chunkLen = r at hbuf hmax haddr
  obtain ⟨c', n⟩ := r
  simp only [Loop.prepared_recv, h.buf_eq, h.max_eq] at hbuf hmax haddr
  by_cases hz : c'.recv.curOffset = 0
  · rw [Loop.turn_deliver handle hlen hp hz] at ht
    split at ht
    · cases ht
    · next hrej =>
      cases ht
      have hbase := (hok hlen).rejected c' n hp hz (by simpa using hrej)
      have hdel := h.deliver h0 h31 (hok hlen) hlen hp hz
      have hle := h.len_le hlen
      have hnn := h.sound.ctx.nonneg
      refine ⟨hbuf, hmax, hs, fun _ => ⟨haddr.trans hbase, ?_, ?_⟩, fun hpos => ?_⟩
      · simp only
        omega
      · simp only
        omega
      · simp only at hpos
        omega
  · rw [Loop.turn_keep handle hlen hp hz] at ht
    cases ht

end Step

section Server
variable {γ : Type v} (srv : Server γ) (base maxSize : Int)

/-- A received datagram fits the read it was received by; an empty one is a shutdown. -/
def Server.Received.Fits (c : Ctx (ServerState γ)) : Server.Received → Prop
  | .data _ bs => 1 ≤ bs.length ∧ bs.length ≤ c.recv.curSize
  | _ => True

/-- Every turn taken for a datagram keeps the window. -/
def Server.WindowOk (c : Ctx (ServerState γ)) : Server.Received → Prop
  | .data recvfromAddr bs => ∀ l,
    Visits (Loop.turn .inPlace srv.msMaxSize (srv.handleMessage recvfromAddr))
      (enter (receivePendingData c bs) (c.recv.curAddr + c.recv.curOffset) bs.length) l →
    0 < l.len → l.WindowOk base maxSize srv.msMaxSize (srv.handleMessage recvfromAddr)
  | _ => True

/-- The contexts of a server socket after any sequence of receives that meet `Ok`; in between,
the memory outside the pending bytes may change. -/
inductive ServerRun (Ok : Ctx (ServerState γ) → Server.Received → Prop) :
    Ctx (ServerState γ) → Prop
  | fresh {c : Ctx (ServerState γ)} (h : c.recv = freshRecv base maxSize) : ServerRun Ok c
  | env {c : Ctx (ServerState γ)} {m : Mem} (h : ServerRun Ok c)
      (hm : Agree c.mem m c.recv.curAddr (c.recv.curAddr + c.recv.curOffset)) :
      ServerRun Ok { c with mem := m }
  | receive {c c' : Ctx (ServerState γ)} {r : Server.Received} {fuel : Nat} {update : Bool}
      (h : ServerRun Ok c) (fits : r.Fits c) (ok : Ok c r)
      (hr : srv.receiveThenSend fuel c r = some (update, c')) : ServerRun Ok c'

end Server

section Run
variable {γ : Type v} {srv : Server γ} {base maxSize : Int}

@[simp] theorem Server.closeIfd_mem (c : Ctx (ServerState γ)) : (srv.closeIfd c).mem = c.mem := by
  unfold Server.closeIfd
  split <;> rfl

@[simp] theorem Server.closeIfd_recv (c : Ctx (ServerState γ)) :
    (srv.closeIfd c).recv = c.recv := by
  unfold Server.closeIfd
  split <;> rfl

theorem Ctx.Within.congr {c c' : Ctx σ} {msMaxSize : Int} (h : c.Within base maxSize msMaxSize)
    (hrecv : c'.recv = c.recv)
    (hlen : 14 ≤ c.recv.curOffset → c'.pendingLength = c.pendingLength) :
    c'.Within base maxSize msMaxSize := by
  refine ⟨hrecv ▸ h.buf_eq, hrecv ▸ h.max_eq, h.sound.congr hrecv hlen, hrecv ▸ h.idle, ?_⟩
  rw [hrecv]
  intro hp
  have hin := h.pending hp
  refine ⟨hrecv ▸ hin.low, hrecv ▸ hin.high, ?_⟩
  rw [hrecv]
  rcases hin.room with hr | hr | hr
  · exact Or.inl hr
  · exact Or.inr (Or.inl hr)
  · rw [hlen hr.1]
    exact Or.inr (Or.inr hr)

theorem Ctx.Within.closeIfd {c : Ctx (ServerState γ)} {msMaxSize : Int}
    (h : c.Within base maxSize msMaxSize) : (srv.closeIfd c).Within base maxSize msMaxSize :=
  h.congr (by simp) fun _ => by simp [Ctx.pendingLength]

theorem Ctx.Within.env {c : Ctx σ} {m : Mem} {msMaxSize : Int}
    (h : c.Within base maxSize msMaxSize)
    (hm : Agree c.mem m c.recv.curAddr (c.recv.curAddr + c.recv.curOffset)) :
    ({ c with mem := m } : Ctx σ).Within base maxSize msMaxSize :=
  h.congr rfl fun hp => Ctx.pendingLength_env hp hm

theorem Ctx.Within.recvFrom {c c' : Ctx σ} {msMaxSize : Int} {handle : Callback σ} {ok : Bool}
    {bs : List UInt8} (h0 : 0 ≤ msMaxSize) (h31 : msMaxSize < 2 ^ 31) (h14 : 14 ≤ maxSize)
    (h : c.Within base maxSize msMaxSize) (hpos : 1 ≤ bs.length) (hle : bs.length ≤ c.recv.curSize)
    (hok : ∀ l, Visits (Loop.turn .inPlace msMaxSize handle)
      (Sockperf.enter (receivePendingData c bs) (c.recv.curAddr + c.recv.curOffset) bs.length) l →
      0 < l.len → l.WindowOk base maxSize msMaxSize handle)
    (hr : RecvFrom msMaxSize handle c bs ok c') : c'.Within base maxSize msMaxSize := by
  have hc : (receivePendingData c bs).Within base maxSize msMaxSize :=
    h.env (agree_store (Or.inl le_rfl)).symm
  exact hr.post (Loop.Within base maxSize msMaxSize) (fun q => q.2.Within base maxSize msMaxSize)
    (hc.enter rfl (by omega) hle) fun a ha hin =>
      ⟨fun b hb => hin.next h0 h31 (hok a ha) hb, fun q hq => hin.done h0 h31 h14 (hok a ha) hq⟩

theorem ServerRun.invariant {Ok : Ctx (ServerState γ) → Server.Received → Prop}
    (Inv : Ctx (ServerState γ) → Prop)
    (fresh : ∀ c, c.recv = freshRecv base maxSize → Inv c)
    (env : ∀ c m, Inv c → Agree c.mem m c.recv.curAddr (c.recv.curAddr + c.recv.curOffset) →
      Inv { c with mem := m })
    (close : ∀ c, Inv c → Inv (srv.closeIfd c))
    (data : ∀ c c' recvfromAddr bs ok, Inv c → 1 ≤ bs.length → bs.length ≤ c.recv.curSize →
      Ok c (.data recvfromAddr bs) →
      RecvFrom srv.msMaxSize (srv.handleMessage recvfromAddr) c bs ok c' → Inv c')
    {c : Ctx (ServerState γ)} (h : ServerRun srv base maxSize Ok c) : Inv c := by
  induction h with
  | fresh h => exact fresh _ h
  | env _ hm ih => exact env _ _ ih hm
  | @receive c c' r fuel update _ fits ok hr ih =>
    cases r with
    | data recvfromAddr bs =>
      simp only [Server.receiveThenSend] at hr
      split at hr
      · cases hr
      · next hc =>
        cases hr
        exact data _ _ _ _ _ ih fits.1 fits.2 ok ⟨fuel, hc⟩
      · next hc =>
        cases hr
        exact close _ (data _ _ _ _ _ ih fits.1 fits.2 ok ⟨fuel, hc⟩)
    | shutdown =>
      cases hr
      exact close _ ih
    | error =>
      cases hr
      exact ih

theorem ServerRun.within (h0 : 0 ≤ srv.msMaxSize) (h31 : srv.msMaxSize < 2 ^ 31)
    (h14 : 14 ≤ maxSize) {c : Ctx (ServerState γ)}
    (h : ServerRun srv base maxSize (srv.WindowOk base maxSize) c) :
    c.Within base maxSize srv.msMaxSize := by
  refine h.invariant (Ctx.Within base maxSize srv.msMaxSize) ?_ (fun _ _ ih hm => ih.env hm)
    (fun _ ih => ih.closeIfd) fun _ _ _ _ _ ih hpos hle ok hr =>
      ih.recvFrom h0 h31 h14 hpos hle ok hr
  intro c hc
  have hz : c.recv.curOffset = 0 := by
    rw [hc]
    rfl
  refine ⟨by rw [hc]; rfl, by rw [hc]; rfl, .of_zero hz, fun _ => ?_, fun hp => by omega⟩
  rw [hc]
  exact ⟨rfl, show 0 < maxSize by omega, le_rfl⟩

/-- In every run in which no message is rejected except at the start of the buffer, and no read
that is limited to the rest of a header completes a header announcing less than itself, the next
read may only fill memory of the receive buffer. -/
theorem window_inside (h0 : 0 ≤ srv.msMaxSize) (h31 : srv.msMaxSize < 2 ^ 31)
    (h14 : 14 ≤ maxSize) (hms : srv.msMaxSize ≤ maxSize + 1) {c : Ctx (ServerState γ)}
    (h : ServerRun srv base maxSize (srv.WindowOk base maxSize) c) :
    base ≤ c.recv.curAddr ∧ 0 < c.recv.curSize ∧
      c.recv.curAddr + c.recv.curOffset + c.recv.curSize ≤ base + 2 * maxSize :=
  (h.within h0 h31 h14).window h14 hms

end Run

section Drift
variable {γ : Type v} {srv : Server γ} {recvfromAddr : SockAddr}

theorem Server.handleMessage_of_not_client {m : Mem} {msg : Message} {s : ServerState γ}
    (hv : msg.isValidHeader srv.msMaxSize m = true) (hexit : (srv.outside s.handled).exit = false)
    (hc : (msg.getHeader m).isClient = false) :
    srv.handleMessage recvfromAddr m msg s = (true, m, { s with handled := s.handled + 1 }) := by
  simp [Server.handleMessage, hv, hexit, hc]

theorem Server.handleMessage_of_invalid {m : Mem} {msg : Message} {s : ServerState γ}
    (hv : ¬ msg.isValidHeader srv.msMaxSize m = true) :
    srv.handleMessage recvfromAddr m msg s = (false, m, { s with handled := s.handled + 1 }) := by
  simp [Server.handleMessage, hv]

theorem turn_reject (recvfromAddr : SockAddr) {l : Loop (ServerState γ)} {bad : MsgHeader}
    (h0 : 0 ≤ srv.msMaxSize) (h31 : srv.msMaxSize < 2 ^ 31) (hd : l.direct = true)
    (hoff : l.ctx.recv.curOffset = 0) (hlen : 14 ≤ l.len)
    (hload : load l.ctx.mem l.ctx.recv.curAddr 14 = bad.hton.bytes)
    (hbad : srv.msMaxSize < bad.length.toNat) :
    ∃ c', l.turn .inPlace srv.msMaxSize (srv.handleMessage recvfromAddr) = .done (false, c') ∧
      c'.recv = { l.ctx.recv with curSize := l.ctx.recv.maxSize, curOffset := 0 } := by
  have hann : l.ctx.announced = bad.length.toNat := announced_of_load (by omega) hload
  have hbig : srv.msMaxSize < l.ctx.announced := by
    rw [hann]
    exact hbad
  have hchunk := processChunk_oversize (n := l.len) h0 h31 (by omega) hbig
  rw [← Loop.chunkLen_direct hd] at hchunk
  have hprep : l.prepared .inPlace = l.ctx := Loop.prepared_direct hd
  rw [← congrArg (fun c => processChunk srv.msMaxSize c l.chunkLen) hprep] at hchunk
  have hinv : ¬ l.ctx.matchHeader.msg.isValidHeader srv.msMaxSize l.ctx.matchHeader.mem = true := by
    rw [Message.isValidHeader_iff _ _ h0 h31]
    exact not_le.mpr hbig
  have hturn := Loop.turn_deliver (srv.handleMessage recvfromAddr) (by omega) hchunk rfl
  rw [Server.handleMessage_of_invalid hinv, if_neg Bool.false_ne_true] at hturn
  exact ⟨_, hturn, rfl⟩

/-- A datagram of one message and an oversized header behind it moves the window by the size of
the message and leaves it there. -/
theorem drift (recvfromAddr : SockAddr) {c : Ctx (ServerState γ)} (w : WireMessage)
    (bad : MsgHeader) {base maxSize a : Int} (h0 : 0 ≤ srv.msMaxSize)
    (h31 : srv.msMaxSize < 2 ^ 31)
    (hrecv : c.recv = ⟨base, maxSize, a, 0, maxSize⟩) (hw : (w.size : Int) ≤ srv.msMaxSize)
    (hclient : w.header.isClient = false) (hbad : srv.msMaxSize < bad.length.toNat)
    (hexit : ∀ n, (srv.outside n).exit = false) :
    ∃ c', RecvFrom srv.msMaxSize (srv.handleMessage recvfromAddr) c
        (w.encode ++ bad.hton.bytes) false c' ∧
      c'.recv = ⟨base, maxSize, a + w.size, 0, maxSize⟩ := by
  have hsz := w.size_eq
  have henter := enter_received_of_zero (c := c) (by rw [hrecv]) (w.encode ++ bad.hton.bytes)
    (w.encode ++ bad.hton.bytes).length
  generalize hc0 : receivePendingData c (w.encode ++ bad.hton.bytes) = c0 at henter
  have hrecv0 : c0.recv = ⟨base, maxSize, a, 0, maxSize⟩ := by
    rw [← hc0, ← hrecv]
    rfl
  have hlen : (w.encode ++ bad.hton.bytes).length = w.size + 14 := by simp [effectiveSize]
  have hdata : load c0.mem a (w.size + 14) = w.encode ++ bad.hton.bytes := by
    rw [← hc0, receivePendingData, hrecv]
    simp only [add_zero]
    exact load_store_same' hlen.symm
  -- the first turn hands out the message
  have hoff0 : c0.recv.curOffset = (0 : Nat) := by simp [hrecv0]
  have hD : load c0.mem c0.recv.curAddr (0 + (w.size + 14)) =
      (w.stored 0 ++ bad.hton.bytes).take (0 + (w.size + 14)) := by
    rw [Nat.zero_add, w.stored_zero, List.take_of_length_le hlen.le, ← hdata, hrecv0]
  obtain ⟨c1, hchunk, del⟩ := processChunk_deliver h0 h31 hw hoff0 hD (by omega)
  have hturn := Loop.turn_deliver (l := ⟨c0, true, 0, a, (w.size + 14 : Nat)⟩)
    (S := .inPlace) (srv.handleMessage recvfromAddr) (by simp only; omega) hchunk (by rw [del.recv])
  rw [Server.handleMessage_of_not_client del.valid (hexit _) (by rw [del.header, hclient]),
    if_pos rfl] at hturn
  -- the second turn finds the header that is too large
  generalize hl1 : Loop.advance _ _ _ = l1 at hturn
  have hrecv1 : l1.ctx.recv = ⟨base, maxSize, a + w.size, 0, maxSize - w.size⟩ := by
    rw [← hl1]
    simp [Loop.advance, del.recv, hrecv0]
  have hmem1 : load l1.ctx.mem l1.ctx.recv.curAddr 14 = bad.hton.bytes := by
    have hdrop : load c0.mem (a + w.size) 14 = bad.hton.bytes := by
      rw [← load_drop, hdata, List.drop_left' (by simp)]
    rw [← hdrop, hrecv1, ← hl1]
    apply load_congr
    intro x hx _
    refine del.outside x (Or.inr ?_)
    rw [hrecv0]
    simp only at hx ⊢
    omega
  obtain ⟨c2, hturn1, hrecv2⟩ := turn_reject (l := l1) recvfromAddr h0 h31
    (by rw [← hl1]; rfl) (by rw [hrecv1]) (by rw [← hl1]; simp [Loop.advance]) hmem1 hbad
  refine ⟨c2, ?_, ?_⟩
  · unfold RecvFrom ProcessBuffer
    rw [hc0, henter, hlen, hrecv]
    exact (Returns.of_done hturn1).of_next hturn
  · rw [hrecv2, hrecv1]

theorem Server.receiveThenSend_of_recvFrom {c c' : Ctx (ServerState γ)} {bs : List UInt8} {ok : Bool}
    (h : RecvFrom srv.msMaxSize (srv.handleMessage recvfromAddr) c bs ok c') :
    ∃ fuel, srv.receiveThenSend fuel c (.data recvfromAddr bs) =
      some (!ok, if ok then c' else srv.closeIfd c') := by
  obtain ⟨fuel, hf⟩ := recvFrom_iff.mp h
  refine ⟨fuel, ?_⟩
  simp only [Server.receiveThenSend, hf]
  cases ok <;> rfl

theorem Server.receiveThenSend_mono {c : Ctx (ServerState γ)} {n k : Nat} {bs : List UInt8}
    {r : Bool × Ctx (ServerState γ)} (h : srv.receiveThenSend n c (.data recvfromAddr bs) = some r)
    (hk : n ≤ k) : srv.receiveThenSend k c (.data recvfromAddr bs) = some r := by
  unfold Server.receiveThenSend at h ⊢
  dsimp only at h ⊢
  split at h
  · cases h
  · next hr =>
    rw [show recvFrom _ _ k _ _ = _ from iterate_mono hr hk]
    exact h
  · next hr =>
    rw [show recvFrom _ _ k _ _ = _ from iterate_mono hr hk]
    exact h

end Drift

/-- A unicast UDP socket of a server with default sizes. -/
def udpServer : Server Unit where
  msMaxSize := 65508
  params := ⟨false, false, false⟩
  fd := ⟨.inet 0 11111, false, false, 0⟩
  execute := fun _ _ _ g => g
  outside := fun _ => ⟨false, .sent⟩

def udpFresh : Ctx (ServerState Unit) :=
  ⟨fun _ => 0, freshRecv 0 65507, ⟨0⟩, ⟨0, 0, (), [], false⟩, true⟩

def bigMessage : WireMessage where
  header := ⟨0, 0, 65493⟩
  body := List.replicate 65479 0
  length_eq := by
    rw [List.length_replicate]
    decide

/-- Two datagrams of 65507 bytes, each a message of 65493 bytes and a header with an oversized
length: the next read may end far behind the buffer. -/
theorem window_leaves_buffer :
    ∃ c, ServerRun udpServer 0 65507 (fun _ _ => True) c ∧
      ¬ c.recv.curAddr + c.recv.curOffset + c.recv.curSize ≤ 0 + 2 * 65507 := by
  have hsize : bigMessage.size = 65493 := rfl
  have hw : (bigMessage.size : Int) ≤ udpServer.msMaxSize := by
    rw [hsize]
    decide
  have hlen : (bigMessage.encode ++ (MsgHeader.hton ⟨0, 0, 65509⟩).bytes).length = 65507 := by
    rw [List.length_append, WireMessage.encode_length, hsize, MsgHeader.bytes_length]
    rfl
  -- one such datagram, received at any position of the window
  have hstep : ∀ c a, ServerRun udpServer 0 65507 (fun _ _ => True) c →
      c.recv = ⟨0, 65507, a, 0, 65507⟩ →
      ∃ c', ServerRun udpServer 0 65507 (fun _ _ => True) c' ∧
        c'.recv = ⟨0, 65507, a + 65493, 0, 65507⟩ := by
    intro c a hc hrecv
    obtain ⟨c', hr, hrecv'⟩ := drift (.inet 1 1) bigMessage ⟨0, 0, 65509⟩ (by decide) (by decide)
      hrecv hw rfl (by decide) fun _ => rfl
    obtain ⟨fuel, hf⟩ := Server.receiveThenSend_of_recvFrom hr
    have fits : (Server.Received.data (.inet 1 1)
        (bigMessage.encode ++ (MsgHeader.hton ⟨0, 0, 65509⟩).bytes)).Fits c := by
      simp only [Server.Received.Fits, hlen, hrecv]
      decide
    refine ⟨_, ServerRun.receive hc fits trivial hf, ?_⟩
    rw [if_neg Bool.false_ne_true, Server.closeIfd_recv, hrecv', hsize]
    rfl
  obtain ⟨c1, hc1, hrecv1⟩ := hstep udpFresh 0 (ServerRun.fresh rfl) rfl
  obtain ⟨c2, hc2, hrecv2⟩ := hstep c1 _ hc1 hrecv1
  refine ⟨c2, hc2, ?_⟩
  rw [hrecv2]
  decide

theorem Server.WindowOk.of_start {γ : Type v} {srv : Server γ} {base maxSize : Int}
    {c : Ctx (ServerState γ)} {recvfromAddr : SockAddr} {bs : List UInt8}
    (hstart : ∀ l, Visits (Loop.turn .inPlace srv.msMaxSize (srv.handleMessage recvfromAddr))
      (enter (receivePendingData c bs) (c.recv.curAddr + c.recv.curOffset) bs.length) l →
      0 < l.len → l.ctx.recv.curAddr = base ∧ l.ctx.recv.curOffset = 0) :
    srv.WindowOk base maxSize c (.data recvfromAddr bs) := by
  intro l hv hlen
  obtain ⟨haddr, hoff⟩ := hstart l hv hlen
  exact ⟨fun _ _ _ _ _ => haddr, fun hpos => absurd hoff hpos.ne'⟩

def askingMessage : WireMessage := ⟨⟨0, 3, 14⟩, [], rfl⟩

theorem askingMessage_handled : ∃ c,
    ServerRun udpServer 0 65507 (udpServer.WindowOk 0 65507) c ∧
      c.recv = freshRecv 0 65507 ∧ c.state.receiveCount = 1 := by
  have ok : udpServer.WindowOk 0 65507 udpFresh (.data (.inet 1 1) askingMessage.encode) := by
    apply Server.WindowOk.of_start
    intro l hv hlen
    rcases hv.eq_or_next with rfl | ⟨l1, h1, hv1⟩
    · exact ⟨rfl, rfl⟩
    -- the first turn reads the whole datagram
    have hread : l1.len = 0 := by
      obtain rfl := Turn.next.inj (show Turn.next _ = Turn.next l1 from h1)
      rfl
    rcases hv1.eq_or_next with rfl | ⟨l2, h2, -⟩
    · omega
    · rw [Loop.turn_exit hread.le] at h2
      cases h2
  have hreceive : udpServer.receiveThenSend 2 udpFresh
      (.data (.inet 1 1) askingMessage.encode) = some (false, _) := rfl
  refine ⟨_, (ServerRun.fresh (c := udpFresh) rfl).receive
    (r := .data (.inet 1 1) askingMessage.encode) ⟨by decide, by decide⟩ ok hreceive, ?_, ?_⟩
  · rfl
  · rfl

/-- A request is handled, and of the next datagram three bytes are left pending. -/
theorem window_inside_short :
    ∃ c, ServerRun udpServer 0 65507 (udpServer.WindowOk 0 65507) c ∧
      c.state.receiveCount = 1 ∧ c.recv.curOffset = 3 ∧
      0 ≤ c.recv.curAddr ∧ 0 < c.recv.curSize ∧
      c.recv.curAddr + c.recv.curOffset + c.recv.curSize ≤ 0 + 2 * 65507 := by
  obtain ⟨c, hc, hrecv, hcount⟩ := askingMessage_handled
  obtain ⟨c', hr, -, hstate, hrecv', hvisits⟩ := recvFrom_short udpServer.msMaxSize
    (udpServer.handleMessage (.inet 1 1)) (c := c) (by rw [hrecv]; rfl)
    (show 0 < [1, 2, 3].length by decide) (by decide)
  obtain ⟨fuel, hf⟩ := Server.receiveThenSend_of_recvFrom hr
  have ok : udpServer.WindowOk 0 65507 c (.data (.inet 1 1) [1, 2, 3]) := by
    apply Server.WindowOk.of_start
    intro l hv hlen
    rw [hvisits l hv hlen]
    exact ⟨congrArg SocketRecvData.curAddr hrecv, congrArg SocketRecvData.curOffset hrecv⟩
  have hrun := hc.receive (r := .data (.inet 1 1) [1, 2, 3])
    ⟨by decide, by rw [hrecv]; decide⟩ ok hf
  rw [if_pos rfl] at hrun
  refine ⟨c', hrun, ?_, ?_,
    window_inside (by decide) (by decide) (by decide) (by decide) hrun⟩
  · rw [hstate, hcount]
  · rw [hrecv']
    rfl

end Sockperf
