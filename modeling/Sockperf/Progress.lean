import Sockperf.MessageParser

/-!
# Progress of the parser on arbitrary input

`process_chunk` checks a length field against an upper bound only. What a turn
of the loop consumes is the length minus the bytes already accumulated, so the
loop moves forward exactly when the length exceeds them.
-/

namespace Sockperf

open Memory While
set_option autoImplicit false

universe u
variable {σ : Type u}

/-- What holds of a receive context between two calls, whatever was received: a pending message
leaves something to read, and once its header is known the message is really incomplete. -/
structure Ctx.Sound (msMaxSize : Int) (c : Ctx σ) : Prop where
  nonneg : 0 ≤ c.recv.curOffset
  size : 0 < c.recv.curOffset → 0 < c.recv.curSize
  header : 14 ≤ c.recv.curOffset →
    c.recv.curOffset < c.pendingLength ∧ (c.pendingLength : Int) ≤ msMaxSize

theorem Ctx.Sound.of_zero {msMaxSize : Int} {c : Ctx σ} (h : c.recv.curOffset = 0) :
    c.Sound msMaxSize := ⟨by omega, by omega, by omega⟩

theorem Ctx.pendingLength_env {c : Ctx σ} {m : Mem} (hp : 14 ≤ c.recv.curOffset)
    (hm : Agree c.mem m c.recv.curAddr (c.recv.curAddr + c.recv.curOffset)) :
    ({ c with mem := m } : Ctx σ).pendingLength = c.pendingLength := by
  have hload : load m c.recv.curAddr effectiveSize = load c.mem c.recv.curAddr effectiveSize :=
    load_congr (hm.mono le_rfl (by simp only [effectiveSize]; omega)).symm
  simp only [Ctx.pendingLength, Message.getHeader, hload]

theorem Ctx.Sound.congr {msMaxSize : Int} {c c' : Ctx σ} (h : c.Sound msMaxSize)
    (hrecv : c'.recv = c.recv)
    (hlen : 14 ≤ c.recv.curOffset → c'.pendingLength = c.pendingLength) : c'.Sound msMaxSize := by
  refine ⟨hrecv ▸ h.nonneg, hrecv ▸ h.size, ?_⟩
  rw [hrecv]
  intro hp
  rw [hlen hp]
  exact h.header hp

theorem Ctx.Sound.env {msMaxSize : Int} {c : Ctx σ} {m : Mem} (h : c.Sound msMaxSize)
    (hm : Agree c.mem m c.recv.curAddr (c.recv.curAddr + c.recv.curOffset)) :
    ({ c with mem := m } : Ctx σ).Sound msMaxSize :=
  h.congr rfl fun hp => Ctx.pendingLength_env hp hm

namespace Loop
variable (S : AccumulationStrategy) (msMaxSize : Int) (handle : Callback σ) (l : Loop σ)

/-- The bytes that the turn taken at `l` consumes. -/
def nprocessed : Int := (processChunk msMaxSize (l.prepared S) l.chunkLen).2

/-- The first byte of the input that is not consumed yet. -/
def position : Int := l.buf + l.offset

/-- A header completed by this turn counts more bytes than were accumulated before it. -/
def LengthOk : Prop :=
  l.ctx.recv.curOffset < 14 → 14 ≤ l.ctx.recv.curOffset + l.chunkLen →
    ((l.prepared S).announced : Int) ≤ msMaxSize → l.ctx.recv.curOffset < (l.prepared S).announced

/-- The invariant of the loop for arbitrary data. -/
structure Sound : Prop where
  ctx : l.ctx.Sound msMaxSize
  accumulated : l.direct = false → 0 < l.ctx.recv.curOffset
  direct : l.direct = true → l.ctx.recv.curAddr = l.buf

end Loop

section Sound
variable {S : AccumulationStrategy} {msMaxSize : Int} {handle : Callback σ} {l : Loop σ}

theorem Loop.Sound.chunkLen_pos (h : l.Sound msMaxSize) (hlen : 0 < l.len) : 0 < l.chunkLen := by
  unfold Loop.chunkLen
  split
  · exact hlen
  · next hd =>
    have := h.ctx.size (h.accumulated (by simpa using hd))
    split <;> omega

theorem Loop.announced_of_le (h : 14 ≤ l.ctx.recv.curOffset) :
    (l.prepared S).announced = l.ctx.pendingLength := by
  have hmatch : (l.prepared S).matchHeader.mem = (l.prepared S).mem :=
    matchHeader_mem_of_le _ (by simpa using h)
  have hload : load (l.prepared S).mem l.ctx.recv.curAddr effectiveSize =
      load l.ctx.mem l.ctx.recv.curAddr effectiveSize := by
    unfold Loop.prepared
    split
    · rfl
    · cases S with
      | inPlace => rfl
      | buffer =>
        apply load_store_disjoint
        left
        simp only [effectiveSize]
        omega
  simp only [Ctx.announced, Ctx.pendingLength, Message.getHeader, hmatch, matchHeader_addr,
    Loop.prepared_recv, hload]

variable (h0 : 0 ≤ msMaxSize) (h31 : msMaxSize < 2 ^ 31)
include h0 h31

theorem processChunk_sound {c : Ctx σ} {n : Int} (hp : 0 ≤ c.recv.curOffset) (hn : 0 < n) :
    (processChunk msMaxSize c n).1.Sound msMaxSize := by
  have ho := processChunk_outcome h0 h31 c n
  generalize processChunk msMaxSize c n = r at ho ⊢
  cases ho with
  | short lt =>
    refine ⟨by simp only; omega, fun _ => ?_, fun h => by simp only at h; omega⟩
    simp only
    split <;> omega
  | oversize => exact .of_zero rfl
  | incomplete ge le lt =>
    have hlen := matchHeader_pendingLength c
    simp only [Ctx.pendingLength, matchHeader_recv] at hlen
    refine ⟨by simp only; omega, fun _ => ?_, fun _ => ?_⟩
    · simp only
      split <;> omega
    · simp only [Ctx.pendingLength, hlen]
      exact ⟨lt, le⟩
  | complete => exact .of_zero rfl

theorem Loop.Sound.progress_iff (h : l.Sound msMaxSize) (hlen : 0 < l.len) :
    1 ≤ l.nprocessed S msMaxSize ∧ l.nprocessed S msMaxSize ≤ l.chunkLen ↔
      l.LengthOk S msMaxSize := by
  have hn := h.chunkLen_pos hlen
  have hrecv : (l.prepared S).recv = l.ctx.recv := Loop.prepared_recv
  unfold Loop.nprocessed Loop.LengthOk
  have ho := processChunk_outcome h0 h31 (l.prepared S) l.chunkLen
  generalize processChunk msMaxSize (l.prepared S) l.chunkLen = r at ho ⊢
  cases ho with
  | short lt =>
    rw [hrecv] at lt
    constructor <;> intro _ <;> omega
  | oversize ge big => constructor <;> intro _ <;> omega
  | incomplete ge le lt =>
    rw [hrecv] at lt
    constructor <;> intro _ <;> omega
  | complete ge le reached =>
    simp only [hrecv] at ge reached ⊢
    -- with the header known before, the pending message was incomplete
    have hnew : 14 ≤ l.ctx.recv.curOffset → l.ctx.recv.curOffset < (l.prepared S).announced := by
      intro hp
      rw [Loop.announced_of_le hp]
      exact (h.ctx.header hp).1
    constructor
    · intro _ _ _ _
      omega
    · intro hok
      rcases lt_or_ge l.ctx.recv.curOffset 14 with hp | hp
      · have := hok hp ge le
        omega
      · have := hnew hp
        omega

theorem Loop.Sound.next {l' : Loop σ} (h : l.Sound msMaxSize)
    (ht : l.turn S msMaxSize handle = .next l') : l'.Sound msMaxSize := by
  rcases lt_or_ge 0 l.len with hlen | hlen
  · have hc := processChunk_sound h0 h31 (c := l.prepared S) (by simpa using h.ctx.nonneg)
      (h.chunkLen_pos hlen)
    have haddr := processChunk_curAddr msMaxSize (l.prepared S) l.chunkLen
    generalize hp : processChunk msMaxSize (l.prepared S) l.chunkLen = r at hc haddr
    obtain ⟨c, n⟩ := r
    simp only [Loop.prepared_recv] at haddr
    by_cases hz : c.recv.curOffset = 0
    · rw [Loop.turn_deliver handle hlen hp hz] at ht
      split at ht
      · cases ht
        refine ⟨.of_zero hz, fun hd => by simp [Loop.advance] at hd, fun _ => ?_⟩
        simp only [Loop.advance]
        split
        · next hd => rw [haddr, h.direct hd]
        · rfl
      · cases ht
    · rw [Loop.turn_keep handle hlen hp hz] at ht
      cases ht
      have : 0 ≤ c.recv.curOffset := hc.nonneg
      exact ⟨hc, fun _ => by simp only; omega, fun hd => haddr.trans (h.direct hd)⟩
  · rw [Loop.turn_exit hlen] at ht
    cases ht

omit h0 h31 in
/-- Starting the accumulation moves the pending bytes, with their header, to the buffer. -/
theorem startAccumulation_pendingLength {c : Ctx σ} (hp : 14 ≤ c.recv.curOffset) :
    (AccumulationStrategy.buffer.startAccumulation c c.recv.curAddr
      c.recv.curOffset).pendingLength = c.pendingLength := by
  have hle : effectiveSize ≤ c.recv.curOffset.toNat := by
    simp only [effectiveSize]
    omega
  have hload : load (memmove c.mem c.recv.buf c.recv.curAddr c.recv.curOffset.toNat) c.recv.buf
      effectiveSize = load c.mem c.recv.curAddr effectiveSize := by
    rw [← load_take hle, memmove, load_store_same' (by simp), load_take hle]
  simp only [AccumulationStrategy.startAccumulation, Ctx.pendingLength, Message.getHeader, hload]

omit h0 h31 in
theorem Loop.Sound.finish (h : l.Sound msMaxSize) : (l.finish S).Sound msMaxSize := by
  unfold Loop.finish
  split
  · next hz => exact .of_zero (by cases S <;> simpa [AccumulationStrategy.resetReadBuffer] using hz)
  · split
    · next hz hd =>
      cases S with
      | inPlace => exact ⟨h.ctx.nonneg, h.ctx.size, h.ctx.header⟩
      | buffer =>
        refine ⟨h.ctx.nonneg, h.ctx.size, fun hp => ?_⟩
        rw [← h.direct hd, startAccumulation_pendingLength (c := l.ctx) hp]
        exact h.ctx.header hp
    · exact h.ctx

omit h0 h31 in
theorem Loop.Sound.done {ok : Bool} {c : Ctx σ} (h : l.Sound msMaxSize)
    (ht : l.turn S msMaxSize handle = .done (ok, c)) : c.Sound msMaxSize := by
  rcases lt_or_ge 0 l.len with hlen | hlen
  · generalize hp : processChunk msMaxSize (l.prepared S) l.chunkLen = r
    obtain ⟨c', n⟩ := r
    by_cases hz : c'.recv.curOffset = 0
    · rw [Loop.turn_deliver handle hlen hp hz] at ht
      split at ht
      · cases ht
      · cases ht
        exact .of_zero hz
    · rw [Loop.turn_keep handle hlen hp hz] at ht
      cases ht
  · rw [Loop.turn_exit hlen] at ht
    cases ht
    exact h.finish

omit h0 h31 in
theorem Ctx.Sound.enter {c : Ctx σ} (h : c.Sound msMaxSize) (buf len : Int) :
    (enter c buf len).Sound msMaxSize := by
  by_cases hz : c.recv.curOffset = 0
  · rw [enter_of_zero hz]
    exact ⟨.of_zero hz, by simp, fun _ => rfl⟩
  · rw [enter_of_ne hz]
    have := h.nonneg
    exact ⟨h, fun _ => by simp only; omega, by simp⟩

end Sound

/-- The receive contexts that earlier calls can leave, on any data. Between two calls the
memory outside the pending bytes may change in any way. -/
inductive Reachable (S : AccumulationStrategy) (msMaxSize : Int) (handle : Callback σ)
    (base maxSize : Int) : Ctx σ → Prop
  | fresh {c : Ctx σ} (h : c.recv = freshRecv base maxSize) :
      Reachable S msMaxSize handle base maxSize c
  | env {c : Ctx σ} {m : Mem} (h : Reachable S msMaxSize handle base maxSize c)
      (hm : Agree c.mem m c.recv.curAddr (c.recv.curAddr + c.recv.curOffset)) :
      Reachable S msMaxSize handle base maxSize { c with mem := m }
  | call {c c' : Ctx σ} {buf len : Int} {ok : Bool}
      (h : Reachable S msMaxSize handle base maxSize c)
      (hc : ProcessBuffer S msMaxSize handle c buf len ok c') :
      Reachable S msMaxSize handle base maxSize c'

section Reach
variable {S : AccumulationStrategy} {msMaxSize : Int} {handle : Callback σ}
variable {base maxSize : Int} {c : Ctx σ} {buf len : Int} {l : Loop σ}
variable (h0 : 0 ≤ msMaxSize) (h31 : msMaxSize < 2 ^ 31)
include h0 h31

theorem Reachable.sound (h : Reachable S msMaxSize handle base maxSize c) :
    c.Sound msMaxSize := by
  induction h with
  | fresh h => exact .of_zero (by rw [h]; rfl)
  | env _ hm ih => exact ih.env hm
  | call _ hc ih =>
    exact hc.post (Loop.Sound msMaxSize) (fun q => q.2.Sound msMaxSize) (ih.enter _ _)
      fun a _ ha => ⟨fun b hb => ha.next h0 h31 hb, fun q hq => ha.done hq⟩

theorem Reachable.visited (h : Reachable S msMaxSize handle base maxSize c)
    (hv : Visits (Loop.turn S msMaxSize handle) (enter c buf len) l) : l.Sound msMaxSize :=
  hv.invariant (Loop.Sound msMaxSize) ((h.sound h0 h31).enter buf len) fun _ _ _ ha hb => ha.next h0 h31 hb

end Reach

theorem Loop.turn_position {S : AccumulationStrategy} {msMaxSize : Int} {handle : Callback σ}
    {l l' : Loop σ} (ht : l.turn S msMaxSize handle = .next l') :
    l'.position = l.position + l.nprocessed S msMaxSize ∧
      l'.len = l.len - l.nprocessed S msMaxSize := by
  rcases lt_or_ge 0 l.len with hlen | hlen
  · unfold Loop.nprocessed Loop.position
    generalize hp : processChunk msMaxSize (l.prepared S) l.chunkLen = r
    obtain ⟨c, n⟩ := r
    by_cases hz : c.recv.curOffset = 0
    · rw [Loop.turn_deliver handle hlen hp hz] at ht
      split at ht
      · cases ht
        exact ⟨by simp only [Loop.advance]; ring, rfl⟩
      · cases ht
    · rw [Loop.turn_keep handle hlen hp hz] at ht
      cases ht
      exact ⟨by simp only; ring, rfl⟩
  · rw [Loop.turn_exit hlen] at ht
    cases ht

/-- In every reachable state and on every input, a turn of the loop consumes at least one byte
of its chunk exactly when a header completed by it counts more than the accumulated bytes. When
all turns of a call do, the loop ends after at most `len` of them, and the read position only
moves forward from the start of the buffer. -/
theorem progress_exact (S : AccumulationStrategy) {msMaxSize : Int} (h0 : 0 ≤ msMaxSize)
    (h31 : msMaxSize < 2 ^ 31) (handle : Callback σ) {base maxSize : Int} {c : Ctx σ}
    (hc : Reachable S msMaxSize handle base maxSize c) (buf len : Int) :
    (∀ l, Visits (Loop.turn S msMaxSize handle) (enter c buf len) l → 0 < l.len →
      (1 ≤ l.nprocessed S msMaxSize ∧ l.nprocessed S msMaxSize ≤ l.chunkLen ↔
        l.LengthOk S msMaxSize)) ∧
    ((∀ l, Visits (Loop.turn S msMaxSize handle) (enter c buf len) l → 0 < l.len →
        l.LengthOk S msMaxSize) →
      (∃ r, iterate (Loop.turn S msMaxSize handle) (len.toNat + 1) (enter c buf len) = some r) ∧
      ∀ l, Visits (Loop.turn S msMaxSize handle) (enter c buf len) l →
        buf ≤ l.position ∧ l.position + l.len = buf + len ∧
        ∀ l', l.turn S msMaxSize handle = .next l' → l.position < l'.position) := by
  have hiff : ∀ l, Visits (Loop.turn S msMaxSize handle) (enter c buf len) l → 0 < l.len →
      (1 ≤ l.nprocessed S msMaxSize ∧ l.nprocessed S msMaxSize ≤ l.chunkLen ↔
        l.LengthOk S msMaxSize) :=
    fun l hv hlen => (hc.visited h0 h31 hv).progress_iff h0 h31 hlen
  refine ⟨hiff, fun hall => ?_⟩
  have hforward : ∀ l l', Visits (Loop.turn S msMaxSize handle) (enter c buf len) l →
      l.turn S msMaxSize handle = .next l' → 0 < l.len ∧ 1 ≤ l.nprocessed S msMaxSize := by
    intro l l' hv ht
    rcases lt_or_ge 0 l.len with hlen | hlen
    · exact ⟨hlen, ((hiff l hv hlen).mpr (hall l hv hlen)).1⟩
    · rw [Loop.turn_exit hlen] at ht
      cases ht
  constructor
  · have hlen : (enter c buf len).len = len := rfl
    obtain ⟨r, hr, -⟩ := returns_of_variant (Loop.turn S msMaxSize handle)
      (Visits (Loop.turn S msMaxSize handle) (enter c buf len)) (fun _ => True)
      (fun l => l.len.toNat) (Visits.refl _ _) (by
        intro l hv
        cases ht : l.turn S msMaxSize handle with
        | done q => exact Or.inr ⟨q, rfl, trivial⟩
        | next l' =>
          have hf := hforward l l' hv ht
          have hpos := Loop.turn_position ht
          exact Or.inl ⟨l', rfl, hv.tail ht, by omega⟩)
    exact ⟨r, hlen ▸ hr⟩
  · intro l hv
    have hinv : buf ≤ l.position ∧ l.position + l.len = buf + len := by
      refine hv.invariant (fun l => buf ≤ l.position ∧ l.position + l.len = buf + len) ?_ ?_
      · simp [enter, Loop.position]
      · intro a b ha hinv ht
        have hf := hforward a b ha ht
        have hpos := Loop.turn_position ht
        omega
    refine ⟨hinv.1, hinv.2, fun l' ht => ?_⟩
    have hf := hforward l l' hv ht
    have hpos := Loop.turn_position ht
    omega

theorem setHeaderToHost_zero (a : Int) :
    (Message.mk a).setHeaderToHost (fun _ => 0) = fun _ => 0 := by
  have hh : (Message.mk a).getHeader (fun _ => 0) = ⟨0, 0, 0⟩ := by
    simp only [Message.getHeader, load]
    decide
  have hn : ((Message.mk a).getHeader (fun _ => 0)).ntoh = (Message.mk a).getHeader (fun _ => 0) := by
    rw [hh]
    decide
  rw [Message.setHeaderToHost, hn, Message.setHeader_getHeader]

def zeroCtx : Ctx Unit := ⟨fun _ => 0, freshRecv 0 65507, ⟨0⟩, (), true⟩

theorem zeroCtx_matchHeader : zeroCtx.matchHeader = zeroCtx := by
  have h := setHeaderToHost_zero 0
  simp only [Ctx.matchHeader, zeroCtx, freshRecv, Message.setBuf, effectiveSize, h]
  rfl

theorem zeroCtx_chunk : processChunk 65508 zeroCtx 14 = (zeroCtx, 0) := by
  have ha : zeroCtx.announced = 0 := by
    rw [Ctx.announced, zeroCtx_matchHeader]
    decide
  rw [processChunk_complete (by decide) (by decide) (by decide) (by simp [ha])
    (by rw [ha]; decide), zeroCtx_matchHeader, ha]
  simp [zeroCtx, freshRecv]

/-- 14 zero bytes on a fresh socket: the first turn consumes nothing and hands out an empty
message; as its handler accepts it, the loop never ends. -/
theorem zero_length_never_ends :
    let handle : Callback Unit := fun m _ s => (true, m, s)
    ∀ S, Reachable S 65508 handle 0 65507 zeroCtx ∧
      0 < (enter zeroCtx 0 14).len ∧
      ¬ (1 ≤ (enter zeroCtx 0 14).nprocessed S 65508) ∧
      ∀ fuel, processBuffer S 65508 handle fuel zeroCtx 0 14 = none := by
  intro handle S
  have henter : enter zeroCtx 0 14 = ⟨zeroCtx, true, 0, 0, 14⟩ := enter_of_zero rfl 0 14
  have hchunk : processChunk 65508 ((enter zeroCtx 0 14).prepared S) (enter zeroCtx 0 14).chunkLen =
      (zeroCtx, 0) := by
    rw [henter, Loop.prepared_direct rfl, Loop.chunkLen_direct rfl]
    exact zeroCtx_chunk
  have hturn : (enter zeroCtx 0 14).turn S 65508 handle = .next (enter zeroCtx 0 14) := by
    rw [Loop.turn_deliver handle (by decide) hchunk rfl, henter]
    rfl
  refine ⟨Reachable.fresh rfl, by decide, ?_, iterate_of_self hturn⟩
  rw [Loop.nprocessed, hchunk]
  decide

/-- A socket with one message of 14 bytes at the start of its buffer. -/
def headerCtx : Ctx Unit :=
  ⟨(Message.mk 0).setHeader (fun _ => 0) (MsgHeader.hton ⟨1, 1, 14⟩), freshRecv 0 65507, ⟨0⟩, (),
    true⟩

theorem headerCtx_announced : headerCtx.announced = 14 := by
  have hmem := matchHeader_mem_of_lt headerCtx (by decide)
  have hmsg : headerCtx.matchHeader.msg = ⟨0⟩ := by
    change (⟨headerCtx.matchHeader.msg.addr⟩ : Message) = _
    rw [matchHeader_addr]
    rfl
  rw [Ctx.announced, hmem, hmsg]
  simp only [headerCtx, freshRecv, Message.setHeaderToHost, Message.getHeader_setHeader,
    MsgHeader.ntoh_hton]
  rfl

/-- One whole message of 14 bytes: the loop ends in time and never moves back. -/
theorem progress_exact_header :
    let handle : Callback Unit := fun m _ s => (true, m, s)
    (∃ r, iterate (Loop.turn .inPlace 65508 handle) 15 (enter headerCtx 0 14) = some r) ∧
      ∀ l, Visits (Loop.turn .inPlace 65508 handle) (enter headerCtx 0 14) l →
        0 ≤ l.position ∧ l.position + l.len = 0 + 14 ∧
        ∀ l', l.turn .inPlace 65508 handle = .next l' → l.position < l'.position := by
  intro handle
  have henter : enter headerCtx 0 14 = ⟨headerCtx, true, 0, 0, 14⟩ := enter_of_zero rfl 0 14
  have hprep : (enter headerCtx 0 14).prepared .inPlace = headerCtx := by
    rw [henter, Loop.prepared_direct rfl]
  have hn : (enter headerCtx 0 14).nprocessed .inPlace 65508 = 14 := by
    rw [Loop.nprocessed, hprep, henter, Loop.chunkLen_direct rfl,
      processChunk_complete (by decide) (by decide) (by decide) (by rw [headerCtx_announced]; decide)
        (by rw [headerCtx_announced]; decide), headerCtx_announced]
    rfl
  have hreach : Reachable .inPlace 65508 handle 0 65507 headerCtx := Reachable.fresh rfl
  refine (progress_exact .inPlace (by decide) (by decide) handle hreach 0 14).2
    fun l hv hlen => ?_
  rcases hv.eq_or_next with rfl | ⟨l', ht, hv'⟩
  · intro _ _ _
    rw [hprep, headerCtx_announced]
    decide
  · -- the only turn consumes everything
    have hlen' : l'.len = 0 := by
      rw [(Loop.turn_position ht).2, hn]
      rfl
    rcases hv'.eq_or_next with rfl | ⟨l'', ht', -⟩
    · omega
    · rw [Loop.turn_exit hlen'.le] at ht'
      cases ht'

end Sockperf
