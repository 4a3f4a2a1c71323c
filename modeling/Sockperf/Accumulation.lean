import Sockperf.Progress
import Sockperf.Framing
import Sockperf.MsgSizes

/-!
# The size of the accumulation buffer

`bringup` sizes the largest message that the parser accepts, and with other terms the buffer that
`BufferAccumulation` copies it to. On any data a copy ends where the pending message does, or inside
the first half of the buffer.
-/

namespace Sockperf

open Memory While
set_option autoImplicit false

universe u
variable {σ : Type u}

/-! ## The copies -/

/-- A `memmove`. -/
structure Copy where
  dst : Int
  src : Int
  size : Int

namespace Copy

def apply (k : Copy) (m : Mem) : Mem := memmove m k.dst k.src k.size.toNat

/-- Only bytes of the buffer of `cap` bytes at `base` are written. A negative size would be a huge
one for `memmove`. -/
structure Inside (base cap : Int) (k : Copy) : Prop where
  size : 0 ≤ k.size
  low : base ≤ k.dst
  high : k.dst + k.size ≤ base + cap

end Copy

namespace Loop
variable {l : Loop σ}

/-- The copy that a turn makes with `BufferAccumulation`: in `accumulate_more` before the chunk is
processed, or in `start_accumulation` behind the loop. -/
def copy (l : Loop σ) : Option Copy :=
  if 0 < l.len then
    if l.direct then none
    else some ⟨l.ctx.recv.curAddr + l.ctx.recv.curOffset, l.buf + l.offset, l.chunkLen⟩
  else if l.ctx.recv.curOffset = 0 then none
  else if l.direct then some ⟨l.ctx.recv.buf, l.buf, l.ctx.recv.curOffset⟩
  else none

def copied (l : Loop σ) : Mem := l.copy.elim l.ctx.mem fun k => k.apply l.ctx.mem

theorem prepared_mem (h : 0 < l.len) : (l.prepared .buffer).mem = l.copied := by
  unfold copied copy prepared
  rw [if_pos h]
  split <;> rfl

theorem finish_mem (h : l.len ≤ 0) : (l.finish .buffer).mem = l.copied := by
  unfold copied copy finish
  rw [if_neg (not_lt.mpr h)]
  split
  · rfl
  · split <;> rfl

end Loop

/-! ## The room for a message -/

/-- What holds of the sizes whatever was received: without a header the next read ends in the first
half of the buffer, with a header it ends where the message does. -/
structure Ctx.Fitting (base maxSize : Int) (c : Ctx σ) : Prop where
  buf_eq : c.recv.buf = base
  maxSize_eq : c.recv.maxSize = maxSize
  room : c.recv.curOffset < 14 → c.recv.curOffset + c.recv.curSize ≤ maxSize
  rest : 14 ≤ c.recv.curOffset → c.recv.curOffset + c.recv.curSize = c.pendingLength

structure Ctx.Kept (msMaxSize base maxSize : Int) (c : Ctx σ) : Prop where
  sound : c.Sound msMaxSize
  fitting : c.Fitting base maxSize
  addr : c.recv.curOffset ≠ 0 → c.recv.curAddr = base

structure Loop.Fitting (msMaxSize base maxSize : Int) (l : Loop σ) : Prop where
  sound : l.Sound msMaxSize
  ctx : l.ctx.Fitting base maxSize
  addr : l.direct = false → l.ctx.recv.curAddr = base
  -- a message is left in the input when all of it is processed
  ended : l.direct = true → l.ctx.recv.curOffset ≠ 0 → l.len ≤ 0

section Sizes
variable {msMaxSize base maxSize : Int} {handle : Callback σ} {l l' : Loop σ} {c c' : Ctx σ}
variable (h14 : 14 ≤ maxSize) (hle : maxSize ≤ msMaxSize) (h31 : msMaxSize < 2 ^ 31)
include h14 hle h31

theorem processChunk_fitting {n : Int} (hbuf : c.recv.buf = base) (hmax : c.recv.maxSize = maxSize)
    (hnonneg : 0 ≤ c.recv.curOffset)
    (hroom : c.recv.curOffset < 14 → c.recv.curOffset + c.recv.curSize ≤ maxSize)
    (hrest : 14 ≤ c.recv.curOffset →
      c.recv.curOffset + c.recv.curSize = c.announced ∧ n ≤ c.recv.curSize)
    (hn : 0 < n) : (processChunk msMaxSize c n).1.Fitting base maxSize := by
  refine ⟨by rw [processChunk_buf, hbuf], by rw [processChunk_maxSize, hmax], ?_, ?_⟩
  · have ho := processChunk_outcome (by omega) h31 c n
    generalize processChunk msMaxSize c n = r at ho ⊢
    cases ho with
    | short lt =>
      intro _
      dsimp only
      split <;> omega
    | oversize => exact fun _ => by dsimp only; omega
    | incomplete ge le lt =>
      intro h
      dsimp only at h
      omega
    | complete ge le reached =>
      intro _
      dsimp only
      split
      · next htail =>
        -- there is no tail behind a message whose header was there before
        rcases lt_or_ge c.recv.curOffset 14 with hp | hp
        · have := hroom hp
          omega
        · have := hrest hp
          omega
      · omega
  · have ho := processChunk_outcome (by omega) h31 c n
    generalize processChunk msMaxSize c n = r at ho ⊢
    cases ho with
    | short lt =>
      intro h
      dsimp only at h
      omega
    | oversize =>
      intro h
      dsimp only at h
      omega
    | incomplete ge le lt =>
      intro _
      have hlen := matchHeader_pendingLength c
      simp only [Ctx.pendingLength, matchHeader_recv] at hlen
      simp only [Ctx.pendingLength, hlen]
      rcases lt_or_ge c.recv.curOffset 14 with hp | hp
      · have := hroom hp
        split <;> omega
      · have := hrest hp
        split <;> omega
    | complete =>
      intro h
      dsimp only at h
      omega

theorem Loop.Fitting.chunk (h : l.Fitting msMaxSize base maxSize) (hlen : 0 < l.len) :
    (processChunk msMaxSize (l.prepared .buffer) l.chunkLen).1.Fitting base maxSize := by
  have hnonneg := h.sound.ctx.nonneg
  apply processChunk_fitting h14 hle h31 <;> try rw [Loop.prepared_recv]
  · exact h.ctx.buf_eq
  · exact h.ctx.maxSize_eq
  · exact hnonneg
  · exact h.ctx.room
  · intro hp
    have hd : l.direct = false := by
      by_contra hd
      have := h.ended (by simpa using hd) (by omega)
      omega
    refine ⟨?_, ?_⟩
    · rw [Loop.announced_of_le hp]
      exact h.ctx.rest hp
    · rw [Loop.chunkLen_accumulated hd]
      exact min_le_left _ _
  · exact h.sound.chunkLen_pos hlen

theorem Loop.Fitting.next (h : l.Fitting msMaxSize base maxSize)
    (ht : l.turn .buffer msMaxSize handle = .next l') : l'.Fitting msMaxSize base maxSize := by
  have hsound := h.sound.next (by omega) h31 ht
  rcases lt_or_ge 0 l.len with hlen | hlen
  · have hfit := h.chunk h14 hle h31 hlen
    have haddr := processChunk_curAddr msMaxSize (l.prepared .buffer) l.chunkLen
    have ho := processChunk_outcome (by omega) h31 (l.prepared .buffer) l.chunkLen
    generalize hp : processChunk msMaxSize (l.prepared .buffer) l.chunkLen = r at hfit haddr ho
    obtain ⟨c, n⟩ := r
    rw [Loop.prepared_recv] at haddr
    by_cases hz : c.recv.curOffset = 0
    · rw [Loop.turn_deliver handle hlen hp hz] at ht
      split at ht
      · cases ht
        refine ⟨hsound, ⟨hfit.buf_eq, hfit.maxSize_eq, hfit.room, fun hge => ?_⟩, nofun,
          fun _ hne => absurd hz hne⟩
        have hge' : 14 ≤ c.recv.curOffset := hge
        omega
      · cases ht
    · rw [Loop.turn_keep handle hlen hp hz] at ht
      cases ht
      refine ⟨hsound, hfit, fun hd => haddr.trans (h.addr hd), fun hd _ => ?_⟩
      -- what is kept is the whole chunk
      have hall : n = l.chunkLen := by
        cases ho with
        | short => rfl
        | oversize => exact absurd rfl hz
        | incomplete => rfl
        | complete => exact absurd rfl hz
      have hwhole := Loop.chunkLen_direct (l := l) hd
      dsimp only
      omega
  · rw [Loop.turn_exit hlen] at ht
    cases ht

omit h14 hle h31 in
theorem Loop.Fitting.finish (h : l.Fitting msMaxSize base maxSize) :
    (l.finish .buffer).Kept msMaxSize base maxSize := by
  have hsound := h.sound.finish (S := .buffer)
  by_cases hz : l.ctx.recv.curOffset = 0
  · have hfin : l.finish .buffer = l.ctx := if_pos hz
    rw [hfin] at hsound ⊢
    exact ⟨hsound, h.ctx, fun hne => absurd hz hne⟩
  · cases hd : l.direct with
    | false =>
      have hfin : l.finish .buffer = l.ctx := by
        unfold Loop.finish
        rw [if_neg hz, hd, if_neg Bool.false_ne_true]
      rw [hfin] at hsound ⊢
      exact ⟨hsound, h.ctx, fun _ => h.addr hd⟩
    | true =>
      have hfin : l.finish .buffer = AccumulationStrategy.buffer.startAccumulation l.ctx
          l.ctx.recv.curAddr l.ctx.recv.curOffset := by
        unfold Loop.finish
        rw [if_neg hz, if_pos hd, h.sound.direct hd]
      rw [hfin] at hsound ⊢
      refine ⟨hsound, ⟨h.ctx.buf_eq, h.ctx.maxSize_eq, h.ctx.room, fun hp => ?_⟩,
        fun _ => h.ctx.buf_eq⟩
      rw [startAccumulation_pendingLength (c := l.ctx) hp]
      exact h.ctx.rest hp

omit h14 hle h31 in
theorem Loop.Fitting.done {ok : Bool} (h : l.Fitting msMaxSize base maxSize)
    (hchunk : 0 < l.len →
      (processChunk msMaxSize (l.prepared .buffer) l.chunkLen).1.Fitting base maxSize)
    (ht : l.turn .buffer msMaxSize handle = .done (ok, c)) : c.Kept msMaxSize base maxSize := by
  have hsound := h.sound.done ht
  rcases lt_or_ge 0 l.len with hlen | hlen
  · have hfit := hchunk hlen
    generalize hp : processChunk msMaxSize (l.prepared .buffer) l.chunkLen = r at hfit
    obtain ⟨c', n⟩ := r
    by_cases hz : c'.recv.curOffset = 0
    · rw [Loop.turn_deliver handle hlen hp hz] at ht
      split at ht
      · cases ht
      · cases ht
        refine ⟨hsound, ⟨hfit.buf_eq, hfit.maxSize_eq, hfit.room, fun hge => ?_⟩,
          fun hne => absurd hz hne⟩
        have hge' : 14 ≤ c'.recv.curOffset := hge
        omega
    · rw [Loop.turn_keep handle hlen hp hz] at ht
      cases ht
  · rw [Loop.turn_exit hlen] at ht
    cases ht
    exact h.finish

omit h14 hle h31 in
theorem Ctx.Kept.enter (h : c.Kept msMaxSize base maxSize) (buf len : Int) :
    (enter c buf len).Fitting msMaxSize base maxSize := by
  have hsound := h.sound.enter buf len
  by_cases hz : c.recv.curOffset = 0
  · rw [enter_of_zero hz] at hsound ⊢
    refine ⟨hsound, ⟨h.fitting.buf_eq, h.fitting.maxSize_eq, h.fitting.room, fun hge => ?_⟩, nofun,
      fun _ hne => absurd hz hne⟩
    have hge' : 14 ≤ c.recv.curOffset := hge
    omega
  · rw [enter_of_ne hz] at hsound ⊢
    exact ⟨hsound, h.fitting, fun _ => h.addr hz, nofun⟩

theorem Reachable.kept (h : Reachable .buffer msMaxSize handle base maxSize c) :
    c.Kept msMaxSize base maxSize := by
  induction h with
  | fresh h =>
    refine ⟨.of_zero (by rw [h]; rfl), ⟨by rw [h]; rfl, by rw [h]; rfl, ?_, ?_⟩, ?_⟩ <;> rw [h] <;>
      dsimp only [freshRecv] <;> omega
  | @env c _ _ hm ih =>
    refine ⟨ih.sound.env hm, ⟨ih.fitting.buf_eq, ih.fitting.maxSize_eq, ih.fitting.room, ?_⟩,
      ih.addr⟩
    intro hp
    rw [Ctx.pendingLength_env (c := c) hp hm]
    exact ih.fitting.rest hp
  | call _ hc ih =>
    exact hc.post (Loop.Fitting msMaxSize base maxSize) (fun q => q.2.Kept msMaxSize base maxSize)
      (ih.enter _ _) fun a _ ha =>
        ⟨fun b hb => ha.next h14 hle h31 hb, fun q hq => ha.done (ha.chunk h14 hle h31) hq⟩

omit h31 in
theorem Loop.Fitting.copy_inside {cap : Int} (h : l.Fitting msMaxSize base maxSize)
    (hcap : msMaxSize ≤ cap) {k : Copy} (hk : l.copy = some k) : k.Inside base cap := by
  have hnonneg := h.sound.ctx.nonneg
  have hroom := h.ctx.room
  have hrest := h.ctx.rest
  have hheader := h.sound.ctx.header
  unfold Loop.copy at hk
  split at hk
  · next hlen =>
    split at hk
    · cases hk
    · next hd =>
      cases hk
      have hd' : l.direct = false := by simpa using hd
      have hpos := h.sound.chunkLen_pos hlen
      have hmin := Loop.chunkLen_accumulated hd'
      have haddr := h.addr hd'
      refine ⟨hpos.le, ?_, ?_⟩
      · dsimp only
        omega
      · dsimp only
        rcases lt_or_ge l.ctx.recv.curOffset 14 with hp | hp
        · have := hroom hp
          omega
        · have := hrest hp
          have := hheader hp
          omega
  · split at hk
    · cases hk
    · split at hk
      · cases hk
        have hbuf := h.ctx.buf_eq
        refine ⟨hnonneg, hbuf.ge, ?_⟩
        dsimp only
        rcases lt_or_ge l.ctx.recv.curOffset 14 with hp | hp
        · omega
        · have := hheader hp
          omega
      · cases hk

end Sizes

/-! ## A message that does not fit -/

section Overrun
variable {msMaxSize maxSize : Int} {c : Ctx σ} {hd : MsgHeader} {a : Int}

/-- A packet that ends behind the header of a message: it is copied, and the rest is waited for. -/
theorem header_pending (handle : Callback σ) (base : Int) (h14 : 14 ≤ maxSize)
    (hle : maxSize ≤ msMaxSize) (h31 : msMaxSize < 2 ^ 31)
    (hrecv : c.recv = freshRecv base maxSize) (hload : load c.mem a 14 = hd.hton.bytes)
    (hmore : 14 < hd.length.toNat) (hfits : (hd.length.toNat : Int) ≤ msMaxSize) :
    ∃ c', ProcessBuffer .buffer msMaxSize handle c a 14 true c' ∧
      c'.recv = ⟨base, maxSize, base, 14, hd.length.toNat - 14⟩ ∧
      c'.pendingLength = hd.length.toNat := by
  obtain ⟨mem, recv, msg, state, asserts⟩ := c
  dsimp only at hrecv hload
  subst hrecv
  obtain ⟨c₀, hc₀⟩ : ∃ c₀ : Ctx σ,
      c₀ = ⟨mem, ⟨base, maxSize, a, 0, maxSize⟩, msg, state, asserts⟩ := ⟨_, rfl⟩
  have hrecv₀ : c₀.recv = ⟨base, maxSize, a, 0, maxSize⟩ := by rw [hc₀]
  have hoff : c₀.recv.curOffset = 0 := by rw [hrecv₀]
  have hannounced : c₀.announced = hd.length.toNat := by
    apply announced_of_load (by omega)
    rw [hc₀]
    exact hload
  have hchunk := processChunk_incomplete (c := c₀) (n := 14) (by omega) h31 (by omega)
    (by omega) (by omega)
  rw [hannounced, hoff, hrecv₀, if_pos (by dsimp only; omega)] at hchunk
  dsimp only at hchunk
  obtain ⟨c₁, hc₁⟩ : ∃ c₁ : Ctx σ, c₁ = { c₀.matchHeader with
      recv := ⟨base, maxSize, a, 0 + 14, hd.length.toNat - (0 + 14)⟩ } := ⟨_, rfl⟩
  rw [← hc₁] at hchunk
  have hpending : c₁.pendingLength = hd.length.toNat := by
    rw [← hannounced, ← matchHeader_pendingLength, hc₁]
    simp only [Ctx.pendingLength, matchHeader_recv, hrecv₀]
  have hturn : (enter ⟨mem, freshRecv base maxSize, msg, state, asserts⟩ a 14).turn .buffer
      msMaxSize handle = .next ⟨c₁, true, 0 + 14, a, 14 - 14⟩ := by
    have henter : enter ⟨mem, freshRecv base maxSize, msg, state, asserts⟩ a 14 =
        ⟨c₀, true, 0, a, 14⟩ := by
      rw [enter_of_zero rfl, hc₀]
      rfl
    rw [henter]
    have hpos : (0 : Int) < 14 := by decide
    have hkept : c₁.recv.curOffset ≠ 0 := by
      rw [hc₁]
      exact hpos.ne'
    exact Loop.turn_keep handle hpos hchunk hkept
  have hfinish : (⟨c₁, true, 0 + 14, a, 14 - 14⟩ : Loop σ).finish .buffer =
      AccumulationStrategy.buffer.startAccumulation c₁ c₁.recv.curAddr c₁.recv.curOffset := by
    rw [Loop.finish, hc₁]
    rfl
  refine ⟨_, Returns.of_next hturn (Returns.of_done (Loop.turn_exit (Int.sub_self 14).le)), ?_, ?_⟩
  · rw [hfinish, hc₁]
    rfl
  · rw [hfinish, startAccumulation_pendingLength (by rw [hc₁]; exact le_refl 14), hpending]

theorem rest_copy {base : Int} {n : Nat} (hn : 14 < n)
    (hrecv : c.recv = ⟨base, maxSize, base, 14, n - 14⟩) (buf : Int) :
    (enter c buf (n - 14)).copy = some ⟨base + 14, buf + 0, n - 14⟩ := by
  have hoff : c.recv.curOffset ≠ 0 := by
    rw [hrecv]
    exact (by decide : (14 : Int) ≠ 0)
  have hchunk : (⟨c, false, 0, buf, n - 14⟩ : Loop σ).chunkLen = n - 14 := by
    rw [Loop.chunkLen_accumulated rfl, hrecv]
    exact min_self _
  rw [enter_of_ne hoff, Loop.copy, if_pos (by dsimp only; omega), hchunk, hrecv]
  rfl

end Overrun

/-! ## The options -/

/-- `-m` of a server: the new `MAX_PAYLOAD_SIZE`. Nobody looks at `errno`. -/
def parseServerMsgSize (n : Int) : Except MsgSizeError Int :=
  -- `isNumeric`: digits only
  if n < 0 then .error (.aboveMax maxTcpSize)
  else
    let value := (min n (2 ^ 63 - 1)).bmod (2 ^ 32)
    if value > maxTcpSize then .error (.aboveMax maxTcpSize)
    else .ok (max defaultMaxPayloadSize value)

/-- What the options of a mode leave in `MAX_PAYLOAD_SIZE` and `msg_size`. -/
inductive MsgSizeParams.Accepted : MsgSizeParams → Prop
  | client {tcp : Bool} {n size : Int} (range : Int) (h : parseMsgSize tcp n = .ok size) :
      Accepted (.given size range)
  | clientDefault (range : Int) : Accepted ⟨defaultMaxPayloadSize, minPayloadSize, range⟩
  | server {n size : Int} (h : parseServerMsgSize n = .ok size) :
      Accepted ⟨size, defaultMaxPayloadSize, 0⟩
  | serverDefault : Accepted ⟨defaultMaxPayloadSize, defaultMaxPayloadSize, 0⟩

theorem MsgSizeParams.Accepted.bounds {p : MsgSizeParams} (h : p.Accepted) :
    14 ≤ p.maxPayloadSize ∧ p.msgSize ≤ p.maxPayloadSize ∧ p.maxPayloadSize < 2 ^ 21 := by
  have hdefault : defaultMaxPayloadSize = 65507 := rfl
  have hmin : minPayloadSize = 14 := rfl
  cases h with
  | @client tcp _ size _ h =>
    obtain ⟨hlow, hhigh⟩ := parseMsgSize_ok h
    have hbound := protocolMax_lt tcp
    exact ⟨hlow, le_rfl, by dsimp only [MsgSizeParams.given]; omega⟩
  | clientDefault => dsimp only; omega
  | serverDefault => dsimp only; omega
  | @server n size h =>
    have htcp : maxTcpSize = 2 ^ 20 - 1 := rfl
    unfold parseServerMsgSize at h
    split at h
    · cases h
    · dsimp only at h
      split at h
      · cases h
      · cases h
        dsimp only
        omega

/-- `recv.buf` has `2 * MAX_PAYLOAD_SIZE` bytes. Whatever the headers say, every copy of
`BufferAccumulation` stays inside if a packet descriptor is not larger than that; if it is larger, a
message of its size is copied over the end of the buffer by its second packet. -/
theorem copies_inside (p : MsgSizeParams) (hp : p.Accepted) (vmaPktsDescSize : Int)
    (hint : vmaPktsDescSize < 2 ^ 31) (handle : Callback σ) (base : Int) :
    (vmaPktsDescSize ≤ 2 * p.maxPayloadSize →
      ∀ c, Reachable .buffer (p.maxSize vmaPktsDescSize) handle base p.maxPayloadSize c →
      ∀ buf len l, Visits (Loop.turn .buffer (p.maxSize vmaPktsDescSize) handle)
        (enter c buf len) l → ∀ k, l.copy = some k → k.Inside base (2 * p.maxPayloadSize)) ∧
    (2 * p.maxPayloadSize < vmaPktsDescSize →
      ∀ (c : Ctx σ) (hd : MsgHeader) (a buf : Int), c.recv = freshRecv base p.maxPayloadSize →
      load c.mem a 14 = hd.hton.bytes → (hd.length.toNat : Int) = vmaPktsDescSize →
      ∃ c', ProcessBuffer .buffer (p.maxSize vmaPktsDescSize) handle c a 14 true c' ∧
        ∃ k, (enter c' buf (vmaPktsDescSize - 14)).copy = some k ∧
          ¬ k.Inside base (2 * p.maxPayloadSize)) := by
  obtain ⟨h14, hsize, hbound⟩ := hp.bounds
  have hmax : p.maxPayloadSize ≤ p.maxSize vmaPktsDescSize := le_max_right _ _
  have h31 : p.maxSize vmaPktsDescSize < 2 ^ 31 := by
    unfold MsgSizeParams.maxSize
    omega
  constructor
  · intro hdesc c hc buf len l hv k hk
    have hcap : p.maxSize vmaPktsDescSize ≤ 2 * p.maxPayloadSize := by
      unfold MsgSizeParams.maxSize
      omega
    have hfit : l.Fitting (p.maxSize vmaPktsDescSize) base p.maxPayloadSize :=
      hv.invariant (Loop.Fitting _ _ _) ((hc.kept h14 hmax h31).enter buf len)
        fun _ _ _ ha hb => ha.next h14 hmax h31 hb
    exact hfit.copy_inside h14 hmax hcap hk
  · intro hdesc c hd a buf hrecv hload hlen
    have hfits : (hd.length.toNat : Int) ≤ p.maxSize vmaPktsDescSize := by
      unfold MsgSizeParams.maxSize
      omega
    obtain ⟨c', hc', hrecv', -⟩ :=
      header_pending handle base h14 hmax h31 hrecv hload (by omega) hfits
    have hcopy := rest_copy (by omega) hrecv' buf
    rw [hlen] at hcopy
    refine ⟨c', hc', _, hcopy, ?_⟩
    rintro ⟨-, -, hhigh⟩
    dsimp only at hhigh
    omega

/-- A client with the default sizes and a socket whose next packet lies at 200000. -/
def defaultCtx : Ctx Unit := ⟨fun _ => 0, freshRecv 0 65507, ⟨0⟩, (), true⟩

/-- A packet of ten bytes is copied to the start of the buffer. -/
theorem copies_inside_default :
    let handle : Callback Unit := fun m _ s => (true, m, s)
    (280 : Int) ≤ 2 * 65507 ∧ ∃ l, Visits (Loop.turn .buffer 65507 handle)
      (enter defaultCtx 200000 10) l ∧ l.copy = some ⟨0, 200000, 10⟩ ∧
      (⟨0, 200000, 10⟩ : Copy).Inside 0 (2 * 65507) := by
  intro handle
  obtain ⟨c, hchunk, hbuf, hoff⟩ : ∃ c, processChunk 65507 (enter defaultCtx 200000 10).ctx 10 =
      (c, 10) ∧ c.recv.buf = 0 ∧ c.recv.curOffset = 10 :=
    ⟨_, processChunk_short (by decide), rfl, rfl⟩
  have hturn : (enter defaultCtx 200000 10).turn .buffer 65507 handle =
      .next ⟨c, true, 0 + 10, 200000, 10 - 10⟩ :=
    Loop.turn_keep handle (by decide) hchunk (by rw [hoff]; decide)
  have hv := (Visits.refl (Loop.turn .buffer 65507 handle) _).tail hturn
  have hcopy : (⟨c, true, 0 + 10, 200000, 10 - 10⟩ : Loop Unit).copy = some ⟨0, 200000, 10⟩ := by
    simp [Loop.copy, hbuf, hoff]
  refine ⟨by decide, _, hv, hcopy, ?_⟩
  exact (copies_inside _ (.clientDefault 0) 280 (by decide) handle 0).1 (by decide) defaultCtx
    (.fresh rfl) 200000 10 _ hv _ hcopy

/-- `-m 14` and a descriptor of 256 bytes: a message of 200 bytes in two packets is copied to a
buffer of 28 bytes. -/
theorem small_buffer_overrun :
    let handle : Callback Unit := fun m _ s => (true, m, s)
    let mem := (Message.mk 1000).setHeader (fun _ => 0) (MsgHeader.hton ⟨1, 1, 200⟩)
    let c : Ctx Unit := ⟨mem, freshRecv 0 14, ⟨0⟩, (), true⟩
    parseMsgSize false 14 = .ok 14 ∧ (MsgSizeParams.given 14 0).maxSize 256 = 256 ∧
      ∃ c', ProcessBuffer .buffer 256 handle c 1000 14 true c' ∧
        (enter c' 1014 186).copy = some ⟨14, 1014, 186⟩ ∧
        ¬ (⟨14, 1014, 186⟩ : Copy).Inside 0 28 := by
  intro handle mem c
  have hload : load c.mem 1000 14 = (MsgHeader.mk 1 1 200).hton.bytes :=
    load_store_same' (by simp [effectiveSize])
  obtain ⟨c', hc', hrecv', -⟩ : ∃ c', ProcessBuffer .buffer 256 handle c 1000 14 true c' ∧
      c'.recv = ⟨0, 14, 0, 14, (200 : Nat) - 14⟩ ∧ c'.pendingLength = (200 : Nat) :=
    header_pending handle 0 (by decide) (by decide) (by decide) rfl hload (by decide) (by decide)
  refine ⟨by decide, by decide, c', hc', rest_copy (n := 200) (by decide) hrecv' 1014, ?_⟩
  rintro ⟨-, -, hhigh⟩
  exact absurd hhigh (by decide)

end Sockperf
