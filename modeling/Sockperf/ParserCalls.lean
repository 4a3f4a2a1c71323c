import Mathlib.Data.List.Forall2
import Sockperf.Framing
import Sockperf.InputHandlers

/-!
# One call of the parser

`process_buffer` is given the next bytes of a stream: in a buffer of somebody else with
`BufferAccumulation`, or behind the pending bytes in the receive buffer with `InPlaceAccumulation`.
The invariant of its loop is the same for both: what waits in the receive buffer, and what stands in
the input that is not processed yet. How much room the next read is left is a law of the buffer.
-/

namespace Sockperf

open Memory While
set_option autoImplicit false

universe u
variable {σ : Type u}

/-- A receive buffer of `cap` bytes at `base` and the limit on messages. `Room addr size w p` is
what is asked for while `p` bytes of `w` wait at `addr`, `Start S addr size` while a message begins
in the input at `addr`. -/
structure Layout where
  base : Int
  cap : Int
  maxSize : Int
  msMaxSize : Int
  Serves : AccumulationStrategy → Prop
  Room : Int → Int → WireMessage → Nat → Prop
  Start : AccumulationStrategy → Int → Int → Prop
  nonneg : 0 ≤ msMaxSize
  lt_int : msMaxSize < 2 ^ 31
  start_fresh : ∀ addr, Start .buffer addr maxSize
  room_pos : ∀ {addr size : Int} {w : WireMessage} {p : Nat}, Room addr size w p → p < w.size →
    0 < size
  room_inside : ∀ {addr size : Int} {w : WireMessage} {p : Nat}, Room addr size w p →
    (w.size : Int) ≤ msMaxSize → p < w.size → base ≤ addr ∧ addr + p + size ≤ base + cap
  room_keep : ∀ {addr size : Int} {w : WireMessage} {p k : Nat}, Room addr size w p →
    (w.size : Int) ≤ msMaxSize → 0 < k → k ≤ size → p + k < w.size →
    Room addr (keptSize msMaxSize size w p k) w (p + k)
  room_next : ∀ {S : AccumulationStrategy} {addr size x : Int} {w : WireMessage} {p k : Nat},
    Serves S → Room addr size w p → k ≤ size → w.size < p + k →
    (S = .inPlace → x = addr + w.size) → Start S x (size - (w.size - p))
  start_copied : ∀ {addr size : Int} {w : WireMessage} {k : Nat}, Start .buffer addr size →
    (w.size : Int) ≤ msMaxSize → 0 < k → k < w.size →
    Room base (keptSize msMaxSize size w 0 k) w k
  start_kept : ∀ {addr size : Int} {w : WireMessage} {k : Nat}, Start .inPlace addr size →
    (w.size : Int) ≤ msMaxSize → 0 < k → k < w.size → k ≤ size →
    Room addr (keptSize msMaxSize size w 0 k) w k
  start_next : ∀ {S : AccumulationStrategy} {addr size : Int} {w : WireMessage} {k : Nat},
    Start S addr size → w.size < k → (S = .inPlace → k ≤ size) →
    Start S (addr + w.size) (size - w.size)

namespace Layout

section States
variable (g : Layout)

def Apart (a n : Int) : Prop := a + n ≤ g.base ∨ g.base + g.cap ≤ a

def Outside (a n x : Int) : Prop :=
  (x < g.base ∨ g.base + g.cap ≤ x) ∧ (x < a ∨ a + n ≤ x)

/-- The part of the receive data that no parser step changes. -/
structure Home (c : Ctx σ) : Prop where
  buf : c.recv.buf = g.base
  maxSize : c.recv.maxSize = g.maxSize

/-- The first `p` bytes of `w` wait in the receive buffer. -/
structure Held (c : Ctx σ) (w : WireMessage) (p : Nat) : Prop where
  pos : 0 < p
  offset : c.recv.curOffset = p
  lt_size : p < w.size
  size_le : (w.size : Int) ≤ g.msMaxSize
  room : g.Room c.recv.curAddr c.recv.curSize w p
  data : load c.mem c.recv.curAddr p = (w.stored p).take p

/-- Between two calls, with the messages still to come and the pending length: nothing is pending
and `cur_addr` is `e`, or a message is held. -/
inductive Rest (c : Ctx σ) (e : Int) : List WireMessage → Nat → Prop
  | idle (r : List WireMessage) (offset : c.recv.curOffset = 0)
      (size : c.recv.curSize = g.maxSize) (addr : c.recv.curAddr = e) : Rest c e r 0
  | held {w : WireMessage} {rest : List WireMessage} {p : Nat} (held : g.Held c w p) :
      Rest c e (w :: rest) p

/-- Where `len` bytes of input at `x` lie: in a buffer of somebody else, or behind the pending bytes
in the receive buffer. -/
def Source (recv : SocketRecvData) (p len : Nat) (x : Int) : AccumulationStrategy → Prop
  | .buffer => g.Apart x len
  | .inPlace => x = recv.curAddr + p ∧ len ≤ recv.curSize

/-- The head of the loop with `len` bytes of the input `[a, a + n)` not processed yet. -/
structure Front (S : AccumulationStrategy) (a n : Int) (l : Loop σ) (w : WireMessage)
    (rest : List WireMessage) (p len : Nat) : Prop where
  serves : g.Serves S
  pos : 0 < len
  len_eq : l.len = len
  low : a ≤ l.buf + l.offset
  high : l.buf + l.offset + len = a + n
  input : load l.ctx.mem (l.buf + l.offset) len =
    ((w.encode ++ encodeAll rest).drop p).take len
  offset : l.ctx.recv.curOffset = p
  size_le : (w.size : Int) ≤ g.msMaxSize
  direct : l.direct = decide (p = 0)
  -- a message that starts here is read in the input
  at_input : p = 0 → l.offset = 0 ∧ l.ctx.recv.curAddr = l.buf
  start : p = 0 → g.Start S l.ctx.recv.curAddr l.ctx.recv.curSize
  held : 0 < p → g.Held l.ctx w p
  source : g.Source l.ctx.recv p len (l.buf + l.offset) S

inductive Stage (S : AccumulationStrategy) (a n : Int) (l : Loop σ) :
    List WireMessage → Nat → Nat → Prop
  | more {w : WireMessage} {rest : List WireMessage} {p len : Nat}
      (front : g.Front S a n l w rest p len) : Stage S a n l (w :: rest) p len
  | idle (r : List WireMessage) (len_eq : l.len = 0) (offset : l.ctx.recv.curOffset = 0)
      (size : l.ctx.recv.curSize = g.maxSize) (addr : l.ctx.recv.curAddr = a + n) :
      Stage S a n l r 0 0
  -- the input ended inside a message that still lies there
  | left {w : WireMessage} {rest : List WireMessage} {p : Nat} (library : S = .buffer)
      (len_eq : l.len = 0) (direct : l.direct = true) (pos : 0 < p)
      (offset : l.ctx.recv.curOffset = p) (lt_size : p < w.size)
      (size_le : (w.size : Int) ≤ g.msMaxSize) (room : g.Room g.base l.ctx.recv.curSize w p)
      (data : load l.ctx.mem l.buf p = (w.stored p).take p) : Stage S a n l (w :: rest) p 0
  | held {w : WireMessage} {rest : List WireMessage} {p : Nat} (len_eq : l.len = 0)
      (held : g.Held l.ctx w p)
      (direct : l.direct = true → S = .inPlace ∧ l.ctx.recv.curAddr = l.buf) :
      Stage S a n l (w :: rest) p 0

/-- Where `cur_addr` is left when nothing is pending. -/
def leftAt (a n : Int) : AccumulationStrategy → Int
  | .buffer => a + n
  | .inPlace => g.base

/-- What a call may be given: a buffer apart from the receive buffer, or a read behind the pending
bytes that fits. -/
structure Fed (S : AccumulationStrategy) (c : Ctx σ) (a n : Int) : Prop where
  serves : g.Serves S
  start : c.recv.curOffset = 0 → g.Start S a g.maxSize
  apart : S = .buffer → g.Apart a n
  behind : S = .inPlace → a = c.recv.curAddr + c.recv.curOffset ∧ n ≤ c.recv.curSize

variable (P : List MessageView → σ → Prop) (all : List WireMessage) (future : List UInt8)

/-- Between two calls, with `d` delivered, `r` to come and `p` bytes pending: the callback knows the
delivered messages, and the bytes that were not read yet are `future`. -/
structure RestAt (e : Int) (d r : List WireMessage) (p : Nat) (c : Ctx σ) : Prop where
  all_eq : all = d ++ r
  state : P (d.map WireMessage.view) c.state
  home : g.Home c
  rest : g.Rest c e r p
  future_eq : (encodeAll r).drop p = future

def Between (e : Int) (c : Ctx σ) : Prop := ∃ d r p, g.RestAt P all future e d r p c

/-- At the head of the loop, with `len` bytes of the input `[a, a + n)` unprocessed. -/
structure LoopAt (S : AccumulationStrategy) (a n : Int) (d r : List WireMessage) (p len : Nat)
    (l : Loop σ) : Prop where
  all_eq : all = d ++ r
  state : P (d.map WireMessage.view) l.ctx.state
  home : g.Home l.ctx
  stage : g.Stage S a n l r p len
  total : p + len ≤ (encodeAll r).length
  future_eq : (encodeAll r).drop (p + len) = future

/-- What a call may change besides what it reads. -/
structure Frame (a n : Int) (c c' : Ctx σ) : Prop where
  mem : ∀ x, g.Outside a n x → c'.mem x = c.mem x
  asserts : c'.asserts = c.asserts

end States

section Basic
variable {g : Layout} {c c' c'' : Ctx σ} {w : WireMessage} {p : Nat} {a n e : Int}

theorem Frame.refl (c : Ctx σ) : g.Frame a n c c := ⟨fun _ _ => rfl, rfl⟩

theorem Frame.trans (h : g.Frame a n c c') (h' : g.Frame a n c' c'') : g.Frame a n c c'' :=
  ⟨fun x hx => (h'.mem x hx).trans (h.mem x hx), h'.asserts.trans h.asserts⟩

theorem Held.window (h : g.Held c w p) : g.base ≤ c.recv.curAddr ∧ 0 < c.recv.curSize ∧
    c.recv.curAddr + p + c.recv.curSize ≤ g.base + g.cap := by
  obtain ⟨hlow, hhigh⟩ := g.room_inside h.room h.size_le h.lt_size
  exact ⟨hlow, g.room_pos h.room h.lt_size, hhigh⟩

theorem Held.congr (h : g.Held c w p) (hrecv : c'.recv = c.recv)
    (hm : load c'.mem c.recv.curAddr p = load c.mem c.recv.curAddr p) : g.Held c' w p := by
  obtain ⟨hpos, hoff, hlt, hw, hroom, hdata⟩ := h
  rw [← hm] at hdata
  rw [← hrecv] at hoff hroom hdata
  exact ⟨hpos, hoff, hlt, hw, hroom, hdata⟩

theorem Rest.partOf {r : List WireMessage} (h : g.Rest c e r p) : PartOf r p := by
  cases h with
  | idle => exact partOf_zero r
  | held held => exact held.lt_size

theorem Rest.offset {r : List WireMessage} (h : g.Rest c e r p) : c.recv.curOffset = p := by
  cases h with
  | idle _ hoff => exact hoff
  | held held => exact held.offset

theorem Stage.len_eq {S : AccumulationStrategy} {l : Loop σ} {r : List WireMessage} {len : Nat}
    (h : g.Stage S a n l r p len) : l.len = len := by
  cases h with
  | more f => exact f.len_eq
  | idle _ h0 => exact h0
  | left _ h0 => exact h0
  | held h0 => exact h0

end Basic

/-! ## One turn -/

section Turn
variable {g : Layout} {S : AccumulationStrategy} {a n : Int} {l : Loop σ} {w : WireMessage}
  {rest : List WireMessage} {p len : Nat}

theorem Front.lt_size (f : g.Front S a n l w rest p len) : p < w.size := by
  have := w.size_eq
  rcases Nat.eq_zero_or_pos p with rfl | hp
  · omega
  · exact (f.held hp).lt_size

theorem Front.rest_outside (f : g.Front S a n l w rest p len) {k : Nat} {x : Int}
    (hks : 0 < p → k ≤ l.ctx.recv.curSize) (h1 : l.buf + l.offset + k ≤ x)
    (h2 : x < l.buf + l.offset + len) :
    x < l.ctx.recv.curAddr ∨ l.ctx.recv.curAddr + (p + k : Nat) ≤ x := by
  rcases Nat.eq_zero_or_pos p with rfl | hp
  · obtain ⟨hoff, haddr⟩ := f.at_input rfl
    omega
  · have hwindow := (f.held hp).window
    have hk := hks hp
    have hsource := f.source
    cases S with
    | buffer =>
      rcases hsource with ha | ha <;> omega
    | inPlace =>
      have := hsource.1
      omega

theorem Front.outside (f : g.Front S a n l w rest p len) {k : Nat} {x : Int} (hk : k ≤ len)
    (hks : 0 < p → k ≤ l.ctx.recv.curSize) (hx : g.Outside a n x) :
    x < l.ctx.recv.curAddr ∨ l.ctx.recv.curAddr + (p + k : Nat) ≤ x := by
  have hlow := f.low
  have hhigh := f.high
  obtain ⟨hbuf, hin⟩ := hx
  rcases Nat.eq_zero_or_pos p with rfl | hp
  · obtain ⟨hoff, haddr⟩ := f.at_input rfl
    omega
  · have hwindow := (f.held hp).window
    have := hks hp
    omega

theorem Front.accumulated (f : g.Front S a n l w rest p len) (hp : 0 < p) {k : Nat}
    (hk : l.chunkLen = k) (hks : k ≤ l.ctx.recv.curSize) :
    load (l.prepared S).mem (l.ctx.recv.curAddr + p) k = load l.ctx.mem (l.buf + l.offset) k ∧
      (∀ x, (x < l.ctx.recv.curAddr + p ∨ l.ctx.recv.curAddr + p + k ≤ x) →
        (l.prepared S).mem x = l.ctx.mem x) ∧
      (∀ x, l.buf + l.offset ≤ x → x < l.buf + l.offset + len →
        (l.prepared S).mem x = l.ctx.mem x) ∧ (l.prepared S).asserts = l.ctx.asserts := by
  have hd : l.direct = false := by simpa [hp.ne'] using f.direct
  have held := f.held hp
  have hwindow := held.window
  have hsource := f.source
  cases S with
  | buffer =>
    have hprep : l.prepared .buffer = { l.ctx with
        mem := store l.ctx.mem (l.ctx.recv.curAddr + p) (load l.ctx.mem (l.buf + l.offset) k) } := by
      simp [Loop.prepared, hd, AccumulationStrategy.accumulateMore, memmove, hk, held.offset]
    rw [hprep]
    refine ⟨load_store_same' (by simp), fun x hx => store_outside (by simpa using hx), ?_, rfl⟩
    intro x h1 h2
    apply store_outside
    rw [load_length]
    rcases hsource with ha | ha <;> omega
  | inPlace =>
    have haligned := hsource.1
    have hprep : l.prepared .inPlace = l.ctx := by
      apply Loop.prepared_inPlace
      rw [held.offset, haligned]
    rw [hprep, haligned]
    exact ⟨rfl, fun _ _ => rfl, fun _ _ _ => rfl, rfl⟩

/-- What `process_chunk` finds at `cur_addr`. -/
structure Chunk (g : Layout) (S : AccumulationStrategy) (a n : Int) (l : Loop σ) (w : WireMessage)
    (rest : List WireMessage) (p len k : Nat) : Prop where
  len_eq : l.chunkLen = k
  pos : 0 < k
  le : k ≤ len
  start : p = 0 → k = len
  size : 0 < p → k ≤ l.ctx.recv.curSize
  plain : S = .inPlace → k = len
  data : load (l.prepared S).mem l.ctx.recv.curAddr (p + k) =
    (w.stored p ++ encodeAll rest).take (p + k)
  input : ∀ x, l.buf + l.offset ≤ x → x < l.buf + l.offset + len →
    (l.prepared S).mem x = l.ctx.mem x
  frame : g.Frame a n l.ctx (l.prepared S)

theorem Front.chunk_start (f : g.Front S a n l w rest 0 len) : g.Chunk S a n l w rest 0 len len := by
  have hd : l.direct = true := by simpa using f.direct
  have hlen := f.len_eq
  obtain ⟨hoff, haddr⟩ := f.at_input rfl
  have hin := f.input
  rw [hoff, add_zero, ← haddr] at hin
  have hprep : l.prepared S = l.ctx := Loop.prepared_direct hd
  refine ⟨by rw [Loop.chunkLen_direct hd, hlen], f.pos, le_rfl, fun _ => rfl,
    fun h => absurd h (lt_irrefl 0), fun _ => rfl, ?_, fun x _ _ => by rw [hprep],
    hprep ▸ Frame.refl _⟩
  rw [hprep, Nat.zero_add, hin, w.stored_zero, List.drop_zero]

theorem Front.chunk_held (f : g.Front S a n l w rest p len) (hp : 0 < p) :
    ∃ k, g.Chunk S a n l w rest p len k := by
  have hlen := f.len_eq
  have hpos := f.pos
  have hd : l.direct = false := by simpa [hp.ne'] using f.direct
  have held := f.held hp
  have hroom := held.window.2.1
  have hmin := Loop.chunkLen_accumulated hd
  obtain ⟨k, hk⟩ : ∃ k : Nat, l.chunkLen = k := Int.eq_ofNat_of_zero_le (by omega)
  have hkle : k ≤ len := by omega
  have hks : (k : Int) ≤ l.ctx.recv.curSize := by omega
  obtain ⟨hnew, hpending, hinput, hasserts⟩ := f.accumulated hp hk hks
  have hchunk : load l.ctx.mem (l.buf + l.offset) k =
      ((w.encode ++ encodeAll rest).drop p).take k := by
    rw [← load_take hkle, f.input, List.take_take, Nat.min_eq_left hkle]
  refine ⟨k, hk, by omega, hkle, fun h => absurd h hp.ne', fun _ => hks, ?_, ?_, hinput,
    fun x hx => ?_, hasserts⟩
  · rintro rfl
    have := f.source.2
    omega
  · have hsplit := List.take_append_drop k ((w.encode ++ encodeAll rest).drop p)
    rw [← hchunk] at hsplit
    have hstored := WireMessage.stored_take_add held.lt_size.le hsplit.symm
    rw [load_length] at hstored
    have hold : load (l.prepared S).mem l.ctx.recv.curAddr p = (w.stored p).take p := by
      rw [← held.data]
      apply load_congr
      intro x _ h2
      exact hpending x (Or.inl h2)
    rw [hstored, load_add, hold, hnew]
  · have := f.outside hkle (fun _ => hks) hx
    apply hpending
    omega

theorem Front.chunk (f : g.Front S a n l w rest p len) : ∃ k, g.Chunk S a n l w rest p len k := by
  rcases Nat.eq_zero_or_pos p with rfl | hp
  · exact ⟨len, f.chunk_start⟩
  · exact f.chunk_held hp

theorem Front.kept_start (f : g.Front S a n l w rest 0 len) {c' : Ctx σ} (hlt : len < w.size)
    (kept : Kept g.msMaxSize w 0 len (l.prepared S) c') :
    g.Stage S a n { l with ctx := c', offset := l.offset + len, len := l.len - len } (w :: rest)
      len 0 := by
  have hpos := f.pos
  have hw := f.size_le
  have hstart := f.start rfl
  have hrecv := kept.recv
  have hstored := kept.stored
  rw [Loop.prepared_recv, Nat.zero_add] at hrecv hstored
  obtain ⟨hoff, haddr⟩ := f.at_input rfl
  have hd : l.direct = true := by simpa using f.direct
  have hzero : l.len - len = 0 := by
    have := f.len_eq
    omega
  have hsource := f.source
  cases S with
  | buffer =>
    refine .left rfl hzero hd hpos (by rw [hrecv]) hlt hw ?_ (haddr ▸ hstored)
    rw [hrecv]
    exact g.start_copied hstart hw hpos hlt
  | inPlace =>
    refine .held hzero ⟨hpos, by rw [hrecv], hlt, hw, ?_, ?_⟩ fun _ => ⟨rfl, ?_⟩
    · rw [hrecv]
      exact g.start_kept hstart hw hpos hlt hsource.2
    · rw [hrecv]
      exact hstored
    · rw [hrecv]
      exact haddr

theorem Front.kept_held (f : g.Front S a n l w rest p len) (hp : 0 < p) {c' : Ctx σ} {k : Nat}
    (hk : 0 < k) (hks : k ≤ l.ctx.recv.curSize) (hlt : p + k < w.size)
    (kept : Kept g.msMaxSize w p k (l.prepared S) c') : g.Held c' w (p + k) := by
  have held := f.held hp
  have hrecv := kept.recv
  have hstored := kept.stored
  rw [Loop.prepared_recv] at hrecv hstored
  refine ⟨by omega, by rw [hrecv], hlt, f.size_le, ?_, ?_⟩
  · rw [hrecv]
    exact g.room_keep held.room f.size_le hk hks hlt
  · rw [hrecv]
    exact hstored

theorem Front.kept_stage (f : g.Front S a n l w rest p len) {c' : Ctx σ} {k : Nat}
    (chunk : g.Chunk S a n l w rest p len k) (hlt : p + k < w.size)
    (kept : Kept g.msMaxSize w p k (l.prepared S) c')
    (hmem : ∀ x, l.buf + l.offset + k ≤ x → x < l.buf + l.offset + len →
      c'.mem x = l.ctx.mem x) :
    g.Stage S a n { l with ctx := c', offset := l.offset + k, len := l.len - k } (w :: rest)
      (p + k) (len - k) := by
  have hlen := f.len_eq
  have hlow := f.low
  have hhigh := f.high
  have hkle := chunk.le
  rcases Nat.eq_zero_or_pos p with rfl | hp
  · obtain rfl := chunk.start rfl
    rw [Nat.sub_self]
    rw [Nat.zero_add] at hlt ⊢
    exact f.kept_start hlt kept
  · have hd : l.direct = false := by simpa [hp.ne'] using f.direct
    have held' := f.kept_held hp chunk.pos (chunk.size hp) hlt kept
    rcases Nat.eq_zero_or_pos (len - k) with hz | hz
    · rw [hz]
      refine .held ?_ held' fun h => ?_
      · dsimp only
        omega
      · cases hd.symm.trans h
    · cases S with
      | inPlace =>
        have := chunk.plain rfl
        omega
      | buffer =>
        refine .more ⟨f.serves, hz, ?_, ?_, ?_, ?_, held'.offset, f.size_le, ?_, by omega, by omega,
          fun _ => held', ?_⟩
        · dsimp only
          omega
        · dsimp only
          omega
        · dsimp only
          omega
        · have hin := load_behind f.input hkle hmem
          rw [List.drop_drop] at hin
          rw [← add_assoc]
          exact hin
        · rw [hd]
          exact (decide_eq_false (by omega)).symm
        · show g.Apart _ _
          dsimp only
          rcases (f.source : g.Apart _ _) with ha | ha
          · left
            omega
          · right
            omega

theorem Front.keep (handle : Callback σ) (home : g.Home l.ctx) (f : g.Front S a n l w rest p len)
    {k : Nat} (chunk : g.Chunk S a n l w rest p len k) (hlt : p + k < w.size) :
    ∃ l', l.turn S g.msMaxSize handle = .next l' ∧ g.Home l'.ctx ∧
      l'.ctx.state = l.ctx.state ∧ g.Stage S a n l' (w :: rest) (p + k) (len - k) ∧
      l'.vars = l.vars.keep g.msMaxSize w p k ∧ g.Frame a n l.ctx l'.ctx := by
  have hlen := f.len_eq
  have hpos := f.pos
  have hkpos := chunk.pos
  have hdata := chunk.data
  rw [← Loop.prepared_recv (S := S)] at hdata
  obtain ⟨c', hc, kept⟩ := processChunk_keep g.nonneg g.lt_int f.size_le
    (by rw [Loop.prepared_recv, f.offset]) hdata hlt
  rw [← chunk.len_eq] at hc
  have hrecv := kept.recv
  have hkept := kept.outside
  rw [Loop.prepared_recv] at hrecv hkept
  have hturn := Loop.turn_keep handle (by omega) hc (by rw [hrecv]; simp only; omega)
  rw [chunk.len_eq] at hturn
  have hmem : ∀ x, l.buf + l.offset + k ≤ x → x < l.buf + l.offset + len →
      c'.mem x = l.ctx.mem x := by
    intro x h1 h2
    rw [hkept x (f.rest_outside chunk.size h1 h2), chunk.input x (by omega) h2]
  refine ⟨_, hturn, ⟨?_, ?_⟩, ?_, f.kept_stage chunk hlt kept hmem, ?_,
    chunk.frame.trans ⟨fun x hx => hkept x (f.outside chunk.le chunk.size hx), kept.asserts⟩⟩
  · rw [hrecv]
    exact home.buf
  · rw [hrecv]
    exact home.maxSize
  · rw [kept.state, Loop.prepared_state]
  · simp only [Loop.vars, LoopVars.keep, hrecv]

theorem Front.advance_addr (f : g.Front S a n l w rest p len) (c' : Ctx σ)
    (h : c'.recv.curAddr = l.ctx.recv.curAddr) :
    (l.advance c' (w.size - p)).buf = l.buf + l.offset + (w.size - p : Nat) ∧
      (l.advance c' (w.size - p)).ctx.recv.curAddr = l.buf + l.offset + (w.size - p : Nat) := by
  have hpend := f.lt_size
  have hb : l.buf + (l.offset + ((w.size : Int) - p)) =
      l.buf + l.offset + (w.size - p : Nat) := by omega
  have haddr : l.direct = true → c'.recv.curAddr = l.buf := by
    intro hd
    rw [f.direct, decide_eq_true_eq] at hd
    rw [h, (f.at_input hd).2]
  exact ⟨hb, (Loop.advance_addr haddr _).trans hb⟩

theorem Front.advance_source (f : g.Front S a n l w rest p len) {recv : SocketRecvData} {k : Nat}
    (chunk : g.Chunk S a n l w rest p len k) (hle : w.size ≤ p + k) (hmore : w.size < p + len)
    (haddr : recv.curAddr = l.buf + l.offset + (w.size - p : Nat))
    (hsize : recv.curSize =
      if p + k = w.size then g.maxSize else l.ctx.recv.curSize - (w.size - p)) :
    g.Start S recv.curAddr recv.curSize ∧
      g.Source recv 0 (p + len - w.size) (l.buf + l.offset + (w.size - p : Nat)) S := by
  have hpend := f.lt_size
  have hkle := chunk.le
  have hsource := f.source
  constructor
  · rw [hsize]
    split
    · next heq =>
      -- the chunk ended with the message, so there is more than one
      cases S with
      | inPlace =>
        have := chunk.plain rfl
        omega
      | buffer => exact g.start_fresh _
    · next hne =>
      rcases Nat.eq_zero_or_pos p with rfl | hp
      · obtain ⟨hoff, hat⟩ := f.at_input rfl
        have hnext := g.start_next (w := w) (k := k) (f.start rfl) (by omega) (by
          rintro rfl
          have := chunk.plain rfl
          have := hsource.2
          omega)
        have hx : recv.curAddr = l.ctx.recv.curAddr + w.size := by omega
        rw [hx, Nat.cast_zero, sub_zero]
        exact hnext
      · refine g.room_next f.serves (f.held hp).room (chunk.size hp) (by omega) ?_
        rintro rfl
        have := hsource.1
        omega
  · cases S with
    | buffer =>
      rcases (hsource : g.Apart _ _) with ha | ha
      · left
        omega
      · right
        omega
    | inPlace =>
      have := chunk.plain rfl
      obtain ⟨hx, hfit⟩ := hsource
      rw [if_neg (by omega)] at hsize
      exact ⟨by omega, by omega⟩

theorem Front.advance_stage (home : g.Home l.ctx)
    (fits : ∀ w' ∈ rest, (w'.size : Int) ≤ g.msMaxSize) (f : g.Front S a n l w rest p len)
    (htot : p + len ≤ (encodeAll (w :: rest)).length) {m : Mem} {s : σ} {c' : Ctx σ} {k : Nat}
    (chunk : g.Chunk S a n l w rest p len k) (hle : w.size ≤ p + k)
    (del : Delivered g.msMaxSize w p k (l.prepared S) c')
    (hmem : ∀ x, l.buf + l.offset + (w.size - p : Nat) ≤ x → x < l.buf + l.offset + len →
      m x = l.ctx.mem x) :
    g.Stage S a n (l.advance { c' with mem := m, state := s } (w.size - p)) rest 0
      (p + len - w.size) := by
  have hlen := f.len_eq
  have hlow := f.low
  have hhigh := f.high
  have hpend := f.lt_size
  have hkle := chunk.le
  have hrecv := del.recv
  rw [Loop.prepared_recv] at hrecv
  obtain ⟨hbuf, haddr⟩ := f.advance_addr { c' with mem := m, state := s } (by simp only [hrecv])
  have hlen' : (l.advance { c' with mem := m, state := s } (w.size - p)).len =
      (p + len - w.size : Nat) := by
    simp only [Loop.advance]
    omega
  have hoff : (l.advance { c' with mem := m, state := s } (w.size - p)).ctx.recv.curOffset = 0 := by
    simp only [Loop.advance, hrecv]
  have hsize : (l.advance { c' with mem := m, state := s } (w.size - p)).ctx.recv.curSize =
      if p + k = w.size then g.maxSize else l.ctx.recv.curSize - (w.size - p) := by
    simp only [Loop.advance, hrecv, home.maxSize]
  rcases Nat.eq_zero_or_pos (p + len - w.size) with hz | hz
  · rw [hz] at hlen' ⊢
    refine .idle rest hlen' hoff ?_ (by omega)
    rw [hsize, if_pos (by omega)]
  · cases rest with
    | nil =>
      simp at htot
      omega
    | cons w' rest' =>
      have hin := load_behind (k := w.size - p) f.input (by omega) hmem
      rw [List.drop_drop, show p + (w.size - p) = w.size by omega, List.drop_left' (by simp),
        show len - (w.size - p) = p + len - w.size by omega] at hin
      have hstart : (l.advance { c' with mem := m, state := s } (w.size - p)).buf +
          (l.advance { c' with mem := m, state := s } (w.size - p)).offset =
          l.buf + l.offset + (w.size - p : Nat) := by
        rw [hbuf]
        exact add_zero _
      obtain ⟨hnext, hsource⟩ := f.advance_source chunk hle (by omega) haddr hsize
      refine .more ⟨f.serves, hz, hlen', ?_, ?_, ?_, hoff, fits w' List.mem_cons_self, rfl,
        fun _ => ⟨rfl, haddr.trans hbuf.symm⟩, fun _ => hnext, fun h => absurd h (lt_irrefl 0), ?_⟩
      · rw [hstart]
        omega
      · rw [hstart]
        omega
      · rw [hstart, List.drop_zero]
        exact hin
      · rw [hstart]
        exact hsource

theorem Front.deliver {handle : Callback σ} {E : List MessageView}
    {P : List MessageView → σ → Prop} {Q : σ → Prop} {vs : List MessageView}
    (home : g.Home l.ctx) (cb : CallbackOk g.msMaxSize handle E P Q) (hP : P vs l.ctx.state)
    (hE : vs ++ [w.view] <+: E) (fits : ∀ w' ∈ rest, (w'.size : Int) ≤ g.msMaxSize)
    (f : g.Front S a n l w rest p len) (htot : p + len ≤ (encodeAll (w :: rest)).length) {k : Nat}
    (chunk : g.Chunk S a n l w rest p len k) (hle : w.size ≤ p + k) :
    (∃ l', l.turn S g.msMaxSize handle = .next l' ∧ g.Home l'.ctx ∧
      P (vs ++ [w.view]) l'.ctx.state ∧ g.Stage S a n l' rest 0 (p + len - w.size) ∧
      l'.vars = l.vars.deliver w p k ∧ g.Frame a n l.ctx l'.ctx) ∨
    ∃ c', l.turn S g.msMaxSize handle = .done (false, c') ∧ Q c'.state := by
  have hlen := f.len_eq
  have hpos := f.pos
  have hpend := f.lt_size
  have hdata := chunk.data
  rw [← Loop.prepared_recv (S := S)] at hdata
  obtain ⟨c', hc, del⟩ := processChunk_deliver g.nonneg g.lt_int f.size_le
    (by rw [Loop.prepared_recv, f.offset]) hdata hle
  rw [← chunk.len_eq] at hc
  have hturn := Loop.turn_deliver handle (by omega) hc (by rw [del.recv])
  have hP' : P vs c'.state := by
    rw [del.state, Loop.prepared_state]
    exact hP
  have hE' : vs ++ [c'.msg.view g.msMaxSize c'.mem] <+: E := del.view ▸ hE
  cases hok : (handle c'.mem c'.msg c'.state).1 with
  | false =>
    rw [hok, if_neg Bool.false_ne_true] at hturn
    exact Or.inr ⟨_, hturn, cb.rejects vs c'.state c'.mem c'.msg hP' del.valid hE' hok⟩
  | true =>
    rw [if_pos hok] at hturn
    have htrack := cb.tracks vs c'.state c'.mem c'.msg hP' del.valid hE' hok
    rw [del.view] at htrack
    -- the parser and the callback write to the message only
    have hframe : ∀ x, (x < l.ctx.recv.curAddr ∨
        l.ctx.recv.curAddr + (p + (w.size - p) : Nat) ≤ x) →
        (handle c'.mem c'.msg c'.state).2.1 x = (l.prepared S).mem x := by
      intro x hx
      have hsz := w.size_eq
      rw [show p + (w.size - p) = w.size by omega] at hx
      rw [cb.frame vs c'.state c'.mem c'.msg x hP' del.valid hE', del.outside x]
      · rw [Loop.prepared_recv]
        omega
      · rw [del.addr, del.length, Loop.prepared_recv]
        exact hx
    have hfew : 0 < p → ((w.size - p : Nat) : Int) ≤ l.ctx.recv.curSize := by
      intro hp
      have := chunk.size hp
      omega
    have hkle := chunk.le
    refine Or.inl ⟨_, hturn, ⟨?_, ?_⟩, htrack,
      f.advance_stage home fits htot chunk hle del fun x h1 h2 => ?_, ?_,
      chunk.frame.trans ⟨fun x hx => hframe x (f.outside (by omega) hfew hx), del.asserts⟩⟩
    · simp only [Loop.advance, del.recv, Loop.prepared_recv, home.buf]
    · simp only [Loop.advance, del.recv, Loop.prepared_recv, home.maxSize]
    · rw [hframe x (f.rest_outside hfew h1 h2), chunk.input x (by omega) h2]
    · simp only [Loop.vars, LoopVars.deliver, Loop.advance, del.recv, Loop.prepared_recv]
      rfl

end Turn

/-! ## One call -/

section Call
variable {g : Layout} {S : AccumulationStrategy} {a n e : Int} {handle : Callback σ}
  {P : List MessageView → σ → Prop} {Q : σ → Prop} {all : List WireMessage}
  {future : List UInt8} {c c' : Ctx σ}

section Loop
variable {d r rest : List WireMessage} {w : WireMessage} {p len : Nat} {l : Loop σ}

theorem LoopAt.front (h : g.LoopAt P all future S a n d r p len l) (hlen : 0 < l.len) :
    ∃ w rest, r = w :: rest ∧ g.Front S a n l w rest p len := by
  cases h.stage with
  | more f => exact ⟨_, _, rfl, f⟩
  | idle _ h0 => omega
  | left _ h0 => omega
  | held h0 => omega

variable (handle) in
theorem LoopAt.keep (h : g.LoopAt P all future S a n d (w :: rest) p len l)
    (f : g.Front S a n l w rest p len) {k : Nat} (chunk : g.Chunk S a n l w rest p len k)
    (hlt : p + k < w.size) :
    ∃ l', l.turn S g.msMaxSize handle = .next l' ∧
      g.LoopAt P all future S a n d (w :: rest) (p + k) (len - k) l' ∧
      l'.vars = l.vars.keep g.msMaxSize w p k ∧ g.Frame a n l.ctx l'.ctx := by
  have hkle := chunk.le
  have hsum : p + k + (len - k) = p + len := by omega
  obtain ⟨l', ht, home', hstate, stage', hvars, hframe⟩ := f.keep handle h.home chunk hlt
  refine ⟨l', ht, ⟨h.all_eq, ?_, home', stage', ?_, ?_⟩, hvars, hframe⟩
  · rw [hstate]
    exact h.state
  · rw [hsum]
    exact h.total
  · rw [hsum]
    exact h.future_eq

theorem LoopAt.deliver (fits : ∀ w ∈ all, (w.size : Int) ≤ g.msMaxSize)
    (cb : CallbackOk g.msMaxSize handle (all.map WireMessage.view) P Q)
    (h : g.LoopAt P all future S a n d (w :: rest) p len l) (f : g.Front S a n l w rest p len)
    {k : Nat} (chunk : g.Chunk S a n l w rest p len k) (hle : w.size ≤ p + k) :
    (∃ l', l.turn S g.msMaxSize handle = .next l' ∧
      g.LoopAt P all future S a n (d ++ [w]) rest 0 (p + len - w.size) l' ∧
      l'.vars = l.vars.deliver w p k ∧ g.Frame a n l.ctx l'.ctx) ∨
    ∃ c', l.turn S g.msMaxSize handle = .done (false, c') ∧ Q c'.state := by
  obtain ⟨hall, hP, home, -, htot, hfut⟩ := h
  have hkle := chunk.le
  have fits' : ∀ w' ∈ rest, (w'.size : Int) ≤ g.msMaxSize :=
    fun w' hw' => fits w' (by simp [hall, hw'])
  have hE : d.map WireMessage.view ++ [w.view] <+: all.map WireMessage.view :=
    ⟨rest.map WireMessage.view, by simp [hall]⟩
  rcases f.deliver home cb hP hE fits' htot chunk hle with
    ⟨l', ht, home', hP', stage', hvars, hframe⟩ | hrej
  · obtain ⟨j, hj⟩ := Nat.exists_eq_add_of_le (show w.size ≤ p + len by omega)
    refine Or.inl ⟨l', ht, ⟨by simpa using hall, ?_, home', stage', ?_, ?_⟩, hvars, hframe⟩
    · simpa using hP'
    · simp at htot
      omega
    · rw [← hfut, hj, Nat.zero_add, encodeAll_cons, Nat.add_sub_cancel_left]
      simp [List.drop_append]
  · exact Or.inr hrej

/-- One turn delivers a message or keeps a part of one, and leaves less to do; or the callback
rejects the message. -/
theorem LoopAt.step (fits : ∀ w ∈ all, (w.size : Int) ≤ g.msMaxSize)
    (cb : CallbackOk g.msMaxSize handle (all.map WireMessage.view) P Q)
    (h : g.LoopAt P all future S a n d r p len l) (hlen : 0 < l.len) :
    (∃ l', l.turn S g.msMaxSize handle = .next l' ∧
      (∃ d r p len, g.LoopAt P all future S a n d r p len l') ∧ l'.len.toNat < l.len.toNat ∧
      g.Frame a n l.ctx l'.ctx) ∨
    ∃ c', l.turn S g.msMaxSize handle = .done (false, c') ∧ Q c'.state := by
  obtain ⟨w, rest, rfl, f⟩ := h.front hlen
  have hl := f.len_eq
  have hpend := f.lt_size
  obtain ⟨k, chunk⟩ := f.chunk
  have hkpos := chunk.pos
  rcases Nat.lt_or_ge (p + k) w.size with hlt | hle
  · obtain ⟨l', ht, h', -, hframe⟩ := h.keep handle f chunk hlt
    have hl' := h'.stage.len_eq
    exact Or.inl ⟨l', ht, ⟨_, _, _, _, h'⟩, by omega, hframe⟩
  · rcases h.deliver fits cb f chunk hle with ⟨l', ht, h', -, hframe⟩ | hrej
    · have hl' := h'.stage.len_eq
      exact Or.inl ⟨l', ht, ⟨_, _, _, _, h'⟩, by omega, hframe⟩
    · exact Or.inr hrej

/-- What is left in a buffer of somebody else is copied away, what is left of a read stays. -/
theorem LoopAt.exit (h : g.LoopAt P all future S a n d r p len l) (hlen : l.len = 0) :
    g.RestAt P all future (g.leftAt a n S) d r p (l.finish S) ∧ g.Frame a n l.ctx (l.finish S) := by
  obtain ⟨hall, hP, home, stage, -, hfut⟩ := h
  have hl := stage.len_eq
  obtain rfl : len = 0 := by omega
  cases stage with
  | more f => exact absurd f.pos (lt_irrefl 0)
  | idle _ _ hoff hsize haddr =>
    have hfin : l.finish S = { l.ctx with recv := S.resetReadBuffer l.ctx.recv } := if_pos hoff
    rw [hfin]
    cases S with
    | buffer => exact ⟨⟨hall, hP, home, .idle r hoff hsize haddr, hfut⟩, .refl _⟩
    | inPlace =>
      exact ⟨⟨hall, hP, ⟨home.buf, home.maxSize⟩, .idle r hoff hsize home.buf, hfut⟩,
        fun _ _ => rfl, rfl⟩
  | @left w rest _ library _ hd hp hoff hlt hw hroom hdata =>
    subst library
    have hcopy := WireMessage.stored_take_length hlt.le
    have hpos := g.room_pos hroom hlt
    have hinside := g.room_inside hroom hw hlt
    rw [Loop.finish_left hoff hp hd hdata, home.buf]
    refine ⟨⟨hall, hP, ⟨home.buf, home.maxSize⟩, .held ⟨hp, hoff, hlt, hw, hroom,
      load_store_same' hcopy.symm⟩, hfut⟩, ?_, rfl⟩
    rintro x ⟨hx, hx'⟩
    apply store_outside
    omega
  | held _ held hdirect =>
    have hne : l.ctx.recv.curOffset ≠ 0 := by
      have := held.pos
      rw [held.offset]
      omega
    have hfin : l.finish S = l.ctx := by
      unfold Loop.finish
      rw [if_neg hne]
      split
      · next hd =>
        obtain ⟨rfl, haddr⟩ := hdirect hd
        simp [AccumulationStrategy.startAccumulation, haddr]
      · rfl
    rw [hfin]
    exact ⟨⟨hall, hP, home, .held held, hfut⟩, .refl _⟩

theorem RestAt.enter (fits : ∀ w ∈ all, (w.size : Int) ≤ g.msMaxSize) {bs : List UInt8}
    (h : g.RestAt P all (bs ++ future) e d r p c) (hdata : load c.mem a bs.length = bs)
    (fed : g.Fed S c a bs.length) :
    g.LoopAt P all future S a bs.length d r p bs.length (Sockperf.enter c a bs.length) := by
  obtain ⟨hall, hP, home, rest, hstream⟩ := h
  have hle := rest.partOf.le_length
  have hfut : (encodeAll r).drop (p + bs.length) = future := by
    rw [← List.drop_drop, hstream, List.drop_left' rfl]
  have hinput : load c.mem a bs.length = ((encodeAll r).drop p).take bs.length := by
    rw [hdata, hstream, List.take_left' rfl]
  have htot : p + bs.length ≤ (encodeAll r).length := by
    have hlen := congrArg List.length hstream
    simp only [List.length_drop, List.length_append] at hlen
    omega
  cases rest with
  | idle _ hoff hsize _ =>
    rw [enter_of_zero hoff]
    refine ⟨hall, hP, ⟨home.buf, home.maxSize⟩, ?_, htot, hfut⟩
    rcases Nat.eq_zero_or_pos bs.length with hz | hpos
    · rw [hz]
      exact .idle r rfl hoff hsize (add_zero a).symm
    · cases r with
      | nil =>
        rw [encodeAll_nil, List.length_nil] at htot
        omega
      | cons w rest =>
        refine .more ⟨fed.serves, hpos, rfl, (add_zero a).ge, by rw [add_zero], ?_, hoff,
          fits w (by simp [hall]), rfl, fun _ => ⟨rfl, rfl⟩, fun _ => hsize.symm ▸ fed.start hoff,
          fun h => absurd h (lt_irrefl 0), ?_⟩
        · rw [add_zero]
          exact hinput
        · rw [add_zero]
          cases S with
          | buffer => exact fed.apart rfl
          | inPlace => exact ⟨(add_zero a).symm, (fed.behind rfl).2⟩
  | @held w rest _ held =>
    have hpos := held.pos
    have hoff := held.offset
    rw [enter_of_ne (by omega)]
    refine ⟨hall, hP, home, ?_, htot, hfut⟩
    rcases Nat.eq_zero_or_pos bs.length with hz | hpos'
    · rw [hz]
      exact .held rfl held nofun
    · refine .more ⟨fed.serves, hpos', rfl, (add_zero a).ge, by rw [add_zero], ?_, hoff,
        held.size_le, (decide_eq_false hpos.ne').symm, fun h => absurd h hpos.ne',
        fun h => absurd h hpos.ne', fun _ => held, ?_⟩
      · rw [add_zero]
        exact hinput
      · rw [add_zero]
        cases S with
        | buffer => exact fed.apart rfl
        | inPlace =>
          obtain ⟨ha, hn⟩ := fed.behind rfl
          exact ⟨hoff ▸ ha, hn⟩

end Loop

/-- The next bytes of the stream are processed completely, unless the callback rejects a message;
nothing but the input and the receive buffer changes. -/
theorem Between.processBuffer (fits : ∀ w ∈ all, (w.size : Int) ≤ g.msMaxSize)
    (cb : CallbackOk g.msMaxSize handle (all.map WireMessage.view) P Q) {bs : List UInt8}
    (h : g.Between P all (bs ++ future) e c) (hdata : load c.mem a bs.length = bs)
    (fed : g.Fed S c a bs.length) :
    ∃ ok c', ProcessBuffer S g.msMaxSize handle c a bs.length ok c' ∧
      (ok = true → g.Between P all future (g.leftAt a bs.length S) c' ∧
        g.Frame a bs.length c c') ∧ (ok = false → Q c'.state) := by
  obtain ⟨d, r, p, h⟩ := h
  have hstart : g.Frame a bs.length c (Sockperf.enter c a bs.length).ctx := by
    unfold Sockperf.enter
    dsimp only
    split
    · exact ⟨fun _ _ => rfl, rfl⟩
    · exact .refl _
  obtain ⟨⟨ok, c'⟩, hr, hpost⟩ := returns_of_variant (Loop.turn S g.msMaxSize handle)
    (fun l => (∃ d r p len, g.LoopAt P all future S a bs.length d r p len l) ∧
      g.Frame a bs.length c l.ctx)
    (fun q => (q.1 = true → g.Between P all future (g.leftAt a bs.length S) q.2 ∧
      g.Frame a bs.length c q.2) ∧ (q.1 = false → Q q.2.state))
    (fun l => l.len.toNat) ⟨⟨d, r, p, bs.length, h.enter fits hdata fed⟩, hstart⟩ (by
      rintro l ⟨⟨d, r, p, len, hl⟩, hframe⟩
      rcases Int.lt_or_le 0 l.len with hlen | hlen
      · rcases hl.step fits cb hlen with ⟨l', ht, hl', hless, hframe'⟩ | ⟨c', hdone, hQ⟩
        · exact Or.inl ⟨l', ht, ⟨hl', hframe.trans hframe'⟩, hless⟩
        · exact Or.inr ⟨_, hdone, fun h => absurd h Bool.false_ne_true, fun _ => hQ⟩
      · have hzero := hl.stage.len_eq
        obtain ⟨hrest, hframe'⟩ := hl.exit (by omega)
        exact Or.inr ⟨_, Loop.turn_exit hlen, fun _ => ⟨⟨d, r, p, hrest⟩, hframe.trans hframe'⟩,
          fun h => absurd h.symm Bool.false_ne_true⟩)
  exact ⟨ok, c', ⟨_, hr⟩, hpost⟩

/-- The state is the receive data and the contents of the receive buffer up to the pending bytes. -/
theorem RestAt.congr {d r : List WireMessage} {p : Nat} (h : g.RestAt P all future e d r p c)
    (hrecv : c'.recv = c.recv) (hstate : ∀ vs, P vs c.state → P vs c'.state)
    (hm : ∀ x, g.base ≤ x → x < g.base + g.cap → x < c.recv.curAddr + c.recv.curOffset →
      c'.mem x = c.mem x) : g.RestAt P all future e d r p c' := by
  refine ⟨h.all_eq, hstate _ h.state, ⟨hrecv ▸ h.home.buf, hrecv ▸ h.home.maxSize⟩, ?_,
    h.future_eq⟩
  cases h.rest with
  | idle _ hoff hsize haddr =>
    rw [← hrecv] at hoff hsize haddr
    exact .idle r hoff hsize haddr
  | held held =>
    have hwindow := held.window
    have hoff := held.offset
    refine .held (held.congr hrecv ?_)
    apply load_congr
    intro x h1 h2
    exact hm x (by omega) (by omega) (by omega)

theorem Between.env {m : Mem} (h : g.Between P all future e c)
    (hm : Agree c.mem m g.base (g.base + g.cap)) :
    g.Between P all future e { c with mem := m } := by
  obtain ⟨d, r, p, h⟩ := h
  exact ⟨d, r, p, h.congr rfl (fun _ hP => hP) fun x h1 h2 _ => (hm x h1 h2).symm⟩

theorem RestAt.received {d r : List WireMessage} {p : Nat} (h : g.RestAt P all future e d r p c)
    (bs : List UInt8) : g.RestAt P all future e d r p (receivePendingData c bs) :=
  h.congr rfl (fun _ hP => hP) fun _ _ _ hx => store_outside (Or.inl hx)

theorem fed_received (hserves : g.Serves .inPlace) {bs : List UInt8}
    (hle : bs.length ≤ c.recv.curSize)
    (hstart : c.recv.curOffset = 0 → g.Start .inPlace c.recv.curAddr g.maxSize) :
    g.Fed .inPlace (receivePendingData c bs) (c.recv.curAddr + c.recv.curOffset) bs.length := by
  refine ⟨hserves, fun hoff => ?_, nofun, fun _ => ⟨rfl, hle⟩⟩
  have hzero : c.recv.curOffset = 0 := hoff
  rw [hzero, add_zero]
  exact hstart hzero

theorem Between.recvFrom (hserves : g.Serves .inPlace)
    (fits : ∀ w ∈ all, (w.size : Int) ≤ g.msMaxSize)
    (cb : CallbackOk g.msMaxSize handle (all.map WireMessage.view) P Q) {bs : List UInt8}
    (h : g.Between P all (bs ++ future) e c) (hle : bs.length ≤ c.recv.curSize)
    (hstart : c.recv.curOffset = 0 → g.Start .inPlace c.recv.curAddr g.maxSize) :
    ∃ ok c', RecvFrom g.msMaxSize handle c bs ok c' ∧
      (ok = true → g.Between P all future g.base c' ∧
        g.Frame (c.recv.curAddr + c.recv.curOffset) bs.length (receivePendingData c bs) c') ∧
      (ok = false → Q c'.state) := by
  obtain ⟨d, r, p, h⟩ := h
  exact Between.processBuffer fits cb ⟨d, r, p, h.received bs⟩ load_store_same
    (fed_received hserves hle hstart)

theorem RestAt.imp {P' : List MessageView → σ → Prop} {d r : List WireMessage} {p : Nat}
    (h : g.RestAt P all future e d r p c) (hP : P' (d.map WireMessage.view) c.state) :
    g.RestAt P' all future e d r p c := ⟨h.all_eq, hP, h.home, h.rest, h.future_eq⟩

theorem Between.at_completed {k : Nat} (hk : k ≤ (encodeAll all).length)
    (h : g.Between P all ((encodeAll all).drop k) e c) :
    ∃ r p, g.RestAt P all ((encodeAll all).drop k) e (completed all k) r p c := by
  obtain ⟨d, r, p, h⟩ := h
  obtain rfl := completed_eq hk h.all_eq h.rest.partOf h.future_eq
  exact ⟨r, p, h⟩

theorem Between.restate {k : Nat} {Q : List MessageView → σ → Prop}
    (hk : k ≤ (encodeAll all).length) (h : g.Between P all ((encodeAll all).drop k) e c)
    (hQ : Q ((completed all k).map WireMessage.view) c.state) :
    g.Between Q all ((encodeAll all).drop k) e c := by
  obtain ⟨r, p, h⟩ := h.at_completed hk
  exact ⟨_, r, p, h.imp hQ⟩

/-- Behind the last byte of a stream the receive data is that of a new socket but for `cur_addr`. -/
theorem RestAt.all_read {d r : List WireMessage} {p : Nat} (h : g.RestAt P all [] e d r p c) :
    d = all ∧ c.recv = { freshRecv g.base g.maxSize with curAddr := e } := by
  have hle := List.drop_eq_nil_iff.mp h.future_eq
  have hbuf := h.home.buf
  have hmax := h.home.maxSize
  cases h.rest with
  | held held =>
    have hlt := held.lt_size
    simp only [encodeAll_cons, List.length_append, WireMessage.encode_length] at hle
    omega
  | idle _ hoff hsize haddr =>
    cases r with
    | cons w r =>
      have hw := w.size_eq
      simp only [encodeAll_cons, List.length_append, WireMessage.encode_length] at hle
      omega
    | nil =>
      refine ⟨by rw [h.all_eq, List.append_nil], ?_⟩
      rcases hr : c.recv with ⟨buf, maxSize, curAddr, curOffset, curSize⟩
      rw [hr] at hbuf hmax hoff hsize haddr
      unfold freshRecv
      simp only [SocketRecvData.mk.injEq]
      exact ⟨hbuf, hmax, haddr, hoff, hsize⟩

theorem fresh_restAt (P : List MessageView → σ → Prop) (all : List WireMessage)
    (hrecv : c.recv = freshRecv g.base g.maxSize) (h : P [] c.state) :
    g.RestAt P all (encodeAll all) g.base [] all 0 c := by
  refine ⟨rfl, h, ⟨?_, ?_⟩, .idle all ?_ ?_ ?_, rfl⟩ <;> rw [hrecv] <;> rfl

end Call

end Layout

/-! ## Buffers of the library -/

def LibBuffer.Disjoint (b b' : LibBuffer) : Prop :=
  b.addr + b.len ≤ b'.addr ∨ b'.addr + b'.len ≤ b.addr

namespace Layout
variable {g : Layout} {handle : Callback σ} {P : List MessageView → σ → Prop}
  {all : List WireMessage} {future : List UInt8} {c : Ctx σ} {e : Int}

/-- A buffer away from the receive buffer holds `bs`. -/
structure Holds (g : Layout) (m : Mem) (b : LibBuffer) (bs : List UInt8) : Prop where
  len : b.len = bs.length
  apart : g.Apart b.addr b.len
  data : load m b.addr bs.length = bs

theorem Holds.of_agree {m m' : Mem} {b b' : LibBuffer} {bs : List UInt8} (h : g.Holds m b bs)
    (hd : b'.Disjoint b) (hm : ∀ x, g.Outside b'.addr b'.len x → m' x = m x) :
    g.Holds m' b bs := by
  refine ⟨h.len, h.apart, ?_⟩
  conv_rhs => rw [← h.data]
  apply load_congr
  intro x h1 h2
  have hlen := h.len
  apply hm
  constructor
  · rcases h.apart with ha | ha <;> omega
  · rcases hd with hd | hd <;> omega

/-- Where `cur_addr` is left by buffers that end at a message boundary. -/
def lastEnd (e : Int) (iov : List LibBuffer) : Int := iov.foldl (fun _ b => b.addr + b.len) e

theorem Between.processBuffers (hserves : g.Serves .buffer)
    (fits : ∀ w ∈ all, (w.size : Int) ≤ g.msMaxSize)
    (cb : CallbackOk g.msMaxSize handle (all.map WireMessage.view) P fun _ => False)
    {bufs : List LibBuffer} {bytes : List (List UInt8)} (hd : bufs.Pairwise LibBuffer.Disjoint)
    (holds : List.Forall₂ (g.Holds c.mem) bufs bytes)
    (h : g.Between P all (bytes.flatten ++ future) e c) :
    ∃ c', (∃ fuel, Sockperf.processBuffers g.msMaxSize handle fuel c bufs = some (true, c')) ∧
      g.Between P all future (lastEnd e bufs) c' ∧ c'.asserts = c.asserts := by
  induction bufs generalizing c e bytes with
  | nil =>
    cases holds
    exact ⟨c, ⟨0, rfl⟩, h, rfl⟩
  | cons b bufs ih =>
    cases holds with
    | @cons _ bs _ rest hb hrest =>
      obtain ⟨hb', hd'⟩ := List.pairwise_cons.mp hd
      rw [List.flatten_cons, List.append_assoc] at h
      have fed : g.Fed .buffer c b.addr bs.length :=
        ⟨hserves, fun _ => g.start_fresh _, fun _ => hb.len ▸ hb.apart, nofun⟩
      obtain ⟨ok, c1, hc1, htrue, hfalse⟩ := h.processBuffer fits cb hb.data fed
      cases ok with
      | false => exact absurd (hfalse rfl) id
      | true =>
        obtain ⟨h1, hframe⟩ := htrue rfl
        rw [← hb.len] at hc1 hframe
        -- the other buffers still hold their bytes
        have hrest1 : List.Forall₂ (g.Holds c1.mem) bufs rest := by
          have hboth := (List.forall₂_and_left bufs rest).mpr ⟨hb', hrest⟩
          exact hboth.imp fun _ _ h2 => h2.2.of_agree h2.1 hframe.mem
        obtain ⟨c2, hc2, h2, hasserts⟩ := ih hd' hrest1 h1
        rw [leftAt, ← hb.len] at h2
        exact ⟨c2, processBuffers_cons hc1 hc2, h2, hasserts.trans hframe.asserts⟩

end Layout

end Sockperf
