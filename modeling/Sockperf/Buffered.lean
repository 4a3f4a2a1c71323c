import Sockperf.InPlace

/-!
# Framing with copies

The input lies in buffers of somebody else, which may be gone after the call. An incomplete message
is copied to the beginning of the receive buffer and continued there; what follows it is parsed in
the input again.
-/

namespace Sockperf

open Memory While
set_option autoImplicit false

universe u
variable {σ : Type u}

/-- A receive buffer of `cap` bytes at `base` that holds any accepted message. -/
structure Arena where
  base : Int
  cap : Int
  maxSize : Int
  msMaxSize : Int
  maxSize_pos : 0 < maxSize
  le_msMaxSize : maxSize ≤ msMaxSize
  msMaxSize_le : msMaxSize ≤ cap
  lt_int : msMaxSize < 2 ^ 31

/-- A receive buffer of `2 * maxSize` bytes holds any accepted message. -/
def Window.arena (g : Window) : Arena where
  base := g.base
  cap := 2 * g.maxSize
  maxSize := g.maxSize
  msMaxSize := g.msMaxSize
  maxSize_pos := by have := g.header_le; omega
  le_msMaxSize := g.le_msMaxSize
  msMaxSize_le := by have := g.header_le; have := g.msMaxSize_le; omega
  lt_int := g.lt_int

namespace Arena

/-- A pending message begins at `base`, and the buffer has room for all that is asked for. -/
def layout (g : Arena) : Layout where
  base := g.base
  cap := g.cap
  maxSize := g.maxSize
  msMaxSize := g.msMaxSize
  Serves S := S = .buffer
  Room addr size _ p := addr = g.base ∧ 0 < size ∧ p + size ≤ g.msMaxSize
  Start S _ size := S = .buffer ∧ size ≤ g.msMaxSize
  nonneg := by have := g.maxSize_pos; have := g.le_msMaxSize; omega
  lt_int := g.lt_int
  start_fresh _ := ⟨rfl, g.le_msMaxSize⟩
  room_pos h _ := h.2.1
  room_inside h _ _ := by have := g.msMaxSize_le; omega
  room_keep h hw _ _ hlt := ⟨h.1, keptSize_pos hw hlt, keptSize_le hw h.2.2⟩
  room_next hS h _ _ _ := ⟨hS, by omega⟩
  start_copied {_ size w k} h hw _ hlt := by
    have hle : ((0 + k : Nat) : Int) + keptSize g.msMaxSize size w 0 k ≤ g.msMaxSize :=
      keptSize_le hw (by have := h.2; omega)
    rw [Nat.zero_add] at hle
    exact ⟨rfl, keptSize_pos hw (by omega), hle⟩
  start_kept h := by cases h.1
  start_next h _ _ := ⟨h.1, by have := h.2; omega⟩

def Apart (g : Arena) (a n : Int) : Prop := a + n ≤ g.base ∨ g.base + g.cap ≤ a

/-- Neither in the receive buffer nor in the input buffer. -/
def Outside (g : Arena) (a n x : Int) : Prop :=
  (x < g.base ∨ g.base + g.cap ≤ x) ∧ (x < a ∨ a + n ≤ x)

/-- Between two buffers of the stream `all`, wherever `cur_addr` is left. -/
def Between (g : Arena) (P : List MessageView → σ → Prop) (all : List WireMessage)
    (future : List UInt8) (c : Ctx σ) : Prop := ∃ e, g.layout.Between P all future e c

end Arena

/-- What one receive call finds: buffers, their contents, and the memory the library left. -/
structure Delivery where
  buffers : LibBuffers
  bytes : List (List UInt8)
  memory : Mem → Mem

/-- The buffers do not overlap and hold the bytes; the receive buffer is not touched. -/
structure Arena.Admits (g : Arena) (r : Delivery) : Prop where
  disjoint : r.buffers.toList.Pairwise LibBuffer.Disjoint
  keeps : ∀ m, Agree m (r.memory m) g.base (g.base + g.cap)
  holds : ∀ m, List.Forall₂ (g.layout.Holds (r.memory m)) r.buffers.toList r.bytes

/-- Calls of `iterate_over_buffers` one after the other, none of which fails. -/
inductive Iterations (msMaxSize : Int) (handle : Callback σ) : Ctx σ → List Delivery → Ctx σ → Prop
  | nil (c : Ctx σ) : Iterations msMaxSize handle c [] c
  | cons {c c' c'' : Ctx σ} {r : Delivery} {rest : List Delivery}
      (head : IterateOverBuffers msMaxSize handle { c with mem := r.memory c.mem } r.buffers true c')
      (tail : Iterations msMaxSize handle c' rest c'') : Iterations msMaxSize handle c (r :: rest) c''

namespace Arena
variable {g : Arena} {c : Ctx σ} {handle : Callback σ} {P : List MessageView → σ → Prop}
  {all : List WireMessage} {future : List UInt8}

theorem nonneg (g : Arena) : 0 ≤ g.msMaxSize := g.layout.nonneg

theorem Between.congr {c' : Ctx σ} (h : g.Between P all future c) (hrecv : c'.recv = c.recv)
    (hstate : ∀ vs, P vs c.state → P vs c'.state)
    (hm : Agree c.mem c'.mem g.base (g.base + g.cap)) : g.Between P all future c' := by
  obtain ⟨e, d, r, p, h⟩ := h
  exact ⟨e, d, r, p, h.congr hrecv hstate fun x h1 h2 _ => (hm x h1 h2).symm⟩

theorem Between.env {m : Mem} (h : g.Between P all future c)
    (hm : Agree c.mem m g.base (g.base + g.cap)) :
    g.Between P all future { c with mem := m } := h.congr rfl (fun _ hP => hP) hm

section Calls
variable (cb : CallbackOk g.msMaxSize handle (all.map WireMessage.view) P fun _ => False)
  (fits : ∀ w ∈ all, (w.size : Int) ≤ g.msMaxSize)
include cb fits

/-- A buffer with the next bytes of the stream is processed completely; nothing but the buffer
itself and the receive buffer changes. -/
theorem Between.processBuffer {a : Int} {bs : List UInt8} (apart : g.Apart a bs.length)
    (h : g.Between P all (bs ++ future) c) (hdata : load c.mem a bs.length = bs) :
    ∃ c', ProcessBuffer .buffer g.msMaxSize handle c a bs.length true c' ∧
      g.Between P all future c' ∧ ∀ x, g.Outside a bs.length x → c'.mem x = c.mem x := by
  obtain ⟨e, h⟩ := h
  have fed : g.layout.Fed .buffer c a bs.length :=
    ⟨rfl, fun _ => g.layout.start_fresh a, fun _ => apart, nofun⟩
  obtain ⟨ok, c', hr, htrue, hfalse⟩ := h.processBuffer fits cb hdata fed
  cases ok with
  | false => exact absurd (hfalse rfl) id
  | true =>
    obtain ⟨h', hframe⟩ := htrue rfl
    exact ⟨c', hr, ⟨_, h'⟩, hframe.mem⟩

theorem Between.iterations {rs : List Delivery} (admits : ∀ r ∈ rs, g.Admits r)
    (h : g.Between P all ((rs.map fun r => r.bytes.flatten).flatten ++ future) c) :
    ∃ c', Iterations g.msMaxSize handle c rs c' ∧ g.Between P all future c' := by
  induction rs generalizing c with
  | nil => exact ⟨c, Iterations.nil c, by simpa using h⟩
  | cons r rs ih =>
    have hr := admits r (by simp)
    rw [List.map_cons, List.flatten_cons, List.append_assoc] at h
    obtain ⟨e, h⟩ := h.env (hr.keeps c.mem)
    obtain ⟨c1, ⟨fuel, hc1⟩, h1, -⟩ := h.processBuffers rfl fits cb hr.disjoint (hr.holds c.mem)
    obtain ⟨c2, hc2, h2⟩ := ih (fun r' hr' => admits r' (by simp [hr'])) ⟨_, h1⟩
    refine ⟨c2, Iterations.cons ⟨fuel, ?_⟩ hc2, h2⟩
    rw [iterateOverBuffers_eq]
    exact hc1

end Calls

theorem rest_stored {e : Int} {w : WireMessage} {p : Nat} (h : g.layout.Rest c e [w] p) :
    0 < c.recv.curSize ∧ load c.mem g.base p = (w.stored p).take p := by
  cases h with
  | idle _ _ hsize => exact ⟨hsize ▸ g.maxSize_pos, rfl⟩
  | held held =>
    obtain ⟨haddr, hpos, -⟩ := held.room
    exact ⟨hpos, haddr ▸ held.data⟩

theorem fresh_between (P : List MessageView → σ → Prop) (all : List WireMessage)
    (hrecv : c.recv = freshRecv g.base g.maxSize) (h : P [] c.state) :
    g.Between P all (encodeAll all) c :=
  ⟨g.base, [], all, 0, Layout.fresh_restAt P all hrecv h⟩

end Arena

/-- Whatever buffers a stream of messages comes in and whatever happens to them afterwards, each
complete message reaches the callback once, in order, with its header in host order and its exact
body. The incomplete rest is in the receive buffer, with its header in host order as soon as it is
complete. A socket that reads the stream into its receive buffer delivers the same. -/
theorem buffered_framing (g : Arena) {handle : Callback σ}
    (accepts : ∀ m msg s, (handle m msg s).1 = true)
    (frame : ∀ m msg s (x : Int), (x < msg.addr ∨ msg.addr + (msg.getHeader m).length.toNat ≤ x) →
      (handle m msg s).2.1 x = m x)
    {ws : List WireMessage} {next : WireMessage} {k : Nat}
    (fits : ∀ w ∈ ws ++ [next], (w.size : Int) ≤ g.msMaxSize) (hk : k < next.size)
    {rs : List Delivery} (admits : ∀ r ∈ rs, g.Admits r)
    (hstream : (rs.map fun r => r.bytes.flatten).flatten = encodeAll ws ++ next.encode.take k)
    {c : Ctx (σ × List MessageView)} (hrecv : c.recv = freshRecv g.base g.maxSize)
    (hlog : c.state.2 = []) :
    ∃ c', Iterations g.msMaxSize (logging g.msMaxSize handle) c rs c' ∧
      c'.state.2 = ws.map WireMessage.view ∧ c'.recv.curOffset = k ∧ 0 < c'.recv.curSize ∧
      c'.recv.buf = g.base ∧
      load c'.mem c'.recv.buf k = (if k < 14 then next.encode else next.hostBytes).take k ∧
      ∀ (win : Window) (reads : List (List UInt8)) (b b' : Ctx (σ × List MessageView)),
        win.msMaxSize = g.msMaxSize →
        reads.flatten = encodeAll ws ++ next.encode.take k →
        b.recv = freshRecv win.base win.maxSize → b.state.2 = [] → b.asserts = true →
        Fits win.msMaxSize (logging win.msMaxSize handle) b reads →
        Reads win.msMaxSize (logging win.msMaxSize handle) b reads b' → b'.state.2 = c'.state.2 := by
  have hstart : g.Between (fun vs s => s.2 = vs) (ws ++ [next])
      ((rs.map fun r => r.bytes.flatten).flatten ++ next.encode.drop k) c := by
    have h := Arena.fresh_between (fun vs s => s.2 = vs) (ws ++ [next]) hrecv hlog
    rw [hstream, List.append_assoc, List.take_append_drop]
    rwa [encodeAll_append, encodeAll_cons, encodeAll_nil, List.append_nil] at h
  obtain ⟨c', hr, e, d, r, p, hat⟩ :=
    hstart.iterations (logging_ok accepts frame _) fits admits
  obtain ⟨rfl, rfl⟩ := split_unique hat.rest.partOf hat.all_eq hk hat.future_eq
  obtain rfl : [next] = r := List.append_cancel_left hat.all_eq
  obtain ⟨hsize, hdata⟩ := Arena.rest_stored hat.rest
  have hbuf : c'.recv.buf = g.base := hat.home.buf
  refine ⟨c', hr, hat.state, hat.rest.offset, hsize, hbuf, by rw [hbuf]; exact hdata, ?_⟩
  intro win reads b b' hms hstream' hrecv' hblog hasserts hfits hreads
  obtain ⟨b'', hreads', hblog', -⟩ := Window.fresh_reads (logging_ok accepts frame _)
    (by rw [hms]; exact fits) hk hstream' hrecv' hasserts hblog hfits
  exact (congrArg (fun x => x.state.2) (hreads.unique hreads')).trans (hblog'.trans hat.state.symm)

/-- One buffer, written by the library at `a`. -/
def plainDelivery (a : Int) (bs : List UInt8) : Delivery :=
  ⟨.plain ⟨a, bs.length⟩, [bs], fun m => store m a bs⟩

theorem Arena.admits_plain {g : Arena} {a : Int} {bs : List UInt8} (h : g.Apart a bs.length) :
    g.Admits (plainDelivery a bs) where
  disjoint := List.pairwise_singleton _ _
  keeps := by
    intro m
    apply Agree.symm
    apply agree_store
    rcases h with h | h
    · exact Or.inr h
    · exact Or.inl h
  holds := fun _ => List.Forall₂.cons ⟨rfl, h, load_store_same⟩ List.Forall₂.nil

/-- A message of 15 bytes and 3 bytes of another one, in three buffers at the same address. -/
theorem buffered_framing_three :
    let g : Arena := ⟨1000, 20, 16, 20, by decide, by decide, by decide, by decide⟩
    let w : WireMessage := ⟨⟨7, 3, 15⟩, [42], by decide⟩
    let handle : Callback Unit := fun m _ s => (true, m, s)
    let c : Ctx (Unit × List MessageView) :=
      ⟨fun _ => 0, freshRecv 1000 16, ⟨0⟩, ((), []), true⟩
    let rs := [plainDelivery 0 (w.encode.take 5), plainDelivery 0 (w.encode.drop 5),
      plainDelivery 0 (w.encode.take 3)]
    ∃ c', Iterations g.msMaxSize (logging g.msMaxSize handle) c rs c' ∧
      c'.state.2 = [w.view] ∧ c'.recv.curOffset = (3 : Nat) ∧ 0 < c'.recv.curSize ∧
      load c'.mem c'.recv.buf 3 = w.encode.take 3 := by
  intro g w handle c rs
  have accepts : ∀ m msg s, (handle m msg s).1 = true := fun _ _ _ => rfl
  have frame : ∀ m msg s (x : Int),
      (x < msg.addr ∨ msg.addr + (msg.getHeader m).length.toNat ≤ x) →
        (handle m msg s).2.1 x = m x := fun _ _ _ _ _ => rfl
  have fits : ∀ v ∈ [w] ++ [w], (v.size : Int) ≤ g.msMaxSize := by
    intro v hv
    obtain rfl : v = w := by simpa using hv
    decide
  have hsize : w.size = 15 := rfl
  have admits : ∀ r ∈ rs, g.Admits r := by
    intro r hr
    simp only [rs, List.mem_cons, List.not_mem_nil, or_false] at hr
    rcases hr with rfl | rfl | rfl
    all_goals
      apply Arena.admits_plain
      left
      simp [hsize]
      decide
  have hstream : (rs.map fun r => r.bytes.flatten).flatten =
      encodeAll [w] ++ w.encode.take 3 := by
    simp only [rs, plainDelivery, List.map_cons, List.map_nil, List.flatten_cons, List.flatten_nil,
      List.append_nil, encodeAll_cons, encodeAll_nil]
    rw [← List.append_assoc, List.take_append_drop]
  obtain ⟨c', hr, hlog, hoff, hpos, -, hdata, -⟩ :=
    buffered_framing g accepts frame fits (show 3 < w.size by decide) admits hstream (c := c) rfl rfl
  exact ⟨c', hr, hlog, hoff, hpos, hdata⟩

end Sockperf
