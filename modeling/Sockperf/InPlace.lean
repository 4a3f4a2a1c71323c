import Sockperf.ParserCalls

/-!
# Framing in place

A read stores its bytes behind the pending ones, so an incomplete message stays where it was read
and may lie anywhere in the first half of the receive buffer. The next read is as large as the rest
of this half, or what is missing of the header or of the message.
-/

namespace Sockperf

open Memory While
set_option autoImplicit false

universe u
variable {σ : Type u}

/-- A receive buffer of `2 * maxSize` bytes at `base`, and the limit on messages. -/
structure Window where
  base : Int
  maxSize : Int
  msMaxSize : Int
  header_le : 14 ≤ maxSize
  le_msMaxSize : maxSize ≤ msMaxSize
  msMaxSize_le : msMaxSize ≤ maxSize + 1
  lt_int : msMaxSize < 2 ^ 31

namespace Window

theorem nonneg (g : Window) : 0 ≤ g.msMaxSize := by
  have := g.header_le
  have := g.le_msMaxSize
  omega

section Sizes
variable (g : Window) {addr size : Int} {w : WireMessage} {p k : Nat}

/-- The size of the next read while `p` bytes of `w` wait at `addr`. -/
def Room (addr size : Int) (w : WireMessage) (p : Nat) : Prop :=
  (g.base ≤ addr ∧ addr < g.base + g.maxSize) ∧
    ((p < 14 ∧ 14 ≤ size ∧ addr + p + size ≤ g.base + g.maxSize) ∨ (p < 14 ∧ size = 14 - p) ∨
      (14 ≤ p ∧ size = w.size - p))

/-- A message that begins in the receive buffer is read within its first half. -/
def Start : AccumulationStrategy → Int → Int → Prop
  | .buffer, _, size => size ≤ g.maxSize
  | .inPlace, addr, size => g.base ≤ addr ∧ addr + size ≤ g.base + g.maxSize

variable {g}

theorem Room.inside (h : g.Room addr size w p) (hw : (w.size : Int) ≤ g.msMaxSize) :
    g.base ≤ addr ∧ addr + p + size ≤ g.base + 2 * g.maxSize := by
  have h1 := g.header_le
  have h2 := g.msMaxSize_le
  obtain ⟨haddr, hsize⟩ := h
  refine ⟨haddr.1, ?_⟩
  rcases hsize with h | h | h <;> omega

theorem Room.keep (h : g.Room addr size w p) (hw : (w.size : Int) ≤ g.msMaxSize) (hk : 0 < k)
    (hle : k ≤ size) : g.Room addr (keptSize g.msMaxSize size w p k) w (p + k) := by
  have h1 := g.header_le
  have h2 := g.le_msMaxSize
  obtain ⟨haddr, hsize⟩ := h
  refine ⟨haddr, ?_⟩
  unfold keptSize
  rcases hsize with h | h | h <;> split <;> split <;> omega

theorem Room.start (haddr : g.base ≤ addr ∧ addr < g.base + g.maxSize)
    (hsize : addr + size ≤ g.base + g.maxSize) (hk : 0 < k) :
    g.Room addr (keptSize g.msMaxSize size w 0 k) w k := by
  have h1 := g.header_le
  have h2 := g.le_msMaxSize
  refine ⟨haddr, ?_⟩
  unfold keptSize
  rw [Nat.zero_add]
  split <;> split <;> omega

theorem Room.next {S : AccumulationStrategy} {x : Int} (h : g.Room addr size w p)
    (hle : k ≤ size) (hmore : w.size < p + k) (hx : S = .inPlace → x = addr + w.size) :
    g.Start S x (size - (w.size - p)) := by
  have hw := w.size_eq
  obtain ⟨haddr, hsize⟩ := h
  have hend : addr + p + size ≤ g.base + g.maxSize := by
    rcases hsize with h | h | h <;> omega
  cases S with
  | buffer =>
    unfold Start
    omega
  | inPlace =>
    obtain rfl := hx rfl
    exact ⟨by omega, by omega⟩

end Sizes

def layout (g : Window) : Layout where
  base := g.base
  cap := 2 * g.maxSize
  maxSize := g.maxSize
  msMaxSize := g.msMaxSize
  Serves _ := True
  Room := g.Room
  Start := g.Start
  nonneg := g.nonneg
  lt_int := g.lt_int
  start_fresh _ := le_rfl
  room_pos h hlt := by rcases h.2 with h | h | h <;> omega
  room_inside h hw _ := h.inside hw
  room_keep h hw hk hle _ := h.keep hw hk hle
  room_next _ h hle hmore hx := h.next hle hmore hx
  start_copied h _ hk _ := by
    have := g.header_le
    exact .start ⟨le_rfl, by omega⟩ (by unfold Start at h; omega) hk
  start_kept h _ hk _ hle := .start ⟨h.1, by have := h.2; omega⟩ h.2 hk
  start_next {S _ _ _ _} h hlt hle := by
    cases S with
    | buffer =>
      unfold Start at h ⊢
      omega
    | inPlace =>
      have hle := hle rfl
      exact ⟨by have := h.1; omega, by have := h.2; omega⟩

def Outside (g : Window) (x : Int) : Prop := x < g.base ∨ g.base + 2 * g.maxSize ≤ x

section Stream
variable (g : Window) (P : List MessageView → σ → Prop) (all : List WireMessage)
variable (future : List UInt8)

/-- Between two reads, with `d` delivered, `r` to come and `p` bytes pending; no assertion has
failed. -/
structure RestAt (d r : List WireMessage) (p : Nat) (c : Ctx σ) : Prop extends
    g.layout.RestAt P all future g.base d r p c where
  asserts : c.asserts = true

/-- Between two reads of the stream `all`: the callback knows the delivered messages, and the
bytes not yet read are `future`. -/
def Between (c : Ctx σ) : Prop := ∃ d r p, g.RestAt P all future d r p c

end Stream

variable {g : Window} {c : Ctx σ} {P : List MessageView → σ → Prop} {all : List WireMessage}
  {future : List UInt8}

theorem rest_window {r : List WireMessage} {p : Nat} (h : g.layout.Rest c g.base r p) :
    g.base ≤ c.recv.curAddr ∧ 0 < c.recv.curSize ∧
      c.recv.curAddr + c.recv.curOffset + c.recv.curSize ≤ g.base + 2 * g.maxSize := by
  have h1 := g.header_le
  cases h with
  | idle _ hoff hsize haddr =>
    have hsize : c.recv.curSize = g.maxSize := hsize
    omega
  | held held =>
    rw [held.offset]
    exact held.window

theorem rest_start {r : List WireMessage} {p : Nat} (h : g.layout.Rest c g.base r p)
    (hoff : c.recv.curOffset = 0) : g.Start .inPlace c.recv.curAddr g.maxSize := by
  cases h with
  | idle _ _ _ haddr => exact ⟨haddr.ge, by omega⟩
  | held held =>
    have := held.pos
    have := held.offset
    omega

section Reads
variable {handle : Callback σ} {Q : σ → Prop} (fits : ∀ w ∈ all, (w.size : Int) ≤ g.msMaxSize)
include fits

/-- A read of the next bytes of the stream is processed completely, unless the callback rejects a
message. -/
theorem recvFrom_rest (cb : CallbackOk g.msMaxSize handle (all.map WireMessage.view) P Q)
    {bs : List UInt8} {d r : List WireMessage} {p : Nat}
    (h : g.layout.RestAt P all (bs ++ future) g.base d r p c) (hle : bs.length ≤ c.recv.curSize) :
    ∃ ok c', RecvFrom g.msMaxSize handle c bs ok c' ∧
      (ok = true → g.layout.Between P all future g.base c' ∧ c'.asserts = c.asserts ∧
        ∀ x, g.Outside x → c'.mem x = c.mem x) ∧ (ok = false → Q c'.state) := by
  have hwindow := rest_window h.rest
  have hoff := h.rest.offset
  obtain ⟨ok, c', hr, htrue, hfalse⟩ := Layout.Between.recvFrom (g := g.layout) trivial fits cb
    ⟨d, r, p, h⟩ hle (rest_start h.rest)
  refine ⟨ok, c', hr, fun hok => ?_, hfalse⟩
  obtain ⟨h', hframe⟩ := htrue hok
  refine ⟨h', hframe.asserts, fun x hx => ?_⟩
  unfold Outside at hx
  rw [hframe.mem x ⟨hx, by omega⟩]
  apply store_outside
  omega

theorem Between.recvFrom (cb : CallbackOk g.msMaxSize handle (all.map WireMessage.view) P Q)
    (bs : List UInt8) (h : g.Between P all (bs ++ future) c) (hle : bs.length ≤ c.recv.curSize) :
    ∃ ok c', RecvFrom g.msMaxSize handle c bs ok c' ∧
      (ok = true → g.Between P all future c' ∧ ∀ x, g.Outside x → c'.mem x = c.mem x) ∧
      (ok = false → Q c'.state) := by
  obtain ⟨d, r, p, h⟩ := h
  obtain ⟨ok, c', hr, htrue, hfalse⟩ := recvFrom_rest fits cb h.toRestAt hle
  refine ⟨ok, c', hr, fun hok => ?_, hfalse⟩
  obtain ⟨⟨d', r', p', h'⟩, hasserts, hmem⟩ := htrue hok
  exact ⟨⟨d', r', p', h', hasserts.trans h.asserts⟩, hmem⟩

variable (cb : CallbackOk g.msMaxSize handle (all.map WireMessage.view) P fun _ => False)
include cb

theorem Between.recvFrom_true (bs : List UInt8) (h : g.Between P all (bs ++ future) c)
    (hle : bs.length ≤ c.recv.curSize) :
    ∃ c', RecvFrom g.msMaxSize handle c bs true c' ∧ g.Between P all future c' ∧
      ∀ x, g.Outside x → c'.mem x = c.mem x := by
  obtain ⟨ok, c', hr, htrue, hrej⟩ := Between.recvFrom fits cb bs h hle
  cases ok with
  | false => exact absurd (hrej rfl) id
  | true => exact ⟨c', hr, htrue rfl⟩

/-- By induction on the reads: all of them are processed. -/
theorem Between.reads {reads : List (List UInt8)} (h : g.Between P all (reads.flatten ++ future) c)
    (hfits : Fits g.msMaxSize handle c reads) :
    ∃ c', Reads g.msMaxSize handle c reads c' ∧ g.Between P all future c' := by
  induction reads generalizing c with
  | nil => exact ⟨c, Reads.nil c, by simpa using h⟩
  | cons bs rest ih =>
    obtain ⟨hpos, hle, htail⟩ := hfits
    rw [List.flatten_cons, List.append_assoc] at h
    obtain ⟨c', hc, h', -⟩ := Between.recvFrom_true fits cb bs h hle
    obtain ⟨c'', hr, h''⟩ := ih h' (htail true c' hc)
    exact ⟨c'', Reads.cons hc hr, h''⟩

theorem Between.fits_bytes (bs : List UInt8) (h : g.Between P all (bs ++ future) c) :
    Fits g.msMaxSize handle c (bs.map fun b => [b]) := by
  induction bs generalizing c with
  | nil => trivial
  | cons b bs ih =>
    have hsize : 0 < c.recv.curSize := by
      obtain ⟨_, _, _, hat⟩ := h
      exact (rest_window hat.rest).2.1
    have hle : (([b] : List UInt8).length : Int) ≤ c.recv.curSize := by
      simp only [List.length_singleton]
      omega
    obtain ⟨c', hc, h', -⟩ := Between.recvFrom_true fits cb [b] h hle
    refine ⟨by simp, hle, fun ok c'' hc'' => ?_⟩
    cases hc.unique hc''
    exact ih h'

end Reads

theorem Between.imp {P' : List MessageView → σ → Prop} (h : g.Between P all future c)
    (hP : ∀ vs, P vs c.state → P' vs c.state) : g.Between P' all future c := by
  obtain ⟨d, r, p, h⟩ := h
  exact ⟨d, r, p, h.imp (hP _ h.state), h.asserts⟩

/-- The state of a socket is its receive data and the contents of its receive buffer. -/
theorem Between.congr {b : Ctx σ} (h : g.Between P all future c) (hrecv : b.recv = c.recv)
    (hasserts : b.asserts = c.asserts) (hstate : ∀ vs, P vs c.state → P vs b.state)
    (hm : Agree c.mem b.mem g.base (g.base + 2 * g.maxSize)) : g.Between P all future b := by
  obtain ⟨d, r, p, h⟩ := h
  exact ⟨d, r, p, h.congr hrecv hstate fun x h1 h2 _ => (hm x h1 h2).symm,
    hasserts.trans h.asserts⟩

theorem Between.all_read (h : g.Between P all [] c) :
    P (all.map WireMessage.view) c.state ∧ c.recv = freshRecv g.base g.maxSize ∧
      c.asserts = true := by
  obtain ⟨d, r, p, h⟩ := h
  obtain ⟨rfl, hrecv⟩ := h.all_read
  exact ⟨h.state, hrecv, h.asserts⟩

theorem fresh_between (P : List MessageView → σ → Prop) (all : List WireMessage)
    (hrecv : c.recv = freshRecv g.base g.maxSize) (hasserts : c.asserts = true)
    (h : P [] c.state) : g.Between P all (encodeAll all) c :=
  ⟨[], all, 0, Layout.fresh_restAt P all hrecv h, hasserts⟩

/-- A stream read by a fresh socket: the complete messages are delivered, the rest is pending. -/
theorem fresh_reads {handle : Callback σ} {ws : List WireMessage} {next : WireMessage} {k : Nat}
    (cb : CallbackOk g.msMaxSize handle ((ws ++ [next]).map WireMessage.view) P fun _ => False)
    (fits : ∀ w ∈ ws ++ [next], (w.size : Int) ≤ g.msMaxSize) (hk : k < next.size)
    {reads : List (List UInt8)} (hstream : reads.flatten = encodeAll ws ++ next.encode.take k)
    (hrecv : c.recv = freshRecv g.base g.maxSize) (hasserts : c.asserts = true)
    (h : P [] c.state) (hfits : Fits g.msMaxSize handle c reads) :
    ∃ c', Reads g.msMaxSize handle c reads c' ∧ P (ws.map WireMessage.view) c'.state ∧
      g.layout.Rest c' g.base [next] k ∧ c'.asserts = true := by
  have hstart : g.Between P (ws ++ [next]) (reads.flatten ++ next.encode.drop k) c := by
    have h := fresh_between P (ws ++ [next]) hrecv hasserts h
    rw [hstream, List.append_assoc, List.take_append_drop]
    rwa [encodeAll_append, encodeAll_cons, encodeAll_nil, List.append_nil] at h
  obtain ⟨c', hr, d, r, p, hat⟩ := hstart.reads fits cb hfits
  obtain ⟨rfl, rfl⟩ := split_unique hat.rest.partOf hat.all_eq hk hat.future_eq
  obtain rfl : [next] = r := List.append_cancel_left hat.all_eq
  exact ⟨c', hr, hat.state, hat.rest, hat.asserts⟩

end Window

/-- However a stream of messages is cut into reads, each complete message reaches the callback
once, in order, with its header in host order and its exact body; an incomplete last message is
left pending, inside the buffer, and no assertion fails. -/
theorem inPlace_framing (g : Window) {handle : Callback σ}
    (accepts : ∀ m msg s, (handle m msg s).1 = true)
    (frame : ∀ m msg s (x : Int), (x < msg.addr ∨ msg.addr + (msg.getHeader m).length.toNat ≤ x) →
      (handle m msg s).2.1 x = m x)
    {ws : List WireMessage} {next : WireMessage} {k : Nat}
    (fits : ∀ w ∈ ws ++ [next], (w.size : Int) ≤ g.msMaxSize) (hk : k < next.size)
    {reads : List (List UInt8)} (hstream : reads.flatten = encodeAll ws ++ next.encode.take k)
    {c : Ctx (σ × List MessageView)} (hrecv : c.recv = freshRecv g.base g.maxSize)
    (hlog : c.state.2 = []) (hasserts : c.asserts = true)
    (hfits : Fits g.msMaxSize (logging g.msMaxSize handle) c reads) :
    ∃ c', Reads g.msMaxSize (logging g.msMaxSize handle) c reads c' ∧
      c'.state.2 = ws.map WireMessage.view ∧ c'.recv.curOffset = k ∧ 0 < c'.recv.curSize ∧
      g.base ≤ c'.recv.curAddr ∧
      c'.recv.curAddr + c'.recv.curOffset + c'.recv.curSize ≤ g.base + 2 * g.maxSize ∧
      c'.asserts = true := by
  obtain ⟨c', hr, hlog', hrest, hasserts'⟩ := Window.fresh_reads (logging_ok accepts frame _) fits
    hk hstream hrecv hasserts hlog hfits
  obtain ⟨hlow, hsize, hhigh⟩ := Window.rest_window hrest
  exact ⟨c', hr, hlog', hrest.offset, hsize, hlow, hhigh, hasserts'⟩

/-- A message of 15 bytes followed by the first 3 bytes of another one, read byte by byte. -/
theorem inPlace_framing_bytes :
    let g : Window := ⟨1000, 20, 20, by decide, by decide, by decide, by decide⟩
    let w : WireMessage := ⟨⟨7, 3, 15⟩, [42], by decide⟩
    let handle : Callback Unit := fun m _ s => (true, m, s)
    let c : Ctx (Unit × List MessageView) :=
      ⟨fun _ => 0, freshRecv 1000 20, ⟨0⟩, ((), []), true⟩
    let reads := (w.encode ++ w.encode.take 3).map fun b => [b]
    ∃ c', Reads g.msMaxSize (logging g.msMaxSize handle) c reads c' ∧
      c'.state.2 = [w.view] ∧ c'.recv.curOffset = (3 : Nat) ∧ 0 < c'.recv.curSize ∧
      g.base ≤ c'.recv.curAddr ∧
      c'.recv.curAddr + c'.recv.curOffset + c'.recv.curSize ≤ g.base + 2 * g.maxSize ∧
      c'.asserts = true := by
  intro g w handle c reads
  have accepts : ∀ m msg s, (handle m msg s).1 = true := fun _ _ _ => rfl
  have frame : ∀ m msg s (x : Int),
      (x < msg.addr ∨ msg.addr + (msg.getHeader m).length.toNat ≤ x) →
        (handle m msg s).2.1 x = m x := fun _ _ _ _ _ => rfl
  have fits : ∀ v ∈ [w] ++ [w], (v.size : Int) ≤ g.msMaxSize := by
    intro v hv
    obtain rfl : v = w := by simpa using hv
    decide
  have hfits : Fits g.msMaxSize (logging g.msMaxSize handle) c reads := by
    have h : g.Between (fun vs s => s.2 = vs) ([w] ++ [w])
        ((w.encode ++ w.encode.take 3) ++ w.encode.drop 3) c := by
      rw [List.append_assoc, List.take_append_drop]
      exact Window.fresh_between _ [w, w] rfl rfl rfl
    exact h.fits_bytes fits (logging_ok accepts frame _)
  exact inPlace_framing g accepts frame fits (by decide) (by decide) rfl rfl rfl hfits

end Sockperf
