import Sockperf.Buffered

/-!
# Packets and plain receives on one receive context

With a receive filter the callback processes packets with `BufferAccumulation`, and what it does not
take is read by `RecvFromInputHandler` with `InPlaceAccumulation`. Both strategies go on with what
the other left behind: a pending message may lie anywhere in the first half of the receive buffer.
Only without one they disagree on `cur_addr`.
-/

namespace Sockperf

open Memory While
set_option autoImplicit false

universe u
variable {σ : Type u}

/-- A handler that accepts every message of a valid size and writes to the message only. -/
structure Harmless (msMaxSize : Int) (handle : Callback σ) : Prop where
  accepts : ∀ m msg s, msg.isValidHeader msMaxSize m = true → (handle m msg s).1 = true
  frame : ∀ m msg s (x : Int), msg.isValidHeader msMaxSize m = true →
    (x < msg.addr ∨ msg.addr + (msg.getHeader m).length.toNat ≤ x) → (handle m msg s).2.1 x = m x

theorem Harmless.callback {msMaxSize : Int} {handle : Callback σ} (h : Harmless msMaxSize handle)
    (E : List MessageView) :
    CallbackOk msMaxSize handle E (fun _ _ => True) fun _ => False where
  frame _ _ _ _ x _ hv _ hx := h.frame _ _ _ x hv hx
  tracks _ _ _ _ _ _ _ _ := trivial
  rejects _ s m msg _ hv _ hfalse := absurd ((h.accepts m msg s hv).symm.trans hfalse) nofun

namespace Handover

/-- What comes next for a socket. Before it the library may have written to its own memory. -/
inductive Event where
  /-- a packet for the receive filter callback -/
  | packet (iov : List LibBuffer) (data : List (List UInt8)) (memory : Mem → Mem)
  /-- a plain receive -/
  | receive (data : List UInt8) (memory : Mem → Mem)

namespace Event

def bytes : Event → List UInt8
  | packet _ data _ => data.flatten
  | receive data _ => data

/-- The buffers do not overlap and hold the data; the receive buffer is not touched. -/
def Admitted (g : Window) : Event → Prop
  | packet iov data memory => iov.Pairwise LibBuffer.Disjoint ∧
      (∀ m, Agree m (memory m) g.base (g.base + 2 * g.maxSize)) ∧
      ∀ m, List.Forall₂ (g.layout.Holds (memory m)) iov data
  | receive _ memory => ∀ m, Agree m (memory m) g.base (g.base + 2 * g.maxSize)

/-- The callback with its handler, or `receive_pending_data` and `iterate_over_buffers` with
theirs. -/
def Runs (msMaxSize : Int) (callback handle : Callback σ) (c : Ctx σ) : Event → Ctx σ → Prop
  | packet iov _ memory, c' =>
    ∃ fuel, processBuffers msMaxSize callback fuel { c with mem := memory c.mem } iov =
      some (true, c')
  | receive data memory, c' =>
    RecvFrom msMaxSize handle { c with mem := memory c.mem } data true c'

theorem Runs.unique {msMaxSize : Int} {callback handle : Callback σ} {c c' c'' : Ctx σ} {ev : Event}
    (h : ev.Runs msMaxSize callback handle c c') (h' : ev.Runs msMaxSize callback handle c c'') :
    c' = c'' := by
  cases ev with
  | packet => exact (Prod.mk.inj (processBuffers_unique h h')).2
  | receive => exact (Prod.mk.inj (Returns.unique h h')).2

end Event

/-- The place a plain receive stores its bytes at, with room for all it asks for. -/
structure InsideBuffer (g : Window) (recv : SocketRecvData) : Prop where
  low : g.base ≤ recv.curAddr + recv.curOffset
  high : recv.curAddr + recv.curOffset + recv.curSize ≤ g.base + 2 * g.maxSize

section Interleaving
variable (g : Window) (callback handle : Callback σ)

/-- Every receive finds some bytes and not more than it asks for. -/
def Sized : Ctx σ → List Event → Prop
  | _, [] => True
  | c, ev :: rest =>
    (match ev with
      | .packet _ _ _ => True
      | .receive data _ => 1 ≤ data.length ∧ data.length ≤ c.recv.curSize) ∧
    ∀ c', ev.Runs g.msMaxSize callback handle c c' → Sized c' rest

/-- Everything is processed, and every receive is made inside the receive buffer. -/
def AllInside : Ctx σ → List Event → Prop
  | _, [] => True
  | c, ev :: rest =>
    (match ev with
      | .packet _ _ _ => True
      | .receive _ _ => InsideBuffer g c.recv) ∧
    ∃ c', ev.Runs g.msMaxSize callback handle c c' ∧ AllInside c' rest

end Interleaving

/-- The bytes of an incomplete message at a position of the stream. -/
def pendingAt : List WireMessage → Nat → Nat
  | [], k => k
  | w :: ws, k => if k < w.size then k else pendingAt ws (k - w.size)

/-- A receive is made where the callback left the stream between two messages, and `cur_addr` behind
a buffer that does not end just before the receive buffer. -/
def HandedOver (base : Int) (all : List WireMessage) : Nat → Int → List Event → Prop
  | _, _, [] => False
  | k, e, .packet iov data _ :: rest =>
    HandedOver base all (k + data.flatten.length) (Layout.lastEnd e iov) rest
  | k, e, .receive data _ :: rest =>
    pendingAt all k = 0 ∧ e ≠ base ∨ HandedOver base all (k + data.length) base rest

section Interleavings
variable {g : Window} {callback handle : Callback σ} {c : Ctx σ} {all : List WireMessage} {k : Nat}
  {e : Int} {P : List MessageView → σ → Prop}

theorem pendingAt_append {d r : List WireMessage} {p : Nat} (hp : PartOf r p) :
    pendingAt (d ++ r) ((encodeAll d).length + p) = p := by
  induction d with
  | nil =>
    rw [List.nil_append, encodeAll_nil, List.length_nil, Nat.zero_add]
    cases r with
    | nil => rfl
    | cons w rest => exact if_pos hp
  | cons w d ih =>
    rw [List.cons_append, pendingAt, encodeAll_cons, List.length_append,
      WireMessage.encode_length, if_neg (by omega), Nat.add_assoc, Nat.add_sub_cancel_left, ih]

/-- Between two calls, `k` bytes into the stream. -/
structure Between (g : Window) (P : List MessageView → σ → Prop) (all : List WireMessage) (k : Nat)
    (e : Int) (c : Ctx σ) : Prop where
  le : k ≤ (encodeAll all).length
  between : g.layout.Between P all ((encodeAll all).drop k) e c

theorem Between.rest (h : Between g P all k e c) :
    ∃ r, g.layout.Rest c e r (pendingAt all k) := by
  obtain ⟨hle, d, r, p, hat⟩ := h
  have hpos := position_eq (d := d) hat.rest.partOf hat.future_eq
  rw [← hat.all_eq, List.length_drop] at hpos
  have hk : k = (encodeAll d).length + p := by omega
  have hp : pendingAt all k = p := by
    rw [hat.all_eq, hk]
    exact pendingAt_append hat.rest.partOf
  exact ⟨r, hp ▸ hat.rest⟩

/-- The end of a buffer apart from the receive buffer. -/
def Away (g : Window) (e : Int) : Prop := e ≤ g.base ∨ g.base + 2 * g.maxSize ≤ e

theorem lastEnd_away {m : Mem} {iov : List LibBuffer} {data : List (List UInt8)} (he : Away g e)
    (holds : List.Forall₂ (g.layout.Holds m) iov data) : Away g (Layout.lastEnd e iov) := by
  induction holds generalizing e with
  | nil => exact he
  | @cons b bs iov data hb _ ih =>
    apply ih
    have hlen := hb.len
    rcases hb.apart with ha | ha
    · exact Or.inl ha
    · have ha : g.base + 2 * g.maxSize ≤ b.addr := ha
      right
      dsimp only
      omega

theorem Between.idle (h : Between g P all k e c) (hk : pendingAt all k = 0) :
    c.recv.curOffset = 0 ∧ c.recv.curAddr = e ∧ c.recv.curSize = g.maxSize := by
  obtain ⟨r, rest⟩ := h.rest
  rw [hk] at rest
  cases rest with
  | idle _ hoff hsize haddr => exact ⟨hoff, haddr, hsize⟩
  | held held => exact absurd held.pos (lt_irrefl 0)

theorem Between.held (h : Between g P all k e c) (hk : pendingAt all k ≠ 0) :
    ∃ w, g.layout.Held c w (pendingAt all k) := by
  obtain ⟨r, rest⟩ := h.rest
  generalize pendingAt all k = p at rest hk
  cases rest with
  | idle => exact absurd rfl hk
  | held held => exact ⟨_, held⟩

/-- The next receive is made inside the receive buffer exactly if a message is pending or `cur_addr`
is its start. -/
theorem Between.inside_iff (he : Away g e) (h : Between g P all k e c) :
    InsideBuffer g c.recv ↔ ¬ (pendingAt all k = 0 ∧ e ≠ g.base) := by
  have h1 := g.header_le
  by_cases hk : pendingAt all k = 0
  · obtain ⟨hoff, haddr, hsize⟩ := h.idle hk
    constructor
    · rintro ⟨hlow, hhigh⟩ ⟨-, hne⟩
      rcases he with he | he <;> omega
    · intro hno
      have hbase : e = g.base := by
        by_contra hne
        exact hno ⟨hk, hne⟩
      exact ⟨by omega, by omega⟩
  · obtain ⟨w, held⟩ := h.held hk
    obtain ⟨hlow, -, hhigh⟩ : g.base ≤ c.recv.curAddr ∧ 0 < c.recv.curSize ∧
      c.recv.curAddr + pendingAt all k + c.recv.curSize ≤ g.base + 2 * g.maxSize := held.window
    have hoff := held.offset
    exact iff_of_true ⟨by omega, by omega⟩ fun hno => hk hno.1

theorem Between.starts (he : Away g e) (h : Between g P all k e c)
    (hinside : InsideBuffer g c.recv) (hoff : c.recv.curOffset = 0) :
    g.Start .inPlace c.recv.curAddr g.maxSize := by
  by_cases hk : pendingAt all k = 0
  · obtain ⟨-, haddr, -⟩ := h.idle hk
    have hbase : e = g.base := by
      by_contra hne
      exact (h.inside_iff he).mp hinside ⟨hk, hne⟩
    exact ⟨by omega, by omega⟩
  · obtain ⟨w, held⟩ := h.held hk
    have hpos := held.pos
    have := held.offset
    omega

theorem Between.behind {data future : List UInt8} (h : Between g P all k e c)
    (hstream : (encodeAll all).drop k = data ++ future) :
    k + data.length ≤ (encodeAll all).length ∧
      (encodeAll all).drop (k + data.length) = future := by
  have hle := h.le
  have hlen := congrArg List.length hstream
  rw [List.length_drop, List.length_append] at hlen
  refine ⟨by omega, ?_⟩
  rw [← List.drop_drop, hstream, List.drop_left' rfl]

theorem Between.packet (fits : ∀ w ∈ all, (w.size : Int) ≤ g.msMaxSize)
    (cb : CallbackOk g.msMaxSize callback (all.map WireMessage.view) P fun _ => False)
    {iov : List LibBuffer} {data : List (List UInt8)} {memory : Mem → Mem} {future : List UInt8}
    (admitted : (Event.packet iov data memory).Admitted g) (h : Between g P all k e c)
    (hstream : (encodeAll all).drop k = data.flatten ++ future) :
    ∃ c', (Event.packet iov data memory).Runs g.msMaxSize callback handle c c' ∧
      Between g P all (k + data.flatten.length) (Layout.lastEnd e iov) c' := by
  obtain ⟨hdisjoint, hkeeps, hholds⟩ := admitted
  obtain ⟨hle, hfuture⟩ := h.behind hstream
  have henv := h.between.env (hkeeps c.mem)
  rw [hstream] at henv
  obtain ⟨c', hc', h', -⟩ := henv.processBuffers trivial fits cb hdisjoint (hholds c.mem)
  exact ⟨c', hc', hle, hfuture.symm ▸ h'⟩

theorem Between.receive (fits : ∀ w ∈ all, (w.size : Int) ≤ g.msMaxSize)
    (cb : CallbackOk g.msMaxSize handle (all.map WireMessage.view) P fun _ => False)
    {data future : List UInt8} {memory : Mem → Mem}
    (admitted : (Event.receive data memory).Admitted g) (h : Between g P all k e c)
    (hstream : (encodeAll all).drop k = data ++ future) (hle : data.length ≤ c.recv.curSize)
    (hstart : c.recv.curOffset = 0 → g.Start .inPlace c.recv.curAddr g.maxSize) :
    ∃ c', (Event.receive data memory).Runs g.msMaxSize callback handle c c' ∧
      Between g P all (k + data.length) g.base c' := by
  obtain ⟨hle', hfuture⟩ := h.behind hstream
  have henv := h.between.env (admitted c.mem)
  rw [hstream] at henv
  obtain ⟨ok, c', hc', htrue, hfalse⟩ :=
    Layout.Between.recvFrom (g := g.layout) trivial fits cb henv hle hstart
  cases ok with
  | false => exact absurd (hfalse rfl) id
  | true => exact ⟨c', hc', hle', hfuture.symm ▸ (htrue rfl).1⟩

theorem Between.allInside_iff (hcallback : Harmless g.msMaxSize callback)
    (hhandle : Harmless g.msMaxSize handle) (fits : ∀ w ∈ all, (w.size : Int) ≤ g.msMaxSize)
    {events : List Event} {future : List UInt8} (admitted : ∀ ev ∈ events, ev.Admitted g)
    (he : Away g e) (h : Between g (fun _ _ => True) all k e c)
    (hstream : (encodeAll all).drop k = events.flatMap Event.bytes ++ future)
    (hsized : Sized g callback handle c events) :
    AllInside g callback handle c events ↔ ¬ HandedOver g.base all k e events := by
  induction events generalizing c k e with
  | nil => exact iff_of_true trivial id
  | cons ev rest ih =>
    obtain ⟨hev, hrest⟩ := List.forall_mem_cons.mp admitted
    rw [List.flatMap_cons, List.append_assoc] at hstream
    have hnext : (encodeAll all).drop (k + ev.bytes.length) =
        rest.flatMap Event.bytes ++ future := by
      rw [← List.drop_drop, hstream, List.drop_left' rfl]
    obtain ⟨hsize, hsized'⟩ := hsized
    cases ev with
    | packet iov data memory =>
      obtain ⟨c', hc', h'⟩ : ∃ c', (Event.packet iov data memory).Runs g.msMaxSize callback handle c
          c' ∧ Between g (fun _ _ => True) all (k + data.flatten.length) (Layout.lastEnd e iov) c' :=
        h.packet fits (hcallback.callback _) hev hstream
      have haway := lastEnd_away he (hev.2.2 c.mem)
      have hiff := ih hrest haway h' hnext (hsized' c' hc')
      rw [AllInside, HandedOver, ← hiff]
      constructor
      · rintro ⟨-, c'', hc'', hinside⟩
        rwa [hc'.unique hc'']
      · intro hinside
        exact ⟨trivial, c', hc', hinside⟩
    | receive data memory =>
      rw [AllInside, HandedOver, not_or, ← h.inside_iff he]
      refine and_congr_right fun hinside => ?_
      obtain ⟨c', hc', h'⟩ : ∃ c',
          (Event.receive data memory).Runs g.msMaxSize callback handle c c' ∧
          Between g (fun _ _ => True) all (k + data.length) g.base c' :=
        h.receive fits (hhandle.callback _) hev hstream hsize.2 (h.starts he hinside)
      have hiff := ih hrest (Or.inl le_rfl) h' hnext (hsized' c' hc')
      rw [← hiff]
      constructor
      · rintro ⟨c'', hc'', hall⟩
        rwa [hc'.unique hc'']
      · intro hall
        exact ⟨c', hc', hall⟩

theorem fresh_between (all : List WireMessage) (hrecv : c.recv = freshRecv g.base g.maxSize) :
    Between g (fun _ _ => True) all 0 g.base c :=
  ⟨Nat.zero_le _, [], all, 0, Layout.fresh_restAt _ all hrecv trivial⟩

end Interleavings

end Handover

open Handover in
/-- Packets for the callback and plain receives in any order, with a stream of messages that is cut
anywhere: every receive is made inside the receive buffer exactly if none is made where the callback
left the stream between two messages. -/
theorem receive_windows_iff (g : Window) {callback handle : Callback σ}
    (hcallback : Harmless g.msMaxSize callback) (hhandle : Harmless g.msMaxSize handle)
    {all : List WireMessage} (fits : ∀ w ∈ all, (w.size : Int) ≤ g.msMaxSize) {c : Ctx σ}
    (hrecv : c.recv = freshRecv g.base g.maxSize) {events : List Event} {future : List UInt8}
    (admitted : ∀ ev ∈ events, ev.Admitted g)
    (hstream : encodeAll all = events.flatMap Event.bytes ++ future)
    (hsized : Sized g callback handle c events) :
    AllInside g callback handle c events ↔ ¬ HandedOver g.base all 0 g.base events :=
  (fresh_between all hrecv).allInside_iff hcallback hhandle fits admitted (Or.inl le_rfl) hstream
    hsized

namespace Handover

theorem header_fits : (14 : Int) ≤ 65507 := by decide

/-- The server with its default sizes. -/
def serverWindow : Window := ⟨0, 65507, 65508, header_fits, by decide, by decide, by decide⟩

def serverCtx : Ctx Unit := ⟨fun _ => 0, freshRecv 0 65507, ⟨0⟩, (), true⟩

def shortMessage : WireMessage := ⟨⟨7, 1, 14⟩, [], by decide⟩

def acceptAll : Callback Unit := fun m _ s => (true, m, s)

theorem acceptAll_harmless (msMaxSize : Int) : Harmless msMaxSize acceptAll :=
  ⟨fun _ _ _ _ => rfl, fun _ _ _ _ _ _ => rfl⟩

theorem shortMessage_fits : ∀ w ∈ [shortMessage], (w.size : Int) ≤ serverWindow.msMaxSize := by
  intro w hw
  rw [List.mem_singleton.mp hw]
  decide

/-- A packet of one buffer behind the receive buffer. -/
def packetOf (data : List UInt8) : Event :=
  .packet [⟨200000, data.length⟩] [data] fun m => store m 200000 data

theorem packetOf_admitted (data : List UInt8) : (packetOf data).Admitted serverWindow := by
  have hcap : serverWindow.base + 2 * serverWindow.maxSize ≤ 200000 := by decide
  refine ⟨List.pairwise_singleton _ _, fun m => ?_, fun m => ?_⟩
  · exact (agree_store (Or.inl hcap)).symm
  · exact .cons ⟨rfl, Or.inr hcap, load_store_same⟩ .nil

theorem after_packet {all : List WireMessage} (data future : List UInt8)
    (fits : ∀ w ∈ all, (w.size : Int) ≤ serverWindow.msMaxSize)
    (hstream : encodeAll all = data ++ future) :
    ∃ c', (packetOf data).Runs 65508 acceptAll acceptAll serverCtx c' ∧
      Between serverWindow (fun _ _ => True) all data.length (200000 + data.length) c' := by
  have hbytes : (encodeAll all).drop 0 = [data].flatten ++ future := by
    rw [List.drop_zero, List.flatten_singleton]
    exact hstream
  obtain ⟨c', hc', h'⟩ : ∃ c', (packetOf data).Runs 65508 acceptAll acceptAll serverCtx c' ∧
      Between serverWindow (fun _ _ => True) all (0 + [data].flatten.length)
        (200000 + data.length) c' :=
    (fresh_between all rfl).packet fits ((acceptAll_harmless _).callback _) (packetOf_admitted data)
      hbytes
  rw [List.flatten_singleton, Nat.zero_add] at h'
  exact ⟨c', hc', h'⟩

end Handover

open Handover in
/-- A message in a packet of ten bytes and a receive of four. -/
theorem receive_windows_cut :
    let events := [packetOf (shortMessage.encode.take 10),
      Event.receive (shortMessage.encode.drop 10) id]
    ¬ HandedOver 0 [shortMessage] 0 0 events ∧
      AllInside serverWindow acceptAll acceptAll serverCtx events := by
  intro events
  have hno : ¬ HandedOver 0 [shortMessage] 0 0 events := by
    rintro (⟨hpending, -⟩ | hno)
    · exact absurd hpending (by decide)
    · exact hno
  have admitted : ∀ ev ∈ events, ev.Admitted serverWindow :=
    List.forall_mem_cons.mpr ⟨packetOf_admitted _,
      List.forall_mem_singleton.mpr fun m => Agree.refl m _ _⟩
  have hstream : encodeAll [shortMessage] = events.flatMap Event.bytes ++ [] := by decide
  refine ⟨hno, (receive_windows_iff serverWindow (acceptAll_harmless _) (acceptAll_harmless _)
    shortMessage_fits rfl admitted hstream ?_).mpr hno⟩
  · refine ⟨trivial, fun c' hc' => ⟨⟨by decide, ?_⟩, fun _ _ => trivial⟩⟩
    obtain ⟨c'', hc'', h⟩ := after_packet (shortMessage.encode.take 10)
      (shortMessage.encode.drop 10) shortMessage_fits (by decide)
    rw [hc'.unique hc'']
    obtain ⟨w, held⟩ := h.held (by decide)
    have hroom : serverWindow.Room c''.recv.curAddr c''.recv.curSize w 10 := held.room
    have hlength : ((shortMessage.encode.drop 10).length : Int) = 4 := by decide
    rw [hlength]
    rcases hroom.2 with h | h | h <;> omega

open Handover in
/-- A packet of one message: the next receive stores its bytes behind the buffer of the library. -/
theorem receive_in_library_buffer :
    (packetOf shortMessage.encode).Admitted serverWindow ∧
      ∃ c', (packetOf shortMessage.encode).Runs 65508 acceptAll acceptAll serverCtx c' ∧
        c'.recv.curAddr + c'.recv.curOffset = 200014 ∧ ¬ InsideBuffer serverWindow c'.recv ∧
        (receivePendingData c' [42]).mem 200014 = 42 := by
  refine ⟨packetOf_admitted _, ?_⟩
  obtain ⟨c', hc', h⟩ := after_packet shortMessage.encode [] shortMessage_fits (by decide)
  obtain ⟨hoff, haddr, hsize⟩ := h.idle (by decide)
  have hend : (200000 : Int) + shortMessage.encode.length = 200014 := by decide
  have hplace : c'.recv.curAddr + c'.recv.curOffset = 200014 := by omega
  refine ⟨c', hc', hplace, ?_, ?_⟩
  · rintro ⟨-, hhigh⟩
    have hcap : serverWindow.base + 2 * serverWindow.maxSize = 131014 := by decide
    have hmax : serverWindow.maxSize = 65507 := rfl
    omega
  · rw [receivePendingData, hplace]
    rfl

end Sockperf
