import Sockperf.Handover
import Sockperf.ReceiveWindow
import Sockperf.ServerMessages

/-!
# The receive filter

With `--rxfiltercb` a packet is first given to `myapp_recv_pkt_filter_callback`, which has a message
handler of its own. A packet that it refuses is queued and read by the server like any other data.
The packets of a socket with the callback are compared with the same packets on a socket without it.
On messages the two handlers differ in one thing: the callback tells the gap detection nothing.
-/

namespace Sockperf

open Memory While
set_option autoImplicit false

universe u
variable {γ : Type u}

/-! ## The callback -/

/-- What the library does with the packet: queue it for `recvfrom`, or free it. -/
inductive Verdict where
  | recv
  | drop
  deriving DecidableEq, Repr

structure Packet where
  /-- `extra_info->src` -/
  ip : UInt32
  port : UInt16
  iov : List LibBuffer
  /-- what the buffers hold -/
  data : List (List UInt8)
  /-- what the library wrote to its memory before -/
  memory : Mem → Mem
  /-- how `recvfrom` hands out the bytes on a socket without the callback -/
  reads : List UInt8 → List (List UInt8)
  /-- how it hands them out on a socket with the callback, if they are queued -/
  queuedReads : List UInt8 → List (List UInt8)
  /-- `extra_info->struct_sz` is large enough -/
  structOk : Bool
  /-- there are packets in `g_zeroCopyData[fd]` -/
  zeroCopied : Bool
  /-- there is a record in `g_fds_array[fd]` -/
  known : Bool

namespace Packet

def src (p : Packet) : SockAddr := .inet p.ip p.port

def bytes (p : Packet) : List UInt8 := p.data.flatten

/-- What the buffers hold in the memory `m`. The callback is given the buffers themselves, and the
header of a message that it reads there is left in host order. -/
def held (p : Packet) (m : Mem) : List UInt8 := p.iov.flatMap fun b => load m b.addr b.len.toNat

/-- The checks at the start of the callback. -/
def taken (p : Packet) : Bool := p.structOk && !p.zeroCopied && p.known

def verdict (p : Packet) : Verdict := if p.taken then .drop else .recv

def event (p : Packet) : Handover.Event :=
  if p.taken then .packet p.iov p.data p.memory else .receive p.bytes p.memory

end Packet

namespace Server
variable (srv : Server γ)

/-- The reply of the callback, which does not look at the result of the send. -/
def callbackReply (src : SockAddr) (result : SendResult) (m : Mem) (msg : Message)
    (s : ServerState γ) : Bool × Mem × ServerState γ :=
  let m := srv.prepareHeader m msg
  let length := msg.getLength m
  let m := msg.setHeaderToNetwork m
  let s :=
    match msgSendto length result with
    | .sent => { s with sent := s.sent ++ [(srv.sendtoAddr src, load m msg.addr length.toNat)] }
    | _ => s
  (true, msg.setHeaderToHost m, s)

/-- `CallbackMessageHandler::handle_message`. -/
def callbackHandleMessage (src : SockAddr) : Callback (ServerState γ) := fun m msg s =>
  let now := srv.outside s.handled
  let s := { s with handled := s.handled + 1 }
  if now.exit then (false, m, s)
  else if !msg.isValidHeader srv.msMaxSize m then (false, m, s)
  else if !(msg.getHeader m).isClient then (true, m, s)
  else if (msg.getHeader m).isWarmupMessage then (true, m, s)
  else
    let s := { s with receiveCount := s.receiveCount + 1 }
    if (msg.getHeader m).isPongRequest then
      if srv.params.dontReply then (true, m, s)
      else srv.callbackReply src now.send m msg s
    else (true, m, s)

/-- `myapp_recv_pkt_filter_callback`. A callback that un-registers itself because of the size of
`extra_info` would refuse every later packet as well. -/
def recvPktFilterCallback (fuel : Nat) (c : Ctx (ServerState γ)) (p : Packet) :
    Option (Verdict × Ctx (ServerState γ)) :=
  if !p.structOk then some (.recv, c)
  else if p.zeroCopied then some (.recv, c)
  else if !p.known then some (.recv, c)
  else
    match processBuffers srv.msMaxSize (srv.callbackHandleMessage p.src) fuel c p.iov with
    | none => none
    | some (true, c) => some (.drop, c)
    | some (false, c) => some (.recv, c)

/-! ## The socket -/

/-- The server reads queued data, until it closes the socket. -/
def receiveQueued (fuel : Nat) (src : SockAddr) (c : Ctx (ServerState γ)) :
    List (List UInt8) → Option (Ctx (ServerState γ))
  | [] => some c
  | bs :: rest =>
    if c.state.closed then some c
    else
      match srv.receiveThenSend fuel c (.data src bs) with
      | none => none
      | some (_, c) => receiveQueued fuel src c rest

def receivePacket (fuel : Nat) (c : Ctx (ServerState γ)) (p : Packet) :
    Option (Ctx (ServerState γ)) :=
  srv.receiveQueued fuel p.src { c with mem := p.memory c.mem } (p.reads (p.held (p.memory c.mem)))

def filterPacket (fuel : Nat) (c : Ctx (ServerState γ)) (p : Packet) :
    Option (Verdict × Ctx (ServerState γ)) :=
  match srv.recvPktFilterCallback fuel { c with mem := p.memory c.mem } p with
  | none => none
  | some (.drop, c) => some (.drop, c)
  | some (.recv, c) =>
    (srv.receiveQueued fuel p.src c (p.queuedReads (p.held c.mem))).map fun c => (.recv, c)

/-- Packets on a socket without the callback. -/
inductive Unfiltered : Ctx (ServerState γ) → List Packet → Ctx (ServerState γ) → Prop
  | nil (c : Ctx (ServerState γ)) : Unfiltered c [] c
  | cons {c c' c'' : Ctx (ServerState γ)} {p : Packet} {rest : List Packet} {fuel : Nat}
      (head : srv.receivePacket fuel c p = some c') (tail : Unfiltered c' rest c'') :
      Unfiltered c (p :: rest) c''

/-- Packets on a socket with the callback, and what it says to each. -/
inductive Filtered :
    Ctx (ServerState γ) → List Packet → List Verdict → Ctx (ServerState γ) → Prop
  | nil (c : Ctx (ServerState γ)) : Filtered c [] [] c
  | cons {c c' c'' : Ctx (ServerState γ)} {p : Packet} {rest : List Packet} {v : Verdict}
      {verdicts : List Verdict} {fuel : Nat} (head : srv.filterPacket fuel c p = some (v, c'))
      (tail : Filtered c' rest verdicts c'') : Filtered c (p :: rest) (v :: verdicts) c''

/-- Without the callback no read of a packet is empty or cut short by the room it is read into. -/
def SizedPackets : Ctx (ServerState γ) → List Packet → Prop
  | _, [] => True
  | c, p :: rest =>
    Fits srv.msMaxSize (srv.handleMessage p.src) { c with mem := p.memory c.mem }
        (p.reads p.bytes) ∧
      ∀ fuel c', srv.receivePacket fuel c p = some c' → SizedPackets c' rest

/-- The same for the packets that the callback refuses. -/
def SizedQueue : Ctx (ServerState γ) → List Packet → Prop
  | _, [] => True
  | c, p :: rest =>
    (p.taken = false → Fits srv.msMaxSize (srv.handleMessage p.src)
        { c with mem := p.memory c.mem } (p.queuedReads p.bytes)) ∧
      ∀ fuel v c', srv.filterPacket fuel c p = some (v, c') → SizedQueue c' rest

/-- The gap records after a stream in packets, if the detection is told about some of them. -/
def gapsAfter (told : Packet → Bool) (all : List WireMessage) : Nat → γ → List Packet → γ
  | _, x, [] => x
  | k, x, p :: rest =>
    gapsAfter told all (k + p.bytes.length)
      (if told p then srv.noteGaps p.src x (arrived all k p.bytes.length) else x) rest

end Server

/-- What a server has done: its receive count, its replies and its gap records. -/
def ServerState.service (t : ServerState γ) : UInt64 × List (SockAddr × List UInt8) × γ :=
  (t.receiveCount, t.sent, t.gaps)

/-! ## The two handlers -/

def Server.callbackSettle (srv : Server γ) (src : SockAddr) (t : ServerState γ) (w : WireMessage) :
    ServerState γ :=
  { srv.settle src t w with gaps := t.gaps }

section Handlers
variable {srv : Server γ} {src : SockAddr} {m : Mem} {msg : Message} {t : ServerState γ}

theorem Server.callbackReply_eq {result : SendResult} (hresult : result ≠ .shutdown)
    (hlen : msg.getLength m ≠ 0) :
    srv.callbackReply src result m msg t = srv.reply src result m msg t := by
  rw [← srv.prepareHeader_getLength] at hlen
  unfold reply callbackReply
  dsimp only
  rw [show msgSendto (msg.getLength (srv.prepareHeader m msg)) result = result from if_neg hlen]
  cases result with
  | shutdown => exact absurd rfl hresult
  | sent => rfl
  | skipped => rfl
  | failed => rfl

theorem Server.callbackReply_outside (result : SendResult) {x : Int}
    (hx : x < msg.addr ∨ msg.addr + 14 ≤ x) :
    (srv.callbackReply src result m msg t).2.1 x = m x :=
  (Message.setHeader_outside _ _ _ hx).trans
    ((Message.setHeader_outside _ _ _ hx).trans (srv.prepareHeader_outside hx))

theorem Server.callbackHandleMessage_outside {x : Int}
    (hx : x < msg.addr ∨ msg.addr + 14 ≤ x) :
    (srv.callbackHandleMessage src m msg t).2.1 x = m x := by
  unfold callbackHandleMessage
  dsimp only
  iterate 4
    split
    · rfl
  split
  · split
    · rfl
    · exact callbackReply_outside _ hx
  · rfl

section Valid
variable {w : WireMessage} (h0 : 0 ≤ srv.msMaxSize) (h31 : srv.msMaxSize < 2 ^ 31)
  (hv : msg.isValidHeader srv.msMaxSize m = true) (hw : msg.view srv.msMaxSize m = w.view)
  (goesOn : srv.GoesOn)
include h0 h31 goesOn

include hv hw in
variable (src t) in
theorem Server.callbackHandleMessage_settle :
    (srv.callbackHandleMessage src m msg t).1 = true ∧
      (srv.callbackHandleMessage src m msg t).2.2 = srv.callbackSettle src t w := by
  obtain ⟨hexit, hsend⟩ := goesOn t.handled
  have hh := header_of_view hw
  have hlen : msg.getLength m ≠ 0 := by
    have hsize := w.size_eq
    rw [getLength_of_view h0 h31 hv hw]
    omega
  unfold callbackHandleMessage callbackSettle settle answer
  simp only [hexit, hv, hh, Bool.not_true, Bool.false_eq_true, if_false]
  by_cases hclient : w.header.isClient = true
  · by_cases hwarm : w.header.isWarmupMessage = true
    · simp [hclient, hwarm, WireMessage.counts]
    · have hcounts : w.counts = true := by simp [WireMessage.counts, hclient, hwarm]
      by_cases hpong : w.header.isPongRequest = true
      · by_cases hdont : srv.params.dontReply = true
        · simp [hclient, hwarm, hcounts, hpong, hdont]
        · obtain ⟨m', hreply, -⟩ := Server.reply_eq src
            { t with handled := t.handled + 1, receiveCount := t.receiveCount + 1 } h0 h31 hv hw
            hsend
          simp [hclient, hwarm, hcounts, hpong, hdont, callbackReply_eq hsend hlen, hreply]
      · simp [hclient, hwarm, hcounts, hpong]
  · simp [hclient, WireMessage.counts]

theorem Server.callbackSettle_callback (src : SockAddr) (all old : List WireMessage)
    (t : ServerState γ) :
    CallbackOk srv.msMaxSize (srv.callbackHandleMessage src) (all.map WireMessage.view)
      (Since old fun new s => s = new.foldl (srv.callbackSettle src) t) fun _ => False := by
  refine callbackOk_since (fun _ _ _ _ hx => callbackHandleMessage_outside hx) ?_ old
  rintro new _ m msg w - hv hw rfl
  obtain ⟨htrue, hstate⟩ := Server.callbackHandleMessage_settle src
    (new.foldl (srv.callbackSettle src) t) h0 h31 hv hw goesOn
  exact ⟨htrue, by rw [hstate, List.foldl_concat]⟩

end Valid

theorem Server.foldl_callbackSettle (ws : List WireMessage) (t : ServerState γ) :
    ws.foldl (srv.callbackSettle src) t =
      { ws.foldl (srv.settle src) t with gaps := t.gaps } := by
  induction ws generalizing t with
  | nil => rfl
  | cons w ws ih =>
    rw [List.foldl_cons, ih, callbackSettle, settle_foldl_gaps]
    rfl

end Handlers

/-! ## Both sockets -/

/-- The buffers hold the bytes of the packet, apart from each other and from the receive buffer, and
`recvfrom` hands out all of them. -/
structure Packet.Admitted (g : Window) (p : Packet) : Prop where
  disjoint : p.iov.Pairwise LibBuffer.Disjoint
  keeps : ∀ m, Agree m (p.memory m) g.base (g.base + 2 * g.maxSize)
  holds : ∀ m, List.Forall₂ (g.layout.Holds (p.memory m)) p.iov p.data
  reads : (p.reads p.bytes).flatten = p.bytes
  queuedReads : (p.queuedReads p.bytes).flatten = p.bytes
  nonempty : p.bytes ≠ []

theorem Packet.Admitted.held_eq {g : Window} {p : Packet} (h : p.Admitted g) (m : Mem) :
    p.held (p.memory m) = p.bytes := by
  have holds := h.holds m
  unfold Packet.held Packet.bytes
  generalize p.memory m = m at holds
  generalize p.iov = iov, p.data = data at holds
  induction holds with
  | nil => rfl
  | cons hb _ ih =>
    rw [List.flatMap_cons, List.flatten_cons, ih, hb.len, Int.toNat_natCast, hb.data]

section Run
variable {srv : Server γ} {g : Window} {all : List WireMessage} {future : List UInt8}
  {c c' : Ctx (ServerState γ)} {src : SockAddr} {k : Nat} {e : Int}

theorem Server.receiveQueued_mono {n k : Nat} {reads : List (List UInt8)}
    (h : srv.receiveQueued n src c reads = some c') (hk : n ≤ k) :
    srv.receiveQueued k src c reads = some c' := by
  induction reads generalizing c with
  | nil => exact h
  | cons bs rest ih =>
    rw [receiveQueued] at h ⊢
    split at h
    · next hclosed =>
      rw [if_pos hclosed]
      exact h
    · next hclosed =>
      rw [if_neg hclosed]
      split at h
      · cases h
      · next hr =>
        rw [receiveThenSend_mono hr hk]
        exact ih h

theorem Server.receiveQueued_cons {c₁ : Ctx (ServerState γ)} {bs : List UInt8} {ok : Bool}
    {rest : List (List UInt8)} {n : Nat} (hopen : c.state.closed = false)
    (hc₁ : RecvFrom srv.msMaxSize (srv.handleMessage src) c bs ok c₁)
    (hrest : srv.receiveQueued n src (if ok then c₁ else srv.closeIfd c₁) rest = some c') :
    ∃ fuel, srv.receiveQueued fuel src c (bs :: rest) = some c' := by
  obtain ⟨k, hk⟩ := Server.receiveThenSend_of_recvFrom hc₁
  refine ⟨max k n, ?_⟩
  rw [receiveQueued, hopen, if_neg Bool.false_ne_true,
    receiveThenSend_mono hk (Nat.le_max_left k n)]
  exact receiveQueued_mono hrest (Nat.le_max_right k n)

theorem Server.recvPktFilterCallback_refused {p : Packet} (h : p.taken = false) (fuel : Nat) :
    srv.recvPktFilterCallback fuel c p = some (.recv, c) := by
  unfold recvPktFilterCallback
  unfold Packet.taken at h
  split_ifs with h1 h2 h3
  · rfl
  · rfl
  · rfl
  · simp_all

theorem Server.recvPktFilterCallback_taken {p : Packet} (h : p.taken = true) {fuel : Nat} {ok : Bool}
    (hp : processBuffers srv.msMaxSize (srv.callbackHandleMessage p.src) fuel c p.iov =
      some (ok, c')) :
    srv.recvPktFilterCallback fuel c p = some (if ok then .drop else .recv, c') := by
  unfold Packet.taken at h
  simp only [Bool.and_eq_true, Bool.not_eq_true'] at h
  obtain ⟨⟨hstruct, hzero⟩, hknown⟩ := h
  simp only [recvPktFilterCallback, hstruct, hzero, hknown, Bool.not_true, Bool.false_eq_true,
    if_false, hp]
  cases ok <;> rfl

structure Server.Together (g : Window) (all : List WireMessage) (k : Nat) (e : Int)
    (c c' : Ctx (ServerState γ)) : Prop where
  filtered : Handover.Between g (fun _ _ => True) all k e c
  plain : Handover.Between g (fun _ _ => True) all k g.base c'
  away : Handover.Away g e
  same : c.state = { c'.state with gaps := c.state.gaps }
  opened : c'.state.closed = false

variable (hms : g.msMaxSize = srv.msMaxSize) (fits : ∀ w ∈ all, (w.size : Int) ≤ g.msMaxSize)
  (goesOn : srv.GoesOn)
include hms fits goesOn

omit goesOn in
/-- By induction on the reads: the first one may follow the callback, the others follow a read. -/
theorem Server.receiveQueued_between {P : List MessageView → ServerState γ → Prop}
    (cb : CallbackOk g.msMaxSize (srv.handleMessage src) (all.map WireMessage.view) P
      fun _ => False) (hopen : ∀ vs t, P vs t → t.closed = false) {reads : List (List UInt8)}
    (h : g.layout.Between P all (reads.flatten ++ future) e c)
    (hstart : c.recv.curOffset = 0 → g.Start .inPlace c.recv.curAddr g.maxSize)
    (hfits : Fits srv.msMaxSize (srv.handleMessage src) c reads) :
    ∃ c' fuel, srv.receiveQueued fuel src c reads = some c' ∧
      g.layout.Between P all future (if reads.isEmpty then e else g.base) c' := by
  rw [← hms] at hfits
  induction reads generalizing c e with
  | nil => exact ⟨c, 0, rfl, h⟩
  | cons bs rest ih =>
    obtain ⟨-, hle, htail⟩ := hfits
    rw [List.flatten_cons, List.append_assoc] at h
    have hclosed : c.state.closed = false := by
      obtain ⟨_, _, _, hat⟩ := h
      exact hopen _ _ hat.state
    obtain ⟨ok, c₁, hc₁, htrue, hfalse⟩ :=
      Layout.Between.recvFrom (g := g.layout) trivial fits cb h hle hstart
    cases ok with
    | false => exact absurd (hfalse rfl) id
    | true =>
      have h₁ : g.layout.Between P all (rest.flatten ++ future) g.base c₁ := (htrue rfl).1
      obtain ⟨d, r, p, hat⟩ := h₁
      obtain ⟨c₂, n, hc₂, h₂⟩ := ih ⟨d, r, p, hat⟩ (Window.rest_start hat.rest) (htail true c₁ hc₁)
      rw [ite_self] at h₂
      have hc₁ : RecvFrom srv.msMaxSize (srv.handleMessage src) c bs true c₁ := hms ▸ hc₁
      obtain ⟨fuel, hfuel⟩ := receiveQueued_cons hclosed hc₁ hc₂
      exact ⟨c₂, fuel, hfuel, h₂⟩

theorem Server.receiveQueued_settles {reads : List (List UInt8)} (he : Handover.Away g e)
    (hinside : ¬ (Handover.pendingAt all k = 0 ∧ e ≠ g.base)) (hne : reads.flatten ≠ [])
    (hopen : c.state.closed = false) (h : Handover.Between g (fun _ _ => True) all k e c)
    (hstream : (encodeAll all).drop k = reads.flatten ++ future)
    (hfits : Fits srv.msMaxSize (srv.handleMessage src) c reads) :
    ∃ c' fuel, srv.receiveQueued fuel src c reads = some c' ∧
      Handover.Between g (fun _ _ => True) all (k + reads.flatten.length) g.base c' ∧
      c'.state = (arrived all k reads.flatten.length).foldl (srv.settle src) c.state := by
  have h0 := g.nonneg
  have h31 := g.lt_int
  have hcb := fun (h0 : 0 ≤ srv.msMaxSize) h31 => Server.settle_callback h0 h31 goesOn src all
    (completed all k) c.state
  rw [← hms] at hcb
  have hstart := h.between.restate (Q := Since (completed all k) fun new s =>
    s = new.foldl (srv.settle src) c.state) h.le ⟨[], by rw [List.append_nil], rfl⟩
  obtain ⟨hle, hfuture⟩ := h.behind hstream
  rw [hstream] at hstart
  obtain ⟨c', fuel, hc', h'⟩ := receiveQueued_between hms fits (hcb h0 h31) (by
      rintro vs t ⟨new, -, rfl⟩
      rw [settle_foldl_closed, hopen]) hstart (h.starts he ((h.inside_iff he).mpr hinside)) hfits
  have hsome : reads.isEmpty = false := by
    cases reads with
    | nil => exact absurd rfl hne
    | cons => rfl
  rw [hsome, if_neg Bool.false_ne_true, ← hfuture] at h'
  obtain ⟨r, p, hat⟩ := h'.at_completed hle
  exact ⟨c', fuel, hc', ⟨hle, h'.restate hle trivial⟩, hat.state.arrived⟩

theorem Server.callback_settles {p : Packet} (admitted : p.Admitted g) (taken : p.taken = true)
    (h : Handover.Between g (fun _ _ => True) all k e c)
    (hstream : (encodeAll all).drop k = p.bytes ++ future) :
    ∃ c' fuel, srv.filterPacket fuel c p = some (.drop, c') ∧
      Handover.Between g (fun _ _ => True) all (k + p.bytes.length) (Layout.lastEnd e p.iov) c' ∧
      c'.state = (arrived all k p.bytes.length).foldl (srv.callbackSettle p.src) c.state := by
  have h0 := g.nonneg
  have h31 := g.lt_int
  have hcb := fun (h0 : 0 ≤ srv.msMaxSize) h31 => Server.callbackSettle_callback h0 h31 goesOn p.src
    all (completed all k) c.state
  rw [← hms] at hcb
  have hstart := h.between.restate (Q := Since (completed all k) fun new s =>
    s = new.foldl (srv.callbackSettle p.src) c.state) h.le ⟨[], by rw [List.append_nil], rfl⟩
  obtain ⟨hle, hfuture⟩ := h.behind hstream
  have henv := hstart.env (admitted.keeps c.mem)
  rw [hstream] at henv
  obtain ⟨c', ⟨fuel, hc'⟩, h', -⟩ := henv.processBuffers trivial fits (hcb h0 h31)
    admitted.disjoint (admitted.holds c.mem)
  rw [← hfuture] at h'
  obtain ⟨r, q, hat⟩ := h'.at_completed hle
  refine ⟨c', fuel, ?_, ⟨hle, h'.restate hle trivial⟩, hat.state.arrived⟩
  have hc' : processBuffers srv.msMaxSize (srv.callbackHandleMessage p.src) fuel
      { c with mem := p.memory c.mem } p.iov = some (true, c') := hms ▸ hc'
  rw [filterPacket, recvPktFilterCallback_taken taken hc']
  rfl

theorem Server.plain_settles {p : Packet} (admitted : p.Admitted g)
    (reads : List UInt8 → List (List UInt8)) (hreads : (reads p.bytes).flatten = p.bytes)
    (he : Handover.Away g e) (hinside : ¬ (Handover.pendingAt all k = 0 ∧ e ≠ g.base))
    (hopen : c.state.closed = false) (h : Handover.Between g (fun _ _ => True) all k e c)
    (hstream : (encodeAll all).drop k = p.bytes ++ future)
    (hfits : Fits srv.msMaxSize (srv.handleMessage p.src) { c with mem := p.memory c.mem }
      (reads p.bytes)) :
    ∃ c' fuel, srv.receiveQueued fuel p.src { c with mem := p.memory c.mem }
        (reads (p.held (p.memory c.mem))) = some c' ∧
      Handover.Between g (fun _ _ => True) all (k + p.bytes.length) g.base c' ∧
      c'.state = (arrived all k p.bytes.length).foldl (srv.settle p.src) c.state := by
  have henv : Handover.Between g (fun _ _ => True) all k e { c with mem := p.memory c.mem } :=
    ⟨h.le, h.between.env (admitted.keeps c.mem)⟩
  have hne : (reads p.bytes).flatten ≠ [] := by
    rw [hreads]
    exact admitted.nonempty
  have hopen' : ({ c with mem := p.memory c.mem } : Ctx (ServerState γ)).state.closed = false :=
    hopen
  have key := receiveQueued_settles hms fits goesOn he hinside hne hopen' henv
    (by rw [hreads]; exact hstream) hfits
  rw [hreads] at key
  rw [admitted.held_eq]
  exact key

theorem Server.Together.packet {p : Packet} (admitted : p.Admitted g)
    (h : Together g all k e c c') (hstream : (encodeAll all).drop k = p.bytes ++ future)
    (hinside : p.taken = false → ¬ (Handover.pendingAt all k = 0 ∧ e ≠ g.base))
    (hfits : Fits srv.msMaxSize (srv.handleMessage p.src) { c' with mem := p.memory c'.mem }
      (p.reads p.bytes))
    (hqueue : p.taken = false → Fits srv.msMaxSize (srv.handleMessage p.src)
      { c with mem := p.memory c.mem } (p.queuedReads p.bytes)) :
    ∃ d d', (∃ fuel, srv.filterPacket fuel c p = some (p.verdict, d)) ∧
      (∃ fuel, srv.receivePacket fuel c' p = some d') ∧
      Together g all (k + p.bytes.length)
        (if p.taken then Layout.lastEnd e p.iov else g.base) d d' ∧
      d'.state.handled = c'.state.handled + (arrived all k p.bytes.length).length ∧
      d'.state.gaps = srv.noteGaps p.src c'.state.gaps (arrived all k p.bytes.length) ∧
      d.state.gaps = if !p.taken then
        srv.noteGaps p.src c.state.gaps (arrived all k p.bytes.length) else c.state.gaps := by
  obtain ⟨d', fuel', hd', h', hstate'⟩ := plain_settles hms fits goesOn admitted p.reads
    admitted.reads (Or.inl le_rfl) (fun hne => hne.2 rfl) h.opened h.plain hstream hfits
  have hplain : ∃ fuel, srv.receivePacket fuel c' p = some d' := ⟨fuel', hd'⟩
  have hopen : d'.state.closed = false := by
    rw [hstate', settle_foldl_closed, h.opened]
  have hhandled : d'.state.handled =
      c'.state.handled + (arrived all k p.bytes.length).length := by
    rw [hstate', settle_foldl_handled]
  have hgaps : d'.state.gaps =
      srv.noteGaps p.src c'.state.gaps (arrived all k p.bytes.length) := by
    rw [hstate']
    exact congrArg ServerState.gaps (settle_foldl_gaps _ c'.state c'.state.gaps)
  cases htaken : p.taken with
  | true =>
    obtain ⟨d, fuel, hd, h₁, hstate⟩ := callback_settles hms fits goesOn admitted htaken h.filtered
      hstream
    have hd' : d.state = { d'.state with gaps := c.state.gaps } := by
      rw [hstate, foldl_callbackSettle, h.same, settle_foldl_gaps, hstate']
    have hverdict : p.verdict = .drop := if_pos htaken
    exact ⟨d, d', ⟨fuel, hverdict ▸ hd⟩, hplain, ⟨h₁, h', Handover.lastEnd_away h.away
      (admitted.holds c.mem), by rw [hd'], hopen⟩, hhandled, hgaps, by rw [hd']; rfl⟩
  | false =>
    obtain ⟨d, fuel, hd, h₁, hstate⟩ := plain_settles hms fits goesOn admitted p.queuedReads
      admitted.queuedReads h.away (hinside htaken) (by rw [h.same]; exact h.opened) h.filtered
      hstream (hqueue htaken)
    have hd' : d.state = { d'.state with
        gaps := srv.noteGaps p.src c.state.gaps (arrived all k p.bytes.length) } := by
      rw [hstate, h.same, settle_foldl_gaps, hstate']
    have hfilter : srv.filterPacket fuel c p = some (p.verdict, d) := by
      have hverdict : p.verdict = .recv := if_neg (by rw [htaken]; exact Bool.false_ne_true)
      rw [filterPacket, recvPktFilterCallback_refused htaken, hverdict]
      exact congrArg (Option.map _) hd
    exact ⟨d, d', ⟨fuel, hfilter⟩, hplain, ⟨h₁, h', Or.inl le_rfl, by rw [hd'], hopen⟩, hhandled,
      hgaps, by rw [hd']; rfl⟩

theorem Server.Together.packets {packets : List Packet} (admitted : ∀ p ∈ packets, p.Admitted g)
    (h : Together g all k e c c')
    (hstream : (encodeAll all).drop k = packets.flatMap Packet.bytes ++ future)
    (hinside : ¬ Handover.HandedOver g.base all k e (packets.map Packet.event))
    (hsized : srv.SizedPackets c' packets) (hqueue : srv.SizedQueue c packets) :
    ∃ d d' e', srv.Filtered c packets (packets.map Packet.verdict) d ∧
      srv.Unfiltered c' packets d' ∧
      Together g all (k + (packets.flatMap Packet.bytes).length) e' d d' ∧
      d'.state.handled = c'.state.handled +
        (arrived all k (packets.flatMap Packet.bytes).length).length ∧
      d'.state.gaps = srv.gapsAfter (fun _ => true) all k c'.state.gaps packets ∧
      d.state.gaps = srv.gapsAfter (fun p => !p.taken) all k c.state.gaps packets := by
  induction packets generalizing c c' k e with
  | nil =>
    have hnone : arrived all k 0 = [] := List.drop_length
    exact ⟨c, c', e, .nil c, .nil c', h, by rw [List.flatMap_nil, List.length_nil, hnone]; rfl,
      rfl, rfl⟩
  | cons p rest ih =>
    obtain ⟨hp, hrest⟩ := List.forall_mem_cons.mp admitted
    rw [List.flatMap_cons, List.append_assoc] at hstream
    have hnext := (h.plain.behind hstream).2
    -- what is left between two messages by the callback is not read by the socket
    have hwhere : (p.taken = false → ¬ (Handover.pendingAt all k = 0 ∧ e ≠ g.base)) ∧
        ¬ Handover.HandedOver g.base all (k + p.bytes.length)
          (if p.taken then Layout.lastEnd e p.iov else g.base) (rest.map Packet.event) := by
      rw [List.map_cons, Packet.event] at hinside
      cases htaken : p.taken with
      | true =>
        rw [htaken, if_pos rfl] at hinside
        exact ⟨nofun, hinside⟩
      | false =>
        rw [htaken, if_neg Bool.false_ne_true] at hinside
        obtain ⟨hhere, hlater⟩ := not_or.mp hinside
        exact ⟨fun _ => hhere, hlater⟩
    obtain ⟨d, d', ⟨fuel, hd⟩, ⟨fuel', hd'⟩, h', hhandled, hgaps', hgaps⟩ :=
      h.packet hms fits goesOn hp hstream hwhere.1 hsized.1 hqueue.1
    obtain ⟨f, f', e', hf, hf', h'', hhandled', hall', hall⟩ := ih hrest h' hnext hwhere.2
      (hsized.2 fuel' d' hd') (hqueue.2 fuel _ d hd)
    have hsum : k + (p.bytes ++ rest.flatMap Packet.bytes).length =
        k + p.bytes.length + (rest.flatMap Packet.bytes).length := by
      rw [List.length_append, Nat.add_assoc]
    refine ⟨f, f', e', .cons hd hf, .cons hd' hf', ?_, ?_, ?_, ?_⟩
    · rw [List.flatMap_cons, hsum]
      exact h''
    · have hcount := congrArg List.length
        (completed_add all k (p.bytes ++ rest.flatMap Packet.bytes).length)
      rw [hsum, completed_add, completed_add, List.length_append, List.length_append,
        List.length_append] at hcount
      rw [hhandled', hhandled, List.flatMap_cons]
      omega
    · rw [hall', hgaps']
      rfl
    · rw [hall, hgaps]
      rfl

end Run

/-! ## A header that is too large -/

/-- A packet that begins with a header of a message larger than `ms_maxSize`, also if it is read the
other way round, and that `recvfrom` hands out at once. -/
structure Packet.Oversized (msMaxSize : Int) (p : Packet) (hdr : MsgHeader) : Prop where
  header : ∃ first rest, p.data = first :: rest ∧ first.take 14 = hdr.hton.bytes
  network : msMaxSize < hdr.length.toNat
  host : msMaxSize < hdr.ntoh.length.toNat
  reads : ∀ bs, p.reads bs = [bs]
  queuedReads : ∀ bs, p.queuedReads bs = [bs]

theorem Packet.Oversized.take_bytes {msMaxSize : Int} {p : Packet} {hdr : MsgHeader}
    (h : p.Oversized msMaxSize hdr) : p.bytes.take 14 = hdr.hton.bytes := by
  obtain ⟨first, rest, hdata, hfirst⟩ := h.header
  have hlen := congrArg List.length hfirst
  simp [effectiveSize] at hlen
  rw [Packet.bytes, hdata, List.flatten_cons, List.take_append_of_le_length hlen, hfirst]

section Oversize
variable {σ : Type u} {S : AccumulationStrategy} {msMaxSize : Int} {handle : Callback σ} {c : Ctx σ}
  {a : Int} {n : Nat} {hdr : MsgHeader}

variable (handle) in
theorem processBuffer_oversize (h0 : 0 ≤ msMaxSize) (h31 : msMaxSize < 2 ^ 31) {t : σ}
    (hoff : c.recv.curOffset = 0) (hn : 14 ≤ n) (hload : load c.mem a 14 = hdr.hton.bytes)
    (hbig : msMaxSize < hdr.length.toNat)
    (hrej : ∀ m msg, msg.isValidHeader msMaxSize m = false → handle m msg c.state = (false, m, t)) :
    ∃ c', ProcessBuffer S msMaxSize handle c a n false c' ∧ c'.state = t ∧
      c'.recv.curOffset = 0 ∧ c'.mem = (Message.mk a).setHeaderToHost c.mem := by
  set b : Ctx σ := { c with recv := { c.recv with curAddr := a } } with hb
  have hzero : b.recv.curOffset = 0 := hoff
  have hann : b.announced = hdr.length.toNat := announced_of_load (by omega) hload
  have hchunk := processChunk_oversize (c := b) (n := n) h0 h31 (by omega) (by rw [hann]; exact hbig)
  have hinvalid : b.matchHeader.msg.isValidHeader msMaxSize b.matchHeader.mem = false := by
    rw [Bool.eq_false_iff, ne_eq, Message.isValidHeader_iff _ _ h0 h31]
    exact not_le.mpr (by rw [← hann] at hbig; exact hbig)
  have hcall : handle b.matchHeader.mem b.matchHeader.msg b.matchHeader.state =
      (false, b.matchHeader.mem, t) := by
    rw [matchHeader_state]
    exact hrej _ _ hinvalid
  have hturn := Loop.turn_deliver (S := S) handle (l := ⟨b, true, 0, a, n⟩) (by dsimp only; omega)
    hchunk rfl
  dsimp only at hturn
  rw [hcall, if_neg Bool.false_ne_true] at hturn
  have hmem := matchHeader_mem_of_lt b (by omega)
  generalize hc' : Ctx.mk _ _ _ _ _ = c' at hturn
  refine ⟨c', ?_, by rw [← hc'], by rw [← hc'], by rw [← hc']; exact hmem⟩
  unfold ProcessBuffer
  rw [enter_of_zero hoff]
  exact Returns.of_done hturn

end Oversize

section Rejected
variable {srv : Server γ} {g : Window} {all : List WireMessage} {c : Ctx (ServerState γ)}
  {src : SockAddr} {k : Nat} {e : Int} {hdr : MsgHeader} (h0 : 0 ≤ srv.msMaxSize)
  (h31 : srv.msMaxSize < 2 ^ 31)
include h0 h31

variable (src) in
theorem Server.read_rejected {bs : List UInt8} (hoff : c.recv.curOffset = 0)
    (hopen : c.state.closed = false) (hbs : bs.take 14 = hdr.hton.bytes)
    (hbig : srv.msMaxSize < hdr.length.toNat) :
    ∃ c' fuel, srv.receiveQueued fuel src c [bs] = some c' ∧
      c'.state.service = c.state.service := by
  have hn : 14 ≤ bs.length := by
    have hlen := congrArg List.length hbs
    simp [effectiveSize] at hlen
    exact hlen
  have hload : load (receivePendingData c bs).mem (c.recv.curAddr + c.recv.curOffset) 14 =
      hdr.hton.bytes := by
    rw [← hbs, ← load_take hn]
    exact congrArg (List.take 14) load_store_same
  obtain ⟨c₁, hc₁, hstate, -⟩ := processBuffer_oversize (S := .inPlace)
    (srv.handleMessage src) (t := { c.state with handled := c.state.handled + 1 }) h0 h31
    (show (receivePendingData c bs).recv.curOffset = 0 from hoff) hn hload hbig (by
      intro m msg hinvalid
      unfold handleMessage
      simp only [hinvalid, Bool.not_false, if_true]
      rfl)
  obtain ⟨fuel, hfuel⟩ := receiveQueued_cons hopen hc₁
    (show srv.receiveQueued 0 src _ [] = some _ from rfl)
  refine ⟨_, fuel, hfuel, ?_⟩
  rw [if_neg Bool.false_ne_true]
  unfold closeIfd
  split
  · rw [hstate]
    rfl
  · rw [hstate]
    rfl

theorem Server.packet_rejected {p : Packet} (admitted : p.Admitted g)
    (oversized : p.Oversized srv.msMaxSize hdr) (hoff : c.recv.curOffset = 0)
    (hopen : c.state.closed = false) :
    ∃ c' fuel, srv.receivePacket fuel c p = some c' ∧ c'.state.service = c.state.service := by
  unfold receivePacket
  rw [admitted.held_eq, oversized.reads]
  exact read_rejected (c := { c with mem := p.memory c.mem }) p.src h0 h31 hoff hopen
    oversized.take_bytes oversized.network

/-- The callback drops the message and refuses the packet, and the socket drops it again. -/
theorem Server.callback_rejected (goesOn : srv.GoesOn) {p : Packet} (admitted : p.Admitted g)
    (oversized : p.Oversized srv.msMaxSize hdr) (hoff : c.recv.curOffset = 0)
    (hopen : c.state.closed = false) :
    ∃ c' fuel, srv.filterPacket fuel c p = some (.recv, c') ∧
      c'.state.service = c.state.service := by
  cases htaken : p.taken with
  | false =>
    obtain ⟨c', fuel, hc', hservice⟩ := read_rejected (c := { c with mem := p.memory c.mem })
      p.src h0 h31 hoff hopen oversized.take_bytes oversized.network
    refine ⟨c', fuel, ?_, hservice⟩
    rw [filterPacket, recvPktFilterCallback_refused htaken]
    dsimp only
    rw [admitted.held_eq, oversized.queuedReads, hc']
    rfl
  | true =>
    obtain ⟨first, rest, hdata, hfirst⟩ := oversized.header
    have holds := admitted.holds c.mem
    rw [hdata] at holds
    obtain ⟨b, iov, hb, -, hiov⟩ := List.forall₂_cons_right_iff.mp holds
    have hn : 14 ≤ first.length := by
      have hlen := congrArg List.length hfirst
      simp [effectiveSize] at hlen
      exact hlen
    have hload : load (p.memory c.mem) b.addr 14 = hdr.hton.bytes := by
      rw [← hfirst, ← load_take hn, hb.data]
    obtain ⟨c₁, hc₁, hstate, hoff₁, hmem⟩ := processBuffer_oversize (S := .buffer)
      (c := { c with mem := p.memory c.mem }) (srv.callbackHandleMessage p.src)
      (t := { c.state with handled := c.state.handled + 1 }) h0 h31 hoff hn hload
      oversized.network (by
        intro m msg hinvalid
        unfold callbackHandleMessage
        simp only [(goesOn c.state.handled).1, hinvalid, Bool.not_false, Bool.false_eq_true,
          if_false, if_true])
    -- the header that is queued is in host order
    have hqueued : (p.held c₁.mem).take 14 = hdr.ntoh.hton.bytes := by
      have hhost : load c₁.mem b.addr 14 = hdr.bytes := by
        have hall : ∀ h : MsgHeader, (h.bytes ++ []).take 14 = h.bytes := fun h => by
          rw [List.append_nil]
          exact List.take_of_length_le (by simp [effectiveSize])
        rw [hmem, load_setHeaderToHost le_rfl (by rw [hall]; exact hload), hall]
      rw [MsgHeader.hton_ntoh, ← hhost, Packet.held, hiov, List.flatMap_cons, hb.len,
        Int.toNat_natCast, List.take_append_of_le_length (by simpa using hn), load_take hn]
    obtain ⟨c', n, hc', hservice⟩ := read_rejected p.src h0 h31 hoff₁
      (by rw [hstate]; exact hopen) hqueued oversized.host
    obtain ⟨k, hk⟩ := processBuffer_iff.mp hc₁
    have hfail : processBuffers srv.msMaxSize (srv.callbackHandleMessage p.src) (max k n)
        { c with mem := p.memory c.mem } p.iov = some (false, c₁) := by
      rw [hiov, processBuffers, hb.len, show processBuffer _ _ _ (max k n) _ _ _ = _ from
        iterate_mono hk (Nat.le_max_left k n)]
    refine ⟨c', max k n, ?_, ?_⟩
    · rw [filterPacket, recvPktFilterCallback_taken htaken hfail, if_neg Bool.false_ne_true]
      dsimp only
      rw [oversized.queuedReads, receiveQueued_mono hc' (Nat.le_max_right k n)]
      rfl
    · rw [hservice, hstate]
      rfl

end Rejected

section Append
variable {srv : Server γ} {c d f : Ctx (ServerState γ)} {packets : List Packet} {p : Packet}

theorem Server.Filtered.concat {verdicts : List Verdict} {v : Verdict} {fuel : Nat}
    (h : srv.Filtered c packets verdicts d) (hp : srv.filterPacket fuel d p = some (v, f)) :
    srv.Filtered c (packets ++ [p]) (verdicts ++ [v]) f := by
  induction h with
  | nil c => exact .cons hp (.nil f)
  | cons head _ ih => exact .cons head (ih hp)

theorem Server.Unfiltered.concat {fuel : Nat} (h : srv.Unfiltered c packets d)
    (hp : srv.receivePacket fuel d p = some f) : srv.Unfiltered c (packets ++ [p]) f := by
  induction h with
  | nil c => exact .cons hp (.nil f)
  | cons head _ ih => exact .cons head (ih hp)

end Append

def smallRequest : WireMessage := ⟨⟨7, 3, 14⟩, [], by decide⟩

/-- A packet in three buffers that is read at once if it is queued. -/
def splitPacket (structOk : Bool) (front mid back : List UInt8) : Packet where
  ip := 1
  port := 1000
  iov := [⟨200000, front.length⟩, ⟨300000, mid.length⟩, ⟨400000, back.length⟩]
  data := [front, mid, back]
  memory := fun m => store (store (store m 200000 front) 300000 mid) 400000 back
  reads := fun bs => [bs]
  queuedReads := fun bs => [bs]
  structOk := structOk
  zeroCopied := false
  known := true

open Handover in
theorem splitPacket_admitted {structOk : Bool} {front mid back : List UInt8}
    (hfront : front.length ≤ 100000) (hmid : mid.length ≤ 100000) (hne : front ≠ []) :
    (splitPacket structOk front mid back).Admitted serverWindow := by
  have hend : serverWindow.base + 2 * serverWindow.maxSize ≤ 200000 := by decide
  refine ⟨?_, fun m => ?_, fun m => ?_, ?_, ?_, ?_⟩
  · simp only [splitPacket, List.pairwise_cons, List.mem_cons, List.not_mem_nil, or_false,
      forall_eq_or_imp, forall_eq, LibBuffer.Disjoint, IsEmpty.forall_iff, implies_true,
      List.Pairwise.nil, and_true]
    omega
  · exact (agree_store (Or.inl hend)).symm.trans ((agree_store (Or.inl (by omega))).symm.trans
      (agree_store (Or.inl (by omega))).symm)
  · have hapart : ∀ a n : Int, 200000 ≤ a → serverWindow.layout.Apart a n :=
      fun a n ha => Or.inr (hend.trans ha)
    refine .cons ⟨rfl, hapart _ _ le_rfl, ?_⟩ (.cons ⟨rfl, hapart _ _ (by dsimp only; omega), ?_⟩
      (.cons ⟨rfl, hapart _ _ (by dsimp only; omega), load_store_same⟩ .nil))
    · exact (load_store_disjoint (Or.inl (by dsimp only; omega))).trans
        ((load_store_disjoint (Or.inl (by dsimp only; omega))).trans load_store_same)
    · exact (load_store_disjoint (Or.inl (by dsimp only; omega))).trans load_store_same
  · simp [splitPacket, Packet.bytes]
  · simp [splitPacket, Packet.bytes]
  · simp [splitPacket, Packet.bytes, hne]

def gapServer : Server SeqNumMap where
  msMaxSize := 65508
  params := udpServer.params
  fd := udpServer.fd
  execute := fun addr seqNum isWarmup m => m.execute addr seqNum isWarmup
  outside := udpServer.outside

def gapFresh : Ctx (ServerState SeqNumMap) :=
  ⟨fun _ => 0, freshRecv 0 65507, ⟨0⟩, ⟨0, 0, [], [], false⟩, true⟩

end Sockperf
