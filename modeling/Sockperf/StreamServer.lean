import Mathlib.Algebra.BigOperators.Group.Finset.Basic
import Sockperf.Handover
import Sockperf.Link
import Sockperf.ReceiveWindow
import Sockperf.ServerMessages
import Sockperf.Watching

/-!
# A stream server and all its clients

Every connection has a record with a receive buffer of its own, but all of them are read through
one `Message` into one set of counters, and their descriptors are used again when clients leave.
The connections are accepted, read in pieces of any length and closed in any order. What a client
gets back is a function of what was read from it.
-/

namespace Sockperf

open Memory While
set_option autoImplicit false

universe u
variable {γ : Type u}

/-! ## What a message is worth -/

def ServerParams.replies (p : ServerParams) (w : WireMessage) : List (List UInt8) :=
  if w.counts && w.header.isPongRequest && !p.dontReply then [w.echo.encode] else []

/-- Nobody asks the server to stop, and its replies go out. -/
def Server.Undisturbed (srv : Server γ) : Prop :=
  ∀ n, (srv.outside n).exit = false ∧ (srv.outside n).send = .sent

/-- What handling the messages `new` does to the state. -/
structure Server.Handled (srv : Server γ) (t : ServerState γ) (new : List WireMessage)
    (t' : ServerState γ) : Prop where
  sent : t'.sent.map Prod.snd = t.sent.map Prod.snd ++ new.flatMap srv.params.replies
  count : t'.receiveCount = t.receiveCount + UInt64.ofNat (new.countP WireMessage.counts)
  closed : t'.closed = t.closed

section Handle
variable {srv : Server γ} {src : SockAddr} {m : Mem} {msg : Message} {t t' t'' : ServerState γ}
  {w : WireMessage} {new new' : List WireMessage}

theorem Server.Handled.refl : srv.Handled t [] t :=
  ⟨by simp, by simp, rfl⟩

theorem Server.Handled.trans (h : srv.Handled t new t') (h' : srv.Handled t' new' t'') :
    srv.Handled t (new ++ new') t'' where
  sent := by
    rw [h'.sent, h.sent, List.flatMap_append, List.append_assoc]
  count := by
    rw [h'.count, h.count, List.countP_append, UInt64.ofNat_add, UInt64.add_assoc]
  closed := h'.closed.trans h.closed

theorem Server.Undisturbed.goesOn (undisturbed : srv.Undisturbed) : srv.GoesOn := by
  intro n
  obtain ⟨hexit, hsend⟩ := undisturbed n
  exact ⟨hexit, hsend ▸ nofun⟩

section Spec
variable (hbridge : srv.params.bridge = false) (undisturbed : srv.Undisturbed)
include hbridge undisturbed

variable (src t w) in
theorem Server.settle_handled : srv.Handled t [w] (srv.settle src t w) where
  sent := by
    have hsend := (undisturbed t.handled).2
    rw [settle, List.map_append, List.flatMap_singleton, answer, ServerParams.replies, hsend,
      hbridge]
    simp only [decide_true, Bool.and_true, Bool.false_eq_true, if_false]
    split
    · rfl
    · rfl
  count := by
    rw [settle, List.countP_singleton]
    dsimp only
    cases w.counts <;> rfl
  closed := rfl

theorem Server.handleMessage_callback (h0 : 0 ≤ srv.msMaxSize) (h31 : srv.msMaxSize < 2 ^ 31)
    (src : SockAddr) (all old : List WireMessage) (t : ServerState γ) :
    CallbackOk srv.msMaxSize (srv.handleMessage src) (all.map WireMessage.view)
      (Since old (srv.Handled t)) fun _ => False := by
  refine callbackOk_since (fun _ _ _ _ hx => srv.handleMessage_outside src hx) ?_ old
  intro new s m msg w _ hv hw hnew
  obtain ⟨htrue, hstate⟩ := Server.handleMessage_settle src s h0 h31 hv hw undisturbed.goesOn
  exact ⟨htrue, hstate ▸ hnew.trans (Server.settle_handled src s w hbridge undisturbed)⟩

end Spec

/-- A receive of the next bytes of a stream handles the messages that end in them, and writes to
the receive buffer of the connection only. -/
theorem Window.Parked.receive {σ : Type*} {g : Window} {c : Ctx σ} {handle : Callback σ}
    {all : List WireMessage} {bs future : List UInt8} {n : Nat}
    (Took : List WireMessage → σ → Prop) (nothing : Took [] c.state)
    (cb : ∀ old : List WireMessage, CallbackOk g.msMaxSize handle (all.map WireMessage.view)
      (Since old Took) fun _ => False)
    (fits : ∀ w ∈ all, (w.size : Int) ≤ g.msMaxSize) (hn : n ≤ (encodeAll all).length)
    (hbs : (encodeAll all).drop n = bs ++ future) (h : g.Parked all ((encodeAll all).drop n) c)
    (hle : bs.length ≤ c.recv.curSize) :
    ∃ c', RecvFrom g.msMaxSize handle c bs true c' ∧ g.Parked all future c' ∧
      (∀ x, g.Outside x → c'.mem x = c.mem x) ∧ Took (arrived all n bs.length) c'.state := by
  obtain ⟨d, r, p, hat⟩ := h
  obtain rfl := completed_eq hn hat.all_eq hat.rest.partOf hat.future_eq
  have hlen := congrArg List.length hbs
  rw [List.length_drop, List.length_append] at hlen
  have hstart : g.Between (Since (completed all n) Took) all (bs ++ future) c := by
    rw [hbs] at hat
    exact ⟨_, r, p, hat.toRestAt.imp ⟨[], by rw [List.append_nil], nothing⟩, hat.asserts⟩
  obtain ⟨c', hr, h', houtside⟩ := Window.Between.recvFrom_true fits (cb _) bs hstart hle
  have hnext : (encodeAll all).drop (n + bs.length) = future := by
    rw [← List.drop_drop, hbs, List.drop_left' rfl]
  refine ⟨c', hr, h'.parked, houtside, ?_⟩
  obtain ⟨d', r', p', hat'⟩ := h'
  obtain rfl := completed_eq (k := n + bs.length) (by omega) hat'.all_eq hat'.rest.partOf
    (hat'.future_eq.trans hnext.symm)
  exact hat'.state.arrived

variable (srv) in
theorem Server.receive_stream {g : Window} {c : Ctx (ServerState γ)} {all : List WireMessage}
    {bs future : List UInt8} {n : Nat} (hms : g.msMaxSize = srv.msMaxSize)
    (hbridge : srv.params.bridge = false) (undisturbed : srv.Undisturbed)
    (fits : ∀ w ∈ all, (w.size : Int) ≤ g.msMaxSize) (hn : n ≤ (encodeAll all).length)
    (hbs : (encodeAll all).drop n = bs ++ future) (h : g.Parked all ((encodeAll all).drop n) c)
    (hle : bs.length ≤ c.recv.curSize) (src : SockAddr) :
    ∃ c', RecvFrom srv.msMaxSize (srv.handleMessage src) c bs true c' ∧
      g.Parked all future c' ∧ (∀ x, g.Outside x → c'.mem x = c.mem x) ∧
      srv.Handled c.state (arrived all n bs.length) c'.state := by
  have h0 := g.nonneg
  have h31 := g.lt_int
  have hcb := fun old => Server.handleMessage_callback hbridge undisturbed (hms ▸ h0) (hms ▸ h31)
    src all old c.state
  rw [← hms] at hcb ⊢
  exact h.receive (srv.Handled c.state) .refl hcb fits hn hbs hle

end Handle

/-! ## The server -/

def Connections.setRecv (t : Connections) (fd : Int) (data : FdsRecord) (recv : SocketRecvData) :
    Connections :=
  t.setRecord fd (some { data with recv := recv })

/-- The state of the server and of its connections. A connection is known to its client by the
number of connections that were accepted before it. -/
structure StreamServer (γ : Type u) where
  table : Connections
  mem : Mem
  /-- `m_pMsgReply` -/
  msg : Message
  handled : Nat
  receiveCount : UInt64
  gaps : γ
  /-- no assertion of the parser failed -/
  asserts : Bool
  /-- the connection a descriptor belongs to -/
  session : Int → Nat
  accepted : Nat
  /-- the bytes read from each connection -/
  read : Nat → Nat
  /-- the replies sent on each connection -/
  sent : Nat → List (List UInt8)

namespace StreamServer
variable (srv : Server γ) (lim : Limits) (peers : Nat → List WireMessage) (s : StreamServer γ)

/-- What `server_receive_then_send` works with. -/
def ctx (recv : SocketRecvData) : Ctx (ServerState γ) :=
  ⟨s.mem, recv, s.msg, ⟨s.handled, s.receiveCount, s.gaps, [], false⟩, s.asserts⟩

/-- `server_accept` on a listening socket. -/
def accept (out : AcceptOutside) (ifd : Int) : StreamServer γ :=
  let accepted := s.table.serverAccept lim out ifd
  let s := { s with table := accepted.table }
  if accepted.ret = ifd ∨ accepted.ret = invalidSocket then s
  else { s with
    session := Function.update s.session accepted.ret s.accepted
    accepted := s.accepted + 1 }

/-- The bytes that a read of up to `size` bytes returns: the next ones the client has written. -/
def arriving (k : Nat) (size : Nat) (recv : SocketRecvData) : List UInt8 :=
  ((encodeAll (peers k)).drop (s.read k)).take (min size recv.curSize.toNat)

/-- What a receive of `n` bytes leaves, but for the record of the connection. -/
def absorb (k n : Nat) (c : Ctx (ServerState γ)) : StreamServer γ :=
  { s with
    mem := c.mem, msg := c.msg, asserts := c.asserts
    handled := c.state.handled, receiveCount := c.state.receiveCount, gaps := c.state.gaps
    read := Function.update s.read k (s.read k + n)
    sent := Function.update s.sent k (s.sent k ++ c.state.sent.map Prod.snd) }

/-- `server_receive_then_send` on a connection, when up to `size` bytes have arrived. With none
the read returns `EAGAIN`. -/
def receive (fuel : Nat) (src : SockAddr) (size : Nat) (fd : Int) : Option (StreamServer γ) :=
  match s.table.fdsArray fd with
  | none => none
  | some data =>
    let k := s.session fd
    let bs := s.arriving peers k size data.recv
    if bs = [] then some s
    else
      match { srv with fd := data.toFdsData }.receiveThenSend fuel (s.ctx data.recv)
          (.data src bs) with
      | none => none
      | some (_, c) =>
        let s := s.absorb k bs.length c
        if c.state.closed then
          (s.table.closeIfd data.nextFd fd).map fun t => { s with table := t }
        else some { s with table := s.table.setRecv fd data c.recv }

/-- `server_receive_then_send` on a connection that its client has closed. -/
def shutdown (fd : Int) : Option (StreamServer γ) :=
  match s.table.fdsArray fd with
  | none => none
  | some data =>
    if data.isStream then (s.table.closeIfd data.nextFd fd).map fun t => { s with table := t }
    else some s

/-- A receive buffer of `2 * MAX_PAYLOAD_SIZE` bytes is apart from that of every connection. -/
def FreshBuffer (buf : Int) : Prop :=
  ∀ fd l data, s.table.kernel fd = some (.connection l) → s.table.fdsArray fd = some data →
    buf + 2 * lim.maxPayloadSize ≤ data.recv.buf ∨ data.recv.buf + 2 * lim.maxPayloadSize ≤ buf

/-- Any socket is served. TLS is not used and memory does not run out. -/
inductive Step : StreamServer γ → StreamServer γ → Prop
  | accept {s : StreamServer γ} (ifd : Int) (out : AcceptOutside) (buf : Int)
      (memory : out.buf = some buf) (buffer : s.FreshBuffer lim buf) (plain : out.tls = none)
      (fresh : 0 ≤ out.activeIfd → s.table.kernel out.activeIfd = none) :
      Step s (s.accept lim out ifd)
  | receive {s s' : StreamServer γ} (fd l : Int) (fuel : Nat) (src : SockAddr) (size : Nat)
      (connection : s.table.kernel fd = some (.connection l))
      (returns : s.receive srv peers fuel src size fd = some s') : Step s s'
  | shutdown {s s' : StreamServer γ} (fd l : Int)
      (connection : s.table.kernel fd = some (.connection l))
      (returns : s.shutdown fd = some s') : Step s s'

structure Start (t₀ : Connections) : Prop where
  table : s.table = t₀
  asserts : s.asserts = true
  accepted : s.accepted = 0
  receiveCount : s.receiveCount = 0
  read : ∀ k, s.read k = 0
  sent : ∀ k, s.sent k = []

/-- The messages of a connection that were read to their end. -/
def delivered (k : Nat) : List WireMessage := completed (peers k) (s.read k)

end StreamServer

/-! ## The table -/

namespace Connections
variable {t t₀ t' : Connections} {lim : Limits} {fd : Int} {data : FdsRecord}

variable (lim) in
theorem serverAccept_plain {out : AcceptOutside} {buf : Int} (ifd : Int)
    (memory : out.buf = some buf) (plain : out.tls = none)
    (fresh : 0 ≤ out.activeIfd → t.kernel out.activeIfd = none) :
    ((t.serverAccept lim out ifd).ret = ifd ∨ (t.serverAccept lim out ifd).ret = invalidSocket) ∧
        (t.serverAccept lim out ifd).table = t ∨
      ∃ data list, t.fdsArray ifd = some data ∧ data.activeFdList = some list ∧
        0 ≤ out.activeIfd ∧ out.activeIfd < lim.maxFdsNum ∧
        data.activeFdCount < lim.maxFdsNum - 1 ∧ invalidSocket ∈ list ∧
        (t.serverAccept lim out ifd).ret = out.activeIfd ∧
        (t.serverAccept lim out ifd).table =
          (t.setKernel out.activeIfd (some (.connection ifd))).place ifd out.activeIfd data list
            { data with
              nextFd := ifd, activeFdList := none, activeFdCount := 0
              recv := freshRecv buf lim.maxPayloadSize } := by
  unfold serverAccept
  cases hdata : t.fdsArray ifd with
  | none => exact Or.inl ⟨Or.inr rfl, rfl⟩
  | some data =>
    dsimp only
    cases hlist : data.activeFdList with
    | none => exact Or.inl ⟨Or.inl rfl, rfl⟩
    | some list =>
      dsimp only
      split
      · exact Or.inl ⟨Or.inl rfl, rfl⟩
      rw [memory, plain]
      dsimp only
      split
      · exact Or.inl ⟨Or.inr rfl, rfl⟩
      next hneg =>
      have hopen : 0 ≤ out.activeIfd := by omega
      split
      · next hroom =>
        obtain ⟨hlt, hcount, -, hfree⟩ := hroom
        exact Or.inr ⟨data, list, rfl, hlist, hopen, hlt, hcount, hfree, rfl, rfl⟩
      · refine Or.inl ⟨Or.inr rfl, ?_⟩
        rw [setKernel, setKernel]
        dsimp only
        rw [Function.update_idem, ← fresh hopen, Function.update_eq_self]

section SetRecv
variable {recv : SocketRecvData} (hdata : t.fdsArray fd = some data)
include hdata

theorem setRecv_record {k : Int} {d : FdsRecord}
    (hd : (t.setRecv fd data recv).fdsArray k = some d) :
    ∃ d₀, t.fdsArray k = some d₀ ∧ d = { d₀ with recv := d.recv } := by
  by_cases hk : k = fd
  · subst hk
    cases (Function.update_self _ _ _).symm.trans hd
    exact ⟨data, hdata, rfl⟩
  · exact ⟨d, (Function.update_of_ne hk _ _).symm.trans hd, rfl⟩

variable (recv) in
theorem record_setRecv {k : Int} {d₀ : FdsRecord} (hd : t.fdsArray k = some d₀) :
    ∃ r, (t.setRecv fd data recv).fdsArray k = some { d₀ with recv := r } := by
  by_cases hk : k = fd
  · subst hk
    cases hdata.symm.trans hd
    exact ⟨recv, Function.update_self _ _ _⟩
  · exact ⟨d₀.recv, (Function.update_of_ne hk _ _).trans hd⟩

theorem Consistent.setRecv (h : t.Consistent lim) : (t.setRecv fd data recv).Consistent lim where
  range k d hd := by
    obtain ⟨d₀, hd₀, -⟩ := setRecv_record hdata hd
    exact h.range k d₀ hd₀
  opened k hk := by
    have hne : k ≠ fd := by
      intro heq
      rw [heq] at hk
      cases (h.opened fd hk).symm.trans hdata
    exact (Function.update_of_ne hne _ _).trans (h.opened k hk)
  listener l d list hd hlist := by
    obtain ⟨d₀, hd₀, heq⟩ := setRecv_record hdata hd
    rw [heq] at hlist
    obtain ⟨hother, hlistens⟩ := h.listener l d₀ list hd₀ hlist
    rw [heq]
    exact ⟨hother, hlistens.length, hlistens.count, hlistens.nodup, hlistens.within, hlistens.mem⟩
  connection k l hconn := by
    obtain ⟨⟨d₀, hd₀, hnext, hnone⟩, d₁, list, hd₁, hlist⟩ := h.connection k l hconn
    obtain ⟨r, hr⟩ := record_setRecv recv hdata hd₀
    obtain ⟨r', hr'⟩ := record_setRecv recv hdata hd₁
    exact ⟨⟨_, hr, hnext, hnone⟩, _, list, hr', hlist⟩
  slotless k d hd hnone := by
    obtain ⟨d₀, hd₀, heq⟩ := setRecv_record hdata hd
    rw [heq] at hnone
    exact h.slotless k d₀ hd₀ hnone

theorem ServedFrom.setRecv (h : t.ServedFrom lim t₀) :
    (t.setRecv fd data recv).ServedFrom lim t₀ where
  consistent := h.consistent.setRecv hdata
  slotless k d hd hnone := by
    obtain ⟨d₀, hd₀, heq⟩ := setRecv_record hdata hd
    rw [heq] at hnone ⊢
    exact h.slotless k d₀ hd₀ hnone
  listening l := by
    rw [← h.listening]
    constructor
    · rintro ⟨d, list, hd, hlist⟩
      obtain ⟨d₀, hd₀, heq⟩ := setRecv_record hdata hd
      rw [heq] at hlist
      exact ⟨d₀, list, hd₀, hlist⟩
    · rintro ⟨d₀, list, hd₀, hlist⟩
      obtain ⟨r, hr⟩ := record_setRecv recv hdata hd₀
      exact ⟨_, list, hr, hlist⟩

end SetRecv

end Connections

/-! ## What holds in every run -/

def Window.rebase (g : Window) (base : Int) : Window := { g with base := base }

namespace StreamServer
variable {g : Window} {lim : Limits} {peers : Nat → List WireMessage} {srv : Server γ}
  {t₀ : Connections} {s : StreamServer γ}

variable (g peers s) in
/-- A connection between two receives. -/
structure Connected (fd : Int) (data : FdsRecord) : Prop where
  known : s.session fd < s.accepted
  parked : (g.rebase data.recv.buf).Parked (peers (s.session fd))
    ((encodeAll (peers (s.session fd))).drop (s.read (s.session fd))) (s.ctx data.recv)

variable (g lim peers srv t₀ s) in
structure Ok : Prop where
  served : s.table.ServedFrom lim t₀
  asserts : s.asserts = true
  connected : ∀ fd l data, s.table.kernel fd = some (.connection l) →
    s.table.fdsArray fd = some data → s.Connected g peers fd data
  unique : ∀ fd fd' l l', s.table.kernel fd = some (.connection l) →
    s.table.kernel fd' = some (.connection l') → s.session fd = s.session fd' → fd = fd'
  apart : ∀ fd l data, s.table.kernel fd = some (.connection l) → s.table.fdsArray fd = some data →
    ∀ fd' l' data', s.table.kernel fd' = some (.connection l') →
      s.table.fdsArray fd' = some data' → fd ≠ fd' →
      data.recv.buf + 2 * g.maxSize ≤ data'.recv.buf ∨
        data'.recv.buf + 2 * g.maxSize ≤ data.recv.buf
  read_le : ∀ k, s.read k ≤ (encodeAll (peers k)).length
  unread : ∀ k, s.accepted ≤ k → s.read k = 0
  sent : ∀ k, s.sent k = (s.delivered peers k).flatMap srv.params.replies
  count : s.receiveCount = UInt64.ofNat
    (∑ k ∈ Finset.range s.accepted, (s.delivered peers k).countP WireMessage.counts)

variable (g peers srv) in
theorem Start.ok (h : s.Start t₀) (start : Connections.Initial lim t₀) :
    s.Ok g lim peers srv t₀ where
  served := by
    rw [h.table]
    exact start.servedFrom
  asserts := h.asserts
  connected fd l data hconn := by
    rw [h.table] at hconn
    exact absurd hconn (start.connections fd l)
  unique fd fd' l l' hconn := by
    rw [h.table] at hconn
    exact absurd hconn (start.connections fd l)
  apart fd l data hconn := by
    rw [h.table] at hconn
    exact absurd hconn (start.connections fd l)
  read_le k := by
    rw [h.read k]
    exact Nat.zero_le _
  unread k _ := h.read k
  sent k := by
    rw [h.sent k, delivered, h.read k, completed_zero]
    rfl
  count := by
    rw [h.receiveCount, h.accepted]
    rfl

theorem Ok.retable (h : s.Ok g lim peers srv t₀) {t' : Connections} (h' : t'.ServedFrom lim t₀)
    (hsub : ∀ fd l, t'.kernel fd = some (.connection l) →
      s.table.kernel fd = some (.connection l) ∧ t'.fdsArray fd = s.table.fdsArray fd) :
    Ok g lim peers srv t₀ { s with table := t' } where
  served := h'
  asserts := h.asserts
  connected fd l data hconn hdata := by
    obtain ⟨hold, hrecord⟩ := hsub fd l hconn
    obtain ⟨hknown, hparked⟩ := h.connected fd l data hold (hrecord.symm.trans hdata)
    exact ⟨hknown, hparked⟩
  unique fd fd' l l' hconn hconn' :=
    h.unique fd fd' l l' (hsub fd l hconn).1 (hsub fd' l' hconn').1
  apart fd l data hconn hdata fd' l' data' hconn' hdata' := by
    obtain ⟨hold, hrecord⟩ := hsub fd l hconn
    obtain ⟨hold', hrecord'⟩ := hsub fd' l' hconn'
    exact h.apart fd l data hold (hrecord.symm.trans hdata) fd' l' data' hold'
      (hrecord'.symm.trans hdata')
  read_le := h.read_le
  unread := h.unread
  sent := h.sent
  count := h.count

theorem Ok.shutdown (h : s.Ok g lim peers srv t₀) {fd l : Int}
    (connection : s.table.kernel fd = some (.connection l)) :
    ∃ s', s.shutdown fd = some s' ∧ s'.Ok g lim peers srv t₀ := by
  obtain ⟨⟨data, hdata, hnext, -⟩, listener, list, hlistener, hlist⟩ :=
    h.served.consistent.connection fd l connection
  have hvalid : fd ≠ invalidSocket := by
    intro heq
    have hrange := (h.served.consistent.range fd data hdata).1
    rw [heq] at hrange
    exact absurd hrange (by decide)
  unfold StreamServer.shutdown
  rw [hdata]
  dsimp only
  split
  · obtain ⟨t', hcloses, heffect⟩ := h.served.consistent.close_change hlistener hlist hvalid
    rw [hnext, hcloses]
    refine ⟨_, rfl, h.retable (h.served.event (.close l fd hvalid hcloses)) ?_⟩
    rcases heffect with ⟨-, rfl⟩ | ⟨hchange, hclosed⟩
    · exact fun k l' hconn => ⟨hconn, rfl⟩
    · intro k l' hconn
      have hkfd : k ≠ fd := by
        rintro rfl
        cases hclosed.symm.trans hconn
      rw [hchange.kernel k hkfd] at hconn
      have hkl : k ≠ l := by
        rintro rfl
        cases (hchange.listener_other h.served.consistent).1.symm.trans hconn
      exact ⟨hconn, hchange.records k hkfd hkl⟩
  · exact ⟨s, rfl, h⟩

section Steps
variable (hmax : lim.maxPayloadSize = g.maxSize)
include hmax

theorem Ok.accept (h : s.Ok g lim peers srv t₀) {out : AcceptOutside} {buf : Int} (ifd : Int)
    (memory : out.buf = some buf) (buffer : s.FreshBuffer lim buf) (plain : out.tls = none)
    (fresh : 0 ≤ out.activeIfd → s.table.kernel out.activeIfd = none) :
    (s.accept lim out ifd).Ok g lim peers srv t₀ := by
  have hevent : Connections.Event lim s.table (s.table.serverAccept lim out ifd).table :=
    .accept ifd out (by rw [plain]; decide) fresh
  have hserved := h.served.event hevent
  unfold StreamServer.accept
  dsimp only
  rcases Connections.serverAccept_plain lim ifd memory plain fresh with
    ⟨hret, htable⟩ | ⟨data, list, hdata, hlist, hopen, hlt, hroom, hfree, hret, htable⟩
  · rw [if_pos hret]
    exact h.retable hserved fun fd l hconn => by rw [htable] at hconn ⊢; exact ⟨hconn, rfl⟩
  have hclosed := fresh hopen
  have hother := (h.served.consistent.listener ifd data list hdata hlist).1
  have hne : out.activeIfd ≠ ifd := by
    intro heq
    rw [heq] at hclosed
    cases hclosed.symm.trans hother
  have hvalid : out.activeIfd ≠ invalidSocket := by
    intro heq
    rw [heq] at hopen
    exact absurd hopen (by decide)
  rw [hret, if_neg (not_or.mpr ⟨hne, hvalid⟩)]
  generalize hnew : (s.table.serverAccept lim out ifd).table = t' at htable hserved
  generalize htmp : ({ data with
    nextFd := ifd, activeFdList := none, activeFdCount := 0
    recv := freshRecv buf lim.maxPayloadSize } : FdsRecord) = tmp at htable
  have hrecv : tmp.recv = freshRecv buf g.maxSize := by rw [← htmp, hmax]
  have hkernel : t'.kernel =
      Function.update s.table.kernel out.activeIfd (some (.connection ifd)) := by
    rw [htable]
    rfl
  have hrecord : t'.fdsArray out.activeIfd = some tmp := by
    rw [htable]
    exact Function.update_self _ _ _
  -- the connections that were there before
  have hold : ∀ fd l, fd ≠ out.activeIfd → t'.kernel fd = some (.connection l) →
      s.table.kernel fd = some (.connection l) ∧ t'.fdsArray fd = s.table.fdsArray fd := by
    intro fd l hfd hconn
    rw [hkernel, Function.update_of_ne hfd] at hconn
    have hfl : fd ≠ ifd := by
      rintro rfl
      cases hother.symm.trans hconn
    refine ⟨hconn, ?_⟩
    rw [htable]
    exact (Function.update_of_ne hfd _ _).trans (Function.update_of_ne hfl _ _)
  have hbefore : ∀ fd l, fd ≠ out.activeIfd → t'.kernel fd = some (.connection l) →
      s.session fd < s.accepted := by
    intro fd l hfd hconn
    obtain ⟨hconn', -⟩ := hold fd l hfd hconn
    obtain ⟨⟨d, hd, -⟩, -⟩ := h.served.consistent.connection fd l hconn'
    exact (h.connected fd l d hconn' hd).known
  exact {
    served := hserved
    asserts := h.asserts
    connected := by
      intro fd l d hconn hd
      by_cases hfd : fd = out.activeIfd
      · subst hfd
        cases hrecord.symm.trans hd
        refine ⟨?_, ?_⟩
        · show Function.update s.session out.activeIfd s.accepted out.activeIfd < s.accepted + 1
          rw [Function.update_self]
          exact Nat.lt_succ_self _
        · dsimp only
          rw [Function.update_self, h.unread s.accepted le_rfl, List.drop_zero]
          apply Window.fresh_between _ _ _ h.asserts trivial
          show tmp.recv = freshRecv tmp.recv.buf g.maxSize
          rw [hrecv]
          rfl
      · obtain ⟨hconn', hsame⟩ := hold fd l hfd hconn
        obtain ⟨hknown, hparked⟩ := h.connected fd l d hconn' (hsame.symm.trans hd)
        refine ⟨?_, ?_⟩
        · show Function.update s.session out.activeIfd s.accepted fd < s.accepted + 1
          rw [Function.update_of_ne hfd]
          omega
        · dsimp only
          rw [Function.update_of_ne hfd]
          exact hparked
    unique := by
      intro fd fd' l l' hconn hconn' hsame
      dsimp only at hconn hconn' hsame
      by_cases hfd : fd = out.activeIfd
      · by_cases hfd' : fd' = out.activeIfd
        · exact hfd.trans hfd'.symm
        · rw [hfd, Function.update_self, Function.update_of_ne hfd'] at hsame
          have hlt' := hbefore fd' l' hfd' hconn'
          omega
      · rw [Function.update_of_ne hfd] at hsame
        by_cases hfd' : fd' = out.activeIfd
        · rw [hfd', Function.update_self] at hsame
          have hlt' := hbefore fd l hfd hconn
          omega
        · rw [Function.update_of_ne hfd'] at hsame
          exact h.unique fd fd' l l' (hold fd l hfd hconn).1 (hold fd' l' hfd' hconn').1 hsame
    apart := by
      intro fd l d hconn hd fd' l' d' hconn' hd' hdiff
      dsimp only at hconn hd hconn' hd'
      by_cases hfd : fd = out.activeIfd
      · subst hfd
        cases hrecord.symm.trans hd
        obtain ⟨hc', hsame'⟩ := hold fd' l' hdiff.symm hconn'
        have hroom' := buffer fd' l' d' hc' (hsame'.symm.trans hd')
        rw [hrecv, ← hmax]
        exact hroom'
      · obtain ⟨hc, hsame⟩ := hold fd l hfd hconn
        by_cases hfd' : fd' = out.activeIfd
        · subst hfd'
          cases hrecord.symm.trans hd'
          have hroom' := buffer fd l d hc (hsame.symm.trans hd)
          rw [hrecv, ← hmax]
          exact hroom'.symm
        · obtain ⟨hc', hsame'⟩ := hold fd' l' hfd' hconn'
          exact h.apart fd l d hc (hsame.symm.trans hd) fd' l' d' hc' (hsame'.symm.trans hd') hdiff
    read_le := h.read_le
    unread := by
      intro k hk
      exact h.unread k (Nat.le_of_succ_le hk)
    sent := h.sent
    count := by
      have hnone : s.delivered peers s.accepted = [] := by
        rw [delivered, h.unread s.accepted le_rfl, completed_zero]
      dsimp only
      rw [Finset.sum_range_succ]
      show s.receiveCount = UInt64.ofNat
        (∑ k ∈ Finset.range s.accepted, (s.delivered peers k).countP WireMessage.counts +
          (s.delivered peers s.accepted).countP WireMessage.counts)
      rw [hnone, List.countP_nil, Nat.add_zero]
      exact h.count }

end Steps

theorem delivered_absorb_self {k n : Nat} (c : Ctx (ServerState γ)) :
    (s.absorb k n c).delivered peers k = completed (peers k) (s.read k + n) :=
  congrArg (completed (peers k)) (Function.update_self _ _ _)

theorem delivered_absorb_of_ne {k n j : Nat} (c : Ctx (ServerState γ)) (h : j ≠ k) :
    (s.absorb k n c).delivered peers j = s.delivered peers j :=
  congrArg (completed (peers j)) (Function.update_of_ne h _ _)

theorem sum_absorb {k n : Nat} {new : List WireMessage} (c : Ctx (ServerState γ))
    (hknown : k < s.accepted)
    (hdelivered : completed (peers k) (s.read k + n) = s.delivered peers k ++ new) :
    ∑ j ∈ Finset.range s.accepted, ((s.absorb k n c).delivered peers j).countP WireMessage.counts =
      ∑ j ∈ Finset.range s.accepted, (s.delivered peers j).countP WireMessage.counts +
        new.countP WireMessage.counts := by
  have hmem : k ∈ Finset.range s.accepted := Finset.mem_range.mpr hknown
  have hothers : ∀ j ∈ (Finset.range s.accepted).erase k,
      ((s.absorb k n c).delivered peers j).countP WireMessage.counts =
        (s.delivered peers j).countP WireMessage.counts := by
    intro j hj
    rw [delivered_absorb_of_ne c (Finset.ne_of_mem_erase hj)]
  rw [← Finset.add_sum_erase _ _ hmem, ← Finset.add_sum_erase _ _ hmem,
    Finset.sum_congr rfl hothers, delivered_absorb_self, hdelivered, List.countP_append]
  omega

theorem Ok.absorb (h : s.Ok g lim peers srv t₀) {fd l : Int} {data : FdsRecord} {n : Nat}
    {c : Ctx (ServerState γ)} {new : List WireMessage} {future : List UInt8}
    (connection : s.table.kernel fd = some (.connection l))
    (hdata : s.table.fdsArray fd = some data)
    (hfuture : (encodeAll (peers (s.session fd))).drop (s.read (s.session fd) + n) = future)
    (hn : s.read (s.session fd) + n ≤ (encodeAll (peers (s.session fd))).length)
    (hparked : (g.rebase data.recv.buf).Parked (peers (s.session fd)) future c)
    (houtside : ∀ x, (g.rebase data.recv.buf).Outside x → c.mem x = s.mem x)
    (hsent : c.state.sent.map Prod.snd = new.flatMap srv.params.replies)
    (hcount : c.state.receiveCount =
      s.receiveCount + UInt64.ofNat (new.countP WireMessage.counts))
    (hdelivered : completed (peers (s.session fd)) (s.read (s.session fd) + n) =
      s.delivered peers (s.session fd) ++ new) :
    Ok g lim peers srv t₀ { s.absorb (s.session fd) n c with
      table := s.table.setRecv fd data c.recv } := by
  obtain ⟨hbuf, hasserts⟩ : c.recv.buf = data.recv.buf ∧ c.asserts = true := by
    obtain ⟨_, _, _, hat⟩ := hparked
    exact ⟨hat.home.buf, hat.asserts⟩
  -- every other record is the same, and this one has a new `recv`
  have hrecords : ∀ k d, (s.table.setRecv fd data c.recv).fdsArray k = some d →
      k = fd ∧ d = { data with recv := c.recv } ∨ k ≠ fd ∧ s.table.fdsArray k = some d := by
    intro k d hd
    by_cases hk : k = fd
    · subst hk
      cases (Function.update_self _ _ _).symm.trans hd
      exact Or.inl ⟨rfl, rfl⟩
    · exact Or.inr ⟨hk, (Function.update_of_ne hk _ _).symm.trans hd⟩
  have hbufs : ∀ k d, (s.table.setRecv fd data c.recv).fdsArray k = some d →
      ∃ d₀, s.table.fdsArray k = some d₀ ∧ d.recv.buf = d₀.recv.buf := by
    intro k d hd
    rcases hrecords k d hd with ⟨rfl, rfl⟩ | ⟨-, hold⟩
    · exact ⟨data, hdata, hbuf⟩
    · exact ⟨d, hold, rfl⟩
  exact {
    served := h.served.setRecv hdata
    asserts := hasserts
    connected := by
      intro k l' d hconn hd
      rcases hrecords k d hd with ⟨rfl, rfl⟩ | ⟨hk, hold⟩
      · refine ⟨(h.connected k l data connection hdata).known, ?_⟩
        dsimp only [StreamServer.absorb]
        rw [Function.update_self, hfuture, hbuf]
        exact hparked.env _
      · obtain ⟨hknown, hparked'⟩ := h.connected k l' d hconn hold
        have hsession : s.session k ≠ s.session fd := fun heq =>
          hk (h.unique k fd l' l hconn connection heq)
        refine ⟨hknown, ?_⟩
        dsimp only [StreamServer.absorb]
        rw [Function.update_of_ne hsession]
        refine Window.Between.congr hparked' rfl (hasserts.trans h.asserts.symm)
          (fun _ _ => trivial) ?_
        intro x hlow hhigh
        refine (houtside x ?_).symm
        have hapart := h.apart k l' d hconn hold fd l data connection hdata hk
        unfold Window.Outside
        dsimp only [Window.rebase] at hlow hhigh ⊢
        omega
    unique := h.unique
    apart := by
      intro k l' d hconn hd k' l'' d' hconn' hd' hdiff
      obtain ⟨d₀, hd₀, heq⟩ := hbufs k d hd
      obtain ⟨d₁, hd₁, heq'⟩ := hbufs k' d' hd'
      rw [heq, heq']
      exact h.apart k l' d₀ hconn hd₀ k' l'' d₁ hconn' hd₁ hdiff
    read_le := by
      intro k
      dsimp only [StreamServer.absorb]
      by_cases hk : k = s.session fd
      · rw [hk, Function.update_self]
        exact hn
      · rw [Function.update_of_ne hk]
        exact h.read_le k
    unread := by
      intro k hk
      have hknown := (h.connected fd l data connection hdata).known
      have hne : k ≠ s.session fd := by
        have hle : s.accepted ≤ k := hk
        omega
      dsimp only [StreamServer.absorb]
      rw [Function.update_of_ne hne]
      exact h.unread k hk
    sent := by
      intro k
      by_cases hk : k = s.session fd
      · subst hk
        refine (Function.update_self _ _ _).trans ?_
        rw [hsent, h.sent]
        refine Eq.trans ?_ (congrArg _ (delivered_absorb_self c).symm)
        rw [hdelivered, List.flatMap_append]
      · refine (Function.update_of_ne hk _ _).trans ?_
        rw [h.sent]
        exact congrArg _ (delivered_absorb_of_ne c hk).symm
    count := by
      have hknown := (h.connected fd l data connection hdata).known
      show c.state.receiveCount = UInt64.ofNat (∑ j ∈ Finset.range s.accepted,
        ((s.absorb (s.session fd) n c).delivered peers j).countP WireMessage.counts)
      rw [sum_absorb c hknown hdelivered, UInt64.ofNat_add, hcount, h.count] }

section Receive
variable (hms : g.msMaxSize = srv.msMaxSize) (hbridge : srv.params.bridge = false)
  (undisturbed : srv.Undisturbed) (fits : ∀ k, ∀ w ∈ peers k, (w.size : Int) ≤ g.msMaxSize)
include hms hbridge undisturbed fits

theorem Ok.receive (h : s.Ok g lim peers srv t₀) {fd l : Int} (src : SockAddr) (size : Nat)
    (connection : s.table.kernel fd = some (.connection l)) :
    ∃ fuel s', s.receive srv peers fuel src size fd = some s' ∧ s'.Ok g lim peers srv t₀ := by
  obtain ⟨⟨data, hdata, -, -⟩, -⟩ := h.served.consistent.connection fd l connection
  obtain ⟨hknown, hparked⟩ := h.connected fd l data connection hdata
  unfold StreamServer.receive
  rw [hdata]
  dsimp only
  generalize hbs : s.arriving peers (s.session fd) size data.recv = bs
  by_cases hnil : bs = []
  · refine ⟨0, s, ?_, h⟩
    rw [if_pos hnil]
  have hle : (bs.length : Int) ≤ data.recv.curSize := by
    have hpos := List.length_pos_iff.mpr hnil
    have hlen := congrArg List.length hbs
    rw [arriving, List.length_take] at hlen
    omega
  obtain ⟨future, hfuture⟩ : ∃ future,
      (encodeAll (peers (s.session fd))).drop (s.read (s.session fd)) = bs ++ future := by
    rw [← hbs]
    exact ⟨_, (List.take_append_drop _ _).symm⟩
  obtain ⟨c, hrecv, hparked', houtside, hnew⟩ :=
    Server.receive_stream { srv with fd := data.toFdsData } (g := g.rebase data.recv.buf) hms
      hbridge undisturbed (fits (s.session fd)) (h.read_le (s.session fd)) hfuture hparked hle src
  obtain ⟨fuel, hreceive⟩ := Server.receiveThenSend_of_recvFrom hrecv
  rw [if_pos rfl, Bool.not_true] at hreceive
  have hopen : c.state.closed = false := hnew.closed
  refine ⟨fuel, { s.absorb (s.session fd) bs.length c with
    table := s.table.setRecv fd data c.recv }, ?_, ?_⟩
  · simp only [hnil, if_false, hreceive, hopen, Bool.false_eq_true]
    rfl
  · have hrest := congrArg (List.drop bs.length) hfuture
    rw [List.drop_drop, List.drop_left] at hrest
    have hlen := congrArg List.length hfuture
    rw [List.length_drop, List.length_append] at hlen
    have hall := h.read_le (s.session fd)
    exact h.absorb connection hdata hrest (by omega) hparked' houtside hnew.sent hnew.count
      (completed_add _ _ _)

end Receive

theorem receive_mono {n k : Nat} {src : SockAddr} {size : Nat} {fd : Int} {s' : StreamServer γ}
    (h : s.receive srv peers n src size fd = some s') (hk : n ≤ k) :
    s.receive srv peers k src size fd = some s' := by
  unfold StreamServer.receive at h ⊢
  split at h
  · cases h
  · next data hdata =>
    dsimp only at h ⊢
    split at h
    · next hnil =>
      rw [if_pos hnil]
      exact h
    · next hnil =>
      rw [if_neg hnil]
      split at h
      · cases h
      · next hreceive =>
        rw [Server.receiveThenSend_mono hreceive hk]
        exact h

theorem receive_read {fuel : Nat} {src : SockAddr} {size : Nat} {fd : Int} {s' : StreamServer γ}
    {data : FdsRecord} (hdata : s.table.fdsArray fd = some data)
    (h : s.receive srv peers fuel src size fd = some s') :
    s'.read = Function.update s.read (s.session fd)
      (s.read (s.session fd) + (s.arriving peers (s.session fd) size data.recv).length) := by
  unfold StreamServer.receive at h
  rw [hdata] at h
  dsimp only at h
  split at h
  · next hnil =>
    cases h
    rw [hnil, List.length_nil, Nat.add_zero, Function.update_eq_self]
  · split at h
    · cases h
    · split at h
      · obtain ⟨t, -, rfl⟩ := Option.map_eq_some_iff.mp h
        rfl
      · cases h
        rfl

section Run
variable (hmax : lim.maxPayloadSize = g.maxSize) (hms : g.msMaxSize = srv.msMaxSize)
  (hbridge : srv.params.bridge = false) (undisturbed : srv.Undisturbed)
  (fits : ∀ k, ∀ w ∈ peers k, (w.size : Int) ≤ g.msMaxSize)
include hmax hms hbridge undisturbed fits

theorem Ok.step {s' : StreamServer γ} (h : s.Ok g lim peers srv t₀)
    (hstep : Step srv lim peers s s') : s'.Ok g lim peers srv t₀ := by
  cases hstep with
  | accept ifd out buf memory buffer plain fresh =>
    exact h.accept hmax ifd memory buffer plain fresh
  | receive fd l fuel src size connection returns =>
    obtain ⟨n, s₁, hreceive, hok⟩ := h.receive hms hbridge undisturbed fits src size connection
    have hone := receive_mono hreceive (Nat.le_max_left n fuel)
    have htwo := receive_mono returns (Nat.le_max_right n fuel)
    cases hone.symm.trans htwo
    exact hok
  | shutdown fd l connection returns =>
    obtain ⟨s₁, hshutdown, hok⟩ := h.shutdown connection
    cases hshutdown.symm.trans returns
    exact hok

theorem Ok.run {s' : StreamServer γ} (h : s.Ok g lim peers srv t₀)
    (run : Relation.ReflTransGen (Step srv lim peers) s s') : s'.Ok g lim peers srv t₀ := by
  induction run with
  | refl => exact h
  | tail _ hstep ih => exact ih.step hmax hms hbridge undisturbed fits hstep

end Run

end StreamServer

/-- Clients connect to a stream server, write whole messages and leave, and their sockets are
served in any order and in pieces of any length. Each client gets the replies to the requests that
were read from it to their end, in their order, and no others. All messages are counted. A socket
that is served is read up to what has arrived and there is room for, and no assertion fails. -/
theorem stream_server_replies (g : Window) {lim : Limits} (hmax : lim.maxPayloadSize = g.maxSize)
    (srv : Server γ) (hms : g.msMaxSize = srv.msMaxSize) (hbridge : srv.params.bridge = false)
    (undisturbed : srv.Undisturbed) (peers : Nat → List WireMessage)
    (fits : ∀ k, ∀ w ∈ peers k, (w.size : Int) ≤ g.msMaxSize) {t₀ : Connections}
    (start : Connections.Initial lim t₀) {s₀ s : StreamServer γ} (hs : s₀.Start t₀)
    (run : Relation.ReflTransGen (StreamServer.Step srv lim peers) s₀ s) :
    s.asserts = true ∧
      (∀ k, s.sent k = (completed (peers k) (s.read k)).flatMap srv.params.replies) ∧
      s.receiveCount = UInt64.ofNat (∑ k ∈ Finset.range s.accepted,
        (completed (peers k) (s.read k)).countP WireMessage.counts) ∧
      ∀ fd l, s.table.kernel fd = some (.connection l) →
        (∃ s', s.shutdown fd = some s') ∧
        ∃ data, s.table.fdsArray fd = some data ∧ 0 < data.recv.curSize ∧
          ∀ src size, ∃ fuel s', s.receive srv peers fuel src size fd = some s' ∧
            s'.read = Function.update s.read (s.session fd) (s.read (s.session fd) +
              (s.arriving peers (s.session fd) size data.recv).length) := by
  have hok := (hs.ok g peers srv start).run hmax hms hbridge undisturbed fits run
  refine ⟨hok.asserts, hok.sent, hok.count, ?_⟩
  intro fd l hconn
  obtain ⟨⟨data, hdata, -⟩, -⟩ := hok.served.consistent.connection fd l hconn
  obtain ⟨s', hshutdown, -⟩ := hok.shutdown hconn
  refine ⟨⟨s', hshutdown⟩, data, hdata, ?_, ?_⟩
  · obtain ⟨-, _, _, _, hat⟩ := hok.connected fd l data hconn hdata
    exact (Window.rest_window hat.rest).2.1
  · intro src size
    obtain ⟨fuel, s', hreceive, -⟩ := hok.receive hms hbridge undisturbed fits src size hconn
    exact ⟨fuel, s', hreceive, StreamServer.receive_read hdata hreceive⟩

def pings (k : Nat) : List WireMessage := [⟨⟨UInt64.ofNat k, 3, 14⟩, [], rfl⟩]

def tcpServer : StreamServer Unit :=
  ⟨tcpStart, fun _ => 0, ⟨0⟩, 0, 0, (), true, fun _ => 0, 0, fun _ => 0, fun _ => []⟩

theorem tcpServer_start : tcpServer.Start tcpStart :=
  ⟨rfl, rfl, rfl, rfl, fun _ => rfl, fun _ => rfl⟩

theorem pings_fit (k : Nat) :
    ∀ w ∈ pings k, (w.size : Int) ≤ Handover.serverWindow.msMaxSize := by
  intro w hw
  rw [List.mem_singleton.mp hw]
  show (14 : Int) ≤ 65508
  decide

theorem stream_server_replies_ping : ∃ s : StreamServer Unit,
    s.read 0 = 14 ∧ s.sent 0 = (pings 0).map fun w => w.echo.encode := by
  have first : StreamServer.Step udpServer tcpLimits pings tcpServer _ := .accept 3 (accepts 4) 0
    rfl (fun fd l data hconn => absurd hconn (tcpStart_initial.connections fd l)) rfl fun _ => rfl
  have haccept := Relation.ReflTransGen.single first
  have hall := fun s run => stream_server_replies Handover.serverWindow
    (show tcpLimits.maxPayloadSize = _ from rfl) udpServer rfl rfl (fun _ => ⟨rfl, rfl⟩) pings
    pings_fit tcpStart_initial tcpServer_start (s := s) run
  obtain ⟨-, -, -, hserve⟩ := hall _ haccept
  obtain ⟨-, data, hdata, -, hreceive⟩ := hserve 4 3 rfl
  obtain ⟨fuel, s, hs, hread⟩ := hreceive (.inet 1 1) 14
  obtain ⟨-, hsent, -⟩ := hall s (haccept.tail (.receive 4 3 fuel _ 14 rfl hs))
  cases hdata
  have hwhole : s.read 0 = 14 := congrFun hread 0
  refine ⟨s, hwhole, ?_⟩
  rw [hsent, hwhole]
  rfl

end Sockperf
