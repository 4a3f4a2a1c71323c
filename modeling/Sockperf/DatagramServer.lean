import Sockperf.ServerMessages
import Sockperf.StreamServer

/-!
# A datagram server and all its clients

All clients of a datagram socket share its receive buffer. As long as every datagram is made of
whole messages, the server on bytes is the server on messages, from which one can read off who gets
which reply, and what the gap detection is told about a client.
-/

namespace Sockperf

open Memory While
set_option autoImplicit false

universe u
variable {γ : Type u}

section Datagram
variable {srv : Server γ} {g : Window} {c : Ctx (ServerState γ)} {ws : List WireMessage}

theorem Server.receive_datagram (hms : g.msMaxSize = srv.msMaxSize) (goesOn : srv.GoesOn)
    (src : SockAddr) (h : g.Parked [] [] c) (hsize : ((encodeAll ws).length : Int) ≤ g.maxSize) :
    ∃ c', RecvFrom srv.msMaxSize (srv.handleMessage src) c (encodeAll ws) true c' ∧
      g.Parked [] [] c' ∧ c'.state = ws.foldl (srv.settle src) c.state := by
  have h0 := g.nonneg
  have h31 := g.lt_int
  have hfits : ∀ w ∈ ws, (w.size : Int) ≤ g.msMaxSize := by
    intro w hw
    have hle := (List.sublist_flatten_of_mem (List.mem_map_of_mem (f := WireMessage.encode) hw))
      |>.length_le
    rw [WireMessage.encode_length, ← List.flatMap_def] at hle
    have hmax := g.le_msMaxSize
    unfold encodeAll at hsize
    omega
  have hstart := Window.fresh_between
    (Since [] fun new s => s = new.foldl (srv.settle src) c.state) ws h.recv_eq.1 h.recv_eq.2
    ⟨[], rfl, rfl⟩
  rw [← List.append_nil (encodeAll ws)] at hstart
  have hcb := Server.settle_callback (hms ▸ h0) (hms ▸ h31) goesOn src ws [] c.state
  rw [← hms] at hcb ⊢
  obtain ⟨c', hr, hbetween, -⟩ := hstart.recvFrom_true hfits hcb (encodeAll ws)
    (by rw [h.curSize]; exact hsize)
  obtain ⟨⟨new, hviews, hstate⟩, -⟩ := hbetween.all_read
  obtain rfl : ws = new := WireMessage.view_injective.list_map hviews
  exact ⟨c', hr, hbetween.parked.done, hstate⟩

end Datagram

/-! ## Runs -/

/-- What a receive on the socket can bring. -/
inductive DatagramEvent where
  | messages (src : SockAddr) (ws : List WireMessage)
  /-- a datagram without data, for which `recvfrom` returns 0 -/
  | empty
  | error

namespace DatagramEvent

def received : DatagramEvent → Server.Received
  | messages src ws => .data src (encodeAll ws)
  | empty => .shutdown
  | error => .error

/-- The messages, each with the address it came from. -/
def arrivals : DatagramEvent → List (SockAddr × WireMessage)
  | messages src ws => ws.map fun w => (src, w)
  | _ => []

/-- A datagram of messages is not empty and fits in what is asked for. -/
def Fits (maxSize : Int) : DatagramEvent → Prop
  | messages _ ws => ws ≠ [] ∧ ((encodeAll ws).length : Int) ≤ maxSize
  | _ => True

end DatagramEvent

namespace Server
variable (srv : Server γ)

/-- One `server_receive_then_send` after the other. -/
inductive Receives : Ctx (ServerState γ) → List DatagramEvent → Ctx (ServerState γ) → Prop
  | nil (c : Ctx (ServerState γ)) : Receives c [] c
  | cons {c c' c'' : Ctx (ServerState γ)} {e : DatagramEvent} {rest : List DatagramEvent}
      {fuel : Nat} {update : Bool}
      (head : srv.receiveThenSend fuel c e.received = some (update, c'))
      (tail : Receives c' rest c'') : Receives c (e :: rest) c''

def settleAll (t : ServerState γ) (arrivals : List (SockAddr × WireMessage)) : ServerState γ :=
  arrivals.foldl (fun t a => srv.settle a.1 t a.2) t

variable {srv} {t : ServerState γ}

theorem settleAll_append (as bs : List (SockAddr × WireMessage)) :
    srv.settleAll t (as ++ bs) = srv.settleAll (srv.settleAll t as) bs :=
  List.foldl_append

theorem settleAll_closed (as : List (SockAddr × WireMessage)) :
    (srv.settleAll t as).closed = t.closed := by
  induction as generalizing t with
  | nil => rfl
  | cons a as ih =>
    rw [settleAll, List.foldl_cons, ← settleAll, ih]
    rfl

theorem settleAll_sent (as : List (SockAddr × WireMessage)) :
    (srv.settleAll t as).sent = t.sent ++
      (as.zipIdx t.handled).flatMap fun a => srv.answer a.2 a.1.1 a.1.2 := by
  induction as generalizing t with
  | nil => exact (List.append_nil _).symm
  | cons a as ih =>
    rw [settleAll, List.foldl_cons, ← settleAll, ih, List.zipIdx_cons, List.flatMap_cons,
      ← List.append_assoc]
    rfl

theorem settleAll_receiveCount (as : List (SockAddr × WireMessage)) :
    (srv.settleAll t as).receiveCount =
      t.receiveCount + UInt64.ofNat (as.countP fun a => a.2.counts) := by
  induction as generalizing t with
  | nil => simp [settleAll]
  | cons a as ih =>
    rw [settleAll, List.foldl_cons, ← settleAll, ih, List.countP_cons]
    simp only [settle]
    by_cases hc : a.2.counts = true
    · simp only [hc, if_true, UInt64.ofNat_add, UInt64.add_assoc]
      rw [UInt64.add_comm 1]
      rfl
    · simp [hc]

theorem settleAll_gaps (as : List (SockAddr × WireMessage)) :
    (srv.settleAll t as).gaps =
      as.foldl (fun gaps a => srv.noteGap a.1 gaps (srv.gapEvent a.2)) t.gaps := by
  induction as generalizing t with
  | nil => rfl
  | cons a as ih =>
    rw [settleAll, List.foldl_cons, ← settleAll, ih]
    rfl

end Server

section Run
variable {srv : Server γ} {g : Window} {c c' : Ctx (ServerState γ)}
  (hms : g.msMaxSize = srv.msMaxSize) (goesOn : srv.GoesOn) (hdatagram : srv.fd.isStream = false)
include hms goesOn hdatagram

theorem Server.receive_event (h : g.Parked [] [] c) {e : DatagramEvent} (he : e.Fits g.maxSize) :
    ∃ c₁, (∃ fuel update, srv.receiveThenSend fuel c e.received = some (update, c₁)) ∧
      (∀ fuel update c', srv.receiveThenSend fuel c e.received = some (update, c') → c' = c₁) ∧
      g.Parked [] [] c₁ ∧ c₁.state = srv.settleAll c.state e.arrivals := by
  have hclose : srv.closeIfd c = c := by
    unfold Server.closeIfd
    rw [hdatagram]
    rfl
  cases e with
  | messages src ws =>
    obtain ⟨c₁, hr, hparked, hstate⟩ := Server.receive_datagram hms goesOn src h he.2
    refine ⟨c₁, ?_, ?_, hparked, ?_⟩
    · obtain ⟨fuel, hfuel⟩ := recvFrom_iff.mp hr
      refine ⟨fuel, false, ?_⟩
      simp only [DatagramEvent.received, Server.receiveThenSend, hfuel]
    · intro fuel update c' hc'
      simp only [DatagramEvent.received, Server.receiveThenSend] at hc'
      split at hc'
      · cases hc'
      · next c₂ hfuel =>
        cases hc'
        cases (recvFrom_iff.mpr ⟨fuel, hfuel⟩).unique hr
        rfl
      · next c₂ hfuel => cases (recvFrom_iff.mpr ⟨fuel, hfuel⟩).unique hr
    · rw [hstate, DatagramEvent.arrivals, Server.settleAll, List.foldl_map]
  | empty =>
    refine ⟨c, ⟨0, true, ?_⟩, ?_, h, rfl⟩
    · rw [DatagramEvent.received, Server.receiveThenSend, hclose]
    · intro fuel update c' hc'
      rw [DatagramEvent.received, Server.receiveThenSend, hclose] at hc'
      cases hc'
      rfl
  | error =>
    refine ⟨c, ⟨0, false, rfl⟩, ?_, h, rfl⟩
    intro fuel update c' hc'
    cases hc'
    rfl

theorem Server.receive_events {es : List DatagramEvent} (hes : ∀ e ∈ es, e.Fits g.maxSize)
    (h : g.Parked [] [] c) : ∃ c₁, srv.Receives c es c₁ ∧ (∀ c', srv.Receives c es c' → c' = c₁) ∧
      g.Parked [] [] c₁ ∧
      c₁.state = srv.settleAll c.state (es.flatMap DatagramEvent.arrivals) := by
  induction es generalizing c with
  | nil =>
    refine ⟨c, .nil c, ?_, h, rfl⟩
    intro c' hc'
    cases hc'
    rfl
  | cons e es ih =>
    obtain ⟨he, hes⟩ := List.forall_mem_cons.mp hes
    obtain ⟨c₁, ⟨fuel, update, hstep⟩, hunique, hparked, hstate⟩ :=
      Server.receive_event hms goesOn hdatagram h he
    obtain ⟨c₂, hrun, hrunUnique, hparked₂, hstate₂⟩ := ih hes hparked
    refine ⟨c₂, .cons hstep hrun, ?_, hparked₂, ?_⟩
    · intro c' hc'
      cases hc' with
      | cons hhead htail =>
        rw [hunique _ _ _ hhead] at htail
        exact hrunUnique c' htail
    · rw [hstate₂, hstate, List.flatMap_cons, Server.settleAll_append]

end Run

/-- Replies go back to where the request came from. -/
def Server.RepliesToSender (srv : Server γ) : Prop :=
  srv.fd.membershipsSize ≠ 0 ∨ srv.fd.isMulticast = false ∨ srv.params.replyViaUc = true

theorem Server.RepliesToSender.sendtoAddr {srv : Server γ} (h : srv.RepliesToSender)
    (src : SockAddr) : srv.sendtoAddr src = src := by
  unfold Server.sendtoAddr
  apply if_pos
  rcases h with h | h | h
  · simp [h]
  · simp [h]
  · simp [h]

theorem Server.RepliesToSender.mem_answer {srv : Server γ} (h : srv.RepliesToSender) {k : Nat}
    {src : SockAddr} {w : WireMessage} {q : SockAddr × List UInt8} (hq : q ∈ srv.answer k src w) :
    q.1 = src := by
  unfold Server.answer at hq
  split at hq
  · rw [List.mem_singleton.mp hq, h.sendtoAddr]
  · cases hq

theorem Server.RepliesToSender.filter_answers {srv : Server γ} (h : srv.RepliesToSender)
    (x : SockAddr) (as : List ((SockAddr × WireMessage) × Nat)) :
    (as.flatMap fun a => srv.answer a.2 a.1.1 a.1.2).filter (·.1 = x) =
      (as.filter (·.1.1 = x)).flatMap fun a => srv.answer a.2 a.1.1 a.1.2 := by
  induction as with
  | nil => rfl
  | cons a as ih =>
    rw [List.flatMap_cons, List.filter_append, ih]
    by_cases hx : a.1.1 = x
    · rw [List.filter_cons_of_pos (by simpa using hx), List.flatMap_cons]
      congr 1
      rw [List.filter_eq_self]
      intro q hq
      exact decide_eq_true ((h.mem_answer hq).trans hx)
    · rw [List.filter_cons_of_neg (by simpa using hx), List.append_left_eq_self,
        List.filter_eq_nil_iff]
      intro q hq hqx
      exact hx ((h.mem_answer hq).symm.trans (of_decide_eq_true hqx))

/-- A datagram server whose clients send whole messages, in any order and mixed with empty
datagrams and failed receives: every receive returns and leaves the socket as it was when it was
new. What was sent, counted and passed to the gap detection is a function of the messages and of
the addresses they came from, and a client gets the answers to its own messages. -/
theorem datagram_server_replies (srv : Server γ) (g : Window) (hms : g.msMaxSize = srv.msMaxSize)
    (goesOn : srv.GoesOn) (hdatagram : srv.fd.isStream = false) {c : Ctx (ServerState γ)}
    (hrecv : c.recv = freshRecv g.base g.maxSize) (hasserts : c.asserts = true)
    {es : List DatagramEvent} (hes : ∀ e ∈ es, e.Fits g.maxSize) :
    ∃ c', srv.Receives c es c' ∧ (∀ c'', srv.Receives c es c'' → c'' = c') ∧
      c'.recv = c.recv ∧ c'.asserts = true ∧ c'.state.closed = c.state.closed ∧
      c'.state.receiveCount = c.state.receiveCount +
        UInt64.ofNat ((es.flatMap DatagramEvent.arrivals).countP fun a => a.2.counts) ∧
      c'.state.gaps = (es.flatMap DatagramEvent.arrivals).foldl
        (fun gaps a => srv.noteGap a.1 gaps (srv.gapEvent a.2)) c.state.gaps ∧
      ∃ replies, c'.state.sent = c.state.sent ++ replies ∧
        replies = ((es.flatMap DatagramEvent.arrivals).zipIdx c.state.handled).flatMap
          (fun a => srv.answer a.2 a.1.1 a.1.2) ∧
        (srv.RepliesToSender → ∀ x, replies.filter (·.1 = x) =
          (((es.flatMap DatagramEvent.arrivals).zipIdx c.state.handled).filter
            (·.1.1 = x)).flatMap fun a => srv.answer a.2 a.1.1 a.1.2) := by
  have hparked : g.Parked [] [] c := Window.fresh_between _ [] hrecv hasserts trivial
  obtain ⟨c', hrun, hunique, hparked', hstate⟩ :=
    Server.receive_events hms goesOn hdatagram hes hparked
  obtain ⟨hrecv', hasserts'⟩ := hparked'.recv_eq
  refine ⟨c', hrun, hunique, hrecv'.trans hrecv.symm, hasserts', ?_, ?_, ?_, ?_⟩
  · rw [hstate, Server.settleAll_closed]
  · rw [hstate, Server.settleAll_receiveCount]
  · rw [hstate, Server.settleAll_gaps]
  · refine ⟨_, by rw [hstate, Server.settleAll_sent], rfl, ?_⟩
    intro hsender x
    exact hsender.filter_answers x _

/-- Requests of two clients with an empty datagram between them. -/
def twoClients : List DatagramEvent :=
  [.messages (.inet 1 1) (pings 1), .empty, .messages (.inet 2 2) (pings 2)]

theorem datagram_server_replies_two : ∃ c', udpServer.Receives udpFresh twoClients c' ∧
    c'.recv = udpFresh.recv ∧ c'.state.receiveCount = 2 ∧
    c'.state.sent = (pings 1).map (fun w => (.inet 1 1, w.echo.encode)) ++
      (pings 2).map fun w => (.inet 2 2, w.echo.encode) := by
  have hfits : ∀ e ∈ twoClients, e.Fits Handover.serverWindow.maxSize := by
    intro e he
    simp only [twoClients, List.mem_cons, List.not_mem_nil, or_false] at he
    rcases he with rfl | rfl | rfl
    · exact ⟨List.cons_ne_nil _ _, by decide⟩
    · trivial
    · exact ⟨List.cons_ne_nil _ _, by decide⟩
  obtain ⟨c', hrun, -, hrecv, -, -, hcount, -, replies, hsent, hreplies, -⟩ :=
    datagram_server_replies udpServer Handover.serverWindow rfl
      (fun _ => ⟨rfl, SendResult.noConfusion⟩) rfl (c := udpFresh) rfl rfl hfits
  refine ⟨c', hrun, hrecv, hcount, ?_⟩
  rw [hsent, hreplies]
  rfl

end Sockperf
