import Sockperf.InPlace

/-!
# A socket between two receives

The framing invariant of a connection whose peer goes on writing, and of a
datagram socket, which starts every datagram afresh. A receive of any data the
peer may have sent returns and leaves the socket between two receives again.
-/

namespace Sockperf

open Memory While
set_option autoImplicit false

universe u
variable {σ : Type u}

namespace Window
variable {g : Window} {c c' : Ctx σ} {all : List WireMessage} {future : List UInt8}

/-- Nothing is known about the state of the callback. -/
def Parked (g : Window) (all : List WireMessage) (future : List UInt8) (c : Ctx σ) : Prop :=
  g.Between (fun _ _ => True) all future c

theorem Between.state {S : σ → Prop} (h : g.Between (fun _ s => S s) all future c) :
    S c.state := by
  obtain ⟨_, _, _, hat⟩ := h
  exact hat.state

theorem Between.parked {P : List MessageView → σ → Prop} (h : g.Between P all future c) :
    g.Parked all future c := h.imp fun _ _ => trivial

theorem Parked.env (h : g.Parked all future c) (s : σ) :
    g.Parked all future { c with state := s } :=
  h.congr rfl rfl (fun _ _ => trivial) (Agree.refl _ _ _)

theorem Parked.append (h : g.Parked all future c) (ws : List WireMessage) :
    g.Parked (all ++ ws) (future ++ encodeAll ws) c := by
  obtain ⟨d, r, p, ⟨hall, -, home, rest, hfut⟩, hasserts⟩ := h
  refine ⟨d, r ++ ws, p, ⟨by rw [hall, List.append_assoc], trivial, home, ?_, ?_⟩, hasserts⟩
  · cases rest with
    | idle _ hoff hsize haddr => exact .idle _ hoff hsize haddr
    | held held => exact .held held
  · rw [encodeAll_append, List.drop_append_of_le_length rest.partOf.le_length, hfut]

theorem Parked.single (h : g.Parked [] [] c) (w : WireMessage) : g.Parked [w] w.encode c := by
  have h' := h.append [w]
  rwa [encodeAll_cons, encodeAll_nil, List.append_nil, List.nil_append, List.nil_append] at h'

theorem Parked.recv_eq (h : g.Parked all [] c) :
    c.recv = freshRecv g.base g.maxSize ∧ c.asserts = true := h.all_read.2

theorem Parked.done (h : g.Parked all [] c) : g.Parked [] [] c :=
  fresh_between _ [] h.recv_eq.1 h.recv_eq.2 trivial

theorem Parked.curOffset (h : g.Parked [] [] c) : c.recv.curOffset = 0 := by
  rw [h.recv_eq.1]
  rfl

theorem Parked.curSize (h : g.Parked [] [] c) : c.recv.curSize = g.maxSize := by
  rw [h.recv_eq.1]
  rfl

end Window

/-! ## One side of the connection -/

section Link
variable (g : Window) (stream : Bool) (ms : List WireMessage) (read : Nat) (c : Ctx σ)

/-- A socket between two receives: the stream of messages `ms` was read up to `read`, or no
datagram is half processed. -/
def Link : Prop :=
  if stream then read ≤ (encodeAll ms).length ∧ g.Parked ms ((encodeAll ms).drop read) c
  else g.Parked [] [] c

variable {g stream ms read c}

theorem Link.fresh (hrecv : c.recv = freshRecv g.base g.maxSize) (hasserts : c.asserts = true) :
    Link g stream [] 0 c := by
  have hpark : g.Parked [] [] c := Window.fresh_between _ [] hrecv hasserts trivial
  unfold Link
  split
  · exact ⟨le_rfl, hpark⟩
  · exact hpark

theorem Link.env (h : Link g stream ms read c) (s : σ) :
    Link g stream ms read { c with state := s } := by
  unfold Link at h ⊢
  split
  · next hs =>
    rw [if_pos hs] at h
    exact ⟨h.1, h.2.env s⟩
  · next hs =>
    rw [if_neg hs] at h
    exact h.env s

theorem Link.append (h : Link g stream ms read c) (ws : List WireMessage) :
    Link g stream (ms ++ ws) read c := by
  unfold Link at h ⊢
  split
  · next hs =>
    rw [if_pos hs] at h
    rw [encodeAll_append, List.drop_append_of_le_length h.1, List.length_append]
    exact ⟨by omega, h.2.append ws⟩
  · next hs =>
    rwa [if_neg hs] at h

/-- What a callback does with any of the messages `known`: it writes to the message only and keeps
`S`, and `Q` holds when it rejects one. -/
structure HandlerOk (msMaxSize : Int) (handle : Callback σ) (known : WireMessage → Prop)
    (S Q : σ → Prop) : Prop where
  frame : ∀ s m msg (x : Int), (x < msg.addr ∨ msg.addr + 14 ≤ x) → (handle m msg s).2.1 x = m x
  tracks : ∀ s m msg w, S s → msg.isValidHeader msMaxSize m = true → known w →
    msg.view msMaxSize m = w.view → (handle m msg s).1 = true → S (handle m msg s).2.2
  rejects : ∀ s m msg w, S s → msg.isValidHeader msMaxSize m = true → known w →
    msg.view msMaxSize m = w.view → (handle m msg s).1 = false → Q (handle m msg s).2.2

variable {msMaxSize : Int} {handle : Callback σ} {known : WireMessage → Prop} {S Q : σ → Prop}

theorem HandlerOk.callback (ok : HandlerOk msMaxSize handle known S Q) {all : List WireMessage}
    (hall : ∀ w ∈ all, known w) :
    CallbackOk msMaxSize handle (all.map WireMessage.view) (fun _ s => S s) Q := by
  have hknown : ∀ {vs v}, vs ++ [v] <+: all.map WireMessage.view → ∃ w, known w ∧ v = w.view := by
    intro vs v hpre
    have hv : v ∈ all.map WireMessage.view := hpre.subset (by simp)
    obtain ⟨w, hw, rfl⟩ := List.mem_map.mp hv
    exact ⟨w, hall w hw, rfl⟩
  refine ⟨?_, ?_, ?_⟩
  · intro vs s m msg x _ _ hpre hx
    obtain ⟨w, -, hw⟩ := hknown hpre
    have hsize := w.size_eq
    rw [header_of_view hw] at hx
    apply ok.frame
    unfold WireMessage.size at hsize
    omega
  · intro vs s m msg hS hv hpre hok
    obtain ⟨w, hk, hw⟩ := hknown hpre
    exact ok.tracks s m msg w hS hv hk hw hok
  · intro vs s m msg hS hv hpre hok
    obtain ⟨w, hk, hw⟩ := hknown hpre
    exact ok.rejects s m msg w hS hv hk hw hok

/-- What a read of at most `size` bytes can return: the next bytes of what was written to the
stream, or one of the known messages. -/
def Delivers (stream : Bool) (known : WireMessage → Prop) (written : List UInt8) (size : Int)
    (bs : List UInt8) : Prop :=
  if stream then 1 ≤ bs.length ∧ bs.length ≤ size ∧ bs <+: written
  else ∃ w, known w ∧ bs = w.encode.take size.toNat

/-- A receive returns, and the link is as before unless the callback rejected a message. -/
theorem Link.receive (handler : HandlerOk g.msMaxSize handle known S Q)
    (h : Link g stream ms read c) (hS : S c.state) (hms : ∀ w ∈ ms, known w)
    (hsize : ∀ w, known w → (w.size : Int) ≤ g.maxSize) {bs : List UInt8}
    (arrives : Delivers stream known ((encodeAll ms).drop read) c.recv.curSize bs) :
    ∃ ok c', RecvFrom g.msMaxSize handle c bs ok c' ∧
      (ok = true → S c'.state ∧ Link g stream ms (read + bs.length) c') ∧
      (ok = false → Q c'.state) := by
  have hfits : ∀ w, known w → (w.size : Int) ≤ g.msMaxSize := fun w hw =>
    (hsize w hw).trans g.le_msMaxSize
  unfold Delivers at arrives
  unfold Link at h ⊢
  cases stream with
  | true =>
    rw [if_pos rfl] at h arrives
    obtain ⟨hpos, hle, future, hfut⟩ := arrives
    have hb : g.Between (fun _ s => S s) ms (bs ++ future) c := by
      rw [hfut]
      exact h.2.imp fun _ _ => hS
    obtain ⟨ok, c', hr, htrue, hfalse⟩ := Window.Between.recvFrom
      (fun w hw => hfits w (hms w hw)) (handler.callback hms) bs hb hle
    refine ⟨ok, c', hr, fun hok => ⟨(htrue hok).1.state, ?_⟩, hfalse⟩
    have hlen := congrArg List.length hfut
    rw [List.length_append, List.length_drop] at hlen
    rw [if_pos rfl, ← List.drop_drop, ← hfut, List.drop_left]
    exact ⟨by omega, (htrue hok).1.parked⟩
  | false =>
    rw [if_neg Bool.false_ne_true] at h arrives
    obtain ⟨w, hk, rfl⟩ := arrives
    have hw14 := w.size_eq
    have hwmax := hsize w hk
    have hall : ∀ v ∈ [w], known v := by
      intro v hv
      rwa [List.mem_singleton.mp hv]
    have htake : w.encode.take c.recv.curSize.toNat = w.encode := by
      apply List.take_of_length_le
      rw [h.curSize, WireMessage.encode_length]
      omega
    rw [htake]
    have hb : g.Between (fun _ s => S s) [w] (w.encode ++ []) c := by
      rw [List.append_nil]
      exact (h.single w).imp fun _ _ => hS
    obtain ⟨ok, c', hr, htrue, hfalse⟩ := Window.Between.recvFrom
      (fun v hv => hfits v (hall v hv)) (handler.callback hall) w.encode hb
      (by rw [h.curSize, WireMessage.encode_length]; exact hwmax)
    refine ⟨ok, c', hr, fun hok => ⟨(htrue hok).1.state, ?_⟩, hfalse⟩
    rw [if_neg Bool.false_ne_true]
    exact (htrue hok).1.parked.done

variable (msMaxSize handle) in
/-- `s` is what one call of the callback on the message `w` leaves of `s₀`. -/
def CalledOnce (w : WireMessage) (s₀ : σ) (ok : Bool) (s : σ) : Prop :=
  ∃ m msg, msg.isValidHeader msMaxSize m = true ∧ msg.view msMaxSize m = w.view ∧
    (handle m msg s₀).1 = ok ∧ s = (handle m msg s₀).2.2

variable (msMaxSize handle) in
def CalledUpTo (w : WireMessage) (s₀ : σ) (vs : List MessageView) (s : σ) : Prop :=
  vs = [] ∧ s = s₀ ∨ vs = [w.view] ∧ CalledOnce msMaxSize handle w s₀ true s

theorem CalledUpTo.first {w : WireMessage} {s₀ s : σ} {vs : List MessageView} {v : MessageView}
    (h : CalledUpTo msMaxSize handle w s₀ vs s) (hpre : vs ++ [v] <+: [w].map WireMessage.view) :
    vs = [] ∧ v = w.view ∧ s = s₀ := by
  rcases h with ⟨rfl, rfl⟩ | ⟨rfl, -⟩
  · exact ⟨rfl, by simpa using hpre, rfl⟩
  · have hlen := hpre.length_le
    simp at hlen

theorem callbackOk_once
    (frame : ∀ s m msg (x : Int), (x < msg.addr ∨ msg.addr + 14 ≤ x) →
      (handle m msg s).2.1 x = m x) (w : WireMessage) (s₀ : σ) :
    CallbackOk msMaxSize handle ([w].map WireMessage.view) (CalledUpTo msMaxSize handle w s₀)
      (CalledOnce msMaxSize handle w s₀ false) := by
  refine ⟨fun vs s m msg x hP _ hpre hx => ?_, fun vs s m msg hP hv hpre hok => ?_,
    fun vs s m msg hP hv hpre hok => ?_⟩
  · obtain ⟨-, hview, -⟩ := hP.first hpre
    have hw14 := w.size_eq
    rw [header_of_view hview] at hx
    unfold WireMessage.size at hw14
    exact frame s m msg x (by omega)
  · obtain ⟨rfl, hview, rfl⟩ := hP.first hpre
    exact Or.inr ⟨by rw [hview]; rfl, m, msg, hv, hview, hok, rfl⟩
  · obtain ⟨-, hview, rfl⟩ := hP.first hpre
    exact ⟨m, msg, hv, hview, hok, rfl⟩

variable (handle) in
/-- A datagram that is one message is handed out once, with its header in host order. -/
theorem Window.Parked.recvFrom_single (h : g.Parked [] [] c)
    (frame : ∀ s m msg (x : Int), (x < msg.addr ∨ msg.addr + 14 ≤ x) →
      (handle m msg s).2.1 x = m x) {w : WireMessage} (hsize : (w.size : Int) ≤ g.maxSize) :
    ∃ ok c', RecvFrom g.msMaxSize handle c w.encode ok c' ∧
      CalledOnce g.msMaxSize handle w c.state ok c'.state := by
  have hrecv := h.recv_eq
  have hstart : g.Between (CalledUpTo g.msMaxSize handle w c.state) [w] (w.encode ++ []) c := by
    have hfresh := Window.fresh_between (CalledUpTo g.msMaxSize handle w c.state) [w] hrecv.1
      hrecv.2 (Or.inl ⟨rfl, rfl⟩)
    rwa [encodeAll_cons, encodeAll_nil] at hfresh
  obtain ⟨ok, c', hr, htrue, hfalse⟩ := Window.Between.recvFrom (by
      intro v hv
      rw [List.mem_singleton.mp hv]
      exact hsize.trans g.le_msMaxSize) (callbackOk_once frame w c.state) w.encode hstart
    (by rw [h.curSize, WireMessage.encode_length]; exact hsize)
  refine ⟨ok, c', hr, ?_⟩
  cases ok with
  | false => exact hfalse rfl
  | true =>
    rcases (htrue rfl).1.all_read.1 with ⟨hnone, -⟩ | ⟨-, hcalled⟩
    · exact absurd hnone (List.cons_ne_nil _ _)
    · exact hcalled

end Link

end Sockperf
