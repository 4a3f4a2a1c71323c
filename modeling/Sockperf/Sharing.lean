import Sockperf.Buffered

/-!
# Sockets that share a Message

A server reads all its sockets through one `Message`, which is left pointing
into the buffer of whatever socket was read last. `process_chunk` sets it again
before it looks at it, so the messages of a socket are those it delivers alone.
-/

namespace Sockperf

open Memory While
set_option autoImplicit false

universe u v
variable {ι : Type v} {σ : Type u}

/-! ## One read in two runs -/

namespace Window
variable {g : Window} {handle : Callback σ} {P : List MessageView → σ → Prop}
  {all : List WireMessage} {future : List UInt8} {c b : Ctx σ}

section Pair
variable (g) (P : List MessageView → σ → Prop) (all : List WireMessage) (future : List UInt8)

/-- Two contexts at the same place of the stream, with the same receive data. -/
def RestPair (c b : Ctx σ) : Prop :=
  ∃ d r p, g.layout.RestAt P all future g.base d r p c ∧
    g.layout.RestAt P all future g.base d r p b ∧ c.recv = b.recv

def LoopPair (a n : Int) (l k : Loop σ) : Prop :=
  ∃ d r p len, g.layout.LoopAt P all future .inPlace a n d r p len l ∧
    g.layout.LoopAt P all future .inPlace a n d r p len k ∧ l.vars = k.vars

end Pair

theorem finish_recv_congr {l k : Loop σ} (h : l.ctx.recv = k.ctx.recv) :
    (l.finish .inPlace).recv = (k.finish .inPlace).recv := by
  by_cases hoff : l.ctx.recv.curOffset = 0
  · have hoff' : k.ctx.recv.curOffset = 0 := h ▸ hoff
    rw [Loop.finish, if_pos hoff, Loop.finish, if_pos hoff', h]
  · have hoff' : k.ctx.recv.curOffset ≠ 0 := h ▸ hoff
    rw [Loop.finish_inPlace_recv hoff, Loop.finish_inPlace_recv hoff', h]

theorem LoopPair.lockstep (fits : ∀ w ∈ all, (w.size : Int) ≤ g.msMaxSize)
    (cb : CallbackOk g.msMaxSize handle (all.map WireMessage.view) P fun _ => False) (a n : Int) :
    Lockstep (Loop.turn .inPlace g.msMaxSize handle) (Loop.turn .inPlace g.msMaxSize handle)
      (g.LoopPair P all future a n) fun q q' => q.1 = true ∧ q'.1 = true ∧
        g.RestPair P all future q.2 q'.2 := by
  rintro l k ⟨d, r, p, len, hl, hk, hvars⟩
  have hlen : l.len = k.len := congrArg LoopVars.len hvars
  rcases Int.lt_or_le 0 l.len with hpos | hend
  · obtain ⟨w, rest, rfl, f⟩ := hl.front hpos
    obtain ⟨w', rest', heq, f'⟩ := hk.front (hlen ▸ hpos)
    cases heq
    -- a read is one chunk
    obtain ⟨j, chunk⟩ := f.chunk
    obtain ⟨j', chunk'⟩ := f'.chunk
    obtain rfl := chunk.plain rfl
    obtain rfl := chunk'.plain rfl
    rcases Nat.lt_or_ge (p + j') w.size with hlt | hle
    · obtain ⟨l', ht, h', hvars', -⟩ := hl.keep handle f chunk hlt
      obtain ⟨k', ht', hk', hvars'', -⟩ := hk.keep handle f' chunk' hlt
      refine Or.inl ⟨l', k', ht, ht', d, _, _, _, h', hk', ?_⟩
      rw [hvars', hvars'', hvars]
    · rcases hl.deliver fits cb f chunk hle with ⟨l', ht, h', hvars', -⟩ | ⟨_, -, hrej⟩
      · rcases hk.deliver fits cb f' chunk' hle with ⟨k', ht', hk', hvars'', -⟩ | ⟨_, -, hrej⟩
        · refine Or.inl ⟨l', k', ht, ht', _, _, _, _, h', hk', ?_⟩
          rw [hvars', hvars'', hvars]
        · exact absurd hrej id
      · exact absurd hrej id
  · have hzero := hl.stage.len_eq
    exact Or.inr ⟨_, _, Loop.turn_exit hend, Loop.turn_exit (hlen ▸ hend), rfl, rfl,
      ⟨d, r, p, (hl.exit (by omega)).1, (hk.exit (by omega)).1,
        finish_recv_congr (congrArg LoopVars.recv hvars)⟩⟩

theorem enter_vars_congr (hrecv : c.recv = b.recv) (buf len : Int) :
    (Sockperf.enter c buf len).vars = (Sockperf.enter b buf len).vars := by
  by_cases hoff : c.recv.curOffset = 0
  · have hoff' : b.recv.curOffset = 0 := hrecv ▸ hoff
    rw [enter_of_zero hoff, enter_of_zero hoff', Loop.vars, Loop.vars, hrecv]
  · have hoff' : b.recv.curOffset ≠ 0 := hrecv ▸ hoff
    rw [enter_of_ne hoff, enter_of_ne hoff', Loop.vars, Loop.vars, hrecv]

/-- A read that fits in one of two runs is processed in both, and leaves them together. -/
theorem RestPair.recvFrom (fits : ∀ w ∈ all, (w.size : Int) ≤ g.msMaxSize)
    (cb : CallbackOk g.msMaxSize handle (all.map WireMessage.view) P fun _ => False)
    {bs : List UInt8} (h : g.RestPair P all (bs ++ future) c b) (hle : bs.length ≤ c.recv.curSize) :
    ∃ c' b', RecvFrom g.msMaxSize handle c bs true c' ∧ RecvFrom g.msMaxSize handle b bs true b' ∧
      g.RestPair P all future c' b' ∧ ∀ x, g.Outside x → c'.mem x = c.mem x := by
  obtain ⟨d, r, p, hc, hb, hrecv⟩ := h
  obtain ⟨ok, c', hr, htrue, hfalse⟩ := recvFrom_rest fits cb hc hle
  cases ok with
  | false => exact absurd (hfalse rfl) id
  | true =>
    obtain ⟨-, -, hmem⟩ := htrue rfl
    have hcl := (hc.received bs).enter fits load_store_same
      (Layout.fed_received trivial hle (rest_start hc.rest))
    have hbl := (hb.received bs).enter fits load_store_same
      (Layout.fed_received trivial (hrecv ▸ hle) (rest_start hb.rest))
    rw [← hrecv] at hbl
    have hvars := enter_vars_congr (c := receivePendingData c bs) (b := receivePendingData b bs)
      hrecv (c.recv.curAddr + c.recv.curOffset) bs.length
    obtain ⟨⟨ok, b'⟩, hr', hok, hok', hpair⟩ :=
      (LoopPair.lockstep fits cb _ _).returns ⟨d, r, p, bs.length, hcl, hbl, hvars⟩ hr
    dsimp only at hok'
    subst hok'
    refine ⟨c', b', hr, ?_, hpair, hmem⟩
    rw [RecvFrom, ← hrecv]
    exact hr'

end Window

/-! ## The sockets -/

/-- The receive buffer of a socket, and the strategy of the parser it is read through. -/
inductive Place where
  | inPlace (g : Window)
  | buffer (g : Arena)

/-- One call of `process_buffer`: the bytes, the buffer of the library they stand in (if the
socket does not read into its own), and what happened to the memory since the last call. -/
structure Incoming where
  bytes : List UInt8
  addr : Int
  memory : Mem → Mem

namespace Place

def low : Place → Int
  | inPlace g => g.base
  | buffer g => g.base

def high : Place → Int
  | inPlace g => g.base + 2 * g.maxSize
  | buffer g => g.base + g.cap

def maxSize : Place → Int
  | inPlace g => g.maxSize
  | buffer g => g.maxSize

def msMaxSize : Place → Int
  | inPlace g => g.msMaxSize
  | buffer g => g.msMaxSize

def Outside (q : Place) (x : Int) : Prop := x < q.low ∨ q.high ≤ x

/-- The bytes of a library buffer, which the parser and the callback may change. -/
def Touches (a : Incoming) (x : Int) : Place → Prop
  | inPlace _ => False
  | buffer _ => a.addr ≤ x ∧ x < a.addr + a.bytes.length

/-- A library buffer does not overlap the receive buffer of `r`. -/
def Clear (q : Place) (a : Incoming) (r : Place) : Prop :=
  match q with
  | inPlace _ => True
  | buffer _ => a.addr + a.bytes.length ≤ r.low ∨ r.high ≤ a.addr

/-- A library buffer holds the bytes when the call is made. -/
def Holds (a : Incoming) : Place → Prop
  | inPlace _ => True
  | buffer _ => ∀ m, load (a.memory m) a.addr a.bytes.length = a.bytes

/-- `recv` returns something, and no more than it was asked for. -/
def Fits (recv : SocketRecvData) (a : Incoming) : Place → Prop
  | inPlace _ => 1 ≤ a.bytes.length ∧ a.bytes.length ≤ recv.curSize
  | buffer _ => True

def Call (handle : Callback σ) (c : Ctx σ) (a : Incoming) (c' : Ctx σ) : Place → Prop
  | inPlace g => RecvFrom g.msMaxSize handle { c with mem := a.memory c.mem } a.bytes true c'
  | buffer g => ProcessBuffer .buffer g.msMaxSize handle { c with mem := a.memory c.mem } a.addr
      a.bytes.length true c'

/-- The calls for one socket, with a memory and a `Message` of its own. -/
inductive Alone (q : Place) (handle : Callback σ) : Ctx σ → List Incoming → Ctx σ → Prop
  | nil (c : Ctx σ) : Alone q handle c [] c
  | cons {c c' c'' : Ctx σ} {a : Incoming} {rest : List Incoming} (head : q.Call handle c a c')
      (tail : Alone q handle c' rest c'') : Alone q handle c (a :: rest) c''

structure Fresh (q : Place) (c : Ctx (σ × List MessageView)) : Prop where
  recv : c.recv = freshRecv q.low q.maxSize
  log : c.state.2 = []
  asserts : c.asserts = true

end Place

/-- The sockets of a server or a client: one memory, one `Message` and one state of the handler;
each socket has its receive data. The messages delivered for each socket are written down. -/
structure Shared (ι : Type v) (σ : Type u) where
  mem : Mem
  msg : Message
  state : σ
  recv : ι → SocketRecvData
  log : ι → List MessageView
  asserts : ι → Bool

namespace Shared
variable [DecidableEq ι] (s : Shared ι σ) (i : ι)

/-- What a call for the socket `i` works with. -/
def ctx : Ctx (σ × List MessageView) := ⟨s.mem, s.recv i, s.msg, (s.state, s.log i), s.asserts i⟩

def put (c : Ctx (σ × List MessageView)) : Shared ι σ where
  mem := c.mem
  msg := c.msg
  state := c.state.1
  recv := Function.update s.recv i c.recv
  log := Function.update s.log i c.state.2
  asserts := Function.update s.asserts i c.asserts

theorem ctx_put_self (c : Ctx (σ × List MessageView)) : (s.put i c).ctx i = c := by
  simp [ctx, put]

variable {i} in
theorem ctx_put_other (c : Ctx (σ × List MessageView)) {j : ι} (h : j ≠ i) :
    (s.put i c).ctx j = ⟨c.mem, s.recv j, c.msg, (c.state.1, s.log j), s.asserts j⟩ := by
  simp [ctx, put, h]

section Runs
variable (place : ι → Place) (handle : ι → Callback σ)

def callback : Callback (σ × List MessageView) := logging (place i).msMaxSize (handle i)

/-- Calls for any sockets in any order. -/
inductive Interleaved : Shared ι σ → List (ι × Incoming) → Shared ι σ → Prop
  | nil (s : Shared ι σ) : Interleaved s [] s
  | cons {s s' : Shared ι σ} {i : ι} {a : Incoming} {rest : List (ι × Incoming)}
      {c : Ctx (σ × List MessageView)}
      (head : (place i).Call (callback i place handle) (s.ctx i) a c)
      (tail : Interleaved (s.put i c) rest s') : Interleaved s ((i, a) :: rest) s'

def Fits : Shared ι σ → List (ι × Incoming) → Prop
  | _, [] => True
  | s, (i, a) :: rest => (place i).Fits (s.recv i) a ∧
      ∀ c, (place i).Call (callback i place handle) (s.ctx i) a c → Fits (s.put i c) rest

end Runs

end Shared

/-- The calls for the socket `i` among all of them. -/
def ownCalls [DecidableEq ι] (i : ι) (ops : List (ι × Incoming)) : List Incoming :=
  (ops.filter fun op => op.1 = i).map Prod.snd

/-- Receive buffers are not touched from outside, and library buffers lie elsewhere. -/
structure Incoming.Admitted (place : ι → Place) (i : ι) (a : Incoming) : Prop where
  keeps : ∀ j m, Agree m (a.memory m) (place j).low (place j).high
  clear : ∀ j, (place i).Clear a (place j)
  holds : (place i).Holds a

/-! ## One call -/

namespace Place
variable {q : Place} {all : List WireMessage} {future : List UInt8}
  {c b : Ctx (σ × List MessageView)}

def Pair (all : List WireMessage) (future : List UInt8) (c b : Ctx (σ × List MessageView)) :
    Place → Prop
  | inPlace g => g.RestPair (fun vs s => s.2 = vs) all future c b
  | buffer g => g.Between (fun vs s => s.2 = vs) all future c ∧
      g.Between (fun vs s => s.2 = vs) all future b

theorem Fresh.pair (hc : q.Fresh c) (hb : q.Fresh b) (all : List WireMessage) :
    q.Pair all (encodeAll all) c b := by
  cases q with
  | inPlace g =>
    exact ⟨[], all, 0, Layout.fresh_restAt _ all hc.recv hc.log,
      Layout.fresh_restAt _ all hb.recv hb.log, hc.recv.trans hb.recv.symm⟩
  | buffer g =>
    exact ⟨Arena.fresh_between _ all hc.recv hc.log, Arena.fresh_between _ all hb.recv hb.log⟩

theorem Pair.congr {c' : Ctx (σ × List MessageView)} (h : q.Pair all future c b)
    (hrecv : c'.recv = c.recv) (hlog : c'.state.2 = c.state.2)
    (hm : Agree c.mem c'.mem q.low q.high) : q.Pair all future c' b := by
  cases q with
  | inPlace g =>
    obtain ⟨d, r, p, hc, hb, heq⟩ := h
    exact ⟨d, r, p, hc.congr hrecv (fun _ hP => hlog.trans hP) fun x h1 h2 _ => (hm x h1 h2).symm,
      hb, hrecv.trans heq⟩
  | buffer g => exact ⟨h.1.congr hrecv (fun _ hP => hlog.trans hP) hm, h.2⟩

theorem Pair.logs {ws : List WireMessage} {next : WireMessage} {k : Nat} (hk : k < next.size)
    (h : q.Pair (ws ++ [next]) (next.encode.drop k) c b) :
    c.state.2 = ws.map WireMessage.view ∧ b.state.2 = ws.map WireMessage.view := by
  cases q with
  | inPlace g =>
    obtain ⟨d, r, p, hc, hb, -⟩ := h
    obtain ⟨rfl, -⟩ := split_unique hc.rest.partOf hc.all_eq hk hc.future_eq
    exact ⟨hc.state, hb.state⟩
  | buffer g =>
    obtain ⟨⟨_, d, r, p, hc⟩, _, d', r', p', hb⟩ := h
    obtain ⟨rfl, -⟩ := split_unique hc.rest.partOf hc.all_eq hk hc.future_eq
    obtain ⟨rfl, -⟩ := split_unique hb.rest.partOf hb.all_eq hk hb.future_eq
    exact ⟨hc.state, hb.state⟩

section Call
variable {handle : Callback σ} (accepts : ∀ m msg s, (handle m msg s).1 = true)
  (frame : ∀ m msg s (x : Int), (x < msg.addr ∨ msg.addr + (msg.getHeader m).length.toNat ≤ x) →
    (handle m msg s).2.1 x = m x)
include accepts frame

/-- A call is made in both runs, and changes nothing but the receive buffer of
the socket and the library buffer. -/
theorem Pair.call (fits : ∀ w ∈ all, (w.size : Int) ≤ q.msMaxSize) {a : Incoming}
    (h : q.Pair all (a.bytes ++ future) c b) (hfits : q.Fits c.recv a) (hholds : q.Holds a)
    (hkeeps : ∀ m, Agree m (a.memory m) q.low q.high) (hclear : q.Clear a q) :
    ∃ c' b', q.Call (logging q.msMaxSize handle) c a c' ∧
      q.Call (logging q.msMaxSize handle) b a b' ∧ q.Pair all future c' b' ∧
      ∀ x, q.Outside x → ¬ q.Touches a x → c'.mem x = a.memory c.mem x := by
  cases q with
  | inPlace g =>
    obtain ⟨d, r, p, hc, hb, heq⟩ := h
    have hpair : g.RestPair (fun vs s => s.2 = vs) all (a.bytes ++ future)
        { c with mem := a.memory c.mem } { b with mem := a.memory b.mem } :=
      ⟨d, r, p, hc.congr rfl (fun _ hP => hP) fun x h1 h2 _ => (hkeeps _ x h1 h2).symm,
        hb.congr rfl (fun _ hP => hP) fun x h1 h2 _ => (hkeeps _ x h1 h2).symm, heq⟩
    obtain ⟨c', b', hc', hb', hpair', hmem⟩ :=
      hpair.recvFrom fits (logging_ok accepts frame _) hfits.2
    exact ⟨c', b', hc', hb', hpair', fun x hx _ => hmem x hx⟩
  | buffer g =>
    have hcb : CallbackOk g.msMaxSize (logging g.msMaxSize handle) (all.map WireMessage.view)
        (fun vs s => s.2 = vs) fun _ => False := logging_ok accepts frame _
    obtain ⟨c', hc', hbetween, hmem⟩ :=
      (h.1.env (hkeeps c.mem)).processBuffer hcb fits hclear (hholds c.mem)
    obtain ⟨b', hb', hbetween', -⟩ :=
      (h.2.env (hkeeps b.mem)).processBuffer hcb fits hclear (hholds b.mem)
    refine ⟨c', b', hc', hb', ⟨hbetween, hbetween'⟩, ?_⟩
    intro x hx hnot
    apply hmem x
    refine ⟨hx, ?_⟩
    unfold Touches at hnot
    omega

end Call

end Place

/-! ## Any interleaving -/

theorem Incoming.Admitted.agree {place : ι → Place} {i j : ι} {a : Incoming}
    (h : a.Admitted place i)
    (hdisjoint : (place i).high ≤ (place j).low ∨ (place j).high ≤ (place i).low) {m m' : Mem}
    (hm : ∀ x, (place i).Outside x → ¬ (place i).Touches a x → m' x = a.memory m x) :
    Agree m m' (place j).low (place j).high := by
  intro x hlow hhigh
  rw [hm x]
  · exact h.keeps j m x hlow hhigh
  · unfold Place.Outside
    omega
  · cases hq : place i with
    | inPlace g => exact id
    | buffer g =>
      have hclear : a.addr + a.bytes.length ≤ (place j).low ∨ (place j).high ≤ a.addr := by
        have hclear := h.clear j
        rwa [hq] at hclear
      rintro ⟨hge, hlt⟩
      omega

section Interleaving
variable [DecidableEq ι] {place : ι → Place} {handle : ι → Callback σ}

theorem ownCalls_self (i : ι) (a : Incoming) (ops : List (ι × Incoming)) :
    ownCalls i ((i, a) :: ops) = a :: ownCalls i ops := by
  simp [ownCalls]

theorem ownCalls_other {i j : ι} (h : j ≠ i) (a : Incoming) (ops : List (ι × Incoming)) :
    ownCalls j ((i, a) :: ops) = ownCalls j ops := by
  simp [ownCalls, h.symm]

variable (accepts : ∀ i m msg s, (handle i m msg s).1 = true)
  (frame : ∀ i m msg s (x : Int), (x < msg.addr ∨ msg.addr + (msg.getHeader m).length.toNat ≤ x) →
    (handle i m msg s).2.1 x = m x)
  (hplace : ∀ i j, i ≠ j → (place i).high ≤ (place j).low ∨ (place j).high ≤ (place i).low)
  {all : ι → List WireMessage} (fits : ∀ i, ∀ w ∈ all i, (w.size : Int) ≤ (place i).msMaxSize)
include accepts frame hplace fits

theorem Shared.interleaved {future : ι → List UInt8} {ops : List (ι × Incoming)}
    (admitted : ∀ op ∈ ops, op.2.Admitted place op.1) {s : Shared ι σ}
    {b : ι → Ctx (σ × List MessageView)}
    (hpairs : ∀ i, (place i).Pair (all i)
      ((ownCalls i ops).flatMap Incoming.bytes ++ future i) (s.ctx i) (b i))
    (hfits : s.Fits place handle ops) :
    ∃ (s' : Shared ι σ) (b' : ι → Ctx (σ × List MessageView)),
      Shared.Interleaved place handle s ops s' ∧
      ∀ i, (place i).Alone (Shared.callback i place handle) (b i) (ownCalls i ops) (b' i) ∧
        (place i).Pair (all i) (future i) (s'.ctx i) (b' i) := by
  induction ops generalizing s b with
  | nil =>
    exact ⟨s, b, .nil s, fun i => ⟨.nil _, hpairs i⟩⟩
  | cons op ops ih =>
    obtain ⟨i, a⟩ := op
    have hadmitted : a.Admitted place i := admitted (i, a) List.mem_cons_self
    have hown := hpairs i
    rw [ownCalls_self, List.flatMap_cons, List.append_assoc] at hown
    obtain ⟨c', b₁, hc', hb₁, hpair, hmem⟩ := hown.call (accepts i) (frame i) (fits i) hfits.1
      hadmitted.holds (hadmitted.keeps i) (hadmitted.clear i)
    have hnext : ∀ j, (place j).Pair (all j)
        ((ownCalls j ops).flatMap Incoming.bytes ++ future j) ((s.put i c').ctx j)
        (Function.update b i b₁ j) := by
      intro j
      by_cases hj : j = i
      · subst hj
        rw [Shared.ctx_put_self, Function.update_self]
        exact hpair
      · have hother := hpairs j
        rw [ownCalls_other hj] at hother
        rw [Function.update_of_ne hj, Shared.ctx_put_other s c' hj]
        exact hother.congr rfl rfl (hadmitted.agree (hplace i j (Ne.symm hj)) hmem)
    obtain ⟨s', b', hrun, hall⟩ := ih (fun op hop => admitted op (List.mem_cons_of_mem _ hop))
      hnext (hfits.2 c' hc')
    refine ⟨s', b', .cons hc' hrun, ?_⟩
    intro j
    obtain ⟨halone, hpair'⟩ := hall j
    refine ⟨?_, hpair'⟩
    by_cases hj : j = i
    · subst hj
      rw [Function.update_self] at halone
      rw [ownCalls_self]
      exact .cons hb₁ halone
    · rw [Function.update_of_ne hj] at halone
      rw [ownCalls_other hj]
      exact halone

end Interleaving

/-- However the calls for the sockets are interleaved, each socket delivers the messages that it
delivers when its calls are made alone, with a memory and a `Message` of its own: the complete
messages of its stream. -/
theorem sockets_independent [DecidableEq ι] (place : ι → Place) (handle : ι → Callback σ)
    (accepts : ∀ i m msg s, (handle i m msg s).1 = true)
    (frame : ∀ i m msg s (x : Int),
      (x < msg.addr ∨ msg.addr + (msg.getHeader m).length.toNat ≤ x) →
        (handle i m msg s).2.1 x = m x)
    (hplace : ∀ i j, i ≠ j → (place i).high ≤ (place j).low ∨ (place j).high ≤ (place i).low)
    (ws : ι → List WireMessage) (next : ι → WireMessage) (k : ι → Nat)
    (fits : ∀ i, ∀ w ∈ ws i ++ [next i], (w.size : Int) ≤ (place i).msMaxSize)
    (hk : ∀ i, k i < (next i).size) {ops : List (ι × Incoming)}
    (admitted : ∀ op ∈ ops, op.2.Admitted place op.1)
    (hstream : ∀ i, (ownCalls i ops).flatMap Incoming.bytes =
      encodeAll (ws i) ++ (next i).encode.take (k i))
    {s : Shared ι σ} (hfresh : ∀ i, (place i).Fresh (s.ctx i)) (hfits : s.Fits place handle ops)
    {b : ι → Ctx (σ × List MessageView)} (hb : ∀ i, (place i).Fresh (b i)) :
    ∃ (s' : Shared ι σ) (b' : ι → Ctx (σ × List MessageView)),
      Shared.Interleaved place handle s ops s' ∧
      ∀ i, (place i).Alone (Shared.callback i place handle) (b i) (ownCalls i ops) (b' i) ∧
        s'.log i = (b' i).state.2 ∧ s'.log i = (ws i).map WireMessage.view := by
  have hpairs : ∀ i, (place i).Pair (ws i ++ [next i])
      ((ownCalls i ops).flatMap Incoming.bytes ++ (next i).encode.drop (k i)) (s.ctx i) (b i) := by
    intro i
    have hpair := (hfresh i).pair (hb i) (ws i ++ [next i])
    rw [hstream, List.append_assoc, List.take_append_drop]
    rwa [encodeAll_append, encodeAll_cons, encodeAll_nil, List.append_nil] at hpair
  obtain ⟨s', b', hrun, hall⟩ :=
    Shared.interleaved accepts frame hplace fits admitted hpairs hfits
  refine ⟨s', b', hrun, fun i => ?_⟩
  obtain ⟨halone, hpair⟩ := hall i
  obtain ⟨hlog, hlog'⟩ := hpair.logs (hk i)
  exact ⟨halone, hlog.trans hlog'.symm, hlog⟩

/-- A socket that reads into its buffer, and one that is given buffers. -/
def twoPlaces : Bool → Place
  | true => .inPlace ⟨1000, 20, 20, by decide, by decide, by decide, by decide⟩
  | false => .buffer ⟨2000, 20, 16, 20, by decide, by decide, by decide, by decide⟩

def givenBytes (bs : List UInt8) : Incoming := ⟨bs, 0, fun m => store m 0 bs⟩

theorem twoPlaces_low (i : Bool) : 1000 ≤ (twoPlaces i).low := by
  cases i with
  | true => decide
  | false => decide

theorem givenBytes_admitted {bs : List UInt8} (h : bs.length ≤ 1000) :
    (givenBytes bs).Admitted twoPlaces false where
  keeps j m := by
    have hlow := twoPlaces_low j
    apply Agree.symm
    apply agree_store
    omega
  clear j := by
    have hlow := twoPlaces_low j
    left
    dsimp only [givenBytes]
    omega
  holds _ := load_store_same

/-- A message of the second socket comes in two buffers, and the first socket is read between
them. -/
theorem sockets_independent_two :
    let w : WireMessage := ⟨⟨7, 3, 15⟩, [42], by decide⟩
    let handle : Bool → Callback Unit := fun _ m _ s => (true, m, s)
    let s : Shared Bool Unit := ⟨fun _ => 0, ⟨0⟩, (),
      fun i => freshRecv (twoPlaces i).low (twoPlaces i).maxSize, fun _ => [], fun _ => true⟩
    let ops := [(false, givenBytes (w.encode.take 5)), (true, ⟨w.encode ++ w.encode.take 3, 0, id⟩),
      (false, givenBytes (w.encode.drop 5))]
    ∃ s', Shared.Interleaved twoPlaces handle s ops s' ∧ s'.log true = [w.view] ∧
      s'.log false = [w.view] := by
  intro w handle s ops
  have fits : ∀ i, ∀ v ∈ [w] ++ [w], (v.size : Int) ≤ (twoPlaces i).msMaxSize := by
    intro i v hv
    obtain rfl : v = w := by simpa using hv
    cases i with
    | true => decide
    | false => decide
  have hplace : ∀ i j, i ≠ j → (twoPlaces i).high ≤ (twoPlaces j).low ∨
      (twoPlaces j).high ≤ (twoPlaces i).low := by decide
  have admitted : ∀ op ∈ ops, op.2.Admitted twoPlaces op.1 := by
    intro op hop
    simp only [ops, List.mem_cons, List.not_mem_nil, or_false] at hop
    rcases hop with rfl | rfl | rfl
    · exact givenBytes_admitted (by decide)
    · exact ⟨fun _ m => Agree.refl m _ _, fun _ => trivial, trivial⟩
    · exact givenBytes_admitted (by decide)
  have hfresh : ∀ i, (twoPlaces i).Fresh (s.ctx i) := fun _ => ⟨rfl, rfl, rfl⟩
  have hroom : ((w.encode ++ w.encode.take 3).length : Int) ≤ (freshRecv 1000 20).curSize := by
    decide
  have hfits : s.Fits twoPlaces handle ops :=
    ⟨trivial, fun _ _ => ⟨⟨by decide, hroom⟩, fun _ _ => ⟨trivial, fun _ _ => trivial⟩⟩⟩
  obtain ⟨s', b', hrun, hlogs⟩ := sockets_independent twoPlaces handle (fun _ _ _ _ => rfl)
    (fun _ _ _ _ _ _ => rfl) hplace (fun _ => [w]) (fun _ => w) (fun i => if i then 3 else 0) fits
    (by decide) admitted (by decide) hfresh hfits hfresh
  exact ⟨s', hrun, (hlogs true).2.2, (hlogs false).2.2⟩

end Sockperf
