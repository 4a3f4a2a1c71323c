import Sockperf.Buffered
import Sockperf.StreamServer

/-!
# Zero-copy receives

`recvfrom_zcopy` writes descriptors into the buffer of the socket: how many packets there are, and
for each packet its identity, the number of its fragments and where they lie.
`ZCopyReadInputHandler` walks over them while the messages that it finds are handled in place, and
gives the packets back when it is done. The numbers are read from memory whenever the loops need
them.
-/

namespace Sockperf

open Memory While ByteOrder
set_option autoImplicit false

universe u v
variable {σ : Type u} {γ : Type v}

/-- Where the fields of `PacketsDataType` and of `PacketDataType` stand. -/
structure PacketLayout where
  nPacketNum : Nat
  pkts : Nat
  packetId : Nat
  szIov : Nat
  iov : Nat
  num_inside : nPacketNum + 8 ≤ pkts
  id_inside : packetId + 8 ≤ iov
  size_inside : szIov + 8 ≤ iov

/-- A `size_t` or a pointer. -/
def word (m : Mem) (a : Int) : Nat := value (load m a 8)

/-- `static_cast<int>` of a `size_t` -/
def castInt (n : Nat) : Int := (n : Int).bmod (2 ^ 32)

namespace PacketLayout
variable (lay : PacketLayout) (m : Mem) (pkt : Int)

def packetIdAt : Nat := word m (pkt + lay.packetId)

def szIovAt : Nat := word m (pkt + lay.szIov)

/-- `iov_base` and `iov_len` of `pkt->iov[i]` -/
def iovAt (i : Nat) : LibBuffer :=
  ⟨word m (pkt + lay.iov + 16 * i), castInt (word m (pkt + lay.iov + 16 * i + 8))⟩

/-- Where `cur_ptr` stands behind a packet. -/
def following : Int := pkt + lay.iov + 16 * lay.szIovAt m pkt

/-- The identities of `n` packets in a row. -/
def idsFrom : Nat → Int → List Nat
  | 0, _ => []
  | n + 1, pkt => lay.packetIdAt m pkt :: idsFrom n (lay.following m pkt)

section Walk
variable (msMaxSize : Int) (handle : Callback σ)

def iovLoop (pkt : Int) : Nat → Nat → Ctx σ → Option (Bool × Ctx σ)
  | 0, _, _ => none
  | fuel + 1, i, c =>
    if i < lay.szIovAt c.mem pkt then
      let b := lay.iovAt c.mem pkt i
      match processBuffer .buffer msMaxSize handle fuel c b.addr b.len with
      | none => none
      | some (false, c) => some (false, c)
      | some (true, c) => iovLoop pkt fuel (i + 1) c
    else some (true, c)

def packetLoop (pkts : Int) : Nat → Nat → Int → Ctx σ → Option (Bool × Ctx σ)
  | 0, _, _, _ => none
  | fuel + 1, p, curPtr, c =>
    if p < word c.mem (pkts + lay.nPacketNum) then
      match lay.iovLoop msMaxSize handle curPtr fuel 0 c with
      | none => none
      | some (false, c) => some (false, c)
      | some (true, c) => packetLoop pkts fuel (p + 1) (lay.following c.mem curPtr) c
    else some (true, c)

end Walk

end PacketLayout

structure ZeroCopyData where
  pktBuf : Int
  pkts : Option Int
  deriving DecidableEq, Repr

/-- A socket that is read without copies, with the packets that the library gave out and those it
got back. -/
structure ZcopySocket (σ : Type u) where
  ctx : Ctx σ
  data : ZeroCopyData
  given : List Nat
  returned : List Nat

/-- What `recvfrom_zcopy` did: it gave out packets and changed the memory, it copied data into the
buffer, or it failed. -/
inductive ZcopyReceived where
  | packets (recvfromAddr : SockAddr) (ids : List Nat) (memory : Mem)
  | plain (recvfromAddr : SockAddr) (bs : List UInt8)
  | shutdown
  | error

namespace ZcopySocket
variable (lay : PacketLayout) (s : ZcopySocket σ)

def iterateOverBuffers (msMaxSize : Int) (handle : Callback σ) (fuel : Nat) (nonZcopyLen : Int) :
    Option (Bool × Ctx σ) :=
  match s.data.pkts with
  | some pkts => lay.packetLoop msMaxSize handle pkts fuel 0 (pkts + lay.pkts) s.ctx
  | none => processBuffer .buffer msMaxSize handle fuel s.ctx s.data.pktBuf nonZcopyLen

/-- `cleanup`: `free_packets` is told where the packets are described, and how many. -/
def cleanup : ZcopySocket σ :=
  match s.data.pkts with
  | some pkts =>
    { s with
      returned := s.returned ++
        lay.idsFrom s.ctx.mem (word s.ctx.mem (pkts + lay.nPacketNum)) (pkts + lay.pkts)
      data := { s.data with pkts := none } }
  | none => s

end ZcopySocket

/-- The end of `server_receive_then_send_impl`. -/
def Server.zcopyFinish (srv : Server γ) (lay : PacketLayout) (s : ZcopySocket (ServerState γ)) :
    Option (Bool × Ctx (ServerState γ)) → Option (Bool × ZcopySocket (ServerState γ))
  | none => none
  | some (true, c) => some (false, { s with ctx := c }.cleanup lay)
  | some (false, c) =>
    let s := { s with ctx := c }.cleanup lay
    some (true, { s with ctx := srv.closeIfd s.ctx })

/-- `server_receive_then_send_impl<ZCopyReadInputHandler>` -/
def Server.zcopyReceiveThenSend (srv : Server γ) (lay : PacketLayout) (fuel : Nat)
    (s : ZcopySocket (ServerState γ)) : ZcopyReceived →
      Option (Bool × ZcopySocket (ServerState γ))
  | .packets recvfromAddr ids memory =>
    let s := { s with
      ctx := { s.ctx with mem := memory }
      data := { s.data with pkts := some s.data.pktBuf }
      given := s.given ++ ids }
    srv.zcopyFinish lay s
      (s.iterateOverBuffers lay srv.msMaxSize (srv.handleMessage recvfromAddr) fuel 0)
  | .plain recvfromAddr bs =>
    let s := { s with
      ctx := { s.ctx with mem := store s.ctx.mem s.data.pktBuf bs }
      data := { s.data with pkts := none } }
    srv.zcopyFinish lay s
      (s.iterateOverBuffers lay srv.msMaxSize (srv.handleMessage recvfromAddr) fuel bs.length)
  | .shutdown =>
    let s := s.cleanup lay
    some (true, { s with ctx := srv.closeIfd s.ctx })
  | .error => some (false, s.cleanup lay)

/-! ## Descriptors in memory -/

structure Fragment where
  addr : Int
  data : List UInt8
  deriving DecidableEq, Repr

structure ZcopyPacket where
  id : Nat
  frags : List Fragment
  deriving DecidableEq, Repr

namespace Fragment

def buffer (f : Fragment) : LibBuffer := ⟨f.addr, f.data.length⟩

/-- The fragment is in memory, away from the receive buffer. -/
structure Held (g : Arena) (m : Mem) (f : Fragment) : Prop where
  apart : g.Apart f.addr f.data.length
  load : load m f.addr f.data.length = f.data

/-- The fragment has no byte between `lo` and `hi`. -/
def Clear (lo hi : Int) (f : Fragment) : Prop := f.addr + f.data.length ≤ lo ∨ hi ≤ f.addr

def Disjoint (f f' : Fragment) : Prop := f'.Clear f.addr (f.addr + f.data.length)

end Fragment

namespace PacketLayout
variable (lay : PacketLayout)

def span (p : ZcopyPacket) : Nat := lay.iov + 16 * p.frags.length

def spans (ps : List ZcopyPacket) : Nat := (ps.map lay.span).sum

structure DescribesPacket (m : Mem) (a : Int) (p : ZcopyPacket) : Prop where
  id : lay.packetIdAt m a = p.id
  size : lay.szIovAt m a = p.frags.length
  iov : ∀ i f, p.frags[i]? = some f → lay.iovAt m a i = f.buffer

inductive Describes (m : Mem) : Int → List ZcopyPacket → Prop
  | nil (a : Int) : Describes m a []
  | cons {a : Int} {p : ZcopyPacket} {ps : List ZcopyPacket} (first : lay.DescribesPacket m a p)
      (rest : Describes m (a + lay.span p) ps) : Describes m a (p :: ps)

variable {lay} {m m' : Mem} {a : Int} {p : ZcopyPacket} {ps : List ZcopyPacket}

theorem word_congr {lo hi : Int} (hm : Agree m m' lo hi) (hlo : lo ≤ a) (hhi : a + 8 ≤ hi) :
    word m' a = word m a := by
  apply congrArg value
  apply load_congr
  exact hm.symm.mono hlo hhi

theorem DescribesPacket.congr {lo hi : Int} (h : lay.DescribesPacket m a p)
    (hm : Agree m m' lo hi) (hlo : lo ≤ a) (hhi : a + lay.span p ≤ hi) :
    lay.DescribesPacket m' a p := by
  have hid := lay.id_inside
  have hsize := lay.size_inside
  unfold span at hhi
  constructor
  · rw [← h.id]
    exact word_congr hm (by omega) (by omega)
  · rw [← h.size]
    exact word_congr hm (by omega) (by omega)
  · intro i f hf
    have hi : i < p.frags.length := (List.getElem?_eq_some_iff.mp hf).1
    rw [← h.iov i f hf]
    unfold iovAt
    rw [word_congr hm (by omega) (by omega), word_congr hm (by omega) (by omega)]

theorem spans_cons : lay.spans (p :: ps) = lay.span p + lay.spans ps := by
  rw [spans, List.map_cons, List.sum_cons, spans]

theorem Describes.congr {lo hi : Int} (h : lay.Describes m a ps) (hm : Agree m m' lo hi)
    (hlo : lo ≤ a) (hhi : a + lay.spans ps ≤ hi) : lay.Describes m' a ps := by
  induction h with
  | nil a => exact Describes.nil a
  | cons first rest ih =>
    rw [spans_cons] at hhi
    apply Describes.cons
    · exact first.congr hm hlo (by omega)
    · exact ih (by omega) (by omega)

theorem DescribesPacket.following_eq (h : lay.DescribesPacket m a p) :
    lay.following m a = a + lay.span p := by
  unfold following span
  rw [h.size]
  omega

theorem Describes.ids (h : lay.Describes m a ps) :
    lay.idsFrom m ps.length a = ps.map ZcopyPacket.id := by
  induction h with
  | nil a => rfl
  | cons first rest ih => rw [List.length_cons, idsFrom, first.id, first.following_eq, ih, List.map]

end PacketLayout

/-! ## The walk over the packets -/

namespace Arena
variable {g : Arena} {c : Ctx σ} {handle : Callback σ} {P : List MessageView → σ → Prop}
  {all : List WireMessage} {future : List UInt8}

/-- Only the receive buffer and the fragments are written to. -/
def Untouched (g : Arena) (frags : List Fragment) (m m' : Mem) : Prop :=
  ∀ x, x < g.base ∨ g.base + g.cap ≤ x → (∀ f ∈ frags, f.Clear x (x + 1)) → m' x = m x

theorem Untouched.trans {fs fs' : List Fragment} {m m' m'' : Mem} (h : g.Untouched fs m m')
    (h' : g.Untouched fs' m' m'') : g.Untouched (fs ++ fs') m m'' := by
  intro x hx hclear
  have hfirst := h x hx fun f hf => hclear f (List.mem_append_left fs' hf)
  have hsecond := h' x hx fun f hf => hclear f (List.mem_append_right fs hf)
  exact hsecond.trans hfirst

theorem Untouched.agree {fs : List Fragment} {m m' : Mem} {lo hi : Int}
    (h : g.Untouched fs m m') (hg : g.Apart lo (hi - lo)) (hfs : ∀ f ∈ fs, f.Clear lo hi) :
    Agree m m' lo hi := by
  intro x hlo hhi
  symm
  apply h x
  · unfold Apart at hg
    omega
  · intro f hf
    have := hfs f hf
    unfold Fragment.Clear at this ⊢
    omega

theorem Untouched.held {fs : List Fragment} {m m' : Mem} {f : Fragment}
    (h : g.Untouched fs m m') (held : f.Held g m) (hfs : ∀ f' ∈ fs, f'.Disjoint f) :
    f.Held g m' := by
  refine ⟨held.apart, ?_⟩
  conv_rhs => rw [← held.load]
  apply load_congr
  apply Agree.symm
  apply h.agree
  · have := held.apart
    rwa [add_sub_cancel_left]
  · intro f' hf'
    have := hfs f' hf'
    unfold Fragment.Disjoint Fragment.Clear at this
    unfold Fragment.Clear
    omega

section Walk
variable (cb : CallbackOk g.msMaxSize handle (all.map WireMessage.view) P fun _ => False)
  (fits : ∀ w ∈ all, (w.size : Int) ≤ g.msMaxSize) {lay : PacketLayout} {lo hi : Int}
  (region : g.Apart lo (hi - lo))
include cb fits region

theorem Between.iovLoop {pkt : ZcopyPacket} {a : Int} (hlo : lo ≤ a) (hhi : a + lay.span pkt ≤ hi)
    {frags : List Fragment} {i : Nat} (hdrop : pkt.frags.drop i = frags)
    (hd : frags.Pairwise Fragment.Disjoint) (held : ∀ f ∈ frags, f.Held g c.mem)
    (clear : ∀ f ∈ frags, f.Clear lo hi) (hdesc : lay.DescribesPacket c.mem a pkt)
    (h : g.Between P all (frags.flatMap Fragment.data ++ future) c) :
    ∃ n c', (∀ fuel, n ≤ fuel →
        lay.iovLoop g.msMaxSize handle a fuel i c = some (true, c')) ∧
      g.Between P all future c' ∧ g.Untouched frags c.mem c'.mem := by
  induction frags generalizing c i with
  | nil =>
    have hend : pkt.frags.length ≤ i := List.drop_eq_nil_iff.mp hdrop
    refine ⟨1, c, ?_, h, fun x _ _ => rfl⟩
    intro fuel hfuel
    obtain ⟨k, rfl⟩ := Nat.exists_eq_add_of_le' hfuel
    rw [PacketLayout.iovLoop, if_neg]
    rw [hdesc.size]
    omega
  | cons f frags ih =>
    obtain ⟨hf, hd'⟩ := List.pairwise_cons.mp hd
    have hheld := held f List.mem_cons_self
    rw [List.flatMap_cons, List.append_assoc] at h
    obtain ⟨c₁, hc₁, hbetween, hmem⟩ := h.processBuffer cb fits hheld.apart hheld.load
    obtain ⟨n₁, hn₁⟩ := processBuffer_iff.mp hc₁
    have huntouched : g.Untouched [f] c.mem c₁.mem := by
      intro x hx hclear
      apply hmem x
      have := hclear f List.mem_cons_self
      unfold Fragment.Clear at this
      exact ⟨hx, by omega⟩
    -- the descriptor and the other fragments are still there
    have hagree : Agree c.mem c₁.mem lo hi := by
      apply huntouched.agree region
      intro f' hf'
      rw [List.mem_singleton.mp hf']
      exact clear f List.mem_cons_self
    have hdesc₁ := hdesc.congr hagree hlo hhi
    have held₁ : ∀ f' ∈ frags, f'.Held g c₁.mem := by
      intro f' hf'
      apply huntouched.held (held f' (List.mem_cons_of_mem f hf'))
      intro f'' hf''
      rw [List.mem_singleton.mp hf'']
      exact hf f' hf'
    have hdrop₁ : pkt.frags.drop (i + 1) = frags := by
      rw [← List.tail_drop, hdrop, List.tail_cons]
    obtain ⟨n₂, c₂, hn₂, hbetween₂, huntouched₂⟩ := ih hdrop₁ hd' held₁
      (fun f' hf' => clear f' (List.mem_cons_of_mem f hf')) hdesc₁ hbetween
    refine ⟨max n₁ n₂ + 1, c₂, ?_, hbetween₂, huntouched.trans huntouched₂⟩
    intro fuel hfuel
    obtain ⟨k, rfl⟩ := Nat.exists_eq_add_of_le' (Nat.le_of_add_left_le hfuel)
    have hget : pkt.frags[i]? = some f := by
      have hzero := congrArg (·[0]?) hdrop
      rwa [List.getElem?_drop, Nat.add_zero] at hzero
    have hi : i < pkt.frags.length := (List.getElem?_eq_some_iff.mp hget).1
    have hone : Sockperf.processBuffer .buffer g.msMaxSize handle k c f.addr f.data.length =
        some (true, c₁) := iterate_mono hn₁ (by omega)
    rw [PacketLayout.iovLoop, hdesc.size, if_pos hi, hdesc.iov i f hget]
    dsimp only [Fragment.buffer]
    rw [hone]
    exact hn₂ k (by omega)

theorem Between.packetLoop {pkts cur : Int} (hnum : lo ≤ pkts)
    (hnum' : pkts + lay.pkts ≤ hi) (hlo : lo ≤ cur) {ps : List ZcopyPacket}
    (hhi : cur + lay.spans ps ≤ hi) {p : Nat}
    (hcount : word c.mem (pkts + lay.nPacketNum) = p + ps.length)
    (hd : (ps.flatMap ZcopyPacket.frags).Pairwise Fragment.Disjoint)
    (held : ∀ f ∈ ps.flatMap ZcopyPacket.frags, f.Held g c.mem)
    (clear : ∀ f ∈ ps.flatMap ZcopyPacket.frags, f.Clear lo hi)
    (hdesc : lay.Describes c.mem cur ps)
    (h : g.Between P all ((ps.flatMap ZcopyPacket.frags).flatMap Fragment.data ++ future) c) :
    ∃ n c', (∀ fuel, n ≤ fuel →
        lay.packetLoop g.msMaxSize handle pkts fuel p cur c = some (true, c')) ∧
      g.Between P all future c' ∧ g.Untouched (ps.flatMap ZcopyPacket.frags) c.mem c'.mem := by
  have hinside := lay.num_inside
  induction ps generalizing c p cur with
  | nil =>
    refine ⟨1, c, ?_, h, fun x _ _ => rfl⟩
    intro fuel hfuel
    obtain ⟨k, rfl⟩ := Nat.exists_eq_add_of_le' hfuel
    rw [PacketLayout.packetLoop, if_neg]
    rw [hcount, List.length_nil]
    omega
  | cons pkt ps ih =>
    cases hdesc with
    | cons first rest =>
    rw [PacketLayout.spans_cons] at hhi
    rw [List.flatMap_cons] at hd held clear h ⊢
    obtain ⟨hd₁, hd₂, hcross⟩ := List.pairwise_append.mp hd
    rw [List.flatMap_append, List.append_assoc] at h
    have held₁ : ∀ f ∈ pkt.frags, f.Held g c.mem :=
      fun f hf => held f (List.mem_append_left _ hf)
    have clear₁ : ∀ f ∈ pkt.frags, f.Clear lo hi :=
      fun f hf => clear f (List.mem_append_left _ hf)
    obtain ⟨n₁, c₁, hn₁, hbetween, huntouched⟩ := Between.iovLoop cb fits region hlo
      (by omega) List.drop_zero hd₁ held₁ clear₁ first h
    have hagree : Agree c.mem c₁.mem lo hi := huntouched.agree region clear₁
    have held₂ : ∀ f ∈ ps.flatMap ZcopyPacket.frags, f.Held g c₁.mem := by
      intro f hf
      apply huntouched.held (held f (List.mem_append_right _ hf))
      intro f' hf'
      exact hcross f' hf' f hf
    have hcount₁ : word c₁.mem (pkts + lay.nPacketNum) = p + 1 + ps.length := by
      rw [PacketLayout.word_congr hagree (by omega) (by omega), hcount, List.length_cons]
      omega
    obtain ⟨n₂, c₂, hn₂, hbetween₂, huntouched₂⟩ := ih (by omega) (by omega) hcount₁ hd₂ held₂
      (fun f hf => clear f (List.mem_append_right _ hf))
      (rest.congr hagree (by omega) (by omega)) hbetween
    refine ⟨max n₁ n₂ + 1, c₂, ?_, hbetween₂, huntouched.trans huntouched₂⟩
    intro fuel hfuel
    obtain ⟨k, rfl⟩ := Nat.exists_eq_add_of_le' (Nat.le_of_add_left_le hfuel)
    have hfirst := (first.congr hagree hlo (by omega)).following_eq
    rw [PacketLayout.packetLoop, if_pos (by rw [hcount, List.length_cons]; omega),
      hn₁ k (by omega)]
    dsimp only
    rw [hfirst]
    exact hn₂ k (by omega)

end Walk

end Arena

/-! ## More fuel -/

section Mono
variable {msMaxSize : Int} {handle : Callback σ} {lay : PacketLayout} {r : Bool × Ctx σ}

theorem PacketLayout.iovLoop_mono {pkt : Int} {n k i : Nat} {c : Ctx σ}
    (h : lay.iovLoop msMaxSize handle pkt n i c = some r) (hk : n ≤ k) :
    lay.iovLoop msMaxSize handle pkt k i c = some r := by
  induction n generalizing k i c with
  | zero => cases h
  | succ n ih =>
    obtain ⟨k, rfl⟩ := Nat.exists_eq_add_of_le' (Nat.le_of_add_left_le hk)
    rw [iovLoop] at h ⊢
    split at h
    · next hi =>
      rw [if_pos hi]
      dsimp only at h ⊢
      split at h
      · cases h
      · next hb =>
        rw [show processBuffer _ _ _ k _ _ _ = _ from iterate_mono hb (by omega)]
        exact h
      · next hb =>
        rw [show processBuffer _ _ _ k _ _ _ = _ from iterate_mono hb (by omega)]
        exact ih h (by omega)
    · next hi =>
      rw [if_neg hi]
      exact h

theorem PacketLayout.packetLoop_mono {pkts cur : Int} {n k p : Nat} {c : Ctx σ}
    (h : lay.packetLoop msMaxSize handle pkts n p cur c = some r) (hk : n ≤ k) :
    lay.packetLoop msMaxSize handle pkts k p cur c = some r := by
  induction n generalizing k p cur c with
  | zero => cases h
  | succ n ih =>
    obtain ⟨k, rfl⟩ := Nat.exists_eq_add_of_le' (Nat.le_of_add_left_le hk)
    rw [packetLoop] at h ⊢
    split at h
    · next hp =>
      rw [if_pos hp]
      split at h
      · cases h
      · next hb =>
        rw [iovLoop_mono hb (by omega)]
        exact h
      · next hb =>
        rw [iovLoop_mono hb (by omega)]
        exact ih h (by omega)
    · next hp =>
      rw [if_neg hp]
      exact h

theorem ZcopySocket.iterateOverBuffers_mono {s : ZcopySocket σ} {n k : Nat} {len : Int}
    (h : s.iterateOverBuffers lay msMaxSize handle n len = some r) (hk : n ≤ k) :
    s.iterateOverBuffers lay msMaxSize handle k len = some r := by
  unfold iterateOverBuffers at h ⊢
  split at h
  · exact PacketLayout.packetLoop_mono h hk
  · exact iterate_mono h hk

end Mono

section Server
variable {srv : Server γ} {lay : PacketLayout} {s s' : ZcopySocket (ServerState γ)}
  {received : ZcopyReceived} {r : Bool × ZcopySocket (ServerState γ)}

theorem Server.zcopyFinish_mono {f f' : Option (Bool × Ctx (ServerState γ))}
    (hf : ∀ x, f = some x → f' = some x) (h : srv.zcopyFinish lay s f = some r) :
    srv.zcopyFinish lay s f' = some r := by
  cases f with
  | none => cases h
  | some x =>
    rw [hf x rfl]
    exact h

theorem Server.zcopyReceiveThenSend_mono {n k : Nat}
    (h : srv.zcopyReceiveThenSend lay n s received = some r) (hk : n ≤ k) :
    srv.zcopyReceiveThenSend lay k s received = some r := by
  cases received with
  | packets src ids m =>
    exact Server.zcopyFinish_mono (fun _ hx => ZcopySocket.iterateOverBuffers_mono hx hk) h
  | plain src bs =>
    exact Server.zcopyFinish_mono (fun _ hx => ZcopySocket.iterateOverBuffers_mono hx hk) h
  | shutdown => exact h
  | error => exact h

theorem Server.zcopyReceiveThenSend_unique {n k : Nat} {r' : Bool × ZcopySocket (ServerState γ)}
    (h : srv.zcopyReceiveThenSend lay n s received = some r)
    (h' : srv.zcopyReceiveThenSend lay k s received = some r') : r = r' := by
  have hone := Server.zcopyReceiveThenSend_mono h (Nat.le_max_left n k)
  have htwo := Server.zcopyReceiveThenSend_mono h' (Nat.le_max_right n k)
  exact Option.some.inj (hone.symm.trans htwo)

/-! ## A connection that is read without copies -/

/-- Packets that the library describes at `pktBuf` and leaves in the memory `m'`. The descriptors,
the fragments and the receive buffer do not overlap. -/
structure Offers (lay : PacketLayout) (g : Arena) (pktBuf : Int) (m : Mem)
    (ps : List ZcopyPacket) (m' : Mem) : Prop where
  count : word m' (pktBuf + lay.nPacketNum) = ps.length
  describes : lay.Describes m' (pktBuf + lay.pkts) ps
  region : g.Apart pktBuf (lay.pkts + lay.spans ps)
  held : ∀ f ∈ ps.flatMap ZcopyPacket.frags, f.Held g m'
  disjoint : (ps.flatMap ZcopyPacket.frags).Pairwise Fragment.Disjoint
  clear : ∀ f ∈ ps.flatMap ZcopyPacket.frags, f.Clear pktBuf (pktBuf + lay.pkts + lay.spans ps)
  keeps : Agree m m' g.base (g.base + g.cap)

def payload (ps : List ZcopyPacket) : List UInt8 :=
  (ps.flatMap ZcopyPacket.frags).flatMap Fragment.data

/-- A connection on which `all` arrives, after `n` bytes of it were received. The library and the
other sockets may write to any memory but the receive buffer. -/
inductive ZcopyRun (srv : Server γ) (lay : PacketLayout) (g : Arena) (all : List WireMessage)
    (s₀ : ZcopySocket (ServerState γ)) : ZcopySocket (ServerState γ) → Nat → Prop
  | start : ZcopyRun srv lay g all s₀ s₀ 0
  | packets {s s' : ZcopySocket (ServerState γ)} {n fuel : Nat} {ps : List ZcopyPacket} {m : Mem}
      {doUpdate : Bool} (src : SockAddr) (before : ZcopyRun srv lay g all s₀ s n)
      (offers : Offers lay g s.data.pktBuf s.ctx.mem ps m)
      (arrives : payload ps <+: (encodeAll all).drop n)
      (returns : srv.zcopyReceiveThenSend lay fuel s (.packets src (ps.map ZcopyPacket.id) m) =
        some (doUpdate, s')) :
      ZcopyRun srv lay g all s₀ s' (n + (payload ps).length)
  | plain {s s' : ZcopySocket (ServerState γ)} {n fuel : Nat} {bs : List UInt8}
      {doUpdate : Bool} (src : SockAddr) (before : ZcopyRun srv lay g all s₀ s n)
      (room : bs.length ≤ srv.msMaxSize) (arrives : bs <+: (encodeAll all).drop n)
      (returns : srv.zcopyReceiveThenSend lay fuel s (.plain src bs) = some (doUpdate, s')) :
      ZcopyRun srv lay g all s₀ s' (n + bs.length)
  | error {s s' : ZcopySocket (ServerState γ)} {n fuel : Nat} {doUpdate : Bool}
      (before : ZcopyRun srv lay g all s₀ s n)
      (returns : srv.zcopyReceiveThenSend lay fuel s .error = some (doUpdate, s')) :
      ZcopyRun srv lay g all s₀ s' n
  | elsewhere {s : ZcopySocket (ServerState γ)} {n : Nat} (m : Mem) (msg : Message)
      (before : ZcopyRun srv lay g all s₀ s n) (keeps : Agree s.ctx.mem m g.base (g.base + g.cap)) :
      ZcopyRun srv lay g all s₀ { s with ctx := { s.ctx with mem := m, msg := msg } } n

structure ZcopySocket.Fresh (g : Arena) (s : ZcopySocket (ServerState γ)) : Prop where
  recv : s.ctx.recv = freshRecv g.base g.maxSize
  pkts : s.data.pkts = none
  none_out : s.returned = s.given
  buffer : g.Apart s.data.pktBuf g.msMaxSize

structure ZcopySocket.Ok (srv : Server γ) (g : Arena) (all : List WireMessage) (t : ServerState γ)
    (s : ZcopySocket (ServerState γ)) (n : Nat) : Prop where
  between : g.Between (Since [] (srv.Handled t)) all ((encodeAll all).drop n) s.ctx
  pkts : s.data.pkts = none
  none_out : s.returned = s.given
  buffer : g.Apart s.data.pktBuf g.msMaxSize
  le : n ≤ (encodeAll all).length

variable {g : Arena} {all : List WireMessage} {t : ServerState γ} {n : Nat}

theorem ZcopySocket.Fresh.ok (h : s.Fresh g) : s.Ok srv g all s.ctx.state 0 where
  between := Arena.fresh_between _ all h.recv ⟨[], rfl, .refl⟩
  pkts := h.pkts
  none_out := h.none_out
  buffer := h.buffer
  le := Nat.zero_le _

theorem ZcopySocket.Ok.handled (h : s.Ok srv g all t n) :
    srv.Handled t (completed all n) s.ctx.state := by
  obtain ⟨e, d, r, p, hat⟩ := h.between
  obtain rfl := completed_eq h.le hat.all_eq hat.rest.partOf hat.future_eq
  obtain ⟨ws, hviews, hws⟩ := hat.state
  obtain rfl : completed all n = ws := WireMessage.view_injective.list_map hviews
  exact hws

section Steps
variable (hms : g.msMaxSize = srv.msMaxSize) (hbridge : srv.params.bridge = false)
  (undisturbed : srv.Undisturbed) (fits : ∀ w ∈ all, (w.size : Int) ≤ g.msMaxSize)
include hms hbridge undisturbed fits

omit fits in
theorem Server.handledAll_callback (src : SockAddr) :
    CallbackOk g.msMaxSize (srv.handleMessage src) (all.map WireMessage.view) (Since [] (srv.Handled t))
      fun _ => False := by
  have h0 := g.nonneg
  have h31 := g.lt_int
  rw [hms] at h0 h31 ⊢
  exact Server.handleMessage_callback hbridge undisturbed h0 h31 src all [] t

theorem ZcopySocket.Ok.packets (h : s.Ok srv g all t n) {ps : List ZcopyPacket} {m : Mem}
    (src : SockAddr) (offers : Offers lay g s.data.pktBuf s.ctx.mem ps m)
    (arrives : payload ps <+: (encodeAll all).drop n) :
    ∃ fuel s', srv.zcopyReceiveThenSend lay fuel s (.packets src (ps.map ZcopyPacket.id) m) =
      some (false, s') ∧ s'.given = s.given ++ ps.map ZcopyPacket.id ∧
      s'.Ok srv g all t (n + (payload ps).length) := by
  obtain ⟨future, hfuture⟩ := arrives
  have hlen := congrArg List.length hfuture
  rw [List.length_append, List.length_drop] at hlen
  have hle := h.le
  have hbetween := h.between.env offers.keeps
  rw [← hfuture] at hbetween
  have hregion : g.Apart s.data.pktBuf
      (s.data.pktBuf + lay.pkts + lay.spans ps - s.data.pktBuf) := by
    rw [show s.data.pktBuf + (lay.pkts : Int) + lay.spans ps - s.data.pktBuf =
      lay.pkts + lay.spans ps by omega]
    exact offers.region
  obtain ⟨fuel, c, hloop, hbehind, huntouched⟩ := Arena.Between.packetLoop
    (Server.handledAll_callback hms hbridge undisturbed src) fits hregion le_rfl (by omega)
    (by omega) le_rfl (p := 0) (by rw [offers.count, Nat.zero_add]) offers.disjoint offers.held
    offers.clear offers.describes hbetween
  have hagree := huntouched.agree hregion offers.clear
  have hids : lay.idsFrom c.mem (word c.mem (s.data.pktBuf + lay.nPacketNum))
      (s.data.pktBuf + lay.pkts) = ps.map ZcopyPacket.id := by
    have hinside := lay.num_inside
    rw [PacketLayout.word_congr hagree (by omega) (by omega), offers.count]
    exact (offers.describes.congr hagree (by omega) le_rfl).ids
  have hone := hloop fuel le_rfl
  rw [hms] at hone
  refine ⟨fuel, ⟨c, ⟨s.data.pktBuf, none⟩, s.given ++ ps.map ZcopyPacket.id,
    s.returned ++ ps.map ZcopyPacket.id⟩, ?_, rfl, ?_⟩
  · unfold Server.zcopyReceiveThenSend ZcopySocket.iterateOverBuffers
    dsimp only
    rw [hone]
    dsimp only [Server.zcopyFinish, ZcopySocket.cleanup]
    rw [hids]
  · refine ⟨?_, rfl, ?_, h.buffer, by omega⟩
    · rw [← List.drop_drop, ← hfuture, List.drop_left]
      exact hbehind
    · dsimp only
      rw [h.none_out]

variable (lay) in
theorem ZcopySocket.Ok.plain (h : s.Ok srv g all t n) {bs : List UInt8} (src : SockAddr)
    (room : bs.length ≤ srv.msMaxSize) (arrives : bs <+: (encodeAll all).drop n) :
    ∃ fuel s', srv.zcopyReceiveThenSend lay fuel s (.plain src bs) = some (false, s') ∧
      s'.Ok srv g all t (n + bs.length) := by
  obtain ⟨future, hfuture⟩ := arrives
  have hlen := congrArg List.length hfuture
  rw [List.length_append, List.length_drop] at hlen
  have hle := h.le
  have hapart : g.Apart s.data.pktBuf bs.length := by
    have hbuffer := h.buffer
    unfold Arena.Apart at hbuffer ⊢
    omega
  have hkeeps : Agree s.ctx.mem (store s.ctx.mem s.data.pktBuf bs) g.base (g.base + g.cap) := by
    apply Agree.symm
    apply agree_store
    unfold Arena.Apart at hapart
    omega
  have hbetween := h.between.env hkeeps
  rw [← hfuture] at hbetween
  obtain ⟨c, hc, hbehind, -⟩ := hbetween.processBuffer
    (Server.handledAll_callback hms hbridge undisturbed src) fits hapart load_store_same
  obtain ⟨fuel, hfuel⟩ := processBuffer_iff.mp hc
  rw [hms] at hfuel
  refine ⟨fuel, ⟨c, ⟨s.data.pktBuf, none⟩, s.given, s.returned⟩, ?_, ?_⟩
  · unfold Server.zcopyReceiveThenSend ZcopySocket.iterateOverBuffers
    dsimp only
    rw [hfuel]
    rfl
  · refine ⟨?_, rfl, h.none_out, h.buffer, by omega⟩
    rw [← List.drop_drop, ← hfuture, List.drop_left]
    exact hbehind

theorem ZcopySocket.Ok.run {s₀ : ZcopySocket (ServerState γ)} (fresh : s₀.Fresh g)
    (run : ZcopyRun srv lay g all s₀ s n) : s.Ok srv g all s₀.ctx.state n := by
  induction run with
  | start => exact fresh.ok
  | packets src before offers arrives returns ih =>
    obtain ⟨k, s₁, hk, -, hok⟩ := ih.packets hms hbridge undisturbed fits src offers arrives
    cases Server.zcopyReceiveThenSend_unique hk returns
    exact hok
  | plain src before room arrives returns ih =>
    obtain ⟨k, s₁, hk, hok⟩ := ih.plain lay hms hbridge undisturbed fits src room arrives
    cases Server.zcopyReceiveThenSend_unique hk returns
    exact hok
  | error before returns ih =>
    unfold Server.zcopyReceiveThenSend ZcopySocket.cleanup at returns
    rw [ih.pkts] at returns
    cases returns
    exact ih
  | elsewhere m msg before keeps ih =>
    refine ⟨?_, ih.pkts, ih.none_out, ih.buffer, ih.le⟩
    exact ih.between.congr rfl (fun _ h => h) keeps

end Steps

/-- Whatever packets and fragments a stream comes in, with or without copies, the server answers
each message that was received to its end, and no other. The loops end, they read the descriptors
that the library wrote, and every packet is given back before the next receive, once. -/
theorem zero_copy_replies (srv : Server γ) (lay : PacketLayout) (g : Arena)
    (hms : g.msMaxSize = srv.msMaxSize) (hbridge : srv.params.bridge = false)
    (undisturbed : srv.Undisturbed) {all : List WireMessage}
    (fits : ∀ w ∈ all, (w.size : Int) ≤ g.msMaxSize) {s₀ s : ZcopySocket (ServerState γ)}
    (fresh : s₀.Fresh g) {n : Nat} (run : ZcopyRun srv lay g all s₀ s n) :
    s.returned = s.given ∧ s.data.pkts = none ∧
      srv.Handled s₀.ctx.state (completed all n) s.ctx.state ∧
      (∀ src ps m, Offers lay g s.data.pktBuf s.ctx.mem ps m →
        payload ps <+: (encodeAll all).drop n →
        ∃ fuel s', srv.zcopyReceiveThenSend lay fuel s
            (.packets src (ps.map ZcopyPacket.id) m) = some (false, s') ∧
          s'.given = s.given ++ ps.map ZcopyPacket.id ∧
          s'.returned = s.returned ++ ps.map ZcopyPacket.id) ∧
      ∀ src (bs : List UInt8), bs.length ≤ srv.msMaxSize → bs <+: (encodeAll all).drop n →
        ∃ fuel s', srv.zcopyReceiveThenSend lay fuel s (.plain src bs) = some (false, s') := by
  have hok := ZcopySocket.Ok.run hms hbridge undisturbed fits fresh run
  refine ⟨hok.none_out, hok.pkts, hok.handled, ?_, ?_⟩
  · intro src ps m offers arrives
    obtain ⟨fuel, s', hs', hgiven, hok'⟩ :=
      hok.packets hms hbridge undisturbed fits src offers arrives
    refine ⟨fuel, s', hs', hgiven, ?_⟩
    rw [hok'.none_out, hgiven, hok.none_out]
  · intro src bs room arrives
    obtain ⟨fuel, s', hs', -⟩ := hok.plain lay hms hbridge undisturbed fits src room arrives
    exact ⟨fuel, s', hs'⟩

end Server

/-- A count, then packets of an identity, a count and pairs of an address and a length. -/
def packedLayout : PacketLayout := ⟨0, 8, 0, 8, 16, by decide, by decide, by decide⟩

def pingPacket : ZcopyPacket :=
  ⟨7, [⟨300000, (encodeAll (pings 1)).take 5⟩, ⟨400000, (encodeAll (pings 1)).drop 5⟩]⟩

def pingDescriptor : List UInt8 :=
  [1, 7, 2, 300000, 5, 400000, 9].flatMap (image 8)

def pingMemory : Mem :=
  store (store (store (fun _ => 0) 200000 pingDescriptor) 300000 ((encodeAll (pings 1)).take 5))
    400000 ((encodeAll (pings 1)).drop 5)

def zcopyFresh : ZcopySocket (ServerState Unit) := ⟨udpFresh, ⟨200000, none⟩, [], []⟩

theorem pingPacket_offered : Offers packedLayout Handover.serverWindow.arena
    zcopyFresh.data.pktBuf zcopyFresh.ctx.mem [pingPacket] pingMemory where
  count := by decide +kernel
  describes := by
    apply PacketLayout.Describes.cons
    · refine ⟨by decide +kernel, by decide +kernel, ?_⟩
      intro i f hf
      match i with
      | 0 =>
        cases hf
        decide +kernel
      | 1 =>
        cases hf
        decide +kernel
      | k + 2 => cases hf
    · exact PacketLayout.Describes.nil _
  region := Or.inr (by decide +kernel)
  held := by
    intro f hf
    rcases List.mem_pair.mp hf with rfl | rfl
    · exact ⟨Or.inr (by decide +kernel), by decide +kernel⟩
    · exact ⟨Or.inr (by decide +kernel), by decide +kernel⟩
  disjoint := by
    apply List.pairwise_pair.mpr
    exact Or.inr (by decide +kernel)
  clear := by
    intro f hf
    rcases List.mem_pair.mp hf with rfl | rfl
    · exact Or.inr (by decide +kernel)
    · exact Or.inr (by decide +kernel)
  keeps := by
    intro x hlo hhi
    have hbound : x < 131014 := hhi
    symm
    refine (store_outside (Or.inl (by omega))).trans ?_
    refine (store_outside (Or.inl (by omega))).trans ?_
    exact store_outside (Or.inl (by omega))

theorem zero_copy_replies_ping : ∃ s : ZcopySocket (ServerState Unit),
    s.returned = [7] ∧ s.ctx.state.sent.map Prod.snd = (pings 1).map fun w => w.echo.encode := by
  have hfresh : zcopyFresh.Fresh Handover.serverWindow.arena :=
    ⟨rfl, rfl, rfl, Or.inr (by decide)⟩
  have hall := fun s n run => zero_copy_replies udpServer packedLayout
    Handover.serverWindow.arena rfl rfl (fun _ => ⟨rfl, rfl⟩) (pings_fit 1) hfresh (s := s)
    (n := n) run
  have harrives : payload [pingPacket] <+: (encodeAll (pings 1)).drop 0 := by
    decide +kernel
  obtain ⟨-, -, -, hreceive, -⟩ := hall _ 0 .start
  obtain ⟨fuel, s, hs, -, hreturned⟩ := hreceive (.inet 1 1) _ _ pingPacket_offered harrives
  obtain ⟨-, -, hhandled, -⟩ := hall s _ (.packets _ .start pingPacket_offered harrives hs)
  refine ⟨s, hreturned, ?_⟩
  rw [hhandled.sent]
  rfl

end Sockperf
