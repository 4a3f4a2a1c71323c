import Sockperf.MessageParser

/-!
# Well-formed data in front of the parser

A pending message is stored as it came until its header is complete and with a
host-order header afterwards. The lemmas here say what one `process_chunk` does
to such data, independently of where the bytes lie and of how they got there.
-/

namespace Sockperf

open Memory
set_option autoImplicit false

universe u
variable {σ : Type u}

/-- A message of which `p` bytes had arrived before, as it lies in memory. -/
def WireMessage.stored (w : WireMessage) (p : Nat) : List UInt8 :=
  if p < 14 then w.encode else w.hostBytes

@[simp] theorem WireMessage.stored_length (w : WireMessage) (p : Nat) :
    (w.stored p).length = w.size := by
  unfold WireMessage.stored
  split <;> simp

theorem WireMessage.stored_take_length {w : WireMessage} {p : Nat} (h : p ≤ w.size) :
    ((w.stored p).take p).length = p := by
  rw [List.length_take, stored_length]
  omega

theorem WireMessage.stored_zero (w : WireMessage) : w.stored 0 = w.encode := rfl

/-- What is still missing of a message does not depend on the byte order of its header. -/
theorem WireMessage.stored_drop (w : WireMessage) (p : Nat) :
    (w.stored p).drop p = w.encode.drop p := by
  by_cases h : p < 14
  · simp [WireMessage.stored, h]
  · have hnil : ∀ hd : MsgHeader, hd.bytes.drop p = [] := fun hd =>
      List.drop_eq_nil_of_le (by simpa [effectiveSize] using h)
    simp [WireMessage.stored, h, WireMessage.hostBytes, WireMessage.encode, List.drop_append, hnil]

theorem WireMessage.stored_take_add {w : WireMessage} {p : Nat} {r bs future : List UInt8}
    (hp : p ≤ w.size) (h : (w.encode ++ r).drop p = bs ++ future) :
    (w.stored p ++ r).take (p + bs.length) = (w.stored p).take p ++ bs := by
  have hdrop : (w.stored p ++ r).drop p = bs ++ future := by
    rw [← h, List.drop_append_of_le_length (by simpa using hp),
      List.drop_append_of_le_length (by simpa using hp), w.stored_drop]
  rw [List.take_add, hdrop, List.take_append_of_le_length (by simpa using hp),
    List.take_left' rfl]

/-- What is known of a callback on the messages `E`, in this order: it writes to the message only,
it keeps `P` true of the messages handed out so far and of its own state, and when it rejects a
message `Q` is true of its state. -/
structure CallbackOk (msMaxSize : Int) (handle : Callback σ) (E : List MessageView)
    (P : List MessageView → σ → Prop) (Q : σ → Prop) : Prop where
  frame : ∀ vs s m msg (x : Int), P vs s → msg.isValidHeader msMaxSize m = true →
    vs ++ [msg.view msMaxSize m] <+: E →
    (x < msg.addr ∨ msg.addr + (msg.getHeader m).length.toNat ≤ x) →
      (handle m msg s).2.1 x = m x
  tracks : ∀ vs s m msg, P vs s → msg.isValidHeader msMaxSize m = true →
    vs ++ [msg.view msMaxSize m] <+: E → (handle m msg s).1 = true →
      P (vs ++ [msg.view msMaxSize m]) (handle m msg s).2.2
  rejects : ∀ vs s m msg, P vs s → msg.isValidHeader msMaxSize m = true →
    vs ++ [msg.view msMaxSize m] <+: E → (handle m msg s).1 = false → Q (handle m msg s).2.2

/-- The callback that also writes down every message it is given. -/
def logging (msMaxSize : Int) (handle : Callback σ) : Callback (σ × List MessageView) :=
  fun m msg s =>
    ((handle m msg s.1).1, (handle m msg s.1).2.1,
      ((handle m msg s.1).2.2, s.2 ++ [msg.view msMaxSize m]))

theorem logging_ok {msMaxSize : Int} {handle : Callback σ}
    (accepts : ∀ m msg s, (handle m msg s).1 = true)
    (frame : ∀ m msg s (x : Int), (x < msg.addr ∨ msg.addr + (msg.getHeader m).length.toNat ≤ x) →
      (handle m msg s).2.1 x = m x) (E : List MessageView) :
    CallbackOk msMaxSize (logging msMaxSize handle) E (fun vs s => s.2 = vs) fun _ => False where
  frame := fun _ s m msg x _ _ _ hx => frame m msg s.1 x hx
  tracks := by
    intro vs s m msg hP _ _ _
    simp [logging, hP]
  rejects := by
    intro vs s m msg _ _ _ h
    rw [logging, accepts] at h
    cases h

theorem message_of_prefix {msMaxSize : Int} {m : Mem} {msg : Message} {vs : List MessageView}
    {all : List WireMessage} (h : vs ++ [msg.view msMaxSize m] <+: all.map WireMessage.view) :
    ∃ w ∈ all, msg.view msMaxSize m = w.view := by
  have hmem := h.subset (List.mem_append_right vs (List.mem_singleton_self _))
  obtain ⟨w, hw, hview⟩ := List.mem_map.mp hmem
  exact ⟨w, hw, hview.symm⟩

/-- Behind the messages `old` others were handed out, of which `Took` is true. -/
def Since (old : List WireMessage) (Took : List WireMessage → σ → Prop) (vs : List MessageView)
    (s : σ) : Prop :=
  ∃ new, vs = (old ++ new).map WireMessage.view ∧ Took new s

/-- A callback that accepts every message and writes to its header only is described by what it
does to its state. -/
theorem callbackOk_since {msMaxSize : Int} {handle : Callback σ} {all : List WireMessage}
    {Took : List WireMessage → σ → Prop}
    (frame : ∀ s m msg (x : Int), (x < msg.addr ∨ msg.addr + 14 ≤ x) → (handle m msg s).2.1 x = m x)
    (one : ∀ {new s m msg}, ∀ w ∈ all, msg.isValidHeader msMaxSize m = true →
      msg.view msMaxSize m = w.view → Took new s →
      (handle m msg s).1 = true ∧ Took (new ++ [w]) (handle m msg s).2.2)
    (old : List WireMessage) :
    CallbackOk msMaxSize handle (all.map WireMessage.view) (Since old Took) fun _ => False where
  frame := by
    intro vs s m msg x _ _ hE hx
    obtain ⟨w, -, hw⟩ := message_of_prefix hE
    have hsize := w.size_eq
    rw [header_of_view hw, show w.header.length.toNat = w.size from rfl] at hx
    exact frame s m msg x (by omega)
  tracks := by
    rintro vs s m msg ⟨new, rfl, hnew⟩ hv hE -
    obtain ⟨w, hmem, hw⟩ := message_of_prefix hE
    refine ⟨new ++ [w], ?_, (one w hmem hv hw hnew).2⟩
    simp only [hw, List.map_append, List.map_cons, List.map_nil, List.append_assoc]
  rejects := by
    rintro vs s m msg ⟨new, rfl, hnew⟩ hv hE hfalse
    obtain ⟨w, hmem, hw⟩ := message_of_prefix hE
    cases (one w hmem hv hw hnew).1.symm.trans hfalse

section Stored
variable {m : Mem} {a : Int} {k : Nat}

theorem take_bytes (h : MsgHeader) {t : List UInt8} (hk : 14 ≤ k) :
    (h.bytes ++ t).take k = h.bytes ++ t.take (k - 14) := by
  rw [List.take_append, List.take_of_length_le (by simpa [effectiveSize] using hk)]
  simp [effectiveSize]

theorem getHeader_of_load {h : MsgHeader} {t : List UInt8} (hk : 14 ≤ k)
    (hD : load m a k = (h.bytes ++ t).take k) : (Message.mk a).getHeader m = h := by
  have h14 : load m a effectiveSize = h.bytes := by
    rw [← load_take (show effectiveSize ≤ k from hk), hD, take_bytes h hk,
      List.take_left' (by simp)]
  rw [Message.getHeader, h14, MsgHeader.ofBytes_bytes]

theorem load_setHeader {h : MsgHeader} {t : List UInt8} (hk : 14 ≤ k)
    (hD : load m a k = (h.bytes ++ t).take k) (h' : MsgHeader) :
    load ((Message.mk a).setHeader m h') a k = (h'.bytes ++ t).take k := by
  obtain ⟨j, rfl⟩ := Nat.exists_eq_add_of_le hk
  have htail : load m (a + (14 : Nat)) j = t.take j := by
    rw [← load_drop, hD, take_bytes _ hk, List.drop_left' (by simp [effectiveSize])]
    simp
  rw [load_add, Message.setHeader, load_store_same' (by simp [effectiveSize]),
    load_store_disjoint (Or.inr (by simp [effectiveSize])), htail, take_bytes _ hk]
  simp

theorem load_setHeaderToHost {h : MsgHeader} {t : List UInt8} (hk : 14 ≤ k)
    (hD : load m a k = (h.hton.bytes ++ t).take k) :
    load ((Message.mk a).setHeaderToHost m) a k = (h.bytes ++ t).take k := by
  rw [Message.setHeaderToHost, getHeader_of_load hk hD, MsgHeader.ntoh_hton]
  exact load_setHeader hk hD h

end Stored

theorem announced_of_load {c : Ctx σ} {h : MsgHeader} (hp : c.recv.curOffset < 14)
    (hD : load c.mem c.recv.curAddr 14 = h.hton.bytes) : c.announced = h.length.toNat := by
  have hh : (Message.mk c.recv.curAddr).getHeader c.mem = h.hton := by
    have hlen : h.hton.bytes.length ≤ 14 := by simp [effectiveSize]
    apply getHeader_of_load le_rfl
    rw [hD, List.append_nil, List.take_of_length_le hlen]
  rw [← matchHeader_pendingLength, Ctx.pendingLength, matchHeader_recv, matchHeader_mem_of_lt c hp,
    Message.setHeaderToHost, Message.getHeader_setHeader, hh, MsgHeader.ntoh_hton]

section Match
variable {c : Ctx σ} {w : WireMessage} {r : List UInt8} {p k : Nat}
variable (hp : c.recv.curOffset = p) (hk : 14 ≤ k)
variable (hD : load c.mem c.recv.curAddr k = (w.stored p ++ r).take k)
include hp hk hD

theorem load_matchHeader :
    load c.matchHeader.mem c.recv.curAddr k = (w.hostBytes ++ r).take k := by
  by_cases h : p < 14
  · rw [matchHeader_mem_of_lt c (by omega), WireMessage.hostBytes, List.append_assoc]
    apply load_setHeaderToHost hk
    simpa [WireMessage.stored, WireMessage.encode, h] using hD
  · rw [matchHeader_mem_of_le c (by omega)]
    simpa [WireMessage.stored, h] using hD

theorem getHeader_matchHeader :
    c.matchHeader.msg.getHeader c.matchHeader.mem = w.header := by
  have h := load_matchHeader hp hk hD
  rw [WireMessage.hostBytes, List.append_assoc] at h
  have hm : c.matchHeader.msg = ⟨c.recv.curAddr⟩ := by
    rw [← matchHeader_addr c]
  rw [hm]
  exact getHeader_of_load hk h

theorem announced_eq : c.announced = w.size := by
  rw [Ctx.announced, getHeader_matchHeader hp hk hD, WireMessage.size]

theorem view_matchHeader {msMaxSize : Int} (h0 : 0 ≤ msMaxSize) (h31 : msMaxSize < 2 ^ 31)
    (hw : (w.size : Int) ≤ msMaxSize) (hsize : w.size ≤ k) :
    c.matchHeader.msg.view msMaxSize c.matchHeader.mem = w.view := by
  have hh := getHeader_matchHeader hp hk hD
  have hv : c.matchHeader.msg.isValidHeader msMaxSize c.matchHeader.mem = true := by
    rw [Message.isValidHeader_iff _ _ h0 h31, hh]
    exact hw
  have hsz := w.size_eq
  have hbody : w.header.length.toNat - effectiveSize = w.body.length := by
    have := w.length_eq
    omega
  have hl := load_matchHeader hp hk hD
  have htail : load c.matchHeader.mem (c.recv.curAddr + (effectiveSize : Nat)) w.body.length =
      w.body := by
    have hle : effectiveSize + w.body.length ≤ k := by
      rw [effectiveSize]
      omega
    have ht := congrArg (fun t => (t.take (effectiveSize + w.body.length)).drop effectiveSize) hl
    simp only [load_take hle, load_drop] at ht
    rw [ht, WireMessage.hostBytes, List.append_assoc, List.take_take, Nat.min_eq_left hle,
      take_bytes _ (by simp [effectiveSize]), List.drop_left' (by simp)]
    simp [effectiveSize]
  simp only [Message.view, hh, hv, if_true, hbody, Message.getData, matchHeader_addr, htail,
    WireMessage.view]

end Match

/-- The read size `process_chunk` asks for after it kept `n` more bytes of `w`. -/
def keptSize (msMaxSize curSize : Int) (w : WireMessage) (p n : Nat) : Int :=
  if p + n < 14 then if curSize - n < 14 then 14 - (p + n : Nat) else curSize - n
  else if curSize - n < msMaxSize then w.size - (p + n : Nat) else curSize - n

theorem keptSize_pos {msMaxSize curSize : Int} {w : WireMessage} {p n : Nat}
    (hw : (w.size : Int) ≤ msMaxSize) (hn : p + n < w.size) :
    0 < keptSize msMaxSize curSize w p n := by
  have := w.size_eq
  unfold keptSize
  split <;> split <;> omega

theorem keptSize_le {msMaxSize curSize : Int} {w : WireMessage} {p n : Nat}
    (hw : (w.size : Int) ≤ msMaxSize) (hsize : p + curSize ≤ msMaxSize) :
    (p + n : Nat) + keptSize msMaxSize curSize w p n ≤ msMaxSize := by
  have := w.size_eq
  unfold keptSize
  split <;> split <;> omega

/-- The variables of `process_buffer`, without the memory. -/
structure LoopVars where
  recv : SocketRecvData
  direct : Bool
  offset : Int
  buf : Int
  len : Int

def Loop.vars (l : Loop σ) : LoopVars := ⟨l.ctx.recv, l.direct, l.offset, l.buf, l.len⟩

/-- After a chunk of `n` bytes that leaves `w` incomplete. -/
def LoopVars.keep (msMaxSize : Int) (w : WireMessage) (p n : Nat) (v : LoopVars) : LoopVars :=
  { v with
    recv := { v.recv with
      curSize := keptSize msMaxSize v.recv.curSize w p n, curOffset := (p + n : Nat) }
    offset := v.offset + n
    len := v.len - n }

/-- After a chunk of `n` bytes that completes `w`. -/
def LoopVars.deliver (w : WireMessage) (p n : Nat) (v : LoopVars) : LoopVars :=
  let buf := v.buf + (v.offset + (w.size - p))
  { recv := { v.recv with
      curSize := if p + n = w.size then v.recv.maxSize else v.recv.curSize - (w.size - p)
      curOffset := 0
      curAddr := if v.direct then v.recv.curAddr + (v.offset + (w.size - p)) else buf }
    direct := true
    offset := 0
    buf
    len := v.len - (w.size - p) }

/-- `c'` is `c` after `n` more bytes of the still incomplete `w` were kept. -/
structure Kept (msMaxSize : Int) (w : WireMessage) (p n : Nat) (c c' : Ctx σ) : Prop where
  recv : c'.recv = { c.recv with
    curSize := keptSize msMaxSize c.recv.curSize w p n, curOffset := (p + n : Nat) }
  state : c'.state = c.state
  asserts : c'.asserts = c.asserts
  stored : load c'.mem c.recv.curAddr (p + n) = (w.stored (p + n)).take (p + n)
  outside : ∀ x, (x < c.recv.curAddr ∨ c.recv.curAddr + (p + n : Nat) ≤ x) → c'.mem x = c.mem x

/-- `c'` is `c` after `n` more bytes completed `w`. -/
structure Delivered (msMaxSize : Int) (w : WireMessage) (p n : Nat) (c c' : Ctx σ) : Prop where
  recv : c'.recv = { c.recv with
    curSize := if p + n = w.size then c.recv.maxSize else c.recv.curSize - (w.size - p)
    curOffset := 0 }
  state : c'.state = c.state
  asserts : c'.asserts = c.asserts
  addr : c'.msg.addr = c.recv.curAddr
  valid : c'.msg.isValidHeader msMaxSize c'.mem = true
  length : (c'.msg.getHeader c'.mem).length.toNat = w.size
  view : c'.msg.view msMaxSize c'.mem = w.view
  outside : ∀ x, (x < c.recv.curAddr ∨ c.recv.curAddr + 14 ≤ x) → c'.mem x = c.mem x

theorem Delivered.header {msMaxSize : Int} {w : WireMessage} {p n : Nat} {c c' : Ctx σ}
    (h : Delivered msMaxSize w p n c c') : c'.msg.getHeader c'.mem = w.header := by
  have hv := congrArg MessageView.header h.view
  simpa only [Message.view, WireMessage.view] using hv

section Outcome
variable {msMaxSize : Int} {c : Ctx σ} {w : WireMessage} {r : List UInt8} {p n : Nat}
variable (h0 : 0 ≤ msMaxSize) (h31 : msMaxSize < 2 ^ 31) (hw : (w.size : Int) ≤ msMaxSize)
variable (hp : c.recv.curOffset = p)
variable (hD : load c.mem c.recv.curAddr (p + n) = (w.stored p ++ r).take (p + n))
include h0 h31 hw hp hD

theorem processChunk_keep (hn : p + n < w.size) :
    ∃ c', processChunk msMaxSize c n = (c', (n : Int)) ∧ Kept msMaxSize w p n c c' := by
  have hcut : ∀ t : List UInt8, t.length = w.size → (t ++ r).take (p + n) = t.take (p + n) :=
    fun t ht => List.take_append_of_le_length (by omega)
  by_cases h14 : p + n < 14
  · refine ⟨_, processChunk_short (by omega), ?_, rfl, rfl, ?_, fun _ _ => rfl⟩
    · simp [keptSize, h14, hp]
    · rw [hD, hcut _ (by simp)]
      simp [WireMessage.stored, h14, show p < 14 by omega]
  · have hk : 14 ≤ p + n := by omega
    have ha : c.announced = w.size := announced_eq hp hk hD
    refine ⟨_, processChunk_incomplete h0 h31 (by omega) (by omega) (by omega), ?_, by simp,
      by simp, ?_, fun x hx => matchHeader_outside c (by omega)⟩
    · simp [keptSize, h14, hp, ha]
    · rw [load_matchHeader hp hk hD, hcut _ (by simp)]
      simp [WireMessage.stored, h14]

theorem processChunk_deliver (hn : w.size ≤ p + n) :
    ∃ c', processChunk msMaxSize c n = (c', (w.size : Int) - p) ∧
      Delivered msMaxSize w p n c c' := by
  have hsz := w.size_eq
  have hk : 14 ≤ p + n := by omega
  have ha : c.announced = w.size := announced_eq hp hk hD
  have hh := getHeader_matchHeader hp hk hD
  have hv : c.matchHeader.msg.isValidHeader msMaxSize c.matchHeader.mem = true := by
    rw [Message.isValidHeader_iff _ _ h0 h31, hh]
    exact hw
  have hchunk := processChunk_complete (c := c) (n := n) h0 h31 (by omega) (by omega) (by omega)
  rw [ha, hp] at hchunk
  refine ⟨_, hchunk, ?_, by simp, by simp, by simp, hv, by simp [hh, WireMessage.size],
    view_matchHeader hp hk hD h0 h31 hw hn, fun x hx => matchHeader_outside c hx⟩
  have hiff : (n : Int) - (w.size - p) = 0 ↔ p + n = w.size := by omega
  simp [hiff]

end Outcome

/-! ## Positions in a stream -/

/-- The first of the messages `r` is incomplete after `p` bytes. -/
def PartOf : List WireMessage → Nat → Prop
  | [], p => p = 0
  | w :: _, p => p < w.size

theorem partOf_zero (r : List WireMessage) : PartOf r 0 := by
  cases r with
  | nil => rfl
  | cons w rest =>
    have hsize := w.size_eq
    show 0 < w.size
    omega

theorem WireMessage.view_injective : Function.Injective WireMessage.view := by
  rintro ⟨header, body, hlen⟩ ⟨header', body', hlen'⟩ h
  cases h
  rfl

/-- The messages that end within the first `k` bytes of a stream. -/
def completed : List WireMessage → Nat → List WireMessage
  | [], _ => []
  | w :: ws, k => if k < w.size then [] else w :: completed ws (k - w.size)

section Position
variable {all d r d' r' : List WireMessage} {p p' : Nat} {future : List UInt8}

theorem PartOf.le_length (h : PartOf r p) : p ≤ (encodeAll r).length := by
  cases r with
  | nil => exact h.le
  | cons w rest =>
    have hlt : p < w.size := h
    rw [encodeAll_cons, List.length_append, WireMessage.encode_length]
    omega

theorem completed_append (hp : PartOf r p) :
    completed (d ++ r) ((encodeAll d).length + p) = d := by
  induction d with
  | nil =>
    cases r with
    | nil => rfl
    | cons w rest =>
      simp only [List.nil_append, encodeAll_nil, List.length_nil, Nat.zero_add]
      exact if_pos hp
  | cons w d ih =>
    have hlen : (encodeAll (w :: d)).length + p = w.size + ((encodeAll d).length + p) := by
      rw [encodeAll_cons, List.length_append, WireMessage.encode_length, Nat.add_assoc]
    rw [List.cons_append, completed, hlen, if_neg (by omega), Nat.add_sub_cancel_left, ih]

theorem completed_zero (ws : List WireMessage) : completed ws 0 = [] :=
  completed_append (d := []) (partOf_zero ws)

theorem position_eq (hp : PartOf r p) (hfut : (encodeAll r).drop p = future) :
    (encodeAll (d ++ r)).length - future.length = (encodeAll d).length + p := by
  have hle := hp.le_length
  rw [← hfut, encodeAll_append, List.length_append, List.length_drop]
  omega

theorem same_place (hall : all = d ++ r) (hall' : all = d' ++ r') (hp : PartOf r p)
    (hp' : PartOf r' p') (hfut : (encodeAll r).drop p = future)
    (hfut' : (encodeAll r').drop p' = future) : d = d' ∧ p = p' := by
  have hpos := position_eq (d := d) hp hfut
  have hpos' := position_eq (d := d') hp' hfut'
  rw [← hall] at hpos
  rw [← hall', hpos] at hpos'
  have hd := completed_append (d := d) hp
  have hd' := completed_append (d := d') hp'
  rw [← hall, hpos'] at hd
  rw [← hall'] at hd'
  obtain rfl : d = d' := hd.symm.trans hd'
  exact ⟨rfl, by omega⟩

theorem completed_eq {k : Nat} (hk : k ≤ (encodeAll all).length) (hall : all = d ++ r)
    (hp : PartOf r p) (hfut : (encodeAll r).drop p = (encodeAll all).drop k) :
    completed all k = d := by
  have hpos := position_eq (d := d) hp hfut
  rw [← hall, List.length_drop] at hpos
  rw [hall, show k = (encodeAll d).length + p by omega]
  exact completed_append hp

/-- The messages that end in the `n` bytes behind the first `k`. -/
def arrived (all : List WireMessage) (k n : Nat) : List WireMessage :=
  (completed all (k + n)).drop (completed all k).length

theorem completed_add (all : List WireMessage) (k n : Nat) :
    completed all (k + n) = completed all k ++ arrived all k n := by
  unfold arrived
  induction all generalizing k with
  | nil => rfl
  | cons w ws ih =>
    by_cases hk : k < w.size
    · rw [show completed (w :: ws) k = [] from if_pos hk]
      rfl
    · have hrest := ih (k - w.size)
      rw [← Nat.sub_add_comm (Nat.le_of_not_lt hk)] at hrest
      have hmore : completed (w :: ws) (k + n) = w :: completed ws (k + n - w.size) :=
        if_neg (by omega)
      rw [hmore, show completed (w :: ws) k = w :: completed ws (k - w.size) from if_neg hk,
        List.length_cons, List.drop_succ_cons, List.cons_append, ← hrest]

theorem Since.arrived {Took : List WireMessage → σ → Prop} {k n : Nat} {s : σ}
    (h : Since (completed all k) Took ((completed all (k + n)).map WireMessage.view) s) :
    Took (arrived all k n) s := by
  obtain ⟨new, hviews, hnew⟩ := h
  have heq := WireMessage.view_injective.list_map hviews
  rw [completed_add] at heq
  rwa [List.append_cancel_left heq]

theorem split_unique {ws : List WireMessage} {next : WireMessage} {k : Nat} (hp : PartOf r p)
    (hall : ws ++ [next] = d ++ r) (hk : k < next.size)
    (hfut : (encodeAll r).drop p = next.encode.drop k) : d = ws ∧ p = k := by
  have hlast : (encodeAll [next]).drop k = next.encode.drop k := by
    rw [encodeAll_cons, encodeAll_nil, List.append_nil]
  exact same_place hall rfl hp hk hfut hlast

end Position

end Sockperf
