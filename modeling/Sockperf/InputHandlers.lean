import Sockperf.MessageParser

/-!
# Input handlers

How received data reaches the parser: `RecvFromInputHandler` reads into the
receive buffer behind the pending bytes, the socketxtreme and zero-copy handlers
pass on buffers that belong to somebody else.
-/

namespace Sockperf

open Memory While
set_option autoImplicit false

universe u
variable {σ : Type u}

/-- The part of `RecvFromInputHandler::receive_pending_data` that a successful read leaves: the
received bytes stand behind the pending ones. -/
def receivePendingData (c : Ctx σ) (bs : List UInt8) : Ctx σ :=
  { c with mem := store c.mem (c.recv.curAddr + c.recv.curOffset) bs }

section Plain
variable (msMaxSize : Int) (handle : Callback σ)

/-- A read of `bs` followed by `RecvFromInputHandler::iterate_over_buffers`. -/
def recvFrom (fuel : Nat) (c : Ctx σ) (bs : List UInt8) : Option (Bool × Ctx σ) :=
  processBuffer .inPlace msMaxSize handle fuel (receivePendingData c bs)
    (c.recv.curAddr + c.recv.curOffset) bs.length

def RecvFrom (c : Ctx σ) (bs : List UInt8) (ok : Bool) (c' : Ctx σ) : Prop :=
  ProcessBuffer .inPlace msMaxSize handle (receivePendingData c bs)
    (c.recv.curAddr + c.recv.curOffset) bs.length ok c'

/-- Reads processed one after the other, none of which fails. -/
inductive Reads : Ctx σ → List (List UInt8) → Ctx σ → Prop
  | nil (c : Ctx σ) : Reads c [] c
  | cons {c c' c'' : Ctx σ} {bs : List UInt8} {rest : List (List UInt8)}
      (head : RecvFrom msMaxSize handle c bs true c') (tail : Reads c' rest c'') :
      Reads c (bs :: rest) c''

/-- No read is empty and none is larger than the size that is asked for at that time. -/
def Fits : Ctx σ → List (List UInt8) → Prop
  | _, [] => True
  | c, bs :: rest => 1 ≤ bs.length ∧ bs.length ≤ c.recv.curSize ∧
      ∀ ok c', RecvFrom msMaxSize handle c bs ok c' → Fits c' rest

end Plain

theorem recvFrom_iff {msMaxSize : Int} {handle : Callback σ} {c c' : Ctx σ} {bs : List UInt8}
    {ok : Bool} : RecvFrom msMaxSize handle c bs ok c' ↔
      ∃ fuel, recvFrom msMaxSize handle fuel c bs = some (ok, c') := Iff.rfl

theorem RecvFrom.of_map {α : Type*} {msMaxSize : Int} {handle : Callback σ} {c : Ctx σ}
    {bs : List UInt8} {fuel : Nat} {ok : Bool} (f : Ctx σ → α) {x : α}
    (h : (recvFrom msMaxSize handle fuel c bs).map (fun r => (r.1, f r.2)) = some (ok, x)) :
    ∃ c', RecvFrom msMaxSize handle c bs ok c' ∧ f c' = x := by
  obtain ⟨⟨ok', c'⟩, hr, he⟩ := Option.map_eq_some_iff.mp h
  obtain ⟨rfl, hx⟩ := Prod.mk.inj he
  exact ⟨c', recvFrom_iff.mpr ⟨fuel, hr⟩, hx⟩

theorem enter_received_of_zero {c : Ctx σ} (h : c.recv.curOffset = 0) (bs : List UInt8)
    (len : Int) :
    enter (receivePendingData c bs) (c.recv.curAddr + c.recv.curOffset) len =
      ⟨receivePendingData c bs, true, 0, c.recv.curAddr, len⟩ := by
  rw [enter_of_zero (c := receivePendingData c bs) h, h, add_zero]
  rfl

/-- A read of less than a header on an idle socket takes one turn and is left pending. -/
theorem recvFrom_short (msMaxSize : Int) (handle : Callback σ) {c : Ctx σ}
    (hoff : c.recv.curOffset = 0) {bs : List UInt8} (hpos : 0 < bs.length) (hlt : bs.length < 14) :
    ∃ c', RecvFrom msMaxSize handle c bs true c' ∧ c'.mem = (receivePendingData c bs).mem ∧
      c'.state = c.state ∧
      c'.recv = { c.recv with
        curSize := if c.recv.curSize - bs.length < 14 then 14 - bs.length
          else c.recv.curSize - bs.length
        curOffset := bs.length } ∧
      ∀ l, Visits (Loop.turn .inPlace msMaxSize handle) (enter (receivePendingData c bs)
        (c.recv.curAddr + c.recv.curOffset) bs.length) l → 0 < l.len →
        l = ⟨receivePendingData c bs, true, 0, c.recv.curAddr, bs.length⟩ := by
  have henter := enter_received_of_zero hoff bs bs.length
  have hoff' : (receivePendingData c bs).recv.curOffset = 0 := hoff
  have hchunk : processChunk msMaxSize (receivePendingData c bs) bs.length = _ :=
    processChunk_short (by omega)
  rw [hoff', zero_add] at hchunk
  have hturn := Loop.turn_keep (S := .inPlace) handle
    (l := ⟨receivePendingData c bs, true, 0, c.recv.curAddr, bs.length⟩)
    (by simp only; omega) hchunk (by simp only; omega)
  generalize hl1 : Loop.mk _ _ _ _ (_ - (bs.length : Int)) = l1 at hturn
  have hlen1 : l1.len = 0 := by
    rw [← hl1]
    exact sub_self _
  have hexit : l1.turn .inPlace msMaxSize handle = .done (true, l1.finish .inPlace) :=
    Loop.turn_exit hlen1.le
  refine ⟨l1.finish .inPlace, ?_, ?_, ?_, ?_, ?_⟩
  · unfold RecvFrom ProcessBuffer
    rw [henter]
    exact (Returns.of_done hexit).of_next hturn
  · rw [Loop.finish_inPlace_mem, ← hl1]
  · rw [Loop.finish_state, ← hl1]
    rfl
  · rw [Loop.finish_inPlace_recv (by rw [← hl1]; simp only; omega), ← hl1]
    rfl
  · rw [henter]
    intro l hv hlen
    rcases hv.eq_or_next with rfl | ⟨l', ht, hv'⟩
    · rfl
    · obtain rfl : l1 = l' := Turn.next.inj (hturn.symm.trans ht)
      rcases hv'.eq_or_next with rfl | ⟨l'', ht', -⟩
      · omega
      · rw [hexit] at ht'
        cases ht'

theorem Reads.unique {msMaxSize : Int} {handle : Callback σ} {c c1 c2 : Ctx σ}
    {reads : List (List UInt8)} (h1 : Reads msMaxSize handle c reads c1)
    (h2 : Reads msMaxSize handle c reads c2) : c1 = c2 := by
  induction h1 with
  | nil => cases h2; rfl
  | cons head _ ih =>
    cases h2 with
    | cons head' tail' =>
      cases head.unique head'
      exact ih tail'

/-- A buffer of the library: `payload` and `len` of a `vma_buff_t`, or one `iovec` of a packet. -/
structure LibBuffer where
  addr : Int
  len : Int
  deriving DecidableEq, Repr

inductive LibBuffers where
  | chain (bufs : List LibBuffer)
  | packets (pkts : List (List LibBuffer))
  | plain (buf : LibBuffer)
  deriving DecidableEq, Repr

def LibBuffers.toList : LibBuffers → List LibBuffer
  | chain bufs => bufs
  | packets pkts => pkts.flatten
  | plain buf => [buf]

section Buffers
variable (msMaxSize : Int) (handle : Callback σ) (fuel : Nat)

/-- `SocketXtremeInputHandler::iterate_over_buffers`, and the inner loop over one packet. -/
def processBuffers (c : Ctx σ) : List LibBuffer → Option (Bool × Ctx σ)
  | [] => some (true, c)
  | b :: rest =>
    match processBuffer .buffer msMaxSize handle fuel c b.addr b.len with
    | none => none
    | some (false, c) => some (false, c)
    | some (true, c) => processBuffers c rest

/-- The outer loop of `ZCopyReadInputHandler::iterate_over_buffers`. -/
def processPackets (c : Ctx σ) : List (List LibBuffer) → Option (Bool × Ctx σ)
  | [] => some (true, c)
  | pkt :: rest =>
    match processBuffers msMaxSize handle fuel c pkt with
    | none => none
    | some (false, c) => some (false, c)
    | some (true, c) => processPackets c rest

/-- `iterate_over_buffers` of the two handlers. -/
def iterateOverBuffers (c : Ctx σ) : LibBuffers → Option (Bool × Ctx σ)
  | .chain bufs => processBuffers msMaxSize handle fuel c bufs
  | .packets pkts => processPackets msMaxSize handle fuel c pkts
  | .plain buf => processBuffer .buffer msMaxSize handle fuel c buf.addr buf.len

def IterateOverBuffers (c : Ctx σ) (bufs : LibBuffers) (ok : Bool) (c' : Ctx σ) : Prop :=
  ∃ fuel, iterateOverBuffers msMaxSize handle fuel c bufs = some (ok, c')

end Buffers

section BufferRules
variable {msMaxSize : Int} {handle : Callback σ} {fuel : Nat}

theorem processBuffers_append (c : Ctx σ) (bufs rest : List LibBuffer) :
    processBuffers msMaxSize handle fuel c (bufs ++ rest) =
      match processBuffers msMaxSize handle fuel c bufs with
      | none => none
      | some (false, c) => some (false, c)
      | some (true, c) => processBuffers msMaxSize handle fuel c rest := by
  induction bufs generalizing c with
  | nil => rfl
  | cons b bufs ih =>
    rw [List.cons_append, processBuffers, processBuffers]
    match processBuffer .buffer msMaxSize handle fuel c b.addr b.len with
    | none => rfl
    | some (false, _) => rfl
    | some (true, c') => exact ih c'

theorem processPackets_eq (c : Ctx σ) (pkts : List (List LibBuffer)) :
    processPackets msMaxSize handle fuel c pkts =
      processBuffers msMaxSize handle fuel c pkts.flatten := by
  induction pkts generalizing c with
  | nil => rfl
  | cons pkt pkts ih =>
    rw [List.flatten_cons, processBuffers_append, processPackets]
    match processBuffers msMaxSize handle fuel c pkt with
    | none => rfl
    | some (false, _) => rfl
    | some (true, c') => exact ih c'

theorem iterateOverBuffers_eq (c : Ctx σ) (bufs : LibBuffers) :
    iterateOverBuffers msMaxSize handle fuel c bufs =
      processBuffers msMaxSize handle fuel c bufs.toList := by
  cases bufs with
  | chain bufs => rfl
  | packets pkts => exact processPackets_eq c pkts
  | plain buf =>
    simp only [iterateOverBuffers, LibBuffers.toList, processBuffers]
    match processBuffer .buffer msMaxSize handle fuel c buf.addr buf.len with
    | none => rfl
    | some (false, _) => rfl
    | some (true, _) => rfl

theorem processBuffers_mono {k : Nat} {r : Bool × Ctx σ} {c : Ctx σ} {bufs : List LibBuffer}
    (h : processBuffers msMaxSize handle fuel c bufs = some r) (hk : fuel ≤ k) :
    processBuffers msMaxSize handle k c bufs = some r := by
  induction bufs generalizing c with
  | nil => exact h
  | cons b bufs ih =>
    rw [processBuffers] at h ⊢
    split at h
    · cases h
    · next hb =>
      rw [show processBuffer _ _ _ k _ _ _ = _ from iterate_mono hb hk]
      exact h
    · next hb =>
      rw [show processBuffer _ _ _ k _ _ _ = _ from iterate_mono hb hk]
      exact ih h

theorem processBuffers_cons {c c' : Ctx σ} {b : LibBuffer} {bufs : List LibBuffer}
    {r : Bool × Ctx σ} (hb : ProcessBuffer .buffer msMaxSize handle c b.addr b.len true c')
    (h : ∃ fuel, processBuffers msMaxSize handle fuel c' bufs = some r) :
    ∃ fuel, processBuffers msMaxSize handle fuel c (b :: bufs) = some r := by
  obtain ⟨n, hn⟩ := processBuffer_iff.mp hb
  obtain ⟨k, hk⟩ := h
  refine ⟨max n k, ?_⟩
  have hn' : processBuffer .buffer msMaxSize handle (max n k) c b.addr b.len = some (true, c') :=
    iterate_mono hn (Nat.le_max_left n k)
  rw [processBuffers, hn']
  exact processBuffers_mono hk (Nat.le_max_right n k)

theorem processBuffers_unique {c : Ctx σ} {bufs : List LibBuffer} {r r' : Bool × Ctx σ}
    (h : ∃ fuel, processBuffers msMaxSize handle fuel c bufs = some r)
    (h' : ∃ fuel, processBuffers msMaxSize handle fuel c bufs = some r') : r = r' := by
  obtain ⟨n, hn⟩ := h
  obtain ⟨k, hk⟩ := h'
  have h1 := processBuffers_mono hn (Nat.le_max_left n k)
  have h2 := processBuffers_mono hk (Nat.le_max_right n k)
  exact Option.some.inj (h1.symm.trans h2)

end BufferRules

end Sockperf
