import Sockperf.Message
import Sockperf.Lib.While

/-!
# The message parser

`MessageParser::process_buffer` and `process_chunk` with the two accumulation
strategies. All `int` variables of the parser are integers here; the sizes it
works with are far inside 32 bits. The loop of `process_buffer` is a `While`
loop: nothing in the code bounds the number of its turns.
-/

namespace Sockperf

open Memory While
set_option autoImplicit false

universe u

/-- `struct SocketRecvData`: the receive context of one socket. -/
structure SocketRecvData where
  buf : Int
  maxSize : Int
  curAddr : Int
  curOffset : Int
  curSize : Int
  deriving DecidableEq, Repr

/-- The two classes a parser is instantiated with. -/
inductive AccumulationStrategy where
  | inPlace
  | buffer
  deriving DecidableEq, Repr

/-- Everything a parser call reads and writes: the memory, the receive context, the shared
`Message` object and the state of the handler. `asserts` stays true while no assertion fails. -/
structure Ctx (σ : Type u) where
  mem : Mem
  recv : SocketRecvData
  msg : Message
  state : σ
  asserts : Bool

/-- `handle_message` of a callback object: it may write to memory and has a state of its own. -/
abbrev Callback (σ : Type u) := Mem → Message → σ → Bool × Mem × σ

namespace AccumulationStrategy

def resetReadBuffer : AccumulationStrategy → SocketRecvData → SocketRecvData
  | inPlace, recv => { recv with curAddr := recv.buf }
  | buffer, recv => recv

def startAccumulation {σ : Type u} : AccumulationStrategy → Ctx σ → Int → Int → Ctx σ
  | inPlace, c, buf, _ => { c with asserts := c.asserts && c.recv.curAddr == buf }
  | buffer, c, buf, size =>
    { c with
      recv := { c.recv with curAddr := c.recv.buf }
      mem := memmove c.mem c.recv.buf buf size.toNat }

def accumulateMore {σ : Type u} : AccumulationStrategy → Ctx σ → Int → Int → Ctx σ
  | inPlace, c, buf, _ =>
    { c with asserts := c.asserts && c.recv.curAddr + c.recv.curOffset == buf }
  | buffer, c, buf, size =>
    { c with mem := memmove c.mem (c.recv.curAddr + c.recv.curOffset) buf size.toNat }

end AccumulationStrategy

section Chunk
variable {σ : Type u} (msMaxSize : Int)

/-- Match the message to the buffer; the header is swapped when this chunk completes it. -/
def Ctx.matchHeader (c : Ctx σ) : Ctx σ :=
  let msg := c.msg.setBuf c.recv.curAddr
  if c.recv.curOffset < effectiveSize then { c with msg, mem := msg.setHeaderToHost c.mem }
  else { c with msg }

/-- `process_chunk`; the second component is `nprocessed`. -/
def processChunk (c : Ctx σ) (nbytes : Int) : Ctx σ × Int :=
  if c.recv.curOffset + nbytes < effectiveSize then
    let curSize := c.recv.curSize - nbytes
    let curOffset := c.recv.curOffset + nbytes
    -- the next read is limited to the rest of the header
    let curSize := if curSize < effectiveSize then effectiveSize - curOffset else curSize
    ({ c with recv := { c.recv with curSize, curOffset } }, nbytes)
  else
    let c := c.matchHeader
    if !c.msg.isValidHeader msMaxSize c.mem then
      ({ c with recv := { c.recv with curSize := c.recv.maxSize, curOffset := 0 } }, nbytes)
    else if c.recv.curOffset + nbytes < c.msg.getLength c.mem then
      let curSize := c.recv.curSize - nbytes
      let curOffset := c.recv.curOffset + nbytes
      let curSize := if curSize < msMaxSize then c.msg.getLength c.mem - curOffset else curSize
      ({ c with recv := { c.recv with curSize, curOffset } }, nbytes)
    else
      let nprocessed := c.msg.getLength c.mem - c.recv.curOffset
      let curSize :=
        if nbytes - nprocessed ≠ 0 then
          c.recv.curSize - (c.msg.getLength c.mem - c.recv.curOffset)
        else c.recv.maxSize
      ({ c with recv := { c.recv with curSize, curOffset := 0 } }, nprocessed)

/-- The length that the header of the current message announces, once it is in host order. -/
def Ctx.announced (c : Ctx σ) : Nat :=
  (c.matchHeader.msg.getHeader c.matchHeader.mem).length.toNat

/-- The length field of the pending message, as it stands in memory. -/
def Ctx.pendingLength (c : Ctx σ) : Nat :=
  ((Message.mk c.recv.curAddr).getHeader c.mem).length.toNat

section Header
variable (c : Ctx σ)

@[simp] theorem matchHeader_recv : c.matchHeader.recv = c.recv := by
  unfold Ctx.matchHeader
  split <;> rfl

@[simp] theorem matchHeader_state : c.matchHeader.state = c.state := by
  unfold Ctx.matchHeader
  split <;> rfl

@[simp] theorem matchHeader_asserts : c.matchHeader.asserts = c.asserts := by
  unfold Ctx.matchHeader
  split <;> rfl

theorem matchHeader_msg : c.matchHeader.msg = ⟨c.recv.curAddr⟩ := by
  unfold Ctx.matchHeader
  split <;> rfl

@[simp] theorem matchHeader_addr : c.matchHeader.msg.addr = c.recv.curAddr := by
  rw [matchHeader_msg]

theorem matchHeader_mem_of_lt (h : c.recv.curOffset < 14) :
    c.matchHeader.mem = (Message.mk c.recv.curAddr).setHeaderToHost c.mem := by
  unfold Ctx.matchHeader
  exact congrArg Ctx.mem (if_pos h)

theorem matchHeader_mem_of_le (h : 14 ≤ c.recv.curOffset) : c.matchHeader.mem = c.mem := by
  simp [Ctx.matchHeader, effectiveSize, not_lt.mpr h]

theorem matchHeader_pendingLength : c.matchHeader.pendingLength = c.announced := by
  rw [Ctx.pendingLength, matchHeader_recv, Ctx.announced, matchHeader_msg]

theorem matchHeader_outside {x : Int} (hx : x < c.recv.curAddr ∨ c.recv.curAddr + 14 ≤ x) :
    c.matchHeader.mem x = c.mem x := by
  by_cases h : c.recv.curOffset < 14
  · rw [matchHeader_mem_of_lt c h]
    exact Message.setHeader_outside _ _ _ hx
  · rw [matchHeader_mem_of_le c (by omega)]

end Header

section Fixed
variable (c : Ctx σ) (n : Int)

@[simp] theorem processChunk_buf : (processChunk msMaxSize c n).1.recv.buf = c.recv.buf := by
  unfold processChunk
  dsimp only
  split_ifs <;> simp

@[simp] theorem processChunk_maxSize :
    (processChunk msMaxSize c n).1.recv.maxSize = c.recv.maxSize := by
  unfold processChunk
  dsimp only
  split_ifs <;> simp

@[simp] theorem processChunk_curAddr :
    (processChunk msMaxSize c n).1.recv.curAddr = c.recv.curAddr := by
  unfold processChunk
  dsimp only
  split_ifs <;> simp

@[simp] theorem processChunk_state : (processChunk msMaxSize c n).1.state = c.state := by
  unfold processChunk
  dsimp only
  split_ifs <;> simp

end Fixed

section Outcomes
variable {msMaxSize} {c : Ctx σ} {n : Int}

theorem processChunk_short (h : c.recv.curOffset + n < 14) :
    processChunk msMaxSize c n =
      ({ c with recv := { c.recv with
          curSize := if c.recv.curSize - n < 14 then 14 - (c.recv.curOffset + n)
            else c.recv.curSize - n
          curOffset := c.recv.curOffset + n } }, n) := by
  unfold processChunk
  exact if_pos h

variable (h0 : 0 ≤ msMaxSize) (h31 : msMaxSize < 2 ^ 31) (h : 14 ≤ c.recv.curOffset + n)
include h0 h31 h

theorem processChunk_oversize (hL : msMaxSize < c.announced) :
    processChunk msMaxSize c n =
      ({ c.matchHeader with recv := { c.recv with
          curSize := c.recv.maxSize, curOffset := 0 } }, n) := by
  have hv : ¬ c.matchHeader.msg.isValidHeader msMaxSize c.matchHeader.mem = true := by
    rw [Message.isValidHeader_iff _ _ h0 h31]
    exact not_le.mpr hL
  simp [processChunk, effectiveSize, not_lt.mpr h, hv]

theorem processChunk_incomplete (hL : (c.announced : Int) ≤ msMaxSize)
    (hn : c.recv.curOffset + n < c.announced) :
    processChunk msMaxSize c n =
      ({ c.matchHeader with recv := { c.recv with
          curSize := if c.recv.curSize - n < msMaxSize
            then c.announced - (c.recv.curOffset + n) else c.recv.curSize - n
          curOffset := c.recv.curOffset + n } }, n) := by
  have hv := (Message.isValidHeader_iff c.matchHeader.msg c.matchHeader.mem h0 h31).mpr hL
  have hg := Message.getLength_eq c.matchHeader.msg c.matchHeader.mem h31 hL
  change _ = (c.announced : Int) at hg
  simp [processChunk, effectiveSize, not_lt.mpr h, hv, hg, hn]

theorem processChunk_complete (hL : (c.announced : Int) ≤ msMaxSize)
    (hn : (c.announced : Int) ≤ c.recv.curOffset + n) :
    processChunk msMaxSize c n =
      ({ c.matchHeader with recv := { c.recv with
          curSize := if n - (c.announced - c.recv.curOffset) ≠ 0
            then c.recv.curSize - (c.announced - c.recv.curOffset) else c.recv.maxSize
          curOffset := 0 } }, c.announced - c.recv.curOffset) := by
  have hv := (Message.isValidHeader_iff c.matchHeader.msg c.matchHeader.mem h0 h31).mpr hL
  have hg := Message.getLength_eq c.matchHeader.msg c.matchHeader.mem h31 hL
  change _ = (c.announced : Int) at hg
  simp [processChunk, effectiveSize, not_lt.mpr h, hv, hg, not_lt.mpr hn]

end Outcomes

/-- The ways a chunk of `n` bytes is processed, with the state each of them leaves. -/
inductive ChunkOutcome (c : Ctx σ) (n : Int) : Ctx σ × Int → Prop
  | short (lt : c.recv.curOffset + n < 14) :
      ChunkOutcome c n ({ c with recv := { c.recv with
        curSize := if c.recv.curSize - n < 14 then 14 - (c.recv.curOffset + n)
          else c.recv.curSize - n
        curOffset := c.recv.curOffset + n } }, n)
  | oversize (ge : 14 ≤ c.recv.curOffset + n) (big : msMaxSize < c.announced) :
      ChunkOutcome c n ({ c.matchHeader with recv := { c.recv with
        curSize := c.recv.maxSize, curOffset := 0 } }, n)
  | incomplete (ge : 14 ≤ c.recv.curOffset + n) (le : (c.announced : Int) ≤ msMaxSize)
      (lt : c.recv.curOffset + n < c.announced) :
      ChunkOutcome c n ({ c.matchHeader with recv := { c.recv with
        curSize := if c.recv.curSize - n < msMaxSize
          then c.announced - (c.recv.curOffset + n) else c.recv.curSize - n
        curOffset := c.recv.curOffset + n } }, n)
  | complete (ge : 14 ≤ c.recv.curOffset + n) (le : (c.announced : Int) ≤ msMaxSize)
      (reached : (c.announced : Int) ≤ c.recv.curOffset + n) :
      ChunkOutcome c n ({ c.matchHeader with recv := { c.recv with
        curSize := if n - (c.announced - c.recv.curOffset) ≠ 0
          then c.recv.curSize - (c.announced - c.recv.curOffset) else c.recv.maxSize
        curOffset := 0 } }, c.announced - c.recv.curOffset)

theorem processChunk_outcome {msMaxSize : Int} (h0 : 0 ≤ msMaxSize) (h31 : msMaxSize < 2 ^ 31)
    (c : Ctx σ) (n : Int) : ChunkOutcome msMaxSize c n (processChunk msMaxSize c n) := by
  rcases lt_or_ge (c.recv.curOffset + n) 14 with hs | hk
  · rw [processChunk_short hs]
    exact .short hs
  rcases lt_or_ge msMaxSize (c.announced : Int) with hbig | hL
  · rw [processChunk_oversize h0 h31 hk hbig]
    exact .oversize hk hbig
  rcases lt_or_ge (c.recv.curOffset + n) (c.announced : Int) with hlt | hle
  · rw [processChunk_incomplete h0 h31 hk hL hlt]
    exact .incomplete hk hL hlt
  · rw [processChunk_complete h0 h31 hk hL hle]
    exact .complete hk hL hle

end Chunk

/-- The variables of `process_buffer`. -/
structure Loop (σ : Type u) where
  ctx : Ctx σ
  direct : Bool
  offset : Int
  buf : Int
  len : Int

namespace Loop
variable {σ : Type u}

/-- The bytes the next `process_chunk` call gets. -/
def chunkLen (l : Loop σ) : Int :=
  if l.direct then l.len
  else if l.ctx.recv.curSize < l.len then l.ctx.recv.curSize else l.len

/-- The context `process_chunk` is called with. -/
def prepared (S : AccumulationStrategy) (l : Loop σ) : Ctx σ :=
  if l.direct then l.ctx else S.accumulateMore l.ctx (l.buf + l.offset) l.chunkLen

/-- Go on behind a delivered message; accumulated data is left for the direct buffer. -/
def advance (l : Loop σ) (c : Ctx σ) (nprocessed : Int) : Loop σ :=
  let buf := l.buf + (l.offset + nprocessed)
  let curAddr := if l.direct then c.recv.curAddr + (l.offset + nprocessed) else buf
  { ctx := { c with recv := { c.recv with curAddr } }
    direct := true, offset := 0, buf, len := l.len - nprocessed }

def finish (S : AccumulationStrategy) (l : Loop σ) : Ctx σ :=
  if l.ctx.recv.curOffset = 0 then { l.ctx with recv := S.resetReadBuffer l.ctx.recv }
  else if l.direct then S.startAccumulation l.ctx l.buf l.ctx.recv.curOffset
  else l.ctx

/-- One turn of `while (len > 0)`, with the code after the loop when it is left. -/
def turn (S : AccumulationStrategy) (msMaxSize : Int) (handle : Callback σ) (l : Loop σ) :
    Turn (Loop σ) (Bool × Ctx σ) :=
  if 0 < l.len then
    let (c, nprocessed) := processChunk msMaxSize (l.prepared S) l.chunkLen
    if c.recv.curOffset = 0 then
      let (ok, mem, state) := handle c.mem c.msg c.state
      let c := { c with mem, state }
      if ok then .next (l.advance c nprocessed) else .done (false, c)
    else
      .next { l with ctx := c, offset := l.offset + nprocessed, len := l.len - nprocessed }
  else .done (true, l.finish S)

section Turns
variable {S : AccumulationStrategy} {msMaxSize : Int} {handle : Callback σ} {l : Loop σ}

@[simp] theorem prepared_recv : (l.prepared S).recv = l.ctx.recv := by
  unfold prepared
  split
  · rfl
  · cases S <;> rfl

@[simp] theorem prepared_state : (l.prepared S).state = l.ctx.state := by
  unfold prepared
  split
  · rfl
  · cases S <;> rfl

theorem prepared_direct (h : l.direct = true) : l.prepared S = l.ctx := if_pos h

/-- In place nothing is moved, as long as the second assertion holds. -/
theorem prepared_inPlace
    (h : l.ctx.recv.curAddr + l.ctx.recv.curOffset = l.buf + l.offset) :
    l.prepared .inPlace = l.ctx := by
  unfold prepared
  split
  · rfl
  · simp [AccumulationStrategy.accumulateMore, h]

theorem chunkLen_of_le (h : l.len ≤ l.ctx.recv.curSize) : l.chunkLen = l.len := by
  unfold chunkLen
  rw [if_neg (not_lt.mpr h), ite_self]

theorem chunkLen_direct (h : l.direct = true) : l.chunkLen = l.len := if_pos h

theorem chunkLen_accumulated (h : l.direct = false) :
    l.chunkLen = min l.ctx.recv.curSize l.len := by
  unfold chunkLen
  rw [h, if_neg Bool.false_ne_true]
  split <;> omega

theorem advance_addr {c : Ctx σ} (h : l.direct = true → c.recv.curAddr = l.buf) (n : Int) :
    (l.advance c n).ctx.recv.curAddr = (l.advance c n).buf := by
  unfold advance
  dsimp only
  split
  · next hd => rw [h hd]
  · rfl

@[simp] theorem finish_state : (l.finish S).state = l.ctx.state := by
  unfold finish
  split
  · rfl
  · split
    · cases S <;> rfl
    · rfl

@[simp] theorem finish_inPlace_mem : (l.finish .inPlace).mem = l.ctx.mem := by
  unfold finish
  split
  · rfl
  · split <;> rfl

theorem finish_inPlace_recv (h : l.ctx.recv.curOffset ≠ 0) :
    (l.finish .inPlace).recv = l.ctx.recv := by
  unfold finish
  rw [if_neg h]
  split <;> rfl

theorem finish_left {p : Nat} {bs : List UInt8} (hoff : l.ctx.recv.curOffset = p) (hp : 0 < p)
    (hd : l.direct = true) (hdata : load l.ctx.mem l.buf p = bs) :
    l.finish .buffer = { l.ctx with
      recv := { l.ctx.recv with curAddr := l.ctx.recv.buf }
      mem := store l.ctx.mem l.ctx.recv.buf bs } := by
  unfold finish
  rw [if_neg (by omega), if_pos hd]
  simp only [AccumulationStrategy.startAccumulation, memmove, hoff, Int.toNat_natCast, hdata]

theorem turn_exit (h : l.len ≤ 0) : l.turn S msMaxSize handle = .done (true, l.finish S) :=
  if_neg (not_lt.mpr h)

theorem turn_keep (handle : Callback σ) {c : Ctx σ} {n : Int} (h : 0 < l.len)
    (hp : processChunk msMaxSize (l.prepared S) l.chunkLen = (c, n)) (hc : c.recv.curOffset ≠ 0) :
    l.turn S msMaxSize handle =
      .next { l with ctx := c, offset := l.offset + n, len := l.len - n } := by
  simp [turn, h, hp, hc]

theorem turn_deliver (handle : Callback σ) {c : Ctx σ} {n : Int} (h : 0 < l.len)
    (hp : processChunk msMaxSize (l.prepared S) l.chunkLen = (c, n)) (hc : c.recv.curOffset = 0) :
    l.turn S msMaxSize handle =
      if (handle c.mem c.msg c.state).1 then
        .next (l.advance { c with
          mem := (handle c.mem c.msg c.state).2.1, state := (handle c.mem c.msg c.state).2.2 } n)
      else .done (false, { c with
          mem := (handle c.mem c.msg c.state).2.1, state := (handle c.mem c.msg c.state).2.2 }) := by
  simp [turn, h, hp, hc]

end Turns

end Loop

section Buffer
variable {σ : Type u}

/-- The variables of `process_buffer` when the loop is entered. -/
def enter (c : Ctx σ) (buf len : Int) : Loop σ :=
  let direct := c.recv.curOffset == 0
  { ctx := if direct then { c with recv := { c.recv with curAddr := buf } } else c
    direct, offset := 0, buf, len }

theorem enter_of_zero {c : Ctx σ} (h : c.recv.curOffset = 0) (buf len : Int) :
    enter c buf len =
      ⟨{ c with recv := { c.recv with curAddr := buf } }, true, 0, buf, len⟩ := by
  simp [enter, h]

theorem enter_of_ne {c : Ctx σ} (h : c.recv.curOffset ≠ 0) (buf len : Int) :
    enter c buf len = ⟨c, false, 0, buf, len⟩ := by
  simp [enter, h]

/-- `process_buffer` with a bound on the turns of its loop. -/
def processBuffer (S : AccumulationStrategy) (msMaxSize : Int) (handle : Callback σ) (fuel : Nat)
    (c : Ctx σ) (buf len : Int) : Option (Bool × Ctx σ) :=
  iterate (Loop.turn S msMaxSize handle) fuel (enter c buf len)

/-- `process_buffer` returns `ok` and leaves the context `c'`. -/
def ProcessBuffer (S : AccumulationStrategy) (msMaxSize : Int) (handle : Callback σ)
    (c : Ctx σ) (buf len : Int) (ok : Bool) (c' : Ctx σ) : Prop :=
  Returns (Loop.turn S msMaxSize handle) (enter c buf len) (ok, c')

theorem processBuffer_iff {S : AccumulationStrategy} {msMaxSize : Int} {handle : Callback σ}
    {c c' : Ctx σ} {buf len : Int} {ok : Bool} :
    ProcessBuffer S msMaxSize handle c buf len ok c' ↔
      ∃ fuel, processBuffer S msMaxSize handle fuel c buf len = some (ok, c') := Iff.rfl

/-- The receive context of a new socket. -/
def freshRecv (buf maxSize : Int) : SocketRecvData := ⟨buf, maxSize, buf, 0, maxSize⟩

end Buffer

end Sockperf
