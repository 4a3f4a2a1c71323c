import Mathlib.Data.Finset.Prod
import Mathlib.Data.Finset.Card
import Sockperf.PacketTimes

/-!
# The flat array of packet times

`PacketTimes` keeps send and reply times in one array and addresses it through
two base pointers, `m_pTimes` and `m_pInternalUse = &m_pTimes[1]`. This module
lays the blocks of the table out in the array, and then says what the table
holds after any calls: the last send time and the first reply time.
-/

namespace Sockperf

set_option autoImplicit false

inductive TimesCall where
  | setTxTime (seqNo : Nat) (now : TicksTime)
  | clearTxTime (seqNo : Nat)
  | setRxTime (seqNo : Nat) (time : TicksTime) (serverNo : Nat)
  deriving DecidableEq, Repr

namespace TimesCall

/-- A pong request that is in the table, a server that is known, and a clock that has started. -/
def Valid (maxSequenceNo replyEvery numServers : Nat) : TimesCall → Prop
  | setTxTime seqNo now => seqNo ≤ maxSequenceNo ∧ replyEvery ∣ seqNo ∧ now ≠ 0
  | clearTxTime seqNo => seqNo ≤ maxSequenceNo ∧ replyEvery ∣ seqNo
  | setRxTime seqNo time serverNo =>
    seqNo ≤ maxSequenceNo ∧ replyEvery ∣ seqNo ∧ time ≠ 0 ∧ serverNo < numServers

instance (m r n : Nat) : DecidablePred (Valid m r n) := fun c => by
  cases c <;> unfold Valid <;> infer_instance

end TimesCall

/-- The members of `PacketTimes`; a read or a write outside an array fails. -/
structure FlatTimes where
  maxSequenceNo : Nat
  replyEvery : Nat
  blockSize : Nat
  pTimes : Array TicksTime
  duplicates : Array Nat
  receiveCount : Nat

namespace FlatTimes

def new (maxSequenceNo replyEvery numServers : Nat) : FlatTimes where
  maxSequenceNo := maxSequenceNo
  replyEvery := replyEvery
  blockSize := 1 + numServers
  pTimes := Array.replicate ((maxSequenceNo / replyEvery + 1) * (1 + numServers)) 0
  duplicates := Array.replicate numServers 0
  receiveCount := 0

variable (t : FlatTimes)

/-- `none` is the exit in `verifyError`. -/
def seq2index (seqNo : Nat) : Option Nat :=
  if seqNo ≤ t.maxSequenceNo then some (seqNo / t.replyEvery * t.blockSize) else none

/-- The slot of `m_pInternalUse[i]`. -/
def internalUse (i : Nat) : Nat := 1 + i

def write (slot : Nat) (time : TicksTime) : Option FlatTimes :=
  if slot < t.pTimes.size then some { t with pTimes := t.pTimes.setIfInBounds slot time } else none

def getTxTime (seqNo : Nat) : Option TicksTime := (t.seq2index seqNo).bind fun i => t.pTimes[i]?

/-- `getRxTimeArray(seqNo)[serverNo]` -/
def getRxTime (seqNo serverNo : Nat) : Option TicksTime :=
  (t.seq2index seqNo).bind fun i => t.pTimes[internalUse i + serverNo]?

def setTxTime (seqNo : Nat) (now : TicksTime) : Option FlatTimes :=
  (t.seq2index seqNo).bind fun i => t.write i now

def clearTxTime (seqNo : Nat) : Option FlatTimes :=
  (t.seq2index seqNo).bind fun i => t.write i 0

def incDupCount (serverNo : Nat) : Option FlatTimes :=
  (t.duplicates[serverNo]?).map fun n =>
    { t with duplicates := t.duplicates.setIfInBounds serverNo (n + 1) }

def setRxTime (seqNo : Nat) (time : TicksTime) (serverNo : Nat) (exiting : Bool) :
    Option FlatTimes :=
  (t.seq2index seqNo).bind fun i =>
    (t.pTimes[internalUse i + serverNo]?).bind fun old =>
      if old = 0 then
        (t.write (internalUse i + serverNo) time).map fun t =>
          { t with receiveCount := t.receiveCount + 1 }
      else if !exiting then t.incDupCount serverNo
      else some t

def call : TimesCall → Option FlatTimes
  | .setTxTime seqNo now => t.setTxTime seqNo now
  | .clearTxTime seqNo => t.clearTxTime seqNo
  | .setRxTime seqNo time serverNo => t.setRxTime seqNo time serverNo false

def run (calls : List TimesCall) : Option FlatTimes := calls.foldlM call t

end FlatTimes

/-! ## The layout of the blocks -/

namespace PacketTimes

/-- The times of a block in the order of its slots: the send time, then one reply time for every
server. -/
def cell (t : PacketTimes) (b : Nat) : Nat → TicksTime
  | 0 => t.tx b
  | k + 1 => t.rx b k

/-- The calls on the table of blocks, with the count of the received replies. -/
def call (x : PacketTimes × Nat) : TimesCall → Option (PacketTimes × Nat)
  | .setTxTime seqNo now => (x.1.setTxTime seqNo now).map fun t => (t, x.2)
  | .clearTxTime seqNo => (x.1.clearTxTime seqNo).map fun t => (t, x.2)
  | .setRxTime seqNo time serverNo =>
    (x.1.setRxTime seqNo time serverNo false).map fun r =>
      (r.1, if r.2 then x.2 + 1 else x.2)

end PacketTimes

structure Lays (n : Nat) (t : FlatTimes) (x : PacketTimes × Nat) : Prop where
  max : t.maxSequenceNo = x.1.maxSequenceNo
  every : t.replyEvery = x.1.replyEvery
  blockSize : t.blockSize = 1 + n
  size : t.pTimes.size = (x.1.maxSequenceNo / x.1.replyEvery + 1) * (1 + n)
  cells : ∀ b ≤ x.1.maxSequenceNo / x.1.replyEvery, ∀ j ≤ n,
    t.pTimes[b * (1 + n) + j]? = some (x.1.cell b j)
  servers : t.duplicates.size = n
  duplicates : ∀ k < n, t.duplicates[k]? = some (x.1.duplicates k)
  receiveCount : t.receiveCount = x.2

section Layout
variable {n : Nat}

theorem slot_lt {b m j : Nat} (hb : b ≤ m) (hj : j ≤ n) :
    b * (1 + n) + j < (m + 1) * (1 + n) := by
  have hmul : b * (1 + n) ≤ m * (1 + n) := Nat.mul_le_mul_right _ hb
  rw [Nat.add_mul, Nat.one_mul]
  omega

theorem slot_inj {b b' j j' : Nat} (hj : j ≤ n) (hj' : j' ≤ n)
    (h : b * (1 + n) + j = b' * (1 + n) + j') : b = b' ∧ j = j' := by
  have hpos : 0 < 1 + n := by omega
  have hdiv : ∀ b j, j ≤ n → (b * (1 + n) + j) / (1 + n) = b := by
    intro b j hj
    rw [Nat.mul_comm, Nat.mul_add_div hpos, Nat.div_eq_of_lt (by omega), Nat.add_zero]
  have hb : b = b' := by rw [← hdiv b j hj, h, hdiv b' j' hj']
  subst hb
  exact ⟨rfl, by omega⟩

variable {t : FlatTimes} {x : PacketTimes × Nat}

theorem Lays.new (m r : Nat) : Lays n (FlatTimes.new m r n) (PacketTimes.new m r, 0) := by
  refine ⟨rfl, rfl, rfl, by simp [FlatTimes.new, PacketTimes.new], fun b hb j hj => ?_,
    by simp [FlatTimes.new], fun k hk => ?_, rfl⟩
  · have hcell : (PacketTimes.new m r).cell b j = 0 := by cases j <;> rfl
    rw [hcell]
    show (Array.replicate _ 0)[_]? = _
    rw [Array.getElem?_replicate]
    exact if_pos (slot_lt hb hj)
  · show (Array.replicate _ 0)[_]? = _
    rw [Array.getElem?_replicate, if_pos hk]
    rfl

theorem Lays.seq2index_eq (h : Lays n t x) {seqNo : Nat} (hle : seqNo ≤ x.1.maxSequenceNo) :
    t.seq2index seqNo = some (seqNo / x.1.replyEvery * (1 + n)) ∧
      x.1.seq2index seqNo = some (seqNo / x.1.replyEvery) ∧
      seqNo / x.1.replyEvery ≤ x.1.maxSequenceNo / x.1.replyEvery := by
  refine ⟨?_, ?_, Nat.div_le_div_right hle⟩
  · rw [FlatTimes.seq2index, h.max, if_pos hle, h.every, h.blockSize]
  · rw [PacketTimes.seq2index, if_pos hle]

theorem Lays.write (h : Lays n t x) {b j : Nat} (time : TicksTime) (p : PacketTimes) (c : Nat)
    (hb : b ≤ x.1.maxSequenceNo / x.1.replyEvery) (hj : j ≤ n)
    (hmax : p.maxSequenceNo = x.1.maxSequenceNo) (hevery : p.replyEvery = x.1.replyEvery)
    (hdup : p.duplicates = x.1.duplicates)
    (hcell : ∀ b' j', p.cell b' j' = if b' = b ∧ j' = j then time else x.1.cell b' j') :
    ∃ t', t.write (b * (1 + n) + j) time = some t' ∧
      Lays n { t' with receiveCount := c } (p, c) := by
  have hlt : b * (1 + n) + j < t.pTimes.size := by
    rw [h.size]
    exact slot_lt hb hj
  refine ⟨_, if_pos hlt, h.max.trans hmax.symm, h.every.trans hevery.symm, h.blockSize, ?_,
    fun b' hb' j' hj' => ?_, h.servers, ?_, rfl⟩
  · rw [hmax, hevery, ← h.size]
    exact Array.size_setIfInBounds
  · rw [hmax, hevery] at hb'
    rw [hcell]
    show (t.pTimes.setIfInBounds _ time)[_]? = _
    rw [Array.getElem?_setIfInBounds]
    by_cases heq : b' = b ∧ j' = j
    · rw [if_pos heq, heq.1, heq.2, if_pos rfl, if_pos hlt]
    · have hne : ¬ b * (1 + n) + j = b' * (1 + n) + j' := by
        intro hslot
        obtain ⟨h1, h2⟩ := slot_inj hj hj' hslot
        exact heq ⟨h1.symm, h2.symm⟩
      rw [if_neg heq, if_neg hne]
      exact h.cells b' hb' j' hj'
  · intro k hk
    rw [hdup]
    exact h.duplicates k hk

theorem Lays.writeTx (h : Lays n t x) {seqNo : Nat} (hle : seqNo ≤ x.1.maxSequenceNo)
    (time : TicksTime) : ∃ t', (t.seq2index seqNo).bind (fun i => t.write i time) = some t' ∧
      Lays n t' ({ x.1 with tx := Function.update x.1.tx (seqNo / x.1.replyEvery) time }, x.2) := by
  obtain ⟨hflat, -, hb⟩ := h.seq2index_eq hle
  obtain ⟨t', hwrite, hlays⟩ := h.write time
    { x.1 with tx := Function.update x.1.tx (seqNo / x.1.replyEvery) time } x.2 hb (Nat.zero_le n)
    rfl rfl rfl fun b' j' => by cases j' <;> simp [PacketTimes.cell, Function.update_apply]
  have hcount : { t' with receiveCount := x.2 } = t' := by
    obtain ⟨-, rfl⟩ : _ ∧ _ = t' := by simpa [FlatTimes.write] using hwrite
    rw [← h.receiveCount]
  rw [hcount] at hlays
  refine ⟨t', ?_, hlays⟩
  rw [hflat, Option.bind_some]
  exact hwrite

/-- The flat table simulates the table of blocks; no access is outside the arrays. -/
theorem Lays.call (h : Lays n t x) {c : TimesCall}
    (hc : c.Valid x.1.maxSequenceNo x.1.replyEvery n) :
    ∃ t' x', t.call c = some t' ∧ PacketTimes.call x c = some x' ∧ Lays n t' x' := by
  cases c with
  | setTxTime seqNo now =>
    obtain ⟨-, hblock, -⟩ := h.seq2index_eq hc.1
    obtain ⟨t', hwrite, hlays⟩ := h.writeTx hc.1 now
    refine ⟨t', _, hwrite, ?_, hlays⟩
    rw [PacketTimes.call, PacketTimes.setTxTime, hblock]
    rfl
  | clearTxTime seqNo =>
    obtain ⟨-, hblock, -⟩ := h.seq2index_eq hc.1
    obtain ⟨t', hwrite, hlays⟩ := h.writeTx hc.1 0
    refine ⟨t', _, hwrite, ?_, hlays⟩
    rw [PacketTimes.call, PacketTimes.clearTxTime, hblock]
    rfl
  | setRxTime seqNo time serverNo =>
    obtain ⟨hle, -, -, hserver⟩ := hc
    obtain ⟨hflat, hblock, hb⟩ := h.seq2index_eq hle
    have hslot : FlatTimes.internalUse (seqNo / x.1.replyEvery * (1 + n)) + serverNo =
        seqNo / x.1.replyEvery * (1 + n) + (serverNo + 1) := by
      unfold FlatTimes.internalUse
      omega
    have hold := h.cells _ hb (serverNo + 1) hserver
    simp only [FlatTimes.call, FlatTimes.setRxTime, PacketTimes.call, PacketTimes.setRxTime, hflat,
      hblock, hslot, hold, Option.bind_some, Option.map_some, PacketTimes.cell]
    by_cases h0 : x.1.rx (seqNo / x.1.replyEvery) serverNo = 0
    · simp only [h0, if_true]
      obtain ⟨t', hwrite, hlays⟩ := h.write time
        { x.1 with
          rx := Function.update x.1.rx (seqNo / x.1.replyEvery)
            (Function.update (x.1.rx (seqNo / x.1.replyEvery)) serverNo time) } (x.2 + 1) hb
        hserver rfl rfl rfl fun b' j' => by
          cases j' with
          | zero => simp [PacketTimes.cell]
          | succ k =>
            by_cases hb' : b' = seqNo / x.1.replyEvery
            · simp [PacketTimes.cell, hb', Function.update_apply]
            · simp [PacketTimes.cell, hb']
      obtain ⟨-, rfl⟩ : _ ∧ _ = t' := by simpa [FlatTimes.write] using hwrite
      refine ⟨_, _, ?_, rfl, hlays⟩
      rw [hwrite, Option.map_some, ← h.receiveCount]
    · simp only [h0, if_false, Bool.not_false, if_true, FlatTimes.incDupCount,
        h.duplicates serverNo hserver, Option.map_some]
      refine ⟨_, _, rfl, rfl, h.max, h.every, h.blockSize, h.size, h.cells, ?_, fun k hk => ?_,
        h.receiveCount⟩
      · rw [← h.servers]
        exact Array.size_setIfInBounds
      · show (t.duplicates.setIfInBounds serverNo _)[k]? = _
        rw [Array.getElem?_setIfInBounds, h.servers, if_pos hserver]
        by_cases hk' : serverNo = k
        · subst hk'
          simp [PacketTimes.incDupCount]
        · rw [if_neg hk', h.duplicates k hk]
          simp [PacketTimes.incDupCount, Ne.symm hk']

end Layout

/-! ## What the table holds -/

namespace TimesCall

/-- What a call writes as the send time of a request. -/
def txOf (seqNo : Nat) : TimesCall → Option TicksTime
  | setTxTime n now => if n = seqNo then some now else none
  | clearTxTime n => if n = seqNo then some 0 else none
  | setRxTime _ _ _ => none

def rxOf (seqNo serverNo : Nat) : TimesCall → Option TicksTime
  | setRxTime n time k => if n = seqNo ∧ k = serverNo then some time else none
  | _ => none

def isRx (serverNo : Nat) : TimesCall → Bool
  | setRxTime _ _ k => k = serverNo
  | _ => false

end TimesCall

def lastTx (calls : List TimesCall) (seqNo : Nat) : TicksTime :=
  (calls.reverse.findSome? (TimesCall.txOf seqNo)).getD 0

def firstRx (calls : List TimesCall) (seqNo serverNo : Nat) : TicksTime :=
  (calls.findSome? (TimesCall.rxOf seqNo serverNo)).getD 0

section Calls
variable {m r n : Nat} {calls : List TimesCall} {c : TimesCall} {x x' : PacketTimes × Nat}

theorem lastTx_append (seqNo : Nat) :
    lastTx (calls ++ [c]) seqNo = (c.txOf seqNo).getD (lastTx calls seqNo) := by
  unfold lastTx
  rw [List.reverse_append, List.reverse_singleton, List.singleton_append, List.findSome?_cons]
  cases c.txOf seqNo <;> rfl

theorem firstRx_append (hvalid : ∀ c ∈ calls, c.Valid m r n) (seqNo k : Nat) :
    firstRx (calls ++ [c]) seqNo k =
      if firstRx calls seqNo k = 0 then (c.rxOf seqNo k).getD 0 else firstRx calls seqNo k := by
  unfold firstRx
  rw [List.findSome?_append]
  cases hfound : calls.findSome? (TimesCall.rxOf seqNo k) with
  | none => cases hc : c.rxOf seqNo k <;> simp [hc]
  | some time =>
    -- a time that was found is not zero
    obtain ⟨d, hd, hrx⟩ := List.exists_of_findSome?_eq_some hfound
    have hne : time ≠ 0 := by
      have hd' := hvalid d hd
      cases d with
      | setTxTime => cases hrx
      | clearTxTime => cases hrx
      | setRxTime seqNo' time' k' =>
        obtain ⟨-, heq⟩ := Option.ite_none_right_eq_some.mp hrx
        cases heq
        exact hd'.2.2.1
    simp [hne]

theorem card_filter_add_one {α : Type} [DecidableEq α] {s : Finset α} {p q : α → Prop}
    [DecidablePred p] [DecidablePred q] {a : α} (ha : a ∈ s) (hp : ¬ p a)
    (hq : ∀ y, q y ↔ y = a ∨ p y) : (s.filter q).card = (s.filter p).card + 1 := by
  have hinsert : s.filter q = insert a (s.filter p) := by
    ext y
    rw [Finset.mem_filter, Finset.mem_insert, Finset.mem_filter, hq]
    constructor
    · rintro ⟨hy, rfl | hpy⟩
      · exact Or.inl rfl
      · exact Or.inr ⟨hy, hpy⟩
    · rintro (rfl | ⟨hy, hpy⟩)
      · exact ⟨ha, Or.inl rfl⟩
      · exact ⟨hy, Or.inr hpy⟩
  rw [hinsert, Finset.card_insert_of_notMem]
  intro hmem
  exact hp (Finset.mem_filter.mp hmem).2

variable (m r n calls x) in
/-- The blocks hold the last send time and the first reply time, and the counters count them. -/
structure Holds : Prop where
  max : x.1.maxSequenceNo = m
  every : x.1.replyEvery = r
  tx : ∀ b, x.1.tx b = lastTx calls (b * r)
  rx : ∀ b k, x.1.rx b k = firstRx calls (b * r) k
  count : x.2 = ((Finset.range (m / r + 1) ×ˢ Finset.range n).filter
    fun q => x.1.rx q.1 q.2 ≠ 0).card
  duplicates : ∀ k < n, x.1.duplicates k + ((Finset.range (m / r + 1)).filter
    fun b => x.1.rx b k ≠ 0).card = calls.countP (TimesCall.isRx k)

theorem holds_new : Holds m r n [] (PacketTimes.new m r, 0) := by
  refine ⟨rfl, rfl, fun _ => rfl, fun _ _ => rfl, ?_, fun k _ => ?_⟩
  · simp [PacketTimes.new]
  · simp [PacketTimes.new]

theorem Holds.writeTx (hr : 0 < r) (h : Holds m r n calls x) {b : Nat} {time : TicksTime}
    (htx : ∀ seqNo, c.txOf seqNo = if b * r = seqNo then some time else none)
    (hrx : ∀ seqNo k, c.rxOf seqNo k = none) (hisRx : ∀ k, c.isRx k = false)
    (hvalid : ∀ c ∈ calls, c.Valid m r n) :
    Holds m r n (calls ++ [c]) ({ x.1 with tx := Function.update x.1.tx b time }, x.2) := by
  refine ⟨h.max, h.every, fun b' => ?_, fun b' k => ?_, h.count, fun k hk => ?_⟩
  · rw [lastTx_append, htx, ← h.tx]
    by_cases hb : b' = b
    · simp [hb]
    · have hne : ¬ b * r = b' * r := fun heq => hb (Nat.eq_of_mul_eq_mul_right hr heq).symm
      simp [hb, hne]
  · rw [firstRx_append hvalid, hrx, ← h.rx]
    by_cases h0 : x.1.rx b' k = 0
    · simp [h0]
    · simp [h0]
  · rw [List.countP_append, List.countP_singleton, hisRx]
    exact h.duplicates k hk

section Reply
variable {b k : Nat} {time : TicksTime}

theorem rxOf_setRxTime (hr : 0 < r) (b' k' : Nat) :
    (TimesCall.setRxTime (b * r) time k).rxOf (b' * r) k' =
      if b' = b ∧ k' = k then some time else none := by
  have hiff : b * r = b' * r ∧ k = k' ↔ b' = b ∧ k' = k :=
    ⟨fun heq => ⟨(Nat.eq_of_mul_eq_mul_right hr heq.1).symm, heq.2.symm⟩,
      fun heq => ⟨by rw [heq.1], heq.2.symm⟩⟩
  simp only [TimesCall.rxOf, hiff]

theorem countP_setRxTime (calls : List TimesCall) (seqNo k' : Nat) :
    (calls ++ [TimesCall.setRxTime seqNo time k]).countP (TimesCall.isRx k') =
      calls.countP (TimesCall.isRx k') + if k = k' then 1 else 0 := by
  rw [List.countP_append, List.countP_singleton]
  simp [TimesCall.isRx]

theorem Holds.firstRx_setRxTime (hr : 0 < r) (h : Holds m r n calls x)
    (hvalid : ∀ c ∈ calls, c.Valid m r n) (b' k' : Nat) :
    firstRx (calls ++ [.setRxTime (b * r) time k]) (b' * r) k' =
      if b' = b ∧ k' = k ∧ x.1.rx b k = 0 then time else x.1.rx b' k' := by
  rw [firstRx_append hvalid, rxOf_setRxTime hr, ← h.rx]
  by_cases heq : b' = b ∧ k' = k
  · obtain ⟨rfl, rfl⟩ := heq
    simp
  · have hnot : ¬ (b' = b ∧ k' = k ∧ x.1.rx b k = 0) := fun hall => heq ⟨hall.1, hall.2.1⟩
    rw [if_neg heq, if_neg hnot]
    split
    · next hz => exact hz.symm
    · rfl

theorem Holds.firstReply (hr : 0 < r) (h : Holds m r n calls x)
    (hvalid : ∀ c ∈ calls, c.Valid m r n) (hb : b ≤ m / r) (hk : k < n) (htime : time ≠ 0)
    (h0 : x.1.rx b k = 0) :
    Holds m r n (calls ++ [.setRxTime (b * r) time k])
      ({ x.1 with rx := Function.update x.1.rx b (Function.update (x.1.rx b) k time) },
        x.2 + 1) := by
  have hblock : b ∈ Finset.range (m / r + 1) := Finset.mem_range.mpr (by omega)
  have hupdate : ∀ b' k', Function.update x.1.rx b (Function.update (x.1.rx b) k time) b' k' =
      if b' = b ∧ k' = k then time else x.1.rx b' k' := by
    intro b' k'
    by_cases hb' : b' = b
    · subst hb'
      simp [Function.update_apply]
    · simp [hb']
  have hne : ∀ b' k', (if b' = b ∧ k' = k then time else x.1.rx b' k') ≠ 0 ↔
      (b' = b ∧ k' = k) ∨ x.1.rx b' k' ≠ 0 := by
    intro b' k'
    by_cases heq : b' = b ∧ k' = k
    · simp [heq, htime]
    · simp [heq]
  refine ⟨h.max, h.every, fun b' => ?_, fun b' k' => ?_, ?_, fun k' hk' => ?_⟩
  · rw [lastTx_append]
    exact h.tx b'
  · rw [h.firstRx_setRxTime hr hvalid]
    simp only [h0, and_true]
    exact hupdate b' k'
  · show x.2 + 1 = _
    rw [h.count]
    simp only [hupdate]
    have hplace : (b, k) ∈ Finset.range (m / r + 1) ×ˢ Finset.range n :=
      Finset.mem_product.mpr ⟨hblock, Finset.mem_range.mpr hk⟩
    refine (card_filter_add_one hplace (not_not.mpr h0) fun q => ?_).symm
    rw [hne, Prod.ext_iff]
  · rw [countP_setRxTime, ← h.duplicates k' hk']
    simp only [hupdate]
    by_cases hkk : k = k'
    · subst hkk
      rw [if_pos rfl, Nat.add_assoc]
      congr 1
      refine card_filter_add_one hblock (not_not.mpr h0) fun b' => ?_
      rw [hne]
      simp
    · simp [Ne.symm hkk, hkk]

theorem Holds.duplicateReply (hr : 0 < r) (h : Holds m r n calls x)
    (hvalid : ∀ c ∈ calls, c.Valid m r n) (h0 : x.1.rx b k ≠ 0) :
    Holds m r n (calls ++ [.setRxTime (b * r) time k]) (x.1.incDupCount k, x.2) := by
  refine ⟨h.max, h.every, fun b' => ?_, fun b' k' => ?_, h.count, fun k' hk' => ?_⟩
  · rw [lastTx_append]
    exact h.tx b'
  · rw [h.firstRx_setRxTime hr hvalid, if_neg fun hall => h0 hall.2.2]
    rfl
  · rw [countP_setRxTime, ← h.duplicates k' hk']
    show Function.update x.1.duplicates k (x.1.duplicates k + 1) k' + _ = _
    by_cases hkk : k = k'
    · subst hkk
      rw [Function.update_self, if_pos rfl]
      exact Nat.add_right_comm _ _ _
    · rw [Function.update_of_ne (Ne.symm hkk), if_neg hkk]
      rfl

theorem Holds.setRxTime (hr : 0 < r) (h : Holds m r n calls x)
    (hvalid : ∀ c ∈ calls, c.Valid m r n) (hb : b ≤ m / r) (hk : k < n) (htime : time ≠ 0) :
    Holds m r n (calls ++ [.setRxTime (b * r) time k])
      (if x.1.rx b k = 0 then
        ({ x.1 with rx := Function.update x.1.rx b (Function.update (x.1.rx b) k time) }, x.2 + 1)
      else (x.1.incDupCount k, x.2)) := by
  split
  · next h0 => exact h.firstReply hr hvalid hb hk htime h0
  · next h0 => exact h.duplicateReply hr hvalid h0

end Reply

theorem Holds.call (hr : 0 < r) (h : Holds m r n calls x) (hvalid : ∀ c ∈ calls, c.Valid m r n)
    (hc : c.Valid m r n) (hcall : PacketTimes.call x c = some x') :
    Holds m r n (calls ++ [c]) x' := by
  have hindex : ∀ seqNo, seqNo ≤ m → x.1.seq2index seqNo = some (seqNo / r) := by
    intro seqNo hle
    rw [PacketTimes.seq2index, h.max, if_pos hle, h.every]
  cases c with
  | setTxTime seqNo now =>
    obtain ⟨hle, ⟨b, rfl⟩, -⟩ := hc
    rw [PacketTimes.call, PacketTimes.setTxTime, hindex _ hle, Nat.mul_div_cancel_left b hr] at hcall
    cases hcall
    refine h.writeTx hr (fun seqNo => ?_) (fun _ _ => rfl) (fun _ => rfl) hvalid
    rw [TimesCall.txOf, Nat.mul_comm]
  | clearTxTime seqNo =>
    obtain ⟨hle, b, rfl⟩ := hc
    rw [PacketTimes.call, PacketTimes.clearTxTime, hindex _ hle,
      Nat.mul_div_cancel_left b hr] at hcall
    cases hcall
    refine h.writeTx hr (fun seqNo => ?_) (fun _ _ => rfl) (fun _ => rfl) hvalid
    rw [TimesCall.txOf, Nat.mul_comm]
  | setRxTime seqNo time k =>
    obtain ⟨hle, ⟨b, rfl⟩, htime, hk⟩ := hc
    have hb : b ≤ m / r := (Nat.le_div_iff_mul_le hr).mpr (Nat.mul_comm r b ▸ hle)
    have hnext := h.setRxTime hr hvalid hb hk htime
    rw [PacketTimes.call, PacketTimes.setRxTime, hindex _ hle, Nat.mul_div_cancel_left b hr] at hcall
    rw [Nat.mul_comm r b]
    convert hnext using 1
    rw [Option.map_some, Option.map_some] at hcall
    cases hcall
    split <;> rfl

theorem run_holds (hr : 0 < r) (hvalid : ∀ c ∈ calls, c.Valid m r n) :
    ∃ t x, (FlatTimes.new m r n).run calls = some t ∧ Lays n t x ∧ Holds m r n calls x := by
  induction calls using List.reverseRecOn with
  | nil => exact ⟨_, _, rfl, Lays.new m r, holds_new⟩
  | append_singleton calls c ih =>
    have hbefore : ∀ c ∈ calls, c.Valid m r n := fun d hd => hvalid d (List.mem_append_left _ hd)
    have hc : c.Valid m r n := hvalid c (by simp)
    obtain ⟨t, x, hrun, hlays, hholds⟩ := ih hbefore
    obtain ⟨t', x', hflat, hblock, hlays'⟩ := hlays.call (by rwa [hholds.max, hholds.every])
    refine ⟨t', x', ?_, hlays', hholds.call hr hbefore hc hblock⟩
    rw [FlatTimes.run] at hrun ⊢
    rw [List.foldlM_append, hrun]
    show List.foldlM FlatTimes.call t [c] = some t'
    rw [List.foldlM_cons, hflat]
    rfl

end Calls

/-- The slot of the send time of a request, or of its reply time for a server. -/
def FlatTimes.slot (t : FlatTimes) (seqNo : Nat) : Option Nat → Nat
  | none => seqNo / t.replyEvery * t.blockSize
  | some serverNo => internalUse (seqNo / t.replyEvery * t.blockSize) + serverNo

section Slots
variable {m r n : Nat} {calls : List TimesCall} {t : FlatTimes} {x : PacketTimes × Nat}

def place : Option Nat → Nat
  | none => 0
  | some serverNo => serverNo + 1

theorem place_le {k : Option Nat} (hk : ∀ i ∈ k, i < n) : place k ≤ n := by
  cases k with
  | none => exact Nat.zero_le n
  | some i => exact hk i rfl

theorem place_inj {k k' : Option Nat} (h : place k = place k') : k = k' := by
  cases k <;> cases k' <;> simp_all [place]

theorem Lays.slot_eq (h : Lays n t x) (seqNo : Nat) (k : Option Nat) :
    t.slot seqNo k = seqNo / x.1.replyEvery * (1 + n) + place k := by
  cases k with
  | none => rw [FlatTimes.slot, h.every, h.blockSize, place, Nat.add_zero]
  | some i =>
    rw [FlatTimes.slot, FlatTimes.internalUse, h.every, h.blockSize, place]
    omega

theorem Lays.slot_lt_size (h : Lays n t x) {seqNo : Nat} (hle : seqNo ≤ x.1.maxSequenceNo)
    {k : Option Nat} (hk : ∀ i ∈ k, i < n) : t.slot seqNo k < t.pTimes.size := by
  rw [h.slot_eq, h.size]
  exact slot_lt (Nat.div_le_div_right hle) (place_le hk)

theorem Lays.slot_unique (h : Lays n t x) {s s' : Nat} (hs : x.1.replyEvery ∣ s)
    (hs' : x.1.replyEvery ∣ s') {k k' : Option Nat} (hk : ∀ i ∈ k, i < n) (hk' : ∀ i ∈ k', i < n)
    (heq : t.slot s k = t.slot s' k') : s = s' ∧ k = k' := by
  rw [h.slot_eq, h.slot_eq] at heq
  obtain ⟨hb, hplace⟩ := slot_inj (place_le hk) (place_le hk') heq
  exact ⟨(Nat.div_left_inj hs hs').mp hb, place_inj hplace⟩

theorem Lays.getTxTime (h : Lays n t x) {seqNo : Nat} (hle : seqNo ≤ x.1.maxSequenceNo) :
    t.getTxTime seqNo = some (x.1.tx (seqNo / x.1.replyEvery)) := by
  obtain ⟨hflat, -, hb⟩ := h.seq2index_eq hle
  rw [FlatTimes.getTxTime, hflat, Option.bind_some]
  exact h.cells _ hb 0 (Nat.zero_le n)

theorem Lays.getRxTime (h : Lays n t x) {seqNo k : Nat} (hle : seqNo ≤ x.1.maxSequenceNo)
    (hk : k < n) : t.getRxTime seqNo k = some (x.1.rx (seqNo / x.1.replyEvery) k) := by
  obtain ⟨hflat, -, hb⟩ := h.seq2index_eq hle
  rw [FlatTimes.getRxTime, hflat, Option.bind_some, FlatTimes.internalUse]
  have hcell := h.cells _ hb (k + 1) hk
  rw [show 1 + seqNo / x.1.replyEvery * (1 + n) + k =
    seqNo / x.1.replyEvery * (1 + n) + (k + 1) by omega]
  exact hcell

end Slots

/-- After any calls the array holds, for every pong request, the last send time and the first
reply time of every server, each in a slot of its own; `g_receiveCount` counts the reply times, and
the duplicates of a server are the other calls for it. -/
theorem flat_times_refine {m r n : Nat} (hr : 0 < r) {calls : List TimesCall}
    (hvalid : ∀ c ∈ calls, c.Valid m r n) :
    ∃ t, (FlatTimes.new m r n).run calls = some t ∧
      t.pTimes.size = (m / r + 1) * (1 + n) ∧
      (∀ s ≤ m, r ∣ s → t.getTxTime s = some (lastTx calls s) ∧
        ∀ k < n, t.getRxTime s k = some (firstRx calls s k)) ∧
      (∀ s ≤ m, ∀ k : Option Nat, (∀ i ∈ k, i < n) → t.slot s k < t.pTimes.size) ∧
      (∀ s s', r ∣ s → r ∣ s' → ∀ k k' : Option Nat, (∀ i ∈ k, i < n) → (∀ i ∈ k', i < n) →
        t.slot s k = t.slot s' k' → s = s' ∧ k = k') ∧
      t.receiveCount = ((Finset.range (m / r + 1) ×ˢ Finset.range n).filter
        fun q => t.getRxTime (q.1 * r) q.2 ≠ some 0).card ∧
      ∀ k < n, ∃ d, t.duplicates[k]? = some d ∧
        d + ((Finset.range (m / r + 1)).filter fun b => t.getRxTime (b * r) k ≠ some 0).card =
          calls.countP (TimesCall.isRx k) := by
  obtain ⟨t, x, hrun, hlays, hholds⟩ := run_holds hr hvalid
  obtain ⟨p, count⟩ := x
  obtain ⟨rfl, rfl, htx, hrx, hcount, hdup⟩ := hholds
  dsimp only at *
  have hread : ∀ b ∈ Finset.range (p.maxSequenceNo / p.replyEvery + 1), ∀ k < n,
      t.getRxTime (b * p.replyEvery) k = some (p.rx b k) := by
    intro b hb k hk
    have hle : b * p.replyEvery ≤ p.maxSequenceNo := by
      rw [Finset.mem_range] at hb
      exact (Nat.le_div_iff_mul_le hr).mp (by omega)
    rw [hlays.getRxTime hle hk, Nat.mul_div_cancel b hr]
  refine ⟨t, hrun, hlays.size, fun s hs hdvd => ⟨?_, fun k hk => ?_⟩, fun s hs k hk =>
    hlays.slot_lt_size hs hk, fun s s' hs hs' k k' hk hk' => hlays.slot_unique hs hs' hk hk',
    ?_, fun k hk => ⟨_, hlays.duplicates k hk, ?_⟩⟩
  · rw [hlays.getTxTime hs, htx, Nat.div_mul_cancel hdvd]
  · rw [hlays.getRxTime hs hk, hrx, Nat.div_mul_cancel hdvd]
  · have hfilter : (Finset.range (p.maxSequenceNo / p.replyEvery + 1) ×ˢ Finset.range n).filter
        (fun q => t.getRxTime (q.1 * p.replyEvery) q.2 ≠ some 0) =
        (Finset.range (p.maxSequenceNo / p.replyEvery + 1) ×ˢ Finset.range n).filter
          fun q => p.rx q.1 q.2 ≠ 0 := by
      refine Finset.filter_congr fun q hq => ?_
      obtain ⟨hb, hk⟩ := Finset.mem_product.mp hq
      rw [hread q.1 hb q.2 (Finset.mem_range.mp hk), ne_eq, ne_eq, Option.some.injEq]
    rw [hfilter, hlays.receiveCount]
    exact hcount
  · have hfilter : (Finset.range (p.maxSequenceNo / p.replyEvery + 1)).filter
        (fun b => t.getRxTime (b * p.replyEvery) k ≠ some 0) =
        (Finset.range (p.maxSequenceNo / p.replyEvery + 1)).filter fun b => p.rx b k ≠ 0 := by
      refine Finset.filter_congr fun b hb => ?_
      rw [hread b hb k hk, ne_eq, ne_eq, Option.some.injEq]
    rw [hfilter]
    exact hdup k hk

def twoServerCalls : List TimesCall :=
  [.setTxTime 2 5, .setRxTime 2 7 1, .setRxTime 2 8 1, .setTxTime 4 9, .clearTxTime 4,
    .setRxTime 2 9 0]

theorem flat_times_refine_two_servers : ∃ t, (FlatTimes.new 5 2 2).run twoServerCalls = some t ∧
    t.getTxTime 2 = some 5 ∧ t.getTxTime 4 = some 0 ∧ t.getRxTime 2 1 = some 7 := by
  have hvalid : ∀ c ∈ twoServerCalls, c.Valid 5 2 2 := by decide
  obtain ⟨t, hrun, -, hread, -⟩ := flat_times_refine (by decide) hvalid
  obtain ⟨htx, hrx⟩ := hread 2 (by decide) (by decide)
  exact ⟨t, hrun, htx, (hread 4 (by decide) (by decide)).1, hrx 1 (by decide)⟩

end Sockperf
