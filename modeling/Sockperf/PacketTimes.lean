import Mathlib.Logic.Function.Basic

/-!
# The table of packet times

`PacketTimes` keeps one block for every `reply_every` sequence numbers: the time
the pong request was sent and, for each server, the time its reply arrived.
`seq2index` leaves the process for a number the table has no block for.
-/

namespace Sockperf

set_option autoImplicit false

/-- `TicksTime`, a signed count of ticks; 0 is `TICKS0`. -/
abbrev TicksTime := Int

/-- `class PacketTimes`; the flat array is split into its blocks. -/
structure PacketTimes where
  maxSequenceNo : Nat
  replyEvery : Nat
  tx : Nat → TicksTime
  rx : Nat → Nat → TicksTime
  duplicates : Nat → Nat
  ooo : Nat → Nat
  dropped : Nat → Nat

namespace PacketTimes
variable (t : PacketTimes)

def new (maxSequenceNo replyEvery : Nat) : PacketTimes :=
  ⟨maxSequenceNo, replyEvery, fun _ => 0, fun _ _ => 0, fun _ => 0, fun _ => 0, fun _ => 0⟩

/-- `seq2index`, up to the size of a block; `none` is the exit in `verifyError`. -/
def seq2index (seqNo : Nat) : Option Nat :=
  if seqNo ≤ t.maxSequenceNo then some (seqNo / t.replyEvery) else none

def getTxTime (seqNo : Nat) : Option TicksTime := (t.seq2index seqNo).map t.tx

def getRxTimeArray (seqNo : Nat) : Option (Nat → TicksTime) := (t.seq2index seqNo).map t.rx

def clearTxTime (seqNo : Nat) : Option PacketTimes :=
  (t.seq2index seqNo).map fun i => { t with tx := Function.update t.tx i 0 }

def setTxTime (seqNo : Nat) (now : TicksTime) : Option PacketTimes :=
  (t.seq2index seqNo).map fun i => { t with tx := Function.update t.tx i now }

def incDupCount (serverNo : Nat) : PacketTimes :=
  { t with duplicates := Function.update t.duplicates serverNo (t.duplicates serverNo + 1) }

def incOooCount (serverNo : Nat) : PacketTimes :=
  { t with ooo := Function.update t.ooo serverNo (t.ooo serverNo + 1) }

def incDroppedCount (serverNo : Nat) : PacketTimes :=
  { t with dropped := Function.update t.dropped serverNo (t.dropped serverNo + 1) }

/-- `setRxTime`; the second component says whether `g_receiveCount` is incremented. -/
def setRxTime (seqNo : Nat) (time : TicksTime) (serverNo : Nat) (exiting : Bool) :
    Option (PacketTimes × Bool) :=
  (t.seq2index seqNo).map fun i =>
    if t.rx i serverNo = 0 then
      ({ t with rx := Function.update t.rx i (Function.update (t.rx i) serverNo time) }, true)
    else if !exiting then (t.incDupCount serverNo, false)
    else (t, false)

variable {t}

theorem seq2index_eq_some {seqNo i : Nat} :
    t.seq2index seqNo = some i ↔ seqNo ≤ t.maxSequenceNo ∧ seqNo / t.replyEvery = i := by
  unfold seq2index
  split
  · next h => simp [h]
  · next h => simp [h]

theorem setTxTime_spec {seqNo : Nat} {now : TicksTime} {t' : PacketTimes}
    (h : t.setTxTime seqNo now = some t') :
    seqNo ≤ t.maxSequenceNo ∧ t'.maxSequenceNo = t.maxSequenceNo ∧
      t'.replyEvery = t.replyEvery ∧ t'.rx = t.rx := by
  obtain ⟨i, hi, rfl⟩ := Option.map_eq_some_iff.mp h
  exact ⟨(seq2index_eq_some.mp hi).1, rfl, rfl, rfl⟩

theorem clearTxTime_spec {seqNo : Nat} {t' : PacketTimes} (h : t.clearTxTime seqNo = some t') :
    t'.maxSequenceNo = t.maxSequenceNo ∧ t'.replyEvery = t.replyEvery ∧ t'.rx = t.rx := by
  obtain ⟨i, -, rfl⟩ := Option.map_eq_some_iff.mp h
  exact ⟨rfl, rfl, rfl⟩

theorem setRxTime_spec {seqNo serverNo : Nat} {time : TicksTime} {exiting counted : Bool}
    {t' : PacketTimes} (h : t.setRxTime seqNo time serverNo exiting = some (t', counted)) :
    t'.maxSequenceNo = t.maxSequenceNo ∧ t'.replyEvery = t.replyEvery ∧ t'.tx = t.tx ∧
      ∀ i k, t'.rx i k ≠ 0 → t.rx i k ≠ 0 ∨ i = seqNo / t.replyEvery := by
  obtain ⟨j, hj, he⟩ := Option.map_eq_some_iff.mp h
  obtain ⟨-, rfl⟩ := seq2index_eq_some.mp hj
  split at he
  · cases he
    refine ⟨rfl, rfl, rfl, fun i k hk => ?_⟩
    by_cases hi : i = seqNo / t.replyEvery
    · exact Or.inr hi
    · left
      simpa only [Function.update_of_ne hi] using hk
  · split at he <;> cases he <;> exact ⟨rfl, rfl, rfl, fun _ _ hk => Or.inl hk⟩

end PacketTimes

end Sockperf
