import Mathlib.Data.List.Flatten
import Mathlib.Logic.Function.Basic
import Sockperf.Lib.Mailbox

/-!
# The completions of the rings

`IoSocketxtreme::waitArrival` gives back what the rings delivered last, polls them again and queues
those that have something; `analyzeArrival` goes through the completions of the queued rings. Both
the loop that sends and the one that receives of an under-load client call `waitArrival`.
-/

namespace Sockperf

open Mailbox
set_option autoImplicit false

/-- `vma_completion_t`, `xlio_socketxtreme_completion_t` -/
structure Completion where
  events : UInt64
  listenFd : Int
  userData : Int
  buffLst : Int
  deriving DecidableEq, Repr

structure RingComps where
  compList : Nat → Completion
  compListSize : Int
  isFreed : Bool

namespace RingComps

/-- The record of `prepareNetwork`. -/
def new : RingComps := ⟨fun _ => ⟨0, 0, 0, 0⟩, 0, true⟩

/-- The packets are given back and the list is set to zero. -/
def free (r : RingComps) : RingComps :=
  if r.isFreed then r
  else
    { compList := fun i => if i < r.compListSize then ⟨0, 0, 0, 0⟩ else r.compList i
      compListSize := 0
      isFreed := true }

end RingComps

/-- What `socketxtreme_poll` finds; it returns -1 if it fails. -/
structure RingPoll where
  comps : List Completion
  failed : Bool
  deriving DecidableEq, Repr

def RingPoll.size (poll : RingPoll) : Int := if poll.failed then -1 else poll.comps.length

/-- `m_flag_sx_packet`, `m_flag_sx_new_conn_accepted` -/
structure SxFlags where
  sxPacket : UInt64
  sxNewConnAccepted : UInt64

/-- `EPOLLIN | EPOLLERR | EPOLLHUP | EPOLLRDHUP` -/
def epollMask : UInt64 := 0x2019

structure IoSocketxtreme where
  /-- what the entries of `m_rings_comps_map` point to -/
  ringComps : Int → RingComps
  compsQueue : List Int
  /-- the ring that `m_current_ring_comp` belongs to -/
  currentRingComp : Option Int
  compIndex : Nat
  lookEnd : Nat
  sxCurrBuff : Option Int

abbrev CompSlot := Int × Nat

inductive SxFault where
  /-- `front` of an empty queue -/
  | emptyQueue
  | nullPointer
  deriving DecidableEq, Repr

namespace IoSocketxtreme

/-- After `prepareNetwork` and `update`. -/
def new (fdNum : Nat) : IoSocketxtreme := ⟨fun _ => .new, [], none, 0, fdNum, none⟩

section
variable (polls : Int → RingPoll) (io : IoSocketxtreme) (ring : Int)

/-- One turn of the loop of `waitArrival`. -/
def pollRing : IoSocketxtreme :=
  let r := (io.ringComps ring).free
  let poll := polls ring
  let compList := fun i => if poll.failed then r.compList i else poll.comps.getD i (r.compList i)
  if 0 < poll.size then
    { io with
      ringComps := Function.update io.ringComps ring ⟨compList, poll.size, false⟩
      compsQueue := io.compsQueue ++ [ring]
      lookEnd := io.lookEnd + poll.size.toNat }
  else { io with ringComps := Function.update io.ringComps ring ⟨compList, poll.size, r.isFreed⟩ }

def slots : List CompSlot := (List.range (io.ringComps ring).compListSize.toNat).map (Prod.mk ring)

def cleared : List (Event CompSlot) :=
  if (io.ringComps ring).isFreed then [] else (io.slots ring).map .drop

def polled : Event CompSlot := .enter ((List.range (polls ring).size.toNat).map (Prod.mk ring))

end

/-- The loop of `waitArrival`, with what happens to the entries. -/
def pollRings (polls : Int → RingPoll) :
    List Int → IoSocketxtreme → List (Event CompSlot) × IoSocketxtreme
  | [], io => ([], io)
  | ring :: rings, io =>
    let r := pollRings polls rings (io.pollRing polls ring)
    (io.cleared ring ++ polled polls ring :: r.1, r.2)

def waitArrival (rings : List Int) (polls : Int → RingPoll) (io : IoSocketxtreme) :
    List (Event CompSlot) × IoSocketxtreme :=
  pollRings polls rings { io with lookEnd := 0 }

/-- The ring that `analyzeArrival` reads from. -/
def takeRing (rings : List Int) (io : IoSocketxtreme) : Except SxFault (Int × IoSocketxtreme) :=
  match io.currentRingComp with
  | some ring => .ok (ring, io)
  | none =>
    match io.compsQueue with
    | [] => .error .emptyQueue
    | ring :: queue =>
      if ring ∈ rings then
        .ok (ring, { io with
          compsQueue := queue
          currentRingComp := some ring
          compIndex := 0 })
      else .error .nullPointer

/-- The descriptor of a completion, and the buffer of a packet. -/
def arrival (flags : SxFlags) (comp : Completion) : Int × Option Int :=
  if comp.events &&& flags.sxNewConnAccepted ≠ 0 then (comp.listenFd, none)
  else if comp.events &&& flags.sxPacket ≠ 0 then (comp.userData, some comp.buffLst)
  else if comp.events &&& epollMask ≠ 0 then (comp.userData, none)
  else (0, none)

/-- `m_comp_index` and `m_current_ring_comp` after a completion. -/
def nextComp (io : IoSocketxtreme) (ring : Int) : IoSocketxtreme :=
  if (io.compIndex + 1 : Int) = (io.ringComps ring).compListSize then
    { io with compIndex := 0, currentRingComp := none }
  else { io with compIndex := io.compIndex + 1 }

/-- `IoSocketxtreme::analyzeArrival`: the descriptor, and the entry that was read. -/
def analyzeArrival (flags : SxFlags) (rings : List Int) (io : IoSocketxtreme) :
    Except SxFault (Int × CompSlot × IoSocketxtreme) :=
  match io.takeRing rings with
  | .error fault => .error fault
  | .ok (ring, io) =>
    let arrived := arrival flags ((io.ringComps ring).compList io.compIndex)
    .ok (arrived.1, (ring, io.compIndex), { io.nextComp ring with sxCurrBuff := arrived.2 })

end IoSocketxtreme

/-! ## The under-load client -/

inductive Receiving where
  /-- before `waitArrival` -/
  | waiting
  /-- at the head of the loop -/
  | atHead (fd : Nat)
  /-- before `analyzeArrival` -/
  | analyzing (fd : Nat)
  | finished
  deriving DecidableEq, Repr

structure UnderLoad where
  io : IoSocketxtreme
  receiving : Receiving
  exit : Bool

inductive Call where
  /-- `waitArrival` of `client_send_burst` -/
  | sendWait (polls : Int → RingPoll)
  /-- `waitArrival` of `client_receive` -/
  | receiveWait (polls : Int → RingPoll)
  /-- `get_look_end` -/
  | look
  | analyze
  /-- `g_b_exit = true` -/
  | exit

namespace UnderLoad

def new (fdNum : Nat) : UnderLoad := ⟨.new fdNum, .waiting, false⟩

/-- One call of either thread; `none` if it is not the one that comes next. -/
def call (flags : SxFlags) (rings : List Int) (s : UnderLoad) :
    Call → Option (List (Event CompSlot) × UnderLoad)
  | .sendWait polls =>
    let r := s.io.waitArrival rings polls
    some (r.1, { s with io := r.2 })
  | .receiveWait polls =>
    if s.receiving = .waiting then
      let r := s.io.waitArrival rings polls
      some (r.1, { s with
        io := r.2
        receiving :=
          if s.exit then .finished else if r.2.lookEnd = 0 then .waiting else .atHead 0 })
    else none
  | .look =>
    match s.receiving with
    | .atHead fd =>
      some ([], { s with
        receiving :=
          if s.exit then .finished else if fd < s.io.lookEnd then .analyzing fd else .waiting })
    | _ => none
  | .analyze =>
    match s.receiving with
    | .analyzing fd =>
      match s.io.analyzeArrival flags rings with
      | .error _ => some ([.fault], { s with receiving := .finished })
      | .ok (_, slot, io) => some ([.take slot], { s with io, receiving := .atHead (fd + 1) })
    | _ => none
  | .exit => some ([], { s with exit := true })

end UnderLoad

/-! ## What is unread -/

namespace IoSocketxtreme
variable {flags : SxFlags} {rings : List Int} {polls : Int → RingPoll} {io : IoSocketxtreme}
  {ring : Int} {box : List CompSlot}

/-- Nothing is left to be analyzed. -/
def Drained (io : IoSocketxtreme) : Prop := io.currentRingComp = none ∧ io.compsQueue = []

/-- `m_comp_index` is inside of the list of the current ring. -/
def IndexInside (io : IoSocketxtreme) : Prop :=
  ∀ ring, io.currentRingComp = some ring → io.compIndex < (io.ringComps ring).compListSize

def unreadHere (io : IoSocketxtreme) : List CompSlot :=
  match io.currentRingComp with
  | none => []
  | some ring => (io.slots ring).drop io.compIndex

/-- The entries in the order `analyzeArrival` reads them in. -/
def unread (io : IoSocketxtreme) : List CompSlot := io.unreadHere ++ io.compsQueue.flatMap io.slots

theorem mem_slots {slot : CompSlot} :
    slot ∈ io.slots ring ↔ slot.1 = ring ∧ slot.2 < (io.ringComps ring).compListSize := by
  obtain ⟨r, i⟩ := slot
  simp only [slots, List.mem_map, List.mem_range, Prod.mk.injEq]
  constructor
  · rintro ⟨k, hk, rfl, rfl⟩
    exact ⟨rfl, by omega⟩
  · rintro ⟨rfl, hi⟩
    exact ⟨i, by omega, rfl, rfl⟩

/-- A ring that is current or queued. -/
def Open (io : IoSocketxtreme) (ring : Int) : Prop :=
  io.currentRingComp = some ring ∨ ring ∈ io.compsQueue

/-- The mailbox holds just what is unread. -/
structure Tracks (rings : List Int) (io : IoSocketxtreme) (box : List CompSlot) : Prop where
  unread : box = io.unread
  known : ∀ ring, io.Open ring → ring ∈ rings
  filled : ∀ ring, io.Open ring →
    (io.ringComps ring).isFreed = false ∧ 0 < (io.ringComps ring).compListSize
  index : io.IndexInside

theorem Tracks.new (rings : List Int) (fdNum : Nat) : (new fdNum).Tracks rings [] where
  unread := rfl
  known := by
    rintro ring (h | h) <;> cases h
  filled := by
    rintro ring (h | h) <;> cases h
  index := nofun

theorem Tracks.open_of_mem (h : io.Tracks rings box) {slot : CompSlot} (hslot : slot ∈ box) :
    io.Open slot.1 := by
  rw [h.unread] at hslot
  rcases List.mem_append.mp hslot with hhere | hqueue
  · unfold unreadHere at hhere
    split at hhere
    · cases hhere
    · next ring hring =>
      have heq := (mem_slots.mp (List.mem_of_mem_drop hhere)).1
      exact Or.inl (heq ▸ hring)
  · obtain ⟨ring, hring, hmem⟩ := List.mem_flatMap.mp hqueue
    exact Or.inr ((mem_slots.mp hmem).1 ▸ hring)

theorem slots_drop (h : io.compIndex < (io.ringComps ring).compListSize) :
    (io.slots ring).drop io.compIndex =
      (ring, io.compIndex) :: (io.slots ring).drop (io.compIndex + 1) := by
  have hlength : io.compIndex < (io.slots ring).length := by
    rw [slots, List.length_map, List.length_range]
    omega
  rw [List.drop_eq_getElem_cons hlength]
  simp only [slots, List.getElem_map, List.getElem_range]

theorem Tracks.eq_nil (h : io.Tracks rings box) (hdrained : io.Drained) : box = [] := by
  rw [h.unread, IoSocketxtreme.unread, unreadHere, hdrained.1, hdrained.2]
  rfl

theorem Tracks.exists_unread (h : io.Tracks rings box) (hdrained : ¬ io.Drained) :
    ∃ (ring : Int) (i : Nat), io.Open ring ∧ i < (io.ringComps ring).compListSize ∧
      (ring, i) ∈ box := by
  rw [h.unread, IoSocketxtreme.unread]
  cases hcurrent : io.currentRingComp with
  | some ring =>
    have hindex := h.index ring hcurrent
    refine ⟨ring, io.compIndex, Or.inl hcurrent, hindex, List.mem_append_left _ ?_⟩
    rw [unreadHere, hcurrent]
    dsimp only
    rw [slots_drop hindex]
    exact List.mem_cons_self
  | none =>
    cases hqueue : io.compsQueue with
    | nil => exact absurd ⟨hcurrent, hqueue⟩ hdrained
    | cons ring queue =>
      have hopen : io.Open ring := Or.inr (hqueue ▸ List.mem_cons_self)
      have hsize := (h.filled ring hopen).2
      refine ⟨ring, 0, hopen, hsize, List.mem_append_right _ ?_⟩
      exact List.mem_flatMap.mpr ⟨ring, List.mem_cons_self, mem_slots.mpr ⟨rfl, hsize⟩⟩

/-! ### Analyzing -/

theorem Tracks.takeRing (h : io.Tracks rings box) (hbox : box ≠ []) :
    ∃ ring io', io.takeRing rings = .ok (ring, io') ∧ io'.Tracks rings box ∧
      io'.currentRingComp = some ring ∧ io'.lookEnd = io.lookEnd := by
  unfold IoSocketxtreme.takeRing
  cases hcurrent : io.currentRingComp with
  | some ring => exact ⟨ring, io, rfl, h, hcurrent, rfl⟩
  | none =>
    have hunread := h.unread
    rw [IoSocketxtreme.unread, unreadHere, hcurrent, List.nil_append] at hunread
    cases hqueue : io.compsQueue with
    | nil =>
      rw [hqueue] at hunread
      exact absurd hunread hbox
    | cons ring queue =>
      have hopen : ∀ r, some ring = some r ∨ r ∈ queue → io.Open r := by
        rintro r (hr | hr)
        · cases hr
          exact Or.inr (hqueue ▸ List.mem_cons_self)
        · exact Or.inr (hqueue ▸ List.mem_cons_of_mem ring hr)
      dsimp only
      rw [if_pos (h.known ring (hopen ring (Or.inl rfl)))]
      refine ⟨ring, _, rfl, ⟨?_, fun r hr => ?_, fun r hr => ?_, ?_⟩, rfl, rfl⟩
      · rw [hunread, hqueue]
        rfl
      · exact h.known r (hopen r hr)
      · exact h.filled r (hopen r hr)
      · intro r hr
        cases hr
        exact (h.filled ring (hopen ring (Or.inl rfl))).2

theorem Tracks.nextComp (h : io.Tracks rings box) (hring : io.currentRingComp = some ring) :
    ∃ box', box = (ring, io.compIndex) :: box' ∧ (io.nextComp ring).Tracks rings box' ∧
      (io.nextComp ring).lookEnd = io.lookEnd := by
  have hindex := h.index ring hring
  have hunread := h.unread
  rw [IoSocketxtreme.unread, unreadHere, hring] at hunread
  dsimp only at hunread
  rw [slots_drop hindex, List.cons_append] at hunread
  refine ⟨_, hunread, ?_, ?_⟩
  · unfold IoSocketxtreme.nextComp
    split
    · next hend =>
      have hnone : (io.slots ring).drop (io.compIndex + 1) = [] := by
        apply List.drop_eq_nil_of_le
        rw [slots, List.length_map, List.length_range]
        omega
      refine ⟨?_, fun r hr => ?_, fun r hr => ?_, nofun⟩
      · rw [hnone]
        rfl
      · exact h.known r (Or.inr (hr.resolve_left nofun))
      · exact h.filled r (Or.inr (hr.resolve_left nofun))
    · next hend =>
      refine ⟨?_, h.known, h.filled, ?_⟩
      · rw [IoSocketxtreme.unread, unreadHere]
        dsimp only
        rw [hring]
        rfl
      · intro r hr
        cases hring.symm.trans hr
        change ((io.compIndex + 1 : Nat) : Int) < (io.ringComps ring).compListSize
        omega
  · unfold IoSocketxtreme.nextComp
    split <;> rfl

theorem Tracks.analyzeArrival (flags : SxFlags) (h : io.Tracks rings box) (hbox : box ≠ []) :
    ∃ ifd slot io' box', io.analyzeArrival flags rings = .ok (ifd, slot, io') ∧
      box = slot :: box' ∧ io'.Tracks rings box' ∧ io'.lookEnd = io.lookEnd := by
  obtain ⟨ring, io₁, htake, htracks, hring, hlook⟩ := h.takeRing hbox
  obtain ⟨box', hcons, hnext, hlook'⟩ := htracks.nextComp hring
  unfold IoSocketxtreme.analyzeArrival
  rw [htake]
  refine ⟨_, _, _, box', rfl, hcons, ?_, hlook'.trans hlook⟩
  exact ⟨hnext.unread, hnext.known, hnext.filled, hnext.index⟩

/-! ### Polling -/

variable (polls io) in
theorem pollRing_other {other : Int} (hne : other ≠ ring) :
    (io.pollRing polls ring).ringComps other = io.ringComps other := by
  unfold pollRing
  dsimp only
  split
  · exact Function.update_of_ne hne _ _
  · exact Function.update_of_ne hne _ _

theorem pollRing_size :
    ((io.pollRing polls ring).ringComps ring).compListSize = (polls ring).size := by
  unfold pollRing
  dsimp only
  split
  · dsimp only
    rw [Function.update_self]
  · dsimp only
    rw [Function.update_self]

theorem slots_pollRing_other {other : Int} (hne : other ≠ ring) :
    (io.pollRing polls ring).slots other = io.slots other := by
  rw [slots, slots, pollRing_other polls io hne]

theorem pollRing_current :
    (io.pollRing polls ring).currentRingComp = io.currentRingComp := by
  unfold pollRing
  dsimp only
  split <;> rfl

theorem pollRing_queue : (io.pollRing polls ring).compsQueue =
    io.compsQueue ++ if 0 < (polls ring).size then [ring] else [] := by
  unfold pollRing
  dsimp only
  split
  · rfl
  · exact (List.append_nil _).symm

theorem pollRing_lookEnd :
    (io.pollRing polls ring).lookEnd = io.lookEnd + (polls ring).size.toNat := by
  unfold pollRing
  dsimp only
  split
  · rfl
  · change io.lookEnd = _
    omega

theorem pollRing_isFreed (h : 0 < (polls ring).size) :
    ((io.pollRing polls ring).ringComps ring).isFreed = false := by
  unfold pollRing
  dsimp only
  rw [if_pos h]
  dsimp only
  rw [Function.update_self]

theorem mem_pollRing_queue {r : Int} : r ∈ (io.pollRing polls ring).compsQueue ↔
    r ∈ io.compsQueue ∨ r = ring ∧ 0 < (polls ring).size := by
  rw [pollRing_queue, List.mem_append]
  split
  · next hsize => simp only [List.mem_singleton, hsize, and_true]
  · next hsize => simp only [List.not_mem_nil, hsize, and_false]

theorem open_pollRing (hcurrent : io.currentRingComp = none) {r : Int} :
    (io.pollRing polls ring).Open r ↔ r ∈ io.compsQueue ∨ r = ring ∧ 0 < (polls ring).size := by
  rw [Open, pollRing_current, hcurrent, mem_pollRing_queue]
  exact or_iff_right nofun

/-- What is thrown away before a ring is polled has been read, if the ring is not open. -/
theorem Tracks.accounts_cleared (h : io.Tracks rings box) (hclosed : ¬ io.Open ring) :
    accounts (io.cleared ring) box = some box := by
  unfold cleared
  split
  · rfl
  · apply accounts_drops
    intro slot hslot hbox
    have hopen := h.open_of_mem hbox
    rw [(mem_slots.mp hslot).1] at hopen
    exact hclosed hopen

variable (polls) in
theorem unread_pollRing (hcurrent : io.currentRingComp = none) (hfree : ring ∉ io.compsQueue) :
    (io.pollRing polls ring).unread =
      io.unread ++ (List.range (polls ring).size.toNat).map (Prod.mk ring) := by
  have hother : io.compsQueue.flatMap (io.pollRing polls ring).slots =
      io.compsQueue.flatMap io.slots := by
    apply List.flatMap_congr
    intro other hother
    apply slots_pollRing_other
    rintro rfl
    exact hfree hother
  rw [IoSocketxtreme.unread, IoSocketxtreme.unread, unreadHere, unreadHere,
    pollRing_current, hcurrent, pollRing_queue, List.flatMap_append, hother]
  dsimp only
  rw [List.append_assoc]
  congr 2
  split
  · rw [List.flatMap_singleton, slots, pollRing_size]
  · next hsize =>
    have hzero : (polls ring).size.toNat = 0 := by omega
    rw [hzero]
    rfl

theorem Tracks.pollRing (h : io.Tracks rings box) (hcurrent : io.currentRingComp = none)
    (hring : ring ∈ rings) (hfree : ring ∉ io.compsQueue) (polls : Int → RingPoll) :
    ∃ box', accounts (io.cleared ring ++ [polled polls ring]) box = some (box ++ box') ∧
      (io.pollRing polls ring).Tracks rings (box ++ box') ∧
      (io.pollRing polls ring).lookEnd = io.lookEnd + box'.length := by
  have hclosed : ¬ io.Open ring := by
    rintro (hr | hr)
    · cases hcurrent.symm.trans hr
    · exact hfree hr
  refine ⟨(List.range (polls ring).size.toNat).map (Prod.mk ring), ?_, ⟨?_, ?_, ?_, ?_⟩, ?_⟩
  · rw [accounts_append_of_some (h.accounts_cleared hclosed)]
    rfl
  · rw [unread_pollRing polls hcurrent hfree, ← h.unread]
  · intro r hr
    rcases (open_pollRing hcurrent).mp hr with hold | ⟨rfl, -⟩
    · exact h.known r (Or.inr hold)
    · exact hring
  · intro r hr
    rcases (open_pollRing hcurrent).mp hr with hold | ⟨rfl, hsize⟩
    · have hne : r ≠ ring := by
        rintro rfl
        exact hfree hold
      rw [pollRing_other polls io hne]
      exact h.filled r (Or.inr hold)
    · exact ⟨pollRing_isFreed hsize, pollRing_size ▸ hsize⟩
  · intro r hr
    rw [pollRing_current, hcurrent] at hr
    cases hr
  · rw [pollRing_lookEnd, List.length_map, List.length_range]

theorem Tracks.pollRings {todo : List Int} (h : io.Tracks rings box)
    (hcurrent : io.currentRingComp = none) (hsub : ∀ ring ∈ todo, ring ∈ rings)
    (hnodup : todo.Nodup) (hfree : ∀ ring ∈ todo, ring ∉ io.compsQueue)
    (polls : Int → RingPoll) :
    ∃ box', accounts (pollRings polls todo io).1 box = some (box ++ box') ∧
      (pollRings polls todo io).2.Tracks rings (box ++ box') ∧
      (pollRings polls todo io).2.lookEnd = io.lookEnd + box'.length := by
  induction todo generalizing io box with
  | nil => exact ⟨[], by rw [List.append_nil]; rfl, by rwa [List.append_nil], rfl⟩
  | cons ring todo ih =>
    obtain ⟨hnot, hnodup'⟩ := List.nodup_cons.mp hnodup
    obtain ⟨box₁, hlog, htracks, hlook⟩ := h.pollRing hcurrent (hsub ring List.mem_cons_self)
      (hfree ring List.mem_cons_self) polls
    obtain ⟨box₂, hlog', htracks', hlook'⟩ := ih htracks (pollRing_current.trans hcurrent)
      (fun r hr => hsub r (List.mem_cons_of_mem ring hr)) hnodup' (by
        intro r hr hqueue
        rcases mem_pollRing_queue.mp hqueue with hold | ⟨rfl, -⟩
        · exact hfree r (List.mem_cons_of_mem ring hr) hold
        · exact hnot hr)
    refine ⟨box₁ ++ box₂, ?_, ?_, ?_⟩
    · have hsplit : (IoSocketxtreme.pollRings polls (ring :: todo) io).1 =
          (io.cleared ring ++ [polled polls ring]) ++
            (IoSocketxtreme.pollRings polls todo (io.pollRing polls ring)).1 := by
        rw [List.append_assoc]
        rfl
      rw [hsplit, accounts_append_of_some hlog, hlog', List.append_assoc]
    · rw [← List.append_assoc]
      exact htracks'
    · rw [List.length_append, ← Nat.add_assoc, ← hlook]
      exact hlook'

theorem Tracks.waitArrival (h : io.Tracks rings box) (hnodup : rings.Nodup) (hdrained : io.Drained)
    (polls : Int → RingPoll) :
    ∃ box', accounts (io.waitArrival rings polls).1 box = some box' ∧
      (io.waitArrival rings polls).2.Tracks rings box' ∧
      (io.waitArrival rings polls).2.lookEnd = box'.length := by
  obtain rfl := h.eq_nil hdrained
  obtain ⟨hcurrent, hqueue⟩ := hdrained
  have hzero : ({ io with lookEnd := 0 } : IoSocketxtreme).Tracks rings [] :=
    ⟨h.unread, h.known, h.filled, h.index⟩
  obtain ⟨box', hlog, htracks, hlook⟩ := hzero.pollRings hcurrent (fun _ => id) hnodup
    (fun ring _ => hqueue ▸ List.not_mem_nil) polls
  exact ⟨box', hlog, htracks, hlook.trans (Nat.zero_add _)⟩

theorem pollRings_lookEnd (todo : List Int) (io : IoSocketxtreme)
    (h : ∀ ring ∈ todo, (polls ring).size ≤ 0) :
    (IoSocketxtreme.pollRings polls todo io).2.lookEnd = io.lookEnd := by
  induction todo generalizing io with
  | nil => rfl
  | cons ring todo ih =>
    have hsize := h ring List.mem_cons_self
    have hrest := ih (io.pollRing polls ring) fun r hr => h r (List.mem_cons_of_mem ring hr)
    rw [pollRing_lookEnd] at hrest
    exact hrest.trans (by omega)

theorem waitArrival_lookEnd (io : IoSocketxtreme) (h : ∀ ring ∈ rings, (polls ring).size ≤ 0) :
    (io.waitArrival rings polls).2.lookEnd = 0 :=
  pollRings_lookEnd rings _ h

/-! ### Losing -/

variable (polls io) in
theorem cleared_mem {todo : List Int} {i : Nat} (hmem : ring ∈ todo)
    (hfreed : (io.ringComps ring).isFreed = false) (hi : i < (io.ringComps ring).compListSize) :
    .drop (ring, i) ∈ (pollRings polls todo io).1 := by
  induction todo generalizing io with
  | nil => cases hmem
  | cons r todo ih =>
    rcases eq_or_ne ring r with rfl | hne
    · apply List.mem_append_left
      unfold cleared
      rw [if_neg (by rw [hfreed]; nofun)]
      exact List.mem_map_of_mem (mem_slots.mpr ⟨rfl, hi⟩)
    · apply List.mem_append_right
      apply List.mem_cons_of_mem
      rw [← pollRing_other polls io hne] at hfreed hi
      exact ih _ ((List.mem_cons.mp hmem).resolve_left hne) hfreed hi

theorem take_not_mem_pollRings (todo : List Int) (slot : CompSlot) :
    .take slot ∉ (pollRings polls todo io).1 := by
  induction todo generalizing io with
  | nil => exact List.not_mem_nil
  | cons r todo ih =>
    intro hmem
    rcases List.mem_append.mp hmem with hcleared | hrest
    · unfold cleared at hcleared
      split at hcleared
      · cases hcleared
      · obtain ⟨_, -, heq⟩ := List.mem_map.mp hcleared
        cases heq
    · rcases List.mem_cons.mp hrest with heq | hrest
      · cases heq
      · exact ih hrest

theorem Tracks.waitArrival_loses (h : io.Tracks rings box) (hdrained : ¬ io.Drained)
    (polls : Int → RingPoll) : accounts (io.waitArrival rings polls).1 box = none := by
  obtain ⟨ring, i, hopen, hi, hmem⟩ := h.exists_unread hdrained
  apply accounts_lost hmem
  · exact cleared_mem polls { io with lookEnd := 0 } (h.known ring hopen) (h.filled ring hopen).1 hi
  · exact take_not_mem_pollRings rings

end IoSocketxtreme

/-! ## Runs -/

namespace UnderLoad
variable (flags : SxFlags) (rings : List Int)

/-- From here on, every completion that is polled is analyzed once before its entry is set to zero,
there is a ring to read from and the index is inside of its list. -/
def Intact : List Call → UnderLoad → List CompSlot → Prop
  | [], _, _ => True
  | c :: calls, s, box => ∀ log s', s.call flags rings c = some (log, s') →
      ∃ box', accounts log box = some box' ∧ s'.io.IndexInside ∧ Intact calls s' box'

/-- From here on, `waitArrival` is called only when nothing is left to be analyzed. -/
def WaitsDrained : List Call → UnderLoad → Prop
  | [], _ => True
  | c :: calls, s => ∀ log s', s.call flags rings c = some (log, s') →
      (∀ polls, c = .sendWait polls ∨ c = .receiveWait polls → s.io.Drained) ∧
        WaitsDrained calls s'

/-- From here on, the loop that sends finds nothing and does not interrupt the other loop. -/
def Quiet : List Call → UnderLoad → Prop
  | [], _ => True
  | c :: calls, s => ∀ log s', s.call flags rings c = some (log, s') →
      (∀ polls, c = .sendWait polls →
        s.receiving = .waiting ∧ ∀ ring ∈ rings, (polls ring).size ≤ 0) ∧ Quiet calls s'

/-- Enough is unread for what the thread that receives goes on to analyze. -/
structure Sound (s : UnderLoad) (box : List CompSlot) : Prop where
  tracks : s.io.Tracks rings box
  atHead : ∀ fd, s.receiving = .atHead fd → s.io.lookEnd ≤ fd + box.length
  analyzing : ∀ fd, s.receiving = .analyzing fd →
    fd < s.io.lookEnd ∧ s.io.lookEnd ≤ fd + box.length

/-- What is unread is just what the thread that receives goes on to analyze. -/
structure Exact (s : UnderLoad) (box : List CompSlot) : Prop extends Sound rings s box where
  waiting : s.receiving = .waiting → box = []
  count : ∀ fd, s.receiving = .atHead fd ∨ s.receiving = .analyzing fd →
    fd + box.length = s.io.lookEnd

/-- What a call does, if `waitArrival` is called only when nothing is left to be analyzed. -/
inductive Step (s : UnderLoad) (box : List CompSlot) : Call → UnderLoad → List CompSlot → Prop
  | sendWait (polls : Int → RingPoll) (box' : List CompSlot) (drained : box = [])
      (tracks : (s.io.waitArrival rings polls).2.Tracks rings box')
      (look : (s.io.waitArrival rings polls).2.lookEnd = box'.length) :
      Step s box (.sendWait polls) { s with io := (s.io.waitArrival rings polls).2 } box'
  | receiveWait (polls : Int → RingPoll) (box' : List CompSlot) (receiving : Receiving)
      (tracks : (s.io.waitArrival rings polls).2.Tracks rings box')
      (look : (s.io.waitArrival rings polls).2.lookEnd = box'.length)
      (next : receiving = .finished ∨ receiving = .waiting ∧ box' = [] ∨ receiving = .atHead 0) :
      Step s box (.receiveWait polls)
        { s with io := (s.io.waitArrival rings polls).2, receiving } box'
  | look (fd : Nat) (receiving : Receiving) (at_head : s.receiving = .atHead fd)
      (next : receiving = .finished ∨ receiving = .analyzing fd ∧ fd < s.io.lookEnd ∨
        receiving = .waiting ∧ s.io.lookEnd ≤ fd) :
      Step s box .look { s with receiving } box
  | analyze (fd : Nat) (slot : CompSlot) (io : IoSocketxtreme) (box' : List CompSlot)
      (at_call : s.receiving = .analyzing fd) (first : box = slot :: box')
      (tracks : io.Tracks rings box') (same : io.lookEnd = s.io.lookEnd) :
      Step s box .analyze { s with io, receiving := .atHead (fd + 1) } box'
  | exit : Step s box .exit { s with exit := true } box

variable {flags rings} {s s' : UnderLoad} {box box' : List CompSlot} {c : Call}
  {log : List (Event CompSlot)}

theorem Sound.new (rings : List Int) (fdNum : Nat) : (new fdNum).Sound rings [] :=
  ⟨.new rings fdNum, nofun, nofun⟩

theorem Exact.new (rings : List Int) (fdNum : Nat) : (new fdNum).Exact rings [] where
  toSound := .new rings fdNum
  waiting _ := rfl
  count := by
    rintro fd (h | h) <;> cases h

theorem Sound.call (h : s.Sound rings box) (hnodup : rings.Nodup)
    (hcall : s.call flags rings c = some (log, s'))
    (hdrained : ∀ polls, c = .sendWait polls ∨ c = .receiveWait polls → s.io.Drained) :
    ∃ box', accounts log box = some box' ∧ Step rings s box c s' box' := by
  cases c with
  | sendWait polls =>
    have hnone := hdrained polls (Or.inl rfl)
    obtain ⟨box', hlog, htracks, hlook⟩ := h.tracks.waitArrival hnodup hnone polls
    cases hcall
    exact ⟨box', hlog, .sendWait polls box' (h.tracks.eq_nil hnone) htracks hlook⟩
  | receiveWait polls =>
    dsimp only [UnderLoad.call] at hcall
    split at hcall
    · obtain ⟨box', hlog, htracks, hlook⟩ :=
        h.tracks.waitArrival hnodup (hdrained polls (Or.inr rfl)) polls
      cases hcall
      refine ⟨box', hlog, .receiveWait polls box' _ htracks hlook ?_⟩
      split
      · exact Or.inl rfl
      · split
        · next hzero => exact Or.inr (Or.inl ⟨rfl, List.eq_nil_of_length_eq_zero (hlook ▸ hzero)⟩)
        · exact Or.inr (Or.inr rfl)
    · cases hcall
  | look =>
    dsimp only [UnderLoad.call] at hcall
    split at hcall
    · next fd hfd =>
      cases hcall
      refine ⟨box, rfl, .look fd _ hfd ?_⟩
      split
      · exact Or.inl rfl
      · split
        · next hlt => exact Or.inr (Or.inl ⟨rfl, hlt⟩)
        · next hlt => exact Or.inr (Or.inr ⟨rfl, Nat.le_of_not_lt hlt⟩)
    · cases hcall
  | analyze =>
    dsimp only [UnderLoad.call] at hcall
    split at hcall
    · next fd hfd =>
      obtain ⟨hlt, hle⟩ := h.analyzing fd hfd
      have hbox : box ≠ [] := by
        rintro rfl
        rw [List.length_nil] at hle
        omega
      obtain ⟨ifd, slot, io', box', hanalyze, rfl, htracks, hlook⟩ :=
        h.tracks.analyzeArrival flags hbox
      rw [hanalyze] at hcall
      cases hcall
      exact ⟨box', accounts_cons (account_take_head slot box'),
        .analyze fd slot io' box' hfd rfl htracks hlook⟩
    · cases hcall
  | exit =>
    cases hcall
    exact ⟨box, rfl, .exit⟩

theorem Sound.step (h : s.Sound rings box) (hstep : Step rings s box c s' box') :
    s'.Sound rings box' := by
  cases hstep with
  | sendWait polls _ hdrained htracks hlook =>
    refine ⟨htracks, fun fd _ => ?_, fun fd hfd => ?_⟩
    · rw [hlook]
      exact Nat.le_add_left _ _
    · -- what the thread goes on to analyze would be unread
      obtain ⟨hlt, hle⟩ := h.analyzing fd hfd
      rw [hdrained, List.length_nil] at hle
      omega
  | receiveWait polls _ receiving htracks hlook hnext =>
    refine ⟨htracks, fun fd _ => ?_, fun fd hfd => ?_⟩
    · rw [hlook]
      exact Nat.le_add_left _ _
    · cases hfd
      rcases hnext with hnext | ⟨hnext, -⟩ | hnext <;> cases hnext
  | look fd receiving hhead hnext =>
    refine ⟨h.tracks, fun x hx => ?_, fun x hx => ?_⟩
    · cases hx
      rcases hnext with hnext | ⟨hnext, -⟩ | ⟨hnext, -⟩ <;> cases hnext
    · cases hx
      rcases hnext with hnext | ⟨hnext, hlt⟩ | ⟨hnext, -⟩
      · cases hnext
      · cases hnext
        exact ⟨hlt, h.atHead fd hhead⟩
      · cases hnext
  | analyze fd slot io _ hat hfirst htracks hsame =>
    refine ⟨htracks, fun x hx => ?_, nofun⟩
    cases hx
    have hle := (h.analyzing fd hat).2
    rw [hfirst, List.length_cons] at hle
    dsimp only
    omega
  | exit => exact ⟨h.tracks, h.atHead, h.analyzing⟩

theorem Exact.drained (h : s.Exact rings box) (hwaiting : s.receiving = .waiting) :
    s.io.Drained := by
  by_contra hleft
  obtain ⟨ring, i, -, -, hmem⟩ := h.tracks.exists_unread hleft
  rw [h.waiting hwaiting] at hmem
  cases hmem

theorem Exact.step (h : s.Exact rings box) (hstep : Step rings s box c s' box')
    (hquiet : ∀ polls, c = .sendWait polls →
      s.receiving = .waiting ∧ ∀ ring ∈ rings, (polls ring).size ≤ 0) :
    s'.Exact rings box' := by
  refine ⟨h.toSound.step hstep, fun hw => ?_, fun fd hfd => ?_⟩
  · cases hstep with
    | sendWait polls _ hdrained htracks hlook =>
      have hzero := IoSocketxtreme.waitArrival_lookEnd s.io (hquiet polls rfl).2
      exact List.eq_nil_of_length_eq_zero (hlook ▸ hzero)
    | receiveWait polls _ receiving htracks hlook hnext =>
      cases hw
      rcases hnext with hnext | ⟨-, hnil⟩ | hnext
      · cases hnext
      · exact hnil
      · cases hnext
    | look fd receiving hhead hnext =>
      cases hw
      rcases hnext with hnext | ⟨hnext, -⟩ | ⟨-, hle⟩
      · cases hnext
      · cases hnext
      · have hcount := h.count fd (Or.inl hhead)
        exact List.eq_nil_of_length_eq_zero (by omega)
    | analyze => cases hw
    | exit => exact h.waiting hw
  · cases hstep with
    | sendWait polls _ hdrained htracks hlook =>
      have hwaiting := (hquiet polls rfl).1
      rcases hfd with hfd | hfd <;> cases hwaiting.symm.trans hfd
    | receiveWait polls _ receiving htracks hlook hnext =>
      dsimp only at hfd ⊢
      rcases hnext with rfl | ⟨rfl, -⟩ | rfl
      · rcases hfd with hfd | hfd <;> cases hfd
      · rcases hfd with hfd | hfd <;> cases hfd
      · rcases hfd with hfd | hfd
        · cases hfd
          rw [hlook, Nat.zero_add]
        · cases hfd
    | look fd' receiving hhead hnext =>
      dsimp only at hfd ⊢
      rcases hnext with rfl | ⟨rfl, -⟩ | ⟨rfl, -⟩
      · rcases hfd with hfd | hfd <;> cases hfd
      · rcases hfd with hfd | hfd
        · cases hfd
        · cases hfd
          exact h.count fd (Or.inl hhead)
      · rcases hfd with hfd | hfd <;> cases hfd
    | analyze fd' slot io _ hat hfirst htracks hsame =>
      rcases hfd with hfd | hfd
      · cases hfd
        have hcount := h.count fd' (Or.inr hat)
        rw [hfirst, List.length_cons] at hcount
        dsimp only
        omega
      · cases hfd
    | exit => exact h.count fd hfd

theorem Sound.call_loses (h : s.Sound rings box) (hcall : s.call flags rings c = some (log, s'))
    {polls : Int → RingPoll} (hwait : c = .sendWait polls ∨ c = .receiveWait polls)
    (hdrained : ¬ s.io.Drained) : accounts log box = none := by
  have hlost := h.tracks.waitArrival_loses hdrained polls
  rcases hwait with rfl | rfl
  · cases hcall
    exact hlost
  · dsimp only [UnderLoad.call] at hcall
    split at hcall
    · cases hcall
      exact hlost
    · cases hcall

theorem Sound.intact_iff (h : s.Sound rings box) (hnodup : rings.Nodup) (calls : List Call) :
    Intact flags rings calls s box ↔ WaitsDrained flags rings calls s := by
  induction calls generalizing s box with
  | nil => exact Iff.rfl
  | cons c calls ih =>
    unfold Intact WaitsDrained
    refine forall_congr' fun log => forall_congr' fun s' => imp_congr_right fun hcall => ?_
    constructor
    · rintro ⟨box', hlog, -, hrest⟩
      have hdrained : ∀ polls, c = .sendWait polls ∨ c = .receiveWait polls → s.io.Drained := by
        intro polls hwait
        by_contra hleft
        rw [h.call_loses hcall hwait hleft] at hlog
        cases hlog
      obtain ⟨box'', hlog', hstep⟩ := h.call hnodup hcall hdrained
      cases hlog.symm.trans hlog'
      exact ⟨hdrained, (ih (h.step hstep)).mp hrest⟩
    · rintro ⟨hdrained, hrest⟩
      obtain ⟨box', hlog, hstep⟩ := h.call hnodup hcall hdrained
      have hsound := h.step hstep
      exact ⟨box', hlog, hsound.tracks.index, (ih hsound).mpr hrest⟩

theorem Exact.waitsDrained (h : s.Exact rings box) (hnodup : rings.Nodup) {calls : List Call}
    (hquiet : Quiet flags rings calls s) : WaitsDrained flags rings calls s := by
  induction calls generalizing s box with
  | nil => trivial
  | cons c calls ih =>
    intro log s' hcall
    obtain ⟨hsend, hrest⟩ := hquiet log s' hcall
    have hdrained : ∀ polls, c = .sendWait polls ∨ c = .receiveWait polls → s.io.Drained := by
      rintro polls (rfl | rfl)
      · exact h.drained (hsend polls rfl).1
      · apply h.drained
        by_contra hwaiting
        dsimp only [UnderLoad.call] at hcall
        rw [if_neg hwaiting] at hcall
        cases hcall
    obtain ⟨box', -, hstep⟩ := h.call hnodup hcall hdrained
    exact ⟨hdrained, ih (h.step hstep hsend) hrest⟩

end UnderLoad

/-- `m_rings_comps_map` has every ring once. -/
structure Rings where
  fds : List Int
  nodup : fds.Nodup

/-- Over every interleaving of the calls of an under-load client: the completions are analyzed once
each, from a ring that is there and inside of its list, exactly if `waitArrival` is called only when
nothing is left to be analyzed. The loop that receives does so, and the one that sends if it finds
nothing and comes between two runs of the other. -/
theorem completions_intact_iff (flags : SxFlags) (rings : Rings) (fdNum : Nat) (calls : List Call) :
    (UnderLoad.Intact flags rings.fds calls (.new fdNum) [] ↔
      UnderLoad.WaitsDrained flags rings.fds calls (.new fdNum)) ∧
    (UnderLoad.Quiet flags rings.fds calls (.new fdNum) →
      UnderLoad.WaitsDrained flags rings.fds calls (.new fdNum)) :=
  ⟨(UnderLoad.Sound.new rings.fds fdNum).intact_iff rings.nodup calls,
    (UnderLoad.Exact.new rings.fds fdNum).waitsDrained rings.nodup⟩

section Example

def onePacket (_ : Int) : RingPoll := ⟨[⟨0x100000000, 0, 5, 1⟩], false⟩

def noPacket (_ : Int) : RingPoll := ⟨[], false⟩

def vmaFlags : SxFlags := ⟨0x100000000, 0x200000000⟩

/-- A burst of two packets: the answer that the first `waitArrival` finds is given back by the
second one before it is analyzed. -/
theorem burst_loses_completion :
    ¬ UnderLoad.Intact vmaFlags [7] [.sendWait onePacket, .sendWait noPacket] (.new 1) [] := by
  intro h
  obtain ⟨box, hbox, -, h⟩ := h _ _ rfl
  cases hbox
  obtain ⟨box, hbox, -⟩ := h _ _ rfl
  cases hbox

end Example

end Sockperf
