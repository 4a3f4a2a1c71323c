import Mathlib.Data.List.Nodup
import Mathlib.Logic.Function.Basic
import Sockperf.Connections
import Sockperf.Lib.KeyMap

/-!
# The feed file

`set_sockets_from_feedfile` opens a socket for a line of the file, joins the group of the line on a
socket that is open, or skips the line. It looks the address up among the sockets of every type, and
the type, family and port in a map of the sockets opened last. The lines are taken as they are after
`resolve_sockaddr`.
-/

namespace Sockperf

open KeyMap
set_option autoImplicit false

/-! ## Port descriptors -/

/-- `AF_UNIX`, `AF_INET`, `AF_INET6` -/
inductive AddressFamily where
  | unix
  | inet
  | inet6
  deriving DecidableEq, Repr

namespace AddressFamily

def number : AddressFamily → UInt32
  | unix => 1
  | inet => 2
  | inet6 => 10

end AddressFamily

namespace SockAddr

def family : SockAddr → AddressFamily
  | inet _ _ => .inet
  | inet6 _ _ _ _ => .inet6
  | unix _ => .unix

/-- `is_multicast_addr` -/
def isMulticast : SockAddr → Bool
  | inet ip _ => htonl ip &&& 0xf0000000 == 0xe0000000
  | inet6 ip _ _ _ => ip.extractLsb' 0 8 == 0xff
  | unix _ => false

end SockAddr

structure PortDescriptor where
  /-- `sock_type` is `SOCK_STREAM`, not `SOCK_DGRAM` -/
  isStream : Bool
  family : AddressFamily
  port : UInt16
  deriving DecidableEq, Repr

namespace PortDescriptor

/-- `std::hash<port_descriptor>` -/
def hash (key : PortDescriptor) : UInt32 :=
  (if key.isStream then 1 else 2) ^^^ key.port.toUInt32 ^^^ key.family.number

/-- `std::equal_to<port_descriptor>` -/
def equalTo (key1 key2 : PortDescriptor) : Bool :=
  key1.isStream == key2.isStream && key1.family == key2.family && key1.port == key2.port

def keys : Keys PortDescriptor := ⟨hash, equalTo⟩

theorem equalTo_iff (x y : PortDescriptor) : equalTo x y = true ↔ x = y := by
  cases x
  cases y
  simp [equalTo, and_assoc]

theorem keys_lawful : keys.Lawful where
  refl x := (equalTo_iff x x).mpr rfl
  symm {x y} h := (equalTo_iff y x).mpr ((equalTo_iff x y).mp h).symm
  trans {x y z} h h' := by
    obtain rfl := (equalTo_iff x y).mp h
    exact h'
  hash_eq {x y} h := congrArg hash ((equalTo_iff x y).mp h)

theorem find_put (m : List (PortDescriptor × Int)) (x y : PortDescriptor) (v : Int) :
    keys.find (keys.put m x v) y = if x = y then some v else keys.find m y := by
  rw [Keys.find_put keys_lawful]
  exact if_congr (equalTo_iff x y) rfl rfl

end PortDescriptor

/-! ## Reading the file -/

structure FeedTarget where
  isStream : Bool
  serverAddr : SockAddr
  deriving DecidableEq, Repr

def FeedTarget.portDescriptor (t : FeedTarget) : PortDescriptor :=
  ⟨t.isStream, t.serverAddr.family, htons t.serverAddr.getPortn⟩

structure FeedLine extends FeedTarget where
  /-- `mc_source_ip_addr.is_specified()` -/
  mcSource : Bool
  deriving DecidableEq, Repr

structure FeedParams where
  client : Bool
  lim : Limits

structure FeedOutside where
  /-- there is memory for `active_fd_list` -/
  list : Bool
  socketFd : Int
  prepared : Bool
  /-- the receive buffer -/
  buf : Option Int

inductive FeedError where
  | noMemory
  | socket
  | nullPointer
  deriving DecidableEq, Repr

inductive FeedOutcome where
  | skipped
  | joined (fd : Int)
  | created (fd : Int)
  deriving DecidableEq, Repr

structure FeedState where
  /-- `g_fds_array` -/
  table : Connections
  /-- `memberships_addr` of the records -/
  membershipsAddr : Int → List SockAddr
  fdSocketMap : List (PortDescriptor × Int)
  fdMin : Int
  fdMax : Int
  lastFd : Int
  fdNum : Nat

namespace FeedState
variable (p : FeedParams) (out : FeedOutside) (line : FeedLine) (s : FeedState)

def init (kernel : Int → Option Descriptor) : FeedState :=
  ⟨⟨fun _ => none, kernel⟩, fun _ => [], [], 0, 0, 0, 0⟩

/-- `fd_socket_map[port_desc]`, which is 0 where there is no entry. -/
def socketOf (d : PortDescriptor) : Int := (PortDescriptor.keys.find s.fdSocketMap d).getD 0

/-- Duplicates are accepted for a TCP client and with a multicast source. -/
def acceptsDuplicate : Bool :=
  p.client && line.isStream || line.serverAddr.isMulticast && line.mcSource

def isExist : Bool :=
  (List.range (s.fdMax - s.fdMin + 1).toNat).any fun k : Nat =>
    !acceptsDuplicate p line &&
      match s.table.fdsArray (s.fdMin + k) with
      | some data => data.serverAddr == line.serverAddr && s.socketOf line.portDescriptor != 0
      | none => false

def newRecord (buf : Int) : FdsRecord where
  serverAddr := line.serverAddr
  isMulticast := line.serverAddr.isMulticast
  isStream := line.isStream
  membershipsSize := 0
  nextFd := 0
  activeFdCount := 0
  activeFdList := some (List.replicate p.lim.maxFdsNum invalidSocket)
  recv := freshRecv buf p.lim.maxPayloadSize
  tlsHandle := none

def join (fd : Int) (data : FdsRecord) : FeedState :=
  { s with
    table := s.table.setRecord fd (some { data with membershipsSize := data.membershipsSize + 1 })
    membershipsAddr := Function.update s.membershipsAddr fd
      (s.membershipsAddr fd ++ [line.serverAddr]) }

/-- `s_fd_min`, `s_fd_max` and the `next_fd` of the socket before. -/
def link (fd : Int) : Except FeedError FeedState :=
  if s.fdNum = 0 then .ok { s with fdNum := 1, fdMin := fd, fdMax := fd }
  else
    match s.table.fdsArray s.lastFd with
    | none => .error .nullPointer
    | some last => .ok { s with
        fdNum := s.fdNum + 1
        table := s.table.setRecord s.lastFd (some { last with nextFd := fd })
        fdMin := min s.fdMin fd
        fdMax := max s.fdMax fd }

def create (fd buf : Int) : FeedState :=
  { s with
    table := (s.table.setRecord fd (some (newRecord p line buf))).setKernel fd (some .other)
    membershipsAddr := Function.update s.membershipsAddr fd []
    fdSocketMap := PortDescriptor.keys.put s.fdSocketMap line.portDescriptor fd
    lastFd := fd }

/-- The body of the loop of `set_sockets_from_feedfile`. -/
def feedLine : Except FeedError (FeedOutcome × FeedState) :=
  if s.isExist p line then .ok (.skipped, s)
  else if out.list = false then .error .noMemory
  else
    let known := s.socketOf line.portDescriptor
    if known ≠ 0 ∧ line.serverAddr.isMulticast = true then
      match s.table.fdsArray known with
      | none => .error .nullPointer
      | some data =>
        if p.lim.maxFdsNum ≤ known ∨ out.prepared = false then .error .socket
        else if out.buf = none then .error .noMemory
        else .ok (.joined known, s.join line known data)
    else if out.socketFd < 0 ∨ p.lim.maxFdsNum ≤ out.socketFd ∨ out.prepared = false then
      .error .socket
    else
      match out.buf with
      | none => .error .noMemory
      | some buf =>
        match s.link out.socketFd with
        | .error e => .error e
        | .ok s => .ok (.created out.socketFd, s.create p line out.socketFd buf)

end FeedState

/-- The loop of `set_sockets_from_feedfile`, with what becomes of every line. -/
def feedLines (p : FeedParams) : List (FeedLine × FeedOutside) → FeedState →
    Except FeedError (List (FeedTarget × FeedOutcome) × FeedState)
  | [], s => .ok ([], s)
  | (line, out) :: lines, s =>
    match s.feedLine p out line with
    | .error e => .error e
    | .ok (o, s) =>
      match feedLines p lines s with
      | .error e => .error e
      | .ok (rs, s) => .ok ((line.toFeedTarget, o) :: rs, s)

structure FeedOutside.Succeeds (p : FeedParams) (out : FeedOutside) (t : Connections) : Prop where
  list : out.list = true
  prepared : out.prepared = true
  buf : out.buf.isSome = true
  descriptor : 0 ≤ out.socketFd ∧ out.socketFd < p.lim.maxFdsNum
  fresh : t.kernel out.socketFd = none

def Succeeding (p : FeedParams) : List (FeedLine × FeedOutside) → FeedState → Prop
  | [], _ => True
  | (line, out) :: lines, s =>
    out.Succeeds p s.table ∧ ∀ o s', s.feedLine p out line = .ok (o, s') → Succeeding p lines s'

/-! ## Which lines are skipped -/

/-- A line of this type, family and port was read. -/
def Seen (pre : List FeedTarget) (d : PortDescriptor) : Prop := ∃ t ∈ pre, t.portDescriptor = d

/-- A line with this address was read; if it is a multicast address, before any other line of the
type, family and port of that line. -/
def Opened (pre : List FeedTarget) (a : SockAddr) : Prop :=
  ∃ before t after, pre = before ++ t :: after ∧ t.serverAddr = a ∧
    (a.isMulticast = true → ¬ Seen before t.portDescriptor)

/-- The rule of the code. -/
def HasSocket (pre : List FeedTarget) (t : FeedTarget) : Prop :=
  Seen pre t.portDescriptor ∧ Opened pre t.serverAddr

/-- The line is a repetition, for the code, after the lines `pre`. -/
def Skips (p : FeedParams) (pre : List FeedTarget) (line : FeedLine) : Prop :=
  FeedState.acceptsDuplicate p line = false ∧ HasSocket pre line.toFeedTarget

/-- A group of the type, family and port of a line before. -/
def FeedTarget.Shares (pre : List FeedTarget) (t : FeedTarget) : Prop :=
  t.serverAddr.isMulticast = true ∧ Seen pre t.portDescriptor

theorem split_append_singleton {α : Type} {xs before after : List α} {x y : α}
    (h : xs ++ [x] = before ++ y :: after) :
    before = xs ∧ y = x ∨ ∃ rest, after = rest ++ [x] ∧ xs = before ++ y :: rest := by
  rcases List.eq_nil_or_concat after with rfl | ⟨rest, z, rfl⟩
  · obtain ⟨hxs, hx⟩ := List.append_inj' h rfl
    exact Or.inl ⟨hxs.symm, (List.singleton_inj.mp hx).symm⟩
  · have h' : xs ++ [x] = (before ++ y :: rest) ++ [z] := by simpa using h
    obtain ⟨hxs, hx⟩ := List.append_inj' h' rfl
    obtain rfl := List.singleton_inj.mp hx
    exact Or.inr ⟨rest, by simp, hxs⟩

theorem seen_append (pre : List FeedTarget) (t : FeedTarget) (d : PortDescriptor) :
    Seen (pre ++ [t]) d ↔ Seen pre d ∨ t.portDescriptor = d := by
  simp [Seen, or_and_right, exists_or]

theorem opened_append (pre : List FeedTarget) (t : FeedTarget) (a : SockAddr) :
    Opened (pre ++ [t]) a ↔ Opened pre a ∨
      t.serverAddr = a ∧ (a.isMulticast = true → ¬ Seen pre t.portDescriptor) := by
  constructor
  · rintro ⟨before, u, after, hsplit, haddr, hfirst⟩
    rcases split_append_singleton hsplit with ⟨rfl, rfl⟩ | ⟨rest, -, rfl⟩
    · exact Or.inr ⟨haddr, hfirst⟩
    · exact Or.inl ⟨before, u, rest, rfl, haddr, hfirst⟩
  · rintro (⟨before, u, after, rfl, haddr, hfirst⟩ | ⟨haddr, hfirst⟩)
    · exact ⟨before, u, after ++ [t], by simp, haddr, hfirst⟩
    · exact ⟨pre, t, [], rfl, haddr, hfirst⟩

namespace Connections
variable {t : Connections} {fd : Int} {data data' : FdsRecord}

def targets (t : Connections) (fd : Int) : Option FeedTarget :=
  (t.fdsArray fd).map fun data => ⟨data.isStream, data.serverAddr⟩

theorem targets_of_record (h : t.fdsArray fd = some data) :
    t.targets fd = some ⟨data.isStream, data.serverAddr⟩ := by
  rw [targets, h, Option.map_some]

theorem targets_eq_some {u : FeedTarget} (h : t.targets fd = some u) :
    ∃ data, t.fdsArray fd = some data ∧ data.isStream = u.isStream ∧
      data.serverAddr = u.serverAddr := by
  obtain ⟨data, hdata, rfl⟩ := Option.map_eq_some_iff.mp h
  exact ⟨data, hdata, rfl, rfl⟩

variable (t fd data) in
theorem targets_setRecord : (t.setRecord fd (some data)).targets =
    Function.update t.targets fd (some ⟨data.isStream, data.serverAddr⟩) := by
  funext x
  simp only [targets, setRecord, Function.update_apply]
  split <;> rfl

theorem targets_rewrite (hdata : t.fdsArray fd = some data)
    (hstream : data'.isStream = data.isStream) (haddr : data'.serverAddr = data.serverAddr) :
    (t.setRecord fd (some data')).targets = t.targets := by
  rw [targets_setRecord, hstream, haddr]
  apply Function.update_eq_self_iff.mpr
  rw [targets_of_record hdata]

end Connections

namespace FeedState
variable {p : FeedParams} {out : FeedOutside} {line : FeedLine} {s : FeedState}

variable (line) in
theorem targets_join {fd : Int} {data : FdsRecord} (hdata : s.table.fdsArray fd = some data) :
    (s.join line fd data).table.targets = s.table.targets :=
  Connections.targets_rewrite hdata rfl rfl

theorem targets_create (fd buf : Int) : (s.create p line fd buf).table.targets =
    Function.update s.table.targets fd (some line.toFeedTarget) :=
  Connections.targets_setRecord s.table fd (newRecord p line buf)

/-- What holds of the sockets and the map after the lines `pre`. -/
structure Reads (p : FeedParams) (pre : List FeedTarget) (s : FeedState) : Prop where
  zero : s.table.kernel 0 ≠ none
  inRange : ∀ fd t, s.table.targets fd = some t → s.fdMin ≤ fd ∧ fd ≤ s.fdMax
  open' : ∀ fd t, s.table.targets fd = some t →
    0 < fd ∧ fd < p.lim.maxFdsNum ∧ s.table.kernel fd = some .other
  first : s.fdNum = 0 → ∀ fd, s.table.targets fd = none
  last : s.fdNum ≠ 0 → s.table.targets s.lastFd ≠ none
  known : ∀ d fd, PortDescriptor.keys.find s.fdSocketMap d = some fd →
    ∃ t, s.table.targets fd = some t ∧ t.portDescriptor = d
  seen : ∀ d, PortDescriptor.keys.find s.fdSocketMap d ≠ none ↔ Seen pre d
  opened : ∀ a, (∃ fd t, s.table.targets fd = some t ∧ t.serverAddr = a) ↔ Opened pre a

namespace Reads
variable {pre : List FeedTarget}

theorem init (kernel : Int → Option Descriptor) (h0 : kernel 0 ≠ none) :
    (FeedState.init kernel).Reads p [] where
  zero := h0
  inRange := nofun
  open' := nofun
  first _ _ := rfl
  last h := absurd rfl h
  known := nofun
  seen d := ⟨fun h => absurd rfl h, nofun⟩
  opened a := by
    constructor
    · rintro ⟨fd, t, h, -⟩
      cases h
    · rintro ⟨before, t, after, hsplit, -⟩
      cases before <;> cases hsplit

theorem socketOf_ne (h : s.Reads p pre) (d : PortDescriptor) : s.socketOf d ≠ 0 ↔ Seen pre d := by
  rw [← h.seen d]
  unfold socketOf
  cases hfind : PortDescriptor.keys.find s.fdSocketMap d with
  | none => simp
  | some fd =>
    obtain ⟨t, ht, -⟩ := h.known d fd hfind
    have hpos := (h.open' fd t ht).1
    simp only [Option.getD_some, ne_eq, reduceCtorEq, not_false_eq_true, iff_true]
    omega

variable (line) in
theorem isExist_iff (h : s.Reads p pre) : s.isExist p line = true ↔ Skips p pre line := by
  rw [Skips, HasSocket, ← h.socketOf_ne, ← h.opened]
  simp only [isExist, List.any_eq_true, List.mem_range, Bool.and_eq_true, Bool.not_eq_true']
  constructor
  · rintro ⟨k, -, hplain, hk⟩
    cases hdata : s.table.fdsArray (s.fdMin + k) with
    | none => simp [hdata] at hk
    | some data =>
      simp only [hdata, Bool.and_eq_true, beq_iff_eq, bne_iff_ne] at hk
      refine ⟨hplain, hk.2, s.fdMin + k, ⟨data.isStream, data.serverAddr⟩, ?_, hk.1⟩
      exact Connections.targets_of_record hdata
  · rintro ⟨hplain, hknown, fd, t, ht, haddr⟩
    obtain ⟨hmin, hmax⟩ := h.inRange fd t ht
    obtain ⟨data, hdata, -, haddr'⟩ := Connections.targets_eq_some ht
    refine ⟨(fd - s.fdMin).toNat, by omega, hplain, ?_⟩
    have hfd : s.fdMin + ((fd - s.fdMin).toNat : Int) = fd := by omega
    rw [hfd, hdata]
    simp only [Bool.and_eq_true, beq_iff_eq, bne_iff_ne]
    exact ⟨haddr'.trans haddr, hknown⟩

theorem skip (h : s.Reads p pre) {t : FeedTarget} (hseen : Seen pre t.portDescriptor)
    (hopened : Opened pre t.serverAddr) : s.Reads p (pre ++ [t]) where
  zero := h.zero
  inRange := h.inRange
  open' := h.open'
  first := h.first
  last := h.last
  known := h.known
  seen d := by
    rw [seen_append, h.seen]
    exact ⟨Or.inl, fun hor => hor.elim id fun hd => hd ▸ hseen⟩
  opened a := by
    rw [opened_append, h.opened]
    exact ⟨Or.inl, fun hor => hor.elim id fun hd => hd.1 ▸ hopened⟩

theorem join (h : s.Reads p pre) {fd : Int} {data : FdsRecord}
    (hdata : s.table.fdsArray fd = some data) (hseen : Seen pre line.portDescriptor)
    (hmulti : line.serverAddr.isMulticast = true) :
    (s.join line fd data).Reads p (pre ++ [line.toFeedTarget]) := by
  have htargets := targets_join line hdata
  refine ⟨h.zero, ?_, ?_, ?_, ?_, ?_, fun d => ?_, fun a => ?_⟩
  · rw [htargets]
    exact h.inRange
  · rw [htargets]
    exact h.open'
  · rw [htargets]
    exact h.first
  · rw [htargets]
    exact h.last
  · rw [htargets]
    exact h.known
  · rw [seen_append]
    refine (h.seen d).trans ⟨Or.inl, fun hor => ?_⟩
    exact hor.elim id fun hd => hd ▸ hseen
  · rw [htargets, opened_append, h.opened]
    refine ⟨Or.inl, fun hor => hor.elim id fun hnew => ?_⟩
    exact absurd hseen (hnew.2 (hnew.1 ▸ hmulti))

end Reads

structure Linked (s s' : FeedState) (fd : Int) : Prop where
  targets : s'.table.targets = s.table.targets
  sizes : ∀ x, (s'.table.fdsArray x).map (·.membershipsSize) =
    (s.table.fdsArray x).map (·.membershipsSize)
  kernel : s'.table.kernel = s.table.kernel
  membershipsAddr : s'.membershipsAddr = s.membershipsAddr
  fdSocketMap : s'.fdSocketMap = s.fdSocketMap
  fdNum : s'.fdNum ≠ 0
  new : s'.fdMin ≤ fd ∧ fd ≤ s'.fdMax
  inRange : ∀ x t, s.table.targets x = some t → s'.fdMin ≤ x ∧ x ≤ s'.fdMax

theorem Reads.link {pre : List FeedTarget} (h : s.Reads p pre) (fd : Int) :
    ∃ s', s.link fd = .ok s' ∧ Linked s s' fd := by
  by_cases hnum : s.fdNum = 0
  · refine ⟨_, if_pos hnum, ⟨rfl, fun _ => rfl, rfl, rfl, rfl, one_ne_zero,
      ⟨le_refl fd, le_refl fd⟩, ?_⟩⟩
    intro x t hx
    rw [h.first hnum x] at hx
    cases hx
  · cases hlast : s.table.fdsArray s.lastFd with
    | none =>
      refine absurd ?_ (h.last hnum)
      rw [Connections.targets, hlast, Option.map_none]
    | some last =>
      refine ⟨_, by rw [FeedState.link, if_neg hnum, hlast], ?_⟩
      refine ⟨Connections.targets_rewrite hlast rfl rfl, fun x => ?_, rfl, rfl, rfl,
        Nat.succ_ne_zero _, ⟨min_le_right s.fdMin fd, le_max_right s.fdMax fd⟩, fun x t hx => ?_⟩
      · change (Function.update s.table.fdsArray s.lastFd _ x).map _ = _
        rcases eq_or_ne x s.lastFd with rfl | hne
        · rw [Function.update_self, hlast]
          rfl
        · rw [Function.update_of_ne hne]
      · obtain ⟨hmin, hmax⟩ := h.inRange x t hx
        exact ⟨(min_le_left s.fdMin fd).trans hmin, hmax.trans (le_max_left s.fdMax fd)⟩

variable {s' : FeedState} {pre : List FeedTarget} {fd : Int}

theorem Reads.fresh (h : s.Reads p pre) (hfresh : s.table.kernel fd = none) :
    s.table.targets fd = none := by
  cases hfd : s.table.targets fd with
  | none => rfl
  | some t =>
    rw [(h.open' fd t hfd).2.2] at hfresh
    cases hfresh

structure Created (s s' : FeedState) (line : FeedLine) (fd : Int) : Prop where
  targets : s'.table.targets = Function.update s.table.targets fd (some line.toFeedTarget)
  kernel : s'.table.kernel = Function.update s.table.kernel fd (some .other)
  find : ∀ d, PortDescriptor.keys.find s'.fdSocketMap d =
    if line.portDescriptor = d then some fd else PortDescriptor.keys.find s.fdSocketMap d

variable (p line) in
theorem Linked.created (h : Linked s s' fd) (buf : Int) :
    Created s (s'.create p line fd buf) line fd where
  targets := by rw [targets_create, h.targets]
  kernel := by
    rw [← h.kernel]
    rfl
  find d := by
    rw [← h.fdSocketMap]
    exact PortDescriptor.find_put _ _ _ _

section Created
variable (hc : Created s s' line fd)
include hc

theorem Created.targets_self : s'.table.targets fd = some line.toFeedTarget := by
  rw [hc.targets, Function.update_self]

theorem Created.targets_eq_some {x : Int} {t : FeedTarget} (hx : s'.table.targets x = some t) :
    x = fd ∧ t = line.toFeedTarget ∨ x ≠ fd ∧ s.table.targets x = some t := by
  rcases eq_or_ne x fd with rfl | hne
  · cases hc.targets_self.symm.trans hx
    exact Or.inl ⟨rfl, rfl⟩
  · rw [hc.targets, Function.update_of_ne hne] at hx
    exact Or.inr ⟨hne, hx⟩

variable (hnone : s.table.targets fd = none)
include hnone

theorem Created.targets_old {x : Int} {t : FeedTarget} (hx : s.table.targets x = some t) :
    s'.table.targets x = some t := by
  have hne : x ≠ fd := by
    rintro rfl
    cases hnone.symm.trans hx
  rw [hc.targets, Function.update_of_ne hne]
  exact hx

theorem Created.known (h : s.Reads p pre) {d : PortDescriptor} {x : Int}
    (hx : PortDescriptor.keys.find s'.fdSocketMap d = some x) :
    ∃ t, s'.table.targets x = some t ∧ t.portDescriptor = d := by
  rw [hc.find] at hx
  by_cases hd : line.portDescriptor = d
  · rw [if_pos hd] at hx
    cases hx
    exact ⟨line.toFeedTarget, hc.targets_self, hd⟩
  · rw [if_neg hd] at hx
    obtain ⟨t, ht, htd⟩ := h.known d x hx
    exact ⟨t, hc.targets_old hnone ht, htd⟩

theorem Created.opened (a : SockAddr) :
    (∃ x t, s'.table.targets x = some t ∧ t.serverAddr = a) ↔
      (∃ x t, s.table.targets x = some t ∧ t.serverAddr = a) ∨ line.serverAddr = a := by
  constructor
  · rintro ⟨x, t, hx, haddr⟩
    rcases hc.targets_eq_some hx with ⟨rfl, rfl⟩ | ⟨-, hx⟩
    · exact Or.inr haddr
    · exact Or.inl ⟨x, t, hx, haddr⟩
  · rintro (⟨x, t, hx, haddr⟩ | haddr)
    · exact ⟨x, t, hc.targets_old hnone hx, haddr⟩
    · exact ⟨fd, line.toFeedTarget, hc.targets_self, haddr⟩

end Created

theorem Reads.create (h : s.Reads p pre) (hl : Linked s s' fd) (buf : Int)
    (hfresh : s.table.kernel fd = none) (hfd : 0 ≤ fd ∧ fd < p.lim.maxFdsNum)
    (hnew : line.serverAddr.isMulticast = true → ¬ Seen pre line.portDescriptor) :
    (s'.create p line fd buf).Reads p (pre ++ [line.toFeedTarget]) := by
  have hc := hl.created p line buf
  have hnone := h.fresh hfresh
  have hzero : fd ≠ 0 := by
    rintro rfl
    exact h.zero hfresh
  refine ⟨?_, fun x t hx => ?_, fun x t hx => ?_, fun hnum => absurd hnum hl.fdNum, fun _ => ?_,
    fun d x hx => hc.known hnone h hx, fun d => ?_, fun a => ?_⟩
  · rw [hc.kernel, Function.update_of_ne hzero.symm]
    exact h.zero
  · rcases hc.targets_eq_some hx with ⟨rfl, -⟩ | ⟨-, hx⟩
    · exact hl.new
    · exact hl.inRange x t hx
  · rw [hc.kernel]
    rcases hc.targets_eq_some hx with ⟨rfl, -⟩ | ⟨hne, hx⟩
    · rw [Function.update_self]
      exact ⟨by omega, hfd.2, rfl⟩
    · rw [Function.update_of_ne hne]
      exact h.open' x t hx
  · intro hlast
    cases hc.targets_self.symm.trans hlast
  · rw [hc.find, seen_append, ← h.seen]
    by_cases hd : line.portDescriptor = d
    · rw [if_pos hd]
      exact ⟨fun _ => Or.inr hd, fun _ => Option.some_ne_none fd⟩
    · rw [if_neg hd]
      exact ⟨Or.inl, fun hor => hor.resolve_right hd⟩
  · rw [hc.opened hnone, opened_append, ← h.opened]
    constructor
    · rintro (hold | haddr)
      · exact Or.inl hold
      · exact Or.inr ⟨haddr, fun hmulti => hnew (haddr ▸ hmulti)⟩
    · rintro (hold | ⟨haddr, -⟩)
      · exact Or.inl hold
      · exact Or.inr haddr

inductive LineOutcome (p : FeedParams) (pre : List FeedTarget) (line : FeedLine)
    (out : FeedOutside) (s : FeedState) : FeedOutcome → FeedState → Prop
  | skipped (skips : Skips p pre line) : LineOutcome p pre line out s .skipped s
  | joined (fd : Int) (data : FdsRecord) (record : s.table.fdsArray fd = some data)
      (list : out.list = true)
      (known : PortDescriptor.keys.find s.fdSocketMap line.portDescriptor = some fd)
      (same : ∃ t, s.table.targets fd = some t ∧ t.portDescriptor = line.portDescriptor)
      (joins : ¬ Skips p pre line ∧ line.Shares pre) :
      LineOutcome p pre line out s (.joined fd) (s.join line fd data)
  | created (buf : Int) (s' : FeedState) (linked : Linked s s' out.socketFd)
      (free : s.table.targets out.socketFd = none)
      (opens : ¬ Skips p pre line ∧ ¬ line.Shares pre) :
      LineOutcome p pre line out s (.created out.socketFd) (s'.create p line out.socketFd buf)

variable (line) in
/-- A line that is read does what the file says; no line fails when the calls succeed. -/
theorem Reads.feedLine (h : s.Reads p pre)
    (hfresh : 0 ≤ out.socketFd → s.table.kernel out.socketFd = none) :
    match s.feedLine p out line with
    | .ok (o, s') =>
      LineOutcome p pre line out s o s' ∧ s'.Reads p (pre ++ [line.toFeedTarget])
    | .error _ => ¬ out.Succeeds p s.table := by
  have hexist := h.isExist_iff line
  have hknown := h.socketOf_ne line.portDescriptor
  unfold FeedState.feedLine
  by_cases hskip : s.isExist p line = true
  · have hskips := hexist.mp hskip
    rw [if_pos hskip]
    exact ⟨.skipped hskips, h.skip hskips.2.1 hskips.2.2⟩
  have hnew : ¬ Skips p pre line := fun hskips => hskip (hexist.mpr hskips)
  rw [if_neg hskip]
  by_cases hlist : out.list = false
  · rw [if_pos hlist]
    intro hout
    cases hlist.symm.trans hout.list
  rw [if_neg hlist]
  dsimp only
  by_cases hjoin : s.socketOf line.portDescriptor ≠ 0 ∧ line.serverAddr.isMulticast = true
  · have hseen := hknown.mp hjoin.1
    rw [if_pos hjoin]
    cases hfind : PortDescriptor.keys.find s.fdSocketMap line.portDescriptor with
    | none => exact absurd hfind ((h.seen _).mpr hseen)
    | some fd =>
      have hfd : s.socketOf line.portDescriptor = fd := by rw [socketOf, hfind, Option.getD_some]
      obtain ⟨t, ht, htd⟩ := h.known _ _ hfind
      obtain ⟨data, hdata, -⟩ := Connections.targets_eq_some ht
      have hmax := (h.open' fd t ht).2.1
      simp only [hfd, hdata]
      by_cases hprepared : p.lim.maxFdsNum ≤ fd ∨ out.prepared = false
      · rw [if_pos hprepared]
        intro hout
        have := hout.prepared
        simp only [this, Bool.true_eq_false, or_false] at hprepared
        omega
      rw [if_neg hprepared]
      by_cases hbuf : out.buf = none
      · rw [if_pos hbuf]
        intro hout
        have := hout.buf
        simp [hbuf] at this
      rw [if_neg hbuf]
      refine ⟨.joined fd data hdata (Bool.eq_true_of_not_eq_false hlist) hfind ⟨t, ht, htd⟩
        ⟨hnew, hjoin.2, hseen⟩, ?_⟩
      exact h.join hdata hseen hjoin.2
  · have hshares : ¬ line.Shares pre := fun hs => hjoin ⟨hknown.mpr hs.2, hs.1⟩
    rw [if_neg hjoin]
    by_cases hsocket : out.socketFd < 0 ∨ p.lim.maxFdsNum ≤ out.socketFd ∨ out.prepared = false
    · rw [if_pos hsocket]
      intro hout
      have hprepared := hout.prepared
      have hdescriptor := hout.descriptor
      simp only [hprepared, Bool.true_eq_false, or_false] at hsocket
      omega
    rw [if_neg hsocket]
    have hfree := hfresh (by omega)
    cases hbuf : out.buf with
    | none =>
      intro hout
      have := hout.buf
      simp [hbuf] at this
    | some buf =>
      obtain ⟨s', hlink, hlinked⟩ := h.link out.socketFd
      simp only [hlink]
      refine ⟨.created buf s' hlinked (h.fresh hfree) ⟨hnew, hshares⟩, ?_⟩
      exact h.create hlinked buf hfree (by omega) fun hmulti hseen => hshares ⟨hmulti, hseen⟩

variable (line) in
theorem Reads.feedLine_of_succeeds (h : s.Reads p pre) (hout : out.Succeeds p s.table) :
    ∃ o s', s.feedLine p out line = .ok (o, s') ∧ LineOutcome p pre line out s o s' ∧
      s'.Reads p (pre ++ [line.toFeedTarget]) := by
  have hread := h.feedLine line fun _ => hout.fresh
  split at hread
  · next o s' hline => exact ⟨o, s', hline, hread⟩
  · exact absurd hout hread

theorem LineOutcome.keeps {o : FeedOutcome} (h : LineOutcome p pre line out s o s') {fd : Int}
    {t : FeedTarget} (ht : s.table.targets fd = some t) :
    s'.table.targets fd = some t ∧ s.membershipsAddr fd ⊆ s'.membershipsAddr fd := by
  cases h with
  | skipped => exact ⟨ht, fun _ => id⟩
  | joined fd' data hdata _ _ _ _ =>
    refine ⟨?_, fun a ha => ?_⟩
    · rw [targets_join _ hdata]
      exact ht
    · change a ∈ Function.update s.membershipsAddr fd' _ fd
      rcases eq_or_ne fd fd' with rfl | hne
      · rw [Function.update_self]
        exact List.mem_append_left _ ha
      · rw [Function.update_of_ne hne]
        exact ha
  | created buf s₁ hlinked hfree _ =>
    have hne : fd ≠ out.socketFd := by
      rintro rfl
      cases hfree.symm.trans ht
    refine ⟨?_, fun a ha => ?_⟩
    · rw [targets_create, Function.update_of_ne hne, hlinked.targets]
      exact ht
    · change a ∈ Function.update s₁.membershipsAddr out.socketFd _ fd
      rw [Function.update_of_ne hne, hlinked.membershipsAddr]
      exact ha

end FeedState

/-! ## The whole file -/

def FeedOutcome.own : FeedOutcome → Option Int
  | created fd => some fd
  | _ => none

/-- The lines that are not skipped have a socket of their own, or a membership on the socket of
the same type, family and port. -/
structure Served (rs : List (FeedTarget × FeedOutcome)) (s : FeedState) : Prop where
  created : ∀ t fd, (t, .created fd) ∈ rs → s.table.targets fd = some t
  own : (rs.filterMap fun r => r.2.own).Nodup
  joined : ∀ t fd, (t, .joined fd) ∈ rs → t.serverAddr ∈ s.membershipsAddr fd ∧
    ∃ u, s.table.targets fd = some u ∧ u.portDescriptor = t.portDescriptor

def SkippedBy (rule : List FeedTarget → FeedTarget → Prop)
    (rs : List (FeedTarget × FeedOutcome)) : Prop :=
  ∀ before t o after, rs = before ++ (t, o) :: after →
    (o = .skipped ↔ rule (before.map Prod.fst) t)

theorem SkippedBy.append {rule : List FeedTarget → FeedTarget → Prop}
    {rs : List (FeedTarget × FeedOutcome)} (h : SkippedBy rule rs) {t : FeedTarget}
    {o : FeedOutcome} (ho : o = .skipped ↔ rule (rs.map Prod.fst) t) :
    SkippedBy rule (rs ++ [(t, o)]) := by
  intro before u o' after hsplit
  rcases split_append_singleton hsplit with ⟨rfl, heq⟩ | ⟨rest, -, hrs⟩
  · cases heq
    exact ho
  · exact h before u o' rest hrs

section Run
variable {p : FeedParams} {line : FeedLine} {out : FeedOutside} {s s' : FeedState}
  {o : FeedOutcome} {rs : List (FeedTarget × FeedOutcome)}

theorem FeedState.LineOutcome.skipped_iff {pre : List FeedTarget}
    (h : LineOutcome p pre line out s o s') : o = .skipped ↔ Skips p pre line := by
  cases h with
  | skipped hskips => exact ⟨fun _ => hskips, fun _ => rfl⟩
  | joined _ _ _ _ _ _ hjoins => exact ⟨nofun, fun hskips => absurd hskips hjoins.1⟩
  | created _ _ _ _ hopens => exact ⟨nofun, fun hskips => absurd hskips hopens.1⟩

theorem Served.not_own (h : Served rs s) {fd : Int} (hfree : s.table.targets fd = none) :
    fd ∉ rs.filterMap fun r => r.2.own := by
  intro hx
  obtain ⟨⟨t, o⟩, hmem, hown⟩ := List.mem_filterMap.mp hx
  cases o with
  | created fd' =>
    obtain rfl : fd' = fd := Option.some.inj hown
    cases hfree.symm.trans (h.created t fd' hmem)
  | skipped => cases hown
  | joined fd' => cases hown

theorem Served.append_line {pre : List FeedTarget} (h : Served rs s)
    (hline : FeedState.LineOutcome p pre line out s o s') :
    Served (rs ++ [(line.toFeedTarget, o)]) s' := by
  have hcreated : ∀ t fd, (t, .created fd) ∈ rs → s'.table.targets fd = some t :=
    fun t fd ht => (hline.keeps (h.created t fd ht)).1
  have hjoined : ∀ t fd, (t, .joined fd) ∈ rs → t.serverAddr ∈ s'.membershipsAddr fd ∧
      ∃ u, s'.table.targets fd = some u ∧ u.portDescriptor = t.portDescriptor := by
    intro t fd ht
    obtain ⟨hmem, u, hu, hsame⟩ := h.joined t fd ht
    obtain ⟨hu', hsub⟩ := hline.keeps hu
    exact ⟨hsub hmem, u, hu', hsame⟩
  refine ⟨fun t fd ht => ?_, ?_, fun t fd ht => ?_⟩
  · rcases List.mem_append.mp ht with hold | hnew
    · exact hcreated t fd hold
    · cases hline with
      | skipped => simp at hnew
      | joined => simp at hnew
      | created buf s₁ hlinked _ _ =>
        obtain ⟨rfl, hfd⟩ := Prod.mk.inj (List.mem_singleton.mp hnew)
        obtain rfl := FeedOutcome.created.inj hfd
        rw [FeedState.targets_create, Function.update_self]
  · rw [List.filterMap_append]
    cases hline with
    | skipped => simpa [FeedOutcome.own] using h.own
    | joined => simpa [FeedOutcome.own] using h.own
    | created buf s₁ _ hfree _ =>
      refine h.own.append (List.nodup_singleton out.socketFd) ?_
      intro x hx hfd
      obtain rfl : x = out.socketFd := List.mem_singleton.mp hfd
      exact h.not_own hfree hx
  · rcases List.mem_append.mp ht with hold | hnew
    · exact hjoined t fd hold
    · cases hline with
      | skipped => simp at hnew
      | created => simp at hnew
      | joined fd' data hdata _ _ hsame _ =>
        obtain ⟨rfl, hfd⟩ := Prod.mk.inj (List.mem_singleton.mp hnew)
        obtain rfl := FeedOutcome.joined.inj hfd
        constructor
        · change line.serverAddr ∈ Function.update s.membershipsAddr fd _ fd
          rw [Function.update_self]
          exact List.mem_append_right _ (List.mem_singleton_self line.serverAddr)
        · rw [FeedState.targets_join _ hdata]
          exact hsame

variable (rs) in
theorem feedLines_append {lines : List (FeedLine × FeedOutside)}
    (hplain : ∀ e ∈ lines, FeedState.acceptsDuplicate p e.1 = false)
    (hsucc : Succeeding p lines s) (h : s.Reads p (rs.map Prod.fst)) (hserved : Served rs s)
    (hrule : SkippedBy HasSocket rs) :
    ∃ rs' s', feedLines p lines s = .ok (rs', s') ∧
      rs'.map Prod.fst = lines.map (fun e => e.1.toFeedTarget) ∧
      Served (rs ++ rs') s' ∧ SkippedBy HasSocket (rs ++ rs') := by
  induction lines generalizing rs s with
  | nil => exact ⟨[], s, rfl, rfl, by rwa [List.append_nil], by rwa [List.append_nil]⟩
  | cons e lines ih =>
    obtain ⟨line, out⟩ := e
    obtain ⟨hout, hrest⟩ := hsucc
    have hskips : ∀ pre, Skips p pre line ↔ HasSocket pre line.toFeedTarget :=
      fun _ => and_iff_right (hplain _ List.mem_cons_self)
    obtain ⟨o, s₁, hfeed, hline, hreads⟩ := h.feedLine_of_succeeds line hout
    have hmap : (rs ++ [(line.toFeedTarget, o)]).map Prod.fst =
        rs.map Prod.fst ++ [line.toFeedTarget] := List.map_append
    rw [← hmap] at hreads
    obtain ⟨rs', s', hlines, hfst, hserved', hrule'⟩ :=
      ih _ (fun e he => hplain e (List.mem_cons_of_mem _ he)) (hrest o s₁ hfeed) hreads
        (hserved.append_line hline) (hrule.append (hline.skipped_iff.trans (hskips _)))
    refine ⟨(line.toFeedTarget, o) :: rs', s', ?_, ?_, ?_, ?_⟩
    · simp only [feedLines, hfeed, hlines]
    · rw [List.map_cons, List.map_cons, hfst]
    · rwa [List.append_assoc] at hserved'
    · rwa [List.append_assoc] at hrule'

end Run

/-- The files for which the rule of the code is the one that is meant: a line that is read again is
not one that was joined only, and no line is read for the first time whose address was opened with
the other type if its type, family and port were read before. -/
structure Clear (ts : List FeedTarget) : Prop where
  rejoined : ∀ before t after, ts = before ++ t :: after → t ∈ before → Opened before t.serverAddr
  clash : ∀ before t after, ts = before ++ t :: after → t ∉ before →
    Seen before t.portDescriptor → ¬ Opened before t.serverAddr

theorem skippedBy_mem_iff {rs : List (FeedTarget × FeedOutcome)} (h : SkippedBy HasSocket rs) :
    SkippedBy (fun pre t => t ∈ pre) rs ↔ Clear (rs.map Prod.fst) := by
  constructor
  · intro hmem
    have hiff : ∀ before t after, rs.map Prod.fst = before ++ t :: after →
        (t ∈ before ↔ HasSocket before t) := by
      intro before t after hsplit
      obtain ⟨r₁, r₂, hrs, rfl, hr₂⟩ := List.map_eq_append_iff.mp hsplit
      obtain ⟨⟨u, o⟩, r₃, rfl, rfl, -⟩ := List.map_eq_cons_iff.mp hr₂
      exact (hmem r₁ u o r₃ hrs).symm.trans (h r₁ u o r₃ hrs)
    refine ⟨fun before t after hsplit ht => ((hiff before t after hsplit).mp ht).2, ?_⟩
    intro before t after hsplit ht hseen hopened
    exact ht ((hiff before t after hsplit).mpr ⟨hseen, hopened⟩)
  · intro hclear before t o after hrs
    have hsplit : rs.map Prod.fst = before.map Prod.fst ++ t :: after.map Prod.fst := by
      rw [hrs, List.map_append, List.map_cons]
    rw [h before t o after hrs]
    constructor
    · rintro ⟨hseen, hopened⟩
      by_contra hnew
      exact hclear.clash _ t _ hsplit hnew hseen hopened
    · intro ht
      exact ⟨⟨t, ht, rfl⟩, hclear.rejoined _ t _ hsplit ht⟩

/-- In server mode, without sources, every line that is not skipped is served; the lines skipped
are the repetitions exactly if the file is `Clear`. -/
theorem feed_file_skips_repetitions_iff (p : FeedParams) (hserver : p.client = false)
    (kernel : Int → Option Descriptor) (hfile : kernel 0 ≠ none)
    (lines : List (FeedLine × FeedOutside)) (hsource : ∀ e ∈ lines, e.1.mcSource = false)
    (hsucc : Succeeding p lines (.init kernel)) :
    ∃ rs s, feedLines p lines (.init kernel) = .ok (rs, s) ∧
      rs.map Prod.fst = lines.map (fun e => e.1.toFeedTarget) ∧ Served rs s ∧
      (SkippedBy (fun pre t => t ∈ pre) rs ↔ Clear (lines.map fun e => e.1.toFeedTarget)) := by
  have hplain : ∀ e ∈ lines, FeedState.acceptsDuplicate p e.1 = false := by
    intro e he
    simp [FeedState.acceptsDuplicate, hserver, hsource e he]
  have hnone : Served [] (.init kernel) := ⟨nofun, List.nodup_nil, nofun⟩
  have hrule : SkippedBy HasSocket [] := by
    intro before t o after hsplit
    cases before <;> cases hsplit
  obtain ⟨rs, s, hlines, hfst, hserved, hskipped⟩ :=
    feedLines_append [] hplain hsucc (.init kernel hfile) hnone hrule
  refine ⟨rs, s, hlines, hfst, hserved, ?_⟩
  rw [← hfst]
  exact skippedBy_mem_iff hskipped

theorem succeeding_cons {p : FeedParams} {line : FeedLine} {out : FeedOutside}
    {lines : List (FeedLine × FeedOutside)} {s s' : FeedState} {o : FeedOutcome}
    (hout : out.Succeeds p s.table) (hline : s.feedLine p out line = .ok (o, s'))
    (hrest : Succeeding p lines s') : Succeeding p ((line, out) :: lines) s := by
  refine ⟨hout, fun o' s'' h => ?_⟩
  cases hline.symm.trans h
  exact hrest

section Example

/-- A server with room for eight descriptors; 0 to 3 are in use. -/
def smallServer : FeedParams := ⟨false, ⟨8, 65507⟩⟩

def standardFds (fd : Int) : Option Descriptor :=
  if 0 ≤ fd ∧ fd ≤ 3 then some .other else none

def opens (fd : Int) : FeedOutside := ⟨true, fd, true, some 0⟩

/-- "T:10.0.0.1:11111", "U:10.0.0.2:11111", "U:10.0.0.1:11111" -/
def crossedFile : List (FeedLine × FeedOutside) :=
  [(⟨⟨true, .inet 0x0100000a 0x672b⟩, false⟩, opens 4),
    (⟨⟨false, .inet 0x0200000a 0x672b⟩, false⟩, opens 5),
    (⟨⟨false, .inet 0x0100000a 0x672b⟩, false⟩, opens 6)]

/-- "U:10.0.0.2:11111", "U:224.4.1.1:11111" and the first line again -/
def repeatedFile : List (FeedLine × FeedOutside) :=
  [(⟨⟨false, .inet 0x0200000a 0x672b⟩, false⟩, opens 4),
    (⟨⟨false, .inet 0x010104e0 0x672b⟩, false⟩, opens 5),
    (⟨⟨false, .inet 0x0200000a 0x672b⟩, false⟩, opens 6)]

theorem repeatedFile_clear : Clear (repeatedFile.map fun e => e.1.toFeedTarget) := by
  have hfirst : Opened [⟨false, .inet 0x0200000a 0x672b⟩, ⟨false, .inet 0x010104e0 0x672b⟩]
      (.inet 0x0200000a 0x672b) := ⟨[], _, _, rfl, rfl, nofun⟩
  have hgroup : ¬ Opened [⟨false, .inet 0x0200000a 0x672b⟩] (.inet 0x010104e0 0x672b) := by
    rintro ⟨before, t, after, hsplit, haddr, -⟩
    have ht : t ∈ [(⟨false, .inet 0x0200000a 0x672b⟩ : FeedTarget)] := by
      rw [hsplit]
      exact List.mem_append_right _ List.mem_cons_self
    rw [List.mem_singleton.mp ht] at haddr
    revert haddr
    decide
  constructor
  · rintro (_ | ⟨a, _ | ⟨b, _ | ⟨c, before⟩⟩⟩) t after hsplit ht
    · cases ht
    · cases hsplit
      exact absurd (List.mem_singleton.mp ht) (by decide)
    · cases hsplit
      exact hfirst
    · simp [repeatedFile] at hsplit
  · rintro (_ | ⟨a, _ | ⟨b, _ | ⟨c, before⟩⟩⟩) t after hsplit ht hseen
    · obtain ⟨u, hu, -⟩ := hseen
      cases hu
    · cases hsplit
      exact hgroup
    · cases hsplit
      exact absurd List.mem_cons_self ht
    · simp [repeatedFile] at hsplit

/-- The second line joins the socket of the first one, the third is skipped. -/
theorem feed_file_skips_repetitions_group :
    Succeeding smallServer repeatedFile (.init standardFds) ∧
      ∃ rs s, feedLines smallServer repeatedFile (.init standardFds) = .ok (rs, s) ∧
        rs.map Prod.snd = [.created 4, .joined 4, .skipped] ∧ Served rs s ∧
        SkippedBy (fun pre t => t ∈ pre) rs := by
  have hsucc : Succeeding smallServer repeatedFile (.init standardFds) := by
    refine succeeding_cons ⟨rfl, rfl, rfl, by decide, rfl⟩ rfl ?_
    refine succeeding_cons ⟨rfl, rfl, rfl, by decide, rfl⟩ rfl ?_
    exact succeeding_cons ⟨rfl, rfl, rfl, by decide, rfl⟩ rfl trivial
  obtain ⟨rs, s, hlines, -, hserved, hskipped⟩ :=
    feed_file_skips_repetitions_iff smallServer rfl standardFds nofun repeatedFile (by decide) hsucc
  refine ⟨hsucc, rs, s, hlines, ?_, hserved, hskipped.mpr repeatedFile_clear⟩
  cases hlines
  rfl

/-- The third line is skipped: its address is the one of the first line, which is of the other
type, and its type, family and port are those of the second line. -/
theorem new_line_skipped :
    Succeeding smallServer crossedFile (.init standardFds) ∧
      ∃ rs s, feedLines smallServer crossedFile (.init standardFds) = .ok (rs, s) ∧
        rs.map Prod.snd = [.created 4, .created 5, .skipped] ∧
        ¬ SkippedBy (fun pre t => t ∈ pre) rs := by
  refine ⟨?_, _, _, rfl, rfl, fun h => ?_⟩
  · refine succeeding_cons ⟨rfl, rfl, rfl, by decide, rfl⟩ rfl ?_
    refine succeeding_cons ⟨rfl, rfl, rfl, by decide, rfl⟩ rfl ?_
    exact succeeding_cons ⟨rfl, rfl, rfl, by decide, rfl⟩ rfl trivial
  · have hmem := (h [_, _] _ _ [] rfl).mp rfl
    revert hmem
    decide

end Example

end Sockperf
