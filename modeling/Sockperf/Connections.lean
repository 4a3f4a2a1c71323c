import Mathlib.Logic.Function.Basic
import Sockperf.Server
import Sockperf.Lib.Slots

/-!
# The connections of a stream server

A listening socket keeps the descriptors of its connections in the slots of
`active_fd_list` and their number in `active_fd_count`; each connection has a
record of its own in `g_fds_array` that points back by `next_fd`. `server_accept`
and `close_ifd` change the three separately, and `update` of every I/O handler
trusts the number while it reads the slots.
-/

namespace Sockperf

open Slots While
set_option autoImplicit false

def invalidSocket : Int := -1

def errNoMemory : Int := 5

/-- An entry of `g_fds_array`. -/
structure FdsRecord extends FdsData where
  nextFd : Int
  activeFdCount : Int
  activeFdList : Option (List Int)
  recv : SocketRecvData
  tlsHandle : Option Int
  deriving DecidableEq, Repr

/-- What an open descriptor is to the kernel. -/
inductive Descriptor where
  | other
  | connection (listener : Int)
  deriving DecidableEq, Repr

structure Connections where
  fdsArray : Int → Option FdsRecord
  /-- the open descriptors -/
  kernel : Int → Option Descriptor

structure Limits where
  /-- also `MAX_ACTIVE_FD_NUM` -/
  maxFdsNum : Nat
  maxPayloadSize : Int

/-- What the calls inside `server_accept` return. -/
structure AcceptOutside where
  /-- the receive buffer -/
  buf : Option Int
  activeIfd : Int
  prepared : Bool
  /-- the handle of `tls_establish`, if TLS is used -/
  tls : Option (Option Int)

namespace Connections
variable (t : Connections)

def setRecord (fd : Int) (data : Option FdsRecord) : Connections :=
  { t with fdsArray := Function.update t.fdsArray fd data }

def setKernel (fd : Int) (d : Option Descriptor) : Connections :=
  { t with kernel := Function.update t.kernel fd d }

/-- A connection gets the first free slot of a listening socket, and its record. -/
def place (ifd activeIfd : Int) (data : FdsRecord) (list : List Int) (tmp : FdsRecord) :
    Connections :=
  (t.setRecord ifd (some { data with
    activeFdList := some (list.replace invalidSocket activeIfd)
    activeFdCount := data.activeFdCount + 1 })).setRecord activeIfd (some tmp)

structure Accepted where
  ret : Int
  table : Connections
  /-- `tmp` is used after its record was released -/
  usedReleased : Bool

def serverAccept (lim : Limits) (out : AcceptOutside) (ifd : Int) : Accepted :=
  match t.fdsArray ifd with
  | none => ⟨invalidSocket, t, false⟩
  | some data =>
    match data.activeFdList with
    | none => ⟨ifd, t, false⟩
    | some list =>
      if data.isStream = false then ⟨ifd, t, false⟩
      else
        match out.buf with
        | none => ⟨errNoMemory, t, false⟩
        | some buf =>
          let tmp := { data with
            nextFd := ifd, activeFdList := none, activeFdCount := 0
            recv := freshRecv buf lim.maxPayloadSize }
          if out.activeIfd < 0 then ⟨invalidSocket, t, false⟩
          else
            let t := t.setKernel out.activeIfd (some (.connection ifd))
            if out.activeIfd < lim.maxFdsNum ∧ data.activeFdCount < lim.maxFdsNum - 1 ∧
                out.prepared = true ∧ invalidSocket ∈ list then
              let t := t.place ifd out.activeIfd data list tmp
              match out.tls with
              | none => ⟨out.activeIfd, t, false⟩
              | some tlsHandle =>
                let t := t.setRecord out.activeIfd (some { tmp with tlsHandle })
                if tlsHandle.isSome then ⟨out.activeIfd, t, false⟩
                else ⟨invalidSocket, t.setKernel out.activeIfd none, true⟩
            else ⟨invalidSocket, t.setKernel out.activeIfd none, false⟩

def release (fd ifd : Int) (next : FdsRecord) (list : List Int) : Connections :=
  t.setRecord fd (some { next with
    activeFdCount := next.activeFdCount - 1
    activeFdList := some (list.replace ifd invalidSocket) })

/-- `close_ifd`; `none` when a null pointer is followed. -/
def closeIfd (fd ifd : Int) : Option Connections :=
  match t.fdsArray fd with
  | none => none
  | some next =>
    match next.activeFdList with
    | none => none
    | some list =>
      if ifd ∈ list then
        let t := t.setKernel ifd none
        let t := t.release fd ifd next list
        match t.fdsArray ifd with
        | none => none
        | some _ => some (t.setRecord ifd none)
      else some t

/-! ## Runs -/

/-- One call. TLS is not used and memory does not run out. -/
inductive Step (lim : Limits) : Connections → Connections → Prop
  | accept {t : Connections} (ifd : Int) (out : AcceptOutside) (memory : out.buf.isSome = true)
      (plain : out.tls = none) (fresh : 0 ≤ out.activeIfd → t.kernel out.activeIfd = none) :
      Step lim t (t.serverAccept lim out ifd).table
  | close {t t' : Connections} (fd ifd : Int) (descriptor : ifd ≠ invalidSocket)
      (closes : t.closeIfd fd ifd = some t') : Step lim t t'

/-- The sockets of the server as they are set up. -/
structure Initial (lim : Limits) (t : Connections) : Prop where
  sockets : ∀ fd data, t.fdsArray fd = some data → 0 ≤ fd ∧ fd < lim.maxFdsNum ∧
    t.kernel fd = some .other ∧ data.activeFdCount = 0 ∧
    data.activeFdList = some (List.replicate lim.maxFdsNum invalidSocket)
  connections : ∀ fd l, t.kernel fd ≠ some (.connection l)

/-- The slots of one socket hold its connections. -/
structure Listens (lim : Limits) (l : Int) (data : FdsRecord) (list : List Int) : Prop where
  length : list.length = lim.maxFdsNum
  count : data.activeFdCount = (used invalidSocket list).length
  nodup : (used invalidSocket list).Nodup
  within : Within invalidSocket (lim.maxFdsNum - 1) list
  mem : ∀ fd, fd ∈ used invalidSocket list ↔ t.kernel fd = some (.connection l)

structure Consistent (lim : Limits) : Prop where
  range : ∀ fd data, t.fdsArray fd = some data → 0 ≤ fd ∧ fd < lim.maxFdsNum
  opened : ∀ fd, t.kernel fd = none → t.fdsArray fd = none
  listener : ∀ l data list, t.fdsArray l = some data → data.activeFdList = some list →
    t.kernel l = some .other ∧ t.Listens lim l data list
  connection : ∀ fd l, t.kernel fd = some (.connection l) →
    (∃ data, t.fdsArray fd = some data ∧ data.nextFd = l ∧ data.activeFdList = none) ∧
    ∃ data list, t.fdsArray l = some data ∧ data.activeFdList = some list
  slotless : ∀ fd data, t.fdsArray fd = some data → data.activeFdList = none →
    ∃ l, t.kernel fd = some (.connection l)

variable {t} {lim : Limits}

theorem Initial.consistent (h : Initial lim t) : t.Consistent lim where
  range fd data hdata := ⟨(h.sockets fd data hdata).1, (h.sockets fd data hdata).2.1⟩
  opened fd hclosed := by
    cases hdata : t.fdsArray fd with
    | none => rfl
    | some data =>
      rw [(h.sockets fd data hdata).2.2.1] at hclosed
      cases hclosed
  listener l data list hdata hlist := by
    obtain ⟨-, -, hother, hcount, hempty⟩ := h.sockets l data hdata
    obtain rfl : List.replicate lim.maxFdsNum invalidSocket = list :=
      Option.some.inj (hempty.symm.trans hlist)
    have hused : used invalidSocket (List.replicate lim.maxFdsNum invalidSocket) = [] :=
      used_replicate _
    refine ⟨hother, List.length_replicate, ?_, ?_, Within.replicate _ _, ?_⟩
    · rw [hcount, hused]
      rfl
    · rw [hused]
      exact List.nodup_nil
    · intro fd
      rw [hused]
      exact ⟨fun hmem => absurd hmem List.not_mem_nil, fun hconn => absurd hconn (h.connections fd l)⟩
  connection fd l hconn := absurd hconn (h.connections fd l)
  slotless fd data hdata hnone := by
    cases (h.sockets fd data hdata).2.2.2.2.symm.trans hnone

/-! ## One connection more or less -/

theorem Listens.frame {l : Int} {data : FdsRecord} {list : List Int} {t' : Connections}
    (h : t.Listens lim l data list)
    (hsame : ∀ fd, t'.kernel fd = some (.connection l) ↔ t.kernel fd = some (.connection l)) :
    t'.Listens lim l data list :=
  { h with mem := fun fd => (h.mem fd).trans (hsame fd).symm }

/-- The descriptor `x` comes to the socket `l` or leaves it. -/
structure Change (lim : Limits) (t t' : Connections) (l x : Int) : Prop where
  before : t.kernel x = none ∨ t.kernel x = some (.connection l)
  after : t'.kernel x = none ∧ t'.fdsArray x = none ∨
    t'.kernel x = some (.connection l) ∧ (0 ≤ x ∧ x < lim.maxFdsNum) ∧
      ∃ tmp, t'.fdsArray x = some tmp ∧ tmp.nextFd = l ∧ tmp.activeFdList = none
  kernel : ∀ fd, fd ≠ x → t'.kernel fd = t.kernel fd
  records : ∀ fd, fd ≠ x → fd ≠ l → t'.fdsArray fd = t.fdsArray fd
  old : ∃ data list, t.fdsArray l = some data ∧ data.activeFdList = some list
  new : ∃ data list, t'.fdsArray l = some data ∧ data.activeFdList = some list ∧
    t'.Listens lim l data list

theorem Consistent.ne_of_list (h : t.Consistent lim) {k x : Int} {data : FdsRecord}
    {list : List Int} (hdata : t.fdsArray k = some data) (hlist : data.activeFdList = some list)
    (hx : t.kernel x ≠ some .other) : k ≠ x := by
  intro heq
  apply hx
  rw [← heq]
  exact (h.listener k data list hdata hlist).1

section Change
variable {t' : Connections} {l x : Int} (h : t.Consistent lim) (hc : Change lim t t' l x)
include hc

theorem Change.before_ne : t.kernel x ≠ some .other := by
  intro hother
  rcases hc.before with hb | hb
  · cases hb.symm.trans hother
  · cases hb.symm.trans hother

include h

theorem Change.listener_other : t.kernel l = some .other ∧ 0 ≤ l ∧ l < lim.maxFdsNum := by
  obtain ⟨data, list, hdata, hlist⟩ := hc.old
  exact ⟨(h.listener l data list hdata hlist).1, h.range l data hdata⟩

theorem Change.range (fd : Int) (data : FdsRecord) (hdata : t'.fdsArray fd = some data) :
    0 ≤ fd ∧ fd < lim.maxFdsNum := by
  by_cases hfx : fd = x
  · rw [hfx] at hdata ⊢
    rcases hc.after with ⟨-, hnone⟩ | ⟨-, hrange, -⟩
    · cases hnone.symm.trans hdata
    · exact hrange
  · by_cases hfl : fd = l
    · rw [hfl]
      exact (hc.listener_other h).2
    · rw [hc.records fd hfx hfl] at hdata
      exact h.range fd data hdata

theorem Change.opened (fd : Int) (hclosed : t'.kernel fd = none) : t'.fdsArray fd = none := by
  by_cases hfx : fd = x
  · rw [hfx] at hclosed ⊢
    rcases hc.after with ⟨-, hnone⟩ | ⟨hopen, -⟩
    · exact hnone
    · cases hopen.symm.trans hclosed
  · rw [hc.kernel fd hfx] at hclosed
    have hfl : fd ≠ l := by
      intro heq
      rw [heq] at hclosed
      cases (hc.listener_other h).1.symm.trans hclosed
    rw [hc.records fd hfx hfl]
    exact h.opened fd hclosed

theorem Change.listener (k : Int) (data : FdsRecord) (list : List Int)
    (hdata : t'.fdsArray k = some data) (hlist : data.activeFdList = some list) :
    t'.kernel k = some .other ∧ t'.Listens lim k data list := by
  by_cases hkx : k = x
  · rw [hkx] at hdata
    rcases hc.after with ⟨-, hnone⟩ | ⟨-, -, tmp, htmp, -, hnone⟩
    · cases hnone.symm.trans hdata
    · cases htmp.symm.trans hdata
      cases hnone.symm.trans hlist
  · rw [hc.kernel k hkx]
    by_cases hkl : k = l
    · subst hkl
      obtain ⟨data', list', hdata', hlist', hlistens⟩ := hc.new
      cases hdata'.symm.trans hdata
      cases hlist'.symm.trans hlist
      exact ⟨(hc.listener_other h).1, hlistens⟩
    · rw [hc.records k hkx hkl] at hdata
      obtain ⟨hk, hlistens⟩ := h.listener k data list hdata hlist
      refine ⟨hk, hlistens.frame fun fd => ?_⟩
      by_cases hfx : fd = x
      · -- the descriptor is never one of another socket
        have hbefore : t.kernel x ≠ some (.connection k) := by
          intro heq
          rcases hc.before with hb | hb
          · cases hb.symm.trans heq
          · cases hb.symm.trans heq
            exact hkl rfl
        have hafter : t'.kernel x ≠ some (.connection k) := by
          intro heq
          rcases hc.after with ⟨ha, -⟩ | ⟨ha, -⟩
          · cases ha.symm.trans heq
          · cases ha.symm.trans heq
            exact hkl rfl
        rw [hfx]
        exact ⟨fun heq => absurd heq hafter, fun heq => absurd heq hbefore⟩
      · rw [hc.kernel fd hfx]

theorem Change.connection (fd k : Int) (hconn : t'.kernel fd = some (.connection k)) :
    (∃ data, t'.fdsArray fd = some data ∧ data.nextFd = k ∧ data.activeFdList = none) ∧
    ∃ data list, t'.fdsArray k = some data ∧ data.activeFdList = some list := by
  obtain ⟨data, list, hdata, hlist, -⟩ := hc.new
  by_cases hfx : fd = x
  · rw [hfx] at hconn ⊢
    rcases hc.after with ⟨hnone, -⟩ | ⟨hopen, -, tmp, htmp, hnext, hnone⟩
    · cases hnone.symm.trans hconn
    · cases hopen.symm.trans hconn
      exact ⟨⟨tmp, htmp, hnext, hnone⟩, data, list, hdata, hlist⟩
  · rw [hc.kernel fd hfx] at hconn
    obtain ⟨⟨d, hd, hnext, hnone⟩, d', list', hd', hlist'⟩ := h.connection fd k hconn
    have hfl : fd ≠ l := by
      intro heq
      rw [heq] at hconn
      cases (hc.listener_other h).1.symm.trans hconn
    refine ⟨⟨d, ?_, hnext, hnone⟩, ?_⟩
    · rw [hc.records fd hfx hfl]
      exact hd
    · by_cases hkl : k = l
      · rw [hkl]
        exact ⟨data, list, hdata, hlist⟩
      · refine ⟨d', list', ?_, hlist'⟩
        rw [hc.records k (h.ne_of_list hd' hlist' hc.before_ne) hkl]
        exact hd'

theorem Change.slotless (fd : Int) (data : FdsRecord) (hdata : t'.fdsArray fd = some data)
    (hnone : data.activeFdList = none) : ∃ k, t'.kernel fd = some (.connection k) := by
  by_cases hfx : fd = x
  · rw [hfx] at hdata ⊢
    rcases hc.after with ⟨-, hempty⟩ | ⟨hopen, -⟩
    · cases hempty.symm.trans hdata
    · exact ⟨l, hopen⟩
  · by_cases hfl : fd = l
    · subst hfl
      obtain ⟨data', list, hdata', hlist, -⟩ := hc.new
      cases hdata'.symm.trans hdata
      cases hlist.symm.trans hnone
    · rw [hc.records fd hfx hfl] at hdata
      rw [hc.kernel fd hfx]
      exact h.slotless fd data hdata hnone

theorem Change.consistent : t'.Consistent lim :=
  ⟨hc.range h, hc.opened h, hc.listener h, hc.connection h, hc.slotless h⟩

end Change

/-! ## The two calls -/

section Calls
variable {l a : Int} {data tmp : FdsRecord} {list : List Int}

variable (lim) in
theorem serverAccept_table {out : AcceptOutside} (ifd : Int) (handshake : out.tls ≠ some none)
    (fresh : 0 ≤ out.activeIfd → t.kernel out.activeIfd = none) :
    (t.serverAccept lim out ifd).table = t ∨ ∃ data list tmp,
      t.fdsArray ifd = some data ∧ data.activeFdList = some list ∧
      0 ≤ out.activeIfd ∧ out.activeIfd < lim.maxFdsNum ∧
      data.activeFdCount < lim.maxFdsNum - 1 ∧ invalidSocket ∈ list ∧
      tmp.nextFd = ifd ∧ tmp.activeFdList = none ∧ tmp.activeFdCount = 0 ∧
      (t.serverAccept lim out ifd).table =
        (t.setKernel out.activeIfd (some (.connection ifd))).place ifd out.activeIfd data list
          tmp := by
  unfold serverAccept
  cases hdata : t.fdsArray ifd with
  | none => exact Or.inl rfl
  | some data =>
    cases hlist : data.activeFdList with
    | none =>
      dsimp only
      rw [hlist]
      exact Or.inl rfl
    | some list =>
      dsimp only
      rw [hlist]
      dsimp only
      split
      · exact Or.inl rfl
      cases out.buf with
      | none => exact Or.inl rfl
      | some buf =>
        dsimp only
        split
        · exact Or.inl rfl
        next hneg =>
        have hopen : 0 ≤ out.activeIfd := by omega
        split
        · next hroom =>
          obtain ⟨hlt, hcount, -, hfree⟩ := hroom
          refine Or.inr ⟨data, list, { data with
            nextFd := ifd, activeFdList := none, activeFdCount := 0
            recv := freshRecv buf lim.maxPayloadSize, tlsHandle := out.tls.getD data.tlsHandle },
            rfl, hlist, hopen, hlt, hcount, hfree, rfl, rfl, rfl, ?_⟩
          cases htls : out.tls with
          | none => rfl
          | some handle =>
            cases handle with
            | none => exact absurd htls handshake
            | some handle =>
              dsimp only [Option.isSome_some, place, setRecord]
              rw [if_pos rfl, Function.update_idem]
              rfl
        · -- the descriptor is closed again
          refine Or.inl ?_
          rw [setKernel, setKernel]
          dsimp only
          rw [Function.update_idem, ← fresh hopen, Function.update_eq_self]

theorem Listens.place (h : t.Listens lim l data list) (fresh : t.kernel a = none) (ha : 0 ≤ a)
    (hroom : data.activeFdCount < lim.maxFdsNum - 1) (hfree : invalidSocket ∈ list)
    {t' : Connections} (hkernel : t'.kernel = Function.update t.kernel a (some (.connection l))) :
    t'.Listens lim l { data with
      activeFdList := some (list.replace invalidSocket a)
      activeFdCount := data.activeFdCount + 1 } (list.replace invalidSocket a) := by
  have hvalid : a ≠ invalidSocket := by
    intro heq
    rw [heq] at ha
    exact absurd ha (by decide)
  have hperm := used_replace_free hvalid hfree
  have hnew : a ∉ used invalidSocket list := by
    rw [h.mem, fresh]
    exact fun heq => nomatch heq
  have hcount := h.count
  refine ⟨?_, ?_, ?_, ?_, ?_⟩
  · rw [List.length_replace]
    exact h.length
  · rw [hperm.length_eq, List.length_cons]
    dsimp only
    omega
  · exact hperm.nodup_iff.mpr (List.nodup_cons.mpr ⟨hnew, h.nodup⟩)
  · apply h.within.replace_free
    omega
  · intro fd
    rw [hperm.mem_iff, List.mem_cons, h.mem, hkernel]
    by_cases hfd : fd = a
    · rw [hfd, Function.update_self]
      exact ⟨fun _ => rfl, fun _ => Or.inl rfl⟩
    · rw [Function.update_of_ne hfd]
      exact ⟨fun hmem => hmem.resolve_left hfd, Or.inr⟩

theorem Consistent.place_change (h : t.Consistent lim) (hdata : t.fdsArray l = some data)
    (hlist : data.activeFdList = some list) (ha : 0 ≤ a) (hlt : a < lim.maxFdsNum)
    (fresh : t.kernel a = none) (hroom : data.activeFdCount < lim.maxFdsNum - 1)
    (hfree : invalidSocket ∈ list) (hnext : tmp.nextFd = l) (hnone : tmp.activeFdList = none) :
    Change lim t ((t.setKernel a (some (.connection l))).place l a data list tmp) l a := by
  obtain ⟨-, hlistens⟩ := h.listener l data list hdata hlist
  have hne : l ≠ a := h.ne_of_list hdata hlist fun heq => nomatch fresh.symm.trans heq
  exact {
    before := Or.inl fresh
    after := Or.inr ⟨Function.update_self _ _ _, ⟨ha, hlt⟩, tmp, Function.update_self _ _ _, hnext,
      hnone⟩
    kernel := fun fd hfd => Function.update_of_ne hfd _ _
    records := fun fd hfa hfl =>
      (Function.update_of_ne hfa _ _).trans (Function.update_of_ne hfl _ _)
    old := ⟨data, list, hdata, hlist⟩
    new := ⟨_, _, (Function.update_of_ne hne _ _).trans (Function.update_self _ _ _), rfl,
      hlistens.place fresh ha hroom hfree rfl⟩ }

theorem Listens.release (h : t.Listens lim l data list) (hmem : a ∈ used invalidSocket list)
    {t' : Connections} (hkernel : t'.kernel = Function.update t.kernel a none) :
    t'.Listens lim l { data with
      activeFdCount := data.activeFdCount - 1
      activeFdList := some (list.replace a invalidSocket) } (list.replace a invalidSocket) := by
  have hused : used invalidSocket (list.replace a invalidSocket) = _ :=
    used_replace_used (mem_used.mp hmem).2
  have hpos : 0 < (used invalidSocket list).length := List.length_pos_of_mem hmem
  have hcount := h.count
  refine ⟨?_, ?_, ?_, h.within.replace_used, ?_⟩
  · rw [List.length_replace]
    exact h.length
  · rw [hused, List.length_erase_of_mem hmem]
    dsimp only
    omega
  · rw [hused]
    exact h.nodup.erase a
  · intro fd
    rw [hused, h.nodup.mem_erase_iff, h.mem, hkernel]
    by_cases hfd : fd = a
    · rw [hfd, Function.update_self]
      exact ⟨fun hboth => absurd rfl hboth.1, fun heq => nomatch heq⟩
    · rw [Function.update_of_ne hfd]
      exact ⟨fun hboth => hboth.2, fun heq => ⟨hfd, heq⟩⟩

theorem Consistent.close_change (h : t.Consistent lim) (hdata : t.fdsArray l = some data)
    (hlist : data.activeFdList = some list) (hvalid : a ≠ invalidSocket) :
    ∃ t', t.closeIfd l a = some t' ∧
      (a ∉ list ∧ t' = t ∨ Change lim t t' l a ∧ t'.kernel a = none) := by
  unfold closeIfd
  rw [hdata]
  dsimp only
  rw [hlist]
  dsimp only
  split
  · next hmem =>
    obtain ⟨-, hlistens⟩ := h.listener l data list hdata hlist
    have hused : a ∈ used invalidSocket list := mem_used.mpr ⟨hmem, hvalid⟩
    have hconn := (hlistens.mem a).mp hused
    obtain ⟨⟨conn, hrecord, -, -⟩, -⟩ := h.connection a l hconn
    have hne : l ≠ a := h.ne_of_list hdata hlist fun heq => nomatch hconn.symm.trans heq
    have hstill : ((t.setKernel a none).release l a data list).fdsArray a = some conn :=
      (Function.update_of_ne hne.symm _ _).trans hrecord
    rw [hstill]
    refine ⟨_, rfl, Or.inr ⟨?_, Function.update_self _ _ _⟩⟩
    exact {
      before := Or.inr hconn
      after := Or.inl ⟨Function.update_self _ _ _, Function.update_self _ _ _⟩
      kernel := fun fd hfd => Function.update_of_ne hfd _ _
      records := fun fd hfa hfl =>
        (Function.update_of_ne hfa _ _).trans (Function.update_of_ne hfl _ _)
      old := ⟨data, list, hdata, hlist⟩
      new := ⟨_, _, (Function.update_of_ne hne _ _).trans (Function.update_self _ _ _), rfl,
        hlistens.release hused rfl⟩ }
  · next hnot => exact ⟨t, rfl, Or.inl ⟨hnot, rfl⟩⟩

/-- What a call of `close_ifd` that returns has done. -/
theorem Consistent.closeIfd_change (h : t.Consistent lim) {t' : Connections}
    (hvalid : a ≠ invalidSocket) (hcloses : t.closeIfd l a = some t') :
    t' = t ∨ Change lim t t' l a ∧ t'.kernel a = none := by
  cases hdata : t.fdsArray l with
  | none =>
    rw [closeIfd, hdata] at hcloses
    cases hcloses
  | some data =>
    cases hlist : data.activeFdList with
    | none =>
      rw [closeIfd, hdata] at hcloses
      dsimp only at hcloses
      rw [hlist] at hcloses
      cases hcloses
    | some list =>
      obtain ⟨t'', hreturns, heffect⟩ := h.close_change hdata hlist hvalid
      cases hreturns.symm.trans hcloses
      exact heffect.imp_left And.right

theorem Consistent.step (h : t.Consistent lim) {t' : Connections} (hstep : Step lim t t') :
    t'.Consistent lim := by
  cases hstep with
  | accept ifd out memory plain fresh =>
    have handshake : out.tls ≠ some none := fun heq => nomatch plain.symm.trans heq
    rcases serverAccept_table lim ifd handshake fresh with hsame |
      ⟨data, list, tmp, hdata, hlist, hpos, hlt, hroom, hfree, hnext, hnone, -, hplaced⟩
    · rw [hsame]
      exact h
    · rw [hplaced]
      exact (h.place_change hdata hlist hpos hlt (fresh hpos) hroom hfree hnext hnone).consistent h
  | close fd ifd descriptor closes =>
    rcases h.closeIfd_change descriptor closes with rfl | ⟨hchange, -⟩
    · exact h
    · exact hchange.consistent h

theorem Initial.run {t' : Connections} (h : Initial lim t)
    (run : Relation.ReflTransGen (Step lim) t t') : t'.Consistent lim := by
  induction run with
  | refl => exact h.consistent
  | tail _ hstep ih => exact ih.step hstep

end Calls

end Connections

end Sockperf
