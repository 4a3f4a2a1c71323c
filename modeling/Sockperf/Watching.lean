import Mathlib.Data.List.Dedup
import Sockperf.Division

/-!
# What each thread waits for

The sockets are divided before the first connection is accepted, but the
connections get whatever descriptors are free, also in the range of another
thread. `update` is followed here in the build without assertions: a record
without slots is then passed over, where an assertion would stop the process.
-/

namespace Sockperf

open Slots While
set_option autoImplicit false

universe v
variable {ρ : Type v}

/-! ## `update` without assertions -/

namespace IoHandler
variable (io : IoHandler ρ) (t : Connections)

/-- A null pointer is only followed while `active_fd_count` is not 0. -/
def scanNdebug (ifd : Int) (data : FdsRecord) :
    Slots.Scan ρ → Turn (Slots.Scan ρ) (Except Slots.Fault (Slots.Scan ρ)) :=
  let list := data.activeFdList.getD []
  scanTurn invalidSocket list (list.length + 1) (io.visit ifd) fun _ => true

def updateNdebug (fuel : Nat) : List Int → ρ → Option (Except UpdateFault ρ)
  | [], r => some (.ok r)
  | ifd :: ifds, r =>
    match t.fdsArray ifd with
    | none => updateNdebug fuel ifds r
    | some data =>
      match iterate (io.scanNdebug ifd data) fuel ⟨0, data.activeFdCount, io.listen r ifd⟩ with
      | none => none
      | some (.error fault) => some (.error (.scan fault))
      | some (.ok s) => updateNdebug fuel ifds s.seen

end IoHandler

section Handlers
variable (lim : Limits) (fuel : Nat) (info : HandlerInfo) (t : Connections)

/-- `IoSelect::update` -/
def IoSelect.updateNdebug : Option (Except UpdateFault IoSelect) :=
  (ioSelect.updateNdebug t fuel (fdRange info.fdMin info.fdMax)
    ⟨[], info.fdMin, info.fdMax⟩).map (Except.map fun r => { r with lookEnd := r.lookEnd + 1 })

/-- `IoPoll::prepareNetwork`, with `arr` the contents of the memory it gets. -/
def IoPoll.prepareNetwork (arr : Int → Int) : IoPoll :=
  -- `fd_count` goes up as `m_look_end` does in `update`
  { (t.socketsOf info).foldl ioPoll.add ⟨arr, 0, 0⟩ with lookEnd := info.fdNum }

/-- `IoPoll::update` -/
def IoPoll.updateNdebug (r : IoPoll) : Option (Except UpdateFault IoPoll) :=
  ioPoll.updateNdebug t fuel (fdRange info.fdMin info.fdMax)
    { r with lookStart := 0, lookEnd := info.fdNum }

def IoEpoll.prepareNetwork : IoEpoll :=
  (t.socketsOf info).foldl (ioEpoll lim).add ⟨[], 0, 0, 0⟩

/-- `IoEpoll::update` -/
def IoEpoll.updateNdebug (r : IoEpoll) : Option (Except UpdateFault IoEpoll) :=
  ((ioEpoll lim).updateNdebug t fuel (fdRange info.fdMin info.fdMax)
    ⟨r.interest, 0, info.fdNum, info.fdNum⟩).map
    (Except.map fun r => { r with lookEnd := r.maxEvents })

/-- The kernel drops a closed descriptor from the interest list. -/
def IoEpoll.drop (r : IoEpoll) : IoEpoll :=
  { r with interest := r.interest.filter fun fd => (t.kernel fd).isSome }

end Handlers

/-! ## Runs -/

namespace Connections

/-- One call, by any thread. A handshake of TLS succeeds. -/
inductive Event (lim : Limits) : Connections → Connections → Prop
  | accept {t : Connections} (ifd : Int) (out : AcceptOutside) (handshake : out.tls ≠ some none)
      (fresh : 0 ≤ out.activeIfd → t.kernel out.activeIfd = none) :
      Event lim t (t.serverAccept lim out ifd).table
  | close {t t' : Connections} (fd ifd : Int) (descriptor : ifd ≠ invalidSocket)
      (closes : t.closeIfd fd ifd = some t') : Event lim t t'

variable (t : Connections)

def Listening (l : Int) : Prop :=
  ∃ data list, t.fdsArray l = some data ∧ data.activeFdList = some list

/-- What holds of a table that came from `t₀`. -/
structure ServedFrom (lim : Limits) (t₀ : Connections) : Prop where
  consistent : t.Consistent lim
  slotless : ∀ fd data, t.fdsArray fd = some data → data.activeFdList = none →
    data.activeFdCount = 0
  listening : ∀ l, t.Listening l ↔ (t₀.fdsArray l).isSome = true

variable {t} {lim : Limits} {t₀ t' : Connections}

theorem Initial.servedFrom (h : Initial lim t) : t.ServedFrom lim t where
  consistent := h.consistent
  slotless fd data hdata hnone := (h.sockets fd data hdata).2.2.2.1
  listening l := by
    constructor
    · rintro ⟨data, list, hdata, -⟩
      rw [hdata]
      rfl
    · intro hsome
      obtain ⟨data, hdata⟩ := Option.isSome_iff_exists.mp hsome
      exact ⟨data, _, hdata, (h.sockets l data hdata).2.2.2.2⟩

section Change
variable {l x : Int} (h : t.Consistent lim) (hc : Change lim t t' l x)
include h hc

theorem Change.listening (k : Int) : t'.Listening k ↔ t.Listening k := by
  by_cases hkx : k = x
  · subst hkx
    constructor
    · rintro ⟨data, list, hdata, hlist⟩
      rcases hc.after with ⟨-, hnone⟩ | ⟨-, -, tmp, htmp, -, hnone⟩
      · cases hnone.symm.trans hdata
      · cases htmp.symm.trans hdata
        cases hnone.symm.trans hlist
    · rintro ⟨data, list, hdata, hlist⟩
      exact absurd rfl (h.ne_of_list hdata hlist hc.before_ne)
  · by_cases hkl : k = l
    · subst hkl
      obtain ⟨data, list, hdata, hlist, -⟩ := hc.new
      exact ⟨fun _ => hc.old, fun _ => ⟨data, list, hdata, hlist⟩⟩
    · unfold Listening
      rw [hc.records k hkx hkl]

theorem Change.servedFrom (hserved : t.ServedFrom lim t₀)
    (hcount : ∀ tmp, t'.fdsArray x = some tmp → tmp.activeFdCount = 0) :
    t'.ServedFrom lim t₀ where
  consistent := hc.consistent h
  slotless fd data hdata hnone := by
    by_cases hfx : fd = x
    · subst hfx
      exact hcount data hdata
    · by_cases hfl : fd = l
      · subst hfl
        obtain ⟨data', list, hdata', hlist, -⟩ := hc.new
        cases hdata'.symm.trans hdata
        cases hlist.symm.trans hnone
      · rw [hc.records fd hfx hfl] at hdata
        exact hserved.slotless fd data hdata hnone
  listening k := (hc.listening h k).trans (hserved.listening k)

end Change

theorem Event.change (h : t.Consistent lim) (he : Event lim t t') :
    t' = t ∨ ∃ l x, Change lim t t' l x ∧
      ∀ tmp, t'.fdsArray x = some tmp → tmp.activeFdCount = 0 := by
  cases he with
  | accept ifd out handshake fresh =>
    rcases serverAccept_table lim ifd handshake fresh with hsame |
      ⟨data, list, tmp, hdata, hlist, hpos, hlt, hroom, hfree, hnext, hnone, hcount, hplaced⟩
    · exact Or.inl hsame
    · have hchange :=
        h.place_change hdata hlist hpos hlt (fresh hpos) hroom hfree hnext hnone
      rw [← hplaced] at hchange
      refine Or.inr ⟨ifd, out.activeIfd, hchange, ?_⟩
      intro tmp' htmp
      have hrecord : (t.serverAccept lim out ifd).table.fdsArray out.activeIfd = some tmp := by
        rw [hplaced]
        exact Function.update_self _ _ _
      cases hrecord.symm.trans htmp
      exact hcount
  | close fd ifd descriptor closes =>
    rcases h.closeIfd_change descriptor closes with hsame | ⟨hchange, hclosed⟩
    · exact Or.inl hsame
    · refine Or.inr ⟨fd, ifd, hchange, ?_⟩
      intro tmp htmp
      cases ((hchange.consistent h).opened ifd hclosed).symm.trans htmp

theorem ServedFrom.event (h : t.ServedFrom lim t₀) (he : Event lim t t') :
    t'.ServedFrom lim t₀ := by
  rcases he.change h.consistent with rfl | ⟨l, x, hchange, hcount⟩
  · exact h
  · exact hchange.servedFrom h.consistent h hcount

theorem ServedFrom.run (h : t.ServedFrom lim t₀)
    (run : Relation.ReflTransGen (Event lim) t t') : t'.ServedFrom lim t₀ := by
  induction run with
  | refl => exact h
  | tail _ he ih => exact ih.event he

end Connections

/-! ## One update -/

namespace Connections
variable {t t₀ : Connections} {lim : Limits} {info : HandlerInfo} {io : IoHandler ρ}

variable (io) in
/-- Without assertions a record that has no slots counts as a socket without connections. -/
theorem ServedFrom.scanNdebug (h : t.ServedFrom lim t₀) {ifd : Int} {data : FdsRecord}
    (hdata : t.fdsArray ifd = some data) (r : ρ) :
    ∃ i, iterate (io.scanNdebug ifd data) (lim.maxFdsNum + 1) ⟨0, data.activeFdCount, r⟩ =
      some (.ok ⟨i, 0, (t.connectionsOf ifd).foldl io.add r⟩) := by
  cases hlist : data.activeFdList with
  | none =>
    have hempty : t.connectionsOf ifd = [] := by
      rw [connectionsOf, hdata]
      dsimp only
      rw [hlist]
    have hturn : io.scanNdebug ifd data ⟨0, 0, r⟩ = .done (.ok ⟨0, 0, r⟩) := by
      rw [IoHandler.scanNdebug, scanTurn, if_pos rfl]
    rw [h.slotless ifd data hdata hlist, hempty]
    exact ⟨0, iterate_done hturn⟩
  | some list =>
    obtain ⟨hother, hlistens⟩ := h.consistent.listener ifd data list hdata hlist
    have hself : ifd ∉ used invalidSocket list := by
      rw [hlistens.mem, hother]
      intro heq
      cases heq
    have hlast : lim.maxFdsNum - 1 < list.length + 1 := by
      rw [hlistens.length]
      omega
    obtain ⟨i, -, hscan⟩ := scan_returns (io.visit ifd) (fun _ => true) r hlistens.within hlast
      fun _ _ => rfl
    rw [hlistens.length, IoHandler.foldl_visit hself] at hscan
    refine ⟨i, ?_⟩
    rw [connectionsOf_eq hdata hlist, hlistens.count, IoHandler.scanNdebug, hlist,
      Option.getD_some, hlistens.length]
    exact hscan

variable (io) in
theorem ServedFrom.updateNdebug (h : t.ServedFrom lim t₀) (ifds : List Int) (r : ρ) :
    io.updateNdebug t (lim.maxFdsNum + 1) ifds r =
      some (.ok (t.collected io (t.sockets ifds) r)) := by
  induction ifds generalizing r with
  | nil => rfl
  | cons ifd ifds ih =>
    cases hdata : t.fdsArray ifd with
    | none =>
      rw [IoHandler.updateNdebug, hdata, sockets_none hdata]
      exact ih r
    | some data =>
      obtain ⟨i, hscan⟩ := h.scanNdebug io hdata (io.listen r ifd)
      rw [IoHandler.updateNdebug, hdata, sockets_some hdata]
      dsimp only
      rw [hscan]
      exact ih _

/-! ## The sockets of the thread and their connections -/

variable (t) in
/-- What a thread with the sockets `own` is to wait for. -/
def Watched (own : List Int) (fd : Int) : Prop :=
  fd ∈ own ∨ ∃ l ∈ own, t.kernel fd = some (.connection l)

theorem nodup_socketsOf : (t.socketsOf info).Nodup := (nodup_fdRange _ _).filter _

section Own
variable (h : t.ServedFrom lim t₀)
include h

theorem ServedFrom.mem_own {l : Int} :
    l ∈ t₀.socketsOf info ↔ (info.fdMin ≤ l ∧ l ≤ info.fdMax) ∧ t.Listening l := by
  rw [mem_socketsOf, h.listening]

variable (info) in
theorem ServedFrom.own_other : ∀ l ∈ t₀.socketsOf info,
    t.kernel l = some .other ∧ (t.fdsArray l).isSome = true := by
  intro l hl
  obtain ⟨-, data, list, hdata, hlist⟩ := h.mem_own.mp hl
  rw [hdata]
  exact ⟨(h.consistent.listener l data list hdata hlist).1, rfl⟩

theorem ServedFrom.watched_iff {fd : Int} :
    t.Watched (t₀.socketsOf info) fd ↔
      fd ∈ t₀.socketsOf info ++ (t₀.socketsOf info).flatMap t.connectionsOf := by
  rw [Watched, List.mem_append, List.mem_flatMap]
  simp only [mem_connectionsOf h.consistent]

theorem ServedFrom.watched_lt {fd : Int} (hwatched : t.Watched (t₀.socketsOf info) fd) :
    fd < lim.maxFdsNum :=
  (h.consistent.range_of_mem (h.own_other info) (h.watched_iff.mp hwatched)).2

theorem ServedFrom.flatMap_own :
    (t.socketsOf info).flatMap t.connectionsOf = (t₀.socketsOf info).flatMap t.connectionsOf := by
  rw [socketsOf, flatMap_sockets, socketsOf, sockets, flatMap_filter_of_nil]
  intro l _ hnot
  apply List.eq_nil_iff_forall_not_mem.mpr
  intro fd hfd
  apply hnot
  rw [← h.listening]
  exact (h.consistent.connection fd l ((mem_connectionsOf h.consistent).mp hfd)).2

theorem ServedFrom.collected_own (hlisten : ∀ r ifd, io.listen r ifd = r) (r : ρ) :
    t.collected io (t.socketsOf info) r =
      ((t₀.socketsOf info).flatMap t.connectionsOf).foldl io.add r := by
  rw [← h.flatMap_own, List.foldl_flatMap, collected]
  simp only [hlisten]

omit info in
theorem ServedFrom.isSome_eq {l : Int} (hplain : ∀ k, t.kernel l ≠ some (.connection k)) :
    (t.fdsArray l).isSome = (t₀.fdsArray l).isSome := by
  rw [Bool.eq_iff_iff, ← h.listening]
  constructor
  · intro hsome
    obtain ⟨data, hdata⟩ := Option.isSome_iff_exists.mp hsome
    cases hlist : data.activeFdList with
    | none =>
      obtain ⟨k, hconn⟩ := h.consistent.slotless l data hdata hlist
      exact absurd hconn (hplain k)
    | some list => exact ⟨data, list, hdata, hlist⟩
  · rintro ⟨data, list, hdata, -⟩
    rw [hdata]
    rfl

/-- With no connection in the range, the records in it are the sockets of the thread. -/
theorem ServedFrom.socketsOf_eq (hapart : t.Apart info) : t.socketsOf info = t₀.socketsOf info :=
  List.filter_congr fun l hl => h.isSome_eq (hapart l hl)

end Own

end Connections

/-! ## `IoSelect` -/

def fdSetSize : Int := 32768

structure IoSelect.Watches (own : List Int) (t : Connections) (r : IoSelect) : Prop where
  bits : ∀ fd, fd ∈ r.saveFds ↔ t.Watched own fd
  inside : ∀ fd ∈ r.saveFds, r.lookStart ≤ fd ∧ fd < r.lookEnd
  /-- `FD_SET` stays in the `fd_set` -/
  room : ∀ fd ∈ r.saveFds, fd < fdSetSize

/-- No connection of another thread has a descriptor in the range. -/
def Connections.NoForeign (own : List Int) (info : HandlerInfo) (t : Connections) : Prop :=
  ∀ fd l, info.fdMin ≤ fd → fd ≤ info.fdMax → t.kernel fd = some (.connection l) → l ∈ own

/-- The bits are between `m_look_start` and `m_look_end`. -/
structure IoSelect.Between (info : HandlerInfo) (r : IoSelect) : Prop where
  start : r.lookStart ≤ info.fdMin
  stop : info.fdMax ≤ r.lookEnd
  bits : ∀ fd ∈ r.saveFds, r.lookStart ≤ fd ∧ fd ≤ r.lookEnd

namespace IoSelect
variable {info : HandlerInfo} {r : IoSelect}

theorem Between.listen (h : r.Between info) {ifd : Int} (hmin : info.fdMin ≤ ifd)
    (hmax : ifd ≤ info.fdMax) : (ioSelect.listen r ifd).Between info := by
  refine ⟨h.start, h.stop, ?_⟩
  intro fd hfd
  rcases List.mem_cons.mp hfd with rfl | hfd
  · exact ⟨h.start.trans hmin, hmax.trans h.stop⟩
  · exact h.bits fd hfd

theorem Between.add (h : r.Between info) (fd : Int) : (ioSelect.add r fd).Between info := by
  refine ⟨(min_le_left _ _).trans h.start, h.stop.trans (le_max_left _ _), ?_⟩
  intro fd' hfd
  rcases List.mem_cons.mp hfd with rfl | hfd
  · exact ⟨min_le_right _ _, le_max_right _ _⟩
  · obtain ⟨hstart, hstop⟩ := h.bits fd' hfd
    exact ⟨(min_le_left _ _).trans hstart, hstop.trans (le_max_left _ _)⟩

theorem Between.foldl (h : r.Between info) (fds : List Int) :
    (fds.foldl ioSelect.add r).Between info := by
  induction fds generalizing r with
  | nil => exact h
  | cons fd fds ih => exact ih (h.add fd)

theorem Between.collected {t : Connections} (h : r.Between info) {sockets : List Int}
    (hrange : ∀ l ∈ sockets, info.fdMin ≤ l ∧ l ≤ info.fdMax) :
    (t.collected ioSelect sockets r).Between info := by
  induction sockets generalizing r with
  | nil => exact h
  | cons l sockets ih =>
    obtain ⟨hmin, hmax⟩ := hrange l List.mem_cons_self
    exact ih ((h.listen hmin hmax).foldl _) fun k hk => hrange k (List.mem_cons_of_mem _ hk)

end IoSelect

namespace Connections
variable {t t₀ : Connections} {lim : Limits} {info : HandlerInfo}

theorem ServedFrom.mem_records (h : t.ServedFrom lim t₀) {fd : Int} :
    (∃ l ∈ t.socketsOf info, fd = l ∨ fd ∈ t.connectionsOf l) ↔
      t.Watched (t₀.socketsOf info) fd ∨
        (info.fdMin ≤ fd ∧ fd ≤ info.fdMax) ∧ ∃ l, t.kernel fd = some (.connection l) := by
  simp only [mem_connectionsOf h.consistent]
  constructor
  · rintro ⟨l, hl, rfl | hconn⟩
    · obtain ⟨hrange, hsome⟩ := mem_socketsOf.mp hl
      obtain ⟨data, hdata⟩ := Option.isSome_iff_exists.mp hsome
      cases hlist : data.activeFdList with
      | none => exact Or.inr ⟨hrange, h.consistent.slotless fd data hdata hlist⟩
      | some list => exact Or.inl (Or.inl (h.mem_own.mpr ⟨hrange, data, list, hdata, hlist⟩))
    · have hlistening : t.Listening l := (h.consistent.connection fd l hconn).2
      exact Or.inl (Or.inr ⟨l, h.mem_own.mpr ⟨(mem_socketsOf.mp hl).1, hlistening⟩, hconn⟩)
  · rintro ((hown | ⟨l, hown, hconn⟩) | ⟨hrange, l, hconn⟩)
    · exact ⟨fd, mem_socketsOf.mpr ⟨(mem_socketsOf.mp hown).1, (h.own_other info fd hown).2⟩,
        Or.inl rfl⟩
    · exact ⟨l, mem_socketsOf.mpr ⟨(mem_socketsOf.mp hown).1, (h.own_other info l hown).2⟩,
        Or.inr hconn⟩
    · obtain ⟨⟨data, hdata, -⟩, -⟩ := h.consistent.connection fd l hconn
      exact ⟨fd, mem_socketsOf.mpr ⟨hrange, by rw [hdata]; rfl⟩, Or.inl rfl⟩

/-- `select` waits for the right descriptors exactly when no connection of another thread is in
the range and all of them fit into an `fd_set`. -/
theorem ServedFrom.ioSelect (h : t.ServedFrom lim t₀) (info : HandlerInfo) :
    ∃ r, IoSelect.updateNdebug (lim.maxFdsNum + 1) info t = some (.ok r) ∧
      (r.Watches (t₀.socketsOf info) t ↔ t.NoForeign (t₀.socketsOf info) info ∧
        ∀ fd, t.Watched (t₀.socketsOf info) fd → fd < fdSetSize) := by
  have hupdate := h.updateNdebug Sockperf.ioSelect (fdRange info.fdMin info.fdMax)
    ⟨[], info.fdMin, info.fdMax⟩
  have hmem := mem_saveFds_collected (t := t) (t.socketsOf info) ⟨[], info.fdMin, info.fdMax⟩
  have hbetween : (t.collected Sockperf.ioSelect (t.socketsOf info)
      ⟨[], info.fdMin, info.fdMax⟩).Between info :=
    IoSelect.Between.collected ⟨le_rfl, le_rfl, List.forall_mem_nil _⟩
      fun l hl => (mem_socketsOf.mp hl).1
  rw [← socketsOf] at hupdate
  generalize t.collected Sockperf.ioSelect (t.socketsOf info) _ = r at hupdate hmem hbetween
  have hbits : ∀ fd, fd ∈ r.saveFds ↔ t.Watched (t₀.socketsOf info) fd ∨
      (info.fdMin ≤ fd ∧ fd ≤ info.fdMax) ∧ ∃ l, t.kernel fd = some (.connection l) := by
    intro fd
    rw [hmem fd, h.mem_records]
    exact or_iff_right List.not_mem_nil
  refine ⟨{ r with lookEnd := r.lookEnd + 1 }, ?_, ?_, ?_⟩
  · rw [IoSelect.updateNdebug, hupdate]
    rfl
  · intro hwatches
    refine ⟨?_, fun fd hfd => hwatches.room fd ((hwatches.bits fd).mpr hfd)⟩
    intro fd l hmin hmax hconn
    rcases (hwatches.bits fd).mp ((hbits fd).mpr (Or.inr ⟨⟨hmin, hmax⟩, l, hconn⟩)) with
      hown | ⟨k, hk, hkernel⟩
    · cases (h.own_other info fd hown).1.symm.trans hconn
    · cases hkernel.symm.trans hconn
      exact hk
  · rintro ⟨hforeign, hroom⟩
    have hexact : ∀ fd, fd ∈ r.saveFds ↔ t.Watched (t₀.socketsOf info) fd := by
      intro fd
      rw [hbits fd]
      constructor
      · rintro (hwatched | ⟨⟨hmin, hmax⟩, l, hconn⟩)
        · exact hwatched
        · exact Or.inr ⟨l, hforeign fd l hmin hmax hconn, hconn⟩
      · exact Or.inl
    refine ⟨hexact, ?_, fun fd hfd => hroom fd ((hexact fd).mp hfd)⟩
    intro fd hfd
    obtain ⟨hstart, hstop⟩ := hbetween.bits fd hfd
    exact ⟨hstart, Int.lt_add_one_of_le hstop⟩

end Connections

/-! ## `IoPoll` -/

namespace IoPoll
variable (r : IoPoll)

/-- The entries that `poll` is called with. -/
def entries : List Int := (List.range r.lookEnd.toNat).map fun n : Nat => r.pollFdArr n

/-- The entries that `prepareNetwork` fills in. -/
def first (info : HandlerInfo) : List Int := ({ r with lookEnd := info.fdNum } : IoPoll).entries

structure Watches (lim : Limits) (own : List Int) (t : Connections) : Prop where
  entries : ∀ fd, fd ∈ r.entries ↔ t.Watched own fd
  nodup : r.entries.Nodup
  room : r.lookEnd ≤ lim.maxFdsNum

variable {r}

theorem entries_add (hend : 0 ≤ r.lookEnd) (fd : Int) :
    (ioPoll.add r fd).entries = r.entries ++ [fd] := by
  have hnext : (r.lookEnd + 1).toNat = r.lookEnd.toNat + 1 := by omega
  unfold entries
  dsimp only [ioPoll]
  rw [hnext, List.range_succ, List.map_append, List.map_singleton]
  congr 1
  · apply List.map_congr_left
    intro n hn
    rw [List.mem_range] at hn
    exact Function.update_of_ne (by omega) _ _
  · rw [Int.toNat_of_nonneg hend, Function.update_self]

/-- The step lemma over all entries that are appended. -/
theorem foldl_add (hend : 0 ≤ r.lookEnd) (fds : List Int) :
    (fds.foldl ioPoll.add r).entries = r.entries ++ fds ∧
      (fds.foldl ioPoll.add r).lookEnd = r.lookEnd + fds.length := by
  induction fds generalizing r with
  | nil => exact ⟨(List.append_nil _).symm, (add_zero _).symm⟩
  | cons fd fds ih =>
    have hadd : (ioPoll.add r fd).lookEnd = r.lookEnd + 1 := rfl
    obtain ⟨hentries, hlookEnd⟩ := ih (r := ioPoll.add r fd) (by omega)
    rw [List.foldl_cons, hentries, hlookEnd, entries_add hend, hadd, List.length_cons,
      List.append_assoc]
    exact ⟨rfl, by push_cast; omega⟩

theorem first_eq_take (info : HandlerInfo) (hnum : info.fdNum ≤ r.lookEnd) :
    r.first info = r.entries.take info.fdNum.toNat := by
  unfold first entries
  dsimp only
  rw [← List.map_take, List.take_range, Nat.min_eq_left (Int.toNat_le_toNat hnum)]

end IoPoll

/-! ## Any run of a thread -/

/-- A thread updates its handler now and then, while all threads accept and close. -/
inductive Serve (lim : Limits) (update : Connections → ρ → Option (Except UpdateFault ρ))
    (drop : Connections → ρ → ρ) : Connections × ρ → Connections × ρ → Prop
  | event {t t' : Connections} {r : ρ} (call : Connections.Event lim t t') :
      Serve lim update drop (t, r) (t', drop t' r)
  | update {t : Connections} {r r' : ρ} (returns : update t r = some (.ok r')) :
      Serve lim update drop (t, r) (t, r')

/-- The run lemma: what the calls and the updates keep. -/
theorem Serve.invariant {lim : Limits} {update : Connections → ρ → Option (Except UpdateFault ρ)}
    {drop : Connections → ρ → ρ} {t₀ : Connections} (Inv : Connections → ρ → Prop)
    {a b : Connections × ρ} (run : Relation.ReflTransGen (Serve lim update drop) a b)
    (hserved : a.1.ServedFrom lim t₀) (hinv : Inv a.1 a.2)
    (hevent : ∀ t t' r, t.ServedFrom lim t₀ → Connections.Event lim t t' → Inv t r →
      Inv t' (drop t' r))
    (hupdate : ∀ t r r', t.ServedFrom lim t₀ → update t r = some (.ok r') → Inv t r → Inv t r') :
    b.1.ServedFrom lim t₀ ∧ Inv b.1 b.2 := by
  induction run with
  | refl => exact ⟨hserved, hinv⟩
  | tail _ hstep ih =>
    obtain ⟨hserved', hinv'⟩ := ih
    cases hstep with
    | event call => exact ⟨hserved'.event call, hevent _ _ _ hserved' call hinv'⟩
    | update returns => exact ⟨hserved', hupdate _ _ _ hserved' returns hinv'⟩

section Thread
variable {t t₀ t₁ : Connections} {lim : Limits} {info : HandlerInfo}
  (hnum : info.fdNum = (t₀.socketsOf info).length)
include hnum

theorem IoPoll.updateNdebug_entries (h : t.ServedFrom lim t₀) {r : IoPoll}
    (hown : r.first info = t₀.socketsOf info) :
    ∃ r', IoPoll.updateNdebug (lim.maxFdsNum + 1) info t r = some (.ok r') ∧
      r'.entries = t₀.socketsOf info ++ (t₀.socketsOf info).flatMap t.connectionsOf ∧
      r'.lookEnd = (t₀.socketsOf info).length +
        ((t₀.socketsOf info).flatMap t.connectionsOf).length := by
  have hend : 0 ≤ info.fdNum := by omega
  have hreturns : IoPoll.updateNdebug (lim.maxFdsNum + 1) info t r =
      some (.ok (((t₀.socketsOf info).flatMap t.connectionsOf).foldl ioPoll.add
        { r with lookStart := 0, lookEnd := info.fdNum })) := by
    rw [IoPoll.updateNdebug, h.updateNdebug, ← Connections.socketsOf,
      h.collected_own fun _ _ => rfl]
  obtain ⟨hentries, hlookEnd⟩ :=
    IoPoll.foldl_add (r := { r with lookStart := 0, lookEnd := info.fdNum }) hend
      ((t₀.socketsOf info).flatMap t.connectionsOf)
  refine ⟨_, hreturns, hentries.trans (congrArg (· ++ _) hown), hlookEnd.trans ?_⟩
  dsimp only
  rw [hnum]

theorem IoPoll.prepareNetwork_own (h : t.ServedFrom lim t₀) (hapart : t.Apart info)
    (arr : Int → Int) : (IoPoll.prepareNetwork info t arr).first info = t₀.socketsOf info := by
  obtain ⟨hentries, hlookEnd⟩ :=
    IoPoll.foldl_add (r := ⟨arr, 0, 0⟩) le_rfl (t₀.socketsOf info)
  dsimp only at hlookEnd
  have hfirst := IoPoll.first_eq_take (r := (t₀.socketsOf info).foldl ioPoll.add ⟨arr, 0, 0⟩) info
    (by omega)
  rw [hentries, hnum, Int.toNat_natCast] at hfirst
  rw [IoPoll.prepareNetwork, h.socketsOf_eq hapart]
  exact hfirst.trans List.take_length

theorem IoPoll.watches (h : t₁.ServedFrom lim t₀) (hapart : t₁.Apart info) {arr : Int → Int}
    {r : IoPoll} (run : Relation.ReflTransGen
      (Serve lim (IoPoll.updateNdebug (lim.maxFdsNum + 1) info) fun _ r => r)
      (t₁, IoPoll.prepareNetwork info t₁ arr) (t, r)) :
    ∃ r', IoPoll.updateNdebug (lim.maxFdsNum + 1) info t r = some (.ok r') ∧
      r'.Watches lim (t₀.socketsOf info) t := by
  obtain ⟨hserved, hown⟩ := Serve.invariant
    (fun _ (r : IoPoll) => r.first info = t₀.socketsOf info)
    run h (IoPoll.prepareNetwork_own hnum h hapart arr)
    (fun _ _ _ _ _ hown => hown)
    (fun t r r' hserved hreturns hown => by
      obtain ⟨r'', hreturns', hentries, hlookEnd⟩ :=
        IoPoll.updateNdebug_entries hnum hserved hown
      cases hreturns'.symm.trans hreturns
      rw [IoPoll.first_eq_take info (by omega), hentries, hnum, Int.toNat_natCast]
      exact List.take_left)
  dsimp only at hserved hown
  obtain ⟨r', hreturns, hentries, hlookEnd⟩ := IoPoll.updateNdebug_entries hnum hserved hown
  refine ⟨r', hreturns, ?_, ?_, ?_⟩
  · intro fd
    rw [hentries, hserved.watched_iff]
  · rw [hentries]
    exact hserved.consistent.nodup Connections.nodup_socketsOf fun l hl =>
      (hserved.own_other info l hl).1
  · have hevents := hserved.consistent.events_le (Connections.nodup_socketsOf (t := t₀))
      (hserved.own_other info)
    rw [hlookEnd]
    exact_mod_cast hevents

end Thread

/-! ## `IoEpoll` -/

namespace IoEpoll
variable {r : IoEpoll}

variable (r) in
structure Watches (own : List Int) (t : Connections) : Prop where
  registered : ∀ fd, fd ∈ r.interest ↔ t.Watched own fd
  events : (r.interest.dedup.length : Int) ≤ r.maxEvents

variable (r) in
/-- Between two updates: connections may be missing, but none is there that should not be. -/
structure Registered (own : List Int) (t : Connections) : Prop where
  sockets : ∀ l ∈ own, l ∈ r.interest
  watched : ∀ fd ∈ r.interest, t.Watched own fd

theorem foldl_add (lim : Limits) (fds : List Int) :
    (∀ fd, fd ∈ (fds.foldl (ioEpoll lim).add r).interest ↔ fd ∈ fds ∨ fd ∈ r.interest) ∧
      (fds.foldl (ioEpoll lim).add r).maxEvents = r.maxEvents + fds.length := by
  induction fds generalizing r with
  | nil => exact ⟨fun fd => (or_iff_right List.not_mem_nil).symm, (add_zero _).symm⟩
  | cons k fds ih =>
    obtain ⟨hmem, hevents⟩ := ih (r := (ioEpoll lim).add r k)
    have hinterest : ((ioEpoll lim).add r k).interest = k :: r.interest := rfl
    have hmore : ((ioEpoll lim).add r k).maxEvents = r.maxEvents + 1 := rfl
    refine ⟨fun fd => ?_, ?_⟩
    · rw [List.foldl_cons, hmem, hinterest, List.mem_cons, List.mem_cons, or_left_comm, or_assoc]
    · rw [List.foldl_cons, hevents, hmore, List.length_cons]
      push_cast
      omega

end IoEpoll

section Thread
variable {t t₀ t₁ : Connections} {lim : Limits} {info : HandlerInfo}

/-- A closed connection leaves the interest list before its descriptor is used again. -/
theorem Connections.Event.watched {t' : Connections} (h : t.Consistent lim)
    (he : Connections.Event lim t t') {own : List Int} {fd : Int} (hopen : t'.kernel fd ≠ none)
    (hwatched : t.Watched own fd) : t'.Watched own fd := by
  rcases he.change h with rfl | ⟨l, x, hchange, -⟩
  · exact hwatched
  rcases hwatched with hown | ⟨k, hk, hconn⟩
  · exact Or.inl hown
  refine Or.inr ⟨k, hk, ?_⟩
  by_cases hfx : fd = x
  · subst hfx
    rcases hchange.before with hbefore | hbefore
    · cases hbefore.symm.trans hconn
    · cases hbefore.symm.trans hconn
      rcases hchange.after with ⟨hclosed, -⟩ | ⟨hstill, -⟩
      · exact absurd hclosed hopen
      · exact hstill
  · rw [hchange.kernel fd hfx]
    exact hconn

theorem IoEpoll.Registered.event {t' : Connections} (h : t.ServedFrom lim t₀)
    (he : Connections.Event lim t t') {r : IoEpoll} (hr : r.Registered (t₀.socketsOf info) t) :
    (r.drop t').Registered (t₀.socketsOf info) t' where
  sockets l hl := by
    apply List.mem_filter.mpr
    rw [((h.event he).own_other info l hl).1]
    exact ⟨hr.sockets l hl, rfl⟩
  watched fd hfd := by
    obtain ⟨hmem, hopen⟩ := List.mem_filter.mp hfd
    apply he.watched h.consistent _ (hr.watched fd hmem)
    intro hclosed
    rw [hclosed] at hopen
    cases hopen

theorem IoEpoll.prepareNetwork_registered (h : t.ServedFrom lim t₀) (hapart : t.Apart info) :
    (IoEpoll.prepareNetwork lim info t).Registered (t₀.socketsOf info) t := by
  have hmem : ∀ fd, fd ∈ (IoEpoll.prepareNetwork lim info t).interest ↔
      fd ∈ t₀.socketsOf info := by
    intro fd
    rw [IoEpoll.prepareNetwork, h.socketsOf_eq hapart, (IoEpoll.foldl_add lim _).1]
    exact or_iff_left List.not_mem_nil
  exact ⟨fun l hl => (hmem l).mpr hl, fun fd hfd => Or.inl ((hmem fd).mp hfd)⟩

theorem IoEpoll.Registered.update (hnum : info.fdNum = (t₀.socketsOf info).length)
    (h : t.ServedFrom lim t₀) {r : IoEpoll} (hr : r.Registered (t₀.socketsOf info) t) :
    ∃ r', IoEpoll.updateNdebug lim (lim.maxFdsNum + 1) info t r = some (.ok r') ∧
      r'.Watches (t₀.socketsOf info) t := by
  obtain ⟨hmem, hevents⟩ := IoEpoll.foldl_add (r := ⟨r.interest, 0, info.fdNum, info.fdNum⟩) lim
    ((t₀.socketsOf info).flatMap t.connectionsOf)
  have hreturns := h.updateNdebug (ioEpoll lim) (fdRange info.fdMin info.fdMax)
    ⟨r.interest, 0, info.fdNum, info.fdNum⟩
  rw [← Connections.socketsOf, h.collected_own fun _ _ => rfl] at hreturns
  generalize ((t₀.socketsOf info).flatMap t.connectionsOf).foldl (ioEpoll lim).add _ = r'
    at hmem hevents hreturns
  dsimp only at hmem hevents
  have hexact : ∀ fd, fd ∈ r'.interest ↔ t.Watched (t₀.socketsOf info) fd := by
    intro fd
    rw [hmem fd]
    constructor
    · rintro (hconn | hfd)
      · exact h.watched_iff.mpr (List.mem_append_right _ hconn)
      · exact hr.watched fd hfd
    · intro hwatched
      rcases List.mem_append.mp (h.watched_iff.mp hwatched) with hown | hconn
      · exact Or.inr (hr.sockets fd hown)
      · exact Or.inl hconn
  refine ⟨{ r' with lookEnd := r'.maxEvents }, ?_, hexact, ?_⟩
  · rw [IoEpoll.updateNdebug, hreturns]
    rfl
  · have hsub : r'.interest.dedup ⊆
        t₀.socketsOf info ++ (t₀.socketsOf info).flatMap t.connectionsOf := by
      intro fd hfd
      exact h.watched_iff.mp ((hexact fd).mp (List.mem_dedup.mp hfd))
    have hlen := ((List.nodup_dedup r'.interest).subperm hsub).length_le
    rw [List.length_append] at hlen
    dsimp only
    rw [hevents, hnum]
    exact_mod_cast hlen

theorem IoEpoll.watches (hnum : info.fdNum = (t₀.socketsOf info).length)
    (h : t₁.ServedFrom lim t₀) (hapart : t₁.Apart info) {r : IoEpoll}
    (run : Relation.ReflTransGen
      (Serve lim (IoEpoll.updateNdebug lim (lim.maxFdsNum + 1) info) IoEpoll.drop)
      (t₁, IoEpoll.prepareNetwork lim info t₁) (t, r)) :
    ∃ r', IoEpoll.updateNdebug lim (lim.maxFdsNum + 1) info t r = some (.ok r') ∧
      r'.Watches (t₀.socketsOf info) t := by
  obtain ⟨hserved, hregistered⟩ := Serve.invariant
    (fun t (r : IoEpoll) => r.Registered (t₀.socketsOf info) t) run h
    (IoEpoll.prepareNetwork_registered h hapart)
    (fun _ _ _ hserved he hr => hr.event hserved he)
    (fun t r r' hserved hreturns hr => by
      obtain ⟨r'', hreturns', hwatches⟩ := hr.update hnum hserved
      cases hreturns'.symm.trans hreturns
      exact ⟨fun l hl => (hwatches.registered l).mpr (Or.inl hl),
        fun fd hfd => (hwatches.registered fd).mp hfd⟩)
  exact hregistered.update hnum hserved

end Thread

/-! ## All threads -/

/-- The sockets are divided between the threads. `poll` and `epoll` wait for the sockets of the
thread and their connections if no connection had a descriptor in the range when they were set
up, and `select` does as long as no connection of another thread has one and all of them fit into
an `fd_set`. -/
theorem threads_watch_own (lim : Limits) {t₀ : Connections} (start : Connections.Initial lim t₀)
    (threadsNum : Nat) (hpos : 0 < threadsNum) (hle : threadsNum ≤ (t₀.allSockets lim).length) :
    ∃ infos, t₀.serverSelectPerThread (lim.maxFdsNum + 1) threadsNum (t₀.allSockets lim).length =
        some infos ∧
      infos.length = threadsNum ∧ infos.flatMap t₀.socketsOf = t₀.allSockets lim ∧
      ∀ info ∈ infos,
        (∀ t, Relation.ReflTransGen (Connections.Event lim) t₀ t →
          ∃ r, IoSelect.updateNdebug (lim.maxFdsNum + 1) info t = some (.ok r) ∧
            (r.Watches (t₀.socketsOf info) t ↔ t.NoForeign (t₀.socketsOf info) info ∧
              ∀ fd, t.Watched (t₀.socketsOf info) fd → fd < fdSetSize)) ∧
        ∀ t₁, Relation.ReflTransGen (Connections.Event lim) t₀ t₁ → t₁.Apart info →
          (∀ arr t r, Relation.ReflTransGen
              (Serve lim (IoPoll.updateNdebug (lim.maxFdsNum + 1) info) fun _ r => r)
              (t₁, IoPoll.prepareNetwork info t₁ arr) (t, r) →
            ∃ r', IoPoll.updateNdebug (lim.maxFdsNum + 1) info t r = some (.ok r') ∧
              r'.Watches lim (t₀.socketsOf info) t) ∧
          ∀ t r, Relation.ReflTransGen
              (Serve lim (IoEpoll.updateNdebug lim (lim.maxFdsNum + 1) info) IoEpoll.drop)
              (t₁, IoEpoll.prepareNetwork lim info t₁) (t, r) →
            ∃ r', IoEpoll.updateNdebug lim (lim.maxFdsNum + 1) info t r = some (.ok r') ∧
              r'.Watches (t₀.socketsOf info) t := by
  obtain ⟨infos, hinfos, hcount, hall, hnums⟩ :=
    Connections.serverSelectPerThread_returns hpos hle
  refine ⟨infos, hinfos, hcount, hall, fun info hinfo => ⟨?_, ?_⟩⟩
  · intro t run
    exact (start.servedFrom.run run).ioSelect info
  · intro t₁ run hapart
    have hserved := start.servedFrom.run run
    refine ⟨?_, ?_⟩
    · intro arr t r hserve
      exact IoPoll.watches (hnums info hinfo) hserved hapart hserve
    · intro t r hserve
      exact IoEpoll.watches (hnums info hinfo) hserved hapart hserve

/-! ## A gap between the sockets -/

/-- Three sockets, with a free descriptor between the first two. -/
def gapStart : Connections where
  fdsArray fd := if fd = 3 ∨ fd = 5 ∨ fd = 7 then some tcpListener else none
  kernel fd := if fd = 3 ∨ fd = 5 ∨ fd = 7 then some .other else none

theorem gapStart_initial : Connections.Initial tcpLimits gapStart where
  sockets fd data hdata := by
    have hfd : fd = 3 ∨ fd = 5 ∨ fd = 7 := by
      by_contra hne
      cases (if_neg hne).symm.trans hdata
    have hopen : gapStart.kernel fd = some .other := if_pos hfd
    cases (if_pos hfd).symm.trans hdata
    exact ⟨by omega, by rcases hfd with rfl | rfl | rfl <;> decide, hopen, rfl, rfl⟩
  connections fd l hconn := by
    unfold gapStart at hconn
    dsimp only at hconn
    split at hconn
    · cases hconn
    · cases hconn

/-- A client of the second thread gets the free descriptor. -/
def gapTaken : Connections := (gapStart.serverAccept tcpLimits (accepts 4) 7).table

theorem gapTaken_run : Relation.ReflTransGen (Connections.Event tcpLimits) gapStart gapTaken :=
  Relation.ReflTransGen.single (.accept 7 (accepts 4) (by decide) fun _ => rfl)

theorem threads_watch_own_gap : gapStart.serverSelectPerThread 9 2 3 = some [⟨3, 5, 2⟩, ⟨7, 7, 1⟩] ∧
    ∃ r, IoSelect.updateNdebug 9 ⟨7, 7, 1⟩ gapTaken = some (.ok r) ∧ r.Watches [7] gapTaken := by
  have hdivision : gapStart.serverSelectPerThread 9 2 3 = some [⟨3, 5, 2⟩, ⟨7, 7, 1⟩] := rfl
  obtain ⟨infos, hinfos, -, -, hthreads⟩ :=
    threads_watch_own tcpLimits gapStart_initial 2 (by decide) (by decide)
  cases hdivision.symm.trans hinfos
  obtain ⟨r, hr, hwatches⟩ := (hthreads ⟨7, 7, 1⟩ (by simp)).1 gapTaken gapTaken_run
  refine ⟨hdivision, r, hr, hwatches.mpr ⟨?_, ?_⟩⟩
  · intro fd l hmin hmax hconn
    obtain rfl : fd = 7 := le_antisymm hmax hmin
    cases hconn
  · intro fd hfd
    have hlt := (gapStart_initial.servedFrom.run gapTaken_run).watched_lt hfd
    exact hlt.trans (by decide)

/-- The first thread then waits for it too; with assertions, it stops the process. -/
theorem foreign_connection_watched :
    gapStart.serverSelectPerThread 9 2 3 = some [⟨3, 5, 2⟩, ⟨7, 7, 1⟩] ∧
    Relation.ReflTransGen (Connections.Event tcpLimits) gapStart gapTaken ∧
    gapTaken.kernel 4 = some (.connection 7) ∧
    (∃ r, IoSelect.updateNdebug 9 ⟨3, 5, 2⟩ gapTaken = some (.ok r) ∧ r.saveFds = [5, 4, 3]) ∧
    (∃ r, IoSelect.updateNdebug 9 ⟨7, 7, 1⟩ gapTaken = some (.ok r) ∧ r.saveFds = [4, 7]) ∧
    IoSelect.update tcpLimits gapTaken 9 ⟨3, 5, 2⟩ = some (.error .corrupted) :=
  ⟨rfl, gapTaken_run, rfl, ⟨_, rfl, rfl⟩, ⟨_, rfl, rfl⟩, rfl⟩

end Sockperf
