import Mathlib.Data.List.Nodup
import Mathlib.Data.List.Perm.Subperm
import Sockperf.Connections

/-!
# Reading the connection table

`update` of an I/O handler goes over the sockets of its thread and collects
their connections. The handlers differ in what they collect, and two of them
check the number of events in every turn of the loop.
-/

namespace Sockperf

open Slots While
set_option autoImplicit false

universe v
variable {ρ : Type v}

/-- What one kind of handler does in `update`. -/
structure IoHandler (ρ : Type v) where
  /-- at a socket of its own -/
  listen : ρ → Int → ρ
  /-- at a connection -/
  add : ρ → Int → ρ
  /-- the assertion of its own in the loop -/
  check : ρ → Bool

inductive UpdateFault where
  | corrupted
  | scan (fault : Slots.Fault)
  deriving DecidableEq, Repr

/-- The descriptors from `m_fd_min` to `m_fd_max`. -/
def fdRange (fdMin fdMax : Int) : List Int :=
  (List.range (fdMax + 1 - fdMin).toNat).map fun n : Nat => fdMin + (n : Int)

namespace IoHandler
variable (io : IoHandler ρ) (lim : Limits) (t : Connections)

def visit (ifd : Int) (r : ρ) (fd : Int) : ρ := if fd ≠ ifd then io.add r fd else r

/-- `while (active_fd_count)` -/
def scan (ifd : Int) (list : List Int) : Scan ρ → Turn (Scan ρ) (Except Slots.Fault (Scan ρ)) :=
  scanTurn invalidSocket list lim.maxFdsNum (io.visit ifd) io.check

/-- The sockets one after the other, with a bound on the turns of each loop. -/
def updateLoop (fuel : Nat) : List Int → ρ → Option (Except UpdateFault ρ)
  | [], r => some (.ok r)
  | ifd :: ifds, r =>
    match t.fdsArray ifd with
    | none => updateLoop fuel ifds r
    | some data =>
      match data.activeFdList with
      | none => some (.error .corrupted)
      | some list =>
        match iterate (io.scan lim ifd list) fuel ⟨0, data.activeFdCount, io.listen r ifd⟩ with
        | none => none
        | some (.error fault) => some (.error (.scan fault))
        | some (.ok s) => updateLoop fuel ifds s.seen

def update (fuel : Nat) (fdMin fdMax : Int) (r : ρ) : Option (Except UpdateFault ρ) :=
  io.updateLoop lim t fuel (fdRange fdMin fdMax) r

end IoHandler

/-! ## The handlers -/

structure HandlerInfo where
  fdMin : Int
  fdMax : Int
  fdNum : Int

section Handlers
variable (lim : Limits) (t : Connections) (fuel : Nat) (info : HandlerInfo)

structure IoSelect where
  saveFds : List Int
  lookStart : Int
  lookEnd : Int

def ioSelect : IoHandler IoSelect where
  listen r ifd := { r with saveFds := ifd :: r.saveFds }
  add r fd := ⟨fd :: r.saveFds, min r.lookStart fd, max r.lookEnd fd⟩
  check _ := true

def IoSelect.update : Option (Except UpdateFault IoSelect) :=
  (ioSelect.update lim t fuel info.fdMin info.fdMax ⟨[], info.fdMin, info.fdMax⟩).map
    (Except.map fun r => { r with lookEnd := r.lookEnd + 1 })

structure IoPoll where
  pollFdArr : Int → Int
  lookStart : Int
  lookEnd : Int

def ioPoll : IoHandler IoPoll where
  listen r _ := r
  add r fd :=
    { r with pollFdArr := Function.update r.pollFdArr r.lookEnd fd, lookEnd := r.lookEnd + 1 }
  check _ := true

def IoPoll.update (r : IoPoll) : Option (Except UpdateFault IoPoll) :=
  ioPoll.update lim t fuel info.fdMin info.fdMax { r with lookStart := 0, lookEnd := info.fdNum }

structure IoEpoll where
  /-- the interest list of `m_epfd` -/
  interest : List Int
  lookStart : Int
  lookEnd : Int
  maxEvents : Int

def ioEpoll : IoHandler IoEpoll where
  listen r _ := r
  add r fd := { r with interest := fd :: r.interest, maxEvents := r.maxEvents + 1 }
  check r := r.maxEvents < lim.maxFdsNum

def IoEpoll.update (r : IoEpoll) : Option (Except UpdateFault IoEpoll) :=
  ((ioEpoll lim).update lim t fuel info.fdMin info.fdMax
    ⟨r.interest, 0, info.fdNum, info.fdNum⟩).map
    (Except.map fun r => { r with lookEnd := r.maxEvents })

structure IoKqueue where
  kqueueChanges : Int → Int
  changeNum : Int
  lookStart : Int
  lookEnd : Int
  maxEvents : Int

def ioKqueue : IoHandler IoKqueue where
  listen r _ := r
  add r fd := { r with
    kqueueChanges := Function.update r.kqueueChanges r.changeNum fd
    changeNum := r.changeNum + 1
    maxEvents := r.maxEvents + 1 }
  check r := r.maxEvents < lim.maxFdsNum

/-- `IoKqueue::update` up to `kevent` -/
def IoKqueue.update (r : IoKqueue) : Option (Except UpdateFault IoKqueue) :=
  ((ioKqueue lim).update lim t fuel info.fdMin info.fdMax
    ⟨r.kqueueChanges, 0, 0, info.fdNum, info.fdNum⟩).map
    (Except.map fun r => { r with lookEnd := r.maxEvents })

structure IoRecvfromMUX where
  fdMinAll : Int
  fdMaxAll : Int
  lookStart : Int

def ioRecvfromMUX : IoHandler IoRecvfromMUX where
  listen r _ := r
  add r fd := { r with fdMinAll := min r.fdMinAll fd, fdMaxAll := max r.fdMaxAll fd }
  check _ := true

def IoRecvfromMUX.update (r : IoRecvfromMUX) : Option (Except UpdateFault IoRecvfromMUX) :=
  (ioRecvfromMUX.update lim t fuel info.fdMin info.fdMax
    ⟨info.fdMin, info.fdMax, r.lookStart⟩).map
    (Except.map fun r => { r with
      lookStart :=
        if r.lookStart > info.fdMax ∨ r.lookStart < info.fdMin then info.fdMax
        else if r.lookStart = info.fdMax then r.fdMinAll - 1
        else r.lookStart })

/-- `IoSocketxtreme` only walks over the connections. -/
def ioSocketxtreme : IoHandler Unit where
  listen r _ := r
  add r _ := r
  check _ := true

def IoSocketxtreme.update : Option (Except UpdateFault Unit) :=
  ioSocketxtreme.update lim t fuel info.fdMin info.fdMax ()

end Handlers

/-! ## One socket -/

/-- The assertion of a handler holds as long as `size` does not exceed `bound`, and a connection
makes it larger by one at most. -/
structure IoHandler.Budget (io : IoHandler ρ) (size : ρ → Int) (bound : Int) : Prop where
  listen : ∀ r ifd, size (io.listen r ifd) ≤ size r
  add : ∀ r fd, size (io.add r fd) ≤ size r + 1
  check : ∀ r, size r ≤ bound → io.check r = true

namespace IoHandler
variable {io : IoHandler ρ} {size : ρ → Int} {bound : Int} {lim : Limits} {t : Connections}

theorem Budget.foldl (h : io.Budget size bound) (fds : List Int) (r : ρ) :
    size (fds.foldl io.add r) ≤ size r + fds.length := by
  induction fds generalizing r with
  | nil => simp
  | cons fd fds ih =>
    have hadd := h.add r fd
    have hrest := ih (io.add r fd)
    rw [List.foldl_cons, List.length_cons]
    omega

theorem foldl_visit {ifd : Int} {fds : List Int} (h : ifd ∉ fds) (r : ρ) :
    fds.foldl (io.visit ifd) r = fds.foldl io.add r := by
  induction fds generalizing r with
  | nil => rfl
  | cons fd fds ih =>
    obtain ⟨hne, hnot⟩ := not_or.mp (fun hmem => h (List.mem_cons.mpr hmem))
    rw [List.foldl_cons, List.foldl_cons, visit, if_pos (Ne.symm hne)]
    exact ih hnot _

end IoHandler

namespace Connections
variable {t : Connections} {lim : Limits} {io : IoHandler ρ} {size : ρ → Int} {bound : Int}

theorem Consistent.scan (h : t.Consistent lim) {l : Int} {data : FdsRecord} {list : List Int}
    (hdata : t.fdsArray l = some data) (hlist : data.activeFdList = some list)
    (hbudget : io.Budget size bound) {r : ρ}
    (hsize : size r + (used invalidSocket list).length ≤ bound) :
    ∃ i, i < lim.maxFdsNum ∧ iterate (io.scan lim l list) (lim.maxFdsNum + 1)
      ⟨0, data.activeFdCount, r⟩ = some (.ok ⟨i, 0, (used invalidSocket list).foldl io.add r⟩) := by
  obtain ⟨hother, hlistens⟩ := h.listener l data list hdata hlist
  have hself : l ∉ used invalidSocket list := by
    rw [hlistens.mem, hother]
    exact fun heq => nomatch heq
  have hpos : lim.maxFdsNum - 1 < lim.maxFdsNum := by
    have := h.range l data hdata
    omega
  rw [hlistens.count, ← hlistens.length, ← IoHandler.foldl_visit hself]
  rw [IoHandler.scan, hlistens.length]
  have hscan := scan_returns (io.visit l) io.check r hlistens.within hpos (by
      intro fds hfirst
      have hnot : l ∉ fds := fun hmem => hself (hfirst.subset hmem)
      rw [IoHandler.foldl_visit hnot]
      apply hbudget.check
      have hfold := hbudget.foldl fds r
      have hlen := hfirst.length_le
      omega)
  rw [hlistens.length] at hscan
  exact hscan

/-! ## All sockets of a handler -/

variable (t) in
/-- The descriptors in the slots of a socket. -/
def connectionsOf (ifd : Int) : List Int :=
  match t.fdsArray ifd with
  | none => []
  | some data =>
    match data.activeFdList with
    | none => []
    | some list => used invalidSocket list

variable (t io) in
/-- What a handler collects from its sockets. -/
def collected (sockets : List Int) (r : ρ) : ρ :=
  sockets.foldl (fun r l => (t.connectionsOf l).foldl io.add (io.listen r l)) r

variable (t) in
/-- The descriptors that have a record. -/
def sockets (ifds : List Int) : List Int := ifds.filter fun ifd => (t.fdsArray ifd).isSome

theorem connectionsOf_eq {l : Int} {data : FdsRecord} {list : List Int}
    (hdata : t.fdsArray l = some data) (hlist : data.activeFdList = some list) :
    t.connectionsOf l = used invalidSocket list := by
  rw [connectionsOf, hdata]
  dsimp only
  rw [hlist]

theorem mem_connectionsOf (h : t.Consistent lim) {l fd : Int} :
    fd ∈ t.connectionsOf l ↔ t.kernel fd = some (.connection l) := by
  constructor
  · intro hmem
    unfold connectionsOf at hmem
    cases hdata : t.fdsArray l with
    | none =>
      rw [hdata] at hmem
      cases hmem
    | some data =>
      rw [hdata] at hmem
      dsimp only at hmem
      cases hlist : data.activeFdList with
      | none =>
        rw [hlist] at hmem
        cases hmem
      | some list =>
        rw [hlist] at hmem
        exact ((h.listener l data list hdata hlist).2.mem fd).mp hmem
  · intro hconn
    obtain ⟨-, data, list, hdata, hlist⟩ := h.connection fd l hconn
    rw [connectionsOf_eq hdata hlist]
    exact ((h.listener l data list hdata hlist).2.mem fd).mpr hconn

theorem nodup_connectionsOf (h : t.Consistent lim) (l : Int) : (t.connectionsOf l).Nodup := by
  unfold connectionsOf
  split
  · exact List.nodup_nil
  · next data hdata =>
    split
    · exact List.nodup_nil
    · next list hlist => exact (h.listener l data list hdata hlist).2.nodup

theorem sockets_none {ifd : Int} (hdata : t.fdsArray ifd = none) (ifds : List Int) :
    t.sockets (ifd :: ifds) = t.sockets ifds := by
  rw [sockets, List.filter_cons_of_neg (by rw [hdata]; simp), ← sockets]

theorem sockets_some {ifd : Int} {data : FdsRecord} (hdata : t.fdsArray ifd = some data)
    (ifds : List Int) : t.sockets (ifd :: ifds) = ifd :: t.sockets ifds := by
  rw [sockets, List.filter_cons_of_pos (by rw [hdata]; rfl), ← sockets]

section Update
variable (h : t.Consistent lim) (hbudget : io.Budget size bound) {ifds : List Int}

omit hbudget in
theorem updateLoop_none {fuel : Nat} {ifd : Int} (hdata : t.fdsArray ifd = none) (r : ρ) :
    io.updateLoop lim t fuel (ifd :: ifds) r = io.updateLoop lim t fuel ifds r := by
  rw [IoHandler.updateLoop, hdata]

include h hbudget

variable (ifds) in
/-- The step lemma: one socket. -/
theorem Consistent.updateLoop_socket {ifd : Int} {data : FdsRecord} {list : List Int}
    (hdata : t.fdsArray ifd = some data) (hlist : data.activeFdList = some list) {r : ρ}
    (hsize : size r + (t.connectionsOf ifd).length ≤ bound) :
    io.updateLoop lim t (lim.maxFdsNum + 1) (ifd :: ifds) r =
      io.updateLoop lim t (lim.maxFdsNum + 1) ifds
        ((t.connectionsOf ifd).foldl io.add (io.listen r ifd)) ∧
    size ((t.connectionsOf ifd).foldl io.add (io.listen r ifd)) ≤
      size r + (t.connectionsOf ifd).length := by
  have hlisten := hbudget.listen r ifd
  have hfold := hbudget.foldl (t.connectionsOf ifd) (io.listen r ifd)
  refine ⟨?_, by omega⟩
  rw [connectionsOf_eq hdata hlist] at hsize ⊢
  obtain ⟨i, -, hscan⟩ := h.scan hdata hlist hbudget (r := io.listen r ifd) (by omega)
  rw [IoHandler.updateLoop, hdata]
  dsimp only
  rw [hlist]
  dsimp only
  rw [hscan]

theorem Consistent.updateLoop (hsockets : ∀ ifd ∈ ifds, ∀ l, t.kernel ifd ≠ some (.connection l))
    {r : ρ} (hsize : size r + (ifds.flatMap t.connectionsOf).length ≤ bound) :
    io.updateLoop lim t (lim.maxFdsNum + 1) ifds r =
      some (.ok (t.collected io (t.sockets ifds) r)) := by
  induction ifds generalizing r with
  | nil => rfl
  | cons ifd ifds ih =>
    have hrest : ∀ k ∈ ifds, ∀ l, t.kernel k ≠ some (.connection l) :=
      fun k hk => hsockets k (List.mem_cons_of_mem _ hk)
    rw [List.flatMap_cons, List.length_append] at hsize
    cases hdata : t.fdsArray ifd with
    | none =>
      rw [updateLoop_none hdata, sockets_none hdata]
      exact ih hrest (by omega)
    | some data =>
      rw [sockets_some hdata]
      cases hlist : data.activeFdList with
      | none =>
        obtain ⟨l, hconn⟩ := h.slotless ifd data hdata hlist
        exact absurd hconn (hsockets ifd List.mem_cons_self l)
      | some list =>
        obtain ⟨hstep, hle⟩ := h.updateLoop_socket hbudget ifds hdata hlist (r := r) (by omega)
        rw [hstep]
        exact ih hrest (by omega)

/-- A connection among them trips `assert(active_fd_list)`, because its record has no slots. -/
theorem Consistent.updateLoop_corrupted {fd l : Int} (hfd : fd ∈ ifds)
    (hconn : t.kernel fd = some (.connection l)) {r : ρ}
    (hsize : size r + (ifds.flatMap t.connectionsOf).length ≤ bound) :
    io.updateLoop lim t (lim.maxFdsNum + 1) ifds r = some (.error .corrupted) := by
  induction ifds generalizing r with
  | nil => cases hfd
  | cons ifd ifds ih =>
    rw [List.flatMap_cons, List.length_append] at hsize
    cases hdata : t.fdsArray ifd with
    | none =>
      have hne : fd ≠ ifd := by
        intro heq
        obtain ⟨⟨data, hrecord, -⟩, -⟩ := h.connection fd l hconn
        rw [heq, hdata] at hrecord
        cases hrecord
      rw [updateLoop_none hdata]
      exact ih ((List.mem_cons.mp hfd).resolve_left hne) (by omega)
    | some data =>
      cases hlist : data.activeFdList with
      | none =>
        rw [IoHandler.updateLoop, hdata]
        dsimp only
        rw [hlist]
      | some list =>
        have hne : ifd ≠ fd := h.ne_of_list hdata hlist fun heq => nomatch hconn.symm.trans heq
        obtain ⟨hstep, hle⟩ := h.updateLoop_socket hbudget ifds hdata hlist (r := r) (by omega)
        rw [hstep]
        exact ih ((List.mem_cons.mp hfd).resolve_left hne.symm) (by omega)

end Update

/-! ## The number of events -/

theorem Consistent.nodup (h : t.Consistent lim) {sockets : List Int} (hnodup : sockets.Nodup)
    (hlisten : ∀ l ∈ sockets, t.kernel l = some .other) :
    (sockets ++ sockets.flatMap t.connectionsOf).Nodup := by
  apply List.Nodup.append hnodup
  · apply List.nodup_flatMap.mpr
    refine ⟨fun l _ => nodup_connectionsOf h l, ?_⟩
    apply hnodup.imp
    intro l k hne fd hl hk
    rw [mem_connectionsOf h] at hl hk
    cases hl.symm.trans hk
    exact hne rfl
  · intro fd hfd hconn
    obtain ⟨l, -, hmem⟩ := List.mem_flatMap.mp hconn
    cases (hlisten fd hfd).symm.trans ((mem_connectionsOf h).mp hmem)

theorem length_le_of_nodup {n : Nat} {fds : List Int} (hnodup : fds.Nodup)
    (hrange : ∀ fd ∈ fds, 0 ≤ fd ∧ fd < n) : fds.length ≤ n := by
  have hsub : fds ⊆ (List.range n).map fun k : Nat => (k : Int) := by
    intro fd hfd
    obtain ⟨hpos, hlt⟩ := hrange fd hfd
    exact List.mem_map.mpr ⟨fd.toNat, List.mem_range.mpr (by omega), by omega⟩
  have hlen := (hnodup.subperm hsub).length_le
  rwa [List.length_map, List.length_range] at hlen

section Events
variable (h : t.Consistent lim) {sockets : List Int} (hnodup : sockets.Nodup)
  (hlisten : ∀ l ∈ sockets, t.kernel l = some .other ∧ (t.fdsArray l).isSome = true)
include h hlisten

theorem Consistent.record_of_mem {fd : Int}
    (hfd : fd ∈ sockets ++ sockets.flatMap t.connectionsOf) : (t.fdsArray fd).isSome = true := by
  rcases List.mem_append.mp hfd with hfd | hfd
  · exact (hlisten fd hfd).2
  · obtain ⟨l, -, hmem⟩ := List.mem_flatMap.mp hfd
    obtain ⟨⟨data, hdata, -⟩, -⟩ := h.connection fd l ((mem_connectionsOf h).mp hmem)
    rw [hdata]
    rfl

theorem Consistent.range_of_mem {fd : Int}
    (hfd : fd ∈ sockets ++ sockets.flatMap t.connectionsOf) : 0 ≤ fd ∧ fd < lim.maxFdsNum := by
  obtain ⟨data, hdata⟩ := Option.isSome_iff_exists.mp (h.record_of_mem hlisten hfd)
  exact h.range fd data hdata

include hnodup

theorem Consistent.events_le :
    sockets.length + (sockets.flatMap t.connectionsOf).length ≤ lim.maxFdsNum := by
  rw [← List.length_append]
  apply length_le_of_nodup (h.nodup hnodup fun l hl => (hlisten l hl).1)
  intro fd hfd
  exact h.range_of_mem hlisten hfd

theorem Consistent.events_lt {spare : Int} (hspare : t.fdsArray spare = none) (hpos : 0 ≤ spare)
    (hlt : spare < lim.maxFdsNum) :
    sockets.length + (sockets.flatMap t.connectionsOf).length < lim.maxFdsNum := by
  have hall := h.nodup hnodup fun l hl => (hlisten l hl).1
  have hnew : spare ∉ sockets ++ sockets.flatMap t.connectionsOf := by
    intro hmem
    have hrecord := h.record_of_mem hlisten hmem
    rw [hspare] at hrecord
    cases hrecord
  have hlen : (spare :: (sockets ++ sockets.flatMap t.connectionsOf)).length ≤ lim.maxFdsNum := by
    apply length_le_of_nodup (List.nodup_cons.mpr ⟨hnew, hall⟩)
    intro fd hfd
    rcases List.mem_cons.mp hfd with rfl | hfd
    · exact ⟨hpos, hlt⟩
    · exact h.range_of_mem hlisten hfd
  rw [List.length_cons, List.length_append] at hlen
  omega

end Events

end Connections

/-! ## The handlers on a consistent table -/

theorem IoHandler.budget_unchecked (io : IoHandler ρ) (hcheck : ∀ r, io.check r = true)
    (bound : Int) : io.Budget (fun _ => 0) bound :=
  ⟨fun _ _ => le_rfl, fun _ _ => by omega, fun r _ => hcheck r⟩

theorem budget_ioEpoll (lim : Limits) :
    (ioEpoll lim).Budget IoEpoll.maxEvents (lim.maxFdsNum - 1) := by
  refine ⟨fun _ _ => le_rfl, fun _ _ => le_rfl, fun r hr => ?_⟩
  simp only [ioEpoll, decide_eq_true_eq]
  omega

namespace Connections
variable {t : Connections} {lim : Limits} {info : HandlerInfo}

variable (t) in
/-- The sockets that a handler goes over. -/
def socketsOf (info : HandlerInfo) : List Int := t.sockets (fdRange info.fdMin info.fdMax)

variable (t) in
/-- No connection has a descriptor among those of the sockets. -/
def Apart (info : HandlerInfo) : Prop :=
  ∀ ifd ∈ fdRange info.fdMin info.fdMax, ∀ l, t.kernel ifd ≠ some (.connection l)

theorem nodup_fdRange (fdMin fdMax : Int) : (fdRange fdMin fdMax).Nodup := by
  apply List.Nodup.map _ List.nodup_range
  intro a b hab
  dsimp only at hab
  omega

theorem flatMap_filter_of_nil {α β : Type*} {p : α → Bool} {f : α → List β} {xs : List α}
    (h : ∀ x ∈ xs, ¬ p x = true → f x = []) : (xs.filter p).flatMap f = xs.flatMap f := by
  induction xs with
  | nil => rfl
  | cons x xs ih =>
    have hrest := ih fun y hy => h y (List.mem_cons_of_mem x hy)
    by_cases hx : p x = true
    · rw [List.filter_cons_of_pos hx, List.flatMap_cons, List.flatMap_cons, hrest]
    · rw [List.filter_cons_of_neg hx, List.flatMap_cons, h x List.mem_cons_self hx, hrest]
      rfl

theorem flatMap_sockets (ifds : List Int) :
    (t.sockets ifds).flatMap t.connectionsOf = ifds.flatMap t.connectionsOf := by
  apply flatMap_filter_of_nil
  intro ifd _ hnone
  rw [connectionsOf, Option.not_isSome_iff_eq_none.mp hnone]

theorem Consistent.socketsOf_other (h : t.Consistent lim) (hapart : t.Apart info) :
    ∀ l ∈ t.socketsOf info, t.kernel l = some .other ∧ (t.fdsArray l).isSome = true := by
  intro l hl
  obtain ⟨hrange, hsome⟩ := List.mem_filter.mp hl
  refine ⟨?_, hsome⟩
  cases hkernel : t.kernel l with
  | none =>
    rw [h.opened l hkernel] at hsome
    cases hsome
  | some d =>
    cases d with
    | other => rfl
    | connection k => exact absurd hkernel (hapart l hrange k)

theorem mem_saveFds (fds : List Int) (r : IoSelect) {fd : Int} :
    fd ∈ (fds.foldl ioSelect.add r).saveFds ↔ fd ∈ fds ∨ fd ∈ r.saveFds := by
  induction fds generalizing r with
  | nil => simp
  | cons k fds ih =>
    rw [List.foldl_cons, ih, List.mem_cons, ioSelect, List.mem_cons]
    tauto

theorem mem_saveFds_collected (sockets : List Int) (r : IoSelect) (fd : Int) :
    fd ∈ (t.collected ioSelect sockets r).saveFds ↔
      fd ∈ r.saveFds ∨ ∃ l ∈ sockets, fd = l ∨ fd ∈ t.connectionsOf l := by
  induction sockets generalizing r with
  | nil => simp [collected]
  | cons l sockets ih =>
    rw [collected, List.foldl_cons, ← collected, ih, mem_saveFds, List.exists_mem_cons_iff, ioSelect,
      List.mem_cons]
    generalize (∃ l ∈ sockets, fd = l ∨ fd ∈ t.connectionsOf l) = P
    tauto

theorem Consistent.update (h : t.Consistent lim) {io : IoHandler ρ} {size : ρ → Int} {bound : Int}
    (hbudget : io.Budget size bound) (hapart : t.Apart info) {r : ρ}
    (hsize : size r + ((t.socketsOf info).flatMap t.connectionsOf).length ≤ bound) :
    io.update lim t (lim.maxFdsNum + 1) info.fdMin info.fdMax r =
      some (.ok (t.collected io (t.socketsOf info) r)) := by
  rw [socketsOf, flatMap_sockets] at hsize
  exact h.updateLoop hbudget hapart hsize

end Connections

/-- Over every run the slots, the counter and the records of each socket agree, and whoever reads
the slots by the counter finds exactly the open connections. -/
theorem connection_table_consistent (lim : Limits) {t₀ t : Connections}
    (start : Connections.Initial lim t₀)
    (run : Relation.ReflTransGen (Connections.Step lim) t₀ t) :
    (∀ l data list, t.fdsArray l = some data → data.activeFdList = some list →
      data.activeFdCount = (used invalidSocket list).length ∧
      (used invalidSocket list).Nodup ∧
      (∀ i fd, list[i]? = some fd → fd ≠ invalidSocket → i + 2 ≤ lim.maxFdsNum) ∧
      (∀ fd ∈ used invalidSocket list,
        ∃ conn, t.fdsArray fd = some conn ∧ conn.nextFd = l) ∧
      (∀ fd, fd ∈ used invalidSocket list ↔ t.kernel fd = some (.connection l)) ∧
      ∀ (io : IoHandler ρ) (size : ρ → Int) (bound : Int) (r : ρ), io.Budget size bound →
        size r + (used invalidSocket list).length ≤ bound →
        ∃ i, i < lim.maxFdsNum ∧ Returns (io.scan lim l list) ⟨0, data.activeFdCount, r⟩
          (.ok ⟨i, 0, (used invalidSocket list).foldl io.add r⟩)) ∧
    (∀ l l' data data' list list' fd, t.fdsArray l = some data → t.fdsArray l' = some data' →
      data.activeFdList = some list → data'.activeFdList = some list' →
      fd ∈ used invalidSocket list → fd ∈ used invalidSocket list' → l = l') ∧
    (∀ fd conn l, t.fdsArray fd = some conn → t.kernel fd = some (.connection l) →
      ∃ t', t.closeIfd conn.nextFd fd = some t') ∧
    (∀ info, t.Apart info →
      (∀ (io : IoHandler ρ) (size : ρ → Int) (bound : Int) (r : ρ), io.Budget size bound →
        size r + ((t.socketsOf info).flatMap t.connectionsOf).length ≤ bound →
        io.update lim t (lim.maxFdsNum + 1) info.fdMin info.fdMax r =
          some (.ok (t.collected io (t.socketsOf info) r))) ∧
      (t.socketsOf info).length + ((t.socketsOf info).flatMap t.connectionsOf).length ≤
        lim.maxFdsNum ∧
      ((∃ spare, t.fdsArray spare = none ∧ 0 ≤ spare ∧ spare < lim.maxFdsNum) →
        (t.socketsOf info).length + ((t.socketsOf info).flatMap t.connectionsOf).length <
          lim.maxFdsNum)) := by
  have h := start.run run
  refine ⟨?_, ?_, ?_, ?_⟩
  · intro l data list hdata hlist
    obtain ⟨-, hlistens⟩ := h.listener l data list hdata hlist
    refine ⟨hlistens.count, hlistens.nodup, ?_, ?_, hlistens.mem, ?_⟩
    · intro i fd hfd hne
      have hlt := hlistens.within i fd hfd hne
      omega
    · intro fd hfd
      obtain ⟨⟨conn, hconn, hnext, -⟩, -⟩ := h.connection fd l ((hlistens.mem fd).mp hfd)
      exact ⟨conn, hconn, hnext⟩
    · intro io size bound r hbudget hsize
      obtain ⟨i, hi, hscan⟩ := h.scan hdata hlist hbudget hsize
      exact ⟨i, hi, _, hscan⟩
  · intro l l' data data' list list' fd hdata hdata' hlist hlist' hmem hmem'
    have hl := ((h.listener l data list hdata hlist).2.mem fd).mp hmem
    have hl' := ((h.listener l' data' list' hdata' hlist').2.mem fd).mp hmem'
    cases hl.symm.trans hl'
    rfl
  · intro fd conn l hconn hkernel
    obtain ⟨⟨conn', hconn', hnext, -⟩, data, list, hdata, hlist⟩ := h.connection fd l hkernel
    cases hconn'.symm.trans hconn
    rw [hnext]
    have hvalid : fd ≠ invalidSocket := by
      intro heq
      have hpos := (h.range fd conn hconn).1
      rw [heq] at hpos
      exact absurd hpos (by decide)
    obtain ⟨t', ht', -⟩ := h.close_change hdata hlist hvalid
    exact ⟨t', ht'⟩
  · intro info hapart
    have hnodup := (Connections.nodup_fdRange info.fdMin info.fdMax).filter
      fun ifd => (t.fdsArray ifd).isSome
    refine ⟨?_, h.events_le hnodup (h.socketsOf_other hapart), ?_⟩
    · intro io size bound r hbudget hsize
      exact h.update hbudget hapart hsize
    rintro ⟨spare, hspare, hpos, hlt⟩
    exact h.events_lt hnodup (h.socketsOf_other hapart) hspare hpos hlt

/-! ## A slot is used again -/

def tcpLimits : Limits := ⟨8, 65507⟩

def tcpListener : FdsRecord where
  serverAddr := .inet 1 1
  isMulticast := false
  isStream := true
  membershipsSize := 0
  nextFd := 3
  activeFdCount := 0
  activeFdList := some (List.replicate 8 invalidSocket)
  recv := freshRecv 0 65507
  tlsHandle := none

/-- A server on one TCP socket. -/
def tcpStart : Connections where
  fdsArray fd := if fd = 3 then some tcpListener else none
  kernel fd := if 0 ≤ fd ∧ fd ≤ 3 then some .other else none

/-- `accept` returns the descriptor. -/
def accepts (fd : Int) : AcceptOutside := ⟨some 0, fd, true, none⟩

def tcpTwo : Connections :=
  ((tcpStart.serverAccept tcpLimits (accepts 4) 3).table.serverAccept tcpLimits (accepts 5) 3).table

theorem tcpStart_initial : Connections.Initial tcpLimits tcpStart := by
  refine ⟨?_, ?_⟩
  · intro fd data hdata
    have hfd : fd = 3 := by
      by_contra hne
      cases (if_neg hne).symm.trans hdata
    subst hfd
    cases hdata
    exact ⟨by decide, by decide, rfl, rfl, rfl⟩
  · intro fd l hconn
    unfold tcpStart at hconn
    dsimp only at hconn
    split at hconn
    · cases hconn
    · cases hconn

theorem tcp_run : Relation.ReflTransGen (Connections.Step tcpLimits) tcpStart tcpTwo :=
  (Relation.ReflTransGen.single (.accept 3 (accepts 4) rfl rfl fun _ => rfl)).tail
    (.accept 3 (accepts 5) rfl rfl fun _ => rfl)

theorem tcp_reuse : ∃ t, Relation.ReflTransGen (Connections.Step tcpLimits) tcpStart t ∧
    ∃ data, t.fdsArray 3 = some data ∧
      data.activeFdList = some [6, 5, -1, -1, -1, -1, -1, -1] := by
  have hclose : tcpTwo.closeIfd 3 4 = some _ := rfl
  have hrun := (tcp_run.tail (.close 3 4 (by decide) hclose)).tail
    (.accept 3 (accepts 6) rfl rfl fun _ => rfl)
  exact ⟨_, hrun, _, rfl, rfl⟩

theorem connection_table_consistent_reuse : Connections.Initial tcpLimits tcpStart ∧
    ∃ t data list, Relation.ReflTransGen (Connections.Step tcpLimits) tcpStart t ∧
      t.fdsArray 3 = some data ∧ data.activeFdList = some list ∧
      list = [6, 5, -1, -1, -1, -1, -1, -1] ∧
      data.activeFdCount = (used invalidSocket list).length := by
  obtain ⟨t, hrun, data, hdata, hlist⟩ := tcp_reuse
  exact ⟨tcpStart_initial, t, data, _, hrun, hdata, hlist, rfl,
    ((connection_table_consistent (ρ := Unit) tcpLimits tcpStart_initial hrun).1 3 data _ hdata
      hlist).1⟩

end Sockperf
