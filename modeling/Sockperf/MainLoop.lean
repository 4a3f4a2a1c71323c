import Sockperf.RecvLooping
import Sockperf.Watching

/-!
# The loop of the server

`doLoop` waits for an arrival and looks at the positions that the handler names. It accepts on a
listening socket and receives on any other descriptor, and calls `update` when a connection came
or went. It counts the descriptors that are ready down to 0 and asserts that none is left over.
Several threads do so on one table, each with the sockets of its own. They are launched one after
the other, and the first of them accept connections while the sockets are still being divided.
-/

namespace Sockperf

open While
set_option autoImplicit false

universe u v
variable {ι : Type u} {ρ : Type v}

/-! ## What a wait returns -/

/-- The result of `waitArrival` and what `doLoop` then asks the handler. -/
structure Arrivals where
  numReady : Int
  lookStart : Int
  lookEnd : Int
  /-- the assertion in `analyzeArrival` -/
  allowed : Int → Bool
  analyzeArrival : Int → Int

/-- The descriptors at the positions from `ifd` on. -/
def Arrivals.namedFrom (a : Arrivals) (ifd : Int) : List Int :=
  ((fdRange ifd (a.lookEnd - 1)).map a.analyzeArrival).filter (· ≠ 0)

def Arrivals.named (a : Arrivals) : List Int := a.namedFrom a.lookStart

section Wait
variable (lim : Limits) (info : HandlerInfo) (t : Connections) (ready : Int → Bool)

def IoSelect.prepareNetwork : IoSelect := ⟨t.socketsOf info, info.fdMin, info.fdMax + 1⟩

/-- The bits that `select` looks at. -/
def IoSelect.asked (r : IoSelect) : List Int := (r.saveFds.filter (· < r.lookEnd)).dedup

/-- `IoSelect::waitArrival`. `select` fails if one of the descriptors is closed. -/
def IoSelect.waitArrival (r : IoSelect) : Arrivals where
  numReady :=
    if ∀ fd ∈ r.asked, (t.kernel fd).isSome then (r.asked.filter ready).length else -1
  lookStart := r.lookStart
  lookEnd := r.lookEnd
  allowed _ := true
  analyzeArrival ifd := if ifd ∈ r.asked.filter ready then ifd else 0

/-- What `poll` writes to `revents`. -/
inductive Revents where
  | nothing
  /-- `POLLIN`, `POLLPRI`, `POLLERR` or `POLLHUP` -/
  | input
  /-- `POLLNVAL` -/
  | invalid
  deriving DecidableEq, Repr

/-- A negative descriptor is ignored. -/
def revents (fd : Int) : Revents :=
  if fd < 0 then .nothing
  else if t.kernel fd = none then .invalid
  else if ready fd then .input
  else .nothing

def IoPoll.waitArrival (r : IoPoll) : Arrivals where
  numReady := (r.entries.filter fun fd => revents t ready fd ≠ .nothing).length
  lookStart := r.lookStart
  lookEnd := r.lookEnd
  allowed ifd := ifd < lim.maxFdsNum
  analyzeArrival ifd :=
    if revents t ready (r.pollFdArr ifd) = .input then r.pollFdArr ifd else 0

/-- The events that `epoll_wait` may write. -/
structure IoEpoll.Reports (r : IoEpoll) (events : List Int) : Prop where
  nodup : events.Nodup
  mem : ∀ fd ∈ events, fd ∈ r.interest ∧ ready fd = true
  full : (events.length : Int) = min ((r.interest.dedup.filter ready).length : Int) r.maxEvents

/-- `IoEpoll::waitArrival`. `epoll_wait` fails without room for an event. -/
def IoEpoll.waitArrival (r : IoEpoll) (events : List Int) : Arrivals where
  numReady := if 0 < r.maxEvents then events.length else -1
  lookStart := r.lookStart
  lookEnd := if 0 < r.maxEvents then events.length else -1
  allowed ifd := ifd < lim.maxFdsNum
  analyzeArrival ifd := events.getD ifd.toNat 0

end Wait

/-- A kind of handler, as `doLoop` uses it. -/
structure Waiter (ρ : Type v) where
  prepareNetwork : HandlerInfo → Connections → ρ
  /-- what `waitArrival` may return, given the descriptors that are ready -/
  waits : ρ → Connections → (Int → Bool) → Arrivals → Prop
  update : HandlerInfo → Connections → ρ → Option (Except UpdateFault ρ)
  /-- what the kernel does to the handler when a descriptor is closed -/
  drop : Connections → ρ → ρ

def IoSelect.waiter (lim : Limits) : Waiter IoSelect where
  prepareNetwork := IoSelect.prepareNetwork
  waits r t ready a := a = r.waitArrival t ready
  update info t _ := IoSelect.updateNdebug (lim.maxFdsNum + 1) info t
  drop _ r := r

/-- The memory for the entries contains `arr`. -/
def IoPoll.waiter (lim : Limits) (arr : Int → Int) : Waiter IoPoll where
  prepareNetwork info t := IoPoll.prepareNetwork info t arr
  waits r t ready a := a = r.waitArrival lim t ready
  update := IoPoll.updateNdebug (lim.maxFdsNum + 1)
  drop _ r := r

def IoEpoll.waiter (lim : Limits) : Waiter IoEpoll where
  prepareNetwork := IoEpoll.prepareNetwork lim
  waits r _ ready a := ∃ events, r.Reports ready events ∧ a = r.waitArrival lim events
  update := IoEpoll.updateNdebug lim (lim.maxFdsNum + 1)
  drop := IoEpoll.drop

/-! ## The loop -/

/-- What the calls made for one descriptor meet. -/
structure Service where
  accept : AcceptOutside
  receive : Nat → RecvOutcome
  /-- `errno` is `EAGAIN` from before -/
  eagain : Bool
  /-- a reply met `RET_SOCKET_SHUTDOWN`, and `handle_message` closed the connection -/
  hungUp : Bool

/-- Memory does not run out, a handshake of TLS succeeds, a new descriptor was closed and the
replies do not meet `RET_SOCKET_SHUTDOWN`. -/
structure Service.Admissible (svc : Service) (t : Connections) : Prop where
  memory : svc.accept.buf.isSome = true
  handshake : svc.accept.tls ≠ some none
  fresh : 0 ≤ svc.accept.activeIfd → t.kernel svc.accept.activeIfd = none
  replies : svc.hungUp = false

/-- `server_accept`, and the receives when it returns the descriptor itself. The second component
is what becomes of `do_update`. -/
def Connections.serveFd (t : Connections) (lim : Limits) (svc : Service) (fd : Int)
    (data : FdsRecord) : Option (Connections × Bool) :=
  let accepted := t.serverAccept lim svc.accept fd
  if accepted.usedReleased then none
  else if accepted.ret = fd then
    match iterate (serverTurn data.isStream svc.receive) 2 (.start 1 svc.eagain) with
    | none => none
    | some s =>
      if s.gone then
        -- a record that `handle_message` has freed is closed once more
        if svc.hungUp then none
        else (accepted.table.closeIfd data.nextFd fd).map (·, s.doUpdate)
      else some (accepted.table, s.doUpdate)
  else some (accepted.table, accepted.ret ≠ invalidSocket)

structure Look where
  arrivals : Arrivals
  ifd : Int
  numReady : Int
  doUpdate : Bool
  /-- the descriptors that were passed to `server_accept` so far -/
  served : List Int

inductive Stop where
  /-- `waitArrival` returned less than 0 -/
  | waitFailed
  /-- "exceeded tool limitation (max_fds_num)" -/
  | exceeded
  /-- "invalid fd" -/
  | invalidFd
  /-- "all waiting descriptors should have been processed" -/
  | notProcessed
  /-- a null pointer is followed, a record is used after it was freed, or a read goes beyond the
  slots -/
  | fault
  deriving DecidableEq, Repr

inductive LoopPhase where
  | starting
  | waiting
  | looking (look : Look)
  | stopped (why : Stop)

/-- The loop of `server_select_per_thread`. -/
structure Launcher (ι : Type u) where
  /-- the threads that are not launched yet -/
  queue : List ι
  fdNum : Nat
  numOfRemaindedFds : Nat
  /-- `find_min_max_fds` for the first of them -/
  search : FindFds

namespace Launcher

/-- `server_handler` is called for the only thread. -/
def idle : Launcher ι := ⟨[], 0, 0, ⟨0, 0, 0⟩⟩

def start (threads : List ι) (fdNum : Nat) : Launcher ι :=
  ⟨threads, fdNum / threads.length, fdNum % threads.length, ⟨0, 0, 0⟩⟩

variable (l : Launcher ι)

/-- `cur_handler_info->fd_num` -/
def share : Nat := if l.numOfRemaindedFds ≠ 0 then l.fdNum + 1 else l.fdNum

def next (rest : List ι) (fdMax : Int) : Launcher ι :=
  ⟨rest, l.fdNum, l.numOfRemaindedFds - 1, ⟨0, fdMax + 1, 0⟩⟩

end Launcher

structure Threads (ι : Type u) (ρ : Type v) where
  table : Connections
  /-- what a thread was launched with -/
  info : ι → HandlerInfo
  handler : ι → ρ
  phase : ι → LoopPhase
  launcher : Launcher ι

namespace Threads
variable [DecidableEq ι] (w : Waiter ρ) (s : Threads ι ρ) (i : ι)

def setPhase (p : LoopPhase) : Threads ι ρ := { s with phase := Function.update s.phase i p }

def setHandler (r : ρ) : Threads ι ρ := { s with handler := Function.update s.handler i r }

def setTable (t : Connections) : Threads ι ρ :=
  { s with table := t, handler := fun j => w.drop t (s.handler j) }

def setSearch (f : FindFds) : Threads ι ρ :=
  { s with launcher := { s.launcher with search := f } }

def launch (rest : List ι) (fdMin fdMax : Int) : Threads ι ρ := { s with
  info := Function.update s.info i ⟨fdMin, fdMax, s.launcher.share⟩
  launcher := s.launcher.next rest fdMax }

/-- `IoHandler::prepareNetwork` in `Server::initBeforeLoop` -/
def prepare : Threads ι ρ :=
  (s.setHandler i (w.prepareNetwork (s.info i) s.table)).setPhase i .waiting

def arrive (a : Arrivals) : Threads ι ρ :=
  s.setPhase i
    (if a.numReady < 0 then .stopped .waitFailed
    else if a.numReady = 0 then .waiting
    else .looking ⟨a, a.lookStart, a.numReady, false, []⟩)

def look (lim : Limits) (svc : Service) (l : Look) : Threads ι ρ :=
  let fd := l.arrivals.analyzeArrival l.ifd
  if l.arrivals.allowed l.ifd = false then s.setPhase i (.stopped .exceeded)
  else if fd = 0 then s.setPhase i (.looking { l with ifd := l.ifd + 1 })
  else
    match s.table.fdsArray fd with
    | none => s.setPhase i (.stopped .invalidFd)
    | some data =>
      match s.table.serveFd lim svc fd data with
      | none => s.setPhase i (.stopped .fault)
      | some (t, doUpdate) =>
        (s.setTable w t).setPhase i (.looking { l with
          ifd := l.ifd + 1
          numReady := l.numReady - 1
          doUpdate := l.doUpdate || doUpdate
          served := l.served ++ [fd] })

def finish (l : Look) : Threads ι ρ :=
  match if l.doUpdate then w.update (s.info i) s.table (s.handler i)
    else some (.ok (s.handler i)) with
  | some (.ok r) =>
    (s.setHandler i r).setPhase i (if l.numReady = 0 then .waiting else .stopped .notProcessed)
  | _ => s.setPhase i (.stopped .fault)

end Threads

def Look.more (l : Look) : Prop := l.numReady ≠ 0 ∧ l.ifd < l.arrivals.lookEnd

instance (l : Look) : Decidable l.more := inferInstanceAs (Decidable (_ ∧ _))

/-- A step of one of the threads, or of the one that launches them. The calls for a descriptor
meet only what `meets` allows. -/
inductive Threads.Step [DecidableEq ι] (w : Waiter ρ) (lim : Limits)
    (meets : Threads ι ρ → Service → Prop) : Threads ι ρ → Threads ι ρ → Prop
  /-- `find_min_max_fds` looks at a record -/
  | search {s : Threads ι ρ} (i : ι) (rest : List ι) (queue : s.launcher.queue = i :: rest)
      (f : FindFds)
      (turn : s.table.findFdsTurn s.launcher.share s.launcher.search = .next f) :
      Step w lim meets s (s.setSearch f)
  | launch {s : Threads ι ρ} (i : ι) (rest : List ι) (queue : s.launcher.queue = i :: rest)
      (fdMin fdMax : Int)
      (turn : s.table.findFdsTurn s.launcher.share s.launcher.search = .done (fdMin, fdMax)) :
      Step w lim meets s (s.launch i rest fdMin fdMax)
  | prepare {s : Threads ι ρ} (i : ι) (launched : i ∉ s.launcher.queue)
      (starting : s.phase i = .starting) : Step w lim meets s (s.prepare w i)
  | wait {s : Threads ι ρ} (i : ι) (ready : Int → Bool) (a : Arrivals)
      (waiting : s.phase i = .waiting) (waits : w.waits (s.handler i) s.table ready a) :
      Step w lim meets s (s.arrive i a)
  | look {s : Threads ι ρ} (i : ι) (l : Look) (svc : Service) (looking : s.phase i = .looking l)
      (more : l.more) (met : meets s svc) : Step w lim meets s (s.look w i lim svc l)
  | finish {s : Threads ι ρ} (i : ι) (l : Look) (looking : s.phase i = .looking l)
      (done : ¬ l.more) : Step w lim meets s (s.finish w i l)

/-- The calls are admissible. Until the last thread has set up its handler, a connection gets a
descriptor above those of all listening sockets. -/
structure Threads.Orderly (s : Threads ι ρ) (svc : Service) : Prop where
  admissible : svc.Admissible s.table
  above : ∀ i, s.phase i = .starting → 0 ≤ svc.accept.activeIfd →
    ∀ l, s.table.Listening l → l < svc.accept.activeIfd

/-- The threads that are not left to the launcher have their ranges. -/
structure Threads.Start (t₀ : Connections) (launcher : Launcher ι) (infos : ι → HandlerInfo)
    (s : Threads ι ρ) : Prop where
  table : s.table = t₀
  phase : ∀ i, s.phase i = .starting
  launcher : s.launcher = launcher
  info : ∀ i, i ∉ s.launcher.queue → s.info i = infos i

/-! ## The call for one descriptor -/

namespace Connections
variable {t t₀ t' : Connections} {lim : Limits} {svc : Service} {fd new : Int} {data : FdsRecord}

variable (lim) in
theorem serverAccept_ret {out : AcceptOutside} (hdata : t.fdsArray fd = some data)
    (memory : out.buf.isSome = true) (handshake : out.tls ≠ some none)
    (fresh : 0 ≤ out.activeIfd → t.kernel out.activeIfd = none) :
    (t.serverAccept lim out fd).usedReleased = false ∧
      ((t.serverAccept lim out fd).ret = fd ∧ (t.serverAccept lim out fd).table = t ∧
          (data.activeFdList = none ∨ data.isStream = false) ∨
        (t.serverAccept lim out fd).ret = invalidSocket ∧ (t.serverAccept lim out fd).table = t ∨
        (t.serverAccept lim out fd).ret = out.activeIfd ∧ 0 ≤ out.activeIfd) := by
  obtain ⟨buf, hbuf⟩ := Option.isSome_iff_exists.mp memory
  unfold serverAccept
  rw [hdata]
  dsimp only
  cases hlist : data.activeFdList with
  | none => exact ⟨rfl, Or.inl ⟨rfl, rfl, Or.inl rfl⟩⟩
  | some list =>
    dsimp only
    split
    · next hdatagram => exact ⟨rfl, Or.inl ⟨rfl, rfl, Or.inr hdatagram⟩⟩
    rw [hbuf]
    dsimp only
    split
    · exact ⟨rfl, Or.inr (Or.inl ⟨rfl, rfl⟩)⟩
    next hneg =>
    have hopen : 0 ≤ out.activeIfd := by omega
    split
    · cases htls : out.tls with
      | none => exact ⟨rfl, Or.inr (Or.inr ⟨rfl, hopen⟩)⟩
      | some handle =>
        cases handle with
        | none => exact absurd htls handshake
        | some handle =>
          dsimp only
          rw [if_pos (show (some handle).isSome = true from rfl)]
          exact ⟨rfl, Or.inr (Or.inr ⟨rfl, hopen⟩)⟩
    · refine ⟨rfl, Or.inr (Or.inl ⟨rfl, ?_⟩)⟩
      rw [setKernel, setKernel]
      dsimp only
      rw [Function.update_idem, ← fresh hopen, Function.update_eq_self]

/-- A removed record was one of a stream, and `do_update` is set. -/
def Removed (stream : Bool) (s : RecvLoop) : Prop :=
  s.gone = true → stream = true ∧ s.doUpdate = true

/-- The step lemma of the receive loop. -/
theorem serverTurn_removed {stream : Bool} (env : Nat → RecvOutcome) {s : RecvLoop}
    (h : Removed stream s) :
    (∀ s', serverTurn stream env s = .next s' → Removed stream s') ∧
      ∀ s', serverTurn stream env s = .done s' → Removed stream s' := by
  by_cases hleft : s.left = 0
  · rw [serverTurn_zero stream env hleft]
    refine ⟨fun s' heq => ?_, fun s' heq => ?_⟩
    · cases heq
    · cases heq
      exact h
  by_cases hgone : s.gone = true
  · rw [serverTurn_gone stream env hleft hgone]
    refine ⟨fun s' heq => ?_, fun s' heq => ?_⟩
    · cases heq
      exact fun _ => ⟨(h hgone).1, rfl⟩
    · cases heq
  have hstill : s.countdown.gone = false := Bool.eq_false_of_not_eq_true hgone
  have hkept : ∀ o, Removed stream (s.countdown.receive o) := by
    intro o hremoved
    have hsame : (s.countdown.receive o).gone = s.countdown.gone := by
      cases o <;> rfl
    rw [hsame, hstill] at hremoved
    cases hremoved
  have hclosed : ∀ o, Removed stream
      { s.countdown.receive o with gone := stream, doUpdate := true } :=
    fun o hstream => ⟨hstream, rfl⟩
  simp only [serverTurn, serverReceive, hleft, hstill, if_false, Bool.false_eq_true]
  cases henv : env s.countdown.made with
  | rejected packets resets | shutdown =>
    refine ⟨fun s' heq => ?_, fun s' heq => ?_⟩
    · cases heq
      exact hclosed _
    · cases heq
  | data packets resets | wouldBlock | interrupted =>
    dsimp only
    rw [if_neg Bool.false_ne_true]
    split
    · refine ⟨fun s' heq => ?_, fun s' heq => ?_⟩
      · cases heq
      · cases heq
        exact hkept _
    · refine ⟨fun s' heq => ?_, fun s' heq => ?_⟩
      · cases heq
        exact hkept _
      · cases heq

theorem receiveOnce (stream : Bool) (env : Nat → RecvOutcome) (eagain : Bool) :
    ∃ s, iterate (serverTurn stream env) 2 (.start 1 eagain) = some s ∧ Removed stream s := by
  have hstart : Removed stream (.start 1 eagain) := fun hgone => by cases hgone
  obtain ⟨hnext', hdone'⟩ := serverTurn_removed env hstart
  obtain ⟨s, -, hleft, ⟨hdone, -⟩ | ⟨hnext, -⟩⟩ :=
    serverTurn_cases stream env (s := .start 1 eagain) one_ne_zero rfl
  · exact ⟨s, iterate_done hdone, hdone' s hdone⟩
  · have hzero := serverTurn_zero stream env (hleft.trans (countdown_one rfl))
    exact ⟨s, (iterate_next hnext).trans (iterate_done hzero), hnext' s hnext⟩

theorem valid_of_nonneg (hfd : 0 ≤ fd) : fd ≠ invalidSocket := by
  intro heq
  rw [heq] at hfd
  exact absurd hfd (by decide)

/-- What the calls for one descriptor can do to the table: nothing, or a connection with the
descriptor `new` comes to it, or it leaves its listening socket. -/
inductive Served (lim : Limits) (new : Int) (t t' : Connections) (fd : Int) : Prop
  | same (same : t' = t)
  | accepted (event : Event lim t t') (change : Change lim t t' fd new)
      (fresh : t.kernel new = none) (opened : 0 ≤ new)
  | closed (l : Int) (event : Event lim t t') (change : Change lim t t' l fd)
      (connection : t.kernel fd = some (.connection l))

theorem ServedFrom.serveFd (h : t.ServedFrom lim t₀) (hdata : t.fdsArray fd = some data)
    (hsvc : svc.Admissible t) :
    ∃ t' doUpdate, t.serveFd lim svc fd data = some (t', doUpdate) ∧
      (doUpdate = false → t' = t) ∧ Served lim svc.accept.activeIfd t t' fd := by
  have hvalid : fd ≠ invalidSocket := valid_of_nonneg (h.consistent.range fd data hdata).1
  unfold Connections.serveFd
  dsimp only
  obtain ⟨hreleased, hcases⟩ := serverAccept_ret lim hdata hsvc.memory hsvc.handshake hsvc.fresh
  rw [hreleased, if_neg Bool.false_ne_true]
  rcases hcases with ⟨hret, htable, hkind⟩ | ⟨hret, htable⟩ | ⟨hret, hopen⟩
  · -- the descriptor is received on
    rw [if_pos hret, htable]
    obtain ⟨s, hloop, hremoved⟩ := receiveOnce data.isStream svc.receive svc.eagain
    rw [hloop]
    dsimp only
    split
    · next hgone =>
      obtain ⟨hstream, hupdate⟩ := hremoved hgone
      have hnone : data.activeFdList = none := by
        rcases hkind with hnone | hdatagram
        · exact hnone
        · cases hstream.symm.trans hdatagram
      obtain ⟨l, hconn⟩ := h.consistent.slotless fd data hdata hnone
      obtain ⟨⟨data', hdata', hnext, -⟩, listener, list, hlistener, hlist⟩ :=
        h.consistent.connection fd l hconn
      cases hdata'.symm.trans hdata
      rw [← hnext] at hlistener
      obtain ⟨t', hcloses, -⟩ := h.consistent.close_change hlistener hlist hvalid
      rw [hcloses, hsvc.replies, if_neg Bool.false_ne_true]
      refine ⟨t', s.doUpdate, rfl, ?_, ?_⟩
      · intro hfalse
        cases hupdate.symm.trans hfalse
      · rcases h.consistent.closeIfd_change hvalid hcloses with hsame | ⟨hchange, -⟩
        · exact .same hsame
        · rw [hnext] at hchange
          exact .closed l (.close _ _ hvalid hcloses) hchange hconn
    · exact ⟨t, s.doUpdate, rfl, fun _ => rfl, .same rfl⟩
  · -- nothing was accepted
    rw [hret, htable, if_neg hvalid.symm]
    exact ⟨t, _, rfl, fun _ => rfl, .same rfl⟩
  · -- a connection was accepted
    have hclosed := hsvc.fresh hopen
    have hne : svc.accept.activeIfd ≠ fd := by
      intro heq
      rw [heq] at hclosed
      cases (h.consistent.opened fd hclosed).symm.trans hdata
    rw [hret, if_neg hne]
    refine ⟨_, _, rfl, ?_, ?_⟩
    · intro hfalse
      exact absurd (valid_of_nonneg hopen) (of_decide_eq_false hfalse)
    · rcases serverAccept_table lim fd hsvc.handshake hsvc.fresh with hsame |
        ⟨data', list, tmp, hdata', hlist, -, hlt, hroom, hfree, hnext, hnone, -, hplaced⟩
      · exact .same hsame
      · have hchange :=
          h.consistent.place_change hdata' hlist hopen hlt hclosed hroom hfree hnext hnone
        rw [← hplaced] at hchange
        exact .accepted (.accept fd _ hsvc.handshake hsvc.fresh) hchange hclosed hopen

/-- A call of a thread with the sockets `own`, for another thread. -/
inductive Touched (lim : Limits) (own : List Int) (t t' : Connections) : Prop
  | same (same : t' = t)
  | change (l x : Int) (mine : l ∈ own) (event : Event lim t t') (change : Change lim t t' l x)

theorem Served.touched {info : HandlerInfo} (h : t.ServedFrom lim t₀)
    (hs : Served lim new t t' fd)
    (hwatched : t.Watched (t₀.socketsOf info) fd) : Touched lim (t₀.socketsOf info) t t' := by
  cases hs with
  | same hsame => exact .same hsame
  | accepted event change fresh opened =>
    refine .change fd new ?_ event change
    rcases hwatched with hown | ⟨l, -, hconn⟩
    · exact hown
    · -- a connection has no slots
      cases (change.listener_other h.consistent).1.symm.trans hconn
  | closed l event change connection =>
    refine .change l fd ?_ event change
    rcases hwatched with hown | ⟨k, hk, hconn⟩
    · cases (h.own_other info fd hown).1.symm.trans connection
    · cases hconn.symm.trans connection
      exact hk

theorem Touched.event_or {own : List Int} (h : Touched lim own t t') : t' = t ∨ Event lim t t' := by
  cases h with
  | same hsame => exact Or.inl hsame
  | change l x mine event change => exact Or.inr event

theorem Touched.watched_iff {own other : List Int} (h : Touched lim own t t')
    (hdisjoint : ∀ l ∈ own, l ∉ other) (fd : Int) : t'.Watched other fd ↔ t.Watched other fd := by
  cases h with
  | same hsame => rw [hsame]
  | change l x mine event change =>
    have hkernel : ∀ k ∈ other,
        t'.kernel fd = some (.connection k) ↔ t.kernel fd = some (.connection k) := by
      intro k hk
      by_cases hfx : fd = x
      · have hne : l ≠ k := fun heq => hdisjoint l mine (heq ▸ hk)
        have hbefore : t.kernel x ≠ some (.connection k) := by
          intro heq
          rcases change.before with hb | hb
          · cases hb.symm.trans heq
          · cases hb.symm.trans heq
            exact hne rfl
        have hafter : t'.kernel x ≠ some (.connection k) := by
          intro heq
          rcases change.after with ⟨ha, -⟩ | ⟨ha, -⟩
          · cases ha.symm.trans heq
          · cases ha.symm.trans heq
            exact hne rfl
        rw [hfx]
        exact ⟨fun heq => absurd heq hafter, fun heq => absurd heq hbefore⟩
      · rw [change.kernel fd hfx]
    unfold Watched
    apply or_congr_right
    apply exists_congr
    intro k
    exact and_congr_right (hkernel k)

theorem Served.watched {info : HandlerInfo} (h : t.ServedFrom lim t₀)
    (hs : Served lim new t t' fd) {k : Int} (hne : k ≠ fd)
    (hwatched : t.Watched (t₀.socketsOf info) k) :
    t'.Watched (t₀.socketsOf info) k := by
  have hopen : t.kernel k ≠ none := by
    intro hclosed
    rcases hwatched with hown | ⟨l, -, hconn⟩
    · cases (h.own_other info k hown).1.symm.trans hclosed
    · cases hconn.symm.trans hclosed
  have hkernel : t'.kernel k = t.kernel k := by
    cases hs with
    | same hsame => rw [hsame]
    | accepted event change fresh opened =>
      apply change.kernel
      intro heq
      rw [heq] at hopen
      exact hopen fresh
    | closed l event change connection => exact change.kernel k hne
  unfold Watched
  rw [hkernel]
  exact hwatched

theorem Served.event_or (hs : Served lim new t t' fd) : t' = t ∨ Event lim t t' := by
  cases hs with
  | same hsame => exact Or.inl hsame
  | accepted event => exact Or.inr event
  | closed l event => exact Or.inr event

/-- Every connection has a descriptor above those of the sockets. -/
def AllAbove (t t₀ : Connections) : Prop :=
  ∀ fd l, t.kernel fd = some (.connection l) → ∀ k, (t₀.fdsArray k).isSome = true → k < fd

theorem Initial.allAbove (h : Initial lim t) : t.AllAbove t :=
  fun fd l hconn => absurd hconn (h.connections fd l)

theorem Served.allAbove (hs : Served lim new t t' fd) (h : t.AllAbove t₀)
    (hnew : 0 ≤ new → ∀ k, (t₀.fdsArray k).isSome = true → k < new) : t'.AllAbove t₀ := by
  intro x l hconn
  cases hs with
  | same hsame => exact h x l (hsame ▸ hconn)
  | accepted event change fresh opened =>
    by_cases hx : x = new
    · rw [hx]
      exact hnew opened
    · rw [change.kernel x hx] at hconn
      exact h x l hconn
  | closed k event change connection =>
    by_cases hx : x = fd
    · rw [hx]
      exact h fd k connection
    · rw [change.kernel x hx] at hconn
      exact h x l hconn

theorem AllAbove.plain (h : t.AllAbove t₀) {k k₀ : Int} (hsome : (t₀.fdsArray k₀).isSome = true)
    (hle : k ≤ k₀) (l : Int) : t.kernel k ≠ some (.connection l) := by
  intro hconn
  have := h k l hconn k₀ hsome
  omega

/-- The range ends with a socket, or all sockets are in it. -/
def Bounded (t₀ : Connections) (info : HandlerInfo) : Prop :=
  (t₀.fdsArray info.fdMax).isSome = true ∨
    ∀ l, (t₀.fdsArray l).isSome = true → l ∈ t₀.socketsOf info

theorem Bounded.apart {info : HandlerInfo} (hb : t₀.Bounded info) (h : t.ServedFrom lim t₀)
    (habove : t.AllAbove t₀)
    (hnone : ∀ fd, ∀ l ∈ t₀.socketsOf info, t.kernel fd ≠ some (.connection l)) :
    t.Apart info := by
  intro ifd hifd l
  rcases hb with hlast | hall
  · exact habove.plain hlast (mem_fdRange.mp hifd).2 l
  · intro hconn
    exact hnone ifd l (hall l ((h.listening l).mp (h.consistent.connection ifd l hconn).2)) hconn

/-- Standard input is open and not a socket of the server. -/
def StdinOpen (t : Connections) : Prop := t.kernel 0 = some .other ∧ t.fdsArray 0 = none

theorem StdinOpen.event (h : t.StdinOpen) (hc : t.Consistent lim) (he : Event lim t t') :
    t'.StdinOpen := by
  rcases he.change hc with rfl | ⟨l, x, hchange, -⟩
  · exact h
  have hx : 0 ≠ x := by
    intro heq
    exact hchange.before_ne (heq ▸ h.1)
  have hl : 0 ≠ l := by
    rintro rfl
    obtain ⟨data, list, hdata, -⟩ := hchange.old
    cases h.2.symm.trans hdata
  unfold StdinOpen
  rw [hchange.kernel 0 hx, hchange.records 0 hx hl]
  exact h

theorem ServedFrom.watched_record {info : HandlerInfo} (h : t.ServedFrom lim t₀)
    (hwatched : t.Watched (t₀.socketsOf info) fd) : ∃ data, t.fdsArray fd = some data := by
  rcases hwatched with hown | ⟨l, -, hconn⟩
  · exact Option.isSome_iff_exists.mp (h.own_other info fd hown).2
  · obtain ⟨⟨data, hdata, -⟩, -⟩ := h.consistent.connection fd l hconn
    exact ⟨data, hdata⟩

theorem StdinOpen.ne_zero {info : HandlerInfo} (hzero : t.StdinOpen) (h : t.ServedFrom lim t₀)
    (hwatched : t.Watched (t₀.socketsOf info) fd) : fd ≠ 0 := by
  rintro rfl
  obtain ⟨data, hdata⟩ := h.watched_record hwatched
  cases hzero.2.symm.trans hdata

end Connections

/-! ## One thread -/

/-- The wait found every descriptor of the thread that is ready, each at one position. -/
structure Arrivals.Complete (a : Arrivals) (lim : Limits) (own : List Int) (t : Connections)
    (ready : Int → Bool) : Prop where
  count : a.numReady = a.named.length
  nodup : a.named.Nodup
  mem : ∀ fd, fd ∈ a.named ↔ t.Watched own fd ∧ ready fd = true
  allowed : ∀ ifd, a.lookStart ≤ ifd → ifd < a.lookEnd → a.allowed ifd = true

/-- What is known of a kind of handler: `Sets` holds when it waits for the descriptors of the
thread, and `Keeps` holds of it whenever `update` may be called. -/
structure Waiter.Sound (w : Waiter ρ) (lim : Limits) (t₀ : Connections) (info : HandlerInfo)
    (Sets Keeps : Connections → ρ → Prop) : Prop where
  keeps : ∀ t r, t.ServedFrom lim t₀ → Sets t r → Keeps t r
  prepare : ∀ t, t.ServedFrom lim t₀ → t.Apart info →
    (∀ fd, ∀ l ∈ t₀.socketsOf info, t.kernel fd ≠ some (.connection l)) →
    Sets t (w.prepareNetwork info t)
  waits : ∀ t r ready a, t.ServedFrom lim t₀ → t.StdinOpen → Sets t r → w.waits r t ready a →
    a.Complete lim (t₀.socketsOf info) t ready
  update : ∀ t r, t.ServedFrom lim t₀ → Keeps t r →
    ∃ r', w.update info t r = some (.ok r') ∧ Sets t r'
  event : ∀ t t' r, t.ServedFrom lim t₀ → (t' = t ∨ Connections.Event lim t t') → Keeps t r →
    Keeps t' (w.drop t' r)
  other : ∀ t t' r, t'.ServedFrom lim t₀ →
    (∀ fd, t'.Watched (t₀.socketsOf info) fd ↔ t.Watched (t₀.socketsOf info) fd) → Sets t r →
    Sets t' (w.drop t' r)

/-- Inside the inner loop: what was served and what is still to come make up what was ready. -/
structure Look.Ok (l : Look) (own : List Int) (Sets Keeps : Connections → ρ → Prop)
    (t : Connections) (r : ρ) : Prop where
  allowed : ∀ ifd, l.ifd ≤ ifd → ifd < l.arrivals.lookEnd → l.arrivals.allowed ifd = true
  count : l.numReady = (l.arrivals.namedFrom l.ifd).length
  split : l.served ++ l.arrivals.namedFrom l.ifd = l.arrivals.named
  nodup : (l.arrivals.namedFrom l.ifd).Nodup
  watched : ∀ fd ∈ l.arrivals.namedFrom l.ifd, t.Watched own fd
  keeps : Keeps t r
  sets : l.doUpdate = false → Sets t r

def LoopPhase.Ok (own : List Int) (Sets Keeps : Connections → ρ → Prop) (t : Connections) (r : ρ) :
    LoopPhase → Prop
  | .starting => ∀ fd, ∀ l ∈ own, t.kernel fd ≠ some (.connection l)
  | .waiting => Sets t r
  | .looking l => l.Ok own Sets Keeps t r
  | .stopped _ => False

theorem Arrivals.namedFrom_cons {a : Arrivals} {ifd : Int} (h : ifd < a.lookEnd) :
    a.namedFrom ifd =
      if a.analyzeArrival ifd = 0 then a.namedFrom (ifd + 1)
      else a.analyzeArrival ifd :: a.namedFrom (ifd + 1) := by
  unfold namedFrom
  rw [fdRange_append (b := ifd) (by omega) (by omega), fdRange_self, List.singleton_append,
    List.map_cons]
  split
  · next hzero => exact List.filter_cons_of_neg (by simpa using hzero)
  · next hne => exact List.filter_cons_of_pos (by simpa using hne)

theorem Arrivals.namedFrom_nil {a : Arrivals} {ifd : Int} (h : a.lookEnd ≤ ifd) :
    a.namedFrom ifd = [] := by
  unfold namedFrom
  rw [fdRange_empty (by omega)]
  rfl

section Thread
variable {w : Waiter ρ} {lim : Limits} {t₀ t t' : Connections} {info : HandlerInfo}
  {Sets Keeps : Connections → ρ → Prop} {r : ρ}
  (hw : w.Sound lim t₀ info Sets Keeps) (h : t.ServedFrom lim t₀)
include hw h

theorem LoopPhase.Ok.foreign {own : List Int} {p : LoopPhase}
    (hp : p.Ok (t₀.socketsOf info) Sets Keeps t r) (htouched : Connections.Touched lim own t t')
    (hdisjoint : ∀ l ∈ own, l ∉ t₀.socketsOf info) (h' : t'.ServedFrom lim t₀) :
    p.Ok (t₀.socketsOf info) Sets Keeps t' (w.drop t' r) := by
  have hiff := htouched.watched_iff hdisjoint
  cases p with
  | starting =>
    intro fd l hl hconn
    rcases (hiff fd).mp (Or.inr ⟨l, hl, hconn⟩) with hown | ⟨k, hk, hconn'⟩
    · cases (h'.own_other info fd hown).1.symm.trans hconn
    · exact hp fd k hk hconn'
  | waiting => exact hw.other t t' r h' hiff hp
  | looking l =>
    exact ⟨hp.allowed, hp.count, hp.split, hp.nodup,
      fun fd hfd => (hiff fd).mpr (hp.watched fd hfd),
      hw.event t t' r h htouched.event_or hp.keeps,
      fun hfalse => hw.other t t' r h' hiff (hp.sets hfalse)⟩
  | stopped why => exact hp

theorem Look.Ok.start {a : Arrivals} {ready : Int → Bool} (hsets : Sets t r)
    (ha : a.Complete lim (t₀.socketsOf info) t ready) :
    (Look.mk a a.lookStart a.numReady false []).Ok (t₀.socketsOf info) Sets Keeps t r where
  allowed := ha.allowed
  count := ha.count
  split := rfl
  nodup := ha.nodup
  watched fd hfd := ((ha.mem fd).mp hfd).1
  keeps := hw.keeps t r h hsets
  sets _ := hsets

omit hw h in
theorem Look.Ok.skip {l : Look} (hl : l.Ok (t₀.socketsOf info) Sets Keeps t r)
    (hmore : l.ifd < l.arrivals.lookEnd) (hzero : l.arrivals.analyzeArrival l.ifd = 0) :
    ({ l with ifd := l.ifd + 1 } : Look).Ok (t₀.socketsOf info) Sets Keeps t r := by
  have hnamed := Arrivals.namedFrom_cons hmore
  rw [if_pos hzero] at hnamed
  have hcount := hl.count
  have hsplit := hl.split
  have hnodup := hl.nodup
  have hwatched := hl.watched
  rw [hnamed] at hcount hsplit hnodup hwatched
  exact ⟨fun ifd hifd => hl.allowed ifd (by dsimp only at hifd; omega), hcount, hsplit, hnodup,
    hwatched, hl.keeps, hl.sets⟩

theorem Look.Ok.next {l : Look} {fd new : Int} {doUpdate : Bool}
    (hl : l.Ok (t₀.socketsOf info) Sets Keeps t r) (hmore : l.ifd < l.arrivals.lookEnd)
    (hfd : l.arrivals.analyzeArrival l.ifd = fd) (hne : fd ≠ 0)
    (hsame : doUpdate = false → t' = t) (hserved : Connections.Served lim new t t' fd) :
    ({ l with
      ifd := l.ifd + 1
      numReady := l.numReady - 1
      doUpdate := l.doUpdate || doUpdate
      served := l.served ++ [fd] } : Look).Ok (t₀.socketsOf info) Sets Keeps t'
        (w.drop t' r) := by
  have hnamed := Arrivals.namedFrom_cons hmore
  rw [hfd, if_neg hne] at hnamed
  have hcount := hl.count
  have hsplit := hl.split
  have hnodup := hl.nodup
  have hwatched := hl.watched
  rw [hnamed] at hcount hsplit hnodup hwatched
  obtain ⟨hnot, hrest⟩ := List.nodup_cons.mp hnodup
  have htouched := hserved.touched h (hwatched fd List.mem_cons_self)
  refine ⟨fun ifd hifd => hl.allowed ifd (by dsimp only at hifd; omega), ?_, ?_, hrest, ?_,
    hw.event t t' r h htouched.event_or hl.keeps, ?_⟩
  · rw [List.length_cons] at hcount
    dsimp only
    omega
  · rw [← hsplit]
    exact List.append_assoc _ _ _
  · intro k hk
    have hkfd : k ≠ fd := fun heq => hnot (heq ▸ hk)
    exact hserved.watched h hkfd (hwatched k (List.mem_cons_of_mem _ hk))
  · intro hfalse
    obtain ⟨hbefore, hnow⟩ := Bool.or_eq_false_iff.mp hfalse
    obtain rfl := hsame hnow
    exact hw.other t' t' r h (fun _ => Iff.rfl) (hl.sets hbefore)

omit hw h in
theorem Look.Ok.done {l : Look} (hl : l.Ok (t₀.socketsOf info) Sets Keeps t r)
    (hdone : ¬ l.more) : l.numReady = 0 ∧ l.served = l.arrivals.named := by
  have hnil : l.arrivals.namedFrom l.ifd = [] := by
    by_cases hend : l.ifd < l.arrivals.lookEnd
    · have hzero : l.numReady = 0 := not_not.mp fun hne => hdone ⟨hne, hend⟩
      have hcount := hl.count
      exact List.length_eq_zero_iff.mp (by omega)
    · exact Arrivals.namedFrom_nil (by omega)
  have hcount := hl.count
  have hsplit := hl.split
  rw [hnil] at hcount hsplit
  exact ⟨hcount, (List.append_nil _).symm.trans hsplit⟩

end Thread

/-! ## The launch of the threads -/

/-- On the sockets `t₀` the threads that are left get the ranges `infos`. -/
inductive Launcher.Divides (t₀ : Connections) (infos : ι → HandlerInfo) : Launcher ι → Prop
  | done {l : Launcher ι} (queue : l.queue = []) : Divides t₀ infos l
  | next {l : Launcher ι} (i : ι) (rest : List ι) (queue : l.queue = i :: rest)
      (fdNum : (infos i).fdNum = l.share) (last : (t₀.fdsArray (infos i).fdMax).isSome = true)
      (range : Returns (t₀.findFdsTurn l.share) l.search ((infos i).fdMin, (infos i).fdMax))
      (others : Divides t₀ infos (l.next rest (infos i).fdMax)) : Divides t₀ infos l

theorem Connections.divides_of_divideFds {t₀ : Connections} {infos : ι → HandlerInfo}
    (fuel : Nat) {fdNum rest : Nat} {queue : List ι} {start : Int} (hpos : 0 < fdNum)
    (h : t₀.divideFds fuel fdNum queue.length rest start = some (queue.map infos)) :
    Launcher.Divides t₀ infos ⟨queue, fdNum, rest, ⟨0, start, 0⟩⟩ := by
  induction queue generalizing rest start with
  | nil => exact .done rfl
  | cons i queue ih =>
    rw [List.length_cons, divideFds] at h
    split at h
    · cases h
    · next fdMin fdMax hfind =>
      obtain ⟨others, hothers, heq⟩ := Option.map_eq_some_iff.mp h
      obtain ⟨hinfo, rfl⟩ := List.cons.inj heq
      have hshare := findMinMaxFds_share (by split <;> omega) hfind
      rw [hinfo] at hshare
      refine .next i queue rfl ?_ hshare.last ?_ ?_
      · rw [← hinfo]
        rfl
      · rw [← hinfo]
        exact ⟨fuel, hfind⟩
      · rw [← hinfo]
        exact ih hothers

namespace Threads
variable {lim : Limits} {t₀ : Connections} {infos : ι → HandlerInfo} {s : Threads ι ρ}

/-- What the threads and their launcher keep, whatever the handler is. -/
structure Steady (lim : Limits) (t₀ : Connections) (infos : ι → HandlerInfo)
    (s : Threads ι ρ) : Prop where
  served : s.table.ServedFrom lim t₀
  stdin : s.table.StdinOpen
  above : ∀ i, s.phase i = .starting → s.table.AllAbove t₀
  info : ∀ i, i ∉ s.launcher.queue → s.info i = infos i
  queued : ∀ i ∈ s.launcher.queue, s.phase i = .starting
  divides : s.launcher.Divides t₀ infos

theorem Start.steady {launcher : Launcher ι} (h : s.Start t₀ launcher infos)
    (start : Connections.Initial lim t₀) (hstdin : t₀.StdinOpen)
    (divides : launcher.Divides t₀ infos) : s.Steady lim t₀ infos where
  served := by
    rw [h.table]
    exact start.servedFrom
  stdin := by
    rw [h.table]
    exact hstdin
  above i _ := by
    rw [h.table]
    exact start.allAbove
  info := h.info
  queued i _ := h.phase i
  divides := by
    rw [h.launcher]
    exact divides

theorem Steady.launched (h : s.Steady lim t₀ infos) {i : ι} {p : LoopPhase}
    (hphase : s.phase i = p) (hp : p ≠ .starting) : i ∉ s.launcher.queue := by
  intro hi
  exact hp (hphase.symm.trans (h.queued i hi))

theorem Steady.isSome_eq (h : s.Steady lim t₀ infos) {i : ι} (hi : s.phase i = .starting)
    {k k₀ : Int} (hsome : (t₀.fdsArray k₀).isSome = true) (hle : k ≤ k₀) :
    (s.table.fdsArray k).isSome = (t₀.fdsArray k).isSome :=
  h.served.isSome_eq ((h.above i hi).plain hsome hle)

/-- While other threads serve their sockets, the search comes to the range of the next thread. -/
theorem Steady.range (h : s.Steady lim t₀ infos) {i : ι} {rest : List ι}
    (hqueue : s.launcher.queue = i :: rest) :
    Returns (s.table.findFdsTurn s.launcher.share) s.launcher.search
      ((infos i).fdMin, (infos i).fdMax) := by
  have hi : s.phase i = .starting := h.queued i (hqueue ▸ List.mem_cons_self)
  cases h.divides with
  | done queue => cases queue.symm.trans hqueue
  | next j others queue fdNum last range =>
    cases queue.symm.trans hqueue
    exact Connections.returns_congr range fun k hk => h.isSome_eq hi last hk

variable [DecidableEq ι]

theorem Steady.setPhase (h : s.Steady lim t₀ infos) {i : ι} (hi : i ∉ s.launcher.queue)
    {p : LoopPhase} (hp : p ≠ .starting) : (s.setPhase i p).Steady lim t₀ infos where
  served := h.served
  stdin := h.stdin
  above j hj := by
    change Function.update s.phase i p j = .starting at hj
    have hne : j ≠ i := by
      rintro rfl
      exact hp ((Function.update_self j p s.phase).symm.trans hj)
    rw [Function.update_of_ne hne] at hj
    exact h.above j hj
  info := h.info
  queued j hj := by
    have hne : j ≠ i := fun heq => hi (heq ▸ hj)
    exact (Function.update_of_ne hne p s.phase).trans (h.queued j hj)
  divides := h.divides

theorem Steady.setHandler (h : s.Steady lim t₀ infos) (i : ι) (r : ρ) :
    (s.setHandler i r).Steady lim t₀ infos :=
  ⟨h.served, h.stdin, h.above, h.info, h.queued, h.divides⟩

omit [DecidableEq ι] in
theorem Steady.serve (h : s.Steady lim t₀ infos) (w : Waiter ρ) {svc : Service}
    (orderly : s.Orderly svc) {t' : Connections} {fd : Int}
    (hs : Connections.Served lim svc.accept.activeIfd s.table t' fd) :
    (s.setTable w t').Steady lim t₀ infos where
  served := by
    rcases hs.event_or with rfl | hevent
    · exact h.served
    · exact h.served.event hevent
  stdin := by
    rcases hs.event_or with rfl | hevent
    · exact h.stdin
    · exact h.stdin.event h.served.consistent hevent
  above i hi := by
    apply hs.allAbove (h.above i hi)
    intro hopen k hk
    exact orderly.above i hi hopen k ((h.served.listening k).mpr hk)
  info := h.info
  queued := h.queued
  divides := h.divides

omit [DecidableEq ι] in
theorem Steady.search (h : s.Steady lim t₀ infos) {i : ι} {rest : List ι}
    (hqueue : s.launcher.queue = i :: rest) {f : FindFds}
    (hturn : s.table.findFdsTurn s.launcher.share s.launcher.search = .next f) :
    (s.setSearch f).Steady lim t₀ infos := by
  have hi : s.phase i = .starting := h.queued i (hqueue ▸ List.mem_cons_self)
  refine ⟨h.served, h.stdin, h.above, h.info, h.queued, ?_⟩
  have hrange := (Returns.next_iff hturn).mp (h.range hqueue)
  cases h.divides with
  | done queue => cases queue.symm.trans hqueue
  | next j others queue fdNum last range rest =>
    cases queue.symm.trans hqueue
    refine .next i _ queue fdNum last ?_ rest
    exact Connections.returns_congr hrange fun k hk => (h.isSome_eq hi last hk).symm

theorem Steady.launch (h : s.Steady lim t₀ infos) {i : ι} {rest : List ι}
    (hqueue : s.launcher.queue = i :: rest) {fdMin fdMax : Int}
    (hturn : s.table.findFdsTurn s.launcher.share s.launcher.search = .done (fdMin, fdMax)) :
    (s.launch i rest fdMin fdMax).Steady lim t₀ infos := by
  have heq := (h.range hqueue).unique (Returns.of_done hturn)
  cases heq
  cases h.divides with
  | done queue => cases queue.symm.trans hqueue
  | next j others queue fdNum last range others =>
    cases queue.symm.trans hqueue
    refine ⟨h.served, h.stdin, h.above, ?_, ?_, others⟩
    · intro j hj
      show Function.update s.info i _ j = infos j
      by_cases hji : j = i
      · rw [hji, Function.update_self, ← fdNum]
      · rw [Function.update_of_ne hji]
        apply h.info
        rw [hqueue]
        exact List.not_mem_cons_of_ne_of_not_mem hji hj
    · intro j hj
      exact h.queued j (hqueue ▸ List.mem_cons_of_mem i hj)

theorem launch_reachable (w : Waiter ρ) (lim : Limits) (meets : Threads ι ρ → Service → Prop)
    (i : ι) (rest : List ι) (hqueue : s.launcher.queue = i :: rest) {fdMin fdMax : Int}
    (h : Returns (s.table.findFdsTurn s.launcher.share) s.launcher.search (fdMin, fdMax)) :
    Relation.ReflTransGen (Step w lim meets) s (s.launch i rest fdMin fdMax) := by
  obtain ⟨n, hn⟩ := h
  induction n generalizing s with
  | zero => cases hn
  | succ n ih =>
    cases hturn : s.table.findFdsTurn s.launcher.share s.launcher.search with
    | next f =>
      rw [iterate_next hturn] at hn
      exact .head (.search i rest hqueue f hturn) (ih (s := s.setSearch f) hqueue hn)
    | done r =>
      rw [iterate_done hturn] at hn
      cases hn
      exact .single (.launch i rest hqueue fdMin fdMax hturn)

/-- A thread that was launched has the range `infos`, and the next one comes to be launched with
its own. -/
structure Launched (w : Waiter ρ) (lim : Limits) (infos : ι → HandlerInfo)
    (s : Threads ι ρ) : Prop where
  info : ∀ i, i ∉ s.launcher.queue → s.info i = infos i
  next : ∀ i rest, s.launcher.queue = i :: rest →
    Relation.ReflTransGen (Step w lim Orderly) s
      (s.launch i rest (infos i).fdMin (infos i).fdMax)

theorem Steady.toLaunched (h : s.Steady lim t₀ infos) (w : Waiter ρ) : s.Launched w lim infos where
  info := h.info
  next i rest hqueue := launch_reachable w lim Orderly i rest hqueue (h.range hqueue)

end Threads

/-! ## All threads -/

section System
variable [DecidableEq ι] {w : Waiter ρ} {lim : Limits} {t₀ : Connections} {infos : ι → HandlerInfo}
  {Sets Keeps : ι → Connections → ρ → Prop}

structure Threads.Ok (lim : Limits) (t₀ : Connections) (infos : ι → HandlerInfo)
    (Sets Keeps : ι → Connections → ρ → Prop) (s : Threads ι ρ) : Prop
    extends s.Steady lim t₀ infos where
  threads : ∀ i, (s.phase i).Ok (t₀.socketsOf (infos i)) (Sets i) (Keeps i) s.table (s.handler i)

omit [DecidableEq ι] in
theorem Threads.Start.ok {s : Threads ι ρ} {launcher : Launcher ι}
    (h : s.Start t₀ launcher infos) (start : Connections.Initial lim t₀) (hstdin : t₀.StdinOpen)
    (divides : launcher.Divides t₀ infos) : s.Ok lim t₀ infos Sets Keeps where
  toSteady := h.steady start hstdin divides
  threads i := by
    rw [h.phase i, h.table]
    intro fd l _
    exact start.connections fd l

theorem Threads.Ok.own {s : Threads ι ρ} (h : s.Ok lim t₀ infos Sets Keeps) {i : ι}
    (hi : i ∉ s.launcher.queue) (r : ρ) {p : LoopPhase} (hne : p ≠ .starting)
    (hp : p.Ok (t₀.socketsOf (infos i)) (Sets i) (Keeps i) s.table r) :
    ((s.setHandler i r).setPhase i p).Ok lim t₀ infos Sets Keeps := by
  refine ⟨(h.setHandler i r).setPhase hi hne, fun j => ?_⟩
  unfold setHandler setPhase
  dsimp only
  by_cases hj : j = i
  · rw [hj, Function.update_self, Function.update_self]
    exact hp
  · rw [Function.update_of_ne hj, Function.update_of_ne hj]
    exact h.threads j

theorem Threads.Ok.phase {s : Threads ι ρ} (h : s.Ok lim t₀ infos Sets Keeps) {i : ι}
    (hi : i ∉ s.launcher.queue) {p : LoopPhase} (hne : p ≠ .starting)
    (hp : p.Ok (t₀.socketsOf (infos i)) (Sets i) (Keeps i) s.table (s.handler i)) :
    (s.setPhase i p).Ok lim t₀ infos Sets Keeps := by
  have hown := h.own hi (s.handler i) hne hp
  unfold setHandler at hown
  rw [Function.update_eq_self] at hown
  exact hown

variable (hw : ∀ i, w.Sound lim t₀ (infos i) (Sets i) (Keeps i))
  (hdisjoint : ∀ i j, i ≠ j → ∀ l ∈ t₀.socketsOf (infos i), l ∉ t₀.socketsOf (infos j))
  (hbounded : ∀ i, t₀.Bounded (infos i))
include hw

omit [DecidableEq ι] in
theorem Threads.Ok.complete {s : Threads ι ρ} (h : s.Ok lim t₀ infos Sets Keeps) {i : ι}
    {ready : Int → Bool} {a : Arrivals} (waiting : s.phase i = .waiting)
    (waits : w.waits (s.handler i) s.table ready a) :
    a.Complete lim (t₀.socketsOf (infos i)) s.table ready := by
  have hi := h.threads i
  rw [waiting] at hi
  exact (hw i).waits _ _ _ _ h.served h.stdin hi waits

theorem Threads.Ok.arrive {s : Threads ι ρ} (h : s.Ok lim t₀ infos Sets Keeps) {i : ι}
    {ready : Int → Bool} {a : Arrivals} (waiting : s.phase i = .waiting)
    (waits : w.waits (s.handler i) s.table ready a) :
    (s.arrive i a).Ok lim t₀ infos Sets Keeps := by
  have ha := h.complete hw waiting waits
  have hi := h.threads i
  rw [waiting] at hi
  have hlaunched := h.launched waiting LoopPhase.noConfusion
  unfold Threads.arrive
  rw [if_neg (by have := ha.count; omega)]
  split
  · exact h.phase hlaunched LoopPhase.noConfusion hi
  · exact h.phase hlaunched LoopPhase.noConfusion (Look.Ok.start (hw i) h.served hi ha)

include hbounded in
theorem Threads.Ok.prepare {s : Threads ι ρ} (h : s.Ok lim t₀ infos Sets Keeps) {i : ι}
    (launched : i ∉ s.launcher.queue) (starting : s.phase i = .starting) :
    (s.prepare w i).Ok lim t₀ infos Sets Keeps := by
  have hi := h.threads i
  rw [starting] at hi
  have hapart := (hbounded i).apart h.served (h.above i starting) hi
  unfold Threads.prepare
  rw [h.info i launched]
  exact h.own launched _ LoopPhase.noConfusion ((hw i).prepare _ h.served hapart hi)

theorem Threads.Ok.finish {s : Threads ι ρ} (h : s.Ok lim t₀ infos Sets Keeps) {i : ι} {l : Look}
    (looking : s.phase i = .looking l) (done : ¬ l.more) :
    (s.finish w i l).Ok lim t₀ infos Sets Keeps := by
  have hi : l.Ok (t₀.socketsOf (infos i)) (Sets i) (Keeps i) s.table (s.handler i) := by
    have hi := h.threads i
    rw [looking] at hi
    exact hi
  have hlaunched := h.launched looking LoopPhase.noConfusion
  obtain ⟨hzero, -⟩ := hi.done done
  have hreturns : ∃ r, (if l.doUpdate then w.update (infos i) s.table (s.handler i)
      else some (.ok (s.handler i))) = some (.ok r) ∧ Sets i s.table r := by
    split
    · exact (hw i).update _ _ h.served hi.keeps
    · next hnot => exact ⟨_, rfl, hi.sets (Bool.eq_false_of_not_eq_true hnot)⟩
  obtain ⟨r, hr, hsets⟩ := hreturns
  unfold Threads.finish
  rw [h.info i hlaunched, hr, if_pos hzero]
  exact h.own hlaunched r LoopPhase.noConfusion hsets

include hdisjoint

theorem Threads.Ok.look {s : Threads ι ρ} (h : s.Ok lim t₀ infos Sets Keeps) {i : ι} {l : Look}
    {svc : Service} (looking : s.phase i = .looking l) (more : l.more)
    (orderly : s.Orderly svc) :
    (s.look w i lim svc l).Ok lim t₀ infos Sets Keeps := by
  have hi : l.Ok (t₀.socketsOf (infos i)) (Sets i) (Keeps i) s.table (s.handler i) := by
    have hi := h.threads i
    rw [looking] at hi
    exact hi
  have hlaunched := h.launched looking LoopPhase.noConfusion
  obtain ⟨-, hend⟩ := more
  have hallowed := hi.allowed l.ifd le_rfl hend
  unfold Threads.look
  dsimp only
  rw [hallowed, if_neg (Bool.noConfusion)]
  split
  · next hzero => exact h.phase hlaunched LoopPhase.noConfusion (hi.skip hend hzero)
  next hne =>
  generalize hfd : l.arrivals.analyzeArrival l.ifd = fd at hne
  have hmem : fd ∈ l.arrivals.namedFrom l.ifd := by
    rw [Arrivals.namedFrom_cons hend, hfd, if_neg hne]
    exact List.mem_cons_self
  have hwatched := hi.watched fd hmem
  obtain ⟨data, hdata⟩ := h.served.watched_record hwatched
  obtain ⟨t', doUpdate, hserve, hsame, hserved⟩ := h.served.serveFd hdata orderly.admissible
  have htouched := hserved.touched h.served hwatched
  have h' := h.serve w orderly hserved
  rw [hdata]
  dsimp only
  rw [hserve]
  refine ⟨h'.setPhase hlaunched LoopPhase.noConfusion, fun j => ?_⟩
  unfold setTable setPhase
  dsimp only
  by_cases hj : j = i
  · rw [hj, Function.update_self]
    exact hi.next (hw i) h.served hend hfd hne hsame hserved
  · rw [Function.update_of_ne hj]
    exact (h.threads j).foreign (hw j) h.served htouched (hdisjoint i j (Ne.symm hj)) h'.served

include hbounded

theorem Threads.Ok.step {s s' : Threads ι ρ} (h : s.Ok lim t₀ infos Sets Keeps)
    (hstep : Threads.Step w lim Threads.Orderly s s') : s'.Ok lim t₀ infos Sets Keeps := by
  cases hstep with
  | search i rest queue f turn => exact ⟨h.search queue turn, h.threads⟩
  | launch i rest queue fdMin fdMax turn => exact ⟨h.launch queue turn, h.threads⟩
  | prepare i launched starting => exact h.prepare hw hbounded launched starting
  | wait i ready a waiting waits => exact h.arrive hw waiting waits
  | look i l svc looking more met => exact h.look hw hdisjoint looking more met
  | finish i l looking done => exact h.finish hw looking done

theorem Threads.Ok.run {s s' : Threads ι ρ} (h : s.Ok lim t₀ infos Sets Keeps)
    (run : Relation.ReflTransGen (Threads.Step w lim Threads.Orderly) s s') :
    s'.Ok lim t₀ infos Sets Keeps := by
  induction run with
  | refl => exact h
  | tail _ hstep ih => exact ih.step hw hdisjoint hbounded hstep

end System

end Sockperf
