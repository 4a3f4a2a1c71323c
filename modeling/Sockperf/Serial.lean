import Sockperf.Arrivals
import Sockperf.Multiplexer

/-!
# One client after the other

`IoRecvfrom` is the handler that is used when no other is asked for. It does not wait and has
nothing to update: its thread has one socket, and blocks in `accept` on it, or in `recvfrom` on
the connection in the first slot. So the next client of the socket is accepted when the last one
has gone.
-/

namespace Sockperf

open Slots
set_option autoImplicit false

universe u
variable {ι : Type u}

/-! ## The handler -/

/-- `m_look_start` is `m_fd_min`, and `m_look_end` is one more. -/
structure IoRecvfrom where
  fdMin : Int
  fdNum : Int
  deriving DecidableEq, Repr

namespace IoRecvfrom

def new (info : HandlerInfo) : IoRecvfrom := ⟨info.fdMin, info.fdNum⟩

/-- `IoRecvfrom::analyzeArrival`, the same text as in `IoRecvfromMUX` -/
def analyzeArrival (t : Connections) (ifd : Int) : Except IoRecvfromMUX.ArrivalFault Int :=
  IoRecvfromMUX.analyzeArrival t ifd

/-- `IoRecvfrom::waitArrival`, and what is found in the table then -/
def waitArrival (r : IoRecvfrom) (t : Connections) : Arrivals where
  numReady := r.fdNum
  lookStart := r.fdMin
  lookEnd := r.fdMin + 1
  allowed ifd := (analyzeArrival t ifd).toBool
  analyzeArrival ifd := (analyzeArrival t ifd).toOption.getD 0

def waiter : Waiter IoRecvfrom where
  prepareNetwork info _ := new info
  waits r t _ a := a = r.waitArrival t
  update _ _ r := some (.ok r)
  drop _ r := r

end IoRecvfrom

/-! ## At most one connection -/

namespace Connections
variable {t t₀ t' : Connections} {lim : Limits} {l fd new : Int}

/-- Only the first slot of the socket is used, if any. -/
def Alone (t : Connections) (l : Int) : Prop :=
  ∃ data list, t.fdsArray l = some data ∧ data.activeFdList = some list ∧
    Within invalidSocket 1 list

/-- It is the turn of the only connection, or of the socket itself while there is none. -/
def InTurn (t : Connections) (l fd : Int) : Prop :=
  (∀ k, t.kernel k = some (.connection l) ↔ k = fd) ∨
    fd = l ∧ ∀ k, t.kernel k ≠ some (.connection l)

theorem Initial.alone (h : Initial lim t) (hl : (t.fdsArray l).isSome = true) : t.Alone l := by
  obtain ⟨data, hdata⟩ := Option.isSome_iff_exists.mp hl
  obtain ⟨-, -, -, -, hlist⟩ := h.sockets l data hdata
  exact ⟨data, _, hdata, hlist, Within.replicate 1 _⟩

/-- The assertions of `analyzeArrival` hold. -/
theorem Alone.analyzeArrival (h : t.Alone l) (hc : t.Consistent lim) :
    ∃ fd, IoRecvfrom.analyzeArrival t l = .ok fd ∧ t.InTurn l fd := by
  obtain ⟨data, list, hdata, hlist, hwithin⟩ := h
  obtain ⟨-, hlistens⟩ := hc.listener l data list hdata hlist
  have hcount := hlistens.count
  unfold IoRecvfrom.analyzeArrival IoRecvfromMUX.analyzeArrival
  rw [hdata]
  dsimp only
  rw [hlist]
  dsimp only
  rcases hwithin.used_one with hnil | ⟨fd, hfirst, hone⟩
  · rw [hnil, List.length_nil, Nat.cast_zero] at hcount
    rw [if_neg (not_not.mpr hcount)]
    refine ⟨l, rfl, Or.inr ⟨rfl, ?_⟩⟩
    intro k hconn
    have hmem := (hlistens.mem k).mpr hconn
    rw [hnil] at hmem
    cases hmem
  · rw [hone] at hcount
    have hne : data.activeFdCount ≠ 0 := by
      intro hzero
      cases hzero.symm.trans hcount
    rw [if_pos hne, hfirst]
    refine ⟨fd, rfl, Or.inl ?_⟩
    intro k
    rw [← hlistens.mem k, hone, List.mem_singleton]

theorem InTurn.unique (h : t.InTurn l fd) {k k' : Int} (hk : t.kernel k = some (.connection l))
    (hk' : t.kernel k' = some (.connection l)) : k' = k := by
  rcases h with honly | ⟨-, hnone⟩
  · rw [(honly k).mp hk, (honly k').mp hk']
  · exact absurd hk (hnone k)

theorem InTurn.watched (h : t.InTurn l fd) {own : List Int} (hl : l ∈ own) : t.Watched own fd := by
  rcases h with honly | ⟨rfl, -⟩
  · exact Or.inr ⟨l, hl, (honly fd).mpr rfl⟩
  · exact Or.inl hl

theorem closeIfd_record {next k : Int} (hcloses : t.closeIfd next k = some t')
    (hother : l ≠ k) {data : FdsRecord} {list : List Int} (hdata : t.fdsArray l = some data)
    (hlist : data.activeFdList = some list) :
    ∃ data' list', t'.fdsArray l = some data' ∧ data'.activeFdList = some list' ∧
      (list' = list ∨ list' = list.replace k invalidSocket) := by
  unfold closeIfd at hcloses
  split at hcloses
  · cases hcloses
  next record hrecord =>
  split at hcloses
  · cases hcloses
  next slots hslots =>
  split at hcloses
  · -- the connection is in a slot
    dsimp only at hcloses
    split at hcloses
    · cases hcloses
    cases hcloses
    by_cases hl : l = next
    · subst hl
      cases hrecord.symm.trans hdata
      cases hslots.symm.trans hlist
      exact ⟨_, _, (Function.update_of_ne hother _ _).trans (Function.update_self _ _ _), rfl,
        Or.inr rfl⟩
    · refine ⟨data, list, ?_, hlist, Or.inl rfl⟩
      exact ((Function.update_of_ne hother _ _).trans (Function.update_of_ne hl _ _)).trans hdata
  · cases hcloses
    exact ⟨data, list, hdata, hlist, Or.inl rfl⟩

theorem Alone.event (h : t.Alone l) (hc : t.Consistent lim) (he : Event lim t t')
    (hone : ∀ k k', t.kernel k = some (.connection l) → t'.kernel k' = some (.connection l) →
      k' = k) : t'.Alone l := by
  obtain ⟨data, list, hdata, hlist, hwithin⟩ := h
  obtain ⟨hother, hlistens⟩ := hc.listener l data list hdata hlist
  cases he with
  | accept ifd out handshake fresh =>
    rcases serverAccept_table lim ifd handshake fresh with hsame |
      ⟨data', list', tmp, hdata', hlist', hpos, -, -, -, -, -, -, hplaced⟩
    · rw [hsame]
      exact ⟨data, list, hdata, hlist, hwithin⟩
    rw [hplaced] at hone ⊢
    have hclosed := fresh hpos
    have hne : l ≠ out.activeIfd := by
      intro heq
      rw [heq] at hother
      cases hother.symm.trans hclosed
    by_cases hl : l = ifd
    · subst hl
      cases hdata'.symm.trans hdata
      cases hlist'.symm.trans hlist
      have hempty : used invalidSocket list = [] := by
        apply List.eq_nil_iff_forall_not_mem.mpr
        intro k hk
        have hconn := (hlistens.mem k).mp hk
        have hsame : out.activeIfd = k := hone k _ hconn (Function.update_self _ _ _)
        rw [← hsame] at hconn
        cases hconn.symm.trans hclosed
      refine ⟨_, _, (Function.update_of_ne hne _ _).trans (Function.update_self _ _ _), rfl, ?_⟩
      apply hwithin.replace_free
      rw [hempty]
      exact Nat.one_pos
    · refine ⟨data, list, ?_, hlist, hwithin⟩
      exact ((Function.update_of_ne hne _ _).trans (Function.update_of_ne hl _ _)).trans hdata
  | close next k descriptor closes =>
    by_cases hne : l = k
    · -- a listening socket is in no slot
      rcases hc.closeIfd_change descriptor closes with rfl | ⟨hchange, -⟩
      · exact ⟨data, list, hdata, hlist, hwithin⟩
      · rw [hne] at hother
        exact absurd hother hchange.before_ne
    obtain ⟨data', list', hdata', hlist', hslots⟩ := closeIfd_record closes hne hdata hlist
    refine ⟨data', list', hdata', hlist', ?_⟩
    rcases hslots with rfl | rfl
    · exact hwithin
    · exact hwithin.replace_used

theorem Served.at_most_one (hs : Served lim new t t' fd)
    (hunique : ∀ k k', t.kernel k = some (.connection l) → t.kernel k' = some (.connection l) →
      k' = k)
    (hturn : fd = l → ∀ k, t.kernel k ≠ some (.connection l)) (k k' : Int)
    (hk : t.kernel k = some (.connection l)) (hk' : t'.kernel k' = some (.connection l)) :
    k' = k := by
  apply hunique k k' hk
  cases hs with
  | same hsame => rwa [hsame] at hk'
  | accepted event change fresh opened =>
    by_cases hx : k' = new
    · rw [hx] at hk'
      rcases change.after with ⟨hnone, -⟩ | ⟨hconn, -⟩
      · cases hnone.symm.trans hk'
      · cases hconn.symm.trans hk'
        exact absurd hk (hturn rfl k)
    · rwa [change.kernel k' hx] at hk'
  | closed next event change connection =>
    by_cases hx : k' = fd
    · rw [hx] at hk' ⊢
      rcases change.after with ⟨hnone, -⟩ | ⟨hconn, -⟩
      · cases hnone.symm.trans hk'
      · cases hconn.symm.trans hk'
        exact connection
    · rwa [change.kernel k' hx] at hk'

end Connections

/-! ## The threads -/

/-- Where a thread with the socket `l` stands. -/
inductive LoopPhase.Turn (t : Connections) (l : Int) : LoopPhase → Prop
  | starting : Turn t l .starting
  | waiting : Turn t l .waiting
  /-- the turn was found in the table, and it still is the one -/
  | first {look : Look} (numReady : look.numReady = 1) (ifd : look.ifd = l)
      (lookEnd : look.arrivals.lookEnd = l + 1) (allowed : look.arrivals.allowed l = true)
      (analyzed : IoRecvfrom.analyzeArrival t l = .ok (look.arrivals.analyzeArrival l))
      (served : look.served = []) : Turn t l (.looking look)
  | last {look : Look} (numReady : look.numReady = 0) (served : look.served.length = 1) :
      Turn t l (.looking look)

theorem LoopPhase.Turn.frame {t t' : Connections} {l : Int} {p : LoopPhase} (h : p.Turn t l)
    (hrecord : t'.fdsArray l = t.fdsArray l) : p.Turn t' l := by
  cases h with
  | starting => exact .starting
  | waiting => exact .waiting
  | first numReady ifd lookEnd allowed analyzed served =>
    refine .first numReady ifd lookEnd allowed ?_ served
    rw [← analyzed]
    unfold IoRecvfrom.analyzeArrival IoRecvfromMUX.analyzeArrival
    rw [hrecord]
  | last numReady served => exact .last numReady served

/-- Every thread has one socket of its own. -/
structure OneSocket (t₀ : Connections) (infos : ι → HandlerInfo) : Prop where
  range : ∀ i, (infos i).fdMax = (infos i).fdMin
  fdNum : ∀ i, (infos i).fdNum = 1
  socket : ∀ i, (t₀.fdsArray (infos i).fdMin).isSome = true
  distinct : ∀ i j, i ≠ j → (infos i).fdMin ≠ (infos j).fdMin

structure Threads.InTurn (lim : Limits) (t₀ : Connections) (infos : ι → HandlerInfo)
    (s : Threads ι IoRecvfrom) : Prop extends s.Steady lim t₀ infos where
  alone : ∀ l, (t₀.fdsArray l).isSome = true → s.table.Alone l
  handler : ∀ i, s.phase i ≠ .starting → s.handler i = IoRecvfrom.new (infos i)
  turn : ∀ i, (s.phase i).Turn s.table (infos i).fdMin

section System
variable [DecidableEq ι] {lim : Limits} {t₀ : Connections} {infos : ι → HandlerInfo}
  {s s' : Threads ι IoRecvfrom}

omit [DecidableEq ι] in
theorem OneSocket.mem_own (h : OneSocket t₀ infos) (i : ι) :
    (infos i).fdMin ∈ t₀.socketsOf (infos i) :=
  Connections.mem_socketsOf.mpr ⟨⟨le_rfl, (h.range i).ge⟩, h.socket i⟩

omit [DecidableEq ι] in
theorem OneSocket.eq_of_mem (h : OneSocket t₀ infos) {i : ι} {l : Int}
    (hl : l ∈ t₀.socketsOf (infos i)) : l = (infos i).fdMin := by
  obtain ⟨⟨hmin, hmax⟩, -⟩ := Connections.mem_socketsOf.mp hl
  have hrange := h.range i
  omega

omit [DecidableEq ι] in
theorem Threads.Start.inTurn {launcher : Launcher ι} (h : s.Start t₀ launcher infos)
    (start : Connections.Initial lim t₀) (hstdin : t₀.StdinOpen)
    (divides : launcher.Divides t₀ infos) : s.InTurn lim t₀ infos where
  toSteady := h.steady start hstdin divides
  alone l hl := by
    rw [h.table]
    exact start.alone hl
  handler i hi := absurd (h.phase i) hi
  turn i := by
    rw [h.phase i]
    exact .starting

theorem Threads.InTurn.own (h : s.InTurn lim t₀ infos) {i : ι} (hi : i ∉ s.launcher.queue)
    {p : LoopPhase} (hne : p ≠ .starting) (hp : p.Turn s.table (infos i).fdMin) :
    ((s.setHandler i (IoRecvfrom.new (infos i))).setPhase i p).InTurn lim t₀ infos := by
  refine ⟨(h.setHandler i _).setPhase hi hne, h.alone, fun j => ?_, fun j => ?_⟩
  · unfold setHandler setPhase
    dsimp only
    by_cases hj : j = i
    · rw [hj, Function.update_self, Function.update_self]
      exact fun _ => rfl
    · rw [Function.update_of_ne hj, Function.update_of_ne hj]
      exact h.handler j
  · unfold setHandler setPhase
    dsimp only
    by_cases hj : j = i
    · rw [hj, Function.update_self]
      exact hp
    · rw [Function.update_of_ne hj]
      exact h.turn j

omit [DecidableEq ι] in
theorem Threads.InTurn.handler_of_phase (h : s.InTurn lim t₀ infos) {i : ι} {p : LoopPhase}
    (hphase : s.phase i = p) (hp : p ≠ .starting) : s.handler i = IoRecvfrom.new (infos i) := by
  apply h.handler
  rw [hphase]
  exact hp

theorem Threads.InTurn.phase (h : s.InTurn lim t₀ infos) {i : ι} {p p' : LoopPhase}
    (hphase : s.phase i = p') (hp' : p' ≠ .starting) (hne : p ≠ .starting)
    (hp : p.Turn s.table (infos i).fdMin) : (s.setPhase i p).InTurn lim t₀ infos := by
  have hown := h.own (h.launched hphase hp') hne hp
  rw [← h.handler_of_phase hphase hp', setHandler, Function.update_eq_self] at hown
  exact hown

variable (hone : OneSocket t₀ infos)
include hone

theorem Threads.InTurn.arrive (h : s.InTurn lim t₀ infos) {i : ι}
    (waiting : s.phase i = .waiting) :
    (s.arrive i ((s.handler i).waitArrival s.table)).InTurn lim t₀ infos := by
  obtain ⟨fd, hfd, -⟩ := (h.alone _ (hone.socket i)).analyzeArrival h.served.consistent
  have hnum := hone.fdNum i
  rw [h.handler_of_phase waiting LoopPhase.noConfusion]
  unfold Threads.arrive IoRecvfrom.new IoRecvfrom.waitArrival
  dsimp only
  rw [if_neg (by omega), if_neg (by omega)]
  apply h.phase waiting LoopPhase.noConfusion LoopPhase.noConfusion
  refine .first hnum rfl rfl ?_ ?_ rfl
  · dsimp only
    rw [hfd]
    rfl
  · dsimp only
    rw [hfd]
    rfl

omit [DecidableEq ι] hone in
theorem Threads.InTurn.alone_served (h : s.InTurn lim t₀ infos) {l fd new : Int}
    {t' : Connections} (hturn : s.table.InTurn l fd)
    (hserved : Connections.Served lim new s.table t' fd) {l' : Int}
    (hl' : (t₀.fdsArray l').isSome = true) : t'.Alone l' := by
  have halone := h.alone l' hl'
  rcases hserved.event_or with rfl | hevent
  · exact halone
  apply halone.event h.served.consistent hevent
  obtain ⟨fd', -, hturn'⟩ := halone.analyzeArrival h.served.consistent
  apply hserved.at_most_one fun k k' => hturn'.unique
  -- it is the turn of a socket only while it has no connection
  intro heq
  rcases hturn with honly | ⟨hmin, hnone⟩
  · have hconn := (honly _).mpr rfl
    obtain ⟨data', list', hdata', hlist', -⟩ := halone
    have hother := (h.served.consistent.listener l' data' list' hdata' hlist').1
    rw [heq] at hconn
    cases hconn.symm.trans hother
  · rw [← heq, hmin]
    exact hnone

omit [DecidableEq ι] in
theorem Threads.InTurn.record_touched (h : s.InTurn lim t₀ infos) {i : ι} {t' : Connections}
    (htouched : Connections.Touched lim (t₀.socketsOf (infos i)) s.table t') {l : Int}
    (hl : (t₀.fdsArray l).isSome = true) (hother : l ≠ (infos i).fdMin) :
    t'.fdsArray l = s.table.fdsArray l := by
  cases htouched with
  | same hsame => rw [hsame]
  | change k x mine event change =>
    obtain ⟨data, list, hdata, hlist, -⟩ := h.alone l hl
    apply change.records l
    · exact h.served.consistent.ne_of_list hdata hlist change.before_ne
    · rw [hone.eq_of_mem mine]
      exact hother

theorem Threads.InTurn.look (h : s.InTurn lim t₀ infos) {i : ι} {l : Look} {svc : Service}
    (looking : s.phase i = .looking l) (more : l.more) (orderly : s.Orderly svc) :
    (s.look IoRecvfrom.waiter i lim svc l).InTurn lim t₀ infos := by
  have hi := h.turn i
  rw [looking] at hi
  cases hi with
  | last numReady served => exact absurd numReady more.1
  | first numReady ifd lookEnd allowed analyzed served =>
  obtain ⟨fd, hfd, hturn⟩ := (h.alone _ (hone.socket i)).analyzeArrival h.served.consistent
  cases hfd.symm.trans analyzed
  have hwatched := hturn.watched (hone.mem_own i)
  have hne := h.stdin.ne_zero h.served hwatched
  obtain ⟨data, hdata⟩ := h.served.watched_record hwatched
  obtain ⟨t', doUpdate, hserve, -, hserved⟩ := h.served.serveFd hdata orderly.admissible
  have htouched := hserved.touched h.served hwatched
  unfold Threads.look
  dsimp only
  rw [ifd, allowed, if_neg Bool.noConfusion, if_neg hne, hdata]
  dsimp only
  rw [hserve]
  dsimp only
  have hsteady := h.serve IoRecvfrom.waiter orderly hserved
  have hlaunched := h.launched looking LoopPhase.noConfusion
  refine ⟨hsteady.setPhase hlaunched LoopPhase.noConfusion, fun _ => h.alone_served hturn hserved,
    fun j => ?_, fun j => ?_⟩
  · show Function.update s.phase i _ j ≠ .starting → s.handler j = _
    by_cases hj : j = i
    · intro _
      rw [hj]
      exact h.handler_of_phase looking LoopPhase.noConfusion
    · rw [Function.update_of_ne hj]
      exact h.handler j
  · show (Function.update s.phase i _ j).Turn t' _
    by_cases hj : j = i
    · rw [hj, Function.update_self]
      refine .last ?_ ?_
      · dsimp only
        omega
      · rw [served]
        rfl
    · rw [Function.update_of_ne hj]
      exact (h.turn j).frame
        (h.record_touched hone htouched (hone.socket j) (hone.distinct j i hj))

omit hone in
theorem Threads.InTurn.finish (h : s.InTurn lim t₀ infos) {i : ι} {l : Look}
    (looking : s.phase i = .looking l) (done : ¬ l.more) :
    (s.finish IoRecvfrom.waiter i l).InTurn lim t₀ infos := by
  have hi := h.turn i
  rw [looking] at hi
  cases hi with
  | first numReady ifd lookEnd allowed analyzed served =>
    refine absurd ⟨?_, ?_⟩ done
    · omega
    · omega
  | last numReady served =>
  have hupdate : (if l.doUpdate then IoRecvfrom.waiter.update (s.info i) s.table (s.handler i)
      else some (.ok (s.handler i))) = some (.ok (IoRecvfrom.new (infos i))) := by
    rw [h.handler_of_phase looking LoopPhase.noConfusion]
    exact ite_self _
  unfold Threads.finish
  rw [hupdate]
  dsimp only
  rw [if_pos numReady]
  exact h.own (h.launched looking LoopPhase.noConfusion) LoopPhase.noConfusion .waiting

omit hone in
theorem Threads.InTurn.prepare (h : s.InTurn lim t₀ infos) {i : ι}
    (launched : i ∉ s.launcher.queue) :
    (s.prepare IoRecvfrom.waiter i).InTurn lim t₀ infos := by
  unfold Threads.prepare
  rw [h.info i launched]
  exact h.own launched LoopPhase.noConfusion .waiting

theorem Threads.InTurn.step (h : s.InTurn lim t₀ infos)
    (hstep : Threads.Step IoRecvfrom.waiter lim Threads.Orderly s s') :
    s'.InTurn lim t₀ infos := by
  cases hstep with
  | search i rest queue f turn => exact ⟨h.search queue turn, h.alone, h.handler, h.turn⟩
  | launch i rest queue fdMin fdMax turn =>
    exact ⟨h.launch queue turn, h.alone, h.handler, h.turn⟩
  | prepare i launched starting => exact h.prepare launched
  | wait i ready a waiting waits =>
    rw [show a = (s.handler i).waitArrival s.table from waits]
    exact h.arrive hone waiting
  | look i l svc looking more met => exact h.look hone looking more met
  | finish i l looking done => exact h.finish looking done

theorem Threads.InTurn.run (h : s.InTurn lim t₀ infos)
    (run : Relation.ReflTransGen (Threads.Step IoRecvfrom.waiter lim Threads.Orderly) s s') :
    s'.InTurn lim t₀ infos := by
  induction run with
  | refl => exact h
  | tail _ hstep ih => exact ih.step hone hstep

end System

/-- No thread is stopped. A socket has one connection at most, in the first slot; its thread serves
it, or accepts while there is none, and nobody changes that between the wait and the service. -/
structure Threads.ServesInTurn (own : ι → Int) (s : Threads ι IoRecvfrom) : Prop where
  runs : ∀ i why, s.phase i ≠ .stopped why
  turn : ∀ i, ∃ fd, IoRecvfrom.analyzeArrival s.table (own i) = .ok fd ∧
    s.table.InTurn (own i) fd ∧ (s.table.fdsArray fd).isSome = true ∧
    ∀ l, s.phase i = .looking l → l.more →
      l.ifd = own i ∧ l.arrivals.analyzeArrival l.ifd = fd
  serves : ∀ i l, s.phase i = .looking l → ¬ l.more → l.numReady = 0 ∧ l.served.length = 1

theorem Threads.InTurn.serves {lim : Limits} {t₀ : Connections} {infos : ι → HandlerInfo}
    {s : Threads ι IoRecvfrom} (h : s.InTurn lim t₀ infos) (hone : OneSocket t₀ infos) :
    s.ServesInTurn fun i => (infos i).fdMin where
  runs i why hstopped := by
    have hi := h.turn i
    rw [hstopped] at hi
    cases hi
  turn i := by
    have hi := h.turn i
    obtain ⟨fd, hfd, hturn⟩ := (h.alone _ (hone.socket i)).analyzeArrival h.served.consistent
    obtain ⟨data, hdata⟩ := h.served.watched_record (hturn.watched (hone.mem_own i))
    refine ⟨fd, hfd, hturn, ?_, ?_⟩
    · rw [hdata]
      rfl
    · intro l hlooking more
      rw [hlooking] at hi
      cases hi with
      | first numReady ifd lookEnd allowed analyzed served =>
        cases hfd.symm.trans analyzed
        rw [ifd]
        exact ⟨rfl, rfl⟩
      | last numReady served => exact absurd numReady more.1
  serves i l hlooking done := by
    have hi := h.turn i
    rw [hlooking] at hi
    cases hi with
    | first numReady ifd lookEnd allowed analyzed served =>
      refine absurd ⟨?_, ?_⟩ done
      · omega
      · omega
    | last numReady served => exact ⟨numReady, served⟩

end Sockperf
