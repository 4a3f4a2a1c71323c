import Sockperf.MainLoop

/-!
# The arrivals of the server

`IoSelect`, `IoPoll` and `IoEpoll` find what is ready among the descriptors of their thread. So the
main loop serves every arrival, along every run, and no thread ever stops.
-/

namespace Sockperf

open While
set_option autoImplicit false

universe u v
variable {ι : Type u} {ρ : Type v}

/-! ## The handlers -/

section Positions

theorem filter_map_pick {p : Int → Prop} [DecidablePred p] {fds : List Int}
    (h : ∀ fd ∈ fds, p fd → fd ≠ 0) :
    (fds.map fun fd => if p fd then fd else 0).filter (· ≠ 0) = fds.filter p := by
  induction fds with
  | nil => rfl
  | cons fd fds ih =>
    have ih := ih fun k hk => h k (List.mem_cons_of_mem _ hk)
    rw [List.map_cons]
    by_cases hp : p fd
    · have hne := h fd List.mem_cons_self hp
      rw [if_pos hp, List.filter_cons_of_pos (by simpa using hne),
        List.filter_cons_of_pos (by simpa using hp), ih]
    · rw [if_neg hp, List.filter_cons_of_neg (by simp), List.filter_cons_of_neg (by simpa using hp),
        ih]

theorem map_fdRange_zero {α : Type*} (f : Int → α) (lookEnd : Int) :
    (fdRange 0 (lookEnd - 1)).map f = (List.range lookEnd.toNat).map fun n : Nat => f n := by
  have hlen : (lookEnd - 1 + 1 - 0).toNat = lookEnd.toNat := by omega
  unfold fdRange
  rw [hlen, List.map_map]
  apply List.map_congr_left
  intro n _
  rw [Function.comp_apply, Int.zero_add]

theorem foldl_keeps {α β γ : Type*} {f : α → γ} {g : α → β → α} (h : ∀ a b, f (g a b) = f a)
    (bs : List β) (a : α) : f (bs.foldl g a) = f a := by
  induction bs generalizing a with
  | nil => rfl
  | cons b bs ih => rw [List.foldl_cons, ih, h]

theorem Connections.collected_keeps {γ : Type*} {io : IoHandler ρ} {f : ρ → γ} (t : Connections)
    (hlisten : ∀ r ifd, f (io.listen r ifd) = f r) (hadd : ∀ r fd, f (io.add r fd) = f r)
    (sockets : List Int) (r : ρ) : f (t.collected io sockets r) = f r := by
  apply foldl_keeps
  intro r l
  rw [foldl_keeps hadd, hlisten]

end Positions

section Handlers
variable {lim : Limits} {t₀ t : Connections} {info : HandlerInfo}

theorem Connections.ServedFrom.watched_open (h : t.ServedFrom lim t₀) {fd : Int}
    (hwatched : t.Watched (t₀.socketsOf info) fd) : (t.kernel fd).isSome = true ∧ 0 ≤ fd := by
  obtain ⟨data, hdata⟩ := h.watched_record hwatched
  refine ⟨?_, (h.consistent.range fd data hdata).1⟩
  cases hkernel : t.kernel fd with
  | none => cases (h.consistent.opened fd hkernel).symm.trans hdata
  | some d => rfl

theorem Connections.watched_own
    (hnone : ∀ fd, ∀ l ∈ t₀.socketsOf info, t.kernel fd ≠ some (.connection l)) (fd : Int) :
    t.Watched (t₀.socketsOf info) fd ↔ fd ∈ t₀.socketsOf info := by
  constructor
  · rintro (hown | ⟨l, hl, hconn⟩)
    · exact hown
    · exact absurd hconn (hnone fd l hl)
  · exact Or.inl

theorem IoSelect.Watches.mem_asked {r : IoSelect} {own : List Int} (h : r.Watches own t)
    (fd : Int) : fd ∈ r.asked ↔ t.Watched own fd := by
  rw [asked, List.mem_dedup, List.mem_filter, ← h.bits fd]
  constructor
  · exact And.left
  · intro hfd
    exact ⟨hfd, decide_eq_true (h.inside fd hfd).2⟩

theorem IoSelect.Watches.complete {r : IoSelect} (h : t.ServedFrom lim t₀) (hstdin : t.StdinOpen)
    (hr : r.Watches (t₀.socketsOf info) t) (ready : Int → Bool) :
    (r.waitArrival t ready).Complete lim (t₀.socketsOf info) t ready := by
  have hopen : ∀ fd ∈ r.asked, (t.kernel fd).isSome = true := by
    intro fd hfd
    exact (h.watched_open ((hr.mem_asked fd).mp hfd)).1
  have hnamed : (r.waitArrival t ready).named =
      (fdRange r.lookStart (r.lookEnd - 1)).filter (· ∈ r.asked.filter ready) := by
    apply filter_map_pick
    intro fd _ hfd
    exact hstdin.ne_zero h ((hr.mem_asked fd).mp (List.mem_of_mem_filter hfd))
  have hmem : ∀ fd, fd ∈ (r.waitArrival t ready).named ↔ fd ∈ r.asked.filter ready := by
    intro fd
    rw [hnamed, List.mem_filter, decide_eq_true_iff]
    constructor
    · exact And.right
    · intro hfd
      have hbit := (hr.bits fd).mpr ((hr.mem_asked fd).mp (List.mem_of_mem_filter hfd))
      obtain ⟨hstart, hend⟩ := hr.inside fd hbit
      exact ⟨mem_fdRange.mpr ⟨hstart, by omega⟩, hfd⟩
  have hnodup : (r.waitArrival t ready).named.Nodup := by
    rw [hnamed]
    exact (Connections.nodup_fdRange _ _).filter _
  have hasked : (r.asked.filter ready).Nodup := (List.nodup_dedup _).filter _
  refine ⟨?_, hnodup, ?_, fun _ _ _ => rfl⟩
  · rw [((List.perm_ext_iff_of_nodup hnodup hasked).mpr hmem).length_eq]
    exact if_pos hopen
  · intro fd
    rw [hmem, List.mem_filter, hr.mem_asked]

theorem IoSelect.sound (hall : ∀ l, (t₀.fdsArray l).isSome = true → l ∈ t₀.socketsOf info)
    (hroom : lim.maxFdsNum ≤ fdSetSize) :
    (IoSelect.waiter lim).Sound lim t₀ info (fun t r => r.Watches (t₀.socketsOf info) t)
      fun _ _ => True where
  keeps _ _ _ _ := trivial
  prepare t h apart hnone := by
    have hown := h.socketsOf_eq apart
    have hbits : ∀ fd, fd ∈ t.socketsOf info ↔ t.Watched (t₀.socketsOf info) fd := by
      intro fd
      rw [hown, Connections.watched_own hnone]
    refine ⟨hbits, ?_, ?_⟩
    · intro fd hfd
      obtain ⟨⟨hmin, hmax⟩, -⟩ := Connections.mem_socketsOf.mp hfd
      exact ⟨hmin, Int.lt_add_one_of_le hmax⟩
    · intro fd hfd
      exact (h.watched_lt ((hbits fd).mp hfd)).trans_le hroom
  waits t r ready a h hstdin hsets hwaits := by
    rw [show a = r.waitArrival t ready from hwaits]
    exact hsets.complete h hstdin ready
  update t r h _ := by
    obtain ⟨r', hreturns, hiff⟩ := h.ioSelect info
    refine ⟨r', hreturns, hiff.mpr ⟨?_, ?_⟩⟩
    · intro fd l _ _ hconn
      exact hall l ((h.listening l).mp (h.consistent.connection fd l hconn).2)
    · intro fd hfd
      exact (h.watched_lt hfd).trans_le hroom
  event _ _ _ _ _ _ := trivial
  other t t' r _ hiff hsets :=
    ⟨fun fd => (hsets.bits fd).trans (hiff fd).symm, hsets.inside, hsets.room⟩

theorem IoPoll.Watches.complete {r : IoPoll} (h : t.ServedFrom lim t₀) (hstdin : t.StdinOpen)
    (hr : r.Watches lim (t₀.socketsOf info) t) (hstart : r.lookStart = 0) (ready : Int → Bool) :
    (r.waitArrival lim t ready).Complete lim (t₀.socketsOf info) t ready := by
  have hrevents : ∀ fd ∈ r.entries,
      revents t ready fd = if ready fd then .input else .nothing := by
    intro fd hfd
    obtain ⟨hopen, hpos⟩ := h.watched_open ((hr.entries fd).mp hfd)
    have hsome : t.kernel fd ≠ none := by
      intro hnone
      rw [hnone] at hopen
      cases hopen
    unfold revents
    rw [if_neg (by omega), if_neg hsome]
  have hnamed : (r.waitArrival lim t ready).named = r.entries.filter ready := by
    unfold Arrivals.named Arrivals.namedFrom waitArrival
    dsimp only
    have hentries : ((List.range r.lookEnd.toNat).map fun n : Nat =>
        if revents t ready (r.pollFdArr n) = .input then r.pollFdArr n else 0) =
        r.entries.map fun fd => if revents t ready fd = .input then fd else 0 := by
      unfold IoPoll.entries
      rw [List.map_map]
      rfl
    rw [hstart, map_fdRange_zero, hentries,
      filter_map_pick fun fd hfd _ => hstdin.ne_zero h ((hr.entries fd).mp hfd)]
    apply List.filter_congr
    intro fd hfd
    rw [hrevents fd hfd]
    cases ready fd <;> rfl
  refine ⟨?_, ?_, ?_, ?_⟩
  · rw [hnamed]
    unfold waitArrival
    dsimp only
    congr 2
    apply List.filter_congr
    intro fd hfd
    rw [hrevents fd hfd]
    cases ready fd <;> rfl
  · rw [hnamed]
    exact hr.nodup.filter _
  · intro fd
    rw [hnamed, List.mem_filter, hr.entries]
  · intro ifd _ hend
    exact decide_eq_true (hend.trans_le hr.room)

variable (lim) in
theorem IoPoll.sound (hnum : info.fdNum = (t₀.socketsOf info).length) (arr : Int → Int) :
    (IoPoll.waiter lim arr).Sound lim t₀ info
      (fun t r => r.Watches lim (t₀.socketsOf info) t ∧ r.lookStart = 0 ∧
        r.first info = t₀.socketsOf info)
      fun _ r => r.first info = t₀.socketsOf info where
  keeps _ _ _ hsets := hsets.2.2
  prepare t h apart hnone := by
    have hfirst := IoPoll.prepareNetwork_own hnum h apart arr
    have hentries : (IoPoll.prepareNetwork info t arr).entries = t₀.socketsOf info := hfirst
    refine ⟨⟨?_, ?_, ?_⟩, ?_, hfirst⟩
    · intro fd
      show fd ∈ (IoPoll.prepareNetwork info t arr).entries ↔ _
      rw [hentries, Connections.watched_own hnone]
    · show (IoPoll.prepareNetwork info t arr).entries.Nodup
      rw [hentries]
      exact Connections.nodup_socketsOf
    · have hevents := h.consistent.events_le (Connections.nodup_socketsOf (t := t₀))
        (h.own_other info)
      show info.fdNum ≤ lim.maxFdsNum
      omega
    · exact foldl_keeps (f := IoPoll.lookStart) (g := ioPoll.add) (fun _ _ => rfl) _ ⟨arr, 0, 0⟩
  waits t r ready a h hstdin hsets hwaits := by
    rw [show a = r.waitArrival lim t ready from hwaits]
    exact hsets.1.complete h hstdin hsets.2.1 ready
  update t r h hkeeps := by
    obtain ⟨r', hreturns, hentries, hlookEnd⟩ := IoPoll.updateNdebug_entries hnum h hkeeps
    refine ⟨r', hreturns, ⟨?_, ?_, ?_⟩, ?_, ?_⟩
    · intro fd
      rw [hentries, h.watched_iff]
    · rw [hentries]
      exact h.consistent.nodup Connections.nodup_socketsOf fun l hl => (h.own_other info l hl).1
    · have hevents := h.consistent.events_le (Connections.nodup_socketsOf (t := t₀))
        (h.own_other info)
      rw [hlookEnd]
      exact_mod_cast hevents
    · have hcollected := h.updateNdebug ioPoll (fdRange info.fdMin info.fdMax)
        { r with lookStart := 0, lookEnd := info.fdNum }
      cases hreturns.symm.trans hcollected
      exact t.collected_keeps (f := IoPoll.lookStart) (fun _ _ => rfl) (fun _ _ => rfl) _ _
    · rw [IoPoll.first_eq_take info (by omega), hentries, hnum, Int.toNat_natCast]
      exact List.take_left
  event _ _ _ _ _ hkeeps := hkeeps
  other t t' r _ hiff hsets :=
    ⟨⟨fun fd => (hsets.1.entries fd).trans (hiff fd).symm, hsets.1.nodup, hsets.1.room⟩, hsets.2⟩

theorem IoEpoll.Watches.complete {r : IoEpoll} (h : t.ServedFrom lim t₀) (hstdin : t.StdinOpen)
    (hr : r.Watches (t₀.socketsOf info) t) (hstart : r.lookStart = 0)
    (hsockets : t₀.socketsOf info ≠ []) {ready : Int → Bool} {events : List Int}
    (hevents : r.Reports ready events) :
    (r.waitArrival lim events).Complete lim (t₀.socketsOf info) t ready := by
  have hroom : 0 < r.maxEvents := by
    obtain ⟨l, hl⟩ := List.exists_mem_of_ne_nil _ hsockets
    have hmem : l ∈ r.interest.dedup :=
      List.mem_dedup.mpr ((hr.registered l).mpr (Or.inl hl))
    have hpos := List.length_pos_of_mem hmem
    have hmax := hr.events
    omega
  have hnamed : (r.waitArrival lim events).named = events := by
    unfold Arrivals.named Arrivals.namedFrom waitArrival
    dsimp only
    rw [if_pos hroom, hstart, map_fdRange_zero, Int.toNat_natCast]
    simp only [Int.toNat_natCast]
    have hall : ((List.range events.length).map fun n => events.getD n 0) = events := by
      apply List.ext_getElem
      · simp
      · intro n hn hn'
        simp [hn']
    rw [hall]
    apply List.filter_eq_self.mpr
    intro fd hfd
    have hwatched := (hr.registered fd).mp (hevents.mem fd hfd).1
    exact decide_eq_true (hstdin.ne_zero h hwatched)
  have hsub : events ⊆ r.interest.dedup.filter ready := by
    intro fd hfd
    obtain ⟨hmem, hready⟩ := hevents.mem fd hfd
    exact List.mem_filter.mpr ⟨List.mem_dedup.mpr hmem, hready⟩
  have hlen : events.length = (r.interest.dedup.filter ready).length := by
    have hfilter := List.length_filter_le ready r.interest.dedup
    have hmax := hr.events
    have hfull := hevents.full
    omega
  have hperm : events.Perm (r.interest.dedup.filter ready) :=
    (hevents.nodup.subperm hsub).perm_of_length_le hlen.ge
  refine ⟨?_, ?_, ?_, ?_⟩
  · rw [hnamed]
    exact if_pos hroom
  · rw [hnamed]
    exact hevents.nodup
  · intro fd
    rw [hnamed, hperm.mem_iff, List.mem_filter, List.mem_dedup, hr.registered]
  · intro ifd _ hend
    have hmost : events.length ≤ lim.maxFdsNum := by
      apply Connections.length_le_of_nodup hevents.nodup
      intro fd hfd
      have hwatched := (hr.registered fd).mp (hevents.mem fd hfd).1
      exact ⟨(h.watched_open hwatched).2, h.watched_lt hwatched⟩
    have hlast : (r.waitArrival lim events).lookEnd = events.length := if_pos hroom
    exact decide_eq_true (by omega)

theorem IoEpoll.Registered.drop {r : IoEpoll} (h : t.ServedFrom lim t₀)
    (hr : r.Registered (t₀.socketsOf info) t) :
    (r.drop t).Registered (t₀.socketsOf info) t where
  sockets l hl := by
    apply List.mem_filter.mpr
    rw [(h.own_other info l hl).1]
    exact ⟨hr.sockets l hl, rfl⟩
  watched fd hfd := hr.watched fd (List.mem_of_mem_filter hfd)

theorem IoEpoll.Watches.drop {r : IoEpoll} {t' : Connections} (h : t'.ServedFrom lim t₀)
    (hr : r.Watches (t₀.socketsOf info) t)
    (hiff : ∀ fd, t'.Watched (t₀.socketsOf info) fd ↔ t.Watched (t₀.socketsOf info) fd) :
    (r.drop t').Watches (t₀.socketsOf info) t' where
  registered fd := by
    rw [IoEpoll.drop, List.mem_filter, hr.registered, ← hiff]
    constructor
    · exact And.left
    · intro hwatched
      exact ⟨hwatched, (h.watched_open hwatched).1⟩
  events := by
    have hsub : (r.drop t').interest.dedup ⊆ r.interest.dedup := by
      intro fd hfd
      exact List.mem_dedup.mpr (List.mem_of_mem_filter (List.mem_dedup.mp hfd))
    have hlen := ((List.nodup_dedup _).subperm hsub).length_le
    have hmax := hr.events
    show _ ≤ r.maxEvents
    omega

variable (lim) in
theorem IoEpoll.sound (hnum : info.fdNum = (t₀.socketsOf info).length)
    (hsockets : t₀.socketsOf info ≠ []) :
    (IoEpoll.waiter lim).Sound lim t₀ info
      (fun t r => r.Watches (t₀.socketsOf info) t ∧ r.lookStart = 0)
      fun t r => r.Registered (t₀.socketsOf info) t where
  keeps t r _ hsets :=
    ⟨fun l hl => (hsets.1.registered l).mpr (Or.inl hl),
      fun fd hfd => (hsets.1.registered fd).mp hfd⟩
  prepare t h apart hnone := by
    obtain ⟨hmem, hmax⟩ :=
      IoEpoll.foldl_add (r := ⟨[], 0, 0, 0⟩) lim (t₀.socketsOf info)
    have hprepared : IoEpoll.prepareNetwork lim info t =
        (t₀.socketsOf info).foldl (ioEpoll lim).add ⟨[], 0, 0, 0⟩ := by
      rw [IoEpoll.prepareNetwork, h.socketsOf_eq apart]
    have hexact : ∀ fd, fd ∈ (IoEpoll.prepareNetwork lim info t).interest ↔
        fd ∈ t₀.socketsOf info := by
      intro fd
      rw [hprepared, hmem]
      exact or_iff_left List.not_mem_nil
    have hsub : (IoEpoll.prepareNetwork lim info t).interest.dedup ⊆ t₀.socketsOf info :=
      fun fd hfd => (hexact fd).mp (List.mem_dedup.mp hfd)
    refine ⟨⟨?_, ?_⟩, ?_⟩
    · intro fd
      exact (hexact fd).trans (Connections.watched_own hnone fd).symm
    · have hlen := ((List.nodup_dedup _).subperm hsub).length_le
      have hroom : (IoEpoll.prepareNetwork lim info t).maxEvents = (t₀.socketsOf info).length := by
        rw [hprepared, hmax, Int.zero_add]
      show ((IoEpoll.prepareNetwork lim info t).interest.dedup.length : Int) ≤
        (IoEpoll.prepareNetwork lim info t).maxEvents
      omega
    · exact foldl_keeps (f := IoEpoll.lookStart) (g := (ioEpoll lim).add) (fun _ _ => rfl) _
        ⟨[], 0, 0, 0⟩
  waits t r ready a h hstdin hsets hwaits := by
    obtain ⟨events, hevents, rfl⟩ := hwaits
    exact hsets.1.complete h hstdin hsets.2 hsockets hevents
  update t r h hkeeps := by
    obtain ⟨r', hreturns, hwatches⟩ := hkeeps.update hnum h
    refine ⟨r', hreturns, hwatches, ?_⟩
    have hcollected := h.updateNdebug (ioEpoll lim) (fdRange info.fdMin info.fdMax)
      ⟨r.interest, 0, info.fdNum, info.fdNum⟩
    rw [IoEpoll.updateNdebug, hcollected] at hreturns
    cases hreturns
    exact t.collected_keeps (f := IoEpoll.lookStart) (fun _ _ => rfl) (fun _ _ => rfl) _ _
  event t t' r h hevent hkeeps := by
    rcases hevent with rfl | hevent
    · exact hkeeps.drop h
    · exact hkeeps.event h hevent
  other t t' r h hiff hsets := ⟨hsets.1.drop h hiff, hsets.2⟩

end Handlers

/-! ## Every run -/

/-- No thread is stopped. A wait finds every descriptor of the thread that is ready, and the inner
loop serves each of them once. -/
structure Threads.Serves (w : Waiter ρ) (own : ι → List Int) (s : Threads ι ρ) : Prop where
  runs : ∀ i why, s.phase i ≠ .stopped why
  finds : ∀ i ready a, s.phase i = .waiting → w.waits (s.handler i) s.table ready a →
    a.named.Nodup ∧ a.numReady = a.named.length ∧
      ∀ fd, fd ∈ a.named ↔ s.table.Watched (own i) fd ∧ ready fd = true
  serves : ∀ i l, s.phase i = .looking l → ¬ l.more →
    l.numReady = 0 ∧ l.served = l.arrivals.named

theorem Threads.Ok.serves {w : Waiter ρ} {lim : Limits} {t₀ : Connections}
    {infos : ι → HandlerInfo} {Sets Keeps : ι → Connections → ρ → Prop} {s : Threads ι ρ}
    (h : s.Ok lim t₀ infos Sets Keeps) (hw : ∀ i, w.Sound lim t₀ (infos i) (Sets i) (Keeps i)) :
    s.Serves w fun i => t₀.socketsOf (infos i) where
  runs i why hstopped := by
    have hi := h.threads i
    rw [hstopped] at hi
    exact hi
  finds i ready a hwaiting hwaits := by
    have ha := h.complete hw hwaiting hwaits
    exact ⟨ha.nodup, ha.count, ha.mem⟩
  serves i l hlooking hdone := by
    have hi := h.threads i
    rw [hlooking] at hi
    exact Look.Ok.done hi hdone

/-- The only socket is ready, and a client gets the descriptor 4. -/
def tcpService : Service := ⟨accepts 4, fun _ => .wouldBlock, false, false⟩

theorem tcpService_admissible : tcpService.Admissible tcpStart :=
  ⟨rfl, by decide, fun _ => rfl, rfl⟩

/-- What the threads are told of the sockets is right, and no socket is given twice. -/
structure Connections.Divided (t₀ : Connections) (infos : List HandlerInfo) : Prop where
  num : ∀ i, (infos.get i).fdNum = (t₀.socketsOf (infos.get i)).length
  sockets : ∀ i, t₀.socketsOf (infos.get i) ≠ []
  last : ∀ i, (t₀.fdsArray (infos.get i).fdMax).isSome = true
  disjoint : ∀ i j, i ≠ j → ∀ l ∈ t₀.socketsOf (infos.get i), l ∉ t₀.socketsOf (infos.get j)

theorem Connections.serverSelectPerThread_divided {t₀ : Connections} {lim : Limits}
    {threadsNum : Nat} (hpos : 0 < threadsNum) (hle : threadsNum ≤ (t₀.allSockets lim).length) :
    ∃ infos, t₀.serverSelectPerThread (lim.maxFdsNum + 1) threadsNum (t₀.allSockets lim).length =
        some infos ∧
      infos.length = threadsNum ∧ infos.flatMap t₀.socketsOf = t₀.allSockets lim ∧
      t₀.Divided infos ∧
      (Launcher.start (List.finRange infos.length) (t₀.allSockets lim).length).Divides t₀
        infos.get := by
  obtain ⟨infos, hinfos, rfl, hflat, hnums⟩ := serverSelectPerThread_returns hpos hle
  have hshare := Nat.div_pos hle hpos
  obtain ⟨hshares, -⟩ := divideFds_shares hshare hinfos
  refine ⟨infos, hinfos, rfl, hflat, ⟨?_, ?_, ?_, ?_⟩, ?_⟩
  · intro i
    exact hnums _ (List.get_mem infos i)
  · intro i
    obtain ⟨_, hshare⟩ := hshares.mem (List.get_mem infos i)
    exact List.ne_nil_of_mem (mem_socketsOf.mpr ⟨⟨le_rfl, hshare.nonempty⟩, hshare.first⟩)
  · intro i
    obtain ⟨_, hshare⟩ := hshares.mem (List.get_mem infos i)
    exact hshare.last
  · intro i j hij l hi hj
    have hsame := index_unique hshares.ordered
      (List.getElem?_eq_getElem i.isLt) (List.getElem?_eq_getElem j.isLt)
      (mem_socketsOf.mp hi).1 (mem_socketsOf.mp hj).1
    exact hij (Fin.ext hsame)
  · unfold Launcher.start
    rw [List.length_finRange]
    apply divides_of_divideFds _ hshare
    rw [List.length_finRange, List.map_get_finRange]
    exact hinfos

section Divided
variable {lim : Limits} {t₀ : Connections} {infos : List HandlerInfo}
  {launcher : Launcher (Fin infos.length)} (h : t₀.Divided infos)
  (start : Connections.Initial lim t₀) (hstdin : t₀.StdinOpen)
  (divides : launcher.Divides t₀ infos.get)
include h start hstdin divides

theorem Connections.Divided.poll {arr : Int → Int} {s s' : Threads (Fin infos.length) IoPoll}
    (hs : s.Start t₀ launcher infos.get)
    (run : Relation.ReflTransGen (Threads.Step (IoPoll.waiter lim arr) lim Threads.Orderly) s s') :
    s'.Launched (IoPoll.waiter lim arr) lim infos.get ∧
      s'.Serves (IoPoll.waiter lim arr) fun i => t₀.socketsOf (infos.get i) := by
  have hw := fun i => IoPoll.sound lim (h.num i) arr
  have hok := (hs.ok start hstdin divides).run hw h.disjoint (fun i => Or.inl (h.last i)) run
  exact ⟨hok.toLaunched _, hok.serves hw⟩

theorem Connections.Divided.epoll {s s' : Threads (Fin infos.length) IoEpoll}
    (hs : s.Start t₀ launcher infos.get)
    (run : Relation.ReflTransGen (Threads.Step (IoEpoll.waiter lim) lim Threads.Orderly) s s') :
    s'.Launched (IoEpoll.waiter lim) lim infos.get ∧
      s'.Serves (IoEpoll.waiter lim) fun i => t₀.socketsOf (infos.get i) := by
  have hw := fun i => IoEpoll.sound lim (h.num i) (h.sockets i)
  have hok := (hs.ok start hstdin divides).run hw h.disjoint (fun i => Or.inl (h.last i)) run
  exact ⟨hok.toLaunched _, hok.serves hw⟩

end Divided

end Sockperf
