import Sockperf.Watching

/-!
# The multiplexer over `recvfrom`

`IoRecvfromMUX` waits for nothing: `waitArrival` goes round the descriptors from `m_fd_min_all` to
`m_fd_max_all` until it finds a record without connections, and that is where the server receives
next. `update` keeps the two bounds, and moves the place where the search goes on.
-/

namespace Sockperf

open Slots While
set_option autoImplicit false

/-! ## The handler -/

namespace IoRecvfromMUX

def new (info : HandlerInfo) : IoRecvfromMUX where
  fdMinAll := info.fdMin
  fdMaxAll := info.fdMax
  lookStart := if info.fdNum = 1 then info.fdMin else info.fdMin - 1

/-- `IoRecvfromMUX::update` without assertions -/
def updateNdebug (fuel : Nat) (info : HandlerInfo) (t : Connections) (r : IoRecvfromMUX) :
    Option (Except UpdateFault IoRecvfromMUX) :=
  (ioRecvfromMUX.updateNdebug t fuel (fdRange info.fdMin info.fdMax)
    ⟨info.fdMin, info.fdMax, r.lookStart⟩).map
    (Except.map fun r => { r with
      lookStart :=
        if r.lookStart > info.fdMax ∨ r.lookStart < info.fdMin then info.fdMax
        else if r.lookStart = info.fdMax then r.fdMinAll - 1
        else r.lookStart })

/-- `m_look_start` after one more step: what `g_fds_array` is read at. -/
def following (r : IoRecvfromMUX) (lookStart : Int) : Int :=
  if lookStart + 1 > r.fdMaxAll then r.fdMinAll else lookStart + 1

/-- One turn of the loop of `waitArrival`. -/
def waitTurn (t : Connections) (r : IoRecvfromMUX) (lookStart : Int) : Turn Int Int :=
  match t.fdsArray (r.following lookStart) with
  | none => .next (r.following lookStart)
  | some data =>
    if data.activeFdCount ≠ 0 then .next (r.following lookStart)
    else .done (r.following lookStart)

/-- `IoRecvfromMUX::waitArrival`; `m_look_end` is behind `m_look_start`. -/
def waitArrival (t : Connections) (fuel : Nat) (r : IoRecvfromMUX) : Option IoRecvfromMUX :=
  (iterate (r.waitTurn t) fuel r.lookStart).map fun lookStart => { r with lookStart }

/-- `waitArrival` reads `g_fds_array[i]`. -/
def LooksAt (t : Connections) (r : IoRecvfromMUX) (i : Int) : Prop :=
  ∃ s, Visits (r.waitTurn t) r.lookStart s ∧ i = r.following s

inductive ArrivalFault where
  /-- "invalid fd" -/
  | invalid
  /-- "corrupted fds_data object" -/
  | corrupted
  | outOfBounds
  deriving DecidableEq, Repr

def analyzeArrival (t : Connections) (ifd : Int) : Except ArrivalFault Int :=
  match t.fdsArray ifd with
  | none => .error .invalid
  | some data =>
    match data.activeFdList with
    | none => .error .corrupted
    | some list =>
      if data.activeFdCount ≠ 0 then
        match list[0]? with
        | none => .error .outOfBounds
        | some fd => .ok fd
      else .ok ifd

/-- The descriptors that the search goes over, once each. -/
def pass (r : IoRecvfromMUX) : Nat := (r.fdMaxAll - r.fdMinAll + 1).toNat

/-! ## The search -/

def Eligible (t : Connections) (i : Int) : Prop :=
  ∃ data, t.fdsArray i = some data ∧ data.activeFdCount = 0

variable {t : Connections} {r r' : IoRecvfromMUX} {i s : Int}

theorem waitTurn_eligible (h : Eligible t (r.following s)) :
    r.waitTurn t s = .done (r.following s) := by
  obtain ⟨data, hdata, hcount⟩ := h
  unfold waitTurn
  rw [hdata]
  dsimp only
  rw [if_neg (not_not.mpr hcount)]

theorem waitTurn_other (h : ¬ Eligible t (r.following s)) :
    r.waitTurn t s = .next (r.following s) := by
  unfold waitTurn
  split
  · rfl
  · next data hdata =>
    rw [if_pos]
    intro hcount
    exact h ⟨data, hdata, hcount⟩

structure Inside (r : IoRecvfromMUX) (s : Int) : Prop where
  after : r.fdMinAll ≤ s + 1
  before : s ≤ r.fdMaxAll

theorem Inside.following (h : r.Inside s) (hle : r.fdMinAll ≤ r.fdMaxAll) :
    r.fdMinAll ≤ r.following s ∧ r.following s ≤ r.fdMaxAll := by
  have hafter := h.after
  unfold IoRecvfromMUX.following
  split <;> omega

/-- The way to `i`, going round. -/
def distance (r : IoRecvfromMUX) (i s : Int) : Nat :=
  if s < i then (i - s - 1).toNat else (r.fdMaxAll - s + (i - r.fdMinAll)).toNat

theorem distance_lt (h : r.Inside s) (hi : r.fdMinAll ≤ i ∧ i ≤ r.fdMaxAll)
    (hne : r.following s ≠ i) : r.distance i (r.following s) < r.distance i s := by
  have hafter := h.after
  have hbefore := h.before
  unfold IoRecvfromMUX.following at hne ⊢
  unfold distance
  split at hne
  · next hwrap =>
    rw [if_pos hwrap]
    split <;> split <;> omega
  · next hwrap =>
    rw [if_neg hwrap]
    split <;> split <;> omega

theorem distance_lt_pass (h : r.Inside s) (hi : r.fdMinAll ≤ i ∧ i ≤ r.fdMaxAll) :
    r.distance i s < r.pass := by
  have hafter := h.after
  have hbefore := h.before
  unfold distance pass
  split <;> omega

theorem waitTurn_cases (t : Connections) (r : IoRecvfromMUX) (s : Int) :
    (r.waitTurn t s = .done (r.following s) ∧ Eligible t (r.following s)) ∨
      (r.waitTurn t s = .next (r.following s) ∧ ¬ Eligible t (r.following s)) := by
  by_cases h : Eligible t (r.following s)
  · exact Or.inl ⟨waitTurn_eligible h, h⟩
  · exact Or.inr ⟨waitTurn_other h, h⟩

/-- The step lemma. -/
theorem Inside.next (h : r.Inside s) (hle : r.fdMinAll ≤ r.fdMaxAll) :
    r.Inside (r.following s) := by
  obtain ⟨hmin, hmax⟩ := h.following hle
  exact ⟨by omega, hmax⟩

theorem looksAt_inside (h : r.Inside r.lookStart) (hle : r.fdMinAll ≤ r.fdMaxAll)
    (hlooks : r.LooksAt t i) : r.fdMinAll ≤ i ∧ i ≤ r.fdMaxAll := by
  obtain ⟨s, hvisits, rfl⟩ := hlooks
  have hs : r.Inside s := by
    apply hvisits.invariant r.Inside h
    intro a b _ ha hturn
    rcases waitTurn_cases t r a with ⟨hdone, -⟩ | ⟨hnext, -⟩
    · cases hdone.symm.trans hturn
    · cases hnext.symm.trans hturn
      exact ha.next hle
  exact hs.following hle

theorem waitArrival_returns (h : r.Inside r.lookStart) (hi : r.fdMinAll ≤ i ∧ i ≤ r.fdMaxAll)
    (heligible : Eligible t i) :
    ∃ lookStart, r.waitArrival t r.pass = some { r with lookStart } ∧
      (r.fdMinAll ≤ lookStart ∧ lookStart ≤ r.fdMaxAll) ∧ Eligible t lookStart := by
  have hle : r.fdMinAll ≤ r.fdMaxAll := hi.1.trans hi.2
  obtain ⟨lookStart, hsearch, hpost⟩ := returns_of_variant (r.waitTurn t) r.Inside
    (fun s => (r.fdMinAll ≤ s ∧ s ≤ r.fdMaxAll) ∧ Eligible t s) (r.distance i) h (by
      intro s hs
      rcases waitTurn_cases t r s with ⟨hdone, hfound⟩ | ⟨hnext, hnot⟩
      · exact Or.inr ⟨_, hdone, hs.following hle, hfound⟩
      · have hne : r.following s ≠ i := by
          intro heq
          rw [heq] at hnot
          exact hnot heligible
        exact Or.inl ⟨_, hnext, hs.next hle, distance_lt hs hi hne⟩)
  refine ⟨lookStart, ?_, hpost⟩
  rw [waitArrival, iterate_mono hsearch (distance_lt_pass h hi), Option.map_some]

theorem waitArrival_cases {fuel : Nat} (h : r.waitArrival t fuel = some r') :
    ∃ lookStart, r' = { r with lookStart } ∧ r.LooksAt t lookStart ∧ Eligible t lookStart := by
  obtain ⟨lookStart, hsearch, rfl⟩ := Option.map_eq_some_iff.mp h
  obtain ⟨s, hvisits, hlast⟩ := Returns.visits ⟨fuel, hsearch⟩
  rcases waitTurn_cases t r s with ⟨hdone, hfound⟩ | ⟨hnext, -⟩
  · cases hdone.symm.trans hlast
    exact ⟨r.following s, rfl, ⟨s, hvisits, rfl⟩, hfound⟩
  · cases hnext.symm.trans hlast

/-! ## The bounds -/

/-- The bounds `r'` are those of `r` and the descriptors in `fds`. -/
structure Widens (fds : List Int) (r r' : IoRecvfromMUX) : Prop where
  fdMin : r'.fdMinAll ≤ r.fdMinAll
  fdMax : r.fdMaxAll ≤ r'.fdMaxAll
  between : ∀ fd ∈ fds, r'.fdMinAll ≤ fd ∧ fd ≤ r'.fdMaxAll

theorem widens_foldl (fds : List Int) (r : IoRecvfromMUX) :
    Widens fds r (fds.foldl ioRecvfromMUX.add r) := by
  induction fds generalizing r with
  | nil => exact ⟨le_rfl, le_rfl, List.forall_mem_nil _⟩
  | cons fd fds ih =>
    have hrest := ih (ioRecvfromMUX.add r fd)
    rw [List.foldl_cons]
    refine ⟨hrest.fdMin.trans (min_le_left _ _), (le_max_left _ _).trans hrest.fdMax, ?_⟩
    intro fd' hfd
    rcases List.mem_cons.mp hfd with rfl | hfd
    · exact ⟨hrest.fdMin.trans (min_le_right _ _), (le_max_right _ _).trans hrest.fdMax⟩
    · exact hrest.between fd' hfd

/-- The invariant: the sockets and their connections are between the bounds, and so is the place
where the search goes on. -/
structure Covers (own : List Int) (info : HandlerInfo) (t : Connections) (r : IoRecvfromMUX) :
    Prop where
  fdMin : r.fdMinAll ≤ info.fdMin
  fdMax : info.fdMax ≤ r.fdMaxAll
  connections : ∀ fd ∈ own.flatMap t.connectionsOf, r.fdMinAll ≤ fd ∧ fd ≤ r.fdMaxAll
  inside : r.Inside r.lookStart

section Covers
variable {lim : Limits} {t₀ : Connections} {info : HandlerInfo}

theorem updateNdebug_covers (h : t.ServedFrom lim t₀) (hle : info.fdMin ≤ info.fdMax)
    (r : IoRecvfromMUX) :
    ∃ r', updateNdebug (lim.maxFdsNum + 1) info t r = some (.ok r') ∧
      r'.Covers (t₀.socketsOf info) info t := by
  have hreturns := h.updateNdebug ioRecvfromMUX (fdRange info.fdMin info.fdMax)
    ⟨info.fdMin, info.fdMax, r.lookStart⟩
  rw [← Connections.socketsOf, h.collected_own fun _ _ => rfl] at hreturns
  have hwidens := widens_foldl ((t₀.socketsOf info).flatMap t.connectionsOf)
    ⟨info.fdMin, info.fdMax, r.lookStart⟩
  generalize ((t₀.socketsOf info).flatMap t.connectionsOf).foldl ioRecvfromMUX.add _ = r'
    at hreturns hwidens
  have hmin := hwidens.fdMin
  have hmax := hwidens.fdMax
  dsimp only at hmin hmax
  unfold updateNdebug
  rw [hreturns, Option.map_some, Except.map]
  refine ⟨_, rfl, hmin, hmax, hwidens.between, ?_, ?_⟩
  · dsimp only
    split
    · omega
    · split <;> omega
  · dsimp only
    split
    · omega
    · split <;> omega

theorem new_covers (start : t.Initial lim) (hle : info.fdMin ≤ info.fdMax) :
    (new info).Covers (t.socketsOf info) info t := by
  refine ⟨le_rfl, le_rfl, ?_, ?_, ?_⟩
  · intro fd hfd
    obtain ⟨l, -, hmem⟩ := List.mem_flatMap.mp hfd
    exact absurd ((Connections.mem_connectionsOf start.consistent).mp hmem)
      (start.connections fd l)
  · unfold new
    dsimp only
    split <;> omega
  · unfold new
    dsimp only
    split <;> omega

theorem Covers.wait {own : List Int} (hcovers : r.Covers own info t)
    (hle : info.fdMin ≤ info.fdMax) {fuel : Nat} (hwait : r.waitArrival t fuel = some r') :
    r'.Covers own info t := by
  obtain ⟨lookStart, rfl, hlooks, -⟩ := waitArrival_cases hwait
  have hbounds : r.fdMinAll ≤ r.fdMaxAll := hcovers.fdMin.trans (hle.trans hcovers.fdMax)
  obtain ⟨hmin, hmax⟩ := looksAt_inside hcovers.inside hbounds hlooks
  exact ⟨hcovers.fdMin, hcovers.fdMax, hcovers.connections, by dsimp only; omega, hmax⟩

theorem Covers.eligible (hcovers : r.Covers (t₀.socketsOf info) info t) (h : t.ServedFrom lim t₀)
    {l : Int} (hl : l ∈ t₀.socketsOf info) :
    ∃ i, (r.fdMinAll ≤ i ∧ i ≤ r.fdMaxAll) ∧ Eligible t i := by
  obtain ⟨⟨hmin, hmax⟩, data, list, hdata, hlist⟩ := h.mem_own.mp hl
  by_cases hcount : data.activeFdCount = 0
  · exact ⟨l, ⟨hcovers.fdMin.trans hmin, hmax.trans hcovers.fdMax⟩, data, hdata, hcount⟩
  · obtain ⟨-, hlistens⟩ := h.consistent.listener l data list hdata hlist
    rw [hlistens.count] at hcount
    obtain ⟨fd, hfd⟩ := List.exists_mem_of_length_pos (Nat.pos_of_ne_zero (mod_cast hcount))
    have hconn := (hlistens.mem fd).mp hfd
    obtain ⟨⟨conn, hrecord, -, hnone⟩, -⟩ := h.consistent.connection fd l hconn
    have hmem : fd ∈ (t₀.socketsOf info).flatMap t.connectionsOf :=
      List.mem_flatMap.mpr ⟨l, hl, (Connections.mem_connectionsOf h.consistent).mpr hconn⟩
    exact ⟨fd, hcovers.connections fd hmem, conn, hrecord, h.slotless fd conn hrecord hnone⟩

end Covers

theorem Eligible.no_connections {lim : Limits} (h : t.Consistent lim) (heligible : Eligible t i)
    (fd : Int) : t.kernel fd ≠ some (.connection i) := by
  intro hconn
  obtain ⟨data, hdata, hcount⟩ := heligible
  obtain ⟨-, data', list, hdata', hlist⟩ := h.connection fd i hconn
  cases hdata'.symm.trans hdata
  obtain ⟨-, hlistens⟩ := h.listener i data list hdata hlist
  have hmem := (hlistens.mem fd).mpr hconn
  have hpos := List.length_pos_of_mem hmem
  rw [hlistens.count] at hcount
  omega

end IoRecvfromMUX

/-! ## The assertions in `update` -/

namespace Connections
universe v
variable {ρ : Type v} {t t₀ : Connections} {lim : Limits} {info : HandlerInfo}

/-- `assert(active_fd_list)` and the assertion on `MAX_ACTIVE_FD_NUM` hold. -/
def Asserts (out : Option (Except UpdateFault ρ)) : Prop :=
  ∃ r, out = some r ∧ r ≠ .error .corrupted ∧ r ≠ .error (.scan .limit)

theorem asserts_map {σ : Type v} (f : ρ → σ) (out : Option (Except UpdateFault ρ)) :
    Asserts (out.map (Except.map f)) ↔ Asserts out := by
  rcases out with _ | (fault | r)
  · constructor
    · rintro ⟨r, hr, -⟩
      cases hr
    · rintro ⟨r, hr, -⟩
      cases hr
  · simp [Asserts, Except.map]
  · simp [Asserts, Except.map]

theorem not_asserts_corrupted : ¬ Asserts (some (.error .corrupted) : Option (Except UpdateFault ρ))
    := by
  rintro ⟨r, hr, hne, -⟩
  cases hr
  exact hne rfl

/-- Over sockets that are no connections only the assertion of the handler itself may fail. -/
theorem Consistent.updateLoop_asserts (h : t.Consistent lim) (io : IoHandler ρ) {ifds : List Int}
    (hsockets : ∀ ifd ∈ ifds, ∀ l, t.kernel ifd ≠ some (.connection l)) (r : ρ) :
    Asserts (io.updateLoop lim t (lim.maxFdsNum + 1) ifds r) := by
  induction ifds generalizing r with
  | nil =>
    refine ⟨_, rfl, ?_, ?_⟩
    all_goals
      intro heq
      cases heq
  | cons ifd ifds ih =>
    have hrest := ih fun k hk => hsockets k (List.mem_cons_of_mem _ hk)
    cases hdata : t.fdsArray ifd with
    | none =>
      rw [updateLoop_none hdata]
      exact hrest r
    | some data =>
      cases hlist : data.activeFdList with
      | none =>
        obtain ⟨l, hconn⟩ := h.slotless ifd data hdata hlist
        exact absurd hconn (hsockets ifd List.mem_cons_self l)
      | some list =>
        obtain ⟨-, hlistens⟩ := h.listener ifd data list hdata hlist
        have hlast : lim.maxFdsNum - 1 < lim.maxFdsNum := by
          have := h.range ifd data hdata
          omega
        obtain ⟨out, hscan, hout⟩ :=
          scan_ends (io.visit ifd) io.check (io.listen r ifd) hlistens.within hlast
        rw [hlistens.length, ← hlistens.count] at hscan
        rw [IoHandler.updateLoop, hdata]
        dsimp only
        rw [hlist]
        dsimp only
        rw [IoHandler.scan, hscan]
        rcases hout with ⟨rfl, -⟩ | ⟨i, -, rfl⟩
        · refine ⟨_, rfl, ?_, ?_⟩
          all_goals
            intro heq
            cases heq
        · exact hrest _

theorem Consistent.update_asserts (h : t.Consistent lim) (io : IoHandler ρ) (hapart : t.Apart info)
    (r : ρ) : Asserts (io.update lim t (lim.maxFdsNum + 1) info.fdMin info.fdMax r) :=
  h.updateLoop_asserts io hapart r

theorem exists_of_not_apart (hapart : ¬ t.Apart info) :
    ∃ fd ∈ fdRange info.fdMin info.fdMax, ∃ l, t.kernel fd = some (.connection l) := by
  unfold Apart at hapart
  push Not at hapart
  exact hapart

/-- A connection in the range trips `assert(active_fd_list)` unless another assertion fails. -/
theorem Consistent.update_corrupted (h : t.Consistent lim) {io : IoHandler ρ} {size : ρ → Int}
    {bound : Int} (hbudget : io.Budget size bound) (hapart : ¬ t.Apart info) {r : ρ}
    (hsize : size r + ((t.socketsOf info).flatMap t.connectionsOf).length ≤ bound) :
    io.update lim t (lim.maxFdsNum + 1) info.fdMin info.fdMax r = some (.error .corrupted) := by
  obtain ⟨fd, hfd, l, hconn⟩ := exists_of_not_apart hapart
  rw [socketsOf, flatMap_sockets] at hsize
  exact h.updateLoop_corrupted hbudget hfd hconn hsize

section Unchecked
variable (h : t.ServedFrom lim t₀) {io : IoHandler ρ} (hcheck : ∀ r, io.check r = true)
include h hcheck

theorem ServedFrom.update_corrupted (hapart : ¬ t.Apart info) (r : ρ) :
    io.update lim t (lim.maxFdsNum + 1) info.fdMin info.fdMax r = some (.error .corrupted) :=
  h.consistent.update_corrupted (io.budget_unchecked hcheck
    ((t.socketsOf info).flatMap t.connectionsOf).length) hapart (by omega)

theorem ServedFrom.asserts_iff (r : ρ) :
    Asserts (io.update lim t (lim.maxFdsNum + 1) info.fdMin info.fdMax r) ↔ t.Apart info := by
  constructor
  · intro hasserts
    by_contra hapart
    rw [h.update_corrupted hcheck hapart] at hasserts
    exact not_asserts_corrupted hasserts
  · intro hapart
    exact h.consistent.update_asserts io hapart r

theorem ServedFrom.updateNdebug_of_update {r r' : ρ}
    (hreturns : io.update lim t (lim.maxFdsNum + 1) info.fdMin info.fdMax r = some (.ok r')) :
    io.updateNdebug t (lim.maxFdsNum + 1) (fdRange info.fdMin info.fdMax) r = some (.ok r') := by
  by_cases hapart : t.Apart info
  · rw [h.consistent.update (io.budget_unchecked hcheck
      ((t.socketsOf info).flatMap t.connectionsOf).length) hapart (by omega)] at hreturns
    rw [h.updateNdebug]
    exact hreturns
  · rw [h.update_corrupted hcheck hapart] at hreturns
    cases hreturns

end Unchecked

end Connections

/-! ## Any run of the server -/

namespace IoRecvfromMUX
variable {t t₀ : Connections} {lim : Limits} {info : HandlerInfo} {r r' : IoRecvfromMUX}

theorem updateNdebug_of_update (h : t.ServedFrom lim t₀)
    (hreturns : update lim t (lim.maxFdsNum + 1) info r = some (.ok r')) :
    updateNdebug (lim.maxFdsNum + 1) info t r = some (.ok r') := by
  unfold update at hreturns
  unfold updateNdebug
  obtain ⟨out, hout, hmap⟩ := Option.map_eq_some_iff.mp hreturns
  cases out with
  | error fault => cases hmap
  | ok bounds =>
    rw [h.updateNdebug_of_update (fun _ => rfl) hout, Option.map_some, hmap]

/-- The server waits, or it accepts or closes a connection and updates the handler, in a build
with assertions or without. -/
inductive Cycle (lim : Limits) (info : HandlerInfo) :
    Connections × IoRecvfromMUX → Connections × IoRecvfromMUX → Prop
  | wait {t : Connections} {r r' : IoRecvfromMUX} {fuel : Nat}
      (returns : r.waitArrival t fuel = some r') : Cycle lim info (t, r) (t, r')
  | call {t t' : Connections} {r r' : IoRecvfromMUX} (event : Connections.Event lim t t')
      (returns : update lim t' (lim.maxFdsNum + 1) info r = some (.ok r') ∨
        updateNdebug (lim.maxFdsNum + 1) info t' r = some (.ok r')) :
      Cycle lim info (t, r) (t', r')

/-- The run lemma. -/
theorem Cycle.covers (start : t₀.Initial lim) (hle : info.fdMin ≤ info.fdMax)
    {b : Connections × IoRecvfromMUX}
    (run : Relation.ReflTransGen (Cycle lim info) (t₀, new info) b) :
    b.1.ServedFrom lim t₀ ∧ b.2.Covers (t₀.socketsOf info) info b.1 := by
  induction run with
  | refl => exact ⟨start.servedFrom, new_covers start hle⟩
  | tail _ hstep ih =>
    obtain ⟨hserved, hcovers⟩ := ih
    cases hstep with
    | wait returns =>
      exact ⟨hserved, hcovers.wait hle returns⟩
    | call event returns =>
      have hserved' := hserved.event event
      refine ⟨hserved', ?_⟩
      have hndebug := returns.elim (updateNdebug_of_update hserved') id
      obtain ⟨r'', hreturns, hcovers'⟩ := updateNdebug_covers hserved' hle _
      cases hreturns.symm.trans hndebug
      exact hcovers'

end IoRecvfromMUX

/-- Whatever was accepted and closed, `waitArrival` returns within one pass over the descriptors
between its bounds, reads no others, and stops at a record without connections. -/
theorem waitArrival_finds (lim : Limits) {t₀ t : Connections} {info : HandlerInfo}
    {r : IoRecvfromMUX} (start : Connections.Initial lim t₀) (sockets : t₀.socketsOf info ≠ [])
    (run : Relation.ReflTransGen (IoRecvfromMUX.Cycle lim info) (t₀, .new info) (t, r)) :
    (∃ lookStart, r.waitArrival t r.pass = some { r with lookStart } ∧
      (r.fdMinAll ≤ lookStart ∧ lookStart ≤ r.fdMaxAll) ∧
      (∃ data, t.fdsArray lookStart = some data ∧ data.activeFdCount = 0) ∧
      ∀ fd, t.kernel fd ≠ some (.connection lookStart)) ∧
    ∀ i, r.LooksAt t i → r.fdMinAll ≤ i ∧ i ≤ r.fdMaxAll := by
  obtain ⟨l, hl⟩ := List.exists_mem_of_ne_nil _ sockets
  obtain ⟨⟨hmin, hmax⟩, -⟩ := Connections.mem_socketsOf.mp hl
  have hle : info.fdMin ≤ info.fdMax := hmin.trans hmax
  obtain ⟨hserved, hcovers⟩ := IoRecvfromMUX.Cycle.covers start hle run
  dsimp only at hserved hcovers
  have hbounds : r.fdMinAll ≤ r.fdMaxAll := hcovers.fdMin.trans (hle.trans hcovers.fdMax)
  obtain ⟨i, hi, heligible⟩ := hcovers.eligible hserved hl
  obtain ⟨lookStart, hwait, hinside, hfound⟩ :=
    IoRecvfromMUX.waitArrival_returns hcovers.inside hi heligible
  refine ⟨⟨lookStart, hwait, hinside, hfound, hfound.no_connections hserved.consistent⟩, ?_⟩
  intro k hlooks
  exact IoRecvfromMUX.looksAt_inside hcovers.inside hbounds hlooks

/-! ### One client -/

def tcpOne : Connections := (tcpStart.serverAccept tcpLimits (accepts 4) 3).table

theorem tcpOne_event : Connections.Event tcpLimits tcpStart tcpOne :=
  .accept 3 (accepts 4) (by decide) fun _ => rfl

theorem tcpOne_cycles : Relation.ReflTransGen (IoRecvfromMUX.Cycle tcpLimits ⟨3, 3, 1⟩)
    (tcpStart, .new ⟨3, 3, 1⟩) (tcpOne, ⟨3, 4, 2⟩) := by
  have hwait : IoRecvfromMUX.waitArrival tcpStart 1 (.new ⟨3, 3, 1⟩) = some ⟨3, 3, 3⟩ := rfl
  have hupdate : IoRecvfromMUX.update tcpLimits tcpOne 9 ⟨3, 3, 1⟩ ⟨3, 3, 3⟩ =
      some (.ok ⟨3, 4, 2⟩) := rfl
  exact (Relation.ReflTransGen.single (.wait hwait)).tail (.call tcpOne_event (Or.inl hupdate))

theorem waitArrival_finds_client :
    ∃ lookStart, IoRecvfromMUX.waitArrival tcpOne 2 ⟨3, 4, 2⟩ = some ⟨3, 4, lookStart⟩ ∧
      ∃ data, tcpOne.fdsArray lookStart = some data ∧ data.activeFdCount = 0 := by
  obtain ⟨⟨lookStart, hwait, -, hdata, -⟩, -⟩ :=
    waitArrival_finds tcpLimits tcpStart_initial (by decide) tcpOne_cycles
  exact ⟨lookStart, hwait, hdata⟩

/-! ## The assertions -/

namespace IoRecvfromMUX
variable {t t₀ : Connections} {lim : Limits}

theorem analyzeArrival_cases (h : t.ServedFrom lim t₀) {ifd : Int} (heligible : Eligible t ifd) :
    (analyzeArrival t ifd = .ok ifd ∧ ∀ l, t.kernel ifd ≠ some (.connection l)) ∨
      (analyzeArrival t ifd = .error .corrupted ∧ ∃ l, t.kernel ifd = some (.connection l)) := by
  obtain ⟨data, hdata, hcount⟩ := heligible
  unfold analyzeArrival
  rw [hdata]
  dsimp only
  cases hlist : data.activeFdList with
  | none => exact Or.inr ⟨rfl, h.consistent.slotless ifd data hdata hlist⟩
  | some list =>
    obtain ⟨hother, -⟩ := h.consistent.listener ifd data list hdata hlist
    refine Or.inl ⟨?_, fun l hconn => nomatch hother.symm.trans hconn⟩
    dsimp only
    rw [if_neg (not_not.mpr hcount)]

theorem analyzeArrival_iff (h : t.ServedFrom lim t₀) {ifd : Int} (heligible : Eligible t ifd) :
    (analyzeArrival t ifd = .ok ifd ↔ ∀ l, t.kernel ifd ≠ some (.connection l)) ∧
      (analyzeArrival t ifd = .error .corrupted ↔ ∃ l, t.kernel ifd = some (.connection l)) := by
  rcases analyzeArrival_cases h heligible with ⟨hok, hnot⟩ | ⟨hbad, l, hconn⟩
  · refine ⟨⟨fun _ => hnot, fun _ => hok⟩, ⟨?_, ?_⟩⟩
    · intro hbad
      cases hok.symm.trans hbad
    · rintro ⟨l, hconn⟩
      exact absurd hconn (hnot l)
  · refine ⟨⟨?_, ?_⟩, ⟨fun _ => ⟨l, hconn⟩, fun _ => hbad⟩⟩
    · intro hok
      cases hbad.symm.trans hok
    · intro hnot
      exact absurd hconn (hnot l)

end IoRecvfromMUX

section Epoll
variable {t t₀ : Connections} {lim : Limits} {info : HandlerInfo}

/-- `IoEpoll` has an assertion of its own, which does not fail first while an entry of
`g_fds_array` is empty. -/
theorem IoEpoll.asserts_iff (h : t.ServedFrom lim t₀)
    (hnum : info.fdNum = (t₀.socketsOf info).length) {spare : Int}
    (hspare : t.fdsArray spare = none) (hpos : 0 ≤ spare) (hlt : spare < lim.maxFdsNum)
    (r : IoEpoll) :
    Connections.Asserts (IoEpoll.update lim t (lim.maxFdsNum + 1) info r) ↔ t.Apart info := by
  rw [IoEpoll.update, Connections.asserts_map]
  constructor
  · intro hasserts
    by_contra hapart
    have hevents := h.consistent.events_lt Connections.nodup_socketsOf (h.own_other info) hspare
      hpos hlt
    rw [← h.flatMap_own] at hevents
    rw [h.consistent.update_corrupted (budget_ioEpoll lim) hapart (by dsimp only; omega)]
      at hasserts
    exact Connections.not_asserts_corrupted hasserts
  · intro hapart
    exact h.consistent.update_asserts _ hapart _

end Epoll

/-- The assertions on the connection lists hold in `update` exactly when no connection has a
descriptor among those of the sockets, and in `analyzeArrival` when it is not called for a
connection. -/
theorem list_assertions_iff (lim : Limits) {t₀ t : Connections}
    (start : Connections.Initial lim t₀)
    (run : Relation.ReflTransGen (Connections.Event lim) t₀ t) (info : HandlerInfo) :
    (∀ r, Connections.Asserts (IoRecvfromMUX.update lim t (lim.maxFdsNum + 1) info r) ↔
      t.Apart info) ∧
    (Connections.Asserts (IoSelect.update lim t (lim.maxFdsNum + 1) info) ↔ t.Apart info) ∧
    (∀ r, Connections.Asserts (IoPoll.update lim t (lim.maxFdsNum + 1) info r) ↔ t.Apart info) ∧
    (t.Apart info →
      ∀ r, Connections.Asserts (IoEpoll.update lim t (lim.maxFdsNum + 1) info r)) ∧
    (info.fdNum = (t₀.socketsOf info).length →
      (∃ spare, t.fdsArray spare = none ∧ 0 ≤ spare ∧ spare < lim.maxFdsNum) →
      ∀ r, Connections.Asserts (IoEpoll.update lim t (lim.maxFdsNum + 1) info r) ↔
        t.Apart info) ∧
    ∀ fuel r r', IoRecvfromMUX.waitArrival t fuel r = some r' →
      (IoRecvfromMUX.analyzeArrival t r'.lookStart = .ok r'.lookStart ↔
        ∀ l, t.kernel r'.lookStart ≠ some (.connection l)) ∧
      (IoRecvfromMUX.analyzeArrival t r'.lookStart = .error .corrupted ↔
        ∃ l, t.kernel r'.lookStart = some (.connection l)) := by
  have h := start.servedFrom.run run
  refine ⟨?_, ?_, ?_, ?_, ?_, ?_⟩
  · intro r
    rw [IoRecvfromMUX.update, Connections.asserts_map]
    exact h.asserts_iff (fun _ => rfl) _
  · rw [IoSelect.update, Connections.asserts_map]
    exact h.asserts_iff (fun _ => rfl) _
  · intro r
    rw [IoPoll.update]
    exact h.asserts_iff (fun _ => rfl) _
  · intro hapart r
    rw [IoEpoll.update, Connections.asserts_map]
    exact h.consistent.update_asserts _ hapart _
  · rintro hnum ⟨spare, hspare, hpos, hlt⟩ r
    exact IoEpoll.asserts_iff h hnum hspare hpos hlt r
  · intro fuel r r' hwait
    obtain ⟨lookStart, rfl, -, heligible⟩ := IoRecvfromMUX.waitArrival_cases hwait
    exact IoRecvfromMUX.analyzeArrival_iff h heligible

theorem list_assertions_tcpOne : tcpOne.Apart ⟨3, 3, 1⟩ ∧
    Connections.Asserts (IoSelect.update tcpLimits tcpOne 9 ⟨3, 3, 1⟩) := by
  have hapart : tcpOne.Apart ⟨3, 3, 1⟩ := by
    intro ifd hifd l
    obtain ⟨hmin, hmax⟩ := mem_fdRange.mp hifd
    obtain rfl : ifd = 3 := le_antisymm hmax hmin
    exact nofun
  exact ⟨hapart, (list_assertions_iff tcpLimits tcpStart_initial
    (Relation.ReflTransGen.single tcpOne_event) ⟨3, 3, 1⟩).2.1.mpr hapart⟩

/-- With one client, `IoRecvfromMUX` goes on with its connection, whose record has no list. A
connection between two sockets stops the updates. -/
theorem list_assertions_fail :
    Relation.ReflTransGen (IoRecvfromMUX.Cycle tcpLimits ⟨3, 3, 1⟩)
      (tcpStart, .new ⟨3, 3, 1⟩) (tcpOne, ⟨3, 4, 2⟩) ∧
    IoRecvfromMUX.waitArrival tcpOne 2 ⟨3, 4, 2⟩ = some ⟨3, 4, 4⟩ ∧
    IoRecvfromMUX.analyzeArrival tcpOne 4 = .error .corrupted ∧
    Relation.ReflTransGen (Connections.Event tcpLimits) gapStart gapTaken ∧
    IoRecvfromMUX.update tcpLimits gapTaken 9 ⟨3, 7, 3⟩ (.new ⟨3, 7, 3⟩) =
      some (.error .corrupted) ∧
    IoSelect.update tcpLimits gapTaken 9 ⟨3, 7, 3⟩ = some (.error .corrupted) ∧
    IoPoll.update tcpLimits gapTaken 9 ⟨3, 7, 3⟩ ⟨fun _ => 0, 0, 3⟩ = some (.error .corrupted) ∧
    IoEpoll.update tcpLimits gapTaken 9 ⟨3, 7, 3⟩ ⟨[], 0, 0, 0⟩ = some (.error .corrupted) :=
  ⟨tcpOne_cycles, rfl, rfl, gapTaken_run, rfl, rfl, rfl, rfl⟩

end Sockperf
