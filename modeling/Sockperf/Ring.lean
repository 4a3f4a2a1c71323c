import Sockperf.FeedFile
import Sockperf.Lib.Pointers

/-!
# The ring of sockets

`next_fd` chains the sockets in the order they are opened, and the last one points back to the
first. `fds_array_is_valid` checks the chain and `doSendLoop` sends along it.
-/

namespace Sockperf

set_option autoImplicit false

namespace Connections

def nextFd (t : Connections) (fd : Int) : Option Int := (t.fdsArray fd).map (·.nextFd)

/-- The loop of `fds_array_is_valid`, with the number of turns that are left; the socket it ends at
and the number of those it passed. `none` is a socket without a record. -/
def walk (t : Connections) (fdMax : Int) : Nat → Int → Nat → Option (Int × Nat)
  | 0, fd, i => some (fd, i)
  | left+1, fd, i =>
    if fd = fdMax then some (fd, i)
    else
      match t.fdsArray fd with
      | none => none
      | some data => walk t fdMax left data.nextFd (i + 1)

/-- `fds_array_is_valid`; `none` where it follows a null pointer. -/
def fdsArrayIsValid (t : Connections) (fdMin fdMax : Int) (fdNum : Nat) : Option Bool :=
  match t.walk fdMax fdNum fdMin 0 with
  | none => some false
  | some (fd, i) =>
    if fd = fdMax ∧ i + 1 = fdNum then (t.fdsArray fd).map fun data => data.nextFd == fdMin
    else some false

/-- `doSendLoop` for a number of iterations: the sockets it sends on and the one that is next. -/
def doSendLoop (t : Connections) : Nat → Int → Option (List Int × Int)
  | 0, currFds => some ([], currFds)
  | n+1, currFds =>
    -- client_send_burst(currFds) keeps `next_fd`
    match t.fdsArray currFds with
    | none => none
    | some data => (doSendLoop t n data.nextFd).map fun r => (currFds :: r.1, r.2)

variable {t : Connections} {fd fdMin fdMax : Int} {fdNum left i : Nat}

theorem nextFd_eq_some {next : Int} :
    t.nextFd fd = some next ↔ ∃ data, t.fdsArray fd = some data ∧ data.nextFd = next :=
  Option.map_eq_some_iff

theorem doSendLoop_eq_follow (t : Connections) (n : Nat) (currFds : Int) :
    t.doSendLoop n currFds = follow t.nextFd n currFds := by
  induction n generalizing currFds with
  | zero => rfl
  | succ n ih =>
    have hnext : t.nextFd currFds = (t.fdsArray currFds).map (·.nextFd) := rfl
    unfold doSendLoop follow
    rw [hnext]
    cases t.fdsArray currFds with
    | none => rfl
    | some data =>
      dsimp only [Option.map_some]
      rw [ih data.nextFd]

/-! ## The check -/

/-- The walk passes sockets other than `fdMax` until it gets there or the turns are used up. -/
theorem walk_eq_some_iff {last : Int} {count : Nat} :
    t.walk fdMax left fd i = some (last, count) ↔
      ∃ passed, Follows t.nextFd fd passed last ∧ fdMax ∉ passed ∧ count = i + passed.length ∧
        passed.length ≤ left ∧ (last = fdMax ∨ passed.length = left) := by
  induction left generalizing fd i with
  | zero =>
    constructor
    · intro h
      cases h
      exact ⟨[], .nil _, List.not_mem_nil, rfl, le_rfl, Or.inr rfl⟩
    · rintro ⟨passed, hpath, -, rfl, hle, -⟩
      cases hpath with
      | nil => rfl
      | cons => exact absurd hle (by simp)
  | succ left ih =>
    unfold walk
    constructor
    · intro h
      split at h
      · next hmax =>
        cases h
        exact ⟨[], .nil _, List.not_mem_nil, rfl, Nat.zero_le _, Or.inl hmax⟩
      · next hmax =>
        cases hdata : t.fdsArray fd with
        | none =>
          rw [hdata] at h
          cases h
        | some data =>
          rw [hdata] at h
          obtain ⟨passed, hpath, hfree, rfl, hle, hend⟩ := ih.mp h
          refine ⟨fd :: passed, .cons (nextFd_eq_some.mpr ⟨data, hdata, rfl⟩) hpath, ?_, ?_, ?_, ?_⟩
          · exact List.not_mem_cons_of_ne_of_not_mem (Ne.symm hmax) hfree
          · rw [List.length_cons]
            omega
          · rw [List.length_cons]
            omega
          · exact hend.imp_right (congrArg Nat.succ)
    · rintro ⟨passed, hpath, hfree, rfl, hle, hend⟩
      cases hpath with
      | nil =>
        rw [if_pos (hend.resolve_right (by simp))]
        rfl
      | @cons _ b _ passed hnext hpath =>
        obtain ⟨data, hdata, rfl⟩ := nextFd_eq_some.mp hnext
        obtain ⟨hne, hfree⟩ := List.ne_and_not_mem_of_not_mem_cons hfree
        rw [if_neg (Ne.symm hne), hdata]
        rw [List.length_cons] at hle hend
        refine ih.mpr ⟨passed, hpath, hfree, ?_, by omega, hend.imp_right (by omega)⟩
        rw [List.length_cons]
        omega

theorem fdsArrayIsValid_iff {data : FdsRecord} (hmax : t.fdsArray fdMax = some data) :
    ∃ valid, t.fdsArrayIsValid fdMin fdMax fdNum = some valid ∧
      (valid = true ↔ ∃ fds, IsRing t.nextFd fdMin fdMax fds ∧ fds.length = fdNum) := by
  by_cases hring : ∃ fds, IsRing t.nextFd fdMin fdMax fds ∧ fds.length = fdNum
  · obtain ⟨fds, hfds, hlength⟩ := hring
    obtain ⟨before, rfl, hpath, hfree, hback⟩ := hfds.arrival
    rw [List.length_append, List.length_singleton] at hlength
    have hwalk : t.walk fdMax fdNum fdMin 0 = some (fdMax, before.length) :=
      walk_eq_some_iff.mpr ⟨before, hpath, hfree, (Nat.zero_add _).symm, by omega, Or.inl rfl⟩
    obtain ⟨_, hdata, hnext⟩ := nextFd_eq_some.mp hback
    cases hmax.symm.trans hdata
    refine ⟨true, ?_, iff_of_true rfl ⟨_, hfds, by simp [hlength]⟩⟩
    unfold fdsArrayIsValid
    rw [hwalk]
    dsimp only
    rw [if_pos ⟨rfl, hlength⟩, hmax, Option.map_some, hnext, beq_self_eq_true]
  · refine ⟨false, ?_, iff_of_false Bool.false_ne_true hring⟩
    unfold fdsArrayIsValid
    cases hwalk : t.walk fdMax fdNum fdMin 0 with
    | none => rfl
    | some r =>
      obtain ⟨last, count⟩ := r
      dsimp only
      split
      · next hend =>
        obtain ⟨rfl, hcount⟩ := hend
        obtain ⟨passed, hpath, hfree, hlength, -⟩ := walk_eq_some_iff.mp hwalk
        rw [hmax, Option.map_some, beq_eq_false_iff_ne.mpr]
        intro hback
        refine hring ⟨passed ++ [last], .of_arrival hpath hfree ?_, ?_⟩
        · exact nextFd_eq_some.mpr ⟨data, hmax, hback⟩
        · rw [List.length_append, List.length_singleton]
          omega
      · rfl

variable {data data' : FdsRecord} {x : Int}

theorem nextFd_setRecord (t : Connections) (fd x : Int) (data : FdsRecord) :
    (t.setRecord fd (some data)).nextFd x = if x = fd then some data.nextFd else t.nextFd x := by
  simp only [nextFd, setRecord, Function.update_apply]
  split <;> rfl

theorem isSome_setRecord (t : Connections) (fd x : Int) (data : FdsRecord) :
    ((t.setRecord fd (some data)).fdsArray x).isSome = true ↔
      x = fd ∨ (t.fdsArray x).isSome = true := by
  simp only [setRecord, Function.update_apply]
  split
  · next heq => exact iff_of_true rfl (Or.inl heq)
  · next hne => exact ⟨Or.inr, fun h => h.resolve_left hne⟩

end Connections

/-! ## The sockets of the feed file -/

inductive FeedFileError where
  | line (e : FeedError)
  /-- "fread() failed to read feedfile '%s'!" -/
  | readFailed
  /-- "Feedfile '%s' is empty!" -/
  | empty
  deriving DecidableEq, Repr

/-- `set_sockets_from_feedfile`, from the first line on. -/
def setSocketsFromFeedfile (p : FeedParams) (kernel : Int → Option Descriptor)
    (lines : List (FeedLine × FeedOutside)) (ferror : Bool) :
    Except FeedFileError (List (FeedTarget × FeedOutcome) × FeedState) :=
  match feedLines p lines (.init kernel) with
  | .error e => .error (.line e)
  | .ok (rs, s) =>
    if ferror then .error .readFailed
    else if s.fdNum = 0 then .error .empty
    else
      -- the ring is closed
      match s.table.fdsArray s.fdMax with
      | none => .error (.line .nullPointer)
      | some data => .ok (rs,
          { s with table := s.table.setRecord s.fdMax (some { data with nextFd := s.fdMin }) })

def openedFds (rs : List (FeedTarget × FeedOutcome)) : List Int := rs.filterMap fun r => r.2.own

namespace FeedState
variable {p : FeedParams} {out : FeedOutside} {line : FeedLine} {s s' : FeedState}
  {o : FeedOutcome} {fd : Int}

inductive LineStep (p : FeedParams) (line : FeedLine) (s : FeedState) :
    FeedOutcome → FeedState → Prop
  | skipped : LineStep p line s .skipped s
  | joined (fd : Int) (data : FdsRecord) (record : s.table.fdsArray fd = some data) :
      LineStep p line s (.joined fd) (s.join line fd data)
  | created (fd buf : Int) (s' : FeedState) (linked : s.link fd = .ok s') :
      LineStep p line s (.created fd) (s'.create p line fd buf)

theorem feedLine_step (h : s.feedLine p out line = .ok (o, s')) : LineStep p line s o s' := by
  unfold feedLine at h
  split at h
  · cases h
    exact .skipped
  · split at h
    · cases h
    · dsimp only at h
      split at h
      · split at h
        · cases h
        · next data hdata =>
          split at h
          · cases h
          · split at h
            · cases h
            · cases h
              exact .joined _ data hdata
      · split at h
        · cases h
        · split at h
          · cases h
          · next buf _ =>
            split at h
            · cases h
            · next s₁ hlink =>
              cases h
              exact .created _ buf s₁ hlink

/-! ### No null pointers -/

structure Held (s : FeedState) : Prop where
  known : ∀ d fd, PortDescriptor.keys.find s.fdSocketMap d = some fd →
    (s.table.fdsArray fd).isSome = true
  last : s.fdNum ≠ 0 → (s.table.fdsArray s.lastFd).isSome = true
  max : s.fdNum ≠ 0 → (s.table.fdsArray s.fdMax).isSome = true

theorem Held.init (kernel : Int → Option Descriptor) : (init kernel).Held where
  known _ _ h := nomatch h
  last h := absurd rfl h
  max h := absurd rfl h

theorem Held.join (h : s.Held) (line : FeedLine) (fd : Int) (data : FdsRecord) :
    (s.join line fd data).Held where
  known d x hx := (Connections.isSome_setRecord _ _ _ _).mpr (Or.inr (h.known d x hx))
  last hnum := (Connections.isSome_setRecord _ _ _ _).mpr (Or.inr (h.last hnum))
  max hnum := (Connections.isSome_setRecord _ _ _ _).mpr (Or.inr (h.max hnum))

/-- The records after a socket was linked: none are lost, and the greatest descriptor has one or is
the new one. -/
theorem Held.link (h : s.Held) (hlink : s.link fd = .ok s') :
    (∀ x, (s.table.fdsArray x).isSome = true → (s'.table.fdsArray x).isSome = true) ∧
      s'.fdSocketMap = s.fdSocketMap ∧
      (s'.fdMax = fd ∨ (s.table.fdsArray s'.fdMax).isSome = true) := by
  unfold FeedState.link at hlink
  split at hlink
  · cases hlink
    exact ⟨fun _ => id, rfl, Or.inl rfl⟩
  · next hnum =>
    split at hlink
    · cases hlink
    · cases hlink
      refine ⟨?_, rfl, ?_⟩
      · intro x hx
        exact (Connections.isSome_setRecord _ _ _ _).mpr (Or.inr hx)
      · rcases max_choice s.fdMax fd with hmax | hmax
        · exact Or.inr (hmax.symm ▸ h.max hnum)
        · exact Or.inl hmax

theorem Held.create (h : s.Held) (hlink : s.link fd = .ok s') (buf : Int) :
    (s'.create p line fd buf).Held := by
  obtain ⟨hkeep, hmap, hmax⟩ := h.link hlink
  refine ⟨?_, ?_, ?_⟩
  · intro d x hx
    change PortDescriptor.keys.find (PortDescriptor.keys.put s'.fdSocketMap _ fd) d = some x at hx
    rw [PortDescriptor.find_put, hmap] at hx
    apply (Connections.isSome_setRecord _ _ _ _).mpr
    split at hx
    · cases hx
      exact Or.inl rfl
    · exact Or.inr (hkeep x (h.known d x hx))
  · intro _
    exact (Connections.isSome_setRecord _ _ _ _).mpr (Or.inl rfl)
  · intro _
    apply (Connections.isSome_setRecord _ _ _ _).mpr
    exact hmax.imp_right (hkeep _)

theorem LineStep.held (h : s.Held) (hstep : LineStep p line s o s') : s'.Held := by
  cases hstep with
  | skipped => exact h
  | joined fd data _ => exact h.join line fd data
  | created fd buf s₁ hlink => exact h.create hlink buf

theorem Held.link_ne (h : s.Held) (fd : Int) : s.link fd ≠ .error .nullPointer := by
  unfold FeedState.link
  split
  · nofun
  · next hnum =>
    obtain ⟨data, hdata⟩ := Option.isSome_iff_exists.mp (h.last hnum)
    rw [hdata]
    nofun

theorem Held.socketOf (h : s.Held) {d : PortDescriptor} (hne : s.socketOf d ≠ 0) :
    (s.table.fdsArray (s.socketOf d)).isSome = true := by
  unfold FeedState.socketOf at hne ⊢
  cases hfind : PortDescriptor.keys.find s.fdSocketMap d with
  | none =>
    rw [hfind] at hne
    exact absurd rfl hne
  | some fd => exact h.known d fd hfind

theorem Held.feedLine_ne (h : s.Held) : s.feedLine p out line ≠ .error .nullPointer := by
  intro herror
  unfold feedLine at herror
  split at herror
  · cases herror
  · split at herror
    · cases herror
    · dsimp only at herror
      split at herror
      · next hknown =>
        obtain ⟨data, hdata⟩ := Option.isSome_iff_exists.mp (h.socketOf hknown.1)
        rw [hdata] at herror
        dsimp only at herror
        split at herror
        · cases herror
        · split at herror <;> cases herror
      · split at herror
        · cases herror
        · split at herror
          · cases herror
          · split at herror
            · next e hlink =>
              cases herror
              exact h.link_ne _ hlink
            · cases herror

/-! ### The chain -/

/-- The sockets in `before` are chained, in their order, up to the one opened last. -/
structure Chained (s : FeedState) (before : List Int) : Prop where
  path : Follows s.table.nextFd s.fdMin before s.lastFd
  record : (s.table.fdsArray s.lastFd).isSome = true
  max : s.fdMax = s.lastFd
  num : s.fdNum = before.length + 1

def Opens (s : FeedState) (fds : List Int) : Prop :=
  s.fdNum = 0 ∧ fds = [] ∨ ∃ before, fds = before ++ [s.lastFd] ∧ s.Chained before

variable {before fds : List Int}

theorem nextFd_join {data : FdsRecord} (hdata : s.table.fdsArray fd = some data) :
    (s.join line fd data).table.nextFd = s.table.nextFd := by
  funext x
  change (s.table.setRecord fd _).nextFd x = _
  rw [Connections.nextFd_setRecord]
  split
  · next heq =>
    rw [heq]
    exact (Connections.nextFd_eq_some.mpr ⟨data, hdata, rfl⟩).symm
  · rfl

theorem Chained.join (h : s.Chained before) {data : FdsRecord}
    (hdata : s.table.fdsArray fd = some data) : (s.join line fd data).Chained before where
  path := by
    rw [nextFd_join hdata]
    exact h.path
  record := (Connections.isSome_setRecord _ _ _ _).mpr (Or.inr h.record)
  max := h.max
  num := h.num

theorem nextFd_create (s : FeedState) (fd buf x : Int) :
    (s.create p line fd buf).table.nextFd x = if x = fd then some 0 else s.table.nextFd x :=
  Connections.nextFd_setRecord s.table fd x _

theorem link_next (hnum : s.fdNum ≠ 0) (hlink : s.link fd = .ok s') :
    (∀ x, s'.table.nextFd x = if x = s.lastFd then some fd else s.table.nextFd x) ∧
      s'.fdMin = min s.fdMin fd ∧ s'.fdMax = max s.fdMax fd ∧ s'.fdNum = s.fdNum + 1 := by
  unfold link at hlink
  rw [if_neg hnum] at hlink
  split at hlink
  · cases hlink
  · cases hlink
    exact ⟨fun x => Connections.nextFd_setRecord s.table s.lastFd x _, rfl, rfl, rfl⟩

theorem create_first (hnum : s.fdNum = 0) (hlink : s.link fd = .ok s') (buf : Int) :
    (s'.create p line fd buf).Chained [] := by
  unfold link at hlink
  rw [if_pos hnum] at hlink
  cases hlink
  exact ⟨.nil fd, (Connections.isSome_setRecord _ _ _ _).mpr (Or.inl rfl), rfl, rfl⟩

theorem Chained.create (h : s.Chained before) (hlink : s.link fd = .ok s') (buf : Int)
    (hsorted : (before ++ [s.lastFd]).Pairwise (· < ·)) (hlt : ∀ x ∈ before ++ [s.lastFd], x < fd) :
    (s'.create p line fd buf).Chained (before ++ [s.lastFd]) := by
  have hlast : s.lastFd < fd := hlt s.lastFd (List.mem_append_right before List.mem_cons_self)
  have hbelow : ∀ x ∈ before, x < s.lastFd := by
    intro x hx
    exact (List.pairwise_append.mp hsorted).2.2 x hx s.lastFd List.mem_cons_self
  have hnum : s.fdNum ≠ 0 := by
    rw [h.num]
    exact Nat.succ_ne_zero _
  obtain ⟨hnext, hmin, hmax, hcount⟩ := link_next hnum hlink
  refine ⟨?_, (Connections.isSome_setRecord _ _ _ _).mpr (Or.inl rfl), ?_, ?_⟩
  · change Follows _ s'.fdMin _ fd
    rw [hmin, min_eq_left (hlt s.fdMin h.path.start_mem).le]
    -- the pointers before the last socket are those from before
    apply Follows.concat
    · apply h.path.congr
      intro x hx
      have hxlast := hbelow x hx
      rw [nextFd_create, if_neg (by omega), hnext, if_neg (by omega)]
    · rw [nextFd_create, if_neg (by omega), hnext, if_pos rfl]
  · change s'.fdMax = fd
    rw [hmax, h.max, max_eq_right hlast.le]
  · change s'.fdNum = _
    rw [hcount, h.num, List.length_append, List.length_singleton]

theorem Opens.join (h : s.Opens fds) {data : FdsRecord} (hdata : s.table.fdsArray fd = some data) :
    (s.join line fd data).Opens fds := by
  rcases h with ⟨hnum, hfds⟩ | ⟨before, hfds, hchained⟩
  · exact Or.inl ⟨hnum, hfds⟩
  · exact Or.inr ⟨before, hfds, hchained.join hdata⟩

theorem Opens.create (h : s.Opens fds) (hlink : s.link fd = .ok s') (buf : Int)
    (hsorted : (fds ++ [fd]).Pairwise (· < ·)) : (s'.create p line fd buf).Opens (fds ++ [fd]) := by
  rcases h with ⟨hnum, rfl⟩ | ⟨before, rfl, hchained⟩
  · exact Or.inr ⟨[], rfl, create_first hnum hlink buf⟩
  · obtain ⟨hold, -, hlt⟩ := List.pairwise_append.mp hsorted
    refine Or.inr ⟨before ++ [s.lastFd], rfl, hchained.create hlink buf hold ?_⟩
    intro x hx
    exact hlt x hx fd List.mem_cons_self

theorem LineStep.opens (h : s.Opens fds) (hstep : LineStep p line s o s')
    (hsorted : (fds ++ o.own.toList).Pairwise (· < ·)) : s'.Opens (fds ++ o.own.toList) := by
  cases hstep with
  | skipped =>
    change s.Opens (fds ++ [])
    rwa [List.append_nil]
  | joined fd data hdata =>
    change (s.join line fd data).Opens (fds ++ [])
    rw [List.append_nil]
    exact h.join hdata
  | created fd buf s₁ hlink => exact h.create hlink buf hsorted

end FeedState

section File
open FeedState
variable {p : FeedParams} {lines : List (FeedLine × FeedOutside)} {s s' : FeedState}
  {rs : List (FeedTarget × FeedOutcome)} {fds : List Int}

theorem openedFds_cons (t : FeedTarget) (o : FeedOutcome) :
    openedFds ((t, o) :: rs) = o.own.toList ++ openedFds rs := by
  unfold openedFds
  rw [List.filterMap_cons]
  cases o.own <;> rfl

theorem feedLines_cons {line : FeedLine} {out : FeedOutside}
    (h : feedLines p ((line, out) :: lines) s = .ok (rs, s')) :
    ∃ o s₁ rs', s.feedLine p out line = .ok (o, s₁) ∧ feedLines p lines s₁ = .ok (rs', s') ∧
      rs = (line.toFeedTarget, o) :: rs' := by
  unfold feedLines at h
  split at h
  · cases h
  · next o s₁ hline =>
    split at h
    · cases h
    · next rs' s₂ hrest =>
      cases h
      exact ⟨o, s₁, rs', hline, hrest, rfl⟩

theorem feedLines_opens (hs : s.Opens fds) (h : feedLines p lines s = .ok (rs, s'))
    (hsorted : (fds ++ openedFds rs).Pairwise (· < ·)) : s'.Opens (fds ++ openedFds rs) := by
  induction lines generalizing s fds rs with
  | nil =>
    cases h
    change FeedState.Opens _ (fds ++ [])
    rwa [List.append_nil]
  | cons e lines ih =>
    obtain ⟨o, s₁, rs', hline, hrest, rfl⟩ := feedLines_cons h
    rw [openedFds_cons, ← List.append_assoc] at hsorted ⊢
    exact ih ((feedLine_step hline).opens hs (List.pairwise_append.mp hsorted).1) hrest hsorted

theorem feedLines_held (p : FeedParams) (lines : List (FeedLine × FeedOutside)) (hs : s.Held) :
    feedLines p lines s ≠ .error .nullPointer ∧
      ∀ rs s', feedLines p lines s = .ok (rs, s') → s'.Held := by
  induction lines generalizing s with
  | nil =>
    refine ⟨nofun, ?_⟩
    intro rs s' h
    cases h
    exact hs
  | cons e lines ih =>
    constructor
    · intro h
      unfold feedLines at h
      split at h
      · next e' hline =>
        cases h
        exact hs.feedLine_ne hline
      · next o s₁ hline =>
        split at h
        · next e' hrest =>
          cases h
          exact (ih ((feedLine_step hline).held hs)).1 hrest
        · cases h
    · intro rs s' h
      obtain ⟨o, s₁, rs', hline, hrest, -⟩ := feedLines_cons h
      exact (ih ((feedLine_step hline).held hs)).2 rs' s' hrest

theorem FeedState.Chained.close {before : List Int} (h : s.Chained before)
    (hsorted : (before ++ [s.lastFd]).Pairwise (· < ·)) (data : FdsRecord) :
    IsRing (s.table.setRecord s.fdMax (some { data with nextFd := s.fdMin })).nextFd s.fdMin s.fdMax
      (before ++ [s.lastFd]) := by
  have hbelow : ∀ x ∈ before, x < s.fdMax := by
    intro x hx
    rw [h.max]
    exact (List.pairwise_append.mp hsorted).2.2 x hx s.lastFd List.mem_cons_self
  have hpath := h.path
  rw [← h.max] at hpath ⊢
  apply IsRing.of_arrival
  · apply hpath.congr
    intro x hx
    rw [Connections.nextFd_setRecord, if_neg (hbelow x hx).ne]
  · intro hmem
    exact lt_irrefl _ (hbelow _ hmem)
  · rw [Connections.nextFd_setRecord, if_pos rfl]

theorem setSocketsFromFeedfile_ne (p : FeedParams) (kernel : Int → Option Descriptor)
    (lines : List (FeedLine × FeedOutside)) (ferror : Bool) :
    setSocketsFromFeedfile p kernel lines ferror ≠ .error (.line .nullPointer) := by
  obtain ⟨hne, hheld⟩ := feedLines_held p lines (Held.init kernel)
  intro h
  unfold setSocketsFromFeedfile at h
  split at h
  · next e hlines =>
    cases h
    exact hne hlines
  · next rs s hlines =>
    split at h
    · cases h
    · split at h
      · cases h
      · next hnum =>
        obtain ⟨data, hdata⟩ := Option.isSome_iff_exists.mp ((hheld rs s hlines).max hnum)
        rw [hdata] at h
        cases h

theorem setSocketsFromFeedfile_ring {kernel : Int → Option Descriptor} {ferror : Bool}
    (h : setSocketsFromFeedfile p kernel lines ferror = .ok (rs, s))
    (hsorted : (openedFds rs).Pairwise (· < ·)) :
    IsRing s.table.nextFd s.fdMin s.fdMax (openedFds rs) ∧ (openedFds rs).length = s.fdNum := by
  unfold setSocketsFromFeedfile at h
  split at h
  · cases h
  · next rs' s₁ hlines =>
    split at h
    · cases h
    · split at h
      · cases h
      · next hnum =>
        split at h
        · cases h
        · next data hdata =>
          cases h
          have hopens := feedLines_opens (Or.inl ⟨rfl, rfl⟩) hlines hsorted
          rw [List.nil_append] at hopens
          rcases hopens with ⟨hzero, -⟩ | ⟨before, hfds, hchained⟩
          · exact absurd hzero hnum
          · rw [hfds] at hsorted ⊢
            refine ⟨hchained.close hsorted data, ?_⟩
            rw [List.length_append, List.length_singleton]
            exact hchained.num.symm

end File

/-- `fds_array_is_valid` accepts the rings, on which any `s_fd_num` iterations of `doSendLoop` in a
row send once on every socket. The feed file makes such a ring of sockets with increasing
descriptors, and never follows a null pointer. -/
theorem socket_ring :
    (∀ (t : Connections) (fdMin fdMax : Int) (fdNum : Nat) (data : FdsRecord),
      t.fdsArray fdMax = some data → 1 ≤ fdNum →
      ∃ valid, t.fdsArrayIsValid fdMin fdMax fdNum = some valid ∧
        (valid = true ↔ ∃ fds, IsRing t.nextFd fdMin fdMax fds ∧ fds.length = fdNum) ∧
        ∀ fds, IsRing t.nextFd fdMin fdMax fds → fds.length = fdNum →
          ∀ k, ∃ passed currFds served, t.doSendLoop k fdMin = some (passed, currFds) ∧
            t.doSendLoop fdNum currFds = some (served, currFds) ∧ served.Nodup ∧
            served.Perm fds) ∧
    (∀ (p : FeedParams) (kernel : Int → Option Descriptor) (lines : List (FeedLine × FeedOutside))
      (ferror : Bool), setSocketsFromFeedfile p kernel lines ferror ≠ .error (.line .nullPointer) ∧
      ∀ rs s, setSocketsFromFeedfile p kernel lines ferror = .ok (rs, s) →
        (openedFds rs).Pairwise (· < ·) →
        IsRing s.table.nextFd s.fdMin s.fdMax (openedFds rs) ∧
          (openedFds rs).length = s.fdNum) := by
  constructor
  · intro t fdMin fdMax fdNum data hmax _
    obtain ⟨valid, hvalid, hiff⟩ := Connections.fdsArrayIsValid_iff hmax
    refine ⟨valid, hvalid, hiff, ?_⟩
    rintro fds hring rfl k
    obtain ⟨passed, currFds, served, hpassed, hserved, hperm⟩ := hring.window k
    rw [← Connections.doSendLoop_eq_follow] at hpassed hserved
    exact ⟨passed, currFds, served, hpassed, hserved, hperm.nodup_iff.mpr hring.nodup, hperm⟩
  · intro p kernel lines ferror
    refine ⟨setSocketsFromFeedfile_ne p kernel lines ferror, ?_⟩
    intro rs s h hsorted
    exact setSocketsFromFeedfile_ring h hsorted

/-- Two lines with sockets of their own, and one that is skipped. -/
theorem socket_ring_crossedFile :
    ∃ rs s data, setSocketsFromFeedfile smallServer standardFds crossedFile false = .ok (rs, s) ∧
      IsRing s.table.nextFd 4 5 (openedFds rs) ∧ s.table.fdsArray 5 = some data ∧
      ∃ valid, s.table.fdsArrayIsValid 4 5 2 = some valid ∧
        (valid = true ↔ ∃ fds, IsRing s.table.nextFd 4 5 fds ∧ fds.length = 2) := by
  have hfile : ∃ rs s data,
      setSocketsFromFeedfile smallServer standardFds crossedFile false = .ok (rs, s) ∧
      s.table.fdsArray 5 = some data ∧ s.fdMin = 4 ∧ s.fdMax = 5 ∧
      (openedFds rs).Pairwise (· < ·) :=
    ⟨_, _, _, rfl, rfl, rfl, rfl, by decide⟩
  obtain ⟨rs, s, data, hset, hdata, hmin, hmax, hsorted⟩ := hfile
  have hring := (socket_ring.2 smallServer standardFds crossedFile false).2 rs s hset hsorted
  rw [hmin, hmax] at hring
  obtain ⟨valid, hvalid, hiff, -⟩ := socket_ring.1 s.table 4 5 2 data hdata (by decide)
  exact ⟨rs, s, data, hset, hring.1, hdata, valid, hvalid, hiff⟩

end Sockperf
