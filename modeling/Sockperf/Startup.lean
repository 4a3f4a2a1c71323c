import Sockperf.Ring
import Sockperf.Serial

/-!
# From the sockets to the service

`bringup` opens the sockets, either those of the feed file or one for the address that was given,
and checks what it has built. `do_test` then starts the threads of the server on the table. What
the threads rely on is what `bringup` leaves behind.
-/

namespace Sockperf

set_option autoImplicit false

/-! ## The sockets -/

inductive SocketSource where
  /-- option `-f` -/
  | feedfile (lines : List (FeedLine × FeedOutside)) (ferror : Bool)
  /-- options `-i` and `-p` -/
  | address (line : FeedLine) (out : FeedOutside)

inductive BringupError where
  | feedfile (e : FeedFileError)
  | socket (e : FeedError)
  /-- "Sanity check failed for sockets list" -/
  | fatal
  /-- "Number of threads should be less than sockets count" -/
  | badArgument
  deriving DecidableEq, Repr

/-- The branch of `bringup` without a feed file. -/
def openSocket (p : FeedParams) (kernel : Int → Option Descriptor) (line : FeedLine)
    (out : FeedOutside) : Except FeedError FeedState :=
  if out.list = false then .error .noMemory
  else if out.socketFd < 0 ∨ p.lim.maxFdsNum ≤ out.socketFd ∨ out.prepared = false then
    .error .socket
  else
    match out.buf with
    | none => .error .noMemory
    | some buf =>
      let fd := out.socketFd
      let s := FeedState.init kernel
      .ok { s with
        table := (s.table.setRecord fd
          (some { FeedState.newRecord p line buf with nextFd := fd })).setKernel fd (some .other)
        fdNum := 1
        fdMin := fd
        fdMax := fd }

/-- What `bringup` does for the sockets. -/
def bringupSockets (p : FeedParams) (kernel : Int → Option Descriptor) (threadsNum : Nat) :
    SocketSource → Except BringupError FeedState
  | .feedfile lines ferror =>
    match setSocketsFromFeedfile p kernel lines ferror with
    | .error e => .error (.feedfile e)
    | .ok (_, s) => check s
  | .address line out =>
    match openSocket p kernel line out with
    | .error e => .error (.socket e)
    | .ok s => check s
where
  check (s : FeedState) : Except BringupError FeedState :=
    if s.table.fdsArrayIsValid s.fdMin s.fdMax s.fdNum ≠ some true then .error .fatal
    else if s.fdNum < threadsNum ∨ threadsNum = 0 then .error .badArgument
    else .ok s

/-- The threads that `do_test` starts for a server. -/
def doTest (lim : Limits) (mthreadServer : Bool) (threadsNum : Nat) (s : FeedState) :
    Option (List HandlerInfo) :=
  if mthreadServer then s.table.serverSelectPerThread (lim.maxFdsNum + 1) threadsNum s.fdNum
  else some [⟨s.fdMin, s.fdMax, s.fdNum⟩]

/-- `do_test` calls `server_handler` itself, or has the threads launched. -/
def doTestLauncher {ι : Type*} (mthreadServer : Bool) (threads : List ι) (s : FeedState) :
    Launcher ι :=
  if mthreadServer then .start threads s.fdNum else .idle

/-- A descriptor that `socket` returns for a line was closed before. -/
def FreshLines (p : FeedParams) : List (FeedLine × FeedOutside) → FeedState → Prop
  | [], _ => True
  | (line, out) :: lines, s =>
    (0 ≤ out.socketFd → s.table.kernel out.socketFd = none) ∧
      ∀ o s', s.feedLine p out line = .ok (o, s') → FreshLines p lines s'

def SocketSource.Fresh (p : FeedParams) (kernel : Int → Option Descriptor) : SocketSource → Prop
  | .feedfile lines _ => FreshLines p lines (.init kernel)
  | .address _ out => 0 ≤ out.socketFd → kernel out.socketFd = none

/-! ## A table in the making -/

namespace Connections
variable {t : Connections} {lim : Limits} {fd : Int} {data : FdsRecord}

theorem Initial.rewrite (h : Initial lim t) (hsome : (t.fdsArray fd).isSome = true)
    (hcount : data.activeFdCount = 0)
    (hlist : data.activeFdList = some (List.replicate lim.maxFdsNum invalidSocket)) :
    Initial lim (t.setRecord fd (some data)) := by
  refine ⟨?_, h.connections⟩
  intro x datax hx
  obtain ⟨old, hold⟩ := Option.isSome_iff_exists.mp hsome
  by_cases hfd : x = fd
  · rw [hfd] at hx ⊢
    have hself : (t.setRecord fd (some data)).fdsArray fd = some data := Function.update_self _ _ _
    cases hself.symm.trans hx
    obtain ⟨hpos, hlt, hother, -⟩ := h.sockets fd old hold
    exact ⟨hpos, hlt, hother, hcount, hlist⟩
  · exact h.sockets x datax ((Function.update_of_ne hfd _ _).symm.trans hx)

theorem Initial.opened (h : Initial lim t) (hpos : 0 ≤ fd) (hlt : fd < lim.maxFdsNum)
    (hcount : data.activeFdCount = 0)
    (hlist : data.activeFdList = some (List.replicate lim.maxFdsNum invalidSocket)) :
    Initial lim ((t.setRecord fd (some data)).setKernel fd (some .other)) := by
  constructor
  · intro x datax hx
    by_cases hfd : x = fd
    · rw [hfd] at hx ⊢
      have hself : (t.setRecord fd (some data)).fdsArray fd = some data :=
        Function.update_self _ _ _
      cases hself.symm.trans hx
      exact ⟨hpos, hlt, Function.update_self _ _ _, hcount, hlist⟩
    · obtain ⟨hx0, hxlt, hother, hrest⟩ :=
        h.sockets x datax ((Function.update_of_ne hfd _ _).symm.trans hx)
      exact ⟨hx0, hxlt, (Function.update_of_ne hfd _ _).trans hother, hrest⟩
  · intro x l hconn
    by_cases hfd : x = fd
    · have hself : ((t.setRecord fd (some data)).setKernel fd (some .other)).kernel fd =
          some .other := Function.update_self _ _ _
      rw [hfd] at hconn
      cases hself.symm.trans hconn
    · exact h.connections x l ((Function.update_of_ne hfd _ _).symm.trans hconn)

theorem StdinOpen.rewrite (h : t.StdinOpen) (hsome : (t.fdsArray fd).isSome = true) :
    (t.setRecord fd (some data)).StdinOpen := by
  refine ⟨h.1, (Function.update_of_ne ?_ _ _).trans h.2⟩
  intro heq
  rw [← heq, h.2] at hsome
  cases hsome

theorem StdinOpen.opened (h : t.StdinOpen) (fresh : t.kernel fd = none) :
    ((t.setRecord fd (some data)).setKernel fd (some .other)).StdinOpen := by
  have hne : 0 ≠ fd := by
    intro heq
    rw [← heq] at fresh
    cases h.1.symm.trans fresh
  exact ⟨(Function.update_of_ne hne _ _).trans h.1, (Function.update_of_ne hne _ _).trans h.2⟩

end Connections

/-- What holds after any number of lines: `fds` are the sockets. -/
structure FeedState.Sockets (lim : Limits) (s : FeedState) (fds : List Int) : Prop where
  initial : Connections.Initial lim s.table
  stdin : s.table.StdinOpen
  nodup : fds.Nodup
  mem : ∀ fd, fd ∈ fds ↔ (s.table.fdsArray fd).isSome = true
  num : s.fdNum = fds.length
  bounds : ∀ fd ∈ fds, s.fdMin ≤ fd ∧ fd ≤ s.fdMax
  ends : fds ≠ [] → s.fdMin ∈ fds ∧ s.fdMax ∈ fds

namespace FeedState
variable {p : FeedParams} {out : FeedOutside} {line : FeedLine} {s s' : FeedState}
  {o : FeedOutcome} {fd : Int} {fds : List Int} {kernel : Int → Option Descriptor}

theorem Sockets.init (hstdin : kernel 0 = some .other)
    (hplain : ∀ fd l, kernel fd ≠ some (.connection l)) :
    (FeedState.init kernel).Sockets p.lim [] where
  initial := by
    refine ⟨?_, hplain⟩
    intro fd data hdata
    cases hdata
  stdin := ⟨hstdin, rfl⟩
  nodup := List.nodup_nil
  mem _ := ⟨fun hmem => absurd hmem List.not_mem_nil, fun hsome => by cases hsome⟩
  num := rfl
  bounds _ hmem := absurd hmem List.not_mem_nil
  ends hne := absurd rfl hne

theorem Sockets.rewrite (h : s.Sockets p.lim fds) (hmem : fd ∈ fds) {data : FdsRecord}
    (hcount : data.activeFdCount = 0)
    (hlist : data.activeFdList = some (List.replicate p.lim.maxFdsNum invalidSocket))
    (htable : s'.table = s.table.setRecord fd (some data)) (hnum : s'.fdNum = s.fdNum)
    (hmin : s'.fdMin = s.fdMin) (hmax : s'.fdMax = s.fdMax) : s'.Sockets p.lim fds := by
  have hsome := (h.mem fd).mp hmem
  refine ⟨?_, ?_, h.nodup, ?_, hnum.trans h.num, ?_, ?_⟩
  · rw [htable]
    exact h.initial.rewrite hsome hcount hlist
  · rw [htable]
    exact h.stdin.rewrite hsome
  · intro x
    rw [htable, Connections.isSome_setRecord, ← h.mem]
    constructor
    · exact Or.inr
    · rintro (rfl | hx)
      · exact hmem
      · exact hx
  · rw [hmin, hmax]
    exact h.bounds
  · rw [hmin, hmax]
    exact h.ends

theorem Sockets.append (h : s.Sockets p.lim fds) (hpos : 0 ≤ fd) (hlt : fd < p.lim.maxFdsNum)
    (fresh : s.table.kernel fd = none) {data : FdsRecord} (hcount : data.activeFdCount = 0)
    (hlist : data.activeFdList = some (List.replicate p.lim.maxFdsNum invalidSocket))
    (htable : s'.table = (s.table.setRecord fd (some data)).setKernel fd (some .other))
    (hnum : s'.fdNum = s.fdNum + 1) (hmin : s'.fdMin = if fds = [] then fd else min s.fdMin fd)
    (hmax : s'.fdMax = if fds = [] then fd else max s.fdMax fd) :
    s'.Sockets p.lim (fds ++ [fd]) := by
  have hnew : fd ∉ fds := by
    intro hmem
    obtain ⟨data', hdata'⟩ := Option.isSome_iff_exists.mp ((h.mem fd).mp hmem)
    cases (h.initial.sockets fd data' hdata').2.2.1.symm.trans fresh
  refine ⟨?_, ?_, ?_, ?_, ?_, ?_, ?_⟩
  · rw [htable]
    exact h.initial.opened hpos hlt hcount hlist
  · rw [htable]
    exact h.stdin.opened fresh
  · rw [List.nodup_append]
    refine ⟨h.nodup, List.nodup_singleton fd, ?_⟩
    intro x hx y hy heq
    rw [List.mem_singleton] at hy
    exact hnew (hy ▸ heq ▸ hx)
  · intro x
    have hx : (s'.table.fdsArray x).isSome = true ↔
        x = fd ∨ (s.table.fdsArray x).isSome = true := by
      rw [htable]
      exact Connections.isSome_setRecord s.table fd x data
    rw [hx, List.mem_append, List.mem_singleton, h.mem, or_comm]
  · rw [hnum, h.num, List.length_append, List.length_singleton]
  · intro x hx
    rw [hmin, hmax]
    rcases List.mem_append.mp hx with hold | hlast
    · rw [if_neg (List.ne_nil_of_mem hold), if_neg (List.ne_nil_of_mem hold)]
      obtain ⟨hlow, hhigh⟩ := h.bounds x hold
      omega
    · rw [List.mem_singleton.mp hlast]
      split <;> omega
  · intro _
    rw [hmin, hmax]
    split
    · exact ⟨List.mem_append_right _ List.mem_cons_self,
        List.mem_append_right _ List.mem_cons_self⟩
    next hne =>
    obtain ⟨hfirst, hlast⟩ := h.ends hne
    constructor
    · rcases min_choice s.fdMin fd with heq | heq
      · rw [heq]
        exact List.mem_append_left _ hfirst
      · rw [heq]
        exact List.mem_append_right _ List.mem_cons_self
    · rcases max_choice s.fdMax fd with heq | heq
      · rw [heq]
        exact List.mem_append_left _ hlast
      · rw [heq]
        exact List.mem_append_right _ List.mem_cons_self

theorem feedLine_created (h : s.feedLine p out line = .ok (.created fd, s')) :
    fd = out.socketFd ∧ 0 ≤ fd ∧ fd < p.lim.maxFdsNum := by
  unfold feedLine at h
  split at h
  · cases h
  · split at h
    · cases h
    · dsimp only at h
      split at h
      · split at h
        · cases h
        · split at h
          · cases h
          · split at h <;> cases h
      · split at h
        · cases h
        · next hrange =>
          split at h
          · cases h
          · split at h
            · cases h
            · cases h
              refine ⟨rfl, ?_, ?_⟩
              · omega
              · omega

theorem Sockets.create (h : s.Sockets p.lim fds) (hlast : fds ≠ [] → s.lastFd ∈ fds)
    (hlink : s.link fd = .ok s') (buf : Int) (hpos : 0 ≤ fd) (hlt : fd < p.lim.maxFdsNum)
    (fresh : s.table.kernel fd = none) :
    (s'.create p line fd buf).Sockets p.lim (fds ++ [fd]) := by
  have hcount : (newRecord p line buf).activeFdCount = 0 := rfl
  have hlist : (newRecord p line buf).activeFdList =
      some (List.replicate p.lim.maxFdsNum invalidSocket) := rfl
  unfold link at hlink
  split at hlink
  · next hnum =>
    have hnil : fds = [] := List.length_eq_zero_iff.mp (h.num.symm.trans hnum)
    cases hlink
    refine h.append hpos hlt fresh hcount hlist rfl ?_ ?_ ?_
    · exact congrArg (· + 1) hnum.symm
    · exact (if_pos hnil).symm
    · exact (if_pos hnil).symm
  · next hnum =>
    have hne : fds ≠ [] := fun hnil => hnum (h.num.trans (by rw [hnil]; rfl))
    split at hlink
    · cases hlink
    next last hrecord =>
    cases hlink
    obtain ⟨-, -, -, hcount', hlist'⟩ := h.initial.sockets s.lastFd last hrecord
    let linked : FdsRecord := { last with nextFd := fd }
    have hbare : linked.activeFdCount = 0 := hcount'
    -- first the pointer of the socket before
    have hlinked : FeedState.Sockets p.lim
        { s with table := s.table.setRecord s.lastFd (some linked) } fds :=
      h.rewrite (hlast hne) hbare hlist' rfl rfl rfl rfl
    refine hlinked.append hpos hlt fresh hcount hlist rfl rfl ?_ ?_
    · exact (if_neg hne).symm
    · exact (if_neg hne).symm

theorem Sockets.join (h : s.Sockets p.lim fds) {data : FdsRecord}
    (hdata : s.table.fdsArray fd = some data) : (s.join line fd data).Sockets p.lim fds := by
  obtain ⟨-, -, -, hcount, hlist⟩ := h.initial.sockets fd data hdata
  have hmem : fd ∈ fds := by
    rw [h.mem, hdata]
    rfl
  refine h.rewrite hmem ?_ ?_ rfl rfl rfl rfl
  · exact hcount
  · exact hlist

theorem Sockets.feedLine (h : s.Sockets p.lim fds) (hlast : fds ≠ [] → s.lastFd ∈ fds)
    (fresh : 0 ≤ out.socketFd → s.table.kernel out.socketFd = none)
    (hline : s.feedLine p out line = .ok (o, s')) :
    ∃ fds', s'.Sockets p.lim fds' ∧ (fds' ≠ [] → s'.lastFd ∈ fds') := by
  cases feedLine_step hline with
  | skipped => exact ⟨fds, h, hlast⟩
  | joined fd data record => exact ⟨fds, h.join record, hlast⟩
  | created fd buf s₁ linked =>
    obtain ⟨rfl, hpos, hlt⟩ := feedLine_created hline
    exact ⟨_, h.create hlast linked buf hpos hlt (fresh hpos),
      fun _ => List.mem_append_right _ List.mem_cons_self⟩

theorem Sockets.feedLines {lines : List (FeedLine × FeedOutside)}
    {rs : List (FeedTarget × FeedOutcome)} (h : s.Sockets p.lim fds)
    (hlast : fds ≠ [] → s.lastFd ∈ fds) (fresh : FreshLines p lines s)
    (hlines : Sockperf.feedLines p lines s = .ok (rs, s')) : ∃ fds', s'.Sockets p.lim fds' := by
  induction lines generalizing s fds rs with
  | nil =>
    cases hlines
    exact ⟨fds, h⟩
  | cons e lines ih =>
    obtain ⟨o, s₁, rs', hline, hrest, -⟩ := feedLines_cons hlines
    obtain ⟨hfresh, hnext⟩ := fresh
    obtain ⟨fds₁, h₁, hlast₁⟩ := h.feedLine hlast hfresh hline
    exact ih h₁ hlast₁ (hnext o s₁ hline) hrest

end FeedState

section Bringup
variable {p : FeedParams} {kernel : Int → Option Descriptor} {threadsNum : Nat}
  {src : SocketSource} {s s₁ : FeedState}
  (hstdin : kernel 0 = some .other) (hplain : ∀ fd l, kernel fd ≠ some (.connection l))
include hstdin hplain

theorem setSocketsFromFeedfile_sockets {lines : List (FeedLine × FeedOutside)} {ferror : Bool}
    {rs : List (FeedTarget × FeedOutcome)} (fresh : FreshLines p lines (.init kernel))
    (h : setSocketsFromFeedfile p kernel lines ferror = .ok (rs, s)) :
    ∃ fds, s.Sockets p.lim fds := by
  unfold setSocketsFromFeedfile at h
  split at h
  · cases h
  next rs' s₁ hlines =>
  obtain ⟨fds, hfds⟩ := (FeedState.Sockets.init (p := p) hstdin hplain).feedLines
    (fun hne => absurd rfl hne) fresh hlines
  split at h
  · cases h
  split at h
  · cases h
  split at h
  · cases h
  next data hdata =>
  cases h
  obtain ⟨-, -, -, hcount, hlist⟩ := hfds.initial.sockets _ data hdata
  have hmem : s₁.fdMax ∈ fds := by
    rw [hfds.mem, hdata]
    rfl
  refine ⟨fds, hfds.rewrite hmem ?_ ?_ rfl rfl rfl rfl⟩
  · exact hcount
  · exact hlist

theorem openSocket_sockets {line : FeedLine} {out : FeedOutside}
    (fresh : 0 ≤ out.socketFd → kernel out.socketFd = none)
    (h : openSocket p kernel line out = .ok s) : s.Sockets p.lim [out.socketFd] := by
  unfold openSocket at h
  split at h
  · cases h
  split at h
  · cases h
  next hrange =>
  split at h
  · cases h
  cases h
  have hpos : 0 ≤ out.socketFd := by omega
  exact (FeedState.Sockets.init (p := p) hstdin hplain).append hpos (by omega) (fresh hpos) rfl rfl
    rfl rfl rfl rfl

omit hstdin hplain in
theorem bringupSockets_check (h : bringupSockets.check threadsNum s = .ok s₁) :
    s₁ = s ∧ s.table.fdsArrayIsValid s.fdMin s.fdMax s.fdNum = some true ∧
      0 < threadsNum ∧ threadsNum ≤ s.fdNum := by
  unfold bringupSockets.check at h
  split at h
  · cases h
  next hvalid =>
  split at h
  · cases h
  next hthreads =>
  cases h
  exact ⟨rfl, not_not.mp hvalid, by omega, by omega⟩

theorem bringupSockets_sockets (fresh : src.Fresh p kernel)
    (h : bringupSockets p kernel threadsNum src = .ok s) :
    (∃ fds, s.Sockets p.lim fds) ∧
      s.table.fdsArrayIsValid s.fdMin s.fdMax s.fdNum = some true ∧
      0 < threadsNum ∧ threadsNum ≤ s.fdNum := by
  cases src with
  | feedfile lines ferror =>
    unfold bringupSockets at h
    dsimp only at h
    split at h
    · cases h
    next rs s₁ hread =>
    obtain ⟨rfl, hchecked⟩ := bringupSockets_check h
    exact ⟨setSocketsFromFeedfile_sockets hstdin hplain fresh hread, hchecked⟩
  | address line out =>
    unfold bringupSockets at h
    dsimp only at h
    split at h
    · cases h
    next s₁ hopened =>
    obtain ⟨rfl, hchecked⟩ := bringupSockets_check h
    exact ⟨⟨_, openSocket_sockets hstdin hplain fresh hopened⟩, hchecked⟩

end Bringup

/-! ## What the threads find -/

theorem single_index {info : HandlerInfo} (i j : Fin [info].length) : i = j :=
  @Subsingleton.elim (Fin 1) _ i j

namespace FeedState.Sockets
variable {lim : Limits} {s : FeedState} {fds : List Int} (h : s.Sockets lim fds)
include h

theorem allSockets_perm : (s.table.allSockets lim).Perm fds := by
  have hnodup : (s.table.allSockets lim).Nodup := (Connections.nodup_fdRange _ _).filter _
  apply (List.perm_ext_iff_of_nodup hnodup h.nodup).mpr
  intro fd
  unfold Connections.allSockets Connections.sockets
  rw [List.mem_filter, mem_fdRange, h.mem]
  constructor
  · exact And.right
  · intro hsome
    obtain ⟨data, hdata⟩ := Option.isSome_iff_exists.mp hsome
    obtain ⟨hpos, hlt, -⟩ := h.initial.sockets fd data hdata
    exact ⟨⟨hpos, by omega⟩, hsome⟩

theorem mem_single {fd : Int} (hsome : (s.table.fdsArray fd).isSome = true) :
    fd ∈ s.table.socketsOf ⟨s.fdMin, s.fdMax, s.fdNum⟩ := by
  rw [Connections.mem_socketsOf]
  exact ⟨h.bounds fd ((h.mem fd).mpr hsome), hsome⟩

theorem single_perm : (s.table.socketsOf ⟨s.fdMin, s.fdMax, s.fdNum⟩).Perm fds := by
  apply (List.perm_ext_iff_of_nodup Connections.nodup_socketsOf h.nodup).mpr
  intro fd
  rw [h.mem]
  constructor
  · intro hmem
    exact (Connections.mem_socketsOf.mp hmem).2
  · exact h.mem_single

theorem single_divided (hne : s.fdNum ≠ 0) : s.table.Divided [⟨s.fdMin, s.fdMax, s.fdNum⟩] := by
  have hlength := h.single_perm.length_eq
  have hnum := h.num
  have hnonempty : fds ≠ [] := by
    rintro rfl
    exact hne hnum
  refine ⟨?_, ?_, ?_, ?_⟩
  · intro i
    rw [single_index i 0]
    exact congrArg Nat.cast (hnum.trans hlength.symm)
  · intro i hnil
    rw [single_index i 0] at hnil
    have hzero := congrArg List.length hnil
    exact hne (hnum.trans (hlength.symm.trans hzero))
  · intro i
    rw [single_index i 0]
    exact (h.mem s.fdMax).mp (h.ends hnonempty).2
  · intro i j hij
    exact absurd (single_index i j) hij

/-- Every thread is told the truth about its sockets, and every socket is given to a thread. -/
theorem doTest_divided {threadsNum : Nat} (hpos : 0 < threadsNum) (hle : threadsNum ≤ s.fdNum)
    (mthreadServer : Bool) :
    ∃ infos, doTest lim mthreadServer threadsNum s = some infos ∧
      (infos.flatMap s.table.socketsOf).Perm fds ∧ s.table.Divided infos ∧
      (doTestLauncher mthreadServer (List.finRange infos.length) s).Divides s.table
        infos.get := by
  unfold doTest doTestLauncher
  cases mthreadServer with
  | true =>
    have hlength : s.fdNum = (s.table.allSockets lim).length :=
      h.num.trans h.allSockets_perm.length_eq.symm
    rw [hlength] at hle ⊢
    obtain ⟨infos, hinfos, -, hflat, hdivided, hlauncher⟩ :=
      Connections.serverSelectPerThread_divided hpos hle
    refine ⟨infos, hinfos, ?_, hdivided, hlauncher⟩
    rw [hflat]
    exact h.allSockets_perm
  | false =>
    refine ⟨_, rfl, ?_, h.single_divided (by omega), .done rfl⟩
    rw [List.flatMap_singleton]
    exact h.single_perm

theorem ring (hne : s.fdNum ≠ 0)
    (hvalid : s.table.fdsArrayIsValid s.fdMin s.fdMax s.fdNum = some true) :
    ∃ ring, IsRing s.table.nextFd s.fdMin s.fdMax ring ∧ ring.Perm fds := by
  have hnonempty : fds ≠ [] := by
    rintro rfl
    exact hne h.num
  obtain ⟨data, hdata⟩ := Option.isSome_iff_exists.mp ((h.mem _).mp (h.ends hnonempty).2)
  obtain ⟨ring, hring, hlength⟩ : ∃ ring, IsRing s.table.nextFd s.fdMin s.fdMax ring ∧
      ring.length = s.fdNum := by
    obtain ⟨valid, hchecked, hiff⟩ := Connections.fdsArrayIsValid_iff hdata
    cases hchecked.symm.trans hvalid
    exact hiff.mp rfl
  refine ⟨ring, hring, ?_⟩
  have hsub : ring ⊆ fds := by
    intro fd hfd
    have hnext := hring.path.isSome fd hfd
    rw [h.mem]
    unfold Connections.nextFd at hnext
    rwa [Option.isSome_map] at hnext
  apply (hring.nodup.subperm hsub).perm_of_length_le
  rw [hlength, h.num]

end FeedState.Sockets

end Sockperf
