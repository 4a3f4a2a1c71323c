import Sockperf.Ring

/-!
# The memberships of a socket

A line of the feed file that joins a socket stores its group at `memberships_addr` before the socket
is prepared. The array has `IGMP_MAX_MEMBERSHIPS` entries, which no line looks at. Which groups the
lines join on a socket is said by the lines and the descriptors `socket` returns, not by the run.
-/

namespace Sockperf

set_option autoImplicit false

inductive MembershipEvent where
  /-- `g_fds_array[fd]->memberships_addr[index] = group` -/
  | stored (fd : Int) (index : Nat) (group : SockAddr)
  /-- A new record, with an array of its own or none. -/
  | opened (fd : Int)
  deriving DecidableEq, Repr

namespace FeedState
variable (p : FeedParams) (out : FeedOutside) (line : FeedLine) (s : FeedState)

/-- The store of a line. It comes before the calls for the socket. -/
def storing : List MembershipEvent :=
  if s.isExist p line ∨ out.list = false then []
  else
    let known := s.socketOf line.portDescriptor
    if known ≠ 0 ∧ line.serverAddr.isMulticast = true then
      match s.table.fdsArray known with
      | none => []
      | some data => [.stored known data.membershipsSize line.serverAddr]
    else []

end FeedState

def FeedOutcome.opening : FeedOutcome → List MembershipEvent
  | .created fd => [.opened fd]
  | _ => []

/-- The events of the loop of `set_sockets_from_feedfile`, the ones of a line that fails too. -/
def membershipEvents (p : FeedParams) :
    List (FeedLine × FeedOutside) → FeedState → List MembershipEvent
  | [], _ => []
  | (line, out) :: lines, s =>
    match s.feedLine p out line with
    | .error _ => s.storing p out line
    | .ok (o, s') => s.storing p out line ++ (o.opening ++ membershipEvents p lines s')

/-- The lines that the loop reads: it ends with the first one that fails. -/
def linesRead (p : FeedParams) :
    List (FeedLine × FeedOutside) → FeedState → List (FeedLine × FeedOutside)
  | [], _ => []
  | (line, out) :: lines, s =>
    match s.feedLine p out line with
    | .error _ => [(line, out)]
    | .ok (_, s') => (line, out) :: linesRead p lines s'

/-- `socket` returns descriptors that are not in use. -/
def FreshSockets (p : FeedParams) : List (FeedLine × FeedOutside) → FeedState → Prop
  | [], _ => True
  | (line, out) :: lines, s =>
    (0 ≤ out.socketFd → s.table.kernel out.socketFd = none) ∧
      ∀ o s', s.feedLine p out line = .ok (o, s') → FreshSockets p lines s'

theorem Succeeding.freshSockets {p : FeedParams} {lines : List (FeedLine × FeedOutside)}
    {s : FeedState} (h : Succeeding p lines s) : FreshSockets p lines s := by
  induction lines generalizing s with
  | nil => trivial
  | cons e lines ih => exact ⟨fun _ => h.1.fresh, fun o s' hline => ih (h.2 o s' hline)⟩

namespace MembershipEvent

/-- The entries from `memberships_addr` on, those past the end of the array too. -/
def store (entries : Int → Nat → Option SockAddr) : MembershipEvent → Int → Nat → Option SockAddr
  | stored fd index group =>
    Function.update entries fd (Function.update (entries fd) index (some group))
  | opened fd => Function.update entries fd fun _ => none

def entries (es : List MembershipEvent) : Int → Nat → Option SockAddr :=
  es.foldl store fun _ _ => none

variable (es : List MembershipEvent) (fd : Int)

theorem entries_stored (index : Nat) (group : SockAddr) :
    entries (es ++ [stored fd index group]) =
      Function.update (entries es) fd (Function.update (entries es fd) index (some group)) :=
  List.foldl_append

theorem entries_opened :
    entries (es ++ [opened fd]) = Function.update (entries es) fd fun _ => none :=
  List.foldl_append

theorem update_length (xs : List SockAddr) (x : SockAddr) (i : Nat) :
    Function.update (fun k => xs[k]?) xs.length (some x) i = (xs ++ [x])[i]? := by
  rw [Function.update_apply]
  rcases lt_trichotomy i xs.length with hlt | rfl | hgt
  · rw [if_neg hlt.ne, List.getElem?_append_left hlt]
  · rw [if_pos rfl, List.getElem?_concat_length]
  · rw [if_neg hgt.ne', List.getElem?_eq_none hgt.le, List.getElem?_eq_none]
    rw [List.length_append, List.length_singleton]
    exact hgt

end MembershipEvent

open MembershipEvent

/-! ## What the file asks for -/

def targetsOf (lines : List (FeedLine × FeedOutside)) : List FeedTarget :=
  lines.map fun e => e.1.toFeedTarget

def OpensSocket (p : FeedParams) (pre : List (FeedLine × FeedOutside)) (line : FeedLine) : Prop :=
  ¬ Skips p (targetsOf pre) line ∧ ¬ line.Shares (targetsOf pre)

/-- `fd` was opened by the last of the lines that opened a socket of this type, family and port. -/
def SocketOf (p : FeedParams) (pre : List (FeedLine × FeedOutside)) (d : PortDescriptor)
    (fd : Int) : Prop :=
  ∃ before e after, pre = before ++ e :: after ∧
    (e.1.portDescriptor = d ∧ OpensSocket p before e.1) ∧ e.2.socketFd = fd ∧
    ∀ mid e' rest, after = mid ++ e' :: rest →
      ¬ (e'.1.portDescriptor = d ∧ OpensSocket p (before ++ e :: mid) e'.1)

/-- The line names a group of the type, family and port of the socket, and is not skipped. -/
structure JoinsOn (p : FeedParams) (pre : List (FeedLine × FeedOutside))
    (e : FeedLine × FeedOutside) (fd : Int) : Prop where
  list : e.2.list = true
  read : ¬ Skips p (targetsOf pre) e.1
  shares : e.1.Shares (targetsOf pre)
  socket : SocketOf p pre e.1.portDescriptor fd

open Classical in
noncomputable def groupsAfter (p : FeedParams) (fd : Int) (before : List (FeedLine × FeedOutside)) :
    List (FeedLine × FeedOutside) → List SockAddr
  | [] => []
  | e :: lines =>
    (if JoinsOn p before e fd then [e.1.serverAddr] else []) ++
      groupsAfter p fd (before ++ [e]) lines

/-- The groups that the lines join on a socket, in file order. -/
noncomputable def groupsOn (p : FeedParams) (lines : List (FeedLine × FeedOutside)) (fd : Int) :
    List SockAddr :=
  groupsAfter p fd [] lines

section File
variable {p : FeedParams} {pre : List (FeedLine × FeedOutside)} {e : FeedLine × FeedOutside}
  {d : PortDescriptor} {fd : Int}

theorem targetsOf_append (pre : List (FeedLine × FeedOutside)) (e : FeedLine × FeedOutside) :
    targetsOf (pre ++ [e]) = targetsOf pre ++ [e.1.toFeedTarget] :=
  List.map_append

theorem socketOf_append_of_opens (hopens : e.1.portDescriptor = d ∧ OpensSocket p pre e.1) :
    SocketOf p (pre ++ [e]) d fd ↔ e.2.socketFd = fd := by
  constructor
  · rintro ⟨before, x, after, hsplit, hx, hfd, hlast⟩
    rcases split_append_singleton hsplit with ⟨-, rfl⟩ | ⟨rest, rfl, rfl⟩
    · exact hfd
    · exact absurd hopens (hlast rest e [] rfl)
  · intro hfd
    refine ⟨pre, e, [], rfl, hopens, hfd, ?_⟩
    rintro (_ | ⟨y, mid⟩) e' rest hnil <;> cases hnil

theorem socketOf_append_of_not (hopens : ¬ (e.1.portDescriptor = d ∧ OpensSocket p pre e.1)) :
    SocketOf p (pre ++ [e]) d fd ↔ SocketOf p pre d fd := by
  constructor
  · rintro ⟨before, x, after, hsplit, hx, hfd, hlast⟩
    rcases split_append_singleton hsplit with ⟨rfl, rfl⟩ | ⟨rest, rfl, rfl⟩
    · exact absurd hx hopens
    · refine ⟨before, x, rest, rfl, hx, hfd, fun mid e' rest' hrest => ?_⟩
      exact hlast mid e' (rest' ++ [e]) (by rw [hrest, List.append_assoc, List.cons_append])
  · rintro ⟨before, x, after, rfl, hx, hfd, hlast⟩
    refine ⟨before, x, after ++ [e], by rw [List.append_assoc, List.cons_append], hx, hfd, ?_⟩
    intro mid e' rest hsplit
    rcases split_append_singleton hsplit with ⟨rfl, rfl⟩ | ⟨rest', -, hafter⟩
    · exact hopens
    · exact hlast mid e' rest' hafter

theorem JoinsOn.not_opens (h : JoinsOn p pre e fd) : ¬ OpensSocket p pre e.1 :=
  fun hopens => hopens.2 h.shares

theorem groupsAfter_append (before xs ys : List (FeedLine × FeedOutside)) :
    groupsAfter p fd before (xs ++ ys) =
      groupsAfter p fd before xs ++ groupsAfter p fd (before ++ xs) ys := by
  induction xs generalizing before with
  | nil => rw [List.nil_append, List.append_nil, groupsAfter, List.nil_append]
  | cons x xs ih =>
    rw [List.cons_append, groupsAfter, groupsAfter, ih, List.append_assoc, List.append_assoc,
      List.singleton_append]

theorem groupsOn_of_joins (h : JoinsOn p pre e fd) :
    groupsOn p (pre ++ [e]) fd = groupsOn p pre fd ++ [e.1.serverAddr] := by
  rw [groupsOn, groupsAfter_append, List.nil_append, groupsAfter, if_pos h, groupsAfter,
    List.append_nil]
  rfl

theorem groupsOn_of_not (h : ¬ JoinsOn p pre e fd) :
    groupsOn p (pre ++ [e]) fd = groupsOn p pre fd := by
  rw [groupsOn, groupsAfter_append, List.nil_append, groupsAfter, if_neg h, groupsAfter,
    List.append_nil, List.append_nil]
  rfl

theorem joins_below_iff (p : FeedParams) (lines : List (FeedLine × FeedOutside)) (fd : Int)
    (limit : Nat) :
    (∀ before e, before ++ [e] <+: lines → JoinsOn p before e fd →
        (groupsOn p before fd).length < limit) ↔
      (groupsOn p lines fd).length ≤ limit := by
  induction lines using List.reverseRecOn with
  | nil =>
    refine ⟨fun _ => Nat.zero_le _, fun _ before e hsub => ?_⟩
    simp at hsub
  | append_singleton lines x ih =>
    have hsplit : (∀ before e, before ++ [e] <+: lines ++ [x] → JoinsOn p before e fd →
          (groupsOn p before fd).length < limit) ↔
        (groupsOn p lines fd).length ≤ limit ∧
          (JoinsOn p lines x fd → (groupsOn p lines fd).length < limit) := by
      rw [← ih]
      constructor
      · intro h
        refine ⟨fun before e hsub => h before e (hsub.trans (List.prefix_append _ _)), ?_⟩
        exact h lines x (List.prefix_refl _)
      · rintro ⟨hold, hnew⟩ before e hsub hjoins
        rcases List.prefix_concat_iff.mp hsub with heq | hsub
        · obtain ⟨rfl, hx⟩ := List.append_inj' heq rfl
          cases hx
          exact hnew hjoins
        · exact hold before e hsub hjoins
    rw [hsplit]
    by_cases hx : JoinsOn p lines x fd
    · rw [groupsOn_of_joins hx, List.length_append, List.length_singleton]
      simp only [hx, forall_const]
      omega
    · rw [groupsOn_of_not hx]
      simp [hx]

end File

/-! ## What the run does -/

namespace FeedState
variable {p : FeedParams} {out : FeedOutside} {line : FeedLine} {s s' : FeedState}
  {o : FeedOutcome} {fd : Int} {pre : List (FeedLine × FeedOutside)} {es : List MembershipEvent}

/-- The map, the records and the arrays are as the lines `pre` ask for. -/
structure Follows (p : FeedParams) (pre : List (FeedLine × FeedOutside)) (s : FeedState)
    (es : List MembershipEvent) : Prop where
  reads : s.Reads p (targetsOf pre)
  socket : ∀ d fd, PortDescriptor.keys.find s.fdSocketMap d = some fd ↔ SocketOf p pre d fd
  size : ∀ fd data, s.table.fdsArray fd = some data →
    data.membershipsSize = (groupsOn p pre fd).length
  unused : ∀ fd, s.table.targets fd = none → groupsOn p pre fd = []
  array : ∀ fd i, entries es fd i = (groupsOn p pre fd)[i]?

theorem Follows.init (kernel : Int → Option Descriptor) (h0 : kernel 0 ≠ none) :
    (FeedState.init kernel).Follows p [] [] where
  reads := .init kernel h0
  socket d fd := by
    constructor
    · intro h
      cases h
    · rintro ⟨before, e, after, hsplit, -⟩
      cases before <;> cases hsplit
  size _ _ h := nomatch h
  unused _ _ := rfl
  array _ _ := rfl

section Line
variable (h : s.Follows p pre es)
include h

theorem Follows.record {d : PortDescriptor} (hsocket : SocketOf p pre d fd) :
    s.socketOf d = fd ∧ fd ≠ 0 ∧ ∃ data, s.table.fdsArray fd = some data ∧
      data.membershipsSize = (groupsOn p pre fd).length := by
  have hfind := (h.socket _ _).mpr hsocket
  obtain ⟨t, ht, -⟩ := h.reads.known _ _ hfind
  obtain ⟨data, hdata, -⟩ := Connections.targets_eq_some ht
  refine ⟨by rw [socketOf, hfind, Option.getD_some], ?_, data, hdata, h.size fd data hdata⟩
  have := (h.reads.open' fd t ht).1
  omega

theorem Follows.storing_of_joins (hjoins : JoinsOn p pre (line, out) fd) :
    s.storing p out line = [.stored fd (groupsOn p pre fd).length line.serverAddr] := by
  obtain ⟨hsocket, hne, data, hdata, hsize⟩ := h.record hjoins.socket
  have hexist : ¬ s.isExist p line = true :=
    fun hexist => hjoins.read ((h.reads.isExist_iff line).mp hexist)
  have hlist : ¬ out.list = false := (Bool.not_eq_false _).mpr hjoins.list
  have hknown : s.socketOf line.portDescriptor = fd := hsocket
  unfold storing
  rw [if_neg (not_or.mpr ⟨hexist, hlist⟩)]
  dsimp only
  rw [hknown, if_pos ⟨hne, hjoins.shares.1⟩, hdata]
  dsimp only
  rw [hsize]

theorem Follows.storing_of_not (hjoins : ∀ fd, ¬ JoinsOn p pre (line, out) fd) :
    s.storing p out line = [] := by
  unfold storing
  split
  · rfl
  · next hread =>
    obtain ⟨hexist, hlist⟩ := not_or.mp hread
    dsimp only
    split
    · next hknown =>
      have hseen := (h.reads.socketOf_ne line.portDescriptor).mp hknown.1
      have hskips : ¬ Skips p (targetsOf pre) line :=
        fun hskips => hexist ((h.reads.isExist_iff line).mpr hskips)
      obtain ⟨fd, hfind⟩ := Option.ne_none_iff_exists'.mp ((h.reads.seen _).mpr hseen)
      refine absurd ⟨?_, hskips, ⟨hknown.2, hseen⟩, (h.socket _ _).mp hfind⟩ (hjoins fd)
      exact Bool.eq_true_of_not_eq_false hlist
    · rfl

/-- A line stores its group, behind the groups before, exactly if it joins the socket. -/
theorem Follows.mem_storing (index : Nat) (group : SockAddr) :
    .stored fd index group ∈ s.storing p out line ↔
      JoinsOn p pre (line, out) fd ∧ index = (groupsOn p pre fd).length ∧
        group = line.serverAddr := by
  constructor
  · intro hmem
    by_cases hjoins : ∃ fd', JoinsOn p pre (line, out) fd'
    · obtain ⟨fd', hjoins⟩ := hjoins
      rw [h.storing_of_joins hjoins] at hmem
      cases List.mem_singleton.mp hmem
      exact ⟨hjoins, rfl, rfl⟩
    · rw [h.storing_of_not (not_exists.mp hjoins)] at hmem
      cases hmem
  · rintro ⟨hjoins, rfl, rfl⟩
    rw [h.storing_of_joins hjoins]
    exact List.mem_singleton_self _

variable (out line) in
theorem Follows.array_storing (x : Int) (i : Nat) :
    entries (es ++ s.storing p out line) x i = (groupsOn p (pre ++ [(line, out)]) x)[i]? := by
  by_cases hjoins : ∃ fd, JoinsOn p pre (line, out) fd
  · obtain ⟨fd, hjoins⟩ := hjoins
    rw [h.storing_of_joins hjoins, entries_stored]
    rcases eq_or_ne x fd with rfl | hne
    · rw [Function.update_self, groupsOn_of_joins hjoins, ← update_length]
      congr 1
      exact funext (h.array x)
    · have hother : ¬ JoinsOn p pre (line, out) x := fun hx =>
        hne (((h.record hx.socket).1.symm.trans (h.record hjoins.socket).1))
      rw [Function.update_of_ne hne, groupsOn_of_not hother, h.array]
  · rw [h.storing_of_not (not_exists.mp hjoins), List.append_nil,
      groupsOn_of_not (not_exists.mp hjoins x), h.array]

end Line

theorem Follows.skip (h : s.Follows p pre es) (hskips : Skips p (targetsOf pre) line) :
    s.Follows p (pre ++ [(line, out)]) (es ++ s.storing p out line) := by
  have hnot : ∀ fd, ¬ JoinsOn p pre (line, out) fd := fun fd hjoins => hjoins.read hskips
  refine ⟨?_, fun d fd => ?_, fun fd data hdata => ?_, fun fd hfd => ?_, h.array_storing out line⟩
  · rw [targetsOf_append]
    exact h.reads.skip hskips.2.1 hskips.2.2
  · rw [h.socket, socketOf_append_of_not fun hopens => hopens.2.1 hskips]
  · rw [groupsOn_of_not (hnot fd)]
    exact h.size fd data hdata
  · rw [groupsOn_of_not (hnot fd)]
    exact h.unused fd hfd

theorem Follows.join (h : s.Follows p pre es) {data : FdsRecord}
    (hdata : s.table.fdsArray fd = some data) (hjoins : JoinsOn p pre (line, out) fd) :
    (s.join line fd data).Follows p (pre ++ [(line, out)]) (es ++ s.storing p out line) := by
  have hother : ∀ x, x ≠ fd → ¬ JoinsOn p pre (line, out) x := fun x hne hx =>
    hne ((h.record hx.socket).1.symm.trans (h.record hjoins.socket).1)
  refine ⟨?_, fun d x => ?_, fun x data' hx => ?_, fun x hx => ?_, h.array_storing out line⟩
  · rw [targetsOf_append]
    exact h.reads.join hdata hjoins.shares.2 hjoins.shares.1
  · rw [socketOf_append_of_not fun hopens => hjoins.not_opens hopens.2]
    exact h.socket d x
  · change Function.update s.table.fdsArray fd _ x = some data' at hx
    rcases eq_or_ne x fd with rfl | hne
    · rw [Function.update_self] at hx
      cases hx
      rw [groupsOn_of_joins hjoins, List.length_append, List.length_singleton, ← h.size x data hdata]
    · rw [Function.update_of_ne hne] at hx
      rw [groupsOn_of_not (hother x hne)]
      exact h.size x data' hx
  · rw [targets_join line hdata] at hx
    rcases eq_or_ne x fd with rfl | hne
    · cases hx.symm.trans (Connections.targets_of_record hdata)
    · rw [groupsOn_of_not (hother x hne)]
      exact h.unused x hx

theorem Follows.create (h : s.Follows p pre es) {buf : Int} (hlinked : Linked s s' out.socketFd)
    (hfree : s.table.targets out.socketFd = none) (hopens : OpensSocket p pre line)
    (hreads : (s'.create p line out.socketFd buf).Reads p (targetsOf (pre ++ [(line, out)]))) :
    (s'.create p line out.socketFd buf).Follows p (pre ++ [(line, out)])
      (es ++ s.storing p out line ++ [.opened out.socketFd]) := by
  have hnot : ∀ x, ¬ JoinsOn p pre (line, out) x := fun x hjoins => hjoins.not_opens hopens
  have hc := hlinked.created p line buf
  refine ⟨hreads, fun d x => ?_, fun x data hx => ?_, fun x hx => ?_, fun x i => ?_⟩
  · rw [hc.find]
    by_cases hd : line.portDescriptor = d
    · rw [if_pos hd, socketOf_append_of_opens ⟨hd, hopens⟩, Option.some.injEq]
    · rw [if_neg hd, socketOf_append_of_not fun hboth => hd hboth.1, h.socket]
  · rw [groupsOn_of_not (hnot x)]
    change Function.update s'.table.fdsArray out.socketFd _ x = some data at hx
    rcases eq_or_ne x out.socketFd with rfl | hne
    · rw [Function.update_self] at hx
      cases hx
      rw [h.unused _ hfree]
      rfl
    · rw [Function.update_of_ne hne] at hx
      have hsize := hlinked.sizes x
      rw [hx, Option.map_some] at hsize
      obtain ⟨data', hdata', heq⟩ := Option.map_eq_some_iff.mp hsize.symm
      rw [← heq]
      exact h.size x data' hdata'
  · rw [groupsOn_of_not (hnot x)]
    rcases eq_or_ne x out.socketFd with rfl | hne
    · exact h.unused _ hfree
    · rw [hc.targets, Function.update_of_ne hne] at hx
      exact h.unused x hx
  · rw [entries_opened]
    rcases eq_or_ne x out.socketFd with rfl | hne
    · rw [Function.update_self, groupsOn_of_not (hnot _), h.unused _ hfree, List.getElem?_nil]
    · rw [Function.update_of_ne hne]
      exact h.array_storing out line x i

theorem Follows.feedLine (h : s.Follows p pre es)
    (hfresh : 0 ≤ out.socketFd → s.table.kernel out.socketFd = none)
    (hline : s.feedLine p out line = .ok (o, s')) :
    s'.Follows p (pre ++ [(line, out)]) (es ++ s.storing p out line ++ o.opening) := by
  have hread := h.reads.feedLine line hfresh
  rw [hline] at hread
  obtain ⟨houtcome, hreads⟩ := hread
  cases houtcome with
  | skipped hskips =>
    change s.Follows p _ (es ++ s.storing p out line ++ [])
    rw [List.append_nil]
    exact h.skip hskips
  | joined fd data hdata hlist hknown _ hjoins =>
    change (s.join line fd data).Follows p _ (es ++ s.storing p out line ++ [])
    rw [List.append_nil]
    exact h.join hdata ⟨hlist, hjoins.1, hjoins.2, (h.socket _ _).mp hknown⟩
  | created buf s₁ hlinked hfree hopens =>
    rw [← targetsOf_append pre (line, out)] at hreads
    exact h.create hlinked hfree hopens hreads

theorem Follows.run {lines : List (FeedLine × FeedOutside)} (h : s.Follows p pre es)
    (hfresh : FreshSockets p lines s) {before : List (FeedLine × FeedOutside)}
    {e : FeedLine × FeedOutside} (hread : before ++ [e] <+: linesRead p lines s) :
    ∃ rs s', feedLines p before s = .ok (rs, s') ∧
      s'.Follows p (pre ++ before) (es ++ membershipEvents p before s) := by
  induction lines generalizing s pre es before with
  | nil => simp [linesRead] at hread
  | cons x lines ih =>
    obtain ⟨line, out⟩ := x
    cases before with
    | nil =>
      refine ⟨[], s, rfl, ?_⟩
      rwa [List.append_nil, membershipEvents, List.append_nil]
    | cons y before =>
      unfold linesRead at hread
      cases hline : s.feedLine p out line with
      | error =>
        rw [hline] at hread
        obtain ⟨-, hnil⟩ := List.cons_prefix_cons.mp hread
        simp at hnil
      | ok r =>
        obtain ⟨o, s₁⟩ := r
        rw [hline] at hread
        obtain ⟨rfl, hrest⟩ := List.cons_prefix_cons.mp hread
        obtain ⟨rs, s', hlines, hfollows⟩ :=
          ih (h.feedLine hfresh.1 hline) (hfresh.2 o s₁ hline) hrest
        refine ⟨(line.toFeedTarget, o) :: rs, s', by simp only [feedLines, hline, hlines], ?_⟩
        simp only [membershipEvents, hline]
        rwa [List.append_assoc, List.append_assoc, List.append_assoc, List.singleton_append]
          at hfollows

theorem Follows.mem_membershipEvents {lines : List (FeedLine × FeedOutside)}
    (h : s.Follows p pre es) (hfresh : FreshSockets p lines s) (index : Nat) (group : SockAddr) :
    .stored fd index group ∈ membershipEvents p lines s ↔
      ∃ before e, before ++ [e] <+: linesRead p lines s ∧ JoinsOn p (pre ++ before) e fd ∧
        index = (groupsOn p (pre ++ before) fd).length ∧ group = e.1.serverAddr := by
  induction lines generalizing s pre es with
  | nil => simp [membershipEvents, linesRead]
  | cons x lines ih =>
    obtain ⟨line, out⟩ := x
    have hfirst : .stored fd index group ∈ s.storing p out line ↔ _ := h.mem_storing index group
    unfold membershipEvents linesRead
    cases hline : s.feedLine p out line with
    | error =>
      dsimp only
      rw [hfirst]
      constructor
      · intro hjoins
        refine ⟨[], (line, out), List.prefix_refl _, ?_⟩
        rwa [List.append_nil]
      · rintro ⟨before, e, hread, hjoins⟩
        cases before with
        | nil =>
          obtain ⟨rfl, -⟩ := List.cons_prefix_cons.mp hread
          rwa [List.append_nil] at hjoins
        | cons y before =>
          obtain ⟨-, hnil⟩ := List.cons_prefix_cons.mp hread
          simp at hnil
    | ok r =>
      obtain ⟨o, s₁⟩ := r
      have hrest := ih (h.feedLine hfresh.1 hline) (hfresh.2 o s₁ hline)
      have hopening : .stored fd index group ∉ o.opening := by
        cases o <;> simp [FeedOutcome.opening]
      simp only [List.mem_append, hopening, false_or, hfirst, hrest]
      constructor
      · rintro (hjoins | ⟨before, e, hread, hjoins⟩)
        · refine ⟨[], (line, out), List.cons_prefix_cons.mpr ⟨rfl, List.nil_prefix⟩, ?_⟩
          rwa [List.append_nil]
        · refine ⟨(line, out) :: before, e, List.cons_prefix_cons.mpr ⟨rfl, hread⟩, ?_⟩
          rwa [List.append_assoc, List.singleton_append] at hjoins
      · rintro ⟨before, e, hread, hjoins⟩
        cases before with
        | nil =>
          obtain ⟨rfl, -⟩ := List.cons_prefix_cons.mp hread
          rw [List.append_nil] at hjoins
          exact Or.inl hjoins
        | cons y before =>
          obtain ⟨rfl, hrest⟩ := List.cons_prefix_cons.mp hread
          refine Or.inr ⟨before, e, hrest, ?_⟩
          rwa [List.append_assoc, List.singleton_append]

end FeedState

/-- A line that is read stores its group exactly if it joins a socket, behind the groups that the
lines before joined on it, and then the array of every socket holds the groups that the lines so far
joined on it, in file order. The stores are inside of the array exactly if the lines read join no
more than `IGMP_MAX_MEMBERSHIPS` groups on any socket. -/
theorem memberships_fit_iff (p : FeedParams) (kernel : Int → Option Descriptor)
    (hfile : kernel 0 ≠ none) (lines : List (FeedLine × FeedOutside))
    (hfresh : FreshSockets p lines (.init kernel)) (igmpMaxMemberships : Nat) :
    let read := linesRead p lines (.init kernel)
    (∀ before line out, before ++ [(line, out)] <+: read →
      ∃ rs s, feedLines p before (.init kernel) = .ok (rs, s) ∧
        (∀ fd index group, .stored fd index group ∈ s.storing p out line ↔
          JoinsOn p before (line, out) fd ∧ index = (groupsOn p before fd).length ∧
            group = line.serverAddr) ∧
        ∀ fd i, entries (membershipEvents p before (.init kernel) ++ s.storing p out line) fd i =
          (groupsOn p (before ++ [(line, out)]) fd)[i]?) ∧
    ((∀ fd index group, .stored fd index group ∈ membershipEvents p lines (.init kernel) →
        index < igmpMaxMemberships) ↔
      ∀ fd, (groupsOn p read fd).length ≤ igmpMaxMemberships) := by
  have hinit : FeedState.Follows p [] (.init kernel) [] := .init kernel hfile
  refine ⟨fun before line out hread => ?_, ?_⟩
  · obtain ⟨rs, s, hlines, hfollows⟩ := hinit.run hfresh hread
    exact ⟨rs, s, hlines, fun fd => hfollows.mem_storing, hfollows.array_storing out line⟩
  · simp only [hinit.mem_membershipEvents hfresh, List.nil_append, ← joins_below_iff]
    constructor
    · intro h fd before e hread hjoins
      exact h fd _ _ ⟨before, e, hread, hjoins, rfl, rfl⟩
    · rintro h fd index group ⟨before, e, hread, hjoins, rfl, -⟩
      exact h fd before e hread hjoins

/-- "[ff02::1]:11111", "[ff02::2]:11111" and so on. -/
def groupsFile (n : Nat) : List (FeedLine × FeedOutside) :=
  (List.range n).map fun k =>
    (⟨⟨false, .inet6 (0x02ff + BitVec.ofNat 128 (k + 1) <<< 120) 0x672b 0 0⟩, false⟩, opens (4 + k))

/-- Two of three groups are stored. -/
theorem memberships_fit_iff_three :
    membershipEvents smallServer (groupsFile 3) (.init standardFds) =
        [.opened 4, .stored 4 0 (.inet6 (0x02ff + 2 <<< 120) 0x672b 0 0),
          .stored 4 1 (.inet6 (0x02ff + 3 <<< 120) 0x672b 0 0)] ∧
      ∀ fd, (groupsOn smallServer (linesRead smallServer (groupsFile 3) (.init standardFds))
        fd).length ≤ 2 := by
  have hevents : membershipEvents smallServer (groupsFile 3) (.init standardFds) =
      [.opened 4, .stored 4 0 (.inet6 (0x02ff + 2 <<< 120) 0x672b 0 0),
        .stored 4 1 (.inet6 (0x02ff + 3 <<< 120) 0x672b 0 0)] := by decide +kernel
  have hsucc : Succeeding smallServer (groupsFile 3) (.init standardFds) := by
    refine succeeding_cons ⟨rfl, rfl, rfl, by decide, rfl⟩ rfl ?_
    refine succeeding_cons ⟨rfl, rfl, rfl, by decide, rfl⟩ rfl ?_
    exact succeeding_cons ⟨rfl, rfl, rfl, by decide, rfl⟩ rfl trivial
  have hfit := (memberships_fit_iff smallServer standardFds nofun (groupsFile 3)
    hsucc.freshSockets 2).2
  refine ⟨hevents, hfit.mp fun fd index group hmem => ?_⟩
  rw [hevents] at hmem
  simp only [List.mem_cons, reduceCtorEq, MembershipEvent.stored.injEq, List.not_mem_nil,
    or_false, false_or] at hmem
  omega

/-- `IP_MAX_MEMBERSHIPS`, which `IGMP_MAX_MEMBERSHIPS` is unless the kernel names another number. -/
def ipMaxMemberships : Nat := 20

/-- All 22 lines are read, and the last group is stored behind the end of the array. -/
theorem twenty_two_groups :
    (feedLines smallServer (groupsFile 22) (.init standardFds)).isOk = true ∧
      ∃ index group, .stored 4 index group ∈
          membershipEvents smallServer (groupsFile 22) (.init standardFds) ∧
        ¬ index < ipMaxMemberships := by
  refine ⟨by decide +kernel, 20, .inet6 (0x02ff + BitVec.ofNat 128 22 <<< 120) 0x672b 0 0, ?_⟩
  decide +kernel

end Sockperf
