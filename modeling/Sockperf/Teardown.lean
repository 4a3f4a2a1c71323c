import Sockperf.Connections

/-!
# Tearing a connection down

`close_ifd` is called from two places that do not know of each other: by `handle_message`, when a
reply finds the peer gone, and by `server_receive_then_send_impl`, which still holds the pointer to
the record then. The calls and the uses of the record are watched here on the table of connections.
-/

namespace Sockperf

open Memory While
set_option autoImplicit false

universe u v
variable {σ : Type u} {γ : Type v}

/-! ## The state of the handler in the parser -/

section Handler
variable {S : AccumulationStrategy} {msMaxSize : Int} {handle : Callback σ} {P Q : σ → Prop}

/-- While the handler accepts it keeps `P`, and it leaves `Q` when it refuses. -/
def Keeps (handle : Callback σ) (P Q : σ → Prop) : Prop :=
  ∀ m msg s, P s →
    ((handle m msg s).1 = true → P (handle m msg s).2.2) ∧
    ((handle m msg s).1 = false → Q (handle m msg s).2.2)

theorem Keeps.turn (h : Keeps handle P Q) {l : Loop σ} (hl : P l.ctx.state) :
    (∀ l', l.turn S msMaxSize handle = .next l' → P l'.ctx.state) ∧
      ∀ r, l.turn S msMaxSize handle = .done r → if r.1 then P r.2.state else Q r.2.state := by
  rcases lt_or_ge 0 l.len with hlen | hlen
  · obtain ⟨c, n, hp⟩ : ∃ c n, processChunk msMaxSize (l.prepared S) l.chunkLen = (c, n) :=
      ⟨_, _, rfl⟩
    have hc : P c.state := by
      have hstate := processChunk_state msMaxSize (l.prepared S) l.chunkLen
      rw [hp, Loop.prepared_state] at hstate
      exact hstate ▸ hl
    by_cases hzero : c.recv.curOffset = 0
    · obtain ⟨htrue, hfalse⟩ := h c.mem c.msg c.state hc
      rw [Loop.turn_deliver handle hlen hp hzero]
      cases hok : (handle c.mem c.msg c.state).1 with
      | true =>
        refine ⟨fun l' hl' => ?_, fun r hr => nomatch hr⟩
        cases hl'
        exact htrue hok
      | false =>
        refine ⟨fun l' hl' => (nomatch hl'), fun r hr => ?_⟩
        cases hr
        exact hfalse hok
    · rw [Loop.turn_keep handle hlen hp hzero]
      refine ⟨fun l' hl' => ?_, fun r hr => nomatch hr⟩
      cases hl'
      exact hc
  · rw [Loop.turn_exit hlen]
    refine ⟨fun l' hl' => (nomatch hl'), fun r hr => ?_⟩
    cases hr
    rw [if_pos rfl, Loop.finish_state]
    exact hl

theorem enter_state (c : Ctx σ) (buf len : Int) : (enter c buf len).ctx.state = c.state := by
  unfold enter
  dsimp only
  split <;> rfl

theorem Keeps.visits (h : Keeps handle P Q) {c : Ctx σ} (hc : P c.state) {buf len : Int}
    {l : Loop σ} (hl : Visits (Loop.turn S msMaxSize handle) (enter c buf len) l) :
    P l.ctx.state :=
  hl.invariant (fun l => P l.ctx.state) ((enter_state c buf len).symm ▸ hc)
    fun _ _ _ hP hnext => (h.turn hP).1 _ hnext

theorem Keeps.processBuffer (h : Keeps handle P Q) {c c' : Ctx σ} (hc : P c.state)
    {buf len : Int} {ok : Bool} (hr : ProcessBuffer S msMaxSize handle c buf len ok c') :
    if ok then P c'.state else Q c'.state :=
  hr.post (fun l => P l.ctx.state) (fun r => if r.1 then P r.2.state else Q r.2.state)
    ((enter_state c buf len).symm ▸ hc) fun _ _ hP => h.turn hP

theorem Keeps.processBuffers (h : Keeps handle P Q) {fuel : Nat} {bufs : List LibBuffer}
    {c c' : Ctx σ} (hc : P c.state) {ok : Bool}
    (hr : processBuffers msMaxSize handle fuel c bufs = some (ok, c')) :
    if ok then P c'.state else Q c'.state := by
  induction bufs generalizing c with
  | nil =>
    cases hr
    exact hc
  | cons b bufs ih =>
    rw [Sockperf.processBuffers] at hr
    split at hr
    · cases hr
    · next hb =>
      cases hr
      exact h.processBuffer hc ⟨fuel, hb⟩
    · next hb => exact ih (h.processBuffer hc ⟨fuel, hb⟩) hr

end Handler

/-! ## The watched server -/

/-- What has become of the record of one connection. -/
structure Watch where
  table : Connections
  /-- calls of `close_ifd` for the connection -/
  closes : Nat
  /-- a pointer to a record that is not there was followed -/
  invalid : Bool
  /-- a reply met `RET_SOCKET_SHUTDOWN` -/
  hungUp : Bool

namespace Watch
variable (ifd : Int) (w : Watch)

def read : Watch := { w with invalid := w.invalid || (w.table.fdsArray ifd).isNone }

/-- `close_ifd(l_fds_ifd->next_fd, ifd, l_fds_ifd)` after a look at `sock_type`. -/
def close (nextFd : Int) : Watch :=
  let w := w.read ifd
  match w.table.closeIfd nextFd ifd with
  | none => { w with closes := w.closes + 1, invalid := true }
  | some table => { w with closes := w.closes + 1, table }

end Watch

namespace Server
variable (srv : Server γ) (ifd nextFd : Int)

/-- `handle_message` goes on to the reply. -/
def replies (now : Outside) (m : Mem) (msg : Message) : Bool :=
  msg.isValidHeader srv.msMaxSize m && !now.exit && (msg.getHeader m).isClient &&
    !(msg.getHeader m).isWarmupMessage && (msg.getHeader m).isPongRequest && !srv.params.dontReply

/-- The reply meets `RET_SOCKET_SHUTDOWN`. -/
def hangsUp (now : Outside) (m : Mem) (msg : Message) : Bool :=
  srv.replies now m msg &&
    msgSendto (msg.getLength (srv.prepareHeader m msg)) now.send == .shutdown

/-- `handle_message` with the uses of the record. -/
def watchMessage (recvfromAddr : SockAddr) : Callback (ServerState γ × Watch) := fun m msg s =>
  let (ok, m', s') := srv.handleMessage recvfromAddr m msg s.1
  let w := s.2.read ifd
  if srv.hangsUp (srv.outside s.1.handled) m msg then
    let w := if srv.fd.isStream then w.close ifd nextFd else w
    (ok, m', s', { w with hungUp := true })
  else (ok, m', s', w)

/-- What `receive_pending_data` of the handlers returns. -/
inductive Arrival where
  | received (r : Received)
  /-- buffers of the library, and the memory with their contents -/
  | buffers (recvfromAddr : SockAddr) (m : Mem) (bufs : LibBuffers)

/-- The end of `server_receive_then_send_impl` when the connection is to be closed. -/
def watchClose (c : Ctx (ServerState γ × Watch)) : Ctx (ServerState γ × Watch) :=
  if srv.fd.isStream then { c with state := (c.state.1, c.state.2.close ifd nextFd) } else c

/-- `iterate_over_buffers`, or what there is instead. -/
def watchData (fuel : Nat) (c : Ctx (ServerState γ × Watch)) :
    Arrival → Option (Bool × Ctx (ServerState γ × Watch))
  | .received (.data recvfromAddr bs) =>
    recvFrom srv.msMaxSize (srv.watchMessage ifd nextFd recvfromAddr) fuel c bs
  | .received .shutdown => some (false, c)
  | .received .error => some (true, c)
  | .buffers recvfromAddr m bufs =>
    iterateOverBuffers srv.msMaxSize (srv.watchMessage ifd nextFd recvfromAddr) fuel
      { c with mem := m } bufs

/-- `server_receive_then_send_impl`; nothing is done without a record. -/
def watchReceive (fuel : Nat) (c : Ctx (ServerState γ × Watch)) (a : Arrival) :
    Option (Bool × Ctx (ServerState γ × Watch)) :=
  match c.state.2.table.fdsArray ifd with
  | none => some (true, c)
  | some data =>
    match srv.watchData ifd data.nextFd fuel c a with
    | none => none
    | some (true, c) => some (false, c)
    | some (false, c) => some (true, srv.watchClose ifd data.nextFd c)

end Server

/-! ## `handle_message` closes when the reply hangs up -/

section Message
variable {srv : Server γ} {recvfromAddr : SockAddr} {m : Mem} {msg : Message} {s : ServerState γ}

theorem Server.calcGaps_closed (r : Bool × Mem × ServerState γ) :
    (srv.calcGaps recvfromAddr msg r).2.2.closed = r.2.2.closed := by
  unfold calcGaps
  split <;> rfl

theorem Server.calcGaps_ok (r : Bool × Mem × ServerState γ) :
    (srv.calcGaps recvfromAddr msg r).1 = r.1 := by
  unfold calcGaps
  split
  · next h => exact h.symm
  · next h => exact (Bool.eq_false_of_not_eq_true h).symm

theorem Server.reply_closed (result : SendResult) :
    (srv.reply recvfromAddr result m msg s).2.2.closed = (s.closed ||
      (msgSendto (msg.getLength (srv.prepareHeader m msg)) result == .shutdown && srv.fd.isStream))
      ∧ (srv.reply recvfromAddr result m msg s).1 =
        !(msgSendto (msg.getLength (srv.prepareHeader m msg)) result == .shutdown) := by
  unfold reply
  dsimp only
  cases msgSendto (msg.getLength (srv.prepareHeader m msg)) result <;> simp

/-- The call of `close_ifd` that `watchMessage` makes is the one of `handle_message`. -/
theorem Server.handleMessage_closed :
    (srv.handleMessage recvfromAddr m msg s).2.2.closed =
      (s.closed || (srv.hangsUp (srv.outside s.handled) m msg && srv.fd.isStream)) := by
  unfold handleMessage hangsUp replies
  dsimp only
  split_ifs <;> simp_all [Server.calcGaps_closed, Server.reply_closed]

theorem Server.handleMessage_of_hangsUp (h : srv.hangsUp (srv.outside s.handled) m msg = true) :
    (srv.handleMessage recvfromAddr m msg s).1 = false := by
  unfold hangsUp replies at h
  simp only [Bool.and_eq_true, Bool.not_eq_true'] at h
  obtain ⟨⟨⟨⟨⟨⟨hvalid, hexit⟩, hclient⟩, hwarm⟩, hpong⟩, hreply⟩, hsend⟩ := h
  simp [handleMessage, hvalid, hexit, hclient, hwarm, hpong, hreply, Server.calcGaps_ok,
    Server.reply_closed, hsend]

end Message

/-! ## One connection -/

namespace Connections
variable {t t' : Connections} {lim : Limits} {ifd l : Int}

theorem Consistent.record (h : t.Consistent lim) (hconn : t.kernel ifd = some (.connection l)) :
    ∃ data, t.fdsArray ifd = some data ∧ data.nextFd = l := by
  obtain ⟨⟨data, hdata, hnext, -⟩, -⟩ := h.connection ifd l hconn
  exact ⟨data, hdata, hnext⟩

theorem closeIfd_kernel (h : t.closeIfd l ifd = some t') :
    t'.kernel ifd = none ∨ t' = t := by
  unfold closeIfd at h
  split at h
  · cases h
  · split at h
    · cases h
    · split at h
      · dsimp only at h
        split at h
        · cases h
        · cases h
          exact Or.inl (Function.update_self _ _ _)
      · cases h
        exact Or.inr rfl

theorem Consistent.close_connection (h : t.Consistent lim)
    (hconn : t.kernel ifd = some (.connection l)) :
    ∃ t', t.closeIfd l ifd = some t' ∧ t'.Consistent lim ∧ t'.kernel ifd = none := by
  obtain ⟨⟨data, hrecord, -, -⟩, next, list, hnext, hlist⟩ := h.connection ifd l hconn
  have hvalid : ifd ≠ invalidSocket := by
    have hrange := h.range ifd data hrecord
    unfold invalidSocket
    omega
  obtain ⟨t', hclose, heffect⟩ := h.close_change hnext hlist hvalid
  have hused := ((h.listener l next list hnext hlist).2.mem ifd).mpr hconn
  rcases heffect with ⟨hnot, -⟩ | ⟨hchange, hgone⟩
  · exact absurd (Slots.mem_used.mp hused).1 hnot
  · exact ⟨t', hclose, hchange.consistent h, hgone⟩

end Connections

namespace Watch
variable {lim : Limits} {ifd l : Int} {w : Watch}

structure Live (lim : Limits) (ifd l : Int) (w : Watch) : Prop where
  consistent : w.table.Consistent lim
  connected : w.table.kernel ifd = some (.connection l)
  closes : w.closes = 0
  valid : w.invalid = false
  hungUp : w.hungUp = false

structure Gone (lim : Limits) (ifd : Int) (closes : Nat) (invalid hungUp : Bool) (w : Watch) :
    Prop where
  consistent : w.table.Consistent lim
  closed : w.table.kernel ifd = none
  closes : w.closes = closes
  invalid : w.invalid = invalid
  hungUp : w.hungUp = hungUp

theorem Live.record (h : w.Live lim ifd l) :
    ∃ data, w.table.fdsArray ifd = some data ∧ data.nextFd = l :=
  h.consistent.record h.connected

theorem Live.read (h : w.Live lim ifd l) : w.read ifd = w := by
  obtain ⟨data, hdata, -⟩ := h.record
  simp [Watch.read, hdata]

/-- The first call of `close_ifd`. -/
theorem Live.close (h : w.Live lim ifd l) : (w.close ifd l).Gone lim ifd 1 false false := by
  obtain ⟨t, hclose, hconsistent, hgone⟩ := h.consistent.close_connection h.connected
  unfold Watch.close
  rw [h.read]
  simp only [hclose]
  exact ⟨hconsistent, hgone, by rw [h.closes], h.valid, h.hungUp⟩

theorem Gone.close {closes : Nat} {invalid hungUp : Bool} (hifd : ifd ≠ invalidSocket)
    (h : w.Gone lim ifd closes invalid hungUp) (nextFd : Int) :
    (w.close ifd nextFd).Gone lim ifd (closes + 1) true hungUp := by
  have hrecord := h.consistent.opened ifd h.closed
  have hread : (w.read ifd).invalid = true := by simp [Watch.read, hrecord]
  unfold Watch.close
  dsimp only
  cases hclose : w.table.closeIfd nextFd ifd with
  | none =>
    have hclose' : (w.read ifd).table.closeIfd nextFd ifd = none := hclose
    rw [hclose']
    exact ⟨h.consistent, h.closed, congrArg (· + 1) h.closes, rfl, h.hungUp⟩
  | some t =>
    have hclose' : (w.read ifd).table.closeIfd nextFd ifd = some t := hclose
    rw [hclose']
    refine ⟨h.consistent.step (.close nextFd ifd hifd hclose), ?_, congrArg (· + 1) h.closes,
      hread, h.hungUp⟩
    rcases Connections.closeIfd_kernel hclose with hgone | rfl
    · exact hgone
    · exact h.closed

end Watch

/-! ## Any sequence of calls -/

section Calls
variable {srv : Server γ} {lim : Limits} {ifd l : Int}

theorem Watch.Live.not_invalid {w : Watch} (h : w.Live lim ifd l) : ifd ≠ invalidSocket := by
  obtain ⟨data, hdata, -⟩ := h.record
  have hrange := h.consistent.range ifd data hdata
  unfold invalidSocket
  omega

variable (lim ifd l) in
theorem Server.watchMessage_keeps (hstream : srv.fd.isStream = true) (recvfromAddr : SockAddr) :
    Keeps (srv.watchMessage ifd l recvfromAddr) (fun s => s.2.Live lim ifd l)
      (fun s => s.2.Live lim ifd l ∨ s.2.Gone lim ifd 1 false true) := by
  intro m msg s hlive
  have hrefuses := @handleMessage_of_hangsUp γ srv recvfromAddr m msg s.1
  unfold watchMessage
  dsimp only
  rw [hlive.read]
  cases hhangs : srv.hangsUp (srv.outside s.1.handled) m msg with
  | false => exact ⟨fun _ => hlive, fun _ => Or.inl hlive⟩
  | true =>
    have hclose := hlive.close
    rw [if_pos rfl, if_pos hstream]
    refine ⟨fun hok => ?_, fun _ => Or.inr ?_⟩
    · cases (hrefuses hhangs).symm.trans hok
    · exact ⟨hclose.consistent, hclose.closed, hclose.closes, hclose.invalid, rfl⟩

/-- The contexts in which a call has the parser at work: it uses the record at every turn. -/
inductive Parsing (srv : Server γ) (ifd : Int) (c : Ctx (ServerState γ × Watch)) :
    Ctx (ServerState γ × Watch) → Prop
  | bytes {data : FdsRecord} (record : c.state.2.table.fdsArray ifd = some data)
      (recvfromAddr : SockAddr) (bs : List UInt8) {l : Loop (ServerState γ × Watch)}
      (visits : Visits (Loop.turn .inPlace srv.msMaxSize
        (srv.watchMessage ifd data.nextFd recvfromAddr)) (enter (receivePendingData c bs)
        (c.recv.curAddr + c.recv.curOffset) bs.length) l) : Parsing srv ifd c l.ctx
  | buffers {data : FdsRecord} (record : c.state.2.table.fdsArray ifd = some data)
      (recvfromAddr : SockAddr) (m : Mem) (before : List LibBuffer) (b : LibBuffer) {fuel : Nat}
      {c' : Ctx (ServerState γ × Watch)} {l : Loop (ServerState γ × Watch)}
      (processed : processBuffers srv.msMaxSize (srv.watchMessage ifd data.nextFd recvfromAddr)
        fuel { c with mem := m } before = some (true, c'))
      (visits : Visits (Loop.turn .buffer srv.msMaxSize
        (srv.watchMessage ifd data.nextFd recvfromAddr)) (enter c' b.addr b.len) l) :
      Parsing srv ifd c l.ctx

theorem Watch.Live.parsing (hstream : srv.fd.isStream = true) {c c' : Ctx (ServerState γ × Watch)}
    (h : c.state.2.Live lim ifd l) (hp : Parsing srv ifd c c') : c'.state.2.Live lim ifd l := by
  obtain ⟨data, hdata, hnext⟩ := h.record
  cases hp with
  | bytes hdata' recvfromAddr bs hvisits =>
    cases hdata.symm.trans hdata'
    rw [hnext] at hvisits
    have hkeeps := Server.watchMessage_keeps lim ifd l hstream recvfromAddr
    exact hkeeps.visits (c := receivePendingData c bs) h hvisits
  | buffers hdata' recvfromAddr m before b hprocessed hvisits =>
    cases hdata.symm.trans hdata'
    rw [hnext] at hprocessed hvisits
    have hkeeps := Server.watchMessage_keeps lim ifd l hstream recvfromAddr
    exact hkeeps.visits (hkeeps.processBuffers (c := { c with mem := m }) h hprocessed) hvisits

theorem Watch.Live.receive (hstream : srv.fd.isStream = true) {fuel : Nat}
    {c c' : Ctx (ServerState γ × Watch)} (h : c.state.2.Live lim ifd l) {a : Server.Arrival}
    {update : Bool} (hr : srv.watchReceive ifd fuel c a = some (update, c')) :
    c'.state.2.Live lim ifd l ∨ c'.state.2.Gone lim ifd 1 false false ∨
      c'.state.2.Gone lim ifd 2 true true := by
  obtain ⟨data, hdata, hnext⟩ := h.record
  have hdone : ∀ ok c₁, srv.watchData ifd l fuel c a = some (ok, c₁) →
      if ok then c₁.state.2.Live lim ifd l
      else c₁.state.2.Live lim ifd l ∨ c₁.state.2.Gone lim ifd 1 false true := by
    intro ok c₁ hc₁
    cases a with
    | received r =>
      cases r with
      | data recvfromAddr bs =>
        exact (Server.watchMessage_keeps lim ifd l hstream recvfromAddr).processBuffer
          (c := receivePendingData c bs) h ⟨fuel, hc₁⟩
      | shutdown =>
        cases hc₁
        exact Or.inl h
      | error =>
        cases hc₁
        exact h
    | buffers recvfromAddr m bufs =>
      rw [Server.watchData, iterateOverBuffers_eq] at hc₁
      exact (Server.watchMessage_keeps lim ifd l hstream recvfromAddr).processBuffers
        (c := { c with mem := m }) h hc₁
  simp only [Server.watchReceive, hdata, hnext] at hr
  split at hr
  · cases hr
  · next c₁ hc₁ =>
    cases hr
    exact Or.inl (hdone true _ hc₁)
  · next c₁ hc₁ =>
    cases hr
    simp only [Server.watchClose, hstream, if_true]
    rcases hdone false _ hc₁ with hlive | hgone
    · exact Or.inr (Or.inl hlive.close)
    · exact Or.inr (Or.inr (hgone.close h.not_invalid l))

/-- Calls for the connection, and calls for others in between. -/
inductive WatchRun (srv : Server γ) (lim : Limits) (ifd : Int) (c : Ctx (ServerState γ × Watch)) :
    Ctx (ServerState γ × Watch) → Prop
  | refl : WatchRun srv lim ifd c c
  | receive {c₁ c₂ : Ctx (ServerState γ × Watch)} (run : WatchRun srv lim ifd c c₁) (fuel : Nat)
      (a : Server.Arrival) (update : Bool)
      (returns : srv.watchReceive ifd fuel c₁ a = some (update, c₂)) : WatchRun srv lim ifd c c₂
  | other {c₁ : Ctx (ServerState γ × Watch)} (run : WatchRun srv lim ifd c c₁) (m : Mem)
      (msg : Message) {t : Connections} (step : Connections.Step lim c₁.state.2.table t)
      (apart : t.kernel ifd = c₁.state.2.table.kernel ifd) :
      WatchRun srv lim ifd c
        { c₁ with mem := m, msg, state := (c₁.state.1, { c₁.state.2 with table := t }) }

/-- No call has to do with a record that is gone. -/
structure TornDownOnce (w : Watch) : Prop where
  valid : w.invalid = false
  once : w.closes ≤ 1

theorem Watch.Gone.receive {closes : Nat} {invalid hungUp : Bool}
    {c c' : Ctx (ServerState γ × Watch)} (h : c.state.2.Gone lim ifd closes invalid hungUp)
    {fuel : Nat} {a : Server.Arrival} {update : Bool}
    (hr : srv.watchReceive ifd fuel c a = some (update, c')) : c' = c := by
  have hrecord := h.consistent.opened ifd h.closed
  simp only [Server.watchReceive, hrecord] at hr
  cases hr
  rfl

/-- The run lemma: the connection is open, was closed once, or was closed twice after a reply that
hung up. -/
theorem WatchRun.phase (hstream : srv.fd.isStream = true) {c c' : Ctx (ServerState γ × Watch)}
    (h : c.state.2.Live lim ifd l) (hrun : WatchRun srv lim ifd c c') :
    c'.state.2.Live lim ifd l ∨ c'.state.2.Gone lim ifd 1 false false ∨
      c'.state.2.Gone lim ifd 2 true true := by
  induction hrun with
  | refl => exact Or.inl h
  | receive _ fuel a update hr ih =>
    rcases ih with hlive | hgone | hgone
    · exact hlive.receive hstream hr
    · rw [hgone.receive hr]
      exact Or.inr (Or.inl hgone)
    · rw [hgone.receive hr]
      exact Or.inr (Or.inr hgone)
  | other _ m msg hstep hapart ih =>
    rcases ih with hlive | hgone | hgone
    · exact Or.inl ⟨hlive.consistent.step hstep, hapart.trans hlive.connected, hlive.closes,
        hlive.valid, hlive.hungUp⟩
    · exact Or.inr (Or.inl ⟨hgone.consistent.step hstep, hapart.trans hgone.closed, hgone.closes,
        hgone.invalid, hgone.hungUp⟩)
    · exact Or.inr (Or.inr ⟨hgone.consistent.step hstep, hapart.trans hgone.closed, hgone.closes,
        hgone.invalid, hgone.hungUp⟩)

/-- A connection is torn down once exactly if no reply on it hangs up; the parser is at work with
the record in place only. -/
theorem torn_down_once_iff (srv : Server γ) (hstream : srv.fd.isStream = true) (lim : Limits)
    (ifd l : Int) (c : Ctx (ServerState γ × Watch)) (hopen : c.state.2.Live lim ifd l) :
    (∀ c', WatchRun srv lim ifd c c' →
      (TornDownOnce c'.state.2 ↔ c'.state.2.hungUp = false)) ∧
    ∀ c' c'', WatchRun srv lim ifd c c' → Parsing srv ifd c' c'' →
      TornDownOnce c''.state.2 ∧ (c''.state.2.table.fdsArray ifd).isSome = true := by
  constructor
  · intro c' hrun
    rcases hrun.phase hstream hopen with hlive | hgone | hgone
    · exact ⟨fun _ => hlive.hungUp, fun _ => ⟨hlive.valid, hlive.closes ▸ Nat.zero_le 1⟩⟩
    · exact ⟨fun _ => hgone.hungUp, fun _ => ⟨hgone.invalid, hgone.closes.le⟩⟩
    · refine ⟨fun honce => ?_, fun hno => ?_⟩
      · cases honce.valid.symm.trans hgone.invalid
      · cases hno.symm.trans hgone.hungUp
  · intro c' c'' hrun hparsing
    have hnone : ∀ {closes invalid hungUp}, ¬ c'.state.2.Gone lim ifd closes invalid hungUp := by
      intro closes invalid hungUp hgone
      have hrecord := hgone.consistent.opened ifd hgone.closed
      cases hparsing with
      | bytes hdata => cases hrecord.symm.trans hdata
      | buffers hdata => cases hrecord.symm.trans hdata
    rcases hrun.phase hstream hopen with hlive | hgone | hgone
    · have hlive' := hlive.parsing hstream hparsing
      obtain ⟨data, hdata, -⟩ := hlive'.record
      refine ⟨⟨hlive'.valid, hlive'.closes ▸ Nat.zero_le 1⟩, ?_⟩
      rw [hdata]
      rfl
    · exact absurd hgone hnone
    · exact absurd hgone hnone

end Calls

section Example

def echoSocket : FdsData := ⟨.inet 0 0x672b, false, true, 0⟩

def listening : Connections where
  fdsArray fd :=
    if fd = 3 then
      some ⟨echoSocket, 0, 0, some (List.replicate 8 invalidSocket), freshRecv 0 65507, none⟩
    else none
  kernel fd := if fd = 3 then some .other else none

theorem listening_initial : Connections.Initial ⟨8, 65507⟩ listening where
  sockets fd data h := by
    unfold listening at h ⊢
    dsimp only at h ⊢
    split at h
    · next hfd =>
      subst hfd
      cases h
      exact ⟨by decide, by decide, rfl, rfl, rfl⟩
    · cases h
  connections fd l h := by
    unfold listening at h
    dsimp only at h
    split at h <;> cases h

def connected : Connections :=
  (listening.serverAccept ⟨8, 65507⟩ ⟨some 1000, 4, true, none⟩ 3).table

def connectedCtx : Ctx (ServerState Unit × Watch) where
  mem _ := 0
  recv := freshRecv 1000 65507
  msg := ⟨0⟩
  state := (⟨0, 0, (), [], false⟩, ⟨connected, 0, false, false⟩)
  asserts := true

/-- A server whose replies end with `send`. -/
def echoServer (send : SendResult) : Server Unit :=
  ⟨65507, ⟨false, false, false⟩, echoSocket, fun _ _ _ _ => (), fun _ => ⟨false, send⟩⟩

theorem connected_live : connectedCtx.state.2.Live ⟨8, 65507⟩ 4 3 where
  consistent := listening_initial.run (.single (.accept 3 _ rfl rfl fun _ => rfl))
  connected := rfl
  closes := rfl
  valid := rfl
  hungUp := rfl

/-- The peer shuts the connection down. -/
theorem torn_down_once_shutdown :
    ∃ c, WatchRun (echoServer .sent) ⟨8, 65507⟩ 4 connectedCtx c ∧ c.state.2.closes = 1 ∧
      TornDownOnce c.state.2 := by
  have hrun : WatchRun (echoServer .sent) ⟨8, 65507⟩ 4 connectedCtx _ :=
    .receive .refl 0 (.received .shutdown) true rfl
  have hiff := torn_down_once_iff (echoServer .sent) rfl _ 4 3 connectedCtx connected_live
  exact ⟨_, hrun, rfl, (hiff.1 _ hrun).mpr rfl⟩

/-- A request whose reply finds the peer gone: the record is used after it was released, and
`close_ifd` is called a second time. -/
theorem torn_down_twice :
    connectedCtx.state.2.Live ⟨8, 65507⟩ 4 3 ∧
      ∃ c, WatchRun (echoServer .shutdown) ⟨8, 65507⟩ 4 connectedCtx c ∧
        c.state.2.closes = 2 ∧ c.state.2.invalid = true ∧ ¬ TornDownOnce c.state.2 := by
  have heval : ((echoServer .shutdown).watchReceive 4 3 connectedCtx
      (.received (.data (.inet 1 1) (WireMessage.encode ⟨⟨1, 3, 14⟩, [], rfl⟩)))).map
      (fun r => (r.1, r.2.state.2.closes, r.2.state.2.invalid)) = some (true, 2, true) := by
    decide +kernel
  obtain ⟨⟨update, c⟩, hr, heq⟩ := Option.map_eq_some_iff.mp heval
  obtain ⟨-, hcloses, hinvalid⟩ :
      update = true ∧ c.state.2.closes = 2 ∧ c.state.2.invalid = true := by
    simpa using heq
  refine ⟨connected_live, c, .receive .refl 3 _ update hr, hcloses, hinvalid, fun h => ?_⟩
  cases h.valid.symm.trans hinvalid

end Example

end Sockperf
