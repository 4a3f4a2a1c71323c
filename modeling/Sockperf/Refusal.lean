import Sockperf.IoHandlers

/-!
# Refused connections

`server_accept` can fail before a connection has a slot, a place in the counter and a record of its
own, and after. The clean-up at its end knows the first case only.
-/

namespace Sockperf

open Slots
set_option autoImplicit false

namespace Connections
variable {t : Connections} {lim : Limits} {out : AcceptOutside} {ifd : Int} {data : FdsRecord}
  {list : List Int}

/-- What can go wrong for a listening socket with this record and these slots. -/
inductive Failure (lim : Limits) (out : AcceptOutside) (data : FdsRecord) (list : List Int) : Prop
  | memory (h : out.buf = none)
  | accept (h : out.activeIfd < 0)
  | descriptors (h : lim.maxFdsNum ≤ out.activeIfd)
  | connections (h : lim.maxFdsNum - 1 ≤ data.activeFdCount)
  | slots (h : invalidSocket ∉ list)
  | prepare (h : out.prepared = false)
  | handshake (h : out.tls = some none)

structure Placed (lim : Limits) (out : AcceptOutside) (data : FdsRecord) (list : List Int) :
    Prop where
  accepted : 0 ≤ out.activeIfd
  descriptor : out.activeIfd < lim.maxFdsNum
  room : data.activeFdCount < lim.maxFdsNum - 1
  prepared : out.prepared = true
  slot : invalidSocket ∈ list

/-- The refused connection leaves nothing behind. -/
structure NoTrace (t : Connections) (out : AcceptOutside) (r : Accepted) : Prop where
  ret : r.ret = invalidSocket
  records : r.table.fdsArray = t.fdsArray
  /-- `accept` is called after the buffer is allocated -/
  closed : out.buf ≠ none → 0 ≤ out.activeIfd → r.table.kernel out.activeIfd = none
  others : ∀ fd, fd ≠ out.activeIfd → r.table.kernel fd = t.kernel fd
  released : r.usedReleased = false

section Listening
variable (hdata : t.fdsArray ifd = some data) (hlist : data.activeFdList = some list)
  (hstream : data.isStream = true)
include hdata hlist hstream

theorem serverAccept_memory (hbuf : out.buf = none) :
    t.serverAccept lim out ifd = ⟨errNoMemory, t, false⟩ := by
  simp only [serverAccept, hdata, hlist, hstream, hbuf, Bool.true_eq_false, if_false]

variable (hbuf : out.buf ≠ none)
include hbuf

theorem serverAccept_failed (hneg : out.activeIfd < 0) :
    t.serverAccept lim out ifd = ⟨invalidSocket, t, false⟩ := by
  obtain ⟨buf, hbuf⟩ := Option.ne_none_iff_exists'.mp hbuf
  simp only [serverAccept, hdata, hlist, hstream, hbuf, Bool.true_eq_false, if_false, hneg, if_true]

theorem serverAccept_closed (hopen : 0 ≤ out.activeIfd) (hplaced : ¬ Placed lim out data list) :
    t.serverAccept lim out ifd = ⟨invalidSocket,
      (t.setKernel out.activeIfd (some (.connection ifd))).setKernel out.activeIfd none,
      false⟩ := by
  obtain ⟨buf, hbuf⟩ := Option.ne_none_iff_exists'.mp hbuf
  have hnot : ¬ (out.activeIfd < lim.maxFdsNum ∧ data.activeFdCount < lim.maxFdsNum - 1 ∧
      out.prepared = true ∧ invalidSocket ∈ list) :=
    fun h => hplaced ⟨hopen, h.1, h.2.1, h.2.2.1, h.2.2.2⟩
  simp only [serverAccept, hdata, hlist, hstream, hbuf, Bool.true_eq_false, if_false,
    not_lt.mpr hopen, hnot]

theorem serverAccept_handshake (hplaced : Placed lim out data list) (htls : out.tls = some none) :
    (t.serverAccept lim out ifd).usedReleased = true := by
  obtain ⟨buf, hbuf⟩ := Option.ne_none_iff_exists'.mp hbuf
  have hroom : out.activeIfd < lim.maxFdsNum ∧ data.activeFdCount < lim.maxFdsNum - 1 ∧
      out.prepared = true ∧ invalidSocket ∈ list :=
    ⟨hplaced.descriptor, hplaced.room, hplaced.prepared, hplaced.slot⟩
  simp only [serverAccept, hdata, hlist, hstream, hbuf, Bool.true_eq_false, if_false,
    not_lt.mpr hplaced.accepted, hroom, htls]
  rfl

end Listening

theorem Failure.handshake_of_placed (hfail : Failure lim out data list) (hbuf : out.buf ≠ none)
    (hplaced : Placed lim out data list) : out.tls = some none := by
  cases hfail with
  | memory h => exact absurd h hbuf
  | accept h => exact absurd hplaced.accepted (not_le.mpr h)
  | descriptors h => exact absurd hplaced.descriptor (not_lt.mpr h)
  | connections h => exact absurd hplaced.room (not_lt.mpr h)
  | slots h => exact absurd hplaced.slot h
  | prepare h => cases h.symm.trans hplaced.prepared
  | handshake h => exact h

end Connections

open Connections

/-- A refused connection leaves no trace exactly if its buffer could be allocated and it had not got
a slot. -/
theorem refused_without_trace (lim : Limits) (t : Connections) (out : AcceptOutside) (ifd : Int)
    {data : FdsRecord} {list : List Int} (hdata : t.fdsArray ifd = some data)
    (hlist : data.activeFdList = some list) (hstream : data.isStream = true)
    (hfail : Failure lim out data list) :
    NoTrace t out (t.serverAccept lim out ifd) ↔
      out.buf ≠ none ∧ ¬ Placed lim out data list := by
  constructor
  · intro h
    have hbuf : out.buf ≠ none := by
      intro hnone
      have hret := h.ret
      rw [serverAccept_memory hdata hlist hstream hnone] at hret
      cases hret
    refine ⟨hbuf, fun hplaced => ?_⟩
    have hused := serverAccept_handshake hdata hlist hstream hbuf hplaced
      (hfail.handshake_of_placed hbuf hplaced)
    rw [h.released] at hused
    cases hused
  · rintro ⟨hbuf, hplaced⟩
    rcases lt_or_ge out.activeIfd 0 with hneg | hopen
    · rw [serverAccept_failed hdata hlist hstream hbuf hneg]
      exact ⟨rfl, rfl, fun _ hopen => absurd hopen (not_le.mpr hneg), fun _ _ => rfl, rfl⟩
    · rw [serverAccept_closed hdata hlist hstream hbuf hopen hplaced]
      refine ⟨rfl, rfl, fun _ _ => Function.update_self _ _ _, fun fd hfd => ?_, rfl⟩
      exact (Function.update_of_ne hfd _ _).trans (Function.update_of_ne hfd _ _)

/-- Descriptor 4 is accepted and the TLS handshake with the client fails. -/
def failedHandshake : AcceptOutside := ⟨some 0, 4, true, some none⟩

/-- The closed descriptor keeps its slot, its place in the counter and its record, and the record is
used through the pointer that was given up. Without memory for the buffer the error code is returned
in place of a descriptor. -/
theorem failed_handshake_leaves_slot :
    (tcpStart.serverAccept tcpLimits failedHandshake 3).ret = invalidSocket ∧
    (tcpStart.serverAccept tcpLimits failedHandshake 3).usedReleased = true ∧
    (tcpStart.serverAccept tcpLimits failedHandshake 3).table.kernel 4 = none ∧
    ((tcpStart.serverAccept tcpLimits failedHandshake 3).table.fdsArray 3).map
      (fun data => (data.activeFdCount, data.activeFdList)) =
        some (1, some [4, -1, -1, -1, -1, -1, -1, -1]) ∧
    ((tcpStart.serverAccept tcpLimits failedHandshake 3).table.fdsArray 4).isSome = true ∧
    (tcpStart.serverAccept tcpLimits ⟨none, 4, true, none⟩ 3).ret = 5 := by
  decide

theorem refused_without_trace_prepare :
    NoTrace tcpStart ⟨some 0, 4, false, none⟩
      (tcpStart.serverAccept tcpLimits ⟨some 0, 4, false, none⟩ 3) := by
  apply (refused_without_trace tcpLimits tcpStart ⟨some 0, 4, false, none⟩ 3
    rfl rfl rfl (.prepare rfl)).mpr
  refine ⟨by decide, fun hplaced => ?_⟩
  cases hplaced.prepared

end Sockperf
