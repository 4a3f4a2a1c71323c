import Sockperf.Server

/-!
# Sending on a stream socket

`msg_sendto` repeats `sendto` until the message is taken. Its results are the input here: one for
each call of `sendto`.
-/

namespace Sockperf

set_option autoImplicit false

/-- What one `sendto` does: the socket has room for some bytes and takes as many as it is given, or
there is an error. -/
inductive SendtoResult where
  | room (n : Nat)
  | epipe
  | econnreset
  | eagain
  | ewouldblock
  | eintr
  | other
  deriving DecidableEq, Repr

def retSocketSkipped : Int := -2

def retSocketShutdown : Int := 0

/-- The variables of the loop; `buf` is what the pointer points to, and `accepted` what the socket
took so far. -/
structure SendtoState where
  buf : List UInt8
  nbytes : Nat
  ret : Int
  accepted : List UInt8

inductive SendtoOutcome where
  | returned (ret : Int) (accepted : List UInt8)
  | exited
  /-- the results are used up and the call is still in the loop -/
  | pending
  deriving DecidableEq, Repr

/-- The loop of `msg_sendto`; `exiting` is `g_b_exit`. -/
def sendtoLoop (exiting : Bool) (size : Nat) (results : List SendtoResult) (s : SendtoState) :
    SendtoOutcome :=
  if s.nbytes = 0 then .returned s.ret s.accepted
  else
    match results with
    | [] => .pending
    | .room n :: rest =>
      let ret := min n s.nbytes
      if 0 < ret then
        sendtoLoop exiting size rest
          { buf := s.buf.drop ret
            nbytes := s.nbytes - ret
            ret := size
            accepted := s.accepted ++ s.buf.take ret }
      else .returned retSocketShutdown s.accepted
    | .epipe :: _ => .returned retSocketShutdown s.accepted
    | .econnreset :: _ => .returned retSocketShutdown s.accepted
    | .eagain :: rest | .ewouldblock :: rest =>
      if s.nbytes < size then sendtoLoop exiting size rest { s with ret := -1 }
      else .returned retSocketSkipped s.accepted
    | .eintr :: _ => .returned (-1) s.accepted
    -- `sendtoError` leaves the process, unless it is going to end anyway
    | .other :: _ => if exiting then .returned (-1) s.accepted else .exited

/-- `msg_sendto` on a stream socket. -/
def msgSendto (exiting : Bool) (buf : List UInt8) (nbytes : Nat) (results : List SendtoResult) :
    SendtoOutcome :=
  sendtoLoop exiting nbytes results ⟨buf, nbytes, 0, []⟩

namespace SendtoResult

def bytes : SendtoResult → Nat
  | .room n => n
  | _ => 0

/-- A result behind which the loop goes on once a part of the message was taken. -/
def goesOn : SendtoResult → Bool
  | .room n => 0 < n
  | .eagain | .ewouldblock => true
  | _ => false

/-- A result at which the loop is left without a shutdown. -/
def breaks (exiting : Bool) : SendtoResult → Bool
  | .eintr => true
  | .other => exiting
  | _ => false

end SendtoResult

/-- A send is interrupted when the socket has taken a part of the message. -/
def InterruptedSend (exiting : Bool) (size : Nat) (results : List SendtoResult) : Prop :=
  ∃ n front result rest, results = .room n :: (front ++ result :: rest) ∧ 0 < n ∧
    (∀ r ∈ front, r.goesOn = true) ∧ n + (front.map (·.bytes)).sum < size ∧
    result.breaks exiting = true

section Loop
variable {exiting : Bool} {msg tail : List UInt8} {s : SendtoState}

/-- What was taken and what is left make up the message. -/
structure SendtoState.Split (msg : List UInt8) (s : SendtoState) : Prop where
  append : s.accepted ++ s.buf.take s.nbytes = msg
  length : s.accepted.length + s.nbytes = msg.length

/-- A part of the message was taken, and there is more of it to send. -/
structure SendtoState.Partway (msg : List UInt8) (s : SendtoState) : Prop
    extends s.Split msg where
  begun : s.accepted ≠ []
  left : 0 < s.nbytes

theorem SendtoState.Partway.lt (h : s.Partway msg) : s.nbytes < msg.length := by
  have hpos : 0 < s.accepted.length := List.length_pos_iff.mpr h.begun
  have hlength := h.length
  omega

theorem SendtoState.Partway.ne (h : s.Partway msg) : s.accepted ≠ msg := by
  intro heq
  have hlength := h.length
  have hleft := h.left
  rw [heq] at hlength
  omega

theorem SendtoState.Partway.setRet (h : s.Partway msg) (ret : Int) :
    ({ s with ret := ret } : SendtoState).Partway msg :=
  ⟨⟨h.append, h.length⟩, h.begun, h.left⟩

/-- The state behind a `sendto` that took `k` bytes. -/
def SendtoState.advance (s : SendtoState) (size k : Nat) : SendtoState where
  buf := s.buf.drop k
  nbytes := s.nbytes - k
  ret := size
  accepted := s.accepted ++ s.buf.take k

theorem SendtoState.Split.buf_length (h : s.Split msg) : s.nbytes ≤ s.buf.length := by
  have happend := congrArg List.length h.append
  rw [List.length_append, List.length_take] at happend
  have hlength := h.length
  omega

theorem SendtoState.Split.advance (h : s.Split msg) (size : Nat) {k : Nat} (hk : k ≤ s.nbytes) :
    (s.advance size k).Split msg := by
  have hbuf := h.buf_length
  have hlength := h.length
  constructor
  · show (s.accepted ++ s.buf.take k) ++ (s.buf.drop k).take (s.nbytes - k) = msg
    rw [List.append_assoc, ← List.take_add, Nat.add_sub_of_le hk]
    exact h.append
  · show (s.accepted ++ s.buf.take k).length + (s.nbytes - k) = msg.length
    rw [List.length_append, List.length_take]
    omega

/-- Behind a `sendto` that took bytes there is more to send, or the whole message is out. -/
theorem SendtoState.Split.advance_cases (h : s.Split msg) (size : Nat) {n : Nat} (hn : 0 < n)
    (hleft : 0 < s.nbytes) :
    n < s.nbytes ∧ (s.advance size (min n s.nbytes)).Partway msg ∧
        (s.advance size (min n s.nbytes)).nbytes = s.nbytes - n ∨
      s.nbytes ≤ n ∧ (s.advance size (min n s.nbytes)).nbytes = 0 ∧
        (s.advance size (min n s.nbytes)).accepted = msg := by
  have hsplit := h.advance size (Nat.min_le_right n s.nbytes)
  rcases Nat.lt_or_ge n s.nbytes with hlt | hge
  · have hmin : min n s.nbytes = n := Nat.min_eq_left (Nat.le_of_lt hlt)
    rw [hmin] at hsplit ⊢
    refine Or.inl ⟨hlt, ⟨hsplit, ?_, Nat.sub_pos_of_lt hlt⟩, rfl⟩
    have hbuf := h.buf_length
    apply List.ne_nil_of_length_pos
    show 0 < (s.accepted ++ s.buf.take n).length
    rw [List.length_append, List.length_take]
    omega
  · have hzero : (s.advance size (min n s.nbytes)).nbytes = 0 := by
      show s.nbytes - min n s.nbytes = 0
      omega
    refine Or.inr ⟨hge, hzero, ?_⟩
    have happend := hsplit.append
    rw [hzero, List.take_zero, List.append_nil] at happend
    exact happend

theorem sendtoLoop_done (size : Nat) (results : List SendtoResult) (h : s.nbytes = 0) :
    sendtoLoop exiting size results s = .returned s.ret s.accepted := by
  rw [sendtoLoop.eq_def, if_pos h]

theorem sendtoLoop_nil (size : Nat) (h : 0 < s.nbytes) :
    sendtoLoop exiting size [] s = .pending := by
  rw [sendtoLoop.eq_def, if_neg (by omega)]

theorem sendtoLoop_room (size : Nat) {n : Nat} (rest : List SendtoResult) (hn : 0 < n)
    (h : 0 < s.nbytes) : sendtoLoop exiting size (.room n :: rest) s =
      sendtoLoop exiting size rest (s.advance size (min n s.nbytes)) := by
  rw [sendtoLoop.eq_def, if_neg (by omega)]
  exact if_pos (by omega)

theorem sendtoLoop_wouldBlock {size : Nat} {r : SendtoResult} (rest : List SendtoResult)
    (hr : r = .eagain ∨ r = .ewouldblock) (h : 0 < s.nbytes) (hlt : s.nbytes < size) :
    sendtoLoop exiting size (r :: rest) s = sendtoLoop exiting size rest { s with ret := -1 } := by
  rw [sendtoLoop.eq_def, if_neg (by omega)]
  rcases hr with rfl | rfl <;> exact if_pos hlt

theorem sendtoLoop_breaks (size : Nat) {r : SendtoResult} (rest : List SendtoResult)
    (hr : r.breaks exiting = true) (h : 0 < s.nbytes) :
    sendtoLoop exiting size (r :: rest) s = .returned (-1) s.accepted := by
  rw [sendtoLoop.eq_def, if_neg (by omega)]
  cases r with
  | eintr => rfl
  | other => exact if_pos hr
  | _ => cases hr

variable (exiting) in
theorem sendtoLoop_front (rest : List SendtoResult) (front : List SendtoResult) :
    ∀ s : SendtoState, s.Partway msg → (∀ r ∈ front, r.goesOn = true) →
      (front.map (·.bytes)).sum < s.nbytes →
      ∃ s', s'.Partway msg ∧ sendtoLoop exiting msg.length (front ++ rest) s =
        sendtoLoop exiting msg.length rest s' := by
  induction front with
  | nil =>
    intro s h _ _
    exact ⟨s, h, rfl⟩
  | cons r front ih =>
    intro s h hgoes hsum
    have hfront : ∀ r ∈ front, r.goesOn = true := fun q hq => hgoes q (List.mem_cons_of_mem r hq)
    have hr := hgoes r List.mem_cons_self
    rw [List.map_cons, List.sum_cons] at hsum
    rw [List.cons_append]
    cases r with
    | room n =>
      have hn : 0 < n := by simpa [SendtoResult.goesOn] using hr
      change n + _ < _ at hsum
      rw [sendtoLoop_room _ _ hn h.left]
      rcases h.advance_cases msg.length hn h.left with ⟨-, hpart, hnbytes⟩ | ⟨hle, -⟩
      · exact ih _ hpart hfront (by omega)
      · omega
    | eagain =>
      rw [sendtoLoop_wouldBlock _ (Or.inl rfl) h.left h.lt]
      exact ih _ (h.setRet (-1)) hfront (by simpa [SendtoResult.bytes] using hsum)
    | ewouldblock =>
      rw [sendtoLoop_wouldBlock _ (Or.inr rfl) h.left h.lt]
      exact ih _ (h.setRet (-1)) hfront (by simpa [SendtoResult.bytes] using hsum)
    | epipe => cases hr
    | econnreset => cases hr
    | eintr => cases hr
    | other => cases hr

/-- The results go on for fewer than `n` bytes, and then one of them ends the loop. -/
def Broken (exiting : Bool) (n : Nat) (results : List SendtoResult) : Prop :=
  ∃ front result rest, results = front ++ result :: rest ∧ (∀ r ∈ front, r.goesOn = true) ∧
    (front.map (·.bytes)).sum < n ∧ result.breaks exiting = true

theorem Broken.here {n : Nat} {r : SendtoResult} (results : List SendtoResult)
    (hr : r.breaks exiting = true) (hn : 0 < n) : Broken exiting n (r :: results) := by
  refine ⟨[], r, results, rfl, ?_, hn, hr⟩
  intro q hq
  cases hq

theorem Broken.cons {n k : Nat} {r : SendtoResult} {results : List SendtoResult}
    (h : Broken exiting k results) (hr : r.goesOn = true) (hle : r.bytes + k ≤ n) :
    Broken exiting n (r :: results) := by
  obtain ⟨front, result, rest, rfl, hgoes, hsum, hbreaks⟩ := h
  refine ⟨r :: front, result, rest, rfl, ?_, ?_, hbreaks⟩
  · intro q hq
    rcases List.mem_cons.mp hq with rfl | hq
    · exact hr
    · exact hgoes q hq
  · rw [List.map_cons, List.sum_cons]
    omega

theorem sendtoLoop_partway {ret : Int} {acc : List UInt8} (results : List SendtoResult) :
    ∀ s : SendtoState, s.Partway msg →
      sendtoLoop exiting msg.length results s = .returned ret acc →
      ret = retSocketShutdown ∨ ret = msg.length ∧ acc = msg ∨
        ret = -1 ∧ Broken exiting s.nbytes results := by
  induction results with
  | nil =>
    intro s h hloop
    rw [sendtoLoop_nil _ h.left] at hloop
    cases hloop
  | cons r results ih =>
    intro s h hloop
    -- the rest of the results, from a state that is partway again
    have hmore : ∀ s' : SendtoState, s'.Partway msg → r.goesOn = true →
        r.bytes + s'.nbytes ≤ s.nbytes →
        sendtoLoop exiting msg.length results s' = .returned ret acc →
        ret = retSocketShutdown ∨ ret = msg.length ∧ acc = msg ∨
          ret = -1 ∧ Broken exiting s.nbytes (r :: results) := by
      intro s' h' hr hle hloop'
      rcases ih s' h' hloop' with hshut | hwhole | ⟨hret, hbroken⟩
      · exact Or.inl hshut
      · exact Or.inr (Or.inl hwhole)
      · exact Or.inr (Or.inr ⟨hret, hbroken.cons hr hle⟩)
    have hne : s.nbytes ≠ 0 := Nat.ne_of_gt h.left
    cases r with
    | room n =>
      rcases Nat.eq_zero_or_pos n with rfl | hn
      · rw [sendtoLoop, if_neg hne] at hloop
        simp only [Nat.zero_min, Nat.lt_irrefl, if_false, SendtoOutcome.returned.injEq] at hloop
        exact Or.inl hloop.1.symm
      · rw [sendtoLoop_room _ _ hn h.left] at hloop
        rcases h.advance_cases msg.length hn h.left with ⟨hlt, hpart, hnbytes⟩ | ⟨-, hzero, hacc⟩
        · refine hmore _ hpart (by simpa [SendtoResult.goesOn] using hn) ?_ hloop
          rw [hnbytes, SendtoResult.bytes]
          omega
        · rw [sendtoLoop_done _ _ hzero, SendtoOutcome.returned.injEq] at hloop
          exact Or.inr (Or.inl ⟨hloop.1.symm, hloop.2.symm.trans hacc⟩)
    | eagain =>
      rw [sendtoLoop_wouldBlock _ (Or.inl rfl) h.left h.lt] at hloop
      exact hmore _ (h.setRet (-1)) rfl (by simp [SendtoResult.bytes]) hloop
    | ewouldblock =>
      rw [sendtoLoop_wouldBlock _ (Or.inr rfl) h.left h.lt] at hloop
      exact hmore _ (h.setRet (-1)) rfl (by simp [SendtoResult.bytes]) hloop
    | epipe | econnreset =>
      rw [sendtoLoop, if_neg hne, SendtoOutcome.returned.injEq] at hloop
      exact Or.inl hloop.1.symm
    | eintr =>
      rw [sendtoLoop_breaks _ _ rfl h.left, SendtoOutcome.returned.injEq] at hloop
      exact Or.inr (Or.inr ⟨hloop.1.symm, .here results rfl h.left⟩)
    | other =>
      cases exiting with
      | true =>
        rw [sendtoLoop_breaks _ _ rfl h.left, SendtoOutcome.returned.injEq] at hloop
        exact Or.inr (Or.inr ⟨hloop.1.symm, .here results rfl h.left⟩)
      | false =>
        rw [sendtoLoop, if_neg hne] at hloop
        cases hloop

theorem split_initial (msg tail : List UInt8) :
    SendtoState.Split msg ⟨msg ++ tail, msg.length, 0, []⟩ := by
  constructor
  · show [] ++ (msg ++ tail).take msg.length = msg
    rw [List.nil_append, List.take_left]
  · exact Nat.zero_add _

end Loop

def WholeOrNothing (exiting : Bool) (msg tail : List UInt8) (results : List SendtoResult) : Prop :=
  ∀ ret accepted, msgSendto exiting (msg ++ tail) msg.length results = .returned ret accepted →
    ret ≠ retSocketShutdown →
    ret = msg.length ∧ accepted = msg ∨ ret ≠ msg.length ∧ accepted = []

theorem not_wholeOrNothing {exiting : Bool} {msg tail : List UInt8} {results : List SendtoResult}
    (h : InterruptedSend exiting msg.length results) :
    ¬ WholeOrNothing exiting msg tail results := by
  obtain ⟨n, front, result, rest, rfl, hn, hgoes, hsum, hbreaks⟩ := h
  intro hwhole
  have hleft : 0 < msg.length := by omega
  rcases (split_initial msg tail).advance_cases msg.length hn hleft with
    ⟨-, hpart, hnbytes⟩ | ⟨hle, -⟩
  · obtain ⟨s, hs, hloop⟩ := sendtoLoop_front exiting (result :: rest) front _ hpart
      hgoes (by rw [hnbytes]; dsimp only; omega)
    have hreturn : msgSendto exiting (msg ++ tail) msg.length
        (.room n :: (front ++ result :: rest)) = .returned (-1) s.accepted := by
      rw [msgSendto, sendtoLoop_room _ _ hn hleft, hloop]
      exact sendtoLoop_breaks _ _ hbreaks hs.left
    rcases hwhole _ _ hreturn (by decide) with ⟨-, heq⟩ | ⟨-, hnil⟩
    · exact hs.ne heq
    · exact hs.begun hnil
  · dsimp only at hle
    omega

theorem msgSendto_cases {exiting : Bool} {msg tail : List UInt8} {results : List SendtoResult}
    {ret : Int} {acc : List UInt8}
    (hret : msgSendto exiting (msg ++ tail) msg.length results = .returned ret acc) :
    ret = retSocketShutdown ∨ ret = msg.length ∧ acc = msg ∨ ret < 0 ∧ acc = [] ∨
      ret = -1 ∧ InterruptedSend exiting msg.length results := by
  rcases Nat.eq_zero_or_pos msg.length with hzero | hleft
  · rw [msgSendto, sendtoLoop_done _ _ hzero, SendtoOutcome.returned.injEq] at hret
    exact Or.inl hret.1.symm
  have hne : msg.length ≠ 0 := Nat.ne_of_gt hleft
  rw [msgSendto] at hret
  cases results with
  | nil =>
    rw [sendtoLoop_nil _ hleft] at hret
    cases hret
  | cons r rest =>
    cases r with
    | room n =>
      rcases Nat.eq_zero_or_pos n with rfl | hn
      · rw [sendtoLoop, if_neg hne] at hret
        simp only [Nat.zero_min, Nat.lt_irrefl, if_false, SendtoOutcome.returned.injEq] at hret
        exact Or.inl hret.1.symm
      · rw [sendtoLoop_room _ _ hn hleft] at hret
        rcases (split_initial msg tail).advance_cases msg.length hn hleft with
          ⟨hlt, hpart, hnbytes⟩ | ⟨-, hzero, hacc⟩
        · rcases sendtoLoop_partway rest _ hpart hret with
            hshut | hwhole | ⟨hone, front, result, more, rfl, hgoes, hsum, hbreaks⟩
          · exact Or.inl hshut
          · exact Or.inr (Or.inl hwhole)
          · rw [hnbytes] at hsum
            dsimp only at hlt hsum
            exact Or.inr (Or.inr (Or.inr
              ⟨hone, n, front, result, more, rfl, hn, hgoes, by omega, hbreaks⟩))
        · rw [sendtoLoop_done _ _ hzero, SendtoOutcome.returned.injEq] at hret
          exact Or.inr (Or.inl ⟨hret.1.symm, hret.2.symm.trans hacc⟩)
    | epipe | econnreset =>
      rw [sendtoLoop, if_neg hne, SendtoOutcome.returned.injEq] at hret
      exact Or.inl hret.1.symm
    | eagain | ewouldblock =>
      rw [sendtoLoop, if_neg hne, if_neg (Nat.lt_irrefl _), SendtoOutcome.returned.injEq] at hret
      exact Or.inr (Or.inr (Or.inl ⟨by rw [← hret.1]; decide, hret.2.symm⟩))
    | eintr =>
      rw [sendtoLoop, if_neg hne, SendtoOutcome.returned.injEq] at hret
      exact Or.inr (Or.inr (Or.inl ⟨by omega, hret.2.symm⟩))
    | other =>
      rw [sendtoLoop, if_neg hne] at hret
      cases exiting with
      | true =>
        rw [if_pos rfl, SendtoOutcome.returned.injEq] at hret
        exact Or.inr (Or.inr (Or.inl ⟨by omega, hret.2.symm⟩))
      | false => cases hret

/-- The cases `client_send_packet` tells apart. -/
def SendResult.ofRet (ret : Int) : SendResult :=
  if 0 < ret then .sent
  else if ret = retSocketShutdown then .shutdown
  else if ret = retSocketSkipped then .skipped
  else .failed

theorem ofRet_sound {exiting : Bool} {msg tail : List UInt8} {results : List SendtoResult}
    {ret : Int} {acc : List UInt8}
    (hret : msgSendto exiting (msg ++ tail) msg.length results = .returned ret acc) :
    (SendResult.ofRet ret = .sent → acc = msg) ∧ (SendResult.ofRet ret = .skipped → acc = []) := by
  rcases msgSendto_cases hret with rfl | ⟨rfl, rfl⟩ | ⟨hneg, rfl⟩ | ⟨rfl, -⟩
  · exact ⟨nofun, nofun⟩
  · refine ⟨fun _ => rfl, fun hskip => ?_⟩
    rcases Nat.eq_zero_or_pos acc.length with hzero | hpos
    · exact List.eq_nil_of_length_eq_zero hzero
    · rw [SendResult.ofRet, if_pos (by omega)] at hskip
      cases hskip
  · refine ⟨fun hsent => ?_, fun _ => rfl⟩
    unfold SendResult.ofRet at hsent
    rw [if_neg (by omega)] at hsent
    split at hsent
    · cases hsent
    · split at hsent <;> cases hsent
  · exact ⟨nofun, nofun⟩

/-- A message is taken whole or not at all, exactly if the send is not interrupted partway. -/
theorem send_whole_iff (exiting : Bool) (msg tail : List UInt8) (results : List SendtoResult) :
    WholeOrNothing exiting msg tail results ↔ ¬ InterruptedSend exiting msg.length results := by
  constructor
  · intro hwhole h
    exact not_wholeOrNothing h hwhole
  · intro h ret acc hret hshut
    rcases msgSendto_cases hret with hzero | hwhole | ⟨hneg, hnil⟩ | ⟨-, hinterrupted⟩
    · exact absurd hzero hshut
    · exact Or.inl hwhole
    · exact Or.inr ⟨by omega, hnil⟩
    · exact absurd hinterrupted h

/-- A signal behind the first two bytes of three: the call returns, and the third never follows. -/
theorem interrupted_send_truncates :
    msgSendto false [1, 2, 3] 3 [.room 2, .eintr] = .returned (-1) [1, 2] ∧
      ¬ WholeOrNothing false [1, 2, 3] [] [.room 2, .eintr] := by
  refine ⟨by decide, fun h => ?_⟩
  rcases h (-1) [1, 2] (by decide) (by decide) with ⟨hret, -⟩ | ⟨-, hacc⟩
  · cases hret
  · cases hacc

end Sockperf
