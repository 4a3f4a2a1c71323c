import Sockperf.DatagramServer
import Sockperf.ReceiveFilter
import Sockperf.SendPackets

/-!
# Losses from end to end

A client numbers its messages, a network loses some of them but keeps the order of the others, and
the gap detection of the server reports how many are missing. Other clients send to the same
socket at the same time.
-/

namespace Sockperf

open Memory While
set_option autoImplicit false

/-! ## What a client sends -/

namespace Client
variable (clt : Client)

/-- `IoHandler::warmup` on one socket: a multicast socket sends the request twice, with the flag of
a warm-up message; the results of the sends are ignored. -/
def warmup (doWarmup : Bool) (s : ClientState) : ClientState × List (List UInt8) :=
  if !doWarmup then (s, [])
  else
    let s := { s with request := s.request.setWarmupMessage }
    let bytes := wireBytes (setHeaderToNetwork s) s.request.length.toNat
    ({ s with request := s.request.resetWarmupMessage },
      if clt.isMulticast then [bytes, bytes] else [])

def warmupHeader (length : UInt32) : MsgHeader :=
  (MsgHeader.mk 0 clt.idleFlags length).setWarmupMessage

variable {clt} {length : UInt32} {payload : List UInt8}

variable (clt length payload) in
theorem warmup_state (doWarmup : Bool) (max : Nat) :
    (clt.warmup doWarmup (clt.initial length payload max)).1 = clt.initial length payload max := by
  have hflags : (clt.idleFlags ||| MsgHeader.maskWarmupMsg) &&& ~~~MsgHeader.maskWarmupMsg =
      clt.idleFlags := by
    unfold idleFlags
    cases clt.pongMode <;> decide
  cases doWarmup with
  | false => rfl
  | true =>
    simp only [warmup, initial, MsgHeader.setWarmupMessage, MsgHeader.resetWarmupMessage, hflags,
      Bool.not_true, Bool.false_eq_true, if_false]

theorem header_of_encode {w : WireMessage} {h : MsgHeader} (h14 : 14 ≤ length.toNat)
    (hw : w.encode = (h.hton.bytes ++ payload).take length.toNat) : w.header = h := by
  have hlen : h.hton.bytes.length = 14 := by simp [effectiveSize]
  have hsplit : (h.hton.bytes ++ payload).take length.toNat =
      h.hton.bytes ++ payload.take (length.toNat - 14) := by
    rw [List.take_append, hlen, List.take_of_length_le (hlen.le.trans h14)]
  have hbytes := congrArg MsgHeader.ofBytes (hw.trans hsplit)
  rw [WireMessage.encode, MsgHeader.ofBytes_append, MsgHeader.ofBytes_append] at hbytes
  rw [← MsgHeader.ntoh_hton w.header, hbytes, MsgHeader.ntoh_hton]

theorem warmup_message {doWarmup : Bool} {max : Nat} {w : WireMessage} (h14 : 14 ≤ length.toNat)
    (hw : w.encode ∈ (clt.warmup doWarmup (clt.initial length payload max)).2) :
    w.header.isClient = true ∧ w.header.isWarmupMessage = true := by
  cases doWarmup with
  | false => cases hw
  | true =>
    have heq : w.encode = ((clt.warmupHeader length).hton.bytes ++ payload).take length.toNat := by
      simp only [warmup, Bool.not_true, Bool.false_eq_true, if_false] at hw
      split at hw
      · rcases List.mem_pair.mp hw with hw | hw
        · exact hw
        · exact hw
      · cases hw
    rw [header_of_encode h14 heq]
    have hflags : ((clt.idleFlags ||| MsgHeader.maskWarmupMsg) &&& MsgHeader.maskClient != 0) ∧
        ((clt.idleFlags ||| MsgHeader.maskWarmupMsg) &&& MsgHeader.maskWarmupMsg != 0) := by
      unfold idleFlags
      cases clt.pongMode <;> decide
    exact hflags

theorem wireMessage_message {w : WireMessage} {k : Nat} (h14 : 14 ≤ length.toNat)
    (hw : w.encode = clt.wireMessage length payload k) :
    w.header.isClient = true ∧ w.header.isWarmupMessage = false ∧
      w.header.sequenceNumber = UInt64.ofNat k := by
  rw [header_of_encode h14 hw]
  have hflags : ∀ pong : Bool, ((if pong then (MsgHeader.mk 0 0 0).setClient.setPongRequest
      else (MsgHeader.mk 0 0 0).setClient).flags &&& MsgHeader.maskClient != 0) = true ∧
      ((if pong then (MsgHeader.mk 0 0 0).setClient.setPongRequest
        else (MsgHeader.mk 0 0 0).setClient).flags &&& MsgHeader.maskWarmupMsg != 0) = false := by
    decide
  exact ⟨(hflags (clt.asks k)).1, (hflags (clt.asks k)).2, rfl⟩

/-- The numbered messages that a client puts on the wire. -/
structure Numbered (sent : List WireMessage) : Prop where
  client : ∀ w ∈ sent, w.header.isClient = true
  warmup : ∀ w ∈ sent, w.header.isWarmupMessage = false
  bound : ∀ w ∈ sent, w.header.sequenceNumber.toNat < 2 ^ 64 - 1
  increasing : sent.Pairwise fun v w =>
    v.header.sequenceNumber.toNat < w.header.sequenceNumber.toNat

theorem numbered_sendPackets (hR : 0 < clt.replyEvery)
    (halways : clt.pongMode = .always → clt.replyEvery = 1) (h14 : 14 ≤ length.toNat) {max : Nat}
    {calls : List SendCall} (hcalls : calls.length < 2 ^ 64 - 1) (hnow : ∀ c ∈ calls, c.now ≠ 0)
    {s : ClientState} {sent : List WireMessage}
    (hsent : clt.sendPackets (clt.initial length payload max, []) calls =
      (s, sent.map WireMessage.encode)) (hexited : s.exited = none) : Numbered sent := by
  have hinitial : clt.Booked length payload max 0 0 (clt.initial length payload max, []) :=
    booked_initial hR
  have hwire : sent.map WireMessage.encode = (List.range (calls.countP (·.sent))).map
      fun i => clt.wireMessage length payload (i + 1) := by
    rcases booked_run hR halways calls 0 0 _ hinitial (by omega) hnow with h | ⟨-, hexit⟩
    · have hw := h.wire
      rwa [hsent, Nat.zero_add] at hw
    · rw [hsent] at hexit
      cases hexit.symm.trans hexited
  have hlength := congrArg List.length hwire
  rw [List.length_map, List.length_map, List.length_range] at hlength
  have hcount : calls.countP (·.sent) ≤ calls.length := List.countP_le_length
  have hmessage : ∀ i (h : i < sent.length),
      sent[i].header.isClient = true ∧ sent[i].header.isWarmupMessage = false ∧
        sent[i].header.sequenceNumber.toNat = i + 1 := by
    intro i h
    have hi : sent[i].encode = clt.wireMessage length payload (i + 1) := by
      have hget := congrArg (·[i]?) hwire
      simpa [h, hlength ▸ h] using hget
    obtain ⟨hclient, hwarm, hseq⟩ := wireMessage_message h14 hi
    refine ⟨hclient, hwarm, ?_⟩
    rw [hseq, UInt64.toNat_ofNat_of_lt' (show i + 1 < 2 ^ 64 by omega)]
  have hmem : ∀ w ∈ sent, ∃ i, ∃ h : i < sent.length, sent[i] = w := fun w hw =>
    List.getElem_of_mem hw
  refine ⟨?_, ?_, ?_, ?_⟩
  · intro w hw
    obtain ⟨i, h, rfl⟩ := hmem w hw
    exact (hmessage i h).1
  · intro w hw
    obtain ⟨i, h, rfl⟩ := hmem w hw
    exact (hmessage i h).2.1
  · intro w hw
    obtain ⟨i, h, rfl⟩ := hmem w hw
    rw [(hmessage i h).2.2]
    omega
  · rw [List.pairwise_iff_getElem]
    intro i j hi hj hij
    rw [(hmessage i hi).2.2, (hmessage j hj).2.2]
    omega

theorem Numbered.sublist {sent ds : List WireMessage} (h : Numbered sent) (hds : ds.Sublist sent) :
    Numbered ds where
  client w hw := h.client w (hds.subset hw)
  warmup w hw := h.warmup w (hds.subset hw)
  bound w hw := h.bound w (hds.subset hw)
  increasing := h.increasing.sublist hds

end Client

/-! ## What the server is told -/

section Told
variable {srv : Server SeqNumMap} {x : SockAddr}

/-- The gap detection is the one of the source. -/
def Server.CalcsGaps (srv : Server SeqNumMap) : Prop :=
  srv.execute = fun cltAddr seqNum isWarmup m => m.execute cltAddr seqNum isWarmup

/-- The messages that `equal_to` takes for messages of `x`. -/
def sentBy (x : SockAddr) (as : List (SockAddr × WireMessage)) : List WireMessage :=
  (as.filter fun a => a.1.equalTo x).map Prod.snd

theorem Server.CalcsGaps.noteGap (h : srv.CalcsGaps) (m : SeqNumMap)
    (as : List (SockAddr × WireMessage)) :
    as.foldl (fun gaps a => srv.noteGap a.1 gaps (srv.gapEvent a.2)) m =
      (as.filterMap fun a => (srv.gapEvent a.2).map fun e => (a.1, e)).foldl
        SeqNumMap.receive m := by
  induction as generalizing m with
  | nil => rfl
  | cons a as ih =>
    rw [List.foldl_cons, ih, List.filterMap_cons]
    unfold Server.noteGap
    rw [h]
    cases srv.gapEvent a.2 with
    | none => rfl
    | some e => cases e <;> rfl

theorem Server.CalcsGaps.session (h : srv.CalcsGaps) (as : List (SockAddr × WireMessage)) :
    SeqNumMap.session
      (as.foldl (fun gaps a => srv.noteGap a.1 gaps (srv.gapEvent a.2)) []) x =
      ((sentBy x as).filterMap srv.gapEvent).foldl (fun o e => some (Session.after o e)) none := by
  rw [h.noteGap, ← SeqNumMap.run, SeqNumMap.session_run]
  generalize (none : Option Session) = o
  unfold sentBy
  induction as generalizing o with
  | nil => rfl
  | cons a as ih =>
    rw [List.filterMap_cons, List.filter_cons]
    by_cases hx : a.1.equalTo x = true
    · rw [if_pos hx, List.map_cons, List.filterMap_cons]
      cases srv.gapEvent a.2 with
      | none => exact ih o
      | some e =>
        dsimp only [Option.map_some]
        rw [List.filter_cons, if_pos hx, List.foldl_cons, List.foldl_cons]
        exact ih _
    · rw [if_neg hx]
      cases srv.gapEvent a.2 with
      | none => exact ih o
      | some e =>
        dsimp only [Option.map_some]
        rw [List.filter_cons, if_neg hx]
        exact ih o

theorem gapEvents_warmup {ws : List WireMessage}
    (hws : ∀ w ∈ ws, w.header.isClient = true ∧ w.header.isWarmupMessage = true) :
    ws.filterMap srv.gapEvent = List.replicate ws.length .warmup := by
  induction ws with
  | nil => rfl
  | cons w ws ih =>
    obtain ⟨⟨hclient, hwarm⟩, hws⟩ := List.forall_mem_cons.mp hws
    have hw : srv.gapEvent w = some .warmup := by
      simp [Server.gapEvent, hclient, hwarm]
    rw [List.filterMap_cons_some hw, ih hws, List.length_cons, List.replicate_succ]

/-- The numbers of the messages that reach the gap detection. -/
def Server.numbers (srv : Server SeqNumMap) (ds : List WireMessage) : List UInt64 :=
  (ds.filter fun w => !w.header.isWarmupMessage && !srv.mute w).map fun w => w.header.sequenceNumber

theorem gapEvents_numbered {ds : List WireMessage} (hds : Client.Numbered ds) :
    ds.filterMap srv.gapEvent = (srv.numbers ds).map .data := by
  unfold Server.numbers
  induction ds with
  | nil => rfl
  | cons w ds ih =>
    have hclient := hds.client w List.mem_cons_self
    have hwarm := hds.warmup w List.mem_cons_self
    have hrest := ih (hds.sublist (List.sublist_cons_self w ds))
    by_cases hmute : srv.mute w = true
    · have hw : srv.gapEvent w = none := by simp [Server.gapEvent, hclient, hwarm, hmute]
      rw [List.filterMap_cons_none hw, hrest, List.filter_cons_of_neg (by simp [hmute])]
    · have hw : srv.gapEvent w = some (.data w.header.sequenceNumber) := by
        simp [Server.gapEvent, hclient, hwarm, hmute]
      rw [List.filterMap_cons_some hw, hrest, List.filter_cons_of_pos (by simp [hmute, hwarm]),
        List.map_cons, List.map_cons]

end Told

/-! ## What the server reports -/

namespace SessionData

/-- The session after `k` warm-ups and data with the given numbers. -/
def inOrder (k : Nat) (ns : List UInt64) : SessionData where
  first := if k = 0 then (ns.map UInt64.toNat).headD 0 else 0
  data := ns.map UInt64.toNat

theorem foldl_data (v : SessionData) (ns : List UInt64) :
    (ns.map GapEvent.data).foldl (fun o e => some (after o e)) (some v) =
      some ⟨v.first, v.data ++ ns.map UInt64.toNat⟩ := by
  induction ns generalizing v with
  | nil => simp
  | cons n ns ih =>
    rw [List.map_cons, List.foldl_cons, ih]
    simp [after]

theorem foldl_warmup (k : Nat) :
    (List.replicate k GapEvent.warmup).foldl (fun o e => some (after o e)) (some ⟨0, []⟩) =
      some ⟨0, []⟩ := by
  induction k with
  | zero => rfl
  | succ k ih =>
    rw [List.replicate_succ, List.foldl_cons]
    exact ih

theorem run_inOrder {k : Nat} {ns : List UInt64}
    (hne : List.replicate k GapEvent.warmup ++ ns.map .data ≠ []) :
    run (List.replicate k .warmup ++ ns.map .data) = some (inOrder k ns) := by
  unfold run inOrder
  cases k with
  | zero =>
    cases ns with
    | nil => exact absurd rfl hne
    | cons n ns =>
      rw [List.replicate_zero, List.nil_append, List.map_cons, List.foldl_cons, foldl_data]
      rfl
  | succ k =>
    rw [List.foldl_append, List.replicate_succ, List.foldl_cons]
    have hwarm : (List.replicate k GapEvent.warmup).foldl (fun o e => some (after o e))
        (some (after none .warmup)) = some ⟨0, []⟩ := foldl_warmup k
    rw [hwarm, foldl_data]
    rfl

theorem not_late {ds : List Nat} (hds : ds.Pairwise (· < ·)) (v : Nat) : ¬ Late ds v := by
  rintro ⟨hv, w, hw, hlt⟩
  induction ds with
  | nil => cases hv
  | cons d ds ih =>
    obtain ⟨hd, hds⟩ := List.pairwise_cons.mp hds
    rw [List.takeWhile_cons] at hw
    split at hw
    · next hne =>
      have hvds : v ∈ ds := (List.mem_cons.mp hv).resolve_left fun h => by simp [h] at hne
      rcases List.mem_cons.mp hw with rfl | hw
      · exact absurd (hd v hvds) (by omega)
      · exact ih hds hvds hw
    · cases hw

theorem highest_eq_getLastD {first : Nat} {ds : List Nat} (hds : ds.Pairwise (· < ·))
    (hfirst : ∀ d ∈ ds, first ≤ d) : highest first ds = ds.getLastD first := by
  induction ds generalizing first with
  | nil => rfl
  | cons d ds ih =>
    obtain ⟨hd, hds⟩ := List.pairwise_cons.mp hds
    rw [highest_cons, max_eq_right (hfirst d List.mem_cons_self),
      ih hds fun e he => (hd e he).le, List.getLastD_cons]

end SessionData

/-- What is reported of a client whose messages `ns` reached the gap detection: every number
between the first and the last one that is missing is a drop, and nothing else is. -/
structure Session.Reports (s : Session) (warmed : Bool) (ns : List Nat) : Prop where
  last : s.seqNum.toNat = ns.getLastD 0
  drops : s.totalDrops.toNat =
    ((Finset.Ioc (if warmed then 0 else ns.headD 0) (ns.getLastD 0)).filter (· ∉ ns)).card

theorem Session.Tracks.reports {s : Session} {k : Nat} {ns : List UInt64}
    (h : Session.Tracks s (SessionData.inOrder k ns))
    (hincreasing : (ns.map UInt64.toNat).Pairwise (· < ·)) :
    s.Reports (decide (k ≠ 0)) (ns.map UInt64.toNat) := by
  obtain ⟨hseq, hdrops, -, -⟩ := h
  have hfirst : (SessionData.inOrder k ns).first =
      if decide (k ≠ 0) then 0 else (ns.map UInt64.toNat).headD 0 := by
    cases k <;> rfl
  rw [hfirst] at hseq hdrops
  change _ = SessionData.highest _ (ns.map UInt64.toNat) at hseq
  change _ + (SessionData.records _ (ns.map UInt64.toNat)).length + _ = _ at hdrops
  generalize ns.map UInt64.toNat = ns at hincreasing hseq hdrops ⊢
  generalize hf : (if decide (k ≠ 0) then 0 else ns.headD 0) = first at hseq hdrops
  have hle : ∀ n ∈ ns, first ≤ n := by
    intro n hn
    rw [← hf]
    split
    · exact Nat.zero_le n
    · cases ns with
      | nil => cases hn
      | cons d ns =>
        rcases List.mem_cons.mp hn with rfl | hn
        · exact le_rfl
        · exact ((List.pairwise_cons.mp hincreasing).1 n hn).le
  have hlast : ns.getLastD first = ns.getLastD 0 := by
    cases ns with
    | nil =>
      rw [← hf]
      split <;> rfl
    | cons d ns => rw [List.getLastD_cons, List.getLastD_cons]
  rw [SessionData.highest_eq_getLastD hincreasing hle, hlast] at hseq
  refine ⟨hseq, ?_⟩
  have hcard := SessionData.card_missing_add_late first ns
  have hlate : (Finset.Ioc first (SessionData.highest first ns)).filter (SessionData.Late ns) = ∅ :=
    Finset.filter_eq_empty_iff.mpr fun v _ => SessionData.not_late hincreasing v
  rw [hlate, Finset.card_empty, SessionData.highest_eq_getLastD hincreasing hle, hlast] at hcard
  rw [hf]
  omega

section Report
variable {srv : Server SeqNumMap} {ws ds : List WireMessage}

variable (srv) in
theorem Client.Numbered.numbers (hds : Client.Numbered ds) :
    ((srv.numbers ds).map UInt64.toNat).Pairwise (· < ·) ∧
      ∀ n ∈ srv.numbers ds, n.toNat < 2 ^ 64 - 1 := by
  unfold Server.numbers
  constructor
  · rw [List.map_map, List.pairwise_map]
    exact hds.increasing.sublist List.filter_sublist
  · intro n hn
    obtain ⟨w, hw, rfl⟩ := List.mem_map.mp hn
    exact hds.bound w (List.mem_of_mem_filter hw)

theorem exists_report (hwarm : ∀ w ∈ ws, w.header.isClient = true ∧ w.header.isWarmupMessage = true)
    (hds : Client.Numbered ds) (hne : (ws ++ ds).filterMap srv.gapEvent ≠ []) :
    ∃ s, ((ws ++ ds).filterMap srv.gapEvent).foldl (fun o e => some (Session.after o e)) none =
        some s ∧
      s.Reports ((ws ++ ds).any fun w => w.header.isWarmupMessage)
        ((srv.numbers (ws ++ ds)).map UInt64.toNat) := by
  have hnumbers : srv.numbers (ws ++ ds) = srv.numbers ds := by
    unfold Server.numbers
    rw [List.filter_append, List.map_append, List.append_left_eq_self, List.map_eq_nil_iff,
      List.filter_eq_nil_iff]
    intro w hw
    simp [(hwarm w hw).2]
  have hany : ((ws ++ ds).any fun w => w.header.isWarmupMessage) = decide (ws ≠ []) := by
    rw [List.any_append, show (ds.any fun w => w.header.isWarmupMessage) = false by
      simpa using hds.warmup, Bool.or_false]
    cases ws with
    | nil => rfl
    | cons w ws => simp [(hwarm w List.mem_cons_self).2]
  rw [hnumbers, hany]
  obtain ⟨hincreasing, hbound⟩ := hds.numbers srv
  rw [List.filterMap_append, gapEvents_warmup hwarm, gapEvents_numbered hds] at hne ⊢
  obtain ⟨s, v, hs, hv, h⟩ := Session.tracks_run hne (by
    intro n hn
    rcases List.mem_append.mp hn with hn | hn
    · cases List.eq_of_mem_replicate hn
    · obtain ⟨m, hm, heq⟩ := List.mem_map.mp hn
      cases heq
      exact hbound n hm)
  obtain rfl : v = SessionData.inOrder ws.length (srv.numbers ds) :=
    Option.some.inj (hv.symm.trans (SessionData.run_inOrder hne))
  have hreports := h.reports hincreasing
  rw [show decide (ws.length ≠ 0) = decide (ws ≠ []) by simp] at hreports
  exact ⟨s, hs, hreports⟩

end Report

/-- From the numbering of a client to the report of the server: when the path keeps the order of
the client's messages, the drops reported for it are exactly the numbers that did not reach the gap
detection, counted from the first one that did, or from the start of the run when a warm-up message
came through. It does not matter what other clients send. A server that does not reply keeps the
pong requests from the gap detection. -/
theorem loss_report_exact (srv : Server SeqNumMap) (hgaps : srv.CalcsGaps) (g : Window)
    (hms : g.msMaxSize = srv.msMaxSize) (goesOn : srv.GoesOn)
    (hdatagram : srv.fd.isStream = false) {c c' : Ctx (ServerState SeqNumMap)}
    (hrecv : c.recv = freshRecv g.base g.maxSize) (hasserts : c.asserts = true)
    (hstart : c.state.gaps = []) {es : List DatagramEvent} (hes : ∀ e ∈ es, e.Fits g.maxSize)
    (hrun : srv.Receives c es c')
    (clt : Client) (hR : 0 < clt.replyEvery)
    (halways : clt.pongMode = .always → clt.replyEvery = 1) (length : UInt32)
    (h14 : 14 ≤ length.toNat) (payload : List UInt8) (max : Nat) (doWarmup : Bool)
    (calls : List Client.SendCall) (hcalls : calls.length < 2 ^ 64 - 1)
    (hnow : ∀ c ∈ calls, c.now ≠ 0) {t u : ClientState} {warm sent : List WireMessage}
    (hwarm : clt.warmup doWarmup (clt.initial length payload max) =
      (t, warm.map WireMessage.encode))
    (hsent : clt.sendPackets (t, []) calls = (u, sent.map WireMessage.encode))
    (hexited : u.exited = none) (x : SockAddr)
    (path : (sentBy x (es.flatMap DatagramEvent.arrivals)).Sublist (warm ++ sent))
    (hne : (sentBy x (es.flatMap DatagramEvent.arrivals)).filterMap srv.gapEvent ≠ []) :
    ∃ s, c'.state.gaps.session x = some s ∧ s.Reports
      ((sentBy x (es.flatMap DatagramEvent.arrivals)).any fun w => w.header.isWarmupMessage)
      ((srv.numbers (sentBy x (es.flatMap DatagramEvent.arrivals))).map UInt64.toNat) := by
  obtain ⟨ws, ds, harrived, hws, hds⟩ := List.sublist_append_iff.mp path
  have ht := clt.warmup_state length payload doWarmup max
  rw [hwarm] at ht
  subst ht
  have hnumbered := (Client.numbered_sendPackets hR halways h14 hcalls hnow hsent hexited).sublist
    hds
  have hwarmups : ∀ w ∈ ws, w.header.isClient = true ∧ w.header.isWarmupMessage = true := by
    intro w hw
    have hmem : w.encode ∈ (clt.warmup doWarmup (clt.initial length payload max)).2 := by
      rw [hwarm]
      exact List.mem_map_of_mem (hws.subset hw)
    exact Client.warmup_message h14 hmem
  have hparked : g.Parked [] [] c := Window.fresh_between _ [] hrecv hasserts trivial
  obtain ⟨c₁, -, hunique, -, hstate⟩ := Server.receive_events hms goesOn hdatagram hes hparked
  obtain rfl := hunique c' hrun
  rw [hstate, Server.settleAll_gaps, hstart, hgaps.session]
  rw [harrived] at hne ⊢
  exact exists_report hwarmups hnumbered hne

def multicastStream : Client := { Client.everySecond with pongMode := .never, isMulticast := true }

def multicastMessage (k : Nat) : WireMessage := ⟨multicastStream.wireHeader 14 k, [], rfl⟩

def multicastWarmup : WireMessage := ⟨multicastStream.warmupHeader 14, [], rfl⟩

def groupServer : Server SeqNumMap := { gapServer with fd := ⟨.inet 0 11111, true, false, 1⟩ }

/-- One of two warm-up messages and two of three messages arrive; somebody else sends, too. -/
def lossyPath : List DatagramEvent :=
  [.messages (.inet 1 1) [multicastWarmup], .messages (.inet 2 2) (pings 7),
    .messages (.inet 1 1) [multicastMessage 1], .messages (.inet 1 1) [multicastMessage 3]]

theorem loss_report_exact_one : ∃ c' s, groupServer.Receives gapFresh lossyPath c' ∧
    c'.state.gaps.session (.inet 1 1) = some s ∧ s.seqNum.toNat = 3 ∧
      s.totalDrops.toNat = 1 := by
  have hfits : ∀ e ∈ lossyPath, e.Fits Handover.serverWindow.maxSize := by
    intro e he
    simp only [lossyPath, List.mem_cons, List.not_mem_nil, or_false] at he
    rcases he with rfl | rfl | rfl | rfl <;> exact ⟨List.cons_ne_nil _ _, by decide⟩
  have goesOn : groupServer.GoesOn := fun _ => ⟨rfl, SendResult.noConfusion⟩
  have hparked : Handover.serverWindow.Parked [] [] gapFresh :=
    Window.fresh_between _ [] rfl rfl trivial
  obtain ⟨c', hrun, -⟩ := Server.receive_events rfl goesOn rfl hfits hparked
  have hwarm : multicastStream.warmup true (multicastStream.initial 14 [] 4) =
      (multicastStream.initial 14 [] 4,
        [multicastWarmup, multicastWarmup].map WireMessage.encode) :=
    Prod.ext (multicastStream.warmup_state 14 [] true 4) rfl
  obtain ⟨u, hsent, hexited⟩ : ∃ u, multicastStream.sendPackets
      (multicastStream.initial 14 [] 4, []) [⟨5, true⟩, ⟨6, true⟩, ⟨7, true⟩] =
        (u, [multicastMessage 1, multicastMessage 2, multicastMessage 3].map
          WireMessage.encode) ∧ u.exited = none :=
    ⟨_, Prod.ext rfl rfl, rfl⟩
  have hpath : (sentBy (.inet 1 1) (lossyPath.flatMap DatagramEvent.arrivals)).Sublist
      ([multicastWarmup, multicastWarmup] ++
        [multicastMessage 1, multicastMessage 2, multicastMessage 3]) :=
    .cons_cons _ (.cons _ (.cons_cons _ (.cons _ (.cons_cons _ .slnil))))
  have key := loss_report_exact groupServer rfl Handover.serverWindow rfl goesOn rfl rfl rfl rfl
    hfits hrun multicastStream (by decide) (by decide) 14 (by decide) [] 4 true
    [⟨5, true⟩, ⟨6, true⟩, ⟨7, true⟩] (by decide) (by decide)
    hwarm hsent hexited (.inet 1 1) hpath (by decide)
  obtain ⟨s, hs, hlast, hdrops⟩ := key
  exact ⟨c', s, hrun, hs, hlast, hdrops.trans (by decide)⟩

end Sockperf
