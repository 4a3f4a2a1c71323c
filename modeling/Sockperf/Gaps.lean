import Mathlib.Data.Finset.Card
import Mathlib.Data.List.TakeWhile
import Mathlib.Order.Interval.Finset.Nat
import Sockperf.Lib.KeyMap
import Sockperf.Server

/-!
# Gap detection

`SwitchOnCalcGaps` keeps a session for every client address it has heard from.
Its map is keyed by the hash and the equality that are defined for
`sockaddr_store_t`.
-/

namespace Sockperf

open KeyMap
set_option autoImplicit false

/-! ## Keys -/

namespace SockAddr

def word (ip : BitVec 128) (i : Nat) : UInt32 := UInt32.ofBitVec (ip.extractLsb' (32 * i) 32)

/-- `std::hash<sockaddr_store_t>` -/
def hash : SockAddr → UInt32
  | inet ip port => ip ^^^ (port.toUInt32 <<< 16)
  | inet6 ip port _ _ =>
    word ip 0 ^^^ word ip 1 ^^^ word ip 2 ^^^ word ip 3 ^^^ (port.toUInt32 <<< 16)
  | unix _ => 0

/-- `std::equal_to<sockaddr_store_t>` -/
def equalTo : SockAddr → SockAddr → Bool
  | inet ip port, inet ip' port' => port == port' && ip == ip'
  | inet6 ip port _ _, inet6 ip' port' _ _ => port == port' && ip == ip'
  | unix _, unix _ => true
  | _, _ => false

def keys : Keys SockAddr := ⟨hash, equalTo⟩

theorem keys_lawful : keys.Lawful where
  refl x := by cases x <;> simp [keys, equalTo]
  symm {x y} h := by
    cases x <;> cases y <;> simp_all [keys, equalTo]
  trans {x y z} h h' := by
    cases x <;> cases y <;> cases z <;> simp_all [keys, equalTo]
  hash_eq {x y} h := by
    cases x <;> cases y <;> simp_all [keys, equalTo, hash]

end SockAddr

/-! ## Sessions -/

/-- `clt_session_info_t` without the address, which is only printed. -/
structure Session where
  seqNum : UInt64
  totalDrops : UInt64
  started : Bool
  deriving DecidableEq, Repr

def calcGapsNum (expectedSeq receivedSeq : UInt64) : UInt64 :=
  if expectedSeq < receivedSeq then receivedSeq - expectedSeq else 0

def Session.checkGaps (s : Session) (receivedSeqNum : UInt64) : Session :=
  let s := { s with seqNum := s.seqNum + 1 }
  if receivedSeqNum ≠ s.seqNum then
    let dropsNum := calcGapsNum s.seqNum receivedSeqNum
    let s := { s with totalDrops := s.totalDrops + dropsNum }
    if dropsNum = 0 then { s with seqNum := s.seqNum - 1 }
    else { s with seqNum := receivedSeqNum }
  else s

/-- What `execute` makes of the entry it found. -/
def Session.next (found : Option Session) (seqNum : UInt64) (isWarmup : Bool) : Session :=
  let s :=
    match found with
    | none => ⟨seqNum, 0, false⟩
    | some s => if isWarmup && s.started then ⟨seqNum, 0, false⟩ else s
  if !isWarmup then { s with started := true }.checkGaps seqNum else s

abbrev SeqNumMap := List (SockAddr × Session)

def SeqNumMap.execute (m : SeqNumMap) (cltAddr : SockAddr) (seqNum : UInt64) (isWarmup : Bool) :
    SeqNumMap :=
  SockAddr.keys.put m cltAddr (Session.next (SockAddr.keys.find m cltAddr) seqNum isWarmup)

/-- The two calls in `Server::handle_message`. -/
inductive GapEvent where
  | warmup
  | data (seqNum : UInt64)
  deriving DecidableEq, Repr

def Session.after (found : Option Session) : GapEvent → Session
  | .warmup => Session.next found 0 true
  | .data seqNum => Session.next found seqNum false

def SeqNumMap.receive (m : SeqNumMap) (q : SockAddr × GapEvent) : SeqNumMap :=
  match q.2 with
  | .warmup => m.execute q.1 0 true
  | .data seqNum => m.execute q.1 seqNum false

def SeqNumMap.run (packets : List (SockAddr × GapEvent)) : SeqNumMap :=
  packets.foldl SeqNumMap.receive []

def SeqNumMap.session (m : SeqNumMap) (cltAddr : SockAddr) : Option Session :=
  SockAddr.keys.find m cltAddr

namespace SeqNumMap

theorem receive_eq_feed : SeqNumMap.receive = SockAddr.keys.feed Session.after := by
  funext m q
  obtain ⟨x, e⟩ := q
  cases e <;> rfl

/-- The session of a client sees the packets of the clients that `equal_to` takes for it. -/
theorem session_run (packets : List (SockAddr × GapEvent)) (x : SockAddr) :
    (run packets).session x =
      (packets.filter fun q => q.1.equalTo x).foldl (fun o q => some (Session.after o q.2)) none := by
  rw [run, receive_eq_feed, session, Keys.find_run SockAddr.keys_lawful]
  rfl

/-- Two clients that are taken for one: the packets of the second continue the session of the
first. -/
theorem session_shared {x y : SockAddr} (hne : x ≠ y) (heq : x.equalTo y = true) :
    (run [(y, .data 5), (x, .data 10)]).session x = some ⟨10, 4, true⟩ ∧
      (run ([(y, .data 5), (x, .data 10)].filter fun q => q.1 = x)).session x =
        some ⟨10, 0, true⟩ := by
  have hyx : y.equalTo x = true := SockAddr.keys_lawful.symm heq
  have hxx : x.equalTo x = true := SockAddr.keys_lawful.refl x
  rw [session_run, session_run]
  constructor
  · simp only [List.filter, hyx, hxx, List.foldl]
    decide
  · simp only [List.filter, hne.symm, decide_false, decide_true, hxx, List.foldl]
    decide

end SeqNumMap

/-- Among the given clients no session is touched by another client, whatever the interleaving,
exactly when `equal_to` tells them apart. -/
theorem gap_sessions_isolated (clients : Set SockAddr) :
    (∀ packets : List (SockAddr × GapEvent), (∀ q ∈ packets, q.1 ∈ clients) → ∀ x ∈ clients,
      (SeqNumMap.run packets).session x =
        (SeqNumMap.run (packets.filter fun q => q.1 = x)).session x) ↔
      ∀ x ∈ clients, ∀ y ∈ clients, x.equalTo y = true → x = y := by
  constructor
  · intro hall x hx y hy heq
    by_contra hne
    obtain ⟨hboth, halone⟩ := SeqNumMap.session_shared hne heq
    have hsame := hall [(y, .data 5), (x, .data 10)] ?_ x hx
    · rw [hboth, halone] at hsame
      exact absurd hsame (by decide)
    · simp [hx, hy]
  · intro hapart packets hmem x hx
    rw [SeqNumMap.session_run, SeqNumMap.session_run, List.filter_filter]
    congr 1
    refine List.filter_congr fun q hq => ?_
    -- a packet that counts for the client is its own
    rw [Bool.eq_iff_iff, Bool.and_eq_true, decide_eq_true_eq]
    refine ⟨fun heq => ⟨heq, hapart q.1 (hmem q hq) x hx heq⟩, fun h => h.1⟩

/-- Two UNIX-domain clients share a session: the first packet of one is counted as a gap of four
after the packet of the other. -/
theorem unix_clients_share :
    (SeqNumMap.run [(.unix "a", .data 5), (.unix "b", .data 10)]).session (.unix "b") =
        some ⟨10, 4, true⟩ ∧
      (SeqNumMap.run ([(.unix "a", .data 5), (.unix "b", .data 10)].filter
        fun q => q.1 = .unix "b")).session (.unix "b") = some ⟨10, 0, true⟩ := by
  decide

/-! ## The telescoped loss of one client -/

/-- The current session of a client, as a list of what arrived. -/
structure SessionData where
  /-- 0 after a warm-up, otherwise the first number seen -/
  first : Nat
  data : List Nat
  deriving DecidableEq, Repr

namespace SessionData

/-- A warm-up starts a session unless the current one has no data yet. -/
def after : Option SessionData → GapEvent → SessionData
  | none, .warmup => ⟨0, []⟩
  | none, .data n => ⟨n.toNat, [n.toNat]⟩
  | some v, .warmup => if v.data = [] then v else ⟨0, []⟩
  | some v, .data n => ⟨v.first, v.data ++ [n.toNat]⟩

def run (events : List GapEvent) : Option SessionData :=
  events.foldl (fun o e => some (after o e)) none

/-- The data that strictly exceeded `first` and all earlier data. -/
def records : Nat → List Nat → List Nat
  | _, [] => []
  | first, d :: ds => if first < d then d :: records d ds else records first ds

def highest (first : Nat) (ds : List Nat) : Nat := ds.foldl max first

/-- The first arrival of `v` came after something larger. -/
def Late (ds : List Nat) (v : Nat) : Prop := v ∈ ds ∧ ∃ w ∈ ds.takeWhile (· ≠ v), v < w

instance (ds : List Nat) : DecidablePred (Late ds) := fun v => by
  unfold Late
  infer_instance

theorem first_le_highest (first : Nat) (ds : List Nat) : first ≤ highest first ds := by
  induction ds generalizing first with
  | nil => exact le_rfl
  | cons d ds ih => exact (le_max_left first d).trans (ih _)

theorem highest_append (first : Nat) (ds : List Nat) (n : Nat) :
    highest first (ds ++ [n]) = max (highest first ds) n := by
  simp [highest]

theorem highest_cons (first d : Nat) (ds : List Nat) :
    highest first (d :: ds) = highest (max first d) ds := rfl

theorem records_append (first : Nat) (ds : List Nat) (n : Nat) :
    records first (ds ++ [n]) =
      if highest first ds < n then records first ds ++ [n] else records first ds := by
  induction ds generalizing first with
  | nil => rfl
  | cons d ds ih =>
    rw [List.cons_append, records, records, highest_cons]
    by_cases hd : first < d
    · rw [if_pos hd, if_pos hd, ih, max_eq_right hd.le]
      split <;> rfl
    · rw [if_neg hd, if_neg hd, ih, max_eq_left (not_lt.mp hd)]

theorem mem_records {first v : Nat} {ds : List Nat} :
    v ∈ records first ds ↔ first < v ∧ v ∈ ds ∧ ∀ w ∈ ds.takeWhile (· ≠ v), w < v := by
  induction ds generalizing first with
  | nil => simp [records]
  | cons d ds ih =>
    unfold records
    by_cases hv : d = v
    · subst hv
      by_cases hd : first < d
      · simp [hd]
      · simp [hd, ih]
    · have htake : (d :: ds).takeWhile (· ≠ v) = d :: ds.takeWhile (· ≠ v) := by
        simp [hv]
      rw [htake, List.forall_mem_cons, List.mem_cons, or_iff_right (Ne.symm hv)]
      by_cases hd : first < d
      · rw [if_pos hd, List.mem_cons, or_iff_right (Ne.symm hv), ih]
        exact ⟨fun h => ⟨hd.trans h.1, h.2.1, h.1, h.2.2⟩, fun h => ⟨h.2.2.1, h.2.1, h.2.2.2⟩⟩
      · rw [if_neg hd, ih]
        exact ⟨fun h => ⟨h.1, h.2.1, (not_lt.mp hd).trans_lt h.1, h.2.2⟩,
          fun h => ⟨h.1, h.2.1, h.2.2.2⟩⟩

theorem records_sorted (first : Nat) (ds : List Nat) : (first :: records first ds).Pairwise (· < ·) := by
  induction ds generalizing first with
  | nil => simp [records]
  | cons d ds ih =>
    unfold records
    split
    · next hd =>
      refine List.pairwise_cons.mpr ⟨fun w hw => ?_, ih d⟩
      rcases List.mem_cons.mp hw with rfl | hw
      · exact hd
      · exact hd.trans (List.rel_of_pairwise_cons (ih d) hw)
    · exact ih first

theorem le_highest {first v : Nat} {ds : List Nat} (hv : v ∈ ds) : v ≤ highest first ds := by
  induction ds generalizing first with
  | nil => simp at hv
  | cons d ds ih =>
    rcases List.mem_cons.mp hv with rfl | hv
    · exact (le_max_right first v).trans (first_le_highest _ _)
    · exact ih hv

theorem records_nodup (first : Nat) (ds : List Nat) : (records first ds).Nodup :=
  (List.pairwise_cons.mp (records_sorted first ds)).2.imp fun h => h.ne

theorem not_late_of_mem_records {first v : Nat} {ds : List Nat} (hv : v ∈ records first ds) :
    ¬ Late ds v := by
  rintro ⟨-, w, hw, hlt⟩
  exact absurd ((mem_records.mp hv).2.2 w hw) (not_lt.mpr hlt.le)

theorem mem_iff_late_or_record {first v : Nat} {ds : List Nat} (hfirst : first < v) :
    v ∈ ds ↔ Late ds v ∨ v ∈ records first ds := by
  rw [mem_records]
  constructor
  · intro hv
    by_cases hlate : ∃ w ∈ ds.takeWhile (· ≠ v), v < w
    · exact Or.inl ⟨hv, hlate⟩
    · refine Or.inr ⟨hfirst, hv, fun w hw => ?_⟩
      have hne : w ≠ v := by simpa using List.mem_takeWhile_imp hw
      exact lt_of_le_of_ne (not_lt.mp fun hlt => hlate ⟨w, hw, hlt⟩) hne
  · rintro (hlate | hrec)
    · exact hlate.1
    · exact hrec.2.1

theorem card_missing_add_late (first : Nat) (ds : List Nat) :
    ((Finset.Ioc first (highest first ds)).filter (· ∉ ds)).card +
      ((Finset.Ioc first (highest first ds)).filter (Late ds)).card + (records first ds).length =
      highest first ds - first := by
  have hrecords : (records first ds).length =
      ((Finset.Ioc first (highest first ds)).filter (· ∈ records first ds)).card := by
    rw [← List.toFinset_card_of_nodup (records_nodup first ds)]
    congr 1
    ext v
    rw [List.mem_toFinset, Finset.mem_filter, Finset.mem_Ioc]
    refine ⟨fun hv => ⟨⟨(mem_records.mp hv).1, ?_⟩, hv⟩, fun hv => hv.2⟩
    exact le_highest (mem_records.mp hv).2.1
  have harrived : ((Finset.Ioc first (highest first ds)).filter (· ∈ ds)).card =
      ((Finset.Ioc first (highest first ds)).filter (Late ds)).card +
        ((Finset.Ioc first (highest first ds)).filter (· ∈ records first ds)).card := by
    rw [← Finset.card_union_of_disjoint, ← Finset.filter_or]
    · congr 1
      exact Finset.filter_congr fun v hv => mem_iff_late_or_record (Finset.mem_Ioc.mp hv).1
    · rw [Finset.disjoint_filter]
      intro v _ hlate hrec
      exact not_late_of_mem_records hrec hlate
  have htotal := Finset.card_filter_add_card_filter_not (s := Finset.Ioc first (highest first ds))
    (· ∈ ds)
  rw [Nat.card_Ioc] at htotal
  omega

end SessionData

namespace Session

theorem checkGaps_of_le {s : Session} {n : UInt64} (hlt : s.seqNum.toNat < 2 ^ 64 - 1)
    (hle : n.toNat ≤ s.seqNum.toNat) : s.checkGaps n = s := by
  have hsucc : (s.seqNum + 1).toNat = s.seqNum.toNat + 1 := by
    rw [UInt64.toNat_add]
    exact Nat.mod_eq_of_lt (by simpa using by omega)
  have hne : n ≠ s.seqNum + 1 := by
    intro heq
    rw [heq, hsucc] at hle
    omega
  have hzero : calcGapsNum (s.seqNum + 1) n = 0 := by
    rw [calcGapsNum, if_neg]
    rw [UInt64.lt_iff_toNat_lt, hsucc]
    omega
  simp [checkGaps, hne, hzero]

theorem checkGaps_of_lt {s : Session} {n : UInt64} (hlt : s.seqNum.toNat < n.toNat)
    (hdrops : s.totalDrops.toNat ≤ s.seqNum.toNat) :
    (s.checkGaps n).seqNum = n ∧ (s.checkGaps n).started = s.started ∧
      (s.checkGaps n).totalDrops.toNat + s.seqNum.toNat + 1 = s.totalDrops.toNat + n.toNat := by
  have hn := n.toNat_lt
  have hsucc : (s.seqNum + 1).toNat = s.seqNum.toNat + 1 := by
    rw [UInt64.toNat_add]
    exact Nat.mod_eq_of_lt (by simpa using by omega)
  by_cases heq : n = s.seqNum + 1
  · have htotal : s.checkGaps n = { s with seqNum := n } := by
      simp [checkGaps, heq]
    rw [htotal]
    refine ⟨rfl, rfl, ?_⟩
    rw [heq, hsucc]
    rfl
  · have hne : n.toNat ≠ s.seqNum.toNat + 1 := fun h => heq (UInt64.toNat_inj.mp (h.trans hsucc.symm))
    have hgt : s.seqNum + 1 < n := by
      rw [UInt64.lt_iff_toNat_lt, hsucc]
      omega
    have hsub : (n - (s.seqNum + 1)).toNat = n.toNat - (s.seqNum.toNat + 1) := by
      rw [UInt64.toNat_sub_of_le _ _ (UInt64.le_of_lt hgt), hsucc]
    have hpos : n - (s.seqNum + 1) ≠ 0 := by
      intro h0
      rw [h0] at hsub
      simp at hsub
      omega
    have hcheck : s.checkGaps n =
        { s with seqNum := n, totalDrops := s.totalDrops + (n - (s.seqNum + 1)) } := by
      simp [checkGaps, heq, calcGapsNum, hgt, hpos]
    rw [hcheck]
    refine ⟨rfl, rfl, ?_⟩
    show (s.totalDrops + (n - (s.seqNum + 1))).toNat + s.seqNum.toNat + 1 = _
    rw [UInt64.toNat_add, hsub, Nat.mod_eq_of_lt]
    · omega
    · simpa using by omega

/-- The record of a client agrees with what arrived in its current session. -/
structure Tracks (s : Session) (v : SessionData) : Prop where
  seqNum : s.seqNum.toNat = SessionData.highest v.first v.data
  drops : s.totalDrops.toNat + (SessionData.records v.first v.data).length + v.first =
    s.seqNum.toNat
  started : s.started = true ↔ v.data ≠ []
  bound : s.seqNum.toNat < 2 ^ 64 - 1

theorem tracks_warmup : Tracks ⟨0, 0, false⟩ ⟨0, []⟩ := by
  refine ⟨rfl, rfl, by simp, by decide⟩

theorem Tracks.data {s : Session} {v : SessionData} {n : UInt64} (hn : n.toNat < 2 ^ 64 - 1)
    (h : Tracks s v) :
    Tracks ({ s with started := true }.checkGaps n) ⟨v.first, v.data ++ [n.toNat]⟩ := by
  have hseq := h.seqNum
  have hdrops := h.drops
  by_cases hle : n.toNat ≤ s.seqNum.toNat
  · rw [checkGaps_of_le (s := { s with started := true }) h.bound hle]
    refine ⟨?_, ?_, by simp, h.bound⟩
    · rw [SessionData.highest_append, ← hseq, max_eq_left hle]
    · rw [SessionData.records_append, if_neg (not_lt.mpr (hseq ▸ hle))]
      exact hdrops
  · have hlt : s.seqNum.toNat < n.toNat := not_le.mp hle
    obtain ⟨hnum, hstarted, htotal⟩ := checkGaps_of_lt (s := { s with started := true }) hlt
      (show s.totalDrops.toNat ≤ s.seqNum.toNat by omega)
    refine ⟨?_, ?_, by simp [hstarted], by rwa [hnum]⟩
    · rw [hnum, SessionData.highest_append, ← hseq, max_eq_right hlt.le]
    · rw [hnum, SessionData.records_append, if_pos (hseq ▸ hlt), List.length_append]
      dsimp only at htotal
      simp only [List.length_cons, List.length_nil]
      omega

theorem Tracks.after {s : Session} {v : SessionData} {e : GapEvent}
    (he : ∀ n, e = .data n → n.toNat < 2 ^ 64 - 1) (h : Tracks s v) :
    Tracks (Session.after (some s) e) (SessionData.after (some v) e) := by
  cases e with
  | warmup =>
    by_cases hdata : v.data = []
    · have hstarted : s.started = false := by
        rw [Bool.eq_false_iff]
        exact fun hs => h.started.mp hs hdata
      simpa [Session.after, next, SessionData.after, hdata, hstarted] using h
    · have hstarted : s.started = true := h.started.mpr hdata
      simpa [Session.after, next, SessionData.after, hdata, hstarted] using tracks_warmup
  | data n => exact h.data (he n rfl)

theorem tracks_first {e : GapEvent} (he : ∀ n, e = .data n → n.toNat < 2 ^ 64 - 1) :
    Tracks (Session.after none e) (SessionData.after none e) := by
  cases e with
  | warmup => exact tracks_warmup
  | data n =>
    -- the new entry already holds the number that is then checked
    have hnew : Session.after none (.data n) = ⟨n, 0, true⟩ :=
      checkGaps_of_le (s := ⟨n, 0, true⟩) (he n rfl) le_rfl
    rw [hnew]
    refine ⟨?_, ?_, by simp [SessionData.after], he n rfl⟩
    · simp [SessionData.after, SessionData.highest]
    · simp [SessionData.after, SessionData.records]

theorem tracks_run {events : List GapEvent} (hne : events ≠ [])
    (hlt : ∀ n, GapEvent.data n ∈ events → n.toNat < 2 ^ 64 - 1) :
    ∃ s v, events.foldl (fun o e => some (Session.after o e)) none = some s ∧
      SessionData.run events = some v ∧ Tracks s v := by
  induction events using List.reverseRecOn with
  | nil => exact absurd rfl hne
  | append_singleton events e ih =>
    have he : ∀ n, e = .data n → n.toNat < 2 ^ 64 - 1 := by
      rintro n rfl
      exact hlt n (by simp)
    rw [List.foldl_concat, SessionData.run, List.foldl_concat]
    by_cases hnil : events = []
    · subst hnil
      exact ⟨_, _, rfl, rfl, tracks_first he⟩
    · obtain ⟨s, v, hs, hv, h⟩ := ih hnil fun n hn => hlt n (List.mem_append_left _ hn)
      rw [SessionData.run] at hv
      rw [hs, hv]
      exact ⟨_, _, rfl, rfl, h.after he⟩

end Session

theorem SeqNumMap.session_alone (x : SockAddr) (events : List GapEvent) :
    (run (events.map fun e => (x, e))).session x =
      events.foldl (fun o e => some (Session.after o e)) none := by
  have hxx : x.equalTo x = true := SockAddr.keys_lawful.refl x
  rw [session_run, List.filter_eq_self.mpr, List.foldl_map]
  intro q hq
  obtain ⟨e, -, rfl⟩ := List.mem_map.mp hq
  exact hxx

/-- After any packets of a client its record holds the highest number and the telescoped loss of
the current session; what is late or repeated changes nothing, and a warm-up after data starts a
session without drops. -/
theorem gaps_telescope (x : SockAddr) {events : List GapEvent} (hne : events ≠ [])
    (hlt : ∀ n, GapEvent.data n ∈ events → n.toNat < 2 ^ 64 - 1) :
    ∃ s v, (SeqNumMap.run (events.map fun e => (x, e))).session x = some s ∧
      SessionData.run events = some v ∧
      s.seqNum.toNat = SessionData.highest v.first v.data ∧
      (s.totalDrops.toNat : Int) =
        s.seqNum.toNat - v.first - (SessionData.records v.first v.data).length ∧
      s.totalDrops.toNat =
        ((Finset.Ioc v.first s.seqNum.toNat).filter (· ∉ v.data)).card +
          ((Finset.Ioc v.first s.seqNum.toNat).filter (SessionData.Late v.data)).card ∧
      (∀ n : UInt64, n ≤ s.seqNum → ∃ s',
        (SeqNumMap.run ((events ++ [GapEvent.data n]).map fun e => (x, e))).session x = some s' ∧
          s'.seqNum = s.seqNum ∧ s'.totalDrops = s.totalDrops) ∧
      (v.data ≠ [] → (SeqNumMap.run ((events ++ [GapEvent.warmup]).map fun e => (x, e))).session x =
        some ⟨0, 0, false⟩) := by
  obtain ⟨s, v, hs, hv, h⟩ := Session.tracks_run hne hlt
  have hdrops := h.drops
  have hcard := SessionData.card_missing_add_late v.first v.data
  rw [← h.seqNum] at hcard
  refine ⟨s, v, by rw [SeqNumMap.session_alone, hs], hv, h.seqNum, by omega, by omega,
    fun n hn => ?_, fun hdata => ?_⟩
  · rw [SeqNumMap.session_alone, List.foldl_concat, hs]
    refine ⟨{ s with started := true }, ?_, rfl, rfl⟩
    exact congrArg some
      (Session.checkGaps_of_le (s := { s with started := true }) h.bound
        (UInt64.le_iff_toNat_le.mp hn))
  · rw [SeqNumMap.session_alone, List.foldl_concat, hs]
    simp [Session.after, Session.next, h.started.mpr hdata]

def reorderedPackets : List GapEvent :=
  [.warmup, .data 1, .data 4, .data 2, .data 4, .data 6]

/-- The numbers 3 and 5 never came and 2 came late. -/
theorem gaps_telescope_reordered : ∃ s,
    (SeqNumMap.run (reorderedPackets.map fun e => (SockAddr.inet 1 1, e))).session (.inet 1 1) =
      some s ∧ s.seqNum.toNat = 6 ∧ s.totalDrops.toNat = 3 := by
  have hne : reorderedPackets ≠ [] := by decide
  have hlt : ∀ n, GapEvent.data n ∈ reorderedPackets → n.toNat < 2 ^ 64 - 1 := by
    intro n hn
    simp only [reorderedPackets, List.mem_cons, reduceCtorEq, false_or, GapEvent.data.injEq,
      List.not_mem_nil, or_false] at hn
    rcases hn with rfl | rfl | rfl | rfl | rfl <;> decide
  obtain ⟨s, v, hs, hv, hseq, -, hdrops, -⟩ := gaps_telescope (.inet 1 1) hne hlt
  obtain rfl : v = ⟨0, [1, 4, 2, 4, 6]⟩ := Option.some.inj (hv.symm.trans (by decide))
  have hsix : s.seqNum.toNat = 6 := hseq
  rw [hsix] at hdrops
  exact ⟨s, hs, hsix, hdrops.trans (by decide)⟩

end Sockperf
