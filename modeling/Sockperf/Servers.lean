import Mathlib.Algebra.Order.BigOperators.Group.Finset
import Sockperf.Lib.Numbering
import Sockperf.FlatTimes
import Sockperf.SendPackets
import Sockperf.Report

/-!
# Several servers

A multicast client may expect replies of several servers. `client_get_server_id`
numbers them in the order of their first replies, and the number of a server is
the column of the packet times that its replies go to. With the default of one
server all replies go to the first column; no option of the command line changes
it in this version. A send and a message are each taken as a whole here, as in
ping-pong, where one thread does both.
-/

namespace Sockperf

open Memory
set_option autoImplicit false

/-- A message that `handle_message` takes as a reply. -/
structure ServerReply where
  addr : IPAddress
  seqNo : Nat
  time : TicksTime
  deriving DecidableEq, Repr

def ServerReply.block (replyEvery : Nat) (r : ServerReply) : Nat := r.seqNo / replyEvery

/-- The time of the first reply to a request, 0 without one. -/
def firstReply (replyEvery : Nat) (rs : List ServerReply) (b : Nat) : TicksTime :=
  ((rs.find? fun r => r.block replyEvery = b).map ServerReply.time).getD 0

namespace Client
variable (clt : Client)

/-- Whether `client_get_server_id` tells servers apart. -/
def several : Bool := clt.workWithSrvNum != 1 && clt.isMulticast

/-- The column of an address once replies of `addrs` came. -/
def column (addrs : List IPAddress) (a : IPAddress) : Nat :=
  if clt.several then (firsts addrs).idxOf a else 0

/-- The replies that go to column `k`. -/
def ofServer (rs : List ServerReply) (k : Nat) : List ServerReply :=
  rs.filter fun r => clt.column (rs.map ServerReply.addr) r.addr = k

/-- The calls of `setRxTime` for the replies. -/
def rxCalls (rs : List ServerReply) : List TimesCall :=
  rs.map fun r => .setRxTime (r.block clt.replyEvery * clt.replyEvery) r.time
    (clt.column (rs.map ServerReply.addr) r.addr)

/-- A run of the client: sends, replies, and messages that are not counted, in any order. The clock
is past the last send when a message is sent, and has started when a reply comes. -/
inductive Exchange (start : ClientState) : List ServerReply → ClientState → Prop
  | start : Exchange start [] start
  | send {rs : List ServerReply} {s : ClientState} (run : Exchange start rs s)
      (up : s.exited = none)
      (c : SendCall) (clock : ∀ b, s.times.tx b < c.now) :
      Exchange start rs (clt.sendPacket s c.now c.result).1
  | reply {rs : List ServerReply} {s : ClientState} (run : Exchange start rs s)
      (up : s.exited = none)
      (src : SockAddr) (m : Mem) (msg : Message) (counts : clt.Counts m msg s)
      (going : (clt.outside s.handled).exit = false)
      (clock : ∀ b, s.times.tx b ≤ (clt.outside s.handled).now)
      (started : 0 < (clt.outside s.handled).now) :
      Exchange start (rs ++ [⟨src.ipAddress, (msg.getSequenceCounter m).toNat,
        (clt.outside s.handled).now⟩]) (clt.handleMessage src m msg s).2.2
  | other {rs : List ServerReply} {s : ClientState} (run : Exchange start rs s)
      (up : s.exited = none)
      (src : SockAddr) (m : Mem) (msg : Message)
      (not : ¬ (clt.Counts m msg s ∧ (clt.outside s.handled).exit = false)) :
      Exchange start rs (clt.handleMessage src m msg s).2.2

/-! ## Columns -/

section Columns
variable {clt} {addrs : List IPAddress} {a b : IPAddress} {rs : List ServerReply}

theorem column_concat (ha : a ∈ addrs) : clt.column (addrs ++ [b]) a = clt.column addrs a := by
  unfold column
  split
  · rw [firsts_concat]
    split
    · rfl
    · exact List.idxOf_append_of_mem (mem_firsts.mpr ha)
  · rfl

theorem rxCalls_concat (rs : List ServerReply) (r : ServerReply) :
    clt.rxCalls (rs ++ [r]) = clt.rxCalls rs ++
      [.setRxTime (r.block clt.replyEvery * clt.replyEvery) r.time
        (clt.column ((rs ++ [r]).map ServerReply.addr) r.addr)] := by
  unfold rxCalls
  rw [List.map_append, List.map_singleton]
  congr 1
  apply List.map_congr_left
  intro q hq
  rw [List.map_append, List.map_singleton, column_concat (List.mem_map_of_mem hq)]

theorem getServerId_spec {servers : List IPAddress} (a : IPAddress)
    (hservers : clt.several = true → servers = firsts addrs)
    (hfew : clt.several = true → servers.length ≤ clt.workWithSrvNum) :
    (∃ servers', clt.getServerId a servers = (some (clt.column (addrs ++ [a]) a), servers') ∧
      (clt.several = true → servers' = firsts (addrs ++ [a]) ∧
        servers'.length ≤ clt.workWithSrvNum)) ∨
    (clt.getServerId a servers).1 = none ∧ clt.several = true ∧
      clt.workWithSrvNum < (firsts (addrs ++ [a])).length := by
  by_cases hseveral : clt.several = true
  · obtain ⟨hnum, hmulti⟩ := Bool.and_eq_true_iff.mp hseveral
    rw [bne_iff_ne] at hnum
    obtain rfl := hservers hseveral
    unfold getServerId
    rw [if_neg hnum, if_pos hmulti, column, if_pos hseveral, firsts_concat]
    by_cases hmem : a ∈ firsts addrs
    · left
      rw [if_pos hmem, idxOf?_of_mem hmem]
      exact ⟨_, rfl, fun _ => ⟨rfl, hfew hseveral⟩⟩
    · rw [if_neg hmem, List.idxOf?_eq_none_iff.mpr hmem]
      by_cases hfull : clt.workWithSrvNum ≤ (firsts addrs).length
      · right
        refine ⟨congrArg Prod.fst (if_pos hfull), hseveral, ?_⟩
        rw [List.length_append, List.length_singleton]
        omega
      · left
        refine ⟨firsts addrs ++ [a], ?_, fun _ => ⟨rfl, ?_⟩⟩
        · rw [List.idxOf_append_of_notMem hmem]
          simp [hfull]
        · rw [List.length_append, List.length_singleton]
          omega
  · left
    refine ⟨servers, ?_, fun h => absurd h hseveral⟩
    rw [column, if_neg hseveral]
    unfold getServerId
    unfold several at hseveral
    split
    · rfl
    · next hnum =>
      rw [Bool.and_eq_true_iff, bne_iff_ne, not_and] at hseveral
      rw [if_neg (hseveral hnum)]

end Columns

/-! ## One reply -/

/-- How a message that is looked at as a reply ends. -/
inductive Counted (src : SockAddr) (m : Mem) (msg : Message) (s : ClientState) :
    ClientState → Prop
  | refused (s' : ClientState) (exited : s'.exited = some .tooManyServers)
      (none : (clt.getServerId src.ipAddress s.serverList).1 = none) : Counted src m msg s s'
  | stopped (s' : ClientState) (k : Nat) (exited : s'.exited ≠ none)
      (other : s'.exited ≠ some .tooManyServers)
      (known : (clt.getServerId src.ipAddress s.serverList).1 = some k) : Counted src m msg s s'
  | kept (k : Nat) (serverList : List IPAddress) (times : PacketTimes) (counted : Bool)
      (known : clt.getServerId src.ipAddress s.serverList = (some k, serverList))
      (set : s.times.setRxTime (msg.getSequenceCounter m).toNat (clt.outside s.handled).now k
        false = some (times, counted)) :
      Counted src m msg s
        { s with
          handled := s.handled + 1
          accepted := s.accepted ++ [msg.view clt.msMaxSize m]
          serverList
          times
          receiveCount := s.receiveCount + if counted then 1 else 0 }

theorem countReply_counted (src : SockAddr) (m : Mem) (msg : Message) (s : ClientState) :
    clt.Counted src m msg s (clt.countReply src m msg s).2.2 := by
  unfold countReply
  dsimp only
  split
  · next servers hid => exact .refused _ rfl (by rw [hid])
  next k serverList hid =>
  split
  · exact .stopped _ k (by simp) (by simp) (by rw [hid])
  next times counted hset =>
  have hkept := @Counted.kept clt src m msg s k serverList times counted hid hset
  generalize (s.receiveCount + if counted = true then 1 else 0) = total at hkept ⊢
  -- the data integrity test comes last and only adds an exit
  split
  · split
    · exact hkept
    · exact .stopped _ k (by simp) (by simp) (by rw [hid])
  · exact hkept

end Client

def PacketTimes.replyTimes (t : PacketTimes) : PacketTimes := { t with tx := fun _ => 0 }

theorem PacketTimes.call_of_setRxTime {t t' : PacketTimes} {seqNo k : Nat} {time : TicksTime}
    {counted : Bool} (hR : 0 < t.replyEvery) (n : Nat)
    (h : t.setRxTime seqNo time k false = some (t', counted)) :
    seqNo ≤ t.maxSequenceNo ∧
      PacketTimes.call (t.replyTimes, n)
        (.setRxTime (seqNo / t.replyEvery * t.replyEvery) time k) =
        some (t'.replyTimes, n + if counted then 1 else 0) := by
  obtain ⟨i, hi, he⟩ := Option.map_eq_some_iff.mp h
  obtain ⟨hle, rfl⟩ := seq2index_eq_some.mp hi
  have hindex : t.replyTimes.seq2index (seqNo / t.replyEvery * t.replyEvery) =
      some (seqNo / t.replyEvery) :=
    seq2index_eq_some.mpr ⟨(Nat.div_mul_le_self _ _).trans hle, Nat.mul_div_cancel _ hR⟩
  refine ⟨hle, ?_⟩
  rw [PacketTimes.call, setRxTime, hindex]
  by_cases h0 : t.rx (seqNo / t.replyEvery) k = 0
  · rw [if_pos h0] at he
    cases he
    simp [replyTimes, h0]
  · rw [if_neg h0] at he
    cases he
    simp [replyTimes, h0, incDupCount]

theorem PacketTimes.setRxTime_counters {t t' : PacketTimes} {seqNo k : Nat} {time : TicksTime}
    {exiting counted : Bool} (h : t.setRxTime seqNo time k exiting = some (t', counted)) :
    t'.dropped = t.dropped ∧ t'.ooo = t.ooo := by
  obtain ⟨i, -, he⟩ := Option.map_eq_some_iff.mp h
  split at he
  · cases he
    exact ⟨rfl, rfl⟩
  · split at he <;> cases he <;> exact ⟨rfl, rfl⟩

/-! ## Whole runs -/

namespace Client
variable {clt : Client} {length : UInt32} {payload : List UInt8} {max n j : Nat}
variable {rs : List ServerReply} {wire : List (List UInt8)} {s : ClientState}

variable (clt length payload max) in
/-- What holds while the client runs: `n` messages were sent and `j` skipped, and the replies are
in their columns. -/
structure Kept (rs : List ServerReply) (n j : Nat) (wire : List (List UInt8)) (s : ClientState) :
    Prop where
  booked : clt.Booked length payload max n j (s, wire)
  counter : n / clt.replyEvery ≤ max / clt.replyEvery
  increasing : ∀ i j, i < j → s.times.tx j ≠ 0 → s.times.tx i < s.times.tx j
  nonneg : ∀ b, 0 ≤ s.times.tx b
  servers : clt.several = true → s.serverList = firsts (rs.map ServerReply.addr)
  few : clt.several = true → s.serverList.length ≤ clt.workWithSrvNum
  table : Holds max clt.replyEvery clt.workWithSrvNum (clt.rxCalls rs)
    (s.times.replyTimes, s.receiveCount)
  valid : ∀ c ∈ clt.rxCalls rs, c.Valid max clt.replyEvery clt.workWithSrvNum
  answers : ∀ r ∈ rs, 0 < r.time ∧ r.seqNo ≤ n ∧ s.times.tx (r.block clt.replyEvery) ≤ r.time
  fresh : ∀ k, s.times.dropped k = 0 ∧ s.times.ooo k = 0

theorem kept_initial (hR : 0 < clt.replyEvery) :
    clt.Kept length payload max [] 0 0 [] (clt.initial length payload max) where
  booked := booked_initial hR
  counter := by rw [Nat.zero_div]; exact Nat.zero_le _
  increasing _ _ _ h := absurd rfl h
  nonneg _ := le_rfl
  servers _ := rfl
  few _ := Nat.zero_le _
  table := holds_new
  valid := List.forall_mem_nil _
  answers := List.forall_mem_nil _
  fresh _ := ⟨rfl, rfl⟩

section Send
variable {c : SendCall}

theorem tx_of_send {times : PacketTimes} (hevery : times.replyEvery = clt.replyEvery)
    (halways : clt.pongMode = .always → clt.replyEvery = 1) {b : Nat}
    (hb : b * clt.replyEvery ≤ n) (time : TicksTime) :
    (if clt.asks (n + 1) then stamp times (n + 1) time else times).tx b = times.tx b := by
  split
  · next hasks =>
    have hdvd := (asks_dvd halways hasks).1
    apply Function.update_of_ne
    rintro rfl
    rw [hevery, Nat.div_mul_cancel hdvd] at hb
    omega
  · rfl

theorem tx_of_send_new {times : PacketTimes} {b : Nat} (h0 : times.tx b = 0)
    (clock : ∀ i, times.tx i < c.now) :
    (if clt.asks (n + 1) then stamp times (n + 1) (if c.sent then c.now else 0)
        else times).tx b = 0 ∨
      ∀ i, times.tx i < (if clt.asks (n + 1) then stamp times (n + 1) (if c.sent then c.now else 0)
        else times).tx b := by
  split
  · show Function.update times.tx ((n + 1) / times.replyEvery) _ b = 0 ∨
      ∀ i, times.tx i < Function.update times.tx ((n + 1) / times.replyEvery) _ b
    by_cases hblock : b = (n + 1) / times.replyEvery
    · subst hblock
      rw [Function.update_self]
      split
      · exact Or.inr clock
      · exact Or.inl rfl
    · rw [Function.update_of_ne hblock]
      exact Or.inl h0
  · exact Or.inl h0

variable (hR : 0 < clt.replyEvery)
include hR

theorem Kept.of_send {s' : ClientState} {n' j' : Nat} {wire' : List (List UInt8)}
    (h : clt.Kept length payload max rs n j wire s)
    (hbooked : clt.Booked length payload max n' j' (s', wire')) (hle : n ≤ n') (hsucc : n' ≤ n + 1)
    (hcounter : n' / clt.replyEvery ≤ max / clt.replyEvery)
    (hold : ∀ b, b * clt.replyEvery ≤ n → s'.times.tx b = s.times.tx b)
    (hnew : ∀ b, n < b * clt.replyEvery →
      s'.times.tx b = 0 ∨ ∀ i, s.times.tx i < s'.times.tx b)
    (htimes : s'.times.replyTimes = s.times.replyTimes)
    (hcount : s'.receiveCount = s.receiveCount) (hservers : s'.serverList = s.serverList) :
    clt.Kept length payload max rs n' j' wire' s' where
  booked := hbooked
  counter := hcounter
  increasing := by
    intro i b hlt hb
    have hmul : i * clt.replyEvery < b * clt.replyEvery := Nat.mul_lt_mul_of_pos_right hlt hR
    have hsent : b * clt.replyEvery ≤ n' := ((hbooked.tx b).mp hb).2.1
    rw [hold i (by omega)]
    by_cases hreached : b * clt.replyEvery ≤ n
    · rw [hold b hreached] at hb ⊢
      exact h.increasing i b hlt hb
    · exact (hnew b (not_le.mp hreached)).resolve_left hb i
  nonneg := by
    intro b
    by_cases hreached : b * clt.replyEvery ≤ n
    · rw [hold b hreached]
      exact h.nonneg b
    · rcases hnew b (not_le.mp hreached) with h0 | hlt
      · exact h0.ge
      · exact ((h.nonneg 0).trans_lt (hlt 0)).le
  servers hseveral := hservers.trans (h.servers hseveral)
  few hseveral := by
    rw [hservers]
    exact h.few hseveral
  table := by
    rw [htimes, hcount]
    exact h.table
  valid := h.valid
  answers := by
    intro r hr
    obtain ⟨hpos, hseq, hafter⟩ := h.answers r hr
    have hblock : r.block clt.replyEvery * clt.replyEvery ≤ n :=
      (Nat.div_mul_le_self _ _).trans hseq
    rw [hold _ hblock]
    exact ⟨hpos, hseq.trans hle, hafter⟩
  fresh k :=
    ⟨(congrFun (congrArg PacketTimes.dropped htimes) k).trans (h.fresh k).1,
      (congrFun (congrArg PacketTimes.ooo htimes) k).trans (h.fresh k).2⟩

theorem Kept.next_le (h : clt.Kept length payload max rs n j wire s) :
    n + 1 ≤ max + clt.replyEvery := by
  have hn : n < (n / clt.replyEvery + 1) * clt.replyEvery := Nat.lt_mul_of_div_lt (by omega) hR
  have hle : (n / clt.replyEvery + 1) * clt.replyEvery ≤
      (max / clt.replyEvery + 1) * clt.replyEvery :=
    Nat.mul_le_mul_right _ (Nat.add_le_add_right h.counter 1)
  have hmax : max / clt.replyEvery * clt.replyEvery ≤ max := Nat.div_mul_le_self _ _
  rw [Nat.add_mul (max / clt.replyEvery), Nat.one_mul] at hle
  omega

theorem Kept.sendCount_eq (hfits : max + clt.replyEvery < 2 ^ 64)
    (h : clt.Kept length payload max rs n j wire s) : s.request.sequenceNumber.toNat = n := by
  have hn : n < 2 ^ 64 := ((Nat.lt_succ_self n).trans_le (h.next_le hR)).trans hfits
  have hreq : s.request.sequenceNumber = UInt64.ofNat n := congrArg _ h.booked.request
  rw [hreq, UInt64.toNat_ofNat_of_lt' hn]

omit hR in
theorem div_le_of_room (hmode : clt.pongMode ≠ .never)
    (hroom : clt.asks (n + 1) = true → n + 1 ≤ max)
    (hcounter : n / clt.replyEvery ≤ max / clt.replyEvery) :
    (n + 1) / clt.replyEvery ≤ max / clt.replyEvery := by
  by_cases hasks : clt.asks (n + 1) = true
  · exact Nat.div_le_div_right (hroom hasks)
  · rw [Bool.not_eq_true] at hasks
    rwa [Nat.succ_div, if_neg (not_dvd_of_not_asks hasks hmode), Nat.add_zero]

theorem Kept.send (halways : clt.pongMode = .always → clt.replyEvery = 1)
    (hmode : clt.pongMode ≠ .never) (hfits : max + clt.replyEvery < 2 ^ 64)
    (h : clt.Kept length payload max rs n j wire s) (clock : ∀ b, s.times.tx b < c.now) :
    (clt.sendPacket s c.now c.result).1.exited = some .verifyError ∨
      ∃ n' j' wire', clt.Kept length payload max rs n' j' wire'
        (clt.sendPacket s c.now c.result).1 := by
  have hn : n + 1 < 2 ^ 64 := (h.next_le hR).trans_lt hfits
  have hsucc : UInt64.ofNat n + 1 = UInt64.ofNat (n + 1) := (UInt64.ofNat_add n 1).symm
  have hnat : (UInt64.ofNat (n + 1)).toNat = n + 1 := UInt64.toNat_ofNat_of_lt' hn
  have hnow : c.now ≠ 0 := ((h.nonneg 0).trans_lt (clock 0)).ne'
  by_cases hroom : clt.asks (n + 1) = true → n + 1 ≤ max
  swap
  · left
    obtain ⟨hasks, hlt⟩ := Classical.not_imp.mp hroom
    apply sendPacket_exit h.booked.request c
    · rw [hsucc, wantsPong_eq hn, hasks]
    · rw [hsucc, hnat, h.booked.maxSequenceNo]
      omega
  right
  have hbooked := booked_step (c := c) hR halways hnow hn hroom h.booked
  have hrun : clt.sendPackets (s, wire) [c] = ((clt.sendPacket s c.now c.result).1,
      wire ++ (clt.sendPacket s c.now c.result).2.toList) := by
    have hup : s.exited = none := h.booked.exited
    simp only [sendPackets, List.foldl_cons, List.foldl_nil, hup, Option.isSome_none,
      Bool.false_eq_true, if_false]
  have hsend := sendPacket_eq h.booked.request h.booked.exited c (by
    rw [hsucc, wantsPong_eq hn, hnat, h.booked.maxSequenceNo]
    exact hroom)
  rw [hsucc, wantsPong_eq hn, hnat] at hsend
  rw [hrun] at hbooked
  refine ⟨_, _, _, h.of_send hR hbooked (by omega) (by split <;> omega) ?_ ?_ ?_ ?_ ?_ ?_⟩
  · have hdiv := div_le_of_room hmode hroom h.counter
    split
    · exact hdiv
    · exact h.counter
  · intro b hb
    rw [hsend]
    exact tx_of_send h.booked.replyEvery halways hb _
  · intro b hb
    rw [hsend]
    refine tx_of_send_new ?_ clock
    by_contra hne
    have hsent := ((h.booked.tx b).mp hne).2.1
    omega
  · rw [hsend]
    dsimp only
    split <;> rfl
  · rw [hsend]
  · rw [hsend]

end Send

section Receive
variable {src : SockAddr} {m : Mem} {msg : Message}

theorem Kept.other (h : clt.Kept length payload max rs n j wire s)
    (hnot : ¬ (clt.Counts m msg s ∧ (clt.outside s.handled).exit = false)) :
    (clt.handleMessage src m msg s).2.2.exited = some .largerThanExpected ∨
      (clt.handleMessage src m msg s).2.2.exited = some .sequenceHigher ∨
      clt.Kept length payload max rs n j wire (clt.handleMessage src m msg s).2.2 := by
  rcases clt.handleMessage_sorts m msg s with hinvalid | ⟨hvalid, hlt⟩ | hover | hcounts
  · rw [handleMessage_invalid src hinvalid]
    exact Or.inl rfl
  · rw [handleMessage_higher src hvalid hlt]
    exact Or.inr (Or.inl rfl)
  · obtain ⟨ok, heq⟩ := handleMessage_overlooked src hover
    rw [heq]
    obtain ⟨request, payload_eq, skipCount, hwire, hmax, hevery, htx, hup⟩ := h.booked
    exact Or.inr (Or.inr ⟨⟨request, payload_eq, skipCount, hwire, hmax, hevery, htx, hup⟩,
      h.counter, h.increasing, h.nonneg, h.servers, h.few, h.table, h.valid, h.answers, h.fresh⟩)
  · exact absurd hcounts hnot

theorem Kept.length_le (h : clt.Kept length payload max rs n j wire s)
    (hseveral : clt.several = true) :
    (firsts (rs.map ServerReply.addr)).length ≤ clt.workWithSrvNum := by
  rw [← h.servers hseveral]
  exact h.few hseveral

/-- The exits for other reasons: there was a column for every server. -/
theorem Kept.exit_other {s' : ClientState} {e : ClientExit}
    (h : clt.Kept length payload max rs n j wire s) (hexit : s'.exited = some e)
    (hne : e ≠ .tooManyServers) :
    s'.exited ≠ none ∧ (s'.exited = some .tooManyServers ↔ clt.several = true ∧
      clt.workWithSrvNum < (firsts (rs.map ServerReply.addr)).length) := by
  rw [hexit]
  refine ⟨Option.some_ne_none e, fun heq => absurd (Option.some.inj heq) hne, ?_⟩
  rintro ⟨hseveral, hlt⟩
  exact absurd (h.length_le hseveral) (not_le.mpr hlt)

theorem column_lt {addrs : List IPAddress} {a : IPAddress} (hS : 0 < clt.workWithSrvNum)
    (ha : a ∈ addrs) (hfew : clt.several = true → (firsts addrs).length ≤ clt.workWithSrvNum) :
    clt.column addrs a < clt.workWithSrvNum := by
  unfold column
  split
  · next hseveral =>
    exact (List.idxOf_lt_length_of_mem (mem_firsts.mpr ha)).trans_le (hfew hseveral)
  · exact hS

theorem Kept.of_reply {r : ServerReply} {s' : ClientState} {times : PacketTimes} {counted : Bool}
    (hR : 0 < clt.replyEvery) (hS : 0 < clt.workWithSrvNum)
    (h : clt.Kept length payload max rs n j wire s) (started : 0 < r.time) (hseq : r.seqNo ≤ n)
    (clock : ∀ b, s.times.tx b ≤ r.time)
    (hset : s.times.setRxTime r.seqNo r.time (clt.column ((rs ++ [r]).map ServerReply.addr) r.addr)
      false = some (times, counted))
    (hservers : clt.several = true → s'.serverList = firsts ((rs ++ [r]).map ServerReply.addr) ∧
      s'.serverList.length ≤ clt.workWithSrvNum)
    (hs' : s' = { s with
      handled := s'.handled
      accepted := s'.accepted
      serverList := s'.serverList
      times
      receiveCount := s.receiveCount + if counted then 1 else 0 }) :
    clt.Kept length payload max (rs ++ [r]) n j wire s' := by
  have hevery : s.times.replyEvery = clt.replyEvery := h.booked.replyEvery
  have hmax : s.times.maxSequenceNo = max := h.booked.maxSequenceNo
  obtain ⟨hmax', hevery', htx, -⟩ := PacketTimes.setRxTime_spec hset
  obtain ⟨hle, hcall⟩ := PacketTimes.call_of_setRxTime (by rwa [hevery]) s.receiveCount hset
  rw [hmax] at hle
  rw [hevery] at hcall
  have hcolumn : clt.column ((rs ++ [r]).map ServerReply.addr) r.addr < clt.workWithSrvNum := by
    apply column_lt hS
    · simp
    · intro hseveral
      rw [← (hservers hseveral).1]
      exact (hservers hseveral).2
  have hvalid : (TimesCall.setRxTime (r.block clt.replyEvery * clt.replyEvery) r.time
      (clt.column ((rs ++ [r]).map ServerReply.addr) r.addr)).Valid max clt.replyEvery
        clt.workWithSrvNum :=
    ⟨(Nat.div_mul_le_self _ _).trans hle, Nat.dvd_mul_left _ _, started.ne', hcolumn⟩
  have hcounters := PacketTimes.setRxTime_counters hset
  rw [hs']
  exact
    { booked := ⟨h.booked.request, h.booked.payload_eq, h.booked.skipCount, h.booked.wire,
        hmax'.trans hmax, hevery'.trans hevery, by rw [htx]; exact h.booked.tx, h.booked.exited⟩
      counter := h.counter
      increasing := by rw [htx]; exact h.increasing
      nonneg := by rw [htx]; exact h.nonneg
      servers := fun hseveral => (hservers hseveral).1
      few := fun hseveral => (hservers hseveral).2
      table := by
        rw [rxCalls_concat]
        exact h.table.call hR h.valid hvalid hcall
      valid := by
        rw [rxCalls_concat]
        intro c hc
        rcases List.mem_append.mp hc with hc | hc
        · exact h.valid c hc
        · rw [List.mem_singleton.mp hc]
          exact hvalid
      answers := by
        rw [htx]
        intro q hq
        rcases List.mem_append.mp hq with hq | hq
        · exact h.answers q hq
        · rw [List.mem_singleton.mp hq]
          exact ⟨started, hseq, clock _⟩
      fresh := by
        rw [hcounters.1, hcounters.2]
        exact h.fresh }

theorem Kept.reply (hR : 0 < clt.replyEvery) (hS : 0 < clt.workWithSrvNum)
    (hfits : max + clt.replyEvery < 2 ^ 64) (h : clt.Kept length payload max rs n j wire s)
    (counts : clt.Counts m msg s) (going : (clt.outside s.handled).exit = false)
    (clock : ∀ b, s.times.tx b ≤ (clt.outside s.handled).now)
    (started : 0 < (clt.outside s.handled).now) {r : ServerReply}
    (hr : r = ⟨src.ipAddress, (msg.getSequenceCounter m).toNat, (clt.outside s.handled).now⟩) :
    clt.Kept length payload max (rs ++ [r]) n j wire (clt.handleMessage src m msg s).2.2 ∨
      (clt.handleMessage src m msg s).2.2.exited ≠ none ∧
        ((clt.handleMessage src m msg s).2.2.exited = some .tooManyServers ↔
          clt.several = true ∧
            clt.workWithSrvNum < (firsts ((rs ++ [r]).map ServerReply.addr)).length) := by
  have hseq : (msg.getSequenceCounter m).toNat ≤ n :=
    (UInt64.le_iff_toNat_le.mp counts.seq).trans_eq (h.sendCount_eq hR hfits)
  have haddrs : (rs ++ [r]).map ServerReply.addr = rs.map ServerReply.addr ++ [src.ipAddress] := by
    rw [List.map_append, hr]
    rfl
  have hid := getServerId_spec src.ipAddress h.servers h.few
  rw [handleMessage_counts src counts going, haddrs]
  have hcounted := clt.countReply_counted src m msg s
  generalize (clt.countReply src m msg s).2.2 = s' at hcounted ⊢
  cases hcounted with
  | refused _ exited hnone =>
    right
    rcases hid with ⟨servers', hsome, -⟩ | ⟨-, hseveral, hlt⟩
    · rw [hsome] at hnone
      cases hnone
    · exact ⟨by rw [exited]; simp, fun _ => ⟨hseveral, hlt⟩, fun _ => exited⟩
  | stopped _ k exited hother hsome =>
    right
    rcases hid with ⟨servers', -, hfew⟩ | ⟨hnone, -, -⟩
    · refine ⟨exited, fun heq => absurd heq hother, ?_⟩
      rintro ⟨hseveral, hlt⟩
      obtain ⟨heq, hle⟩ := hfew hseveral
      rw [← heq] at hlt
      omega
    · rw [hnone] at hsome
      cases hsome
  | kept k serverList times counted hknown hset =>
    left
    rcases hid with ⟨servers', hsome, hfew⟩ | ⟨hnone, -, -⟩
    · cases hknown.symm.trans hsome
      refine h.of_reply hR hS (r := r) ?_ ?_ ?_ ?_ ?_ rfl
      · rw [hr]
        exact started
      · rw [hr]
        exact hseq
      · rw [hr]
        exact clock
      · rw [haddrs, hr]
        exact hset
      · rw [haddrs]
        exact hfew
    · rw [hknown] at hnone
      cases hnone

end Receive

/-- Over a whole run: the replies are in their columns, or the process was left, and for want of a
column exactly when one more server replied than expected. -/
theorem Exchange.kept (hR : 0 < clt.replyEvery) (hS : 0 < clt.workWithSrvNum)
    (halways : clt.pongMode = .always → clt.replyEvery = 1) (hmode : clt.pongMode ≠ .never)
    (hfits : max + clt.replyEvery < 2 ^ 64)
    (run : clt.Exchange (clt.initial length payload max) rs s) :
    (∃ n j wire, clt.Kept length payload max rs n j wire s) ∨
      s.exited ≠ none ∧ (s.exited = some .tooManyServers ↔ clt.several = true ∧
        clt.workWithSrvNum < (firsts (rs.map ServerReply.addr)).length) := by
  induction run with
  | start => exact Or.inl ⟨0, 0, [], kept_initial hR⟩
  | @send rs s _ up c clock ih =>
    obtain ⟨n, j, wire, h⟩ := ih.resolve_right fun hexit => hexit.1 up
    rcases h.send hR halways hmode hfits clock with hexit | hkept
    · exact Or.inr (h.exit_other hexit (by decide))
    · exact Or.inl hkept
  | @reply rs s _ up src m msg counts going clock started ih =>
    obtain ⟨n, j, wire, h⟩ := ih.resolve_right fun hexit => hexit.1 up
    rcases h.reply hR hS hfits counts going clock started rfl with hkept | hexit
    · exact Or.inl ⟨n, j, wire, hkept⟩
    · exact Or.inr hexit
  | @other rs s _ up src m msg hnot ih =>
    obtain ⟨n, j, wire, h⟩ := ih.resolve_right fun hexit => hexit.1 up
    rcases h.other hnot with hexit | hexit | hkept
    · exact Or.inr (h.exit_other hexit (by decide))
    · exact Or.inr (h.exit_other hexit (by decide))
    · exact Or.inl ⟨n, j, wire, hkept⟩

/-! ## The columns in terms of the replies -/

theorem firstReply_ne_zero {replyEvery b : Nat} {l : List ServerReply}
    (hpos : ∀ r ∈ l, 0 < r.time) :
    firstReply replyEvery l b ≠ 0 ↔ ∃ r ∈ l, r.block replyEvery = b := by
  unfold firstReply
  cases hfind : l.find? fun r => r.block replyEvery = b with
  | none =>
    refine ⟨fun h => absurd rfl h, ?_⟩
    rintro ⟨r, hr, hblock⟩
    exact absurd (decide_eq_true hblock) (List.find?_eq_none.mp hfind r hr)
  | some r =>
    have hr := List.mem_of_find?_eq_some hfind
    have hblock : r.block replyEvery = b := by simpa using List.find?_some hfind
    exact ⟨fun _ => ⟨r, hr, hblock⟩, fun _ => (hpos r hr).ne'⟩

theorem firstRx_rxCalls (hR : 0 < clt.replyEvery) (rs : List ServerReply) (b k : Nat) :
    firstRx (clt.rxCalls rs) (b * clt.replyEvery) k =
      firstReply clt.replyEvery (clt.ofServer rs k) b := by
  unfold firstRx firstReply rxCalls ofServer
  rw [List.findSome?_map, List.find?_filter, List.find?_eq_findSome?_guard, List.map_findSome?]
  congr 2
  funext r
  rw [Function.comp_apply, rxOf_setRxTime hR, Function.comp_apply, Option.guard]
  by_cases hk : k = clt.column (rs.map ServerReply.addr) r.addr
  · by_cases hb : b = r.block clt.replyEvery
    · simp [hk, hb]
    · simp [hb, Ne.symm hb]
  · simp [hk, Ne.symm hk]

theorem countP_rxCalls (rs : List ServerReply) (k : Nat) :
    (clt.rxCalls rs).countP (TimesCall.isRx k) = (clt.ofServer rs k).length := by
  rw [rxCalls, List.countP_map, List.countP_eq_length_filter]
  rfl

theorem ofServer_eq {k : Nat} {a : IPAddress} (hseveral : clt.several = true)
    (hk : (firsts (rs.map ServerReply.addr))[k]? = some a) :
    clt.ofServer rs k = rs.filter fun r => r.addr = a := by
  obtain ⟨hlt, hget⟩ := List.getElem?_eq_some_iff.mp hk
  apply List.filter_congr
  intro r hr
  have hmem : r.addr ∈ firsts (rs.map ServerReply.addr) := mem_firsts.mpr (List.mem_map_of_mem hr)
  rw [column, if_pos hseveral, decide_eq_decide]
  constructor
  · rintro rfl
    rw [← hget]
    exact (List.getElem_idxOf hlt).symm
  · rintro rfl
    rw [← hget]
    exact (firsts_nodup _).idxOf_getElem k hlt

section Kept
variable (hR : 0 < clt.replyEvery) (h : clt.Kept length payload max rs n j wire s)
include hR h

theorem Kept.rx_eq (b k : Nat) :
    s.times.rx b k = firstReply clt.replyEvery (clt.ofServer rs k) b := by
  rw [← firstRx_rxCalls hR]
  exact h.table.rx b k

theorem Kept.rx_ne_zero {b k : Nat} : s.times.rx b k ≠ 0 ↔
    ∃ r ∈ rs, r.block clt.replyEvery = b ∧ clt.column (rs.map ServerReply.addr) r.addr = k := by
  rw [h.rx_eq hR, firstReply_ne_zero]
  · constructor
    · rintro ⟨r, hr, hblock⟩
      obtain ⟨hmem, hcolumn⟩ := List.mem_filter.mp hr
      exact ⟨r, hmem, hblock, of_decide_eq_true hcolumn⟩
    · rintro ⟨r, hr, hblock, hcolumn⟩
      exact ⟨r, List.mem_filter.mpr ⟨hr, decide_eq_true hcolumn⟩, hblock⟩
  · intro r hr
    exact (h.answers r (List.mem_filter.mp hr).1).1

theorem Kept.inside {r : ServerReply} (hr : r ∈ rs) :
    r.block clt.replyEvery ≤ max / clt.replyEvery ∧
      clt.column (rs.map ServerReply.addr) r.addr < clt.workWithSrvNum := by
  obtain ⟨hle, -, -, hk⟩ := h.valid _ (List.mem_map_of_mem hr)
  exact ⟨(Nat.le_div_iff_mul_le hR).mpr hle, hk⟩

theorem Kept.receiveCount_eq : s.receiveCount =
    (rs.map fun r => (r.block clt.replyEvery,
      clt.column (rs.map ServerReply.addr) r.addr)).toFinset.card := by
  have hcount : s.receiveCount = _ := h.table.count
  rw [hcount]
  congr 1
  ext ⟨b, k⟩
  rw [Finset.mem_filter, Finset.mem_product, Finset.mem_range, Finset.mem_range,
    List.mem_toFinset, List.mem_map]
  show _ ∧ s.times.rx b k ≠ 0 ↔ _
  rw [h.rx_ne_zero hR]
  constructor
  · rintro ⟨-, r, hr, rfl, rfl⟩
    exact ⟨r, hr, rfl⟩
  · rintro ⟨r, hr, heq⟩
    cases heq
    obtain ⟨hblock, hcolumn⟩ := h.inside hR hr
    exact ⟨⟨Nat.lt_succ_of_le hblock, hcolumn⟩, r, hr, rfl, rfl⟩

theorem Kept.duplicates_eq {k : Nat} (hk : k < clt.workWithSrvNum) :
    s.times.duplicates k +
        ((clt.ofServer rs k).map (ServerReply.block clt.replyEvery)).toFinset.card =
      (clt.ofServer rs k).length := by
  rw [← countP_rxCalls, ← h.table.duplicates k hk]
  refine congrArg (s.times.duplicates k + ·) (congrArg Finset.card ?_)
  ext b
  rw [Finset.mem_filter, Finset.mem_range, List.mem_toFinset, List.mem_map]
  show _ ↔ _ ∧ s.times.rx b k ≠ 0
  rw [h.rx_ne_zero hR]
  constructor
  · rintro ⟨r, hr, rfl⟩
    obtain ⟨hmem, hcolumn⟩ := List.mem_filter.mp hr
    exact ⟨Nat.lt_succ_of_le (h.inside hR hmem).1, r, hmem, rfl, of_decide_eq_true hcolumn⟩
  · rintro ⟨-, r, hr, hblock, hcolumn⟩
    exact ⟨r, List.mem_filter.mpr ⟨hr, decide_eq_true hcolumn⟩, hblock⟩

end Kept

end Client

/-- Over every run of sends, replies and other messages: each server has a column of its own,
numbered by its first reply, with the first reply time of every request; its other replies are its
duplicates; each server is counted once for a request. The client gives up exactly when one more
server replies than it expects. -/
theorem servers_kept_apart (clt : Client) (hR : 0 < clt.replyEvery)
    (hS : 0 < clt.workWithSrvNum) (halways : clt.pongMode = .always → clt.replyEvery = 1)
    (hmode : clt.pongMode ≠ .never) {length : UInt32} {payload : List UInt8} {max : Nat}
    (hfits : max + clt.replyEvery < 2 ^ 64) {rs : List ServerReply} {s : ClientState}
    (run : clt.Exchange (clt.initial length payload max) rs s) :
    (s.exited = some .tooManyServers ↔
      clt.several = true ∧ clt.workWithSrvNum < (firsts (rs.map ServerReply.addr)).length) ∧
    (s.exited = none →
      (clt.several = true → s.serverList = firsts (rs.map ServerReply.addr) ∧
        ∀ k a, s.serverList[k]? = some a → clt.ofServer rs k = rs.filter fun r => r.addr = a) ∧
      (∀ b k, s.times.rx b k = firstReply clt.replyEvery (clt.ofServer rs k) b) ∧
      (∀ k < clt.workWithSrvNum, s.times.duplicates k +
        ((clt.ofServer rs k).map (ServerReply.block clt.replyEvery)).toFinset.card =
          (clt.ofServer rs k).length) ∧
      s.receiveCount = (rs.map fun r => (r.block clt.replyEvery,
        clt.column (rs.map ServerReply.addr) r.addr)).toFinset.card) := by
  rcases run.kept hR hS halways hmode hfits with ⟨n, j, wire, h⟩ | ⟨hexit, hiff⟩
  · have hup : s.exited = none := h.booked.exited
    refine ⟨?_, fun _ => ⟨fun hseveral => ⟨h.servers hseveral, fun k a hk => ?_⟩, h.rx_eq hR,
      fun k hk => h.duplicates_eq hR hk, h.receiveCount_eq hR⟩⟩
    · rw [hup]
      constructor
      · intro heq
        cases heq
      · rintro ⟨hseveral, hlt⟩
        exact absurd (h.length_le hseveral) (not_le.mpr hlt)
    · rw [h.servers hseveral] at hk
      exact Client.ofServer_eq hseveral hk
  · exact ⟨hiff, fun hup => absurd hup hexit⟩

/-! Two servers, three requests: the first server replies to the first request, the second server
to the second one. -/

namespace TwoServers

def client : Client where
  msMaxSize := 14
  pongMode := .always
  replyEvery := 1
  workWithSrvNum := 2
  isMulticast := true
  isStream := false
  dataIntegrity := false
  outside := fun n => ⟨false, if n = 0 then 2 else 501⟩

def replyTo (seqNo : UInt64) : Mem := store (fun _ => 0) 0 (MsgHeader.mk seqNo 2 14).bytes

def send (s : ClientState) (now : TicksTime) : ClientState := (client.sendPacket s now .sent).1

def receive (s : ClientState) (ip : UInt32) (seqNo : UInt64) : ClientState :=
  (client.handleMessage (.inet ip 1) (replyTo seqNo) ⟨0⟩ s).2.2

def asked : ClientState := send (client.initial 14 [] 2011) 1

def answered : ClientState := receive asked 7 1

def askedAgain : ClientState := send answered 500

def answeredAgain : ClientState := receive askedAgain 8 2

def done : ClientState := send answeredAgain 1000

def replies : List ServerReply := [⟨.inet 7, 1, 2⟩, ⟨.inet 8, 2, 501⟩]

theorem asked_tx (b : Nat) : asked.times.tx b ≤ 1 := by
  show Function.update (fun _ => (0 : TicksTime)) 1 1 b ≤ 1
  rw [Function.update_apply]
  split <;> decide

theorem askedAgain_tx (b : Nat) : askedAgain.times.tx b ≤ 500 := by
  show Function.update asked.times.tx 2 500 b ≤ 500
  rw [Function.update_apply]
  split
  · exact le_rfl
  · exact (asked_tx b).trans (by decide)

theorem exchange : client.Exchange (client.initial 14 [] 2011) replies done := by
  have h1 : client.Exchange _ [] asked := .send .start rfl ⟨1, true⟩ fun _ => Int.zero_lt_one
  have h2 : client.Exchange _ [⟨.inet 7, 1, 2⟩] answered :=
    .reply h1 rfl (.inet 7 1) (replyTo 1) ⟨0⟩
      ⟨by decide +kernel, by decide +kernel, by decide +kernel, by decide +kernel⟩ rfl
      (fun b => (asked_tx b).trans (by decide)) (by decide)
  have h3 : client.Exchange _ [⟨.inet 7, 1, 2⟩] askedAgain :=
    .send h2 (by decide +kernel) ⟨500, true⟩ fun b => (asked_tx b).trans_lt (by decide)
  have h4 : client.Exchange _ replies answeredAgain :=
    .reply h3 (by decide +kernel) (.inet 8 1) (replyTo 2) ⟨0⟩
      ⟨by decide +kernel, by decide +kernel, by decide +kernel, by decide +kernel⟩ rfl
      (fun b => (askedAgain_tx b).trans (by decide)) (by decide)
  exact .send h4 (by decide +kernel) ⟨1000, true⟩ fun b => (askedAgain_tx b).trans_lt (by decide)

end TwoServers

theorem servers_kept_apart_two : TwoServers.done.exited = none ∧
    TwoServers.done.serverList = [.inet 7, .inet 8] ∧ TwoServers.done.times.rx 2 1 = 501 ∧
      TwoServers.done.receiveCount = 2 := by
  have hup : TwoServers.done.exited = none := by decide +kernel
  obtain ⟨-, h⟩ := servers_kept_apart TwoServers.client (by decide) (by decide) (by decide)
    (by decide) (by decide) TwoServers.exchange
  obtain ⟨hservers, hrx, -, hcount⟩ := h hup
  refine ⟨hup, (hservers rfl).1.trans (by decide), ?_, hcount.trans (by decide)⟩
  rw [hrx 2 1]
  decide

/-! ## The table the statistics read -/

/-- What `client_statistics` reads once the client stopped in state `s`. -/
def ClientState.statistics (s : ClientState) (p : UserParams) (fullRtt : Bool)
    (ticks1msec : TicksTime) (serverNo : Nat) : Statistics where
  mode := p.mode
  fullRtt := fullRtt
  ticks1msec := ticks1msec
  sendCount := s.request.sequenceNumber.toNat
  receiveCount := s.receiveCount
  serverNo := serverNo
  times := s.times

/-- The parameters of a client and of its table are those of the user. -/
structure UserParams.Gives (p : UserParams) (clt : Client) (max : Nat) : Prop where
  every : p.replyEvery = clt.replyEvery
  servers : p.clientWorkWithSrvNum = clt.workWithSrvNum
  max : p.maxSequenceNo = max
  number : ∀ target, p.mode = .numberBased target → p.replyEvery = 1 ∧ target ≤ maxPacketNumber

namespace Client
variable {clt : Client} {length : UInt32} {payload : List UInt8} {max n j : Nat}
variable {rs : List ServerReply} {wire : List (List UInt8)} {s : ClientState}
variable {p : UserParams} {fullRtt : Bool} {ticks1msec : TicksTime} {k : Nat}

section Recorded
variable (hR : 0 < clt.replyEvery) (hfits : max + clt.replyEvery < 2 ^ 64)
  (h : clt.Kept length payload max rs n j wire s)
  (hrequests : ∀ r ∈ rs, clt.replyEvery ≤ r.seqNo)
include hR h

include hrequests in
theorem Kept.answered {b k : Nat} (hrx : s.times.rx b k ≠ 0) :
    0 < s.times.rx b k ∧ 1 ≤ b ∧ b * clt.replyEvery ≤ n ∧ k < clt.workWithSrvNum := by
  obtain ⟨r, hr, rfl, rfl⟩ := (h.rx_ne_zero hR).mp hrx
  have hpos : 0 < s.times.rx (r.block clt.replyEvery)
      (clt.column (rs.map ServerReply.addr) r.addr) := by
    rw [h.rx_eq hR] at hrx ⊢
    unfold firstReply at hrx ⊢
    cases hfind : (clt.ofServer rs _).find? fun q =>
        q.block clt.replyEvery = r.block clt.replyEvery with
    | none =>
      rw [hfind] at hrx
      exact absurd rfl hrx
    | some q =>
      exact (h.answers q (List.mem_filter.mp (List.mem_of_find?_eq_some hfind)).1).1
  refine ⟨hpos, ?_, ?_, (h.inside hR hr).2⟩
  · exact Nat.div_pos (hrequests r hr) hR
  · exact (Nat.div_mul_le_self _ _).trans (h.answers r hr).2.1

include hrequests in
theorem Kept.receiveCount_sum : s.receiveCount = ∑ i ∈ Finset.Icc 1 (n / clt.replyEvery),
    ((Finset.range clt.workWithSrvNum).filter fun k => s.times.rx i k ≠ 0).card := by
  have hcount : s.receiveCount = _ := h.table.count
  rw [hcount, Finset.card_filter, Finset.sum_product]
  simp only [← Finset.card_filter]
  symm
  apply Finset.sum_subset
  · intro i hi
    rw [Finset.mem_Icc] at hi
    rw [Finset.mem_range]
    have hle := h.counter
    omega
  · intro i _ hi
    rw [Finset.card_eq_zero, Finset.filter_eq_empty_iff]
    intro k _ hrx
    obtain ⟨-, hone, hsent, -⟩ := h.answered hR hrequests hrx
    exact hi (Finset.mem_Icc.mpr ⟨hone, (Nat.le_div_iff_mul_le hR).mpr hsent⟩)

include hfits hrequests in
theorem Kept.recorded (hp : p.Gives clt max) (hmode : clt.pongMode ≠ .never)
    (hticks : 0 < ticks1msec) (hk : k < clt.workWithSrvNum) :
    Recorded p (s.statistics p fullRtt ticks1msec k) where
  mode := rfl
  every := h.booked.replyEvery.trans hp.every.symm
  every_pos := hp.every.symm ▸ hR
  maxSequenceNo := h.booked.maxSequenceNo.trans hp.max.symm
  number := hp.number
  ticks := hticks
  server := hp.servers.symm ▸ hk
  inTable := by
    intro i hi
    rw [hp.every] at hi ⊢
    rw [hp.max]
    have hle : i ≤ n / clt.replyEvery := by
      rw [Nat.le_div_iff_mul_le hR, ← h.sendCount_eq hR hfits]
      exact hi
    exact (Nat.le_div_iff_mul_le hR).mp (hle.trans h.counter)
  sent := by
    intro i hone hi
    rw [hp.every] at hi
    have hne : s.times.tx i ≠ 0 :=
      (h.booked.tx i).mpr ⟨hone, hi.trans_eq (h.sendCount_eq hR hfits), hmode⟩
    exact (h.nonneg i).lt_of_ne hne.symm
  unsent := by
    intro i hi
    rw [hp.every] at hi
    have hlt : n < i * clt.replyEvery := (h.sendCount_eq hR hfits).symm.trans_lt hi
    by_contra hne
    exact absurd ((h.booked.tx i).mp hne).2.1 (not_le.mpr hlt)
  received := by
    intro i k hrx
    rw [hp.every, hp.servers]
    obtain ⟨hpos, hone, hsent, hk⟩ := h.answered hR hrequests hrx
    exact ⟨hpos, hone, hsent.trans_eq (h.sendCount_eq hR hfits).symm, hk⟩
  receiveCount := by
    rw [hp.every, hp.servers]
    have hsend : (s.statistics p fullRtt ticks1msec k).sendCount = n := h.sendCount_eq hR hfits
    rw [hsend]
    exact h.receiveCount_sum hR hrequests
  fresh := h.fresh k

end Recorded

end Client

theorem Recorded.dropped_of_complete {p : UserParams} {st : Statistics} (h : Recorded p st)
    (increasing : ∀ i j, 1 ≤ i → i < j → j * p.replyEvery ≤ st.sendCount → st.tx i < st.tx j)
    (h0 : st.receiveCount ≠ 0) (hfit : st.sendCount ≤ p.maxSequenceNo)
    (hcomplete : Recorded.Complete st) {r : Report} (hr : st.ClientStatistics (some r)) :
    r.dropped st = st.unanswered.card := by
  obtain ⟨a, ha⟩ : ∃ a, st.testStart = some a := ⟨_, h.testStart_eq h0⟩
  obtain ⟨b, hb⟩ : ∃ b, st.testEnd = some b := ⟨_, h.testEnd_eq hfit⟩
  by_cases hab : b < a
  · cases (Statistics.clientStatistics_of_lt h0 ha hb hab).mp hr
    rw [h.unanswered_eq_empty_of_lt ha hb hab, Finset.card_empty]
    exact h.fresh.1
  obtain ⟨x, hx, heq⟩ := (Statistics.clientStatistics_of_le h0 ha hb (not_lt.mp hab)).mp hr
  obtain ⟨s, rfl, rfl⟩ := Option.map_eq_some_iff.mp heq.symm
  obtain ⟨y, hy, hend⟩ := Statistics.scan_returns (a := a) (b := b) h.replyEvery_pos h.rx_nonneg
  cases hx.unique hy
  obtain ⟨hc, hfull | ⟨room, inTable, hstop⟩⟩ := hend
  · have hv := Statistics.visits_of_returns h.replyEvery_pos h.rx_nonneg hx
    have hlast := (Statistics.answered_last h.replyEvery_pos h.rx_nonneg h0 hv).resolve_left
      (by omega)
    obtain ⟨hall, hiff⟩ := h.exact_of_full ha hb increasing hc hfull hlast
    refine hiff.mpr (hcomplete.resolve_left ?_)
    rintro ⟨i, k, hrx, hno⟩
    exact hno (hall i k hrx)
  · exact (h.exact_of_stop ha hb increasing hc room inTable hstop).1

/-- The measured requests that a server did not reply to. -/
def Client.missed (clt : Client) (rs : List ServerReply) (st : Statistics) : Finset Nat :=
  (Finset.Icc 1 (st.sendCount / clt.replyEvery)).filter fun b =>
    st.measured b ∧ ∀ r ∈ clt.ofServer rs st.serverNo, r.block clt.replyEvery ≠ b

namespace Client
variable {clt : Client} {length : UInt32} {payload : List UInt8} {max n j : Nat}
variable {rs : List ServerReply} {wire : List (List UInt8)} {s : ClientState}
variable {p : UserParams} {fullRtt : Bool} {ticks1msec : TicksTime} {k : Nat}

section Missed
variable (hR : 0 < clt.replyEvery) (h : clt.Kept length payload max rs n j wire s)
include hR h

theorem Kept.missed_eq : clt.missed rs (s.statistics p fullRtt ticks1msec k) =
    (s.statistics p fullRtt ticks1msec k).unanswered := by
  have hevery : (s.statistics p fullRtt ticks1msec k).replyEvery = clt.replyEvery :=
    h.booked.replyEvery
  unfold missed Statistics.unanswered
  rw [hevery]
  apply Finset.filter_congr
  intro b _
  refine and_congr_right fun _ => ?_
  have hrx : (s.statistics p fullRtt ticks1msec k).rx b =
      firstReply clt.replyEvery (clt.ofServer rs k) b := h.rx_eq hR b k
  have hpos : ∀ r ∈ clt.ofServer rs k, 0 < r.time := fun r hr =>
    (h.answers r (List.mem_filter.mp hr).1).1
  rw [hrx, ← not_iff_not, ← ne_eq (firstReply _ _ _), firstReply_ne_zero hpos]
  simp only [not_forall, not_not, exists_prop]
  rfl

/-- The scan for a server cannot end early when another server replied as well, or when the
server replied again after everything it missed. -/
theorem Kept.complete (hcomplete : (∃ r ∈ rs, clt.column (rs.map ServerReply.addr) r.addr ≠ k) ∨
      ∀ b ∈ clt.missed rs (s.statistics p fullRtt ticks1msec k),
        ∃ r ∈ clt.ofServer rs k, b < r.block clt.replyEvery) :
    Recorded.Complete (s.statistics p fullRtt ticks1msec k) := by
  rcases hcomplete with ⟨r, hr, hcolumn⟩ | hafter
  · exact Or.inl ⟨r.block clt.replyEvery, clt.column (rs.map ServerReply.addr) r.addr,
      (h.rx_ne_zero hR).mpr ⟨r, hr, rfl, rfl⟩, fun hobserved => hcolumn hobserved.1⟩
  · right
    intro b hb
    rw [← h.missed_eq hR] at hb
    obtain ⟨r, hr, hlt⟩ := hafter b hb
    obtain ⟨hmem, heq⟩ := List.mem_filter.mp hr
    exact ⟨_, hlt, (h.rx_ne_zero hR).mpr ⟨r, hmem, rfl, of_decide_eq_true heq⟩⟩

end Missed

end Client

/-- From a run to its report, outside playback: the drops printed for a server are the measured
requests it did not reply to, if another server replied as well or the server replied to a request
after each of them. -/
theorem run_drops_exact (clt : Client) (hR : 0 < clt.replyEvery)
    (hS : 0 < clt.workWithSrvNum) (halways : clt.pongMode = .always → clt.replyEvery = 1)
    (hmode : clt.pongMode ≠ .never) {length : UInt32} {payload : List UInt8} {max : Nat}
    (hfits : max + clt.replyEvery < 2 ^ 64) {rs : List ServerReply} {s : ClientState}
    (run : clt.Exchange (clt.initial length payload max) rs s) (up : s.exited = none)
    (hrequests : ∀ r ∈ rs, clt.replyEvery ≤ r.seqNo) {p : UserParams} (hp : p.Gives clt max)
    (hplay : ∀ size, p.mode ≠ .playback size) (hend : s.request.sequenceNumber.toNat ≤ max)
    (fullRtt : Bool) {ticks1msec : TicksTime} (hticks : 0 < ticks1msec) {k : Nat}
    (hk : k < clt.workWithSrvNum)
    (hcomplete : (∃ r ∈ rs, clt.column (rs.map ServerReply.addr) r.addr ≠ k) ∨
      ∀ b ∈ clt.missed rs (s.statistics p fullRtt ticks1msec k),
        ∃ r ∈ clt.ofServer rs k, b < r.block clt.replyEvery) :
    Recorded p (s.statistics p fullRtt ticks1msec k) ∧
      ∃ report, (s.statistics p fullRtt ticks1msec k).ClientStatistics (some report) ∧
        report.dropped (s.statistics p fullRtt ticks1msec k) =
          (clt.missed rs (s.statistics p fullRtt ticks1msec k)).card := by
  obtain ⟨n, j, wire, h⟩ :=
    (run.kept hR hS halways hmode hfits).resolve_right fun hexit => hexit.1 up
  have hrecorded : Recorded p (s.statistics p fullRtt ticks1msec k) :=
    h.recorded hR hfits hrequests hp hmode hticks hk
  have hcomplete := h.complete hR hcomplete
  refine ⟨hrecorded, ?_⟩
  rw [h.missed_eq hR]
  by_cases h0 : (s.statistics p fullRtt ticks1msec k).receiveCount = 0
  · exact (hrecorded.exact_of_zero h0).mpr hcomplete
  have hfit : (s.statistics p fullRtt ticks1msec k).sendCount ≤ p.maxSequenceNo :=
    hend.trans_eq hp.max.symm
  obtain ⟨report, hreport⟩ := (hrecorded.reports_of_inside h0).mpr ⟨hfit, Or.inl hplay⟩
  refine ⟨report, hreport, hrecorded.dropped_of_complete ?_ h0 hfit hcomplete hreport⟩
  intro i b _ hlt hsent
  exact h.increasing i b hlt (hrecorded.sent b (by omega) hsent).ne'

/-- The first server missed the second request, and its report says so. -/
theorem run_drops_exact_two : ∃ report,
    (TwoServers.done.statistics ⟨.timeBased, 1, 1000, 1, 1, 1, 2⟩ false 1 0).ClientStatistics
        (some report) ∧
      report.dropped
        (TwoServers.done.statistics ⟨.timeBased, 1, 1000, 1, 1, 1, 2⟩ false 1 0) = 1 := by
  have hmissed : (TwoServers.client.missed TwoServers.replies
      (TwoServers.done.statistics ⟨.timeBased, 1, 1000, 1, 1, 1, 2⟩ false 1 0)).card = 1 := by
    decide +kernel
  obtain ⟨-, h⟩ := run_drops_exact TwoServers.client (by decide) (by decide) (by decide)
    (by decide) (by decide) TwoServers.exchange (by decide +kernel) (by decide)
    (p := ⟨.timeBased, 1, 1000, 1, 1, 1, 2⟩) ⟨rfl, rfl, rfl, by rintro target ⟨⟩⟩
    (by rintro size ⟨⟩) (by decide +kernel) false (show 0 < (1 : TicksTime) by decide) (k := 0)
    (by decide) (Or.inl ⟨⟨.inet 8, 2, 501⟩, by decide, by decide⟩)
  rwa [hmissed] at h

end Sockperf
