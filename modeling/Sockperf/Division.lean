import Sockperf.IoHandlers

/-!
# The sockets of each thread

`server_select_per_thread` gives every thread a range of descriptors. The
threads get the sockets in the order of their descriptors, each as many as the
next one or one more.
-/

namespace Sockperf

open While
set_option autoImplicit false

structure FindFds where
  /-- `num_of_detected_fds` -/
  num : Nat
  i : Int
  fdMin : Int

namespace Connections
variable (t : Connections)

def findFdsTurn (len : Nat) (s : FindFds) : Turn FindFds (Int × Int) :=
  if s.num < len then
    .next (if (t.fdsArray s.i).isSome then
        ⟨s.num + 1, s.i + 1, if s.num = 0 then s.i else s.fdMin⟩
      else { s with i := s.i + 1 })
  else .done (s.fdMin, s.i - 1)

/-- `find_min_max_fds`, on a `handler_info` that was set to 0. -/
def findMinMaxFds (fuel : Nat) (startLookFrom : Int) (len : Nat) : Option (Int × Int) :=
  iterate (t.findFdsTurn len) fuel ⟨0, startLookFrom, 0⟩

/-- The loop of `server_select_per_thread` over the threads. -/
def divideFds (fuel fdNum : Nat) : Nat → Nat → Int → Option (List HandlerInfo)
  | 0, _, _ => some []
  | threads + 1, numOfRemaindedFds, lastFds =>
    let num := if numOfRemaindedFds ≠ 0 then fdNum + 1 else fdNum
    match t.findMinMaxFds fuel lastFds num with
    | none => none
    | some (fdMin, fdMax) =>
      (divideFds fuel fdNum threads (numOfRemaindedFds - 1) (fdMax + 1)).map
        (⟨fdMin, fdMax, num⟩ :: ·)

/-- `server_select_per_thread` up to the launch of the threads. -/
def serverSelectPerThread (fuel threadsNum fdNum : Nat) : Option (List HandlerInfo) :=
  t.divideFds fuel (fdNum / threadsNum) threadsNum (fdNum % threadsNum) 0

/-- All sockets, in the order of `g_fds_array`. -/
def allSockets (lim : Limits) : List Int := t.sockets (fdRange 0 (lim.maxFdsNum - 1))

end Connections

/-! ## Ranges -/

theorem mem_fdRange {fdMin fdMax fd : Int} :
    fd ∈ fdRange fdMin fdMax ↔ fdMin ≤ fd ∧ fd ≤ fdMax := by
  unfold fdRange
  constructor
  · intro hmem
    obtain ⟨n, hn, rfl⟩ := List.mem_map.mp hmem
    rw [List.mem_range] at hn
    omega
  · rintro ⟨hmin, hmax⟩
    exact List.mem_map.mpr ⟨(fd - fdMin).toNat, List.mem_range.mpr (by omega), by omega⟩

theorem fdRange_append {a b c : Int} (hab : a ≤ b + 1) (hbc : b ≤ c) :
    fdRange a c = fdRange a b ++ fdRange (b + 1) c := by
  have hlen : (c + 1 - a).toNat = (b + 1 - a).toNat + (c + 1 - (b + 1)).toNat := by omega
  unfold fdRange
  rw [hlen, List.range_add, List.map_append, List.map_map]
  congr 1
  apply List.map_congr_left
  intro n _
  dsimp only [Function.comp]
  omega

theorem fdRange_self (a : Int) : fdRange a a = [a] := by
  have hlen : (a + 1 - a).toNat = 1 := by omega
  unfold fdRange
  rw [hlen]
  simp

theorem fdRange_empty {a b : Int} (h : b < a) : fdRange a b = [] := by
  have hlen : (b + 1 - a).toNat = 0 := by omega
  unfold fdRange
  rw [hlen]
  rfl

namespace Connections
variable {t : Connections} {start bound : Int} {len : Nat}

theorem sockets_append (ifds ifds' : List Int) :
    t.sockets (ifds ++ ifds') = t.sockets ifds ++ t.sockets ifds' := List.filter_append _ _

theorem sockets_last {i : Int} (hi : start ≤ i) :
    t.sockets (fdRange start i) =
      t.sockets (fdRange start (i - 1)) ++ if (t.fdsArray i).isSome then [i] else [] := by
  have hone : t.sockets [i] = if (t.fdsArray i).isSome then [i] else [] := by
    unfold sockets
    rw [List.filter_cons, List.filter_nil]
  rw [fdRange_append (b := i - 1) (by omega) (by omega), sockets_append, Int.sub_add_cancel,
    fdRange_self, hone]

/-! ## One thread -/

variable (t start bound) in
/-- What the search has found when it comes to `i`. -/
structure Searching (s : FindFds) : Prop where
  after : start ≤ s.i
  before : s.i ≤ bound
  num : s.num = (t.sockets (fdRange start (s.i - 1))).length
  fdMin : s.num ≠ 0 → start ≤ s.fdMin ∧ s.fdMin < s.i ∧ t.sockets (fdRange start (s.fdMin - 1)) = []

/-- The step lemma. -/
theorem Searching.next {s : FindFds} (h : Searching t start bound s) (hlt : s.num < len)
    (hlen : len ≤ (t.sockets (fdRange start (bound - 1))).length) :
    ∃ s', t.findFdsTurn len s = .next s' ∧ Searching t start bound s' ∧ s'.i = s.i + 1 ∧
      s.i < bound ∧ s'.num ≤ len := by
  have hbound : s.i < bound := by
    by_contra hge
    have heq : s.i = bound := by
      have := h.before
      omega
    have hnum := h.num
    rw [heq] at hnum
    omega
  have hlast := sockets_last (t := t) h.after
  have hnum := h.num
  have hafter := h.after
  unfold findFdsTurn
  rw [if_pos hlt]
  split at hlast
  · next hrecord =>
    rw [if_pos hrecord]
    refine ⟨_, rfl, ⟨by dsimp only; omega, by dsimp only; omega, ?_, ?_⟩, rfl, hbound, hlt⟩
    · dsimp only
      rw [Int.add_sub_cancel, hlast, List.length_append, ← hnum]
      rfl
    · intro _
      dsimp only
      split
      · next hzero =>
        refine ⟨hafter, by omega, ?_⟩
        rw [hzero] at hnum
        exact List.length_eq_zero_iff.mp hnum.symm
      · next hnonzero =>
        obtain ⟨hmin, hless, hnone⟩ := h.fdMin hnonzero
        exact ⟨hmin, by omega, hnone⟩
  · next hrecord =>
    rw [if_neg hrecord]
    refine ⟨_, rfl, ⟨by dsimp only; omega, by dsimp only; omega, ?_, ?_⟩, rfl, hbound, hlt.le⟩
    · dsimp only
      rw [Int.add_sub_cancel, hlast, List.append_nil]
      exact hnum
    · intro hnonzero
      obtain ⟨hmin, hless, hnone⟩ := h.fdMin hnonzero
      exact ⟨hmin, by dsimp only; omega, hnone⟩

variable (t start bound) in
/-- The range holds the next `len` sockets, and the search for the next thread goes on behind it. -/
theorem findMinMaxFds_returns (fuel : Nat) (hpos : 0 < len)
    (hlen : len ≤ (t.sockets (fdRange start (bound - 1))).length)
    (hfuel : (bound - start).toNat < fuel) :
    ∃ fdMin fdMax, t.findMinMaxFds fuel start len = some (fdMin, fdMax) ∧ start ≤ fdMax ∧
      (t.sockets (fdRange fdMin fdMax)).length = len ∧
      t.sockets (fdRange start (bound - 1)) =
        t.sockets (fdRange fdMin fdMax) ++ t.sockets (fdRange (fdMax + 1) (bound - 1)) := by
  have hstart : start < bound := by
    by_contra hge
    rw [fdRange_empty (by omega)] at hlen
    exact absurd hlen (Nat.not_le.mpr hpos)
  have hinit : Searching t start bound ⟨0, start, 0⟩ := by
    refine ⟨le_rfl, hstart.le, ?_, fun hne => absurd rfl hne⟩
    rw [fdRange_empty (by dsimp only; omega)]
    rfl
  obtain ⟨r, hr, hpost⟩ := returns_of_variant (t.findFdsTurn len)
    (fun s => Searching t start bound s ∧ s.num ≤ len)
    (fun r : Int × Int => start ≤ r.2 ∧ (t.sockets (fdRange r.1 r.2)).length = len ∧
      t.sockets (fdRange start (bound - 1)) =
        t.sockets (fdRange r.1 r.2) ++ t.sockets (fdRange (r.2 + 1) (bound - 1)))
    (fun s => (bound - s.i).toNat) ⟨hinit, Nat.zero_le _⟩ (by
      rintro s ⟨hs, hle⟩
      by_cases hlt : s.num < len
      · obtain ⟨s', hnext, hs', hi, hbound, hle'⟩ := hs.next hlt hlen
        exact Or.inl ⟨s', hnext, ⟨hs', hle'⟩, by omega⟩
      · -- nothing stands before the first socket that was found
        have hnum : s.num = len := by omega
        obtain ⟨hmin, hless, hnone⟩ := hs.fdMin (by omega)
        have hbefore := hs.before
        have hfound : t.sockets (fdRange start (s.i - 1)) =
            t.sockets (fdRange s.fdMin (s.i - 1)) := by
          rw [fdRange_append (b := s.fdMin - 1) (by omega) (by omega), sockets_append, hnone,
            Int.sub_add_cancel]
          rfl
        refine Or.inr ⟨(s.fdMin, s.i - 1), if_neg hlt, by dsimp only; omega, ?_, ?_⟩
        · dsimp only
          rw [← hfound, ← hs.num, hnum]
        · dsimp only
          rw [← hfound, ← sockets_append, ← fdRange_append (by omega) (by omega)])
  refine ⟨r.1, r.2, ?_, hpost⟩
  exact iterate_mono hr (by dsimp only; omega)

/-! ## All threads -/

variable (bound) in
theorem divideFds_returns {fuel fdNum threads rest : Nat} (hnum : 0 < fdNum) (hstart : 0 ≤ start)
    (hrest : rest ≤ threads) (hfuel : bound.toNat < fuel)
    (htotal : (t.sockets (fdRange start (bound - 1))).length = threads * fdNum + rest) :
    ∃ infos, t.divideFds fuel fdNum threads rest start = some infos ∧ infos.length = threads ∧
      infos.flatMap t.socketsOf = t.sockets (fdRange start (bound - 1)) ∧
      ∀ info ∈ infos, info.fdNum = (t.socketsOf info).length := by
  induction threads generalizing rest start with
  | zero =>
    refine ⟨[], rfl, rfl, ?_, fun info hinfo => nomatch hinfo⟩
    have hzero : (t.sockets (fdRange start (bound - 1))).length = 0 := by omega
    rw [List.length_eq_zero_iff.mp hzero]
    rfl
  | succ threads ih =>
    obtain ⟨num, hshare⟩ : ∃ num, num = if rest ≠ 0 then fdNum + 1 else fdNum := ⟨_, rfl⟩
    have hleft : num + (threads * fdNum + (rest - 1)) = (threads + 1) * fdNum + rest := by
      rw [Nat.succ_mul]
      split at hshare
      · omega
      · omega
    have hpos : 0 < num := by
      split at hshare
      · omega
      · omega
    obtain ⟨fdMin, fdMax, hfind, hmax, hlen, hsplit⟩ :=
      findMinMaxFds_returns t start bound fuel hpos (by omega) (by omega)
    rw [hsplit, List.length_append, hlen] at htotal
    obtain ⟨infos, hinfos, hcount, hflat, hnums⟩ :=
      ih (show 0 ≤ fdMax + 1 by omega) (show rest - 1 ≤ threads by omega) (by omega)
    refine ⟨⟨fdMin, fdMax, num⟩ :: infos, ?_, by rw [List.length_cons, hcount], ?_, ?_⟩
    · rw [divideFds]
      rw [← hshare, hfind]
      dsimp only
      rw [hinfos]
      rfl
    · rw [List.flatMap_cons, hflat, hsplit]
      rfl
    · intro info hinfo
      rcases List.mem_cons.mp hinfo with rfl | hinfo
      · exact congrArg Nat.cast hlen.symm
      · exact hnums info hinfo

theorem serverSelectPerThread_returns {lim : Limits} {threadsNum : Nat} (hpos : 0 < threadsNum)
    (hle : threadsNum ≤ (t.allSockets lim).length) :
    ∃ infos, t.serverSelectPerThread (lim.maxFdsNum + 1) threadsNum (t.allSockets lim).length =
        some infos ∧ infos.length = threadsNum ∧
      infos.flatMap t.socketsOf = t.allSockets lim ∧
      ∀ info ∈ infos, info.fdNum = (t.socketsOf info).length := by
  apply divideFds_returns lim.maxFdsNum
  · exact Nat.div_pos hle hpos
  · exact le_rfl
  · exact (Nat.mod_lt _ hpos).le
  · rw [Int.toNat_natCast]
    omega
  · exact (Nat.div_add_mod _ _).symm

/-! ## The ranges -/

variable (t) in
/-- The search of a thread looks at `g_fds_array[i]`. -/
def LooksAt (start : Int) (len : Nat) (i : Int) : Prop :=
  ∃ s, Visits (t.findFdsTurn len) ⟨0, start, 0⟩ s ∧ s.num < len ∧ s.i = i

variable (t) in
/-- A range that was found by a search from `start` on. -/
structure Share (start : Int) (info : HandlerInfo) : Prop where
  start_le : start ≤ info.fdMin
  nonempty : info.fdMin ≤ info.fdMax
  first : (t.fdsArray info.fdMin).isSome = true
  last : (t.fdsArray info.fdMax).isSome = true
  looks : ∀ i, t.LooksAt start info.fdNum.toNat i → start ≤ i ∧ i ≤ info.fdMax

variable (t len start) in
/-- The sockets that the search has found stand where it says. -/
structure Found (s : FindFds) : Prop where
  after : start ≤ s.i
  num_le : s.num ≤ len
  first : s.num ≠ 0 → start ≤ s.fdMin ∧ s.fdMin < s.i ∧ (t.fdsArray s.fdMin).isSome = true
  last : s.num = len → (t.fdsArray (s.i - 1)).isSome = true

theorem Found.init (hpos : 0 < len) : Found t start len ⟨0, start, 0⟩ where
  after := le_rfl
  num_le := Nat.zero_le _
  first h := absurd rfl h
  last h := absurd h hpos.ne

theorem Found.next {s s' : FindFds} (h : Found t start len s)
    (hnext : t.findFdsTurn len s = .next s') : Found t start len s' := by
  have hafter := h.after
  unfold findFdsTurn at hnext
  split at hnext
  · next hlt =>
    split at hnext
    · next hrecord =>
      cases hnext
      refine ⟨?_, hlt, ?_, ?_⟩
      · dsimp only
        omega
      · intro _
        dsimp only
        split
        · exact ⟨hafter, by omega, hrecord⟩
        · next hne =>
          obtain ⟨hmin, hless, hfirst⟩ := h.first hne
          exact ⟨hmin, by omega, hfirst⟩
      · intro _
        dsimp only
        rw [Int.add_sub_cancel]
        exact hrecord
    · cases hnext
      refine ⟨?_, hlt.le, ?_, ?_⟩
      · dsimp only
        omega
      · intro hne
        obtain ⟨hmin, hless, hfirst⟩ := h.first hne
        exact ⟨hmin, by dsimp only; omega, hfirst⟩
      · intro heq
        exact absurd heq hlt.ne
  · cases hnext

theorem findFdsTurn_done {s : FindFds} {r : Int × Int} (h : t.findFdsTurn len s = .done r) :
    ¬ s.num < len ∧ r = (s.fdMin, s.i - 1) := by
  unfold findFdsTurn at h
  split at h
  · cases h
  · next hge =>
    cases h
    exact ⟨hge, rfl⟩

theorem findFdsTurn_next {s s' : FindFds} (h : t.findFdsTurn len s = .next s') :
    s.num < len ∧ s'.i = s.i + 1 := by
  unfold findFdsTurn at h
  split at h
  · next hlt =>
    refine ⟨hlt, ?_⟩
    split at h <;> cases h <;> rfl
  · cases h

theorem le_of_returns {s : FindFds} {r : Int × Int} (hr : Returns (t.findFdsTurn len) s r) :
    s.i - 1 ≤ r.2 := by
  apply hr.post (fun a => s.i ≤ a.i) (fun r => s.i - 1 ≤ r.2) le_rfl
  rintro a - hle
  constructor
  · intro b hb
    obtain ⟨-, hi⟩ := findFdsTurn_next hb
    omega
  · intro q hq
    obtain ⟨-, rfl⟩ := findFdsTurn_done hq
    dsimp only
    omega

theorem returns_congr {t' : Connections} {s : FindFds} {r : Int × Int}
    (hr : Returns (t.findFdsTurn len) s r)
    (hagree : ∀ k ≤ r.2, (t'.fdsArray k).isSome = (t.fdsArray k).isSome) :
    Returns (t'.findFdsTurn len) s r := by
  obtain ⟨n, hn⟩ := hr
  induction n generalizing s with
  | zero => cases hn
  | succ n ih =>
    cases hturn : t.findFdsTurn len s with
    | next s' =>
      rw [iterate_next hturn] at hn
      obtain ⟨hlt, hi⟩ := findFdsTurn_next hturn
      have hle := le_of_returns ⟨n, hn⟩
      refine Returns.of_next ?_ (ih hn)
      rw [← hturn]
      unfold findFdsTurn
      rw [hagree s.i (by omega)]
    | done q =>
      rw [iterate_done hturn] at hn
      obtain ⟨hge, rfl⟩ := findFdsTurn_done hturn
      cases hn
      exact Returns.of_done (if_neg hge)

theorem findMinMaxFds_share {fuel : Nat} {fdMin fdMax : Int} (hpos : 0 < len)
    (h : t.findMinMaxFds fuel start len = some (fdMin, fdMax)) :
    t.Share start ⟨fdMin, fdMax, len⟩ := by
  have hr : Returns (t.findFdsTurn len) ⟨0, start, 0⟩ (fdMin, fdMax) := ⟨fuel, h⟩
  obtain ⟨s, hs, hdone⟩ := hr.visits
  have hfound : ∀ a, Visits (t.findFdsTurn len) ⟨0, start, 0⟩ a → Found t start len a := by
    intro a ha
    apply ha.invariant (Found t start len) (Found.init hpos)
    intro a b _ hfound hb
    exact hfound.next hb
  obtain ⟨hge, heq⟩ := findFdsTurn_done hdone
  cases heq
  have hnum : s.num = len := by
    have := (hfound s hs).num_le
    omega
  obtain ⟨hmin, hless, hfirst⟩ := (hfound s hs).first (by omega)
  refine ⟨hmin, by dsimp only; omega, hfirst, (hfound s hs).last hnum, ?_⟩
  rintro i ⟨a, ha, hlt, rfl⟩
  rw [Int.toNat_natCast] at ha hlt
  refine ⟨(hfound a ha).after, ?_⟩
  -- the search goes on behind what it looks at
  obtain ⟨b, hb⟩ : ∃ b, t.findFdsTurn len a = .next b := ⟨_, if_pos hlt⟩
  obtain ⟨-, hi⟩ := findFdsTurn_next hb
  have hend := le_of_returns ((Returns.next_iff hb).mp (hr.of_visits ha))
  dsimp only at hend ⊢
  omega

variable (t) in
/-- The ranges of the threads, each found behind the one before. -/
inductive Shares : Int → List HandlerInfo → Prop where
  | nil (start : Int) : Shares start []
  | cons {start : Int} {info : HandlerInfo} {infos : List HandlerInfo} :
      t.Share start info → Shares (info.fdMax + 1) infos → Shares start (info :: infos)

theorem divideFds_shares {fuel fdNum threads rest : Nat} {infos : List HandlerInfo}
    (hnum : 0 < fdNum) (h : t.divideFds fuel fdNum threads rest start = some infos) :
    t.Shares start infos ∧ ∀ info ∈ infos, info.fdNum = fdNum ∨ info.fdNum = fdNum + 1 := by
  induction threads generalizing rest start infos with
  | zero =>
    cases h
    exact ⟨.nil start, fun info hinfo => absurd hinfo List.not_mem_nil⟩
  | succ threads ih =>
    unfold divideFds at h
    dsimp only at h
    split at h
    · cases h
    · next fdMin fdMax hfind =>
      obtain ⟨infos, hrest, rfl⟩ := Option.map_eq_some_iff.mp h
      obtain ⟨hshares, hnums⟩ := ih hrest
      refine ⟨.cons (findMinMaxFds_share (by split <;> omega) hfind) hshares, ?_⟩
      intro info hinfo
      rcases List.mem_cons.mp hinfo with rfl | hinfo
      · dsimp only
        split
        · exact Or.inr (Nat.cast_succ fdNum)
        · exact Or.inl rfl
      · exact hnums info hinfo

section Shares
variable {infos : List HandlerInfo} {info : HandlerInfo}

theorem Shares.start_le (h : t.Shares start infos) (hinfo : info ∈ infos) :
    start ≤ info.fdMin := by
  induction h with
  | nil => exact absurd hinfo List.not_mem_nil
  | cons hshare _ ih =>
    have hmin := hshare.start_le
    have hmax := hshare.nonempty
    rcases List.mem_cons.mp hinfo with rfl | hinfo
    · exact hmin
    · have := ih hinfo
      omega

theorem Shares.ordered (h : t.Shares start infos) :
    infos.Pairwise fun a b => a.fdMax < b.fdMin := by
  induction h with
  | nil => exact List.Pairwise.nil
  | cons _ hshares ih =>
    refine List.pairwise_cons.mpr ⟨?_, ih⟩
    intro b hb
    have := hshares.start_le hb
    omega

/-- Where the search for a thread begins: behind the range of the thread before. -/
def searchStart (start : Int) (infos : List HandlerInfo) : Nat → Int
  | 0 => start
  | k+1 => ((infos[k]?).map (·.fdMax + 1)).getD start

theorem searchStart_cons {k : Nat} (hk : k ≤ infos.length) :
    searchStart start (info :: infos) (k + 1) = searchStart (info.fdMax + 1) infos k := by
  cases k with
  | zero => rfl
  | succ k =>
    change ((infos[k]?).map (·.fdMax + 1)).getD start =
      ((infos[k]?).map (·.fdMax + 1)).getD (info.fdMax + 1)
    rw [List.getElem?_eq_getElem hk]
    rfl

theorem Shares.share (h : t.Shares start infos) {k : Nat} (hk : infos[k]? = some info) :
    t.Share (searchStart start infos k) info := by
  induction h generalizing k with
  | nil => cases hk
  | cons hshare _ ih =>
    cases k with
    | zero =>
      cases hk
      exact hshare
    | succ k =>
      rw [List.getElem?_cons_succ] at hk
      obtain ⟨hlt, -⟩ := List.getElem?_eq_some_iff.mp hk
      rw [searchStart_cons hlt.le]
      exact ih hk

theorem Shares.mem (h : t.Shares start infos) (hinfo : info ∈ infos) :
    ∃ from', t.Share from' info := by
  obtain ⟨k, hk⟩ := List.mem_iff_getElem?.mp hinfo
  exact ⟨_, h.share hk⟩

end Shares

theorem mem_socketsOf {info : HandlerInfo} {fd : Int} :
    fd ∈ t.socketsOf info ↔
      (info.fdMin ≤ fd ∧ fd ≤ info.fdMax) ∧ (t.fdsArray fd).isSome = true := by
  unfold socketsOf sockets
  rw [List.mem_filter, mem_fdRange]

theorem index_unique {infos : List HandlerInfo} {fd : Int} {i j : Nat} {a b : HandlerInfo}
    (hordered : infos.Pairwise fun a b => a.fdMax < b.fdMin)
    (ha : infos[i]? = some a) (hb : infos[j]? = some b)
    (hfda : a.fdMin ≤ fd ∧ fd ≤ a.fdMax) (hfdb : b.fdMin ≤ fd ∧ fd ≤ b.fdMax) : i = j := by
  obtain ⟨hi, rfl⟩ := List.getElem?_eq_some_iff.mp ha
  obtain ⟨hj, rfl⟩ := List.getElem?_eq_some_iff.mp hb
  rcases Nat.lt_trichotomy i j with hlt | heq | hlt
  · have := List.pairwise_iff_getElem.mp hordered i j hi hj hlt
    omega
  · exact heq
  · have := List.pairwise_iff_getElem.mp hordered j i hj hi hlt
    omega

theorem sum_fdNum {infos : List HandlerInfo}
    (h : ∀ info ∈ infos, info.fdNum = (t.socketsOf info).length) :
    (infos.map (·.fdNum)).sum = (infos.flatMap t.socketsOf).length := by
  induction infos with
  | nil => rfl
  | cons info infos ih =>
    rw [List.map_cons, List.sum_cons, h info List.mem_cons_self, List.flatMap_cons,
      List.length_append, ih fun a ha => h a (List.mem_cons_of_mem info ha), Nat.cast_add]

end Connections

/-- The sockets of a table are divided among the threads: into ranges one behind the other, each
from a socket to a socket, with the numbers of sockets that differ by at most one. The searches look
at no descriptor behind the last socket of their range. -/
theorem sockets_divided (lim : Limits) (t : Connections) (n threadsNum : Nat)
    (hn : (t.allSockets lim).length = n) (hpos : 1 ≤ threadsNum) (hle : threadsNum ≤ n) :
    ∃ infos, t.serverSelectPerThread (lim.maxFdsNum + 1) threadsNum n = some infos ∧
      infos.length = threadsNum ∧
      (∀ info ∈ infos, info.fdMin ≤ info.fdMax ∧ info.fdMin ∈ t.allSockets lim ∧
        info.fdMax ∈ t.allSockets lim ∧ info.fdNum = (t.socketsOf info).length) ∧
      infos.Pairwise (fun a b => a.fdMax < b.fdMin) ∧
      (∀ a ∈ infos, ∀ b ∈ infos, a.fdNum ≤ b.fdNum + 1) ∧ (infos.map (·.fdNum)).sum = n ∧
      (∀ fd ∈ t.allSockets lim, ∃! i : Nat, ∃ info : HandlerInfo, infos[i]? = some info ∧
        info.fdMin ≤ fd ∧ fd ≤ info.fdMax) ∧
      ∀ (k : Nat) (info : HandlerInfo), infos[k]? = some info → ∀ i,
        t.LooksAt (Connections.searchStart 0 infos k) info.fdNum.toNat i →
          Connections.searchStart 0 infos k ≤ i ∧ i ≤ info.fdMax := by
  obtain ⟨infos, hinfos, hlength, hflat, hnums⟩ :=
    @Connections.serverSelectPerThread_returns t lim threadsNum hpos (hn ▸ hle)
  rw [hn] at hinfos
  obtain ⟨hshares, hcounts⟩ :=
    Connections.divideFds_shares (Nat.div_pos hle hpos) hinfos
  have hall : ∀ info ∈ infos, ∀ fd ∈ t.socketsOf info, fd ∈ t.allSockets lim := by
    intro info hinfo fd hfd
    rw [← hflat]
    exact List.mem_flatMap.mpr ⟨info, hinfo, hfd⟩
  refine ⟨infos, hinfos, hlength, ?_, hshares.ordered, ?_, ?_, ?_, ?_⟩
  · intro info hinfo
    obtain ⟨start, hshare⟩ := hshares.mem hinfo
    refine ⟨hshare.nonempty, hall info hinfo _ ?_, hall info hinfo _ ?_, hnums info hinfo⟩
    · exact Connections.mem_socketsOf.mpr ⟨⟨le_rfl, hshare.nonempty⟩, hshare.first⟩
    · exact Connections.mem_socketsOf.mpr ⟨⟨hshare.nonempty, le_rfl⟩, hshare.last⟩
  · intro a ha b hb
    have hcounta := hcounts a ha
    have hcountb := hcounts b hb
    omega
  · rw [Connections.sum_fdNum hnums, hflat, hn]
  · intro fd hfd
    rw [← hflat] at hfd
    obtain ⟨info, hinfo, hfd⟩ := List.mem_flatMap.mp hfd
    obtain ⟨i, hi⟩ := List.mem_iff_getElem?.mp hinfo
    have hrange := (Connections.mem_socketsOf.mp hfd).1
    refine ⟨i, ⟨info, hi, hrange⟩, ?_⟩
    rintro j ⟨b, hj, hrangeb⟩
    exact Connections.index_unique hshares.ordered hj hi hrangeb hrange
  · intro k info hk i hi
    exact (hshares.share hk).looks i hi

def threeSockets : Connections where
  fdsArray fd := if fd = 3 ∨ fd = 6 ∨ fd = 7 then some tcpListener else none
  kernel fd := if 0 ≤ fd ∧ fd ≤ 7 then some .other else none

theorem sockets_divided_three :
    ∃ infos, threeSockets.serverSelectPerThread 9 2 3 = some infos ∧ infos.length = 2 ∧
      infos.Pairwise (fun a b => a.fdMax < b.fdMin) ∧ (infos.map (·.fdNum)).sum = 3 := by
  obtain ⟨infos, hinfos, hlength, -, hordered, -, hsum, -⟩ :=
    sockets_divided tcpLimits threeSockets 3 2 rfl (by decide) (by decide)
  exact ⟨infos, hinfos, hlength, hordered, hsum⟩

end Sockperf
