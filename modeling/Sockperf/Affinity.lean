import Mathlib.Data.List.Forall2
import Mathlib.Logic.Function.Basic
import Sockperf.Durations
import Sockperf.Lib.Strtol

/-!
# The list of cpus

`set_affinity_list` goes over the list once. A comma or the end of the list ends an item, a minus
ends the first number of a range; the numbers are converted with `strtol`.
-/

namespace Sockperf

open Strtol
set_option autoImplicit false

def cpuSetsize : Int := 1024

/-- `os_cpuset_t` -/
abbrev CpuSet := Int → Bool

def osCpuSet (mask : CpuSet) (cpuFrom cpuCur : Int) : CpuSet :=
  (List.range (cpuCur - cpuFrom + 1).toNat).foldl
    (fun (mask : CpuSet) (k : Nat) => Function.update mask (cpuFrom + k) true) mask

/-- `strtol(cur_buf, &end_ptr, 0)`; there is no number if it sets `errno` or converts nothing. -/
def readCpu (curBuf : List Char) : Option Int := (strtol curBuf).bind fun r => int64 r.1

def setCpus (mask : CpuSet) (cpuFrom cpuCur : Int) : Option CpuSet :=
  if cpuFrom ≤ cpuCur ∧ cpuCur < cpuSetsize then
    some (osCpuSet mask (if cpuFrom = -1 then cpuCur else cpuFrom) cpuCur)
  else none

/-- The loop of `set_affinity_list`: the text from `cur_buf` to `cur_ptr`, and what is behind it. -/
def scanCpus : List Char → List Char → Int → CpuSet → Option CpuSet
  | curBuf, [], cpuFrom, mask => (readCpu curBuf).bind fun cpuCur => setCpus mask cpuFrom cpuCur
  | curBuf, c :: rest, cpuFrom, mask =>
    if c = ',' then
      ((readCpu curBuf).bind fun cpuCur => setCpus mask cpuFrom cpuCur).bind fun mask =>
        scanCpus [] rest (-1) mask
    else if c = '-' then (readCpu curBuf).bind fun cpuFrom => scanCpus [] rest cpuFrom mask
    else scanCpus (curBuf ++ [c]) rest cpuFrom mask

inductive AffinityError where
  | badArgument
  | fatal
  deriving DecidableEq, Repr

/-- `set_affinity_list`: the result, and the mask `os_set_affinity` is called with. -/
def setAffinityList (osSetAffinity : CpuSet → Bool) (cpuList : List Char) :
    Except AffinityError Unit × Option CpuSet :=
  if cpuList = [] then (.ok (), none)
  else
    match scanCpus [] cpuList (-1) fun _ => false with
    | none => (.error .badArgument, none)
    | some mask => (if osSetAffinity mask then .ok () else .error .fatal, some mask)

/-! ## The grammar -/

def CpuNumber (text : List Char) (a : Int) : Prop :=
  Numeral text a ∧ '-' ∉ text ∧ a < cpuSetsize

inductive CpuItem : List Char → Int × Int → Prop
  | single {text : List Char} {a : Int} (number : CpuNumber text a) : CpuItem text (a, a)
  | range {text text' : List Char} {a b : Int} (first : CpuNumber text a)
      (last : CpuNumber text' b) (le : a ≤ b) : CpuItem (text ++ '-' :: text') (a, b)

def CpuList (s : List Char) (ranges : List (Int × Int)) : Prop :=
  ∃ items, items ≠ [] ∧ s = [','].intercalate items ∧ List.Forall₂ CpuItem items ranges

def cpus (ranges : List (Int × Int)) : CpuSet := fun cpu =>
  ranges.any fun r => r.1 ≤ cpu && cpu ≤ r.2

/-! ## What the code reads -/

/-- The texts between commas, each cut at its minus signs. -/
def fields (s : List Char) : List (List (List Char)) := (s.splitOn ',').map (·.splitOn '-')

def readItem : Int → List (List Char) → Option (Int × Int)
  | _, [] => none
  | cpuFrom, [text] => (readCpu text).bind fun cpuCur =>
      if cpuFrom ≤ cpuCur ∧ cpuCur < cpuSetsize then
        some (if cpuFrom = -1 then cpuCur else cpuFrom, cpuCur)
      else none
  | _, text :: texts => (readCpu text).bind fun cpuFrom => readItem cpuFrom texts

def ReadsCpus (s : List Char) (ranges : List (Int × Int)) : Prop :=
  List.Forall₂ (fun item r => readItem (-1) item = some r) (fields s) ranges

/-- Items of one or two numbers with nothing behind them. -/
def Tidy (s : List Char) : Prop :=
  ∀ item ∈ fields s, item.length ≤ 2 ∧ ∀ text ∈ item, ∃ n, Numeral text n

/-! ## Splitting -/

section Split
variable {α : Type} [DecidableEq α] {x : α} {xs ys zs : List α}

theorem splitOn_of_not_mem (h : x ∉ xs) : xs.splitOn x = [xs] := by
  apply List.splitOnP_eq_singleton
  intro y hy
  rw [beq_eq_false_iff_ne]
  rintro rfl
  exact h hy

theorem splitOn_append_cons (h : x ∉ xs) (ys : List α) :
    (xs ++ x :: ys).splitOn x = xs :: ys.splitOn x := by
  have hfree : ∀ y ∈ xs, (y == x) = false := by
    intro y hy
    rw [beq_eq_false_iff_ne]
    rintro rfl
    exact h hy
  exact List.splitOnP_append_cons_of_forall_mem hfree x (beq_self_eq_true x) ys

theorem splitOn_cons_of_ne {y : α} (h : y ≠ x) (ys : List α) :
    (y :: ys).splitOn x = (ys.splitOn x).modifyHead (List.cons y) := by
  unfold List.splitOn
  rw [List.splitOnP_cons_eq_if_modifyHead, if_neg (by rwa [beq_iff_eq])]

theorem splitOn_append {zss : List (List α)} (h : x ∉ xs) (hys : ys.splitOn x = zs :: zss) :
    (xs ++ ys).splitOn x = (xs ++ zs) :: zss := by
  induction xs with
  | nil => exact hys
  | cons y xs ih =>
    obtain ⟨hy, hxs⟩ := List.ne_and_not_mem_of_not_mem_cons h
    rw [List.cons_append, splitOn_cons_of_ne (Ne.symm hy), ih hxs]
    rfl

theorem splitOn_eq_cons (x : α) (xs : List α) : ∃ ys yss, xs.splitOn x = ys :: yss :=
  List.exists_cons_of_ne_nil (List.splitOn_ne_nil x xs)

theorem not_mem_of_mem_splitOn (h : ys ∈ xs.splitOn x) : x ∉ ys := by
  induction xs generalizing ys with
  | nil =>
    rw [List.splitOn_nil, List.mem_singleton] at h
    rw [h]
    exact List.not_mem_nil
  | cons y xs ih =>
    rcases eq_or_ne y x with rfl | hne
    · have hcut : (y :: xs).splitOn y = [] :: xs.splitOn y :=
        splitOn_append_cons List.not_mem_nil xs
      rw [hcut] at h
      rcases List.mem_cons.mp h with rfl | h
      · exact List.not_mem_nil
      · exact ih h
    · obtain ⟨zs, zss, hzs⟩ := splitOn_eq_cons x xs
      rw [splitOn_cons_of_ne hne, hzs] at h
      rcases List.mem_cons.mp h with rfl | h
      · have hzs' := ih (hzs ▸ List.mem_cons_self)
        exact List.not_mem_cons_of_ne_of_not_mem hne.symm hzs'
      · exact ih (hzs ▸ List.mem_cons_of_mem zs h)

omit [DecidableEq α] in
theorem forall₂_exists_right {β : Type} {R : α → β → Prop} {us : List β}
    (h : List.Forall₂ R xs us) (hx : x ∈ xs) : ∃ u ∈ us, R x u := by
  induction h with
  | nil => cases hx
  | cons hr _ ih =>
    rcases List.mem_cons.mp hx with rfl | hx
    · exact ⟨_, List.mem_cons_self, hr⟩
    · obtain ⟨u, hu, hru⟩ := ih hx
      exact ⟨u, List.mem_cons_of_mem _ hu, hru⟩

end Split

/-! ## The scan -/

theorem osCpuSet_apply (mask : CpuSet) (cpuFrom cpuCur cpu : Int) :
    osCpuSet mask cpuFrom cpuCur cpu =
      (mask cpu || decide (cpuFrom ≤ cpu) && decide (cpu ≤ cpuCur)) := by
  have hturns : ∀ n : Nat, (List.range n).foldl
      (fun (mask : CpuSet) (k : Nat) => Function.update mask (cpuFrom + k) true) mask cpu =
        (mask cpu || decide (cpuFrom ≤ cpu) && decide (cpu < cpuFrom + n)) := by
    intro n
    induction n with
    | zero =>
      have hempty : ¬ (cpuFrom ≤ cpu ∧ cpu < cpuFrom + (0 : Nat)) := by omega
      rw [List.range_zero, List.foldl_nil, ← Bool.decide_and, decide_eq_false hempty, Bool.or_false]
    | succ n ih =>
      rw [List.range_succ, List.foldl_append, List.foldl_cons, List.foldl_nil,
        Function.update_apply]
      split
      · next heq =>
        have hin : cpuFrom ≤ cpu ∧ cpu < cpuFrom + (n + 1 : Nat) := by omega
        rw [← Bool.decide_and, decide_eq_true hin, Bool.or_true]
      · next hne =>
        have hlt : cpu < cpuFrom + (n + 1 : Nat) ∧ cpuFrom ≤ cpu ↔
            cpu < cpuFrom + (n : Nat) ∧ cpuFrom ≤ cpu := by omega
        rw [ih, Bool.and_comm, Bool.and_comm (decide (cpuFrom ≤ cpu)), ← Bool.decide_and,
          ← Bool.decide_and, decide_eq_decide.mpr hlt]
  unfold osCpuSet
  rw [hturns]
  congr 1
  rw [← Bool.decide_and, ← Bool.decide_and, decide_eq_decide]
  omega

def readItems : List (List (List Char)) → CpuSet → Option CpuSet
  | [], mask => some mask
  | item :: items, mask =>
    (readItem (-1) item).bind fun r => readItems items (osCpuSet mask r.1 r.2)

theorem readItem_singleton (text : List Char) (cpuFrom : Int) (mask : CpuSet) :
    ((readItem cpuFrom [text]).map fun r => osCpuSet mask r.1 r.2) =
      (readCpu text).bind fun cpuCur => setCpus mask cpuFrom cpuCur := by
  unfold readItem setCpus
  cases readCpu text with
  | none => rfl
  | some cpuCur =>
    dsimp only [Option.bind_some]
    split <;> rfl

theorem readItem_cons {item : List (List Char)} (text : List Char) (cpuFrom : Int)
    (hitem : item ≠ []) :
    readItem cpuFrom (text :: item) = (readCpu text).bind fun cpuFrom => readItem cpuFrom item := by
  cases item with
  | nil => exact absurd rfl hitem
  | cons => rfl

theorem fields_of_not_mem {curBuf : List Char} (hcomma : ',' ∉ curBuf) (hminus : '-' ∉ curBuf) :
    fields curBuf = [[curBuf]] := by
  rw [fields, splitOn_of_not_mem hcomma, List.map_singleton, splitOn_of_not_mem hminus]

theorem fields_comma {curBuf : List Char} (hcomma : ',' ∉ curBuf) (hminus : '-' ∉ curBuf)
    (rest : List Char) : fields (curBuf ++ ',' :: rest) = [curBuf] :: fields rest := by
  rw [fields, splitOn_append_cons hcomma, List.map_cons, splitOn_of_not_mem hminus]
  rfl

theorem fields_minus {curBuf rest : List Char} {item : List (List Char)}
    {items : List (List (List Char))} (hcomma : ',' ∉ curBuf) (hminus : '-' ∉ curBuf)
    (hrest : fields rest = item :: items) :
    item ≠ [] ∧ fields (curBuf ++ '-' :: rest) = (curBuf :: item) :: items := by
  obtain ⟨text, texts, hsplit⟩ := splitOn_eq_cons ',' rest
  rw [fields, hsplit, List.map_cons] at hrest
  obtain ⟨rfl, rfl⟩ := List.cons_eq_cons.mp hrest
  refine ⟨List.splitOn_ne_nil _ _, ?_⟩
  have hfree : ',' ∉ curBuf ++ ['-'] := by
    intro h
    rcases List.mem_append.mp h with h | h
    · exact hcomma h
    · exact absurd h (by decide)
  have hcut : curBuf ++ '-' :: rest = (curBuf ++ ['-']) ++ rest := by
    rw [List.append_assoc, List.singleton_append]
  rw [fields, hcut, splitOn_append hfree hsplit, List.map_cons, List.append_assoc,
    List.singleton_append, splitOn_append_cons hminus]

theorem fields_eq_cons (s : List Char) : ∃ item items, fields s = item :: items := by
  obtain ⟨text, texts, hsplit⟩ := splitOn_eq_cons ',' s
  exact ⟨_, _, by rw [fields, hsplit, List.map_cons]⟩

theorem scanCpus_eq (rest : List Char) {curBuf : List Char} {item : List (List Char)}
    {items : List (List (List Char))} (hcomma : ',' ∉ curBuf) (hminus : '-' ∉ curBuf)
    (hfields : fields (curBuf ++ rest) = item :: items) (cpuFrom : Int) (mask : CpuSet) :
    scanCpus curBuf rest cpuFrom mask =
      (readItem cpuFrom item).bind fun r => readItems items (osCpuSet mask r.1 r.2) := by
  induction rest generalizing curBuf item items cpuFrom mask with
  | nil =>
    rw [List.append_nil, fields_of_not_mem hcomma hminus] at hfields
    obtain ⟨rfl, rfl⟩ := List.cons_eq_cons.mp hfields
    rw [scanCpus, ← readItem_singleton]
    exact (Option.map_eq_bind ..)
  | cons c rest ih =>
    rw [scanCpus]
    split
    · next hc =>
      subst hc
      rw [fields_comma hcomma hminus] at hfields
      obtain ⟨rfl, hrest⟩ := List.cons_eq_cons.mp hfields
      obtain ⟨item', items', hnext⟩ := fields_eq_cons rest
      have hnil : fields ([] ++ rest) = item' :: items' := hnext
      rw [← hrest, hnext, ← readItem_singleton, Option.bind_map]
      congr 1
      funext r
      exact ih List.not_mem_nil List.not_mem_nil hnil (-1) _
    · split
      · next hc =>
        subst hc
        obtain ⟨item', items', hnext⟩ := fields_eq_cons rest
        obtain ⟨hne, heq⟩ := fields_minus hcomma hminus hnext
        rw [heq] at hfields
        obtain ⟨rfl, rfl⟩ := List.cons_eq_cons.mp hfields
        have hnil : fields ([] ++ rest) = item' :: items' := hnext
        rw [readItem_cons _ _ hne, Option.bind_assoc]
        congr 1
        funext cpu
        exact ih List.not_mem_nil List.not_mem_nil hnil cpu mask
      · next hc hm =>
        refine ih ?_ ?_ (by rw [List.append_assoc, List.singleton_append]; exact hfields) cpuFrom
          mask
        · intro h
          rcases List.mem_append.mp h with h | h
          · exact hcomma h
          · exact hc (List.mem_singleton.mp h).symm
        · intro h
          rcases List.mem_append.mp h with h | h
          · exact hminus h
          · exact hm (List.mem_singleton.mp h).symm

theorem readItems_eq_some {items : List (List (List Char))} {mask mask' : CpuSet} :
    readItems items mask = some mask' ↔
      ∃ ranges, List.Forall₂ (fun item r => readItem (-1) item = some r) items ranges ∧
        mask' = ranges.foldl (fun mask r => osCpuSet mask r.1 r.2) mask := by
  induction items generalizing mask with
  | nil =>
    constructor
    · intro h
      cases h
      exact ⟨[], .nil, rfl⟩
    · rintro ⟨ranges, hranges, rfl⟩
      cases hranges
      rfl
  | cons item items ih =>
    rw [readItems, Option.bind_eq_some_iff]
    constructor
    · rintro ⟨r, hr, hrest⟩
      obtain ⟨ranges, hranges, rfl⟩ := ih.mp hrest
      exact ⟨r :: ranges, .cons hr hranges, rfl⟩
    · rintro ⟨ranges, hranges, rfl⟩
      cases hranges with
      | cons hr hranges => exact ⟨_, hr, ih.mpr ⟨_, hranges, rfl⟩⟩

theorem foldl_osCpuSet (ranges : List (Int × Int)) (mask : CpuSet) (cpu : Int) :
    ranges.foldl (fun mask r => osCpuSet mask r.1 r.2) mask cpu =
      (mask cpu || cpus ranges cpu) := by
  induction ranges generalizing mask with
  | nil => exact (Bool.or_false _).symm
  | cons r ranges ih =>
    rw [List.foldl_cons, ih, osCpuSet_apply, Bool.or_assoc]
    rfl

theorem scanCpus_eq_some {s : List Char} {mask : CpuSet} :
    scanCpus [] s (-1) (fun _ => false) = some mask ↔
      ∃ ranges, ReadsCpus s ranges ∧ mask = cpus ranges := by
  obtain ⟨item, items, hfields⟩ := fields_eq_cons s
  have hnil : fields ([] ++ s) = item :: items := hfields
  rw [scanCpus_eq s List.not_mem_nil List.not_mem_nil hnil]
  change readItems (item :: items) _ = some mask ↔ _
  refine readItems_eq_some.trans (exists_congr fun ranges => ?_)
  have hfold : ranges.foldl (fun mask r => osCpuSet mask r.1 r.2) (fun _ => false) =
      cpus ranges := by
    funext cpu
    rw [foldl_osCpuSet, Bool.false_or]
  rw [ReadsCpus, hfields, hfold]

/-! ## The lists of the grammar -/

theorem readCpu_eq_some {text : List Char} {a : Int} (h : CpuNumber text a) :
    0 ≤ a ∧ readCpu text = some a := by
  obtain ⟨hnumeral, hminus, hlt⟩ := h
  have hnonneg := hnumeral.nonneg hminus
  have hmax : int64Max = 2 ^ 63 - 1 := rfl
  unfold cpuSetsize at hlt
  rw [readCpu, strtol_numeral hnumeral, Option.bind_some]
  exact ⟨hnonneg, int64_of_le hnonneg (by omega)⟩

theorem cpuNumber_of_readCpu {text : List Char} {a : Int} (hread : readCpu text = some a)
    (hnumeral : ∃ n, Numeral text n) (hminus : '-' ∉ text) (hlt : a < cpuSetsize) :
    CpuNumber text a := by
  obtain ⟨n, hn⟩ := hnumeral
  rw [readCpu, strtol_numeral hn, Option.bind_some] at hread
  unfold int64 at hread
  split at hread
  · cases hread
    exact ⟨hn, hminus, hlt⟩
  · cases hread

theorem CpuNumber.comma {text : List Char} {a : Int} (h : CpuNumber text a) : ',' ∉ text :=
  fun hmem => absurd (h.1.chars hmem) (by decide)

theorem CpuItem.reads {text : List Char} {r : Int × Int} (h : CpuItem text r) :
    ',' ∉ text ∧ readItem (-1) (text.splitOn '-') = some r ∧
      (text.splitOn '-').length ≤ 2 ∧ ∀ piece ∈ text.splitOn '-', ∃ n, Numeral piece n := by
  cases h with
  | @single text a hnumber =>
    obtain ⟨hnonneg, hread⟩ := readCpu_eq_some hnumber
    rw [splitOn_of_not_mem hnumber.2.1]
    refine ⟨hnumber.comma, ?_, Nat.le_succ 1, ?_⟩
    · rw [readItem, hread, Option.bind_some, if_pos ⟨by omega, hnumber.2.2⟩, if_pos rfl]
    · intro piece hpiece
      rw [List.mem_singleton.mp hpiece]
      exact ⟨a, hnumber.1⟩
  | @range text text' a b hfirst hlast hle =>
    obtain ⟨hnonneg, hread⟩ := readCpu_eq_some hfirst
    obtain ⟨-, hread'⟩ := readCpu_eq_some hlast
    rw [splitOn_append_cons hfirst.2.1, splitOn_of_not_mem hlast.2.1]
    refine ⟨?_, ?_, le_refl 2, ?_⟩
    · intro hmem
      rcases List.mem_append.mp hmem with hmem | hmem
      · exact hfirst.comma hmem
      · rcases List.mem_cons.mp hmem with hmem | hmem
        · exact absurd hmem (by decide)
        · exact hlast.comma hmem
    · rw [readItem_cons _ _ (List.cons_ne_nil _ _), hread, Option.bind_some, readItem, hread',
        Option.bind_some, if_pos ⟨hle, hlast.2.2⟩, if_neg (by omega)]
    · intro piece hpiece
      rcases List.mem_cons.mp hpiece with rfl | hpiece
      · exact ⟨a, hfirst.1⟩
      · rw [List.mem_singleton.mp hpiece]
        exact ⟨b, hlast.1⟩

theorem cpuItem_of_reads {text : List Char} {r : Int × Int}
    (hread : readItem (-1) (text.splitOn '-') = some r) (hlength : (text.splitOn '-').length ≤ 2)
    (htidy : ∀ piece ∈ text.splitOn '-', ∃ n, Numeral piece n) : CpuItem text r := by
  have hjoin : ['-'].intercalate (text.splitOn '-') = text := List.intercalate_splitOn '-'
  have hfree : ∀ piece ∈ text.splitOn '-', '-' ∉ piece := fun _ => not_mem_of_mem_splitOn
  generalize text.splitOn '-' = pieces at *
  match pieces with
  | [] => cases hread
  | [u] =>
    have htext : text = u := by simpa using hjoin.symm
    subst htext
    obtain ⟨n, hn, hcheck⟩ := Option.bind_eq_some_iff.mp hread
    split at hcheck
    · next hin =>
      rw [if_pos rfl] at hcheck
      cases hcheck
      have hu := List.mem_singleton_self text
      exact .single (cpuNumber_of_readCpu hn (htidy text hu) (hfree text hu) hin.2)
    · cases hcheck
  | [u, v] =>
    have htext : text = u ++ '-' :: v := by simpa using hjoin.symm
    subst htext
    obtain ⟨a, ha, hrest⟩ := Option.bind_eq_some_iff.mp hread
    obtain ⟨b, hb, hcheck⟩ := Option.bind_eq_some_iff.mp hrest
    split at hcheck
    · next hin =>
      have hu : u ∈ [u, v] := List.mem_cons_self
      have hv : v ∈ [u, v] := List.mem_cons_of_mem u List.mem_cons_self
      have hfirst := cpuNumber_of_readCpu ha (htidy u hu) (hfree u hu) (hin.1.trans_lt hin.2)
      have hnonneg := (readCpu_eq_some hfirst).1
      rw [if_neg (by omega)] at hcheck
      cases hcheck
      exact .range hfirst (cpuNumber_of_readCpu hb (htidy v hv) (hfree v hv) hin.2) hin.1
    · cases hcheck
  | _ :: _ :: _ :: _ => simp at hlength

theorem cpuList_iff (s : List Char) (ranges : List (Int × Int)) :
    CpuList s ranges ↔ ReadsCpus s ranges ∧ Tidy s := by
  constructor
  · rintro ⟨items, hne, rfl, hitems⟩
    have hcomma : ∀ item ∈ items, ',' ∉ item := by
      intro item hitem
      obtain ⟨r, -, hr⟩ := forall₂_exists_right hitems hitem
      exact hr.reads.1
    have hfields : fields ([','].intercalate items) = items.map (·.splitOn '-') := by
      rw [fields, List.splitOn_intercalate ',' hcomma hne]
    refine ⟨?_, ?_⟩
    · rw [ReadsCpus, hfields, List.forall₂_map_left_iff]
      exact hitems.imp fun _ _ h => h.reads.2.1
    · intro item hitem
      rw [hfields] at hitem
      obtain ⟨text, htext, rfl⟩ := List.mem_map.mp hitem
      obtain ⟨r, -, hr⟩ := forall₂_exists_right hitems htext
      exact hr.reads.2.2
  · rintro ⟨hreads, htidy⟩
    refine ⟨s.splitOn ',', List.splitOn_ne_nil _ _, (List.intercalate_splitOn ',').symm, ?_⟩
    rw [ReadsCpus, fields, List.forall₂_map_left_iff] at hreads
    have htidy' : ∀ text ∈ s.splitOn ',', (text.splitOn '-').length ≤ 2 ∧
        ∀ piece ∈ text.splitOn '-', ∃ n, Numeral piece n := by
      intro text htext
      exact htidy _ (List.mem_map_of_mem htext)
    refine ((List.forall₂_and_left _ _).mpr ⟨htidy', hreads⟩).imp ?_
    rintro text r ⟨⟨hlength, hpieces⟩, hread⟩
    exact cpuItem_of_reads hread hlength hpieces

/-- The list is accepted exactly if every comma and minus is preceded by a number and the last two
numbers of every item are a range of cpus; the mask is the one of these ranges, and nothing is set
otherwise. The lists of the grammar are those among them that are tidy. -/
theorem affinity_list_iff (c : Char) (cs : List Char) :
    (∀ mask, setAffinityList (fun _ => true) (c :: cs) = (.ok (), some mask) ↔
      ∃ ranges, ReadsCpus (c :: cs) ranges ∧ mask = cpus ranges) ∧
    ((¬ ∃ ranges, ReadsCpus (c :: cs) ranges) →
      setAffinityList (fun _ => true) (c :: cs) = (.error .badArgument, none)) ∧
    (∀ ranges, CpuList (c :: cs) ranges ↔ ReadsCpus (c :: cs) ranges ∧ Tidy (c :: cs)) := by
  unfold setAffinityList
  rw [if_neg (List.cons_ne_nil c cs)]
  refine ⟨fun mask => ?_, fun hnone => ?_, cpuList_iff (c :: cs)⟩
  · rw [← scanCpus_eq_some]
    cases scanCpus [] (c :: cs) (-1) fun _ => false with
    | none => exact iff_of_false nofun nofun
    | some mask' => simp
  · cases hscan : scanCpus [] (c :: cs) (-1) fun _ => false with
    | none => rfl
    | some mask =>
      obtain ⟨ranges, hreads, -⟩ := scanCpus_eq_some.mp hscan
      exact absurd ⟨ranges, hreads⟩ hnone

/-- "1x" is taken for cpu 1, and "1-2-3" for the cpus 2 and 3. -/
theorem untidy_lists_accepted :
    (setAffinityList (fun _ => true) "1x".toList = (.ok (), some (cpus [(1, 1)])) ∧
      ¬ ∃ ranges, CpuList "1x".toList ranges) ∧
    (setAffinityList (fun _ => true) "1-2-3".toList = (.ok (), some (cpus [(2, 3)])) ∧
      ¬ ∃ ranges, CpuList "1-2-3".toList ranges) := by
  have haccepted : ∀ {s : List Char} {ranges : List (Int × Int)}, s ≠ [] → ReadsCpus s ranges →
      setAffinityList (fun _ => true) s = (.ok (), some (cpus ranges)) := by
    intro s ranges hs hreads
    rw [setAffinityList, if_neg hs, scanCpus_eq_some.mpr ⟨ranges, hreads, rfl⟩]
    rfl
  refine ⟨⟨haccepted (by decide) (.cons (by decide) .nil), ?_⟩,
    haccepted (by decide) (.cons (by decide) .nil), ?_⟩
  · rintro ⟨ranges, hlist⟩
    obtain ⟨-, htidy⟩ := (cpuList_iff _ ranges).mp hlist
    obtain ⟨n, hn⟩ := (htidy ["1x".toList] (by decide)).2 "1x".toList (by decide)
    have hstrtol := strtol_numeral hn
    have hcut : strtol "1x".toList = some (1, ['x']) := by decide
    cases hcut.symm.trans hstrtol
  · rintro ⟨ranges, hlist⟩
    obtain ⟨-, htidy⟩ := (cpuList_iff _ ranges).mp hlist
    exact absurd (htidy ["1".toList, "2".toList, "3".toList] (by decide)).1 (by decide)

end Sockperf
