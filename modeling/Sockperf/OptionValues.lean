import Sockperf.Lib.Strtol
import Sockperf.MsgSizes
import Sockperf.Sizing

/-!
# The values of the numeric options

`proc_mode_under_load` and `proc_mode_ping_pong` convert the argument with `strtol` and do not ask
where the conversion stopped. Most of the values are `int`s, so that the upper half of the `long` is
dropped before it is compared with the bounds.
-/

namespace Sockperf

open Strtol
set_option autoImplicit false

/-- The number `strtol(optarg, NULL, 0)` finds, 0 if there is none. -/
def denoted (optarg : List Char) : Int := ((strtol optarg).map Prod.fst).getD 0

inductive NumericError where
  /-- "'-%c' Invalid duration: %s" -/
  | duration
  /-- "'-%c' Invalid burst size: %s" -/
  | burstSize
  /-- "Invalid %d val: %s" -/
  | val
  /-- "'-%c' Invalid number of packets: %s" -/
  | numberOfPackets
  | msgSize (e : MsgSizeError)
  /-- "-n conflicts with -t,--mps options" -/
  | numberConflicts
  /-- "-t conflicts with -n option" -/
  | timeConflicts
  deriving DecidableEq, Repr

structure GivenOptions where
  n : Bool
  t : Bool
  mps : Bool
  tcp : Bool

/-- A value that is converted and compared with its bounds. -/
def checkedValue (convert : Int → Option Int) (invalid : Int → Bool) (e : NumericError)
    (optarg : List Char) : Except NumericError Int :=
  match convert (denoted optarg) with
  | none => .error e
  | some v => if invalid v then .error e else .ok v

/-- `sec_test_duration` -/
def parseDuration (optarg : List Char) : Except NumericError Int :=
  checkedValue strtolInt (fun v => v ≤ 0 || v > maxDuration) .duration optarg

/-- `burst_size` -/
def parseBurst (optarg : List Char) : Except NumericError Int :=
  checkedValue strtolInt (fun v => v < 1) .burstSize optarg

/-- `reply_every` -/
def parseReplyEvery (optarg : List Char) : Except NumericError Int :=
  checkedValue int64 (fun v => v ≤ 0 || v > 1 <<< 30) .val optarg

/-- "MAX" or "max" -/
def IsMax (optarg : List Char) : Prop := optarg = "MAX".toList ∨ optarg = "max".toList

instance (optarg : List Char) : Decidable (IsMax optarg) :=
  inferInstanceAs (Decidable (_ ∨ _))

/-- `mps` -/
def parseMps (optarg : List Char) : Except NumericError Int :=
  if IsMax optarg then .ok uint32Max
  else checkedValue int64 (fun v => v ≤ 0 || v > 1 <<< 30) .val optarg

/-- `msg_size` -/
def parseSize (given : GivenOptions) (optarg : List Char) : Except NumericError Int :=
  (parseMsgSize given.tcp (denoted optarg)).mapError .msgSize

/-- `number_test_target`, in ping-pong mode -/
def parseNumber (given : GivenOptions) (optarg : List Char) : Except NumericError Int :=
  if given.t = false ∧ given.mps = false then
    checkedValue strtolInt (fun v => v ≤ 0 || v > maxPacketNumber) .numberOfPackets optarg
  else .error .numberConflicts

/-- `sec_test_duration`, in ping-pong mode -/
def parsePingPongDuration (given : GivenOptions) (optarg : List Char) :
    Except NumericError Int :=
  if given.n = false then parseDuration optarg else .error .timeConflicts

inductive NumericOption where
  | underLoadTime
  | underLoadBurst
  | underLoadMsgSize
  | replyEvery
  | mps
  | pingPongTime
  | pingPongNumber
  | pingPongBurst
  | pingPongMsgSize
  deriving DecidableEq, Repr

namespace NumericOption

def parse (given : GivenOptions) (optarg : List Char) : NumericOption → Except NumericError Int
  | underLoadTime => parseDuration optarg
  | underLoadBurst => parseBurst optarg
  | underLoadMsgSize => parseSize given optarg
  | replyEvery => parseReplyEvery optarg
  | mps => parseMps optarg
  | pingPongTime => parsePingPongDuration given optarg
  | pingPongNumber => parseNumber given optarg
  | pingPongBurst => parseBurst optarg
  | pingPongMsgSize => parseSize given optarg

/-! ## What the options are for -/

def conflicts (given : GivenOptions) : NumericOption → Bool
  | pingPongTime => given.n
  | pingPongNumber => given.t || given.mps
  | _ => false

def low : NumericOption → Int
  | underLoadMsgSize | pingPongMsgSize => 14
  | _ => 1

/-- For `-b` there is only the bound of the parameter. -/
def high (given : GivenOptions) : NumericOption → Int
  | underLoadTime | pingPongTime => 36000000
  | underLoadBurst | pingPongBurst => 2 ^ 31 - 1
  | underLoadMsgSize | pingPongMsgSize => protocolMax given.tcp
  | replyEvery | mps => 2 ^ 30
  | pingPongNumber => 100000000

def InRange (given : GivenOptions) (o : NumericOption) (v : Int) : Prop :=
  o.low ≤ v ∧ v ≤ o.high given

/-- The argument means `v`, and `v` may be given. -/
def Means (given : GivenOptions) (o : NumericOption) (optarg : List Char) (v : Int) : Prop :=
  o = mps ∧ IsMax optarg ∧ v = uint32Max ∨ Numeral optarg v ∧ o.InRange given v

/-- The type of `value`, which `strtol` is assigned to. -/
def convert : NumericOption → Int → Option Int
  | replyEvery | mps => int64
  | _ => strtolInt

/-- The argument is a number as a whole, and one that `value` can hold. -/
def Whole (o : NumericOption) (optarg : List Char) : Prop :=
  o = mps ∧ IsMax optarg ∨ ∃ n, Numeral optarg n ∧ o.convert n = some n

variable {given : GivenOptions} {optarg : List Char} {v n : Int} {o : NumericOption}

theorem checkedValue_ok {convert : Int → Option Int} {invalid : Int → Bool} {e : NumericError} :
    checkedValue convert invalid e optarg = .ok v ↔
      convert (denoted optarg) = some v ∧ invalid v = false := by
  unfold checkedValue
  split
  · next h => simp [h]
  · next w h =>
    rw [h, Option.some_inj]
    split
    · next hinvalid =>
      refine iff_of_false nofun ?_
      rintro ⟨rfl, hvalid⟩
      cases hinvalid.symm.trans hvalid
    · next hvalid =>
      rw [Bool.not_eq_true] at hvalid
      constructor
      · intro heq
        cases heq
        exact ⟨rfl, hvalid⟩
      · rintro ⟨rfl, -⟩
        rfl

theorem outside_eq_false {limit : Int} :
    (decide (v ≤ 0) || decide (v > limit)) = false ↔ 1 ≤ v ∧ v ≤ limit := by
  rw [Bool.or_eq_false_iff, decide_eq_false_iff_not, decide_eq_false_iff_not]
  omega

theorem parseDuration_ok : parseDuration optarg = .ok v ↔
    strtolInt (denoted optarg) = some v ∧ 1 ≤ v ∧ v ≤ 36000000 := by
  rw [parseDuration, checkedValue_ok, outside_eq_false]
  rfl

theorem parseBurst_ok : parseBurst optarg = .ok v ↔
    strtolInt (denoted optarg) = some v ∧ 1 ≤ v ∧ v ≤ 2 ^ 31 - 1 := by
  rw [parseBurst, checkedValue_ok, decide_eq_false_iff_not]
  constructor
  · rintro ⟨hvalue, hlow⟩
    have hhigh := strtolInt_lt hvalue
    exact ⟨hvalue, by omega, by omega⟩
  · rintro ⟨hvalue, hlow, -⟩
    exact ⟨hvalue, by omega⟩

theorem parseMsgSize_iff {tcp : Bool} :
    parseMsgSize tcp n = .ok v ↔ strtolInt n = some v ∧ 14 ≤ v ∧ v ≤ protocolMax tcp := by
  constructor
  · intro h
    refine ⟨?_, parseMsgSize_ok h⟩
    unfold parseMsgSize at h
    split at h
    · cases h
    · next w hw =>
      split at h
      · cases h
      · split at h
        · cases h
        · split at h
          · cases h
          · cases h
            exact hw
  · rintro ⟨hvalue, hlow, hhigh⟩
    unfold parseMsgSize
    have hmin : ¬ v < minPayloadSize := not_lt.mpr hlow
    rw [hvalue]
    dsimp only
    rw [if_neg hmin]
    cases tcp with
    | false => rw [if_neg (fun h => not_lt.mpr hhigh h.2), if_neg nofun]
    | true => rw [if_neg nofun, if_neg (fun h => not_lt.mpr hhigh h.2)]

theorem parseSize_ok : parseSize given optarg = .ok v ↔
    strtolInt (denoted optarg) = some v ∧ 14 ≤ v ∧ v ≤ protocolMax given.tcp := by
  rw [← parseMsgSize_iff, parseSize]
  cases parseMsgSize given.tcp (denoted optarg) with
  | error e => exact iff_of_false nofun nofun
  | ok w => rw [Except.mapError, Except.ok.injEq, Except.ok.injEq]

theorem parseNumber_ok : parseNumber given optarg = .ok v ↔
    (given.t || given.mps) = false ∧
      strtolInt (denoted optarg) = some v ∧ 1 ≤ v ∧ v ≤ 100000000 := by
  unfold parseNumber
  rw [Bool.or_eq_false_iff]
  split
  · next hfree =>
    rw [checkedValue_ok, outside_eq_false]
    exact (and_iff_right hfree).symm
  · next hgiven => exact iff_of_false nofun fun h => hgiven h.1

theorem parsePingPongDuration_ok : parsePingPongDuration given optarg = .ok v ↔
    given.n = false ∧ strtolInt (denoted optarg) = some v ∧ 1 ≤ v ∧ v ≤ 36000000 := by
  unfold parsePingPongDuration
  split
  · next hfree =>
    rw [parseDuration_ok]
    exact (and_iff_right hfree).symm
  · next hgiven => exact iff_of_false nofun fun h => hgiven h.1

/-- What is stored: the value that was converted, if it is in the range. -/
def Stores (given : GivenOptions) (o : NumericOption) (optarg : List Char) (v : Int) : Prop :=
  if o = mps ∧ IsMax optarg then v = uint32Max
  else o.convert (denoted optarg) = some v ∧ o.InRange given v

theorem stores_iff (ho : o ≠ mps) : Stores given o optarg v ↔
    o.convert (denoted optarg) = some v ∧ o.InRange given v := by
  rw [Stores, if_neg fun h => ho h.1]

theorem parse_ok_iff :
    o.parse given optarg = .ok v ↔ o.conflicts given = false ∧ Stores given o optarg v := by
  cases o with
  | underLoadTime =>
    rw [stores_iff (o := underLoadTime) nofun]
    exact parseDuration_ok.trans (and_iff_right rfl).symm
  | underLoadBurst =>
    rw [stores_iff (o := underLoadBurst) nofun]
    exact parseBurst_ok.trans (and_iff_right rfl).symm
  | underLoadMsgSize =>
    rw [stores_iff (o := underLoadMsgSize) nofun]
    exact parseSize_ok.trans (and_iff_right rfl).symm
  | replyEvery =>
    rw [stores_iff (o := replyEvery) nofun]
    change parseReplyEvery optarg = .ok v ↔ _
    rw [parseReplyEvery, checkedValue_ok, outside_eq_false]
    exact (and_iff_right rfl).symm
  | mps =>
    change parseMps optarg = .ok v ↔ _
    refine Iff.trans ?_ (and_iff_right rfl).symm
    rw [parseMps, Stores]
    by_cases hmax : IsMax optarg
    · rw [if_pos hmax, if_pos ⟨rfl, hmax⟩, Except.ok.injEq]
      exact eq_comm
    · rw [if_neg hmax, if_neg fun h => hmax h.2, checkedValue_ok, outside_eq_false]
      exact Iff.rfl
  | pingPongTime =>
    rw [stores_iff (o := pingPongTime) nofun]
    exact parsePingPongDuration_ok
  | pingPongNumber =>
    rw [stores_iff (o := pingPongNumber) nofun]
    exact parseNumber_ok
  | pingPongBurst =>
    rw [stores_iff (o := pingPongBurst) nofun]
    exact parseBurst_ok.trans (and_iff_right rfl).symm
  | pingPongMsgSize =>
    rw [stores_iff (o := pingPongMsgSize) nofun]
    exact parseSize_ok.trans (and_iff_right rfl).symm

/-! ## What is stored is what was typed -/

theorem denoted_numeral (h : Numeral optarg n) : denoted optarg = n := by
  rw [denoted, strtol_numeral h]
  rfl

theorem not_numeral_of_isMax (h : IsMax optarg) : ¬ Numeral optarg n := by
  intro hnumeral
  have hnone : strtol optarg = none := by
    rcases h with rfl | rfl <;> decide
  cases hnone.symm.trans (strtol_numeral hnumeral)

theorem strtolInt_self (hlow : -2 ^ 31 ≤ v) (hhigh : v < 2 ^ 31) : strtolInt v = some v := by
  have hint64 : int64 v = some v := by
    have hmax : int64Max = 2 ^ 63 - 1 := rfl
    exact if_pos ⟨by omega, by omega⟩
  rw [strtolInt, hint64, Option.map_some, Int.bmod_eq_of_le (by omega) (by omega)]

theorem convert_of_inRange (h : o.InRange given v) : o.convert v = some v := by
  obtain ⟨hlow, hhigh⟩ := h
  have hsize := protocolMax_lt given.tcp
  have hmax : int64Max = 2 ^ 63 - 1 := rfl
  cases o <;> dsimp only [low, high] at hlow hhigh
  case replyEvery => exact int64_of_le (by omega) (by omega)
  case mps => exact int64_of_le (by omega) (by omega)
  all_goals exact strtolInt_self (by omega) (by omega)

theorem parse_of_means (hfree : o.conflicts given = false) (h : o.Means given optarg v) :
    o.parse given optarg = .ok v := by
  refine parse_ok_iff.mpr ⟨hfree, ?_⟩
  unfold Stores
  rcases h with ⟨rfl, hmax, rfl⟩ | ⟨hnumeral, hrange⟩
  · rw [if_pos ⟨rfl, hmax⟩]
  · rw [if_neg fun h => not_numeral_of_isMax h.2 hnumeral, denoted_numeral hnumeral]
    exact ⟨convert_of_inRange hrange, hrange⟩

theorem means_iff_whole (h : Stores given o optarg v) :
    o.Means given optarg v ↔ o.Whole optarg := by
  unfold Stores at h
  constructor
  · rintro (⟨rfl, hmax, -⟩ | ⟨hnumeral, hrange⟩)
    · exact Or.inl ⟨rfl, hmax⟩
    · exact Or.inr ⟨v, hnumeral, convert_of_inRange hrange⟩
  · rintro (⟨rfl, hmax⟩ | ⟨n, hnumeral, hholds⟩)
    · rw [if_pos ⟨rfl, hmax⟩] at h
      exact Or.inl ⟨rfl, hmax, h⟩
    · rw [if_neg fun h => not_numeral_of_isMax h.2 hnumeral, denoted_numeral hnumeral, hholds] at h
      obtain ⟨heq, hrange⟩ := h
      cases heq
      exact Or.inr ⟨hnumeral, hrange⟩

end NumericOption

open NumericOption

/-- An argument that means a number of the range is accepted, and stored as that number. A value
that is accepted is in the range; it is what the argument means exactly if the argument is a number
as a whole and `value` can hold it. -/
theorem numeric_options_iff (o : NumericOption) (given : GivenOptions) (optarg : List Char)
    (v : Int) :
    (o.conflicts given = false → o.Means given optarg v → o.parse given optarg = .ok v) ∧
    (o.parse given optarg = .ok v →
      (o = .mps ∧ IsMax optarg ∨ o.InRange given v) ∧
      (o.Means given optarg v ↔ o.Whole optarg)) := by
  refine ⟨parse_of_means, fun h => ?_⟩
  have hstores := (parse_ok_iff.mp h).2
  refine ⟨?_, means_iff_whole hstores⟩
  unfold Stores at hstores
  split at hstores
  · next hmax => exact Or.inl hmax
  · exact Or.inr hstores.2

def noOptions : GivenOptions := ⟨false, false, false, false⟩

/-- "-t 4294967297" runs for one second, and "-t 10abc" for ten. -/
theorem duration_narrowed_and_cut :
    (NumericOption.underLoadTime.parse noOptions "4294967297".toList = .ok 1 ∧
      ¬ NumericOption.underLoadTime.Means noOptions "4294967297".toList 1) ∧
    (NumericOption.underLoadTime.parse noOptions "10abc".toList = .ok 10 ∧
      ¬ NumericOption.underLoadTime.Means noOptions "10abc".toList 10) := by
  refine ⟨⟨by decide, ?_⟩, ⟨by decide, ?_⟩⟩
  · rintro (⟨h, -⟩ | ⟨hnumeral, -⟩)
    · cases h
    · exact absurd hnumeral (by decide)
  · rintro (⟨h, -⟩ | ⟨hnumeral, -⟩)
    · cases h
    · exact absurd hnumeral (by decide)

end Sockperf
