import Sockperf.RecvLooping
import Sockperf.Lib.Machine

/-!
# Messages of random size

`-m` sets the size of the messages and `-r` how far it may differ. The parser of `-m` also lowers
`MAX_PAYLOAD_SIZE` to the size, and `SwitchOnMsgSize` takes that for the longest message.
-/

namespace Sockperf

open Machine
set_option autoImplicit false

def minPayloadSize : Int := 14
/-- `MAX_PAYLOAD_SIZE` before the options are read. -/
def defaultMaxPayloadSize : Int := 65507
def maxTcpSize : Int := 2 ^ 20 - 1
def randMax : Int := 2 ^ 31 - 1

/-! ## The options -/

inductive MsgSizeError where
  /-- "Invalid message size: %s (min: %d)" -/
  | belowMin (min : Int)
  /-- "Invalid message size: %s (max: %d)" -/
  | aboveMax (max : Int)
  /-- "Invalid message range: %s" -/
  | range
  /-- "Invalid value" -/
  | invalidValue
  deriving DecidableEq, Repr

/-- The largest size that `-m` accepts. -/
def protocolMax (tcp : Bool) : Int := if tcp then maxTcpSize else defaultMaxPayloadSize

/-- `-m`: the new `msg_size`, which is the new `MAX_PAYLOAD_SIZE` too. -/
def parseMsgSize (tcp : Bool) (n : Int) : Except MsgSizeError Int :=
  match strtolInt n with
  | none => .error (.belowMin minPayloadSize)
  | some size =>
    if size < minPayloadSize then .error (.belowMin minPayloadSize)
    else if tcp = false ∧ size > defaultMaxPayloadSize then
      .error (.aboveMax defaultMaxPayloadSize)
    else if tcp = true ∧ size > maxTcpSize then .error (.aboveMax maxTcpSize)
    else .ok size

/-- `-r`: the new `msg_size_range`. -/
def parseRange (n : Int) : Except MsgSizeError Int :=
  -- `isNumeric`: digits only
  if n < 0 then .error .invalidValue
  else
    match strtolInt n with
    | none => .error .range
    | some range => if range < 0 then .error .range else .ok range

structure MsgSizeParams where
  maxPayloadSize : Int
  msgSize : Int
  msgSizeRange : Int

/-- After `-m` with the size and `-r` with the range. -/
def MsgSizeParams.given (size range : Int) : MsgSizeParams := ⟨size, size, range⟩

/-- `Message::getMaxSize()` as `bringup` sets it, with the size of a VMA packet descriptor. -/
def MsgSizeParams.maxSize (p : MsgSizeParams) (vmaPktsDescSize : Int) : Int :=
  max (max (p.msgSize + 1) vmaPktsDescSize) p.maxPayloadSize

/-! ## The switch -/

structure SwitchOnMsgSize where
  minMsgSize : Int
  rangeMsgSize : Int
  deriving DecidableEq, Repr

namespace SwitchOnMsgSize

def new (p : MsgSizeParams) : Machine SwitchOnMsgSize := do
  let low ← sint 32 (p.msgSize - p.msgSizeRange)
  let minMsgSize := max minPayloadSize low
  let high ← sint 32 (p.msgSize + p.msgSizeRange)
  let diff ← sint 32 (min p.maxPayloadSize high - minMsgSize)
  let rangeMsgSize ← sint 32 (diff + 1)
  return ⟨minMsgSize, rangeMsgSize⟩

/-- `client_update_msg_size`: the length for a value of `rand()`. -/
def clientUpdateMsgSize (p : MsgSizeParams) (w : SwitchOnMsgSize) (rand : Int) : Machine Int := do
  let offset ← mod rand w.rangeMsgSize
  let size ← sint 32 (w.minMsgSize + offset)
  return min p.maxPayloadSize size

end SwitchOnMsgSize

/-- The length of a message for a value of `rand()`. -/
def MsgSizeParams.length (p : MsgSizeParams) (rand : Int) : Machine Int := do
  let w ← SwitchOnMsgSize.new p
  w.clientUpdateMsgSize p rand

/-! ## The documented range -/

def InRange (longest size range len : Int) : Prop :=
  max 14 (size - range) ≤ len ∧ len ≤ min longest (size + range)

/-- The lengths are those of the documented range, all of them, and fit into the buffer. -/
structure CoversRange (longest vmaPktsDescSize size range : Int) : Prop where
  within : ∀ rand, 0 ≤ rand → rand ≤ randMax →
    ∃ len, Exact ((MsgSizeParams.given size range).length rand) len ∧
      InRange longest size range len ∧
      len ≤ (MsgSizeParams.given size range).maxSize vmaPktsDescSize
  produced : min longest (size + range) - max 14 (size - range) + 1 ≤ randMax + 1 →
    ∀ len, InRange longest size range len → ∃ rand, 0 ≤ rand ∧ rand ≤ randMax ∧
      Exact ((MsgSizeParams.given size range).length rand) len

section Range
variable {tcp : Bool} {n size range rand len : Int}

theorem parseMsgSize_ok (h : parseMsgSize tcp n = .ok size) :
    14 ≤ size ∧ size ≤ protocolMax tcp := by
  unfold parseMsgSize at h
  split at h
  · cases h
  · split at h
    · cases h
    · next hmin =>
      split at h
      · cases h
      · next hudp =>
        split at h
        · cases h
        · next htcp =>
          cases h
          refine ⟨not_lt.mp hmin, ?_⟩
          unfold protocolMax
          cases tcp with
          | false => exact not_lt.mp fun hlt => hudp ⟨rfl, hlt⟩
          | true => exact not_lt.mp fun hlt => htcp ⟨rfl, hlt⟩

theorem strtolInt_lt {n value : Int} (h : strtolInt n = some value) : value < 2 ^ 31 := by
  obtain ⟨wide, -, rfl⟩ := Option.map_eq_some_iff.mp h
  have hlt := Int.bmod_lt (x := wide) (m := 2 ^ 32) (by decide)
  omega

theorem parseRange_ok (h : parseRange n = .ok range) : 0 ≤ range ∧ range < 2 ^ 31 := by
  unfold parseRange at h
  split at h
  · cases h
  · split at h
    · cases h
    · next hvalue =>
      split at h
      · cases h
      · next hneg =>
        cases h
        exact ⟨not_lt.mp hneg, strtolInt_lt hvalue⟩

theorem protocolMax_lt (tcp : Bool) : protocolMax tcp < 2 ^ 21 := by
  cases tcp <;> decide

theorem exact_new {w : SwitchOnMsgSize} (hsize : 14 ≤ size) (hmax : size < 2 ^ 21)
    (hrange : 0 ≤ range) (hlt : range < 2 ^ 31) :
    Exact (SwitchOnMsgSize.new (.given size range)) w ↔
      size + range < 2 ^ 31 ∧ w = ⟨max 14 (size - range), size - max 14 (size - range) + 1⟩ := by
  have hmin : minPayloadSize = 14 := rfl
  unfold SwitchOnMsgSize.new MsgSizeParams.given
  simp only [exact_bind, exact_sint, exact_pure, hmin]
  constructor
  · rintro ⟨_, ⟨-, rfl⟩, _, ⟨hsum, rfl⟩, _, ⟨-, rfl⟩, _, ⟨-, rfl⟩, rfl⟩
    rw [min_eq_left (by omega)]
    exact ⟨hsum.2, rfl⟩
  · rintro ⟨hsum, rfl⟩
    refine ⟨_, ⟨⟨?_, ?_⟩, rfl⟩, _, ⟨⟨?_, hsum⟩, rfl⟩, _, ⟨⟨?_, ?_⟩, rfl⟩, _, ⟨⟨?_, ?_⟩, rfl⟩, ?_⟩
    all_goals first | omega | rw [min_eq_left (by omega)]

theorem exact_clientUpdateMsgSize (hsize : 14 ≤ size) (hmax : size < 2 ^ 21) (hrange : 0 ≤ range)
    (hrand : 0 ≤ rand) :
    Exact (SwitchOnMsgSize.clientUpdateMsgSize (.given size range)
      ⟨max 14 (size - range), size - max 14 (size - range) + 1⟩ rand) len ↔
      len = max 14 (size - range) + rand % (size - max 14 (size - range) + 1) := by
  have hpos : 0 < size - max 14 (size - range) + 1 := by omega
  have hle := Int.emod_nonneg rand hpos.ne'
  have hlt := Int.emod_lt_of_pos rand hpos
  have hmod := Int.tmod_eq_emod_of_nonneg (b := size - max 14 (size - range) + 1) hrand
  unfold SwitchOnMsgSize.clientUpdateMsgSize MsgSizeParams.given
  simp only [exact_bind, exact_mod, exact_sint, exact_pure, hmod]
  generalize rand % (size - max 14 (size - range) + 1) = offset at *
  constructor
  · rintro ⟨_, ⟨-, rfl⟩, _, ⟨-, rfl⟩, rfl⟩
    rw [min_eq_right (by omega)]
  · rintro rfl
    refine ⟨_, ⟨hpos.ne', rfl⟩, _, ⟨⟨?_, ?_⟩, rfl⟩, ?_⟩
    · omega
    · omega
    · rw [min_eq_right (by omega)]

theorem exact_length (hsize : 14 ≤ size) (hmax : size < 2 ^ 21) (hrange : 0 ≤ range)
    (hlt : range < 2 ^ 31) (hrand : 0 ≤ rand) :
    Exact ((MsgSizeParams.given size range).length rand) len ↔ size + range < 2 ^ 31 ∧
      len = max 14 (size - range) + rand % (size - max 14 (size - range) + 1) := by
  unfold MsgSizeParams.length
  rw [exact_bind]
  constructor
  · rintro ⟨w, hnew, hlen⟩
    obtain ⟨hsum, rfl⟩ := (exact_new hsize hmax hrange hlt).mp hnew
    exact ⟨hsum, (exact_clientUpdateMsgSize hsize hmax hrange hrand).mp hlen⟩
  · rintro ⟨hsum, hlen⟩
    exact ⟨_, (exact_new hsize hmax hrange hlt).mpr ⟨hsum, rfl⟩,
      (exact_clientUpdateMsgSize hsize hmax hrange hrand).mpr hlen⟩

/-- Without an overflow a length is met by some value of `rand()` just when it is between the
smallest of the range and the size. -/
theorem length_produced_iff (hsize : 14 ≤ size) (hmax : size < 2 ^ 21) (hrange : 0 ≤ range)
    (hsum : size + range < 2 ^ 31) :
    (∃ rand, 0 ≤ rand ∧ rand ≤ randMax ∧
      Exact ((MsgSizeParams.given size range).length rand) len) ↔
      max 14 (size - range) ≤ len ∧ len ≤ size := by
  have hlt : range < 2 ^ 31 := by omega
  constructor
  · rintro ⟨rand, hrand, -, hlen⟩
    have hpos : 0 < size - max 14 (size - range) + 1 := by omega
    have hle := Int.emod_nonneg rand hpos.ne'
    have hmod := Int.emod_lt_of_pos rand hpos
    obtain ⟨-, rfl⟩ := (exact_length hsize hmax hrange hlt hrand).mp hlen
    constructor
    · omega
    · omega
  · rintro ⟨hlow, hhigh⟩
    have hrandMax : randMax = 2 ^ 31 - 1 := rfl
    refine ⟨len - max 14 (size - range), by omega, by omega, ?_⟩
    apply (exact_length hsize hmax hrange hlt (by omega)).mpr
    refine ⟨hsum, ?_⟩
    rw [Int.emod_eq_of_lt (by omega) (by omega)]
    omega

end Range

/-- The documented range is covered just when the size is the largest there is and the sum with
the range does not overflow. Without an overflow the lengths are those up to the size. -/
theorem covers_range_iff (tcp : Bool) (n m size range vmaPktsDescSize : Int)
    (hsize : parseMsgSize tcp n = .ok size) (hrange : parseRange m = .ok range)
    (hone : 1 ≤ range) :
    (CoversRange (protocolMax tcp) vmaPktsDescSize size range ↔
      size = protocolMax tcp ∧ size + range < 2 ^ 31) ∧
    (size + range < 2 ^ 31 → ∀ len, (∃ rand, 0 ≤ rand ∧ rand ≤ randMax ∧
      Exact ((MsgSizeParams.given size range).length rand) len) ↔
        max 14 (size - range) ≤ len ∧ len ≤ size) := by
  obtain ⟨hmin, hmax⟩ := parseMsgSize_ok hsize
  obtain ⟨hnonneg, hlt⟩ := parseRange_ok hrange
  have hbound := protocolMax_lt tcp
  have hsmall : size < 2 ^ 21 := by omega
  refine ⟨⟨?_, ?_⟩, fun hsum len => length_produced_iff hmin hsmall hnonneg hsum⟩
  · intro hcovers
    have hsum : size + range < 2 ^ 31 := by
      obtain ⟨len, hlen, -⟩ := hcovers.within 0 le_rfl (by decide)
      exact ((exact_length hmin hsmall hnonneg hlt le_rfl).mp hlen).1
    refine ⟨?_, hsum⟩
    by_contra hne
    -- the length after the size is in the range
    have hrandMax : randMax = 2 ^ 31 - 1 := rfl
    have hnext := hcovers.produced (by omega) (size + 1) ⟨by omega, by omega⟩
    have hle := ((length_produced_iff hmin hsmall hnonneg hsum).mp hnext).2
    omega
  · rintro ⟨heq, hsum⟩
    refine ⟨?_, ?_⟩
    · intro rand hrand hrandMax
      refine ⟨_, (exact_length hmin hsmall hnonneg hlt hrand).mpr ⟨hsum, rfl⟩, ?_⟩
      have hbounds := (length_produced_iff hmin hsmall hnonneg hsum).mp
        ⟨rand, hrand, hrandMax, (exact_length hmin hsmall hnonneg hlt hrand).mpr ⟨hsum, rfl⟩⟩
      refine ⟨⟨hbounds.1, by omega⟩, ?_⟩
      exact hbounds.2.trans (le_max_right _ size)
    · intro _ len hin
      apply (length_produced_iff hmin hsmall hnonneg hsum).mpr
      exact ⟨hin.1, by have := hin.2; omega⟩

theorem covers_range_udp :
    CoversRange 65507 0 65507 100 ∧ ¬ CoversRange 65507 0 1000 100 :=
  ⟨(covers_range_iff false 65507 100 65507 100 0 rfl rfl (by decide)).1.mpr
      ⟨rfl, by decide⟩,
    fun h => absurd ((covers_range_iff false 1000 100 1000 100 0 rfl rfl (by decide)).1.mp h).1
      (by decide)⟩

/-- With `-m 1000 -r 100` no message has 1050 bytes, and with `-r 2147483647` the sum is
undefined. -/
theorem range_not_covered :
    parseMsgSize false 1000 = .ok 1000 ∧ parseRange 100 = .ok 100 ∧
    parseRange 2147483647 = .ok 2147483647 ∧ InRange 65507 1000 100 1050 ∧
    (∀ rand, 0 ≤ rand → ¬ Exact ((MsgSizeParams.given 1000 100).length rand) 1050) ∧
    (MsgSizeParams.given 1000 2147483647).length 0 = .undefined := by
  refine ⟨rfl, rfl, rfl, ⟨by decide, by decide⟩, ?_, by decide⟩
  intro rand hrand hlen
  have hlen := (exact_length (by decide) (by decide) (by decide) (by decide) hrand).mp hlen
  have hlt := Int.emod_lt_of_pos rand (b := 1000 - max 14 (1000 - 100) + 1) (by decide)
  have hmax : max (14 : Int) (1000 - 100) = 900 := rfl
  rw [hmax] at hlen hlt
  omega

end Sockperf
