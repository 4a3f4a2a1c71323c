import Sockperf.Message

/-!
# The wire format of the platforms

`os_abstract.h` defines `htonll` and `ntohll` in the branches of Linux and FreeBSD. On FreeBSD they
are `htonl` and `ntohl`, which take and return 32 bits.
-/

namespace Sockperf

open ByteOrder
set_option autoImplicit false

/-- The branches of `os_abstract.h` that define `htonll` themselves. -/
inductive Platform where
  | linux
  | freeBSD
  deriving DecidableEq, Repr

namespace Platform

/-- `htonll`, and `ntohll` too. -/
def htonll : Platform → UInt64 → UInt64
  | linux, x => Sockperf.htonll x
  | freeBSD, x => (htonl x.toUInt32).toUInt64

end Platform

namespace MsgHeader

/-- `MsgHeader::hton` -/
def htonOn (p : Platform) (h : MsgHeader) : MsgHeader :=
  ⟨p.htonll h.sequenceNumber, htons h.flags, htonl h.length⟩

/-- `MsgHeader::ntoh` -/
def ntohOn (p : Platform) (h : MsgHeader) : MsgHeader :=
  ⟨p.htonll h.sequenceNumber, htons h.flags, htonl h.length⟩

/-- The fields one after the other, the most significant byte of each first. -/
def wire (h : MsgHeader) : List UInt8 :=
  (image 8 h.sequenceNumber.toNat).reverse ++
    ((image 2 h.flags.toNat).reverse ++ (image 4 h.length.toNat).reverse)

end MsgHeader

/-! ## The sequence number -/

theorem toNat_htonll_freeBSD (x : UInt64) :
    (Platform.freeBSD.htonll x).toNat = swap 4 (x.toNat % 2 ^ 32) := by
  unfold Platform.htonll
  rw [UInt32.toNat_toUInt64, toNat_htonl, UInt64.toNat_toUInt32]

theorem image_htonll_freeBSD (x : UInt64) :
    image 8 (Platform.freeBSD.htonll x).toNat =
      (image 4 (x.toNat % 2 ^ 32)).reverse ++ image 4 0 := by
  have hlt := swap_lt 4 (x.toNat % 2 ^ 32)
  rw [toNat_htonll_freeBSD, image_add 4 4, image_swap, Nat.div_eq_of_lt hlt]

theorem image_eight_reverse (n : Nat) :
    (image 8 n).reverse = (image 4 (n / 2 ^ 32)).reverse ++ (image 4 (n % 2 ^ 32)).reverse := by
  rw [image_add 4 4, List.reverse_append]
  congr 2
  exact (image_mod 4 n).symm

theorem image_htonll_freeBSD_iff (x : UInt64) :
    image 8 (Platform.freeBSD.htonll x).toNat = (image 8 x.toNat).reverse ↔ x = 0 := by
  have hx := x.toNat_lt
  rw [image_htonll_freeBSD, image_eight_reverse]
  constructor
  · intro h
    obtain ⟨hhigh, hlow⟩ := List.append_inj h (by simp)
    have hhigh' := image_inj (w := 4) (Nat.mod_lt _ (by decide)) (by omega)
      (List.reverse_injective hhigh)
    have hlow' := image_inj (w := 4) (by decide) (Nat.mod_lt _ (by decide))
      (show image 4 0 = image 4 (x.toNat % 2 ^ 32) by
        rw [← List.reverse_reverse (image 4 (x.toNat % 2 ^ 32)), ← hlow]
        rfl)
    apply UInt64.toNat_inj.mp
    change x.toNat = 0
    omega
  · rintro rfl
    rfl

theorem toNat_freeBSD_linux (x : UInt64) :
    (Platform.freeBSD.htonll (htonll x)).toNat = x.toNat / 2 ^ 32 := by
  have hx := x.toNat_lt
  have hhalf : swap 8 x.toNat % 2 ^ 32 = swap 4 (x.toNat / 2 ^ 32) := by
    apply image_inj (w := 4) (Nat.mod_lt _ (by decide)) (swap_lt 4 _)
    have hbytes := image_swap 8 x.toNat
    rw [image_eight_reverse, image_add 4 4] at hbytes
    rw [image_swap]
    exact (image_mod 4 _).trans (List.append_inj_left hbytes (by simp))
  rw [toNat_htonll_freeBSD, toNat_htonll, hhalf, swap_swap (by omega)]

theorem toNat_freeBSD_freeBSD (x : UInt64) :
    (Platform.freeBSD.htonll (Platform.freeBSD.htonll x)).toNat = x.toNat % 2 ^ 32 := by
  have hlt : swap 4 (x.toNat % 2 ^ 32) < 2 ^ 32 := swap_lt 4 _
  rw [toNat_htonll_freeBSD, toNat_htonll_freeBSD, Nat.mod_eq_of_lt hlt,
    swap_swap (show x.toNat % 2 ^ 32 < 256 ^ 4 from Nat.mod_lt _ (by decide))]

/-! ## Headers -/

/-- The numbers that `receiver` reads as `sender` meant them. -/
def Platform.Carries (x : UInt64) : (sender receiver : Platform) → Prop
  | .linux, .linux => True
  | .freeBSD, .freeBSD => x.toNat < 2 ^ 32
  | .linux, .freeBSD => x = 0
  | .freeBSD, .linux => x = 0

theorem Platform.htonll_htonll_iff (sender receiver : Platform) (x : UInt64) :
    receiver.htonll (sender.htonll x) = x ↔ Carries x sender receiver := by
  have hx := x.toNat_lt
  rw [← UInt64.toNat_inj]
  cases sender with
  | linux =>
    cases receiver with
    | linux => exact iff_of_true (by rw [Platform.htonll, Platform.htonll, htonll_htonll]) trivial
    | freeBSD =>
      change _ ↔ x = 0
      rw [show Platform.linux.htonll x = Sockperf.htonll x from rfl, toNat_freeBSD_linux,
        ← UInt64.toNat_inj]
      change _ ↔ x.toNat = 0
      omega
  | freeBSD =>
    cases receiver with
    | linux =>
      change _ ↔ x = 0
      rw [← image_htonll_freeBSD_iff, ← image_swap, UInt64.toNat_inj]
      constructor
      · intro h
        rw [← toNat_htonll]
        conv_rhs => rw [← h]
        change _ = image 8 (Sockperf.htonll (Sockperf.htonll _)).toNat
        rw [htonll_htonll]
      · intro h
        have heq := image_inj (UInt64.toNat_lt _) (swap_lt 8 _) h
        rw [← toNat_htonll, UInt64.toNat_inj] at heq
        rw [heq]
        exact htonll_htonll x
    | freeBSD =>
      change _ ↔ x.toNat < 2 ^ 32
      rw [toNat_freeBSD_freeBSD]
      omega

namespace MsgHeader
variable (h : MsgHeader)

theorem decoded_iff (sender receiver : Platform) :
    (ofBytes (h.htonOn sender).bytes).ntohOn receiver = h ↔
      Platform.Carries h.sequenceNumber sender receiver := by
  rw [ofBytes_bytes, ← Platform.htonll_htonll_iff]
  constructor
  · intro heq
    exact congrArg MsgHeader.sequenceNumber heq
  · intro hseq
    exact eq_mk hseq (htons_htons _) (htonl_htonl _)

theorem bytes_iff (p : Platform) :
    (h.htonOn p).bytes = h.wire ↔ p = .linux ∨ h.sequenceNumber = 0 := by
  have hflags : image 2 (htons h.flags).toNat = (image 2 h.flags.toNat).reverse := by
    rw [toNat_htons, image_swap]
  have hlength : image 4 (htonl h.length).toNat = (image 4 h.length.toNat).reverse := by
    rw [toNat_htonl, image_swap]
  unfold bytes wire htonOn
  dsimp only
  rw [hflags, hlength, List.append_left_inj]
  cases p with
  | linux =>
    refine iff_of_true ?_ (Or.inl rfl)
    change image 8 (Sockperf.htonll h.sequenceNumber).toNat = _
    rw [toNat_htonll, image_swap]
  | freeBSD =>
    rw [image_htonll_freeBSD_iff]
    exact (or_iff_right (by decide)).symm

end MsgHeader

/-- A header is on the wire in network order exactly when the sender is not a FreeBSD host or the
sequence number is 0. A FreeBSD host understands itself below 2^32, two hosts of different
platforms understand each other only at the number 0. -/
theorem wire_format_iff (h : MsgHeader) (sender receiver : Platform) :
    ((h.htonOn sender).ntohOn sender = h ↔
      sender = .linux ∨ h.sequenceNumber.toNat < 2 ^ 32) ∧
    ((h.htonOn sender).bytes = h.wire ↔ sender = .linux ∨ h.sequenceNumber = 0) ∧
    ((MsgHeader.ofBytes (h.htonOn sender).bytes).ntohOn receiver = h ↔
      Platform.Carries h.sequenceNumber sender receiver) := by
  refine ⟨?_, h.bytes_iff sender, h.decoded_iff sender receiver⟩
  have hself := h.decoded_iff sender sender
  rw [MsgHeader.ofBytes_bytes] at hself
  rw [hself]
  cases sender with
  | linux => exact iff_of_true trivial (Or.inl rfl)
  | freeBSD => exact (or_iff_right (by decide)).symm

/-- The number 1 leaves a FreeBSD host as 2^32. -/
theorem freeBSD_sends_one_as_two_pow :
    let h : MsgHeader := ⟨1, 1, 14⟩
    (h.htonOn .freeBSD).ntohOn .freeBSD = h ∧
    (h.htonOn .freeBSD).bytes = [0, 0, 0, 1, 0, 0, 0, 0, 0, 1, 0, 0, 0, 14] ∧
    h.wire = [0, 0, 0, 0, 0, 0, 0, 1, 0, 1, 0, 0, 0, 14] ∧
    (MsgHeader.ofBytes (h.htonOn .freeBSD).bytes).ntohOn .linux = ⟨4294967296, 1, 14⟩ ∧
    (MsgHeader.ofBytes (h.htonOn .linux).bytes).ntohOn .freeBSD = ⟨0, 1, 14⟩ := by
  decide

end Sockperf
