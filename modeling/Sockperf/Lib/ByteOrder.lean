import Mathlib.Data.List.Basic
import Mathlib.Tactic.Ring

/-!
# Little-endian images of naturals

A natural below `256 ^ w` and its `w` bytes, least significant byte first. The
two directions are mutually inverse, so reversing the image is an involution on
the values: this is what a byte swap of a fixed-width integer does.
-/

namespace Sockperf.ByteOrder

set_option autoImplicit false

/-- The low `w` bytes of `n`, least significant first. -/
def image : Nat → Nat → List UInt8
  | 0, _ => []
  | w+1, n => UInt8.ofNat n :: image w (n / 256)

/-- The number whose little-endian image is the given list. -/
def value (bs : List UInt8) : Nat := bs.foldr (fun b n => b.toNat + 256 * n) 0

@[simp] theorem value_nil : value [] = 0 := rfl

@[simp] theorem value_cons (b : UInt8) (bs : List UInt8) :
    value (b :: bs) = b.toNat + 256 * value bs := rfl

@[simp] theorem image_length (w n : Nat) : (image w n).length = w := by
  induction w generalizing n with
  | zero => rfl
  | succ w ih => simp [image, ih]

theorem value_lt (bs : List UInt8) : value bs < 256 ^ bs.length := by
  induction bs with
  | nil => simp
  | cons b bs ih =>
    have hb : b.toNat < 256 := b.toNat_lt
    have hpow : 256 ^ (bs.length + 1) = 256 * 256 ^ bs.length := by ring
    rw [value_cons, List.length_cons, hpow]
    omega

theorem value_image {w n : Nat} (h : n < 256 ^ w) : value (image w n) = n := by
  induction w generalizing n with
  | zero =>
    have hn : n = 0 := by simpa using h
    simp [image, hn]
  | succ w ih =>
    have hpow : 256 ^ (w + 1) = 256 * 256 ^ w := by ring
    have hq : n / 256 < 256 ^ w := by
      rw [hpow] at h
      omega
    rw [image, value_cons, ih hq, UInt8.toNat_ofNat']
    omega

theorem image_value (bs : List UInt8) : image bs.length (value bs) = bs := by
  induction bs with
  | nil => rfl
  | cons b bs ih =>
    have hb : b.toNat < 256 := b.toNat_lt
    have hdiv : value (b :: bs) / 256 = value bs := by
      rw [value_cons]
      omega
    have hlow : UInt8.ofNat (value (b :: bs)) = b := by
      apply UInt8.toNat_inj.mp
      rw [UInt8.toNat_ofNat', value_cons]
      omega
    rw [List.length_cons, image, hdiv, ih, hlow]

theorem image_add (w k n : Nat) : image (w + k) n = image w n ++ image k (n / 256 ^ w) := by
  induction w generalizing n with
  | zero => simp [image]
  | succ w ih =>
    rw [Nat.add_right_comm, image, image, ih, Nat.div_div_eq_div_mul, Nat.pow_succ',
      List.cons_append]

theorem image_inj {w n k : Nat} (hn : n < 256 ^ w) (hk : k < 256 ^ w) (h : image w n = image w k) :
    n = k := by
  rw [← value_image hn, ← value_image hk, h]

theorem value_image_mod (w n : Nat) : value (image w n) = n % 256 ^ w := by
  induction w generalizing n with
  | zero => simp [image, Nat.mod_one]
  | succ w ih =>
    have hlow : (UInt8.ofNat n).toNat = n % 256 := UInt8.toNat_ofNat'
    rw [image, value_cons, ih, hlow, Nat.pow_succ', Nat.mod_mul]

theorem image_mod (w n : Nat) : image w (n % 256 ^ w) = image w n := by
  have h := image_value (image w n)
  rwa [image_length, value_image_mod] at h

/-- The value with the order of its `w` bytes reversed. -/
def swap (w n : Nat) : Nat := value (image w n).reverse

theorem swap_lt (w n : Nat) : swap w n < 256 ^ w := by
  simpa [swap] using value_lt (image w n).reverse

@[simp] theorem image_swap (w n : Nat) : image w (swap w n) = (image w n).reverse := by
  have h := image_value (image w n).reverse
  simpa [swap] using h

theorem swap_swap {w n : Nat} (h : n < 256 ^ w) : swap w (swap w n) = n := by
  conv_lhs => rw [swap]
  rw [image_swap, List.reverse_reverse, value_image h]

theorem swap_eight_ge {n : Nat} (hpos : 0 < n) (hlt : n < 2 ^ 32) : 2 ^ 32 ≤ swap 8 n := by
  simp only [swap, image, List.reverse_cons, List.reverse_nil, List.nil_append, List.cons_append,
    value_cons, value_nil, UInt8.toNat_ofNat', Nat.div_div_eq_div_mul]
  omega

end Sockperf.ByteOrder
