import Mathlib

/-!
# Big-endian numbers

Numbers written in a fixed number of bytes, most significant byte first, compare
bytewise like the numbers themselves.

## Key results

- `compare_encode`: the bytewise order of encodings is the order of the numbers
- `decode_encode`: a number is read back if it fits
-/

namespace BigEndian

/-- The last `width` bytes of a number, most significant first. -/
def encode : Nat → Nat → List UInt8
  | 0, _ => []
  | width + 1, n => UInt8.ofNat (n / 256 ^ width) :: encode width n

theorem compare_byte (a b : UInt8) : compare a b = compare a.toNat b.toNat := by
  show compareOfLessAndEq a b = compareOfLessAndEq a.toNat b.toNat
  simp [compareOfLessAndEq, UInt8.lt_iff_toNat_lt, ← UInt8.toNat_inj]

/-- Two-digit numbers compare by their first digit, then by their second. -/
theorem compare_digits {base p q r s : Nat} (hr : r < base) (hs : s < base) :
    compare (base * p + r) (base * q + s) = (compare p q).then (compare r s) := by
  -- first digits that differ count for more than any second digit
  rcases Nat.lt_trichotomy p q with hlt | rfl | hgt
  · have hle : base * (p + 1) ≤ base * q := Nat.mul_le_mul_left base hlt
    rw [Nat.compare_eq_lt.mpr hlt, Nat.compare_eq_lt.mpr (by rw [Nat.mul_succ] at hle; omega)]
    rfl
  · rw [Nat.compare_eq_eq.mpr rfl, Ordering.eq_then]
    show compareOfLessAndEq (base * p + r) (base * p + s) = compareOfLessAndEq r s
    simp [compareOfLessAndEq]
  · have hle : base * (q + 1) ≤ base * p := Nat.mul_le_mul_left base hgt
    rw [Nat.compare_eq_gt.mpr hgt, Nat.compare_eq_gt.mpr (by rw [Nat.mul_succ] at hle; omega)]
    rfl

/-- The first byte of a number, and the others. -/
private theorem mod_pow_succ (width n : Nat) : n % 256 ^ (width + 1) =
    256 ^ width * (n / 256 ^ width % 256) + n % 256 ^ width := by
  rw [pow_succ, Nat.mod_mul]
  omega

/-- Encodings compare like what fits of the numbers. -/
theorem compare_encode_mod (width a b : Nat) :
    compare (encode width a) (encode width b) = compare (a % 256 ^ width) (b % 256 ^ width) := by
  induction width with
  | zero => simp [encode, Nat.mod_one]
  | succ width ih =>
    have hpos : 0 < 256 ^ width := by positivity
    rw [encode, encode, List.compare_cons_cons, ih, compare_byte, UInt8.toNat_ofNat',
      UInt8.toNat_ofNat', mod_pow_succ, mod_pow_succ,
      compare_digits (Nat.mod_lt _ hpos) (Nat.mod_lt _ hpos)]

/-- The bytewise order of encodings is the order of the numbers. -/
theorem compare_encode {width a b : Nat} (ha : a < 256 ^ width) (hb : b < 256 ^ width) :
    compare (encode width a) (encode width b) = compare a b := by
  rw [compare_encode_mod, Nat.mod_eq_of_lt ha, Nat.mod_eq_of_lt hb]

/-! ## Decoding -/

/-- The number with these bytes, most significant first. -/
def decode : List UInt8 → Nat
  | [] => 0
  | b :: bs => b.toNat * 256 ^ bs.length + decode bs

@[simp] theorem length_encode (width n : Nat) : (encode width n).length = width := by
  induction width with
  | zero => rfl
  | succ width ih => rw [encode, List.length_cons, ih]

theorem decode_lt (bs : List UInt8) : decode bs < 256 ^ bs.length := by
  induction bs with
  | nil => simp [decode]
  | cons b bs ih =>
    have hbyte := b.toNat_lt
    have hle : (b.toNat + 1) * 256 ^ bs.length ≤ 256 * 256 ^ bs.length :=
      Nat.mul_le_mul_right _ (by omega)
    rw [decode, List.length_cons, pow_succ]
    rw [Nat.succ_mul] at hle
    omega

theorem decode_encode_mod (width n : Nat) : decode (encode width n) = n % 256 ^ width := by
  induction width with
  | zero => simp [encode, decode, Nat.mod_one]
  | succ width ih =>
    rw [encode, decode, length_encode, ih, UInt8.toNat_ofNat', mod_pow_succ,
      Nat.mul_comm (256 ^ width)]

/-- A number is read back if it fits. -/
theorem decode_encode {width n : Nat} (hn : n < 256 ^ width) : decode (encode width n) = n := by
  rw [decode_encode_mod, Nat.mod_eq_of_lt hn]

theorem encode_injective {width a b : Nat} (ha : a < 256 ^ width) (hb : b < 256 ^ width)
    (heq : encode width a = encode width b) : a = b := by
  rw [← decode_encode ha, heq, decode_encode hb]

end BigEndian
