import Mathlib.Algebra.GroupWithZero.Nat

/-!
# Little-endian numbers

A number as a fixed number of bytes, the least significant one first.
-/

namespace WasmExtensions

namespace LittleEndian

/-- The `width` low bytes of a number. -/
def encode : ℕ → ℕ → List UInt8
  | 0, _ => []
  | width + 1, n => UInt8.ofNat n :: encode width (n / 256)

/-- The number with these bytes. -/
def decode : List UInt8 → ℕ
  | [] => 0
  | b :: bytes => b.toNat + 256 * decode bytes

variable {width n : ℕ}

@[simp] theorem length_encode : (encode width n).length = width := by
  induction width generalizing n with
  | zero => rfl
  | succ width ih => rw [encode, List.length_cons, ih]

/-- A number that fits is read back. -/
theorem decode_encode (h : n < 256 ^ width) : decode (encode width n) = n := by
  induction width generalizing n with
  | zero =>
    rw [pow_zero] at h
    rw [encode, decode]
    omega
  | succ width ih =>
    rw [pow_succ] at h
    have hquotient : n / 256 < 256 ^ width := Nat.div_lt_of_lt_mul (Nat.mul_comm .. ▸ h)
    rw [encode, decode, ih hquotient, UInt8.toNat_ofNat']
    omega

/-- Bytes are the number that they are read as. -/
theorem encode_decode (bytes : List UInt8) : encode bytes.length (decode bytes) = bytes := by
  induction bytes with
  | nil => rfl
  | cons b bytes ih =>
    have hb := b.toNat_lt
    have hlow : UInt8.ofNat (b.toNat + 256 * decode bytes) = b := by
      apply UInt8.toNat_inj.1
      rw [UInt8.toNat_ofNat']
      omega
    have hhigh : (b.toNat + 256 * decode bytes) / 256 = decode bytes := by omega
    rw [decode, List.length_cons, encode, hlow, hhigh, ih]

end LittleEndian

end WasmExtensions
