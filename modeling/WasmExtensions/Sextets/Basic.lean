import Mathlib.Tactic.IntervalCases
import Mathlib.Data.List.Basic

/-!
# Bytes as digits of six bits

Three bytes are four *sextets*, digits of six bits.  One or two bytes at the end are two or three
sextets, of which the last is filled up with zeros.  So a list of sextets stands for bytes if its
length is not one more than a multiple of four and the bits that fill up the last digit are zero,
and then it stands for one list of bytes only (`ofSextets_eq_some_iff`).
-/

namespace WasmExtensions

/-- The sextets of a list of bytes. -/
def toSextets : List UInt8 → List UInt8
  | [] => []
  | [a] => [a >>> 2, (a &&& 0x03) <<< 4]
  | [a, b] => [a >>> 2, (a &&& 0x03) <<< 4 ||| b >>> 4, (b &&& 0x0f) <<< 2]
  | a :: b :: c :: rest =>
    (a >>> 2) :: ((a &&& 0x03) <<< 4 ||| b >>> 4) :: ((b &&& 0x0f) <<< 2 ||| c >>> 6) ::
      (c &&& 0x3f) :: toSextets rest

/-- The bytes that a list of sextets stands for. -/
def ofSextets : List UInt8 → Option (List UInt8)
  | [] => some []
  | [_] => none
  | [p, q] => if q &&& 0x0f = 0 then some [p <<< 2 ||| q >>> 4] else none
  | [p, q, r] => if r &&& 0x03 = 0 then some [p <<< 2 ||| q >>> 4, q <<< 4 ||| r >>> 2] else none
  | p :: q :: r :: s :: rest =>
    (ofSextets rest).map fun bytes =>
      (p <<< 2 ||| q >>> 4) :: (q <<< 4 ||| r >>> 2) :: (r <<< 6 ||| s) :: bytes

/-! ### Bits -/

theorem UInt8.eq_of_bits {a b : UInt8}
    (h : ∀ i < 8, a.toBitVec.getLsbD i = b.toBitVec.getLsbD i) : a = b :=
  UInt8.eq_of_toBitVec_eq (BitVec.eq_of_getLsbD_eq h)

theorem toNat_and_mask (a : UInt8) : (a &&& 0x3f).toNat = a.toNat % 64 := by
  rw [UInt8.toNat_and]
  exact Nat.and_two_pow_sub_one_eq_mod _ 6

/-- A digit has six bits. -/
theorem and_of_lt {p : UInt8} (hp : p < 64) : p &&& 0x3f = p := by
  apply UInt8.toNat_inj.1
  rw [toNat_and_mask]
  exact Nat.mod_eq_of_lt (UInt8.lt_iff_toNat_lt.1 hp)

theorem and_lt (a : UInt8) : a &&& 0x3f < 64 := by
  rw [UInt8.lt_iff_toNat_lt, toNat_and_mask]
  exact Nat.mod_lt _ (by decide)

theorem lt_of_and {p : UInt8} (h : p &&& 0x3f = p) : p < 64 := by
  rw [← h]
  exact and_lt p

section

variable (a b c : UInt8)

theorem shiftRight_lt : a >>> 2 < 64 := by
  apply lt_of_and
  apply UInt8.eq_of_bits
  intro i hi
  interval_cases i <;> simp

theorem second_lt : (a &&& 0x03) <<< 4 ||| b >>> 4 < 64 := by
  apply lt_of_and
  apply UInt8.eq_of_bits
  intro i hi
  interval_cases i <;> simp

theorem filled_two_lt : (a &&& 0x03) <<< 4 < 64 := by
  apply lt_of_and
  apply UInt8.eq_of_bits
  intro i hi
  interval_cases i <;> simp

theorem third_lt : (b &&& 0x0f) <<< 2 ||| c >>> 6 < 64 := by
  apply lt_of_and
  apply UInt8.eq_of_bits
  intro i hi
  interval_cases i <;> simp

theorem filled_three_lt : (b &&& 0x0f) <<< 2 < 64 := by
  apply lt_of_and
  apply UInt8.eq_of_bits
  intro i hi
  interval_cases i <;> simp

theorem first_byte : (a >>> 2) <<< 2 ||| ((a &&& 0x03) <<< 4 ||| b >>> 4) >>> 4 = a := by
  apply UInt8.eq_of_bits
  intro i hi
  interval_cases i <;> simp

theorem first_byte_last : (a >>> 2) <<< 2 ||| ((a &&& 0x03) <<< 4) >>> 4 = a := by
  apply UInt8.eq_of_bits
  intro i hi
  interval_cases i <;> simp

theorem second_byte :
    ((a &&& 0x03) <<< 4 ||| b >>> 4) <<< 4 ||| ((b &&& 0x0f) <<< 2 ||| c >>> 6) >>> 2 = b := by
  apply UInt8.eq_of_bits
  intro i hi
  interval_cases i <;> simp

theorem second_byte_last :
    ((a &&& 0x03) <<< 4 ||| b >>> 4) <<< 4 ||| ((b &&& 0x0f) <<< 2) >>> 2 = b := by
  apply UInt8.eq_of_bits
  intro i hi
  interval_cases i <;> simp

theorem third_byte : ((b &&& 0x0f) <<< 2 ||| c >>> 6) <<< 6 ||| (c &&& 0x3f) = c := by
  apply UInt8.eq_of_bits
  intro i hi
  interval_cases i <;> simp

/-- The bits that fill up the last digit are zero. -/
theorem filled_two : ((a &&& 0x03) <<< 4) &&& 0x0f = 0 := by
  apply UInt8.eq_of_bits
  intro i hi
  interval_cases i <;> simp

theorem filled_three : ((b &&& 0x0f) <<< 2) &&& 0x03 = 0 := by
  apply UInt8.eq_of_bits
  intro i hi
  interval_cases i <;> simp

end

section

variable {p q r s : UInt8}

theorem first_sextet (hp : p < 64) (hq : q < 64) : (p <<< 2 ||| q >>> 4) >>> 2 = p := by
  rw [← and_of_lt hp, ← and_of_lt hq]
  apply UInt8.eq_of_bits
  intro i hi
  interval_cases i <;> simp

theorem second_sextet (hq : q < 64) (hr : r < 64) :
    ((p <<< 2 ||| q >>> 4) &&& 0x03) <<< 4 ||| (q <<< 4 ||| r >>> 2) >>> 4 = q := by
  rw [← and_of_lt hq, ← and_of_lt hr]
  apply UInt8.eq_of_bits
  intro i hi
  interval_cases i <;> simp

/-- The last digit of two is filled up with zeros. -/
theorem second_sextet_last (hq : q < 64) (h : q &&& 0x0f = 0) :
    ((p <<< 2 ||| q >>> 4) &&& 0x03) <<< 4 = q := by
  have hsplit : q &&& 0x3f = (q &&& 0x30) ||| (q &&& 0x0f) := by
    apply UInt8.eq_of_bits
    intro i hi
    interval_cases i <;> simp
  have hq' : q &&& 0x30 = q := by
    rw [and_of_lt hq, h] at hsplit
    simpa using hsplit.symm
  rw [← hq']
  apply UInt8.eq_of_bits
  intro i hi
  interval_cases i <;> simp

theorem third_sextet_last (hr : r < 64) (h : r &&& 0x03 = 0) :
    ((q <<< 4 ||| r >>> 2) &&& 0x0f) <<< 2 = r := by
  have hsplit : r &&& 0x3f = (r &&& 0x3c) ||| (r &&& 0x03) := by
    apply UInt8.eq_of_bits
    intro i hi
    interval_cases i <;> simp
  have hr' : r &&& 0x3c = r := by
    rw [and_of_lt hr, h] at hsplit
    simpa using hsplit.symm
  rw [← hr']
  apply UInt8.eq_of_bits
  intro i hi
  interval_cases i <;> simp

theorem third_sextet (hr : r < 64) (hs : s < 64) :
    ((q <<< 4 ||| r >>> 2) &&& 0x0f) <<< 2 ||| (r <<< 6 ||| s) >>> 6 = r := by
  rw [← and_of_lt hr, ← and_of_lt hs]
  apply UInt8.eq_of_bits
  intro i hi
  interval_cases i <;> simp

theorem fourth_sextet (hs : s < 64) : (r <<< 6 ||| s) &&& 0x3f = s := by
  rw [← and_of_lt hs]
  apply UInt8.eq_of_bits
  intro i hi
  interval_cases i <;> simp

end

/-! ### The two directions -/

/-- A list of digits. -/
def Digits (digits : List UInt8) : Prop := ∀ p ∈ digits, p < 64

theorem Digits.cons {p : UInt8} {digits : List UInt8} (hp : p < 64)
    (h : Digits digits) : Digits (p :: digits) := by
  intro q hq
  rcases List.mem_cons.1 hq with rfl | hq
  · exact hp
  · exact h q hq

theorem digits_toSextets (bytes : List UInt8) : Digits (toSextets bytes) := by
  induction bytes using toSextets.induct with
  | case1 => exact fun _ h => absurd h List.not_mem_nil
  | case2 a =>
    exact .cons (shiftRight_lt a) <| .cons (filled_two_lt a) fun _ h =>
      absurd h List.not_mem_nil
  | case3 a b =>
    exact .cons (shiftRight_lt a) <| .cons (second_lt a b) <| .cons (filled_three_lt b) fun _ h =>
      absurd h List.not_mem_nil
  | case4 a b c rest ih =>
    exact .cons (shiftRight_lt a) <| .cons (second_lt a b) <| .cons (third_lt b c) <|
      .cons (and_lt c) ih

/-- Bytes are read back from their sextets. -/
theorem ofSextets_toSextets (bytes : List UInt8) : ofSextets (toSextets bytes) = some bytes := by
  induction bytes using toSextets.induct with
  | case1 => rfl
  | case2 a => simp only [toSextets, ofSextets, filled_two, if_true, first_byte_last]
  | case3 a b =>
    simp only [toSextets, ofSextets, filled_three, if_true, first_byte, second_byte_last]
  | case4 a b c rest ih =>
    simp only [toSextets, ofSextets, ih, Option.map_some, first_byte, second_byte, third_byte]

/-- Four sextets are three bytes, and a last group of two or three is one or two. -/
theorem length_of_ofSextets {digits bytes : List UInt8} (h : ofSextets digits = some bytes) :
    bytes.length = digits.length * 3 / 4 ∧ digits.length % 4 ≠ 1 := by
  induction digits using ofSextets.induct generalizing bytes with
  | case1 => rw [← Option.some.inj h]; exact ⟨rfl, by decide⟩
  | case2 p => cases h
  | case3 p q hq =>
    rw [ofSextets, if_pos hq] at h
    rw [← Option.some.inj h]
    exact ⟨by simp, by simp⟩
  | case4 p q hq => rw [ofSextets, if_neg hq] at h; cases h
  | case5 p q r hr =>
    rw [ofSextets, if_pos hr] at h
    rw [← Option.some.inj h]
    exact ⟨by simp, by simp⟩
  | case6 p q r hr => rw [ofSextets, if_neg hr] at h; cases h
  | case7 p q r s rest ih =>
    obtain ⟨bytes', hrest, rfl⟩ := Option.map_eq_some_iff.1 h
    obtain ⟨hlength, hmod⟩ := ih hrest
    simp only [List.length_cons]
    omega

/-- Sextets that stand for bytes are the sextets of these bytes. -/
theorem toSextets_ofSextets {digits bytes : List UInt8} (hdigits : Digits digits)
    (h : ofSextets digits = some bytes) : toSextets bytes = digits := by
  induction digits using ofSextets.induct generalizing bytes with
  | case1 => rw [← Option.some.inj h]; rfl
  | case2 p => cases h
  | case3 p q hq =>
    rw [ofSextets, if_pos hq] at h
    have hp := hdigits p (by simp)
    have hq' := hdigits q (by simp)
    rw [← Option.some.inj h]
    simp only [toSextets, first_sextet hp hq', second_sextet_last hq' hq]
  | case4 p q hq => rw [ofSextets, if_neg hq] at h; cases h
  | case5 p q r hr =>
    rw [ofSextets, if_pos hr] at h
    have hp := hdigits p (by simp)
    have hq := hdigits q (by simp)
    have hr' := hdigits r (by simp)
    rw [← Option.some.inj h]
    simp only [toSextets, first_sextet hp hq, second_sextet hq hr', third_sextet_last hr' hr]
  | case6 p q r hr => rw [ofSextets, if_neg hr] at h; cases h
  | case7 p q r s rest ih =>
    obtain ⟨bytes', hrest, rfl⟩ := Option.map_eq_some_iff.1 h
    have hp := hdigits p (by simp)
    have hq := hdigits q (by simp)
    have hr := hdigits r (by simp)
    have hs := hdigits s (by simp)
    have hdigits' : Digits rest := fun d hd => hdigits d (by simp [hd])
    simp only [toSextets, first_sextet hp hq, second_sextet hq hr, third_sextet hr hs,
      fourth_sextet hs, ih hdigits' hrest]

/-- **A list of digits stands for bytes exactly if it is their sextets.** -/
theorem ofSextets_eq_some_iff {digits bytes : List UInt8} (hdigits : Digits digits) :
    ofSextets digits = some bytes ↔ digits = toSextets bytes := by
  constructor
  · intro h
    exact (toSextets_ofSextets hdigits h).symm
  · rintro rfl
    exact ofSextets_toSextets bytes

end WasmExtensions
