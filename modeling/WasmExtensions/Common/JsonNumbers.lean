import Mathlib.Data.UInt
import WasmExtensions.Common.Decimal
import WasmExtensions.Common.Json

/-!
# Integers in JSON configurations

An integer may be given as a JSON number or as the string of its digits.  The string goes to a
number parser, which rejects what does not fit the type; the number is converted, whatever it is.

* `NumberLibrary.Documented` : what the JSON library and the number parser do with integers.
* `Faithful` : both ways of giving an integer mean the integer, or are rejected.
* `jsonValueAs_faithful_iff` : **the accessors are faithful exactly on the integers that fit.**
-/

namespace WasmExtensions

/-- What the extensions use of the JSON library and of the number parsers, for both types of
integers. -/
structure NumberLibrary extends JsonLibrary where
  /-- The conversion of a double to a signed integer. -/
  doubleToInt64 : UInt64 → Int64
  /-- The number parser `absl::SimpleAtoi` for signed integers. -/
  simpleAtoiInt64 : Bytes → Option Int64

/-- The conversion of a number to `int64_t`. -/
def JsonNumber.toInt64 (lib : NumberLibrary) : JsonNumber → Int64
  | .unsigned n => n.toInt64
  | .signed n => n
  | .double bits => lib.doubleToInt64 bits

/-- An accessor for a type of integers: a number is converted, a string is parsed. -/
def jsonValueAsInteger {T : Type} (get : JsonNumber → T) (simpleAtoi : Bytes → Option T) :
    Json → Option T × JsonParserResultDetail
  | .number n => (some (get n), .OK)
  | .string s =>
    match simpleAtoi s with
    | some n => (some n, .OK)
    | none => (none, .INVALID_VALUE)
  | _ => (none, .TYPE_ERROR)

def jsonValueAsInt64 (lib : NumberLibrary) : Json → Option Int64 × JsonParserResultDetail :=
  jsonValueAsInteger (JsonNumber.toInt64 lib) lib.simpleAtoiInt64

theorem jsonValueAsUint64_eq (lib : JsonLibrary) :
    jsonValueAsUint64 lib = jsonValueAsInteger (JsonNumber.toUint64 lib) lib.simpleAtoiUint64 := by
  funext j
  cases j with
  | string s =>
    simp only [jsonValueAsUint64, jsonValueAsInteger]
    cases lib.simpleAtoiUint64 s <;> rfl
  | null | boolean | number | array | object => rfl

/-- The decimal digits of an integer. -/
def intToDecimal (n : ℤ) : Bytes := if n < 0 then 45 :: toDecimal n.natAbs else toDecimal n.natAbs

/-- What the JSON library and the number parsers do with the digits of an integer. -/
structure NumberLibrary.Documented (lib : NumberLibrary) : Prop where
  /-- From 0 the library keeps a number of 64 bits exactly. -/
  parse_unsigned : ∀ n : UInt64,
    lib.parse (intToDecimal n.toNat) = some (.number (.unsigned n))
  /-- Below 0 it keeps a signed number of 64 bits exactly. -/
  parse_signed : ∀ n : Int64, n.toInt < 0 →
    lib.parse (intToDecimal n.toInt) = some (.number (.signed n))
  /-- Any other integer becomes a double, unless it is discarded. -/
  parse_double : ∀ n : ℤ, n < -2 ^ 63 ∨ 2 ^ 64 ≤ n →
    ∀ number, lib.parse (intToDecimal n) = some number → ∃ bits, number = .number (.double bits)
  /-- The number parsers accept exactly the integers of their type. -/
  simpleAtoiUint64_iff : ∀ (n : ℤ) (v : UInt64),
    lib.simpleAtoiUint64 (intToDecimal n) = some v ↔ (v.toNat : ℤ) = n
  simpleAtoiInt64_iff : ∀ (n : ℤ) (v : Int64),
    lib.simpleAtoiInt64 (intToDecimal n) = some v ↔ v.toInt = n

/-- The JSON number `number` and the string of the digits of `n` mean the same to the accessor: `n`
if it is from `low` to below `high`, and an error otherwise. -/
structure Faithful {T : Type} (valueAs : Json → Option T × JsonParserResultDetail) (value : T → ℤ)
    (low high n : ℤ) (number : Json) : Prop where
  same : valueAs number = valueAs (.string (intToDecimal n))
  accepted : low ≤ n → n < high → ∃ v, valueAs number = (some v, .OK) ∧ value v = n
  rejected : n < low ∨ high ≤ n → (valueAs number).1 = none ∧ (valueAs number).2 ≠ .OK
  /-- A value is never wrapped or truncated. -/
  value_eq : ∀ v, valueAs number = (some v, .OK) → value v = n

/-- An accessor accepts every number, so it is faithful exactly if the integer fits: it keeps an
integer that fits, and should have rejected any other one. -/
theorem faithful_iff {T : Type} {get : JsonNumber → T} {simpleAtoi : Bytes → Option T}
    {value : T → ℤ} {low high n : ℤ} {k : JsonNumber}
    (hatoi : ∀ v, simpleAtoi (intToDecimal n) = some v ↔ value v = n)
    (hget : low ≤ n → n < high → value (get k) = n) :
    Faithful (jsonValueAsInteger get simpleAtoi) value low high n (.number k) ↔
      low ≤ n ∧ n < high := by
  have hnumber : jsonValueAsInteger get simpleAtoi (.number k) = (some (get k), .OK) := rfl
  constructor
  · intro h
    by_contra hnot
    -- The number should be rejected, but is converted.
    have hrejected := (h.rejected (by omega)).1
    rw [hnumber] at hrejected
    cases hrejected
  · rintro ⟨hlow, hhigh⟩
    have hvalue := hget hlow hhigh
    have hstring : jsonValueAsInteger get simpleAtoi (.string (intToDecimal n)) =
        (some (get k), .OK) := by
      rw [jsonValueAsInteger, (hatoi _).2 hvalue]
    refine ⟨hnumber.trans hstring.symm, fun _ _ => ⟨_, hnumber, hvalue⟩, fun h => by omega, ?_⟩
    intro v hv
    rw [hnumber] at hv
    cases hv
    exact hvalue

variable {lib : NumberLibrary} {n : ℤ} {number : Json}

theorem toNat_ofNat_of_fits (hlow : 0 ≤ n) (hhigh : n < 2 ^ 64) :
    ((UInt64.ofNat n.toNat).toNat : ℤ) = n := by
  rw [UInt64.toNat_ofNat']
  omega

/-- How the library keeps an integer. -/
theorem NumberLibrary.Documented.number_cases (hlib : lib.Documented)
    (h : lib.parse (intToDecimal n) = some number) :
    (∃ u : UInt64, number = .number (.unsigned u) ∧ (u.toNat : ℤ) = n) ∨
    (∃ s : Int64, number = .number (.signed s) ∧ s.toInt = n ∧ n < 0) ∨
    (n < -2 ^ 63 ∨ 2 ^ 64 ≤ n) ∧ ∃ bits, number = .number (.double bits) := by
  by_cases hout : n < -2 ^ 63 ∨ 2 ^ 64 ≤ n
  · exact .inr (.inr ⟨hout, hlib.parse_double n hout number h⟩)
  · by_cases hneg : n < 0
    · have hvalue : (Int64.ofInt n).toInt = n := Int64.toInt_ofInt_of_le (by omega) (by omega)
      have hparse := hlib.parse_signed (Int64.ofInt n) (by omega)
      rw [hvalue, h] at hparse
      exact .inr (.inl ⟨_, Option.some.inj hparse, hvalue, hneg⟩)
    · have hvalue : ((UInt64.ofNat n.toNat).toNat : ℤ) = n :=
        toNat_ofNat_of_fits (by omega) (by omega)
      have hparse := hlib.parse_unsigned (UInt64.ofNat n.toNat)
      rw [hvalue, h] at hparse
      exact .inl ⟨_, Option.some.inj hparse, hvalue⟩

/-- The library keeps an integer as a number, so both accessors accept it. -/
theorem NumberLibrary.Documented.isNumber (hlib : lib.Documented)
    (h : lib.parse (intToDecimal n) = some number) : ∃ k, number = .number k := by
  rcases hlib.number_cases h with ⟨u, rfl, -⟩ | ⟨s, rfl, -⟩ | ⟨-, bits, rfl⟩ <;> exact ⟨_, rfl⟩

/-- Below the upper limit of signed integers, a number is converted to the same integer. -/
theorem toInt_toInt64_of_lt {u : UInt64} (h : (u.toNat : ℤ) < 2 ^ 63) :
    u.toInt64.toInt = u.toNat := by
  rw [Int64.toInt, UInt64.toBitVec_toInt64, BitVec.toInt_eq_toNat_of_lt]
  · rfl
  · rw [UInt64.toNat_toBitVec]
    omega

theorem faithful_uint64_iff (hlib : lib.Documented)
    (hnumber : lib.parse (intToDecimal n) = some number) :
    Faithful (jsonValueAsUint64 lib.toJsonLibrary) (fun v => (v.toNat : ℤ)) 0 (2 ^ 64) n number ↔
      0 ≤ n ∧ n < 2 ^ 64 := by
  obtain ⟨k, rfl⟩ := hlib.isNumber hnumber
  rw [jsonValueAsUint64_eq]
  refine faithful_iff (hlib.simpleAtoiUint64_iff n) fun hlow hhigh => ?_
  rcases hlib.number_cases hnumber with ⟨u, hk, hu⟩ | ⟨s, -, -, hneg⟩ | ⟨hout, -⟩
  · cases hk
    exact hu
  · omega
  · omega

theorem faithful_int64_iff (hlib : lib.Documented)
    (hnumber : lib.parse (intToDecimal n) = some number) :
    Faithful (jsonValueAsInt64 lib) Int64.toInt (-2 ^ 63) (2 ^ 63) n number ↔
      -2 ^ 63 ≤ n ∧ n < 2 ^ 63 := by
  obtain ⟨k, rfl⟩ := hlib.isNumber hnumber
  refine faithful_iff (hlib.simpleAtoiInt64_iff n) fun hlow hhigh => ?_
  rcases hlib.number_cases hnumber with ⟨u, hk, hu⟩ | ⟨s, hk, hs, -⟩ | ⟨hout, -⟩
  · cases hk
    exact (toInt_toInt64_of_lt (hu ▸ hhigh)).trans hu
  · cases hk
    exact hs
  · omega

/-- **The accessors are faithful exactly on the integers that fit**: a number that does not fit is
converted, while its string is rejected. -/
theorem jsonValueAs_faithful_iff (hlib : lib.Documented)
    (hnumber : lib.parse (intToDecimal n) = some number) :
    (Faithful (jsonValueAsUint64 lib.toJsonLibrary) (fun v => (v.toNat : ℤ)) 0 (2 ^ 64) n number ↔
      0 ≤ n ∧ n < 2 ^ 64) ∧
    (Faithful (jsonValueAsInt64 lib) Int64.toInt (-2 ^ 63) (2 ^ 63) n number ↔
      -2 ^ 63 ≤ n ∧ n < 2 ^ 63) :=
  ⟨faithful_uint64_iff hlib hnumber, faithful_int64_iff hlib hnumber⟩

def isNumeral (digits : Bytes) : Bool :=
  !digits.isEmpty && digits.all fun c => 48 ≤ c.toNat && c.toNat ≤ 57

/-- The integer with these digits. -/
def readInteger (text : Bytes) : Option ℤ :=
  let digits := if text.head? = some 45 then text.tail else text
  if isNumeral digits then
    some (if text.head? = some 45 then -ofDecimal digits else ofDecimal digits)
  else none

/-- The value of a text that is an integer, converted if it fits. -/
def readWithin {T : Type} (low high : ℤ) (convert : ℤ → T) (text : Bytes) : Option T :=
  ((readInteger text).filter fun n => low ≤ n ∧ n < high).map convert

/-- A library that reads integers of 64 bits and discards everything else. -/
def integerLibrary : NumberLibrary where
  parse text :=
    (readWithin 0 (2 ^ 64) (fun n => .number (.unsigned (UInt64.ofNat n.toNat))) text).or
      (readWithin (-2 ^ 63) 0 (fun n => .number (.signed (Int64.ofInt n))) text)
  dump _ := none
  doubleToUint64 bits := bits
  doubleToInt64 bits := bits.toInt64
  simpleAtoiUint64 := readWithin 0 (2 ^ 64) fun n => UInt64.ofNat n.toNat
  simpleAtoiInt64 := readWithin (-2 ^ 63) (2 ^ 63) Int64.ofInt

theorem readInteger_intToDecimal : readInteger (intToDecimal n) = some n := by
  have hdigits : isNumeral (toDecimal n.natAbs) = true := by
    simpa [isNumeral, toDecimal_ne_nil] using fun c hc => digit_of_mem_toDecimal (c := c) hc
  by_cases hneg : n < 0
  · have htext : intToDecimal n = 45 :: toDecimal n.natAbs := if_pos hneg
    simp only [readInteger, htext, List.head?_cons, List.tail_cons, if_true, if_pos hdigits,
      ofDecimal_toDecimal]
    exact congrArg some (by omega)
  · have htext : intToDecimal n = toDecimal n.natAbs := if_neg hneg
    have hhead : (toDecimal n.natAbs).head? ≠ some 45 := by
      intro hhead
      exact absurd (digit_of_mem_toDecimal (List.mem_of_mem_head? hhead)) (by decide)
    simp only [readInteger, htext, if_neg hhead, if_pos hdigits, ofDecimal_toDecimal]
    exact congrArg some (by omega)

theorem readWithin_intToDecimal {T : Type} {low high : ℤ} {convert : ℤ → T} :
    readWithin low high convert (intToDecimal n) =
      if low ≤ n ∧ n < high then some (convert n) else none := by
  rw [readWithin, readInteger_intToDecimal]
  by_cases h : low ≤ n ∧ n < high
  · simp [h]
  · rw [if_neg h, Option.filter_some, if_neg (by simpa using h), Option.map_none]

/-- The conversion is read back if it is exact on the integers that fit. -/
theorem readWithin_eq_some_iff {T : Type} {low high : ℤ} {convert : ℤ → T} {v : T} (value : T → ℤ)
    (hconvert : low ≤ n → n < high → value (convert n) = n)
    (hvalue : low ≤ value v ∧ value v < high ∧ convert (value v) = v) :
    readWithin low high convert (intToDecimal n) = some v ↔ value v = n := by
  rw [readWithin_intToDecimal]
  constructor
  · intro h
    split_ifs at h with hread
    cases h
    exact hconvert hread.1 hread.2
  · rintro rfl
    rw [if_pos ⟨hvalue.1, hvalue.2.1⟩, hvalue.2.2]

theorem toInt_bounds (v : Int64) : -2 ^ 63 ≤ v.toInt ∧ v.toInt < 2 ^ 63 := by
  have hlow := v.le_toInt
  have hhigh := v.toInt_lt
  exact ⟨by simpa using hlow, by simpa using hhigh⟩

theorem integerLibrary_documented : integerLibrary.Documented where
  parse_unsigned u := by
    have hlt := u.toNat_lt
    have hread : (0 : ℤ) ≤ u.toNat ∧ (u.toNat : ℤ) < 2 ^ 64 := by omega
    simp only [integerLibrary, readWithin_intToDecimal, if_pos hread]
    simp
  parse_signed s hneg := by
    have hread : -2 ^ 63 ≤ s.toInt ∧ s.toInt < 0 := ⟨(toInt_bounds s).1, hneg⟩
    have hnot : ¬ (0 ≤ s.toInt ∧ s.toInt < 2 ^ 64) := by omega
    simp only [integerLibrary, readWithin_intToDecimal, if_pos hread, if_neg hnot]
    simp
  parse_double n hout number h := by
    have hnot : ¬ (0 ≤ n ∧ n < 2 ^ 64) ∧ ¬ (-2 ^ 63 ≤ n ∧ n < 0) := by omega
    simp only [integerLibrary, readWithin_intToDecimal, if_neg hnot.1, if_neg hnot.2] at h
    cases h
  simpleAtoiUint64_iff n v := by
    have hlt := v.toNat_lt
    exact readWithin_eq_some_iff (fun v : UInt64 => (v.toNat : ℤ)) toNat_ofNat_of_fits
      ⟨by omega, by omega, by simp⟩
  simpleAtoiInt64_iff n v := by
    have hconvert (hlow : -2 ^ 63 ≤ n) (hhigh : n < 2 ^ 63) : (Int64.ofInt n).toInt = n :=
      Int64.toInt_ofInt_of_le (by omega) (by omega)
    exact readWithin_eq_some_iff Int64.toInt hconvert
      ⟨(toInt_bounds v).1, (toInt_bounds v).2, by simp⟩

/-- A negative rate limit is rejected as a string and becomes a huge one as a number. -/
theorem jsonValueAsUint64_negative :
    integerLibrary.parse (intToDecimal (-1)) = some (.number (.signed (-1))) ∧
    jsonValueAsUint64 integerLibrary.toJsonLibrary (.number (.signed (-1))) =
      (some 18446744073709551615, .OK) ∧
    jsonValueAsUint64 integerLibrary.toJsonLibrary (.string (intToDecimal (-1))) =
      (none, .INVALID_VALUE) ∧
    ¬ Faithful (jsonValueAsUint64 integerLibrary.toJsonLibrary) (fun v => (v.toNat : ℤ)) 0 (2 ^ 64)
      (-1) (.number (.signed (-1))) := by
  refine ⟨integerLibrary_documented.parse_signed (-1) (by decide), rfl, ?_, fun h => ?_⟩
  · simp [jsonValueAsUint64, integerLibrary, readWithin_intToDecimal]
  · exact absurd (h.rejected (.inl (by decide))).1 (by simp [jsonValueAsUint64])

/-- The number 12 fits both types. -/
theorem jsonValueAs_faithful_iff_twelve :
    Faithful (jsonValueAsUint64 integerLibrary.toJsonLibrary) (fun v => (v.toNat : ℤ)) 0 (2 ^ 64)
      12 (.number (.unsigned 12)) ∧
    Faithful (jsonValueAsInt64 integerLibrary) Int64.toInt (-2 ^ 63) (2 ^ 63)
      12 (.number (.unsigned 12)) := by
  have hiff := jsonValueAs_faithful_iff integerLibrary_documented
    (integerLibrary_documented.parse_unsigned 12)
  exact ⟨hiff.1.2 (by decide), hiff.2.2 (by decide)⟩

end WasmExtensions
