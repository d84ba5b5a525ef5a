import WasmExtensions.Common.Bytes

/-!
# Decimal numerals

The decimal digits of a natural number (`toDecimal`) can be read back (`ofDecimal`), so distinct
numbers have distinct numerals.
-/

namespace WasmExtensions

variable {n m : ℕ} {c : UInt8}

/-- The number whose digits, most significant first, are the bytes. -/
def ofDecimal (digits : Bytes) : ℕ := digits.foldl (fun n c => 10 * n + (c.toNat - 48)) 0

theorem toDecimal_ne_nil : toDecimal n ≠ [] := by
  simp [toDecimal, Nat.toDigits_ne_nil]

/-- A digit is one byte, with the value of the character. -/
theorem toNat_ofNat_of_isDigit {char : Char} (h : char.isDigit) :
    (UInt8.ofNat char.toNat).toNat = char.toNat := by
  have hlast : char.toNat ≤ 57 := (Char.isDigit_iff_toNat.1 h).2
  rw [UInt8.toNat_ofNat']
  omega

/-- The bytes of a numeral are digits. -/
theorem digit_of_mem_toDecimal (h : c ∈ toDecimal n) : 48 ≤ c.toNat ∧ c.toNat ≤ 57 := by
  obtain ⟨char, hchar, rfl⟩ := List.mem_map.1 h
  have hdigit := Nat.isDigit_of_mem_toDigits (by decide) (by decide) hchar
  rw [toNat_ofNat_of_isDigit hdigit]
  exact Char.isDigit_iff_toNat.1 hdigit

/-- Reading the bytes of digits is reading the digits. -/
theorem foldl_ofNat_toNat {chars : List Char} (init : ℕ) (h : ∀ char ∈ chars, char.isDigit) :
    (chars.map fun char => UInt8.ofNat char.toNat).foldl
      (fun n c => 10 * n + (c.toNat - 48)) init = Nat.ofDigitChars 10 chars init := by
  induction chars generalizing init with
  | nil => simp
  | cons char chars ih =>
    have hchar := toNat_ofNat_of_isDigit (h char List.mem_cons_self)
    have hrest := ih (10 * init + (char.toNat - 48))
      fun char' hmem => h char' (List.mem_cons_of_mem _ hmem)
    rw [Nat.ofDigitChars_cons, List.map_cons, List.foldl_cons, hchar]
    exact hrest

theorem ofDecimal_toDecimal : ofDecimal (toDecimal n) = n := by
  have hdigits : ∀ char ∈ Nat.toDigits 10 n, char.isDigit :=
    fun _ hchar => Nat.isDigit_of_mem_toDigits (by decide) (by decide) hchar
  rw [ofDecimal, toDecimal, foldl_ofNat_toNat 0 hdigits, Nat.ofDigitChars_ten_toDigits]

theorem toDecimal_inj (h : toDecimal n = toDecimal m) : n = m := by
  have hread := congrArg ofDecimal h
  rwa [ofDecimal_toDecimal, ofDecimal_toDecimal] at hread

end WasmExtensions
