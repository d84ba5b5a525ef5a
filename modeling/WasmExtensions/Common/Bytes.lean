import Mathlib.Data.Nat.Notation

/-!
# Byte strings

The strings of the extensions are sequences of bytes.
-/

namespace WasmExtensions

/-- The contents of a `std::string` or a `std::string_view`. -/
abbrev Bytes := List UInt8

-- (named here, so that all membership tests of strings use this one)
instance : LawfulBEq Bytes := inferInstance

/-- The bytes of a text of ASCII characters. -/
def bytes (s : String) : Bytes := s.toList.map fun c => UInt8.ofNat c.toNat

/-- `absl::StartsWith`. -/
def startsWith (text start : Bytes) : Bool := start.isPrefixOf text

/-- `absl::EndsWith`. -/
def endsWith (text ending : Bytes) : Bool := ending.isSuffixOf text

@[simp] theorem startsWith_iff {text start : Bytes} :
    startsWith text start = true ↔ start <+: text :=
  List.isPrefixOf_iff_prefix

@[simp] theorem endsWith_iff {text ending : Bytes} :
    endsWith text ending = true ↔ ending <:+ text :=
  List.isSuffixOf_iff_suffix

/-- The last position of a byte in a string. -/
def rfind (c : UInt8) : Bytes → Option ℕ
  | [] => none
  | x :: s =>
    match rfind c s with
    | some i => some (i + 1)
    | none => if x = c then some 0 else none

section

variable {c : UInt8} {s t : Bytes} {i : ℕ}

@[simp] theorem rfind_eq_none_iff : rfind c s = none ↔ c ∉ s := by
  induction s with
  | nil => simp [rfind]
  | cons x s ih =>
    unfold rfind
    cases h : rfind c s with
    | some i =>
      have hmem : c ∈ s := Decidable.of_not_not fun hnot => by simp [ih.2 hnot] at h
      simp [hmem]
    | none => simp [ih.1 h, eq_comm]

theorem rfind_lt (h : rfind c s = some i) : i < s.length := by
  induction s generalizing i with
  | nil => cases h
  | cons x s ih =>
    unfold rfind at h
    split at h
    · rename_i j hj
      have hlt := ih hj
      cases h
      simp only [List.length_cons]
      omega
    · split at h
      · cases h
        simp
      · cases h

/-- A text without the byte may be appended. -/
theorem rfind_append (h : c ∉ t) : rfind c (s ++ t) = rfind c s := by
  induction s with
  | nil => simpa [rfind] using h
  | cons x s ih => simp only [List.cons_append, rfind, ih]

theorem rfind_append_cons (h : c ∉ t) : rfind c (s ++ c :: t) = some s.length := by
  induction s with
  | nil => simp [rfind, rfind_eq_none_iff.2 h]
  | cons x s ih => simp [rfind, ih]

end

/-- `absl::StrSplit` at one character. -/
def strSplit (c : UInt8) (text : Bytes) : List Bytes := text.splitOn c

/-- `absl::AsciiStrToLower`. -/
def asciiStrToLower (text : Bytes) : Bytes :=
  text.map fun c => if 'A'.toUInt8 ≤ c ∧ c ≤ 'Z'.toUInt8 then c + 32 else c

/-- `std::to_string` of an unsigned integer. -/
def toDecimal (n : ℕ) : Bytes := (Nat.toDigits 10 n).map fun c => UInt8.ofNat c.toNat

end WasmExtensions
