import Mathlib.Data.PNat.Defs
import WasmExtensions.Resync.Basic

/-!
# UTF-8 as a code

The encodings of the characters are a prefix code (`Utf8.code`), and the bytes of an encoding after
the first one are not zero.  `Utf8.decodeSize` finds the encoding that a text starts with.
-/

namespace WasmExtensions

namespace Utf8

variable {c : Char} {word text : List UInt8} {k : ℕ+}

/-- The bytes are the encoding of a character. -/
def Encodes (word : List UInt8) : Prop := ∃ c : Char, word = String.utf8EncodeChar c

/-- The encoding that a text starts with can be decoded. -/
theorem decode_of_starts (h : String.utf8EncodeChar c <+: text) :
    text.toByteArray.utf8DecodeChar? 0 = some c := by
  obtain ⟨rest, rfl⟩ := h
  rw [List.toByteArray_append]
  exact ByteArray.utf8DecodeChar?_utf8EncodeChar_append

theorem prefix_of_decode (h : text.toByteArray.utf8DecodeChar? 0 = some c) :
    String.utf8EncodeChar c <+: text := by
  obtain ⟨rest, hrest⟩ := ByteArray.exists_of_utf8DecodeChar?_eq_some h
  have htext := congrArg (fun bytes => bytes.data.toList) hrest
  simp at htext
  exact ⟨rest.data.toList, htext.symm⟩

theorem code : Resync.Code Encodes 32 where
  ne_nil := by
    rintro word ⟨c, rfl⟩ hnil
    have hlength := congrArg List.length hnil
    have hpos := c.utf8Size_pos
    rw [String.length_utf8EncodeChar, List.length_nil] at hlength
    omega
  prefix_free := by
    rintro word word' ⟨c, rfl⟩ ⟨c', rfl⟩ hprefix
    have hc := decode_of_starts hprefix
    rw [decode_of_starts (List.prefix_refl _)] at hc
    rw [Option.some.inj hc]
  filler := ⟨' ', rfl⟩

/-- Only the first byte of an encoding may be zero. -/
theorem Encodes.ne_zero {i : ℕ} (h : Encodes word) (hpos : i ≠ 0) : word[i]? ≠ some 0 := by
  obtain ⟨c, rfl⟩ := h
  intro hzero
  obtain ⟨hi, hget⟩ := List.getElem?_eq_some_iff.1 hzero
  have hfirst : (String.utf8EncodeChar c)[i].IsUTF8FirstByte := by
    rw [hget]
    decide
  exact hpos (UInt8.isUTF8FirstByte_getElem_utf8EncodeChar.1 hfirst)

/-- The length of the encoding that a text starts with. -/
def decodeSize (text : List UInt8) : Option ℕ+ :=
  (text.toByteArray.utf8DecodeChar? 0).map fun c => c.utf8Size.toPNat c.utf8Size_pos

theorem decodeSize_eq_some_iff :
    decodeSize text = some k ↔ ∃ word, Encodes word ∧ word <+: text ∧ word.length = k := by
  rw [decodeSize, Option.map_eq_some_iff]
  constructor
  · rintro ⟨c, hc, rfl⟩
    exact ⟨_, ⟨c, rfl⟩, prefix_of_decode hc, String.length_utf8EncodeChar c⟩
  · rintro ⟨word, ⟨c, rfl⟩, hprefix, hlength⟩
    rw [String.length_utf8EncodeChar] at hlength
    exact ⟨c, decode_of_starts hprefix, PNat.eq hlength⟩

end Utf8

end WasmExtensions
