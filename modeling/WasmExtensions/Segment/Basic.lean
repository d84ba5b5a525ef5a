import Mathlib.Data.Nat.Notation

/-!
# Segments of a text

A reader that goes through a text by an offset finds at each offset the segment that a writer put
there.
-/

namespace WasmExtensions

namespace Segment

variable {A : Type*} {text segment segment' rest : List A} {offset low high : ℕ}

/-- The text has the segment at the offset. -/
def At (text : List A) (offset : ℕ) (segment : List A) : Prop :=
  ∃ front rest, text = front ++ segment ++ rest ∧ front.length = offset

theorem at_zero : At (segment ++ rest) 0 segment := ⟨[], rest, rfl, rfl⟩

/-- The first part of a segment is at the same offset. -/
theorem At.left (h : At text offset (segment ++ segment')) : At text offset segment := by
  obtain ⟨front, rest, rfl, rfl⟩ := h
  exact ⟨front, segment' ++ rest, by simp, rfl⟩

/-- The second part of a segment is behind the first one. -/
theorem At.right (h : At text offset (segment ++ segment')) :
    At text (offset + segment.length) segment' := by
  obtain ⟨front, rest, rfl, rfl⟩ := h
  exact ⟨front ++ segment, rest, by simp, List.length_append⟩

/-- Two segments, one behind the other, are a segment. -/
theorem At.append (h : At text offset segment) (h' : At text (offset + segment.length) segment') :
    At text offset (segment ++ segment') := by
  obtain ⟨front, rest, rfl, rfl⟩ := h
  obtain ⟨front', rest', heq, hlength⟩ := h'
  rw [List.append_assoc front' segment' rest'] at heq
  rw [← List.length_append] at hlength
  obtain ⟨-, rfl⟩ := List.append_inj heq hlength.symm
  exact ⟨front, rest', by simp, rfl⟩

theorem at_nil (h : offset ≤ text.length) : At text offset [] :=
  ⟨text.take offset, text.drop offset, by simp, List.length_take_of_le h⟩

theorem At.le_length (h : At text offset segment) : offset + segment.length ≤ text.length := by
  obtain ⟨front, rest, rfl, rfl⟩ := h
  simp

/-- Cutting the text at both ends of the segment gives the segment. -/
theorem At.drop_take (h : At text offset segment) :
    (text.take (offset + segment.length)).drop offset = segment := by
  obtain ⟨front, rest, rfl, rfl⟩ := h
  rw [← List.length_append, List.take_left, List.drop_left]

/-- What is cut out of the text is a segment. -/
theorem at_cut (hle : low ≤ high) (hend : high ≤ text.length) :
    At text low ((text.take high).drop low) := by
  refine ⟨text.take low, text.drop high, ?_, List.length_take_of_le (Nat.le_trans hle hend)⟩
  have htake : text.take low = (text.take high).take low := by
    rw [List.take_take, Nat.min_eq_left hle]
  rw [htake, List.take_append_drop, List.take_append_drop]

end Segment

end WasmExtensions
