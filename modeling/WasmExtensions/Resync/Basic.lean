import Mathlib.Data.List.Forall2

/-!
# Repairing a sequence of code words

A text should be a concatenation of the words of a prefix code.  Reading it from left to right, a
word is kept where there is one; where there is none, one letter is replaced by a filler, and the
reading goes on behind it (`Repairs`).

* `Repairs.concatenation` : the repaired text is a concatenation of words.
* `Repairs.forall₂` : only single letters are replaced.
* `Repairs.eq_of_concatenation` : **a concatenation of words is not changed**, so repairing twice is
  repairing once.
* `Repairs.changed_iff` : the flag says whether the text was changed.
-/

namespace WasmExtensions

namespace Resync

variable {A : Type*}

/-- The words are a prefix code that has the filler among its words. -/
structure Code (P : List A → Prop) (filler : A) : Prop where
  ne_nil : ∀ word, P word → word ≠ []
  prefix_free : ∀ word word', P word → P word' → word <+: word' → word = word'
  filler : P [filler]

/-- The text is made of words. -/
inductive Concatenation (P : List A → Prop) : List A → Prop where
  | nil : Concatenation P []
  | append {word rest : List A} :
      P word → Concatenation P rest → Concatenation P (word ++ rest)

/-- What the reader makes of a text, and whether it changed a letter. -/
inductive Repairs (P : List A → Prop) (filler : A) : List A → List A → Bool → Prop where
  | nil : Repairs P filler [] [] false
  | keep {word rest rest' : List A} {changed : Bool} :
      P word → Repairs P filler rest rest' changed →
        Repairs P filler (word ++ rest) (word ++ rest') changed
  | replace {a : A} {rest rest' : List A} {changed : Bool} :
      (∀ word, P word → ¬ word <+: a :: rest) → Repairs P filler rest rest' changed →
        Repairs P filler (a :: rest) (filler :: rest') true

variable {P : List A → Prop} {filler : A} {word word' text text' rest : List A} {changed : Bool}

/-- Two words that a text starts with are the same. -/
theorem Code.eq_of_starts (code : Code P filler) (hword : P word) (hword' : P word')
    (h : word <+: text) (h' : word' <+: text) : word = word' := by
  rcases List.prefix_or_prefix_of_prefix h h' with hle | hle
  · exact code.prefix_free word word' hword hword' hle
  · exact (code.prefix_free word' word hword' hword hle).symm

theorem Repairs.concatenation (code : Code P filler) (h : Repairs P filler text text' changed) :
    Concatenation P text' := by
  induction h with
  | nil => exact .nil
  | keep hword _ ih => exact .append hword ih
  | replace _ _ ih => exact .append code.filler ih

/-- Every letter is kept or replaced by the filler. -/
theorem Repairs.forall₂ (h : Repairs P filler text text' changed) :
    List.Forall₂ (fun a a' => a' = a ∨ a' = filler) text text' := by
  induction h with
  | nil => exact .nil
  | @keep word _ _ _ _ _ ih =>
    refine List.rel_append (List.forall₂_same.2 fun _ _ => ?_) ih
    exact .inl rfl
  | replace _ _ ih => exact .cons (.inr rfl) ih

theorem Repairs.length_eq (h : Repairs P filler text text' changed) :
    text'.length = text.length :=
  h.forall₂.length_eq.symm

/-- The first word of a concatenation. -/
theorem Concatenation.eq_nil_or (h : Concatenation P text) :
    text = [] ∨ ∃ word rest, P word ∧ Concatenation P rest ∧ text = word ++ rest := by
  cases h with
  | nil => exact .inl rfl
  | append hword hrest => exact .inr ⟨_, _, hword, hrest, rfl⟩

/-- What follows a word of a concatenation is a concatenation. -/
theorem Concatenation.of_append (code : Code P filler) (hword : P word)
    (h : Concatenation P (word ++ rest)) : Concatenation P rest := by
  rcases h.eq_nil_or with hnil | ⟨word', rest', hword', hrest', heq⟩
  · exact absurd (List.append_eq_nil_iff.1 hnil).1 (code.ne_nil word hword)
  · obtain rfl : word = word' :=
      code.eq_of_starts hword hword' (List.prefix_append ..) ⟨rest', heq.symm⟩
    rwa [List.append_cancel_left heq]

/-- **A concatenation of words is not changed.** -/
theorem Repairs.eq_of_concatenation (code : Code P filler) (htext : Concatenation P text)
    (h : Repairs P filler text text' changed) : text' = text ∧ changed = false := by
  induction h with
  | nil => exact ⟨rfl, rfl⟩
  | keep hword _ ih =>
    obtain ⟨hrest, hchanged⟩ := ih (htext.of_append code hword)
    exact ⟨by rw [hrest], hchanged⟩
  | replace hnone _ _ =>
    rcases htext.eq_nil_or with hnil | ⟨word, rest, hword, -, heq⟩
    · cases hnil
    · exact absurd ⟨rest, heq.symm⟩ (hnone word hword)

/-- **The flag says whether the text was changed**: the filler is a word, so it is never
replaced. -/
theorem Repairs.changed_iff (code : Code P filler) (h : Repairs P filler text text' changed) :
    changed = true ↔ text' ≠ text := by
  induction h with
  | nil => simp
  | keep _ _ ih => simpa using ih
  | @replace a rest _ _ hnone _ _ =>
    -- A replaced letter differs from the filler, which would have been kept.
    have hne : filler ≠ a := by
      rintro rfl
      exact hnone [filler] code.filler ⟨rest, rfl⟩
    simp [hne]

/-- Repairing a repaired text changes nothing. -/
theorem Repairs.repairs_again (code : Code P filler) {text'' : List A} {again : Bool}
    (h : Repairs P filler text text' changed) (h' : Repairs P filler text' text'' again) :
    text'' = text' ∧ again = false :=
  h'.eq_of_concatenation code (h.concatenation code)

end Resync

end WasmExtensions
