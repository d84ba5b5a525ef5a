import Mathlib.Data.List.Basic

/-!
# Texts with delimited fields

Fields are written one after the other, each as a label, a value and a terminator (`join`).  Nothing
is escaped, so a value that contains the terminator and the next label looks like two fields.

* `Plain delimiter value` : before its delimiter, the value does not contain the delimiter.
* `Unambiguous terminator fields` : all values but the last are plain.
* `join_injective` : **unambiguous fields can be read off their text.**
* `exists_join_eq` : **fields that are not unambiguous have the text of other fields.**
-/

namespace WasmExtensions

namespace Delimited

variable {A : Type*} {delimiter terminator label value value' rest rest' tail : List A}
  {fields fields' : List (List A × List A)}

/-- The delimiter after the value is the first one. -/
def Plain (delimiter value : List A) : Prop :=
  ∀ before after, value ++ delimiter = before ++ delimiter ++ after → after = []

/-- The text of fields with these labels and values. -/
def join (terminator : List A) (fields : List (List A × List A)) : List A :=
  fields.flatMap fun field => field.1 ++ field.2 ++ terminator

/-- No value but the last contains the terminator and the next label. -/
def Unambiguous (terminator : List A) : List (List A × List A) → Prop
  | (_, value) :: (label, value') :: fields =>
    Plain (terminator ++ label) value ∧ Unambiguous terminator ((label, value') :: fields)
  | _ => True

@[simp] theorem join_nil : join terminator [] = [] := rfl

@[simp] theorem join_cons : join terminator ((label, value) :: fields) =
    label ++ value ++ terminator ++ join terminator fields := rfl

/-- A value without the first letter of its delimiter is plain. -/
theorem plain_of_notMem {a : A} (h : a ∉ value) : Plain (a :: delimiter) value := by
  intro before after heq
  rw [List.append_assoc, List.append_eq_append_iff] at heq
  rcases heq with ⟨middle, -, hmiddle⟩ | ⟨middle, hvalue, hmiddle⟩
  · have hlength := congrArg List.length hmiddle
    simp at hlength
    exact List.length_eq_zero_iff.1 (by omega)
  · rcases middle with _ | ⟨a', middle⟩
    · simpa using hmiddle
    · obtain rfl : a = a' := (List.cons.inj hmiddle).1
      exact absurd (by simp [hvalue]) h

/-- A plain value ends at its delimiter: another one that is followed by the delimiter is not
shorter. -/
theorem Plain.length_le (h : Plain delimiter value)
    (heq : value ++ delimiter ++ rest = value' ++ delimiter ++ rest') :
    value.length ≤ value'.length := by
  by_contra hlt
  have htext : value' ++ delimiter <+: value ++ delimiter ++ rest := heq ▸ List.prefix_append ..
  have hprefix : value' ++ delimiter <+: value ++ delimiter := by
    refine List.prefix_of_prefix_length_le htext (List.prefix_append ..) ?_
    simp only [List.length_append]
    omega
  obtain ⟨after, hafter⟩ := hprefix
  have hnil := h value' after hafter.symm
  have hlength := congrArg List.length hafter
  simp [hnil] at hlength
  omega

/-- Plain values with the same delimiter can be told apart from what follows. -/
theorem Plain.append_inj (h : Plain delimiter value) (h' : Plain delimiter value')
    (heq : value ++ delimiter ++ rest = value' ++ delimiter ++ rest') :
    value = value' ∧ rest = rest' := by
  have hlength := Nat.le_antisymm (h.length_le heq) (h'.length_le heq.symm)
  simp only [List.append_assoc] at heq
  obtain ⟨hvalue, hrest⟩ := List.append_inj heq hlength
  exact ⟨hvalue, List.append_cancel_left hrest⟩

/-- **Unambiguous fields can be read off their text**, if the labels are known. -/
theorem join_injective (hlabels : fields.map Prod.fst = fields'.map Prod.fst)
    (h : Unambiguous terminator fields) (h' : Unambiguous terminator fields')
    (heq : join terminator fields ++ tail = join terminator fields' ++ tail) :
    fields = fields' := by
  induction fields generalizing fields' with
  | nil =>
    rw [List.map_nil, eq_comm, List.map_eq_nil_iff] at hlabels
    exact hlabels.symm
  | cons field fields ih =>
    obtain ⟨label, value⟩ := field
    rcases fields' with _ | ⟨⟨label', value'⟩, fields'⟩
    · cases hlabels
    · rw [List.map_cons, List.map_cons, List.cons.injEq] at hlabels
      obtain ⟨rfl, hrestLabels⟩ : label = label' ∧ _ := hlabels
      rcases fields with _ | ⟨⟨next, nextValue⟩, fields⟩
      · -- the last value is what is left of the text
        obtain rfl : fields' = [] := List.map_eq_nil_iff.1 hrestLabels.symm
        have hvalue : value = value' := by simpa using heq
        rw [hvalue]
      · rcases fields' with _ | ⟨⟨next', nextValue'⟩, fields'⟩
        · cases hrestLabels
        · obtain rfl : next = next' := (List.cons.inj hrestLabels).1
          obtain ⟨hplain, hrest⟩ := h
          obtain ⟨hplain', hrest'⟩ := h'
          have hsplit : value ++ (terminator ++ next) ++
                (nextValue ++ terminator ++ join terminator fields ++ tail) =
              value' ++ (terminator ++ next) ++
                (nextValue' ++ terminator ++ join terminator fields' ++ tail) := by
            simpa using heq
          obtain ⟨rfl, hfollows⟩ := hplain.append_inj hplain' hsplit
          refine congrArg _ (ih hrestLabels hrest hrest' ?_)
          simpa using hfollows

/-- **Fields that are not unambiguous have the text of other fields**: a value ends where it
contains its delimiter, and what comes after goes to the next value. -/
theorem exists_join_eq (h : ¬ Unambiguous terminator fields) :
    ∃ fields', fields'.map Prod.fst = fields.map Prod.fst ∧
      join terminator fields' = join terminator fields ∧ fields' ≠ fields := by
  induction fields with
  | nil => exact absurd trivial h
  | cons field fields ih =>
    obtain ⟨label, value⟩ := field
    rcases fields with _ | ⟨⟨next, nextValue⟩, fields⟩
    · exact absurd trivial h
    · by_cases hplain : Plain (terminator ++ next) value
      · obtain ⟨fields', hlabels, hjoin, hne⟩ := ih fun hrest => h ⟨hplain, hrest⟩
        refine ⟨(label, value) :: fields', by rw [List.map_cons, hlabels]; rfl, ?_, fun heq => ?_⟩
        · rw [join_cons, hjoin]
          rfl
        · exact hne (List.cons.inj heq).2
      · obtain ⟨before, after, hafter, hne⟩ : ∃ before after,
            value ++ (terminator ++ next) = before ++ (terminator ++ next) ++ after ∧
              after ≠ [] := by
          simpa [Plain] using hplain
        refine ⟨(label, before) :: (next, after ++ nextValue) :: fields, rfl, ?_, fun heq => ?_⟩
        · have hmiddle := congrArg (fun text =>
            label ++ (text ++ (nextValue ++ terminator ++ join terminator fields))) hafter
          simpa using hmiddle.symm
        · have hnext := (List.cons.inj (List.cons.inj heq).2).1
          have hvalue : after ++ nextValue = nextValue := congrArg Prod.snd hnext
          exact hne (List.append_left_eq_self.1 hvalue)

end Delimited

end WasmExtensions
