import Mathlib.Logic.Function.Basic
import Mathlib.Data.List.Basic

/-!
# Assignments of which the last one wins

A list of assignments gives values to keys, one after the other (`assignAll`).  In the end a key has
the value that the last assignment to it gives, or else the one that it had before.

Assignments often come in groups, where each group is a list of assignments of its own.  Then the
last group that assigns a key decides about it, whatever comes before (`assignAll_flatMap_of_last`).

For a single key, the value in the end is that of the last element that gives one (`latest`).
-/

namespace WasmExtensions

variable {A K V W : Type*} [DecidableEq K]

/-- Carries out assignments one after the other. -/
def assignAll : List (K × V) → (K → V) → K → V
  | [], m => m
  | (k, v) :: us, m => assignAll us (Function.update m k v)

/-- The assignments give a value to the key. -/
def Assigns (us : List (K × V)) (k : K) : Prop := ∃ v, (k, v) ∈ us

variable {us : List (K × V)} {m : K → V} {k : K} {f : A → List (K × V)} {as : List A}

theorem assignAll_append (us us' : List (K × V)) (m : K → V) :
    assignAll (us ++ us') m = assignAll us' (assignAll us m) := by
  induction us generalizing m with
  | nil => rfl
  | cons u us ih => exact ih _

theorem assignAll_of_not_assigns (h : ¬ Assigns us k) : assignAll us m k = m k := by
  induction us generalizing m with
  | nil => rfl
  | cons u us ih =>
    obtain ⟨k', v⟩ := u
    have hne : k ≠ k' := by
      rintro rfl
      exact h ⟨v, List.mem_cons_self⟩
    have hrest : ¬ Assigns us k := fun ⟨v, hmem⟩ => h ⟨v, List.mem_cons_of_mem _ hmem⟩
    rw [assignAll, ih hrest, Function.update_of_ne hne]

/-- The value that a key has in the end. -/
theorem assignAll_eq_getLast (us : List (K × V)) (m : K → V) (k : K) :
    assignAll us m k = ((us.filter fun u => u.1 = k).getLast?.map Prod.snd).getD (m k) := by
  induction us generalizing m with
  | nil => rfl
  | cons u us ih =>
    obtain ⟨k', v⟩ := u
    rw [assignAll, ih]
    by_cases hk : k' = k
    · subst hk
      rw [List.filter_cons_of_pos (by simp), List.getLast?_cons, Function.update_self]
      cases (us.filter fun u => u.1 = k').getLast? <;> rfl
    · rw [List.filter_cons_of_neg (by simpa using hk), Function.update_of_ne (Ne.symm hk)]

/-- Only the assignments to the key matter. -/
theorem assignAll_eq_of_filter {us' : List (K × V)} {m' : K → V}
    (h : (us.filter fun u => u.1 = k) = us'.filter fun u => u.1 = k) (hm : m k = m' k) :
    assignAll us m k = assignAll us' m' k := by
  rw [assignAll_eq_getLast, assignAll_eq_getLast, h, hm]

/-- What the key had before does not matter. -/
theorem assignAll_congr (h : Assigns us k) (m m' : K → V) :
    assignAll us m k = assignAll us m' k := by
  induction us generalizing m m' with
  | nil =>
    obtain ⟨v, hmem⟩ := h
    cases hmem
  | cons u us ih =>
    by_cases hrest : Assigns us k
    · exact ih hrest _ _
    · obtain ⟨v, hmem⟩ := h
      rcases List.mem_cons.1 hmem with rfl | hmem
      · rw [assignAll, assignAll, assignAll_of_not_assigns hrest, assignAll_of_not_assigns hrest,
          Function.update_self, Function.update_self]
      · exact absurd ⟨v, hmem⟩ hrest

/-- The value is among those that are assigned. -/
theorem mem_of_assigns (h : Assigns us k) (m : K → V) : (k, assignAll us m k) ∈ us := by
  induction us generalizing m with
  | nil =>
    obtain ⟨v, hmem⟩ := h
    cases hmem
  | cons u us ih =>
    by_cases hrest : Assigns us k
    · exact List.mem_cons_of_mem _ (ih hrest _)
    · obtain ⟨v, hmem⟩ := h
      rcases List.mem_cons.1 hmem with rfl | hmem
      · rw [assignAll, assignAll_of_not_assigns hrest, Function.update_self]
        exact List.mem_cons_self
      · exact absurd ⟨v, hmem⟩ hrest

/-- What holds of all values that are there and of all that are assigned. -/
theorem assignAll_invariant {I : V → Prop} (hm : ∀ k, I (m k)) (hus : ∀ u ∈ us, I u.2) :
    I (assignAll us m k) := by
  by_cases h : Assigns us k
  · exact hus _ (mem_of_assigns h m)
  · rw [assignAll_of_not_assigns h]
    exact hm k

/-- Assigning images is the same as taking the images in the end. -/
theorem assignAll_map (g : V → W) (us : List (K × V)) (m : K → V) :
    assignAll (us.map fun u => (u.1, g u.2)) (g ∘ m) = g ∘ assignAll us m := by
  induction us generalizing m with
  | nil => rfl
  | cons u us ih =>
    rw [List.map_cons, assignAll, assignAll, ← ih, Function.comp_update]

/-- **The last group that assigns a key decides about it.** -/
theorem assignAll_flatMap_of_last {before after : List A} {a : A} (ha : Assigns (f a) k)
    (hafter : ∀ a' ∈ after, ¬ Assigns (f a') k) (m m' : K → V) :
    assignAll ((before ++ a :: after).flatMap f) m k = assignAll (f a) m' k := by
  have hrest : ¬ Assigns (after.flatMap f) k := by
    rintro ⟨v, hmem⟩
    obtain ⟨a', ha', hv⟩ := List.mem_flatMap.1 hmem
    exact hafter a' ha' ⟨v, hv⟩
  rw [List.flatMap_append, List.flatMap_cons, assignAll_append, assignAll_append,
    assignAll_of_not_assigns hrest, assignAll_congr ha _ m']

theorem assignAll_flatMap_of_none (h : ∀ a ∈ as, ¬ Assigns (f a) k) :
    assignAll (as.flatMap f) m k = m k := by
  refine assignAll_of_not_assigns ?_
  rintro ⟨v, hmem⟩
  obtain ⟨a, ha, hv⟩ := List.mem_flatMap.1 hmem
  exact h a ha ⟨v, hv⟩

/-- Either a group is the last one with a property, or none has it. -/
theorem exists_last_or_forall_not (P : A → Prop) (as : List A) :
    (∃ before a after, as = before ++ a :: after ∧ P a ∧ ∀ a' ∈ after, ¬ P a') ∨
      ∀ a ∈ as, ¬ P a := by
  induction as with
  | nil => exact .inr fun _ h => nomatch h
  | cons a as ih =>
    rcases ih with ⟨before, a', after, rfl, ha', hafter⟩ | hnone
    · exact .inl ⟨a :: before, a', after, rfl, ha', hafter⟩
    · by_cases ha : P a
      · exact .inl ⟨[], a, as, rfl, ha, hnone⟩
      · exact .inr (List.forall_mem_cons.2 ⟨ha, hnone⟩)

/-! ### The last value -/

section

variable {g : A → Option V} {a : A} {v : V}

/-- What the last element says that says anything. -/
def latest (g : A → Option V) (as : List A) (v : V) : V := (as.filterMap g).getLastD v

theorem latest_append (g : A → Option V) (as : List A) (a : A) (v : V) :
    latest g (as ++ [a]) v = (g a).getD (latest g as v) := by
  unfold latest
  rw [List.filterMap_append]
  cases h : g a <;> simp [h]

theorem latest_map (g : A → Option V) (f : V → W) (as : List A) (v : V) :
    latest (fun a => (g a).map f) as (f v) = f (latest g as v) := by
  have hmap : as.filterMap (fun a => (g a).map f) = (as.filterMap g).map f :=
    List.map_filterMap.symm
  unfold latest
  rw [hmap, List.getLastD_map]

/-- A part of a state that each element may overwrite is what the last one has written. -/
theorem foldl_eq_latest {S : Type*} {step : S → A → S} {part : S → V}
    (hstep : ∀ s a, part (step s a) = (g a).getD (part s)) (as : List A) (s : S) :
    part (as.foldl step s) = latest g as (part s) := by
  induction as generalizing s with
  | nil => rfl
  | cons a as ih =>
    rw [List.foldl_cons, ih, hstep]
    unfold latest
    cases h : g a with
    | none => rw [List.filterMap_cons_none h, Option.getD_none]
    | some v => rw [List.filterMap_cons_some h, Option.getD_some, List.getLastD_cons]

end

end WasmExtensions
