import Mathlib.Data.Option.Basic
import Mathlib.Tactic.SplitIfs

/-!
# Memo tables

A *memo table* keeps results of a partial function `f` under its arguments.  A table is *sound* for
`f` if all that it keeps is what `f` gives; looking a result up in a sound table before computing
it is then the same as computing it (`Memo.Sound.or_eq`).

The key of a table may hold less than the arguments of the computation.  `f` takes the key, so
soundness says in particular that the key determines the result.

A table that is kept although the function changes hides the new results under the old ones
(`Memo.before`).
-/

namespace WasmExtensions

/-- Results that were computed earlier. -/
abbrev Memo (K V : Type*) := K → Option V

namespace Memo

variable {K V : Type*} {f : K → Option V} {table : Memo K V} {k : K} {v : V}

def empty : Memo K V := fun _ => none

/-- Keeps a result. -/
def insert [DecidableEq K] (table : Memo K V) (k : K) (v : V) : Memo K V :=
  fun k' => if k' = k then some v else table k'

/-- All that the table keeps is what `f` gives. -/
def Sound (f : K → Option V) (table : Memo K V) : Prop := ∀ k v, table k = some v → f k = some v

namespace Sound

theorem empty : Sound f empty := by
  intro k v h
  cases h

theorem insert [DecidableEq K] (h : Sound f table) (hv : f k = some v) :
    Sound f (table.insert k v) := by
  intro k' v' h'
  unfold Memo.insert at h'
  split_ifs at h' with hk
  · rw [hk, hv, ← Option.some.inj h']
  · exact h k' v' h'

/-- **Looking up first makes no difference.** -/
theorem or_eq (h : Sound f table) : (table k).or (f k) = f k := by
  cases hk : table k with
  | none => rfl
  | some v => rw [h k v hk]; rfl

end Sound

/-! ### A function that changes -/

section

variable {old : Memo K V}

/-- The table has kept all that the old one holds. -/
def Extends (table old : Memo K V) : Prop := ∀ k v, old k = some v → table k = some v

/-- What is found if the old table is not emptied when the function becomes `f`: its results hide
those of `f`. -/
def before (old : Memo K V) (f : K → Option V) : K → Option V := fun k => (old k).or (f k)

theorem before_of_none (hk : old k = none) : old.before f k = f k := by
  unfold before
  rw [hk, Option.none_or]

theorem before_of_some (hk : old k = some v) : old.before f k = some v := by
  unfold before
  rw [hk, Option.some_or]

theorem Extends.eq_none (h : table.Extends old) (hk : table k = none) : old k = none := by
  cases hold : old k with
  | none => rfl
  | some v =>
    rw [h k v hold] at hk
    cases hk

theorem Extends.insert [DecidableEq K] (h : table.Extends old) (hk : table k = none) :
    (table.insert k v).Extends old := by
  intro k' v' hold
  have hne : k' ≠ k := by
    rintro rfl
    rw [h.eq_none hk] at hold
    cases hold
  unfold Memo.insert
  rw [if_neg hne]
  exact h k' v' hold

/-- A table that goes on from the old one finds what the old one would. -/
theorem Sound.or_eq_before (h : Sound (old.before f) table) (hold : table.Extends old) :
    (table k).or (f k) = old.before f k := by
  cases hk : table k with
  | some v => rw [h k v hk, Option.some_or]
  | none => rw [before_of_none (hold.eq_none hk), Option.none_or]

end

end Memo

end WasmExtensions
