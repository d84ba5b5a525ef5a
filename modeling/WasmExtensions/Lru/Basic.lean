import Mathlib.Algebra.GroupWithZero.Nat
import Mathlib.Data.List.Nodup

/-!
# Least recently used

The keys that a cache of a fixed capacity holds, by last use.  Nothing is said about what is cached
for a key: an implementation is compared with this list by the keys that it has an entry for.

## Main definitions

* `Lru κ capacity` : at most `capacity` different keys, the most recently used first.
* `Lru.insert`, `Lru.touch`, `Lru.remove` : a new entry, a use, and the end of an entry.
* `Lru.victim l k` : the key that the admission of `k` pushes out.
-/

namespace WasmExtensions

/-- At most `capacity` different keys, the most recently used first. -/
structure Lru (κ : Type*) (capacity : ℕ) where
  keys : List κ
  nodup : keys.Nodup
  length_le : keys.length ≤ capacity

namespace Lru

variable {κ : Type*} {capacity : ℕ}

instance : Membership κ (Lru κ capacity) := ⟨fun l k => k ∈ l.keys⟩

def empty : Lru κ capacity := ⟨[], List.nodup_nil, Nat.zero_le _⟩

section

variable [DecidableEq κ]

/-- The key that the admission of `k` pushes out: the last one, if there are `capacity` others. -/
def victim (l : Lru κ capacity) (k : κ) : Option κ :=
  if capacity ≤ (l.keys.erase k).length then (l.keys.erase k).getLast? else none

/-- The other keys that stay when `k` comes in. -/
def kept (l : Lru κ capacity) (k : κ) : List κ :=
  if capacity ≤ (l.keys.erase k).length then (l.keys.erase k).dropLast else l.keys.erase k

variable {l : Lru κ capacity} {k k' : κ}

theorem kept_sublist : (l.kept k).Sublist (l.keys.erase k) := by
  unfold kept
  split_ifs
  · exact List.dropLast_sublist _
  · exact List.Sublist.refl _

theorem length_kept_lt [NeZero capacity] : (l.kept k).length < capacity := by
  have hpos : 0 < capacity := Nat.pos_of_ne_zero (NeZero.ne capacity)
  have hle : (l.keys.erase k).length ≤ capacity :=
    Nat.le_trans (List.Sublist.length_le List.erase_sublist) l.length_le
  unfold kept
  split_ifs with hfull
  · rw [List.length_dropLast]
    omega
  · omega

theorem notMem_kept : k ∉ l.kept k := by
  intro hmem
  exact ((List.Nodup.mem_erase_iff l.nodup).1 (kept_sublist.subset hmem)).1 rfl

/-- All other keys stay but the victim. -/
theorem mem_kept_iff : k' ∈ l.kept k ↔ k' ≠ k ∧ k' ∈ l.keys ∧ l.victim k ≠ some k' := by
  unfold kept victim
  split_ifs with hfull
  · rcases List.eq_nil_or_concat (l.keys.erase k) with hnil | ⟨init, last, hlast⟩
    · have hnone : k' ∈ l.keys → k' ≠ k → False := by
        intro hmem hne
        have := (List.Nodup.mem_erase_iff l.nodup).2 ⟨hne, hmem⟩
        rw [hnil] at this
        cases this
      rw [hnil]
      exact iff_of_false (fun h => nomatch h) fun h => hnone h.2.1 h.1
    · have hnodup : (init ++ [last]).Nodup := by
        rw [← List.concat_eq_append, ← hlast]
        exact l.nodup.erase k
      have hmem : k' ∈ init ∨ k' = last ↔ k' ≠ k ∧ k' ∈ l.keys := by
        rw [← List.Nodup.mem_erase_iff l.nodup, hlast]
        simp
      rw [hlast, List.concat_eq_append, List.dropLast_concat, List.getLast?_concat,
        ← and_assoc, ← hmem]
      have hdisjoint : k' ∈ init → k' ≠ last := by
        rintro hinit rfl
        exact (List.nodup_append.1 hnodup).2.2 _ hinit _ (List.mem_singleton_self _) rfl
      constructor
      · intro hinit
        exact ⟨.inl hinit, fun h => hdisjoint hinit (Option.some.inj h).symm⟩
      · rintro ⟨hinit | rfl, hne⟩
        · exact hinit
        · exact absurd rfl hne
  · rw [List.Nodup.mem_erase_iff l.nodup]
    simp

/-- A key comes in at the front. -/
def insert [NeZero capacity] (l : Lru κ capacity) (k : κ) : Lru κ capacity where
  keys := k :: l.kept k
  nodup := List.nodup_cons.2 ⟨notMem_kept, kept_sublist.nodup (l.nodup.erase k)⟩
  length_le := length_kept_lt

/-- A key that is there goes to the front. -/
def touch (l : Lru κ capacity) (k : κ) : Lru κ capacity :=
  if hmem : k ∈ l.keys then
    { keys := k :: l.keys.erase k
      nodup := List.nodup_cons.2 ⟨l.nodup.not_mem_erase, l.nodup.erase k⟩
      length_le := by
        rw [List.length_cons, List.length_erase_of_mem hmem]
        have := List.length_pos_of_mem hmem
        have := l.length_le
        omega }
  else l

/-- A key goes out. -/
def remove (l : Lru κ capacity) (k : κ) : Lru κ capacity where
  keys := l.keys.erase k
  nodup := l.nodup.erase k
  length_le := Nat.le_trans (List.Sublist.length_le List.erase_sublist) l.length_le

theorem victim_of_notMem (h : k ∉ l.keys) :
    l.victim k = if capacity ≤ l.keys.length then l.keys.getLast? else none := by
  rw [victim, List.erase_of_not_mem h]

theorem kept_of_notMem (h : k ∉ l.keys) :
    l.kept k = if capacity ≤ l.keys.length then l.keys.dropLast else l.keys := by
  rw [kept, List.erase_of_not_mem h]

/-- A key that is there pushes nothing out. -/
theorem not_full_of_mem (h : k ∈ l.keys) : ¬ capacity ≤ (l.keys.erase k).length := by
  have hle := l.length_le
  have hpos := List.length_pos_of_mem h
  rw [List.length_erase_of_mem h]
  omega

theorem victim_of_mem (h : k ∈ l.keys) : l.victim k = none := if_neg (not_full_of_mem h)

theorem kept_of_mem (h : k ∈ l.keys) : l.kept k = l.keys.erase k := if_neg (not_full_of_mem h)

theorem keys_touch (h : k ∈ l.keys) : (l.touch k).keys = k :: l.keys.erase k := by
  rw [touch, dif_pos h]

end

end Lru

end WasmExtensions
