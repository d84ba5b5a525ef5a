import Mathlib.Data.Nat.Notation
import Mathlib.Logic.Function.Basic

/-!
# Shared data with compare-and-swap

A store of versioned cells that several threads read and write.  A read returns the value of a
key and the version (`cas`) of the write that stored it; a write carries a version and is
accepted only if that version is still the current one, or if it is `0`, which no write is ever
given.  Every write gets a version that its key has never had before.

## Main definitions

* `SharedData K V` : the cells, and for every key the versions its writes have had.
* `SharedData.Accepts d k cas` : a write of `k` that carries `cas` is accepted.
* `SharedData.write` : the effect of an accepted write.
* `SharedData.Snapshot d k v cas` : the pair `(v, cas)` was read from `k` at some time.  Snapshots
  survive every write (`Snapshot.write`), and **a write accepted on a snapshot replaces exactly
  the value of the snapshot** (`Snapshot.value_eq`): optimistic updates are atomic.
-/

namespace WasmExtensions

/-- A stored value and the version of the write that stored it. -/
structure Cell (V : Type*) where
  /-- The stored value. -/
  value : V
  /-- The version of the write. -/
  cas : ℕ

/-- Versioned cells.  The versions of the current cells are among those handed out, and `0` is
not. -/
structure SharedData (K : Type*) (V : Type*) where
  /-- The cell of a key, if the key has been written. -/
  cell : K → Option (Cell V)
  /-- The versions that the writes of a key have had so far. -/
  issued : K → List ℕ
  /-- The current version of a key has been handed out and is not `0`. -/
  cas_issued : ∀ k c, cell k = some c → c.cas ≠ 0 ∧ c.cas ∈ issued k

namespace SharedData

variable {K V : Type*}

/-- No key has been written. -/
def empty : SharedData K V := ⟨fun _ => none, fun _ => [], fun _ _ h => by simp at h⟩

/-- A write of `k` carrying the version `cas` is accepted. -/
def Accepts (d : SharedData K V) (k : K) (cas : ℕ) : Prop :=
  cas = 0 ∨ (d.cell k).all (fun c => c.cas == cas) = true

instance (d : SharedData K V) (k : K) (cas : ℕ) : Decidable (d.Accepts k cas) :=
  inferInstanceAs (Decidable (_ ∨ _))

/-- The version `cas` may be given to the next write of `k`. -/
def Fresh (d : SharedData K V) (k : K) (cas : ℕ) : Prop := cas ≠ 0 ∧ cas ∉ d.issued k

instance (d : SharedData K V) (k : K) (cas : ℕ) : Decidable (d.Fresh k cas) :=
  inferInstanceAs (Decidable (_ ∧ _))

variable [DecidableEq K]

/-- The value `v` is written to `k` and gets the version `cas`. -/
def write (d : SharedData K V) (k : K) (v : V) (cas : ℕ) (h : d.Fresh k cas) : SharedData K V where
  cell := Function.update d.cell k (some ⟨v, cas⟩)
  issued := Function.update d.issued k (cas :: d.issued k)
  cas_issued := by
    intro k' c hc
    by_cases hk : k' = k
    · subst hk
      rw [Function.update_self, Option.some.injEq] at hc
      subst hc
      exact ⟨h.1, by simp⟩
    · rw [Function.update_of_ne hk] at hc ⊢
      exact d.cas_issued k' c hc

variable {d : SharedData K V} {k k' : K} {v v' : V} {cas cas' : ℕ} {c : Cell V}

@[simp] theorem cell_write_self (h : d.Fresh k cas) : (d.write k v cas h).cell k = some ⟨v, cas⟩ :=
  Function.update_self ..

@[simp] theorem cell_write_of_ne (h : d.Fresh k cas) (hk : k' ≠ k) :
    (d.write k v cas h).cell k' = d.cell k' :=
  Function.update_of_ne hk ..

theorem issued_subset_write (h : d.Fresh k cas) (k' : K) :
    d.issued k' ⊆ (d.write k v cas h).issued k' := by
  intro x hx
  by_cases hk : k' = k
  · subst hk; simp [write, hx]
  · simpa [write, Function.update_of_ne hk] using hx

/-! ### Snapshots -/

/-- The value `v` and the version `cas` belong to one write of `k`: if `cas` is still the current
version of `k`, then `v` is still its value. -/
def Snapshot (d : SharedData K V) (k : K) (v : V) (cas : ℕ) : Prop :=
  cas ≠ 0 ∧ cas ∈ d.issued k ∧ ∃ c, d.cell k = some c ∧ (c.cas = cas → c.value = v)

omit [DecidableEq K] in
/-- Reading a key gives a snapshot of it. -/
theorem snapshot_of_cell (h : d.cell k = some c) : d.Snapshot k c.value c.cas :=
  ⟨(d.cas_issued k c h).1, (d.cas_issued k c h).2, c, h, fun _ => rfl⟩

/-- A snapshot stays a snapshot whatever is written: a new version is never an old one. -/
theorem Snapshot.write (hs : d.Snapshot k v cas) (h : d.Fresh k' cas') :
    (d.write k' v' cas' h).Snapshot k v cas := by
  obtain ⟨h0, hmem, c, hc, hv⟩ := hs
  refine ⟨h0, issued_subset_write h k hmem, ?_⟩
  by_cases hk : k = k'
  · subst hk
    refine ⟨⟨v', cas'⟩, cell_write_self h, fun hcas => ?_⟩
    have hcas : cas' = cas := hcas
    exact absurd (hcas ▸ hmem) h.2
  · exact ⟨c, by rw [cell_write_of_ne h hk, hc], hv⟩

omit [DecidableEq K] in
/-- **A write accepted on a snapshot replaces exactly the value of the snapshot.** -/
theorem Snapshot.value_eq (hs : d.Snapshot k v cas) (ha : d.Accepts k cas) :
    (d.cell k).map Cell.value = some v := by
  obtain ⟨h0, -, c, hc, hv⟩ := hs
  rcases ha with h | h
  · exact absurd h h0
  · rw [hc] at h ⊢
    simp only [Option.all_some, beq_iff_eq] at h
    rw [Option.map_some, hv h]

end SharedData

end WasmExtensions
