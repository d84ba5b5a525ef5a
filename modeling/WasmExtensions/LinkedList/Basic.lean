import Mathlib.Data.Nat.Notation
import Mathlib.Data.List.Nodup
import Mathlib.Tactic.SplitIfs

/-!
# Linked lists with stable iterators

A doubly linked list as C++ programs use it: an iterator names a node, stays valid while other
nodes come and go, and is dangling once its node is erased.  Erasing through an iterator that
does not name a node of the list, and removing the last node of an empty list, are undefined
behaviour; the operations return `none` there.

## Main definitions

* `LinkedList α` : the nodes, each with an identity that no other node ever has.
* `LinkedList.Live l it a` : the iterator `it` names a node of `l`, which holds `a`.
* `LinkedList.erase`, `LinkedList.popBack`, `LinkedList.pushFront` : what they do to the values
  (`Live.erase_eq`, `popBack_eq`, `values_pushFront`) and which iterators stay live.
-/

namespace WasmExtensions

/-- A linked list: its nodes in order, as pairs of the node's identity and its value. -/
structure LinkedList (α : Type*) where
  nodes : List (ℕ × α)
  /-- The identity of the next node to be made. -/
  fresh : ℕ
  nodup : (nodes.map Prod.fst).Nodup
  lt_fresh : ∀ x ∈ nodes, x.1 < fresh

namespace LinkedList

variable {α : Type*}

/-- An iterator: the identity of a node, or `none` for `end()`. -/
abbrev Iterator := Option ℕ

def empty : LinkedList α := ⟨[], 0, .nil, by simp⟩

/-- The values in the list, from front to back. -/
def values (l : LinkedList α) : List α := l.nodes.map Prod.snd

def size (l : LinkedList α) : ℕ := l.nodes.length

/-- The iterator to the first node. -/
def begin (l : LinkedList α) : Iterator := l.nodes.head?.map Prod.fst

/-- The value of the last node. -/
def back? (l : LinkedList α) : Option α := l.nodes.getLast?.map Prod.snd

/-- A new node in front of the list. -/
def pushFront (l : LinkedList α) (a : α) : LinkedList α where
  nodes := (l.fresh, a) :: l.nodes
  fresh := l.fresh + 1
  nodup := by
    refine List.nodup_cons.2 ⟨fun hmem => ?_, l.nodup⟩
    obtain ⟨x, hx, hfresh⟩ := List.mem_map.1 hmem
    exact Nat.lt_irrefl _ (hfresh ▸ l.lt_fresh x hx)
  lt_fresh x hx := by
    rcases List.mem_cons.1 hx with rfl | hx
    · exact Nat.lt_succ_self _
    · exact Nat.lt_succ_of_lt (l.lt_fresh x hx)

/-- The list with some of its nodes; no new ones. -/
def restrict (l : LinkedList α) (nodes : List (ℕ × α)) (h : nodes.Sublist l.nodes) :
    LinkedList α where
  nodes := nodes
  fresh := l.fresh
  nodup := l.nodup.sublist (h.map _)
  lt_fresh x hx := l.lt_fresh x (h.subset hx)

/-- The list without its last node; undefined for the empty list. -/
def popBack (l : LinkedList α) : Option (LinkedList α) :=
  if l.nodes = [] then none else some (l.restrict l.nodes.dropLast (List.dropLast_sublist _))

/-- The list without the node of an iterator; undefined for `end()` and for a dangling
iterator. -/
def erase (l : LinkedList α) : Iterator → Option (LinkedList α)
  | none => none
  | some i =>
    if i ∈ l.nodes.map Prod.fst then
      some (l.restrict (l.nodes.filter fun x => x.1 ≠ i) List.filter_sublist)
    else none

/-- The iterator `it` names a node of `l`, which holds `a`. -/
def Live (l : LinkedList α) (it : Iterator) (a : α) : Prop := ∃ i, it = some i ∧ (i, a) ∈ l.nodes

variable {l l' : LinkedList α} {it it' : Iterator} {a b : α}

@[simp] theorem values_empty : (empty : LinkedList α).values = [] := rfl

@[simp] theorem values_pushFront (l : LinkedList α) (a : α) :
    (l.pushFront a).values = a :: l.values :=
  rfl

theorem size_eq (l : LinkedList α) : l.size = l.values.length := by
  rw [size, values, List.length_map]

theorem back?_eq (l : LinkedList α) : l.back? = l.values.getLast? := by
  rw [back?, values, List.getLast?_map]

/-- A node holds one value. -/
theorem Live.inj (h : l.Live it a) (h' : l.Live it b) : a = b := by
  obtain ⟨i, rfl, hi⟩ := h
  obtain ⟨j, hj, hj'⟩ := h'
  cases hj
  exact congrArg Prod.snd (List.inj_on_of_nodup_map l.nodup hi hj' rfl)

/-! ### `pushFront` -/

theorem live_begin_pushFront (l : LinkedList α) (a : α) :
    (l.pushFront a).Live (l.pushFront a).begin a :=
  ⟨l.fresh, rfl, List.mem_cons_self ..⟩

theorem Live.pushFront (h : l.Live it a) (b : α) : (l.pushFront b).Live it a := by
  obtain ⟨i, rfl, hi⟩ := h
  exact ⟨i, rfl, List.mem_cons_of_mem _ hi⟩

/-! ### `popBack` -/

/-- `popBack` removes the last value. -/
theorem popBack_eq (h : l.popBack = some l') :
    ∃ b, l.back? = some b ∧ l.values = l'.values ++ [b] ∧
      ∀ it a, l.Live it a → a ≠ b → l'.Live it a := by
  unfold popBack at h
  split_ifs at h with hnil
  cases h
  have hlast := List.dropLast_append_getLast hnil
  refine ⟨(l.nodes.getLast hnil).2, ?_, ?_, ?_⟩
  · rw [back?, List.getLast?_eq_some_getLast hnil, Option.map_some]
  · show l.nodes.map Prod.snd = l.nodes.dropLast.map Prod.snd ++ [(l.nodes.getLast hnil).2]
    conv_lhs => rw [← hlast, List.map_append, List.map_singleton]
  · rintro it a ⟨i, rfl, hi⟩ hab
    refine ⟨i, rfl, ?_⟩
    rw [← hlast, List.mem_append, List.mem_singleton] at hi
    rcases hi with hi | hi
    · exact hi
    · exact absurd (congrArg Prod.snd hi) hab

theorem exists_popBack (h : l.values ≠ []) : ∃ l', l.popBack = some l' := by
  have hnil : l.nodes ≠ [] := fun hnil => h (by rw [values, hnil, List.map_nil])
  exact ⟨_, if_neg hnil⟩

/-! ### `erase` -/

/-- Erasing a live node removes its value and keeps the other iterators. -/
theorem Live.erase_eq (h : l.Live it a) :
    ∃ l' pre post, l.erase it = some l' ∧ l.values = pre ++ a :: post ∧
      l'.values = pre ++ post ∧ ∀ it' b, l.Live it' b → it' ≠ it → l'.Live it' b := by
  obtain ⟨i, rfl, hi⟩ := h
  obtain ⟨pre, post, hnodes⟩ := List.append_of_mem hi
  have hnodup := l.nodup
  rw [hnodes, List.map_append, List.map_cons] at hnodup
  have hmem : i ∈ l.nodes.map Prod.fst := List.mem_map.2 ⟨(i, a), hi, rfl⟩
  -- no other node has the identity `i`
  have hfilter : l.nodes.filter (fun x => x.1 ≠ i) = pre ++ post := by
    have hnotin := (List.nodup_middle.1 hnodup).notMem
    rw [hnodes, List.filter_append, List.filter_cons_of_neg (by simp)]
    congr 1 <;> refine List.filter_eq_self.2 fun x hx => ?_
    · simp only [decide_eq_true_eq]
      rintro rfl
      exact hnotin (List.mem_append_left _ (List.mem_map.2 ⟨x, hx, rfl⟩))
    · simp only [decide_eq_true_eq]
      rintro rfl
      exact hnotin (List.mem_append_right _ (List.mem_map.2 ⟨x, hx, rfl⟩))
  refine ⟨_, pre.map Prod.snd, post.map Prod.snd, if_pos hmem, ?_, ?_, ?_⟩
  · rw [values, hnodes, List.map_append, List.map_cons]
  · show (l.nodes.filter fun x => x.1 ≠ i).map Prod.snd = _
    rw [hfilter, List.map_append]
  · rintro it' b ⟨j, rfl, hj⟩ hne
    exact ⟨j, rfl, List.mem_filter.2 ⟨hj, by simpa using fun h => hne (congrArg some h)⟩⟩

/-- Erasing is defined exactly for the iterators that name a node. -/
theorem exists_erase_iff : (∃ l', l.erase it = some l') ↔ ∃ a, l.Live it a := by
  constructor
  · rintro ⟨l', h⟩
    cases it with
    | none => cases h
    | some i =>
      simp only [erase] at h
      split_ifs at h with hmem
      obtain ⟨⟨j, a⟩, hj, rfl⟩ := List.mem_map.1 hmem
      exact ⟨a, j, rfl, hj⟩
  · rintro ⟨a, h⟩
    obtain ⟨l', -, -, herase, -⟩ := h.erase_eq
    exact ⟨l', herase⟩

/-! ### Dangling iterators -/

/-- The list lost nodes, and got no new ones. -/
structure Shrinks (l l' : LinkedList α) : Prop where
  fresh : l'.fresh = l.fresh
  live : ∀ it a, l'.Live it a → l.Live it a

theorem shrinks_restrict (l : LinkedList α) {nodes : List (ℕ × α)} (h : nodes.Sublist l.nodes) :
    l.Shrinks (l.restrict nodes h) where
  fresh := rfl
  live _ _ := fun ⟨i, hit, hi⟩ => ⟨i, hit, h.subset hi⟩

theorem shrinks_erase (h : l.erase it = some l') : l.Shrinks l' := by
  cases it with
  | none => cases h
  | some i =>
    simp only [erase] at h
    split_ifs at h
    cases h
    exact l.shrinks_restrict _

theorem shrinks_popBack (h : l.popBack = some l') : l.Shrinks l' := by
  unfold popBack at h
  split_ifs at h
  cases h
  exact l.shrinks_restrict _

/-- An iterator made before the node in front was made names an older node. -/
theorem Live.of_pushFront {i : ℕ} (h : (l.pushFront b).Live (some i) a) (hi : i < l.fresh) :
    l.Live (some i) a := by
  obtain ⟨j, hj, hmem⟩ := h
  cases hj
  rcases List.mem_cons.1 hmem with heq | hmem
  · cases heq
    exact absurd hi (Nat.lt_irrefl _)
  · exact ⟨i, rfl, hmem⟩

end LinkedList

end WasmExtensions
