import Mathlib.Data.List.Nodup
import Mathlib.Tactic.ByContra
import Mathlib.Tactic.SplitIfs
import WasmExtensions.Segment.Basic
import WasmExtensions.ZigDemo.Module

/-!
# Which header maps are decoded

The lengths of the keys and values are kept in two arrays, whose size has nothing to do with the
size of the buffer.

* `lengthsLoop_step`, `pairsLoop_step` : one turn of each loop.
* `decodes_iff` : **a header map that fits the buffer is decoded exactly if it fits the arrays.**
-/

namespace WasmExtensions

namespace ZigDemo

open Segment

variable {data middle : Bytes} {n i low offset x : ℕ} {lengths : List ℕ}
  {array keys values : Lengths} {pair : Bytes × Bytes} {todo pairs : List (Bytes × Bytes)}

/-! ### Checked operations -/

theorem add_eq {a b : ℕ} (h : a + b < 2 ^ 32) : add a b = .ok (a + b) := if_pos h

theorem slice_eq (h : At data low middle) : slice data low (low + middle.length) = .ok middle := by
  rw [slice, if_pos ⟨Nat.le_add_right .., h.le_length⟩, h.drop_take]

/-- The first entries of the array. -/
def Holds (array : Lengths) (lengths : List ℕ) : Prop :=
  ∀ i, i < lengths.length → array[i]? = lengths[i]?

theorem holds_nil (array : Lengths) : Holds array [] := by
  intro i hi
  cases hi

theorem load_eq (h : Holds array lengths) (hget : lengths[i]? = some x) :
    load array i = .ok x := by
  obtain ⟨hi, rfl⟩ := List.getElem?_eq_some_iff.1 hget
  have hentry := h i hi
  rw [hget] at hentry
  obtain ⟨hlt, hvalue⟩ := Vector.getElem?_eq_some_iff.1 hentry
  rw [load, dif_pos hlt]
  exact congrArg _ hvalue

/-- Storing the next entry. -/
theorem store_eq (h : Holds array lengths) (hlt : lengths.length < 1024) :
    ∃ array', store array lengths.length x = .ok array' ∧ Holds array' (lengths ++ [x]) := by
  refine ⟨array.set lengths.length x hlt, dif_pos hlt, fun i hi => ?_⟩
  rw [List.length_append, List.length_singleton] at hi
  rw [Vector.getElem?_set hlt]
  split_ifs with heq
  · subst heq
    simp
  · rw [List.getElem?_append_left (by omega)]
    exact h i (by omega)

theorem exists_store_eq (array : Lengths) (x : ℕ) (h : i < 1024) :
    ∃ array', store array i x = .ok array' :=
  ⟨_, dif_pos h⟩

theorem store_eq_error (h : 1024 ≤ i) : store array i x = .error .outOfBounds :=
  dif_neg (Nat.not_lt.2 h)

/-! ### The first loop -/

theorem length_pairLengths : (pairLengths pair).length = 8 := by simp [pairLengths]

/-- One turn of the first loop: two lengths are read, and stored if there is room. -/
theorem lengthsLoop_step (hi : i < n) (h : At data offset (pairLengths pair))
    (hlength : data.length < 2 ^ 32) (hkey : pair.1.length < 2 ^ 32)
    (hvalue : pair.2.length < 2 ^ 32) :
    lengthsLoop data n i offset keys values = (do
      let keys ← store keys i pair.1.length
      let values ← store values i pair.2.length
      lengthsLoop data n (i + 1) (offset + 8) keys values) := by
  have hend := h.le_length
  rw [length_pairLengths] at hend
  have hfirst := slice_eq h.left
  have hsecond := slice_eq h.right
  rw [LittleEndian.length_encode] at hfirst
  rw [LittleEndian.length_encode, LittleEndian.length_encode] at hsecond
  rw [lengthsLoop, if_pos hi]
  simp only [add_eq (show offset + 4 < 2 ^ 32 by omega),
    add_eq (show offset + 4 + 4 < 2 ^ 32 by omega), hfirst, hsecond, bind, Except.bind,
    LittleEndian.decode_encode (show pair.1.length < 256 ^ 4 from hkey),
    LittleEndian.decode_encode (show pair.2.length < 256 ^ 4 from hvalue), Nat.add_assoc,
    Nat.reduceAdd]

def keyLengths (pairs : List (Bytes × Bytes)) : List ℕ := pairs.map fun pair => pair.1.length

def valueLengths (pairs : List (Bytes × Bytes)) : List ℕ := pairs.map fun pair => pair.2.length

/-- All lengths are numbers of 32 bits. -/
def Fit (pairs : List (Bytes × Bytes)) : Prop :=
  ∀ pair ∈ pairs, pair.1.length < 2 ^ 32 ∧ pair.2.length < 2 ^ 32

theorem Fit.tail (h : Fit (pair :: pairs)) : Fit pairs :=
  fun pair' hmem => h pair' (List.mem_cons_of_mem _ hmem)

/-- If there is room, the first loop stores the lengths of all pairs. -/
theorem lengthsLoop_run (done : List (Bytes × Bytes))
    (h : At data offset (todo.flatMap pairLengths)) (hlength : data.length < 2 ^ 32)
    (hfit : Fit todo) (hn : n = done.length + todo.length) (hroom : n ≤ 1024)
    (hkeys : Holds keys (keyLengths done)) (hvalues : Holds values (valueLengths done)) :
    ∃ keys' values', lengthsLoop data n done.length offset keys values =
        .ok (offset + 8 * todo.length, keys', values') ∧
      Holds keys' (keyLengths (done ++ todo)) ∧ Holds values' (valueLengths (done ++ todo)) := by
  -- The pairs whose lengths are stored already say where the next ones go.
  induction todo generalizing done offset keys values with
  | nil =>
    refine ⟨keys, values, ?_, by simpa using hkeys, by simpa using hvalues⟩
    rw [lengthsLoop, if_neg (by simp [hn])]
    rfl
  | cons pair todo ih =>
    rw [List.flatMap_cons] at h
    rw [List.length_cons] at hn
    obtain ⟨hkey, hvalue⟩ := hfit pair List.mem_cons_self
    have hrest := h.right
    rw [length_pairLengths] at hrest
    have hdone : (keyLengths done).length = done.length ∧
        (valueLengths done).length = done.length := by
      simp [keyLengths, valueLengths]
    obtain ⟨keys', hstoreKeys, hkeys'⟩ := store_eq (x := pair.1.length) hkeys (by omega)
    obtain ⟨values', hstoreValues, hvalues'⟩ := store_eq (x := pair.2.length) hvalues (by omega)
    rw [hdone.1] at hstoreKeys
    rw [hdone.2] at hstoreValues
    obtain ⟨keys'', values'', hloop, hkeys'', hvalues''⟩ := ih (done ++ [pair]) hrest hfit.tail
      (by rw [List.length_append, List.length_singleton]; omega)
      (by simpa [keyLengths] using hkeys') (by simpa [valueLengths] using hvalues')
    rw [List.length_append, List.length_singleton] at hloop
    refine ⟨keys'', values'', ?_, by simpa using hkeys'', by simpa using hvalues''⟩
    rw [lengthsLoop_step (by omega) h.left hlength hkey hvalue, hstoreKeys]
    simp only [bind, Except.bind, hstoreValues, hloop, List.length_cons]
    congr 2
    omega

/-- If there is not, it ends the module. -/
theorem lengthsLoop_full (i : ℕ) (keys values : Lengths)
    (h : At data offset (todo.flatMap pairLengths)) (hlength : data.length < 2 ^ 32)
    (hfit : Fit todo) (hn : n = i + todo.length) (hfull : 1024 < n) (hi : i ≤ 1024) :
    lengthsLoop data n i offset keys values = .error .outOfBounds := by
  induction todo generalizing i offset keys values with
  | nil =>
    rw [List.length_nil] at hn
    omega
  | cons pair todo ih =>
    rw [List.flatMap_cons] at h
    rw [List.length_cons] at hn
    obtain ⟨hkey, hvalue⟩ := hfit pair List.mem_cons_self
    have hrest := h.right
    rw [length_pairLengths] at hrest
    rw [lengthsLoop_step (by omega) h.left hlength hkey hvalue]
    by_cases hlast : i = 1024
    · -- The arrays are full: the length of the next key has no place.
      rw [store_eq_error (Nat.le_of_eq hlast.symm)]
      rfl
    · obtain ⟨keys', hkeys⟩ := exists_store_eq keys pair.1.length (show i < 1024 by omega)
      obtain ⟨values', hvalues⟩ := exists_store_eq values pair.2.length (show i < 1024 by omega)
      have hnext := ih (i + 1) keys' values' hrest hfit.tail (by omega) (by omega)
      simp only [bind, Except.bind, hkeys, hvalues, hnext]

/-! ### The second loop -/

section

variable {M : Type} {map : PairMap M} {m m' m'' : M}

theorem length_pairTexts :
    (pairTexts pair).length = pair.1.length + 1 + (pair.2.length + 1) := by
  simp only [pairTexts, List.length_append, List.length_singleton]

/-- One turn of the second loop: a key and its value are read, and put into the map. -/
theorem pairsLoop_step (hi : i < n) (h : At data offset (pairTexts pair))
    (hlength : data.length < 2 ^ 32) (hkey : load keys i = .ok pair.1.length)
    (hvalue : load values i = .ok pair.2.length) (hput : map.put pair.1 pair.2 m = some m') :
    pairsLoop map data n i offset keys values m =
      pairsLoop map data n (i + 1) (offset + (pairTexts pair).length) keys values m' := by
  have hend := h.le_length
  rw [length_pairTexts] at hend
  have hsize : offset + (pairTexts pair).length =
      offset + (pair.1.length + 1) + (pair.2.length + 1) := by
    rw [length_pairTexts, ← Nat.add_assoc offset]
  have hfirst := slice_eq h.left.left
  have hsecond := slice_eq h.right.left
  rw [List.length_append, List.length_singleton] at hsecond
  rw [pairsLoop, if_pos hi]
  simp only [bind, Except.bind, hkey, hvalue,
    add_eq (show pair.1.length + 1 < 2 ^ 32 by omega),
    add_eq (show pair.2.length + 1 < 2 ^ 32 by omega),
    add_eq (show offset + pair.1.length < 2 ^ 32 by omega),
    add_eq (show offset + (pair.1.length + 1) < 2 ^ 32 by omega),
    add_eq (show offset + (pair.1.length + 1) + pair.2.length < 2 ^ 32 by omega),
    add_eq (show offset + (pair.1.length + 1) + (pair.2.length + 1) < 2 ^ 32 by omega),
    hfirst, hsecond, hput, hsize]

/-- A map after putting distinct keys. -/
theorem get_put_lookup (hmap : map.Lawful) (hput : map.put pair.1 pair.2 m = some m')
    (hnotin : pair.1 ∉ todo.map Prod.fst)
    (hrest : ∀ key, map.get m'' key = (todo.lookup key).or (map.get m' key)) (key : Bytes) :
    map.get m'' key = ((pair :: todo).lookup key).or (map.get m key) := by
  rw [hrest, hmap.get_put _ _ _ _ hput, List.lookup_cons]
  by_cases hkey : key = pair.1
  · subst hkey
    have hnone : todo.lookup pair.1 = none := by
      rw [List.lookup_eq_none_iff]
      intro pair' hmem
      have hne : pair.1 ≠ pair'.1 := fun heq => hnotin (heq ▸ List.mem_map_of_mem hmem)
      simpa using hne
    simp [hnone]
  · rw [if_neg hkey, beq_eq_false_iff_ne.2 hkey]

/-- The second loop puts all pairs into the map. -/
theorem pairsLoop_run (hmap : map.Lawful) (done : List (Bytes × Bytes))
    (h : At data offset (todo.flatMap pairTexts)) (hlength : data.length < 2 ^ 32)
    (hn : n = done.length + todo.length) (hkeys : Holds keys (keyLengths (done ++ todo)))
    (hvalues : Holds values (valueLengths (done ++ todo))) (hdistinct : (todo.map Prod.fst).Nodup) :
    ∃ m', pairsLoop map data n done.length offset keys values m = .ok (.ok, m') ∧
      ∀ key, map.get m' key = (todo.lookup key).or (map.get m key) := by
  induction todo generalizing done offset m with
  | nil =>
    refine ⟨m, ?_, fun key => by simp⟩
    rw [pairsLoop, if_neg (by simp [hn])]
    rfl
  | cons pair todo ih =>
    rw [List.flatMap_cons] at h
    rw [List.length_cons] at hn
    rw [List.map_cons, List.nodup_cons] at hdistinct
    obtain ⟨m', hput⟩ := Option.ne_none_iff_exists'.1 (hmap.put_ne_none pair.1 pair.2 m)
    -- The arrays hold the lengths of all pairs, only the offset and the map change.
    have hassoc : done ++ pair :: todo = done ++ [pair] ++ todo := by simp
    obtain ⟨m'', hloop, hget⟩ := ih (done ++ [pair]) h.right
      (by rw [List.length_append, List.length_singleton]; omega) (hassoc ▸ hkeys)
      (hassoc ▸ hvalues) hdistinct.2
    rw [List.length_append, List.length_singleton] at hloop
    refine ⟨m'', ?_, get_put_lookup hmap hput hdistinct.1 hget⟩
    have hkey : load keys done.length = .ok pair.1.length := load_eq hkeys (by simp [keyLengths])
    have hvalue : load values done.length = .ok pair.2.length :=
      load_eq hvalues (by simp [valueLengths])
    rw [pairsLoop_step (by omega) h.left hlength hkey hvalue hput]
    exact hloop

/-! ### Header maps -/

theorem length_flatMap_pairLengths : (pairs.flatMap pairLengths).length = 8 * pairs.length := by
  induction pairs with
  | nil => rfl
  | cons pair pairs ih =>
    rw [List.flatMap_cons, List.length_append, ih, List.length_cons, length_pairLengths]
    omega

/-- What fits the buffer has lengths of 32 bits. -/
theorem fit_of_length_le (h : (serialize pairs).length ≤ bufSize) : Fit pairs := by
  intro pair hmem
  obtain ⟨before, after, rfl⟩ := List.append_of_mem hmem
  simp [serialize, pairTexts, bufSize] at h
  omega

theorem length_lt (h : (serialize pairs).length ≤ bufSize) : pairs.length < 2 ^ 32 := by
  rw [serialize, List.length_append, List.length_append, length_flatMap_pairLengths, bufSize] at h
  omega

theorem length_serialize_lt (h : (serialize pairs).length ≤ bufSize) :
    (serialize pairs).length < 2 ^ 32 :=
  Nat.lt_of_le_of_lt h (by decide)

/-- Where the parts of a serialised header map are. -/
theorem at_serialize (pairs : List (Bytes × Bytes)) :
    At (serialize pairs) 0 (LittleEndian.encode 4 pairs.length) ∧
      At (serialize pairs) 4 (pairs.flatMap pairLengths) ∧
      At (serialize pairs) (4 + 8 * pairs.length) (pairs.flatMap pairTexts) := by
  have hall : At (serialize pairs) 0 (serialize pairs) := ⟨[], [], by simp, rfl⟩
  have hlengths := hall.left.right
  have htexts := hall.right
  rw [LittleEndian.length_encode] at hlengths
  rw [List.length_append, LittleEndian.length_encode, length_flatMap_pairLengths] at htexts
  rw [Nat.zero_add] at hlengths htexts
  exact ⟨hall.left.left, hlengths, htexts⟩

/-- The number of pairs is read first. -/
theorem parsePairs_eq (h : (serialize pairs).length ≤ bufSize) :
    parsePairs map keys values (serialize pairs) m = (do
      let (offset, keys, values) ← lengthsLoop (serialize pairs) pairs.length 0 4 keys values
      pairsLoop map (serialize pairs) pairs.length 0 offset keys values m) := by
  have hcount : slice (serialize pairs) 0 4 = .ok (LittleEndian.encode 4 pairs.length) := by
    have hslice := slice_eq (at_serialize pairs).1
    rwa [LittleEndian.length_encode] at hslice
  have hn : LittleEndian.decode (LittleEndian.encode 4 pairs.length) = pairs.length :=
    LittleEndian.decode_encode (length_lt h)
  rw [parsePairs, hcount]
  simp only [bind, Except.bind, hn]

/-- If there is room for the lengths, the pairs are decoded. -/
theorem parsePairs_run (hmap : map.Lawful) (h : (serialize pairs).length ≤ bufSize)
    (hdistinct : (pairs.map Prod.fst).Nodup) (hroom : pairs.length ≤ 1024) :
    ∃ m', parsePairs map keys values (serialize pairs) m = .ok (.ok, m') ∧
      ∀ key, map.get m' key = (pairs.lookup key).or (map.get m key) := by
  obtain ⟨-, hlengthsAt, htextsAt⟩ := at_serialize pairs
  have hlength := length_serialize_lt h
  have hn : pairs.length = ([] : List (Bytes × Bytes)).length + pairs.length :=
    (Nat.zero_add _).symm
  obtain ⟨keys', values', hlengths, hkeys, hvalues⟩ := lengthsLoop_run [] hlengthsAt hlength
    (fit_of_length_le h) hn hroom (holds_nil keys) (holds_nil values)
  obtain ⟨m', hpairs, hget⟩ := pairsLoop_run (m := m) hmap [] htextsAt hlength hn hkeys hvalues
    hdistinct
  rw [List.length_nil] at hlengths hpairs
  refine ⟨m', ?_, hget⟩
  rw [parsePairs_eq h]
  simp only [bind, Except.bind, hlengths, hpairs]

/-- If there is not, the module ends. -/
theorem parsePairs_full (h : (serialize pairs).length ≤ bufSize) (hfull : 1024 < pairs.length) :
    parsePairs map keys values (serialize pairs) m = .error .outOfBounds := by
  obtain ⟨-, hlengthsAt, -⟩ := at_serialize pairs
  have hlengths := lengthsLoop_full 0 keys values hlengthsAt (length_serialize_lt h)
    (fit_of_length_le h) (Nat.zero_add _).symm hfull (by decide)
  rw [parsePairs_eq h]
  simp only [bind, Except.bind, hlengths]

/-- The host can deliver what fits the buffer. -/
theorem getAllHeaders_eq {memory : Buffer} (h : data.length ≤ bufSize) :
    getAllHeaders map keys values .ok data memory m = parsePairs map keys values data m := by
  have hslice : slice (data ++ memory.buf.drop data.length) 0 data.length = .ok data := by
    have hat : At (data ++ memory.buf.drop data.length) 0 data := at_zero
    simpa using slice_eq hat
  simp only [getAllHeaders, if_true, deliver, malloc, if_neg (Nat.not_lt.2 h), dif_pos h, buffer,
    write, bind, Except.bind, pure, Except.pure, hslice]

/-- A header map is decoded: no check fails, and the hash map holds the pairs in addition to what it
held before. -/
def Decodes (map : PairMap M) (keys values : Lengths) (memory : Buffer) (m : M)
    (pairs : List (Bytes × Bytes)) : Prop :=
  ∃ m', getAllHeaders map keys values .ok (serialize pairs) memory m = .ok (.ok, m') ∧
    ∀ key, map.get m' key = (pairs.lookup key).or (map.get m key)

/-- **A header map that fits the buffer is decoded exactly if it fits the arrays.** -/
theorem decodes_iff (hmap : map.Lawful) {memory : Buffer} (hdistinct : (pairs.map Prod.fst).Nodup)
    (h : (serialize pairs).length ≤ bufSize) :
    Decodes map keys values memory m pairs ↔ pairs.length ≤ 1024 := by
  rw [Decodes, getAllHeaders_eq h]
  constructor
  · rintro ⟨m', hok, -⟩
    by_contra hfull
    rw [parsePairs_full h (Nat.lt_of_not_le hfull)] at hok
    cases hok
  · exact parsePairs_run hmap h hdistinct

end

/-- A hash map that is a function. -/
def functionMap : PairMap (Bytes → Option Bytes) where
  put key value m := some fun key' => if key' = key then some value else m key'
  get m key := m key

theorem functionMap_lawful : functionMap.Lawful where
  put_ne_none _ _ _ := by simp [functionMap]
  get_put key value m m' h key' := by
    cases h
    rfl

def zeroBuffer : Buffer where
  buf := List.replicate bufSize 0
  bufLen := 0
  length_buf := List.length_replicate

def zeroLengths : Lengths := Vector.replicate 1024 0

/-- Headers with a number as the name and no value. -/
def numberedHeaders (n : ℕ) : List (Bytes × Bytes) :=
  (List.range n).map fun i => (LittleEndian.encode 4 i, [])

theorem length_serialize_numberedHeaders (n : ℕ) :
    (serialize (numberedHeaders n)).length = 4 + 14 * n := by
  have hcount : (numberedHeaders n).length = n := by simp [numberedHeaders]
  have htexts : ((numberedHeaders n).flatMap pairTexts).length = 6 * n := by
    induction n with
    | zero => rfl
    | succ n ih =>
      have hsucc :
          numberedHeaders (n + 1) = numberedHeaders n ++ [(LittleEndian.encode 4 n, [])] := by
        simp [numberedHeaders, List.range_succ]
      rw [hsucc, List.flatMap_append, List.length_append, ih (by simp [numberedHeaders])]
      simp [pairTexts]
      omega
  rw [serialize, List.length_append, List.length_append, length_flatMap_pairLengths, htexts, hcount,
    LittleEndian.length_encode]
  omega

theorem nodup_numberedHeaders {n : ℕ} (h : n ≤ 2 ^ 32) :
    ((numberedHeaders n).map Prod.fst).Nodup := by
  rw [numberedHeaders, List.map_map]
  refine List.Nodup.map_on (fun i hi j hj heq => ?_) List.nodup_range
  -- The names are encoded numbers, so they can be decoded.
  have hi' : i < 256 ^ 4 := Nat.lt_of_lt_of_le (List.mem_range.1 hi) h
  have hj' : j < 256 ^ 4 := Nat.lt_of_lt_of_le (List.mem_range.1 hj) h
  have hdecode : LittleEndian.decode (LittleEndian.encode 4 i) =
      LittleEndian.decode (LittleEndian.encode 4 j) := congrArg _ heq
  rwa [LittleEndian.decode_encode hi', LittleEndian.decode_encode hj'] at hdecode

/-- One pair more than the arrays have entries; it is far from filling the buffer. -/
theorem not_decodes_numberedHeaders :
    ((numberedHeaders 1025).map Prod.fst).Nodup ∧
    (serialize (numberedHeaders 1025)).length ≤ bufSize ∧
    getAllHeaders functionMap zeroLengths zeroLengths .ok (serialize (numberedHeaders 1025))
      zeroBuffer (fun _ => none) = .error .outOfBounds ∧
    ¬ Decodes functionMap zeroLengths zeroLengths zeroBuffer (fun _ => none)
      (numberedHeaders 1025) := by
  have hfits : (serialize (numberedHeaders 1025)).length ≤ bufSize := by
    rw [length_serialize_numberedHeaders]
    decide
  have hfull : 1024 < (numberedHeaders 1025).length := by simp [numberedHeaders]
  have herror : getAllHeaders functionMap zeroLengths zeroLengths .ok
      (serialize (numberedHeaders 1025)) zeroBuffer (fun _ => none) = .error .outOfBounds := by
    rw [getAllHeaders_eq hfits, parsePairs_full hfits hfull]
  refine ⟨nodup_numberedHeaders (by decide), hfits, herror, ?_⟩
  rintro ⟨m', hok, -⟩
  rw [herror] at hok
  cases hok

/-- The arrays are just large enough. -/
theorem decodes_numberedHeaders :
    Decodes functionMap zeroLengths zeroLengths zeroBuffer (fun _ => none)
      (numberedHeaders 1024) := by
  have hfits : (serialize (numberedHeaders 1024)).length ≤ bufSize := by
    rw [length_serialize_numberedHeaders]
    decide
  exact (decodes_iff functionMap_lawful (nodup_numberedHeaders (by decide)) hfits).2
    (by simp [numberedHeaders])

end ZigDemo

end WasmExtensions
