import WasmExtensions.ZigDemo.ParsePairs

/-!
# What is accepted as a header map

What arrives in the buffer need not have been written by `serialize`.  The bytes between the keys
and values are skipped, not read, and nobody looks at what is behind the last value.

* `Describes data pairs` : the bytes that count say that the header map is `pairs`, as they do in
  what the host writes (`describes_serialize`).
* `accepted_iff` : **exactly what describes a header map that fits the arrays is accepted**, and put
  into the hash map pair by pair.
-/

namespace WasmExtensions

namespace ZigDemo

open Segment

variable {data middle : Bytes} {n i low high offset offset' x : ℕ} {lengths : List ℕ}
  {array array' keys values keys' values' : Lengths} {pair : Bytes × Bytes}
  {pairs todo : List (Bytes × Bytes)}

/-- The keys and values are where their lengths say, each with one byte behind it.  The last of
these bytes may be missing. -/
def TextsAt (data : Bytes) : ℕ → List (Bytes × Bytes) → Prop
  | _, [] => True
  | offset, pair :: pairs =>
    At data offset pair.1 ∧ At data (offset + (pair.1.length + 1)) pair.2 ∧
      TextsAt data (offset + (pair.1.length + 1) + (pair.2.length + 1)) pairs

/-- The bytes that count say that the header map is `pairs`. -/
structure Describes (data : Bytes) (pairs : List (Bytes × Bytes)) : Prop where
  count : At data 0 (LittleEndian.encode 4 pairs.length)
  lengths : At data 4 (pairs.flatMap pairLengths)
  texts : TextsAt data (4 + 8 * pairs.length) pairs

theorem textsAt_of_at (h : At data offset (pairs.flatMap pairTexts)) :
    TextsAt data offset pairs := by
  induction pairs generalizing offset with
  | nil => trivial
  | cons pair pairs ih =>
    rw [List.flatMap_cons] at h
    have hvalue := h.left.right.left
    have hrest := h.right
    rw [List.length_append, List.length_singleton] at hvalue
    rw [length_pairTexts, ← Nat.add_assoc offset] at hrest
    exact ⟨h.left.left.left, hvalue, ih hrest⟩

/-- What the host writes for a header map describes it. -/
theorem describes_serialize (pairs : List (Bytes × Bytes)) : Describes (serialize pairs) pairs := by
  obtain ⟨hcount, hlengths, htexts⟩ := at_serialize pairs
  exact ⟨hcount, hlengths, textsAt_of_at htexts⟩

/-! ### Checks that succeed -/

theorem bind_eq_ok_iff {A B : Type} {action : Except Fault A} {next : A → Except Fault B} {b : B} :
    (action >>= next) = .ok b ↔ ∃ a, action = .ok a ∧ next a = .ok b := by
  cases action with
  | error fault => exact ⟨nofun, nofun⟩
  | ok a => exact ⟨fun h => ⟨a, rfl, h⟩, fun ⟨_, hok, h⟩ => by cases hok; exact h⟩

theorem add_eq_ok_iff {a b : ℕ} : add a b = .ok x ↔ a + b < 2 ^ 32 ∧ a + b = x := by
  unfold add
  split_ifs with h
  · exact ⟨fun hok => ⟨h, Except.ok.inj hok⟩, fun ⟨_, heq⟩ => congrArg _ heq⟩
  · exact ⟨nofun, fun ⟨hlt, _⟩ => absurd hlt h⟩

theorem slice_eq_ok_iff : slice data low high = .ok middle ↔
    At data low middle ∧ low + middle.length = high := by
  constructor
  · intro h
    unfold slice at h
    split_ifs at h with hbounds
    obtain rfl := Except.ok.inj h
    refine ⟨at_cut hbounds.1 hbounds.2, ?_⟩
    rw [List.length_drop, List.length_take]
    omega
  · rintro ⟨hat, rfl⟩
    exact slice_eq hat

theorem Holds.of_store (h : Holds array lengths)
    (hstore : store array lengths.length x = .ok array') :
    lengths.length < 1024 ∧ Holds array' (lengths ++ [x]) := by
  by_cases hlt : lengths.length < 1024
  · obtain ⟨array'', hstore', hholds⟩ := store_eq (x := x) h hlt
    rw [hstore] at hstore'
    obtain rfl := Except.ok.inj hstore'
    exact ⟨hlt, hholds⟩
  · rw [store_eq_error (Nat.le_of_not_lt hlt)] at hstore
    cases hstore

/-- Four bytes are a number. -/
theorem slice_four (h : slice data low (low + 4) = .ok middle) :
    At data low (LittleEndian.encode 4 (LittleEndian.decode middle)) := by
  obtain ⟨hat, hlength⟩ := slice_eq_ok_iff.1 h
  have hencode := LittleEndian.encode_decode middle
  rw [show middle.length = 4 by omega] at hencode
  rwa [hencode]

/-! ### The first loop -/

/-- Two lengths as they are read. -/
def numbers (lengths : ℕ × ℕ) : Bytes :=
  LittleEndian.encode 4 lengths.1 ++ LittleEndian.encode 4 lengths.2

theorem length_numbers (lengths : ℕ × ℕ) : (numbers lengths).length = 8 := by simp [numbers]

/-- If a turn of the first loop succeeds, two lengths have been read and stored. -/
theorem lengthsLoop_step_inv {result : ℕ × Lengths × Lengths} (hi : i < n)
    (h : lengthsLoop data n i offset keys values = .ok result) :
    ∃ (lengths : ℕ × ℕ) (keys' values' : Lengths), At data offset (numbers lengths) ∧
      store keys i lengths.1 = .ok keys' ∧ store values i lengths.2 = .ok values' ∧
      lengthsLoop data n (i + 1) (offset + 8) keys' values' = .ok result := by
  rw [lengthsLoop, if_pos hi] at h
  simp only [bind_eq_ok_iff, add_eq_ok_iff] at h
  obtain ⟨_, ⟨-, rfl⟩, first, hfirst, keys', hkeys, _, ⟨-, rfl⟩, _, ⟨-, rfl⟩, second, hsecond,
    values', hvalues, _, ⟨-, rfl⟩, hrest⟩ := h
  refine ⟨(LittleEndian.decode first, LittleEndian.decode second), keys', values', ?_, hkeys,
    hvalues, hrest⟩
  refine (slice_four hfirst).append ?_
  rw [LittleEndian.length_encode]
  exact slice_four hsecond

/-- If the first loop succeeds, the arrays hold the lengths that are in the data. -/
theorem lengthsLoop_inv (todo : ℕ) (done : List (ℕ × ℕ)) (hn : n = done.length + todo)
    (hoffset : offset ≤ data.length) (hdone : done.length ≤ 1024)
    (hkeys : Holds keys (done.map Prod.fst)) (hvalues : Holds values (done.map Prod.snd))
    (h : lengthsLoop data n done.length offset keys values = .ok (offset', keys', values')) :
    ∃ lengths : List (ℕ × ℕ), lengths.length = todo ∧ n ≤ 1024 ∧
      At data offset (lengths.flatMap numbers) ∧ offset' = offset + 8 * todo ∧
      Holds keys' ((done ++ lengths).map Prod.fst) ∧
      Holds values' ((done ++ lengths).map Prod.snd) := by
  induction todo generalizing done offset keys values with
  | zero =>
    rw [lengthsLoop, if_neg (by omega)] at h
    cases h
    exact ⟨[], rfl, by omega, at_nil hoffset, rfl, by simpa using hkeys, by simpa using hvalues⟩
  | succ todo ih =>
    obtain ⟨first, keys₁, values₁, hat, hstoreKeys, hstoreValues, hrest⟩ :=
      lengthsLoop_step_inv (by omega) h
    rw [← List.length_map Prod.fst] at hstoreKeys
    rw [← List.length_map Prod.snd] at hstoreValues
    obtain ⟨hroom, hkeys₁⟩ := hkeys.of_store hstoreKeys
    obtain ⟨-, hvalues₁⟩ := hvalues.of_store hstoreValues
    have hend := hat.le_length
    rw [length_numbers] at hend
    rw [List.length_map] at hroom
    have hlength : (done ++ [first]).length = done.length + 1 := List.length_append
    obtain ⟨lengths, hlengths, hle, hats, hoffset', hkeys', hvalues'⟩ :=
      ih (done ++ [first]) (by omega) hend (by omega) (by simpa using hkeys₁)
        (by simpa using hvalues₁) (hlength ▸ hrest)
    refine ⟨first :: lengths, by simp [hlengths], hle, ?_, by omega, by simpa using hkeys',
      by simpa using hvalues'⟩
    rw [List.flatMap_cons]
    refine hat.append ?_
    rwa [length_numbers]

/-! ### The second loop -/

def lengthsOf (pair : Bytes × Bytes) : ℕ × ℕ := (pair.1.length, pair.2.length)

/-- The hash map after the pairs, one by one. -/
def putAll {M : Type} (map : PairMap M) (pairs : List (Bytes × Bytes)) (m : M) : Option M :=
  pairs.foldlM (fun m pair => map.put pair.1 pair.2 m) m

section

variable {M : Type} {map : PairMap M} {m m' : M}

/-- A turn of the second loop succeeds exactly if a key and a value are there. -/
theorem pairsLoop_step_iff {k v : ℕ} (hi : i < n) (hlength : data.length ≤ bufSize)
    (hkey : load keys i = .ok k) (hvalue : load values i = .ok v) :
    pairsLoop map data n i offset keys values m = .ok (.ok, m') ↔
      ∃ pair, lengthsOf pair = (k, v) ∧ At data offset pair.1 ∧
        At data (offset + (pair.1.length + 1)) pair.2 ∧ ∃ m₁, map.put pair.1 pair.2 m = some m₁ ∧
          pairsLoop map data n (i + 1) (offset + (pair.1.length + 1) + (pair.2.length + 1)) keys
            values m₁ = .ok (.ok, m') := by
  rw [pairsLoop, if_pos hi]
  simp only [bind_eq_ok_iff, add_eq_ok_iff, hkey, hvalue, slice_eq_ok_iff, Except.ok.injEq,
    and_assoc, exists_and_left, exists_eq_left', Nat.add_left_cancel_iff]
  constructor
  · rintro ⟨-, key, hkeyAt, rfl, -, -, -, value, hvalueAt, rfl, -, -, h⟩
    cases hput : map.put key value m with
    | none =>
      rw [hput] at h
      cases h
    | some m₁ =>
      rw [hput] at h
      exact ⟨(key, value), rfl, hkeyAt, hvalueAt, m₁, hput, h⟩
  · rintro ⟨⟨key, value⟩, hlengths, hkeyAt, hvalueAt, m₁, hput, h⟩
    obtain ⟨rfl, rfl⟩ := Prod.mk.inj hlengths
    -- The buffer is so small that no sum overflows.
    have hkeyEnd := hkeyAt.le_length
    have hvalueEnd := hvalueAt.le_length
    rw [bufSize] at hlength
    refine ⟨by omega, key, hkeyAt, rfl, by omega, by omega, by omega, value, hvalueAt, rfl,
      by omega, by omega, ?_⟩
    rw [hput]
    exact h

/-- The second loop succeeds exactly if the keys and values are there. -/
theorem pairsLoop_eq_ok_iff (done todo : List (ℕ × ℕ)) (hlength : data.length ≤ bufSize)
    (hkeys : Holds keys ((done ++ todo).map Prod.fst))
    (hvalues : Holds values ((done ++ todo).map Prod.snd)) (hn : n = done.length + todo.length) :
    pairsLoop map data n done.length offset keys values m = .ok (.ok, m') ↔
      ∃ pairs, pairs.map lengthsOf = todo ∧ TextsAt data offset pairs ∧
        putAll map pairs m = some m' := by
  induction todo generalizing done offset m with
  | nil =>
    rw [pairsLoop, if_neg (by rw [List.length_nil] at hn; omega)]
    constructor
    · intro h
      cases h
      exact ⟨[], rfl, trivial, rfl⟩
    · rintro ⟨pairs, hnil, -, hput⟩
      rw [List.map_eq_nil_iff.1 hnil] at hput
      cases hput
      rfl
  | cons lengths todo ih =>
    rw [List.length_cons] at hn
    have hkey : load keys done.length = .ok lengths.1 := load_eq hkeys (by simp)
    have hvalue : load values done.length = .ok lengths.2 := load_eq hvalues (by simp)
    have hassoc : done ++ lengths :: todo = done ++ [lengths] ++ todo := by simp
    have hdone : (done ++ [lengths]).length = done.length + 1 := List.length_append
    have hrest {offset : ℕ} {m : M} :
        pairsLoop map data n (done ++ [lengths]).length offset keys values m = .ok (.ok, m') ↔
          ∃ pairs, pairs.map lengthsOf = todo ∧ TextsAt data offset pairs ∧
            putAll map pairs m = some m' :=
      ih (done ++ [lengths]) (hassoc ▸ hkeys) (hassoc ▸ hvalues) (by omega)
    rw [hdone] at hrest
    rw [pairsLoop_step_iff (by omega) hlength hkey hvalue]
    constructor
    · rintro ⟨pair, hlengths, hkeyAt, hvalueAt, m₁, hput, h⟩
      obtain ⟨pairs, hpairs, htexts, hputAll⟩ := hrest.1 h
      refine ⟨pair :: pairs, ?_, ⟨hkeyAt, hvalueAt, htexts⟩, ?_⟩
      · rw [List.map_cons, hlengths, hpairs]
      · rw [putAll, List.foldlM_cons, hput]
        exact hputAll
    · rintro ⟨_ | ⟨pair, pairs⟩, hpairs, htexts, hputAll⟩
      · cases hpairs
      · obtain ⟨hlengths, htodo⟩ := List.cons.inj hpairs
        obtain ⟨hkeyAt, hvalueAt, htexts⟩ := htexts
        obtain ⟨m₁, hput, hputAll⟩ := Option.bind_eq_some_iff.1 hputAll
        exact ⟨pair, hlengths, hkeyAt, hvalueAt, m₁, hput, hrest.2 ⟨pairs, htodo, htexts, hputAll⟩⟩

/-! ### Header maps -/

theorem TextsAt.fit (hlength : data.length ≤ bufSize) (h : TextsAt data offset pairs) :
    Fit pairs := by
  induction pairs generalizing offset with
  | nil => exact fun pair hmem => nomatch hmem
  | cons pair pairs ih =>
    obtain ⟨hkeyAt, hvalueAt, htexts⟩ := h
    have hkeyEnd := hkeyAt.le_length
    have hvalueEnd := hvalueAt.le_length
    rw [bufSize] at hlength
    intro pair' hmem
    rcases List.mem_cons.1 hmem with rfl | hmem
    · exact ⟨by omega, by omega⟩
    · exact ih htexts pair' hmem

theorem flatMap_numbers : (pairs.map lengthsOf).flatMap numbers = pairs.flatMap pairLengths := by
  rw [List.flatMap_map]
  rfl

/-- What describes a header map that fits the arrays is accepted, and nothing else. -/
theorem parsePairs_eq_ok_iff (hlength : data.length ≤ bufSize) :
    parsePairs map keys values data m = .ok (.ok, m') ↔
      ∃ pairs, pairs.length ≤ 1024 ∧ Describes data pairs ∧ putAll map pairs m = some m' := by
  rw [parsePairs]
  simp only [bind_eq_ok_iff]
  constructor
  · rintro ⟨count, hcount, ⟨offset, keys', values'⟩, hlengths, h⟩
    have hcountAt := slice_four hcount
    have hend := hcountAt.le_length
    rw [LittleEndian.length_encode] at hend
    obtain ⟨lengths, hn, hroom, hlengthsAt, rfl, hkeys, hvalues⟩ :=
      lengthsLoop_inv (LittleEndian.decode count) [] (by simp) hend (by simp) (holds_nil keys)
        (holds_nil values) hlengths
    obtain ⟨pairs, rfl, htexts, hput⟩ :=
      (pairsLoop_eq_ok_iff [] lengths hlength hkeys hvalues (by simp [hn])).1 h
    rw [List.length_map] at hn
    refine ⟨pairs, by omega, ⟨hn ▸ hcountAt, flatMap_numbers ▸ hlengthsAt, ?_⟩, hput⟩
    rwa [hn]
  · rintro ⟨pairs, hroom, ⟨hcount, hlengthsAt, htexts⟩, hput⟩
    have hdecode : LittleEndian.decode (LittleEndian.encode 4 pairs.length) = pairs.length :=
      LittleEndian.decode_encode (Nat.lt_of_le_of_lt hroom (by decide))
    have hn : pairs.length = ([] : List (Bytes × Bytes)).length + pairs.length :=
      (Nat.zero_add _).symm
    obtain ⟨keys', values', hlengths, hkeys, hvalues⟩ := lengthsLoop_run [] hlengthsAt
      (Nat.lt_of_le_of_lt hlength (by decide)) (htexts.fit hlength) hn hroom (holds_nil keys)
      (holds_nil values)
    have hpairs : pairsLoop map data pairs.length 0 (4 + 8 * pairs.length) keys' values' m =
        .ok (.ok, m') := by
      refine (pairsLoop_eq_ok_iff [] (pairs.map lengthsOf) hlength ?_ ?_ ?_).2
        ⟨pairs, rfl, htexts, hput⟩
      · rw [List.nil_append, List.map_map]
        exact hkeys
      · rw [List.nil_append, List.map_map]
        exact hvalues
      · rw [List.length_map]
        exact hn
    refine ⟨_, slice_eq_ok_iff.2 ⟨hcount, ?_⟩, _, hdecode.symm ▸ hlengths, hdecode.symm ▸ hpairs⟩
    rw [LittleEndian.length_encode]

/-- **What is accepted as a header map**, whatever the buffer and the arrays held before: exactly
what fits the buffer and describes a header map that fits the arrays. -/
theorem accepted_iff (map : PairMap M) (keys values : Lengths) (data : Bytes) (memory : Buffer)
    (m m' : M) :
    getAllHeaders map keys values .ok data memory m = .ok (.ok, m') ↔
      data.length ≤ bufSize ∧
        ∃ pairs, pairs.length ≤ 1024 ∧ Describes data pairs ∧ putAll map pairs m = some m' := by
  by_cases hlength : data.length ≤ bufSize
  · rw [getAllHeaders_eq hlength, parsePairs_eq_ok_iff hlength]
    exact (and_iff_right hlength).symm
  · refine ⟨fun h => ?_, fun h => absurd h.1 hlength⟩
    rw [getAllHeaders, if_pos rfl, deliver, malloc, if_pos (Nat.lt_of_not_le hlength)] at h
    cases h

end

end ZigDemo

end WasmExtensions
