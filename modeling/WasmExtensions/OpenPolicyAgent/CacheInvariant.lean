import WasmExtensions.OpenPolicyAgent.Cache
import Mathlib.Algebra.GroupWithZero.Nat
import Mathlib.Data.List.Perm.Basic

/-!
# When the cache of policy decisions is consistent

The three containers of the cache belong together: the hashes of `recent_` are the keys of the
two maps, and `pos_` holds live iterators (`Wf`).  Every call keeps this, except for an eviction:
the evicted hash goes through an `int`, and if it is not the same number afterwards, the wrong
keys are erased and `pos_` is left with a dangling iterator.

* `wf_iff_evictsWhole` : **the cache stays consistent exactly as long as every evicted hash is the
  sign-extension of its low 32 bits.**
* `not_wf_after_eviction` : a run that breaks the cache.
-/

namespace WasmExtensions

namespace OpenPolicyAgent

namespace ResultCache

/-- The containers of the cache are consistent. -/
structure Wf (c : ResultCache) : Prop where
  nodup : c.recent.values.Nodup
  size_le : c.recent.size ≤ maxNumEntry
  pos_iff : ∀ h, (c.pos h).isSome ↔ h ∈ c.recent.values
  resultCache_iff : ∀ h, (c.resultCache h).isSome ↔ h ∈ c.recent.values
  live : ∀ h it, c.pos h = some it → c.recent.Live it h

/-- The cache in the middle of `use`: there is room for `hash`, which is not in the list, and the
containers are consistent for all other hashes. -/
structure Room (c : ResultCache) (hash : UInt64) : Prop where
  nodup : c.recent.values.Nodup
  notMem : hash ∉ c.recent.values
  size_lt : c.recent.size < maxNumEntry
  pos_iff : ∀ h, h ≠ hash → ((c.pos h).isSome ↔ h ∈ c.recent.values)
  resultCache_iff : ∀ h, h ≠ hash → ((c.resultCache h).isSome ↔ h ∈ c.recent.values)
  live : ∀ h it, h ≠ hash → c.pos h = some it → c.recent.Live it h

/-- `use hash` pushes the hash `back` out of the cache. -/
structure Evicts (c : ResultCache) (hash back : UInt64) : Prop where
  pos : c.pos hash = none
  full : c.recent.size ≥ maxNumEntry
  back : c.recent.back? = some back

variable {c c' : ResultCache} {hash : UInt64}

theorem wf_empty : Wf empty where
  nodup := List.nodup_nil
  size_le := Nat.zero_le _
  pos_iff h := by simp [empty]
  resultCache_iff h := by simp [empty]
  live h it hpos := by simp [empty] at hpos

/-! ### Keys -/

section

variable {β : Type*} {f : UInt64 → Option β} {values : List UInt64}

/-- Erasing a key that is not in the list. -/
theorem isSome_update_none (hnotMem : hash ∉ values)
    (hf : ∀ h, h ≠ hash → ((f h).isSome ↔ h ∈ values)) (h : UInt64) :
    (Function.update f hash none h).isSome ↔ h ∈ values := by
  by_cases hne : h = hash
  · rw [hne, Function.update_self]
    exact iff_of_false (by simp) hnotMem
  · rw [Function.update_of_ne hne]
    exact hf h hne

/-- Storing a key that is in front of the list. -/
theorem isSome_update_some {b : Option β} (hb : b.isSome)
    (hf : ∀ h, h ≠ hash → ((f h).isSome ↔ h ∈ values)) (h : UInt64) :
    (Function.update f hash b h).isSome ↔ h ∈ hash :: values := by
  by_cases hne : h = hash
  · rw [hne, Function.update_self]
    exact iff_of_true hb (List.mem_cons_self ..)
  · rw [Function.update_of_ne hne, List.mem_cons, or_iff_right hne]
    exact hf h hne

end

/-! ### `makeRoom` -/

theorem Evicts.makeRoom_eq {back : UInt64} (h : Evicts c hash back) {recent : LinkedList UInt64}
    (hpop : c.recent.popBack = some recent) :
    c.makeRoom hash = some { c with
      recent := recent
      resultCache := Function.update c.resultCache (throughInt back) none
      pos := Function.update c.pos (throughInt back) none } := by
  simp only [makeRoom, h.pos, if_pos h.full, h.back, hpop, bind, Option.bind]
  rfl

/-- A full cache has something to evict for a hash that it does not have. -/
theorem exists_evicts (hpos : c.pos hash = none) (hfull : c.recent.size ≥ maxNumEntry) :
    ∃ back, Evicts c hash back := by
  have hne : c.recent.values ≠ [] := by
    intro hnil
    rw [LinkedList.size_eq, hnil] at hfull
    exact absurd hfull (by decide)
  refine ⟨c.recent.values.getLast hne, hpos, hfull, ?_⟩
  rw [LinkedList.back?_eq]
  exact List.getLast?_eq_some_getLast hne

/-- An eviction has something to evict. -/
theorem Evicts.exists_popBack {back : UInt64} (h : Evicts c hash back) :
    ∃ recent, c.recent.popBack = some recent ∧ c.recent.values = recent.values ++ [back] ∧
      ∀ it a, c.recent.Live it a → a ≠ back → recent.Live it a := by
  have hnil : c.recent.values ≠ [] := by
    intro hnil
    have hb := h.back
    rw [LinkedList.back?_eq, hnil] at hb
    cases hb
  obtain ⟨recent, hpop⟩ := LinkedList.exists_popBack hnil
  obtain ⟨b, hb, hvalues, hkeep⟩ := LinkedList.popBack_eq hpop
  obtain rfl : back = b := Option.some.inj (h.back.symm.trans hb)
  exact ⟨recent, hpop, hvalues, hkeep⟩

theorem Wf.notMem_of_pos (h : Wf c) (hpos : c.pos hash = none) : hash ∉ c.recent.values := by
  intro hmem
  have hsome := (h.pos_iff hash).2 hmem
  rw [hpos] at hsome
  cases hsome

/-- The part of a consistent cache that is left when one value is taken out of the list. -/
theorem Wf.room_of_erase (h : Wf c) {recent : LinkedList UInt64} {pre post : List UInt64}
    (hvalues : c.recent.values = pre ++ hash :: post) (hrecent : recent.values = pre ++ post)
    (hlive : ∀ h it, h ≠ hash → c.recent.Live it h → recent.Live it h) :
    Room { c with recent := recent } hash := by
  have hperm : (c.recent.values).Perm (hash :: recent.values) := by
    rw [hvalues, hrecent]
    exact List.perm_middle
  have hnodup := hperm.nodup_iff.1 h.nodup
  have hmem (h' : UInt64) (hne : h' ≠ hash) : h' ∈ c.recent.values ↔ h' ∈ recent.values := by
    rw [hperm.mem_iff, List.mem_cons, or_iff_right hne]
  refine ⟨hnodup.of_cons, hnodup.notMem, ?_, fun h' hne => ?_, fun h' hne => ?_, ?_⟩
  · have hsize := h.size_le
    rw [LinkedList.size_eq, hperm.length_eq, List.length_cons, ← LinkedList.size_eq] at hsize
    exact hsize
  · rw [← hmem h' hne]
    exact h.pos_iff h'
  · rw [← hmem h' hne]
    exact h.resultCache_iff h'
  · intro h' it hne hpos
    exact hlive h' it hne (h.live h' it hpos)

/-- A hash that is in the list leaves it. -/
theorem Wf.makeRoom_hit (h : Wf c) {it : LinkedList.Iterator} (hpos : c.pos hash = some it) :
    ∃ recent, c.recent.erase it = some recent ∧ Room { c with recent := recent } hash := by
  have hlive := h.live hash it hpos
  obtain ⟨recent, pre, post, herase, hvalues, hrecent, hkeep⟩ := hlive.erase_eq
  refine ⟨recent, herase, h.room_of_erase hvalues hrecent fun h' it' hne hlive' => ?_⟩
  refine hkeep it' h' hlive' ?_
  rintro rfl
  exact hne (hlive'.inj hlive)

/-- A hash that goes into a cache with room for it. -/
theorem Wf.room (h : Wf c) (hpos : c.pos hash = none) (hsize : c.recent.size < maxNumEntry) :
    Room c hash where
  nodup := h.nodup
  notMem := h.notMem_of_pos hpos
  size_lt := hsize
  pos_iff h' _ := h.pos_iff h'
  resultCache_iff h' _ := h.resultCache_iff h'
  live h' it _ := h.live h' it

/-- The eviction of the hash that is in the list makes room. -/
theorem Wf.makeRoom_evict (h : Wf c) {back : UInt64} (hev : Evicts c hash back)
    (hback : throughInt back = back) :
    ∃ c', c.makeRoom hash = some c' ∧ Room c' hash ∧ c'.resultCache hash = c.resultCache hash := by
  obtain ⟨recent, hpop, hvalues, hkeep⟩ := hev.exists_popBack
  have hroom : Room { c with recent := recent } back :=
    h.room_of_erase hvalues (List.append_nil _).symm
      fun h' it' hne hlive' => hkeep it' h' hlive' hne
  have hnotMem := h.notMem_of_pos hev.pos
  have hne : hash ≠ back := by
    rintro rfl
    exact hnotMem (by rw [hvalues]; simp)
  refine ⟨_, hev.makeRoom_eq hpop, ?_, by rw [hback]; exact Function.update_of_ne hne ..⟩
  rw [hback]
  refine ⟨hroom.nodup, fun hmem => ?_, hroom.size_lt,
    fun h' _ => isSome_update_none hroom.notMem hroom.pos_iff h',
    fun h' _ => isSome_update_none hroom.notMem hroom.resultCache_iff h', fun h' it _ hpos' => ?_⟩
  · exact hnotMem (by rw [hvalues]; exact List.mem_append_left _ hmem)
  · dsimp only at hpos'
    by_cases hb : h' = back
    · rw [hb, Function.update_self] at hpos'
      cases hpos'
    · rw [Function.update_of_ne hb] at hpos'
      exact hroom.live h' it hb hpos'

/-- `makeRoom` makes room, unless it evicts a hash that does not survive the `int`. -/
theorem Wf.makeRoom (h : Wf c) (hev : ∀ back, Evicts c hash back → throughInt back = back) :
    ∃ c', c.makeRoom hash = some c' ∧ Room c' hash ∧ c'.resultCache hash = c.resultCache hash := by
  cases hpos : c.pos hash with
  | some it =>
    obtain ⟨recent, herase, hroom⟩ := h.makeRoom_hit hpos
    refine ⟨_, ?_, hroom, rfl⟩
    simp only [ResultCache.makeRoom, hpos, herase, bind, Option.bind]
    rfl
  | none =>
    by_cases hfull : c.recent.size ≥ maxNumEntry
    · obtain ⟨back, hevicts⟩ := exists_evicts hpos hfull
      exact h.makeRoom_evict hevicts (hev _ hevicts)
    · refine ⟨c, ?_, h.room hpos (Nat.lt_of_not_le hfull), rfl⟩
      simp only [ResultCache.makeRoom, hpos, if_neg hfull]
      rfl

/-! ### The calls -/

/-- After `touch` the hash is in front of the list, and the cache is consistent once the hash has
an entry. -/
theorem Room.touch (h : Room c hash) {entries : UInt64 → Option Entry}
    (hhash : (entries hash).isSome) (hne : ∀ h, h ≠ hash → entries h = c.resultCache h) :
    Wf { c.touch hash with resultCache := entries } where
  nodup := List.nodup_cons.2 ⟨h.notMem, h.nodup⟩
  size_le := h.size_lt
  pos_iff := isSome_update_some rfl h.pos_iff
  resultCache_iff h' := by
    have hupdate : entries = Function.update c.resultCache hash (entries hash) := by
      funext x
      by_cases hx : x = hash
      · rw [hx, Function.update_self]
      · rw [Function.update_of_ne hx, hne x hx]
    show (entries h').isSome ↔ _
    rw [hupdate]
    exact isSome_update_some hhash h.resultCache_iff h'
  live h' it hpos := by
    by_cases hx : h' = hash
    · subst hx
      simp only [ResultCache.touch, Function.update_self, Option.some.injEq] at hpos
      subst hpos
      exact LinkedList.live_begin_pushFront ..
    · simp only [ResultCache.touch, Function.update_of_ne hx] at hpos
      exact (h.live h' it hx hpos).pushFront hash

/-- A new decision keeps the cache consistent, unless it evicts a hash that does not survive the
`int`. -/
theorem Wf.add (h : Wf c) (hev : ∀ back, Evicts c hash back → throughInt back = back)
    (result : Bool) (timestamp : UInt64) : ∃ c', c.add hash result timestamp = some c' ∧ Wf c' := by
  obtain ⟨c', hmake, hroom, -⟩ := h.makeRoom hev
  refine ⟨_, by simp only [ResultCache.add, use, hmake, bind, Option.bind]; rfl, ?_⟩
  refine hroom.touch (by simp [ResultCache.touch]) fun h' hne => ?_
  exact Function.update_of_ne hne ..

/-- A hash that has an entry evicts nothing. -/
theorem Wf.not_evicts (h : Wf c) (hentry : (c.resultCache hash).isSome) (back : UInt64) :
    ¬ Evicts c hash back := by
  intro hev
  have hsome := (h.pos_iff hash).2 ((h.resultCache_iff hash).1 hentry)
  rw [hev.pos] at hsome
  cases hsome

/-- Dropping an expired decision keeps the cache consistent. -/
theorem Wf.dropExpired (h : Wf c) (hentry : (c.resultCache hash).isSome) :
    ∃ c', c.dropExpired hash = some c' ∧ Wf c' := by
  obtain ⟨it, hpos⟩ := Option.isSome_iff_exists.1
    ((h.pos_iff hash).2 ((h.resultCache_iff hash).1 hentry))
  obtain ⟨recent, herase, hroom⟩ := h.makeRoom_hit hpos
  refine ⟨{ c with
    recent := recent
    pos := Function.update c.pos hash none
    resultCache := Function.update c.resultCache hash none }, ?_, hroom.nodup,
    Nat.le_of_lt hroom.size_lt, isSome_update_none hroom.notMem hroom.pos_iff,
    isSome_update_none hroom.notMem hroom.resultCache_iff, fun h' it' hpos' => ?_⟩
  · simp only [ResultCache.dropExpired, hpos, herase, bind, Option.bind, pure]
  · dsimp only at hpos'
    by_cases hx : h' = hash
    · rw [hx, Function.update_self] at hpos'
      cases hpos'
    · rw [Function.update_of_ne hx] at hpos'
      exact hroom.live h' it' hx hpos'

/-- A look-up keeps the cache consistent. -/
theorem Wf.lookup (h : Wf c) (hash timestamp : UInt64) :
    ∃ allowed c', c.lookup hash timestamp = some (allowed, c') ∧ Wf c' := by
  cases hentry : c.resultCache hash with
  | none => exact ⟨none, c, by simp only [ResultCache.lookup, hentry], h⟩
  | some entry =>
    have hsome : (c.resultCache hash).isSome := by rw [hentry]; rfl
    by_cases hvalid : entry.timestamp + c.validForNanosec > timestamp
    · obtain ⟨c', hmake, hroom, hsame⟩ :=
        h.makeRoom fun back hev => absurd hev (h.not_evicts hsome back)
      have htouch : (c'.touch hash).resultCache hash = some entry := hsame.trans hentry
      refine ⟨some entry.result, c'.touch hash, ?_,
        hroom.touch (by rw [hsame]; exact hsome) fun _ _ => rfl⟩
      simp only [ResultCache.lookup, hentry, if_pos hvalid, use, hmake, bind, Option.bind, pure,
        htouch]
    · obtain ⟨c', hdrop, hwf⟩ := h.dropExpired hsome
      refine ⟨none, c', ?_, hwf⟩
      simp only [ResultCache.lookup, hentry, if_neg hvalid, hdrop, bind, Option.bind, pure]

/-- An eviction of a hash that does not survive the `int` leaves a dangling iterator. -/
theorem Wf.not_wf_add (h : Wf c) {back : UInt64} (hev : Evicts c hash back)
    (hback : throughInt back ≠ back) {result : Bool} {timestamp : UInt64}
    (hadd : c.add hash result timestamp = some c') : ¬ Wf c' := by
  obtain ⟨recent, hpop, hvalues, -⟩ := hev.exists_popBack
  have hmake := hev.makeRoom_eq hpop
  simp only [ResultCache.add, use, hmake, bind, Option.bind, pure, Option.some.injEq] at hadd
  subst hadd
  intro hwf
  have hmem : back ∈ c.recent.values := by rw [hvalues]; simp
  have hnotMem : back ∉ recent.values := by
    have hnodup := h.nodup
    rw [hvalues] at hnodup
    exact fun hb => (List.nodup_append.1 hnodup).2.2 back hb back (List.mem_singleton_self _) rfl
  have hne : back ≠ hash := by
    rintro rfl
    exact h.notMem_of_pos hev.pos hmem
  -- `pos_` still has the evicted hash, the list does not
  have hpos := hwf.pos_iff back
  simp only [emplace, ResultCache.touch, Function.update_of_ne hne,
    Function.update_of_ne (Ne.symm hback), LinkedList.values_pushFront, List.mem_cons,
    or_iff_right hne] at hpos
  exact hnotMem (hpos.1 ((h.pos_iff back).2 hmem))

/-- A new hash is put in front of a cache that has room for it. -/
theorem Wf.add_new (h : Wf c) (hnotMem : hash ∉ c.recent.values)
    (hsize : c.recent.size < maxNumEntry) {result : Bool} {timestamp : UInt64}
    (hadd : c.add hash result timestamp = some c') :
    c'.recent.values = hash :: c.recent.values := by
  have hpos : c.pos hash = none := by
    rw [← Option.not_isSome_iff_eq_none, h.pos_iff]
    exact hnotMem
  have hmake : c.makeRoom hash = some c := by
    simp only [ResultCache.makeRoom, hpos, if_neg (Nat.not_le_of_lt hsize)]
    rfl
  simp only [ResultCache.add, use, hmake, bind, Option.bind, pure, Option.some.injEq] at hadd
  subst hadd
  rfl

end ResultCache

/-- A hash that the call pushes out of the cache is the sign-extension of its low 32 bits. -/
def CacheOp.EvictsWhole (c : ResultCache) : CacheOp → Prop
  | .check _ _ => True
  | .add hash _ _ => ∀ back, c.Evicts hash back → throughInt back = back

/-- A call goes through and keeps a consistent cache consistent, exactly if it evicts no hash that
does not survive the `int`. -/
theorem wf_step_iff (stdHash : Bytes → UInt64) (c : ResultCache) (op : CacheOp) (h : c.Wf) :
    (∃ c', (cacheMachine stdHash).next c op = some c' ∧ c'.Wf) ↔ op.EvictsWhole c := by
  cases op with
  | check payload timestamp =>
    refine iff_of_true ?_ trivial
    obtain ⟨allowed, c', hlookup, hwf⟩ := h.lookup (computeHash stdHash payload) timestamp
    refine ⟨c', ?_, hwf⟩
    simp only [cacheMachine, ResultCache.check, hlookup, bind, Option.bind, pure, Option.map_some]
  | add hash result timestamp =>
    constructor
    · rintro ⟨c', hadd, hwf⟩ back hev
      by_contra hback
      exact h.not_wf_add hev hback hadd hwf
    · intro hev
      exact h.add hev result timestamp

/-- **The cache stays consistent through a sequence of calls exactly if every hash that they evict
is the sign-extension of its low 32 bits.** -/
theorem wf_iff_evictsWhole (stdHash : Bytes → UInt64) (ops : List CacheOp) :
    (cacheMachine stdHash).Keeps ResultCache.Wf .empty ops ↔
      (cacheMachine stdHash).Along (fun c op => op.EvictsWhole c) .empty ops :=
  Machine.keeps_iff_along (wf_step_iff stdHash) ResultCache.wf_empty

/-- Decisions for new hashes fill the cache from the back. -/
theorem keeps_add {stdHash : Bytes → UInt64} {c : ResultCache} {hashes : List UInt64}
    {ops : List CacheOp} (hnew : (hashes ++ c.recent.values).Nodup)
    (hsize : hashes.length + c.recent.values.length ≤ maxNumEntry)
    (h : (cacheMachine stdHash).Keeps ResultCache.Wf c
      (hashes.map (fun hash => .add hash true 0) ++ ops)) :
    ∃ c', c'.recent.values = hashes.reverse ++ c.recent.values ∧
      (cacheMachine stdHash).Keeps ResultCache.Wf c' ops := by
  induction hashes generalizing c with
  | nil => exact ⟨c, rfl, h⟩
  | cons hash hashes ih =>
    obtain ⟨hwf, c', hadd, h⟩ := h
    rw [List.cons_append, List.nodup_cons, List.mem_append, not_or] at hnew
    rw [List.length_cons] at hsize
    have hroom : c.recent.size < maxNumEntry := by
      rw [LinkedList.size_eq]
      omega
    have hvalues := hwf.add_new hnew.1.2 hroom hadd
    obtain ⟨c'', hvalues', h⟩ := ih (c := c')
      (by rw [hvalues]; exact List.nodup_middle.2 (List.nodup_cons.2 ⟨by
        rw [List.mem_append, not_or]; exact hnew.1, hnew.2⟩))
      (by rw [hvalues, List.length_cons]; omega) h
    exact ⟨c'', by rw [hvalues', hvalues, List.reverse_cons, List.append_assoc]; rfl, h⟩

/-- Hashes that an `int` does not hold: `2 ^ 32`, `2 ^ 32 + 1` and so on. -/
def wideHashes (n : ℕ) : List UInt64 := (List.range n).map fun k => UInt64.ofNat (2 ^ 32 + k)

theorem length_wideHashes (n : ℕ) : (wideHashes n).length = n := by
  rw [wideHashes, List.length_map, List.length_range]

theorem wideHashes_succ (n : ℕ) :
    wideHashes (n + 1) = wideHashes n ++ [UInt64.ofNat (2 ^ 32 + n)] := by
  rw [wideHashes, List.range_succ, List.map_append, List.map_singleton, wideHashes]

theorem nodup_wideHashes {n : ℕ} (hn : n ≤ 2 ^ 32) : (wideHashes n).Nodup := by
  refine List.Nodup.map_on (fun j hj k hk hjk => ?_) List.nodup_range
  have hj := List.mem_range.1 hj
  have hk := List.mem_range.1 hk
  have hnat := congrArg UInt64.toNat hjk
  rw [UInt64.toNat_ofNat', UInt64.toNat_ofNat', Nat.mod_eq_of_lt (by omega),
    Nat.mod_eq_of_lt (by omega)] at hnat
  omega

/-- The first of the hashes is the first to be evicted. -/
theorem head?_wideHashes {n : ℕ} (hn : n ≠ 0) : (wideHashes n).head? = some 4294967296 := by
  rw [wideHashes, List.head?_map, List.head?_range, if_neg hn]
  rfl

/-- One decision too many for hashes of more than 32 bits. -/
theorem not_keeps_wideHashes (stdHash : Bytes → UInt64) {n : ℕ} (hn : n = maxNumEntry) :
    ¬ (cacheMachine stdHash).Keeps ResultCache.Wf .empty
      ((wideHashes n).map (fun hash => .add hash true 0) ++
        [.add (UInt64.ofNat (2 ^ 32 + n)) true 0]) := by
  intro h
  have hnodup := nodup_wideHashes (n := n + 1) (by rw [hn]; decide)
  rw [wideHashes_succ] at hnodup
  have hempty : ResultCache.empty.recent.values = [] := rfl
  have hnew : (wideHashes n ++ ResultCache.empty.recent.values).Nodup := by
    rw [hempty, List.append_nil]
    exact (List.nodup_append.1 hnodup).1
  have hfit : (wideHashes n).length + ResultCache.empty.recent.values.length ≤ maxNumEntry := by
    rw [length_wideHashes, hempty, hn]
    exact Nat.le_refl _
  -- The first `n` decisions fill the cache; the next one finds it full.
  obtain ⟨c, hvalues, hwf, c', hadd, hwf'⟩ := keeps_add hnew hfit h
  rw [hempty, List.append_nil] at hvalues
  have hnotMem : UInt64.ofNat (2 ^ 32 + n) ∉ c.recent.values := by
    rw [hvalues, List.mem_reverse]
    exact fun hmem => (List.nodup_append.1 hnodup).2.2 _ hmem _ (List.mem_singleton_self _) rfl
  have hev : c.Evicts (UInt64.ofNat (2 ^ 32 + n)) 4294967296 := by
    refine ⟨?_, ?_, ?_⟩
    · rw [← Option.not_isSome_iff_eq_none, hwf.pos_iff]
      exact hnotMem
    · exact Nat.le_of_eq
        (by rw [LinkedList.size_eq, hvalues, List.length_reverse, length_wideHashes, hn])
    · rw [LinkedList.back?_eq, hvalues, List.getLast?_reverse]
      exact head?_wideHashes (by rw [hn]; decide)
  exact hwf.not_wf_add hev (by decide) hadd hwf'

/-- **The cache is inconsistent after 1001 decisions for hashes of more than 32 bits.**  The last
one evicts the first hash, `2 ^ 32`, but erases the key `0` from the maps. -/
theorem not_wf_after_eviction : ¬ ∀ (stdHash : Bytes → UInt64) (ops : List CacheOp),
    (cacheMachine stdHash).Keeps ResultCache.Wf .empty ops := by
  intro h
  obtain ⟨n, hn⟩ : ∃ n, n = maxNumEntry := ⟨maxNumEntry, rfl⟩
  exact not_keeps_wideHashes (fun _ => 0) hn (h _ _)

end OpenPolicyAgent

end WasmExtensions
