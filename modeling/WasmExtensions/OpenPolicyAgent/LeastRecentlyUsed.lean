import WasmExtensions.Lru.Basic
import WasmExtensions.OpenPolicyAgent.CacheInvariant

/-!
# The cache of policy decisions as a least recently used cache

Next to the cache runs the list of the hashes that a least recently used cache of the same capacity
would hold (`LruSystem`).  A call behaves as it should if the cache has entries for exactly these
hashes afterwards, and if the entries of all other hashes are as they were (`BehavesAsLru`).

* `behaves_as_lru_iff` : **all calls of a run behave so exactly if every evicted hash is the
  sign-extension of its low 32 bits.**
* `wrong_decision_evicted` : a run in which the wrong entry is evicted.
-/

namespace WasmExtensions

namespace OpenPolicyAgent

instance : NeZero maxNumEntry := ⟨by decide⟩

/-- The cache, and the hashes that it should hold. -/
structure LruSystem where
  cache : ResultCache
  reference : Lru UInt64 maxNumEntry

namespace LruSystem

variable (stdHash : Bytes → UInt64)

def start (validForNanosec : UInt64) : LruSystem :=
  ⟨{ ResultCache.empty with validForNanosec := validForNanosec }, .empty⟩

/-- A check moves the hash to the front if it hits; if it finds an expired entry, the hash goes. -/
def check (s : LruSystem) (payload : Payload) (timestamp : UInt64) : Option LruSystem := do
  let (result, cache) ← s.cache.check stdHash payload timestamp
  let reference :=
    if result.allowed.isSome then s.reference.touch result.hash
    else if (s.cache.resultCache result.hash).isSome then s.reference.remove result.hash
    else s.reference
  return ⟨cache, reference⟩

def add (s : LruSystem) (hash : UInt64) (result : Bool) (timestamp : UInt64) :
    Option LruSystem := do
  let cache ← s.cache.add hash result timestamp
  return ⟨cache, s.reference.insert hash⟩

end LruSystem

/-- The cache and the list of hashes under the public calls of the cache. -/
def lruMachine (stdHash : Bytes → UInt64) : Machine LruSystem CacheOp where
  next s
    | .check payload timestamp => s.check stdHash payload timestamp
    | .add hash result timestamp => s.add hash result timestamp

namespace CacheOp

/-- The hash that a call is about. -/
def hash (stdHash : Bytes → UInt64) : CacheOp → UInt64
  | .check payload _ => computeHash stdHash payload
  | .add hash _ _ => hash

/-- The hash whose entry a call should push out. -/
def victim (reference : Lru UInt64 maxNumEntry) : CacheOp → Option UInt64
  | .check _ _ => none
  | .add hash _ _ => reference.victim hash

end CacheOp

/-- The call leads to a state in which the cache has entries for the hashes of the list, and no
entry of another hash has changed, apart from the one that is pushed out. -/
def BehavesAsLru (stdHash : Bytes → UInt64) (s : LruSystem) (op : CacheOp) : Prop :=
  ∃ s', (lruMachine stdHash).next s op = some s' ∧
    (∀ h, (s'.cache.resultCache h).isSome ↔ h ∈ s'.reference) ∧
    ∀ h, h ≠ op.hash stdHash → op.victim s.reference ≠ some h →
      s'.cache.resultCache h = s.cache.resultCache h

/-! ### What the calls do to the list and to the entries -/

namespace ResultCache

variable {c c' : ResultCache} {hash timestamp : UInt64} {l : Lru UInt64 maxNumEntry}

/-- `makeRoom` takes the hash out of the list, or evicts the last one of a full list, or does
nothing. -/
theorem Wf.makeRoom_cases (h : Wf c) (hmake : c.makeRoom hash = some c') :
    (hash ∈ c.recent.values ∧ c'.recent.values = c.recent.values.erase hash ∧
      c'.resultCache = c.resultCache) ∨
    (∃ back, Evicts c hash back ∧ c'.recent.values = c.recent.values.dropLast ∧
      c'.resultCache = Function.update c.resultCache (throughInt back) none) ∨
    (hash ∉ c.recent.values ∧ ¬ maxNumEntry ≤ c.recent.values.length ∧ c' = c) := by
  cases hpos : c.pos hash with
  | some it =>
    refine .inl ⟨(h.pos_iff hash).1 (by rw [hpos]; rfl), ?_⟩
    obtain ⟨recent, pre, post, herase, hvalues, hrecent, -⟩ := (h.live hash it hpos).erase_eq
    simp only [ResultCache.makeRoom, hpos, herase, bind, Option.bind, pure,
      Option.some.injEq] at hmake
    rw [← hmake]
    refine ⟨?_, rfl⟩
    have hnotMem : hash ∉ pre := by
      have hnodup := h.nodup
      rw [hvalues] at hnodup
      exact fun hmem => (List.nodup_append.1 hnodup).2.2 _ hmem _ List.mem_cons_self rfl
    show recent.values = _
    rw [hrecent, hvalues, List.erase_append_right _ hnotMem, List.erase_cons_head]
  | none =>
    by_cases hfull : c.recent.size ≥ maxNumEntry
    · obtain ⟨back, hev⟩ := exists_evicts hpos hfull
      obtain ⟨recent, hpop, hvalues, -⟩ := hev.exists_popBack
      rw [hev.makeRoom_eq hpop] at hmake
      rw [← Option.some.inj hmake]
      refine .inr (.inl ⟨_, hev, ?_, rfl⟩)
      show recent.values = _
      rw [hvalues, List.dropLast_concat]
    · simp only [ResultCache.makeRoom, hpos, if_neg hfull] at hmake
      rw [LinkedList.size_eq] at hfull
      exact .inr (.inr ⟨h.notMem_of_pos hpos, hfull, (Option.some.inj hmake).symm⟩)

/-- The evicted hash is the one that the list pushes out. -/
theorem Wf.evicts_iff (h : Wf c) (hl : l.keys = c.recent.values) {back : UInt64} :
    Evicts c hash back ↔ l.victim hash = some back := by
  constructor
  · intro hev
    have hnotMem := h.notMem_of_pos hev.pos
    have hfull := hev.full
    rw [← hl] at hnotMem
    rw [LinkedList.size_eq, ← hl] at hfull
    rw [Lru.victim_of_notMem hnotMem, if_pos hfull, hl, ← LinkedList.back?_eq]
    exact hev.back
  · intro hvictim
    have hnotMem : hash ∉ l.keys := by
      intro hmem
      rw [Lru.victim_of_mem hmem] at hvictim
      cases hvictim
    rw [Lru.victim_of_notMem hnotMem] at hvictim
    split_ifs at hvictim with hfull
    refine ⟨?_, ?_, ?_⟩
    · rw [← Option.not_isSome_iff_eq_none, h.pos_iff, ← hl]
      exact hnotMem
    · rw [LinkedList.size_eq, ← hl]
      exact hfull
    · rw [LinkedList.back?_eq, ← hl]
      exact hvictim

/-- The list after `makeRoom`. -/
theorem Wf.makeRoom_values (h : Wf c) (hl : l.keys = c.recent.values)
    (hmake : c.makeRoom hash = some c') : c'.recent.values = l.kept hash := by
  rcases h.makeRoom_cases hmake with ⟨hmem, hvalues, -⟩ | ⟨back, hev, hvalues, -⟩ |
    ⟨hnotMem, hfull, rfl⟩
  · rw [← hl] at hmem hvalues
    rw [Lru.kept_of_mem hmem, hvalues]
  · have hnotMem := h.notMem_of_pos hev.pos
    have hfull := hev.full
    rw [← hl] at hnotMem hvalues
    rw [LinkedList.size_eq, ← hl] at hfull
    rw [Lru.kept_of_notMem hnotMem, if_pos hfull, hvalues]
  · rw [← hl] at hnotMem hfull
    rw [Lru.kept_of_notMem hnotMem, if_neg hfull, hl]

/-- The entries after `makeRoom`: only the victim has none any more. -/
theorem Wf.makeRoom_resultCache (h : Wf c) (hl : l.keys = c.recent.values)
    (hev : ∀ back, Evicts c hash back → throughInt back = back)
    (hmake : c.makeRoom hash = some c') {h' : UInt64} (hvictim : l.victim hash ≠ some h') :
    c'.resultCache h' = c.resultCache h' := by
  rcases h.makeRoom_cases hmake with ⟨-, -, hcache⟩ | ⟨back, hevicts, -, hcache⟩ | ⟨-, -, rfl⟩
  · rw [hcache]
  · rw [hcache, hev back hevicts]
    refine Function.update_of_ne ?_ ..
    rintro rfl
    exact hvictim ((h.evicts_iff hl).1 hevicts)
  · rfl

/-- An `add` makes room, puts the hash in front and stores a decision. -/
theorem add_eq_some {result : Bool} (hadd : c.add hash result timestamp = some c') :
    ∃ d, c.makeRoom hash = some d ∧ c'.recent.values = hash :: d.recent.values ∧
      ∀ h, h ≠ hash → c'.resultCache h = d.resultCache h := by
  simp only [add, use, bind, Option.bind_eq_some_iff, pure, Option.some.injEq] at hadd
  obtain ⟨_, ⟨d, hmake, rfl⟩, rfl⟩ := hadd
  exact ⟨d, hmake, rfl, fun h hne => Function.update_of_ne hne ..⟩

/-- A look-up misses, or hits and moves the hash to the front, or drops the expired entry. -/
theorem Wf.lookup_cases (h : Wf c) {allowed : Option Bool}
    (hlookup : c.lookup hash timestamp = some (allowed, c')) :
    (allowed = none ∧ c.resultCache hash = none ∧ c' = c) ∨
    (allowed.isSome ∧ hash ∈ c.recent.values ∧
      c'.recent.values = hash :: c.recent.values.erase hash ∧ c'.resultCache = c.resultCache) ∨
    (allowed = none ∧ (c.resultCache hash).isSome ∧
      c'.recent.values = c.recent.values.erase hash ∧
      c'.resultCache = Function.update c.resultCache hash none) := by
  unfold ResultCache.lookup at hlookup
  split at hlookup
  · rename_i hnone
    obtain ⟨rfl, rfl⟩ := Prod.mk.inj (Option.some.inj hlookup)
    exact .inl ⟨rfl, hnone, rfl⟩
  · rename_i entry hentry
    have hsome : (c.resultCache hash).isSome := by rw [hentry]; rfl
    have hmem := (h.resultCache_iff hash).1 hsome
    split_ifs at hlookup with hvalid
    · simp only [ResultCache.use, bind, Option.bind_eq_some_iff, pure, Option.some.injEq,
        Prod.mk.injEq] at hlookup
      obtain ⟨_, ⟨d, hmake, rfl⟩, entry', -, rfl, rfl⟩ := hlookup
      refine .inr (.inl ⟨rfl, hmem, ?_⟩)
      rcases h.makeRoom_cases hmake with ⟨-, hvalues, hcache⟩ | ⟨back, hev, -⟩ | ⟨hnotMem, -⟩
      · exact ⟨congrArg (hash :: ·) hvalues, hcache⟩
      · exact absurd hev (h.not_evicts hsome back)
      · exact absurd hmem hnotMem
    · simp only [ResultCache.dropExpired, bind, Option.bind_eq_some_iff, pure, Option.some.injEq,
        Prod.mk.injEq] at hlookup
      obtain ⟨_, ⟨it, hpos, recent, herase, rfl⟩, rfl, rfl⟩ := hlookup
      refine .inr (.inr ⟨rfl, hsome, ?_, rfl⟩)
      -- The list loses the same hash as in `makeRoom`.
      have hmake : c.makeRoom hash = some { c with recent := recent } := by
        simp only [ResultCache.makeRoom, hpos, herase, bind, Option.bind, pure]
      rcases h.makeRoom_cases hmake with ⟨-, hvalues, -⟩ | ⟨back, hev, -⟩ | ⟨hnotMem, -⟩
      · exact hvalues
      · exact absurd hev (h.not_evicts hsome back)
      · exact absurd hmem hnotMem

end ResultCache

/-! ### The calls next to the list -/

/-- The cache is consistent, and its own list of hashes is the reference. -/
structure Follows (s : LruSystem) : Prop where
  wf : s.cache.Wf
  keys : s.reference.keys = s.cache.recent.values

variable {stdHash : Bytes → UInt64} {s s' : LruSystem} {op : CacheOp}

theorem Follows.resultCache_iff (h : Follows s) (hash : UInt64) :
    (s.cache.resultCache hash).isSome ↔ hash ∈ s.reference := by
  rw [h.wf.resultCache_iff hash, ← h.keys]
  exact Iff.rfl

theorem follows_start (validForNanosec : UInt64) : Follows (.start validForNanosec) where
  wf := ⟨ResultCache.wf_empty.nodup, ResultCache.wf_empty.size_le, ResultCache.wf_empty.pos_iff,
    ResultCache.wf_empty.resultCache_iff, ResultCache.wf_empty.live⟩
  keys := rfl

/-- A check always behaves as it should. -/
theorem Follows.check (h : Follows s) (stdHash : Bytes → UInt64) (payload : Payload)
    (timestamp : UInt64) :
    ∃ s', (lruMachine stdHash).next s (.check payload timestamp) = some s' ∧ Follows s' ∧
      ∀ hash, hash ≠ computeHash stdHash payload →
        s'.cache.resultCache hash = s.cache.resultCache hash := by
  obtain ⟨allowed, cache, hlookup, hwf⟩ := h.wf.lookup (computeHash stdHash payload) timestamp
  have hnext : (lruMachine stdHash).next s (.check payload timestamp) = some ⟨cache,
      if allowed.isSome then s.reference.touch (computeHash stdHash payload)
      else if (s.cache.resultCache (computeHash stdHash payload)).isSome then
        s.reference.remove (computeHash stdHash payload)
      else s.reference⟩ := by
    simp only [lruMachine, LruSystem.check, ResultCache.check, hlookup, bind, Option.bind, pure]
  refine ⟨_, hnext, ⟨hwf, ?_⟩, fun hash hne => ?_⟩
  · show Lru.keys _ = cache.recent.values
    rcases h.wf.lookup_cases hlookup with ⟨rfl, hnone, rfl⟩ | ⟨hallowed, hmem, hvalues, -⟩ |
      ⟨rfl, hsome, hvalues, -⟩
    · rw [hnone]
      exact h.keys
    · rw [if_pos hallowed, hvalues]
      rw [← h.keys] at hmem ⊢
      exact Lru.keys_touch hmem
    · have hmiss : ¬ (none : Option Bool).isSome = true := Bool.false_ne_true
      rw [if_neg hmiss, if_pos hsome, hvalues, ← h.keys]
      rfl
  · show cache.resultCache hash = _
    rcases h.wf.lookup_cases hlookup with ⟨-, -, rfl⟩ | ⟨-, -, -, hcache⟩ | ⟨-, -, -, hcache⟩
    · rfl
    · rw [hcache]
    · rw [hcache, Function.update_of_ne hne]

/-- An `add` behaves as it should if a hash that it evicts survives the `int`. -/
theorem Follows.add (h : Follows s) (stdHash : Bytes → UInt64) {hash : UInt64}
    (hev : ∀ back, s.cache.Evicts hash back → throughInt back = back) (result : Bool)
    (timestamp : UInt64) :
    ∃ s', (lruMachine stdHash).next s (.add hash result timestamp) = some s' ∧ Follows s' ∧
      ∀ h, h ≠ hash → s.reference.victim hash ≠ some h →
        s'.cache.resultCache h = s.cache.resultCache h := by
  obtain ⟨cache, hadd, hwf⟩ := h.wf.add hev result timestamp
  obtain ⟨d, hmake, hvalues, hcache⟩ := ResultCache.add_eq_some hadd
  have hnext : (lruMachine stdHash).next s (.add hash result timestamp) =
      some ⟨cache, s.reference.insert hash⟩ := by
    simp only [lruMachine, LruSystem.add, hadd, bind, Option.bind, pure]
  refine ⟨_, hnext, ⟨hwf, ?_⟩, fun h' hne hvictim => ?_⟩
  · show hash :: s.reference.kept hash = cache.recent.values
    rw [hvalues, h.wf.makeRoom_values h.keys hmake]
  · show cache.resultCache h' = _
    rw [hcache h' hne]
    exact h.wf.makeRoom_resultCache h.keys hev hmake hvictim

/-- The cache keeps following the list. -/
theorem Follows.next (h : Follows s) (hev : op.EvictsWhole s.cache)
    (hn : (lruMachine stdHash).next s op = some s') : Follows s' := by
  cases op with
  | check payload timestamp =>
    obtain ⟨t, ht, hfollows, -⟩ := h.check stdHash payload timestamp
    rw [← Option.some.inj (ht.symm.trans hn)]
    exact hfollows
  | add hash result timestamp =>
    obtain ⟨t, ht, hfollows, -⟩ := h.add stdHash hev result timestamp
    rw [← Option.some.inj (ht.symm.trans hn)]
    exact hfollows

/-- The eviction of a hash that does not survive the `int` leaves its entry in the cache. -/
theorem Follows.not_behaves (h : Follows s) {hash back timestamp : UInt64} {result : Bool}
    (hevicts : s.cache.Evicts hash back) (hback : throughInt back ≠ back) :
    ¬ BehavesAsLru stdHash s (.add hash result timestamp) := by
  rintro ⟨s', hn, hkeys, -⟩
  simp only [lruMachine, LruSystem.add, bind, Option.bind_eq_some_iff, pure,
    Option.some.injEq] at hn
  obtain ⟨cache, hadd, rfl⟩ := hn
  obtain ⟨d, hmake, -, hcache⟩ := ResultCache.add_eq_some hadd
  have hmem : back ∈ s.cache.recent.values := by
    have hlast := hevicts.back
    rw [LinkedList.back?_eq] at hlast
    exact List.mem_of_getLast? hlast
  have hne : back ≠ hash := by
    rintro rfl
    exact h.wf.notMem_of_pos hevicts.pos hmem
  have hentry : cache.resultCache back = s.cache.resultCache back := by
    rw [hcache back hne]
    obtain ⟨recent, hpop, -⟩ := hevicts.exists_popBack
    rw [hevicts.makeRoom_eq hpop] at hmake
    rw [← Option.some.inj hmake]
    exact Function.update_of_ne (Ne.symm hback) ..
  have hkept := (hkeys back).1 (by rw [hentry]; exact (h.wf.resultCache_iff back).2 hmem)
  rcases List.mem_cons.1 hkept with heq | hkept
  · exact hne heq
  · exact (Lru.mem_kept_iff.1 hkept).2.2 ((h.wf.evicts_iff h.keys).1 hevicts)

theorem behavesAsLru_iff (h : Follows s) :
    BehavesAsLru stdHash s op ↔ op.EvictsWhole s.cache := by
  cases op with
  | check payload timestamp =>
    refine iff_of_true ?_ trivial
    obtain ⟨s', hn, hfollows, hframe⟩ := h.check stdHash payload timestamp
    exact ⟨s', hn, hfollows.resultCache_iff, fun hash hne _ => hframe hash hne⟩
  | add hash result timestamp =>
    constructor
    · intro hbehaves back hevicts
      by_contra hback
      exact h.not_behaves hevicts hback hbehaves
    · intro hev
      obtain ⟨s', hn, hfollows, hframe⟩ := h.add stdHash hev result timestamp
      exact ⟨s', hn, hfollows.resultCache_iff, hframe⟩

/-- The cache of the system makes the steps of the cache alone. -/
theorem map_cache_next (s : LruSystem) (op : CacheOp) :
    ((lruMachine stdHash).next s op).map LruSystem.cache =
      (cacheMachine stdHash).next s.cache op := by
  cases op with
  | check payload timestamp =>
    simp only [lruMachine, LruSystem.check, cacheMachine]
    cases s.cache.check stdHash payload timestamp <;> rfl
  | add hash result timestamp =>
    simp only [lruMachine, LruSystem.add, cacheMachine]
    cases s.cache.add hash result timestamp <;> rfl

theorem along_behavesAsLru_iff (h : Follows s) {ops : List CacheOp} :
    (lruMachine stdHash).Along (BehavesAsLru stdHash) s ops ↔
      (cacheMachine stdHash).Along (fun c op => op.EvictsWhole c) s.cache ops := by
  rw [← Machine.along_map (N := lruMachine stdHash) (f := LruSystem.cache) map_cache_next]
  refine Machine.along_congr (I := Follows) (fun s op s' h hev hn => ?_) (fun s op h => ?_) h
  · exact Follows.next h hev hn
  · exact behavesAsLru_iff h

/-- **When the cache is a least recently used cache**: all calls of a run from the empty cache
behave as they should, if and only if every hash that they evict is the sign-extension of its low
32 bits. -/
theorem behaves_as_lru_iff (stdHash : Bytes → UInt64) (validForNanosec : UInt64)
    (ops : List CacheOp) :
    (lruMachine stdHash).Along (BehavesAsLru stdHash) (.start validForNanosec) ops ↔
      (cacheMachine stdHash).Along (fun c op => op.EvictsWhole c)
        { ResultCache.empty with validForNanosec := validForNanosec } ops :=
  along_behavesAsLru_iff (follows_start validForNanosec)

/-- 1001 decisions for hashes of more than 32 bits: the last one should push out the first hash,
`2 ^ 32`, but its decision stays. -/
theorem wrong_decision_evicted : ¬ ∀ (stdHash : Bytes → UInt64) (validForNanosec : UInt64)
    (ops : List CacheOp),
    (lruMachine stdHash).Along (BehavesAsLru stdHash) (.start validForNanosec) ops := by
  intro h
  obtain ⟨n, hn⟩ : ∃ n, n = maxNumEntry := ⟨maxNumEntry, rfl⟩
  refine not_keeps_wideHashes (fun _ => 0) hn ?_
  refine (Machine.keeps_iff_along (wf_step_iff _) ResultCache.wf_empty).2 ?_
  exact (along_behavesAsLru_iff (follows_start 10000000000)).1 (h _ _ _)

end OpenPolicyAgent

end WasmExtensions
