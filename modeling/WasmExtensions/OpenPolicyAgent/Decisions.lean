import WasmExtensions.OpenPolicyAgent.CacheInvariant
import WasmExtensions.OpenPolicyAgent.Filter

/-!
# Which decision the cache serves, and for how long

An entry that `add` has inserted is found by every later check until its hash is evicted or the
entry expires, also in a cache whose containers have come apart (`Holds`).  Two questions remain.

* Which decision is it?  `add` inserts with `emplace`, which leaves an entry that is already there
  as it is: **the newest decision is served exactly if the hash had no entry, or one that says the
  same and lives as long** (`newest_served_iff`).
* How long?  The valid duration is multiplied and added to the timestamp in 64 bits: **an entry
  lives as long as configured exactly if the time at which it should expire fits into 64 bits**
  (`lives_as_configured_iff`).
-/

namespace WasmExtensions

namespace OpenPolicyAgent

/-- The public calls of the cache, with the one that sets how long entries are valid. -/
inductive PublicCall where
  | setValidDuration (validForSec : UInt64)
  | check (payload : Payload) (timestamp : UInt64)
  | add (hash : UInt64) (result : Bool) (timestamp : UInt64)
  deriving DecidableEq, Repr

/-- The cache under all its public calls; a step is missing where the behaviour is undefined. -/
def publicMachine (stdHash : Bytes → UInt64) : Machine ResultCache PublicCall where
  next c
    | .setValidDuration validForSec => some (c.setValidDuration validForSec)
    | .check payload timestamp => (c.check stdHash payload timestamp).map Prod.snd
    | .add hash result timestamp => c.add hash result timestamp

namespace ResultCache

/-- What is left of consistency in every run: the two maps have the same keys, and an iterator of
`pos_` that is not dangling names a node of its own hash. -/
structure Tracked (c : ResultCache) : Prop where
  keys : ∀ h, (c.pos h).isSome = (c.resultCache h).isSome
  made : ∀ h it, c.pos h = some it → ∃ i, it = some i ∧ i < c.recent.fresh
  owner : ∀ h it a, c.pos h = some it → c.recent.Live it a → a = h

/-- The entry of a hash is `entry`, and the iterator of the hash is not dangling. -/
structure Holds (c : ResultCache) (hash : UInt64) (entry : Entry) : Prop where
  entry : c.resultCache hash = some entry
  live : ∃ it, c.pos hash = some it ∧ c.recent.Live it hash

variable {c c' : ResultCache} {h hash timestamp : UInt64} {entry : Entry}

theorem tracked_empty : Tracked empty where
  keys _ := rfl
  made _ _ hpos := nomatch hpos
  owner _ _ _ hpos := nomatch hpos

theorem Tracked.resultCache_none (hc : Tracked c) (hpos : c.pos hash = none) :
    c.resultCache hash = none := by
  have hkeys := hc.keys hash
  rw [hpos] at hkeys
  exact Option.isSome_eq_false_iff.1 hkeys.symm |> Option.isNone_iff_eq_none.1

/-- Nodes may go. -/
theorem Tracked.shrink (hc : Tracked c) {recent : LinkedList UInt64}
    (hrecent : c.recent.Shrinks recent) : Tracked { c with recent := recent } where
  keys := hc.keys
  made h it hpos := by
    obtain ⟨i, hit, hi⟩ := hc.made h it hpos
    exact ⟨i, hit, hrecent.fresh ▸ hi⟩
  owner h it a hpos hlive := hc.owner h it a hpos (hrecent.live it a hlive)

/-- A key may go from both maps. -/
theorem Tracked.eraseKey (hc : Tracked c) (key : UInt64) :
    Tracked { c with
      resultCache := Function.update c.resultCache key none
      pos := Function.update c.pos key none } := by
  have hpos {h : UInt64} {it : LinkedList.Iterator}
      (hit : Function.update c.pos key none h = some it) : c.pos h = some it := by
    by_cases hk : h = key
    · rw [hk, Function.update_self] at hit
      cases hit
    · rwa [Function.update_of_ne hk] at hit
  refine ⟨fun h => ?_, fun h it hit => hc.made h it (hpos hit),
    fun h it a hit => hc.owner h it a (hpos hit)⟩
  by_cases hk : h = key
  · rw [hk]
    simp
  · simp only [Function.update_of_ne hk]
    exact hc.keys h

/-- A hash goes to the front of the list and has an entry. -/
theorem Tracked.touch (hc : Tracked c) (entries : UInt64 → Option Entry)
    (hhash : (entries hash).isSome) (hne : ∀ h, h ≠ hash → entries h = c.resultCache h) :
    Tracked { c.touch hash with resultCache := entries } where
  keys h := by
    by_cases hk : h = hash
    · rw [hk]
      simp [ResultCache.touch, hhash]
    · simp only [ResultCache.touch, Function.update_of_ne hk, hne h hk]
      exact hc.keys h
  made h it hpos := by
    by_cases hk : h = hash
    · rw [hk] at hpos
      simp only [ResultCache.touch, Function.update_self, Option.some.injEq] at hpos
      exact ⟨_, hpos.symm, Nat.lt_succ_self _⟩
    · simp only [ResultCache.touch, Function.update_of_ne hk] at hpos
      obtain ⟨i, hit, hi⟩ := hc.made h it hpos
      exact ⟨i, hit, Nat.lt_succ_of_lt hi⟩
  owner h it a hpos hlive := by
    by_cases hk : h = hash
    · rw [hk] at hpos ⊢
      simp only [ResultCache.touch, Function.update_self, Option.some.injEq] at hpos
      rw [← hpos] at hlive
      exact hlive.inj (LinkedList.live_begin_pushFront ..)
    · simp only [ResultCache.touch, Function.update_of_ne hk] at hpos hlive
      obtain ⟨i, rfl, hi⟩ := hc.made h it hpos
      exact hc.owner h _ a hpos (hlive.of_pushFront hi)

/-! ### What the calls keep -/

/-- The entry and the iterator of `h` are not affected by a call that is about another hash. -/
def Spared (h : UInt64) (c c' : ResultCache) : Prop := ∀ entry, c.Holds h entry → c'.Holds h entry

/-- `use hash` pushes neither `h` out of the list nor `h` out of the maps. -/
def EvictsOther (c : ResultCache) (hash h : UInt64) : Prop :=
  ∀ back, c.Evicts hash back → back ≠ h ∧ throughInt back ≠ h

theorem Tracked.ne_of_live (hc : Tracked c) {it it' : LinkedList.Iterator}
    (hpos : c.pos hash = some it) (hne : h ≠ hash) (hlive : c.recent.Live it' h) : it' ≠ it := by
  rintro rfl
  exact hne (hc.owner hash it' h hpos hlive)

/-- The node of a hash is erased. -/
theorem Tracked.erase_spared (hc : Tracked c) {it : LinkedList.Iterator}
    {recent : LinkedList UInt64} (hpos : c.pos hash = some it)
    (herase : c.recent.erase it = some recent) (hne : h ≠ hash) :
    Spared h c { c with recent := recent } := by
  rintro entry ⟨hentry, it', hpos', hlive'⟩
  obtain ⟨a, hlive⟩ := LinkedList.exists_erase_iff.1 ⟨recent, herase⟩
  obtain ⟨recent', -, -, herase', -, -, hkeep⟩ := hlive.erase_eq
  obtain rfl : recent' = recent := Option.some.inj (herase'.symm.trans herase)
  exact ⟨hentry, it', hpos', hkeep it' h hlive' (hc.ne_of_live hpos hne hlive')⟩

/-- `makeRoom` keeps what is left of consistency, the entry of its own hash and the entries of the
hashes that it does not evict. -/
theorem Tracked.makeRoom (hc : Tracked c) (hmake : c.makeRoom hash = some c') :
    Tracked c' ∧ c'.resultCache hash = c.resultCache hash ∧
      c'.validForNanosec = c.validForNanosec ∧
      ∀ h, h ≠ hash → EvictsOther c hash h → Spared h c c' := by
  cases hpos : c.pos hash with
  | some it =>
    simp only [ResultCache.makeRoom, hpos, bind, Option.bind_eq_some_iff, pure,
      Option.some.injEq] at hmake
    obtain ⟨recent, herase, rfl⟩ := hmake
    exact ⟨hc.shrink (LinkedList.shrinks_erase herase), rfl, rfl,
      fun h hne _ => hc.erase_spared hpos herase hne⟩
  | none =>
    by_cases hfull : c.recent.size ≥ maxNumEntry
    · simp only [ResultCache.makeRoom, hpos, if_pos hfull, bind, Option.bind_eq_some_iff, pure,
        Option.some.injEq] at hmake
      obtain ⟨back, hback, recent, hpop, rfl⟩ := hmake
      have hnone := hc.resultCache_none hpos
      refine ⟨(hc.shrink (LinkedList.shrinks_popBack hpop)).eraseKey (throughInt back), ?_, rfl,
        fun h hne hev entry hholds => ?_⟩
      · dsimp only
        rw [hnone]
        by_cases hk : hash = throughInt back
        · rw [hk, Function.update_self]
        · rw [Function.update_of_ne hk, hnone]
      · obtain ⟨hother, hkey⟩ := hev back ⟨hpos, hfull, hback⟩
        obtain ⟨b, hb, -, hkeep⟩ := LinkedList.popBack_eq hpop
        obtain rfl : back = b := Option.some.inj (hback.symm.trans hb)
        obtain ⟨hentry, it, hit, hlive⟩ := hholds
        refine ⟨?_, it, ?_, hkeep it h hlive (Ne.symm hother)⟩
        · dsimp only
          rw [Function.update_of_ne (Ne.symm hkey), hentry]
        · dsimp only
          rw [Function.update_of_ne (Ne.symm hkey), hit]
    · simp only [ResultCache.makeRoom, hpos, if_neg hfull] at hmake
      obtain rfl := Option.some.inj hmake
      exact ⟨hc, rfl, rfl, fun _ _ _ _ h => h⟩

/-- Once a hash is in front of the list and has an entry, that entry is found. -/
theorem holds_touch (c : ResultCache) (entries : UInt64 → Option Entry)
    (hentry : entries hash = some entry) :
    Holds { c.touch hash with resultCache := entries } hash entry :=
  ⟨hentry, _, Function.update_self .., LinkedList.live_begin_pushFront ..⟩

theorem touch_spared (c : ResultCache) (entries : UInt64 → Option Entry) (hne : h ≠ hash)
    (hsame : entries h = c.resultCache h) :
    Spared h c { c.touch hash with resultCache := entries } := by
  rintro entry ⟨hentry, it, hpos, hlive⟩
  exact ⟨hsame.trans hentry, it, (Function.update_of_ne hne ..).trans hpos, hlive.pushFront hash⟩

theorem Spared.trans {c₁ c₂ c₃ : ResultCache} (h₁ : Spared h c₁ c₂) (h₂ : Spared h c₂ c₃) :
    Spared h c₁ c₃ :=
  fun entry hholds => h₂ entry (h₁ entry hholds)

/-- A new decision gets an entry, unless its hash has one, which then stays. -/
theorem Tracked.add (hc : Tracked c) {result : Bool}
    (hadd : c.add hash result timestamp = some c') :
    Tracked c' ∧ Holds c' hash ((c.resultCache hash).getD ⟨result, timestamp⟩) ∧
      c'.validForNanosec = c.validForNanosec ∧
      ∀ h, h ≠ hash → EvictsOther c hash h → Spared h c c' := by
  simp only [ResultCache.add, use, bind, Option.bind_eq_some_iff, pure, Option.some.injEq] at hadd
  obtain ⟨_, ⟨d, hmake, rfl⟩, rfl⟩ := hadd
  obtain ⟨hd, hsame, hvalid, hspared⟩ := hc.makeRoom hmake
  have hentry : ((d.touch hash).emplace hash ⟨result, timestamp⟩).resultCache hash =
      some ((c.resultCache hash).getD ⟨result, timestamp⟩) := by
    simp only [emplace, ResultCache.touch, Function.update_self, hsame]
    cases c.resultCache hash <;> rfl
  have hne (h : UInt64) (hne : h ≠ hash) :
      ((d.touch hash).emplace hash ⟨result, timestamp⟩).resultCache h = d.resultCache h :=
    Function.update_of_ne hne ..
  exact ⟨hd.touch _ (Option.isSome_iff_exists.2 ⟨_, hentry⟩) hne, holds_touch d _ hentry, hvalid,
    fun h hh hev => (hspared h hh hev).trans (touch_spared d _ hh (hne h hh))⟩

/-- A look-up of a hash that is found serves its entry as long as that is valid. -/
theorem Holds.lookup (hholds : c.Holds hash entry) (timestamp : UInt64) :
    ∃ c', c.lookup hash timestamp = some (if entry.timestamp + c.validForNanosec > timestamp then
      some entry.result else none, c') := by
  obtain ⟨it, hpos, hlive⟩ := hholds.live
  obtain ⟨recent, -, -, herase, -⟩ := hlive.erase_eq
  split_ifs with hvalid
  · simp only [ResultCache.lookup, hholds.entry, if_pos hvalid, use, ResultCache.makeRoom, hpos,
      herase, bind, Option.bind, pure, ResultCache.touch]
    exact ⟨_, rfl⟩
  · simp only [ResultCache.lookup, hholds.entry, if_neg hvalid, dropExpired, hpos, herase, bind,
      Option.bind, pure]
    exact ⟨_, rfl⟩

/-- A look-up keeps what is left of consistency, and the entries of the other hashes; it keeps the
entry of its hash if that is valid. -/
theorem Tracked.lookup (hc : Tracked c) {allowed : Option Bool}
    (hlookup : c.lookup hash timestamp = some (allowed, c')) :
    Tracked c' ∧ c'.validForNanosec = c.validForNanosec ∧ (∀ h, h ≠ hash → Spared h c c') ∧
      ∀ entry, c.Holds hash entry → entry.timestamp + c.validForNanosec > timestamp →
        c'.Holds hash entry := by
  unfold ResultCache.lookup at hlookup
  split at hlookup
  · obtain ⟨rfl, rfl⟩ := Prod.mk.inj (Option.some.inj hlookup)
    exact ⟨hc, rfl, fun _ _ _ h => h, fun _ h _ => h⟩
  · rename_i e he
    obtain ⟨it, hpos⟩ : ∃ it, c.pos hash = some it := by
      rw [← Option.isSome_iff_exists, hc.keys hash, he]
      rfl
    split_ifs at hlookup with hvalid
    · simp only [use, bind, Option.bind_eq_some_iff, pure, Option.some.injEq] at hlookup
      obtain ⟨_, ⟨d, hmake, rfl⟩, e', he', heq⟩ := hlookup
      obtain ⟨-, rfl⟩ := Prod.mk.inj heq
      obtain ⟨hd, hsame, hvalid', hspared⟩ := hc.makeRoom hmake
      have hnoev (h : UInt64) : EvictsOther c hash h := by
        intro back hev
        have hnone := hev.pos
        rw [hpos] at hnone
        cases hnone
      exact ⟨hd.touch d.resultCache (by rw [hsame, he]; rfl) fun _ _ => rfl, hvalid',
        fun h hne => (hspared h hne (hnoev h)).trans
          (touch_spared d d.resultCache hne rfl),
        fun entry hholds _ => holds_touch d d.resultCache
          (hsame.trans hholds.entry)⟩
    · simp only [dropExpired, hpos, bind, Option.bind_eq_some_iff, pure, Option.some.injEq]
        at hlookup
      obtain ⟨_, ⟨_, rfl, recent, herase, rfl⟩, heq⟩ := hlookup
      obtain ⟨-, rfl⟩ := Prod.mk.inj heq
      have htracked := (hc.shrink (LinkedList.shrinks_erase herase)).eraseKey hash
      refine ⟨htracked, rfl, fun h hne entry hholds => ?_, fun entry hholds hv => ?_⟩
      · obtain ⟨hentry, it', hpos', hlive⟩ := hc.erase_spared hpos herase hne entry hholds
        exact ⟨(Function.update_of_ne hne ..).trans hentry, it',
          (Function.update_of_ne hne ..).trans hpos', hlive⟩
      · obtain rfl : e = entry := Option.some.inj (he.symm.trans hholds.entry)
        exact absurd hv hvalid

theorem Tracked.withValid (hc : Tracked c) (validForNanosec : UInt64) :
    Tracked { c with validForNanosec := validForNanosec } :=
  ⟨hc.keys, hc.made, hc.owner⟩

theorem spared_withValid (c : ResultCache) (h validForNanosec : UInt64) :
    Spared h c { c with validForNanosec := validForNanosec } :=
  fun _ hholds => ⟨hholds.entry, hholds.live⟩

end ResultCache

open ResultCache

/-- The call is no `add` of the hash, does not evict the hash and does not find it expired. -/
def PublicCall.Spares (stdHash : Bytes → UInt64) (h : UInt64) (c : ResultCache) :
    PublicCall → Prop
  | .setValidDuration _ => True
  | .check payload timestamp => computeHash stdHash payload = h → ∀ entry,
      c.resultCache h = some entry → entry.timestamp + c.validForNanosec > timestamp
  | .add hash _ _ => hash ≠ h ∧ c.EvictsOther hash h

variable {stdHash : Bytes → UInt64} {c c' c₀ : ResultCache} {h : UInt64}

theorem ResultCache.Tracked.next (hc : c.Tracked) {call : PublicCall}
    (hn : (publicMachine stdHash).next c call = some c') :
    c'.Tracked ∧ (call.Spares stdHash h c → c.Spared h c') := by
  cases call with
  | setValidDuration validForSec =>
    rw [← Option.some.inj hn]
    exact ⟨hc.withValid (validForSec * 1000000000),
      fun _ => spared_withValid c h (validForSec * 1000000000)⟩
  | check payload timestamp =>
    obtain ⟨⟨result, d⟩, hcheck, rfl⟩ := Option.map_eq_some_iff.1 hn
    obtain ⟨⟨allowed, d'⟩, hlookup, heq⟩ := Option.bind_eq_some_iff.1 hcheck
    obtain ⟨-, rfl⟩ := Prod.mk.inj (Option.some.inj heq)
    obtain ⟨hd, -, hother, hsame⟩ := hc.lookup hlookup
    refine ⟨hd, fun hspares entry hholds => ?_⟩
    by_cases hhash : computeHash stdHash payload = h
    · subst hhash
      exact hsame entry hholds (hspares rfl entry hholds.entry)
    · exact hother h (Ne.symm hhash) entry hholds
  | add hash result timestamp =>
    obtain ⟨hd, -, -, hother⟩ := hc.add hn
    exact ⟨hd, fun hspares => hother h (Ne.symm hspares.1) hspares.2⟩

theorem tracked_of_reaches {C : ResultCache → PublicCall → Prop} (hc₀ : c₀.Tracked)
    (hc : (publicMachine stdHash).Reaches C c₀ c) : c.Tracked :=
  hc.invariant hc₀ fun _ _ _ hd _ hn => (hd.next (h := 0) hn).1

/-- An entry stays until its hash is added again, is evicted or has expired. -/
theorem spared_of_reaches (hc₀ : c₀.Tracked)
    (hc : (publicMachine stdHash).Reaches (fun c call => call.Spares stdHash h c) c₀ c) :
    c₀.Spared h c := by
  refine (hc.invariant (I := fun d => d.Tracked ∧ c₀.Spared h d) ⟨hc₀, fun _ hholds => hholds⟩
    ?_).2
  rintro d call d' ⟨hd, hspared⟩ hspares hn
  obtain ⟨hd', hspared'⟩ := hd.next (h := h) hn
  exact ⟨hd', hspared.trans (hspared' hspares)⟩

/-- The check of a payload reports the decision. -/
def Serves (stdHash : Bytes → UInt64) (c : ResultCache) (payload : Payload) (timestamp : UInt64)
    (result : Bool) : Prop :=
  ∃ d, c.check stdHash payload timestamp = some (⟨computeHash stdHash payload, some result⟩, d)

theorem ResultCache.Holds.serves_iff {payload : Payload} {timestamp : UInt64} {entry : Entry}
    {result : Bool} (hholds : c.Holds (computeHash stdHash payload) entry) :
    Serves stdHash c payload timestamp result ↔
      entry.timestamp + c.validForNanosec > timestamp ∧ entry.result = result := by
  obtain ⟨d, hlookup⟩ := hholds.lookup timestamp
  unfold Serves ResultCache.check
  rw [hlookup]
  split_ifs with hvalid
  · simp [hvalid]
  · simp [hvalid]

/-! ### The newest decision -/

/-- A 64-bit sum that does not wrap around is compared as a number. -/
theorem add_gt_iff {t d t' : UInt64} (hwrap : t.toNat + d.toNat < 2 ^ 64) :
    t + d > t' ↔ t'.toNat < t.toNat + d.toNat := by
  rw [gt_iff_lt, UInt64.lt_iff_toNat_lt, UInt64.toNat_add, Nat.mod_eq_of_lt hwrap]

/-- **A new decision is served as long as it is valid, exactly if its hash had no entry before, or
one with the same decision that is still valid.** -/
theorem newest_served_iff {c₁ c₂ : ResultCache} {payload : Payload} {result : Bool}
    {t t' : UInt64} (hc : (publicMachine stdHash).Reaches (fun _ _ => True) .empty c)
    (hadd : c.add (computeHash stdHash payload) result t = some c₁)
    (hbetween : (publicMachine stdHash).Reaches
      (fun c call => call.Spares stdHash (computeHash stdHash payload) c) c₁ c₂)
    (hle : t ≤ t') (hvalid : t'.toNat - t.toNat < c₂.validForNanosec.toNat)
    (hwrap : t.toNat + c₂.validForNanosec.toNat < 2 ^ 64) :
    Serves stdHash c₂ payload t' result ↔
      ∀ entry, c.resultCache (computeHash stdHash payload) = some entry →
        entry.result = result ∧ entry.timestamp + c₂.validForNanosec > t' := by
  obtain ⟨hc₁, hholds, -, -⟩ := (tracked_of_reaches tracked_empty hc).add hadd
  rw [(spared_of_reaches hc₁ hbetween _ hholds).serves_iff]
  cases hentry : c.resultCache (computeHash stdHash payload) with
  | none =>
    have hlt : t'.toNat < t.toNat + c₂.validForNanosec.toNat := by
      have hle := UInt64.le_iff_toNat_le.1 hle
      omega
    exact iff_of_true ⟨(add_gt_iff hwrap).2 hlt, rfl⟩ fun _ h => nomatch h
  | some entry =>
    rw [Option.getD_some]
    constructor
    · rintro ⟨hgt, hresult⟩ _ ⟨⟩
      exact ⟨hresult, hgt⟩
    · intro hsame
      exact (hsame entry rfl).symm

/-- The payload of a request for `/`. -/
def rootPayload : Payload := ⟨[], [], bytes "GET", bytes "/"⟩

/-- The cache with one decision for that request. -/
def firstAnswer : ResultCache :=
  (ResultCache.empty.add (computeHash (fun _ => 0) rootPayload) true 100).get (by decide)

/-- The cache after another decision for it. -/
def secondAnswer : ResultCache :=
  (firstAnswer.add (computeHash (fun _ => 0) rootPayload) false 200).get (by decide)

theorem newest_served_first : Serves (fun _ => 0) firstAnswer rootPayload 10000000099 true :=
  (newest_served_iff .refl (Option.some_get _).symm .refl (by decide) (by decide) (by decide)).2
    fun _ h => nomatch h

/-- **A second answer for the same payload is not stored.**  The request is allowed by the first
one. -/
theorem second_answer_ignored : ¬ ∀ (stdHash : Bytes → UInt64) (c c₁ : ResultCache)
    (payload : Payload) (result : Bool) (t t' : UInt64),
    (publicMachine stdHash).Reaches (fun _ _ => True) .empty c →
    c.add (computeHash stdHash payload) result t = some c₁ → t ≤ t' →
    t'.toNat - t.toNat < c₁.validForNanosec.toNat →
    t.toNat + c₁.validForNanosec.toNat < 2 ^ 64 →
    Serves stdHash c₁ payload t' result := by
  intro h
  have hreach : (publicMachine fun _ => 0).Reaches (fun _ _ => True) .empty firstAnswer :=
    .single (l := .add (computeHash (fun _ => 0) rootPayload) true 100) trivial
      (Option.some_get _).symm
  have hadd : firstAnswer.add (computeHash (fun _ => 0) rootPayload) false 200 =
      some secondAnswer := (Option.some_get _).symm
  obtain ⟨d, hd⟩ := h _ _ _ rootPayload false 200 300 hreach hadd (by decide) (by decide)
    (by decide)
  have hserved : (secondAnswer.check (fun _ => 0) rootPayload 300).map (fun r => r.1.allowed) =
      some (some true) := by decide
  rw [hd] at hserved
  cases hserved

/-! ### How long a decision is served -/

/-- The duration that a text gives; a text that does not name it leaves the earlier one. -/
def Root.validSecOf (lib : JsonLibrary) (root : Root) (j : Json) : UInt64 :=
  valueOr (jsonGetField (jsonValueAsUint64 lib) j (bytes "check_result_cache_valid_sec"))
    root.cacheValidForSec

theorem Root.parseConfiguration_validSec {lib : JsonLibrary} {root root' : Root}
    {configuration : Bytes} {j : Json} (hj : jsonParse lib configuration = some j)
    (h : root.parseConfiguration lib configuration = (true, root')) :
    root'.cacheValidForSec = root.validSecOf lib j := by
  unfold Root.parseConfiguration at h
  unfold Root.validSecOf jsonGetField
  simp only [hj] at h
  split at h
  · split at h
    · cases hfind : j.find (bytes "check_result_cache_valid_sec") with
      | none =>
        -- the field is missing
        simp only [hfind, Option.map_none] at h
        cases h
        rfl
      | some value =>
        simp only [hfind, Option.map_some] at h
        split at h
        · rename_i hvalue
          cases h
          dsimp only
          rw [Option.some.inj hvalue]
          rfl
        · cases h
        · rename_i hnone
          cases hnone
    · cases h
  · cases h

theorem Root.onConfigure_validForNanosec {lib : JsonLibrary} {root root' : Root}
    {configuration : Bytes} {j : Json} (hj : jsonParse lib configuration = some j)
    (h : root.onConfigure lib configuration = (true, root')) :
    root'.cache.validForNanosec = root.validSecOf lib j * 1000000000 := by
  unfold Root.onConfigure at h
  cases hparse : root.parseConfiguration lib configuration with
  | mk accepted root₁ =>
    rw [hparse] at h
    cases accepted with
    | false => cases h
    | true =>
      rw [← parseConfiguration_validSec hj hparse, ← (Prod.mk.inj h).2]
      rfl

/-- **An entry lives as long as configured exactly if the time of its insertion plus the configured
duration, in nanoseconds, fits into 64 bits.** -/
theorem lives_as_configured_iff {lib : JsonLibrary} {root root' : Root} {configuration : Bytes}
    {j : Json} (hj : jsonParse lib configuration = some j)
    (hconfigured : root.onConfigure lib configuration = (true, root'))
    {c₁ c₂ : ResultCache} {payload : Payload} {result : Bool} {t : UInt64}
    (hc : (publicMachine stdHash).Reaches (fun _ _ => True) .empty c)
    (hnew : c.resultCache (computeHash stdHash payload) = none)
    (hadd : c.add (computeHash stdHash payload) result t = some c₁)
    (hbetween : (publicMachine stdHash).Reaches
      (fun c call => call.Spares stdHash (computeHash stdHash payload) c) c₁ c₂)
    (hvalid : c₂.validForNanosec = root'.cache.validForNanosec) :
    (∀ t' : UInt64, t ≤ t' → ((∃ allowed, Serves stdHash c₂ payload t' allowed) ↔
      t'.toNat - t.toNat < (root.validSecOf lib j).toNat * 10 ^ 9)) ↔
      t.toNat + (root.validSecOf lib j).toNat * 10 ^ 9 < 2 ^ 64 := by
  obtain ⟨hc₁, hholds, -, -⟩ := (tracked_of_reaches tracked_empty hc).add hadd
  rw [hnew, Option.getD_none] at hholds
  have hholds₂ := spared_of_reaches hc₁ hbetween _ hholds
  have hserves (t' : UInt64) : (∃ allowed, Serves stdHash c₂ payload t' allowed) ↔
      t + c₂.validForNanosec > t' :=
    ⟨fun ⟨_, h⟩ => (hholds₂.serves_iff.1 h).1, fun h => ⟨_, hholds₂.serves_iff.2 ⟨h, rfl⟩⟩⟩
  have hnanosec : c₂.validForNanosec.toNat =
      (root.validSecOf lib j).toNat * 10 ^ 9 % 2 ^ 64 := by
    rw [hvalid, Root.onConfigure_validForNanosec hj hconfigured, UInt64.toNat_mul]
    rfl
  simp only [hserves]
  constructor
  · intro hexact
    by_contra hlarge
    -- at the latest time of all the entry should be valid, and no sum exceeds that time
    have hle : t ≤ 18446744073709551615 := UInt64.le_iff_toNat_le.2 (Nat.le_of_lt_succ t.toNat_lt)
    have hlast := (hexact 18446744073709551615 hle).2 (by
      have hlt := t.toNat_lt
      show 18446744073709551615 - t.toNat < _
      omega)
    exact absurd (UInt64.lt_iff_toNat_lt.1 hlast)
      (Nat.not_lt.2 (Nat.le_of_lt_succ (UInt64.toNat_lt _)))
  · intro hfits t' hle
    have hle := UInt64.le_iff_toNat_le.1 hle
    have hsame : c₂.validForNanosec.toNat = (root.validSecOf lib j).toNat * 10 ^ 9 := by
      rw [hnanosec, Nat.mod_eq_of_lt (by omega)]
    rw [add_gt_iff (by rw [hsame]; exact hfits), hsame]
    omega

/-- A configuration that keeps decisions for the given time. -/
def validFor (validForSec : UInt64) : Json :=
  .object [(bytes "opa_service_host", .string (bytes "opa")),
    (bytes "opa_cluster_name", .string (bytes "opa")),
    (bytes "check_result_cache_valid_sec", .number (.unsigned validForSec))]

def tenSeconds : Bytes :=
  bytes ("\x7b\"opa_service_host\":\"opa\",\"opa_cluster_name\":\"opa\"," ++
    "\"check_result_cache_valid_sec\":10\x7d")

def centuries : Bytes :=
  bytes ("\x7b\"opa_service_host\":\"opa\",\"opa_cluster_name\":\"opa\"," ++
    "\"check_result_cache_valid_sec\":18446744074\x7d")

/-- The JSON library on such a text. -/
def durationLibrary (text : Bytes) (validForSec : UInt64) : JsonLibrary where
  parse text' := if text' = text then some (validFor validForSec) else none
  dump _ := none
  doubleToUint64 bits := bits
  simpleAtoiUint64 _ := none

/-- The root context with such a configuration. -/
def configuredFor (validForSec : UInt64) : Root where
  cache := ResultCache.empty.setValidDuration validForSec
  cacheValidForSec := validForSec
  opaHost := bytes "opa"
  opaCluster := bytes "opa"
  cacheHits := 0
  cacheMisses := 0

theorem jsonParse_durationLibrary (text : Bytes) (validForSec : UInt64) :
    jsonParse (durationLibrary text validForSec) text = some (validFor validForSec) := by
  simp [jsonParse, durationLibrary, validFor, Json.isObject]

theorem onConfigure_durationLibrary (text : Bytes) (validForSec : UInt64) :
    Root.start.onConfigure (durationLibrary text validForSec) text =
      (true, configuredFor validForSec) := by
  have hparse := jsonParse_durationLibrary text validForSec
  have hhost : (validFor validForSec).find (bytes "opa_service_host") =
      some (.string (bytes "opa")) := by rfl
  have hcluster : (validFor validForSec).find (bytes "opa_cluster_name") =
      some (.string (bytes "opa")) := by rfl
  have hvalid : (validFor validForSec).find (bytes "check_result_cache_valid_sec") =
      some (.number (.unsigned validForSec)) := by rfl
  simp only [Root.onConfigure, Root.parseConfiguration, hparse, hhost, hcluster, hvalid,
    Option.map_some, jsonValueAsString, jsonValueAsUint64]
  rfl

theorem validSecOf_validFor (lib : JsonLibrary) (root : Root) (validForSec : UInt64) :
    root.validSecOf lib (validFor validForSec) = validForSec := rfl

theorem lives_ten_seconds : (∀ t' : UInt64, 100 ≤ t' →
    ((∃ allowed, Serves (fun _ => 0) firstAnswer rootPayload t' allowed) ↔
      t'.toNat - UInt64.toNat 100 < UInt64.toNat 10 * 10 ^ 9)) ↔
    UInt64.toNat 100 + UInt64.toNat 10 * 10 ^ 9 < 2 ^ 64 :=
  lives_as_configured_iff (jsonParse_durationLibrary tenSeconds 10)
    (onConfigure_durationLibrary tenSeconds 10) .refl rfl (Option.some_get _).symm .refl (by decide)

/-- The cache with a longer duration and one decision. -/
def longLived : ResultCache :=
  ((configuredFor 18446744074).cache.add (computeHash (fun _ => 0) rootPayload) true 0).get
    (by decide)

/-- **An entry that should live for centuries is gone after a second.** -/
theorem long_duration_wraps : ¬ ∀ (lib : JsonLibrary) (root root' : Root) (configuration : Bytes)
    (j : Json) (stdHash : Bytes → UInt64) (c c₁ : ResultCache) (payload : Payload) (result : Bool)
    (t : UInt64), jsonParse lib configuration = some j →
    root.onConfigure lib configuration = (true, root') →
    (publicMachine stdHash).Reaches (fun _ _ => True) .empty c →
    c.resultCache (computeHash stdHash payload) = none →
    c.add (computeHash stdHash payload) result t = some c₁ →
    c₁.validForNanosec = root'.cache.validForNanosec → ∀ t' : UInt64, t ≤ t' →
    ((∃ allowed, Serves stdHash c₁ payload t' allowed) ↔
      t'.toNat - t.toNat < (root.validSecOf lib j).toNat * 10 ^ 9) := by
  intro h
  have hconfigured := onConfigure_durationLibrary centuries 18446744074
  have hreach : (publicMachine fun _ => 0).Reaches (fun _ _ => True) .empty
      (configuredFor 18446744074).cache :=
    .single (l := .setValidDuration 18446744074) trivial (by rfl)
  have hadd : (configuredFor 18446744074).cache.add (computeHash (fun _ => 0) rootPayload) true 0 =
      some longLived := (Option.some_get _).symm
  have hsec : (1000000000 : UInt64).toNat - (0 : UInt64).toNat <
      (Root.start.validSecOf (durationLibrary centuries 18446744074)
        (validFor 18446744074)).toNat * 10 ^ 9 := by
    rw [validSecOf_validFor]
    decide +kernel
  obtain ⟨allowed, d, hd⟩ := (h _ _ _ _ _ (fun _ => 0) _ _ rootPayload true 0
    (jsonParse_durationLibrary centuries 18446744074) hconfigured hreach rfl hadd
    (by decide +kernel) 1000000000 (by decide)).2 hsec
  have hmissed : (longLived.check (fun _ => 0) rootPayload 1000000000).map
      (fun r => r.1.allowed) = some none := by decide +kernel
  rw [hd] at hmissed
  cases hmissed

end OpenPolicyAgent

end WasmExtensions
