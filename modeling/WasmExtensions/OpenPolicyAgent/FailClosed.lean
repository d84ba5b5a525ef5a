import WasmExtensions.OpenPolicyAgent.Filter

/-!
# The policy filter fails closed

A request is let through only on the word of the policy server: an answer whose body is a JSON
object with the field `result` equal to `true` or `"true"` (`Answers`), received for that very
request or, not too long ago, for a request with the same hash.  The cache holds nothing else, in
any order of requests, answers, failures and deletions, and even when its containers are no longer
consistent.  An answer without a decision changes nothing, and neither does a call that fails.

* `Root.check_cases`, `Root.onResponse_cases` : what `check` and the callback can do.
* `Event.Justified` : what must have happened before a request is let through.
* `DecisionsOnly` : what happens without a decision of the server.
* `failsClosed` : **every run fails closed**.
* `denial_cached` : an answer that denies a request does add an entry to the cache.
-/

namespace WasmExtensions

namespace OpenPolicyAgent

/-! ### Entries of the cache -/

namespace ResultCache

/-- All entries of `c'` are entries of `c`. -/
def EntriesLe (c' c : ResultCache) : Prop :=
  ∀ k e, c'.resultCache k = some e → c.resultCache k = some e

variable {c c' c'' : ResultCache} {hash timestamp : UInt64} {result : Bool}

theorem EntriesLe.refl (c : ResultCache) : c.EntriesLe c := fun _ _ => id

theorem of_update_none {f : UInt64 → Option Entry} {k old : UInt64} {e : Entry}
    (h : Function.update f old none k = some e) : f k = some e := by
  by_cases hk : k = old
  · rw [hk, Function.update_self] at h
    cases h
  · rwa [Function.update_of_ne hk] at h

/-- `use` adds no entry and changes none. -/
theorem entriesLe_use (h : c.use hash = some c') : c'.EntriesLe c := by
  obtain ⟨c₁, hmake, h⟩ := Option.bind_eq_some_iff.1 h
  cases h
  unfold makeRoom at hmake
  split at hmake
  · obtain ⟨recent, -, hmake⟩ := Option.bind_eq_some_iff.1 hmake
    cases hmake
    exact .refl c
  · split at hmake
    · obtain ⟨back, -, hmake⟩ := Option.bind_eq_some_iff.1 hmake
      obtain ⟨recent, -, hmake⟩ := Option.bind_eq_some_iff.1 hmake
      cases hmake
      exact fun k e he => of_update_none he
    · cases hmake
      exact .refl c

/-- `add` adds at most its own entry. -/
theorem entries_add (h : c.add hash result timestamp = some c') {k : UInt64} {e : Entry}
    (he : c'.resultCache k = some e) :
    c.resultCache k = some e ∨ k = hash ∧ e = ⟨result, timestamp⟩ := by
  obtain ⟨c₁, huse, h⟩ := Option.bind_eq_some_iff.1 h
  cases h
  have hle := entriesLe_use huse
  by_cases hk : k = hash
  · subst hk
    simp only [emplace, Function.update_self] at he
    cases hold : c₁.resultCache k with
    | none =>
      rw [hold] at he
      exact .inr ⟨rfl, (Option.some.inj he).symm⟩
    | some e' =>
      rw [hold] at he
      cases he
      exact .inl (hle k e hold)
  · simp only [emplace, Function.update_of_ne hk] at he
    exact .inl (hle k e he)

/-- A look-up adds no entry, and a hit reports an entry that has not expired; if the sum of its
timestamp and its duration wraps around, the entry expires too early. -/
theorem lookup_cases {allowed : Option Bool} (h : c.lookup hash timestamp = some (allowed, c')) :
    c'.EntriesLe c ∧ ∀ b, allowed = some b → ∃ e, c.resultCache hash = some e ∧ e.result = b ∧
      timestamp.toNat < e.timestamp.toNat + c.validForNanosec.toNat := by
  unfold lookup at h
  split at h
  · cases h
    exact ⟨.refl c, by simp⟩
  · rename_i entry hentry
    split at h
    · rename_i hvalid
      obtain ⟨c₁, huse, h⟩ := Option.bind_eq_some_iff.1 h
      obtain ⟨entry', hentry', h⟩ := Option.bind_eq_some_iff.1 h
      cases h
      have hle := entriesLe_use huse
      obtain rfl : entry = entry' := Option.some.inj (hentry.symm.trans (hle _ _ hentry'))
      refine ⟨hle, fun b hb => ⟨entry, hentry, Option.some.inj hb, ?_⟩⟩
      have hlt := UInt64.lt_iff_toNat_lt.1 hvalid
      rw [UInt64.toNat_add] at hlt
      exact Nat.lt_of_lt_of_le hlt (Nat.mod_le ..)
    · obtain ⟨c₁, hdrop, h⟩ := Option.bind_eq_some_iff.1 h
      cases h
      obtain ⟨it, -, hdrop⟩ := Option.bind_eq_some_iff.1 hdrop
      obtain ⟨recent, -, hdrop⟩ := Option.bind_eq_some_iff.1 hdrop
      cases hdrop
      exact ⟨fun k e he => of_update_none he, by simp⟩

/-- A look-up that misses drops at most its own entry, and only one that has expired. -/
theorem lookup_miss (h : c.lookup hash timestamp = some (none, c')) (k : UInt64) :
    c'.resultCache k = c.resultCache k ∨ c'.resultCache k = none ∧ k = hash ∧
      ∃ e, c.resultCache k = some e ∧ e.timestamp + c.validForNanosec ≤ timestamp := by
  unfold lookup at h
  split at h
  · cases h
    exact .inl rfl
  · rename_i entry hentry
    split at h
    · -- a hit is not a miss
      obtain ⟨c₁, -, h⟩ := Option.bind_eq_some_iff.1 h
      obtain ⟨entry', -, h⟩ := Option.bind_eq_some_iff.1 h
      cases h
    · rename_i hexpired
      obtain ⟨c₁, hdrop, h⟩ := Option.bind_eq_some_iff.1 h
      cases h
      obtain ⟨it, -, hdrop⟩ := Option.bind_eq_some_iff.1 hdrop
      obtain ⟨recent, -, hdrop⟩ := Option.bind_eq_some_iff.1 hdrop
      cases hdrop
      by_cases hk : k = hash
      · subst hk
        exact .inr ⟨Function.update_self .., rfl, entry, hentry, UInt64.not_lt.1 hexpired⟩
      · exact .inl (Function.update_of_ne hk ..)

end ResultCache

/-! ### `check` and the callback -/

variable {lib : JsonLibrary} {stdHash : Bytes → UInt64}

namespace Root

variable {root : Root} {attributes : Attributes} {now : UInt64} {callResult : WasmResult}

theorem checkCache_cases {payload : Payload} {result : ResultCache.CheckResult} {root' : Root}
    (h : root.checkCache stdHash payload now = some (result, root')) :
    result.hash = computeHash stdHash payload ∧ root'.cache.EntriesLe root.cache ∧
      ∀ b, result.allowed = some b → ∃ e, root.cache.resultCache result.hash = some e ∧
        e.result = b ∧ now.toNat < e.timestamp.toNat + root.cache.validForNanosec.toNat := by
  obtain ⟨⟨result₁, cache⟩, hcheck, h⟩ := Option.bind_eq_some_iff.1 h
  obtain ⟨⟨allowed, cache₁⟩, hlookup, hcheck⟩ := Option.bind_eq_some_iff.1 hcheck
  cases hcheck
  have hcases := ResultCache.lookup_cases hlookup
  dsimp only at h
  split at h <;> cases h <;> exact ⟨rfl, hcases⟩

/-- What `check` can do: let the request through on a valid entry, deny it on the spot, ask the
policy server, or fail to ask it. -/
inductive CheckOutcome (root : Root) (now : UInt64) (c : Checked) : Prop
  | passed (e : Entry) : c.status = .Continue → c.call = none → c.action = none →
      root.cache.resultCache c.hash = some e → e.result = true →
      now.toNat < e.timestamp.toNat + root.cache.validForNanosec.toNat → CheckOutcome root now c
  | denied (code : ℕ) (body : Bytes) : c.status = .StopIteration → c.call = none →
      c.action = some (.sendLocalResponse code body) → CheckOutcome root now c
  | asked (call : HttpCall) : c.status = .StopIteration → c.call = some (call, .Ok) →
      c.action = none → CheckOutcome root now c
  | notAsked (call : HttpCall) (r : WasmResult) (code : ℕ) (body : Bytes) :
      c.status = .StopIteration → c.call = some (call, r) → r ≠ .Ok →
      c.action = some (.sendLocalResponse code body) → CheckOutcome root now c

theorem check_cases {c : Checked} (h : root.check lib stdHash attributes now callResult = .ok c) :
    c.hash = computeHash stdHash attributes.payload ∧ c.root.cache.EntriesLe root.cache ∧
      CheckOutcome root now c := by
  unfold check at h
  split at h
  · cases h
  · rename_i hash root' hcache
    obtain ⟨hhash, hle, hhit⟩ := checkCache_cases hcache
    obtain ⟨e, he, hresult, hvalid⟩ := hhit true rfl
    cases h
    exact ⟨hhash, hle, .passed e rfl rfl rfl he hresult hvalid⟩
  · rename_i hash root' hcache
    obtain ⟨hhash, hle, -⟩ := checkCache_cases hcache
    cases h
    exact ⟨hhash, hle, .denied _ _ rfl rfl rfl⟩
  · rename_i hash root' hcache
    obtain ⟨hhash, hle, -⟩ := checkCache_cases hcache
    split at h
    · cases h
    · cases h
      refine ⟨hhash, hle, ?_⟩
      by_cases hr : callResult = .Ok
      · subst hr
        exact .asked _ rfl rfl rfl
      · exact .notAsked _ callResult _ _ rfl rfl hr (by simp only [if_pos hr]; rfl)

/-- `check` asks the server only if its look-up has missed. -/
theorem checkCache_of_call {c : Checked} {call : HttpCall × WasmResult}
    (h : root.check lib stdHash attributes now callResult = .ok c) (hcall : c.call = some call) :
    root.checkCache stdHash attributes.payload now = some (⟨c.hash, none⟩, c.root) := by
  unfold check at h
  split at h
  · cases h
  · cases h
    cases hcall
  · cases h
    cases hcall
  · rename_i hash root' hcache
    split at h
    · cases h
    · cases h
      exact hcache

theorem cache_of_call {c : Checked} {call : HttpCall × WasmResult}
    (h : root.check lib stdHash attributes now callResult = .ok c) (hcall : c.call = some call)
    (k : UInt64) : c.root.cache.resultCache k = root.cache.resultCache k ∨
      c.root.cache.resultCache k = none ∧ k = computeHash stdHash attributes.payload ∧
        ∃ e, root.cache.resultCache k = some e ∧
          e.timestamp + root.cache.validForNanosec ≤ now := by
  have hcache := checkCache_of_call h hcall
  obtain ⟨⟨result, cache⟩, hcheck, hcache⟩ := Option.bind_eq_some_iff.1 hcache
  obtain ⟨⟨allowed, cache₁⟩, hlookup, hcheck⟩ := Option.bind_eq_some_iff.1 hcheck
  cases hcheck
  dsimp only at hcache
  split at hcache
  · -- a hit is not a miss
    rename_i hhit
    obtain ⟨hresult, -⟩ := Prod.mk.inj (Option.some.inj hcache)
    have hmiss : allowed = none := congrArg ResultCache.CheckResult.allowed hresult
    rw [hmiss] at hhit
    cases hhit
  · obtain ⟨hresult, hroot⟩ := Prod.mk.inj (Option.some.inj hcache)
    have hmiss : allowed = none := congrArg ResultCache.CheckResult.allowed hresult
    rw [hmiss] at hlookup
    rw [← hroot]
    exact ResultCache.lookup_miss hlookup k

/-- The outcome of the call makes no difference to what `check` leaves in the root context. -/
theorem check_root {c : Checked}
    (h : root.check lib stdHash attributes now callResult = .ok c) (callResult' : WasmResult) :
    ∃ c', root.check lib stdHash attributes now callResult' = .ok c' ∧ c'.root = c.root := by
  unfold check at h ⊢
  split at h
  · cases h
  · cases h
    exact ⟨_, rfl, rfl⟩
  · cases h
    exact ⟨_, rfl, rfl⟩
  · cases hdump : lib.dump attributes.payload.toJson with
    | none =>
      simp only [hdump] at h
      cases h
    | some jsonPayload =>
      simp only [hdump] at h ⊢
      cases h
      exact ⟨_, rfl, rfl⟩

end Root

/-- The body of an answer is a JSON object whose field `result` is the boolean `b` or the string
of it. -/
def Answers (lib : JsonLibrary) (body : Bytes) (b : Bool) : Prop :=
  ∃ j v, lib.parse body = some j ∧ j.isObject = true ∧ j.find (bytes "result") = some v ∧
    (v = .boolean b ∨ v = .string (bytes (if b then "true" else "false")))

theorem Answers.inj {body : Bytes} {b b' : Bool} (h : Answers lib body b)
    (h' : Answers lib body b') : b = b' := by
  obtain ⟨j, v, hj, -, hv, hb⟩ := h
  obtain ⟨j', v', hj', -, hv', hb'⟩ := h'
  rw [hj] at hj'
  cases hj'
  rw [hv] at hv'
  cases hv'
  have heq := (jsonValueAsBool_eq_some.2 hb).symm.trans (jsonValueAsBool_eq_some.2 hb')
  simpa using heq

namespace Root

variable {root root' : Root} {hash now : UInt64} {body : Bytes}

/-- The callback either takes the decision of the answer into the cache and acts on it, or refuses
the request. -/
theorem onResponse_cases (lib : JsonLibrary) (root : Root) (hash : UInt64) (body : Bytes)
    (now : UInt64) :
    (∃ b, Answers lib body b ∧ root.onResponse lib hash body now =
      match root.addCache hash b now with
      | none => .error .cache
      | some root' =>
        .ok (root', if b then .continueRequest
          else .sendLocalResponse 403 (bytes "OPA policy check denied"))) ∨
    ((∀ b, ¬ Answers lib body b) ∧ root.onResponse lib hash body now =
      .ok (root, .sendLocalResponse 500 (bytes "OPA policy check failed"))) := by
  cases hparse : jsonParse lib body with
  | none =>
    -- The body is not a JSON object.
    refine .inr ⟨?_, by simp only [onResponse, hparse]⟩
    rintro b ⟨j, v, hj, hobj, -⟩
    rw [jsonParse, hj, Option.filter_some, if_pos hobj] at hparse
    cases hparse
  | some j =>
    obtain ⟨hj, hobj⟩ := Option.filter_eq_some_iff.1 hparse
    have hanswers {b : Bool} (h : Answers lib body b) :
        ∃ v, j.find (bytes "result") = some v ∧ jsonValueAsBool v = (some b, .OK) := by
      obtain ⟨j', v, hj', -, hv, hb⟩ := h
      rw [hj] at hj'
      cases hj'
      exact ⟨v, hv, jsonValueAsBool_eq_some.2 hb⟩
    cases hfind : j.find (bytes "result") with
    | none =>
      refine .inr ⟨fun b h => ?_, by simp only [onResponse, hparse, hfind]⟩
      obtain ⟨v, hv, -⟩ := hanswers h
      rw [hfind] at hv
      cases hv
    | some v =>
      by_cases hv : ∃ b, jsonValueAsBool v = (some b, .OK)
      · obtain ⟨b, hv⟩ := hv
        refine .inl ⟨b, ⟨j, v, hj, hobj, hfind, jsonValueAsBool_eq_some.1 hv⟩, ?_⟩
        simp only [onResponse, hparse, hfind, hv]
        cases root.addCache hash b now with
        | none => rfl
        | some root' => cases b <;> rfl
      · -- The result is there, but it is no decision.
        refine .inr ⟨fun b h => ?_, ?_⟩
        · obtain ⟨v', hv', hb⟩ := hanswers h
          rw [hfind] at hv'
          cases hv'
          exact hv ⟨b, hb⟩
        · simp only [onResponse, hparse, hfind]
          split
          · rename_i b hb
            exact absurd ⟨b, hb⟩ hv
          · rfl

end Root

/-! ### Runs -/

variable {S : Type*} [DecidableEq S] {st st' : FilterState S}

/-- What must have happened before an event: a callback runs for a request that was stopped, with
its hash; and a request is let through only if the server has just allowed this very request, or
has allowed one with the same hash and the time since then is less than the configured
duration. -/
def Event.Justified (lib : JsonLibrary) (stdHash : Bytes → UInt64) :
    Event S → List (Event S) → Prop
  | .answered s hash _ _, past => ∃ payload now validForNanosec,
    .checked s payload hash now validForNanosec .StopIteration ∈ past ∧
      hash = computeHash stdHash payload
  | .acted _ s .continueRequest, past =>
    ∃ hash body now rest, past = .answered s hash body now :: rest ∧ Answers lib body true
  | .checked _ payload hash now validForNanosec .Continue, past =>
    hash = computeHash stdHash payload ∧ ∃ s body t, .answered s hash body t ∈ past ∧
      Answers lib body true ∧ now.toNat < t.toNat + validForNanosec.toNat
  | _, _ => True

/-- A new entry of the cache is the decision of the answer that the step is about. -/
def OnlyDecisionsCached (lib : JsonLibrary) (st : FilterState S) (l : FilterLabel S)
    (st' : FilterState S) : Prop :=
  ∀ k e, st'.root.cache.resultCache k = some e → st.root.cache.resultCache k = some e ∨
    ∃ i p body, l = .respond i body e.timestamp ∧ st.pending[i]? = some p ∧ p.payloadHash = k ∧
      Answers lib body e.result

/-- Whom an event lets through. -/
def Event.letThrough : Event S → Option S
  | .acted _ s .continueRequest => some s
  | .checked s _ _ _ _ .Continue => some s
  | _ => none

/-- The requests that have been let through, the latest first. -/
def FilterState.letThrough (st : FilterState S) : List S := st.log.filterMap Event.letThrough

/-- What the filter does without a decision of the server: it lets nobody through, and its cache is
left alone. -/
structure DecisionsOnly (lib : JsonLibrary) (stdHash : Bytes → UInt64) (st : FilterState S) :
    Prop where
  /-- An answer that does not allow its request lets nobody through. -/
  refused : ∀ i body now st',
    (filterMachine lib stdHash).next st (.respond i body now) = some st' →
    ¬ Answers lib body true → st'.letThrough = st.letThrough
  /-- An answer without a decision leaves the root context as it is. -/
  undecided : ∀ i body now st',
    (filterMachine lib stdHash).next st (.respond i body now) = some st' →
    (∀ b, ¬ Answers lib body b) → st'.root = st.root
  /-- So does a call that has failed, which is answered with an empty body. -/
  failed : ∀ i now st', (filterMachine lib stdHash).next st (.respond i [] now) = some st' →
    st'.root = st.root ∧ st'.letThrough = st.letThrough
  /-- A call that cannot be made lets nobody through and is not outstanding.  It leaves the root
  context as a call that is made does: `check` has dropped at most the entry of its own hash, if
  that had expired. -/
  notMade : ∀ s attributes now r st' call new,
    (filterMachine lib stdHash).next st (.request s attributes now r) = some st' → r ≠ .Ok →
    st'.log = new ++ st.log → .called s call r ∈ new →
    st'.letThrough = st.letThrough ∧ st'.pending = st.pending ∧
      st'.root = (st.request lib stdHash s attributes now .Ok).root ∧
      ∀ k, st'.root.cache.resultCache k = st.root.cache.resultCache k ∨
        st'.root.cache.resultCache k = none ∧ k = computeHash stdHash attributes.payload ∧
          ∃ e, st.root.cache.resultCache k = some e ∧
            e.timestamp + st.root.cache.validForNanosec ≤ now

/-- The filter has let nobody through, and holds no decision, without the word of the server. -/
structure FailsClosed (lib : JsonLibrary) (stdHash : Bytes → UInt64) (st : FilterState S) :
    Prop where
  /-- Whoever was let through was let through on the word of the server. -/
  justified : History (Event.Justified lib stdHash) st.log
  /-- The entries of the cache are decisions of the server. -/
  entries : ∀ k e, st.root.cache.resultCache k = some e →
    ∃ s body, .answered s k body e.timestamp ∈ st.log ∧ Answers lib body e.result
  /-- The outstanding calls belong to stopped requests. -/
  pending : ∀ p ∈ st.pending, ∃ payload now validForNanosec,
    .checked p.stream payload p.payloadHash now validForNanosec .StopIteration ∈ st.log ∧
      p.payloadHash = computeHash stdHash payload

omit [DecidableEq S] in
/-- The filter after an answer. -/
theorem FilterState.respond_cases (lib : JsonLibrary) (st : FilterState S) (p : Pending S)
    (body : Bytes) (now : UInt64) :
    (st.streams p.stream ≠ .alive ∧ st.respond lib p body now =
      { st with
        fault := some .nullContext
        log := .answered p.stream p.payloadHash body now :: st.log }) ∨
    (st.streams p.stream = .alive ∧ ∃ b, Answers lib body b ∧
      st.root.addCache p.payloadHash b now = none ∧ st.respond lib p body now =
        { st with
          fault := some .cache
          log := .answered p.stream p.payloadHash body now :: st.log }) ∨
    (st.streams p.stream = .alive ∧ ∃ b root', Answers lib body b ∧
      st.root.addCache p.payloadHash b now = some root' ∧ st.respond lib p body now =
        { st with
          root := root'
          log := .acted p.stream p.stream (if b then .continueRequest
            else .sendLocalResponse 403 (bytes "OPA policy check denied")) ::
              .answered p.stream p.payloadHash body now :: st.log }) ∨
    (st.streams p.stream = .alive ∧ (∀ b, ¬ Answers lib body b) ∧ st.respond lib p body now =
      { st with
        log := .acted p.stream p.stream
          (.sendLocalResponse 500 (bytes "OPA policy check failed")) ::
            .answered p.stream p.payloadHash body now :: st.log }) := by
  by_cases halive : st.streams p.stream = .alive
  · rcases st.root.onResponse_cases lib p.payloadHash body now with ⟨b, hb, heq⟩ | ⟨hno, heq⟩
    · cases hadd : st.root.addCache p.payloadHash b now with
      | none =>
        rw [hadd] at heq
        exact .inr (.inl ⟨halive, b, hb, hadd, by simp [respond, halive, heq]⟩)
      | some root' =>
        rw [hadd] at heq
        exact .inr (.inr (.inl ⟨halive, b, root', hb, hadd, by simp [respond, halive, heq]⟩))
    · exact .inr (.inr (.inr ⟨halive, hno, by simp [respond, halive, heq]⟩))
  · exact .inl ⟨halive, by simp [respond, halive]⟩

theorem addCache_entries {root root' : Root} {hash now : UInt64} {b : Bool}
    (h : root.addCache hash b now = some root') {k : UInt64} {e : Entry}
    (he : root'.cache.resultCache k = some e) :
    root.cache.resultCache k = some e ∨ k = hash ∧ e = ⟨b, now⟩ := by
  obtain ⟨cache, hadd, h⟩ := Option.bind_eq_some_iff.1 h
  cases h
  exact ResultCache.entries_add hadd he

/-- The configuration is parsed without touching the cache. -/
theorem parseConfiguration_cache (lib : JsonLibrary) (root : Root) (configuration : Bytes) :
    (root.parseConfiguration lib configuration).2.cache = root.cache := by
  unfold Root.parseConfiguration
  split
  · rfl
  · split
    · split
      · split <;> rfl
      · rfl
    · rfl

theorem onConfigure_resultCache (lib : JsonLibrary) (root : Root) (configuration : Bytes) :
    (root.onConfigure lib configuration).2.cache.resultCache = root.cache.resultCache := by
  have hcache := congrArg ResultCache.resultCache (parseConfiguration_cache lib root configuration)
  unfold Root.onConfigure
  cases hparse : root.parseConfiguration lib configuration with
  | mk ok root' =>
    rw [hparse] at hcache
    cases ok with
    | false => exact hcache
    | true => exact (ResultCache.setValidDuration_resultCache ..).trans hcache

/-- **Only a decision of the server gets into the cache.** -/
theorem onlyDecisionsCached {l : FilterLabel S}
    (hn : (filterMachine lib stdHash).next st l = some st') : OnlyDecisionsCached lib st l st' := by
  intro k e he
  cases l with
  | configure configuration =>
    rw [configure_of_next hn, onConfigure_resultCache] at he
    exact .inl he
  | request s attributes now callResult =>
    obtain ⟨-, -, rfl⟩ := request_of_next hn
    unfold FilterState.request at he
    dsimp only at he
    split at he
    · exact .inl he
    · rename_i c hcheck
      exact .inl ((Root.check_cases hcheck).2.1 k e he)
  | delete s =>
    obtain ⟨-, rfl⟩ := delete_of_next hn
    exact .inl he
  | respond i body now =>
    obtain ⟨-, p, hp, rfl⟩ := respond_of_next hn
    rcases FilterState.respond_cases lib { st with pending := st.pending.eraseIdx i } p body now
      with ⟨-, heq⟩ | ⟨-, b, -, -, heq⟩ | ⟨-, b, root', hb, hadd, heq⟩ | ⟨-, -, heq⟩ <;>
      rw [heq] at he
    · exact .inl he
    · exact .inl he
    · rcases addCache_entries hadd he with he | ⟨rfl, rfl⟩
      · exact .inl he
      · exact .inr ⟨i, p, body, rfl, hp, rfl, hb⟩
    · exact .inl he

omit [DecidableEq S] in
/-- A check adds at most the call that it stops for. -/
theorem pending_afterCheck {s : S} {payload : Payload} {now : UInt64} {c : Root.Checked}
    {p : Pending S} (hout : Root.CheckOutcome st.root now c)
    (hp : p ∈ (st.afterCheck s payload now c).pending) :
    p ∈ st.pending ∨ c.status = .StopIteration ∧ p = ⟨s, c.hash⟩ := by
  cases hout with
  | passed e _ hcall => simp only [FilterState.afterCheck, hcall] at hp; exact .inl hp
  | denied code body _ hcall => simp only [FilterState.afterCheck, hcall] at hp; exact .inl hp
  | asked call hstatus hcall =>
    simp only [FilterState.afterCheck, hcall, List.mem_cons] at hp
    exact hp.elim (fun heq => .inr ⟨hstatus, heq⟩) .inl
  | notAsked call r code body _ hcall hr =>
    -- The call failed, so no callback is registered.
    refine .inl ?_
    cases r with
    | Ok => exact absurd rfl hr
    | _ => simpa only [FilterState.afterCheck, hcall] using hp

omit [DecidableEq S] in
/-- A check lets a request pass only on an entry that is justified and still valid. -/
theorem justified_check {s : S} {payload : Payload} {now : UInt64} {c : Root.Checked}
    (h : FailsClosed lib stdHash st) (hhash : c.hash = computeHash stdHash payload)
    (hout : Root.CheckOutcome st.root now c) :
    History (Event.Justified lib stdHash) (st.afterCheck s payload now c).log := by
  cases hout with
  | passed e hstatus hcall haction he hresult hvalid =>
    obtain ⟨s', body, hmem, hans⟩ := h.entries c.hash e he
    rw [hresult] at hans
    simp only [FilterState.afterCheck, hcall, haction, hstatus, Option.toList_none, List.map_nil]
    exact ⟨⟨hhash, s', body, e.timestamp, hmem, hans, hvalid⟩, h.justified⟩
  | denied code body hstatus hcall haction =>
    simp only [FilterState.afterCheck, hcall, haction, hstatus]
    exact ⟨trivial, trivial, h.justified⟩
  | asked call hstatus hcall haction =>
    simp only [FilterState.afterCheck, hcall, haction, hstatus]
    exact ⟨trivial, trivial, h.justified⟩
  | notAsked call r code body hstatus hcall _ haction =>
    simp only [FilterState.afterCheck, hcall, haction, hstatus]
    exact ⟨trivial, trivial, trivial, h.justified⟩

omit [DecidableEq S] in
/-- `check` keeps the filter sound. -/
theorem FailsClosed.check {s : S} {payload : Payload} {now : UInt64} {c : Root.Checked}
    (h : FailsClosed lib stdHash st) (hhash : c.hash = computeHash stdHash payload)
    (hle : c.root.cache.EntriesLe st.root.cache) (hout : Root.CheckOutcome st.root now c) :
    FailsClosed lib stdHash (st.afterCheck s payload now c) where
  entries k e he := by
    obtain ⟨s', body, hmem, hans⟩ := h.entries k e (hle k e he)
    exact ⟨s', body, List.mem_cons_of_mem _ (List.mem_append_right _ hmem), hans⟩
  justified := justified_check h hhash hout
  pending p hp := by
    rcases pending_afterCheck hout hp with hp | ⟨hstatus, rfl⟩
    · obtain ⟨payload', now', valid, hmem, heq⟩ := h.pending p hp
      exact ⟨payload', now', valid, List.mem_cons_of_mem _ (List.mem_append_right _ hmem), heq⟩
    · refine ⟨payload, now, st.root.cache.validForNanosec, ?_, hhash⟩
      rw [FilterState.afterCheck, hstatus]
      exact List.mem_cons_self ..

omit [DecidableEq S] in
/-- The callback keeps the log sound. -/
theorem justified_respond {p : Pending S} {body : Bytes} {now : UInt64}
    (hlog : History (Event.Justified lib stdHash) st.log)
    (hp : Event.Justified lib stdHash (.answered p.stream p.payloadHash body now) st.log) :
    History (Event.Justified lib stdHash) (st.respond lib p body now).log := by
  rcases FilterState.respond_cases lib st p body now with
    ⟨-, heq⟩ | ⟨-, b, -, -, heq⟩ | ⟨-, b, root', hb, -, heq⟩ | ⟨-, -, heq⟩ <;> rw [heq]
  · exact ⟨hp, hlog⟩
  · exact ⟨hp, hlog⟩
  · refine ⟨?_, hp, hlog⟩
    cases b with
    | true => exact ⟨p.payloadHash, body, now, st.log, rfl, hb⟩
    | false => trivial
  · exact ⟨trivial, hp, hlog⟩

/-- The log only grows. -/
theorem mem_log_of_next {l : FilterLabel S} {e : Event S} (he : e ∈ st.log)
    (hn : (filterMachine lib stdHash).next st l = some st') : e ∈ st'.log := by
  cases l with
  | configure configuration =>
    rw [configure_of_next hn]
    exact he
  | request s attributes now callResult =>
    obtain ⟨-, -, rfl⟩ := request_of_next hn
    unfold FilterState.request
    dsimp only
    split
    · exact he
    · exact List.mem_cons_of_mem _ (List.mem_append_right _ he)
  | delete s =>
    obtain ⟨-, rfl⟩ := delete_of_next hn
    exact he
  | respond i body now =>
    obtain ⟨-, p, -, rfl⟩ := respond_of_next hn
    rcases FilterState.respond_cases lib { st with pending := st.pending.eraseIdx i } p body now
      with ⟨-, heq⟩ | ⟨-, b, -, -, heq⟩ | ⟨-, b, root', -, -, heq⟩ | ⟨-, -, heq⟩ <;> rw [heq]
    · exact List.mem_cons_of_mem _ he
    · exact List.mem_cons_of_mem _ he
    · exact List.mem_cons_of_mem _ (List.mem_cons_of_mem _ he)
    · exact List.mem_cons_of_mem _ (List.mem_cons_of_mem _ he)

/-- An answer is logged. -/
theorem answered_mem_log {i : ℕ} {p : Pending S} {body : Bytes} {now : UInt64}
    (hp : st.pending[i]? = some p)
    (hn : (filterMachine lib stdHash).next st (.respond i body now) = some st') :
    .answered p.stream p.payloadHash body now ∈ st'.log := by
  obtain ⟨-, p', hp', rfl⟩ := respond_of_next hn
  rw [hp] at hp'
  cases hp'
  rcases FilterState.respond_cases lib { st with pending := st.pending.eraseIdx i } p body now with
    ⟨-, heq⟩ | ⟨-, b, -, -, heq⟩ | ⟨-, b, root', -, -, heq⟩ | ⟨-, -, heq⟩ <;> rw [heq]
  · exact List.mem_cons_self ..
  · exact List.mem_cons_self ..
  · exact List.mem_cons_of_mem _ (List.mem_cons_self ..)
  · exact List.mem_cons_of_mem _ (List.mem_cons_self ..)

omit [DecidableEq S] in
/-- An answer makes no call. -/
theorem pending_respond (p : Pending S) (body : Bytes) (now : UInt64) :
    (st.respond lib p body now).pending = st.pending := by
  rcases FilterState.respond_cases lib st p body now with
    ⟨-, heq⟩ | ⟨-, b, -, -, heq⟩ | ⟨-, b, root', -, -, heq⟩ | ⟨-, -, heq⟩ <;> rw [heq]

omit [DecidableEq S] in
theorem FailsClosed.start : FailsClosed lib stdHash (.start : FilterState S) where
  justified := trivial
  entries _ _ he := nomatch he
  pending _ hp := nomatch hp

theorem FailsClosed.step {l : FilterLabel S} (h : FailsClosed lib stdHash st)
    (hn : (filterMachine lib stdHash).next st l = some st') : FailsClosed lib stdHash st' := by
  cases l with
  | configure configuration =>
    rw [configure_of_next hn]
    exact ⟨h.justified, by rw [onConfigure_resultCache]; exact h.entries, h.pending⟩
  | request s attributes now callResult =>
    obtain ⟨-, -, rfl⟩ := request_of_next hn
    have h' : FailsClosed lib stdHash { st with streams := Function.update st.streams s .alive } :=
      ⟨h.justified, h.entries, h.pending⟩
    unfold FilterState.request
    dsimp only
    split
    · exact ⟨h.justified, h.entries, h.pending⟩
    · rename_i c hcheck
      obtain ⟨hhash, hle, hout⟩ := Root.check_cases hcheck
      exact h'.check hhash hle hout
  | delete s =>
    obtain ⟨-, rfl⟩ := delete_of_next hn
    exact ⟨h.justified, h.entries, h.pending⟩
  | respond i body now =>
    -- A new entry is the answer that the callback brings, and that answer is in the log.
    have hentries : ∀ k e, st'.root.cache.resultCache k = some e →
        ∃ s body, .answered s k body e.timestamp ∈ st'.log ∧ Answers lib body e.result := by
      intro k e he
      rcases onlyDecisionsCached hn k e he with he | ⟨i, p, body, hl, hp, rfl, hb⟩
      · obtain ⟨s, body, hmem, hans⟩ := h.entries k e he
        exact ⟨s, body, mem_log_of_next hmem hn, hans⟩
      · cases hl
        exact ⟨p.stream, body, answered_mem_log hp hn, hb⟩
    have hmono := fun e (he : e ∈ st.log) => mem_log_of_next he hn
    obtain ⟨-, p, hp, rfl⟩ := respond_of_next hn
    refine ⟨justified_respond h.justified (h.pending p (List.mem_of_getElem? hp)), hentries, ?_⟩
    intro q hq
    rw [pending_respond] at hq
    obtain ⟨payload, now', valid, hmem, heq⟩ := h.pending q (List.mem_of_mem_eraseIdx hq)
    exact ⟨payload, now', valid, hmono _ hmem, heq⟩

omit [DecidableEq S] in
/-- Only an answer that allows its request lets it through. -/
theorem letThrough_respond {p : Pending S} {body : Bytes} {now : UInt64}
    (hno : ¬ Answers lib body true) : (st.respond lib p body now).letThrough = st.letThrough := by
  rcases FilterState.respond_cases lib st p body now with
    ⟨-, heq⟩ | ⟨-, b, -, -, heq⟩ | ⟨-, b, root', hb, -, heq⟩ | ⟨-, -, heq⟩ <;> rw [heq]
  · rfl
  · rfl
  · cases b with
    | true => exact absurd hb hno
    | false => rfl
  · rfl

omit [DecidableEq S] in
theorem root_respond {p : Pending S} {body : Bytes} {now : UInt64}
    (hno : ∀ b, ¬ Answers lib body b) : (st.respond lib p body now).root = st.root := by
  rcases FilterState.respond_cases lib st p body now with
    ⟨-, heq⟩ | ⟨-, b, hb, -, -⟩ | ⟨-, b, root', hb, -, -⟩ | ⟨-, -, heq⟩
  · rw [heq]
  · exact absurd hb (hno b)
  · exact absurd hb (hno b)
  · rw [heq]

/-- A text that is no JSON decides nothing. -/
theorem not_answers_of_parse {body : Bytes} (h : lib.parse body = none) (b : Bool) :
    ¬ Answers lib body b := by
  rintro ⟨j, v, hj, -⟩
  rw [h] at hj
  cases hj

omit [DecidableEq S] in
/-- A call that a step logs is the call of its check. -/
theorem call_of_mem_log {s : S} {payload : Payload} {now : UInt64} {c : Root.Checked}
    {call : HttpCall} {r : WasmResult} {new : List (Event S)}
    (hlog : (st.afterCheck s payload now c).log = new ++ st.log) (hmem : .called s call r ∈ new) :
    c.call = some (call, r) := by
  rw [← List.append_cancel_right hlog, List.mem_append] at hmem
  rcases hmem with hmem | hmem
  · simp at hmem
  · obtain ⟨p, hp, heq⟩ := List.mem_map.1 hmem
    cases heq
    exact Option.mem_toList.1 hp

omit [DecidableEq S] in
/-- A check whose call fails lets nobody through and registers no callback. -/
theorem afterCheck_of_failed (st : FilterState S) (s : S) (payload : Payload) {now : UInt64}
    {c : Root.Checked} {call : HttpCall} {r : WasmResult} (hout : Root.CheckOutcome st.root now c)
    (hcall : c.call = some (call, r)) (hr : r ≠ .Ok) :
    (st.afterCheck s payload now c).letThrough = st.letThrough ∧
      (st.afterCheck s payload now c).pending = st.pending := by
  cases hout with
  | passed e _ hnone =>
    rw [hcall] at hnone
    cases hnone
  | denied code body _ hnone =>
    rw [hcall] at hnone
    cases hnone
  | asked call' _ hok =>
    rw [hcall] at hok
    cases hok
    exact absurd rfl hr
  | notAsked call' r' code body hstatus _ _ haction =>
    constructor
    · unfold FilterState.letThrough FilterState.afterCheck
      rw [hstatus, haction, hcall]
      rfl
    · unfold FilterState.afterCheck
      dsimp only
      rw [hcall]
      cases r with
      | Ok => exact absurd rfl hr
      | _ => rfl

variable (stdHash st) in
/-- **Without a decision of the server, nothing happens.** -/
theorem decisionsOnly (hempty : lib.parse [] = none) : DecisionsOnly lib stdHash st where
  refused i body now st' hn hno := by
    obtain ⟨-, p, -, rfl⟩ := respond_of_next hn
    exact letThrough_respond hno
  undecided i body now st' hn hno := by
    obtain ⟨-, p, -, rfl⟩ := respond_of_next hn
    exact root_respond hno
  failed i now st' hn := by
    obtain ⟨-, p, -, rfl⟩ := respond_of_next hn
    have hno := not_answers_of_parse hempty
    exact ⟨root_respond hno, letThrough_respond (hno true)⟩
  notMade s attributes now r st' call new hn hr hlog hmem := by
    obtain ⟨-, -, rfl⟩ := request_of_next hn
    unfold FilterState.request at hlog ⊢
    dsimp only at hlog ⊢
    cases hcheck : st.root.check lib stdHash attributes now r with
    | error fault =>
      -- nothing has been logged
      rw [hcheck] at hlog
      obtain rfl : [] = new := List.append_cancel_right hlog
      cases hmem
    | ok c =>
      rw [hcheck] at hlog
      have hcall := call_of_mem_log hlog hmem
      obtain ⟨-, -, hout⟩ := Root.check_cases hcheck
      obtain ⟨hpassed, hpending⟩ := afterCheck_of_failed
        { st with streams := Function.update st.streams s .alive } s attributes.payload hout
        hcall hr
      obtain ⟨c', hcheck', hroot⟩ := Root.check_root hcheck .Ok
      refine ⟨hpassed, hpending, ?_, Root.cache_of_call hcheck hcall⟩
      rw [hcheck']
      exact hroot.symm

/-- **Every run fails closed**: a request is let through only on the word of the policy server,
only its decisions get into the cache, and without one nothing changes. -/
theorem failsClosed {C : FilterState S → FilterLabel S → Prop} (hempty : lib.parse [] = none)
    (h : (filterMachine lib stdHash).Reaches C .start st) :
    FailsClosed lib stdHash st ∧
      (∀ l st', (filterMachine lib stdHash).next st l = some st' →
        OnlyDecisionsCached lib st l st') ∧ DecisionsOnly lib stdHash st := by
  refine ⟨?_, fun l st' hn => onlyDecisionsCached hn, decisionsOnly stdHash st hempty⟩
  exact h.invariant .start fun st l st' hst _ hn => hst.step hn

/-! ### Two runs -/

/-- A request for `/`. -/
def rootRequest : Attributes := ⟨none, none, some (bytes "GET"), some (bytes "/")⟩

def allowBody : Bytes := bytes "\x7b\"result\":true\x7d"

def denyBody : Bytes := bytes "\x7b\"result\":false\x7d"

/-- The JSON library on the texts of the runs below. -/
def sampleLibrary : JsonLibrary where
  parse text :=
    if text = allowBody then some (.object [(bytes "result", .boolean true)])
    else if text = denyBody then some (.object [(bytes "result", .boolean false)])
    else none
  dump _ := some (bytes ("\x7b\"input\":\x7b\"destination_workload\":\"\"," ++
    "\"request_method\":\"GET\",\"request_url_path\":\"/\",\"source_principal\":\"\"\x7d\x7d"))
  doubleToUint64 bits := bits
  simpleAtoiUint64 _ := none

/-- The server allows a request, and the next one with the same payload passes from the cache. -/
theorem failsClosed_cached : ∃ st : FilterState ℕ,
    (.checked 1 rootRequest.payload 0 300 10000000000 .Continue ∈ st.log) ∧
    FailsClosed sampleLibrary (fun _ => 0) st ∧
      (∀ l st', (filterMachine sampleLibrary fun _ => 0).next st l = some st' →
        OnlyDecisionsCached sampleLibrary st l st') ∧
      DecisionsOnly sampleLibrary (fun _ => 0) st := by
  have h : ((filterMachine sampleLibrary fun _ => 0).run (fun _ _ => True)
      (.start : FilterState ℕ)
      [.request 0 rootRequest 100 .Ok, .respond 0 allowBody 200,
       .request 1 rootRequest 300 .Ok]).isSome := by decide
  exact ⟨_, List.mem_cons_self .., failsClosed rfl (.of_isSome h)⟩

/-- **A denial is cached**: the answer `false` adds an entry. -/
theorem denial_cached : ¬ ∀ (lib : JsonLibrary) (stdHash : Bytes → UInt64)
    (st st' : FilterState ℕ) (i : ℕ) (body : Bytes) (now : UInt64),
    (filterMachine lib stdHash).Reaches (fun _ _ => True) .start st →
    (filterMachine lib stdHash).next st (.respond i body now) = some st' →
    ¬ Answers lib body true →
    ∀ k, st'.root.cache.resultCache k = st.root.cache.resultCache k := by
  intro h
  have hrun : ((filterMachine sampleLibrary fun _ => 0).run (fun _ _ => True)
      (.start : FilterState ℕ) [.request 0 rootRequest 100 .Ok]).isSome := by decide
  have hnext : ((filterMachine sampleLibrary fun _ => 0).next (Option.get _ hrun)
      (.respond 0 denyBody 200)).isSome := rfl
  have hdeny : Answers sampleLibrary denyBody false := ⟨_, _, rfl, rfl, rfl, .inl rfl⟩
  have hsame := h _ _ _ _ 0 denyBody 200 (.of_isSome hrun) (Option.some_get hnext).symm
    (fun hallow => Bool.noConfusion (hallow.inj hdeny)) 0
  have hnew : some (Entry.mk false 200) = none := hsame
  cases hnew

end OpenPolicyAgent

end WasmExtensions
