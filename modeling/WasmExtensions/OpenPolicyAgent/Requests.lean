import WasmExtensions.OpenPolicyAgent.FailClosed
import Mathlib.Data.List.Perm.Basic

/-!
# The requests of the policy filter

Every stream is checked once, when its request arrives, and a check asks the policy server at most
once.  The counters of the cache tell how many checks there were and how many of them asked.

* `Root.check_spec` : the steps of `check`, with everything that it sends.
* `requests_accounted` : **the counters, the calls and the callbacks agree**, and what is sent for a
  stream is the payload of its own request.
-/

namespace WasmExtensions

namespace OpenPolicyAgent

/-! ### One check -/

section

variable {lib : JsonLibrary} {stdHash : Bytes → UInt64}

namespace Root

variable {root root' : Root} {attributes : Attributes} {now : UInt64} {callResult : WasmResult}
  {payload : Payload}

/-- A look-up changes the cache and one of its counters. -/
theorem checkCache_frame {result : ResultCache.CheckResult}
    (h : root.checkCache stdHash payload now = some (result, root')) :
    root' =
      { root with
        cache := root'.cache
        cacheHits := root.cacheHits + if result.allowed.isSome then 1 else 0
        cacheMisses := root.cacheMisses + if result.allowed.isSome then 0 else 1 } := by
  obtain ⟨⟨result₁, cache⟩, -, h⟩ := Option.bind_eq_some_iff.1 h
  dsimp only at h
  split_ifs at h with hsome <;> cases h
  · rw [if_pos hsome, if_pos hsome]; rfl
  · rw [if_neg hsome, if_neg hsome]; rfl

/-- The steps of `check`: a hit decides on the spot, and a miss asks the server. -/
inductive CheckSteps (lib : JsonLibrary) (root : Root) (payload : Payload) (now : UInt64)
    (callResult : WasmResult) (c : Checked) : Prop
  | hit (e : Entry) : root.cache.resultCache c.hash = some e →
      now.toNat < e.timestamp.toNat + root.cache.validForNanosec.toNat → c.call = none →
      c.status = (if e.result then .Continue else .StopIteration) →
      c.action = (if e.result then none
        else some (.sendLocalResponse 403 (bytes "OPA policy check denied"))) →
      c.root = { root with cache := c.root.cache, cacheHits := root.cacheHits + 1 } →
      CheckSteps lib root payload now callResult c
  | miss (body : Bytes) : lib.dump payload.toJson = some body →
      c.call = some (root.policyCall body, callResult) → c.status = .StopIteration →
      c.action = (if callResult ≠ .Ok
        then some (.sendLocalResponse 500 (bytes "OPA policy check call failed")) else none) →
      c.root = { root with cache := c.root.cache, cacheMisses := root.cacheMisses + 1 } →
      CheckSteps lib root payload now callResult c

theorem check_spec {c : Checked} (h : root.check lib stdHash attributes now callResult = .ok c) :
    CheckSteps lib root attributes.payload now callResult c := by
  unfold check at h
  split at h
  · cases h
  · rename_i hash root' hcache
    obtain ⟨-, -, hhit⟩ := checkCache_cases hcache
    obtain ⟨e, he, hresult, hvalid⟩ := hhit true rfl
    cases h
    exact .hit e he hvalid rfl (by rw [hresult]; rfl) (by rw [hresult]; rfl)
      (checkCache_frame hcache)
  · rename_i hash root' hcache
    obtain ⟨-, -, hhit⟩ := checkCache_cases hcache
    obtain ⟨e, he, hresult, hvalid⟩ := hhit false rfl
    cases h
    exact .hit e he hvalid rfl (by rw [hresult]; rfl) (by rw [hresult]; rfl)
      (checkCache_frame hcache)
  · rename_i hash root' hcache
    have hframe := checkCache_frame hcache
    split at h
    · cases h
    · rename_i body hdump
      cases h
      refine .miss body hdump ?_ rfl rfl hframe
      -- the host and the cluster are not touched by the look-up
      rw [hframe]; rfl

end Root

end

/-! ### Counting events -/

variable {S : Type*}

/-- The stream that an event is about. -/
def Event.stream : Event S → S
  | .called s _ _ | .checked s _ _ _ _ _ | .answered s _ _ _ | .acted s _ _ => s

/-- A check of one of the streams `P`. -/
def Event.checks (P : S → Bool) : Event S → Bool
  | .checked s _ _ _ _ _ => P s
  | _ => false

/-- A call for one of the streams `P`. -/
def Event.calls (P : S → Bool) : Event S → Bool
  | .called s _ _ => P s
  | _ => false

/-- A call for one of the streams `P` that will be answered. -/
def Event.asks (P : S → Bool) : Event S → Bool
  | .called s _ r => P s && r = .Ok
  | _ => false

/-- An answer for one of the streams `P`. -/
def Event.answers (P : S → Bool) : Event S → Bool
  | .answered s _ _ _ => P s
  | _ => false

/-- What `check` logs. -/
def checkEvents (s : S) (payload : Payload) (now validForNanosec : UInt64) (c : Root.Checked) :
    List (Event S) :=
  .checked s payload c.hash now validForNanosec c.status ::
    (c.action.toList.map (.acted s s) ++ c.call.toList.map fun p => .called s p.1 p.2)

/-- What the callback logs: the answer, and what it does to its stream. -/
def respondEvents (p : Pending S) (body : Bytes) (now : UInt64) (action : Option Action) :
    List (Event S) :=
  action.toList.map (.acted p.stream p.stream) ++ [.answered p.stream p.payloadHash body now]

section

variable {s : S} {payload : Payload} {now validForNanosec : UInt64} {c : Root.Checked}
  {p : Pending S} {body : Bytes} {action : Option Action} (P : S → Bool)

theorem stream_of_mem_checkEvents {e : Event S}
    (h : e ∈ checkEvents s payload now validForNanosec c) : e.stream = s := by
  simp only [checkEvents, List.mem_cons, List.mem_append, List.mem_map] at h
  rcases h with rfl | ⟨_, -, rfl⟩ | ⟨_, -, rfl⟩ <;> rfl

theorem stream_of_mem_respondEvents {e : Event S} (h : e ∈ respondEvents p body now action) :
    e.stream = p.stream := by
  simp only [respondEvents, List.mem_append, List.mem_map, List.mem_singleton] at h
  rcases h with ⟨_, -, rfl⟩ | rfl <;> rfl

theorem checks_checkEvents (s : S) (payload : Payload) (now validForNanosec : UInt64)
    (c : Root.Checked) : (checkEvents s payload now validForNanosec c).countP
    (Event.checks P) = if P s then 1 else 0 := by
  cases hc : c.call <;> cases ha : c.action <;> cases hs : P s <;>
    simp [checkEvents, Event.checks, hc, ha, hs]

theorem calls_checkEvents (s : S) (payload : Payload) (now validForNanosec : UInt64)
    (c : Root.Checked) : (checkEvents s payload now validForNanosec c).countP
    (Event.calls P) = if P s then c.call.toList.length else 0 := by
  cases hc : c.call <;> cases ha : c.action <;> cases hs : P s <;>
    simp [checkEvents, Event.calls, hc, ha, hs]

theorem answers_checkEvents : (checkEvents s payload now validForNanosec c).countP
    (Event.answers P) = 0 := by
  cases hc : c.call <;> cases ha : c.action <;> simp [checkEvents, Event.answers, hc, ha]

theorem countP_respondEvents {f : Event S → Bool}
    (hf : ∀ a, f (.acted p.stream p.stream a) = false) :
    (respondEvents p body now action).countP f =
      if f (.answered p.stream p.payloadHash body now) then 1 else 0 := by
  cases action <;> simp [respondEvents, List.countP_cons, hf]

/-- A check that asks leaves a callback behind. -/
theorem waiting_afterCheck (st : FilterState S) (payload : Payload)
    (now validForNanosec : UInt64) :
    (checkEvents s payload now validForNanosec c).countP (Event.asks P) +
        st.pending.countP (fun p => P p.stream) =
      (st.afterCheck s payload now c).pending.countP fun p => P p.stream := by
  rcases hc : c.call with _ | ⟨call, r⟩
  · cases ha : c.action <;> simp [FilterState.afterCheck, checkEvents, Event.asks, hc, ha]
  · cases ha : c.action <;> cases r <;> cases hs : P s <;>
      simp [FilterState.afterCheck, checkEvents, Event.asks, hc, ha, hs, Nat.add_comm]

/-- The callback that runs was waiting. -/
theorem waiting_eraseIdx {pending : List (Pending S)} {i : ℕ} (hp : pending[i]? = some p) :
    (pending.eraseIdx i).countP (fun p => P p.stream) + (if P p.stream then 1 else 0) =
      pending.countP fun p => P p.stream := by
  obtain ⟨hi, rfl⟩ := List.getElem?_eq_some_iff.1 hp
  have hperm := (List.getElem_cons_eraseIdx_perm hi).countP_eq fun p => P p.stream
  rwa [List.countP_cons] at hperm

theorem afterCheck_log (st : FilterState S) :
    (st.afterCheck s payload now c).log =
      checkEvents s payload now st.root.cache.validForNanosec c ++ st.log := by
  simp [FilterState.afterCheck, checkEvents]

end

/-- An answer changes the cache, and logs what it is and what it does. -/
theorem respond_spec (lib : JsonLibrary) (st : FilterState S) (p : Pending S) (body : Bytes)
    (now : UInt64) :
    ∃ (cache : ResultCache) (fault : Option Fault) (action : Option Action),
      st.respond lib p body now =
        { st with
          root := { st.root with cache := cache }
          fault := fault
          log := respondEvents p body now action ++ st.log } := by
  rcases FilterState.respond_cases lib st p body now with
    ⟨-, heq⟩ | ⟨-, b, -, -, heq⟩ | ⟨-, b, root', -, hadd, heq⟩ | ⟨-, -, heq⟩
  · exact ⟨st.root.cache, _, none, heq⟩
  · exact ⟨st.root.cache, _, none, heq⟩
  · obtain ⟨cache, -, h⟩ := Option.bind_eq_some_iff.1 hadd
    cases h
    exact ⟨cache, st.fault, some _, heq⟩
  · exact ⟨st.root.cache, st.fault, some _, heq⟩

/-! ### Runs -/

variable [DecidableEq S] {lib : JsonLibrary} {stdHash : Bytes → UInt64} {st st' : FilterState S}

/-- The log tells what the counters and the outstanding calls are. -/
structure Accounted (lib : JsonLibrary) (st : FilterState S) : Prop where
  checks : st.root.cacheHits + st.root.cacheMisses = st.log.countP (Event.checks fun _ => true)
  calls : st.root.cacheMisses = st.log.countP (Event.calls fun _ => true)
  waiting : ∀ P : S → Bool, st.log.countP (Event.asks P) =
    st.pending.countP (fun p => P p.stream) + st.log.countP (Event.answers P)
  /-- A new stream is not mentioned. -/
  absent : ∀ e ∈ st.log, st.streams e.stream ≠ .absent
  once : ∀ s, st.log.countP (Event.checks (· = s)) ≤ 1
  asked : ∀ s, st.log.countP (Event.calls (· = s)) ≤ st.log.countP (Event.checks (· = s))
  /-- What is sent for a stream is its own payload. -/
  body : ∀ s payload hash now validForNanosec status call r,
    .checked s payload hash now validForNanosec status ∈ st.log → .called s call r ∈ st.log →
      lib.dump payload.toJson = some call.body

theorem accounted_start : Accounted lib (.start : FilterState S) where
  checks := rfl
  calls := rfl
  waiting _ := rfl
  absent _ h := nomatch h
  once _ := Nat.zero_le _
  asked _ := Nat.zero_le _
  body _ _ _ _ _ _ _ _ h := nomatch h

theorem cacheHits_with (root : Root) (cache : ResultCache) :
    { root with cache := cache }.cacheHits = root.cacheHits :=
  rfl

theorem cacheMisses_with (root : Root) (cache : ResultCache) :
    { root with cache := cache }.cacheMisses = root.cacheMisses :=
  rfl

/-- The configuration is not what is counted. -/
theorem onConfigure_counters (lib : JsonLibrary) (root : Root) (configuration : Bytes) :
    (root.onConfigure lib configuration).2.cacheHits = root.cacheHits ∧
      (root.onConfigure lib configuration).2.cacheMisses = root.cacheMisses := by
  have hparse : (root.parseConfiguration lib configuration).2.cacheHits = root.cacheHits ∧
      (root.parseConfiguration lib configuration).2.cacheMisses = root.cacheMisses := by
    unfold Root.parseConfiguration
    split
    · exact ⟨rfl, rfl⟩
    · split
      · split
        · split <;> exact ⟨rfl, rfl⟩
        · exact ⟨rfl, rfl⟩
      · exact ⟨rfl, rfl⟩
  unfold Root.onConfigure
  cases hresult : root.parseConfiguration lib configuration with
  | mk ok root' =>
    rw [hresult] at hparse
    obtain ⟨hhits, hmisses⟩ := hparse
    cases ok with
    | false => exact ⟨hhits, hmisses⟩
    | true => exact ⟨(cacheHits_with root' _).trans hhits, (cacheMisses_with root' _).trans hmisses⟩

omit [DecidableEq S] in
/-- What a check of a new stream leaves behind. -/
theorem body_afterCheck (st : FilterState S) {s : S} {payload : Payload} {now : UInt64}
    {callResult : WasmResult} {c : Root.Checked} (hnew : ∀ e ∈ st.log, e.stream ≠ s)
    (hbody : ∀ s payload hash now validForNanosec status call r,
      .checked s payload hash now validForNanosec status ∈ st.log → .called s call r ∈ st.log →
        lib.dump payload.toJson = some call.body)
    (hspec : Root.CheckSteps lib st.root payload now callResult c) {u : S} {payload' : Payload}
    {hash t valid : UInt64} {status : FilterHeadersStatus} {call : HttpCall} {r : WasmResult}
    (hchecked : .checked u payload' hash t valid status ∈ (st.afterCheck s payload now c).log)
    (hcalled : .called u call r ∈ (st.afterCheck s payload now c).log) :
    lib.dump payload'.toJson = some call.body := by
  rw [afterCheck_log, List.mem_append] at hchecked hcalled
  rcases hchecked with hchecked | hchecked <;> rcases hcalled with hcalled | hcalled
  · -- both are of this check
    cases hspec with
    | hit e he hvalid hcall hstatus haction hroot =>
      cases e.result <;> simp [checkEvents, hcall, haction] at hcalled
    | miss body hdump hcall hstatus haction hroot =>
      have hpayload : payload' = payload := by
        simp only [checkEvents, List.mem_cons, Event.checked.injEq, List.mem_append, List.mem_map,
          reduceCtorEq, and_false, exists_false, or_false] at hchecked
        exact hchecked.2.1
      have hbody : call = st.root.policyCall body := by
        simp only [checkEvents, hcall, List.mem_cons, reduceCtorEq, List.mem_append, List.mem_map,
          and_false, exists_false, false_or, Option.toList_some, List.not_mem_nil, or_false,
          exists_eq_left, Event.called.injEq] at hcalled
        exact hcalled.2.1.symm
      rw [hpayload, hbody, hdump]; rfl
  · have hu : u = s := stream_of_mem_checkEvents hchecked
    exact absurd hu (hnew _ hcalled)
  · have hu : u = s := stream_of_mem_checkEvents hcalled
    exact absurd hu (hnew _ hchecked)
  · exact hbody _ _ _ _ _ _ _ _ hchecked hcalled

/-- A check keeps the accounts. -/
theorem Accounted.check {s : S} {payload : Payload} {now : UInt64} {callResult : WasmResult}
    {c : Root.Checked} (h : Accounted lib st) (hs : st.streams s = .absent)
    (hspec : Root.CheckSteps lib st.root payload now callResult c) :
    Accounted lib (FilterState.afterCheck
      { st with streams := Function.update st.streams s .alive } s payload now c) := by
  have hnew : ∀ e ∈ st.log, e.stream ≠ s := fun e he heq => h.absent e he (heq ▸ hs)
  have hnone {f : Event S → Bool} (hf : ∀ e, f e = true → e.stream = s) :
      st.log.countP f = 0 :=
    List.countP_eq_zero.2 fun e he hfe => hnew e he (hf e hfe)
  have hchecks (P : S → Bool) :=
    checks_checkEvents P s payload now st.root.cache.validForNanosec c
  have hcalls (P : S → Bool) :=
    calls_checkEvents P s payload now st.root.cache.validForNanosec c
  have hroot : c.root.cacheHits + c.root.cacheMisses = st.root.cacheHits + st.root.cacheMisses + 1 ∧
      c.root.cacheMisses = st.root.cacheMisses + c.call.toList.length ∧
      c.call.toList.length ≤ 1 := by
    cases hspec with
    | hit e he hvalid hcall hstatus haction hroot =>
      rw [hroot, hcall]
      exact ⟨by dsimp only; omega, rfl, by simp⟩
    | miss body hdump hcall hstatus haction hroot =>
      rw [hroot, hcall]
      exact ⟨by dsimp only; omega, rfl, by simp⟩
  refine ⟨?_, ?_, fun P => ?_, fun e he => ?_, fun u => ?_, fun u => ?_, ?_⟩
  · rw [afterCheck_log, List.countP_append, hchecks, ← h.checks]
    exact hroot.1.trans (by simp [Nat.add_comm])
  · rw [afterCheck_log, List.countP_append, hcalls, ← h.calls]
    exact hroot.2.1.trans (by simp [Nat.add_comm])
  · rw [← waiting_afterCheck P _ payload now st.root.cache.validForNanosec, afterCheck_log,
      List.countP_append, List.countP_append, answers_checkEvents, Nat.zero_add, Nat.add_assoc,
      ← h.waiting P]
  · rw [afterCheck_log, List.mem_append] at he
    show Function.update st.streams s .alive e.stream ≠ .absent
    rcases he with he | he
    · rw [stream_of_mem_checkEvents he, Function.update_self]
      exact StreamStatus.noConfusion
    · rw [Function.update_of_ne (hnew e he)]
      exact h.absent e he
  · rw [afterCheck_log, List.countP_append, hchecks]
    by_cases hu : s = u
    · subst hu
      rw [hnone fun e he => ?_]
      · simp
      · cases e <;> simp_all [Event.checks, Event.stream]
    · simpa [hu] using h.once u
  · rw [afterCheck_log, List.countP_append, List.countP_append, hchecks, hcalls]
    by_cases hu : s = u
    · subst hu
      rw [hnone fun e he => ?_]
      · have hle := hroot.2.2
        simp only [decide_true, if_true]
        omega
      · cases e <;> simp_all [Event.calls, Event.stream]
    · simpa [hu] using h.asked u
  · exact fun _ _ _ _ _ _ _ _ => body_afterCheck
      { st with streams := Function.update st.streams s .alive } hnew h.body hspec

/-- An answer keeps the accounts. -/
theorem Accounted.respond {i : ℕ} {p : Pending S} {body : Bytes} {now : UInt64}
    (h : Accounted lib st) (hp : st.pending[i]? = some p)
    (hstream : st.streams p.stream ≠ .absent) :
    Accounted lib (FilterState.respond lib { st with pending := st.pending.eraseIdx i } p body
      now) := by
  obtain ⟨cache, fault, action, heq⟩ :=
    respond_spec lib { st with pending := st.pending.eraseIdx i } p body now
  have hcount (f : Event S → Bool) (hf : ∀ a, f (.acted p.stream p.stream a) = false)
      (hf' : f (.answered p.stream p.payloadHash body now) = false) :
      (respondEvents p body now action ++ st.log).countP f = st.log.countP f := by
    rw [List.countP_append, countP_respondEvents hf, hf']
    simp
  rw [heq]
  refine ⟨?_, ?_, fun P => ?_, fun e he => ?_, fun u => ?_, fun u => ?_, ?_⟩
  · rw [hcount _ (fun _ => rfl) rfl]
    exact h.checks
  · rw [hcount _ (fun _ => rfl) rfl]
    exact h.calls
  · have hwaiting := waiting_eraseIdx P hp
    rw [hcount _ (fun _ => rfl) rfl, List.countP_append, countP_respondEvents fun _ => rfl,
      h.waiting P, ← hwaiting, Nat.add_assoc]
    rfl
  · rcases List.mem_append.1 he with he | he
    · rw [stream_of_mem_respondEvents he]
      exact hstream
    · exact h.absent e he
  · rw [hcount _ (fun _ => rfl) rfl]
    exact h.once u
  · rw [hcount _ (fun _ => rfl) rfl, hcount _ (fun _ => rfl) rfl]
    exact h.asked u
  · intro u payload hash t valid status call r hchecked hcalled
    have hold {e : Event S} (he : e ∈ respondEvents p body now action ++ st.log)
        (hne : ∀ a, e ≠ .acted p.stream p.stream a)
        (hne' : e ≠ .answered p.stream p.payloadHash body now) : e ∈ st.log := by
      rcases List.mem_append.1 he with he | he
      · simp only [respondEvents, List.mem_append, List.mem_map, List.mem_singleton] at he
        rcases he with ⟨a, -, rfl⟩ | rfl
        · exact absurd rfl (hne a)
        · exact absurd rfl hne'
      · exact he
    exact h.body _ _ _ _ _ _ _ _ (hold hchecked (fun _ => nofun) nofun)
      (hold hcalled (fun _ => nofun) nofun)

/-- Somebody waits for an answer only after a call. -/
theorem Accounted.called {p : Pending S} (h : Accounted lib st) (hp : p ∈ st.pending) :
    ∃ call, .called p.stream call .Ok ∈ st.log := by
  have hwaiting := h.waiting (· = p.stream)
  have hpos : 0 < st.pending.countP fun q => decide (q.stream = p.stream) :=
    List.countP_pos_iff.2 ⟨p, hp, by simp⟩
  obtain ⟨e, he, hasks⟩ := List.countP_pos_iff.1
    (show 0 < st.log.countP (Event.asks (· = p.stream)) by omega)
  cases e with
  | called s call r =>
    simp only [Event.asks, Bool.and_eq_true, decide_eq_true_eq] at hasks
    obtain ⟨rfl, rfl⟩ := hasks
    exact ⟨call, he⟩
  | _ => cases hasks

theorem Accounted.step {l : FilterLabel S} (h : Accounted lib st)
    (hn : (filterMachine lib stdHash).next st l = some st') : Accounted lib st' := by
  cases l with
  | configure configuration =>
    rw [configure_of_next hn]
    obtain ⟨hhits, hmisses⟩ := onConfigure_counters lib st.root configuration
    refine ⟨?_, ?_, h.waiting, h.absent, h.once, h.asked, h.body⟩
    · rw [hhits, hmisses]
      exact h.checks
    · rw [hmisses]
      exact h.calls
  | request s attributes now callResult =>
    obtain ⟨-, hs, rfl⟩ := request_of_next hn
    unfold FilterState.request
    dsimp only
    split
    · refine ⟨h.checks, h.calls, h.waiting, fun e he => ?_, h.once, h.asked, h.body⟩
      show Function.update st.streams s .alive e.stream ≠ .absent
      by_cases hes : e.stream = s
      · rw [hes, Function.update_self]
        exact StreamStatus.noConfusion
      · rw [Function.update_of_ne hes]
        exact h.absent e he
    · rename_i c hcheck
      exact h.check hs (Root.check_spec hcheck)
  | delete s =>
    obtain ⟨-, rfl⟩ := delete_of_next hn
    refine ⟨h.checks, h.calls, h.waiting, fun e he => ?_, h.once, h.asked, h.body⟩
    show Function.update st.streams s .deleted e.stream ≠ .absent
    by_cases hes : e.stream = s
    · rw [hes, Function.update_self]
      exact StreamStatus.noConfusion
    · rw [Function.update_of_ne hes]
      exact h.absent e he
  | respond i body now =>
    obtain ⟨-, p, hp, rfl⟩ := respond_of_next hn
    obtain ⟨call, hcall⟩ := h.called (List.mem_of_getElem? hp)
    exact h.respond hp (h.absent _ hcall)

theorem accounted_of_reaches {C : FilterState S → FilterLabel S → Prop}
    (h : (filterMachine lib stdHash).Reaches C .start st) : Accounted lib st :=
  h.invariant (I := Accounted lib) accounted_start fun _ _ _ hst _ hn => hst.step hn

/-- **The counters, the calls and the callbacks agree**: every check is a hit or a miss, every miss
is a call, every call that was sent waits for its answer or had it, and no stream is checked twice
or is asked about with another payload than its own. -/
theorem requests_accounted {C : FilterState S → FilterLabel S → Prop}
    (h : (filterMachine lib stdHash).Reaches C .start st) :
    st.root.cacheHits + st.root.cacheMisses = st.log.countP (Event.checks fun _ => true) ∧
    st.root.cacheMisses = st.log.countP (Event.calls fun _ => true) ∧
    (∀ P : S → Bool, st.log.countP (Event.asks P) =
      st.pending.countP (fun p => P p.stream) + st.log.countP (Event.answers P)) ∧
    ∀ s, st.log.countP (Event.checks (· = s)) ≤ 1 ∧
      st.log.countP (Event.calls (· = s)) ≤ st.log.countP (Event.checks (· = s)) ∧
      ∀ payload hash now validForNanosec status call r,
        .checked s payload hash now validForNanosec status ∈ st.log → .called s call r ∈ st.log →
          lib.dump payload.toJson = some call.body := by
  have hst := accounted_of_reaches h
  exact ⟨hst.checks, hst.calls, hst.waiting, fun s => ⟨hst.once s, hst.asked s, hst.body s⟩⟩

/-- Two requests: the first asks the server, the second finds the decision in the cache. -/
theorem requests_accounted_cached : ∃ st : FilterState ℕ,
    st.root.cacheHits = 1 ∧ st.root.cacheMisses = 1 ∧
      st.root.cacheHits + st.root.cacheMisses = st.log.countP (Event.checks fun _ => true) := by
  have h : ((filterMachine sampleLibrary fun _ => 0).run (fun _ _ => True)
      (.start : FilterState ℕ)
      [.request 0 rootRequest 100 .Ok, .respond 0 allowBody 200,
       .request 1 rootRequest 300 .Ok]).isSome := by decide
  exact ⟨_, rfl, rfl, (requests_accounted (.of_isSome h)).1⟩

end OpenPolicyAgent

end WasmExtensions
