import WasmExtensions.OpenPolicyAgent.CacheInvariant
import WasmExtensions.OpenPolicyAgent.FailClosed

/-!
# Every paused stream is resolved once

A stream that `check` has stopped waits for a callback, or it has been answered: exactly one of
the two, and exactly once (`Resolved`).  The callback belongs to the root context and outlives its
stream; it uses the result of `getContext` without looking whether the stream is still there.

* `CallbackSafe` : the callback that runs finds its stream, and the cache knows where the hash is.
* `resolved_iff_callbackSafe` : **a run resolves every paused stream once exactly if all its
  callbacks are safe.**
* `late_callback` : an answer that arrives after its stream was deleted.
-/

namespace WasmExtensions

namespace OpenPolicyAgent

variable {S : Type*} [DecidableEq S]

/-- The stream `s` was stopped. -/
def Event.stops (s : S) : Event S → Bool
  | .checked s' _ _ _ _ .StopIteration => s' = s
  | _ => false

/-- The stream `s` was continued or answered locally. -/
def Event.resolves (s : S) : Event S → Bool
  | .acted _ s' _ => s' = s
  | _ => false

/-- The number of outstanding calls of a stream. -/
def FilterState.outstanding (st : FilterState S) (s : S) : ℕ :=
  st.pending.countP fun p => p.stream = s

/-- How often a stream was continued or answered locally. -/
def FilterState.resolutions (st : FilterState S) (s : S) : ℕ := st.log.countP (Event.resolves s)

/-- How often `check` has stopped a stream. -/
def FilterState.stops (st : FilterState S) (s : S) : ℕ := st.log.countP (Event.stops s)

/-- No null pointer was used, nobody acted on another stream than its own, and every stopped stream
that is alive either waits for one callback or was resolved once. -/
structure Resolved (st : FilterState S) : Prop where
  not_null : st.fault ≠ some .nullContext
  own : ∀ cause effective action, .acted cause effective action ∈ st.log → cause = effective
  once : ∀ s, st.streams s = .alive → 0 < st.stops s → st.outstanding s + st.resolutions s = 1

/-- The stream of a callback that runs has not been deleted; and if the callback has a decision for
the cache, the position that the cache has noted for its hash, if any, is one of the list. -/
def CallbackSafe (lib : JsonLibrary) (st : FilterState S) : FilterLabel S → Prop
  | .respond i body _ => ∀ p, st.pending[i]? = some p → st.streams p.stream = .alive ∧
    ((∃ b, Answers lib body b) → ∀ it, st.root.cache.pos p.payloadHash = some it →
      ∃ hash, st.root.cache.recent.Live it hash)
  | _ => True

/-! ### When the cache takes a decision -/

/-- A new decision is undefined behaviour exactly if the noted position of its hash is dangling. -/
theorem addCache_eq_none_iff {root : Root} {hash now : UInt64} {b : Bool} :
    root.addCache hash b now = none ↔
      ∃ it, root.cache.pos hash = some it ∧ ¬ ∃ a, root.cache.recent.Live it a := by
  have hmake : root.addCache hash b now = none ↔ root.cache.makeRoom hash = none := by
    cases h : root.cache.makeRoom hash <;>
      simp [Root.addCache, ResultCache.add, ResultCache.use, h]
  rw [hmake]
  unfold ResultCache.makeRoom
  cases hpos : root.cache.pos hash with
  | some it =>
    cases herase : root.cache.recent.erase it with
    | none =>
      refine iff_of_true (by simp [herase]) ⟨it, rfl, fun hlive => ?_⟩
      obtain ⟨recent, h⟩ := LinkedList.exists_erase_iff.2 hlive
      rw [herase] at h
      cases h
    | some recent =>
      refine iff_of_false (by simp [herase]) ?_
      rintro ⟨it', hit, hdangling⟩
      cases hit
      exact hdangling (LinkedList.exists_erase_iff.1 ⟨recent, herase⟩)
  | none =>
    refine iff_of_false ?_ (by simp)
    dsimp only
    split_ifs with hfull
    · have hne : root.cache.recent.values ≠ [] := by
        intro hnil
        rw [LinkedList.size_eq, hnil] at hfull
        exact absurd hfull (by decide)
      obtain ⟨recent, hpop⟩ := LinkedList.exists_popBack hne
      obtain ⟨back, hback, -⟩ := LinkedList.popBack_eq hpop
      simp [hback, hpop]
    · simp

/-! ### The invariant of the safe runs -/

/-- Every stopped stream waits for one callback or was resolved once, and was stopped once. -/
structure Settled (st : FilterState S) : Prop where
  not_null : st.fault ≠ some .nullContext
  own : ∀ cause effective action, .acted cause effective action ∈ st.log → cause = effective
  balance : ∀ s, st.outstanding s + st.resolutions s = st.stops s
  stops_le : ∀ s, st.stops s ≤ 1
  absent : ∀ s, st.streams s = .absent → st.stops s = 0

variable {lib : JsonLibrary} {stdHash : Bytes → UInt64} {st st' : FilterState S}

theorem Settled.resolved (h : Settled st) : Resolved st where
  not_null := h.not_null
  own := h.own
  once s _ hs := by
    have hle := h.stops_le s
    rw [h.balance s]
    omega

theorem settled_start : Settled (.start : FilterState S) where
  not_null := by simp [FilterState.start]
  own := by simp [FilterState.start]
  balance s := rfl
  stops_le s := Nat.zero_le _
  absent s _ := rfl

/-- How many callbacks `check` has asked for. -/
def Root.Checked.asks (c : Root.Checked) : ℕ :=
  match c.call with
  | some (_, .Ok) => 1
  | _ => 0

/-- `check` makes one call or resolves the stream when it stops it, and neither otherwise. -/
theorem Root.CheckOutcome.balance {root : Root} {now : UInt64} {c : Root.Checked}
    (h : Root.CheckOutcome root now c) :
    c.asks + c.action.toList.length = if c.status = .StopIteration then 1 else 0 := by
  cases h with
  | passed e hstatus hcall haction => simp [Root.Checked.asks, hstatus, hcall, haction]
  | denied code body hstatus hcall haction => simp [Root.Checked.asks, hstatus, hcall, haction]
  | asked call hstatus hcall haction => simp [Root.Checked.asks, hstatus, hcall, haction]
  | notAsked call r code body hstatus hcall hr haction =>
    simp only [Root.Checked.asks, hstatus, hcall, haction]
    cases r <;> first | exact absurd rfl hr | rfl

section

variable {s : S} {payload : Payload} {now : UInt64} {c : Root.Checked}

theorem stops_afterCheck (u : S) : (st.afterCheck s payload now c).stops u =
    st.stops u + if s = u then (if c.status = .StopIteration then 1 else 0) else 0 := by
  have haction : (c.action.toList.map (Event.acted s s)).countP (Event.stops u) = 0 := by
    rw [List.countP_map]
    exact List.countP_eq_zero.2 fun _ _ => by simp [Event.stops]
  have hcall : (c.call.toList.map fun p => Event.called s p.1 p.2).countP (Event.stops u) = 0 := by
    rw [List.countP_map]
    exact List.countP_eq_zero.2 fun _ _ => by simp [Event.stops]
  simp only [FilterState.stops, FilterState.afterCheck, List.cons_append, List.countP_cons,
    List.countP_append, haction, hcall, Nat.zero_add]
  cases c.status <;> by_cases hu : s = u <;> simp [Event.stops, hu]

theorem resolutions_afterCheck (u : S) : (st.afterCheck s payload now c).resolutions u =
    st.resolutions u + if s = u then c.action.toList.length else 0 := by
  have haction : (c.action.toList.map (Event.acted s s)).countP (Event.resolves u) =
      if s = u then c.action.toList.length else 0 := by
    cases c.action <;> by_cases hu : s = u <;> simp [Event.resolves, hu]
  have hcall :
      (c.call.toList.map fun p => Event.called s p.1 p.2).countP (Event.resolves u) = 0 := by
    rw [List.countP_map]
    exact List.countP_eq_zero.2 fun _ _ => by simp [Event.resolves]
  simp only [FilterState.resolutions, FilterState.afterCheck, List.cons_append, List.countP_cons,
    List.countP_append, haction, hcall, Event.resolves, Bool.false_eq_true, if_false]
  omega

theorem outstanding_afterCheck (u : S) : (st.afterCheck s payload now c).outstanding u =
    st.outstanding u + if s = u then c.asks else 0 := by
  unfold FilterState.outstanding FilterState.afterCheck Root.Checked.asks
  dsimp only
  rcases c.call with _ | ⟨call, r⟩
  · simp
  · cases r <;> by_cases hu : s = u <;> simp [hu]

/-- `check` stops a stream at most once, and then it makes one call or resolves the stream. -/
theorem Settled.check (h : Settled st) (halive : st.streams s = .alive) (hs : st.stops s = 0)
    (hout : Root.CheckOutcome st.root now c) : Settled (st.afterCheck s payload now c) := by
  have hbalance := hout.balance
  refine ⟨h.not_null, fun cause effective action hmem => ?_, fun u => ?_, fun u => ?_,
    fun u hu => ?_⟩
  · simp only [FilterState.afterCheck, List.cons_append, List.mem_cons, reduceCtorEq, false_or,
      List.mem_append, List.mem_map, Event.acted.injEq, and_false, exists_false, or_false] at hmem
    rcases hmem with ⟨_, _, rfl, rfl, _⟩ | hmem
    · rfl
    · exact h.own _ _ _ hmem
  · rw [outstanding_afterCheck, resolutions_afterCheck, stops_afterCheck, ← h.balance u,
      ← hbalance]
    split_ifs <;> omega
  · rw [stops_afterCheck]
    by_cases hu : s = u
    · rw [← hu, hs, if_pos rfl]
      split_ifs <;> omega
    · rw [if_neg hu]
      exact h.stops_le u
  · rw [stops_afterCheck]
    have hne : s ≠ u := by
      rintro rfl
      rw [FilterState.afterCheck, halive] at hu
      cases hu
    rw [if_neg hne]
    exact h.absent u hu

end

/-- The callback that runs uses up its call. -/
theorem outstanding_eraseIdx {i : ℕ} {p : Pending S} (hp : st.pending[i]? = some p) (u : S) :
    FilterState.outstanding { st with pending := st.pending.eraseIdx i } u +
      (if p.stream = u then 1 else 0) = st.outstanding u := by
  obtain ⟨hi, rfl⟩ := List.getElem?_eq_some_iff.1 hp
  have hperm := (List.getElem_cons_eraseIdx_perm hi).countP_eq fun p => decide (p.stream = u)
  rw [List.countP_cons] at hperm
  simpa [FilterState.outstanding] using hperm

/-- A callback whose stream and cache position are there resolves its stream. -/
theorem Settled.respond {i : ℕ} {p : Pending S} {body : Bytes} {now : UInt64} (h : Settled st)
    (hp : st.pending[i]? = some p)
    (hC : CallbackSafe lib st (.respond i body now)) :
    Settled ({ st with pending := st.pending.eraseIdx i }.respond lib p body now) := by
  obtain ⟨halive, hsafe⟩ := hC p hp
  -- The stream is resolved, so the call that it waited for is used up.
  have hacted {root : Root} {action : Action} : Settled { st with
      root := root
      pending := st.pending.eraseIdx i
      log := .acted p.stream p.stream action ::
        .answered p.stream p.payloadHash body now :: st.log } := by
    refine ⟨h.not_null, fun cause effective a hmem => ?_, fun u => ?_, fun u => ?_, fun u hu => ?_⟩
    · simp only [List.mem_cons, reduceCtorEq, false_or, Event.acted.injEq] at hmem
      rcases hmem with ⟨rfl, rfl, _⟩ | hmem
      · rfl
      · exact h.own _ _ _ hmem
    · have hout := outstanding_eraseIdx hp u
      have hbal := h.balance u
      simp only [FilterState.outstanding, FilterState.resolutions, FilterState.stops,
        List.countP_cons, Event.stops, Event.resolves, decide_eq_true_eq, Bool.false_eq_true,
        if_false, Nat.add_zero] at hout hbal ⊢
      omega
    · exact h.stops_le u
    · exact h.absent u hu
  rcases FilterState.respond_cases lib { st with pending := st.pending.eraseIdx i } p body now with
    ⟨hdead, -⟩ | ⟨-, b, hb, hnone, -⟩ | ⟨-, b, root', -, -, heq⟩ | ⟨-, -, heq⟩
  · exact absurd halive hdead
  · obtain ⟨it, hpos, hdangling⟩ := addCache_eq_none_iff.1 hnone
    exact absurd (hsafe ⟨b, hb⟩ it hpos) hdangling
  · rw [heq]
    exact hacted
  · rw [heq]
    exact hacted

/-- `check` runs on behalf of a stream that is there. -/
theorem check_ne_nullContext {root : Root} {attributes : Attributes} {now : UInt64}
    {callResult : WasmResult} {fault : Fault}
    (h : root.check lib stdHash attributes now callResult = .error fault) :
    fault ≠ .nullContext := by
  rintro rfl
  unfold Root.check at h
  split at h <;> try cases h
  split at h <;> cases h

theorem Settled.step {l : FilterLabel S} (h : Settled st) (hC : CallbackSafe lib st l)
    (hn : (filterMachine lib stdHash).next st l = some st') : Settled st' := by
  cases l with
  | configure configuration =>
    rw [configure_of_next hn]
    exact ⟨h.not_null, h.own, h.balance, h.stops_le, h.absent⟩
  | request s attributes now callResult =>
    obtain ⟨-, habsent, rfl⟩ := request_of_next hn
    have h' : Settled { st with streams := Function.update st.streams s .alive } := by
      refine ⟨h.not_null, h.own, h.balance, h.stops_le, fun u hu => ?_⟩
      by_cases hus : u = s
      · rw [hus]
        exact h.absent s habsent
      · exact h.absent u (by simpa [Function.update_of_ne hus] using hu)
    unfold FilterState.request
    dsimp only
    split
    · rename_i fault hcheck
      exact ⟨fun hnull => check_ne_nullContext hcheck (Option.some.inj hnull), h'.own, h'.balance,
        h'.stops_le, h'.absent⟩
    · rename_i c hcheck
      exact h'.check (Function.update_self ..) (h.absent s habsent) (Root.check_cases hcheck).2.2
  | delete s =>
    obtain ⟨-, rfl⟩ := delete_of_next hn
    refine ⟨h.not_null, h.own, h.balance, h.stops_le, fun u hu => ?_⟩
    by_cases hus : u = s
    · simp [hus] at hu
    · exact h.absent u (by simpa [Function.update_of_ne hus] using hu)
  | respond i body now =>
    obtain ⟨-, p, hp, rfl⟩ := respond_of_next hn
    exact h.respond hp hC

/-- A callback that is not safe ends the run with a stream that is not resolved, or with a null
pointer. -/
theorem Settled.not_resolved_of_not_safe {l : FilterLabel S} (h : Settled st)
    (hsound : FailsClosed lib stdHash st) (hC : ¬ CallbackSafe lib st l)
    (hn : (filterMachine lib stdHash).next st l = some st') :
    ¬ Resolved st' ∧ st'.fault ≠ none := by
  cases l with
  | configure | request | delete => exact absurd trivial hC
  | respond i body now =>
    obtain ⟨-, p, hp, rfl⟩ := respond_of_next hn
    -- On a live stream only the second half of the condition can have failed.
    have hp' : st.streams p.stream = .alive → (∃ b, Answers lib body b) ∧ ∃ it,
        st.root.cache.pos p.payloadHash = some it ∧ ¬ ∃ a, st.root.cache.recent.Live it a := by
      intro halive
      by_contra hcon
      refine hC fun q hq => ?_
      obtain rfl : p = q := Option.some.inj (hp.symm.trans hq)
      refine ⟨halive, fun hb it hpos => ?_⟩
      by_contra hdangling
      exact hcon ⟨hb, it, hpos, hdangling⟩
    rcases FilterState.respond_cases lib { st with pending := st.pending.eraseIdx i } p body now
      with ⟨-, heq⟩ | ⟨halive, b, -, -, heq⟩ | ⟨halive, b, root', hb, hadd, -⟩ | ⟨halive, hno, -⟩
    · rw [heq]
      exact ⟨fun hres => hres.not_null rfl, by simp⟩
    · rw [heq]
      refine ⟨fun hres => ?_, by simp⟩
      -- the call is used up and nothing was sent
      obtain ⟨payload, now', valid, hstop, -⟩ := hsound.pending p (List.mem_of_getElem? hp)
      have hpos : 0 < st.stops p.stream :=
        List.countP_pos_iff.2 ⟨_, hstop, by simp [Event.stops]⟩
      have honce := hres.once p.stream halive hpos
      have hout := outstanding_eraseIdx hp p.stream
      have hbal := h.balance p.stream
      have hle := h.stops_le p.stream
      rw [if_pos rfl] at hout
      simp only [FilterState.outstanding, FilterState.resolutions, List.countP_cons,
        Event.resolves, Bool.false_eq_true, if_false, Nat.add_zero] at honce hout hbal
      omega
    · obtain ⟨-, it, hpos, hdangling⟩ := hp' halive
      have hnone : st.root.addCache p.payloadHash b now = none :=
        addCache_eq_none_iff.2 ⟨it, hpos, hdangling⟩
      exact absurd (hadd.symm.trans hnone) (by simp)
    · obtain ⟨⟨b, hb⟩, -⟩ := hp' halive
      exact absurd hb (hno b)

/-- The run ends at a fault. -/
theorem next_eq_none_of_fault {l : FilterLabel S} (h : st.fault ≠ none) :
    (filterMachine lib stdHash).next st l = none :=
  if_pos h

/-- **A run resolves every paused stream exactly once, and uses no null pointer, exactly if all its
callbacks find their stream and a sound position in the cache.** -/
theorem resolved_iff_callbackSafe {ls : List (FilterLabel S)}
    (h : (filterMachine lib stdHash).run (fun _ _ => True) .start ls = some st) :
    Resolved st ↔ (filterMachine lib stdHash).Along (CallbackSafe lib) .start ls := by
  have hsettled := settled_start (S := S)
  have hsound : FailsClosed lib stdHash (.start : FilterState S) := .start
  generalize (.start : FilterState S) = st₀ at h hsettled hsound
  induction ls generalizing st₀ with
  | nil =>
    cases h
    exact iff_of_true hsettled.resolved trivial
  | cons l ls ih =>
    simp only [Machine.run, if_true] at h
    obtain ⟨st₁, hn, h⟩ := Option.bind_eq_some_iff.1 h
    by_cases hC : CallbackSafe lib st₀ l
    · refine (ih st₁ h (hsettled.step hC hn) (hsound.step hn)).trans ?_
      refine ⟨fun halong => ⟨hC, fun st₂ hn₂ => ?_⟩, fun halong => halong.2 st₁ hn⟩
      obtain rfl : st₁ = st₂ := Option.some.inj (hn.symm.trans hn₂)
      exact halong
    · obtain ⟨hnot, hfault⟩ := hsettled.not_resolved_of_not_safe hsound hC hn
      refine iff_of_false ?_ fun halong => hC halong.1
      -- the run cannot go on after the fault
      cases ls with
      | nil =>
        cases h
        exact hnot
      | cons l' ls =>
        simp only [Machine.run, if_true, next_eq_none_of_fault hfault, Option.bind_none] at h
        cases h

/-- A request whose stream is deleted before the answer arrives. -/
def lateCallback : List (FilterLabel ℕ) :=
  [.request 0 rootRequest 100 .Ok, .delete 0, .respond 0 allowBody 200]

/-- The callback of a deleted stream is not safe. -/
theorem lateCallback_not_safe :
    ¬ (filterMachine sampleLibrary fun _ => 0).Along (CallbackSafe sampleLibrary) .start
      lateCallback := by
  have h : ((filterMachine sampleLibrary fun _ => 0).run (fun _ _ => True) .start
      lateCallback).isSome := by decide
  intro halong
  exact ((resolved_iff_callbackSafe (Option.some_get h).symm).2 halong).not_null rfl

/-- **A callback that arrives after its stream was deleted uses a null pointer.** -/
theorem late_callback : ¬ ∀ (lib : JsonLibrary) (stdHash : Bytes → UInt64)
    (ls : List (FilterLabel ℕ)) (st : FilterState ℕ),
    (filterMachine lib stdHash).run (fun _ _ => True) .start ls = some st → Resolved st := by
  intro h
  have hrun : ((filterMachine sampleLibrary fun _ => 0).run (fun _ _ => True) .start
      lateCallback).isSome := by decide
  exact (h _ _ _ _ (Option.some_get hrun).symm).not_null rfl

end OpenPolicyAgent

end WasmExtensions
