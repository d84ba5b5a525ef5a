import WasmExtensions.AttributeGen.Conditions
import WasmExtensions.Assignments.Basic
import Mathlib.Data.List.Basic

/-!
# What attribute generation sets

`attributeGen` goes through the generators of a phase in order, and each generator through its
matches.  When every condition keeps its outcome during the call, the result can be said without
the loops: a generator is decided by its first match whose condition is not false, and an attribute
gets the value of the last generator that is decided by a true one.

* `AttributeGenerator.deciding` : the match that decides about a generator.
* `Host.Follows` : the evaluations of a call have the outcomes that are assigned to the tokens.
* `attributeGen_last_wins` : **the first match and the last generator win**, and every generator
  that is decided by an error is counted once.
-/

namespace WasmExtensions

namespace AttributeGen

/-! ### What the outcomes mean -/

section

variable (outcomes : UInt32 → Option Bool) (phase : EvalPhase)

/-- The outcome of a condition: an empty one is true. -/
def Match.outcome (m : Match) : Option Bool :=
  if m.condition = [] then some true else outcomes m.conditionToken

/-- The first match whose condition is not false. -/
def AttributeGenerator.deciding (g : AttributeGenerator) : Option Match :=
  g.matchList.find? fun m => m.outcome outcomes ≠ some false

/-- The generator gives the attribute the value. -/
def AttributeGenerator.Sets (g : AttributeGenerator) (attr value : Bytes) : Prop :=
  g.phase = phase ∧ g.outputAttribute = attr ∧
    ∃ m, g.deciding outcomes = some m ∧ m.outcome outcomes = some true ∧ m.value = value

/-- The generator is decided by an error. -/
def AttributeGenerator.fails (g : AttributeGenerator) : Bool :=
  g.phase = phase && (g.deciding outcomes).any fun m => m.outcome outcomes = none

/-- What the generator assigns: one value or none. -/
def AttributeGenerator.assigned (g : AttributeGenerator) : List (Bytes × Option Bytes) :=
  if g.phase = phase then
    ((g.deciding outcomes).filter fun m => m.outcome outcomes = some true).toList.map
      fun m => (g.outputAttribute, some m.value)
  else []

/-- From `host` to `host'` the host evaluated expressions, each with the outcome that is assigned to
its token. -/
def Host.Follows (host host' : Host) : Prop :=
  ∃ asked : List (UInt32 × (WasmResult × Bytes)),
    host'.expressions = host.expressions.evaluateAll (asked.map Prod.fst) ∧
    host.evaluations = asked.map Prod.snd ++ host'.evaluations ∧
    ∀ q ∈ asked, outcomeOf q.2 = outcomes q.1

end

/-- The value of an attribute in the filter state. -/
def Host.filterStateValue (host : Host) (attr : Bytes) : Option Bytes :=
  host.filterState.lookup attr

variable {outcomes : UInt32 → Option Bool} {phase : EvalPhase} {host host' host'' : Host}
  {m : Match} {ms : List Match} {g : AttributeGenerator} {gen : List AttributeGenerator}
  {attr value : Bytes}

/-! ### Evaluations, one after the other -/

/-- From `host` to `host'` the host evaluated these tokens. -/
structure Host.Asks (tokens : List UInt32) (host host' : Host) : Prop where
  expressions : host'.expressions = host.expressions.evaluateAll tokens
  evaluations : host'.evaluations = host.evaluations.drop tokens.length

theorem Host.Asks.nil (host : Host) : Host.Asks [] host host := ⟨rfl, rfl⟩

theorem Host.Asks.trans {tokens tokens' : List UInt32} (h : Host.Asks tokens host host')
    (h' : Host.Asks tokens' host' host'') : Host.Asks (tokens ++ tokens') host host'' where
  expressions := by
    rw [h'.expressions, h.expressions]
    simp [ExpressionHost.evaluateAll]
  evaluations := by rw [h'.evaluations, h.evaluations, List.drop_drop, List.length_append]

theorem asks_exprEvaluate (token : UInt32) (host : Host) :
    Host.Asks [token] host (host.exprEvaluate token).2 :=
  ⟨rfl, List.drop_one.symm⟩

theorem evaluateAll_injective {e : ExpressionHost} {tokens tokens' : List UInt32}
    (h : e.evaluateAll tokens = e.evaluateAll tokens') : tokens = tokens' := by
  have hevents := congrArg ExpressionHost.events h
  simp only [ExpressionHost.evaluateAll, List.append_cancel_right_eq, List.reverse_inj] at hevents
  refine List.map_injective_iff.2 (fun t t' ht => ?_) hevents
  exact ExpressionEvent.evaluate.inj ht

/-- Outcomes that are followed throughout are followed in both parts. -/
theorem Host.Follows.split {tokens tokens' : List UInt32} (h : host.Follows outcomes host'')
    (h₁ : Host.Asks tokens host host') (h₂ : Host.Asks tokens' host' host'') :
    host.Follows outcomes host' ∧ host'.Follows outcomes host'' := by
  obtain ⟨asked, hexpressions, hevaluations, houtcomes⟩ := h
  have htokens : asked.map Prod.fst = tokens ++ tokens' :=
    evaluateAll_injective (hexpressions.symm.trans (h₁.trans h₂).expressions)
  obtain ⟨asked₁, asked₂, rfl, rfl, rfl⟩ := List.map_eq_append_iff.1 htokens
  have hrest : host'.evaluations = asked₂.map Prod.snd ++ host''.evaluations := by
    rw [h₁.evaluations, hevaluations]
    simp
  refine ⟨⟨asked₁, h₁.expressions, ?_, fun q hq => houtcomes q (List.mem_append_left _ hq)⟩,
    ⟨asked₂, h₂.expressions, hrest, fun q hq => houtcomes q (List.mem_append_right _ hq)⟩⟩
  rw [hevaluations, hrest]
  simp

/-- A single evaluation has the outcome of its token. -/
theorem outcome_of_follows {token : UInt32}
    (h : host.Follows outcomes (host.exprEvaluate token).2) :
    outcomeOf (host.evaluations.headD (.NotFound, [])) = outcomes token := by
  obtain ⟨asked, hexpressions, hevaluations, houtcomes⟩ := h
  have htokens : asked.map Prod.fst = [token] :=
    evaluateAll_injective (hexpressions.symm.trans (asks_exprEvaluate token host).expressions)
  obtain ⟨q, rfl, hq⟩ := List.map_eq_singleton_iff.1 htokens
  rw [hevaluations, ← hq]
  exact houtcomes q List.mem_cons_self

/-! ### One match and one generator -/

/-- What an evaluation leaves as it is. -/
structure SameState (host host' : Host) : Prop where
  filterState : host'.filterState = host.filterState
  runtimeErrors : host'.runtimeErrors = host.runtimeErrors

theorem Match.asks (m : Match) (host : Host) :
    (∃ tokens, Host.Asks tokens host (m.evaluate host).2) ∧ SameState host (m.evaluate host).2 := by
  by_cases hempty : m.condition = []
  · rw [Match.evaluate_of_empty hempty]
    exact ⟨⟨[], .nil host⟩, rfl, rfl⟩
  · rw [Match.evaluate_of_ne hempty]
    exact ⟨⟨_, asks_exprEvaluate _ _⟩, rfl, rfl⟩

theorem asks_evaluateMatches (ms : List Match) (host : Host) :
    (∃ tokens, Host.Asks tokens host (evaluateMatches ms host).2) ∧
      SameState host (evaluateMatches ms host).2 := by
  induction ms generalizing host with
  | nil => exact ⟨⟨[], .nil host⟩, rfl, rfl⟩
  | cons m ms ih =>
    have hm := m.asks host
    unfold evaluateMatches
    rcases heq : m.evaluate host with ⟨_ | _ | _, host'⟩ <;> rw [heq] at hm
    · exact hm
    · obtain ⟨⟨tokens, hasks⟩, hsame⟩ := hm
      obtain ⟨⟨tokens', hasks'⟩, hsame'⟩ := ih host'
      exact ⟨⟨_, hasks.trans hasks'⟩, hsame'.filterState.trans hsame.filterState,
        hsame'.runtimeErrors.trans hsame.runtimeErrors⟩
    · exact hm

theorem Match.evaluate_of_follows (h : host.Follows outcomes (m.evaluate host).2) :
    (m.evaluate host).1 = m.outcome outcomes := by
  simp only [Match.outcome]
  split_ifs with hempty
  · rw [Match.evaluate_of_empty hempty]
  · rw [Match.evaluate_of_ne hempty] at h ⊢
    exact outcome_of_follows h

/-- The first match whose condition is not false ends the loop. -/
theorem evaluateMatches_of_follows (h : host.Follows outcomes (evaluateMatches ms host).2) :
    (evaluateMatches ms host).1 =
      match ms.find? fun m => m.outcome outcomes ≠ some false with
      | none => some none
      | some m => (m.outcome outcomes).map fun _ => some m.value := by
  induction ms generalizing host with
  | nil => rfl
  | cons m ms ih =>
    have hm := @Match.evaluate_of_follows outcomes host m
    obtain ⟨⟨tokens, hasks⟩, -⟩ := m.asks host
    unfold evaluateMatches at h ⊢
    rw [List.find?_cons]
    rcases heq : m.evaluate host with ⟨_ | _ | _, host'⟩ <;> rw [heq] at h hm hasks
    · simp [← hm h]
    · obtain ⟨⟨tokens', hasks'⟩, -⟩ := asks_evaluateMatches ms host'
      obtain ⟨hfirst, hrest⟩ := h.split hasks hasks'
      simp only [← hm hfirst, ne_eq, not_true_eq_false, decide_false]
      exact ih hrest
    · simp [← hm h]

theorem asks_generate (phase : EvalPhase) (g : AttributeGenerator) (host : Host) :
    ∃ tokens, Host.Asks tokens host (generate phase g host) := by
  obtain ⟨⟨tokens, hasks⟩, -⟩ := asks_evaluateMatches g.matchList host
  unfold generate AttributeGenerator.evaluate
  split_ifs
  · exact ⟨[], .nil host⟩
  · rcases heq : evaluateMatches g.matchList host with ⟨_ | _ | _, host'⟩ <;> rw [heq] at hasks
    · exact ⟨tokens, hasks.expressions, hasks.evaluations⟩
    · exact ⟨tokens, hasks⟩
    · exact ⟨tokens, hasks.expressions, hasks.evaluations⟩

theorem filterStateValue_cons (host : Host) (attr value : Bytes) :
    Host.filterStateValue { host with filterState := (attr, value) :: host.filterState } =
      Function.update host.filterStateValue attr (some value) := by
  funext attr'
  simp only [Host.filterStateValue, List.lookup_cons]
  by_cases hattr : attr' = attr
  · simp [hattr]
  · have hne : (attr' == attr) = false := by simpa using hattr
    simp [hattr, hne, Host.filterStateValue]

theorem evaluate_of_follows (h : host.Follows outcomes (g.evaluate host).2) :
    (g.evaluate host).1 =
      match g.deciding outcomes with
      | none => some none
      | some m => (m.outcome outcomes).map fun _ => some m.value :=
  evaluateMatches_of_follows h

theorem outcome_of_deciding (h : g.deciding outcomes = some m) :
    m.outcome outcomes ≠ some false := by
  simpa using List.find?_some h

/-- A generator of the phase is evaluated. -/
theorem follows_evaluate (hphase : g.phase = phase)
    (h : host.Follows outcomes (generate phase g host)) :
    host.Follows outcomes (g.evaluate host).2 := by
  unfold generate at h
  rw [if_neg (by simp [hphase])] at h
  rcases heq : g.evaluate host with ⟨_ | _ | _, host'⟩ <;> rw [heq] at h <;> exact h

/-- What one generator does to the filter state and to the counter. -/
theorem generate_of_follows (h : host.Follows outcomes (generate phase g host)) :
    (generate phase g host).filterStateValue =
        assignAll (g.assigned outcomes phase) host.filterStateValue ∧
      (generate phase g host).runtimeErrors =
        host.runtimeErrors + if g.fails outcomes phase then 1 else 0 := by
  by_cases hphase : g.phase = phase
  · have heval := evaluate_of_follows (follows_evaluate hphase h)
    obtain ⟨hstate, herrors⟩ : SameState host (g.evaluate host).2 :=
      (asks_evaluateMatches g.matchList host).2
    unfold generate AttributeGenerator.assigned AttributeGenerator.fails
    rw [if_neg (by simp [hphase]), if_pos hphase]
    generalize g.evaluate host = evaluated at heval hstate herrors ⊢
    obtain ⟨result, host'⟩ := evaluated
    dsimp only at heval hstate herrors
    have hvalue : host'.filterStateValue = host.filterStateValue := by
      funext attr
      simp [Host.filterStateValue, hstate]
    cases hdeciding : g.deciding outcomes with
    | none =>
      rw [hdeciding] at heval
      subst heval
      exact ⟨hvalue, by simpa using herrors⟩
    | some m =>
      rw [hdeciding] at heval
      cases houtcome : m.outcome outcomes with
      | none =>
        simp only [houtcome, Option.map_none] at heval
        subst heval
        refine ⟨?_, by simp [hphase, houtcome, herrors]⟩
        simp only [Option.filter_some, houtcome, reduceCtorEq, decide_false, Bool.false_eq_true,
          if_false, Option.toList_none, List.map_nil, assignAll]
        exact hvalue
      | some b =>
        cases b with
        | false => exact absurd houtcome (outcome_of_deciding hdeciding)
        | true =>
          simp only [houtcome, Option.map_some] at heval
          subst heval
          refine ⟨?_, by simp [houtcome, herrors]⟩
          simp only [houtcome, decide_true, Option.filter_some, if_true, Option.toList_some,
            List.map_cons, List.map_nil, assignAll, ← hvalue]
          exact filterStateValue_cons host' _ _
  · have hphase' : ¬ phase = g.phase := fun h => hphase h.symm
    simp [generate, AttributeGenerator.assigned, AttributeGenerator.fails, hphase, hphase',
      assignAll]

/-! ### The call -/

theorem asks_generateAll (phase : EvalPhase) (gen : List AttributeGenerator) (host : Host) :
    ∃ tokens, Host.Asks tokens host (gen.foldl (fun host g => generate phase g host) host) := by
  induction gen generalizing host with
  | nil => exact ⟨[], .nil host⟩
  | cons g gen ih =>
    obtain ⟨tokens, hfirst⟩ := asks_generate phase g host
    obtain ⟨tokens', hrest⟩ := ih (generate phase g host)
    exact ⟨_, hfirst.trans hrest⟩

/-- The generators assign one after the other. -/
theorem generateAll_of_follows
    (h : host.Follows outcomes (gen.foldl (fun host g => generate phase g host) host)) :
    (gen.foldl (fun host g => generate phase g host) host).filterStateValue =
        assignAll (gen.flatMap fun g => g.assigned outcomes phase) host.filterStateValue ∧
      (gen.foldl (fun host g => generate phase g host) host).runtimeErrors =
        host.runtimeErrors + gen.countP fun g => g.fails outcomes phase := by
  induction gen generalizing host with
  | nil => exact ⟨rfl, rfl⟩
  | cons g gen ih =>
    obtain ⟨tokens, hasks⟩ := asks_generate phase g host
    obtain ⟨tokens', hasks'⟩ := asks_generateAll phase gen (generate phase g host)
    obtain ⟨hfirst, hrest⟩ := h.split hasks hasks'
    obtain ⟨hstate, herrors⟩ := generate_of_follows hfirst
    obtain ⟨hstate', herrors'⟩ := ih hrest
    rw [List.foldl_cons, hstate', hstate, herrors', herrors, List.flatMap_cons, assignAll_append,
      List.countP_cons]
    refine ⟨rfl, ?_⟩
    omega

/-- A generator assigns what it sets. -/
theorem mem_assigned_iff {update : Option Bytes} :
    (attr, update) ∈ g.assigned outcomes phase ↔
      ∃ value, update = some value ∧ g.Sets outcomes phase attr value := by
  simp only [AttributeGenerator.assigned, AttributeGenerator.Sets]
  split_ifs with hphase
  · simp only [List.mem_map, Option.mem_toList, Option.filter_eq_some_iff, decide_eq_true_eq,
      Prod.mk.injEq]
    constructor
    · rintro ⟨m, ⟨hdeciding, houtcome⟩, hattr, rfl⟩
      exact ⟨m.value, rfl, hphase, hattr, m, hdeciding, houtcome, rfl⟩
    · rintro ⟨value, rfl, -, hattr, m, hdeciding, houtcome, rfl⟩
      exact ⟨m, ⟨hdeciding, houtcome⟩, hattr, rfl⟩
  · simp [hphase]

theorem assigns_iff : Assigns (g.assigned outcomes phase) attr ↔
    ∃ value, g.Sets outcomes phase attr value := by
  simp only [Assigns, mem_assigned_iff]
  exact ⟨fun ⟨_, value, _, h⟩ => ⟨value, h⟩, fun ⟨value, h⟩ => ⟨_, value, rfl, h⟩⟩

/-- A generator sets an attribute to one value only. -/
theorem AttributeGenerator.Sets.unique {value' : Bytes}
    (h : g.Sets outcomes phase attr value) (h' : g.Sets outcomes phase attr value') :
    value = value' := by
  obtain ⟨-, -, m, hm, -, rfl⟩ := h
  obtain ⟨-, -, m', hm', -, rfl⟩ := h'
  rw [Option.some.inj (hm.symm.trans hm')]

/-- **The first match and the last generator win**, and errors are counted. -/
theorem attributeGen_last_wins (root : PluginRootContext)
    (h : host.Follows outcomes (root.attributeGen phase host)) :
    (∀ attr,
      (∀ before g after value, root.gen = before ++ g :: after →
        g.Sets outcomes phase attr value →
        (∀ g' ∈ after, ∀ value', ¬ g'.Sets outcomes phase attr value') →
          (root.attributeGen phase host).filterStateValue attr = some value) ∧
      ((∀ g ∈ root.gen, ∀ value, ¬ g.Sets outcomes phase attr value) →
        (root.attributeGen phase host).filterStateValue attr =
          host.filterStateValue attr)) ∧
    (root.attributeGen phase host).runtimeErrors =
      host.runtimeErrors + root.gen.countP fun g => g.fails outcomes phase := by
  unfold PluginRootContext.attributeGen at h ⊢
  obtain ⟨hstate, herrors⟩ := generateAll_of_follows h
  refine ⟨fun attr => ⟨?_, ?_⟩, herrors⟩
  · intro before g after value hgen hsets hafter
    have hassigns : Assigns (g.assigned outcomes phase) attr := assigns_iff.2 ⟨value, hsets⟩
    have hlast : ∀ g' ∈ after, ¬ Assigns (g'.assigned outcomes phase) attr := by
      intro g' hg' hassigns'
      obtain ⟨value', hsets'⟩ := assigns_iff.1 hassigns'
      exact hafter g' hg' value' hsets'
    rw [hstate, hgen, assignAll_flatMap_of_last hassigns hlast _ fun _ => none]
    obtain ⟨value', hvalue', hsets'⟩ := mem_assigned_iff.1 (mem_of_assigns hassigns fun _ => none)
    rw [hvalue', hsets'.unique hsets]
  · intro hnone
    rw [hstate]
    refine assignAll_flatMap_of_none fun g hg hassigns => ?_
    obtain ⟨value, hsets⟩ := assigns_iff.1 hassigns
    exact hnone g hg value hsets

/-- A second generator for the same attribute, with a condition that is not a boolean. -/
def sampleRoot : PluginRootContext :=
  ⟨[sampleGenerator,
    { sampleGenerator with matchList := [⟨bytes "request.size", 3, bytes "Large"⟩] }], [1, 2, 3]⟩

/-- The conditions are false, true and an error. -/
def sampleOutcomes (token : UInt32) : Option Bool :=
  if token = 1 then some false else if token = 2 then some true else none

theorem attributeGen_last_wins_sample :
    Host.filterStateValue
        (sampleRoot.attributeGen .OnLog (sampleHost [.boolean false, .boolean true, .int64 7]))
        (bytes "istio.operationId") = some (bytes "Query") ∧
      Host.runtimeErrors
        (sampleRoot.attributeGen .OnLog (sampleHost [.boolean false, .boolean true, .int64 7])) =
          1 := by
  have hfollows : Host.Follows sampleOutcomes
      (sampleHost [.boolean false, .boolean true, .int64 7])
      (sampleRoot.attributeGen .OnLog (sampleHost [.boolean false, .boolean true, .int64 7])) :=
    ⟨[(1, ExprValue.serialize (.boolean false)), (2, ExprValue.serialize (.boolean true)),
      (3, ExprValue.serialize (.int64 7))], rfl, rfl, by decide⟩
  obtain ⟨hvalues, herrors⟩ := attributeGen_last_wins sampleRoot hfollows
  refine ⟨(hvalues _).1 [] sampleGenerator _ _ rfl ?_ ?_, herrors.trans rfl⟩
  · exact ⟨rfl, rfl, ⟨bytes "request.query", 2, bytes "Query"⟩, rfl, rfl, rfl⟩
  · rintro g' hg' value' ⟨-, -, m, hdeciding, houtcome, -⟩
    obtain rfl := List.mem_singleton.1 hg'
    obtain rfl := Option.some.inj hdeciding
    cases houtcome

end AttributeGen

end WasmExtensions
