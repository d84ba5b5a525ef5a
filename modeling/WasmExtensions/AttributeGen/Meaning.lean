import WasmExtensions.AttributeGen.Consistency
import WasmExtensions.AttributeGen.Generation
import Mathlib.Data.List.Find

/-!
# From a configuration to attributes

A configuration says by itself what is set: each of its attributes gets the value of the first match
whose condition is not false, if that one is true.  The plugin compiles the conditions to tokens,
keeps generators over any number of requests and asks the host for the tokens.  In every run the
attributes that are set are those that the configuration in force says.

* `PluginConfig.assigned`, `PluginConfig.failures` : what a configuration says.
* `configAfter` : the configuration that is in force after some callbacks.
* `sets_as_configured` : **the plugin does what the configuration in force says.**
* `attribute_independent` : what becomes of an attribute depends on the entries for it only.
-/

namespace WasmExtensions

namespace AttributeGen

/-! ### What a configuration says -/

section

variable (truth : Bytes → Option Bool) (phase : EvalPhase)

/-- What the condition comes to; an empty one is true. -/
def MatchConfig.outcome (m : MatchConfig) : Option Bool :=
  if m.condition = [] then some true else truth m.condition

/-- The first match whose condition is not false. -/
def AttributeGeneration.deciding (a : AttributeGeneration) : Option MatchConfig :=
  a.matchConfigs.find? fun m => m.outcome truth ≠ some false

/-- What an entry of the configuration assigns in a phase: one value or none. -/
def AttributeGeneration.assigned (a : AttributeGeneration) : List (Bytes × Option Bytes) :=
  if PluginRootContext.evalPhase a.phase = phase then
    ((a.deciding truth).filter fun m => m.outcome truth = some true).toList.map
      fun m => (a.outputAttribute, some m.value)
  else []

/-- The entry is decided by an error. -/
def AttributeGeneration.fails (a : AttributeGeneration) : Bool :=
  PluginRootContext.evalPhase a.phase = phase &&
    (a.deciding truth).any fun m => m.outcome truth = none

def PluginConfig.assigned (config : PluginConfig) : List (Bytes × Option Bytes) :=
  config.attributes.flatMap fun a => a.assigned truth phase

def PluginConfig.failures (config : PluginConfig) : ℕ :=
  config.attributes.countP fun a => a.fails truth phase

end

/-! ### The generators of a configuration -/

section

variable {truth : Bytes → Option Bool} {outcomes : UInt32 → Option Bool} {phase : EvalPhase}
  {events : List ExpressionEvent} {a : AttributeGeneration} {g : AttributeGenerator}
  {config : PluginConfig} {gen : List AttributeGenerator}

/-- A token comes to what the expression comes to that it was given out for. -/
def Agrees (truth : Bytes → Option Bool) (outcomes : UInt32 → Option Bool)
    (events : List ExpressionEvent) : Prop :=
  ∀ token input, ExpressionEvent.create token input ∈ events → outcomes token = truth input

/-- Matches that say the same are decided in the same place. -/
theorem deciding_eq {configs : List MatchConfig} {ms : List Match}
    (hsource : ms.map (fun m => (m.condition, m.value)) =
      configs.map fun m => (m.condition, m.value))
    (houtcome : ∀ m ∈ ms, m.outcome outcomes = MatchConfig.outcome truth ⟨m.condition, m.value⟩) :
    (ms.find? fun m => m.outcome outcomes ≠ some false).map
        (fun m => (m.outcome outcomes, m.value)) =
      (configs.find? fun m => m.outcome truth ≠ some false).map
        fun m => (m.outcome truth, m.value) := by
  induction ms generalizing configs with
  | nil =>
    obtain rfl : configs = [] := by simpa using hsource.symm
    rfl
  | cons m ms ih =>
    obtain ⟨config, configs, rfl⟩ : ∃ config rest, configs = config :: rest :=
      List.exists_cons_of_ne_nil fun hnil => by simp [hnil] at hsource
    simp only [List.map_cons, List.cons.injEq, Prod.mk.injEq] at hsource
    obtain ⟨⟨hcondition, hvalue⟩, hrest⟩ := hsource
    have hm : m.outcome outcomes = config.outcome truth := by
      rw [houtcome m List.mem_cons_self, hcondition, hvalue]
    rw [List.find?_cons, List.find?_cons, hm]
    by_cases hfalse : config.outcome truth = some false
    · simp only [hfalse, ne_eq, not_true_eq_false, decide_false]
      exact ih hrest fun m' hm' => houtcome m' (List.mem_cons_of_mem _ hm')
    · simp [hfalse, hm, hvalue]

/-- A generator is decided as its entry of the configuration is. -/
theorem AttributeGeneration.Translates.deciding (h : a.Translates events g)
    (hagrees : Agrees truth outcomes events) :
    (g.deciding outcomes).map (fun m => (m.outcome outcomes, m.value)) =
      (a.deciding truth).map fun m => (m.outcome truth, m.value) := by
  refine deciding_eq h.matchList fun m hm => ?_
  unfold Match.outcome MatchConfig.outcome
  split_ifs with hempty
  · rfl
  · exact hagrees _ _ (h.compiled m hm hempty)

theorem AttributeGeneration.Translates.assigned (phase : EvalPhase) (h : a.Translates events g)
    (hagrees : Agrees truth outcomes events) :
    g.assigned outcomes phase = a.assigned truth phase ∧
      g.fails outcomes phase = a.fails truth phase := by
  have hdeciding := h.deciding hagrees
  unfold AttributeGenerator.assigned AttributeGeneration.assigned AttributeGenerator.fails
    AttributeGeneration.fails
  rw [h.phase, h.outputAttribute]
  cases hg : g.deciding outcomes with
  | none =>
    have ha : a.deciding truth = none := by simpa [hg] using hdeciding.symm
    simp [ha]
  | some m =>
    obtain ⟨m', ha, heq⟩ : ∃ m', a.deciding truth = some m' ∧
        (m'.outcome truth, m'.value) = (m.outcome outcomes, m.value) := by
      rw [hg, Option.map_some] at hdeciding
      exact Option.map_eq_some_iff.1 hdeciding.symm
    obtain ⟨houtcome, hvalue⟩ := Prod.mk.inj heq
    rw [ha]
    by_cases htrue : m.outcome outcomes = some true <;>
      simp [Option.filter_some, houtcome, hvalue, htrue]

/-- The generators together assign what the configuration says. -/
theorem PluginConfig.Translates.assigned (phase : EvalPhase) (h : config.Translates events gen)
    (hagrees : Agrees truth outcomes events) :
    gen.flatMap (fun g => g.assigned outcomes phase) = config.assigned truth phase ∧
      gen.countP (fun g => g.fails outcomes phase) = config.failures truth phase := by
  unfold PluginConfig.assigned PluginConfig.failures
  obtain ⟨attributes⟩ := config
  replace h : List.Forall₂ (AttributeGeneration.Translates events) attributes gen := h
  dsimp only
  induction h with
  | nil => exact ⟨rfl, rfl⟩
  | cons ha _ ih =>
    obtain ⟨hassigned, hfails⟩ := ha.assigned phase hagrees
    rw [List.flatMap_cons, List.flatMap_cons, List.countP_cons, List.countP_cons, ih.1, ih.2,
      hassigned, hfails]
    exact ⟨rfl, rfl⟩

end

/-! ### The configuration in force -/

instance (s : State) (answers : List (Option UInt32)) (config : PluginConfig) :
    Decidable (Accepted s answers config) :=
  inferInstanceAs (Decidable (_ = true))

/-- The configuration in force after a callback: the last one, if the host accepted its expressions
and the plugin is not done.  A text that cannot be parsed changes nothing. -/
def configNext (parse : Bytes → Option PluginConfig) (s : State) (current : Option PluginConfig) :
    Label → Option PluginConfig
  | .onConfigure configuration answers =>
    match parse configuration with
    | none => current
    | some config => if Accepted s answers config then some config else none
  | .attributeGen _ _ => current
  | .onDone => none

/-- The configuration in force after some callbacks. -/
def configAfter (parse : Bytes → Option PluginConfig) : State → Option PluginConfig → List Label →
    Option PluginConfig
  | _, current, [] => current
  | s, current, l :: ls =>
    ((pluginMachine parse).next s l).bind fun s' =>
      configAfter parse s' (configNext parse s current l) ls

/-- The generators are those of the configuration in force. -/
def Implements (s : State) (current : Option PluginConfig) : Prop :=
  current.elim (s.root.gen = []) fun config =>
    config.Translates s.host.expressions.events s.root.gen

variable {parse : Bytes → Option PluginConfig} {s s' : State} {current : Option PluginConfig}

theorem Implements.keep (h : Implements s current) (hroot : s'.root = s.root)
    (hsub : s.host.expressions.events ⊆ s'.host.expressions.events) : Implements s' current := by
  unfold Implements at h ⊢
  cases current with
  | none => exact (congrArg PluginRootContext.gen hroot).trans h
  | some config =>
    rw [hroot]
    exact PluginConfig.Translates.mono h hsub

theorem Implements.next {l : Label} (h : Implements s current) (hs : Consistent parse s)
    (hn : (pluginMachine parse).next s l = some s') :
    Implements s' (configNext parse s current l) := by
  have hcallback := (hs.next hn).2
  cases l with
  | onConfigure configuration answers =>
    simp only [Callback, configNext] at hcallback ⊢
    cases hparse : parse configuration with
    | none =>
      simp only [pluginMachine, PluginRootContext.onConfigure, hparse] at hn
      obtain rfl := Option.some.inj hn
      exact h.keep rfl fun _ hmem => hmem
    | some config =>
      rw [hparse] at hcallback
      dsimp only
      split_ifs with haccepted
      · exact hcallback.1 haccepted
      · exact hcallback.2 haccepted
  | attributeGen phase evaluations =>
    obtain rfl := Option.some.inj hn
    have hevaluates : Evaluates s.root.tokens (s.host.prepare [] evaluations)
        (s.root.attributeGen phase (s.host.prepare [] evaluations)) :=
      attributeGen_evaluates hs.referenced
    exact h.keep rfl hevaluates.subset
  | onDone => exact hcallback

theorem implements_start : Implements .start none := rfl

/-- **The generators are those of the configuration in force**, after every run. -/
theorem implements_configAfter {labels : List Label} (h : Implements s current)
    (hs : Consistent parse s)
    (hrun : (pluginMachine parse).run (fun _ _ => True) s labels = some s') :
    Consistent parse s' ∧ Implements s' (configAfter parse s current labels) := by
  induction labels generalizing s current with
  | nil =>
    obtain rfl := Option.some.inj hrun
    exact ⟨hs, h⟩
  | cons l labels ih =>
    rw [Machine.run, if_pos trivial] at hrun
    obtain ⟨t, hn, hrun⟩ := Option.bind_eq_some_iff.1 hrun
    rw [configAfter, hn]
    exact ih (h.next hs hn) (hs.next hn).1 hrun

/-! ### What is set -/

/-- In a call the host answers for each token what the expression comes to that it was given out
for. -/
def TrueTo (truth : Bytes → Option Bool) (host host' : Host) : Prop :=
  ∃ outcomes, Agrees truth outcomes host.expressions.events ∧ host.Follows outcomes host'

variable {truth : Bytes → Option Bool} {phase : EvalPhase}
  {evaluations : List (WasmResult × Bytes)} {labels : List Label}

/-- One call of a plugin that implements the configuration. -/
theorem Implements.attributeGen (h : Implements s current)
    (hn : (pluginMachine parse).next s (.attributeGen phase evaluations) = some s')
    (htruth : TrueTo truth (s.host.prepare [] evaluations) s'.host) :
    s'.host.filterStateValue = assignAll (current.elim [] fun config =>
        config.assigned truth phase) s.host.filterStateValue ∧
    s'.host.runtimeErrors = s.host.runtimeErrors +
      current.elim 0 fun config => config.failures truth phase := by
  obtain ⟨outcomes, hagrees, hfollows⟩ := htruth
  obtain rfl := Option.some.inj hn
  have hall := generateAll_of_follows hfollows
  cases current with
  | none =>
    have hnil : s.root.gen = [] := h
    unfold PluginRootContext.attributeGen
    rw [hnil] at hall ⊢
    exact hall
  | some config =>
    have htranslates : config.Translates s.host.expressions.events s.root.gen := h
    obtain ⟨hassigned, hfailures⟩ := htranslates.assigned phase hagrees
    rw [hassigned, hfailures] at hall
    exact hall

/-- **The plugin does what the configuration in force says**: it sets the attributes that the
configuration sets, to the values there, and counts the entries that are decided by an error. -/
theorem sets_as_configured
    (hrun : (pluginMachine parse).run (fun _ _ => True) .start labels = some s)
    (hn : (pluginMachine parse).next s (.attributeGen phase evaluations) = some s')
    (htruth : TrueTo truth (s.host.prepare [] evaluations) s'.host) :
    s'.host.filterStateValue =
      assignAll ((configAfter parse .start none labels).elim [] fun config =>
        config.assigned truth phase) s.host.filterStateValue ∧
    s'.host.runtimeErrors = s.host.runtimeErrors +
      (configAfter parse .start none labels).elim 0 fun config => config.failures truth phase := by
  obtain ⟨-, himplements⟩ := implements_configAfter implements_start consistent_start hrun
  exact himplements.attributeGen hn htruth

/-- The first condition of the sample is false, no other can be evaluated. -/
def sampleTruth (condition : Bytes) : Option Bool :=
  if condition = bytes "x" then some false else none

/-- A configuration is rejected and the next one accepted. -/
def sampleState : State :=
  Option.get ((pluginMachine fun _ => some sampleConfig).run (fun _ _ => True) .start
    [.onConfigure [] [some 7, none], .onConfigure [] [some 8, some 9]]) (by decide)

def sampleTokens (token : UInt32) : Option Bool := if token = 9 then none else some false

theorem sampleState_agrees :
    Agrees sampleTruth sampleTokens sampleState.host.expressions.events := by
  have hevents : sampleState.host.expressions.events =
      [.create 9 (bytes "y"), .create 8 (bytes "x"), .delete 7, .create 7 (bytes "x")] := rfl
  intro token input hmem
  rw [hevents] at hmem
  simp only [List.mem_cons, ExpressionEvent.create.injEq, reduceCtorEq, List.not_mem_nil,
    or_false, false_or] at hmem
  rcases hmem with ⟨rfl, rfl⟩ | ⟨rfl, rfl⟩ | ⟨rfl, rfl⟩ <;> decide

theorem sets_as_configured_sample : ∃ s',
    (pluginMachine fun _ => some sampleConfig).next sampleState
      (.attributeGen .OnRequest [(.Ok, [0])]) = some s' ∧
    s'.host.filterStateValue (bytes "a") = some (bytes "2") := by
  refine ⟨_, rfl, ?_⟩
  have htruth : TrueTo sampleTruth (sampleState.host.prepare [] [(.Ok, [0])])
      (sampleState.root.attributeGen .OnRequest (sampleState.host.prepare [] [(.Ok, [0])])) :=
    ⟨sampleTokens, sampleState_agrees, [(8, .Ok, [0])], rfl, rfl, by decide⟩
  have hrun : (pluginMachine fun _ => some sampleConfig).run (fun _ _ => True) .start
    [.onConfigure [] [some 7, none], .onConfigure [] [some 8, some 9]] = some sampleState := rfl
  exact (congrFun (sets_as_configured hrun rfl htruth).1 _).trans (by decide)

/-- The entries of the configuration in force that are about the attribute, in this phase. -/
def entriesFor (phase : EvalPhase) (attr : Bytes) (current : Option PluginConfig) :
    List AttributeGeneration :=
  current.elim [] fun config => config.attributes.filter fun a =>
    a.outputAttribute = attr ∧ PluginRootContext.evalPhase a.phase = phase

theorem assigned_filter_eq (a : AttributeGeneration) (truth : Bytes → Option Bool)
    (phase : EvalPhase) (attr : Bytes) :
    ((a.assigned truth phase).filter fun u => u.1 = attr) =
      if a.outputAttribute = attr ∧ PluginRootContext.evalPhase a.phase = phase then
        a.assigned truth phase
      else [] := by
  unfold AttributeGeneration.assigned
  by_cases hphase : PluginRootContext.evalPhase a.phase = phase
  · by_cases hattr : a.outputAttribute = attr <;>
      simp [hphase, hattr, List.filter_map, Function.comp_def]
  · simp [hphase]

/-- The assignments to an attribute are those of the entries for it. -/
theorem assigned_filter (truth : Bytes → Option Bool) (phase : EvalPhase) (attr : Bytes)
    (current : Option PluginConfig) :
    ((current.elim [] fun config => config.assigned truth phase).filter fun u => u.1 = attr) =
      (entriesFor phase attr current).flatMap fun a => a.assigned truth phase := by
  cases current with
  | none => rfl
  | some config =>
    show (config.attributes.flatMap fun a => a.assigned truth phase).filter _ =
      (config.attributes.filter _).flatMap _
    induction config.attributes with
    | nil => rfl
    | cons a rest ih =>
      rw [List.flatMap_cons, List.filter_append, ih, assigned_filter_eq, List.filter_cons]
      by_cases ha : a.outputAttribute = attr ∧ PluginRootContext.evalPhase a.phase = phase <;>
        simp [ha]

/-- An entry assigns the same if its conditions come to the same. -/
theorem assigned_congr {truth' : Bytes → Option Bool} {a : AttributeGeneration}
    (h : ∀ m ∈ a.matchConfigs, truth m.condition = truth' m.condition) :
    a.assigned truth phase = a.assigned truth' phase := by
  have houtcome : ∀ m ∈ a.matchConfigs, m.outcome truth = m.outcome truth' := by
    intro m hm
    unfold MatchConfig.outcome
    rw [h m hm]
  have hdeciding : a.deciding truth = a.deciding truth' :=
    List.find?_congr fun m hm => by rw [houtcome m hm]
  unfold AttributeGeneration.assigned
  rw [← hdeciding]
  cases ha : a.deciding truth with
  | none => rfl
  | some m => simp [Option.filter_some, houtcome m (List.mem_of_find?_eq_some ha)]

/-- **What becomes of an attribute depends on the entries for it only.**  Two plugins with the same
entries for it give it the same value, whatever else they are configured for, how they came to be
configured, and what the host answers for the other entries. -/
theorem attribute_independent {parse' : Bytes → Option PluginConfig} {t t' : State}
    {labels' : List Label} {evaluations' : List (WasmResult × Bytes)} {truth' : Bytes → Option Bool}
    {attr : Bytes}
    (hrun : (pluginMachine parse).run (fun _ _ => True) .start labels = some s)
    (hn : (pluginMachine parse).next s (.attributeGen phase evaluations) = some s')
    (htruth : TrueTo truth (s.host.prepare [] evaluations) s'.host)
    (hrun' : (pluginMachine parse').run (fun _ _ => True) .start labels' = some t)
    (hn' : (pluginMachine parse').next t (.attributeGen phase evaluations') = some t')
    (htruth' : TrueTo truth' (t.host.prepare [] evaluations') t'.host)
    (hentries : entriesFor phase attr (configAfter parse .start none labels) =
      entriesFor phase attr (configAfter parse' .start none labels'))
    (hagree : ∀ a ∈ entriesFor phase attr (configAfter parse .start none labels),
      ∀ m ∈ a.matchConfigs, truth m.condition = truth' m.condition)
    (hvalue : s.host.filterStateValue attr = t.host.filterStateValue attr) :
    s'.host.filterStateValue attr = t'.host.filterStateValue attr := by
  obtain ⟨-, himplements⟩ := implements_configAfter implements_start consistent_start hrun
  obtain ⟨-, himplements'⟩ := implements_configAfter implements_start consistent_start hrun'
  rw [(himplements.attributeGen hn htruth).1, (himplements'.attributeGen hn' htruth').1]
  refine assignAll_eq_of_filter ?_ hvalue
  rw [assigned_filter, assigned_filter, ← hentries]
  exact List.flatMap_congr fun a ha => assigned_congr (hagree a ha)

/-- The entry of the sample behind another one, whose condition cannot be evaluated. -/
def crowdedConfig : PluginConfig where
  attributes := [
    ⟨.ON_REQUEST, bytes "c", [⟨bytes "z", bytes "9"⟩]⟩,
    ⟨.ON_REQUEST, bytes "a", [⟨bytes "x", bytes "1"⟩, ⟨[], bytes "2"⟩]⟩]

def crowdedState : State :=
  Option.get ((pluginMachine fun _ => some crowdedConfig).run (fun _ _ => True) .start
    [.onConfigure [] [some 9, some 1]]) (by decide)

theorem attribute_independent_crowded :
    (sampleState.root.attributeGen .OnRequest
        (sampleState.host.prepare [] [(.Ok, [0])])).filterStateValue (bytes "a") =
      (crowdedState.root.attributeGen .OnRequest
        (crowdedState.host.prepare [] [(.NotFound, []), (.Ok, [0])])).filterStateValue
          (bytes "a") := by
  have htruth : TrueTo sampleTruth (sampleState.host.prepare [] [(.Ok, [0])])
      (sampleState.root.attributeGen .OnRequest (sampleState.host.prepare [] [(.Ok, [0])])) :=
    ⟨sampleTokens, sampleState_agrees, [(8, .Ok, [0])], rfl, rfl, by decide⟩
  have htruth' : TrueTo sampleTruth (crowdedState.host.prepare [] [(.NotFound, []), (.Ok, [0])])
      (crowdedState.root.attributeGen .OnRequest
        (crowdedState.host.prepare [] [(.NotFound, []), (.Ok, [0])])) := by
    refine ⟨sampleTokens, ?_, [(9, .NotFound, []), (1, .Ok, [0])], rfl, rfl, by decide⟩
    have hevents : crowdedState.host.expressions.events =
        [.create 1 (bytes "x"), .create 9 (bytes "z")] := rfl
    intro token input hmem
    have hmem : _ ∈ crowdedState.host.expressions.events := hmem
    rw [hevents] at hmem
    simp only [List.mem_cons, ExpressionEvent.create.injEq, List.not_mem_nil, or_false] at hmem
    rcases hmem with ⟨rfl, rfl⟩ | ⟨rfl, rfl⟩ <;> decide
  have hrun : (pluginMachine fun _ => some sampleConfig).run (fun _ _ => True) .start
    [.onConfigure [] [some 7, none], .onConfigure [] [some 8, some 9]] = some sampleState := rfl
  have hrun' : (pluginMachine fun _ => some crowdedConfig).run (fun _ _ => True) .start
    [.onConfigure [] [some 9, some 1]] = some crowdedState := rfl
  exact attribute_independent hrun rfl htruth hrun' rfl htruth' (by decide) (fun _ _ _ _ => rfl) rfl

end AttributeGen

end WasmExtensions
