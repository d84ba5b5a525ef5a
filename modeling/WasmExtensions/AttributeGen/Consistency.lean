import WasmExtensions.AttributeGen.Plugin
import Mathlib.Data.List.Forall2

/-!
# Generators and their tokens

A configuration may be rejected after some of its expressions were compiled, and the next one finds
the tokens of the last one.  In every run of the callbacks the plugin holds exactly the tokens that
are live, each of them is referenced by one condition, none is used after its deletion, and the
generators are all those of one configuration or none.

* `PluginConfig.Translates` : generators that say what a configuration says.
* `Consistent` : the invariant; `Callback` : what a callback makes of the generators.
* `generators_consistent` : **both hold in every run.**
-/

namespace WasmExtensions

namespace AttributeGen

/-! ### What a configuration means -/

/-- The expressions that a list of matches compiles. -/
def conditions (configs : List MatchConfig) : List Bytes :=
  (configs.map MatchConfig.condition).filter fun condition => !condition.isEmpty

/-- The expressions that a configuration compiles, in order. -/
def PluginConfig.conditions (config : PluginConfig) : List Bytes :=
  config.attributes.flatMap fun a => AttributeGen.conditions a.matchConfigs

/-- The tokens that the conditions of a generator refer to. -/
def matchTokens (matchList : List Match) : List UInt32 :=
  (matchList.filter fun m => !m.condition.isEmpty).map Match.conditionToken

/-- The generator has the phase, the attribute and the matches of the configuration, and the token
of each condition was given out for it. -/
structure AttributeGeneration.Translates (events : List ExpressionEvent) (a : AttributeGeneration)
    (g : AttributeGenerator) : Prop where
  phase : g.phase = PluginRootContext.evalPhase a.phase
  outputAttribute : g.outputAttribute = a.outputAttribute
  matchList : g.matchList.map (fun m => (m.condition, m.value)) =
    a.matchConfigs.map fun m => (m.condition, m.value)
  compiled : ∀ m ∈ g.matchList, m.condition ≠ [] →
    ExpressionEvent.create m.conditionToken m.condition ∈ events

/-- The generators are the translation of the configuration. -/
def PluginConfig.Translates (events : List ExpressionEvent) (config : PluginConfig)
    (gen : List AttributeGenerator) : Prop :=
  List.Forall₂ (AttributeGeneration.Translates events) config.attributes gen

theorem PluginConfig.Translates.mono {events events' : List ExpressionEvent}
    {config : PluginConfig} {gen : List AttributeGenerator} (h : config.Translates events gen)
    (hsub : events ⊆ events') : config.Translates events' gen :=
  List.Forall₂.imp (fun _ _ ha => ⟨ha.phase, ha.outputAttribute, ha.matchList,
    fun m hm hne => hsub (ha.compiled m hm hne)⟩) h

/-! ### The generators of a configuration -/

theorem createAll_subset (inputs : List Bytes) (e : ExpressionHost) :
    e.events ⊆ (e.createAll inputs).2.2.events := by
  induction inputs generalizing e with
  | nil => exact fun _ hmem => hmem
  | cons input inputs ih =>
    rcases hcreate : e.createExpression input with ⟨_ | token, e₁⟩
    · rw [ExpressionHost.createAll_cons_none hcreate,
        ExpressionHost.createExpression_eq_none hcreate]
      exact fun _ hmem => hmem
    · rw [ExpressionHost.createAll_cons_some hcreate]
      have hevents := (ExpressionHost.createExpression_eq_some hcreate).2
      exact fun event hmem => ih e₁ (hevents ▸ List.mem_cons_of_mem _ hmem)

/-- The matches say what their configuration says. -/
structure TranslatesMatches (events : List ExpressionEvent) (tokens : List UInt32)
    (configs : List MatchConfig) (ms : List Match) : Prop where
  source : ms.map (fun m => (m.condition, m.value)) = configs.map fun m => (m.condition, m.value)
  tokens : matchTokens ms = tokens
  compiled : ∀ m ∈ ms, m.condition ≠ [] →
    ExpressionEvent.create m.conditionToken m.condition ∈ events

section

variable {events : List ExpressionEvent} {tokens : List UInt32} {config : MatchConfig}
  {configs : List MatchConfig} {ms : List Match}

theorem TranslatesMatches.cons_empty (h : TranslatesMatches events tokens configs ms)
    (hempty : config.condition.isEmpty = true) :
    TranslatesMatches events tokens (config :: configs) (⟨[], 0, config.value⟩ :: ms) where
  source := by rw [List.map_cons, List.map_cons, h.source, List.isEmpty_iff.1 hempty]
  tokens := h.tokens
  compiled m hm hne := by
    rcases List.mem_cons.1 hm with rfl | hm
    · exact absurd rfl hne
    · exact h.compiled m hm hne

theorem TranslatesMatches.cons {token : UInt32} (h : TranslatesMatches events tokens configs ms)
    (hempty : ¬ config.condition.isEmpty = true)
    (hcreated : ExpressionEvent.create token config.condition ∈ events) :
    TranslatesMatches events (token :: tokens) (config :: configs)
      (⟨config.condition, token, config.value⟩ :: ms) where
  source := by rw [List.map_cons, List.map_cons, h.source]
  tokens := by
    rw [← h.tokens]
    simp [matchTokens, hempty]
  compiled m hm hne := by
    rcases List.mem_cons.1 hm with rfl | hm
    · exact hcreated
    · exact h.compiled m hm hne

end

/-- The matches of an attribute are built exactly if all conditions are accepted; the tokens that
were given out are kept in any case. -/
theorem initMatches_eq (configs : List MatchConfig) (built : List Match)
    (root : PluginRootContext) (host : Host) :
    ∃ ms, PluginRootContext.initMatches configs built root host =
      (if (host.expressions.createAll (conditions configs)).1 then some (built ++ ms) else none,
        ⟨root.gen, root.tokens ++ (host.expressions.createAll (conditions configs)).2.1⟩,
        { host with expressions := (host.expressions.createAll (conditions configs)).2.2 }) ∧
      ((host.expressions.createAll (conditions configs)).1 = true →
        TranslatesMatches (host.expressions.createAll (conditions configs)).2.2.events
          (host.expressions.createAll (conditions configs)).2.1 configs ms) := by
  induction configs generalizing built root host with
  | nil =>
    refine ⟨[], ?_, fun _ => ⟨rfl, rfl, by simp⟩⟩
    simp [PluginRootContext.initMatches, conditions, ExpressionHost.createAll]
  | cons config configs ih =>
    rw [PluginRootContext.initMatches]
    by_cases hempty : config.condition.isEmpty
    · have hconditions : conditions (config :: configs) = conditions configs := by
        simp [conditions, hempty]
      obtain ⟨ms, hinit, htranslates⟩ := ih (built ++ [⟨[], 0, config.value⟩]) root host
      refine ⟨⟨[], 0, config.value⟩ :: ms, ?_, fun h => ?_⟩
      · rw [if_pos hempty, hinit, hconditions, List.append_assoc]
        rfl
      · rw [hconditions] at h ⊢
        exact (htranslates h).cons_empty hempty
    · have hconditions : conditions (config :: configs) =
          config.condition :: conditions configs := by
        simp [conditions, hempty]
      rw [if_neg hempty, hconditions]
      rcases hcreate : host.expressions.createExpression config.condition with ⟨_ | token, e⟩
      · rw [ExpressionHost.createAll_cons_none hcreate]
        exact ⟨[], by simp, by simp⟩
      · rw [ExpressionHost.createAll_cons_some hcreate]
        obtain ⟨ms, hinit, htranslates⟩ := ih (built ++ [⟨config.condition, token, config.value⟩])
          ⟨root.gen, root.tokens ++ [token]⟩ { host with expressions := e }
        refine ⟨⟨config.condition, token, config.value⟩ :: ms, ?_, fun h => ?_⟩
        · dsimp only
          rw [hinit, List.append_assoc, List.append_assoc]
          rfl
        · refine (htranslates h).cons hempty (createAll_subset _ e ?_)
          rw [(ExpressionHost.createExpression_eq_some hcreate).2]
          exact List.mem_cons_self

/-- The expressions that a list of attributes compiles. -/
def attributeConditions (configs : List AttributeGeneration) : List Bytes :=
  configs.flatMap fun a => conditions a.matchConfigs

/-- The generators are built exactly if all conditions are accepted; the tokens that were given out
are kept in any case. -/
theorem initAttributeGen_eq (configs : List AttributeGeneration) (root : PluginRootContext)
    (host : Host) :
    ∃ gen, PluginRootContext.initAttributeGen configs root host =
      ((host.expressions.createAll (attributeConditions configs)).1,
        ⟨root.gen ++ gen,
          root.tokens ++ (host.expressions.createAll (attributeConditions configs)).2.1⟩,
        { host with
          expressions := (host.expressions.createAll (attributeConditions configs)).2.2 }) ∧
      ((host.expressions.createAll (attributeConditions configs)).1 = true →
        List.Forall₂ (AttributeGeneration.Translates
          (host.expressions.createAll (attributeConditions configs)).2.2.events) configs gen ∧
        gen.flatMap (fun g => matchTokens g.matchList) =
          (host.expressions.createAll (attributeConditions configs)).2.1) := by
  induction configs generalizing root host with
  | nil =>
    refine ⟨[], ?_, fun _ => ⟨.nil, rfl⟩⟩
    simp [PluginRootContext.initAttributeGen, attributeConditions, ExpressionHost.createAll]
  | cons config configs ih =>
    have hconditions : attributeConditions (config :: configs) =
      conditions config.matchConfigs ++ attributeConditions configs := rfl
    obtain ⟨ms, hinit, hms⟩ := initMatches_eq config.matchConfigs [] root host
    rw [PluginRootContext.initAttributeGen, hinit, hconditions, ExpressionHost.createAll_append]
    rcases hfirst : host.expressions.createAll (conditions config.matchConfigs) with
      ⟨_ | _, tokens, e⟩
    · exact ⟨[], by simp, by simp⟩
    · rw [hfirst] at hms
      have hms := hms rfl
      obtain ⟨gen, hrest, hgen⟩ := ih
        ⟨root.gen ++ [⟨PluginRootContext.evalPhase config.phase, config.outputAttribute, ms⟩],
          root.tokens ++ tokens⟩ { host with expressions := e }
      refine ⟨⟨PluginRootContext.evalPhase config.phase, config.outputAttribute, ms⟩ :: gen, ?_,
        fun h => ?_⟩
      · dsimp only
        rw [if_pos rfl]
        dsimp only [List.nil_append]
        rw [hrest]
        simp
      · obtain ⟨htranslates, htokens⟩ := hgen h
        refine ⟨.cons ⟨rfl, rfl, hms.source, fun m hm hne => ?_⟩ htranslates, ?_⟩
        · exact createAll_subset _ e (hms.compiled m hm hne)
        · rw [List.flatMap_cons, htokens, hms.tokens]

/-! ### The callbacks -/

section

variable {tokens : List UInt32} {host : Host} {m : Match} {ms : List Match}

/-- The host has been asked for evaluations of some of the tokens, and for nothing else. -/
structure Evaluates (tokens : List UInt32) (host host' : Host) : Prop where
  held : Held tokens host.expressions.events → Held tokens host'.expressions.events
  subset : host.expressions.events ⊆ host'.expressions.events

theorem Evaluates.refl (tokens : List UInt32) (host : Host) : Evaluates tokens host host :=
  ⟨id, fun _ h => h⟩

theorem Evaluates.trans {host' host'' : Host} (h : Evaluates tokens host host')
    (h' : Evaluates tokens host' host'') : Evaluates tokens host host'' :=
  ⟨h'.held ∘ h.held, fun _ hmem => h'.subset (h.subset hmem)⟩

theorem Match.evaluate_evaluates (hm : m.condition ≠ [] → m.conditionToken ∈ tokens) :
    Evaluates tokens host (m.evaluate host).2 := by
  unfold Match.evaluate
  split_ifs with hempty
  · exact .refl tokens host
  · have hne : m.condition ≠ [] := fun h => hempty (List.isEmpty_iff.2 h)
    have hcall : Evaluates tokens host (host.exprEvaluate m.conditionToken).2 :=
      ⟨fun h => h.evaluate (hm hne), fun _ h => List.mem_cons_of_mem _ h⟩
    split
    · rename_i heq
      rw [heq] at hcall
      exact hcall
    · rename_i heq
      rw [heq] at hcall
      exact hcall

theorem evaluateMatches_evaluates
    (hms : ∀ m ∈ ms, m.condition ≠ [] → m.conditionToken ∈ tokens) :
    Evaluates tokens host (evaluateMatches ms host).2 := by
  induction ms generalizing host with
  | nil => exact .refl tokens host
  | cons m ms ih =>
    have hfirst : Evaluates tokens host (m.evaluate host).2 :=
      Match.evaluate_evaluates (hms m List.mem_cons_self)
    have hrest := fun host => @ih host fun m' hm' => hms m' (List.mem_cons_of_mem _ hm')
    unfold evaluateMatches
    rcases hm : m.evaluate host with ⟨_ | _ | _, host'⟩ <;> rw [hm] at hfirst
    · exact hfirst
    · exact hfirst.trans (hrest host')
    · exact hfirst

theorem generate_evaluates {phase : EvalPhase} {g : AttributeGenerator}
    (hg : ∀ token ∈ matchTokens g.matchList, token ∈ tokens) :
    Evaluates tokens host (generate phase g host) := by
  have hmatches : Evaluates tokens host (g.evaluate host).2 := by
    refine evaluateMatches_evaluates fun m hm hne => hg _ (List.mem_map.2 ⟨m, ?_, rfl⟩)
    exact List.mem_filter.2 ⟨hm, by simpa using hne⟩
  unfold generate
  split_ifs
  · exact .refl tokens host
  · rcases hg : g.evaluate host with ⟨_ | _ | _, host'⟩ <;> rw [hg] at hmatches
    · exact ⟨hmatches.held, hmatches.subset⟩
    · exact hmatches
    · exact ⟨hmatches.held, hmatches.subset⟩

theorem attributeGen_evaluates {phase : EvalPhase} {root : PluginRootContext}
    (hroot : root.gen.flatMap (fun g => matchTokens g.matchList) = root.tokens) :
    Evaluates root.tokens host (root.attributeGen phase host) := by
  have hgen : ∀ g ∈ root.gen, ∀ token ∈ matchTokens g.matchList, token ∈ root.tokens := by
    intro g hg token htoken
    rw [← hroot]
    exact List.mem_flatMap.2 ⟨g, hg, htoken⟩
  unfold PluginRootContext.attributeGen
  generalize root.gen = gen at hgen
  induction gen generalizing host with
  | nil => exact .refl _ host
  | cons g gen ih =>
    exact (generate_evaluates (hgen g List.mem_cons_self)).trans
      (ih fun g' hg' => hgen g' (List.mem_cons_of_mem _ hg'))

end

/-- What holds between two callbacks. -/
structure Consistent (parse : Bytes → Option PluginConfig) (s : State) : Prop where
  /-- `tokens_` has the live tokens, each of them once, and all tokens were used while live. -/
  held : Held s.root.tokens s.host.expressions.events
  /-- The conditions of the generators refer to these tokens. -/
  referenced : s.root.gen.flatMap (fun g => matchTokens g.matchList) = s.root.tokens
  /-- The generators are those of one configuration. -/
  complete : s.root.gen = [] ∨ ∃ configuration config, parse configuration = some config ∧
    config.Translates s.host.expressions.events s.root.gen

/-- All expressions of the configuration are accepted, when the host is asked for them after the
old ones were deleted. -/
def Accepted (s : State) (answers : List (Option UInt32)) (config : PluginConfig) : Prop :=
  (((s.host.prepare answers []).expressions.deleteAll s.root.tokens).createAll
    config.conditions).1 = true

/-- What a callback makes of the generators. -/
def Callback (parse : Bytes → Option PluginConfig) (s : State) : Label → State → Prop
  | .onConfigure configuration answers, s' =>
    match parse configuration with
    | none => s'.root = s.root
    | some config =>
      (Accepted s answers config → config.Translates s'.host.expressions.events s'.root.gen) ∧
      (¬ Accepted s answers config → s'.root.gen = [])
  | .attributeGen _ _, s' => s'.root = s.root
  | .onDone, s' => s'.root.gen = []

variable {parse : Bytes → Option PluginConfig} {s s' : State}

theorem consistent_start : Consistent parse .start := ⟨.nil, rfl, .inl rfl⟩

theorem Consistent.onDone (h : Consistent parse s)
    (hn : (pluginMachine parse).next s .onDone = some s') :
    Consistent parse s' ∧ Callback parse s .onDone s' := by
  obtain rfl := Option.some.inj hn
  exact ⟨⟨h.held.deleteAll, rfl, .inl rfl⟩, rfl⟩

theorem Consistent.attributeGen (h : Consistent parse s) {phase : EvalPhase}
    {evaluations : List (WasmResult × Bytes)}
    (hn : (pluginMachine parse).next s (.attributeGen phase evaluations) = some s') :
    Consistent parse s' ∧ Callback parse s (.attributeGen phase evaluations) s' := by
  obtain rfl := Option.some.inj hn
  have hevaluates : Evaluates s.root.tokens (s.host.prepare [] evaluations)
      (s.root.attributeGen phase (s.host.prepare [] evaluations)) :=
    attributeGen_evaluates h.referenced
  refine ⟨⟨hevaluates.held h.held, h.referenced, ?_⟩, rfl⟩
  rcases h.complete with hnil | ⟨configuration, config, hparse, htranslates⟩
  · exact .inl hnil
  · exact .inr ⟨configuration, config, hparse, htranslates.mono hevaluates.subset⟩

theorem Consistent.onConfigure (h : Consistent parse s) {configuration : Bytes}
    {answers : List (Option UInt32)}
    (hn : (pluginMachine parse).next s (.onConfigure configuration answers) = some s') :
    Consistent parse s' ∧ Callback parse s (.onConfigure configuration answers) s' := by
  cases hparse : parse configuration with
  | none =>
    simp only [pluginMachine, PluginRootContext.onConfigure, hparse] at hn
    obtain rfl := Option.some.inj hn
    exact ⟨⟨h.held, h.referenced, h.complete⟩, by simp only [Callback, hparse]⟩
  | some config =>
    have hclean :
        Held [] ((s.host.prepare answers []).expressions.deleteAll s.root.tokens).events :=
      Held.deleteAll h.held
    have hheld := hclean.createAll config.conditions
    rw [List.nil_append] at hheld
    obtain ⟨gen, hinit, hgen⟩ := initAttributeGen_eq config.attributes ⟨[], []⟩
      { s.host.prepare answers [] with
        expressions := (s.host.prepare answers []).expressions.deleteAll s.root.tokens }
    simp only [pluginMachine, PluginRootContext.onConfigure, hparse,
      PluginRootContext.cleanupAttributeGen, hinit] at hn
    simp only [Callback, hparse]
    by_cases haccepted : Accepted s answers config
    · obtain ⟨htranslates, htokens⟩ := hgen haccepted
      have hok : (((s.host.prepare answers []).expressions.deleteAll s.root.tokens).createAll
        (attributeConditions config.attributes)).1 = true := haccepted
      rw [hok] at hn
      obtain rfl := Option.some.inj hn
      exact ⟨⟨hheld, htokens, .inr ⟨configuration, config, hparse, htranslates⟩⟩,
        fun _ => htranslates, fun hno => absurd haccepted hno⟩
    · have hok : (((s.host.prepare answers []).expressions.deleteAll s.root.tokens).createAll
        (attributeConditions config.attributes)).1 = false := Bool.eq_false_iff.2 haccepted
      rw [hok] at hn
      obtain rfl := Option.some.inj hn
      exact ⟨⟨hheld.deleteAll, rfl, .inl rfl⟩, fun hyes => absurd hyes haccepted, fun _ => rfl⟩

theorem Consistent.next (h : Consistent parse s) {l : Label}
    (hn : (pluginMachine parse).next s l = some s') :
    Consistent parse s' ∧ Callback parse s l s' := by
  cases l with
  | onConfigure configuration answers => exact h.onConfigure hn
  | attributeGen phase evaluations => exact h.attributeGen hn
  | onDone => exact h.onDone hn

/-- **In every run of the callbacks the tokens are the live ones, the conditions refer to them, and
the generators are those of one configuration or none**; a configuration with a rejected expression
leaves none, and one that cannot be parsed leaves them as they are. -/
theorem generators_consistent (h : (pluginMachine parse).Reaches (fun _ _ => True) .start s) :
    Consistent parse s ∧
      ∀ l s', (pluginMachine parse).next s l = some s' → Callback parse s l s' := by
  have hs : Consistent parse s :=
    h.invariant consistent_start fun _ _ _ hs _ hn => (hs.next hn).1
  exact ⟨hs, fun l s' hn => (hs.next hn).2⟩

/-- Two conditions and a value without one. -/
def sampleConfig : PluginConfig where
  attributes := [
    ⟨.ON_REQUEST, bytes "a", [⟨bytes "x", bytes "1"⟩, ⟨[], bytes "2"⟩]⟩,
    ⟨.ON_LOG, bytes "b", [⟨bytes "y", bytes "3"⟩]⟩]

/-- The second expression of a configuration is rejected, the next configuration is accepted, and a
request comes. -/
theorem generators_consistent_retry : ∃ s : State, s.root.tokens = [8, 9] ∧
    s.host.filterState = [(bytes "a", bytes "2")] ∧
    Consistent (fun _ => some sampleConfig) s ∧ ∀ l s',
      (pluginMachine fun _ => some sampleConfig).next s l = some s' →
        Callback (fun _ => some sampleConfig) s l s' := by
  have hrun : ((pluginMachine fun _ => some sampleConfig).run (fun _ _ => True) .start
      [.onConfigure [] [some 7, none], .onConfigure [] [some 8, some 9],
       .attributeGen .OnRequest [(.Ok, [0])]]).isSome := by decide
  exact ⟨_, rfl, rfl, generators_consistent (.of_isSome hrun)⟩

end AttributeGen

end WasmExtensions
