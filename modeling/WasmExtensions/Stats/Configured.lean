import WasmExtensions.Stats.Configure
import WasmExtensions.Stats.Noninterference
import Mathlib.Data.List.Perm.Subperm
import Mathlib.Logic.Relation

/-!
# What a configuration of the stats plugin leaves behind

Whatever the configuration says, `buildMetrics` makes only six kinds of moves (`Move`).  So what is
true of the default metrics and is kept by the moves is true of all that a configuration builds:

* all indexes of tags are inside the vector of dimensions (`IndexesInRange`);
* a metric has the values of a default metric only if it is that default metric (`Defined`);
* the expressions of the definitions are among the int expressions (`Defined`).
-/

namespace WasmExtensions

namespace Stats

/-! ### Moves -/

/-- What a visit of a configuration may do to the variables. -/
inductive Move (b : Building) : Building → Prop
  /-- An expression was not created. -/
  | failed {host : ExpressionHost} (hevents : host.events = b.host.events) :
      Move b { b with host := host }
  /-- A definition created an int expression. -/
  | defined {name value type : Bytes} {token : UInt32} {host : ExpressionHost}
      (hcreate : b.host.createExpression value = (some token, host)) :
      Move b { b with
        intExpressions := b.intExpressions ++ [token]
        host := host
        factories := define name token type b.factories }
  /-- An override created a string expression. -/
  | created {input : Bytes} {token : UInt32} {host : ExpressionHost}
      (hcreate : b.host.createExpression input = (some token, host)) :
      Move b { b with
        expressions := b.expressions ++ [token]
        inputExpressions := (input, b.expressions.length) :: b.inputExpressions
        host := host }
  /-- A metric got a tag. -/
  | tagged {metricTags : Bytes → List Bytes} : Move b { b with metricTags := metricTags }
  /-- A tag got an index. -/
  | indexed {name tag : Bytes} {index : Option ℕ}
      (hindex : ∀ i, index = some i → ∃ input position,
        (input, position) ∈ b.inputExpressions ∧ i = countStandardLabels + position) :
      Move b (b.setIndex name tag index)
  /-- Metrics were dropped, or put into another order. -/
  | selected {factories : List MetricFactory} (h : factories.Subperm b.factories) :
      Move b { b with factories := factories }

/-- Any number of moves. -/
abbrev Builds : Building → Building → Prop := Relation.ReflTransGen Move

variable {b b' b₀ : Building} {name tag : Bytes} {metric j : Json} {tags : List Bytes}

/-- What is kept by the moves. -/
theorem builds_invariant {I : Building → Prop} (h : Builds b b') (hb : I b)
    (hmove : ∀ b b', I b → Move b b' → I b') : I b' := by
  induction h with
  | refl => exact hb
  | tail _ hstep ih => exact hmove _ _ ih hstep

theorem builds_visitDefinition (definition : Json) : Builds b (visitDefinition definition b).2 := by
  unfold visitDefinition
  dsimp only
  split_ifs
  · exact .refl
  · unfold Expressions.addIntExpression
    cases hcreate : b.host.createExpression (stringField definition (bytes "value")) with
    | mk token host =>
      cases token with
      | none => exact .single (.failed (ExpressionHost.createExpression_eq_none hcreate))
      | some token => exact .single (.defined hcreate)

/-- The position of a string expression is known afterwards. -/
theorem builds_addStringExpression (input : Bytes) :
    Builds b { b with toExpressions := (b.addStringExpression input).2 } ∧
      ∀ position, (b.addStringExpression input).1 = some position →
        (input, position) ∈ (b.addStringExpression input).2.inputExpressions := by
  unfold Expressions.addStringExpression
  cases hlookup : b.inputExpressions.lookup input with
  | some position =>
    refine ⟨.refl, fun position' h => ?_⟩
    rw [← Option.some.inj h]
    obtain ⟨before, after, heq, -⟩ := List.lookup_eq_some_iff.1 hlookup
    rw [heq]
    exact List.mem_append_right _ List.mem_cons_self
  | none =>
    cases hcreate : b.host.createExpression input with
    | mk token host =>
      cases token with
      | none =>
        exact ⟨.single (.failed (ExpressionHost.createExpression_eq_none hcreate)),
          fun _ h => nomatch h⟩
      | some token =>
        refine ⟨.single (.created hcreate), fun position h => ?_⟩
        rw [← Option.some.inj h]
        exact List.mem_cons_self

theorem builds_visitTagToRemove (tag : Json) :
    Builds b (visitTagToRemove name tag b).2 ∧
      (visitTagToRemove name tag b).2.factories = b.factories := by
  unfold visitTagToRemove
  split
  · dsimp only
    split_ifs
    · exact ⟨.single (.indexed fun i h => nomatch h), rfl⟩
    · exact ⟨.refl, rfl⟩
  · exact ⟨.refl, rfl⟩

theorem builds_visitTag : Builds b (visitTag metric name tag b).2 ∧
    (visitTag metric name tag b).2.factories = b.factories := by
  unfold visitTag
  split
  · rename_i expression _
    obtain ⟨hbuilds, hposition⟩ := builds_addStringExpression (b := b) expression
    dsimp only
    have hindex : ∀ i, ((b.addStringExpression expression).1.map
        fun position => countStandardLabels + position) = some i → ∃ input position,
        (input, position) ∈ (b.addStringExpression expression).2.inputExpressions ∧
          i = countStandardLabels + position := by
      intro i hi
      obtain ⟨position, hsome, rfl⟩ := Option.map_eq_some_iff.1 hi
      exact ⟨_, position, hposition position hsome, rfl⟩
    split_ifs
    · exact ⟨hbuilds.trans (.single (.indexed hindex)), rfl⟩
    · exact ⟨(hbuilds.tail .tagged).tail (.indexed hindex), rfl⟩
  · exact ⟨.refl, rfl⟩

/-- Visits that only make moves, and leave the metrics, come to such moves together. -/
theorem builds_iterate {A : Type} {visitor : A → Building → Bool × Building} {as : List A}
    (hvisit : ∀ a b, Builds b (visitor a b).2 ∧ (visitor a b).2.factories = b.factories) :
    Builds b (iterate visitor as b).2 ∧ (iterate visitor as b).2.factories = b.factories := by
  refine iterate_invariant (I := fun b' => Builds b b' ∧ b'.factories = b.factories)
    (fun a _ b' hb' => ?_) ⟨.refl, rfl⟩
  obtain ⟨hbuilds, hfactories⟩ := hvisit a b'
  exact ⟨hb'.1.trans hbuilds, hfactories.trans hb'.2⟩

theorem builds_overrideTags (metric : Json) (tags : List Bytes) (name : Bytes) (b : Building) :
    Builds b (overrideTags metric tags name b).2 ∧
    (overrideTags metric tags name b).2.factories = b.factories := by
  unfold overrideTags
  have hremove : Builds b
        (jsonArrayIterate metric (bytes "tags_to_remove") (visitTagToRemove name) b).2 ∧
      (jsonArrayIterate metric (bytes "tags_to_remove") (visitTagToRemove name) b).2.factories =
        b.factories := by
    unfold jsonArrayIterate
    split
    · exact ⟨.refl, rfl⟩
    · exact builds_iterate fun tag b => builds_visitTagToRemove tag
    · exact ⟨.refl, rfl⟩
  cases hresult : jsonArrayIterate metric (bytes "tags_to_remove") (visitTagToRemove name) b with
  | mk done b' =>
    rw [hresult] at hremove
    cases done with
    | false => exact hremove
    | true =>
      have htags : Builds b' (iterate (visitTag metric name) tags b').2 ∧
          (iterate (visitTag metric name) tags b').2.factories = b'.factories :=
        builds_iterate fun _ _ => builds_visitTag
      exact ⟨hremove.1.trans htags.1, htags.2.trans hremove.2⟩

/-- The loop over the metrics drops some and changes the tags of others. -/
theorem builds_overrideFactories (metric : Json) (tags : List Bytes)
    (factories : List MetricFactory) (b : Building) :
    Builds b (overrideFactories metric tags factories b).2.2 ∧
      (overrideFactories metric tags factories b).2.2.factories = b.factories ∧
      (overrideFactories metric tags factories b).2.1.Sublist factories := by
  induction factories generalizing b with
  | nil => exact ⟨.refl, rfl, .refl _⟩
  | cons factory factories ih =>
    unfold overrideFactories
    dsimp only
    split_ifs
    · obtain ⟨hbuilds, hfactories, hleft⟩ := ih b
      exact ⟨hbuilds, hfactories, hleft.cons_cons factory⟩
    · obtain ⟨hbuilds, hfactories, hleft⟩ := ih b
      exact ⟨hbuilds, hfactories, hleft.cons factory⟩
    · have htags := builds_overrideTags metric tags factory.name b
      cases hresult : overrideTags metric tags factory.name b with
      | mk done b' =>
        rw [hresult] at htags
        cases done with
        | false => exact ⟨htags.1, htags.2, .refl _⟩
        | true =>
          obtain ⟨hbuilds, hfactories, hleft⟩ := ih b'
          exact ⟨htags.1.trans hbuilds, hfactories.trans htags.2, hleft.cons_cons factory⟩

theorem builds_visitMetric (metric : Json) : Builds b (visitMetric metric b).2 := by
  unfold visitMetric
  split
  · exact .refl
  · rename_i tags _
    obtain ⟨hbuilds, hfactories, hleft⟩ := builds_overrideFactories metric
      (tags.insertionSort (· ≤ ·)) b.factories b
    refine hbuilds.tail (.selected ?_)
    rw [hfactories]
    exact hleft.subperm

theorem builds_jsonArrayIterate {field : Bytes} {visitor : Json → Building → Bool × Building}
    (hvisit : ∀ j b, Builds b (visitor j b).2) : Builds b (jsonArrayIterate j field visitor b).2 :=
  jsonArrayIterate_invariant (I := fun b' => Builds b b')
    (fun _ _ a _ b' hb' => hb'.trans (hvisit a b')) .refl

/-- A configuration is a number of moves from the default metrics. -/
theorem builds_buildMetrics {order : MapOrder} {e : Expressions} :
    Builds (.start e) (buildMetrics j order e) := by
  unfold buildMetrics
  refine .trans (b := (jsonArrayIterate j (bytes "definitions") visitDefinition (.start e)).2)
    (builds_jsonArrayIterate fun j _ => builds_visitDefinition j) (.trans ?_
      (builds_jsonArrayIterate fun j _ => builds_visitMetric j))
  exact .single (.selected (order.perm _).subperm)

/-! ### Indexes -/

/-- All indexes are inside the vector of dimensions. -/
structure IndexesInRange (b : Building) : Prop where
  index : ∀ name tag i, b.metricIndexes name tag = some (some i) →
    i < countStandardLabels + b.expressions.length
  input : ∀ input position, (input, position) ∈ b.inputExpressions →
    position < b.expressions.length

theorem indexesInRange_start {e : Expressions} (he : e.inputExpressions = []) :
    IndexesInRange (.start e) where
  index name tag i h := by
    simp only [Building.start] at h
    split at h
    · obtain ⟨i', hi', heq⟩ := Option.map_eq_some_iff.1 h
      rw [← Option.some.inj heq]
      have hlt := (List.idxOf?_eq_some_iff.1 hi').1
      have htags : defaultTags.length = countStandardLabels := rfl
      rw [List.length_take, htags] at hlt
      omega
    · cases h
  input input position h := by
    rw [Building.start, he] at h
    cases h

theorem IndexesInRange.move (h : IndexesInRange b) (hmove : Move b b') : IndexesInRange b' := by
  cases hmove with
  | failed _ => exact ⟨h.index, h.input⟩
  | defined _ => exact ⟨h.index, h.input⟩
  | created _ =>
    refine ⟨fun name tag i hi => ?_, fun input position hmem => ?_⟩
    · have hlt := h.index name tag i hi
      simp only [List.length_append, List.length_singleton]
      omega
    · simp only [List.length_append, List.length_singleton]
      rcases List.mem_cons.1 hmem with heq | hmem
      · have hposition := (Prod.mk.inj heq).2
        omega
      · have hlt := h.input input position hmem
        omega
  | tagged => exact ⟨h.index, h.input⟩
  | indexed hindex =>
    refine ⟨fun name tag i hi => ?_, h.input⟩
    simp only [Building.setIndex] at hi
    split_ifs at hi
    · obtain ⟨input, position, hmem, rfl⟩ := hindex i (Option.some.inj hi)
      have hlt := h.input input position hmem
      exact Nat.add_lt_add_left hlt _
    · exact h.index name tag i hi
  | selected _ => exact ⟨h.index, h.input⟩

/-! ### Metrics -/

/-- The metrics have different names, and each is a default metric or has been defined, with one of
the expressions `tokens`. -/
structure Defined (tokens : List UInt32) (factories : List MetricFactory) : Prop where
  nodup : (factories.map MetricFactory.name).Nodup
  factory : ∀ factory ∈ factories, factory ∈ defaultMetrics ∨
    factory.protocols = httpAndGrpc ∧ ∃ token ∈ tokens, factory.extractor = .expression token

variable {type : Bytes} {token : UInt32} {tokens : List UInt32}
  {factory : MetricFactory} {factories factories' : List MetricFactory}

theorem defined_defaultMetrics : Defined tokens defaultMetrics where
  nodup := by decide +kernel
  factory _ h := .inl h

theorem map_name_define : (define name token type factories).map MetricFactory.name =
    if name ∈ factories.map MetricFactory.name then factories.map MetricFactory.name
    else factories.map MetricFactory.name ++ [name] := by
  induction factories with
  | nil => rfl
  | cons factory factories ih =>
    unfold define
    by_cases hname : factory.name = name
    · rw [if_pos hname, List.map_cons, List.map_cons, hname, if_pos List.mem_cons_self]; rfl
    · rw [if_neg hname, List.map_cons, List.map_cons, ih]
      by_cases hmem : name ∈ factories.map MetricFactory.name
      · rw [if_pos hmem, if_pos (List.mem_cons_of_mem _ hmem)]
      · have hmem' : name ∉ factory.name :: factories.map MetricFactory.name := by
          rw [List.mem_cons, not_or]
          exact ⟨Ne.symm hname, hmem⟩
        rw [if_neg hmem, if_neg hmem']; rfl

theorem mem_define (h : factory ∈ define name token type factories) :
    factory ∈ factories ∨ ∃ countLabels, factory = definedFactory name token type countLabels := by
  induction factories with
  | nil => exact .inr ⟨0, List.mem_singleton.1 h⟩
  | cons first factories ih =>
    unfold define at h
    split_ifs at h
    · rcases List.mem_cons.1 h with heq | hmem
      · exact .inr ⟨_, heq⟩
      · exact .inl (List.mem_cons_of_mem _ hmem)
    · rcases List.mem_cons.1 h with heq | hmem
      · exact .inl (heq ▸ List.mem_cons_self)
      · exact (ih hmem).imp_left (List.mem_cons_of_mem _)

theorem Defined.define (h : Defined tokens factories) :
    Defined (tokens ++ [token]) (define name token type factories) where
  nodup := by
    rw [map_name_define]
    split_ifs with hmem
    · exact h.nodup
    · exact List.nodup_append.2 ⟨h.nodup, List.nodup_singleton _, fun a ha b hb => by
        rw [List.mem_singleton.1 hb]
        exact fun heq => hmem (heq ▸ ha)⟩
  factory factory hfactory := by
    rcases mem_define hfactory with hmem | ⟨countLabels, rfl⟩
    · refine (h.factory factory hmem).imp_right fun ⟨hprotocols, t, ht, hextractor⟩ => ?_
      exact ⟨hprotocols, t, List.mem_append_left _ ht, hextractor⟩
    · exact .inr ⟨rfl, token, List.mem_append_right _ (List.mem_singleton_self _), rfl⟩

theorem Defined.subperm (h : Defined tokens factories) (hsub : factories'.Subperm factories) :
    Defined tokens factories' where
  nodup := by
    obtain ⟨factories'', hperm, hsublist⟩ := hsub
    exact (hperm.map _).nodup_iff.1 (h.nodup.sublist (hsublist.map _))
  factory factory hfactory := h.factory factory (hsub.subset hfactory)

theorem Defined.move (h : Defined b.intExpressions b.factories) (hmove : Move b b') :
    Defined b'.intExpressions b'.factories := by
  cases hmove with
  | failed _ => exact h
  | defined _ => exact h.define
  | created _ => exact h
  | tagged => exact h
  | indexed _ => exact h
  | selected hsub => exact h.subperm hsub

/-! ### Generators -/

/-- The generator is made of the factory. -/
structure Instantiates (statgen : StatGen) (factory : MetricFactory) : Prop where
  name : statgen.metric.name = bytes "istio_" ++ factory.name
  type : statgen.metric.type = factory.type
  extractor : statgen.extractor = factory.extractor
  protocols : statgen.protocols = factory.protocols
  recurrent : statgen.recurrent = factory.recurrent

theorem instantiates_statGen {fieldSeparator valueSeparator : Bytes} :
    Instantiates (b.statGen fieldSeparator valueSeparator factory) factory :=
  ⟨rfl, rfl, rfl, rfl, rfl⟩

theorem indexes_statGen (h : IndexesInRange b) {fieldSeparator valueSeparator : Bytes} {i : ℕ}
    (hi : i ∈ (b.statGen fieldSeparator valueSeparator factory).indexes) :
    i < countStandardLabels + b.expressions.length := by
  obtain ⟨⟨tag, i'⟩, hmem, rfl⟩ := List.mem_map.1 hi
  obtain ⟨tag', -, htag⟩ := List.mem_filterMap.1 hmem
  obtain ⟨i', hindex, heq⟩ := Option.map_eq_some_iff.1 htag
  rw [← (Prod.mk.inj heq).2]
  exact h.index _ _ _ (Option.join_eq_some_iff.1 hindex)

/-- Resolving keeps the extractors. -/
theorem map_valueFn_of_mapM {statgens : List StatGen} {d : IstioDimensions}
    {stats : List SimpleStat}
    (h : statgens.mapM (fun statgen => statgen.resolve d) = some stats) :
    stats.map SimpleStat.valueFn = statgens.map StatGen.extractor := by
  induction statgens generalizing stats with
  | nil => rw [← Option.some.inj h]; rfl
  | cons statgen statgens ih =>
    rw [List.mapM_cons] at h
    obtain ⟨stat, hstat, h⟩ := Option.bind_eq_some_iff.1 h
    obtain ⟨stats', hstats', h⟩ := Option.bind_eq_some_iff.1 h
    obtain ⟨metricId, -, hstat⟩ := Option.map_eq_some_iff.1 hstat
    rw [← Option.some.inj h, List.map_cons, List.map_cons, ih hstats', ← hstat]

/-- What a resolved metric has from its generator. -/
theorem StatGen.resolve_eq_some {statgen : StatGen} {d : IstioDimensions} {stat : SimpleStat}
    (h : statgen.resolve d = some stat) :
    stat.recurrent = statgen.recurrent ∧ stat.valueFn = statgen.extractor ∧
      stat.type = statgen.metric.type := by
  obtain ⟨metricId, -, rfl⟩ := Option.map_eq_some_iff.1 h
  exact ⟨rfl, rfl, rfl⟩

theorem exists_of_mem_mapM {A B : Type} {f : A → Option B} {as : List A} {bs : List B} {b : B}
    (h : as.mapM f = some bs) (hmem : b ∈ bs) : ∃ a ∈ as, f a = some b := by
  induction as generalizing bs with
  | nil =>
    rw [← Option.some.inj h] at hmem
    cases hmem
  | cons a as ih =>
    rw [List.mapM_cons] at h
    obtain ⟨first, hfirst, h⟩ := Option.bind_eq_some_iff.1 h
    obtain ⟨rest, hrest, h⟩ := Option.bind_eq_some_iff.1 h
    rw [← Option.some.inj h] at hmem
    rcases List.mem_cons.1 hmem with rfl | hmem
    · exact ⟨a, List.mem_cons_self, hfirst⟩
    · obtain ⟨a', ha', hb⟩ := ih hrest hmem
      exact ⟨a', List.mem_cons_of_mem _ ha', hb⟩

/-- Each metric was resolved by one of the generators. -/
theorem exists_resolved {statgens : List StatGen} {d : IstioDimensions} {stats : List SimpleStat}
    {stat : SimpleStat} (h : statsOf statgens d = some stats) (hmem : stat ∈ stats) :
    ∃ statgen ∈ statgens, statgen.resolve d = some stat := by
  obtain ⟨statgen, hstatgen, hresolve⟩ := exists_of_mem_mapM h hmem
  exact ⟨statgen, (List.mem_filter.1 hstatgen).1, hresolve⟩

theorem map_extractor {statgens : List StatGen}
    (h : List.Forall₂ Instantiates statgens factories) :
    statgens.map StatGen.extractor = factories.map MetricFactory.extractor := by
  induction h with
  | nil => rfl
  | cons hfirst _ ih => rw [List.map_cons, List.map_cons, hfirst.extractor, ih]

theorem exists_factory {statgens : List StatGen} {statgen : StatGen}
    (h : List.Forall₂ Instantiates statgens factories)
    (hmem : statgen ∈ statgens) : ∃ factory ∈ factories, Instantiates statgen factory := by
  induction h with
  | nil => cases hmem
  | cons hfirst _ ih =>
    rcases List.mem_cons.1 hmem with rfl | hmem
    · exact ⟨_, List.mem_cons_self, hfirst⟩
    · obtain ⟨factory, hfactory, hinst⟩ := ih hmem
      exact ⟨factory, List.mem_cons_of_mem _ hfactory, hinst⟩

/-- No other metric has the extractor of a default metric. -/
theorem Defined.eq_of_extractor (h : Defined tokens factories) {default : MetricFactory}
    (hmem : factory ∈ factories) (hdefault : default ∈ defaultMetrics)
    (hextractor : factory.extractor = default.extractor) : factory = default := by
  have hnodup : (defaultMetrics.map MetricFactory.extractor).Nodup := by decide +kernel
  have htoken : ∀ default ∈ defaultMetrics, ∀ token, default.extractor ≠ .expression token := by
    intro default hmem token heq
    simp only [defaultMetrics, List.mem_cons, List.not_mem_nil, or_false] at hmem
    rcases hmem with rfl | rfl | rfl | rfl | rfl | rfl | rfl | rfl | rfl | rfl <;> cases heq
  rcases h.factory factory hmem with hmem' | ⟨-, token, -, heq⟩
  · exact List.inj_on_of_nodup_map hnodup hmem' hdefault hextractor
  · exact absurd (hextractor.symm.trans heq) (htoken default hdefault token)

/-- The generators are those of some configuration. -/
def Built (statgens : List StatGen) : Prop :=
  ∃ tokens factories, Defined tokens factories ∧ List.Forall₂ Instantiates statgens factories

namespace Built

variable {statgens : List StatGen} {statgen : StatGen} {default : MetricFactory}
  {d : IstioDimensions} {stats : List SimpleStat} {stat : SimpleStat}

/-- What is recorded by the extractor of a default metric is recorded for that metric. -/
theorem instantiates (h : Built statgens) (hmem : statgen ∈ statgens)
    (hdefault : default ∈ defaultMetrics) (hextractor : statgen.extractor = default.extractor) :
    Instantiates statgen default := by
  obtain ⟨tokens, factories, hdefined, hall⟩ := h
  obtain ⟨factory, hfactory, hinst⟩ := exists_factory hall hmem
  rwa [hdefined.eq_of_extractor hfactory hdefault (hinst.extractor.symm.trans hextractor)] at hinst

theorem count_extractor_le_one (h : Built statgens) (hdefault : default ∈ defaultMetrics) :
    (statgens.map StatGen.extractor).count default.extractor ≤ 1 := by
  obtain ⟨tokens, factories, hdefined, hall⟩ := h
  rw [map_extractor hall, List.count, List.countP_map]
  have hnodup : factories.Nodup := hdefined.nodup.of_map _
  refine Nat.le_trans ?_ (List.nodup_iff_count_le_one.1 hnodup default)
  refine List.countP_mono_left fun factory hmem hextractor => ?_
  exact beq_iff_eq.2 (hdefined.eq_of_extractor hmem hdefault (beq_iff_eq.1 hextractor))

theorem count_statsOf_le_one (h : Built statgens) (hdefault : default ∈ defaultMetrics)
    (hstats : statsOf statgens d = some stats) :
    (stats.map SimpleStat.valueFn).count default.extractor ≤ 1 := by
  rw [map_valueFn_of_mapM hstats]
  refine Nat.le_trans ?_ (h.count_extractor_le_one hdefault)
  exact (List.filter_sublist.map _).count_le _

/-- A default metric that is configured is resolved for the vectors of its protocols. -/
theorem mem_statsOf (h : Built statgens) (hdefault : default ∈ defaultMetrics)
    (hprotocol : default.protocols &&& (protocolOf d).toUInt32 ≠ 0)
    (hstats : statsOf statgens d = some stats)
    (hkept : ∃ statgen ∈ statgens, statgen.extractor = default.extractor) :
    default.extractor ∈ stats.map SimpleStat.valueFn := by
  obtain ⟨statgen, hmem, hextractor⟩ := hkept
  rw [map_valueFn_of_mapM hstats, ← hextractor]
  refine List.mem_map_of_mem (List.mem_filter.2 ⟨hmem, ?_⟩)
  unfold StatGen.matchesProtocol
  rw [(h.instantiates hmem hdefault hextractor).protocols]
  exact bne_iff_ne.2 hprotocol

/-- A metric with the extractor of a default metric is resolved as that metric. -/
theorem of_valueFn (h : Built statgens) (hdefault : default ∈ defaultMetrics)
    (hstats : statsOf statgens d = some stats) (hmem : stat ∈ stats)
    (hvalueFn : stat.valueFn = default.extractor) :
    stat.recurrent = default.recurrent ∧ stat.type = default.type := by
  obtain ⟨statgen, hstatgen, hresolve⟩ := exists_resolved hstats hmem
  obtain ⟨hrecurrent, hextractor, htype⟩ := StatGen.resolve_eq_some hresolve
  have hinst := h.instantiates hstatgen hdefault (hextractor.symm.trans hvalueFn)
  exact ⟨hrecurrent.trans hinst.recurrent, htype.trans hinst.type⟩

end Built

/-! ### The root context -/

/-- What is true of a root context whatever it has been configured with. -/
structure RootContext.Wf (root : RootContext) : Prop where
  expressions : root.initialized = true →
    countStandardLabels + root.expressions.length ≤ root.istioDimensions.length
  indexes : root.initialized = true → ∀ statgen ∈ root.stats, ∀ i ∈ statgen.indexes,
    i < root.istioDimensions.length
  stats : ∃ tokens factories, Defined tokens factories ∧
    List.Forall₂ Instantiates root.stats factories

theorem RootContext.wf_new {outbound useHostHeaderFallback : Bool} :
    (RootContext.new outbound useHostHeaderFallback).Wf where
  expressions h := nomatch h
  indexes h := nomatch h
  stats := ⟨[], [], ⟨List.nodup_nil, fun _ h => nomatch h⟩, .nil⟩

variable {lib : JsonLibrary} {parseDuration : Bytes → Option UInt32} {call : ConfigureCall}
  {root : RootContext} {host : Host} {order : MapOrder} {e : Expressions}

theorem indexesInRange_buildMetrics (he : e.inputExpressions = []) :
    IndexesInRange (buildMetrics j order e) :=
  builds_invariant builds_buildMetrics (indexesInRange_start he) fun _ _ h hmove => h.move hmove

theorem defined_buildMetrics :
    Defined (buildMetrics j order e).intExpressions (buildMetrics j order e).factories :=
  builds_invariant (I := fun b => Defined b.intExpressions b.factories) builds_buildMetrics
    defined_defaultMetrics fun _ _ h hmove => h.move hmove

/-! ### Metrics that are kept -/

/-- The override drops the metrics with this name. -/
def Drops (metric : Json) (name : Bytes) : Prop :=
  (stringField metric (bytes "name") = [] ∨ stringField metric (bytes "name") = name) ∧
    valueOr (jsonGetField jsonValueAsBool metric (bytes "drop")) false = true

/-- The configuration neither redefines nor drops the metric with this name. -/
structure KeepsMetric (j : Json) (name : Bytes) : Prop where
  notDefined : ∀ definitions, j.find (bytes "definitions") = some (.array definitions) →
    ∀ definition ∈ definitions, stringField definition (bytes "name") ≠ name
  notDropped : ∀ metrics, j.find (bytes "metrics") = some (.array metrics) →
    ∀ metric ∈ metrics, ¬ Drops metric name

theorem mem_define_of_ne (hmem : factory ∈ factories) (hne : name ≠ factory.name) :
    factory ∈ define name token type factories := by
  induction factories with
  | nil => cases hmem
  | cons first factories ih =>
    unfold define
    rcases List.mem_cons.1 hmem with rfl | hmem
    · rw [if_neg (Ne.symm hne)]
      exact List.mem_cons_self
    · split_ifs
      · exact List.mem_cons_of_mem _ hmem
      · exact List.mem_cons_of_mem _ (ih hmem)

theorem mem_visitDefinition {definition : Json} (hmem : factory ∈ b.factories)
    (hne : stringField definition (bytes "name") ≠ factory.name) :
    factory ∈ (visitDefinition definition b).2.factories := by
  unfold visitDefinition
  dsimp only
  split_ifs
  · exact hmem
  · cases b.addIntExpression (stringField definition (bytes "value")) with
    | mk token e =>
      cases token with
      | none => exact hmem
      | some token => exact mem_define_of_ne hmem hne

theorem mem_overrideFactories (hmem : factory ∈ factories) (hdrops : ¬ Drops metric factory.name) :
    factory ∈ (overrideFactories metric tags factories b).2.1 := by
  induction factories generalizing b with
  | nil => cases hmem
  | cons first factories ih =>
    unfold overrideFactories
    dsimp only
    split_ifs with hother hdrop
    · rcases List.mem_cons.1 hmem with rfl | hmem
      · exact List.mem_cons_self
      · exact List.mem_cons_of_mem _ (ih hmem)
    · rcases List.mem_cons.1 hmem with rfl | hmem
      · refine absurd ⟨?_, hdrop⟩ hdrops
        simpa [or_iff_not_imp_left] using hother
      · exact ih hmem
    · cases overrideTags metric tags first.name b with
      | mk done b' =>
        cases done with
        | false => exact hmem
        | true =>
          rcases List.mem_cons.1 hmem with rfl | hmem
          · exact List.mem_cons_self
          · exact List.mem_cons_of_mem _ (ih hmem)

theorem mem_visitMetric (hmem : factory ∈ b.factories) (hdrops : ¬ Drops metric factory.name) :
    factory ∈ (visitMetric metric b).2.factories := by
  unfold visitMetric
  split
  · exact hmem
  · exact mem_overrideFactories hmem hdrops

/-- A default metric that the configuration keeps is built. -/
theorem mem_buildMetrics (hdefault : factory ∈ defaultMetrics) (h : KeepsMetric j factory.name) :
    factory ∈ (buildMetrics j order e).factories := by
  refine jsonArrayIterate_invariant (I := fun b : Building => factory ∈ b.factories)
    (fun metrics hfind metric hmetric b hb => ?_) ((order.perm _).mem_iff.2 ?_)
  · exact mem_visitMetric hb (h.notDropped metrics hfind metric hmetric)
  · refine jsonArrayIterate_invariant (I := fun b : Building => factory ∈ b.factories)
      (fun definitions hfind definition hdefinition b hb => ?_) hdefault
    exact mem_visitDefinition hb (h.notDefined definitions hfind definition hdefinition)

theorem length_resize {n : ℕ} {dimensions : IstioDimensions} :
    (resize n dimensions).length = n := by
  unfold resize
  rw [List.length_append, List.length_take, List.length_replicate]
  omega

/-- The root context and the host after a configuration that has built `b`. -/
structure Installed (b : Building) (root root' : RootContext) (host' : Host) : Prop where
  initialized : root'.initialized = true
  expressions : root'.expressions = b.expressions
  inputExpressions : root'.inputExpressions = b.inputExpressions
  intExpressions : root'.intExpressions = b.intExpressions
  dimensions : root'.istioDimensions.length = countStandardLabels + b.expressions.length
  stats : ∃ fieldSeparator valueSeparator,
    root'.stats = b.factories.map (b.statGen fieldSeparator valueSeparator)
  metrics : root'.metrics = root.metrics
  requestQueue : root'.requestQueue = root.requestQueue
  host : host'.toExpressionHost = b.host

/-- The building of a configuration starts when the old expressions have been deleted. -/
def ConfigureCall.building (call : ConfigureCall) (j : Json) (root : RootContext) (host : Host) :
    Building :=
  buildMetrics j call.mapOrder
    (root.toExpressions { host.toExpressionHost with answers := call.answers }).cleanupExpressions

/-- A configuration that can be parsed builds the metrics anew. -/
theorem onConfigure_of_parsed (parseDuration : Bytes → Option UInt32) (root : RootContext)
    (host : Host) (hparse : jsonParse lib call.configuration = some j) :
    Installed (call.building j root host) root (onConfigure lib parseDuration call root host).1
      (onConfigure lib parseDuration call root host).2 := by
  unfold onConfigure configure
  rw [hparse]
  refine ⟨rfl, rfl, rfl, rfl, ?_, ⟨_, _, rfl⟩, rfl, rfl, rfl⟩
  show (mapNode _ _ (assign _ _ _)).length = _
  rw [length_mapNode, length_assign, length_resize]
  rfl

/-- A configuration that cannot be parsed only turns the plugin off. -/
theorem onConfigure_of_not_parsed (hparse : jsonParse lib call.configuration = none) :
    onConfigure lib parseDuration call root host =
      ({ root with initialized := false }, { host with answers := call.answers }) := by
  unfold onConfigure configure
  rw [hparse]

/-- No configuration touches the cache of metrics. -/
theorem metrics_onConfigure :
    (onConfigure lib parseDuration call root host).1.metrics = root.metrics := by
  cases hparse : jsonParse lib call.configuration with
  | none => rw [onConfigure_of_not_parsed hparse]
  | some j => exact (onConfigure_of_parsed parseDuration root host hparse).metrics

/-- Nor the queue. -/
theorem requestQueue_onConfigure :
    (onConfigure lib parseDuration call root host).1.requestQueue = root.requestQueue := by
  cases hparse : jsonParse lib call.configuration with
  | none => rw [onConfigure_of_not_parsed hparse]
  | some j => exact (onConfigure_of_parsed parseDuration root host hparse).requestQueue

theorem forall₂_instantiates {fieldSeparator valueSeparator : Bytes} :
    List.Forall₂ Instantiates (factories.map (b.statGen fieldSeparator valueSeparator))
      factories := by
  induction factories with
  | nil => exact .nil
  | cons factory factories ih => exact .cons instantiates_statGen ih

theorem RootContext.Wf.onConfigure (h : root.Wf) (lib : JsonLibrary)
    (parseDuration : Bytes → Option UInt32) (call : ConfigureCall) (host : Host) :
    (onConfigure lib parseDuration call root host).1.Wf := by
  cases hparse : jsonParse lib call.configuration with
  | none =>
    rw [onConfigure_of_not_parsed hparse]
    exact ⟨(fun hinit => nomatch hinit), (fun hinit => nomatch hinit), h.stats⟩
  | some j =>
    have hinstalled := onConfigure_of_parsed parseDuration root host hparse
    have hrange : IndexesInRange (call.building j root host) := indexesInRange_buildMetrics rfl
    obtain ⟨fieldSeparator, valueSeparator, hstats⟩ := hinstalled.stats
    refine ⟨fun _ => ?_, fun _ statgen hmem i hi => ?_, ?_⟩
    · rw [hinstalled.expressions, hinstalled.dimensions]
    · rw [hstats] at hmem
      obtain ⟨factory, -, rfl⟩ := List.mem_map.1 hmem
      rw [hinstalled.dimensions]
      exact indexes_statGen hrange hi
    · rw [hstats]
      exact ⟨_, _, defined_buildMetrics, forall₂_instantiates⟩

theorem RootContext.Wf.onDone (h : root.Wf) : (onDone root host).1.Wf where
  expressions hinit := Nat.le_trans (Nat.add_le_add_left (Nat.zero_le _) _) (h.expressions hinit)
  indexes := h.indexes
  stats := h.stats

/-- A report leaves what has been configured. -/
theorem RootContext.Wf.report (h : root.Wf) {libraries : Libraries} {reportCall : ReportCall}
    {r : Report} (hreport : report libraries root.toPluginRootContext reportCall = some r) :
    { root with toPluginRootContext := r.plugin }.Wf := by
  have hframe := report_frame hreport
  have hexpressions : r.plugin.expressions = root.expressions := by rw [hframe]
  have hinit : r.plugin.initialized = root.initialized := by rw [hframe]
  have hstats : r.plugin.stats = root.stats := by rw [hframe]
  have hlength : r.plugin.istioDimensions.length = root.istioDimensions.length := by
    rcases report_dimensions hreport with hsame | ⟨request, hbuild⟩
    · rw [hsame]
    · exact (buildDimensions_agree hbuild).length
  refine ⟨fun h' => ?_, fun h' statgen hmem i hi => ?_, ?_⟩
  · rw [hexpressions, hlength]
    exact h.expressions (hinit.symm.trans h')
  · rw [hlength]
    exact h.indexes (hinit.symm.trans h') statgen (hstats ▸ hmem) i hi
  · rw [hstats]
    exact h.stats

/-! ### Reports are defined -/

/-- A partial function that is defined on all elements can be mapped over the list. -/
theorem exists_mapM {A B : Type} {f : A → Option B} {as : List A}
    (h : ∀ a ∈ as, ∃ b, f a = some b) : ∃ bs, as.mapM f = some bs := by
  induction as with
  | nil => exact ⟨[], rfl⟩
  | cons a as ih =>
    obtain ⟨b, hb⟩ := h a List.mem_cons_self
    obtain ⟨bs, hbs⟩ := ih fun a' ha' => h a' (List.mem_cons_of_mem _ ha')
    refine ⟨b :: bs, ?_⟩
    rw [List.mapM_cons, hb, hbs]; rfl

theorem exists_resolve {statgen : StatGen} {dimensions : IstioDimensions}
    (h : ∀ i ∈ statgen.indexes, i < dimensions.length) :
    ∃ stat, statgen.resolve dimensions = some stat := by
  have hfields : ∃ fields, (statgen.metric.tags.zip statgen.indexes).mapM
      (fun p => dimensions[p.2]?.map fun value =>
        p.1 ++ statgen.metric.valueSeparator ++ value ++ statgen.metric.fieldSeparator) =
      some fields := by
    refine exists_mapM ?_
    rintro ⟨tag, i⟩ hpair
    have hlt := h i (List.of_mem_zip hpair).2
    dsimp only
    rw [List.getElem?_eq_getElem hlt]
    exact ⟨_, rfl⟩
  obtain ⟨fields, hfields⟩ := hfields
  rw [StatGen.resolve, StatGen.fullName_def, hfields]
  exact ⟨_, rfl⟩

theorem exists_evaluateExpressions (stream : StatsStream) {i : ℕ} {dimensions : IstioDimensions}
    (h : countStandardLabels + i + tokens.length ≤ dimensions.length) :
    ∃ dimensions', evaluateExpressions stream i tokens dimensions = some dimensions' := by
  induction tokens generalizing i dimensions with
  | nil => exact ⟨_, rfl⟩
  | cons token tokens ih =>
    rw [List.length_cons] at h
    unfold evaluateExpressions
    rw [if_pos (by omega)]
    exact ih (by rw [List.length_set]; omega)

theorem exists_statsOf {statgens : List StatGen} {dimensions : IstioDimensions}
    (h : ∀ statgen ∈ statgens, ∀ i ∈ statgen.indexes, i < dimensions.length) :
    ∃ stats, statsOf statgens dimensions = some stats :=
  exists_mapM fun statgen hmem => exists_resolve (h statgen (List.mem_filter.1 hmem).1)

/-- **Reports never leave the vector of dimensions**, whatever has been configured. -/
theorem RootContext.Wf.exists_report (h : root.Wf) (libraries : Libraries)
    (reportCall : ReportCall) :
    ∃ r, Stats.report libraries root.toPluginRootContext reportCall = some r := by
  cases hinit : root.initialized with
  | false => exact ⟨_, report_of_not_initialized hinit⟩
  | true =>
    cases hpopulate : populate libraries root.toPluginRootContext reportCall
        (peerOf libraries root.toPluginRootContext reportCall) with
    | none => exact ⟨_, report_of_waiting hpopulate⟩
    | some requestInfo =>
      rw [report_of_populated hinit hpopulate]
      have hlength := h.expressions hinit
      obtain ⟨d, hmap⟩ := Option.isSome_iff_exists.1
        ((map_isSome root.outbound (peerOf libraries root.toPluginRootContext reportCall).get
          requestInfo).2 (Nat.le_trans (Nat.le_add_right _ _) hlength))
      have hd : d.length = root.istioDimensions.length := by
        rw [(map_eq_finish hmap).2, length_finish]
        exact writes_mapRequest_mapPeer.length _
      obtain ⟨d', heval⟩ := exists_evaluateExpressions reportCall.stream (i := 0)
        (by rw [hd]; exact hlength)
      have hbuild : buildDimensions root.toPluginRootContext reportCall.stream
          (peerOf libraries root.toPluginRootContext reportCall).get requestInfo = some d' := by
        unfold buildDimensions
        rw [hmap]
        exact heval
      have hprotocol : protocolOf d' = requestInfo.requestProtocol := by
        rw [protocolOf_evaluateExpressions heval, protocolOf_map hmap]
      rw [hbuild, Option.bind_some]
      unfold recordReport
      dsimp only
      cases root.metrics d' with
      | some stats =>
        dsimp only
        split <;> exact ⟨_, rfl⟩
      | none =>
        have hlength' := (evaluateExpressions_frame heval).1.trans hd
        have hstats : ∃ stats, statsOf root.stats d' = some stats :=
          exists_statsOf fun statgen hmem i hi => hlength' ▸ h.indexes hinit statgen hmem i hi
        obtain ⟨stats, hstats⟩ := hstats
        dsimp only
        rw [resolveStats_eq, ← hprotocol]
        exact ⟨_, by rw [← statsOf, hstats]; rfl⟩

end Stats

end WasmExtensions
