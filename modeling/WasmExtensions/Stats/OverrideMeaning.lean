import WasmExtensions.Stats.OverrideRuns

/-!
# What overrides mean

Of the entries that apply to a metric, the last one that mentions a tag decides whether the metric
has the tag.  An entry that both removes a tag and lists it under its dimensions gives it a value,
because removals come first.  This is proved of all configurations whose entries can be read to the
end (`overrides_last_one_wins`).
-/

namespace WasmExtensions

namespace Stats

/-! ### Entries -/

/-- The entry applies to the metric with this name. -/
def Applies (metric : Json) (name : Bytes) : Prop :=
  stringField metric (bytes "name") = [] ∨ stringField metric (bytes "name") = name

/-- The entry lists the tag under its dimensions. -/
def Lists (metric : Json) (tag : Bytes) : Prop := (dimension metric tag).isSome = true

/-- The tag is among the tags to remove. -/
def Removes (metric : Json) (tag : Bytes) : Prop :=
  Json.string tag ∈ metric.elements (bytes "tags_to_remove")

def Mentions (metric : Json) (tag : Bytes) : Prop := Lists metric tag ∨ Removes metric tag

/-- The dimensions, if there are any, are strings that compile, and the tags to remove, if there are
any, are strings. -/
structure Readable (compiles : Bytes → Bool) (metric : Json) : Prop where
  dimensions : ∀ value, metric.find (bytes "dimensions") = some value → ∃ fields,
    value = .object fields ∧
      ∀ field ∈ fields, ∃ expression, field.2 = .string expression ∧ compiles expression = true
  tagsToRemove : ∀ value, metric.find (bytes "tags_to_remove") = some value → ∃ tags,
    value = .array tags ∧ ∀ tag ∈ tags, ∃ s, tag = .string s

/-- The override is what the entry says. -/
structure Reads (compiles : Bytes → Bool) (metric : Json) (o : Override) : Prop where
  complete : o.complete = true
  applies : ∀ name, o.applies name = true ↔ Applies metric name
  leaves : ∀ name, o.leaves name = true ↔ ¬ Drops metric name
  removed : ∀ tag, tag ∈ o.removed ↔ Removes metric tag
  assigned : ∀ tag expression,
    (tag, expression) ∈ o.assigned ↔ dimension metric tag = some (.string expression)
  strings : ∀ tag, Lists metric tag →
    ∃ expression, dimension metric tag = some (.string expression) ∧ compiles expression = true

section

variable {metric : Json} {tag name : Bytes} {tags : List Bytes} {values : List Json}
  {compiles : Bytes → Bool} {o : Override} {V : Type} {value : Bytes → Option V}
  {m : Bytes → Option V}

theorem readStrings_of_strings (h : ∀ value ∈ values, ∃ s, value = Json.string s) :
    (readStrings values).1 = true ∧ ∀ s, s ∈ (readStrings values).2 ↔ Json.string s ∈ values := by
  induction values with
  | nil => exact ⟨rfl, fun s => iff_of_false List.not_mem_nil List.not_mem_nil⟩
  | cons value values ih =>
    obtain ⟨s', rfl⟩ := h value List.mem_cons_self
    obtain ⟨hdone, hmem⟩ := ih fun value hvalue => h value (List.mem_cons_of_mem _ hvalue)
    refine ⟨hdone, fun s => ?_⟩
    show s ∈ s' :: (readStrings values).2 ↔ _
    rw [List.mem_cons, List.mem_cons, hmem s, Json.string.injEq]

theorem readDimensions_of_strings
    (h : ∀ tag ∈ tags, ∃ expression, dimension metric tag = some (.string expression)) :
    (readDimensions metric tags).1 = true ∧ ∀ tag expression,
      (tag, expression) ∈ (readDimensions metric tags).2 ↔
        tag ∈ tags ∧ dimension metric tag = some (.string expression) := by
  induction tags with
  | nil => exact ⟨rfl, fun _ _ => iff_of_false List.not_mem_nil fun h => List.not_mem_nil h.1⟩
  | cons first tags ih =>
    obtain ⟨expression', hfirst⟩ := h first List.mem_cons_self
    obtain ⟨hdone, hmem⟩ := ih fun tag htag => h tag (List.mem_cons_of_mem _ htag)
    have hread : readDimensions metric (first :: tags) = ((readDimensions metric tags).1,
        (first, expression') :: (readDimensions metric tags).2) := by
      rw [readDimensions, hfirst]
    rw [hread]
    refine ⟨hdone, fun tag expression => ?_⟩
    rw [List.mem_cons, List.mem_cons, hmem, Prod.mk.injEq]
    constructor
    · rintro (⟨rfl, rfl⟩ | ⟨htag, hstring⟩)
      · exact ⟨.inl rfl, hfirst⟩
      · exact ⟨.inr htag, hstring⟩
    · rintro ⟨rfl | htag, hstring⟩
      · rw [hfirst] at hstring
        exact .inl ⟨rfl, (Json.string.inj (Option.some.inj hstring)).symm⟩
      · exact .inr ⟨htag, hstring⟩

theorem isSome_lookup_iff {fields : List (Bytes × Json)} :
    (fields.lookup tag).isSome = true ↔ tag ∈ fields.map Prod.fst := by
  rw [List.lookup_isSome_iff, List.mem_map]
  constructor
  · rintro ⟨field, hmem, heq⟩
    exact ⟨field, hmem, (beq_iff_eq.1 heq).symm⟩
  · rintro ⟨field, hmem, rfl⟩
    exact ⟨field, hmem, beq_self_eq_true _⟩

theorem Readable.tagsToRemove_eq (h : Readable compiles metric) :
    (Stats.tagsToRemove metric).1 = true ∧
      ∀ tag, tag ∈ (Stats.tagsToRemove metric).2 ↔ Removes metric tag := by
  unfold Stats.tagsToRemove Removes Json.elements
  cases hfind : metric.find (bytes "tags_to_remove") with
  | none => exact ⟨rfl, fun _ => iff_of_false List.not_mem_nil List.not_mem_nil⟩
  | some value =>
    obtain ⟨tags, rfl, hstrings⟩ := h.tagsToRemove value hfind
    exact readStrings_of_strings hstrings

/-- The tags of the dimensions, all of which are strings. -/
theorem Readable.dimensionTags_eq (h : Readable compiles metric) :
    ∃ tags, dimensionTags metric = some tags ∧ (∀ tag, tag ∈ tags ↔ Lists metric tag) ∧
      ∀ tag ∈ tags, ∃ expression, dimension metric tag = some (.string expression) ∧
        compiles expression = true := by
  unfold dimensionTags Lists dimension
  cases hfind : metric.find (bytes "dimensions") with
  | none =>
    exact ⟨[], rfl, (fun _ => iff_of_false List.not_mem_nil Bool.false_ne_true),
      fun _ hmem => absurd hmem List.not_mem_nil⟩
  | some value =>
    obtain ⟨fields, rfl, hstrings⟩ := h.dimensions value hfind
    have hmem : ∀ tag, tag ∈ (fields.map Prod.fst).insertionSort (· ≤ ·) ↔
        (fields.lookup tag).isSome = true := by
      intro tag
      rw [List.mem_insertionSort, isSome_lookup_iff]
    refine ⟨_, rfl, hmem, fun tag htag => ?_⟩
    -- The lookup finds one of the fields, all of which are strings.
    obtain ⟨value, hlookup⟩ := Option.isSome_iff_exists.1 ((hmem tag).1 htag)
    obtain ⟨before, after, rfl, -⟩ := List.lookup_eq_some_iff.1 hlookup
    obtain ⟨expression, rfl, hcompiles⟩ := hstrings (tag, value)
      (List.mem_append_right _ List.mem_cons_self)
    exact ⟨expression, hlookup, hcompiles⟩

theorem applies_readTagged :
    (readTagged metric tags).applies name = true ↔ Applies metric name := by
  unfold Override.applies Applies
  rw [Bool.or_eq_true, List.isEmpty_iff, decide_eq_true_iff]; rfl

theorem leaves_readTagged :
    (readTagged metric tags).leaves name = true ↔ ¬ Drops metric name := by
  unfold Override.leaves Drops
  rw [Bool.not_eq_true', ← Bool.not_eq_true, Bool.and_eq_true, applies_readTagged, and_comm]; rfl

/-- An entry is read to its end. -/
theorem Readable.reads (h : Readable compiles metric) :
    ∃ o, readOverride metric = some o ∧ Reads compiles metric o := by
  obtain ⟨hremoved, hremoves⟩ := h.tagsToRemove_eq
  obtain ⟨tags, htags, hlists, hstrings⟩ := h.dimensionTags_eq
  obtain ⟨hcomplete, hassigned⟩ := readDimensions_of_strings fun tag htag =>
    (hstrings tag htag).imp fun _ hstring => hstring.1
  have hread : (if (Stats.tagsToRemove metric).1 then readDimensions metric tags
      else (false, [])) = readDimensions metric tags := if_pos hremoved
  refine ⟨readTagged metric tags, by rw [readOverride, htags]; rfl, ⟨?_,
    fun _ => applies_readTagged, fun _ => leaves_readTagged, hremoves, fun tag expression => ?_,
    fun tag htag => hstrings tag ((hlists tag).2 htag)⟩⟩
  · unfold readTagged
    rw [hread]
    exact hcomplete
  · unfold readTagged
    rw [hread, hassigned]
    refine and_iff_right_of_imp fun hdimension => (hlists tag).2 ?_
    unfold Lists
    rw [hdimension]; rfl

/-! ### What entries assign -/

/-- What an entry assigns to the tags of the metric with this name. -/
def entryUpdates (value : Bytes → Option V) (name : Bytes) (metric : Json) :
    List (Bytes × Option V) :=
  match readOverride metric with
  | some o => if o.applies name then o.updates value else []
  | none => []

namespace Reads

theorem assigns_updates (h : Reads compiles metric o) :
    Assigns (o.updates value) tag ↔ Mentions metric tag := by
  unfold Assigns Override.updates Mentions
  constructor
  · rintro ⟨v, hmem⟩
    rcases List.mem_append.1 hmem with hmem | hmem
    · obtain ⟨tag', htag', heq⟩ := List.mem_map.1 hmem
      obtain rfl := (Prod.mk.inj heq).1
      exact .inr ((h.removed tag').1 htag')
    · obtain ⟨⟨tag', expression⟩, hassigned, heq⟩ := List.mem_map.1 hmem
      obtain rfl : tag' = tag := (Prod.mk.inj heq).1
      refine .inl ?_
      unfold Lists
      rw [(h.assigned tag' expression).1 hassigned]; rfl
  · rintro (hlists | hremoves)
    · obtain ⟨expression, hdimension, -⟩ := h.strings tag hlists
      exact ⟨value expression, List.mem_append_right _
        (List.mem_map.2 ⟨(tag, expression), (h.assigned tag expression).2 hdimension, rfl⟩)⟩
    · exact ⟨none, List.mem_append_left _ (List.mem_map.2 ⟨tag, (h.removed tag).2 hremoves, rfl⟩)⟩

/-- A tag of the dimensions gets the value of its expression, also when it is to be removed. -/
theorem updates_of_lists (h : Reads compiles metric o) {expression : Bytes}
    (hdimension : dimension metric tag = some (.string expression)) :
    assignAll (o.updates value) m tag = value expression := by
  unfold Override.updates
  rw [assignAll_append]
  have hassigns : Assigns (o.assigned.map fun u => (u.1, value u.2)) tag :=
    ⟨value expression,
      List.mem_map.2 ⟨(tag, expression), (h.assigned tag expression).2 hdimension, rfl⟩⟩
  obtain ⟨⟨tag', expression'⟩, hassigned, heq⟩ := List.mem_map.1
    (mem_of_assigns hassigns (assignAll (o.removed.map fun tag => (tag, none)) m))
  obtain ⟨htag, hvalue⟩ := Prod.mk.inj heq
  have hdimension' := (h.assigned tag' expression').1 hassigned
  obtain rfl : tag' = tag := htag
  rw [hdimension] at hdimension'
  rw [← hvalue, Json.string.inj (Option.some.inj hdimension')]

theorem updates_of_removes (h : Reads compiles metric o) (hlists : ¬ Lists metric tag)
    (hremoves : Removes metric tag) : assignAll (o.updates value) m tag = none := by
  unfold Override.updates
  have hnot : ¬ Assigns (o.assigned.map fun u => (u.1, value u.2)) tag := by
    rintro ⟨v, hmem⟩
    obtain ⟨⟨tag', expression⟩, hassigned, heq⟩ := List.mem_map.1 hmem
    obtain rfl : tag' = tag := (Prod.mk.inj heq).1
    refine hlists ?_
    unfold Lists
    rw [(h.assigned tag' expression).1 hassigned]; rfl
  have hassigns : Assigns (o.removed.map fun tag => (tag, (none : Option V))) tag :=
    ⟨none, List.mem_map.2 ⟨tag, (h.removed tag).2 hremoves, rfl⟩⟩
  rw [assignAll_append, assignAll_of_not_assigns hnot]
  obtain ⟨tag', -, heq⟩ := List.mem_map.1 (mem_of_assigns hassigns m)
  exact (Prod.mk.inj heq).2.symm

end Reads

/-- An entry assigns the tags that it mentions, if it applies to the metric. -/
theorem Readable.assigns_entryUpdates (h : Readable compiles metric) :
    Assigns (entryUpdates value name metric) tag ↔ Applies metric name ∧ Mentions metric tag := by
  obtain ⟨o, hread, hreads⟩ := h.reads
  unfold entryUpdates
  rw [hread]
  dsimp only
  split_ifs with happlies
  · rw [hreads.assigns_updates]
    exact (and_iff_right ((hreads.applies name).1 happlies)).symm
  · refine iff_of_false (fun ⟨v, hmem⟩ => nomatch hmem) fun h => ?_
    exact happlies ((hreads.applies name).2 h.1)

end

section

variable {metrics before after : List Json} {metric : Json} {tag name : Bytes}
  {compiles : Bytes → Bool} {V : Type} {value : Bytes → Option V} {m : Bytes → Option V}

/-- No entry that applies to the metric mentions the tag. -/
def Unmentioned (metrics : List Json) (name tag : Bytes) : Prop :=
  ∀ metric ∈ metrics, Applies metric name → ¬ Mentions metric tag

/-- The value is that of the last entry that mentions the tag. -/
theorem assigned_of_last {o : Override}
    (hreadable : ∀ entry ∈ before ++ metric :: after, Readable compiles entry)
    (hread : readOverride metric = some o) (happlies : Applies metric name)
    (hmentions : Mentions metric tag) (hafter : Unmentioned after name tag) :
    assignAll ((before ++ metric :: after).flatMap (entryUpdates value name)) m tag =
      assignAll (o.updates value) m tag := by
  have hmetric := hreadable metric (List.mem_append_right _ List.mem_cons_self)
  have hassigns : Assigns (entryUpdates value name metric) tag :=
    hmetric.assigns_entryUpdates.2 ⟨happlies, hmentions⟩
  rw [assignAll_flatMap_of_last hassigns _ m m]
  · obtain ⟨o', hread', hreads⟩ := hmetric.reads
    obtain rfl := Option.some.inj (hread.symm.trans hread')
    unfold entryUpdates
    rw [hread]
    dsimp only
    rw [if_pos ((hreads.applies name).2 happlies)]
  · intro later hlater hassigns'
    have hreadable' := hreadable later
      (List.mem_append_right _ (List.mem_cons_of_mem _ hlater))
    obtain ⟨happlies', hmentions'⟩ := hreadable'.assigns_entryUpdates.1 hassigns'
    exact hafter later hlater happlies' hmentions'

theorem assigned_of_unmentioned (hreadable : ∀ metric ∈ metrics, Readable compiles metric)
    (hunmentioned : Unmentioned metrics name tag) :
    assignAll (metrics.flatMap (entryUpdates value name)) m tag = m tag := by
  refine assignAll_flatMap_of_none fun metric hmetric hassigns => ?_
  obtain ⟨happlies, hmentions⟩ := (hreadable metric hmetric).assigns_entryUpdates.1 hassigns
  exact hunmentioned metric hmetric happlies hmentions

end

/-! ### The tags of a configuration -/

section

variable {metrics : List Json} {compiles : Bytes → Bool}

/-- All entries are visited, up to their end. -/
theorem visited_of_readable (hreadable : ∀ metric ∈ metrics, Readable compiles metric)
    (names : List Bytes) :
    (visited metrics names).map Prod.fst = metrics.filterMap readOverride ∧
      ∀ v ∈ visited metrics names, v.1.finishes v.2 = true := by
  induction metrics generalizing names with
  | nil => exact ⟨rfl, fun _ hv => nomatch hv⟩
  | cons metric metrics ih =>
    obtain ⟨o, hread, hreads⟩ := (hreadable metric List.mem_cons_self).reads
    have hfinishes : o.finishes names = true := by
      unfold Override.finishes
      rw [hreads.complete, Bool.or_true, Bool.true_or]
    obtain ⟨hmap, hrest⟩ := ih (fun metric hmetric => hreadable metric
      (List.mem_cons_of_mem _ hmetric)) (names.filter o.leaves)
    have hvisited : visited (metric :: metrics) names =
        (o, names) :: visited metrics (names.filter o.leaves) := by
      rw [visited, hread]
      dsimp only
      rw [if_pos hfinishes]
    rw [hvisited, List.filterMap_cons_some hread, List.map_cons, hmap]
    refine ⟨rfl, fun v hv => ?_⟩
    rcases List.mem_cons.1 hv with rfl | hv
    · exact hfinishes
    · exact hrest v hv

theorem flatMap_entryUpdates {V : Type} (value : Bytes → Option V) (name : Bytes)
    (metrics : List Json) :
    ((metrics.filterMap readOverride).filter fun o => o.applies name).flatMap
        (Override.updates value) = metrics.flatMap (entryUpdates value name) := by
  induction metrics with
  | nil => rfl
  | cons metric metrics ih =>
    rw [List.flatMap_cons, ← ih, entryUpdates]
    cases hread : readOverride metric with
    | none => rw [List.filterMap_cons_none hread]; rfl
    | some o =>
      rw [List.filterMap_cons_some hread, List.filter_cons]
      dsimp only
      split_ifs
      · rw [List.flatMap_cons]
      · rfl

end

section

variable {j : Json} {e : Expressions} {order : MapOrder} {compiles : Bytes → Bool}
  {name tag expression : Bytes} {metric : Json}

/-- The indexes of the tags of a metric that is left. -/
theorem index_buildMetrics (he : e.inputExpressions = []) (hanswered : Answered compiles j e)
    (hreadable : ∀ metric ∈ j.elements (bytes "metrics"), Readable compiles metric)
    (hleft : name ∈ (buildMetrics j order e).names) :
    ((buildMetrics j order e).tagging name).index =
      assignAll ((j.elements (bytes "metrics")).flatMap
          (entryUpdates (buildMetrics j order e).toExpressions.index name))
        (defaultTagging name).index := by
  obtain ⟨hmap, hfinishes⟩ := visited_of_readable hreadable
    ((definedMetrics j e).reorder order).names
  rw [tagging_buildMetrics he hanswered, index_foldl_retagged,
    carriedOut_of_finishes visits_buildMetrics hleft hfinishes, overridesOf, hmap,
    flatMap_entryUpdates]

/-- The expressions that are given for a metric that is left have been created. -/
theorem lookup_buildMetrics (he : e.inputExpressions = []) (hanswered : Answered compiles j e)
    (hreadable : ∀ metric ∈ j.elements (bytes "metrics"), Readable compiles metric)
    (hleft : name ∈ (buildMetrics j order e).names)
    (hmetric : metric ∈ j.elements (bytes "metrics")) (happlies : Applies metric name)
    (hdimension : dimension metric tag = some (.string expression)) :
    ∃ position,
      (buildMetrics j order e).inputExpressions.lookup expression = some position := by
  obtain ⟨hmap, hfinishes⟩ := visited_of_readable hreadable
    ((definedMetrics j e).reorder order).names
  obtain ⟨o, hread, hreads⟩ := (hreadable metric hmetric).reads
  have hmem : o ∈ (overridesOf j order e).map Prod.fst := by
    rw [overridesOf, hmap]
    exact List.mem_filterMap.2 ⟨metric, hmetric, hread⟩
  obtain ⟨v, hv, rfl⟩ := List.mem_map.1 hmem
  obtain ⟨hname, hleaves⟩ := mem_names_of_visited visits_buildMetrics hleft hv
  have htreated := (mem_treated_iff hname hleaves (hfinishes v hv)).2
    ((hreads.applies name).2 happlies)
  have hassigned := (hreads.assigned tag expression).2 hdimension
  -- The metric is left, so the entry was carried out for it and asked for the expression.
  have hrequested : expression ∈ requests (overridesOf j .inserted e) := by
    rw [← requests_overridesOf order]
    exact mem_requests hv htreated (List.mem_map.2 ⟨(tag, expression), hassigned, rfl⟩)
  have hlookup := Expressions.isSome_lookup_addInputs (accepted_definedMetrics he) hanswered
    hrequested
  have hcompiles : compiles expression = true := by
    obtain ⟨expression', hdimension', hcompiles⟩ := hreads.strings tag
      (by unfold Lists; rw [hdimension]; rfl)
    rw [hdimension] at hdimension'
    rwa [Json.string.inj (Option.some.inj hdimension')]
  rw [hcompiles, ← toExpressions_buildMetrics order] at hlookup
  exact Option.isSome_iff_exists.1 hlookup

/-- Where the index of a tag comes from. -/
theorem index_cases (he : e.inputExpressions = []) (hanswered : Answered compiles j e)
    (hreadable : ∀ metric ∈ j.elements (bytes "metrics"), Readable compiles metric)
    (hleft : name ∈ (buildMetrics j order e).names) (tag : Bytes) :
    (∃ before metric after expression,
      j.elements (bytes "metrics") = before ++ metric :: after ∧ Applies metric name ∧
      dimension metric tag = some (.string expression) ∧ Unmentioned after name tag ∧
      ((buildMetrics j order e).tagging name).index tag =
        (buildMetrics j order e).toExpressions.index expression) ∨
    ((buildMetrics j order e).tagging name).index tag = none ∨
    (Unmentioned (j.elements (bytes "metrics")) name tag ∧
      ((buildMetrics j order e).tagging name).index tag = (defaultTagging name).index tag) := by
  rw [index_buildMetrics he hanswered hreadable hleft]
  rcases exists_last_or_forall_not (fun metric => Applies metric name ∧ Mentions metric tag)
    (j.elements (bytes "metrics")) with
    ⟨before, metric, after, hsplit, ⟨happlies, hmentions⟩, hafter⟩ | hnone
  · have hunmentioned : Unmentioned after name tag := fun later hlater happlies' hmentions' =>
      hafter later hlater ⟨happlies', hmentions'⟩
    rw [hsplit] at hreadable ⊢
    obtain ⟨o, hread, hreads⟩ :=
      (hreadable metric (List.mem_append_right _ List.mem_cons_self)).reads
    rw [assigned_of_last hreadable hread happlies hmentions hunmentioned]
    -- Dimensions come after removals, so they decide about a tag that is in both.
    by_cases hlists : Lists metric tag
    · obtain ⟨expression, hdimension, -⟩ := hreads.strings tag hlists
      exact .inl ⟨before, metric, after, expression, rfl, happlies, hdimension, hunmentioned,
        hreads.updates_of_lists hdimension⟩
    · exact .inr (.inl (hreads.updates_of_removes hlists (hmentions.resolve_left hlists)))
  · have hunmentioned : Unmentioned (j.elements (bytes "metrics")) name tag :=
      fun metric hmetric happlies hmentions => hnone metric hmetric ⟨happlies, hmentions⟩
    exact .inr (.inr ⟨hunmentioned, assigned_of_unmentioned hreadable hunmentioned⟩)

/-- When a metric has a tag. -/
theorem isSome_index_iff (he : e.inputExpressions = []) (hanswered : Answered compiles j e)
    (hreadable : ∀ metric ∈ j.elements (bytes "metrics"), Readable compiles metric)
    (hleft : name ∈ (buildMetrics j order e).names) (tag : Bytes) :
    (((buildMetrics j order e).tagging name).index tag).isSome = true ↔
      (∃ before metric after, j.elements (bytes "metrics") = before ++ metric :: after ∧
        Applies metric name ∧ Lists metric tag ∧ Unmentioned after name tag) ∨
      (Unmentioned (j.elements (bytes "metrics")) name tag ∧ tag ∈ defaultTagsOf name) := by
  have hdefault : ((defaultTagging name).index tag).isSome = true ↔ tag ∈ defaultTagsOf name := by
    rw [index_defaultTagging, List.isSome_idxOf?]
  constructor
  · intro hsome
    rcases index_cases he hanswered hreadable hleft tag with
      ⟨before, metric, after, expression, hsplit, happlies, hdimension, hafter, -⟩ |
      hnone | ⟨hunmentioned, hindex⟩
    · refine .inl ⟨before, metric, after, hsplit, happlies, ?_, hafter⟩
      unfold Lists
      rw [hdimension]; rfl
    · rw [hnone] at hsome
      cases hsome
    · rw [hindex] at hsome
      exact .inr ⟨hunmentioned, hdefault.1 hsome⟩
  · rintro (⟨before, metric, after, hsplit, happlies, hlists, hafter⟩ | ⟨hunmentioned, hmem⟩)
    · have hmetric : metric ∈ j.elements (bytes "metrics") :=
        hsplit ▸ List.mem_append_right _ List.mem_cons_self
      obtain ⟨o, hread, hreads⟩ := (hreadable metric hmetric).reads
      obtain ⟨expression, hdimension, -⟩ := hreads.strings tag hlists
      obtain ⟨position, hlookup⟩ :=
        lookup_buildMetrics he hanswered hreadable hleft hmetric happlies hdimension
      have hreadable' := hsplit ▸ hreadable
      rw [index_buildMetrics he hanswered hreadable hleft, hsplit,
        assigned_of_last hreadable' hread happlies (.inl hlists) hafter,
        hreads.updates_of_lists hdimension, Expressions.index, hlookup]; rfl
    · rw [index_buildMetrics he hanswered hreadable hleft,
        assigned_of_unmentioned hreadable hunmentioned]
      exact hdefault.2 hmem

end

/-! ### Definitions -/

/-- The texts of the values of the definitions. -/
def definedValues (j : Json) : List Bytes :=
  (j.elements (bytes "definitions")).map fun definition => stringField definition (bytes "value")

/-- The name of a default metric, or of one that is defined. -/
def MetricName (j : Json) (name : Bytes) : Prop :=
  name ∈ defaultMetrics.map MetricFactory.name ∨
    ∃ definition ∈ j.elements (bytes "definitions"), stringField definition (bytes "name") = name

/-- A definition with a name and a value is carried out if its expression is created. -/
theorem visitDefinition_of_created {definition : Json} {b : Building} {token : UInt32}
    {host : ExpressionHost} (hname : stringField definition (bytes "name") ≠ [])
    (hvalue : stringField definition (bytes "value") ≠ [])
    (hcreate : b.host.createExpression (stringField definition (bytes "value")) =
      (some token, host)) :
    visitDefinition definition b = (true, { b with
      intExpressions := b.intExpressions ++ [token]
      host := host
      factories := define (stringField definition (bytes "name")) token
        (stringField definition (bytes "type")) b.factories }) := by
  have hempty : ((stringField definition (bytes "name")).isEmpty ||
      (stringField definition (bytes "value")).isEmpty) = false := by
    simp [hname, hvalue]
  unfold visitDefinition Expressions.addIntExpression
  dsimp only
  rw [hcreate, hempty]; rfl

theorem mem_map_name_define {name name' type : Bytes} {token : UInt32}
    {factories : List MetricFactory} :
    name' ∈ (define name token type factories).map MetricFactory.name ↔
      name' ∈ factories.map MetricFactory.name ∨ name' = name := by
  rw [map_name_define]
  split_ifs with hmem
  · refine (or_iff_left_of_imp fun heq => ?_).symm
    rw [heq]
    exact hmem
  · rw [List.mem_append, List.mem_singleton]

/-- Definitions that are accepted add their names. -/
theorem names_iterate_visitDefinition {definitions : List Json} {b : Building} {name : Bytes}
    (hfields : ∀ definition ∈ definitions, stringField definition (bytes "name") ≠ [] ∧
      stringField definition (bytes "value") ≠ [])
    (haccepted : (b.host.createAll (definitions.map fun definition =>
      stringField definition (bytes "value"))).1 = true)
    (hname : name ∈ b.names ∨
      ∃ definition ∈ definitions, stringField definition (bytes "name") = name) :
    name ∈ (iterate visitDefinition definitions b).2.names := by
  induction definitions generalizing b with
  | nil => exact hname.resolve_right fun ⟨_, hmem, _⟩ => nomatch hmem
  | cons definition definitions ih =>
    obtain ⟨hne, hvalue⟩ := hfields definition List.mem_cons_self
    rw [List.map_cons] at haccepted
    rcases hcreate : b.host.createExpression (stringField definition (bytes "value")) with
      ⟨_ | token, host⟩
    · rw [ExpressionHost.createAll_cons_none hcreate] at haccepted
      cases haccepted
    · rw [ExpressionHost.createAll_cons_some hcreate] at haccepted
      -- The name is there before, or it is that of this definition or of a later one.
      rw [iterate_cons_of_true (visitDefinition_of_created hne hvalue hcreate)]
      refine ih (fun definition hmem => hfields definition (List.mem_cons_of_mem _ hmem)) haccepted
        ?_
      show name ∈ (define _ _ _ b.factories).map MetricFactory.name ∨ _
      rw [mem_map_name_define]
      rcases hname with hmem | ⟨definition', hmem, rfl⟩
      · exact .inl (.inl hmem)
      · rcases List.mem_cons.1 hmem with rfl | hmem
        · exact .inl (.inr rfl)
        · exact .inr ⟨definition', hmem, rfl⟩

/-! ### The last one wins -/

/-- The configuration can be read to its end, and all its expressions compile. -/
structure WellFormed (compiles : Bytes → Bool) (j : Json) : Prop where
  definitions : ∀ definition ∈ j.elements (bytes "definitions"),
    stringField definition (bytes "name") ≠ [] ∧ stringField definition (bytes "value") ≠ [] ∧
      compiles (stringField definition (bytes "value")) = true
  metrics : ∀ metric ∈ j.elements (bytes "metrics"), Readable compiles metric

/-- The host decides by the text which expressions it gives out. -/
structure Deterministic (compiles : Bytes → Bool) (j : Json) (e : Expressions) : Prop where
  definitions : (∀ value ∈ definedValues j, compiles value = true) →
    (e.host.createAll (definedValues j)).1 = true
  overrides : Answered compiles j e

/-- The index is that of the expression with this text: in every report, what is printed for it is
the value of the expression. -/
def PrintsExpression (root : RootContext) (host : Host) (i : ℕ) (expression : Bytes) : Prop :=
  ∃ token, ExpressionEvent.create token expression ∈ host.events ∧
    ∀ (stream : StatsStream) (d d' : IstioDimensions),
      evaluateExpressions stream 0 root.expressions d = some d' →
        d'[i]? = some ((stream.evaluateString token).getD (bytes "unknown"))

/-- The index is that of the standard dimension with the name of the tag. -/
def PrintsStandard (root : RootContext) (i : ℕ) (tag : Bytes) : Prop :=
  ∃ label : StandardLabels, label.name = tag ∧
    ∀ (stream : StatsStream) (d d' : IstioDimensions),
      evaluateExpressions stream 0 root.expressions d = some d' → d'[i]? = d[label.index]?

/-- The last entry that mentions a tag decides about it. -/
structure LastOneWins (metrics : List Json) (name : Bytes) (root : RootContext) (host : Host)
    (statgen : StatGen) : Prop where
  nodup : statgen.metric.tags.Nodup
  present : ∀ tag, tag ∈ statgen.metric.tags ↔
    (∃ before metric after, metrics = before ++ metric :: after ∧ Applies metric name ∧
      Lists metric tag ∧ Unmentioned after name tag) ∨
    (Unmentioned metrics name tag ∧ tag ∈ defaultTagsOf name)
  value : ∀ tag i, (tag, i) ∈ statgen.metric.tags.zip statgen.indexes →
    (∃ before metric after expression, metrics = before ++ metric :: after ∧
      Applies metric name ∧ dimension metric tag = some (.string expression) ∧
      (∀ later ∈ after, Applies later name → ¬ Lists later tag) ∧
      PrintsExpression root host i expression) ∨
    ((∀ metric ∈ metrics, Applies metric name → ¬ Lists metric tag) ∧ PrintsStandard root i tag)

/-- An expression is evaluated into its own position. -/
theorem evaluateExpressions_position {stream : StatsStream} {tokens : List UInt32} {i p : ℕ}
    {d d' : IstioDimensions} {token : UInt32} (h : evaluateExpressions stream i tokens d = some d')
    (htoken : tokens[p]? = some token) :
    d'[countStandardLabels + i + p]? =
      some ((stream.evaluateString token).getD (bytes "unknown")) := by
  induction tokens generalizing i p d with
  | nil => cases htoken
  | cons first tokens ih =>
    unfold evaluateExpressions at h
    split_ifs at h with hlt
    cases p with
    | zero =>
      -- Later expressions go to later positions.
      rw [List.getElem?_cons_zero] at htoken
      rw [(evaluateExpressions_frame h).2 _ (by omega), Nat.add_zero, List.getElem?_set_self hlt,
        Option.some.inj htoken]
    | succ p =>
      rw [List.getElem?_cons_succ] at htoken
      rw [← ih h htoken]
      congr 1
      omega

theorem index_of_getElem? {i : ℕ} {tag : Bytes} (h : defaultTags[i]? = some tag) :
    ∃ label : StandardLabels, label.name = tag ∧ label.index = i := by
  have hall : ∀ i, i < StandardLabels.all.length →
      StandardLabels.all[i]?.map StandardLabels.index = some i := by decide
  unfold defaultTags at h
  rw [List.getElem?_map] at h
  obtain ⟨label, hlabel, hname⟩ := Option.map_eq_some_iff.1 h
  have hindex := hall i (List.getElem?_eq_some_iff.1 hlabel).1
  rw [hlabel] at hindex
  exact ⟨label, hname, Option.some.inj hindex⟩

/-- The index of a default tag is that of the standard dimension. -/
theorem exists_defaultLabel {name tag : Bytes} {i : ℕ}
    (h : (defaultTagging name).index tag = some i) :
    ∃ label : StandardLabels, label.name = tag ∧ label.index = i := by
  rw [index_defaultTagging, defaultTagsOf] at h
  split at h
  · obtain ⟨hlt, htag, -⟩ := List.idxOf?_eq_some_iff.1 h
    rw [List.getElem_take] at htag
    rw [List.length_take] at hlt
    refine index_of_getElem? ?_
    rw [List.getElem?_eq_getElem (by omega)]
    exact congrArg some htag
  · cases h

section

variable {j : Json} {e : Expressions} {order : MapOrder} {compiles : Bytes → Bool}
  {name : Bytes}

/-- A metric that is not dropped is left. -/
theorem mem_names_buildMetrics (order : MapOrder) (hwf : WellFormed compiles j)
    (hhost : Deterministic compiles j e)
    (hname : MetricName j name)
    (hdrops : ∀ metric ∈ j.elements (bytes "metrics"), ¬ Drops metric name) :
    name ∈ (buildMetrics j order e).names := by
  refine (mem_names_visits visits_buildMetrics).2 ⟨names_reorder.mem_iff.2 ?_, fun v hv => ?_⟩
  · unfold definedMetrics
    rw [snd_jsonArrayIterate]
    refine names_iterate_visitDefinition (fun definition hmem =>
      ⟨(hwf.definitions definition hmem).1, (hwf.definitions definition hmem).2.1⟩)
      (hhost.definitions fun value hvalue => ?_) hname
    obtain ⟨definition, hmem, rfl⟩ := List.mem_map.1 hvalue
    exact (hwf.definitions definition hmem).2.2
  · have hmem : v.1 ∈ (j.elements (bytes "metrics")).filterMap readOverride := by
      rw [← (visited_of_readable hwf.metrics ((definedMetrics j e).reorder order).names).1]
      exact List.mem_map_of_mem hv
    obtain ⟨metric, hmetric, hread⟩ := List.mem_filterMap.1 hmem
    obtain ⟨o, hread', hreads⟩ := (hwf.metrics metric hmetric).reads
    rw [hread] at hread'
    obtain rfl := Option.some.inj hread'
    exact (hreads.leaves name).2 (hdrops metric hmetric)

variable {call : ConfigureCall} {root : RootContext} {host : Host} {statgen : StatGen}

/-- The index of an expression is the position into which it is evaluated. -/
theorem printsExpression_of_index {i : ℕ} {expression : Bytes}
    (h : (buildMetrics j call.mapOrder
      (root.toExpressions host.toExpressionHost).cleanupExpressions).toExpressions.index
        expression = some i) :
    PrintsExpression (initializeDimensions j call root host).1
      (initializeDimensions j call root host).2 i expression := by
  obtain ⟨position, hlookup, rfl⟩ := Option.map_eq_some_iff.1 h
  obtain ⟨token, htoken, hcreated⟩ := (placed_buildMetrics rfl).created expression position hlookup
  refine ⟨token, hcreated, fun stream d d' heval => ?_⟩
  exact evaluateExpressions_position heval htoken

theorem printsStandard_of_index {i : ℕ} {tag : Bytes}
    (h : (defaultTagging name).index tag = some i) : PrintsStandard root i tag := by
  obtain ⟨label, hname, rfl⟩ := exists_defaultLabel h
  exact ⟨label, hname, fun stream d d' heval => evaluateExpressions_get label.index_lt heval⟩

/-- **The last one wins.** -/
theorem overrides_last_one_wins (call : ConfigureCall) (root : RootContext) (host : Host)
    (hwf : WellFormed compiles j)
    (hhost : Deterministic compiles j
      (root.toExpressions host.toExpressionHost).cleanupExpressions) :
    (∀ name, MetricName j name →
        (∀ metric ∈ j.elements (bytes "metrics"), ¬ Drops metric name) →
        ∃ statgen ∈ (initializeDimensions j call root host).1.stats,
          statgen.metric.name = bytes "istio_" ++ name) ∧
      ∀ statgen ∈ (initializeDimensions j call root host).1.stats,
        ∀ name, statgen.metric.name = bytes "istio_" ++ name →
          LastOneWins (j.elements (bytes "metrics")) name (initializeDimensions j call root host).1
            (initializeDimensions j call root host).2 statgen := by
  refine ⟨fun name hname hdrops => ?_, fun statgen hmem name hname => ?_⟩
  · exact exists_statGen_of_mem_names
      (mem_names_buildMetrics call.mapOrder hwf hhost hname hdrops)
  · obtain ⟨hleft, hzip, htags⟩ := indexed_of_mem_stats hmem hname
    have hwfTags : (Building.tagging (buildMetrics j call.mapOrder
        (root.toExpressions host.toExpressionHost).cleanupExpressions) name).Wf :=
      wf_tagging_buildMetrics rfl hhost.overrides
    refine ⟨htags ▸ hwfTags.nodup_indexed, fun tag => ?_, fun tag i hi => ?_⟩
    · rw [htags, hwfTags.mem_map_fst_indexed]
      exact isSome_index_iff rfl hhost.overrides hwf.metrics hleft tag
    · rw [hzip, hwfTags.mem_indexed] at hi
      rcases index_cases rfl hhost.overrides hwf.metrics hleft tag with
        ⟨before, metric, after, expression, hsplit, happlies, hdimension, hafter, hindex⟩ |
        hnone | ⟨hunmentioned, hindex⟩
      · rw [hi] at hindex
        exact .inl ⟨before, metric, after, expression, hsplit, happlies, hdimension,
          fun later hlater happlies' hlists => hafter later hlater happlies' (.inl hlists),
          printsExpression_of_index hindex.symm⟩
      · rw [hi] at hnone
        cases hnone
      · rw [hi] at hindex
        exact .inr ⟨fun metric hmetric happlies hlists =>
          hunmentioned metric hmetric happlies (.inl hlists), printsStandard_of_index hindex.symm⟩

end

/-- A definition, an entry that gives a new tag and a default tag to all metrics, and one that takes
the new tag from one of them. -/
def retaggingJson : Json :=
  .object
    [(bytes "definitions", .array
      [.object [(bytes "name", .string (bytes "size")),
        (bytes "value", .string (bytes "request.size"))]]),
    (bytes "metrics", .array
      [.object [(bytes "dimensions", .object
          [(bytes "request_host", .string (bytes "request.host")),
            (bytes "reporter", .string (bytes "node.id"))])],
        .object [(bytes "name", .string (bytes "requests_total")),
          (bytes "tags_to_remove", .array [.string (bytes "request_host")])]])]

/-- The last one wins for the metric that loses a tag, and for the one that is defined. -/
theorem overrides_last_one_wins_retagging :
    (∃ statgen ∈ (initializeDimensions retaggingJson plainCall (.new false false)
          (freshHost [some 1, some 2, some 3])).1.stats,
        LastOneWins (retaggingJson.elements (bytes "metrics")) (bytes "requests_total")
          (initializeDimensions retaggingJson plainCall (.new false false)
            (freshHost [some 1, some 2, some 3])).1
          (initializeDimensions retaggingJson plainCall (.new false false)
            (freshHost [some 1, some 2, some 3])).2 statgen) ∧
      ∃ statgen ∈ (initializeDimensions retaggingJson plainCall (.new false false)
          (freshHost [some 1, some 2, some 3])).1.stats,
        LastOneWins (retaggingJson.elements (bytes "metrics")) (bytes "size")
          (initializeDimensions retaggingJson plainCall (.new false false)
            (freshHost [some 1, some 2, some 3])).1
          (initializeDimensions retaggingJson plainCall (.new false false)
            (freshHost [some 1, some 2, some 3])).2 statgen := by
  have hwf : WellFormed (fun _ => true) retaggingJson := by
    refine ⟨fun definition hmem => ?_, fun metric hmem => ?_⟩
    · obtain rfl := List.mem_singleton.1 hmem
      exact ⟨by decide +kernel, by decide +kernel, rfl⟩
    · rcases List.mem_cons.1 hmem with rfl | hmem
      · refine ⟨fun value hfind => ⟨_, (Option.some.inj hfind).symm, ?_⟩,
          fun _ hfind => nomatch hfind⟩
        exact List.forall_mem_cons.2 ⟨⟨_, rfl, rfl⟩, List.forall_mem_singleton.2 ⟨_, rfl, rfl⟩⟩
      · obtain rfl := List.mem_singleton.1 hmem
        refine ⟨(fun _ hfind => nomatch hfind),
          fun value hfind => ⟨_, (Option.some.inj hfind).symm, ?_⟩⟩
        exact List.forall_mem_singleton.2 ⟨_, rfl⟩
  have hhost : Deterministic (fun _ => true) retaggingJson
      ((RootContext.new false false).toExpressions
        (freshHost [some 1, some 2, some 3]).toExpressionHost).cleanupExpressions :=
    ⟨fun _ => by decide +kernel, by decide +kernel⟩
  obtain ⟨hexists, hwins⟩ := overrides_last_one_wins plainCall (.new false false)
    (freshHost [some 1, some 2, some 3]) hwf hhost
  have hdrops : ∀ name, ∀ metric ∈ retaggingJson.elements (bytes "metrics"),
      ¬ Drops metric name := by
    intro name metric hmem hdrops
    have hdrop := hdrops.2
    rcases List.mem_cons.1 hmem with rfl | hmem
    · revert hdrop
      decide +kernel
    · obtain rfl := List.mem_singleton.1 hmem
      revert hdrop
      decide +kernel
  obtain ⟨statgen, hmem, hname⟩ := hexists (bytes "requests_total") (.inl (by decide +kernel))
    (hdrops _)
  obtain ⟨statgen', hmem', hname'⟩ := hexists (bytes "size")
    (.inr ⟨_, List.mem_cons_self, by decide +kernel⟩) (hdrops _)
  exact ⟨⟨statgen, hmem, hwins statgen hmem _ hname⟩, statgen', hmem',
    hwins statgen' hmem' _ hname'⟩

end Stats

end WasmExtensions
