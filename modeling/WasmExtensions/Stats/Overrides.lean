import WasmExtensions.Assignments.Basic
import WasmExtensions.Stats.Configured

/-!
# Overrides of metrics

An entry of `metrics` is read into an `Override` first, as far as the code gets with it.  Reading
does not depend on the metrics, so what a visit does can be said in a closed form
(`visitMetric_eq`): it drops metrics, or asks for the expressions of its dimensions and changes the
tags of every metric to which it applies, each of them in the same way (`Override.apply`).
-/

namespace WasmExtensions

namespace Stats

/-! ### Reading an entry -/

/-- An override, as far as it could be read. -/
structure Override where
  name : Bytes
  drop : Bool
  /-- The tags to remove. -/
  removed : List Bytes
  /-- The tags that get a value, and the expressions of the values. -/
  assigned : List (Bytes × Bytes)
  /-- Nothing was found that should not be there. -/
  complete : Bool
  deriving DecidableEq, Repr

/-- The strings of a list, up to the first value that is not a string. -/
def readStrings : List Json → Bool × List Bytes
  | [] => (true, [])
  | .string s :: values => ((readStrings values).1, s :: (readStrings values).2)
  | _ :: _ => (false, [])

def tagsToRemove (metric : Json) : Bool × List Bytes :=
  match metric.find (bytes "tags_to_remove") with
  | none => (true, [])
  | some (.array tags) => readStrings tags
  | some _ => (false, [])

/-- The tags of the dimensions, sorted. -/
def dimensionTags (metric : Json) : Option (List Bytes) :=
  match metric.find (bytes "dimensions") with
  | none => some []
  | some (.object fields) => some ((fields.map Prod.fst).insertionSort (· ≤ ·))
  | some _ => none

/-- The value of a tag in the dimensions. -/
def dimension (metric : Json) (tag : Bytes) : Option Json :=
  (metric.find (bytes "dimensions")).bind (Json.find tag)

/-- The tags with their expressions, up to the first value that is not a string. -/
def readDimensions (metric : Json) : List Bytes → Bool × List (Bytes × Bytes)
  | [] => (true, [])
  | tag :: tags =>
    match dimension metric tag with
    | some (.string expression) =>
      ((readDimensions metric tags).1, (tag, expression) :: (readDimensions metric tags).2)
    | _ => (false, [])

/-- Reads the rest of an entry, after the tags. -/
def readTagged (metric : Json) (tags : List Bytes) : Override :=
  let assigned := if (tagsToRemove metric).1 then readDimensions metric tags else (false, [])
  { name := stringField metric (bytes "name")
    drop := valueOr (jsonGetField jsonValueAsBool metric (bytes "drop")) false
    removed := (tagsToRemove metric).2
    assigned := assigned.2
    complete := assigned.1 }

def readOverride (metric : Json) : Option Override := (dimensionTags metric).map (readTagged metric)

/-! ### The tags of a metric -/

/-- The tags of one metric, and their indexes. -/
structure Tagging where
  tags : List Bytes
  indexes : Bytes → Option (Option ℕ)

namespace Tagging

def remove (t : Tagging) (tag : Bytes) : Tagging :=
  if (t.indexes tag).isSome then
    { t with indexes := Function.update t.indexes tag (some none) }
  else t

def set (t : Tagging) (tag : Bytes) (index : Option ℕ) : Tagging where
  tags := if (t.indexes tag).isSome then t.tags else t.tags ++ [tag]
  indexes := Function.update t.indexes tag (some index)

def removeAll (removed : List Bytes) (t : Tagging) : Tagging := removed.foldl remove t

def setAll (indexes : List (Bytes × Option ℕ)) (t : Tagging) : Tagging :=
  indexes.foldl (fun t u => t.set u.1 u.2) t

/-- The index of a tag that is there. -/
def index (t : Tagging) (tag : Bytes) : Option ℕ := (t.indexes tag).join

/-- The tags that are there, with their indexes. -/
def indexed (t : Tagging) : List (Bytes × ℕ) :=
  t.tags.filterMap fun tag => (t.index tag).map fun i => (tag, i)

/-- A tag is listed once, and it is listed if the code has an index for it, be it empty. -/
structure Wf (t : Tagging) : Prop where
  nodup : t.tags.Nodup
  listed : ∀ tag, tag ∈ t.tags ↔ (t.indexes tag).isSome

variable {t : Tagging} {tag tag' : Bytes} {index : Option ℕ}

theorem index_remove : (t.remove tag).index = Function.update t.index tag none := by
  funext tag'
  unfold remove Tagging.index
  by_cases htag : tag' = tag
  · subst htag
    split_ifs with hsome
    · simp
    · rw [Function.update_self, Option.not_isSome_iff_eq_none.1 hsome]; rfl
  · split_ifs <;> simp [htag]

theorem index_set : (t.set tag index).index = Function.update t.index tag index := by
  funext tag'
  unfold set Tagging.index
  by_cases htag : tag' = tag
  · subst htag
    simp
  · simp [htag]

theorem Wf.remove (h : t.Wf) : (t.remove tag).Wf := by
  unfold Tagging.remove
  split_ifs with hsome
  · refine ⟨h.nodup, fun tag' => ?_⟩
    by_cases htag : tag' = tag
    · subst htag
      simpa using (h.listed tag').2 hsome
    · simpa [htag] using h.listed tag'
  · exact h

theorem Wf.set (h : t.Wf) : (t.set tag index).Wf := by
  unfold Tagging.set
  by_cases hsome : (t.indexes tag).isSome
  · refine ⟨by simpa [hsome] using h.nodup, fun tag' => ?_⟩
    by_cases htag : tag' = tag
    · subst htag
      simpa [hsome] using (h.listed tag').2 hsome
    · simpa [hsome, Function.update_of_ne htag] using h.listed tag'
  · -- The tag is new, so it is appended.
    have hnew : tag ∉ t.tags := fun hmem => hsome ((h.listed tag).1 hmem)
    refine ⟨?_, fun tag' => ?_⟩
    · rw [if_neg hsome]
      exact List.nodup_append.2 ⟨h.nodup, List.nodup_singleton _, fun a ha b hb heq =>
        hnew (List.mem_singleton.1 hb ▸ heq ▸ ha)⟩
    · dsimp only
      rw [if_neg hsome, List.mem_append, List.mem_singleton]
      by_cases htag : tag' = tag
      · subst htag
        rw [Function.update_self]
        exact iff_of_true (.inr rfl) rfl
      · rw [Function.update_of_ne htag, ← h.listed tag']
        exact or_iff_left htag

theorem map_fst_indexed (t : Tagging) :
    t.indexed.map Prod.fst = t.tags.filter fun tag => (t.index tag).isSome := by
  unfold indexed
  induction t.tags with
  | nil => rfl
  | cons tag tags ih =>
    cases hindex : t.index tag with
    | none =>
      rw [List.filterMap_cons_none (by rw [hindex]; rfl), ih,
        List.filter_cons_of_neg (by simp [hindex])]
    | some i =>
      rw [List.filterMap_cons_some (by rw [hindex]; rfl), List.map_cons, ih,
        List.filter_cons_of_pos (by simp [hindex])]

theorem Wf.nodup_indexed (h : t.Wf) : (t.indexed.map Prod.fst).Nodup := by
  rw [map_fst_indexed]
  exact h.nodup.filter _

/-- The tags that are there are those with an index. -/
theorem Wf.mem_map_fst_indexed (h : t.Wf) :
    tag ∈ t.indexed.map Prod.fst ↔ (t.index tag).isSome = true := by
  rw [map_fst_indexed, List.mem_filter]
  refine and_iff_right_of_imp fun hsome => (h.listed tag).2 ?_
  unfold Tagging.index at hsome
  cases hindex : t.indexes tag with
  | none =>
    rw [hindex] at hsome
    cases hsome
  | some index => rfl

theorem Wf.mem_indexed (h : t.Wf) {i : ℕ} : (tag, i) ∈ t.indexed ↔ t.index tag = some i := by
  unfold indexed
  rw [List.mem_filterMap]
  constructor
  · rintro ⟨tag', -, heq⟩
    obtain ⟨i', hi', hpair⟩ := Option.map_eq_some_iff.1 heq
    obtain ⟨rfl, rfl⟩ := Prod.mk.inj hpair
    exact hi'
  · intro hindex
    refine ⟨tag, (h.listed tag).2 ?_, by rw [hindex]; rfl⟩
    unfold Tagging.index at hindex
    rw [Option.join_eq_some_iff.1 hindex]; rfl

theorem index_eq_of_indexed {t' : Tagging} (h : t.Wf) (h' : t'.Wf) (heq : t.indexed = t'.indexed) :
    t.index = t'.index := by
  funext tag
  apply Option.ext
  intro i
  rw [← h.mem_indexed, ← h'.mem_indexed, heq]

theorem tags_remove : (t.remove tag).tags = t.tags := by
  unfold remove
  split_ifs <;> rfl

theorem prefix_tags_set : t.tags <+: (t.set tag index).tags := by
  unfold set
  dsimp only
  split_ifs
  · exact List.prefix_refl _
  · exact List.prefix_append _ _

/-- Tags without an index that come behind do not show. -/
theorem indexed_eq_of_prefix {t' : Tagging} (h : t.Wf) (h' : t'.Wf) (hpre : t.tags <+: t'.tags)
    (hindex : t'.index = t.index) : t'.indexed = t.indexed := by
  obtain ⟨extra, htags⟩ := hpre
  have hextra : extra.filterMap (fun tag => (t.index tag).map fun i => (tag, i)) = [] := by
    rw [List.filterMap_eq_nil_iff]
    intro tag hmem
    have hnot : tag ∉ t.tags := fun hmem' =>
      (List.nodup_append.1 (htags ▸ h'.nodup)).2.2 tag hmem' tag hmem rfl
    rw [h.listed, Option.not_isSome_iff_eq_none] at hnot
    rw [Tagging.index, hnot]; rfl
  unfold indexed
  rw [← htags, hindex, List.filterMap_append, hextra, List.append_nil]

end Tagging

/-- What an override makes of the tags of a metric, once the indexes are known. -/
def Override.retag (o : Override) (indexes : List (Bytes × Option ℕ)) (t : Tagging) : Tagging :=
  (t.removeAll o.removed).setAll indexes

namespace Building

def tagging (b : Building) (name : Bytes) : Tagging := ⟨b.metricTags name, b.metricIndexes name⟩

/-- Changes the tags of one metric. -/
def retag (b : Building) (name : Bytes) (f : Tagging → Tagging) : Building :=
  { b with
    metricTags := Function.update b.metricTags name (f (b.tagging name)).tags
    metricIndexes := Function.update b.metricIndexes name (f (b.tagging name)).indexes }

/-- The names of the metrics. -/
def names (b : Building) : List Bytes := b.factories.map MetricFactory.name

def withExpressions (b : Building) (e : Expressions) : Building := { b with toExpressions := e }

variable {b : Building} {name name' : Bytes} {f g : Tagging → Tagging} {e : Expressions}

@[simp] theorem tagging_retag_self : (b.retag name f).tagging name = f (b.tagging name) := by
  simp [retag, tagging]

@[simp] theorem tagging_retag_of_ne (h : name' ≠ name) :
    (b.retag name f).tagging name' = b.tagging name' := by
  simp [retag, tagging, h]

theorem retag_id : b.retag name id = b := by
  simp [retag, tagging]

theorem retag_retag : (b.retag name f).retag name g = b.retag name (g ∘ f) := by
  simp [retag, tagging]

/-- The expressions do not matter for the tags. -/
theorem retag_withExpressions_retag : ((b.retag name f).withExpressions e).retag name g =
    (b.withExpressions e).retag name (g ∘ f) := by
  have hswap : (b.retag name f).withExpressions e = (b.withExpressions e).retag name f := rfl
  rw [hswap, retag_retag]

end Building

/-- Asks for the expressions of tags; the result are the indexes of the tags. -/
def Expressions.addAll : List (Bytes × Bytes) → Expressions → List (Bytes × Option ℕ) × Expressions
  | [], e => ([], e)
  | (tag, expression) :: assigned, e =>
    let (position, e) := e.addStringExpression expression
    let (indexes, e) := addAll assigned e
    ((tag, position.map fun position => countStandardLabels + position) :: indexes, e)

namespace Override

/-- The override applies to the metric with this name. -/
def applies (o : Override) (name : Bytes) : Bool := o.name.isEmpty || o.name = name

/-- The override carried out for one metric. -/
def apply (o : Override) (name : Bytes) (b : Building) : Building :=
  (b.withExpressions (b.toExpressions.addAll o.assigned).2).retag name
    (o.retag (b.toExpressions.addAll o.assigned).1)

/-- The metrics for which an override is carried out: if it is not complete then only the first one
to which it applies. -/
def treated (o : Override) (names : List Bytes) : List Bytes :=
  if o.drop then []
  else if o.complete then names.filter o.applies
  else (names.filter o.applies).take 1

/-- The override leaves the metric with this name. -/
def leaves (o : Override) (name : Bytes) : Bool := !(o.drop && o.applies name)

/-- The loop over the metrics comes to its end. -/
def finishes (o : Override) (names : List Bytes) : Bool :=
  o.drop || o.complete || !names.any o.applies

/-- The visit of an entry. -/
def visit (o : Override) (b : Building) : Building :=
  { (o.treated b.names).foldl (fun b name => o.apply name b) b with
    factories := b.factories.filter fun factory => o.leaves factory.name }

end Override

/-- The entries that are visited, each with the names of the metrics that it finds.  The last one
may be left before its end. -/
def visited : List Json → List Bytes → List (Override × List Bytes)
  | [], _ => []
  | metric :: metrics, names =>
    match readOverride metric with
    | none => []
    | some o =>
      (o, names) :: if o.finishes names then visited metrics (names.filter o.leaves) else []

/-! ### What a visit does -/

section

variable {metric : Json} {name tag : Bytes} {b : Building} {tags : List Bytes}
  {factories : List MetricFactory}

/-- An index is set in the tags of its metric. -/
theorem setIndex_metricIndexes (b : Building) (name tag : Bytes) (index : Option ℕ) :
    (b.setIndex name tag index).metricIndexes = Function.update b.metricIndexes name
      (Function.update (b.metricIndexes name) tag (some index)) := by
  funext name' tag'
  by_cases hname : name' = name
  · subst hname
    by_cases htag : tag' = tag <;> simp [Building.setIndex, htag]
  · simp [Building.setIndex, hname]

theorem visitTagToRemove_string :
    visitTagToRemove name (.string tag) b = (true, b.retag name fun t => t.remove tag) := by
  unfold visitTagToRemove jsonValueAsString Tagging.remove
  dsimp only [Building.tagging]
  split_ifs with hsome
  · unfold Building.retag Building.tagging
    dsimp only
    rw [if_pos hsome, Function.update_eq_self, ← setIndex_metricIndexes]
    rfl
  · unfold Building.retag Building.tagging
    dsimp only
    rw [if_neg hsome, Function.update_eq_self, Function.update_eq_self]

theorem iterate_visitTagToRemove (values : List Json) :
    iterate (visitTagToRemove name) values b =
      ((readStrings values).1, b.retag name (.removeAll (readStrings values).2)) := by
  induction values generalizing b with
  | nil => exact congrArg (Prod.mk true) Building.retag_id.symm
  | cons value values ih =>
    cases value with
    | string tag =>
      rw [iterate_cons_of_true visitTagToRemove_string, ih, Building.retag_retag]; rfl
    | null | boolean | number | array | object =>
      exact congrArg (Prod.mk false) Building.retag_id.symm

theorem jsonArrayIterate_visitTagToRemove :
    jsonArrayIterate metric (bytes "tags_to_remove") (visitTagToRemove name) b =
      ((tagsToRemove metric).1, b.retag name (.removeAll (tagsToRemove metric).2)) := by
  unfold jsonArrayIterate tagsToRemove
  cases metric.find (bytes "tags_to_remove") with
  | none => exact congrArg (Prod.mk true) Building.retag_id.symm
  | some value =>
    cases value with
    | array values => exact iterate_visitTagToRemove values
    | null | boolean | number | string | object =>
      exact congrArg (Prod.mk false) Building.retag_id.symm

theorem visitTag_string {expression : Bytes}
    (h : dimension metric tag = some (.string expression)) :
    visitTag metric name tag b =
      (true, (b.withExpressions (b.addStringExpression expression).2).retag name fun t =>
        t.set tag ((b.addStringExpression expression).1.map (countStandardLabels + ·))) := by
  have htags : Function.update b.metricTags name (b.metricTags name ++ [tag]) =
      fun name' => if name' = name then b.metricTags name ++ [tag] else b.metricTags name' := by
    funext name'
    by_cases hname : name' = name <;> simp [hname]
  unfold visitTag
  unfold dimension at h
  rw [h]
  dsimp only
  congr 1
  unfold Building.retag Tagging.set Building.tagging Building.withExpressions
  dsimp only
  rw [← setIndex_metricIndexes]
  split_ifs with hsome
  · rw [Function.update_eq_self]
    rfl
  · rw [htags]
    rfl

theorem visitTag_not_string (h : ∀ expression, dimension metric tag ≠ some (.string expression)) :
    visitTag metric name tag b = (false, b) := by
  unfold visitTag
  unfold dimension at h
  split
  · rename_i expression heq
    exact absurd heq (h expression)
  · rfl

theorem iterate_visitTag (tags : List Bytes) :
    iterate (visitTag metric name) tags b = ((readDimensions metric tags).1,
      (b.withExpressions (b.toExpressions.addAll (readDimensions metric tags).2).2).retag name
        (.setAll (b.toExpressions.addAll (readDimensions metric tags).2).1)) := by
  induction tags generalizing b with
  | nil => exact congrArg (Prod.mk true) Building.retag_id.symm
  | cons tag tags ih =>
    unfold readDimensions
    split
    · rename_i expression hstring
      rw [iterate_cons_of_true (visitTag_string hstring), ih]
      exact congrArg (Prod.mk _) Building.retag_withExpressions_retag
    · rename_i hstring
      rw [iterate_cons_of_false (visitTag_not_string hstring)]
      exact congrArg (Prod.mk false) Building.retag_id.symm

/-- All that an override does to one metric. -/
theorem overrideTags_eq : overrideTags metric tags name b =
    ((readTagged metric tags).complete, (readTagged metric tags).apply name b) := by
  unfold overrideTags readTagged Override.apply
  rw [jsonArrayIterate_visitTagToRemove]
  cases hremoved : (tagsToRemove metric).1 with
  | false => rfl
  | true =>
    dsimp only
    rw [iterate_visitTag, if_pos rfl]
    exact congrArg (Prod.mk _) Building.retag_withExpressions_retag

/-- The loop over the metrics, in a closed form. -/
theorem overrideFactories_eq : overrideFactories metric tags factories b =
    ((readTagged metric tags).finishes (factories.map MetricFactory.name),
      factories.filter fun factory => (readTagged metric tags).leaves factory.name,
      ((readTagged metric tags).treated (factories.map MetricFactory.name)).foldl
        (fun b name => (readTagged metric tags).apply name b) b) := by
  induction factories generalizing b with
  | nil => simp [overrideFactories, Override.finishes, Override.treated]
  | cons factory factories ih =>
    unfold overrideFactories
    rw [overrideTags_eq]
    have hname : stringField metric (bytes "name") = (readTagged metric tags).name := rfl
    have hdrop : valueOr (jsonGetField jsonValueAsBool metric (bytes "drop")) false =
        (readTagged metric tags).drop := rfl
    rw [hname, hdrop]
    generalize readTagged metric tags = o at ih ⊢
    -- The guard of the loop says that the override does not apply.
    have happlies : (!o.name.isEmpty && o.name != factory.name) = !o.applies factory.name := by
      unfold Override.applies
      rw [Bool.not_or, bne, Bool.beq_eq_decide_eq]
    simp only [happlies, ih]
    unfold Override.finishes Override.treated Override.leaves
    cases ha : o.applies factory.name with
    | false => cases o.drop <;> cases o.complete <;> simp [ha]
    | true => cases o.drop <;> cases o.complete <;> simp [ha]

theorem iterate_collect {A : Type} (as as' : List A) :
    iterate (fun a as => (true, as ++ [a])) as as' = (true, as' ++ as) := by
  induction as generalizing as' with
  | nil => rw [List.append_nil]; rfl
  | cons a as ih =>
    unfold iterate
    dsimp only
    rw [ih, List.append_assoc]; rfl

/-- **A visit, in a closed form.** -/
theorem visitMetric_eq : visitMetric metric b =
    match readOverride metric with
    | none => (false, b)
    | some o => (o.finishes b.names, o.visit b) := by
  unfold visitMetric readOverride dimensionTags jsonObjectIterate
  cases metric.find (bytes "dimensions") with
  | none =>
    dsimp only [Option.map_some]
    rw [overrideFactories_eq]; rfl
  | some value =>
    cases value with
    | object fields =>
      dsimp only [Option.map_some]
      rw [iterate_collect, List.nil_append]
      dsimp only
      rw [overrideFactories_eq]; rfl
    | null | boolean | number | string | array => rfl

theorem names_visit {o : Override} : (o.visit b).names = b.names.filter o.leaves := by
  unfold Building.names Override.visit
  rw [List.filter_map]; rfl

/-- Visits, one after the other. -/
inductive Visits : Building → List (Override × List Bytes) → Building → Prop
  | nil {b : Building} : Visits b [] b
  | cons {b b' : Building} {o : Override} {vs : List (Override × List Bytes)} :
      Visits (o.visit b) vs b' → Visits b ((o, b.names) :: vs) b'

theorem Visits.append_inv {b b' : Building} {vs vs' : List (Override × List Bytes)}
    (h : Visits b (vs ++ vs') b') : ∃ b₁, Visits b vs b₁ ∧ Visits b₁ vs' b' := by
  induction vs generalizing b with
  | nil => exact ⟨b, .nil, h⟩
  | cons v vs ih =>
    cases h with
    | cons h =>
      obtain ⟨b₁, hvs, hvs'⟩ := ih h
      exact ⟨b₁, .cons hvs, hvs'⟩

/-- **All visits together.** -/
theorem visits_iterate (metrics : List Json) (b : Building) :
    Visits b (visited metrics b.names) (iterate visitMetric metrics b).2 := by
  induction metrics generalizing b with
  | nil => exact .nil
  | cons metric metrics ih =>
    unfold iterate visited
    rw [visitMetric_eq]
    cases readOverride metric with
    | none => exact .nil
    | some o =>
      refine .cons ?_
      dsimp only
      cases o.finishes b.names with
      | false => exact .nil
      | true =>
        rw [if_pos rfl, ← names_visit]
        exact ih _

end

end Stats

end WasmExtensions
