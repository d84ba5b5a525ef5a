import WasmExtensions.Delimited.Basic
import WasmExtensions.Stats.CacheTransparency

/-!
# What the name of a metric says

The full name of a metric contains its tags and their values, with separators in between that are
not escaped.  A value that contains the separators and the name of the next tag reads like two
tags, and such values may come with a request (`names_merge`).

* `StatGen.fields` : the tags and values in the full name.
* `StatGen.Unambiguous` : no value but the last contains what should follow it.
* `names_differ` : **the names of unambiguous vectors tell their values apart; and a vector that is
  not unambiguous shares its name with another one**, if the tags have different indexes.
-/

namespace WasmExtensions

namespace Stats

namespace StatGen

/-- The indexes of the tags are in range. -/
def Selects (statgen : StatGen) (d : IstioDimensions) : Prop :=
  ∀ i ∈ statgen.indexes, i < d.length

instance (statgen : StatGen) (d : IstioDimensions) : Decidable (statgen.Selects d) :=
  inferInstanceAs (Decidable (∀ i ∈ _, _))

/-- What stands before the value of each tag. -/
def labels (statgen : StatGen) : List Bytes :=
  statgen.metric.tags.map fun tag => tag ++ statgen.metric.valueSeparator

/-- The values of the tags. -/
def values (statgen : StatGen) (d : IstioDimensions) : List Bytes :=
  statgen.indexes.map fun i => d[i]?.getD []

/-- The tags and their values, as they stand in the full name. -/
def fields (statgen : StatGen) (d : IstioDimensions) : List (Bytes × Bytes) :=
  statgen.labels.zip (statgen.values d)

/-- No value but the last contains the field separator, the next tag and the value separator. -/
def Unambiguous (statgen : StatGen) (d : IstioDimensions) : Prop :=
  Delimited.Unambiguous statgen.metric.fieldSeparator (statgen.fields d)

end StatGen

variable {statgen : StatGen} {d d' : IstioDimensions}

theorem length_labels : statgen.labels.length = (statgen.values d).length := by
  simp [StatGen.labels, StatGen.values, statgen.sizes]

theorem map_fst_fields : (statgen.fields d).map Prod.fst = statgen.labels :=
  List.map_fst_zip (Nat.le_of_eq length_labels)

theorem mapM_eq_some_map {A B : Type} {f : A → Option B} {g : A → B} {as : List A}
    (h : ∀ a ∈ as, f a = some (g a)) : as.mapM f = some (as.map g) := by
  induction as with
  | nil => rfl
  | cons a as ih =>
    rw [List.mapM_cons, h a List.mem_cons_self, ih fun a' ha' => h a' (List.mem_cons_of_mem _ ha')]
    rfl

/-- The full name is the text of the fields. -/
theorem fullName_eq (h : statgen.Selects d) : statgen.fullName d =
    some (statgen.metric.namePrefix ++
      Delimited.join statgen.metric.fieldSeparator (statgen.fields d) ++ statgen.metric.name) := by
  have hfields : (statgen.metric.tags.zip statgen.indexes).mapM (fun p =>
        d[p.2]?.map fun value =>
          p.1 ++ statgen.metric.valueSeparator ++ value ++ statgen.metric.fieldSeparator) =
      some ((statgen.metric.tags.zip statgen.indexes).map fun p =>
        p.1 ++ statgen.metric.valueSeparator ++ d[p.2]?.getD [] ++
          statgen.metric.fieldSeparator) := by
    refine mapM_eq_some_map ?_
    rintro ⟨tag, i⟩ hpair
    have hlt := h i (List.of_mem_zip hpair).2
    simp [hlt]
  rw [StatGen.fullName_def, hfields, Option.map_some, StatGen.fields, StatGen.labels,
    StatGen.values, List.zip_map]
  simp [Delimited.join, List.flatMap_def, Function.comp_def]

/-- Vectors with the same fields have the same values at the selected indexes. -/
theorem values_eq_iff (h : statgen.Selects d) (h' : statgen.Selects d') :
    statgen.values d = statgen.values d' ↔ ∀ i ∈ statgen.indexes, d[i]? = d'[i]? := by
  simp only [StatGen.values, List.map_inj_left]
  refine forall₂_congr fun i hi => ?_
  simp [h i hi, h' i hi]

theorem fields_injective (h : statgen.fields d = statgen.fields d') :
    statgen.values d = statgen.values d' := by
  have hsnd := congrArg (List.map Prod.snd) h
  simp only [StatGen.fields] at hsnd
  rwa [List.map_snd_zip (Nat.le_of_eq length_labels.symm),
    List.map_snd_zip (Nat.le_of_eq length_labels.symm)] at hsnd

/-- Any values can be put at different indexes. -/
theorem exists_values {indexes : List ℕ} {values : List Bytes} (hnodup : indexes.Nodup)
    (hlength : values.length = indexes.length) (hrange : ∀ i ∈ indexes, i < d.length) :
    ∃ d' : IstioDimensions, d'.length = d.length ∧
      indexes.map (fun i => d'[i]?.getD []) = values := by
  induction indexes generalizing values with
  | nil => exact ⟨d, rfl, (List.length_eq_zero_iff.1 hlength).symm⟩
  | cons i indexes ih =>
    rcases values with _ | ⟨value, values⟩
    · cases hlength
    · rw [List.forall_mem_cons] at hrange
      obtain ⟨hfresh, hnodup⟩ := List.nodup_cons.1 hnodup
      obtain ⟨d', hd', hvalues⟩ := ih hnodup (Nat.succ.inj hlength) hrange.2
      have hlt : i < d'.length := hd' ▸ hrange.1
      have hothers : indexes.map (fun j => (d'.set i value)[j]?.getD []) = values := by
        rw [← hvalues]
        refine List.map_congr_left fun j hj => ?_
        have hne : i ≠ j := by
          rintro rfl
          exact hfresh hj
        rw [List.getElem?_set_ne hne]
      refine ⟨d'.set i value, by rw [List.length_set, hd'], ?_⟩
      rw [List.map_cons, hothers, List.getElem?_set_self hlt, Option.getD_some]

/-- Unambiguous vectors with different values have different names. -/
theorem fullName_ne (hselects : statgen.Selects d) (hselects' : statgen.Selects d')
    (hplain : statgen.Unambiguous d) (hplain' : statgen.Unambiguous d')
    (hdiffer : ∃ i ∈ statgen.indexes, d[i]? ≠ d'[i]?) :
    statgen.fullName d ≠ statgen.fullName d' := by
  intro heq
  rw [fullName_eq hselects, fullName_eq hselects', Option.some.injEq, List.append_assoc,
    List.append_assoc] at heq
  have hfields := Delimited.join_injective (map_fst_fields.trans map_fst_fields.symm) hplain hplain'
    (List.append_cancel_left heq)
  obtain ⟨i, hi, hne⟩ := hdiffer
  exact hne ((values_eq_iff hselects hselects').1 (fields_injective hfields) i hi)

/-- A vector that is not unambiguous shares its name with another one. -/
theorem exists_fullName_eq (hnodup : statgen.indexes.Nodup) (hselects : statgen.Selects d)
    (hplain : ¬ statgen.Unambiguous d) :
    ∃ d' : IstioDimensions, d'.length = d.length ∧ (∃ i ∈ statgen.indexes, d[i]? ≠ d'[i]?) ∧
      statgen.fullName d = statgen.fullName d' := by
  obtain ⟨fields, hlabels, hjoin, hne⟩ := Delimited.exists_join_eq hplain
  rw [map_fst_fields] at hlabels
  have hlength : (fields.map Prod.snd).length = statgen.indexes.length := by
    rw [List.length_map, ← List.length_map (f := Prod.fst), hlabels, length_labels (d := d),
      StatGen.values, List.length_map]
  obtain ⟨d', hd', hvalues⟩ := exists_values hnodup hlength hselects
  have hselects' : statgen.Selects d' := by
    intro i hi
    rw [hd']
    exact hselects i hi
  have hfields : statgen.fields d' = fields := by
    simp only [StatGen.fields, StatGen.values, hvalues]
    exact (List.zip_of_prod hlabels rfl).symm
  refine ⟨d', hd', ?_, ?_⟩
  · by_contra hsame
    have hall : ∀ i ∈ statgen.indexes, d[i]? = d'[i]? := by simpa using hsame
    refine hne ?_
    rw [← hfields, StatGen.fields, ← (values_eq_iff hselects hselects').2 hall]
    rfl
  · rw [fullName_eq hselects, fullName_eq hselects', hfields, hjoin]

/-- **Names tell unambiguous values apart**, and other values are merged with unequal ones. -/
theorem names_differ (statgen : StatGen) :
    (∀ d d', statgen.Selects d → statgen.Selects d' → statgen.Unambiguous d →
      statgen.Unambiguous d' → (∃ i ∈ statgen.indexes, d[i]? ≠ d'[i]?) →
        statgen.fullName d ≠ statgen.fullName d') ∧
    (statgen.indexes.Nodup → ∀ d, statgen.Selects d → ¬ statgen.Unambiguous d →
      ∃ d' : IstioDimensions, d'.length = d.length ∧ (∃ i ∈ statgen.indexes, d[i]? ≠ d'[i]?) ∧
        statgen.fullName d = statgen.fullName d') :=
  ⟨fun _ _ => fullName_ne, fun hnodup _ => exists_fullName_eq hnodup⟩

/-- A generator with two of the tags of requests. -/
def serviceStatGen : StatGen where
  recurrent := false
  protocols := 0x6
  indexes := [StandardLabels.destinationService.index, StandardLabels.destinationServiceName.index]
  extractor := .requestsTotal
  metric := ⟨.Counter, bytes "istio_requests_total", [],
    [bytes "destination_service", bytes "destination_service_name"], bytes ";.;", bytes "=.="⟩
  sizes := rfl

/-- The dimensions of a request to this service. -/
def serviceDimensions (service name : Bytes) : IstioDimensions :=
  assign .destinationServiceName name
    (assign .destinationService service (List.replicate countStandardLabels []))

theorem names_differ_services :
    serviceStatGen.fullName (serviceDimensions (bytes "a") (bytes "c")) ≠
      serviceStatGen.fullName (serviceDimensions (bytes "b") (bytes "c")) := by
  refine (names_differ serviceStatGen).1 _ _ (by decide) (by decide) ?_ ?_ (by decide)
  · exact ⟨Delimited.plain_of_notMem (by decide), trivial⟩
  · exact ⟨Delimited.plain_of_notMem (by decide), trivial⟩

/-- **The requests to two services are counted as one metric.** -/
theorem names_merge : ¬ ∀ (statgen : StatGen) (d d' : IstioDimensions),
    2 ≤ statgen.metric.tags.length → statgen.Selects d → statgen.Selects d' →
      (∃ i ∈ statgen.indexes, d[i]? ≠ d'[i]?) → statgen.fullName d ≠ statgen.fullName d' := by
  intro h
  refine h serviceStatGen (serviceDimensions (bytes "a;.;destination_service_name=.=b") (bytes "c"))
    (serviceDimensions (bytes "a") (bytes "b;.;destination_service_name=.=c")) (by decide)
    (by decide) (by decide) (by decide) ?_
  decide

end Stats

end WasmExtensions
