import WasmExtensions.Stats.OverrideRuns

/-!
# The order of the map of metrics

The overrides walk through an unordered map.  Every entry that is carried out to its end changes
each metric in the same way, whatever the order is.  But an entry that turns out to be malformed is
given up in the middle of the loop over the metrics: the first metric has been changed then, and
all others have not.  With an entry for all metrics it depends on the order which one is the first.

So the metrics that a configuration asks for do not depend on the order exactly if no such entry
changes the tags of a metric (`same_metrics_iff`).
-/

namespace WasmExtensions

namespace Stats

/-! ### What the tags stand for -/

/-- What is printed for a tag: a standard dimension or an expression. -/
inductive TagValue where
  | standard (i : ℕ)
  | expression (input : Bytes)
  deriving DecidableEq, Repr

/-- The index of a value, when these expressions are there. -/
def TagValue.index (e : Expressions) : TagValue → Option ℕ
  | .standard i => some i
  | .expression input => e.index input

/-- A text that does not compile removes the tag. -/
def textValue (compiles : Bytes → Bool) (input : Bytes) : Option TagValue :=
  if compiles input then some (.expression input) else none

/-- The values of the tags of a metric after these overrides. -/
def tagValues (compiles : Bytes → Bool) (os : List Override) (name : Bytes) :
    Bytes → Option TagValue :=
  assignAll ((os.filter fun o => o.applies name).flatMap (Override.updates (textValue compiles)))
    fun tag => ((defaultTagging name).index tag).map .standard

/-- The tags of a metric after these overrides. -/
def carriedTagging (e : Expressions) (os : List Override) (name : Bytes) : Tagging :=
  (os.filter fun o => o.applies name).foldl (fun t o => o.retagged e t) (defaultTagging name)

/-- The value is a standard dimension, or its expression has been created. -/
def TagValue.Known (e : Expressions) (value : Option TagValue) : Prop :=
  (∀ i, value = some (.standard i) → i < countStandardLabels) ∧
    ∀ input, value = some (.expression input) →
      ∃ position, e.inputExpressions.lookup input = some position

section

variable {compiles : Bytes → Bool} {e : Expressions} {os : List Override} {name tag : Bytes}
  {value value' : Option TagValue}

theorem index_textValue (hacc : e.Accepted compiles) (input : Bytes) :
    e.index input = (textValue compiles input).bind (TagValue.index e) := by
  unfold textValue
  split_ifs with hcompiles
  · rfl
  · unfold Expressions.index
    cases hlookup : e.inputExpressions.lookup input with
    | none => rfl
    | some position => exact absurd (hacc input position hlookup) hcompiles

/-- The indexes are those of the values. -/
theorem index_tagValues (hacc : e.Accepted compiles) :
    (carriedTagging e os name).index =
      fun tag => (tagValues compiles os name tag).bind (TagValue.index e) := by
  have hupdates : Override.updates e.index = fun o =>
      (o.updates (textValue compiles)).map fun u => (u.1, u.2.bind (TagValue.index e)) := by
    funext o
    unfold Override.updates
    rw [List.map_append, List.map_map, List.map_map]
    congr 1
    refine List.map_congr_left fun u _ => ?_
    exact congrArg (Prod.mk u.1) (index_textValue hacc u.2)
  have hdefault : (defaultTagging name).index = (fun value : Option TagValue =>
      value.bind (TagValue.index e)) ∘
        fun tag => ((defaultTagging name).index tag).map TagValue.standard := by
    funext tag
    cases hindex : (defaultTagging name).index tag <;> simp [hindex, TagValue.index]
  rw [carriedTagging, index_foldl_retagged, hupdates, hdefault, ← List.map_flatMap,
    assignAll_map fun value : Option TagValue => value.bind (TagValue.index e)]; rfl

theorem TagValue.Known.index_expression {input : Bytes}
    (h : TagValue.Known e (some (.expression input))) :
    ∃ position, e.inputExpressions.lookup input = some position ∧
      e.index input = some (countStandardLabels + position) := by
  obtain ⟨position, hlookup⟩ := h.2 input rfl
  refine ⟨position, hlookup, ?_⟩
  rw [Expressions.index, hlookup]; rfl

/-- Known values with the same index are the same. -/
theorem TagValue.Known.index_inj (hplaced : e.Placed) (h : TagValue.Known e value)
    (h' : TagValue.Known e value')
    (heq : value.bind (TagValue.index e) = value'.bind (TagValue.index e)) : value = value' := by
  -- Expressions come behind the standard dimensions, and different ones have different positions.
  rcases value with _ | ⟨i | input⟩ <;> rcases value' with _ | ⟨i' | input'⟩
  · rfl
  · cases heq
  · obtain ⟨position', -, hindex'⟩ := h'.index_expression
    cases heq.trans hindex'
  · cases heq
  · rw [Option.some.inj heq]
  · obtain ⟨position', -, hindex'⟩ := h'.index_expression
    have hlt := h.1 i rfl
    have hi : some i = some (countStandardLabels + position') := heq.trans hindex'
    have hi := Option.some.inj hi
    omega
  · obtain ⟨position, -, hindex⟩ := h.index_expression
    cases heq.symm.trans hindex
  · obtain ⟨position, -, hindex⟩ := h.index_expression
    have hlt := h'.1 i' rfl
    have hi : some i' = some (countStandardLabels + position) := heq.symm.trans hindex
    have hi := Option.some.inj hi
    omega
  · obtain ⟨position, hlookup, hindex⟩ := h.index_expression
    obtain ⟨position', hlookup', hindex'⟩ := h'.index_expression
    have hposition : some (countStandardLabels + position) =
        some (countStandardLabels + position') := hindex.symm.trans (Eq.trans heq hindex')
    obtain rfl : position = position' := Nat.add_left_cancel (Option.some.inj hposition)
    rw [hplaced.injective input input' position hlookup hlookup']

/-- The values of a metric are known if the expressions of its overrides have been created. -/
theorem known_tagValues (h : ∀ o ∈ os, o.applies name = true → ∀ input ∈ o.inputs,
      compiles input = true → ∃ position, e.inputExpressions.lookup input = some position)
    (tag : Bytes) : TagValue.Known e (tagValues compiles os name tag) := by
  refine assignAll_invariant (I := TagValue.Known e)
    (fun tag => ⟨fun i hi => ?_, fun input hi => ?_⟩) fun u hu => ?_
  · obtain ⟨i', hindex, hstandard⟩ := Option.map_eq_some_iff.1 hi
    obtain rfl := TagValue.standard.inj hstandard
    rw [index_defaultTagging, defaultTagsOf] at hindex
    split at hindex
    · have hlt := (List.idxOf?_eq_some_iff.1 hindex).1
      have htags : defaultTags.length = countStandardLabels := rfl
      rw [List.length_take, htags] at hlt
      omega
    · cases hindex
  · obtain ⟨i', -, hstandard⟩ := Option.map_eq_some_iff.1 hi
    cases hstandard
  · obtain ⟨o, ho, hu⟩ := List.mem_flatMap.1 hu
    obtain ⟨hmem, happlies⟩ := List.mem_filter.1 ho
    rcases List.mem_append.1 hu with hu | hu
    · obtain ⟨tag', -, rfl⟩ := List.mem_map.1 hu
      exact ⟨(fun _ hi => nomatch hi), fun _ hi => nomatch hi⟩
    · obtain ⟨u', hu', rfl⟩ := List.mem_map.1 hu
      refine ⟨fun i hi => ?_, fun input hi => ?_⟩
      · unfold textValue at hi
        split_ifs at hi
        cases Option.some.inj hi
      · unfold textValue at hi
        split_ifs at hi with hcompiles
        obtain rfl := TagValue.expression.inj (Option.some.inj hi)
        exact h o hmem happlies u'.2 (List.mem_map_of_mem hu') hcompiles

end

/-! ### Entries that are given up -/

/-- The last of the overrides is given up in the loop over the metrics. -/
structure Abandons (vs before : List (Override × List Bytes)) (o : Override) (names : List Bytes) :
    Prop where
  eq : vs = before ++ [(o, names)]
  finishes : ∀ v ∈ before, v.1.finishes v.2 = true
  fails : o.finishes names = false

section

variable {vs before : List (Override × List Bytes)} {o : Override} {names names' : List Bytes}
  {names₀ : List Bytes} {metrics : List Json} {name : Bytes} {b b' : Building}

/-- Either all entries are carried out to their ends, or the last one is given up. -/
theorem visited_cases (metrics : List Json) (names : List Bytes) :
    (∀ v ∈ visited metrics names, v.1.finishes v.2 = true) ∨
      ∃ before o names', Abandons (visited metrics names) before o names' := by
  induction metrics generalizing names with
  | nil => exact .inl (by simp [visited])
  | cons metric metrics ih =>
    unfold visited
    cases readOverride metric with
    | none => exact .inl (by simp)
    | some o =>
      dsimp only
      cases hfinishes : o.finishes names with
      | false => exact .inr ⟨[], o, names, rfl, by simp, hfinishes⟩
      | true =>
        rw [if_pos rfl]
        rcases ih (names.filter o.leaves) with hall | ⟨before, o', names', heq, hall, hfails⟩
        · exact .inl (List.forall_mem_cons.2 ⟨hfinishes, hall⟩)
        · exact .inr ⟨(o, names) :: before, o', names', by rw [heq]; rfl,
            List.forall_mem_cons.2 ⟨hfinishes, hall⟩, hfails⟩

theorem map_fst_visited_congr (metrics : List Json) (h : names.Perm names') :
    (visited metrics names').map Prod.fst = (visited metrics names).map Prod.fst := by
  have hvisited := visited_congr metrics h
  generalize visited metrics names = vs, visited metrics names' = vs' at hvisited ⊢
  induction hvisited with
  | nil => rfl
  | @cons v v' vs vs' hv _ ih => rw [List.map_cons, List.map_cons, ih, hv.1]

/-- The same entries are carried out in every order of the metrics. -/
theorem finishes_visited_congr (h : names.Perm names')
    (hall : ∀ v ∈ visited metrics names, v.1.finishes v.2 = true) :
    ∀ v ∈ visited metrics names', v.1.finishes v.2 = true := by
  have hvisited := visited_congr metrics h
  generalize visited metrics names = vs, visited metrics names' = vs' at hvisited hall ⊢
  induction hvisited with
  | nil => exact hall
  | @cons v v' vs vs' hv _ ih =>
    obtain ⟨hfirst, hrest⟩ := List.forall_mem_cons.1 hall
    refine List.forall_mem_cons.2 ⟨?_, ih hrest⟩
    rw [← hv.1, ← finishes_congr hv.2]
    exact hfirst

/-- The same entry is given up in every order of the metrics. -/
theorem Abandons.congr (habandons : Abandons (visited metrics names) before o names₀)
    (h : names.Perm names') : ∃ before' names₁, Abandons (visited metrics names') before' o names₁ ∧
      before'.map Prod.fst = before.map Prod.fst ∧ names₀.Perm names₁ := by
  have hvisited := visited_congr metrics h
  obtain ⟨heq, hall, hfails⟩ := habandons
  rw [heq] at hvisited
  generalize visited metrics names' = vs' at hvisited ⊢
  clear heq
  induction before generalizing vs' with
  | nil =>
    cases hvisited with
    | @cons v v' vs vs' hv hnil =>
      cases hnil
      obtain ⟨o', names₁⟩ := v'
      obtain ⟨heq, hperm⟩ := hv
      obtain rfl : o = o' := heq
      exact ⟨[], names₁, ⟨rfl, (fun _ hv => nomatch hv), finishes_congr hperm ▸ hfails⟩, rfl, hperm⟩
  | cons v before ih =>
    cases hvisited with
    | @cons v v' vs vs' hv hrest =>
      obtain ⟨hfirst, hall'⟩ := List.forall_mem_cons.1 hall
      obtain ⟨before', names₁, ⟨heq, hall'', hfails'⟩, hmap, hperm⟩ := ih hall' _ hrest
      refine ⟨v' :: before', names₁,
        ⟨by rw [heq]; rfl, List.forall_mem_cons.2 ⟨?_, hall''⟩, hfails'⟩,
        by rw [List.map_cons, List.map_cons, hmap, hv.1], hperm⟩
      rw [← hv.1, ← finishes_congr hv.2]
      exact hfirst

/-- The metrics that the entry finds are those that are left by the entries before. -/
theorem Abandons.names_eq (habandons : Abandons vs before o names) (h : Visits b vs b') :
    names = b.names.filter fun name => before.all fun v => v.1.leaves name := by
  rw [habandons.eq] at h
  obtain ⟨b₁, hbefore, hlast⟩ := h.append_inv
  cases hlast with
  | cons _ =>
    unfold Building.names
    rw [factories_visits hbefore, List.filter_map]; rfl

/-- An entry that is given up drops nothing. -/
theorem Abandons.leaves (habandons : Abandons vs before o names) (name : Bytes) :
    o.leaves name = true := by
  have hfails := habandons.fails
  unfold Override.finishes at hfails
  unfold Override.leaves
  cases hdrop : o.drop with
  | false => rfl
  | true =>
    rw [hdrop] at hfails
    cases hfails

/-- The metrics that it finds are left. -/
theorem Abandons.mem_names (habandons : Abandons vs before o names) (h : Visits b vs b') :
    name ∈ b'.names ↔ name ∈ names := by
  rw [mem_names_visits h, habandons.names_eq h, List.mem_filter, List.all_eq_true, habandons.eq]
  refine and_congr_right fun _ => ⟨fun hall v hv => hall v (List.mem_append_left _ hv), ?_⟩
  intro hall v hv
  rcases List.mem_append.1 hv with hv | hv
  · exact hall v hv
  · rw [List.mem_singleton.1 hv]
    exact habandons.leaves name

/-- What has been carried out for a metric when an entry was given up. -/
theorem Abandons.carriedOut_eq (habandons : Abandons vs before o names) (h : Visits b vs b')
    (hleft : name ∈ b'.names) :
    carriedOut vs name = ((before.map Prod.fst).filter fun o => o.applies name) ++
      if name ∈ o.treated names then [o] else [] := by
  have hvisits := h
  rw [habandons.eq] at hvisits
  obtain ⟨b₁, hbefore, hlast⟩ := hvisits.append_inv
  have hleft₁ : name ∈ b₁.names := ((mem_names_visits hlast).1 hleft).1
  rw [← carriedOut_of_finishes hbefore hleft₁ habandons.finishes, habandons.eq]
  unfold carriedOut
  rw [List.filter_append, List.map_append]
  congr 1
  split_ifs with hmem
  · rw [List.filter_cons_of_pos (by simpa using hmem)]; rfl
  · rw [List.filter_cons_of_neg (by simpa using hmem)]; rfl

theorem Abandons.treated_eq (habandons : Abandons vs before o names) (names' : List Bytes) :
    o.treated names' = (names'.filter o.applies).take 1 := by
  have hfails := habandons.fails
  unfold Override.finishes at hfails
  rw [Bool.or_eq_false_iff, Bool.or_eq_false_iff] at hfails
  unfold Override.treated
  rw [hfails.1.1, hfails.1.2]; rfl

/-- An entry with a name is carried out for the metric with that name only. -/
theorem Abandons.mem_treated_of_named (habandons : Abandons vs before o names)
    (hname : o.name ≠ []) :
    name ∈ o.treated names' ↔ name ∈ names' ∧ name = o.name := by
  have happlies : ∀ name, o.applies name = true ↔ name = o.name := by
    intro name
    unfold Override.applies
    rw [Bool.or_eq_true, List.isEmpty_iff, decide_eq_true_iff, or_iff_right hname, eq_comm]
  have hfilter : ∀ name, name ∈ names'.filter o.applies ↔ name ∈ names' ∧ name = o.name := by
    intro name
    rw [List.mem_filter, happlies]
  rw [habandons.treated_eq, ← hfilter]
  refine ⟨List.mem_of_mem_take, fun hmem => ?_⟩
  cases hlist : names'.filter o.applies with
  | nil =>
    rw [hlist] at hmem
    cases hmem
  | cons first rest =>
    have hfirst : first = o.name := ((hfilter first).1 (hlist ▸ List.mem_cons_self)).2
    rw [((hfilter name).1 hmem).2, hfirst]
    exact List.mem_cons_self

end

/-! ### Configurations -/

/-- No entry without a name is given up in the middle, unless there is one metric at most or what
has been read of the entry changes no tag of any metric that is there. -/
def OrderFree (compiles : Bytes → Bool) (j : Json) (e : Expressions) : Prop :=
  ∀ before o names, Abandons (overridesOf j .inserted e) before o names → o.name = [] →
    2 ≤ names.length → ∀ name ∈ names,
      tagValues compiles (before.map Prod.fst ++ [o]) name =
        tagValues compiles (before.map Prod.fst) name

section

variable {j : Json} {e : Expressions} {order order' : MapOrder} {compiles : Bytes → Bool}
  {before : List (Override × List Bytes)} {o : Override} {names : List Bytes} {name : Bytes}

theorem names_reorder_perm (order order' : MapOrder) :
    ((definedMetrics j e).reorder order).names.Perm ((definedMetrics j e).reorder order').names :=
  names_reorder.trans names_reorder.symm

theorem perm_factories_buildMetrics (order order' : MapOrder) :
    (buildMetrics j order e).factories.Perm (buildMetrics j order' e).factories := by
  have hall : ∀ order : MapOrder, (buildMetrics j order e).factories =
      (order.order (definedMetrics j e).factories).filter fun factory =>
        ((overridesOf j .inserted e).map Prod.fst).all fun o => o.leaves factory.name := by
    intro order
    have hmap : (overridesOf j order e).map Prod.fst = (overridesOf j .inserted e).map Prod.fst :=
      map_fst_visited_congr _ (names_reorder_perm _ _)
    rw [factories_visits visits_buildMetrics, ← hmap]
    refine List.filter_congr fun factory _ => ?_
    rw [List.all_map]; rfl
  rw [hall order, hall order']
  exact ((order.perm _).trans (order'.perm _).symm).filter _

theorem perm_names_buildMetrics (order order' : MapOrder) :
    (buildMetrics j order e).names.Perm (buildMetrics j order' e).names :=
  (perm_factories_buildMetrics order order').map _

theorem tagging_of_finishes (he : e.inputExpressions = []) (hanswered : Answered compiles j e)
    (hleft : name ∈ (buildMetrics j order e).names)
    (hall : ∀ v ∈ overridesOf j order e, v.1.finishes v.2 = true) :
    (buildMetrics j order e).tagging name = carriedTagging (buildMetrics j order e).toExpressions
      ((overridesOf j order e).map Prod.fst) name := by
  rw [tagging_buildMetrics he hanswered, carriedOut_of_finishes visits_buildMetrics hleft hall]; rfl

theorem Abandons.reorder (habandons : Abandons (overridesOf j order e) before o names)
    (order' : MapOrder) : ∃ before' names', Abandons (overridesOf j order' e) before' o names' ∧
      before'.map Prod.fst = before.map Prod.fst ∧ names.Perm names' :=
  Abandons.congr habandons (names_reorder_perm order order')

/-- The tags of a metric after an entry that is given up. -/
theorem Abandons.tagging_eq (he : e.inputExpressions = []) (hanswered : Answered compiles j e)
    (hleft : name ∈ (buildMetrics j order e).names)
    (habandons : Abandons (overridesOf j order e) before o names) :
    (buildMetrics j order e).tagging name =
      if name ∈ o.treated names then
        o.retagged (buildMetrics j order e).toExpressions
          (carriedTagging (buildMetrics j order e).toExpressions (before.map Prod.fst) name)
      else carriedTagging (buildMetrics j order e).toExpressions (before.map Prod.fst) name := by
  rw [tagging_buildMetrics he hanswered, habandons.carriedOut_eq visits_buildMetrics hleft,
    List.foldl_append]
  split_ifs <;> rfl

theorem wf_carriedTagging {os : List Override} : (carriedTagging e os name).Wf :=
  wf_foldl_retagged _ _ wf_defaultTagging

theorem carriedTagging_concat {os : List Override} (happlies : o.applies name = true) :
    carriedTagging e (os ++ [o]) name = o.retagged e (carriedTagging e os name) := by
  have hlast : [o].filter (fun o => o.applies name) = [o] := by simp [happlies]
  unfold carriedTagging
  rw [List.filter_append, hlast, List.foldl_append]; rfl

theorem applies_of_nameless (hname : o.name = []) (name : Bytes) : o.applies name = true := by
  unfold Override.applies
  rw [hname]; rfl

/-- An entry without a name that changes no values does not show. -/
theorem indexed_of_tagValues (hacc : e.Accepted compiles) (hname : o.name = []) {os : List Override}
    (hvalues : tagValues compiles (os ++ [o]) name = tagValues compiles os name) :
    (o.retagged e (carriedTagging e os name)).indexed = (carriedTagging e os name).indexed := by
  refine Override.indexed_retagged wf_carriedTagging ?_
  rw [← carriedTagging_concat (applies_of_nameless hname name), index_tagValues hacc,
    index_tagValues hacc, hvalues]

/-- At most one metric has one order only. -/
theorem eq_of_perm_of_length_le {names names' : List Bytes} (h : names.Perm names')
    (hlength : names.length ≤ 1) : names' = names := by
  match names, h with
  | [], h => exact h.nil_eq.symm
  | [first], h => exact List.perm_singleton.1 h.symm
  | _ :: _ :: _, _ => simp at hlength

/-- If the condition holds then a metric that is left has the same tags in every order. -/
theorem indexed_of_orderFree (he : e.inputExpressions = []) (hanswered : Answered compiles j e)
    (hfree : OrderFree compiles j e) (order : MapOrder)
    (hleft : name ∈ (buildMetrics j order e).names) :
    ((buildMetrics j order e).tagging name).indexed =
      ((buildMetrics j .inserted e).tagging name).indexed := by
  have hleft' : name ∈ (buildMetrics j .inserted e).names :=
    (perm_names_buildMetrics order .inserted).mem_iff.1 hleft
  have hexpressions : (buildMetrics j order e).toExpressions =
      (buildMetrics j .inserted e).toExpressions := by
    rw [toExpressions_buildMetrics, toExpressions_buildMetrics]
  have hperm := @names_reorder_perm j e .inserted order
  rcases visited_cases (j.elements (bytes "metrics"))
    ((definedMetrics j e).reorder .inserted).names with hall | ⟨before, o, names, habandons⟩
  · rw [tagging_of_finishes he hanswered hleft (finishes_visited_congr hperm hall),
      tagging_of_finishes he hanswered hleft' hall, hexpressions]
    congr 2
    exact map_fst_visited_congr _ hperm
  · obtain ⟨before', names', habandons', hmap, hnames⟩ := Abandons.reorder habandons order
    rw [habandons'.tagging_eq he hanswered hleft, habandons.tagging_eq he hanswered hleft',
      hexpressions, hmap]
    -- Only the metrics for which the entry was carried out may differ.
    by_cases hname : o.name = []
    · by_cases hlength : 2 ≤ names.length
      · have hmem : name ∈ names := (habandons.mem_names visits_buildMetrics).1 hleft'
        have hacc : (buildMetrics j .inserted e).toExpressions.Accepted compiles :=
          accepted_buildMetrics he hanswered
        have hindexed := indexed_of_tagValues hacc hname
          (hfree before o names habandons hname hlength name hmem)
        split_ifs
        · rfl
        · exact hindexed
        · exact hindexed.symm
        · rfl
      · rw [eq_of_perm_of_length_le hnames (by omega)]
    · -- The name says for which metric the entry is carried out.
      have hiff : name ∈ o.treated names' ↔ name ∈ o.treated names := by
        rw [habandons.mem_treated_of_named hname, habandons.mem_treated_of_named hname,
          hnames.mem_iff]
      simp only [hiff]

end

/-! ### Orders that make a difference -/

/-- The order in which the metric with this name is the first one. -/
def MapOrder.first (name : Bytes) : MapOrder where
  order factories := factories.filter (fun factory => factory.name = name) ++
    factories.filter fun factory => !decide (factory.name = name)
  perm _ := List.filter_append_perm _ _

section

variable {j : Json} {e : Expressions} {compiles : Bytes → Bool}
  {before : List (Override × List Bytes)} {o : Override} {names : List Bytes} {name : Bytes}

/-- In this order an entry for all metrics is carried out for that metric only. -/
theorem Abandons.treated_first
    (habandons : Abandons (overridesOf j (.first name) e) before o names) (hname : o.name = [])
    (hmem : name ∈ names) : o.treated names = [name] := by
  have hnames := habandons.names_eq visits_buildMetrics
  have hsplit : ((definedMetrics j e).reorder (.first name)).names =
      (definedMetrics j e).names.filter (fun name' => name' = name) ++
        (definedMetrics j e).names.filter fun name' => !decide (name' = name) := by
    unfold Building.names
    rw [List.filter_map, List.filter_map, ← List.map_append]; rfl
  rw [hsplit, List.filter_append] at hnames
  have happlies : names.filter o.applies = names :=
    List.filter_eq_self.2 fun name _ => applies_of_nameless hname name
  rw [habandons.treated_eq, happlies]
  rw [hnames] at hmem ⊢
  cases hlist : ((definedMetrics j e).names.filter fun name' => name' = name).filter
      fun name => before.all fun v => v.1.leaves name with
  | nil =>
    rw [hlist, List.nil_append] at hmem
    have hne := (List.mem_filter.1 (List.mem_filter.1 hmem).1).2
    simp at hne
  | cons first rest =>
    have hfirst : first = name := by
      have hin : first ∈ ((definedMetrics j e).names.filter fun name' => name' = name).filter
          fun name => before.all fun v => v.1.leaves name := hlist ▸ List.mem_cons_self
      exact of_decide_eq_true (List.mem_filter.1 (List.mem_filter.1 hin).1).2
    rw [hfirst]; rfl

/-- The expressions of what has been carried out for a metric have been created. -/
theorem known_of_carriedOut {order : MapOrder} (he : e.inputExpressions = [])
    (hanswered : Answered compiles j e) (os : List Override)
    (hcarried : ∀ o ∈ os, o.applies name = true → o ∈ carriedOut (overridesOf j order e) name)
    (tag : Bytes) :
    TagValue.Known (buildMetrics j order e).toExpressions (tagValues compiles os name tag) := by
  refine known_tagValues (fun o hmem happlies input hinput hcompiles => ?_) tag
  obtain ⟨v, hv, rfl⟩ := List.mem_map.1 (hcarried o hmem happlies)
  obtain ⟨hv, htreated⟩ := List.mem_filter.1 hv
  have hrequested : input ∈ requests (overridesOf j .inserted e) := by
    rw [← requests_overridesOf order]
    exact mem_requests hv (of_decide_eq_true htreated) hinput
  have hlookup := Expressions.isSome_lookup_addInputs (accepted_definedMetrics he) hanswered
    hrequested
  rw [hcompiles, ← toExpressions_buildMetrics order] at hlookup
  exact Option.isSome_iff_exists.1 hlookup

end

/-! ### Independence of the order -/

/-- The metrics of two root contexts are the same, up to their order, and so are the expressions. -/
structure SameMetrics (root root' : RootContext) : Prop where
  stats : root.stats.Perm root'.stats
  expressions : root.expressions = root'.expressions
  inputExpressions : root.inputExpressions = root'.inputExpressions

section

variable {j : Json} {compiles : Bytes → Bool} {call : ConfigureCall} {root : RootContext}
  {host : Host} {e : Expressions} {name : Bytes}

theorem statGen_congr {b b' : Building} {fieldSeparator valueSeparator : Bytes}
    {factory : MetricFactory}
    (h : (b.tagging factory.name).indexed = (b'.tagging factory.name).indexed) :
    b.statGen fieldSeparator valueSeparator factory =
      b'.statGen fieldSeparator valueSeparator factory := by
  have hindexed : b.indexedTags factory.name = b'.indexedTags factory.name := h
  unfold Building.statGen
  simp only [hindexed]

/-- Metrics that have the same tags in all orders are the same in all orders. -/
theorem sameMetrics_of_indexed (order order' : MapOrder)
    (h : ∀ name ∈ (buildMetrics j order
        (root.toExpressions host.toExpressionHost).cleanupExpressions).names,
      ((buildMetrics j order
        (root.toExpressions host.toExpressionHost).cleanupExpressions).tagging name).indexed =
      ((buildMetrics j order'
        (root.toExpressions host.toExpressionHost).cleanupExpressions).tagging name).indexed) :
    SameMetrics (initializeDimensions j { call with mapOrder := order } root host).1
      (initializeDimensions j { call with mapOrder := order' } root host).1 := by
  have hexpressions : (buildMetrics j order
      (root.toExpressions host.toExpressionHost).cleanupExpressions).toExpressions =
      (buildMetrics j order'
        (root.toExpressions host.toExpressionHost).cleanupExpressions).toExpressions := by
    rw [toExpressions_buildMetrics, toExpressions_buildMetrics]
  refine ⟨?_, congrArg Expressions.expressions hexpressions,
    congrArg Expressions.inputExpressions hexpressions⟩
  unfold initializeDimensions
  dsimp only
  rw [List.map_congr_left fun factory hmem => statGen_congr (h _ (List.mem_map_of_mem hmem))]
  exact (perm_factories_buildMetrics order order').map _

/-- An entry that makes no difference changes no values. -/
theorem tagValues_of_same (he : e.inputExpressions = []) (hanswered : Answered compiles j e)
    {before : List (Override × List Bytes)} {o : Override} {names : List Bytes} {other : Bytes}
    (habandons : Abandons (overridesOf j .inserted e) before o names) (hname : o.name = [])
    (hmem : name ∈ names) (hother : other ∈ names) (hne : name ≠ other)
    (hsame : ((buildMetrics j (.first name) e).tagging name).indexed =
      ((buildMetrics j (.first other) e).tagging name).indexed) :
    tagValues compiles (before.map Prod.fst ++ [o]) name =
      tagValues compiles (before.map Prod.fst) name := by
  have hexpressions : (buildMetrics j (.first other) e).toExpressions =
      (buildMetrics j (.first name) e).toExpressions := by
    rw [toExpressions_buildMetrics, toExpressions_buildMetrics]
  obtain ⟨before₁, names₁, habandons₁, hmap₁, hperm₁⟩ := habandons.reorder (.first name)
  obtain ⟨before₂, names₂, habandons₂, hmap₂, hperm₂⟩ := habandons.reorder (.first other)
  have htreated₁ := habandons₁.treated_first hname (hperm₁.mem_iff.1 hmem)
  have htreated₂ := habandons₂.treated_first hname (hperm₂.mem_iff.1 hother)
  have hleft₁ := (habandons₁.mem_names visits_buildMetrics).2 (hperm₁.mem_iff.1 hmem)
  have hleft₂ := (habandons₂.mem_names visits_buildMetrics).2 (hperm₂.mem_iff.1 hmem)
  rw [habandons₁.tagging_eq he hanswered hleft₁,
    habandons₂.tagging_eq he hanswered hleft₂, htreated₁, htreated₂,
    if_pos (List.mem_singleton_self name), if_neg (by simpa using hne), hexpressions, hmap₁, hmap₂,
    ← carriedTagging_concat (applies_of_nameless hname name)] at hsame
  -- The entry was carried out for the metric in one order and not in the other.
  have hindex := Tagging.index_eq_of_indexed wf_carriedTagging wf_carriedTagging hsame
  have hacc : (buildMetrics j (.first name) e).toExpressions.Accepted compiles :=
    accepted_buildMetrics he hanswered
  rw [index_tagValues hacc, index_tagValues hacc] at hindex
  have hcarried : carriedOut (overridesOf j (.first name) e) name =
      ((before.map Prod.fst).filter fun o => o.applies name) ++ [o] := by
    rw [habandons₁.carriedOut_eq visits_buildMetrics hleft₁, htreated₁, hmap₁,
      if_pos (List.mem_singleton_self name)]
  have hall : ∀ o' ∈ before.map Prod.fst ++ [o], o'.applies name = true →
      o' ∈ carriedOut (overridesOf j (.first name) e) name := by
    intro o' hmem' happlies
    rw [hcarried]
    rcases List.mem_append.1 hmem' with hbefore | hlast
    · exact List.mem_append_left _ (List.mem_filter.2 ⟨hbefore, happlies⟩)
    · exact List.mem_append_right _ hlast
  have hknown := known_of_carriedOut he hanswered (before.map Prod.fst ++ [o]) hall
  have hknown' := known_of_carriedOut he hanswered (before.map Prod.fst) fun o' hbefore =>
    hall o' (List.mem_append_left _ hbefore)
  funext tag
  exact (hknown tag).index_inj (placed_buildMetrics he) (hknown' tag) (congrFun hindex tag)

/-- **When the metrics do not depend on the order of the map.** -/
theorem same_metrics_iff (call : ConfigureCall) (root : RootContext) (host : Host)
    (hanswered : Answered compiles j
      (root.toExpressions host.toExpressionHost).cleanupExpressions) :
    (∀ order order' : MapOrder,
      SameMetrics (initializeDimensions j { call with mapOrder := order } root host).1
        (initializeDimensions j { call with mapOrder := order' } root host).1) ↔
      OrderFree compiles j (root.toExpressions host.toExpressionHost).cleanupExpressions := by
  constructor
  · intro hsame before o names habandons hname hlength name hmem
    have hnodup : names.Nodup := by
      rw [habandons.names_eq visits_buildMetrics]
      exact nodup_names_reorder.filter _
    obtain ⟨other, hother, hne⟩ : ∃ other ∈ names, name ≠ other := by
      by_contra hnot
      have hsub : names ⊆ [name] := fun other hother => by
        rw [List.mem_singleton]
        by_contra hne
        exact hnot ⟨other, hother, Ne.symm hne⟩
      have hle := (hnodup.subperm hsub).length_le
      rw [List.length_singleton] at hle
      omega
    -- Compare the order that begins with this metric and one that begins with another one.
    refine tagValues_of_same rfl hanswered habandons hname hmem hother hne ?_
    have hleft : name ∈ (buildMetrics j (.first name)
        (root.toExpressions host.toExpressionHost).cleanupExpressions).names :=
      (perm_names_buildMetrics _ _).mem_iff.1 ((habandons.mem_names visits_buildMetrics).2 hmem)
    obtain ⟨statgen, hmem₁, hstatgen⟩ := @exists_statGen_of_mem_names j name
      { call with mapOrder := .first name } root host hleft
    have hmem₂ := (hsame (.first name) (.first other)).stats.mem_iff.1 hmem₁
    exact (indexed_of_mem_stats hmem₁ hstatgen).2.1.symm.trans
      (indexed_of_mem_stats hmem₂ hstatgen).2.1
  · intro hfree order order'
    refine sameMetrics_of_indexed order order' fun name hleft => ?_
    rw [indexed_of_orderFree rfl hanswered hfree order hleft, indexed_of_orderFree rfl hanswered
      hfree order' ((perm_names_buildMetrics order order').mem_iff.1 hleft)]

end

/-- An entry for all metrics that adds a tag, and one that is given up after it has removed one. -/
def halfReadJson : Json :=
  .object [(bytes "metrics", .array
    [.object [(bytes "dimensions", .object
        [(bytes "request_host", .string (bytes "request.host"))])],
      .object [(bytes "tags_to_remove", .array
        [.string (bytes "reporter"), .number (.unsigned 5)])]])]

/-- The condition decides about this configuration. -/
theorem same_metrics_iff_half_read :
    (∀ order order' : MapOrder,
      SameMetrics
        (initializeDimensions halfReadJson { plainCall with mapOrder := order } (.new false false)
          (freshHost [some 1])).1
        (initializeDimensions halfReadJson { plainCall with mapOrder := order' } (.new false false)
          (freshHost [some 1])).1) ↔
      OrderFree (fun _ => true) halfReadJson
        ((RootContext.new false false).toExpressions
          (freshHost [some 1]).toExpressionHost).cleanupExpressions :=
  same_metrics_iff plainCall (.new false false) (freshHost [some 1]) (by decide +kernel)

/-- The metric that comes first has lost a tag, and it need not be the same metric. -/
theorem first_metric_differs :
    Answered (fun _ => true) halfReadJson ((RootContext.new false false).toExpressions
        (freshHost [some 1]).toExpressionHost).cleanupExpressions ∧
      ¬ SameMetrics
        (initializeDimensions halfReadJson
          { plainCall with mapOrder := .first (bytes "requests_total") } (.new false false)
          (freshHost [some 1])).1
        (initializeDimensions halfReadJson
          { plainCall with mapOrder := .first (bytes "request_bytes") } (.new false false)
          (freshHost [some 1])).1 := by
  refine ⟨by decide +kernel, fun h => ?_⟩
  have hlengths := h.stats.map fun statgen => (statgen.metric.name, statgen.metric.tags.length)
  revert hlengths
  decide +kernel

end Stats

end WasmExtensions
