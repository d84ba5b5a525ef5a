import WasmExtensions.Stats.Overrides

/-!
# All overrides of a configuration

The overrides ask for expressions one after the other (`requests`), whatever the metrics are called.
A text that has an expression keeps it.  If the host always gives the same answer for a text
(`Expressions.Decided`) then a text without an expression never gets one, so the expressions that
are there in the end say which index a tag got (`tagging_visits`).
-/

namespace WasmExtensions

namespace Stats

/-! ### Expressions -/

namespace Expressions

/-- The index of a tag that gets its value from an expression. -/
def index (e : Expressions) (input : Bytes) : Option ℕ :=
  (e.inputExpressions.lookup input).map fun position => countStandardLabels + position

/-- Asks for expressions one after the other. -/
def addInputs (inputs : List Bytes) (e : Expressions) : Expressions :=
  inputs.foldl (fun e input => (e.addStringExpression input).2) e

/-- The expressions of `e` are also there in `e'`. -/
def Extends (e e' : Expressions) : Prop :=
  ∀ input position, e.inputExpressions.lookup input = some position →
    e'.inputExpressions.lookup input = some position

/-- Whenever the host is asked for one of the expressions, it is given out if the text compiles and
is not given out otherwise. -/
def Decided (compiles : Bytes → Bool) : List Bytes → Expressions → Prop
  | [], _ => True
  | input :: inputs, e =>
    (e.inputExpressions.lookup input = none →
        (e.host.createExpression input).1.isSome = compiles input) ∧
      Decided compiles inputs (e.addStringExpression input).2

/-- What has been asked for can be checked. -/
instance decidableDecided (compiles : Bytes → Bool) :
    (inputs : List Bytes) → (e : Expressions) → Decidable (Decided compiles inputs e)
  | [], _ => .isTrue trivial
  | _ :: inputs, _ => @instDecidableAnd _ _ inferInstance (decidableDecided compiles inputs _)

/-- Only texts that compile have expressions. -/
def Accepted (compiles : Bytes → Bool) (e : Expressions) : Prop :=
  ∀ input position, e.inputExpressions.lookup input = some position → compiles input = true

/-- Different texts have different positions, and the token that was given out for a text is found
at its position. -/
structure Placed (e : Expressions) : Prop where
  injective : ∀ input input' position, e.inputExpressions.lookup input = some position →
    e.inputExpressions.lookup input' = some position → input = input'
  created : ∀ input position, e.inputExpressions.lookup input = some position →
    ∃ token, e.expressions[position]? = some token ∧
      ExpressionEvent.create token input ∈ e.host.events

variable {compiles : Bytes → Bool} {e e' e'' E : Expressions} {input input' : Bytes}
  {inputs inputs' : List Bytes}

/-- All that can happen when an expression is asked for. -/
theorem addStringExpression_cases (e : Expressions) (input : Bytes) :
    (∃ position, e.inputExpressions.lookup input = some position ∧
      e.addStringExpression input = (some position, e)) ∨
    (e.inputExpressions.lookup input = none ∧
      ∃ host, e.host.createExpression input = (none, host) ∧
        e.addStringExpression input = (none, { e with host := host })) ∨
    (e.inputExpressions.lookup input = none ∧
      ∃ token host, e.host.createExpression input = (some token, host) ∧
        e.addStringExpression input = (some e.expressions.length,
          { e with
            expressions := e.expressions ++ [token]
            inputExpressions := (input, e.expressions.length) :: e.inputExpressions
            host := host })) := by
  unfold addStringExpression
  cases hlookup : e.inputExpressions.lookup input with
  | some position => exact .inl ⟨position, rfl, rfl⟩
  | none =>
    rcases hcreate : e.host.createExpression input with ⟨_ | token, host⟩
    · exact .inr (.inl ⟨rfl, host, rfl, rfl⟩)
    · exact .inr (.inr ⟨rfl, token, host, rfl, rfl⟩)

/-- The position that is returned is the one that is known afterwards. -/
theorem fst_addStringExpression : (e.addStringExpression input).1 =
    (e.addStringExpression input).2.inputExpressions.lookup input := by
  rcases addStringExpression_cases e input with
    ⟨position, hlookup, heq⟩ | ⟨hlookup, host, -, heq⟩ | ⟨-, token, host, -, heq⟩
  · rw [heq, hlookup]
  · rw [heq, hlookup]
  · rw [heq, List.lookup_cons_self]

theorem Extends.refl : Extends e e := fun _ _ h => h

theorem Extends.trans (h : Extends e e') (h' : Extends e' e'') : Extends e e'' :=
  fun input position hlookup => h' input position (h input position hlookup)

theorem extends_addStringExpression : Extends e (e.addStringExpression input).2 := by
  intro input' position hlookup'
  rcases addStringExpression_cases e input with
    ⟨position, -, heq⟩ | ⟨-, host, -, heq⟩ | ⟨hlookup, token, host, -, heq⟩
  · rw [heq]
    exact hlookup'
  · rw [heq]
    exact hlookup'
  · rw [heq, List.lookup_cons]
    have hne : (input' == input) = false := by
      rw [beq_eq_false_iff_ne]
      rintro rfl
      rw [hlookup] at hlookup'
      cases hlookup'
    rw [hne]
    exact hlookup'

theorem extends_addInputs : Extends e (e.addInputs inputs) := by
  induction inputs generalizing e with
  | nil => exact .refl
  | cons input inputs ih => exact extends_addStringExpression.trans ih

theorem addInputs_append :
    e.addInputs (inputs ++ inputs') = (e.addInputs inputs).addInputs inputs' :=
  List.foldl_append

theorem decided_append : Decided compiles (inputs ++ inputs') e ↔
    Decided compiles inputs e ∧ Decided compiles inputs' (e.addInputs inputs) := by
  induction inputs generalizing e with
  | nil => exact (true_and _).symm ▸ Iff.rfl
  | cons input inputs ih =>
    rw [List.cons_append, Decided, Decided, ih, and_assoc]; rfl

/-- What is found in a list of positions is the first one, or it is found in the rest. -/
theorem lookup_cons_cases {n position : ℕ} {positions : List (Bytes × ℕ)}
    (h : ((input, n) :: positions).lookup input' = some position) :
    input' = input ∧ position = n ∨ positions.lookup input' = some position := by
  rw [List.lookup_cons] at h
  by_cases hinput : input' = input
  · rw [hinput, beq_self_eq_true] at h
    exact .inl ⟨hinput, (Option.some.inj h).symm⟩
  · rw [beq_eq_false_iff_ne.2 hinput] at h
    exact .inr h

/-- A text has an expression afterwards exactly if it compiles. -/
theorem lookup_addStringExpression (hacc : Accepted compiles e)
    (hdec : e.inputExpressions.lookup input = none →
      (e.host.createExpression input).1.isSome = compiles input) :
    Accepted compiles (e.addStringExpression input).2 ∧
      ((e.addStringExpression input).2.inputExpressions.lookup input).isSome = compiles input := by
  rcases addStringExpression_cases e input with
    ⟨position, hlookup, heq⟩ | ⟨hlookup, host, hcreate, heq⟩ | ⟨hlookup, token, host, hcreate, heq⟩
  · rw [heq, hlookup]
    exact ⟨hacc, (hacc input position hlookup).symm⟩
  · have hnot := hdec hlookup
    rw [hcreate] at hnot
    rw [heq, hlookup]
    exact ⟨hacc, hnot⟩
  · -- A new expression, so the text compiles.
    have hcompiles := hdec hlookup
    rw [hcreate] at hcompiles
    rw [heq, List.lookup_cons_self]
    refine ⟨fun input' position hlookup' => ?_, hcompiles⟩
    rcases lookup_cons_cases hlookup' with ⟨rfl, -⟩ | hold
    · rw [← hcompiles]; rfl
    · exact hacc input' position hold

theorem Accepted.addInputs (hacc : Accepted compiles e) (hdec : Decided compiles inputs e) :
    Accepted compiles (e.addInputs inputs) := by
  induction inputs generalizing e with
  | nil => exact hacc
  | cons input inputs ih => exact ih (lookup_addStringExpression hacc hdec.1).1 hdec.2

/-- What a text that was asked for has got is what it has in the end. -/
theorem index_eq_of_extends (h : Extends e E) (hE : Accepted compiles E)
    (hlookup : (e.inputExpressions.lookup input).isSome = compiles input) :
    e.index input = E.index input := by
  unfold index
  congr 1
  cases hposition : e.inputExpressions.lookup input with
  | some position => exact (h input position hposition).symm
  | none =>
    cases hposition' : E.inputExpressions.lookup input with
    | none => rfl
    | some position =>
      rw [hposition, hE input position hposition'] at hlookup
      cases hlookup

theorem isSome_lookup_addInputs (hacc : Accepted compiles e) (hdec : Decided compiles inputs e)
    (hmem : input ∈ inputs) :
    ((e.addInputs inputs).inputExpressions.lookup input).isSome = compiles input := by
  induction inputs generalizing e with
  | nil => cases hmem
  | cons input' inputs ih =>
    obtain ⟨hacc', hlookup⟩ := lookup_addStringExpression hacc hdec.1
    by_cases hrest : input ∈ inputs
    · exact ih hacc' hdec.2 hrest
    · obtain rfl := (List.mem_cons.1 hmem).resolve_right hrest
      have hextends : Extends (e.addStringExpression input).2
          (e.addInputs (input :: inputs)) := extends_addInputs
      have hend : Accepted compiles (e.addInputs (input :: inputs)) := hacc.addInputs hdec
      have hindex := index_eq_of_extends hextends hend hlookup
      unfold index at hindex
      rw [← hlookup, ← Option.isSome_map, ← hindex, Option.isSome_map]

theorem Placed.position_lt (h : Placed e) {position : ℕ}
    (hlookup : e.inputExpressions.lookup input = some position) :
    position < e.expressions.length := by
  obtain ⟨token, htoken, -⟩ := h.created input position hlookup
  exact (List.getElem?_eq_some_iff.1 htoken).1

theorem Placed.addStringExpression (h : Placed e) : Placed (e.addStringExpression input).2 := by
  rcases addStringExpression_cases e input with
    ⟨position, -, heq⟩ | ⟨-, host, hcreate, heq⟩ | ⟨hlookup, token, host, hcreate, heq⟩
  · rw [heq]
    exact h
  · rw [heq]
    refine ⟨h.injective, fun input position hlookup => ?_⟩
    show ∃ token, e.expressions[position]? = some token ∧
      ExpressionEvent.create token input ∈ host.events
    rw [ExpressionHost.createExpression_eq_none hcreate]
    exact h.created input position hlookup
  · -- The new position is behind all others.
    rw [heq]
    constructor
    · intro input₁ input₂ position h₁ h₂
      rcases lookup_cons_cases h₁ with ⟨heq₁, hposition⟩ | hold₁
      · rcases lookup_cons_cases h₂ with ⟨heq₂, -⟩ | hold₂
        · rw [heq₁, heq₂]
        · exact absurd hposition (Nat.ne_of_lt (h.position_lt hold₂))
      · rcases lookup_cons_cases h₂ with ⟨-, hposition⟩ | hold₂
        · exact absurd hposition (Nat.ne_of_lt (h.position_lt hold₁))
        · exact h.injective input₁ input₂ position hold₁ hold₂
    · intro input' position hlookup'
      show ∃ token', (e.expressions ++ [token])[position]? = some token' ∧
        ExpressionEvent.create token' input' ∈ host.events
      rw [(ExpressionHost.createExpression_eq_some hcreate).2]
      rcases lookup_cons_cases hlookup' with ⟨rfl, rfl⟩ | hold
      · exact ⟨token, List.getElem?_concat_length, List.mem_cons_self⟩
      · obtain ⟨token', htoken, hmem⟩ := h.created input' position hold
        refine ⟨token', ?_, List.mem_cons_of_mem _ hmem⟩
        rw [List.getElem?_append_left (h.position_lt hold)]
        exact htoken

theorem Placed.addInputs (h : Placed e) : Placed (e.addInputs inputs) := by
  induction inputs generalizing e with
  | nil => exact h
  | cons input inputs ih => exact ih h.addStringExpression

end Expressions

/-! ### One override -/

namespace Tagging

variable {t : Tagging}

theorem index_removeAll (removed : List Bytes) :
    (t.removeAll removed).index = assignAll (removed.map fun tag => (tag, none)) t.index := by
  induction removed generalizing t with
  | nil => rfl
  | cons tag removed ih =>
    rw [List.map_cons, assignAll, ← index_remove]
    exact ih

theorem index_setAll (indexes : List (Bytes × Option ℕ)) :
    (t.setAll indexes).index = assignAll indexes t.index := by
  induction indexes generalizing t with
  | nil => rfl
  | cons u indexes ih =>
    rw [assignAll, ← index_set]
    exact ih

theorem Wf.removeAll (h : t.Wf) (removed : List Bytes) : (t.removeAll removed).Wf := by
  induction removed generalizing t with
  | nil => exact h
  | cons tag removed ih => exact ih h.remove

theorem tags_removeAll (removed : List Bytes) : (t.removeAll removed).tags = t.tags := by
  induction removed generalizing t with
  | nil => rfl
  | cons tag removed ih => exact ih.trans tags_remove

theorem prefix_tags_setAll (indexes : List (Bytes × Option ℕ)) :
    t.tags <+: (t.setAll indexes).tags := by
  induction indexes generalizing t with
  | nil => exact List.prefix_refl _
  | cons u indexes ih => exact prefix_tags_set.trans ih

theorem Wf.setAll (h : t.Wf) (indexes : List (Bytes × Option ℕ)) : (t.setAll indexes).Wf := by
  induction indexes generalizing t with
  | nil => exact h
  | cons u indexes ih => exact ih h.set

end Tagging

namespace Override

variable {V : Type} {o : Override} {e E : Expressions} {t : Tagging} {compiles : Bytes → Bool}
  {b : Building} {names : List Bytes}

def inputs (o : Override) : List Bytes := o.assigned.map Prod.snd

/-- What an override assigns to the tags: `none` removes a tag. -/
def updates (value : Bytes → Option V) (o : Override) : List (Bytes × Option V) :=
  (o.removed.map fun tag => (tag, none)) ++ o.assigned.map fun u => (u.1, value u.2)

/-- What an override makes of the tags of a metric when these expressions are there. -/
def retagged (e : Expressions) (o : Override) (t : Tagging) : Tagging :=
  o.retag (o.assigned.map fun u => (u.1, e.index u.2)) t

theorem index_retagged : (o.retagged e t).index = assignAll (o.updates e.index) t.index := by
  unfold retagged retag updates
  rw [Tagging.index_setAll, Tagging.index_removeAll, assignAll_append]

theorem wf_retagged (h : t.Wf) : (o.retagged e t).Wf := (h.removeAll _).setAll _

/-- An override that changes no index does not show. -/
theorem indexed_retagged (h : t.Wf) (hindex : (o.retagged e t).index = t.index) :
    (o.retagged e t).indexed = t.indexed := by
  refine Tagging.indexed_eq_of_prefix h (wf_retagged h) ?_ hindex
  rw [← Tagging.tags_removeAll o.removed]
  exact Tagging.prefix_tags_setAll _

theorem snd_addAll (assigned : List (Bytes × Bytes)) :
    (e.addAll assigned).2 = e.addInputs (assigned.map Prod.snd) := by
  induction assigned generalizing e with
  | nil => rfl
  | cons u assigned ih => exact ih

/-- The indexes are those of the expressions in the end. -/
theorem fst_addAll {assigned : List (Bytes × Bytes)} (hacc : e.Accepted compiles)
    (hdec : e.Decided compiles (assigned.map Prod.snd)) (hE : E.Accepted compiles)
    (hextends : (e.addInputs (assigned.map Prod.snd)).Extends E) :
    (e.addAll assigned).1 = assigned.map fun u => (u.1, E.index u.2) := by
  induction assigned generalizing e with
  | nil => rfl
  | cons u assigned ih =>
    obtain ⟨hacc', hlookup⟩ := Expressions.lookup_addStringExpression hacc hdec.1
    have hrest : ((e.addStringExpression u.2).2.addInputs (assigned.map Prod.snd)).Extends E :=
      hextends
    have hindex := Expressions.index_eq_of_extends
      (Expressions.extends_addInputs.trans hrest) hE hlookup
    show (u.1, (e.addStringExpression u.2).1.map _) ::
      ((e.addStringExpression u.2).2.addAll assigned).1 = _
    rw [List.map_cons, ih hacc' hdec.2 hrest, Expressions.fst_addStringExpression, ← hindex]; rfl

/-- The texts for which an override asks. -/
def requests (o : Override) (names : List Bytes) : List Bytes :=
  (names.map fun _ => o.inputs).flatten

theorem toExpressions_foldl_apply :
    (names.foldl (fun b name => o.apply name b) b).toExpressions =
      b.toExpressions.addInputs (o.requests names) := by
  induction names generalizing b with
  | nil => rfl
  | cons name names ih =>
    have hfirst : (o.apply name b).toExpressions = b.toExpressions.addInputs o.inputs :=
      snd_addAll o.assigned
    rw [List.foldl_cons, ih, hfirst, requests, requests, List.map_cons, List.flatten_cons,
      Expressions.addInputs_append]

/-- The tags of the metrics after an override: each metric for which it is carried out is changed
once, with the same indexes. -/
theorem tagging_foldl_apply (hnodup : names.Nodup) (hacc : b.toExpressions.Accepted compiles)
    (hdec : b.toExpressions.Decided compiles (o.requests names)) (hE : E.Accepted compiles)
    (hextends : (b.toExpressions.addInputs (o.requests names)).Extends E) (name : Bytes) :
    (names.foldl (fun b name => o.apply name b) b).tagging name =
      if name ∈ names then o.retagged E (b.tagging name) else b.tagging name := by
  induction names generalizing b with
  | nil => rfl
  | cons first names ih =>
    obtain ⟨hfirst, hrest⟩ := List.nodup_cons.1 hnodup
    have hrequests : o.requests (first :: names) = o.inputs ++ o.requests names := rfl
    rw [hrequests, Expressions.decided_append] at hdec
    rw [hrequests, Expressions.addInputs_append] at hextends
    have hexpressions : (o.apply first b).toExpressions = b.toExpressions.addInputs o.inputs :=
      snd_addAll o.assigned
    have happly : o.apply first b =
        (b.withExpressions (b.toExpressions.addAll o.assigned).2).retag first (o.retagged E) := by
      unfold apply retagged
      rw [fst_addAll hacc hdec.1 hE (Expressions.extends_addInputs.trans hextends)]
    -- The metric is changed now, or later, or not at all.
    rw [List.foldl_cons, ih hrest (hexpressions ▸ hacc.addInputs hdec.1) (hexpressions ▸ hdec.2)
      (hexpressions ▸ hextends), happly]
    by_cases hname : name = first
    · subst hname
      rw [if_neg hfirst, if_pos List.mem_cons_self, Building.tagging_retag_self]; rfl
    · rw [Building.tagging_retag_of_ne hname]
      simp only [List.mem_cons, hname, false_or]
      rfl

end Override

/-! ### All overrides -/

section

variable {vs : List (Override × List Bytes)} {b b' : Building} {compiles : Bytes → Bool}
  {E : Expressions} {name : Bytes}

/-- The texts for which the overrides ask. -/
def requests (vs : List (Override × List Bytes)) : List Bytes :=
  vs.flatMap fun v => v.1.requests (v.1.treated v.2)

/-- The overrides that are carried out for a metric. -/
def carriedOut (vs : List (Override × List Bytes)) (name : Bytes) : List Override :=
  (vs.filter fun v => name ∈ v.1.treated v.2).map Prod.fst

theorem toExpressions_visit {o : Override} : (o.visit b).toExpressions =
    b.toExpressions.addInputs (o.requests (o.treated b.names)) :=
  Override.toExpressions_foldl_apply

theorem treated_sublist (o : Override) (names : List Bytes) : (o.treated names).Sublist names := by
  unfold Override.treated
  split_ifs
  · exact List.nil_sublist _
  · exact List.filter_sublist
  · exact (List.take_sublist _ _).trans List.filter_sublist

/-- The overrides ask for their expressions in one row. -/
theorem toExpressions_visits (h : Visits b vs b') :
    b'.toExpressions = b.toExpressions.addInputs (requests vs) := by
  induction h with
  | nil => rfl
  | cons _ ih =>
    rw [ih, toExpressions_visit, requests, requests, List.flatMap_cons,
      Expressions.addInputs_append]

theorem factories_visits (h : Visits b vs b') : b'.factories =
    b.factories.filter fun factory => vs.all fun v => v.1.leaves factory.name := by
  induction h with
  | nil => exact (List.filter_true _).symm
  | cons _ ih =>
    rw [ih]
    unfold Override.visit
    rw [List.filter_filter]
    refine List.filter_congr fun factory _ => ?_
    rw [List.all_cons, Bool.and_comm]

/-- **The tags of a metric**: they come about by the overrides that are carried out for it. -/
theorem tagging_visits (h : Visits b vs b') (hnodup : b.names.Nodup)
    (hacc : b.toExpressions.Accepted compiles)
    (hdec : b.toExpressions.Decided compiles (requests vs)) (hE : E.Accepted compiles)
    (hextends : b'.toExpressions.Extends E) (name : Bytes) :
    b'.tagging name =
      (carriedOut vs name).foldl (fun t o => o.retagged E t) (b.tagging name) := by
  induction h with
  | nil => rfl
  | @cons b b' o vs hvisits ih =>
    rw [requests, List.flatMap_cons, Expressions.decided_append] at hdec
    have hexpressions := toExpressions_visit (b := b) (o := o)
    have hafter : (o.visit b).toExpressions.Extends E := by
      rw [toExpressions_visits hvisits] at hextends
      exact Expressions.extends_addInputs.trans hextends
    have htagging : (o.visit b).tagging name =
        if name ∈ o.treated b.names then o.retagged E (b.tagging name) else b.tagging name :=
      Override.tagging_foldl_apply (hnodup.sublist (treated_sublist o b.names)) hacc hdec.1 hE
        (hexpressions ▸ hafter) name
    rw [ih (names_visit (b := b) (o := o) ▸ hnodup.filter _) (hexpressions ▸ hacc.addInputs hdec.1)
      (hexpressions ▸ hdec.2) hextends, htagging]
    -- The first override goes in front of those that the rest carries out.
    unfold carriedOut
    by_cases hmem : name ∈ o.treated b.names
    · rw [List.filter_cons_of_pos (by simpa using hmem), if_pos hmem]; rfl
    · rw [List.filter_cons_of_neg (by simpa using hmem), if_neg hmem]

end

/-! ### The metrics that are left -/

section

variable {o : Override} {names : List Bytes} {name input : Bytes} {b b' : Building}
  {vs : List (Override × List Bytes)} {v : Override × List Bytes}

theorem mem_names_visits (h : Visits b vs b') : name ∈ b'.names ↔
    name ∈ b.names ∧ ∀ v ∈ vs, v.1.leaves name = true := by
  unfold Building.names
  rw [factories_visits h, ← List.all_eq_true]
  have hmap : (b.factories.filter fun factory => vs.all fun v => v.1.leaves factory.name).map
      MetricFactory.name =
      (b.factories.map MetricFactory.name).filter fun name => vs.all fun v => v.1.leaves name := by
    rw [List.filter_map]; rfl
  rw [hmap, List.mem_filter]

/-- A metric that is left in the end was there at every visit. -/
theorem mem_names_of_visited (h : Visits b vs b') (hleft : name ∈ b'.names) (hv : v ∈ vs) :
    name ∈ v.2 ∧ v.1.leaves name = true := by
  refine ⟨?_, ((mem_names_visits h).1 hleft).2 v hv⟩
  induction h with
  | nil => cases hv
  | @cons b b' o vs hvisits ih =>
    rcases List.mem_cons.1 hv with rfl | hv
    · exact ((mem_names_visits (.cons hvisits)).1 hleft).1
    · exact ih hleft hv

/-- An override that gets to its end is carried out for every metric to which it applies. -/
theorem mem_treated_iff (hname : name ∈ names) (hleaves : o.leaves name = true)
    (hfinishes : o.finishes names = true) :
    name ∈ o.treated names ↔ o.applies name = true := by
  unfold Override.leaves at hleaves
  unfold Override.finishes at hfinishes
  unfold Override.treated
  cases hdrop : o.drop with
  | true =>
    rw [hdrop, Bool.true_and, Bool.not_eq_true'] at hleaves
    simp [hleaves]
  | false =>
    cases hcomplete : o.complete with
    | true => simp [hname]
    | false =>
      -- It came to its end because it applies to no metric.
      rw [hdrop, hcomplete, Bool.false_or, Bool.false_or, Bool.not_eq_true'] at hfinishes
      have hnone : ∀ name ∈ names, o.applies name = false := by simpa using hfinishes
      have hfilter : names.filter o.applies = [] := by simpa using hnone
      simp [hfilter, hnone name hname]

theorem carriedOut_of_finishes (h : Visits b vs b') (hleft : name ∈ b'.names)
    (hfinishes : ∀ v ∈ vs, v.1.finishes v.2 = true) :
    carriedOut vs name = (vs.map Prod.fst).filter fun o => o.applies name := by
  unfold carriedOut
  rw [List.filter_map]
  congr 1
  refine List.filter_congr fun v hv => ?_
  obtain ⟨hname, hleaves⟩ := mem_names_of_visited h hleft hv
  have htreated := mem_treated_iff hname hleaves (hfinishes v hv)
  exact Bool.eq_iff_iff.2 (decide_eq_true_iff.trans htreated)

theorem mem_requests (hv : v ∈ vs) (hname : name ∈ v.1.treated v.2) (hinput : input ∈ v.1.inputs) :
    input ∈ requests vs := by
  refine List.mem_flatMap.2 ⟨v, hv, List.mem_flatten.2 ⟨v.1.inputs, ?_, hinput⟩⟩
  exact List.mem_map.2 ⟨name, hname, rfl⟩

/-- The indexes of the tags come about by assignments. -/
theorem index_foldl_retagged (E : Expressions) (os : List Override) (t : Tagging) :
    (os.foldl (fun t o => o.retagged E t) t).index =
      assignAll (os.flatMap (Override.updates E.index)) t.index := by
  induction os generalizing t with
  | nil => rfl
  | cons o os ih =>
    rw [List.foldl_cons, ih, List.flatMap_cons, assignAll_append, Override.index_retagged]

theorem wf_foldl_retagged (E : Expressions) (os : List Override) {t : Tagging} (h : t.Wf) :
    (os.foldl (fun t o => o.retagged E t) t).Wf := by
  induction os generalizing t with
  | nil => exact h
  | cons o os ih => exact ih (Override.wf_retagged h)

end

/-! ### The order of the metrics -/

section

variable {o : Override} {names names' : List Bytes}

theorem finishes_congr (h : names.Perm names') : o.finishes names = o.finishes names' := by
  unfold Override.finishes
  rw [h.any_eq]

theorem length_treated_congr (h : names.Perm names') :
    (o.treated names).length = (o.treated names').length := by
  have hfilter := (h.filter o.applies).length_eq
  unfold Override.treated
  split_ifs
  · rfl
  · exact hfilter
  · rw [List.length_take, List.length_take, hfilter]

theorem requests_congr (h : names.Perm names') :
    o.requests (o.treated names) = o.requests (o.treated names') := by
  unfold Override.requests
  rw [List.map_const', List.map_const', length_treated_congr h]

/-- The same overrides are visited in every order of the metrics. -/
theorem visited_congr (metrics : List Json) (h : names.Perm names') :
    List.Forall₂ (fun v v' => v.1 = v'.1 ∧ v.2.Perm v'.2) (visited metrics names)
      (visited metrics names') := by
  induction metrics generalizing names names' with
  | nil => exact .nil
  | cons metric metrics ih =>
    unfold visited
    cases readOverride metric with
    | none => exact .nil
    | some o =>
      dsimp only
      rw [finishes_congr h]
      refine .cons ⟨rfl, h⟩ ?_
      cases o.finishes names' with
      | false => exact .nil
      | true => exact ih (h.filter _)

theorem requests_visited_congr (metrics : List Json) (h : names.Perm names') :
    requests (visited metrics names) = requests (visited metrics names') := by
  have hvisited := visited_congr metrics h
  generalize visited metrics names = vs, visited metrics names' = vs' at hvisited ⊢
  unfold requests
  induction hvisited with
  | nil => rfl
  | @cons v v' vs vs' hv _ ih =>
    rw [List.flatMap_cons, List.flatMap_cons, ih, hv.1, requests_congr hv.2]

end

/-! ### A configuration -/

/-- The variables when the definitions have been read. -/
def definedMetrics (j : Json) (e : Expressions) : Building :=
  (jsonArrayIterate j (bytes "definitions") visitDefinition (.start e)).2

/-- The metrics in another order. -/
def Building.reorder (b : Building) (order : MapOrder) : Building :=
  { b with factories := order.order b.factories }

/-- The tags that the metric with this name has by default. -/
def defaultTagsOf (name : Bytes) : List Bytes :=
  match defaultMetrics.find? fun factory => factory.name = name with
  | some factory => defaultTags.take factory.countLabels
  | none => []

def defaultTagging (name : Bytes) : Tagging where
  tags := defaultTagsOf name
  indexes tag := ((defaultTagsOf name).idxOf? tag).map some

/-- The overrides that a configuration visits, if the metrics are in this order. -/
def overridesOf (j : Json) (order : MapOrder) (e : Expressions) : List (Override × List Bytes) :=
  visited (j.elements (bytes "metrics")) ((definedMetrics j e).reorder order).names

/-- The order in which the metrics were put into the map. -/
def MapOrder.inserted : MapOrder := ⟨id, fun _ => .refl _⟩

/-- The host decides by the text whether the overrides get the expressions for which they ask.  The
order of the metrics does not matter here (`requests_overridesOf`). -/
def Answered (compiles : Bytes → Bool) (j : Json) (e : Expressions) : Prop :=
  (definedMetrics j e).toExpressions.Decided compiles (requests (overridesOf j .inserted e))

instance (compiles : Bytes → Bool) (j : Json) (e : Expressions) :
    Decidable (Answered compiles j e) :=
  Expressions.decidableDecided compiles _ _

section

variable {j : Json} {e : Expressions} {order order' : MapOrder} {compiles : Bytes → Bool}
  {name tag : Bytes}

theorem tagging_start : (Building.start e).tagging name = defaultTagging name := by
  unfold Building.start Building.tagging defaultTagging defaultTagsOf
  dsimp only
  cases defaultMetrics.find? fun factory => factory.name = name <;> rfl

theorem wf_defaultTagging : (defaultTagging name).Wf where
  nodup := by
    have hnodup : defaultTags.Nodup := by decide +kernel
    unfold defaultTagging defaultTagsOf
    dsimp only
    split
    · exact hnodup.sublist (List.take_sublist _ _)
    · exact List.nodup_nil
  listed tag := by
    unfold defaultTagging
    rw [Option.isSome_map, List.isSome_idxOf?]

theorem index_defaultTagging :
    (defaultTagging name).index tag = (defaultTagsOf name).idxOf? tag := by
  show (((defaultTagsOf name).idxOf? tag).map some).join = _
  cases (defaultTagsOf name).idxOf? tag <;> rfl

/-- Definitions change neither the tags nor the string expressions. -/
theorem definedMetrics_frame (j : Json) (e : Expressions) :
    (∀ name, (definedMetrics j e).tagging name = defaultTagging name) ∧
      (definedMetrics j e).inputExpressions = e.inputExpressions := by
  refine jsonArrayIterate_invariant (I := fun b : Building =>
    (∀ name, b.tagging name = defaultTagging name) ∧ b.inputExpressions = e.inputExpressions)
    (fun _ _ definition _ b hb => ?_) ⟨fun _ => tagging_start, rfl⟩
  unfold visitDefinition Expressions.addIntExpression
  dsimp only
  split_ifs
  · exact hb
  · rcases b.host.createExpression (stringField definition (bytes "value")) with ⟨_ | token, host⟩
    · exact hb
    · exact hb

theorem names_reorder {b : Building} : (b.reorder order).names.Perm b.names :=
  (order.perm _).map _

theorem requests_overridesOf (order : MapOrder) :
    requests (overridesOf j order e) = requests (overridesOf j .inserted e) :=
  requests_visited_congr _ names_reorder

theorem visits_buildMetrics :
    Visits ((definedMetrics j e).reorder order) (overridesOf j order e)
      (buildMetrics j order e) := by
  unfold buildMetrics
  rw [snd_jsonArrayIterate]
  exact visits_iterate _ _

/-- The expressions are the same for every order of the metrics. -/
theorem toExpressions_buildMetrics (order : MapOrder) : (buildMetrics j order e).toExpressions =
    (definedMetrics j e).toExpressions.addInputs (requests (overridesOf j .inserted e)) := by
  have hvisits : Visits _ _ (buildMetrics j order e) := visits_buildMetrics
  rw [toExpressions_visits hvisits, requests_overridesOf]; rfl

theorem accepted_definedMetrics (he : e.inputExpressions = []) :
    (definedMetrics j e).toExpressions.Accepted compiles := by
  intro input position hlookup
  rw [(definedMetrics_frame j e).2, he] at hlookup
  cases hlookup

theorem placed_definedMetrics (he : e.inputExpressions = []) :
    (definedMetrics j e).toExpressions.Placed := by
  constructor
  · intro input input' position hlookup
    rw [(definedMetrics_frame j e).2, he] at hlookup
    cases hlookup
  · intro input position hlookup
    rw [(definedMetrics_frame j e).2, he] at hlookup
    cases hlookup

theorem accepted_buildMetrics (he : e.inputExpressions = []) (hanswered : Answered compiles j e) :
    (buildMetrics j order e).toExpressions.Accepted compiles := by
  rw [toExpressions_buildMetrics]
  exact (accepted_definedMetrics he).addInputs hanswered

theorem placed_buildMetrics (he : e.inputExpressions = []) :
    (buildMetrics j order e).toExpressions.Placed := by
  rw [toExpressions_buildMetrics]
  exact (placed_definedMetrics he).addInputs

theorem nodup_names_reorder : ((definedMetrics j e).reorder order).names.Nodup := by
  have hdefined : Defined (definedMetrics j e).intExpressions (definedMetrics j e).factories :=
    builds_invariant (I := fun b => Defined b.intExpressions b.factories)
      (builds_jsonArrayIterate fun j _ => builds_visitDefinition j) defined_defaultMetrics
      fun _ _ h hmove => h.move hmove
  exact names_reorder.nodup_iff.2 hdefined.nodup

/-- The tags of a metric come about by the overrides that are carried out for it. -/
theorem tagging_buildMetrics (he : e.inputExpressions = []) (hanswered : Answered compiles j e) :
    (buildMetrics j order e).tagging name =
      (carriedOut (overridesOf j order e) name).foldl
        (fun t o => o.retagged (buildMetrics j order e).toExpressions t) (defaultTagging name) := by
  have hdec : ((definedMetrics j e).reorder order).toExpressions.Decided compiles
      (requests (overridesOf j order e)) := by
    rw [requests_overridesOf]
    exact hanswered
  rw [tagging_visits visits_buildMetrics nodup_names_reorder (accepted_definedMetrics he) hdec
    (accepted_buildMetrics he hanswered) .refl name, ← (definedMetrics_frame j e).1 name]; rfl

theorem wf_tagging_buildMetrics (he : e.inputExpressions = []) (hanswered : Answered compiles j e) :
    ((buildMetrics j order e).tagging name).Wf := by
  rw [tagging_buildMetrics he hanswered]
  exact wf_foldl_retagged _ _ wf_defaultTagging

variable {call : ConfigureCall} {root : RootContext} {host : Host} {statgen : StatGen}

/-- There is a generator for each metric that is left. -/
theorem exists_statGen_of_mem_names
    (hleft : name ∈ (buildMetrics j call.mapOrder
      (root.toExpressions host.toExpressionHost).cleanupExpressions).names) :
    ∃ statgen ∈ (initializeDimensions j call root host).1.stats,
      statgen.metric.name = bytes "istio_" ++ name := by
  obtain ⟨factory, hfactory, rfl⟩ := List.mem_map.1 hleft
  exact ⟨_, List.mem_map_of_mem hfactory, rfl⟩

/-- The generator of a metric has the tags that are there, with their indexes. -/
theorem indexed_of_mem_stats
    (hmem : statgen ∈ (initializeDimensions j call root host).1.stats)
    (hname : statgen.metric.name = bytes "istio_" ++ name) :
    name ∈ (buildMetrics j call.mapOrder
        (root.toExpressions host.toExpressionHost).cleanupExpressions).names ∧
      statgen.metric.tags.zip statgen.indexes =
        ((buildMetrics j call.mapOrder
          (root.toExpressions host.toExpressionHost).cleanupExpressions).tagging name).indexed ∧
      statgen.metric.tags = ((buildMetrics j call.mapOrder
          (root.toExpressions host.toExpressionHost).cleanupExpressions).tagging
            name).indexed.map Prod.fst := by
  obtain ⟨factory, hfactory, rfl⟩ := List.mem_map.1 hmem
  obtain rfl : factory.name = name := List.append_cancel_left hname
  refine ⟨List.mem_map_of_mem hfactory, ?_, rfl⟩
  show ((Building.indexedTags _ _).map Prod.fst).zip ((Building.indexedTags _ _).map Prod.snd) = _
  rw [List.zip_map']
  exact List.map_id _

end

/-! ### A sample -/

/-- A call that adds nothing to the configuration. -/
def plainCall : ConfigureCall where
  configuration := []
  localNode := {}
  istioVersion := []
  answers := []
  mapOrder := .inserted

/-- A host on which nothing has happened yet. -/
def freshHost (answers : List (Option UInt32)) : Host where
  answers := answers
  events := []
  tickPeriodMilliseconds := none
  build := []

end Stats

end WasmExtensions
