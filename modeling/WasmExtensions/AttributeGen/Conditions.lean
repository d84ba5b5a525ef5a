import WasmExtensions.AttributeGen.Plugin

/-!
# What a condition evaluates to

The host hands the value of an expression over as bytes without a type: one byte for a boolean, the
bytes of a string, eight bytes for an integer.  `Match::evaluate` takes one byte for a boolean.  So
a condition that is a string of length one counts as true or false, where any other value that is
not a boolean is an error.

* `ExprValue.serialize` : the bytes of a value.
* `OnlyBooleansMatch`, `intended` : what the evaluation of a generator is meant to be.
* `only_booleans_match_iff` : **a generator evaluates as intended exactly if the value that decides
  about it is not a string of length one.**
-/

namespace WasmExtensions

namespace AttributeGen

/-! ### Values and their bytes -/

/-- What the evaluation of an expression may come to on the host. -/
inductive ExprValue where
  | boolean (b : Bool)
  | string (text : Bytes)
  | int64 (n : Int64)
  | failure (result : WasmResult) (h : result ≠ .Ok)
  deriving DecidableEq

namespace ExprValue

/-- The result and the output of `expr_evaluate`. -/
def serialize : ExprValue → WasmResult × Bytes
  | boolean b => (.Ok, [b.toUInt8])
  | string text => (.Ok, text)
  | int64 n => (.Ok, (List.range 8).map fun i => (n.toUInt64 >>> (8 * i.toUInt64)).toUInt8)
  | failure result _ => (result, [])

/-- The value of a condition that is a boolean. -/
def asBoolean : ExprValue → Option Bool
  | boolean b => some b
  | _ => none

/-- The evaluation that fails. -/
def unavailable : ExprValue := failure .NotFound (by decide)

/-- The value is a string of length one. -/
def OneByte : ExprValue → Prop
  | string text => text.length = 1
  | _ => False

end ExprValue

/-- What `Match::evaluate` makes of an answer. -/
def outcomeOf : WasmResult × Bytes → Option Bool
  | (.Ok, [out]) => some (out != 0)
  | _ => none

variable {m : Match} {ms : List Match} {host : Host} {v : ExprValue} {values : List ExprValue}

theorem Match.evaluate_of_empty (h : m.condition = []) : m.evaluate host = (some true, host) := by
  simp [Match.evaluate, h]

/-- A condition that is not empty is evaluated by the host. -/
theorem Match.evaluate_of_ne (h : m.condition ≠ []) :
    m.evaluate host = (outcomeOf (host.evaluations.headD (.NotFound, [])),
      (host.exprEvaluate m.conditionToken).2) := by
  have hempty : m.condition.isEmpty = false := by simpa using h
  unfold Match.evaluate
  rw [hempty, if_neg Bool.false_ne_true]
  have hanswer : (host.exprEvaluate m.conditionToken).1 =
      host.evaluations.headD (.NotFound, []) := rfl
  rw [← hanswer]
  rcases host.exprEvaluate m.conditionToken with ⟨⟨result, out⟩, host'⟩
  unfold outcomeOf
  split <;> rename_i heq <;> split <;> simp_all

/-- Booleans are read as they are; so is one byte of a string. -/
theorem outcomeOf_serialize_eq_asBoolean (h : ¬ v.OneByte) :
    outcomeOf v.serialize = v.asBoolean := by
  cases v with
  | boolean b => cases b <;> rfl
  | string text =>
    match text with
    | [] | _ :: _ :: _ => rfl
    | [c] => exact absurd rfl h
  | int64 n => rfl
  | failure result hne => cases result <;> rfl

theorem isSome_outcomeOf_of_oneByte (h : v.OneByte) :
    (outcomeOf v.serialize).isSome ∧ v.asBoolean = none := by
  cases v with
  | string text =>
    obtain ⟨c, rfl⟩ := List.length_eq_one_iff.1 h
    exact ⟨rfl, rfl⟩
  | boolean b => exact h.elim
  | int64 n => exact h.elim
  | failure result hne => exact h.elim

/-! ### The evaluation of a generator -/

/-- In the loop over the matches, where the conditions evaluate to `values` one after the other, an
evaluation is true or false only for a boolean. -/
def OnlyBooleansMatch : List Match → Host → List ExprValue → Prop
  | [], _, _ => True
  | m :: ms, host, values =>
    (m.condition ≠ [] → (m.evaluate host).1.isSome →
      ((values.headD .unavailable).asBoolean).isSome) ∧
    ((m.evaluate host).1 = some false → OnlyBooleansMatch ms (m.evaluate host).2 values.tail)

/-- The value of the first match whose condition is true, or an error if a condition before it is
not a boolean. -/
def intended : List Match → List ExprValue → Option (Option Bytes)
  | [], _ => some none
  | m :: ms, values =>
    if m.condition = [] then some (some m.value)
    else
      match (values.headD .unavailable).asBoolean with
      | none => none
      | some true => some (some m.value)
      | some false => intended ms values.tail

/-- The value that decides about a generator: the first that is not `false`, unless an empty
condition comes before it. -/
def decidingValue : List Match → List ExprValue → Option ExprValue
  | [], _ => none
  | m :: ms, values =>
    if m.condition = [] then none
    else if values.headD .unavailable = .boolean false then decidingValue ms values.tail
    else some (values.headD .unavailable)

/-- The next answer of the host is the next value. -/
theorem headD_serialize (h : host.evaluations = values.map ExprValue.serialize) :
    host.evaluations.headD (.NotFound, []) = (values.headD .unavailable).serialize := by
  rw [h]
  cases values <;> rfl

theorem evaluations_exprEvaluate (h : host.evaluations = values.map ExprValue.serialize)
    (token : UInt32) :
    (host.exprEvaluate token).2.evaluations = values.tail.map ExprValue.serialize := by
  simp only [Host.exprEvaluate, h, List.map_tail]

/-- Evaluations that count booleans only are the intended ones. -/
theorem OnlyBooleansMatch.evaluateMatches_eq (h : OnlyBooleansMatch ms host values)
    (hvalues : host.evaluations = values.map ExprValue.serialize) :
    (evaluateMatches ms host).1 = intended ms values := by
  induction ms generalizing host values with
  | nil => rfl
  | cons m ms ih =>
    obtain ⟨hbool, hrest⟩ := h
    unfold evaluateMatches intended
    by_cases hempty : m.condition = []
    · rw [Match.evaluate_of_empty hempty, if_pos hempty]
    · rw [if_neg hempty]
      rw [Match.evaluate_of_ne hempty, headD_serialize hvalues] at hbool hrest ⊢
      have hone : ¬ (values.headD .unavailable).OneByte := by
        intro hone
        obtain ⟨hsome, hnone⟩ := isSome_outcomeOf_of_oneByte hone
        have hboolean := hbool hempty hsome
        rw [hnone] at hboolean
        cases hboolean
      rw [outcomeOf_serialize_eq_asBoolean hone] at hrest ⊢
      cases hasBoolean : (values.headD .unavailable).asBoolean with
      | none => rfl
      | some b =>
        cases b with
        | true => rfl
        | false => exact ih (hrest hasBoolean) (evaluations_exprEvaluate hvalues _)

/-- Only strings of length one are mistaken for booleans. -/
theorem onlyBooleansMatch_iff (hvalues : host.evaluations = values.map ExprValue.serialize) :
    OnlyBooleansMatch ms host values ↔ ∀ v, decidingValue ms values = some v → ¬ v.OneByte := by
  induction ms generalizing host values with
  | nil => exact iff_of_true trivial (fun v h => nomatch h)
  | cons m ms ih =>
    unfold OnlyBooleansMatch decidingValue
    by_cases hempty : m.condition = []
    · simp [Match.evaluate_of_empty hempty, hempty]
    · rw [Match.evaluate_of_ne hempty, headD_serialize hvalues, if_neg hempty]
      have ih := @ih (host.exprEvaluate m.conditionToken).2 values.tail
        (evaluations_exprEvaluate hvalues _)
      generalize values.headD .unavailable = first
      by_cases hone : first.OneByte
      · -- The evaluation is mistaken for a boolean, and this value decides.
        obtain ⟨hsome, hnone⟩ := isSome_outcomeOf_of_oneByte hone
        have hne : first ≠ .boolean false := by
          rintro rfl
          exact hone
        simp [hempty, hsome, hnone, hne, hone]
      · rw [outcomeOf_serialize_eq_asBoolean hone]
        by_cases hfalse : first = .boolean false
        · simpa [hempty, hfalse, ExprValue.asBoolean] using ih
        · have hne : first.asBoolean ≠ some false := by
            intro h
            cases first <;> simp_all [ExprValue.asBoolean]
          simp [hfalse, hne, hone]

/-- **Only boolean conditions match, exactly if the value that decides about the generator is not a
string of length one.** -/
theorem only_booleans_match_iff (g : AttributeGenerator) (host : Host) (values : List ExprValue)
    (hvalues : host.evaluations = values.map ExprValue.serialize) :
    (OnlyBooleansMatch g.matchList host values ∧
        (g.evaluate host).1 = intended g.matchList values) ↔
      ∀ v, decidingValue g.matchList values = some v → ¬ v.OneByte := by
  rw [← onlyBooleansMatch_iff hvalues]
  refine and_iff_left_of_imp fun h => ?_
  exact h.evaluateMatches_eq hvalues

/-- A generator with two conditions. -/
def sampleGenerator : AttributeGenerator where
  phase := .OnLog
  outputAttribute := bytes "istio.operationId"
  matchList :=
    [⟨bytes "request.method == 'GET'", 1, bytes "Get"⟩, ⟨bytes "request.query", 2, bytes "Query"⟩]

/-- A host whose next evaluations come to these values. -/
def sampleHost (values : List ExprValue) : Host :=
  { State.start.host with evaluations := values.map ExprValue.serialize }

theorem only_booleans_match_int64 :
    (OnlyBooleansMatch sampleGenerator.matchList (sampleHost [.boolean false, .int64 7])
        [.boolean false, .int64 7] ∧
      (sampleGenerator.evaluate (sampleHost [.boolean false, .int64 7])).1 =
        intended sampleGenerator.matchList [.boolean false, .int64 7]) ↔
      ∀ v, decidingValue sampleGenerator.matchList [.boolean false, .int64 7] = some v →
        ¬ v.OneByte :=
  only_booleans_match_iff sampleGenerator (sampleHost _) _ rfl

/-- **A string of length one counts as true.** -/
theorem string_matches : ¬ ∀ (g : AttributeGenerator) (host : Host) (values : List ExprValue),
    host.evaluations = values.map ExprValue.serialize →
      OnlyBooleansMatch g.matchList host values ∧
        (g.evaluate host).1 = intended g.matchList values := by
  intro h
  obtain ⟨-, hevaluate⟩ := h sampleGenerator (sampleHost [.boolean false, .string (bytes "x")])
    [.boolean false, .string (bytes "x")] rfl
  exact absurd hevaluate (by decide)

end AttributeGen

end WasmExtensions
