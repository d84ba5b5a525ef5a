import WasmExtensions.BasicAuth.RuleMeaning
import WasmExtensions.Machine.Basic

/-!
# Changing the configuration of basic auth

A configuration should replace the one before: after any configurations, accepted or rejected, the
plugin should be as if only the last accepted one had been given (`Replaced`).  But `configure`
appends to the table that is in use.  So this holds in a run exactly if every accepted
configuration finds an empty table and sets the realm, unless it is the default one still, and
every rejected configuration is rejected before a rule of it has been appended
(`configuration_replaced_iff`).
-/

namespace WasmExtensions

namespace BasicAuth

/-! ### What a configuration does to the table -/

variable {lib : JsonLibrary} {uninitialized : ℕ → Option MatchType} {text method : Bytes}
  {plugin : PluginRootContext} {rules rules' : RuleTable}
  {extracted : List (List Bytes × BasicAuthConfigRule)}

/-- The rules that come before the first rejected one, with their methods. -/
def extractedRules (uninitialized : ℕ → Option MatchType) :
    ℕ → List Json → List (List Bytes × BasicAuthConfigRule)
  | _, [] => []
  | n, configuration :: configurations =>
    match parseRule (uninitialized n) configuration with
    | none => []
    | some rule => rule :: extractedRules uninitialized (n + 1) configurations

/-- Appends rules to a table. -/
def pushAll : List (List Bytes × BasicAuthConfigRule) → RuleTable → RuleTable
  | [], rules => rules
  | (methods, rule) :: extracted, rules => pushAll extracted (methods.foldl (pushRule rule) rules)

/-- The rules that an object pushes, whether or not it is accepted in the end. -/
def pushedRules (uninitialized : ℕ → Option MatchType) (j : Json) :
    List (List Bytes × BasicAuthConfigRule) :=
  match j.find (bytes "basic_auth_rules") with
  | some (.array configurations) => extractedRules uninitialized 0 configurations
  | _ => []

/-- The rules are missing, or an array of rules that are all in order. -/
def rulesAccepted (uninitialized : ℕ → Option MatchType) (j : Json) : Bool :=
  match j.find (bytes "basic_auth_rules") with
  | none => true
  | some (.array configurations) =>
    (extractedRules uninitialized 0 configurations).length == configurations.length
  | some _ => false

/-- The realm is missing, or a string. -/
def realmAccepted (j : Json) : Bool :=
  match j.find (bytes "realm") with
  | none => true
  | some realm => (asString realm).isSome

/-- The realm of an object, if there is one. -/
def configuredRealm (j : Json) : Option Bytes := (j.find (bytes "realm")).bind asString

theorem iterate_visitRule {n : ℕ} {configurations : List Json} :
    (iterate (visitRule uninitialized) configurations (n, rules)).1 =
        ((extractedRules uninitialized n configurations).length == configurations.length) ∧
      (iterate (visitRule uninitialized) configurations (n, rules)).2.2 =
        pushAll (extractedRules uninitialized n configurations) rules := by
  induction configurations generalizing n rules with
  | nil => exact ⟨rfl, rfl⟩
  | cons configuration configurations ih =>
    unfold extractedRules
    cases hparse : parseRule (uninitialized n) configuration with
    | none =>
      have hvisit : visitRule uninitialized configuration (n, rules) = (false, n + 1, rules) := by
        simp only [visitRule, extractBasicAuthRule, hparse]
      rw [iterate_cons_of_false hvisit]
      exact ⟨rfl, rfl⟩
    | some extracted =>
      have hvisit : visitRule uninitialized configuration (n, rules) =
          (true, n + 1, extracted.1.foldl (pushRule extracted.2) rules) := by
        simp only [visitRule, extractBasicAuthRule, hparse]
      rw [iterate_cons_of_true hvisit]
      obtain ⟨hall, hrules⟩ := @ih (extracted.1.foldl (pushRule extracted.2) rules) (n + 1)
      rw [hall, hrules]
      simp [pushAll]

theorem jsonArrayIterate_visitRule (uninitialized : ℕ → Option MatchType) (j : Json)
    (rules : RuleTable) :
    (jsonArrayIterate j (bytes "basic_auth_rules") (visitRule uninitialized) (0, rules)).1 =
        rulesAccepted uninitialized j ∧
      (jsonArrayIterate j (bytes "basic_auth_rules") (visitRule uninitialized) (0, rules)).2.2 =
        pushAll (pushedRules uninitialized j) rules := by
  unfold jsonArrayIterate rulesAccepted pushedRules
  cases j.find (bytes "basic_auth_rules") with
  | none => exact ⟨rfl, rfl⟩
  | some value =>
    cases value with
    | array configurations => exact iterate_visitRule
    | null => exact ⟨rfl, rfl⟩
    | boolean b => exact ⟨rfl, rfl⟩
    | number n => exact ⟨rfl, rfl⟩
    | string s => exact ⟨rfl, rfl⟩
    | object fields => exact ⟨rfl, rfl⟩

theorem configureRealm_eq {j : Json} : configureRealm j plugin =
    (realmAccepted j, { plugin with realm := (configuredRealm j).getD plugin.realm }) := by
  unfold configureRealm realmAccepted configuredRealm
  cases j.find (bytes "realm") with
  | none => rfl
  | some realm => cases realm <;> rfl

/-- An object pushes its rules, and sets its realm if it is accepted. -/
theorem configure_eq {j : Json} (hparse : jsonParse lib text = some j) :
    configure lib uninitialized text plugin =
      (rulesAccepted uninitialized j && realmAccepted j,
        { basicAuthConfiguration :=
            pushAll (pushedRules uninitialized j) plugin.basicAuthConfiguration
          realm :=
            if rulesAccepted uninitialized j then (configuredRealm j).getD plugin.realm
            else plugin.realm }) := by
  obtain ⟨hall, hrules⟩ := jsonArrayIterate_visitRule uninitialized j plugin.basicAuthConfiguration
  simp only [configure, hparse, hall, hrules]
  cases rulesAccepted uninitialized j with
  | false => rfl
  | true =>
    simp only [Bool.not_true, Bool.false_eq_true, if_false, if_true, Bool.true_and]
    exact configureRealm_eq

/-! ### Appending rules to a table -/

/-- What the rules append under a method. -/
def appendedUnder (method : Bytes) (extracted : List (List Bytes × BasicAuthConfigRule)) :
    List BasicAuthConfigRule :=
  extracted.flatMap fun (methods, rule) => List.replicate (methods.count method) rule

theorem pushAll_apply : pushAll extracted rules method =
    if appendedUnder method extracted = [] then rules method
    else some ((rules method).getD [] ++ appendedUnder method extracted) := by
  induction extracted generalizing rules with
  | nil => rfl
  | cons first extracted ih =>
    obtain ⟨methods, rule⟩ := first
    have happended : appendedUnder method ((methods, rule) :: extracted) =
        List.replicate (methods.count method) rule ++ appendedUnder method extracted := rfl
    rw [pushAll, ih, foldl_pushRule, happended]
    by_cases hmem : method ∈ methods
    · have hne : List.replicate (methods.count method) rule ≠ [] := by
        rw [ne_eq, List.replicate_eq_nil_iff]
        exact Nat.pos_iff_ne_zero.1 (List.count_pos_iff.2 hmem)
      rw [if_pos hmem, if_neg fun h => hne (List.append_eq_nil_iff.1 h).1]
      split_ifs with hnil
      · rw [hnil, List.append_nil]
      · rw [Option.getD_some, List.append_assoc]
    · rw [if_neg hmem, List.count_eq_zero.2 hmem]; rfl

/-- Every rule that is extracted has a method. -/
theorem ne_nil_of_mem_extractedRules {n : ℕ} {configurations : List Json} {methods : List Bytes}
    {rule : BasicAuthConfigRule}
    (h : (methods, rule) ∈ extractedRules uninitialized n configurations) : methods ≠ [] := by
  induction configurations generalizing n with
  | nil => cases h
  | cons configuration configurations ih =>
    unfold extractedRules at h
    cases hparse : parseRule (uninitialized n) configuration with
    | none => rw [hparse] at h; cases h
    | some first =>
      rw [hparse] at h
      rcases List.mem_cons.1 h with rfl | h
      · obtain ⟨-, -, -, -, -, -, -, -, hne⟩ := parseRule_eq_some hparse
        exact hne
      · exact ih h

theorem ne_nil_of_mem_pushedRules {j : Json} {methods : List Bytes} {rule : BasicAuthConfigRule}
    (h : (methods, rule) ∈ pushedRules uninitialized j) : methods ≠ [] := by
  unfold pushedRules at h
  split at h
  · exact ne_nil_of_mem_extractedRules h
  · cases h

/-- Only the empty list of rules leaves a table as it is. -/
theorem pushAll_pushedRules_eq_self_iff (rules : RuleTable) {j : Json} :
    pushAll (pushedRules uninitialized j) rules = rules ↔ pushedRules uninitialized j = [] := by
  constructor
  · intro heq
    by_contra hne
    obtain ⟨⟨methods, rule⟩, hmem⟩ := List.exists_mem_of_ne_nil _ hne
    obtain ⟨method, hmethod⟩ := List.exists_mem_of_ne_nil _ (ne_nil_of_mem_pushedRules hmem)
    have happended : appendedUnder method (pushedRules uninitialized j) ≠ [] := by
      have hcount : methods.count method ≠ 0 :=
        Nat.pos_iff_ne_zero.1 (List.count_pos_iff.2 hmethod)
      exact List.ne_nil_of_mem
        (List.mem_flatMap.2 ⟨_, hmem, List.mem_replicate.2 ⟨hcount, rfl⟩⟩)
    have happly := congrFun heq method
    rw [pushAll_apply, if_neg happended] at happly
    cases hrules : rules method with
    | none => rw [hrules] at happly; cases happly
    | some before =>
      rw [hrules] at happly
      exact happended (List.append_right_eq_self.1 (Option.some.inj happly))
  · intro hnil
    rw [hnil]; rfl

/-- The rules of a table are forgotten only if there are none. -/
theorem pushAll_eq_pushAll_empty_iff (hrules : ∀ method, rules method ≠ some []) :
    pushAll extracted rules = pushAll extracted (fun _ => none) ↔ rules = fun _ => none := by
  constructor
  · intro heq
    funext method
    have happly := congrFun heq method
    rw [pushAll_apply, pushAll_apply] at happly
    split_ifs at happly with hnil
    · exact happly
    · cases hbefore : rules method with
      | none => rfl
      | some before =>
        rw [hbefore] at happly
        have hnil : before = [] := List.append_left_eq_self.1 (Option.some.inj happly)
        rw [hnil] at hbefore
        exact absurd hbefore (hrules method)
  · intro hempty
    rw [hempty]

theorem pushAll_ne_some_nil (hrules : ∀ method, rules method ≠ some []) :
    pushAll extracted rules method ≠ some [] := by
  rw [pushAll_apply]
  split_ifs with hnil
  · exact hrules method
  · intro heq
    exact hnil (List.append_eq_nil_iff.1 (Option.some.inj heq)).2

/-! ### Runs -/

/-- What a call of `onConfigure` is given: a text, and what the `path_pattern` of each of its rules
holds before it is assigned. -/
structure Configuration where
  text : Bytes
  nonempty : text ≠ []
  uninitialized : ℕ → Option MatchType

namespace Configuration

variable (lib : JsonLibrary) (c : Configuration)

/-- The text is an object whose rules and realm are all in order. -/
def accepted : Bool :=
  (jsonParse lib c.text).any fun j => rulesAccepted c.uninitialized j && realmAccepted j

/-- The rules that are pushed before the configuration is accepted or rejected. -/
def pushed : List (List Bytes × BasicAuthConfigRule) :=
  match jsonParse lib c.text with
  | none => []
  | some j => pushedRules c.uninitialized j

/-- The realm that the text names. -/
def realm : Option Bytes := (jsonParse lib c.text).bind configuredRealm

end Configuration

/-- A plugin, and the last configuration that it accepted. -/
structure System where
  plugin : PluginRootContext
  accepted : Option Configuration

def System.start : System := ⟨.new, none⟩

def System.onConfigure (lib : JsonLibrary) (c : Configuration) (s : System) : System :=
  let (accepted, plugin) := BasicAuth.onConfigure lib c.uninitialized c.text s.plugin
  ⟨plugin, if accepted then some c else s.accepted⟩

/-- The plugin that is given one configuration after the other. -/
def configuring (lib : JsonLibrary) : Machine System Configuration where
  next s c := some (s.onConfigure lib c)

/-- A fresh plugin to which the last accepted configuration has been applied. -/
def freshlyConfigured (lib : JsonLibrary) : Option Configuration → PluginRootContext
  | none => .new
  | some c => (onConfigure lib c.uninitialized c.text .new).2

/-- Only the last accepted configuration is in force. -/
def Replaced (lib : JsonLibrary) (s : System) : Prop :=
  s.plugin = freshlyConfigured lib s.accepted

/-- An accepted configuration finds no rules, and it names a realm unless the realm is the default
one still; a rejected configuration is rejected before one of its rules is pushed. -/
def ReplacesWhole (lib : JsonLibrary) (s : System) (c : Configuration) : Prop :=
  if c.accepted lib then
    (∀ method, s.plugin.basicAuthConfiguration method = none) ∧
      ((c.realm lib).isSome ∨ s.plugin.realm = bytes "istio")
  else c.pushed lib = []

variable {s : System} {c : Configuration}

theorem onConfigure_eq : onConfigure lib c.uninitialized c.text plugin =
    (c.accepted lib,
      { basicAuthConfiguration := pushAll (c.pushed lib) plugin.basicAuthConfiguration
        realm :=
          if c.accepted lib then (c.realm lib).getD plugin.realm else plugin.realm }) := by
  have hpos : 0 < c.text.length := List.length_pos_iff.2 c.nonempty
  unfold onConfigure Configuration.accepted Configuration.pushed Configuration.realm
  rw [if_pos hpos]
  cases hparse : jsonParse lib c.text with
  | none =>
    simp only [configure, hparse]
    rfl
  | some j =>
    rw [configure_eq hparse, Option.any_some, Option.bind_some]
    cases rulesAccepted c.uninitialized j with
    | false => rfl
    | true =>
      simp only [Bool.true_and, if_true]
      -- The realm of a rejected object cannot be read.
      cases hrealm : realmAccepted j with
      | true => rfl
      | false =>
        have hnone : configuredRealm j = none := by
          unfold realmAccepted at hrealm
          unfold configuredRealm
          split at hrealm
          · cases hrealm
          · rename_i realm hfind
            rw [hfind]
            exact Option.not_isSome_iff_eq_none.1 (Bool.eq_false_iff.1 hrealm)
        rw [hnone]; rfl

theorem freshlyConfigured_ne_some_nil :
    (freshlyConfigured lib s.accepted).basicAuthConfiguration method ≠
    some [] := by
  unfold freshlyConfigured
  split
  · exact fun h => nomatch h
  · rw [onConfigure_eq]
    exact pushAll_ne_some_nil fun _ h => nomatch h

theorem replaced_onConfigure_iff (hs : Replaced lib s) :
    Replaced lib (s.onConfigure lib c) ↔ ReplacesWhole lib s c := by
  have hrules : ∀ method, s.plugin.basicAuthConfiguration method ≠ some [] := by
    intro method
    rw [hs]
    exact freshlyConfigured_ne_some_nil
  unfold Replaced System.onConfigure ReplacesWhole
  rw [onConfigure_eq]
  dsimp only
  cases haccepted : c.accepted lib with
  | true =>
    simp only [if_true]
    rw [freshlyConfigured, onConfigure_eq, haccepted, if_pos rfl, PluginRootContext.mk.injEq]
    have htable : PluginRootContext.new.basicAuthConfiguration = fun _ => none := rfl
    rw [htable, pushAll_eq_pushAll_empty_iff hrules]
    refine and_congr funext_iff ?_
    cases c.realm lib with
    | none => simp [PluginRootContext.new]
    | some realm => simp
  | false =>
    simp only [Bool.false_eq_true, if_false]
    rw [← hs, Configuration.pushed]
    cases jsonParse lib c.text with
    | none => exact iff_of_true rfl rfl
    | some j =>
      dsimp only
      rw [← pushAll_pushedRules_eq_self_iff s.plugin.basicAuthConfiguration]
      constructor
      · intro heq
        exact congrArg PluginRootContext.basicAuthConfiguration heq
      · intro heq
        rw [heq]

/-- **When the configuration of basic auth is replaced as a whole**: in a run, after every call
only the last accepted configuration is in force, if and only if every call finds the state that
`ReplacesWhole` asks for. -/
theorem configuration_replaced_iff (lib : JsonLibrary) (cs : List Configuration) :
    (configuring lib).Keeps (Replaced lib) .start cs ↔
      (configuring lib).Along (ReplacesWhole lib) .start cs := by
  refine Machine.keeps_iff_along (fun s c hs => ?_) rfl
  rw [← replaced_onConfigure_iff hs]
  constructor
  · rintro ⟨s', hn, hs'⟩
    rw [Option.some.inj hn]
    exact hs'
  · intro hs'
    exact ⟨_, rfl, hs'⟩

/-- The text of a rule for `/api`. -/
def ruleText : Bytes :=
  bytes ("\x7b\"credentials\":[\"ok:test\"],\"prefix\":\"/api\",\"hosts\":[\"*.foo.com\"]," ++
    "\"request_methods\":[\"GET\"]\x7d")

/-- A configuration with one rule. -/
def oneRule : Configuration where
  text := bytes "\x7b\"basic_auth_rules\":[" ++ ruleText ++ bytes "]\x7d"
  nonempty := by decide
  uninitialized _ := none

/-- A configuration without rules. -/
def noRules : Configuration where
  text := bytes "\x7b\x7d"
  nonempty := by decide
  uninitialized _ := none

/-- A configuration whose second rule is malformed. -/
def malformedRule : Configuration where
  text := bytes "\x7b\"basic_auth_rules\":[" ++ ruleText ++ bytes ",\x7b\x7d]\x7d"
  nonempty := by decide
  uninitialized _ := none

/-- The JSON library on these texts. -/
def sampleLibrary : JsonLibrary where
  parse text :=
    if text = oneRule.text then
      some (.object [(bytes "basic_auth_rules", .array [sampleRule .Prefix (bytes "/api")])])
    else if text = noRules.text then some (.object [])
    else if text = malformedRule.text then
      some (.object [(bytes "basic_auth_rules",
        .array [sampleRule .Prefix (bytes "/api"), .object []])])
    else none
  dump _ := none
  doubleToUint64 bits := bits
  simpleAtoiUint64 _ := none

/-- The rules of an earlier configuration stay, and those of a rejected one are in force. -/
theorem configuration_not_replaced :
    ¬ (configuring sampleLibrary).Keeps (Replaced sampleLibrary) .start [oneRule, noRules] ∧
    ¬ (configuring sampleLibrary).Keeps (Replaced sampleLibrary) .start [malformedRule] := by
  constructor
  · rintro ⟨-, s, hs, -, s', hs', hreplaced⟩
    rw [← Option.some.inj hs', ← Option.some.inj hs] at hreplaced
    have htable := congrArg (fun plugin => (plugin.basicAuthConfiguration (bytes "GET")).isSome)
      hreplaced
    exact absurd htable (by decide +kernel)
  · rintro ⟨-, s, hs, hreplaced⟩
    rw [← Option.some.inj hs] at hreplaced
    have htable := congrArg (fun plugin => (plugin.basicAuthConfiguration (bytes "GET")).isSome)
      hreplaced
    exact absurd htable (by decide +kernel)

end BasicAuth

end WasmExtensions
