import WasmExtensions.BasicAuth.Check
import WasmExtensions.Common.Base64
import WasmExtensions.Common.Json

/-!
# The configuration of basic auth

`configure` reads the rules of a configuration one after the other and appends each to the rules of
its methods, and then reads the realm.  Every rule is checked before it is appended, but the rules
that come before a rejected one have been appended by then.

A rule is a local variable whose `path_pattern` is not initialized.  What it holds before it is
assigned is a parameter (`uninitialized`).  Log messages are left out.
-/

namespace WasmExtensions

namespace BasicAuth

/-- The rules and the realm of the root context. -/
structure PluginRootContext where
  basicAuthConfiguration : RuleTable
  realm : Bytes

/-- The root context after its constructor. -/
def PluginRootContext.new : PluginRootContext := ⟨fun _ => none, bytes "istio"⟩

/-! ### One rule -/

/-- Reads one of the three fields for the path, and counts those that are there. -/
def pathField (configuration : Json) (field : Bytes) (count : ℕ) : Option (ℕ × Bytes) :=
  match configuration.find field with
  | none => some (count, [])
  | some value =>
    match jsonValueAsString value with
    | (some text, .OK) => some (count + 1, text)
    | _ => none

/-- The pattern that an entry of `hosts` stands for. -/
def hostPattern (host : Bytes) : MatchType × Bytes :=
  if startsWith host (bytes "*") then (.Suffix, host.drop 1)
  else if endsWith host (bytes "*") then (.Prefix, host.take (host.length - 1))
  else (.Exact, host)

def visitHost (host : Json) (hosts : List (MatchType × Bytes)) :
    Bool × List (MatchType × Bytes) :=
  match jsonValueAsString host with
  | (some host, .OK) => (true, hosts ++ [hostPattern host])
  | _ => (false, hosts)

def visitMethod (method : Json) (methods : List Bytes) : Bool × List Bytes :=
  match jsonValueAsString method with
  | (some method, .OK) => (true, methods ++ [method])
  | _ => (false, methods)

/-- Inserts into a set. -/
def insertCredential (credential : Bytes) (credentials : List Bytes) : List Bytes :=
  if credential ∈ credentials then credentials else credentials ++ [credential]

/-- A credential with a `:` is encoded; any other has to be encoded already. -/
def visitCredential (credential : Json) (credentials : List Bytes) : Bool × List Bytes :=
  match jsonValueAsString credential with
  | (some credential, .OK) =>
    if ':'.toUInt8 ∈ credential then
      (true, insertCredential (Base64.encode credential true) credentials)
    else if !(Base64.decodeWithoutPadding credential).isEmpty then
      (true, insertCredential credential credentials)
    else (false, credentials)
  | _ => (false, credentials)

/-- The pattern for the path; it stays as it is if all three texts are empty. -/
def pathPattern (uninitialized : Option MatchType) (start exact ending : Bytes) :
    Option MatchType × Bytes :=
  if !start.isEmpty then (some .Prefix, start)
  else if !exact.isEmpty then (some .Exact, exact)
  else if !ending.isEmpty then (some .Suffix, ending)
  else (uninitialized, [])

/-- The methods of a rule, and the rule; `none` if it is rejected. -/
def parseRule (uninitialized : Option MatchType) (configuration : Json) :
    Option (List Bytes × BasicAuthConfigRule) :=
  (pathField configuration (bytes "prefix") 0).bind fun (count, start) =>
  (pathField configuration (bytes "exact") count).bind fun (count, exact) =>
  (pathField configuration (bytes "suffix") count).bind fun (count, ending) =>
  if count ≠ 1 then none
  else
    match jsonArrayIterate configuration (bytes "hosts") visitHost [] with
    | (false, _) => none
    | (true, hosts) =>
      match jsonArrayIterate configuration (bytes "request_methods") visitMethod [] with
      | (false, _) => none
      | (true, methods) =>
        if methods.isEmpty then none
        else
          match jsonArrayIterate configuration (bytes "credentials") visitCredential [] with
          | (false, _) => none
          | (true, credentials) =>
            if credentials.isEmpty then none
            else
              let (pathPattern, requestPath) := pathPattern uninitialized start exact ending
              some (methods, ⟨requestPath, pathPattern, hosts, credentials⟩)

/-- `(*rules)[method].push_back(rule)`. -/
def pushRule (rule : BasicAuthConfigRule) (rules : RuleTable) (method : Bytes) : RuleTable :=
  fun method' =>
    if method' = method then some ((rules method).getD [] ++ [rule]) else rules method'

/-- Appends a rule to the rules of each of its methods. -/
def extractBasicAuthRule (uninitialized : Option MatchType) (configuration : Json)
    (rules : RuleTable) : Bool × RuleTable :=
  match parseRule uninitialized configuration with
  | none => (false, rules)
  | some (methods, rule) => (true, methods.foldl (pushRule rule) rules)

/-! ### The configuration -/

section

variable (lib : JsonLibrary) (uninitialized : ℕ → Option MatchType)

/-- The visit of a rule.  The first component counts the rules. -/
def visitRule (configuration : Json) (state : ℕ × RuleTable) : Bool × ℕ × RuleTable :=
  let (extracted, rules) :=
    extractBasicAuthRule (uninitialized state.1) configuration state.2
  (extracted, state.1 + 1, rules)

/-- The second part of `configure`. -/
def configureRealm (j : Json) (plugin : PluginRootContext) : Bool × PluginRootContext :=
  match j.find (bytes "realm") with
  | none => (true, plugin)
  | some realm =>
    match jsonValueAsString realm with
    | (some realm, .OK) => (true, { plugin with realm := realm })
    | _ => (false, plugin)

def configure (configuration : Bytes) (plugin : PluginRootContext) : Bool × PluginRootContext :=
  match jsonParse lib configuration with
  | none => (false, plugin)
  | some j =>
    let (iterated, _, rules) := jsonArrayIterate j (bytes "basic_auth_rules")
      (visitRule uninitialized) (0, plugin.basicAuthConfiguration)
    let plugin := { plugin with basicAuthConfiguration := rules }
    if !iterated then (false, plugin) else configureRealm j plugin

/-- An empty configuration is not looked at. -/
def onConfigure (configuration : Bytes) (plugin : PluginRootContext) : Bool × PluginRootContext :=
  if 0 < configuration.length then configure lib uninitialized configuration plugin
  else (true, plugin)

end

end BasicAuth

end WasmExtensions
