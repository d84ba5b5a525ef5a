import WasmExtensions.Common.Expressions
import WasmExtensions.Common.Host

/-!
# The attribute generator

The plugin sets attributes of a stream by the first of several conditions that holds.  A condition
is an expression of the host; its token is kept in the generator that evaluates it, and in the list
of all tokens, which are deleted before the next configuration and at the end.

* `onConfigure`, `attributeGen`, `onDone` : the callbacks, statement by statement.
* `pluginMachine` : the callbacks in any order.

`JsonStringToMessage` is a parameter.  Log messages are left out, and with them `debug_`, which
nothing else reads.  What the host answers during a callback is part of the step.
-/

namespace WasmExtensions

namespace AttributeGen

/-! ### The configuration -/

/-- The plugin lifecycle phase of a configuration. -/
inductive Phase where
  | ON_LOG
  | ON_REQUEST
  /-- A number that is not in the schema. -/
  | other (number : Int32)
  deriving DecidableEq, Repr

/-- The message `Match`. -/
structure MatchConfig where
  condition : Bytes
  value : Bytes
  deriving DecidableEq, Repr

/-- The message `AttributeGeneration`. -/
structure AttributeGeneration where
  phase : Phase
  outputAttribute : Bytes
  /-- The field `match`. -/
  matchConfigs : List MatchConfig
  deriving DecidableEq, Repr

/-- The message `PluginConfig`. -/
structure PluginConfig where
  attributes : List AttributeGeneration
  deriving DecidableEq, Repr

/-! ### The plugin -/

/-- A condition with its token, and the value that goes with it. -/
structure Match where
  condition : Bytes
  /-- Expression token associated with the condition. -/
  conditionToken : UInt32
  value : Bytes
  deriving DecidableEq, Repr

inductive EvalPhase where
  | OnLog
  | OnRequest
  deriving DecidableEq, Repr

structure AttributeGenerator where
  phase : EvalPhase
  outputAttribute : Bytes
  /-- The field `matches_`. -/
  matchList : List Match
  deriving DecidableEq, Repr

structure PluginRootContext where
  /-- List of generators. -/
  gen : List AttributeGenerator
  /-- Tokens of the expressions of all generators. -/
  tokens : List UInt32
  deriving DecidableEq, Repr

/-- What the plugin does to the host. -/
structure Host where
  expressions : ExpressionHost
  /-- What the next calls of `expr_evaluate` are answered: the result and the output. -/
  evaluations : List (WasmResult × Bytes)
  /-- The attributes that were set, latest first. -/
  filterState : List (Bytes × Bytes)
  /-- The value of the counter `config_errors_`. -/
  configErrors : ℕ
  /-- The value of the counter `runtime_errors_`. -/
  runtimeErrors : ℕ
  deriving DecidableEq, Repr

/-- `expr_evaluate`; without an answer the call fails. -/
def Host.exprEvaluate (token : UInt32) (host : Host) : (WasmResult × Bytes) × Host :=
  (host.evaluations.headD (.NotFound, []),
    { host with
      expressions := host.expressions.evaluateAll [token]
      evaluations := host.evaluations.tail })

/-- The result of the evaluation, or nothing in case of an error. -/
def Match.evaluate (m : Match) (host : Host) : Option Bool × Host :=
  if m.condition.isEmpty then (some true, host)
  else
    match host.exprEvaluate m.conditionToken with
    | ((.Ok, [out]), host) => (some (out != 0), host)
    | (_, host) => (none, host)

/-- The loop over the matches: the value of the first that holds, or nothing in case of an
error. -/
def evaluateMatches : List Match → Host → Option (Option Bytes) × Host
  | [], host => (some none, host)
  | m :: rest, host =>
    match m.evaluate host with
    | (none, host) => (none, host)
    | (some true, host) => (some (some m.value), host)
    | (some false, host) => evaluateMatches rest host

def AttributeGenerator.evaluate (g : AttributeGenerator) (host : Host) :
    Option (Option Bytes) × Host :=
  evaluateMatches g.matchList host

/-- One generator of `attributeGen`. -/
def generate (phase : EvalPhase) (g : AttributeGenerator) (host : Host) : Host :=
  if phase ≠ g.phase then host
  else
    match g.evaluate host with
    | (none, host) => { host with runtimeErrors := host.runtimeErrors + 1 }
    | (some none, host) => host
    | (some (some val), host) =>
      { host with filterState := (g.outputAttribute, val) :: host.filterState }

namespace PluginRootContext

def start : PluginRootContext := ⟨[], []⟩

/-- Called on the data path. -/
def attributeGen (phase : EvalPhase) (root : PluginRootContext) (host : Host) : Host :=
  root.gen.foldl (fun host g => generate phase g host) host

def cleanupAttributeGen (root : PluginRootContext) (host : Host) : PluginRootContext × Host :=
  (⟨[], []⟩, { host with expressions := host.expressions.deleteAll root.tokens })

/-- The loop over the matches of an attribute; nothing if an expression is rejected. -/
def initMatches : List MatchConfig → List Match → PluginRootContext → Host →
    Option (List Match) × PluginRootContext × Host
  | [], built, root, host => (some built, root, host)
  | config :: configs, built, root, host =>
    if config.condition.isEmpty then
      initMatches configs (built ++ [⟨[], 0, config.value⟩]) root host
    else
      match host.expressions.createExpression config.condition with
      | (none, expressions) => (none, root, { host with expressions := expressions })
      | (some token, expressions) =>
        initMatches configs (built ++ [⟨config.condition, token, config.value⟩])
          { root with tokens := root.tokens ++ [token] } { host with expressions := expressions }

/-- The phase of a generator: on log, unless it is on request. -/
def evalPhase : Phase → EvalPhase
  | .ON_REQUEST => .OnRequest
  | _ => .OnLog

/-- The loop over the attributes. -/
def initAttributeGen : List AttributeGeneration → PluginRootContext → Host →
    Bool × PluginRootContext × Host
  | [], root, host => (true, root, host)
  | config :: configs, root, host =>
    match initMatches config.matchConfigs [] root host with
    | (none, root, host) => (false, root, host)
    | (some built, root, host) =>
      initAttributeGen configs
        { root with
          gen := root.gen ++ [⟨evalPhase config.phase, config.outputAttribute, built⟩] } host

/-- The result is always `true`: the plugin counts the configurations that it rejects. -/
def onConfigure (parse : Bytes → Option PluginConfig) (configuration : Bytes)
    (root : PluginRootContext) (host : Host) : Bool × PluginRootContext × Host :=
  match parse configuration with
  | none => (true, root, { host with configErrors := host.configErrors + 1 })
  | some config =>
    let (root, host) := root.cleanupAttributeGen host
    match initAttributeGen config.attributes root host with
    | (true, root, host) => (true, root, host)
    | (false, root, host) =>
      (true, root.cleanupAttributeGen { host with configErrors := host.configErrors + 1 })

def onDone (root : PluginRootContext) (host : Host) : Bool × PluginRootContext × Host :=
  (true, root.cleanupAttributeGen host)

end PluginRootContext

/-! ### Runs -/

/-- The plugin and its host. -/
structure State where
  root : PluginRootContext
  host : Host
  deriving DecidableEq, Repr

def State.start : State := ⟨.start, ⟨⟨[], []⟩, [], [], 0, 0⟩⟩

/-- The callbacks, with what the host answers while they run. -/
inductive Label where
  | onConfigure (configuration : Bytes) (answers : List (Option UInt32))
  | attributeGen (phase : EvalPhase) (evaluations : List (WasmResult × Bytes))
  | onDone
  deriving DecidableEq, Repr

/-- The host before a callback: it has its answers ready. -/
def Host.prepare (host : Host) (answers : List (Option UInt32))
    (evaluations : List (WasmResult × Bytes)) : Host :=
  { host with
    expressions := { host.expressions with answers := answers }
    evaluations := evaluations }

/-- The plugin under its callbacks. -/
def pluginMachine (parse : Bytes → Option PluginConfig) : Machine State Label where
  next s
    | .onConfigure configuration answers =>
      let (_, root, host) := s.root.onConfigure parse configuration (s.host.prepare answers [])
      some ⟨root, host⟩
    | .attributeGen phase evaluations =>
      some ⟨s.root, s.root.attributeGen phase (s.host.prepare [] evaluations)⟩
    | .onDone =>
      let (_, root, host) := s.root.onDone s.host
      some ⟨root, host⟩

end AttributeGen

end WasmExtensions
