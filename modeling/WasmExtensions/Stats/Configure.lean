import WasmExtensions.Common.Expressions
import WasmExtensions.Common.Json
import WasmExtensions.Stats.Plugin
import Mathlib.Data.List.Sort

/-!
# The configuration of the stats plugin

`initializeDimensions` starts from the default metrics.  Definitions replace metrics or add new
ones, whose values come from expressions; overrides drop metrics and change their tags.  Then a
generator is made of every metric that is left.  The cache of resolved metrics is not touched.

The metrics are kept in an unordered map.  The order in which it is walked through is a part of the
call (`ConfigureCall.mapOrder`): nothing is inserted once the definitions have been read, and
erasing keeps the order of what is left.  Log messages are left out.
-/

namespace WasmExtensions

namespace Stats

/-! ### Labels and default metrics -/

/-- The name of a label, as it is used for the tag. -/
def StandardLabels.name : StandardLabels → Bytes
  | reporter => bytes "reporter"
  | sourceWorkload => bytes "source_workload"
  | sourceWorkloadNamespace => bytes "source_workload_namespace"
  | sourcePrincipal => bytes "source_principal"
  | sourceApp => bytes "source_app"
  | sourceVersion => bytes "source_version"
  | sourceCanonicalService => bytes "source_canonical_service"
  | sourceCanonicalRevision => bytes "source_canonical_revision"
  | sourceCluster => bytes "source_cluster"
  | destinationWorkload => bytes "destination_workload"
  | destinationWorkloadNamespace => bytes "destination_workload_namespace"
  | destinationPrincipal => bytes "destination_principal"
  | destinationApp => bytes "destination_app"
  | destinationVersion => bytes "destination_version"
  | destinationService => bytes "destination_service"
  | destinationServiceName => bytes "destination_service_name"
  | destinationServiceNamespace => bytes "destination_service_namespace"
  | destinationCanonicalService => bytes "destination_canonical_service"
  | destinationCanonicalRevision => bytes "destination_canonical_revision"
  | destinationCluster => bytes "destination_cluster"
  | requestProtocol => bytes "request_protocol"
  | responseFlags => bytes "response_flags"
  | connectionSecurityPolicy => bytes "connection_security_policy"
  | responseCode => bytes "response_code"
  | grpcResponseStatus => bytes "grpc_response_status"

/-- Labels related to peer information. -/
def countPeerLabels : ℕ := StandardLabels.destinationCluster.index + 1

/-- Labels related to TCP streams, including peer information. -/
def countTcpLabels : ℕ := StandardLabels.connectionSecurityPolicy.index + 1

/-- Ordered dimension list is used by the metrics API. -/
def defaultTags : List Bytes := StandardLabels.all.map StandardLabels.name

/-- Creates a stat generator given tags. -/
structure MetricFactory where
  name : Bytes
  type : MetricType
  extractor : ValueExtractorFn
  protocols : UInt32
  countLabels : ℕ
  /-- True for metrics supporting reporting mid-stream. -/
  recurrent : Bool
  deriving DecidableEq, Repr

def httpAndGrpc : UInt32 := Protocol.toUInt32 .HTTP ||| Protocol.toUInt32 .GRPC

def defaultMetrics : List MetricFactory :=
  [ -- HTTP, HTTP/2, and GRPC metrics
    ⟨bytes "requests_total", .Counter, .requestsTotal, httpAndGrpc, countStandardLabels, false⟩,
    ⟨bytes "request_duration_milliseconds", .Histogram, .requestDurationMilliseconds, httpAndGrpc,
      countStandardLabels, false⟩,
    ⟨bytes "request_bytes", .Histogram, .requestBytes, httpAndGrpc, countStandardLabels, false⟩,
    ⟨bytes "response_bytes", .Histogram, .responseBytes, httpAndGrpc, countStandardLabels, false⟩,
    -- GRPC streaming metrics
    ⟨bytes "request_messages_total", .Counter, .requestMessagesTotal, Protocol.toUInt32 .GRPC,
      countPeerLabels, true⟩,
    ⟨bytes "response_messages_total", .Counter, .responseMessagesTotal, Protocol.toUInt32 .GRPC,
      countPeerLabels, true⟩,
    -- TCP metrics
    ⟨bytes "tcp_sent_bytes_total", .Counter, .tcpSentBytesTotal, Protocol.toUInt32 .TCP,
      countTcpLabels, true⟩,
    ⟨bytes "tcp_received_bytes_total", .Counter, .tcpReceivedBytesTotal, Protocol.toUInt32 .TCP,
      countTcpLabels, true⟩,
    ⟨bytes "tcp_connections_opened_total", .Counter, .tcpConnectionsOpenedTotal,
      Protocol.toUInt32 .TCP, countTcpLabels, true⟩,
    ⟨bytes "tcp_connections_closed_total", .Counter, .tcpConnectionsClosedTotal,
      Protocol.toUInt32 .TCP, countTcpLabels, false⟩]

/-! ### Expressions -/

/-- The expressions of the root context, and the host that knows them. -/
structure Expressions where
  /-- The tokens of the string expressions evaluated into dimensions. -/
  expressions : List UInt32
  /-- Where the expression of an input stands in `expressions`. -/
  inputExpressions : List (Bytes × ℕ)
  /-- The tokens of the expressions evaluated to metric values. -/
  intExpressions : List UInt32
  host : ExpressionHost

namespace Expressions

/-- Deletes all expressions. -/
def cleanupExpressions (e : Expressions) : Expressions where
  expressions := []
  inputExpressions := []
  intExpressions := []
  host := (e.host.deleteAll e.expressions).deleteAll e.intExpressions

/-- Allocates an expression if necessary; the result is its position. -/
def addStringExpression (input : Bytes) (e : Expressions) : Option ℕ × Expressions :=
  match e.inputExpressions.lookup input with
  | some position => (some position, e)
  | none =>
    match e.host.createExpression input with
    | (none, host) => (none, { e with host := host })
    | (some token, host) =>
      (some e.expressions.length,
        { e with
          expressions := e.expressions ++ [token]
          inputExpressions := (input, e.expressions.length) :: e.inputExpressions
          host := host })

/-- Allocates an int expression; the result is its token. -/
def addIntExpression (input : Bytes) (e : Expressions) : Option UInt32 × Expressions :=
  match e.host.createExpression input with
  | (none, host) => (none, { e with host := host })
  | (some token, host) =>
    (some token, { e with intExpressions := e.intExpressions ++ [token], host := host })

end Expressions

/-! ### Definitions -/

/-- The variables of `initializeDimensions`. -/
structure Building extends Expressions where
  /-- The metric factories, under their names. -/
  factories : List MetricFactory
  /-- Maps a metric factory name to a list of tags. -/
  metricTags : Bytes → List Bytes
  /-- Maps a metric factory name to a map from a tag name to an optional index.  An empty index
  means that the tag needs to be removed. -/
  metricIndexes : Bytes → Bytes → Option (Option ℕ)

/-- The default set of metrics and of tags. -/
def Building.start (e : Expressions) : Building where
  toExpressions := e
  factories := defaultMetrics
  metricTags name :=
    match defaultMetrics.find? fun factory => factory.name = name with
    | some factory => defaultTags.take factory.countLabels
    | none => []
  metricIndexes name tag :=
    match defaultMetrics.find? fun factory => factory.name = name with
    | some factory =>
      ((defaultTags.take factory.countLabels).idxOf? tag).map some
    | none => none

/-- A string field of an object, or the empty string. -/
def stringField (j : Json) (field : Bytes) : Bytes :=
  valueOr (jsonGetField jsonValueAsString j field) []

/-- What a definition makes of the factory that is there for its name. -/
def definedFactory (name : Bytes) (token : UInt32) (type : Bytes) (countLabels : ℕ) :
    MetricFactory where
  name := name
  type :=
    if type = bytes "GAUGE" then .Gauge
    else if type = bytes "HISTOGRAM" then .Histogram
    else .Counter
  extractor := .expression token
  protocols := httpAndGrpc
  countLabels := countLabels
  recurrent := false

/-- Replaces the factory of a name, or adds one. -/
def define (name : Bytes) (token : UInt32) (type : Bytes) :
    List MetricFactory → List MetricFactory
  | [] => [definedFactory name token type 0]
  | factory :: factories =>
    if factory.name = name then definedFactory name token type factory.countLabels :: factories
    else factory :: define name token type factories

def visitDefinition (definition : Json) (b : Building) : Bool × Building :=
  let name := stringField definition (bytes "name")
  let value := stringField definition (bytes "value")
  if name.isEmpty || value.isEmpty then (false, b)
  else
    match b.addIntExpression value with
    | (none, e) => (false, { b with toExpressions := e })
    | (some token, e) =>
      (true,
        { b with
          toExpressions := e
          factories := define name token (stringField definition (bytes "type")) b.factories })

/-! ### Overrides -/

/-- Sets the index of a tag of a metric. -/
def Building.setIndex (b : Building) (name tag : Bytes) (index : Option ℕ) : Building :=
  { b with
    metricIndexes := fun name' tag' =>
      if name' = name ∧ tag' = tag then some index else b.metricIndexes name' tag' }

/-- The tag is removed if the metric has it. -/
def visitTagToRemove (name : Bytes) (tag : Json) (b : Building) : Bool × Building :=
  match jsonValueAsString tag with
  | (some tag, .OK) =>
    (true, if (b.metricIndexes name tag).isSome then b.setIndex name tag none else b)
  | _ => (false, b)

/-- The tag gets the value of an expression; it is added if the metric does not have it. -/
def visitTag (metric : Json) (name tag : Bytes) (b : Building) : Bool × Building :=
  match (metric.find (bytes "dimensions")).bind (Json.find tag) with
  | some (.string expression) =>
    let (position, e) := b.addStringExpression expression
    let b := { b with toExpressions := e }
    let value := position.map fun position => countStandardLabels + position
    let b :=
      if (b.metricIndexes name tag).isSome then b
      else
        { b with
          metricTags := fun name' =>
            if name' = name then b.metricTags name ++ [tag] else b.metricTags name' }
    (true, b.setIndex name tag value)
  | _ => (false, b)

/-- Applies an override to the tags of one metric. -/
def overrideTags (metric : Json) (tags : List Bytes) (name : Bytes) (b : Building) :
    Bool × Building :=
  match jsonArrayIterate metric (bytes "tags_to_remove") (visitTagToRemove name) b with
  | (false, b) => (false, b)
  | (true, b) => iterate (visitTag metric name) tags b

/-- The loop over the factories.  The factories that are left come with the result. -/
def overrideFactories (metric : Json) (tags : List Bytes) :
    List MetricFactory → Building → Bool × List MetricFactory × Building
  | [], b => (true, [], b)
  | factory :: factories, b =>
    let name := stringField metric (bytes "name")
    if !name.isEmpty && name != factory.name then
      let (done, left, b) := overrideFactories metric tags factories b
      (done, factory :: left, b)
    else if valueOr (jsonGetField jsonValueAsBool metric (bytes "drop")) false then
      overrideFactories metric tags factories b
    else
      match overrideTags metric tags factory.name b with
      | (false, b) => (false, factory :: factories, b)
      | (true, b) =>
        let (done, left, b) := overrideFactories metric tags factories b
        (done, factory :: left, b)

def visitMetric (metric : Json) (b : Building) : Bool × Building :=
  match jsonObjectIterate metric (bytes "dimensions")
    (fun dim tags => (true, tags ++ [dim])) [] with
  | (false, _) => (false, b)
  | (true, tags) =>
    -- The tags are sorted to keep their order deterministic.
    let tags := tags.insertionSort (· ≤ ·)
    let (done, factories, b) := overrideFactories metric tags b.factories b
    (done, { b with factories := factories })

/-! ### Generators -/

/-- The tags of a metric that have an index, with their indexes. -/
def Building.indexedTags (b : Building) (name : Bytes) : List (Bytes × ℕ) :=
  (b.metricTags name).filterMap fun tag =>
    (b.metricIndexes name tag).join.map fun index => (tag, index)

/-- Instantiates a factory. -/
def Building.statGen (b : Building) (fieldSeparator valueSeparator : Bytes)
    (factory : MetricFactory) : StatGen where
  recurrent := factory.recurrent
  protocols := factory.protocols
  indexes := (b.indexedTags factory.name).map Prod.snd
  extractor := factory.extractor
  metric :=
    { type := factory.type
      name := bytes "istio_" ++ factory.name
      namePrefix := []
      tags := (b.indexedTags factory.name).map Prod.fst
      fieldSeparator := fieldSeparator
      valueSeparator := valueSeparator }
  sizes := by rw [List.length_map, List.length_map]

/-- `std::vector::resize`. -/
def resize (n : ℕ) (dimensions : IstioDimensions) : IstioDimensions :=
  dimensions.take n ++ List.replicate (n - dimensions.length) []

/-! ### The root context -/

/-- The whole state of the root context. -/
structure RootContext extends PluginRootContext where
  inputExpressions : List (Bytes × ℕ)
  intExpressions : List UInt32
  /-- The streams that report mid-stream.  The pointer under the id of a stream is that to the
  request of the stream. -/
  requestQueue : List UInt32

/-- The root context after its constructor, which leaves `use_host_header_fallback_` as it is. -/
def RootContext.new (outbound useHostHeaderFallback : Bool) : RootContext where
  outbound := outbound
  peerMetadataIdKey := if outbound then kUpstreamMetadataIdKey else kDownstreamMetadataIdKey
  peerMetadataKey := if outbound then kUpstreamMetadataKey else kDownstreamMetadataKey
  useHostHeaderFallback := useHostHeaderFallback
  istioDimensions := []
  expressions := []
  cacheHitsAccumulator := 0
  metrics := Memo.empty
  stats := []
  initialized := false
  inputExpressions := []
  intExpressions := []
  requestQueue := []

/-- What the plugin asks of the host apart from the metrics of the streams. -/
structure Host extends ExpressionHost where
  /-- The period of the ticks, once it is set. -/
  tickPeriodMilliseconds : Option UInt32
  /-- The versions that were recorded in the metric `istio_build`. -/
  build : List Bytes

/-- The order in which the entries of a map are walked through. -/
structure MapOrder where
  order : List MetricFactory → List MetricFactory
  perm : ∀ factories, (order factories).Perm factories

/-- A call of `onConfigure`, with what the host answers. -/
structure ConfigureCall where
  configuration : Bytes
  /-- The local node, and its Istio version. -/
  localNode : FlatNode
  istioVersion : Bytes
  /-- The answers of `createExpression`. -/
  answers : List (Option UInt32)
  mapOrder : MapOrder

namespace RootContext

variable (root : RootContext) (host : ExpressionHost)

/-- The expressions of the root context. -/
def toExpressions : Expressions :=
  ⟨root.expressions, root.inputExpressions, root.intExpressions, host⟩

def withExpressions (e : Expressions) : RootContext :=
  { root with
    expressions := e.expressions
    inputExpressions := e.inputExpressions
    intExpressions := e.intExpressions }

end RootContext

/-- The metrics and the expressions that a configuration asks for. -/
def buildMetrics (j : Json) (order : MapOrder) (e : Expressions) : Building :=
  let b := (jsonArrayIterate j (bytes "definitions") visitDefinition (.start e)).2
  (jsonArrayIterate j (bytes "metrics") visitMetric
    { b with factories := order.order b.factories }).2

/-- Updates the dimensions and the expressions with the new configuration. -/
def initializeDimensions (j : Json) (call : ConfigureCall) (root : RootContext) (host : Host) :
    RootContext × Host :=
  let b := buildMetrics j call.mapOrder
    (root.toExpressions host.toExpressionHost).cleanupExpressions
  let root := root.withExpressions b.toExpressions
  -- Local data does not change, so it is populated on config load.
  let dimensions := resize (countStandardLabels + b.expressions.length) root.istioDimensions
    |> assign .reporter (if root.outbound then bytes "source" else bytes "destination")
    |> mapNode root.outbound call.localNode
  let fieldSeparator :=
    valueOr (jsonGetField jsonValueAsString j (bytes "field_separator")) (bytes ";.;")
  let valueSeparator :=
    valueOr (jsonGetField jsonValueAsString j (bytes "value_separator")) (bytes "=.=")
  let version := if call.istioVersion.isEmpty then bytes "unknown" else call.istioVersion
  ({ root with
      istioDimensions := dimensions
      stats := b.factories.map (b.statGen fieldSeparator valueSeparator) },
    { host with
      toExpressionHost := b.host
      build := host.build ++ [version ++ bytes ";"] })

section

variable (lib : JsonLibrary) (parseDuration : Bytes → Option UInt32)

/-- The period of the ticks, 15 seconds by default. -/
def tcpReportDuration (j : Json) : UInt32 :=
  match jsonGetField jsonValueAsString j (bytes "tcp_reporting_duration") with
  | (some duration, .OK) => (parseDuration duration).getD 15000
  | _ => 15000

def configure (call : ConfigureCall) (root : RootContext) (host : Host) :
    Bool × RootContext × Host :=
  match jsonParse lib call.configuration with
  | none => (false, root, host)
  | some j =>
    let disabled :=
      valueOr (jsonGetField jsonValueAsBool j (bytes "disable_host_header_fallback")) false
    let (root, host) :=
      initializeDimensions j call { root with useHostHeaderFallback := !disabled } host
    (true, root,
      { host with tickPeriodMilliseconds := some (tcpReportDuration parseDuration j) })

/-- Only policy plugins should return false. -/
def onConfigure (call : ConfigureCall) (root : RootContext) (host : Host) : RootContext × Host :=
  let (initialized, root, host) :=
    configure lib parseDuration call root { host with answers := call.answers }
  ({ root with initialized := initialized }, host)

end

/-- The end of the plugin: the expressions are deleted. -/
def onDone (root : RootContext) (host : Host) : RootContext × Host :=
  let e := (root.toExpressions host.toExpressionHost).cleanupExpressions
  (root.withExpressions e, { host with toExpressionHost := e.host })

end Stats

end WasmExtensions
