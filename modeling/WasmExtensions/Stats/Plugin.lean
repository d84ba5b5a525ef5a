import WasmExtensions.Machine.Basic
import WasmExtensions.Memo.Basic
import WasmExtensions.Stats.Dimensions

/-!
# Reports of the stats plugin

`report` fills the dimensions of a request and records the metrics that belong to its protocol.
Resolving a metric means to build its full name from the dimensions; the resolved metrics are kept
in `metrics_` under the whole vector of dimensions.

Extractors may change the request: they flush counters between two reports.  What the host answers
during a report is part of the call (`ReportCall`), and each expression is evaluated at most once
in a report.  Log messages are left out.
-/

namespace WasmExtensions

namespace Stats

inductive MetricType where
  | Counter
  | Gauge
  | Histogram
  deriving DecidableEq, Repr

/-- The functions that the values of the metrics come from: one for each default metric, and the
evaluation of an integer expression for a configured one. -/
inductive ValueExtractorFn where
  | requestsTotal
  | requestDurationMilliseconds
  | requestBytes
  | responseBytes
  | requestMessagesTotal
  | responseMessagesTotal
  | tcpSentBytesTotal
  | tcpReceivedBytesTotal
  | tcpConnectionsOpenedTotal
  | tcpConnectionsClosedTotal
  | expression (token : UInt32)
  deriving DecidableEq, Repr

/-- What the host answers during a report. -/
structure StatsStream extends StreamAccess where
  /-- The text of an expression, if it can be evaluated. -/
  evaluateString : UInt32 → Option Bytes
  /-- The number of an expression, if it can be evaluated. -/
  evaluateInt64 : UInt32 → Option Int64

/-- The value, the request afterwards, and the tokens of the expressions that were evaluated. -/
def ValueExtractorFn.call (stream : StatsStream) (requestInfo : RequestInfo) :
    ValueExtractorFn → UInt64 × RequestInfo × List UInt32
  | .requestsTotal => (1, requestInfo, [])
  | .requestDurationMilliseconds => ((requestInfo.duration / 1000000).toUInt64, requestInfo, [])
  | .requestBytes => (requestInfo.requestSize.toUInt64, requestInfo, [])
  | .responseBytes => (requestInfo.responseSize.toUInt64, requestInfo, [])
  | .requestMessagesTotal =>
    (requestInfo.requestMessageCount - requestInfo.lastRequestMessageCount,
      { requestInfo with lastRequestMessageCount := requestInfo.requestMessageCount }, [])
  | .responseMessagesTotal =>
    (requestInfo.responseMessageCount - requestInfo.lastResponseMessageCount,
      { requestInfo with lastResponseMessageCount := requestInfo.responseMessageCount }, [])
  | .tcpSentBytesTotal => (requestInfo.tcpSentBytes, { requestInfo with tcpSentBytes := 0 }, [])
  | .tcpReceivedBytesTotal =>
    (requestInfo.tcpReceivedBytes, { requestInfo with tcpReceivedBytes := 0 }, [])
  | .tcpConnectionsOpenedTotal =>
    (requestInfo.tcpConnectionsOpened.toUInt64, { requestInfo with tcpConnectionsOpened := 0 }, [])
  | .tcpConnectionsClosedTotal => (requestInfo.tcpConnectionsClosed.toUInt64, requestInfo, [])
  | .expression token => (((stream.evaluateInt64 token).getD 0).toUInt64, requestInfo, [token])

/-- A pre-resolved metric. -/
structure SimpleStat where
  /-- Resolving a full name always gives the same id, so the full name stands for the id. -/
  metricId : Bytes
  recurrent : Bool
  valueFn : ValueExtractorFn
  type : MetricType
  deriving DecidableEq, Repr

/-- The request during a report, and what the report has done so far. -/
structure Recording where
  requestInfo : RequestInfo
  /-- The calls of `recordMetric`. -/
  recorded : List (SimpleStat × UInt64)
  /-- The tokens of the expressions that were evaluated. -/
  evaluated : List UInt32
  deriving DecidableEq, Repr

/-- A counter is not recorded when its value is zero. -/
def SimpleStat.record (stream : StatsStream) (stat : SimpleStat) (recording : Recording) :
    Recording :=
  let (val, requestInfo, evaluated) := stat.valueFn.call stream recording.requestInfo
  { requestInfo := requestInfo
    recorded :=
      if stat.type = .Counter ∧ val = 0 then recording.recorded
      else recording.recorded ++ [(stat, val)]
    evaluated := recording.evaluated ++ evaluated }

/-- The name of a metric and of its tags. -/
structure Metric where
  type : MetricType
  name : Bytes
  namePrefix : Bytes
  tags : List Bytes
  fieldSeparator : Bytes
  valueSeparator : Bytes
  deriving DecidableEq, Repr

/-- What is recorded for a protocol, up to the dimensions. -/
structure StatGen where
  recurrent : Bool
  protocols : UInt32
  indexes : List ℕ
  extractor : ValueExtractorFn
  metric : Metric
  /-- The constructor aborts otherwise. -/
  sizes : metric.tags.length = indexes.length

namespace StatGen

def matchesProtocol (statgen : StatGen) (protocol : Protocol) : Bool :=
  statgen.protocols &&& protocol.toUInt32 != 0

/-- The full name of the metric.  An index outside the vector is out of range. -/
def fullName (statgen : StatGen) (dimensions : IstioDimensions) : Option Bytes :=
  let metric := statgen.metric
  let fields := (metric.tags.zip statgen.indexes).mapM fun (tag, i) =>
    dimensions[i]?.map fun value =>
      tag ++ metric.valueSeparator ++ value ++ metric.fieldSeparator
  fields.map fun fields => metric.namePrefix ++ fields.flatten ++ metric.name

/-- The full name, with a tag and its index as a pair. -/
theorem fullName_def (statgen : StatGen) (dimensions : IstioDimensions) :
    statgen.fullName dimensions =
      ((statgen.metric.tags.zip statgen.indexes).mapM fun p => dimensions[p.2]?.map fun value =>
        p.1 ++ statgen.metric.valueSeparator ++ value ++ statgen.metric.fieldSeparator).map
        fun fields => statgen.metric.namePrefix ++ fields.flatten ++ statgen.metric.name :=
  rfl

/-- Resolves the metric for the given dimension values. -/
def resolve (statgen : StatGen) (dimensions : IstioDimensions) : Option SimpleStat :=
  (statgen.fullName dimensions).map fun metricId =>
    { metricId := metricId
      recurrent := statgen.recurrent
      valueFn := statgen.extractor
      type := statgen.metric.type }

end StatGen

/-- The counters of the plugin itself. -/
inductive CacheCounter where
  | hit
  | miss
  deriving DecidableEq, Repr

/-- The state of the root context, as far as reports use it. -/
structure PluginRootContext where
  outbound : Bool
  peerMetadataIdKey : Bytes
  peerMetadataKey : Bytes
  useHostHeaderFallback : Bool
  istioDimensions : IstioDimensions
  /-- The tokens of the string expressions evaluated into dimensions. -/
  expressions : List UInt32
  cacheHitsAccumulator : Int64
  /-- Maps resolved dimensions to a set of related metrics. -/
  metrics : Memo IstioDimensions (List SimpleStat)
  stats : List StatGen
  initialized : Bool

/-- A call of `report`, with the answers of the host. -/
structure ReportCall where
  stream : StatsStream
  requestInfo : RequestInfo
  endStream : Bool

/-- What a report leaves behind. -/
structure Report where
  plugin : PluginRootContext
  recording : Recording
  /-- The calls of `incrementMetric`. -/
  incremented : List (CacheCounter × Int64)

/-- A report that does nothing. -/
def Report.skip (plugin : PluginRootContext) (requestInfo : RequestInfo) : Report :=
  ⟨plugin, ⟨requestInfo, [], []⟩, []⟩

section

variable (libraries : Libraries) (plugin : PluginRootContext) (call : ReportCall)

/-- The request with all that the host tells about it; `none` while the peer is awaited. -/
def populate (peerNodeInfo : PeerNodeInfo) : Option RequestInfo :=
  let stream := call.stream.toStreamAccess
  let requestInfo := call.requestInfo
  if requestInfo.requestProtocol = .TCP then
    if peerNodeInfo.maybeWaiting ∧ !call.endStream then none
    else some (populateTCPRequestInfo stream plugin.outbound requestInfo)
  else if call.endStream then
    some (populateHTTPRequestInfo libraries stream plugin.outbound plugin.useHostHeaderFallback
      requestInfo)
  else
    let requestInfo :=
      populateRequestInfo stream plugin.outbound plugin.useHostHeaderFallback requestInfo
    if requestInfo.requestProtocol = .GRPC then
      some (populateGRPCInfo libraries stream requestInfo).2
    else some requestInfo

end

/-- The expressions from the `i`-th on.  A position outside the vector throws. -/
def evaluateExpressions (stream : StatsStream) (i : ℕ) :
    List UInt32 → IstioDimensions → Option IstioDimensions
  | [], dimensions => some dimensions
  | token :: tokens, dimensions =>
    if countStandardLabels + i < dimensions.length then
      let value := (stream.evaluateString token).getD (bytes "unknown")
      evaluateExpressions stream (i + 1) tokens (dimensions.set (countStandardLabels + i) value)
    else none

section

variable (stream : StatsStream) (endStream : Bool) (dimensions : IstioDimensions)

/-- Records one metric, unless it has to wait for the end of the stream. -/
def recordStat (stat : SimpleStat) (recording : Recording) : Recording :=
  if endStream || stat.recurrent then stat.record stream recording else recording

/-- The loop over the metrics that are found. -/
def recordStats : List SimpleStat → Recording → Recording
  | [], recording => recording
  | stat :: stats, recording => recordStats stats (recordStat stream endStream stat recording)

/-- The loop over all generators, which collects the metrics for the next report. -/
def resolveStats : List StatGen → Recording → Option (List SimpleStat × Recording)
  | [], recording => some ([], recording)
  | statgen :: statgens, recording =>
    if !statgen.matchesProtocol recording.requestInfo.requestProtocol then
      resolveStats statgens recording
    else
      (statgen.resolve dimensions).bind fun stat =>
        (resolveStats statgens (recordStat stream endStream stat recording)).map
          fun (stats, recording) => (stat :: stats, recording)

end

/-- What a report does once its dimensions are known. -/
def recordReport (stream : StatsStream) (endStream : Bool) (plugin : PluginRootContext)
    (recording : Recording) : Option Report :=
  match plugin.metrics plugin.istioDimensions with
  | some stats =>
    let recording := recordStats stream endStream stats recording
    let accumulator := plugin.cacheHitsAccumulator + 1
    if accumulator = 100 then
      some ⟨{ plugin with cacheHitsAccumulator := 0 }, recording, [(.hit, accumulator)]⟩
    else some ⟨{ plugin with cacheHitsAccumulator := accumulator }, recording, []⟩
  | none =>
    (resolveStats stream endStream plugin.istioDimensions plugin.stats recording).map
      fun (stats, recording) =>
        ⟨{ plugin with metrics := plugin.metrics.insert plugin.istioDimensions stats }, recording,
          [(.miss, 1)]⟩

/-- A report.  It is undefined where the code leaves the vector of dimensions. -/
def report (libraries : Libraries) (plugin : PluginRootContext) (call : ReportCall) :
    Option Report :=
  if !plugin.initialized then some (.skip plugin call.requestInfo)
  else
    let peerNodeInfo := PeerNodeInfo.new libraries call.stream.toStreamAccess
      plugin.peerMetadataIdKey plugin.peerMetadataKey
    match populate libraries plugin call peerNodeInfo with
    | none => some (.skip plugin call.requestInfo)
    | some requestInfo =>
      (map plugin.outbound peerNodeInfo.get requestInfo plugin.istioDimensions).bind
        fun dimensions =>
          (evaluateExpressions call.stream 0 plugin.expressions dimensions).bind fun dimensions =>
            recordReport call.stream call.endStream { plugin with istioDimensions := dimensions }
              ⟨requestInfo, [], plugin.expressions⟩

/-! ### The parts of a report -/

section

variable {libraries : Libraries} {plugin : PluginRootContext} {call : ReportCall}
  {requestInfo : RequestInfo}

/-- The peer of a report. -/
def peerOf (libraries : Libraries) (plugin : PluginRootContext) (call : ReportCall) :
    PeerNodeInfo :=
  PeerNodeInfo.new libraries call.stream.toStreamAccess plugin.peerMetadataIdKey
    plugin.peerMetadataKey

/-- The vector that a report builds. -/
def buildDimensions (plugin : PluginRootContext) (stream : StatsStream) (peerNode : FlatNode)
    (requestInfo : RequestInfo) : Option IstioDimensions :=
  (map plugin.outbound peerNode requestInfo plugin.istioDimensions).bind
    (evaluateExpressions stream 0 plugin.expressions)

theorem report_of_not_initialized (hinit : plugin.initialized = false) :
    report libraries plugin call = some (.skip plugin call.requestInfo) := by
  unfold report
  rw [hinit]; rfl

theorem report_of_waiting
    (hpopulate : populate libraries plugin call (peerOf libraries plugin call) = none) :
    report libraries plugin call = some (.skip plugin call.requestInfo) := by
  unfold peerOf at hpopulate
  unfold report
  simp only [hpopulate, ite_self]

/-- A report for which all that is needed is there builds its vector and records. -/
theorem report_of_populated (hinit : plugin.initialized = true)
    (hpopulate : populate libraries plugin call (peerOf libraries plugin call) =
      some requestInfo) :
    report libraries plugin call =
      (buildDimensions plugin call.stream (peerOf libraries plugin call).get requestInfo).bind
        fun dimensions =>
          recordReport call.stream call.endStream { plugin with istioDimensions := dimensions }
            ⟨requestInfo, [], plugin.expressions⟩ := by
  unfold peerOf at hpopulate
  unfold report buildDimensions peerOf
  simp only [hinit, hpopulate, Bool.not_true, Bool.false_eq_true, if_false]
  exact (Option.bind_assoc _ _ _).symm

end

/-- The plugin under reports. -/
def reports (libraries : Libraries) : Machine PluginRootContext ReportCall where
  next plugin call := (report libraries plugin call).map Report.plugin

end Stats

end WasmExtensions
