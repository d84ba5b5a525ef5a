import WasmExtensions.Stats.Configured
import Mathlib.Data.List.Perm.Basic

/-!
# The streams of the stats plugin

The plugin together with its streams and with the host (`System`).  A stream is a TCP stream, which
starts with a connection, or an HTTP stream, which starts with headers; `onLog` is its last
callback.  Configurations, ticks and the end of the plugin may come at any time.

Apart from the state of the program, a system keeps what has been recorded for each stream and
under which configuration the recorded metric was resolved.
-/

namespace WasmExtensions

namespace Stats

/-! ### One report -/

section

variable {libraries : Libraries} {plugin : PluginRootContext} {call : ReportCall} {r : Report}

/-- The metrics that a report finds for its dimensions, in the cache or by resolving them; `none`
if it does not get that far. -/
def foundStats (libraries : Libraries) (plugin : PluginRootContext) (call : ReportCall) :
    Option (RequestInfo × IstioDimensions × List SimpleStat) :=
  if !plugin.initialized then none
  else
    (populate libraries plugin call (peerOf libraries plugin call)).bind fun requestInfo =>
      (buildDimensions plugin call.stream (peerOf libraries plugin call).get requestInfo).bind
        fun dimensions =>
          ((plugin.metrics dimensions).or (statsOf plugin.stats dimensions)).map
            fun stats => (requestInfo, dimensions, stats)

theorem foundStats_inversion {requestInfo : RequestInfo} {dimensions : IstioDimensions}
    {stats : List SimpleStat}
    (h : foundStats libraries plugin call = some (requestInfo, dimensions, stats)) :
    populate libraries plugin call (peerOf libraries plugin call) = some requestInfo ∧
      buildDimensions plugin call.stream (peerOf libraries plugin call).get requestInfo =
        some dimensions ∧
      (plugin.metrics dimensions).or (statsOf plugin.stats dimensions) = some stats := by
  obtain ⟨requestInfo', hpopulate, h⟩ :=
    Option.bind_eq_some_iff.1 (Option.ite_none_left_eq_some.1 h).2
  obtain ⟨dimensions', hbuild, h⟩ := Option.bind_eq_some_iff.1 h
  obtain ⟨stats', hstats, heq⟩ := Option.map_eq_some_iff.1 h
  cases heq
  exact ⟨hpopulate, hbuild, hstats⟩

theorem foundStats_eq_some {requestInfo : RequestInfo} {dimensions : IstioDimensions}
    {stats : List SimpleStat}
    (h : foundStats libraries plugin call = some (requestInfo, dimensions, stats)) :
    populate libraries plugin call (peerOf libraries plugin call) = some requestInfo ∧
      protocolOf dimensions = requestInfo.requestProtocol := by
  obtain ⟨hpopulate, hbuild, -⟩ := foundStats_inversion h
  obtain ⟨d, hmap, heval⟩ := Option.bind_eq_some_iff.1 hbuild
  exact ⟨hpopulate, by rw [protocolOf_evaluateExpressions heval, protocolOf_map hmap]⟩

/-- A report does nothing, or it records the metrics that it finds and keeps them in the cache. -/
theorem report_inversion (h : report libraries plugin call = some r) :
    ((plugin.initialized = false ∨
        populate libraries plugin call (peerOf libraries plugin call) = none) ∧
      foundStats libraries plugin call = none ∧ r = .skip plugin call.requestInfo) ∨
    ∃ requestInfo dimensions stats,
      foundStats libraries plugin call = some (requestInfo, dimensions, stats) ∧
      r.plugin.istioDimensions = dimensions ∧
      r.recording = recordStats call.stream call.endStream stats
        ⟨requestInfo, [], plugin.expressions⟩ ∧
      (plugin.metrics dimensions = some stats ∧ r.plugin.metrics = plugin.metrics ∨
        plugin.metrics dimensions = none ∧ statsOf plugin.stats dimensions = some stats ∧
          r.plugin.metrics = plugin.metrics.insert dimensions stats) := by
  cases hinit : plugin.initialized with
  | false =>
    rw [report_of_not_initialized hinit] at h
    refine .inl ⟨.inl rfl, ?_, (Option.some.inj h).symm⟩
    rw [foundStats, hinit]; rfl
  | true =>
    cases hpopulate : populate libraries plugin call (peerOf libraries plugin call) with
    | none =>
      rw [report_of_waiting hpopulate] at h
      refine .inl ⟨.inr rfl, ?_, (Option.some.inj h).symm⟩
      rw [foundStats, hinit, hpopulate]; rfl
    | some requestInfo =>
      rw [report_of_populated hinit hpopulate] at h
      obtain ⟨dimensions, hbuild, hrecord⟩ := Option.bind_eq_some_iff.1 h
      have hprotocol : protocolOf dimensions = requestInfo.requestProtocol := by
        obtain ⟨d, hmap, heval⟩ := Option.bind_eq_some_iff.1 hbuild
        rw [protocolOf_evaluateExpressions heval, protocolOf_map hmap]
      refine .inr ⟨requestInfo, dimensions, ?_⟩
      unfold foundStats
      rw [hinit, hpopulate, Option.bind_some, hbuild, Option.bind_some]
      unfold recordReport at hrecord
      dsimp only at hrecord
      cases hmetrics : plugin.metrics dimensions with
      | some stats =>
        rw [hmetrics] at hrecord
        refine ⟨stats, rfl, ?_⟩
        dsimp only at hrecord
        split_ifs at hrecord <;>
          (rw [← Option.some.inj hrecord]; exact ⟨rfl, rfl, .inl ⟨rfl, rfl⟩⟩)
      | none =>
        rw [hmetrics] at hrecord
        dsimp only at hrecord
        rw [resolveStats_eq, ← hprotocol] at hrecord
        obtain ⟨pair, hresolve, hr⟩ := Option.map_eq_some_iff.1 hrecord
        obtain ⟨stats, hstats, hpair⟩ := Option.map_eq_some_iff.1 hresolve
        rw [← hpair] at hr
        refine ⟨stats, ?_, ?_⟩
        · show ((none : Option (List SimpleStat)).or (statsOf plugin.stats dimensions)).map _ = _
          rw [statsOf, hstats]; rfl
        · rw [← hr]
          exact ⟨rfl, rfl, .inr ⟨rfl, hstats, rfl⟩⟩

/-- What a report leaves in the cache was there, or has been resolved. -/
theorem cached_report {dimensions : IstioDimensions} {stats : List SimpleStat}
    (h : report libraries plugin call = some r)
    (hcached : r.plugin.metrics dimensions = some stats) :
    plugin.metrics dimensions = some stats ∨
      plugin.initialized = true ∧ plugin.metrics dimensions = none ∧
        statsOf plugin.stats dimensions = some stats := by
  rcases report_inversion h with ⟨-, -, rfl⟩ |
    ⟨requestInfo, d, stats', hfound, -, -, ⟨-, hmetrics⟩ | ⟨hnone, hresolved, hmetrics⟩⟩
  · exact .inl hcached
  · exact .inl (hmetrics ▸ hcached)
  · rw [hmetrics, Memo.insert] at hcached
    split_ifs at hcached with hd
    · rw [hd, ← Option.some.inj hcached]
      exact .inr ⟨by simpa using (Option.ite_none_left_eq_some.1 hfound).1, hnone, hresolved⟩
    · exact .inl hcached

end

/-! ### Streams -/

/-- How far a stream has come. -/
inductive Phase where
  | created
  | http
  | tcp
  | logged
  deriving DecidableEq, Repr

/-- The context of a stream, and what has come for it so far. -/
structure Stream where
  requestInfo : RequestInfo
  phase : Phase
  /-- The sizes of the data from downstream and from upstream. -/
  downstream : List UInt64
  upstream : List UInt64
  deriving DecidableEq, Repr

namespace Stream

/-- A new context, whose request has two fields that are not initialized. -/
def new (startTime duration : Int64) : Stream :=
  ⟨{ startTime := startTime, duration := duration }, .created, [], []⟩

/-- HTTP streams start with headers. -/
def onRequestHeaders (useHostHeaderFallback : Bool) (access : StreamAccess) (stream : Stream) :
    Stream :=
  let requestInfo := populateRequestProtocol access stream.requestInfo
  { stream with
    phase := .http
    requestInfo :=
      if useHostHeaderFallback then
        { requestInfo with
          urlHost :=
            (access.properties.string [bytes "request", bytes "host"]).getD requestInfo.urlHost }
      else requestInfo }

/-- TCP streams start with new connections. -/
def onNewConnection (stream : Stream) : Stream :=
  { stream with
    phase := .tcp
    requestInfo :=
      { stream.requestInfo with
        requestProtocol := .TCP
        tcpConnectionsOpened := stream.requestInfo.tcpConnectionsOpened + 1 } }

/-- The data that is received. -/
def onDownstreamData (size : UInt64) (stream : Stream) : Stream :=
  { stream with
    downstream := stream.downstream ++ [size]
    requestInfo :=
      { stream.requestInfo with
        tcpReceivedBytes := stream.requestInfo.tcpReceivedBytes + size } }

/-- The data that is sent. -/
def onUpstreamData (size : UInt64) (stream : Stream) : Stream :=
  { stream with
    upstream := stream.upstream ++ [size]
    requestInfo :=
      { stream.requestInfo with tcpSentBytes := stream.requestInfo.tcpSentBytes + size } }

/-- What `onLog` does before it reports. -/
def onLog (stream : Stream) : Stream :=
  { stream with
    phase := .logged
    requestInfo :=
      if stream.requestInfo.requestProtocol = .TCP then
        { stream.requestInfo with
          tcpConnectionsClosed := stream.requestInfo.tcpConnectionsClosed + 1 }
      else stream.requestInfo }

end Stream

/-! ### The system -/

/-- A call of `recordMetric`. -/
structure Recorded where
  /-- The stream that is reported. -/
  id : UInt32
  stat : SimpleStat
  value : UInt64
  /-- The configuration under which the metric was resolved, and the one in force. -/
  resolvedIn : ℕ
  generation : ℕ

/-- The plugin, its host and its streams. -/
structure System where
  root : RootContext
  host : Host
  streams : UInt32 → Option Stream
  /-- The ids of all streams so far. -/
  ids : List UInt32
  /-- What has been recorded. -/
  recorded : List Recorded
  /-- The number of configurations that have built metrics. -/
  generation : ℕ
  /-- The configuration under which the metrics for some dimensions were put into the cache. -/
  resolvedIn : IstioDimensions → ℕ
  /-- `onDone` was called after the last configuration that has built metrics. -/
  done : Bool

namespace System

/-- A plugin without streams. -/
def start (outbound useHostHeaderFallback : Bool) : System where
  root := .new outbound useHostHeaderFallback
  host := ⟨⟨[], []⟩, none, []⟩
  streams := fun _ => none
  ids := []
  recorded := []
  generation := 0
  resolvedIn := fun _ => 0
  done := false

variable (lib : JsonLibrary) (parseDuration : Bytes → Option UInt32) (libraries : Libraries)

def setStream (id : UInt32) (stream : Stream) (s : System) : System :=
  { s with streams := Function.update s.streams id (some stream) }

/-- `request_queue_[context_id] = request_info`. -/
def addToRequestQueue (id : UInt32) (s : System) : System :=
  { s with
    root :=
      { s.root with
        requestQueue :=
          if id ∈ s.root.requestQueue then s.root.requestQueue
          else s.root.requestQueue ++ [id] } }

def deleteFromRequestQueue (id : UInt32) (s : System) : System :=
  { s with root := { s.root with requestQueue := s.root.requestQueue.erase id } }

/-- Configurations that cannot be parsed leave the metrics as they are. -/
def onConfigure (call : ConfigureCall) (s : System) : System :=
  let (root, host) := Stats.onConfigure lib parseDuration call s.root s.host
  let parsed := (jsonParse lib call.configuration).isSome
  { s with
    root := root
    host := host
    generation := if parsed then s.generation + 1 else s.generation
    done := if parsed then false else s.done }

def onDone (s : System) : System :=
  let (root, host) := Stats.onDone s.root s.host
  { s with root := root, host := host, done := true }

/-- A report of a stream. -/
def report (id : UInt32) (access : StatsStream) (endStream : Bool) (stream : Stream) (s : System) :
    Option System :=
  (Stats.report libraries s.root.toPluginRootContext ⟨access, stream.requestInfo, endStream⟩).map
    fun r =>
      let resolvedIn := fun dimensions =>
        if (s.root.metrics dimensions).isSome then s.resolvedIn dimensions else s.generation
      { s.setStream id { stream with requestInfo := r.recording.requestInfo } with
        root := { s.root with toPluginRootContext := r.plugin }
        host :=
          { s.host with
            toExpressionHost := s.host.toExpressionHost.evaluateAll r.recording.evaluated }
        recorded := s.recorded ++ r.recording.recorded.map fun (stat, value) =>
          ⟨id, stat, value, resolvedIn r.plugin.istioDimensions, s.generation⟩
        resolvedIn := resolvedIn }

/-- An entry of the request queue.  The context of the stream may be gone. -/
def tickItem (id : UInt32) (access : StatsStream) (s : System) : Option System :=
  match s.streams id with
  | none => some s
  | some stream => s.report libraries id access false stream

/-- The last callback of a stream. -/
def onLog (id : UInt32) (access : StatsStream) (stream : Stream) (s : System) : Option System :=
  (s.deleteFromRequestQueue id).report libraries id access true stream.onLog

end System

/-- The loop of `onTick`, one entry of the queue after the other. -/
def ticking (libraries : Libraries) : Machine System (UInt32 × StatsStream) where
  next s item := s.tickItem libraries item.1 item.2

/-- The calls to the plugin, with what the host answers during each. -/
inductive Callback where
  | onConfigure (call : ConfigureCall)
  | onCreate (id : UInt32) (startTime duration : Int64)
  | onRequestHeaders (id : UInt32) (access : StreamAccess)
  | onResponseHeaders (id : UInt32)
  | onNewConnection (id : UInt32)
  | onDownstreamData (id : UInt32) (size : UInt64)
  | onUpstreamData (id : UInt32) (size : UInt64)
  | onLog (id : UInt32) (access : StatsStream)
  /-- The entries of the request queue, in the order of the map. -/
  | onTick (items : List (UInt32 × StatsStream))
  | onDelete (id : UInt32)
  | onDone

/-- The callback may change the metrics that are configured. -/
def Callback.isOnConfigure : Callback → Bool
  | onConfigure _ => true
  | _ => false

/-- The plugin under its callbacks.  The callbacks of a stream come in the order of its phases, and
every stream has an id of its own. -/
def statsMachine (lib : JsonLibrary) (parseDuration : Bytes → Option UInt32)
    (libraries : Libraries) : Machine System Callback where
  next s
    | .onConfigure call => some (s.onConfigure lib parseDuration call)
    | .onCreate id startTime duration =>
      if id ∈ s.ids then none
      else some { s.setStream id (.new startTime duration) with ids := id :: s.ids }
    | .onRequestHeaders id access => do
      let stream ← s.streams id
      if stream.phase = .created then
        return s.setStream id (stream.onRequestHeaders s.root.useHostHeaderFallback access)
      else none
    | .onResponseHeaders id => do
      let stream ← s.streams id
      if stream.phase = .http then return s.addToRequestQueue id else none
    | .onNewConnection id => do
      let stream ← s.streams id
      if stream.phase = .created then
        return (s.setStream id stream.onNewConnection).addToRequestQueue id
      else none
    | .onDownstreamData id size => do
      let stream ← s.streams id
      if stream.phase = .tcp then return s.setStream id (stream.onDownstreamData size) else none
    | .onUpstreamData id size => do
      let stream ← s.streams id
      if stream.phase = .tcp then return s.setStream id (stream.onUpstreamData size) else none
    | .onLog id access => do
      let stream ← s.streams id
      if stream.phase ≠ .logged then s.onLog libraries id access stream else none
    | .onTick items =>
      if (items.map Prod.fst).Perm s.root.requestQueue then
        (ticking libraries).run (fun _ _ => True) s items
      else none
    | .onDelete id => some { s with streams := Function.update s.streams id none }
    | .onDone => some s.onDone

/-! ### What a callback does -/

section

variable {lib : JsonLibrary} {parseDuration : Bytes → Option UInt32} {libraries : Libraries}
  {s s' : System} {callback : Callback}

/-- Only streams and the request queue differ. -/
structure SamePlugin (s s' : System) : Prop where
  root : s'.root = { s.root with requestQueue := s'.root.requestQueue }
  host : s'.host = s.host
  recorded : s'.recorded = s.recorded
  generation : s'.generation = s.generation
  resolvedIn : s'.resolvedIn = s.resolvedIn
  done : s'.done = s.done

/-- A callback that needs a stream in some phase. -/
theorem exists_stream {id : UInt32} {P : Stream → Prop} [DecidablePred P]
    {f : Stream → Option System}
    (h : (s.streams id).bind (fun stream => if P stream then f stream else none) = some s') :
    ∃ stream, s.streams id = some stream ∧ P stream ∧ f stream = some s' := by
  obtain ⟨stream, hstream, hs'⟩ := Option.bind_eq_some_iff.1 h
  split_ifs at hs' with hP
  exact ⟨stream, hstream, hP, hs'⟩

/-- The `onLog` of a stream that has not been logged. -/
theorem next_onLog {id : UInt32} {access : StatsStream} {stream : Stream}
    (hstream : s.streams id = some stream) (hphase : stream.phase ≠ .logged) :
    (statsMachine lib parseDuration libraries).next s (.onLog id access) =
      s.onLog libraries id access stream := by
  show (s.streams id).bind _ = _
  rw [hstream, Option.bind_some]
  exact if_pos hphase

/-- A callback configures the plugin, reports one stream or all that are queued, ends the plugin, or
leaves the plugin alone. -/
theorem next_cases (h : (statsMachine lib parseDuration libraries).next s callback = some s') :
    SamePlugin s s' ∨
    (∃ call, callback = .onConfigure call ∧ s' = s.onConfigure lib parseDuration call) ∨
    (∃ id access stream, callback = .onLog id access ∧ s.streams id = some stream ∧
      s.onLog libraries id access stream = some s') ∨
    (∃ items, callback = .onTick items ∧
      (ticking libraries).run (fun _ _ => True) s items = some s') ∨
    (callback = .onDone ∧ s' = s.onDone) := by
  cases callback with
  | onConfigure call => exact .inr (.inl ⟨call, rfl, (Option.some.inj h).symm⟩)
  | onLog id access =>
    obtain ⟨stream, hstream, -, hs'⟩ := exists_stream h
    exact .inr (.inr (.inl ⟨id, access, stream, rfl, hstream, hs'⟩))
  | onTick items =>
    simp only [statsMachine] at h
    split_ifs at h
    exact .inr (.inr (.inr (.inl ⟨items, rfl, h⟩)))
  | onDone => exact .inr (.inr (.inr (.inr ⟨rfl, (Option.some.inj h).symm⟩)))
  | onCreate id startTime duration =>
    simp only [statsMachine] at h
    split_ifs at h
    rw [← Option.some.inj h]
    exact .inl ⟨rfl, rfl, rfl, rfl, rfl, rfl⟩
  | onRequestHeaders id access =>
    obtain ⟨stream, -, -, hs'⟩ := exists_stream h
    rw [← Option.some.inj hs']
    exact .inl ⟨rfl, rfl, rfl, rfl, rfl, rfl⟩
  | onResponseHeaders id =>
    obtain ⟨stream, -, -, hs'⟩ := exists_stream h
    rw [← Option.some.inj hs']
    exact .inl ⟨rfl, rfl, rfl, rfl, rfl, rfl⟩
  | onNewConnection id =>
    obtain ⟨stream, -, -, hs'⟩ := exists_stream h
    rw [← Option.some.inj hs']
    exact .inl ⟨rfl, rfl, rfl, rfl, rfl, rfl⟩
  | onDownstreamData id size =>
    obtain ⟨stream, -, -, hs'⟩ := exists_stream h
    rw [← Option.some.inj hs']
    exact .inl ⟨rfl, rfl, rfl, rfl, rfl, rfl⟩
  | onUpstreamData id size =>
    obtain ⟨stream, -, -, hs'⟩ := exists_stream h
    rw [← Option.some.inj hs']
    exact .inl ⟨rfl, rfl, rfl, rfl, rfl, rfl⟩
  | onDelete id =>
    rw [← Option.some.inj h]
    exact .inl ⟨rfl, rfl, rfl, rfl, rfl, rfl⟩

/-- What the reports of streams keep is kept by the loop of `onTick`. -/
theorem ticking_invariant {I : System → Prop} {items : List (UInt32 × StatsStream)}
    (hrun : (ticking libraries).run (fun _ _ => True) s items = some s') (hs : I s)
    (hreport : ∀ s id access stream s', (id, access) ∈ items → I s → s.streams id = some stream →
      s.report libraries id access false stream = some s' → I s') : I s' := by
  induction items generalizing s with
  | nil =>
    rw [← Option.some.inj hrun]
    exact hs
  | cons item items ih =>
    unfold Machine.run at hrun
    rw [if_pos trivial] at hrun
    obtain ⟨t, hnext, hrun⟩ := Option.bind_eq_some_iff.1 hrun
    refine ih hrun ?_ fun s id access stream s' hmem =>
      hreport s id access stream s' (List.mem_cons_of_mem _ hmem)
    change s.tickItem libraries item.1 item.2 = some t at hnext
    unfold System.tickItem at hnext
    split at hnext
    · rw [← Option.some.inj hnext]
      exact hs
    · rename_i stream hstream
      exact hreport s item.1 item.2 stream t List.mem_cons_self hs hstream hnext

end

/-! ### A machine for concrete runs -/

/-- Drops the metric for the bytes that are sent. -/
def dropText : Bytes :=
  bytes "\x7b\"metrics\":[\x7b\"name\":\"tcp_sent_bytes_total\",\"drop\":true\x7d]\x7d"

/-- Defines a metric. -/
def definitionText : Bytes :=
  bytes "\x7b\"definitions\":[\x7b\"name\":\"size\",\"value\":\"request.size\"\x7d]\x7d"

/-- Knows these texts, and that of an empty object. -/
def sampleJson : JsonLibrary where
  parse text :=
    if text = bytes "\x7b\x7d" then some (.object [])
    else if text = dropText then
      some (.object [(bytes "metrics", .array [.object
        [(bytes "name", .string (bytes "tcp_sent_bytes_total")), (bytes "drop", .boolean true)]])])
    else if text = definitionText then
      some (.object [(bytes "definitions", .array [.object
        [(bytes "name", .string (bytes "size")),
          (bytes "value", .string (bytes "request.size"))]])])
    else none
  dump _ := none
  doubleToUint64 bits := bits
  simpleAtoiUint64 _ := none

def sampleConfigure (configuration : Bytes) (answers : List (Option UInt32)) : ConfigureCall where
  configuration := configuration
  localNode := {}
  istioVersion := bytes "1.9"
  answers := answers
  mapOrder := ⟨fun factories => factories, fun _ => .refl _⟩

/-- The machine of the runs. -/
abbrev sampleMachine : Machine System Callback :=
  statsMachine sampleJson (fun _ => none) sampleLibraries

end Stats

end WasmExtensions
