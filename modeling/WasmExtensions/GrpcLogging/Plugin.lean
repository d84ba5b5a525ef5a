import WasmExtensions.Machine.Basic
import WasmExtensions.Common.Host
import Mathlib.Data.Int.Notation

/-!
# The gRPC logging plugin

The root context collects log entries in `cur_log_req_`, moves full requests to `req_buffer_`, and
exports the buffered requests when its timer fires and when it is shut down.  The callbacks of an
export run later.

What belongs to other libraries (the conversions of protobuf and its serialization) is a parameter.
The host decides what it answers to `getValue` and to every `grpcSimpleCall`; both are part of the
step.  Log messages are left out.

The two counters are `int`s in the source and integers here: one stays below 500, the other counts
calls that all hold memory, so neither overflows.
-/

namespace WasmExtensions

namespace GrpcLogging

/-- `google.protobuf.Timestamp`. -/
structure Timestamp where
  seconds : Int64
  nanos : Int32
  deriving DecidableEq, Repr

/-- `google.protobuf.Duration`. -/
structure Duration where
  seconds : Int64
  nanos : Int32
  deriving DecidableEq, Repr

/-- `WriteLogRequest.LogEntry`. -/
structure LogEntry where
  sourceAddress : Bytes
  destinationAddress : Bytes
  destinationWorkload : Bytes
  destinationNamespace : Bytes
  host : Bytes
  path : Bytes
  userAgent : Bytes
  referer : Bytes
  requestId : Bytes
  responseCode : UInt32
  timestamp : Timestamp
  latency : Duration
  deriving DecidableEq, Repr

structure WriteLogRequest where
  logEntries : List LogEntry
  deriving DecidableEq, Repr

structure PluginConfig where
  loggingService : Bytes
  deriving DecidableEq, Repr

/-- What the plugin uses of protobuf. -/
structure Protobuf where
  nanosecondsToTimestamp : Int64 → Timestamp
  nanosecondsToDuration : Int64 → Duration
  /-- A `GrpcService` message with this target URI, serialized. -/
  serializeGrpcService : Bytes → Bytes

/-- The local variables of `addLogEntry` before they are assigned. -/
structure Locals where
  responseCode : Int64
  timestamp : Int64
  duration : Int64

/-- The state of the root context. -/
structure PluginRootContext where
  loggingServiceAddress : Bytes
  /-- Log request that is being written currently. -/
  curLogReq : WriteLogRequest
  /-- Count of buffered log entries. -/
  logEntryCount : ℤ
  /-- Log requests that are buffered to be sent. -/
  reqBuffer : List WriteLogRequest
  grpcService : Bytes
  /-- Whether `success_callback_` and `failure_callback_` have been set. -/
  callbacks : Bool
  inFlightExportCall : ℤ
  isOnDone : Bool

/-- An export that the host has answered with `Ok`. -/
structure SimpleCall where
  grpcService : Bytes
  serviceName : Bytes
  methodName : Bytes
  initialMetadata : List (Bytes × Bytes)
  request : WriteLogRequest
  timeoutMilliseconds : ℕ
  /-- Whether the callbacks that the call was given are set. -/
  callbacks : Bool
  /-- Whether one of the callbacks has run. -/
  callbackRun : Bool

/-- The host, with the history of what it was told. -/
structure Host where
  /-- The entries that were added. -/
  added : List LogEntry
  /-- The calls that were answered with `Ok`. -/
  calls : List SimpleCall
  tickPeriodMilliseconds : ℕ
  /-- What `onDone` has returned, call after call. -/
  onDone : List Bool
  /-- How often `proxy_done` was called. -/
  proxyDone : ℕ

structure System where
  plugin : PluginRootContext
  host : Host

/-- The root context after its constructor. -/
def PluginRootContext.new : PluginRootContext where
  loggingServiceAddress := []
  curLogReq := ⟨[]⟩
  logEntryCount := 0
  reqBuffer := []
  grpcService := []
  callbacks := false
  inFlightExportCall := 0
  isOnDone := false

def System.start : System := ⟨.new, ⟨[], [], 0, [], 0⟩⟩

/-- `config` is what the configuration was parsed to, if it could be parsed. -/
def onConfigure (protobuf : Protobuf) (config : Option PluginConfig) (s : System) :
    Bool × System :=
  match config with
  | none => (false, s)
  | some config =>
    if config.loggingService.isEmpty then (false, s)
    else
      (true,
        { plugin :=
            { s.plugin with
              loggingServiceAddress := config.loggingService
              grpcService := protobuf.serializeGrpcService config.loggingService
              callbacks := true }
          host := { s.host with tickPeriodMilliseconds := 10000 } })

/-- A missing string leaves its field empty, a missing number its variable unassigned. -/
def newEntry (protobuf : Protobuf) (getValue : Properties) (locals : Locals) : LogEntry :=
  let timestamp := (getValue.int64 [bytes "request", bytes "time"]).getD locals.timestamp
  let duration := (getValue.int64 [bytes "request", bytes "duration"]).getD locals.duration
  let responseCode := (getValue.int64 [bytes "response", bytes "code"]).getD locals.responseCode
  { sourceAddress := (getValue.string [bytes "source", bytes "address"]).getD []
    destinationAddress := (getValue.string [bytes "destination", bytes "address"]).getD []
    destinationWorkload :=
      (getValue.string [bytes "node", bytes "metadata", bytes "WORKLOAD_NAME"]).getD []
    destinationNamespace :=
      (getValue.string [bytes "node", bytes "metadata", bytes "NAMESPACE"]).getD []
    requestId := (getValue.string [bytes "request", bytes "id"]).getD []
    host := (getValue.string [bytes "request", bytes "host"]).getD []
    path := (getValue.string [bytes "request", bytes "url_path"]).getD []
    referer := (getValue.string [bytes "request", bytes "referer"]).getD []
    userAgent := (getValue.string [bytes "request", bytes "user_agent"]).getD []
    timestamp := protobuf.nanosecondsToTimestamp timestamp
    latency := protobuf.nanosecondsToDuration duration
    responseCode := responseCode.toUInt64.toUInt32 }

def flushLogBuffer (plugin : PluginRootContext) : PluginRootContext :=
  if plugin.logEntryCount ≤ 0 then plugin
  else
    { plugin with
      curLogReq := ⟨[]⟩
      reqBuffer := plugin.reqBuffer ++ [plugin.curLogReq]
      logEntryCount := 0 }

def addLogEntry (entry : LogEntry) (plugin : PluginRootContext) : PluginRootContext :=
  let plugin :=
    { plugin with
      curLogReq := ⟨plugin.curLogReq.logEntries ++ [entry]⟩
      logEntryCount := plugin.logEntryCount + 1 }
  if 500 ≤ plugin.logEntryCount then flushLogBuffer plugin else plugin

/-- The call that exports a request. -/
def exportCall (plugin : PluginRootContext) (req : WriteLogRequest) : SimpleCall where
  grpcService := plugin.grpcService
  serviceName := bytes "istio_ecosystem.wasm_extensions.grpc_logging.LoggingService"
  methodName := bytes "WriteLog"
  initialMetadata := []
  request := req
  timeoutMilliseconds := 5000
  callbacks := plugin.callbacks
  callbackRun := false

/-- The export loop over `buffer`, what is left of `req_buffer_` from `itr` on.  As each round
erases the request at `itr` or ends the loop, `itr` is always the beginning of the buffer.  The
call of round `n` is answered by `grpcSimpleCall n`. -/
def sendLoop (grpcSimpleCall : ℕ → WasmResult) (n : ℕ) (buffer : List WriteLogRequest)
    (s : System) : System :=
  match buffer with
  | [] => s
  | req :: rest =>
    if grpcSimpleCall n ≠ .Ok then s
    else
      sendLoop grpcSimpleCall (n + 1) rest
        { plugin :=
            { s.plugin with
              inFlightExportCall := s.plugin.inFlightExportCall + 1
              reqBuffer := rest }
          host := { s.host with calls := s.host.calls ++ [exportCall s.plugin req] } }

def sendLogRequest (grpcSimpleCall : ℕ → WasmResult) (ondone : Bool) (s : System) : System :=
  let s := { s with plugin := { s.plugin with isOnDone := ondone } }
  sendLoop grpcSimpleCall 0 s.plugin.reqBuffer s

def onTick (grpcSimpleCall : ℕ → WasmResult) (s : System) : System :=
  let s := { s with plugin := flushLogBuffer s.plugin }
  if s.plugin.reqBuffer.isEmpty then s else sendLogRequest grpcSimpleCall false s

def onDone (grpcSimpleCall : ℕ → WasmResult) (s : System) : Bool × System :=
  if s.plugin.reqBuffer.isEmpty ∧ s.plugin.inFlightExportCall = 0 then (true, s)
  else
    let s := { s with plugin := flushLogBuffer s.plugin }
    (false, sendLogRequest grpcSimpleCall true s)

/-- What both callbacks do. -/
def exportFinished (s : System) : System :=
  let s :=
    { s with
      plugin := { s.plugin with inFlightExportCall := s.plugin.inFlightExportCall - 1 } }
  if s.plugin.inFlightExportCall ≤ 0 ∧ s.plugin.isOnDone then
    { s with host := { s.host with proxyDone := s.host.proxyDone + 1 } }
  else s

theorem exportFinished_plugin (s : System) : (exportFinished s).plugin =
    { s.plugin with inFlightExportCall := s.plugin.inFlightExportCall - 1 } := by
  simp only [exportFinished]; split <;> rfl

theorem exportFinished_host (s : System) : (exportFinished s).host =
    { s.host with proxyDone := (exportFinished s).host.proxyDone } := by
  simp only [exportFinished]; split <;> rfl

def successCallback (_bodySize : ℕ) (s : System) : System := exportFinished s

def failureCallback (_status : ℕ) (s : System) : System := exportFinished s

/-- How an export ends. -/
inductive GrpcReply where
  | success (bodySize : ℕ)
  | failure (status : ℕ)
  deriving DecidableEq, Repr

def callback : GrpcReply → System → System
  | .success bodySize => successCallback bodySize
  | .failure status => failureCallback status

theorem callback_eq (reply : GrpcReply) (s : System) : callback reply s = exportFinished s := by
  cases reply <;> rfl

/-- The callback of the call `i` runs. -/
def Host.finish (host : Host) (i : ℕ) (call : SimpleCall) : Host :=
  { host with calls := host.calls.set i { call with callbackRun := true } }

/-- What happens next. -/
inductive Step where
  | configure (config : Option PluginConfig)
  | log (getValue : Properties) (locals : Locals)
  | tick (grpcSimpleCall : ℕ → WasmResult)
  | done (grpcSimpleCall : ℕ → WasmResult)
  /-- The call `i` ends. -/
  | reply (i : ℕ) (reply : GrpcReply)

/-- A callback runs once per call, and not if it was never set. -/
def logging (protobuf : Protobuf) : Machine System Step where
  next s
    | .configure config => some (onConfigure protobuf config s).2
    | .log getValue locals =>
      let entry := newEntry protobuf getValue locals
      some
        { plugin := addLogEntry entry s.plugin
          host := { s.host with added := s.host.added ++ [entry] } }
    | .tick grpcSimpleCall => some (onTick grpcSimpleCall s)
    | .done grpcSimpleCall =>
      let (result, s) := onDone grpcSimpleCall s
      some { s with host := { s.host with onDone := s.host.onDone ++ [result] } }
    | .reply i reply =>
      match s.host.calls[i]? with
      | none => none
      | some call =>
        if call.callbacks ∧ ¬ call.callbackRun then
          some (callback reply { s with host := s.host.finish i call })
        else none

end GrpcLogging

end WasmExtensions
