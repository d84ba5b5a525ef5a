import Mathlib.Data.List.Induction
import WasmExtensions.Assignments.Basic
import WasmExtensions.Common.Context
import WasmExtensions.Common.SanitizeBytes

/-!
# The extended request context

A log shows more of a request than a metric does: texts that come from the client, such as its user
agent.  They are read by `populateExtendedHTTPRequestInfo`, which makes UTF-8 of seven of them.  The
functions that populate a request may be called in any order and again and again, with other answers
of the host each time.

* `client_texts_repaired` : **what the seven texts are after any sequence of calls.**
* `extended_calls_harmless` : **the additional fields do not change what the metrics see**, if they
  are read after the others.
-/

namespace WasmExtensions

/-- The information of `RequestInfo` with the additional fields for logs. -/
structure ExtendedRequestInfo extends RequestInfo where
  sourcePort : UInt64 := 0
  upstreamTransportFailureReason : Bytes := []
  connectionId : UInt64
  sourceAddress : Bytes := []
  destinationAddress : Bytes := []
  responseDetails : Bytes := []
  upstreamHost : Bytes := []
  requestedServerName : Bytes := []
  xEnvoyOriginalPath : Bytes := []
  xEnvoyOriginalDstHost : Bytes := []
  referer : Bytes := []
  userAgent : Bytes := []
  requestId : Bytes := []
  b3TraceId : Bytes := []
  b3SpanId : Bytes := []
  b3TraceSampled : Bool := false
  path : Bytes := []
  urlScheme : Bytes := []
  deriving DecidableEq, Repr

/-- The decoder, and the memory behind every text. -/
structure Decoding where
  fromUTF8 : FromUTF8
  beyond : Bytes → ℕ → UInt8

def Decoding.sanitize (decoding : Decoding) (buf : Bytes) : Bytes :=
  (sanitizeBytes decoding.fromUTF8 (decoding.beyond buf) buf).buf

section

variable (libraries : Libraries) (decoding : Decoding) (stream : StreamAccess)

def populateExtendedRequestInfo (requestInfo : ExtendedRequestInfo) : ExtendedRequestInfo :=
  let string (path : List Bytes) (old : Bytes) := (stream.properties.string path).getD old
  let uint64 (path : List Bytes) (old : UInt64) := (stream.properties.uint64 path).getD old
  let responseDetails := string [bytes "connection", bytes "termination_details"] []
  { requestInfo with
    sourceAddress := string [bytes "source", bytes "address"] requestInfo.sourceAddress
    destinationAddress :=
      string [bytes "destination", bytes "address"] requestInfo.destinationAddress
    sourcePort := uint64 [bytes "source", bytes "port"] requestInfo.sourcePort
    connectionId := uint64 [bytes "connection_id"] requestInfo.connectionId
    upstreamHost := string [bytes "upstream", bytes "address"] requestInfo.upstreamHost
    requestedServerName :=
      string [bytes "connection", bytes "requested_server_name"] requestInfo.requestedServerName
    xEnvoyOriginalPath :=
      decoding.sanitize (stream.requestHeader (bytes "x-envoy-original-path"))
    xEnvoyOriginalDstHost :=
      decoding.sanitize (stream.requestHeader (bytes "x-envoy-original-dst-host"))
    upstreamTransportFailureReason :=
      string [bytes "upstream", bytes "transport_failure_reason"]
        requestInfo.upstreamTransportFailureReason
    responseDetails :=
      if responseDetails.isEmpty then requestInfo.responseDetails else responseDetails }

/-- The value of the header that says whether the request is traced. -/
def traceSampled : Bool :=
  stream.properties.string [bytes "request", bytes "headers", bytes "x-b3-sampled"] =
    some (bytes "1")

def populateExtendedHTTPRequestInfo (requestInfo : ExtendedRequestInfo) : ExtendedRequestInfo :=
  let string (path : List Bytes) (old : Bytes) := (stream.properties.string path).getD old
  let sanitized (path : List Bytes) (old : Bytes) :=
    ((stream.properties.string path).map decoding.sanitize).getD old
  let requestInfo := populateExtendedRequestInfo decoding stream requestInfo
  let requestInfo :=
    { requestInfo with
      referer := sanitized [bytes "request", bytes "referer"] requestInfo.referer
      userAgent := sanitized [bytes "request", bytes "useragent"] requestInfo.userAgent
      requestId := sanitized [bytes "request", bytes "id"] requestInfo.requestId }
  let requestInfo :=
    if traceSampled stream then
      { requestInfo with
        b3TraceId := sanitized [bytes "request", bytes "headers", bytes "x-b3-traceid"]
          requestInfo.b3TraceId
        b3SpanId := sanitized [bytes "request", bytes "headers", bytes "x-b3-spanid"]
          requestInfo.b3SpanId
        b3TraceSampled := true }
    else requestInfo
  let responseDetails := string [bytes "response", bytes "code_details"] []
  { requestInfo with
    path := string [bytes "request", bytes "path"] requestInfo.path
    urlHost := string [bytes "request", bytes "host"] requestInfo.urlHost
    urlScheme := string [bytes "request", bytes "scheme"] requestInfo.urlScheme
    responseDetails :=
      if responseDetails.isEmpty then requestInfo.responseDetails else responseDetails }

end

/-- The functions that populate a request. -/
inductive Populate where
  | requestInfo (outbound useHostHeaderFallback : Bool)
  | httpRequestInfo (outbound useHostHeaderFallback : Bool)
  | tcpRequestInfo (outbound : Bool)
  | requestProtocol
  | grpcInfo
  | extendedRequestInfo
  | extendedHTTPRequestInfo
  deriving DecidableEq, Repr

/-- A call of one of them, with the answers of the host. -/
structure PopulateCall where
  function : Populate
  stream : StreamAccess

section

variable (libraries : Libraries) (decoding : Decoding)

/-- What a call that is not an extended one does. -/
def PopulateCall.base (call : PopulateCall) (requestInfo : RequestInfo) : RequestInfo :=
  match call.function with
  | .requestInfo outbound useHostHeaderFallback =>
    populateRequestInfo call.stream outbound useHostHeaderFallback requestInfo
  | .httpRequestInfo outbound useHostHeaderFallback =>
    populateHTTPRequestInfo libraries call.stream outbound useHostHeaderFallback requestInfo
  | .tcpRequestInfo outbound => populateTCPRequestInfo call.stream outbound requestInfo
  | .requestProtocol => populateRequestProtocol call.stream requestInfo
  | .grpcInfo => (populateGRPCInfo libraries call.stream requestInfo).2
  | .extendedRequestInfo | .extendedHTTPRequestInfo => requestInfo

def PopulateCall.run (requestInfo : ExtendedRequestInfo) (call : PopulateCall) :
    ExtendedRequestInfo :=
  match call.function with
  | .extendedRequestInfo => populateExtendedRequestInfo decoding call.stream requestInfo
  | .extendedHTTPRequestInfo => populateExtendedHTTPRequestInfo decoding call.stream requestInfo
  | _ => { requestInfo with toRequestInfo := call.base libraries requestInfo.toRequestInfo }

/-- The request after calls, one after the other. -/
def populateAll (calls : List PopulateCall) (requestInfo : ExtendedRequestInfo) :
    ExtendedRequestInfo :=
  calls.foldl (PopulateCall.run libraries decoding) requestInfo

end

variable {libraries : Libraries} {decoding : Decoding} {call : PopulateCall}
  {calls : List PopulateCall} {info info' : ExtendedRequestInfo} {requestInfo : RequestInfo}

/-! ### Texts of the client -/

/-- The texts that are sanitized. -/
inductive ClientText where
  | xEnvoyOriginalPath
  | xEnvoyOriginalDstHost
  | referer
  | userAgent
  | requestId
  | b3TraceId
  | b3SpanId
  deriving DecidableEq, Repr

namespace ClientText

def get : ClientText → ExtendedRequestInfo → Bytes
  | xEnvoyOriginalPath => ExtendedRequestInfo.xEnvoyOriginalPath
  | xEnvoyOriginalDstHost => ExtendedRequestInfo.xEnvoyOriginalDstHost
  | referer => ExtendedRequestInfo.referer
  | userAgent => ExtendedRequestInfo.userAgent
  | requestId => ExtendedRequestInfo.requestId
  | b3TraceId => ExtendedRequestInfo.b3TraceId
  | b3SpanId => ExtendedRequestInfo.b3SpanId

/-- What `populateExtendedHTTPRequestInfo` is given for a text.  The headers that Envoy adds count
as empty if they are not there, and the ids of a trace count only if it is sampled. -/
def answer (text : ClientText) (stream : StreamAccess) : Option Bytes :=
  let header (name : Bytes) := stream.properties.string [bytes "request", bytes "headers", name]
  match text with
  | xEnvoyOriginalPath => some (stream.requestHeader (bytes "x-envoy-original-path"))
  | xEnvoyOriginalDstHost => some (stream.requestHeader (bytes "x-envoy-original-dst-host"))
  | referer => stream.properties.string [bytes "request", bytes "referer"]
  | userAgent => stream.properties.string [bytes "request", bytes "useragent"]
  | requestId => stream.properties.string [bytes "request", bytes "id"]
  | b3TraceId => if traceSampled stream then header (bytes "x-b3-traceid") else none
  | b3SpanId => if traceSampled stream then header (bytes "x-b3-spanid") else none

/-- What a call is given for a text. -/
def given (text : ClientText) (call : PopulateCall) : Option Bytes :=
  match call.function with
  | .extendedHTTPRequestInfo => text.answer call.stream
  | .extendedRequestInfo =>
    if text = xEnvoyOriginalPath ∨ text = xEnvoyOriginalDstHost then text.answer call.stream
    else none
  | _ => none

/-- A call keeps the text, or replaces it by what it is given. -/
theorem get_run (text : ClientText) (info : ExtendedRequestInfo) (call : PopulateCall) :
    text.get (call.run libraries decoding info) =
      ((text.given call).map decoding.sanitize).getD (text.get info) := by
  obtain ⟨function, stream⟩ := call
  cases function with
  | extendedHTTPRequestInfo =>
    unfold PopulateCall.run populateExtendedHTTPRequestInfo given answer
    dsimp only
    cases text <;> cases traceSampled stream <;> rfl
  | extendedRequestInfo => cases text <;> rfl
  | _ => cases text <;> rfl

end ClientText

/-- A request of which nothing is known. -/
def ExtendedRequestInfo.new (startTime duration : Int64) (connectionId : UInt64) :
    ExtendedRequestInfo where
  startTime := startTime
  duration := duration
  connectionId := connectionId

theorem sanitize_nil : decoding.sanitize [] = [] := by
  unfold Decoding.sanitize sanitizeBytes sanitizeLoop
  rfl

/-- **The texts of the client are valid UTF-8 after any sequence of calls**: each is what the last
call that was given a text for it was given, repaired. -/
theorem client_texts_repaired (h : decoding.fromUTF8.Documented) (text : ClientText)
    (calls : List PopulateCall) (startTime duration : Int64) (connectionId : UInt64) :
    Resync.Concatenation Utf8.Encodes
        (text.get (populateAll libraries decoding calls (.new startTime duration connectionId))) ∧
      ∃ changed, Resync.Repairs Utf8.Encodes 32 (latest text.given calls [])
        (text.get (populateAll libraries decoding calls (.new startTime duration connectionId)))
        changed := by
  have hnew : text.get (.new startTime duration connectionId) = decoding.sanitize [] := by
    rw [sanitize_nil]
    cases text <;> rfl
  have hget :=
    calc text.get (populateAll libraries decoding calls (.new startTime duration connectionId))
      _ = latest (fun call => (text.given call).map decoding.sanitize) calls
          (text.get (.new startTime duration connectionId)) :=
        foldl_eq_latest text.get_run calls _
      _ = decoding.sanitize (latest text.given calls []) := by rw [hnew, latest_map]
  obtain ⟨hrepairs, -⟩ := sanitizeBytes_repairs h (decoding.beyond (latest text.given calls []))
    (latest text.given calls [])
  rw [hget]
  exact ⟨hrepairs.concatenation Utf8.code, _, hrepairs⟩

theorem client_texts_repaired_twice :
    let calls : List PopulateCall := [[0x61, 0xe2, 0x82], [0xff, 0x62]].map fun userAgent =>
      let string (path : List Bytes) :=
        if path = [bytes "request", bytes "useragent"] then some userAgent else none
      ⟨.extendedHTTPRequestInfo, { Properties.none with string := string }, fun _ => none⟩
    let info := populateAll ⟨fun _ => {}, fun _ => (false, 0)⟩ ⟨utf8Decoder, fun _ _ => 0xac⟩ calls
      (.new 0 0 0)
    Resync.Concatenation Utf8.Encodes info.userAgent ∧
      ∃ changed, Resync.Repairs Utf8.Encodes 32 [0xff, 0x62] info.userAgent changed :=
  client_texts_repaired utf8Decoder_documented .userAgent _ 0 0 0

/-! ### What the metrics see -/

/-- The call reads additional fields. -/
def PopulateCall.isExtended (call : PopulateCall) : Bool :=
  call.function = .extendedRequestInfo || call.function = .extendedHTTPRequestInfo

/-- The call reads the destination of the request, unless that has been done before. -/
def PopulateCall.populates (call : PopulateCall) : Bool :=
  match call.function with
  | .requestInfo .. | .httpRequestInfo .. | .tcpRequestInfo .. => true
  | _ => false

/-- The host of the URL is not read for a log before the destination has been read. -/
def ExtendedLast (calls : List PopulateCall) : Prop :=
  ∀ before call after, calls = before ++ call :: after →
    call.function = .extendedHTTPRequestInfo → ∃ earlier ∈ before, earlier.populates = true

def RequestInfo.setUrlHost (requestInfo : RequestInfo) (urlHost : Bytes) : RequestInfo :=
  { requestInfo with urlHost := urlHost }

/-- The step neither populates a request nor looks at the host of its URL. -/
structure Unhosted (step : RequestInfo → RequestInfo) : Prop where
  isPopulated (requestInfo : RequestInfo) :
    (step requestInfo).isPopulated = requestInfo.isPopulated
  setUrlHost (requestInfo : RequestInfo) (urlHost : Bytes) :
    step (requestInfo.setUrlHost urlHost) = (step requestInfo).setUrlHost urlHost

theorem Unhosted.comp {first second : RequestInfo → RequestInfo} (hsecond : Unhosted second)
    (hfirst : Unhosted first) : Unhosted (second ∘ first) where
  isPopulated requestInfo := (hsecond.isPopulated _).trans (hfirst.isPopulated _)
  setUrlHost requestInfo urlHost := by
    show second (first (requestInfo.setUrlHost urlHost)) = _
    rw [hfirst.setUrlHost, hsecond.setUrlHost]
    rfl

section

variable (libraries : Libraries) (stream : StreamAccess) (outbound fallback : Bool)

theorem unhosted_populateResponseFlag : Unhosted (populateResponseFlag stream) where
  isPopulated requestInfo := by
    unfold populateResponseFlag
    split <;> rfl
  setUrlHost requestInfo urlHost := by
    unfold populateResponseFlag
    split <;> rfl

theorem unhosted_populateGRPCInfo :
    Unhosted fun requestInfo => (populateGRPCInfo libraries stream requestInfo).2 where
  isPopulated requestInfo := by
    unfold populateGRPCInfo
    dsimp only
    split
    · split_ifs <;> rfl
    · rfl
  setUrlHost requestInfo urlHost := by
    unfold populateGRPCInfo
    dsimp only
    split
    · split_ifs <;> rfl
    · rfl

/-- What is read about an HTTP request before `populateRequestInfo`. -/
def populateHTTPBefore (requestInfo : RequestInfo) : RequestInfo :=
  let requestInfo := populateRequestProtocol stream requestInfo
  let urlPath := stream.properties.string [bytes "request", bytes "url_path"]
  { requestInfo with urlPath := urlPath.getD requestInfo.urlPath }

def populateHTTPResponseCode (requestInfo : RequestInfo) : RequestInfo :=
  match stream.properties.int64 [bytes "response", bytes "code"] with
  | some responseCode => { requestInfo with responseCode := responseCode.toUInt64.toUInt32 }
  | none => requestInfo

def populateHTTPGRPC (requestInfo : RequestInfo) : RequestInfo :=
  if requestInfo.requestProtocol = .GRPC then
    let grpcStatusCode :=
      (stream.properties.int64 [bytes "response", bytes "grpc_status"]).getD 2
    (populateGRPCInfo libraries stream
      { requestInfo with grpcStatus := grpcStatusCode.toUInt64.toUInt32 }).2
  else requestInfo

def populateHTTPAfter (requestInfo : RequestInfo) : RequestInfo :=
  let int64 (path : List Bytes) (old : Int64) := (stream.properties.int64 path).getD old
  { requestInfo with
    requestOperation :=
      match stream.properties.string [bytes "istio_operationId"] with
      | some operationId => operationId
      | none => stream.requestHeader (bytes ":method")
    startTime := int64 [bytes "request", bytes "time"] requestInfo.startTime
    duration := int64 [bytes "request", bytes "duration"] requestInfo.duration
    requestSize := int64 [bytes "request", bytes "total_size"] requestInfo.requestSize
    responseSize := int64 [bytes "response", bytes "total_size"] requestInfo.responseSize }

theorem populateHTTPRequestInfo_eq (requestInfo : RequestInfo) :
    populateHTTPRequestInfo libraries stream outbound fallback requestInfo =
      (populateHTTPAfter stream ∘ populateHTTPGRPC libraries stream ∘ populateResponseFlag stream ∘
        populateHTTPResponseCode stream)
        (populateRequestInfo stream outbound fallback (populateHTTPBefore stream requestInfo)) :=
  rfl

theorem unhosted_populateHTTPBefore : Unhosted (populateHTTPBefore stream) where
  isPopulated _ := rfl
  setUrlHost _ _ := rfl

theorem unhosted_populateHTTPResponseCode : Unhosted (populateHTTPResponseCode stream) where
  isPopulated requestInfo := by
    unfold populateHTTPResponseCode
    split <;> rfl
  setUrlHost requestInfo urlHost := by
    unfold populateHTTPResponseCode
    split <;> rfl

theorem unhosted_populateHTTPGRPC : Unhosted (populateHTTPGRPC libraries stream) where
  isPopulated requestInfo := by
    unfold populateHTTPGRPC
    split_ifs
    · exact (unhosted_populateGRPCInfo libraries stream).isPopulated _
    · rfl
  setUrlHost requestInfo urlHost := by
    unfold populateHTTPGRPC
    by_cases h : requestInfo.requestProtocol = .GRPC
    · rw [if_pos h, if_pos (show (requestInfo.setUrlHost urlHost).requestProtocol = .GRPC from h)]
      exact (unhosted_populateGRPCInfo libraries stream).setUrlHost
        { requestInfo with
          grpcStatus :=
            ((stream.properties.int64 [bytes "response", bytes "grpc_status"]).getD
              2).toUInt64.toUInt32 } urlHost
    · rw [if_neg h,
        if_neg (show ¬(requestInfo.setUrlHost urlHost).requestProtocol = .GRPC from h)]

theorem unhosted_populateHTTPAfter : Unhosted (populateHTTPAfter stream) where
  isPopulated _ := rfl
  setUrlHost _ _ := rfl

theorem unhosted_populateHTTP :
    Unhosted (populateHTTPAfter stream ∘ populateHTTPGRPC libraries stream ∘
      populateResponseFlag stream ∘ populateHTTPResponseCode stream) :=
  (unhosted_populateHTTPAfter stream).comp <| (unhosted_populateHTTPGRPC libraries stream).comp <|
    (unhosted_populateResponseFlag stream).comp (unhosted_populateHTTPResponseCode stream)

end

section

variable {stream : StreamAccess} {outbound fallback : Bool}

theorem populateRequestInfo_of_populated (h : requestInfo.isPopulated = true) :
    populateRequestInfo stream outbound fallback requestInfo = requestInfo := by
  unfold populateRequestInfo
  rw [if_pos h]

theorem isPopulated_populateDestinationService :
    (populateDestinationService stream outbound fallback requestInfo).isPopulated =
      requestInfo.isPopulated := by
  unfold populateDestinationService
  extract_lets destination clusterName service
  have hdestination : destination.isPopulated = requestInfo.isPopulated := rfl
  split_ifs
  · exact hdestination
  · exact hdestination
  · exact hdestination
  · split
    · exact hdestination
    · exact hdestination

theorem isPopulated_populateRequestInfo :
    (populateRequestInfo stream outbound fallback requestInfo).isPopulated = true := by
  unfold populateRequestInfo
  split_ifs with hpopulated houtbound
  · exact hpopulated
  · exact isPopulated_populateDestinationService
  · exact isPopulated_populateDestinationService

end

/-- A request stays populated, and calls that populate it do so. -/
theorem isPopulated_base (h : requestInfo.isPopulated = true ∨ call.populates = true) :
    (call.base libraries requestInfo).isPopulated = true := by
  obtain ⟨function, stream⟩ := call
  cases function with
  | requestInfo => exact isPopulated_populateRequestInfo
  | httpRequestInfo outbound fallback =>
    show (populateHTTPRequestInfo libraries stream outbound fallback requestInfo).isPopulated = true
    rw [populateHTTPRequestInfo_eq, (unhosted_populateHTTP libraries stream).isPopulated]
    exact isPopulated_populateRequestInfo
  | tcpRequestInfo =>
    exact ((unhosted_populateResponseFlag stream).isPopulated _).trans
      isPopulated_populateRequestInfo
  | requestProtocol | extendedRequestInfo | extendedHTTPRequestInfo =>
    exact h.resolve_right Bool.false_ne_true
  | grpcInfo =>
    exact ((unhosted_populateGRPCInfo libraries stream).isPopulated _).trans
      (h.resolve_right Bool.false_ne_true)

/-- Once the request is populated, the host of the URL is not read any more. -/
theorem base_setUrlHost (h : requestInfo.isPopulated = true) (urlHost : Bytes) :
    call.base libraries (requestInfo.setUrlHost urlHost) =
      (call.base libraries requestInfo).setUrlHost urlHost := by
  obtain ⟨function, stream⟩ := call
  have hset : (requestInfo.setUrlHost urlHost).isPopulated = true := h
  cases function with
  | requestInfo outbound fallback =>
    show populateRequestInfo stream outbound fallback _ =
      (populateRequestInfo stream outbound fallback _).setUrlHost _
    rw [populateRequestInfo_of_populated h, populateRequestInfo_of_populated hset]
  | httpRequestInfo outbound fallback =>
    have hbefore := unhosted_populateHTTPBefore stream
    show populateHTTPRequestInfo libraries stream outbound fallback _ =
      (populateHTTPRequestInfo libraries stream outbound fallback _).setUrlHost _
    rw [populateHTTPRequestInfo_eq, populateHTTPRequestInfo_eq,
      populateRequestInfo_of_populated ((hbefore.isPopulated _).trans h),
      populateRequestInfo_of_populated ((hbefore.isPopulated _).trans hset),
      hbefore.setUrlHost, (unhosted_populateHTTP libraries stream).setUrlHost]
  | tcpRequestInfo outbound =>
    show populateTCPRequestInfo stream outbound _ =
      (populateTCPRequestInfo stream outbound _).setUrlHost _
    unfold populateTCPRequestInfo
    rw [populateRequestInfo_of_populated h, populateRequestInfo_of_populated hset,
      (unhosted_populateResponseFlag stream).setUrlHost]
    rfl
  | grpcInfo => exact (unhosted_populateGRPCInfo libraries stream).setUrlHost _ _
  | requestProtocol | extendedRequestInfo | extendedHTTPRequestInfo => rfl

/-- Of the fields that the metrics see, only the host of the URL is read for a log. -/
theorem toRequestInfo_populateExtendedHTTPRequestInfo (stream : StreamAccess) :
    (populateExtendedHTTPRequestInfo decoding stream info).toRequestInfo =
      info.toRequestInfo.setUrlHost
        ((stream.properties.string [bytes "request", bytes "host"]).getD info.urlHost) := by
  unfold populateExtendedHTTPRequestInfo
  dsimp only
  split_ifs <;> rfl

theorem ExtendedLast.of_populates (h : call.populates = true) : ExtendedLast (call :: calls) := by
  rintro (_ | ⟨first, before⟩) extended after hcalls hextended
  · obtain ⟨rfl, -⟩ := List.cons_eq_cons.1 hcalls
    unfold PopulateCall.populates at h
    rw [hextended] at h
    cases h
  · obtain ⟨rfl, -⟩ := List.cons_eq_cons.1 hcalls
    exact ⟨call, .head _, h⟩

theorem ExtendedLast.init (h : ExtendedLast (calls ++ [call])) : ExtendedLast calls := by
  intro before extended after hcalls hextended
  exact h before extended (after ++ [call]) (by rw [hcalls]; simp) hextended

/-- What a request is after all calls, beside what it is without those that are extended. -/
structure SeesAlike (calls : List PopulateCall) (all base : RequestInfo) : Prop where
  all_eq : all = base.setUrlHost all.urlHost
  same : all.isPopulated = true ∨ all = base
  populated : (∃ call ∈ calls, call.populates = true) → all.isPopulated = true

theorem SeesAlike.step {all base : RequestInfo} (h : SeesAlike calls all base)
    (libraries : Libraries) (call : PopulateCall) :
    SeesAlike (calls ++ [call]) (call.base libraries all) (call.base libraries base) := by
  have hpopulated : (∃ earlier ∈ calls ++ [call], earlier.populates = true) →
      (call.base libraries all).isPopulated = true := by
    rintro ⟨earlier, hearlier, hpopulates⟩
    rcases List.mem_append.1 hearlier with hmem | hmem
    · exact isPopulated_base (.inl (h.populated ⟨earlier, hmem, hpopulates⟩))
    · rw [List.mem_singleton.1 hmem] at hpopulates
      exact isPopulated_base (.inr hpopulates)
  rcases h.same with hall | hall
  · have hbase : base.isPopulated = true := by
      have := congrArg RequestInfo.isPopulated h.all_eq
      exact this.symm.trans hall
    refine ⟨?_, .inl (isPopulated_base (.inl hall)), hpopulated⟩
    have hstep : call.base libraries all = (call.base libraries base).setUrlHost all.urlHost := by
      rw [h.all_eq]
      exact base_setUrlHost hbase _
    rw [hstep]
    rfl
  · subst hall
    exact ⟨rfl, .inr rfl, hpopulated⟩

/-- Another host of the URL is not seen if the request is populated. -/
theorem SeesAlike.extended {all base : RequestInfo} (h : SeesAlike calls all base)
    (call : PopulateCall) (hcall : call.populates = false) {urlHost : Bytes}
    (hhost : all.isPopulated = true ∨ urlHost = all.urlHost) :
    SeesAlike (calls ++ [call]) (all.setUrlHost urlHost) base where
  all_eq := by
    calc all.setUrlHost urlHost
      _ = (base.setUrlHost all.urlHost).setUrlHost urlHost := by rw [← h.all_eq]
      _ = base.setUrlHost urlHost := rfl
  same := by
    rcases hhost with hpopulated | rfl
    · exact .inl hpopulated
    · exact h.same
  populated := by
    rintro ⟨earlier, hearlier, hpopulates⟩
    rcases List.mem_append.1 hearlier with hmem | hmem
    · exact h.populated ⟨earlier, hmem, hpopulates⟩
    · rw [List.mem_singleton.1 hmem, hcall] at hpopulates
      cases hpopulates

/-- **The additional fields do not change what the metrics see**, whatever is called in whatever
order, if the host of the URL is not read before the destination: without the extended calls, the
request is the same but for that host. -/
theorem extended_calls_harmless (calls : List PopulateCall) (h : ExtendedLast calls)
    (info : ExtendedRequestInfo) :
    (populateAll libraries decoding calls info).toRequestInfo =
      { (populateAll libraries decoding (calls.filter (!·.isExtended)) info).toRequestInfo with
        urlHost := (populateAll libraries decoding calls info).urlHost } := by
  have halike : SeesAlike calls (populateAll libraries decoding calls info).toRequestInfo
      (populateAll libraries decoding (calls.filter (!·.isExtended)) info).toRequestInfo := by
    induction calls using List.reverseRecOn with
    | nil => exact ⟨rfl, .inr rfl, by rintro ⟨call, hcall, -⟩; cases hcall⟩
    | append_singleton calls call ih =>
      have hcalls := ih h.init
      rw [List.filter_append]
      unfold populateAll at hcalls ⊢
      rw [List.foldl_append, List.foldl_append]
      obtain ⟨function, stream⟩ := call
      cases function with
      | extendedHTTPRequestInfo =>
        have hpopulated := hcalls.populated (h calls _ [] rfl rfl)
        show SeesAlike _ (populateExtendedHTTPRequestInfo decoding stream _).toRequestInfo _
        rw [toRequestInfo_populateExtendedHTTPRequestInfo]
        exact hcalls.extended ⟨.extendedHTTPRequestInfo, stream⟩ rfl (.inl hpopulated)
      | extendedRequestInfo => exact hcalls.extended ⟨.extendedRequestInfo, stream⟩ rfl (.inr rfl)
      | _ => exact hcalls.step libraries ⟨_, stream⟩
  exact halike.all_eq

/-- The host of the URL is known before the request is read again, and not used. -/
theorem extended_calls_harmless_between :
    let stream : StreamAccess :=
      { properties :=
          { Properties.none with
            string := fun path =>
              if path = [bytes "request", bytes "host"] then some (bytes "example.com") else none }
        requestHeaders := fun _ => none }
    let populate (calls : List Populate) :=
      populateAll ⟨fun _ => {}, fun _ => (false, 0)⟩ ⟨utf8Decoder, fun _ _ => 0xac⟩
        (calls.map (⟨·, stream⟩)) (.new 0 0 0)
    let calls := [.httpRequestInfo true true, .extendedHTTPRequestInfo, .httpRequestInfo true true]
    (populate calls).toRequestInfo =
      { (populate [.httpRequestInfo true true, .httpRequestInfo true true]).toRequestInfo with
        urlHost := (populate calls).urlHost } :=
  extended_calls_harmless _ (.of_populates rfl) _

end WasmExtensions
