import WasmExtensions.Stats.Provenance
import Mathlib.Algebra.GroupWithZero.Nat

/-!
# HTTP and gRPC metrics

Four metrics are recorded at the end of a stream, once each (`HttpMetric`).  The two message metrics
of gRPC streams are recorded mid-stream, too (`MessageMetric`): a report records by how much a count
has grown since it was last recorded, so what has been recorded adds up to the count that was
recorded last (`MessageMetric.Balanced`).
-/

namespace WasmExtensions

namespace Stats

variable {stream : StatsStream} {requestInfo requestInfo' : RequestInfo} {endStream : Bool}
  {stat : SimpleStat} {stats : List SimpleStat} {recording : Recording}
  {recorded recorded' : List (SimpleStat × UInt64)} {access : StreamAccess}

/-! ### Metrics that are recorded once -/

inductive HttpMetric where
  | requestsTotal
  | requestDurationMilliseconds
  | requestBytes
  | responseBytes
  deriving DecidableEq, Repr

namespace HttpMetric

def extractor : HttpMetric → ValueExtractorFn
  | requestsTotal => .requestsTotal
  | requestDurationMilliseconds => .requestDurationMilliseconds
  | requestBytes => .requestBytes
  | responseBytes => .responseBytes

/-- The default metric with this extractor. -/
def factory (m : HttpMetric) : MetricFactory where
  name :=
    match m with
    | requestsTotal => bytes "requests_total"
    | requestDurationMilliseconds => bytes "request_duration_milliseconds"
    | requestBytes => bytes "request_bytes"
    | responseBytes => bytes "response_bytes"
  type :=
    match m with
    | requestsTotal => .Counter
    | _ => .Histogram
  extractor := m.extractor
  protocols := httpAndGrpc
  countLabels := countStandardLabels
  recurrent := false

variable {m : HttpMetric}

theorem mem_defaultMetrics (m : HttpMetric) : m.factory ∈ defaultMetrics := by
  cases m <;> decide +kernel

/-- How often the metric has been recorded. -/
def times (m : HttpMetric) (recorded : List (SimpleStat × UInt64)) : ℕ :=
  recorded.countP fun record => record.1.valueFn = m.extractor

@[simp] theorem times_nil : m.times [] = 0 := rfl

@[simp] theorem times_append :
    m.times (recorded ++ recorded') = m.times recorded + m.times recorded' :=
  List.countP_append

/-- The only counter among these metrics counts one for each stream, so none is left out. -/
theorem times_record (htype : stat.valueFn = m.extractor → stat.type = m.factory.type) :
    m.times (stat.record stream recording).recorded =
      m.times recording.recorded + if stat.valueFn = m.extractor then 1 else 0 := by
  unfold SimpleStat.record
  dsimp only
  by_cases hfn : stat.valueFn = m.extractor
  · have hrecorded : ¬ (stat.type = .Counter ∧
        (stat.valueFn.call stream recording.requestInfo).1 = 0) := by
      rw [htype hfn, hfn]
      have hone : (1 : UInt64) ≠ 0 := by decide
      cases m with
      | requestsTotal => exact fun h => hone h.2
      | requestDurationMilliseconds => exact fun h => absurd h.1 (by decide)
      | requestBytes => exact fun h => absurd h.1 (by decide)
      | responseBytes => exact fun h => absurd h.1 (by decide)
    rw [if_neg hrecorded, times_append, if_pos hfn]
    unfold times
    rw [List.countP_singleton, if_pos (decide_eq_true hfn)]
  · rw [if_neg hfn]
    split_ifs
    · rfl
    · rw [times_append]
      unfold times
      rw [List.countP_singleton, if_neg (by simpa using hfn)]

theorem times_recordStats_end
    (htype : ∀ stat ∈ stats, stat.valueFn = m.extractor → stat.type = m.factory.type) :
    m.times (recordStats stream true stats recording).recorded =
      m.times recording.recorded + (stats.map SimpleStat.valueFn).count m.extractor := by
  induction stats generalizing recording with
  | nil => rfl
  | cons stat stats ih =>
    have hstep : recordStats stream true (stat :: stats) recording =
        recordStats stream true stats (stat.record stream recording) := rfl
    rw [hstep, ih fun stat' hmem => htype stat' (List.mem_cons_of_mem _ hmem),
      times_record (htype stat List.mem_cons_self), List.map_cons]
    by_cases hfn : stat.valueFn = m.extractor
    · rw [if_pos hfn, hfn, List.count_cons_self]
      omega
    · rw [if_neg hfn, List.count_cons_of_ne hfn, Nat.add_zero]

/-- Before the end of the stream, none is recorded. -/
theorem times_recordStats_of_recurrent
    (hrecurrent : ∀ stat ∈ stats, stat.valueFn = m.extractor → stat.recurrent = false) :
    m.times (recordStats stream false stats recording).recorded = m.times recording.recorded := by
  induction stats generalizing recording with
  | nil => rfl
  | cons stat stats ih =>
    rw [recordStats, ih fun stat' hmem => hrecurrent stat' (List.mem_cons_of_mem _ hmem)]
    unfold recordStat
    split_ifs with hnow
    · have hfn : stat.valueFn ≠ m.extractor := by
        intro hfn
        rw [hrecurrent stat List.mem_cons_self hfn] at hnow
        cases hnow
      rw [times_record fun h => absurd h hfn, if_neg hfn, Nat.add_zero]
    · rfl

end HttpMetric

/-! ### Message metrics -/

inductive MessageMetric where
  | requestMessagesTotal
  | responseMessagesTotal
  deriving DecidableEq, Repr

namespace MessageMetric

def extractor : MessageMetric → ValueExtractorFn
  | requestMessagesTotal => .requestMessagesTotal
  | responseMessagesTotal => .responseMessagesTotal

/-- The default metric with this extractor. -/
def factory (m : MessageMetric) : MetricFactory where
  name :=
    match m with
    | requestMessagesTotal => bytes "request_messages_total"
    | responseMessagesTotal => bytes "response_messages_total"
  type := .Counter
  extractor := m.extractor
  protocols := Protocol.toUInt32 .GRPC
  countLabels := countPeerLabels
  recurrent := true

/-- The messages so far. -/
def count (m : MessageMetric) (requestInfo : RequestInfo) : UInt64 :=
  match m with
  | requestMessagesTotal => requestInfo.requestMessageCount
  | responseMessagesTotal => requestInfo.responseMessageCount

/-- The messages that have been recorded. -/
def last (m : MessageMetric) (requestInfo : RequestInfo) : UInt64 :=
  match m with
  | requestMessagesTotal => requestInfo.lastRequestMessageCount
  | responseMessagesTotal => requestInfo.lastResponseMessageCount

/-- The part of "x,y" for the metric. -/
def part (m : MessageMetric) (counts : UInt64 × UInt64) : UInt64 :=
  match m with
  | requestMessagesTotal => counts.1
  | responseMessagesTotal => counts.2

/-- The sum of the values that have been recorded.  It is not a machine integer, so that no sum
wraps around. -/
def total (m : MessageMetric) (recorded : List (SimpleStat × UInt64)) : ℕ :=
  ((recorded.filter fun record => record.1.valueFn = m.extractor).map fun record =>
    record.2.toNat).sum

variable {m : MessageMetric} {base : ℕ}

theorem mem_defaultMetrics (m : MessageMetric) : m.factory ∈ defaultMetrics := by
  cases m <;> decide +kernel

@[simp] theorem total_nil : m.total [] = 0 := rfl

@[simp] theorem total_append :
    m.total (recorded ++ recorded') = m.total recorded + m.total recorded' := by
  unfold total
  rw [List.filter_append, List.map_append, List.sum_append]

theorem call_extractor :
    (m.extractor.call stream requestInfo).1 = m.count requestInfo - m.last requestInfo := by
  cases m <;> rfl

@[simp] theorem count_call (f : ValueExtractorFn) :
    m.count (f.call stream requestInfo).2.1 = m.count requestInfo := by
  cases m <;> cases f <;> rfl

/-- The recorded count is advanced by the extractor of its own metric only. -/
theorem last_call (f : ValueExtractorFn) :
    m.last (f.call stream requestInfo).2.1 =
      if f = m.extractor then m.count requestInfo else m.last requestInfo := by
  cases m <;> cases f <;> rfl

/-- What had been recorded before the report, `base`, and what the report has recorded add up to the
recorded count. -/
structure Balanced (m : MessageMetric) (base : ℕ) (recording : Recording) : Prop where
  balance : base + m.total recording.recorded = (m.last recording.requestInfo).toNat
  le : m.last recording.requestInfo ≤ m.count recording.requestInfo

theorem Balanced.record (h : m.Balanced base recording) :
    m.Balanced base (stat.record stream recording) := by
  have hcount : m.count (stat.record stream recording).requestInfo =
      m.count recording.requestInfo := count_call _
  have hlast : m.last (stat.record stream recording).requestInfo =
      if stat.valueFn = m.extractor then m.count recording.requestInfo
      else m.last recording.requestInfo := last_call _
  -- A value of zero may not be recorded, which makes no difference to the sum.
  have htotal : m.total (stat.record stream recording).recorded =
      m.total recording.recorded + if stat.valueFn = m.extractor then
        (m.count recording.requestInfo - m.last recording.requestInfo).toNat else 0 := by
    have hone : m.total [(stat, (stat.valueFn.call stream recording.requestInfo).1)] =
        if stat.valueFn = m.extractor then
          (m.count recording.requestInfo - m.last recording.requestInfo).toNat else 0 := by
      unfold total
      by_cases hfn : stat.valueFn = m.extractor
      · simp [hfn, call_extractor]
      · simp [hfn]
    rw [← hone]
    unfold SimpleStat.record
    dsimp only
    split_ifs with hzero
    · rw [hone]
      by_cases hfn : stat.valueFn = m.extractor
      · have hvalue := hzero.2
        rw [hfn, call_extractor] at hvalue
        rw [if_pos hfn, hvalue]; rfl
      · rw [if_neg hfn]; rfl
    · exact total_append
  have hbalance := h.balance
  constructor
  · rw [htotal, hlast]
    split_ifs
    · rw [UInt64.toNat_sub_of_le _ _ h.le]
      have hle := UInt64.le_iff_toNat_le.1 h.le
      omega
    · rw [Nat.add_zero]
      exact hbalance
  · rw [hcount, hlast]
    split_ifs
    · exact UInt64.le_refl _
    · exact h.le

theorem Balanced.recordStats (h : m.Balanced base recording) :
    m.Balanced base (recordStats stream endStream stats recording) := by
  induction stats generalizing recording with
  | nil => exact h
  | cons stat stats ih =>
    refine ih ?_
    unfold recordStat
    split_ifs
    · exact h.record
    · exact h

theorem count_recordStats :
    m.count (Stats.recordStats stream endStream stats recording).requestInfo =
      m.count recording.requestInfo := by
  induction stats generalizing recording with
  | nil => rfl
  | cons stat stats ih =>
    rw [Stats.recordStats, ih]
    unfold recordStat
    split_ifs
    · exact count_call _
    · rfl

/-- The last report records the rest, if it finds the metric. -/
theorem last_recordStats_end :
    m.last (Stats.recordStats stream true stats recording).requestInfo =
      if m.extractor ∈ stats.map SimpleStat.valueFn then m.count recording.requestInfo
      else m.last recording.requestInfo := by
  induction stats generalizing recording with
  | nil => rfl
  | cons stat stats ih =>
    have hrecord : m.last (recordStat stream true stat recording).requestInfo =
        if stat.valueFn = m.extractor then m.count recording.requestInfo
        else m.last recording.requestInfo := last_call _
    have hcount : m.count (recordStat stream true stat recording).requestInfo =
        m.count recording.requestInfo := count_call _
    rw [Stats.recordStats, ih, hrecord, hcount, List.map_cons]
    by_cases hfn : stat.valueFn = m.extractor
    · rw [if_pos hfn, ite_self, hfn, if_pos List.mem_cons_self]
    · rw [if_neg hfn]
      simp only [List.mem_cons, Ne.symm hfn, false_or]

end MessageMetric

/-! ### Requests of HTTP streams -/

/-- What the grpc_stats filter has written, if it is two numbers. -/
def grpcStats (libraries : Libraries) (access : StreamAccess) : Option (UInt64 × UInt64) :=
  match (access.properties.string
    [bytes "filter_state", bytes "envoy.filters.http.grpc_stats"]).map (strSplit ','.toUInt8) with
  | some [requests, responses] =>
    let (isRequests, x) := libraries.simpleAtoi requests
    let (isResponses, y) := libraries.simpleAtoi responses
    if isRequests && isResponses then some (x, y) else none
  | _ => none

/-- The filter has written nothing, or two numbers. -/
def GrpcStatsWellFormed (libraries : Libraries) (access : StreamAccess) : Prop :=
  access.properties.string [bytes "filter_state", bytes "envoy.filters.http.grpc_stats"] = none ∨
    (grpcStats libraries access).isSome

/-- Two requests have the same protocol and the same counts. -/
structure SameMessages (requestInfo requestInfo' : RequestInfo) : Prop where
  protocol : requestInfo.requestProtocol = requestInfo'.requestProtocol
  request : requestInfo.requestMessageCount = requestInfo'.requestMessageCount
  response : requestInfo.responseMessageCount = requestInfo'.responseMessageCount
  lastRequest : requestInfo.lastRequestMessageCount = requestInfo'.lastRequestMessageCount
  lastResponse : requestInfo.lastResponseMessageCount = requestInfo'.lastResponseMessageCount

namespace SameMessages

theorem refl (requestInfo : RequestInfo) : SameMessages requestInfo requestInfo :=
  ⟨rfl, rfl, rfl, rfl, rfl⟩

theorem trans {r₁ r₂ r₃ : RequestInfo} (h : SameMessages r₁ r₂) (h' : SameMessages r₂ r₃) :
    SameMessages r₁ r₃ :=
  ⟨h.protocol.trans h'.protocol, h.request.trans h'.request, h.response.trans h'.response,
    h.lastRequest.trans h'.lastRequest, h.lastResponse.trans h'.lastResponse⟩

theorem count (h : SameMessages requestInfo requestInfo') (m : MessageMetric) :
    m.count requestInfo = m.count requestInfo' := by
  cases m with
  | requestMessagesTotal => exact h.request
  | responseMessagesTotal => exact h.response

theorem last (h : SameMessages requestInfo requestInfo') (m : MessageMetric) :
    m.last requestInfo = m.last requestInfo' := by
  cases m with
  | requestMessagesTotal => exact h.lastRequest
  | responseMessagesTotal => exact h.lastResponse

end SameMessages

variable {libraries : Libraries} {plugin : PluginRootContext} {call : ReportCall}
  {outbound fallback : Bool}

theorem sameMessages_populateDestinationService :
    SameMessages (populateDestinationService access outbound fallback requestInfo) requestInfo := by
  unfold populateDestinationService
  dsimp only
  split
  · exact ⟨rfl, rfl, rfl, rfl, rfl⟩
  split
  · exact ⟨rfl, rfl, rfl, rfl, rfl⟩
  split
  · exact ⟨rfl, rfl, rfl, rfl, rfl⟩
  split <;> exact ⟨rfl, rfl, rfl, rfl, rfl⟩

theorem sameMessages_populateRequestInfo :
    SameMessages (populateRequestInfo access outbound fallback requestInfo) requestInfo := by
  unfold populateRequestInfo
  dsimp only
  split
  · exact ⟨rfl, rfl, rfl, rfl, rfl⟩
  split <;>
    exact ⟨sameMessages_populateDestinationService.protocol,
      sameMessages_populateDestinationService.request,
      sameMessages_populateDestinationService.response,
      sameMessages_populateDestinationService.lastRequest,
      sameMessages_populateDestinationService.lastResponse⟩

/-- What is read from the filter state takes the place of the counts. -/
structure ReadsMessages (libraries : Libraries) (access : StreamAccess)
    (requestInfo requestInfo' : RequestInfo) : Prop where
  protocol : requestInfo'.requestProtocol = requestInfo.requestProtocol
  count : requestInfo.requestProtocol = .GRPC → ∀ m : MessageMetric, m.count requestInfo' =
    ((grpcStats libraries access).map m.part).getD (m.count requestInfo)
  last : ∀ m : MessageMetric, m.last requestInfo' = m.last requestInfo

theorem ReadsMessages.congr {pre post : RequestInfo} (hpre : SameMessages pre requestInfo)
    (h : ReadsMessages libraries access pre post) (hpost : SameMessages requestInfo' post) :
    ReadsMessages libraries access requestInfo requestInfo' where
  protocol := (hpost.protocol.trans h.protocol).trans hpre.protocol
  count hgrpc m := by
    rw [hpost.count m, h.count (hpre.protocol.trans hgrpc) m, hpre.count m]
  last m := ((hpost.last m).trans (h.last m)).trans (hpre.last m)

/-- Nothing is read for a stream that is not a gRPC stream. -/
theorem ReadsMessages.of_not_grpc (h : requestInfo.requestProtocol ≠ .GRPC) :
    ReadsMessages libraries access requestInfo requestInfo where
  protocol := rfl
  count hgrpc := absurd hgrpc h
  last _ := rfl

/-- Two numbers are read into the request. -/
theorem populateGRPCInfo_of_grpcStats {x y : UInt64}
    (h : grpcStats libraries access = some (x, y)) :
    populateGRPCInfo libraries access requestInfo =
      (true, { requestInfo with requestMessageCount := x, responseMessageCount := y }) := by
  unfold grpcStats at h
  unfold populateGRPCInfo
  split at h
  · rename_i requests responses hparts
    dsimp only at h ⊢
    rw [hparts]
    obtain ⟨hnumbers, hxy⟩ := Option.ite_none_right_eq_some.1 h
    obtain ⟨hx, hy⟩ := Prod.mk.inj (Option.some.inj hxy)
    obtain ⟨hrequests, hresponses⟩ := Bool.and_eq_true_iff.1 hnumbers
    dsimp only
    rw [hrequests, hresponses, hx, hy]; rfl
  · cases h

theorem readsMessages_populateGRPCInfo (h : GrpcStatsWellFormed libraries access) :
    ReadsMessages libraries access requestInfo
      (populateGRPCInfo libraries access requestInfo).2 := by
  rcases h with hnone | hsome
  · have hstats : grpcStats libraries access = none := by
      unfold grpcStats
      rw [hnone]; rfl
    have hsame : populateGRPCInfo libraries access requestInfo = (false, requestInfo) := by
      unfold populateGRPCInfo
      dsimp only
      rw [hnone]; rfl
    rw [hsame]
    exact ⟨rfl, fun _ m => by rw [hstats]; rfl, fun _ => rfl⟩
  · obtain ⟨⟨x, y⟩, hstats⟩ := Option.isSome_iff_exists.1 hsome
    rw [populateGRPCInfo_of_grpcStats hstats]
    refine ⟨rfl, fun _ m => ?_, fun m => ?_⟩
    · rw [hstats]
      cases m <;> rfl
    · cases m <;> rfl

theorem sameMessages_populateResponseFlag :
    SameMessages (populateResponseFlag access requestInfo) requestInfo := by
  unfold populateResponseFlag
  split <;> exact ⟨rfl, rfl, rfl, rfl, rfl⟩

/-- Reading takes place between other steps, which leave protocol and counts. -/
theorem ReadsMessages.of_pre {pre : RequestInfo} (h : GrpcStatsWellFormed libraries access)
    (hpre : SameMessages pre requestInfo) (grpcStatus : UInt32)
    (hpost : SameMessages requestInfo' (if pre.requestProtocol = .GRPC then
      (populateGRPCInfo libraries access { pre with grpcStatus := grpcStatus }).2 else pre)) :
    ReadsMessages libraries access requestInfo requestInfo' := by
  refine .congr hpre ?_ hpost
  split_ifs with hgrpc
  · have hstatus : SameMessages { pre with grpcStatus := grpcStatus } pre :=
      ⟨rfl, rfl, rfl, rfl, rfl⟩
    exact .congr hstatus (readsMessages_populateGRPCInfo h) (.refl _)
  · exact .of_not_grpc hgrpc

theorem readsMessages_populateHTTPRequestInfo (h : GrpcStatsWellFormed libraries access)
    (hcontent : (populateRequestProtocol access requestInfo).requestProtocol =
      requestInfo.requestProtocol) :
    ReadsMessages libraries access requestInfo
      (populateHTTPRequestInfo libraries access outbound fallback requestInfo) := by
  unfold populateHTTPRequestInfo
  refine .of_pre h (sameMessages_populateResponseFlag.trans ?_) _ ⟨rfl, rfl, rfl, rfl, rfl⟩
  have hprotocol : ∀ urlPath, SameMessages
      { populateRequestProtocol access requestInfo with urlPath := urlPath } requestInfo :=
    fun _ => ⟨hcontent, rfl, rfl, rfl, rfl⟩
  have hrequest : ∀ urlPath, SameMessages (populateRequestInfo access outbound fallback
      { populateRequestProtocol access requestInfo with urlPath := urlPath }) requestInfo :=
    fun urlPath => sameMessages_populateRequestInfo.trans (hprotocol urlPath)
  split
  · exact ⟨(hrequest _).protocol, (hrequest _).request, (hrequest _).response,
      (hrequest _).lastRequest, (hrequest _).lastResponse⟩
  · exact hrequest _

/-- What a report of an HTTP stream reads, mid-stream or at the end. -/
theorem readsMessages_populate (hhttp : call.requestInfo.requestProtocol ≠ .TCP)
    (hwf : GrpcStatsWellFormed libraries call.stream.toStreamAccess)
    (hcontent : call.endStream = true →
      (populateRequestProtocol call.stream.toStreamAccess call.requestInfo).requestProtocol =
        call.requestInfo.requestProtocol)
    {peer : PeerNodeInfo} (h : populate libraries plugin call peer = some requestInfo) :
    ReadsMessages libraries call.stream.toStreamAccess call.requestInfo requestInfo := by
  unfold populate at h
  dsimp only at h
  rw [if_neg hhttp] at h
  split_ifs at h with hend hgrpc
  · rw [← Option.some.inj h]
    exact readsMessages_populateHTTPRequestInfo hwf (hcontent hend)
  · rw [← Option.some.inj h]
    exact .congr sameMessages_populateRequestInfo (readsMessages_populateGRPCInfo hwf) (.refl _)
  · rw [← Option.some.inj h]
    exact .congr sameMessages_populateRequestInfo (.of_not_grpc hgrpc) (.refl _)

/-- Reports of HTTP streams do not wait for the peer. -/
theorem exists_populate_of_http (libraries : Libraries) (plugin : PluginRootContext)
    (call : ReportCall) (peer : PeerNodeInfo)
    (hhttp : call.requestInfo.requestProtocol ≠ .TCP) :
    ∃ requestInfo, populate libraries plugin call peer = some requestInfo := by
  unfold populate
  dsimp only
  rw [if_neg hhttp]
  split_ifs <;> exact ⟨_, rfl⟩

end Stats

end WasmExtensions
