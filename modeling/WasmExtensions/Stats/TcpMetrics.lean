import WasmExtensions.Stats.Streams
import Mathlib.Data.UInt

/-!
# TCP metrics

The four TCP metrics, the values that a request has accumulated for them and the sums that have been
recorded.  Recording moves values from the one to the other (`TcpMetric.balance_recordStats`); the
last report of a stream records what is left of the metrics that it finds
(`TcpMetric.sum_last_report`).

Whatever has been configured, there is one generator at most with the extractor of a TCP metric, and
it is that of the default metric (`RootContext.Wf.tcp`).
-/

namespace WasmExtensions

namespace Stats

/-! ### TCP metrics -/

inductive TcpMetric where
  | sentBytes
  | receivedBytes
  | connectionsOpened
  | connectionsClosed
  deriving DecidableEq, Repr

namespace TcpMetric

/-- Each TCP metric has an extractor of its own. -/
def extractor : TcpMetric → ValueExtractorFn
  | sentBytes => .tcpSentBytesTotal
  | receivedBytes => .tcpReceivedBytesTotal
  | connectionsOpened => .tcpConnectionsOpenedTotal
  | connectionsClosed => .tcpConnectionsClosedTotal

/-- What would be recorded for a request. -/
def value (m : TcpMetric) (requestInfo : RequestInfo) : UInt64 :=
  match m with
  | sentBytes => requestInfo.tcpSentBytes
  | receivedBytes => requestInfo.tcpReceivedBytes
  | connectionsOpened => requestInfo.tcpConnectionsOpened.toUInt64
  | connectionsClosed => requestInfo.tcpConnectionsClosed.toUInt64

/-- What should be recorded for a stream altogether. -/
def amount (m : TcpMetric) (stream : Stream) : UInt64 :=
  match m with
  | sentBytes => stream.upstream.sum
  | receivedBytes => stream.downstream.sum
  | connectionsOpened => 1
  | connectionsClosed => 1

/-- The sum of the values recorded for the metric. -/
def sum (m : TcpMetric) (recorded : List (SimpleStat × UInt64)) : UInt64 :=
  ((recorded.filter fun record => record.1.valueFn = m.extractor).map Prod.snd).sum

variable {m : TcpMetric} {stream : StatsStream} {requestInfo : RequestInfo} {endStream : Bool}
  {stat : SimpleStat} {stats : List SimpleStat} {recording : Recording}
  {recorded recorded' : List (SimpleStat × UInt64)}

@[simp] theorem sum_nil : m.sum [] = 0 := rfl

@[simp] theorem sum_append : m.sum (recorded ++ recorded') = m.sum recorded + m.sum recorded' := by
  unfold sum
  rw [List.filter_append, List.map_append, List.sum_append]

theorem call_extractor : (m.extractor.call stream requestInfo).1 = m.value requestInfo := by
  cases m <;> rfl

/-- An extractor takes the value of its own metric away, and leaves that of all others. -/
theorem value_call (f : ValueExtractorFn) (hm : m ≠ connectionsClosed) :
    m.value (f.call stream requestInfo).2.1 =
      if f = m.extractor then 0 else m.value requestInfo := by
  cases m with
  | connectionsClosed => exact absurd rfl hm
  | sentBytes => cases f <;> rfl
  | receivedBytes => cases f <;> rfl
  | connectionsOpened => cases f <;> rfl

theorem value_call_connectionsClosed (f : ValueExtractorFn) :
    connectionsClosed.value (f.call stream requestInfo).2.1 =
      connectionsClosed.value requestInfo := by
  cases f <;> rfl

/-- A value of zero may not be recorded, which makes no difference to the sum. -/
theorem sum_record : m.sum (stat.record stream recording).recorded =
    m.sum recording.recorded +
      if stat.valueFn = m.extractor then m.value recording.requestInfo else 0 := by
  have hone : m.sum [(stat, (stat.valueFn.call stream recording.requestInfo).1)] =
      if stat.valueFn = m.extractor then m.value recording.requestInfo else 0 := by
    unfold sum
    by_cases hstat : stat.valueFn = m.extractor
    · simp [hstat, call_extractor]
    · simp [hstat]
  rw [← hone]
  unfold SimpleStat.record
  dsimp only
  split_ifs with hzero
  · rw [hone]
    by_cases hstat : stat.valueFn = m.extractor
    · have hvalue := hzero.2
      rw [hstat, call_extractor] at hvalue
      rw [if_pos hstat, hvalue, UInt64.add_zero]
    · rw [if_neg hstat, UInt64.add_zero]
  · exact sum_append

/-- Recording moves the value of a metric from the request to what is recorded. -/
theorem balance_recordStats (hm : m ≠ connectionsClosed) :
    m.sum (recordStats stream endStream stats recording).recorded +
        m.value (recordStats stream endStream stats recording).requestInfo =
      m.sum recording.recorded + m.value recording.requestInfo := by
  induction stats generalizing recording with
  | nil => rfl
  | cons stat stats ih =>
    rw [recordStats, ih]
    unfold recordStat
    split_ifs
    · rw [sum_record]
      have hrecord : m.value (stat.record stream recording).requestInfo =
          if stat.valueFn = m.extractor then 0 else m.value recording.requestInfo :=
        value_call _ hm
      rw [hrecord]
      split_ifs
      · rw [UInt64.add_zero]
      · rw [UInt64.add_zero]
    · rfl

theorem connectionsClosed_recordStats :
    connectionsClosed.value (recordStats stream endStream stats recording).requestInfo =
      connectionsClosed.value recording.requestInfo := by
  induction stats generalizing recording with
  | nil => rfl
  | cons stat stats ih =>
    rw [recordStats, ih]
    unfold recordStat
    split_ifs
    · exact value_call_connectionsClosed _
    · rfl

/-- As long as no connection is closed, none is recorded as closed. -/
theorem sum_recordStats_of_not_closed (h : connectionsClosed.value recording.requestInfo = 0) :
    connectionsClosed.sum (recordStats stream endStream stats recording).recorded =
      connectionsClosed.sum recording.recorded := by
  induction stats generalizing recording with
  | nil => rfl
  | cons stat stats ih =>
    rw [recordStats]
    unfold recordStat
    split_ifs
    · have hrecord : connectionsClosed.value (stat.record stream recording).requestInfo = 0 :=
        (value_call_connectionsClosed _).trans h
      rw [ih hrecord, sum_record, h, ite_self, UInt64.add_zero]
    · exact ih h

/-- The last report takes all values away for which there is a metric. -/
theorem value_recordStats_end (hm : m ≠ connectionsClosed) :
    m.value (recordStats stream true stats recording).requestInfo =
      if m.extractor ∈ stats.map SimpleStat.valueFn then 0
      else m.value recording.requestInfo := by
  induction stats generalizing recording with
  | nil => rfl
  | cons stat stats ih =>
    have hrecord : m.value (recordStat stream true stat recording).requestInfo =
        if stat.valueFn = m.extractor then 0 else m.value recording.requestInfo :=
      value_call _ hm
    rw [recordStats, ih, hrecord, List.map_cons]
    by_cases hstat : stat.valueFn = m.extractor
    · rw [if_pos hstat, ite_self, hstat, if_pos List.mem_cons_self]
    · rw [if_neg hstat]
      simp only [List.mem_cons, Ne.symm hstat, false_or]

theorem sum_connectionsClosed_end
    (honce : (stats.map SimpleStat.valueFn).count connectionsClosed.extractor ≤ 1) :
    connectionsClosed.sum (recordStats stream true stats recording).recorded =
      connectionsClosed.sum recording.recorded +
        if connectionsClosed.extractor ∈ stats.map SimpleStat.valueFn then
          connectionsClosed.value recording.requestInfo
        else 0 := by
  induction stats generalizing recording with
  | nil => exact (UInt64.add_zero _).symm
  | cons stat stats ih =>
    have hstep : recordStats stream true (stat :: stats) recording =
        recordStats stream true stats (stat.record stream recording) := rfl
    have hvalue : connectionsClosed.value (stat.record stream recording).requestInfo =
        connectionsClosed.value recording.requestInfo := value_call_connectionsClosed _
    rw [List.map_cons] at honce ⊢
    by_cases hstat : stat.valueFn = connectionsClosed.extractor
    · rw [hstat, List.count_cons_self] at honce
      have hnotMem : connectionsClosed.extractor ∉ stats.map SimpleStat.valueFn :=
        List.count_eq_zero.1 (by omega)
      rw [hstep, ih (by omega), if_neg hnotMem, sum_record, if_pos hstat, hstat,
        if_pos List.mem_cons_self, UInt64.add_zero]
    · rw [List.count_cons_of_ne hstat] at honce
      rw [hstep, ih honce, sum_record, if_neg hstat, UInt64.add_zero, hvalue]
      simp only [List.mem_cons, Ne.symm hstat, false_or]

/-- What the last report records for a metric. -/
theorem sum_recordStats_end
    (honce : (stats.map SimpleStat.valueFn).count connectionsClosed.extractor ≤ 1) :
    m.sum (recordStats stream true stats recording).recorded =
      m.sum recording.recorded +
        if m.extractor ∈ stats.map SimpleStat.valueFn then m.value recording.requestInfo
        else 0 := by
  by_cases hm : m = connectionsClosed
  · rw [hm]
    exact sum_connectionsClosed_end honce
  · have hbalance : m.sum (recordStats stream true stats recording).recorded +
          m.value (recordStats stream true stats recording).requestInfo =
        m.sum recording.recorded + m.value recording.requestInfo := balance_recordStats hm
    rw [value_recordStats_end hm] at hbalance
    split_ifs at hbalance ⊢
    · rw [UInt64.add_zero] at hbalance
      exact hbalance
    · rw [UInt64.add_zero]
      exact (UInt64.add_left_inj _).1 hbalance

/-! ### Reports of TCP streams -/

variable {libraries : Libraries} {plugin : PluginRootContext} {call : ReportCall}

/-- Two requests have accumulated the same. -/
structure SameTcp (requestInfo requestInfo' : RequestInfo) : Prop where
  sent : requestInfo.tcpSentBytes = requestInfo'.tcpSentBytes
  received : requestInfo.tcpReceivedBytes = requestInfo'.tcpReceivedBytes
  opened : requestInfo.tcpConnectionsOpened = requestInfo'.tcpConnectionsOpened
  closed : requestInfo.tcpConnectionsClosed = requestInfo'.tcpConnectionsClosed

theorem SameTcp.trans {r₁ r₂ r₃ : RequestInfo} (h : SameTcp r₁ r₂) (h' : SameTcp r₂ r₃) :
    SameTcp r₁ r₃ :=
  ⟨h.sent.trans h'.sent, h.received.trans h'.received, h.opened.trans h'.opened,
    h.closed.trans h'.closed⟩

theorem SameTcp.value_eq {requestInfo' : RequestInfo} (h : SameTcp requestInfo requestInfo') :
    m.value requestInfo = m.value requestInfo' := by
  cases m with
  | sentBytes => exact h.sent
  | receivedBytes => exact h.received
  | connectionsOpened => exact congrArg UInt8.toUInt64 h.opened
  | connectionsClosed => exact congrArg UInt8.toUInt64 h.closed

theorem sameTcp_populateDestinationService {access : StreamAccess} {outbound fallback : Bool} :
    SameTcp (populateDestinationService access outbound fallback requestInfo) requestInfo := by
  unfold populateDestinationService
  dsimp only
  split
  · exact ⟨rfl, rfl, rfl, rfl⟩
  split
  · exact ⟨rfl, rfl, rfl, rfl⟩
  split
  · exact ⟨rfl, rfl, rfl, rfl⟩
  split <;> exact ⟨rfl, rfl, rfl, rfl⟩

theorem sameTcp_populateRequestInfo {access : StreamAccess} {outbound fallback : Bool} :
    SameTcp (populateRequestInfo access outbound fallback requestInfo) requestInfo := by
  unfold populateRequestInfo
  dsimp only
  split
  · exact ⟨rfl, rfl, rfl, rfl⟩
  split <;>
    exact ⟨sameTcp_populateDestinationService.sent, sameTcp_populateDestinationService.received,
      sameTcp_populateDestinationService.opened, sameTcp_populateDestinationService.closed⟩

theorem sameTcp_populateTCPRequestInfo {access : StreamAccess} {outbound : Bool} :
    SameTcp (populateTCPRequestInfo access outbound requestInfo) requestInfo := by
  have hflag : SameTcp (populateResponseFlag access (populateRequestInfo access outbound false
      requestInfo)) (populateRequestInfo access outbound false requestInfo) := by
    unfold populateResponseFlag
    split <;> exact ⟨rfl, rfl, rfl, rfl⟩
  have hsame := hflag.trans sameTcp_populateRequestInfo
  exact ⟨hsame.sent, hsame.received, hsame.opened, hsame.closed⟩

/-- Populating the request of a TCP stream leaves what it has accumulated. -/
theorem sameTcp_populate (htcp : call.requestInfo.requestProtocol = .TCP)
    (h : populate libraries plugin call (peerOf libraries plugin call) = some requestInfo) :
    SameTcp requestInfo call.requestInfo ∧ requestInfo.requestProtocol = .TCP := by
  unfold populate at h
  dsimp only at h
  rw [if_pos htcp] at h
  split_ifs at h
  rw [← Option.some.inj h]
  exact ⟨sameTcp_populateTCPRequestInfo, rfl⟩

variable (libraries plugin) in
/-- The last report does not wait for the peer. -/
theorem exists_populate (htcp : call.requestInfo.requestProtocol = .TCP)
    (hend : call.endStream = true) :
    ∃ requestInfo, populate libraries plugin call (peerOf libraries plugin call) =
      some requestInfo := by
  unfold populate
  dsimp only
  rw [if_pos htcp, hend]
  exact ⟨_, if_neg (by simp)⟩

variable {r : Report}

/-- What a report of a TCP stream records, and what it leaves for the next one. -/
structure Moves (call : ReportCall) (r : Report) : Prop where
  protocol : r.recording.requestInfo.requestProtocol = .TCP
  balance : ∀ m, m ≠ connectionsClosed →
    m.sum r.recording.recorded + m.value r.recording.requestInfo = m.value call.requestInfo
  notClosed : connectionsClosed.value call.requestInfo = 0 →
    connectionsClosed.sum r.recording.recorded = 0 ∧
      connectionsClosed.value r.recording.requestInfo = 0

theorem requestProtocol_recordStats :
    (recordStats stream endStream stats recording).requestInfo.requestProtocol =
      recording.requestInfo.requestProtocol := by
  induction stats generalizing recording with
  | nil => rfl
  | cons stat stats ih => rw [recordStats, ih, recordStat_requestProtocol]

theorem moves_report (htcp : call.requestInfo.requestProtocol = .TCP)
    (hreport : report libraries plugin call = some r) : Moves call r := by
  rcases report_inversion hreport with ⟨-, -, rfl⟩ |
    ⟨requestInfo, d, stats, hfound, -, hrecording, -⟩
  · exact ⟨htcp, fun m _ => UInt64.zero_add _, fun h => ⟨rfl, h⟩⟩
  · obtain ⟨hsame, hprotocol⟩ := sameTcp_populate htcp (foundStats_eq_some hfound).1
    refine ⟨?_, fun m hm => ?_, fun h => ⟨?_, ?_⟩⟩
    · rw [hrecording, requestProtocol_recordStats]
      exact hprotocol
    · rw [hrecording, balance_recordStats hm, sum_nil, UInt64.zero_add, hsame.value_eq]
    · rw [hrecording, sum_recordStats_of_not_closed (hsame.value_eq.trans h), sum_nil]
    · rw [hrecording, connectionsClosed_recordStats, hsame.value_eq]
      exact h

/-- The last report records what is left of the metrics that it finds. -/
theorem sum_last_report (htcp : call.requestInfo.requestProtocol = .TCP)
    (hend : call.endStream = true) (hinit : plugin.initialized = true)
    (hreport : report libraries plugin call = some r) :
    ∃ requestInfo d stats, foundStats libraries plugin call = some (requestInfo, d, stats) ∧
      protocolOf d = .TCP ∧
      (plugin.metrics d = some stats ∨
        plugin.metrics d = none ∧ statsOf plugin.stats d = some stats) ∧
      ((stats.map SimpleStat.valueFn).count connectionsClosed.extractor ≤ 1 →
        ∀ m : TcpMetric, m.sum r.recording.recorded =
          if m.extractor ∈ stats.map SimpleStat.valueFn then m.value call.requestInfo else 0) := by
  rcases report_inversion hreport with ⟨hskip, -, -⟩ |
    ⟨requestInfo, d, stats, hfound, -, hrecording, hstats⟩
  · obtain ⟨requestInfo, hpopulate⟩ := exists_populate libraries plugin htcp hend
    rw [hinit, hpopulate] at hskip
    rcases hskip with h | h <;> cases h
  · obtain ⟨hpopulate, hprotocol⟩ := foundStats_eq_some hfound
    obtain ⟨hsame, htcp'⟩ := sameTcp_populate htcp hpopulate
    refine ⟨requestInfo, d, stats, hfound, hprotocol.trans htcp', ?_, fun honce m => ?_⟩
    · rcases hstats with ⟨h, -⟩ | ⟨h, h', -⟩
      · exact .inl h
      · exact .inr ⟨h, h'⟩
    · rw [hrecording, hend, sum_recordStats_end honce, sum_nil, UInt64.zero_add]
      simp only [hsame.value_eq]

end TcpMetric

/-! ### Generators of TCP metrics -/

section

variable {root : RootContext} {statgens : List StatGen} {factories : List MetricFactory}
  {stats : List SimpleStat} {d : IstioDimensions} {statgen : StatGen} {m : TcpMetric}

/-- The default metric with the extractor of a TCP metric. -/
def TcpMetric.factory (m : TcpMetric) : MetricFactory where
  name :=
    match m with
    | sentBytes => bytes "tcp_sent_bytes_total"
    | receivedBytes => bytes "tcp_received_bytes_total"
    | connectionsOpened => bytes "tcp_connections_opened_total"
    | connectionsClosed => bytes "tcp_connections_closed_total"
  type := .Counter
  extractor := m.extractor
  protocols := Protocol.toUInt32 .TCP
  countLabels := countTcpLabels
  recurrent := m ≠ connectionsClosed

theorem TcpMetric.mem_defaultMetrics (m : TcpMetric) : m.factory ∈ defaultMetrics := by
  cases m <;> decide +kernel

/-- What is recorded by the extractor of a TCP metric is recorded for that metric, for TCP. -/
theorem RootContext.Wf.tcp (h : root.Wf) (hmem : statgen ∈ root.stats)
    (hextractor : statgen.extractor = m.extractor) :
    statgen.metric.name = bytes "istio_" ++ m.factory.name ∧ statgen.matchesProtocol .TCP := by
  have hbuilt : Built root.stats := h.stats
  have hinst := hbuilt.instantiates hmem m.mem_defaultMetrics hextractor
  refine ⟨hinst.name, ?_⟩
  unfold StatGen.matchesProtocol
  rw [hinst.protocols]
  show (Protocol.toUInt32 .TCP &&& Protocol.toUInt32 .TCP != 0) = true
  decide

theorem RootContext.Wf.count_statsOf_le_one (h : root.Wf)
    (hstats : statsOf root.stats d = some stats) :
    (stats.map SimpleStat.valueFn).count m.extractor ≤ 1 :=
  Built.count_statsOf_le_one h.stats m.mem_defaultMetrics hstats

theorem RootContext.Wf.mem_statsOf (h : root.Wf) (hprotocol : protocolOf d = .TCP)
    (hstats : statsOf root.stats d = some stats)
    (hkept : ∃ statgen ∈ root.stats, statgen.extractor = m.extractor) :
    m.extractor ∈ stats.map SimpleStat.valueFn := by
  have hmatches : m.factory.protocols &&& (protocolOf d).toUInt32 ≠ 0 := by
    rw [hprotocol]
    exact show Protocol.toUInt32 .TCP &&& Protocol.toUInt32 .TCP ≠ 0 by decide
  exact Built.mem_statsOf h.stats m.mem_defaultMetrics hmatches hstats hkept

end

end Stats

end WasmExtensions
