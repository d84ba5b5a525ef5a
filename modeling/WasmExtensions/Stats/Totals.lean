import WasmExtensions.Stats.HttpCounts

/-!
# Totals over all streams

Whoever reads the metrics sees sums over all streams.  Each HTTP metric has been recorded once for
every HTTP or gRPC stream that has ended so far, however the streams and the ticks are interleaved
(`requests_counted`).

The connections that are open are read as those opened less those closed.  At no time has more been
recorded as closed than as opened, and no more as opened than there have been connections
(`closed_le_opened`).
-/

namespace WasmExtensions

namespace Stats

variable {lib : JsonLibrary} {parseDuration : Bytes → Option UInt32} {libraries : Libraries}
  {s s' : System} {id : UInt32} {stream : Stream} {access : StatsStream} {endStream : Bool}
  {plugin : PluginRootContext} {call : ReportCall} {r : Report}

/-- What has been recorded for all streams. -/
def System.recordedAll (s : System) : List (SimpleStat × UInt64) :=
  s.recorded.map fun record => (record.stat, record.value)

theorem System.recordedAll_report
    (h : s.report libraries id access endStream stream = some s') :
    ∃ r, Stats.report libraries s.root.toPluginRootContext ⟨access, stream.requestInfo, endStream⟩ =
        some r ∧ s'.recordedAll = s.recordedAll ++ r.recording.recorded := by
  obtain ⟨r, hreport, rfl⟩ := Option.map_eq_some_iff.1 h
  refine ⟨r, hreport, ?_⟩
  unfold recordedAll
  rw [List.map_append, List.map_map]
  exact congrArg _ (List.map_id _)

/-! ### Requests -/

section

variable {requestInfo : RequestInfo} {d : IstioDimensions} {stats : List SimpleStat}
  {statgens : List StatGen} {m : HttpMetric}
  {outbound fallback : Bool}

theorem requestProtocol_populateGRPCInfo {access : StreamAccess} :
    (populateGRPCInfo libraries access requestInfo).2.requestProtocol =
      requestInfo.requestProtocol := by
  unfold populateGRPCInfo
  dsimp only
  split
  · split_ifs <;> rfl
  · rfl

/-- The last report of an HTTP stream takes the protocol from the content type. -/
theorem requestProtocol_populateHTTPRequestInfo {access : StreamAccess} :
    (populateHTTPRequestInfo libraries access outbound fallback requestInfo).requestProtocol =
      contentProtocol access := by
  have hgrpc (pre : RequestInfo) (grpcStatus : UInt32) :
      (if pre.requestProtocol = .GRPC then
        (populateGRPCInfo libraries access { pre with grpcStatus := grpcStatus }).2
      else pre).requestProtocol = pre.requestProtocol := by
    split_ifs
    · exact requestProtocol_populateGRPCInfo
    · rfl
  have hrequest (pre : RequestInfo) :
      (populateRequestInfo access outbound fallback pre).requestProtocol = pre.requestProtocol :=
    sameMessages_populateRequestInfo.protocol
  unfold populateHTTPRequestInfo
  refine (hgrpc _ _).trans (sameMessages_populateResponseFlag.protocol.trans ?_)
  split
  · exact hrequest _
  · exact hrequest _

/-- The request of a stream that is not a TCP stream is an HTTP or gRPC request in the end. -/
theorem requestProtocol_populate_end (hhttp : call.requestInfo.requestProtocol ≠ .TCP)
    (hend : call.endStream = true) {peer : PeerNodeInfo}
    (h : populate libraries plugin call peer = some requestInfo) :
    requestInfo.requestProtocol = .HTTP ∨ requestInfo.requestProtocol = .GRPC := by
  unfold populate at h
  dsimp only at h
  rw [if_neg hhttp, if_pos hend] at h
  rw [← Option.some.inj h, requestProtocol_populateHTTPRequestInfo]
  unfold contentProtocol
  split_ifs
  · exact .inr rfl
  · exact .inl rfl

/-- The default metric is neither dropped nor redefined. -/
structure KeepsHttpMetric (m : HttpMetric) (statgens : List StatGen) : Prop where
  built : Built statgens
  kept : ∃ statgen ∈ statgens, statgen.extractor = m.extractor

/-- HTTP metrics are not found for TCP. -/
theorem Built.not_mem_statsOf_tcp (h : Built statgens) (hprotocol : protocolOf d = .TCP)
    (hstats : statsOf statgens d = some stats) :
    m.extractor ∉ stats.map SimpleStat.valueFn := by
  intro hmem
  obtain ⟨stat, hstat, hvalueFn⟩ := List.mem_map.1 hmem
  obtain ⟨statgen, hstatgen, hresolve⟩ := exists_of_mem_mapM hstats hstat
  obtain ⟨hmem, hmatches⟩ := List.mem_filter.1 hstatgen
  have hextractor : statgen.extractor = m.extractor := by
    obtain ⟨metricId, -, rfl⟩ := Option.map_eq_some_iff.1 hresolve
    exact hvalueFn
  have hprotocols := (h.instantiates hmem m.mem_defaultMetrics hextractor).protocols
  rw [StatGen.matchesProtocol, hprotocols, hprotocol] at hmatches
  have hnone : (httpAndGrpc &&& Protocol.toUInt32 .TCP != 0) = false := by decide
  exact absurd (hnone.symm.trans hmatches) Bool.false_ne_true

/-- **The last report of an HTTP stream records the metric once**, and no other report does. -/
theorem HttpMetric.times_report (hcached : CachedFrom (KeepsHttpMetric m) plugin)
    (hkept : plugin.initialized = true → KeepsHttpMetric m plugin.stats)
    (hreport : report libraries plugin call = some r) :
    m.times r.recording.recorded =
      if plugin.initialized = true ∧ call.endStream = true ∧
        call.requestInfo.requestProtocol ≠ .TCP then 1 else 0 := by
  rcases report_inversion hreport with ⟨hskip, -, rfl⟩ |
    ⟨requestInfo, d, stats, hfound, -, hrecording, -⟩
  · rw [if_neg]
    · rfl
    · rintro ⟨hinit, -, hhttp⟩
      obtain ⟨requestInfo, hpopulate⟩ := exists_populate_of_http libraries plugin call
        (peerOf libraries plugin call) hhttp
      rw [hinit, hpopulate] at hskip
      rcases hskip with hskip | hskip <;> cases hskip
  · have hinit : plugin.initialized = true := by
      simpa using (Option.ite_none_left_eq_some.1 hfound).1
    obtain ⟨hpopulate, hprotocol⟩ := foundStats_eq_some hfound
    obtain ⟨statgens, hkeeps, hstats⟩ := hcached.found hkept hfound
    have hof (stat : SimpleStat) (hmem : stat ∈ stats) (hvalueFn : stat.valueFn = m.extractor) :=
      hkeeps.built.of_valueFn m.mem_defaultMetrics hstats hmem hvalueFn
    have hcount : (stats.map SimpleStat.valueFn).count m.extractor ≤ 1 :=
      hkeeps.built.count_statsOf_le_one m.mem_defaultMetrics hstats
    cases hend : call.endStream with
    | false =>
      rw [hend] at hrecording
      rw [hrecording, times_recordStats_of_recurrent fun stat hmem hvalueFn =>
        (hof stat hmem hvalueFn).1, if_neg (by simp)]
      rfl
    | true =>
      rw [hend] at hrecording
      rw [hrecording, times_recordStats_end fun stat hmem hvalueFn => (hof stat hmem hvalueFn).2,
        times_nil, Nat.zero_add]
      by_cases htcp : call.requestInfo.requestProtocol = .TCP
      · have htcp' := (TcpMetric.sameTcp_populate htcp hpopulate).2
        rw [if_neg fun h => h.2.2 htcp]
        exact List.count_eq_zero.2
          (hkeeps.built.not_mem_statsOf_tcp (hprotocol.trans htcp') hstats)
      · rw [if_pos ⟨hinit, rfl, htcp⟩]
        have hmatches : m.factory.protocols &&& (protocolOf d).toUInt32 ≠ 0 := by
          show httpAndGrpc &&& (protocolOf d).toUInt32 ≠ 0
          rw [hprotocol]
          rcases requestProtocol_populate_end htcp hend hpopulate with h | h <;> (rw [h]; decide)
        have hmem : m.extractor ∈ stats.map SimpleStat.valueFn :=
          hkeeps.built.mem_statsOf m.mem_defaultMetrics hmatches hstats hkeeps.kept
        exact Nat.le_antisymm hcount (List.count_pos_iff.2 hmem)

/-- The configurations, if they can be parsed, keep the metric. -/
def KeepsHttpCallback (lib : JsonLibrary) (m : HttpMetric) : Callback → Prop
  | .onConfigure call => ∀ j, jsonParse lib call.configuration = some j →
      KeepsMetric j m.factory.name
  | _ => True

/-- The HTTP or gRPC stream that ends with a callback, if the plugin is initialized. -/
def System.requestEnded (s : System) : Callback → List UInt32
  | .onLog id _ =>
    match s.streams id with
    | none => []
    | some stream =>
      if s.root.initialized = true ∧ stream.requestInfo.requestProtocol ≠ .TCP then [id] else []
  | _ => []

/-- The metric has been recorded once for each of the streams that have ended, so far as the plugin
was initialized. -/
structure System.CountedOnce (m : HttpMetric) (ended : List UInt32) (s : System) : Prop where
  ok : s.Ok
  kept : s.root.initialized = true → KeepsHttpMetric m s.root.stats
  cached : CachedFrom (KeepsHttpMetric m) s.root.toPluginRootContext
  times : m.times s.recordedAll = ended.length
  nodup : ended.Nodup
  finished : ∀ id ∈ ended, Finished id s

variable {ended : List UInt32} {callback : Callback}

theorem kept_onConfigure {call : ConfigureCall} (hok : s.Ok)
    (hkeeps : ∀ j, jsonParse lib call.configuration = some j → KeepsMetric j m.factory.name)
    (hinit : (s.onConfigure lib parseDuration call).root.initialized = true) :
    KeepsHttpMetric m (s.onConfigure lib parseDuration call).root.stats := by
  have hok' : (s.onConfigure lib parseDuration call).Ok := hok.onConfigure
  refine ⟨hok'.wf.stats, ?_⟩
  show ∃ statgen ∈ (Stats.onConfigure lib parseDuration call s.root s.host).1.stats, _
  change (Stats.onConfigure lib parseDuration call s.root s.host).1.initialized = true at hinit
  cases hparse : jsonParse lib call.configuration with
  | none =>
    rw [onConfigure_of_not_parsed hparse] at hinit
    cases hinit
  | some j =>
    obtain ⟨fieldSeparator, valueSeparator, hstats⟩ :=
      (onConfigure_of_parsed parseDuration s.root s.host hparse).stats
    rw [hstats]
    exact ⟨_, List.mem_map_of_mem (mem_buildMetrics m.mem_defaultMetrics (hkeeps j hparse)), rfl⟩

/-- What a report of a stream adds to the total. -/
theorem HttpMetric.times_system_report
    (hkept : s.root.initialized = true → KeepsHttpMetric m s.root.stats)
    (hcached : CachedFrom (KeepsHttpMetric m) s.root.toPluginRootContext)
    (hreport : s.report libraries id access endStream stream = some s') :
    (m.times s'.recordedAll = m.times s.recordedAll +
      if s.root.initialized = true ∧ endStream = true ∧
        stream.requestInfo.requestProtocol ≠ .TCP then 1 else 0) ∧
      (s'.root.initialized = true → KeepsHttpMetric m s'.root.stats) ∧
      CachedFrom (KeepsHttpMetric m) s'.root.toPluginRootContext := by
  obtain ⟨r, hr, hrecorded⟩ := System.recordedAll_report hreport
  obtain ⟨hstats, hinit⟩ := System.stats_report hreport
  refine ⟨?_, ?_, hcached.system_report hkept hreport⟩
  · rw [hrecorded, times_append, times_report hcached hkept hr]
  · rw [hstats, hinit]
    exact hkept

theorem System.CountedOnce.onLog (h : s.CountedOnce m ended) (hstream : s.streams id = some stream)
    (hphase : stream.phase ≠ .logged) (hlog : s.onLog libraries id access stream = some s')
    (hn : (statsMachine lib parseDuration libraries).next s (.onLog id access) = some s') :
    s'.CountedOnce m (ended ++ s.requestEnded (.onLog id access)) := by
  have hprotocol : stream.onLog.requestInfo.requestProtocol =
      stream.requestInfo.requestProtocol := by
    unfold Stream.onLog
    dsimp only
    split_ifs <;> rfl
  obtain ⟨htimes, hkept, hcached⟩ :=
    HttpMetric.times_system_report (s := s.deleteFromRequestQueue id) h.kept h.cached hlog
  have hfinished : Finished id s' := h.ok.finished hstream hlog
  have hnew : id ∉ ended := fun hmem => hphase ((h.finished id hmem).logged stream hstream)
  have hstill : ∀ id' ∈ ended, Finished id' s' := fun id' hmem =>
    ((h.finished id' hmem).next hn).1
  have hsame : (s.deleteFromRequestQueue id).recordedAll = s.recordedAll := rfl
  rw [hsame, h.times, hprotocol] at htimes
  simp only [requestEnded, hstream]
  by_cases hcounted : s.root.initialized = true ∧ stream.requestInfo.requestProtocol ≠ .TCP
  · rw [if_pos hcounted]
    rw [if_pos ⟨hcounted.1, rfl, hcounted.2⟩] at htimes
    refine ⟨h.ok.next hn, hkept, hcached, ?_, ?_, ?_⟩
    · rw [htimes, List.length_append, List.length_singleton]
    · exact List.concat_eq_append ▸ h.nodup.concat hnew
    · intro id' hmem
      rcases List.mem_append.1 hmem with hmem | hmem
      · exact hstill id' hmem
      · exact List.mem_singleton.1 hmem ▸ hfinished
  · rw [if_neg hcounted, List.append_nil]
    rw [if_neg fun hall => hcounted ⟨hall.1, hall.2.2⟩] at htimes
    exact ⟨h.ok.next hn, hkept, hcached, htimes, h.nodup, hstill⟩

/-- The reports of a tick add nothing. -/
theorem HttpMetric.times_ticking
    (hkept : s.root.initialized = true → KeepsHttpMetric m s.root.stats)
    (hcached : CachedFrom (KeepsHttpMetric m) s.root.toPluginRootContext)
    {items : List (UInt32 × StatsStream)}
    (hrun : (ticking libraries).run (fun _ _ => True) s items = some s') :
    m.times s'.recordedAll = m.times s.recordedAll ∧
      (s'.root.initialized = true → KeepsHttpMetric m s'.root.stats) ∧
      CachedFrom (KeepsHttpMetric m) s'.root.toPluginRootContext := by
  refine ticking_invariant (I := fun t => m.times t.recordedAll = m.times s.recordedAll ∧
    (t.root.initialized = true → KeepsHttpMetric m t.root.stats) ∧
      CachedFrom (KeepsHttpMetric m) t.root.toPluginRootContext) hrun ⟨rfl, hkept, hcached⟩
    fun t id access stream t' _ ⟨htimes, hkept, hcached⟩ _ hreport => ?_
  obtain ⟨htimes', hkept', hcached'⟩ := times_system_report hkept hcached hreport
  rw [if_neg fun h => Bool.false_ne_true h.2.1, Nat.add_zero] at htimes'
  exact ⟨htimes'.trans htimes, hkept', hcached'⟩

theorem System.CountedOnce.next (h : s.CountedOnce m ended)
    (hkeeps : KeepsHttpCallback lib m callback)
    (hn : (statsMachine lib parseDuration libraries).next s callback = some s') :
    s'.CountedOnce m (ended ++ s.requestEnded callback) := by
  have hok := h.ok.next hn
  have hfinished : ∀ id ∈ ended, Finished id s' := fun id hmem => ((h.finished id hmem).next hn).1
  have hnil (hcounted : s'.CountedOnce m ended) : s'.CountedOnce m (ended ++ []) :=
    (List.append_nil ended).symm ▸ hcounted
  cases callback with
  | onLog id access =>
    obtain ⟨stream, hstream, hphase, hlog⟩ := exists_stream hn
    exact h.onLog hstream hphase hlog hn
  | onTick items =>
    obtain ⟨htimes, hkept, hcached⟩ :=
      HttpMetric.times_ticking h.kept h.cached (perm_of_onTick hn).2
    exact hnil ⟨hok, hkept, hcached, htimes.trans h.times, h.nodup, hfinished⟩
  | onConfigure call =>
    cases hn
    refine hnil ⟨hok, kept_onConfigure h.ok hkeeps, ?_, h.times, h.nodup, hfinished⟩
    intro d stats hcached
    exact h.cached d stats (metrics_onConfigure ▸ hcached)
  | onDone =>
    cases hn
    exact hnil ⟨hok, h.kept, h.cached, h.times, h.nodup, hfinished⟩
  | onCreate | onRequestHeaders | onResponseHeaders | onNewConnection | onDownstreamData
  | onUpstreamData | onDelete =>
    rcases next_cases hn with hsame | ⟨_, ⟨⟩, _⟩ | ⟨_, _, _, ⟨⟩, _⟩ | ⟨_, ⟨⟩, _⟩ | ⟨⟨⟩, _⟩
    refine hnil ⟨hok, ?_, ?_, ?_, h.nodup, hfinished⟩
    · rw [hsame.root]
      exact h.kept
    · rw [hsame.root]
      exact h.cached
    · unfold recordedAll
      rw [hsame.recorded]
      exact h.times

/-- **Each HTTP metric has been recorded once for every request that has ended**, over all streams
and dimensions, after every run in which no configuration drops or redefines it: as often as `onLog`
was called for a stream that is not a TCP stream while the plugin was initialized, and never twice
for one stream. -/
theorem requests_counted {outbound useHostHeaderFallback : Bool} {callbacks : List Callback}
    (m : HttpMetric) (hkeeps : ∀ callback ∈ callbacks, KeepsHttpCallback lib m callback)
    (hrun : (statsMachine lib parseDuration libraries).run (fun _ _ => True)
      (.start outbound useHostHeaderFallback) callbacks = some s) :
    m.times s.recordedAll = ((statsMachine lib parseDuration libraries).outputs System.requestEnded
        (.start outbound useHostHeaderFallback) callbacks).length ∧
      ((statsMachine lib parseDuration libraries).outputs System.requestEnded
        (.start outbound useHostHeaderFallback) callbacks).Nodup := by
  have hstart : (System.start outbound useHostHeaderFallback).CountedOnce m [] := by
    refine ⟨System.ok_start, ?_, .new, rfl, List.nodup_nil, ?_⟩
    · intro hinit
      cases hinit
    · intro id hmem
      cases hmem
  have hcounted := Machine.outputs_invariant (I := fun ended t => t.CountedOnce m ended)
    (C := KeepsHttpCallback lib m) hstart (fun _ _ _ _ ht hC hn => ht.next hC hn) hkeeps hrun
  exact ⟨hcounted.times, hcounted.nodup⟩

/-- Two requests and a connection between them. -/
def mixedStreams : List Callback :=
  [.onConfigure (sampleConfigure (bytes "\x7b\x7d") []), .onCreate 1 0 0, .onCreate 2 0 0,
    .onCreate 3 0 0, .onRequestHeaders 1 sampleCall.stream.toStreamAccess, .onNewConnection 3,
    .onRequestHeaders 2 sampleCall.stream.toStreamAccess, .onResponseHeaders 1,
    .onTick [(3, sampleCall.stream), (1, sampleCall.stream)], .onLog 1 sampleCall.stream,
    .onLog 3 sampleCall.stream, .onLog 2 sampleCall.stream]

/-- They are configured with an empty object, which keeps all metrics. -/
theorem keepsMetric_mixedStreams {call : ConfigureCall} (hmem : .onConfigure call ∈ mixedStreams)
    {j : Json} (hparse : jsonParse sampleJson call.configuration = some j) (name : Bytes) :
    KeepsMetric j name := by
  have hempty : jsonParse sampleJson (bytes "\x7b\x7d") = some (.object []) := rfl
  simp only [mixedStreams, List.mem_cons, Callback.onConfigure.injEq, reduceCtorEq,
    List.not_mem_nil, or_false] at hmem
  rw [hmem] at hparse
  obtain rfl := Option.some.inj (hempty.symm.trans hparse)
  exact ⟨(fun _ h => nomatch h), fun _ h => nomatch h⟩

theorem requests_counted_mixed : ∃ s,
    sampleMachine.run (fun _ _ => True) (.start false true) mixedStreams = some s ∧
      sampleMachine.outputs System.requestEnded (.start false true) mixedStreams = [1, 2] ∧
      HttpMetric.requestsTotal.times s.recordedAll = 2 := by
  have hended : sampleMachine.outputs System.requestEnded (.start false true) mixedStreams =
      [1, 2] := by
    decide +kernel
  have hrun : (sampleMachine.run (fun _ _ => True) (.start false true) mixedStreams).isSome := by
    decide +kernel
  obtain ⟨s, hs⟩ := Option.isSome_iff_exists.1 hrun
  have hkeeps : ∀ callback ∈ mixedStreams,
      KeepsHttpCallback sampleJson .requestsTotal callback := by
    intro callback hmem
    cases callback with
    | onConfigure call => exact fun j hparse => keepsMetric_mixedStreams hmem hparse _
    | _ => trivial
  have htimes := (requests_counted .requestsTotal hkeeps hs).1
  rw [hended] at htimes
  exact ⟨s, hs, hended, htimes⟩

end

/-! ### Connections -/

namespace TcpMetric

variable {m : TcpMetric} {requestInfo : RequestInfo} {recording : Recording} {stat : SimpleStat}
  {stats : List SimpleStat} {recorded recorded' : List (SimpleStat × UInt64)}
  {outbound fallback : Bool}

/-- The sum of the values recorded for the metric, as a natural number. -/
def total (m : TcpMetric) (recorded : List (SimpleStat × UInt64)) : ℕ :=
  (recorded.map fun record => if record.1.valueFn = m.extractor then record.2.toNat else 0).sum

@[simp] theorem total_nil : m.total [] = 0 := rfl

@[simp] theorem total_append :
    m.total (recorded ++ recorded') = m.total recorded + m.total recorded' := by
  unfold total
  rw [List.map_append, List.sum_append]

/-- A value of zero may not be recorded, which makes no difference to the sum. -/
theorem total_record : m.total (stat.record access recording).recorded =
    m.total recording.recorded +
      if stat.valueFn = m.extractor then (m.value recording.requestInfo).toNat else 0 := by
  have hone : m.total [(stat, (stat.valueFn.call access recording.requestInfo).1)] =
      if stat.valueFn = m.extractor then (m.value recording.requestInfo).toNat else 0 := by
    unfold total
    by_cases hstat : stat.valueFn = m.extractor
    · simp [hstat, call_extractor]
    · simp [hstat]
  rw [← hone]
  unfold SimpleStat.record
  dsimp only
  split_ifs with hzero
  · rw [hone]
    by_cases hstat : stat.valueFn = m.extractor
    · have hvalue := hzero.2
      rw [hstat, call_extractor] at hvalue
      rw [if_pos hstat, hvalue]
      rfl
    · rw [if_neg hstat, Nat.add_zero]
  · exact total_append

/-- Recording moves the value of a metric from the request to what is recorded, without a carry. -/
theorem total_balance (hm : m ≠ connectionsClosed) :
    m.total (recordStats access endStream stats recording).recorded +
        (m.value (recordStats access endStream stats recording).requestInfo).toNat =
      m.total recording.recorded + (m.value recording.requestInfo).toNat := by
  induction stats generalizing recording with
  | nil => rfl
  | cons stat stats ih =>
    rw [recordStats, ih]
    unfold recordStat
    split_ifs
    · have hrecord : m.value (stat.record access recording).requestInfo =
          if stat.valueFn = m.extractor then 0 else m.value recording.requestInfo :=
        value_call _ hm
      rw [total_record, hrecord]
      split_ifs
      · rfl
      · rfl
    · rfl

/-- Each metric for the closing of connections that is found records it once at most. -/
theorem total_closed_le :
    connectionsClosed.total (recordStats access endStream stats recording).recorded ≤
      connectionsClosed.total recording.recorded +
        (stats.map SimpleStat.valueFn).count connectionsClosed.extractor *
          (connectionsClosed.value recording.requestInfo).toNat := by
  induction stats generalizing recording with
  | nil => exact Nat.le_add_right _ _
  | cons stat stats ih =>
    have hvalue : connectionsClosed.value (recordStat access endStream stat recording).requestInfo =
        connectionsClosed.value recording.requestInfo := by
      unfold recordStat
      split_ifs
      · exact value_call_connectionsClosed _
      · rfl
    have htotal : connectionsClosed.total (recordStat access endStream stat recording).recorded ≤
        connectionsClosed.total recording.recorded +
          if stat.valueFn = connectionsClosed.extractor then
            (connectionsClosed.value recording.requestInfo).toNat
          else 0 := by
      unfold recordStat
      by_cases hnow : (endStream || stat.recurrent) = true
      · rw [if_pos hnow]
        exact total_record.le
      · rw [if_neg hnow]
        exact Nat.le_add_right _ _
    rw [recordStats]
    refine Nat.le_trans ih ?_
    rw [hvalue, List.map_cons]
    by_cases hstat : stat.valueFn = connectionsClosed.extractor
    · rw [if_pos hstat] at htotal
      rw [hstat, List.count_cons_self, Nat.succ_mul]
      omega
    · rw [if_neg hstat] at htotal
      rw [List.count_cons_of_ne hstat]
      omega

theorem sameTcp_populateGRPCInfo {access : StreamAccess} :
    SameTcp (populateGRPCInfo libraries access requestInfo).2 requestInfo := by
  unfold populateGRPCInfo
  dsimp only
  split
  · split_ifs <;> exact ⟨rfl, rfl, rfl, rfl⟩
  · exact ⟨rfl, rfl, rfl, rfl⟩

theorem sameTcp_populateResponseFlag {access : StreamAccess} :
    SameTcp (populateResponseFlag access requestInfo) requestInfo := by
  unfold populateResponseFlag
  split <;> exact ⟨rfl, rfl, rfl, rfl⟩

theorem sameTcp_populateHTTPRequestInfo {access : StreamAccess} :
    SameTcp (populateHTTPRequestInfo libraries access outbound fallback requestInfo)
      requestInfo := by
  have hgrpc (pre : RequestInfo) (grpcStatus : UInt32) : SameTcp
      (if pre.requestProtocol = .GRPC then
        (populateGRPCInfo libraries access { pre with grpcStatus := grpcStatus }).2
      else pre) pre := by
    split_ifs
    · have hstatus : SameTcp { pre with grpcStatus := grpcStatus } pre := ⟨rfl, rfl, rfl, rfl⟩
      exact sameTcp_populateGRPCInfo.trans hstatus
    · exact ⟨rfl, rfl, rfl, rfl⟩
  have hrequest (urlPath : Bytes) : SameTcp (populateRequestInfo access outbound fallback
      { populateRequestProtocol access requestInfo with urlPath := urlPath }) requestInfo :=
    have hprotocol : SameTcp { populateRequestProtocol access requestInfo with urlPath := urlPath }
      requestInfo := ⟨rfl, rfl, rfl, rfl⟩
    sameTcp_populateRequestInfo.trans hprotocol
  have hcode (post pre : RequestInfo) (hsame : SameTcp post pre) {operation : Bytes}
      {startTime duration requestSize responseSize : Int64} : SameTcp
      { post with
        requestOperation := operation, startTime := startTime, duration := duration,
        requestSize := requestSize, responseSize := responseSize } pre :=
    ⟨hsame.sent, hsame.received, hsame.opened, hsame.closed⟩
  unfold populateHTTPRequestInfo
  refine hcode _ _ ((hgrpc _ _).trans (sameTcp_populateResponseFlag.trans ?_))
  split
  · exact ⟨(hrequest _).sent, (hrequest _).received, (hrequest _).opened, (hrequest _).closed⟩
  · exact hrequest _

/-- Populating a request leaves what it has accumulated, and its kind. -/
theorem sameTcp_populate_any {peer : PeerNodeInfo}
    (h : populate libraries plugin call peer = some requestInfo) :
    SameTcp requestInfo call.requestInfo ∧
      (requestInfo.requestProtocol = .TCP ↔ call.requestInfo.requestProtocol = .TCP) := by
  unfold populate at h
  dsimp only at h
  split_ifs at h with htcp hwait hend hgrpc
  · rw [← Option.some.inj h]
    exact ⟨sameTcp_populateTCPRequestInfo, iff_of_true rfl htcp⟩
  · rw [← Option.some.inj h, requestProtocol_populateHTTPRequestInfo]
    refine ⟨sameTcp_populateHTTPRequestInfo, iff_of_false ?_ htcp⟩
    unfold contentProtocol
    split_ifs <;> decide
  · rw [← Option.some.inj h, requestProtocol_populateGRPCInfo,
      sameMessages_populateRequestInfo.protocol]
    exact ⟨sameTcp_populateGRPCInfo.trans sameTcp_populateRequestInfo, Iff.rfl⟩
  · rw [← Option.some.inj h, sameMessages_populateRequestInfo.protocol]
    exact ⟨sameTcp_populateRequestInfo, Iff.rfl⟩

/-- What a report does with the connections of a request. -/
structure Accounts (call : ReportCall) (r : Report) : Prop where
  protocol : r.recording.requestInfo.requestProtocol = .TCP ↔
    call.requestInfo.requestProtocol = .TCP
  balance : connectionsOpened.total r.recording.recorded +
      (connectionsOpened.value r.recording.requestInfo).toNat =
    (connectionsOpened.value call.requestInfo).toNat
  closed : connectionsClosed.value r.recording.requestInfo =
    connectionsClosed.value call.requestInfo
  closed_le : connectionsClosed.total r.recording.recorded ≤
    (connectionsClosed.value call.requestInfo).toNat

theorem accounts_report (hreport : report libraries plugin call = some r)
    (honce : ∀ requestInfo d stats,
      foundStats libraries plugin call = some (requestInfo, d, stats) →
        (stats.map SimpleStat.valueFn).count connectionsClosed.extractor ≤ 1) :
    Accounts call r := by
  rcases report_inversion hreport with ⟨-, -, rfl⟩ |
    ⟨requestInfo, d, stats, hfound, -, hrecording, -⟩
  · exact ⟨Iff.rfl, Nat.zero_add _, rfl, Nat.zero_le _⟩
  · obtain ⟨hsame, hprotocol⟩ := sameTcp_populate_any (foundStats_eq_some hfound).1
    refine ⟨?_, ?_, ?_, ?_⟩
    · rw [hrecording, requestProtocol_recordStats]
      exact hprotocol
    · rw [hrecording, total_balance (by decide), total_nil, Nat.zero_add, hsame.value_eq]
    · rw [hrecording, connectionsClosed_recordStats, hsame.value_eq]
    · rw [hrecording]
      refine Nat.le_trans total_closed_le ?_
      rw [total_nil, Nat.zero_add, hsame.value_eq]
      exact Nat.le_trans (Nat.mul_le_mul_right _ (honce requestInfo d stats hfound))
        (Nat.le_of_eq (Nat.one_mul _))

/-- If the last report records a closed connection, then also that it was opened. -/
theorem opened_of_closed (hreport : report libraries plugin call = some r)
    (hend : call.endStream = true)
    (hfinds : ∀ requestInfo d stats,
      foundStats libraries plugin call = some (requestInfo, d, stats) →
        connectionsOpened.extractor ∈ stats.map SimpleStat.valueFn) :
    connectionsClosed.total r.recording.recorded = 0 ∨
      connectionsOpened.value r.recording.requestInfo = 0 := by
  rcases report_inversion hreport with ⟨-, -, rfl⟩ |
    ⟨requestInfo, d, stats, hfound, -, hrecording, -⟩
  · exact .inl rfl
  · rw [hrecording, hend, value_recordStats_end (by decide),
      if_pos (hfinds requestInfo d stats hfound)]
    exact .inr rfl

end TcpMetric

open TcpMetric (connectionsOpened connectionsClosed)

/-- The metrics that a report finds have one for the closing of connections at most. -/
theorem System.Ok.count_closed_le_one (h : s.Ok) {requestInfo : RequestInfo} {d : IstioDimensions}
    {stats : List SimpleStat}
    (hfound : foundStats libraries s.root.toPluginRootContext call = some (requestInfo, d, stats)) :
    (stats.map SimpleStat.valueFn).count connectionsClosed.extractor ≤ 1 := by
  obtain ⟨-, -, hstats⟩ := foundStats_inversion hfound
  cases hcached : s.root.metrics d with
  | some stats' =>
    rw [hcached] at hstats
    obtain rfl := Option.some.inj hstats
    exact h.closedOnce d _ hcached
  | none =>
    rw [hcached] at hstats
    exact h.wf.count_statsOf_le_one hstats

/-- The metrics that a report finds for TCP are complete. -/
theorem RootContext.Complete.found {root : RootContext} (h : root.Complete) (hwf : root.Wf)
    {requestInfo : RequestInfo} {d : IstioDimensions} {stats : List SimpleStat}
    (hfound : foundStats libraries root.toPluginRootContext call = some (requestInfo, d, stats))
    (htcp : call.requestInfo.requestProtocol = .TCP) (m : TcpMetric) :
    m.extractor ∈ stats.map SimpleStat.valueFn := by
  obtain ⟨hpopulate, hprotocol⟩ := foundStats_eq_some hfound
  have htcp' := hprotocol.trans (TcpMetric.sameTcp_populate htcp hpopulate).2
  obtain ⟨-, -, hstats⟩ := foundStats_inversion hfound
  have hinit : root.initialized = true := by
    simpa using (Option.ite_none_left_eq_some.1 hfound).1
  cases hcached : root.metrics d with
  | some stats' =>
    rw [hcached] at hstats
    obtain rfl := Option.some.inj hstats
    exact h.cached d _ hcached htcp' m
  | none =>
    rw [hcached] at hstats
    exact hwf.mem_statsOf htcp' hstats (h.kept hinit m)

/-- The stream of a new connection. -/
def Callback.connection : Callback → Option UInt32
  | .onNewConnection id => some id
  | _ => none

/-- The connection of an open stream has been recorded as opened or not yet, but not as closed. -/
structure Paired (recorded : List (SimpleStat × UInt64)) (stream : Stream) : Prop where
  protocol : stream.requestInfo.requestProtocol = .TCP ↔ stream.phase = .tcp
  opened : connectionsOpened.total recorded +
    (connectionsOpened.value stream.requestInfo).toNat = if stream.phase = .tcp then 1 else 0
  notRecorded : connectionsClosed.total recorded = 0
  notClosed : connectionsClosed.value stream.requestInfo = 0

/-- A connection is recorded as closed only if it has been recorded as opened, and as opened only if
it was made. -/
structure System.ClosedLeOpened (connections : List UInt32) (s : System) : Prop where
  ok : s.Ok
  complete : s.root.Complete
  le : ∀ id, connectionsClosed.total (s.recordedFor id) ≤ connectionsOpened.total (s.recordedFor id)
  made : ∀ id, connectionsOpened.total (s.recordedFor id) ≤ connections.count id
  tcp : ∀ id stream, s.streams id = some stream → stream.phase = .tcp → id ∈ connections
  paired : ∀ id stream, s.streams id = some stream → stream.phase ≠ .logged →
    Paired (s.recordedFor id) stream

variable {connections : List UInt32} {recorded : List (SimpleStat × UInt64)}

theorem Paired.report (h : Paired recorded stream)
    (haccounts : TcpMetric.Accounts ⟨access, stream.requestInfo, endStream⟩ r) :
    Paired (recorded ++ r.recording.recorded)
      { stream with requestInfo := r.recording.requestInfo } := by
  obtain ⟨hprotocol, hbalance, hclosed, hle⟩ := haccounts
  have hzero : (connectionsClosed.value stream.requestInfo).toNat = 0 := by
    rw [h.notClosed]
    rfl
  refine ⟨hprotocol.trans h.protocol, ?_, ?_, hclosed.trans h.notClosed⟩
  · rw [TcpMetric.total_append, Nat.add_assoc, hbalance]
    exact h.opened
  · rw [TcpMetric.total_append, h.notRecorded, Nat.zero_add]
    exact Nat.le_zero.1 (Nat.le_trans hle hzero.le)

theorem Paired.bounds (h : Paired recorded stream)
    (hmade : stream.phase = .tcp → id ∈ connections) :
    connectionsClosed.total recorded ≤ connectionsOpened.total recorded ∧
      connectionsOpened.total recorded ≤ connections.count id := by
  refine ⟨h.notRecorded ▸ Nat.zero_le _, ?_⟩
  have hopened := h.opened
  split_ifs at hopened with htcp
  · have hpos := List.count_pos_iff.2 (hmade htcp)
    omega
  · omega

/-- After the last report, what has been recorded is bounded all the same. -/
theorem Paired.last_report (h : Paired recorded stream) (hok : s.Ok) (hcomplete : s.root.Complete)
    (hmade : stream.phase = .tcp → id ∈ connections)
    (hreport : Stats.report libraries s.root.toPluginRootContext
      ⟨access, stream.onLog.requestInfo, true⟩ = some r) :
    connectionsClosed.total (recorded ++ r.recording.recorded) ≤
        connectionsOpened.total (recorded ++ r.recording.recorded) ∧
      connectionsOpened.total (recorded ++ r.recording.recorded) ≤ connections.count id := by
  obtain ⟨-, hbalance, -, hle⟩ := TcpMetric.accounts_report hreport fun _ _ _ hfound =>
    hok.count_closed_le_one hfound
  have hopened := h.opened
  have hvalue : connectionsOpened.value stream.onLog.requestInfo =
      connectionsOpened.value stream.requestInfo := by
    unfold Stream.onLog
    dsimp only
    split_ifs <;> rfl
  rw [hvalue] at hbalance
  rw [TcpMetric.total_append, TcpMetric.total_append, h.notRecorded]
  by_cases htcp : stream.phase = .tcp
  · have hrequest : stream.onLog.requestInfo =
        { stream.requestInfo with
          tcpConnectionsClosed := stream.requestInfo.tcpConnectionsClosed + 1 } :=
      if_pos (h.protocol.2 htcp)
    have hone : (connectionsClosed.value stream.onLog.requestInfo).toNat = 1 := by
      have hzero : stream.requestInfo.tcpConnectionsClosed = 0 := UInt8.toUInt64_inj.1 h.notClosed
      rw [hrequest]
      show (stream.requestInfo.tcpConnectionsClosed + 1).toUInt64.toNat = 1
      rw [hzero]
      rfl
    have hpos := List.count_pos_iff.2 (hmade htcp)
    rw [if_pos htcp] at hopened
    dsimp only at hle
    rw [hone] at hle
    have hprotocol : stream.onLog.requestInfo.requestProtocol = .TCP := by
      rw [hrequest]
      exact h.protocol.2 htcp
    rcases TcpMetric.opened_of_closed hreport rfl fun _ _ _ hfound =>
      hcomplete.found hok.wf hfound hprotocol connectionsOpened with hnone | hall
    · omega
    · -- nothing is left to be recorded as opened
      rw [hall] at hbalance
      change _ + 0 = _ at hbalance
      omega
  · have hrequest : stream.onLog.requestInfo = stream.requestInfo :=
      if_neg fun heq => htcp (h.protocol.1 heq)
    rw [if_neg htcp] at hopened
    dsimp only at hle
    rw [hrequest, h.notClosed] at hle
    change _ ≤ 0 at hle
    omega

theorem paired_new {startTime duration : Int64} : Paired [] (.new startTime duration) :=
  ⟨iff_of_false (fun h => nomatch h) (fun h => nomatch h), rfl, rfl, rfl⟩

theorem Fresh.paired_onRequestHeaders (h : Fresh stream) {fallback : Bool}
    {headers : StreamAccess} :
    Paired [] (stream.onRequestHeaders fallback headers) := by
  have hsame : TcpMetric.SameTcp (stream.onRequestHeaders fallback headers).requestInfo
      stream.requestInfo := by
    unfold Stream.onRequestHeaders
    dsimp only
    split_ifs <;> exact ⟨rfl, rfl, rfl, rfl⟩
  have hprotocol : (stream.onRequestHeaders fallback headers).requestInfo.requestProtocol =
      contentProtocol headers := by
    unfold Stream.onRequestHeaders
    dsimp only
    split_ifs <;> rfl
  have hphase : (stream.onRequestHeaders fallback headers).phase = .http := rfl
  refine ⟨?_, ?_, rfl, ?_⟩
  · rw [hprotocol, hphase]
    unfold contentProtocol
    split_ifs <;> decide
  · rw [hsame.value_eq, hphase]
    show 0 + stream.requestInfo.tcpConnectionsOpened.toUInt64.toNat = _
    rw [h.opened]
    rfl
  · rw [hsame.value_eq]
    exact congrArg UInt8.toUInt64 h.closed

theorem Fresh.paired_onNewConnection (h : Fresh stream) : Paired [] stream.onNewConnection := by
  refine ⟨iff_of_true rfl rfl, ?_, rfl, congrArg UInt8.toUInt64 h.closed⟩
  show 0 + (stream.requestInfo.tcpConnectionsOpened + 1).toUInt64.toNat = 1
  rw [h.opened]
  rfl

namespace System.ClosedLeOpened

/-- A report of one stream leaves what is recorded for the others. -/
theorem report (h : s.ClosedLeOpened connections) (hok : s'.Ok) (hcomplete : s'.root.Complete)
    (hreport : s.report libraries id access endStream stream = some s')
    (hmade : stream.phase = .tcp → id ∈ connections)
    (hbounds : connectionsClosed.total (s'.recordedFor id) ≤
        connectionsOpened.total (s'.recordedFor id) ∧
      connectionsOpened.total (s'.recordedFor id) ≤ connections.count id)
    (hpaired : ∀ stream', s'.streams id = some stream' → stream'.phase ≠ .logged →
      Paired (s'.recordedFor id) stream') : s'.ClosedLeOpened connections := by
  obtain ⟨r, -, -, -, hstreams, hrecorded⟩ := report_eq_some hreport
  have hsame (id' : UInt32) (hne : id' ≠ id) : s'.recordedFor id' = s.recordedFor id' := by
    rw [hrecorded, if_neg hne, List.append_nil]
  refine ⟨hok, hcomplete, fun id' => ?_, fun id' => ?_, fun id' stream' hstream' hphase => ?_,
    fun id' stream' hstream' hphase => ?_⟩
  · by_cases hid : id' = id
    · exact hid ▸ hbounds.1
    · rw [hsame id' hid]
      exact h.le id'
  · by_cases hid : id' = id
    · exact hid ▸ hbounds.2
    · rw [hsame id' hid]
      exact h.made id'
  · rw [hstreams] at hstream'
    by_cases hid : id' = id
    · rw [hid, Function.update_self] at hstream'
      rw [← Option.some.inj hstream'] at hphase
      exact hid ▸ hmade hphase
    · rw [Function.update_of_ne hid] at hstream'
      exact h.tcp id' stream' hstream' hphase
  · by_cases hid : id' = id
    · subst hid
      exact hpaired stream' hstream' hphase
    · rw [hstreams, Function.update_of_ne hid] at hstream'
      rw [hsame id' hid]
      exact h.paired id' stream' hstream' hphase

/-- An entry of a tick. -/
theorem tickItem (h : s.ClosedLeOpened connections) (hmem : id ∈ s.root.requestQueue)
    (hstream : s.streams id = some stream)
    (hreport : s.report libraries id access false stream = some s') :
    s'.ClosedLeOpened connections := by
  obtain ⟨-, hphases⟩ := h.ok.queued id hmem
  have hopen : stream.phase ≠ .logged := (hphases stream hstream).2
  have hnext : s.tickItem libraries id access = some s' := by
    unfold System.tickItem
    rw [hstream]
    exact hreport
  obtain ⟨r, hr, hroot, -, hstreams, hrecorded⟩ := report_eq_some hreport
  have hpaired := (h.paired id stream hstream hopen).report
    (TcpMetric.accounts_report hr fun _ _ _ hfound => h.ok.count_closed_le_one hfound)
  have hself : s'.recordedFor id = s.recordedFor id ++ r.recording.recorded := by
    rw [hrecorded, if_pos rfl]
  have hmade := h.tcp id stream hstream
  refine h.report (h.ok.tickItem hmem hnext) ?_ hreport hmade ?_ fun stream' hstream' _ => ?_
  · rw [hroot]
    exact h.complete.report h.ok.wf hr
  · rw [hself]
    exact hpaired.bounds hmade
  · rw [hstreams, Function.update_self] at hstream'
    rw [hself, ← Option.some.inj hstream']
    exact hpaired

/-- The last callback of a stream. -/
theorem onLog (h : s.ClosedLeOpened connections) (hstream : s.streams id = some stream)
    (hphase : stream.phase ≠ .logged) (hlog : s.onLog libraries id access stream = some s') :
    s'.ClosedLeOpened connections := by
  have hdeleted : (s.deleteFromRequestQueue id).ClosedLeOpened connections :=
    ⟨h.ok.deleteFromRequestQueue id, ⟨h.complete.kept, h.complete.cached⟩, h.le, h.made, h.tcp,
      h.paired⟩
  obtain ⟨r, hr, hroot, -, hstreams, hrecorded⟩ := report_eq_some hlog
  have hself : s'.recordedFor id = s.recordedFor id ++ r.recording.recorded := by
    rw [hrecorded, if_pos rfl]
    rfl
  have hlogged : stream.onLog.phase = .logged := rfl
  refine hdeleted.report (h.ok.onLog hstream hlog) ?_ hlog (fun htcp => ?_) ?_
    fun stream' hstream' hopen => ?_
  · rw [hroot]
    exact hdeleted.complete.report hdeleted.ok.wf hr
  · rw [hlogged] at htcp
    cases htcp
  · rw [hself]
    exact (h.paired id stream hstream hphase).last_report hdeleted.ok hdeleted.complete
      (h.tcp id stream hstream) hr
  · rw [hstreams, Function.update_self] at hstream'
    rw [← Option.some.inj hstream'] at hopen
    exact absurd hlogged hopen

/-- A stream after a callback that records nothing. -/
theorem changed {callback : Callback} (h : s.ClosedLeOpened connections)
    (hchanged : Changed s id callback stream) (htick : ∀ items, callback ≠ .onTick items)
    (hlog : ∀ access, callback ≠ .onLog id access) :
    (stream.phase = .tcp → id ∈ connections ++ callback.connection.toList) ∧
      Paired (s.recordedFor id) stream := by
  cases hchanged with
  | onCreate hnew =>
    rw [(h.ok.unborn id hnew).2]
    exact ⟨(fun hphase => nomatch hphase), paired_new⟩
  | onRequestHeaders hstream hphase =>
    obtain ⟨hrecorded, hfresh⟩ := h.ok.created id _ hstream hphase
    rw [hrecorded]
    exact ⟨(fun hphase => nomatch hphase), hfresh.paired_onRequestHeaders⟩
  | onNewConnection hstream hphase =>
    obtain ⟨hrecorded, hfresh⟩ := h.ok.created id _ hstream hphase
    rw [hrecorded]
    exact ⟨fun _ => List.mem_append_right _ (List.mem_singleton_self _),
      hfresh.paired_onNewConnection⟩
  | onDownstreamData hstream hphase | onUpstreamData hstream hphase =>
    obtain ⟨hprotocol, hopened, hnotRecorded, hnotClosed⟩ :=
      h.paired id _ hstream (by rw [hphase]; decide)
    exact ⟨fun _ => List.mem_append_left _ (h.tcp id _ hstream hphase), hprotocol, hopened,
      hnotRecorded, hnotClosed⟩
  | onLog => exact absurd rfl (hlog _)
  | onTick => exact absurd rfl (htick _)

theorem next {callback : Callback} (h : s.ClosedLeOpened connections)
    (hkeeps : KeepsTcpMetrics lib callback)
    (hn : (statsMachine lib parseDuration libraries).next s callback = some s') :
    s'.ClosedLeOpened (connections ++ callback.connection.toList) := by
  by_cases htick : ∃ items, callback = .onTick items
  · obtain ⟨items, rfl⟩ := htick
    obtain ⟨hperm, hrun⟩ := perm_of_onTick hn
    show s'.ClosedLeOpened (connections ++ [])
    rw [List.append_nil]
    refine (ticking_invariant (I := fun t => t.ClosedLeOpened connections ∧
      t.root.requestQueue = s.root.requestQueue) hrun ⟨h, rfl⟩
      fun t id access stream t' hitem ⟨ht, hqueue⟩ hstream hreport => ?_).1
    have hmem : id ∈ t.root.requestQueue :=
      hqueue ▸ hperm.subset (List.mem_map_of_mem hitem)
    obtain ⟨r, -, hroot, -⟩ := report_eq_some hreport
    refine ⟨ht.tickItem hmem hstream hreport, ?_⟩
    rw [hroot]
    exact hqueue
  by_cases hlog : ∃ id access, callback = .onLog id access
  · obtain ⟨id, access, rfl⟩ := hlog
    obtain ⟨stream, hstream, hphase, hs'⟩ := exists_stream hn
    show s'.ClosedLeOpened (connections ++ [])
    rw [List.append_nil]
    exact h.onLog hstream hphase hs'
  -- nothing is recorded
  have htick' : ∀ items, callback ≠ .onTick items := fun items heq => htick ⟨items, heq⟩
  have hlog' (id : UInt32) : ∀ access, callback ≠ .onLog id access :=
    fun access heq => hlog ⟨id, access, heq⟩
  have hrecorded (id : UInt32) : s'.recordedFor id = s.recordedFor id :=
    recordedFor_next hn htick' (hlog' id)
  refine ⟨h.ok.next hn, complete_next h.complete h.ok hkeeps hn, fun id => ?_, fun id => ?_,
    fun id stream hstream hphase => ?_, fun id stream hstream hphase => ?_⟩
  · rw [hrecorded]
    exact h.le id
  · rw [hrecorded, List.count_append]
    exact Nat.le_trans (h.made id) (Nat.le_add_right _ _)
  · rcases changed_of_next hn hstream with hsame | hchanged
    · exact List.mem_append_left _ (h.tcp id stream hsame hphase)
    · exact (h.changed hchanged htick' (hlog' id)).1 hphase
  · rw [hrecorded]
    rcases changed_of_next hn hstream with hsame | hchanged
    · exact h.paired id stream hsame hphase
    · exact (h.changed hchanged htick' (hlog' id)).2

end System.ClosedLeOpened

/-- Sums over lists compare if those over the elements with each key do. -/
theorem sum_le_sum_of_fibers {A B K : Type*} [DecidableEq K] (key : A → K) (key' : B → K)
    {f : A → ℕ} {g : B → ℕ} {l : List A} {l' : List B}
    (h : ∀ k, ((l.filter fun a => key a = k).map f).sum ≤
      ((l'.filter fun b => key' b = k).map g).sum) : (l.map f).sum ≤ (l'.map g).sum := by
  induction hn : l.length using Nat.strong_induction_on generalizing l l' with
  | _ n ih =>
    cases l with
    | nil => exact Nat.zero_le _
    | cons a l =>
      -- the elements with the key of the first one, and the others
      have hsplit := (List.filter_append_perm (fun a' => key a' = key a) (a :: l)).map f
      have hsplit' := (List.filter_append_perm (fun b => key' b = key a) l').map g
      rw [← hsplit.sum_nat, ← hsplit'.sum_nat, List.map_append, List.map_append, List.sum_append,
        List.sum_append]
      refine Nat.add_le_add (h (key a)) (ih _ ?_ (fun k => ?_) rfl)
      · rw [← hn, List.filter_cons_of_neg (by simp)]
        exact Nat.lt_succ_of_le (List.length_filter_le _ _)
      · rw [List.filter_filter, List.filter_filter]
        by_cases hk : k = key a
        · rw [List.filter_eq_nil_iff.2 (by simp [hk])]
          exact Nat.zero_le _
        · have hfiber := h k
          have hsame (x : K) : (x = k && !decide (x = key a)) = decide (x = k) := by
            by_cases hx : x = k
            · simp [hx, hk]
            · simp [hx]
          simp only [hsame]
          exact hfiber

theorem total_recordedFor (m : TcpMetric) (s : System) (id : UInt32) :
    m.total (s.recordedFor id) = ((s.recorded.filter fun record => record.id = id).map
      fun record => if record.stat.valueFn = m.extractor then record.value.toNat else 0).sum := by
  unfold TcpMetric.total System.recordedFor
  rw [List.map_map]
  rfl

theorem total_recordedAll (m : TcpMetric) (s : System) :
    m.total s.recordedAll = (s.recorded.map fun record =>
      if record.stat.valueFn = m.extractor then record.value.toNat else 0).sum := by
  unfold TcpMetric.total System.recordedAll
  rw [List.map_map]
  rfl

/-- What holds for every stream holds for the totals. -/
theorem System.ClosedLeOpened.total (h : s.ClosedLeOpened connections) :
    connectionsClosed.total s.recordedAll ≤ connectionsOpened.total s.recordedAll ∧
      connectionsOpened.total s.recordedAll ≤ connections.length := by
  rw [total_recordedAll, total_recordedAll]
  constructor
  · refine sum_le_sum_of_fibers Recorded.id Recorded.id fun id => ?_
    have hle := h.le id
    rw [total_recordedFor, total_recordedFor] at hle
    exact hle
  · have hlength : (connections.map fun _ => 1).sum = connections.length := by simp
    rw [← hlength]
    refine sum_le_sum_of_fibers Recorded.id (fun id => id) fun id => ?_
    have hmade := h.made id
    rw [total_recordedFor, List.count_eq_length_filter] at hmade
    simpa [beq_eq_decide] using hmade

/-- **More connections have never been recorded as closed than as opened**, over all streams and
dimensions, nor more as opened than there have been: after every run in which no configuration drops
or redefines a TCP metric. -/
theorem closed_le_opened {outbound useHostHeaderFallback : Bool} {callbacks : List Callback}
    (hkeeps : ∀ callback ∈ callbacks, KeepsTcpMetrics lib callback)
    (hrun : (statsMachine lib parseDuration libraries).run (fun _ _ => True)
      (.start outbound useHostHeaderFallback) callbacks = some s) :
    connectionsClosed.total s.recordedAll ≤ connectionsOpened.total s.recordedAll ∧
      connectionsOpened.total s.recordedAll ≤ (callbacks.filterMap Callback.connection).length := by
  have hstart : (System.start outbound useHostHeaderFallback).ClosedLeOpened [] :=
    ⟨System.ok_start, ⟨(fun h => nomatch h), fun _ _ h => nomatch h⟩, fun _ => Nat.zero_le _,
      fun _ => Nat.zero_le _, fun _ _ h => (nomatch h), fun _ _ h => (nomatch h)⟩
  have hinvariant : s.ClosedLeOpened (callbacks.filterMap Callback.connection) := by
    refine Machine.run_invariant (I := fun callbacks t =>
      (∀ callback ∈ callbacks, KeepsTcpMetrics lib callback) →
        t.ClosedLeOpened (callbacks.filterMap Callback.connection)) (fun _ => hstart)
      (fun before t callback t' ih hn hkeeps => ?_) hrun hkeeps
    have hbefore := ih fun callback hmem => hkeeps callback (List.mem_append_left _ hmem)
    have hnext := hbefore.next (hkeeps callback (List.mem_append_right _ (by simp))) hn
    rw [List.filterMap_append]
    cases hconnection : callback.connection with
    | none =>
      rw [List.filterMap_cons_none hconnection]
      rw [hconnection] at hnext
      exact hnext
    | some id =>
      rw [List.filterMap_cons_some hconnection]
      rw [hconnection] at hnext
      exact hnext
  exact hinvariant.total

theorem closed_le_opened_mixed : ∃ s,
    sampleMachine.run (fun _ _ => True) (.start false true) mixedStreams = some s ∧
      connectionsClosed.total s.recordedAll = 1 ∧ connectionsOpened.total s.recordedAll = 1 := by
  have hrun : (sampleMachine.run (fun _ _ => True) (.start false true) mixedStreams).map
      (fun s => connectionsClosed.total s.recordedAll) = some 1 := by
    decide +kernel
  obtain ⟨s, hs, hclosed⟩ := Option.map_eq_some_iff.1 hrun
  have hkeeps : ∀ callback ∈ mixedStreams, KeepsTcpMetrics sampleJson callback := by
    intro callback hmem
    cases callback with
    | onConfigure call => exact fun j hparse _ => keepsMetric_mixedStreams hmem hparse _
    | _ => trivial
  obtain ⟨hle, hmade⟩ := closed_le_opened hkeeps hs
  rw [hclosed] at hle
  exact ⟨s, hs, hclosed, Nat.le_antisymm hmade hle⟩

end Stats

end WasmExtensions
