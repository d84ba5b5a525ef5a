import WasmExtensions.Stats.TcpMetrics

/-!
# TCP telemetry conserves counts

The four TCP metrics count what a stream has accumulated since they were last recorded.  While a
stream is open, what has been recorded and what is still accumulated add up to what has come
(`Balanced`): a report moves values from one to the other, whatever metrics it finds.  The last
report records the rest.  So the counts are conserved if and only if the metrics found by the last
report are all there, as far as they have a value (`tcp_conserved_iff`).

The plugin keeps the metrics that it has resolved when it is configured anew.  So a metric that an
earlier configuration has dropped may be missing, although it is configured (`tcp_bytes_lost`).  If
no configuration drops or redefines a TCP metric, none is ever missing (`tcp_conserved_of_kept`).
-/

namespace WasmExtensions

namespace Stats

/-! ### What has been recorded for a stream -/

open TcpMetric (connectionsClosed)

/-- What has been recorded for a stream, with all dimensions. -/
def System.recordedFor (s : System) (id : UInt32) : List (SimpleStat × UInt64) :=
  (s.recorded.filter fun record => record.id = id).map fun record => (record.stat, record.value)

/-- What is recorded and what is accumulated add up to what has come. -/
structure Balanced (recorded : List (SimpleStat × UInt64)) (stream : Stream) : Prop where
  protocol : stream.requestInfo.requestProtocol = .TCP
  balance : ∀ m, m ≠ connectionsClosed →
    m.sum recorded + m.value stream.requestInfo = m.amount stream
  notRecorded : connectionsClosed.sum recorded = 0
  notClosed : connectionsClosed.value stream.requestInfo = 0

/-- Nothing has come for a stream. -/
structure Fresh (stream : Stream) : Prop where
  sent : stream.requestInfo.tcpSentBytes = 0
  received : stream.requestInfo.tcpReceivedBytes = 0
  opened : stream.requestInfo.tcpConnectionsOpened = 0
  closed : stream.requestInfo.tcpConnectionsClosed = 0
  downstream : stream.downstream = []
  upstream : stream.upstream = []

/-- What is true of a system whatever has happened. -/
structure System.Ok (s : System) : Prop where
  wf : s.root.Wf
  closedOnce : ∀ d stats, s.root.metrics d = some stats →
    (stats.map SimpleStat.valueFn).count connectionsClosed.extractor ≤ 1
  nodup : s.root.requestQueue.Nodup
  queued : ∀ id ∈ s.root.requestQueue, id ∈ s.ids ∧ ∀ stream, s.streams id = some stream →
    stream.phase ≠ .created ∧ stream.phase ≠ .logged
  unborn : ∀ id, id ∉ s.ids → s.streams id = none ∧ s.recordedFor id = []
  created : ∀ id stream, s.streams id = some stream → stream.phase = .created →
    s.recordedFor id = [] ∧ Fresh stream
  balanced : ∀ id stream, s.streams id = some stream → stream.phase = .tcp →
    Balanced (s.recordedFor id) stream

variable {lib : JsonLibrary} {parseDuration : Bytes → Option UInt32} {libraries : Libraries}
  {s s' : System} {id : UInt32} {stream stream' : Stream} {access : StatsStream}
  {endStream : Bool}

theorem System.ok_start {outbound useHostHeaderFallback : Bool} :
    (System.start outbound useHostHeaderFallback).Ok where
  wf := RootContext.wf_new
  closedOnce _ _ h := nomatch h
  nodup := List.nodup_nil
  queued _ h := nomatch h
  unborn _ _ := ⟨rfl, rfl⟩
  created _ _ h := nomatch h
  balanced _ _ h := nomatch h

/-- What a report of a stream changes in the system. -/
theorem System.report_eq_some (h : s.report libraries id access endStream stream = some s') :
    ∃ r, Stats.report libraries s.root.toPluginRootContext ⟨access, stream.requestInfo, endStream⟩ =
        some r ∧
      s'.root = { s.root with toPluginRootContext := r.plugin } ∧ s'.ids = s.ids ∧
      s'.streams =
        Function.update s.streams id (some { stream with requestInfo := r.recording.requestInfo }) ∧
      ∀ id', s'.recordedFor id' =
        s.recordedFor id' ++ if id' = id then r.recording.recorded else [] := by
  obtain ⟨r, hreport, rfl⟩ := Option.map_eq_some_iff.1 h
  refine ⟨r, hreport, rfl, rfl, rfl, fun id' => ?_⟩
  unfold recordedFor
  rw [List.filter_append, List.map_append]
  congr 1
  split_ifs with hid
  · rw [List.filter_eq_self.2, List.map_map]
    · exact List.map_id _
    · intro record hmem
      obtain ⟨pair, -, rfl⟩ := List.mem_map.1 hmem
      exact decide_eq_true hid.symm
  · rw [List.filter_eq_nil_iff.2]
    · rfl
    · intro record hmem
      obtain ⟨pair, -, rfl⟩ := List.mem_map.1 hmem
      simpa using Ne.symm hid

namespace System.Ok

/-- Another context takes the place of that of a stream, which is not a new one. -/
theorem update (h : s.Ok) (hid : id ∈ s.ids) (hwf : s'.root.Wf)
    (hclosedOnce : ∀ d stats, s'.root.metrics d = some stats →
      (stats.map SimpleStat.valueFn).count connectionsClosed.extractor ≤ 1)
    (hqueue : s'.root.requestQueue = s.root.requestQueue) (hids : s'.ids = s.ids)
    (hstreams : s'.streams = Function.update s.streams id (some stream))
    (hrecorded : ∀ id', id' ≠ id → s'.recordedFor id' = s.recordedFor id')
    (hcreated : stream.phase ≠ .created)
    (hlogged : id ∈ s.root.requestQueue → stream.phase ≠ .logged)
    (hbalanced : stream.phase = .tcp → Balanced (s'.recordedFor id) stream) : s'.Ok := by
  have hself : s'.streams id = some stream := by
    rw [hstreams, Function.update_self]
  have hsame : ∀ id', id' ≠ id → s'.streams id' = s.streams id' := by
    intro id' hne
    rw [hstreams, Function.update_of_ne hne]
  refine ⟨hwf, hclosedOnce, ?_, fun id' hmem => ?_, fun id' hnew => ?_,
    fun id' stream' hstream' hphase => ?_, fun id' stream' hstream' hphase => ?_⟩
  · rw [hqueue]
    exact h.nodup
  · rw [hqueue] at hmem
    rw [hids]
    refine ⟨(h.queued id' hmem).1, fun stream' hstream' => ?_⟩
    by_cases hne : id' = id
    · subst hne
      rw [← Option.some.inj (hself.symm.trans hstream')]
      exact ⟨hcreated, hlogged hmem⟩
    · rw [hsame id' hne] at hstream'
      exact (h.queued id' hmem).2 stream' hstream'
  · rw [hids] at hnew
    have hne : id' ≠ id := by
      rintro rfl
      exact hnew hid
    rw [hsame id' hne, hrecorded id' hne]
    exact h.unborn id' hnew
  · by_cases hne : id' = id
    · subst hne
      rw [← Option.some.inj (hself.symm.trans hstream')] at hphase
      exact absurd hphase hcreated
    · rw [hsame id' hne] at hstream'
      rw [hrecorded id' hne]
      exact h.created id' stream' hstream' hphase
  · by_cases hne : id' = id
    · subst hne
      rw [← Option.some.inj (hself.symm.trans hstream')] at hphase ⊢
      exact hbalanced hphase
    · rw [hsame id' hne] at hstream'
      rw [hrecorded id' hne]
      exact h.balanced id' stream' hstream' hphase

/-- A stream that is not reported changes. -/
theorem setStream (h : s.Ok) (hid : id ∈ s.ids) (hcreated : stream.phase ≠ .created)
    (hlogged : stream.phase ≠ .logged)
    (hbalanced : stream.phase = .tcp → Balanced (s.recordedFor id) stream) :
    (s.setStream id stream).Ok :=
  h.update hid h.wf h.closedOnce rfl rfl rfl (fun _ _ => rfl) hcreated (fun _ => hlogged) hbalanced

/-- A report of a stream that is not a new one.  The stream may be about to be logged. -/
theorem report (h : s.Ok) (hid : id ∈ s.ids) (hcreated : stream.phase ≠ .created)
    (hlogged : id ∈ s.root.requestQueue → stream.phase ≠ .logged)
    (hbalanced : stream.phase = .tcp → Balanced (s.recordedFor id) stream)
    (hreport : s.report libraries id access endStream stream = some s') : s'.Ok := by
  obtain ⟨r, hr, hroot, hids, hstreams, hrecorded⟩ := report_eq_some hreport
  refine h.update hid ?_ (fun d stats hstats => ?_) ?_ hids hstreams (fun id' hne => ?_) hcreated
    hlogged fun hphase => ?_
  · rw [hroot]
    exact h.wf.report hr
  · rw [hroot] at hstats
    rcases cached_report hr hstats with hcached | ⟨-, -, hresolved⟩
    · exact h.closedOnce d stats hcached
    · exact h.wf.count_statsOf_le_one hresolved
  · rw [hroot]
  · rw [hrecorded, if_neg hne, List.append_nil]
  · -- A report moves values to what is recorded.
    obtain ⟨hprotocol, hbalance, hnotRecorded, hnotClosed⟩ := hbalanced hphase
    have hmoves := TcpMetric.moves_report hprotocol hr
    obtain ⟨hzero, hopen⟩ := hmoves.notClosed hnotClosed
    rw [hrecorded, if_pos rfl]
    refine ⟨hmoves.protocol, fun m hm => ?_, ?_, hopen⟩
    · rw [TcpMetric.sum_append, UInt64.add_assoc, hmoves.balance m hm]
      exact hbalance m hm
    · rw [TcpMetric.sum_append, hnotRecorded, hzero]; rfl

/-- A stream with an id has been created. -/
theorem mem_ids (h : s.Ok) (hstream : s.streams id = some stream) : id ∈ s.ids := by
  by_contra hnew
  rw [(h.unborn id hnew).1] at hstream
  cases hstream

theorem addToRequestQueue (h : s.Ok) (hstream : s.streams id = some stream)
    (hcreated : stream.phase ≠ .created) (hlogged : stream.phase ≠ .logged) :
    (s.addToRequestQueue id).Ok := by
  refine ⟨⟨h.wf.expressions, h.wf.indexes, h.wf.stats⟩, h.closedOnce, ?_, fun id' hmem => ?_,
    h.unborn, h.created, h.balanced⟩
  · show List.Nodup (if id ∈ s.root.requestQueue then _ else _)
    split_ifs with hqueued
    · exact h.nodup
    · exact List.nodup_append.2 ⟨h.nodup, List.nodup_singleton _, fun a ha b hb heq => by
        rw [List.mem_singleton.1 hb] at heq
        exact hqueued (heq ▸ ha)⟩
  · have hmem' : id' ∈ s.root.requestQueue ∨ id' = id := by
      change id' ∈ (if id ∈ s.root.requestQueue then _ else _) at hmem
      split_ifs at hmem
      · exact .inl hmem
      · exact (List.mem_append.1 hmem).imp_right List.mem_singleton.1
    rcases hmem' with hmem' | rfl
    · exact h.queued id' hmem'
    · refine ⟨h.mem_ids hstream, fun stream' hstream' => ?_⟩
      rw [← Option.some.inj (hstream.symm.trans hstream')]
      exact ⟨hcreated, hlogged⟩

theorem deleteFromRequestQueue (h : s.Ok) (id : UInt32) : (s.deleteFromRequestQueue id).Ok :=
  ⟨⟨h.wf.expressions, h.wf.indexes, h.wf.stats⟩, h.closedOnce, h.nodup.erase id,
    fun id' hmem => h.queued id' (List.mem_of_mem_erase hmem), h.unborn, h.created, h.balanced⟩

/-- A configuration leaves the streams, and the cache of metrics. -/
theorem onConfigure (h : s.Ok) {call : ConfigureCall} :
    (s.onConfigure lib parseDuration call).Ok := by
  have hmetrics : (s.onConfigure lib parseDuration call).root.metrics = s.root.metrics :=
    metrics_onConfigure
  have hqueue : (s.onConfigure lib parseDuration call).root.requestQueue = s.root.requestQueue :=
    requestQueue_onConfigure
  -- The queue and the cache outlive the configuration.
  refine ⟨h.wf.onConfigure lib parseDuration call s.host,
    fun d stats hstats => h.closedOnce d stats (hmetrics ▸ hstats), ?_,
    fun id hmem => h.queued id (hqueue ▸ hmem), h.unborn, h.created, h.balanced⟩
  rw [hqueue]
  exact h.nodup

theorem onDone (h : s.Ok) : s.onDone.Ok :=
  ⟨h.wf.onDone, h.closedOnce, h.nodup, h.queued, h.unborn, h.created, h.balanced⟩

theorem onCreate (h : s.Ok) (hnew : id ∉ s.ids) {startTime duration : Int64} :
    { s.setStream id (.new startTime duration) with ids := id :: s.ids }.Ok := by
  have hne : ∀ id', id' ∈ s.ids → id' ≠ id := by
    rintro id' hmem rfl
    exact hnew hmem
  have hstreams : ∀ id' stream, (s.setStream id (.new startTime duration)).streams id' =
      some stream → s.streams id' = some stream ∨ id' = id ∧ stream = .new startTime duration := by
    intro id' stream hstream
    by_cases heq : id' = id
    · subst heq
      exact .inr ⟨rfl, Option.some.inj (hstream.symm.trans (Function.update_self ..))⟩
    · exact .inl ((Function.update_of_ne heq ..).symm.trans hstream)
  refine ⟨h.wf, h.closedOnce, h.nodup, fun id' hmem =>
    ⟨List.mem_cons_of_mem _ (h.queued id' hmem).1, fun stream hstream => ?_⟩,
    fun id' hnew' => ?_, fun id' stream hstream hphase => ?_,
    fun id' stream hstream hphase => ?_⟩
  · rcases hstreams id' stream hstream with hstream | ⟨rfl, -⟩
    · exact (h.queued id' hmem).2 stream hstream
    · exact absurd (h.queued id' hmem).1 hnew
  · rw [List.mem_cons, not_or] at hnew'
    exact ⟨(Function.update_of_ne hnew'.1 ..).trans (h.unborn id' hnew'.2).1,
      (h.unborn id' hnew'.2).2⟩
  · rcases hstreams id' stream hstream with hstream | ⟨rfl, rfl⟩
    · exact h.created id' stream hstream hphase
    · exact ⟨(h.unborn id' hnew).2, rfl, rfl, rfl, rfl, rfl, rfl⟩
  · rcases hstreams id' stream hstream with hstream | ⟨rfl, rfl⟩
    · exact h.balanced id' stream hstream hphase
    · cases hphase

theorem onDelete (h : s.Ok) : { s with streams := Function.update s.streams id none }.Ok := by
  have hstreams : ∀ id' stream, Function.update s.streams id none id' = some stream →
      s.streams id' = some stream := by
    intro id' stream hstream
    by_cases heq : id' = id
    · rw [heq, Function.update_self] at hstream
      cases hstream
    · exact (Function.update_of_ne heq ..).symm.trans hstream
  refine ⟨h.wf, h.closedOnce, h.nodup, fun id' hmem => ⟨(h.queued id' hmem).1,
    fun stream hstream => (h.queued id' hmem).2 stream (hstreams id' stream hstream)⟩,
    fun id' hnew => ⟨?_, (h.unborn id' hnew).2⟩,
    fun id' stream hstream => h.created id' stream (hstreams id' stream hstream),
    fun id' stream hstream => h.balanced id' stream (hstreams id' stream hstream)⟩
  show Function.update s.streams id none id' = none
  by_cases heq : id' = id
  · rw [heq, Function.update_self]
  · rw [Function.update_of_ne heq]
    exact (h.unborn id' hnew).1

end System.Ok

/-- The first callback of a TCP stream. -/
theorem Fresh.balanced (h : Fresh stream) : Balanced [] stream.onNewConnection where
  protocol := rfl
  balance m hm := by
    cases m with
    | connectionsClosed => exact absurd rfl hm
    | sentBytes =>
      show 0 + stream.requestInfo.tcpSentBytes = stream.upstream.sum
      rw [h.sent, h.upstream]; rfl
    | receivedBytes =>
      show 0 + stream.requestInfo.tcpReceivedBytes = stream.downstream.sum
      rw [h.received, h.downstream]; rfl
    | connectionsOpened =>
      show 0 + (stream.requestInfo.tcpConnectionsOpened + 1).toUInt64 = 1
      rw [h.opened]; rfl
  notRecorded := rfl
  notClosed := congrArg UInt8.toUInt64 h.closed

theorem Balanced.onDownstreamData {recorded : List (SimpleStat × UInt64)}
    (h : Balanced recorded stream) (size : UInt64) :
    Balanced recorded (stream.onDownstreamData size) where
  protocol := h.protocol
  balance m hm := by
    cases m with
    | connectionsClosed => exact absurd rfl hm
    | sentBytes => exact h.balance .sentBytes hm
    | receivedBytes =>
      show TcpMetric.sum .receivedBytes recorded + (stream.requestInfo.tcpReceivedBytes + size) =
        (stream.downstream ++ [size]).sum
      rw [List.sum_append, ← UInt64.add_assoc]
      exact congrArg₂ (· + ·) (h.balance .receivedBytes hm) (UInt64.add_zero size).symm
    | connectionsOpened => exact h.balance .connectionsOpened hm
  notRecorded := h.notRecorded
  notClosed := h.notClosed

theorem Balanced.onUpstreamData {recorded : List (SimpleStat × UInt64)}
    (h : Balanced recorded stream) (size : UInt64) :
    Balanced recorded (stream.onUpstreamData size) where
  protocol := h.protocol
  balance m hm := by
    cases m with
    | connectionsClosed => exact absurd rfl hm
    | receivedBytes => exact h.balance .receivedBytes hm
    | sentBytes =>
      show TcpMetric.sum .sentBytes recorded + (stream.requestInfo.tcpSentBytes + size) =
        (stream.upstream ++ [size]).sum
      rw [List.sum_append, ← UInt64.add_assoc]
      exact congrArg₂ (· + ·) (h.balance .sentBytes hm) (UInt64.add_zero size).symm
    | connectionsOpened => exact h.balance .connectionsOpened hm
  notRecorded := h.notRecorded
  notClosed := h.notClosed

/-! ### Runs -/

/-- An entry of the queue keeps the queue. -/
theorem requestQueue_tickItem (h : s.tickItem libraries id access = some s') :
    s'.root.requestQueue = s.root.requestQueue := by
  unfold System.tickItem at h
  split at h
  · rw [← Option.some.inj h]
  · obtain ⟨r, -, hroot, -⟩ := System.report_eq_some h
    rw [hroot]

theorem System.Ok.tickItem (h : s.Ok) (hmem : id ∈ s.root.requestQueue)
    (hnext : s.tickItem libraries id access = some s') : s'.Ok := by
  unfold System.tickItem at hnext
  split at hnext
  · rw [← Option.some.inj hnext]
    exact h
  · rename_i stream hstream
    obtain ⟨hid, hphase⟩ := h.queued id hmem
    exact h.report hid (hphase stream hstream).1 (fun _ => (hphase stream hstream).2)
      (h.balanced id stream hstream) hnext

theorem System.Ok.onTick (h : s.Ok) {items : List (UInt32 × StatsStream)}
    (hitems : ∀ item ∈ items, item.1 ∈ s.root.requestQueue)
    (hrun : (ticking libraries).run (fun _ _ => True) s items = some s') : s'.Ok := by
  refine (ticking_invariant (I := fun t => t.Ok ∧ t.root.requestQueue = s.root.requestQueue) hrun
    ⟨h, rfl⟩ fun t id access stream t' hmem ht hstream hreport => ?_).1
  have hqueue : id ∈ t.root.requestQueue := by
    rw [ht.2]
    exact hitems _ hmem
  have hnext : t.tickItem libraries id access = some t' := by
    unfold System.tickItem
    rw [hstream]
    exact hreport
  exact ⟨ht.1.tickItem hqueue hnext, (requestQueue_tickItem hnext).trans ht.2⟩

theorem System.Ok.exists_report (h : s.Ok) (libraries : Libraries) (id : UInt32)
    (access : StatsStream) (endStream : Bool) (stream : Stream) :
    ∃ s', s.report libraries id access endStream stream = some s' := by
  obtain ⟨r, hr⟩ := h.wf.exists_report libraries ⟨access, stream.requestInfo, endStream⟩
  refine Option.isSome_iff_exists.1 ?_
  unfold System.report
  rw [Option.isSome_map, hr]; rfl

/-- The loop over the queue never gets stuck. -/
theorem System.Ok.exists_onTick (h : s.Ok) {items : List (UInt32 × StatsStream)}
    (hitems : ∀ item ∈ items, item.1 ∈ s.root.requestQueue) :
    ∃ s', (ticking libraries).run (fun _ _ => True) s items = some s' := by
  induction items generalizing s with
  | nil => exact ⟨s, rfl⟩
  | cons item items ih =>
    have hitem : ∃ t, s.tickItem libraries item.1 item.2 = some t := by
      unfold System.tickItem
      split
      · exact ⟨s, rfl⟩
      · exact h.exists_report libraries ..
    obtain ⟨t, hnext⟩ := hitem
    obtain ⟨s', hrun⟩ := ih (h.tickItem (hitems item List.mem_cons_self) hnext) fun item' hmem => by
      rw [requestQueue_tickItem hnext]
      exact hitems item' (List.mem_cons_of_mem _ hmem)
    refine ⟨s', ?_⟩
    unfold Machine.run
    rw [if_pos trivial]
    exact Option.bind_eq_some_iff.2 ⟨t, hnext, hrun⟩

/-- The last callback of a stream. -/
theorem System.Ok.onLog (h : s.Ok) (hstream : s.streams id = some stream)
    (hnext : s.onLog libraries id access stream = some s') : s'.Ok := by
  have hcreated : Phase.logged ≠ .created := by decide
  have htcp : Phase.logged ≠ .tcp := by decide
  refine (h.deleteFromRequestQueue id).report (h.mem_ids hstream) hcreated (fun hmem => ?_)
    (fun hphase => absurd hphase htcp) hnext
  -- The id is in the queue once at most.
  exact absurd hmem h.nodup.not_mem_erase

/-- Every callback keeps what is true of the system. -/
theorem System.Ok.next (h : s.Ok) {callback : Callback}
    (hn : (statsMachine lib parseDuration libraries).next s callback = some s') : s'.Ok := by
  cases callback with
  | onConfigure call =>
    rw [← Option.some.inj hn]
    exact h.onConfigure
  | onCreate id startTime duration =>
    simp only [statsMachine] at hn
    split_ifs at hn with hnew
    rw [← Option.some.inj hn]
    exact h.onCreate hnew
  | onRequestHeaders id access =>
    obtain ⟨stream, hstream, hphase, hs'⟩ := exists_stream hn
    rw [← Option.some.inj hs']
    have hcreated : Phase.http ≠ .created := by decide
    have hlogged : Phase.http ≠ .logged := by decide
    have htcp : Phase.http ≠ .tcp := by decide
    exact h.setStream (h.mem_ids hstream) hcreated hlogged fun hphase => absurd hphase htcp
  | onResponseHeaders id =>
    obtain ⟨stream, hstream, hphase, hs'⟩ := exists_stream hn
    rw [← Option.some.inj hs']
    exact h.addToRequestQueue hstream (by rw [hphase]; decide) (by rw [hphase]; decide)
  | onNewConnection id =>
    obtain ⟨stream, hstream, hphase, hs'⟩ := exists_stream hn
    rw [← Option.some.inj hs']
    obtain ⟨hrecorded, hfresh⟩ := h.created id stream hstream hphase
    have hcreated : Phase.tcp ≠ .created := by decide
    have hlogged : Phase.tcp ≠ .logged := by decide
    refine (h.setStream (h.mem_ids hstream) hcreated hlogged fun _ => ?_).addToRequestQueue
      (Function.update_self ..) hcreated hlogged
    rw [hrecorded]
    exact hfresh.balanced
  | onDownstreamData id size =>
    obtain ⟨stream, hstream, hphase, hs'⟩ := exists_stream hn
    rw [← Option.some.inj hs']
    refine h.setStream (h.mem_ids hstream) ?_ ?_ fun _ =>
      (h.balanced id stream hstream hphase).onDownstreamData size
    · show stream.phase ≠ _
      rw [hphase]; decide
    · show stream.phase ≠ _
      rw [hphase]; decide
  | onUpstreamData id size =>
    obtain ⟨stream, hstream, hphase, hs'⟩ := exists_stream hn
    rw [← Option.some.inj hs']
    refine h.setStream (h.mem_ids hstream) ?_ ?_ fun _ =>
      (h.balanced id stream hstream hphase).onUpstreamData size
    · show stream.phase ≠ _
      rw [hphase]; decide
    · show stream.phase ≠ _
      rw [hphase]; decide
  | onLog id access =>
    obtain ⟨stream, hstream, -, hs'⟩ := exists_stream hn
    exact h.onLog hstream hs'
  | onTick items =>
    simp only [statsMachine] at hn
    split_ifs at hn with hperm
    refine h.onTick (fun item hmem => ?_) hn
    exact hperm.subset (List.mem_map_of_mem hmem)
  | onDelete id =>
    rw [← Option.some.inj hn]
    exact h.onDelete
  | onDone =>
    rw [← Option.some.inj hn]
    exact h.onDone

/-- Reports of a tick keep the phase of a stream. -/
theorem phase_ticking {items : List (UInt32 × StatsStream)}
    (hrun : (ticking libraries).run (fun _ _ => True) s items = some s')
    (hstream : s'.streams id = some stream) :
    ∃ stream₀, s.streams id = some stream₀ ∧ stream₀.phase = stream.phase := by
  refine ticking_invariant (I := fun t => ∀ id stream, t.streams id = some stream →
    ∃ stream₀, s.streams id = some stream₀ ∧ stream₀.phase = stream.phase) hrun
    (fun _ stream hstream => ⟨stream, hstream, rfl⟩)
    (fun t id' access stream' t' _ ht hstream' hreport => ?_) id stream hstream
  obtain ⟨r, -, -, -, hstreams, -⟩ := System.report_eq_some hreport
  intro id stream hstream
  rw [hstreams] at hstream
  by_cases hid : id = id'
  · rw [hid, Function.update_self] at hstream
    rw [← Option.some.inj hstream, hid]
    exact ht id' stream' hstream'
  · rw [Function.update_of_ne hid] at hstream
    exact ht id stream hstream

/-- What a callback of its own, or a tick, makes of a stream. -/
inductive Changed (s : System) (id : UInt32) : Callback → Stream → Prop
  | onCreate {startTime duration : Int64} (hnew : id ∉ s.ids) :
      Changed s id (.onCreate id startTime duration) (.new startTime duration)
  | onRequestHeaders {access : StreamAccess} {stream : Stream}
      (hstream : s.streams id = some stream) (hphase : stream.phase = .created) :
      Changed s id (.onRequestHeaders id access)
        (stream.onRequestHeaders s.root.useHostHeaderFallback access)
  | onNewConnection {stream : Stream} (hstream : s.streams id = some stream)
      (hphase : stream.phase = .created) : Changed s id (.onNewConnection id) stream.onNewConnection
  | onDownstreamData {stream : Stream} {size : UInt64} (hstream : s.streams id = some stream)
      (hphase : stream.phase = .tcp) :
      Changed s id (.onDownstreamData id size) (stream.onDownstreamData size)
  | onUpstreamData {stream : Stream} {size : UInt64} (hstream : s.streams id = some stream)
      (hphase : stream.phase = .tcp) :
      Changed s id (.onUpstreamData id size) (stream.onUpstreamData size)
  | onLog {stream : Stream} {access : StatsStream} (hphase : stream.phase = .logged) :
      Changed s id (.onLog id access) stream
  | onTick {stream stream' : Stream} {items : List (UInt32 × StatsStream)}
      (hstream : s.streams id = some stream) (hphase : stream.phase = stream'.phase) :
      Changed s id (.onTick items) stream'

/-- A callback leaves a stream as it is, or changes it as it is meant to. -/
theorem changed_of_next {callback : Callback}
    (hn : (statsMachine lib parseDuration libraries).next s callback = some s')
    (hstream : s'.streams id = some stream) :
    s.streams id = some stream ∨ Changed s id callback stream := by
  have hupdate : ∀ {id' : UInt32} {new : Option Stream},
      Function.update s.streams id' new id = some stream →
      (id' = id → new = some stream → Changed s id callback stream) →
        s.streams id = some stream ∨ Changed s id callback stream := by
    intro id' new hnew hchanged
    by_cases hid : id' = id
    · rw [hid, Function.update_self] at hnew
      exact .inr (hchanged hid hnew)
    · rw [Function.update_of_ne (Ne.symm hid)] at hnew
      exact .inl hnew
  cases callback with
  | onConfigure configuration =>
    rw [← Option.some.inj hn] at hstream
    exact .inl hstream
  | onDone =>
    rw [← Option.some.inj hn] at hstream
    exact .inl hstream
  | onCreate id' startTime duration =>
    simp only [statsMachine] at hn
    split_ifs at hn with hnew
    rw [← Option.some.inj hn] at hstream
    refine hupdate hstream ?_
    rintro rfl ⟨⟩
    exact .onCreate hnew
  | onRequestHeaders id' access =>
    obtain ⟨stream', hstream', hphase, hs'⟩ := exists_stream hn
    rw [← Option.some.inj hs'] at hstream
    refine hupdate hstream ?_
    rintro rfl ⟨⟩
    exact .onRequestHeaders hstream' hphase
  | onResponseHeaders id' =>
    obtain ⟨stream', -, -, hs'⟩ := exists_stream hn
    rw [← Option.some.inj hs'] at hstream
    exact .inl hstream
  | onNewConnection id' =>
    obtain ⟨stream', hstream', hphase, hs'⟩ := exists_stream hn
    rw [← Option.some.inj hs'] at hstream
    refine hupdate hstream ?_
    rintro rfl ⟨⟩
    exact .onNewConnection hstream' hphase
  | onDownstreamData id' size =>
    obtain ⟨stream', hstream', hphase, hs'⟩ := exists_stream hn
    rw [← Option.some.inj hs'] at hstream
    refine hupdate hstream ?_
    rintro rfl ⟨⟩
    exact .onDownstreamData hstream' hphase
  | onUpstreamData id' size =>
    obtain ⟨stream', hstream', hphase, hs'⟩ := exists_stream hn
    rw [← Option.some.inj hs'] at hstream
    refine hupdate hstream ?_
    rintro rfl ⟨⟩
    exact .onUpstreamData hstream' hphase
  | onLog id' access =>
    obtain ⟨stream', -, -, hs'⟩ := exists_stream hn
    obtain ⟨r, -, -, -, hstreams, -⟩ := System.report_eq_some hs'
    rw [hstreams] at hstream
    refine hupdate hstream ?_
    rintro rfl ⟨⟩
    exact .onLog rfl
  | onTick items =>
    simp only [statsMachine] at hn
    split_ifs at hn
    obtain ⟨stream₀, hstream₀, hphase⟩ := phase_ticking hn hstream
    exact .inr (.onTick hstream₀ hphase)
  | onDelete id' =>
    rw [← Option.some.inj hn] at hstream
    refine hupdate hstream ?_
    intro _ hnew
    cases hnew

/-- An open stream has been in the same phase before, unless nothing has been recorded for it. -/
theorem System.Ok.phase_before (h : s.Ok) {callback : Callback}
    (hn : (statsMachine lib parseDuration libraries).next s callback = some s')
    (hstream : s'.streams id = some stream) (hlogged : stream.phase ≠ .logged) :
    (∃ stream₀, s.streams id = some stream₀ ∧ stream₀.phase = stream.phase) ∨
      s.recordedFor id = [] := by
  rcases changed_of_next hn hstream with hsame | hchanged
  · exact .inl ⟨stream, hsame, rfl⟩
  · cases hchanged with
    | onCreate hnew => exact .inr (h.unborn id hnew).2
    | onRequestHeaders hstream₀ hphase => exact .inr (h.created id _ hstream₀ hphase).1
    | onNewConnection hstream₀ hphase => exact .inr (h.created id _ hstream₀ hphase).1
    | onDownstreamData hstream₀ hphase => exact .inl ⟨_, hstream₀, rfl⟩
    | onUpstreamData hstream₀ hphase => exact .inl ⟨_, hstream₀, rfl⟩
    | onLog hphase => exact absurd hphase hlogged
    | onTick hstream₀ hphase => exact .inl ⟨_, hstream₀, hphase⟩

/-! ### After the last callback -/

/-- The stream has been logged. -/
structure Finished (id : UInt32) (s : System) : Prop where
  created : id ∈ s.ids
  notQueued : id ∉ s.root.requestQueue
  logged : ∀ stream, s.streams id = some stream → stream.phase = .logged

namespace Finished

variable {id' : UInt32}

/-- A stream in another phase is another stream. -/
theorem ne (h : Finished id s) (hstream : s.streams id' = some stream)
    (hphase : stream.phase ≠ .logged) : id' ≠ id := by
  rintro rfl
  exact hphase (h.logged stream hstream)

theorem setStream (h : Finished id s) (hne : id' ≠ id) : Finished id (s.setStream id' stream) :=
  ⟨h.created, h.notQueued, fun stream hstream =>
    h.logged stream ((Function.update_of_ne (Ne.symm hne) ..).symm.trans hstream)⟩

theorem addToRequestQueue (h : Finished id s) (hne : id' ≠ id) :
    Finished id (s.addToRequestQueue id') := by
  refine ⟨h.created, fun hmem => ?_, h.logged⟩
  change id ∈ (if id' ∈ s.root.requestQueue then _ else _) at hmem
  split_ifs at hmem
  · exact h.notQueued hmem
  · rcases List.mem_append.1 hmem with hmem | hmem
    · exact h.notQueued hmem
    · exact hne (List.mem_singleton.1 hmem).symm

/-- The report of another stream. -/
theorem report (h : Finished id s) (hne : id' ≠ id)
    (hreport : s.report libraries id' access endStream stream = some s') :
    Finished id s' ∧ s'.recordedFor id = s.recordedFor id := by
  obtain ⟨r, -, hroot, hids, hstreams, hrecorded⟩ := System.report_eq_some hreport
  refine ⟨⟨hids ▸ h.created, by rw [hroot]; exact h.notQueued, fun stream hstream => ?_⟩, ?_⟩
  · rw [hstreams, Function.update_of_ne (Ne.symm hne)] at hstream
    exact h.logged stream hstream
  · rw [hrecorded, if_neg (Ne.symm hne), List.append_nil]

theorem onTick (h : Finished id s) {items : List (UInt32 × StatsStream)}
    (hitems : ∀ item ∈ items, item.1 ≠ id)
    (hrun : (ticking libraries).run (fun _ _ => True) s items = some s') :
    Finished id s' ∧ s'.recordedFor id = s.recordedFor id := by
  refine ticking_invariant
    (I := fun t => Finished id t ∧ t.recordedFor id = s.recordedFor id) hrun ⟨h, rfl⟩
    fun t id' access stream t' hmem ht _ hreport => ?_
  obtain ⟨hfinished, hrecorded⟩ := ht.1.report (hitems _ hmem) hreport
  exact ⟨hfinished, hrecorded.trans ht.2⟩

/-- Nothing more is recorded for the stream. -/
theorem next (h : Finished id s) {callback : Callback}
    (hn : (statsMachine lib parseDuration libraries).next s callback = some s') :
    Finished id s' ∧ s'.recordedFor id = s.recordedFor id := by
  cases callback with
  | onConfigure call =>
    rw [← Option.some.inj hn]
    refine ⟨⟨h.created, ?_, h.logged⟩, rfl⟩
    have hqueue : (s.onConfigure lib parseDuration call).root.requestQueue =
        s.root.requestQueue := requestQueue_onConfigure
    rw [hqueue]
    exact h.notQueued
  | onCreate id' startTime duration =>
    simp only [statsMachine] at hn
    split_ifs at hn with hnew
    rw [← Option.some.inj hn]
    have hne : id' ≠ id := by
      rintro rfl
      exact hnew h.created
    have hset : Finished id (s.setStream id' (.new startTime duration)) := h.setStream hne
    obtain ⟨hcreated, hnotQueued, hlogged⟩ := hset
    exact ⟨⟨List.mem_cons_of_mem _ hcreated, hnotQueued, hlogged⟩, rfl⟩
  | onRequestHeaders id' access =>
    obtain ⟨stream, hstream, hphase, hs'⟩ := exists_stream hn
    rw [← Option.some.inj hs']
    exact ⟨h.setStream (h.ne hstream (by rw [hphase]; decide)), rfl⟩
  | onResponseHeaders id' =>
    obtain ⟨stream, hstream, hphase, hs'⟩ := exists_stream hn
    rw [← Option.some.inj hs']
    exact ⟨h.addToRequestQueue (h.ne hstream (by rw [hphase]; decide)), rfl⟩
  | onNewConnection id' =>
    obtain ⟨stream, hstream, hphase, hs'⟩ := exists_stream hn
    rw [← Option.some.inj hs']
    have hne := h.ne hstream (by rw [hphase]; decide)
    exact ⟨(h.setStream hne).addToRequestQueue hne, rfl⟩
  | onDownstreamData id' size =>
    obtain ⟨stream, hstream, hphase, hs'⟩ := exists_stream hn
    rw [← Option.some.inj hs']
    exact ⟨h.setStream (h.ne hstream (by rw [hphase]; decide)), rfl⟩
  | onUpstreamData id' size =>
    obtain ⟨stream, hstream, hphase, hs'⟩ := exists_stream hn
    rw [← Option.some.inj hs']
    exact ⟨h.setStream (h.ne hstream (by rw [hphase]; decide)), rfl⟩
  | onLog id' access =>
    obtain ⟨stream, hstream, hphase, hs'⟩ := exists_stream hn
    have hfinished : Finished id (s.deleteFromRequestQueue id') :=
      ⟨h.created, fun hmem => h.notQueued (List.mem_of_mem_erase hmem), h.logged⟩
    exact hfinished.report (h.ne hstream hphase) hs'
  | onTick items =>
    simp only [statsMachine] at hn
    split_ifs at hn with hperm
    refine h.onTick (fun item hmem => ?_) hn
    rintro rfl
    exact h.notQueued (hperm.subset (List.mem_map_of_mem hmem))
  | onDelete id' =>
    rw [← Option.some.inj hn]
    refine ⟨⟨h.created, h.notQueued, fun stream hstream => ?_⟩, rfl⟩
    change Function.update s.streams id' none id = some stream at hstream
    by_cases hne : id = id'
    · rw [hne, Function.update_self] at hstream
      cases hstream
    · rw [Function.update_of_ne hne] at hstream
      exact h.logged stream hstream
  | onDone =>
    rw [← Option.some.inj hn]
    exact ⟨⟨h.created, h.notQueued, h.logged⟩, rfl⟩

end Finished

/-! ### Conservation -/

section

variable {recorded : List (SimpleStat × UInt64)}

theorem Balanced.requestInfo_onLog (h : Balanced recorded stream) :
    stream.onLog.requestInfo = { stream.requestInfo with
      tcpConnectionsClosed := stream.requestInfo.tcpConnectionsClosed + 1 } :=
  if_pos h.protocol

theorem Balanced.protocol_onLog (h : Balanced recorded stream) :
    stream.onLog.requestInfo.requestProtocol = .TCP := by
  rw [h.requestInfo_onLog]
  exact h.protocol

/-- With the closing of the connection, all four counts are balanced. -/
theorem Balanced.onLog (h : Balanced recorded stream) (m : TcpMetric) :
    m.sum recorded + m.value stream.onLog.requestInfo = m.amount stream := by
  rw [h.requestInfo_onLog]
  cases m with
  | sentBytes => exact h.balance .sentBytes (by decide)
  | receivedBytes => exact h.balance .receivedBytes (by decide)
  | connectionsOpened => exact h.balance .connectionsOpened (by decide)
  | connectionsClosed =>
    have hzero : stream.requestInfo.tcpConnectionsClosed = 0 :=
      UInt8.toUInt64_inj.1 h.notClosed
    show connectionsClosed.sum recorded + (stream.requestInfo.tcpConnectionsClosed + 1).toUInt64 = 1
    rw [h.notRecorded, hzero]; rfl

end

/-- What has been recorded for the stream is what has come for it. -/
def System.Conserved (s : System) (id : UInt32) (stream : Stream) : Prop :=
  ∀ m : TcpMetric, m.sum (s.recordedFor id) = m.amount stream

/-- If the last report of the stream finds its metrics in the cache, then each that has a value is
there. -/
def System.NothingMissing (libraries : Libraries) (access : StatsStream) (stream : Stream)
    (s : System) : Prop :=
  ∀ requestInfo d stats,
    foundStats libraries s.root.toPluginRootContext ⟨access, stream.onLog.requestInfo, true⟩ =
      some (requestInfo, d, stats) →
    s.root.metrics d = some stats →
    ∀ m : TcpMetric, m.value stream.onLog.requestInfo ≠ 0 →
      m.extractor ∈ stats.map SimpleStat.valueFn

/-- The default TCP metrics are neither dropped nor redefined. -/
def RootContext.KeepsTcp (root : RootContext) : Prop :=
  ∀ m : TcpMetric, ∃ statgen ∈ root.stats, statgen.extractor = m.extractor

theorem RootContext.keepsTcp_of_default {root : RootContext}
    (h : root.stats.map StatGen.extractor = defaultMetrics.map MetricFactory.extractor) :
    root.KeepsTcp := by
  intro m
  have hmem : m.extractor ∈ defaultMetrics.map MetricFactory.extractor := by
    cases m <;> decide +kernel
  rw [← h] at hmem
  exact List.mem_map.1 hmem

/-- The last report of a stream. -/
theorem System.Ok.conserved_iff (h : s.Ok) (hstream : s.streams id = some stream)
    (hphase : stream.phase = .tcp) (hinit : s.root.initialized = true)
    (hkept : s.root.KeepsTcp) (hlog : s.onLog libraries id access stream = some s') :
    s'.Conserved id stream ↔ s.NothingMissing libraries access stream := by
  have hbalanced := h.balanced id stream hstream hphase
  obtain ⟨r, hreport, -, -, -, hrecorded⟩ := report_eq_some hlog
  obtain ⟨requestInfo, d, stats, hfound, hprotocol, hstats, hsum⟩ :=
    TcpMetric.sum_last_report hbalanced.protocol_onLog rfl hinit hreport
  have honce : (stats.map SimpleStat.valueFn).count connectionsClosed.extractor ≤ 1 := by
    rcases hstats with hcached | ⟨-, hresolved⟩
    · exact h.closedOnce d stats hcached
    · exact h.wf.count_statsOf_le_one hresolved
  -- What is recorded for a metric is all that has come if and only if the metric is found, or
  -- there is nothing left to record.
  have hmetric : ∀ m : TcpMetric, m.sum (s'.recordedFor id) = m.amount stream ↔
      (m.value stream.onLog.requestInfo ≠ 0 → m.extractor ∈ stats.map SimpleStat.valueFn) := by
    intro m
    have hsame : (s.deleteFromRequestQueue id).recordedFor id = s.recordedFor id := rfl
    rw [hrecorded, if_pos rfl, hsame, TcpMetric.sum_append, hsum honce m, ← hbalanced.onLog m,
      UInt64.add_right_inj]
    split_ifs with hmem
    · exact iff_of_true rfl fun _ => hmem
    · rw [eq_comm, imp_iff_not hmem, not_not]
  rcases hstats with hcached | ⟨hnone, hresolved⟩
  · constructor
    · intro hconserved requestInfo' d' stats' hfound' _ m
      rw [hfound] at hfound'
      obtain ⟨-, hfound'⟩ := Prod.mk.inj (Option.some.inj hfound')
      rw [← (Prod.mk.inj hfound').2]
      exact (hmetric m).1 (hconserved m)
    · intro hmissing m
      exact (hmetric m).2 (hmissing requestInfo d stats hfound hcached m)
  · refine iff_of_true (fun m => ?_) fun requestInfo' d' stats' hfound' hcached' => ?_
    · exact (hmetric m).2 fun _ => h.wf.mem_statsOf hprotocol hresolved (hkept m)
    · rw [hfound] at hfound'
      obtain ⟨-, hfound'⟩ := Prod.mk.inj (Option.some.inj hfound')
      rw [← (Prod.mk.inj hfound').1, hnone] at hcached'
      cases hcached'

/-- Once `onLog` has been called, the stream is finished. -/
theorem System.Ok.finished (h : s.Ok) (hstream : s.streams id = some stream)
    (hlog : s.onLog libraries id access stream = some s') : Finished id s' := by
  obtain ⟨r, -, hroot, hids, hstreams, -⟩ := report_eq_some hlog
  refine ⟨?_, ?_, fun stream' hstream' => ?_⟩
  · rw [hids]
    exact h.mem_ids hstream
  · rw [hroot]
    exact h.nodup.not_mem_erase
  · rw [hstreams, Function.update_self] at hstream'
    rw [← Option.some.inj hstream']; rfl

theorem System.Ok.exists_onLog (h : s.Ok) (libraries : Libraries) (id : UInt32)
    (access : StatsStream) (stream : Stream) :
    ∃ s', s.onLog libraries id access stream = some s' :=
  (h.deleteFromRequestQueue id).exists_report libraries id access true stream.onLog

theorem System.ok_of_reaches {outbound useHostHeaderFallback : Bool}
    (hs : (statsMachine lib parseDuration libraries).Reaches (fun _ _ => True)
      (.start outbound useHostHeaderFallback) s) : s.Ok :=
  hs.invariant ok_start fun _ _ _ h _ hn => h.next hn

theorem Finished.of_reaches (h : Finished id s)
    (hs : (statsMachine lib parseDuration libraries).Reaches (fun _ _ => True) s s') :
    s'.recordedFor id = s.recordedFor id := by
  refine (hs.invariant (I := fun t => Finished id t ∧ t.recordedFor id = s.recordedFor id)
    ⟨h, rfl⟩ fun t l t' ht _ hn => ?_).2
  obtain ⟨hfinished, hrecorded⟩ := ht.1.next hn
  exact ⟨hfinished, hrecorded.trans ht.2⟩

/-- **The counts of a TCP stream are conserved if and only if the last report misses no metric**,
for every TCP stream of every run in which the TCP metrics are configured at the end of the stream.
The last report is always defined, and nothing is recorded for the stream afterwards. -/
theorem tcp_conserved_iff {outbound useHostHeaderFallback : Bool}
    (hs : (statsMachine lib parseDuration libraries).Reaches (fun _ _ => True)
      (.start outbound useHostHeaderFallback) s)
    (hstream : s.streams id = some stream) (hphase : stream.phase = .tcp)
    (hinit : s.root.initialized = true) (hkept : s.root.KeepsTcp) (access : StatsStream) :
    ∃ s', (statsMachine lib parseDuration libraries).next s (.onLog id access) = some s' ∧
      (s'.Conserved id stream ↔ s.NothingMissing libraries access stream) ∧
      ∀ s'', (statsMachine lib parseDuration libraries).Reaches (fun _ _ => True) s' s'' →
        s''.recordedFor id = s'.recordedFor id := by
  have hok := System.ok_of_reaches hs
  obtain ⟨s', hlog⟩ := hok.exists_onLog libraries id access stream
  refine ⟨s', ?_, hok.conserved_iff hstream hphase hinit hkept hlog, fun s'' hs'' => ?_⟩
  · rw [next_onLog hstream (by simp [hphase])]
    exact hlog
  · exact (hok.finished hstream hlog).of_reaches hs''

/-! ### Plugins that keep the TCP metrics -/

/-- The configurations, if they can be parsed, keep the TCP metrics. -/
def KeepsTcpMetrics (lib : JsonLibrary) : Callback → Prop
  | .onConfigure call => ∀ j, jsonParse lib call.configuration = some j →
      ∀ m : TcpMetric, KeepsMetric j m.factory.name
  | _ => True

/-- The TCP metrics are configured, and complete wherever they are in the cache. -/
structure RootContext.Complete (root : RootContext) : Prop where
  kept : root.initialized = true → root.KeepsTcp
  cached : ∀ d stats, root.metrics d = some stats → protocolOf d = .TCP →
    ∀ m : TcpMetric, m.extractor ∈ stats.map SimpleStat.valueFn

namespace RootContext.Complete

variable {root : RootContext} {host : Host} {call : ConfigureCall}

theorem onConfigure (h : root.Complete)
    (hkeeps : ∀ j, jsonParse lib call.configuration = some j →
      ∀ m : TcpMetric, KeepsMetric j m.factory.name) :
    (Stats.onConfigure lib parseDuration call root host).1.Complete := by
  cases hparse : jsonParse lib call.configuration with
  | none =>
    rw [onConfigure_of_not_parsed hparse]
    exact ⟨(fun hinit => nomatch hinit), h.cached⟩
  | some j =>
    have hinstalled := onConfigure_of_parsed parseDuration root host hparse
    obtain ⟨fieldSeparator, valueSeparator, hstats⟩ := hinstalled.stats
    refine ⟨fun _ m => ?_, fun d stats hcached => h.cached d stats (hinstalled.metrics ▸ hcached)⟩
    rw [hstats]
    exact ⟨_, List.mem_map_of_mem (mem_buildMetrics m.mem_defaultMetrics (hkeeps j hparse m)), rfl⟩

/-- What a report puts into the cache is complete. -/
theorem report (h : root.Complete) (hwf : root.Wf) {reportCall : ReportCall} {r : Report}
    (hreport : Stats.report libraries root.toPluginRootContext reportCall = some r) :
    { root with toPluginRootContext := r.plugin }.Complete := by
  have hframe := report_frame hreport
  have hinit : r.plugin.initialized = root.initialized := by rw [hframe]
  have hstats : r.plugin.stats = root.stats := by rw [hframe]
  refine ⟨fun hinit' m => ?_, fun d stats hcached hprotocol m => ?_⟩
  · show ∃ statgen ∈ r.plugin.stats, _
    rw [hstats]
    exact h.kept (hinit ▸ hinit') m
  · rcases cached_report hreport hcached with hcached | ⟨hinit', -, hresolved⟩
    · exact h.cached d stats hcached hprotocol m
    · exact hwf.mem_statsOf hprotocol hresolved (h.kept hinit' m)

end RootContext.Complete

theorem System.complete_next (h : s.root.Complete) (hok : s.Ok) {callback : Callback}
    (hkeeps : KeepsTcpMetrics lib callback)
    (hn : (statsMachine lib parseDuration libraries).next s callback = some s') :
    s'.root.Complete := by
  rcases next_cases hn with hsame | ⟨call, rfl, rfl⟩ | ⟨id, access, stream, -, -, hlog⟩ |
    ⟨items, -, hrun⟩ | ⟨-, rfl⟩
  · rw [hsame.root]
    exact ⟨h.kept, h.cached⟩
  · exact h.onConfigure hkeeps
  · obtain ⟨r, hreport, hroot, -⟩ := report_eq_some hlog
    rw [hroot]
    have hdeleted : (s.deleteFromRequestQueue id).root.Complete := ⟨h.kept, h.cached⟩
    exact hdeleted.report (hok.deleteFromRequestQueue id).wf hreport
  · refine (ticking_invariant (I := fun t => t.root.Wf ∧ t.root.Complete) hrun ⟨hok.wf, h⟩
      fun t id access stream t' _ ht _ hreport => ?_).2
    obtain ⟨r, hr, hroot, -⟩ := report_eq_some hreport
    rw [hroot]
    exact ⟨ht.1.report hr, ht.2.report ht.1 hr⟩
  · exact ⟨h.kept, h.cached⟩

/-- **The counts of all TCP streams are conserved** if no configuration of the run drops or
redefines a TCP metric. -/
theorem tcp_conserved_of_kept {outbound useHostHeaderFallback : Bool}
    (hs : (statsMachine lib parseDuration libraries).Reaches
      (fun _ callback => KeepsTcpMetrics lib callback) (.start outbound useHostHeaderFallback) s)
    (hstream : s.streams id = some stream) (hphase : stream.phase = .tcp)
    (hinit : s.root.initialized = true) :
    ∃ s', (statsMachine lib parseDuration libraries).next s (.onLog id access) = some s' ∧
      s'.Conserved id stream ∧
      ∀ s'', (statsMachine lib parseDuration libraries).Reaches (fun _ _ => True) s' s'' →
        s''.recordedFor id = s'.recordedFor id := by
  have hinv : s.Ok ∧ s.root.Complete := by
    refine hs.invariant (I := fun t => t.Ok ∧ t.root.Complete)
      ⟨System.ok_start, (fun h => nomatch h), fun _ _ h => nomatch h⟩ fun t l t' ht hkeeps hn => ?_
    exact ⟨ht.1.next hn, System.complete_next ht.2 ht.1 hkeeps hn⟩
  obtain ⟨hok, hcomplete⟩ := hinv
  obtain ⟨s', hlog⟩ := hok.exists_onLog libraries id access stream
  refine ⟨s', ?_, ?_, fun s'' hs'' => ?_⟩
  · rw [next_onLog hstream (by simp [hphase])]
    exact hlog
  · refine (hok.conserved_iff hstream hphase hinit (hcomplete.kept hinit) hlog).2 ?_
    intro requestInfo d stats hfound hcached m _
    obtain ⟨hpopulate, hprotocol⟩ := foundStats_eq_some hfound
    have hbalanced := hok.balanced id stream hstream hphase
    exact hcomplete.cached d stats hcached
      (hprotocol.trans (TcpMetric.sameTcp_populate hbalanced.protocol_onLog hpopulate).2) m
  · exact (hok.finished hstream hlog).of_reaches hs''

/-! ### Two runs -/

/-- A tick comes between the data, and another one between the data and the end. -/
theorem tcp_conserved_iff_ticks : ∃ s s' stream,
    sampleMachine.Reaches (fun _ _ => True) (.start false true) s ∧
    s.streams 1 = some stream ∧ stream.upstream = [100, 10] ∧
    sampleMachine.next s (.onLog 1 sampleCall.stream) = some s' ∧
    TcpMetric.sentBytes.sum (s'.recordedFor 1) = 110 ∧
    (s'.Conserved 1 stream ↔ s.NothingMissing sampleLibraries sampleCall.stream stream) := by
  have hrun : (sampleMachine.run (fun _ _ => True) (.start false true)
      [.onConfigure (sampleConfigure (bytes "\x7b\x7d") []), .onCreate 1 0 0, .onNewConnection 1,
        .onUpstreamData 1 100, .onTick [(1, sampleCall.stream)], .onUpstreamData 1 10,
        .onTick [(1, sampleCall.stream)]]).bind (fun s =>
      (s.streams 1).bind fun stream =>
        (sampleMachine.next s (.onLog 1 sampleCall.stream)).map fun s' =>
          (s.root.initialized, s.root.stats.map StatGen.extractor, stream.phase, stream.upstream,
            TcpMetric.sentBytes.sum (s'.recordedFor 1))) =
      some (true, defaultMetrics.map MetricFactory.extractor, .tcp, [100, 10], 110) := by
    decide +kernel
  obtain ⟨s, hs, hrun⟩ := Option.bind_eq_some_iff.1 hrun
  obtain ⟨stream, hstream, hrun⟩ := Option.bind_eq_some_iff.1 hrun
  obtain ⟨s', hlog, hrun⟩ := Option.map_eq_some_iff.1 hrun
  obtain ⟨hinit, hrun⟩ := Prod.mk.inj hrun
  obtain ⟨hstats, hrun⟩ := Prod.mk.inj hrun
  obtain ⟨hphase, hrun⟩ := Prod.mk.inj hrun
  obtain ⟨hupstream, hsum⟩ := Prod.mk.inj hrun
  have hkept : s.root.KeepsTcp := RootContext.keepsTcp_of_default hstats
  have hreaches := Machine.Reaches.of_run hs
  obtain ⟨s'', hlog', hiff, -⟩ :=
    tcp_conserved_iff hreaches hstream hphase hinit hkept sampleCall.stream
  obtain rfl := Option.some.inj (hlog.symm.trans hlog')
  exact ⟨s, s', stream, hreaches, hstream, hupstream, hlog, hsum, hiff⟩

/-- **Bytes are lost when the plugin is configured anew.**  The first configuration drops the metric
for the bytes that are sent, and the report of a stream puts its metrics into the cache.  After the
second configuration, which drops nothing, the report of another stream finds them there. -/
theorem tcp_bytes_lost : ¬ ∀ (lib : JsonLibrary) (parseDuration : Bytes → Option UInt32)
    (libraries : Libraries) (outbound useHostHeaderFallback : Bool) (s₀ s : System) (id : UInt32)
    (stream : Stream) (access : StatsStream),
    (statsMachine lib parseDuration libraries).Reaches (fun _ _ => True)
      (.start outbound useHostHeaderFallback) s₀ →
    s₀.root.initialized = true → s₀.root.KeepsTcp → id ∉ s₀.ids →
    (statsMachine lib parseDuration libraries).Reaches
      (fun _ callback => callback.isOnConfigure = false) s₀ s →
    s.streams id = some stream → stream.phase = .tcp →
    ∃ s', (statsMachine lib parseDuration libraries).next s (.onLog id access) = some s' ∧
      s'.Conserved id stream := by
  intro h
  have hrun : (sampleMachine.run (fun _ _ => True) (.start false true)
      [.onConfigure (sampleConfigure dropText []), .onCreate 1 0 0, .onNewConnection 1,
        .onLog 1 sampleCall.stream,
        .onConfigure (sampleConfigure (bytes "\x7b\x7d") [])]).bind (fun s₀ =>
      (sampleMachine.run (fun _ callback => callback.isOnConfigure = false) s₀
        [.onCreate 2 0 0, .onNewConnection 2, .onUpstreamData 2 100]).bind fun s =>
        (s.streams 2).bind fun stream =>
          (sampleMachine.next s (.onLog 2 sampleCall.stream)).map fun s' =>
            ((s₀.root.initialized, s₀.root.stats.map StatGen.extractor, s₀.ids),
              stream.phase, stream.upstream, TcpMetric.sentBytes.sum (s'.recordedFor 2))) =
      some ((true, defaultMetrics.map MetricFactory.extractor, [1]), .tcp, [100], 0) := by
    decide +kernel
  obtain ⟨s₀, hs₀, hrun⟩ := Option.bind_eq_some_iff.1 hrun
  obtain ⟨s, hs, hrun⟩ := Option.bind_eq_some_iff.1 hrun
  obtain ⟨stream, hstream, hrun⟩ := Option.bind_eq_some_iff.1 hrun
  obtain ⟨s', hlog, hrun⟩ := Option.map_eq_some_iff.1 hrun
  obtain ⟨hroot, hrun⟩ := Prod.mk.inj hrun
  obtain ⟨hinit, hroot⟩ := Prod.mk.inj hroot
  obtain ⟨hstats, hids⟩ := Prod.mk.inj hroot
  obtain ⟨hphase, hrun⟩ := Prod.mk.inj hrun
  obtain ⟨hupstream, hsum⟩ := Prod.mk.inj hrun
  have hnew : (2 : UInt32) ∉ s₀.ids := by
    rw [hids]
    decide
  obtain ⟨s'', hlog', hconserved⟩ := h sampleJson (fun _ => none) sampleLibraries false true s₀ s 2
    stream sampleCall.stream (.of_run hs₀) hinit (RootContext.keepsTcp_of_default hstats) hnew
    (.of_run hs) hstream hphase
  obtain rfl := Option.some.inj (hlog.symm.trans hlog')
  have hsent := hconserved .sentBytes
  rw [hsum, TcpMetric.amount, hupstream] at hsent
  exact absurd hsent (by decide)

end Stats

end WasmExtensions
