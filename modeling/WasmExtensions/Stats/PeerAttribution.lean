import WasmExtensions.Stats.Provenance
import WasmExtensions.Stats.WorkloadLabel

/-!
# TCP metrics name the peer

The metadata of a TCP peer arrives while the stream is open: its id and its node, one after the
other, at any time.  Until both are there, reports wait; so whatever is recorded for the stream is
recorded under dimensions of this node, if both are there at the end (`recorded_under_peer`).  These
dimensions show the workload, the namespace, the cluster and the labels of the node
(`ShowsPeerNode`).  If the id says that there will be no metadata, reports do not wait
(`report_of_not_found`).
-/

namespace WasmExtensions

namespace Stats

/-! ### The peer of a report -/

/-- The node to fall back to while the filter state has none. -/
def fallbackPeerNode (stream : StreamAccess) (peerMetadataIdKey : Bytes) : FlatNode :=
  if peerMetadataIdKey = kDownstreamMetadataIdKey then extractEmptyNodeFlatBuffer
  else (extractPeerMetadataFromUpstreamHostMetadata stream).getD extractEmptyNodeFlatBuffer

/-- The filter state holds the id of the peer, its node, both or neither. -/
structure PeerArriving (plugin : PluginRootContext) (peerId peerNode : Bytes)
    (access : StreamAccess) : Prop where
  idKey : access.properties.string [plugin.peerMetadataIdKey] = none ∨
    access.properties.string [plugin.peerMetadataIdKey] = some peerId
  nodeKey : access.properties.string [plugin.peerMetadataKey] = none ∨
    access.properties.string [plugin.peerMetadataKey] = some peerNode

/-- The filter state holds both. -/
structure PeerArrived (plugin : PluginRootContext) (peerId peerNode : Bytes)
    (access : StreamAccess) : Prop where
  idKey : access.properties.string [plugin.peerMetadataIdKey] = some peerId
  nodeKey : access.properties.string [plugin.peerMetadataKey] = some peerNode

variable {lib : JsonLibrary} {parseDuration : Bytes → Option UInt32} {libraries : Libraries}
  {plugin : PluginRootContext} {call : ReportCall} {r : Report} {requestInfo : RequestInfo}
  {peerId peerNode : Bytes} {record : SimpleStat × UInt64}

theorem peerOf_of_arrived (hid : peerId ≠ kMetadataNotFoundValue)
    (h : PeerArrived plugin peerId peerNode call.stream.toStreamAccess) :
    peerOf libraries plugin call = ⟨true, peerId, libraries.getRoot peerNode⟩ := by
  unfold peerOf PeerNodeInfo.new
  simp only [h.idKey, h.nodeKey]
  exact if_pos ⟨rfl, hid⟩

theorem maybeWaiting_of_arriving (libraries : Libraries) (hid : peerId ≠ kMetadataNotFoundValue)
    (h : PeerArriving plugin peerId peerNode call.stream.toStreamAccess) :
    (peerOf libraries plugin call).maybeWaiting = true ∨
      PeerArrived plugin peerId peerNode call.stream.toStreamAccess := by
  have hempty : ([] : Bytes) ≠ kMetadataNotFoundValue := by decide
  rcases h.idKey with hidKey | hidKey
  · left
    unfold PeerNodeInfo.maybeWaiting peerOf PeerNodeInfo.new
    simp [hidKey, hempty]
  · rcases h.nodeKey with hnodeKey | hnodeKey
    · left
      unfold PeerNodeInfo.maybeWaiting peerOf PeerNodeInfo.new
      simp [hidKey, hnodeKey, hid]
    · exact .inr ⟨hidKey, hnodeKey⟩

theorem peerOf_of_not_found (libraries : Libraries)
    (h : call.stream.properties.string [plugin.peerMetadataIdKey] = some kMetadataNotFoundValue) :
    peerOf libraries plugin call =
      ⟨false, kMetadataNotFoundValue,
        fallbackPeerNode call.stream.toStreamAccess plugin.peerMetadataIdKey⟩ := by
  unfold peerOf PeerNodeInfo.new
  simp only [h]
  exact if_neg fun hfound => hfound.2 rfl

/-- A TCP report records nothing, or it has built its vector from the node of the peer. -/
theorem build_of_arriving (hid : peerId ≠ kMetadataNotFoundValue)
    (htcp : call.requestInfo.requestProtocol = .TCP)
    (harriving : PeerArriving plugin peerId peerNode call.stream.toStreamAccess)
    (harrived : call.endStream = true →
      PeerArrived plugin peerId peerNode call.stream.toStreamAccess)
    (hreport : report libraries plugin call = some r) (hmem : record ∈ r.recording.recorded) :
    ∃ requestInfo, buildDimensions plugin call.stream (libraries.getRoot peerNode) requestInfo =
      some r.plugin.istioDimensions := by
  rcases report_inversion hreport with ⟨-, -, rfl⟩ | ⟨requestInfo, d, stats, hfound, rfl, -, -⟩
  · cases hmem
  · obtain ⟨hpopulate, hbuild, -⟩ := foundStats_inversion hfound
    -- The report did not wait, so both are there.
    have hboth : PeerArrived plugin peerId peerNode call.stream.toStreamAccess := by
      rcases maybeWaiting_of_arriving libraries hid harriving with hwaiting | hboth
      · refine harrived ?_
        unfold populate at hpopulate
        dsimp only at hpopulate
        rw [if_pos htcp, hwaiting] at hpopulate
        simpa using (Option.ite_none_left_eq_some.1 hpopulate).1
      · exact hboth
    rw [peerOf_of_arrived hid hboth] at hbuild
    exact ⟨requestInfo, hbuild⟩

theorem populate_of_tcp (htcp : call.requestInfo.requestProtocol = .TCP) {peer : PeerNodeInfo}
    (h : populate libraries plugin call peer = some requestInfo) :
    requestInfo =
      populateTCPRequestInfo call.stream.toStreamAccess plugin.outbound call.requestInfo := by
  unfold populate at h
  dsimp only at h
  rw [if_pos htcp] at h
  exact (Option.some.inj (Option.ite_none_left_eq_some.1 h).2).symm

/-- **A report does not wait for a peer that is not found**: it goes on with the node to fall back
to. -/
theorem report_of_not_found (hinit : plugin.initialized = true)
    (htcp : call.requestInfo.requestProtocol = .TCP)
    (hidKey : call.stream.properties.string [plugin.peerMetadataIdKey] =
      some kMetadataNotFoundValue)
    (hreport : report libraries plugin call = some r) :
    buildDimensions plugin call.stream
        (fallbackPeerNode call.stream.toStreamAccess plugin.peerMetadataIdKey)
        (populateTCPRequestInfo call.stream.toStreamAccess plugin.outbound call.requestInfo) =
      some r.plugin.istioDimensions ∧
    ∃ stats, (plugin.metrics r.plugin.istioDimensions).or
        (statsOf plugin.stats r.plugin.istioDimensions) = some stats ∧
      r.recording = recordStats call.stream call.endStream stats
        ⟨populateTCPRequestInfo call.stream.toStreamAccess plugin.outbound call.requestInfo, [],
          plugin.expressions⟩ := by
  have hpeer := peerOf_of_not_found libraries hidKey
  rcases report_inversion hreport with ⟨hskip, -, -⟩ |
    ⟨requestInfo, d, stats, hfound, rfl, hrecording, -⟩
  · rw [hinit, hpeer] at hskip
    rcases hskip with hskip | hskip
    · cases hskip
    · unfold populate PeerNodeInfo.maybeWaiting at hskip
      simp [htcp] at hskip
  · obtain ⟨hpopulate, hbuild, hstats⟩ := foundStats_inversion hfound
    rw [hpeer] at hbuild
    rw [← populate_of_tcp htcp hpopulate]
    exact ⟨hbuild, stats, hstats, hrecording⟩

/-! ### The node of the peer in the dimensions -/

/-- The dimensions show the node of the peer, at the end that is not the local one. -/
structure ShowsPeerNode (outbound : Bool) (node : FlatNode) (d : IstioDimensions) : Prop where
  workload : d[(labelsOf (!outbound)).workload.index]? =
    some (orUnknown (node.workloadName.getD []))
  workloadNamespace : d[(labelsOf (!outbound)).workloadNamespace.index]? =
    some (orUnknown (node.namespace_.getD []))
  cluster : d[(labelsOf (!outbound)).cluster.index]? = some (orUnknown (node.clusterId.getD []))
  app : d[(labelsOf (!outbound)).app.index]? =
    some (orUnknown ((labelValue node (bytes "app")).getD []))
  version : d[(labelsOf (!outbound)).version.index]? =
    some (orUnknown ((labelValue node (bytes "version")).getD []))
  canonicalService : d[(labelsOf (!outbound)).canonicalService.index]? =
    some (orUnknown ((labelValue node kCanonicalServiceLabelName).getD (defaultService node)))
  canonicalRevision : d[(labelsOf (!outbound)).canonicalRevision.index]? =
    some (orUnknown ((labelValue node kCanonicalServiceRevisionLabelName).getD (bytes "latest")))
  serviceNamespace : outbound = true →
    d[StandardLabels.destinationServiceNamespace.index]? =
      some (orUnknown (node.namespace_.getD []))

section

variable {outbound : Bool} {node : FlatNode} {stream : StatsStream} {d e : IstioDimensions}
  {l : StandardLabels}

/-- The labels that are written describe the peer. -/
theorem showsPeerNode_of_written (hlength : countStandardLabels ≤ d.length)
    (h : ∀ l ∈ peerLabels outbound,
      e[l.index]? = (mapPeer outbound node d)[l.index]?.map orUnknown) :
    ShowsPeerNode outbound node e := by
  have hvalues : NodeValues (labelsOf (!outbound)) (mapPeer outbound node d) node :=
    nodeValues_mapNode hlength
  have hend : ∀ l ∈ (labelsOf (!outbound)).all, l ∈ peerLabels outbound := by
    cases outbound <;> decide
  have hshown {l : StandardLabels} {value : Bytes} (hl : l ∈ (labelsOf (!outbound)).all)
      (hvalue : (mapPeer outbound node d)[l.index]? = some value) :
      e[l.index]? = some (orUnknown value) := by
    rw [h l (hend l hl), hvalue, Option.map_some]
  constructor
  · exact hshown (by simp [NodeLabels.all]) hvalues.workload_eq
  · exact hshown (by simp [NodeLabels.all]) hvalues.workloadNamespace_eq
  · exact hshown (by simp [NodeLabels.all]) hvalues.cluster_eq
  · exact hshown (by simp [NodeLabels.all]) hvalues.app_eq
  · exact hshown (by simp [NodeLabels.all]) hvalues.version_eq
  · exact hshown (by simp [NodeLabels.all]) hvalues.canonicalService_eq
  · exact hshown (by simp [NodeLabels.all]) hvalues.canonicalRevision_eq
  · rintro rfl
    rw [h _ List.mem_cons_self, mapPeer, Bool.not_true, mapNode_serviceNamespace hlength]
    rfl

/-- The labels of the peer in what a report builds. -/
theorem buildDimensions_peer (h : buildDimensions plugin stream node requestInfo = some e)
    (hl : l ∈ peerLabels plugin.outbound) :
    e[l.index]? =
      (mapPeer plugin.outbound node plugin.istioDimensions)[l.index]?.map orUnknown := by
  obtain ⟨d, hmap, heval⟩ := Option.bind_eq_some_iff.1 h
  obtain ⟨-, hd⟩ := map_eq_finish hmap
  have hother : l ≠ .grpcResponseStatus ∧ ∀ l' ∈ requestLabels, l' ≠ l := by
    revert l
    cases plugin.outbound <;> decide
  rw [(evaluateExpressions_frame heval).2 _ (.inl l.index_lt), hd, finish_get hother.1,
    writes_mapRequest.frame _ _ fun l' hl' hindex =>
      hother.2 l' hl' (StandardLabels.index_injective hindex)]

/-- **A vector that is built from the node of the peer shows this node.** -/
theorem showsPeerNode_of_build (h : buildDimensions plugin stream node requestInfo = some e) :
    ShowsPeerNode plugin.outbound node e := by
  obtain ⟨d, hmap, -⟩ := Option.bind_eq_some_iff.1 h
  exact showsPeerNode_of_written (map_eq_some hmap).1 fun l hl => buildDimensions_peer h hl

end

/-! ### Records under the node of a peer -/

/-- The generators have been configured in the run to `s`. -/
def ConfiguredBefore (M : Machine System Callback) (s₀ s : System) (statgens : List StatGen) :
    Prop :=
  ∃ u, M.Passes s₀ s u ∧ u.root.stats = statgens

/-- Two plugins differ at most in what reports change. -/
def SameConfiguration (plugin plugin' : PluginRootContext) : Prop :=
  plugin' =
    { plugin with
      istioDimensions := plugin'.istioDimensions
      metrics := plugin'.metrics
      cacheHitsAccumulator := plugin'.cacheHitsAccumulator }

theorem SameConfiguration.report {plugin' : PluginRootContext}
    (h : SameConfiguration plugin plugin')
    (hreport : Stats.report libraries plugin' call = some r) :
    SameConfiguration plugin r.plugin := by
  unfold SameConfiguration at h ⊢
  rw [report_frame hreport, h]

/-- In the run to `s`, the value was recorded by a report that had built its vector from the node,
so that the vector shows the node.  The metric was resolved for this vector, by a generator that
had been configured before. -/
def System.RecordedUnder (M : Machine System Callback) (libraries : Libraries) (s s₀ : System)
    (node : FlatNode) (record : SimpleStat × UInt64) : Prop :=
  ∃ (t : System) (plugin : PluginRootContext) (call : ReportCall) (r : Report)
    (requestInfo : RequestInfo) (statgens : List StatGen) (statgen : StatGen),
    M.Passes s₀ s t ∧ SameConfiguration t.root.toPluginRootContext plugin ∧
    Stats.report libraries plugin call = some r ∧ record ∈ r.recording.recorded ∧
    buildDimensions plugin call.stream node requestInfo = some r.plugin.istioDimensions ∧
    ShowsPeerNode plugin.outbound node r.plugin.istioDimensions ∧
    ConfiguredBefore M s₀ t statgens ∧ statgen ∈ statgens ∧
    statgen.resolve r.plugin.istioDimensions = some record.1

variable {M : Machine System Callback} {s₀ s s' t : System} {id : UInt32} {stream : Stream}
  {access : StatsStream} {callback : Callback} {node : FlatNode}

theorem ConfiguredBefore.next {statgens : List StatGen} (h : ConfiguredBefore M s₀ s statgens)
    (hn : M.next s callback = some s') : ConfiguredBefore M s₀ s' statgens := by
  obtain ⟨u, hu, hstatgens⟩ := h
  exact ⟨u, hu.next hn, hstatgens⟩

theorem System.RecordedUnder.next (h : s.RecordedUnder M libraries s₀ node record)
    (hn : M.next s callback = some s') : s'.RecordedUnder M libraries s₀ node record := by
  obtain ⟨t, plugin, call, r, requestInfo, statgens, statgen, hpasses, hrest⟩ := h
  exact ⟨t, plugin, call, r, requestInfo, statgens, statgen, hpasses.next hn, hrest⟩

/-- A report of a TCP stream whose peer arrives. -/
theorem recordedUnder_report (hpasses : M.Passes s₀ s t)
    (hsame : SameConfiguration t.root.toPluginRootContext plugin)
    (hcached : CachedFrom (ConfiguredBefore M s₀ t) plugin)
    (hconfigured : ConfiguredBefore M s₀ t plugin.stats)
    (hid : peerId ≠ kMetadataNotFoundValue) (htcp : call.requestInfo.requestProtocol = .TCP)
    (harriving : PeerArriving plugin peerId peerNode call.stream.toStreamAccess)
    (harrived : call.endStream = true →
      PeerArrived plugin peerId peerNode call.stream.toStreamAccess)
    (hreport : report libraries plugin call = some r) (hmem : record ∈ r.recording.recorded) :
    s.RecordedUnder M libraries s₀ (libraries.getRoot peerNode) record := by
  obtain ⟨requestInfo, hbuild⟩ := build_of_arriving hid htcp harriving harrived hreport hmem
  obtain ⟨statgens, statgen, hstatgens, hstatgen, hresolve⟩ :=
    hcached.recorded (fun _ => hconfigured) hreport hmem
  exact ⟨t, plugin, call, r, requestInfo, statgens, statgen, hpasses, hsame, hreport, hmem, hbuild,
    showsPeerNode_of_build hbuild, hstatgens, hstatgen, hresolve⟩

/-! ### Runs -/

/-- While the stream is open, the filter state holds what has arrived of the peer so far. -/
def PeerArrives (id : UInt32) (peerId peerNode : Bytes) (s : System) : Callback → Prop
  | .onTick items => ∀ item ∈ items, item.1 = id →
      PeerArriving s.root.toPluginRootContext peerId peerNode item.2.toStreamAccess
  | _ => True

/-- What is true of a stream while it is open, if its peer arrives. -/
structure System.NamesPeer (M : Machine System Callback) (libraries : Libraries) (s s₀ : System)
    (id : UInt32) (node : FlatNode) : Prop where
  ok : s.Ok
  reached : M.Reaches (fun _ _ => True) s₀ s
  cached : CachedFrom (ConfiguredBefore M s₀ s) s.root.toPluginRootContext
  recorded : ∀ stream, s.streams id = some stream → stream.phase = .tcp →
    ∀ record ∈ s.recordedFor id, s.RecordedUnder M libraries s₀ node record

namespace System.NamesPeer

theorem start {outbound useHostHeaderFallback : Bool} :
    (System.start outbound useHostHeaderFallback).NamesPeer M libraries
      (.start outbound useHostHeaderFallback) id node :=
  ⟨System.ok_start, .refl, .new, fun _ h => nomatch h⟩

theorem configured (h : s.NamesPeer M libraries s₀ id node) :
    ConfiguredBefore M s₀ s s.root.stats :=
  ⟨s, ⟨h.reached, .refl⟩, rfl⟩

/-- The loop of `onTick` records for the stream under the node. -/
theorem ticking (h : s.NamesPeer M libraries s₀ id (libraries.getRoot peerNode))
    (hid : peerId ≠ kMetadataNotFoundValue) {items : List (UInt32 × StatsStream)}
    (harrives : PeerArrives id peerId peerNode s (.onTick items))
    (hrun : (ticking libraries).run (fun _ _ => True) s items = some s')
    (hstream : s.streams id = some stream) (hphase : stream.phase = .tcp) :
    ∀ record ∈ s'.recordedFor id,
      s.RecordedUnder M libraries s₀ (libraries.getRoot peerNode) record := by
  have hprotocol := (h.ok.balanced id stream hstream hphase).protocol
  refine (ticking_invariant (I := fun t =>
      SameConfiguration s.root.toPluginRootContext t.root.toPluginRootContext ∧
      CachedFrom (ConfiguredBefore M s₀ s) t.root.toPluginRootContext ∧
      (∀ stream, t.streams id = some stream → stream.requestInfo.requestProtocol = .TCP) ∧
      ∀ record ∈ t.recordedFor id,
        s.RecordedUnder M libraries s₀ (libraries.getRoot peerNode) record) hrun
    ⟨rfl, h.cached, fun stream' hstream' => ?_, h.recorded stream hstream hphase⟩
    fun t id' access stream' t' hitem ⟨hsame, hcached, htcp, hrecorded⟩ hstream' hreport =>
      ?_).2.2.2
  · rw [← Option.some.inj (hstream.symm.trans hstream')]
    exact hprotocol
  · obtain ⟨r, hr, hroot, -, hstreams, hadded⟩ := report_eq_some hreport
    have hstats : ConfiguredBefore M s₀ s t.root.stats := by
      rw [hsame]
      exact h.configured
    refine ⟨?_, hcached.system_report (fun _ => hstats) hreport, fun stream'' hstream'' => ?_,
      fun record hmem => ?_⟩
    · rw [hroot]
      exact hsame.report hr
    · rw [hstreams] at hstream''
      by_cases heq : id = id'
      · rw [heq, Function.update_self] at hstream''
        rw [← Option.some.inj hstream'']
        exact (TcpMetric.moves_report (htcp stream' (heq ▸ hstream')) hr).protocol
      · rw [Function.update_of_ne heq] at hstream''
        exact htcp stream'' hstream''
    · rw [hadded] at hmem
      rcases List.mem_append.1 hmem with hmem | hmem
      · exact hrecorded record hmem
      · split_ifs at hmem with heq
        · have harriving : PeerArriving t.root.toPluginRootContext peerId peerNode
              access.toStreamAccess := by
            have hitem := harrives (id', access) hitem heq.symm
            rw [hsame]
            exact ⟨hitem.idKey, hitem.nodeKey⟩
          exact recordedUnder_report ⟨h.reached, .refl⟩ hsame hcached hstats hid
            (htcp stream' (heq ▸ hstream')) harriving
            (fun hend => absurd hend Bool.false_ne_true) hr hmem
        · cases hmem

theorem next (h : s.NamesPeer (statsMachine lib parseDuration libraries) libraries s₀ id
      (libraries.getRoot peerNode)) (hid : peerId ≠ kMetadataNotFoundValue)
    (harrives : PeerArrives id peerId peerNode s callback)
    (hn : (statsMachine lib parseDuration libraries).next s callback = some s') :
    s'.NamesPeer (statsMachine lib parseDuration libraries) libraries s₀ id
      (libraries.getRoot peerNode) := by
  refine ⟨h.ok.next hn, h.reached.step trivial hn,
    (h.cached.next (fun _ => h.configured) hn).mono fun statgens hstatgens => hstatgens.next hn,
    fun stream hstream hphase record hmem => ?_⟩
  -- Before the callback, nothing had been recorded, or the stream was a TCP stream.
  have hlogged : stream.phase ≠ .logged := by
    rw [hphase]
    decide
  have hbefore : ∀ record ∈ s.recordedFor id, s.RecordedUnder
      (statsMachine lib parseDuration libraries) libraries s₀ (libraries.getRoot peerNode)
      record := by
    rcases h.ok.phase_before hn hstream hlogged with ⟨stream₀, hstream₀, hsame⟩ | hnone
    · exact h.recorded stream₀ hstream₀ (hsame.trans hphase)
    · rw [hnone]
      exact fun _ h => nomatch h
  refine System.RecordedUnder.next ?_ hn
  rcases next_cases hn with hsame | ⟨configuration, rfl, rfl⟩ |
    ⟨id', access, stream', rfl, hstream', hlog⟩ | ⟨items, rfl, hrun⟩ | ⟨rfl, rfl⟩
  · unfold System.recordedFor at hmem
    rw [hsame.recorded] at hmem
    exact hbefore record hmem
  · exact hbefore record hmem
  · obtain ⟨r, -, -, -, hstreams, hadded⟩ := report_eq_some hlog
    rw [hadded] at hmem
    split_ifs at hmem with heq
    · -- The last report of a stream leaves no open stream.
      rw [hstreams, heq, Function.update_self] at hstream
      rw [← Option.some.inj hstream] at hphase
      cases hphase
    · rw [List.append_nil] at hmem
      exact hbefore record hmem
  · obtain ⟨stream₀, hstream₀, hsame⟩ := phase_ticking hrun hstream
    exact h.ticking hid harrives hrun hstream₀ (hsame.trans hphase) record hmem
  · exact hbefore record hmem

end System.NamesPeer

/-- The entry of a tick is a report of the stream whose vector is built from the node, which it
shows. -/
def System.ReportsWith (libraries : Libraries) (t t' : System) (id : UInt32) (access : StatsStream)
    (stream : Stream) (node : FlatNode) : Prop :=
  t.tickItem libraries id access = some t' ∧
    let requestInfo := populateTCPRequestInfo access.toStreamAccess t.root.outbound
      stream.requestInfo
    buildDimensions t.root.toPluginRootContext access node requestInfo =
      some t'.root.istioDimensions ∧
    ShowsPeerNode t.root.outbound node t'.root.istioDimensions ∧
    ∃ stats, (t.root.metrics t'.root.istioDimensions).or
        (statsOf t.root.stats t'.root.istioDimensions) = some stats ∧
      t'.recordedFor id = t.recordedFor id ++
        (recordStats access false stats ⟨requestInfo, [], t.root.expressions⟩).recorded

theorem System.Ok.exists_reportsWith (h : s.Ok) (libraries : Libraries)
    (hstream : s.streams id = some stream) (hphase : stream.phase = .tcp)
    (hinit : s.root.initialized = true)
    (hidKey : access.properties.string [s.root.peerMetadataIdKey] = some kMetadataNotFoundValue) :
    ∃ s', s.ReportsWith libraries s' id access stream
      (fallbackPeerNode access.toStreamAccess s.root.peerMetadataIdKey) := by
  obtain ⟨s', hreport⟩ := h.exists_report libraries id access false stream
  obtain ⟨r, hr, hroot, -, -, hadded⟩ := report_eq_some hreport
  obtain ⟨hbuild, stats, hstats, hrecording⟩ :=
    report_of_not_found hinit (h.balanced id stream hstream hphase).protocol hidKey hr
  have htick : s.tickItem libraries id access = some s' := by
    unfold System.tickItem
    rw [hstream]
    exact hreport
  have hdimensions : s'.root.istioDimensions = r.plugin.istioDimensions := by rw [hroot]
  refine ⟨s', htick, ?_, ?_, stats, ?_, ?_⟩
  · rw [hdimensions]
    exact hbuild
  · rw [hdimensions]
    exact showsPeerNode_of_build hbuild
  · rw [hdimensions]
    exact hstats
  · rw [hadded, if_pos rfl, hrecording]

/-- **TCP metrics name the peer**, once its metadata has arrived: whatever has been recorded for a
TCP stream is recorded under the node of the peer, if the id and the node are there when the stream
ends, wherever between ticks and data they have arrived.  If the id says that the peer is not found,
each report before the end goes on with the node to fall back to. -/
theorem recorded_under_peer {outbound useHostHeaderFallback : Bool} (id : UInt32)
    (peerId peerNode : Bytes) :
    (peerId ≠ kMetadataNotFoundValue → ∀ s stream access,
      (statsMachine lib parseDuration libraries).Reaches
        (fun s callback => PeerArrives id peerId peerNode s callback)
        (.start outbound useHostHeaderFallback) s →
      s.streams id = some stream → stream.phase = .tcp →
      PeerArrived s.root.toPluginRootContext peerId peerNode access.toStreamAccess →
      ∃ s', (statsMachine lib parseDuration libraries).next s (.onLog id access) = some s' ∧
        (∀ record ∈ s'.recordedFor id,
          s'.RecordedUnder (statsMachine lib parseDuration libraries) libraries
            (.start outbound useHostHeaderFallback) (libraries.getRoot peerNode) record) ∧
        ∀ s'', (statsMachine lib parseDuration libraries).Reaches (fun _ _ => True) s' s'' →
          s''.recordedFor id = s'.recordedFor id) ∧
    ∀ s t stream access before after,
      (statsMachine lib parseDuration libraries).Reaches (fun _ _ => True)
        (.start outbound useHostHeaderFallback) s →
      ((before ++ (id, access) :: after).map Prod.fst).Perm s.root.requestQueue →
      (ticking libraries).run (fun _ _ => True) s before = some t →
      t.root.initialized = true → t.streams id = some stream → stream.phase = .tcp →
      access.properties.string [t.root.peerMetadataIdKey] = some kMetadataNotFoundValue →
      ∃ t', t.ReportsWith libraries t' id access stream
        (fallbackPeerNode access.toStreamAccess t.root.peerMetadataIdKey) := by
  constructor
  · intro hid s stream access hs hstream hphase harrived
    have hnames := hs.invariant
      (I := fun s => s.NamesPeer (statsMachine lib parseDuration libraries) libraries
        (.start outbound useHostHeaderFallback) id (libraries.getRoot peerNode))
      .start fun _ _ _ h harrives hn => h.next hid harrives hn
    obtain ⟨s', hlog⟩ := hnames.ok.exists_onLog libraries id access stream
    have hn : (statsMachine lib parseDuration libraries).next s (.onLog id access) = some s' := by
      rw [next_onLog hstream (by simp [hphase])]
      exact hlog
    refine ⟨s', hn, fun record hmem => ?_, fun s'' hs'' =>
      (hnames.ok.finished hstream hlog).of_reaches hs''⟩
    refine System.RecordedUnder.next ?_ hn
    obtain ⟨r, hr, -, -, -, hadded⟩ := System.report_eq_some hlog
    rw [hadded, if_pos rfl] at hmem
    rcases List.mem_append.1 hmem with hmem | hmem
    · exact hnames.recorded stream hstream hphase record hmem
    · have hsame : SameConfiguration s.root.toPluginRootContext
          (s.deleteFromRequestQueue id).root.toPluginRootContext := rfl
      refine recordedUnder_report ⟨hnames.reached, .refl⟩ hsame hnames.cached hnames.configured hid
        ?_ ?_ ?_ hr hmem
      · exact (hnames.ok.balanced id stream hstream hphase).protocol_onLog
      · exact ⟨.inr harrived.idKey, .inr harrived.nodeKey⟩
      · exact fun _ => harrived
  · intro s t stream access before after hs hperm hrun hinit hstream hphase hidKey
    have hok : t.Ok := by
      refine (System.ok_of_reaches hs).onTick (fun item hmem => ?_) hrun
      exact hperm.subset (List.mem_map_of_mem (List.mem_append_left _ hmem))
    exact hok.exists_reportsWith libraries hstream hphase hinit hidKey

/-! ### A run -/

instance {access : StreamAccess} : Decidable (PeerArriving plugin peerId peerNode access) :=
  decidable_of_iff
    ((access.properties.string [plugin.peerMetadataIdKey] = none ∨
        access.properties.string [plugin.peerMetadataIdKey] = some peerId) ∧
      (access.properties.string [plugin.peerMetadataKey] = none ∨
        access.properties.string [plugin.peerMetadataKey] = some peerNode))
    ⟨fun h => ⟨h.1, h.2⟩, fun h => ⟨h.1, h.2⟩⟩

instance decidablePeerArrives : ∀ s callback, Decidable (PeerArrives id peerId peerNode s callback)
  | s, .onTick items => inferInstanceAs (Decidable (∀ item ∈ items, item.1 = id →
      PeerArriving s.root.toPluginRootContext peerId peerNode item.2.toStreamAccess))
  | _, .onConfigure _ | _, .onCreate .. | _, .onRequestHeaders .. | _, .onResponseHeaders _
  | _, .onNewConnection _ | _, .onDownstreamData .. | _, .onUpstreamData .. | _, .onLog ..
  | _, .onDelete _ | _, .onDone => inferInstanceAs (Decidable True)

/-- A stream from downstream with what the filter state holds of its peer. -/
def peerStream (peerId peerNode : Option Bytes) : StatsStream where
  properties :=
    { Properties.none with
      string := fun path =>
        if path = [kDownstreamMetadataIdKey] then peerId
        else if path = [kDownstreamMetadataKey] then peerNode
        else none }
  requestHeaders := fun _ => none
  evaluateString := fun _ => none
  evaluateInt64 := fun _ => none

/-- The node of a peer is the workload that the filter state names. -/
def peerLibraries : Libraries :=
  ⟨fun peerNode => { workloadName := some peerNode }, fun _ => (false, 0)⟩

/-- The id arrives before the second tick, and the node before the third.  After that, bytes are
still to be recorded. -/
theorem recorded_under_peer_late : ∃ s s' t',
    (statsMachine sampleJson (fun _ => none) peerLibraries).next s
      (.onLog 1 (peerStream (some (bytes "id")) (some (bytes "node")))) = some s' ∧
    TcpMetric.sentBytes.sum (s.recordedFor 1) = 110 ∧
    TcpMetric.sentBytes.sum (s'.recordedFor 1) = 111 ∧
    (∀ record ∈ s'.recordedFor 1,
      s'.RecordedUnder (statsMachine sampleJson (fun _ => none) peerLibraries) peerLibraries
        (.start false true) { workloadName := some (bytes "node") } record) ∧
    ∃ stream, s.ReportsWith peerLibraries t' 1 (peerStream (some kMetadataNotFoundValue) none)
      stream {} := by
  have hrun : ((statsMachine sampleJson (fun _ => none) peerLibraries).run
      (fun s callback => PeerArrives 1 (bytes "id") (bytes "node") s callback) (.start false true)
      [.onConfigure (sampleConfigure (bytes "\x7b\x7d") []), .onCreate 1 0 0, .onNewConnection 1,
        .onUpstreamData 1 100, .onTick [(1, peerStream none none)], .onUpstreamData 1 10,
        .onTick [(1, peerStream (some (bytes "id")) none)],
        .onTick [(1, peerStream (some (bytes "id")) (some (bytes "node")))],
        .onUpstreamData 1 1]).bind (fun s =>
      (s.streams 1).bind fun stream =>
        ((statsMachine sampleJson (fun _ => none) peerLibraries).next s
          (.onLog 1 (peerStream (some (bytes "id")) (some (bytes "node"))))).map fun s' =>
          ((stream.phase, s.root.initialized, s.root.requestQueue,
            decide (s.root.peerMetadataIdKey = kDownstreamMetadataIdKey ∧
              s.root.peerMetadataKey = kDownstreamMetadataKey)),
            TcpMetric.sentBytes.sum (s.recordedFor 1),
            TcpMetric.sentBytes.sum (s'.recordedFor 1))) =
      some ((.tcp, true, [1], true), 110, 111) := by
    decide +kernel
  obtain ⟨s, hs, hrun⟩ := Option.bind_eq_some_iff.1 hrun
  obtain ⟨stream, hstream, hrun⟩ := Option.bind_eq_some_iff.1 hrun
  obtain ⟨s', hn, hrun⟩ := Option.map_eq_some_iff.1 hrun
  obtain ⟨hstate, hrun⟩ := Prod.mk.inj hrun
  obtain ⟨hphase, hstate⟩ := Prod.mk.inj hstate
  obtain ⟨hinit, hstate⟩ := Prod.mk.inj hstate
  obtain ⟨hqueue, hkeys⟩ := Prod.mk.inj hstate
  obtain ⟨hidKey, hnodeKey⟩ := of_decide_eq_true hkeys
  obtain ⟨hbefore, hafter⟩ := Prod.mk.inj hrun
  have hreaches := Machine.Reaches.of_run hs
  have harrived : PeerArrived s.root.toPluginRootContext (bytes "id") (bytes "node")
      (peerStream (some (bytes "id")) (some (bytes "node"))).toStreamAccess := by
    constructor
    · rw [hidKey]; rfl
    · rw [hnodeKey]; rfl
  obtain ⟨s'', hn', hrecorded, -⟩ := (recorded_under_peer 1 (bytes "id") (bytes "node")).1
    (by decide) s stream _ hreaches hstream hphase harrived
  obtain rfl := Option.some.inj (hn.symm.trans hn')
  have hnotFound : (peerStream (some kMetadataNotFoundValue) none).properties.string
      [s.root.peerMetadataIdKey] = some kMetadataNotFoundValue := by
    rw [hidKey]; rfl
  obtain ⟨t', ht'⟩ := (recorded_under_peer 1 [] []).2 s s stream
    (peerStream (some kMetadataNotFoundValue) none) [] [] (hreaches.mono fun _ _ _ => trivial)
    (by rw [hqueue]; exact .refl _) rfl hinit hstream hphase hnotFound
  rw [hidKey] at ht'
  exact ⟨s, s', t', hn, hbefore, hafter, hrecorded, stream, ht'⟩

end Stats

end WasmExtensions
