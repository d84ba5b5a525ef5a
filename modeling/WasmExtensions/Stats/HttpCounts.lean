import WasmExtensions.Stats.HttpMetrics

/-!
# HTTP and gRPC streams are counted once

While an HTTP stream is open, none of the four HTTP metrics is recorded for it, and what has been
recorded of its messages is what the stream remembers (`Open`), whatever ticks come in between.  The
last report records the four metrics once and the messages that are left, as far as it finds the
metrics (`http_counted_iff`).

As with TCP, a metric that an earlier configuration has dropped may be missing in the cache
(`request_not_counted`).  If no configuration drops or redefines one of these metrics, none is ever
missing (`http_counted_of_kept`).
-/

namespace WasmExtensions

namespace Stats

variable {lib : JsonLibrary} {parseDuration : Bytes → Option UInt32} {libraries : Libraries}
  {s s₀ s' : System} {id : UInt32} {stream stream' : Stream} {access : StatsStream}
  {endStream : Bool} {accesses accesses' : List StreamAccess} {protocol : Protocol}
  {plugin : PluginRootContext} {call : ReportCall} {r : Report} {m : MessageMetric}

/-! ### Message counts in the filter state -/

/-- The protocol that the content type tells. -/
def contentProtocol (access : StreamAccess) : Protocol :=
  if access.requestHeader (bytes "content-type") ∈ kGrpcContentTypes then .GRPC else .HTTP

/-- The last count that could be read. -/
def MessageMetric.lastSeen (m : MessageMetric) (libraries : Libraries)
    (accesses : List StreamAccess) : UInt64 :=
  ((accesses.filterMap (grpcStats libraries)).getLast?.map m.part).getD 0

/-- Whatever can be read is a pair of counts, and neither of them ever falls. -/
structure GrpcStatsGrow (libraries : Libraries) (accesses : List StreamAccess) : Prop where
  wellFormed : ∀ access ∈ accesses, GrpcStatsWellFormed libraries access
  sorted : (accesses.filterMap (grpcStats libraries)).Pairwise fun before after =>
    before.1 ≤ after.1 ∧ before.2 ≤ after.2

theorem GrpcStatsGrow.of_append (h : GrpcStatsGrow libraries (accesses ++ accesses')) :
    GrpcStatsGrow libraries accesses where
  wellFormed access hmem := h.wellFormed access (List.mem_append_left _ hmem)
  sorted := by
    have hsorted := h.sorted
    rw [List.filterMap_append] at hsorted
    exact (List.pairwise_append.1 hsorted).1

theorem MessageMetric.lastSeen_append (access : StreamAccess) :
    m.lastSeen libraries (accesses ++ [access]) =
      ((grpcStats libraries access).map m.part).getD (m.lastSeen libraries accesses) := by
  unfold lastSeen
  rw [List.filterMap_append]
  cases hstats : grpcStats libraries access with
  | none =>
    rw [List.filterMap_cons_none hstats, List.filterMap_nil, List.append_nil]; rfl
  | some counts =>
    rw [List.filterMap_cons_some hstats, List.filterMap_nil, List.getLast?_concat]; rfl

theorem GrpcStatsGrow.lastSeen_le {access : StreamAccess}
    (h : GrpcStatsGrow libraries (accesses ++ [access])) (m : MessageMetric) :
    m.lastSeen libraries accesses ≤ m.lastSeen libraries (accesses ++ [access]) := by
  rw [MessageMetric.lastSeen_append]
  cases hstats : grpcStats libraries access with
  | none => exact UInt64.le_refl _
  | some counts =>
    show m.lastSeen libraries accesses ≤ m.part counts
    unfold MessageMetric.lastSeen
    cases hlast : (accesses.filterMap (grpcStats libraries)).getLast? with
    | none => exact UInt64.zero_le
    | some before =>
      have hsorted := h.sorted
      rw [List.filterMap_append, List.filterMap_cons_some hstats, List.filterMap_nil] at hsorted
      have hle := (List.pairwise_append.1 hsorted).2.2 before (List.mem_of_getLast? hlast) counts
        (List.mem_singleton_self _)
      show m.part before ≤ m.part counts
      cases m with
      | requestMessagesTotal => exact hle.1
      | responseMessagesTotal => exact hle.2

/-! ### Reports of an open stream -/

/-- What is true of an HTTP stream while it is open.  The filter state has been read from
`accesses`. -/
structure Open (libraries : Libraries) (protocol : Protocol) (accesses : List StreamAccess)
    (recorded : List (SimpleStat × UInt64)) (stream : Stream) : Prop where
  sameProtocol : stream.requestInfo.requestProtocol = protocol
  notTcp : protocol ≠ .TCP
  notRecorded : ∀ m : HttpMetric, m.times recorded = 0
  count : protocol = .GRPC → ∀ m : MessageMetric,
    m.count stream.requestInfo = m.lastSeen libraries accesses
  last : protocol = .GRPC → ∀ m : MessageMetric,
    m.total recorded = (m.last stream.requestInfo).toNat ∧
      m.last stream.requestInfo ≤ m.count stream.requestInfo

/-- What a report of an open stream finds. -/
theorem Open.report_inversion {recorded : List (SimpleStat × UInt64)}
    (h : Open libraries protocol accesses recorded stream)
    (hgrow : GrpcStatsGrow libraries (accesses ++ [access.toStreamAccess]))
    (hcontent : endStream = true → contentProtocol access.toStreamAccess = protocol)
    (hinit : plugin.initialized = true)
    (hreport : Stats.report libraries plugin ⟨access, stream.requestInfo, endStream⟩ = some r) :
    ∃ requestInfo d stats,
      foundStats libraries plugin ⟨access, stream.requestInfo, endStream⟩ =
        some (requestInfo, d, stats) ∧
      r.recording = recordStats access endStream stats ⟨requestInfo, [], plugin.expressions⟩ ∧
      requestInfo.requestProtocol = protocol ∧
      (protocol = .GRPC → ∀ m : MessageMetric,
        m.count requestInfo = m.lastSeen libraries (accesses ++ [access.toStreamAccess]) ∧
        m.last requestInfo = m.last stream.requestInfo ∧
        m.Balanced (m.total recorded) ⟨requestInfo, [], plugin.expressions⟩) := by
  have hhttp : stream.requestInfo.requestProtocol ≠ .TCP := by
    rw [h.sameProtocol]
    exact h.notTcp
  rcases Stats.report_inversion hreport with ⟨hskip, -, -⟩ |
    ⟨requestInfo, d, stats, hfound, -, hrecording, -⟩
  · obtain ⟨requestInfo, hpopulate⟩ :=
      exists_populate_of_http libraries plugin ⟨access, stream.requestInfo, endStream⟩
        (peerOf libraries plugin ⟨access, stream.requestInfo, endStream⟩) hhttp
    rw [hinit, hpopulate] at hskip
    rcases hskip with hskip | hskip <;> cases hskip
  · have hwf := hgrow.wellFormed _ (List.mem_append_right _ (List.mem_singleton_self _))
    have hread : endStream = true → (populateRequestProtocol access.toStreamAccess
        stream.requestInfo).requestProtocol = stream.requestInfo.requestProtocol :=
      fun hend => (hcontent hend).trans h.sameProtocol.symm
    have hreads : ReadsMessages libraries access.toStreamAccess stream.requestInfo requestInfo :=
      readsMessages_populate hhttp hwf hread (foundStats_eq_some hfound).1
    refine ⟨requestInfo, d, stats, hfound, hrecording, hreads.protocol.trans h.sameProtocol,
      fun hgrpc m => ?_⟩
    have hcount : m.count requestInfo =
        m.lastSeen libraries (accesses ++ [access.toStreamAccess]) := by
      rw [hreads.count (h.sameProtocol.trans hgrpc) m, MessageMetric.lastSeen_append,
        h.count hgrpc m]
    obtain ⟨htotal, hle⟩ := h.last hgrpc m
    refine ⟨hcount, hreads.last m, ?_, ?_⟩
    · rw [MessageMetric.total_nil, Nat.add_zero, hreads.last m]
      exact htotal
    · rw [hreads.last m, hcount]
      rw [h.count hgrpc m] at hle
      exact UInt64.le_trans hle (hgrow.lastSeen_le m)

/-- What the metrics that a report finds have in common. -/
theorem CachedFrom.of_valueFn (hcached : CachedFrom Built plugin)
    (hbuilt : Built plugin.stats) {requestInfo : RequestInfo} {d : IstioDimensions}
    {stats : List SimpleStat} (hfound : foundStats libraries plugin call =
      some (requestInfo, d, stats)) (m : HttpMetric) :
    (stats.map SimpleStat.valueFn).count m.extractor ≤ 1 ∧
      ∀ stat ∈ stats, stat.valueFn = m.extractor →
        stat.recurrent = false ∧ stat.type = m.factory.type := by
  obtain ⟨statgens, hstatgens, hstats⟩ := hcached.found (fun _ => hbuilt) hfound
  exact ⟨hstatgens.count_statsOf_le_one m.mem_defaultMetrics hstats, fun stat hmem hvalueFn =>
    hstatgens.of_valueFn m.mem_defaultMetrics hstats hmem hvalueFn⟩

/-- A report before the end of the stream. -/
theorem Open.report {recorded : List (SimpleStat × UInt64)}
    (h : Open libraries protocol accesses recorded stream)
    (hgrow : GrpcStatsGrow libraries (accesses ++ [access.toStreamAccess]))
    (hinit : plugin.initialized = true) (hcached : CachedFrom Built plugin)
    (hbuilt : Built plugin.stats)
    (hreport : Stats.report libraries plugin ⟨access, stream.requestInfo, false⟩ = some r) :
    Open libraries protocol (accesses ++ [access.toStreamAccess])
      (recorded ++ r.recording.recorded)
      { stream with requestInfo := r.recording.requestInfo } := by
  obtain ⟨requestInfo, d, stats, hfound, hrecording, hprotocol, hmessages⟩ :=
    h.report_inversion hgrow (fun hend => absurd hend Bool.false_ne_true) hinit hreport
  refine ⟨?_, h.notTcp, fun m => ?_, fun hgrpc m => ?_, fun hgrpc m => ?_⟩
  · rw [hrecording, TcpMetric.requestProtocol_recordStats]
    exact hprotocol
  · rw [HttpMetric.times_append, h.notRecorded m, hrecording,
      HttpMetric.times_recordStats_of_recurrent fun stat hmem hvalueFn =>
        ((hcached.of_valueFn hbuilt hfound m).2 stat hmem hvalueFn).1]; rfl
  · rw [hrecording, MessageMetric.count_recordStats]
    exact (hmessages hgrpc m).1
  · have hbalanced : m.Balanced (m.total recorded)
        (recordStats access false stats ⟨requestInfo, [], plugin.expressions⟩) :=
      (hmessages hgrpc m).2.2.recordStats
    rw [hrecording, MessageMetric.total_append]
    exact ⟨hbalanced.balance, hbalanced.le⟩

/-! ### Ticks -/

/-- What the entries of a tick see of a stream. -/
def accessesOf (id : UInt32) (items : List (UInt32 × StatsStream)) : List StreamAccess :=
  (items.filter fun item => item.1 = id).map fun item => item.2.toStreamAccess

/-- What the ticks of a run see of a stream. -/
def ticksOf (id : UInt32) (callbacks : List Callback) : List StreamAccess :=
  callbacks.flatMap fun
    | .onTick items => accessesOf id items
    | _ => []

theorem accessesOf_concat {items : List (UInt32 × StatsStream)} {item : UInt32 × StatsStream} :
    accessesOf id (items ++ [item]) =
      accessesOf id items ++ if item.1 = id then [item.2.toStreamAccess] else [] := by
  unfold accessesOf
  rw [List.filter_append, List.map_append]
  congr 1
  split_ifs with hid
  · simp [hid]
  · simp [hid]

theorem accessesOf_eq_nil {items : List (UInt32 × StatsStream)}
    (h : id ∉ items.map Prod.fst) : accessesOf id items = [] := by
  unfold accessesOf
  rw [List.filter_eq_nil_iff.2, List.map_nil]
  intro item hmem
  simp only [decide_eq_true_eq]
  rintro rfl
  exact h (List.mem_map_of_mem hmem)

theorem ticksOf_concat {callbacks : List Callback} {callback : Callback} :
    ticksOf id (callbacks ++ [callback]) = ticksOf id callbacks ++ ticksOf id [callback] :=
  List.flatMap_append

theorem ticksOf_onTick {items : List (UInt32 × StatsStream)} :
    ticksOf id [.onTick items] = accessesOf id items :=
  List.append_nil _

/-- The reports of a tick leave an open stream open. -/
theorem Open.ticking (h : ∀ stream, s.streams id = some stream →
      Open libraries protocol accesses (s.recordedFor id) stream)
    (hinit : s.root.initialized = true) (hcached : CachedFrom Built s.root.toPluginRootContext)
    (hbuilt : Built s.root.stats) {items : List (UInt32 × StatsStream)}
    (hgrow : GrpcStatsGrow libraries (accesses ++ accessesOf id items))
    (hrun : (Stats.ticking libraries).run (fun _ _ => True) s items = some s') :
    ∀ stream, s'.streams id = some stream →
      Open libraries protocol (accesses ++ accessesOf id items) (s'.recordedFor id) stream := by
  refine (Machine.run_invariant (I := fun items t =>
    GrpcStatsGrow libraries (accesses ++ accessesOf id items) →
      (t.root.initialized = true ∧ t.root.stats = s.root.stats ∧
        CachedFrom Built t.root.toPluginRootContext) ∧
      ∀ stream, t.streams id = some stream →
        Open libraries protocol (accesses ++ accessesOf id items) (t.recordedFor id) stream)
    (fun _ => ⟨⟨hinit, rfl, hcached⟩, ?_⟩) ?_ hrun hgrow).2
  · rw [accessesOf, List.filter_nil, List.map_nil, List.append_nil]
    exact h
  intro before t item t' ih hn hgrow
  rw [accessesOf_concat, ← List.append_assoc] at hgrow ⊢
  obtain ⟨⟨hinit, hstats, hcached⟩, hopen⟩ := ih hgrow.of_append
  change t.tickItem libraries item.1 item.2 = some t' at hn
  unfold System.tickItem at hn
  cases hitem : t.streams item.1 with
  | none =>
    rw [hitem] at hn
    rw [← Option.some.inj hn]
    refine ⟨⟨hinit, hstats, hcached⟩, fun stream hstream => ?_⟩
    split_ifs with hid
    · rw [← hid, hitem] at hstream
      cases hstream
    · rw [List.append_nil]
      exact hopen stream hstream
  | some stream₀ =>
    rw [hitem] at hn
    have hbuilt' : Built t.root.stats := by
      rw [hstats]
      exact hbuilt
    obtain ⟨hstats', hinit'⟩ := System.stats_report hn
    refine ⟨⟨hinit'.trans hinit, hstats'.trans hstats,
      hcached.system_report (fun _ => hbuilt') hn⟩, fun stream hstream => ?_⟩
    obtain ⟨r, hr, -, -, hstreams, hrecorded⟩ := System.report_eq_some hn
    rw [hstreams] at hstream
    rw [hrecorded]
    by_cases hid : item.1 = id
    · rw [if_pos hid] at hgrow
      rw [if_pos hid, if_pos hid.symm]
      rw [hid, Function.update_self] at hstream
      rw [← Option.some.inj hstream]
      exact (hopen stream₀ (hid ▸ hitem)).report hgrow hinit hcached hbuilt' hr
    · rw [Function.update_of_ne (Ne.symm hid)] at hstream
      rw [if_neg hid, if_neg (Ne.symm hid), List.append_nil, List.append_nil]
      exact hopen stream hstream

/-! ### Runs -/

section

variable {callback : Callback} {callbacks : List Callback}

/-- A tick leaves a stream alone that is not queued. -/
theorem streams_ticking {items : List (UInt32 × StatsStream)} (h : id ∉ items.map Prod.fst)
    (hrun : (ticking libraries).run (fun _ _ => True) s items = some s') :
    s'.streams id = s.streams id := by
  refine ticking_invariant (I := fun t => t.streams id = s.streams id) hrun rfl
    fun t id' access stream t' hitem ht _ hreport => ?_
  obtain ⟨r, -, -, -, hstreams, -⟩ := System.report_eq_some hreport
  have hne : id ≠ id' := by
    rintro rfl
    exact h (List.mem_map_of_mem hitem)
  rw [hstreams, Function.update_of_ne hne]
  exact ht

theorem perm_of_onTick {items : List (UInt32 × StatsStream)}
    (hn : (statsMachine lib parseDuration libraries).next s (.onTick items) = some s') :
    (items.map Prod.fst).Perm s.root.requestQueue ∧
      (ticking libraries).run (fun _ _ => True) s items = some s' := by
  simp only [statsMachine] at hn
  split_ifs at hn with hperm
  exact ⟨hperm, hn⟩

/-- Ticks see only streams that are queued. -/
theorem ticksOf_of_not_queued (h : id ∉ s.root.requestQueue)
    (hn : (statsMachine lib parseDuration libraries).next s callback = some s') :
    ticksOf id [callback] = [] := by
  cases callback with
  | onTick items =>
    rw [ticksOf_onTick]
    exact accessesOf_eq_nil fun hmem => h ((perm_of_onTick hn).1.subset hmem)
  | _ => rfl

/-- Only ticks and the last report record values for a stream. -/
theorem recordedFor_next
    (hn : (statsMachine lib parseDuration libraries).next s callback = some s')
    (htick : ∀ items, callback ≠ .onTick items) (hlog : ∀ access, callback ≠ .onLog id access) :
    s'.recordedFor id = s.recordedFor id := by
  rcases next_cases hn with hsame | ⟨configuration, rfl, rfl⟩ | ⟨id', access, stream, rfl, -, h⟩ |
    ⟨items, rfl, -⟩ | ⟨rfl, rfl⟩
  · unfold System.recordedFor
    rw [hsame.recorded]
  · rfl
  · obtain ⟨r, -, -, -, -, hrecorded⟩ := System.report_eq_some h
    have hne : id ≠ id' := by
      rintro rfl
      exact hlog access rfl
    rw [hrecorded, if_neg hne, List.append_nil]; rfl
  · exact absurd rfl (htick items)
  · rfl

theorem mem_ids_next (hmem : id ∈ s.ids)
    (hn : (statsMachine lib parseDuration libraries).next s callback = some s') : id ∈ s'.ids := by
  cases callback with
  | onCreate id' startTime duration =>
    simp only [statsMachine] at hn
    split_ifs at hn
    rw [← Option.some.inj hn]
    exact List.mem_cons_of_mem _ hmem
  | onTick items =>
    refine ticking_invariant (I := fun t => id ∈ t.ids) (perm_of_onTick hn).2 hmem
      fun t id' access stream t' _ ht _ hreport => ?_
    obtain ⟨r, -, -, hids, -⟩ := System.report_eq_some hreport
    rw [hids]
    exact ht
  | onLog id' access =>
    obtain ⟨stream, -, -, hs'⟩ := exists_stream hn
    obtain ⟨r, -, -, hids, -⟩ := System.report_eq_some hs'
    rw [hids]
    exact hmem
  | onConfigure _ | onDelete _ | onDone =>
    rw [← Option.some.inj hn]
    exact hmem
  | onRequestHeaders _ _ | onResponseHeaders _ | onNewConnection _ | onDownstreamData _ _
  | onUpstreamData _ _ =>
    obtain ⟨stream, -, -, hs'⟩ := exists_stream hn
    rw [← Option.some.inj hs']
    exact hmem

/-- Unless a configuration cannot be parsed, the plugin stays initialized. -/
theorem initialized_next (hinit : s.root.initialized = true)
    (hparsed : ∀ call, callback = .onConfigure call → (jsonParse lib call.configuration).isSome)
    (hn : (statsMachine lib parseDuration libraries).next s callback = some s') :
    s'.root.initialized = true := by
  rcases next_cases hn with hsame | ⟨configuration, rfl, rfl⟩ |
    ⟨id', access, stream, rfl, -, hlog⟩ | ⟨items, rfl, hrun⟩ | ⟨rfl, rfl⟩
  · rw [hsame.root]
    exact hinit
  · obtain ⟨j, hparse⟩ := Option.isSome_iff_exists.1 (hparsed configuration rfl)
    exact (onConfigure_of_parsed parseDuration s.root s.host hparse).initialized
  · exact (System.stats_report hlog).2.trans hinit
  · refine ticking_invariant (I := fun t => t.root.initialized = true) hrun hinit
      fun t id access stream t' _ ht _ hreport => ?_
    exact (System.stats_report hreport).2.trans ht
  · exact hinit

/-- No message has come for a stream. -/
def FreshMessages (stream : Stream) : Prop :=
  ∀ m : MessageMetric, m.count stream.requestInfo = 0 ∧ m.last stream.requestInfo = 0

/-- What is true of a stream after the callbacks of a run, from its creation on. -/
structure System.HttpRun (libraries : Libraries) (id : UInt32) (callbacks : List Callback)
    (s : System) : Prop where
  ok : s.Ok
  initialized : s.root.initialized = true
  cached : CachedFrom Built s.root.toPluginRootContext
  unborn : id ∉ s.ids → ticksOf id callbacks = []
  created : ∀ stream, s.streams id = some stream → stream.phase = .created →
    ticksOf id callbacks = [] ∧ FreshMessages stream
  http : ∀ stream, s.streams id = some stream → stream.phase = .http →
    ∃ headers, Callback.onRequestHeaders id headers ∈ callbacks ∧
      Open libraries (contentProtocol headers) (ticksOf id callbacks) (s.recordedFor id) stream

theorem Open.start {headers : StreamAccess} {fallback : Bool} (h : FreshMessages stream) :
    Open libraries (contentProtocol headers) [] [] (stream.onRequestHeaders fallback headers) := by
  have hsame : SameMessages (stream.onRequestHeaders fallback headers).requestInfo
      { stream.requestInfo with requestProtocol := contentProtocol headers } := by
    unfold Stream.onRequestHeaders
    dsimp only
    split_ifs <;> exact ⟨rfl, rfl, rfl, rfl, rfl⟩
  have hfresh : ∀ m : MessageMetric,
      m.count (stream.onRequestHeaders fallback headers).requestInfo = 0 ∧
      m.last (stream.onRequestHeaders fallback headers).requestInfo = 0 := by
    intro m
    rw [hsame.count m, hsame.last m]
    cases m with
    | requestMessagesTotal => exact h .requestMessagesTotal
    | responseMessagesTotal => exact h .responseMessagesTotal
  refine ⟨hsame.protocol, ?_, fun _ => rfl, fun _ m => (hfresh m).1, fun _ m => ?_⟩
  · unfold contentProtocol
    split_ifs <;> decide
  · rw [(hfresh m).1, (hfresh m).2]
    exact ⟨rfl, UInt64.le_refl _⟩

namespace System.HttpRun

/-- What a callback does to a stream without headers. -/
theorem created_next (h : s.HttpRun libraries id callbacks)
    (hn : (statsMachine lib parseDuration libraries).next s callback = some s')
    (hstream : s'.streams id = some stream) (hphase : stream.phase = .created) :
    ticksOf id (callbacks ++ [callback]) = [] ∧ FreshMessages stream := by
  have hnil : ∀ stream, s.streams id = some stream → stream.phase = .created →
      ticksOf id (callbacks ++ [callback]) = [] := by
    intro stream hstream hphase
    have hqueue : id ∉ s.root.requestQueue := fun hmem =>
      ((h.ok.queued id hmem).2 stream hstream).1 hphase
    rw [ticksOf_concat, (h.created stream hstream hphase).1, ticksOf_of_not_queued hqueue hn]; rfl
  rcases changed_of_next hn hstream with hsame | hchanged
  · exact ⟨hnil stream hsame hphase, (h.created stream hsame hphase).2⟩
  · cases hchanged with
    | onCreate hnew =>
      have hqueue : id ∉ s.root.requestQueue := fun hmem => hnew (h.ok.queued id hmem).1
      refine ⟨?_, fun m => ?_⟩
      · rw [ticksOf_concat, h.unborn hnew, ticksOf_of_not_queued hqueue hn]; rfl
      · cases m <;> exact ⟨rfl, rfl⟩
    | onRequestHeaders => cases hphase
    | onNewConnection => cases hphase
    | onDownstreamData _ htcp => exact absurd (htcp.symm.trans hphase) (by decide)
    | onUpstreamData _ htcp => exact absurd (htcp.symm.trans hphase) (by decide)
    | onLog hlogged => exact absurd (hlogged.symm.trans hphase) (by decide)
    | onTick hstream₀ hsame =>
      -- A stream without headers is not queued.
      have hcreated := hsame.trans hphase
      obtain ⟨hperm, hrun⟩ := perm_of_onTick hn
      have hqueue : id ∉ List.map Prod.fst _ := fun hmem =>
        ((h.ok.queued id (hperm.subset hmem)).2 _ hstream₀).1 hcreated
      rw [streams_ticking hqueue hrun] at hstream
      exact ⟨hnil stream hstream hphase, (h.created stream hstream hphase).2⟩

/-- What a callback does to a stream with headers. -/
theorem http_next (h : s.HttpRun libraries id callbacks)
    (hgrow : GrpcStatsGrow libraries (ticksOf id (callbacks ++ [callback])))
    (hn : (statsMachine lib parseDuration libraries).next s callback = some s')
    (hstream : s'.streams id = some stream) (hphase : stream.phase = .http) :
    ∃ headers, Callback.onRequestHeaders id headers ∈ callbacks ++ [callback] ∧
      Open libraries (contentProtocol headers) (ticksOf id (callbacks ++ [callback]))
        (s'.recordedFor id) stream := by
  rw [ticksOf_concat] at hgrow ⊢
  by_cases htick : ∃ items, callback = .onTick items
  · obtain ⟨items, rfl⟩ := htick
    obtain ⟨-, hrun⟩ := perm_of_onTick hn
    obtain ⟨stream₀, hstream₀, hsame⟩ := phase_ticking hrun hstream
    obtain ⟨headers, hmem, hopen⟩ := h.http stream₀ hstream₀ (hsame.trans hphase)
    rw [ticksOf_onTick] at hgrow ⊢
    refine ⟨headers, List.mem_append_left _ hmem, Open.ticking (fun stream' hstream' => ?_)
      h.initialized h.cached h.ok.wf.stats hgrow hrun stream hstream⟩
    rw [← Option.some.inj (hstream₀.symm.trans hstream')]
    exact hopen
  · have htick' : ∀ items, callback ≠ .onTick items := fun items heq => htick ⟨items, heq⟩
    have hnil : ticksOf id [callback] = [] := by
      cases callback with
      | onTick items => exact absurd rfl (htick' items)
      | _ => rfl
    have hlog : ∀ access, callback ≠ .onLog id access := by
      rintro access rfl
      obtain ⟨stream₀, -, -, hs'⟩ := exists_stream hn
      obtain ⟨r, -, -, -, hstreams, -⟩ := System.report_eq_some hs'
      rw [hstreams, Function.update_self] at hstream
      rw [← Option.some.inj hstream] at hphase
      cases hphase
    rw [hnil, List.append_nil, recordedFor_next hn htick' hlog]
    rcases changed_of_next hn hstream with hsame | hchanged
    · obtain ⟨headers, hmem, hopen⟩ := h.http stream hsame hphase
      exact ⟨headers, List.mem_append_left _ hmem, hopen⟩
    · cases hchanged with
      | onCreate hnew => cases hphase
      | onRequestHeaders hstream₀ hcreated =>
        obtain ⟨hticks, hfresh⟩ := h.created _ hstream₀ hcreated
        rw [hticks, (h.ok.created id _ hstream₀ hcreated).1]
        exact ⟨_, List.mem_append_right _ (List.mem_singleton_self _), .start hfresh⟩
      | onNewConnection => cases hphase
      | onDownstreamData _ htcp => exact absurd (htcp.symm.trans hphase) (by decide)
      | onUpstreamData _ htcp => exact absurd (htcp.symm.trans hphase) (by decide)
      | onLog hlogged => exact absurd (hlogged.symm.trans hphase) (by decide)
      | onTick => exact absurd rfl (htick' _)

theorem next (h : s.HttpRun libraries id callbacks)
    (hparsed : ∀ call, callback = .onConfigure call → (jsonParse lib call.configuration).isSome)
    (hgrow : GrpcStatsGrow libraries (ticksOf id (callbacks ++ [callback])))
    (hn : (statsMachine lib parseDuration libraries).next s callback = some s') :
    s'.HttpRun libraries id (callbacks ++ [callback]) where
  ok := h.ok.next hn
  initialized := initialized_next h.initialized hparsed hn
  cached := h.cached.next (fun _ => h.ok.wf.stats) hn
  unborn hnew := by
    have hnew' : id ∉ s.ids := fun hmem => hnew (mem_ids_next hmem hn)
    have hqueue : id ∉ s.root.requestQueue := fun hmem => hnew' (h.ok.queued id hmem).1
    rw [ticksOf_concat, h.unborn hnew', ticksOf_of_not_queued hqueue hn]; rfl
  created _ hstream hphase := h.created_next hn hstream hphase
  http _ hstream hphase := h.http_next hgrow hn hstream hphase

theorem of_run (hok : s₀.Ok) (hcached : CachedFrom Built s₀.root.toPluginRootContext)
    (hinit : s₀.root.initialized = true) (hnew : id ∉ s₀.ids)
    (hparsed : ∀ call, .onConfigure call ∈ callbacks → (jsonParse lib call.configuration).isSome)
    (hgrow : GrpcStatsGrow libraries (ticksOf id callbacks))
    (hrun : (statsMachine lib parseDuration libraries).run (fun _ _ => True) s₀ callbacks =
      some s) : s.HttpRun libraries id callbacks := by
  refine Machine.run_invariant (I := fun callbacks s =>
    (∀ call, .onConfigure call ∈ callbacks → (jsonParse lib call.configuration).isSome) →
      GrpcStatsGrow libraries (ticksOf id callbacks) → s.HttpRun libraries id callbacks)
    (fun _ _ => ?_) (fun before t callback t' ih hn hparsed hgrow => ?_) hrun hparsed hgrow
  · have hnone := (hok.unborn id hnew).1
    refine ⟨hok, hinit, hcached, fun _ => rfl, fun stream hstream => ?_, fun stream hstream => ?_⟩
    · rw [hnone] at hstream
      cases hstream
    · rw [hnone] at hstream
      cases hstream
  · have hbefore := hgrow
    rw [ticksOf_concat] at hbefore
    refine (ih (fun call hmem => hparsed call (List.mem_append_left _ hmem))
      hbefore.of_append).next (fun call heq => hparsed call ?_) hgrow hn
    rw [heq]
    exact List.mem_append_right _ (List.mem_singleton_self _)

end System.HttpRun

end

/-! ### The last report -/

/-- The default HTTP and gRPC metrics are neither dropped nor redefined. -/
structure KeepsHttp (statgens : List StatGen) : Prop where
  http : ∀ m : HttpMetric, ∃ statgen ∈ statgens, statgen.extractor = m.extractor
  messages : ∀ m : MessageMetric, ∃ statgen ∈ statgens, statgen.extractor = m.extractor

/-- All metrics are found that have something to record for the request. -/
structure FindsHttp (requestInfo : RequestInfo) (stats : List SimpleStat) : Prop where
  http : ∀ m : HttpMetric, m.extractor ∈ stats.map SimpleStat.valueFn
  messages : requestInfo.requestProtocol = .GRPC → ∀ m : MessageMetric,
    m.last requestInfo ≠ m.count requestInfo → m.extractor ∈ stats.map SimpleStat.valueFn

/-- Resolving leaves no metric out. -/
theorem KeepsHttp.finds {statgens : List StatGen} (h : KeepsHttp statgens) (hbuilt : Built statgens)
    {requestInfo : RequestInfo} {d : IstioDimensions} {stats : List SimpleStat}
    (hprotocol : protocolOf d = requestInfo.requestProtocol)
    (hhttp : requestInfo.requestProtocol = .HTTP ∨ requestInfo.requestProtocol = .GRPC)
    (hstats : statsOf statgens d = some stats) : FindsHttp requestInfo stats where
  http m := by
    refine hbuilt.mem_statsOf m.mem_defaultMetrics ?_ hstats (h.http m)
    show httpAndGrpc &&& (protocolOf d).toUInt32 ≠ 0
    rw [hprotocol]
    rcases hhttp with heq | heq <;> (rw [heq]; decide)
  messages hgrpc m _ := by
    refine hbuilt.mem_statsOf m.mem_defaultMetrics ?_ hstats (h.messages m)
    show Protocol.toUInt32 .GRPC &&& (protocolOf d).toUInt32 ≠ 0
    rw [hprotocol, hgrpc]
    decide

/-- What the last report records, by the metrics that it finds. -/
theorem Open.last_report {recorded : List (SimpleStat × UInt64)}
    (h : Open libraries protocol accesses recorded stream)
    (hgrow : GrpcStatsGrow libraries (accesses ++ [access.toStreamAccess]))
    (hcontent : contentProtocol access.toStreamAccess = protocol)
    (hinit : plugin.initialized = true) (hcached : CachedFrom Built plugin)
    (hbuilt : Built plugin.stats)
    (hreport : Stats.report libraries plugin ⟨access, stream.requestInfo, true⟩ = some r) :
    ∃ requestInfo d stats,
      foundStats libraries plugin ⟨access, stream.requestInfo, true⟩ =
        some (requestInfo, d, stats) ∧
      requestInfo.requestProtocol = protocol ∧
      (((∀ m : HttpMetric, m.times (recorded ++ r.recording.recorded) = 1) ∧
        (protocol = .GRPC → ∀ m : MessageMetric, m.total (recorded ++ r.recording.recorded) =
          (m.lastSeen libraries (accesses ++ [access.toStreamAccess])).toNat)) ↔
        FindsHttp requestInfo stats) := by
  obtain ⟨requestInfo, d, stats, hfound, hrecording, hprotocol, hmessages⟩ :=
    h.report_inversion hgrow (fun _ => hcontent) hinit hreport
  refine ⟨requestInfo, d, stats, hfound, hprotocol, ?_⟩
  have honce : ∀ m : HttpMetric, m.times (recorded ++ r.recording.recorded) = 1 ↔
      m.extractor ∈ stats.map SimpleStat.valueFn := by
    intro m
    obtain ⟨hcount, htype⟩ := hcached.of_valueFn hbuilt hfound m
    rw [HttpMetric.times_append, h.notRecorded m, hrecording, HttpMetric.times_recordStats_end
      fun stat hmem hvalueFn => (htype stat hmem hvalueFn).2, HttpMetric.times_nil, Nat.zero_add,
      Nat.zero_add, ← List.count_pos_iff]
    omega
  have htotal : protocol = .GRPC → ∀ m : MessageMetric,
      m.total (recorded ++ r.recording.recorded) =
          (m.lastSeen libraries (accesses ++ [access.toStreamAccess])).toNat ↔
        (m.last requestInfo ≠ m.count requestInfo →
          m.extractor ∈ stats.map SimpleStat.valueFn) := by
    intro hgrpc m
    obtain ⟨hcount, -, hbalanced⟩ := hmessages hgrpc m
    have hend : m.Balanced (m.total recorded)
        (recordStats access true stats ⟨requestInfo, [], plugin.expressions⟩) :=
      hbalanced.recordStats
    rw [MessageMetric.total_append, hrecording, hend.balance, MessageMetric.last_recordStats_end,
      ← hcount, UInt64.toNat_inj]
    split_ifs with hmem
    · exact iff_of_true rfl fun _ => hmem
    · rw [imp_iff_not hmem, not_not]
  constructor
  · rintro ⟨hhttp, hgrpc⟩
    exact ⟨fun m => (honce m).1 (hhttp m), fun heq m =>
      (htotal (hprotocol.symm.trans heq) m).1 (hgrpc (hprotocol.symm.trans heq) m)⟩
  · rintro ⟨hhttp, hgrpc⟩
    exact ⟨fun m => (honce m).2 (hhttp m), fun heq m =>
      (htotal heq m).2 (hgrpc (hprotocol.trans heq) m)⟩

/-- The four HTTP metrics have been recorded once, by the last report, and the messages of a gRPC
stream add up to the last counts in the filter state.  The sum is that of natural numbers, so no
value has wrapped around. -/
structure System.HttpCounted (libraries : Libraries) (id : UInt32) (protocol : Protocol)
    (accesses : List StreamAccess) (s s' : System) : Prop where
  before : ∀ m : HttpMetric, m.times (s.recordedFor id) = 0
  once : ∀ m : HttpMetric, m.times (s'.recordedFor id) = 1
  messages : protocol = .GRPC → ∀ m : MessageMetric,
    m.total (s'.recordedFor id) = (m.lastSeen libraries accesses).toNat

/-- If the last report of the stream finds its metrics in the cache, then all are there that have
something to record. -/
def System.HttpFound (libraries : Libraries) (access : StatsStream) (stream : Stream)
    (s : System) : Prop :=
  ∀ requestInfo d stats,
    foundStats libraries s.root.toPluginRootContext ⟨access, stream.onLog.requestInfo, true⟩ =
      some (requestInfo, d, stats) →
    s.root.metrics d = some stats → FindsHttp requestInfo stats

section

variable {callbacks : List Callback}

/-- The last callback of an HTTP stream, by the metrics that its report finds. -/
theorem System.HttpRun.last_report (h : s.HttpRun libraries id callbacks)
    (hstream : s.streams id = some stream) (hphase : stream.phase = .http)
    (hcontent : ∀ headers, .onRequestHeaders id headers ∈ callbacks →
      contentProtocol headers = contentProtocol access.toStreamAccess)
    (hgrow : GrpcStatsGrow libraries (ticksOf id callbacks ++ [access.toStreamAccess]))
    (hlog : s.onLog libraries id access stream = some s') :
    ∃ requestInfo d stats,
      foundStats libraries s.root.toPluginRootContext ⟨access, stream.onLog.requestInfo, true⟩ =
        some (requestInfo, d, stats) ∧
      (requestInfo.requestProtocol = .HTTP ∨ requestInfo.requestProtocol = .GRPC) ∧
      (s.HttpCounted libraries id (contentProtocol access.toStreamAccess)
        (ticksOf id callbacks ++ [access.toStreamAccess]) s' ↔ FindsHttp requestInfo stats) := by
  obtain ⟨headers, hheaders, hopen⟩ := h.http stream hstream hphase
  rw [hcontent headers hheaders] at hopen
  obtain ⟨r, hreport, -, -, -, hrecorded⟩ := System.report_eq_some hlog
  have hrequest : stream.onLog.requestInfo = stream.requestInfo :=
    if_neg (by rw [hopen.sameProtocol]; exact hopen.notTcp)
  rw [hrequest] at hreport ⊢
  obtain ⟨requestInfo, d, stats, hfound, hprotocol, hiff⟩ :=
    hopen.last_report hgrow rfl h.initialized h.cached h.ok.wf.stats hreport
  refine ⟨requestInfo, d, stats, hfound, ?_, ?_⟩
  · rw [hprotocol]
    unfold contentProtocol
    split_ifs
    · exact .inr rfl
    · exact .inl rfl
  · have hadded : s'.recordedFor id = s.recordedFor id ++ r.recording.recorded := by
      rw [hrecorded, if_pos rfl]; rfl
    rw [← hiff, ← hadded]
    exact ⟨fun hcounted => ⟨hcounted.once, hcounted.messages⟩, fun hcounted =>
      ⟨hopen.notRecorded, hcounted.1, hcounted.2⟩⟩

theorem cachedFrom_built_of_reaches {outbound useHostHeaderFallback : Bool}
    (hs : (statsMachine lib parseDuration libraries).Reaches (fun _ _ => True)
      (.start outbound useHostHeaderFallback) s) : CachedFrom Built s.root.toPluginRootContext :=
  (hs.invariant (I := fun t => t.Ok ∧ CachedFrom Built t.root.toPluginRootContext)
    ⟨System.ok_start, .new⟩ fun _ _ _ ht _ hn =>
      ⟨ht.1.next hn, ht.2.next (fun _ => ht.1.wf.stats) hn⟩).2

/-- **An HTTP or gRPC stream is counted once if and only if its last report misses no metric**,
for every stream of every run, whatever ticks come in between.  The plugin is configured when the
stream is created, later configurations can be parsed, and the HTTP and gRPC metrics are configured
at the end of the stream.  The content type stays, and the counts in the filter state never fall.
Nothing is recorded for the stream afterwards. -/
theorem http_counted_iff {outbound useHostHeaderFallback : Bool}
    (hs₀ : (statsMachine lib parseDuration libraries).Reaches (fun _ _ => True)
      (.start outbound useHostHeaderFallback) s₀)
    (hinit : s₀.root.initialized = true) (hnew : id ∉ s₀.ids)
    (hrun : (statsMachine lib parseDuration libraries).run (fun _ _ => True) s₀ callbacks = some s)
    (hparsed : ∀ call, .onConfigure call ∈ callbacks → (jsonParse lib call.configuration).isSome)
    (hstream : s.streams id = some stream) (hphase : stream.phase = .http)
    (hkept : KeepsHttp s.root.stats)
    (hcontent : ∀ headers, .onRequestHeaders id headers ∈ callbacks →
      contentProtocol headers = contentProtocol access.toStreamAccess)
    (hgrow : GrpcStatsGrow libraries (ticksOf id callbacks ++ [access.toStreamAccess])) :
    ∃ s', (statsMachine lib parseDuration libraries).next s (.onLog id access) = some s' ∧
      (s.HttpCounted libraries id (contentProtocol access.toStreamAccess)
        (ticksOf id callbacks ++ [access.toStreamAccess]) s' ↔
        s.HttpFound libraries access stream) ∧
      ∀ s'', (statsMachine lib parseDuration libraries).Reaches (fun _ _ => True) s' s'' →
        s''.recordedFor id = s'.recordedFor id := by
  have hhttp : s.HttpRun libraries id callbacks :=
    .of_run (System.ok_of_reaches hs₀) (cachedFrom_built_of_reaches hs₀) hinit hnew hparsed
      hgrow.of_append hrun
  obtain ⟨s', hlog⟩ := hhttp.ok.exists_onLog libraries id access stream
  refine ⟨s', ?_, ?_, fun s'' hs'' => (hhttp.ok.finished hstream hlog).of_reaches hs''⟩
  · rw [next_onLog hstream (by simp [hphase])]
    exact hlog
  obtain ⟨requestInfo, d, stats, hfound, hprotocol, hiff⟩ :=
    hhttp.last_report hstream hphase hcontent hgrow hlog
  rw [hiff]
  constructor
  · intro hfinds requestInfo' d' stats' hfound' _
    rw [hfound] at hfound'
    cases hfound'
    exact hfinds
  · intro hcached
    cases hmetrics : s.root.metrics d with
    | some stats' =>
      have hstats := (foundStats_inversion hfound).2.2
      rw [hmetrics] at hstats
      obtain rfl := Option.some.inj hstats
      exact hcached requestInfo d _ hfound hmetrics
    | none =>
      have hstats := (foundStats_inversion hfound).2.2
      rw [hmetrics] at hstats
      exact hkept.finds hhttp.ok.wf.stats (foundStats_eq_some hfound).2 hprotocol hstats

/-! ### Plugins that keep the HTTP metrics -/

/-- The configurations, if they can be parsed, keep the HTTP and gRPC metrics. -/
def KeepsHttpMetrics (lib : JsonLibrary) : Callback → Prop
  | .onConfigure call => ∀ j, jsonParse lib call.configuration = some j →
      (∀ m : HttpMetric, KeepsMetric j m.factory.name) ∧
        ∀ m : MessageMetric, KeepsMetric j m.factory.name
  | _ => True

theorem keepsHttp_next {callback : Callback}
    (h : s.root.initialized = true → KeepsHttp s.root.stats)
    (hkeeps : KeepsHttpMetrics lib callback)
    (hn : (statsMachine lib parseDuration libraries).next s callback = some s') :
    s'.root.initialized = true → KeepsHttp s'.root.stats := by
  rcases next_cases hn with hsame | ⟨call, rfl, rfl⟩ | ⟨id', access, stream, rfl, -, hlog⟩ |
    ⟨items, rfl, hrun⟩ | ⟨rfl, rfl⟩
  · rw [hsame.root]
    exact h
  · show (Stats.onConfigure lib parseDuration call s.root s.host).1.initialized = true →
      KeepsHttp (Stats.onConfigure lib parseDuration call s.root s.host).1.stats
    cases hparse : jsonParse lib call.configuration with
    | none =>
      rw [onConfigure_of_not_parsed hparse]
      exact fun hinit => nomatch hinit
    | some j =>
      obtain ⟨fieldSeparator, valueSeparator, hstats⟩ :=
        (onConfigure_of_parsed parseDuration s.root s.host hparse).stats
      obtain ⟨hhttp, hmessages⟩ := hkeeps j hparse
      rw [hstats]
      exact fun _ => ⟨fun m => ⟨_, List.mem_map_of_mem
        (mem_buildMetrics m.mem_defaultMetrics (hhttp m)), rfl⟩, fun m => ⟨_, List.mem_map_of_mem
        (mem_buildMetrics m.mem_defaultMetrics (hmessages m)), rfl⟩⟩
  · obtain ⟨hstats, hinit⟩ := System.stats_report hlog
    rw [hstats, hinit]
    exact h
  · refine ticking_invariant (I := fun t => t.root.initialized = true → KeepsHttp t.root.stats) hrun
      h fun t id access stream t' _ ht _ hreport => ?_
    obtain ⟨hstats, hinit⟩ := System.stats_report hreport
    rw [hstats, hinit]
    exact ht
  · exact h

/-- **Every HTTP or gRPC stream is counted once** if no configuration of the run drops or redefines
one of its metrics. -/
theorem http_counted_of_kept {outbound useHostHeaderFallback : Bool}
    (hs₀ : (statsMachine lib parseDuration libraries).Reaches
      (fun _ callback => KeepsHttpMetrics lib callback) (.start outbound useHostHeaderFallback) s₀)
    (hinit : s₀.root.initialized = true) (hnew : id ∉ s₀.ids)
    (hrun : (statsMachine lib parseDuration libraries).run (fun _ _ => True) s₀ callbacks = some s)
    (hkeeps : ∀ callback ∈ callbacks, KeepsHttpMetrics lib callback)
    (hparsed : ∀ call, .onConfigure call ∈ callbacks → (jsonParse lib call.configuration).isSome)
    (hstream : s.streams id = some stream) (hphase : stream.phase = .http)
    (hcontent : ∀ headers, .onRequestHeaders id headers ∈ callbacks →
      contentProtocol headers = contentProtocol access.toStreamAccess)
    (hgrow : GrpcStatsGrow libraries (ticksOf id callbacks ++ [access.toStreamAccess])) :
    ∃ s', (statsMachine lib parseDuration libraries).next s (.onLog id access) = some s' ∧
      s.HttpCounted libraries id (contentProtocol access.toStreamAccess)
        (ticksOf id callbacks ++ [access.toStreamAccess]) s' := by
  have hreaches := hs₀.trans (Machine.Reaches.of_run_of_forall hrun hkeeps)
  have hinv : s.Ok ∧ (s.root.initialized = true → KeepsHttp s.root.stats) ∧
      CachedFrom (fun statgens => Built statgens ∧ KeepsHttp statgens)
        s.root.toPluginRootContext := by
    refine hreaches.invariant (I := fun t => t.Ok ∧
      (t.root.initialized = true → KeepsHttp t.root.stats) ∧
        CachedFrom (fun statgens => Built statgens ∧ KeepsHttp statgens) t.root.toPluginRootContext)
      ⟨System.ok_start, (fun h => nomatch h), .new⟩ fun t callback t' ht hkeeps hn => ?_
    exact ⟨ht.1.next hn, keepsHttp_next ht.2.1 hkeeps hn,
      ht.2.2.next (fun hinit => ⟨ht.1.wf.stats, ht.2.1 hinit⟩) hn⟩
  obtain ⟨hok, hkept, hcached⟩ := hinv
  have hs₀' : (statsMachine lib parseDuration libraries).Reaches (fun _ _ => True)
      (.start outbound useHostHeaderFallback) s₀ := hs₀.mono fun _ _ _ => trivial
  have hhttp : s.HttpRun libraries id callbacks :=
    .of_run (System.ok_of_reaches hs₀') (cachedFrom_built_of_reaches hs₀') hinit hnew hparsed
      hgrow.of_append hrun
  obtain ⟨s', hlog⟩ := hok.exists_onLog libraries id access stream
  refine ⟨s', ?_, ?_⟩
  · rw [next_onLog hstream (by simp [hphase])]
    exact hlog
  · obtain ⟨requestInfo, d, stats, hfound, hprotocol, hiff⟩ :=
      hhttp.last_report hstream hphase hcontent hgrow hlog
    obtain ⟨statgens, ⟨hbuilt, hkeeps⟩, hstats⟩ :=
      hcached.found (fun hinit => ⟨hok.wf.stats, hkept hinit⟩) hfound
    exact hiff.2 (hkeeps.finds hbuilt (foundStats_eq_some hfound).2 hprotocol hstats)

end

/-! ### Two runs -/

/-- Drops the metric for the requests. -/
def dropRequestsText : Bytes :=
  bytes "\x7b\"metrics\":[\x7b\"name\":\"requests_total\",\"drop\":true\x7d]\x7d"

/-- Knows this text, and that of an empty object. -/
def dropRequestsJson : JsonLibrary where
  parse text :=
    if text = bytes "\x7b\x7d" then some (.object [])
    else if text = dropRequestsText then
      some (.object [(bytes "metrics", .array [.object
        [(bytes "name", .string (bytes "requests_total")), (bytes "drop", .boolean true)]])])
    else none
  dump _ := none
  doubleToUint64 bits := bits
  simpleAtoiUint64 _ := none

/-- Numbers have one digit. -/
def digitLibraries : Libraries where
  getRoot _ := {}
  simpleAtoi text :=
    match text with
    | [digit] => if 48 ≤ digit ∧ digit < 58 then (true, (digit - 48).toUInt64) else (false, 0)
    | _ => (false, 0)

/-- A gRPC stream with what the grpc_stats filter has written. -/
def grpcStream (counts : Option Bytes) : StatsStream where
  properties :=
    { Properties.none with
      string := fun path =>
        if path = [bytes "filter_state", bytes "envoy.filters.http.grpc_stats"] then counts
        else none }
  requestHeaders := fun key =>
    if key = bytes "content-type" then some (bytes "application/grpc") else none
  evaluateString := fun _ => none
  evaluateInt64 := fun _ => none

theorem keepsHttp_of_default {statgens : List StatGen}
    (h : statgens.map StatGen.extractor = defaultMetrics.map MetricFactory.extractor) :
    KeepsHttp statgens := by
  have hmem : ∀ extractor ∈ defaultMetrics.map MetricFactory.extractor,
      ∃ statgen ∈ statgens, statgen.extractor = extractor := by
    intro extractor hmem
    rw [← h] at hmem
    exact List.mem_map.1 hmem
  exact ⟨fun m => hmem _ (List.mem_map_of_mem m.mem_defaultMetrics),
    fun m => hmem _ (List.mem_map_of_mem m.mem_defaultMetrics)⟩

instance {access : StreamAccess} : Decidable (GrpcStatsWellFormed libraries access) :=
  inferInstanceAs (Decidable (_ ∨ _))

/-- The machine of the runs. -/
abbrev grpcMachine : Machine System Callback :=
  statsMachine dropRequestsJson (fun _ => none) digitLibraries

/-- A stream from its creation to its first data. -/
def grpcStart (id : UInt32) : List Callback :=
  [.onCreate id 0 0, .onRequestHeaders id (grpcStream none).toStreamAccess, .onResponseHeaders id]

theorem content_grpcStart {access : StreamAccess}
    (h : contentProtocol access = .GRPC) {ticks : List Callback}
    (hticks : ∀ headers, .onRequestHeaders id headers ∉ ticks) :
    ∀ headers, .onRequestHeaders id headers ∈ grpcStart id ++ ticks →
      contentProtocol headers = contentProtocol access := by
  intro headers hmem
  rcases List.mem_append.1 hmem with hmem | hmem
  · simp only [grpcStart, List.mem_cons, reduceCtorEq, Callback.onRequestHeaders.injEq, true_and,
      List.not_mem_nil, or_false, false_or] at hmem
    rw [hmem, h]
    decide
  · exact absurd hmem (hticks headers)

/-- The counts are "2,1", absent and "3,1" in three ticks, and "5,4" at the end. -/
theorem http_counted_iff_ticks : ∃ s s',
    grpcMachine.next s (.onLog 1 (grpcStream (some (bytes "5,4")))) = some s' ∧
    MessageMetric.requestMessagesTotal.total (s.recordedFor 1) = 3 ∧
    MessageMetric.requestMessagesTotal.total (s'.recordedFor 1) = 5 ∧
    ∃ stream callbacks, s.streams 1 = some stream ∧
      (s.HttpCounted digitLibraries 1 .GRPC
        (ticksOf 1 callbacks ++ [(grpcStream (some (bytes "5,4"))).toStreamAccess]) s' ↔
        s.HttpFound digitLibraries (grpcStream (some (bytes "5,4"))) stream) := by
  let ticks : List Callback := [.onTick [(1, grpcStream (some (bytes "2,1")))],
    .onTick [(1, grpcStream none)], .onTick [(1, grpcStream (some (bytes "3,1")))]]
  have hrun : (grpcMachine.run (fun _ _ => True) (.start false true)
      [.onConfigure (sampleConfigure (bytes "\x7b\x7d") [])]).bind (fun s₀ =>
      (grpcMachine.run (fun _ _ => True) s₀ (grpcStart 1 ++ ticks)).bind fun s =>
        (s.streams 1).bind fun stream =>
          (grpcMachine.next s (.onLog 1 (grpcStream (some (bytes "5,4"))))).map fun s' =>
            ((s₀.root.initialized, s₀.ids), stream.phase, s.root.stats.map StatGen.extractor,
              MessageMetric.requestMessagesTotal.total (s.recordedFor 1),
              MessageMetric.requestMessagesTotal.total (s'.recordedFor 1))) =
      some ((true, []), .http, defaultMetrics.map MetricFactory.extractor, 3, 5) := by
    decide +kernel
  obtain ⟨s₀, hs₀, hrun⟩ := Option.bind_eq_some_iff.1 hrun
  obtain ⟨s, hs, hrun⟩ := Option.bind_eq_some_iff.1 hrun
  obtain ⟨stream, hstream, hrun⟩ := Option.bind_eq_some_iff.1 hrun
  obtain ⟨s', hlog, hrun⟩ := Option.map_eq_some_iff.1 hrun
  obtain ⟨hroot, hrun⟩ := Prod.mk.inj hrun
  obtain ⟨hinit, hids⟩ := Prod.mk.inj hroot
  obtain ⟨hphase, hrun⟩ := Prod.mk.inj hrun
  obtain ⟨hstats, hrun⟩ := Prod.mk.inj hrun
  obtain ⟨hbefore, hafter⟩ := Prod.mk.inj hrun
  have hnew : (1 : UInt32) ∉ s₀.ids := by
    rw [hids]
    exact List.not_mem_nil
  have hgrow : GrpcStatsGrow digitLibraries (ticksOf 1 (grpcStart 1 ++ ticks) ++
      [(grpcStream (some (bytes "5,4"))).toStreamAccess]) := by
    constructor
    · decide +kernel
    · decide +kernel
  have hgrpc : contentProtocol (grpcStream (some (bytes "5,4"))).toStreamAccess = .GRPC := by
    decide +kernel
  obtain ⟨s'', hlog', hiff, -⟩ := http_counted_iff (.of_run hs₀) hinit hnew hs
    (fun call hmem => by simp [grpcStart, ticks] at hmem) hstream hphase
    (keepsHttp_of_default hstats)
    (content_grpcStart hgrpc fun headers hmem => by simp [ticks] at hmem) hgrow
  obtain rfl := Option.some.inj (hlog.symm.trans hlog')
  rw [hgrpc] at hiff
  exact ⟨s, s', hlog, hbefore, hafter, stream, _, hstream, hiff⟩

/-- **A request is not counted when the plugin has been configured anew.**  The first configuration
drops the metric for the requests, and the report of a stream puts its metrics into the cache.
After the second configuration, which drops nothing, the report of another stream finds them
there. -/
theorem request_not_counted : ¬ ∀ (lib : JsonLibrary) (parseDuration : Bytes → Option UInt32)
    (libraries : Libraries) (outbound useHostHeaderFallback : Bool) (s₀ s : System) (id : UInt32)
    (callbacks : List Callback) (stream : Stream) (access : StatsStream),
    (statsMachine lib parseDuration libraries).Reaches (fun _ _ => True)
      (.start outbound useHostHeaderFallback) s₀ →
    s₀.root.initialized = true → KeepsHttp s₀.root.stats → id ∉ s₀.ids →
    (statsMachine lib parseDuration libraries).run (fun _ _ => True) s₀ callbacks = some s →
    (∀ callback ∈ callbacks, callback.isOnConfigure = false) →
    s.streams id = some stream → stream.phase = .http →
    (∀ headers, .onRequestHeaders id headers ∈ callbacks →
      contentProtocol headers = contentProtocol access.toStreamAccess) →
    GrpcStatsGrow libraries (ticksOf id callbacks ++ [access.toStreamAccess]) →
    ∃ s', (statsMachine lib parseDuration libraries).next s (.onLog id access) = some s' ∧
      s.HttpCounted libraries id (contentProtocol access.toStreamAccess)
        (ticksOf id callbacks ++ [access.toStreamAccess]) s' := by
  intro h
  have hrun : (grpcMachine.run (fun _ _ => True) (.start false true)
      ([.onConfigure (sampleConfigure dropRequestsText [])] ++ grpcStart 1 ++
        [.onLog 1 (grpcStream none), .onConfigure (sampleConfigure (bytes "\x7b\x7d") [])])).bind
      (fun s₀ =>
      (grpcMachine.run (fun _ _ => True) s₀ (grpcStart 2 ++ [])).bind fun s =>
        (s.streams 2).bind fun stream =>
          (grpcMachine.next s (.onLog 2 (grpcStream none))).map fun s' =>
            ((s₀.root.initialized, s₀.ids), stream.phase, s₀.root.stats.map StatGen.extractor,
              HttpMetric.requestsTotal.times (s'.recordedFor 2))) =
      some ((true, [1]), .http, defaultMetrics.map MetricFactory.extractor, 0) := by
    decide +kernel
  obtain ⟨s₀, hs₀, hrun⟩ := Option.bind_eq_some_iff.1 hrun
  obtain ⟨s, hs, hrun⟩ := Option.bind_eq_some_iff.1 hrun
  obtain ⟨stream, hstream, hrun⟩ := Option.bind_eq_some_iff.1 hrun
  obtain ⟨s', hlog, hrun⟩ := Option.map_eq_some_iff.1 hrun
  obtain ⟨hroot, hrun⟩ := Prod.mk.inj hrun
  obtain ⟨hinit, hids⟩ := Prod.mk.inj hroot
  obtain ⟨hphase, hrun⟩ := Prod.mk.inj hrun
  obtain ⟨hstats, htimes⟩ := Prod.mk.inj hrun
  have hnew : (2 : UInt32) ∉ s₀.ids := by
    rw [hids]
    decide
  have hgrow : GrpcStatsGrow digitLibraries (ticksOf 2 (grpcStart 2 ++ []) ++
      [(grpcStream none).toStreamAccess]) := by
    constructor
    · decide +kernel
    · decide +kernel
  have hgrpc : contentProtocol (grpcStream none).toStreamAccess = .GRPC := by decide +kernel
  obtain ⟨s'', hlog', hcounted⟩ := h dropRequestsJson (fun _ => none) digitLibraries false true s₀ s
    2 (grpcStart 2 ++ []) stream (grpcStream none) (.of_run hs₀) hinit (keepsHttp_of_default hstats)
    hnew hs (by simp [grpcStart, Callback.isOnConfigure]) hstream hphase
    (content_grpcStart hgrpc fun headers => List.not_mem_nil) hgrow
  obtain rfl := Option.some.inj (hlog.symm.trans hlog')
  have honce := hcounted.once .requestsTotal
  rw [htimes] at honce
  cases honce

end Stats

end WasmExtensions
