import WasmExtensions.Stats.Plugin

/-!
# The metric cache is transparent

`freshReport` says what a report records, without a cache: the metrics that match the protocol are
resolved for the dimensions and recorded one after the other.  A report with a sound cache comes to
the same result (`report_eq_freshReport`), and the cache is sound in every state that reports lead
to, as long as the configuration stays (`cache_transparent`, `outcomes_transparent`).

The cache is looked up by the dimensions alone while the metrics were selected by the protocol.
So two facts carry the proof: the dimensions tell the protocol (`protocolOf_map`), and no extractor
changes the protocol while metrics are being resolved (`resolveStats_eq`).
-/

namespace WasmExtensions

namespace Stats

/-! ### Reports without a cache -/

/-- The metrics that match a protocol, resolved. -/
def statsFor (statgens : List StatGen) (protocol : Protocol) (dimensions : IstioDimensions) :
    Option (List SimpleStat) :=
  (statgens.filter fun statgen => statgen.matchesProtocol protocol).mapM
    fun statgen => statgen.resolve dimensions

/-- The metrics for a vector of dimensions, which tells the protocol. -/
def statsOf (statgens : List StatGen) (dimensions : IstioDimensions) : Option (List SimpleStat) :=
  statsFor statgens (protocolOf dimensions) dimensions

/-- The dimensions after a report, and what it records. -/
def freshReport (libraries : Libraries) (plugin : PluginRootContext) (call : ReportCall) :
    Option (IstioDimensions × Recording) :=
  if !plugin.initialized then some (plugin.istioDimensions, ⟨call.requestInfo, [], []⟩)
  else
    let peerNodeInfo := PeerNodeInfo.new libraries call.stream.toStreamAccess
      plugin.peerMetadataIdKey plugin.peerMetadataKey
    match populate libraries plugin call peerNodeInfo with
    | none => some (plugin.istioDimensions, ⟨call.requestInfo, [], []⟩)
    | some requestInfo =>
      (map plugin.outbound peerNodeInfo.get requestInfo plugin.istioDimensions).bind
        fun dimensions =>
          (evaluateExpressions call.stream 0 plugin.expressions dimensions).bind fun dimensions =>
            (statsOf plugin.stats dimensions).map fun stats =>
              (dimensions, recordStats call.stream call.endStream stats
                ⟨requestInfo, [], plugin.expressions⟩)

/-- All that the cache holds is right. -/
def CacheSound (plugin : PluginRootContext) : Prop :=
  Memo.Sound (statsOf plugin.stats) plugin.metrics

variable {libraries : Libraries} {plugin plugin' : PluginRootContext} {call : ReportCall}
  {stream : StatsStream} {endStream : Bool} {dimensions dimensions' : IstioDimensions}
  {statgens : List StatGen} {recording : Recording} {report' : Report}

/-! ### Resolving and recording -/

theorem call_requestProtocol {requestInfo : RequestInfo} (f : ValueExtractorFn) :
    (f.call stream requestInfo).2.1.requestProtocol = requestInfo.requestProtocol := by
  cases f <;> rfl

theorem recordStat_requestProtocol {stat : SimpleStat} :
    (recordStat stream endStream stat recording).requestInfo.requestProtocol =
      recording.requestInfo.requestProtocol := by
  unfold recordStat
  split
  · exact call_requestProtocol stat.valueFn
  · rfl

theorem statsFor_cons_of_not_matches {statgen : StatGen} {protocol : Protocol}
    (h : statgen.matchesProtocol protocol = false) :
    statsFor (statgen :: statgens) protocol dimensions = statsFor statgens protocol dimensions := by
  unfold statsFor
  rw [List.filter_cons_of_neg (by rw [h]; exact Bool.false_ne_true)]

theorem statsFor_cons_of_matches {statgen : StatGen} {protocol : Protocol}
    (h : statgen.matchesProtocol protocol = true) :
    statsFor (statgen :: statgens) protocol dimensions =
      (statgen.resolve dimensions).bind fun stat =>
        (statsFor statgens protocol dimensions).map fun stats => stat :: stats := by
  unfold statsFor
  rw [List.filter_cons, if_pos h, List.mapM_cons]
  cases statgen.resolve dimensions with
  | none => rfl
  | some stat =>
    rw [Option.bind_some, Option.map_eq_bind]; rfl

/-- The loop that resolves and records in turns comes to the same as resolving all metrics first
and recording them then. -/
theorem resolveStats_eq : resolveStats stream endStream dimensions statgens recording =
    (statsFor statgens recording.requestInfo.requestProtocol dimensions).map
      fun stats => (stats, recordStats stream endStream stats recording) := by
  induction statgens generalizing recording with
  | nil => rfl
  | cons statgen statgens ih =>
    cases hmatches : statgen.matchesProtocol recording.requestInfo.requestProtocol with
    | false =>
      rw [statsFor_cons_of_not_matches hmatches, ← ih]
      simp [resolveStats, hmatches]
    | true =>
      -- The induction hypothesis is about the request after this metric.
      have hih : ∀ stat, resolveStats stream endStream dimensions statgens
          (recordStat stream endStream stat recording) =
          (statsFor statgens recording.requestInfo.requestProtocol dimensions).map
            fun stats => (stats, recordStats stream endStream (stat :: stats) recording) := by
        intro stat
        rw [ih, recordStat_requestProtocol]; rfl
      rw [statsFor_cons_of_matches hmatches]
      unfold resolveStats
      rw [hmatches]
      cases statgen.resolve dimensions with
      | none => rfl
      | some stat =>
        show (resolveStats stream endStream dimensions statgens
          (recordStat stream endStream stat recording)).map _ = _
        rw [hih]
        cases statsFor statgens recording.requestInfo.requestProtocol dimensions <;> rfl

/-! ### The dimensions of a report -/

/-- Expressions are evaluated behind the standard labels. -/
theorem evaluateExpressions_get {i j : ℕ} {tokens : List UInt32} (hj : j < countStandardLabels)
    (h : evaluateExpressions stream i tokens dimensions = some dimensions') :
    dimensions'[j]? = dimensions[j]? := by
  induction tokens generalizing i dimensions with
  | nil => rw [Option.some.inj h]
  | cons token tokens ih =>
    unfold evaluateExpressions at h
    split at h
    · rw [ih h, List.getElem?_set_ne (by omega)]
    · cases h

theorem protocolOf_evaluateExpressions {i : ℕ} {tokens : List UInt32}
    (h : evaluateExpressions stream i tokens dimensions = some dimensions') :
    protocolOf dimensions' = protocolOf dimensions := by
  unfold protocolOf
  rw [evaluateExpressions_get (StandardLabels.index_lt _) h]

/-! ### One report -/

/-- The metrics are those of the cache, or else those of the dimensions. -/
theorem recordReport_eq
    (hprotocol : protocolOf plugin.istioDimensions = recording.requestInfo.requestProtocol) :
    (recordReport stream endStream plugin recording).map
        (fun report => (report.plugin.istioDimensions, report.recording)) =
      ((plugin.metrics plugin.istioDimensions).or
        (statsOf plugin.stats plugin.istioDimensions)).map fun stats =>
          (plugin.istioDimensions, recordStats stream endStream stats recording) := by
  unfold recordReport
  cases plugin.metrics plugin.istioDimensions with
  | some stats =>
    dsimp only
    split <;> rfl
  | none =>
    have hstats : resolveStats stream endStream plugin.istioDimensions plugin.stats recording =
        (statsOf plugin.stats plugin.istioDimensions).map
          fun stats => (stats, recordStats stream endStream stats recording) := by
      unfold statsOf
      rw [hprotocol]
      exact resolveStats_eq
    rw [hstats]
    cases statsOf plugin.stats plugin.istioDimensions <;> rfl

/-- **A report with a sound cache is a report without one.** -/
theorem report_eq_freshReport (libraries : Libraries) (call : ReportCall)
    (hsound : CacheSound plugin) :
    (report libraries plugin call).map
        (fun report => (report.plugin.istioDimensions, report.recording)) =
      freshReport libraries plugin call := by
  unfold report freshReport
  split
  · rfl
  · dsimp only
    cases populate libraries plugin call (PeerNodeInfo.new libraries call.stream.toStreamAccess
      plugin.peerMetadataIdKey plugin.peerMetadataKey) with
    | none => rfl
    | some requestInfo =>
      dsimp only
      cases hmap : map plugin.outbound _ requestInfo plugin.istioDimensions with
      | none => rfl
      | some dimensions =>
        rw [Option.bind_some, Option.bind_some]
        cases heval : evaluateExpressions call.stream 0 plugin.expressions dimensions with
        | none => rfl
        | some dimensions' =>
          rw [Option.bind_some, Option.bind_some]
          have hprotocol : protocolOf dimensions' = requestInfo.requestProtocol := by
            rw [protocolOf_evaluateExpressions heval, protocolOf_map hmap]
          rw [recordReport_eq hprotocol]
          show ((plugin.metrics dimensions').or (statsOf plugin.stats dimensions')).map _ = _
          rw [hsound.or_eq]

/-! ### Sequences of reports -/

/-- A report does nothing, or it records for dimensions that tell the protocol. -/
theorem report_cases (h : report libraries plugin call = some report') :
    report' = .skip plugin call.requestInfo ∨ ∃ dimensions recording,
      protocolOf dimensions = recording.requestInfo.requestProtocol ∧
      recordReport call.stream call.endStream { plugin with istioDimensions := dimensions }
        recording = some report' := by
  unfold report at h
  split at h
  · exact .inl (Option.some.inj h).symm
  · dsimp only at h
    split at h
    · exact .inl (Option.some.inj h).symm
    · rename_i requestInfo _
      obtain ⟨dimensions, hmap, h⟩ := Option.bind_eq_some_iff.1 h
      obtain ⟨dimensions', heval, h⟩ := Option.bind_eq_some_iff.1 h
      refine .inr ⟨dimensions', ⟨requestInfo, [], plugin.expressions⟩, ?_, h⟩
      rw [protocolOf_evaluateExpressions heval, protocolOf_map hmap]

/-- Once the dimensions are known, only the cache and its counter change. -/
theorem recordReport_frame (h : recordReport stream endStream plugin recording = some report') :
    report'.plugin =
      { plugin with
        metrics := report'.plugin.metrics
        cacheHitsAccumulator := report'.plugin.cacheHitsAccumulator } := by
  unfold recordReport at h
  split at h
  · dsimp only at h
    split at h <;> (obtain rfl := Option.some.inj h; rfl)
  · obtain ⟨_, -, rfl⟩ := Option.map_eq_some_iff.1 h
    rfl

/-- A report keeps the configuration as it is. -/
theorem report_frame (h : report libraries plugin call = some report') :
    report'.plugin =
      { plugin with
        istioDimensions := report'.plugin.istioDimensions
        metrics := report'.plugin.metrics
        cacheHitsAccumulator := report'.plugin.cacheHitsAccumulator } := by
  rcases report_cases h with rfl | ⟨dimensions, recording, -, hrecord⟩
  · rfl
  · rw [recordReport_frame hrecord]

/-- What is added to the cache is right. -/
theorem recordReport_sound (hsound : CacheSound plugin)
    (hprotocol : protocolOf plugin.istioDimensions = recording.requestInfo.requestProtocol)
    (h : recordReport stream endStream plugin recording = some report') :
    CacheSound report'.plugin := by
  unfold recordReport at h
  split at h
  · dsimp only at h
    split at h <;> (obtain rfl := Option.some.inj h; exact hsound)
  · rw [resolveStats_eq, ← hprotocol] at h
    obtain ⟨⟨stats, recording'⟩, hresolve, rfl⟩ := Option.map_eq_some_iff.1 h
    obtain ⟨stats', hstats, heq⟩ := Option.map_eq_some_iff.1 hresolve
    cases heq
    exact Memo.Sound.insert hsound hstats

/-- A report keeps the cache sound. -/
theorem report_sound (hsound : CacheSound plugin)
    (h : report libraries plugin call = some report') :
    CacheSound report'.plugin := by
  rcases report_cases h with rfl | ⟨dimensions, recording, hprotocol, hrecord⟩
  · exact hsound
  · have hsound' : CacheSound { plugin with istioDimensions := dimensions } := hsound
    exact recordReport_sound hsound' hprotocol hrecord

/-- What a successful `configure` leaves behind for reports. -/
structure Configuration where
  outbound : Bool
  useHostHeaderFallback : Bool
  istioDimensions : IstioDimensions
  expressions : List UInt32
  stats : List StatGen

/-- The plugin when it is configured for the first time. -/
def PluginRootContext.configured (configuration : Configuration) : PluginRootContext where
  outbound := configuration.outbound
  peerMetadataIdKey :=
    if configuration.outbound then kUpstreamMetadataIdKey else kDownstreamMetadataIdKey
  peerMetadataKey :=
    if configuration.outbound then kUpstreamMetadataKey else kDownstreamMetadataKey
  useHostHeaderFallback := configuration.useHostHeaderFallback
  istioDimensions := configuration.istioDimensions
  expressions := configuration.expressions
  cacheHitsAccumulator := 0
  metrics := Memo.empty
  stats := configuration.stats
  initialized := true

theorem cacheSound_of_reaches {configuration : Configuration}
    (h : (reports libraries).Reaches (fun _ _ => True) (.configured configuration) plugin) :
    CacheSound plugin := by
  refine h.invariant Memo.Sound.empty fun plugin call plugin' hsound _ hnext => ?_
  obtain ⟨report', hreport, rfl⟩ := Option.map_eq_some_iff.1 hnext
  exact report_sound hsound hreport

/-- What a report shows: the metrics with their values, and the request afterwards. -/
def Report.outcome (report : Report) : List (Bytes × UInt64) × RequestInfo :=
  (report.recording.recorded.map fun (stat, value) => (stat.metricId, value),
    report.recording.requestInfo)

/-- A report for which the cache is emptied first. -/
def forgetfulReport (libraries : Libraries) (plugin : PluginRootContext) (call : ReportCall) :
    Option Report :=
  report libraries { plugin with metrics := Memo.empty } call

/-- The outcomes of a sequence of reports. -/
def outcomes (report : PluginRootContext → ReportCall → Option Report) :
    PluginRootContext → List ReportCall → Option (List (List (Bytes × UInt64) × RequestInfo))
  | _, [] => some []
  | plugin, call :: calls =>
    (report plugin call).bind fun report' =>
      (outcomes report report'.plugin calls).map fun rest => report'.outcome :: rest

/-- Emptying the cache during a run makes no difference to the outcomes of the run. -/
theorem outcomes_transparent {calls : List ReportCall} (hsound : CacheSound plugin)
    (hplugin : plugin' =
      { plugin with
        metrics := plugin'.metrics
        cacheHitsAccumulator := plugin'.cacheHitsAccumulator }) :
    outcomes (report libraries) plugin calls =
      outcomes (forgetfulReport libraries) plugin' calls := by
  induction calls generalizing plugin plugin' with
  | nil => rfl
  | cons call calls ih =>
    have hsound' : CacheSound { plugin' with metrics := Memo.empty } := Memo.Sound.empty
    have heq := report_eq_freshReport libraries call hsound
    have heq' := report_eq_freshReport libraries call hsound'
    -- Neither the cache nor its counter has an influence on a report without a cache.
    have hfresh : freshReport libraries { plugin' with metrics := Memo.empty } call =
        freshReport libraries plugin call := by rw [hplugin]; rfl
    rw [hfresh, ← heq] at heq'
    show (report libraries plugin call).bind _ =
      (report libraries { plugin' with metrics := Memo.empty } call).bind _
    cases hreport : report libraries plugin call with
    | none =>
      rw [hreport, Option.map_none, Option.map_eq_none_iff] at heq'
      rw [heq']; rfl
    | some r =>
      rw [hreport] at heq'
      obtain ⟨r', hreport', hr'⟩ := Option.map_eq_some_iff.1 heq'
      obtain ⟨hdimensions, hrecording⟩ := Prod.mk.inj hr'
      have hs := report_sound hsound hreport
      have hp := report_frame hreport
      have hp' := report_frame hreport'
      -- The caches may differ afterwards, but nothing else does.
      have hagree : r'.plugin =
          { r.plugin with
            metrics := r'.plugin.metrics
            cacheHitsAccumulator := r'.plugin.cacheHitsAccumulator } := by
        rw [hp', hp, hdimensions, hplugin]
      rw [hreport', Option.bind_some, Option.bind_some, ih hs hagree]
      unfold Report.outcome
      rw [hrecording]

/-- **The metric cache is transparent within one configuration.**  After any reports that follow a
configuration, a report records the same metrics with the same values, and changes the request in
the same way, as it would with an empty cache. -/
theorem cache_transparent (libraries : Libraries) (configuration : Configuration)
    (h : (reports libraries).Reaches (fun _ _ => True) (.configured configuration) plugin)
    (call : ReportCall) :
    (report libraries plugin call).map Report.outcome =
      (report libraries { plugin with metrics := Memo.empty } call).map Report.outcome := by
  have houtcome : ∀ r : Option Report, r.map Report.outcome =
      (r.map fun report => (report.plugin.istioDimensions, report.recording)).map fun pair =>
        (pair.2.recorded.map fun (stat, value) => (stat.metricId, value), pair.2.requestInfo) := by
    intro r
    rw [Option.map_map]; rfl
  have hempty : CacheSound { plugin with metrics := Memo.empty } := Memo.Sound.empty
  rw [houtcome, houtcome, report_eq_freshReport libraries call (cacheSound_of_reaches h),
    report_eq_freshReport libraries call hempty]
  rfl

/-- Counts requests by protocol and response code. -/
def sampleStatGen : StatGen where
  recurrent := false
  protocols := 0x6
  indexes := [StandardLabels.requestProtocol.index, StandardLabels.responseCode.index]
  extractor := .requestsTotal
  metric := ⟨.Counter, bytes "istio_requests_total", [],
    [bytes "request_protocol", bytes "response_code"], bytes ";.;", bytes "=.="⟩
  sizes := rfl

def sampleConfiguration : Configuration :=
  ⟨false, true, List.replicate countStandardLabels [], [], [sampleStatGen]⟩

/-- The end of an HTTP stream with the response code 200. -/
def sampleCall : ReportCall where
  stream :=
    { properties :=
        { Properties.none with
          int64 := fun path =>
            if path = [bytes "response", bytes "code"] then some 200 else none }
      requestHeaders := fun _ => none
      evaluateString := fun _ => none
      evaluateInt64 := fun _ => none }
  requestInfo := { startTime := 0, duration := 0 }
  endStream := true

def sampleLibraries : Libraries := ⟨fun _ => {}, fun _ => (false, 0)⟩

/-- The second of two equal reports finds its dimensions in the cache. -/
theorem cache_transparent_hit : ∃ plugin,
    (reports sampleLibraries).Reaches (fun _ _ => True) (.configured sampleConfiguration) plugin ∧
    (report sampleLibraries plugin sampleCall).map Report.incremented = some [] ∧
    (report sampleLibraries plugin sampleCall).map Report.outcome =
      (report sampleLibraries { plugin with metrics := Memo.empty } sampleCall).map
        Report.outcome := by
  have hrun : ((reports sampleLibraries).run (fun _ _ => True) (.configured sampleConfiguration)
      [sampleCall]).bind (fun plugin =>
        (report sampleLibraries plugin sampleCall).map Report.incremented) = some [] := by
    decide +kernel
  obtain ⟨plugin, hplugin, hhit⟩ := Option.bind_eq_some_iff.1 hrun
  have hreaches := Machine.Reaches.of_run hplugin
  exact ⟨plugin, hreaches, hhit,
    cache_transparent sampleLibraries sampleConfiguration hreaches sampleCall⟩

end Stats

end WasmExtensions
