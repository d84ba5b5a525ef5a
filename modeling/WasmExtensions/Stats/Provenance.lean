import WasmExtensions.Stats.TcpConservation
import WasmExtensions.Stats.Tokens

/-!
# Where recorded metrics come from

The cache of resolved metrics outlives configurations.  Still, every metric in it was resolved for
the vector of dimensions under which it is kept, by generators that have been configured at some
time (`CachedFrom`).  So whatever a report records was resolved for the vector that the report has
built (`CachedFrom.recorded`).
-/

namespace WasmExtensions

namespace Stats

variable {R R' : List StatGen → Prop} {libraries : Libraries} {plugin : PluginRootContext}
  {call : ReportCall} {r : Report}

/-- The metrics in the cache were resolved by generators with the property `R`, for the dimensions
under which they are kept. -/
def CachedFrom (R : List StatGen → Prop) (plugin : PluginRootContext) : Prop :=
  ∀ d stats, plugin.metrics d = some stats →
    ∃ statgens, R statgens ∧ statsOf statgens d = some stats

theorem CachedFrom.new {outbound useHostHeaderFallback : Bool} :
    CachedFrom R (RootContext.new outbound useHostHeaderFallback).toPluginRootContext :=
  fun _ _ h => nomatch h

theorem CachedFrom.mono (h : CachedFrom R plugin) (hR : ∀ statgens, R statgens → R' statgens) :
    CachedFrom R' plugin := by
  intro d stats hcached
  obtain ⟨statgens, hstatgens, hstats⟩ := h d stats hcached
  exact ⟨statgens, hR statgens hstatgens, hstats⟩

/-- The metrics that a report finds. -/
theorem CachedFrom.found (h : CachedFrom R plugin) (hR : plugin.initialized = true → R plugin.stats)
    {requestInfo : RequestInfo} {d : IstioDimensions} {stats : List SimpleStat}
    (hfound : foundStats libraries plugin call = some (requestInfo, d, stats)) :
    ∃ statgens, R statgens ∧ statsOf statgens d = some stats := by
  have hinit : plugin.initialized = true := by
    simpa using (Option.ite_none_left_eq_some.1 hfound).1
  obtain ⟨-, -, hstats⟩ := foundStats_inversion hfound
  cases hcached : plugin.metrics d with
  | some stats' =>
    rw [hcached] at hstats
    obtain rfl := Option.some.inj hstats
    exact h d _ hcached
  | none =>
    rw [hcached] at hstats
    exact ⟨plugin.stats, hR hinit, hstats⟩

/-- What a report puts into the cache is resolved by the generators in force. -/
theorem CachedFrom.report (h : CachedFrom R plugin)
    (hR : plugin.initialized = true → R plugin.stats)
    (hreport : Stats.report libraries plugin call = some r) : CachedFrom R r.plugin := by
  intro d stats hcached
  rcases cached_report hreport hcached with hcached | ⟨hinit, -, hresolved⟩
  · exact h d stats hcached
  · exact ⟨plugin.stats, hR hinit, hresolved⟩

/-- **What a report records was resolved for the vector that it has built.** -/
theorem CachedFrom.recorded (h : CachedFrom R plugin)
    (hR : plugin.initialized = true → R plugin.stats)
    (hreport : Stats.report libraries plugin call = some r) {record : SimpleStat × UInt64}
    (hmem : record ∈ r.recording.recorded) :
    ∃ statgens statgen, R statgens ∧ statgen ∈ statgens ∧
      statgen.resolve r.plugin.istioDimensions = some record.1 := by
  rcases report_inversion hreport with ⟨-, -, rfl⟩ |
    ⟨requestInfo, d, stats, hfound, hdimensions, hrecording, -⟩
  · cases hmem
  · rw [hrecording] at hmem
    rcases (recordStats_adds call.stream call.endStream stats _).2 record hmem with hmem | ⟨hmem, -⟩
    · cases hmem
    · obtain ⟨statgens, hstatgens, hstats⟩ := h.found hR hfound
      obtain ⟨statgen, hstatgen, hresolve⟩ := exists_resolved hstats hmem
      exact ⟨statgens, statgen, hstatgens, hstatgen, hdimensions ▸ hresolve⟩

/-! ### Runs -/

section

variable {lib : JsonLibrary} {parseDuration : Bytes → Option UInt32} {s s' : System}
  {callback : Callback} {id : UInt32} {access : StatsStream} {endStream : Bool} {stream : Stream}

/-- A report of a stream keeps the generators. -/
theorem System.stats_report (h : s.report libraries id access endStream stream = some s') :
    s'.root.stats = s.root.stats ∧ s'.root.initialized = s.root.initialized := by
  obtain ⟨r, hreport, hroot, -⟩ := report_eq_some h
  have hframe := report_frame hreport
  rw [hroot]
  constructor
  · show r.plugin.stats = s.root.stats
    rw [hframe]
  · show r.plugin.initialized = s.root.initialized
    rw [hframe]

theorem CachedFrom.system_report (h : CachedFrom R s.root.toPluginRootContext)
    (hR : s.root.initialized = true → R s.root.stats)
    (hreport : s.report libraries id access endStream stream = some s') :
    CachedFrom R s'.root.toPluginRootContext := by
  obtain ⟨r, hr, hroot, -⟩ := System.report_eq_some hreport
  rw [hroot]
  exact h.report hR hr

/-- The loop of `onTick` keeps the generators, and where the cached metrics come from. -/
theorem CachedFrom.ticking (h : CachedFrom R s.root.toPluginRootContext)
    (hR : s.root.initialized = true → R s.root.stats) {items : List (UInt32 × StatsStream)}
    (hrun : (ticking libraries).run (fun _ _ => True) s items = some s') :
    s'.root.stats = s.root.stats ∧ s'.root.initialized = s.root.initialized ∧
      CachedFrom R s'.root.toPluginRootContext := by
  refine ticking_invariant
    (I := fun t => t.root.stats = s.root.stats ∧ t.root.initialized = s.root.initialized ∧
      CachedFrom R t.root.toPluginRootContext) hrun
    ⟨rfl, rfl, h⟩ fun t id access stream t' _ ⟨hstats, hinit, hcached⟩ _ hreport => ?_
  obtain ⟨hstats', hinit'⟩ := System.stats_report hreport
  refine ⟨hstats'.trans hstats, hinit'.trans hinit, hcached.system_report (fun ht => ?_) hreport⟩
  rw [hstats]
  exact hR (hinit ▸ ht)

/-- No callback puts anything into the cache that the generators in force have not resolved. -/
theorem CachedFrom.next (h : CachedFrom R s.root.toPluginRootContext)
    (hR : s.root.initialized = true → R s.root.stats)
    (hn : (statsMachine lib parseDuration libraries).next s callback = some s') :
    CachedFrom R s'.root.toPluginRootContext := by
  rcases next_cases hn with hsame | ⟨configuration, rfl, rfl⟩ | ⟨id, access, stream, -, -, hlog⟩ |
    ⟨items, -, hrun⟩ | ⟨-, rfl⟩
  · rw [hsame.root]
    exact h
  · -- A configuration leaves the cache as it is.
    have hmetrics : (s.onConfigure lib parseDuration configuration).root.metrics =
        s.root.metrics := metrics_onConfigure
    intro d stats hcached
    rw [hmetrics] at hcached
    exact h d stats hcached
  · have hdeleted : CachedFrom R (s.deleteFromRequestQueue id).root.toPluginRootContext := h
    exact hdeleted.system_report hR hlog
  · exact (h.ticking hR hrun).2.2
  · exact h

end

end Stats

end WasmExtensions
