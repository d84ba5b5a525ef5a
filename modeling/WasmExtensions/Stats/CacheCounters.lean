import WasmExtensions.Stats.Streams

/-!
# The counters of the metric cache

The plugin counts how often a report finds its vector of dimensions in the cache.  A hit is counted
in the plugin first, and every hundredth one adds a hundred to the counter of the host; a miss adds
one at once.  Nothing ever leaves the cache, not even when the plugin is configured anew.

* `System.reportsOf` : the calls of `report` in a callback.
* `Tallied` : the counters, the cache and the reports so far.
* `cache_counters_exact` : **the counters are those of the reports**, after every run: the hits
  rounded down to hundreds, and the misses, which are the vectors in the cache.
-/

namespace WasmExtensions

namespace Stats

variable {libraries : Libraries} {plugin : PluginRootContext} {call : ReportCall} {r : Report}

/-! ### Reports -/

/-- The vector that a report looks up, and whether it is in the cache. -/
def lookup (libraries : Libraries) (plugin : PluginRootContext) (call : ReportCall) :
    Option (IstioDimensions × Bool) :=
  (foundStats libraries plugin call).map fun found =>
    (found.2.1, (plugin.metrics found.2.1).isSome)

/-- What a report counts, with the cache and the accumulator before it. -/
inductive Counts (metrics : Memo IstioDimensions (List SimpleStat)) (accumulator : Int64) :
    Option (IstioDimensions × Bool) → Report → Prop
  | skip {r : Report} (hmetrics : r.plugin.metrics = metrics)
      (haccumulator : r.plugin.cacheHitsAccumulator = accumulator)
      (hincremented : r.incremented = []) : Counts metrics accumulator none r
  | hit {r : Report} {d : IstioDimensions} (hmetrics : r.plugin.metrics = metrics)
      (haccumulator : r.plugin.cacheHitsAccumulator = accumulator + 1)
      (hless : accumulator + 1 ≠ 100) (hincremented : r.incremented = []) :
      Counts metrics accumulator (some (d, true)) r
  | hundredth {r : Report} {d : IstioDimensions} (hmetrics : r.plugin.metrics = metrics)
      (haccumulator : r.plugin.cacheHitsAccumulator = 0) (hfull : accumulator + 1 = 100)
      (hincremented : r.incremented = [(.hit, 100)]) :
      Counts metrics accumulator (some (d, true)) r
  | miss {r : Report} {d : IstioDimensions} {stats : List SimpleStat} (hnew : metrics d = none)
      (hmetrics : r.plugin.metrics = metrics.insert d stats)
      (haccumulator : r.plugin.cacheHitsAccumulator = accumulator)
      (hincremented : r.incremented = [(.miss, 1)]) :
      Counts metrics accumulator (some (d, false)) r

/-- What the recording of a report counts, once its vector is known. -/
theorem counts_recordReport {stream : StatsStream} {endStream : Bool} {recording : Recording}
    (h : recordReport stream endStream plugin recording = some r) :
    Counts plugin.metrics plugin.cacheHitsAccumulator
      (some (plugin.istioDimensions, (plugin.metrics plugin.istioDimensions).isSome)) r := by
  unfold recordReport at h
  cases hmetrics : plugin.metrics plugin.istioDimensions with
  | some stats =>
    rw [hmetrics] at h
    dsimp only at h
    split_ifs at h with hfull
    · cases h
      exact .hundredth rfl rfl hfull (by rw [hfull])
    · cases h
      exact .hit rfl rfl hfull rfl
  | none =>
    rw [hmetrics] at h
    obtain ⟨pair, -, hr⟩ := Option.map_eq_some_iff.1 h
    cases hr
    exact .miss hmetrics rfl rfl rfl

theorem counts_report (h : report libraries plugin call = some r) :
    Counts plugin.metrics plugin.cacheHitsAccumulator (lookup libraries plugin call) r := by
  rcases report_inversion h with ⟨-, hnone, rfl⟩ | ⟨requestInfo, d, stats, hfound, -, -, -⟩
  · rw [lookup, hnone]
    exact .skip rfl rfl rfl
  · have hinit : plugin.initialized = true := by
      simpa using (Option.ite_none_left_eq_some.1 hfound).1
    obtain ⟨hpopulate, hbuild, -⟩ := foundStats_inversion hfound
    rw [report_of_populated hinit hpopulate, hbuild] at h
    have hcounts := counts_recordReport h
    rw [lookup, hfound]
    exact hcounts

/-! ### Counting -/

/-- A call of `report`, with the plugin before it. -/
abbrev ReportAt := PluginRootContext × ReportCall

section

variable (libraries : Libraries) (reports : List ReportAt)

/-- The number of reports that find their vector in the cache. -/
def hits : ℕ := reports.countP fun entry => (lookup libraries entry.1 entry.2).any Prod.snd

/-- The vectors that are not found. -/
def missed : List IstioDimensions :=
  reports.filterMap fun entry =>
    (lookup libraries entry.1 entry.2).bind fun found => if found.2 then none else some found.1

/-- The calls of `incrementMetric` for a counter. -/
def increments (counter : CacheCounter) : List Int64 :=
  (reports.flatMap fun entry =>
    (report libraries entry.1 entry.2).elim [] Report.incremented).filterMap fun increment =>
      if increment.1 = counter then some increment.2 else none

/-- The counters and the cache are those of the reports so far. -/
structure Tallied (metrics : Memo IstioDimensions (List SimpleStat)) (accumulator : Int64) :
    Prop where
  hit : increments libraries reports .hit = List.replicate (hits libraries reports / 100) 100
  miss : increments libraries reports .miss =
    List.replicate (missed libraries reports).length 1
  pending : accumulator = Int64.ofNat (hits libraries reports % 100)
  nodup : (missed libraries reports).Nodup
  cached : ∀ d, (metrics d).isSome ↔ d ∈ missed libraries reports

end

variable {reports : List ReportAt} {metrics : Memo IstioDimensions (List SimpleStat)}
  {accumulator : Int64}

theorem tallied_nil : Tallied libraries [] Memo.empty 0 where
  hit := by rw [hits, List.countP_nil]; rfl
  miss := rfl
  pending := rfl
  nodup := List.nodup_nil
  cached _ := iff_of_false Bool.false_ne_true List.not_mem_nil

theorem increments_concat (h : report libraries plugin call = some r) (counter : CacheCounter) :
    increments libraries (reports ++ [(plugin, call)]) counter =
      increments libraries reports counter ++ r.incremented.filterMap
        fun increment => if increment.1 = counter then some increment.2 else none := by
  unfold increments
  rw [List.flatMap_append, List.filterMap_append, List.flatMap_singleton, h]
  rfl

/-- The accumulator is full after ninety-nine hits and one more. -/
theorem ofNat_succ_eq_hundred {n : ℕ} (hn : n < 100) : Int64.ofNat n + 1 = 100 ↔ n = 99 := by
  have hsucc : Int64.ofNat n + 1 = Int64.ofNat (n + 1) := (Int64.ofNat_add n 1).symm
  rw [hsucc, ← Int64.toInt_inj, Int64.toInt_ofNat_of_lt (by omega)]
  show ((n + 1 : ℕ) : ℤ) = 100 ↔ _
  omega

theorem Tallied.report (h : Tallied libraries reports plugin.metrics plugin.cacheHitsAccumulator)
    (hreport : Stats.report libraries plugin call = some r) :
    Tallied libraries (reports ++ [(plugin, call)]) r.plugin.metrics
      r.plugin.cacheHitsAccumulator := by
  have hhits : hits libraries (reports ++ [(plugin, call)]) = hits libraries reports +
      if (lookup libraries plugin call).any Prod.snd then 1 else 0 := by
    unfold hits
    rw [List.countP_append, List.countP_singleton]
  have hmissed : missed libraries (reports ++ [(plugin, call)]) = missed libraries reports ++
      ((lookup libraries plugin call).bind fun found =>
        if found.2 then none else some found.1).toList := by
    unfold missed
    rw [List.filterMap_append, List.filterMap_cons]
    split
    · rename_i hnone
      rw [hnone]
      rfl
    · rename_i d hd
      rw [hd]
      rfl
  have hlt : hits libraries reports % 100 < 100 := Nat.mod_lt _ (by decide)
  have hcounts := counts_report hreport
  generalize lookup libraries plugin call = found at hcounts hhits hmissed
  have hincrements := @increments_concat libraries plugin call r reports hreport
  cases hcounts with
  | skip hmetrics haccumulator hincremented =>
    simp only [hincremented, List.filterMap_nil, List.append_nil] at hincrements
    simp only [Option.any_none, Bool.false_eq_true, if_false, Nat.add_zero] at hhits
    simp only [Option.bind_none, Option.toList_none, List.append_nil] at hmissed
    constructor
    · rw [hincrements, hhits]
      exact h.hit
    · rw [hincrements, hmissed]
      exact h.miss
    · rw [haccumulator, hhits]
      exact h.pending
    · rw [hmissed]
      exact h.nodup
    · rw [hmetrics, hmissed]
      exact h.cached
  | hit hmetrics haccumulator hless hincremented =>
    simp only [hincremented, List.filterMap_nil, List.append_nil] at hincrements
    simp only [Option.any_some, if_true] at hhits
    simp only [Option.bind_some, if_true, Option.toList_none, List.append_nil] at hmissed
    rw [h.pending, ne_eq, ofNat_succ_eq_hundred hlt] at hless
    constructor
    · rw [hincrements, hhits, h.hit]
      congr 1
      omega
    · rw [hincrements, hmissed]
      exact h.miss
    · rw [haccumulator, hhits, h.pending]
      have hmod : (hits libraries reports + 1) % 100 = hits libraries reports % 100 + 1 := by omega
      rw [hmod]
      exact (Int64.ofNat_add _ 1).symm
    · rw [hmissed]
      exact h.nodup
    · rw [hmetrics, hmissed]
      exact h.cached
  | hundredth hmetrics haccumulator hfull hincremented =>
    simp only [Option.any_some, if_true] at hhits
    simp only [Option.bind_some, if_true, Option.toList_none, List.append_nil] at hmissed
    rw [h.pending, ofNat_succ_eq_hundred hlt] at hfull
    constructor
    · have hdiv : (hits libraries reports + 1) / 100 = hits libraries reports / 100 + 1 := by omega
      rw [hincrements, hincremented, hhits, h.hit, hdiv, List.replicate_succ']
      rfl
    · rw [hincrements, hincremented, hmissed, h.miss]
      exact List.append_nil _
    · have hmod : (hits libraries reports + 1) % 100 = 0 := by omega
      rw [haccumulator, hhits, hmod]
      rfl
    · rw [hmissed]
      exact h.nodup
    · rw [hmetrics, hmissed]
      exact h.cached
  | @miss _ d stats hnew hmetrics haccumulator hincremented =>
    simp only [Option.any_some, Bool.false_eq_true, if_false, Nat.add_zero] at hhits
    simp only [Option.bind_some, Bool.false_eq_true, if_false, Option.toList_some] at hmissed
    have hfresh : d ∉ missed libraries reports := by
      rw [← h.cached, hnew]
      exact Bool.false_ne_true
    constructor
    · rw [hincrements, hincremented, hhits, h.hit]
      exact List.append_nil _
    · rw [hincrements, hincremented, hmissed, h.miss, List.length_append, List.length_singleton,
        List.replicate_succ']
      rfl
    · rw [haccumulator, hhits]
      exact h.pending
    · rw [hmissed]
      exact List.concat_eq_append ▸ h.nodup.concat hfresh
    · intro d'
      rw [hmetrics, hmissed, List.mem_append, List.mem_singleton, Memo.insert]
      split_ifs with hd
      · exact iff_of_true rfl (.inr hd)
      · rw [h.cached]
        simp [hd]

/-! ### Runs -/

variable {lib : JsonLibrary} {parseDuration : Bytes → Option UInt32} {s s' : System}

/-- The report that an entry of a tick makes. -/
def System.itemReport (s : System) (item : UInt32 × StatsStream) : List ReportAt :=
  match s.streams item.1 with
  | none => []
  | some stream => [(s.root.toPluginRootContext, ⟨item.2, stream.requestInfo, false⟩)]

/-- The reports that a callback makes. -/
def System.reportsOf (libraries : Libraries) (s : System) : Callback → List ReportAt
  | .onLog id access =>
    match s.streams id with
    | none => []
    | some stream => [(s.root.toPluginRootContext, ⟨access, stream.onLog.requestInfo, true⟩)]
  | .onTick items => (ticking libraries).outputs System.itemReport s items
  | _ => []

/-- The counters of a system. -/
def System.Tallied (libraries : Libraries) (reports : List ReportAt) (s : System) : Prop :=
  Stats.Tallied libraries reports s.root.metrics s.root.cacheHitsAccumulator

theorem System.Tallied.report {id : UInt32} {access : StatsStream} {endStream : Bool}
    {stream : Stream} (h : s.Tallied libraries reports)
    (hreport : s.report libraries id access endStream stream = some s') :
    s'.Tallied libraries
      (reports ++ [(s.root.toPluginRootContext, ⟨access, stream.requestInfo, endStream⟩)]) := by
  obtain ⟨r, hr, rfl⟩ := Option.map_eq_some_iff.1 hreport
  exact Stats.Tallied.report h hr

theorem System.Tallied.tickItem {item : UInt32 × StatsStream} (h : s.Tallied libraries reports)
    (hn : s.tickItem libraries item.1 item.2 = some s') :
    s'.Tallied libraries (reports ++ s.itemReport item) := by
  unfold System.tickItem at hn
  unfold System.itemReport
  cases hstream : s.streams item.1 with
  | none =>
    rw [hstream] at hn
    cases hn
    rw [List.append_nil]
    exact h
  | some stream =>
    rw [hstream] at hn
    exact h.report hn

/-- No configuration touches the accumulator. -/
theorem cacheHitsAccumulator_onConfigure {call : ConfigureCall} :
    (s.onConfigure lib parseDuration call).root.cacheHitsAccumulator =
      s.root.cacheHitsAccumulator := by
  unfold System.onConfigure
  cases hparse : jsonParse lib call.configuration with
  | none => rw [onConfigure_of_not_parsed hparse]
  | some j =>
    unfold onConfigure configure
    rw [hparse]
    rfl

theorem System.Tallied.next {callback : Callback} (h : s.Tallied libraries reports)
    (hn : (statsMachine lib parseDuration libraries).next s callback = some s') :
    s'.Tallied libraries (reports ++ s.reportsOf libraries callback) := by
  have hkeep (hmetrics : s'.root.metrics = s.root.metrics)
      (haccumulator : s'.root.cacheHitsAccumulator = s.root.cacheHitsAccumulator) :
      s'.Tallied libraries (reports ++ []) := by
    rw [List.append_nil]
    unfold Tallied
    rw [hmetrics, haccumulator]
    exact h
  have hsame (hsame : SamePlugin s s') : s'.Tallied libraries (reports ++ []) :=
    hkeep (by rw [hsame.root]) (by rw [hsame.root])
  cases callback with
  | onConfigure call =>
    cases hn
    exact hkeep metrics_onConfigure cacheHitsAccumulator_onConfigure
  | onDone =>
    cases hn
    exact hkeep rfl rfl
  | onLog id access =>
    obtain ⟨stream, hstream, -, hlog⟩ := exists_stream hn
    simp only [reportsOf, hstream]
    have hdeleted : (s.deleteFromRequestQueue id).Tallied libraries reports := h
    exact hdeleted.report hlog
  | onTick items =>
    simp only [statsMachine] at hn
    split_ifs at hn
    exact Machine.outputs_invariant (I := fun reports t => t.Tallied libraries reports)
      (C := fun _ => True) h (fun _ _ _ _ ht _ hitem => ht.tickItem hitem) (fun _ _ => trivial) hn
  | onCreate | onRequestHeaders | onResponseHeaders | onNewConnection | onDownstreamData
  | onUpstreamData | onDelete =>
    rcases next_cases hn with h' | ⟨_, ⟨⟩, _⟩ | ⟨_, _, _, ⟨⟩, _⟩ | ⟨_, ⟨⟩, _⟩ | ⟨⟨⟩, _⟩
    exact hsame h'

/-- **The counters of the cache are those of the reports**, after every run: the hits are counted in
hundreds, every miss at once, and the vectors that were missed are the ones in the cache, each of
them missed once. -/
theorem cache_counters_exact {outbound useHostHeaderFallback : Bool} {callbacks : List Callback}
    (hrun : (statsMachine lib parseDuration libraries).run (fun _ _ => True)
      (.start outbound useHostHeaderFallback) callbacks = some s) :
    s.Tallied libraries ((statsMachine lib parseDuration libraries).outputs
      (System.reportsOf libraries) (.start outbound useHostHeaderFallback) callbacks) :=
  Machine.outputs_invariant (I := fun reports t => t.Tallied libraries reports)
    (C := fun _ => True) tallied_nil (fun _ _ _ _ ht _ hn => ht.next hn) (fun _ _ => trivial) hrun

/-- Three requests with the same vector. -/
def threeRequests : List Callback :=
  .onConfigure (sampleConfigure (bytes "\x7b\x7d") []) :: [1, 2, 3].flatMap fun id =>
    [.onCreate id 0 0, .onRequestHeaders id sampleCall.stream.toStreamAccess,
      .onLog id sampleCall.stream]

theorem cache_counters_exact_three : ∃ s,
    sampleMachine.run (fun _ _ => True) (.start false true) threeRequests = some s ∧
      s.root.cacheHitsAccumulator = 2 ∧
      s.Tallied sampleLibraries (sampleMachine.outputs (System.reportsOf sampleLibraries)
        (.start false true) threeRequests) := by
  have hrun : (sampleMachine.run (fun _ _ => True) (.start false true) threeRequests).map
      (fun s => s.root.cacheHitsAccumulator) = some 2 := by
    decide +kernel
  obtain ⟨s, hs, haccumulator⟩ := Option.map_eq_some_iff.1 hrun
  exact ⟨s, hs, haccumulator, cache_counters_exact hs⟩

end Stats

end WasmExtensions
