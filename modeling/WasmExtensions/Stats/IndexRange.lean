import WasmExtensions.Stats.Streams

/-!
# Dimension indexes are in range

A generator finds the values of its tags in the vector of dimensions, by indexes that were given out
while the overrides were processed.  Four things have to fit together, which are built one after the
other: the list of expressions, the indexes of the tags, the vector and the generators.  They do,
whatever the configurations say and in whatever order the root context is called
(`dimensions_in_range`).

* `StatGen.construct` : the constructor, which aborts if there are not as many tags as indexes.
* `rootMachine` : the root context under calls in any order.
* `root_simulation` : the runs of the plugin with its streams are such calls.
-/

namespace WasmExtensions

namespace Stats

/-! ### The constructor of a generator -/

/-- The constructor of `StatGen`; nothing where it aborts. -/
def StatGen.construct (factory : MetricFactory) (tags : List Bytes) (indexes : List ℕ)
    (fieldSeparator valueSeparator : Bytes) : Option StatGen :=
  if sizes : tags.length = indexes.length then
    some {
      recurrent := factory.recurrent
      protocols := factory.protocols
      indexes := indexes
      extractor := factory.extractor
      metric :=
        { type := factory.type
          name := bytes "istio_" ++ factory.name
          namePrefix := []
          tags := tags
          fieldSeparator := fieldSeparator
          valueSeparator := valueSeparator }
      sizes := sizes }
  else none

/-- The loop that collects the tags of a metric and their indexes. -/
def Building.collectTags (b : Building) (name : Bytes) : List Bytes × List ℕ :=
  (b.metricTags name).foldl (fun (tags, indexes) tag =>
    match (b.metricIndexes name tag).join with
    | some index => (tags ++ [tag], indexes ++ [index])
    | none => (tags, indexes)) ([], [])

theorem Building.collectTags_eq (b : Building) (name : Bytes) : b.collectTags name =
    ((b.indexedTags name).map Prod.fst, (b.indexedTags name).map Prod.snd) := by
  have hloop : ∀ (rest : List Bytes) (tags : List Bytes) (indexes : List ℕ),
      rest.foldl (fun (tags, indexes) tag =>
        match (b.metricIndexes name tag).join with
        | some index => (tags ++ [tag], indexes ++ [index])
        | none => (tags, indexes)) (tags, indexes) =
      (tags ++ (rest.filterMap fun tag =>
          (b.metricIndexes name tag).join.map fun index => (tag, index)).map Prod.fst,
        indexes ++ (rest.filterMap fun tag =>
          (b.metricIndexes name tag).join.map fun index => (tag, index)).map Prod.snd) := by
    intro rest
    induction rest with
    | nil => simp
    | cons tag rest ih =>
      intro tags indexes
      cases hindex : (b.metricIndexes name tag).join with
      | none => simp [hindex, ih]
      | some index => simp [hindex, ih]
  simpa [Building.collectTags, Building.indexedTags] using hloop (b.metricTags name) [] []

/-- The constructor does not abort. -/
theorem construct_collectTags (b : Building) (factory : MetricFactory)
    (fieldSeparator valueSeparator : Bytes) :
    StatGen.construct factory (b.collectTags factory.name).1 (b.collectTags factory.name).2
      fieldSeparator valueSeparator = some (b.statGen fieldSeparator valueSeparator factory) := by
  rw [Building.collectTags_eq]
  exact dif_pos (by simp)

/-! ### The root context under calls in any order -/

/-- The calls to a root context, with what the host and the streams bring in.  `onTick` is a report
for each queued stream. -/
inductive RootCall where
  | onConfigure (call : ConfigureCall) (host : Host)
  | report (call : ReportCall)
  | onDone (host : Host)
  /-- A stream enters or leaves the request queue. -/
  | setRequestQueue (requestQueue : List UInt32)

variable (lib : JsonLibrary) (parseDuration : Bytes → Option UInt32) (libraries : Libraries)

/-- A step is missing where a report leaves the vector of dimensions. -/
def rootMachine : Machine RootContext RootCall where
  next root
    | .onConfigure call host => some (onConfigure lib parseDuration call root host).1
    | .report call =>
      (report libraries root.toPluginRootContext call).map fun r =>
        { root with toPluginRootContext := r.plugin }
    | .onDone host => some (onDone root host).1
    | .setRequestQueue requestQueue => some { root with requestQueue := requestQueue }

/-- The vector has a place for every label and every expression, and every generator has an index
into it for each of its tags. -/
structure RootContext.InRange (root : RootContext) : Prop where
  sizes : ∀ statgen ∈ root.stats, statgen.metric.tags.length = statgen.indexes.length
  indexes : ∀ statgen ∈ root.stats, ∀ i ∈ statgen.indexes, i < root.istioDimensions.length
  expressions : countStandardLabels + root.expressions.length ≤ root.istioDimensions.length

variable {lib parseDuration libraries} {root root' : RootContext}

theorem RootContext.Wf.inRange (h : root.Wf) (hinit : root.initialized = true) : root.InRange where
  sizes statgen _ := statgen.sizes
  indexes := h.indexes hinit
  expressions := h.expressions hinit

theorem RootContext.Wf.next (h : root.Wf) {call : RootCall}
    (hn : (rootMachine lib parseDuration libraries).next root call = some root') : root'.Wf := by
  cases call with
  | onConfigure call host =>
    rw [← Option.some.inj hn]
    exact h.onConfigure lib parseDuration call host
  | report call =>
    obtain ⟨r, hr, rfl⟩ := Option.map_eq_some_iff.1 hn
    exact h.report hr
  | onDone host =>
    rw [← Option.some.inj hn]
    exact h.onDone
  | setRequestQueue requestQueue =>
    rw [← Option.some.inj hn]
    exact ⟨h.expressions, h.indexes, h.stats⟩

/-- **Dimension indexes are always in range.**  Reports are defined, and no configuration makes the
constructor of a generator abort. -/
theorem dimensions_in_range {outbound useHostHeaderFallback : Bool}
    (h : (rootMachine lib parseDuration libraries).Reaches (fun _ _ => True)
      (.new outbound useHostHeaderFallback) root) :
    (root.initialized = true → root.InRange) ∧
    (∀ call, ∃ r, report libraries root.toPluginRootContext call = some r) ∧
    ∀ (call : ConfigureCall) host j, jsonParse lib call.configuration = some j →
      ∀ factory ∈ (call.building j root host).factories, ∀ fieldSeparator valueSeparator,
        (StatGen.construct factory ((call.building j root host).collectTags factory.name).1
          ((call.building j root host).collectTags factory.name).2 fieldSeparator
          valueSeparator).isSome = true := by
  have hwf : root.Wf := h.invariant RootContext.wf_new fun _ _ _ hroot _ hn => hroot.next hn
  refine ⟨hwf.inRange, hwf.exists_report libraries, ?_⟩
  intro call host j _ factory _ fieldSeparator valueSeparator
  rw [construct_collectTags, Option.isSome_some]

/-- An override with an expression. -/
def overrideText : Bytes := bytes
  "\x7b\"metrics\":[\x7b\"dimensions\":\x7b\"request_size\":\"request.size\"\x7d\x7d]\x7d"

/-- The JSON library on this text. -/
def overrideJson : JsonLibrary where
  parse text :=
    if text = overrideText then
      some (.object [(bytes "metrics", .array [.object [(bytes "dimensions",
        .object [(bytes "request_size", .string (bytes "request.size"))])]])])
    else none
  dump _ := none
  doubleToUint64 bits := bits
  simpleAtoiUint64 _ := none

/-- A configuration, a report, and the end of the plugin. -/
def sampleCalls : List RootCall :=
  [.onConfigure (sampleConfigure overrideText [some 7]) ⟨⟨[], []⟩, none, []⟩, .report sampleCall,
    .onDone ⟨⟨[], []⟩, none, []⟩]

/-- The indexes stay in range when the expressions are gone. -/
theorem dimensions_in_range_done : ∃ root : RootContext,
    root.initialized = true ∧ root.expressions = [] ∧
      root.istioDimensions.length = countStandardLabels + 1 ∧ root.InRange := by
  have hrun : ((rootMachine overrideJson (fun _ => none) sampleLibraries).run (fun _ _ => True)
      (.new true true) sampleCalls).any (fun root => root.initialized && root.expressions.isEmpty &&
        root.istioDimensions.length = countStandardLabels + 1) = true := by decide +kernel
  obtain ⟨root, hroot, hproperties⟩ := (Option.any_eq_true ..).1 hrun
  simp only [Bool.and_eq_true, List.isEmpty_iff, decide_eq_true_eq] at hproperties
  obtain ⟨⟨hinit, hnone⟩, hlength⟩ := hproperties
  exact ⟨root, hinit, hnone, hlength, (dimensions_in_range (.of_run hroot)).1 hinit⟩

/-! ### The plugin with its streams -/

section

variable {s s' : System} {id : UInt32} {access : StatsStream} {endStream : Bool} {stream : Stream}

/-- A report of a stream is a report. -/
theorem System.root_report (h : s.report libraries id access endStream stream = some s') :
    (rootMachine lib parseDuration libraries).next s.root
      (.report ⟨access, stream.requestInfo, endStream⟩) = some s'.root := by
  obtain ⟨r, hr, rfl⟩ := Option.map_eq_some_iff.1 h
  exact Option.map_eq_some_iff.2 ⟨r, hr, rfl⟩

/-- **The plugin with its streams calls its root context** in one of these orders. -/
theorem root_simulation : (statsMachine lib parseDuration libraries).Simulation (fun _ _ => True)
    (rootMachine lib parseDuration libraries) (fun _ _ => True) fun s root => s.root = root := by
  rintro s callback s' _ rfl - hn
  refine ⟨s'.root, ?_, rfl⟩
  rcases next_cases hn with hsame | ⟨call, rfl, rfl⟩ | ⟨id, access, stream, -, -, hlog⟩ |
    ⟨items, -, hrun⟩ | ⟨-, rfl⟩
  · refine .single (l := .setRequestQueue s'.root.requestQueue) trivial ?_
    exact congrArg some hsame.root.symm
  · exact .single (l := .onConfigure call s.host) trivial rfl
  · refine .trans (.single (l := .setRequestQueue (s.root.requestQueue.erase id)) trivial rfl) ?_
    exact .single trivial (System.root_report hlog)
  · refine ticking_invariant (I := fun t => (rootMachine lib parseDuration libraries).Reaches
      (fun _ _ => True) s.root t.root) hrun .refl ?_
    intro t id access stream t' _ ht _ hreport
    exact ht.step trivial (System.root_report hreport)
  · exact .single (l := .onDone s.host) trivial rfl

end

end Stats

end WasmExtensions
