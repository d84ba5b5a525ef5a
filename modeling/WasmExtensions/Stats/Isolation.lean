import WasmExtensions.Stats.TcpConservation
import WasmExtensions.Stats.Noninterference

/-!
# Streams do not interfere

All streams share the vector of dimensions and the cache of resolved metrics, and a tick reports all
that are queued.  Still, what is recorded for a stream does not depend on the others: it is what
would be recorded if there were no other streams.

* `Callback.shownTo` : what remains of a callback for a stream.
* `recording_determined` : a report depends on the configuration and on the call only.
* `SeenBy` : two systems that look the same to a stream.
* `streams_isolated` : **the callbacks of the other streams make no difference to a stream.**
-/

namespace WasmExtensions

namespace Stats

/-! ### What is shown to a stream -/

/-- The stream that a callback is about. -/
def Callback.stream : Callback → Option UInt32
  | .onCreate id _ _ | .onRequestHeaders id _ | .onResponseHeaders id | .onNewConnection id
  | .onDownstreamData id _ | .onUpstreamData id _ | .onLog id _ | .onDelete id => some id
  | .onConfigure _ | .onTick _ | .onDone => none

/-- The entries of a tick for a stream. -/
def itemsOf (id : UInt32) (items : List (UInt32 × StatsStream)) : List (UInt32 × StatsStream) :=
  items.filter fun item => item.1 = id

/-- What remains of a callback if there is no other stream. -/
def Callback.shownTo (id : UInt32) : Callback → Option Callback
  | .onTick items => some (.onTick (itemsOf id items))
  | callback => if callback.stream = some id then some callback else none

/-- The callback is neither about the configuration nor about the end of the plugin. -/
def Callback.Streams : Callback → Prop
  | .onConfigure _ | .onDone => False
  | _ => True

instance : (callback : Callback) → Decidable callback.Streams
  | .onConfigure _ | .onDone => isFalse id
  | .onCreate .. | .onRequestHeaders .. | .onResponseHeaders _ | .onNewConnection _
  | .onDownstreamData .. | .onUpstreamData .. | .onLog .. | .onTick _ | .onDelete _ =>
    isTrue trivial

/-! ### Reports that agree -/

section

variable {libraries : Libraries} {p plugin plugin' : PluginRootContext} {call : ReportCall}
  {r r' : Report}

/-- What a report needs of the plugin. -/
structure Serving (p plugin : PluginRootContext) : Prop where
  keeping : Keeping p plugin
  sound : CacheSound plugin

theorem Serving.report (h : Serving p plugin) (hreport : report libraries plugin call = some r) :
    Serving p r.plugin :=
  ⟨h.keeping.report hreport, report_sound h.sound hreport⟩

/-- What is found for a report depends on the configuration, and on what is found for its
dimensions. -/
theorem foundStats_congr (libraries : Libraries) (call : ReportCall) (h : Keeping p plugin)
    (h' : Keeping p plugin')
    (hfound : ∀ d, (plugin.metrics d).or (statsOf plugin.stats d) =
      (plugin'.metrics d).or (statsOf plugin'.stats d)) :
    foundStats libraries plugin call = foundStats libraries plugin' call := by
  obtain ⟨hplugin, hagree⟩ := h
  obtain ⟨hplugin', hagree'⟩ := h'
  have hinit : plugin.initialized = plugin'.initialized := by rw [hplugin, hplugin']
  have hpeer : peerOf libraries plugin call = peerOf libraries plugin' call := by
    rw [hplugin, hplugin']
    rfl
  have hpopulate : populate libraries plugin call = populate libraries plugin' call := by
    rw [hplugin, hplugin']
    rfl
  have hbuild (node : FlatNode) (requestInfo : RequestInfo) :
      buildDimensions plugin call.stream node requestInfo =
        buildDimensions plugin' call.stream node requestInfo := by
    refine buildDimensions_determined (by rw [hplugin, hplugin']) (by rw [hplugin, hplugin']) ?_
      fun _ _ => rfl
    rw [hplugin]
    exact hagree.trans hagree'.symm
  unfold foundStats
  rw [hinit, hpeer, hpopulate]
  simp only [hbuild, hfound]

/-- What is found for a report depends on the configuration only. -/
theorem foundStats_determined (libraries : Libraries) (call : ReportCall)
    (h : Serving p plugin) (h' : Serving p plugin') :
    foundStats libraries plugin call = foundStats libraries plugin' call := by
  refine foundStats_congr libraries call h.keeping h'.keeping fun d => ?_
  rw [h.sound.or_eq, h'.sound.or_eq, h.keeping.1, h'.keeping.1]

/-- What a report records depends on what it finds. -/
theorem recording_congr
    (hfound : foundStats libraries plugin call = foundStats libraries plugin' call)
    (hexpressions : plugin.expressions = plugin'.expressions)
    (hreport : report libraries plugin call = some r)
    (hreport' : report libraries plugin' call = some r') : r.recording = r'.recording := by
  rcases report_inversion hreport with ⟨-, hnone, rfl⟩ |
    ⟨requestInfo, dimensions, stats, hsome, -, hrecording, -⟩
  · rcases report_inversion hreport' with ⟨-, -, rfl⟩ | ⟨_, _, _, hsome', -, -, -⟩
    · rfl
    · rw [hfound, hsome'] at hnone
      cases hnone
  · rcases report_inversion hreport' with ⟨-, hnone', -⟩ | ⟨_, _, _, hsome', -, hrecording', -⟩
    · rw [hfound, hnone'] at hsome
      cases hsome
    · rw [hfound, hsome'] at hsome
      cases hsome
      rw [hrecording, hrecording', hexpressions]

/-- **A report depends on the configuration and on the call only.** -/
theorem recording_determined (h : Serving p plugin) (h' : Serving p plugin')
    (hreport : report libraries plugin call = some r)
    (hreport' : report libraries plugin' call = some r') : r.recording = r'.recording :=
  recording_congr (foundStats_determined libraries call h h')
    (by rw [h.keeping.1, h'.keeping.1]) hreport hreport'

end

/-! ### Systems that look the same -/

variable {lib : JsonLibrary} {parseDuration : Bytes → Option UInt32} {libraries : Libraries}
  {p : PluginRootContext} {s s' t t' : System} {id : UInt32}

/-- The system `t` looks to the stream `id` as `s` does, and has no other stream queued. -/
structure SeenBy (id : UInt32) (p : PluginRootContext) (s t : System) : Prop where
  serving : Serving p s.root.toPluginRootContext
  serving' : Serving p t.root.toPluginRootContext
  stream : t.streams id = s.streams id
  recorded : t.recordedFor id = s.recordedFor id
  queue : t.root.requestQueue = s.root.requestQueue.filter fun id' => id' = id
  ids : id ∈ t.ids ↔ id ∈ s.ids

/-- A report of another stream is not seen. -/
theorem SeenBy.report_of_ne {id' : UInt32} {access : StatsStream} {endStream : Bool}
    {stream : Stream} (h : SeenBy id p s t) (hne : id' ≠ id)
    (hreport : s.report libraries id' access endStream stream = some s') : SeenBy id p s' t := by
  obtain ⟨r, hr, hroot, hids, hstreams, hrecorded⟩ := System.report_eq_some hreport
  constructor
  · rw [hroot]
    exact h.serving.report hr
  · exact h.serving'
  · rw [hstreams, Function.update_of_ne hne.symm]
    exact h.stream
  · rw [hrecorded, if_neg hne.symm, List.append_nil]
    exact h.recorded
  · rw [hroot]
    exact h.queue
  · rw [hids]
    exact h.ids

/-- A report of the stream is the same in both systems. -/
theorem SeenBy.report {access : StatsStream} {endStream : Bool} {stream : Stream}
    (h : SeenBy id p s t) (hok : t.Ok)
    (hreport : s.report libraries id access endStream stream = some s') :
    ∃ t', t.report libraries id access endStream stream = some t' ∧ SeenBy id p s' t' := by
  obtain ⟨t', hreport'⟩ := hok.exists_report libraries id access endStream stream
  refine ⟨t', hreport', ?_⟩
  obtain ⟨r, hr, hroot, hids, hstreams, hrecorded⟩ := System.report_eq_some hreport
  obtain ⟨r', hr', hroot', hids', hstreams', hrecorded'⟩ := System.report_eq_some hreport'
  have hsame := recording_determined h.serving h.serving' hr hr'
  constructor
  · rw [hroot]
    exact h.serving.report hr
  · rw [hroot']
    exact h.serving'.report hr'
  · rw [hstreams, hstreams', Function.update_self, Function.update_self, hsame]
  · rw [hrecorded, hrecorded', h.recorded, hsame]
  · rw [hroot, hroot']
    exact h.queue
  · rw [hids, hids']
    exact h.ids

/-- An entry of a tick. -/
theorem SeenBy.tickItem {access : StatsStream} (h : SeenBy id p s t) (hok : t.Ok)
    (hnext : s.tickItem libraries id access = some s') :
    ∃ t', t.tickItem libraries id access = some t' ∧ SeenBy id p s' t' := by
  unfold System.tickItem at hnext ⊢
  rw [h.stream]
  cases hstream : s.streams id with
  | none =>
    rw [hstream] at hnext
    cases hnext
    exact ⟨t, rfl, h⟩
  | some stream =>
    rw [hstream] at hnext
    exact h.report hok hnext

theorem SeenBy.tickItem_of_ne {id' : UInt32} {access : StatsStream} (h : SeenBy id p s t)
    (hne : id' ≠ id) (hnext : s.tickItem libraries id' access = some s') : SeenBy id p s' t := by
  unfold System.tickItem at hnext
  cases hstream : s.streams id' with
  | none =>
    rw [hstream] at hnext
    cases hnext
    exact h
  | some stream =>
    rw [hstream] at hnext
    exact h.report_of_ne hne hnext

/-- The loop of a tick, seen by a stream: only its own entry is there. -/
theorem view_ticking (id : UInt32) (p : PluginRootContext) (queue : List UInt32) :
    (ticking libraries).View (fun item => item.1 = id → id ∈ queue) (ticking libraries)
      (Option.guard fun item => item.1 = id)
      fun s t => SeenBy id p s t ∧ t.Ok ∧ t.root.requestQueue = queue where
  hidden := by
    rintro s ⟨id', access⟩ s' t ⟨h, hok, hqueue⟩ - hnext hnone
    have hne : id' ≠ id := by simpa using hnone
    exact ⟨h.tickItem_of_ne hne hnext, hok, hqueue⟩
  shown := by
    rintro s ⟨id', access⟩ s' t item ⟨h, hok, hqueue⟩ hmem hnext hsome
    obtain ⟨rfl, hid⟩ := Option.guard_eq_some_iff.1 hsome
    obtain rfl : id' = id := of_decide_eq_true hid
    obtain ⟨t', hnext', h'⟩ := h.tickItem hok hnext
    exact ⟨t', hnext', h', hok.tickItem (hqueue ▸ hmem rfl) hnext',
      (requestQueue_tickItem hnext').trans hqueue⟩

/-! ### The other streams -/

section

variable {id' : UInt32} {stream : Stream}

theorem SeenBy.setStream_of_ne (stream : Stream) (h : SeenBy id p s t) (hne : id' ≠ id) :
    SeenBy id p (s.setStream id' stream) t where
  serving := h.serving
  serving' := h.serving'
  stream := by
    rw [h.stream]
    exact (Function.update_of_ne hne.symm ..).symm
  recorded := h.recorded
  queue := h.queue
  ids := h.ids

theorem SeenBy.addToRequestQueue_of_ne (h : SeenBy id p s t) (hne : id' ≠ id) :
    SeenBy id p (s.addToRequestQueue id') t := by
  refine ⟨h.serving, h.serving', h.stream, h.recorded, ?_, h.ids⟩
  show t.root.requestQueue = List.filter _ (if id' ∈ s.root.requestQueue then _ else _)
  split_ifs
  · exact h.queue
  · rw [List.filter_append, h.queue]
    simp [hne]

theorem SeenBy.deleteFromRequestQueue_of_ne (h : SeenBy id p s t) (hne : id' ≠ id) :
    SeenBy id p (s.deleteFromRequestQueue id') t := by
  refine ⟨h.serving, h.serving', h.stream, h.recorded, ?_, h.ids⟩
  show t.root.requestQueue = List.filter _ (s.root.requestQueue.erase id')
  rw [← List.erase_filter, h.queue, List.erase_of_not_mem (by simp [hne])]

/-! ### The stream itself -/

theorem SeenBy.setStream (stream : Stream) (h : SeenBy id p s t) :
    SeenBy id p (s.setStream id stream) (t.setStream id stream) where
  serving := h.serving
  serving' := h.serving'
  stream := by
    show Function.update t.streams id _ id = Function.update s.streams id _ id
    rw [Function.update_self, Function.update_self]
  recorded := h.recorded
  queue := h.queue
  ids := h.ids

theorem SeenBy.mem_requestQueue (h : SeenBy id p s t) :
    id ∈ t.root.requestQueue ↔ id ∈ s.root.requestQueue := by
  rw [h.queue]
  simp

theorem SeenBy.addToRequestQueue (h : SeenBy id p s t) :
    SeenBy id p (s.addToRequestQueue id) (t.addToRequestQueue id) := by
  refine ⟨h.serving, h.serving', h.stream, h.recorded, ?_, h.ids⟩
  show (if id ∈ t.root.requestQueue then _ else _) =
    List.filter _ (if id ∈ s.root.requestQueue then _ else _)
  simp only [h.mem_requestQueue]
  split_ifs
  · exact h.queue
  · rw [List.filter_append, h.queue]
    simp

theorem SeenBy.deleteFromRequestQueue (h : SeenBy id p s t) :
    SeenBy id p (s.deleteFromRequestQueue id) (t.deleteFromRequestQueue id) := by
  refine ⟨h.serving, h.serving', h.stream, h.recorded, ?_, h.ids⟩
  show t.root.requestQueue.erase id = List.filter _ (s.root.requestQueue.erase id)
  rw [h.queue, List.erase_filter]

end

/-! ### Callbacks -/

/-- A callback that is not shown is about another stream. -/
theorem shownTo_eq_none {callback : Callback} (hstreams : callback.Streams)
    (h : callback.shownTo id = none) : ∃ id', callback.stream = some id' ∧ id' ≠ id := by
  cases callback with
  | onConfigure | onDone => exact hstreams.elim
  | onTick items => cases h
  | _ =>
    refine ⟨_, rfl, ?_⟩
    rintro rfl
    simp [Callback.shownTo, Callback.stream] at h

/-- The callbacks of other streams are not seen. -/
theorem SeenBy.hidden {callback : Callback} {id' : UInt32} (h : SeenBy id p s t)
    (hstream : callback.stream = some id') (hne : id' ≠ id)
    (hn : (statsMachine lib parseDuration libraries).next s callback = some s') :
    SeenBy id p s' t := by
  cases callback with
  | onConfigure | onTick | onDone => cases hstream
  | onCreate u startTime duration =>
    obtain rfl := Option.some.inj hstream
    simp only [statsMachine] at hn
    split_ifs at hn
    cases hn
    have hset := h.setStream_of_ne (.new startTime duration) hne
    refine ⟨hset.serving, hset.serving', hset.stream, hset.recorded, hset.queue, ?_⟩
    rw [h.ids]
    simp [hne.symm]
  | onRequestHeaders u arg | onDownstreamData u arg | onUpstreamData u arg =>
    obtain rfl := Option.some.inj hstream
    obtain ⟨stream, -, -, hs'⟩ := exists_stream hn
    cases hs'
    exact h.setStream_of_ne _ hne
  | onResponseHeaders u =>
    obtain rfl := Option.some.inj hstream
    obtain ⟨stream, -, -, hs'⟩ := exists_stream hn
    cases hs'
    exact h.addToRequestQueue_of_ne hne
  | onNewConnection u =>
    obtain rfl := Option.some.inj hstream
    obtain ⟨stream, -, -, hs'⟩ := exists_stream hn
    cases hs'
    exact (h.setStream_of_ne _ hne).addToRequestQueue_of_ne hne
  | onLog u access =>
    obtain rfl := Option.some.inj hstream
    obtain ⟨stream, -, -, hs'⟩ := exists_stream hn
    exact (h.deleteFromRequestQueue_of_ne hne).report_of_ne hne hs'
  | onDelete u =>
    obtain rfl := Option.some.inj hstream
    cases hn
    refine ⟨h.serving, h.serving', ?_, h.recorded, h.queue, h.ids⟩
    rw [h.stream]
    exact (Function.update_of_ne hne.symm ..).symm

/-- A callback that needs the stream in some phase. -/
theorem SeenBy.of_stream {P : Stream → Prop} [DecidablePred P] {f g : Stream → Option System}
    (h : SeenBy id p s t)
    (hn : (s.streams id).bind (fun stream => if P stream then f stream else none) = some s')
    (hfg : ∀ stream, f stream = some s' → ∃ t', g stream = some t' ∧ SeenBy id p s' t') :
    ∃ t', (t.streams id).bind (fun stream => if P stream then g stream else none) = some t' ∧
      SeenBy id p s' t' := by
  obtain ⟨stream, hstream, hP, hs'⟩ := exists_stream hn
  obtain ⟨t', ht', hseen⟩ := hfg stream hs'
  refine ⟨t', ?_, hseen⟩
  rw [h.stream, hstream, Option.bind_some, if_pos hP]
  exact ht'

/-- The callbacks of the stream have the same effect. -/
theorem SeenBy.shown {callback : Callback} (h : SeenBy id p s t) (hok : t.Ok)
    (hstream : callback.stream = some id)
    (hn : (statsMachine lib parseDuration libraries).next s callback = some s') :
    ∃ t', (statsMachine lib parseDuration libraries).next t callback = some t' ∧
      SeenBy id p s' t' := by
  have hfallback : t.root.useHostHeaderFallback = s.root.useHostHeaderFallback := by
    have hp := congrArg PluginRootContext.useHostHeaderFallback h.serving.keeping.1
    have hp' := congrArg PluginRootContext.useHostHeaderFallback h.serving'.keeping.1
    exact hp'.trans hp.symm
  cases callback with
  | onConfigure | onTick | onDone => cases hstream
  | onCreate u startTime duration =>
    obtain rfl := Option.some.inj hstream
    simp only [statsMachine] at hn ⊢
    split_ifs at hn with hnew
    cases hn
    have hset := h.setStream (.new startTime duration)
    refine ⟨_, if_neg fun hmem => hnew (h.ids.1 hmem), hset.serving, hset.serving', hset.stream,
      hset.recorded, hset.queue, ?_⟩
    exact iff_of_true List.mem_cons_self List.mem_cons_self
  | onRequestHeaders u access =>
    obtain rfl := Option.some.inj hstream
    refine h.of_stream hn fun stream hs' => ?_
    cases hs'
    rw [hfallback]
    exact ⟨_, rfl, h.setStream _⟩
  | onDownstreamData u arg | onUpstreamData u arg =>
    obtain rfl := Option.some.inj hstream
    refine h.of_stream hn fun stream hs' => ?_
    cases hs'
    exact ⟨_, rfl, h.setStream _⟩
  | onResponseHeaders u =>
    obtain rfl := Option.some.inj hstream
    refine h.of_stream hn fun stream hs' => ?_
    cases hs'
    exact ⟨_, rfl, h.addToRequestQueue⟩
  | onNewConnection u =>
    obtain rfl := Option.some.inj hstream
    refine h.of_stream hn fun stream hs' => ?_
    cases hs'
    exact ⟨_, rfl, (h.setStream _).addToRequestQueue⟩
  | onLog u access =>
    obtain rfl := Option.some.inj hstream
    refine h.of_stream hn fun stream hs' => ?_
    exact h.deleteFromRequestQueue.report (hok.deleteFromRequestQueue _) hs'
  | onDelete u =>
    obtain rfl := Option.some.inj hstream
    cases hn
    refine ⟨_, rfl, h.serving, h.serving', ?_, h.recorded, h.queue, h.ids⟩
    show Function.update t.streams _ _ _ = Function.update s.streams _ _ _
    rw [Function.update_self, Function.update_self]

/-- A tick has the same effect on the stream if it reports no other one. -/
theorem SeenBy.onTick {items : List (UInt32 × StatsStream)} (h : SeenBy id p s t) (hok : t.Ok)
    (hn : (statsMachine lib parseDuration libraries).next s (.onTick items) = some s') :
    ∃ t', (statsMachine lib parseDuration libraries).next t (.onTick (itemsOf id items)) =
      some t' ∧ SeenBy id p s' t' := by
  simp only [statsMachine] at hn ⊢
  split_ifs at hn with hperm
  have hperm' : ((itemsOf id items).map Prod.fst).Perm t.root.requestQueue := by
    have hfilter : (itemsOf id items).map Prod.fst =
        (items.map Prod.fst).filter fun id' => id' = id := by
      rw [List.filter_map]
      rfl
    rw [hfilter, h.queue]
    exact hperm.filter _
  have hmem (item : UInt32 × StatsStream) (hitem : item ∈ items) (hid : item.1 = id) :
      id ∈ t.root.requestQueue := by
    rw [h.mem_requestQueue, ← hid]
    exact hperm.subset (List.mem_map_of_mem hitem)
  obtain ⟨t', hrun, hseen, -⟩ :=
    (view_ticking id p t.root.requestQueue).run hmem ⟨h, hok, rfl⟩ hn
  rw [List.filterMap_eq_filter] at hrun
  exact ⟨t', (if_pos hperm').trans hrun, hseen⟩

/-- The plugin, seen by a stream. -/
theorem view_stream (id : UInt32) (p : PluginRootContext) :
    (statsMachine lib parseDuration libraries).View Callback.Streams
      (statsMachine lib parseDuration libraries) (Callback.shownTo id)
      fun s t => SeenBy id p s t ∧ t.Ok where
  hidden := by
    rintro s callback s' t ⟨h, hok⟩ hstreams hn hnone
    obtain ⟨id', hstream, hne⟩ := shownTo_eq_none hstreams hnone
    exact ⟨h.hidden hstream hne hn, hok⟩
  shown := by
    rintro s callback s' t shown ⟨h, hok⟩ hstreams hn hsome
    have hshown : ∃ t', (statsMachine lib parseDuration libraries).next t shown = some t' ∧
        SeenBy id p s' t' := by
      cases callback with
      | onTick items =>
        cases hsome
        exact h.onTick hok hn
      | onConfigure | onDone => exact hstreams.elim
      | _ =>
        obtain ⟨hstream, hsame⟩ := Option.ite_none_right_eq_some.1 hsome
        cases hsame
        exact h.shown hok hstream hn
    obtain ⟨t', hn', h'⟩ := hshown
    exact ⟨t', hn', h', hok.next hn'⟩

/-! ### Runs -/

/-- The plugin after its first configuration. -/
def System.configuredFirst (lib : JsonLibrary) (parseDuration : Bytes → Option UInt32)
    (outbound useHostHeaderFallback : Bool) (call : ConfigureCall) : System :=
  (System.start outbound useHostHeaderFallback).onConfigure lib parseDuration call

/-- A plugin without streams looks the same to all. -/
theorem seenBy_configuredFirst (outbound useHostHeaderFallback : Bool) (call : ConfigureCall)
    (id : UInt32) :
    SeenBy id
      (System.configuredFirst lib parseDuration outbound useHostHeaderFallback
        call).root.toPluginRootContext
      (System.configuredFirst lib parseDuration outbound useHostHeaderFallback call)
      (System.configuredFirst lib parseDuration outbound useHostHeaderFallback call) := by
  have hmetrics : (System.configuredFirst lib parseDuration outbound useHostHeaderFallback
      call).root.metrics = (System.start outbound useHostHeaderFallback).root.metrics :=
    metrics_onConfigure
  have hqueue : (System.configuredFirst lib parseDuration outbound useHostHeaderFallback
      call).root.requestQueue = [] :=
    requestQueue_onConfigure
  have hsound : CacheSound (System.configuredFirst lib parseDuration outbound
      useHostHeaderFallback call).root.toPluginRootContext := by
    unfold CacheSound
    rw [hmetrics]
    exact Memo.Sound.empty
  refine ⟨⟨⟨rfl, .refl⟩, hsound⟩, ⟨⟨rfl, .refl⟩, hsound⟩, rfl, rfl, ?_, Iff.rfl⟩
  rw [hqueue]
  rfl

/-- **Streams do not interfere.**  After the first configuration, a stream ends up in the same
state, and the same is recorded for it with the same values, if the callbacks of all other streams
are left out, and the other entries of the ticks. -/
theorem streams_isolated {outbound useHostHeaderFallback : Bool} {call : ConfigureCall}
    {callbacks : List Callback} (hstreams : ∀ callback ∈ callbacks, callback.Streams)
    (hrun : (statsMachine lib parseDuration libraries).run (fun _ _ => True)
      (.configuredFirst lib parseDuration outbound useHostHeaderFallback call) callbacks = some s)
    (id : UInt32) :
    ∃ t, (statsMachine lib parseDuration libraries).run (fun _ _ => True)
        (.configuredFirst lib parseDuration outbound useHostHeaderFallback call)
        (callbacks.filterMap (Callback.shownTo id)) = some t ∧
      t.streams id = s.streams id ∧ t.recordedFor id = s.recordedFor id := by
  have hok : (System.configuredFirst lib parseDuration outbound useHostHeaderFallback call).Ok :=
    System.ok_start.onConfigure
  obtain ⟨t, hrun', hseen, -⟩ := (view_stream id _).run hstreams
    ⟨seenBy_configuredFirst outbound useHostHeaderFallback call id, hok⟩ hrun
  exact ⟨t, hrun', hseen.stream, hseen.recorded⟩

/-- A stream that shares a tick, the vector and the cache with another one. -/
theorem streams_isolated_two : ∃ s t,
    sampleMachine.run (fun _ _ => True)
      (.configuredFirst sampleJson (fun _ => none) false true
        (sampleConfigure (bytes "\x7b\x7d") []))
      [.onCreate 1 0 0, .onCreate 2 0 0, .onNewConnection 2, .onNewConnection 1,
        .onUpstreamData 2 7, .onUpstreamData 1 100,
        .onTick [(2, otherCall.stream), (1, sampleCall.stream)], .onLog 2 otherCall.stream,
        .onLog 1 sampleCall.stream] = some s ∧
    sampleMachine.run (fun _ _ => True)
      (.configuredFirst sampleJson (fun _ => none) false true
        (sampleConfigure (bytes "\x7b\x7d") []))
      [.onCreate 1 0 0, .onNewConnection 1, .onUpstreamData 1 100,
        .onTick [(1, sampleCall.stream)], .onLog 1 sampleCall.stream] = some t ∧
    TcpMetric.sentBytes.sum (s.recordedFor 1) = 100 ∧ t.recordedFor 1 = s.recordedFor 1 := by
  have hrun : (sampleMachine.run (fun _ _ => True)
      (.configuredFirst sampleJson (fun _ => none) false true
        (sampleConfigure (bytes "\x7b\x7d") []))
      [.onCreate 1 0 0, .onCreate 2 0 0, .onNewConnection 2, .onNewConnection 1,
        .onUpstreamData 2 7, .onUpstreamData 1 100,
        .onTick [(2, otherCall.stream), (1, sampleCall.stream)],
        .onLog 2 otherCall.stream, .onLog 1 sampleCall.stream]).map
      (fun s => TcpMetric.sentBytes.sum (s.recordedFor 1)) = some 100 := by
    decide +kernel
  obtain ⟨s, hs, hsum⟩ := Option.map_eq_some_iff.1 hrun
  obtain ⟨t, ht, -, hrecorded⟩ := streams_isolated (by decide) hs 1
  exact ⟨s, t, hs, ht, hsum, hrecorded⟩

end Stats

end WasmExtensions
