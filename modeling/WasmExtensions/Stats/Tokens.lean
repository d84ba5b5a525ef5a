import WasmExtensions.Stats.Streams

/-!
# Expression tokens of the stats plugin

The plugin owns the tokens of its two lists of expressions.  The extractors of the metrics hold
tokens, too: those of `stats_` are in the list until `onDone`, and those of a resolved metric as
long as the configuration is in force under which it was resolved (`System.Tokens`).  Reports that
record no others use no token after its deletion (`tokens_safe`).

The cache of resolved metrics outlives the configuration, and reports may come after `onDone`.  So
there are runs in which a deleted token is evaluated (`deleted_token_evaluated`).
-/

namespace WasmExtensions

namespace Stats

/-! ### Tokens that are evaluated -/

/-- The token of an extractor that evaluates an expression. -/
def ValueExtractorFn.token : ValueExtractorFn → Option UInt32
  | .expression token => some token
  | _ => none

section

variable {stream : StatsStream} {endStream : Bool} {stats : List SimpleStat} {stat : SimpleStat}
  {recording : Recording} {token : UInt32} {pair : SimpleStat × UInt64}

theorem mem_evaluated_record (h : token ∈ (stat.record stream recording).evaluated) :
    token ∈ recording.evaluated ∨ token ∈ stat.valueFn.token := by
  rcases List.mem_append.1 h with h | h
  · exact .inl h
  · cases hfn : stat.valueFn with
    | expression token' =>
      rw [hfn] at h
      exact .inr (congrArg some (List.mem_singleton.1 h).symm)
    | _ =>
      rw [hfn] at h
      cases h

theorem mem_recorded_record (h : pair ∈ (stat.record stream recording).recorded) :
    pair ∈ recording.recorded ∨ pair.1 = stat := by
  unfold SimpleStat.record at h
  dsimp only at h
  split_ifs at h
  · exact .inl h
  · rcases List.mem_append.1 h with h | h
    · exact .inl h
    · rw [List.mem_singleton.1 h]
      exact .inr rfl

/-- What the loop over the metrics adds to what a report has done comes from metrics that need not
wait. -/
theorem recordStats_adds (stream : StatsStream) (endStream : Bool) (stats : List SimpleStat)
    (recording : Recording) :
    (∀ token ∈ (recordStats stream endStream stats recording).evaluated,
      token ∈ recording.evaluated ∨ ∃ stat ∈ stats, (endStream = true ∨ stat.recurrent = true) ∧
        token ∈ stat.valueFn.token) ∧
    ∀ pair ∈ (recordStats stream endStream stats recording).recorded,
      pair ∈ recording.recorded ∨
        pair.1 ∈ stats ∧ (endStream = true ∨ pair.1.recurrent = true) := by
  induction stats generalizing recording with
  | nil => exact ⟨fun _ h => .inl h, fun _ h => .inl h⟩
  | cons stat stats ih =>
    obtain ⟨hevaluated, hrecorded⟩ := @ih (recordStat stream endStream stat recording)
    rw [recordStats]
    refine ⟨fun token htoken => ?_, fun pair hpair => ?_⟩
    · rcases hevaluated token htoken with h | ⟨stat', hmem, h⟩
      · unfold recordStat at h
        split_ifs at h with hnow
        · refine (mem_evaluated_record h).imp_right fun h => ?_
          exact ⟨stat, List.mem_cons_self, Bool.or_eq_true_iff.1 hnow, h⟩
        · exact .inl h
      · exact .inr ⟨stat', List.mem_cons_of_mem _ hmem, h⟩
    · rcases hrecorded pair hpair with h | ⟨hmem, h⟩
      · unfold recordStat at h
        split_ifs at h with hnow
        · refine (mem_recorded_record h).imp_right fun heq => ?_
          rw [heq]
          exact ⟨List.mem_cons_self, Bool.or_eq_true_iff.1 hnow⟩
        · exact .inl h
      · exact .inr ⟨List.mem_cons_of_mem _ hmem, h⟩

end

/-! ### Tokens of a configuration -/

section

variable {b b' : Building} {e : Expressions} {tokens : List UInt32} {factories : List MetricFactory}
  {factory : MetricFactory} {token : UInt32}

/-- The tokens of both lists can be used. -/
def Expressions.Owned (e : Expressions) : Prop :=
  WasmExtensions.Owned (e.expressions ++ e.intExpressions) e.host.events

theorem Expressions.Owned.cleanupExpressions (h : e.Owned) : e.cleanupExpressions.Owned := by
  obtain ⟨howned, hcreated⟩ := h.deleteAll e.expressions fun token htoken =>
    (h.live token (List.mem_append_left _ htoken)).1
  exact (howned.deleteAll e.intExpressions fun token htoken =>
    hcreated token (h.live token (List.mem_append_right _ htoken)).1).1

/-- The token of a new expression is put into one of the lists. -/
theorem Expressions.Owned.create {e' : Expressions} {input : Bytes} (h : e.Owned)
    (hcreate : e.host.createExpression input = (some token, e'.host))
    (hsub : ∀ t ∈ e'.expressions ++ e'.intExpressions,
      t = token ∨ t ∈ e.expressions ++ e.intExpressions) : e'.Owned := by
  obtain ⟨hnew, hevents⟩ := ExpressionHost.createExpression_eq_some hcreate
  unfold Expressions.Owned
  rw [hevents]
  exact (WasmExtensions.Owned.create h hnew).mono fun t ht => List.mem_cons.2 (hsub t ht)

theorem Expressions.Owned.move (h : b.Owned) (hmove : Move b b') : b'.Owned := by
  cases hmove with
  | failed hevents =>
    unfold Expressions.Owned
    rw [hevents]
    exact h
  | defined hcreate =>
    refine h.create hcreate fun t ht => ?_
    simp only [List.mem_append, List.mem_cons] at ht ⊢
    tauto
  | created hcreate =>
    refine h.create hcreate fun t ht => ?_
    simp only [List.mem_append, List.mem_cons] at ht ⊢
    tauto
  | tagged => exact h
  | indexed _ => exact h
  | selected _ => exact h

theorem Defined.token_mem (h : Defined tokens factories) (hmem : factory ∈ factories)
    (htoken : token ∈ factory.extractor.token) : token ∈ tokens := by
  rcases h.factory factory hmem with hdefault | ⟨-, token', htoken', hextractor⟩
  · have hall : ∀ factory ∈ defaultMetrics, factory.extractor.token = none := by
      decide +kernel
    rw [hall factory hdefault] at htoken
    cases htoken
  · rw [hextractor] at htoken
    rw [← Option.some.inj htoken]
    exact htoken'

end

/-! ### Safety -/

namespace System

/-- Tokens have only been evaluated while they were live, and no metric has been recorded under a
later configuration than the one that it was resolved under. -/
structure TokensSafe (s : System) : Prop where
  history : History ExpressionEvent.Proper s.host.events
  recorded : ∀ record ∈ s.recorded, record.resolvedIn = record.generation

/-- The metrics that the report has to record are those of the configuration in force, and they have
no expression if the expressions have been deleted. -/
def ReportsCurrent (libraries : Libraries) (access : StatsStream) (endStream : Bool)
    (stream : Stream) (s : System) : Prop :=
  ∀ found ∈ foundStats libraries s.root.toPluginRootContext
      ⟨access, stream.requestInfo, endStream⟩,
    ∀ stat ∈ found.2.2, endStream = true ∨ stat.recurrent = true →
      ((s.root.metrics found.2.1).isSome = true → s.resolvedIn found.2.1 = s.generation) ∧
        (s.done = true → stat.valueFn.token = none)

/-- What is true of the tokens as long as all reports are current. -/
structure Tokens (s : System) : Prop where
  owned : Owned (s.root.expressions ++ s.root.intExpressions) s.host.events
  stats : s.done = false → ∀ statgen ∈ s.root.stats, ∀ token ∈ statgen.extractor.token,
    token ∈ s.root.intExpressions
  cached : s.done = false → ∀ d stats, s.root.metrics d = some stats →
    s.resolvedIn d = s.generation → ∀ stat ∈ stats, ∀ token ∈ stat.valueFn.token,
      token ∈ s.root.intExpressions
  bounded : ∀ d, s.resolvedIn d ≤ s.generation
  recorded : ∀ record ∈ s.recorded, record.resolvedIn = record.generation

end System

variable {lib : JsonLibrary} {parseDuration : Bytes → Option UInt32} {libraries : Libraries}
  {s s' : System} {id : UInt32} {stream : Stream} {access : StatsStream} {endStream : Bool}

namespace System.Tokens

theorem start {outbound useHostHeaderFallback : Bool} :
    (System.start outbound useHostHeaderFallback).Tokens where
  owned := Owned.nil
  stats _ _ h := nomatch h
  cached _ _ _ h := nomatch h
  bounded _ := Nat.le_refl 0
  recorded _ h := nomatch h

theorem safe (h : s.Tokens) : s.TokensSafe := ⟨h.owned.history, h.recorded⟩

/-- A metric that is resolved now has a token of the plugin. -/
theorem resolved (h : s.Tokens) (hdone : s.done = false) {d : IstioDimensions}
    {stats : List SimpleStat} (hstats : statsOf s.root.stats d = some stats) {stat : SimpleStat}
    (hstat : stat ∈ stats) {token : UInt32} (htoken : token ∈ stat.valueFn.token) :
    token ∈ s.root.intExpressions := by
  obtain ⟨statgen, hstatgen, hresolve⟩ := exists_resolved hstats hstat
  rw [(StatGen.resolve_eq_some hresolve).2.1] at htoken
  exact h.stats hdone statgen hstatgen token htoken

/-- A metric that is in the cache after a report, and that has been resolved under the configuration
in force, has a token of the plugin. -/
theorem cached_after (h : s.Tokens) (hdone : s.done = false) {call : ReportCall} {r : Report}
    (hr : Stats.report libraries s.root.toPluginRootContext call = some r) {d : IstioDimensions}
    {stats : List SimpleStat} (hcached : r.plugin.metrics d = some stats)
    (hresolved : (s.root.metrics d).isSome = true → s.resolvedIn d = s.generation)
    {stat : SimpleStat} (hstat : stat ∈ stats) {token : UInt32}
    (htoken : token ∈ stat.valueFn.token) : token ∈ s.root.intExpressions := by
  rcases cached_report hr hcached with hold | ⟨-, -, hnew⟩
  · exact h.cached hdone d stats hold (hresolved (Option.isSome_of_eq_some hold)) stat hstat token
      htoken
  · exact h.resolved hdone hnew hstat htoken

/-- The metrics that a current report records have tokens of the plugin. -/
theorem recorded_now (h : s.Tokens) (hcurrent : s.ReportsCurrent libraries access endStream stream)
    {requestInfo : RequestInfo} {d : IstioDimensions} {stats : List SimpleStat}
    (hfound : foundStats libraries s.root.toPluginRootContext
      ⟨access, stream.requestInfo, endStream⟩ = some (requestInfo, d, stats))
    (hmetrics : s.root.metrics d = some stats ∨ statsOf s.root.stats d = some stats)
    {stat : SimpleStat} (hstat : stat ∈ stats) (hrecord : endStream = true ∨ stat.recurrent = true)
    {token : UInt32} (htoken : token ∈ stat.valueFn.token) : token ∈ s.root.intExpressions := by
  obtain ⟨hresolved, hnone⟩ := hcurrent _ hfound stat hstat hrecord
  have hdone : s.done = false := by
    by_contra hdone
    rw [hnone (Bool.of_not_eq_false hdone)] at htoken
    cases htoken
  rcases hmetrics with hcached | hnew
  · exact h.cached hdone d stats hcached (hresolved (Option.isSome_of_eq_some hcached)) stat hstat
      token htoken
  · exact h.resolved hdone hnew hstat htoken

/-- Reports that are current use the tokens of the plugin only. -/
theorem report (h : s.Tokens) (hcurrent : s.ReportsCurrent libraries access endStream stream)
    (hreport : s.report libraries id access endStream stream = some s') : s'.Tokens := by
  obtain ⟨r, hr, rfl⟩ := Option.map_eq_some_iff.1 hreport
  have hframe := report_frame hr
  have hexpressions : r.plugin.expressions = s.root.expressions := by rw [hframe]
  have hstats : r.plugin.stats = s.root.stats := by rw [hframe]
  have hbounded : ∀ d, (if (s.root.metrics d).isSome then s.resolvedIn d else s.generation) ≤
      s.generation := by
    intro d
    split_ifs
    · exact h.bounded d
    · exact Nat.le_refl _
  have hkept : s.done = false → ∀ d stats, r.plugin.metrics d = some stats →
      (if (s.root.metrics d).isSome then s.resolvedIn d else s.generation) = s.generation →
      ∀ stat ∈ stats, ∀ token ∈ stat.valueFn.token, token ∈ s.root.intExpressions := by
    intro hdone d stats hcached hresolved stat hstat token htoken
    -- What was in the cache before keeps the configuration that it was resolved under.
    refine h.cached_after hdone hr hcached (fun hsome => ?_) hstat htoken
    rwa [if_pos hsome] at hresolved
  rcases report_inversion hr with ⟨-, -, rfl⟩ |
    ⟨requestInfo, d, stats, hfound, hd, hrecording, hmetrics⟩
  · refine ⟨h.owned, h.stats, hkept, hbounded, ?_⟩
    show ∀ record ∈ s.recorded ++ [], _
    rw [List.append_nil]
    exact h.recorded
  · have hfrom : s.root.metrics d = some stats ∨ statsOf s.root.stats d = some stats :=
      hmetrics.imp And.left fun hnew => hnew.2.1
    obtain ⟨hevaluated, hrecorded⟩ := recordStats_adds access endStream stats
      ⟨requestInfo, [], s.root.expressions⟩
    refine ⟨?_, ?_, hkept, hbounded, fun record hmem => ?_⟩
    · show Owned (r.plugin.expressions ++ s.root.intExpressions) _
      rw [hexpressions]
      refine h.owned.evaluateAll fun token htoken => ?_
      rw [hrecording] at htoken
      rcases hevaluated token htoken with hmem | ⟨stat, hstat, hrecord, hmem⟩
      · exact List.mem_append_left _ hmem
      · exact List.mem_append_right _ (h.recorded_now hcurrent hfound hfrom hstat hrecord hmem)
    · show s.done = false → ∀ statgen ∈ r.plugin.stats, _
      rw [hstats]
      exact h.stats
    · rcases List.mem_append.1 hmem with hmem | hmem
      · exact h.recorded record hmem
      · obtain ⟨pair, hpair, rfl⟩ := List.mem_map.1 hmem
        rw [hrecording] at hpair
        rcases hrecorded pair hpair with hmem | ⟨hstat, hrecord⟩
        · cases hmem
        · show (if (s.root.metrics r.plugin.istioDimensions).isSome then _ else _) = s.generation
          rw [hd]
          split_ifs with hsome
          · exact (hcurrent _ hfound pair.1 hstat hrecord).1 hsome
          · rfl

theorem of_samePlugin (h : s.Tokens) (hsame : SamePlugin s s') : s'.Tokens := by
  obtain ⟨hroot, hhost, hrecorded, hgeneration, hresolvedIn, hdone⟩ := hsame
  refine ⟨?_, ?_, ?_, ?_, ?_⟩
  · rw [hroot, hhost]
    exact h.owned
  · rw [hroot, hdone]
    exact h.stats
  · rw [hroot, hdone, hgeneration, hresolvedIn]
    exact h.cached
  · rw [hgeneration, hresolvedIn]
    exact h.bounded
  · rw [hrecorded]
    exact h.recorded

theorem deleteFromRequestQueue (h : s.Tokens) : (s.deleteFromRequestQueue id).Tokens :=
  ⟨h.owned, h.stats, h.cached, h.bounded, h.recorded⟩

/-- The end of the plugin takes all tokens away. -/
theorem onDone (h : s.Tokens) : s.onDone.Tokens where
  owned := Expressions.Owned.cleanupExpressions (e := s.root.toExpressions s.host.toExpressionHost)
    h.owned
  stats hdone := nomatch hdone
  cached hdone := nomatch hdone
  bounded := h.bounded
  recorded := h.recorded

/-- A configuration takes all tokens away and creates its own.  A configuration that cannot be
parsed leaves them. -/
theorem onConfigure (h : s.Tokens) {call : ConfigureCall} :
    (s.onConfigure lib parseDuration call).Tokens := by
  cases hparse : jsonParse lib call.configuration with
  | none =>
    unfold System.onConfigure
    rw [onConfigure_of_not_parsed hparse, hparse]
    exact ⟨h.owned, h.stats, h.cached, h.bounded, h.recorded⟩
  | some j =>
    have hinstalled := onConfigure_of_parsed parseDuration s.root s.host hparse
    have howned : (call.building j s.root s.host).Owned := by
      refine builds_invariant (I := fun b => b.Owned) builds_buildMetrics ?_
        fun b b' hb hmove => hb.move hmove
      exact Expressions.Owned.cleanupExpressions (e := s.root.toExpressions
        { s.host.toExpressionHost with answers := call.answers }) h.owned
    have hgeneration : (s.onConfigure lib parseDuration call).generation = s.generation + 1 := by
      show (if (jsonParse lib call.configuration).isSome then _ else _) = _
      rw [hparse]; rfl
    obtain ⟨fieldSeparator, valueSeparator, hstats⟩ := hinstalled.stats
    refine ⟨?_, fun _ statgen hmem token htoken => ?_, fun _ d stats _ hresolved => ?_,
      fun d => ?_, h.recorded⟩
    · show Owned ((Stats.onConfigure lib parseDuration call s.root s.host).1.expressions ++
        (Stats.onConfigure lib parseDuration call s.root s.host).1.intExpressions)
        (Stats.onConfigure lib parseDuration call s.root s.host).2.events
      rw [hinstalled.expressions, hinstalled.intExpressions, hinstalled.host]
      exact howned
    · change statgen ∈ (Stats.onConfigure lib parseDuration call s.root s.host).1.stats at hmem
      show token ∈ (Stats.onConfigure lib parseDuration call s.root s.host).1.intExpressions
      rw [hstats] at hmem
      obtain ⟨factory, hfactory, rfl⟩ := List.mem_map.1 hmem
      rw [hinstalled.intExpressions]
      exact defined_buildMetrics.token_mem hfactory htoken
    · -- The cache is that of earlier configurations.
      have hle := h.bounded d
      change s.resolvedIn d = _ at hresolved
      omega
    · rw [hgeneration]
      exact Nat.le_succ_of_le (h.bounded d)

end System.Tokens

/-! ### Runs -/

/-- All reports that come with the callback are current. -/
def Current (libraries : Libraries) (s : System) : Callback → Prop
  | .onLog id access => ∀ stream ∈ s.streams id,
    (s.deleteFromRequestQueue id).ReportsCurrent libraries access true stream.onLog
  | .onTick items => (ticking libraries).Along (fun s item =>
      ∀ stream ∈ s.streams item.1, s.ReportsCurrent libraries item.2 false stream) s items
  | _ => True

theorem System.Tokens.next (h : s.Tokens) {callback : Callback}
    (hcurrent : Current libraries s callback)
    (hn : (statsMachine lib parseDuration libraries).next s callback = some s') : s'.Tokens := by
  rcases next_cases hn with hsame | ⟨call, rfl, rfl⟩ | ⟨id, access, stream, rfl, hstream, hlog⟩ |
    ⟨items, rfl, hrun⟩ | ⟨rfl, rfl⟩
  · exact h.of_samePlugin hsame
  · exact h.onConfigure
  · exact h.deleteFromRequestQueue.report (hcurrent stream hstream) hlog
  · have hreaches : (ticking libraries).Reaches _ s s' := Machine.Along.reaches hcurrent hrun
    refine hreaches.invariant h fun t item t' ht hitem hn => ?_
    change t.tickItem libraries item.1 item.2 = some t' at hn
    unfold System.tickItem at hn
    split at hn
    · rw [← Option.some.inj hn]
      exact ht
    · exact ht.report (hitem _ ‹_›) hn
  · exact h.onDone

/-- **No token is used after its deletion** in all runs in which all reports are current, and no
metric of an earlier configuration is recorded. -/
theorem tokens_safe {outbound useHostHeaderFallback : Bool}
    (hs : (statsMachine lib parseDuration libraries).Reaches (Current libraries)
      (.start outbound useHostHeaderFallback) s) : s.TokensSafe :=
  (hs.invariant (I := System.Tokens) .start fun _ _ _ h hcurrent hn => h.next hcurrent hn).safe

/-- The condition on a callback can be evaluated. -/
instance : Decidable (s.ReportsCurrent libraries access endStream stream) :=
  inferInstanceAs (Decidable (∀ found ∈ foundStats libraries s.root.toPluginRootContext
      ⟨access, stream.requestInfo, endStream⟩,
    ∀ stat ∈ found.2.2, endStream = true ∨ stat.recurrent = true →
      ((s.root.metrics found.2.1).isSome = true → s.resolvedIn found.2.1 = s.generation) ∧
        (s.done = true → stat.valueFn.token = none)))

instance decidableCurrent : ∀ s callback, Decidable (Current libraries s callback)
  | s, .onLog id access => inferInstanceAs (Decidable (∀ stream ∈ s.streams id,
    (s.deleteFromRequestQueue id).ReportsCurrent libraries access true stream.onLog))
  | s, .onTick items => inferInstanceAs (Decidable ((ticking libraries).Along (fun s item =>
      ∀ stream ∈ s.streams item.1, s.ReportsCurrent libraries item.2 false stream) s items))
  | _, .onConfigure _ | _, .onCreate .. | _, .onRequestHeaders .. | _, .onResponseHeaders _
  | _, .onNewConnection _ | _, .onDownstreamData .. | _, .onUpstreamData .. | _, .onDelete _
  | _, .onDone => inferInstanceAs (Decidable True)

/-- An HTTP stream whose request has five bytes. -/
def sizedStream (responseCode : Int64) : StatsStream where
  properties :=
    { Properties.none with
      int64 := fun path =>
        if path = [bytes "response", bytes "code"] then some responseCode else none }
  requestHeaders := fun _ => none
  evaluateString := fun _ => none
  evaluateInt64 := fun _ => some 5

/-- An HTTP stream from its start to its end. -/
def sampleStream (id : UInt32) (responseCode : Int64) : List Callback :=
  [.onCreate id 0 0, .onRequestHeaders id (sizedStream responseCode).toStreamAccess,
    .onLog id (sizedStream responseCode)]

/-- The streams before and after a configuration have different response codes. -/
theorem tokens_safe_other : ∃ s,
    sampleMachine.Reaches (Current sampleLibraries) (.start false true) s ∧
    s.host.events = [.evaluate 2, .create 2 (bytes "request.size"), .delete 1, .evaluate 1,
      .create 1 (bytes "request.size")] ∧
    s.TokensSafe := by
  have hrun : (sampleMachine.run (Current sampleLibraries) (.start false true)
      ([.onConfigure (sampleConfigure definitionText [some 1])] ++ sampleStream 1 200 ++
        [.onConfigure (sampleConfigure definitionText [some 2])] ++ sampleStream 2 404)).map
      (fun s => s.host.events) =
      some [.evaluate 2, .create 2 (bytes "request.size"), .delete 1, .evaluate 1,
        .create 1 (bytes "request.size")] := by
    decide +kernel
  obtain ⟨s, hs, hevents⟩ := Option.map_eq_some_iff.1 hrun
  have hreaches := Machine.Reaches.of_run hs
  exact ⟨s, hreaches, hevents, tokens_safe hreaches⟩

/-- **A deleted token is evaluated.**  The second of two equal streams finds in the cache the metric
that was resolved for the first, although the plugin has been configured anew in between. -/
theorem deleted_token_evaluated : ¬ ∀ (lib : JsonLibrary) (parseDuration : Bytes → Option UInt32)
    (libraries : Libraries) (outbound useHostHeaderFallback : Bool) (s : System),
    (statsMachine lib parseDuration libraries).Reaches (fun _ _ => True)
      (.start outbound useHostHeaderFallback) s → s.TokensSafe := by
  intro h
  have hrun : (sampleMachine.run (fun _ _ => True) (.start false true)
      ([.onConfigure (sampleConfigure definitionText [some 1])] ++ sampleStream 1 200 ++
        [.onConfigure (sampleConfigure definitionText [some 2])] ++ sampleStream 2 200)).map
      (fun s => s.host.events) =
      some [.evaluate 1, .create 2 (bytes "request.size"), .delete 1, .evaluate 1,
        .create 1 (bytes "request.size")] := by
    decide +kernel
  obtain ⟨s, hs, hevents⟩ := Option.map_eq_some_iff.1 hrun
  have hsafe := h sampleJson (fun _ => none) sampleLibraries false true s (.of_run hs)
  have hhistory := hsafe.history
  rw [hevents] at hhistory
  obtain ⟨⟨-, hnotDeleted⟩, -⟩ := hhistory
  exact hnotDeleted (by decide)

/-- So is one after the end of the plugin. -/
example : (sampleMachine.run (fun _ _ => True) (.start false true)
    ([.onConfigure (sampleConfigure definitionText [some 1]), .onDone] ++
      sampleStream 1 200)).map (fun s => s.host.events) =
    some [.evaluate 1, .delete 1, .create 1 (bytes "request.size")] := by
  decide +kernel

end Stats

end WasmExtensions
