import WasmExtensions.Stats.Isolation
import WasmExtensions.Stats.Provenance
import WasmExtensions.Stats.WorkloadLabel

/-!
# Reconfigurations of the stats plugin

A configuration fills in the labels of the local node, for all reports that follow.  Whatever peers
and requests come, every report shows the local node as the metadata of the proxy described it to
the last configuration (`local_node_of_last`).

A configuration that can be parsed is a restart: the plugin is afterwards what it would be if the
old one had ended and a new one had been configured.  Only the cache of resolved metrics is kept,
and it hides what the new metrics would give for the same dimensions (`reconfigured_as_restarted`).
-/

namespace WasmExtensions

namespace Stats

variable {lib : JsonLibrary} {parseDuration : Bytes → Option UInt32} {libraries : Libraries}
  {s s' : System} {outbound : Bool} {properties : Properties} {d d₀ e : IstioDimensions}
  {node : FlatNode} {call : ConfigureCall} {callback : Callback}

/-! ### Tables -/

theorem lookupByKey_eq_some_iff {table : List KeyVal} {key : Bytes} {entry : KeyVal}
    (h : (table.map KeyVal.key).Nodup) :
    lookupByKey table key = some entry ↔ entry ∈ table ∧ entry.key = key := by
  constructor
  · intro hfind
    exact ⟨List.mem_of_find?_eq_some hfind, by simpa using List.find?_some hfind⟩
  · rintro ⟨hmem, hkey⟩
    cases hfind : lookupByKey table key with
    | none =>
      have hnone := List.find?_eq_none.1 hfind entry hmem
      exact absurd (decide_eq_true hkey) hnone
    | some entry' =>
      have hmem' : entry' ∈ table := List.mem_of_find?_eq_some hfind
      have hkey' : entry'.key = key := by simpa using List.find?_some hfind
      rw [List.inj_on_of_nodup_map h hmem' hmem (hkey'.trans hkey.symm)]

/-- Sorting a table with different keys makes no difference to what is found. -/
theorem lookupByKey_createVectorOfSortedTables {table : List KeyVal} {key : Bytes}
    (h : (table.map KeyVal.key).Nodup) :
    lookupByKey (createVectorOfSortedTables table) key = lookupByKey table key := by
  have hperm : (createVectorOfSortedTables table).Perm table := List.perm_insertionSort _ _
  have hsorted : ((createVectorOfSortedTables table).map KeyVal.key).Nodup :=
    (hperm.map _).nodup_iff.2 h
  apply Option.ext
  intro entry
  rw [lookupByKey_eq_some_iff hsorted, lookupByKey_eq_some_iff h, hperm.mem_iff]

/-! ### The local node -/

/-- The labels in the metadata of the proxy. -/
def nodeLabelPairs (properties : Properties) : List (Bytes × Bytes) :=
  (properties.pairs [bytes "node", bytes "metadata", bytes "LABELS"]).getD []

def nodeLabel (properties : Properties) (key : Bytes) : Option Bytes :=
  (nodeLabelPairs properties).lookup key

/-- A field of the metadata of the proxy. -/
def nodeMetadata (properties : Properties) (field : Bytes) : Bytes :=
  (properties.string [bytes "node", bytes "metadata", field]).getD []

/-- The dimensions show the local node as the metadata of the proxy describe it. -/
structure ShowsLocalNode (outbound : Bool) (properties : Properties) (d : IstioDimensions) :
    Prop where
  reporter : d[StandardLabels.reporter.index]? =
    some (if outbound then bytes "source" else bytes "destination")
  workload : d[(labelsOf outbound).workload.index]? =
    some (orUnknown (nodeMetadata properties (bytes "WORKLOAD_NAME")))
  workloadNamespace : d[(labelsOf outbound).workloadNamespace.index]? =
    some (orUnknown (nodeMetadata properties (bytes "NAMESPACE")))
  cluster : d[(labelsOf outbound).cluster.index]? =
    some (orUnknown (nodeMetadata properties (bytes "CLUSTER_ID")))
  app : d[(labelsOf outbound).app.index]? =
    some (orUnknown ((nodeLabel properties (bytes "app")).getD []))
  version : d[(labelsOf outbound).version.index]? =
    some (orUnknown ((nodeLabel properties (bytes "version")).getD []))
  /-- The workload stands for a service without a name. -/
  canonicalService : d[(labelsOf outbound).canonicalService.index]? =
    some (orUnknown ((nodeLabel properties kCanonicalServiceLabelName).getD
      (nodeMetadata properties (bytes "WORKLOAD_NAME"))))
  canonicalRevision : d[(labelsOf outbound).canonicalRevision.index]? =
    some (orUnknown ((nodeLabel properties kCanonicalServiceRevisionLabelName).getD
      (bytes "latest")))
  serviceNamespace : outbound = false →
    d[StandardLabels.destinationServiceNamespace.index]? =
      some (orUnknown (nodeMetadata properties (bytes "NAMESPACE")))

/-- What a configuration writes into the vector. -/
def writeLocalNode (outbound : Bool) (node : FlatNode) (d : IstioDimensions) : IstioDimensions :=
  mapNode outbound node
    (assign .reporter (if outbound then bytes "source" else bytes "destination") d)

theorem lookupByKey_nodeLabels (h : ((nodeLabelPairs properties).map Prod.fst).Nodup)
    (key : Bytes) :
    lookupByKey (createVectorOfSortedTables
      ((nodeLabelPairs properties).map fun (key, val) => ⟨key, some val⟩)) key =
      (nodeLabel properties key).map fun val => ⟨key, some val⟩ := by
  rw [lookupByKey_createVectorOfSortedTables (by rw [List.map_map]; exact h)]
  unfold nodeLabel
  generalize nodeLabelPairs properties = pairs
  induction pairs with
  | nil => rfl
  | cons pair pairs ih =>
    obtain ⟨key', val⟩ := pair
    unfold lookupByKey at ih ⊢
    by_cases hkey : key' = key
    · subst hkey
      simp
    · have hne : (key == key') = false := beq_eq_false_iff_ne.2 (Ne.symm hkey)
      rw [List.map_cons, List.find?_cons_of_neg (by simpa using hkey), ih, List.lookup_cons, hne]

variable (outbound node) in
/-- The two labels of a configuration that are not among those of an end. -/
theorem writeLocalNode_other (hlength : countStandardLabels ≤ d.length) :
    (writeLocalNode outbound node d)[StandardLabels.reporter.index]? =
        some (if outbound then bytes "source" else bytes "destination") ∧
      (outbound = false →
        (writeLocalNode outbound node d)[StandardLabels.destinationServiceNamespace.index]? =
          some (node.namespace_.getD [])) := by
  constructor
  · unfold writeLocalNode mapNode mapNodeLabels
    cases outbound <;> cases node.labels <;>
      simp only [sourceLabels, destinationLabels, assign_get, length_assign, hlength, reduceCtorEq,
        Bool.false_eq_true, if_true, if_false]
  · rintro rfl
    refine mapNode_serviceNamespace ?_
    rw [length_assign]
    exact hlength

/-- The value of a label of the local node. -/
theorem labelValue_localNode (h : ((nodeLabelPairs properties).map Prod.fst).Nodup)
    (key : Bytes) :
    labelValue (extractLocalNodeFlatBuffer properties) key = nodeLabel properties key := by
  have hlabel : labelValue (extractLocalNodeFlatBuffer properties) key =
      (lookupByKey (createVectorOfSortedTables
        ((nodeLabelPairs properties).map fun (key, val) => ⟨key, some val⟩)) key).map
          fun entry => entry.value.getD [] := rfl
  rw [hlabel, lookupByKey_nodeLabels h]
  cases nodeLabel properties key <;> rfl

/-- The labels that are written describe the local node. -/
theorem showsLocalNode_of_written (hkeys : ((nodeLabelPairs properties).map Prod.fst).Nodup)
    (hlength : countStandardLabels ≤ d₀.length)
    (h : ∀ l ∈ localLabels outbound, d[l.index]? =
      (writeLocalNode outbound (extractLocalNodeFlatBuffer properties) d₀)[l.index]?.map
        orUnknown) : ShowsLocalNode outbound properties d := by
  have hlabel := labelValue_localNode hkeys
  have hlength' : countStandardLabels ≤ (assign .reporter
      (if outbound then bytes "source" else bytes "destination") d₀).length := by
    rw [length_assign]
    exact hlength
  have hvalues : NodeValues (labelsOf outbound) (mapNode outbound
      (extractLocalNodeFlatBuffer properties) _) _ := nodeValues_mapNode hlength'
  obtain ⟨hreporter, hnamespace⟩ := writeLocalNode_other outbound
    (extractLocalNodeFlatBuffer properties) hlength
  have hend : ∀ l ∈ (labelsOf outbound).all, l ∈ localLabels outbound := by
    cases outbound <;> decide
  have hshown {l : StandardLabels} {value : Bytes} (hl : l ∈ localLabels outbound)
      (hvalue : (writeLocalNode outbound (extractLocalNodeFlatBuffer properties) d₀)[l.index]? =
        some value) : d[l.index]? = some (orUnknown value) := by
    rw [h l hl, hvalue, Option.map_some]
  constructor
  · rw [hshown List.mem_cons_self hreporter]
    split_ifs <;> rfl
  · exact hshown (hend _ (by simp [NodeLabels.all])) hvalues.workload_eq
  · exact hshown (hend _ (by simp [NodeLabels.all])) hvalues.workloadNamespace_eq
  · exact hshown (hend _ (by simp [NodeLabels.all])) hvalues.cluster_eq
  · rw [← hlabel]
    exact hshown (hend _ (by simp [NodeLabels.all])) hvalues.app_eq
  · rw [← hlabel]
    exact hshown (hend _ (by simp [NodeLabels.all])) hvalues.version_eq
  · rw [← hlabel]
    exact hshown (hend _ (by simp [NodeLabels.all])) hvalues.canonicalService_eq
  · rw [← hlabel]
    exact hshown (hend _ (by simp [NodeLabels.all])) hvalues.canonicalRevision_eq
  · rintro rfl
    exact hshown (by decide) (hnamespace rfl)

/-! ### What a configuration installs -/

/-- What a configuration installs, by what it has built. -/
theorem onConfigure_eq {j : Json} (hparse : jsonParse lib call.configuration = some j)
    (root : RootContext) (host : Host) :
    onConfigure lib parseDuration call root host =
      let b := call.building j root host
      ({ root with
          useHostHeaderFallback :=
            !valueOr (jsonGetField jsonValueAsBool j (bytes "disable_host_header_fallback")) false
          istioDimensions := writeLocalNode root.outbound call.localNode
            (resize (countStandardLabels + b.expressions.length) root.istioDimensions)
          expressions := b.expressions
          inputExpressions := b.inputExpressions
          intExpressions := b.intExpressions
          stats := b.factories.map (b.statGen
            (valueOr (jsonGetField jsonValueAsString j (bytes "field_separator")) (bytes ";.;"))
            (valueOr (jsonGetField jsonValueAsString j (bytes "value_separator")) (bytes "=.=")))
          initialized := true },
        { toExpressionHost := b.host
          tickPeriodMilliseconds := some (tcpReportDuration parseDuration j)
          build := host.build ++ [(if call.istioVersion.isEmpty then bytes "unknown"
            else call.istioVersion) ++ bytes ";"] }) := by
  unfold onConfigure configure
  rw [hparse]
  rfl

theorem outbound_onConfigure {root : RootContext} {host : Host} :
    (onConfigure lib parseDuration call root host).1.outbound = root.outbound := by
  cases hparse : jsonParse lib call.configuration with
  | none => rw [onConfigure_of_not_parsed hparse]
  | some j => rw [onConfigure_eq hparse]

/-! ### Runs -/

/-- The configuration of a callback. -/
def Callback.configureCall : Callback → Option ConfigureCall
  | .onConfigure call => some call
  | _ => none

/-- The last configuration, whether it can be parsed or not. -/
def lastConfigured (callbacks : List Callback) : Option ConfigureCall :=
  (callbacks.filterMap Callback.configureCall).getLast?

theorem lastConfigured_concat {callbacks : List Callback} :
    lastConfigured (callbacks ++ [callback]) =
      callback.configureCall.or (lastConfigured callbacks) := by
  unfold lastConfigured
  rw [List.filterMap_append, List.getLast?_append]
  cases hcall : callback.configureCall with
  | none => rw [List.filterMap_cons_none hcall]; rfl
  | some call => rw [List.filterMap_cons_some hcall]; rfl

/-- The vector holds the local node, up to the replacement of empty texts. -/
def HoldsLocalNode (outbound : Bool) (node : FlatNode) (d : IstioDimensions) : Prop :=
  ∃ d₀ : IstioDimensions, countStandardLabels ≤ d₀.length ∧ ∀ l ∈ localLabels outbound,
    d[l.index]?.map orUnknown = (writeLocalNode outbound node d₀)[l.index]?.map orUnknown

/-- The plugin holds the local node of the last configuration. -/
structure System.LocalNodeOf (outbound : Bool) (last : Option ConfigureCall) (s : System) :
    Prop where
  outbound_eq : s.root.outbound = outbound
  holds : s.root.initialized = true → ∃ call, last = some call ∧
    HoldsLocalNode outbound call.localNode s.root.istioDimensions

namespace System.LocalNodeOf

variable {last : Option ConfigureCall} {id : UInt32} {access : StatsStream} {endStream : Bool}
  {stream : Stream}

theorem report (h : s.LocalNodeOf outbound last)
    (hreport : s.report libraries id access endStream stream = some s') :
    s'.LocalNodeOf outbound last := by
  obtain ⟨r, hr, hroot, -⟩ := report_eq_some hreport
  have hframe := report_frame hr
  have hinit : s'.root.initialized = s.root.initialized := (System.stats_report hreport).2
  have hout : s'.root.outbound = s.root.outbound := by
    rw [hroot]
    show r.plugin.outbound = s.root.outbound
    rw [hframe]
  refine ⟨hout.trans h.outbound_eq, fun hs' => ?_⟩
  obtain ⟨call, hlast, d₀, hlength, hholds⟩ := h.holds (hinit ▸ hs')
  refine ⟨call, hlast, d₀, hlength, fun l hl => ?_⟩
  rw [← hholds l hl, hroot]
  show r.plugin.istioDimensions[l.index]?.map orUnknown = _
  rcases report_dimensions hr with hsame | ⟨request, hbuild⟩
  · rw [hsame]
  · exact (buildDimensions_agree hbuild).localNode l (h.outbound_eq ▸ hl)

theorem onConfigure (h : s.LocalNodeOf outbound last) :
    (s.onConfigure lib parseDuration call).LocalNodeOf outbound (some call) := by
  have hout : (s.onConfigure lib parseDuration call).root.outbound = s.root.outbound :=
    outbound_onConfigure
  refine ⟨hout.trans h.outbound_eq, fun hinit => ⟨call, rfl, ?_⟩⟩
  change (Stats.onConfigure lib parseDuration call s.root s.host).1.initialized = true at hinit
  cases hparse : jsonParse lib call.configuration with
  | none =>
    rw [onConfigure_of_not_parsed hparse] at hinit
    cases hinit
  | some j =>
    refine ⟨resize (countStandardLabels + (call.building j s.root s.host).expressions.length)
      s.root.istioDimensions, ?_, fun l _ => ?_⟩
    · rw [length_resize]
      exact Nat.le_add_right _ _
    · show (Stats.onConfigure lib parseDuration call s.root s.host).1.istioDimensions[l.index]?.map
        orUnknown = _
      rw [onConfigure_eq hparse, ← h.outbound_eq]

theorem next {callbacks : List Callback} (h : s.LocalNodeOf outbound (lastConfigured callbacks))
    (hn : (statsMachine lib parseDuration libraries).next s callback = some s') :
    s'.LocalNodeOf outbound (lastConfigured (callbacks ++ [callback])) := by
  rw [lastConfigured_concat]
  by_cases hcall : ∃ call, callback = .onConfigure call
  · obtain ⟨call, rfl⟩ := hcall
    cases hn
    exact h.onConfigure
  · have hnone : callback.configureCall = none := by
      cases callback with
      | onConfigure call => exact absurd ⟨call, rfl⟩ hcall
      | _ => rfl
    rw [hnone, Option.none_or]
    rcases next_cases hn with hsame | ⟨call, rfl, -⟩ | ⟨id, access, stream, -, -, hlog⟩ |
      ⟨items, -, hrun⟩ | ⟨-, rfl⟩
    · refine ⟨?_, ?_⟩
      · rw [hsame.root]
        exact h.outbound_eq
      · rw [hsame.root]
        exact h.holds
    · exact absurd ⟨call, rfl⟩ hcall
    · have hdeleted : (s.deleteFromRequestQueue id).LocalNodeOf outbound
          (lastConfigured callbacks) := ⟨h.outbound_eq, h.holds⟩
      exact hdeleted.report hlog
    · exact ticking_invariant hrun h fun t id access stream t' _ ht _ hreport => ht.report hreport
    · exact ⟨h.outbound_eq, h.holds⟩

end System.LocalNodeOf

/-- The labels of the local node in what a report builds. -/
theorem buildDimensions_local {plugin : PluginRootContext} {stream : StatsStream}
    {request : RequestInfo} {l : StandardLabels}
    (h : buildDimensions plugin stream node request = some e)
    (hl : l ∈ localLabels plugin.outbound) :
    e[l.index]? = plugin.istioDimensions[l.index]?.map orUnknown := by
  obtain ⟨d, hmap, heval⟩ := Option.bind_eq_some_iff.1 h
  obtain ⟨-, hd⟩ := map_eq_finish hmap
  have hstatus : l ≠ .grpcResponseStatus := by
    rintro rfl
    revert hl
    cases plugin.outbound <;> decide
  rw [(evaluateExpressions_frame heval).2 _ (.inl l.index_lt), hd, finish_get hstatus,
    writes_mapRequest_mapPeer.frame _ _ (ne_index_of_localLabels hl)]

/-- **Every report shows the local node as the last configuration found it in the metadata of the
proxy**, whatever peers and requests have come before, and whatever the earlier configurations
were. -/
theorem local_node_of_last {useHostHeaderFallback : Bool} {callbacks : List Callback}
    (hrun : (statsMachine lib parseDuration libraries).run (fun _ _ => True)
      (.start outbound useHostHeaderFallback) callbacks = some s)
    (hlast : lastConfigured callbacks = some call)
    (hnode : call.localNode = extractLocalNodeFlatBuffer properties)
    (hkeys : ((nodeLabelPairs properties).map Prod.fst).Nodup)
    {reportCall : ReportCall} {requestInfo : RequestInfo} {stats : List SimpleStat}
    (hfound : foundStats libraries s.root.toPluginRootContext reportCall =
      some (requestInfo, d, stats)) : ShowsLocalNode outbound properties d := by
  have hstart : (System.start outbound useHostHeaderFallback).LocalNodeOf outbound
      (lastConfigured []) := ⟨rfl, fun hinit => nomatch hinit⟩
  have hlocal := Machine.run_invariant (I := fun callbacks t =>
    t.LocalNodeOf outbound (lastConfigured callbacks)) hstart
    (fun _ _ _ _ ht hn => ht.next hn) hrun
  have hinit : s.root.initialized = true := by
    simpa using (Option.ite_none_left_eq_some.1 hfound).1
  obtain ⟨call', hcall, d₀, hlength, hholds⟩ := hlocal.holds hinit
  rw [hlast] at hcall
  obtain rfl := Option.some.inj hcall
  obtain ⟨-, hbuild, -⟩ := foundStats_inversion hfound
  refine showsLocalNode_of_written hkeys hlength fun l hl => ?_
  rw [← hnode, ← hholds l hl]
  exact buildDimensions_local hbuild (hlocal.outbound_eq.symm ▸ hl)

/-- The metadata of a proxy, with labels that are not sorted. -/
def sampleMetadata : Properties :=
  { Properties.none with
    string := fun path =>
      if path = [bytes "node", bytes "metadata", bytes "WORKLOAD_NAME"] then
        some (bytes "reviews-v1")
      else none
    pairs := fun path =>
      if path = [bytes "node", bytes "metadata", bytes "LABELS"] then
        some [(bytes "version", bytes "v1"), (bytes "app", bytes "reviews")]
      else none }

/-- A configuration by a proxy with this metadata. -/
def metadataConfigure : ConfigureCall :=
  { sampleConfigure (bytes "\x7b\x7d") [] with
    localNode := extractLocalNodeFlatBuffer sampleMetadata }

/-- A report after two configurations and a request of another peer. -/
theorem local_node_of_last_second : ∃ s found,
    sampleMachine.run (fun _ _ => True) (.start true true)
      [.onConfigure (sampleConfigure dropText []), .onConfigure metadataConfigure,
        .onCreate 1 0 0, .onNewConnection 1, .onLog 1 otherCall.stream] = some s ∧
    foundStats sampleLibraries s.root.toPluginRootContext sampleCall = some found ∧
    ShowsLocalNode true sampleMetadata found.2.1 ∧
    found.2.1[StandardLabels.sourceApp.index]? = some (bytes "reviews") ∧
    found.2.1[StandardLabels.sourceCanonicalService.index]? = some (bytes "reviews-v1") := by
  have hfound : ((sampleMachine.run (fun _ _ => True) (.start true true)
      [.onConfigure (sampleConfigure dropText []), .onConfigure metadataConfigure,
        .onCreate 1 0 0, .onNewConnection 1, .onLog 1 otherCall.stream]).bind fun s =>
      foundStats sampleLibraries s.root.toPluginRootContext sampleCall).isSome := by
    decide +kernel
  obtain ⟨found, hfound⟩ := Option.isSome_iff_exists.1 hfound
  obtain ⟨s, hs, hfound⟩ := Option.bind_eq_some_iff.1 hfound
  obtain ⟨requestInfo, d, stats⟩ := found
  have hshows : ShowsLocalNode true sampleMetadata d :=
    local_node_of_last hs rfl rfl (by decide) hfound
  exact ⟨s, _, hs, hfound, hshows, hshows.app, hshows.canonicalService⟩

/-! ### Restarts -/

/-- The plugin ends, and a new one is configured. -/
def System.restarted (lib : JsonLibrary) (parseDuration : Bytes → Option UInt32)
    (useHostHeaderFallback : Bool) (call : ConfigureCall) (s : System) : RootContext × Host :=
  Stats.onConfigure lib parseDuration call (.new s.root.outbound useHostHeaderFallback)
    s.onDone.host

/-- Deleting expressions leaves the answers. -/
theorem deleteAll_eq {tokens : List UInt32} {host : ExpressionHost} :
    host.deleteAll tokens =
      ⟨host.answers, (tokens.map ExpressionEvent.delete).reverse ++ host.events⟩ := by
  unfold ExpressionHost.deleteAll
  induction tokens generalizing host with
  | nil => rfl
  | cons token tokens ih =>
    rw [List.foldl_cons, ih, List.map_cons, List.reverse_cons, List.append_assoc]
    rfl

/-- A restart builds what the configuration builds. -/
theorem building_restarted {j : Json} {root : RootContext} {host : Host}
    {useHostHeaderFallback : Bool} :
    call.building j (.new root.outbound useHostHeaderFallback) (onDone root host).2 =
      call.building j root host := by
  have hhost : ({ host.toExpressionHost with answers := call.answers }.deleteAll
        root.expressions).deleteAll root.intExpressions =
      ⟨call.answers,
        ((host.toExpressionHost.deleteAll root.expressions).deleteAll
          root.intExpressions).events⟩ := by
    simp only [deleteAll_eq]
  exact congrArg (fun host => buildMetrics j call.mapOrder ⟨[], [], [], host⟩) hhost.symm

/-- The keys of the peer metadata are those of the constructor. -/
structure RootContext.SameKeys (root : RootContext) : Prop where
  id : root.peerMetadataIdKey = (RootContext.new root.outbound false).peerMetadataIdKey
  metadata : root.peerMetadataKey = (RootContext.new root.outbound false).peerMetadataKey

theorem Writes.of_mem_iff {labels labels' : List StandardLabels}
    {f : IstioDimensions → IstioDimensions} (h : Writes labels f)
    (hiff : ∀ l, l ∈ labels ↔ l ∈ labels') : Writes labels' f where
  length := h.length
  frame d i hi := h.frame d i fun l hl => hi l ((hiff l).1 hl)
  determined d d' hlength l hl := h.determined d d' hlength l ((hiff l).2 hl)

/-- The labels that a configuration writes. -/
theorem writes_writeLocalNode (node : FlatNode) :
    Writes (localLabels outbound) (writeLocalNode outbound node) := by
  have hreporter (value : Bytes) : Writes [.reporter] (assign .reporter value) := .assign .nil
  cases outbound with
  | false =>
    have hnode : Writes (.destinationServiceNamespace :: destinationLabels.all)
        (mapNode false node) := (writes_mapNodeLabels destinationLabels).assign
    refine ((hreporter _).comp hnode).of_mem_iff fun l => ?_
    rw [List.mem_append, List.mem_singleton, or_comm]
    exact List.mem_cons.symm
  | true =>
    have hnode : Writes sourceLabels.all (mapNode true node) := writes_mapNodeLabels sourceLabels
    refine ((hreporter _).comp hnode).of_mem_iff fun l => ?_
    rw [List.mem_append, List.mem_singleton, or_comm]
    exact List.mem_cons.symm

/-- What the vector held before a configuration makes no difference. -/
theorem agree_writeLocalNode (n : ℕ) (node : FlatNode) (d d' : IstioDimensions) :
    Agree outbound n (writeLocalNode outbound node (resize (countStandardLabels + n) d))
      (writeLocalNode outbound node (resize (countStandardLabels + n) d')) := by
  have hwrites : Writes (localLabels outbound) (writeLocalNode outbound node) :=
    writes_writeLocalNode node
  have hlength (d : IstioDimensions) :
      (writeLocalNode outbound node (resize (countStandardLabels + n) d)).length =
        countStandardLabels + n := by
    rw [hwrites.length, length_resize]
  refine ⟨(hlength d).trans (hlength d').symm, fun l hl => ?_, fun i hi => ?_⟩
  · rw [hwrites.determined _ _ (length_resize.trans length_resize.symm) l hl]
  · rw [List.getElem?_eq_none ((hlength d).trans_le hi),
      List.getElem?_eq_none ((hlength d').trans_le hi)]

/-- After a configuration, the plugin and the host are as after a restart, up to the cache and to
what reports overwrite. -/
theorem keeping_restarted {j : Json} (hkeys : s.root.SameKeys)
    (hparse : jsonParse lib call.configuration = some j)
    (parseDuration : Bytes → Option UInt32) (useHostHeaderFallback : Bool) :
    Keeping (s.restarted lib parseDuration useHostHeaderFallback call).1.toPluginRootContext
        (s.onConfigure lib parseDuration call).root.toPluginRootContext ∧
      (s.onConfigure lib parseDuration call).host =
        (s.restarted lib parseDuration useHostHeaderFallback call).2 := by
  have hbuilding : call.building j (.new s.root.outbound useHostHeaderFallback) s.onDone.host =
      call.building j s.root s.host := building_restarted
  have hroot : (s.onConfigure lib parseDuration call).root =
      (onConfigure lib parseDuration call s.root s.host).1 := rfl
  have hhost : (s.onConfigure lib parseDuration call).host =
      (onConfigure lib parseDuration call s.root s.host).2 := rfl
  unfold System.restarted
  rw [hroot, hhost, onConfigure_eq hparse, onConfigure_eq hparse, hbuilding]
  refine ⟨⟨?_, ?_⟩, rfl⟩
  · show PluginRootContext.mk _ _ _ _ _ _ _ _ _ _ = _
    rw [hkeys.id, hkeys.metadata]
    rfl
  · exact agree_writeLocalNode _ _ _ _

section

variable {p plugin : PluginRootContext} {old : Memo IstioDimensions (List SimpleStat)}
  {reportCall : ReportCall} {r : Report}

/-- What reports leave of the plugin `p`, if the cache was not empty at first. -/
structure GoesOn (old : Memo IstioDimensions (List SimpleStat)) (p plugin : PluginRootContext) :
    Prop where
  keeping : Keeping p plugin
  kept : plugin.metrics.Extends old
  sound : Memo.Sound (old.before (statsOf p.stats)) plugin.metrics

theorem GoesOn.report (h : GoesOn old p plugin)
    (hreport : report libraries plugin reportCall = some r) : GoesOn old p r.plugin := by
  refine ⟨h.keeping.report hreport, ?_, ?_⟩
  · rcases report_inversion hreport with ⟨-, -, rfl⟩ |
      ⟨requestInfo, d, stats, -, -, -, ⟨-, hmetrics⟩ | ⟨hnone, -, hmetrics⟩⟩
    · exact h.kept
    · exact hmetrics ▸ h.kept
    · exact hmetrics ▸ h.kept.insert hnone
  · rcases report_inversion hreport with ⟨-, -, rfl⟩ |
      ⟨requestInfo, d, stats, -, -, -, ⟨-, hmetrics⟩ | ⟨hnone, hstats, hmetrics⟩⟩
    · exact h.sound
    · exact hmetrics ▸ h.sound
    · have hstats' : statsOf p.stats d = some stats := by
        rw [h.keeping.1] at hstats
        exact hstats
      exact hmetrics ▸ h.sound.insert ((Memo.before_of_none (h.kept.eq_none hnone)).trans hstats')

/-- The reports find what those of `p` would find with the old cache. -/
theorem GoesOn.foundStats_eq (h : GoesOn old p plugin) (libraries : Libraries)
    (reportCall : ReportCall) :
    foundStats libraries plugin reportCall =
      foundStats libraries { p with metrics := old } reportCall := by
  refine foundStats_congr libraries reportCall h.keeping ⟨rfl, .refl⟩ fun d => ?_
  have hstats : plugin.stats = p.stats := by rw [h.keeping.1]
  rw [hstats]
  exact h.sound.or_eq_before h.kept

/-- An old cache that has nothing for what is found makes no difference. -/
theorem foundStats_with_metrics (hempty : p.metrics = Memo.empty)
    (hreport : Stats.report libraries p reportCall = some r)
    (hnone : ∀ found, foundStats libraries p reportCall = some found → old found.2.1 = none) :
    foundStats libraries { p with metrics := old } reportCall =
      foundStats libraries p reportCall := by
  rcases report_inversion hreport with ⟨hskip, hfound, -⟩ | ⟨requestInfo, d, stats, hfound, -⟩
  · rw [hfound]
    unfold foundStats
    rcases hskip with hinit | hpopulate
    · rw [if_pos (by simp [hinit])]
    · have hpopulate' : populate libraries { p with metrics := old } reportCall
          (peerOf libraries { p with metrics := old } reportCall) = none := hpopulate
      rw [hpopulate']
      split_ifs <;> rfl
  · have hinit : p.initialized = true := by
      simpa using (Option.ite_none_left_eq_some.1 hfound).1
    obtain ⟨hpopulate, hbuild, hstats⟩ := foundStats_inversion hfound
    have hold : old d = none := hnone _ hfound
    have hstats' : (old d).or (statsOf p.stats d) = some stats := by
      rw [hold]
      rw [hempty] at hstats
      exact hstats
    have hpopulate' : populate libraries { p with metrics := old } reportCall
        (peerOf libraries { p with metrics := old } reportCall) = some requestInfo := hpopulate
    have hbuild' : buildDimensions { p with metrics := old } reportCall.stream
        (peerOf libraries { p with metrics := old } reportCall).get requestInfo = some d := hbuild
    rw [hfound]
    unfold foundStats
    rw [if_neg (by simp [hinit]), hpopulate', Option.bind_some, hbuild', Option.bind_some, hstats']
    rfl

end

/-! ### Runs after a configuration -/

theorem System.sameKeys_of_run {useHostHeaderFallback : Bool} {callbacks : List Callback}
    (hrun : (statsMachine lib parseDuration libraries).run (fun _ _ => True)
      (.start outbound useHostHeaderFallback) callbacks = some s) : s.root.SameKeys := by
  refine Machine.run_invariant (I := fun _ t => t.root.SameKeys) ⟨rfl, rfl⟩
    (fun _ t callback t' ht hn => ?_) hrun
  have hreported {t t' : System} {id : UInt32} {access : StatsStream} {endStream : Bool}
      {stream : Stream} (ht : t.root.SameKeys)
      (hreport : t.report libraries id access endStream stream = some t') : t'.root.SameKeys := by
    obtain ⟨r, hr, hroot, -⟩ := System.report_eq_some hreport
    have hframe := report_frame hr
    have hout : r.plugin.outbound = t.root.outbound := by rw [hframe]
    rw [hroot]
    refine ⟨?_, ?_⟩
    · show r.plugin.peerMetadataIdKey = (RootContext.new r.plugin.outbound false).peerMetadataIdKey
      rw [hout, ← ht.id, hframe]
    · show r.plugin.peerMetadataKey = (RootContext.new r.plugin.outbound false).peerMetadataKey
      rw [hout, ← ht.metadata, hframe]
  rcases next_cases hn with hsame | ⟨call, -, rfl⟩ | ⟨id, access, stream, -, -, hlog⟩ |
    ⟨items, -, hticking⟩ | ⟨-, rfl⟩
  · rw [hsame.root]
    exact ⟨ht.id, ht.metadata⟩
  · show (Stats.onConfigure lib parseDuration call t.root t.host).1.SameKeys
    cases hparse : jsonParse lib call.configuration with
    | none =>
      rw [onConfigure_of_not_parsed hparse]
      exact ⟨ht.id, ht.metadata⟩
    | some j =>
      rw [onConfigure_eq hparse]
      exact ⟨ht.id, ht.metadata⟩
  · have hdeleted : (t.deleteFromRequestQueue id).root.SameKeys := ⟨ht.id, ht.metadata⟩
    exact hreported hdeleted hlog
  · exact ticking_invariant (I := fun t => t.root.SameKeys) hticking ht
      fun _ _ _ _ _ _ ht _ hreport => hreported ht hreport
  · exact ⟨ht.id, ht.metadata⟩

/-- As long as there is no other configuration, the plugin goes on from the last one. -/
theorem GoesOn.next {p : PluginRootContext} {old : Memo IstioDimensions (List SimpleStat)}
    (h : GoesOn old p s.root.toPluginRootContext) (hstreams : callback.Streams)
    (hn : (statsMachine lib parseDuration libraries).next s callback = some s') :
    GoesOn old p s'.root.toPluginRootContext := by
  have hreported {t t' : System} {id : UInt32} {access : StatsStream} {endStream : Bool}
      {stream : Stream} (ht : GoesOn old p t.root.toPluginRootContext)
      (hreport : t.report libraries id access endStream stream = some t') :
      GoesOn old p t'.root.toPluginRootContext := by
    obtain ⟨r, hr, hroot, -⟩ := System.report_eq_some hreport
    rw [hroot]
    exact ht.report hr
  rcases next_cases hn with hsame | ⟨call, rfl, -⟩ | ⟨id, access, stream, -, -, hlog⟩ |
    ⟨items, -, hrun⟩ | ⟨rfl, -⟩
  · rw [hsame.root]
    exact h
  · exact hstreams.elim
  · have hdeleted : GoesOn old p (s.deleteFromRequestQueue id).root.toPluginRootContext := h
    exact hreported hdeleted hlog
  · exact ticking_invariant (I := fun t => GoesOn old p t.root.toPluginRootContext) hrun h
      fun _ _ _ _ _ _ ht _ hreport => hreported ht hreport
  · exact hstreams.elim

/-- **A configuration is a restart.**  Whatever has happened before, the host is left as by a plugin
that ends and is configured anew; and in all that follows, up to the next configuration, a report
records what the restarted plugin would record with the old cache, which is what it would record
without it if the old cache has nothing for the dimensions of the report. -/
theorem reconfigured_as_restarted {useHostHeaderFallback : Bool} {t : System} {j : Json}
    (fallback : Bool) {before after : List Callback} {reportCall : ReportCall} {r : Report}
    (hbefore : (statsMachine lib parseDuration libraries).run (fun _ _ => True)
      (.start outbound useHostHeaderFallback) before = some s)
    (hparse : jsonParse lib call.configuration = some j)
    (hstreams : ∀ callback ∈ after, callback.Streams)
    (hafter : (statsMachine lib parseDuration libraries).run (fun _ _ => True)
      (s.onConfigure lib parseDuration call) after = some t)
    (hreport : report libraries t.root.toPluginRootContext reportCall = some r) :
    (s.onConfigure lib parseDuration call).host =
        (s.restarted lib parseDuration fallback call).2 ∧
      (∃ r', report libraries
          { (s.restarted lib parseDuration fallback call).1.toPluginRootContext with
            metrics := s.root.metrics } reportCall = some r' ∧ r.recording = r'.recording) ∧
      ((∀ found, foundStats libraries
          (s.restarted lib parseDuration fallback call).1.toPluginRootContext reportCall =
            some found → s.root.metrics found.2.1 = none) →
        ∃ r', report libraries
          (s.restarted lib parseDuration fallback call).1.toPluginRootContext reportCall =
            some r' ∧ r.recording = r'.recording) := by
  obtain ⟨hkeeping, hhost⟩ := keeping_restarted (System.sameKeys_of_run hbefore) hparse
    parseDuration fallback
  have hmetrics : (s.onConfigure lib parseDuration call).root.metrics = s.root.metrics :=
    metrics_onConfigure
  have hstart : GoesOn s.root.metrics
      (s.restarted lib parseDuration fallback call).1.toPluginRootContext
      (s.onConfigure lib parseDuration call).root.toPluginRootContext := by
    refine ⟨hkeeping, ?_, ?_⟩
    · intro d stats hold
      rw [hmetrics]
      exact hold
    · intro d stats hcached
      rw [hmetrics] at hcached
      exact Memo.before_of_some hcached
  have hgoes : GoesOn s.root.metrics
      (s.restarted lib parseDuration fallback call).1.toPluginRootContext
      t.root.toPluginRootContext :=
    (Machine.Reaches.of_run_of_forall hafter hstreams).invariant (I := fun t =>
      GoesOn s.root.metrics
        (s.restarted lib parseDuration fallback call).1.toPluginRootContext
        t.root.toPluginRootContext) hstart fun _ _ _ ht hcallback hn => ht.next hcallback hn
  have hwf : (s.restarted lib parseDuration fallback call).1.Wf :=
    RootContext.wf_new.onConfigure lib parseDuration call s.onDone.host
  have hwf' : { (s.restarted lib parseDuration fallback call).1 with
      metrics := s.root.metrics }.Wf := ⟨hwf.expressions, hwf.indexes, hwf.stats⟩
  have hexpressions : t.root.expressions =
      (s.restarted lib parseDuration fallback call).1.expressions := by
    rw [hgoes.keeping.1]
  have hfound := hgoes.foundStats_eq libraries reportCall
  refine ⟨hhost, ?_, fun hnone => ?_⟩
  · obtain ⟨r', hreport'⟩ := hwf'.exists_report libraries reportCall
    exact ⟨r', hreport', recording_congr hfound hexpressions hreport hreport'⟩
  · obtain ⟨r', hreport'⟩ := hwf.exists_report libraries reportCall
    have hempty : (s.restarted lib parseDuration fallback call).1.metrics = Memo.empty :=
      metrics_onConfigure
    refine ⟨r', hreport', recording_congr ?_ hexpressions hreport hreport'⟩
    rw [hfound, foundStats_with_metrics hempty hreport' hnone]

/-- A connection of which 7 bytes are to be reported. -/
def connectionCall : ReportCall where
  stream := sampleCall.stream
  requestInfo :=
    { startTime := 0, duration := 0, requestProtocol := .TCP, tcpConnectionsOpened := 1,
      tcpConnectionsClosed := 1, tcpSentBytes := 7 }
  endStream := true

/-- A request under a first configuration. -/
def beforeDrop : List Callback :=
  [.onConfigure (sampleConfigure (bytes "\x7b\x7d") []), .onCreate 1 0 0,
    .onRequestHeaders 1 sampleCall.stream.toStreamAccess, .onLog 1 sampleCall.stream]

/-- A request of another peer under the next configuration. -/
def afterDrop : List Callback :=
  [.onCreate 2 0 0, .onRequestHeaders 2 otherCall.stream.toStreamAccess,
    .onLog 2 otherCall.stream]

/-- A connection is reported like after a restart with a metric dropped. -/
theorem reconfigured_as_restarted_dropped : ∃ s t r r',
    sampleMachine.run (fun _ _ => True) (.start false true) beforeDrop = some s ∧
    sampleMachine.run (fun _ _ => True)
      (s.onConfigure sampleJson (fun _ => none) (sampleConfigure dropText [])) afterDrop = some t ∧
    report sampleLibraries t.root.toPluginRootContext connectionCall = some r ∧
    report sampleLibraries (s.restarted sampleJson (fun _ => none) true
      (sampleConfigure dropText [])).1.toPluginRootContext connectionCall = some r' ∧
    r.recording = r'.recording ∧ r.recording.recorded.map Prod.snd = [1, 1] := by
  have hrun : ((sampleMachine.run (fun _ _ => True) (.start false true) beforeDrop).bind fun s =>
      (sampleMachine.run (fun _ _ => True)
        (s.onConfigure sampleJson (fun _ => none) (sampleConfigure dropText [])) afterDrop).bind
      fun t => (report sampleLibraries t.root.toPluginRootContext connectionCall).map fun r =>
        (r.recording.recorded.map Prod.snd,
          (foundStats sampleLibraries (s.restarted sampleJson (fun _ => none) true
            (sampleConfigure dropText [])).1.toPluginRootContext connectionCall).all fun found =>
              (s.root.metrics found.2.1).isNone)) = some ([1, 1], true) := by
    decide +kernel
  obtain ⟨s, hs, hrun⟩ := Option.bind_eq_some_iff.1 hrun
  obtain ⟨t, ht, hrun⟩ := Option.bind_eq_some_iff.1 hrun
  obtain ⟨r, hr, hpair⟩ := Option.map_eq_some_iff.1 hrun
  obtain ⟨hvalues, hnone⟩ := Prod.mk.inj hpair
  have hparse : jsonParse sampleJson dropText = some (.object [(bytes "metrics", .array [.object
      [(bytes "name", .string (bytes "tcp_sent_bytes_total")), (bytes "drop", .boolean true)]])]) :=
    rfl
  obtain ⟨-, -, huncached⟩ := reconfigured_as_restarted true hs hparse (by decide) ht hr
  obtain ⟨r', hr', hsame⟩ := huncached fun found hfound => by
    rw [hfound] at hnone
    exact Option.isNone_iff_eq_none.1 hnone
  exact ⟨s, t, r, r', hs, ht, hr, hr', hsame, hvalues⟩

end Stats

end WasmExtensions
