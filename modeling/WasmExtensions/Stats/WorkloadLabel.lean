import WasmExtensions.Stats.Dimensions

/-!
# The identity of a peer in the workload label

The control plane describes the workload of an endpoint by a label of parts separated by semicolons:
workload, namespace, canonical service, canonical revision and, if the control plane is new enough,
the cluster.  The parts come back as the labels of the peer's end (`Recovered`), except that a label
without the cluster is not looked at.

* `describes_labelNode` : the parts are recovered from the node that they are put into.
* `recovered_iff` : **the parts are recovered exactly if there are not four of them.**
-/

namespace WasmExtensions

namespace Stats

/-- The labels for one end. -/
def labelsOf (isSource : Bool) : NodeLabels := if isSource then sourceLabels else destinationLabels

/-- The dimensions show the workload at one end: empty parts are filled in. -/
structure Describes (end_ : NodeLabels) (dimensions : IstioDimensions)
    (workload workloadNamespace service revision cluster : Bytes) : Prop where
  workload_eq : dimensions[end_.workload.index]? = some (orUnknown workload)
  workloadNamespace_eq :
    dimensions[end_.workloadNamespace.index]? = some (orUnknown workloadNamespace)
  canonicalService_eq : dimensions[end_.canonicalService.index]? =
    some (orUnknown (if service.isEmpty then workload else service))
  canonicalRevision_eq : dimensions[end_.canonicalRevision.index]? =
    some (if revision.isEmpty then bytes "latest" else revision)
  cluster_eq : dimensions[end_.cluster.index]? = some (orUnknown cluster)

/-- The path of the workload label. -/
def workloadPath (metadataType : Bytes) : List Bytes :=
  [metadataType, bytes "filter_metadata", bytes "istio", bytes "workload"]

/-- What a workload label is for.  Four parts describe the peer, a fifth one its cluster; with less,
there is no node, and a peer that is not in the filter state has an empty one. -/
def Recovered (stream : StreamAccess) (metadataType label : Bytes) : Prop :=
  match strSplit ';'.toUInt8 label with
  | workload :: workloadNamespace :: service :: revision :: rest =>
    ∃ node, extractPeerMetadataFromUpstreamMetadata stream metadataType = some node ∧
      ∀ isSource dimensions, countStandardLabels ≤ dimensions.length →
        Describes (labelsOf isSource) (mapUnknownIfEmpty (mapNode isSource node dimensions))
          workload workloadNamespace service revision (rest.headD [])
  | _ =>
    extractPeerMetadataFromUpstreamMetadata stream metadataType = none ∧
      (metadataType = bytes "upstream_host_metadata" → ∀ libraries idKey key,
        (PeerNodeInfo.new libraries stream idKey key).found = false →
          (PeerNodeInfo.new libraries stream idKey key).get = extractEmptyNodeFlatBuffer)

variable {isSource : Bool} {node : FlatNode} {labels : List KeyVal} {dimensions : IstioDimensions}
  {stream : StreamAccess} {metadataType label w ns svc rev cluster : Bytes} {rest : List Bytes}

/-- The value of a label of a node. -/
def labelValue (node : FlatNode) (key : Bytes) : Option Bytes :=
  node.labels.bind fun labels => (lookupByKey labels key).map fun entry => entry.value.getD []

/-- What stands for a canonical service without a name: the workload, if the node has labels. -/
def defaultService (node : FlatNode) : Bytes :=
  if node.labels.isSome then node.workloadName.getD [] else []

/-- What the labels of an end are set to. -/
structure NodeValues (end_ : NodeLabels) (dimensions : IstioDimensions) (node : FlatNode) :
    Prop where
  workload_eq : dimensions[end_.workload.index]? = some (node.workloadName.getD [])
  workloadNamespace_eq : dimensions[end_.workloadNamespace.index]? = some (node.namespace_.getD [])
  cluster_eq : dimensions[end_.cluster.index]? = some (node.clusterId.getD [])
  app_eq : dimensions[end_.app.index]? = some ((labelValue node (bytes "app")).getD [])
  version_eq : dimensions[end_.version.index]? = some ((labelValue node (bytes "version")).getD [])
  canonicalService_eq : dimensions[end_.canonicalService.index]? =
    some ((labelValue node kCanonicalServiceLabelName).getD (defaultService node))
  canonicalRevision_eq : dimensions[end_.canonicalRevision.index]? =
    some ((labelValue node kCanonicalServiceRevisionLabelName).getD (bytes "latest"))

theorem assign_get {l l' : StandardLabels} {value : Bytes}
    (hlength : countStandardLabels ≤ dimensions.length) :
    (assign l value dimensions)[l'.index]? =
      if l = l' then some value else dimensions[l'.index]? := by
  split_ifs with h
  · rw [← h, assign_same (Nat.lt_of_lt_of_le l.index_lt hlength)]
  · exact assign_ne h

theorem getD_bind_value (entry : Option KeyVal) :
    (entry.bind KeyVal.value).getD [] = (entry.map fun entry => entry.value.getD []).getD [] := by
  cases entry <;> rfl

theorem nodeValues_mapNode (hlength : countStandardLabels ≤ dimensions.length) :
    NodeValues (labelsOf isSource) (mapNode isSource node dimensions) node := by
  cases hlabels : node.labels with
  | none =>
    cases isSource <;> constructor <;>
      simp only [mapNode, mapNodeLabels, labelsOf, sourceLabels, destinationLabels, labelValue,
        defaultService, hlabels, assign_get, length_assign, hlength, reduceCtorEq,
        Bool.false_eq_true, if_true, if_false, Option.bind_none, Option.getD_none,
        Option.isSome_none]
  | some labels =>
    cases hservice : lookupByKey labels kCanonicalServiceLabelName <;>
      cases hrevision : lookupByKey labels kCanonicalServiceRevisionLabelName <;>
      cases isSource <;>
      constructor <;>
      simp only [mapNode, mapNodeLabels, labelsOf, sourceLabels, destinationLabels, labelValue,
        defaultService, hlabels, hservice, hrevision, getD_bind_value, assign_get, length_assign,
        hlength, reduceCtorEq, Bool.false_eq_true, if_true, if_false, Option.bind_some,
        Option.map_some, Option.map_none, Option.getD_some, Option.getD_none, Option.isSome_some]

/-- The label of the destination that is not among those of an end. -/
theorem mapNode_serviceNamespace (hlength : countStandardLabels ≤ dimensions.length) :
    (mapNode false node dimensions)[StandardLabels.destinationServiceNamespace.index]? =
      some (node.namespace_.getD []) := by
  have hlength' : countStandardLabels ≤
      (mapNodeLabels destinationLabels node dimensions).length := by
    rw [length_mapNodeLabels]
    exact hlength
  exact assign_same (Nat.lt_of_lt_of_le (StandardLabels.index_lt _) hlength')

/-- A label that is left out if its value is empty. -/
def optionalLabel (name value : Bytes) : List KeyVal :=
  if value.isEmpty then [] else [⟨name, some value⟩]

theorem lookupByKey_optionalLabel {name value key : Bytes} :
    lookupByKey (optionalLabel name value) key =
      if value.isEmpty = false ∧ name = key then some ⟨name, some value⟩ else none := by
  cases h : value.isEmpty <;> by_cases hkey : name = key <;>
    simp [lookupByKey, optionalLabel, h, hkey]

theorem lookupByKey_append {table table' : List KeyVal} {key : Bytes} :
    lookupByKey (table ++ table') key = (lookupByKey table key).or (lookupByKey table' key) :=
  List.find?_append

/-- The labels of the node of a workload label. -/
def nodeLabels (service revision : Bytes) : List KeyVal :=
  optionalLabel kCanonicalServiceLabelName service ++
    optionalLabel kCanonicalServiceRevisionLabelName revision

/-- The node of a workload label with these parts. -/
def labelNode (workload workloadNamespace service revision cluster : Bytes) : FlatNode where
  workloadName := some workload
  namespace_ := some workloadNamespace
  clusterId := some cluster
  labels := some (nodeLabels service revision)

/-- With five parts, there is a node. -/
theorem extract_of_parts
    (hlabel : stream.properties.string (workloadPath metadataType) = some label)
    (hparts : strSplit ';'.toUInt8 label = w :: ns :: svc :: rev :: cluster :: rest) :
    extractPeerMetadataFromUpstreamMetadata stream metadataType =
      some (labelNode w ns svc rev cluster) := by
  rw [workloadPath] at hlabel
  simp only [extractPeerMetadataFromUpstreamMetadata, hlabel, Option.map_some, hparts]
  rfl

/-- With less than five parts, there is no node. -/
theorem extract_eq_none
    (hlabel : stream.properties.string (workloadPath metadataType) = some label)
    (hparts : (strSplit ';'.toUInt8 label).length < 5) :
    extractPeerMetadataFromUpstreamMetadata stream metadataType = none := by
  rw [workloadPath] at hlabel
  simp only [extractPeerMetadataFromUpstreamMetadata, hlabel, Option.map_some]
  generalize strSplit ';'.toUInt8 label = parts at hparts ⊢
  rcases parts with _ | ⟨_, _ | ⟨_, _ | ⟨_, _ | ⟨_, _ | ⟨_, parts⟩⟩⟩⟩⟩
  · rfl
  · rfl
  · rfl
  · rfl
  · rfl
  · simp only [List.length_cons] at hparts
    omega

/-- **The parts are recovered** from the node that they are put into. -/
theorem describes_labelNode (hlength : countStandardLabels ≤ dimensions.length) :
    Describes (labelsOf isSource)
      (mapUnknownIfEmpty (mapNode isSource (labelNode w ns svc rev cluster) dimensions))
      w ns svc rev cluster := by
  have hvalues : NodeValues (labelsOf isSource)
      (mapNode isSource (labelNode w ns svc rev cluster) dimensions)
      (labelNode w ns svc rev cluster) := nodeValues_mapNode hlength
  have hlabel (key : Bytes) : labelValue (labelNode w ns svc rev cluster) key =
      (lookupByKey (nodeLabels svc rev) key).map fun entry => entry.value.getD [] := rfl
  have hother : kCanonicalServiceRevisionLabelName ≠ kCanonicalServiceLabelName := by decide
  constructor
  · rw [mapUnknownIfEmpty_get, hvalues.workload_eq]
    rfl
  · rw [mapUnknownIfEmpty_get, hvalues.workloadNamespace_eq]
    rfl
  · -- an empty service has no label, and the workload stands for it
    rw [mapUnknownIfEmpty_get, hvalues.canonicalService_eq, hlabel, nodeLabels, lookupByKey_append,
      lookupByKey_optionalLabel, lookupByKey_optionalLabel]
    cases hsvc : svc.isEmpty <;> simp [hother, labelNode, defaultService]
  · -- the revision is not empty, nor is what stands for it
    rw [mapUnknownIfEmpty_get, hvalues.canonicalRevision_eq, hlabel, nodeLabels,
      lookupByKey_append, lookupByKey_optionalLabel, lookupByKey_optionalLabel]
    cases hrev : rev.isEmpty <;> simp [hother.symm, orUnknown, hrev]
    decide
  · rw [mapUnknownIfEmpty_get, hvalues.cluster_eq]
    rfl

/-- Where there is no label to read, a peer that is not in the filter state has an empty node. -/
theorem get_eq_empty {libraries : Libraries} {idKey key : Bytes}
    (hextract : extractPeerMetadataFromUpstreamHostMetadata stream = none)
    (hfound : (PeerNodeInfo.new libraries stream idKey key).found = false) :
    (PeerNodeInfo.new libraries stream idKey key).get = extractEmptyNodeFlatBuffer := by
  revert hfound
  simp only [PeerNodeInfo.new, hextract, Option.getD_none, ite_self]
  split_ifs
  · cases stream.properties.string [key] <;> simp
  · simp

/-- **The parts of a workload label are recovered exactly if there are not four of them.** -/
theorem recovered_iff
    (hlabel : stream.properties.string (workloadPath metadataType) = some label) :
    Recovered stream metadataType label ↔ (strSplit ';'.toUInt8 label).length ≠ 4 := by
  have hfew (h : (strSplit ';'.toUInt8 label).length < 5) :
      extractPeerMetadataFromUpstreamMetadata stream metadataType = none ∧
        (metadataType = bytes "upstream_host_metadata" → ∀ libraries idKey key,
          (PeerNodeInfo.new libraries stream idKey key).found = false →
            (PeerNodeInfo.new libraries stream idKey key).get = extractEmptyNodeFlatBuffer) := by
    have hextract := extract_eq_none hlabel h
    refine ⟨hextract, ?_⟩
    rintro rfl libraries idKey key hfound
    exact get_eq_empty hextract hfound
  simp only [Recovered]
  generalize hparts : strSplit ';'.toUInt8 label = parts at hfew ⊢
  rcases parts with _ | ⟨w, _ | ⟨ns, _ | ⟨svc, _ | ⟨rev, _ | ⟨cluster, rest⟩⟩⟩⟩⟩
  · exact iff_of_true (hfew (by decide)) (by decide)
  · exact iff_of_true (hfew (by simp)) (by simp)
  · exact iff_of_true (hfew (by simp)) (by simp)
  · exact iff_of_true (hfew (by simp)) (by simp)
  · -- four parts describe the peer, but the node is not made
    refine iff_of_false ?_ (by simp)
    rintro ⟨node, hnode, -⟩
    rw [(hfew (by simp)).1] at hnode
    cases hnode
  · refine iff_of_true ?_ (by simp)
    exact ⟨_, extract_of_parts hlabel hparts, fun _ _ hlength => describes_labelNode hlength⟩

/-- A stream whose upstream host has this workload label. -/
def labelledStream (label : Bytes) : StreamAccess where
  properties :=
    { Properties.none with
      string := fun path =>
        if path = workloadPath (bytes "upstream_host_metadata") then some label else none }
  requestHeaders _ := none

/-- The label of a control plane that does not send the cluster. -/
theorem not_recovered_four_parts :
    strSplit ';'.toUInt8 (bytes "web;shop;store;v1") =
      [bytes "web", bytes "shop", bytes "store", bytes "v1"] ∧
    extractPeerMetadataFromUpstreamMetadata (labelledStream (bytes "web;shop;store;v1"))
      (bytes "upstream_host_metadata") = none ∧
    ¬ Recovered (labelledStream (bytes "web;shop;store;v1")) (bytes "upstream_host_metadata")
      (bytes "web;shop;store;v1") := by
  have hparts : strSplit ';'.toUInt8 (bytes "web;shop;store;v1") =
      [bytes "web", bytes "shop", bytes "store", bytes "v1"] := by decide
  have hnone : extractPeerMetadataFromUpstreamMetadata
      (labelledStream (bytes "web;shop;store;v1")) (bytes "upstream_host_metadata") = none := by
    decide
  refine ⟨hparts, hnone, ?_⟩
  simp only [Recovered, hparts]
  rintro ⟨node, hnode, -⟩
  rw [hnone] at hnode
  cases hnode

/-- The label of a control plane that sends it. -/
theorem recovered_five_parts :
    Recovered (labelledStream (bytes "web;shop;;;c1")) (bytes "upstream_host_metadata")
      (bytes "web;shop;;;c1") :=
  (recovered_iff (by decide)).2 (by decide)

end Stats

end WasmExtensions
