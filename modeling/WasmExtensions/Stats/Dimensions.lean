import WasmExtensions.Common.Context
import Mathlib.Tactic.SplitIfs

/-!
# The dimensions of a metric

One vector of texts describes a report: 25 standard labels, followed by the values of the
configured expressions.  It is filled from the node of the peer and from the request (`map`); the
labels of the local node are filled in when the plugin is configured.

`map` writes through the index of a label.  A vector that is too short for the labels is out of
range, and the result is then undefined.
-/

namespace WasmExtensions

namespace Stats

/-- The standard labels.  Their order is the order of the vector. -/
inductive StandardLabels where
  | reporter
  | sourceWorkload
  | sourceWorkloadNamespace
  | sourcePrincipal
  | sourceApp
  | sourceVersion
  | sourceCanonicalService
  | sourceCanonicalRevision
  | sourceCluster
  | destinationWorkload
  | destinationWorkloadNamespace
  | destinationPrincipal
  | destinationApp
  | destinationVersion
  | destinationService
  | destinationServiceName
  | destinationServiceNamespace
  | destinationCanonicalService
  | destinationCanonicalRevision
  | destinationCluster
  | requestProtocol
  | responseFlags
  | connectionSecurityPolicy
  | responseCode
  | grpcResponseStatus
  deriving DecidableEq, Repr

namespace StandardLabels

/-- All labels, in order. -/
def all : List StandardLabels :=
  [reporter, sourceWorkload, sourceWorkloadNamespace, sourcePrincipal, sourceApp, sourceVersion,
    sourceCanonicalService, sourceCanonicalRevision, sourceCluster, destinationWorkload,
    destinationWorkloadNamespace, destinationPrincipal, destinationApp, destinationVersion,
    destinationService, destinationServiceName, destinationServiceNamespace,
    destinationCanonicalService, destinationCanonicalRevision, destinationCluster,
    requestProtocol, responseFlags, connectionSecurityPolicy, responseCode, grpcResponseStatus]

/-- The position of a label in the vector. -/
def index (label : StandardLabels) : ℕ := label.ctorIdx

example : all.map index = List.range 25 := by decide

theorem mem_all (label : StandardLabels) : label ∈ all := by cases label <;> decide

theorem index_injective {l l' : StandardLabels} (h : l.index = l'.index) : l = l' := by
  cases l <;> cases l' <;> first | rfl | (exact absurd h (by decide))

end StandardLabels

def countStandardLabels : ℕ := 25

theorem StandardLabels.index_lt (label : StandardLabels) : label.index < countStandardLabels := by
  cases label <;> decide

/-- Aggregate metric values in a shared and reusable bag. -/
abbrev IstioDimensions := List Bytes

/-- Overwrites the text of a label. -/
def assign (label : StandardLabels) (value : Bytes) (dimensions : IstioDimensions) :
    IstioDimensions :=
  dimensions.set label.index value

/-- The labels that describe the node at one end. -/
structure NodeLabels where
  workload : StandardLabels
  workloadNamespace : StandardLabels
  cluster : StandardLabels
  app : StandardLabels
  version : StandardLabels
  canonicalService : StandardLabels
  canonicalRevision : StandardLabels

def sourceLabels : NodeLabels :=
  ⟨.sourceWorkload, .sourceWorkloadNamespace, .sourceCluster, .sourceApp, .sourceVersion,
    .sourceCanonicalService, .sourceCanonicalRevision⟩

def destinationLabels : NodeLabels :=
  ⟨.destinationWorkload, .destinationWorkloadNamespace, .destinationCluster, .destinationApp,
    .destinationVersion, .destinationCanonicalService, .destinationCanonicalRevision⟩

/-- What `map_node` does for either end. -/
def mapNodeLabels (end_ : NodeLabels) (node : FlatNode) (dimensions : IstioDimensions) :
    IstioDimensions :=
  let dimensions := dimensions
    |> assign end_.workload (node.workloadName.getD [])
    |> assign end_.workloadNamespace (node.namespace_.getD [])
    |> assign end_.cluster (node.clusterId.getD [])
  match node.labels with
  | some labels =>
    let value (key : Bytes) := (lookupByKey labels key).bind KeyVal.value
    dimensions
      |> assign end_.app ((value (bytes "app")).getD [])
      |> assign end_.version ((value (bytes "version")).getD [])
      |> assign end_.canonicalService
        (match lookupByKey labels kCanonicalServiceLabelName with
          | some canonicalName => canonicalName.value.getD []
          | none => node.workloadName.getD [])
      |> assign end_.canonicalRevision
        (match lookupByKey labels kCanonicalServiceRevisionLabelName with
          | some rev => rev.value.getD []
          | none => bytes "latest")
  | none =>
    dimensions
      |> assign end_.app []
      |> assign end_.version []
      |> assign end_.canonicalService []
      |> assign end_.canonicalRevision (bytes "latest")

def mapNode (isSource : Bool) (node : FlatNode) (dimensions : IstioDimensions) :
    IstioDimensions :=
  if isSource then mapNodeLabels sourceLabels node dimensions
  else
    mapNodeLabels destinationLabels node dimensions
      |> assign .destinationServiceNamespace (node.namespace_.getD [])

def mapPeer (outbound : Bool) (peerNode : FlatNode) (dimensions : IstioDimensions) :
    IstioDimensions :=
  mapNode (!outbound) peerNode dimensions

/-- What an empty text is replaced by. -/
def orUnknown (value : Bytes) : Bytes := if value.isEmpty then bytes "unknown" else value

def mapUnknownIfEmpty (dimensions : IstioDimensions) : IstioDimensions :=
  StandardLabels.all.foldl
    (fun dimensions label => assign label (orUnknown (dimensions.getD label.index [])) dimensions)
    dimensions

/-- Local node derived dimensions are already filled in. -/
def mapRequest (request : RequestInfo) (dimensions : IstioDimensions) : IstioDimensions :=
  dimensions
    |> assign .sourcePrincipal request.sourcePrincipal
    |> assign .destinationPrincipal request.destinationPrincipal
    |> assign .destinationService request.destinationServiceHost
    |> assign .destinationServiceName request.destinationServiceName
    |> assign .requestProtocol (protocolString request.requestProtocol)
    |> assign .responseCode (toDecimal request.responseCode.toNat)
    |> assign .responseFlags request.responseFlag
    |> assign .connectionSecurityPolicy
      (asciiStrToLower (authenticationPolicyString request.serviceAuthPolicy))

/-- Maps the node of the peer and the request to dimensions. -/
def map (outbound : Bool) (peerNode : FlatNode) (request : RequestInfo)
    (dimensions : IstioDimensions) : Option IstioDimensions :=
  if dimensions.length < countStandardLabels then none
  else
    let dimensions := dimensions
      |> mapPeer outbound peerNode
      |> mapRequest request
      |> mapUnknownIfEmpty
    some (assign .grpcResponseStatus
      (if request.requestProtocol = .GRPC then toDecimal request.grpcStatus.toNat else [])
      dimensions)

/-! ### What the vector holds -/

variable {l l' : StandardLabels} {value : Bytes} {dimensions : IstioDimensions}

@[simp] theorem length_assign : (assign l value dimensions).length = dimensions.length :=
  List.length_set

theorem assign_same (h : l.index < dimensions.length) :
    (assign l value dimensions)[l.index]? = some value :=
  List.getElem?_set_self h

theorem assign_ne (h : l ≠ l') : (assign l value dimensions)[l'.index]? = dimensions[l'.index]? :=
  List.getElem?_set_ne fun hindex => h (StandardLabels.index_injective hindex)

@[simp] theorem length_mapNodeLabels {end_ : NodeLabels} {node : FlatNode} :
    (mapNodeLabels end_ node dimensions).length = dimensions.length := by
  unfold mapNodeLabels
  cases node.labels <;> simp

@[simp] theorem length_mapNode {isSource : Bool} {node : FlatNode} :
    (mapNode isSource node dimensions).length = dimensions.length := by
  unfold mapNode
  split_ifs <;> simp

/-- Substituting `unknown` label by label: one label. -/
theorem foldl_orUnknown {labels : List StandardLabels} :
    (labels.foldl (fun dimensions label =>
        assign label (orUnknown (dimensions.getD label.index [])) dimensions)
      dimensions)[l.index]? =
      if l ∈ labels then dimensions[l.index]?.map orUnknown else dimensions[l.index]? := by
  have hidem : ∀ v, orUnknown (orUnknown v) = orUnknown v := by
    intro v
    unfold orUnknown
    split_ifs <;> rfl
  induction labels generalizing dimensions with
  | nil => rfl
  | cons label labels ih =>
    rw [List.foldl_cons, ih]
    by_cases hl : label = l
    · -- The label may come again; the second substitution changes nothing.
      subst hl
      have hassign : (assign label (orUnknown (dimensions.getD label.index []))
          dimensions)[label.index]? = dimensions[label.index]?.map orUnknown := by
        by_cases hlt : label.index < dimensions.length
        · rw [assign_same hlt, List.getD_eq_getElem?_getD, List.getElem?_eq_getElem hlt]; rfl
        · rw [List.getElem?_eq_none (by simpa using hlt),
            List.getElem?_eq_none (by simpa using hlt)]
          rfl
      rw [hassign, if_pos List.mem_cons_self]
      split_ifs
      · rw [Option.map_map]
        congr 1
        funext v
        exact hidem v
      · rfl
    · rw [assign_ne hl]
      simp [List.mem_cons, Ne.symm hl]

theorem mapUnknownIfEmpty_get :
    (mapUnknownIfEmpty dimensions)[l.index]? = dimensions[l.index]?.map orUnknown := by
  unfold mapUnknownIfEmpty
  rw [foldl_orUnknown, if_pos l.mem_all]

theorem map_eq_some {outbound : Bool} {peerNode : FlatNode} {request : RequestInfo}
    {dimensions' : IstioDimensions}
    (h : map outbound peerNode request dimensions = some dimensions') :
    countStandardLabels ≤ dimensions.length ∧
      dimensions' = assign .grpcResponseStatus
        (if request.requestProtocol = .GRPC then toDecimal request.grpcStatus.toNat else [])
        (mapUnknownIfEmpty (mapRequest request (mapPeer outbound peerNode dimensions))) := by
  unfold map at h
  by_cases hlength : dimensions.length < countStandardLabels
  · rw [if_pos hlength] at h
    cases h
  · rw [if_neg hlength] at h
    exact ⟨Nat.not_lt.1 hlength, (Option.some.inj h).symm⟩

/-- The protocol that a vector of dimensions tells. -/
def protocolOf (dimensions : IstioDimensions) : Protocol :=
  match dimensions[StandardLabels.requestProtocol.index]? with
  | none => .Unspecified
  | some value =>
    if value = bytes "tcp" then .TCP
    else if value = bytes "http" then .HTTP
    else if value = bytes "grpc" then .GRPC
    else .Unspecified

/-- The texts of the protocols differ, also after the substitution of the empty one. -/
theorem protocolOf_eq {protocol : Protocol}
    (h : dimensions[StandardLabels.requestProtocol.index]? =
      some (orUnknown (protocolString protocol))) : protocolOf dimensions = protocol := by
  unfold protocolOf
  rw [h]
  cases protocol <;> rfl

/-- The vector of a request tells its protocol. -/
theorem protocolOf_map {outbound : Bool} {peerNode : FlatNode} {request : RequestInfo}
    {dimensions' : IstioDimensions}
    (h : map outbound peerNode request dimensions = some dimensions') :
    protocolOf dimensions' = request.requestProtocol := by
  obtain ⟨hlength, h⟩ := map_eq_some h
  have hindex : StandardLabels.requestProtocol.index < dimensions.length :=
    Nat.lt_of_lt_of_le (StandardLabels.index_lt _) hlength
  have hget : (mapRequest request
      (mapPeer outbound peerNode dimensions))[StandardLabels.requestProtocol.index]? =
      some (protocolString request.requestProtocol) := by
    unfold mapRequest
    rw [assign_ne (by decide), assign_ne (by decide), assign_ne (by decide), assign_same]
    simpa [mapPeer] using hindex
  apply protocolOf_eq
  rw [h, assign_ne (by decide), mapUnknownIfEmpty_get, hget]; rfl

end Stats

end WasmExtensions
