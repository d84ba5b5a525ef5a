import WasmExtensions.Common.Host
import WasmExtensions.Common.ResponseFlag
import Mathlib.Data.List.Sort

/-!
# The request context

What the extensions collect about a stream (`RequestInfo`) and about its peer (`PeerNodeInfo`), and
how it is read from the host.  Only the fields that the functions here use are kept.

The decoding of flatbuffers and of decimal numbers is a parameter (`Libraries`).
-/

namespace WasmExtensions

inductive ServiceAuthenticationPolicy where
  | Unspecified
  | None
  | MutualTLS
  deriving DecidableEq, Repr

inductive Protocol where
  | Unspecified
  | TCP
  | HTTP
  | GRPC
  deriving DecidableEq, Repr

/-- The enumerators are bits. -/
def Protocol.toUInt32 : Protocol → UInt32
  | .Unspecified => 0x0
  | .TCP => 0x1
  | .HTTP => 0x2
  | .GRPC => 0x4

/-- The information collected from filter stream callbacks. -/
structure RequestInfo where
  startTime : Int64
  duration : Int64
  requestSize : Int64 := 0
  responseSize : Int64 := 0
  destinationPort : UInt32 := 0
  requestProtocol : Protocol := .Unspecified
  responseCode : UInt32 := 0
  grpcStatus : UInt32 := 2
  responseFlag : Bytes := []
  destinationServiceHost : Bytes := []
  destinationServiceName : Bytes := []
  requestOperation : Bytes := []
  serviceAuthPolicy : ServiceAuthenticationPolicy := .Unspecified
  sourcePrincipal : Bytes := []
  destinationPrincipal : Bytes := []
  routeName : Bytes := []
  upstreamCluster : Bytes := []
  urlPath : Bytes := []
  urlHost : Bytes := []
  tcpConnectionsOpened : UInt8 := 0
  tcpConnectionsClosed : UInt8 := 0
  tcpSentBytes : UInt64 := 0
  tcpReceivedBytes : UInt64 := 0
  isPopulated : Bool := false
  requestMessageCount : UInt64 := 0
  responseMessageCount : UInt64 := 0
  lastRequestMessageCount : UInt64 := 0
  lastResponseMessageCount : UInt64 := 0
  deriving DecidableEq, Repr

/-- An entry of a table that is sorted by its keys. -/
structure KeyVal where
  key : Bytes
  value : Option Bytes
  deriving DecidableEq, Repr

/-- The node of a workload. -/
structure FlatNode where
  namespace_ : Option Bytes := none
  labels : Option (List KeyVal) := none
  workloadName : Option Bytes := none
  clusterId : Option Bytes := none
  deriving DecidableEq, Repr

/-- A sorted table is a map. -/
def lookupByKey (table : List KeyVal) (key : Bytes) : Option KeyVal :=
  table.find? fun entry => entry.key = key

/-- What the extensions use of other libraries. -/
structure Libraries where
  /-- The node that a flatbuffer holds. -/
  getRoot : Bytes → FlatNode
  /-- Whether the text is a number, and what is stored for it. -/
  simpleAtoi : Bytes → Bool × UInt64

/-- What can be asked about a stream. -/
structure StreamAccess where
  properties : Properties
  requestHeaders : Bytes → Option Bytes

def StreamAccess.requestHeader (stream : StreamAccess) (key : Bytes) : Bytes :=
  (stream.requestHeaders key).getD []

def kUpstreamMetadataIdKey : Bytes := bytes "upstream_peer_id"
def kUpstreamMetadataKey : Bytes := bytes "upstream_peer"
def kDownstreamMetadataIdKey : Bytes := bytes "downstream_peer_id"
def kDownstreamMetadataKey : Bytes := bytes "downstream_peer"
def kMetadataNotFoundValue : Bytes := bytes "envoy.wasm.metadata_exchange.peer_unknown"
def kCanonicalServiceLabelName : Bytes := bytes "service.istio.io/canonical-name"
def kCanonicalServiceRevisionLabelName : Bytes := bytes "service.istio.io/canonical-revision"
def kGrpcContentTypes : List Bytes :=
  [bytes "application/grpc", bytes "application/grpc+proto", bytes "application/grpc+json"]

/-! ### Texts -/

def authenticationPolicyString : ServiceAuthenticationPolicy → Bytes
  | .None => bytes "NONE"
  | .MutualTLS => bytes "MUTUAL_TLS"
  | .Unspecified => []

def protocolString : Protocol → Bytes
  | .TCP => bytes "tcp"
  | .HTTP => bytes "http"
  | .GRPC => bytes "grpc"
  | .Unspecified => []

/-! ### Requests -/

section

variable (libraries : Libraries) (stream : StreamAccess)

/-- The name of the local service, by its label. -/
def getServiceNameFallback : Bytes :=
  match stream.properties.pairs [bytes "node", bytes "metadata", bytes "LABELS"] with
  | none => bytes "unknown"
  | some pairs =>
    match pairs.find? fun pair => pair.1 = kCanonicalServiceLabelName with
    | some pair => pair.2
    | none => bytes "unknown"

def populateDestinationService (outbound useHostHeader : Bool) (requestInfo : RequestInfo) :
    RequestInfo :=
  let requestInfo :=
    { requestInfo with
      destinationServiceHost :=
        if useHostHeader then requestInfo.urlHost
        else if outbound then bytes "unknown" else getServiceNameFallback stream }
  let clusterName := requestInfo.upstreamCluster
  if requestInfo.routeName = bytes "block_all" then
    { requestInfo with destinationServiceName := bytes "BlackHoleCluster" }
  else if requestInfo.routeName = bytes "allow_any" then
    { requestInfo with destinationServiceName := bytes "PassthroughCluster" }
  else if clusterName = bytes "BlackHoleCluster" ∨ clusterName = bytes "PassthroughCluster" ∨
      clusterName = bytes "InboundPassthroughClusterIpv4" ∨
      clusterName = bytes "InboundPassthroughClusterIpv6" then
    { requestInfo with destinationServiceName := clusterName }
  else
    let service (field : Bytes) := stream.properties.string
      [bytes "cluster_metadata", bytes "filter_metadata", bytes "istio", bytes "services",
        bytes "0", field]
    match service (bytes "name") with
    | some name =>
      { requestInfo with
        destinationServiceName := name
        destinationServiceHost :=
          (service (bytes "host")).getD requestInfo.destinationServiceHost }
    | none =>
      { requestInfo with destinationServiceName := requestInfo.destinationServiceHost }

/-- Shared between all protocols, and done once for every stream. -/
def populateRequestInfo (outbound useHostHeaderFallback : Bool) (requestInfo : RequestInfo) :
    RequestInfo :=
  if requestInfo.isPopulated then requestInfo
  else
    let string (path : List Bytes) (old : Bytes) := (stream.properties.string path).getD old
    let requestInfo :=
      { requestInfo with
        isPopulated := true
        upstreamCluster := string [bytes "cluster_name"] requestInfo.upstreamCluster
        routeName := string [bytes "route_name"] requestInfo.routeName }
    let requestInfo := populateDestinationService stream outbound useHostHeaderFallback requestInfo
    if outbound then
      let destinationPort := stream.properties.uint64 [bytes "upstream", bytes "port"]
      { requestInfo with
        destinationPrincipal := string [bytes "upstream", bytes "uri_san_peer_certificate"]
          requestInfo.destinationPrincipal
        sourcePrincipal := string [bytes "upstream", bytes "uri_san_local_certificate"]
          requestInfo.sourcePrincipal
        destinationPort := (destinationPort.getD 0).toUInt32 }
    else
      let destinationPort := stream.properties.uint64 [bytes "destination", bytes "port"]
      { requestInfo with
        serviceAuthPolicy :=
          match stream.properties.bool [bytes "connection", bytes "mtls"] with
          | some mtls => if mtls then .MutualTLS else .None
          | none => requestInfo.serviceAuthPolicy
        destinationPrincipal := string [bytes "connection", bytes "uri_san_local_certificate"]
          requestInfo.destinationPrincipal
        sourcePrincipal := string [bytes "connection", bytes "uri_san_peer_certificate"]
          requestInfo.sourcePrincipal
        destinationPort := (destinationPort.getD 0).toUInt32 }

def populateRequestProtocol (requestInfo : RequestInfo) : RequestInfo :=
  { requestInfo with
    requestProtocol :=
      if stream.requestHeader (bytes "content-type") ∈ kGrpcContentTypes then .GRPC else .HTTP }

/-- The grpc_stats filter writes "x,y" where "x" is the request message count and "y" is the
response message count.  The result says whether both have been read. -/
def populateGRPCInfo (requestInfo : RequestInfo) : Bool × RequestInfo :=
  let path := [bytes "filter_state", bytes "envoy.filters.http.grpc_stats"]
  match (stream.properties.string path).map (strSplit ','.toUInt8) with
  | some [requests, responses] =>
    let (isNumber, count) := libraries.simpleAtoi requests
    let requestInfo := { requestInfo with requestMessageCount := count }
    if !isNumber then (false, requestInfo)
    else
      let (isNumber, count) := libraries.simpleAtoi responses
      (isNumber, { requestInfo with responseMessageCount := count })
  | _ => (false, requestInfo)

/-- Reads the response flags if the host has them. -/
def populateResponseFlag (requestInfo : RequestInfo) : RequestInfo :=
  match stream.properties.uint64 [bytes "response", bytes "flags"] with
  | some responseFlags => { requestInfo with responseFlag := parseResponseFlag responseFlags }
  | none => requestInfo

def populateHTTPRequestInfo (outbound useHostHeaderFallback : Bool) (requestInfo : RequestInfo) :
    RequestInfo :=
  let int64 (path : List Bytes) (old : Int64) := (stream.properties.int64 path).getD old
  let requestInfo := populateRequestProtocol stream requestInfo
  let urlPath := stream.properties.string [bytes "request", bytes "url_path"]
  let requestInfo := { requestInfo with urlPath := urlPath.getD requestInfo.urlPath }
  let requestInfo := populateRequestInfo stream outbound useHostHeaderFallback requestInfo
  let requestInfo :=
    match stream.properties.int64 [bytes "response", bytes "code"] with
    | some responseCode => { requestInfo with responseCode := responseCode.toUInt64.toUInt32 }
    | none => requestInfo
  let requestInfo := populateResponseFlag stream requestInfo
  let requestInfo :=
    if requestInfo.requestProtocol = .GRPC then
      let grpcStatusCode := int64 [bytes "response", bytes "grpc_status"] 2
      (populateGRPCInfo libraries stream
        { requestInfo with grpcStatus := grpcStatusCode.toUInt64.toUInt32 }).2
    else requestInfo
  { requestInfo with
    requestOperation :=
      match stream.properties.string [bytes "istio_operationId"] with
      | some operationId => operationId
      | none => stream.requestHeader (bytes ":method")
    startTime := int64 [bytes "request", bytes "time"] requestInfo.startTime
    duration := int64 [bytes "request", bytes "duration"] requestInfo.duration
    requestSize := int64 [bytes "request", bytes "total_size"] requestInfo.requestSize
    responseSize := int64 [bytes "response", bytes "total_size"] requestInfo.responseSize }

/-- The host header is for HTTP and gRPC only. -/
def populateTCPRequestInfo (outbound : Bool) (requestInfo : RequestInfo) : RequestInfo :=
  { populateResponseFlag stream (populateRequestInfo stream outbound false requestInfo) with
    requestProtocol := .TCP }

/-! ### Peers -/

/-- The node that the workload label of an endpoint or a cluster describes. -/
def extractPeerMetadataFromUpstreamMetadata (metadataType : Bytes) : Option FlatNode :=
  let path := [metadataType, bytes "filter_metadata", bytes "istio", bytes "workload"]
  match (stream.properties.string path).map (strSplit ';'.toUInt8) with
  | some (workloadName :: namespace_ :: service :: revision :: clusterId :: _) =>
    let label (name value : Bytes) : List KeyVal :=
      if value.isEmpty then [] else [⟨name, some value⟩]
    some
      { workloadName := some workloadName
        namespace_ := some namespace_
        clusterId := some clusterId
        labels := some (label kCanonicalServiceLabelName service ++
          label kCanonicalServiceRevisionLabelName revision) }
  | _ => none

def extractPeerMetadataFromUpstreamHostMetadata : Option FlatNode :=
  extractPeerMetadataFromUpstreamMetadata stream (bytes "upstream_host_metadata")

/-- An empty node. -/
def extractEmptyNodeFlatBuffer : FlatNode := {}

/-- `CreateVectorOfSortedTables`. -/
def createVectorOfSortedTables (table : List KeyVal) : List KeyVal :=
  table.insertionSort fun entry entry' => entry.key ≤ entry'.key

/-- The local node, by the metadata of the proxy. -/
def extractLocalNodeFlatBuffer (properties : Properties) : FlatNode :=
  let value (field : Bytes) := properties.string [bytes "node", bytes "metadata", field]
  let labels := (properties.pairs [bytes "node", bytes "metadata", bytes "LABELS"]).getD []
  { namespace_ := value (bytes "NAMESPACE")
    labels := some (createVectorOfSortedTables (labels.map fun (key, val) => ⟨key, some val⟩))
    workloadName := value (bytes "WORKLOAD_NAME")
    clusterId := value (bytes "CLUSTER_ID") }

structure PeerNodeInfo where
  /-- Both the id and the metadata are there. -/
  found : Bool
  peerId : Bytes
  /-- The node in the filter state, or the one to fall back to. -/
  get : FlatNode
  deriving DecidableEq, Repr

/-- Reads the filter state first, then the labels of the upstream host. -/
def PeerNodeInfo.new (peerMetadataIdKey peerMetadataKey : Bytes) : PeerNodeInfo :=
  let id := stream.properties.string [peerMetadataIdKey]
  let peerId := id.getD []
  let fallback : PeerNodeInfo :=
    { found := false
      peerId := peerId
      get :=
        if peerMetadataIdKey = kDownstreamMetadataIdKey then extractEmptyNodeFlatBuffer
        else
          (extractPeerMetadataFromUpstreamHostMetadata stream).getD extractEmptyNodeFlatBuffer }
  if id.isSome ∧ peerId ≠ kMetadataNotFoundValue then
    match stream.properties.string [peerMetadataKey] with
    | some peerNode => { found := true, peerId := peerId, get := libraries.getRoot peerNode }
    | none => fallback
  else fallback

/-- The metadata may arrive later. -/
def PeerNodeInfo.maybeWaiting (peer : PeerNodeInfo) : Bool :=
  !peer.found && peer.peerId != kMetadataNotFoundValue

end

end WasmExtensions
