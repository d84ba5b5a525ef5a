import WasmExtensions.Common.Host
import WasmExtensions.Common.Json
import WasmExtensions.OpenPolicyAgent.Cache
import Mathlib.Tactic.SplitIfs

/-!
# The policy filter

The filter asks a policy server whether a request may pass.  `check` runs when a request arrives:
it decides from the cache, or it sends a call to the server and pauses the stream.  The answer
comes back later in a callback of the root context, when other requests have arrived and the
stream may be gone.

* `Root.check` : what `PluginRootContext::check` does up to its return;
* `Root.onResponse` : what the callback of the call does once it acts on its stream;
* `filterMachine` : requests, answers, deletions of streams and configurations, in any order.

A run ends where the behaviour is undefined or the extension aborts (`Fault`).  A failed call is
answered with an empty body.  The attributes of a request, the outcome of a call and the time are
the choice of the host.
-/

namespace WasmExtensions

namespace OpenPolicyAgent

/-- The attributes of a request; `none` when `getValue` fails. -/
structure Attributes where
  uriSanPeerCertificate : Option Bytes
  workloadName : Option Bytes
  requestMethod : Option Bytes
  requestUrlPath : Option Bytes
  deriving DecidableEq, Repr

/-- The payload of a request: an attribute that the host does not know stays empty. -/
def Attributes.payload (a : Attributes) : Payload where
  sourcePrincipal := a.uriSanPeerCertificate.getD []
  destinationWorkload := a.workloadName.getD []
  requestMethod := a.requestMethod.getD []
  requestUrlPath := a.requestUrlPath.getD []

/-- The JSON object that is sent to the policy server. -/
def Payload.toJson (p : Payload) : Json :=
  .object [(bytes "input", .object [
    (bytes "source_principal", .string p.sourcePrincipal),
    (bytes "destination_workload", .string p.destinationWorkload),
    (bytes "request_method", .string p.requestMethod),
    (bytes "request_url_path", .string p.requestUrlPath)])]

/-- An HTTP call. -/
structure HttpCall where
  cluster : Bytes
  headers : List (Bytes × Bytes)
  body : Bytes
  trailers : List (Bytes × Bytes)
  timeoutMilliseconds : ℕ
  deriving DecidableEq, Repr

/-- What the filter does to a paused stream. -/
inductive Action where
  | continueRequest
  | sendLocalResponse (code : ℕ) (body : Bytes)
  deriving DecidableEq, Repr

/-- Where a run ends. -/
inductive Fault where
  /-- Undefined behaviour of the cache. -/
  | cache
  /-- The payload cannot be written as JSON. -/
  | dump
  /-- The callback uses the null pointer that `getContext` returns for a deleted stream. -/
  | nullContext
  deriving DecidableEq, Repr

/-- The root context. -/
structure Root where
  cache : ResultCache
  cacheValidForSec : UInt64
  opaHost : Bytes
  opaCluster : Bytes
  /-- The value of the counter `cache_hits_`. -/
  cacheHits : ℕ
  /-- The value of the counter `cache_misses_`. -/
  cacheMisses : ℕ

namespace Root

def start : Root := ⟨.empty, 0, [], [], 0, 0⟩

variable (lib : JsonLibrary)

/-- A missing or ill-typed field stops the parser; the fields before it are set already. -/
def parseConfiguration (root : Root) (configuration : Bytes) : Bool × Root :=
  match jsonParse lib configuration with
  | none => (false, root)
  | some j =>
    match (j.find (bytes "opa_service_host")).map jsonValueAsString with
    | some (some opaHost, .OK) =>
      let root := { root with opaHost := opaHost }
      match (j.find (bytes "opa_cluster_name")).map jsonValueAsString with
      | some (some opaCluster, .OK) =>
        let root := { root with opaCluster := opaCluster }
        match (j.find (bytes "check_result_cache_valid_sec")).map (jsonValueAsUint64 lib) with
        | some (some cacheValidForSec, .OK) =>
          (true, { root with cacheValidForSec := cacheValidForSec })
        | some _ => (false, root)
        | none => (true, root)
      | _ => (false, root)
    | _ => (false, root)

def onConfigure (root : Root) (configuration : Bytes) : Bool × Root :=
  match root.parseConfiguration lib configuration with
  | (false, root) => (false, root)
  | (true, root) =>
    (true, { root with cache := root.cache.setValidDuration root.cacheValidForSec })

/-- The look-up in the cache, with its counters. -/
def checkCache (stdHash : Bytes → UInt64) (root : Root) (payload : Payload) (now : UInt64) :
    Option (ResultCache.CheckResult × Root) := do
  let (result, cache) ← root.cache.check stdHash payload now
  if result.allowed.isSome then
    return (result, { root with cache := cache, cacheHits := root.cacheHits + 1 })
  else return (result, { root with cache := cache, cacheMisses := root.cacheMisses + 1 })

def addCache (root : Root) (hash : UInt64) (result : Bool) (now : UInt64) : Option Root := do
  let cache ← root.cache.add hash result now
  return { root with cache := cache }

/-- The call to the policy server. -/
def policyCall (root : Root) (body : Bytes) : HttpCall where
  cluster := root.opaCluster
  headers := [(bytes "content-type", bytes "application/json"),
    (bytes ":path", bytes "/v1/data/test/allow"), (bytes ":method", bytes "POST"),
    (bytes ":authority", root.opaHost)]
  body := body
  trailers := []
  timeoutMilliseconds := 5000

/-- What `check` has done when it returns. -/
structure Checked where
  root : Root
  hash : UInt64
  status : FilterHeadersStatus
  /-- The call to the policy server and its result code, if there was one. -/
  call : Option (HttpCall × WasmResult)
  action : Option Action

/-- `check` for a request at time `now`; `callResult` is what `httpCall` returns. -/
def check (stdHash : Bytes → UInt64) (root : Root) (attributes : Attributes) (now : UInt64)
    (callResult : WasmResult) : Except Fault Checked :=
  match root.checkCache stdHash attributes.payload now with
  | none => .error .cache
  | some (⟨hash, some true⟩, root) => .ok ⟨root, hash, .Continue, none, none⟩
  | some (⟨hash, some false⟩, root) =>
    .ok ⟨root, hash, .StopIteration, none,
      some (.sendLocalResponse 403 (bytes "OPA policy check denied"))⟩
  | some (⟨hash, none⟩, root) =>
    match lib.dump attributes.payload.toJson with
    | none => .error .dump
    | some jsonPayload =>
      .ok ⟨root, hash, .StopIteration, some (root.policyCall jsonPayload, callResult),
        if callResult ≠ .Ok then
          some (.sendLocalResponse 500 (bytes "OPA policy check call failed"))
        else none⟩

/-- The callback for an answer with the body `body`, on behalf of a stream that is there. -/
def onResponse (root : Root) (payloadHash : UInt64) (body : Bytes) (now : UInt64) :
    Except Fault (Root × Action) :=
  match jsonParse lib body with
  | none => .ok (root, .sendLocalResponse 500 (bytes "OPA policy check failed"))
  | some j =>
    match j.find (bytes "result") with
    | none => .ok (root, .sendLocalResponse 500 (bytes "OPA policy check failed"))
    | some result =>
      match jsonValueAsBool result with
      | (some checkResult, .OK) =>
        match root.addCache payloadHash checkResult now with
        | none => .error .cache
        | some root =>
          if checkResult then .ok (root, .continueRequest)
          else .ok (root, .sendLocalResponse 403 (bytes "OPA policy check denied"))
      | _ => .ok (root, .sendLocalResponse 500 (bytes "OPA policy check failed"))

end Root

/-! ### Streams and callbacks -/

inductive StreamStatus where
  | absent
  | alive
  | deleted
  deriving DecidableEq, Repr

/-- An outstanding call: what its callback has captured. -/
structure Pending (S : Type*) where
  stream : S
  payloadHash : UInt64
  deriving DecidableEq, Repr

/-- What the log records. -/
inductive Event (S : Type*) where
  /-- `httpCall` was called for a stream and has returned. -/
  | called (stream : S) (call : HttpCall) (result : WasmResult)
  /-- `check` has returned for a stream; with the time and the duration it compared. -/
  | checked (stream : S) (payload : Payload) (hash now validForNanosec : UInt64)
      (status : FilterHeadersStatus)
  /-- The callback of a stream's call was run. -/
  | answered (stream : S) (hash : UInt64) (body : Bytes) (now : UInt64)
  /-- The function running for the stream `cause` has acted on the effective context. -/
  | acted (cause effective : S) (action : Action)
  deriving DecidableEq, Repr

/-- The root context, the streams, the outstanding calls and the log (latest event first). -/
structure FilterState (S : Type*) where
  root : Root
  streams : S → StreamStatus
  pending : List (Pending S)
  fault : Option Fault
  log : List (Event S)

/-- The steps of the filter. -/
inductive FilterLabel (S : Type*) where
  | configure (configuration : Bytes)
  /-- A request arrives on a new stream. -/
  | request (stream : S) (attributes : Attributes) (now : UInt64) (callResult : WasmResult)
  /-- A stream is deleted. -/
  | delete (stream : S)
  /-- The `i`-th outstanding call is answered, or it has failed. -/
  | respond (i : ℕ) (body : Bytes) (now : UInt64)
  deriving DecidableEq, Repr

namespace FilterState

variable {S : Type*}

def start : FilterState S := ⟨.start, fun _ => .absent, [], none, []⟩

/-- The state after `check` has returned for the stream `s`. -/
def afterCheck (st : FilterState S) (s : S) (payload : Payload) (now : UInt64)
    (c : Root.Checked) : FilterState S :=
  { st with
    root := c.root
    pending :=
      match c.call with
      | some (_, .Ok) => ⟨s, c.hash⟩ :: st.pending
      | _ => st.pending
    log := .checked s payload c.hash now st.root.cache.validForNanosec c.status ::
      c.action.toList.map (.acted s s) ++ c.call.toList.map (fun p => .called s p.1 p.2) ++ st.log }

variable [DecidableEq S]

/-- The effect of a request on a new stream. -/
def request (lib : JsonLibrary) (stdHash : Bytes → UInt64) (st : FilterState S) (s : S)
    (attributes : Attributes) (now : UInt64) (callResult : WasmResult) : FilterState S :=
  let st := { st with streams := Function.update st.streams s .alive }
  match st.root.check lib stdHash attributes now callResult with
  | .error fault => { st with fault := some fault }
  | .ok c => st.afterCheck s attributes.payload now c

/-- The effect of an answer to the call `p`, which is no longer outstanding. -/
def respond (lib : JsonLibrary) (st : FilterState S) (p : Pending S) (body : Bytes)
    (now : UInt64) : FilterState S :=
  let st := { st with log := .answered p.stream p.payloadHash body now :: st.log }
  if st.streams p.stream ≠ .alive then { st with fault := some .nullContext }
  else
    -- the effective context is the stream now
    match st.root.onResponse lib p.payloadHash body now with
    | .error fault => { st with fault := some fault }
    | .ok (root, action) =>
      { st with root := root, log := .acted p.stream p.stream action :: st.log }

end FilterState

variable {S : Type*} [DecidableEq S]

/-- The filter with its host. -/
def filterMachine (lib : JsonLibrary) (stdHash : Bytes → UInt64) :
    Machine (FilterState S) (FilterLabel S) where
  next st l :=
    if st.fault ≠ none then none
    else match l with
      | .configure configuration =>
        some { st with root := (st.root.onConfigure lib configuration).2 }
      | .request s attributes now callResult =>
        if st.streams s = .absent then some (st.request lib stdHash s attributes now callResult)
        else none
      | .delete s =>
        if st.streams s = .alive then
          some { st with streams := Function.update st.streams s .deleted }
        else none
      | .respond i body now =>
        (st.pending[i]?).map fun p =>
          { st with pending := st.pending.eraseIdx i }.respond lib p body now

variable {lib : JsonLibrary} {stdHash : Bytes → UInt64} {st st' : FilterState S} {s : S}

theorem configure_of_next {configuration : Bytes}
    (h : (filterMachine lib stdHash).next st (.configure configuration) = some st') :
    st' = { st with root := (st.root.onConfigure lib configuration).2 } := by
  simp only [filterMachine] at h
  split_ifs at h
  exact (Option.some.inj h).symm

theorem request_of_next {attributes : Attributes} {now : UInt64} {callResult : WasmResult}
    (h : (filterMachine lib stdHash).next st (.request s attributes now callResult) = some st') :
    st.fault = none ∧ st.streams s = .absent ∧
      st' = st.request lib stdHash s attributes now callResult := by
  simp only [filterMachine] at h
  split_ifs at h with hf hs
  exact ⟨not_not.1 hf, hs, (Option.some.inj h).symm⟩

theorem delete_of_next (h : (filterMachine lib stdHash).next st (.delete s) = some st') :
    st.fault = none ∧ st' = { st with streams := Function.update st.streams s .deleted } := by
  simp only [filterMachine] at h
  split_ifs at h with hf hs
  exact ⟨not_not.1 hf, (Option.some.inj h).symm⟩

theorem respond_of_next {i : ℕ} {body : Bytes} {now : UInt64}
    (h : (filterMachine lib stdHash).next st (.respond i body now) = some st') :
    st.fault = none ∧ ∃ p, st.pending[i]? = some p ∧
      st' = { st with pending := st.pending.eraseIdx i }.respond lib p body now := by
  simp only [filterMachine] at h
  split_ifs at h with hf
  obtain ⟨p, hp, h⟩ := Option.map_eq_some_iff.1 h
  exact ⟨not_not.1 hf, p, hp, h.symm⟩

end OpenPolicyAgent

end WasmExtensions
