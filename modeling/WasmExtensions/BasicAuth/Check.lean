import WasmExtensions.Common.Host

/-!
# The basic auth check

`PluginRootContext::check` looks up the rules of the request's method and goes through them in
order.  A rule that applies to the host and to the path demands credentials; the first rule whose
demand is not met ends the check with a 401 response.
-/

namespace WasmExtensions

namespace BasicAuth

/-- How a pattern is matched. -/
inductive MatchType where
  | Prefix
  | Exact
  | Suffix
  deriving DecidableEq, Repr

/-- A rule of the configuration. -/
structure BasicAuthConfigRule where
  requestPath : Bytes
  /-- `none` is a value that is none of the enumerators, as an unassigned field may hold. -/
  pathPattern : Option MatchType
  hosts : List (MatchType × Bytes)
  encodedCredentials : List Bytes
  deriving DecidableEq, Repr

/-- The rules of every request method. -/
abbrev RuleTable := Bytes → Option (List BasicAuthConfigRule)

/-- The headers that the check reads; a header that is not there is empty. -/
structure Request where
  method : Bytes
  authority : Bytes
  path : Bytes
  authorization : Bytes
  deriving DecidableEq, Repr

def deniedNoBasicAuthData (realm : Bytes) : LocalResponse where
  responseCode := 401
  responseCodeDetails :=
    bytes "Request denied by Basic Auth check. No Basic Authentication information found."
  body := []
  additionalResponseHeaders := [(bytes "WWW-Authenticate", bytes "Basic realm=" ++ realm)]

def deniedInvalidCredentials (realm : Bytes) : LocalResponse where
  responseCode := 401
  responseCodeDetails :=
    bytes "Request denied by Basic Auth check. Invalid username and/or password"
  body := []
  additionalResponseHeaders := [(bytes "WWW-Authenticate", bytes "Basic realm=" ++ realm)]

/-- The host without its port.  A colon inside the brackets of an IPv6 address starts no port. -/
def stripPort (requestHost : Bytes) : Bytes :=
  match rfind ':'.toUInt8 requestHost with
  | none => requestHost
  | some portStart =>
    if (rfind ']'.toUInt8 requestHost).all (fun v6EndIndex => v6EndIndex < portStart) then
      if portStart + 1 ≤ requestHost.length then requestHost.take portStart else requestHost
    else requestHost

/-- Whether the rule applies to the host. -/
def hostMatch (rule : BasicAuthConfigRule) (requestHost : Bytes) : Bool :=
  if rule.hosts.isEmpty then true
  else
    rule.hosts.any fun hostMatch =>
      match hostMatch.1 with
      | .Suffix => endsWith (stripPort requestHost) hostMatch.2
      | .Prefix => startsWith (stripPort requestHost) hostMatch.2
      | .Exact => stripPort requestHost == hostMatch.2

/-- What is decided and which responses are sent. -/
abbrev Outcome := FilterHeadersStatus × List LocalResponse

def credentialsCheck (realm : Bytes) (rule : BasicAuthConfigRule) (authorizationHeader : Bytes) :
    Outcome :=
  if !startsWith authorizationHeader (bytes "Basic ") then
    (.StopIteration, [deniedNoBasicAuthData realm])
  else if authorizationHeader.drop (bytes "Basic ").length ∈ rule.encodedCredentials then
    (.Continue, [])
  else (.StopIteration, [deniedInvalidCredentials realm])

/-- The part of the loop that looks at the path: the header status after it. -/
def pathCheck (realm : Bytes) (request : Request) (rule : BasicAuthConfigRule)
    (headerStatus : FilterHeadersStatus) : Outcome :=
  if rule.pathPattern = some .Prefix then
    if startsWith request.path rule.requestPath then
      credentialsCheck realm rule request.authorization
    else (headerStatus, [])
  else if rule.pathPattern = some .Exact then
    if rule.requestPath == request.path then credentialsCheck realm rule request.authorization
    else (headerStatus, [])
  else if rule.pathPattern = some .Suffix then
    if endsWith request.path rule.requestPath then
      credentialsCheck realm rule request.authorization
    else (headerStatus, [])
  else (headerStatus, [])

/-- The loop over the rules of a method. -/
def checkRules (realm : Bytes) (request : Request) :
    FilterHeadersStatus → List BasicAuthConfigRule → Outcome
  | _, [] => (.Continue, [])
  | headerStatus, rule :: rules =>
    if !hostMatch rule request.authority then checkRules realm request headerStatus rules
    else
      let (headerStatus, sent) := pathCheck realm request rule headerStatus
      if headerStatus = .StopIteration then (.StopIteration, sent)
      else
        let (status, sent') := checkRules realm request headerStatus rules
        (status, sent ++ sent')

/-- The decision on a request. -/
def check (realm : Bytes) (basicAuthConfiguration : RuleTable) (request : Request) : Outcome :=
  match basicAuthConfiguration request.method with
  | some rules => checkRules realm request .Continue rules
  | none => (.Continue, [])

end BasicAuth

end WasmExtensions
