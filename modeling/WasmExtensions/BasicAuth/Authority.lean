import WasmExtensions.BasicAuth.Check

/-!
# Ports in the authority

The authority of a request is a host, possibly with a port.  `hostMatch` cuts the port off: it
starts at the last colon, unless that colon is inside the brackets of an IPv6 address.

* `stripPort_withPort` : what follows the last colon of an authority with a port is cut off.
* `stripPort_of_isHost` : a host without a port is left as it is.
* `hostMatch_withPort` : **a port never changes which rules apply**, nor what `check` decides
  (`check_withPort`).
-/

namespace WasmExtensions

namespace BasicAuth

/-- A host without a port: a text without a colon, or an IPv6 address in brackets. -/
def IsHost (host : Bytes) : Prop :=
  ':'.toUInt8 ∉ host ∨
    ∃ address, host = bytes "[" ++ address ++ bytes "]" ∧
      '['.toUInt8 ∉ address ∧ ']'.toUInt8 ∉ address

/-- The host with a port. -/
def withPort (host port : Bytes) : Bytes := host ++ bytes ":" ++ port

variable {host port : Bytes} {rule : BasicAuthConfigRule} {realm : Bytes} {table : RuleTable}
  {request : Request}

/-- The port is cut off, whatever the host is. -/
theorem stripPort_withPort (hcolon : ':'.toUInt8 ∉ port) (hbracket : ']'.toUInt8 ∉ port) :
    stripPort (withPort host port) = host := by
  have hmark : withPort host port = host ++ ':'.toUInt8 :: port := by
    rw [withPort, List.append_assoc]; rfl
  have hstart : rfind ':'.toUInt8 (withPort host port) = some host.length := by
    rw [hmark]
    exact rfind_append_cons hcolon
  have hv6 : rfind ']'.toUInt8 (withPort host port) = rfind ']'.toUInt8 host := by
    rw [hmark]
    refine rfind_append ?_
    simp only [List.mem_cons, not_or]
    exact ⟨by decide, hbracket⟩
  have hbefore : (rfind ']'.toUInt8 host).all (fun v6EndIndex => v6EndIndex < host.length) := by
    cases h : rfind ']'.toUInt8 host with
    | none => rfl
    | some v6EndIndex => simpa using rfind_lt h
  have hlength : host.length + 1 ≤ (withPort host port).length := by
    simp [hmark]
  simp only [stripPort, hstart, hv6, hbefore, hlength, if_true]
  rw [hmark]
  exact List.take_left

/-- A colon inside the brackets starts no port. -/
theorem stripPort_of_isHost (h : IsHost host) : stripPort host = host := by
  unfold stripPort
  rcases h with hcolon | ⟨address, rfl, -, hclose⟩
  · rw [rfind_eq_none_iff.2 hcolon]
  · have hend : rfind ']'.toUInt8 (bytes "[" ++ address ++ bytes "]") =
        some (bytes "[" ++ address).length :=
      rfind_append_cons (List.not_mem_nil)
    have hcolon : rfind ':'.toUInt8 (bytes "[" ++ address ++ bytes "]") =
        rfind ':'.toUInt8 (bytes "[" ++ address) :=
      rfind_append (by decide)
    rw [hend, hcolon]
    cases h : rfind ':'.toUInt8 (bytes "[" ++ address) with
    | none => rfl
    | some portStart =>
      -- The last colon comes before the closing bracket.
      have hlt := rfind_lt h
      have hafter : ¬ (bytes "[" ++ address).length < portStart := by omega
      simp only [Option.all_some, hafter, decide_false, Bool.false_eq_true, if_false]

/-- The rules look at the host without its port. -/
theorem hostMatch_congr {authority authority' : Bytes}
    (h : stripPort authority = stripPort authority') (rule : BasicAuthConfigRule) :
    hostMatch rule authority = hostMatch rule authority' := by
  simp only [hostMatch, h]

/-- **A port never changes whether a rule applies.** -/
theorem hostMatch_withPort (rule : BasicAuthConfigRule) (hhost : IsHost host)
    (hcolon : ':'.toUInt8 ∉ port) (hbracket : ']'.toUInt8 ∉ port) :
    hostMatch rule (host ++ bytes ":" ++ port) = hostMatch rule host := by
  refine hostMatch_congr ?_ rule
  rw [stripPort_of_isHost hhost]
  exact stripPort_withPort hcolon hbracket

/-- A rule for an IPv6 address. -/
def sampleV6Rule : BasicAuthConfigRule where
  requestPath := bytes "/"
  pathPattern := some .Prefix
  hosts := [(.Exact, bytes "[::1]")]
  encodedCredentials := []

theorem hostMatch_withPort_v6 :
    hostMatch sampleV6Rule (bytes "[::1]" ++ bytes ":" ++ bytes "8080") =
      hostMatch sampleV6Rule (bytes "[::1]") :=
  hostMatch_withPort sampleV6Rule
    (.inr ⟨bytes "::1", rfl, by decide, by decide⟩) (by decide) (by decide)

example : hostMatch sampleV6Rule (bytes "[::1]:8080") = true := by decide

/-- The loop over the rules sees the authority only through `hostMatch`. -/
theorem checkRules_congr {authority authority' : Bytes}
    (h : stripPort authority = stripPort authority') (rules : List BasicAuthConfigRule)
    (status : FilterHeadersStatus) :
    checkRules realm { request with authority := authority } status rules =
      checkRules realm { request with authority := authority' } status rules := by
  induction rules generalizing status with
  | nil => rfl
  | cons rule rules ih =>
    have hpath : pathCheck realm { request with authority := authority } rule status =
        pathCheck realm { request with authority := authority' } rule status := rfl
    simp only [checkRules, hostMatch_congr h rule, hpath, ih]

/-- **A request is decided alike with and without a port.** -/
theorem check_withPort (hhost : IsHost host) (hcolon : ':'.toUInt8 ∉ port)
    (hbracket : ']'.toUInt8 ∉ port) :
    check realm table { request with authority := withPort host port } =
      check realm table { request with authority := host } := by
  have hstrip : stripPort (withPort host port) = stripPort host := by
    rw [stripPort_withPort hcolon hbracket, stripPort_of_isHost hhost]
  unfold check
  cases table request.method with
  | none => rfl
  | some rules => exact checkRules_congr hstrip rules .Continue

end BasicAuth

end WasmExtensions
