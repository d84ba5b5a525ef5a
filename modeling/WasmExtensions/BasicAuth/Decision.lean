import WasmExtensions.BasicAuth.Check
import Mathlib.Data.List.Perm.Basic
import Mathlib.Data.Option.Basic

/-!
# The meaning of a basic auth configuration

What a table of rules demands is said here without the loop: a request is *denied* if some rule
under its method covers it (host and path) and does not accept its credentials.  The loop of
`check` comes to the same decision, sends one 401 response for a denial and nothing otherwise.

The loop hands the header status of one rule on to the next.  This does no harm because the loop
goes on only while the status is `Continue`: that is the invariant of the induction.
-/

namespace WasmExtensions

namespace BasicAuth

/-- The texts that a pattern matches. -/
def MatchType.Matches : MatchType → Bytes → Bytes → Prop
  | .Prefix, pattern, text => pattern <+: text
  | .Exact, pattern, text => text = pattern
  | .Suffix, pattern, text => pattern <:+ text

namespace BasicAuthConfigRule

/-- The rule is for this host: it names no hosts, or one of its patterns matches. -/
def AppliesToHost (rule : BasicAuthConfigRule) (authority : Bytes) : Prop :=
  rule.hosts = [] ∨ ∃ host ∈ rule.hosts, host.1.Matches host.2 (stripPort authority)

/-- The rule is for this path. -/
def AppliesToPath (rule : BasicAuthConfigRule) (path : Bytes) : Prop :=
  ∃ m, rule.pathPattern = some m ∧ m.Matches rule.requestPath path

/-- The rule is for this request. -/
def Covers (rule : BasicAuthConfigRule) (request : Request) : Prop :=
  rule.AppliesToHost request.authority ∧ rule.AppliesToPath request.path

/-- The authorization header holds one of the credentials of the rule. -/
def Accepts (rule : BasicAuthConfigRule) (authorization : Bytes) : Prop :=
  ∃ credential ∈ rule.encodedCredentials, authorization = bytes "Basic " ++ credential

/-- The rule is for this request and does not accept its credentials. -/
def Denies (rule : BasicAuthConfigRule) (request : Request) : Prop :=
  rule.Covers request ∧ ¬ rule.Accepts request.authorization

end BasicAuthConfigRule

/-- Some rule under the method of the request denies it. -/
def Denied (table : RuleTable) (request : Request) : Prop :=
  ∃ rules, table request.method = some rules ∧ ∃ rule ∈ rules, rule.Denies request

/-- The same methods, with the same rules in some other order. -/
def Reordered (table table' : RuleTable) : Prop :=
  ∀ method, Option.Rel List.Perm (table method) (table' method)

variable {realm authority authorization : Bytes} {request : Request} {rule : BasicAuthConfigRule}
  {rules rules' : List BasicAuthConfigRule} {status : FilterHeadersStatus}

/-! ### One rule -/

theorem hostMatch_iff : hostMatch rule authority = true ↔ rule.AppliesToHost authority := by
  unfold hostMatch BasicAuthConfigRule.AppliesToHost
  split_ifs with hempty
  · exact iff_of_true rfl (.inl (List.isEmpty_iff.1 hempty))
  · rw [or_iff_right (fun h => hempty (List.isEmpty_iff.2 h)), List.any_eq_true]
    refine exists_congr fun host => and_congr_right fun _ => ?_
    cases host.1 with
    | Prefix => exact startsWith_iff
    | Exact => exact beq_iff_eq
    | Suffix => exact endsWith_iff

/-- A rule that is for the path has its credentials checked. -/
theorem pathCheck_of_appliesToPath (h : rule.AppliesToPath request.path) :
    pathCheck realm request rule status = credentialsCheck realm rule request.authorization := by
  obtain ⟨m, hm, hmatches⟩ := h
  unfold pathCheck
  cases m with
  | Prefix => rw [if_pos hm, if_pos (startsWith_iff.2 hmatches)]
  | Exact =>
    have hpath : (rule.requestPath == request.path) = true := beq_iff_eq.2 hmatches.symm
    rw [if_neg (by simp [hm]), if_pos hm, if_pos hpath]
  | Suffix =>
    rw [if_neg (by simp [hm]), if_neg (by simp [hm]), if_pos hm, if_pos (endsWith_iff.2 hmatches)]

/-- A rule that is not for the path leaves the status as it is. -/
theorem pathCheck_of_not_appliesToPath (h : ¬ rule.AppliesToPath request.path) :
    pathCheck realm request rule status = (status, []) := by
  have hnot : ∀ m, rule.pathPattern = some m → ¬ m.Matches rule.requestPath request.path :=
    fun m hm hmatches => h ⟨m, hm, hmatches⟩
  unfold pathCheck
  split_ifs with hpre hstarts hexact heq hsuffix hends
  · exact absurd (startsWith_iff.1 hstarts) (hnot .Prefix hpre)
  · rfl
  · exact absurd (beq_iff_eq.1 heq).symm (hnot .Exact hexact)
  · rfl
  · exact absurd (endsWith_iff.1 hends) (hnot .Suffix hsuffix)
  · rfl
  · rfl

theorem credentialsCheck_of_accepts (h : rule.Accepts authorization) :
    credentialsCheck realm rule authorization = (.Continue, []) := by
  obtain ⟨credential, hmem, rfl⟩ := h
  have hstarts : startsWith (bytes "Basic " ++ credential) (bytes "Basic ") = true :=
    startsWith_iff.2 (List.prefix_append _ _)
  have hdrop : (bytes "Basic " ++ credential).drop (bytes "Basic ").length = credential :=
    List.drop_left
  unfold credentialsCheck
  rw [hstarts, hdrop, Bool.not_true, if_neg Bool.false_ne_true, if_pos hmem]

/-- Both responses to a denial are 401. -/
theorem credentialsCheck_of_not_accepts (realm : Bytes) (h : ¬ rule.Accepts authorization) :
    ∃ response, credentialsCheck realm rule authorization = (.StopIteration, [response]) ∧
      response.responseCode = 401 := by
  unfold credentialsCheck
  split_ifs with hstarts hmem
  · exact ⟨deniedNoBasicAuthData realm, rfl, rfl⟩
  · refine absurd ⟨_, hmem, ?_⟩ h
    rw [Bool.not_eq_true, Bool.not_eq_false', startsWith_iff] at hstarts
    exact List.prefix_iff_eq_append.1 hstarts |>.symm
  · exact ⟨deniedInvalidCredentials realm, rfl, rfl⟩

/-! ### The loop -/

/-- A rule that denies the request ends the loop. -/
theorem checkRules_cons_of_denies (h : rule.Denies request) :
    ∃ response, checkRules realm request .Continue (rule :: rules) = (.StopIteration, [response]) ∧
      response.responseCode = 401 := by
  obtain ⟨⟨hhost, hpath⟩, haccepts⟩ := h
  obtain ⟨response, hcheck, hcode⟩ := credentialsCheck_of_not_accepts realm haccepts
  refine ⟨response, ?_, hcode⟩
  unfold checkRules
  rw [hostMatch_iff.2 hhost, pathCheck_of_appliesToPath hpath, hcheck]
  rfl

/-- A rule that does not deny the request has no influence on the rest of the loop. -/
theorem checkRules_cons_of_not_denies (h : ¬ rule.Denies request) :
    checkRules realm request .Continue (rule :: rules) =
      checkRules realm request .Continue rules := by
  have hcontinue : hostMatch rule request.authority = true →
      pathCheck realm request rule .Continue = (.Continue, []) := by
    intro hhost
    by_cases hpath : rule.AppliesToPath request.path
    · rw [pathCheck_of_appliesToPath hpath]
      apply credentialsCheck_of_accepts
      exact not_not.1 fun haccepts => h ⟨⟨hostMatch_iff.1 hhost, hpath⟩, haccepts⟩
    · exact pathCheck_of_not_appliesToPath hpath
  rw [checkRules]
  split_ifs with hhost
  · rfl
  · have hhost' : hostMatch rule request.authority = true := by simpa using hhost
    rw [hcontinue hhost']
    rfl

theorem checkRules_of_denies (h : ∃ rule ∈ rules, rule.Denies request) :
    ∃ response, checkRules realm request .Continue rules = (.StopIteration, [response]) ∧
      response.responseCode = 401 := by
  induction rules with
  | nil => simp at h
  | cons rule rules ih =>
    by_cases hrule : rule.Denies request
    · exact checkRules_cons_of_denies hrule
    · rw [checkRules_cons_of_not_denies hrule]
      apply ih
      obtain ⟨rule', hmem, hdenies⟩ := h
      rcases List.mem_cons.1 hmem with rfl | hmem
      · exact absurd hdenies hrule
      · exact ⟨rule', hmem, hdenies⟩

theorem checkRules_of_not_denies (h : ∀ rule ∈ rules, ¬ rule.Denies request) :
    checkRules realm request .Continue rules = (.Continue, []) := by
  induction rules with
  | nil => rfl
  | cons rule rules ih =>
    rw [checkRules_cons_of_not_denies (h rule List.mem_cons_self)]
    exact ih fun rule' hmem => h rule' (List.mem_cons_of_mem _ hmem)

/-! ### The decision -/

variable {table table' : RuleTable}

theorem check_of_denied (realm : Bytes) (h : Denied table request) :
    ∃ response, check realm table request = (.StopIteration, [response]) ∧
      response.responseCode = 401 := by
  obtain ⟨rules, hrules, hdenies⟩ := h
  unfold check
  rw [hrules]
  exact checkRules_of_denies hdenies

theorem check_of_not_denied (h : ¬ Denied table request) :
    check realm table request = (.Continue, []) := by
  unfold check
  cases hrules : table request.method with
  | none => rfl
  | some rules =>
    exact checkRules_of_not_denies fun rule hmem hdenies => h ⟨rules, hrules, rule, hmem, hdenies⟩

theorem check_stop_iff (realm : Bytes) :
    (check realm table request).1 = .StopIteration ↔ Denied table request := by
  constructor
  · intro hstop
    by_contra hdenied
    rw [check_of_not_denied hdenied] at hstop
    cases hstop
  · intro hdenied
    obtain ⟨response, hcheck, -⟩ := check_of_denied realm hdenied
    rw [hcheck]

theorem check_continue_iff (realm : Bytes) :
    (check realm table request).1 = .Continue ↔ ¬ Denied table request := by
  rw [← check_stop_iff realm]
  cases (check realm table request).1 <;> simp

/-- What is denied does not depend on the order of the rules. -/
theorem Denied.reordered (h : Reordered table table') (hdenied : Denied table request) :
    Denied table' request := by
  obtain ⟨rules, hrules, rule, hmem, hdenies⟩ := hdenied
  have hrel := h request.method
  rw [hrules] at hrel
  cases hrules' : table' request.method with
  | none => rw [hrules'] at hrel; cases hrel
  | some rules' =>
    rw [hrules'] at hrel
    cases hrel with
    | some hperm => exact ⟨rules', hrules', rule, hperm.mem_iff.1 hmem, hdenies⟩

theorem Reordered.symm (h : Reordered table table') : Reordered table' table := by
  intro method
  have hflip : ∀ {o o' : Option (List BasicAuthConfigRule)},
      Option.Rel List.Perm o o' → Option.Rel List.Perm o' o := by
    intro o o' hrel
    cases hrel with
    | some hperm => exact .some hperm.symm
    | none => exact .none
  exact hflip (h method)

/-- The demands of all rules that cover the request have to be met. -/
theorem not_denied_iff : ¬ Denied table request ↔ ∀ rules, table request.method = some rules →
    ∀ rule ∈ rules, rule.Covers request → rule.Accepts request.authorization := by
  constructor
  · intro hdenied rules hrules rule hmem hcovers
    by_contra haccepts
    exact hdenied ⟨rules, hrules, rule, hmem, hcovers, haccepts⟩
  · rintro hall ⟨rules, hrules, rule, hmem, hcovers, haccepts⟩
    exact haccepts (hall rules hrules rule hmem hcovers)

/-- **The decision of the check.**  It stops exactly the denied requests, with one 401 response;
all others continue without a response.  So the order of the rules does not matter, and every
rule that covers the request has to be satisfied. -/
theorem check_decides (realm : Bytes) (table : RuleTable) (request : Request) :
    ((check realm table request).1 = .StopIteration ↔ Denied table request) ∧
    ((check realm table request).1 = .Continue ↔ ¬ Denied table request) ∧
    ((check realm table request).1 = .StopIteration →
      ∃ response, (check realm table request).2 = [response] ∧ response.responseCode = 401) ∧
    ((check realm table request).1 = .Continue → (check realm table request).2 = []) ∧
    (∀ table', Reordered table table' →
      (check realm table' request).1 = (check realm table request).1) ∧
    ((check realm table request).1 = .Continue ↔ ∀ rules, table request.method = some rules →
      ∀ rule ∈ rules, rule.Covers request → rule.Accepts request.authorization) := by
  refine ⟨check_stop_iff realm, check_continue_iff realm, fun hstop => ?_, fun hcontinue => ?_,
    fun table' hreordered => ?_, (check_continue_iff realm).trans not_denied_iff⟩
  · obtain ⟨response, hcheck, hcode⟩ := check_of_denied realm ((check_stop_iff realm).1 hstop)
    exact ⟨response, by rw [hcheck], hcode⟩
  · rw [check_of_not_denied ((check_continue_iff realm).1 hcontinue)]
  · by_cases hdenied : Denied table request
    · rw [(check_stop_iff realm).2 hdenied, (check_stop_iff realm).2 (hdenied.reordered hreordered)]
    · have hdenied' : ¬ Denied table' request := fun h => hdenied (h.reordered hreordered.symm)
      rw [(check_continue_iff realm).2 hdenied, (check_continue_iff realm).2 hdenied']

end BasicAuth

end WasmExtensions
