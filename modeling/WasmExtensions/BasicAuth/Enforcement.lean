import WasmExtensions.BasicAuth.Credentials
import WasmExtensions.BasicAuth.Reconfiguration

/-!
# What basic auth enforces

A rule is read here as a statement about requests, from its text: for which requests it is
(`Protects`) and which credentials it admits (`Admits`).  A configuration is in force up to its
first rule that is rejected (`RuleOf`).

`configure` only ever appends.  So after any configurations, in whatever order they came and
whether or not they were accepted, **a request is denied exactly if a rule of one of them protects
it and does not admit its credentials** (`enforced_as_configured`).  The denial names the realm of
the last accepted configuration that has one.
-/

namespace WasmExtensions

namespace BasicAuth

/-! ### Rules as statements about requests -/

/-- The rule that is configured so is for the request.  For an empty text the pattern is what the
field that is not initialized holds. -/
structure Protects (uninitialized : Option MatchType) (configuration : Json) (request : Request) :
    Prop where
  method : request.method ∈ stringsOf configuration (bytes "request_methods")
  host : stringsOf configuration (bytes "hosts") = [] ∨
    ∃ entry ∈ stringsOf configuration (bytes "hosts"),
      HostEntryMatches entry (stripPort request.authority)
  path : ∃ m text, ConfiguredPath configuration m text ∧
    ∃ m', (if text = [] then uninitialized else some m) = some m' ∧ m'.Matches text request.path

/-- The rule that is configured so admits the header. -/
def Admits (configuration : Json) (authorization : Bytes) : Prop :=
  ∃ e ∈ configuration.elements (bytes "credentials"), ∃ credential,
    storedCredential e = some credential ∧ authorization = bytes "Basic " ++ credential

variable {lib : JsonLibrary} {uninitialized : Option MatchType} {configuration : Json}
  {methods : List Bytes} {rule : BasicAuthConfigRule} {request : Request} {authorization : Bytes}

theorem encodedCredentials_of_parseRule
    (h : parseRule uninitialized configuration = some (methods, rule)) :
    jsonArrayIterate configuration (bytes "credentials") visitCredential [] =
      (true, rule.encodedCredentials) := by
  unfold parseRule at h
  obtain ⟨⟨count, start⟩, -, h⟩ := Option.bind_eq_some_iff.1 h
  obtain ⟨⟨count', exact⟩, -, h⟩ := Option.bind_eq_some_iff.1 h
  obtain ⟨⟨count'', ending⟩, -, h⟩ := Option.bind_eq_some_iff.1 h
  dsimp only at h
  split_ifs at h
  split at h
  · cases h
  · split at h
    · cases h
    · split_ifs at h
      split at h
      · cases h
      · rename_i credentials hcredentials
        split_ifs at h
        obtain ⟨-, rfl⟩ := Prod.mk.inj (Option.some.inj h)
        exact hcredentials

/-- The credentials of a rule are what is stored for those of its configuration. -/
theorem mem_encodedCredentials (h : parseRule uninitialized configuration = some (methods, rule))
    (x : Bytes) : x ∈ rule.encodedCredentials ↔
      ∃ e ∈ configuration.elements (bytes "credentials"), storedCredential e = some x := by
  have hiterate := encodedCredentials_of_parseRule h
  have hsnd := congrArg Prod.snd hiterate
  rw [snd_jsonArrayIterate] at hsnd
  have hfst : (iterate visitCredential (configuration.elements (bytes "credentials")) []).1 =
      true := by
    unfold jsonArrayIterate at hiterate
    unfold Json.elements
    cases hfind : configuration.find (bytes "credentials") with
    | none => rfl
    | some value =>
      rw [hfind] at hiterate
      cases value with
      | array elements => exact congrArg Prod.fst hiterate
      | null | boolean | number | string | object => rfl
  obtain ⟨hall, hmem⟩ := @iterate_visitCredential [] (configuration.elements (bytes "credentials"))
  have hmem := hmem (hall.1 hfst) x
  rw [hsnd] at hmem
  simpa using hmem

theorem accepts_iff_admits (h : parseRule uninitialized configuration = some (methods, rule)) :
    rule.Accepts authorization ↔ Admits configuration authorization := by
  unfold BasicAuthConfigRule.Accepts Admits
  constructor
  · rintro ⟨credential, hmem, heq⟩
    obtain ⟨e, he, hstored⟩ := (mem_encodedCredentials h credential).1 hmem
    exact ⟨e, he, credential, hstored, heq⟩
  · rintro ⟨e, he, credential, hstored, heq⟩
    exact ⟨credential, (mem_encodedCredentials h credential).2 ⟨e, he, hstored⟩, heq⟩

/-- A rule that is not rejected is for the requests that its configuration names. -/
theorem covers_iff_protects (h : parseRule uninitialized configuration = some (methods, rule)) :
    request.method ∈ methods ∧ rule.Covers request ↔
      Protects uninitialized configuration request := by
  obtain ⟨m, text, hconfigured, honly, hpattern, hpath, hhosts, rfl, -⟩ := parseRule_eq_some h
  have hhost := @appliesToHost_iff rule _ request.authority hhosts
  constructor
  · rintro ⟨hmethod, hcoversHost, m', hm', hmatches⟩
    refine ⟨hmethod, hhost.1 hcoversHost, m, text, hconfigured, m', hpattern ▸ hm', ?_⟩
    exact hpath ▸ hmatches
  · rintro ⟨hmethod, hprotects, m'', text'', hconfigured'', m', hm', hmatches⟩
    obtain ⟨rfl, rfl⟩ := hconfigured.eq honly hconfigured''
    exact ⟨hmethod, hhost.2 hprotects, m', hpattern.trans hm', hpath.symm ▸ hmatches⟩

/-! ### The rules of a configuration -/

section

variable {uninitialized : ℕ → Option MatchType} {rules : RuleTable}
  {extracted : List (List Bytes × BasicAuthConfigRule)}

/-- Appended rules deny what they deny, and the table denies what it denied. -/
theorem denied_pushAll_iff : Denied (pushAll extracted rules) request ↔
    Denied rules request ∨
      ∃ entry ∈ extracted, request.method ∈ entry.1 ∧ entry.2.Denies request := by
  have happended : ∀ rule, rule ∈ appendedUnder request.method extracted ↔
      ∃ entry ∈ extracted, request.method ∈ entry.1 ∧ entry.2 = rule := by
    intro rule
    unfold appendedUnder
    rw [List.mem_flatMap]
    refine exists_congr fun entry => and_congr_right fun _ => ?_
    rw [List.mem_replicate, ← Nat.pos_iff_ne_zero, List.count_pos_iff, eq_comm (a := rule)]
  unfold Denied
  rw [pushAll_apply]
  constructor
  · rintro ⟨table, htable, rule, hmem, hdenies⟩
    split_ifs at htable with hnil
    · exact .inl ⟨table, htable, rule, hmem, hdenies⟩
    · obtain rfl := Option.some.inj htable
      rcases List.mem_append.1 hmem with hmem | hmem
      · cases hold : rules request.method with
        | none =>
          rw [hold] at hmem
          cases hmem
        | some old =>
          rw [hold] at hmem
          exact .inl ⟨old, rfl, rule, hmem, hdenies⟩
      · obtain ⟨entry, hentry, hmethod, rfl⟩ := (happended rule).1 hmem
        exact .inr ⟨entry, hentry, hmethod, hdenies⟩
  · rintro (⟨old, hold, rule, hmem, hdenies⟩ | ⟨entry, hentry, hmethod, hdenies⟩)
    · split_ifs with hnil
      · exact ⟨old, hold, rule, hmem, hdenies⟩
      · rw [hold]
        exact ⟨_, rfl, rule, List.mem_append_left _ hmem, hdenies⟩
    · have hmem : entry.2 ∈ appendedUnder request.method extracted :=
        (happended _).2 ⟨entry, hentry, hmethod, rfl⟩
      rw [if_neg (List.ne_nil_of_mem hmem)]
      exact ⟨_, rfl, entry.2, List.mem_append_right _ hmem, hdenies⟩

/-- The rules that are extracted stand before the first one that is rejected. -/
theorem mem_extractedRules {n : ℕ} {configurations : List Json} :
    (methods, rule) ∈ extractedRules uninitialized n configurations ↔
      ∃ before configuration after, configurations = before ++ configuration :: after ∧
        (∀ first ∈ before, (parseRule none first).isSome) ∧
        parseRule (uninitialized (n + before.length)) configuration = some (methods, rule) := by
  induction configurations generalizing n with
  | nil => simp [extractedRules]
  | cons first rest ih =>
    unfold extractedRules
    cases hfirst : parseRule (uninitialized n) first with
    | none =>
      refine iff_of_false List.not_mem_nil ?_
      rintro ⟨before, configuration, after, heq, hbefore, hparse⟩
      cases before with
      | nil =>
        obtain ⟨rfl, rfl⟩ := List.cons.inj heq
        rw [List.length_nil, Nat.add_zero, hfirst] at hparse
        cases hparse
      | cons first' before =>
        obtain ⟨rfl, -⟩ := List.cons.inj heq
        have hsome := hbefore first List.mem_cons_self
        rw [parseRule_isSome (uninitialized n), hfirst] at hsome
        cases hsome
    | some extracted =>
      rw [List.mem_cons, ih]
      constructor
      · rintro (heq | ⟨before, configuration, after, rfl, hbefore, hparse⟩)
        · exact ⟨[], first, rest, rfl, by simp, heq ▸ hfirst⟩
        · refine ⟨first :: before, configuration, after, rfl, ?_, ?_⟩
          · refine List.forall_mem_cons.2 ⟨?_, hbefore⟩
            rw [parseRule_isSome (uninitialized n), hfirst]
            rfl
          · rw [List.length_cons, Nat.add_comm before.length, ← Nat.add_assoc]
            exact hparse
      · rintro ⟨before, configuration, after, heq, hbefore, hparse⟩
        cases before with
        | nil =>
          obtain ⟨rfl, rfl⟩ := List.cons.inj heq
          rw [List.length_nil, Nat.add_zero, hfirst] at hparse
          exact .inl (Option.some.inj hparse).symm
        | cons first' before =>
          obtain ⟨rfl, rfl⟩ := List.cons.inj heq
          refine .inr ⟨before, configuration, after, rfl,
            fun b hb => hbefore b (List.mem_cons_of_mem _ hb), ?_⟩
          rw [List.length_cons, Nat.add_comm before.length, ← Nat.add_assoc] at hparse
          exact hparse

end

/-- The rule stands at the place `n` of the configuration, and no rule up to there is rejected. -/
def Configuration.RuleAt (lib : JsonLibrary) (c : Configuration) (n : ℕ) (configuration : Json) :
    Prop :=
  ∃ j before after, jsonParse lib c.text = some j ∧ before.length = n ∧
    j.elements (bytes "basic_auth_rules") = before ++ configuration :: after ∧
    ∀ first ∈ before ++ [configuration], (parseRule none first).isSome

/-- A rule of the configuration protects the request and does not admit its credentials. -/
def Configuration.Demands (lib : JsonLibrary) (c : Configuration) (request : Request) : Prop :=
  ∃ n configuration, c.RuleAt lib n configuration ∧
    Protects (c.uninitialized n) configuration request ∧
    ¬ Admits configuration request.authorization

variable {c : Configuration} {s : System} {cs : List Configuration}

theorem pushed_eq (h : jsonParse lib c.text = some j) : c.pushed lib =
    extractedRules c.uninitialized 0 (j.elements (bytes "basic_auth_rules")) := by
  unfold Configuration.pushed pushedRules Json.elements
  rw [h]
  dsimp only
  cases j.find (bytes "basic_auth_rules") with
  | none => rfl
  | some value => cases value <;> rfl

/-- What the rules that are pushed deny is what the configuration demands. -/
theorem pushed_denies_iff : (∃ entry ∈ c.pushed lib, request.method ∈ entry.1 ∧
    entry.2.Denies request) ↔ c.Demands lib request := by
  constructor
  · rintro ⟨⟨methods, rule⟩, hmem, hmethod, hcovers, haccepts⟩
    cases hj : jsonParse lib c.text with
    | none =>
      simp only [Configuration.pushed, hj] at hmem
      cases hmem
    | some j =>
      rw [pushed_eq hj, mem_extractedRules] at hmem
      obtain ⟨before, configuration, after, helements, hbefore, hparse⟩ := hmem
      rw [Nat.zero_add] at hparse
      refine ⟨before.length, configuration, ⟨j, before, after, hj, rfl, helements, ?_⟩,
        (covers_iff_protects hparse).1 ⟨hmethod, hcovers⟩,
        fun hadmits => haccepts ((accepts_iff_admits hparse).2 hadmits)⟩
      intro first hfirst
      rcases List.mem_append.1 hfirst with hfirst | hfirst
      · exact hbefore first hfirst
      · rw [List.mem_singleton.1 hfirst, parseRule_isSome (c.uninitialized before.length), hparse]
        rfl
  · rintro ⟨n, configuration, ⟨j, before, after, hj, rfl, helements, hsome⟩, hprotects, hadmits⟩
    have hconfiguration := hsome configuration (by simp)
    rw [parseRule_isSome (c.uninitialized before.length)] at hconfiguration
    obtain ⟨⟨methods, rule⟩, hparse⟩ := Option.isSome_iff_exists.1 hconfiguration
    obtain ⟨hmethod, hcovers⟩ := (covers_iff_protects hparse).2 hprotects
    refine ⟨(methods, rule), ?_, hmethod, hcovers,
      fun haccepts => hadmits ((accepts_iff_admits hparse).1 haccepts)⟩
    rw [pushed_eq hj, mem_extractedRules]
    refine ⟨before, configuration, after, helements,
      fun first hfirst => hsome first (List.mem_append_left _ hfirst), ?_⟩
    rw [Nat.zero_add]
    exact hparse

/-! ### Runs -/

/-- The realm that was set last; at first it is `istio`. -/
def lastRealm (lib : JsonLibrary) (cs : List Configuration) : Bytes :=
  ((cs.filter fun c => c.accepted lib).filterMap fun c => c.realm lib).getLast?.getD (bytes "istio")

/-- The plugin enforces all configurations that it was given. -/
structure Enforces (lib : JsonLibrary) (cs : List Configuration) (s : System) : Prop where
  denied : ∀ request, Denied s.plugin.basicAuthConfiguration request ↔
    ∃ c ∈ cs, c.Demands lib request
  realm : s.plugin.realm = lastRealm lib cs

theorem Enforces.start : Enforces lib [] .start where
  denied request := by
    refine iff_of_false ?_ (by simp)
    rintro ⟨rules, hrules, -⟩
    cases hrules
  realm := rfl

theorem Enforces.onConfigure (h : Enforces lib cs s) (c : Configuration) :
    Enforces lib (cs ++ [c]) (s.onConfigure lib c) := by
  unfold System.onConfigure
  rw [onConfigure_eq]
  constructor
  · intro request
    show Denied (pushAll (c.pushed lib) s.plugin.basicAuthConfiguration) request ↔ _
    rw [denied_pushAll_iff, h.denied, pushed_denies_iff]
    simp [or_and_right, exists_or]
  · show (if c.accepted lib then (c.realm lib).getD s.plugin.realm else s.plugin.realm) = _
    rw [h.realm]
    unfold lastRealm
    rw [List.filter_append, List.filterMap_append]
    by_cases haccepted : c.accepted lib
    · cases hrealm : c.realm lib <;> simp [haccepted, hrealm]
    · simp [haccepted]

/-- The header that names the realm. -/
def challenge (realm : Bytes) : List (Bytes × Bytes) :=
  [(bytes "WWW-Authenticate", bytes "Basic realm=" ++ realm)]

theorem challenge_of_mem_pathCheck {realm : Bytes} {status : FilterHeadersStatus}
    {response : LocalResponse} (h : response ∈ (pathCheck realm request rule status).2) :
    response.additionalResponseHeaders = challenge realm := by
  by_cases hpath : rule.AppliesToPath request.path
  · rw [pathCheck_of_appliesToPath hpath] at h
    unfold credentialsCheck at h
    split_ifs at h
    · rw [List.mem_singleton.1 h]
      rfl
    · cases h
    · rw [List.mem_singleton.1 h]
      rfl
  · rw [pathCheck_of_not_appliesToPath hpath] at h
    cases h

theorem challenge_of_mem_checkRules {realm : Bytes} {status : FilterHeadersStatus}
    {rules : List BasicAuthConfigRule} {response : LocalResponse}
    (h : response ∈ (checkRules realm request status rules).2) :
    response.additionalResponseHeaders = challenge realm := by
  induction rules generalizing status with
  | nil => cases h
  | cons rule rules ih =>
    unfold checkRules at h
    split_ifs at h with hhost
    · exact ih h
    · dsimp only at h
      split_ifs at h with hstop
      · exact challenge_of_mem_pathCheck h
      · rcases List.mem_append.1 h with h | h
        · exact challenge_of_mem_pathCheck h
        · exact ih h

/-- Every response of the check names the realm. -/
theorem challenge_of_mem_check {realm : Bytes} {table : RuleTable} {response : LocalResponse}
    (h : response ∈ (check realm table request).2) :
    response.additionalResponseHeaders = challenge realm := by
  unfold check at h
  split at h
  · exact challenge_of_mem_checkRules h
  · cases h

/-- **Basic auth enforces every rule that it was ever given**, up to the first one that is rejected
in each configuration: exactly the requests that such a rule protects and whose credentials it does
not admit are denied, with one 401 response that names the realm which was set last. -/
theorem enforced_as_configured
    (hrun : (configuring lib).run (fun _ _ => True) .start cs = some s) (request : Request) :
    ((check s.plugin.realm s.plugin.basicAuthConfiguration request).1 = .StopIteration ↔
      ∃ c ∈ cs, c.Demands lib request) ∧
    ((∃ c ∈ cs, c.Demands lib request) → ∃ response,
      (check s.plugin.realm s.plugin.basicAuthConfiguration request).2 = [response] ∧
      response.responseCode = 401 ∧
      response.additionalResponseHeaders = challenge (lastRealm lib cs)) ∧
    (¬ (∃ c ∈ cs, c.Demands lib request) →
      check s.plugin.realm s.plugin.basicAuthConfiguration request = (.Continue, [])) := by
  have henforces : Enforces lib cs s :=
    Machine.run_invariant .start (fun cs t c t' ht hn => Option.some.inj hn ▸ ht.onConfigure c) hrun
  rw [← henforces.denied request, ← henforces.realm]
  refine ⟨check_stop_iff _, fun hdenied => ?_, check_of_not_denied⟩
  obtain ⟨response, hcheck, hcode⟩ := check_of_denied s.plugin.realm hdenied
  have hmem : response ∈
      (check s.plugin.realm s.plugin.basicAuthConfiguration request).2 := by
    rw [hcheck]
    exact List.mem_singleton_self _
  exact ⟨response, by rw [hcheck], hcode, challenge_of_mem_check hmem⟩

/-- A request for `/api` without credentials. -/
def sampleRequest : Request where
  method := bytes "GET"
  authority := bytes "www.foo.com"
  path := bytes "/api/v1"
  authorization := []

/-- The rule of the first configuration is enforced after the second one, which has none. -/
theorem enforced_as_configured_kept : ∃ s, (configuring sampleLibrary).run (fun _ _ => True) .start
      [oneRule, noRules] = some s ∧
    (check s.plugin.realm s.plugin.basicAuthConfiguration sampleRequest).1 = .StopIteration := by
  have hrun : (configuring sampleLibrary).run (fun _ _ => True) .start [oneRule, noRules] =
    some ((System.start.onConfigure sampleLibrary oneRule).onConfigure sampleLibrary noRules) := rfl
  refine ⟨_, hrun, (enforced_as_configured hrun sampleRequest).1.2 ⟨oneRule, List.mem_cons_self, 0,
    sampleRule .Prefix (bytes "/api"), ?_, ?_, ?_⟩⟩
  · exact ⟨_, [], [], rfl, rfl, rfl, by decide⟩
  · exact ⟨by decide, .inr ⟨bytes "*.foo.com", by decide, .inl ⟨bytes ".foo.com", rfl, by decide⟩⟩,
      .Prefix, bytes "/api", rfl, .Prefix, rfl, List.prefix_append _ _⟩
  · rintro ⟨e, -, credential, -, heq⟩
    exact absurd (List.append_eq_nil_iff.1 heq.symm).1 (by decide)

end BasicAuth

end WasmExtensions
