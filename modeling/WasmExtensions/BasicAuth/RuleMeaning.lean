import WasmExtensions.BasicAuth.Configure
import WasmExtensions.BasicAuth.Decision

/-!
# The meaning of one rule of a configuration

A rule of a configuration says for which paths and for which hosts it is.  The rule that is put
into the table is for the same hosts, and it is for the same paths unless the configured text is
empty: then none of the three branches that set `path_pattern` is taken
(`rule_means_what_it_says_iff`).
-/

namespace WasmExtensions

namespace BasicAuth

/-! ### What a rule says -/

/-- The field that configures a kind of pattern. -/
def MatchType.field : MatchType → Bytes
  | .Prefix => bytes "prefix"
  | .Exact => bytes "exact"
  | .Suffix => bytes "suffix"

/-- The configuration of a rule gives this pattern for the path. -/
def ConfiguredPath (configuration : Json) (m : MatchType) (text : Bytes) : Prop :=
  configuration.find m.field = some (.string text)

def asString : Json → Option Bytes
  | .string s => some s
  | _ => none

/-- The strings in an array field. -/
def stringsOf (configuration : Json) (field : Bytes) : List Bytes :=
  match configuration.find field with
  | some (.array elements) => elements.filterMap asString
  | _ => []

/-- `*X` stands for the hosts that end with `X`, `X*` for those that start with `X`, and any other
entry for itself. -/
def HostEntryMatches (entry host : Bytes) : Prop :=
  (∃ x, entry = bytes "*" ++ x ∧ x <:+ host) ∨
    (¬ bytes "*" <+: entry ∧ ∃ x, entry = x ++ bytes "*" ∧ x <+: host) ∨
    (¬ bytes "*" <+: entry ∧ ¬ bytes "*" <:+ entry ∧ host = entry)

/-- The rule is for the paths and the hosts that its configuration names. -/
structure MeansWhatItSays (configuration : Json) (rule : BasicAuthConfigRule) : Prop where
  path : ∀ m text, ConfiguredPath configuration m text →
    ∀ path, rule.AppliesToPath path ↔ m.Matches text path
  host : ∀ authority, rule.AppliesToHost authority ↔
    stringsOf configuration (bytes "hosts") = [] ∨
      ∃ entry ∈ stringsOf configuration (bytes "hosts"),
        HostEntryMatches entry (stripPort authority)

/-- The rule is appended under each of the listed methods, as often as the method is listed. -/
def AppendedTo (rules rules' : RuleTable) (configuration : Json) (rule : BasicAuthConfigRule) :
    Prop :=
  ∀ method ∈ stringsOf configuration (bytes "request_methods"),
    rules' method = some ((rules method).getD [] ++
      List.replicate ((stringsOf configuration (bytes "request_methods")).count method) rule)

variable {uninitialized : Option MatchType} {configuration : Json} {rule : BasicAuthConfigRule}
  {rules : RuleTable} {methods : List Bytes} {method entry host field text : Bytes} {m : MatchType}

/-! ### Hosts -/

theorem hostPattern_matches :
    (hostPattern entry).1.Matches (hostPattern entry).2 host ↔ HostEntryMatches entry host := by
  unfold hostPattern HostEntryMatches
  split_ifs with hstar hstar'
  · rw [startsWith_iff] at hstar
    obtain ⟨x, rfl⟩ := hstar
    have hdrop : (bytes "*" ++ x).drop 1 = x := rfl
    rw [hdrop]
    constructor
    · intro hmatches
      exact .inl ⟨x, rfl, hmatches⟩
    · rintro (⟨y, hy, hmatches⟩ | ⟨hnot, -⟩ | ⟨hnot, -⟩)
      · rw [List.append_cancel_left hy]
        exact hmatches
      · exact absurd (List.prefix_append _ _) hnot
      · exact absurd (List.prefix_append _ _) hnot
  · rw [startsWith_iff] at hstar
    rw [endsWith_iff] at hstar'
    obtain ⟨x, rfl⟩ := hstar'
    have htake : (x ++ bytes "*").take ((x ++ bytes "*").length - 1) = x := by
      rw [List.length_append]
      exact List.take_left
    rw [htake]
    constructor
    · intro hmatches
      exact .inr (.inl ⟨hstar, x, rfl, hmatches⟩)
    · rintro (⟨y, hy, -⟩ | ⟨-, y, hy, hmatches⟩ | ⟨-, hnot, -⟩)
      · exact absurd ⟨y, hy.symm⟩ hstar
      · rw [List.append_cancel_right hy]
        exact hmatches
      · exact absurd (List.suffix_append _ _) hnot
  · rw [startsWith_iff] at hstar
    rw [endsWith_iff] at hstar'
    constructor
    · intro hmatches
      exact .inr (.inr ⟨hstar, hstar', hmatches⟩)
    · rintro (⟨y, hy, -⟩ | ⟨-, y, hy, -⟩ | ⟨-, -, hmatches⟩)
      · exact absurd ⟨y, hy.symm⟩ hstar
      · exact absurd ⟨y, hy.symm⟩ hstar'
      · exact hmatches

theorem appliesToHost_iff {entries : List Bytes} {authority : Bytes}
    (hhosts : rule.hosts = entries.map hostPattern) : rule.AppliesToHost authority ↔
      entries = [] ∨ ∃ entry ∈ entries, HostEntryMatches entry (stripPort authority) := by
  unfold BasicAuthConfigRule.AppliesToHost
  rw [hhosts, List.map_eq_nil_iff]
  refine or_congr Iff.rfl ?_
  constructor
  · rintro ⟨host, hmem, hmatches⟩
    obtain ⟨entry, hentry, rfl⟩ := List.mem_map.1 hmem
    exact ⟨entry, hentry, hostPattern_matches.1 hmatches⟩
  · rintro ⟨entry, hentry, hmatches⟩
    exact ⟨hostPattern entry, List.mem_map_of_mem hentry, hostPattern_matches.2 hmatches⟩

/-! ### Reading the fields -/

/-- A visitor that appends what `f` makes of each string, and accepts nothing else. -/
def Appending {T : Type} (f : Bytes → T) (visitor : Json → List T → Bool × List T) : Prop :=
  ∀ j ts, visitor j ts =
    match asString j with
    | some s => (true, ts ++ [f s])
    | none => (false, ts)

theorem appending_visitHost : Appending hostPattern visitHost := by
  intro j ts
  cases j <;> rfl

theorem appending_visitMethod : Appending id visitMethod := by
  intro j ts
  cases j <;> rfl

theorem iterate_appending {T : Type} {f : Bytes → T} {visitor : Json → List T → Bool × List T}
    {elements : List Json} {ts ts' : List T} (hvisitor : Appending f visitor)
    (h : iterate visitor elements ts = (true, ts')) :
    ts' = ts ++ (elements.filterMap asString).map f := by
  induction elements generalizing ts with
  | nil =>
    rw [← (Prod.mk.inj h).2]
    simp
  | cons j elements ih =>
    have hvisit := hvisitor j ts
    cases hj : asString j with
    | none =>
      rw [hj] at hvisit
      rw [iterate_cons_of_false hvisit] at h
      cases h
    | some s =>
      rw [hj] at hvisit
      rw [iterate_cons_of_true hvisit] at h
      rw [ih h, List.filterMap_cons_some hj]
      simp

theorem jsonArrayIterate_appending {T : Type} {f : Bytes → T}
    {visitor : Json → List T → Bool × List T} {ts : List T} (hvisitor : Appending f visitor)
    (h : jsonArrayIterate configuration field visitor [] = (true, ts)) :
    ts = (stringsOf configuration field).map f := by
  unfold jsonArrayIterate at h
  unfold stringsOf
  split at h
  · rename_i hfind
    rw [hfind, ← (Prod.mk.inj h).2]; rfl
  · rename_i elements hfind
    rw [hfind, iterate_appending hvisitor h]; rfl
  · cases h

theorem pathField_eq_some {count count' : ℕ}
    (h : pathField configuration field count = some (count', text)) :
    configuration.find field = none ∧ count' = count ∧ text = [] ∨
      configuration.find field = some (.string text) ∧ count' = count + 1 := by
  unfold pathField at h
  split at h
  · rename_i hfind
    obtain ⟨rfl, rfl⟩ := Prod.mk.inj (Option.some.inj h)
    exact .inl ⟨hfind, rfl, rfl⟩
  · rename_i value hfind
    cases value with
    | string s =>
      obtain ⟨rfl, rfl⟩ := Prod.mk.inj (Option.some.inj h)
      exact .inr ⟨hfind, rfl⟩
    | null => cases h
    | boolean b => cases h
    | number n => cases h
    | array elements => cases h
    | object fields => cases h

/-- The pattern that is set for a text is of the kind of its field, unless the text is empty. -/
theorem pathPattern_eq :
    pathPattern uninitialized text [] [] =
        (if text = [] then uninitialized else some .Prefix, text) ∧
      pathPattern uninitialized [] text [] =
        (if text = [] then uninitialized else some .Exact, text) ∧
      pathPattern uninitialized [] [] text =
        (if text = [] then uninitialized else some .Suffix, text) := by
  cases text <;> exact ⟨rfl, rfl, rfl⟩

/-- What is known of a rule that is not rejected. -/
theorem parseRule_eq_some (h : parseRule uninitialized configuration = some (methods, rule)) :
    ∃ m text, ConfiguredPath configuration m text ∧
      (∀ m', m' ≠ m → configuration.find m'.field = none) ∧
      rule.pathPattern = (if text = [] then uninitialized else some m) ∧
      rule.requestPath = text ∧
      rule.hosts = (stringsOf configuration (bytes "hosts")).map hostPattern ∧
      methods = stringsOf configuration (bytes "request_methods") ∧ methods ≠ [] := by
  unfold parseRule at h
  obtain ⟨⟨count, start⟩, hstart, h⟩ := Option.bind_eq_some_iff.1 h
  obtain ⟨⟨count', exact⟩, hexact, h⟩ := Option.bind_eq_some_iff.1 h
  obtain ⟨⟨count'', ending⟩, hending, h⟩ := Option.bind_eq_some_iff.1 h
  dsimp only at hexact hending h
  split_ifs at h with hcount
  split at h
  · cases h
  · rename_i hosts hhosts
    split at h
    · cases h
    · rename_i methods' hmethods
      split_ifs at h with hempty
      split at h
      · cases h
      · rename_i credentials _
        split_ifs at h with hcredentials
        obtain ⟨rfl, rfl⟩ := Prod.mk.inj (Option.some.inj h)
        have hhosts' := jsonArrayIterate_appending appending_visitHost hhosts
        have hmethods' := jsonArrayIterate_appending appending_visitMethod hmethods
        rw [List.map_id] at hmethods'
        have hne : methods' ≠ [] := fun hnil => hempty (List.isEmpty_iff.2 hnil)
        -- Exactly one of the three fields is there.
        rcases pathField_eq_some hstart with ⟨hp, hc, rfl⟩ | ⟨hp, hc⟩ <;>
          rcases pathField_eq_some hexact with ⟨he, hc', rfl⟩ | ⟨he, hc'⟩ <;>
          rcases pathField_eq_some hending with ⟨hs, hc'', rfl⟩ | ⟨hs, hc''⟩ <;>
          try omega
        · refine ⟨.Suffix, ending, hs, fun m hm => ?_, ?_, ?_, hhosts', hmethods', hne⟩
          · cases m with
            | Prefix => exact hp
            | Exact => exact he
            | Suffix => exact absurd rfl hm
          · rw [pathPattern_eq.2.2]
          · rw [pathPattern_eq.2.2]
        · refine ⟨.Exact, exact, he, fun m hm => ?_, ?_, ?_, hhosts', hmethods', hne⟩
          · cases m with
            | Prefix => exact hp
            | Exact => exact absurd rfl hm
            | Suffix => exact hs
          · rw [pathPattern_eq.2.1]
          · rw [pathPattern_eq.2.1]
        · refine ⟨.Prefix, start, hp, fun m hm => ?_, ?_, ?_, hhosts', hmethods', hne⟩
          · cases m with
            | Prefix => exact absurd rfl hm
            | Exact => exact he
            | Suffix => exact hs
          · rw [pathPattern_eq.1]
          · rw [pathPattern_eq.1]

/-- Whether a rule is rejected does not depend on the field that is not initialized. -/
theorem parseRule_isSome (uninitialized' : Option MatchType) :
    (parseRule uninitialized configuration).isSome =
      (parseRule uninitialized' configuration).isSome := by
  unfold parseRule
  cases pathField configuration (bytes "prefix") 0 with
  | none => rfl
  | some start =>
    obtain ⟨count, start⟩ := start
    simp only [Option.bind_some]
    cases pathField configuration (bytes "exact") count with
    | none => rfl
    | some exact =>
      obtain ⟨count', exact⟩ := exact
      simp only [Option.bind_some]
      cases pathField configuration (bytes "suffix") count' with
      | none => rfl
      | some ending =>
        obtain ⟨count'', ending⟩ := ending
        simp only [Option.bind_some]
        by_cases hcount : count'' ≠ 1
        · rw [if_pos hcount, if_pos hcount]
        · rw [if_neg hcount, if_neg hcount]
          rcases jsonArrayIterate configuration (bytes "hosts") visitHost [] with ⟨_ | _, hosts⟩
          · rfl
          rcases jsonArrayIterate configuration (bytes "request_methods") visitMethod [] with
            ⟨_ | _, methods⟩
          · rfl
          dsimp only
          by_cases hempty : methods.isEmpty
          · rw [if_pos hempty, if_pos hempty]
          · rw [if_neg hempty, if_neg hempty]
            rcases jsonArrayIterate configuration (bytes "credentials") visitCredential [] with
              ⟨_ | _, credentials⟩
            · rfl
            dsimp only
            by_cases hcredentials : credentials.isEmpty
            · rw [if_pos hcredentials, if_pos hcredentials]
            · rw [if_neg hcredentials, if_neg hcredentials]; rfl

/-! ### The table -/

/-- A rule is pushed under each of its methods. -/
theorem foldl_pushRule : (methods.foldl (pushRule rule) rules) method =
    if method ∈ methods then
      some ((rules method).getD [] ++ List.replicate (methods.count method) rule)
    else rules method := by
  induction methods generalizing rules with
  | nil => rfl
  | cons method' methods ih =>
    rw [List.foldl_cons, ih]
    by_cases hmethod : method' = method
    · subst hmethod
      have hpush : pushRule rule rules method' method' = some ((rules method').getD [] ++ [rule]) :=
        if_pos rfl
      rw [hpush, if_pos List.mem_cons_self, List.count_cons_self, List.replicate_succ]
      split_ifs with hmem
      · simp
      · simp [List.count_eq_zero.2 hmem]
    · have hpush : pushRule rule rules method' method = rules method := if_neg (Ne.symm hmethod)
      rw [hpush, List.count_cons_of_ne hmethod]
      simp [List.mem_cons, Ne.symm hmethod]

theorem extractBasicAuthRule_fst : (extractBasicAuthRule uninitialized configuration rules).1 =
    (parseRule uninitialized configuration).isSome := by
  unfold extractBasicAuthRule
  cases parseRule uninitialized configuration <;> rfl

theorem appendedTo_extractBasicAuthRule
    (h : parseRule uninitialized configuration = some (methods, rule)) :
    AppendedTo rules (extractBasicAuthRule uninitialized configuration rules).2 configuration
      rule := by
  intro method hmem
  obtain ⟨-, -, -, -, -, -, -, rfl, -⟩ := parseRule_eq_some h
  simp only [extractBasicAuthRule, h]
  rw [foldl_pushRule, if_pos hmem]

/-- What has been appended is the last rule under each method. -/
theorem AppendedTo.eq {rules' : RuleTable} {rule' : BasicAuthConfigRule}
    (h : AppendedTo rules rules' configuration rule)
    (h' : AppendedTo rules rules' configuration rule')
    (hmethods : stringsOf configuration (bytes "request_methods") ≠ []) : rule = rule' := by
  obtain ⟨method, hmem⟩ := List.exists_mem_of_ne_nil _ hmethods
  have heq := Option.some.inj ((h method hmem).symm.trans (h' method hmem))
  have hcount := List.count_pos_iff.2 hmem
  exact List.replicate_right_injective (Nat.pos_iff_ne_zero.1 hcount)
    (List.append_cancel_left heq)

/-- A rule without a pattern does not mean what its configuration says. -/
theorem not_meansWhatItSays (hconfigured : ConfiguredPath configuration m [])
    (hpattern : rule.pathPattern = none) : ¬ MeansWhatItSays configuration rule := by
  intro hmeans
  have hmatches : m.Matches [] [] := by
    cases m with
    | Prefix => exact List.prefix_refl _
    | Exact => rfl
    | Suffix => exact List.suffix_refl _
  obtain ⟨m', hm', -⟩ := (hmeans.path m [] hconfigured []).2 hmatches
  rw [hpattern] at hm'
  cases hm'

/-- There is only one pattern. -/
theorem ConfiguredPath.eq {m' : MatchType} {text' : Bytes}
    (h : ConfiguredPath configuration m text)
    (honly : ∀ m', m' ≠ m → configuration.find m'.field = none)
    (h' : ConfiguredPath configuration m' text') : m' = m ∧ text' = text := by
  obtain rfl : m' = m := by
    by_contra hm
    have hnone := honly m' hm
    rw [h'] at hnone
    cases hnone
  exact ⟨rfl, Json.string.inj (Option.some.inj (h'.symm.trans h))⟩

/-- A rule with the only configured pattern is for the paths that match it. -/
theorem appliesToPath_iff {m' : MatchType} {text' : Bytes}
    (hconfigured : ConfiguredPath configuration m text)
    (honly : ∀ m', m' ≠ m → configuration.find m'.field = none)
    (hpattern : rule.pathPattern = some m) (hpath : rule.requestPath = text)
    (h' : ConfiguredPath configuration m' text') (path : Bytes) :
    rule.AppliesToPath path ↔ m'.Matches text' path := by
  obtain ⟨rfl, rfl⟩ := hconfigured.eq honly h'
  unfold BasicAuthConfigRule.AppliesToPath
  rw [hpattern, hpath]
  constructor
  · rintro ⟨m, hm, hmatches⟩
    cases hm
    exact hmatches
  · intro hmatches
    exact ⟨_, rfl, hmatches⟩

/-- **When a rule means what its configuration says**: for every content of the field that is not
initialized, the rule that is appended is for the configured paths and hosts, if and only if the
text of the configured pattern is not empty. -/
theorem rule_means_what_it_says_iff (configuration : Json) (rules : RuleTable)
    (haccepted : (extractBasicAuthRule none configuration rules).1 = true) :
    (∀ uninitialized, ∃ rule, AppendedTo rules
        (extractBasicAuthRule uninitialized configuration rules).2 configuration rule ∧
        MeansWhatItSays configuration rule) ↔
      ∃ m text, ConfiguredPath configuration m text ∧ text ≠ [] := by
  rw [extractBasicAuthRule_fst] at haccepted
  have hparse : ∀ uninitialized, ∃ methods rule,
      parseRule uninitialized configuration = some (methods, rule) := by
    intro uninitialized
    rw [parseRule_isSome uninitialized] at haccepted
    obtain ⟨⟨methods, rule⟩, h⟩ := Option.isSome_iff_exists.1 haccepted
    exact ⟨methods, rule, h⟩
  constructor
  · intro hmeans
    obtain ⟨rule, hrule, hmeans⟩ := hmeans none
    obtain ⟨methods, rule', h⟩ := hparse none
    have hrule' : AppendedTo rules _ configuration rule' := appendedTo_extractBasicAuthRule h
    obtain ⟨m, text, hconfigured, -, hpattern, htext, -, rfl, hmethods⟩ := parseRule_eq_some h
    obtain rfl := hrule.eq hrule' hmethods
    refine ⟨m, text, hconfigured, fun hempty => ?_⟩
    rw [if_pos hempty] at hpattern
    exact not_meansWhatItSays (hempty ▸ hconfigured) hpattern hmeans
  · rintro ⟨m, text, hconfigured, hne⟩ uninitialized
    obtain ⟨methods, rule, h⟩ := hparse uninitialized
    refine ⟨rule, appendedTo_extractBasicAuthRule h, ?_⟩
    obtain ⟨m', text', hconfigured', honly, hpattern, hpath, hhosts, -, -⟩ := parseRule_eq_some h
    obtain ⟨rfl, rfl⟩ := hconfigured'.eq honly hconfigured
    rw [if_neg hne] at hpattern
    exact ⟨fun m' text' h' path => appliesToPath_iff hconfigured honly hpattern hpath h' path,
      fun authority => appliesToHost_iff hhosts⟩

/-- A rule for all credentials of `ok`, with one field for the path. -/
def sampleRule (m : MatchType) (text : Bytes) : Json :=
  .object [(bytes "credentials", .array [.string (bytes "ok:test")]), (m.field, .string text),
    (bytes "hosts", .array [.string (bytes "*.foo.com")]),
    (bytes "request_methods", .array [.string (bytes "GET")])]

theorem rule_means_what_it_says_prefix :
    (extractBasicAuthRule none (sampleRule .Prefix (bytes "/api")) fun _ => none).1 = true ∧
    ∀ uninitialized, ∃ rule, AppendedTo (fun _ => none)
        (extractBasicAuthRule uninitialized (sampleRule .Prefix (bytes "/api")) fun _ => none).2
        (sampleRule .Prefix (bytes "/api")) rule ∧
      MeansWhatItSays (sampleRule .Prefix (bytes "/api")) rule := by
  have haccepted :
      (extractBasicAuthRule none (sampleRule .Prefix (bytes "/api")) fun _ => none).1 = true := by
    decide
  exact ⟨haccepted, (rule_means_what_it_says_iff _ _ haccepted).2
    ⟨.Prefix, bytes "/api", rfl, by decide⟩⟩

/-- A rule for the empty prefix is accepted, but it may be for no path at all. -/
theorem empty_prefix_unprotected :
    (extractBasicAuthRule none (sampleRule .Prefix []) fun _ => none).1 = true ∧
    ¬ ∃ rule, AppendedTo (fun _ => none)
        (extractBasicAuthRule none (sampleRule .Prefix []) fun _ => none).2
        (sampleRule .Prefix []) rule ∧ MeansWhatItSays (sampleRule .Prefix []) rule := by
  refine ⟨by decide, ?_⟩
  rintro ⟨rule, happended, hmeans⟩
  have hmem : bytes "GET" ∈ stringsOf (sampleRule .Prefix []) (bytes "request_methods") := by
    decide
  have htable : (extractBasicAuthRule none (sampleRule .Prefix []) fun _ => none).2 (bytes "GET") =
      some [⟨[], none, [(.Suffix, bytes ".foo.com")], [bytes "b2s6dGVzdA=="]⟩] := by
    decide
  have hrule : [rule] = [⟨[], none, [(.Suffix, bytes ".foo.com")], [bytes "b2s6dGVzdA=="]⟩] :=
    Option.some.inj ((happended _ hmem).symm.trans htable)
  have hpath := (hmeans.path .Prefix [] rfl []).2 (List.prefix_refl _)
  obtain ⟨m, hm, -⟩ := hpath
  rw [(List.cons.inj hrule).1] at hm
  cases hm

end BasicAuth

end WasmExtensions
