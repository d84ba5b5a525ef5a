import WasmExtensions.BasicAuth.Decision

/-!
# Query strings

The patterns are matched against the whole `:path`, which includes the query.  A prefix pattern
that matches a path also matches the path with any query.  An exact or a suffix pattern does not,
so a query lets a request pass unless some other rule demands its credentials
(`denied_with_query_iff`).
-/

namespace WasmExtensions

namespace BasicAuth

/-- The same request with a query. -/
def Request.withQuery (request : Request) (q : Bytes) : Request :=
  { request with path := request.path ++ bytes "?" ++ q }

namespace BasicAuthConfigRule

/-- The pattern of the rule is about the query, and matches the path with the query `q`. -/
def ReachesInto (rule : BasicAuthConfigRule) (path q : Bytes) : Prop :=
  match rule.pathPattern with
  | some .Prefix => ∃ r, rule.requestPath = path ++ bytes "?" ++ r ∧ r <+: q
  | some .Exact => rule.requestPath = path ++ bytes "?" ++ q
  | some .Suffix =>
    rule.requestPath <:+ q ∨ ∃ s, s <:+ path ∧ rule.requestPath = s ++ bytes "?" ++ q
  | none => False

end BasicAuthConfigRule

/-- A rule of the request's method, for its host, that does not accept its credentials. -/
def Demanding (table : RuleTable) (request : Request) (rule : BasicAuthConfigRule) : Prop :=
  (∃ rules, table request.method = some rules ∧ rule ∈ rules) ∧
    rule.AppliesToHost request.authority ∧ ¬ rule.Accepts request.authorization

variable {table : RuleTable} {request : Request} {rule : BasicAuthConfigRule}
  {path q text : Bytes}

theorem denied_iff : Denied table request ↔
    ∃ rule, Demanding table request rule ∧ rule.AppliesToPath request.path := by
  constructor
  · rintro ⟨rules, hrules, rule, hmem, ⟨hhost, hpath⟩, haccepts⟩
    exact ⟨rule, ⟨⟨rules, hrules, hmem⟩, hhost, haccepts⟩, hpath⟩
  · rintro ⟨rule, ⟨⟨rules, hrules, hmem⟩, hhost, haccepts⟩, hpath⟩
    exact ⟨rules, hrules, rule, hmem, ⟨hhost, hpath⟩, haccepts⟩

/-- A prefix of a concatenation is a prefix of the first part, or reaches into the second. -/
theorem prefix_append_iff {a b : Bytes} :
    text <+: a ++ b ↔ text <+: a ∨ ∃ r, text = a ++ r ∧ r <+: b := by
  constructor
  · intro h
    rcases List.prefix_or_prefix_of_prefix h (List.prefix_append a b) with h' | ⟨r, rfl⟩
    · exact .inl h'
    · exact .inr ⟨r, rfl, (List.prefix_append_right_inj a).1 h⟩
  · rintro (h | ⟨r, rfl, h⟩)
    · exact h.trans (List.prefix_append a b)
    · exact (List.prefix_append_right_inj a).2 h

theorem suffix_append_iff {a b : Bytes} :
    text <:+ a ++ b ↔ text <:+ b ∨ ∃ s, s <:+ a ∧ text = s ++ b := by
  constructor
  · intro h
    rcases List.suffix_or_suffix_of_suffix h (List.suffix_append a b) with h' | ⟨s, rfl⟩
    · exact .inl h'
    · exact .inr ⟨s, List.suffix_append_self_iff.1 h, rfl⟩
  · rintro (h | ⟨s, h, rfl⟩)
    · exact h.trans (List.suffix_append a b)
    · exact List.suffix_append_self_iff.2 h

theorem prefix_query_iff : text <+: path ++ bytes "?" ++ q ↔
    text <+: path ∨ ∃ r, text = path ++ bytes "?" ++ r ∧ r <+: q := by
  have hmark : bytes "?" = ['?'.toUInt8] := rfl
  rw [prefix_append_iff, prefix_append_iff]
  constructor
  · rintro ((h | ⟨r, rfl, h⟩) | h)
    · exact .inl h
    · -- A prefix of a text of one character is empty or the text itself.
      rw [hmark] at h ⊢
      rcases List.prefix_cons_iff.1 h with rfl | ⟨r', rfl, h'⟩
      · exact .inl (by simp)
      · rw [List.prefix_nil.1 h']
        exact .inr ⟨[], by simp, List.nil_prefix⟩
    · exact .inr h
  · rintro (h | h)
    · exact .inl (.inl h)
    · exact .inr h

theorem suffix_query_iff : text <:+ path ++ bytes "?" ++ q ↔
    text <:+ q ∨ ∃ s, s <:+ path ∧ text = s ++ bytes "?" ++ q := by
  have hmark : bytes "?" = ['?'.toUInt8] := rfl
  rw [suffix_append_iff]
  constructor
  · rintro (h | ⟨s, h, rfl⟩)
    · exact .inl h
    · rcases suffix_append_iff.1 h with h' | ⟨s', h', rfl⟩
      · rw [hmark] at h'
        rcases List.suffix_cons_iff.1 h' with rfl | h'
        · exact .inr ⟨[], List.nil_suffix, rfl⟩
        · rw [List.suffix_nil.1 h']
          exact .inl (List.suffix_refl q)
      · exact .inr ⟨s', h', rfl⟩
  · rintro (h | ⟨s, h, rfl⟩)
    · exact .inl h
    · exact .inr ⟨s ++ bytes "?", suffix_append_iff.2 (.inr ⟨s, h, rfl⟩), rfl⟩

/-- A rule that is for the path with the query is a prefix rule for the path, or its pattern is
about the query. -/
theorem appliesToPath_withQuery : rule.AppliesToPath (path ++ bytes "?" ++ q) ↔
    (rule.pathPattern = some .Prefix ∧ rule.AppliesToPath path) ∨ rule.ReachesInto path q := by
  unfold BasicAuthConfigRule.AppliesToPath BasicAuthConfigRule.ReachesInto
  cases rule.pathPattern with
  | none => simp
  | some m =>
    simp only [Option.some.injEq, exists_eq_left']
    cases m with
    | Prefix => simpa [MatchType.Matches] using prefix_query_iff
    | Exact => simp [MatchType.Matches, eq_comm]
    | Suffix => simpa [MatchType.Matches] using suffix_query_iff

/-- **When a query cannot bypass basic auth**: the request with the query is denied if and only if
a rule that denies the request has a prefix pattern, or a rule that demands credentials has a
pattern about the query. -/
theorem denied_with_query_iff (realm : Bytes) (table : RuleTable) (request : Request) (q : Bytes) :
    (check realm table (request.withQuery q)).1 = .StopIteration ↔
      (∃ rule, Demanding table request rule ∧ rule.pathPattern = some .Prefix ∧
        rule.AppliesToPath request.path) ∨
      ∃ rule, Demanding table request rule ∧ rule.ReachesInto request.path q := by
  rw [check_stop_iff realm, denied_iff, ← exists_or]
  refine exists_congr fun rule => ?_
  have hdemanding : Demanding table (request.withQuery q) rule ↔ Demanding table request rule :=
    Iff.rfl
  have hpath : rule.AppliesToPath (request.withQuery q).path ↔
      (rule.pathPattern = some .Prefix ∧ rule.AppliesToPath request.path) ∨
        rule.ReachesInto request.path q := appliesToPath_withQuery
  rw [hdemanding, hpath, and_or_left]

/-- Only `/admin` itself is protected. -/
def sampleTable : RuleTable := fun method =>
  if method = bytes "GET" then
    some [⟨bytes "/admin", some .Exact, [], [bytes "b2s6dGVzdA=="]⟩]
  else none

def sampleAdmin : Request := ⟨bytes "GET", bytes "foo.com", bytes "/admin", []⟩

/-- A request is denied, and passes with an empty query. -/
theorem query_bypasses : ¬ ∀ (realm : Bytes) (table : RuleTable) (request : Request) (q : Bytes),
    '?'.toUInt8 ∉ request.path → (check realm table request).1 = .StopIteration →
      (check realm table (request.withQuery q)).1 = .StopIteration := by
  intro h
  have hdenied := h (bytes "istio") sampleTable sampleAdmin [] (by decide) (by decide)
  exact absurd hdenied (by decide)

end BasicAuth

end WasmExtensions
