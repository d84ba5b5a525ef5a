import WasmExtensions.BasicAuth.Configure

/-!
# The two spellings of a credential

A credential is configured as `user:password` or in base64.  The first spelling is stored as its
padded encoding, the second as it is, and the header of a request is compared with what is stored.
So the spellings mean the same only for the base64 texts that carry the padding that clients send.

* `storedCredential` : what is stored for an entry of `credentials`.
* `spellings_equivalent_iff` : **a base64 spelling accepts the same headers as the plain one
  exactly if its length is a multiple of four**, unless the rule has both texts anyway.
-/

namespace WasmExtensions

namespace BasicAuth

/-- What is stored for an entry of `credentials`; `none` if it is rejected. -/
def storedCredential (credential : Json) : Option Bytes :=
  match jsonValueAsString credential with
  | (some credential, .OK) =>
    if ':'.toUInt8 ∈ credential then some (Base64.encode credential true)
    else if !(Base64.decodeWithoutPadding credential).isEmpty then some credential
    else none
  | _ => none

/-- The header is accepted by the rule. -/
def Accepts (realm : Bytes) (rule : BasicAuthConfigRule) (authorizationHeader : Bytes) : Prop :=
  credentialsCheck realm rule authorizationHeader = (.Continue, [])

variable {credentials credentials' : List Bytes} {x : Bytes}

theorem mem_insertCredential {c : Bytes} :
    x ∈ insertCredential c credentials ↔ x = c ∨ x ∈ credentials := by
  unfold insertCredential
  split_ifs with h
  · exact ⟨.inr, fun hx => hx.elim (fun hc => hc ▸ h) id⟩
  · rw [List.mem_append, List.mem_singleton, or_comm]

theorem visitCredential_eq (credential : Json) (credentials : List Bytes) :
    visitCredential credential credentials =
      match storedCredential credential with
      | some c => (true, insertCredential c credentials)
      | none => (false, credentials) := by
  unfold visitCredential storedCredential
  rcases jsonValueAsString credential with ⟨_ | text, result⟩
  · rfl
  · cases result <;> try rfl
    dsimp only
    split_ifs <;> rfl

/-- The visits succeed if every entry is accepted, and then the set has what is stored for them. -/
theorem iterate_visitCredential (elements : List Json) :
    ((iterate visitCredential elements credentials).1 = true ↔
      ∀ e ∈ elements, (storedCredential e).isSome) ∧
    ((∀ e ∈ elements, (storedCredential e).isSome) → ∀ x,
      x ∈ (iterate visitCredential elements credentials).2 ↔
        x ∈ credentials ∨ ∃ e ∈ elements, storedCredential e = some x) := by
  induction elements generalizing credentials with
  | nil => simp [iterate]
  | cons e elements ih =>
    cases he : storedCredential e with
    | none =>
      have hvisit : visitCredential e credentials = (false, credentials) := by
        rw [visitCredential_eq, he]
      rw [iterate_cons_of_false hvisit]
      simp [he]
    | some c =>
      have hvisit : visitCredential e credentials = (true, insertCredential c credentials) := by
        rw [visitCredential_eq, he]
      obtain ⟨hfirst, hmem⟩ := @ih (insertCredential c credentials)
      rw [iterate_cons_of_true hvisit]
      refine ⟨by rw [hfirst]; simp [he], fun hall x => ?_⟩
      rw [hmem (fun e' he' => hall e' (List.mem_cons_of_mem _ he')), mem_insertCredential]
      simp only [List.mem_cons, exists_eq_or_imp, he, Option.some.injEq]
      rw [or_assoc, or_left_comm, eq_comm]

/-! ### Rules that differ in their credentials -/

section

variable {uninitialized : Option MatchType} {j j' : Json} {methods : List Bytes}
  {rule : BasicAuthConfigRule} {elements elements' : List Json}

theorem pathField_congr {field : Bytes} (h : j'.find field = j.find field) (count : ℕ) :
    pathField j' field count = pathField j field count := by
  unfold pathField
  rw [h]

theorem jsonArrayIterate_congr {S : Type} {field : Bytes} {visitor : Json → S → Bool × S} {s : S}
    (h : j'.find field = j.find field) :
    jsonArrayIterate j' field visitor s = jsonArrayIterate j field visitor s := by
  unfold jsonArrayIterate
  rw [h]

/-- Only the set of credentials of a rule depends on its field `credentials`. -/
theorem parseRule_credentials
    (hsame : ∀ field, field ≠ bytes "credentials" → j'.find field = j.find field)
    (h : j.find (bytes "credentials") = some (.array elements))
    (h' : j'.find (bytes "credentials") = some (.array elements'))
    (hrule : parseRule uninitialized j = some (methods, rule)) :
    (iterate visitCredential elements []).1 = true ∧
      rule.encodedCredentials = (iterate visitCredential elements []).2 ∧
      ((iterate visitCredential elements' []).1 = true →
        (iterate visitCredential elements' []).2 ≠ [] →
        parseRule uninitialized j' = some (methods,
          { rule with encodedCredentials := (iterate visitCredential elements' []).2 })) := by
  have hfield : jsonArrayIterate j (bytes "credentials") visitCredential [] =
      iterate visitCredential elements [] := by
    rw [jsonArrayIterate, h]
  have hfield' : jsonArrayIterate j' (bytes "credentials") visitCredential [] =
      iterate visitCredential elements' [] := by
    rw [jsonArrayIterate, h']
  unfold parseRule at hrule ⊢
  simp only [pathField_congr (hsame (bytes "prefix") (by decide)),
    pathField_congr (hsame (bytes "exact") (by decide)),
    pathField_congr (hsame (bytes "suffix") (by decide)),
    jsonArrayIterate_congr (hsame (bytes "hosts") (by decide)),
    jsonArrayIterate_congr (hsame (bytes "request_methods") (by decide)), hfield']
  rw [hfield] at hrule
  obtain ⟨⟨count, start⟩, hstart, hrule⟩ := Option.bind_eq_some_iff.1 hrule
  obtain ⟨⟨count', exact⟩, hexact, hrule⟩ := Option.bind_eq_some_iff.1 hrule
  obtain ⟨⟨count'', ending⟩, hending, hrule⟩ := Option.bind_eq_some_iff.1 hrule
  dsimp only at hexact hending hrule
  simp only [hstart, hexact, hending, Option.bind_some]
  split_ifs at hrule with hcount
  rw [if_neg hcount]
  split at hrule
  · cases hrule
  · split at hrule
    · cases hrule
    · split_ifs at hrule with hempty
      rw [if_neg hempty]
      split at hrule
      · cases hrule
      · rename_i credentials hcredentials
        split_ifs at hrule with hnone
        obtain ⟨rfl, rfl⟩ := Prod.mk.inj (Option.some.inj hrule)
        rw [hcredentials]
        refine ⟨rfl, rfl, fun hvisited hne => ?_⟩
        have hpair : iterate visitCredential elements' [] =
            (true, (iterate visitCredential elements' []).2) := Prod.ext hvisited rfl
        rw [hpair]
        dsimp only
        rw [if_neg fun hnil => hne (List.isEmpty_iff.1 hnil)]

end

/-- A header is accepted if it is one of the stored texts after `Basic `. -/
theorem accepts_iff {realm : Bytes} {rule : BasicAuthConfigRule} {header : Bytes} :
    Accepts realm rule header ↔ startsWith header (bytes "Basic ") = true ∧
      header.drop (bytes "Basic ").length ∈ rule.encodedCredentials := by
  unfold Accepts credentialsCheck
  cases startsWith header (bytes "Basic ") with
  | false => simp
  | true =>
    simp only [Bool.not_true, Bool.false_eq_true, if_false, true_and]
    split_ifs with h <;> simp [h]

theorem accepts_basic_iff {realm : Bytes} {rule : BasicAuthConfigRule} :
    Accepts realm rule (bytes "Basic " ++ x) ↔ x ∈ rule.encodedCredentials := by
  rw [accepts_iff, List.drop_left']
  · exact and_iff_right (by simp [startsWith])
  · rfl

/-- Two texts added to one set give the same set if they are the same or are in it anyway. -/
theorem forall_mem_iff {b e : Bytes} {others : List Bytes} :
    (∀ x, x = b ∨ x ∈ others ↔ x = e ∨ x ∈ others) ↔ b = e ∨ b ∈ others ∧ e ∈ others := by
  constructor
  · intro h
    rcases (h b).1 (.inl rfl) with hbe | hb
    · exact .inl hbe
    · rcases (h e).2 (.inl rfl) with heb | he
      · exact .inl heb.symm
      · exact .inr ⟨hb, he⟩
  · rintro (rfl | ⟨hb, he⟩) x
    · exact Iff.rfl
    · constructor
      · rintro (rfl | hx)
        · exact .inr hb
        · exact .inr hx
      · rintro (rfl | hx)
        · exact .inr he
        · exact .inr hx

/-! ### The two spellings -/

theorem storedCredential_plain {s : Bytes} (hcolon : ':'.toUInt8 ∈ s) :
    storedCredential (.string s) = some (Base64.encode s true) := by
  simp only [storedCredential, jsonValueAsString, if_pos hcolon]

theorem storedCredential_base64 {b : Bytes} (hcolon : ':'.toUInt8 ∉ b)
    (hdecode : Base64.decodeWithoutPadding b ≠ []) : storedCredential (.string b) = some b := by
  have hne : (!(Base64.decodeWithoutPadding b).isEmpty) = true := by
    simpa using hdecode
  simp only [storedCredential, jsonValueAsString, if_neg hcolon, if_pos hne]

/-- The texts stored for the entries around one entry, and the text stored for that one. -/
theorem iterate_visitCredential_middle {before after : List Json} {e : Json} {c : Bytes}
    (hothers : ∀ e ∈ before ++ after, (storedCredential e).isSome)
    (he : storedCredential e = some c) :
    (iterate visitCredential (before ++ e :: after) []).1 = true ∧ ∀ x,
      x ∈ (iterate visitCredential (before ++ e :: after) []).2 ↔
        x = c ∨ x ∈ (iterate visitCredential (before ++ after) []).2 := by
  have hall : ∀ e' ∈ before ++ e :: after, (storedCredential e').isSome := by
    intro e' he'
    rcases List.mem_cons.1 (List.perm_middle.mem_iff.1 he') with rfl | he'
    · rw [he]
      rfl
    · exact hothers e' he'
  refine ⟨(iterate_visitCredential _).1.2 hall, fun x => ?_⟩
  rw [(iterate_visitCredential _).2 hall, (iterate_visitCredential _).2 hothers]
  have hmem (e' : Json) : e' ∈ before ++ e :: after ↔ e' = e ∨ e' ∈ before ++ after := by
    rw [List.perm_middle.mem_iff, List.mem_cons]
  simp only [hmem, List.not_mem_nil, false_or, or_and_right, exists_or, exists_eq_left, he,
    Option.some.injEq]
  rw [eq_comm]

/-- **A base64 spelling of a credential accepts the same headers as the plain one, among them the
one that clients send, exactly if its length is a multiple of four**, or if the rule has both
stored texts for other entries. -/
theorem spellings_equivalent_iff {uninitialized : Option MatchType} {j j' : Json}
    {before after : List Json} {b s : Bytes} {methods : List Bytes} {rule : BasicAuthConfigRule}
    (hsame : ∀ field, field ≠ bytes "credentials" → j'.find field = j.find field)
    (hb : j.find (bytes "credentials") = some (.array (before ++ .string b :: after)))
    (hs : j'.find (bytes "credentials") = some (.array (before ++ .string s :: after)))
    (hplain : ':'.toUInt8 ∈ s) (hbase64 : ':'.toUInt8 ∉ b)
    (hdecode : Base64.decodeWithoutPadding b = s)
    (hrule : parseRule uninitialized j = some (methods, rule)) :
    ∃ rule', parseRule uninitialized j' = some (methods, rule') ∧
      { rule' with encodedCredentials := rule.encodedCredentials } = rule ∧
      ∀ realm, ((∀ header, Accepts realm rule header ↔ Accepts realm rule' header) ∧
        Accepts realm rule (bytes "Basic " ++ Base64.encode s true) ∧
        Accepts realm rule' (bytes "Basic " ++ Base64.encode s true)) ↔
      b.length % 4 = 0 ∨ b ∈ (iterate visitCredential (before ++ after) []).2 ∧
        Base64.encode s true ∈ (iterate visitCredential (before ++ after) []).2 := by
  have hne : s ≠ [] := List.ne_nil_of_mem hplain
  have hstored := storedCredential_base64 hbase64 (hdecode ▸ hne)
  have hstored' := storedCredential_plain hplain
  obtain ⟨hvisited, hcredentials, hrule'⟩ := parseRule_credentials hsame hb hs hrule
  have hothers : ∀ e ∈ before ++ after, (storedCredential e).isSome := by
    intro e he
    exact (iterate_visitCredential _).1.1 hvisited e
      (List.perm_middle.mem_iff.2 (List.mem_cons_of_mem _ he))
  obtain ⟨-, hmem⟩ := iterate_visitCredential_middle hothers hstored
  obtain ⟨hvisited', hmem'⟩ := iterate_visitCredential_middle hothers hstored'
  refine ⟨_, hrule' hvisited' (List.ne_nil_of_mem ((hmem' _).2 (.inl rfl))), rfl, fun realm => ?_⟩
  have hpadding : Base64.removePadding b = Base64.encode s false := by
    rw [Base64.decodeWithoutPadding_eq] at hdecode
    rw [← Base64.digits_bind_ofSextets]
    cases hdigits : (Base64.digits (Base64.removePadding b)).bind ofSextets with
    | none =>
      rw [hdigits] at hdecode
      exact absurd hdecode.symm hne
    | some x =>
      rw [hdigits] at hdecode
      exact congrArg some hdecode
  rw [← Base64.eq_encode_iff hpadding, ← forall_mem_iff]
  rw [← hcredentials] at hmem
  constructor
  · rintro ⟨hheaders, -, -⟩ x
    rw [← hmem, ← hmem']
    exact (accepts_basic_iff.symm.trans (hheaders (bytes "Basic " ++ x))).trans accepts_basic_iff
  · intro hsets
    have hstd : Base64.encode s true ∈ rule.encodedCredentials :=
      (hmem _).2 ((hsets _).2 (.inl rfl))
    refine ⟨fun header => ?_, accepts_basic_iff.2 hstd,
      accepts_basic_iff.2 ((hmem' _).2 (.inl rfl))⟩
    rw [accepts_iff, accepts_iff, hmem, hmem', hsets]

/-- A rule with one credential. -/
def ruleFor (credential : Bytes) : Json :=
  .object [(bytes "credentials", .array [.string credential]),
    (bytes "prefix", .string (bytes "/")),
    (bytes "request_methods", .array [.string (bytes "GET")])]

theorem find_ruleFor (credential credential' field : Bytes) (h : field ≠ bytes "credentials") :
    (ruleFor credential').find field = (ruleFor credential).find field := by
  have hne : (field == bytes "credentials") = false := beq_false_of_ne h
  simp only [ruleFor, Json.find, List.lookup_cons, hne]

/-- What is read of such a rule. -/
def parsedRule (stored : Bytes) : BasicAuthConfigRule := ⟨bytes "/", some .Prefix, [], [stored]⟩

theorem spellings_equivalent_padded :
    ∃ rule', parseRule none (ruleFor (bytes "a:")) = some ([bytes "GET"], rule') ∧
      { rule' with encodedCredentials := [bytes "YTo="] } = parsedRule (bytes "YTo=") ∧
      ∀ realm, ((∀ header, Accepts realm (parsedRule (bytes "YTo=")) header ↔
          Accepts realm rule' header) ∧
        Accepts realm (parsedRule (bytes "YTo="))
          (bytes "Basic " ++ Base64.encode (bytes "a:") true) ∧
        Accepts realm rule' (bytes "Basic " ++ Base64.encode (bytes "a:") true)) ↔
      (bytes "YTo=").length % 4 = 0 ∨ bytes "YTo=" ∈ (iterate visitCredential ([] ++ []) []).2 ∧
        Base64.encode (bytes "a:") true ∈ (iterate visitCredential ([] ++ []) []).2 := by
  have hfind (c : Bytes) : (ruleFor c).find (bytes "credentials") =
      some (.array ([] ++ .string c :: [])) := by rfl
  exact spellings_equivalent_iff (find_ruleFor (bytes "YTo=") (bytes "a:")) (hfind _) (hfind _)
    (by decide) (by decide) (by decide) (by rfl)

/-- **The unpadded base64 text of a credential is accepted in the configuration, and the header
that clients send for it is rejected.** -/
theorem unpadded_credential_rejected : ¬ ∀ (uninitialized : Option MatchType) (j j' : Json)
    (b s : Bytes) (methods : List Bytes) (rule rule' : BasicAuthConfigRule),
    (∀ field, field ≠ bytes "credentials" → j'.find field = j.find field) →
    j.find (bytes "credentials") = some (.array [.string b]) →
    j'.find (bytes "credentials") = some (.array [.string s]) →
    ':'.toUInt8 ∈ s → ':'.toUInt8 ∉ b → Base64.decodeWithoutPadding b = s →
    parseRule uninitialized j = some (methods, rule) →
    parseRule uninitialized j' = some (methods, rule') →
    ∀ realm, (∀ header, Accepts realm rule header ↔ Accepts realm rule' header) ∧
      Accepts realm rule (bytes "Basic " ++ Base64.encode s true) := by
  intro h
  have hrejected := (h none _ _ (bytes "YTo") (bytes "a:") [bytes "GET"]
    (parsedRule (bytes "YTo")) (parsedRule (bytes "YTo="))
    (find_ruleFor (bytes "YTo") (bytes "a:")) rfl rfl (by decide) (by decide) (by decide) (by rfl)
    (by rfl) []).2
  exact absurd (accepts_basic_iff.1 hrejected) (by decide)

end BasicAuth

end WasmExtensions
