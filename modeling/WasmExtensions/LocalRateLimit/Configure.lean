import WasmExtensions.LocalRateLimit.Refill

/-!
# Configuring the local rate limit plugin

`onConfigure` parses the configuration, creates the bucket and starts the ticks.  Two things go
wrong on the way from the text to the parameters of `refillToken`.

* The interval in seconds is multiplied, divided and narrowed to 32 bits.  **It is honoured exactly
  if the tick period, in milliseconds, fits in 32 bits** (`honoursInterval_iff`).
* The members are set one after the other while the text is read.  **A rejected configuration
  changes nothing exactly if the fields before the one that is rejected say what the members say
  already** (`rejected_unchanged_iff`).
-/

namespace WasmExtensions

namespace LocalRateLimit

variable (lib : JsonLibrary)

/-- What `onConfigure` leaves. -/
structure Configured where
  /-- The result of `onConfigure`. -/
  accepted : Bool
  /-- The members of the root context, with which `onTick` calls `refillToken`. -/
  root : Config
  /-- The tick period that is handed to the host. -/
  tickPeriodMilliseconds : Option UInt32
  deriving DecidableEq, Repr

/-- Here `initialized` is the result of `initializeTokenBucket`. -/
def onConfigure (root : Config) (configuration : Bytes) (initialized : Bool) : Configured :=
  match parseConfiguration lib root configuration with
  | (false, root) => ⟨false, root, none⟩
  | (true, root) =>
    if initialized then ⟨true, root, some (root.refillIntervalNanosec / 1000000).toUInt32⟩
    else ⟨false, root, none⟩

/-- The value of a field; nothing if the field is missing or ill-typed. -/
def uint64Field (j : Json) (field : Bytes) : Option UInt64 :=
  match (j.find field).map (jsonValueAsUint64 lib) with
  | some (some value, .OK) => some value
  | _ => none

variable {lib} {root cfg : Config} {configuration : Bytes} {initialized : Bool} {j : Json}

/-- The parser in terms of the values of the fields. -/
theorem parseConfiguration_of_object (hj : jsonParse lib configuration = some j) :
    parseConfiguration lib root configuration =
      match uint64Field lib j (bytes "max_tokens") with
      | none => (false, root)
      | some maxTokens =>
        match uint64Field lib j (bytes "tokens_per_refill") with
        | none => (false, { root with maxTokens := maxTokens })
        | some tokensPerRefill =>
          match uint64Field lib j (bytes "refill_interval_sec") with
          | none =>
            (false, { root with maxTokens := maxTokens, tokensPerRefill := tokensPerRefill })
          | some refillIntervalSec =>
            (true, ⟨tokensPerRefill, refillIntervalSec * 1000000000, maxTokens⟩) := by
  unfold parseConfiguration uint64Field
  rw [hj]
  dsimp only
  generalize (j.find (bytes "max_tokens")).map (jsonValueAsUint64 lib) = maxTokens
  generalize (j.find (bytes "tokens_per_refill")).map (jsonValueAsUint64 lib) = tokensPerRefill
  generalize (j.find (bytes "refill_interval_sec")).map (jsonValueAsUint64 lib) = refillIntervalSec
  -- only a value that was read without an error is used
  rcases maxTokens with _ | ⟨_ | _, _ | _ | _ | _ | _⟩ <;> try rfl
  rcases tokensPerRefill with _ | ⟨_ | _, _ | _ | _ | _ | _⟩ <;> try rfl
  rcases refillIntervalSec with _ | ⟨_ | _, _ | _ | _ | _ | _⟩ <;> rfl

/-! ### The refill interval -/

theorem onConfigure_accepted {configured : Configured}
    (h : onConfigure lib root configuration initialized = configured)
    (haccepted : configured.accepted = true) :
    parseConfiguration lib root configuration = (true, configured.root) ∧
      configured.tickPeriodMilliseconds =
        some (configured.root.refillIntervalNanosec / 1000000).toUInt32 := by
  subst h
  revert haccepted
  unfold onConfigure
  rcases parseConfiguration lib root configuration with ⟨_ | _, root'⟩
  · simp
  · cases initialized <;> simp

/-- An accepted configuration has the three fields. -/
theorem refillIntervalNanosec_of_accepted (hj : jsonParse lib configuration = some j)
    (haccepted : parseConfiguration lib root configuration = (true, cfg))
    {refillIntervalSec : UInt64}
    (hsec : uint64Field lib j (bytes "refill_interval_sec") = some refillIntervalSec) :
    cfg.refillIntervalNanosec = refillIntervalSec * 1000000000 := by
  rw [parseConfiguration_of_object hj, hsec] at haccepted
  split at haccepted
  · cases haccepted
  · split at haccepted
    · cases haccepted
    · cases haccepted
      rfl

/-- The interval between refills and the tick period are the configured seconds, refills are that
far apart, and there are ticks. -/
structure HonoursInterval (V : Type*) [DecidableEq V] (cfg : Config) (tickPeriod : UInt32)
    (refillIntervalSec : UInt64) : Prop where
  interval : cfg.refillIntervalNanosec.toNat = refillIntervalSec.toNat * 10 ^ 9
  period : tickPeriod.toNat = refillIntervalSec.toNat * 1000
  spaced : ∀ s : State V, (machine cfg).Reaches CheckHolds State.unwritten s →
    (claimTimes s.log).Pairwise fun later earlier =>
      earlier + refillIntervalSec.toNat * 10 ^ 9 ≤ later
  ticks : refillIntervalSec ≠ 0 → tickPeriod ≠ 0

/-- **The configured interval is honoured exactly if the tick period fits in 32 bits.** -/
theorem honoursInterval_iff (V : Type*) [DecidableEq V] {tickPeriod : UInt32}
    {refillIntervalSec : UInt64}
    (hconfigured : onConfigure lib root configuration initialized = ⟨true, cfg, some tickPeriod⟩)
    (hj : jsonParse lib configuration = some j)
    (hsec : uint64Field lib j (bytes "refill_interval_sec") = some refillIntervalSec) :
    HonoursInterval V cfg tickPeriod refillIntervalSec ↔
      refillIntervalSec.toNat * 1000 < 2 ^ 32 := by
  obtain ⟨haccepted, htick⟩ := onConfigure_accepted hconfigured rfl
  have hinterval := refillIntervalNanosec_of_accepted hj haccepted hsec
  have hnanosec : cfg.refillIntervalNanosec.toNat =
      refillIntervalSec.toNat * 1000000000 % 2 ^ 64 := by
    rw [hinterval, UInt64.toNat_mul]
    rfl
  have hmillisec : tickPeriod.toNat = cfg.refillIntervalNanosec.toNat / 1000000 % 2 ^ 32 := by
    rw [Option.some.inj htick, UInt64.toNat_toUInt32, UInt64.toNat_div]
    rfl
  constructor
  · intro h
    rw [← h.period]
    exact tickPeriod.toNat_lt
  · intro hfits
    have hexact : cfg.refillIntervalNanosec.toNat = refillIntervalSec.toNat * 10 ^ 9 := by omega
    have hperiod : tickPeriod.toNat = refillIntervalSec.toNat * 1000 := by omega
    refine ⟨hexact, hperiod, fun s hs => hexact ▸ claims_spaced hs, fun hne hzero => hne ?_⟩
    rw [hzero] at hperiod
    have hzero' : refillIntervalSec.toNat = 0 := by
      have h0 : (0 : UInt32).toNat = 0 := rfl
      omega
    exact UInt64.toNat_inj.1 hzero'

/-- The JSON library on a text with these fields. -/
def libraryOf (text : Bytes) (fields : List (Bytes × UInt64)) : JsonLibrary where
  parse text' :=
    if text' = text then some (.object (fields.map fun f => (f.1, .number (.unsigned f.2))))
    else none
  dump _ := none
  doubleToUint64 bits := bits
  simpleAtoiUint64 _ := none

theorem jsonParse_libraryOf (text : Bytes) (fields : List (Bytes × UInt64)) :
    jsonParse (libraryOf text fields) text =
      some (.object (fields.map fun f => (f.1, .number (.unsigned f.2)))) := by
  simp [jsonParse, libraryOf, Json.isObject]

/-- The fields of a limiter that is refilled with 5 tokens. -/
def everySeconds (refillIntervalSec : UInt64) : List (Bytes × UInt64) :=
  [(bytes "max_tokens", 10), (bytes "tokens_per_refill", 5),
    (bytes "refill_interval_sec", refillIntervalSec)]

theorem onConfigure_everySeconds (text : Bytes) (refillIntervalSec : UInt64) (root : Config) :
    onConfigure (libraryOf text (everySeconds refillIntervalSec)) root text true =
      ⟨true, ⟨5, refillIntervalSec * 1000000000, 10⟩,
        some (refillIntervalSec * 1000000000 / 1000000).toUInt32⟩ := by
  unfold onConfigure
  rw [parseConfiguration_of_object (jsonParse_libraryOf text _)]
  rfl

def everyTenSeconds : Bytes :=
  bytes "\x7b\"max_tokens\":10,\"tokens_per_refill\":5,\"refill_interval_sec\":10\x7d"

theorem honoursInterval_ten : HonoursInterval Bool ⟨5, 10000000000, 10⟩ 10000 10 ↔
    (10 : UInt64).toNat * 1000 < 2 ^ 32 :=
  honoursInterval_iff Bool (onConfigure_everySeconds everyTenSeconds 10 ⟨0, 0, 0⟩)
    (jsonParse_libraryOf ..) rfl

/-- The interval is more than 500 years. -/
def everyFiveCenturies : Bytes :=
  bytes "\x7b\"max_tokens\":10,\"tokens_per_refill\":5,\"refill_interval_sec\":18446744074\x7d"

/-- **A limiter for one refill in five centuries is refilled three times a second.** -/
theorem interval_wraps : ¬ ∀ (lib : JsonLibrary) (root cfg : Config) (configuration : Bytes)
    (initialized : Bool) (tickPeriod : UInt32) (j : Json) (refillIntervalSec : UInt64),
    onConfigure lib root configuration initialized = ⟨true, cfg, some tickPeriod⟩ →
      jsonParse lib configuration = some j →
      uint64Field lib j (bytes "refill_interval_sec") = some refillIntervalSec →
        HonoursInterval Unit cfg tickPeriod refillIntervalSec := by
  intro h
  have hhonours := h _ _ _ _ _ _ _ _
    (onConfigure_everySeconds everyFiveCenturies 18446744074 ⟨0, 0, 0⟩) (jsonParse_libraryOf ..) rfl
  exact absurd hhonours.interval (by decide)

/-! ### Rejected configurations -/

/-- The fields that are read before one is missing or ill-typed have the values that the members
have already. -/
def AgreesUntilRejected (lib : JsonLibrary) (root : Config) (configuration : Bytes) : Prop :=
  ∀ j, jsonParse lib configuration = some j →
    ∀ maxTokens, uint64Field lib j (bytes "max_tokens") = some maxTokens →
      maxTokens = root.maxTokens ∧
      ∀ tokensPerRefill, uint64Field lib j (bytes "tokens_per_refill") = some tokensPerRefill →
        tokensPerRefill = root.tokensPerRefill ∧
        ∀ refillIntervalSec,
          uint64Field lib j (bytes "refill_interval_sec") = some refillIntervalSec →
            refillIntervalSec * 1000000000 = root.refillIntervalNanosec

theorem onConfigure_root : (onConfigure lib root configuration initialized).root =
    (parseConfiguration lib root configuration).2 := by
  unfold onConfigure
  rcases parseConfiguration lib root configuration with ⟨_ | _, root'⟩
  · rfl
  · cases initialized <;> rfl

/-- The members keep their values exactly if the fields that are read have those values. -/
theorem onConfigure_root_eq_iff : (onConfigure lib root configuration initialized).root = root ↔
    AgreesUntilRejected lib root configuration := by
  rw [onConfigure_root]
  unfold AgreesUntilRejected
  rcases root with ⟨_, _, _⟩
  cases hj : jsonParse lib configuration with
  | none => simp [parseConfiguration, hj]
  | some j =>
    rw [parseConfiguration_of_object hj]
    cases hmax : uint64Field lib j (bytes "max_tokens") with
    | none => simp [hmax]
    | some maxTokens =>
      cases htokens : uint64Field lib j (bytes "tokens_per_refill") with
      | none => simp [hmax, htokens]
      | some tokensPerRefill =>
        cases hsec : uint64Field lib j (bytes "refill_interval_sec") with
        | none => simp [hmax, htokens, hsec, and_comm]
        | some refillIntervalSec =>
          simp only [hmax, htokens, hsec, Config.mk.injEq, Option.some.injEq, forall_eq']
          constructor
          · rintro ⟨hrefill, hinterval, hcapacity⟩
            exact ⟨hcapacity, hrefill, hinterval⟩
          · rintro ⟨hcapacity, hrefill, hinterval⟩
            exact ⟨hrefill, hinterval, hcapacity⟩

/-- The calls of `onConfigure`: the text, and the result of `initializeTokenBucket`. -/
def configureMachine (lib : JsonLibrary) : Machine Config (Bytes × Bool) where
  next root call := some (onConfigure lib root call.1 call.2).root

/-- A call that is rejected finds its fields in the members. -/
def RejectedAgrees (lib : JsonLibrary) (root : Config) (call : Bytes × Bool) : Prop :=
  (onConfigure lib root call.1 call.2).accepted = false → AgreesUntilRejected lib root call.1

/-- The parameters of the last accepted configuration. -/
def lastAccepted (lib : JsonLibrary) (root : Config) (calls : List (Bytes × Bool)) : Config :=
  calls.foldl (fun root call =>
    if (onConfigure lib root call.1 call.2).accepted then (onConfigure lib root call.1 call.2).root
    else root) root

/-- The refills have the parameters of the last accepted configuration. -/
theorem root_eq_lastAccepted {calls : List (Bytes × Bool)}
    (h : (configureMachine lib).Along (RejectedAgrees lib) root calls) :
    (configureMachine lib).run (fun _ _ => True) root calls =
      some (lastAccepted lib root calls) := by
  induction calls generalizing root with
  | nil => rfl
  | cons call calls ih =>
    obtain ⟨hagrees, halong⟩ := h
    have hroot : lastAccepted lib root (call :: calls) =
        lastAccepted lib (onConfigure lib root call.1 call.2).root calls := by
      simp only [lastAccepted, List.foldl_cons]
      cases haccepted : (onConfigure lib root call.1 call.2).accepted with
      | true => simp
      | false => simp [onConfigure_root_eq_iff.2 (hagrees haccepted)]
    rw [hroot]
    exact ih (halong _ rfl)

/-- **A rejected configuration changes nothing exactly if the fields that were read before it was
rejected say what the members say already.**  If all rejected configurations are like that, then
the parameters of the refills are always those of the last accepted one. -/
theorem rejected_unchanged_iff (lib : JsonLibrary) :
    (∀ root configuration initialized,
      (onConfigure lib root configuration initialized).accepted = false →
        ((onConfigure lib root configuration initialized).root = root ↔
          AgreesUntilRejected lib root configuration)) ∧
    ∀ root calls, (configureMachine lib).Along (RejectedAgrees lib) root calls →
      (configureMachine lib).run (fun _ _ => True) root calls =
        some (lastAccepted lib root calls) :=
  ⟨fun _ _ _ _ => onConfigure_root_eq_iff, fun _ _ => root_eq_lastAccepted⟩

/-- A text with nothing but a capacity is rejected, and its capacity is kept. -/
theorem onConfigure_onlyCapacity (text : Bytes) (maxTokens : UInt64) (root : Config) :
    onConfigure (libraryOf text [(bytes "max_tokens", maxTokens)]) root text true =
      ⟨false, { root with maxTokens := maxTokens }, none⟩ := by
  unfold onConfigure
  rw [parseConfiguration_of_object (jsonParse_libraryOf text _)]
  rfl

/-- The configuration says again that the capacity is 10, and nothing else. -/
theorem rejected_unchanged_ten :
    (onConfigure (libraryOf (bytes "\x7b\"max_tokens\":10\x7d") [(bytes "max_tokens", 10)])
      ⟨5, 1000000000, 10⟩ (bytes "\x7b\"max_tokens\":10\x7d") true).root = ⟨5, 1000000000, 10⟩ := by
  refine ((rejected_unchanged_iff _).1 _ _ _ ?_).2 fun j hj maxTokens hmax => ?_
  · rw [onConfigure_onlyCapacity]
  · obtain rfl := Option.some.inj ((jsonParse_libraryOf ..).symm.trans hj)
    obtain rfl := Option.some.inj hmax
    exact ⟨rfl, fun tokensPerRefill htokens => nomatch htokens⟩

def onlyMaxTokens : Bytes := bytes "\x7b\"max_tokens\":100\x7d"

/-- **A rejected configuration leaves its capacity behind.** -/
theorem rejected_mixture : ¬ ∀ (lib : JsonLibrary) (root : Config) (configuration : Bytes)
    (initialized : Bool), (onConfigure lib root configuration initialized).accepted = false →
      (onConfigure lib root configuration initialized).root = root := by
  intro h
  have hrejected := onConfigure_onlyCapacity onlyMaxTokens 100 ⟨5, 1000000000, 10⟩
  have hroot := h _ _ _ _ (congrArg Configured.accepted hrejected)
  rw [hrejected] at hroot
  exact absurd hroot (by decide)

end LocalRateLimit

end WasmExtensions
