import WasmExtensions.Common.Json
import WasmExtensions.LocalRateLimit.Initialization

/-!
# The local rate limit plugin

The plugin reads its three parameters from a JSON configuration, creates the bucket with the
tokens of one refill, refills it at every tick and takes a token for every request.  All VMs run
it with one configuration.

`refillToken` clamps the bucket to `max_tokens`, `initializeTokenBucket` does not: **the bucket
never holds more than `max_tokens` if and only if `tokens_per_refill` is at most `max_tokens`**
(`bucket_le_iff`).
-/

namespace WasmExtensions

namespace LocalRateLimit

variable (lib : JsonLibrary)

/-- A missing or ill-typed field stops the parser; the fields before it are set already. -/
def parseConfiguration (root : Config) (configuration : Bytes) : Bool × Config :=
  match jsonParse lib configuration with
  | none => (false, root)
  | some j =>
    match (j.find (bytes "max_tokens")).map (jsonValueAsUint64 lib) with
    | some (some maxTokens, .OK) =>
      let root := { root with maxTokens := maxTokens }
      match (j.find (bytes "tokens_per_refill")).map (jsonValueAsUint64 lib) with
      | some (some tokensPerRefill, .OK) =>
        let root := { root with tokensPerRefill := tokensPerRefill }
        match (j.find (bytes "refill_interval_sec")).map (jsonValueAsUint64 lib) with
        | some (some refillIntervalSec, .OK) =>
          (true, { root with refillIntervalNanosec := refillIntervalSec * 1000000000 })
        | _ => (false, root)
      | _ => (false, root)
    | _ => (false, root)

/-- The callbacks of the plugin. -/
inductive Callback where
  | onConfigure
  | onTick
  | onRequestHeaders
  deriving DecidableEq, Repr

/-- The bucket function that a callback calls, if it calls one. -/
def Callback.fn (root : Config) (configuration : Bytes) : Callback → Option Fn
  | .onConfigure =>
    match parseConfiguration lib root configuration with
    | (true, root) => some (.initializeTokenBucket root.tokensPerRefill)
    | (false, _) => none
  | .onTick => some .refillToken
  | .onRequestHeaders => some .getToken

/-- An accepted configuration determines all members of the root context. -/
theorem parseConfiguration_root {lib : JsonLibrary} {root cfg : Config} {configuration : Bytes}
    (h : parseConfiguration lib root configuration = (true, cfg)) (root' : Config) :
    parseConfiguration lib root' configuration = (true, cfg) := by
  unfold parseConfiguration at h ⊢
  cases hparse : jsonParse lib configuration with
  | none => simp [hparse] at h
  | some j =>
    simp only [hparse] at h ⊢
    split at h
    · split at h
      · split at h
        · cases h
          simp_all only
        · cases h
      · cases h
    · cases h

variable {V : Type*}

/-- The VMs enter the bucket functions through the callbacks of the plugin, all with the same
configuration. -/
def Label.OfPlugin (configuration : Bytes) : Label V → Prop
  | .call _ f => ∃ (root : Config) (callback : Callback),
      callback.fn lib root configuration = some f
  | _ => True

/-! ### The capacity of the bucket -/

/-- If the VM is about to create the bucket, then with at most `maxTokens` tokens. -/
def Pc.SeedsAtMost (maxTokens : UInt64) : Pc → Prop
  | .initGet n | .initSetLast n | .initSetBucket n => n ≤ maxTokens
  | _ => True

theorem Config.refilled_le (cfg : Config) (tokenLeft : UInt64) :
    cfg.refilled tokenLeft ≤ cfg.maxTokens := by
  unfold Config.refilled
  split_ifs with h
  · exact UInt64.le_refl _
  · exact UInt64.not_lt.1 h

/-- A VM seeds the bucket with the tokens it was started with. -/
theorem seedsAtMost_resume {cfg : Config} {maxTokens : UInt64} {pc : Pc} {ans : Answer}
    (h : pc.SeedsAtMost maxTokens) : (resume cfg pc ans).pc.SeedsAtMost maxTokens := by
  revert h
  fun_cases resume cfg pc ans <;> intro h
  case case5 i _ _ => rcases retryGetToken_pc i with hi | hi <;> rw [hi] <;> trivial
  all_goals first | exact h | trivial

theorem stable_seedsAtMost (cfg : Config) (maxTokens : UInt64) :
    Stable cfg (fun f => ∀ n, f = .initializeTokenBucket n → n ≤ maxTokens)
      fun _ _ pc => pc.SeedsAtMost maxTokens where
  tick _ h := h
  start {_ _ f} hf _ := by
    cases f with
    | initializeTokenBucket n => exact hf n rfl
    | getToken | refillToken => trivial
  frame _ _ _ h := h
  resume _ _ h := seedsAtMost_resume h

/-- The bucket holds at most `maxTokens` tokens. -/
def WithinCapacity (maxTokens : UInt64) (s : State V) : Prop :=
  ∀ c, s.data.cell .tokenBucket = some c → c.value ≤ maxTokens

variable [DecidableEq V] {cfg : Config} {s s' : State V}

omit [DecidableEq V] in
/-- A write of the bucket stores at most `max_tokens` tokens: a refill is clamped, and a token is
taken from a bucket within its capacity. -/
theorem Wrote.withinCapacity {v : V} {n : Next} {k : Key} {w : SetCall V}
    (h : Wrote cfg s v n k w s') (hpc : (s.vm v).pc.SeedsAtMost cfg.maxTokens)
    (hs : WithinCapacity cfg.maxTokens s) : WithinCapacity cfg.maxTokens s' := by
  have hnew (hk : k = .tokenBucket) : w.new ≤ cfg.maxTokens := by
    have hwrites := h.effect
    have hold := h.old
    have hread := h.read
    generalize (s.vm v).pc = pc, w.site = site, w.read = read, w.new = new
      at hwrites hpc hread ⊢
    cases hwrites with
    | take i tokenLeft cas hne =>
      rw [hread _ rfl, hk] at hold
      obtain ⟨c, hc, hvalue⟩ := Option.map_eq_some_iff.1 hold.symm
      have hle : tokenLeft ≤ cfg.maxTokens := hvalue ▸ hs c hc
      have hpos : tokenLeft.toNat ≠ 0 := fun h => hne (UInt64.toNat_inj.1 h)
      have hone : 1 ≤ tokenLeft := UInt64.le_iff_toNat_le.2 (Nat.one_le_iff_ne_zero.2 hpos)
      exact UInt64.le_trans (UInt64.sub_le hone) hle
    | refill tokenLeft cas => exact cfg.refilled_le tokenLeft
    | initBucket n => exact hpc
    | claim | initLast => cases hk
  intro c hc
  by_cases hk : k = .tokenBucket
  · have hself := h.cell_self
    rw [hk, hc] at hself
    exact Option.some.inj hself ▸ hnew hk
  · rw [h.cell_of_ne (Ne.symm hk)] at hc
    exact hs c hc

theorem withinCapacity_step {l : Label V} (hok : ∀ v, (s.vm v).pc.Ok s.data)
    (hseed : ∀ v, (s.vm v).pc.SeedsAtMost cfg.maxTokens)
    (hn : (machine cfg).next s l = some s') (hs : WithinCapacity cfg.maxTokens s) :
    WithinCapacity cfg.maxTokens s' := by
  cases l with
  | tick now =>
    obtain ⟨-, rfl⟩ := tick_of_next hn
    exact hs
  | call v f =>
    obtain ⟨-, -, -, hdata, -, -⟩ := call_of_next hn
    unfold WithinCapacity
    rw [hdata]
    exact hs
  | host v reply =>
    obtain ⟨n, -, -, hquiet | ⟨k, w, hwrote⟩⟩ := host_cases (hok v) hn
    · unfold WithinCapacity
      rw [hquiet.data]
      exact hs
    · exact hwrote.withinCapacity (hseed v) hs

variable {lib : JsonLibrary} {root : Config} {configuration : Bytes}

/-- A VM that is alone creates the bucket with the tokens of its `onConfigure`. -/
theorem exists_seeded {n : UInt64} {v : V}
    (h : (Label.call v (.initializeTokenBucket n)).OfPlugin lib configuration) :
    ∃ s : State V, (machine cfg).Reaches (fun _ l => l.OfPlugin lib configuration) .unwritten s ∧
      s.data.cell .tokenBucket = some ⟨n, 1⟩ := by
  have hempty (k : Key) : (SharedData.empty : SharedData Key UInt64).cell k = none := rfl
  have hlast : (SharedData.empty : SharedData Key UInt64).Fresh .lastRefilled 1 := by decide
  have hbucket (h) : ((SharedData.empty : SharedData Key UInt64).write .lastRefilled 0 1 h).Fresh
      .tokenBucket 1 := by decide +revert
  obtain ⟨s, hrun, hs⟩ : ∃ s, (machine cfg).run (fun _ _ => True) (State.unwritten : State V)
      [.call v (.initializeTokenBucket n), .host v (.serve 0), .host v (.serve 1),
       .host v (.serve 1)] = some s ∧ s.data.cell .tokenBucket = some ⟨n, 1⟩ := by
    simp [Machine.run, machine, State.unwritten, Fn.allowed, Fn.start, hostCall, Reply.answer,
      State.advance, resume, Vm.after, SharedData.Accepts, hempty, hlast, hbucket]
  refine ⟨s, Machine.Along.reaches ?_ hrun, hs⟩
  exact ⟨h, fun _ _ => ⟨trivial, fun _ _ => ⟨trivial, fun _ _ => ⟨trivial, fun _ _ => trivial⟩⟩⟩⟩

/-- **The bucket never exceeds `max_tokens` exactly if `tokens_per_refill` does not.** -/
theorem bucket_le_iff
    (haccepted : parseConfiguration lib root configuration = (true, cfg)) (v : V) :
    (∀ s : State V, (machine cfg).Reaches (fun _ l => l.OfPlugin lib configuration)
        State.unwritten s → WithinCapacity cfg.maxTokens s) ↔
      cfg.tokensPerRefill ≤ cfg.maxTokens := by
  have hconfigure (root : Config) : Callback.onConfigure.fn lib root configuration =
      some (.initializeTokenBucket cfg.tokensPerRefill) := by
    simp only [Callback.fn, parseConfiguration_root haccepted root]
  constructor
  · intro hle
    obtain ⟨s, hs, hbucket⟩ := exists_seeded (v := v) ⟨root, _, hconfigure root⟩
    exact hle s hs _ hbucket
  · intro hle s hs
    have hF (s : State V) (v : V) (f : Fn)
        (h : (Label.call v f).OfPlugin lib configuration) (n : UInt64)
        (hf : f = .initializeTokenBucket n) : n ≤ cfg.maxTokens := by
      obtain ⟨root, callback, hcallback⟩ := h
      cases callback with
      | onConfigure =>
        rw [hconfigure, hf] at hcallback
        cases hcallback
        exact hle
      | onTick | onRequestHeaders =>
        rw [hf] at hcallback
        cases hcallback
    have hok : Stable cfg (fun f => ∀ n, f = .initializeTokenBucket n → n ≤ cfg.maxTokens)
        fun d _ pc => pc.Ok d := (stable_ok cfg).mono fun _ _ => trivial
    have hstable := hok.and (stable_seedsAtMost cfg cfg.maxTokens)
    refine (hs.invariant (I := fun s => (∀ v, (s.vm v).pc.Ok s.data ∧
      (s.vm v).pc.SeedsAtMost cfg.maxTokens) ∧ WithinCapacity cfg.maxTokens s)
      ⟨fun _ => ⟨trivial, trivial⟩, fun c hc => nomatch hc⟩ ?_).2
    rintro s l s' ⟨hpc, hcap⟩ hC hn
    exact ⟨hstable.step (fun v f hl => hF s v f (hl ▸ hC)) hpc hn,
      withinCapacity_step (fun v => (hpc v).1) (fun v => (hpc v).2) hn hcap⟩

/-- The configuration with capacity `m`, `n` tokens a refill and a refill every second. -/
def sampleConfiguration (m n : UInt64) : Json :=
  .object [(bytes "max_tokens", .number (.unsigned m)),
    (bytes "tokens_per_refill", .number (.unsigned n)),
    (bytes "refill_interval_sec", .number (.unsigned 1))]

def smallRefill : Bytes :=
  bytes "\x7b\"max_tokens\":10,\"tokens_per_refill\":5,\"refill_interval_sec\":1\x7d"

def largeRefill : Bytes :=
  bytes "\x7b\"max_tokens\":5,\"tokens_per_refill\":10,\"refill_interval_sec\":1\x7d"

/-- The JSON library on such a text. -/
def sampleLibrary (text : Bytes) (m n : UInt64) : JsonLibrary where
  parse text' := if text' = text then some (sampleConfiguration m n) else none
  dump _ := none
  doubleToUint64 bits := bits
  simpleAtoiUint64 _ := none

theorem parseConfiguration_sample (text : Bytes) (m n : UInt64) (root : Config) :
    parseConfiguration (sampleLibrary text m n) root text = (true, ⟨n, 1000000000, m⟩) := by
  have hparse : jsonParse (sampleLibrary text m n) text = some (sampleConfiguration m n) := by
    simp [jsonParse, sampleLibrary, sampleConfiguration, Json.isObject]
  have hmax : (sampleConfiguration m n).find (bytes "max_tokens") =
      some (.number (.unsigned m)) := by rfl
  have htokens : (sampleConfiguration m n).find (bytes "tokens_per_refill") =
      some (.number (.unsigned n)) := by rfl
  have hinterval : (sampleConfiguration m n).find (bytes "refill_interval_sec") =
      some (.number (.unsigned 1)) := by rfl
  have hsecond : (1 : UInt64) * 1000000000 = 1000000000 := by decide
  simp only [parseConfiguration, hparse, hmax, htokens, hinterval, Option.map_some,
    jsonValueAsUint64, JsonNumber.toUint64, hsecond]

theorem bucket_le_smallRefill :
    (∀ s : State Bool, (machine ⟨5, 1000000000, 10⟩).Reaches
        (fun _ l => l.OfPlugin (sampleLibrary smallRefill 10 5) smallRefill) State.unwritten s →
          WithinCapacity 10 s) ↔ (5 : UInt64) ≤ 10 :=
  bucket_le_iff (parseConfiguration_sample smallRefill 10 5 ⟨0, 0, 0⟩) false

/-- **A bucket for 5 tokens is created with the 10 tokens of a refill.** -/
theorem bucket_overfull : ¬ ∀ (lib : JsonLibrary) (root cfg : Config) (configuration : Bytes),
    parseConfiguration lib root configuration = (true, cfg) → ∀ s : State Unit,
      (machine cfg).Reaches (fun _ l => l.OfPlugin lib configuration) State.unwritten s →
        WithinCapacity cfg.maxTokens s := by
  intro h
  have haccepted := parseConfiguration_sample largeRefill 5 10 ⟨0, 0, 0⟩
  have hconfigure : Callback.onConfigure.fn (sampleLibrary largeRefill 5 10) ⟨0, 0, 0⟩
      largeRefill = some (.initializeTokenBucket 10) := by
    simp only [Callback.fn, haccepted]
  obtain ⟨s, hs, hbucket⟩ := exists_seeded (v := ()) ⟨_, _, hconfigure⟩
  have hle : (10 : UInt64) ≤ 5 := h _ _ _ _ haccepted s hs _ hbucket
  exact absurd hle (by decide)

end LocalRateLimit

end WasmExtensions
