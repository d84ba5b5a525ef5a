import WasmExtensions.LocalRateLimit.Plugin
import WasmExtensions.LocalRateLimit.RateBound

/-!
# What a refill adds, and when

`refillToken` adds the tokens in 64 bits and clamps the sum afterwards.  A sum of 2^64 or more is
small when it is clamped, so such a refill *takes* tokens out of the bucket.

* `forall_writes_of_reaches` : what holds of every accepted write holds of all writes in a log.
* `refill_exact_iff` : **a refill adds what it should exactly if the sum fits in 64 bits.**
* `claims_spaced` : **the refills are claimed for times that are an interval apart**, as long as the
  last refill time is not initialised a second time.
-/

namespace WasmExtensions

namespace LocalRateLimit

variable {V : Type*} [DecidableEq V] {cfg : Config} {s₀ s s' : State V}

/-! ### What a refill adds -/

/-- The accepted writes of a run are writes of the code. -/
theorem forall_writes_of_reaches {C : State V → Label V → Prop} {P : SetCall V → Prop}
    (hP : ∀ s v n k w s', Wrote cfg s v n k w s' → P w) (hidle : ∀ v, (s₀.vm v).pc = .idle)
    (hlog : s₀.log = []) (h : (machine cfg).Reaches C s₀ s) : ∀ w ∈ writes s.log, P w := by
  induction h with
  | refl => simp [hlog]
  | @step s s' l hr _ hn ih =>
    have hok := pcOk_of_reaches hr fun v => by
      rw [hidle v]
      trivial
    cases l with
    | tick now =>
      obtain ⟨-, rfl⟩ := tick_of_next hn
      exact ih
    | call v f =>
      obtain ⟨-, -, -, -, -, hlog'⟩ := call_of_next hn
      simpa [hlog'] using ih
    | host v reply =>
      obtain ⟨n, -, -, hquiet | ⟨k, w, hwrote⟩⟩ := host_cases (hok v) hn
      · rw [hquiet.writes_log]
        exact ih
      · rw [hwrote.writes_log]
        exact List.forall_mem_cons.2 ⟨hP _ _ _ _ _ _ hwrote, ih⟩

omit [DecidableEq V] in
/-- A refill computes the new number of tokens from the one that it replaces. -/
theorem Wrote.refilled_of_old {v : V} {n : Next} {k : Key} {w : SetCall V}
    (h : Wrote cfg s v n k w s') (hsite : w.site = .refill) {x : UInt64} (hold : w.old = some x) :
    w.new = cfg.refilled x := by
  have hwrites := h.effect
  have hread := h.read
  rw [hsite] at hwrites
  generalize (s.vm v).pc = pc, w.read = read, w.new = new at hwrites hread ⊢
  cases hwrites with
  | refill tokenLeft cas =>
    obtain rfl : tokenLeft = x := Option.some.inj ((hread _ rfl).symm.trans hold)
    rfl

/-- The clamped sum is right as long as it does not wrap around. -/
theorem toNat_refilled {x : UInt64} (h : x.toNat + cfg.tokensPerRefill.toNat < 2 ^ 64) :
    (cfg.refilled x).toNat =
      min (x.toNat + cfg.tokensPerRefill.toNat) cfg.maxTokens.toNat := by
  have hadd : (x + cfg.tokensPerRefill).toNat = x.toNat + cfg.tokensPerRefill.toNat := by
    rw [UInt64.toNat_add, Nat.mod_eq_of_lt h]
  simp only [Config.refilled, GT.gt, UInt64.lt_iff_toNat_lt, hadd]
  split_ifs <;> omega

/-- A sum that wraps around is less than what was there, so it is not clamped. -/
theorem refilled_lt {x : UInt64} (hle : x ≤ cfg.maxTokens)
    (h : 2 ^ 64 ≤ x.toNat + cfg.tokensPerRefill.toNat) : cfg.refilled x < x := by
  have hadd : (x + cfg.tokensPerRefill).toNat =
      (x.toNat + cfg.tokensPerRefill.toNat) % 2 ^ 64 := UInt64.toNat_add ..
  have hx := x.toNat_lt
  have hr := cfg.tokensPerRefill.toNat_lt
  have hwrap : (x + cfg.tokensPerRefill).toNat < x.toNat := by omega
  have hsmall : ¬ x + cfg.tokensPerRefill > cfg.maxTokens := by
    rw [UInt64.le_iff_toNat_le] at hle
    simp only [GT.gt, UInt64.lt_iff_toNat_lt]
    omega
  rw [Config.refilled, if_neg hsmall, UInt64.lt_iff_toNat_lt]
  exact hwrap

/-- **A refill adds the tokens of a refill up to the capacity, and never lowers the number of
tokens, exactly if the sum fits in 64 bits.** -/
theorem refill_exact_iff (hidle : ∀ v, (s₀.vm v).pc = .idle) (hlog : s₀.log = [])
    (h : (machine cfg).Reaches (fun _ _ => True) s₀ s) {w : SetCall V} (hw : w ∈ writes s.log)
    (hsite : w.site = .refill) {x : UInt64} (hold : w.old = some x) (hle : x ≤ cfg.maxTokens) :
    (w.new.toNat = min (x.toNat + cfg.tokensPerRefill.toNat) cfg.maxTokens.toNat ∧ x ≤ w.new) ↔
      x.toNat + cfg.tokensPerRefill.toNat < 2 ^ 64 := by
  have hnew : w.new = cfg.refilled x :=
    forall_writes_of_reaches (P := fun w => w.site = .refill → ∀ x, w.old = some x →
      w.new = cfg.refilled x) (fun _ _ _ _ _ _ hwrote hsite _ => hwrote.refilled_of_old hsite)
      hidle hlog h w hw hsite x hold
  rw [hnew]
  constructor
  · rintro ⟨-, hgrows⟩
    by_contra hsum
    exact UInt64.not_lt.2 hgrows (refilled_lt hle (Nat.not_lt.1 hsum))
  · intro hsum
    have hmin := toNat_refilled hsum
    rw [UInt64.le_iff_toNat_le] at hle ⊢
    exact ⟨hmin, by omega⟩

/-- A VM that is alone refills the bucket. -/
def refillAlone : List (Label Unit) :=
  [.call () .refillToken, .host () (.serve 0), .host () (.serve 0), .host () (.serve 2),
    .host () (.serve 0), .host () (.serve 2)]

/-- The refill of a bucket with 3 tokens. -/
theorem refill_exact_three : ∃ w : SetCall Unit, w.old = some 3 ∧ w.new = 8 ∧
    ((w.new.toNat = min (3 + 5) 10 ∧ 3 ≤ w.new) ↔ 3 + 5 < 2 ^ 64) := by
  have hrun : ((machine ⟨5, 1000000000, 10⟩).run (fun _ _ => True)
      (State.initialized 3 1000000000 : State Unit) refillAlone).isSome := by decide
  refine ⟨⟨(), .refill, 1000000000, some 3, some 3, 8, .Ok⟩, rfl, rfl, ?_⟩
  have hmem : (⟨(), .refill, 1000000000, some 3, some 3, 8, .Ok⟩ : SetCall Unit) ∈
      writes (((machine ⟨5, 1000000000, 10⟩).run (fun _ _ => True)
        (State.initialized 3 1000000000 : State Unit) refillAlone).get hrun).log := by
    decide +revert
  exact refill_exact_iff (fun _ => rfl) rfl (.of_isSome hrun) hmem rfl rfl (by decide)

/-- A capacity of 10 tokens and the largest number of tokens for a refill. -/
def hugeRefill : Bytes := bytes
  "\x7b\"max_tokens\":10,\"tokens_per_refill\":18446744073709551615,\"refill_interval_sec\":1\x7d"

/-- **A refill of a full bucket takes a token out of it.** -/
theorem refill_lowers : ¬ ∀ (lib : JsonLibrary) (root cfg : Config) (configuration : Bytes),
    parseConfiguration lib root configuration = (true, cfg) → ∀ s₀ s : State Unit,
      (∀ v, (s₀.vm v).pc = .idle) → s₀.log = [] →
      (machine cfg).Reaches (fun _ _ => True) s₀ s →
      ∀ w ∈ writes s.log, w.site = .refill → ∀ x, w.old = some x → x ≤ cfg.maxTokens →
        w.new.toNat = min (x.toNat + cfg.tokensPerRefill.toNat) cfg.maxTokens.toNat ∧
          x ≤ w.new := by
  intro h
  have haccepted := parseConfiguration_sample hugeRefill 10 18446744073709551615 ⟨0, 0, 0⟩
  have hrun : ((machine ⟨18446744073709551615, 1000000000, 10⟩).run (fun _ _ => True)
      (State.initialized 10 1000000000 : State Unit) refillAlone).isSome := by decide
  have hmem : (⟨(), .refill, 1000000000, some 10, some 10, 9, .Ok⟩ : SetCall Unit) ∈
      writes (((machine ⟨18446744073709551615, 1000000000, 10⟩).run (fun _ _ => True)
        (State.initialized 10 1000000000 : State Unit) refillAlone).get hrun).log := by
    decide +revert
  obtain ⟨-, hgrows⟩ := h _ _ _ _ haccepted _ _ (fun _ => rfl) rfl (.of_isSome hrun) _ hmem rfl 10
    rfl (by decide)
  exact absurd hgrows (by decide)

/-! ### When a refill is claimed -/

/-- The times for which refills were claimed, latest first. -/
def claimTimes (log : List (Event V)) : List ℕ :=
  ((writes log).filter fun w => w.site = .claim).map fun w => w.new.toNat

/-- The claims are an interval apart, and the stored time of the last refill is not before any of
them. -/
structure ClaimsSpaced (cfg : Config) (s : State V) : Prop where
  spaced : (claimTimes s.log).Pairwise fun later earlier =>
    earlier + cfg.refillIntervalNanosec.toNat ≤ later
  stored : ∀ t ∈ claimTimes s.log, ∃ c, s.data.cell .lastRefilled = some c ∧ t ≤ c.value.toNat

section

variable {t₀ : UInt64} {v : V} {n : Next} {k : Key} {w : SetCall V}

omit [DecidableEq V]

theorem Wrote.claimTimes (h : Wrote cfg s v n k w s') :
    claimTimes s'.log =
      if w.site = .claim then w.new.toNat :: claimTimes s.log else claimTimes s.log := by
  simp only [LocalRateLimit.claimTimes, h.writes_log, List.filter_cons, decide_eq_true_eq]
  split_ifs <;> simp

/-- A write of the bucket claims nothing. -/
theorem Wrote.claimsSpaced_of_bucket (h : Wrote cfg s v n .tokenBucket w s')
    (hsite : w.site ≠ .claim) (hs : ClaimsSpaced cfg s) : ClaimsSpaced cfg s' where
  spaced := by
    rw [h.claimTimes, if_neg hsite]
    exact hs.spaced
  stored := by
    rw [h.claimTimes, if_neg hsite, h.cell_of_ne (by simp)]
    exact hs.stored

/-- A claim comes an interval after the last refill that the VM has read, which is still the last
one. -/
theorem Wrote.claimsSpaced_of_claim {lastUpdate now : UInt64} {cas : ℕ}
    (h : Wrote cfg s v n .lastRefilled w s') (hpc : (s.vm v).pc = .refillSetLast lastUpdate now cas)
    (hsite : w.site = .claim) (hold : w.old = some lastUpdate) (hnew : w.new = now)
    (htimed : Timed cfg t₀ s.data s.clock (s.vm v).pc) (hs : ClaimsSpaced cfg s) :
    ClaimsSpaced cfg s' := by
  rw [hpc] at htimed
  obtain ⟨hinterval, -, -⟩ := htimed.times
  obtain ⟨c, hc, hvalue⟩ := Option.map_eq_some_iff.1 (h.old.symm.trans hold)
  have hle (t : ℕ) (ht : t ∈ LocalRateLimit.claimTimes s.log) : t ≤ lastUpdate.toNat := by
    obtain ⟨c', hc', ht'⟩ := hs.stored t ht
    obtain rfl : c = c' := Option.some.inj (hc.symm.trans hc')
    rwa [hvalue] at ht'
  obtain ⟨c', hc', hvalue'⟩ := Option.map_eq_some_iff.1 h.cell_self
  rw [hnew] at hvalue'
  constructor
  · rw [h.claimTimes, if_pos hsite, hnew]
    refine List.pairwise_cons.2 ⟨fun t ht => ?_, hs.spaced⟩
    have hbefore := hle t ht
    omega
  · rw [h.claimTimes, if_pos hsite, hnew]
    refine List.forall_mem_cons.2 ⟨⟨c', hc', by rw [hvalue']⟩, fun t ht => ⟨c', hc', ?_⟩⟩
    have hbefore := hle t ht
    rw [hvalue']
    omega

/-- The last refill time is initialised before any refill is claimed. -/
theorem Wrote.claimsSpaced_of_initLast (h : Wrote cfg s v n k w s') (hsite : w.site = .initLast)
    (hcell : s.data.cell .lastRefilled = none) (hs : ClaimsSpaced cfg s) :
    ClaimsSpaced cfg s' := by
  have hnone : LocalRateLimit.claimTimes s'.log = [] := by
    rw [h.claimTimes, if_neg (by simp [hsite]), List.eq_nil_iff_forall_not_mem]
    intro t ht
    obtain ⟨c, hc, -⟩ := hs.stored t ht
    rw [hcell] at hc
    cases hc
  constructor <;> simp [hnone]

end

theorem claimsSpaced_step {t₀ : UInt64} {l : Label V} (hok : ∀ v, (s.vm v).pc.Ok s.data)
    (htimed : ∀ v, Timed cfg t₀ s.data s.clock (s.vm v).pc) (hC : CheckHolds s l)
    (hn : (machine cfg).next s l = some s') (hs : ClaimsSpaced cfg s) : ClaimsSpaced cfg s' := by
  cases l with
  | tick now =>
    obtain ⟨-, rfl⟩ := tick_of_next hn
    exact ⟨hs.spaced, hs.stored⟩
  | call v f =>
    obtain ⟨-, -, -, hdata, -, hlog⟩ := call_of_next hn
    have htimes : claimTimes s'.log = claimTimes s.log := by simp [claimTimes, hlog]
    exact ⟨by rw [htimes]; exact hs.spaced, by rw [htimes, hdata]; exact hs.stored⟩
  | host v reply =>
    obtain ⟨n, -, -, hquiet | ⟨k, w, hwrote⟩⟩ := host_cases (hok v) hn
    · have htimes : claimTimes s'.log = claimTimes s.log := by
        rw [claimTimes, hquiet.writes_log, claimTimes]
      exact ⟨by rw [htimes]; exact hs.spaced, by rw [htimes, hquiet.data]; exact hs.stored⟩
    · obtain ⟨fresh, rfl⟩ := hwrote.exists_serve hn
      by_cases hinit : (s.vm v).pc.Initializing
      · obtain ⟨m, hpc, -, -, hsite⟩ | ⟨m, -, -, rfl, hsite⟩ := hwrote.init_cases hinit
        · exact hwrote.claimsSpaced_of_initLast hsite (hC ⟨m, hpc⟩) hs
        · exact hwrote.claimsSpaced_of_bucket (by simp [hsite]) hs
      · obtain ⟨_, _, _, -, -, -, rfl, hsite, -⟩ |
          ⟨lastUpdate, now, cas, hpc, -, rfl, hsite, -, hold, hnew⟩ |
          ⟨_, _, -, -, rfl, hsite, -⟩ := hwrote.serving_cases hinit
        · exact hwrote.claimsSpaced_of_bucket (by simp [hsite]) hs
        · exact hwrote.claimsSpaced_of_claim hpc hsite hold hnew (htimed v) hs
        · exact hwrote.claimsSpaced_of_bucket (by simp [hsite]) hs

/-- **The refills are claimed for times that are an interval apart.** -/
theorem claims_spaced (h : (machine cfg).Reaches CheckHolds (State.unwritten : State V) s) :
    (claimTimes s.log).Pairwise fun later earlier =>
      earlier + cfg.refillIntervalNanosec.toNat ≤ later := by
  have hstable := (stable_ok cfg).and (stable_timed cfg 0)
  refine (h.invariant (I := fun s => (∀ v, (s.vm v).pc.Ok s.data ∧
    Timed cfg 0 s.data s.clock (s.vm v).pc) ∧ ClaimsSpaced cfg s) ⟨fun v => ?_, ?_⟩ ?_).2.spaced
  · exact ⟨trivial, UInt64.le_refl _, (fun c hc => nomatch hc), trivial⟩
  · exact ⟨.nil, fun t ht => nomatch ht⟩
  · rintro s l s' ⟨hpc, hs⟩ hC hn
    exact ⟨hstable.step (fun _ _ _ => trivial) hpc hn,
      claimsSpaced_step (fun v => (hpc v).1) (fun v => (hpc v).2) hC hn hs⟩

end LocalRateLimit

end WasmExtensions
