import WasmExtensions.LocalRateLimit.Snapshots
import Mathlib.Tactic.Linarith

/-!
# Token accounting under concurrency

Any number of VMs call `getToken` and `refillToken` on an existing bucket, their host calls
interleaved in any order.  At every point of every run (`accounting`)

* the stored number of tokens is the number at the start, plus what the refill writes added,
  minus the tokens taken;
* no accepted write is based on a stale value: the value a VM read is the value it replaces;
* a token is taken only from a non-empty bucket, so the stored number never wraps around;
* every claimed refill leads to at most one write of the bucket (`Paid`).

The reason is that an accepted write replaces exactly the value its VM has read
(`host_cases`), so every write changes the number of tokens by what it means to.
-/

namespace WasmExtensions

namespace LocalRateLimit

variable {V : Type*}

/-- The functions that serve traffic: the run contains no call of `initializeTokenBucket`. -/
def Label.Serves : Label V → Prop
  | .call _ (.initializeTokenBucket _) => False
  | _ => True

instance : (l : Label V) → Decidable l.Serves
  | .call _ (.initializeTokenBucket _) => isFalse id
  | .call _ .getToken | .call _ .refillToken | .tick _ | .host _ _ => isTrue trivial

/-- The bucket exists and holds `B₀` tokens, no VM is inside a function and nothing is logged. -/
structure Started (B₀ : UInt64) (s : State V) : Prop where
  bucket : (s.data.cell .tokenBucket).map Cell.value = some B₀
  idle : ∀ v, (s.vm v).pc = .idle
  log : s.log = []

/-- The shared data after an initialisation with `B₀` tokens. -/
def initialData (B₀ : UInt64) : SharedData Key UInt64 :=
  (SharedData.empty.write .lastRefilled 0 1 (by decide)).write .tokenBucket B₀ 1 (by decide)

/-- All VMs are initialised and none is inside a function. -/
def State.initialized (B₀ clock : UInt64) : State V :=
  ⟨fun _ => ⟨.idle, true⟩, initialData B₀, clock, []⟩

theorem started_initialized (B₀ clock : UInt64) :
    Started B₀ (State.initialized B₀ clock : State V) :=
  ⟨rfl, fun _ => rfl, rfl⟩

/-- What a write adds to the stored number. -/
def SetCall.gain (w : SetCall V) : ℤ := w.new.toNat - (w.old.getD 0).toNat

/-- The number of tokens taken by accepted writes of `getToken`. -/
def taken (log : List (Event V)) : ℕ := (writes log).countP fun w => w.site = .take

/-- What the refill writes added. -/
def refilled (log : List (Event V)) : ℤ :=
  (((writes log).filter fun w => w.site = .refill).map SetCall.gain).sum

/-- The VM `v` has a claimed refill it has not written to the bucket: among the writes `ws`
(latest first) its last claim is not followed by a refill write of its own. -/
def OpenClaim (v : V) (ws : List (SetCall V)) : Prop :=
  ∃ mid c rest, ws = mid ++ c :: rest ∧ c.vm = v ∧ c.site = .claim ∧
    ∀ w ∈ mid, w.vm = v → w.site ≠ .refill

/-- Every refill write uses up a claim of its VM. -/
def Paid (ws : List (SetCall V)) : Prop :=
  ∀ post w pre, ws = post ++ w :: pre → w.site = .refill → OpenClaim w.vm pre

/-- Every accepted write of `getToken` is followed at once by the return of `true`. -/
def TakesReturn (log : List (Event V)) : Prop :=
  ∀ post w pre, log = post ++ .set w :: pre → w.result = .Ok → w.site = .take →
    ∃ post', post = post' ++ [.returned w.vm (.getToken true)]

theorem openClaim_cons {v : V} {w : SetCall V} {ws : List (SetCall V)}
    (hw : w.vm = v → w.site ≠ .refill) (h : OpenClaim v ws) : OpenClaim v (w :: ws) := by
  obtain ⟨mid, c, rest, rfl, hc, hs, hmid⟩ := h
  refine ⟨w :: mid, c, rest, rfl, hc, hs, fun x hx => ?_⟩
  rcases List.mem_cons.1 hx with rfl | hx
  · exact hw
  · exact hmid x hx

theorem openClaim_claim {w : SetCall V} (ws : List (SetCall V)) (hw : w.site = .claim) :
    OpenClaim w.vm (w :: ws) :=
  ⟨[], w, ws, rfl, rfl, hw, by simp⟩

theorem paid_nil : Paid ([] : List (SetCall V)) := by
  intro post w pre h
  simp at h

theorem Paid.cons {w : SetCall V} {ws : List (SetCall V)}
    (hw : w.site = .refill → OpenClaim w.vm ws) (h : Paid ws) : Paid (w :: ws) := by
  intro post x pre hx hs
  cases post with
  | nil =>
    rw [List.nil_append, List.cons.injEq] at hx
    obtain ⟨rfl, rfl⟩ := hx
    exact hw hs
  | cons y post =>
    rw [List.cons_append, List.cons.injEq] at hx
    exact h post x pre hx.2 hs

theorem takesReturn_cons {e : Event V} {log : List (Event V)}
    (he : ∀ w, e.accepted = some w → w.site ≠ .take) (h : TakesReturn log) :
    TakesReturn (e :: log) := by
  intro post w pre hx hr hs
  cases post with
  | nil =>
    rw [List.nil_append, List.cons.injEq] at hx
    exact absurd hs (he w (by rw [hx.1, Event.accepted, if_pos hr]))
  | cons y post =>
    rw [List.cons_append, List.cons.injEq] at hx
    obtain ⟨post', rfl⟩ := h post w pre hx.2 hr hs
    exact ⟨y :: post', rfl⟩

theorem takesReturn_quiet {es log : List (Event V)} (hes : writes es = []) (h : TakesReturn log) :
    TakesReturn (es ++ log) := by
  induction es with
  | nil => exact h
  | cons e es ih =>
    have hes := List.filterMap_eq_nil_iff.1 hes
    refine takesReturn_cons (fun w hw => ?_) (ih (List.filterMap_eq_nil_iff.2 fun x hx => ?_))
    · rw [hes e (List.mem_cons_self ..)] at hw
      cases hw
    · exact hes x (List.mem_cons_of_mem _ hx)

theorem takesReturn_take {w : SetCall V} {log : List (Event V)} (h : TakesReturn log) :
    TakesReturn (.returned w.vm (.getToken true) :: .set w :: log) := by
  intro post x pre hx hr hs
  match post with
  | [] => simp at hx
  | [e] =>
    simp only [List.cons_append, List.nil_append, List.cons.injEq, Event.set.injEq] at hx
    obtain ⟨rfl, rfl, -⟩ := hx
    exact ⟨[], rfl⟩
  | e :: e' :: post =>
    simp only [List.cons_append, List.cons.injEq] at hx
    obtain ⟨post', rfl⟩ := h post x pre hx.2.2 hr hs
    exact ⟨e :: e' :: post', rfl⟩

/-! ### Serving VMs stay out of the initialisation -/

theorem stable_not_initializing (cfg : Config) :
    Stable cfg (fun f => ∀ n, f ≠ .initializeTokenBucket n) fun _ _ pc => ¬ pc.Initializing where
  tick _ h := h
  start {_ _ f} hf _ := by
    cases f with
    | initializeTokenBucket n => exact absurd rfl (hf n)
    | _ => exact id
  frame _ _ _ h := h
  resume _ _ h := fun h' => h (initializing_of_resume h')

variable [DecidableEq V] {cfg : Config} {B₀ : UInt64} {s₀ s s' : State V}

theorem serving_of_reaches (h : (machine cfg).Reaches (fun _ l => l.Serves) s₀ s)
    (h₀ : ∀ v, (s₀.vm v).pc = .idle) (v : V) : ¬ (s.vm v).pc.Initializing :=
  (stable_not_initializing cfg).reaches (fun _ _ _ hC _ hf => by subst hf; exact hC) h
    (fun v => by rw [h₀ v]; exact id) v

/-! ### The accounts -/

/-- The accounts of a run that started with `B₀` tokens. -/
structure Accounted (B₀ : UInt64) (s : State V) : Prop where
  /-- The stored number is what was there, plus what was added, minus what was taken. -/
  bucket : ∃ b : UInt64, (s.data.cell .tokenBucket).map Cell.value = some b ∧
    (b.toNat : ℤ) = B₀.toNat + refilled s.log - taken s.log
  /-- No write is based on a stale value. -/
  based : ∀ w ∈ writes s.log, w.read = w.old
  /-- A token is taken from a bucket that holds one. -/
  takes : ∀ w ∈ writes s.log, w.site = .take → ∃ o, w.old = some o ∧ w.new.toNat + 1 = o.toNat
  claimed : ∀ v, (s.vm v).pc.Claimed → OpenClaim v (writes s.log)
  paid : Paid (writes s.log)
  returns : TakesReturn s.log

omit [DecidableEq V] in
theorem accounted_started (h : Started B₀ s) : Accounted B₀ s where
  bucket := ⟨B₀, h.bucket, by simp [h.log, refilled, taken]⟩
  based := by simp [h.log]
  takes := by simp [h.log]
  claimed v hv := by rw [h.idle v] at hv; exact hv.elim
  paid := by rw [h.log]; exact paid_nil
  returns := by
    intro post w pre hx
    rw [h.log] at hx
    simp at hx

theorem toNat_sub_one {t : UInt64} (h : t ≠ 0) : (t - 1).toNat + 1 = t.toNat := by
  have h1 : t.toNat ≠ 0 := fun h0 => h (UInt64.toNat_inj.1 h0)
  have hle : (1 : UInt64) ≤ t := by
    rw [UInt64.le_iff_toNat_le]
    exact Nat.one_le_iff_ne_zero.2 h1
  rw [UInt64.toNat_sub_of_le _ _ hle]
  exact Nat.sub_add_cancel (Nat.one_le_iff_ne_zero.2 h1)

section

variable {v : V} {n : Next} {k : Key} {w : SetCall V}

omit [DecidableEq V] in
/-- The bucket after a write, when the write is one of the serving functions. -/
theorem Wrote.bucket (h : Wrote cfg s v n k w s') (hserv : ¬ (s.vm v).pc.Initializing)
    {b : UInt64} (hb : (s.data.cell .tokenBucket).map Cell.value = some b) :
    ∃ b' : UInt64, (s'.data.cell .tokenBucket).map Cell.value = some b' ∧
      (b'.toNat : ℤ) + (if w.site = .take then 1 else 0) =
        b.toNat + (if w.site = .refill then w.gain else 0) := by
  have hself := h.cell_self
  have hold := h.old
  obtain ⟨i, t, cas, -, ht, -, rfl, hs, -, ho, hnew⟩ | ⟨lastUpdate, now, cas, -, -, rfl, hs, -⟩ |
    ⟨t, cas, -, -, rfl, hs, -, ho, hnew⟩ := h.serving_cases hserv
  · have hbt : b = t := Option.some.inj (by rw [← hb, ← hold, ho])
    have h1 := toNat_sub_one ht
    refine ⟨t - 1, by rw [hself, hnew], ?_⟩
    simp only [hs, ↓reduceIte, reduceCtorEq, hbt]
    omega
  · exact ⟨b, by rw [h.cell_of_ne (by simp)]; exact hb, by simp [hs]⟩
  · refine ⟨w.new, hself, ?_⟩
    simp only [SetCall.gain, hold.trans hb, hs, reduceCtorEq, ↓reduceIte, Option.getD_some]
    omega

omit [DecidableEq V] in
theorem Wrote.taken (h : Wrote cfg s v n k w s') :
    taken s'.log = taken s.log + if w.site = .take then 1 else 0 := by
  simp [LocalRateLimit.taken, h.writes_log, List.countP_cons]

omit [DecidableEq V] in
theorem Wrote.refilled (h : Wrote cfg s v n k w s') :
    refilled s'.log = refilled s.log + if w.site = .refill then w.gain else 0 := by
  simp only [LocalRateLimit.refilled, h.writes_log, List.filter_cons, decide_eq_true_eq]
  split_ifs
  · rw [List.map_cons, List.sum_cons, add_comm]
  · rw [add_zero]

omit [DecidableEq V] in
/-- The serving functions compute what they write from what they replace. -/
theorem Wrote.read_eq_old (h : Wrote cfg s v n k w s') (hserv : ¬ (s.vm v).pc.Initializing) :
    w.read = w.old := by
  obtain ⟨i, t, cas, -, -, -, -, -, hr, ho, -⟩ | ⟨lastUpdate, now, cas, -, -, -, -, hr, ho, -⟩ |
    ⟨t, cas, -, -, -, -, hr, ho, -⟩ := h.serving_cases hserv <;> rw [hr, ho]

omit [DecidableEq V] in
theorem Wrote.of_take (h : Wrote cfg s v n k w s') (hserv : ¬ (s.vm v).pc.Initializing)
    (hs : w.site = .take) :
    n = .done (.getToken true) ∧ ∃ o, w.old = some o ∧ w.new.toNat + 1 = o.toNat := by
  obtain ⟨i, t, cas, -, ht, hn, -, -, -, ho, hnew⟩ | ⟨lastUpdate, now, cas, -, -, -, hs', -⟩ |
    ⟨t, cas, -, -, -, hs', -⟩ := h.serving_cases hserv
  · exact ⟨hn, t, ho, by rw [hnew]; exact toNat_sub_one ht⟩
  · simp [hs'] at hs
  · simp [hs'] at hs

omit [DecidableEq V] in
theorem Wrote.claimed_of_refill (h : Wrote cfg s v n k w s') (hserv : ¬ (s.vm v).pc.Initializing)
    (hs : w.site = .refill) : (s.vm v).pc.Claimed := by
  obtain ⟨i, t, cas, -, -, -, -, hs', -⟩ | ⟨lastUpdate, now, cas, -, -, -, hs', -⟩ |
    ⟨t, cas, hpc, -⟩ := h.serving_cases hserv
  · simp [hs'] at hs
  · simp [hs'] at hs
  · rw [hpc]; trivial

omit [DecidableEq V] in
theorem Wrote.site_of_claimed (h : Wrote cfg s v n k w s') (hserv : ¬ (s.vm v).pc.Initializing)
    (hn : n.pc.Claimed) : w.site = .claim := by
  obtain ⟨i, t, cas, -, -, hn', -⟩ | ⟨lastUpdate, now, cas, -, -, -, hs, -⟩ |
    ⟨t, cas, -, hn', -⟩ := h.serving_cases hserv
  · rw [hn'] at hn; exact hn.elim
  · exact hs
  · rw [hn'] at hn; exact hn.elim

omit [DecidableEq V] in
/-- The log of a write ends with the write, or with the return that follows it. -/
theorem Wrote.takesReturn (h : Wrote cfg s v n k w s') (hserv : ¬ (s.vm v).pc.Initializing)
    (hlog : TakesReturn s.log) : TakesReturn s'.log := by
  rw [h.log]
  by_cases hs : w.site = .take
  · rw [(h.of_take hserv hs).1, ← h.vm]
    exact takesReturn_take hlog
  · refine takesReturn_quiet (writes_events v n) (takesReturn_cons (fun x hx => ?_) hlog)
    rw [Event.accepted, if_pos h.result, Option.some.injEq] at hx
    rwa [← hx]

/-- An accepted write of a serving function keeps the accounts. -/
theorem Wrote.accounted (h : Wrote cfg s v n k w s')
    (hvm : s'.vm = Function.update s.vm v ((s.vm v).after n))
    (hserv : ¬ (s.vm v).pc.Initializing) (hs : Accounted B₀ s) : Accounted B₀ s' where
  bucket := by
    obtain ⟨b, hb, heq⟩ := hs.bucket
    obtain ⟨b', hb', heq'⟩ := h.bucket hserv hb
    refine ⟨b', hb', ?_⟩
    rw [h.taken, h.refilled]
    split_ifs at heq' ⊢ <;> push_cast <;> omega
  based x hx := by
    rw [h.writes_log] at hx
    rcases List.mem_cons.1 hx with rfl | hx
    · exact h.read_eq_old hserv
    · exact hs.based x hx
  takes x hx hsite := by
    rw [h.writes_log] at hx
    rcases List.mem_cons.1 hx with rfl | hx
    · exact (h.of_take hserv hsite).2
    · exact hs.takes x hx hsite
  claimed u hu := by
    rw [h.writes_log]
    rw [hvm] at hu
    -- Only `v` moved; the claims of the others are older than this write.
    by_cases huv : u = v
    · rw [huv, Function.update_self, Vm.after_pc] at hu
      rw [huv, ← h.vm]
      exact openClaim_claim _ (h.site_of_claimed hserv hu)
    · rw [Function.update_of_ne huv] at hu
      exact openClaim_cons (fun hw => absurd (hw.symm.trans h.vm) huv) (hs.claimed u hu)
  paid := by
    rw [h.writes_log]
    refine hs.paid.cons fun hsite => ?_
    rw [h.vm]
    exact hs.claimed v (h.claimed_of_refill hserv hsite)
  returns := h.takesReturn hserv hs.returns

/-- A host call that writes nothing keeps the accounts. -/
theorem Quiet.accounted (h : Quiet s v n s')
    (hvm : s'.vm = Function.update s.vm v ((s.vm v).after n)) (hs : Accounted B₀ s) :
    Accounted B₀ s' where
  bucket := by
    rw [h.data, refilled, taken, h.writes_log]
    exact hs.bucket
  based := by rw [h.writes_log]; exact hs.based
  takes := by rw [h.writes_log]; exact hs.takes
  claimed u hu := by
    rw [h.writes_log]
    rw [hvm] at hu
    by_cases huv : u = v
    · rw [huv, Function.update_self, Vm.after_pc] at hu
      rw [huv]
      exact hs.claimed v (h.claimed hu)
    · rw [Function.update_of_ne huv] at hu
      exact hs.claimed u hu
  paid := by rw [h.writes_log]; exact hs.paid
  returns := by
    obtain ⟨es, hlog, hes⟩ := h.log
    rw [hlog]
    exact takesReturn_quiet hes hs.returns

end

/-- Entering a function keeps the accounts. -/
theorem accounted_call {v : V} {f : Fn} (hn : (machine cfg).next s (.call v f) = some s')
    (hs : Accounted B₀ s) : Accounted B₀ s' := by
  obtain ⟨-, -, hvm, hd, -, hlog⟩ := call_of_next hn
  refine ⟨by rw [hd, hlog]; exact hs.bucket, by rw [hlog]; exact hs.based,
    by rw [hlog]; exact hs.takes, fun u hu => ?_, by rw [hlog]; exact hs.paid, ?_⟩
  · rw [hlog]
    rw [hvm] at hu
    by_cases huv : u = v
    · rw [huv, Function.update_self] at hu
      cases f <;> exact hu.elim
    · rw [Function.update_of_ne huv] at hu
      exact hs.claimed u hu
  · rw [hlog]
    exact takesReturn_cons (fun w hw => by cases hw) hs.returns

/-- One step of serving VMs keeps the accounts. -/
theorem accounted_step {l : Label V} (hok : ∀ v, (s.vm v).pc.Ok s.data)
    (hserv : ∀ v, ¬ (s.vm v).pc.Initializing) (hn : (machine cfg).next s l = some s')
    (hs : Accounted B₀ s) : Accounted B₀ s' := by
  cases l with
  | tick now =>
    obtain ⟨-, rfl⟩ := tick_of_next hn
    exact ⟨hs.bucket, hs.based, hs.takes, hs.claimed, hs.paid, hs.returns⟩
  | call v f => exact accounted_call hn hs
  | host v reply =>
    obtain ⟨n, hvm, -, hquiet | ⟨k, w, hwrote⟩⟩ := host_cases (hok v) hn
    · exact hquiet.accounted hvm hs
    · exact hwrote.accounted hvm (hserv v) hs

/-- **The token accounts are exact in every interleaving.** -/
theorem accounting (h₀ : Started B₀ s₀)
    (h : (machine cfg).Reaches (fun _ l => l.Serves) s₀ s) : Accounted B₀ s := by
  induction h with
  | refl => exact accounted_started h₀
  | step hr hC hn ih =>
    refine accounted_step (pcOk_of_reaches hr fun v => ?_) (serving_of_reaches hr h₀.idle) hn ih
    rw [h₀.idle v]
    trivial

/-- Two VMs read the bucket at once; the second write is rejected and repeated. -/
theorem accounting_race : ∃ s : State Bool,
    (machine ⟨1, 10, 5⟩).Reaches (fun _ l => l.Serves) (State.initialized 5 0) s ∧
      taken s.log = 2 ∧ Accounted 5 s := by
  have h : ((machine ⟨1, 10, 5⟩).run (fun _ l => l.Serves) (State.initialized 5 0 : State Bool)
      [.call false .getToken, .call true .getToken, .host false (.serve 0), .host true (.serve 0),
       .host false (.serve 2), .host true (.serve 3), .host true (.serve 0),
       .host true (.serve 3)]).isSome := by decide
  exact ⟨_, .of_isSome h, rfl, accounting (started_initialized 5 0) (.of_isSome h)⟩

end LocalRateLimit

end WasmExtensions
