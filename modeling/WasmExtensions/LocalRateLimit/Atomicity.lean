import WasmExtensions.LocalRateLimit.Retries
import WasmExtensions.TokenBucket.Atomic

/-!
# The bucket functions are atomic

Every function of the bucket decides with the host call after which it returns: `getToken` with the
write that takes the token or with the read that finds none, `refillToken` with the write that adds
the tokens.  So the returns, in the order in which they come, are the results of a bucket that does
one operation at a time (`AtomicBucket`), as long as the host carries the calls out.

* `operations` : the operation that each return of a log completes.
* `Effect` : all that a host call does to the bucket and to the log.
* `linearizable` : **the returns are those of an atomic bucket, a claimed refill is added exactly
  once, and a request passes without a token only after 20 interfering writes.**
-/

namespace WasmExtensions

namespace LocalRateLimit

variable {V : Type*}

/-! ### The operations of a log -/

/-- The number of tokens after a refill. -/
def Config.refill (cfg : Config) (tokens : ℕ) : ℕ := (cfg.refilled (UInt64.ofNat tokens)).toNat

/-- The operation that a return completes; `wrote` tells whether the bucket was written just before
it. -/
def Return.operation (wrote : Bool) : Return → Option AtomicBucket.Op
  | .getToken true => some (if wrote then .take else .pass)
  | .getToken false => some .refuse
  | .refillToken => some (if wrote then .refill else .skip)
  | .initializeTokenBucket _ => none

/-- What the caller sees of an operation. -/
def outcome : AtomicBucket.Op → Return
  | .take | .pass => .getToken true
  | .refuse => .getToken false
  | .refill | .skip => .refillToken

/-- The VMs and the results of the functions that serve traffic, oldest first. -/
def returns : List (Event V) → List (V × Return)
  | [] => []
  | .returned _ (.initializeTokenBucket _) :: past => returns past
  | .returned v r :: past => returns past ++ [(v, r)]
  | _ :: past => returns past

section

variable [DecidableEq V]

/-- The last event is an accepted write of the bucket by `v`. -/
def justWrote (v : V) : List (Event V) → Bool
  | .set w :: _ => w.vm = v && w.site.key = .tokenBucket && w.result = .Ok
  | _ => false

/-- The operations that were completed, oldest first. -/
def operations : List (Event V) → List (V × AtomicBucket.Op)
  | [] => []
  | .returned v r :: past =>
    operations past ++ ((r.operation (justWrote v past)).map fun op => (v, op)).toList
  | _ :: past => operations past

/-- How many refills `v` has claimed. -/
def claims (v : V) (log : List (Event V)) : ℕ :=
  (writes log).countP fun w => w.vm = v ∧ w.site = .claim

end

/-- How many refills a VM at this program point has claimed and not yet added. -/
def Pc.owed : Pc → ℕ
  | .refillGet | .refillSet _ _ => 1
  | _ => 0

/-- A write of `v` at `site` was accepted. -/
structure SetCall.AcceptedAt (w : SetCall V) (v : V) (site : Site) : Prop where
  vm : w.vm = v
  site : w.site = site
  result : w.result = .Ok

/-- The event is a write that was rejected. -/
def Event.Rejected (e : Event V) : Prop := ∃ w : SetCall V, e = .set w ∧ w.result ≠ .Ok

/-! ### What a host call does -/

/-- What a host that carries every call out does with it. -/
inductive Carried (d : SharedData Key UInt64) (clock : UInt64) :
    HostCall → Answer → SharedData Key UInt64 → Prop
  | read {k : Key} (c : Cell UInt64) : d.cell k = some c →
      Carried d clock (.getSharedData k) (.data c.value c.cas) d
  | notFound {k : Key} : d.cell k = none →
      Carried d clock (.getSharedData k) (.result .NotFound) d
  | time : Carried d clock .getCurrentTimeNanoseconds (.time clock) d
  | mismatch {k : Key} {x : UInt64} {cas : ℕ} :
      Carried d clock (.setSharedData k x cas) (.result .CasMismatch) d
  | accepted {k : Key} {x : UInt64} {cas fresh : ℕ} (h : d.Fresh k fresh) : d.Accepts k cas →
      Carried d clock (.setSharedData k x cas) (.result .Ok) (d.write k x fresh h)

variable [DecidableEq V] {cfg : Config} {s s' : State V} {v : V}

theorem carried_of_next {reply : Reply} (hreply : (Label.host v reply).Succeeds)
    (hn : (machine cfg).next s (.host v reply) = some s') :
    ∃ call ans d, hostCall cfg (s.vm v).pc = some call ∧ Carried s.data s.clock call ans d ∧
      s' = s.advance cfg v call ans d := by
  obtain ⟨call, hcall, hn⟩ := Option.bind_eq_some_iff.1 hn
  obtain ⟨⟨ans, d⟩, hans, rfl⟩ := Option.map_eq_some_iff.1 hn
  refine ⟨call, ans, d, hcall, ?_, rfl⟩
  cases reply with
  | fail r => exact hreply.elim
  | serve fresh =>
    cases call with
    | getSharedData k =>
      cases hc : s.data.cell k with
      | none =>
        simp only [Reply.answer, hc, Option.elim_none, Option.some.injEq, Prod.mk.injEq] at hans
        obtain ⟨rfl, rfl⟩ := hans
        exact .notFound hc
      | some c =>
        simp only [Reply.answer, hc, Option.elim_some, Option.some.injEq, Prod.mk.injEq] at hans
        obtain ⟨rfl, rfl⟩ := hans
        exact .read c hc
    | setSharedData k x cas =>
      simp only [Reply.answer] at hans
      split_ifs at hans with hacc hf
      · cases hans
        exact .accepted hf hacc
      · cases hans
        exact .mismatch
    | getCurrentTimeNanoseconds =>
      cases hans
      exact .time

/-- The number of tokens in the bucket. -/
def State.tokens (s : State V) : Option UInt64 := (s.data.cell .tokenBucket).map Cell.value

/-- All that a host call of `v` may do to the bucket, to the log and to what `v` owes, with the
tokens before and after it. -/
inductive Effect (cfg : Config) (s : State V) (v : V) (s' : State V) : UInt64 → UInt64 → Prop
  | take (t : UInt64) (w : SetCall V) : t ≠ 0 → w.AcceptedAt v .take →
      s'.log = .returned v (.getToken true) :: .set w :: s.log → (s'.vm v).pc.owed = 0 →
      (s.vm v).pc.owed = 0 → Effect cfg s v s' t (t - 1)
  | refuse : s'.log = .returned v (.getToken false) :: s.log → (s'.vm v).pc.owed = 0 →
      (s.vm v).pc.owed = 0 → Effect cfg s v s' 0 0
  | pass (t : UInt64) (e : Event V) : e.Rejected →
      s'.log = .returned v (.getToken true) :: e :: s.log → (s'.vm v).pc.owed = 0 →
      (s.vm v).pc.owed = 0 → Effect cfg s v s' t t
  | refill (t : UInt64) (w : SetCall V) : w.AcceptedAt v .refill →
      s'.log = .returned v .refillToken :: .set w :: s.log → (s'.vm v).pc.owed = 0 →
      (s.vm v).pc.owed = 1 → Effect cfg s v s' t (cfg.refilled t)
  | skip (t : UInt64) (es : List (Event V)) : (∀ e ∈ es, e.Rejected) →
      s'.log = .returned v .refillToken :: (es ++ s.log) → (s'.vm v).pc.owed = 0 →
      (s.vm v).pc.owed = 0 → Effect cfg s v s' t t
  | claim (t : UInt64) (w : SetCall V) : w.AcceptedAt v .claim → s'.log = .set w :: s.log →
      (s'.vm v).pc.owed = 1 → (s.vm v).pc.owed = 0 → Effect cfg s v s' t t
  | goes (t : UInt64) (es : List (Event V)) : (∀ e ∈ es, e.Rejected) → s'.log = es ++ s.log →
      (s'.vm v).pc.owed = (s.vm v).pc.owed → Effect cfg s v s' t t

section

variable {call : HostCall} {ans : Answer} {d : SharedData Key UInt64} {pc : Pc} {n : Next}

/-- The program point of a VM after its host call. -/
theorem pc_advance (hpc : (s.vm v).pc = pc) (hnext : resume cfg pc ans = n) :
    ((s.advance cfg v call ans d).vm v).pc = n.pc := by
  show (Function.update s.vm v ((s.vm v).after (resume cfg (s.vm v).pc ans)) v).pc = n.pc
  rw [Function.update_self, Vm.after_pc, hpc, hnext]

/-- A call that does not write logs only that the function returns. -/
theorem log_advance (hpc : (s.vm v).pc = pc) (hnext : resume cfg pc ans = n)
    (hwrite : pc.write = none) : (s.advance cfg v call ans d).log = n.events v ++ s.log := by
  have hset : s.setEvents v call ans = [] := by
    unfold State.setEvents
    split
    · rw [hpc, hwrite]
      rfl
    · rfl
  show (resume cfg (s.vm v).pc ans).events v ++ s.setEvents v call ans ++ s.log = _
  rw [hpc, hnext, hset, List.append_nil]

/-- A call that writes logs its outcome. -/
theorem log_advance_set {k : Key} {x : UInt64} {cas : ℕ} {r : WasmResult} {site : Site}
    {read : Option UInt64} (hpc : (s.vm v).pc = pc) (hnext : resume cfg pc (.result r) = n)
    (hwrite : pc.write = some (site, read)) :
    ∃ w : SetCall V, w.vm = v ∧ w.site = site ∧ w.result = r ∧
      (s.advance cfg v (.setSharedData k x cas) (.result r) d).log =
        n.events v ++ .set w :: s.log := by
  refine ⟨⟨v, site, s.clock, read, (s.data.cell k).map Cell.value, x, r⟩, rfl, rfl, rfl, ?_⟩
  show (resume cfg (s.vm v).pc (.result r)).events v ++
    s.setEvents v (.setSharedData k x cas) (.result r) ++ s.log = _
  rw [hpc, hnext]
  simp [State.setEvents, hpc, hwrite]

end

section

variable {call : HostCall} {ans : Answer} {d : SharedData Key UInt64} {t : UInt64}

/-- The write of `getToken`. -/
theorem effect_getTokenSet {i : ℕ} {tokenLeft : UInt64} {cas : ℕ} (ht : s.tokens = some t)
    (hpc : (s.vm v).pc = .getTokenSet i tokenLeft cas)
    (hok : (Pc.getTokenSet i tokenLeft cas).Ok s.data)
    (hcarried : Carried s.data s.clock (.setSharedData .tokenBucket (tokenLeft - 1) cas) ans d) :
    ∃ t', (s.advance cfg v (.setSharedData .tokenBucket (tokenLeft - 1) cas) ans d).tokens =
      some t' ∧
      Effect cfg s v (s.advance cfg v (.setSharedData .tokenBucket (tokenLeft - 1) cas) ans d) t
        t' := by
  cases hcarried with
  | accepted hf hacc =>
    obtain rfl : t = tokenLeft := Option.some.inj (ht.symm.trans (hok.1.value_eq hacc))
    have hnext : resume cfg (.getTokenSet i t cas) (.result .Ok) = .done (.getToken true) := rfl
    obtain ⟨w, hvm, hsite, hresult, hlog⟩ := log_advance_set hpc hnext rfl
    exact ⟨t - 1, congrArg (Option.map Cell.value) (SharedData.cell_write_self hf),
      .take t w hok.2 ⟨hvm, hsite, hresult⟩ hlog (by rw [pc_advance hpc hnext]; rfl)
        (by rw [hpc]; rfl)⟩
  | mismatch =>
    have hnext : resume cfg (.getTokenSet i tokenLeft cas) (.result .CasMismatch) =
      retryGetToken i := rfl
    obtain ⟨w, hvm, hsite, hresult, hlog⟩ := log_advance_set hpc hnext rfl
    have hrejected : (Event.set w).Rejected := ⟨w, rfl, by rw [hresult]; simp⟩
    refine ⟨t, ht, ?_⟩
    rw [retryGetToken] at hnext hlog
    by_cases hretry : i + 1 < maxGetTokenRetry
    · rw [if_pos hretry] at hnext hlog
      exact .goes t [.set w] (by simpa using hrejected) hlog
        (by rw [pc_advance hpc hnext, hpc]; rfl)
    · rw [if_neg hretry] at hnext hlog
      exact .pass t (.set w) hrejected hlog (by rw [pc_advance hpc hnext]; rfl) (by rw [hpc]; rfl)

/-- The first write of `refillToken`. -/
theorem effect_refillSetLast {lastUpdate now : UInt64} {cas : ℕ} (ht : s.tokens = some t)
    (hpc : (s.vm v).pc = .refillSetLast lastUpdate now cas)
    (hcarried : Carried s.data s.clock (.setSharedData .lastRefilled now cas) ans d) :
    (s.advance cfg v (.setSharedData .lastRefilled now cas) ans d).tokens = some t ∧
      Effect cfg s v (s.advance cfg v (.setSharedData .lastRefilled now cas) ans d) t t := by
  cases hcarried with
  | accepted hf hacc =>
    have hnext : resume cfg (.refillSetLast lastUpdate now cas) (.result .Ok) =
      .goto .refillGet := rfl
    have hne : Key.tokenBucket ≠ .lastRefilled := by simp
    have hbucket := SharedData.cell_write_of_ne (v := now) hf hne
    obtain ⟨w, hvm, hsite, hresult, hlog⟩ := log_advance_set hpc hnext rfl
    exact ⟨(congrArg (Option.map Cell.value) hbucket).trans ht,
      .claim t w ⟨hvm, hsite, hresult⟩ hlog (by rw [pc_advance hpc hnext]; rfl)
        (by rw [hpc]; rfl)⟩
  | mismatch =>
    have hnext : resume cfg (.refillSetLast lastUpdate now cas) (.result .CasMismatch) =
      .done .refillToken := rfl
    obtain ⟨w, hvm, hsite, hresult, hlog⟩ := log_advance_set hpc hnext rfl
    exact ⟨ht, .skip t [.set w] (by simpa using ⟨w, rfl, by rw [hresult]; simp⟩) hlog
      (by rw [pc_advance hpc hnext]; rfl) (by rw [hpc]; rfl)⟩

/-- The second write of `refillToken`. -/
theorem effect_refillSet {tokenLeft : UInt64} {cas : ℕ} (ht : s.tokens = some t)
    (hpc : (s.vm v).pc = .refillSet tokenLeft cas) (hok : (Pc.refillSet tokenLeft cas).Ok s.data)
    (hcarried : Carried s.data s.clock (.setSharedData .tokenBucket (cfg.refilled tokenLeft) cas)
      ans d) :
    ∃ t', (s.advance cfg v (.setSharedData .tokenBucket (cfg.refilled tokenLeft) cas) ans
      d).tokens = some t' ∧
      Effect cfg s v (s.advance cfg v (.setSharedData .tokenBucket (cfg.refilled tokenLeft) cas)
        ans d) t t' := by
  cases hcarried with
  | accepted hf hacc =>
    obtain rfl : t = tokenLeft :=
      Option.some.inj (ht.symm.trans (SharedData.Snapshot.value_eq hok hacc))
    have hnext : resume cfg (.refillSet t cas) (.result .Ok) = .done .refillToken := rfl
    obtain ⟨w, hvm, hsite, hresult, hlog⟩ := log_advance_set hpc hnext rfl
    exact ⟨cfg.refilled t, congrArg (Option.map Cell.value) (SharedData.cell_write_self hf),
      .refill t w ⟨hvm, hsite, hresult⟩ hlog (by rw [pc_advance hpc hnext]; rfl)
        (by rw [hpc]; rfl)⟩
  | mismatch =>
    have hnext : resume cfg (.refillSet tokenLeft cas) (.result .CasMismatch) =
      .goto .refillGet := rfl
    obtain ⟨w, hvm, hsite, hresult, hlog⟩ := log_advance_set hpc hnext rfl
    exact ⟨t, ht, .goes t [.set w] (by simpa using ⟨w, rfl, by rw [hresult]; simp⟩) hlog
      (by rw [pc_advance hpc hnext, hpc]; rfl)⟩

end

/-- **What a host call does**, when the VM serves traffic on an existing bucket. -/
theorem effect_of_next {reply : Reply} {t : UInt64} (hok : (s.vm v).pc.Ok s.data)
    (hserv : ¬ (s.vm v).pc.Initializing) (ht : s.tokens = some t)
    (hreply : (Label.host v reply).Succeeds)
    (hn : (machine cfg).next s (.host v reply) = some s') :
    ∃ t', s'.tokens = some t' ∧ Effect cfg s v s' t t' := by
  obtain ⟨call, ans, d, hcall, hcarried, rfl⟩ := carried_of_next hreply hn
  have hbucket {c : Cell UInt64} (hc : s.data.cell .tokenBucket = some c) : c.value = t := by
    rw [State.tokens, hc] at ht
    exact Option.some.inj ht
  have hnone (hc : s.data.cell .tokenBucket = none) : False := by
    rw [State.tokens, hc] at ht
    cases ht
  cases hpc : (s.vm v).pc <;> rw [hpc] at hcall hok hserv <;> cases hcall
  case getTokenGet i =>
    cases hcarried with
    | notFound hc => exact (hnone hc).elim
    | read c hc =>
      have hnext := resume_getTokenGet cfg i c.value c.cas
      by_cases hzero : c.value = 0
      · rw [if_pos hzero] at hnext
        obtain rfl : t = 0 := (hbucket hc).symm.trans hzero
        exact ⟨0, ht, .refuse (log_advance hpc hnext rfl) (by rw [pc_advance hpc hnext]; rfl)
          (by rw [hpc]; rfl)⟩
      · rw [if_neg hzero] at hnext
        exact ⟨t, ht, .goes t [] (by simp) (log_advance hpc hnext rfl)
          (by rw [pc_advance hpc hnext, hpc]; rfl)⟩
  case getTokenSet i tokenLeft cas => exact effect_getTokenSet ht hpc hok hcarried
  case refillGetLast =>
    cases hcarried with
    | read c hc =>
      have hnext : resume cfg .refillGetLast (.data c.value c.cas) =
        .goto (.refillTime c.value c.cas) := rfl
      exact ⟨t, ht, .goes t [] (by simp) (log_advance hpc hnext rfl)
        (by rw [pc_advance hpc hnext, hpc]; rfl)⟩
    | notFound hc =>
      have hnext : resume cfg .refillGetLast (.result .NotFound) = .done .refillToken := rfl
      exact ⟨t, ht, .skip t [] (by simp) (log_advance hpc hnext rfl)
        (by rw [pc_advance hpc hnext]; rfl) (by rw [hpc]; rfl)⟩
  case refillTime lastUpdate cas =>
    cases hcarried
    by_cases hearly : s.clock - lastUpdate < cfg.refillIntervalNanosec
    · have hnext : resume cfg (.refillTime lastUpdate cas) (.time s.clock) = .done .refillToken :=
        if_pos hearly
      exact ⟨t, ht, .skip t [] (by simp) (log_advance hpc hnext rfl)
        (by rw [pc_advance hpc hnext]; rfl) (by rw [hpc]; rfl)⟩
    · have hnext : resume cfg (.refillTime lastUpdate cas) (.time s.clock) =
        .goto (.refillSetLast lastUpdate s.clock cas) := if_neg hearly
      exact ⟨t, ht, .goes t [] (by simp) (log_advance hpc hnext rfl)
        (by rw [pc_advance hpc hnext, hpc]; rfl)⟩
  case refillSetLast lastUpdate now cas => exact ⟨t, effect_refillSetLast ht hpc hcarried⟩
  case refillGet =>
    cases hcarried with
    | notFound hc => exact (hnone hc).elim
    | read c hc =>
      have hnext : resume cfg .refillGet (.data c.value c.cas) =
        .goto (.refillSet c.value c.cas) := rfl
      exact ⟨t, ht, .goes t [] (by simp) (log_advance hpc hnext rfl)
        (by rw [pc_advance hpc hnext, hpc]; rfl)⟩
  case refillSet tokenLeft cas => exact effect_refillSet ht hpc hok hcarried
  all_goals exact absurd trivial hserv

/-! ### The operations of longer logs -/

omit [DecidableEq V] in
theorem outcome_of_operation {wrote : Bool} {r : Return} {op : AtomicBucket.Op}
    (h : r.operation wrote = some op) : outcome op = r := by
  cases r with
  | getToken result => cases result <;> cases wrote <;> cases h <;> rfl
  | refillToken => cases wrote <;> cases h <;> rfl
  | initializeTokenBucket result => cases h

/-- The operations have the results that are returned. -/
theorem returns_eq_operations (log : List (Event V)) :
    returns log = (operations log).map fun p => (p.1, outcome p.2) := by
  induction log with
  | nil => rfl
  | cons e past ih =>
    cases e with
    | called u f => exact ih
    | set w => exact ih
    | returned u r =>
      rw [operations, List.map_append, ← ih]
      cases r with
      | initializeTokenBucket result => simp [returns, Return.operation]
      | getToken result =>
        cases hop : (Return.getToken result).operation (justWrote u past) with
        | none => cases result <;> cases hop
        | some op => simp [returns, outcome_of_operation hop]
      | refillToken =>
        cases hop : Return.refillToken.operation (justWrote u past) with
        | none => cases hop
        | some op => simp [returns, outcome_of_operation hop]

section

variable {u : V} {w : SetCall V} {site : Site} {e : Event V} {es log : List (Event V)}

theorem operations_rejected (hes : ∀ e ∈ es, e.Rejected) :
    operations (es ++ log) = operations log := by
  induction es with
  | nil => rfl
  | cons e es ih =>
    rw [List.forall_mem_cons] at hes
    obtain ⟨⟨w, rfl, -⟩, hes⟩ := hes
    exact ih hes

theorem justWrote_rejected (hes : ∀ e ∈ es, e.Rejected) (h : justWrote u log = false) :
    justWrote u (es ++ log) = false := by
  cases es with
  | nil => exact h
  | cons e es =>
    obtain ⟨w, rfl, hresult⟩ := hes e List.mem_cons_self
    simp [justWrote, hresult]

theorem claims_rejected (hes : ∀ e ∈ es, e.Rejected) : claims u (es ++ log) = claims u log := by
  have hwrites : writes es = [] := by
    refine List.filterMap_eq_nil_iff.2 fun e he => ?_
    obtain ⟨w, rfl, hresult⟩ := hes e he
    exact if_neg hresult
  rw [claims, writes_append, hwrites, List.nil_append, claims]

theorem claims_returned {r : Return} : claims u (.returned v r :: log) = claims u log := rfl

theorem claims_set (hw : w.AcceptedAt v site) :
    claims u (.set w :: log) = claims u log + if v = u ∧ site = .claim then 1 else 0 := by
  rw [claims, writes_set, if_pos hw.result, List.countP_cons, hw.vm, hw.site, claims]
  simp only [decide_eq_true_eq]

theorem justWrote_set (hw : w.AcceptedAt v site) (hsite : site.key = .tokenBucket) :
    justWrote v (.set w :: log) = true := by
  simp [justWrote, hw.vm, hw.site, hw.result, hsite]

end

/-! ### The order of the operations -/

/-- What the log says of the bucket, when it held `B₀` tokens at the start. -/
structure Linearized (cfg : Config) (B₀ : UInt64) (s : State V) : Prop where
  tokens : ∃ t, s.tokens = some t ∧
    AtomicBucket.Does cfg.refill B₀.toNat ((operations s.log).map Prod.snd) t.toNat
  claimed : ∀ u, claims u s.log = (operations s.log).count (u, .refill) + (s.vm u).pc.owed
  /-- A write of the bucket is never the last event. -/
  settled : ∀ u, justWrote u s.log = false

section

variable {B₀ t : UInt64}

/-- The return of a function completes an operation. -/
theorem Linearized.returned {t' : UInt64} {past : List (Event V)} {r : Return}
    (op : AtomicBucket.Op) (h : Linearized cfg B₀ s) (ht : s.tokens = some t)
    (ht' : s'.tokens = some t') (hvm : ∀ u, u ≠ v → s'.vm u = s.vm u)
    (hlog : s'.log = .returned v r :: past) (hpast : operations past = operations s.log)
    (hclaims : ∀ u, claims u past = claims u s.log)
    (hop : r.operation (justWrote v past) = some op)
    (hnext : (AtomicBucket.machine cfg.refill).next t.toNat op = some t'.toNat)
    (howed : (s.vm v).pc.owed = (if op = .refill then 1 else 0) + (s'.vm v).pc.owed) :
    Linearized cfg B₀ s' := by
  have hoperations : operations s'.log = operations s.log ++ [(v, op)] := by
    rw [hlog, operations, hop, hpast]
    rfl
  obtain ⟨t₀, ht₀, hdoes⟩ := h.tokens
  obtain rfl : t₀ = t := Option.some.inj (ht₀.symm.trans ht)
  refine ⟨⟨t', ht', ?_⟩, fun u => ?_, fun u => by rw [hlog]; rfl⟩
  · rw [hoperations, List.map_append]
    exact hdoes.concat hnext
  · have hclaimed := h.claimed u
    rw [hoperations, List.count_append, List.count_singleton, hlog, claims_returned, hclaims u,
      hclaimed]
    by_cases hu : u = v
    · subst hu
      simp only [beq_iff_eq, Prod.mk.injEq, true_and]
      omega
    · rw [hvm u hu]
      simp [Ne.symm hu]

theorem Linearized.of_effect {t' : UInt64} (h : Linearized cfg B₀ s) (ht : s.tokens = some t)
    (ht' : s'.tokens = some t') (hvm : ∀ u, u ≠ v → s'.vm u = s.vm u)
    (heffect : Effect cfg s v s' t t') : Linearized cfg B₀ s' := by
  obtain ⟨t₀, ht₀, hdoes⟩ := h.tokens
  obtain rfl : t₀ = t := Option.some.inj (ht₀.symm.trans ht)
  cases heffect with
  | take _ w hpositive hw hlog howed' howed =>
    have hsub := toNat_sub_one hpositive
    refine h.returned .take ht ht' hvm hlog rfl (fun u => ?_) ?_ ?_ (by simp [howed, howed'])
    · simp [claims_set hw]
    · rw [justWrote_set hw rfl]
      rfl
    · simp only [AtomicBucket.machine]
      rw [if_neg (by omega), ← hsub, Nat.add_sub_cancel]
  | refuse hlog howed' howed =>
    exact h.returned .refuse ht ht' hvm hlog rfl (fun u => rfl) rfl rfl
      (by simp [howed, howed'])
  | pass _ e he hlog howed' howed =>
    have hes : ∀ e' ∈ [e], e'.Rejected := by simpa using he
    refine h.returned .pass ht ht' hvm hlog (operations_rejected hes)
      (fun u => claims_rejected hes) ?_ rfl (by simp [howed, howed'])
    rw [show e :: s.log = [e] ++ s.log from rfl, justWrote_rejected hes (h.settled v)]
    rfl
  | refill _ w hw hlog howed' howed =>
    refine h.returned .refill ht ht' hvm hlog rfl (fun u => ?_) ?_ ?_
      (by simp [howed, howed'])
    · simp [claims_set hw]
    · rw [justWrote_set hw rfl]
      rfl
    · simp [AtomicBucket.machine, Config.refill]
  | skip _ es hes hlog howed' howed =>
    refine h.returned .skip ht ht' hvm hlog (operations_rejected hes)
      (fun u => claims_rejected hes) ?_ rfl (by simp [howed, howed'])
    rw [justWrote_rejected hes (h.settled v)]
    rfl
  | claim _ w hw hlog howed' howed =>
    refine ⟨⟨_, ht', ?_⟩, fun u => ?_, fun u => ?_⟩
    · rw [hlog]
      exact hdoes
    · have hclaimed := h.claimed u
      rw [hlog, claims_set hw, hclaimed]
      by_cases hu : u = v
      · subst hu
        rw [howed, howed', if_pos ⟨rfl, rfl⟩]
        rfl
      · rw [hvm u hu, if_neg fun heq => hu heq.1.symm]
        rfl
    · rw [hlog]
      simp [justWrote, hw.site, Site.key]
  | goes _ es hes hlog howed =>
    refine ⟨⟨_, ht', ?_⟩, fun u => ?_, fun u => ?_⟩
    · rw [hlog, operations_rejected hes]
      exact hdoes
    · rw [hlog, operations_rejected hes, claims_rejected hes, h.claimed u]
      by_cases hu : u = v
      · rw [hu, howed]
      · rw [hvm u hu]
    · rw [hlog]
      exact justWrote_rejected hes (h.settled u)

theorem Linearized.step {l : Label V} (h : Linearized cfg B₀ s)
    (hok : ∀ v, (s.vm v).pc.Ok s.data) (hserv : ∀ v, ¬ (s.vm v).pc.Initializing)
    (hl : l.Succeeds) (hn : (machine cfg).next s l = some s') (hserves : l.Serves) :
    Linearized cfg B₀ s' := by
  obtain ⟨t, ht, hdoes⟩ := h.tokens
  cases l with
  | tick now =>
    obtain ⟨-, rfl⟩ := tick_of_next hn
    exact ⟨⟨t, ht, hdoes⟩, h.claimed, h.settled⟩
  | call v f =>
    obtain ⟨hidle, -, hvm, hdata, -, hlog⟩ := call_of_next hn
    refine ⟨⟨t, by rw [State.tokens, hdata]; exact ht, by rw [hlog]; exact hdoes⟩, fun u => ?_,
      fun u => by rw [hlog]; rfl⟩
    have howed : (s'.vm u).pc.owed = (s.vm u).pc.owed := by
      rw [hvm]
      by_cases hu : u = v
      · rw [hu, Function.update_self, hidle]
        cases f <;> rfl
      · rw [Function.update_of_ne hu]
    rw [hlog, howed]
    exact h.claimed u
  | host v reply =>
    obtain ⟨t', ht', heffect⟩ := effect_of_next (hok v) (hserv v) ht hl hn
    refine h.of_effect ht ht' (fun u hu => ?_) heffect
    have hv : (Label.host v reply).vm ≠ some u := fun hv => hu (Option.some.inj hv).symm
    exact (step_of_ne hv hn).1

end

/-! ### Runs -/

variable {B₀ : UInt64} {s₀ : State V}

theorem linearized_of_reaches (h₀ : Started B₀ s₀)
    (h : (machine cfg).Reaches (fun _ l => l.Succeeds ∧ l.Serves) s₀ s) : Linearized cfg B₀ s := by
  induction h with
  | refl =>
    refine ⟨⟨B₀, h₀.bucket, ?_⟩, fun u => ?_, fun u => ?_⟩
    · rw [h₀.log]
      exact AtomicBucket.does_nil
    · rw [h₀.log, h₀.idle u]
      rfl
    · rw [h₀.log]
      rfl
  | step hr hC hn ih =>
    have hok := pcOk_of_reaches hr fun v => by
      rw [h₀.idle v]
      trivial
    have hserv := serving_of_reaches (hr.mono fun _ _ hC => hC.2) h₀.idle
    exact ih.step hok hserv hC.1 hn hC.2

/-- **The bucket functions are atomic.**  Their results, in the order in which they are returned,
are those of a bucket that does the operations one after the other and ends with the stored number
of tokens; every claimed refill is added once, unless the VM is still about to add it; and a request
that took no token has passed only after 20 interfering writes. -/
theorem linearizable (h₀ : Started B₀ s₀)
    (h : (machine cfg).Reaches (fun _ l => l.Succeeds ∧ l.Serves) s₀ s) :
    (∃ t, s.tokens = some t ∧
      AtomicBucket.Does cfg.refill B₀.toNat ((operations s.log).map Prod.snd) t.toNat) ∧
    returns s.log = ((operations s.log).map fun p => (p.1, outcome p.2)) ∧
    (∀ v, claims v s.log = (operations s.log).count (v, .refill) + (s.vm v).pc.owed) ∧
    ∀ v newer past, s.log = newer ++ .returned v (.getToken true) :: past →
      justWrote v past = false → ∃ during before, past = during ++ .called v .getToken :: before ∧
        .called v .getToken ∉ during ∧ maxGetTokenRetry ≤ interference v during := by
  have hlinearized := linearized_of_reaches h₀ h
  refine ⟨hlinearized.tokens, returns_eq_operations s.log, hlinearized.claimed, ?_⟩
  intro v newer past hlog hwrote
  obtain ⟨-, hpaid⟩ := takesPaid_of_reaches h₀ (h.mono fun _ _ hC => hC.1)
  have hhistory := hpaid.log
  rw [hlog] at hhistory
  rcases hhistory.of_append with ⟨w, rest, rfl, hvm, hsite, hresult⟩ | hcall
  · rw [justWrote_set ⟨hvm, hsite, hresult⟩ rfl] at hwrote
    cases hwrote
  · exact hcall

/-- While a VM adds the tokens of a refill, another one takes one: the take comes first. -/
theorem linearizable_race : ∃ s : State Bool,
    operations s.log = [(false, .take), (true, .refill)] ∧ s.tokens = some 5 ∧
      ∃ t, s.tokens = some t ∧ AtomicBucket.Does (Config.refill ⟨1, 10, 5⟩) 5
        ((operations s.log).map Prod.snd) t.toNat := by
  have h : ((machine ⟨1, 10, 5⟩).run (fun _ l => l.Succeeds ∧ l.Serves)
      (State.initialized 5 15 : State Bool) (claimRefill ++ takeInBetween)).isSome := by decide
  refine ⟨_, ?_, ?_, (linearizable (started_initialized 5 15) (.of_isSome h)).1⟩
  · decide +revert
  · decide +revert

end LocalRateLimit

end WasmExtensions
