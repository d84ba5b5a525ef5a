import WasmExtensions.LocalRateLimit.Accounting
import WasmExtensions.TokenBucket.Ledger

/-!
# The rate bound of the local rate limiter

The VMs simulate a token bucket with atomic operations (`Ledger`), in which at most
`B₀ + rate * (1 + (T - t₀) / interval)` tokens are taken up to time `T`.  An accepted write of
`getToken` is a `take`; the two keys that `refillToken` writes one after the other are a `claim`
and a later `pay`, and a VM that fails in between gives its claim up.

* `Timed` : the times a VM remembers are in order.
* `Books` : the relation between the VMs and the ledger, `simulation` : it is a simulation.
* `rate_bound` : **the rate bound holds in every interleaving**.
-/

namespace WasmExtensions

namespace LocalRateLimit

/-! ### The times a VM remembers -/

/-- The last refill a VM has read is not in the future, and a VM that is about to claim a refill
does so for a time that has come, since the run started at `t₀`, and long enough after it. -/
def Pc.TimesOk (cfg : Config) (t₀ clock : UInt64) : Pc → Prop
  | .refillTime lastUpdate _ => lastUpdate ≤ clock
  | .refillSetLast lastUpdate now _ =>
    lastUpdate.toNat + cfg.refillIntervalNanosec.toNat ≤ now.toNat ∧ t₀ ≤ now ∧ now ≤ clock
  | _ => True

/-- The stored time of the last refill is not in the future, nor are the times a VM remembers. -/
structure Timed (cfg : Config) (t₀ : UInt64) (d : SharedData Key UInt64) (clock : UInt64)
    (pc : Pc) : Prop where
  start_le : t₀ ≤ clock
  stored : ∀ c, d.cell .lastRefilled = some c → c.value ≤ clock
  times : pc.TimesOk cfg t₀ clock

section

variable {cfg : Config} {t₀ clock clock' : UInt64} {d d' : SharedData Key UInt64} {pc : Pc}
  {call : HostCall} {ans : Answer}

theorem Pc.TimesOk.tick (ht : clock ≤ clock') (h : pc.TimesOk cfg t₀ clock) :
    pc.TimesOk cfg t₀ clock' := by
  cases pc with
  | refillTime lastUpdate cas => exact UInt64.le_trans h ht
  | refillSetLast lastUpdate now cas => exact ⟨h.1, h.2.1, UInt64.le_trans h.2.2 ht⟩
  | _ => trivial

/-- What a VM writes as the last refill time is not in the future. -/
theorem Timed.stored_of_served (h : Timed cfg t₀ d clock pc) (hcall : hostCall cfg pc = some call)
    (hs : Served d clock call ans d') (c : Cell UInt64) (hc : d'.cell .lastRefilled = some c) :
    c.value ≤ clock := by
  cases hs with
  | @accepted k x cas fresh hf hacc =>
    by_cases hk : k = .lastRefilled
    · subst hk
      rw [SharedData.cell_write_self, Option.some.injEq] at hc
      subst hc
      cases pc <;> simp only [hostCall, reduceCtorEq, Option.some.injEq,
        HostCall.setSharedData.injEq, false_and] at hcall <;> obtain ⟨-, rfl, -⟩ := hcall
      case refillSetLast lastUpdate now cas => exact h.times.2.2
      case initSetLast n => exact UInt64.le_iff_toNat_le.2 (Nat.zero_le _)
    · rw [SharedData.cell_write_of_ne hf (Ne.symm hk)] at hc
      exact h.stored c hc
  | _ => exact h.stored c hc

theorem resume_result_timesOk (cfg : Config) (t₀ clock : UInt64) (pc : Pc) (r : WasmResult) :
    (resume cfg pc (.result r)).pc.TimesOk cfg t₀ clock := by
  obtain h | h | ⟨i, h⟩ | ⟨n, h | h⟩ := resume_result_pc cfg pc r <;> rw [h] <;> trivial

/-- `refillToken` goes on to claim a refill only when the interval has passed: the subtraction of
the code does not wrap around, since the last refill is not in the future. -/
theorem resume_refillTime {lastUpdate : UInt64} {cas : ℕ}
    (h : Timed cfg t₀ d clock (.refillTime lastUpdate cas)) :
    (resume cfg (.refillTime lastUpdate cas) (.time clock)).pc.TimesOk cfg t₀ clock := by
  simp only [resume]
  split_ifs with hint
  · trivial
  · have hle : lastUpdate ≤ clock := h.times
    have hsub := UInt64.toNat_sub_of_le _ _ hle
    rw [UInt64.lt_iff_toNat_lt, hsub, not_lt] at hint
    rw [UInt64.le_iff_toNat_le] at hle
    exact ⟨by omega, h.start_le, UInt64.le_refl _⟩

theorem Timed.resume (h : Timed cfg t₀ d clock pc) (hcall : hostCall cfg pc = some call)
    (hs : Served d clock call ans d') : (resume cfg pc ans).pc.TimesOk cfg t₀ clock := by
  cases hs with
  | read c hc =>
    cases pc <;> simp only [hostCall, reduceCtorEq, Option.some.injEq, HostCall.getSharedData.injEq]
      at hcall <;> subst hcall
    case getTokenGet i =>
      simp only [LocalRateLimit.resume]
      split_ifs <;> trivial
    case refillGetLast => exact h.stored c hc
    case refillGet => trivial
    case initGet => trivial
  | time =>
    cases pc <;> simp only [hostCall, reduceCtorEq, Option.some.injEq] at hcall
    case refillTime lastUpdate cas => exact resume_refillTime h
  | notRead r _ => exact resume_result_timesOk ..
  | refused r _ => exact resume_result_timesOk ..
  | accepted _ _ => exact resume_result_timesOk ..

end

theorem stable_timed (cfg : Config) (t₀ : UInt64) :
    Stable cfg (fun _ => True) (Timed cfg t₀) where
  tick ht h := ⟨UInt64.le_trans h.start_le ht,
    fun c hc => UInt64.le_trans (h.stored c hc) ht, h.times.tick ht⟩
  start {_ _ f} _ h := ⟨h.start_le, h.stored, by cases f <;> trivial⟩
  frame hcall h' hs h := ⟨h.start_le, h'.stored_of_served hcall hs, h.times⟩
  resume hcall hs h := ⟨h.start_le, h.stored_of_served hcall hs, h.resume hcall hs⟩

/-- What the VMs know in a run that only serves traffic. -/
theorem stable_serving (cfg : Config) (t₀ : UInt64) :
    Stable cfg (fun f => ∀ n, f ≠ .initializeTokenBucket n) fun d clock pc =>
      (pc.Ok d ∧ Timed cfg t₀ d clock pc) ∧ ¬ pc.Initializing :=
  (((stable_ok cfg).and (stable_timed cfg t₀)).mono fun _ _ => trivial).and
    (stable_not_initializing cfg)

variable {V : Type*} [DecidableEq V] {cfg : Config} {t₀ B₀ : UInt64} {s₀ s s' : State V}

/-! ### The VMs keep a ledger -/

/-- The times of the accepted writes of `getToken`, latest first. -/
def takeTimes (log : List (Event V)) : List ℕ :=
  ((writes log).filter fun w => w.site = .take).map fun w => w.time.toNat

/-- The number of tokens taken by accepted writes of `getToken` up to time `T`. -/
def takenUpTo (T : UInt64) (log : List (Event V)) : ℕ :=
  (writes log).countP fun w => w.site = .take ∧ w.time ≤ T

omit [DecidableEq V] in
theorem upTo_takeTimes (T : UInt64) (log : List (Event V)) :
    Ledger.upTo T.toNat (takeTimes log) = takenUpTo T log := by
  simp only [Ledger.upTo, takeTimes, takenUpTo, List.countP_map, List.countP_filter]
  refine List.countP_congr fun w _ => ?_
  simp [UInt64.le_iff_toNat_le, and_comm]

/-- What every VM knows in a run that only serves traffic. -/
def Knows (cfg : Config) (t₀ : UInt64) (s : State V) : Prop :=
  ∀ v, ((s.vm v).pc.Ok s.data ∧ Timed cfg t₀ s.data s.clock (s.vm v).pc) ∧
    ¬ (s.vm v).pc.Initializing

/-- The VMs and the store in state `s` keep the ledger `l`. -/
structure Books (cfg : Config) (t₀ : UInt64) (s : State V) (l : Ledger V) : Prop where
  tokens : ∃ b : UInt64, (s.data.cell .tokenBucket).map Cell.value = some b ∧ b.toNat = l.tokens
  last : ∃ x : UInt64, (s.data.cell .lastRefilled).map Cell.value = some x ∧ x.toNat = l.last
  clock : s.clock.toNat = l.clock
  owed : ∀ v, v ∈ l.owed ↔ (s.vm v).pc.Claimed
  takes : l.takes = takeTimes s.log
  knows : Knows cfg t₀ s

omit [DecidableEq V] in
theorem books_started (h : Started B₀ s)
    (hlast : (s.data.cell .lastRefilled).map Cell.value = some 0) :
    Books cfg s.clock s (Ledger.start B₀.toNat s.clock.toNat) where
  tokens := ⟨B₀, h.bucket, rfl⟩
  last := ⟨0, hlast, rfl⟩
  clock := rfl
  owed v := by rw [h.idle v]; exact iff_of_false (Finset.notMem_empty v) id
  takes := by rw [h.log]; rfl
  knows v := by
    rw [h.idle v]
    refine ⟨⟨trivial, UInt64.le_refl _, fun c hc => ?_, trivial⟩, id⟩
    rw [hc, Option.map_some, Option.some.injEq] at hlast
    rw [hlast]
    exact UInt64.le_iff_toNat_le.2 (Nat.zero_le _)

section

variable {v : V} {n : Next} {k : Key} {w : SetCall V} {l : Ledger V}

omit [DecidableEq V] in
theorem Wrote.takeTimes (h : Wrote cfg s v n k w s') :
    takeTimes s'.log =
      if w.site = .take then s.clock.toNat :: takeTimes s.log else takeTimes s.log := by
  simp only [LocalRateLimit.takeTimes, h.writes_log, List.filter_cons, decide_eq_true_eq]
  split_ifs
  · rw [List.map_cons, h.time]
  · rfl

theorem refilled_le (cfg : Config) (t : UInt64) :
    (cfg.refilled t).toNat ≤ t.toNat + cfg.tokensPerRefill.toNat := by
  have hadd : (t + cfg.tokensPerRefill).toNat ≤ t.toNat + cfg.tokensPerRefill.toNat := by
    rw [UInt64.toNat_add]
    exact Nat.mod_le ..
  unfold Config.refilled
  split_ifs with hmax
  · exact (UInt64.le_iff_toNat_le.1 (UInt64.le_of_lt hmax)).trans hadd
  · exact hadd

/-- The ledger of the limiter. -/
def Config.ledger (cfg : Config) (t₀ : UInt64) : Machine (Ledger V) (Ledger.Op V) :=
  Ledger.machine cfg.tokensPerRefill.toNat cfg.refillIntervalNanosec.toNat t₀.toNat

/-- A host call that writes nothing changes at most that a claim is given up. -/
theorem Quiet.books (h : Quiet s v n s')
    (hvm : s'.vm = Function.update s.vm v ((s.vm v).after n)) (hclock : s'.clock = s.clock)
    (hk : Knows cfg t₀ s') (hb : Books cfg t₀ s l) :
    ∃ l', (cfg.ledger t₀).Reaches (fun _ _ => True) l l' ∧ Books cfg t₀ s' l' := by
  have htakes : l.takes = LocalRateLimit.takeTimes s'.log := by
    rw [hb.takes, LocalRateLimit.takeTimes, LocalRateLimit.takeTimes, h.writes_log]
  by_cases hn : n.pc.Claimed
  · refine ⟨l, .refl, by rw [h.data]; exact hb.tokens, by rw [h.data]; exact hb.last,
      by rw [hclock]; exact hb.clock, fun u => ?_, htakes, hk⟩
    rw [pc_update hvm Pc.Claimed u, hb.owed u]
    split_ifs with huv
    · exact iff_of_true (huv ▸ h.claimed hn) hn
    · exact Iff.rfl
  · refine ⟨_, .single (l := .drop v) trivial rfl, by rw [h.data]; exact hb.tokens,
      by rw [h.data]; exact hb.last, by rw [hclock]; exact hb.clock, fun u => ?_, htakes, hk⟩
    rw [pc_update hvm Pc.Claimed u, Finset.mem_erase, hb.owed u]
    split_ifs with huv
    · exact iff_of_false (fun hu => hu.1 huv) hn
    · exact and_iff_right huv

/-- An accepted write of `getToken` takes a token, the two of `refillToken` are a claim and its
payment. -/
theorem Wrote.books (h : Wrote cfg s v n k w s')
    (hvm : s'.vm = Function.update s.vm v ((s.vm v).after n)) (hclock : s'.clock = s.clock)
    (hk : Knows cfg t₀ s') (hb : Books cfg t₀ s l) :
    ∃ l', (cfg.ledger t₀).Reaches (fun _ _ => True) l l' ∧ Books cfg t₀ s' l' := by
  obtain ⟨b, hb1, hb2⟩ := hb.tokens
  obtain ⟨x, hx1, hx2⟩ := hb.last
  have hself := h.cell_self
  have htakes := h.takeTimes
  have hold := h.old
  obtain ⟨hok, htimed⟩ := (hb.knows v).1
  obtain ⟨i, t, cas, hpc, ht, rfl, rfl, hs, -, ho, hnew⟩ |
    ⟨lastUpdate, now, cas, hpc, rfl, rfl, hs, -, ho, hnew⟩ |
    ⟨t, cas, hpc, rfl, rfl, hs, -, ho, hnew⟩ := h.serving_cases (hb.knows v).2
  · -- `getToken` writes the bucket: a take.
    obtain rfl : t = b := Option.some.inj (by rw [← ho, hold, hb1])
    have h1 := toNat_sub_one ht
    have h0 : l.tokens ≠ 0 := by omega
    refine ⟨_, .single trivial (Ledger.next_take h0),
      ⟨_, hself, by simp only [hnew]; omega⟩, by rw [h.cell_of_ne (by simp)]; exact hb.last,
      by rw [hclock]; exact hb.clock, fun u => ?_,
      by simp only [htakes, hs, if_true, hb.takes, hb.clock], hk⟩
    rw [pc_update hvm Pc.Claimed u]
    split_ifs with huv
    · rw [huv, hb.owed v, hpc]
      exact Iff.rfl
    · exact hb.owed u
  · -- `refillToken` writes the time of the last refill: a claim.
    obtain rfl : lastUpdate = x := Option.some.inj (by rw [← ho, hold, hx1])
    rw [hpc] at htimed
    obtain ⟨hint, hstart, hnow⟩ := htimed.times
    have hv : v ∉ l.owed := by rw [hb.owed v, hpc]; exact id
    have hlast : l.last + cfg.refillIntervalNanosec.toNat ≤ now.toNat := by rw [← hx2]; exact hint
    have hclk : now.toNat ≤ l.clock := by rw [← hb.clock]; exact UInt64.le_iff_toNat_le.1 hnow
    refine ⟨_, .single trivial
        (Ledger.next_claim hv hlast (UInt64.le_iff_toNat_le.1 hstart) hclk),
      by rw [h.cell_of_ne (by simp)]; exact hb.tokens, ⟨_, hself, by simp only [hnew]⟩,
      by rw [hclock]; exact hb.clock, fun u => ?_, by simp [htakes, hs, hb.takes], hk⟩
    rw [pc_update hvm Pc.Claimed u, Finset.mem_insert]
    split_ifs with huv
    · exact iff_of_true (.inl huv) trivial
    · rw [or_iff_right huv, hb.owed u]
  · -- `refillToken` writes the bucket: the claim is paid.
    obtain rfl : t = b := Option.some.inj (by rw [← ho, hold, hb1])
    have hv : v ∈ l.owed := by rw [hb.owed v, hpc]; trivial
    have hadd : (cfg.refilled t).toNat ≤ l.tokens + cfg.tokensPerRefill.toNat := by
      rw [← hb2]
      exact refilled_le cfg t
    refine ⟨_, .single trivial (Ledger.next_pay hv hadd),
      ⟨_, hself, by simp only [hnew]⟩, by rw [h.cell_of_ne (by simp)]; exact hb.last,
      by rw [hclock]; exact hb.clock, fun u => ?_, by simp [htakes, hs, hb.takes], hk⟩
    rw [pc_update hvm Pc.Claimed u, Finset.mem_erase]
    split_ifs with huv
    · exact iff_of_false (fun hu => hu.1 huv) id
    · rw [and_iff_right huv, hb.owed u]

end

/-- **The VMs simulate the ledger.** -/
theorem simulation (cfg : Config) (t₀ : UInt64) :
    (machine (V := V) cfg).Simulation (fun _ l => l.Serves) (cfg.ledger t₀) (fun _ _ => True)
      (Books cfg t₀) := by
  intro s label s' l hb hC hn
  have hk : Knows cfg t₀ s' := (stable_serving cfg t₀).step
    (fun v f hl m hf => by rw [hl, hf] at hC; exact hC) hb.knows hn
  cases label with
  | tick now =>
    obtain ⟨hle, rfl⟩ := tick_of_next hn
    have hle' : l.clock ≤ now.toNat := by rw [← hb.clock]; exact UInt64.le_iff_toNat_le.1 hle
    exact ⟨_, .single (l := .tick now.toNat) trivial (if_pos hle'),
      hb.tokens, hb.last, rfl, hb.owed, hb.takes, hk⟩
  | call v f =>
    obtain ⟨hidle, -, hvm, hd, hclock, hlog⟩ := call_of_next hn
    refine ⟨l, .refl, by rw [hd]; exact hb.tokens, by rw [hd]; exact hb.last,
      by rw [hclock]; exact hb.clock, fun u => ?_, by rw [hlog]; exact hb.takes, hk⟩
    rw [hb.owed u, hvm]
    by_cases huv : u = v
    · rw [huv, hidle, Function.update_self]
      cases f <;> exact Iff.rfl
    · rw [Function.update_of_ne huv]
  | host v reply =>
    obtain ⟨n, hvm, hclock, hquiet | ⟨k, w, hwrote⟩⟩ := host_cases (hb.knows v).1.1 hn
    · exact hquiet.books hvm hclock hk hb
    · exact hwrote.books hvm hclock hk hb

/-- **The rate bound holds in every interleaving**: up to time `T`, no more tokens are taken than
there were at the start and one refill per interval adds. -/
theorem rate_bound (hinterval : 0 < cfg.refillIntervalNanosec) (h₀ : Started B₀ s₀)
    (hlast : (s₀.data.cell .lastRefilled).map Cell.value = some 0)
    (h : (machine cfg).Reaches (fun _ l => l.Serves) s₀ s) (T : UInt64) :
    takenUpTo T s.log ≤ B₀.toNat + cfg.tokensPerRefill.toNat *
      (1 + (T.toNat - s₀.clock.toNat) / cfg.refillIntervalNanosec.toNat) := by
  obtain ⟨l, hl, hb⟩ := (simulation cfg s₀.clock).reaches (books_started h₀ hlast) h
  rw [← upTo_takeTimes, ← hb.takes]
  exact Ledger.takes_le (UInt64.lt_iff_toNat_lt.1 hinterval) hl T.toNat

/-- One VM takes the only token, another one refills the bucket, and the first takes a token
again: the bound is reached. -/
theorem rate_bound_reached : ∃ s : State Bool,
    (machine ⟨1, 10, 5⟩).Reaches (fun _ l => l.Serves) (State.initialized 1 15) s ∧
      takenUpTo 15 s.log = 2 ∧ takenUpTo 15 s.log ≤ 1 + 1 * (1 + (15 - 15) / 10) := by
  have h : ((machine ⟨1, 10, 5⟩).run (fun _ l => l.Serves) (State.initialized 1 15 : State Bool)
      [.call false .getToken, .host false (.serve 0), .call true .refillToken,
       .host false (.serve 2), .host true (.serve 0), .host true (.serve 0), .host true (.serve 2),
       .host true (.serve 0), .host true (.serve 3), .call false .getToken, .host false (.serve 0),
       .host false (.serve 4)]).isSome := by decide
  exact ⟨_, .of_isSome h, rfl,
    rate_bound (by decide) (started_initialized 1 15) rfl (.of_isSome h) 15⟩

end LocalRateLimit

end WasmExtensions
