import WasmExtensions.LocalRateLimit.Accounting
import WasmExtensions.LocalRateLimit.Availability

/-!
# Retries are paid for

`refillToken` repeats its update of the bucket until no other VM comes in between, and `getToken`
lets the request through after 20 attempts.  On an existing bucket, with a host that carries every
call out, a write is rejected only if another VM has written the bucket after it was read: every
retry is paid for by a write of its own.

* `attempts`, `interference` : the attempts of a VM, and the writes that other VMs bring in.
* `stale` : a VM whose copy of the bucket is outdated will fail, and is paid for already.
* `retries_paid` : **a refill makes at most one attempt more than there are interfering writes, and
  `getToken` gives up only after 20 of them.**
-/

namespace WasmExtensions

namespace LocalRateLimit

variable {V : Type*}

/-! ### Attempts and interference -/

/-- The host carries the call out. -/
def Label.Succeeds : Label V → Prop
  | .host _ (.fail _) => False
  | _ => True

instance : (l : Label V) → Decidable l.Succeeds
  | .host _ (.fail _) => isFalse id
  | .host _ (.serve _) | .call _ _ | .tick _ => isTrue trivial

/-- The VM that makes the step. -/
def Label.vm : Label V → Option V
  | .tick _ => none
  | .call v _ | .host v _ => some v

/-- The VM that an event is about. -/
def Event.vm : Event V → V
  | .called v _ | .returned v _ => v
  | .set w => w.vm

/-- The key that is written at a site. -/
def Site.key : Site → Key
  | .take | .refill | .initBucket => .tokenBucket
  | .claim | .initLast => .lastRefilled

section

variable [DecidableEq V] (v : V)

/-- The event is an attempt of `v` to write the refilled bucket. -/
def Event.attempts : Event V → Bool
  | .set w => w.vm = v && w.site = .refill
  | _ => false

/-- How often `v` has tried to write the refilled bucket. -/
def attempts (log : List (Event V)) : ℕ := log.countP fun e => e.attempts v

/-- The number of accepted writes of the bucket by other VMs. -/
def interference (log : List (Event V)) : ℕ :=
  (writes log).countP fun w => w.vm ≠ v ∧ w.site.key = .tokenBucket

/-- The host calls of `v`. -/
def hostCalls (ls : List (Label V)) : ℕ :=
  ls.countP fun l => match l with
    | .host u _ => u = v
    | _ => false

end

/-- A copy of the bucket with the version `cas` is outdated. -/
def stale (d : SharedData Key UInt64) (cas : ℕ) : ℕ := if d.Accepts .tokenBucket cas then 0 else 1

section

variable [DecidableEq V] {v : V} {log log' : List (Event V)} {e : Event V} {w : SetCall V}

@[simp] theorem attempts_append :
    attempts v (log ++ log') = attempts v log + attempts v log' :=
  List.countP_append

@[simp] theorem interference_append :
    interference v (log ++ log') = interference v log + interference v log' := by
  simp [interference, List.countP_append]

theorem attempts_eq_zero (h : ∀ e ∈ log, e.vm ≠ v) : attempts v log = 0 := by
  refine List.countP_eq_zero.2 fun e he => ?_
  cases e with
  | set w =>
    have hw : w.vm ≠ v := h _ he
    simp [Event.attempts, hw]
  | called u f => simp [Event.attempts]
  | returned u r => simp [Event.attempts]

theorem interference_eq_zero (h : ∀ e ∈ log, e.vm = v) : interference v log = 0 := by
  refine List.countP_eq_zero.2 fun w hw => ?_
  obtain ⟨e, he, haccepted⟩ := List.mem_filterMap.1 hw
  cases e with
  | set w' =>
    simp only [Event.accepted] at haccepted
    split_ifs at haccepted
    cases haccepted
    have hvm : w.vm = v := h _ he
    simp [hvm]
  | called u f => cases haccepted
  | returned u r => cases haccepted

end

theorem stale_le_one (d : SharedData Key UInt64) (cas : ℕ) : stale d cas ≤ 1 := by
  simp only [stale]
  split_ifs <;> simp

/-- A copy that was just read is not outdated. -/
theorem stale_of_cell {d : SharedData Key UInt64} {c : Cell UInt64}
    (h : d.cell .tokenBucket = some c) : stale d c.cas = 0 :=
  if_pos (.inr (by simp [h]))

/-- The write at a program point is of the key of its site. -/
theorem write_of_hostCall {cfg : Config} {pc : Pc} {k : Key} {x : UInt64} {cas : ℕ}
    (h : hostCall cfg pc = some (.setSharedData k x cas)) :
    ∃ site read, pc.write = some (site, read) ∧ site.key = k := by
  cases pc <;> simp only [hostCall, reduceCtorEq, Option.some.injEq,
    HostCall.setSharedData.injEq] at h <;> obtain ⟨rfl, -, -⟩ := h <;> exact ⟨_, _, rfl, rfl⟩

/-! ### The steps of the other VMs -/

variable [DecidableEq V] {cfg : Config} {s s' : State V} {v : V}

omit [DecidableEq V] in
/-- A host call logs that the function returns, or that it has tried to write. -/
theorem events_cases {u : V} {n : Next} {call : HostCall} {ans : Answer} {e : Event V}
    (h : e ∈ n.events u ++ s.setEvents u call ans) :
    (∃ r, n = .done r ∧ e = .returned u r) ∨ ∃ w : SetCall V, w.vm = u ∧ e = .set w := by
  rcases List.mem_append.1 h with h | h
  · cases n with
    | goto pc => cases h
    | done r => exact .inl ⟨r, rfl, List.mem_singleton.1 h⟩
  · unfold State.setEvents at h
    split at h
    · obtain ⟨p, -, rfl⟩ := List.mem_map.1 h
      exact .inr ⟨_, rfl, rfl⟩
    · cases h

omit [DecidableEq V] in
/-- The log entries of a host call are about its VM. -/
theorem vm_of_mem_events {u : V} {n : Next} {call : HostCall} {ans : Answer} {e : Event V}
    (h : e ∈ n.events u ++ s.setEvents u call ans) : e.vm = u := by
  obtain ⟨r, -, rfl⟩ | ⟨w, hw, rfl⟩ := events_cases h
  · rfl
  · exact hw

/-- The step of another VM leaves a copy of the bucket as it is, or is an interfering write. -/
theorem stale_of_served {u : V} (hu : u ≠ v) {call : HostCall} {ans : Answer}
    {d : SharedData Key UInt64} (hcall : hostCall cfg (s.vm u).pc = some call)
    (hserved : Served s.data s.clock call ans d) (cas : ℕ) :
    stale d cas ≤ stale s.data cas + interference v (s.setEvents u call ans) := by
  cases hserved with
  | @accepted k x cas' fresh hf hacc =>
    obtain ⟨site, read, hwrite, hkey⟩ := write_of_hostCall hcall
    by_cases hk : k = .tokenBucket
    · have hinterference : interference v
          (s.setEvents u (.setSharedData k x cas') (.result .Ok)) = 1 := by
        simp [State.setEvents, hwrite, interference, writes_set, hu, hkey, hk]
      have hle := stale_le_one (s.data.write k x fresh hf) cas
      omega
    · have hsame : (s.data.write k x fresh hf).Accepts .tokenBucket cas ↔
          s.data.Accepts .tokenBucket cas := by
        simp only [SharedData.Accepts, SharedData.cell_write_of_ne hf (Ne.symm hk)]
      simp [stale, hsame]
  | read | notRead | time | refused => exact Nat.le_add_right ..

/-- **What the steps of the others are for a VM**: nothing is said about it, and its copy of the
bucket is outdated only by an interfering write. -/
theorem step_of_ne {l : Label V} (hl : l.vm ≠ some v) (hn : (machine cfg).next s l = some s') :
    s'.vm v = s.vm v ∧ ∃ es, s'.log = es ++ s.log ∧ (∀ e ∈ es, e.vm ≠ v) ∧
      ∀ cas, stale s'.data cas ≤ stale s.data cas + interference v es := by
  cases l with
  | tick now =>
    obtain ⟨-, rfl⟩ := tick_of_next hn
    exact ⟨rfl, [], rfl, by simp, fun cas => Nat.le_add_right ..⟩
  | call u f =>
    obtain ⟨-, -, hvm, hdata, -, hlog⟩ := call_of_next hn
    have hu : u ≠ v := fun hu => hl (congrArg some hu)
    refine ⟨by rw [hvm, Function.update_of_ne hu.symm], [.called u f], hlog, ?_, fun cas => ?_⟩
    · simpa [Event.vm] using hu
    · rw [hdata]
      exact Nat.le_add_right ..
  | host u reply =>
    obtain ⟨call, ans, d, hcall, hserved, rfl⟩ := served_of_next hn
    have hu : u ≠ v := fun hu => hl (congrArg some hu)
    refine ⟨Function.update_of_ne hu.symm .., _, rfl, fun e he => ?_, fun cas => ?_⟩
    · rw [vm_of_mem_events he]
      exact hu
    · rw [interference_append]
      have hle := stale_of_served hu hcall hserved cas
      show stale d cas ≤ _
      omega

/-! ### The steps of the VM itself -/

section

variable {reply : Reply} {k : Key}

/-- A read of an existing key is answered with its cell. -/
theorem read_of_next {c : Cell UInt64} (hreply : (Label.host v reply).Succeeds)
    (hcall : hostCall cfg (s.vm v).pc = some (.getSharedData k)) (hc : s.data.cell k = some c)
    (hn : (machine cfg).next s (.host v reply) = some s') :
    s'.data = s.data ∧
      s'.vm v = (s.vm v).after (resume cfg (s.vm v).pc (.data c.value c.cas)) ∧
      s'.log = (resume cfg (s.vm v).pc (.data c.value c.cas)).events v ++ s.log := by
  cases reply with
  | fail r => exact hreply.elim
  | serve fresh =>
    simp only [machine, hcall, Option.bind_some, Reply.answer, hc, Option.elim_some,
      Option.map_some, Option.some.injEq] at hn
    subst hn
    exact ⟨rfl, Function.update_self .., by simp [State.advance, State.setEvents]⟩

/-- A write is accepted, or rejected since the copy it is based on is outdated. -/
theorem write_of_next {x : UInt64} {cas : ℕ} {site : Site} {read : Option UInt64}
    (hreply : (Label.host v reply).Succeeds)
    (hcall : hostCall cfg (s.vm v).pc = some (.setSharedData k x cas))
    (hwrite : (s.vm v).pc.write = some (site, read))
    (hn : (machine cfg).next s (.host v reply) = some s') :
    ∃ w : SetCall V, w.vm = v ∧ w.site = site ∧
      s'.vm v = (s.vm v).after (resume cfg (s.vm v).pc (.result w.result)) ∧
      s'.log = (resume cfg (s.vm v).pc (.result w.result)).events v ++ .set w :: s.log ∧
      (w.result = .Ok ∨ w.result = .CasMismatch ∧ ¬ s.data.Accepts k cas) := by
  cases reply with
  | fail r => exact hreply.elim
  | serve fresh =>
    simp only [machine, hcall, Option.bind_some, Reply.answer] at hn
    split_ifs at hn with hacc hf
    · simp only [Option.map_some, Option.some.injEq] at hn
      subst hn
      exact ⟨⟨v, site, s.clock, read, (s.data.cell k).map Cell.value, x, .Ok⟩, rfl, rfl,
        Function.update_self .., by simp [State.advance, State.setEvents, hwrite], .inl rfl⟩
    · cases hn
    · simp only [Option.map_some, Option.some.injEq] at hn
      subst hn
      exact ⟨⟨v, site, s.clock, read, (s.data.cell k).map Cell.value, x, .CasMismatch⟩, rfl, rfl,
        Function.update_self .., by simp [State.advance, State.setEvents, hwrite],
        .inr ⟨rfl, hacc⟩⟩

end

/-- A bucket that exists is not removed. -/
theorem bucket_of_next {l : Label V} (hok : ∀ v, (s.vm v).pc.Ok s.data)
    (hbucket : s.data.cell .tokenBucket ≠ none) (hn : (machine cfg).next s l = some s') :
    s'.data.cell .tokenBucket ≠ none := by
  cases l with
  | tick now =>
    obtain ⟨-, rfl⟩ := tick_of_next hn
    exact hbucket
  | call v f =>
    obtain ⟨-, -, -, hdata, -, -⟩ := call_of_next hn
    rwa [hdata]
  | host v reply =>
    obtain ⟨n, -, -, hquiet | ⟨k, w, hwrote⟩⟩ := host_cases (hok v) hn
    · rwa [hquiet.data]
    · exact hwrote.cell_ne_none hbucket

/-- What holds in all runs on an existing bucket. -/
structure Ready (s : State V) : Prop where
  ok : ∀ v, (s.vm v).pc.Ok s.data
  bucket : s.data.cell .tokenBucket ≠ none

theorem Ready.next {l : Label V} (h : Ready s) (hn : (machine cfg).next s l = some s') :
    Ready s' :=
  ⟨(stable_ok cfg).step (fun _ _ _ => trivial) h.ok hn, bucket_of_next h.ok h.bucket hn⟩

omit [DecidableEq V] in
theorem Started.ready {B₀ : UInt64} (h : Started B₀ s) : Ready s where
  ok v := by
    rw [h.idle v]
    trivial
  bucket hnone := by
    have hbucket := h.bucket
    rw [hnone] at hbucket
    cases hbucket

/-! ### The loop of a refill -/

/-- How far the refill loop of `v` has come, with the log `recent` since it started and after so
many host calls of `v`: it is about to read the bucket, it is about to write it, or it has ended. -/
inductive LoopState (v : V) (s : State V) (recent : List (Event V)) (calls : ℕ) : Prop
  | get : (s.vm v).pc = .refillGet → .returned v .refillToken ∉ recent →
      attempts v recent ≤ interference v recent → calls = 2 * attempts v recent →
      LoopState v s recent calls
  | set (tokenLeft : UInt64) (cas : ℕ) : (s.vm v).pc = .refillSet tokenLeft cas →
      .returned v .refillToken ∉ recent →
      attempts v recent + stale s.data cas ≤ interference v recent →
      calls = 2 * attempts v recent + 1 → LoopState v s recent calls
  | ended (newer loop : List (Event V)) : recent = newer ++ .returned v .refillToken :: loop →
      .returned v .refillToken ∉ loop → attempts v loop ≤ interference v loop + 1 →
      LoopState v s recent calls

section

variable {recent : List (Event V)} {calls : ℕ}

/-- The loop stays where it is while the others move; what outdates its copy is interference. -/
theorem LoopState.step_of_ne {l : Label V} (h : LoopState v s recent calls)
    (hl : l.vm ≠ some v) (hn : (machine cfg).next s l = some s') :
    ∃ es, s'.log = es ++ s.log ∧ LoopState v s' (es ++ recent) calls := by
  obtain ⟨hvm, es, hlog, hes, hstale⟩ := LocalRateLimit.step_of_ne hl hn
  have hnone := attempts_eq_zero hes
  have hreturned : .returned v .refillToken ∉ es := fun hmem => hes _ hmem rfl
  refine ⟨es, hlog, ?_⟩
  cases h with
  | get hpc hnot hpaid hcalls =>
    exact .get (by rw [hvm, hpc]) (by simp [hreturned, hnot])
      (by simp only [attempts_append, interference_append]; omega)
      (by simp only [attempts_append]; omega)
  | set tokenLeft cas hpc hnot hpaid hcalls =>
    have hle := hstale cas
    exact .set tokenLeft cas (by rw [hvm, hpc]) (by simp [hreturned, hnot])
      (by simp only [attempts_append, interference_append]; omega)
      (by simp only [attempts_append]; omega)
  | ended newer loop hrecent hnot hpaid =>
    exact .ended (es ++ newer) loop (by rw [hrecent, List.append_assoc]) hnot hpaid

/-- A host call of the loop itself. -/
theorem LoopState.step_host {reply : Reply} (h : LoopState v s recent calls) (hs : Ready s)
    (hreply : (Label.host v reply).Succeeds)
    (hn : (machine cfg).next s (.host v reply) = some s') :
    ∃ es, s'.log = es ++ s.log ∧ LoopState v s' (es ++ recent) (calls + 1) := by
  cases h with
  | get hpc hnot hpaid hcalls =>
    obtain ⟨c, hc⟩ := Option.ne_none_iff_exists'.1 hs.bucket
    have hcall : hostCall cfg (s.vm v).pc = some (.getSharedData .tokenBucket) := by
      rw [hpc]
      rfl
    obtain ⟨hdata, hvm, hlog⟩ := read_of_next hreply hcall hc hn
    rw [hpc] at hvm hlog
    refine ⟨[], hlog, .set c.value c.cas (by rw [hvm]; rfl) hnot ?_ (by rw [hcalls]; rfl)⟩
    rw [hdata, stale_of_cell hc]
    exact hpaid
  | set tokenLeft cas hpc hnot hpaid hcalls =>
    have hcall : hostCall cfg (s.vm v).pc =
        some (.setSharedData .tokenBucket (cfg.refilled tokenLeft) cas) := by
      rw [hpc]
      rfl
    obtain ⟨w, hv, hsite, hvm, hlog, hresult⟩ :=
      write_of_next hreply hcall (by rw [hpc]; rfl) hn
    have hattempt : attempts v (.set w :: recent) = attempts v recent + 1 := by
      simp [attempts, Event.attempts, hv, hsite]
    have hothers : interference v (.set w :: recent) = interference v recent := by
      have hown : interference v [.set w] = 0 :=
        interference_eq_zero (by simpa [Event.vm] using hv)
      show interference v ([.set w] ++ recent) = _
      rw [interference_append, hown, Nat.zero_add]
    have hnot' : .returned v .refillToken ∉ .set w :: recent := by simp [hnot]
    rw [hpc] at hvm hlog
    obtain hOk | ⟨hmismatch, hacc⟩ := hresult
    · rw [hOk] at hlog
      exact ⟨[.returned v .refillToken, .set w], hlog,
        .ended [] (.set w :: recent) rfl hnot' (by omega)⟩
    · -- the copy was outdated, so this attempt is paid for already
      rw [hmismatch] at hvm hlog
      rw [stale, if_neg hacc] at hpaid
      refine ⟨[.set w], hlog, .get (by rw [hvm]; rfl) hnot' ?_ ?_⟩
      · rw [List.singleton_append, hattempt, hothers]
        exact hpaid
      · rw [List.singleton_append, hattempt]
        omega
  | ended newer loop hrecent hnot hpaid =>
    obtain ⟨call, ans, d, -, -, rfl⟩ := served_of_next hn
    refine ⟨(resume cfg (s.vm v).pc ans).events v ++ s.setEvents v call ans, rfl,
      .ended ((resume cfg (s.vm v).pc ans).events v ++ s.setEvents v call ans ++ newer) loop ?_ hnot
        hpaid⟩
    rw [hrecent]
    exact (List.append_assoc ..).symm

/-- One step, of whichever VM. -/
theorem LoopState.step {l : Label V} (h : LoopState v s recent calls) (hs : Ready s)
    (hl : l.Succeeds) (hn : (machine cfg).next s l = some s') :
    ∃ es, s'.log = es ++ s.log ∧
      LoopState v s' (es ++ recent) (calls + hostCalls v [l]) := by
  by_cases hv : l.vm = some v
  · cases l with
    | tick now => cases hv
    | call u f =>
      obtain rfl := Option.some.inj hv
      obtain ⟨hidle, -, -, -, -, hlog⟩ := call_of_next hn
      cases h with
      | get hpc =>
        rw [hidle] at hpc
        cases hpc
      | set tokenLeft cas hpc =>
        rw [hidle] at hpc
        cases hpc
      | ended newer loop hrecent hnot hpaid =>
        exact ⟨[.called u f], hlog, .ended (.called u f :: newer) loop (by rw [hrecent]; rfl) hnot
          hpaid⟩
    | host u reply =>
      obtain rfl := Option.some.inj hv
      simpa [hostCalls] using h.step_host hs hl hn
  · have hzero : hostCalls v [l] = 0 := by
      cases l with
      | host u reply => simpa [hostCalls, Label.vm] using hv
      | tick | call => rfl
    rw [hzero]
    exact h.step_of_ne hv hn

end

/-! ### The calls of `getToken` -/

/-- Since the last call of `getToken` by `v` there were at least `n` interfering writes. -/
def CallPaid (v : V) (n : ℕ) (log : List (Event V)) : Prop :=
  ∃ during before, log = during ++ .called v .getToken :: before ∧
    .called v .getToken ∉ during ∧ n ≤ interference v during

/-- The attempts that `getToken` has made so far are paid for, also the one that is bound to
fail. -/
def Pc.TakePaid (v : V) (s : State V) : Pc → Prop
  | .getTokenGet i => CallPaid v i s.log
  | .getTokenSet i _ cas => CallPaid v (i + stale s.data cas) s.log
  | _ => True

/-- When `getToken` returns `true`, it has just taken a token or there was interference for all of
its attempts. -/
def ReturnPaid : Event V → List (Event V) → Prop
  | .returned v (.getToken true), past =>
    (∃ w rest, past = .set w :: rest ∧ w.vm = v ∧ w.site = .take ∧ w.result = .Ok) ∨
      CallPaid v maxGetTokenRetry past
  | _, _ => True

theorem CallPaid.append {n m : ℕ} {log es : List (Event V)} (h : CallPaid v n log)
    (hes : .called v .getToken ∉ es) (hle : m ≤ n + interference v es) :
    CallPaid v m (es ++ log) := by
  obtain ⟨during, before, rfl, hnot, hpaid⟩ := h
  refine ⟨es ++ during, before, by simp, by simp [hes, hnot], ?_⟩
  rw [interference_append]
  omega

/-- What holds of all VMs and of the log. -/
structure TakesPaid (s : State V) : Prop where
  vm : ∀ v, (s.vm v).pc.TakePaid v s
  log : History ReturnPaid s.log

/-- A VM that stays out of `getToken` has nothing to pay. -/
theorem takePaid_of_not_takesToken {pc : Pc} (h : ¬ pc.TakesToken) : pc.TakePaid v s := by
  cases pc with
  | getTokenGet | getTokenSet => exact absurd trivial h
  | _ => trivial

/-- The steps of the others. -/
theorem TakesPaid.of_ne {l : Label V} (h : TakesPaid s) (hl : l.vm ≠ some v)
    (hn : (machine cfg).next s l = some s') : (s'.vm v).pc.TakePaid v s' := by
  obtain ⟨hvm, es, hlog, hes, hstale⟩ := step_of_ne hl hn
  have hcalled : .called v .getToken ∉ es := fun hmem => hes _ hmem rfl
  have hpaid := h.vm v
  rw [hvm]
  generalize (s.vm v).pc = pc at hpaid ⊢
  cases pc with
  | getTokenGet i =>
    simp only [Pc.TakePaid] at hpaid ⊢
    rw [hlog]
    exact hpaid.append hcalled (Nat.le_add_right ..)
  | getTokenSet i tokenLeft cas =>
    simp only [Pc.TakePaid] at hpaid ⊢
    rw [hlog]
    have hle := hstale cas
    exact hpaid.append hcalled (by omega)
  | _ => trivial

/-- Only `getToken` returns that the request may go through. -/
theorem takesToken_of_done {pc : Pc} {ans : Answer} {b : Bool}
    (h : resume cfg pc ans = .done (.getToken b)) : pc.TakesToken := by
  revert h
  fun_cases resume cfg pc ans <;> intro h
  all_goals first | trivial | cases h

/-- The steps of a VM outside of `getToken`. -/
theorem TakesPaid.of_not_takesToken {reply : Reply} (h : TakesPaid s)
    (hpc : ¬ (s.vm v).pc.TakesToken) (hn : (machine cfg).next s (.host v reply) = some s') :
    (s'.vm v).pc.TakePaid v s' ∧ History ReturnPaid s'.log := by
  obtain ⟨call, ans, d, -, -, rfl⟩ := served_of_next hn
  constructor
  · refine takePaid_of_not_takesToken fun htakes => hpc ?_
    simp only [State.advance, Function.update_self, Vm.after_pc] at htakes
    exact takesToken_of_resume htakes
  · refine h.log.append fun e he past => ?_
    obtain ⟨r, hnext, rfl⟩ | ⟨w, -, rfl⟩ := events_cases he
    · cases r with
      | getToken b => exact absurd (takesToken_of_done hnext) hpc
      | refillToken | initializeTokenBucket => trivial
    · trivial

/-- `getToken` does not try to take a token out of an empty bucket. -/
theorem resume_getTokenGet (cfg : Config) (i : ℕ) (tokenLeft : UInt64) (cas : ℕ) :
    resume cfg (.getTokenGet i) (.data tokenLeft cas) =
      if tokenLeft = 0 then .done (.getToken false) else .goto (.getTokenSet i tokenLeft cas) :=
  rfl

/-- `getToken` after the host has carried its call out. -/
theorem TakesPaid.host {reply : Reply} (h : TakesPaid s) (hs : Ready s)
    (hreply : (Label.host v reply).Succeeds)
    (hn : (machine cfg).next s (.host v reply) = some s') :
    (s'.vm v).pc.TakePaid v s' ∧ History ReturnPaid s'.log := by
  have hpaid := h.vm v
  cases hpc : (s.vm v).pc with
  | getTokenGet i =>
    obtain ⟨c, hc⟩ := Option.ne_none_iff_exists'.1 hs.bucket
    obtain ⟨hdata, hvm, hlog⟩ := read_of_next hreply (by rw [hpc]; rfl) hc hn
    rw [hpc] at hpaid hvm hlog
    rw [resume_getTokenGet] at hvm hlog
    by_cases hzero : c.value = 0
    · rw [if_pos hzero] at hvm hlog
      rw [hvm, hlog]
      exact ⟨trivial, trivial, h.log⟩
    · rw [if_neg hzero] at hvm hlog
      rw [hvm, hlog]
      refine ⟨?_, h.log⟩
      show CallPaid v _ _
      rw [hdata, stale_of_cell hc, hlog]
      exact hpaid
  | getTokenSet i tokenLeft cas =>
    obtain ⟨w, hv, hsite, hvm, hlog, hresult⟩ :=
      write_of_next hreply (by rw [hpc]; rfl) (by rw [hpc]; rfl) hn
    rw [hpc] at hpaid hvm hlog
    obtain hOk | ⟨hmismatch, hacc⟩ := hresult
    · -- the token was taken
      rw [hOk] at hvm hlog
      rw [hvm, hlog]
      exact ⟨trivial, .inl ⟨w, s.log, rfl, hv, hsite, hOk⟩, trivial, h.log⟩
    · -- the copy was outdated, so this attempt is paid for already
      have hstale : stale s.data cas = 1 := if_neg hacc
      have hcall : CallPaid v (i + stale s.data cas) s.log := hpaid
      have hpaid' : CallPaid v (i + 1) ([.set w] ++ s.log) :=
        hcall.append (by simp) (by omega)
      have hnext : resume cfg (.getTokenSet i tokenLeft cas) (.result .CasMismatch) =
          retryGetToken i := rfl
      rw [hmismatch, hnext, retryGetToken] at hvm hlog
      by_cases hretry : i + 1 < maxGetTokenRetry
      · rw [if_pos hretry] at hvm hlog
        rw [hvm, hlog]
        refine ⟨?_, trivial, h.log⟩
        show CallPaid v (i + 1) s'.log
        rw [hlog]
        exact hpaid'
      · rw [if_neg hretry] at hvm hlog
        rw [hvm, hlog]
        refine ⟨trivial, .inr ?_, trivial, h.log⟩
        obtain ⟨during, before, heq, hnot, hle⟩ := hpaid'
        exact ⟨during, before, heq, hnot, (Nat.not_lt.1 hretry).trans hle⟩
  | _ => exact h.of_not_takesToken (by rw [hpc]; exact id) hn

/-- One step, of whichever VM. -/
theorem TakesPaid.step {l : Label V} (h : TakesPaid s) (hs : Ready s) (hl : l.Succeeds)
    (hn : (machine cfg).next s l = some s') : TakesPaid s' := by
  cases l with
  | tick now =>
    refine ⟨fun v => h.of_ne (by simp [Label.vm]) hn, ?_⟩
    obtain ⟨-, rfl⟩ := tick_of_next hn
    exact h.log
  | call u f =>
    obtain ⟨-, -, hvm, -, -, hlog⟩ := call_of_next hn
    refine ⟨fun v => ?_, by rw [hlog]; exact ⟨trivial, h.log⟩⟩
    by_cases hv : u = v
    · subst hv
      rw [hvm, Function.update_self]
      cases f with
      | getToken =>
        refine ⟨[], s.log, by rw [hlog]; rfl, by simp, Nat.zero_le _⟩
      | refillToken | initializeTokenBucket => trivial
    · exact h.of_ne (by simpa [Label.vm] using hv) hn
  | host u reply =>
    obtain ⟨hpaid, hlog⟩ := h.host hs hl hn
    refine ⟨fun v => ?_, hlog⟩
    by_cases hv : u = v
    · subst hv
      exact hpaid
    · exact h.of_ne (by simpa [Label.vm] using hv) hn

/-! ### Runs -/

variable {s₀ : State V} {B₀ : UInt64}

/-- A run from the start of a refill loop. -/
theorem loopState_of_run (hs : Ready s) (hpc : (s.vm v).pc = .refillGet) {ls : List (Label V)}
    (hls : ∀ l ∈ ls, l.Succeeds) (hrun : (machine cfg).run (fun _ _ => True) s ls = some s') :
    ∃ recent, s'.log = recent ++ s.log ∧ LoopState v s' recent (hostCalls v ls) := by
  refine (Machine.run_invariant (I := fun ls t => (∀ l ∈ ls, l.Succeeds) → Ready t ∧
    ∃ recent, t.log = recent ++ s.log ∧ LoopState v t recent (hostCalls v ls)) (fun _ => ?_) ?_
    hrun hls).2
  · exact ⟨hs, [], rfl, .get hpc (by simp) (Nat.zero_le _) rfl⟩
  · intro ls t l t' ih hn hsucceeds
    obtain ⟨hready, recent, hlog, hloop⟩ :=
      ih fun l' hl' => hsucceeds l' (List.mem_append_left _ hl')
    obtain ⟨es, hlog', hloop'⟩ := hloop.step hready (hsucceeds l (by simp)) hn
    refine ⟨hready.next hn, es ++ recent, by rw [hlog', hlog, List.append_assoc], ?_⟩
    have hcalls : hostCalls v (ls ++ [l]) = hostCalls v ls + hostCalls v [l] :=
      List.countP_append
    rw [hcalls]
    exact hloop'

theorem takesPaid_of_reaches (h₀ : Started B₀ s₀)
    (h : (machine cfg).Reaches (fun _ l => l.Succeeds) s₀ s) : Ready s ∧ TakesPaid s := by
  refine h.invariant (I := fun s => Ready s ∧ TakesPaid s) ⟨h₀.ready, fun v => ?_, ?_⟩ ?_
  · rw [h₀.idle v]
    trivial
  · rw [h₀.log]
    trivial
  · rintro s l s' ⟨hready, hpaid⟩ hC hn
    exact ⟨hready.next hn, hpaid.step hready hC hn⟩

/-- The refill loop of `v` has not ended: all its attempts failed, each for another interfering
write, and it has not made more than two host calls for each of them and one. -/
def LoopRuns (v : V) (recent : List (Event V)) (ls : List (Label V)) : Prop :=
  .returned v .refillToken ∉ recent ∧ attempts v recent ≤ interference v recent ∧
    hostCalls v ls ≤ 2 * interference v recent + 1

/-- The refill loop of `v` has ended, with at most one attempt more than there were interfering
writes. -/
def LoopEnded (v : V) (recent : List (Event V)) : Prop :=
  ∃ newer loop, recent = newer ++ .returned v .refillToken :: loop ∧
    .returned v .refillToken ∉ loop ∧ attempts v loop ≤ interference v loop + 1

/-- **Every retry is paid for by an interfering write.**  The refill loop of a VM ends after at most
one attempt more than there were such writes since it started; and `getToken` returns `true` without
having taken a token only after 20 of them since it was called. -/
theorem retries_paid (h₀ : Started B₀ s₀)
    (h : (machine cfg).Reaches (fun _ l => l.Succeeds) s₀ s) (v : V) :
    ((s.vm v).pc = .refillGet → ∀ ls s', (∀ l ∈ ls, l.Succeeds) →
      (machine cfg).run (fun _ _ => True) s ls = some s' →
        ∃ recent, s'.log = recent ++ s.log ∧ (LoopRuns v recent ls ∨ LoopEnded v recent)) ∧
    ∀ newer past, s.log = newer ++ .returned v (.getToken true) :: past →
      (∃ w rest, past = .set w :: rest ∧ w.vm = v ∧ w.site = .take ∧ w.result = .Ok) ∨
      ∃ during before, past = during ++ .called v .getToken :: before ∧
        .called v .getToken ∉ during ∧ maxGetTokenRetry ≤ interference v during := by
  obtain ⟨hready, hpaid⟩ := takesPaid_of_reaches h₀ h
  constructor
  · intro hpc ls s' hls hrun
    obtain ⟨recent, hlog, hloop⟩ := loopState_of_run hready hpc hls hrun
    refine ⟨recent, hlog, ?_⟩
    cases hloop with
    | get hpc' hnot hle hcalls => exact .inl ⟨hnot, hle, by omega⟩
    | set tokenLeft cas hpc' hnot hle hcalls => exact .inl ⟨hnot, by omega, by omega⟩
    | ended newer loop hrecent hnot hle => exact .inr ⟨newer, loop, hrecent, hnot, hle⟩
  · intro newer past hlog
    have hhistory := hpaid.log
    rw [hlog] at hhistory
    exact hhistory.of_append

/-- The labels with which one VM claims a refill. -/
def claimRefill : List (Label Bool) :=
  [.call true .refillToken, .host true (.serve 0), .host true (.serve 0), .host true (.serve 2)]

/-- While it adds the tokens, the other VM takes one. -/
def takeInBetween : List (Label Bool) :=
  [.host true (.serve 0), .call false .getToken, .host false (.serve 0), .host false (.serve 2),
    .host true (.serve 0), .host true (.serve 0), .host true (.serve 3)]

/-- The first attempt of the refill fails, the second one succeeds. -/
theorem retries_paid_once : ∃ s s' : State Bool,
    attempts true s'.log = 2 ∧ interference true s'.log = 1 ∧
      ∃ recent, s'.log = recent ++ s.log ∧
        (LoopRuns true recent takeInBetween ∨ LoopEnded true recent) := by
  have hclaim : ((machine ⟨1, 10, 5⟩).run (fun _ l => l.Succeeds)
      (State.initialized 5 15 : State Bool) claimRefill).isSome := by decide
  have htake : ((machine ⟨1, 10, 5⟩).run (fun _ _ => True)
      (((machine ⟨1, 10, 5⟩).run (fun _ l => l.Succeeds)
        (State.initialized 5 15 : State Bool) claimRefill).get hclaim) takeInBetween).isSome := by
    decide +revert
  refine ⟨_, _, ?_, ?_, (retries_paid (started_initialized 5 15) (.of_isSome hclaim) true).1 ?_
    takeInBetween _ (by decide) (Option.some_get htake).symm⟩
  · decide +revert
  · decide +revert
  · decide +revert

end LocalRateLimit

end WasmExtensions
