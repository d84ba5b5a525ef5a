import WasmExtensions.LocalRateLimit.Bucket

/-!
# Optimistic updates of the token bucket

Between its read and its write a VM holds a copy of the value it read.  This file shows that in
every interleaving the copy belongs to the version the VM will pass to its write (`Pc.Ok`), so an
accepted write of `getToken` or `refillToken` is based on the value it replaces
(`host_cases`), and that the writes in the log are exactly the accepted ones.

* `writes` : the accepted writes of a log, latest first.
* `Pc.Ok` : the local copy of a VM is a snapshot of the shared data.
* `pcOk_of_reaches` : this holds of all VMs in all runs.
-/

namespace WasmExtensions

namespace LocalRateLimit

variable {V : Type*}

/-- The write recorded by an event, if it was accepted. -/
def Event.accepted : Event V → Option (SetCall V)
  | .set c => if c.result = .Ok then some c else none
  | _ => none

/-- The accepted writes of a log, latest first. -/
def writes (log : List (Event V)) : List (SetCall V) := log.filterMap Event.accepted

@[simp] theorem writes_nil : writes ([] : List (Event V)) = [] := rfl

@[simp] theorem writes_called (v : V) (f : Fn) (log : List (Event V)) :
    writes (.called v f :: log) = writes log := rfl

theorem writes_set (c : SetCall V) (log : List (Event V)) :
    writes (.set c :: log) = if c.result = .Ok then c :: writes log else writes log := by
  simp only [writes, List.filterMap_cons, Event.accepted]
  split_ifs <;> rfl

@[simp] theorem writes_append (log log' : List (Event V)) :
    writes (log ++ log') = writes log ++ writes log' :=
  List.filterMap_append

@[simp] theorem writes_events (v : V) (n : Next) : writes (n.events v) = [] := by
  cases n <;> rfl

/-- The program point at which a function goes on; `idle` when it returns. -/
def Next.pc : Next → Pc
  | .goto pc => pc
  | .done _ => .idle

@[simp] theorem Vm.after_pc (vm : Vm) (n : Next) : (vm.after n).pc = n.pc := by
  cases n <;> rfl

/-- Only the VM that was answered may have changed its program point. -/
theorem pc_update [DecidableEq V] {s s' : State V} {v : V} {n : Next}
    (hvm : s'.vm = Function.update s.vm v ((s.vm v).after n)) (P : Pc → Prop) (u : V) :
    P (s'.vm u).pc ↔ if u = v then P n.pc else P (s.vm u).pc := by
  rw [hvm]
  by_cases huv : u = v
  · rw [if_pos huv, huv, Function.update_self, Vm.after_pc]
  · rw [if_neg huv, Function.update_of_ne huv]

/-! ### Properties of a single VM -/

/-- A property of a program point, the shared data and the clock that no step can break: a VM that
starts a function in `F` or is given an answer goes on to a program point with the property, and
time and the other VMs, which have the property too, do not affect it. -/
structure Stable (cfg : Config) (F : Fn → Prop)
    (P : SharedData Key UInt64 → UInt64 → Pc → Prop) : Prop where
  tick : ∀ {d clock clock' pc}, clock ≤ clock' → P d clock pc → P d clock' pc
  start : ∀ {d clock f}, F f → P d clock .idle → P d clock f.start
  frame : ∀ {d clock call ans d' pc pc'}, hostCall cfg pc' = some call → P d clock pc' →
    Served d clock call ans d' → P d clock pc → P d' clock pc
  resume : ∀ {d clock call ans d' pc}, hostCall cfg pc = some call → Served d clock call ans d' →
    P d clock pc → P d' clock (resume cfg pc ans).pc

section

variable [DecidableEq V] {cfg : Config} {F : Fn → Prop}
  {P : SharedData Key UInt64 → UInt64 → Pc → Prop} {C : State V → Label V → Prop}
  {s₀ s s' : State V}

theorem Stable.step (hP : Stable cfg F P) {l : Label V} (hF : ∀ v f, l = .call v f → F f)
    (h : ∀ v, P s.data s.clock (s.vm v).pc) (hn : (machine cfg).next s l = some s') (v : V) :
    P s'.data s'.clock (s'.vm v).pc := by
  cases l with
  | tick now =>
    obtain ⟨ht, rfl⟩ := tick_of_next hn
    exact hP.tick ht (h v)
  | call u f =>
    obtain ⟨hidle, -, hvm, hd, hc, -⟩ := call_of_next hn
    rw [hvm, hd, hc]
    by_cases hv : v = u
    · subst hv; simpa using hP.start (hF v f rfl) (hidle ▸ h v)
    · simpa [Function.update_of_ne hv] using h v
  | host u reply =>
    obtain ⟨call, ans, d, hcall, hserved, rfl⟩ := served_of_next hn
    by_cases hv : v = u
    · subst hv; simpa [State.advance] using hP.resume hcall hserved (h v)
    · simpa [State.advance, Function.update_of_ne hv] using hP.frame hcall (h u) hserved (h v)

/-- A stable property of all VMs holds in all runs that call only functions in `F`. -/
theorem Stable.reaches (hP : Stable cfg F P) (hF : ∀ s v f, C s (.call v f) → F f)
    (h : (machine cfg).Reaches C s₀ s) (h₀ : ∀ v, P s₀.data s₀.clock (s₀.vm v).pc) (v : V) :
    P s.data s.clock (s.vm v).pc :=
  h.invariant (I := fun s => ∀ v, P s.data s.clock (s.vm v).pc) h₀
    (fun s _ _ hI hC hn => hP.step (fun v f hl => hF s v f (hl ▸ hC)) hI hn) v

omit [DecidableEq V] in
theorem Stable.and {Q : SharedData Key UInt64 → UInt64 → Pc → Prop} (hP : Stable cfg F P)
    (hQ : Stable cfg F Q) : Stable cfg F fun d clock pc => P d clock pc ∧ Q d clock pc where
  tick ht h := ⟨hP.tick ht h.1, hQ.tick ht h.2⟩
  start hf h := ⟨hP.start hf h.1, hQ.start hf h.2⟩
  frame hcall h' hs h := ⟨hP.frame hcall h'.1 hs h.1, hQ.frame hcall h'.2 hs h.2⟩
  resume hcall hs h := ⟨hP.resume hcall hs h.1, hQ.resume hcall hs h.2⟩

theorem Stable.mono {F' : Fn → Prop} (hP : Stable cfg F P) (hF : ∀ f, F' f → F f) :
    Stable cfg F' P where
  tick := hP.tick
  start hf := hP.start (hF _ hf)
  frame := hP.frame
  resume := hP.resume

end

/-! ### Local copies are snapshots -/

/-- What a VM remembers from its last read is a snapshot of the shared data. -/
def Pc.Ok (d : SharedData Key UInt64) : Pc → Prop
  | .getTokenSet _ tokenLeft cas => d.Snapshot .tokenBucket tokenLeft cas ∧ tokenLeft ≠ 0
  | .refillTime lastUpdate cas => d.Snapshot .lastRefilled lastUpdate cas
  | .refillSetLast lastUpdate _ cas => d.Snapshot .lastRefilled lastUpdate cas
  | .refillSet tokenLeft cas => d.Snapshot .tokenBucket tokenLeft cas
  | _ => True

theorem Pc.Ok.write {d : SharedData Key UInt64} {pc : Pc} {k : Key} {x : UInt64} {fresh : ℕ}
    (h : pc.Ok d) (hf : d.Fresh k fresh) : pc.Ok (d.write k x fresh hf) := by
  cases pc with
  | getTokenSet i tokenLeft cas => exact ⟨h.1.write hf, h.2⟩
  | refillTime lastUpdate cas => exact SharedData.Snapshot.write h hf
  | refillSetLast lastUpdate now cas => exact SharedData.Snapshot.write h hf
  | refillSet tokenLeft cas => exact SharedData.Snapshot.write h hf
  | _ => trivial

theorem Fn.start_ok (d : SharedData Key UInt64) (f : Fn) : f.start.Ok d := by
  cases f <;> trivial

section

variable {cfg : Config} {d d' : SharedData Key UInt64} {clock : UInt64} {pc : Pc}
  {call : HostCall} {ans : Answer}

/-- A host call changes nothing that a VM remembers. -/
theorem Served.ok_of_ok (h : Served d clock call ans d') {pc : Pc} (hpc : pc.Ok d) : pc.Ok d' := by
  cases h with
  | accepted hf _ => exact hpc.write hf
  | _ => exact hpc

theorem retryGetToken_pc (i : ℕ) :
    (retryGetToken i).pc = .getTokenGet (i + 1) ∨ (retryGetToken i).pc = .idle := by
  unfold retryGetToken
  split_ifs
  · exact .inl rfl
  · exact .inr rfl

/-- Where a function goes on after an answer without data. -/
theorem resume_result_pc (cfg : Config) (pc : Pc) (r : WasmResult) :
    (resume cfg pc (.result r)).pc = .idle ∨ (resume cfg pc (.result r)).pc = .refillGet ∨
      (∃ i, (resume cfg pc (.result r)).pc = .getTokenGet i) ∨
      ∃ n, (resume cfg pc (.result r)).pc = .initSetLast n ∨
        (resume cfg pc (.result r)).pc = .initSetBucket n := by
  generalize hans : Answer.result r = ans
  fun_cases resume cfg pc ans
  case case5 i _ _ => rcases retryGetToken_pc i with h | h <;> simp [h]
  all_goals first | (simp [Next.pc]; done) | cases hans

/-- A function remembers nothing from an answer without data. -/
theorem resume_result_ok (cfg : Config) (d : SharedData Key UInt64) (pc : Pc) (r : WasmResult) :
    (resume cfg pc (.result r)).pc.Ok d := by
  obtain h | h | ⟨i, h⟩ | ⟨n, h | h⟩ := resume_result_pc cfg pc r <;> rw [h] <;> trivial

/-- After its host call a VM remembers a snapshot again. -/
theorem Served.resume_ok (h : Served d clock call ans d') (hcall : hostCall cfg pc = some call)
    (hpc : pc.Ok d) : (resume cfg pc ans).pc.Ok d' := by
  cases h with
  | read c hc =>
    cases pc <;> simp only [hostCall, reduceCtorEq, Option.some.injEq, HostCall.getSharedData.injEq]
      at hcall <;> subst hcall
    case getTokenGet i =>
      by_cases h0 : c.value = 0
      · simp only [resume, h0, ↓reduceIte]; trivial
      · simp only [resume, h0, ↓reduceIte]; exact ⟨SharedData.snapshot_of_cell hc, h0⟩
    case refillGetLast => exact SharedData.snapshot_of_cell hc
    case refillGet => exact SharedData.snapshot_of_cell hc
    case initGet => trivial
  | time =>
    cases pc <;> simp only [hostCall, reduceCtorEq, Option.some.injEq] at hcall
    case refillTime lastUpdate cas =>
      simp only [resume]
      split_ifs
      · trivial
      · exact hpc
  | notRead r _ => exact resume_result_ok ..
  | refused r _ => exact resume_result_ok ..
  | accepted _ _ => exact resume_result_ok ..

end

theorem stable_ok (cfg : Config) : Stable cfg (fun _ => True) fun d _ pc => pc.Ok d where
  tick _ h := h
  start _ _ := Fn.start_ok ..
  frame _ _ hs h := hs.ok_of_ok h
  resume hcall hs h := hs.resume_ok hcall h

variable [DecidableEq V] {cfg : Config} {C : State V → Label V → Prop} {s s₀ s' : State V}

/-- **In every run the VMs hold snapshots of the shared data.** -/
theorem pcOk_of_reaches (h : (machine cfg).Reaches C s₀ s) (h₀ : ∀ v, (s₀.vm v).pc.Ok s₀.data)
    (v : V) : (s.vm v).pc.Ok s.data :=
  (stable_ok cfg).reaches (fun _ _ _ _ => trivial) h h₀ v

/-! ### What an accepted write does -/

/-- The VM has claimed a refill and has not written the bucket yet. -/
def Pc.Claimed : Pc → Prop
  | .refillGet | .refillSet _ _ => True
  | _ => False

/-- The VM has written the last refill time of a new bucket and not the initial tokens yet. -/
def Pc.Seeding : Pc → Prop
  | .initSetBucket _ => True
  | _ => False

/-- The VM is inside `initializeTokenBucket`. -/
def Pc.Initializing : Pc → Prop
  | .initGet _ | .initSetLast _ | .initSetBucket _ => True
  | _ => False

theorem initializing_of_resume {cfg : Config} {pc : Pc} {ans : Answer}
    (h : (resume cfg pc ans).pc.Initializing) : pc.Initializing := by
  revert h
  fun_cases resume cfg pc ans <;> intro h
  case case5 i _ _ => rcases retryGetToken_pc i with hi | hi <;> rw [hi] at h <;> exact h
  all_goals first | exact h | trivial

/-- The writes of the code: from which program point, what the function does next once the write
is accepted, the key, the site, the value the write is computed from and the value written. -/
inductive Pc.Writes (cfg : Config) :
    Pc → Next → Key → Site → Option UInt64 → UInt64 → Prop
  | take (i : ℕ) (tokenLeft : UInt64) (cas : ℕ) : tokenLeft ≠ 0 →
      Writes cfg (.getTokenSet i tokenLeft cas) (.done (.getToken true)) .tokenBucket .take
        (some tokenLeft) (tokenLeft - 1)
  | claim (lastUpdate now : UInt64) (cas : ℕ) :
      Writes cfg (.refillSetLast lastUpdate now cas) (.goto .refillGet) .lastRefilled .claim
        (some lastUpdate) now
  | refill (tokenLeft : UInt64) (cas : ℕ) :
      Writes cfg (.refillSet tokenLeft cas) (.done .refillToken) .tokenBucket .refill
        (some tokenLeft) (cfg.refilled tokenLeft)
  | initLast (initialTokens : UInt64) :
      Writes cfg (.initSetLast initialTokens) (.goto (.initSetBucket initialTokens)) .lastRefilled
        .initLast none 0
  | initBucket (initialTokens : UInt64) :
      Writes cfg (.initSetBucket initialTokens) (.done (.initializeTokenBucket true)) .tokenBucket
        .initBucket none initialTokens

/-- `s'` comes from `s` by an accepted write of `v`, recorded as `w`. -/
structure Wrote (cfg : Config) (s : State V) (v : V) (n : Next) (k : Key) (w : SetCall V)
    (s' : State V) : Prop where
  effect : (s.vm v).pc.Writes cfg n k w.site w.read w.new
  data : ∃ fresh, ∃ h : s.data.Fresh k fresh, s'.data = s.data.write k w.new fresh h
  log : s'.log = n.events v ++ .set w :: s.log
  result : w.result = .Ok
  vm : w.vm = v
  time : w.time = s.clock
  old : w.old = (s.data.cell k).map Cell.value
  /-- The write is based on the value it replaces. -/
  read : ∀ x, w.read = some x → w.old = some x

/-- `s'` comes from `s` by a host call of `v` that writes nothing. -/
structure Quiet (s : State V) (v : V) (n : Next) (s' : State V) : Prop where
  data : s'.data = s.data
  log : ∃ es, s'.log = es ++ s.log ∧ writes es = []
  claimed : n.pc.Claimed → (s.vm v).pc.Claimed
  not_seeding : ¬ n.pc.Seeding

section

variable {v : V} {n : Next} {k : Key} {w : SetCall V}

omit [DecidableEq V]

theorem Wrote.writes_log (h : Wrote cfg s v n k w s') :
    writes s'.log = w :: writes s.log := by
  simp [h.log, writes_set, h.result]

theorem Wrote.cell_self (h : Wrote cfg s v n k w s') :
    (s'.data.cell k).map Cell.value = some w.new := by
  obtain ⟨fresh, hf, hd⟩ := h.data
  rw [hd, SharedData.cell_write_self, Option.map_some]

theorem Wrote.cell_of_ne (h : Wrote cfg s v n k w s') {k' : Key} (hk : k' ≠ k) :
    s'.data.cell k' = s.data.cell k' := by
  obtain ⟨fresh, hf, hd⟩ := h.data
  rw [hd, SharedData.cell_write_of_ne hf hk]

/-- The writes of the serving functions: each replaces the value it was computed from. -/
theorem Wrote.serving_cases (h : Wrote cfg s v n k w s') (hserv : ¬ (s.vm v).pc.Initializing) :
    (∃ i t cas, (s.vm v).pc = .getTokenSet i t cas ∧ t ≠ 0 ∧ n = .done (.getToken true) ∧
      k = .tokenBucket ∧ w.site = .take ∧ w.read = some t ∧ w.old = some t ∧ w.new = t - 1) ∨
    (∃ lastUpdate now cas, (s.vm v).pc = .refillSetLast lastUpdate now cas ∧
      n = .goto .refillGet ∧ k = .lastRefilled ∧ w.site = .claim ∧ w.read = some lastUpdate ∧
      w.old = some lastUpdate ∧ w.new = now) ∨
    (∃ t cas, (s.vm v).pc = .refillSet t cas ∧ n = .done .refillToken ∧ k = .tokenBucket ∧
      w.site = .refill ∧ w.read = some t ∧ w.old = some t ∧ w.new = cfg.refilled t) := by
  have hwrites := h.effect
  have hold := h.read
  generalize (s.vm v).pc = pc, w.site = site, w.read = read, w.new = new at hwrites hserv hold ⊢
  cases hwrites with
  | take i t cas ht => exact .inl ⟨i, t, cas, rfl, ht, rfl, rfl, rfl, rfl, hold t rfl, rfl⟩
  | claim lastUpdate now cas =>
    exact .inr (.inl ⟨lastUpdate, _, cas, rfl, rfl, rfl, rfl, rfl, hold lastUpdate rfl, rfl⟩)
  | refill t cas => exact .inr (.inr ⟨t, cas, rfl, rfl, rfl, rfl, rfl, hold t rfl, rfl⟩)
  | initLast | initBucket => exact absurd trivial hserv

theorem Quiet.writes_log (h : Quiet s v n s') :
    writes s'.log = writes s.log := by
  obtain ⟨es, hlog, hes⟩ := h.log
  simp [hlog, hes]

/-- The writes of the initialisation. -/
theorem Wrote.init_cases (h : Wrote cfg s v n k w s') (hinit : (s.vm v).pc.Initializing) :
    (∃ m, (s.vm v).pc = .initSetLast m ∧ n = .goto (.initSetBucket m) ∧ k = .lastRefilled ∧
      w.site = .initLast) ∨
    (∃ m, (s.vm v).pc = .initSetBucket m ∧ n = .done (.initializeTokenBucket true) ∧
      k = .tokenBucket ∧ w.site = .initBucket) := by
  have hwrites := h.effect
  generalize (s.vm v).pc = pc, w.site = site, w.read = read, w.new = new at hwrites hinit ⊢
  cases hwrites with
  | initLast m => exact .inl ⟨m, rfl, rfl, rfl, rfl⟩
  | initBucket m => exact .inr ⟨_, rfl, rfl, rfl, rfl⟩
  | take | claim | refill => exact hinit.elim

end

/-- A VM keeps its claim only through the retry loop of `refillToken`. -/
theorem claimed_of_resume {pc : Pc} {ans : Answer} (hans : ans ≠ .result .Ok)
    (h : (resume cfg pc ans).pc.Claimed) : pc.Claimed := by
  revert h
  fun_cases resume cfg pc ans <;> intro h
  case case5 i _ _ => rcases retryGetToken_pc i with hi | hi <;> rw [hi] at h <;> exact h
  all_goals first | exact h | exact absurd rfl hans | trivial

/-- A VM goes on to write the initial tokens only after an accepted write. -/
theorem not_seeding_of_resume {pc : Pc} {ans : Answer} (hans : ans ≠ .result .Ok) :
    ¬ (resume cfg pc ans).pc.Seeding := by
  fun_cases resume cfg pc ans
  case case5 i _ _ => rcases retryGetToken_pc i with hi | hi <;> rw [hi] <;> exact id
  all_goals first | exact id | exact absurd rfl hans

/-- The program points that write, with what they write when the write is accepted. -/
theorem writes_of_hostCall {pc : Pc} {d : SharedData Key UInt64} {k : Key} {x : UInt64} {cas : ℕ}
    (hcall : hostCall cfg pc = some (.setSharedData k x cas)) (hok : pc.Ok d)
    (hacc : d.Accepts k cas) :
    ∃ site read, pc.write = some (site, read) ∧
      pc.Writes cfg (resume cfg pc (.result .Ok)) k site read x ∧
      ∀ y, read = some y → (d.cell k).map Cell.value = some y := by
  cases pc <;> simp only [hostCall, reduceCtorEq, Option.some.injEq,
    HostCall.setSharedData.injEq] at hcall <;> obtain ⟨rfl, rfl, rfl⟩ := hcall
  case getTokenSet i tokenLeft cas =>
    refine ⟨_, _, rfl, .take i tokenLeft cas hok.2, ?_⟩
    rintro y ⟨⟩
    exact hok.1.value_eq hacc
  case refillSetLast lastUpdate now cas =>
    refine ⟨_, _, rfl, .claim lastUpdate now cas, ?_⟩
    rintro y ⟨⟩
    exact SharedData.Snapshot.value_eq hok hacc
  case refillSet tokenLeft cas =>
    refine ⟨_, _, rfl, .refill tokenLeft cas, ?_⟩
    rintro y ⟨⟩
    exact SharedData.Snapshot.value_eq hok hacc
  case initSetLast n => exact ⟨_, _, rfl, .initLast n, by simp⟩
  case initSetBucket n => exact ⟨_, _, rfl, .initBucket n, by simp⟩

/-- **A host call either writes nothing or is one of the writes of the code**, and then it is
based on the value it replaces. -/
theorem host_cases {v : V} {reply : Reply} (hok : (s.vm v).pc.Ok s.data)
    (hn : (machine cfg).next s (.host v reply) = some s') :
    ∃ n, s'.vm = Function.update s.vm v ((s.vm v).after n) ∧ s'.clock = s.clock ∧
      (Quiet s v n s' ∨ ∃ k w, Wrote cfg s v n k w s') := by
  obtain ⟨call, ans, d, hcall, hserved, rfl⟩ := served_of_next hn
  refine ⟨_, rfl, rfl, ?_⟩
  have hquiet (hdata : d = s.data) (hans : ans ≠ .result .Ok)
      (hes : writes (s.setEvents v call ans) = []) :
      Quiet s v (resume cfg (s.vm v).pc ans) (s.advance cfg v call ans d) :=
    ⟨hdata, ⟨_, rfl, by simp [hes]⟩, claimed_of_resume hans, not_seeding_of_resume hans⟩
  cases hserved with
  | read c hc => exact .inl (hquiet rfl (by simp) rfl)
  | time => exact .inl (hquiet rfl (by simp) rfl)
  | notRead r hr => exact .inl (hquiet rfl (by simpa using hr) rfl)
  | @refused k x cas r hr =>
    refine .inl (hquiet rfl (by simpa using hr) ?_)
    cases hw : (s.vm v).pc.write <;> simp [State.setEvents, hw, writes_set, hr]
  | @accepted k x cas fresh hf hacc =>
    obtain ⟨site, read, hw, hwrites, hread⟩ := writes_of_hostCall hcall hok hacc
    refine .inr ⟨k, ⟨v, site, s.clock, read, (s.data.cell k).map Cell.value, x, .Ok⟩, hwrites,
      ⟨fresh, hf, rfl⟩, ?_, rfl, rfl, rfl, rfl, hread⟩
    simp [State.advance, State.setEvents, hw]

end LocalRateLimit

end WasmExtensions
