import WasmExtensions.LocalRateLimit.Initialization

/-!
# A bucket for every initialised VM

`initializeTokenBucket` reports success as soon as it finds `last_refilled`, but the bucket is
written after that key.  A VM that looks in between, or after the write of the bucket has failed,
is told that it may serve traffic and finds no bucket (`unusable_between_writes`).

* `Usable` : the VMs that were told so find the bucket.
* `Seeded` : a VM has written the initial tokens.
* `SeededWhenFound` : an initialisation that leaves the bucket to other VMs does so after one of
  them has written it.

`usable_iff_seededWhenFound` : **a run keeps the bucket usable if and only if all its steps are
`SeededWhenFound`.**
-/

namespace WasmExtensions

namespace LocalRateLimit

variable {V : Type*}

/-- The VMs that were told that the initialisation succeeded can use the bucket. -/
structure Usable (s : State V) : Prop where
  stored : ∀ v, (s.vm v).initialized = true → s.data.cell .tokenBucket ≠ none
  /-- A `getToken` that reads the bucket is not told that the key is missing. -/
  answered : ∀ v i fresh, (s.vm v).pc = .getTokenGet i → ∃ c : Cell UInt64,
    (Reply.serve fresh).answer s.data s.clock (.getSharedData .tokenBucket) =
      some (.data c.value c.cas, s.data)

/-- The initial tokens have been written. -/
def Seeded (s : State V) : Prop := ∃ w ∈ writes s.log, w.site = .initBucket

instance (s : State V) : Decidable (Seeded s) := inferInstanceAs (Decidable (∃ w ∈ _, _))

/-- `initializeTokenBucket` is told that the bucket is the business of other VMs: its check finds
the last refill time, or its write of that key is answered with `CasMismatch`. -/
def Pc.LeavesBucket (d : SharedData Key UInt64) : Pc → Reply → Prop
  | .initGet _, .serve _ => (d.cell .lastRefilled).isSome
  | .initSetLast _, .fail r => r = .CasMismatch
  | _, _ => False

instance (d : SharedData Key UInt64) : (pc : Pc) → (reply : Reply) →
    Decidable (pc.LeavesBucket d reply)
  | .initGet _, .serve _ => inferInstanceAs (Decidable (_ = true))
  | .initSetLast _, .fail _ => inferInstanceAs (Decidable (_ = _))
  | .initGet _, .fail _ | .initSetLast _, .serve _ | .idle, _ | .getTokenGet _, _
  | .getTokenSet _ _ _, _ | .refillGetLast, _ | .refillTime _ _, _ | .refillSetLast _ _ _, _
  | .refillGet, _ | .refillSet _ _, _ | .initSetBucket _, _ => isFalse id

/-- An initialisation leaves the bucket to other VMs only after one of them has written it. -/
def SeededWhenFound (s : State V) : Label V → Prop
  | .host v reply => (s.vm v).pc.LeavesBucket s.data reply → Seeded s
  | _ => True

instance (s : State V) : (l : Label V) → Decidable (SeededWhenFound s l)
  | .host _ _ => inferInstanceAs (Decidable (_ → _))
  | .tick _ | .call _ _ => isTrue trivial

/-- The VM is inside `getToken`. -/
def Pc.TakesToken : Pc → Prop
  | .getTokenGet _ | .getTokenSet _ _ _ => True
  | _ => False

/-- What holds in every run: the VMs remember snapshots, the bucket exists once its initial tokens
are written, and a VM takes tokens only after its initialisation. -/
structure Sound (s : State V) : Prop where
  ok : ∀ v, (s.vm v).pc.Ok s.data
  seeded_iff : Seeded s ↔ s.data.cell .tokenBucket ≠ none
  initialized : ∀ v, (s.vm v).pc.TakesToken → (s.vm v).initialized = true

theorem sound_unwritten : Sound (State.unwritten : State V) where
  ok _ := trivial
  seeded_iff := iff_of_false (fun ⟨_, hw, _⟩ => nomatch hw) fun h => h rfl
  initialized _ h := h.elim

theorem Sound.usable_iff {s : State V} (h : Sound s) :
    Usable s ↔ ∀ v, (s.vm v).initialized = true → s.data.cell .tokenBucket ≠ none := by
  refine ⟨Usable.stored, fun hstored => ⟨hstored, fun v i fresh hpc => ?_⟩⟩
  obtain ⟨c, hc⟩ := Option.ne_none_iff_exists'.1
    (hstored v (h.initialized v (by rw [hpc]; trivial)))
  exact ⟨c, by simp only [Reply.answer, hc, Option.elim_some]⟩

theorem takesToken_of_resume {cfg : Config} {pc : Pc} {ans : Answer}
    (h : (resume cfg pc ans).pc.TakesToken) : pc.TakesToken := by
  revert h
  fun_cases resume cfg pc ans <;> intro h
  all_goals first | exact h | trivial

/-- `initializeTokenBucket` succeeds in three ways. -/
theorem succeeds_iff {cfg : Config} {pc : Pc} {ans : Answer} :
    resume cfg pc ans = .done (.initializeTokenBucket true) ↔
      (∃ n value cas, pc = .initGet n ∧ ans = .data value cas) ∨
      (∃ n, pc = .initSetLast n ∧ ans = .result .CasMismatch) ∨
      (∃ n, pc = .initSetBucket n ∧ ans = .result .Ok) := by
  fun_cases resume cfg pc ans
  case case5 i _ _ =>
    unfold retryGetToken
    split_ifs <;> simp
  all_goals simp_all

variable [DecidableEq V] {cfg : Config} {s s' : State V}

omit [DecidableEq V] in
theorem Wrote.seeded_iff {v : V} {n : Next} {k : Key} {w : SetCall V}
    (h : Wrote cfg s v n k w s') (hs : Seeded s ↔ s.data.cell .tokenBucket ≠ none) :
    Seeded s' ↔ s'.data.cell .tokenBucket ≠ none := by
  have hseeded : Seeded s' ↔ w.site = .initBucket ∨ Seeded s := by
    simp only [Seeded, h.writes_log, List.mem_cons, exists_eq_or_imp]
  by_cases hk : k = .tokenBucket
  · -- the bucket exists after the write; unless the write creates it, it existed before
    have hcell : s'.data.cell .tokenBucket ≠ none := by
      intro hnone
      have hself := h.cell_self
      rw [hk, hnone] at hself
      cases hself
    refine iff_of_true (hseeded.2 ?_) hcell
    by_cases hinit : (s.vm v).pc.Initializing
    · obtain ⟨m, -, -, hk', -⟩ | ⟨m, -, -, -, hsite⟩ := h.init_cases hinit
      · rw [hk] at hk'
        cases hk'
      · exact .inl hsite
    · refine .inr (hs.2 fun hnone => ?_)
      have hold := h.old
      rw [hk, hnone] at hold
      obtain ⟨_, _, _, -, -, -, -, -, -, ho, -⟩ | ⟨_, _, _, -, -, hk', -⟩ |
        ⟨_, _, -, -, -, -, -, ho, -⟩ := h.serving_cases hinit
      · exact Option.some_ne_none _ (ho.symm.trans hold)
      · rw [hk] at hk'
        cases hk'
      · exact Option.some_ne_none _ (ho.symm.trans hold)
  · rw [hseeded, h.cell_of_ne (Ne.symm hk), ← hs, or_iff_right]
    intro hsite
    have hwrites := h.effect
    rw [hsite] at hwrites
    generalize (s.vm v).pc = pc, w.read = read, w.new = new at hwrites
    cases hwrites
    exact hk rfl

theorem Sound.next {l : Label V} (h : Sound s) (hn : (machine cfg).next s l = some s') :
    Sound s' := by
  refine ⟨(stable_ok cfg).step (fun _ _ _ => trivial) h.ok hn, ?_, ?_⟩
  · cases l with
    | tick now =>
      obtain ⟨-, rfl⟩ := tick_of_next hn
      exact h.seeded_iff
    | call v f =>
      obtain ⟨-, -, -, hdata, -, hlog⟩ := call_of_next hn
      rw [Seeded, hlog, writes_called, hdata]
      exact h.seeded_iff
    | host v reply =>
      obtain ⟨n, -, -, hquiet | ⟨k, w, hwrote⟩⟩ := host_cases (h.ok v) hn
      · rw [Seeded, hquiet.writes_log, hquiet.data]
        exact h.seeded_iff
      · exact hwrote.seeded_iff h.seeded_iff
  · cases l with
    | tick now =>
      obtain ⟨-, rfl⟩ := tick_of_next hn
      exact h.initialized
    | call v f =>
      obtain ⟨-, hallowed, hvm, -, -, -⟩ := call_of_next hn
      intro u hu
      rw [hvm] at hu ⊢
      by_cases huv : u = v
      · rw [huv, Function.update_self] at hu ⊢
        cases f with
        | getToken => exact hallowed
        | refillToken | initializeTokenBucket => exact hu.elim
      · rw [Function.update_of_ne huv] at hu ⊢
        exact h.initialized u hu
    | host v reply =>
      obtain ⟨call, ans, d, -, -, rfl⟩ := served_of_next hn
      intro u hu
      simp only [State.advance] at hu ⊢
      by_cases huv : u = v
      · rw [huv, Function.update_self] at hu ⊢
        rw [Vm.after_pc] at hu
        have hinit := h.initialized v (takesToken_of_resume hu)
        cases resume cfg (s.vm v).pc ans with
        | goto pc => exact hinit
        | done r => simp [Vm.after, hinit]
      · rw [Function.update_of_ne huv] at hu ⊢
        exact h.initialized u hu

omit [DecidableEq V] in
/-- The host calls remove no key. -/
theorem Served.cell_ne_none {d d' : SharedData Key UInt64} {clock : UInt64} {call : HostCall}
    {ans : Answer} (h : Served d clock call ans d') {k : Key} (hk : d.cell k ≠ none) :
    d'.cell k ≠ none := by
  cases h with
  | @accepted k' x cas fresh hf _ =>
    by_cases hkk : k = k'
    · rw [hkk, SharedData.cell_write_self]
      exact Option.some_ne_none _
    · rwa [SharedData.cell_write_of_ne hf hkk]
  | _ => exact hk

/-- A VM is told that the initialisation succeeded only if it was told so before, or by the step
it makes. -/
theorem initialized_advance {v u : V} {call : HostCall} {ans : Answer}
    {d : SharedData Key UInt64} :
    ((s.advance cfg v call ans d).vm u).initialized = true ↔ (s.vm u).initialized = true ∨
      u = v ∧ resume cfg (s.vm v).pc ans = .done (.initializeTokenBucket true) := by
  by_cases huv : u = v
  · simp only [State.advance, huv, Function.update_self, true_and]
    cases resume cfg (s.vm v).pc ans with
    | goto pc => simp [Vm.after]
    | done r => simp [Vm.after]
  · simp [State.advance, huv]

omit [DecidableEq V] in
/-- These are the successes of `initializeTokenBucket` without a write. -/
theorem leavesBucket_iff {d d' : SharedData Key UInt64} {clock : UInt64} {pc : Pc}
    {reply : Reply} {call : HostCall} {ans : Answer} (hcall : hostCall cfg pc = some call)
    (hans : reply.answer d clock call = some (ans, d')) :
    pc.LeavesBucket d reply ↔ (∃ n value cas, pc = .initGet n ∧ ans = .data value cas) ∨
      (∃ n, pc = .initSetLast n ∧ ans = .result .CasMismatch) := by
  have hacc : d.Accepts .lastRefilled 0 := .inl rfl
  cases pc with
  | initGet n =>
    cases hcall
    cases reply with
    | serve fresh =>
      cases hcell : d.cell .lastRefilled <;> rw [Reply.answer, hcell] at hans <;> cases hans <;>
        simp [Pc.LeavesBucket, hcell]
    | fail r =>
      simp only [Reply.answer] at hans
      split_ifs at hans
      cases hans
      simp [Pc.LeavesBucket]
  | initSetLast n =>
    cases hcall
    cases reply with
    | serve fresh =>
      simp only [Reply.answer, if_pos hacc] at hans
      split_ifs at hans
      cases hans
      simp [Pc.LeavesBucket]
    | fail r =>
      simp only [Reply.answer] at hans
      split_ifs at hans
      cases hans
      simp [Pc.LeavesBucket]
  | _ => simp [Pc.LeavesBucket]

/-- A step keeps the bucket usable exactly if an initialisation that it ends successfully has not
left the bucket to a VM that has not written it. -/
theorem usable_next_iff {l : Label V} (h : Sound s) (hs : Usable s)
    (hn : (machine cfg).next s l = some s') : Usable s' ↔ SeededWhenFound s l := by
  rw [(h.next hn).usable_iff]
  cases l with
  | tick now =>
    obtain ⟨-, rfl⟩ := tick_of_next hn
    exact iff_of_true hs.stored trivial
  | call v f =>
    obtain ⟨-, -, hvm, hdata, -, -⟩ := call_of_next hn
    refine iff_of_true (fun u hu => ?_) trivial
    rw [hdata]
    refine hs.stored u ?_
    rw [hvm] at hu
    by_cases huv : u = v
    · rw [huv, Function.update_self] at hu
      exact huv ▸ hu
    · rwa [Function.update_of_ne huv] at hu
  | host v reply =>
    obtain ⟨call, hcall, hn⟩ := Option.bind_eq_some_iff.1 hn
    obtain ⟨⟨ans, d⟩, hans, rfl⟩ := Option.map_eq_some_iff.1 hn
    have hserved := Reply.served hans
    have hkeep : s.data.cell .tokenBucket ≠ none → d.cell .tokenBucket ≠ none :=
      hserved.cell_ne_none
    rw [SeededWhenFound, leavesBucket_iff hcall hans]
    constructor
    · rintro hstored hearly
      have hdone : resume cfg (s.vm v).pc ans = .done (.initializeTokenBucket true) :=
        succeeds_iff.2 (hearly.imp_right .inl)
      have hbucket := hstored v (initialized_advance.2 (.inr ⟨rfl, hdone⟩))
      -- an early success writes nothing
      have hd : d = s.data := by
        obtain ⟨n, value, cas, hpc, rfl⟩ | ⟨n, hpc, rfl⟩ := hearly <;> cases hserved <;> rfl
      exact h.seeded_iff.2 (hd ▸ hbucket)
    · rintro hseeded u hu
      obtain hu | ⟨rfl, hdone⟩ := initialized_advance.1 hu
      · exact hkeep (hs.stored u hu)
      · obtain hget | hset | ⟨n, hpc, rfl⟩ := succeeds_iff.1 hdone
        · exact hkeep (h.seeded_iff.1 (hseeded (.inl hget)))
        · exact hkeep (h.seeded_iff.1 (hseeded (.inr hset)))
        · rw [hpc] at hcall
          cases hcall
          cases hserved with
          | accepted hf _ =>
            show (s.data.write _ _ _ hf).cell .tokenBucket ≠ none
            rw [SharedData.cell_write_self]
            exact Option.some_ne_none _
          | refused r hr => exact absurd rfl hr

/-- **The bucket is usable throughout a run exactly if no initialisation leaves it to other VMs
before one of them has written it.** -/
theorem usable_iff_seededWhenFound {ls : List (Label V)}
    (hrun : (machine cfg).run (fun _ _ => True) State.unwritten ls = some s) :
    (machine cfg).Keeps Usable State.unwritten ls ↔
      (machine cfg).Along SeededWhenFound State.unwritten ls :=
  Machine.keeps_iff_along_of_run (J := Sound) (fun _ _ _ h hn => h.next hn)
    (fun _ _ _ h hs hn => usable_next_iff h hs hn) sound_unwritten
    (sound_unwritten.usable_iff.2 fun _ h => nomatch h) hrun

/-- A VM that looks for the bucket after it was written. -/
theorem usable_sequential :
    (machine ⟨1, 10, 5⟩).Keeps Usable (State.unwritten : State Bool)
      [.call false (.initializeTokenBucket 5), .host false (.serve 0), .host false (.serve 1),
       .host false (.serve 1), .call true (.initializeTokenBucket 5), .host true (.serve 0),
       .call true .getToken, .host true (.serve 0)] := by
  have hrun : ((machine ⟨1, 10, 5⟩).run (fun _ _ => True) (State.unwritten : State Bool)
      [.call false (.initializeTokenBucket 5), .host false (.serve 0), .host false (.serve 1),
       .host false (.serve 1), .call true (.initializeTokenBucket 5), .host true (.serve 0),
       .call true .getToken, .host true (.serve 0)]).isSome := by decide
  exact (usable_iff_seededWhenFound (Option.some_get hrun).symm).2 (by decide)

/-- **A VM looks for `last_refilled` between the two writes of another VM.**  It is told that the
initialisation succeeded and has no bucket. -/
theorem unusable_between_writes : ¬ ∀ (cfg : Config) (n : UInt64) (s : State Bool),
    (machine cfg).Reaches (fun _ l => l.InitializesWith n) State.unwritten s → Usable s := by
  intro h
  have hrun : ((machine ⟨1, 10, 5⟩).run (fun _ l => l.InitializesWith 5)
      (State.unwritten : State Bool)
      [.call false (.initializeTokenBucket 5), .host false (.serve 0), .host false (.serve 1),
       .call true (.initializeTokenBucket 5), .host true (.serve 0)]).isSome := by decide
  exact (h _ _ _ (.of_isSome hrun)).stored true rfl rfl

end LocalRateLimit

end WasmExtensions
