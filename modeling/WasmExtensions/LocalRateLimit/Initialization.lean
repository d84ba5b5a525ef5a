import WasmExtensions.LocalRateLimit.Snapshots

/-!
# Initialising the token bucket

`initializeTokenBucket` looks for `last_refilled` and, when it is not there, writes both keys.
Neither write carries a version, so a VM overwrites whatever other VMs have stored since its
check: a VM that serves traffic in between has its taken tokens given back
(`initialization_race`).

The check of the code is enough exactly as long as its outcome is still true when the VM acts on
it (`CheckHolds`): a run initialises the bucket once **if and only if** every carried out write of
`last_refilled` by `initializeTokenBucket` finds the key still missing
(`initOnce_iff_checkHolds`).

* `InitOnce` : the bucket is initialised once, before any token is taken or refill claimed.
* `Phase` : how far the initialisation has come; the invariant of the runs that satisfy
  `CheckHolds`.
-/

namespace WasmExtensions

namespace LocalRateLimit

variable {V : Type*}

/-- The number of accepted writes at a site. -/
def countAt (site : Site) (ws : List (SetCall V)) : ℕ := ws.countP fun w => w.site = site

/-- Each key is initialised by at most one of the writes `ws` (latest first), no token was taken
before the bucket was set and no refill claimed before the last refill time was. -/
structure InitOnce (ws : List (SetCall V)) : Prop where
  bucket : countAt .initBucket ws ≤ 1
  last : countAt .initLast ws ≤ 1
  taken : ws.Pairwise fun later earlier => later.site = .initBucket → earlier.site ≠ .take
  claimed : ws.Pairwise fun later earlier => later.site = .initLast → earlier.site ≠ .claim

/-- No key has been written, no VM is inside a function and nothing is logged. -/
structure Unwritten (s : State V) : Prop where
  cell : ∀ k, s.data.cell k = none
  idle : ∀ v, (s.vm v).pc = .idle
  log : s.log = []

/-- When the host carries out the write of the last refill time by `initializeTokenBucket`, the key
is still missing, as the check of the function has found it. -/
def CheckHolds (s : State V) : Label V → Prop
  | .host v (.serve _) => (∃ n, (s.vm v).pc = .initSetLast n) → s.data.cell .lastRefilled = none
  | _ => True

theorem countAt_cons (site : Site) (w : SetCall V) (ws : List (SetCall V)) :
    countAt site (w :: ws) = countAt site ws + if w.site = site then 1 else 0 := by
  simp [countAt, List.countP_cons]

theorem countAt_eq_zero {site : Site} {ws : List (SetCall V)} (h : ∀ w ∈ ws, w.site ≠ site) :
    countAt site ws = 0 :=
  List.countP_eq_zero.2 fun w hw => by simpa using h w hw

theorem initOnce_nil : InitOnce ([] : List (SetCall V)) :=
  ⟨Nat.zero_le _, Nat.zero_le _, .nil, .nil⟩

section

variable {w : SetCall V} {ws : List (SetCall V)}

/-- A write of a serving function initialises nothing. -/
theorem InitOnce.cons_serving (h : InitOnce ws) (hb : w.site ≠ .initBucket)
    (hl : w.site ≠ .initLast) : InitOnce (w :: ws) where
  bucket := by rw [countAt_cons, if_neg hb]; exact h.bucket
  last := by rw [countAt_cons, if_neg hl]; exact h.last
  taken := List.pairwise_cons.2 ⟨fun _ _ hs => absurd hs hb, h.taken⟩
  claimed := List.pairwise_cons.2 ⟨fun _ _ hs => absurd hs hl, h.claimed⟩

theorem InitOnce.cons_initBucket (h : InitOnce ws) (hw : w.site = .initBucket)
    (hws : ∀ x ∈ ws, x.site ≠ .initBucket ∧ x.site ≠ .take) : InitOnce (w :: ws) where
  bucket :=
    Nat.le_of_eq (by rw [countAt_cons, countAt_eq_zero fun x hx => (hws x hx).1, if_pos hw])
  last := by rw [countAt_cons, if_neg (by simp [hw])]; exact h.last
  taken := List.pairwise_cons.2 ⟨fun x hx _ => (hws x hx).2, h.taken⟩
  claimed := List.pairwise_cons.2 ⟨fun _ _ hs => by simp [hw] at hs, h.claimed⟩

theorem initOnce_initLast (hw : w.site = .initLast) : InitOnce [w] where
  bucket := by rw [countAt_cons, if_neg (by simp [hw])]; exact Nat.zero_le _
  last := by rw [countAt_cons, if_pos hw]; exact Nat.le_refl 1
  taken := List.pairwise_singleton ..
  claimed := List.pairwise_singleton ..

end

/-! ### The phases of an initialisation -/

/-- How far the initialisation has come: nothing is written; the last refill time is written and
at most the VM `v` is about to write the bucket; or the bucket is written too. -/
inductive Phase (s : State V) : Prop
  | missing : s.data.cell .lastRefilled = none → s.data.cell .tokenBucket = none →
      (∀ v, ¬ (s.vm v).pc.Seeding) → writes s.log = [] → Phase s
  | seeding (v : V) : s.data.cell .lastRefilled ≠ none → s.data.cell .tokenBucket = none →
      (∀ u, u ≠ v → ¬ (s.vm u).pc.Seeding) →
      (∀ w ∈ writes s.log, w.site ≠ .initBucket ∧ w.site ≠ .take) →
      countAt .initLast (writes s.log) = 1 → InitOnce (writes s.log) → Phase s
  | seeded : s.data.cell .lastRefilled ≠ none → (∀ v, ¬ (s.vm v).pc.Seeding) →
      countAt .initLast (writes s.log) = 1 → InitOnce (writes s.log) → Phase s

theorem Unwritten.phase {s : State V} (h : Unwritten s) : Phase s :=
  .missing (h.cell _) (h.cell _) (fun v => by rw [h.idle v]; exact id) (by rw [h.log]; rfl)

theorem Phase.initOnce {s : State V} (h : Phase s) : InitOnce (writes s.log) := by
  cases h with
  | missing _ _ _ hws => rw [hws]; exact initOnce_nil
  | seeding _ _ _ _ _ _ h => exact h
  | seeded _ _ _ h => exact h

/-- A key is stored only after `last_refilled` was initialised. -/
theorem Phase.countAt_initLast {s : State V} (h : Phase s)
    (hcell : s.data.cell .lastRefilled ≠ none) : countAt .initLast (writes s.log) = 1 := by
  cases h with
  | missing hlast _ _ _ => exact absurd hlast hcell
  | seeding _ _ _ _ _ h _ => exact h
  | seeded _ _ h _ => exact h

/-- The program points of the VMs do not matter, as long as no VM starts to write the bucket. -/
theorem Phase.of_vm {s s' : State V} (h : Phase s) (hdata : s'.data = s.data)
    (hws : writes s'.log = writes s.log)
    (hvm : ∀ v, (s'.vm v).pc.Seeding → (s.vm v).pc.Seeding) : Phase s' := by
  cases h with
  | missing hlast hbucket hs hw =>
    exact .missing (hdata ▸ hlast) (hdata ▸ hbucket) (fun v hv => hs v (hvm v hv)) (hws ▸ hw)
  | seeding v hlast hbucket hs hw hc hi =>
    exact .seeding v (hdata ▸ hlast) (hdata ▸ hbucket) (fun u hu hv => hs u hu (hvm u hv))
      (hws ▸ hw) (hws ▸ hc) (hws ▸ hi)
  | seeded hlast hs hc hi =>
    exact .seeded (hdata ▸ hlast) (fun v hv => hs v (hvm v hv)) (hws ▸ hc) (hws ▸ hi)

variable [DecidableEq V] {cfg : Config} {s₀ s s' : State V}

section

variable {v : V} {n : Next} {k : Key} {w : SetCall V}

omit [DecidableEq V] in
/-- A write removes no key. -/
theorem Wrote.cell_ne_none (h : Wrote cfg s v n k w s') {k' : Key}
    (hcell : s.data.cell k' ≠ none) : s'.data.cell k' ≠ none := by
  by_cases hk : k' = k
  · intro hnone
    have hself := h.cell_self
    rw [← hk, hnone] at hself
    cases hself
  · rwa [h.cell_of_ne hk]

/-- A write of a serving function does not touch a missing key, and starts no initialisation. -/
theorem Wrote.serving_phase (h : Wrote cfg s v n k w s')
    (hvm : s'.vm = Function.update s.vm v ((s.vm v).after n))
    (hserv : ¬ (s.vm v).pc.Initializing) (hs : Phase s) : Phase s' := by
  obtain ⟨hsite, hns, x, hold⟩ : (w.site ≠ .initBucket ∧ w.site ≠ .initLast) ∧ ¬ n.pc.Seeding ∧
      ∃ x, w.old = some x := by
    obtain ⟨i, t, cas, -, -, rfl, -, hs, -, ho, -⟩ |
      ⟨lastUpdate, now, cas, -, rfl, -, hs, -, ho, -⟩ | ⟨t, cas, -, rfl, -, hs, -, ho, -⟩ :=
      h.serving_cases hserv <;> exact ⟨by simp [hs], id, _, ho⟩
  have hcell : s.data.cell k ≠ none := by
    intro hnone
    rw [h.old, hnone] at hold
    cases hold
  have hseed (u : V) (hu : (s'.vm u).pc.Seeding) : (s.vm u).pc.Seeding := by
    rw [pc_update hvm Pc.Seeding u] at hu
    split_ifs at hu
    · exact absurd hu hns
    · exact hu
  have hcount : countAt .initLast (writes s'.log) = countAt .initLast (writes s.log) := by
    rw [h.writes_log, countAt_cons, if_neg hsite.2, Nat.add_zero]
  cases hs with
  | missing hlast hbucket _ _ => cases k <;> contradiction
  | seeding v₀ hlast hbucket hv hw hc hi =>
    have hk : Key.tokenBucket ≠ k := fun hk => hcell (hk ▸ hbucket)
    refine .seeding v₀ (h.cell_ne_none hlast) (by rw [h.cell_of_ne hk]; exact hbucket)
      (fun u hu hs => hv u hu (hseed u hs)) ?_ (by rw [hcount]; exact hc)
      (by rw [h.writes_log]; exact hi.cons_serving hsite.1 hsite.2)
    rw [h.writes_log]
    refine List.forall_mem_cons.2 ⟨⟨hsite.1, fun htake => ?_⟩, hw⟩
    -- a token can only be taken from an existing bucket
    obtain ⟨_, _, _, -, -, -, hk', -⟩ | ⟨_, _, _, -, -, -, hs, -⟩ | ⟨_, _, -, -, -, hs, -⟩ :=
      h.serving_cases hserv
    · exact hk hk'.symm
    · simp [hs] at htake
    · simp [hs] at htake
  | seeded hlast hv hc hi =>
    exact .seeded (h.cell_ne_none hlast) (fun u hu => hv u (hseed u hu)) (by rw [hcount]; exact hc)
      (by rw [h.writes_log]; exact hi.cons_serving hsite.1 hsite.2)

/-- The last refill time is initialised when the key is missing. -/
theorem Wrote.initLast_phase (h : Wrote cfg s v n k w s')
    (hvm : s'.vm = Function.update s.vm v ((s.vm v).after n))
    (hk : k = .lastRefilled) (hsite : w.site = .initLast)
    (hcell : s.data.cell .lastRefilled = none) (hs : Phase s) : Phase s' := by
  cases hs with
  | missing hlast hbucket hv hw =>
    have hlog : writes s'.log = [w] := by rw [h.writes_log, hw]
    refine .seeding v ?_ (by rw [h.cell_of_ne (by simp [hk])]; exact hbucket) (fun u hu => ?_) ?_
      (by rw [hlog, countAt_cons, if_pos hsite]; rfl) (by rw [hlog]; exact initOnce_initLast hsite)
    · intro hnone
      have hself := h.cell_self
      rw [hk, hnone] at hself
      cases hself
    · rw [pc_update hvm Pc.Seeding u, if_neg hu]
      exact hv u
    · rw [hlog]
      simp [hsite]
  | seeding _ hlast => exact absurd hcell hlast
  | seeded hlast => exact absurd hcell hlast

/-- The bucket is initialised by the VM that has initialised the last refill time. -/
theorem Wrote.initBucket_phase (h : Wrote cfg s v n k w s')
    (hvm : s'.vm = Function.update s.vm v ((s.vm v).after n)) (hpc : (s.vm v).pc.Seeding)
    (hns : ¬ n.pc.Seeding) (hk : k = .tokenBucket) (hsite : w.site = .initBucket)
    (hs : Phase s) : Phase s' := by
  cases hs with
  | missing _ _ hv _ => exact absurd hpc (hv v)
  | seeding v₀ hlast hbucket hv hw hc hi =>
    obtain rfl : v = v₀ := by
      by_contra hne
      exact hv v hne hpc
    refine .seeded (by rw [h.cell_of_ne (by simp [hk])]; exact hlast) (fun u => ?_) ?_
      (by rw [h.writes_log]; exact hi.cons_initBucket hsite hw)
    · rw [pc_update hvm Pc.Seeding u]
      split_ifs with huv
      · exact hns
      · exact hv u huv
    · rw [h.writes_log, countAt_cons, if_neg (by simp [hsite])]
      exact hc
  | seeded _ hv _ _ => exact absurd hpc (hv v)

end

/-! ### Runs -/

/-- The host carries a write out only if it serves it. -/
theorem Wrote.exists_serve {v : V} {n : Next} {k : Key} {w : SetCall V} {reply : Reply}
    (h : Wrote cfg s v n k w s') (hn : (machine cfg).next s (.host v reply) = some s') :
    ∃ fresh, reply = .serve fresh := by
  cases reply with
  | serve fresh => exact ⟨fresh, rfl⟩
  | fail r =>
    -- a refused call leaves the shared data as they are, a write does not
    obtain ⟨call, -, hn⟩ := Option.bind_eq_some_iff.1 hn
    obtain ⟨⟨ans, d⟩, hans, rfl⟩ := Option.map_eq_some_iff.1 hn
    have hd : d = s.data := by
      cases call with
      | getCurrentTimeNanoseconds => cases hans
      | getSharedData | setSharedData =>
        simp only [Reply.answer] at hans
        split_ifs at hans
        cases hans
        rfl
    obtain ⟨fresh, hf, hdata⟩ := h.data
    have hissued := congrArg (fun d => d.issued k) (hd.symm.trans hdata)
    simp [SharedData.write] at hissued

theorem phase_step {l : Label V} (hok : ∀ v, (s.vm v).pc.Ok s.data) (hC : CheckHolds s l)
    (hn : (machine cfg).next s l = some s') (hs : Phase s) : Phase s' := by
  cases l with
  | tick now =>
    obtain ⟨-, rfl⟩ := tick_of_next hn
    exact hs.of_vm rfl rfl fun _ => id
  | call v f =>
    obtain ⟨-, -, hvm, hd, -, hlog⟩ := call_of_next hn
    refine hs.of_vm hd (by rw [hlog]; rfl) fun u hu => ?_
    rw [hvm] at hu
    by_cases huv : u = v
    · rw [huv, Function.update_self] at hu
      cases f <;> exact hu.elim
    · rwa [Function.update_of_ne huv] at hu
  | host v reply =>
    obtain ⟨n, hvm, -, hquiet | ⟨k, w, hwrote⟩⟩ := host_cases (hok v) hn
    · refine hs.of_vm hquiet.data hquiet.writes_log fun u hu => ?_
      rw [pc_update hvm Pc.Seeding u] at hu
      split_ifs at hu
      · exact absurd hu hquiet.not_seeding
      · exact hu
    · obtain ⟨fresh, rfl⟩ := hwrote.exists_serve hn
      by_cases hinit : (s.vm v).pc.Initializing
      · obtain ⟨m, hpc, rfl, hk, hsite⟩ | ⟨m, hpc, rfl, hk, hsite⟩ := hwrote.init_cases hinit
        · exact hwrote.initLast_phase hvm hk hsite (hC ⟨m, hpc⟩) hs
        · exact hwrote.initBucket_phase hvm (by rw [hpc]; trivial) id hk hsite hs
      · exact hwrote.serving_phase hvm hinit hs

/-- A step that overwrites the last refill time initialises it a second time. -/
theorem countAt_of_not_checkHolds {l : Label V} (hs : Phase s) (hC : ¬ CheckHolds s l)
    (hn : (machine cfg).next s l = some s') : countAt .initLast (writes s'.log) = 2 := by
  obtain ⟨v, fresh, n, rfl, hpc, hcell⟩ : ∃ v fresh n, l = .host v (.serve fresh) ∧
      (s.vm v).pc = .initSetLast n ∧ s.data.cell .lastRefilled ≠ none := by
    cases l with
    | tick now => exact absurd trivial hC
    | call v f => exact absurd trivial hC
    | host v reply =>
      cases reply with
      | fail r => exact absurd trivial hC
      | serve fresh =>
        obtain ⟨⟨n, hpc⟩, hcell⟩ := Classical.not_imp.1 hC
        exact ⟨v, fresh, n, rfl, hpc, hcell⟩
  -- the write carries no version, so the host accepts it
  have hacc : s.data.Accepts .lastRefilled 0 := .inl rfl
  obtain ⟨call, hcall, hn⟩ := Option.bind_eq_some_iff.1 hn
  rw [hpc] at hcall
  cases hcall
  obtain ⟨⟨ans, d⟩, hans, rfl⟩ := Option.map_eq_some_iff.1 hn
  simp only [Reply.answer, if_pos hacc] at hans
  split_ifs at hans
  cases hans
  simp [State.advance, State.setEvents, hpc, Pc.write, writes_set, countAt_cons,
    hs.countAt_initLast hcell]

/-- Accepted writes stay in the log. -/
theorem countAt_le_of_next {l : Label V} (site : Site) (hn : (machine cfg).next s l = some s') :
    countAt site (writes s.log) ≤ countAt site (writes s'.log) := by
  cases l with
  | tick now =>
    obtain ⟨-, rfl⟩ := tick_of_next hn
    exact Nat.le_refl _
  | call v f =>
    obtain ⟨-, -, -, -, -, hlog⟩ := call_of_next hn
    exact Nat.le_of_eq (by rw [hlog, writes_called])
  | host v reply =>
    obtain ⟨call, ans, d, -, -, rfl⟩ := served_of_next hn
    simp only [State.advance, writes_append, countAt, List.countP_append]
    exact Nat.le_add_left ..

theorem countAt_le_of_run (site : Site) {ls : List (Label V)}
    (h : (machine cfg).run (fun _ _ => True) s ls = some s') :
    countAt site (writes s.log) ≤ countAt site (writes s'.log) := by
  have hr := Machine.Reaches.of_run h
  clear h
  induction hr with
  | refl => exact Nat.le_refl _
  | step _ _ hn ih => exact Nat.le_trans ih (countAt_le_of_next site hn)

instance (s : State V) : (l : Label V) → Decidable (CheckHolds s l)
  | .tick _ | .call _ _ | .host _ (.fail _) => isTrue trivial
  | .host v (.serve _) =>
    match hpc : (s.vm v).pc with
    | .initSetLast n =>
      if hcell : (s.data.cell .lastRefilled).isNone then
        isTrue fun _ => Option.isNone_iff_eq_none.1 hcell
      else isFalse fun h => hcell (Option.isNone_iff_eq_none.2 (h ⟨n, hpc⟩))
    | .idle | .getTokenGet _ | .getTokenSet _ _ _ | .refillGetLast | .refillTime _ _
    | .refillSetLast _ _ _ | .refillGet | .refillSet _ _ | .initGet _ | .initSetBucket _ =>
      isTrue fun ⟨_, h⟩ => by simp [hpc] at h

/-- **The bucket is initialised once exactly in the runs in which the check of every VM still
holds when it acts on it.** -/
theorem initOnce_iff_checkHolds (h₀ : Unwritten s₀) {ls : List (Label V)}
    (h : (machine cfg).run (fun _ _ => True) s₀ ls = some s) :
    InitOnce (writes s.log) ↔ ((machine cfg).run CheckHolds s₀ ls).isSome := by
  have hok : ∀ v, (s₀.vm v).pc.Ok s₀.data := fun v => by rw [h₀.idle v]; trivial
  have hphase := h₀.phase
  clear h₀
  induction ls generalizing s₀ with
  | nil =>
    cases h
    exact iff_of_true hphase.initOnce rfl
  | cons l ls ih =>
    simp only [Machine.run, if_true] at h ⊢
    obtain ⟨s₁, hn, h⟩ := Option.bind_eq_some_iff.1 h
    split_ifs with hC
    · rw [hn, Option.bind_some]
      exact ih h ((stable_ok cfg).step (fun _ _ _ => trivial) hok hn)
        (phase_step hok hC hn hphase)
    · refine iff_of_false (fun hinit => ?_) (by simp)
      have htwo := countAt_of_not_checkHolds hphase hC hn
      have hle := countAt_le_of_run .initLast h
      rw [htwo] at hle
      exact Nat.not_succ_le_self 1 (Nat.le_trans hle hinit.last)

/-- The shared data before any write, and VMs that have not been configured. -/
def State.unwritten : State V := ⟨fun _ => ⟨.idle, false⟩, .empty, 0, []⟩

omit [DecidableEq V] in
theorem unwritten_unwritten : Unwritten (State.unwritten : State V) :=
  ⟨fun _ => rfl, fun _ => rfl, rfl⟩

/-- One VM initialises the bucket before another one looks for it. -/
theorem initOnce_sequential :
    InitOnce (writes (((machine ⟨1, 10, 5⟩).run (fun _ _ => True) (State.unwritten : State Bool)
      [.call false (.initializeTokenBucket 5), .host false (.serve 0), .host false (.serve 1),
       .call true (.initializeTokenBucket 5), .host true (.serve 0),
       .host false (.serve 1)]).get (by decide)).log) :=
  (initOnce_iff_checkHolds unwritten_unwritten (Option.some_get _).symm).2 (by decide)

/-- All VMs initialise with the same number of tokens. -/
def Label.InitializesWith (n : UInt64) : Label V → Prop
  | .call _ (.initializeTokenBucket m) => m = n
  | _ => True

instance (n : UInt64) : (l : Label V) → Decidable (l.InitializesWith n)
  | .call _ (.initializeTokenBucket m) => inferInstanceAs (Decidable (m = n))
  | .call _ .getToken | .call _ .refillToken | .tick _ | .host _ _ => isTrue trivial

/-- **Two VMs find no bucket; one of them initialises it and takes a token before the other one
initialises it again.**  The token is given back. -/
theorem initialization_race : ¬ ∀ (cfg : Config) (n : UInt64) (s : State Bool),
    (machine cfg).Reaches (fun _ l => l.InitializesWith n) State.unwritten s →
      InitOnce (writes s.log) := by
  intro h
  have hrun : ((machine ⟨1, 10, 5⟩).run (fun _ l => l.InitializesWith 5)
      (State.unwritten : State Bool)
      [.call false (.initializeTokenBucket 5), .call true (.initializeTokenBucket 5),
       .host false (.serve 0), .host true (.serve 0), .host false (.serve 1),
       .host false (.serve 1), .call false .getToken, .host false (.serve 0),
       .host false (.serve 2), .host true (.serve 2), .host true (.serve 3)]).isSome := by decide
  have htwo := (h _ _ _ (.of_isSome hrun)).bucket
  revert htwo
  decide +revert

end LocalRateLimit

end WasmExtensions
