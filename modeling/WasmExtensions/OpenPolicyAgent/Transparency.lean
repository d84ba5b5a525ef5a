import WasmExtensions.OpenPolicyAgent.Requests

/-!
# The cache does not change decisions

A policy decides about the text that a call sends to the server.  If the server answers every call
by this policy, then the filter decides about every request as the policy does, whether it asks the
server or finds the decision in the cache, in any order of requests, answers and configurations.

The cache knows a request only by its hash, so what it serves is a decision about some request with
the same hash (`FollowsPolicy.entries`).  Where the requests with this hash are decided alike, the
cache makes no difference (`decisions_follow_policy`).
-/

namespace WasmExtensions

namespace OpenPolicyAgent

/-! ### Policies -/

/-- What the policy decides about a request; `none` if the request cannot be sent. -/
def decision (lib : JsonLibrary) (policy : Bytes → Bool) (payload : Payload) : Option Bool :=
  (lib.dump payload.toJson).map policy

/-- What an action says about the request. -/
def Action.decision : Action → Option Bool
  | .continueRequest => some true
  | .sendLocalResponse code _ => if code = 403 then some false else none

/-- The status of the response that an action sends. -/
def Action.responseCode : Action → Option ℕ
  | .continueRequest => none
  | .sendLocalResponse code _ => some code

namespace FilterState

variable {S : Type*} (st : FilterState S) (s : S)

/-- The request of the stream was let through, at once or by the callback. -/
def Passed : Prop :=
  (∃ payload hash now validForNanosec,
    .checked s payload hash now validForNanosec .Continue ∈ st.log) ∨
  ∃ cause action, .acted cause s action ∈ st.log ∧ action.decision = some true

/-- The request of the stream was denied by a decision. -/
def Denied : Prop := ∃ cause action, .acted cause s action ∈ st.log ∧ action.decision = some false

/-- A request with this hash has been decided so by the policy. -/
def Decided (lib : JsonLibrary) (policy : Bytes → Bool) (hash : UInt64) (b : Bool) : Prop :=
  ∃ s payload now validForNanosec status,
    .checked s payload hash now validForNanosec status ∈ st.log ∧
      decision lib policy payload = some b

end FilterState

variable {S : Type*}

/-- If the call is answered with a decision, then with that of the policy about what was sent. -/
def ServedBy (lib : JsonLibrary) (policy : Bytes → Bool) (st : FilterState S) :
    FilterLabel S → Prop
  | .respond i body _ => ∀ p call r, st.pending[i]? = some p → .called p.stream call r ∈ st.log →
    ∀ b, Answers lib body b → b = policy call.body
  | _ => True

/-- All that was decided is what the policy says about a request with the same hash. -/
structure FollowsPolicy (lib : JsonLibrary) (policy : Bytes → Bool) (st : FilterState S) :
    Prop where
  entries : ∀ k e, st.root.cache.resultCache k = some e → st.Decided lib policy k e.result
  passed : ∀ s payload hash now validForNanosec,
    .checked s payload hash now validForNanosec .Continue ∈ st.log →
      st.Decided lib policy hash true
  acted : ∀ cause s action, .acted cause s action ∈ st.log →
    (∃ payload hash now validForNanosec status,
      .checked s payload hash now validForNanosec status ∈ st.log ∧
        ∀ b, action.decision = some b → st.Decided lib policy hash b) ∧
    ∀ code, action.responseCode = some code → code = 403 ∨ code = 500

/-! ### Steps -/

variable {lib : JsonLibrary} {stdHash : Bytes → UInt64} {policy : Bytes → Bool}
  {st st' : FilterState S}

theorem FilterState.Decided.mono {hash : UInt64} {b : Bool} (h : st.Decided lib policy hash b)
    (hlog : ∀ e ∈ st.log, e ∈ st'.log) : st'.Decided lib policy hash b := by
  obtain ⟨s, payload, now, valid, status, hmem, hb⟩ := h
  exact ⟨s, payload, now, valid, status, hlog _ hmem, hb⟩

theorem followsPolicy_start : FollowsPolicy lib policy (.start : FilterState S) where
  entries _ _ h := nomatch h
  passed _ _ _ _ _ h := nomatch h
  acted _ _ _ h := nomatch h

/-- What was decided before a step stays as it is. -/
theorem FollowsPolicy.old (h : FollowsPolicy lib policy st)
    (hlog : ∀ e ∈ st.log, e ∈ st'.log) {cause s : S} {action : Action}
    (hmem : .acted cause s action ∈ st.log) :
    (∃ payload hash now validForNanosec status,
      .checked s payload hash now validForNanosec status ∈ st'.log ∧
        ∀ b, action.decision = some b → st'.Decided lib policy hash b) ∧
    ∀ code, action.responseCode = some code → code = 403 ∨ code = 500 := by
  obtain ⟨⟨payload, hash, now, valid, status, hchecked, hb⟩, hcode⟩ := h.acted _ _ _ hmem
  exact ⟨⟨payload, hash, now, valid, status, hlog _ hchecked,
    fun b hdecision => (hb b hdecision).mono hlog⟩, hcode⟩

/-- A check decides by an entry of the cache, or not at all. -/
theorem FollowsPolicy.check {s : S} {payload : Payload} {now : UInt64} {callResult : WasmResult}
    {c : Root.Checked} (h : FollowsPolicy lib policy st)
    (hle : c.root.cache.EntriesLe st.root.cache)
    (hspec : Root.CheckSteps lib st.root payload now callResult c) :
    FollowsPolicy lib policy (st.afterCheck s payload now c) := by
  have hlog : ∀ e ∈ st.log, e ∈ (st.afterCheck s payload now c).log := by
    intro e he
    rw [afterCheck_log]
    exact List.mem_append_right _ he
  have hself : .checked s payload c.hash now st.root.cache.validForNanosec c.status ∈
      (st.afterCheck s payload now c).log := by
    rw [afterCheck_log]
    exact List.mem_append_left _ List.mem_cons_self
  refine ⟨fun k e he => (h.entries k e (hle k e he)).mono hlog, ?_, ?_⟩
  · intro u payload' hash t valid hmem
    rw [afterCheck_log, List.mem_append] at hmem
    rcases hmem with hmem | hmem
    · simp only [checkEvents, List.mem_cons, Event.checked.injEq, List.mem_append, List.mem_map,
        reduceCtorEq, and_false, exists_false, or_false] at hmem
      obtain ⟨-, -, rfl, -, -, hstatus⟩ := hmem
      cases hspec with
      | hit e he hvalid hcall hc haction hroot =>
        have hresult : e.result = true := by
          cases hb : e.result with
          | true => rfl
          | false =>
            rw [hb] at hc
            rw [hc] at hstatus
            cases hstatus
        rw [← hresult]
        exact (h.entries _ e he).mono hlog
      | miss body hdump hcall hc haction hroot =>
        rw [hc] at hstatus
        cases hstatus
    · exact (h.passed _ _ _ _ _ hmem).mono hlog
  · intro cause u action hmem
    rw [afterCheck_log, List.mem_append] at hmem
    rcases hmem with hmem | hmem
    · simp only [checkEvents, List.mem_cons, reduceCtorEq, List.mem_append, List.mem_map,
        Option.mem_toList, Event.acted.injEq, and_false, exists_false, or_false, false_or] at hmem
      obtain ⟨action', haction', rfl, rfl, rfl⟩ := hmem
      cases hspec with
      | hit e he hvalid hcall hc haction hroot =>
        have hresult : e.result = false := by
          cases hb : e.result with
          | false => rfl
          | true =>
            rw [haction, hb] at haction'
            cases haction'
        rw [haction, hresult] at haction'
        cases haction'
        refine ⟨⟨_, _, _, _, _, hself, fun b hb => ?_⟩, fun code hcode => ?_⟩
        · cases hb
          rw [← hresult]
          exact (h.entries _ e he).mono hlog
        · exact .inl (Option.some.inj hcode).symm
      | miss body hdump hcall hc haction hroot =>
        rw [haction] at haction'
        split_ifs at haction'
        cases haction'
        refine ⟨⟨_, _, _, _, _, hself, fun b hb => ?_⟩, fun code hcode => ?_⟩
        · cases hb
        · exact .inr (Option.some.inj hcode).symm
    · exact h.old hlog hmem

variable [DecidableEq S]

/-- An answer is the decision about the request of its own call. -/
theorem decided_of_answers (haccounted : Accounted lib st) (hclosed : FailsClosed lib stdHash st)
    {i : ℕ} {p : Pending S} {body : Bytes} {now : UInt64} {b : Bool}
    (hp : st.pending[i]? = some p) (hserved : ServedBy lib policy st (.respond i body now))
    (hb : Answers lib body b) :
    st.Decided lib policy p.payloadHash b := by
  have hmem := List.mem_of_getElem? hp
  obtain ⟨payload, t, valid, hchecked, -⟩ := hclosed.pending p hmem
  obtain ⟨call, hcalled⟩ := haccounted.called hmem
  refine ⟨p.stream, payload, t, valid, _, hchecked, ?_⟩
  rw [decision, haccounted.body _ _ _ _ _ _ _ _ hchecked hcalled, Option.map_some,
    hserved p call .Ok hp hcalled b hb]

theorem FollowsPolicy.step {l : FilterLabel S} (haccounted : Accounted lib st)
    (hclosed : FailsClosed lib stdHash st) (h : FollowsPolicy lib policy st)
    (hserved : ServedBy lib policy st l)
    (hn : (filterMachine lib stdHash).next st l = some st') : FollowsPolicy lib policy st' := by
  cases l with
  | configure configuration =>
    rw [configure_of_next hn]
    exact ⟨by rw [onConfigure_resultCache]; exact h.entries, h.passed, h.acted⟩
  | request s attributes now callResult =>
    obtain ⟨-, -, rfl⟩ := request_of_next hn
    have h' : FollowsPolicy lib policy
        { st with streams := Function.update st.streams s .alive } :=
      ⟨h.entries, h.passed, h.acted⟩
    unfold FilterState.request
    dsimp only
    split
    · exact ⟨h.entries, h.passed, h.acted⟩
    · rename_i c hcheck
      exact h'.check (Root.check_cases hcheck).2.1 (Root.check_spec hcheck)
  | delete s =>
    obtain ⟨-, rfl⟩ := delete_of_next hn
    exact ⟨h.entries, h.passed, h.acted⟩
  | respond i body now =>
    have hlog : ∀ e ∈ st.log, e ∈ st'.log := fun e he => mem_log_of_next he hn
    have hentries : ∀ k e, st'.root.cache.resultCache k = some e →
        st'.Decided lib policy k e.result := by
      intro k e he
      rcases onlyDecisionsCached hn k e he with he | ⟨j, p, body', hl, hp, rfl, hb⟩
      · exact (h.entries k e he).mono hlog
      · cases hl
        exact (decided_of_answers haccounted hclosed hp hserved hb).mono hlog
    obtain ⟨-, p, hp, heq⟩ := respond_of_next hn
    obtain ⟨payload, t, valid, hchecked, -⟩ := hclosed.pending p (List.mem_of_getElem? hp)
    refine ⟨hentries, ?_, ?_⟩
    · intro s payload' hash t' valid' hmem
      refine (h.passed s payload' hash t' valid' ?_).mono hlog
      obtain ⟨cache, fault, action, hrespond⟩ :=
        respond_spec lib { st with pending := st.pending.eraseIdx i } p body now
      rw [heq, hrespond] at hmem
      rcases List.mem_append.1 hmem with hmem | hmem
      · simp [respondEvents] at hmem
      · exact hmem
    · intro cause s action hmem
      -- The callback acts on its own stream, by the answer.
      rcases FilterState.respond_cases lib { st with pending := st.pending.eraseIdx i } p body now
        with ⟨-, hrespond⟩ | ⟨-, b, -, -, hrespond⟩ | ⟨-, b, root', hb, -, hrespond⟩ |
          ⟨-, -, hrespond⟩ <;> rw [heq, hrespond] at hmem <;>
        simp only [List.mem_cons, reduceCtorEq, false_or, Event.acted.injEq] at hmem
      · exact h.old hlog hmem
      · exact h.old hlog hmem
      · rcases hmem with ⟨rfl, rfl, rfl⟩ | hmem
        · have hdecided := (decided_of_answers haccounted hclosed hp hserved hb).mono hlog
          refine ⟨⟨payload, p.payloadHash, t, valid, _, hlog _ hchecked, fun b' hb' => ?_⟩,
            fun code hcode => ?_⟩
          · cases b <;> cases hb' <;> exact hdecided
          · cases b with
            | true => cases hcode
            | false => exact .inl (Option.some.inj hcode).symm
        · exact h.old hlog hmem
      · rcases hmem with ⟨rfl, rfl, rfl⟩ | hmem
        · refine ⟨⟨payload, p.payloadHash, t, valid, _, hlog _ hchecked, fun b' hb' => ?_⟩,
            fun code hcode => ?_⟩
          · cases hb'
          · exact .inr (Option.some.inj hcode).symm
        · exact h.old hlog hmem

/-! ### Runs -/

theorem followsPolicy_of_reaches
    (h : (filterMachine lib stdHash).Reaches (ServedBy lib policy) .start st) :
    Accounted lib st ∧ FollowsPolicy lib policy st := by
  refine (h.invariant (I := fun st => FailsClosed lib stdHash st ∧ Accounted lib st ∧
    FollowsPolicy lib policy st) ⟨.start, accounted_start, followsPolicy_start⟩ ?_).2
  rintro st l st' ⟨hclosed, haccounted, hst⟩ hC hn
  exact ⟨hclosed.step hn, haccounted.step hn, hst.step haccounted hclosed hC hn⟩

/-- A stream is checked once. -/
theorem Accounted.checked_inj (h : Accounted lib st) {s : S} {payload payload' : Payload}
    {hash hash' now now' valid valid' : UInt64} {status status' : FilterHeadersStatus}
    (hchecked : .checked s payload hash now valid status ∈ st.log)
    (hchecked' : .checked s payload' hash' now' valid' status' ∈ st.log) : hash' = hash := by
  have hle := h.once s
  rw [List.countP_eq_length_filter] at hle
  have hmem := List.mem_filter.2 ⟨hchecked, show Event.checks (· = s) _ = true by
    simp [Event.checks]⟩
  have hmem' := List.mem_filter.2 ⟨hchecked', show Event.checks (· = s) _ = true by
    simp [Event.checks]⟩
  obtain ⟨e, hfilter⟩ | hfilter := (Nat.le_one_iff_eq_zero_or_eq_one.1 hle).symm.imp_left
    List.length_eq_one_iff.1
  · rw [hfilter, List.mem_singleton] at hmem hmem'
    have heq := hmem'.trans hmem.symm
    exact (Event.checked.inj heq).2.2.1
  · rw [List.length_eq_zero_iff.1 hfilter] at hmem
    cases hmem

/-- **The cache does not change decisions.**  If the server answers by a policy, and the policy
decides alike about the requests of the run that share the hash of a request, then this request is
let through only if the policy allows it, is denied only if the policy denies it, and any other
response that is sent for it is an error. -/
theorem decisions_follow_policy
    (h : (filterMachine lib stdHash).Reaches (ServedBy lib policy) .start st) {s : S}
    {payload : Payload} {hash now validForNanosec : UInt64} {status : FilterHeadersStatus}
    (hchecked : .checked s payload hash now validForNanosec status ∈ st.log)
    (hcollisions : ∀ b, st.Decided lib policy hash b → decision lib policy payload = some b) :
    (st.Passed s → decision lib policy payload = some true) ∧
    (st.Denied s → decision lib policy payload = some false) ∧
    ∀ cause action code, .acted cause s action ∈ st.log → action.responseCode = some code →
      code = 403 ∨ code = 500 := by
  obtain ⟨haccounted, hst⟩ := followsPolicy_of_reaches h
  have hacted {cause : S} {action : Action} {b : Bool} (hmem : .acted cause s action ∈ st.log)
      (hb : action.decision = some b) : decision lib policy payload = some b := by
    obtain ⟨payload', hash', now', valid', status', hchecked', hdecided⟩ := (hst.acted _ _ _ hmem).1
    refine hcollisions b ?_
    rw [← haccounted.checked_inj hchecked hchecked']
    exact hdecided b hb
  refine ⟨?_, ?_, fun cause action code hmem => (hst.acted _ _ _ hmem).2 code⟩
  · rintro (⟨payload', hash', now', valid', hpassed⟩ | ⟨cause, action, hmem, hb⟩)
    · refine hcollisions true ?_
      rw [← haccounted.checked_inj hchecked hpassed]
      exact hst.passed _ _ _ _ _ hpassed
    · exact hacted hmem hb
  · rintro ⟨cause, action, hmem, hb⟩
    exact hacted hmem hb

/-- The policy allows everything; the second request passes from the cache. -/
theorem decisions_follow_policy_cached : ∃ st : FilterState ℕ,
    st.Passed 1 ∧ (st.Passed 1 →
      decision sampleLibrary (fun _ => true) rootRequest.payload = some true) := by
  have h : ((filterMachine sampleLibrary fun _ => 0).run (fun _ _ => True)
      (.start : FilterState ℕ)
      [.request 0 rootRequest 100 .Ok, .respond 0 allowBody 200,
       .request 1 rootRequest 300 .Ok]).isSome := by decide
  have hallow : Answers sampleLibrary allowBody true := ⟨_, _, rfl, rfl, rfl, .inl rfl⟩
  have halong : (filterMachine sampleLibrary fun _ => 0).Along
      (ServedBy sampleLibrary fun _ => true) (.start : FilterState ℕ)
      [.request 0 rootRequest 100 .Ok, .respond 0 allowBody 200,
       .request 1 rootRequest 300 .Ok] := by
    refine ⟨trivial, fun _ _ => ⟨?_, fun _ _ => ⟨trivial, fun _ _ => trivial⟩⟩⟩
    exact fun p call r _ _ b hb => hb.inj hallow
  have hreaches := halong.reaches (Option.some_get h).symm
  refine ⟨_, .inl ⟨_, _, _, _, List.mem_cons_self⟩,
    (decisions_follow_policy hreaches List.mem_cons_self ?_).1⟩
  rintro b ⟨s, payload, now, valid, status, -, hb⟩
  exact hb

end OpenPolicyAgent

end WasmExtensions
