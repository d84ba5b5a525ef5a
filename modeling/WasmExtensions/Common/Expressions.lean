import WasmExtensions.Common.Bytes
import WasmExtensions.Machine.Basic

/-!
# Expressions of the host

The host compiles an expression and gives out a token for it, by which the expression is evaluated
and, in the end, deleted.  What the host does is kept as a list of events, latest event first.
-/

namespace WasmExtensions

/-- A call to the host about an expression. -/
inductive ExpressionEvent where
  | create (token : UInt32) (input : Bytes)
  | delete (token : UInt32)
  | evaluate (token : UInt32)
  deriving DecidableEq, Repr

/-- The token was given out. -/
def Created (token : UInt32) (events : List ExpressionEvent) : Prop :=
  ∃ input, ExpressionEvent.create token input ∈ events

/-- The token was given out and has not been deleted. -/
def Live (token : UInt32) (events : List ExpressionEvent) : Prop :=
  Created token events ∧ ExpressionEvent.delete token ∉ events

/-- A token is live when it is evaluated. -/
def ExpressionEvent.Proper : ExpressionEvent → List ExpressionEvent → Prop
  | .evaluate token, past => Live token past
  | _, _ => True

/-- The token of an event that gives one out. -/
def ExpressionEvent.created : ExpressionEvent → Option UInt32
  | .create token _ => some token
  | _ => none

structure ExpressionHost where
  /-- What the next calls of `createExpression` are answered. -/
  answers : List (Option UInt32)
  events : List ExpressionEvent
  deriving DecidableEq, Repr

namespace ExpressionHost

/-- The next answer.  No token is given out twice: an answer that is not a new token counts as a
failure. -/
def createExpression (input : Bytes) (host : ExpressionHost) : Option UInt32 × ExpressionHost :=
  match host.answers with
  | [] => (none, host)
  | none :: answers => (none, { host with answers := answers })
  | some token :: answers =>
    if token ∈ host.events.filterMap ExpressionEvent.created then
      (none, { host with answers := answers })
    else (some token, ⟨answers, .create token input :: host.events⟩)

/-- Creates expressions one after the other, until one is rejected: whether all were accepted, and
the tokens that were given out. -/
def createAll : List Bytes → ExpressionHost → Bool × List UInt32 × ExpressionHost
  | [], host => (true, [], host)
  | input :: inputs, host =>
    match host.createExpression input with
    | (none, host) => (false, [], host)
    | (some token, host) =>
      let (accepted, tokens, host) := createAll inputs host
      (accepted, token :: tokens, host)

def exprDelete (token : UInt32) (host : ExpressionHost) : ExpressionHost :=
  { host with events := .delete token :: host.events }

/-- Deletes tokens one after the other. -/
def deleteAll (tokens : List UInt32) (host : ExpressionHost) : ExpressionHost :=
  tokens.foldl (fun host token => host.exprDelete token) host

/-- The evaluation of expressions, one after the other. -/
def evaluateAll (tokens : List UInt32) (host : ExpressionHost) : ExpressionHost :=
  { host with events := (tokens.map ExpressionEvent.evaluate).reverse ++ host.events }

variable {host host' : ExpressionHost} {input : Bytes} {token : UInt32}

theorem mem_filterMap_created {events : List ExpressionEvent} :
    token ∈ events.filterMap ExpressionEvent.created ↔ Created token events := by
  rw [List.mem_filterMap]
  constructor
  · rintro ⟨event, hmem, htoken⟩
    cases event with
    | create token' input =>
      cases htoken
      exact ⟨input, hmem⟩
    | delete token' => cases htoken
    | evaluate token' => cases htoken
  · rintro ⟨input, hmem⟩
    exact ⟨_, hmem, rfl⟩

theorem createAll_cons_none {inputs : List Bytes}
    (h : host.createExpression input = (none, host')) :
    host.createAll (input :: inputs) = (false, [], host') := by
  rw [createAll, h]

theorem createAll_cons_some {inputs : List Bytes}
    (h : host.createExpression input = (some token, host')) :
    host.createAll (input :: inputs) = ((host'.createAll inputs).1,
      token :: (host'.createAll inputs).2.1, (host'.createAll inputs).2.2) := by
  rw [createAll, h]

/-- Nothing is created after a rejection. -/
theorem createAll_append (inputs inputs' : List Bytes) (host : ExpressionHost) :
    host.createAll (inputs ++ inputs') =
      match host.createAll inputs with
      | (false, tokens, host) => (false, tokens, host)
      | (true, tokens, host) => ((host.createAll inputs').1, tokens ++ (host.createAll inputs').2.1,
          (host.createAll inputs').2.2) := by
  induction inputs generalizing host with
  | nil => simp [createAll]
  | cons input inputs ih =>
    rcases hcreate : host.createExpression input with ⟨_ | token, host'⟩
    · rw [List.cons_append, createAll_cons_none hcreate, createAll_cons_none hcreate]
    · rw [List.cons_append, createAll_cons_some hcreate, createAll_cons_some hcreate, ih host']
      rcases host'.createAll inputs with ⟨_ | _, tokens, host''⟩ <;> rfl

/-- A failure leaves no trace. -/
theorem createExpression_eq_none (h : host.createExpression input = (none, host')) :
    host'.events = host.events := by
  unfold createExpression at h
  split at h
  · rw [← (Prod.mk.inj h).2]
  · rw [← (Prod.mk.inj h).2]
  · split at h
    · rw [← (Prod.mk.inj h).2]
    · cases (Prod.mk.inj h).1

/-- A token that is given out is a new one. -/
theorem createExpression_eq_some (h : host.createExpression input = (some token, host')) :
    ¬ Created token host.events ∧ host'.events = .create token input :: host.events := by
  unfold createExpression at h
  split at h
  · cases (Prod.mk.inj h).1
  · cases (Prod.mk.inj h).1
  · split at h
    · cases (Prod.mk.inj h).1
    · rename_i hnew
      obtain ⟨htoken, hhost⟩ := Prod.mk.inj h
      rw [← hhost, ← Option.some.inj htoken]
      exact ⟨fun hcreated => hnew (mem_filterMap_created.2 hcreated), rfl⟩

end ExpressionHost

/-! ### Tokens and their owner -/

section

variable {tokens tokens' : List UInt32} {events : List ExpressionEvent} {event : ExpressionEvent}
  {token : UInt32} {input : Bytes} {host : ExpressionHost}

theorem Created.cons (h : Created token events) : Created token (event :: events) := by
  obtain ⟨input, hmem⟩ := h
  exact ⟨input, List.mem_cons_of_mem _ hmem⟩

theorem Live.cons (h : Live token events) (hevent : event ≠ .delete token) :
    Live token (event :: events) := by
  refine ⟨h.1.cons, fun hmem => ?_⟩
  rcases List.mem_cons.1 hmem with heq | hmem
  · exact hevent heq.symm
  · exact h.2 hmem

/-- The tokens can be used, and all tokens so far have been used while they were live. -/
structure Owned (tokens : List UInt32) (events : List ExpressionEvent) : Prop where
  live : ∀ token ∈ tokens, Live token events
  deleted : ∀ token, ExpressionEvent.delete token ∈ events → Created token events
  history : History ExpressionEvent.Proper events

namespace Owned

theorem nil : Owned [] [] :=
  ⟨(fun _ h => nomatch h), (fun _ h => nomatch h), trivial⟩

theorem mono (h : Owned tokens events) (hsub : ∀ token ∈ tokens', token ∈ tokens) :
    Owned tokens' events :=
  ⟨fun token htoken => h.live token (hsub token htoken), h.deleted, h.history⟩

/-- Tokens remain in use if the event does not delete one. -/
theorem cons (h : Owned tokens events) (hevent : ∀ token, event ≠ .delete token)
    (hproper : event.Proper events) : Owned tokens (event :: events) := by
  refine ⟨fun token htoken => (h.live token htoken).cons (hevent token), fun token hmem => ?_,
    hproper, h.history⟩
  rcases List.mem_cons.1 hmem with heq | hmem
  · exact absurd heq.symm (hevent token)
  · exact (h.deleted token hmem).cons

/-- A new token can be used: it has not been deleted, because it has not been there. -/
theorem create (h : Owned tokens events) (hnew : ¬ Created token events) :
    Owned (token :: tokens) (.create token input :: events) := by
  have hcons : Owned tokens (.create token input :: events) :=
    h.cons (fun _ heq => nomatch heq) trivial
  refine ⟨fun token' htoken' => ?_, hcons.deleted, hcons.history⟩
  rcases List.mem_cons.1 htoken' with rfl | htoken'
  · refine ⟨⟨input, List.mem_cons_self⟩, fun hmem => ?_⟩
    rcases List.mem_cons.1 hmem with heq | hmem
    · cases heq
    · exact hnew (h.deleted token' hmem)
  · exact hcons.live token' htoken'

theorem evaluateAll (h : Owned tokens host.events) (htokens : ∀ token ∈ tokens', token ∈ tokens) :
    Owned tokens (host.evaluateAll tokens').events := by
  show Owned tokens ((tokens'.map ExpressionEvent.evaluate).reverse ++ host.events)
  induction tokens' generalizing host with
  | nil => exact h
  | cons token tokens' ih =>
    rw [List.map_cons, List.reverse_cons, List.append_assoc]
    have htoken : Live token host.events := h.live token (htokens token List.mem_cons_self)
    exact @ih ⟨host.answers, .evaluate token :: host.events⟩
      (h.cons (fun _ heq => nomatch heq) htoken)
      fun token' htoken' => htokens token' (List.mem_cons_of_mem _ htoken')

/-- Tokens that are given back cannot be used any more. -/
theorem deleteAll (h : Owned tokens host.events) (tokens' : List UInt32)
    (htokens : ∀ token ∈ tokens', Created token host.events) :
    Owned [] (host.deleteAll tokens').events ∧
      ∀ token, Created token host.events → Created token (host.deleteAll tokens').events := by
  induction tokens' generalizing host tokens with
  | nil => exact ⟨h.mono (fun _ hmem => nomatch hmem), fun _ hcreated => hcreated⟩
  | cons token tokens' ih =>
    have hfirst : Owned [] (host.exprDelete token).events := by
      refine ⟨(fun _ hmem => nomatch hmem), fun token' hmem => ?_, trivial, h.history⟩
      rcases List.mem_cons.1 hmem with heq | hmem
      · rw [ExpressionEvent.delete.inj heq]
        exact (htokens token List.mem_cons_self).cons
      · exact (h.deleted token' hmem).cons
    obtain ⟨howned, hcreated⟩ := ih hfirst fun token' htoken' =>
      (htokens token' (List.mem_cons_of_mem _ htoken')).cons
    exact ⟨howned, fun token' htoken' => hcreated token' htoken'.cons⟩

end Owned

/-! ### Tokens that are exactly the live ones -/

/-- A token is given out once, and it is live when it is evaluated or deleted. -/
def ExpressionEvent.Safe : ExpressionEvent → List ExpressionEvent → Prop
  | .create token _, past => ¬ Created token past
  | .delete token, past => Live token past
  | .evaluate token, past => Live token past

/-- The tokens are those that can be used, each of them once, and no token has been used when it
was not live. -/
structure Held (tokens : List UInt32) (events : List ExpressionEvent) : Prop where
  nodup : tokens.Nodup
  live : ∀ token, token ∈ tokens ↔ Live token events
  history : History ExpressionEvent.Safe events

theorem created_of_delete (h : History ExpressionEvent.Safe events)
    (hmem : ExpressionEvent.delete token ∈ events) : Created token events := by
  induction events with
  | nil => cases hmem
  | cons event events ih =>
    obtain ⟨hsafe, hpast⟩ := h
    rcases List.mem_cons.1 hmem with rfl | hmem
    · exact hsafe.1.cons
    · exact (ih hpast hmem).cons

namespace Held

theorem nil : Held [] [] :=
  ⟨List.nodup_nil, fun _ => iff_of_false List.not_mem_nil fun ⟨⟨_, h⟩, _⟩ => (nomatch h), trivial⟩

theorem create (h : Held tokens events) (hnew : ¬ Created token events) :
    Held (tokens ++ [token]) (.create token input :: events) := by
  have hnotMem : token ∉ tokens := fun hmem => hnew ((h.live token).1 hmem).1
  refine ⟨?_, fun token' => ?_, hnew, h.history⟩
  · refine List.nodup_append.2 ⟨h.nodup, by simp, fun a ha b hb heq => ?_⟩
    rw [heq, List.mem_singleton.1 hb] at ha
    exact hnotMem ha
  · rw [List.mem_append, List.mem_singleton, h.live token']
    constructor
    · rintro (hlive | rfl)
      · exact hlive.cons fun heq => nomatch heq
      · refine ⟨⟨input, List.mem_cons_self⟩, fun hmem => ?_⟩
        rcases List.mem_cons.1 hmem with heq | hmem
        · cases heq
        · exact hnew (created_of_delete h.history hmem)
    · rintro ⟨⟨input', hmem⟩, hdeleted⟩
      rcases List.mem_cons.1 hmem with heq | hmem
      · exact .inr (ExpressionEvent.create.inj heq).1
      · exact .inl ⟨⟨input', hmem⟩, fun hmem => hdeleted (List.mem_cons_of_mem _ hmem)⟩

theorem evaluate (h : Held tokens events) (htoken : token ∈ tokens) :
    Held tokens (.evaluate token :: events) := by
  refine ⟨h.nodup, fun token' => ?_, (h.live token).1 htoken, h.history⟩
  rw [h.live token']
  constructor
  · exact fun hlive => hlive.cons fun heq => nomatch heq
  · rintro ⟨⟨input, hmem⟩, hdeleted⟩
    rcases List.mem_cons.1 hmem with heq | hmem
    · cases heq
    · exact ⟨⟨input, hmem⟩, fun hmem => hdeleted (List.mem_cons_of_mem _ hmem)⟩

theorem exprDelete (h : Held (token :: tokens) host.events) :
    Held tokens (host.exprDelete token).events := by
  obtain ⟨hnotMem, hnodup⟩ := List.nodup_cons.1 h.nodup
  refine ⟨hnodup, fun token' => ?_, (h.live token).1 List.mem_cons_self, h.history⟩
  constructor
  · intro hmem
    refine ((h.live token').1 (List.mem_cons_of_mem _ hmem)).cons fun heq => hnotMem ?_
    rw [ExpressionEvent.delete.inj heq]
    exact hmem
  · rintro ⟨⟨input, hmem⟩, hdeleted⟩
    have hcreated : Created token' host.events := by
      rcases List.mem_cons.1 hmem with heq | hmem
      · cases heq
      · exact ⟨input, hmem⟩
    have hlive := (h.live token').2
      ⟨hcreated, fun hmem => hdeleted (List.mem_cons_of_mem _ hmem)⟩
    rcases List.mem_cons.1 hlive with rfl | hmem
    · exact absurd List.mem_cons_self hdeleted
    · exact hmem

/-- The tokens that are given out, also by a sequence of calls that ends with a rejection. -/
theorem createAll (h : Held tokens host.events) (inputs : List Bytes) :
    Held (tokens ++ (host.createAll inputs).2.1) (host.createAll inputs).2.2.events := by
  induction inputs generalizing tokens host with
  | nil =>
    rw [ExpressionHost.createAll, List.append_nil]
    exact h
  | cons input inputs ih =>
    rcases hcreate : host.createExpression input with ⟨_ | token, host'⟩
    · rw [ExpressionHost.createAll_cons_none hcreate, List.append_nil,
        ExpressionHost.createExpression_eq_none hcreate]
      exact h
    · obtain ⟨hnew, hevents⟩ := ExpressionHost.createExpression_eq_some hcreate
      rw [ExpressionHost.createAll_cons_some hcreate]
      have hcreated : Held (tokens ++ [token]) (.create token input :: host.events) :=
        h.create hnew
      rw [← hevents] at hcreated
      simpa using ih hcreated

/-- When all tokens are given back none is left. -/
theorem deleteAll (h : Held tokens host.events) : Held [] (host.deleteAll tokens).events := by
  induction tokens generalizing host with
  | nil => exact h
  | cons token tokens ih => exact ih h.exprDelete

end Held

end

end WasmExtensions
