import WasmExtensions.GrpcLogging.Buffers
import Mathlib.Tactic.ByContra

/-!
# The exports of the gRPC logging plugin

* `exported_to_service` : every export that ever went out was made by a timer or by `onDone`, was
  answered with `Ok` there, carries a request that was waiting then, of at most 500 entries, and
  goes to the service of the last configuration that was accepted before.
* `onTick_sends` : a timer exports the waiting requests in order until the host refuses one, and
  leaves that one and the ones behind it for the next timer.
* `exported_within_ticks` : an entry is exported after at most as many timers as there are requests
  waiting now, if the host takes at least one request at each of them.
-/

namespace WasmExtensions

namespace GrpcLogging

variable {protobuf : Protobuf} {s s' : System} {plugin : PluginRootContext} {step : Step}
  {grpcSimpleCall : ℕ → WasmResult} {n : ℕ}

/-! ### What the export loop sends -/

/-- The requests that the next export loop finds. -/
def PluginRootContext.waiting (plugin : PluginRootContext) : List WriteLogRequest :=
  if 0 < plugin.logEntryCount then plugin.reqBuffer ++ [plugin.curLogReq] else plugin.reqBuffer

theorem flushLogBuffer_reqBuffer (plugin : PluginRootContext) :
    (flushLogBuffer plugin).reqBuffer = plugin.waiting := by
  unfold flushLogBuffer PluginRootContext.waiting
  by_cases hcount : plugin.logEntryCount ≤ 0
  · rw [if_pos hcount, if_neg (Int.not_lt.2 hcount)]
  · rw [if_neg hcount, if_pos (Int.not_le.1 hcount)]

theorem flushLogBuffer_service (plugin : PluginRootContext) :
    (flushLogBuffer plugin).grpcService = plugin.grpcService ∧
      (flushLogBuffer plugin).callbacks = plugin.callbacks := by
  unfold flushLogBuffer
  split <;> exact ⟨rfl, rfl⟩

/-- What is exported of the requests `waiting` between two states: the first `n`, as many as the
host takes before it refuses one. -/
structure Sends (grpcSimpleCall : ℕ → WasmResult) (waiting : List WriteLogRequest) (n : ℕ)
    (s s' : System) : Prop where
  le : n ≤ waiting.length
  ok : ∀ k < n, grpcSimpleCall k = .Ok
  refused : n < waiting.length → grpcSimpleCall n ≠ .Ok
  calls : s'.host.calls = s.host.calls ++ (waiting.take n).map (exportCall s.plugin)
  left : s'.plugin.reqBuffer = waiting.drop n

theorem sendLoop_sends (grpcSimpleCall : ℕ → WasmResult) (s : System) (m : ℕ)
    {buffer : List WriteLogRequest} (hbuffer : s.plugin.reqBuffer = buffer) :
    ∃ n, Sends (fun k => grpcSimpleCall (m + k)) buffer n s
      (sendLoop grpcSimpleCall m buffer s) := by
  induction buffer generalizing m s with
  | nil => exact ⟨0, Nat.le_refl 0, by simp, by simp, by simp [sendLoop], by simpa [sendLoop]⟩
  | cons req rest ih =>
    unfold sendLoop
    split_ifs with hresult
    · exact ⟨0, Nat.zero_le _, by simp, fun _ => hresult, by simp, by simpa⟩
    · -- The other rounds are those of the rest, one answer later.
      obtain ⟨n, hsends⟩ := ih
        { plugin :=
            { s.plugin with
              inFlightExportCall := s.plugin.inFlightExportCall + 1
              reqBuffer := rest }
          host := { s.host with calls := s.host.calls ++ [exportCall s.plugin req] } } (m + 1) rfl
      refine ⟨n + 1, Nat.succ_le_succ hsends.le, ?_, fun hn => ?_, ?_, hsends.left⟩
      · rintro (_ | k) hk
        · exact not_not.1 hresult
        · have hok := hsends.ok k (Nat.lt_of_succ_lt_succ hk)
          rwa [Nat.add_right_comm] at hok
      · have hrefused := hsends.refused (Nat.lt_of_succ_lt_succ hn)
        rwa [Nat.add_right_comm] at hrefused
      · rw [hsends.calls, List.append_assoc]
        rfl

theorem sendLoop_frame (grpcSimpleCall : ℕ → WasmResult) (m : ℕ) (buffer : List WriteLogRequest)
    (s : System) :
    (sendLoop grpcSimpleCall m buffer s).plugin.grpcService = s.plugin.grpcService ∧
      (sendLoop grpcSimpleCall m buffer s).plugin.callbacks = s.plugin.callbacks ∧
      (sendLoop grpcSimpleCall m buffer s).plugin.curLogReq = s.plugin.curLogReq ∧
      (sendLoop grpcSimpleCall m buffer s).host.added = s.host.added := by
  induction buffer generalizing m s with
  | nil => exact ⟨rfl, rfl, rfl, rfl⟩
  | cons req rest ih =>
    unfold sendLoop
    split_ifs with hresult
    · exact ⟨rfl, rfl, rfl, rfl⟩
    · exact ih ..

/-- Packing a request does not change where it goes. -/
theorem exportCall_flushLogBuffer (plugin : PluginRootContext) :
    exportCall (flushLogBuffer plugin) = exportCall plugin := by
  funext req
  obtain ⟨hservice, hcallbacks⟩ := flushLogBuffer_service plugin
  unfold exportCall
  rw [hservice, hcallbacks]

theorem sendLogRequest_sends (grpcSimpleCall : ℕ → WasmResult) (ondone : Bool) (s : System) :
    ∃ n, Sends grpcSimpleCall s.plugin.waiting n s
      (sendLogRequest grpcSimpleCall ondone { s with plugin := flushLogBuffer s.plugin }) := by
  obtain ⟨n, hsends⟩ := sendLoop_sends grpcSimpleCall
    ⟨{ flushLogBuffer s.plugin with isOnDone := ondone }, s.host⟩ 0
    (flushLogBuffer_reqBuffer s.plugin)
  simp only [Nat.zero_add] at hsends
  refine ⟨n, hsends.le, hsends.ok, hsends.refused, ?_, ?_⟩
  · unfold sendLogRequest
    have hcall : exportCall { flushLogBuffer s.plugin with isOnDone := ondone } =
        exportCall s.plugin := exportCall_flushLogBuffer s.plugin
    rw [← hcall, ← hsends.calls, ← flushLogBuffer_reqBuffer]
  · rw [← hsends.left]
    unfold sendLogRequest
    rw [← flushLogBuffer_reqBuffer]

theorem onTick_sends (grpcSimpleCall : ℕ → WasmResult) (s : System) :
    ∃ n, Sends grpcSimpleCall s.plugin.waiting n s (onTick grpcSimpleCall s) := by
  simp only [onTick]
  split_ifs with hempty
  · rw [List.isEmpty_iff, flushLogBuffer_reqBuffer] at hempty
    refine ⟨0, Nat.zero_le _, by simp, by simp [hempty], by simp, ?_⟩
    show (flushLogBuffer s.plugin).reqBuffer = _
    rw [flushLogBuffer_reqBuffer, List.drop_zero]
  · exact sendLogRequest_sends grpcSimpleCall false s

theorem onDone_sends (grpcSimpleCall : ℕ → WasmResult) (s : System) :
    onDone grpcSimpleCall s = (true, s) ∨
      ∃ n, Sends grpcSimpleCall s.plugin.waiting n s (onDone grpcSimpleCall s).2 := by
  unfold onDone
  split_ifs with hidle
  · exact .inl rfl
  · exact .inr (sendLogRequest_sends grpcSimpleCall true s)

/-! ### Where the exports go -/

/-- What the host answers to the exports of a step that can export. -/
def Step.answers : Step → Option (ℕ → WasmResult)
  | .tick grpcSimpleCall | .done grpcSimpleCall => some grpcSimpleCall
  | _ => none

/-- The service of a configuration that is accepted. -/
def Step.address : Step → Option Bytes
  | .configure (some config) =>
    if config.loggingService.isEmpty then none else some config.loggingService
  | _ => none

/-- The service of the last configuration that was accepted. -/
def lastAddress (steps : List Step) : Option Bytes := (steps.filterMap Step.address).getLast?

theorem lastAddress_concat (steps : List Step) (step : Step) :
    lastAddress (steps ++ [step]) = step.address.or (lastAddress steps) := by
  unfold lastAddress
  cases haddress : step.address with
  | none => simp [haddress]
  | some address => simp [haddress]

/-- The plugin exports to the last service that was accepted. -/
structure Serves (protobuf : Protobuf) (address : Option Bytes) (plugin : PluginRootContext) :
    Prop where
  grpcService : plugin.grpcService = address.elim [] protobuf.serializeGrpcService
  callbacks : plugin.callbacks = address.isSome

/-- The call before one of its callbacks has run. -/
def SimpleCall.made (call : SimpleCall) : SimpleCall := { call with callbackRun := false }

/-- The export `i` is one of those that a step makes in the state `s`: its call `k` was answered
with `Ok`, and carries the waiting request `k`. -/
def Made (grpcSimpleCall : ℕ → WasmResult) (s : System) (i : ℕ) (call : SimpleCall) : Prop :=
  ∃ k req, grpcSimpleCall k = .Ok ∧ i = s.host.calls.length + k ∧
    s.plugin.waiting[k]? = some req ∧ call.made = exportCall s.plugin req

/-- The export `i` was made by `step`, in the state `t` after the steps `before`, and goes to the
last service that was accepted there. -/
structure MadeBy (protobuf : Protobuf) (before : List Step) (t : System) (step : Step) (i : ℕ)
    (call : SimpleCall) : Prop where
  state : (logging protobuf).run (fun _ _ => True) .start before = some t
  made : ∃ grpcSimpleCall, step.answers = some grpcSimpleCall ∧ Made grpcSimpleCall t i call
  service : call.grpcService = (lastAddress before).elim [] protobuf.serializeGrpcService
  callbacks : call.callbacks = (lastAddress before).isSome

theorem Serves.flushLogBuffer {address : Option Bytes} (h : Serves protobuf address plugin) :
    Serves protobuf address (flushLogBuffer plugin) := by
  obtain ⟨hservice, hcallbacks⟩ := flushLogBuffer_service plugin
  exact ⟨hservice.trans h.grpcService, hcallbacks.trans h.callbacks⟩

theorem Serves.sendLogRequest {address : Option Bytes} {ondone : Bool}
    (h : Serves protobuf address s.plugin) :
    Serves protobuf address (sendLogRequest grpcSimpleCall ondone s).plugin := by
  obtain ⟨hservice, hcallbacks, -, -⟩ :
      (GrpcLogging.sendLogRequest grpcSimpleCall ondone s).plugin.grpcService = _ ∧ _ :=
    sendLoop_frame ..
  exact ⟨hservice.trans h.grpcService, hcallbacks.trans h.callbacks⟩

theorem Serves.onTick {address : Option Bytes} (h : Serves protobuf address s.plugin) :
    Serves protobuf address (onTick grpcSimpleCall s).plugin := by
  simp only [GrpcLogging.onTick]
  split_ifs with hempty
  · exact h.flushLogBuffer
  · exact Serves.sendLogRequest h.flushLogBuffer

theorem Serves.onDone {address : Option Bytes} (h : Serves protobuf address s.plugin) :
    Serves protobuf address (onDone grpcSimpleCall s).2.plugin := by
  simp only [GrpcLogging.onDone]
  split_ifs with hidle
  · exact h
  · exact Serves.sendLogRequest h.flushLogBuffer

theorem Serves.next {address : Option Bytes} (h : Serves protobuf address s.plugin)
    (hnext : (logging protobuf).next s step = some s') :
    Serves protobuf (step.address.or address) s'.plugin := by
  cases step with
  | configure config =>
    cases hnext
    unfold onConfigure
    cases config with
    | none => exact h
    | some config =>
      simp only [Step.address]
      split_ifs with hempty
      · exact h
      · exact ⟨rfl, rfl⟩
  | log getValue locals =>
    cases hnext
    have hpushed : Serves protobuf address
        { s.plugin with
          curLogReq := ⟨s.plugin.curLogReq.logEntries ++ [newEntry protobuf getValue locals]⟩
          logEntryCount := s.plugin.logEntryCount + 1 } := ⟨h.grpcService, h.callbacks⟩
    simp only [addLogEntry, Step.address, Option.none_or]
    split_ifs with hfull
    · exact hpushed.flushLogBuffer
    · exact hpushed
  | tick grpcSimpleCall => cases hnext; exact h.onTick
  | done grpcSimpleCall => cases hnext; exact h.onDone
  | reply i reply =>
    simp only [logging] at hnext
    split at hnext
    · cases hnext
    · split_ifs at hnext
      cases hnext
      rw [callback_eq, exportFinished_plugin]
      exact ⟨h.grpcService, h.callbacks⟩

/-- What the export loop made stands behind the calls that were there. -/
theorem Sends.calls_getElem? {i : ℕ} {call : SimpleCall}
    (h : Sends grpcSimpleCall s.plugin.waiting n s s') (hcall : s'.host.calls[i]? = some call) :
    s.host.calls[i]? = some call ∨ Made grpcSimpleCall s i call := by
  rw [h.calls] at hcall
  rcases Nat.lt_or_ge i s.host.calls.length with hi | hi
  · rw [List.getElem?_append_left hi] at hcall
    exact .inl hcall
  · obtain ⟨k, rfl⟩ := Nat.exists_eq_add_of_le hi
    rw [List.getElem?_append_right hi, Nat.add_sub_cancel_left, List.getElem?_map,
      Option.map_eq_some_iff] at hcall
    obtain ⟨req, hreq, rfl⟩ := hcall
    rw [List.getElem?_take] at hreq
    split_ifs at hreq with hk
    exact .inr ⟨k, req, h.ok k hk, rfl, hreq, rfl⟩

/-- An export that is there after a step was there before, or the step made it. -/
theorem calls_next {i : ℕ} {call : SimpleCall}
    (hnext : (logging protobuf).next s step = some s') (hcall : s'.host.calls[i]? = some call) :
    (∃ call', s.host.calls[i]? = some call' ∧ call.made = call'.made) ∨
      ∃ grpcSimpleCall, step.answers = some grpcSimpleCall ∧ Made grpcSimpleCall s i call := by
  have hkept (h : s.host.calls[i]? = some call) :
      ∃ call', s.host.calls[i]? = some call' ∧ call.made = call'.made :=
    ⟨call, h, rfl⟩
  cases step with
  | configure config =>
    cases hnext
    refine .inl (hkept ?_)
    unfold onConfigure at hcall
    split at hcall
    · exact hcall
    · split at hcall <;> exact hcall
  | log getValue locals => cases hnext; exact .inl (hkept hcall)
  | tick grpcSimpleCall =>
    cases hnext
    obtain ⟨n, hsends⟩ := onTick_sends grpcSimpleCall s
    exact (hsends.calls_getElem? hcall).imp hkept fun hmade => ⟨_, rfl, hmade⟩
  | done grpcSimpleCall =>
    cases hnext
    have hcall : (onDone grpcSimpleCall s).2.host.calls[i]? = some call := hcall
    rcases onDone_sends grpcSimpleCall s with hidle | ⟨n, hsends⟩
    · rw [hidle] at hcall
      exact .inl (hkept hcall)
    · exact (hsends.calls_getElem? hcall).imp hkept fun hmade => ⟨_, rfl, hmade⟩
  | reply j reply =>
    simp only [logging] at hnext
    split at hnext
    · cases hnext
    · rename_i call' hcall'
      split_ifs at hnext
      cases hnext
      rw [callback_eq, exportFinished_host] at hcall
      replace hcall : (s.host.calls.set j { call' with callbackRun := true })[i]? = some call :=
        hcall
      rw [List.getElem?_set] at hcall
      split_ifs at hcall with hij hlt
      · subst hij
        exact .inl ⟨call', hcall', by rw [← Option.some.inj hcall]; rfl⟩
      · exact .inl (hkept hcall)

/-- What the steps so far say about the plugin and about its exports. -/
structure Traced (protobuf : Protobuf) (steps : List Step) (s : System) : Prop where
  run : (logging protobuf).run (fun _ _ => True) .start steps = some s
  serves : Serves protobuf (lastAddress steps) s.plugin
  made : ∀ i call, s.host.calls[i]? = some call → ∃ before step after t,
    steps = before ++ step :: after ∧ MadeBy protobuf before t step i call

theorem Traced.start : Traced protobuf [] .start := ⟨rfl, ⟨rfl, rfl⟩, fun _ _ h => nomatch h⟩

theorem Traced.next {steps : List Step} (h : Traced protobuf steps s)
    (hnext : (logging protobuf).next s step = some s') : Traced protobuf (steps ++ [step]) s' := by
  refine ⟨(Machine.run_concat h.run trivial).trans hnext, ?_, fun i call hcall => ?_⟩
  · rw [lastAddress_concat]
    exact h.serves.next hnext
  · rcases calls_next hnext hcall with ⟨call', hcall', heq⟩ | ⟨grpcSimpleCall, hanswers, hmade⟩
    · -- The export is an old one.  Its callback may have run.
      obtain ⟨before, step', after, t, rfl, hby⟩ := h.made i call' hcall'
      obtain ⟨g, hg, k, req, hok, hi, hreq, hcall⟩ := hby.made
      refine ⟨before, step', after ++ [step], t, by simp, hby.state,
        ⟨g, hg, k, req, hok, hi, hreq, heq.trans hcall⟩, ?_, ?_⟩
      · exact (congrArg SimpleCall.grpcService heq).trans hby.service
      · exact (congrArg SimpleCall.callbacks heq).trans hby.callbacks
    · obtain ⟨k, req, -, -, -, heq⟩ := id hmade
      refine ⟨steps, step, [], s, rfl, h.run, ⟨grpcSimpleCall, hanswers, hmade⟩, ?_, ?_⟩
      · exact (congrArg SimpleCall.grpcService heq).trans h.serves.grpcService
      · exact (congrArg SimpleCall.callbacks heq).trans h.serves.callbacks

/-- **Every export was made by a timer or by `onDone`, which the host answered with `Ok`, carries a
request that was waiting there, and goes to the last service that had been accepted.** -/
theorem exported_to_service {steps : List Step} {i : ℕ} {call : SimpleCall}
    (hrun : (logging protobuf).run (fun _ _ => True) .start steps = some s)
    (hcall : s.host.calls[i]? = some call) :
    (∃ before step after t, steps = before ++ step :: after ∧
      MadeBy protobuf before t step i call) ∧
    1 ≤ call.request.logEntries.length ∧ call.request.logEntries.length ≤ 500 := by
  have htraced : Traced protobuf steps s :=
    Machine.run_invariant .start (fun _ _ _ _ h hnext => h.next hnext) hrun
  obtain ⟨hwf, -⟩ := reachable_spec (Machine.Reaches.of_run hrun)
  exact ⟨htraced.made i call hcall,
    hwf.delivered _ (List.mem_map_of_mem (List.mem_of_getElem? hcall))⟩

/-- The second configuration is accepted between the two exports, the third is not. -/
def movingSteps : List Step :=
  [.configure (some ⟨bytes "log:80"⟩), .log (sampleRequest 200) ⟨0, 0, 0⟩, .tick fun _ => .Ok,
    .configure (some ⟨bytes "log:81"⟩), .log (sampleRequest 404) ⟨0, 0, 0⟩, .configure none,
    .tick fun _ => .Ok]

theorem exported_to_service_moved : ∃ s call,
    (logging sampleProtobuf).run (fun _ _ => True) .start movingSteps = some s ∧
    s.host.calls[1]? = some call ∧ call.grpcService = sampleProtobuf.serializeGrpcService
      (bytes "log:81") ∧
    ∃ before step after t, movingSteps = before ++ step :: after ∧
      MadeBy sampleProtobuf before t step 1 call := by
  have h : ((logging sampleProtobuf).run (fun _ _ => True) .start movingSteps).isSome := by decide
  have hrun := (Option.some_get h).symm
  exact ⟨_, _, hrun, rfl, rfl, (exported_to_service hrun rfl).1⟩

/-! ### Exports that are refused -/

/-- The current request is the last one that waits, unless it is empty. -/
theorem waiting_eq (h : Counted s) :
    s.plugin.waiting.map WriteLogRequest.logEntries = s.outbox.batches ++ [s.outbox.current] ∨
      s.outbox.current = [] ∧
        s.plugin.waiting.map WriteLogRequest.logEntries = s.outbox.batches := by
  have hentries := h.entries
  unfold PluginRootContext.waiting
  split_ifs with hcount
  · exact .inl (by simp [System.outbox])
  · have hzero : s.plugin.curLogReq.logEntries.length = 0 := by omega
    exact .inr ⟨List.length_eq_zero_iff.1 hzero, rfl⟩

/-- Every entry that was added is in a request that waits, if it has not been exported. -/
theorem within_waiting (hwf : s.outbox.WellFormed 500) (hcounted : Counted s) :
    Outbox.Within s.host.added.length s.plugin.waiting.length s.outbox := by
  rcases waiting_eq hcounted with h | ⟨hnil, h⟩
  · have hlength := congrArg List.length h
    rw [List.length_map, List.length_append, List.length_singleton] at hlength
    rw [hlength]
    exact hwf.within
  · have hlength := congrArg List.length h
    rw [List.length_map] at hlength
    rw [hlength]
    exact hwf.within_of_current_nil hnil

theorem onTick_frame (grpcSimpleCall : ℕ → WasmResult) (h : Counted s) :
    (onTick grpcSimpleCall s).plugin.curLogReq.logEntries = [] ∧
      (onTick grpcSimpleCall s).host.added = s.host.added := by
  obtain ⟨-, hnil⟩ := flushLogBuffer_current h.entries
  simp only [onTick]
  split_ifs with hempty
  · exact ⟨hnil, rfl⟩
  · obtain ⟨-, -, hcurrent, hadded⟩ := sendLoop_frame grpcSimpleCall 0
      (flushLogBuffer s.plugin).reqBuffer
      ⟨{ flushLogBuffer s.plugin with isOnDone := false }, s.host⟩
    exact ⟨(congrArg WriteLogRequest.logEntries hcurrent).trans hnil, hadded⟩

/-- The outbox of the plugin after a flush. -/
def System.flushed (s : System) : Outbox LogEntry :=
  { s.outbox with
    batches := s.plugin.waiting.map WriteLogRequest.logEntries
    current := [] }

theorem flushed_steps (h : Counted s) :
    (Outbox.machine LogEntry).Reaches (Outbox.Allowed 500) s.outbox s.flushed := by
  have hflushed : s.flushed = System.outbox { s with plugin := flushLogBuffer s.plugin } := by
    obtain ⟨-, hnil⟩ := flushLogBuffer_current h.entries
    unfold System.flushed System.outbox
    rw [hnil, flushLogBuffer_reqBuffer]
  rw [hflushed]
  exact flushLogBuffer_steps h.entries

theorem onTick_outbox {k : ℕ} (h : Counted s)
    (hsends : Sends grpcSimpleCall s.plugin.waiting k s (onTick grpcSimpleCall s)) :
    (onTick grpcSimpleCall s).outbox =
      { s.flushed with
        delivered := s.flushed.delivered ++ s.flushed.batches.take k
        batches := s.flushed.batches.drop k } := by
  obtain ⟨hcurrent, hadded⟩ := onTick_frame grpcSimpleCall h
  unfold System.outbox System.flushed
  rw [hcurrent, hadded, hsends.calls, hsends.left]
  simp [System.outbox, exportCall, Function.comp_def]

/-- A timer brings every entry closer to its export, if the host takes a request. -/
theorem onTick_within {m n : ℕ} (h : Counted s) (hok : grpcSimpleCall 0 = .Ok)
    (hwithin : Outbox.Within m (n + 1) s.outbox) :
    Outbox.Within m n (onTick grpcSimpleCall s).outbox := by
  obtain ⟨k, hsends⟩ := onTick_sends grpcSimpleCall s
  have hflushed := hwithin.reaches (flushed_steps h)
  rw [onTick_outbox h hsends]
  rcases Nat.eq_zero_or_pos k with rfl | hk
  · -- The host takes the first request, so there is none.
    have hnil : s.plugin.waiting = [] := by
      by_contra hne
      exact hsends.refused (List.length_pos_iff.2 hne) hok
    refine Nat.le_trans hflushed ?_
    simp [System.flushed, hnil]
  · exact hflushed.deliver_take hk (by simpa [System.flushed] using hsends.le)

/-- A timer at which the host takes a request. -/
def Step.takesOne : Step → Bool
  | .tick grpcSimpleCall => grpcSimpleCall 0 = .Ok
  | _ => false

theorem within_next_of_takesOne {m n : ℕ} (h : Counted s)
    (hwithin : Outbox.Within m (n + 1) s.outbox) (htakes : step.takesOne)
    (hnext : (logging protobuf).next s step = some s') : Outbox.Within m n s'.outbox := by
  cases step with
  | tick grpcSimpleCall =>
    cases hnext
    exact onTick_within h (of_decide_eq_true htakes) hwithin
  | _ => cases htakes

/-- The entries `old` stand at the front of what was added, and wait for fewer and fewer timers. -/
structure Nearing (protobuf : Protobuf) (old : List LogEntry) (waiting : ℕ) (steps : List Step)
    (s : System) : Prop where
  reaches : (logging protobuf).Reaches (fun _ _ => True) .start s
  added : old <+: s.host.added
  within : Outbox.Within old.length (waiting - steps.countP Step.takesOne) s.outbox

theorem Nearing.next {old : List LogEntry} {waiting : ℕ} {steps : List Step}
    (h : Nearing protobuf old waiting steps s)
    (hnext : (logging protobuf).next s step = some s') :
    Nearing protobuf old waiting (steps ++ [step]) s' := by
  obtain ⟨-, hcounted⟩ := reachable_spec h.reaches
  obtain ⟨o, hreaches, rfl, -⟩ := simulation s step s' _ ⟨rfl, hcounted⟩ trivial hnext
  refine ⟨h.reaches.step trivial hnext, h.added.trans (Outbox.accepted_reaches hreaches), ?_⟩
  rw [List.countP_append, List.countP_singleton]
  split_ifs with htakes
  · rcases Nat.eq_zero_or_pos (waiting - steps.countP Step.takesOne) with hzero | hpos
    · refine (h.within.reaches hreaches).mono ?_
      omega
    · refine within_next_of_takesOne hcounted (h.within.mono ?_) htakes hnext
      omega
  · exact h.within.reaches hreaches

/-- **Retries make progress**: whatever else happens, the entries that were added are exported after
as many timers at which the host takes a request as there are requests that wait. -/
theorem exported_within_ticks {steps : List Step}
    (h : (logging protobuf).Reaches (fun _ _ => True) .start s)
    (hrun : (logging protobuf).run (fun _ _ => True) s steps = some s')
    (hticks : s.plugin.waiting.length ≤ steps.countP Step.takesOne) :
    s.host.added <+: s'.host.calls.flatMap fun call => call.request.logEntries := by
  obtain ⟨hwf, hcounted⟩ := reachable_spec h
  have hstart : Nearing protobuf s.host.added s.plugin.waiting.length [] s :=
    ⟨h, List.prefix_rfl, within_waiting hwf hcounted⟩
  have hend : Nearing protobuf s.host.added s.plugin.waiting.length steps s' :=
    Machine.run_invariant hstart (fun _ _ _ _ h hnext => h.next hnext) hrun
  obtain ⟨hwf', -⟩ := reachable_spec hend.reaches
  have hwithin := hend.within
  rw [Nat.sub_eq_zero_of_le hticks] at hwithin
  rw [List.flatMap_def]
  exact hwf'.delivered_of_within hend.added hwithin

/-- Two requests wait.  The first timer exports one of them, an entry is added, and the timer after
the next, which is refused, exports the other one. -/
def retryingSteps : List Step :=
  [.tick fun n => if n = 0 then .Ok else .InternalFailure, .log (sampleRequest 503) ⟨0, 0, 0⟩,
    .tick fun _ => .InternalFailure, .tick fun n => if n = 0 then .Ok else .InternalFailure]

theorem exported_within_ticks_retry : ∃ s s',
    (logging sampleProtobuf).Reaches (fun _ _ => True) .start s ∧
    (logging sampleProtobuf).run (fun _ _ => True) s retryingSteps = some s' ∧
    s.plugin.waiting.length = 2 ∧ s'.plugin.waiting.length = 1 ∧
    s.host.added <+: s'.host.calls.flatMap fun call => call.request.logEntries := by
  have hbefore : ((logging sampleProtobuf).run (fun _ _ => True) .start
    [.configure (some ⟨bytes "log:80"⟩), .log (sampleRequest 200) ⟨0, 0, 0⟩,
      .tick fun _ => .InternalFailure, .log (sampleRequest 404) ⟨0, 0, 0⟩]).isSome := by decide
  have hreaches := Machine.Reaches.of_isSome hbefore
  have hwaiting : (Option.get _ hbefore).plugin.waiting.length = 2 := rfl
  have h : ((logging sampleProtobuf).run (fun _ _ => True) (Option.get _ hbefore)
    retryingSteps).isSome := rfl
  have hrun := (Option.some_get h).symm
  exact ⟨_, _, hreaches, hrun, rfl, rfl,
    exported_within_ticks hreaches hrun (by rw [hwaiting]; decide)⟩

end GrpcLogging

end WasmExtensions
