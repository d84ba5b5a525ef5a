import WasmExtensions.GrpcLogging.Buffers
import Mathlib.Tactic.ByContra

/-!
# Shutting the gRPC logging plugin down

The plugin has two ways to say that it is done: `onDone` returns true, or, if `onDone` has returned
false, `proxy_done` is called later.

* `nothing_dropped_iff` : neither happens while entries are left, exactly if the buffers are empty
  already at the two places that do not look at all of them.  `onDone` looks at `req_buffer_` and
  the calls but not at `cur_log_req_`, the callbacks look only at the calls.
* `SignalledOnce.preserved` : `proxy_done` is called at most once, and not before `onDone` returned
  false.
* `shutdown_completes_once` : it is called in time if no timer that has something to send
  interferes.  Such a timer overwrites `is_on_done_`, and then `proxy_done` is never called
  (`never_completes`).
-/

namespace WasmExtensions

namespace GrpcLogging

variable {protobuf : Protobuf} {s s' : System} {plugin : PluginRootContext} {step : Step}
  {grpcSimpleCall : ℕ → WasmResult} {ondone : Bool} {reply : GrpcReply}

/-! ### What a step says about shutdown -/

/-- The plugin says that it can be destroyed. -/
def Completes (s s' : System) : Prop :=
  s'.host.onDone = s.host.onDone ++ [true] ∨ s.host.proxyDone < s'.host.proxyDone

/-- Every entry that was added was in an export that the host answered with `Ok`. -/
def AllExported (s : System) : Prop :=
  s.host.calls.flatMap (fun call => call.request.logEntries) = s.host.added ∧
    s.plugin.curLogReq.logEntries = [] ∧ s.plugin.reqBuffer = []

/-- If the step says that the plugin is done, then everything has been exported. -/
def DropsNothing (protobuf : Protobuf) (s : System) (step : Step) : Prop :=
  ∀ s', (logging protobuf).next s step = some s' → Completes s s' → AllExported s'

/-- The callback of the call `i` can run. -/
def Host.Awaits (host : Host) (i : ℕ) : Prop :=
  ∃ call, host.calls[i]? = some call ∧ call.callbacks ∧ ¬ call.callbackRun

/-- Nothing is left in the buffers when `onDone` finds no request and no call, and when the last
callback after `onDone` runs. -/
def FlushedBefore (s : System) : Step → Prop
  | .done _ => s.plugin.reqBuffer = [] → s.plugin.inFlightExportCall = 0 →
      s.plugin.logEntryCount = 0
  | .reply i _ => s.host.Awaits i → s.plugin.inFlightExportCall = 1 → s.plugin.isOnDone →
      s.plugin.logEntryCount = 0 ∧ s.plugin.reqBuffer = []
  | _ => True

/-! ### The signals that a step gives -/

theorem not_completes (hdone : s'.host.onDone = s.host.onDone)
    (hproxy : s'.host.proxyDone = s.host.proxyDone) : ¬ Completes s s' := by
  rintro (h | h)
  · rw [hdone] at h
    exact absurd (List.self_eq_append_right.1 h) (by simp)
  · omega

theorem onConfigure_shutdown (protobuf : Protobuf) (s : System) (config : Option PluginConfig) :
    (onConfigure protobuf config s).2.host.onDone = s.host.onDone ∧
      (onConfigure protobuf config s).2.host.proxyDone = s.host.proxyDone := by
  unfold onConfigure
  split
  · exact ⟨rfl, rfl⟩
  · split <;> exact ⟨rfl, rfl⟩

theorem sendLoop_shutdown {n : ℕ} {buffer : List WriteLogRequest} :
    (sendLoop grpcSimpleCall n buffer s).plugin.isOnDone = s.plugin.isOnDone ∧
      (sendLoop grpcSimpleCall n buffer s).host.onDone = s.host.onDone ∧
      (sendLoop grpcSimpleCall n buffer s).host.proxyDone = s.host.proxyDone := by
  induction buffer generalizing n s with
  | nil => exact ⟨rfl, rfl, rfl⟩
  | cons req rest ih =>
    unfold sendLoop
    split_ifs with hresult
    · exact ⟨rfl, rfl, rfl⟩
    · exact ih

theorem onTick_shutdown (grpcSimpleCall : ℕ → WasmResult) (s : System) :
    (onTick grpcSimpleCall s).host.onDone = s.host.onDone ∧
    (onTick grpcSimpleCall s).host.proxyDone = s.host.proxyDone := by
  simp only [onTick]
  split_ifs with hempty
  · exact ⟨rfl, rfl⟩
  · exact sendLoop_shutdown.2

/-- The state in which `onDone` has nothing to do. -/
def Idle (s : System) : Prop := s.plugin.reqBuffer = [] ∧ s.plugin.inFlightExportCall = 0

theorem next_done_of_idle (protobuf : Protobuf) (grpcSimpleCall : ℕ → WasmResult) (h : Idle s) :
    (logging protobuf).next s (.done grpcSimpleCall) =
    some { s with host := { s.host with onDone := s.host.onDone ++ [true] } } := by
  have hdone : onDone grpcSimpleCall s = (true, s) := by
    unfold onDone
    rw [if_pos ⟨List.isEmpty_iff.2 h.1, h.2⟩]
  simp only [logging, hdone]

/-- Otherwise it flushes, sends, and returns false. -/
theorem next_done_of_not_idle (h : ¬ Idle s)
    (hnext : (logging protobuf).next s (.done grpcSimpleCall) = some s') :
    s'.plugin = (sendLogRequest grpcSimpleCall true
      { s with plugin := flushLogBuffer s.plugin }).plugin ∧
    s'.host.onDone = s.host.onDone ++ [false] ∧ s'.host.proxyDone = s.host.proxyDone := by
  have hdone : onDone grpcSimpleCall s = (false,
      sendLogRequest grpcSimpleCall true { s with plugin := flushLogBuffer s.plugin }) := by
    unfold onDone
    rw [if_neg fun hidle => h ⟨List.isEmpty_iff.1 hidle.1, hidle.2⟩]
  simp only [logging, hdone] at hnext
  rw [← Option.some.inj hnext]
  refine ⟨rfl, ?_, sendLoop_shutdown.2.2⟩
  exact congrArg (· ++ [false]) sendLoop_shutdown.2.1

theorem exportFinished_shutdown : (exportFinished s).host.onDone = s.host.onDone ∧
    (exportFinished s).host.proxyDone = s.host.proxyDone +
      if s.plugin.inFlightExportCall ≤ 1 ∧ s.plugin.isOnDone then 1 else 0 := by
  have hle : s.plugin.inFlightExportCall - 1 ≤ 0 ↔ s.plugin.inFlightExportCall ≤ 1 := by omega
  simp only [exportFinished, hle]
  split_ifs <;> exact ⟨rfl, rfl⟩

/-- A callback that runs belongs to a call that is still counted. -/
theorem Host.Awaits.outstanding {host : Host} {i : ℕ} (h : host.Awaits i) :
    1 ≤ host.outstanding := by
  obtain ⟨call, hcall, -, hrun⟩ := h
  exact List.countP_pos_iff.2 ⟨call, List.mem_of_getElem? hcall, by simpa using hrun⟩

theorem next_reply {i : ℕ} (h : (logging protobuf).next s (.reply i reply) = some s') :
    s.host.Awaits i ∧ ∃ call, s.host.calls[i]? = some call ∧ call.callbackRun = false ∧
      s' = exportFinished { s with host := s.host.finish i call } := by
  simp only [logging] at h
  split at h
  · cases h
  · rename_i call hcall
    split_ifs at h with hrun
    refine ⟨⟨call, hcall, hrun⟩, call, hcall, by simpa using hrun.2, ?_⟩
    rw [← Option.some.inj h, callback_eq]

/-! ### Entries at shutdown -/

theorem allExported_iff (hwf : s.outbox.WellFormed 500) (hcounted : Counted s) :
    AllExported s ↔ s.plugin.logEntryCount = 0 ∧ s.plugin.reqBuffer = [] := by
  have hcurrent : s.plugin.curLogReq.logEntries = [] ↔ s.plugin.logEntryCount = 0 := by
    rw [hcounted.entries, ← List.length_eq_zero_iff]
    omega
  constructor
  · rintro ⟨-, hcur, hbuffer⟩
    exact ⟨hcurrent.1 hcur, hbuffer⟩
  · rintro ⟨hcount, hbuffer⟩
    have hcur := hcurrent.2 hcount
    refine ⟨?_, hcur, hbuffer⟩
    have hcontents := hwf.contents
    simp only [System.outbox, hbuffer, hcur, List.map_nil, List.flatten_nil, List.append_nil]
      at hcontents
    rw [List.flatMap_def]
    exact hcontents

theorem reply_allExported {i : ℕ} {call : SimpleCall} (hwf : s.outbox.WellFormed 500)
    (hcounted : Counted s) (hcall : s.host.calls[i]? = some call)
    (hrun : call.callbackRun = false) :
    AllExported (exportFinished { s with host := s.host.finish i call }) ↔
      s.plugin.logEntryCount = 0 ∧ s.plugin.reqBuffer = [] := by
  have houtbox := reply_outbox (.success 0) hcall
  have hcounted' := reply_counted (.success 0) hcounted hcall hrun
  rw [callback_eq] at houtbox hcounted'
  rw [allExported_iff (houtbox ▸ hwf) hcounted', exportFinished_plugin]

/-- What a step has to find so that it does not drop an entry. -/
theorem dropsNothing_iff (hwf : s.outbox.WellFormed 500) (hcounted : Counted s) :
    DropsNothing protobuf s step ↔ FlushedBefore s step := by
  cases step with
  | configure config =>
    refine iff_of_true (fun s' hnext hcompletes => ?_) trivial
    cases hnext
    obtain ⟨hdone, hproxy⟩ := onConfigure_shutdown protobuf s config
    exact absurd hcompletes (not_completes hdone hproxy)
  | log getValue locals =>
    refine iff_of_true (fun s' hnext hcompletes => ?_) trivial
    cases hnext
    exact absurd hcompletes (not_completes rfl rfl)
  | tick grpcSimpleCall =>
    refine iff_of_true (fun s' hnext hcompletes => ?_) trivial
    cases hnext
    exact absurd hcompletes (not_completes (onTick_shutdown grpcSimpleCall s).1
      (onTick_shutdown grpcSimpleCall s).2)
  | done grpcSimpleCall =>
    by_cases hidle : Idle s
    · -- `onDone` returns true and leaves everything as it is.
      have hnext := next_done_of_idle protobuf grpcSimpleCall hidle
      let t : System := { s with host := { s.host with onDone := s.host.onDone ++ [true] } }
      have hexported : AllExported t ↔ s.plugin.logEntryCount = 0 ∧ s.plugin.reqBuffer = [] :=
        allExported_iff (s := s) hwf hcounted
      constructor
      · intro h _ _
        exact (hexported.1 (h t hnext (.inl rfl))).1
      · intro h s' hs' _
        rw [← Option.some.inj (hnext.symm.trans hs')]
        exact hexported.2 ⟨h hidle.1 hidle.2, hidle.1⟩
    · refine iff_of_true (fun s' hnext hcompletes => ?_) fun h h' => absurd ⟨h, h'⟩ hidle
      obtain ⟨-, hdone, hproxy⟩ := next_done_of_not_idle hidle hnext
      rcases hcompletes with h | h
      · rw [hdone] at h
        exact absurd (List.append_cancel_left h) (by decide)
      · omega
  | reply i reply =>
    have hinFlight := hcounted.inFlight
    constructor
    · intro h hawaits hlast hisOnDone
      obtain ⟨call, hcall, hcallbacks, hrun⟩ := hawaits
      let t := exportFinished { s with host := s.host.finish i call }
      have hnext : (logging protobuf).next s (.reply i reply) = some t := by
        simp only [logging, hcall, if_pos (And.intro hcallbacks hrun), callback_eq, t]
      have hproxy : t.host.proxyDone = s.host.proxyDone + 1 := by
        rw [exportFinished_shutdown.2, if_pos ⟨Int.le_of_eq hlast, hisOnDone⟩]; rfl
      exact (reply_allExported hwf hcounted hcall (by simpa using hrun)).1
        (h t hnext (.inr (by omega)))
    · intro h s' hnext hcompletes
      obtain ⟨hawaits, call, hcall, hrun, rfl⟩ := next_reply hnext
      refine (reply_allExported hwf hcounted hcall hrun).2 ?_
      obtain ⟨hdone, hproxy⟩ :=
        exportFinished_shutdown (s := { s with host := s.host.finish i call })
      -- The callback has called `proxy_done`, so its call was the last one after `onDone`.
      by_cases hlast : s.plugin.inFlightExportCall ≤ 1 ∧ s.plugin.isOnDone
      · have := hawaits.outstanding
        exact h hawaits (by omega) hlast.2
      · rw [if_neg hlast] at hproxy
        exact absurd hcompletes (not_completes hdone hproxy)

/-- **When no log entry is dropped at shutdown**: in a run, everything has been exported whenever
`onDone` returns true and whenever `proxy_done` is called, if and only if the buffers are empty
already at the steps that only look at the calls or only at the buffered requests. -/
theorem nothing_dropped_iff (protobuf : Protobuf) (steps : List Step) :
    (logging protobuf).Along (DropsNothing protobuf) .start steps ↔
      (logging protobuf).Along FlushedBefore .start steps := by
  refine Machine.along_congr (fun s step s' h _ hnext => h.step trivial hnext) (fun s step h => ?_)
    (Machine.Reaches.refl (C := fun _ _ => True))
  obtain ⟨hwf, hcounted⟩ := reachable_spec h
  exact dropsNothing_iff hwf hcounted

/-- One entry is logged and the plugin is shut down before the timer fires. -/
def droppingSteps : List Step :=
  [.configure (some ⟨bytes "log:80"⟩), .log (sampleRequest 200) ⟨0, 0, 0⟩, .done fun _ => .Ok]

theorem current_request_dropped :
    ¬ (logging sampleProtobuf).Along (DropsNothing sampleProtobuf) .start droppingSteps := by
  rintro ⟨-, h⟩
  obtain ⟨-, h⟩ := h _ rfl
  obtain ⟨hdone, -⟩ := h _ rfl
  obtain ⟨-, hcur, -⟩ := hdone _ rfl (.inl rfl)
  exact absurd (congrArg List.length hcur) (by decide)

/-! ### Completion -/

/-- `onDone` is called once. -/
def DoneOnce (s : System) : Step → Prop
  | .done _ => s.host.onDone = []
  | _ => True

/-- A timer that fires after `onDone` and before `proxy_done` has nothing to send. -/
def QuietTimer (s : System) : Step → Prop
  | .tick _ => false ∈ s.host.onDone → s.host.proxyDone = 0 →
      s.plugin.logEntryCount = 0 ∧ s.plugin.reqBuffer = []
  | _ => True

instance (s : System) : (step : Step) → Decidable (DoneOnce s step)
  | .done _ => inferInstanceAs (Decidable (s.host.onDone = []))
  | .configure _ | .log _ _ | .tick _ | .reply _ _ => inferInstanceAs (Decidable True)

instance (s : System) : (step : Step) → Decidable (QuietTimer s step)
  | .tick _ => inferInstanceAs (Decidable (false ∈ s.host.onDone → s.host.proxyDone = 0 →
      s.plugin.logEntryCount = 0 ∧ s.plugin.reqBuffer = []))
  | .configure _ | .log _ _ | .done _ | .reply _ _ => inferInstanceAs (Decidable True)

/-- Shutdown completes exactly once. -/
structure CompletesOnce (s : System) : Prop where
  notBefore : 0 < s.host.proxyDone → false ∈ s.host.onDone
  atMostOnce : s.host.proxyDone ≤ 1
  completed : false ∈ s.host.onDone → s.plugin.inFlightExportCall = 0 →
    s.plugin.curLogReq.logEntries = [] → s.plugin.reqBuffer = [] → s.host.proxyDone = 1

/-- What is known in every run in which `onDone` is called once. -/
structure SignalledOnce (s : System) : Prop where
  /-- The flag says that `onDone` sent the last exports. -/
  isOnDone : s.plugin.isOnDone → false ∈ s.host.onDone
  notBefore : 0 < s.host.proxyDone → false ∈ s.host.onDone
  atMostOnce : s.host.proxyDone ≤ 1
  /-- After `proxy_done` the flag is not found set by a callback again. -/
  spent : s.plugin.isOnDone → 0 < s.host.proxyDone → s.plugin.inFlightExportCall = 0

/-- While `proxy_done` is owed, the flag is set and there is something left to do. -/
def Owing (s : System) : Prop :=
  false ∈ s.host.onDone → s.host.proxyDone = 0 →
    s.plugin.isOnDone ∧ (0 < s.plugin.inFlightExportCall ∨ s.plugin.reqBuffer ≠ [])

theorem flushLogBuffer_isOnDone : (flushLogBuffer plugin).isOnDone = plugin.isOnDone := by
  unfold flushLogBuffer; split <;> rfl

theorem addLogEntry_shutdown (entry : LogEntry) (plugin : PluginRootContext) :
    (addLogEntry entry plugin).isOnDone = plugin.isOnDone ∧
      (addLogEntry entry plugin).inFlightExportCall = plugin.inFlightExportCall := by
  simp only [addLogEntry]
  split_ifs
  · exact ⟨flushLogBuffer_isOnDone, flushLogBuffer_inFlightExportCall⟩
  · exact ⟨rfl, rfl⟩

theorem onConfigure_plugin_shutdown (protobuf : Protobuf) (s : System)
    (config : Option PluginConfig) :
    (onConfigure protobuf config s).2.plugin.isOnDone = s.plugin.isOnDone ∧
      (onConfigure protobuf config s).2.plugin.inFlightExportCall = s.plugin.inFlightExportCall ∧
      (onConfigure protobuf config s).2.plugin.reqBuffer = s.plugin.reqBuffer := by
  unfold onConfigure
  split
  · exact ⟨rfl, rfl, rfl⟩
  · split <;> exact ⟨rfl, rfl, rfl⟩

/-- The flag after the timer, which clears it unless there is nothing to send. -/
theorem onTick_plugin_shutdown (grpcSimpleCall : ℕ → WasmResult) (s : System) :
    (onTick grpcSimpleCall s).plugin.isOnDone = false ∨
      (flushLogBuffer s.plugin).reqBuffer = [] ∧
      (onTick grpcSimpleCall s).plugin = flushLogBuffer s.plugin := by
  simp only [onTick]
  split_ifs with hempty
  · exact .inr ⟨List.isEmpty_iff.1 hempty, rfl⟩
  · exact .inl sendLoop_shutdown.1

theorem Counted.preserved (h : Counted s) (hnext : (logging protobuf).next s step = some s') :
    Counted s' := by
  obtain ⟨_, -, -, hcounted⟩ := simulation s step s' s.outbox ⟨rfl, h⟩ trivial hnext
  exact hcounted

/-- The parts about the two signals survive a step that leaves the signals and the flag alone. -/
theorem SignalledOnce.frame (h : SignalledOnce s) (hflag : s'.plugin.isOnDone → s.plugin.isOnDone)
    (hinFlight : s'.plugin.isOnDone → s'.plugin.inFlightExportCall = s.plugin.inFlightExportCall)
    (hdone : s'.host.onDone = s.host.onDone) (hproxy : s'.host.proxyDone = s.host.proxyDone) :
    SignalledOnce s' where
  isOnDone hset := hdone ▸ h.isOnDone (hflag hset)
  notBefore := by rw [hdone, hproxy]; exact h.notBefore
  atMostOnce := by rw [hproxy]; exact h.atMostOnce
  spent hset := by rw [hproxy, hinFlight hset]; exact h.spent (hflag hset)

/-- Before `onDone` neither the flag is set nor `proxy_done` called. -/
theorem SignalledOnce.before_done (h : SignalledOnce s) (hnone : s.host.onDone = []) :
    ¬ s.plugin.isOnDone ∧ s.host.proxyDone = 0 := by
  have hnotMem : false ∉ s.host.onDone := by
    rw [hnone]
    exact List.not_mem_nil
  refine ⟨fun hset => hnotMem (h.isOnDone hset), ?_⟩
  by_contra hne
  exact hnotMem (h.notBefore (Nat.pos_of_ne_zero hne))

/-- While a call is counted, `proxy_done` has not been called yet if the flag is set. -/
theorem SignalledOnce.owed (h : SignalledOnce s) (hcounts : 0 < s.plugin.inFlightExportCall)
    (hset : s.plugin.isOnDone) : s.host.proxyDone = 0 := by
  by_contra hne
  have hzero := h.spent hset (Nat.pos_of_ne_zero hne)
  omega

theorem SignalledOnce.preserved (h : SignalledOnce s) (hcounted : Counted s)
    (honce : DoneOnce s step) (hnext : (logging protobuf).next s step = some s') :
    SignalledOnce s' := by
  cases step with
  | configure config =>
    cases hnext
    obtain ⟨hflag, hinFlight, -⟩ := onConfigure_plugin_shutdown protobuf s config
    obtain ⟨hdone, hproxy⟩ := onConfigure_shutdown protobuf s config
    exact h.frame (hflag ▸ id) (fun _ => hinFlight) hdone hproxy
  | log getValue locals =>
    cases hnext
    obtain ⟨hflag, hinFlight⟩ := addLogEntry_shutdown (newEntry protobuf getValue locals) s.plugin
    exact h.frame (hflag ▸ id) (fun _ => hinFlight) rfl rfl
  | tick grpcSimpleCall =>
    cases hnext
    obtain ⟨hdone, hproxy⟩ := onTick_shutdown grpcSimpleCall s
    rcases onTick_plugin_shutdown grpcSimpleCall s with hclear | ⟨-, hplugin⟩
    · refine h.frame ?_ ?_ hdone hproxy <;> rw [hclear] <;> intro hset <;> cases hset
    · refine h.frame ?_ ?_ hdone hproxy <;> rw [hplugin]
      · rw [flushLogBuffer_isOnDone]; exact id
      · intro _; exact flushLogBuffer_inFlightExportCall
  | done grpcSimpleCall =>
    have honce : s.host.onDone = [] := honce
    obtain ⟨hflag, hproxy⟩ := h.before_done honce
    by_cases hidle : Idle s
    · rw [next_done_of_idle protobuf grpcSimpleCall hidle] at hnext
      cases hnext
      refine ⟨fun hset => absurd hset hflag, fun hpos => ?_, h.atMostOnce, h.spent⟩
      exact absurd hproxy (Nat.pos_iff_ne_zero.1 hpos)
    · obtain ⟨-, hdone', hproxy'⟩ := next_done_of_not_idle hidle hnext
      rw [honce] at hdone'
      have hmem : false ∈ s'.host.onDone := by rw [hdone']; exact List.mem_singleton_self _
      exact ⟨fun _ => hmem, fun _ => hmem, by omega, fun _ hpos => by omega⟩
  | reply i reply =>
    obtain ⟨hawaits, call, hcall, hrun, rfl⟩ := next_reply hnext
    have hcounts : 0 < s.plugin.inFlightExportCall := by
      have houtstanding := hawaits.outstanding
      have hinFlight := hcounted.inFlight
      omega
    obtain ⟨hdone, hproxy⟩ := exportFinished_shutdown (s := { s with host := s.host.finish i call })
    have hplugin := exportFinished_plugin { s with host := s.host.finish i call }
    generalize exportFinished { s with host := s.host.finish i call } = s' at hdone hproxy hplugin ⊢
    have hdone : s'.host.onDone = s.host.onDone := hdone
    by_cases hlast : s.plugin.inFlightExportCall ≤ 1 ∧ s.plugin.isOnDone
    · -- The callback of the last call signals; the call itself was still counted.
      have hproxy : s'.host.proxyDone = s.host.proxyDone + 1 := by rw [hproxy, if_pos hlast]; rfl
      have hmem : false ∈ s'.host.onDone := hdone ▸ h.isOnDone hlast.2
      have hzero : s'.plugin.inFlightExportCall = 0 := by rw [hplugin]; simp only; omega
      have howed := h.owed hcounts hlast.2
      exact ⟨fun _ => hmem, fun _ => hmem, by omega, fun _ _ => hzero⟩
    · have hproxy : s'.host.proxyDone = s.host.proxyDone := by rw [hproxy, if_neg hlast]; rfl
      refine ⟨fun hset => ?_, fun hpos => ?_, hproxy ▸ h.atMostOnce, fun hset hpos => ?_⟩
      · rw [hplugin] at hset
        exact hdone ▸ h.isOnDone hset
      · exact hdone ▸ h.notBefore (hproxy ▸ hpos)
      · rw [hplugin] at hset
        have howed := h.owed hcounts hset
        omega

theorem flushLogBuffer_reqBuffer_ne_nil (h : plugin.reqBuffer ≠ []) :
    (flushLogBuffer plugin).reqBuffer ≠ [] := by
  unfold flushLogBuffer
  split_ifs
  · exact h
  · simp

theorem addLogEntry_reqBuffer_ne_nil {entry : LogEntry} (h : plugin.reqBuffer ≠ []) :
    (addLogEntry entry plugin).reqBuffer ≠ [] := by
  simp only [addLogEntry]
  split_ifs
  · exact flushLogBuffer_reqBuffer_ne_nil h
  · exact h

/-- If there is something to wait for before the export loop, there is afterwards. -/
theorem sendLoop_waits {n : ℕ} {buffer : List WriteLogRequest}
    (hbuffer : s.plugin.reqBuffer = buffer) (hnonneg : 0 ≤ s.plugin.inFlightExportCall)
    (h : 0 < s.plugin.inFlightExportCall ∨ buffer ≠ []) :
    0 < (sendLoop grpcSimpleCall n buffer s).plugin.inFlightExportCall ∨
      (sendLoop grpcSimpleCall n buffer s).plugin.reqBuffer ≠ [] := by
  induction buffer generalizing n s with
  | nil => exact .inl (h.resolve_right fun hne => hne rfl)
  | cons req rest ih =>
    unfold sendLoop
    split_ifs with hresult
    · exact .inr (by rw [hbuffer]; simp)
    · have hpos : 0 < s.plugin.inFlightExportCall + 1 := by omega
      exact ih rfl (Int.le_of_lt hpos) (.inl hpos)

/-- A timer without anything to send does nothing. -/
theorem onTick_of_flushed (hcount : s.plugin.logEntryCount = 0)
    (hbuffer : s.plugin.reqBuffer = []) :
    onTick grpcSimpleCall s = s := by
  have hflush : flushLogBuffer s.plugin = s.plugin := by
    unfold flushLogBuffer
    rw [if_pos (Int.le_of_eq hcount)]
  simp only [onTick, hflush, hbuffer, List.isEmpty_nil, if_true]

theorem Owing.preserved (h : Owing s) (hcounted : Counted s)
    (honce : DoneOnce s step) (hquiet : QuietTimer s step)
    (hnext : (logging protobuf).next s step = some s') : Owing s' := by
  intro hmem hzero
  have hnonneg : 0 ≤ s.plugin.inFlightExportCall := by
    rw [hcounted.inFlight]; exact Int.natCast_nonneg _
  cases step with
  | configure config =>
    cases hnext
    obtain ⟨hdone, hproxy⟩ := onConfigure_shutdown protobuf s config
    obtain ⟨hflag, hinFlight, hbuffer⟩ := onConfigure_plugin_shutdown protobuf s config
    rw [hflag, hinFlight, hbuffer]
    exact h (hdone ▸ hmem) (hproxy ▸ hzero)
  | log getValue locals =>
    cases hnext
    obtain ⟨hset, hwaits⟩ := h hmem hzero
    obtain ⟨hflag, hinFlight⟩ := addLogEntry_shutdown (newEntry protobuf getValue locals) s.plugin
    exact ⟨hflag.trans hset, hwaits.imp (hinFlight.symm ▸ ·) addLogEntry_reqBuffer_ne_nil⟩
  | tick grpcSimpleCall =>
    cases hnext
    obtain ⟨hdone, hproxy⟩ := onTick_shutdown grpcSimpleCall s
    rw [hdone] at hmem
    rw [hproxy] at hzero
    obtain ⟨hcount, hbuffer⟩ := hquiet hmem hzero
    rw [onTick_of_flushed hcount hbuffer]
    exact h hmem hzero
  | done grpcSimpleCall =>
    have honce : s.host.onDone = [] := honce
    by_cases hidle : Idle s
    · rw [next_done_of_idle protobuf grpcSimpleCall hidle] at hnext
      cases hnext
      rw [honce] at hmem
      exact absurd (List.mem_singleton.1 hmem) (by decide)
    · obtain ⟨hplugin, -, -⟩ := next_done_of_not_idle hidle hnext
      rw [hplugin]
      refine ⟨sendLoop_shutdown.1, sendLoop_waits rfl ?_ ?_⟩
      · exact by rw [flushLogBuffer_inFlightExportCall]; exact hnonneg
      · by_cases hpos : 0 < s.plugin.inFlightExportCall
        · exact .inl (by rw [flushLogBuffer_inFlightExportCall]; exact hpos)
        · exact .inr (flushLogBuffer_reqBuffer_ne_nil fun hbuffer => hidle ⟨hbuffer, by omega⟩)
  | reply i reply =>
    obtain ⟨hawaits, call, hcall, hrun, rfl⟩ := next_reply hnext
    obtain ⟨hdone, hproxy⟩ := exportFinished_shutdown (s := { s with host := s.host.finish i call })
    have hlast : ¬ (s.plugin.inFlightExportCall ≤ 1 ∧ s.plugin.isOnDone) := fun hlast => by
      rw [if_pos hlast] at hproxy
      omega
    rw [if_neg hlast] at hproxy
    obtain ⟨hset, -⟩ := h (hdone ▸ hmem) (hproxy.symm.trans hzero)
    rw [exportFinished_plugin]
    refine ⟨hset, .inl ?_⟩
    have : ¬ s.plugin.inFlightExportCall ≤ 1 := fun hle => hlast ⟨hle, hset⟩
    show 0 < s.plugin.inFlightExportCall - 1
    omega

/-- **Shutdown completes exactly once** if every timer that fires between `onDone` and `proxy_done`
has nothing to send. -/
theorem shutdown_completes_once (h : (logging protobuf).Reaches
    (fun s step => DoneOnce s step ∧ QuietTimer s step) .start s) : CompletesOnce s := by
  obtain ⟨-, hsignalled, howing⟩ : Counted s ∧ SignalledOnce s ∧ Owing s := by
    refine h.invariant (I := fun s => Counted s ∧ SignalledOnce s ∧ Owing s)
      ⟨.start, ?_, fun hmem => absurd hmem (by decide)⟩ ?_
    · exact ⟨fun hset => absurd hset (by decide), fun hpos => absurd hpos (by decide),
        Nat.zero_le _, fun hset => absurd hset (by decide)⟩
    · rintro s step s' ⟨hcounted, hsignalled, howing⟩ ⟨honce, hquiet⟩ hnext
      exact ⟨hcounted.preserved hnext, hsignalled.preserved hcounted honce hnext,
        howing.preserved hcounted honce hquiet hnext⟩
  refine ⟨hsignalled.notBefore, hsignalled.atMostOnce, fun hmem hinFlight _ hbuffer => ?_⟩
  by_contra hne
  have hzero : s.host.proxyDone = 0 := by
    have := hsignalled.atMostOnce
    omega
  obtain ⟨-, hpos | hne⟩ := howing hmem hzero
  · omega
  · exact hne hbuffer

/-- The timer has sent a request; the plugin is shut down before its callback runs. -/
def completingSteps : List Step :=
  [.configure (some ⟨bytes "log:80"⟩), .log (sampleRequest 200) ⟨0, 0, 0⟩, .tick fun _ => .Ok,
    .done fun _ => .Ok, .reply 0 (.success 0)]

theorem shutdown_completes_once_reply : ∃ s, (logging sampleProtobuf).Reaches
    (fun s step => DoneOnce s step ∧ QuietTimer s step) .start s ∧
    s.host.onDone = [false] ∧ s.host.proxyDone = 1 ∧ CompletesOnce s := by
  have h : ((logging sampleProtobuf).run (fun s step => DoneOnce s step ∧ QuietTimer s step) .start
    completingSteps).isSome := by decide
  have hreaches := Machine.Reaches.of_isSome h
  exact ⟨_, hreaches, rfl, rfl, shutdown_completes_once hreaches⟩

/-! ### Runs in which shutdown never completes -/

/-- `proxy_done` is owed but no callback will call it. -/
structure Abandoned (s : System) : Prop where
  isOnDone : s.plugin.isOnDone = false
  onDone : s.host.onDone ≠ []
  proxyDone : s.host.proxyDone = 0

theorem Abandoned.preserved (h : Abandoned s) (honce : DoneOnce s step)
    (hnext : (logging protobuf).next s step = some s') : Abandoned s' := by
  cases step with
  | configure config =>
    cases hnext
    obtain ⟨hflag, -, -⟩ := onConfigure_plugin_shutdown protobuf s config
    obtain ⟨hdone, hproxy⟩ := onConfigure_shutdown protobuf s config
    exact ⟨hflag.trans h.isOnDone, hdone ▸ h.onDone, hproxy.trans h.proxyDone⟩
  | log getValue locals =>
    cases hnext
    exact ⟨(addLogEntry_shutdown _ _).1.trans h.isOnDone, h.onDone, h.proxyDone⟩
  | tick grpcSimpleCall =>
    cases hnext
    obtain ⟨hdone, hproxy⟩ := onTick_shutdown grpcSimpleCall s
    refine ⟨?_, hdone ▸ h.onDone, hproxy.trans h.proxyDone⟩
    rcases onTick_plugin_shutdown grpcSimpleCall s with hclear | ⟨-, hplugin⟩
    · exact hclear
    · rw [hplugin, flushLogBuffer_isOnDone]
      exact h.isOnDone
  | done grpcSimpleCall => exact absurd honce h.onDone
  | reply i reply =>
    obtain ⟨-, call, -, -, rfl⟩ := next_reply hnext
    obtain ⟨hdone, hproxy⟩ := exportFinished_shutdown (s := { s with host := s.host.finish i call })
    have hflag : ¬ s.plugin.isOnDone := by rw [h.isOnDone]; decide
    rw [if_neg fun hlast => hflag hlast.2] at hproxy
    refine ⟨?_, hdone ▸ h.onDone, hproxy.trans h.proxyDone⟩
    rw [exportFinished_plugin]
    exact h.isOnDone

/-- If the timer has something to send between `onDone` and `proxy_done`, then `proxy_done` is
never called. -/
theorem never_completes (hcounted : Counted s) (hmem : false ∈ s.host.onDone)
    (hzero : s.host.proxyDone = 0)
    (hloud : ¬ (s.plugin.logEntryCount = 0 ∧ s.plugin.reqBuffer = []))
    (h : (logging protobuf).Reaches DoneOnce (onTick grpcSimpleCall s) s') :
    s'.host.proxyDone = 0 := by
  obtain ⟨hdone, hproxy⟩ := onTick_shutdown grpcSimpleCall s
  have habandoned : Abandoned (onTick grpcSimpleCall s) := by
    refine ⟨?_, by rw [hdone]; exact List.ne_nil_of_mem hmem, hproxy.trans hzero⟩
    refine (onTick_plugin_shutdown grpcSimpleCall s).resolve_right fun hclear => hloud ?_
    have hempty := hclear.1
    -- A flush leaves the buffer empty only if there was nothing to flush and nothing buffered.
    unfold flushLogBuffer at hempty
    split_ifs at hempty with hcount
    · have := hcounted.entries
      exact ⟨by omega, hempty⟩
    · simp at hempty
  have habandoned' : Abandoned s' :=
    h.invariant habandoned fun _ _ _ h honce hnext => h.preserved honce hnext
  exact habandoned'.proxyDone

/-- The export at shutdown fails and the timer repeats it. -/
def abandoningSteps : List Step :=
  [.configure (some ⟨bytes "log:80"⟩), .log (sampleRequest 200) ⟨0, 0, 0⟩,
    .tick fun _ => .InternalFailure, .done fun _ => .InternalFailure, .tick fun _ => .Ok,
    .reply 0 (.success 0)]

theorem shutdown_abandoned : ∃ s, (logging sampleProtobuf).Reaches DoneOnce .start s ∧
    ¬ CompletesOnce s := by
  have h : ((logging sampleProtobuf).run DoneOnce .start abandoningSteps).isSome := by decide
  refine ⟨_, Machine.Reaches.of_isSome h, fun hcompletes => ?_⟩
  have hone := hcompletes.completed (List.mem_singleton_self _) rfl rfl rfl
  exact absurd (show 0 = 1 from hone) (by decide)

end GrpcLogging

end WasmExtensions
