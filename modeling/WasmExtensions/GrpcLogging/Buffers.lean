import WasmExtensions.GrpcLogging.Plugin
import WasmExtensions.Outbox.Basic

/-!
# The buffers of the gRPC logging plugin

The plugin is an outbox (`System.outbox`): the current request is the batch that is being filled,
the buffered requests are the packed batches, and an export that is answered with `Ok` delivers
one.  Every step of the plugin is a run of the outbox (`simulation`), so the entries are accounted
for in every reachable state (`entries_accounted`).

The simulation rests on the plugin's counters: `flushLogBuffer` looks at `log_entry_count_` and not
at the request, so `log_entry_count_` has to be the number of entries there (`Counted`).
-/

namespace WasmExtensions

namespace GrpcLogging

/-- The buffers of the plugin and the exports that went out. -/
def System.outbox (s : System) : Outbox LogEntry where
  accepted := s.host.added
  delivered := s.host.calls.map fun call => call.request.logEntries
  batches := s.plugin.reqBuffer.map WriteLogRequest.logEntries
  current := s.plugin.curLogReq.logEntries

/-- The exports whose callback has not run yet. -/
def Host.outstanding (host : Host) : ℕ := host.calls.countP fun call => !call.callbackRun

/-- The counters of the plugin count what they are meant to count. -/
structure Counted (s : System) : Prop where
  entries : s.plugin.logEntryCount = s.plugin.curLogReq.logEntries.length
  limit : s.plugin.logEntryCount < 500
  inFlight : s.plugin.inFlightExportCall = s.host.outstanding

variable {protobuf : Protobuf} {s s' : System} {plugin : PluginRootContext} {host : Host}
  {entry : LogEntry} {grpcSimpleCall : ℕ → WasmResult}
  {ondone : Bool} {reply : GrpcReply}

/-- Runs of the outbox that keep to the limit of the plugin. -/
abbrev Steps (s s' : System) : Prop :=
  (Outbox.machine LogEntry).Reaches (Outbox.Allowed 500) s.outbox s'.outbox

/-! ### The current request -/

@[simp] theorem flushLogBuffer_inFlightExportCall :
    (flushLogBuffer plugin).inFlightExportCall = plugin.inFlightExportCall := by
  unfold flushLogBuffer; split <;> rfl

/-- After a flush the current request is empty. -/
theorem flushLogBuffer_current
    (hentries : plugin.logEntryCount = plugin.curLogReq.logEntries.length) :
    (flushLogBuffer plugin).logEntryCount = 0 ∧
      (flushLogBuffer plugin).curLogReq.logEntries = [] := by
  unfold flushLogBuffer
  split_ifs with hcount
  · have hzero : plugin.curLogReq.logEntries.length = 0 := by omega
    exact ⟨by rw [hentries, hzero]; rfl, List.length_eq_zero_iff.1 hzero⟩
  · exact ⟨rfl, rfl⟩

/-- A flush packs the current request if there is anything in it. -/
theorem flushLogBuffer_steps
    (hentries : plugin.logEntryCount = plugin.curLogReq.logEntries.length) :
    Steps ⟨plugin, host⟩ ⟨flushLogBuffer plugin, host⟩ := by
  unfold flushLogBuffer
  split_ifs with hcount
  · exact .refl
  · -- The count is positive, so the request that is packed is not empty.
    refine .single (l := .pack) ?_ ?_
    · show plugin.curLogReq.logEntries ≠ []
      intro hnil
      rw [hnil] at hentries
      exact hcount (Int.le_of_eq hentries)
    · show some _ = some _
      simp [Outbox.pack, System.outbox]

theorem Counted.flushLogBuffer (h : Counted s) :
    Counted { s with plugin := flushLogBuffer s.plugin } := by
  obtain ⟨hcount, hnil⟩ := flushLogBuffer_current h.entries
  refine ⟨?_, ?_, ?_⟩
  · show (GrpcLogging.flushLogBuffer s.plugin).logEntryCount = _
    rw [hcount, hnil]; rfl
  · show (GrpcLogging.flushLogBuffer s.plugin).logEntryCount < 500
    omega
  · show (GrpcLogging.flushLogBuffer s.plugin).inFlightExportCall = _
    rw [flushLogBuffer_inFlightExportCall]
    exact h.inFlight

/-- A new entry is pushed; the request that it fills is packed. -/
theorem addLogEntry_spec (h : Counted s) :
    let s' : System :=
      { plugin := addLogEntry entry s.plugin
        host := { s.host with added := s.host.added ++ [entry] } }
    Steps s s' ∧ Counted s' := by
  intro s'
  -- The state between the push and the flush.
  let pushed : System :=
    { plugin :=
        { s.plugin with
          curLogReq := ⟨s.plugin.curLogReq.logEntries ++ [entry]⟩
          logEntryCount := s.plugin.logEntryCount + 1 }
      host := { s.host with added := s.host.added ++ [entry] } }
  have hentries : pushed.plugin.logEntryCount = pushed.plugin.curLogReq.logEntries.length := by
    show s.plugin.logEntryCount + 1 = ((s.plugin.curLogReq.logEntries ++ [entry]).length : ℤ)
    rw [h.entries, List.length_append, List.length_singleton]; rfl
  have hpush : Steps s pushed := by
    refine .single (l := .push entry) ?_ rfl
    show s.plugin.curLogReq.logEntries.length < 500
    have := h.entries
    have := h.limit
    omega
  have hs' : s' = ⟨if 500 ≤ pushed.plugin.logEntryCount then flushLogBuffer pushed.plugin
      else pushed.plugin, pushed.host⟩ := rfl
  rw [hs']
  split_ifs with hfull
  · obtain ⟨hcount, hnil⟩ := flushLogBuffer_current hentries
    refine ⟨hpush.trans (flushLogBuffer_steps hentries), ?_, ?_, ?_⟩
    · show (flushLogBuffer pushed.plugin).logEntryCount = _
      rw [hcount, hnil]; rfl
    · show (flushLogBuffer pushed.plugin).logEntryCount < 500
      omega
    · show (flushLogBuffer pushed.plugin).inFlightExportCall = _
      rw [flushLogBuffer_inFlightExportCall]
      exact h.inFlight
  · exact ⟨hpush, hentries, Int.not_le.1 hfull, h.inFlight⟩

/-! ### Exports -/

/-- A new call is outstanding. -/
theorem outstanding_append {call : SimpleCall} (hrun : call.callbackRun = false) :
    { host with calls := host.calls ++ [call] }.outstanding = host.outstanding + 1 := by
  unfold Host.outstanding
  rw [List.countP_append, List.countP_singleton, hrun]; rfl

/-- A call whose callback runs is not outstanding any more. -/
theorem outstanding_finish {i : ℕ} {call : SimpleCall} (hcall : host.calls[i]? = some call)
    (hrun : call.callbackRun = false) :
    (host.finish i call).outstanding + 1 = host.outstanding := by
  obtain ⟨hi, hget⟩ := List.getElem?_eq_some_iff.1 hcall
  have hpos : 0 < host.calls.countP fun call => !call.callbackRun :=
    List.countP_pos_iff.2 ⟨call, hget ▸ List.getElem_mem hi, by rw [hrun]; rfl⟩
  unfold Host.outstanding Host.finish
  rw [List.countP_set hi, hget, hrun]
  exact Nat.sub_add_cancel hpos

/-- The export loop delivers batches from the front until a call fails. -/
theorem sendLoop_spec {n : ℕ} {buffer : List WriteLogRequest} (h : Counted s)
    (hbuffer : s.plugin.reqBuffer = buffer) :
    Steps s (sendLoop grpcSimpleCall n buffer s) ∧
      Counted (sendLoop grpcSimpleCall n buffer s) := by
  induction buffer generalizing n s with
  | nil => exact ⟨.refl, h⟩
  | cons req rest ih =>
    unfold sendLoop
    split_ifs with hresult
    · exact ⟨.refl, h⟩
    · -- The state after one round.  The buffer is what is left of the list of the recursion.
      let sent : System :=
        { plugin :=
            { s.plugin with
              inFlightExportCall := s.plugin.inFlightExportCall + 1
              reqBuffer := rest }
          host := { s.host with calls := s.host.calls ++ [exportCall s.plugin req] } }
      have hbatches : s.outbox.batches =
          req.logEntries :: rest.map WriteLogRequest.logEntries := by
        show s.plugin.reqBuffer.map WriteLogRequest.logEntries = _
        rw [hbuffer]; rfl
      have hdeliver : Steps s sent := by
        refine .single (l := .deliver) trivial ((Outbox.deliver_of_cons hbatches).trans ?_)
        simp [System.outbox, sent, exportCall]
      have hsent : Counted sent := by
        refine ⟨h.entries, h.limit, ?_⟩
        show s.plugin.inFlightExportCall + 1 = _
        rw [h.inFlight, outstanding_append rfl]; rfl
      obtain ⟨hsteps, hcounted⟩ := ih (n := n + 1) hsent rfl
      exact ⟨hdeliver.trans hsteps, hcounted⟩

theorem sendLogRequest_spec (h : Counted s) :
    Steps s (sendLogRequest grpcSimpleCall ondone s) ∧
      Counted (sendLogRequest grpcSimpleCall ondone s) :=
  sendLoop_spec (s := { s with plugin := { s.plugin with isOnDone := ondone } })
    ⟨h.entries, h.limit, h.inFlight⟩ rfl

theorem onTick_spec (h : Counted s) :
    Steps s (onTick grpcSimpleCall s) ∧ Counted (onTick grpcSimpleCall s) := by
  have hflush : Steps s { s with plugin := flushLogBuffer s.plugin } :=
    flushLogBuffer_steps h.entries
  simp only [onTick]
  split_ifs with hempty
  · exact ⟨hflush, h.flushLogBuffer⟩
  · obtain ⟨hsteps, hcounted⟩ := sendLogRequest_spec h.flushLogBuffer
    exact ⟨hflush.trans hsteps, hcounted⟩

theorem onDone_spec (grpcSimpleCall : ℕ → WasmResult) (h : Counted s) :
    Steps s (onDone grpcSimpleCall s).2 ∧ Counted (onDone grpcSimpleCall s).2 := by
  unfold onDone
  split_ifs with hidle
  · exact ⟨.refl, h⟩
  · obtain ⟨hsteps, hcounted⟩ := sendLogRequest_spec h.flushLogBuffer
    exact ⟨(flushLogBuffer_steps h.entries).trans hsteps, hcounted⟩

/-! ### Callbacks -/

theorem callback_outbox : (callback reply s).outbox = s.outbox := by
  unfold System.outbox
  rw [callback_eq, exportFinished_plugin, exportFinished_host]

/-- A callback accounts for the call that it belongs to. -/
theorem reply_counted (reply : GrpcReply) {i : ℕ} {call : SimpleCall} (h : Counted s)
    (hcall : s.host.calls[i]? = some call) (hrun : call.callbackRun = false) :
    Counted (callback reply { s with host := s.host.finish i call }) := by
  rw [callback_eq]
  refine ⟨?_, ?_, ?_⟩ <;> rw [exportFinished_plugin]
  · exact h.entries
  · exact h.limit
  · rw [exportFinished_host]
    show s.plugin.inFlightExportCall - 1 = ((s.host.finish i call).outstanding : ℤ)
    have := h.inFlight
    have := outstanding_finish hcall hrun
    omega

theorem reply_outbox (reply : GrpcReply) {i : ℕ} {call : SimpleCall}
    (hcall : s.host.calls[i]? = some call) :
    (callback reply { s with host := s.host.finish i call }).outbox = s.outbox := by
  rw [callback_outbox]
  obtain ⟨hi, hget⟩ := List.getElem?_eq_some_iff.1 hcall
  have hmap : ((s.host.finish i call).calls.map fun call => call.request.logEntries) =
      s.host.calls.map fun call => call.request.logEntries := by
    unfold Host.finish
    apply List.ext_getElem (by simp)
    intro j hj hj'
    by_cases hne : i = j
    · subst hne
      simp [hget]
    · simp [List.getElem_set_ne hne]
  unfold System.outbox
  rw [hmap]; rfl

/-! ### All steps -/

theorem configure_spec (protobuf : Protobuf) (config : Option PluginConfig) (h : Counted s) :
    (onConfigure protobuf config s).2.outbox = s.outbox ∧
      Counted (onConfigure protobuf config s).2 := by
  unfold onConfigure
  split
  · exact ⟨rfl, h⟩
  · split
    · exact ⟨rfl, h⟩
    · exact ⟨rfl, h.entries, h.limit, h.inFlight⟩

/-- **The plugin is an outbox.** -/
theorem simulation : (logging protobuf).Simulation (fun _ _ => True)
    (Outbox.machine LogEntry) (Outbox.Allowed 500) (fun s o => o = s.outbox ∧ Counted s) := by
  rintro s step s' _ ⟨rfl, h⟩ - hnext
  suffices hspec : Steps s s' ∧ Counted s' from ⟨_, hspec.1, rfl, hspec.2⟩
  cases step with
  | configure config =>
    cases hnext
    obtain ⟨houtbox, hcounted⟩ := configure_spec protobuf config h
    exact ⟨by unfold Steps; rw [houtbox]; exact .refl, hcounted⟩
  | log getValue locals => cases hnext; exact addLogEntry_spec h
  | tick grpcSimpleCall => cases hnext; exact onTick_spec h
  | done grpcSimpleCall =>
    cases hnext
    obtain ⟨hsteps, hcounted⟩ := onDone_spec grpcSimpleCall h
    exact ⟨hsteps, hcounted.entries, hcounted.limit, hcounted.inFlight⟩
  | reply i reply =>
    simp only [logging] at hnext
    split at hnext
    · cases hnext
    · rename_i call hcall
      split_ifs at hnext with hrun
      cases hnext
      refine ⟨?_, reply_counted _ h hcall (by simpa using hrun.2)⟩
      unfold Steps
      rw [reply_outbox _ hcall]
      exact .refl

theorem Counted.start : Counted .start := ⟨rfl, by decide, rfl⟩

/-- What the simulation says about every reachable state. -/
theorem reachable_spec (h : (logging protobuf).Reaches (fun _ _ => True) .start s) :
    s.outbox.WellFormed 500 ∧ Counted s := by
  obtain ⟨_, hreaches, rfl, hcounted⟩ := simulation.reaches ⟨rfl, .start⟩ h
  exact ⟨Outbox.WellFormed.empty.reaches hreaches, hcounted⟩

/-- **No log entry is lost, duplicated or reordered**: in every reachable state the entries of the
exported requests, of the buffered requests and of the current request are the entries that were
added, in this order, and the counters are right. -/
theorem entries_accounted (h : (logging protobuf).Reaches (fun _ _ => True) .start s) :
    s.host.calls.flatMap (fun call => call.request.logEntries) ++
        s.plugin.reqBuffer.flatMap WriteLogRequest.logEntries ++ s.plugin.curLogReq.logEntries =
      s.host.added ∧
    s.plugin.logEntryCount = s.plugin.curLogReq.logEntries.length ∧
    s.plugin.logEntryCount < 500 ∧
    (∀ req ∈ s.plugin.reqBuffer, 1 ≤ req.logEntries.length ∧ req.logEntries.length ≤ 500) ∧
    s.plugin.inFlightExportCall = s.host.outstanding ∧
    0 ≤ s.plugin.inFlightExportCall := by
  obtain ⟨hwf, hcounted⟩ := reachable_spec h
  refine ⟨?_, hcounted.entries, hcounted.limit, fun req hreq => ?_, hcounted.inFlight, ?_⟩
  · rw [List.flatMap_def, List.flatMap_def]
    exact hwf.contents
  · exact hwf.batches _ (List.mem_map_of_mem hreq)
  · rw [hcounted.inFlight]
    exact Int.natCast_nonneg _

/-- Protobuf on non-negative times and short addresses. -/
def sampleProtobuf : Protobuf where
  nanosecondsToTimestamp n := ⟨n / 1000000000, (n % 1000000000).toInt32⟩
  nanosecondsToDuration n := ⟨n / 1000000000, (n % 1000000000).toInt32⟩
  serializeGrpcService uri :=
    [0x12, (uri.length + 2).toUInt8, 0x0a, uri.length.toUInt8] ++ uri

def sampleRequest (code : Int64) : Properties :=
  { Properties.none with
    string := fun _ => some (bytes "-")
    int64 := fun path =>
      if path = [bytes "response", bytes "code"] then some code else some 1500000000 }

/-- The export at the first tick fails; at the second tick the first of two exports goes out and
its callback runs.  The third entry is still in the current request. -/
def sampleSteps : List Step :=
  [.configure (some ⟨bytes "log:80"⟩), .log (sampleRequest 200) ⟨0, 0, 0⟩,
    .tick fun _ => .InternalFailure, .log (sampleRequest 404) ⟨0, 0, 0⟩,
    .tick fun n => if n = 0 then .Ok else .InternalFailure, .reply 0 (.success 0),
    .log (sampleRequest 503) ⟨0, 0, 0⟩]

theorem entries_accounted_retry : ∃ s, (logging sampleProtobuf).Reaches (fun _ _ => True) .start s ∧
    s.host.added.map LogEntry.responseCode = [200, 404, 503] ∧ s.plugin.reqBuffer.length = 1 ∧
    s.host.calls.flatMap (fun call => call.request.logEntries) ++
        s.plugin.reqBuffer.flatMap WriteLogRequest.logEntries ++ s.plugin.curLogReq.logEntries =
      s.host.added := by
  have h : ((logging sampleProtobuf).run (fun _ _ => True) .start sampleSteps).isSome := by decide
  have hreaches := Machine.Reaches.of_isSome h
  exact ⟨_, hreaches, rfl, rfl, (entries_accounted hreaches).1⟩

end GrpcLogging

end WasmExtensions
