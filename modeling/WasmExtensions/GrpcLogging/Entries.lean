import WasmExtensions.GrpcLogging.Buffers

/-!
# What a log entry is made of

`addLogEntry` reads the time, the duration and the response code of a request into local variables
that it has not initialised.  A host that does not supply one of them, as for a request that was
aborted, leaves the variable as it is, and its contents become a field of the entry.

* `Appends` : one execution of `addLogEntry`, in some state of the plugin, with some contents of the
  memory of its local variables.
* `FromHostOnly` : the entry depends on the answers of the host alone.
* `fromHostOnly_iff` : **that is so exactly if the host supplies all three numbers.**
-/

namespace WasmExtensions

namespace GrpcLogging

/-- The entries that the plugin holds, in the order in which they came. -/
def PluginRootContext.entries (plugin : PluginRootContext) : List LogEntry :=
  plugin.reqBuffer.flatMap WriteLogRequest.logEntries ++ plugin.curLogReq.logEntries

/-- With these answers of the host, `addLogEntry` appends `entry` in the state `s` and with the
contents `locals` of its variables. -/
def Appends (protobuf : Protobuf) (getValue : Properties) (locals : Locals) (s : System)
    (entry : LogEntry) : Prop :=
  ∃ s', (logging protobuf).next s (.log getValue locals) = some s' ∧
    s'.plugin.entries = s.plugin.entries ++ [entry]

/-- The paths of the numbers that are read into local variables. -/
def timePath : List Bytes := [bytes "request", bytes "time"]
def durationPath : List Bytes := [bytes "request", bytes "duration"]
def codePath : List Bytes := [bytes "response", bytes "code"]

/-- The host supplies the three numbers. -/
structure Supplies (getValue : Properties) : Prop where
  time : (getValue.int64 timePath).isSome
  duration : (getValue.int64 durationPath).isSome
  code : (getValue.int64 codePath).isSome

/-- The entry depends on nothing but the answers of the host. -/
structure FromHostOnly (protobuf : Protobuf) (getValue : Properties) : Prop where
  /-- Any two executions append the same entry. -/
  equal : ∀ s₁ s₂ locals₁ locals₂ entry₁ entry₂, Appends protobuf getValue locals₁ s₁ entry₁ →
    Appends protobuf getValue locals₂ s₂ entry₂ → entry₁ = entry₂
  /-- A missing attribute leaves its field at a fixed value. -/
  fixed : ∃ timestamp latency responseCode, ∀ s locals entry,
    Appends protobuf getValue locals s entry →
      (getValue.int64 timePath = none → entry.timestamp = timestamp) ∧
      (getValue.int64 durationPath = none → entry.latency = latency) ∧
      (getValue.int64 codePath = none → entry.responseCode = responseCode)

/-- The conversions tell one nanosecond from none. -/
structure Protobuf.Distinguishes (protobuf : Protobuf) : Prop where
  timestamp : protobuf.nanosecondsToTimestamp 0 ≠ protobuf.nanosecondsToTimestamp 1
  duration : protobuf.nanosecondsToDuration 0 ≠ protobuf.nanosecondsToDuration 1

variable {protobuf : Protobuf} {getValue : Properties} {locals locals' : Locals} {s : System}
  {plugin : PluginRootContext} {entry : LogEntry}

/-! ### The entry that is appended -/

@[simp] theorem entries_flushLogBuffer : (flushLogBuffer plugin).entries = plugin.entries := by
  simp only [flushLogBuffer]
  split_ifs
  · rfl
  · simp [PluginRootContext.entries]

@[simp] theorem entries_addLogEntry :
    (addLogEntry entry plugin).entries = plugin.entries ++ [entry] := by
  simp only [addLogEntry]
  split_ifs
  · rw [entries_flushLogBuffer]
    simp [PluginRootContext.entries]
  · simp [PluginRootContext.entries]

/-- Every execution appends one entry, in every state of the plugin. -/
theorem appends_iff : Appends protobuf getValue locals s entry ↔
    entry = newEntry protobuf getValue locals := by
  unfold Appends
  constructor
  · rintro ⟨s', hnext, hentries⟩
    rw [← Option.some.inj hnext, entries_addLogEntry] at hentries
    simpa using hentries.symm
  · rintro rfl
    exact ⟨_, rfl, entries_addLogEntry⟩

/-- The variables do not matter when all three numbers are supplied. -/
theorem Supplies.newEntry_eq (h : Supplies getValue) :
    newEntry protobuf getValue locals = newEntry protobuf getValue locals' := by
  obtain ⟨time, htime⟩ := Option.isSome_iff_exists.1 h.time
  obtain ⟨duration, hduration⟩ := Option.isSome_iff_exists.1 h.duration
  obtain ⟨code, hcode⟩ := Option.isSome_iff_exists.1 h.code
  simp only [timePath] at htime
  simp only [durationPath] at hduration
  simp only [codePath] at hcode
  simp only [newEntry, htime, hduration, hcode, Option.getD_some]

/-- A missing time is read from the memory. -/
theorem timestamp_of_missing (h : getValue.int64 timePath = none) :
    (newEntry protobuf getValue locals).timestamp =
      protobuf.nanosecondsToTimestamp locals.timestamp := by
  simp only [timePath] at h
  simp [newEntry, h]

theorem latency_of_missing (h : getValue.int64 durationPath = none) :
    (newEntry protobuf getValue locals).latency =
      protobuf.nanosecondsToDuration locals.duration := by
  simp only [durationPath] at h
  simp [newEntry, h]

theorem responseCode_of_missing (h : getValue.int64 codePath = none) :
    (newEntry protobuf getValue locals).responseCode = locals.responseCode.toUInt64.toUInt32 := by
  simp only [codePath] at h
  simp [newEntry, h]

/-! ### When the host alone decides -/

/-- **An entry contains only data of the host exactly if the host supplies the three numbers.** -/
theorem fromHostOnly_iff (hprotobuf : protobuf.Distinguishes) (getValue : Properties) :
    FromHostOnly protobuf getValue ↔ Supplies getValue := by
  constructor
  · rintro ⟨hequal, -⟩
    have hentry : ∀ locals locals' : Locals,
        newEntry protobuf getValue locals = newEntry protobuf getValue locals' :=
      fun locals locals' => hequal .start .start locals locals' _ _ (appends_iff.2 rfl)
        (appends_iff.2 rfl)
    -- The two executions that find 0 and 1 in their memory tell a missing number.
    have hzero := hentry ⟨0, 0, 0⟩ ⟨1, 1, 1⟩
    refine ⟨?_, ?_, ?_⟩ <;> rw [Option.isSome_iff_ne_none] <;> intro hmissing
    · have htimestamp := congrArg LogEntry.timestamp hzero
      rw [timestamp_of_missing hmissing, timestamp_of_missing hmissing] at htimestamp
      exact hprotobuf.timestamp htimestamp
    · have hlatency := congrArg LogEntry.latency hzero
      rw [latency_of_missing hmissing, latency_of_missing hmissing] at hlatency
      exact hprotobuf.duration hlatency
    · have hcode := congrArg LogEntry.responseCode hzero
      rw [responseCode_of_missing hmissing, responseCode_of_missing hmissing] at hcode
      exact absurd hcode (by decide)
  · intro hsupplies
    have hnone : ∀ {path}, (getValue.int64 path).isSome → getValue.int64 path = none → False := by
      intro path hsome hmissing
      simp [hmissing] at hsome
    refine ⟨?_, ⟨0, 0⟩, ⟨0, 0⟩, 0, ?_⟩
    · intro s₁ s₂ locals₁ locals₂ entry₁ entry₂ h₁ h₂
      rw [appends_iff.1 h₁, appends_iff.1 h₂]
      exact hsupplies.newEntry_eq
    · intro s locals entry _
      exact ⟨fun h => (hnone hsupplies.time h).elim, fun h => (hnone hsupplies.duration h).elim,
        fun h => (hnone hsupplies.code h).elim⟩

theorem fromHostOnly_complete :
    FromHostOnly sampleProtobuf (sampleRequest 200) ↔ Supplies (sampleRequest 200) :=
  fromHostOnly_iff ⟨by decide, by decide⟩ (sampleRequest 200)

/-- A request that was aborted before there was a response. -/
def abortedRequest : Properties :=
  { sampleRequest 0 with int64 := fun path => if path = codePath then none else some 1500000000 }

/-- **The response code of an aborted request is what the memory happened to hold.** -/
theorem aborted_request_leaks : ¬ ∀ (protobuf : Protobuf) (getValue : Properties),
    FromHostOnly protobuf getValue := by
  intro h
  have hmissing : abortedRequest.int64 codePath = none := by decide
  have hequal := (h sampleProtobuf abortedRequest).equal .start .start ⟨200, 0, 0⟩ ⟨500, 0, 0⟩
    _ _ (appends_iff.2 rfl) (appends_iff.2 rfl)
  have hcode := congrArg LogEntry.responseCode hequal
  rw [responseCode_of_missing hmissing, responseCode_of_missing hmissing] at hcode
  exact absurd hcode (by decide)

end GrpcLogging

end WasmExtensions
