import WasmExtensions.Common.Host
import WasmExtensions.Machine.Basic
import WasmExtensions.SharedData.Basic
import Mathlib.Tactic.SplitIfs

/-!
# The token bucket of the local rate limiter

`bucket.cc` keeps a token bucket in data shared by all VMs: `getToken` takes a token,
`refillToken` adds tokens once per refill interval and `initializeTokenBucket` creates the two
keys.  The VMs run concurrently, and what interleaves are their single host calls, so a VM is
modelled by the host call it is about to make (`Pc`), with the local variables live there:

* `hostCall` : the call made at a program point;
* `resume` : what the function does with the answer;
* `Served` : what the host may answer, and what a call does to the shared data;
* `machine` : any number of VMs over one store, one host call a step.

The host may refuse any call with any error.  A write that carries a version is accepted only if
its key was not written since, and every accepted write gets a fresh version.

Besides the state of the VMs and of the store, the machine keeps a log of the calls of the bucket
functions, of every `setSharedData` with its outcome and of the returns; the code does not read it.
-/

namespace WasmExtensions

namespace LocalRateLimit

/-- How often `getToken` tries to take a token. -/
def maxGetTokenRetry : ℕ := 20

/-- The shared data keys. -/
inductive Key where
  /-- Key for token bucket shared data. -/
  | tokenBucket
  /-- Key for token bucket last updated time. -/
  | lastRefilled
  deriving DecidableEq, Repr

/-- The arguments of `refillToken`, which all VMs take from the same plugin configuration. -/
structure Config where
  /-- Tokens added by a refill. -/
  tokensPerRefill : UInt64
  /-- The least time between two refills. -/
  refillIntervalNanosec : UInt64
  /-- The capacity of the bucket. -/
  maxTokens : UInt64
  deriving DecidableEq, Repr

/-- The bucket after a refill: the sum is taken in 64 bits and then clamped. -/
def Config.refilled (cfg : Config) (tokenLeft : UInt64) : UInt64 :=
  if tokenLeft + cfg.tokensPerRefill > cfg.maxTokens then cfg.maxTokens
  else tokenLeft + cfg.tokensPerRefill

/-- The host calls of the bucket functions. -/
inductive HostCall where
  | getSharedData (key : Key)
  | setSharedData (key : Key) (value : UInt64) (cas : ℕ)
  | getCurrentTimeNanoseconds
  deriving DecidableEq, Repr

/-- What the host answers: the data and version of a successful read, the current time, or the
result code of a write or of a failed read. -/
inductive Answer where
  | data (value : UInt64) (cas : ℕ)
  | time (now : UInt64)
  | result (r : WasmResult)
  deriving DecidableEq, Repr

/-- The bucket functions. -/
inductive Fn where
  | getToken
  | refillToken
  | initializeTokenBucket (initialTokens : UInt64)
  deriving DecidableEq, Repr

/-- How a bucket function returns. -/
inductive Return where
  | getToken (result : Bool)
  | refillToken
  | initializeTokenBucket (result : Bool)
  deriving DecidableEq, Repr

/-- The host call a VM is about to make. -/
inductive Pc where
  /-- The VM is in none of the functions. -/
  | idle
  /-- `getToken` reads the bucket, for the `i`-th time. -/
  | getTokenGet (i : ℕ)
  /-- `getToken` has read `tokenLeft` and writes one token less. -/
  | getTokenSet (i : ℕ) (tokenLeft : UInt64) (cas : ℕ)
  /-- `refillToken` reads the last refill time. -/
  | refillGetLast
  /-- `refillToken` has read the last refill time and reads the clock. -/
  | refillTime (lastUpdate : UInt64) (lastUpdateCas : ℕ)
  /-- `refillToken` claims the refill by writing `now` as the last refill time. -/
  | refillSetLast (lastUpdate now : UInt64) (lastUpdateCas : ℕ)
  /-- `refillToken` has claimed the refill and reads the bucket. -/
  | refillGet
  /-- `refillToken` has read `tokenLeft` and writes the refilled bucket. -/
  | refillSet (tokenLeft : UInt64) (cas : ℕ)
  /-- `initializeTokenBucket` looks for the last refill time. -/
  | initGet (initialTokens : UInt64)
  /-- `initializeTokenBucket` found none and writes `0`. -/
  | initSetLast (initialTokens : UInt64)
  /-- `initializeTokenBucket` writes the initial tokens. -/
  | initSetBucket (initialTokens : UInt64)
  deriving DecidableEq, Repr

/-- The first host call of a function. -/
def Fn.start : Fn → Pc
  | .getToken => .getTokenGet 0
  | .refillToken => .refillGetLast
  | .initializeTokenBucket initialTokens => .initGet initialTokens

/-- The host call made at a program point. -/
def hostCall (cfg : Config) : Pc → Option HostCall
  | .idle => none
  | .getTokenGet _ => some (.getSharedData .tokenBucket)
  | .getTokenSet _ tokenLeft cas => some (.setSharedData .tokenBucket (tokenLeft - 1) cas)
  | .refillGetLast => some (.getSharedData .lastRefilled)
  | .refillTime _ _ => some .getCurrentTimeNanoseconds
  | .refillSetLast _ now lastUpdateCas => some (.setSharedData .lastRefilled now lastUpdateCas)
  | .refillGet => some (.getSharedData .tokenBucket)
  | .refillSet tokenLeft cas => some (.setSharedData .tokenBucket (cfg.refilled tokenLeft) cas)
  | .initGet _ => some (.getSharedData .lastRefilled)
  -- the two writes of the initialisation pass no version
  | .initSetLast _ => some (.setSharedData .lastRefilled 0 0)
  | .initSetBucket initialTokens => some (.setSharedData .tokenBucket initialTokens 0)

/-- What a function does next: another host call, or it returns. -/
inductive Next where
  | goto (pc : Pc)
  | done (r : Return)
  deriving DecidableEq, Repr

/-- `getToken` after the `i`-th attempt lost a race: it gives up and lets the request through
when the attempts are used up. -/
def retryGetToken (i : ℕ) : Next :=
  if i + 1 < maxGetTokenRetry then .goto (.getTokenGet (i + 1)) else .done (.getToken true)

/-- What the function at a program point does with the answer to its host call. -/
def resume (cfg : Config) : Pc → Answer → Next
  | .getTokenGet i, .data tokenLeft cas =>
    if tokenLeft = 0 then .done (.getToken false) else .goto (.getTokenSet i tokenLeft cas)
  | .getTokenGet _, _ => .done (.getToken false)
  | .getTokenSet _ _ _, .result .Ok => .done (.getToken true)
  | .getTokenSet i _ _, .result .CasMismatch => retryGetToken i
  | .getTokenSet _ _ _, _ => .done (.getToken false)
  | .refillGetLast, .data lastUpdate cas => .goto (.refillTime lastUpdate cas)
  | .refillGetLast, _ => .done .refillToken
  | .refillTime lastUpdate cas, .time now =>
    if now - lastUpdate < cfg.refillIntervalNanosec then .done .refillToken
    else .goto (.refillSetLast lastUpdate now cas)
  | .refillTime _ _, _ => .done .refillToken
  | .refillSetLast _ _ _, .result .Ok => .goto .refillGet
  | .refillSetLast _ _ _, _ => .done .refillToken
  | .refillGet, .data tokenLeft cas => .goto (.refillSet tokenLeft cas)
  | .refillGet, _ => .done .refillToken
  | .refillSet _ _, .result .CasMismatch => .goto .refillGet
  | .refillSet _ _, _ => .done .refillToken
  | .initGet _, .data _ _ => .done (.initializeTokenBucket true)
  | .initGet initialTokens, _ => .goto (.initSetLast initialTokens)
  | .initSetLast initialTokens, .result .Ok => .goto (.initSetBucket initialTokens)
  | .initSetLast _, .result .CasMismatch => .done (.initializeTokenBucket true)
  | .initSetLast _, _ => .done (.initializeTokenBucket false)
  | .initSetBucket _, .result .Ok => .done (.initializeTokenBucket true)
  | .initSetBucket _, _ => .done (.initializeTokenBucket false)
  | .idle, _ => .goto .idle

/-! ### The host -/

/-- How the host treats a call: it carries it out, giving a write the version `cas`, or it
refuses it with an error. -/
inductive Reply where
  | serve (cas : ℕ)
  | fail (r : WasmResult)
  deriving DecidableEq, Repr

/-- The answer to a host call and the shared data after it; `none` when the host cannot treat
the call so. -/
def Reply.answer (d : SharedData Key UInt64) (clock : UInt64) :
    Reply → HostCall → Option (Answer × SharedData Key UInt64)
  | .serve _, .getSharedData k =>
    some ((d.cell k).elim (.result .NotFound) fun c => .data c.value c.cas, d)
  | .serve fresh, .setSharedData k x cas =>
    if d.Accepts k cas then
      if h : d.Fresh k fresh then some (.result .Ok, d.write k x fresh h) else none
    else some (.result .CasMismatch, d)
  | .serve _, .getCurrentTimeNanoseconds => some (.time clock, d)
  | .fail _, .getCurrentTimeNanoseconds => none
  | .fail r, _ => if r = .Ok then none else some (.result r, d)

/-! ### Any number of VMs -/

/-- The program point of a successful or failed write. -/
inductive Site where
  /-- `getToken` takes a token. -/
  | take
  /-- `refillToken` claims the refill. -/
  | claim
  /-- `refillToken` adds tokens. -/
  | refill
  /-- `initializeTokenBucket` sets the last refill time. -/
  | initLast
  /-- `initializeTokenBucket` sets the initial tokens. -/
  | initBucket
  deriving DecidableEq, Repr

/-- A `setSharedData` call: who made it, at which program point and at what time, the value it
was computed from, the value stored just before it, the value it stores, and its outcome. -/
structure SetCall (V : Type*) where
  vm : V
  site : Site
  time : UInt64
  read : Option UInt64
  old : Option UInt64
  new : UInt64
  result : WasmResult
  deriving DecidableEq, Repr

/-- What the log records. -/
inductive Event (V : Type*) where
  | called (v : V) (f : Fn)
  | set (c : SetCall V)
  | returned (v : V) (r : Return)
  deriving DecidableEq, Repr

/-- The write made at a program point: its site and the value it is computed from. -/
def Pc.write : Pc → Option (Site × Option UInt64)
  | .getTokenSet _ tokenLeft _ => some (.take, some tokenLeft)
  | .refillSetLast lastUpdate _ _ => some (.claim, some lastUpdate)
  | .refillSet tokenLeft _ => some (.refill, some tokenLeft)
  | .initSetLast _ => some (.initLast, none)
  | .initSetBucket _ => some (.initBucket, none)
  | _ => none

/-- A VM: its program point, and whether its `initializeTokenBucket` has returned `true`. -/
structure Vm where
  pc : Pc
  initialized : Bool
  deriving DecidableEq, Repr

/-- The VMs, the shared data, the clock of the host and the log (latest event first). -/
structure State (V : Type*) where
  vm : V → Vm
  data : SharedData Key UInt64
  clock : UInt64
  log : List (Event V)

/-- The steps of the machine. -/
inductive Label (V : Type*) where
  /-- The clock moves on. -/
  | tick (now : UInt64)
  /-- The VM `v` enters a function. -/
  | call (v : V) (f : Fn)
  /-- The host treats the call that the VM `v` is about to make. -/
  | host (v : V) (reply : Reply)
  deriving DecidableEq, Repr

/-- A VM may serve traffic once it is initialised; it may always initialise. -/
def Fn.allowed (initialized : Bool) : Fn → Bool
  | .initializeTokenBucket _ => true
  | _ => initialized

/-- A VM after its function went on as `next` says. -/
def Vm.after (vm : Vm) : Next → Vm
  | .goto pc => { vm with pc := pc }
  | .done r => ⟨.idle, vm.initialized || r = .initializeTokenBucket true⟩

/-- The return that `next` stands for, if any, as a log entry. -/
def Next.events {V : Type*} (v : V) : Next → List (Event V)
  | .goto _ => []
  | .done r => [.returned v r]

variable {V : Type*}

/-- The log entry of a host call: only writes are recorded. -/
def State.setEvents (s : State V) (v : V) : HostCall → Answer → List (Event V)
  | .setSharedData k x _, .result r =>
    (s.vm v).pc.write.toList.map fun p => .set
      { vm := v, site := p.1, time := s.clock, read := p.2
        old := (s.data.cell k).map Cell.value, new := x, result := r }
  | _, _ => []

variable [DecidableEq V]

/-- The state after the VM `v` was given the answer `ans` to `call`. -/
def State.advance (s : State V) (cfg : Config) (v : V) (call : HostCall) (ans : Answer)
    (data : SharedData Key UInt64) : State V where
  vm := Function.update s.vm v ((s.vm v).after (resume cfg (s.vm v).pc ans))
  data := data
  clock := s.clock
  log := (resume cfg (s.vm v).pc ans).events v ++ s.setEvents v call ans ++ s.log

/-- The VMs with the host.  The clock never goes back. -/
def machine (cfg : Config) : Machine (State V) (Label V) where
  next s
    | .tick now => if s.clock ≤ now then some { s with clock := now } else none
    | .call v f =>
      if (s.vm v).pc = .idle ∧ f.allowed (s.vm v).initialized = true then
        some { s with
          vm := Function.update s.vm v ⟨f.start, (s.vm v).initialized⟩
          log := .called v f :: s.log }
      else none
    | .host v reply =>
      (hostCall cfg (s.vm v).pc).bind fun call =>
        (reply.answer s.data s.clock call).map fun p => s.advance cfg v call p.1 p.2

/-! ### What a step does -/

/-- What the host may do with a call: the answer, and the shared data after it. -/
inductive Served (d : SharedData Key UInt64) (clock : UInt64) :
    HostCall → Answer → SharedData Key UInt64 → Prop
  | read {k : Key} (c : Cell UInt64) : d.cell k = some c →
      Served d clock (.getSharedData k) (.data c.value c.cas) d
  | notRead {k : Key} (r : WasmResult) : r ≠ .Ok →
      Served d clock (.getSharedData k) (.result r) d
  | time : Served d clock .getCurrentTimeNanoseconds (.time clock) d
  | refused {k : Key} {x : UInt64} {cas : ℕ} (r : WasmResult) : r ≠ .Ok →
      Served d clock (.setSharedData k x cas) (.result r) d
  | accepted {k : Key} {x : UInt64} {cas fresh : ℕ} (h : d.Fresh k fresh) : d.Accepts k cas →
      Served d clock (.setSharedData k x cas) (.result .Ok) (d.write k x fresh h)

theorem Reply.served {d d' : SharedData Key UInt64} {clock : UInt64} {reply : Reply}
    {call : HostCall} {ans : Answer} (h : reply.answer d clock call = some (ans, d')) :
    Served d clock call ans d' := by
  cases reply with
  | serve fresh =>
    cases call with
    | getSharedData k =>
      simp only [Reply.answer, Option.some.injEq, Prod.mk.injEq] at h
      obtain ⟨rfl, rfl⟩ := h
      cases hc : d.cell k with
      | none => exact .notRead _ (by simp)
      | some c => exact .read c hc
    | setSharedData k x cas =>
      simp only [Reply.answer] at h
      split_ifs at h with hacc hf
      · cases h; exact .accepted hf hacc
      · cases h; exact .refused _ (by simp)
    | getCurrentTimeNanoseconds => cases h; exact .time
  | fail r =>
    cases call with
    | getCurrentTimeNanoseconds => cases h
    | getSharedData k =>
      simp only [Reply.answer] at h
      split_ifs at h with hr
      cases h; exact .notRead r hr
    | setSharedData k x cas =>
      simp only [Reply.answer] at h
      split_ifs at h with hr
      cases h; exact .refused r hr

theorem tick_of_next {cfg : Config} {s s' : State V} {now : UInt64}
    (h : (machine cfg).next s (.tick now) = some s') :
    s.clock ≤ now ∧ s' = { s with clock := now } := by
  simp only [machine] at h
  split_ifs at h with ht
  cases h
  exact ⟨ht, rfl⟩

theorem call_of_next {cfg : Config} {s s' : State V} {v : V} {f : Fn}
    (h : (machine cfg).next s (.call v f) = some s') :
    (s.vm v).pc = .idle ∧ f.allowed (s.vm v).initialized = true ∧
      s'.vm = Function.update s.vm v ⟨f.start, (s.vm v).initialized⟩ ∧ s'.data = s.data ∧
      s'.clock = s.clock ∧ s'.log = .called v f :: s.log := by
  simp only [machine] at h
  split_ifs at h with hv
  cases h
  exact ⟨hv.1, hv.2, rfl, rfl, rfl, rfl⟩

/-- The step of a VM is the host call at its program point, served in one of these ways. -/
theorem served_of_next {cfg : Config} {s s' : State V} {v : V} {reply : Reply}
    (h : (machine cfg).next s (.host v reply) = some s') :
    ∃ call ans d, hostCall cfg (s.vm v).pc = some call ∧ Served s.data s.clock call ans d ∧
      s' = s.advance cfg v call ans d := by
  obtain ⟨call, hcall, h⟩ := Option.bind_eq_some_iff.1 h
  obtain ⟨⟨ans, d⟩, hans, rfl⟩ := Option.map_eq_some_iff.1 h
  exact ⟨call, ans, d, hcall, Reply.served hans, rfl⟩

end LocalRateLimit

end WasmExtensions
