import WasmExtensions.Assignments.Basic
import WasmExtensions.OpenPolicyAgent.Requests

/-!
# The configurations of the policy filter

`parseConfiguration` sets its members one after the other while it reads a text, and a text that is
rejected leaves what was read before.  Over a whole run, each member has the value of the last text
that was read so far, accepted or not.  The duration is read last, so it comes from accepted texts
only; but an accepted text that does not name it leaves the one that is in force.

* `serviceHost`, `clusterName`, `validSec` : what is read of a text.
* `configured_by_last_texts` : **the members after a run, and where the calls go.**
* `rejected_keeps_iff` : **when a rejected configuration changes nothing.**
* `unnamed_duration_uncached` : **a filter that was never given a duration does not serve from its
  cache**, unless time goes back.
-/

namespace WasmExtensions

namespace OpenPolicyAgent

/-! ### What a text says -/

section

variable (lib : JsonLibrary)

/-- The text of a field; nothing if the field is missing or ill-typed. -/
def stringField (j : Json) (field : Bytes) : Option Bytes :=
  match (j.find field).map jsonValueAsString with
  | some (some value, .OK) => some value
  | _ => none

/-- An optional number; nothing if the field is ill-typed. -/
def optionalUint64Field (j : Json) (field : Bytes) : Option (Option UInt64) :=
  match (j.find field).map (jsonValueAsUint64 lib) with
  | some (some value, .OK) => some (some value)
  | some _ => none
  | none => some none

def serviceHost (text : Bytes) : Option Bytes :=
  (jsonParse lib text).bind fun j => stringField j (bytes "opa_service_host")

/-- The cluster is read after the host. -/
def clusterName (text : Bytes) : Option Bytes :=
  (jsonParse lib text).bind fun j =>
    (stringField j (bytes "opa_service_host")).bind fun _ =>
      stringField j (bytes "opa_cluster_name")

/-- The duration is read after the cluster; it may be missing. -/
def duration (text : Bytes) : Option (Option UInt64) :=
  (jsonParse lib text).bind fun j =>
    (stringField j (bytes "opa_service_host")).bind fun _ =>
      (stringField j (bytes "opa_cluster_name")).bind fun _ =>
        optionalUint64Field lib j (bytes "check_result_cache_valid_sec")

def accepts (text : Bytes) : Bool := (duration lib text).isSome

def validSec (text : Bytes) : Option UInt64 := (duration lib text).join

/-- The members after a text was read. -/
def Root.configured (root : Root) (text : Bytes) : Root :=
  { root with
    opaHost := (serviceHost lib text).getD root.opaHost
    opaCluster := (clusterName lib text).getD root.opaCluster
    cacheValidForSec := (validSec lib text).getD root.cacheValidForSec }

end

/-- The duration for which decisions are kept, in nanoseconds. -/
def durationInForce (lib : JsonLibrary) (texts : List Bytes) : UInt64 :=
  if texts.any (accepts lib) then latest (validSec lib) texts 0 * 1000000000 else 10000000000

variable {lib : JsonLibrary} {stdHash : Bytes → UInt64} {root : Root} {text : Bytes}

theorem parseConfiguration_eq : root.parseConfiguration lib text =
    (accepts lib text, root.configured lib text) := by
  unfold Root.parseConfiguration Root.configured accepts serviceHost clusterName validSec duration
    stringField optionalUint64Field
  cases jsonParse lib text with
  | none => rfl
  | some j =>
    dsimp only [Option.bind_some]
    rcases (j.find (bytes "opa_service_host")).map jsonValueAsString with
      _ | ⟨_ | host, _ | _ | _ | _ | _⟩
    case some.some.some.OK =>
      dsimp only [Option.bind_some]
      rcases (j.find (bytes "opa_cluster_name")).map jsonValueAsString with
        _ | ⟨_ | cluster, _ | _ | _ | _ | _⟩
      case some.some.OK =>
        dsimp only [Option.bind_some]
        rcases (j.find (bytes "check_result_cache_valid_sec")).map (jsonValueAsUint64 lib) with
          _ | ⟨_ | sec, _ | _ | _ | _ | _⟩ <;> rfl
      all_goals rfl
    all_goals rfl

theorem onConfigure_eq : root.onConfigure lib text =
    (accepts lib text,
      if accepts lib text then
        { root.configured lib text with
          cache := root.cache.setValidDuration (root.configured lib text).cacheValidForSec }
      else root.configured lib text) := by
  unfold Root.onConfigure
  rw [parseConfiguration_eq]
  cases accepts lib text with
  | false => rfl
  | true =>
    dsimp only
    rw [if_pos rfl]
    rfl

/-! ### What requests leave -/

namespace ResultCache

variable {c c' : ResultCache} {hash timestamp : UInt64}

theorem setValidDuration_zero : (c.setValidDuration 0).validForNanosec = 0 := by
  unfold setValidDuration
  dsimp only
  exact UInt64.zero_mul

theorem validForNanosec_use (h : c.use hash = some c') :
    c'.validForNanosec = c.validForNanosec := by
  obtain ⟨c₁, hmake, h⟩ := Option.bind_eq_some_iff.1 h
  cases h
  unfold makeRoom at hmake
  split at hmake
  · obtain ⟨recent, -, hmake⟩ := Option.bind_eq_some_iff.1 hmake
    cases hmake
    rfl
  · split at hmake
    · obtain ⟨back, -, hmake⟩ := Option.bind_eq_some_iff.1 hmake
      obtain ⟨recent, -, hmake⟩ := Option.bind_eq_some_iff.1 hmake
      cases hmake
      rfl
    · cases hmake
      rfl

theorem validForNanosec_add {result : Bool} (h : c.add hash result timestamp = some c') :
    c'.validForNanosec = c.validForNanosec := by
  obtain ⟨c₁, huse, h⟩ := Option.bind_eq_some_iff.1 h
  cases h
  show c₁.validForNanosec = c.validForNanosec
  exact validForNanosec_use huse

theorem validForNanosec_lookup {allowed : Option Bool}
    (h : c.lookup hash timestamp = some (allowed, c')) :
    c'.validForNanosec = c.validForNanosec := by
  unfold lookup at h
  split at h
  · cases h
    rfl
  · split at h
    · obtain ⟨c₁, huse, h⟩ := Option.bind_eq_some_iff.1 h
      obtain ⟨entry', -, h⟩ := Option.bind_eq_some_iff.1 h
      cases h
      exact validForNanosec_use huse
    · obtain ⟨c₁, hdrop, h⟩ := Option.bind_eq_some_iff.1 h
      cases h
      obtain ⟨it, -, hdrop⟩ := Option.bind_eq_some_iff.1 hdrop
      obtain ⟨recent, -, hdrop⟩ := Option.bind_eq_some_iff.1 hdrop
      cases hdrop
      rfl

end ResultCache

/-- The configured members are the same. -/
structure SameConfiguration (root root' : Root) : Prop where
  host : root'.opaHost = root.opaHost
  cluster : root'.opaCluster = root.opaCluster
  validSec : root'.cacheValidForSec = root.cacheValidForSec
  inForce : root'.cache.validForNanosec = root.cache.validForNanosec

theorem sameConfiguration_check {attributes : Attributes} {now : UInt64} {callResult : WasmResult}
    {c : Root.Checked} (h : root.check lib stdHash attributes now callResult = .ok c) :
    SameConfiguration root c.root := by
  have hvalid : c.root.cache.validForNanosec = root.cache.validForNanosec := by
    have hcache {result : ResultCache.CheckResult} {root' : Root}
        (h : root.checkCache stdHash attributes.payload now = some (result, root')) :
        root'.cache.validForNanosec = root.cache.validForNanosec := by
      obtain ⟨⟨result₁, cache⟩, hcheck, h⟩ := Option.bind_eq_some_iff.1 h
      obtain ⟨⟨allowed, cache₁⟩, hlookup, hcheck⟩ := Option.bind_eq_some_iff.1 hcheck
      cases hcheck
      dsimp only at h
      split at h <;> cases h <;> exact ResultCache.validForNanosec_lookup hlookup
    unfold Root.check at h
    split at h
    · cases h
    · rename_i hroot
      cases h
      exact hcache hroot
    · rename_i hroot
      cases h
      exact hcache hroot
    · rename_i hroot
      split at h
      · cases h
      · cases h
        exact hcache hroot
  cases Root.check_spec h with
  | hit e he hvalid' hcall hstatus haction hroot =>
    rw [hroot]
    exact ⟨rfl, rfl, rfl, hvalid⟩
  | miss body hdump hcall hstatus haction hroot =>
    rw [hroot]
    exact ⟨rfl, rfl, rfl, hvalid⟩

variable {S : Type*} [DecidableEq S] {st st' : FilterState S}

/-- The texts that a run configures the filter with. -/
def configurations (ls : List (FilterLabel S)) : List Bytes :=
  ls.filterMap fun
    | .configure text => some text
    | _ => none

omit [DecidableEq S] in
theorem configurations_append (ls : List (FilterLabel S)) (l : FilterLabel S) :
    configurations (ls ++ [l]) = configurations ls ++ configurations [l] :=
  List.filterMap_append

omit [DecidableEq S] in
theorem sameConfiguration_respond (lib : JsonLibrary) (st : FilterState S) (p : Pending S)
    (body : Bytes) (now : UInt64) : SameConfiguration st.root (st.respond lib p body now).root := by
  rcases FilterState.respond_cases lib st p body now with
    ⟨-, heq⟩ | ⟨-, b, -, -, heq⟩ | ⟨-, b, root', -, hadd, heq⟩ | ⟨-, -, heq⟩ <;> rw [heq]
  · exact ⟨rfl, rfl, rfl, rfl⟩
  · exact ⟨rfl, rfl, rfl, rfl⟩
  · obtain ⟨cache, hcache, h⟩ := Option.bind_eq_some_iff.1 hadd
    cases h
    exact ⟨rfl, rfl, rfl, ResultCache.validForNanosec_add hcache⟩
  · exact ⟨rfl, rfl, rfl, rfl⟩

/-- Only configurations change the configured members. -/
theorem sameConfiguration_of_next {l : FilterLabel S} (hl : configurations [l] = [])
    (hn : (filterMachine lib stdHash).next st l = some st') :
    SameConfiguration st.root st'.root := by
  cases l with
  | configure configuration => cases hl
  | request s attributes now callResult =>
    obtain ⟨-, -, rfl⟩ := request_of_next hn
    unfold FilterState.request
    dsimp only
    split
    · exact ⟨rfl, rfl, rfl, rfl⟩
    · rename_i c hcheck
      exact sameConfiguration_check hcheck
  | delete s =>
    obtain ⟨-, rfl⟩ := delete_of_next hn
    exact ⟨rfl, rfl, rfl, rfl⟩
  | respond i body now =>
    obtain ⟨-, p, -, rfl⟩ := respond_of_next hn
    exact sameConfiguration_respond lib { st with pending := st.pending.eraseIdx i } p body now

/-! ### Runs -/

/-- The members are those of the texts, the last one first. -/
structure Configured (lib : JsonLibrary) (texts : List Bytes) (root : Root) : Prop where
  host : root.opaHost = latest (serviceHost lib) texts []
  cluster : root.opaCluster = latest (clusterName lib) texts []
  validSec : root.cacheValidForSec = latest (validSec lib) texts 0
  inForce : root.cache.validForNanosec = durationInForce lib texts

theorem Configured.same {texts : List Bytes} {root' : Root} (h : Configured lib texts root)
    (hsame : SameConfiguration root root') : Configured lib texts root' where
  host := hsame.host.trans h.host
  cluster := hsame.cluster.trans h.cluster
  validSec := hsame.validSec.trans h.validSec
  inForce := hsame.inForce.trans h.inForce

theorem validForNanosec_with (root : Root) (cache : ResultCache) :
    { root with cache := cache }.cache.validForNanosec = cache.validForNanosec :=
  rfl

/-- Only accepted texts name a duration. -/
theorem validSec_of_not_accepts (h : accepts lib text = false) : validSec lib text = none := by
  unfold accepts at h
  unfold validSec
  rw [Option.isSome_eq_false_iff, Option.isNone_iff_eq_none] at h
  rw [h]; rfl

theorem Configured.onConfigure {texts : List Bytes} (h : Configured lib texts root) (text : Bytes) :
    Configured lib (texts ++ [text]) (root.onConfigure lib text).2 := by
  have hany : (texts ++ [text]).any (accepts lib) =
      (texts.any (accepts lib) || accepts lib text) := by
    simp
  have hhost : (root.configured lib text).opaHost =
      latest (serviceHost lib) (texts ++ [text]) [] := by
    rw [latest_append, ← h.host]; rfl
  have hcluster : (root.configured lib text).opaCluster =
      latest (clusterName lib) (texts ++ [text]) [] := by
    rw [latest_append, ← h.cluster]; rfl
  have hsec : (root.configured lib text).cacheValidForSec =
      latest (OpenPolicyAgent.validSec lib) (texts ++ [text]) 0 := by
    rw [latest_append, ← h.validSec]; rfl
  rw [onConfigure_eq]
  dsimp only
  cases haccepts : accepts lib text with
  | false =>
    rw [if_neg Bool.false_ne_true]
    refine ⟨hhost, hcluster, hsec, ?_⟩
    unfold durationInForce
    rw [hany, haccepts, Bool.or_false, latest_append, validSec_of_not_accepts haccepts,
      Option.getD_none]
    exact h.inForce
  | true =>
    rw [if_pos rfl]
    refine ⟨hhost, hcluster, hsec, ?_⟩
    unfold durationInForce
    rw [hany, haccepts, Bool.or_true, if_pos rfl, ← hsec, validForNanosec_with]
    unfold ResultCache.setValidDuration
    dsimp only

theorem configured_start : Configured lib [] Root.start where
  host := rfl
  cluster := rfl
  validSec := rfl
  inForce := rfl

theorem configured_run {ls : List (FilterLabel S)}
    (hrun : (filterMachine lib stdHash).run (fun _ _ => True) .start ls = some st) :
    Configured lib (configurations ls) st.root := by
  refine Machine.run_invariant (I := fun ls (st : FilterState S) =>
    Configured lib (configurations ls) st.root) configured_start ?_ hrun
  intro ls t l t' ht hn
  rw [configurations_append]
  cases l with
  | configure text =>
    rw [configure_of_next hn]
    exact ht.onConfigure text
  | _ =>
    rw [show configurations [_] = [] from rfl, List.append_nil]
    exact ht.same (sameConfiguration_of_next rfl hn)

/-- **The members are those of the last texts that named them**, whether or not these were accepted,
and a call goes where they say. -/
theorem configured_by_last_texts {ls : List (FilterLabel S)}
    (hrun : (filterMachine lib stdHash).run (fun _ _ => True) .start ls = some st) :
    (st.root.opaHost = latest (serviceHost lib) (configurations ls) [] ∧
      st.root.opaCluster = latest (clusterName lib) (configurations ls) [] ∧
      st.root.cache.validForNanosec = durationInForce lib (configurations ls)) ∧
    ∀ s attributes now callResult st',
      (filterMachine lib stdHash).next st (.request s attributes now callResult) = some st' →
      ∀ call r, .called s call r ∈ st'.log →
        ∃ body, lib.dump attributes.payload.toJson = some body ∧ call =
          { cluster := latest (clusterName lib) (configurations ls) []
            headers := [(bytes "content-type", bytes "application/json"),
              (bytes ":path", bytes "/v1/data/test/allow"), (bytes ":method", bytes "POST"),
              (bytes ":authority", latest (serviceHost lib) (configurations ls) [])]
            body := body
            trailers := []
            timeoutMilliseconds := 5000 } := by
  have hconfigured := configured_run hrun
  refine ⟨⟨hconfigured.host, hconfigured.cluster, hconfigured.inForce⟩, ?_⟩
  intro s attributes now callResult st' hn call r hcalled
  have haccounted : Accounted lib st := accounted_of_reaches (.of_run hrun)
  obtain ⟨-, hs, rfl⟩ := request_of_next hn
  have hnew {e : Event S} (he : e ∈ st.log) (hes : e.stream = s) : False :=
    haccounted.absent e he (hes ▸ hs)
  unfold FilterState.request at hcalled
  dsimp only at hcalled
  split at hcalled
  · exact (hnew hcalled rfl).elim
  · rename_i c hcheck
    rw [afterCheck_log, List.mem_append] at hcalled
    rcases hcalled with hcalled | hcalled
    · cases Root.check_spec hcheck with
      | hit e he hvalid hcall hstatus haction hroot =>
        cases e.result <;> simp [checkEvents, hcall, haction] at hcalled
      | miss body hdump hcall hstatus haction hroot =>
        simp only [checkEvents, hcall, List.mem_cons, reduceCtorEq, List.mem_append, List.mem_map,
          and_false, exists_false, false_or, Option.toList_some, List.not_mem_nil, or_false,
          exists_eq_left, Event.called.injEq] at hcalled
        refine ⟨body, hdump, ?_⟩
        rw [← hcalled.2.1, ← hconfigured.host, ← hconfigured.cluster]; rfl
    · exact (hnew hcalled rfl).elim

/-- A configuration without a cluster. -/
def hostOnlyConfiguration : Bytes := bytes "\x7b\"opa_service_host\":\"opa\"\x7d"

/-- A configuration without a duration. -/
def unnamedDurationConfiguration : Bytes :=
  bytes "\x7b\"opa_service_host\":\"opa\",\"opa_cluster_name\":\"opa:8181\"\x7d"

/-- The JSON library on these configurations and on the texts of the server. -/
def configurationLibrary : JsonLibrary :=
  { sampleLibrary with
    parse := fun text =>
      if text = hostOnlyConfiguration then
        some (.object [(bytes "opa_service_host", .string (bytes "opa"))])
      else if text = unnamedDurationConfiguration then
        some (.object [(bytes "opa_service_host", .string (bytes "opa")),
          (bytes "opa_cluster_name", .string (bytes "opa:8181"))])
      else sampleLibrary.parse text }

/-- The host of a rejected text is called. -/
theorem configured_by_last_texts_rejected : ∃ st : FilterState ℕ,
    accepts configurationLibrary hostOnlyConfiguration = false ∧ st.root.opaHost = bytes "opa" := by
  have h : ((filterMachine configurationLibrary fun _ => 0).run (fun _ _ => True)
      (.start : FilterState ℕ) [.configure hostOnlyConfiguration]).isSome := by decide
  have hconfigured := configured_by_last_texts (Option.some_get h).symm
  exact ⟨_, by decide, hconfigured.1.1⟩

/-- **A rejected configuration changes nothing exactly if what it says about the host and the
cluster was said last.** -/
theorem rejected_keeps_iff {ls : List (FilterLabel S)}
    (hrun : (filterMachine lib stdHash).run (fun _ _ => True) .start ls = some st)
    (hrejected : accepts lib text = false) :
    (st.root.onConfigure lib text).2 = st.root ↔
      (∀ host, serviceHost lib text = some host →
        host = latest (serviceHost lib) (configurations ls) []) ∧
      ∀ cluster, clusterName lib text = some cluster →
        cluster = latest (clusterName lib) (configurations ls) [] := by
  have hconfigured := configured_run hrun
  rw [onConfigure_eq, ← hconfigured.host, ← hconfigured.cluster]
  dsimp only
  rw [hrejected, if_neg Bool.false_ne_true, Root.configured, validSec_of_not_accepts hrejected,
    Option.getD_none]
  constructor
  · intro hsame
    have hhost := congrArg Root.opaHost hsame
    have hcluster := congrArg Root.opaCluster hsame
    dsimp only at hhost hcluster
    refine ⟨fun host h => ?_, fun cluster h => ?_⟩
    · rwa [h, Option.getD_some] at hhost
    · rwa [h, Option.getD_some] at hcluster
  · rintro ⟨hhost, hcluster⟩
    have hhost' : (serviceHost lib text).getD st.root.opaHost = st.root.opaHost := by
      cases h : serviceHost lib text with
      | none => rfl
      | some host => exact hhost host h
    have hcluster' : (clusterName lib text).getD st.root.opaCluster = st.root.opaCluster := by
      cases h : clusterName lib text with
      | none => rfl
      | some cluster => exact hcluster cluster h
    rw [hhost', hcluster']

/-- A text that is rejected a second time changes nothing. -/
theorem rejected_keeps_iff_again : ∃ st : FilterState ℕ, st.root.opaHost = bytes "opa" ∧
    (st.root.onConfigure configurationLibrary hostOnlyConfiguration).2 = st.root := by
  have h : ((filterMachine configurationLibrary fun _ => 0).run (fun _ _ => True)
      (.start : FilterState ℕ) [.configure hostOnlyConfiguration]).isSome := by decide
  refine ⟨_, rfl, (rejected_keeps_iff (Option.some_get h).symm (by decide)).2 ⟨?_, ?_⟩⟩
  · intro host hhost
    exact (Option.some.inj hhost).symm
  · intro cluster hcluster
    cases hcluster

/-! ### Filters without a duration -/

/-- The time of a request is not before that of an answer. -/
def ClockForward (st : FilterState S) : FilterLabel S → Prop
  | .request _ _ now _ => ∀ s hash body t, .answered s hash body t ∈ st.log → t ≤ now
  | _ => True

/-- A filter that has just been configured for the first time. -/
def FilterState.configuredWith (lib : JsonLibrary) (text : Bytes) : FilterState S :=
  { FilterState.start with root := (Root.start.onConfigure lib text).2 }

/-- Decisions are not kept, and none has been served. -/
structure Uncached (root : Root) : Prop where
  validSec : root.cacheValidForSec = 0
  inForce : root.cache.validForNanosec = 0
  hits : root.cacheHits = 0

theorem Uncached.onConfigure (h : Uncached root)
    (hunnamed : OpenPolicyAgent.validSec lib text = none) :
    Uncached (root.onConfigure lib text).2 := by
  have hsec : (root.configured lib text).cacheValidForSec = 0 := by
    rw [Root.configured, hunnamed]
    exact h.validSec
  rw [onConfigure_eq]
  dsimp only
  cases accepts lib text with
  | false => exact ⟨hsec, h.inForce, h.hits⟩
  | true =>
    rw [if_pos rfl]
    refine ⟨hsec, ?_, h.hits⟩
    rw [validForNanosec_with, hsec, ResultCache.setValidDuration_zero]

/-- Nothing that is kept is still valid. -/
theorem Uncached.check {attributes : Attributes} {now : UInt64} {callResult : WasmResult}
    {c : Root.Checked} (h : Uncached root)
    (hentries : ∀ k e, root.cache.resultCache k = some e → e.timestamp ≤ now)
    (hcheck : root.check lib stdHash attributes now callResult = .ok c) : Uncached c.root := by
  have hsame := sameConfiguration_check hcheck
  refine ⟨hsame.validSec.trans h.validSec, hsame.inForce.trans h.inForce, ?_⟩
  cases Root.check_spec hcheck with
  | hit e he hvalid hcall hstatus haction hroot =>
    have hle := UInt64.le_iff_toNat_le.1 (hentries _ e he)
    rw [h.inForce] at hvalid
    exact absurd hvalid (Nat.not_lt.2 hle)
  | miss body hdump hcall hstatus haction hroot =>
    rw [hroot]
    exact h.hits

theorem Uncached.step {l : FilterLabel S} (h : Uncached st.root)
    (hclosed : FailsClosed lib stdHash st) (hforward : ClockForward st l)
    (hunnamed : ∀ text ∈ configurations [l], OpenPolicyAgent.validSec lib text = none)
    (hn : (filterMachine lib stdHash).next st l = some st') : Uncached st'.root := by
  cases l with
  | configure text =>
    rw [configure_of_next hn]
    exact h.onConfigure (hunnamed text List.mem_cons_self)
  | request s attributes now callResult =>
    obtain ⟨-, -, rfl⟩ := request_of_next hn
    unfold FilterState.request
    dsimp only
    split
    · exact h
    · rename_i c hcheck
      refine h.check (fun k e he => ?_) hcheck
      obtain ⟨u, body, hmem, -⟩ := hclosed.entries k e he
      exact hforward u k body e.timestamp hmem
  | delete s =>
    obtain ⟨-, rfl⟩ := delete_of_next hn
    exact h
  | respond i body now =>
    obtain ⟨-, p, -, rfl⟩ := respond_of_next hn
    have hsame := sameConfiguration_respond lib { st with pending := st.pending.eraseIdx i } p body
      now
    obtain ⟨cache, fault, action, heq⟩ :=
      respond_spec lib { st with pending := st.pending.eraseIdx i } p body now
    refine ⟨hsame.validSec.trans h.validSec, hsame.inForce.trans h.inForce, ?_⟩
    rw [heq]
    exact h.hits

/-- **A filter that was never given a duration serves nothing from its cache**, if the time of its
host does not go back. -/
theorem unnamed_duration_uncached (haccepts : accepts lib text = true)
    (hunnamed : validSec lib text = none)
    (h : (filterMachine lib stdHash).Reaches (fun st l => ClockForward st l ∧
      ∀ text ∈ configurations [l], validSec lib text = none)
        (.configuredWith lib text : FilterState S) st) : st.root.cacheHits = 0 := by
  have hstart : Uncached (Root.start.onConfigure lib text).2 := by
    have hsec : (Root.start.configured lib text).cacheValidForSec = 0 := by
      rw [Root.configured, hunnamed]; rfl
    rw [onConfigure_eq, haccepts]
    dsimp only
    rw [if_pos rfl]
    refine ⟨hsec, ?_, rfl⟩
    rw [validForNanosec_with, hsec, ResultCache.setValidDuration_zero]
  have hclosed : FailsClosed lib stdHash (.configuredWith lib text : FilterState S) := by
    refine ⟨trivial, fun k e he => ?_, fun p hp => nomatch hp⟩
    have hentries := onConfigure_resultCache lib Root.start text
    rw [FilterState.configuredWith, hentries] at he
    cases he
  refine (h.invariant (I := fun st => FailsClosed lib stdHash st ∧ Uncached st.root)
    ⟨hclosed, hstart⟩ ?_).2.hits
  rintro st l st' ⟨hclosed, hst⟩ ⟨hforward, hnamed⟩ hn
  exact ⟨hclosed.step hn, hst.step hclosed hforward hnamed hn⟩

/-- The server has allowed a request, and the next one with the same payload is not served from the
cache. -/
theorem unnamed_duration_uncached_twice : ∃ st : FilterState ℕ,
    st.streams 1 = .alive ∧ st.root.cacheHits = 0 := by
  have h : ((filterMachine configurationLibrary fun _ => 0).run (fun _ _ => True)
      (.configuredWith configurationLibrary unnamedDurationConfiguration : FilterState ℕ)
      [.request 0 rootRequest 100 .Ok, .respond 0 allowBody 200,
       .request 1 rootRequest 300 .Ok]).isSome := rfl
  have halong : (filterMachine configurationLibrary fun _ => 0).Along
      (fun st l => ClockForward st l ∧
        ∀ text ∈ configurations [l], validSec configurationLibrary text = none)
      (.configuredWith configurationLibrary unnamedDurationConfiguration : FilterState ℕ)
      [.request 0 rootRequest 100 .Ok, .respond 0 allowBody 200,
       .request 1 rootRequest 300 .Ok] := by
    refine ⟨⟨fun _ _ _ _ h => (nomatch h), fun _ h => nomatch h⟩, fun st₁ h₁ =>
      ⟨⟨trivial, fun _ h => nomatch h⟩, fun st₂ h₂ =>
        ⟨⟨fun s hash body t ht => ?_, fun _ h => nomatch h⟩, fun _ _ => trivial⟩⟩⟩
    obtain ⟨-, -, rfl⟩ := request_of_next h₁
    obtain ⟨-, p, hp, rfl⟩ := respond_of_next h₂
    cases hp
    rcases List.mem_cons.1 ht with ht | ht
    · cases ht
    · rcases List.mem_cons.1 ht with ht | ht
      · cases ht
        decide
      · -- the events of the first request
        rcases List.mem_cons.1 ht with ht | ht
        · cases ht
        · rcases List.mem_cons.1 ht with ht | ht
          · cases ht
          · cases ht
  refine ⟨_, rfl, unnamed_duration_uncached (by decide) (by decide)
    (halong.reaches (Option.some_get h).symm)⟩

end OpenPolicyAgent

end WasmExtensions
