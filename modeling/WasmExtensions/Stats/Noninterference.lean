import WasmExtensions.Stats.CacheTransparency

/-!
# Reports do not leak between requests

All reports share one vector of dimensions.  A report overwrites what describes the peer and the
request, and the results of the expressions; what it leaves is the local node, which was filled in
by the configuration.  So the vector that is built for a request depends on the configuration, on
the peer, on the request and on the expressions, but not on the reports before
(`dimensions_do_not_leak`).

The functions that fill the vector in are compared by the labels that they write (`Writes`), and
two vectors agree if they hold the same local node (`Agree`).  An empty text in it is replaced by
the first report, so the agreement is about the texts after this replacement.
-/

namespace WasmExtensions

namespace Stats

/-! ### What is written -/

/-- `f` overwrites the labels `labels`, with texts that do not depend on the vector, and nothing
else. -/
structure Writes (labels : List StandardLabels) (f : IstioDimensions → IstioDimensions) :
    Prop where
  length : ∀ d, (f d).length = d.length
  frame : ∀ d i, (∀ l ∈ labels, l.index ≠ i) → (f d)[i]? = d[i]?
  determined : ∀ d d', d.length = d'.length → ∀ l ∈ labels, (f d)[l.index]? = (f d')[l.index]?

variable {labels labels' : List StandardLabels} {f g : IstioDimensions → IstioDimensions}
  {l : StandardLabels} {value : Bytes} {d d' e e' : IstioDimensions} {outbound : Bool}
  {node : FlatNode} {request : RequestInfo} {stream stream' : StatsStream}

theorem Writes.nil : Writes [] fun d => d where
  length _ := rfl
  frame _ _ _ := rfl
  determined _ _ _ _ hl := absurd hl List.not_mem_nil

theorem Writes.assign (h : Writes labels f) :
    Writes (l :: labels) fun d => assign l value (f d) where
  length d := by rw [length_assign, h.length]
  frame d i hi := by
    rw [Stats.assign, List.getElem?_set_ne (hi l List.mem_cons_self)]
    exact h.frame d i fun l' hl' => hi l' (List.mem_cons_of_mem _ hl')
  determined d d' hlength l' hl' := by
    by_cases hl : l = l'
    · subst hl
      by_cases hlt : l.index < (f d).length
      · rw [assign_same hlt, assign_same (by rwa [h.length, ← hlength, ← h.length])]
      · have hlt' : ¬ l.index < (f d').length := by rwa [h.length, ← hlength, ← h.length]
        rw [List.getElem?_eq_none (by simpa using hlt), List.getElem?_eq_none (by simpa using hlt')]
    · rw [assign_ne hl, assign_ne hl]
      exact h.determined d d' hlength l' ((List.mem_cons.1 hl').resolve_left (Ne.symm hl))

theorem Writes.comp (hf : Writes labels f) (hg : Writes labels' g) :
    Writes (labels' ++ labels) fun d => g (f d) where
  length d := by rw [hg.length, hf.length]
  frame d i hi := by
    rw [hg.frame _ _ fun l hl => hi l (List.mem_append_left _ hl)]
    exact hf.frame _ _ fun l hl => hi l (List.mem_append_right _ hl)
  determined d d' hlength l hl := by
    have hlength' : (f d).length = (f d').length := by rw [hf.length, hf.length, hlength]
    by_cases hl' : l ∈ labels'
    · exact hg.determined _ _ hlength' l hl'
    · have hne : ∀ l' ∈ labels', l'.index ≠ l.index := fun l' hmem hindex =>
        hl' (StandardLabels.index_injective hindex ▸ hmem)
      rw [hg.frame _ _ hne, hg.frame _ _ hne]
      exact hf.determined d d' hlength l ((List.mem_append.1 hl).resolve_left hl')

/-- The labels of one end. -/
def NodeLabels.all (end_ : NodeLabels) : List StandardLabels :=
  [end_.canonicalRevision, end_.canonicalService, end_.version, end_.app, end_.cluster,
    end_.workloadNamespace, end_.workload]

theorem writes_mapNodeLabels (end_ : NodeLabels) :
    Writes end_.all (mapNodeLabels end_ node) := by
  unfold mapNodeLabels
  cases node.labels with
  | none => exact .assign <| .assign <| .assign <| .assign <| .assign <| .assign <| .assign .nil
  | some labels =>
    exact .assign <| .assign <| .assign <| .assign <| .assign <| .assign <| .assign .nil

/-- The labels that describe the peer. -/
def peerLabels (outbound : Bool) : List StandardLabels :=
  if outbound then .destinationServiceNamespace :: destinationLabels.all else sourceLabels.all

theorem writes_mapPeer : Writes (peerLabels outbound) (mapPeer outbound node) := by
  cases outbound with
  | false => exact writes_mapNodeLabels sourceLabels
  | true => exact (writes_mapNodeLabels destinationLabels).assign

/-- The labels that describe the request. -/
def requestLabels : List StandardLabels :=
  [.connectionSecurityPolicy, .responseFlags, .responseCode, .requestProtocol,
    .destinationServiceName, .destinationService, .destinationPrincipal, .sourcePrincipal]

theorem writes_mapRequest : Writes requestLabels (mapRequest request) :=
  .assign <| .assign <| .assign <| .assign <| .assign <| .assign <| .assign <| .assign .nil

theorem writes_mapRequest_mapPeer : Writes (requestLabels ++ peerLabels outbound)
    fun d => mapRequest request (mapPeer outbound node d) :=
  writes_mapPeer.comp writes_mapRequest

/-- The labels that reports leave as they are. -/
def localLabels (outbound : Bool) : List StandardLabels :=
  .reporter :: if outbound then sourceLabels.all
    else .destinationServiceNamespace :: destinationLabels.all

/-- Every label describes the local node, the peer or the request, except one that is written
last. -/
theorem mem_labels (outbound : Bool) (hl : l ≠ .grpcResponseStatus) :
    l ∈ localLabels outbound ∨ l ∈ requestLabels ++ peerLabels outbound := by
  revert l
  have h : ∀ l ∈ StandardLabels.all, l ≠ .grpcResponseStatus →
      l ∈ localLabels outbound ∨ l ∈ requestLabels ++ peerLabels outbound := by
    cases outbound <;> decide
  exact fun {l} => h l l.mem_all

theorem not_mem_labels (hl : l ∈ localLabels outbound) :
    l ∉ requestLabels ++ peerLabels outbound := by
  revert l
  cases outbound <;> decide

/-! ### Vectors with the same local node -/

/-- The vectors hold the same local node, up to the replacement of empty texts, and the same behind
the `n` expressions. -/
structure Agree (outbound : Bool) (n : ℕ) (d d' : IstioDimensions) : Prop where
  length : d.length = d'.length
  localNode : ∀ l ∈ localLabels outbound,
    d[l.index]?.map orUnknown = d'[l.index]?.map orUnknown
  behind : ∀ i, countStandardLabels + n ≤ i → d[i]? = d'[i]?

/-- Both vectors are the same, apart from the expressions. -/
def SameLabels (n : ℕ) (d d' : IstioDimensions) : Prop :=
  d.length = d'.length ∧
    ∀ i, i < countStandardLabels ∨ countStandardLabels + n ≤ i → d[i]? = d'[i]?

theorem orUnknown_orUnknown (value : Bytes) : orUnknown (orUnknown value) = orUnknown value := by
  unfold orUnknown
  split_ifs <;> rfl

@[simp] theorem length_mapUnknownIfEmpty : (mapUnknownIfEmpty d).length = d.length := by
  have hfold : ∀ labels : List StandardLabels, (labels.foldl (fun d l =>
      assign l (orUnknown (d.getD l.index [])) d) d).length = d.length := by
    intro labels
    induction labels generalizing d with
    | nil => rfl
    | cons l labels ih => rw [List.foldl_cons, ih, length_assign]
  exact hfold StandardLabels.all

theorem mapUnknownIfEmpty_behind {i : ℕ} (hi : countStandardLabels ≤ i) :
    (mapUnknownIfEmpty d)[i]? = d[i]? := by
  have hfold : ∀ labels : List StandardLabels, (labels.foldl (fun d l =>
      assign l (orUnknown (d.getD l.index [])) d) d)[i]? = d[i]? := by
    intro labels
    induction labels generalizing d with
    | nil => rfl
    | cons l labels ih =>
      have hne : l.index ≠ i := Nat.ne_of_lt (Nat.lt_of_lt_of_le l.index_lt hi)
      rw [List.foldl_cons, ih, assign, List.getElem?_set_ne hne]
  exact hfold StandardLabels.all

/-- Every position before the expressions belongs to a label. -/
theorem exists_label {i : ℕ} (hi : i < countStandardLabels) :
    ∃ l : StandardLabels, l.index = i := by
  have h : ∀ i < countStandardLabels, ∃ l ∈ StandardLabels.all, l.index = i := by decide
  obtain ⟨l, -, hl⟩ := h i hi
  exact ⟨l, hl⟩

theorem index_ne {i : ℕ} (l : StandardLabels) (hi : countStandardLabels ≤ i) : l.index ≠ i :=
  Nat.ne_of_lt (Nat.lt_of_lt_of_le l.index_lt hi)

theorem ne_index_of_localLabels (hl : l ∈ localLabels outbound) :
    ∀ l' ∈ requestLabels ++ peerLabels outbound, l'.index ≠ l.index := by
  intro l' hl' hindex
  exact not_mem_labels hl (StandardLabels.index_injective hindex ▸ hl')

section

variable {status : Bytes} {n : ℕ}

/-- What becomes of the vector once the peer and the request have been written. -/
def finish (status : Bytes) (d : IstioDimensions) : IstioDimensions :=
  assign .grpcResponseStatus status (mapUnknownIfEmpty d)

@[simp] theorem length_finish : (finish status d).length = d.length := by
  unfold finish
  simp

theorem finish_same (h : StandardLabels.grpcResponseStatus.index < d.length) :
    (finish status d)[StandardLabels.grpcResponseStatus.index]? = some status :=
  assign_same (by simpa using h)

theorem finish_get (hl : l ≠ .grpcResponseStatus) :
    (finish status d)[l.index]? = d[l.index]?.map orUnknown := by
  unfold finish
  rw [assign_ne (Ne.symm hl), mapUnknownIfEmpty_get]

theorem finish_behind {i : ℕ} (hi : countStandardLabels ≤ i) : (finish status d)[i]? = d[i]? := by
  unfold finish
  rw [assign, List.getElem?_set_ne (index_ne _ hi), mapUnknownIfEmpty_behind hi]

/-- Vectors with the same local node are the same once they are filled in. -/
theorem finish_determined (hf : Writes (requestLabels ++ peerLabels outbound) f)
    (h : Agree outbound n d d') (hd : countStandardLabels ≤ d.length) :
    SameLabels n (finish status (f d)) (finish status (f d')) := by
  refine ⟨by simp [hf.length, h.length], fun i hi => ?_⟩
  by_cases hlt : i < countStandardLabels
  · obtain ⟨l, rfl⟩ := exists_label hlt
    by_cases hl : l = .grpcResponseStatus
    · subst hl
      rw [finish_same, finish_same]
      · rw [hf.length, ← h.length]; exact Nat.lt_of_lt_of_le hlt hd
      · rw [hf.length]; exact Nat.lt_of_lt_of_le hlt hd
    · rw [finish_get hl, finish_get hl]
      rcases mem_labels outbound hl with hmem | hmem
      · rw [hf.frame _ _ (ne_index_of_localLabels hmem),
          hf.frame _ _ (ne_index_of_localLabels hmem)]
        exact h.localNode l hmem
      · rw [hf.determined d d' h.length l hmem]
  · have hle : countStandardLabels ≤ i := Nat.not_lt.1 hlt
    rw [finish_behind hle, finish_behind hle, hf.frame _ _ fun l _ => index_ne l hle,
      hf.frame _ _ fun l _ => index_ne l hle]
    exact h.behind i (hi.resolve_left hlt)

/-- Filling the vector in keeps the local node. -/
theorem finish_agree (n : ℕ) (hf : Writes (requestLabels ++ peerLabels outbound) f) :
    Agree outbound n (finish status (f d)) d := by
  refine ⟨by simp [hf.length], fun l hl => ?_, fun i hi => ?_⟩
  · have hstatus : l ≠ .grpcResponseStatus := by
      rintro rfl
      revert hl
      cases outbound <;> decide
    rw [finish_get hstatus, hf.frame _ _ (ne_index_of_localLabels hl), Option.map_map]
    congr 1
    funext value
    exact orUnknown_orUnknown value
  · have hle : countStandardLabels ≤ i := by omega
    rw [finish_behind hle, hf.frame _ _ fun l _ => index_ne l hle]

end

/-! ### The expressions -/

/-- Vectors that are the same but for the expressions from the `i`-th on are the same once these
have been evaluated. -/
theorem evaluateExpressions_determined {tokens : List UInt32} {i : ℕ}
    (hlength : d.length = d'.length)
    (hsame : ∀ j, j < countStandardLabels + i ∨ countStandardLabels + i + tokens.length ≤ j →
      d[j]? = d'[j]?)
    (houtcome : ∀ token ∈ tokens, stream.evaluateString token = stream'.evaluateString token) :
    evaluateExpressions stream i tokens d = evaluateExpressions stream' i tokens d' := by
  induction tokens generalizing i d d' with
  | nil =>
    have hd : d = d' := by
      apply List.ext_getElem?
      intro j
      exact hsame j (by simp only [List.length_nil]; omega)
    rw [hd]; rfl
  | cons token tokens ih =>
    unfold evaluateExpressions
    rw [← hlength]
    split_ifs with hlt
    · rw [houtcome token List.mem_cons_self]
      refine ih (by simp [hlength]) (fun j hj => ?_) fun token' hmem =>
        houtcome token' (List.mem_cons_of_mem _ hmem)
      by_cases hji : countStandardLabels + i = j
      · subst hji
        rw [List.getElem?_set_self hlt, List.getElem?_set_self (hlength ▸ hlt)]
      · rw [List.getElem?_set_ne hji, List.getElem?_set_ne hji]
        refine hsame j ?_
        rw [List.length_cons]
        omega
    · rfl

/-- Evaluating expressions leaves everything else. -/
theorem evaluateExpressions_frame {tokens : List UInt32} {i : ℕ}
    (h : evaluateExpressions stream i tokens d = some e) :
    e.length = d.length ∧
      ∀ j, j < countStandardLabels + i ∨ countStandardLabels + i + tokens.length ≤ j →
        e[j]? = d[j]? := by
  induction tokens generalizing i d with
  | nil => rw [Option.some.inj h]; exact ⟨rfl, fun _ _ => rfl⟩
  | cons token tokens ih =>
    unfold evaluateExpressions at h
    split_ifs at h with hlt
    obtain ⟨hlength, hframe⟩ := ih h
    refine ⟨by rw [hlength, List.length_set], fun j hj => ?_⟩
    rw [List.length_cons] at hj
    rw [hframe j (by omega), List.getElem?_set_ne (by omega)]

/-! ### Reports -/

variable {libraries : Libraries} {plugin plugin' p p₁ p₂ : PluginRootContext}
  {call call₁ call₂ : ReportCall} {r r₁ r₂ : Report}

theorem report_builds (hinit : plugin.initialized = true)
    (hpopulate : populate libraries plugin call (peerOf libraries plugin call) = some request)
    (h : report libraries plugin call = some r) :
    buildDimensions plugin call.stream (peerOf libraries plugin call).get request =
      some r.plugin.istioDimensions := by
  rw [report_of_populated hinit hpopulate] at h
  obtain ⟨d, hbuild, hrecord⟩ := Option.bind_eq_some_iff.1 h
  rw [hbuild, recordReport_frame hrecord]

/-- A report that does not build a vector leaves it. -/
theorem report_dimensions (h : report libraries plugin call = some r) :
    r.plugin.istioDimensions = plugin.istioDimensions ∨
      ∃ request, buildDimensions plugin call.stream (peerOf libraries plugin call).get request =
        some r.plugin.istioDimensions := by
  cases hpopulate : populate libraries plugin call (peerOf libraries plugin call) with
  | none =>
    rw [report_of_waiting hpopulate] at h
    exact .inl (by rw [← Option.some.inj h]; rfl)
  | some request =>
    cases hinit : plugin.initialized with
    | false =>
      rw [report_of_not_initialized hinit] at h
      exact .inl (by rw [← Option.some.inj h]; rfl)
    | true => exact .inr ⟨request, report_builds hinit hpopulate h⟩

theorem map_eq_finish (h : map outbound node request d = some e) :
    countStandardLabels ≤ d.length ∧
      e = finish (if request.requestProtocol = .GRPC then toDecimal request.grpcStatus.toNat
        else []) (mapRequest request (mapPeer outbound node d)) :=
  map_eq_some h

variable (outbound node request) in
theorem map_isSome : (map outbound node request d).isSome ↔ countStandardLabels ≤ d.length := by
  unfold map
  by_cases hlt : d.length < countStandardLabels
  · rw [if_pos hlt]
    exact iff_of_false (by simp) (Nat.not_le.2 hlt)
  · rw [if_neg hlt]
    exact iff_of_true rfl (Nat.not_lt.1 hlt)

theorem buildDimensions_agree (h : buildDimensions plugin stream node request = some e) :
    Agree plugin.outbound plugin.expressions.length e plugin.istioDimensions := by
  obtain ⟨d, hmap, heval⟩ := Option.bind_eq_some_iff.1 h
  obtain ⟨-, hd⟩ := map_eq_finish hmap
  obtain ⟨hlength, hframe⟩ := evaluateExpressions_frame heval
  have hagree : Agree plugin.outbound plugin.expressions.length d plugin.istioDimensions := by
    rw [hd]
    exact finish_agree (f := fun d => mapRequest request (mapPeer plugin.outbound node d)) _
      writes_mapRequest_mapPeer
  refine ⟨hlength.trans hagree.length, fun l hl => ?_, fun i hi => ?_⟩
  · rw [hframe _ (.inl l.index_lt)]
    exact hagree.localNode l hl
  · rw [hframe _ (.inr hi)]
    exact hagree.behind i hi

/-- What is built does not depend on more of the plugin than the configuration. -/
theorem buildDimensions_determined (houtbound : plugin'.outbound = plugin.outbound)
    (hexpressions : plugin'.expressions = plugin.expressions)
    (h : Agree plugin.outbound plugin.expressions.length plugin.istioDimensions
      plugin'.istioDimensions)
    (houtcome : ∀ token ∈ plugin.expressions,
      stream.evaluateString token = stream'.evaluateString token) :
    buildDimensions plugin stream node request = buildDimensions plugin' stream' node request := by
  unfold buildDimensions
  rw [houtbound, hexpressions]
  by_cases hlength : countStandardLabels ≤ plugin.istioDimensions.length
  · obtain ⟨e, he⟩ := Option.isSome_iff_exists.1
      ((map_isSome plugin.outbound node request).2 hlength)
    obtain ⟨e', he'⟩ := Option.isSome_iff_exists.1
      ((map_isSome plugin.outbound node request).2 (h.length ▸ hlength))
    have hsame : SameLabels plugin.expressions.length e e' := by
      rw [(map_eq_finish he).2, (map_eq_finish he').2]
      exact finish_determined (f := fun d => mapRequest request (mapPeer plugin.outbound node d))
        writes_mapRequest_mapPeer h hlength
    rw [he, he']
    exact evaluateExpressions_determined hsame.1 hsame.2 houtcome
  · have hnone : ∀ d : IstioDimensions, d.length = plugin.istioDimensions.length →
        map plugin.outbound node request d = none := by
      intro d hd
      rw [← Option.not_isSome_iff_eq_none, map_isSome, hd]
      exact hlength
    rw [hnone _ rfl, hnone _ h.length.symm]; rfl

/-- What reports leave of the plugin `p`: all but the cache and what they overwrite. -/
def Keeping (p plugin : PluginRootContext) : Prop :=
  plugin =
      { p with
        istioDimensions := plugin.istioDimensions
        metrics := plugin.metrics
        cacheHitsAccumulator := plugin.cacheHitsAccumulator } ∧
    Agree p.outbound p.expressions.length plugin.istioDimensions p.istioDimensions

theorem Agree.refl {n : ℕ} : Agree outbound n d d := ⟨rfl, fun _ _ => rfl, fun _ _ => rfl⟩

theorem Agree.symm {n : ℕ} (h : Agree outbound n d d') : Agree outbound n d' d :=
  ⟨h.length.symm, fun l hl => (h.localNode l hl).symm, fun i hi => (h.behind i hi).symm⟩

theorem Agree.trans {n : ℕ} {d'' : IstioDimensions} (h : Agree outbound n d d')
    (h' : Agree outbound n d' d'') : Agree outbound n d d'' :=
  ⟨h.length.trans h'.length, fun l hl => (h.localNode l hl).trans (h'.localNode l hl),
    fun i hi => (h.behind i hi).trans (h'.behind i hi)⟩

theorem Keeping.report (h : Keeping p plugin) (hreport : report libraries plugin call = some r) :
    Keeping p r.plugin := by
  obtain ⟨hplugin, hagree⟩ := h
  have hframe := report_frame hreport
  refine ⟨by rw [hframe, hplugin], ?_⟩
  rcases report_dimensions hreport with hsame | ⟨request, hbuild⟩
  · rw [hsame]
    exact hagree
  · have hbuilt := buildDimensions_agree hbuild
    rw [hplugin] at hbuilt
    exact hbuilt.trans hagree

theorem keeping_of_reaches (h : (reports libraries).Reaches (fun _ _ => True) p plugin) :
    Keeping p plugin := by
  refine h.invariant ⟨rfl, .refl⟩ fun plugin call plugin' hkeeping _ hnext => ?_
  obtain ⟨r, hreport, rfl⟩ := Option.map_eq_some_iff.1 hnext
  exact hkeeping.report hreport

/-- **Reports do not leak between requests.**  After any two histories of reports that follow the
same configuration, the vectors built for the same request, the same peer and the same outcomes of
the expressions are the same. -/
theorem dimensions_do_not_leak
    (h₁ : (reports libraries).Reaches (fun _ _ => True) p p₁)
    (h₂ : (reports libraries).Reaches (fun _ _ => True) p p₂) (hinit : p.initialized = true)
    (hpopulate₁ : populate libraries p₁ call₁ (peerOf libraries p₁ call₁) = some request)
    (hpopulate₂ : populate libraries p₂ call₂ (peerOf libraries p₂ call₂) = some request)
    (hpeer : (peerOf libraries p₁ call₁).get = (peerOf libraries p₂ call₂).get)
    (houtcome : ∀ token ∈ p.expressions,
      call₁.stream.evaluateString token = call₂.stream.evaluateString token)
    (hreport₁ : report libraries p₁ call₁ = some r₁)
    (hreport₂ : report libraries p₂ call₂ = some r₂) :
    r₁.plugin.istioDimensions = r₂.plugin.istioDimensions := by
  obtain ⟨hp₁, hagree₁⟩ := keeping_of_reaches h₁
  obtain ⟨hp₂, hagree₂⟩ := keeping_of_reaches h₂
  have hbuild₁ := report_builds (by rw [hp₁]; exact hinit) hpopulate₁ hreport₁
  have hbuild₂ := report_builds (by rw [hp₂]; exact hinit) hpopulate₂ hreport₂
  have hexpressions : p₁.expressions = p.expressions := by rw [hp₁]
  have houtbound : p₁.outbound = p.outbound := by rw [hp₁]
  have heq : buildDimensions p₁ call₁.stream (peerOf libraries p₁ call₁).get request =
      buildDimensions p₂ call₂.stream (peerOf libraries p₁ call₁).get request := by
    apply buildDimensions_determined
    · rw [hp₂, houtbound]
    · rw [hp₂, hexpressions]
    · rw [houtbound, hexpressions]
      exact hagree₁.trans hagree₂.symm
    · rw [hexpressions]
      exact houtcome
  rw [heq, hpeer, hbuild₂] at hbuild₁
  exact (Option.some.inj hbuild₁).symm

/-- A request of another protocol, to another code, by another principal. -/
def otherCall : ReportCall where
  stream :=
    { properties :=
        { Properties.none with
          string := fun path =>
            if path = [bytes "connection", bytes "uri_san_peer_certificate"] then
              some (bytes "spiffe://other")
            else none
          int64 := fun path =>
            if path = [bytes "response", bytes "code"] then some 403 else none }
      requestHeaders := fun key =>
        if key = bytes "content-type" then some (bytes "application/grpc") else none
      evaluateString := fun _ => none
      evaluateInt64 := fun _ => none }
  requestInfo := { startTime := 0, duration := 0 }
  endStream := true

/-- The report of a request comes to the same vector after a report of another one. -/
theorem dimensions_do_not_leak_other : ∃ p₂ r₁ r₂,
    (reports sampleLibraries).Reaches (fun _ _ => True) (.configured sampleConfiguration) p₂ ∧
    p₂.istioDimensions[StandardLabels.sourcePrincipal.index]? = some (bytes "spiffe://other") ∧
    report sampleLibraries (.configured sampleConfiguration) sampleCall = some r₁ ∧
    report sampleLibraries p₂ sampleCall = some r₂ ∧
    r₁.plugin.istioDimensions = r₂.plugin.istioDimensions := by
  have hother : ((reports sampleLibraries).run (fun _ _ => True) (.configured sampleConfiguration)
      [otherCall]).bind (fun p₂ =>
        (report sampleLibraries p₂ sampleCall).bind fun _ =>
          p₂.istioDimensions[StandardLabels.sourcePrincipal.index]?) =
      some (bytes "spiffe://other") := by
    decide +kernel
  obtain ⟨p₂, hp₂, hother⟩ := Option.bind_eq_some_iff.1 hother
  obtain ⟨r₂, hr₂, hother⟩ := Option.bind_eq_some_iff.1 hother
  have hfirst : (report sampleLibraries (.configured sampleConfiguration) sampleCall).isSome := by
    decide +kernel
  obtain ⟨r₁, hr₁⟩ := Option.isSome_iff_exists.1 hfirst
  have hreaches := Machine.Reaches.of_run hp₂
  have hkeeping := (keeping_of_reaches hreaches).1
  refine ⟨p₂, r₁, r₂, hreaches, hother, hr₁, hr₂, ?_⟩
  refine dimensions_do_not_leak .refl hreaches rfl rfl ?_ ?_ (fun _ _ => rfl) hr₁ hr₂
  · rw [hkeeping]; rfl
  · rw [hkeeping]; rfl

end Stats

end WasmExtensions
