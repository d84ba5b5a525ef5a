import Mathlib.Data.Nat.Notation
import Mathlib.Tactic.SplitIfs

/-!
# Machines

Every component of the extensions is given a semantics as a *machine*: a state and a partial
step function.  The label of a step resolves every choice of the environment (which thread
moves, what the host answers, what the clock shows), so the step itself is a function and runs
can be evaluated.

## Main definitions

* `Machine S L` : a step function `S → L → Option S`; `none` means that the label is not possible.
* `Machine.run C s ls` : the state after the labels `ls`, checking `C` before every step.
* `Machine.Reaches C s₀ s` : some run from `s₀` whose steps all satisfy `C` ends in `s`.
* `Machine.Passes s₀ s t` : some run from `s₀` to `s` goes through `t`.
* `Machine.Along C s ls` : all steps of the run `ls` satisfy `C`; `Machine.Keeps I s ls` : the run
  does not get stuck and `I` holds throughout.  `Machine.keeps_iff_along` compares the two, and
  `Machine.along_congr` compares two conditions, `Machine.along_map` two machines.
* `Machine.outputs out s ls` : what the steps of a run put out; `Machine.outputs_invariant` relates
  it to the state that is reached.
* `History P log` : every event of a log is in the relation `P` to the events before it.
* `Machine.View` : what is seen of the runs of a machine when some of its steps are hidden.
* `Machine.Simulation` : a relation under which every step of one machine is answered by a run
  of another; `Machine.Simulation.reaches` transports whole runs.
-/

namespace WasmExtensions

/-- A machine with states `S` and step labels `L`. -/
structure Machine (S : Type*) (L : Type*) where
  /-- `next s l` : the state after the step `l` of `s`, if that step is possible. -/
  next : S → L → Option S

namespace Machine

variable {S L : Type*} (M : Machine S L)

/-- The state after the steps `ls`; `none` if a step is not possible or does not satisfy `C`. -/
def run (C : S → L → Prop) [∀ s l, Decidable (C s l)] : S → List L → Option S
  | s, [] => some s
  | s, l :: ls => if C s l then (M.next s l).bind fun s' => run C s' ls else none

/-- `s` is reached from `s₀` by finitely many steps that all satisfy `C`. -/
inductive Reaches (C : S → L → Prop) (s₀ : S) : S → Prop
  | refl : Reaches C s₀ s₀
  | step {s s' : S} {l : L} : Reaches C s₀ s → C s l → M.next s l = some s' → Reaches C s₀ s'

variable {M} {C D : S → L → Prop} {s₀ s₁ s s' : S}

namespace Reaches

theorem trans (h : M.Reaches C s₀ s₁) (h' : M.Reaches C s₁ s) : M.Reaches C s₀ s := by
  induction h' with
  | refl => exact h
  | step _ hC hn ih => exact ih.step hC hn

theorem mono (h : M.Reaches C s₀ s) (hCD : ∀ s l, C s l → D s l) : M.Reaches D s₀ s := by
  induction h with
  | refl => exact refl
  | step _ hC hn ih => exact ih.step (hCD _ _ hC) hn

theorem single {l : L} (hC : C s l) (hn : M.next s l = some s') : M.Reaches C s s' :=
  refl.step hC hn

/-- A predicate that holds initially and is kept by every step satisfying `C` holds of every
state reached by such steps. -/
theorem invariant {I : S → Prop} (h : M.Reaches C s₀ s) (h₀ : I s₀)
    (hstep : ∀ s l s', I s → C s l → M.next s l = some s' → I s') : I s := by
  induction h with
  | refl => exact h₀
  | step _ hC hn ih => exact hstep _ _ _ ih hC hn

/-- A run that evaluates is a run. -/
theorem of_run [∀ s l, Decidable (C s l)] {ls : List L} (h : M.run C s ls = some s') :
    M.Reaches C s s' := by
  induction ls generalizing s with
  | nil => cases h; exact refl
  | cons l ls ih =>
    simp only [run] at h
    split_ifs at h with hC
    obtain ⟨t, hn, ht⟩ := Option.bind_eq_some_iff.1 h
    exact (single hC hn).trans (ih ht)

/-- A run whose labels all satisfy `P`. -/
theorem of_run_of_forall {P : L → Prop} {ls : List L} (h : M.run (fun _ _ => True) s ls = some s')
    (hP : ∀ l ∈ ls, P l) : M.Reaches (fun _ l => P l) s s' := by
  induction ls generalizing s with
  | nil => cases h; exact refl
  | cons l ls ih =>
    rw [run, if_pos trivial] at h
    obtain ⟨t, hn, h⟩ := Option.bind_eq_some_iff.1 h
    exact (single (hP l List.mem_cons_self) hn).trans
      (ih h fun l' hl' => hP l' (List.mem_cons_of_mem _ hl'))

/-- The state at the end of a run that evaluates. -/
theorem of_isSome [∀ s l, Decidable (C s l)] {ls : List L} (h : (M.run C s ls).isSome) :
    M.Reaches C s ((M.run C s ls).get h) :=
  of_run (Option.some_get h).symm

end Reaches

/-- A run that goes on for a step. -/
theorem run_concat [∀ s l, Decidable (C s l)] {ls : List L} {l : L} (h : M.run C s₀ ls = some s)
    (hC : C s l) : M.run C s₀ (ls ++ [l]) = M.next s l := by
  induction ls generalizing s₀ with
  | nil =>
    cases h
    rw [List.nil_append, run, if_pos hC]
    cases M.next s l <;> rfl
  | cons l' ls ih =>
    rw [run] at h
    rw [List.cons_append, run]
    by_cases hC' : C s₀ l'
    · rw [if_pos hC'] at h ⊢
      obtain ⟨t, hn, hrun⟩ := Option.bind_eq_some_iff.1 h
      rw [hn]
      exact ih hrun
    · rw [if_neg hC'] at h
      cases h

variable (M) in
/-- Some run from `s₀` to `s` goes through `t`. -/
def Passes (s₀ s t : S) : Prop :=
  M.Reaches (fun _ _ => True) s₀ t ∧ M.Reaches (fun _ _ => True) t s

theorem Passes.next {t : S} {l : L} (h : M.Passes s₀ s t) (hn : M.next s l = some s') :
    M.Passes s₀ s' t :=
  ⟨h.1, h.2.step trivial hn⟩

/-- A predicate of a state and of the steps to it, if it holds initially and is kept by every step,
holds after every run that evaluates. -/
theorem run_invariant {I : List L → S → Prop} (h₀ : I [] s)
    (hstep : ∀ ls t l t', I ls t → M.next t l = some t' → I (ls ++ [l]) t') {ls : List L}
    (h : M.run (fun _ _ => True) s ls = some s') : I ls s' := by
  have hgeneral : ∀ ls before t, I before t → M.run (fun _ _ => True) t ls = some s' →
      I (before ++ ls) s' := by
    intro ls
    induction ls with
    | nil =>
      intro before t ht hrun
      rw [List.append_nil, ← Option.some.inj hrun]
      exact ht
    | cons l ls ih =>
      intro before t ht hrun
      rw [run, if_pos trivial] at hrun
      obtain ⟨t', hn, hrun⟩ := Option.bind_eq_some_iff.1 hrun
      rw [List.append_cons]
      exact ih _ t' (hstep before t l t' ht hn) hrun
  exact hgeneral ls [] s h₀ h

/-! ### Outputs -/

section

variable {E : Type*} {out : S → L → List E}

variable (M) in
/-- What the steps `ls` put out, where `out s l` is what the step `l` of `s` puts out. -/
def outputs (out : S → L → List E) : S → List L → List E
  | _, [] => []
  | s, l :: ls => out s l ++ (M.next s l).elim [] fun s' => outputs out s' ls

/-- A predicate of a state and of what has been put out so far, if it holds initially and is kept by
every step with a label in `C`, holds after every run of such steps. -/
theorem outputs_invariant {I : List E → S → Prop} {C : L → Prop} {es : List E} (h₀ : I es s)
    (hstep : ∀ es t l t', I es t → C l → M.next t l = some t' → I (es ++ out t l) t') {ls : List L}
    (hls : ∀ l ∈ ls, C l) (h : M.run (fun _ _ => True) s ls = some s') :
    I (es ++ M.outputs out s ls) s' := by
  induction ls generalizing s es with
  | nil =>
    cases h
    rw [outputs, List.append_nil]
    exact h₀
  | cons l ls ih =>
    rw [List.forall_mem_cons] at hls
    rw [run, if_pos trivial] at h
    obtain ⟨t, hn, hrun⟩ := Option.bind_eq_some_iff.1 h
    rw [outputs, hn, ← List.append_assoc]
    exact ih (hstep es s l t h₀ hls.1 hn) hls.2 hrun

end

/-! ### Runs along which a condition holds -/

variable (M) in
/-- Every step of the run with the labels `ls` satisfies `C`, as far as the run goes. -/
def Along (C : S → L → Prop) : S → List L → Prop
  | _, [] => True
  | s, l :: ls => C s l ∧ ∀ s', M.next s l = some s' → Along C s' ls

instance decidableAlong [∀ s l, Decidable (C s l)] : ∀ s ls, Decidable (M.Along C s ls)
  | _, [] => inferInstanceAs (Decidable True)
  | s, l :: ls =>
    have := fun s' => decidableAlong s' ls
    inferInstanceAs (Decidable (C s l ∧ ∀ s' ∈ M.next s l, M.Along C s' ls))

/-- A run along which `C` holds consists of steps that satisfy `C`. -/
theorem Along.reaches {ls : List L} (h : M.Along C s ls)
    (hrun : M.run (fun _ _ => True) s ls = some s') : M.Reaches C s s' := by
  induction ls generalizing s with
  | nil => cases hrun; exact .refl
  | cons l ls ih =>
    obtain ⟨hC, halong⟩ := h
    rw [run, if_pos trivial] at hrun
    obtain ⟨t, hn, hrun⟩ := Option.bind_eq_some_iff.1 hrun
    exact (Reaches.single hC hn).trans (ih (halong t hn) hrun)

variable (M) in
/-- The run with the labels `ls` does not get stuck, and `I` holds in all its states. -/
def Keeps (I : S → Prop) : S → List L → Prop
  | s, [] => I s
  | s, l :: ls => I s ∧ ∃ s', M.next s l = some s' ∧ Keeps I s' ls

/-- Conditions that agree on the states of an invariant hold along the same runs, if the steps
that satisfy them keep the invariant. -/
theorem along_congr {I : S → Prop}
    (hkeep : ∀ s l s', I s → D s l → M.next s l = some s' → I s')
    (hiff : ∀ s l, I s → (C s l ↔ D s l)) {ls : List L} (hs : I s) :
    M.Along C s ls ↔ M.Along D s ls := by
  induction ls generalizing s with
  | nil => exact Iff.rfl
  | cons l ls ih =>
    constructor
    · rintro ⟨hC, halong⟩
      have hD := (hiff s l hs).1 hC
      exact ⟨hD, fun s' hn => (ih (hkeep s l s' hs hD hn)).1 (halong s' hn)⟩
    · rintro ⟨hD, halong⟩
      exact ⟨(hiff s l hs).2 hD, fun s' hn => (ih (hkeep s l s' hs hD hn)).2 (halong s' hn)⟩

/-- A condition on a part of the state holds along the runs of a machine of which that part makes
the same steps. -/
theorem along_map {T : Type*} {N : Machine T L} {f : T → S} {t : T}
    (hf : ∀ t l, (N.next t l).map f = M.next (f t) l) {ls : List L} :
    N.Along (fun t l => C (f t) l) t ls ↔ M.Along C (f t) ls := by
  induction ls generalizing t with
  | nil => exact Iff.rfl
  | cons l ls ih =>
    refine and_congr Iff.rfl ?_
    rw [← hf t l]
    cases N.next t l with
    | none => exact iff_of_true (fun t' h => nomatch h) (fun s' h => nomatch h)
    | some t' =>
      constructor
      · rintro h s' hs'
        rw [← Option.some.inj hs']
        exact ih.1 (h t' rfl)
      · rintro h t'' ht''
        rw [← Option.some.inj ht'']
        exact ih.2 (h (f t') rfl)

theorem Keeps.start {I : S → Prop} {ls : List L} (h : M.Keeps I s ls) : I s := by
  cases ls with
  | nil => exact h
  | cons l ls => exact h.1

/-- If `C` is what it takes for a step to go through and to keep the invariant, then the runs that
keep the invariant are those along which `C` holds. -/
theorem keeps_iff_along {I : S → Prop}
    (hstep : ∀ s l, I s → ((∃ s', M.next s l = some s' ∧ I s') ↔ C s l)) {ls : List L} (hs : I s) :
    M.Keeps I s ls ↔ M.Along C s ls := by
  induction ls generalizing s with
  | nil => exact iff_of_true hs trivial
  | cons l ls ih =>
    constructor
    · rintro ⟨-, s', hn, hkeeps⟩
      refine ⟨(hstep s l hs).1 ⟨s', hn, hkeeps.start⟩, fun s'' hn' => ?_⟩
      obtain rfl : s' = s'' := Option.some.inj (hn.symm.trans hn')
      exact (ih hkeeps.start).1 hkeeps
    · rintro ⟨hC, halong⟩
      obtain ⟨s', hn, hs'⟩ := (hstep s l hs).2 hC
      exact ⟨hs, s', hn, (ih hs').2 (halong s' hn)⟩

/-- If `J` holds anyway and `C` is what it takes for a step to keep the invariant, then the
invariant holds throughout a run exactly if `C` holds along it. -/
theorem keeps_iff_along_of_run {I J : S → Prop}
    (hJ : ∀ s l s', J s → M.next s l = some s' → J s')
    (hstep : ∀ s l s', J s → I s → M.next s l = some s' → (I s' ↔ C s l)) {ls : List L}
    (hjs : J s) (his : I s) (hrun : M.run (fun _ _ => True) s ls = some s') :
    M.Keeps I s ls ↔ M.Along C s ls := by
  induction ls generalizing s with
  | nil => exact iff_of_true his trivial
  | cons l ls ih =>
    rw [run, if_pos trivial] at hrun
    obtain ⟨t, hn, hrun⟩ := Option.bind_eq_some_iff.1 hrun
    have hiff := hstep s l t hjs his hn
    have ih (hit : I t) := ih (hJ s l t hjs hn) hit hrun
    constructor
    · rintro ⟨-, t', hn', hkeeps⟩
      obtain rfl : t = t' := Option.some.inj (hn.symm.trans hn')
      refine ⟨hiff.1 hkeeps.start, fun t' hn' => ?_⟩
      obtain rfl : t = t' := Option.some.inj (hn.symm.trans hn')
      exact (ih hkeeps.start).1 hkeeps
    · rintro ⟨hC, halong⟩
      exact ⟨his, t, hn, (ih (hiff.2 hC)).2 (halong t hn)⟩

/-! ### Simulation -/

/-- `R` relates the states of `M` to those of `N` so that every step of `M` satisfying `C` is
answered by a run of `N` whose steps satisfy `D`. -/
def Simulation {T K : Type*} (M : Machine S L) (C : S → L → Prop) (N : Machine T K)
    (D : T → K → Prop) (R : S → T → Prop) : Prop :=
  ∀ s l s' t, R s t → C s l → M.next s l = some s' → ∃ t', N.Reaches D t t' ∧ R s' t'

theorem Simulation.reaches {T K : Type*} {N : Machine T K} {D : T → K → Prop}
    {R : S → T → Prop} {t₀ : T} (hR : M.Simulation C N D R) (h₀ : R s₀ t₀)
    (h : M.Reaches C s₀ s) : ∃ t, N.Reaches D t₀ t ∧ R s t := by
  induction h with
  | refl => exact ⟨t₀, .refl, h₀⟩
  | step _ hC hn ih =>
    obtain ⟨t, ht, hst⟩ := ih
    obtain ⟨t', ht', hst'⟩ := hR _ _ _ _ hst hC hn
    exact ⟨t', ht.trans ht', hst'⟩

/-! ### Views -/

/-- `R` relates the states of `M` to those of `N` so that every step of `M` with a label in `C` is
one that `f` does not show, and changes nothing for `N`, or is shown and made by `N` as well. -/
structure View {T K : Type*} (M : Machine S L) (C : L → Prop) (N : Machine T K)
    (f : L → Option K) (R : S → T → Prop) : Prop where
  hidden : ∀ s l s' t, R s t → C l → M.next s l = some s' → f l = none → R s' t
  shown : ∀ s l s' t k, R s t → C l → M.next s l = some s' → f l = some k →
    ∃ t', N.next t k = some t' ∧ R s' t'

/-- **A run is seen through a view as the run of what is shown.** -/
theorem View.run {T K : Type*} {N : Machine T K} {C : L → Prop} {f : L → Option K}
    {R : S → T → Prop} {t : T} (h : M.View C N f R) {ls : List L} (hls : ∀ l ∈ ls, C l)
    (hst : R s t) (hrun : M.run (fun _ _ => True) s ls = some s') :
    ∃ t', N.run (fun _ _ => True) t (ls.filterMap f) = some t' ∧ R s' t' := by
  induction ls generalizing s t with
  | nil =>
    cases hrun
    exact ⟨t, rfl, hst⟩
  | cons l ls ih =>
    rw [List.forall_mem_cons] at hls
    rw [Machine.run, if_pos trivial] at hrun
    obtain ⟨s₁, hn, hrun⟩ := Option.bind_eq_some_iff.1 hrun
    cases hf : f l with
    | none =>
      rw [List.filterMap_cons_none hf]
      exact ih hls.2 (h.hidden s l s₁ t hst hls.1 hn hf) hrun
    | some k =>
      obtain ⟨t₁, hn', hst'⟩ := h.shown s l s₁ t k hst hls.1 hn hf
      obtain ⟨t', hrun', hR⟩ := ih hls.2 hst' hrun
      rw [List.filterMap_cons_some hf, Machine.run, if_pos trivial, hn']
      exact ⟨t', hrun', hR⟩

end Machine

/-- Every event of a history (latest event first) is in the relation `P` to its past. -/
def History {E : Type*} (P : E → List E → Prop) : List E → Prop
  | [] => True
  | e :: past => P e past ∧ History P past

namespace History

variable {E : Type*} {P : E → List E → Prop} {e : E} {es past : List E}

/-- Events that are in the relation to every past extend a history. -/
theorem append (h : History P past) (hes : ∀ e ∈ es, ∀ past, P e past) :
    History P (es ++ past) := by
  induction es with
  | nil => exact h
  | cons e es ih =>
    rw [List.forall_mem_cons] at hes
    exact ⟨hes.1 _, ih hes.2⟩

/-- An event in the middle of a history. -/
theorem of_append (h : History P (es ++ e :: past)) : P e past := by
  induction es with
  | nil => exact h.1
  | cons e' es ih => exact ih h.2

end History

end WasmExtensions
