import Mathlib.Logic.Relation
import Mathlib.Data.List.Basic

/-!
# Labelled transition systems with a partial step function

A system is a step function `step : σ → ℓ → Option σ`; `none` means that the label is not enabled.
`Run ok s ls t` is a run from `s` to `t` with label sequence `ls` whose every step satisfies the
guard `ok` in the state it is taken from. The unguarded runs are `Run Always`.

The induction over runs is done once here: an invariant of one step is an invariant of every run
(`Run.invariant`), and a relation between the first and the last state that is reflexive and kept
by one step holds along every run (`Run.related`). `exec` computes the run of a label sequence, so
that a concrete run is checked by evaluation (`run_of_exec`).
-/

set_option autoImplicit false

namespace PetProject.Foundation.Transition

universe u v

variable {σ : Type u} {ℓ : Type v}

/-- The guard that every step satisfies. -/
def Always : σ → ℓ → Prop := fun _ _ => True

instance : DecidableRel (Always : σ → ℓ → Prop) := fun _ _ => isTrue trivial

/-- A finite run whose every step satisfies the guard. -/
inductive Run (step : σ → ℓ → Option σ) (ok : σ → ℓ → Prop) (s : σ) : List ℓ → σ → Prop
  | nil : Run step ok s [] s
  | snoc {ls : List ℓ} {t u : σ} {l : ℓ} :
      Run step ok s ls t → ok t l → step t l = some u → Run step ok s (ls ++ [l]) u

/-- The states that a guarded run from an initial state reaches. -/
def Reachable (step : σ → ℓ → Option σ) (ok : σ → ℓ → Prop) (init : σ → Prop) (t : σ) : Prop :=
  ∃ s ls, init s ∧ Run step ok s ls t

section Rules

variable {step : σ → ℓ → Option σ} {ok : σ → ℓ → Prop}

theorem Run.single {s t : σ} {l : ℓ} (hok : ok s l) (h : step s l = some t) :
    Run step ok s [l] t := by
  have hrun : Run step ok s ([] ++ [l]) t := Run.snoc Run.nil hok h
  exact hrun

theorem Run.append {s t u : σ} {ls ms : List ℓ} (h : Run step ok s ls t)
    (h' : Run step ok t ms u) : Run step ok s (ls ++ ms) u := by
  induction h' with
  | nil => simpa using h
  | snoc _ hok hst ih =>
    rw [← List.append_assoc]
    exact Run.snoc ih hok hst

theorem Run.mono {ok' : σ → ℓ → Prop} (himp : ∀ s l, ok s l → ok' s l) {s t : σ} {ls : List ℓ}
    (h : Run step ok s ls t) : Run step ok' s ls t := by
  induction h with
  | nil => exact Run.nil
  | snoc _ hok hst ih => exact Run.snoc ih (himp _ _ hok) hst

theorem Run.always {s t : σ} {ls : List ℓ} (h : Run step ok s ls t) : Run step Always s ls t :=
  h.mono fun _ _ _ => trivial

/-- A property that every guarded step keeps holds at the end of a run that starts with it. -/
theorem Run.invariant {I : σ → Prop}
    (hstep : ∀ s l t, I s → ok s l → step s l = some t → I t)
    {s t : σ} {ls : List ℓ} (h : Run step ok s ls t) (hs : I s) : I t := by
  induction h with
  | nil => exact hs
  | snoc _ hok hst ih => exact hstep _ _ _ ih hok hst

/-- A relation to the first state that every guarded step extends holds along a run. -/
theorem Run.related {r : σ → σ → Prop} (hrefl : ∀ s, r s s)
    (hstep : ∀ s t l u, r s t → ok t l → step t l = some u → r s u)
    {s t : σ} {ls : List ℓ} (h : Run step ok s ls t) : r s t := by
  induction h with
  | nil => exact hrefl s
  | snoc _ hok hst ih => exact hstep _ _ _ _ ih hok hst

/-- An invariant that the initial states have holds in every reachable state. -/
theorem Reachable.invariant {init : σ → Prop} {I : σ → Prop} (hinit : ∀ s, init s → I s)
    (hstep : ∀ s l t, I s → ok s l → step s l = some t → I t) {t : σ}
    (h : Reachable step ok init t) : I t := by
  obtain ⟨s, ls, hs, hrun⟩ := h
  exact hrun.invariant hstep (hinit s hs)

theorem Reachable.trans {init : σ → Prop} {s t : σ} {ls : List ℓ}
    (h : Reachable step ok init s) (hrun : Run step ok s ls t) : Reachable step ok init t := by
  obtain ⟨s₀, ms, hs₀, hms⟩ := h
  exact ⟨s₀, ms ++ ls, hs₀, hms.append hrun⟩

/-- The last step of a run. -/
theorem Run.snoc_inv {s u : σ} {ls : List ℓ} {l : ℓ} (h : Run step ok s (ls ++ [l]) u) :
    ∃ t, Run step ok s ls t ∧ ok t l ∧ step t l = some u := by
  generalize hms : ls ++ [l] = ms at h
  cases h with
  | nil => simp at hms
  | snoc hrun hok hst =>
    obtain ⟨rfl, hl⟩ := List.append_inj' hms rfl
    cases hl
    exact ⟨_, hrun, hok, hst⟩

theorem Run.nil_inv {s u : σ} (h : Run step ok s [] u) : u = s := by
  generalize hms : ([] : List ℓ) = ms at h
  cases h with
  | nil => rfl
  | snoc => simp at hms

/-- The first step of a run. -/
theorem Run.cons_inv {s u : σ} {l : ℓ} {ls : List ℓ} (h : Run step ok s (l :: ls) u) :
    ∃ t, ok s l ∧ step s l = some t ∧ Run step ok t ls u := by
  generalize hms : l :: ls = ms at h
  induction h generalizing ls with
  | nil => simp at hms
  | @snoc ks t u k hrun hok hst ih =>
    cases ks with
    | nil =>
      obtain ⟨rfl, rfl⟩ := List.cons_eq_cons.mp hms
      rw [hrun.nil_inv] at hok hst
      exact ⟨u, hok, hst, Run.nil⟩
    | cons k' ks =>
      obtain ⟨rfl, rfl⟩ := List.cons_eq_cons.mp hms
      obtain ⟨v, hfirst, hv, hrest⟩ := ih rfl
      exact ⟨v, hfirst, hv, Run.snoc hrest hok hst⟩

/-- The labels determine the last state. -/
theorem Run.deterministic {ok' : σ → ℓ → Prop} {s t u : σ} {ls : List ℓ}
    (h : Run step ok s ls t) (h' : Run step ok' s ls u) : t = u := by
  induction h generalizing u with
  | nil => exact h'.nil_inv.symm
  | snoc _ _ hst ih =>
    obtain ⟨t', hrun', -, hst'⟩ := h'.snoc_inv
    rw [ih hrun', hst'] at hst
    exact (Option.some.inj hst).symm

/-- When a property holds after a step exactly if it held before and the step satisfies a guard, it
holds at the end of a run exactly if every step of the run satisfies the guard. -/
theorem Run.guarded_iff {I P : σ → Prop}
    (hinv : ∀ s l t, I s → step s l = some t → I t)
    (hstep : ∀ s l t, I s → step s l = some t → (P t ↔ P s ∧ ok s l))
    {s t : σ} {ls : List ℓ} (h : Run step Always s ls t) (hI : I s) (hP : P s) :
    P t ↔ Run step ok s ls t := by
  induction h with
  | nil => exact ⟨fun _ => Run.nil, fun _ => hP⟩
  | snoc hrun _ hst ih =>
    have hI' := hrun.invariant (fun s l t hs _ hst => hinv s l t hs hst) hI
    rw [hstep _ _ _ hI' hst, ih]
    constructor
    · rintro ⟨hguarded, hok⟩
      exact Run.snoc hguarded hok hst
    · intro hguarded
      obtain ⟨t', hrun', hok', -⟩ := hguarded.snoc_inv
      have heq := hrun'.deterministic hrun
      subst heq
      exact ⟨hrun', hok'⟩

/-- The property holds in every state on the way, the first and the last one included. -/
def Throughout (step : σ → ℓ → Option σ) (P : σ → Prop) (s : σ) (ls : List ℓ) : Prop :=
  ∀ ms t, ms <+: ls → Run step Always s ms t → P t

theorem Throughout.of_prefix {P : σ → Prop} {s : σ} {ms ls : List ℓ}
    (h : Throughout step P s ls) (hms : ms <+: ls) : Throughout step P s ms :=
  fun ns t hns hrun => h ns t (hns.trans hms) hrun

/-- An invariant of the guarded steps holds in every state of a guarded run. -/
theorem Run.throughout {I P : σ → Prop} (hI : ∀ s, I s → P s)
    (hgood : ∀ s l t, I s → ok s l → step s l = some t → I t)
    {s t : σ} {ls : List ℓ} (h : Run step ok s ls t) (hs : I s) : Throughout step P s ls := by
  induction h with
  | nil =>
    intro ms u hms hrun
    rw [List.prefix_nil.mp hms] at hrun
    rw [hrun.nil_inv]
    exact hI s hs
  | @snoc ls t u l hrun hok hst ih =>
    intro ms v hms hv
    rcases List.prefix_concat_iff.mp hms with hlast | hbefore
    · -- the whole run
      rw [hlast] at hv
      rw [hv.deterministic (Run.snoc hrun hok hst)]
      exact hI u (hgood _ _ _ (hrun.invariant hgood hs) hok hst)
    · exact ih ms v hbefore hv

theorem Throughout.mono {P Q : σ → Prop} (himp : ∀ s, P s → Q s) {s : σ} {ls : List ℓ}
    (h : Throughout step P s ls) : Throughout step Q s ls :=
  fun ms t hms hrun => himp t (h ms t hms hrun)

/-- The rule for a step that keeps an invariant, and a property exactly if it satisfies a guard: the
property is there at the end of a run exactly if the run is guarded, and then in all its states. -/
theorem Run.guarded_spec {I P : σ → Prop}
    (hstep : ∀ s l t, I s → step s l = some t → I t ∧ (P t ↔ P s ∧ ok s l))
    {s t : σ} {ls : List ℓ} (h : Run step Always s ls t) (hI : I s) (hP : P s) :
    I t ∧ (P t ↔ Run step ok s ls t) ∧
      (Run step ok s ls t → Throughout step (fun u => I u ∧ P u) s ls) := by
  have hinv : ∀ s l t, I s → step s l = some t → I t := fun s l t hs hst => (hstep s l t hs hst).1
  refine ⟨?_, ?_, fun hguarded => ?_⟩
  · exact h.invariant (fun s l t hs _ hst => hinv s l t hs hst) hI
  · exact h.guarded_iff hinv (fun s l t hs hst => (hstep s l t hs hst).2) hI hP
  · refine hguarded.throughout (fun _ hs => hs) ?_ ⟨hI, hP⟩
    intro s l t hs hok hst
    obtain ⟨hI', hiff⟩ := hstep s l t hs.1 hst
    exact ⟨hI', hiff.mpr ⟨hs.2, hok⟩⟩

/-- When guarded steps keep an invariant that has the property, and every other step loses the
property, the runs with the property in all their states are the guarded runs. -/
theorem Run.throughout_iff {I P : σ → Prop} (hI : ∀ s, I s → P s)
    (hgood : ∀ s l t, I s → ok s l → step s l = some t → I t)
    (hbad : ∀ s l t, I s → ¬ ok s l → step s l = some t → ¬ P t)
    {s t : σ} {ls : List ℓ} (h : Run step Always s ls t) (hs : I s) :
    Throughout step P s ls ↔ Run step ok s ls t := by
  refine ⟨fun hall => ?_, fun hguarded => hguarded.throughout hI hgood hs⟩
  induction h with
  | nil => exact Run.nil
  | @snoc ls t u l hrun _ hst ih =>
    have hguarded := ih (hall.of_prefix (List.prefix_append ls [l]))
    have ht : I t := hguarded.invariant hgood hs
    by_cases hok : ok t l
    · exact Run.snoc hguarded hok hst
    · have hu : P u := hall (ls ++ [l]) u (List.prefix_refl _) (Run.snoc hrun trivial hst)
      exact absurd hu (hbad t l u ht hok hst)

end Rules

/-! ## Computed runs -/

/-- The state after a label sequence, when every label is enabled and satisfies the guard. -/
def exec (step : σ → ℓ → Option σ) (ok : σ → ℓ → Prop) [DecidableRel ok] (s : σ) :
    List ℓ → Option σ
  | [] => some s
  | l :: ls =>
      if ok s l then
        match step s l with
        | some t => exec step ok t ls
        | none => none
      else none

theorem run_of_exec {step : σ → ℓ → Option σ} {ok : σ → ℓ → Prop} [DecidableRel ok]
    {s t : σ} {ls : List ℓ} (h : exec step ok s ls = some t) : Run step ok s ls t := by
  induction ls generalizing s with
  | nil =>
    simp only [exec, Option.some.injEq] at h
    subst h
    exact Run.nil
  | cons l ls ih =>
    by_cases hok : ok s l
    · cases hst : step s l with
      | none => simp [exec, hok, hst] at h
      | some u =>
        simp only [exec, hok, if_true, hst] at h
        exact (Run.single hok hst).append (ih h)
    · simp [exec, hok] at h

/-- A computed run whose last state passes a test. -/
theorem exec_decide_sound {step : σ → ℓ → Option σ} {ok : σ → ℓ → Prop} [DecidableRel ok]
    {P : σ → Prop} [DecidablePred P] {s : σ} {ls : List ℓ}
    (h : ((exec step ok s ls).map fun t => decide (P t)) = some true) :
    ∃ t, exec step ok s ls = some t ∧ P t := by
  obtain ⟨t, ht, hend⟩ := Option.map_eq_some_iff.mp h
  exact ⟨t, ht, of_decide_eq_true hend⟩

theorem reachable_of_exec {step : σ → ℓ → Option σ} {ok : σ → ℓ → Prop} [DecidableRel ok]
    {init : σ → Prop} {s t : σ} (hs : init s) (ls : List ℓ) (h : exec step ok s ls = some t) :
    Reachable step ok init t :=
  ⟨s, ls, hs, run_of_exec h⟩

end PetProject.Foundation.Transition
