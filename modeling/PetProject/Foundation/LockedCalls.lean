import Mathlib.Algebra.BigOperators.Group.Finset.Basic
import Mathlib.Algebra.BigOperators.Ring.Finset
import Mathlib.Algebra.Order.BigOperators.Group.Finset
import Mathlib.Data.Fintype.Basic
import PetProject.Foundation.Transition

/-!
# Calls under one mutex

Threads call a body that works on a shared state step by step, and each of them holds the mutex from
the start of the body to its end. The steps of different threads interleave in any order; what they
leave is what the calls leave one after the other, in the order in which they took the mutex
(`Serial`), and that order keeps the order of each thread.

The body may be compared with an effect on an abstract state: a relation that every whole call of
the body keeps holds whenever the mutex is free. When the body has a rank that its steps lower,
every run is bounded and ends with all calls made (`length_le`, `Serial.all_made_of_stuck`).
-/

set_option autoImplicit false

namespace PetProject.Foundation.LockedCalls

open PetProject.Foundation.Transition

universe u v w x y

variable {τ : Type u} {σ : Type v} {ℓ : Type w} {γ : Type x} {ω : Type y}

/-- The body of a call: where it starts, and its next step on the shared state. -/
structure Body (σ : Type v) (ℓ : Type w) (γ : Type x) where
  start : γ → ℓ
  next : ℓ → σ → σ × Option ℓ

/-- The call `c`, begun in `s`, is at a point of the body and has made the shared state `t`. -/
inductive Body.At (b : Body σ ℓ γ) (c : γ) (s : σ) : ℓ → σ → Prop
  | start : b.At c s (b.start c) s
  | next {l l' : ℓ} {t u : σ} : b.At c s l t → b.next l t = (u, some l') → b.At c s l' u

/-- The call `c`, begun in `s`, has come to its end and has made the shared state `u`. -/
def Body.Ends (b : Body σ ℓ γ) (c : γ) (s u : σ) : Prop :=
  ∃ l t, b.At c s l t ∧ b.next l t = (u, none)

/-! ## Threads -/

inductive Progress (ℓ : Type w) (γ : Type x) where
  | waiting
  | inside (c : γ) (l : ℓ)
  /-- Behind the body, in front of the release of the mutex. -/
  | ended (c : γ)

structure Thread (ℓ : Type w) (γ : Type x) where
  progress : Progress ℓ γ
  todo : List γ

/-- `log` records the calls that were made, in the order of their turns. -/
structure State (τ : Type u) (σ : Type v) (ℓ : Type w) (γ : Type x) where
  shared : σ
  mutex : Option τ
  threads : τ → Thread ℓ γ
  log : List (τ × γ)

inductive Label (τ : Type u) where
  | lock (t : τ)
  | next (t : τ)
  | unlock (t : τ)

section Steps

variable [DecidableEq τ]

def State.set (s : State τ σ ℓ γ) (t : τ) (th : Thread ℓ γ) : State τ σ ℓ γ :=
  { s with threads := Function.update s.threads t th }

/-- One step of a thread. -/
def step (b : Body σ ℓ γ) (s : State τ σ ℓ γ) : Label τ → Option (State τ σ ℓ γ)
  | .lock t =>
      match s.threads t, s.mutex with
      | ⟨.waiting, c :: todo⟩, none =>
          some { s.set t ⟨.inside c (b.start c), todo⟩ with mutex := some t }
      | _, _ => none
  | .next t =>
      match s.threads t with
      | ⟨.inside c l, todo⟩ =>
          match b.next l s.shared with
          | (u, some l') => some { s.set t ⟨.inside c l', todo⟩ with shared := u }
          | (u, none) => some { s.set t ⟨.ended c, todo⟩ with shared := u }
      | _ => none
  | .unlock t =>
      match s.threads t with
      | ⟨.ended c, todo⟩ =>
          some { s.set t ⟨.waiting, todo⟩ with mutex := none, log := s.log ++ [(t, c)] }
      | _ => none

/-- Every thread waits with its program, and the mutex is free. -/
def initial (s : σ) (program : τ → List γ) : State τ σ ℓ γ :=
  ⟨s, none, fun t => ⟨.waiting, program t⟩, []⟩

/-! ## What a step can be -/

variable {b : Body σ ℓ γ} {s s' : State τ σ ℓ γ}

theorem step_lock {t : τ} (h : step b s (.lock t) = some s') :
    ∃ c todo, s.threads t = ⟨.waiting, c :: todo⟩ ∧ s.mutex = none ∧
      s' = { s.set t ⟨.inside c (b.start c), todo⟩ with mutex := some t } := by
  simp only [step] at h
  split at h
  · rename_i c todo hthread hmutex
    cases h
    exact ⟨c, todo, hthread, hmutex, rfl⟩
  · cases h

theorem step_next {t : τ} (h : step b s (.next t) = some s') :
    ∃ c l todo u, s.threads t = ⟨.inside c l, todo⟩ ∧
      ((∃ l', b.next l s.shared = (u, some l') ∧
          s' = { s.set t ⟨.inside c l', todo⟩ with shared := u }) ∨
        (b.next l s.shared = (u, none) ∧
          s' = { s.set t ⟨.ended c, todo⟩ with shared := u })) := by
  simp only [step] at h
  split at h
  · rename_i c l todo hthread
    split at h
    · rename_i u l' hnext
      cases h
      exact ⟨c, l, todo, u, hthread, Or.inl ⟨l', hnext, rfl⟩⟩
    · rename_i u hnext
      cases h
      exact ⟨c, l, todo, u, hthread, Or.inr ⟨hnext, rfl⟩⟩
  · cases h

theorem step_unlock {t : τ} (h : step b s (.unlock t) = some s') :
    ∃ c todo, s.threads t = ⟨.ended c, todo⟩ ∧
      s' = { s.set t ⟨.waiting, todo⟩ with mutex := none, log := s.log ++ [(t, c)] } := by
  simp only [step] at h
  split at h
  · rename_i c todo hthread
    cases h
    exact ⟨c, todo, hthread, rfl⟩
  · cases h

/-! ## The order of the turns -/

/-- The call that a thread is in. -/
def Progress.call : Progress ℓ γ → List γ
  | .waiting => []
  | .inside c _ | .ended c => [c]

/-- The calls of a thread that were made, in the order of their turns. -/
def State.made (s : State τ σ ℓ γ) (t : τ) : List γ :=
  (s.log.filter fun e => e.1 = t).map Prod.snd

/-- Where the thread that holds the mutex is, when its call was begun in `s₀`. -/
def Thread.Runs (b : Body σ ℓ γ) (s₀ shared : σ) (th : Thread ℓ γ) : Prop :=
  match th.progress with
  | .waiting => False
  | .inside c l => b.At c s₀ l shared
  | .ended c => b.Ends c s₀ shared

theorem Thread.Runs.call {s₀ shared : σ} {th : Thread ℓ γ} (h : th.Runs b s₀ shared) :
    ∃ c, th.progress.call = [c] := by
  unfold Thread.Runs at h
  cases hprogress : th.progress with
  | waiting =>
    rw [hprogress] at h
    exact h.elim
  | inside c l => exact ⟨c, rfl⟩
  | ended c => exact ⟨c, rfl⟩

/-- The abstract state after the calls of a log. -/
def after (eff : γ → ω → ω) (w₀ : ω) (log : List (τ × γ)) : ω :=
  log.foldl (fun w e => eff e.2 w) w₀

/-- The calls that are over were made one after the other; at most one more has begun. -/
structure Serial (b : Body σ ℓ γ) (r : σ → ω → Prop) (eff : γ → ω → ω) (w₀ : ω)
    (program : τ → List γ) (s : State τ σ ℓ γ) : Prop where
  order : ∀ t, s.made t ++ ((s.threads t).progress.call ++ (s.threads t).todo) = program t
  free : s.mutex = none → r s.shared (after eff w₀ s.log) ∧
    ∀ t, (s.threads t).progress = .waiting
  held : ∀ t, s.mutex = some t →
    (∃ s₀, r s₀ (after eff w₀ s.log) ∧ (s.threads t).Runs b s₀ s.shared) ∧
      ∀ t', t' ≠ t → (s.threads t').progress = .waiting

section Serial

variable {r : σ → ω → Prop} {eff : γ → ω → ω} {w₀ : ω} {program : τ → List γ}

theorem serial_initial {s₀ : σ} (h : r s₀ w₀) :
    Serial b r eff w₀ program (initial s₀ program : State τ σ ℓ γ) where
  order _ := rfl
  free _ := ⟨h, fun _ => rfl⟩
  held _ h := by cases h

theorem holder_of_progress (hs : Serial b r eff w₀ program s) {t : τ}
    (ht : (s.threads t).progress ≠ .waiting) : s.mutex = some t := by
  cases hmutex : s.mutex with
  | none => exact absurd ((hs.free hmutex).2 t) ht
  | some t' =>
    by_cases htt : t = t'
    · rw [htt]
    · exact absurd ((hs.held t' hmutex).2 t htt) ht

theorem made_concat (s : State τ σ ℓ γ) (t t' : τ) (c : γ) :
    ({ s with log := s.log ++ [(t, c)] } : State τ σ ℓ γ).made t' =
      s.made t' ++ if t' = t then [c] else [] := by
  unfold State.made
  rw [List.filter_append, List.map_append]
  by_cases h : t' = t
  · subst h
    simp
  · simp [h, Ne.symm h]

/-- A step of `t` keeps the order of all threads when it keeps that of `t`. -/
theorem order_step {t : τ}
    (hs : ∀ t, s.made t ++ ((s.threads t).progress.call ++ (s.threads t).todo) = program t)
    (ht : s'.made t ++ ((s'.threads t).progress.call ++ (s'.threads t).todo) =
      s.made t ++ ((s.threads t).progress.call ++ (s.threads t).todo))
    (hothers : ∀ t', t' ≠ t → s'.made t' = s.made t' ∧ s'.threads t' = s.threads t') (t' : τ) :
    s'.made t' ++ ((s'.threads t').progress.call ++ (s'.threads t').todo) = program t' := by
  by_cases htt : t' = t
  · rw [htt, ht, hs]
  · obtain ⟨hmade, hthread⟩ := hothers t' htt
    rw [hmade, hthread, hs]

theorem serial_lock {t : τ} (hs : Serial b r eff w₀ program s)
    (h : step b s (.lock t) = some s') : Serial b r eff w₀ program s' := by
  obtain ⟨c, todo, hthread, hmutex, rfl⟩ := step_lock h
  obtain ⟨hr, hwaiting⟩ := hs.free hmutex
  refine ⟨order_step (t := t) hs.order ?_ fun t' ht => ⟨rfl, ?_⟩, fun h => (by cases h), ?_⟩
  · simp [State.set, State.made, Progress.call, hthread]
  · simp [State.set, Function.update_of_ne ht]
  · intro t' ht'
    cases ht'
    refine ⟨⟨s.shared, hr, ?_⟩, fun t' ht => ?_⟩
    · simpa [State.set, Thread.Runs] using Body.At.start
    · simpa [State.set, Function.update_of_ne ht] using hwaiting t'

theorem serial_next {t : τ} (hs : Serial b r eff w₀ program s)
    (h : step b s (.next t) = some s') : Serial b r eff w₀ program s' := by
  obtain ⟨c, l, todo, u, hthread, hnext⟩ := step_next h
  have hmutex := holder_of_progress hs (t := t) (by rw [hthread]; nofun)
  obtain ⟨⟨s₀, hr, hruns⟩, hwaiting⟩ := hs.held t hmutex
  rw [hthread] at hruns
  -- the thread stays in its call, and the others wait
  have hkeeps {th : Thread ℓ γ} (hth : th.Runs b s₀ u) (hcall : th.progress.call = [c])
      (htodo : th.todo = todo) :
      Serial b r eff w₀ program { s.set t th with shared := u } := by
    refine ⟨order_step (t := t) hs.order ?_ fun t' ht => ⟨rfl, ?_⟩, fun h => ?_, ?_⟩
    · have hcalls : (Progress.inside c l : Progress ℓ γ).call = [c] := rfl
      simp [State.set, State.made, hcall, hcalls, htodo, hthread]
    · simp [State.set, Function.update_of_ne ht]
    · have hnone : s.mutex = none := h
      rw [hmutex] at hnone
      cases hnone
    · intro t' ht'
      have hsome : s.mutex = some t' := ht'
      rw [hmutex] at hsome
      cases hsome
      refine ⟨⟨s₀, hr, ?_⟩, fun t' ht => ?_⟩
      · simpa [State.set] using hth
      · simpa [State.set, Function.update_of_ne ht] using hwaiting t' ht
  rcases hnext with ⟨l', hnext, rfl⟩ | ⟨hnext, rfl⟩
  · exact hkeeps (Body.At.next hruns hnext) rfl rfl
  · exact hkeeps ⟨l, s.shared, hruns, hnext⟩ rfl rfl

theorem serial_unlock {t : τ} (hsim : ∀ c s u w, r s w → b.Ends c s u → r u (eff c w))
    (hs : Serial b r eff w₀ program s) (h : step b s (.unlock t) = some s') :
    Serial b r eff w₀ program s' := by
  obtain ⟨c, todo, hthread, rfl⟩ := step_unlock h
  have hmutex := holder_of_progress hs (t := t) (by rw [hthread]; nofun)
  obtain ⟨⟨s₀, hr, hruns⟩, hwaiting⟩ := hs.held t hmutex
  rw [hthread] at hruns
  refine ⟨order_step (t := t) hs.order ?_ fun t' ht => ⟨?_, ?_⟩, fun _ => ⟨?_, fun t' => ?_⟩,
    fun t' h => (by cases h)⟩
  · have hmade := made_concat s t t c
    rw [if_pos rfl] at hmade
    have hcalls : (s.threads t).progress.call = [c] := by rw [hthread]; rfl
    change ({ s with log := s.log ++ [(t, c)] } : State τ σ ℓ γ).made t ++ _ = _
    rw [hmade, hcalls]
    simp [State.set, Progress.call, hthread]
  · have hmade := made_concat s t t' c
    rwa [if_neg ht, List.append_nil] at hmade
  · simp [State.set, Function.update_of_ne ht]
  · have hafter : after eff w₀ (s.log ++ [(t, c)]) = eff c (after eff w₀ s.log) :=
      List.foldl_concat ..
    change r s.shared (after eff w₀ (s.log ++ [(t, c)]))
    rw [hafter]
    exact hsim c s₀ s.shared _ hr hruns
  · by_cases ht : t' = t
    · subst ht
      simp [State.set]
    · simpa [State.set, Function.update_of_ne ht] using hwaiting t' ht

theorem serial_step {l : Label τ} (hsim : ∀ c s u w, r s w → b.Ends c s u → r u (eff c w))
    (hs : Serial b r eff w₀ program s) (h : step b s l = some s') :
    Serial b r eff w₀ program s' := by
  cases l with
  | lock t => exact serial_lock hs h
  | next t => exact serial_next hs h
  | unlock t => exact serial_unlock hsim hs h

/-- In every state of a run the calls that are over were made one after the other. -/
theorem serial_of_run (hsim : ∀ c s u w, r s w → b.Ends c s u → r u (eff c w)) {s₀ : σ}
    (h₀ : r s₀ w₀) {ls : List (Label τ)} (h : Run (step b) Always (initial s₀ program) ls s) :
    Serial b r eff w₀ program s :=
  h.invariant (fun _ _ _ hs _ hstep => serial_step hsim hs hstep) (serial_initial h₀)

/-- The thread that holds the mutex can take a step. -/
theorem exists_step_of_held (hs : Serial b r eff w₀ program s) {t : τ} (h : s.mutex = some t) :
    ∃ l s', step b s l = some s' := by
  obtain ⟨⟨s₀, -, hruns⟩, -⟩ := hs.held t h
  cases hthread : s.threads t with
  | mk progress todo =>
    rw [hthread] at hruns
    cases progress with
    | waiting => exact hruns.elim
    | inside c l =>
      cases hnext : b.next l s.shared with
      | mk u next =>
        cases next with
        | some l' => exact ⟨.next t, _, by simp only [step, hthread, hnext]; rfl⟩
        | none => exact ⟨.next t, _, by simp only [step, hthread, hnext]; rfl⟩
    | ended c => exact ⟨.unlock t, _, by simp only [step, hthread]; rfl⟩

/-- Where no thread can take a step, all calls are over. -/
theorem Serial.all_made_of_stuck (hs : Serial b r eff w₀ program s)
    (hstuck : ∀ l, step b s l = none) : s.mutex = none ∧ ∀ t, s.made t = program t := by
  have hmutex : s.mutex = none := by
    cases hmutex : s.mutex with
    | none => rfl
    | some t =>
      obtain ⟨l, s', hstep⟩ := exists_step_of_held hs hmutex
      rw [hstuck l] at hstep
      cases hstep
  refine ⟨hmutex, fun t => ?_⟩
  have horder := hs.order t
  have hwaiting := (hs.free hmutex).2 t
  cases hthread : s.threads t with
  | mk progress todo =>
    rw [hthread] at hwaiting horder
    cases hwaiting
    cases todo with
    | nil => simpa [Progress.call] using horder
    | cons c todo =>
      have hlock := hstuck (.lock t)
      simp only [step, hthread, hmutex] at hlock
      cases hlock

end Serial

/-! ## Bounded runs -/

section Bounded

variable [Fintype τ] {rank : ℓ → Nat} {K : Nat} {program : τ → List γ}

/-- The number of steps a thread still takes, at most. -/
def Thread.work (rank : ℓ → Nat) (K : Nat) (th : Thread ℓ γ) : Nat :=
  th.todo.length * (K + 3) +
    match th.progress with
    | .waiting => 0
    | .inside _ l => rank l + 2
    | .ended _ => 1

def State.work (rank : ℓ → Nat) (K : Nat) (s : State τ σ ℓ γ) : Nat :=
  ∑ t, (s.threads t).work rank K

theorem work_set_lt {t : τ} {th : Thread ℓ γ}
    (h : th.work rank K < (s.threads t).work rank K) :
    (s.set t th).work rank K < s.work rank K := by
  refine Finset.sum_lt_sum (fun t' _ => ?_) ⟨t, Finset.mem_univ t, ?_⟩
  · by_cases ht : t' = t
    · subst ht
      simpa [State.set] using Nat.le_of_lt h
    · simp [State.set, Function.update_of_ne ht]
  · simpa [State.set] using h

theorem work_lt (hstart : ∀ c, rank (b.start c) ≤ K)
    (hnext : ∀ l l' s u, b.next l s = (u, some l') → rank l' < rank l) {l : Label τ}
    (h : step b s l = some s') : s'.work rank K < s.work rank K := by
  cases l with
  | lock t =>
    obtain ⟨c, todo, hthread, -, rfl⟩ := step_lock h
    have hc := hstart c
    refine work_set_lt (t := t) ?_
    rw [hthread]
    simp only [Thread.work, List.length_cons, Nat.succ_mul]
    omega
  | next t =>
    obtain ⟨c, l, todo, u, hthread, ⟨l', hl, rfl⟩ | ⟨-, rfl⟩⟩ := step_next h
    · have hl' := hnext l l' _ _ hl
      refine work_set_lt (t := t) ?_
      rw [hthread]
      simp only [Thread.work]
      omega
    · refine work_set_lt (t := t) ?_
      rw [hthread]
      simp only [Thread.work]
      omega
  | unlock t =>
    obtain ⟨c, todo, hthread, rfl⟩ := step_unlock h
    refine work_set_lt (t := t) ?_
    rw [hthread]
    simp only [Thread.work]
    omega

/-- Every call takes a bounded number of steps, whatever the interleaving. -/
theorem length_le (rank : ℓ → Nat) (K : Nat) (hstart : ∀ c, rank (b.start c) ≤ K)
    (hnext : ∀ l l' s u, b.next l s = (u, some l') → rank l' < rank l) {s₀ : σ}
    {ls : List (Label τ)} (h : Run (step b) Always (initial s₀ program) ls s) :
    ls.length ≤ (∑ t, (program t).length) * (K + 3) := by
  have hwork : ls.length + s.work rank K ≤
      (initial s₀ program : State τ σ ℓ γ).work rank K := by
    induction h with
    | nil => simp
    | snoc _ _ hstep ih =>
      have hlt := work_lt hstart hnext hstep
      rw [List.length_append, List.length_singleton]
      omega
  have hinitial : (initial s₀ program : State τ σ ℓ γ).work rank K =
      (∑ t, (program t).length) * (K + 3) := by
    simp [State.work, Thread.work, initial, Finset.sum_mul]
  omega

end Bounded

end Steps

end PetProject.Foundation.LockedCalls
