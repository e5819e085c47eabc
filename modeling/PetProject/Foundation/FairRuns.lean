import Mathlib.Data.Nat.Init
import PetProject.Foundation.Transition

/-!
# Infinite runs and strong fairness

A `Path` is an infinite run of a partial step function. `Recurs P` says that `P` holds at
infinitely many times, and `StronglyFair π enabled done` that what is enabled at infinitely many
times is done at infinitely many times. Progress goes by a rank: `eventually_of_drops` reaches the
goal when the rank never grows before it and always drops again, and `StronglyFair.eventually` gets
the drops from one fair action.
-/

set_option autoImplicit false

namespace PetProject.Foundation.FairRuns

open PetProject.Foundation.Transition

universe u v

variable {σ : Type u} {ℓ : Type v}

/-- An infinite run. -/
structure Path (step : σ → ℓ → Option σ) where
  state : Nat → σ
  label : Nat → ℓ
  next : ∀ n, step (state n) (label n) = some (state (n + 1))

/-- The property holds at infinitely many times. -/
def Recurs (P : Nat → Prop) : Prop := ∀ n, ∃ m, n ≤ m ∧ P m

variable {step : σ → ℓ → Option σ}

/-- What is enabled infinitely often is done infinitely often. -/
def StronglyFair (π : Path step) (enabled : σ → Prop) (done : σ → ℓ → Prop) : Prop :=
  Recurs (fun n => enabled (π.state n)) → Recurs fun n => done (π.state n) (π.label n)

/-- The part of a path between two times is a run. -/
theorem Path.run (π : Path step) {m n : Nat} (h : m ≤ n) :
    ∃ ls, Run step Always (π.state m) ls (π.state n) := by
  induction n, h using Nat.le_induction with
  | base => exact ⟨[], Run.nil⟩
  | succ n _ ih =>
    obtain ⟨ls, hls⟩ := ih
    exact ⟨ls ++ [π.label n], Run.snoc hls trivial (π.next n)⟩

/-- A property that every step keeps is kept along a path. -/
theorem Path.invariant (π : Path step) {I : σ → Prop}
    (hstep : ∀ s l t, I s → step s l = some t → I t) {m n : Nat} (h : m ≤ n)
    (hm : I (π.state m)) : I (π.state n) := by
  obtain ⟨ls, hls⟩ := π.run h
  exact hls.invariant (fun s l t hs _ hst => hstep s l t hs hst) hm

/-- What is enabled at no late time is fair. -/
theorem StronglyFair.of_never {π : Path step} {enabled : σ → Prop} {done : σ → ℓ → Prop} {n₀ : Nat}
    (h : ∀ n, n₀ ≤ n → ¬ enabled (π.state n)) : StronglyFair π enabled done := by
  intro hrec
  obtain ⟨n, hn, hen⟩ := hrec n₀
  exact absurd hen (h n hn)

section Progress

variable {goal : Nat → Prop} {rank : Nat → Nat} {n₀ : Nat}

/-- A rank that does not grow before the goal is no larger later. -/
theorem rank_le (hmono : ∀ n, n₀ ≤ n → ¬ goal n → rank (n + 1) ≤ rank n)
    (hnone : ∀ n, n₀ ≤ n → ¬ goal n) {m n : Nat} (hm : n₀ ≤ m) (h : m ≤ n) : rank n ≤ rank m := by
  induction n, h using Nat.le_induction with
  | base => exact Nat.le_refl _
  | succ n hmn ih =>
    have hn := Nat.le_trans hm hmn
    exact Nat.le_trans (hmono n hn (hnone n hn)) ih

/-- A rank that is lower at a later time has dropped in between. -/
theorem exists_drop {m n : Nat} (h : m ≤ n) (hlt : rank n < rank m) :
    ∃ k, m ≤ k ∧ k < n ∧ rank (k + 1) < rank k := by
  induction n, h using Nat.le_induction with
  | base => exact absurd hlt (Nat.lt_irrefl _)
  | succ n hmn ih =>
    by_cases hlast : rank (n + 1) < rank n
    · exact ⟨n, hmn, Nat.lt_succ_self n, hlast⟩
    · obtain ⟨k, hk, hkn, hdrop⟩ := ih (by omega)
      exact ⟨k, hk, by omega, hdrop⟩

/-- A rank that never grows and always drops again leads to the goal. -/
theorem eventually_of_drops (hmono : ∀ n, n₀ ≤ n → ¬ goal n → rank (n + 1) ≤ rank n)
    (hdrop : (∀ n, n₀ ≤ n → ¬ goal n) → Recurs fun n => rank (n + 1) < rank n) :
    ∃ n, n₀ ≤ n ∧ goal n := by
  by_contra hcon
  have hnone : ∀ n, n₀ ≤ n → ¬ goal n := fun n hn hgoal => hcon ⟨n, hn, hgoal⟩
  -- by induction on the rank at a late time
  have key : ∀ k n, n₀ ≤ n → rank n = k → False := by
    intro k
    induction k using Nat.strongRecOn with
    | ind k ih =>
      intro n hn hk
      obtain ⟨m, hnm, hm⟩ := hdrop hnone n
      have hle := rank_le hmono hnone hn hnm
      exact ih (rank (m + 1)) (by omega) (m + 1) (by omega) rfl
  exact key (rank n₀) n₀ (Nat.le_refl _) rfl

/-- When a fair action lowers the rank and stays enabled again and again, the goal is reached. -/
theorem StronglyFair.eventually {π : Path step} {enabled : σ → Prop} {done : σ → ℓ → Prop}
    (hfair : StronglyFair π enabled done) (n₀ : Nat) (goal : Nat → Prop) (rank : Nat → Nat)
    (hmono : ∀ n, n₀ ≤ n → ¬ goal n → rank (n + 1) ≤ rank n)
    (hdone : ∀ n, n₀ ≤ n → ¬ goal n → done (π.state n) (π.label n) → rank (n + 1) < rank n)
    (henabled : (∀ n, n₀ ≤ n → ¬ goal n) → Recurs fun n => enabled (π.state n)) :
    ∃ n, n₀ ≤ n ∧ goal n := by
  refine eventually_of_drops hmono fun hnone n => ?_
  obtain ⟨m, hm, hact⟩ := hfair (henabled hnone) (max n n₀)
  have hn₀ : n₀ ≤ m := Nat.le_trans (Nat.le_max_right n n₀) hm
  exact ⟨m, Nat.le_trans (Nat.le_max_left n n₀) hm, hdone m hn₀ (hnone m hn₀) hact⟩

end Progress

end PetProject.Foundation.FairRuns
