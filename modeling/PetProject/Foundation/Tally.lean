import Mathlib

/-!
# Tallies over a list of components

`tally f l` adds a natural weight over the components of a list. A system of threads is a list of
local states, one thread changes at a time, and a counting invariant is an equation or inequality
between tallies: `tally_set` gives the change of a tally when one component is replaced, in the
additive form that linear arithmetic uses.
-/

set_option autoImplicit false

namespace PetProject.Foundation.Tally

universe u

variable {α : Type u}

/-- The sum of the weights of the components. -/
def tally (f : α → Nat) (l : List α) : Nat := (l.map f).sum

@[simp] theorem tally_nil (f : α → Nat) : tally f [] = 0 := rfl

@[simp] theorem tally_cons (f : α → Nat) (a : α) (l : List α) :
    tally f (a :: l) = f a + tally f l := by
  simp [tally]

@[simp] theorem tally_append (f : α → Nat) (l m : List α) :
    tally f (l ++ m) = tally f l + tally f m := by
  simp [tally]

/-- Replacing a component changes the tally by the difference of the two weights. -/
theorem tally_set (f : α → Nat) {l : List α} {i : Nat} {a : α} (h : l[i]? = some a) (b : α) :
    tally f (l.set i b) + f a = tally f l + f b := by
  induction l generalizing i with
  | nil => simp at h
  | cons x xs ih =>
    cases i with
    | zero =>
      simp only [List.getElem?_cons_zero, Option.some.injEq] at h
      subst h
      simp only [List.set_cons_zero, tally_cons]
      omega
    | succ i =>
      simp only [List.getElem?_cons_succ] at h
      have key := ih h
      simp only [List.set_cons_succ, tally_cons]
      omega

theorem le_tally (f : α → Nat) {l : List α} {i : Nat} {a : α} (h : l[i]? = some a) :
    f a ≤ tally f l := by
  induction l generalizing i with
  | nil => simp at h
  | cons x xs ih =>
    cases i with
    | zero =>
      simp only [List.getElem?_cons_zero, Option.some.injEq] at h
      subst h
      simp
    | succ i =>
      simp only [List.getElem?_cons_succ] at h
      have key := ih h
      simp only [tally_cons]
      omega

theorem tally_eq_zero_iff (f : α → Nat) (l : List α) : tally f l = 0 ↔ ∀ a ∈ l, f a = 0 := by
  induction l with
  | nil => simp
  | cons x xs ih => simp [ih]

/-- Two components that together weigh no more than the tally. -/
theorem add_le_tally (f : α → Nat) {l : List α} {i j : Nat} {a b : α} (hij : i ≠ j)
    (hi : l[i]? = some a) (hj : l[j]? = some b) : f a + f b ≤ tally f l := by
  induction l generalizing i j with
  | nil => simp at hi
  | cons x xs ih =>
    cases i with
    | zero =>
      cases j with
      | zero => exact absurd rfl hij
      | succ j =>
        simp only [List.getElem?_cons_zero, Option.some.injEq] at hi
        simp only [List.getElem?_cons_succ] at hj
        subst hi
        have := le_tally f hj
        simp only [tally_cons]
        omega
    | succ i =>
      cases j with
      | zero =>
        simp only [List.getElem?_cons_zero, Option.some.injEq] at hj
        simp only [List.getElem?_cons_succ] at hi
        subst hj
        have := le_tally f hi
        simp only [tally_cons]
        omega
      | succ j =>
        simp only [List.getElem?_cons_succ] at hi hj
        have := ih (by omega) hi hj
        simp only [tally_cons]
        omega

theorem exists_of_tally_pos (f : α → Nat) {l : List α} (h : 0 < tally f l) :
    ∃ (i : Nat) (a : α), l[i]? = some a ∧ 0 < f a := by
  induction l with
  | nil => simp at h
  | cons x xs ih =>
    by_cases hx : 0 < f x
    · exact ⟨0, x, rfl, hx⟩
    · obtain ⟨i, a, hi, ha⟩ := ih (by simp only [tally_cons] at h; omega)
      exact ⟨i + 1, a, by simpa using hi, ha⟩

/-- A tally of one has one component of weight one, and the others weigh nothing. -/
theorem exists_of_tally_eq_one (f : α → Nat) {l : List α} (h : tally f l = 1) :
    ∃ (i : Nat) (a : α), l[i]? = some a ∧ f a = 1 ∧
      ∀ (j : Nat) (b : α), j ≠ i → l[j]? = some b → f b = 0 := by
  obtain ⟨i, a, hi, ha⟩ := exists_of_tally_pos f (l := l) (by omega)
  have hle := le_tally f hi
  refine ⟨i, a, hi, by omega, fun j b hj hb => ?_⟩
  have := add_le_tally f (Ne.symm hj) hi hb
  omega

theorem tally_le {f g : α → Nat} {l : List α} (h : ∀ a ∈ l, f a ≤ g a) : tally f l ≤ tally g l := by
  induction l with
  | nil => exact Nat.le_refl _
  | cons x xs ih =>
    have hx := h x List.mem_cons_self
    have hxs := ih fun a ha => h a (List.mem_cons_of_mem _ ha)
    simp only [tally_cons]
    omega

/-- The weight at an index, zero outside the list. -/
def weightAt (f : α → Nat) (l : List α) (i : Nat) : Nat := (l[i]?.map f).getD 0

theorem tally_eq_sum (f : α → Nat) (l : List α) :
    tally f l = ∑ i ∈ Finset.range l.length, weightAt f l i := by
  induction l with
  | nil => rfl
  | cons x xs ih =>
    rw [tally_cons, List.length_cons, Finset.sum_range_succ', ih, Nat.add_comm]
    simp [weightAt]

/-- Distinct indices of components with a weight are no more than the tally. -/
theorem length_le_tally (f : α → Nat) {l : List α} {is : List Nat} (hnd : is.Nodup)
    (h : ∀ i ∈ is, ∃ a, l[i]? = some a ∧ 0 < f a) : is.length ≤ tally f l := by
  -- the indices are indices of the list, and each weighs at least one
  have hsub : is.toFinset ⊆ Finset.range l.length := by
    intro i hi
    obtain ⟨a, ha, -⟩ := h i (List.mem_toFinset.mp hi)
    exact Finset.mem_range.mpr (List.getElem?_eq_some_iff.mp ha).1
  have hone : ∀ i ∈ is.toFinset, 1 ≤ weightAt f l i := by
    intro i hi
    obtain ⟨a, ha, hf⟩ := h i (List.mem_toFinset.mp hi)
    simp only [weightAt, ha, Option.map_some, Option.getD_some]
    exact hf
  calc is.length = is.toFinset.card := (List.toFinset_card_of_nodup hnd).symm
    _ = ∑ _i ∈ is.toFinset, 1 := by simp
    _ ≤ ∑ i ∈ is.toFinset, weightAt f l i := Finset.sum_le_sum hone
    _ ≤ ∑ i ∈ Finset.range l.length, weightAt f l i :=
      Finset.sum_le_sum_of_subset hsub
    _ = tally f l := (tally_eq_sum f l).symm

/-- A tally of weights of at most one is no more than a list of the indices with a weight. -/
theorem tally_le_length (f : α → Nat) (hf : ∀ a, f a ≤ 1) {l : List α} {is : List Nat}
    (h : ∀ (i : Nat) (a : α), l[i]? = some a → 0 < f a → i ∈ is) : tally f l ≤ is.length := by
  have hle : ∀ i ∈ Finset.range l.length, weightAt f l i ≤ if i ∈ is then 1 else 0 := by
    intro i hi
    obtain ⟨a, ha⟩ : ∃ a, l[i]? = some a := ⟨_, List.getElem?_eq_getElem (Finset.mem_range.mp hi)⟩
    simp only [weightAt, ha, Option.map_some, Option.getD_some]
    by_cases hpos : 0 < f a
    · rw [if_pos (h i a ha hpos)]
      exact hf a
    · omega
  calc tally f l = ∑ i ∈ Finset.range l.length, weightAt f l i := tally_eq_sum f l
    _ ≤ ∑ i ∈ Finset.range l.length, (if i ∈ is then 1 else 0) := Finset.sum_le_sum hle
    _ = ((Finset.range l.length).filter (· ∈ is)).card :=
      (Finset.card_filter _ _).symm
    _ ≤ is.toFinset.card := Finset.card_le_card fun i hi =>
      List.mem_toFinset.mpr (Finset.mem_filter.mp hi).2
    _ ≤ is.length := List.toFinset_card_le is

end PetProject.Foundation.Tally
