import Mathlib.Data.List.Basic

/-!
# Tables whose lowest free number is taken next

A table is a list of slots, free or taken by an owner; behind the list every number is free. `take`
puts an owner into the lowest free slot, `free` clears a slot. A slot that is read after one of the
two is the slot that changed, or an old one (`owner_take`, `owner_free`, `owner_put`).
-/

set_option autoImplicit false

namespace PetProject.Foundation.LowestFree

universe u

variable {α : Type u}

/-- The slots from number zero on. -/
abbrev Table (α : Type u) := List (Option α)

/-- The owner of a number. -/
def owner (t : Table α) (n : Nat) : Option α := (t[n]?).join

/-- The table with a new owner in its lowest free slot, and the number of the slot. -/
def take (a : α) : Table α → Table α × Nat
  | [] => ([some a], 0)
  | none :: rest => (some a :: rest, 0)
  | some b :: rest => (some b :: (take a rest).1, (take a rest).2 + 1)

/-- The table with a slot cleared. -/
def free (t : Table α) (n : Nat) : Table α := t.set n none

/-- The table with a taken slot given to another owner. -/
def put (t : Table α) (n : Nat) (a : α) : Table α := t.set n (some a)

@[simp] theorem owner_nil (n : Nat) : owner ([] : Table α) n = none := rfl

@[simp] theorem owner_cons_zero (o : Option α) (t : Table α) : owner (o :: t) 0 = o := rfl

@[simp] theorem owner_cons_succ (o : Option α) (t : Table α) (n : Nat) :
    owner (o :: t) (n + 1) = owner t n := rfl

/-- The number that is taken was free, and the lower ones were not. -/
theorem owner_taken (a : α) (t : Table α) :
    owner t (take a t).2 = none ∧ ∀ n < (take a t).2, owner t n ≠ none := by
  induction t with
  | nil => exact ⟨rfl, fun n hn => absurd hn (Nat.not_lt_zero n)⟩
  | cons o t ih =>
    cases o with
    | none => exact ⟨rfl, fun n hn => absurd hn (Nat.not_lt_zero n)⟩
    | some b =>
      refine ⟨ih.1, fun n hn => ?_⟩
      cases n with
      | zero => simp
      | succ n => exact ih.2 n (Nat.lt_of_succ_lt_succ hn)

theorem owner_take (a : α) (t : Table α) (n : Nat) :
    owner (take a t).1 n = if n = (take a t).2 then some a else owner t n := by
  induction t generalizing n with
  | nil => cases n <;> simp [take]
  | cons o t ih =>
    cases o with
    | none => cases n <;> simp [take]
    | some b =>
      cases n with
      | zero => simp [take]
      | succ n => simpa [take] using ih n

theorem owner_free (t : Table α) (n m : Nat) :
    owner (free t n) m = if m = n then none else owner t m := by
  unfold owner free
  by_cases h : m = n
  · subst h
    rw [if_pos rfl, List.getElem?_set, if_pos rfl]
    split <;> rfl
  · rw [if_neg h, List.getElem?_set_ne (Ne.symm h)]

theorem owner_put {t : Table α} {n : Nat} (hn : owner t n ≠ none) (a : α) (m : Nat) :
    owner (put t n a) m = if m = n then some a else owner t m := by
  unfold owner put
  by_cases h : m = n
  · subst h
    have hlt : m < t.length := by
      by_contra hge
      rw [owner, List.getElem?_eq_none (Nat.le_of_not_lt hge)] at hn
      exact hn rfl
    rw [if_pos rfl, List.getElem?_set_self hlt]
    rfl
  · rw [if_neg h, List.getElem?_set_ne (Ne.symm h)]

end PetProject.Foundation.LowestFree
