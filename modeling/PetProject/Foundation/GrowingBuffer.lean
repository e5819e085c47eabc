import Mathlib.Data.List.Basic

/-!
# Buffers of a capacity

A `Buffer` is a piece of memory with the elements stored at its start. Storing an element past the
capacity is an access outside of the memory (`put` and `putAll` answer `none`), so a program that
stores only what it has made room for makes no such access (`put_eq_some`, `putAll_eq_some`).
-/

set_option autoImplicit false

namespace PetProject.Foundation.GrowingBuffer

universe u

variable {α : Type u}

theorem modify_append (xs ys : List α) (i : Nat) (f : α → α) :
    (xs ++ ys).modify (xs.length + i) f = xs ++ ys.modify i f := by
  induction xs with
  | nil => rw [List.length_nil, Nat.zero_add]; rfl
  | cons x xs ih =>
    rw [List.length_cons, Nat.add_right_comm, List.cons_append, List.modify_succ_cons, ih]
    rfl

/-- The last of the elements. -/
theorem modify_append_last (xs : List α) {ys : List α} (hne : ys ≠ []) (f : α → α) :
    (xs ++ ys).modify ((xs ++ ys).length - 1) f = xs ++ ys.modify (ys.length - 1) f := by
  have hpos := List.length_pos_of_ne_nil hne
  rw [← modify_append, List.length_append]
  congr 1
  omega

structure Buffer (α : Type u) where
  /-- The elements stored so far. -/
  used : List α
  capacity : Nat
  fits : used.length ≤ capacity

namespace Buffer

/-- How many elements are stored. -/
def size (b : Buffer α) : Nat := b.used.length

def empty (capacity : Nat) : Buffer α := ⟨[], capacity, Nat.zero_le _⟩

/-- Another piece of memory with the elements of this one, as many as it has room for. -/
def resize (b : Buffer α) (capacity : Nat) : Buffer α :=
  ⟨b.used.take capacity, capacity, List.length_take_le _ _⟩

/-- Stores elements behind the others; `none` for an access outside of the memory. -/
def putAll (b : Buffer α) (xs : List α) : Option (Buffer α) :=
  if h : b.size + xs.length ≤ b.capacity then
    some ⟨b.used ++ xs, b.capacity, by rwa [List.length_append]⟩
  else none

def put (b : Buffer α) (x : α) : Option (Buffer α) := b.putAll [x]

/-- Drops the elements behind the first `n`. -/
def truncate (b : Buffer α) (n : Nat) : Buffer α :=
  ⟨b.used.take n, b.capacity, Nat.le_trans (List.length_take_le' _ _) b.fits⟩

/-- Changes the element at an index; `none` for an access to one that is not stored. -/
def modify (b : Buffer α) (i : Nat) (f : α → α) : Option (Buffer α) :=
  if i < b.size then some ⟨b.used.modify i f, b.capacity, by rw [List.length_modify]; exact b.fits⟩
  else none

theorem resize_used {b : Buffer α} {capacity : Nat} (h : b.capacity ≤ capacity) :
    (b.resize capacity).used = b.used :=
  List.take_of_length_le (Nat.le_trans b.fits h)

theorem putAll_eq_some {b : Buffer α} {xs : List α} (h : b.size + xs.length ≤ b.capacity) :
    ∃ b', b.putAll xs = some b' ∧ b'.used = b.used ++ xs ∧ b'.capacity = b.capacity := by
  unfold putAll
  rw [dif_pos h]
  exact ⟨_, rfl, rfl, rfl⟩

theorem put_eq_some {b : Buffer α} {x : α} (h : b.size < b.capacity) :
    ∃ b', b.put x = some b' ∧ b'.used = b.used ++ [x] ∧ b'.capacity = b.capacity :=
  putAll_eq_some h

theorem modify_eq_some {b : Buffer α} {i : Nat} (f : α → α) (h : i < b.size) :
    ∃ b', b.modify i f = some b' ∧ b'.used = b.used.modify i f ∧ b'.capacity = b.capacity := by
  unfold modify
  rw [if_pos h]
  exact ⟨_, rfl, rfl, rfl⟩

end Buffer

end PetProject.Foundation.GrowingBuffer
