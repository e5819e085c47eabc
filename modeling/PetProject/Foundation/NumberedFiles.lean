import Mathlib.Data.List.Pairwise
import Mathlib.Logic.Function.Basic

/-!
# Files of numbered lines

Lines carry the number under which they were produced. A file is a list of lines; the operations
append a line to a file or empty a file. `due` collects the lines that have to be in some file.

The ledger (`Ledger`) holds along every sequence of these operations: numbers are fresh, every file
is in the order of the numbers, and no number is in two files. Over it the lines that are due are
all present exactly as long as no line that is due is skipped (`not_complete_skip`) and no file
that holds a line is emptied (`complete_empty_iff`): a line that is lost once stays lost.
-/

set_option autoImplicit false

namespace PetProject.Foundation.NumberedFiles

universe u v

variable {κ : Type u} {α : Type v}

structure Line (α : Type v) where
  number : Nat
  content : α
  deriving DecidableEq

/-- The lines of every file. -/
abbrev Files (κ : Type u) (α : Type v) := κ → List (Line α)

section Operations

variable [DecidableEq κ]

/-- The line is appended to the file `k`. -/
def append (f : Files κ α) (k : κ) (l : Line α) : Files κ α := Function.update f k (f k ++ [l])

/-- The file `k` is emptied. -/
def empty (f : Files κ α) (k : κ) : Files κ α := Function.update f k []

theorem mem_append_iff {f : Files κ α} {k k' : κ} {l l' : Line α} :
    l' ∈ append f k l k' ↔ l' ∈ f k' ∨ k' = k ∧ l' = l := by
  unfold append
  by_cases hk : k' = k
  · subst hk
    simp
  · simp [hk]

theorem mem_empty_iff {f : Files κ α} {k k' : κ} {l : Line α} :
    l ∈ empty f k k' ↔ k' ≠ k ∧ l ∈ f k' := by
  unfold empty
  by_cases hk : k' = k
  · subst hk
    simp
  · simp [hk]

end Operations

/-- The lines are in the order of their numbers, without repetition. -/
def Ordered (ls : List (Line α)) : Prop := ls.Pairwise fun a b => a.number < b.number

/-- Every line that is due is in some file. -/
def Complete (due : List (Line α)) (f : Files κ α) : Prop := ∀ l ∈ due, ∃ k, l ∈ f k

/-- What holds of the files and the due lines when the numbers below `n` have been used. -/
structure Ledger (n : Nat) (due : List (Line α)) (f : Files κ α) : Prop where
  fresh : ∀ l ∈ due, l.number < n
  recorded : ∀ k, ∀ l ∈ f k, l ∈ due
  ordered : ∀ k, Ordered (f k)
  single : ∀ k k' l, l ∈ f k → l ∈ f k' → k = k'

section Rules

variable {n : Nat} {due : List (Line α)} {f : Files κ α}

theorem ledger_nil : Ledger 0 ([] : List (Line α)) (fun _ : κ => []) where
  fresh l hl := absurd hl (by simp)
  recorded _ l hl := absurd hl (by simp)
  ordered _ := List.Pairwise.nil
  single _ _ l hl := absurd hl (by simp)

/-- A number is used for a line that is not due. -/
theorem Ledger.pass (h : Ledger n due f) : Ledger (n + 1) due f where
  fresh l hl := Nat.lt_succ_of_lt (h.fresh l hl)
  recorded := h.recorded
  ordered := h.ordered
  single := h.single

/-- A number is used for a line that is due and not written. -/
theorem Ledger.skip (h : Ledger n due f) (a : α) : Ledger (n + 1) (due ++ [⟨n, a⟩]) f where
  fresh l hl := by
    rcases List.mem_append.mp hl with hold | hnew
    · exact Nat.lt_succ_of_lt (h.fresh l hold)
    · rw [List.mem_singleton.mp hnew]
      exact Nat.lt_succ_self n
  recorded k l hl := List.mem_append_left _ (h.recorded k l hl)
  ordered := h.ordered
  single := h.single

theorem Ledger.notMem (h : Ledger n due f) (k : κ) (a : α) : ⟨n, a⟩ ∉ f k := by
  intro hmem
  exact Nat.lt_irrefl n (h.fresh _ (h.recorded k _ hmem))

/-- A due line that is not written is missing, now and later. -/
theorem not_complete_skip (h : Ledger n due f) (a : α) : ¬ Complete (due ++ [⟨n, a⟩]) f := by
  intro hcomplete
  obtain ⟨k, hk⟩ := hcomplete ⟨n, a⟩ (by simp)
  exact h.notMem k a hk

variable [DecidableEq κ]

/-- A number is used for a line that is due and written. -/
theorem Ledger.append (h : Ledger n due f) (k : κ) (a : α) :
    Ledger (n + 1) (due ++ [⟨n, a⟩]) (append f k ⟨n, a⟩) where
  fresh := (h.skip a).fresh
  recorded k' l hl := by
    rcases mem_append_iff.mp hl with hold | ⟨-, rfl⟩
    · exact (h.skip a).recorded k' l hold
    · simp
  ordered k' := by
    by_cases hk : k' = k
    · subst hk
      unfold NumberedFiles.append Ordered
      rw [Function.update_self]
      apply List.pairwise_append.mpr
      refine ⟨h.ordered k', List.pairwise_singleton _ _, ?_⟩
      intro l hl l' hl'
      rw [List.mem_singleton.mp hl']
      exact h.fresh l (h.recorded k' l hl)
    · unfold NumberedFiles.append
      rw [Function.update_of_ne hk]
      exact h.ordered k'
  single k₁ k₂ l h₁ h₂ := by
    rcases mem_append_iff.mp h₁ with hold₁ | ⟨rfl, rfl⟩ <;>
      rcases mem_append_iff.mp h₂ with hold₂ | ⟨rfl, heq⟩
    · exact h.single k₁ k₂ l hold₁ hold₂
    · rw [heq] at hold₁
      exact absurd hold₁ (h.notMem k₁ a)
    · exact absurd hold₂ (h.notMem k₂ a)
    · rfl

theorem Ledger.empty (h : Ledger n due f) (k : κ) : Ledger n due (empty f k) where
  fresh := h.fresh
  recorded k' l hl := h.recorded k' l (mem_empty_iff.mp hl).2
  ordered k' := by
    unfold NumberedFiles.empty
    by_cases hk : k' = k
    · rw [hk, Function.update_self]
      exact List.Pairwise.nil
    · rw [Function.update_of_ne hk]
      exact h.ordered k'
  single k₁ k₂ l h₁ h₂ := h.single k₁ k₂ l (mem_empty_iff.mp h₁).2 (mem_empty_iff.mp h₂).2

/-- Writing a line keeps the others. -/
theorem complete_append_iff (h : Ledger n due f) (k : κ) (a : α) :
    Complete (due ++ [⟨n, a⟩]) (append f k ⟨n, a⟩) ↔ Complete due f := by
  constructor
  · intro hcomplete l hl
    obtain ⟨k', hk'⟩ := hcomplete l (List.mem_append_left _ hl)
    rcases mem_append_iff.mp hk' with hold | ⟨-, rfl⟩
    · exact ⟨k', hold⟩
    · exact absurd (h.fresh _ hl) (Nat.lt_irrefl n)
  · intro hcomplete l hl
    rcases List.mem_append.mp hl with hold | hnew
    · obtain ⟨k', hk'⟩ := hcomplete l hold
      exact ⟨k', mem_append_iff.mpr (Or.inl hk')⟩
    · exact ⟨k, mem_append_iff.mpr (Or.inr ⟨rfl, List.mem_singleton.mp hnew⟩)⟩

/-- Emptying a file loses its lines, which are nowhere else. -/
theorem complete_empty_iff (h : Ledger n due f) (k : κ) :
    Complete due (empty f k) ↔ Complete due f ∧ f k = [] := by
  constructor
  · intro hcomplete
    constructor
    · intro l hl
      obtain ⟨k', hk'⟩ := hcomplete l hl
      exact ⟨k', (mem_empty_iff.mp hk').2⟩
    · apply List.eq_nil_iff_forall_not_mem.mpr
      intro l hl
      obtain ⟨k', hk'⟩ := hcomplete l (h.recorded k l hl)
      obtain ⟨hne, hmem⟩ := mem_empty_iff.mp hk'
      exact hne (h.single k' k l hmem hl)
  · rintro ⟨hcomplete, hnil⟩ l hl
    obtain ⟨k', hk'⟩ := hcomplete l hl
    refine ⟨k', mem_empty_iff.mpr ⟨?_, hk'⟩⟩
    rintro rfl
    rw [hnil] at hk'
    cases hk'

end Rules

end PetProject.Foundation.NumberedFiles
