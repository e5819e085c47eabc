import Mathlib.Data.List.Basic
import Mathlib.Data.List.TakeWhile

/-!
# Strings as lists of characters

A string is a list of characters, one character for each byte when it comes from outside the
program. `find` and `substr` are the operations of the same name on strings: the position of the
first occurrence of a pattern, and the characters from a position on, at most a given number.

The lemmas relate `find` to decompositions `u ++ pat ++ v`: an occurrence is found, the found
position splits the string, and a string without the first character of the pattern has none.
-/

set_option autoImplicit false

namespace PetProject.Foundation.TextSearch

universe u

/-- A string. -/
abbrev Text := List Char

/-- The character that ends a C string. -/
def nul : Char := Char.ofNat 0

/-- The string that a pointer to the characters denotes: up to the first NUL. -/
def cStr (s : Text) : Text := s.takeWhile (· ≠ nul)

theorem cStr_of_nulFree {s : Text} (h : nul ∉ s) : cStr s = s := by
  unfold cStr
  rw [List.takeWhile_eq_self_iff]
  intro c hc
  refine decide_eq_true ?_
  rintro rfl
  exact h hc

variable {α : Type u} [DecidableEq α]

/-- The position of the first occurrence of a pattern. -/
def find (pat : List α) : List α → Option Nat
  | [] => if pat = [] then some 0 else none
  | c :: cs => if pat <+: c :: cs then some 0 else (find pat cs).map (· + 1)

/-- The characters from position `pos` on, at most `n` of them; fails past the end. -/
def substr (s : List α) (pos n : Nat) : Option (List α) :=
  if pos ≤ s.length then some ((s.drop pos).take n) else none

theorem find_eq_some {pat s : List α} {i : Nat} (h : find pat s = some i) :
    i ≤ s.length ∧ pat <+: s.drop i := by
  induction s generalizing i with
  | nil =>
    simp only [find] at h
    split at h
    · rename_i hpat
      cases h
      simp [hpat]
    · cases h
  | cons c cs ih =>
    simp only [find] at h
    split at h
    · rename_i hpre
      cases h
      exact ⟨Nat.zero_le _, hpre⟩
    · obtain ⟨j, hj, rfl⟩ := Option.map_eq_some_iff.mp h
      obtain ⟨hle, hpre⟩ := ih hj
      exact ⟨by simpa using hle, by simpa using hpre⟩

/-- A pattern that is found splits the string. -/
theorem find_split {pat s : List α} {i : Nat} (h : find pat s = some i) :
    s = s.take i ++ (pat ++ s.drop (i + pat.length)) := by
  obtain ⟨hle, t, ht⟩ := find_eq_some h
  have hdrop : s.drop (i + pat.length) = t := by
    rw [← List.drop_drop, ← ht, List.drop_left]
  rw [hdrop, ht, List.take_append_drop]

theorem find_isSome_of_infix {pat s : List α} (h : pat <:+: s) : (find pat s).isSome := by
  induction s with
  | nil => simp [find, List.eq_nil_of_infix_nil h]
  | cons c cs ih =>
    simp only [find]
    split
    · rfl
    · rename_i hpre
      rcases List.infix_cons_iff.mp h with hp | hi
      · exact absurd hp hpre
      · simpa using ih hi

theorem find_isSome_iff {pat s : List α} : (find pat s).isSome ↔ pat <:+: s := by
  refine ⟨fun h => ?_, find_isSome_of_infix⟩
  obtain ⟨i, hi⟩ := Option.isSome_iff_exists.mp h
  exact ⟨s.take i, s.drop (i + pat.length), by rw [List.append_assoc, ← find_split hi]⟩

/-- No occurrence comes before the found one. -/
theorem find_le {pat s pre post : List α} {i : Nat} (h : find pat s = some i)
    (hs : s = pre ++ (pat ++ post)) : i ≤ pre.length := by
  induction s generalizing pre i with
  | nil =>
    simp only [find] at h
    split at h
    · cases h
      exact Nat.zero_le _
    · cases h
  | cons c cs ih =>
    simp only [find] at h
    split at h
    · cases h
      exact Nat.zero_le _
    · rename_i hpre
      obtain ⟨j, hj, rfl⟩ := Option.map_eq_some_iff.mp h
      cases pre with
      | nil => exact absurd ⟨post, hs.symm⟩ hpre
      | cons d ds =>
        obtain ⟨rfl, htail⟩ := List.cons_eq_cons.mp hs
        exact Nat.succ_le_succ (ih hj htail)

/-- The first occurrence of the pattern has `pre` in front of it and `post` behind it. -/
def FirstSplit (pat s pre post : List α) : Prop :=
  s = pre ++ (pat ++ post) ∧
    ∀ pre' post', s = pre' ++ (pat ++ post') → pre.length ≤ pre'.length

theorem find_of_firstSplit {pat s pre post : List α} (h : FirstSplit pat s pre post) :
    find pat s = some pre.length := by
  obtain ⟨hs, hfirst⟩ := h
  have hinfix : pat <:+: s := ⟨pre, post, by rw [List.append_assoc, ← hs]⟩
  have hsome : (find pat s).isSome = true := find_isSome_of_infix hinfix
  obtain ⟨i, hi⟩ := Option.isSome_iff_exists.mp hsome
  have hle := find_le hi hs
  have hge := hfirst _ _ (find_split hi)
  rw [List.length_take] at hge
  rw [hi]
  congr 1
  omega

theorem firstSplit_of_find {pat s : List α} {i : Nat} (h : find pat s = some i) :
    FirstSplit pat s (s.take i) (s.drop (i + pat.length)) := by
  refine ⟨find_split h, fun pre' post' hs => ?_⟩
  rw [List.length_take]
  exact Nat.le_trans (Nat.min_le_left _ _) (find_le h hs)

end PetProject.Foundation.TextSearch
