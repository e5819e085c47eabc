import Mathlib.Data.List.TakeWhile
import PetProject.Foundation.FixedWidth

/-!
# Numerals read in a base

A character is a digit of the bases above its value (`digit`), up to base 36. `numeral b` reads all
characters of a text as digits in the base `b`, and `leading b` are the digits of that base at the
start of a text, up to the first other character.

A text that is a numeral in one base can be read in a smaller one: its leading digits there give at
most the same number (`leading_le`), and the same one exactly when that is a single digit of the
smaller base, leading zeros apart (`leading_eq_iff`).
-/

set_option autoImplicit false

namespace PetProject.Foundation.Numerals

open PetProject.Foundation.FixedWidth

/-- The value of a digit; 36 for a character that is none. -/
def digit (c : Char) : Nat :=
  if 48 ≤ c.toNat ∧ c.toNat ≤ 57 then c.toNat - 48
  else if 97 ≤ c.toNat ∧ c.toNat ≤ 122 then c.toNat - 97 + 10
  else if 65 ≤ c.toNat ∧ c.toNat ≤ 90 then c.toNat - 65 + 10
  else 36

/-- The value of the digits `ds` in the base `b`, behind digits of the value `n`. -/
def numeralFrom (b : Nat) : Nat → List Char → Nat
  | n, [] => n
  | n, d :: ds => numeralFrom b (b * n + digit d) ds

def numeral (b : Nat) (ds : List Char) : Nat := numeralFrom b 0 ds

/-- The digits of the base `b` at the start of a text. -/
def leading (b : Nat) (s : List Char) : List Char := s.takeWhile fun c => digit c < b

/-! ## Decimal digits -/

section Decimal

variable {c : Char} {ds : List Char}

theorem digit_of_isDigit (h : c.isDigit = true) : digit c = c.toNat - 48 := by
  rw [digit, if_pos (digit_bounds h)]

theorem digit_lt_ten (h : c.isDigit = true) : digit c < 10 := by
  have hbounds := digit_bounds h
  rw [digit_of_isDigit h]
  omega

theorem leading_of_digits {b : Nat} (h : ∀ c ∈ ds, digit c < b) : leading b ds = ds := by
  apply List.takeWhile_eq_self_iff.mpr
  intro c hc
  exact decide_eq_true (h c hc)

theorem numeralFrom_ten {n : Nat} (h : ∀ c ∈ ds, c.isDigit = true) :
    numeralFrom 10 n ds = Nat.ofDigitChars 10 ds n := by
  induction ds generalizing n with
  | nil => rfl
  | cons d ds ih =>
    obtain ⟨hd, hds⟩ := List.forall_mem_cons.mp h
    have hzero : '0'.toNat = 48 := rfl
    rw [numeralFrom, ih hds, Nat.ofDigitChars_cons, digit_of_isDigit hd, hzero]

/-- In base ten a text of decimal digits has its value. -/
theorem numeral_ten (h : ∀ c ∈ ds, c.isDigit = true) : numeral 10 ds = value ds :=
  numeralFrom_ten h

end Decimal

/-! ## Two bases -/

section Bases

variable {b b' n m : Nat}

/-- More digits do not make a number smaller. -/
theorem le_numeralFrom (hb : 0 < b) (ds : List Char) : n ≤ numeralFrom b n ds := by
  induction ds generalizing n with
  | nil => exact Nat.le_refl n
  | cons d ds ih =>
    have hmul : n ≤ b * n := Nat.le_mul_of_pos_left n hb
    exact Nat.le_trans (Nat.le_trans hmul (Nat.le_add_right _ _)) ih

theorem leading_cons_of_lt {d : Char} {ds : List Char} (h : digit d < b) :
    leading b (d :: ds) = d :: leading b ds :=
  List.takeWhile_cons_of_pos (decide_eq_true h)

theorem leading_cons_of_le {d : Char} {ds : List Char} (h : b ≤ digit d) :
    leading b (d :: ds) = [] :=
  List.takeWhile_cons_of_neg (by simpa using h)

theorem leadingFrom_le (hb : b ≤ b') (hpos : 0 < b') (h : n ≤ m) (ds : List Char) :
    numeralFrom b n (leading b ds) ≤ numeralFrom b' m ds := by
  induction ds generalizing n m with
  | nil => exact h
  | cons d ds ih =>
    rcases Nat.lt_or_ge (digit d) b with hd | hd
    · rw [leading_cons_of_lt hd]
      exact ih (Nat.add_le_add_right (Nat.mul_le_mul hb h) _)
    · rw [leading_cons_of_le hd]
      exact Nat.le_trans h (le_numeralFrom hpos (d :: ds))

theorem leading_le (hb : b ≤ b') (hpos : 0 < b') (ds : List Char) :
    numeral b (leading b ds) ≤ numeral b' ds :=
  leadingFrom_le hb hpos (Nat.le_refl 0) ds

/-- Behind a number that is larger in the larger base it stays so. -/
theorem leadingFrom_lt (hb : b ≤ b') (hpos : 0 < b') (h : n < m) (ds : List Char) :
    numeralFrom b n (leading b ds) < numeralFrom b' m ds := by
  induction ds generalizing n m with
  | nil => exact h
  | cons d ds ih =>
    rcases Nat.lt_or_ge (digit d) b with hd | hd
    · rw [leading_cons_of_lt hd]
      have hmul : b * n < b' * m := Nat.lt_of_le_of_lt (Nat.mul_le_mul_right n hb)
        (Nat.mul_lt_mul_of_pos_left h hpos)
      exact ih (Nat.add_lt_add_right hmul _)
    · rw [leading_cons_of_le hd]
      exact Nat.lt_of_lt_of_le h (le_numeralFrom hpos (d :: ds))

/-- A digit behind a number makes a difference between the bases. -/
theorem leadingFrom_cons_lt (hb0 : 0 < b) (hb : b < b') (hn : 0 < n) (d : Char) (ds : List Char) :
    numeralFrom b n (leading b (d :: ds)) < numeralFrom b' n (d :: ds) := by
  have hpos : 0 < b' := Nat.lt_trans hb0 hb
  rcases Nat.lt_or_ge (digit d) b with hd | hd
  · rw [leading_cons_of_lt hd]
    have hmul : b * n < b' * n := Nat.mul_lt_mul_of_pos_right hb hn
    exact leadingFrom_lt (Nat.le_of_lt hb) hpos (Nat.add_lt_add_right hmul _) ds
  · rw [leading_cons_of_le hd]
    have hmul : n ≤ b' * n := Nat.le_mul_of_pos_left n hpos
    have hlt : n < b' * n + digit d := by omega
    exact Nat.lt_of_lt_of_le hlt (le_numeralFrom hpos ds)

/-- In the smaller base the leading digits give the number of the larger one exactly when it is less
than the smaller base. -/
theorem leading_eq_iff (hpos : 0 < b) (hb : b < b') (ds : List Char) :
    numeral b (leading b ds) = numeral b' ds ↔ numeral b' ds < b := by
  have hpos' : 0 < b' := Nat.lt_trans hpos hb
  unfold numeral
  induction ds with
  | nil => exact iff_of_true rfl hpos
  | cons d ds ih =>
    have hfirst : numeralFrom b' 0 (d :: ds) = numeralFrom b' (digit d) ds := by
      rw [numeralFrom, Nat.mul_zero, Nat.zero_add]
    have hge : digit d ≤ numeralFrom b' (digit d) ds := le_numeralFrom hpos' ds
    rcases Nat.lt_or_ge (digit d) b with hd | hd
    · rw [leading_cons_of_lt hd, numeralFrom, Nat.mul_zero, Nat.zero_add, hfirst]
      rcases Nat.eq_zero_or_pos (digit d) with hzero | hdpos
      · -- a leading zero
        rw [hzero]
        exact ih
      · cases ds with
        | nil => exact iff_of_true rfl hd
        | cons e es =>
          -- two digits of which the first is not zero
          have hlt := leadingFrom_cons_lt hpos hb hdpos e es
          have hlarge : b' ≤ numeralFrom b' (digit d) (e :: es) := by
            have hmul : b' ≤ b' * digit d := Nat.le_mul_of_pos_right b' hdpos
            exact Nat.le_trans (Nat.le_trans hmul (Nat.le_add_right _ _)) (le_numeralFrom hpos' es)
          exact iff_of_false (Nat.ne_of_lt hlt) (by omega)
    · rw [leading_cons_of_le hd, hfirst]
      have hnil : numeralFrom b 0 [] = 0 := rfl
      rw [hnil]
      exact iff_of_false (by omega) (by omega)

end Bases

end PetProject.Foundation.Numerals
