import Mathlib.Data.Int.Basic
import Mathlib.Order.Monotone.Basic

/-!
# Days and dates

The Gregorian calendar, extended to all years: `civil` gives the date of a day, counted from the
first day of the year 0, and `dayNumber` the day of a date. The calendar repeats after 400 years.
The year of a day in the cycle and the month of a day in the year are found by taking away the
lengths of the years and months before it (`locate`).

A date leads back to its day (`dayNumber_civil`), and the dates of days are in the order of the days
(`civil_lt`).
-/

set_option autoImplicit false

namespace PetProject.Foundation.Calendar

/-! ## Periods of given lengths, one after the other -/

section Periods

variable (len : Nat → Nat)

/-- The length of the first periods together. -/
def before : Nat → Nat
  | 0 => 0
  | q + 1 => before q + len q

/-- The period of the moment `n` after the start of the period `i`, and the moment in that period;
at most `k` periods are passed. -/
def locate : Nat → Nat → Nat → Nat × Nat
  | 0, i, n => (i, n)
  | k + 1, i, n => if n < len i then (i, n) else locate k (i + 1) (n - len i)

variable {len}

theorem before_mono : Monotone (before len) :=
  monotone_nat_of_le_succ fun _ => Nat.le_add_right _ _

theorem locate_from {k i n : Nat} (h : before len i + n < before len (i + k)) :
    ∃ q r, locate len k i n = (q, r) ∧ q < i + k ∧ r < len q ∧
      before len q + r = before len i + n := by
  induction k generalizing i n with
  | zero =>
    rw [Nat.add_zero] at h
    omega
  | succ k ih =>
    by_cases hn : n < len i
    · refine ⟨i, n, ?_, by omega, hn, rfl⟩
      rw [locate, if_pos hn]
    · have hmoment : before len (i + 1) + (n - len i) = before len i + n := by
        have hnext : before len (i + 1) = before len i + len i := rfl
        omega
      have hend : i + 1 + k = i + (k + 1) := by omega
      obtain ⟨q, r, heq, hq, hr, hsum⟩ := ih (i := i + 1) (n := n - len i) (by rwa [hmoment, hend])
      refine ⟨q, r, ?_, by omega, hr, hsum.trans hmoment⟩
      rw [locate, if_neg hn]
      exact heq

/-- A moment within the first `k` periods is found. -/
theorem locate_spec {k n : Nat} (h : n < before len k) :
    ∃ q r, locate len k 0 n = (q, r) ∧ q < k ∧ r < len q ∧ before len q + r = n := by
  have hstart : before len 0 + n = n := Nat.zero_add n
  have hend : 0 + k = k := Nat.zero_add k
  obtain ⟨q, r, heq, hq, hr, hsum⟩ := locate_from (i := 0) (by rwa [hstart, hend])
  exact ⟨q, r, heq, by omega, hr, hsum.trans hstart⟩

/-- Moments are ordered as their periods and, in one period, as the moments in it. -/
theorem period_lt {q r q' r' : Nat} (hr' : r' < len q')
    (h : before len q + r < before len q' + r') : q < q' ∨ q = q' ∧ r < r' := by
  rcases Nat.lt_trichotomy q q' with hlt | heq | hgt
  · exact Or.inl hlt
  · rw [heq] at h
    exact Or.inr ⟨heq, by omega⟩
  · have hend : before len (q' + 1) ≤ before len q := before_mono hgt
    have hnext : before len (q' + 1) = before len q' + len q' := rfl
    omega

end Periods

/-! ## Years and months -/

/-- The days of 400 years. -/
def daysInCycle : Nat := 146097

def isLeap (y : Nat) : Prop := y % 4 = 0 ∧ (y % 100 ≠ 0 ∨ y % 400 = 0)

instance : DecidablePred isLeap := fun _ => inferInstanceAs (Decidable (_ ∧ _))

/-- The days of the year `y` of a cycle. -/
def daysInYear (y : Nat) : Nat := if isLeap y then 366 else 365

/-- The days of the month `m`, counted from zero, of the year `y` of a cycle. -/
def daysInMonth (y m : Nat) : Nat :=
  [31, if isLeap y then 29 else 28, 31, 30, 31, 30, 31, 31, 30, 31, 30, 31].getD m 0

theorem before_daysInYear : before daysInYear 400 = daysInCycle := by decide +kernel

theorem before_daysInMonth (y : Nat) : before (daysInMonth y) 12 = daysInYear y := by
  by_cases hleap : isLeap y
  · simp [before, daysInMonth, daysInYear, hleap]
  · simp [before, daysInMonth, daysInYear, hleap]

/-- A date; months count from zero, days from one. -/
structure Date where
  year : Int
  month : Nat
  day : Nat
  deriving DecidableEq, Repr

/-- The date of the day `d` after the first day of the year 0. -/
def civil (d : Int) : Date :=
  let year := locate daysInYear 400 0 (d % daysInCycle).toNat
  let month := locate (daysInMonth year.1) 12 0 year.2
  ⟨d / daysInCycle * 400 + year.1, month.1, month.2 + 1⟩

/-- The days from the first day of the year 0 to a date. -/
def dayNumber (t : Date) : Int :=
  t.year / 400 * daysInCycle + before daysInYear (t.year % 400).toNat +
    before (daysInMonth (t.year % 400).toNat) t.month + (t.day - 1)

/-- What the date of a day is: the year and the month in its cycle, and the day of the month. -/
theorem civil_spec (d : Int) :
    ∃ y m r : Nat, civil d = ⟨d / daysInCycle * 400 + y, m, r + 1⟩ ∧ y < 400 ∧ m < 12 ∧
      r < daysInMonth y m ∧ before (daysInMonth y) m + r < daysInYear y ∧
      d % daysInCycle = (before daysInYear y + (before (daysInMonth y) m + r) : Nat) := by
  have hcycle : (d % daysInCycle).toNat < before daysInYear 400 := by
    rw [before_daysInYear]
    simp only [daysInCycle]
    omega
  obtain ⟨y, s, hyear, hy, hs, hsum⟩ := locate_spec hcycle
  have hmonths : s < before (daysInMonth y) 12 := by rwa [before_daysInMonth]
  obtain ⟨m, r, hmonth, hm, hr, hday⟩ := locate_spec hmonths
  refine ⟨y, m, r, ?_, hy, hm, hr, by omega, ?_⟩
  · simp only [civil, hyear, hmonth]
  · rw [hday, hsum]
    simp only [daysInCycle]
    omega

theorem daysInMonth_le {m : Nat} (y : Nat) (hm : m < 12) : daysInMonth y m ≤ 31 := by
  unfold daysInMonth
  split <;> decide +revert

/-- The month and the day of a date. -/
theorem civil_bounds (d : Int) :
    (civil d).month < 12 ∧ 1 ≤ (civil d).day ∧ (civil d).day ≤ 31 := by
  obtain ⟨y, m, r, hcivil, -, hm, hr, -, -⟩ := civil_spec d
  have hle := daysInMonth_le y hm
  rw [hcivil]
  refine ⟨hm, ?_, ?_⟩ <;> simp only <;> omega

theorem dayNumber_civil (d : Int) : dayNumber (civil d) = d := by
  obtain ⟨y, m, r, hcivil, hy, -, -, -, hd⟩ := civil_spec d
  have hcycle : (d / daysInCycle * 400 + (y : Int)) / 400 = d / daysInCycle := by omega
  have hyear : ((d / daysInCycle * 400 + (y : Int)) % 400).toNat = y := by omega
  rw [hcivil]
  simp only [dayNumber, hcycle, hyear]
  have hsplit : d / daysInCycle * daysInCycle + d % daysInCycle = d := Int.ediv_mul_add_emod ..
  rw [hd] at hsplit
  omega

/-- Days are ordered as their years, in one year as their months, and in one month as their days of
the month. -/
theorem civil_lt {d e : Int} (h : d < e) :
    (civil d).year < (civil e).year ∨ (civil d).year = (civil e).year ∧
      ((civil d).month < (civil e).month ∨ (civil d).month = (civil e).month ∧
        (civil d).day < (civil e).day) := by
  obtain ⟨y, m, r, hcivil, hy, -, -, -, hd⟩ := civil_spec d
  obtain ⟨y', m', r', hcivil', hy', -, hr', hlast, hd'⟩ := civil_spec e
  rw [hcivil, hcivil']
  have hcycle : d / daysInCycle < e / daysInCycle ∨
      d / daysInCycle = e / daysInCycle ∧ d % daysInCycle < e % daysInCycle := by
    simp only [daysInCycle]
    omega
  rcases hcycle with hlt | ⟨heq, hlt⟩
  · exact Or.inl (by simp only; omega)
  · rw [hd, hd', Int.ofNat_lt] at hlt
    rcases period_lt hlast hlt with hyear | ⟨rfl, hday⟩
    · exact Or.inl (by simp only; omega)
    · refine Or.inr ⟨by simp only [heq], ?_⟩
      rcases period_lt hr' hday with hmonth | ⟨hmonth, hlt⟩
      · exact Or.inl hmonth
      · exact Or.inr ⟨hmonth, Nat.succ_lt_succ hlt⟩

end PetProject.Foundation.Calendar
