import PetProject.Foundation.Calendar
import PetProject.Foundation.FixedWidth
import PetProject.Workers.Model

/-!
# Request times as texts

`SQLiteWorker::getTimestamp` writes the local time of a request. The schema documents the form
`2022-01-01 16:30:46.047637`, in which texts are ordered as times. The function pads the month and
the day, but `std::setw` holds for one output only: hours, minutes, seconds and microseconds are
written without leading zeros. A text reads back as its time exactly when none of them has lost a
digit (`read_loggedTime_iff`), and two such texts are in the order of their times
(`loggedTime_lt`).
-/

set_option autoImplicit false

namespace PetProject.Workers

open PetProject.Foundation.TextSearch PetProject.Foundation.SqlLexer
open PetProject.Foundation.Calendar PetProject.Foundation.FixedWidth

/-! ## Times -/

/-- What `gettimeofday` stores. -/
structure timeval where
  tv_sec : Int
  tv_usec : Nat
  usec_lt : tv_usec < 1000000

/-- The instant, in microseconds since the epoch. -/
def timeval.micros (tv : timeval) : Int := tv.tv_sec * 1000000 + tv.tv_usec

/-- The day of the epoch. -/
def epochDay : Int := 719528

/-- `localtime`, with the local time `offset` seconds ahead of UTC. -/
def localtime (offset tv_sec : Int) : LocalTime :=
  let date := civil ((tv_sec + offset) / 86400 + epochDay)
  let second := ((tv_sec + offset) % 86400).toNat
  ⟨date.year - 1900, date.month, date.day, second / 3600, second % 3600 / 60, second % 60⟩

example : localtime 10800 1641043846 = ⟨122, 0, 1, 16, 30, 46⟩ := by decide +kernel

/-- The local year has four digits. -/
def FourDigitYear (t : LocalTime) : Prop := 1000 ≤ 1900 + t.tm_year ∧ 1900 + t.tm_year < 10000

instance (t : LocalTime) : Decidable (FourDigitYear t) := inferInstanceAs (Decidable (_ ∧ _))

/-- A text without its quotes. -/
def unquoted (s : Text) : Text := s.filter (· ≠ quote)

/-- The text in `req_time`: what `getTimestamp` writes, without the quotes. -/
def loggedTime (offset : Int) (tv : timeval) : Text :=
  unquoted (SQLiteWorker.getTimestamp (some (localtime offset tv.tv_sec, tv.tv_usec)))

/-- A decimal fraction of a second, in whole microseconds. -/
def readFraction (s : Text) : Option Nat :=
  if s ≠ [] ∧ s.all Char.isDigit = true then some (value s * 1000000 / 10 ^ s.length) else none

/-- Reads a text of the documented form, `YYYY-MM-DD HH:MM:SS.fraction`, as the microseconds since
the epoch. -/
def readTime (offset : Int) (s : Text) : Option Int := do
  let (year, s) ← readField 4 '-' s
  let (month, s) ← readField 2 '-' s
  let (day, s) ← readField 2 ' ' s
  let (hour, s) ← readField 2 ':' s
  let (min, s) ← readField 2 ':' s
  let (sec, s) ← readField 2 '.' s
  let usec ← readFraction s
  return ((dayNumber ⟨year, month - 1, day⟩ - epochDay) * 86400 +
    (hour * 3600 + min * 60 + sec : Nat) - offset) * 1000000 + usec

/-- No field has lost a leading zero, and the fraction is zero or has six digits. -/
def FullWidth (t : LocalTime) (tv_usec : Nat) : Prop :=
  10 ≤ t.tm_hour ∧ 10 ≤ t.tm_min ∧ 10 ≤ t.tm_sec ∧ (tv_usec = 0 ∨ 100000 ≤ tv_usec)

instance (t : LocalTime) (tv_usec : Nat) : Decidable (FullWidth t tv_usec) :=
  inferInstanceAs (Decidable (_ ∧ _))

/-! ## The local time -/

theorem localtime_bounds (offset tv_sec : Int) :
    (localtime offset tv_sec).tm_mon < 12 ∧ 1 ≤ (localtime offset tv_sec).tm_mday ∧
      (localtime offset tv_sec).tm_mday ≤ 31 ∧ (localtime offset tv_sec).tm_hour < 24 ∧
      (localtime offset tv_sec).tm_min < 60 ∧ (localtime offset tv_sec).tm_sec < 60 := by
  obtain ⟨hmon, hlow, hhigh⟩ := civil_bounds ((tv_sec + offset) / 86400 + epochDay)
  refine ⟨hmon, hlow, hhigh, ?_, ?_, ?_⟩ <;> simp only [localtime] <;> omega

/-- The local time leads back to the second. -/
theorem second_of_localtime (offset tv_sec : Int) :
    (dayNumber ⟨1900 + (localtime offset tv_sec).tm_year, (localtime offset tv_sec).tm_mon,
        (localtime offset tv_sec).tm_mday⟩ - epochDay) * 86400 +
      ((localtime offset tv_sec).tm_hour * 3600 + (localtime offset tv_sec).tm_min * 60 +
        (localtime offset tv_sec).tm_sec : Nat) - offset = tv_sec := by
  have hday := dayNumber_civil ((tv_sec + offset) / 86400 + epochDay)
  have hyear : 1900 + (localtime offset tv_sec).tm_year =
      (civil ((tv_sec + offset) / 86400 + epochDay)).year := by
    simp only [localtime]
    omega
  rw [hyear]
  have hdate : dayNumber ⟨(civil ((tv_sec + offset) / 86400 + epochDay)).year,
      (localtime offset tv_sec).tm_mon, (localtime offset tv_sec).tm_mday⟩ =
      (tv_sec + offset) / 86400 + epochDay := hday
  rw [hdate]
  simp only [localtime]
  omega

/-- The seconds of a day are ordered as hours, minutes and seconds. -/
theorem clock_lt {s s' u u' : Nat} (h : s < s' ∨ s = s' ∧ u < u') :
    s / 3600 < s' / 3600 ∨ s / 3600 = s' / 3600 ∧
      (s % 3600 / 60 < s' % 3600 / 60 ∨ s % 3600 / 60 = s' % 3600 / 60 ∧
      (s % 60 < s' % 60 ∨ s % 60 = s' % 60 ∧ u < u')) := by
  omega

/-- Instants are ordered as the fields of their local times, from the year to the microsecond. -/
theorem localtime_lt (offset : Int) {tv tv' : timeval} (h : tv.micros < tv'.micros) :
    let t := localtime offset tv.tv_sec
    let t' := localtime offset tv'.tv_sec
    t.tm_year < t'.tm_year ∨ t.tm_year = t'.tm_year ∧
      (t.tm_mon < t'.tm_mon ∨ t.tm_mon = t'.tm_mon ∧
      (t.tm_mday < t'.tm_mday ∨ t.tm_mday = t'.tm_mday ∧
      (t.tm_hour < t'.tm_hour ∨ t.tm_hour = t'.tm_hour ∧
      (t.tm_min < t'.tm_min ∨ t.tm_min = t'.tm_min ∧
      (t.tm_sec < t'.tm_sec ∨ t.tm_sec = t'.tm_sec ∧ tv.tv_usec < tv'.tv_usec))))) := by
  intro t t'
  have hsec : tv.tv_sec < tv'.tv_sec ∨ tv.tv_sec = tv'.tv_sec ∧ tv.tv_usec < tv'.tv_usec := by
    have hlt := tv.usec_lt
    have hlt' := tv'.usec_lt
    unfold timeval.micros at h
    omega
  -- the later instant is on a later day, or on the same day by a later clock
  have hday : (tv.tv_sec + offset) / 86400 + epochDay < (tv'.tv_sec + offset) / 86400 + epochDay ∨
      (tv.tv_sec + offset) / 86400 = (tv'.tv_sec + offset) / 86400 ∧
        (((tv.tv_sec + offset) % 86400).toNat < ((tv'.tv_sec + offset) % 86400).toNat ∨
        ((tv.tv_sec + offset) % 86400).toNat = ((tv'.tv_sec + offset) % 86400).toNat ∧
          tv.tv_usec < tv'.tv_usec) := by
    omega
  rcases hday with hbefore | ⟨hsame, hclock⟩
  · rcases civil_lt hbefore with hyear | ⟨hyear, hmonth | ⟨hmonth, hmday⟩⟩
    · exact Or.inl (Int.sub_lt_sub_right hyear 1900)
    · exact Or.inr ⟨congrArg (· - 1900) hyear, Or.inl hmonth⟩
    · exact Or.inr ⟨congrArg (· - 1900) hyear, Or.inr ⟨hmonth, Or.inl hmday⟩⟩
  · have hdate : civil ((tv.tv_sec + offset) / 86400 + epochDay) =
        civil ((tv'.tv_sec + offset) / 86400 + epochDay) := by
      rw [hsame]
    exact Or.inr ⟨congrArg (fun date => date.year - 1900) hdate,
      Or.inr ⟨congrArg Date.month hdate, Or.inr ⟨congrArg Date.day hdate, clock_lt hclock⟩⟩⟩

/-! ## The fields of the text -/

section Fields

variable {offset : Int} {tv : timeval}

theorem unquoted_of_notMem {s : Text} (h : quote ∉ s) : unquoted s = s := by
  apply List.filter_eq_self.mpr
  intro c hc
  apply decide_eq_true
  rintro rfl
  exact h hc

theorem unquoted_append (s s' : Text) : unquoted (s ++ s') = unquoted s ++ unquoted s' :=
  List.filter_append ..

theorem unquoted_quote (s : Text) : unquoted (quote :: s) = unquoted s :=
  List.filter_cons_of_neg (by simp)

theorem unquoted_cons {c : Char} (h : c ≠ quote) (s : Text) :
    unquoted (c :: s) = c :: unquoted s :=
  List.filter_cons_of_pos (decide_eq_true h)

/-- The text with its fields, when the year is not negative. -/
theorem loggedTime_eq (year : Nat) (hyear : 1900 + (localtime offset tv.tv_sec).tm_year = year) :
    loggedTime offset tv =
      decimal year ++ '-' :: (decimal2 ((localtime offset tv.tv_sec).tm_mon + 1) ++
        '-' :: (decimal2 (localtime offset tv.tv_sec).tm_mday ++
        ' ' :: (decimal (localtime offset tv.tv_sec).tm_hour ++
        ':' :: (decimal (localtime offset tv.tv_sec).tm_min ++
        ':' :: (decimal (localtime offset tv.tv_sec).tm_sec ++ '.' :: decimal tv.tv_usec))))) := by
  have hdec := fun n => unquoted_of_notMem (quote_notMem_decimal n)
  have hdec2 := fun n => unquoted_of_notMem (quote_notMem_decimal2 n)
  have hminus := fun s => unquoted_cons (c := '-') (by decide) s
  have hspace := fun s => unquoted_cons (c := ' ') (by decide) s
  have hcolon := fun s => unquoted_cons (c := ':') (by decide) s
  have hdot := fun s => unquoted_cons (c := '.') (by decide) s
  have hdecyear : decimalInt (year : Int) = decimal year := rfl
  have hend : unquoted [quote] = [] := rfl
  simp only [loggedTime, SQLiteWorker.getTimestamp, hyear, hdecyear, unquoted_quote,
    unquoted_append, hminus, hspace, hcolon, hdot, hdec, hdec2, hend, List.append_nil]

theorem isField_decimal2 {n : Nat} (h : n < 100) : IsField 2 n (decimal2 n) :=
  isField_leftpad (by decide) h

theorem isField_decimal {n : Nat} (hlow : 10 ≤ n) (hhigh : n < 100) : IsField 2 n (decimal n) :=
  isField_toDigits (w := 1) hlow hhigh

/-- A number without leading zeros is read as a field of two digits when it has two. -/
theorem readField_decimal {n : Nat} {sep : Char} {rest : Text} (hn : n < 100)
    (hsep : sep.isDigit = false) :
    readField 2 sep (decimal n ++ sep :: rest) = if 10 ≤ n then some (n, rest) else none := by
  by_cases hlow : 10 ≤ n
  · rw [if_pos hlow]
    exact (isField_decimal hlow hn).readField
  · rw [if_neg hlow]
    apply readField_short _ hsep
    have hlen := (Nat.length_toDigits_le_iff (n := n) (k := 1) (b := 10) (by decide)
      (by decide)).mpr (by omega)
    exact Nat.lt_succ_of_le hlen

/-- The microseconds are read from a fraction without leading zeros when there is none to lose. -/
theorem fraction_iff {u : Nat} (hu : u < 1000000) :
    readFraction (decimal u) = some u ↔ u = 0 ∨ 100000 ≤ u := by
  have hread : readFraction (decimal u) = some (u * 1000000 / 10 ^ (decimal u).length) := by
    have hvalue : value (decimal u) = u := Nat.ofDigitChars_ten_toDigits
    have hdigits : (decimal u).all Char.isDigit = true := List.all_eq_true.mpr fun _ hc =>
      Nat.isDigit_of_mem_toDigits (by decide) (by decide) hc
    unfold readFraction
    rw [if_pos ⟨Nat.toDigits_ne_nil, hdigits⟩, hvalue]
  rw [hread, Option.some.injEq]
  constructor
  · intro heq
    by_contra hlost
    -- with at most five digits the fraction stands for ten times as much or more
    have hshort : (decimal u).length ≤ 5 :=
      (Nat.length_toDigits_le_iff (by decide) (by decide)).mpr (by omega)
    have hpow : 10 ^ (decimal u).length ≤ 10 ^ 5 := Nat.pow_le_pow_right (by decide) hshort
    have hdiv : u * 1000000 / 10 ^ 5 ≤ u * 1000000 / 10 ^ (decimal u).length :=
      Nat.div_le_div_left hpow (Nat.pow_pos (by decide))
    omega
  · rintro (rfl | hlow)
    · rfl
    · have hlen : (decimal u).length = 6 := (isField_toDigits (w := 5) hlow hu).length_eq
      rw [hlen]
      omega

end Fields

/-! ## Reading back -/

section Reading

variable {offset : Int} {tv tv' : timeval}

theorem year_field {t : LocalTime} (h : FourDigitYear t) :
    ∃ year : Nat, 1900 + t.tm_year = year ∧ IsField 4 year (decimal year) := by
  obtain ⟨hlow, hhigh⟩ := h
  obtain ⟨year, hy⟩ := Int.eq_ofNat_of_zero_le (a := 1900 + t.tm_year) (by omega)
  exact ⟨year, hy, isField_toDigits (w := 3) (by omega) (by omega)⟩

theorem guard_bind {α β : Type} {p : Prop} [Decidable p] {a : α} {f : α → Option β} {b : β} :
    (if p then some a else none).bind f = some b ↔ p ∧ f a = some b := by
  by_cases hp : p
  · simp [hp]
  · simp [hp]

/-- A text reads back as its instant exactly when no field has lost a digit. -/
theorem read_loggedTime_iff (hyear : FourDigitYear (localtime offset tv.tv_sec)) :
    readTime offset (loggedTime offset tv) = some tv.micros ↔
      FullWidth (localtime offset tv.tv_sec) tv.tv_usec := by
  obtain ⟨year, hy, hfield⟩ := year_field hyear
  obtain ⟨hmon, -, hmday, hhour, hmin, hsec⟩ := localtime_bounds offset tv.tv_sec
  have hback := second_of_localtime offset tv.tv_sec
  have hmonth : (localtime offset tv.tv_sec).tm_mon + 1 < 100 := by omega
  have hday : (localtime offset tv.tv_sec).tm_mday < 100 := by omega
  have hhour' : (localtime offset tv.tv_sec).tm_hour < 100 := by omega
  have hmin' : (localtime offset tv.tv_sec).tm_min < 100 := by omega
  have hsec' : (localtime offset tv.tv_sec).tm_sec < 100 := by omega
  have hcolon : Char.isDigit ':' = false := rfl
  have hdot : Char.isDigit '.' = false := rfl
  rw [loggedTime_eq year hy]
  rw [hy] at hback
  -- the fields up to the second are those of the instant, so only the fraction can differ
  have hmicros : ∀ fraction : Option Nat,
      (fraction.bind fun usec => some (tv.tv_sec * 1000000 + (usec : Int))) = some tv.micros ↔
        fraction = some tv.tv_usec := by
    intro fraction
    cases fraction with
    | none => simp
    | some usec =>
      rw [Option.bind_some, Option.some.injEq, Option.some.injEq]
      unfold timeval.micros
      omega
  unfold readTime FullWidth
  rw [← fraction_iff tv.usec_lt]
  simp only [bind, pure, hfield.readField, Option.bind_some, (isField_decimal2 hmonth).readField,
    (isField_decimal2 hday).readField, readField_decimal hhour' hcolon,
    readField_decimal hmin' hcolon, readField_decimal hsec' hdot, guard_bind,
    Nat.add_sub_cancel, hback, hmicros]

/-! ## Order -/

/-- Fractions that are zero or have six digits are ordered as their microseconds. -/
theorem fraction_lt {u u' : Nat} (hlt : u < u') (hu' : u' < 1000000)
    (hfull : u = 0 ∨ 100000 ≤ u) (hfull' : u' = 0 ∨ 100000 ≤ u') : decimal u < decimal u' := by
  have hfield' : IsField 6 u' (decimal u') := isField_toDigits (w := 5) (by omega) hu'
  rcases hfull with rfl | hlow
  · have hzero : decimal 0 = ['0'] := rfl
    cases hd : decimal u' with
    | nil => exact absurd hd Nat.toDigits_ne_nil
    | cons c cs =>
      rw [hd] at hfield'
      have hdigit := digit_bounds (hfield'.digits c List.mem_cons_self)
      rw [hzero, List.cons_lt_cons_iff]
      rcases Nat.lt_or_eq_of_le hdigit.1 with hgt | heq
      · exact Or.inl (Char.lt_def.mpr hgt)
      · refine Or.inr ⟨Char.toNat_inj.mp heq, ?_⟩
        cases cs with
        | nil =>
          have hlen : 1 = 6 := hfield'.length_eq
          cases hlen
        | cons d ds => exact List.nil_lt_cons d ds
  · exact (isField_toDigits (w := 5) hlow (by omega)).lt hfield' hlt

/-- Texts whose fields have their full width are in the order of their instants. -/
theorem loggedTime_lt (h : tv.micros < tv'.micros)
    (hyear : FourDigitYear (localtime offset tv.tv_sec))
    (hyear' : FourDigitYear (localtime offset tv'.tv_sec))
    (hfull : FullWidth (localtime offset tv.tv_sec) tv.tv_usec)
    (hfull' : FullWidth (localtime offset tv'.tv_sec) tv'.tv_usec) :
    loggedTime offset tv < loggedTime offset tv' := by
  obtain ⟨year, hy, hfield⟩ := year_field hyear
  obtain ⟨year', hy', hfield'⟩ := year_field hyear'
  obtain ⟨hmon, -, hmday, hhour, hmin, hsec⟩ := localtime_bounds offset tv.tv_sec
  obtain ⟨hmon', -, hmday', hhour', hmin', hsec'⟩ := localtime_bounds offset tv'.tv_sec
  obtain ⟨hhour10, hmin10, hsec10, husec⟩ := hfull
  obtain ⟨hhour10', hmin10', hsec10', husec'⟩ := hfull'
  rw [loggedTime_eq year hy, loggedTime_eq year' hy']
  -- one field after the other; where two fields are equal the rest of the text decides
  refine hfield.append_lt hfield' ?_
  refine (localtime_lt offset h).imp (by omega) (And.imp (by omega) fun h => ?_)
  refine (isField_decimal2 (by omega)).append_lt (isField_decimal2 (by omega)) ?_
  refine h.imp (by omega) (And.imp (by omega) fun h => ?_)
  refine (isField_decimal2 (by omega)).append_lt (isField_decimal2 (by omega)) ?_
  refine h.imp_right (And.imp_right fun h => ?_)
  refine (isField_decimal hhour10 (by omega)).append_lt (isField_decimal hhour10' (by omega)) ?_
  refine h.imp_right (And.imp_right fun h => ?_)
  refine (isField_decimal hmin10 (by omega)).append_lt (isField_decimal hmin10' (by omega)) ?_
  refine h.imp_right (And.imp_right fun h => ?_)
  refine (isField_decimal hsec10 (by omega)).append_lt (isField_decimal hsec10' (by omega)) ?_
  exact h.imp_right (And.imp_right fun h => fraction_lt h tv'.usec_lt husec husec')

/-- The texts of two instants are in their order and read back as them exactly when, in both, hour,
minute and second have two digits and the microseconds are zero or have six. -/
theorem logged_times_sorted_iff (h : tv.micros < tv'.micros)
    (hyear : FourDigitYear (localtime offset tv.tv_sec))
    (hyear' : FourDigitYear (localtime offset tv'.tv_sec)) :
    (loggedTime offset tv < loggedTime offset tv' ∧
        readTime offset (loggedTime offset tv) = some tv.micros ∧
        readTime offset (loggedTime offset tv') = some tv'.micros) ↔
      FullWidth (localtime offset tv.tv_sec) tv.tv_usec ∧
        FullWidth (localtime offset tv'.tv_sec) tv'.tv_usec := by
  rw [read_loggedTime_iff hyear, read_loggedTime_iff hyear']
  constructor
  · rintro ⟨-, hfull, hfull'⟩
    exact ⟨hfull, hfull'⟩
  · rintro ⟨hfull, hfull'⟩
    exact ⟨loggedTime_lt h hyear hyear' hfull hfull', hfull, hfull'⟩

end Reading

/-- 1 January 2022, ten past ten and ten seconds, and the afternoon of that day. -/
theorem logged_times_sorted_iff_afternoon :
    loggedTime 0 ⟨1641031810, 0, by decide⟩ < loggedTime 0 ⟨1641054646, 470000, by decide⟩ ∧
      readTime 0 (loggedTime 0 ⟨1641031810, 0, by decide⟩) = some 1641031810000000 ∧
      readTime 0 (loggedTime 0 ⟨1641054646, 470000, by decide⟩) = some 1641054646470000 :=
  (logged_times_sorted_iff (by decide) (by decide +kernel) (by decide +kernel)).mpr
    ⟨by decide +kernel, by decide +kernel⟩

/-- One second before ten o'clock is written as a later text than ten o'clock. -/
theorem not_logged_times_sorted_nine :
    ¬ ∀ (offset : Int) (tv tv' : timeval), tv.micros < tv'.micros →
      FourDigitYear (localtime offset tv.tv_sec) → FourDigitYear (localtime offset tv'.tv_sec) →
      loggedTime offset tv < loggedTime offset tv' ∧
        readTime offset (loggedTime offset tv) = some tv.micros ∧
        readTime offset (loggedTime offset tv') = some tv'.micros := by
  intro hall
  have hlt := (hall 0 ⟨1641031199, 0, by decide⟩ ⟨1641031200, 0, by decide⟩ (by decide)
    (by decide +kernel) (by decide +kernel)).1
  exact absurd hlt (by decide +kernel)

end PetProject.Workers
