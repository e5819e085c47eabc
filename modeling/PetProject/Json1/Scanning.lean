import PetProject.Json1.Parser

/-!
# The loops of the parser and the grammar

What the loops of `jsonParseValue` over the bytes of a string and of a number accept: a string as
far as the quotation mark that ends it (`stringLoop_eq_some`), and the longest number
(`scanNumber_sound`, `scanNumber_complete`).
-/

set_option autoImplicit false

namespace PetProject.Json1

open PetProject.Foundation.JsonGrammar PetProject.Foundation.JsonText

section

variable {c prev : UInt8} {z rest s ds : Bytes} {seenDP seenE seenDP' : Bool}
  {jnFlags jnFlags' : UInt8}

/-! ## Bytes -/

theorem forall_byte {P : UInt8 → Bool}
    (h : (List.range 256).all (fun n => P (UInt8.ofNat n)) = true) (c : UInt8) : P c = true := by
  have hP := List.all_eq_true.mp h c.toNat (List.mem_range.mpr c.toNat_lt)
  rwa [UInt8.ofNat_toNat] at hP

theorem safe_isspace_eq (c : UInt8) : safe_isspace c = isSpace c :=
  of_decide_eq_true
    (forall_byte (P := fun c => decide (safe_isspace c = isSpace c)) (by decide +kernel) c)

/-- The classes that the bytes of a string fall into. -/
theorem unescaped_iff (c : UInt8) : isUnescaped c = true ↔
    c &&& ~~~0x1f ≠ 0 ∧ c ≠ backslash.toUInt8 ∧ c ≠ quotationMark.toUInt8 :=
  of_decide_eq_true
    (forall_byte (P := fun c => decide (isUnescaped c = true ↔ c &&& ~~~0x1f ≠ 0 ∧
      c ≠ backslash.toUInt8 ∧ c ≠ quotationMark.toUInt8)) (by decide +kernel) c)

theorem unescaped_of_hex (h : isHexDigit c = true) : isUnescaped c = true :=
  of_decide_eq_true
    (forall_byte (P := fun c => decide (isHexDigit c = true → isUnescaped c = true))
      (by decide +kernel) c) h

/-- A digit is not below `0`, and none of the other bytes of a number. -/
theorem digit_facts (h : isDigit c = true) : ¬ c < '0'.toUInt8 ∧ c ≠ '-'.toUInt8 ∧
    c ≠ '.'.toUInt8 ∧ c ≠ 'e'.toUInt8 ∧ c ≠ 'E'.toUInt8 ∧ c ≠ '+'.toUInt8 :=
  of_decide_eq_true
    (forall_byte (P := fun c => decide (isDigit c = true → ¬ c < '0'.toUInt8 ∧ c ≠ '-'.toUInt8 ∧
      c ≠ '.'.toUInt8 ∧ c ≠ 'e'.toUInt8 ∧ c ≠ 'E'.toUInt8 ∧ c ≠ '+'.toUInt8))
      (by decide +kernel) c) h

/-! ## Strings -/

theorem exists_of_jsonIs4Hex (h : jsonIs4Hex z = true) :
    ∃ h₁ h₂ h₃ h₄ z', z = h₁ :: h₂ :: h₃ :: h₄ :: z' ∧ [h₁, h₂, h₃, h₄].all isHexDigit = true := by
  have hlast : isHexDigit (z.getD 3 0) = true := List.all_eq_true.mp h 3 (by decide)
  match z with
  | h₁ :: h₂ :: h₃ :: h₄ :: z' => exact ⟨h₁, h₂, h₃, h₄, z', rfl, h⟩
  | [] | [_] | [_, _] | [_, _, _] =>
    have hzero : isHexDigit 0 = true := hlast
    exact absurd hzero (by decide)

/-- The four digits of an escape are bytes that stand for themselves. -/
theorem Chars.unicode_of_hex (h : jsonIs4Hex (s ++ quotationMark.toUInt8 :: rest) = true)
    (hs : Chars s) : Chars (backslash.toUInt8 :: 'u'.toUInt8 :: s) := by
  obtain ⟨h₁, h₂, h₃, h₄, z', heq, hhex⟩ := exists_of_jsonIs4Hex h
  have hall := List.all_eq_true.mp hhex
  have hquote : isHexDigit quotationMark.toUInt8 = false := by decide
  have hback : isHexDigit backslash.toUInt8 = false := by decide
  -- a digit in the string is no escape and not the end of it
  have htail {d : UInt8} {s z' : Bytes} (hd : isHexDigit d = true) (hs : Chars s)
      (heq : s ++ quotationMark.toUInt8 :: rest = d :: z') :
      ∃ s', s = d :: s' ∧ Chars s' ∧ s' ++ quotationMark.toUInt8 :: rest = z' := by
    cases hs with
    | nil =>
      cases heq
      rw [hquote] at hd
      cases hd
    | plain _ hs =>
      cases heq
      exact ⟨_, rfl, hs, rfl⟩
    | escape _ _ =>
      cases heq
      rw [hback] at hd
      cases hd
    | unicode _ _ =>
      cases heq
      rw [hback] at hd
      cases hd
  obtain ⟨s, rfl, hs, heq⟩ := htail (hall h₁ (by simp)) hs heq
  obtain ⟨s, rfl, hs, heq⟩ := htail (hall h₂ (by simp)) hs heq
  obtain ⟨s, rfl, hs, heq⟩ := htail (hall h₃ (by simp)) hs heq
  obtain ⟨s, rfl, hs, heq⟩ := htail (hall h₄ (by simp)) hs heq
  exact Chars.unicode hhex hs

/-- The flags of a string behind the flags `jnFlags`. -/
def flagsOf (jnFlags : UInt8) (s : Bytes) : UInt8 :=
  if backslash.toUInt8 ∈ s then JNODE_ESCAPE else jnFlags

theorem flagsOf_escape (s : Bytes) : flagsOf JNODE_ESCAPE s = JNODE_ESCAPE := ite_self _

theorem flagsOf_backslash (jnFlags : UInt8) (s : Bytes) :
    flagsOf jnFlags (backslash.toUInt8 :: s) = JNODE_ESCAPE :=
  if_pos (List.mem_cons_self ..)

theorem flagsOf_cons (jnFlags : UInt8) (hc : isUnescaped c = true) (s : Bytes) :
    flagsOf jnFlags (c :: s) = flagsOf jnFlags s := by
  have hne := ((unescaped_iff c).mp hc).2.1
  unfold flagsOf
  simp only [List.mem_cons, Ne.symm hne, false_or]

theorem stringLoop_plain (hc : isUnescaped c = true) (z : Bytes) :
    stringLoop jnFlags (c :: z) = stringLoop jnFlags z := by
  obtain ⟨hcontrol, hback, hquote⟩ := (unescaped_iff c).mp hc
  cases z <;> simp only [stringLoop, if_neg hcontrol, if_neg hback, if_neg hquote]

theorem stringLoop_escape (hc : c ∈ escapeLetters ∨ (c = 'u'.toUInt8 ∧ jsonIs4Hex z)) :
    stringLoop jnFlags (backslash.toUInt8 :: c :: z) = stringLoop JNODE_ESCAPE z := by
  have hcontrol : ¬ backslash.toUInt8 &&& ~~~0x1f = 0 := by decide
  simp only [stringLoop, if_neg hcontrol, if_pos, if_pos hc]

theorem stringLoop_end (jnFlags : UInt8) (z : Bytes) :
    stringLoop jnFlags (quotationMark.toUInt8 :: z) = some (jnFlags, z) := by
  have hcontrol : ¬ quotationMark.toUInt8 &&& ~~~0x1f = 0 := by decide
  have hback : ¬ quotationMark.toUInt8 = backslash.toUInt8 := by decide
  cases z <;> simp only [stringLoop, if_neg hcontrol, if_neg hback, if_pos]

theorem stringLoop_complete (hs : Chars s) (jnFlags : UInt8) (rest : Bytes) :
    stringLoop jnFlags (s ++ quotationMark.toUInt8 :: rest) = some (flagsOf jnFlags s, rest) := by
  induction hs generalizing jnFlags with
  | nil => exact stringLoop_end jnFlags rest
  | plain hc _ ih =>
    rw [List.cons_append, stringLoop_plain hc, ih, flagsOf_cons jnFlags hc]
  | escape hc _ ih =>
    rw [List.cons_append, List.cons_append, stringLoop_escape (Or.inl hc), ih, flagsOf_escape,
      flagsOf_backslash]
  | @unicode h₁ h₂ h₃ h₄ s hhex _ ih =>
    have hplain (d : UInt8) (hd : d ∈ [h₁, h₂, h₃, h₄]) : isUnescaped d = true :=
      unescaped_of_hex (List.all_eq_true.mp hhex d hd)
    have hfour : jsonIs4Hex (h₁ :: h₂ :: h₃ :: h₄ :: (s ++ quotationMark.toUInt8 :: rest)) = true :=
      hhex
    simp only [List.cons_append]
    rw [stringLoop_escape (Or.inr ⟨rfl, hfour⟩), stringLoop_plain (hplain h₁ (by simp)),
      stringLoop_plain (hplain h₂ (by simp)), stringLoop_plain (hplain h₃ (by simp)),
      stringLoop_plain (hplain h₄ (by simp)), ih, flagsOf_escape, flagsOf_backslash]

theorem stringLoop_sound (h : stringLoop jnFlags z = some (jnFlags', rest)) :
    ∃ s, Chars s ∧ z = s ++ quotationMark.toUInt8 :: rest ∧ jnFlags' = flagsOf jnFlags s := by
  fun_induction stringLoop jnFlags z with
  | case1 | case2 | case3 | case5 => cases h
  | case4 jnFlags c hcontrol d hd ih =>
    obtain ⟨s, hs, rfl, rfl⟩ := ih h
    rw [flagsOf_escape]
    refine ⟨backslash.toUInt8 :: c :: s, ?_, rfl, (flagsOf_backslash _ _).symm⟩
    rcases d with hletter | ⟨rfl, hhex⟩
    · exact Chars.escape hletter hs
    · exact Chars.unicode_of_hex hhex hs
  | case6 =>
    cases h
    exact ⟨[], Chars.nil, rfl, rfl⟩
  | case7 jnFlags c z hcontrol hback hquote ih =>
    obtain ⟨s, hs, rfl, rfl⟩ := ih h
    have hc : isUnescaped c = true := (unescaped_iff c).mpr ⟨hcontrol, hback, hquote⟩
    exact ⟨c :: s, Chars.plain hc hs, rfl, (flagsOf_cons jnFlags hc s).symm⟩

/-! ## Numbers -/

/-- What the loop over a number reads behind the byte `prev`. -/
structure Numeral (prev : UInt8) (seenDP seenE : Bool) (ds frac exp : Bytes) : Prop where
  allDigits : AllDigits ds
  isFrac : IsFrac frac
  isExp : IsExp exp
  onePoint : seenDP = true → frac = []
  oneExp : seenE = true → exp = []
  /-- A digit stands in front of the end and of an exponent. -/
  solid : ds = [] → frac = [] → ¬ prev < '0'.toUInt8
  unsigned : ds = [] → frac ≠ [] → prev ≠ '-'.toUInt8

theorem Numeral.stop (h : ¬ prev < '0'.toUInt8) : Numeral prev seenDP seenE [] [] [] :=
  ⟨fun _ h => absurd h List.not_mem_nil, IsFrac.none, IsExp.none, fun _ => rfl, fun _ => rfl,
    fun _ _ => h, fun _ h => absurd rfl h⟩

/-- Behind an exponent and its sign there are digits. -/
theorem Numeral.exponent {ds frac exp : Bytes} (h : Numeral prev true true ds frac exp)
    (hz : z = ds ++ (frac ++ (exp ++ rest))) (hdigit : isDigit (first z) = true)
    (hrest : isDigit (first rest) = false) : z = ds ++ rest ∧ ds ≠ [] ∧ AllDigits ds := by
  rw [h.onePoint rfl, h.oneExp rfl, List.nil_append, List.nil_append] at hz
  refine ⟨hz, ?_, h.allDigits⟩
  rintro rfl
  rw [hz, List.nil_append, hrest] at hdigit
  cases hdigit

theorem isReal_exp {e : UInt8} (he : e = 'e'.toUInt8 ∨ e = 'E'.toUInt8) (ds : Bytes) :
    isReal (e :: ds) = true := by
  rcases he with rfl | rfl <;> rfl

theorem numberLoop_sound (h : numberLoop prev seenDP seenE z = some (seenDP', rest)) :
    isDigit (first rest) = false ∧ ∃ ds frac exp, z = ds ++ (frac ++ (exp ++ rest)) ∧
      Numeral prev seenDP seenE ds frac exp ∧ seenDP' = (seenDP || isReal (frac ++ exp)) := by
  fun_induction numberLoop prev seenDP seenE z with
  | case1 | case4 | case5 | case7 | case8 | case9 | case11 | case13 | case14 => cases h
  | case2 prev seenDP seenE hprev =>
    cases h
    exact ⟨rfl, [], [], [], rfl, Numeral.stop hprev, (Bool.or_false _).symm⟩
  | case3 prev seenDP seenE c z hc ih =>
    obtain ⟨hrest, ds, frac, exp, rfl, hnum, hreal⟩ := ih h
    refine ⟨hrest, c :: ds, frac, exp, rfl, ?_, hreal⟩
    exact ⟨List.forall_mem_cons.mpr ⟨hc, hnum.allDigits⟩, hnum.isFrac, hnum.isExp, hnum.onePoint,
      hnum.oneExp, fun h => (List.cons_ne_nil _ _ h).elim, fun h => (List.cons_ne_nil _ _ h).elim⟩
  | case6 prev seenDP seenE z hminus hdp _ ih =>
    obtain ⟨hrest, ds, frac, exp, rfl, hnum, hreal⟩ := ih h
    have hfrac : frac = [] := hnum.onePoint rfl
    subst hfrac
    have hne : ds ≠ [] := fun h => hnum.solid h rfl (by decide)
    refine ⟨hrest, [], '.'.toUInt8 :: ds, exp, rfl, ?_, ?_⟩
    · exact ⟨fun _ h => absurd h List.not_mem_nil, IsFrac.point hne hnum.allDigits, hnum.isExp,
        fun h => absurd h hdp, hnum.oneExp, fun _ h => (List.cons_ne_nil _ _ h).elim,
        fun _ _ => hminus⟩
    · rw [hreal]
      exact (Bool.or_true _).symm
  | case10 prev seenDP seenE c _ _ he hprev hseen s z hs hdigit ih =>
    obtain ⟨hrest, ds, frac, exp, hz, hnum, hreal⟩ := ih h
    obtain ⟨rfl, hne, hds⟩ := hnum.exponent hz hdigit hrest
    refine ⟨hrest, [], [], c :: s :: ds, rfl, ?_, ?_⟩
    · exact ⟨fun _ h => absurd h List.not_mem_nil, IsFrac.none, IsExp.signed he hs hne hds,
        fun _ => rfl, fun h => absurd h hseen, fun _ _ => hprev, fun _ h => absurd rfl h⟩
    · rw [hreal, List.nil_append, isReal_exp he, Bool.or_true]
      rfl
  | case12 prev seenDP seenE c _ _ he hprev hseen d z _ hdigit ih =>
    obtain ⟨hrest, ds, frac, exp, hz, hnum, hreal⟩ := ih h
    obtain ⟨hz, hne, hds⟩ := hnum.exponent hz hdigit hrest
    rw [hz]
    refine ⟨hrest, [], [], c :: ds, rfl, ?_, ?_⟩
    · exact ⟨fun _ h => absurd h List.not_mem_nil, IsFrac.none, IsExp.digits he hne hds,
        fun _ => rfl, fun h => absurd h hseen, fun _ _ => hprev, fun _ h => absurd rfl h⟩
    · rw [hreal, List.nil_append, isReal_exp he, Bool.or_true]
      rfl
  | case15 prev seenDP seenE c z hc _ _ hprev =>
    cases h
    exact ⟨Bool.eq_false_iff.mpr hc, [], [], [], rfl, Numeral.stop hprev, (Bool.or_false _).symm⟩

theorem numberLoop_digit (hc : isDigit c = true) (prev : UInt8) (seenDP seenE : Bool) (z : Bytes) :
    numberLoop prev seenDP seenE (c :: z) = numberLoop c seenDP seenE z := by
  rw [numberLoop.eq_def prev]
  exact if_pos hc

/-- The loop goes on behind digits, the last of which is `d`. -/
theorem numberLoop_digits (hds : AllDigits ds) {d : UInt8} (hd : isDigit d = true)
    (seenDP seenE : Bool) (z : Bytes) : ∃ d', isDigit d' = true ∧
      numberLoop d seenDP seenE (ds ++ z) = numberLoop d' seenDP seenE z := by
  induction ds generalizing d with
  | nil => exact ⟨d, hd, rfl⟩
  | cons c ds ih =>
    obtain ⟨hc, hds⟩ := List.forall_mem_cons.mp hds
    obtain ⟨d', hd', hloop⟩ := ih hds hc
    exact ⟨d', hd', (numberLoop_digit hc ..).trans hloop⟩

theorem numberLoop_some_digits (hne : ds ≠ []) (hds : AllDigits ds) (prev : UInt8)
    (seenDP seenE : Bool) (z : Bytes) : ∃ d', isDigit d' = true ∧
      numberLoop prev seenDP seenE (ds ++ z) = numberLoop d' seenDP seenE z := by
  cases ds with
  | nil => exact absurd rfl hne
  | cons d ds =>
    obtain ⟨hd, hds⟩ := List.forall_mem_cons.mp hds
    obtain ⟨d', hd', hloop⟩ := numberLoop_digits hds hd seenDP seenE z
    exact ⟨d', hd', (numberLoop_digit hd ..).trans hloop⟩

theorem numberLoop_end (hprev : isDigit prev = true) (hrest : Ends (first rest))
    (seenDP seenE : Bool) : numberLoop prev seenDP seenE rest = some (seenDP, rest) := by
  have hlow := (digit_facts hprev).1
  cases rest with
  | nil => rw [numberLoop, if_neg hlow]
  | cons c rest =>
    obtain ⟨hdigit, hletter, hpoint⟩ := hrest
    have he : ¬ (c = 'e'.toUInt8 ∨ c = 'E'.toUInt8) := by
      rintro (rfl | rfl)
      · exact Bool.noConfusion (hletter : true = false)
      · exact Bool.noConfusion (hletter : true = false)
    have hdigit' : ¬ isDigit c = true := Bool.eq_false_iff.mp hdigit
    have hpoint' : ¬ c = '.'.toUInt8 := hpoint
    rw [numberLoop.eq_def]
    simp only [if_neg hdigit', if_neg hpoint', if_neg he, if_neg hlow]

theorem first_digits (hne : ds ≠ []) (hds : AllDigits ds) (z : Bytes) :
    isDigit (first (ds ++ z)) = true := by
  cases ds with
  | nil => exact absurd rfl hne
  | cons d ds => exact hds d (List.mem_cons_self ..)

theorem numberLoop_exp {exp : Bytes} (hexp : IsExp exp) (hprev : isDigit prev = true)
    (hrest : Ends (first rest)) (seenDP : Bool) :
    numberLoop prev seenDP false (exp ++ rest) = some (seenDP || isReal exp, rest) := by
  have hlow := (digit_facts hprev).1
  -- the letter of the exponent is no digit and no point
  have hletter {e : UInt8} (he : e = 'e'.toUInt8 ∨ e = 'E'.toUInt8) :
      ¬ isDigit e = true ∧ ¬ e = '.'.toUInt8 := by
    rcases he with rfl | rfl <;> decide
  cases hexp with
  | none => rw [List.nil_append, numberLoop_end hprev hrest]; exact congrArg some (by simp [isReal])
  | @digits e ds he hne hds =>
    obtain ⟨hdigit, hpoint⟩ := hletter he
    obtain ⟨d', hd', hloop⟩ := numberLoop_some_digits hne hds e true true rest
    have hfirst := first_digits hne hds rest
    cases hz : ds ++ rest with
    | nil =>
      rw [hz] at hfirst
      exact absurd hfirst (by decide)
    | cons d z =>
      rw [hz] at hfirst
      have hfirst' : isDigit d = true := hfirst
      have hsign : ¬ (d = '+'.toUInt8 ∨ d = '-'.toUInt8) := by
        obtain ⟨-, hminus, -, -, -, hplus⟩ := digit_facts hfirst'
        exact not_or.mpr ⟨hplus, hminus⟩
      rw [hz] at hloop
      rw [List.cons_append, hz, numberLoop, if_neg hdigit, if_neg hpoint, if_pos he, if_neg hlow,
        isReal_exp he, Bool.or_true]
      simp only [Bool.false_eq_true, if_false, if_neg hsign, if_pos hfirst']
      rw [hloop, numberLoop_end hd' hrest]
  | @signed e s ds he hs hne hds =>
    obtain ⟨hdigit, hpoint⟩ := hletter he
    obtain ⟨d', hd', hloop⟩ := numberLoop_some_digits hne hds s true true rest
    rw [List.cons_append, List.cons_append, numberLoop, if_neg hdigit, if_neg hpoint, if_pos he,
      if_neg hlow, isReal_exp he, Bool.or_true]
    simp only [Bool.false_eq_true, if_false, if_pos hs, if_pos (first_digits hne hds rest)]
    rw [hloop, numberLoop_end hd' hrest]

theorem numberLoop_frac {frac exp : Bytes} (hfrac : IsFrac frac) (hexp : IsExp exp)
    (hprev : isDigit prev = true) (hrest : Ends (first rest)) :
    numberLoop prev false false (frac ++ (exp ++ rest)) = some (isReal (frac ++ exp), rest) := by
  cases hfrac with
  | none =>
    rw [List.nil_append, numberLoop_exp hexp hprev hrest]
    rfl
  | @point ds hne hds =>
    have hdigit : ¬ isDigit '.'.toUInt8 = true := by decide
    obtain ⟨d', hd', hloop⟩ := numberLoop_some_digits hne hds '.'.toUInt8 true false (exp ++ rest)
    rw [List.cons_append]
    have hstep : numberLoop prev false false ('.'.toUInt8 :: (ds ++ (exp ++ rest))) =
        numberLoop '.'.toUInt8 true false (ds ++ (exp ++ rest)) := by
      cases ds ++ (exp ++ rest) <;>
        simp only [numberLoop, if_neg hdigit, if_pos, if_neg (digit_facts hprev).2.1,
          Bool.false_eq_true, if_false]
    rw [hstep, hloop, numberLoop_exp hexp hd' hrest]
    rfl

/-! ### Whole numbers -/

/-- The condition under which `jsonParseValue` gives up before the loop. -/
def LeadingZero (z : Bytes) : Prop := first z = '0'.toUInt8 ∧ isDigit (first z.tail) = true

instance (z : Bytes) : Decidable (LeadingZero z) := inferInstanceAs (Decidable (_ ∧ _))

theorem scanNumber_minus (z : Bytes) : scanNumber ('-'.toUInt8 :: z) =
    if LeadingZero z then none else numberLoop '-'.toUInt8 false false z := by
  have htest : ('-'.toUInt8 ≤ '0'.toUInt8 ∧ first z = '0'.toUInt8 ∧
      isDigit (first z.tail) = true) ↔ LeadingZero z := and_iff_right (by decide)
  exact if_congr htest rfl rfl

theorem scanNumber_digit (hc : isDigit c = true) (z : Bytes) : scanNumber (c :: z) =
    if LeadingZero (c :: z) then none else numberLoop c false false (c :: z) := by
  have hminus : ¬ c = '-'.toUInt8 := (digit_facts hc).2.1
  have htest : (c ≤ '0'.toUInt8 ∧ first (c :: z) = '0'.toUInt8 ∧
      isDigit (first (c :: z).tail) = true) ↔ LeadingZero (c :: z) := by
    refine and_iff_right_of_imp fun h => ?_
    have hzero : c = '0'.toUInt8 := h.1
    exact hzero ▸ UInt8.le_refl _
  rw [numberLoop_digit hc]
  unfold scanNumber
  have hfirst : ¬ first (c :: z) = '-'.toUInt8 := hminus
  simp only [if_neg hfirst]
  exact if_congr htest rfl rfl

theorem isInt_of_digits {d : UInt8} {z : Bytes} (hd : isDigit d = true) (hds : AllDigits ds)
    (hzero : ¬ LeadingZero (d :: (ds ++ z))) : IsInt (d :: ds) := by
  by_cases h : d = '0'.toUInt8
  · subst h
    cases ds with
    | nil => exact IsInt.zero
    | cons d' ds => exact absurd ⟨rfl, hds d' (List.mem_cons_self ..)⟩ hzero
  · exact IsInt.digits hd h hds

theorem not_leadingZero {int : Bytes} (hint : IsInt int) (hz : isDigit (first z) = false) :
    ¬ LeadingZero (int ++ z) := by
  rintro ⟨hzero, hdigit⟩
  cases hint with
  | zero =>
    rw [← Bool.not_eq_true] at hz
    exact hz hdigit
  | digits _ hne _ => exact hne hzero

theorem exists_of_isInt {int : Bytes} (hint : IsInt int) : ∃ d ds, int = d :: ds ∧
    isDigit d = true ∧ AllDigits ds := by
  cases hint with
  | zero => exact ⟨_, [], rfl, by decide, fun _ h => absurd h List.not_mem_nil⟩
  | digits hd _ hds => exact ⟨_, _, rfl, hd, hds⟩

theorem isReal_append (x y : Bytes) : isReal (x ++ y) = (isReal x || isReal y) := List.any_append

theorem isReal_digits (hds : AllDigits ds) : isReal ds = false := by
  refine List.any_eq_false.mpr fun c hc => ?_
  obtain ⟨-, -, hpoint, he, hE, -⟩ := digit_facts (hds c hc)
  simp only [hpoint, he, hE, decide_false, Bool.or_self, Bool.false_eq_true, not_false_eq_true]

/-- What follows the integer part is no digit. -/
theorem first_frac_exp {frac exp : Bytes} (hfrac : IsFrac frac) (hexp : IsExp exp)
    (hrest : isDigit (first rest) = false) :
    isDigit (first (frac ++ (exp ++ rest))) = false := by
  cases hfrac with
  | point _ _ => rfl
  | none =>
    cases hexp with
    | none => exact hrest
    | digits he _ _ => rcases he with rfl | rfl <;> rfl
    | signed he _ _ _ => rcases he with rfl | rfl <;> rfl

theorem numberLoop_unsigned_sound (h : numberLoop prev false false z = some (seenDP', rest))
    (hprev : isDigit (first z) = true ∨ prev = '-'.toUInt8) (hzero : ¬ LeadingZero z) :
    ∃ w, IsUnsigned w ∧ z = w ++ rest ∧ seenDP' = isReal w := by
  obtain ⟨hrest, ds, frac, exp, rfl, hnum, hreal⟩ := numberLoop_sound h
  cases ds with
  | nil =>
    exfalso
    rcases hprev with hdigit | rfl
    · rw [List.nil_append, first_frac_exp hnum.isFrac hnum.isExp hrest] at hdigit
      cases hdigit
    · by_cases hfrac : frac = []
      · exact hnum.solid rfl hfrac (by decide)
      · exact hnum.unsigned rfl hfrac rfl
  | cons d ds =>
    obtain ⟨hd, hds⟩ := List.forall_mem_cons.mp hnum.allDigits
    refine ⟨d :: ds ++ (frac ++ exp), ⟨_, frac, exp, isInt_of_digits hd hds hzero, hnum.isFrac,
      hnum.isExp, rfl⟩, by simp only [List.append_assoc], ?_⟩
    rw [hreal, isReal_append (d :: ds), isReal_digits hnum.allDigits]

theorem numberLoop_unsigned_complete {w : Bytes} (hw : IsUnsigned w) (hrest : Ends (first rest))
    (prev : UInt8) : isDigit (first w) = true ∧ ¬ LeadingZero (w ++ rest) ∧
      numberLoop prev false false (w ++ rest) = some (isReal w, rest) := by
  obtain ⟨int, frac, exp, hint, hfrac, hexp, rfl⟩ := hw
  have hfirst := first_frac_exp hfrac hexp hrest.1
  rw [List.append_assoc, List.append_assoc]
  have hzero := not_leadingZero hint hfirst
  obtain ⟨d, ds, rfl, hd, hds⟩ := exists_of_isInt hint
  have hall : AllDigits (d :: ds) := List.forall_mem_cons.mpr ⟨hd, hds⟩
  obtain ⟨d', hd', hloop⟩ :=
    numberLoop_some_digits (List.cons_ne_nil d ds) hall prev false false (frac ++ (exp ++ rest))
  refine ⟨hd, hzero, ?_⟩
  rw [hloop, numberLoop_frac hfrac hexp hd' hrest, isReal_append (d :: ds), isReal_digits hall]
  rfl

theorem scanNumber_sound (h : scanNumber z = some (seenDP', rest))
    (hz : first z = '-'.toUInt8 ∨ isDigit (first z) = true) :
    ∃ w, IsNumber w ∧ z = w ++ rest ∧ seenDP' = isReal w := by
  cases z with
  | nil => exact absurd hz (by decide)
  | cons c z =>
    rcases hz with hc | hd
    · obtain rfl : c = '-'.toUInt8 := hc
      rw [scanNumber_minus] at h
      split at h
      · cases h
      · rename_i hzero
        obtain ⟨w, hw, rfl, rfl⟩ := numberLoop_unsigned_sound h (Or.inr rfl) hzero
        exact ⟨_, IsNumber.minus hw, rfl, rfl⟩
    · have hc : isDigit c = true := hd
      rw [scanNumber_digit hc] at h
      split at h
      · cases h
      · rename_i hzero
        obtain ⟨w, hw, heq, rfl⟩ := numberLoop_unsigned_sound h (Or.inl hd) hzero
        exact ⟨w, IsNumber.unsigned hw, heq, rfl⟩

theorem scanNumber_complete {w : Bytes} (hw : IsNumber w) (hrest : Ends (first rest)) :
    scanNumber (w ++ rest) = some (isReal w, rest) := by
  cases hw with
  | unsigned hw =>
    cases w with
    | nil => exact absurd (numberLoop_unsigned_complete hw hrest 0).1 (by decide)
    | cons c w =>
      obtain ⟨hd, hzero, hloop⟩ := numberLoop_unsigned_complete hw hrest c
      have hc : isDigit c = true := hd
      exact (scanNumber_digit hc (w ++ rest)).trans ((if_neg hzero).trans hloop)
  | minus hw =>
    obtain ⟨-, hzero, hloop⟩ := numberLoop_unsigned_complete hw hrest '-'.toUInt8
    rw [List.cons_append, scanNumber_minus, if_neg hzero, hloop]
    rfl

end

end PetProject.Json1
