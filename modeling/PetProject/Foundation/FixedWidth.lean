import Mathlib.Algebra.Group.Nat.Hom
import Mathlib.Data.Char
import Mathlib.Data.List.Basic

/-!
# Decimal fields of fixed width

A text `ds` is the number `n` in `w` digits (`IsField`) when it has `w` digits with that value.
Fields of one width are ordered as texts as they are as numbers, and so are sequences of such fields
(`IsField.append_lt`). Reading a field takes exactly its digits and the separator behind it
(`readField`); a text with fewer digits in front of the separator is no field (`readField_short`).
-/

set_option autoImplicit false

namespace PetProject.Foundation.FixedWidth

/-- The value of a text of decimal digits. -/
def value (ds : List Char) : Nat := Nat.ofDigitChars 10 ds 0

/-- The text is the number `n` in `w` digits. -/
structure IsField (w n : Nat) (ds : List Char) : Prop where
  length_eq : ds.length = w
  digits : ∀ c ∈ ds, c.isDigit = true
  value_eq : value ds = n

/-! ## Values -/

section Values

variable {c d : Char} {cs ds : List Char}

theorem value_cons (c : Char) (cs : List Char) :
    value (c :: cs) = 10 ^ cs.length * (c.toNat - '0'.toNat) + value cs := by
  unfold value
  rw [Nat.ofDigitChars_cons, Nat.ofDigitChars_eq_ofDigitChars_zero, Nat.mul_zero, Nat.zero_add]

theorem digit_bounds (h : c.isDigit = true) : 48 ≤ c.toNat ∧ c.toNat ≤ 57 := by
  simp only [Char.isDigit, Bool.and_eq_true, decide_eq_true_eq] at h
  exact h

theorem digit_lt (hc : c.isDigit = true) (hd : d.isDigit = true)
    (h : c.toNat - '0'.toNat < d.toNat - '0'.toNat) : c < d := by
  have hc' := digit_bounds hc
  have hd' := digit_bounds hd
  have hzero : '0'.toNat = 48 := rfl
  exact Char.lt_def.mpr (by show c.toNat < d.toNat; omega)

theorem digit_eq (hc : c.isDigit = true) (hd : d.isDigit = true)
    (h : c.toNat - '0'.toNat = d.toNat - '0'.toNat) : c = d := by
  have hc' := digit_bounds hc
  have hd' := digit_bounds hd
  have hzero : '0'.toNat = 48 := rfl
  exact Char.toNat_inj.mp (by omega)

theorem value_lt (h : ∀ c ∈ ds, c.isDigit = true) : value ds < 10 ^ ds.length := by
  induction ds with
  | nil => decide
  | cons c cs ih =>
    have hdigit := digit_bounds (h c List.mem_cons_self)
    have hrest := ih fun d hd => h d (List.mem_cons_of_mem c hd)
    have hzero : '0'.toNat = 48 := rfl
    have hlead : 10 ^ cs.length * (c.toNat - '0'.toNat) ≤ 10 ^ cs.length * 9 :=
      Nat.mul_le_mul_left _ (by omega)
    rw [value_cons, List.length_cons, Nat.pow_succ]
    omega

/-- Digit texts of one length are ordered as their values. -/
theorem lt_or_eq_of_value {xs ys : List Char} (hlen : xs.length = ys.length)
    (hxs : ∀ c ∈ xs, c.isDigit = true) (hys : ∀ c ∈ ys, c.isDigit = true)
    (h : value xs ≤ value ys) : xs < ys ∨ xs = ys := by
  induction xs generalizing ys with
  | nil =>
    rw [List.length_eq_zero_iff.mp hlen.symm]
    exact Or.inr rfl
  | cons c cs ih =>
    cases ys with
    | nil => cases hlen
    | cons d ds =>
      have hlen' : cs.length = ds.length := Nat.succ.inj hlen
      have hc := hxs c List.mem_cons_self
      have hd := hys d List.mem_cons_self
      have hcs := fun e he => hxs e (List.mem_cons_of_mem c he)
      have hds := fun e he => hys e (List.mem_cons_of_mem d he)
      rw [value_cons, value_cons, hlen'] at h
      rw [List.cons_lt_cons_iff]
      rcases Nat.lt_trichotomy (c.toNat - '0'.toNat) (d.toNat - '0'.toNat) with hlt | heq | hgt
      · exact Or.inl (Or.inl (digit_lt hc hd hlt))
      · have hchar := digit_eq hc hd heq
        rw [heq] at h
        rcases ih hlen' hcs hds (Nat.le_of_add_le_add_left h) with hrest | hrest
        · exact Or.inl (Or.inr ⟨hchar, hrest⟩)
        · exact Or.inr (by rw [hchar, hrest])
      · -- the larger first digit outweighs the rest
        have hrest := value_lt hds
        rw [hlen'] at *
        have hlead : 10 ^ ds.length * (d.toNat - '0'.toNat + 1) ≤
            10 ^ ds.length * (c.toNat - '0'.toNat) := Nat.mul_le_mul_left _ hgt
        rw [Nat.mul_add, Nat.mul_one] at hlead
        omega

end Values

/-! ## Order -/

section Order

variable {w n m : Nat} {a b x y : List Char}

theorem append_lt_of_lt (hlen : a.length = b.length) (h : a < b) : a ++ x < b ++ y := by
  induction a generalizing b with
  | nil =>
    rw [List.length_eq_zero_iff.mp hlen.symm] at h
    exact absurd h (List.lt_irrefl [])
  | cons c cs ih =>
    cases b with
    | nil => cases hlen
    | cons d ds =>
      rw [List.cons_append, List.cons_append, List.cons_lt_cons_iff]
      rcases List.cons_lt_cons_iff.mp h with hlt | ⟨heq, hrest⟩
      · exact Or.inl hlt
      · exact Or.inr ⟨heq, ih (Nat.succ.inj hlen) hrest⟩

theorem IsField.lt (ha : IsField w n a) (hb : IsField w m b) (h : n < m) : a < b := by
  have hlen : a.length = b.length := ha.length_eq.trans hb.length_eq.symm
  rw [← ha.value_eq, ← hb.value_eq] at h
  rcases lt_or_eq_of_value hlen ha.digits hb.digits (Nat.le_of_lt h) with hlt | heq
  · exact hlt
  · rw [heq] at h
    exact absurd h (Nat.lt_irrefl _)

theorem IsField.unique (ha : IsField w n a) (hb : IsField w n b) : a = b := by
  have hlen : a.length = b.length := ha.length_eq.trans hb.length_eq.symm
  have hvalue : value a = value b := ha.value_eq.trans hb.value_eq.symm
  rcases lt_or_eq_of_value hlen ha.digits hb.digits (Nat.le_of_eq hvalue) with hlt | heq
  · rcases lt_or_eq_of_value hlen.symm hb.digits ha.digits (Nat.le_of_eq hvalue.symm) with
      hgt | heq
    · exact absurd hgt (List.lt_asymm hlt)
    · exact heq.symm
  · exact heq

/-- With the same separator behind them, fields decide the order, and equal fields leave it to the
rest. -/
theorem IsField.append_lt {c : Char} (ha : IsField w n a) (hb : IsField w m b)
    (h : n < m ∨ n = m ∧ x < y) : a ++ c :: x < b ++ c :: y := by
  rcases h with hlt | ⟨rfl, hrest⟩
  · exact append_lt_of_lt (ha.length_eq.trans hb.length_eq.symm) (ha.lt hb hlt)
  · rw [ha.unique hb]
    apply List.append_left_lt
    exact List.cons_lt_cons_iff.mpr (Or.inr ⟨rfl, hrest⟩)

end Order

/-! ## The decimal digits of a number -/

section Digits

variable {w n : Nat}

/-- The digits of a number without leading zeros. -/
theorem isField_toDigits (hlow : 10 ^ w ≤ n) (hhigh : n < 10 ^ (w + 1)) :
    IsField (w + 1) n (Nat.toDigits 10 n) where
  length_eq := by
    have hle := (Nat.length_toDigits_le_iff (b := 10) (by decide) (Nat.succ_pos w)).mpr hhigh
    -- one digit fewer would make the number smaller than the power of ten
    have hge : ¬ (Nat.toDigits 10 n).length ≤ w := by
      intro hshort
      cases w with
      | zero =>
        have hpos : 0 < (Nat.toDigits 10 n).length := Nat.length_toDigits_pos
        omega
      | succ w =>
        have hlt := (Nat.length_toDigits_le_iff (b := 10) (by decide) (Nat.succ_pos w)).mp hshort
        omega
    omega
  digits _ hc := Nat.isDigit_of_mem_toDigits (by decide) (by decide) hc
  value_eq := Nat.ofDigitChars_ten_toDigits

/-- The digits of a number, padded with zeros. -/
theorem isField_leftpad (hpos : 0 < w) (hn : n < 10 ^ w) :
    IsField w n ((Nat.toDigits 10 n).leftpad w '0') where
  length_eq := by
    have hle := (Nat.length_toDigits_le_iff (b := 10) (by decide) hpos).mpr hn
    rw [List.length_leftpad]
    exact Nat.max_eq_left hle
  digits c hc := by
    unfold List.leftpad at hc
    rcases List.mem_append.mp hc with hpad | hdigit
    · rw [List.eq_of_mem_replicate hpad]
      rfl
    · exact Nat.isDigit_of_mem_toDigits (by decide) (by decide) hdigit
  value_eq := by
    unfold List.leftpad value
    rw [Nat.ofDigitChars_append, Nat.ofDigitChars_replicate_zero, Nat.mul_zero]
    exact Nat.ofDigitChars_ten_toDigits

end Digits

/-! ## Reading -/

/-- A number of exactly `w` digits and the separator behind it; the rest of the text. -/
def readField (w : Nat) (sep : Char) (s : List Char) : Option (Nat × List Char) :=
  match s.drop w with
  | c :: rest =>
      if c = sep ∧ (s.take w).all Char.isDigit = true then some (value (s.take w), rest) else none
  | [] => none

section Reading

variable {w n : Nat} {ds rest : List Char} {sep : Char}

theorem IsField.readField (h : IsField w n ds) :
    readField w sep (ds ++ sep :: rest) = some (n, rest) := by
  have htake : (ds ++ sep :: rest).take w = ds := by
    rw [← h.length_eq]
    exact List.take_left
  have hdrop : (ds ++ sep :: rest).drop w = sep :: rest := by
    rw [← h.length_eq]
    exact List.drop_left
  unfold FixedWidth.readField
  rw [hdrop, htake, ← h.value_eq]
  exact if_pos ⟨rfl, List.all_eq_true.mpr h.digits⟩

/-- A separator among the first `w` characters is no digit. -/
theorem readField_short {sep' : Char} (hlen : ds.length < w) (hsep : sep.isDigit = false) :
    readField w sep' (ds ++ sep :: rest) = none := by
  unfold FixedWidth.readField
  split
  -- the separator is among the characters that have to be digits
  · refine if_neg fun h => ?_
    have hmem : sep ∈ (ds ++ sep :: rest).take w := by
      rw [List.take_append]
      refine List.mem_append_right _ ?_
      obtain ⟨k, hk⟩ : ∃ k, w - ds.length = k + 1 := ⟨w - ds.length - 1, by omega⟩
      rw [hk]
      exact List.mem_cons_self
    rw [List.all_eq_true.mp h.2 sep hmem] at hsep
    cases hsep
  · rfl

end Reading

end PetProject.Foundation.FixedWidth
