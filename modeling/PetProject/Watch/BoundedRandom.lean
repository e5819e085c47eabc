import PetProject.Foundation.MultiplyShift
import PetProject.Watch.Uuid

/-!
# Bounded random numbers and fast random strings

`getBoundedRandValue` and `getRandomStringFast` of `filewatch_daemon/src/CUUIDGenerator.cpp` over
the outputs of the generator, a list of 32-bit words that the functions take from the front. A
result `none` means that the list ends before the function returns.
-/

set_option autoImplicit false

namespace PetProject.Watch

open PetProject.Foundation.TextSearch PetProject.Foundation.MultiplyShift

/-! ## The bounded number -/

/-- `t` in `getBoundedRandValue`: `-range`, reduced by one subtraction and then by `%`. -/
def rejectBelow (range : UInt32) : UInt32 :=
  let t := -range
  if t ≥ range then
    let t := t - range
    if t ≥ range then t % range else t
  else t

/-- `while (l < t)`, which takes the next output and computes `m` and `l` again. -/
def redraw (range t : UInt32) : UInt64 → List UInt32 → Option (UInt64 × List UInt32)
  | m, [] => if m.toUInt32 < t then none else some (m, [])
  | m, x :: outputs =>
      if m.toUInt32 < t then redraw range t (x.toUInt64 * range.toUInt64) outputs
      else some (m, x :: outputs)

/-- `getBoundedRandValue`, with the outputs that are left. -/
def getBoundedRandValue (range : UInt32) : List UInt32 → Option (UInt32 × List UInt32)
  | [] => none
  | x :: outputs =>
      let m := x.toUInt64 * range.toUInt64
      let l := m.toUInt32
      if l < range then
        (redraw range (rejectBelow range) m outputs).map fun r =>
          ((r.1 >>> (32 : UInt64)).toUInt32, r.2)
      else some ((m >>> 32).toUInt32, outputs)

/-- The word is accepted as the next output. -/
def AcceptedWord (range y : UInt32) : Prop := Accepted (2 ^ 32) range.toNat y.toNat

instance (range : UInt32) : DecidablePred (AcceptedWord range) := fun y =>
  inferInstanceAs (Decidable (Accepted (2 ^ 32) range.toNat y.toNat))

section Words

variable {range x : UInt32}

theorem toNat_product (x range : UInt32) :
    (x.toUInt64 * range.toUInt64).toNat = x.toNat * range.toNat := by
  have hx := x.toNat_lt
  have hr := range.toNat_lt
  rw [UInt64.toNat_mul, UInt32.toNat_toUInt64, UInt32.toNat_toUInt64]
  refine Nat.mod_eq_of_lt (Nat.lt_of_lt_of_le (Nat.mul_lt_mul'' hx hr) ?_)
  decide

theorem toNat_low (x range : UInt32) :
    (x.toUInt64 * range.toUInt64).toUInt32.toNat = x.toNat * range.toNat % 2 ^ 32 := by
  rw [UInt64.toNat_toUInt32, toNat_product]

theorem toNat_high (x range : UInt32) :
    ((x.toUInt64 * range.toUInt64) >>> 32).toUInt32.toNat = x.toNat * range.toNat / 2 ^ 32 := by
  have hx := x.toNat_lt
  have hr := range.toNat_lt
  have hlt : x.toNat * range.toNat / 2 ^ 32 < 2 ^ 32 := by
    rw [Nat.div_lt_iff_lt_mul (by decide)]
    exact Nat.mul_lt_mul'' hx hr
  rw [UInt64.toNat_toUInt32, UInt64.toNat_shiftRight, toNat_product, Nat.shiftRight_eq_div_pow]
  exact Nat.mod_eq_of_lt hlt

/-- The subtraction and the `%` compute the remainder of `2 ^ 32`. -/
theorem toNat_rejectBelow (hrange : 1 ≤ range.toNat) :
    (rejectBelow range).toNat = 2 ^ 32 % range.toNat := by
  have hlt := range.toNat_lt
  have hneg : (-range).toNat = 2 ^ 32 - range.toNat := by
    rw [UInt32.toNat_neg, UInt32.size]
    exact Nat.mod_eq_of_lt (by omega)
  have hstep : 2 ^ 32 % range.toNat = (2 ^ 32 - range.toNat) % range.toNat :=
    Nat.mod_eq_sub_mod (Nat.le_of_lt hlt)
  simp only [rejectBelow, ge_iff_le, UInt32.le_iff_toNat_le]
  split
  · rename_i hle
    have hsub : (-range - range).toNat = 2 ^ 32 - range.toNat - range.toNat := by
      rw [UInt32.toNat_sub_of_le _ _ hle, hneg]
    rw [hneg] at hle
    rw [hstep, Nat.mod_eq_sub_mod hle]
    split
    · rw [UInt32.toNat_mod, hsub]
    · rename_i hlast
      rw [hsub] at hlast ⊢
      exact (Nat.mod_eq_of_lt (Nat.lt_of_not_le hlast)).symm
  · rename_i hlt'
    rw [hneg] at hlt' ⊢
    rw [hstep]
    exact (Nat.mod_eq_of_lt (Nat.lt_of_not_le hlt')).symm

/-- The test of the loop rejects what the remainder rejects. -/
theorem low_lt_rejectBelow (hrange : 1 ≤ range.toNat) (x : UInt32) :
    (x.toUInt64 * range.toUInt64).toUInt32 < rejectBelow range ↔
      ¬ AcceptedWord range x := by
  rw [UInt32.lt_iff_toNat_lt, toNat_low, toNat_rejectBelow hrange, AcceptedWord, Accepted,
    Nat.not_le]

/-- The loop goes to the first accepted output. -/
theorem redraw_eq (hrange : 1 ≤ range.toNat) (x : UInt32) (outputs : List UInt32) :
    redraw range (rejectBelow range) (x.toUInt64 * range.toUInt64) outputs =
      (draw (AcceptedWord range) (x :: outputs)).map
        fun r => (r.1.toUInt64 * range.toUInt64, r.2) := by
  induction outputs generalizing x with
  | nil =>
    by_cases hx : AcceptedWord range x
    · have hlow := (low_lt_rejectBelow hrange x).not.mpr (not_not.mpr hx)
      rw [redraw, if_neg hlow, draw_cons_pos hx, Option.map_some]
    · rw [redraw, if_pos ((low_lt_rejectBelow hrange x).mpr hx), draw_cons_neg hx, draw,
        Option.map_none]
  | cons y ys ih =>
    by_cases hx : AcceptedWord range x
    · have hlow := (low_lt_rejectBelow hrange x).not.mpr (not_not.mpr hx)
      rw [redraw, if_neg hlow, draw_cons_pos hx, Option.map_some]
    · rw [redraw, if_pos ((low_lt_rejectBelow hrange x).mpr hx), ih, draw_cons_neg hx]

/-- An output whose low word is at least `range` is accepted without the remainder. -/
theorem accepted_of_le_low (hrange : 1 ≤ range.toNat)
    (h : ¬ (x.toUInt64 * range.toUInt64).toUInt32 < range) :
    AcceptedWord range x := by
  rw [UInt32.lt_iff_toNat_lt, toNat_low, Nat.not_lt] at h
  exact Nat.le_trans (Nat.le_of_lt (Nat.mod_lt _ hrange)) h

theorem getBoundedRandValue_eq (hrange : 1 ≤ range.toNat) (outputs : List UInt32) :
    getBoundedRandValue range outputs =
      (draw (AcceptedWord range) outputs).map
        fun r => (((r.1.toUInt64 * range.toUInt64) >>> (32 : UInt64)).toUInt32, r.2) := by
  cases outputs with
  | nil => rfl
  | cons x xs =>
    simp only [getBoundedRandValue]
    split
    · rw [redraw_eq hrange, Option.map_map]
      rfl
    · rename_i hlow
      rw [draw_cons_pos (accepted_of_le_low hrange hlow), Option.map_some]

/-- The returned number comes from the first accepted output. -/
theorem getBoundedRandValue_some_iff (hrange : 1 ≤ range.toNat) {outputs rest : List UInt32}
    {v : UInt32} :
    getBoundedRandValue range outputs = some (v, rest) ↔
      ∃ pre x, outputs = pre ++ x :: rest ∧
        (∀ y ∈ pre, ¬ AcceptedWord range y) ∧
        AcceptedWord range x ∧ v.toNat = x.toNat * range.toNat / 2 ^ 32 := by
  rw [getBoundedRandValue_eq hrange, Option.map_eq_some_iff]
  constructor
  · rintro ⟨⟨x, rest'⟩, hdraw, heq⟩
    cases heq
    obtain ⟨pre, hout, hpre, hx⟩ := draw_eq_some_iff.mp hdraw
    exact ⟨pre, x, hout, hpre, hx, toNat_high x range⟩
  · rintro ⟨pre, x, hout, hpre, hx, hv⟩
    refine ⟨(x, rest), draw_eq_some_iff.mpr ⟨pre, hout, hpre, hx⟩, ?_⟩
    rw [← toNat_high x range] at hv
    rw [UInt32.toNat_inj.mp hv]

theorem getBoundedRandValue_lt (hrange : 1 ≤ range.toNat) {outputs rest : List UInt32} {v : UInt32}
    (h : getBoundedRandValue range outputs = some (v, rest)) : v < range := by
  obtain ⟨pre, x, -, -, -, hv⟩ := (getBoundedRandValue_some_iff hrange).mp h
  rw [UInt32.lt_iff_toNat_lt, hv]
  exact quotient_lt x.toNat_lt hrange

/-- The words that, as the next output, are accepted and give the value `v`. -/
def wordsOf (range v : UInt32) : Finset Nat :=
  (Finset.range (2 ^ 32)).filter fun x =>
    getBoundedRandValue range [UInt32.ofNat x] = some (v, [])

/-- A single word gives a value exactly if it is accepted and has the quotient. -/
theorem single_iff (hrange : 1 ≤ range.toNat) {v : UInt32} {x : Nat} (hx : x < 2 ^ 32) :
    getBoundedRandValue range [UInt32.ofNat x] = some (v, []) ↔
      Accepted (2 ^ 32) range.toNat x ∧ x * range.toNat / 2 ^ 32 = v.toNat := by
  have hword : (UInt32.ofNat x).toNat = x := UInt32.toNat_ofNat_of_lt' hx
  rw [getBoundedRandValue_some_iff hrange]
  constructor
  · rintro ⟨pre, y, hout, -, hacc, hval⟩
    cases pre with
    | nil =>
      cases hout
      rw [AcceptedWord, hword] at hacc
      rw [hword] at hval
      exact ⟨hacc, hval.symm⟩
    | cons z zs => simp at hout
  · rintro ⟨hacc, hval⟩
    refine ⟨[], UInt32.ofNat x, rfl, by simp, ?_, ?_⟩
    · rw [AcceptedWord, hword]
      exact hacc
    · rw [hword, hval]

/-- A word that gives a value when it is the only one is accepted, so nothing behind it is taken. -/
theorem getBoundedRandValue_cons (hrange : 1 ≤ range.toNat) {v : UInt32}
    (h : getBoundedRandValue range [x] = some (v, [])) (rest : List UInt32) :
    getBoundedRandValue range (x :: rest) = some (v, rest) := by
  obtain ⟨pre, y, heq, -, hacc, hv⟩ := (getBoundedRandValue_some_iff hrange).mp h
  cases pre with
  | nil =>
    cases heq
    exact (getBoundedRandValue_some_iff hrange).mpr ⟨[], x, rfl, by simp, hacc, hv⟩
  | cons z zs => simp at heq

/-- Every value has the same number of words. -/
theorem card_wordsOf (hrange : 1 ≤ range.toNat) {v : UInt32} (hv : v < range) :
    (wordsOf range v).card = 2 ^ 32 / range.toNat := by
  rw [← card_yields (Nat.two_pow_pos 32) hrange (UInt32.lt_iff_toNat_lt.mp hv), wordsOf,
    Finset.filter_congr fun x hx => single_iff hrange (Finset.mem_range.mp hx)]

end Words

/-- For every range from 1 on and every sequence of outputs: the function takes the outputs up to
the first `x` with `2 ^ 32 % range ≤ x * range % 2 ^ 32` and returns `x * range / 2 ^ 32`, a number
below `range`; the computation of `t` gives `2 ^ 32 % range`, and what the first test lets through
is accepted by it; each number below `range` comes from `2 ^ 32 / range` of the words. -/
theorem getBoundedRandValue_unbiased (range : UInt32) (hrange : 1 ≤ range.toNat) :
    (∀ outputs rest v, getBoundedRandValue range outputs = some (v, rest) ↔
      ∃ pre x, outputs = pre ++ x :: rest ∧
        (∀ y ∈ pre, y.toNat * range.toNat % 2 ^ 32 < 2 ^ 32 % range.toNat) ∧
        2 ^ 32 % range.toNat ≤ x.toNat * range.toNat % 2 ^ 32 ∧
        v.toNat = x.toNat * range.toNat / 2 ^ 32) ∧
    (∀ outputs, getBoundedRandValue range outputs = none ↔
      ∀ x ∈ outputs, x.toNat * range.toNat % 2 ^ 32 < 2 ^ 32 % range.toNat) ∧
    (∀ outputs rest v, getBoundedRandValue range outputs = some (v, rest) → v < range) ∧
    (rejectBelow range).toNat = 2 ^ 32 % range.toNat ∧
    (∀ x : UInt32, ¬ (x.toUInt64 * range.toUInt64).toUInt32 < range →
      ¬ (x.toUInt64 * range.toUInt64).toUInt32 < rejectBelow range) ∧
    (∀ v < range, (wordsOf range v).card = 2 ^ 32 / range.toNat) := by
  refine ⟨fun outputs rest v => ?_, fun outputs => ?_, fun outputs rest v =>
    getBoundedRandValue_lt hrange, toNat_rejectBelow hrange, fun x hx => ?_,
    fun v hv => card_wordsOf hrange hv⟩
  · rw [getBoundedRandValue_some_iff hrange]
    simp only [AcceptedWord, Accepted, Nat.not_le]
  · rw [getBoundedRandValue_eq hrange, Option.map_eq_none_iff, draw_eq_none_iff]
    simp only [AcceptedWord, Accepted, Nat.not_le]
  · rw [low_lt_rejectBelow hrange]
    exact not_not.mpr (accepted_of_le_low hrange hx)

/-- The range of the fast strings. -/
theorem getBoundedRandValue_unbiased_sixtyOne :
    (∀ outputs rest v, getBoundedRandValue 61 outputs = some (v, rest) ↔
      ∃ pre x, outputs = pre ++ x :: rest ∧
        (∀ y ∈ pre, y.toNat * 61 % 2 ^ 32 < 2 ^ 32 % 61) ∧
        2 ^ 32 % 61 ≤ x.toNat * 61 % 2 ^ 32 ∧ v.toNat = x.toNat * 61 / 2 ^ 32) ∧
    (∀ outputs, getBoundedRandValue 61 outputs = none ↔
      ∀ x ∈ outputs, x.toNat * 61 % 2 ^ 32 < 2 ^ 32 % 61) ∧
    (∀ outputs rest v, getBoundedRandValue 61 outputs = some (v, rest) → v < 61) ∧
    (rejectBelow 61).toNat = 2 ^ 32 % 61 ∧
    (∀ x : UInt32, ¬ (x.toUInt64 * (61 : UInt32).toUInt64).toUInt32 < 61 →
      ¬ (x.toUInt64 * (61 : UInt32).toUInt64).toUInt32 < rejectBelow 61) ∧
    (∀ v < 61, (wordsOf 61 v).card = 2 ^ 32 / 61) :=
  getBoundedRandValue_unbiased 61 (by decide)

/-! ## Random strings -/

/-- `while(nLen--)` of `getRandomStringFast`, which appends one character of the template. -/
def appendFast (sRandom : Text) : Nat → List UInt32 → Option (Text × List UInt32)
  | 0, outputs => some (sRandom, outputs)
  | nLen + 1, outputs =>
      match getBoundedRandValue (UInt32.ofNat (getTemplateString.length - 1)) outputs with
      | none => none
      | some (i, rest) => appendFast (sRandom ++ [getTemplateString.getD i.toNat '0']) nLen rest

/-- `getRandomStringFast`, with the outputs that are left. -/
def getRandomStringFast (nLen : Nat) (outputs : List UInt32) : Option (Text × List UInt32) :=
  appendFast [] nLen outputs

/-- The strings that `getRandomStringFast` can return. -/
def fastStrings (nLen : Nat) : Set Text :=
  { s | ∃ outputs rest, getRandomStringFast nLen outputs = some (s, rest) }

/-- The strings that `getRandomString` can return; `rndIndex` yields the numbers from 0 to 61. -/
def plainStrings (nLen : Nat) : Set Text := { s | ∃ src used, getRandomString src used nLen = s }

/-- The strings of a length over some characters. -/
def stringsOver (chars : Text) (nLen : Nat) : Set Text :=
  { s | s.length = nLen ∧ ∀ c ∈ s, c ∈ chars }

/-- The characters that `getRandomStringFast` can append: all of the template but the last. -/
def fastChars : Text := getTemplateString.dropLast

theorem length_fastChars : fastChars.length = 61 := by decide

theorem getD_getTemplateString {i : Nat} (h : i < 61) :
    getTemplateString.getD i '0' = fastChars.getD i '0' := by
  have hlt : i < fastChars.length := by
    rw [length_fastChars]
    exact h
  have hlt' : i < getTemplateString.length := by
    rw [length_getTemplateString]
    omega
  rw [List.getD_eq_getElem _ _ hlt', List.getD_eq_getElem _ _ hlt]
  simp only [fastChars, List.getElem_dropLast]

theorem toNat_ofNat_of_lt {i : Nat} (h : i < 61) : (UInt32.ofNat i).toNat = i :=
  UInt32.toNat_ofNat_of_lt' (Nat.lt_trans h (by decide))

/-- The generator can give every number below 61. -/
theorem exists_word {i : Nat} (h : i < 61) :
    ∃ x : UInt32, getBoundedRandValue 61 [x] = some (UInt32.ofNat i, []) := by
  have hi := toNat_ofNat_of_lt h
  have hlt : UInt32.ofNat i < 61 := by
    rw [UInt32.lt_iff_toNat_lt, hi]
    exact h
  have hcard := card_wordsOf (by decide : 1 ≤ (61 : UInt32).toNat) hlt
  have hpos : 0 < (wordsOf 61 (UInt32.ofNat i)).card := by
    rw [hcard]
    decide
  obtain ⟨x, hx⟩ := Finset.card_pos.mp hpos
  exact ⟨UInt32.ofNat x, (Finset.mem_filter.mp hx).2⟩

theorem appendFast_succ {sRandom : Text} {nLen : Nat} {outputs rest : List UInt32} {s : Text} :
    appendFast sRandom (nLen + 1) outputs = some (s, rest) ↔
      ∃ i rest₁, getBoundedRandValue 61 outputs = some (i, rest₁) ∧
        appendFast (sRandom ++ [getTemplateString.getD i.toNat '0']) nLen rest₁ =
          some (s, rest) := by
  have hrange : UInt32.ofNat (getTemplateString.length - 1) = 61 := by decide
  rw [appendFast, hrange]
  cases getBoundedRandValue 61 outputs with
  | none => simp
  | some r =>
    constructor
    · exact fun h => ⟨r.1, r.2, rfl, h⟩
    · rintro ⟨i, rest₁, heq, h⟩
      cases heq
      exact h

/-- The loop appends characters of the template other than its last one. -/
theorem appendFast_sound {sRandom : Text} {nLen : Nat} {outputs rest : List UInt32} {s : Text}
    (h : appendFast sRandom nLen outputs = some (s, rest)) :
    ∃ u ∈ stringsOver fastChars nLen, s = sRandom ++ u := by
  induction nLen generalizing sRandom outputs with
  | zero =>
    cases h
    exact ⟨[], ⟨rfl, by simp⟩, (List.append_nil _).symm⟩
  | succ nLen ih =>
    obtain ⟨i, rest₁, hi, hloop⟩ := appendFast_succ.mp h
    obtain ⟨u, ⟨hlen, hu⟩, rfl⟩ := ih hloop
    have hlt : i.toNat < 61 :=
      UInt32.lt_iff_toNat_lt.mp (getBoundedRandValue_lt (by decide) hi)
    refine ⟨fastChars.getD i.toNat '0' :: u, ⟨?_, ?_⟩, ?_⟩
    · rw [List.length_cons, hlen]
    · refine List.forall_mem_cons.mpr ⟨?_, hu⟩
      rw [List.getD_eq_getElem _ _ (by rw [length_fastChars]; exact hlt)]
      exact List.getElem_mem _
    · rw [getD_getTemplateString hlt, List.append_assoc]
      rfl

/-- Every string over these characters comes from some outputs. -/
theorem appendFast_complete (u : Text) (hu : ∀ c ∈ u, c ∈ fastChars) (sRandom : Text) :
    ∃ outputs, ∀ rest,
      appendFast sRandom u.length (outputs ++ rest) = some (sRandom ++ u, rest) := by
  induction u generalizing sRandom with
  | nil => exact ⟨[], fun rest => by rw [List.append_nil]; rfl⟩
  | cons c cs ih =>
    obtain ⟨hc, hcs⟩ := List.forall_mem_cons.mp hu
    obtain ⟨i, hi, rfl⟩ := List.getElem_of_mem hc
    have hlt : i < 61 := by
      rw [length_fastChars] at hi
      exact hi
    obtain ⟨x, hx⟩ := exists_word hlt
    obtain ⟨outputs, hout⟩ := ih hcs (sRandom ++ [fastChars[i]])
    refine ⟨x :: outputs, fun rest => ?_⟩
    rw [List.length_cons, appendFast_succ]
    refine ⟨UInt32.ofNat i, outputs ++ rest, getBoundedRandValue_cons (by decide) hx _, ?_⟩
    rw [toNat_ofNat_of_lt hlt, getD_getTemplateString hlt, List.getD_eq_getElem _ _ hi]
    exact (hout rest).trans (by rw [List.append_assoc]; rfl)

/-- The fast generator returns the strings without the last character of the template. -/
theorem fastStrings_eq (nLen : Nat) : fastStrings nLen = stringsOver fastChars nLen := by
  ext s
  constructor
  · rintro ⟨outputs, rest, h⟩
    obtain ⟨u, hu, rfl⟩ := appendFast_sound h
    exact hu
  · rintro ⟨rfl, hs⟩
    obtain ⟨outputs, hout⟩ := appendFast_complete s hs []
    exact ⟨outputs ++ [], [], hout []⟩

/-- Sources whose indices are those of the characters of a string. -/
def sourcesOf (s : Text) : UuidSources :=
  { repeatedSources '0' with
    rndIndex := fun i =>
      ⟨getTemplateString.idxOf (s.getD i '0') % 62, Nat.mod_lt _ (Nat.succ_pos 61)⟩ }

/-- The plain generator returns the strings over the whole template. -/
theorem plainStrings_eq (nLen : Nat) :
    plainStrings nLen = stringsOver getTemplateString nLen := by
  ext s
  constructor
  · rintro ⟨src, used, rfl⟩
    exact ⟨length_getRandomString src used nLen, fun c hc => mem_getRandomString hc⟩
  · rintro ⟨rfl, hs⟩
    refine ⟨sourcesOf s, 0, List.ext_getElem (by simp [getRandomString]) fun i h₁ h₂ => ?_⟩
    have hmem : s[i] ∈ getTemplateString := hs _ (List.getElem_mem _)
    have hidx : getTemplateString.idxOf s[i] < 62 := by
      rw [← length_getTemplateString]
      exact List.idxOf_lt_length_iff.mpr hmem
    simp only [getRandomString, List.getElem_map, List.getElem_range, Nat.zero_add, sourcesOf,
      List.getD_eq_getElem _ _ h₂, Nat.mod_eq_of_lt hidx]
    rw [List.getD_eq_getElem _ _ (by rw [length_getTemplateString]; exact hidx)]
    exact List.getElem_idxOf _

theorem stringsOver_zero (chars : Text) : stringsOver chars 0 = {[]} := by
  ext s
  constructor
  · rintro ⟨hlen, -⟩
    exact List.length_eq_zero_iff.mp hlen
  · rintro rfl
    exact ⟨rfl, by simp⟩

theorem notMem_fastChars : 'Z' ∉ fastChars := by decide

/-- The string that repeats the last character of the template is missing. -/
theorem stringsOver_ne {nLen : Nat} (hne : nLen ≠ 0) :
    stringsOver fastChars nLen ≠ stringsOver getTemplateString nLen := by
  intro heq
  have hmem : List.replicate nLen 'Z' ∈ stringsOver getTemplateString nLen := by
    refine ⟨List.length_replicate, fun c hc => ?_⟩
    rw [(List.mem_replicate.mp hc).2]
    decide
  rw [← heq] at hmem
  exact notMem_fastChars (hmem.2 'Z' (List.mem_replicate.mpr ⟨hne, rfl⟩))

/-- The two generators return the same strings, those over the template, for the length zero only:
the fast one never appends the last character. -/
theorem same_strings_iff (nLen : Nat) :
    (fastStrings nLen = plainStrings nLen ∧
      plainStrings nLen = stringsOver getTemplateString nLen) ↔ nLen = 0 := by
  rw [fastStrings_eq, plainStrings_eq]
  constructor
  · rintro ⟨heq, -⟩
    by_contra hne
    exact stringsOver_ne hne heq
  · rintro rfl
    refine ⟨?_, rfl⟩
    rw [stringsOver_zero, stringsOver_zero]

/-- Of length one, only the plain generator returns `Z`. -/
theorem not_same_strings_one :
    ¬ (fastStrings 1 = plainStrings 1 ∧ plainStrings 1 = stringsOver getTemplateString 1) := by
  rw [fastStrings_eq, plainStrings_eq]
  rintro ⟨heq, -⟩
  exact stringsOver_ne Nat.one_ne_zero heq

end PetProject.Watch
