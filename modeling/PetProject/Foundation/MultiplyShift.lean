import Mathlib

/-!
# Random numbers below a bound by multiplication and rejection

A word `x < W` is mapped to `x * r / W`, which is below `r`. The products `x * r` with one quotient
`v` lie in `[v * W, (v + 1) * W)`; without the first `W % r` numbers that interval has the length
`(W / r) * r`, so exactly `W / r` multiples of `r` are in it, whatever `v` is
(`card_yields`). `draw` takes elements of a list up to the first accepted one.
-/

set_option autoImplicit false

namespace PetProject.Foundation.MultiplyShift

universe u

/-! ## The first accepted element -/

section Draw

variable {α : Type u} {accept : α → Prop} [DecidablePred accept]

/-- The first accepted element and what comes behind it. -/
def draw (accept : α → Prop) [DecidablePred accept] : List α → Option (α × List α)
  | [] => none
  | x :: xs => if accept x then some (x, xs) else draw accept xs

theorem draw_cons_pos {x : α} {l : List α} (h : accept x) : draw accept (x :: l) = some (x, l) := by
  rw [draw, if_pos h]

theorem draw_cons_neg {x : α} {l : List α} (h : ¬ accept x) :
    draw accept (x :: l) = draw accept l := by
  rw [draw, if_neg h]

theorem draw_eq_some_iff {l rest : List α} {x : α} :
    draw accept l = some (x, rest) ↔
      ∃ pre, l = pre ++ x :: rest ∧ (∀ y ∈ pre, ¬ accept y) ∧ accept x := by
  induction l with
  | nil => simp [draw]
  | cons y ys ih =>
    by_cases hy : accept y
    · rw [draw_cons_pos hy]
      constructor
      · intro h
        cases h
        exact ⟨[], rfl, by simp, hy⟩
      · rintro ⟨pre, heq, hpre, -⟩
        cases pre with
        | nil =>
          cases heq
          rfl
        | cons z zs =>
          cases heq
          exact absurd hy (hpre y List.mem_cons_self)
    · rw [draw_cons_neg hy, ih]
      constructor
      · rintro ⟨pre, rfl, hpre, hx⟩
        exact ⟨y :: pre, rfl, List.forall_mem_cons.mpr ⟨hy, hpre⟩, hx⟩
      · rintro ⟨pre, heq, hpre, hx⟩
        cases pre with
        | nil =>
          cases heq
          exact absurd hx hy
        | cons z zs =>
          cases heq
          exact ⟨zs, rfl, (List.forall_mem_cons.mp hpre).2, hx⟩

theorem draw_eq_none_iff {l : List α} : draw accept l = none ↔ ∀ x ∈ l, ¬ accept x := by
  induction l with
  | nil => simp [draw]
  | cons y ys ih =>
    by_cases hy : accept y
    · simp [draw_cons_pos hy, hy]
    · rw [draw_cons_neg hy, ih, List.forall_mem_cons]
      exact ⟨fun h => ⟨hy, h⟩, fun h => h.2⟩

end Draw

/-! ## Multiples in an interval -/

/-- An interval of the length `q * r` has `q` multiples of `r`. -/
theorem card_multiples {r : Nat} (hr : 0 < r) (a q n : Nat) (hn : a + q * r ≤ n * r) :
    ((Finset.range n).filter fun x => a ≤ x * r ∧ x * r < a + q * r).card = q := by
  have hlow : ∀ x, a ≤ x * r ↔ (a + r - 1) / r ≤ x := by
    intro x
    have h : (a + r - 1) / r < x + 1 ↔ a + r - 1 < (x + 1) * r := Nat.div_lt_iff_lt_mul hr
    rw [Nat.succ_mul] at h
    omega
  have hhigh : ∀ x, x * r < a + q * r ↔ x < (a + r - 1) / r + q := by
    intro x
    have h : x + 1 ≤ (a + r - 1 + q * r) / r ↔ (x + 1) * r ≤ a + r - 1 + q * r :=
      Nat.le_div_iff_mul_le hr
    rw [Nat.add_mul_div_right _ _ hr, Nat.succ_mul] at h
    omega
  -- the multipliers are an interval of `q` numbers
  have hset : (Finset.range n).filter (fun x => a ≤ x * r ∧ x * r < a + q * r) =
      Finset.Ico ((a + r - 1) / r) ((a + r - 1) / r + q) := by
    ext x
    rw [Finset.mem_filter, Finset.mem_Ico, Finset.mem_range, hlow, hhigh]
    constructor
    · exact fun h => h.2
    · intro h
      refine ⟨?_, h⟩
      have hx := (hhigh x).mpr h.2
      exact Nat.lt_of_mul_lt_mul_right (Nat.lt_of_lt_of_le hx hn)
  rw [hset, Nat.card_Ico, Nat.add_sub_cancel_left]

/-! ## The reduction -/

section Reduction

variable {W r x v : Nat}

/-- The word is not one of the first `W % r` products of its quotient. -/
def Accepted (W r x : Nat) : Prop := W % r ≤ x * r % W

instance : DecidablePred (Accepted W r) := fun x =>
  inferInstanceAs (Decidable (W % r ≤ x * r % W))

theorem quotient_lt (hx : x < W) (hr : 0 < r) : x * r / W < r := by
  rw [Nat.div_lt_iff_lt_mul (Nat.zero_lt_of_lt hx), Nat.mul_comm r W]
  exact Nat.mul_lt_mul_of_pos_right hx hr

/-- The accepted words of one quotient. -/
theorem yields_iff (hW : 0 < W) :
    Accepted W r x ∧ x * r / W = v ↔
      v * W + W % r ≤ x * r ∧ x * r < v * W + W % r + W / r * r := by
  have hsplit := Nat.mod_add_div' W r
  have hprod := Nat.mod_add_div' (x * r) W
  have hlt := Nat.mod_lt (x * r) hW
  rw [Nat.add_assoc, hsplit, ← Nat.succ_mul]
  constructor
  · rintro ⟨hacc, rfl⟩
    rw [Nat.succ_mul]
    unfold Accepted at hacc
    omega
  · rintro ⟨hlow, hhigh⟩
    have hq : x * r / W = v :=
      Nat.div_eq_of_lt_le (Nat.le_trans (Nat.le_add_right _ _) hlow) hhigh
    refine ⟨?_, hq⟩
    rw [hq] at hprod
    unfold Accepted
    omega

/-- Every number below the bound comes from the same number of accepted words. -/
theorem card_yields (hW : 0 < W) (hr : 0 < r) (hv : v < r) :
    ((Finset.range W).filter fun x => Accepted W r x ∧ x * r / W = v).card = W / r := by
  have hsplit := Nat.mod_add_div' W r
  have hbound : v * W + W % r + W / r * r ≤ W * r := by
    rw [Nat.add_assoc, hsplit, ← Nat.succ_mul, Nat.mul_comm W r]
    exact Nat.mul_le_mul_right W hv
  calc ((Finset.range W).filter fun x => Accepted W r x ∧ x * r / W = v).card
      = ((Finset.range W).filter fun x =>
          v * W + W % r ≤ x * r ∧ x * r < v * W + W % r + W / r * r).card := by
        congr 1
        exact Finset.filter_congr fun x _ => yields_iff hW
    _ = W / r := card_multiples hr _ _ _ hbound

end Reduction

end PetProject.Foundation.MultiplyShift
