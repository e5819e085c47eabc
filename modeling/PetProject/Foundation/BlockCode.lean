import Mathlib.Data.List.Basic

/-!
# Block codes

A code assigns to every symbol a word; it is a block code when all words have one length and
different symbols have different words (`IsBlockCode`). A list of symbols is coded as the words of
its symbols one behind the other. The code of a list has a fixed multiple of its length
(`IsBlockCode.length_flatMap`), and a list is determined by its code (`IsBlockCode.flatMap_inj`).
-/

set_option autoImplicit false

namespace PetProject.Foundation.BlockCode

universe u v

variable {α : Type u} {β : Type v}

/-- Different words of `k` letters for different symbols. -/
structure IsBlockCode (code : α → List β) (k : Nat) : Prop where
  length_eq : ∀ a, (code a).length = k
  injective : Function.Injective code

variable {code : α → List β} {k : Nat}

theorem IsBlockCode.map_length (h : IsBlockCode code k) (l : List α) :
    (l.map code).map List.length = List.replicate l.length k := by
  rw [List.map_map]
  apply List.eq_replicate_iff.mpr
  refine ⟨List.length_map .., fun n hn => ?_⟩
  obtain ⟨a, -, rfl⟩ := List.mem_map.mp hn
  exact h.length_eq a

theorem IsBlockCode.length_flatMap (h : IsBlockCode code k) (l : List α) :
    (l.flatMap code).length = l.length * k := by
  rw [List.flatMap_def, List.length_flatten, h.map_length, List.sum_replicate_nat]

/-- A list is determined by its code. -/
theorem IsBlockCode.flatMap_inj (h : IsBlockCode code k) (hk : 0 < k) {l l' : List α} :
    l.flatMap code = l'.flatMap code ↔ l = l' := by
  refine ⟨fun heq => ?_, fun heq => by rw [heq]⟩
  have hlen : l.length = l'.length := by
    have htotal := congrArg List.length heq
    rw [h.length_flatMap, h.length_flatMap] at htotal
    exact Nat.eq_of_mul_eq_mul_right hk htotal
  -- the words are cut at the same places
  have hcuts : (l.map code).map List.length = (l'.map code).map List.length := by
    rw [h.map_length, h.map_length, hlen]
  rw [List.flatMap_def, List.flatMap_def] at heq
  have hwords : l.map code = l'.map code := List.eq_iff_flatten_eq.mpr ⟨heq, hcuts⟩
  exact List.map_injective_iff.mpr h.injective hwords

end PetProject.Foundation.BlockCode
