import Mathlib.Data.List.Nodup

/-!
# Handles that are obtained and released

A library hands out handles and takes them back. Handles are numbered in the order in which they are
handed out; the record keeps every release, also of a handle that was released before, and every use
of a released handle.

A handle is outstanding when it was handed out and not released. The releases are in order
(`Sound`) when every one is of a handle that was outstanding, and the record is settled when every
handle was released once.

A program that keeps its handle in one variable can release what it took as long as the variable
holds every outstanding handle (`HeldBy`); a variable that is overwritten must not have held one
(`heldBy_none_iff`, `heldBy_obtain_iff`).
-/

set_option autoImplicit false

namespace PetProject.Foundation.Handles

structure Record where
  /-- How many handles were handed out. -/
  obtained : Nat
  /-- The handle of every release. -/
  released : List Nat
  /-- The handle of every use after a release. -/
  stale : List Nat
  deriving DecidableEq

namespace Record

def fresh : Record := ⟨0, [], []⟩

/-- The handle `h.obtained` is handed out. -/
def obtain (h : Record) : Record := { h with obtained := h.obtained + 1 }

def release (h : Record) (n : Nat) : Record := { h with released := h.released ++ [n] }

def use (h : Record) (n : Nat) : Record :=
  if n ∈ h.released then { h with stale := h.stale ++ [n] } else h

/-- The handles that were handed out and not released. -/
def outstanding (h : Record) : List Nat :=
  (List.range h.obtained).filter fun n => n ∉ h.released

/-- Every release is of a handle that was handed out, and no handle is released twice. -/
structure Sound (h : Record) : Prop where
  released_lt : ∀ n ∈ h.released, n < h.obtained
  nodup : h.released.Nodup

/-- Every handle was released once. -/
def Settled (h : Record) : Prop := ∀ n < h.obtained, h.released.count n = 1

/-- Every outstanding handle is the one in the variable. -/
def HeldBy (h : Record) (held : Option Nat) : Prop := ∀ n ∈ h.outstanding, held = some n

section Rules

variable {h : Record} {n : Nat}

theorem mem_outstanding : n ∈ h.outstanding ↔ n < h.obtained ∧ n ∉ h.released := by
  unfold outstanding
  rw [List.mem_filter, List.mem_range, decide_eq_true_eq]

theorem sound_fresh : fresh.Sound where
  released_lt _ hn := absurd hn List.not_mem_nil
  nodup := List.nodup_nil

theorem Sound.obtain (hs : h.Sound) : h.obtain.Sound where
  released_lt n hn := Nat.lt_succ_of_lt (hs.released_lt n hn)
  nodup := hs.nodup

theorem Sound.release (hs : h.Sound) (hn : n ∈ h.outstanding) : (h.release n).Sound where
  released_lt m hm := by
    rcases List.mem_append.mp hm with hold | hnew
    · exact hs.released_lt m hold
    · rw [List.mem_singleton.mp hnew]
      exact (mem_outstanding.mp hn).1
  nodup := by
    apply List.nodup_append.mpr
    refine ⟨hs.nodup, List.nodup_singleton n, fun m hm k hk => ?_⟩
    rw [List.mem_singleton.mp hk]
    rintro rfl
    exact (mem_outstanding.mp hn).2 hm

@[simp] theorem use_obtained (h : Record) (n : Nat) : (h.use n).obtained = h.obtained := by
  unfold use
  split <;> rfl

@[simp] theorem use_released (h : Record) (n : Nat) : (h.use n).released = h.released := by
  unfold use
  split <;> rfl

theorem Sound.use (hs : h.Sound) : (h.use n).Sound where
  released_lt := by
    rw [use_released, use_obtained]
    exact hs.released_lt
  nodup := by
    rw [use_released]
    exact hs.nodup

theorem outstanding_use : (h.use n).outstanding = h.outstanding := by
  unfold outstanding
  rw [use_obtained, use_released]

/-- A use leaves no trace exactly if the handle was not released. -/
theorem stale_use_iff : (h.use n).stale = [] ↔ h.stale = [] ∧ n ∉ h.released := by
  unfold use
  by_cases hn : n ∈ h.released
  · rw [if_pos hn]
    simp [hn]
  · rw [if_neg hn]
    simp [hn]

theorem notMem_released (hs : h.Sound) : h.obtained ∉ h.released := by
  intro hmem
  exact Nat.lt_irrefl _ (hs.released_lt _ hmem)

theorem outstanding_obtain (hs : h.Sound) :
    h.obtain.outstanding = h.outstanding ++ [h.obtained] := by
  unfold outstanding Record.obtain
  rw [List.range_succ, List.filter_append]
  have hnew : [h.obtained].filter (fun n => n ∉ h.released) = [h.obtained] := by
    simp [notMem_released hs]
  rw [hnew]

theorem obtained_mem (hs : h.Sound) : h.obtained ∈ h.obtain.outstanding := by
  rw [outstanding_obtain hs]
  exact List.mem_append_right _ (List.mem_singleton_self _)

theorem Sound.obtain_release (hs : h.Sound) : (h.obtain.release h.obtained).Sound :=
  hs.obtain.release (obtained_mem hs)

/-- Releasing the newest handle leaves the others. -/
theorem outstanding_obtain_release :
    (h.obtain.release h.obtained).outstanding = h.outstanding := by
  unfold outstanding Record.obtain Record.release
  rw [List.range_succ, List.filter_append]
  have hlast : [h.obtained].filter (fun n => n ∉ h.released ++ [h.obtained]) = [] := by
    simp
  have hrest : (List.range h.obtained).filter (fun n => n ∉ h.released ++ [h.obtained]) =
      (List.range h.obtained).filter fun n => n ∉ h.released := by
    apply List.filter_congr
    intro n hn
    have hne : n ≠ h.obtained := Nat.ne_of_lt (List.mem_range.mp hn)
    simp [hne]
  simp only [hlast, hrest, List.append_nil]

theorem settled_iff (hs : h.Sound) : h.Settled ↔ h.outstanding = [] := by
  rw [List.eq_nil_iff_forall_not_mem]
  constructor
  · intro hsettled n hn
    obtain ⟨hlt, hnot⟩ := mem_outstanding.mp hn
    have hone := hsettled n hlt
    rw [List.count_eq_zero_of_not_mem hnot] at hone
    cases hone
  · intro hnone n hlt
    refine List.count_eq_one_of_mem hs.nodup ?_
    by_contra hnot
    exact hnone n (mem_outstanding.mpr ⟨hlt, hnot⟩)

/-- A second release is never made good. -/
theorem not_settled_release (hs : h.Sound) (hn : n ∈ h.released) : ¬ (h.release n).Settled := by
  intro hsettled
  have hone := hsettled n (hs.released_lt n hn)
  unfold Record.release at hone
  rw [List.count_append, List.count_eq_one_of_mem hs.nodup hn, List.count_singleton_self] at hone
  cases hone

theorem heldBy_of_nil (hnil : h.outstanding = []) (held : Option Nat) : h.HeldBy held := by
  intro n hn
  rw [hnil] at hn
  cases hn

theorem heldBy_none_iff : h.HeldBy none ↔ h.outstanding = [] := by
  refine ⟨fun hheld => ?_, fun hnil => heldBy_of_nil hnil none⟩
  apply List.eq_nil_iff_forall_not_mem.mpr
  intro n hn
  cases hheld n hn

/-- A handle that is not outstanding holds nothing. -/
theorem heldBy_some_iff (hn : n ∉ h.outstanding) : h.HeldBy (some n) ↔ h.outstanding = [] := by
  refine ⟨fun hheld => ?_, fun hnil => heldBy_of_nil hnil _⟩
  apply List.eq_nil_iff_forall_not_mem.mpr
  intro m hm
  cases hheld m hm
  exact hn hm

theorem notMem_outstanding (h : Record) : h.obtained ∉ h.outstanding := by
  intro hmem
  exact Nat.lt_irrefl _ (mem_outstanding.mp hmem).1

/-- The variable that gets a new handle must not have held another. -/
theorem heldBy_obtain_iff (hs : h.Sound) :
    h.obtain.HeldBy (some h.obtained) ↔ h.outstanding = [] := by
  -- before it is handed out the new handle is no outstanding one
  rw [← heldBy_some_iff (notMem_outstanding h)]
  unfold HeldBy
  rw [outstanding_obtain hs]
  simp only [List.forall_mem_append, List.forall_mem_singleton, and_true]

/-- Releasing an outstanding handle settles the record exactly if it was the only one. -/
theorem settled_release_iff (hs : h.Sound) (hn : n ∈ h.outstanding) :
    (h.release n).Settled ↔ h.HeldBy (some n) := by
  rw [settled_iff (hs.release hn), List.eq_nil_iff_forall_not_mem]
  constructor
  · intro hnone m hm
    -- another outstanding handle stays outstanding
    by_contra hne
    obtain ⟨hlt, hnot⟩ := mem_outstanding.mp hm
    refine hnone m (mem_outstanding.mpr ⟨hlt, fun hmem => ?_⟩)
    rcases List.mem_append.mp hmem with hold | hnew
    · exact hnot hold
    · exact hne (congrArg some (List.mem_singleton.mp hnew).symm)
  · intro hheld m hm
    obtain ⟨hlt, hnot⟩ := mem_outstanding.mp hm
    have hold : m ∉ h.released := fun hmem => hnot (List.mem_append_left _ hmem)
    have heq : n = m := Option.some.inj (hheld m (mem_outstanding.mpr ⟨hlt, hold⟩))
    exact hnot (List.mem_append_right _ (List.mem_singleton.mpr heq.symm))

end Rules

end Record

end PetProject.Foundation.Handles
