import Mathlib.Data.List.Basic

/-!
# Replaying events that belong to keys

Every event has a key and an effect on the value of its key. `replay` applies a list of events to
one value, `ofKey` keeps the events of one key. When events that are still to be handled are taken
out of a list in any order, the value that the rest leads to stays the same as long as the event
taken is the oldest one of its key (`replay_of_isOldest`); events of other keys do not matter
(`ofKey_erase_ne`).

`replayAll` keeps the values of all keys. It ends with the same values for two lists of events that
have the same events of each key in the same order, however the keys are interleaved
(`replayAll_apply`).
-/

set_option autoImplicit false

namespace PetProject.Foundation.KeyedReplay

universe u v w

variable {κ : Type u} {ε : Type v} {β : Type w} [DecidableEq κ]

/-- The events of one key, in order. -/
def ofKey (key : ε → κ) (k : κ) (es : List ε) : List ε := es.filter fun e => key e = k

/-- The value after a list of events. -/
def replay (effect : ε → β → β) (es : List ε) (b : β) : β := es.foldl (fun b e => effect e b) b

/-- The values of all keys after one event. -/
def applyEvent (key : ε → κ) (effect : ε → β → β) (f : κ → β) (e : ε) : κ → β :=
  fun k => if k = key e then effect e (f k) else f k

/-- The values of all keys after a list of events. -/
def replayAll (key : ε → κ) (effect : ε → β → β) (es : List ε) (f : κ → β) : κ → β :=
  es.foldl (applyEvent key effect) f

/-- The event is the first one of its key in the list. -/
def IsOldest (key : ε → κ) (e : ε) (es : List ε) : Prop := (ofKey key (key e) es).head? = some e

instance [DecidableEq ε] (key : ε → κ) (e : ε) (es : List ε) : Decidable (IsOldest key e es) :=
  inferInstanceAs (Decidable (_ = _))

section Rules

variable {key : ε → κ}

theorem ofKey_append (k : κ) (es fs : List ε) :
    ofKey key k (es ++ fs) = ofKey key k es ++ ofKey key k fs :=
  List.filter_append ..

theorem ofKey_singleton_self (e : ε) : ofKey key (key e) [e] = [e] := by
  simp [ofKey]

theorem ofKey_singleton_ne {k : κ} {e : ε} (h : k ≠ key e) : ofKey key k [e] = [] := by
  simp [ofKey, Ne.symm h]

theorem replay_append (effect : ε → β → β) (es fs : List ε) (b : β) :
    replay effect (es ++ fs) b = replay effect fs (replay effect es b) :=
  List.foldl_append

/-- Events without an effect leave the value alone. -/
theorem replay_of_inert {effect : ε → β → β} {es : List ε} (h : ∀ e ∈ es, ∀ b, effect e b = b)
    (b : β) : replay effect es b = b := by
  induction es with
  | nil => rfl
  | cons e es ih =>
    have hes : ∀ e' ∈ es, ∀ b, effect e' b = b := fun e' he' => h e' (List.mem_cons_of_mem e he')
    change replay effect es (effect e b) = b
    rw [h e List.mem_cons_self b]
    exact ih hes

theorem replayAll_append_singleton (effect : ε → β → β) (es : List ε) (e : ε) (f : κ → β) :
    replayAll key effect (es ++ [e]) f = applyEvent key effect (replayAll key effect es f) e :=
  List.foldl_append

/-- The value of a key depends on the events of the key only. -/
theorem replayAll_apply (effect : ε → β → β) (es : List ε) (f : κ → β) (k : κ) :
    replayAll key effect es f k = replay effect (ofKey key k es) (f k) := by
  induction es generalizing f with
  | nil => rfl
  | cons e es ih =>
    have hhead : replayAll key effect (e :: es) f k =
        replay effect (ofKey key k es) (applyEvent key effect f e k) :=
      ih (applyEvent key effect f e)
    rw [hhead]
    by_cases hk : k = key e
    · subst hk
      have hcons : ofKey key (key e) (e :: es) = e :: ofKey key (key e) es :=
        List.filter_cons_of_pos (by simp)
      rw [hcons, applyEvent, if_pos rfl]
      rfl
    · have hskip : ofKey key k (e :: es) = ofKey key k es :=
        List.filter_cons_of_neg (by simpa using Ne.symm hk)
      rw [hskip, applyEvent, if_neg hk]

variable [BEq ε] [LawfulBEq ε]

/-- Removing an event of the key removes it from the events of the key. -/
theorem ofKey_erase_self (e : ε) (es : List ε) :
    ofKey key (key e) (es.erase e) = (ofKey key (key e) es).erase e := by
  induction es with
  | nil => rfl
  | cons x xs ih =>
    unfold ofKey at *
    by_cases hxe : x = e
    · subst hxe
      simp
    · rw [List.erase_cons_tail (by simpa using hxe)]
      by_cases hkey : key x = key e
      · rw [List.filter_cons_of_pos (by simpa using hkey),
          List.filter_cons_of_pos (by simpa using hkey), List.erase_cons_tail (by simpa using hxe),
          ih]
      · rw [List.filter_cons_of_neg (by simpa using hkey),
          List.filter_cons_of_neg (by simpa using hkey), ih]

theorem ofKey_erase_ne {k : κ} {e : ε} (h : k ≠ key e) (es : List ε) :
    ofKey key k (es.erase e) = ofKey key k es := by
  induction es with
  | nil => rfl
  | cons x xs ih =>
    unfold ofKey at *
    by_cases hxe : x = e
    · subst hxe
      rw [List.erase_cons_head, List.filter_cons_of_neg (by simpa using Ne.symm h)]
    · rw [List.erase_cons_tail (by simpa using hxe)]
      by_cases hkey : key x = k
      · rw [List.filter_cons_of_pos (by simpa using hkey),
          List.filter_cons_of_pos (by simpa using hkey), ih]
      · rw [List.filter_cons_of_neg (by simpa using hkey),
          List.filter_cons_of_neg (by simpa using hkey), ih]

/-- Handling the oldest event of its key leaves the value that the key is going to have. -/
theorem replay_of_isOldest (effect : ε → β → β) {e : ε} {es : List ε} (h : IsOldest key e es)
    (b : β) :
    replay effect (ofKey key (key e) (es.erase e)) (effect e b) =
      replay effect (ofKey key (key e) es) b := by
  obtain ⟨fs, hfs⟩ := List.head?_eq_some_iff.mp h
  rw [ofKey_erase_self, hfs, List.erase_cons_head]
  rfl

end Rules

end PetProject.Foundation.KeyedReplay
