import Mathlib.Data.List.Basic
import PetProject.Foundation.KeyedReplay
import PetProject.Foundation.Transition
import PetProject.Watch.Mirror

/-!
# Two interleavings of the handlers

The two threads drain a queue of names each. One step takes the first name of one queue and calls
the handler of that queue, which executes at most one statement. The field `handled` is the history
of these calls.

A handler changes the rows of its own name only, so the rows of a name depend on the history of that
name. Two runs from one state that agree on the history of every name they record leave the same
number of rows for every name (`same_counts_of_same_histories`).
-/

set_option autoImplicit false

namespace PetProject.Watch.Commuting

open PetProject.Foundation.TextSearch PetProject.Foundation.SqlLexer
open PetProject.Foundation.Transition PetProject.Foundation.KeyedReplay PetProject.Workers

/-- The names that wait for the two threads, the table, the records of the logger, and the names
handled so far with the thread that handled them. -/
structure State where
  inDelete : List FileName
  inAdd : List FileName
  db : SongList
  log : List Text
  handled : List (Watcher × Text)

def State.queue (s : State) : Watcher → List FileName
  | .m_inotyInDelete => s.inDelete
  | .m_inotyInAdd => s.inAdd

def State.setQueue (s : State) (k : Watcher) (ns : List FileName) : State :=
  match k with
  | .m_inotyInDelete => { s with inDelete := ns }
  | .m_inotyInAdd => { s with inAdd := ns }

/-- Nothing is handled yet. -/
def start (inDelete inAdd : List FileName) (db : SongList) (log : List Text) : State :=
  ⟨inDelete, inAdd, db, log, []⟩

/-- Both queues are empty. -/
def State.Drained (s : State) : Prop := ∀ k, s.queue k = []

/-- A step of the thread of `k`, with what the generator of identifiers gets from outside. -/
structure Label where
  k : Watcher
  src : UuidSources

/-- The thread handles the next name of its queue. -/
def step (t : TDB_type) (md5 : MD5) (codePosition : Text) (s : State) (l : Label) : Option State :=
  match s.queue l.k with
  | [] => none
  | n :: rest =>
      let res := (watchFunction t md5 codePosition l.src l.k n.text (s.db, s.log)).2
      some { s.setQueue l.k rest with
        db := res.1, log := res.2, handled := s.handled ++ [(l.k, n.text)] }

/-! ## The effect of a handler -/

/-- The effect of a handled name on the number of its rows: the names of journals are ignored. -/
def handlerEffect (e : Watcher × Text) (c : Nat) : Nat :=
  if journalMark <:+: e.2 then c else rowEffect e c

theorem watchFunction_journal (t : TDB_type) (md5 : MD5) (codePosition : Text) (src : UuidSources)
    (k : Watcher) {name : Text} (h : journalMark <:+: name) (db : SongList) (log : List Text) :
    watchFunction t md5 codePosition src k name (db, log) = (true, (db, log)) :=
  handler_journal (tableServices t) codePosition (getDefaultUUID md5 src) k (db, log) h

/-- Of all names, a handler changes the rows of its own name only. -/
theorem countName_handler (t : TDB_type) (md5 : MD5) (codePosition : Text) (src : UuidSources)
    (k : Watcher) (n : FileName) (hquote : quote ∉ n.text) (db : SongList) (log : List Text) :
    countName (watchFunction t md5 codePosition src k n.text (db, log)).2.1 =
      applyEvent Prod.snd handlerEffect (countName db) (k, n.text) := by
  funext x
  unfold applyEvent handlerEffect
  by_cases hmark : journalMark <:+: n.text
  · rw [watchFunction_journal t md5 codePosition src k hmark, if_pos hmark, ite_self]
  · rw [if_neg hmark]
    apply countName_watchFunction
    exact ⟨hquote, n.nul_notMem_text, hmark⟩

/-! ## Runs -/

/-- The rows after a run from a state: those of the start with the handled names replayed. -/
structure Follows (s₀ s : State) : Prop where
  counts : countName s.db = replayAll Prod.snd handlerEffect s.handled (countName s₀.db)
  quoteFree : ∀ k, ∀ n ∈ s.queue k, quote ∉ n.text

section Steps

variable {t : TDB_type} {md5 : MD5} {codePosition : Text} {s₀ s s' : State}

theorem queue_setQueue_self (s : State) (k : Watcher) (ns : List FileName) :
    (s.setQueue k ns).queue k = ns := by
  cases k <;> rfl

theorem queue_setQueue_ne (s : State) {k k' : Watcher} (h : k' ≠ k) (ns : List FileName) :
    (s.setQueue k ns).queue k' = s.queue k' := by
  cases k <;> cases k' <;> first | rfl | exact absurd rfl h

/-- What a step does. -/
theorem step_cases {l : Label} (h : step t md5 codePosition s l = some s') :
    ∃ n rest, s.queue l.k = n :: rest ∧
      (∀ k, s'.queue k = if k = l.k then rest else s.queue k) ∧
      s'.db = (watchFunction t md5 codePosition l.src l.k n.text (s.db, s.log)).2.1 ∧
      s'.handled = s.handled ++ [(l.k, n.text)] := by
  unfold step at h
  split at h
  · cases h
  · rename_i n rest hqueue
    cases h
    refine ⟨n, rest, hqueue, fun k => ?_, rfl, rfl⟩
    change (s.setQueue l.k rest).queue k = _
    split
    · rename_i hk
      rw [hk]
      exact queue_setQueue_self s l.k rest
    · rename_i hk
      exact queue_setQueue_ne s hk rest

theorem follows_step {l : Label} (hs : Follows s₀ s) (h : step t md5 codePosition s l = some s') :
    Follows s₀ s' := by
  obtain ⟨n, rest, hqueue, hqueues, hdb, hhandled⟩ := step_cases h
  have hquote : quote ∉ n.text := by
    apply hs.quoteFree l.k n
    rw [hqueue]
    exact List.mem_cons_self
  constructor
  · rw [hdb, hhandled, countName_handler t md5 codePosition l.src l.k n hquote, hs.counts,
      replayAll_append_singleton]
  · intro k m hm
    rw [hqueues k] at hm
    split at hm
    · apply hs.quoteFree l.k m
      rw [hqueue]
      exact List.mem_cons_of_mem n hm
    · exact hs.quoteFree k m hm

theorem follows_run {ls : List Label} (hquote : ∀ k, ∀ n ∈ s₀.queue k, quote ∉ n.text)
    (hhandled : s₀.handled = []) (h : Run (step t md5 codePosition) Always s₀ ls s) :
    Follows s₀ s := by
  apply h.invariant (fun _ _ _ hs _ hst => follows_step hs hst)
  constructor
  · rw [hhandled]
    rfl
  · exact hquote

end Steps

/-- The names of journals keep the rows they had. -/
theorem replay_handlerEffect_journal {x : Text} (hx : journalMark <:+: x)
    (es : List (Watcher × Text)) (c : Nat) :
    replay handlerEffect (ofKey Prod.snd x es) c = c := by
  apply replay_of_inert
  intro e he b
  have hkey : e.2 = x := of_decide_eq_true (List.mem_filter.mp he).2
  exact if_pos (hkey.symm ▸ hx)

/-- Two runs from one state, with the same history of INSERTs and DELETEs for every name, end with
the same number of rows for every name; in particular two runs that drain both queues. The names of
journals have no statements, so nothing is asked of their histories. -/
theorem same_counts_of_same_histories (t : TDB_type) (md5 : MD5) (codePosition : Text)
    (inDelete inAdd : List FileName) (db : SongList) (log : List Text)
    (hdelete : ∀ n ∈ inDelete, quote ∉ n.text) (hadd : ∀ n ∈ inAdd, quote ∉ n.text)
    {ls₁ ls₂ : List Label} {s₁ s₂ : State}
    (h₁ : Run (step t md5 codePosition) Always (start inDelete inAdd db log) ls₁ s₁)
    (h₂ : Run (step t md5 codePosition) Always (start inDelete inAdd db log) ls₂ s₂)
    (hsame : ∀ x, ¬ journalMark <:+: x →
      ofKey Prod.snd x s₁.handled = ofKey Prod.snd x s₂.handled) :
    ∀ x, countName s₁.db x = countName s₂.db x := by
  have hquote : ∀ k, ∀ n ∈ (start inDelete inAdd db log).queue k, quote ∉ n.text := by
    intro k
    cases k with
    | m_inotyInDelete => exact hdelete
    | m_inotyInAdd => exact hadd
  have hfollow₁ := follows_run hquote rfl h₁
  have hfollow₂ := follows_run hquote rfl h₂
  intro x
  rw [hfollow₁.counts, hfollow₂.counts, replayAll_apply, replayAll_apply]
  by_cases hx : journalMark <:+: x
  · rw [replay_handlerEffect_journal hx, replay_handlerEffect_journal hx]
  · rw [hsame x hx]

/-! ## Concrete runs -/

instance (s : State) : Decidable s.Drained :=
  decidable_of_iff (s.inDelete = [] ∧ s.inAdd = [])
    ⟨fun h k => by cases k; exacts [h.1, h.2], fun h => ⟨h .m_inotyInDelete, h .m_inotyInAdd⟩⟩

/-- The deletion of `songA` between the two insertions, or after them. -/
def deleteFirst : List Label :=
  [⟨.m_inotyInAdd, repeatedSources 'a'⟩, ⟨.m_inotyInDelete, repeatedSources 'a'⟩,
    ⟨.m_inotyInAdd, repeatedSources 'b'⟩]

def deleteLast : List Label :=
  [⟨.m_inotyInAdd, repeatedSources 'c'⟩, ⟨.m_inotyInAdd, repeatedSources 'd'⟩,
    ⟨.m_inotyInDelete, repeatedSources 'a'⟩]

theorem same_counts_of_same_histories_songA :
    ∃ s₁ s₂,
      exec (step .SQLITE headDigest []) Always (start [songA] [songA, songB] ⟨[], 1⟩ [])
        deleteFirst = some s₁ ∧
      exec (step .SQLITE headDigest []) Always (start [songA] [songA, songB] ⟨[], 1⟩ [])
        deleteLast = some s₂ ∧
      s₁.Drained ∧ s₂.Drained ∧ ∀ x, countName s₁.db x = countName s₂.db x := by
  have hexec₁ : ((exec (step .SQLITE headDigest []) Always
      (start [songA] [songA, songB] ⟨[], 1⟩ []) deleteFirst).map fun s =>
        decide (s.Drained ∧ s.handled = [(.m_inotyInAdd, songA.text),
          (.m_inotyInDelete, songA.text), (.m_inotyInAdd, songB.text)])) = some true := by
    decide +kernel
  have hexec₂ : ((exec (step .SQLITE headDigest []) Always
      (start [songA] [songA, songB] ⟨[], 1⟩ []) deleteLast).map fun s =>
        decide (s.Drained ∧ s.handled = [(.m_inotyInAdd, songA.text),
          (.m_inotyInAdd, songB.text), (.m_inotyInDelete, songA.text)])) = some true := by
    decide +kernel
  obtain ⟨s₁, hs₁, hdone₁, hhandled₁⟩ := exec_decide_sound hexec₁
  obtain ⟨s₂, hs₂, hdone₂, hhandled₂⟩ := exec_decide_sound hexec₂
  refine ⟨s₁, s₂, hs₁, hs₂, hdone₁, hdone₂, ?_⟩
  apply same_counts_of_same_histories .SQLITE headDigest [] [songA] [songA, songB] ⟨[], 1⟩ []
    (by decide) (by decide) (run_of_exec hs₁) (run_of_exec hs₂)
  -- the two histories differ in the order of different names only
  intro x _
  have hne : songA.text ≠ songB.text := by decide
  rw [hhandled₁, hhandled₂]
  by_cases hA : songA.text = x
  · subst hA
    simp [ofKey, Ne.symm hne]
  · simp [ofKey, List.filter_cons, hA]

end PetProject.Watch.Commuting
