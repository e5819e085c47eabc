import Mathlib.Data.List.Nodup
import PetProject.Foundation.KeyedReplay
import PetProject.Foundation.Transition
import PetProject.Watch.FileOps

/-!
# Replaced files

One step is a file operation followed by the complete handling of its events. Nothing in the table
or in the INSERT keeps a name from having two rows: the row of a replaced entry stays, and the event
of the entry that takes its place inserts a second one. The names of the table are different in
every state of a run exactly when no operation of the run replaces an entry
(`names_distinct_iff_fresh`).
-/

set_option autoImplicit false

namespace PetProject.Watch.Replacing

open PetProject.Foundation.TextSearch PetProject.Foundation.SqlLexer
open PetProject.Foundation.Transition PetProject.Foundation.KeyedReplay PetProject.Workers

/-- The directory, the table and the records of the logger. -/
structure State where
  dir : List FileName
  db : SongList
  log : List Text

/-- An operation on names that the handlers record, with what the generator of identifiers gets from
outside. -/
structure Label where
  op : FileOp
  recordable : ∀ o ∈ op.changes, Recordable o.name.text
  src : UuidSources

/-- The operation happens and its events are handled. -/
def step (t : TDB_type) (md5 : MD5) (codePosition : Text) (s : State) (l : Label) : Option State :=
  (l.op.run s.dir).map fun dir =>
    let res := handleEvents t md5 codePosition l.src (s.db, s.log) l.op.events
    ⟨dir, res.1, res.2⟩

/-- An empty directory and an empty table. -/
def State.IsInit (s : State) : Prop := s.dir = [] ∧ s.db.rows = []

/-- No two rows have the same name. -/
def State.NamesDistinct (s : State) : Prop := (s.db.rows.map SongRow.song_name).Nodup

/-- The operation of the step replaces no entry. -/
def FreshStep (s : State) (l : Label) : Prop := l.op.Fresh s.dir

/-! ## Numbers of rows -/

/-- Every name of the directory has one row, and there are no other rows. -/
def Matches (count : Text → Nat) (dir : List FileName) : Prop :=
  ∀ x, count x = if ∃ n ∈ dir, n.text = x then 1 else 0

theorem namesDistinct_iff (s : State) : s.NamesDistinct ↔ ∀ x, countName s.db x ≤ 1 := by
  have hcount : ∀ x, (s.db.rows.map SongRow.song_name).count x = countName s.db x := by
    intro x
    rw [List.count, List.countP_map]
    apply List.countP_congr
    intro r _
    simp
  unfold State.NamesDistinct
  rw [List.nodup_iff_count_le_one]
  constructor
  · intro h x
    rw [← hcount x]
    exact h x
  · intro h x
    rw [hcount x]
    exact h x

/-- An elementary change and the statement for it. -/
theorem matches_change {count : Text → Nat} {dir dir' : List FileName} {o : DirOp}
    (hmatch : Matches count dir) (hrun : o.run dir = some dir') :
    Matches (applyEvent Prod.snd rowEffect count (o.watcher, o.name.text)) dir' := by
  intro x
  have hmem := mem_run hrun x
  have henabled := run_enabled hrun
  unfold applyEvent
  by_cases hx : x = o.name.text
  · subst hx
    have hold := hmatch o.name.text
    simp only [henabled] at hold
    simp only [if_true, hmem, hold]
    unfold rowEffect DirOp.watcher
    cases o.appears <;> rfl
  · simp only [if_neg hx, hmem]
    exact hmatch x

theorem matches_changes {count : Text → Nat} {dir dir' : List FileName} (os : List DirOp)
    (hmatch : Matches count dir) (hrun : os.foldlM DirOp.run dir = some dir') :
    Matches (replayAll Prod.snd rowEffect (os.map fun o => (o.watcher, o.name.text)) count)
      dir' := by
  induction os generalizing count dir with
  | nil =>
    cases hrun
    exact hmatch
  | cons o os ih =>
    rw [List.foldlM_cons] at hrun
    obtain ⟨dir₁, hfirst, hrest⟩ := Option.bind_eq_some_iff.mp hrun
    exact ih (matches_change hmatch hfirst) hrest

/-- The arrival of a name adds a row to the rows of the name. -/
theorem count_after_arrival (count : Text → Nat) {os : List DirOp} {n : FileName} (cookie : UInt32)
    (hothers : ∀ o ∈ os, o.name ≠ n) :
    replayAll Prod.snd rowEffect
        ((os ++ [DirOp.moveIn n cookie]).map fun o => (o.watcher, o.name.text)) count n.text =
      count n.text + 1 := by
  have hnone : ofKey Prod.snd n.text (os.map fun o => (o.watcher, o.name.text)) = [] := by
    apply List.filter_eq_nil_iff.mpr
    intro e he
    obtain ⟨o, ho, rfl⟩ := List.mem_map.mp he
    intro htext
    exact hothers o ho (text_injective (of_decide_eq_true htext))
  have hkey : n.text = (DirOp.moveIn n cookie).name.text := rfl
  rw [List.map_append, List.map_singleton, replayAll_append_singleton, applyEvent, if_pos hkey,
    replayAll_apply, hnone]
  rfl

/-! ## Steps -/

section Steps

variable {t : TDB_type} {md5 : MD5} {codePosition : Text} {s s' : State} {l : Label}

/-- What a step does to the directory and to the rows. -/
theorem step_cases (h : step t md5 codePosition s l = some s') :
    l.op.run s.dir = some s'.dir ∧
      countName s'.db = replayAll Prod.snd rowEffect
        (l.op.changes.map fun o => (o.watcher, o.name.text)) (countName s.db) := by
  obtain ⟨dir, hrun, rfl⟩ := Option.map_eq_some_iff.mp h
  exact ⟨hrun, countName_handleEvents l.op.changes l.recordable (s.db, s.log)⟩

theorem matches_step (hs : Matches (countName s.db) s.dir) (hfresh : FreshStep s l)
    (h : step t md5 codePosition s l = some s') : Matches (countName s'.db) s'.dir := by
  obtain ⟨hrun, hcount⟩ := step_cases h
  rw [hcount]
  exact matches_changes l.op.changes hs (run_of_fresh hfresh hrun)

theorem not_namesDistinct_step (hs : Matches (countName s.db) s.dir) (hfresh : ¬ FreshStep s l)
    (h : step t md5 codePosition s l = some s') : ¬ s'.NamesDistinct := by
  obtain ⟨-, hcount⟩ := step_cases h
  obtain ⟨os, n, cookie, hn, hchanges, hothers⟩ := changes_of_not_fresh hfresh
  -- the replaced entry has a row already
  have hold : countName s.db n.text = 1 := (hs n.text).trans (if_pos ⟨n, hn, rfl⟩)
  have hnew : countName s'.db n.text = 2 := by
    rw [hcount, hchanges, count_after_arrival (countName s.db) cookie hothers, hold]
  intro hdistinct
  have hle := (namesDistinct_iff s').mp hdistinct n.text
  omega

end Steps

theorem namesDistinct_of_matches {s : State} (h : Matches (countName s.db) s.dir) :
    s.NamesDistinct := by
  apply (namesDistinct_iff s).mpr
  intro x
  rw [h x]
  split <;> omega

theorem matches_init {s : State} (h : s.IsInit) : Matches (countName s.db) s.dir := by
  intro x
  have hnone : ¬ ∃ n ∈ s.dir, n.text = x := by simp [h.1]
  rw [if_neg hnone, countName, h.2]
  rfl

/-- The names of the table are different in every state of a run if and only if no operation of the
run replaces an entry. -/
theorem names_distinct_iff_fresh (t : TDB_type) (md5 : MD5) (codePosition : Text) {s s' : State}
    {ls : List Label} (hs : s.IsInit) (h : Run (step t md5 codePosition) Always s ls s') :
    Throughout (step t md5 codePosition) State.NamesDistinct s ls ↔
      Run (step t md5 codePosition) FreshStep s ls s' :=
  h.throughout_iff (I := fun s => Matches (countName s.db) s.dir)
    (fun _ => namesDistinct_of_matches) (fun _ _ _ hs hok hst => matches_step hs hok hst)
    (fun _ _ _ hs hok hst => not_namesDistinct_step hs hok hst) (matches_init hs)

/-! ## Concrete runs -/

instance (s : State) : Decidable s.NamesDistinct :=
  inferInstanceAs (Decidable (List.Nodup _))

instance : DecidableRel FreshStep := fun s l => inferInstanceAs (Decidable (l.op.Fresh s.dir))

def emptyState : State := ⟨[], ⟨[], 1⟩, []⟩

def Label.ofOp (op : FileOp) (h : ∀ o ∈ op.changes, Recordable o.name.text) : Label :=
  ⟨op, h, repeatedSources 'a'⟩

/-- A file is created, renamed to a free name and removed. -/
def renamedRun : List Label :=
  [.ofOp (.create songA) (by decide), .ofOp (.rename songA songB 1) (by decide),
    .ofOp (.unlink songB) (by decide)]

/-- The file is written under another name and renamed over the old one. -/
def replacedRun : List Label :=
  [.ofOp (.create songA) (by decide), .ofOp (.create songB) (by decide),
    .ofOp (.rename songB songA 1) (by decide)]

theorem names_distinct_iff_fresh_renamedRun :
    Throughout (step .SQLITE headDigest []) State.NamesDistinct emptyState renamedRun := by
  have hexec :
      (exec (step .SQLITE headDigest []) FreshStep emptyState renamedRun).isSome = true := by
    decide +kernel
  obtain ⟨s, hs⟩ := Option.isSome_iff_exists.mp hexec
  have hfresh : Run (step .SQLITE headDigest []) FreshStep emptyState renamedRun s := run_of_exec hs
  have hrun : Run (step .SQLITE headDigest []) Always emptyState renamedRun s := hfresh.always
  exact (names_distinct_iff_fresh .SQLITE headDigest [] ⟨rfl, rfl⟩ hrun).mpr hfresh

/-- After a rename over an existing name the name has two rows. -/
theorem not_names_distinct_replacedRun :
    ¬ ∀ (t : TDB_type) (md5 : MD5) (codePosition : Text) (s : State),
      Reachable (step t md5 codePosition) Always State.IsInit s → s.NamesDistinct := by
  intro hall
  have hexec : ((exec (step .SQLITE headDigest []) Always emptyState replacedRun).map fun s =>
      decide (¬ s.NamesDistinct)) = some true := by
    decide +kernel
  obtain ⟨s, hs, hend⟩ := exec_decide_sound hexec
  exact hend (hall _ _ _ s (reachable_of_exec ⟨rfl, rfl⟩ _ hs))

end PetProject.Watch.Replacing
