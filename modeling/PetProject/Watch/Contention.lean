import Mathlib.Data.List.Count
import PetProject.Foundation.Transition
import PetProject.Watch.Mirror

/-!
# Two daemons on one database file

The watch daemon and the HTTP daemon write to the same SQLite file. `SQLiteWorker::execQuery` takes
`m_mtx`, opens a connection of its own and executes the statement; there is no busy timeout, so a
statement that finds the write lock taken fails at once with `SQLITE_BUSY`. The mutex orders the two
threads of the watch daemon, but not the connection of the other process.

A failed statement is a line on `cerr`, and the event is gone. In a state where everything is idle
each event that was read is applied exactly when no statement for a recordable name was attempted
while the HTTP daemon was writing (`none_lost_iff`).
-/

set_option autoImplicit false

namespace PetProject.Watch.Contention

open PetProject.Foundation.TextSearch PetProject.Foundation.SqlLexer
open PetProject.Foundation.Transition PetProject.Workers

/-- The connection that holds the write lock of the database file. -/
inductive Writer where
  /-- The INSERT into `request_logs` of `ProcessRequest`. -/
  | http
  | watch (k : Watcher)
  deriving DecidableEq, Repr

/-- Where the thread of a watcher is. -/
inductive Stage where
  /-- Outside the handler. -/
  | atLoop
  /-- In `execQuery`, before `m_mtx`. -/
  | atMutex (name TDBquery : Text)
  /-- In `sqlite3_exec`, with the write lock. -/
  | inExec (name TDBquery : Text)
  deriving DecidableEq, Repr

def Stage.isExec : Stage → Bool
  | .inExec _ _ => true
  | _ => false

/-- The watch daemon with its files and table, and the write lock. `read` is the history of the
events that were read, `outcomes` of the events that were handled, each with the statement that was
executed for it. -/
structure State where
  files : Watch.State
  stage : Watcher → Stage
  writer : Option Writer
  read : List (Watcher × Text)
  outcomes : List ((Watcher × Text) × Option Statement)
  cerr : List Text

def State.setStage (s : State) (k : Watcher) (g : Stage) : State :=
  { s with stage := fun k' => if k' = k then g else s.stage k' }

/-- No thread of the watch daemon is between the two ends of `execQuery`. -/
def State.m_mtxFree (s : State) : Bool :=
  !(s.stage .m_inotyInDelete).isExec && !(s.stage .m_inotyInAdd).isExec

/-- The handler of an event has returned, and the statement, if there is one, is executed. -/
def State.consume (t : TDB_type) (s : State) (k : Watcher) (name : Text) (o : Option Statement) :
    State :=
  { s.setStage k .atLoop with
    files := { s.files with
      db := o.toList.foldl (SongList.apply t) s.files.db
      pending := s.files.pending.erase (k, name) }
    outcomes := s.outcomes ++ [((k, name), o)] }

/-- The handler has returned `false`, and the record loop reports the name. -/
def State.fail (t : TDB_type) (s : State) (k : Watcher) (name : Text) : State :=
  { s.consume t k name none with cerr := s.cerr ++ [eventError name] }

/-- The logger, and a worker that keeps the statement for the steps of `execQuery`. -/
def callServices : Services (List Text × List Text) where
  FAST_LOG record s := (s.1 ++ [record], s.2)
  execQuery TDBquery s := (true, (s.1, s.2 ++ [TDBquery]))

inductive Label where
  | op (o : DirOp)
  /-- The watcher's `read` delivers the first `count` events of its queue. -/
  | read (k : Watcher) (count : Nat)
  /-- The record loop calls the handler with the next name. -/
  | call (k : Watcher) (src : UuidSources)
  /-- The thread gets `m_mtx`, opens its connection and starts `sqlite3_exec`. -/
  | enter (k : Watcher)
  /-- The statement is committed and `execQuery` returns. -/
  | commit (k : Watcher)
  /-- The connection of the HTTP daemon starts its INSERT into `request_logs`. -/
  | httpBegin
  | httpCommit

/-- One step of the two daemons. -/
def step (t : TDB_type) (md5 : MD5) (codePosition : Text) (s : State) : Label → Option State
  | .op o => (Watch.step t md5 codePosition s.files (.op o)).map fun files =>
      { s with files := files }
  | .read k count =>
      if s.stage k = .atLoop then
        (Watch.step t md5 codePosition s.files (.read k count)).map fun files =>
          { s with
            files := files
            read := s.read ++ (files.channel k).batch.map fun name => (k, name) }
      else none
  | .call k src =>
      match s.stage k, (s.files.channel k).batch with
      | .atLoop, name :: rest =>
          let called := (handler callServices codePosition (getDefaultUUID md5 src) k name
            (s.files.log, [])).2
          let s := { s with
            files := { s.files.setChannel k ⟨(s.files.channel k).queue, rest⟩ with
              log := called.1 } }
          match called.2 with
          -- the name of a journal: the handler has returned `true`
          | [] => some (s.consume t k name none)
          | TDBquery :: _ => some (s.setStage k (.atMutex name TDBquery))
      | _, _ => none
  | .enter k =>
      match s.stage k with
      | .atMutex name TDBquery =>
          if s.m_mtxFree then
            match s.writer with
            | none => some { s.setStage k (.inExec name TDBquery) with writer := some (.watch k) }
            -- `SQLITE_BUSY`
            | some _ => some (s.fail t k name)
          else none
      | _ => none
  | .commit k =>
      match s.stage k with
      | .inExec name TDBquery =>
          let s := { s with writer := none }
          match parseStatement (tokens (cStr TDBquery)) with
          | some statement => some (s.consume t k name (some statement))
          | none => some (s.fail t k name)
      | _ => none
  | .httpBegin =>
      match s.writer with
      | none => some { s with writer := some .http }
      -- the INSERT of the HTTP daemon fails
      | some _ => some s
  | .httpCommit => if s.writer = some .http then some { s with writer := none } else none

/-- The queues are empty, the threads wait for events and nobody writes. -/
structure State.Idle (s : State) : Prop where
  quiet : s.files.Quiet
  stages : ∀ k, s.stage k = .atLoop
  writer : s.writer = none

/-- The threads are at their loops with events in the kernel queues; nothing is read yet. -/
structure State.IsInit (s : State) : Prop where
  batches : ∀ k, (s.files.channel k).batch = []
  stages : ∀ k, s.stage k = .atLoop
  writer : s.writer = none
  read : s.read = []
  outcomes : s.outcomes = []

/-- The events with a statement that was executed. -/
def State.applied (s : State) : List (Watcher × Text) :=
  (s.outcomes.filter fun o => o.2.isSome).map Prod.fst

/-- The statements that were executed, in order. -/
def State.executed (s : State) : List Statement := s.outcomes.filterMap Prod.snd

/-- The table is the one at the start with the executed statements applied, the statement executed
for an event with a recordable name is its INSERT or DELETE, and each of these events was applied as
often as it was read. -/
structure NoneLost (t : TDB_type) (s₀ s : State) : Prop where
  table : s.files.db = s.executed.foldl (SongList.apply t) s₀.files.db
  own : ∀ k name statement, ((k, name), some statement) ∈ s.outcomes → Recordable name →
    ∃ uid, statement = handlerStatement uid name k
  all : ∀ e : Watcher × Text, Recordable e.2 → s.applied.count e = s.read.count e

/-- The event that a thread has with its handler. -/
def Stage.name? : Stage → Option Text
  | .atLoop => none
  | .atMutex name _ | .inExec name _ => some name

/-- A statement for a recordable name that starts finds the write lock free. -/
def Uncontended (s : State) : Label → Prop
  | .enter k => ∀ name ∈ (s.stage k).name?, Recordable name → s.writer = none
  | _ => True

/-! ## Counting events -/

/-- The events that a thread has taken out of its kernel queue and not finished. -/
def State.inHand (s : State) (k : Watcher) : List Text :=
  (s.stage k).name?.toList ++ (s.files.channel k).batch

/-- All handled events of a kind were applied if and only if none of them failed. -/
theorem count_applied_iff {α β : Type} [BEq α] [LawfulBEq α] (os : List (α × Option β)) (e : α) :
    ((os.filter fun o => o.2.isSome).map Prod.fst).count e = (os.map Prod.fst).count e ↔
      ∀ o ∈ os, o.1 = e → o.2.isSome = true := by
  induction os with
  | nil => simp
  | cons o os ih =>
    have hle : ((os.filter fun o => o.2.isSome).map Prod.fst).count e ≤
        (os.map Prod.fst).count e := (List.filter_sublist.map Prod.fst).count_le e
    rw [List.forall_mem_cons]
    cases hsome : o.2.isSome with
    | true =>
      have hkeep : ((o :: os).filter fun o => o.2.isSome) = o :: os.filter fun o => o.2.isSome :=
        List.filter_cons_of_pos hsome
      rw [hkeep, List.map_cons, List.map_cons, List.count_cons, List.count_cons]
      constructor
      · intro h
        exact ⟨fun _ => rfl, ih.mp (by omega)⟩
      · rintro ⟨-, h⟩
        rw [ih.mpr h]
    | false =>
      have hdrop : ((o :: os).filter fun o => o.2.isSome) = os.filter fun o => o.2.isSome :=
        List.filter_cons_of_neg (by simp [hsome])
      rw [hdrop, List.map_cons]
      by_cases he : o.1 = e
      · rw [he, List.count_cons_self]
        constructor
        · intro h
          omega
        · rintro ⟨hne, -⟩
          exact absurd (hne rfl) (by simp)
      · rw [List.count_cons_of_ne he]
        constructor
        · intro h
          exact ⟨fun heq => absurd heq he, ih.mp h⟩
        · rintro ⟨-, h⟩
          exact ih.mpr h

/-- What is read is handled or in the hands of its thread. -/
def Balanced (read : List (Watcher × Text)) (outcomes : List ((Watcher × Text) × Option Statement))
    (hand : Watcher → List Text) : Prop :=
  ∀ k name, read.count (k, name) =
    (outcomes.map Prod.fst).count (k, name) + (hand k).count name

section Balance

variable {read : List (Watcher × Text)} {outcomes : List ((Watcher × Text) × Option Statement)}
  {hand hand' : Watcher → List Text}

theorem balanced_read {k : Watcher} (h : Balanced read outcomes hand) (hk : hand k = [])
    (hne : ∀ k', k' ≠ k → hand' k' = hand k') :
    Balanced (read ++ (hand' k).map fun name => (k, name)) outcomes hand' := by
  intro k' name
  have hold := h k' name
  rw [List.count_append]
  by_cases hkk : k' = k
  · subst hkk
    have hinj : Function.Injective fun name : Text => (k', name) := by
      intro a b hab
      exact (Prod.mk.inj hab).2
    have hcount : ((hand' k').map fun name => (k', name)).count (k', name) =
        (hand' k').count name := List.count_map_of_injective (hand' k') _ hinj name
    rw [hk, List.count_nil] at hold
    omega
  · have hnone : ((hand' k).map fun name => (k, name)).count (k', name) = 0 := by
      apply List.count_eq_zero.mpr
      intro hmem
      obtain ⟨n, -, heq⟩ := List.mem_map.mp hmem
      exact hkk (Prod.mk.inj heq).1.symm
    rw [hne k' hkk]
    omega

/-- A thread finishes the first event in its hands. -/
theorem balanced_finish {k : Watcher} {name : Text} (o : Option Statement)
    (h : Balanced read outcomes hand) (hk : hand k = name :: hand' k)
    (hne : ∀ k', k' ≠ k → hand' k' = hand k') :
    Balanced read (outcomes ++ [((k, name), o)]) hand' := by
  intro k' n
  have hold := h k' n
  rw [List.map_append, List.count_append, List.map_singleton, List.count_singleton]
  by_cases hkk : k' = k
  · subst hkk
    rw [hk, List.count_cons] at hold
    simp only [beq_iff_eq, Prod.mk.injEq, true_and] at *
    omega
  · have hpair : ((k, name) == (k', n)) = false := by
      simp [Ne.symm hkk]
    rw [hpair, hne k' hkk]
    simpa using hold

end Balance

/-- The events are accounted for: the statements on their way are those of their events, and the
table is the one at the start with the executed statements applied. -/
structure Accounted (t : TDB_type) (s₀ s : State) : Prop where
  balance : Balanced s.read s.outcomes s.inHand
  statements : ∀ k name TDBquery,
    s.stage k = .atMutex name TDBquery ∨ s.stage k = .inExec name TDBquery → Recordable name →
      ∃ uid, parseStatement (tokens (cStr TDBquery)) = some (handlerStatement uid name k)
  own : ∀ k name statement, ((k, name), some statement) ∈ s.outcomes → Recordable name →
    ∃ uid, statement = handlerStatement uid name k
  table : s.files.db = s.executed.foldl (SongList.apply t) s₀.files.db

/-- No event with a recordable name has failed. -/
def State.AllApplied (s : State) : Prop :=
  ∀ o ∈ s.outcomes, Recordable o.1.2 → o.2.isSome = true

/-- What a step does to the history of handled events. -/
def Outcome (s : State) (l : Label) (s' : State) : Prop :=
  (s'.outcomes = s.outcomes ∧ Uncontended s l) ∨
    ∃ e o, s'.outcomes = s.outcomes ++ [(e, o)] ∧
      ((Recordable e.2 → o.isSome = true) ↔ Uncontended s l)

/-! ## Steps -/

section Steps

variable {t : TDB_type} {md5 : MD5} {codePosition : Text} {s₀ s s' : State}

theorem stage_setStage_self (s : State) (k : Watcher) (g : Stage) : (s.setStage k g).stage k = g :=
  if_pos rfl

theorem stage_setStage_ne (s : State) {k k' : Watcher} (h : k' ≠ k) (g : Stage) :
    (s.setStage k g).stage k' = s.stage k' :=
  if_neg h

/-- The channels do not depend on the table and the ghost history. -/
theorem channel_table (files : Watch.State) (db : SongList) (ps : List (Watcher × Text))
    (k : Watcher) :
    Watch.State.channel { files with db := db, pending := ps } k = files.channel k := by
  cases k <;> rfl

/-- A step that leaves the hands of all threads, the histories and the table alone. -/
theorem accounted_of_frame (hs : Accounted t s₀ s) (hread : s'.read = s.read)
    (houtcomes : s'.outcomes = s.outcomes) (hstage : s'.stage = s.stage)
    (hdb : s'.files.db = s.files.db)
    (hbatch : ∀ k, (s'.files.channel k).batch = (s.files.channel k).batch) :
    Accounted t s₀ s' := by
  refine ⟨fun k name => ?_, ?_, ?_, ?_⟩
  · have hbalance := hs.balance k name
    unfold State.inHand at hbalance ⊢
    rw [hread, houtcomes, hstage, hbatch k]
    exact hbalance
  · rw [hstage]
    exact hs.statements
  · rw [houtcomes]
    exact hs.own
  · unfold State.executed
    rw [hdb, houtcomes]
    exact hs.table

theorem accounted_op {o : DirOp} (hs : Accounted t s₀ s)
    (h : step t md5 codePosition s (.op o) = some s') :
    Accounted t s₀ s' ∧ Outcome s (.op o) s' := by
  obtain ⟨files, hfiles, rfl⟩ := Option.map_eq_some_iff.mp h
  obtain ⟨dir, -, rfl⟩ := Option.map_eq_some_iff.mp hfiles
  rw [raise_event]
  refine ⟨accounted_of_frame hs rfl rfl rfl (setChannel_frame s.files o.watcher _).2.1 fun k => ?_,
    Or.inl ⟨rfl, trivial⟩⟩
  by_cases hk : k = o.watcher
  · subst hk
    change ((s.files.setChannel o.watcher _).channel o.watcher).batch = _
    rw [channel_setChannel_self]
  · change ((s.files.setChannel o.watcher _).channel k).batch = _
    rw [channel_setChannel_ne _ hk]

theorem accounted_read {k : Watcher} {count : Nat} (hs : Accounted t s₀ s)
    (h : step t md5 codePosition s (.read k count) = some s') :
    Accounted t s₀ s' ∧ Outcome s (.read k count) s' := by
  simp only [step] at h
  split at h
  · rename_i hloop
    obtain ⟨files, hfiles, rfl⟩ := Option.map_eq_some_iff.mp h
    simp only [Watch.step] at hfiles
    split at hfiles
    · rename_i hread
      cases hfiles
      refine ⟨⟨?_, hs.statements, hs.own, ?_⟩, Or.inl ⟨rfl, trivial⟩⟩
      · -- the hands of the thread were empty, and now they hold what was read
        have hempty : s.inHand k = [] := by
          simp [State.inHand, Stage.name?, hloop, hread.1]
        have hothers : ∀ k', k' ≠ k → State.inHand { s with
            files := s.files.setChannel k ⟨(s.files.channel k).queue.drop count,
              dispatched ((s.files.channel k).queue.take count)⟩ } k' = s.inHand k' := by
          intro k' hk
          unfold State.inHand
          change _ ++ ((s.files.setChannel k _).channel k').batch = _
          rw [channel_setChannel_ne _ hk]
        have hbalance := balanced_read hs.balance hempty hothers
        have hnew : State.inHand { s with
            files := s.files.setChannel k ⟨(s.files.channel k).queue.drop count,
              dispatched ((s.files.channel k).queue.take count)⟩ } k =
            dispatched ((s.files.channel k).queue.take count) := by
          simp [State.inHand, Stage.name?, hloop]
        rw [hnew] at hbalance
        rw [channel_setChannel_self]
        exact hbalance
      · exact (setChannel_frame s.files k _).2.1.trans hs.table
    · cases hfiles
  · cases h

/-- A handler returns. -/
theorem accounted_consume {k : Watcher} {name : Text} {o : Option Statement}
    (hs : Accounted t s₀ s) (hname : (s.stage k).name? = some name)
    (hown : Recordable name → ∀ statement, o = some statement →
      ∃ uid, statement = handlerStatement uid name k) :
    Accounted t s₀ (s.consume t k name o) := by
  refine ⟨?_, fun k' n q hq => ?_, fun k' n statement hmem hrec => ?_, ?_⟩
  · apply balanced_finish o hs.balance
    · unfold State.inHand State.consume
      rw [channel_table, hname, stage_setStage_self]
      rfl
    · intro k' hk
      unfold State.inHand State.consume
      rw [channel_table, stage_setStage_ne s hk]
  · by_cases hk : k' = k
    · subst hk
      change (s.setStage k' .atLoop).stage k' = _ ∨ (s.setStage k' .atLoop).stage k' = _ at hq
      rw [stage_setStage_self] at hq
      rcases hq with hq | hq <;> cases hq
    · change (s.setStage k .atLoop).stage k' = _ ∨ (s.setStage k .atLoop).stage k' = _ at hq
      rw [stage_setStage_ne s hk] at hq
      exact hs.statements k' n q hq
  · rcases List.mem_append.mp hmem with hold | hnew
    · exact hs.own k' n statement hold hrec
    · cases List.mem_singleton.mp hnew
      exact hown hrec statement rfl
  · have hexecuted : (s.consume t k name o).executed = s.executed ++ o.toList := by
      unfold State.executed State.consume
      rw [List.filterMap_append]
      cases o <;> rfl
    rw [hexecuted, List.foldl_append, ← hs.table]
    rfl

theorem accounted_fail {k : Watcher} {name : Text} (hs : Accounted t s₀ s)
    (hname : (s.stage k).name? = some name) : Accounted t s₀ (s.fail t k name) := by
  have hconsume : Accounted t s₀ (s.consume t k name none) := by
    apply accounted_consume hs hname
    intro _ statement hnone
    cases hnone
  exact ⟨hconsume.balance, hconsume.statements, hconsume.own, hconsume.table⟩

/-- A thread goes on with the event in its hands. -/
theorem accounted_setStage {k : Watcher} {g : Stage} (hs : Accounted t s₀ s)
    (hname : g.name? = (s.stage k).name?)
    (hstatement : ∀ name TDBquery, g = .atMutex name TDBquery ∨ g = .inExec name TDBquery →
      Recordable name →
        ∃ uid, parseStatement (tokens (cStr TDBquery)) = some (handlerStatement uid name k)) :
    Accounted t s₀ (s.setStage k g) := by
  refine ⟨fun k' name => ?_, fun k' n q hq => ?_, hs.own, hs.table⟩
  · have hbalance := hs.balance k' name
    have hhand : (s.setStage k g).inHand k' = s.inHand k' := by
      unfold State.inHand
      by_cases hk : k' = k
      · subst hk
        rw [stage_setStage_self, hname]
        rfl
      · rw [stage_setStage_ne s hk]
        rfl
    rw [hhand]
    exact hbalance
  · by_cases hk : k' = k
    · subst hk
      rw [stage_setStage_self] at hq
      exact hstatement n q hq
    · rw [stage_setStage_ne s hk] at hq
      exact hs.statements k' n q hq

/-- Of two stages of one thread the later one counts. -/
theorem setStage_setStage (s : State) (k : Watcher) (g g' : Stage) :
    (s.setStage k g).setStage k g' = s.setStage k g' := by
  have hstage : (fun k' => if k' = k then g' else (s.setStage k g).stage k') =
      fun k' => if k' = k then g' else s.stage k' := by
    funext k'
    by_cases hk : k' = k
    · rw [if_pos hk, if_pos hk]
    · rw [if_neg hk, if_neg hk, stage_setStage_ne s hk]
  exact congrArg (fun f => { s with stage := f }) hstage

theorem consume_setStage (s : State) (k : Watcher) (g : Stage) (name : Text)
    (o : Option Statement) : (s.setStage k g).consume t k name o = s.consume t k name o :=
  congrArg (fun u : State => { u with
    files := { s.files with
      db := o.toList.foldl (SongList.apply t) s.files.db
      pending := s.files.pending.erase (k, name) }
    outcomes := s.outcomes ++ [((k, name), o)] }) (setStage_setStage s k g .atLoop)

/-- The record loop hands the next name of its batch to the handler. -/
theorem accounted_take {k : Watcher} {name TDBquery : Text} {rest log : List Text}
    (hs : Accounted t s₀ s) (hloop : s.stage k = .atLoop)
    (hbatch : (s.files.channel k).batch = name :: rest)
    (hstatement : Recordable name →
      ∃ uid, parseStatement (tokens (cStr TDBquery)) = some (handlerStatement uid name k)) :
    Accounted t s₀ (State.setStage { s with
      files := { s.files.setChannel k ⟨(s.files.channel k).queue, rest⟩ with log := log } } k
        (.atMutex name TDBquery)) := by
  have hlog : ∀ k',
      Watch.State.channel { s.files.setChannel k ⟨(s.files.channel k).queue, rest⟩ with
        log := log } k' = (s.files.setChannel k ⟨(s.files.channel k).queue, rest⟩).channel k' := by
    intro k'
    cases k' <;> rfl
  refine ⟨fun k' n => ?_, fun k' n q hq => ?_, hs.own,
    (setChannel_frame s.files k _).2.1.trans hs.table⟩
  · have hbalance := hs.balance k' n
    have hhand : State.inHand (State.setStage { s with
        files := { s.files.setChannel k ⟨(s.files.channel k).queue, rest⟩ with log := log } } k
          (.atMutex name TDBquery)) k' = s.inHand k' := by
      unfold State.inHand
      change _ ++ (Watch.State.channel { s.files.setChannel k _ with log := log } k').batch = _
      rw [hlog]
      by_cases hk : k' = k
      · subst hk
        rw [stage_setStage_self, channel_setChannel_self, hloop, hbatch]
        rfl
      · rw [stage_setStage_ne _ hk, channel_setChannel_ne _ hk]
    rw [hhand]
    exact hbalance
  · by_cases hk : k' = k
    · subst hk
      rw [stage_setStage_self] at hq
      rcases hq with hq | hq
      · cases hq
        exact hstatement
      · cases hq
    · rw [stage_setStage_ne _ hk] at hq
      exact hs.statements k' n q hq

theorem accounted_call {k : Watcher} {src : UuidSources} (hs : Accounted t s₀ s)
    (h : step t md5 codePosition s (.call k src) = some s') :
    Accounted t s₀ s' ∧ Outcome s (.call k src) s' := by
  simp only [step] at h
  split at h
  · rename_i name rest hloop hbatch
    by_cases hmark : journalMark <:+: name
    · rw [handler_journal _ _ _ _ _ hmark] at h
      cases h
      have hrecord : ¬ Recordable name := fun hname => hname.notJournal hmark
      constructor
      · rw [← consume_setStage _ k (.atMutex name [])]
        apply accounted_consume
        · apply accounted_take hs hloop hbatch
          intro hname
          exact absurd hname hrecord
        · rw [stage_setStage_self]
          rfl
        · intro hname
          exact absurd hname hrecord
      · exact Or.inr ⟨(k, name), none, rfl, fun _ => trivial, fun _ hname => absurd hname hrecord⟩
    · rw [handler_statement _ _ _ _ _ hmark] at h
      cases h
      refine ⟨accounted_take hs hloop hbatch fun hname => ?_, Or.inl ⟨rfl, trivial⟩⟩
      exact ⟨_, parseStatement_handlerQuery hname (plain_getDefaultUUID md5 src) k⟩
  · cases h

theorem accounted_enter {k : Watcher} (hs : Accounted t s₀ s)
    (h : step t md5 codePosition s (.enter k) = some s') :
    Accounted t s₀ s' ∧ Outcome s (.enter k) s' := by
  simp only [step] at h
  split at h
  · rename_i name TDBquery hstage
    have hname : (s.stage k).name? = some name := by
      rw [hstage]
      rfl
    split at h
    · split at h
      · -- the write lock is free
        rename_i hfree
        cases h
        have hset : Accounted t s₀ (s.setStage k (.inExec name TDBquery)) := by
          apply accounted_setStage hs
          · exact hname.symm
          · intro n q hq
            rcases hq with hq | hq
            · cases hq
            · cases hq
              exact hs.statements k name TDBquery (Or.inl hstage)
        refine ⟨accounted_of_frame hset rfl rfl rfl rfl fun _ => rfl, Or.inl ⟨rfl, ?_⟩⟩
        intro _ _ _
        exact hfree
      · rename_i w hwriter
        cases h
        refine ⟨accounted_fail hs hname, Or.inr ⟨(k, name), none, rfl, ?_⟩⟩
        simp only [Uncontended, hname, Option.mem_some_iff, forall_eq', hwriter, Option.isSome_none,
          Bool.false_eq_true, reduceCtorEq]
    · cases h
  · cases h

theorem accounted_commit {k : Watcher} (hs : Accounted t s₀ s)
    (h : step t md5 codePosition s (.commit k) = some s') :
    Accounted t s₀ s' ∧ Outcome s (.commit k) s' := by
  simp only [step] at h
  split at h
  · rename_i name TDBquery hstage
    have hname : (s.stage k).name? = some name := by
      rw [hstage]
      rfl
    have hfree : Accounted t s₀ { s with writer := none } :=
      accounted_of_frame hs rfl rfl rfl rfl fun _ => rfl
    split at h
    · rename_i statement hparse
      cases h
      refine ⟨accounted_consume hfree hname fun hrec st hst => ?_,
        Or.inr ⟨(k, name), some statement, rfl, fun _ => trivial, fun _ _ => rfl⟩⟩
      cases hst
      obtain ⟨uid, huid⟩ := hs.statements k name TDBquery (Or.inr hstage) hrec
      rw [hparse] at huid
      exact ⟨uid, Option.some.inj huid⟩
    · rename_i hparse
      cases h
      have hrecord : ¬ Recordable name := by
        intro hrec
        obtain ⟨uid, huid⟩ := hs.statements k name TDBquery (Or.inr hstage) hrec
        rw [hparse] at huid
        cases huid
      exact ⟨accounted_fail hfree hname,
        Or.inr ⟨(k, name), none, rfl, fun _ => trivial, fun _ hrec => absurd hrec hrecord⟩⟩
  · cases h

theorem accounted_step {l : Label} (hs : Accounted t s₀ s)
    (h : step t md5 codePosition s l = some s') : Accounted t s₀ s' ∧ Outcome s l s' := by
  cases l with
  | op o => exact accounted_op hs h
  | read k count => exact accounted_read hs h
  | call k src => exact accounted_call hs h
  | enter k => exact accounted_enter hs h
  | commit k => exact accounted_commit hs h
  | httpBegin =>
    simp only [step] at h
    split at h
    · cases h
      exact ⟨accounted_of_frame hs rfl rfl rfl rfl fun _ => rfl, Or.inl ⟨rfl, trivial⟩⟩
    · cases h
      exact ⟨hs, Or.inl ⟨rfl, trivial⟩⟩
  | httpCommit =>
    simp only [step] at h
    split at h
    · cases h
      exact ⟨accounted_of_frame hs rfl rfl rfl rfl fun _ => rfl, Or.inl ⟨rfl, trivial⟩⟩
    · cases h

/-- All events are applied after a step if they were before it and the step was not contended. -/
theorem allApplied_step {l : Label} (h : Outcome s l s') :
    s'.AllApplied ↔ s.AllApplied ∧ Uncontended s l := by
  unfold State.AllApplied
  rcases h with ⟨houtcomes, hfree⟩ | ⟨e, o, houtcomes, hfree⟩
  · rw [houtcomes]
    constructor
    · intro hall
      exact ⟨hall, hfree⟩
    · intro hall
      exact hall.1
  · rw [houtcomes, ← hfree]
    constructor
    · intro hall
      constructor
      · intro p hp
        exact hall p (List.mem_append_left _ hp)
      · intro hrec
        exact hall (e, o) (List.mem_append_right _ (List.mem_singleton_self _)) hrec
    · rintro ⟨hold, hnew⟩ p hp
      rcases List.mem_append.mp hp with hmem | hmem
      · exact hold p hmem
      · rw [List.mem_singleton.mp hmem]
        exact hnew

end Steps

theorem accounted_init (t : TDB_type) {s : State} (hs : s.IsInit) : Accounted t s s := by
  refine ⟨fun k name => ?_, fun k name q hq => ?_, fun k name statement hmem => ?_, ?_⟩
  · have hhand : s.inHand k = [] := by
      simp [State.inHand, Stage.name?, hs.stages k, hs.batches k]
    rw [hs.read, hs.outcomes, hhand]
    rfl
  · rw [hs.stages k] at hq
    rcases hq with hq | hq <;> cases hq
  · rw [hs.outcomes] at hmem
    cases hmem
  · unfold State.executed
    rw [hs.outcomes]
    rfl

/-- When nothing is on its way, nothing is lost exactly when no handled event has failed. -/
theorem noneLost_iff_allApplied {t : TDB_type} {s₀ s : State} (hs : Accounted t s₀ s)
    (hidle : s.Idle) : NoneLost t s₀ s ↔ s.AllApplied := by
  have hread : ∀ e : Watcher × Text, s.read.count e = (s.outcomes.map Prod.fst).count e := by
    rintro ⟨k, name⟩
    have hhand : s.inHand k = [] := by
      simp [State.inHand, Stage.name?, hidle.stages k, (hidle.quiet k).2]
    rw [hs.balance k name, hhand, List.count_nil, Nat.add_zero]
  constructor
  · intro h o ho hrec
    have hcount := h.all o.1 hrec
    rw [hread o.1] at hcount
    exact (count_applied_iff s.outcomes o.1).mp hcount o ho rfl
  · intro h
    refine ⟨hs.table, hs.own, fun e hrec => ?_⟩
    rw [hread e]
    apply (count_applied_iff s.outcomes e).mpr
    rintro o ho rfl
    exact h o ho hrec

/-- In a run that ends with both daemons idle and the queues empty, every event that was read is
applied to the table if and only if no statement for a recordable name was attempted while the HTTP
daemon was writing. -/
theorem none_lost_iff (t : TDB_type) (md5 : MD5) (codePosition : Text) {s s' : State}
    {ls : List Label} (hs : s.IsInit) (h : Run (step t md5 codePosition) Always s ls s')
    (hidle : s'.Idle) : NoneLost t s s' ↔ Run (step t md5 codePosition) Uncontended s ls s' := by
  have hinv : ∀ u l v, Accounted t s u → step t md5 codePosition u l = some v →
      Accounted t s v := fun _ _ _ hu hst => (accounted_step hu hst).1
  have haccounted := h.invariant (fun u l v hu _ hst => hinv u l v hu hst) (accounted_init t hs)
  rw [noneLost_iff_allApplied haccounted hidle]
  apply h.guarded_iff hinv _ (accounted_init t hs)
  · intro o ho
    rw [hs.outcomes] at ho
    cases ho
  · intro u l v hu hst
    exact allApplied_step (accounted_step hu hst).2

/-! ## Concrete runs -/

instance : DecidableRel Uncontended
  | s, .enter k =>
      inferInstanceAs
        (Decidable (∀ name ∈ (s.stage k).name?, Recordable name → s.writer = none))
  | _, .op _ | _, .read _ _ | _, .call _ _ | _, .commit _ | _, .httpBegin | _, .httpCommit =>
      isTrue trivial

instance (s : State) : Decidable s.Idle :=
  decidable_of_iff (s.files.Quiet ∧
      (s.stage .m_inotyInDelete = .atLoop ∧ s.stage .m_inotyInAdd = .atLoop) ∧ s.writer = none)
    ⟨fun h => ⟨h.1, fun k => by cases k; exacts [h.2.1.1, h.2.1.2], h.2.2⟩,
      fun h => ⟨h.quiet, ⟨h.stages _, h.stages _⟩, h.writer⟩⟩

/-- Both daemons wait, and the table is empty. -/
def quietState : State := ⟨emptyState, fun _ => .atLoop, none, [], [], []⟩

theorem isInit_quietState : quietState.IsInit :=
  ⟨fun k => by cases k <;> rfl, fun _ => rfl, rfl, rfl, rfl⟩

/-- The HTTP daemon logs a request while the thread waits for the mutex. -/
def apartRun : List Label :=
  [.op (.create songA), .read .m_inotyInAdd 1, .httpBegin,
    .call .m_inotyInAdd (repeatedSources 'a'), .httpCommit, .enter .m_inotyInAdd,
    .commit .m_inotyInAdd]

/-- The INSERT of the song starts while the HTTP daemon is writing. -/
def busyRun : List Label :=
  [.op (.create songA), .read .m_inotyInAdd 1, .httpBegin,
    .call .m_inotyInAdd (repeatedSources 'a'), .enter .m_inotyInAdd, .httpCommit]

theorem none_lost_iff_apartRun :
    ∃ s, exec (step .SQLITE headDigest []) Uncontended quietState apartRun = some s ∧ s.Idle ∧
      NoneLost .SQLITE quietState s := by
  have hexec : ((exec (step .SQLITE headDigest []) Uncontended quietState apartRun).map fun s =>
      decide s.Idle) = some true := by
    decide +kernel
  obtain ⟨s, hs, hidle⟩ := exec_decide_sound hexec
  have hguarded := run_of_exec hs
  have hrun : Run (step .SQLITE headDigest []) Always quietState apartRun s := hguarded.always
  exact ⟨s, hs, hidle,
    (none_lost_iff .SQLITE headDigest [] isInit_quietState hrun hidle).mpr hguarded⟩

/-- An event whose statement meets the write lock of the other daemon is lost. -/
theorem not_none_lost_busyRun :
    ¬ ∀ (t : TDB_type) (md5 : MD5) (codePosition : Text) (s s' : State) (ls : List Label),
      s.IsInit → Run (step t md5 codePosition) Always s ls s' → s'.Idle → NoneLost t s s' := by
  intro hall
  have hexec : ((exec (step .SQLITE headDigest []) Always quietState busyRun).map fun s =>
      decide (s.Idle ∧ s.applied.count (.m_inotyInAdd, songA.text) = 0 ∧
        s.read.count (.m_inotyInAdd, songA.text) = 1)) = some true := by
    decide +kernel
  obtain ⟨s, hs, hidle, happlied, hread⟩ := exec_decide_sound hexec
  have hlost := hall _ _ _ _ s _ isInit_quietState (run_of_exec hs) hidle
  have hcount := hlost.all (.m_inotyInAdd, songA.text) (by decide)
  rw [happlied, hread] at hcount
  cases hcount

end PetProject.Watch.Contention
