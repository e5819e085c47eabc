import PetProject.Foundation.Handles
import PetProject.Foundation.Transition
import PetProject.Workers.Model

/-!
# The handles of the SQLite worker

`SQLiteWorker` with the connections, statements and error messages that it obtains from SQLite. A
call carries what SQLite answers: `sqlite3_open` may hand out a connection also when it fails,
`sqlite3_prepare_v2` a statement and, after a step, the text of its first column, and
`sqlite3_exec` an error message. The texts of the queries and what is made of the answers are in
`Workers.Model`; the functions here return the same (`getSongsListAsJson_fst`,
`getFilenameByUID_fst`).

A call opens a connection through the constructor of `SQLiteConnectionWrapper`, whose destructor
closes it. When the constructor throws there is no object to destroy, and a connection that
`sqlite3_open` has handed out stays open. The pointer to an error message is overwritten by the next
`sqlite3_exec`. The worker holds nothing between its calls exactly when no call of the run does harm
in the state it finds (`Harmless`, `holds_nothing_iff`).
-/

set_option autoImplicit false

namespace PetProject.Workers.SQLiteHandles

open PetProject.Foundation.TextSearch PetProject.Foundation.Transition
open PetProject.Foundation.Handles

/-! ## SQLite -/

/-- The answer of `sqlite3_open`; an error with a connection or with a null pointer. -/
inductive OpenResult where
  | SQLITE_OK
  | error (connection : Bool)
  deriving DecidableEq

/-- The answer of `sqlite3_exec`; an error with a message or, without memory for it, with a null
pointer. -/
inductive ExecResult where
  | SQLITE_OK
  | error (message : Bool)
  deriving DecidableEq

/-- The worker, and the connections, statements and messages of SQLite. -/
structure State where
  /-- `m_connParams.at`; the map does not change. -/
  m_connParams : Text → Option Text
  m_db : Option Nat
  m_zErrMsg : Option Nat
  m_reqResult : Option Nat
  connections : Record
  statements : Record
  messages : Record
  /-- The connection of every statement. -/
  owners : List Nat
  /-- The connections of the calls of `sqlite3_close` that found a statement of theirs. -/
  busy : List Nat
  /-- No call has ended without a return value. -/
  returned : Bool

/-- `sqlite3_open(.., &m_db)`; whether it is `SQLITE_OK`. -/
def sqlite3_open (opened : OpenResult) (s : State) : Bool × State :=
  let connected :=
    { s with m_db := some s.connections.obtained, connections := s.connections.obtain }
  match opened with
  | .SQLITE_OK => (true, connected)
  | .error true => (false, connected)
  | .error false => (false, { s with m_db := none })

/-- `sqlite3_close(db)`: a connection with statements stays open. -/
def sqlite3_close (db : Nat) (s : State) : State :=
  if s.statements.outstanding.any fun n => s.owners[n]? = some db then
    { s with busy := s.busy ++ [db] }
  else { s with connections := s.connections.release db }

/-- `sqlite3_prepare_v2(m_db, .., &m_reqResult, 0)`, which succeeds or not. -/
def sqlite3_prepare_v2 (prepared : Bool) (s : State) : State :=
  match s.m_db, prepared with
  | some db, true =>
      { s with
        m_reqResult := some s.statements.obtained
        statements := s.statements.obtain
        owners := s.owners ++ [db] }
  | _, _ => { s with m_reqResult := none }

/-- The pointer that `sqlite3_exec` stores, and the messages after it. -/
def errorMessage (executed : ExecResult) (messages : Record) : Option Nat × Record :=
  match executed with
  | .error true => (some messages.obtained, messages.obtain)
  | _ => (none, messages)

/-- `sqlite3_exec(m_db, .., &m_zErrMsg)`. -/
def sqlite3_exec (executed : ExecResult) (s : State) : State :=
  let message := errorMessage executed s.messages
  { s with m_zErrMsg := message.1, messages := message.2 }

/-! ## The worker -/

/-- `openConnection`; `false` when it throws. -/
def openConnection (opened : OpenResult) (s : State) : Bool × State :=
  match s.m_connParams "dbname".toList with
  | some _ => sqlite3_open opened s
  | none => (false, s)

def closeConnection (s : State) : State :=
  let finalized :=
    match s.m_reqResult with
    | some stmt => { s with statements := s.statements.release stmt }
    | none => s
  let closed :=
    match finalized.m_db with
    | some db => sqlite3_close db finalized
    | none => finalized
  { closed with m_reqResult := none, m_db := none }

/-- `getSongsListAsJson`; no value when it ends without a return value. `answer` is the text of the
column behind a statement, `none` when the statement is not prepared. -/
def getSongsListAsJson (opened : OpenResult) (answer : Option (Option Text)) (s : State) :
    Option Text × State :=
  -- the constructor of the wrapper; when it throws, the destructor does not run
  let wrapped := openConnection opened s
  if wrapped.1 then
    let prepared := sqlite3_prepare_v2 answer.isSome wrapped.2
    match answer with
    | some text =>
        match makeString text with
        | .ok jsonFromDB =>
            (some (if jsonFromDB = "[]".toList then jsonFromDB
              else "\x7b\"songs\":".toList ++ (jsonFromDB ++ "\x7d".toList)),
              closeConnection prepared)
        | .error _ => (some errorTDBResponce, closeConnection prepared)
    | none => (none, closeConnection prepared)
  else (some errorTDBResponce, wrapped.2)

def execQuery (opened : OpenResult) (executed : ExecResult) (s : State) : Bool × State :=
  let wrapped := openConnection opened s
  if wrapped.1 then
    (executed = .SQLITE_OK, closeConnection (sqlite3_exec executed wrapped.2))
  else (false, wrapped.2)

def getFilenameByUID (opened : OpenResult) (answer : Option (Option Text)) (s : State) :
    Text × State :=
  let wrapped := openConnection opened s
  if wrapped.1 then
    -- without a statement the text of the column is a null pointer
    (orEmpty (makeString answer.join),
      closeConnection (sqlite3_prepare_v2 answer.isSome wrapped.2))
  else ([], wrapped.2)

/-- `~SQLiteWorker`. -/
def destroy (s : State) : State :=
  match s.m_zErrMsg with
  | some msg => { s with messages := s.messages.release msg }
  | none => s

/-! ## Runs -/

/-- A call of the worker, with the answers of SQLite. -/
inductive Call where
  | getSongsListAsJson (opened : OpenResult) (answer : Option (Option Text))
  | execQuery (opened : OpenResult) (executed : ExecResult)
  | getFilenameByUID (opened : OpenResult) (answer : Option (Option Text))

def step (s : State) : Call → Option State
  | .getSongsListAsJson opened answer =>
      let res := getSongsListAsJson opened answer s
      -- a function that ends without a return value has no defined behaviour
      some { res.2 with returned := res.2.returned && res.1.isSome }
  | .execQuery opened executed => some (execQuery opened executed s).2
  | .getFilenameByUID opened answer => some (getFilenameByUID opened answer s).2

/-- The worker after its constructor. -/
def start (m_connParams : Text → Option Text) : State :=
  ⟨m_connParams, none, none, none, .fresh, .fresh, .fresh, [], [], true⟩

/-- Between its calls the worker holds no connection and no statement: every connection was closed
exactly once, after its statement was finalised, and every statement was finalised exactly once. -/
structure HoldsNothing (s : State) : Prop where
  m_db : s.m_db = none
  m_reqResult : s.m_reqResult = none
  closed : s.connections.Settled
  after : s.busy = []
  finalised : s.statements.Settled
  returned : s.returned = true

/-- At the end of the life of the worker every message was freed exactly once. -/
def MessagesFreed (s : State) : Prop := (destroy s).messages.Settled

/-- The parameters have the path of the database. -/
def State.hasPath (s : State) : Prop := (s.m_connParams "dbname".toList).isSome = true

instance (s : State) : Decidable s.hasPath := inferInstanceAs (Decidable (_ = true))

/-- A call does no harm: an open that fails hands out no connection, and behind one that succeeds
the list of songs is prepared and no message is overwritten. -/
def Harmless (s : State) (c : Call) : Prop :=
  s.hasPath →
    match c with
    | .getSongsListAsJson opened answer =>
        opened = .error false ∨ opened = .SQLITE_OK ∧ answer.isSome = true
    | .execQuery opened _ => opened = .error false ∨ opened = .SQLITE_OK ∧ s.m_zErrMsg = none
    | .getFilenameByUID opened _ => opened = .error false ∨ opened = .SQLITE_OK ∧ True

instance : DecidableRel Harmless := fun s c =>
  match c with
  | .getSongsListAsJson opened answer => inferInstanceAs (Decidable
      (s.hasPath → opened = .error false ∨ opened = .SQLITE_OK ∧ answer.isSome = true))
  | .execQuery opened _ => inferInstanceAs (Decidable
      (s.hasPath → opened = .error false ∨ opened = .SQLITE_OK ∧ s.m_zErrMsg = none))
  | .getFilenameByUID opened _ => inferInstanceAs (Decidable
      (s.hasPath → opened = .error false ∨ opened = .SQLITE_OK ∧ True))

/-! ## What a call returns -/

/-- The answer to a query as `Workers.Model` has it. -/
def queryResult (opened : OpenResult) (answer : Option (Option Text)) (s : State) : QueryResult :=
  if (openConnection opened s).1 then
    match answer with
    | some text => .rows text.toList
    | none => .queryError
  else .connectionFailure

theorem getSongsListAsJson_fst (opened : OpenResult) (answer : Option (Option Text)) (s : State) :
    (getSongsListAsJson opened answer s).1 =
      SQLiteWorker.getSongsListAsJson fun _ => queryResult opened answer s := by
  unfold getSongsListAsJson SQLiteWorker.getSongsListAsJson queryResult
  by_cases hopen : (openConnection opened s).1 = true
  · simp only [hopen, if_true]
    cases answer with
    | none => rfl
    | some text => cases text <;> rfl
  · simp only [hopen, Bool.false_eq_true, if_false]

theorem getFilenameByUID_fst (opened : OpenResult) (answer : Option (Option Text)) (s : State)
    (songUID : Text) :
    (getFilenameByUID opened answer s).1 =
      SQLiteWorker.getFilenameByUID (fun _ => queryResult opened answer s) songUID := by
  unfold getFilenameByUID SQLiteWorker.getFilenameByUID queryResult
  by_cases hopen : (openConnection opened s).1 = true
  · simp only [hopen, if_true]
    cases answer with
    | none => rfl
    | some text => cases text <;> rfl
  · simp only [hopen, Bool.false_eq_true, if_false]

/-! ## What a call does -/

/-- What holds between the calls, also when harm was done: a connection that `m_db` points to was
never closed, nor was a message freed, and no statement is left. -/
structure Inv (s : State) : Prop where
  connections : s.connections.Sound
  statements : s.statements.Sound
  messages : s.messages.Sound
  finalised : s.statements.outstanding = []
  m_reqResult : s.m_reqResult = none
  after : s.busy = []
  db : ∀ n, s.m_db = some n → n ∈ s.connections.outstanding
  msg : ∀ n, s.m_zErrMsg = some n → n ∈ s.messages.outstanding

/-- No harm was done so far. -/
structure Kept (s : State) : Prop where
  closed : s.connections.outstanding = []
  messages : s.messages.HeldBy s.m_zErrMsg
  returned : s.returned = true

/-- The state in which a connection was handed out. -/
def connected (s : State) : State :=
  { s with m_db := some s.connections.obtained, connections := s.connections.obtain }

section Calls

variable {s : State}

theorem openConnection_cases (opened : OpenResult) (s : State) :
    (¬ s.hasPath ∧ openConnection opened s = (false, s)) ∨
    (s.hasPath ∧ opened = .SQLITE_OK ∧ openConnection opened s = (true, connected s)) ∨
    (s.hasPath ∧ opened = .error true ∧ openConnection opened s = (false, connected s)) ∨
    (s.hasPath ∧ opened = .error false ∧
      openConnection opened s = (false, { s with m_db := none })) := by
  unfold openConnection State.hasPath
  cases s.m_connParams "dbname".toList with
  | none => exact Or.inl ⟨by simp, rfl⟩
  | some path =>
    cases opened with
    | SQLITE_OK => exact Or.inr (Or.inl ⟨rfl, rfl, rfl⟩)
    | error connection =>
      cases connection with
      | true => exact Or.inr (Or.inr (Or.inl ⟨rfl, rfl, rfl⟩))
      | false => exact Or.inr (Or.inr (Or.inr ⟨rfl, rfl, rfl⟩))

/-- The statements when `closeConnection` has finalised its own. -/
def finalised (s : State) : Record :=
  match s.m_reqResult with
  | some stmt => s.statements.release stmt
  | none => s.statements

/-- With no other statement left the connection is closed. -/
theorem closeConnection_eq {db : Nat} (hdb : s.m_db = some db)
    (hnone : (finalised s).outstanding = []) :
    closeConnection s =
      { s with
        m_db := none
        m_reqResult := none
        connections := s.connections.release db
        statements := finalised s } := by
  unfold finalised at *
  cases hreq : s.m_reqResult with
  | none =>
    rw [hreq] at hnone
    simp only at hnone
    simp [closeConnection, sqlite3_close, hreq, hdb, hnone]
  | some stmt =>
    rw [hreq] at hnone
    simp only at hnone
    simp [closeConnection, sqlite3_close, hreq, hdb, hnone]

/-- A statement is prepared on the new connection and both are given back. -/
theorem prepared_eq (hs : Inv s) (prepared : Bool) :
    ∃ (statements : Record) (owners : List Nat), statements.Sound ∧ statements.outstanding = [] ∧
      closeConnection (sqlite3_prepare_v2 prepared (connected s)) =
        { s with
          m_db := none
          m_reqResult := none
          connections := s.connections.obtain.release s.connections.obtained
          statements := statements
          owners := owners } := by
  cases prepared with
  | false => exact ⟨s.statements, s.owners, hs.statements, hs.finalised,
      closeConnection_eq rfl hs.finalised⟩
  | true =>
    have hnone : (s.statements.obtain.release s.statements.obtained).outstanding = [] := by
      rw [Record.outstanding_obtain_release]
      exact hs.finalised
    exact ⟨_, _, hs.statements.obtain_release, hnone, closeConnection_eq rfl hnone⟩

/-- A text is executed on the new connection, which is given back. -/
theorem executed_eq (hs : Inv s) (executed : ExecResult) :
    closeConnection (sqlite3_exec executed (connected s)) =
      { sqlite3_exec executed s with
        m_db := none
        m_reqResult := none
        connections := s.connections.obtain.release s.connections.obtained } := by
  have hfin : finalised (sqlite3_exec executed (connected s)) = s.statements := by
    unfold finalised
    have hreq : (sqlite3_exec executed (connected s)).m_reqResult = none := hs.m_reqResult
    rw [hreq]
    rfl
  rw [closeConnection_eq rfl (by rw [hfin]; exact hs.finalised), hfin]
  rfl

/-! ## Ways through a call -/

theorem inv_connected (hs : Inv s) : Inv (connected s) where
  connections := hs.connections.obtain
  statements := hs.statements
  messages := hs.messages
  finalised := hs.finalised
  m_reqResult := hs.m_reqResult
  after := hs.after
  db n hn := by
    cases hn
    exact Record.obtained_mem hs.connections
  msg := hs.msg

/-- A connection that a failed open hands out is not closed. -/
theorem not_kept_connected (hs : Inv s) : ¬ Kept (connected s) := by
  intro hk
  have hclosed := hk.closed
  unfold connected at hclosed
  rw [Record.outstanding_obtain hs.connections] at hclosed
  simp at hclosed

/-- The connection of the call was closed; `t` has the statements and messages that are left. -/
theorem inv_given_back {t : State} (hs : Inv s) (hdb : t.m_db = none) (hreq : t.m_reqResult = none)
    (hconn : t.connections = s.connections ∨
      t.connections = s.connections.obtain.release s.connections.obtained)
    (hstmts : t.statements.Sound ∧ t.statements.outstanding = []) (hbusy : t.busy = s.busy)
    (hmsgs : t.messages.Sound ∧ ∀ n, t.m_zErrMsg = some n → n ∈ t.messages.outstanding) :
    Inv t where
  connections := by
    rcases hconn with heq | heq
    · rw [heq]
      exact hs.connections
    · rw [heq]
      exact hs.connections.obtain_release
  statements := hstmts.1
  messages := hmsgs.1
  finalised := hstmts.2
  m_reqResult := hreq
  after := hbusy.trans hs.after
  db n hn := by
    rw [hdb] at hn
    cases hn
  msg := hmsgs.2

theorem errorMessage_spec (hs : Inv s) (executed : ExecResult) :
    (errorMessage executed s.messages).2.Sound ∧
      (∀ n, (errorMessage executed s.messages).1 = some n →
        n ∈ (errorMessage executed s.messages).2.outstanding) ∧
      ((errorMessage executed s.messages).2.HeldBy (errorMessage executed s.messages).1 ↔
        s.messages.HeldBy s.m_zErrMsg ∧ s.m_zErrMsg = none) := by
  -- what was held before is forgotten
  have hforgotten : s.messages.outstanding = [] ↔
      s.messages.HeldBy s.m_zErrMsg ∧ s.m_zErrMsg = none := by
    constructor
    · intro hnil
      refine ⟨Record.heldBy_of_nil hnil _, ?_⟩
      cases hmsg : s.m_zErrMsg with
      | none => rfl
      | some n =>
        have hmem := hs.msg n hmsg
        rw [hnil] at hmem
        cases hmem
    · rintro ⟨hheld, hmsg⟩
      rw [hmsg] at hheld
      exact Record.heldBy_none_iff.mp hheld
  have hnone : s.messages.Sound ∧ (∀ n, none = some n → n ∈ s.messages.outstanding) ∧
      (s.messages.HeldBy none ↔ s.messages.HeldBy s.m_zErrMsg ∧ s.m_zErrMsg = none) :=
    ⟨hs.messages, fun n hn => (by cases hn), Record.heldBy_none_iff.trans hforgotten⟩
  cases executed with
  | SQLITE_OK => exact hnone
  | error message =>
    cases message with
    | false => exact hnone
    | true =>
      refine ⟨hs.messages.obtain, ?_, (Record.heldBy_obtain_iff hs.messages).trans hforgotten⟩
      rintro n ⟨⟩
      exact Record.obtained_mem hs.messages

/-- After a call that gave its connection back no harm was done exactly if none was done before, the
messages are held, and the call has returned. -/
theorem kept_given_back_iff {t : State}
    (hconn : t.connections = s.connections ∨
      t.connections = s.connections.obtain.release s.connections.obtained) :
    Kept t ↔
      s.connections.outstanding = [] ∧ t.messages.HeldBy t.m_zErrMsg ∧ t.returned = true := by
  have hsame : t.connections.outstanding = s.connections.outstanding := by
    rcases hconn with heq | heq
    · rw [heq]
    · rw [heq, Record.outstanding_obtain_release]
  constructor
  · intro hk
    exact ⟨hsame ▸ hk.closed, hk.messages, hk.returned⟩
  · rintro ⟨hclosed, hmsgs, hreturned⟩
    exact ⟨hsame.trans hclosed, hmsgs, hreturned⟩

theorem kept_iff (s : State) :
    Kept s ↔ s.connections.outstanding = [] ∧ s.messages.HeldBy s.m_zErrMsg ∧ s.returned = true :=
  kept_given_back_iff (Or.inl rfl)

end Calls

/-! ## Steps -/

section Steps

variable {s t : State} {c : Call}

/-- What a failed open leaves, which is the state after the call. -/
theorem failed_open (hs : Inv s) {opened : OpenResult}
    (hfail : (openConnection opened s).1 = false) (X : Prop) :
    Inv (openConnection opened s).2 ∧
      (Kept (openConnection opened s).2 ↔
        Kept s ∧ (s.hasPath → opened = .error false ∨ opened = .SQLITE_OK ∧ X)) := by
  rcases openConnection_cases opened s with
    ⟨hpath, heq⟩ | ⟨hpath, rfl, heq⟩ | ⟨hpath, rfl, heq⟩ | ⟨hpath, rfl, heq⟩
  · rw [heq]
    simp [hs, hpath]
  · rw [heq] at hfail
    cases hfail
  · rw [heq]
    simp [inv_connected hs, not_kept_connected hs, hpath]
  · rw [heq]
    -- the open without a connection leaves nothing behind
    refine ⟨inv_given_back hs rfl hs.m_reqResult (Or.inl rfl) ⟨hs.statements, hs.finalised⟩ rfl
      ⟨hs.messages, hs.msg⟩, ?_⟩
    have hkept := kept_given_back_iff (s := s) (t := { s with m_db := none }) (Or.inl rfl)
    refine hkept.trans ?_
    rw [kept_iff s]
    simp

theorem opened_open {opened : OpenResult} (hopen : (openConnection opened s).1 = true) (X : Prop) :
    (openConnection opened s).2 = connected s ∧
      ((s.hasPath → opened = .error false ∨ opened = .SQLITE_OK ∧ X) ↔ X) := by
  rcases openConnection_cases opened s with
    ⟨hpath, heq⟩ | ⟨hpath, rfl, heq⟩ | ⟨hpath, rfl, heq⟩ | ⟨hpath, rfl, heq⟩
  · rw [heq] at hopen
    cases hopen
  · rw [heq]
    simp [hpath]
  · rw [heq] at hopen
    cases hopen
  · rw [heq] at hopen
    cases hopen

/-- A call that prepares a statement gives everything back; only its return value can be missing. -/
theorem prepared_spec (hs : Inv s) (prepared returned : Bool) (t : State)
    (ht : t = closeConnection (sqlite3_prepare_v2 prepared (connected s))) :
    Inv { t with returned := t.returned && returned } ∧
      (Kept { t with returned := t.returned && returned } ↔ Kept s ∧ returned = true) := by
  obtain ⟨statements, owners, hsound, hnone, heq⟩ := prepared_eq hs prepared
  rw [ht, heq]
  refine ⟨inv_given_back hs rfl rfl (Or.inr rfl) ⟨hsound, hnone⟩ rfl ⟨hs.messages, hs.msg⟩, ?_⟩
  refine (kept_given_back_iff (s := s) (Or.inr rfl)).trans ?_
  rw [kept_iff s]
  simp only [Bool.and_eq_true, and_assoc]

theorem executed_spec (hs : Inv s) (executed : ExecResult) :
    Inv (closeConnection (sqlite3_exec executed (connected s))) ∧
      (Kept (closeConnection (sqlite3_exec executed (connected s))) ↔
        Kept s ∧ s.m_zErrMsg = none) := by
  obtain ⟨hsound, hmem, hheld⟩ := errorMessage_spec hs executed
  rw [executed_eq hs executed]
  refine ⟨inv_given_back hs rfl rfl (Or.inr rfl) ⟨hs.statements, hs.finalised⟩ rfl
    ⟨hsound, hmem⟩, ?_⟩
  refine (kept_given_back_iff (s := s) (Or.inr rfl)).trans ?_
  rw [kept_iff s]
  simp only [sqlite3_exec, hheld]
  tauto

/-- The three calls behind an open that succeeds. -/
theorem calls_open {opened : OpenResult} (hopen : (openConnection opened s).1 = true)
    (answer : Option (Option Text)) (executed : ExecResult) :
    (getSongsListAsJson opened answer s).1.isSome = answer.isSome ∧
      (getSongsListAsJson opened answer s).2 =
        closeConnection (sqlite3_prepare_v2 answer.isSome (openConnection opened s).2) ∧
      (execQuery opened executed s).2 =
        closeConnection (sqlite3_exec executed (openConnection opened s).2) ∧
      (getFilenameByUID opened answer s).2 =
        closeConnection (sqlite3_prepare_v2 answer.isSome (openConnection opened s).2) := by
  unfold getSongsListAsJson execQuery getFilenameByUID
  simp only [hopen, if_true, and_true]
  cases answer with
  | none => exact ⟨rfl, rfl⟩
  | some text => cases text <;> exact ⟨rfl, rfl⟩

/-- The three calls behind an open that fails. -/
theorem calls_failed {opened : OpenResult} (hfail : (openConnection opened s).1 = false)
    (answer : Option (Option Text)) (executed : ExecResult) :
    getSongsListAsJson opened answer s = (some errorTDBResponce, (openConnection opened s).2) ∧
      execQuery opened executed s = (false, (openConnection opened s).2) ∧
      getFilenameByUID opened answer s = ([], (openConnection opened s).2) := by
  unfold getSongsListAsJson execQuery getFilenameByUID
  simp only [hfail, Bool.false_eq_true, if_false, and_self]

/-- A call keeps what holds in every case, and no harm was done after it exactly if none was done
before and it does none. -/
theorem step_spec (hs : Inv s) (h : step s c = some t) :
    Inv t ∧ (Kept t ↔ Kept s ∧ Harmless s c) := by
  unfold Harmless
  cases c with
  | getSongsListAsJson opened answer =>
    cases h
    cases hopen : (openConnection opened s).1 with
    | false =>
      obtain ⟨hlist, -, -⟩ := calls_failed hopen answer .SQLITE_OK
      simp only [hlist, Option.isSome_some, Bool.and_true]
      exact failed_open hs hopen _
    | true =>
      obtain ⟨hvalue, hstate, -, -⟩ := calls_open hopen answer .SQLITE_OK
      obtain ⟨heq, hiff⟩ := opened_open hopen (answer.isSome = true)
      rw [heq] at hstate
      simp only [hvalue]
      rw [hiff]
      exact prepared_spec hs answer.isSome answer.isSome _ hstate
  | execQuery opened executed =>
    cases h
    cases hopen : (openConnection opened s).1 with
    | false =>
      obtain ⟨-, hexec, -⟩ := calls_failed hopen none executed
      rw [hexec]
      exact failed_open hs hopen _
    | true =>
      obtain ⟨-, -, hstate, -⟩ := calls_open hopen none executed
      obtain ⟨heq, hiff⟩ := opened_open hopen (s.m_zErrMsg = none)
      rw [hstate, heq]
      simp only
      rw [hiff]
      exact executed_spec hs executed
  | getFilenameByUID opened answer =>
    cases h
    cases hopen : (openConnection opened s).1 with
    | false =>
      obtain ⟨-, -, hname⟩ := calls_failed hopen answer .SQLITE_OK
      rw [hname]
      exact failed_open hs hopen _
    | true =>
      obtain ⟨-, -, -, hstate⟩ := calls_open hopen answer .SQLITE_OK
      obtain ⟨heq, hiff⟩ := opened_open hopen True
      rw [heq] at hstate
      have hspec := prepared_spec hs answer.isSome true _ hstate
      rw [Bool.and_true] at hspec
      simp only
      rw [hiff]
      simpa using hspec

/-- What is seen between the calls. -/
theorem holdsNothing_iff (hs : Inv s) :
    HoldsNothing s ↔ s.connections.outstanding = [] ∧ s.returned = true := by
  constructor
  · intro h
    exact ⟨(Record.settled_iff hs.connections).mp h.closed, h.returned⟩
  · rintro ⟨hclosed, hreturned⟩
    refine ⟨?_, hs.m_reqResult, (Record.settled_iff hs.connections).mpr hclosed, hs.after,
      (Record.settled_iff hs.statements).mpr hs.finalised, hreturned⟩
    cases hdb : s.m_db with
    | none => rfl
    | some n =>
      have hmem := hs.db n hdb
      rw [hclosed] at hmem
      cases hmem

theorem messagesFreed_iff (hs : Inv s) : MessagesFreed s ↔ s.messages.HeldBy s.m_zErrMsg := by
  unfold MessagesFreed destroy
  cases hmsg : s.m_zErrMsg with
  | none => exact (Record.settled_iff hs.messages).trans Record.heldBy_none_iff.symm
  | some n => exact Record.settled_release_iff hs.messages (hs.msg n hmsg)

end Steps

theorem inv_start (m_connParams : Text → Option Text) : Inv (start m_connParams) where
  connections := Record.sound_fresh
  statements := Record.sound_fresh
  messages := Record.sound_fresh
  finalised := rfl
  m_reqResult := rfl
  after := rfl
  db _ h := by cases h
  msg _ h := by cases h

theorem kept_start (m_connParams : Text → Option Text) : Kept (start m_connParams) where
  closed := rfl
  messages := Record.heldBy_of_nil rfl _
  returned := rfl

/-- In a run of the worker nothing is held between the calls, and at its end every message was
freed, exactly if no call of the run does harm. -/
theorem holds_nothing_iff {m_connParams : Text → Option Text} {s : State} {calls : List Call}
    (hrun : Run step Always (start m_connParams) calls s) :
    (Throughout step HoldsNothing (start m_connParams) calls ∧ MessagesFreed s) ↔
      Run step Harmless (start m_connParams) calls s := by
  obtain ⟨hs, hkept, hthroughout⟩ :=
    hrun.guarded_spec (fun s c t hs h => step_spec hs h) (inv_start _) (kept_start _)
  rw [messagesFreed_iff hs]
  constructor
  · rintro ⟨hnothing, hmsgs⟩
    have hlast := hnothing calls s (List.prefix_refl calls) hrun
    obtain ⟨hclosed, hreturned⟩ := (holdsNothing_iff hs).mp hlast
    exact hkept.mp ⟨hclosed, hmsgs, hreturned⟩
  · intro hguarded
    have hnothing : Throughout step HoldsNothing (start m_connParams) calls :=
      (hthroughout hguarded).mono fun _ h =>
        (holdsNothing_iff h.1).mpr ⟨h.2.closed, h.2.returned⟩
    exact ⟨hnothing, (hkept.mpr hguarded).messages⟩

/-! ## Concrete runs -/

/-- Parameters with every key. -/
def someParams (_ : Text) : Option Text := some []

/-- A command with an error message, an open that fails without a connection, a song that is not
there, and the empty list. -/
def oneMessage : List Call :=
  [.execQuery .SQLITE_OK (.error true), .execQuery (.error false) .SQLITE_OK,
    .getFilenameByUID .SQLITE_OK (some none),
    .getSongsListAsJson .SQLITE_OK (some (some ['[', ']']))]

theorem holds_nothing_iff_oneMessage :
    ∃ s, Run step Always (start someParams) oneMessage s ∧
      Throughout step HoldsNothing (start someParams) oneMessage ∧ MessagesFreed s := by
  have hexec : (exec step Harmless (start someParams) oneMessage).isSome = true := by decide
  obtain ⟨s, hs⟩ := Option.isSome_iff_exists.mp hexec
  have hguarded := run_of_exec hs
  have hrun : Run step Always (start someParams) oneMessage s := hguarded.always
  exact ⟨s, hrun, (holds_nothing_iff hrun).mpr hguarded⟩

/-- An open that fails with a connection leaves it open. -/
theorem not_holds_nothing_error :
    ¬ ∀ (m_connParams : Text → Option Text) (calls : List Call) (s : State),
      Run step Always (start m_connParams) calls s →
      Throughout step HoldsNothing (start m_connParams) calls ∧ MessagesFreed s := by
  intro hall
  have hrun : Run step Always (start someParams) [.getFilenameByUID (.error true) none] _ :=
    Run.single trivial rfl
  obtain ⟨hnothing, -⟩ := hall _ _ _ hrun
  have hdb := (hnothing _ _ (List.prefix_refl _) hrun).m_db
  exact absurd hdb (by decide)

end PetProject.Workers.SQLiteHandles
