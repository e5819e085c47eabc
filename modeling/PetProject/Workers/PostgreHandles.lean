import PetProject.Foundation.Handles
import PetProject.Foundation.Transition
import PetProject.Workers.Model

/-!
# The handles of the PostgreSQL worker

`postgreWorker` with the connections and results that it obtains from libpq. A call carries what
libpq answers: `PQsetdbLogin` a connection with a status or a null pointer, `PQexec` a result or a
null pointer. The texts of the queries and what is made of the answers are in `Workers.Model`; the
functions here return the same (`getSongsListAsJson_fst`, `getFilenameByUID_fst`).

A failed login finishes its connection and leaves the pointer in `m_conn`, a later login overwrites
it, and the result of a query is cleared only when a selection fails. The worker releases what it
takes, once, exactly when no call of the run does harm in the state it finds (`Harmless`) and the
last connection had not failed right after its login (`releases_once_iff`).
-/

set_option autoImplicit false

namespace PetProject.Workers.PostgreHandles

open PetProject.Foundation.TextSearch PetProject.Foundation.Transition
open PetProject.Foundation.Handles

/-! ## libpq -/

inductive ConnStatusType where
  | CONNECTION_OK
  | CONNECTION_BAD
  deriving DecidableEq

inductive ExecStatusType where
  | PGRES_COMMAND_OK
  | PGRES_TUPLES_OK
  /-- Any other status. -/
  | PGRES_FATAL_ERROR
  deriving DecidableEq

/-- A connection, with what `PQstatus` said right after the login. The worker asks there only; that
a connection is lost later shows in the answers to its queries. -/
structure PGconn where
  number : Nat
  status : ConnStatusType
  deriving DecidableEq

/-- The answer of the database to a query. -/
structure Answer where
  status : ExecStatusType
  /-- The values of the first column. -/
  column : List Text
  deriving DecidableEq

structure PGresult where
  number : Nat
  answer : Answer
  deriving DecidableEq

/-- A null connection is bad. -/
def PQstatus : Option PGconn → ConnStatusType
  | some conn => conn.status
  | none => .CONNECTION_BAD

/-- A null result is an error. -/
def PQresultStatus : Option PGresult → ExecStatusType
  | some res => res.answer.status
  | none => .PGRES_FATAL_ERROR

/-- `PQgetvalue(res, 0, 0)`; a null pointer when there is no such row. -/
def PQgetvalue (res : Option PGresult) : Option Text := res.bind fun res => res.answer.column.head?

/-- `PQclear` of a null pointer does nothing. -/
def PQclear (res : Option PGresult) (results : Record) : Record :=
  match res with
  | some res => results.release res.number
  | none => results

/-! ## The worker -/

/-- The worker, and the connections and results of libpq. -/
structure State where
  /-- `m_connParams.at`; the map does not change. -/
  m_connParams : Text → Option Text
  m_conn : Option PGconn
  m_res : Option PGresult
  connections : Record
  results : Record

def exitNicely (s : State) : State :=
  match s.m_conn with
  | some conn => { s with connections := s.connections.release conn.number }
  | none => s

/-- `m_conn = PQsetdbLogin(..)`; `login` is the status of the connection, `none` for a null
pointer. -/
def PQsetdbLogin (login : Option ConnStatusType) (s : State) : State :=
  match login with
  | some status =>
      { s with
        m_conn := some ⟨s.connections.obtained, status⟩
        connections := s.connections.obtain }
  | none => { s with m_conn := none }

/-- `m_res = PQexec(m_conn, ..)`; `answer` is `none` for a null pointer. -/
def PQexec (answer : Option Answer) (s : State) : State :=
  match s.m_conn with
  -- a query on a null connection has no result
  | none => { s with m_res := none }
  | some conn =>
      let queried := { s with connections := s.connections.use conn.number }
      match answer with
      | some answer =>
          { queried with
            m_res := some ⟨s.results.obtained, answer⟩
            results := s.results.obtain }
      | none => { queried with m_res := none }

/-- The keys that `initWorker` looks up. -/
def loginKeys : List Text :=
  ["host".toList, "port".toList, "dbname".toList, "user".toList, "passwd".toList]

/-- No `at` of `initWorker` throws. -/
def State.paramsComplete (s : State) : Bool :=
  loginKeys.all fun key => (s.m_connParams key).isSome

def initWorker (login : Option ConnStatusType) (s : State) : Bool × State :=
  if s.paramsComplete then
    let logged := PQsetdbLogin login s
    if PQstatus logged.m_conn ≠ .CONNECTION_OK then (false, exitNicely logged) else (true, logged)
  else (false, s)

/-- `getSongsListAsJson`; no value when the conversion of the answer throws. -/
def getSongsListAsJson (answer : Option Answer) (s : State) : Option Text × State :=
  let queried := PQexec answer s
  if PQresultStatus queried.m_res ≠ .PGRES_TUPLES_OK then
    (some errorTDBResponce, { queried with results := PQclear queried.m_res queried.results })
  else
    match makeString (PQgetvalue queried.m_res) with
    | .error _ => (none, queried)
    | .ok json =>
        (some (if json = "\x7b\"songs\":null\x7d".toList then "[]".toList else json), queried)

def execQuery (answer : Option Answer) (s : State) : Bool × State :=
  let queried := PQexec answer s
  (PQresultStatus queried.m_res = .PGRES_COMMAND_OK, queried)

def getFilenameByUID (answer : Option Answer) (s : State) : Text × State :=
  let queried := PQexec answer s
  if PQresultStatus queried.m_res ≠ .PGRES_TUPLES_OK then
    (errorTDBResponce, { queried with results := PQclear queried.m_res queried.results })
  else (orEmpty (makeString (PQgetvalue queried.m_res)), queried)

/-- `~postgreWorker`. -/
def destroy (s : State) : State := exitNicely s

/-! ## Runs -/

/-- A call of the worker, with the answer of libpq. -/
inductive Call where
  | initWorker (login : Option ConnStatusType)
  | getSongsListAsJson (answer : Option Answer)
  | execQuery (answer : Option Answer)
  | getFilenameByUID (answer : Option Answer)

def step (s : State) : Call → Option State
  | .initWorker login => some (initWorker login s).2
  | .getSongsListAsJson answer => some (getSongsListAsJson answer s).2
  | .execQuery answer => some (execQuery answer s).2
  | .getFilenameByUID answer => some (getFilenameByUID answer s).2

/-- The worker after its constructor. -/
def start (m_connParams : Text → Option Text) : State :=
  ⟨m_connParams, none, none, .fresh, .fresh⟩

/-- At the end of the life of the worker every connection was finished exactly once, no release was
of another connection, and no query was run on a finished connection. -/
structure ReleasedOnce (s : State) : Prop where
  finished : s.connections.Settled
  only : ∀ n ∈ s.connections.released, n < s.connections.obtained
  queries : s.connections.stale = []

/-- Between the calls at most one result has not been cleared. -/
def FewResults (s : State) : Prop := s.results.outstanding.length ≤ 1

/-- `m_conn` still points to a connection that `PQstatus` called bad right after the login. -/
def State.failed (s : State) : Bool :=
  match s.m_conn with
  | some conn => conn.status = .CONNECTION_BAD
  | none => false

/-- A query whose answer has one of the given statuses leaves its result. -/
def State.leavesResult (s : State) (answer : Option Answer) (left : ExecStatusType → Bool) : Bool :=
  s.m_conn.isSome && answer.any fun answer => left answer.status

/-- A query does no harm: it is not run on a failed connection, and when its result stays no other
one does. -/
def HarmlessQuery (s : State) (answer : Option Answer) (left : ExecStatusType → Bool) : Prop :=
  s.failed = false ∧ (s.leavesResult answer left = true → s.results.outstanding = [])

/-- A call does no harm: a login does not overwrite a connection that `PQstatus` called good right
after its own login. A selection leaves the result of an answer, the other queries leave every
result. -/
def Harmless (s : State) : Call → Prop
  | .initWorker _ => s.paramsComplete = true → PQstatus s.m_conn = .CONNECTION_BAD
  | .getSongsListAsJson answer => HarmlessQuery s answer (· = .PGRES_TUPLES_OK)
  | .execQuery answer => HarmlessQuery s answer fun _ => true
  | .getFilenameByUID answer => HarmlessQuery s answer (· = .PGRES_TUPLES_OK)

instance : DecidableRel Harmless := fun s c =>
  match c with
  | .initWorker _ => inferInstanceAs
      (Decidable (s.paramsComplete = true → PQstatus s.m_conn = .CONNECTION_BAD))
  | .getSongsListAsJson _ => inferInstanceAs (Decidable (_ ∧ _))
  | .execQuery _ => inferInstanceAs (Decidable (_ ∧ _))
  | .getFilenameByUID _ => inferInstanceAs (Decidable (_ ∧ _))

/-! ## What a call does -/

/-- The records are in order, and `m_conn` points to a connection that was finished if it has
failed and only then. -/
structure Inv (s : State) : Prop where
  connections : s.connections.Sound
  results : s.results.Sound
  held : ∀ conn, s.m_conn = some conn → conn.number < s.connections.obtained ∧
    (conn.number ∈ s.connections.released ↔ conn.status = .CONNECTION_BAD)

/-- What one query does, apart from `m_res`; `left` are the statuses that leave the result. -/
structure Queried (s : State) (answer : Option Answer) (left : ExecStatusType → Bool) (t : State) :
    Prop where
  params : t.m_connParams = s.m_connParams
  conn : t.m_conn = s.m_conn
  connections : t.connections =
    match s.m_conn with
    | some conn => s.connections.use conn.number
    | none => s.connections
  sound : t.results.Sound
  results : t.results.outstanding.length =
    s.results.outstanding.length + if s.leavesResult answer left then 1 else 0

section Calls

variable {s t : State} {answer : Option Answer}

/-- The query of a null connection, one without a result, and one with a result. -/
theorem PQexec_cases (answer : Option Answer) (s : State) :
    (s.m_conn = none ∧ PQexec answer s = { s with m_res := none }) ∨
    (∃ conn, s.m_conn = some conn ∧ answer = none ∧ PQexec answer s =
      { s with connections := s.connections.use conn.number, m_res := none }) ∨
    (∃ conn a, s.m_conn = some conn ∧ answer = some a ∧ PQexec answer s =
      { s with
        connections := s.connections.use conn.number
        m_res := some ⟨s.results.obtained, a⟩
        results := s.results.obtain }) := by
  unfold PQexec
  cases hconn : s.m_conn with
  | none => exact Or.inl ⟨rfl, rfl⟩
  | some conn =>
    cases answer with
    | none => exact Or.inr (Or.inl ⟨conn, rfl, rfl, rfl⟩)
    | some a => exact Or.inr (Or.inr ⟨conn, a, rfl, rfl, rfl⟩)

/-- What a query does before anything is cleared. -/
theorem PQexec_queried (answer : Option Answer) (hs : s.results.Sound) :
    Queried s answer (fun _ => true) (PQexec answer s) := by
  rcases PQexec_cases answer s with
    ⟨hconn, heq⟩ | ⟨conn, hconn, rfl, heq⟩ | ⟨conn, a, hconn, rfl, heq⟩
  · rw [heq]
    refine ⟨rfl, rfl, by rw [hconn], hs, ?_⟩
    simp [State.leavesResult, hconn]
  · rw [heq]
    refine ⟨rfl, rfl, by rw [hconn], hs, ?_⟩
    simp [State.leavesResult, hconn]
  · rw [heq]
    refine ⟨rfl, rfl, by rw [hconn], hs.obtain, ?_⟩
    simp [State.leavesResult, hconn, Record.outstanding_obtain hs]

/-- The state after a selection, which clears a result that is no answer. -/
def selected (answer : Option Answer) (s : State) : State :=
  if PQresultStatus (PQexec answer s).m_res ≠ .PGRES_TUPLES_OK then
    { PQexec answer s with results := PQclear (PQexec answer s).m_res (PQexec answer s).results }
  else PQexec answer s

theorem getSongsListAsJson_snd : (getSongsListAsJson answer s).2 = selected answer s := by
  unfold getSongsListAsJson selected
  by_cases hstatus : PQresultStatus (PQexec answer s).m_res ≠ .PGRES_TUPLES_OK
  · rw [if_pos hstatus, if_pos hstatus]
  · rw [if_neg hstatus, if_neg hstatus]
    cases makeString (PQgetvalue (PQexec answer s).m_res) <;> rfl

theorem getFilenameByUID_snd : (getFilenameByUID answer s).2 = selected answer s := by
  unfold getFilenameByUID selected
  by_cases hstatus : PQresultStatus (PQexec answer s).m_res ≠ .PGRES_TUPLES_OK
  · rw [if_pos hstatus, if_pos hstatus]
  · rw [if_neg hstatus, if_neg hstatus]

theorem selected_queried (answer : Option Answer) (hs : s.results.Sound) :
    Queried s answer (· = .PGRES_TUPLES_OK) (selected answer s) := by
  unfold selected
  rcases PQexec_cases answer s with
    ⟨hconn, heq⟩ | ⟨conn, hconn, rfl, heq⟩ | ⟨conn, a, hconn, rfl, heq⟩
  · have hstatus : PQresultStatus (PQexec answer s).m_res ≠ .PGRES_TUPLES_OK := by
      rw [heq]
      exact ExecStatusType.noConfusion
    rw [if_pos hstatus, heq]
    refine ⟨rfl, rfl, by rw [hconn], hs, ?_⟩
    simp [State.leavesResult, hconn, PQclear]
  · have hstatus : PQresultStatus (PQexec none s).m_res ≠ .PGRES_TUPLES_OK := by
      rw [heq]
      exact ExecStatusType.noConfusion
    rw [if_pos hstatus, heq]
    refine ⟨rfl, rfl, by rw [hconn], hs, ?_⟩
    simp [State.leavesResult, hconn, PQclear]
  · have hstatus : PQresultStatus (PQexec (some a) s).m_res = a.status := by
      rw [heq]
      rfl
    rw [hstatus]
    by_cases htuples : a.status = .PGRES_TUPLES_OK
    · rw [if_neg (not_not_intro htuples), heq]
      refine ⟨rfl, rfl, by rw [hconn], hs.obtain, ?_⟩
      simp [State.leavesResult, hconn, htuples, Record.outstanding_obtain hs]
    · rw [if_pos htuples, heq]
      refine ⟨rfl, rfl, by rw [hconn], hs.obtain_release, ?_⟩
      simp [State.leavesResult, hconn, htuples, PQclear, Record.outstanding_obtain_release]

/-- The answer to a query as `Workers.Model` has it. -/
def queryResult (answer : Option Answer) (s : State) : QueryResult :=
  match s.m_conn, answer with
  | none, _ => .connectionFailure
  | some _, some ⟨.PGRES_TUPLES_OK, column⟩ => .rows column
  | some _, _ => .queryError

/-- What a selection decides on: the status and the value of its result. -/
theorem PQexec_result (answer : Option Answer) (s : State) :
    (PQresultStatus (PQexec answer s).m_res ≠ .PGRES_TUPLES_OK ∧
      (queryResult answer s = .connectionFailure ∨ queryResult answer s = .queryError)) ∨
    (∃ column, PQresultStatus (PQexec answer s).m_res = .PGRES_TUPLES_OK ∧
      PQgetvalue (PQexec answer s).m_res = column.head? ∧ queryResult answer s = .rows column) := by
  rcases PQexec_cases answer s with
    ⟨hconn, heq⟩ | ⟨conn, hconn, rfl, heq⟩ | ⟨conn, a, hconn, rfl, heq⟩
  · refine Or.inl ⟨by rw [heq]; exact ExecStatusType.noConfusion, Or.inl ?_⟩
    simp [queryResult, hconn]
  · refine Or.inl ⟨by rw [heq]; exact ExecStatusType.noConfusion, Or.inr ?_⟩
    simp [queryResult, hconn]
  · obtain ⟨status, column⟩ := a
    cases status with
    | PGRES_TUPLES_OK =>
      refine Or.inr ⟨column, by rw [heq]; rfl, by rw [heq]; rfl, ?_⟩
      simp [queryResult, hconn]
    | PGRES_COMMAND_OK =>
      refine Or.inl ⟨by rw [heq]; exact ExecStatusType.noConfusion, Or.inr ?_⟩
      simp [queryResult, hconn]
    | PGRES_FATAL_ERROR =>
      refine Or.inl ⟨by rw [heq]; exact ExecStatusType.noConfusion, Or.inr ?_⟩
      simp [queryResult, hconn]

theorem getSongsListAsJson_fst :
    (getSongsListAsJson answer s).1 =
      postgreWorker.getSongsListAsJson fun _ => queryResult answer s := by
  unfold getSongsListAsJson postgreWorker.getSongsListAsJson
  rcases PQexec_result answer s with ⟨hstatus, hresult⟩ | ⟨column, hstatus, hvalue, hresult⟩
  · rw [if_pos hstatus]
    rcases hresult with hresult | hresult <;> simp only [hresult]
  · rw [if_neg (not_not_intro hstatus), hvalue]
    simp only [hresult]
    cases makeString column.head? <;> rfl

theorem getFilenameByUID_fst (songUID : Text) :
    (getFilenameByUID answer s).1 =
      postgreWorker.getFilenameByUID (fun _ => queryResult answer s) songUID := by
  unfold getFilenameByUID postgreWorker.getFilenameByUID
  rcases PQexec_result answer s with ⟨hstatus, hresult⟩ | ⟨column, hstatus, hvalue, hresult⟩
  · rw [if_pos hstatus]
    rcases hresult with hresult | hresult <;> simp only [hresult]
  · rw [if_neg (not_not_intro hstatus), hvalue, hresult]

/-- What a login does; a connection is obtained unless a null pointer is returned. -/
theorem initWorker_cases (login : Option ConnStatusType) (s : State) :
    (s.paramsComplete = false ∧ (initWorker login s).2 = s) ∨
    (s.paramsComplete = true ∧ login = none ∧ (initWorker login s).2 = { s with m_conn := none }) ∨
    (s.paramsComplete = true ∧ login = some .CONNECTION_OK ∧ (initWorker login s).2 =
      { s with
        m_conn := some ⟨s.connections.obtained, .CONNECTION_OK⟩
        connections := s.connections.obtain }) ∨
    (s.paramsComplete = true ∧ login = some .CONNECTION_BAD ∧ (initWorker login s).2 =
      { s with
        m_conn := some ⟨s.connections.obtained, .CONNECTION_BAD⟩
        connections := s.connections.obtain.release s.connections.obtained }) := by
  unfold initWorker
  cases hparams : s.paramsComplete with
  | false => exact Or.inl ⟨rfl, rfl⟩
  | true =>
    cases login with
    | none => exact Or.inr (Or.inl ⟨rfl, rfl, rfl⟩)
    | some status =>
      cases status with
      | CONNECTION_OK => exact Or.inr (Or.inr (Or.inl ⟨rfl, rfl, rfl⟩))
      | CONNECTION_BAD => exact Or.inr (Or.inr (Or.inr ⟨rfl, rfl, rfl⟩))

end Calls

/-! ## Steps -/

/-- Nothing is lost so far: every connection that was not finished is the one that `m_conn` points
to, no query was run on a finished connection, and at most one result was not cleared. -/
structure Kept (s : State) : Prop where
  held : s.connections.HeldBy (s.m_conn.map PGconn.number)
  queries : s.connections.stale = []
  results : FewResults s

section Steps

variable {s t : State} {answer : Option Answer} {left : ExecStatusType → Bool}

theorem inv_start (m_connParams : Text → Option Text) : Inv (start m_connParams) where
  connections := Record.sound_fresh
  results := Record.sound_fresh
  held _ h := by cases h

theorem kept_start (m_connParams : Text → Option Text) : Kept (start m_connParams) where
  held := Record.heldBy_of_nil rfl _
  queries := rfl
  results := Nat.zero_le 1

/-- A connection that has failed was finished. -/
theorem failed_iff (hs : Inv s) :
    s.failed = true ↔ ∃ conn, s.m_conn = some conn ∧ conn.number ∈ s.connections.released := by
  unfold State.failed
  cases hconn : s.m_conn with
  | none => simp
  | some conn => simp [(hs.held conn hconn).2]

theorem query_inv (hs : Inv s) (hq : Queried s answer left t) : Inv t where
  connections := by
    rw [hq.connections]
    cases s.m_conn with
    | none => exact hs.connections
    | some conn => exact hs.connections.use
  results := hq.sound
  held conn hconn := by
    rw [hq.conn] at hconn
    rw [hq.connections, hconn]
    simp only [Record.use_obtained, Record.use_released]
    exact hs.held conn hconn

theorem query_kept_iff (hs : Inv s) (hq : Queried s answer left t) :
    Kept t ↔ Kept s ∧ HarmlessQuery s answer left := by
  have houtstanding : t.connections.outstanding = s.connections.outstanding := by
    rw [hq.connections]
    cases s.m_conn with
    | none => rfl
    | some conn => exact Record.outstanding_use
  -- a query uses the connection that `m_conn` points to, finished or not
  have hstale : t.connections.stale = [] ↔ s.connections.stale = [] ∧ s.failed = false := by
    rw [← Bool.not_eq_true, failed_iff hs, hq.connections]
    cases s.m_conn with
    | none => simp
    | some conn => simp [Record.stale_use_iff]
  have hresults : FewResults t ↔ FewResults s ∧
      (s.leavesResult answer left = true → s.results.outstanding = []) := by
    unfold FewResults
    rw [hq.results, ← List.length_eq_zero_iff]
    cases s.leavesResult answer left with
    | false => simp
    | true =>
      simp only [if_true, forall_const]
      omega
  have hheld : t.connections.HeldBy (t.m_conn.map PGconn.number) ↔
      s.connections.HeldBy (s.m_conn.map PGconn.number) := by
    unfold Record.HeldBy
    rw [houtstanding, hq.conn]
  constructor
  · intro ht
    obtain ⟨hqueries, hfailed⟩ := hstale.mp ht.queries
    obtain ⟨hfew, hfree⟩ := hresults.mp ht.results
    exact ⟨⟨hheld.mp ht.held, hqueries, hfew⟩, hfailed, hfree⟩
  · rintro ⟨hk, hfailed, hfree⟩
    exact ⟨hheld.mpr hk.held, hstale.mpr ⟨hk.queries, hfailed⟩, hresults.mpr ⟨hk.results, hfree⟩⟩

/-- The connection that `m_conn` points to is outstanding unless it has failed. -/
theorem outstanding_of_ok (hs : Inv s) {conn : PGconn} (hconn : s.m_conn = some conn)
    (hok : conn.status = .CONNECTION_OK) : conn.number ∈ s.connections.outstanding := by
  obtain ⟨hlt, hiff⟩ := hs.held conn hconn
  refine Record.mem_outstanding.mpr ⟨hlt, fun hmem => ?_⟩
  rw [hiff.mp hmem] at hok
  cases hok

/-- No connection is outstanding exactly if none is lost and `m_conn` points to no good one. -/
theorem outstanding_nil_iff (hs : Inv s) :
    s.connections.outstanding = [] ↔
      s.connections.HeldBy (s.m_conn.map PGconn.number) ∧
        PQstatus s.m_conn = .CONNECTION_BAD := by
  constructor
  · intro hnil
    refine ⟨Record.heldBy_of_nil hnil _, ?_⟩
    cases hconn : s.m_conn with
    | none => rfl
    | some conn =>
      cases hstatus : conn.status with
      | CONNECTION_BAD => exact hstatus
      | CONNECTION_OK =>
        have hmem := outstanding_of_ok hs hconn hstatus
        rw [hnil] at hmem
        cases hmem
  · rintro ⟨hheld, hbad⟩
    apply List.eq_nil_iff_forall_not_mem.mpr
    intro n hn
    obtain ⟨conn, hconn, rfl⟩ := Option.map_eq_some_iff.mp (hheld n hn)
    rw [hconn] at hbad
    exact (Record.mem_outstanding.mp hn).2 ((hs.held conn hconn).2.mpr hbad)

theorem initWorker_inv (hs : Inv s) (login : Option ConnStatusType) :
    Inv (initWorker login s).2 := by
  rcases initWorker_cases login s with ⟨-, heq⟩ | ⟨-, -, heq⟩ | ⟨-, -, heq⟩ | ⟨-, -, heq⟩
  · rw [heq]
    exact hs
  · rw [heq]
    exact ⟨hs.connections, hs.results, fun conn hconn => by cases hconn⟩
  · rw [heq]
    refine ⟨hs.connections.obtain, hs.results, ?_⟩
    rintro conn ⟨⟩
    refine ⟨Nat.lt_succ_self _, iff_of_false ?_ ConnStatusType.noConfusion⟩
    exact Record.notMem_released hs.connections
  · rw [heq]
    refine ⟨hs.connections.obtain_release, hs.results, ?_⟩
    rintro conn ⟨⟩
    refine ⟨Nat.lt_succ_self _, iff_of_true ?_ rfl⟩
    exact List.mem_append_right _ List.mem_cons_self

/-- A login that is attempted forgets what was obtained before. -/
theorem attempt_kept_iff (hs : Inv s) (hstale : t.connections.stale = s.connections.stale)
    (hresults : t.results = s.results)
    (hheld : t.connections.HeldBy (t.m_conn.map PGconn.number) ↔ s.connections.outstanding = []) :
    Kept t ↔ Kept s ∧ PQstatus s.m_conn = .CONNECTION_BAD := by
  have hfew : FewResults t ↔ FewResults s := by
    unfold FewResults
    rw [hresults]
  rw [outstanding_nil_iff hs] at hheld
  constructor
  · intro ht
    obtain ⟨hkept, hbad⟩ := hheld.mp ht.held
    exact ⟨⟨hkept, hstale ▸ ht.queries, hfew.mp ht.results⟩, hbad⟩
  · rintro ⟨hk, hbad⟩
    exact ⟨hheld.mpr ⟨hk.held, hbad⟩, hstale.trans hk.queries, hfew.mpr hk.results⟩

theorem initWorker_kept_iff (hs : Inv s) (login : Option ConnStatusType) :
    Kept (initWorker login s).2 ↔ Kept s ∧ Harmless s (.initWorker login) := by
  rcases initWorker_cases login s with ⟨hp, heq⟩ | ⟨hp, -, heq⟩ | ⟨hp, -, heq⟩ | ⟨hp, -, heq⟩
  · rw [heq]
    simp [Harmless, hp]
  · simp only [Harmless, hp, forall_const]
    rw [heq]
    refine attempt_kept_iff hs rfl rfl ?_
    exact Record.heldBy_none_iff
  · simp only [Harmless, hp, forall_const]
    rw [heq]
    refine attempt_kept_iff hs rfl rfl ?_
    exact Record.heldBy_obtain_iff hs.connections
  · simp only [Harmless, hp, forall_const]
    rw [heq]
    refine attempt_kept_iff hs rfl rfl ?_
    -- the connection of a failed login is finished at once, and `m_conn` holds nothing
    have hnew : s.connections.obtained ∉
        (s.connections.obtain.release s.connections.obtained).outstanding := by
      rw [Record.outstanding_obtain_release]
      exact Record.notMem_outstanding _
    exact (Record.heldBy_some_iff hnew).trans (by rw [Record.outstanding_obtain_release])

/-- A call keeps the records in order, and nothing is lost after it exactly if nothing was lost
before and the call does no harm. -/
theorem step_spec {c : Call} (hs : Inv s) (h : step s c = some t) :
    Inv t ∧ (Kept t ↔ Kept s ∧ Harmless s c) := by
  cases c with
  | initWorker login =>
    cases h
    exact ⟨initWorker_inv hs login, initWorker_kept_iff hs login⟩
  | getSongsListAsJson answer =>
    cases h
    rw [getSongsListAsJson_snd]
    have hq := selected_queried answer hs.results
    exact ⟨query_inv hs hq, query_kept_iff hs hq⟩
  | execQuery answer =>
    cases h
    have hq := PQexec_queried answer hs.results
    exact ⟨query_inv hs hq, query_kept_iff hs hq⟩
  | getFilenameByUID answer =>
    cases h
    rw [getFilenameByUID_snd]
    have hq := selected_queried answer hs.results
    exact ⟨query_inv hs hq, query_kept_iff hs hq⟩

/-- The destructor finishes what is held; it must not have been finished before. -/
theorem releasedOnce_destroy_iff (hs : Inv s) :
    ReleasedOnce (destroy s) ↔
      (s.connections.HeldBy (s.m_conn.map PGconn.number) ∧ s.connections.stale = []) ∧
        s.failed = false := by
  rw [← Bool.not_eq_true, failed_iff hs]
  unfold destroy exitNicely
  cases hconn : s.m_conn with
  | none =>
    have hsettled : s.connections.Settled ↔ s.connections.HeldBy none :=
      (Record.settled_iff hs.connections).trans Record.heldBy_none_iff.symm
    constructor
    · rintro ⟨hfinished, -, hstale⟩
      exact ⟨⟨hsettled.mp hfinished, hstale⟩, by simp⟩
    · rintro ⟨⟨hheld, hstale⟩, -⟩
      exact ⟨hsettled.mpr hheld, hs.connections.released_lt, hstale⟩
  | some conn =>
    obtain ⟨hlt, -⟩ := hs.held conn hconn
    -- finishing it again is never made good; otherwise it must be the only one
    by_cases hfinished : conn.number ∈ s.connections.released
    · refine iff_of_false ?_ fun h => h.2 ⟨conn, rfl, hfinished⟩
      rintro ⟨hsettled, -, -⟩
      exact Record.not_settled_release hs.connections hfinished hsettled
    · have hout : conn.number ∈ s.connections.outstanding :=
        Record.mem_outstanding.mpr ⟨hlt, hfinished⟩
      have hsettled := Record.settled_release_iff hs.connections hout
      constructor
      · rintro ⟨hfin, -, hstale⟩
        refine ⟨⟨hsettled.mp hfin, hstale⟩, ?_⟩
        rintro ⟨conn', heq, hmem⟩
        cases heq
        exact hfinished hmem
      · rintro ⟨⟨hheld, hstale⟩, -⟩
        exact ⟨hsettled.mpr hheld, (hs.connections.release hout).released_lt, hstale⟩

end Steps

/-- In a run of the worker and at its end everything is released, once, exactly if no call of the
run does harm and the last connection has not failed. -/
theorem releases_once_iff {m_connParams : Text → Option Text} {s : State} {calls : List Call}
    (hrun : Run step Always (start m_connParams) calls s) :
    (Throughout step FewResults (start m_connParams) calls ∧ ReleasedOnce (destroy s)) ↔
      Run step Harmless (start m_connParams) calls s ∧ s.failed = false := by
  obtain ⟨hs, hkept, hthroughout⟩ :=
    hrun.guarded_spec (fun s c t hs h => step_spec hs h) (inv_start _) (kept_start _)
  rw [releasedOnce_destroy_iff hs]
  constructor
  · rintro ⟨hfew, ⟨hheld, hstale⟩, hfailed⟩
    have hlast : FewResults s := hfew calls s (List.prefix_refl calls) hrun
    exact ⟨hkept.mp ⟨hheld, hstale, hlast⟩, hfailed⟩
  · rintro ⟨hguarded, hfailed⟩
    have hk := hkept.mpr hguarded
    have hfew := (hthroughout hguarded).mono fun _ h => h.2.results
    exact ⟨hfew, ⟨hk.held, hk.queries⟩, hfailed⟩

/-! ## Concrete runs -/

/-- Parameters with every key. -/
def someParams (_ : Text) : Option Text := some []

/-- A login, a command, whose result stays, and a selection that fails. -/
def oneResult : List Call :=
  [.initWorker (some .CONNECTION_OK), .execQuery (some ⟨.PGRES_COMMAND_OK, []⟩),
    .getFilenameByUID (some ⟨.PGRES_FATAL_ERROR, []⟩)]

theorem releases_once_iff_oneResult :
    ∃ s, Run step Always (start someParams) oneResult s ∧
      Throughout step FewResults (start someParams) oneResult ∧ ReleasedOnce (destroy s) := by
  have hexec : ((exec step Harmless (start someParams) oneResult).map State.failed) =
      some false := by
    decide
  obtain ⟨s, hs, hfailed⟩ := Option.map_eq_some_iff.mp hexec
  have hguarded := run_of_exec hs
  have hrun : Run step Always (start someParams) oneResult s := hguarded.always
  exact ⟨s, hrun, (releases_once_iff hrun).mpr ⟨hguarded, hfailed⟩⟩

/-- After a failed login the destructor finishes the connection a second time. -/
theorem not_releases_once_failed :
    ¬ ∀ (m_connParams : Text → Option Text) (calls : List Call) (s : State),
      Run step Always (start m_connParams) calls s →
      Throughout step FewResults (start m_connParams) calls ∧ ReleasedOnce (destroy s) := by
  intro hall
  have hrun : Run step Always (start someParams) [.initWorker (some .CONNECTION_BAD)] _ :=
    Run.single trivial rfl
  obtain ⟨-, hreleased⟩ := hall _ _ _ hrun
  have hcount := hreleased.finished 0 (by decide)
  exact absurd hcount (by decide)

end PetProject.Workers.PostgreHandles
