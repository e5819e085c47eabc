import Mathlib.Data.List.Basic
import PetProject.Daemon.Config

/-!
# Construction and initialisation of the daemons

`baseDaemon`, `httpServer` and `fileWatch` up to the point where the service loops start. A function
is a sequence of steps; what a step does to the members is `Step.apply`, and a signal can arrive
between any two steps. What the libraries answer is the record `Outcomes`.

The functions run in `Init`: they see the steps taken so far, add steps, and may end with an
exception. `replay` gives the members after a list of steps.
-/

set_option autoImplicit false

namespace PetProject.Daemon

open PetProject.Foundation.TextSearch PetProject.Workers

/-! ## Members and steps -/

/-- The signals with the handler `signalHandler`; `SIGPIPE` is ignored. -/
inductive Signal where
  | SIGINT
  | SIGTERM
  deriving DecidableEq, Repr

/-- A worker with the parameters of its connection. -/
structure iworker where
  type : TDB_type
  m_connParams : params_container_t

/-- The members of a daemon. A pointer is modelled by what it points to, or by whether it is set. -/
structure Members where
  m_ifp : Option iniFileParser
  m_serviceName : Text
  /-- The signals whose handlers are installed. -/
  handlers : List Signal
  m_canExit : Bool
  m_pl : Bool
  /-- Calls made through `m_pl` while it was null. -/
  nullCalls : Nat
  m_tdbworker_content : Option iworker
  m_tdbworker_logs : Option iworker
  m_eventBase : Bool
  m_httpServer : Bool
  m_httpStartedOK : Bool
  /-- `isInitDone()` of `m_inotyInDelete` and `m_inotyInAdd`. -/
  isInitDone : Bool × Bool

/-- What exists before the constructor: the static member `m_canExit`, which is `true`. -/
def Members.initial : Members where
  m_ifp := none
  m_serviceName := []
  handlers := []
  m_canExit := true
  m_pl := false
  nullCalls := 0
  m_tdbworker_content := none
  m_tdbworker_logs := none
  m_eventBase := false
  m_httpServer := false
  m_httpStartedOK := false
  isInitDone := (false, false)

/-- The calls and assignments of the daemons. -/
inductive Step where
  /-- The members of `baseDaemon` that the constructor initialises. -/
  | construct (m_ifp : iniFileParser) (serviceName : Text)
  | signal (sig : Signal)
  | event_init (ok : Bool)
  | evhttp_start (ok : Bool)
  | watchers (isInitDone : Bool × Bool)
  | makeLogger
  /-- `m_pl->init()`. -/
  | initLogger
  /-- `m_pl->FAST_LOG(CODE_POSITION() + message)`. -/
  | FAST_LOG (message : Text)
  | cerr (message : Text)
  | content (worker : iworker)
  | logs (worker : iworker)
  /-- `evhttp_set_allowed_methods`, `evhttp_set_gencb` and `evhttp_set_default_content_type`. -/
  | setHandler
  /-- `setWatchFunction` of both watchers. -/
  | setWatchFunctions
  | m_canExit (value : Bool)
  /-- The pool of threads is joined. -/
  | joinPool
  | deleteLogger

/-- The members after a call through `m_pl`. -/
def Members.throughLogger (d : Members) : Members :=
  if d.m_pl then d else { d with nullCalls := d.nullCalls + 1 }

def Step.apply (d : Members) : Step → Members
  | .construct m_ifp serviceName => { d with m_ifp := some m_ifp, m_serviceName := serviceName }
  | .signal sig => { d with handlers := d.handlers ++ [sig] }
  | .event_init ok => { d with m_eventBase := ok }
  | .evhttp_start ok => { d with m_httpServer := ok, m_httpStartedOK := ok }
  | .watchers isInitDone => { d with isInitDone := isInitDone }
  | .makeLogger => { d with m_pl := true }
  | .initLogger | .FAST_LOG _ => d.throughLogger
  | .content worker => { d with m_tdbworker_content := some worker }
  | .logs worker => { d with m_tdbworker_logs := some worker }
  | .m_canExit value => { d with m_canExit := value }
  | .deleteLogger => { d with m_pl := false }
  | .cerr _ | .setHandler | .setWatchFunctions | .joinPool => d

/-- The members after the steps. -/
def replay (steps : List Step) : Members := steps.foldl Step.apply Members.initial

/-! ## Functions -/

/-- The exceptions that the functions let through. -/
inductive Exception where
  /-- `std::out_of_range`, from `at` of a map. -/
  | out_of_range
  /-- Out of the constructor of a watcher or of a thread. -/
  | construction
  deriving DecidableEq, Repr

/-- A function that adds steps to those taken so far. -/
def Init (α : Type) : Type := List Step → Except Exception α × List Step

instance : Monad Init where
  pure a := fun steps => (.ok a, steps)
  bind x f := fun steps =>
    match x steps with
    | (.ok a, steps') => f a steps'
    | (.error e, steps') => (.error e, steps')

/-- Take a step. -/
def act (a : Step) : Init Unit := fun steps => (.ok (), steps ++ [a])

/-- Look at the members. -/
def members : Init Members := fun steps => (.ok (replay steps), steps)

def throwException {α : Type} (e : Exception) : Init α := fun steps => (.error e, steps)

/-- `at` of a `std::map`. -/
def params_container_t.at (params : params_container_t) (key : Text) : Init Text :=
  match params.lookup key with
  | some v => pure v
  | none => throwException .out_of_range

/-- What the libraries answer. -/
structure Outcomes where
  /-- `event_init()` and `evhttp_start(..)` do not return null. -/
  event_init : Bool
  evhttp_start : Bool
  /-- The watchers and the threads of the pool are constructed without an exception. -/
  watchersConstructed : Bool
  isInitDone : Bool × Bool
  /-- `m_pl->init()`. -/
  loggerInit : Bool
  /-- `PQstatus` of the new connections is `CONNECTION_OK`. -/
  contentConnects : Bool
  logsConnects : Bool

/-! ## The workers -/

/-- `common_defs::postgreTDB`. -/
def postgreTDB : Text := "POSTGRESQL".toList

/-- `common_defs::sqliteTDB`. -/
def sqliteTDB : Text := "SQLITE".toList

/-- The key of the type of a database. -/
def db_type : Text := "db_type".toList

/-- The tests of `TDBtype` in `initBaseDaemon` and `initTDBLogWorker`. -/
def selectTDB (TDBtype : Text) : Option TDB_type :=
  if TDBtype = postgreTDB then some .POSTGRESQL
  else if TDBtype = sqliteTDB then some .SQLITE
  else none

def iworker.whoAmI (w : iworker) : Text :=
  match w.type with
  | .POSTGRESQL => postgreTDB
  | .SQLITE => sqliteTDB

/-- `initWorker`; `connects` is the outcome of the connection. -/
def iworker.initWorker (w : iworker) (connects : Bool) : Bool :=
  match w.type with
  | .SQLITE => true
  | .POSTGRESQL =>
      -- `std::out_of_range` is caught
      if ["host".toList, "port".toList, "dbname".toList, "user".toList, "passwd".toList].all
          fun key => (w.m_connParams.lookup key).isSome then connects
      else false

/-! ## `baseDaemon` -/

/-- The constructor of `baseDaemon`. -/
def baseDaemon (m_ifp : iniFileParser) (serviceName : Text) : Init Unit := do
  act (.construct m_ifp serviceName)
  act (.signal .SIGINT)
  act (.signal .SIGTERM)

/-- `"Демон [" << m_serviceName << "] .."`. -/
def daemonMessage (m_serviceName message : Text) : Text :=
  "Демон [".toList ++ (m_serviceName ++ ("] ".toList ++ message))

def initBaseDaemon (out : Outcomes) : Init Bool := do
  let d ← members
  match d.m_ifp with
  | none => do
      act (.cerr (daemonMessage d.m_serviceName "не стартовал (m_ifp == nullptr)".toList))
      pure false
  | some m_ifp =>
      let petloggerParamsContent := m_ifp.getSectionContent pet_params.PET_LOGGER
      if petloggerParamsContent.1 = false then do
        act (.cerr (daemonMessage d.m_serviceName
          "не стартовал (неверные параметры логгера в конфиге)".toList))
        pure false
      else do
        act .makeLogger
        act .initLogger
        if out.loggerInit = false then do
          act (.cerr (daemonMessage d.m_serviceName
            "не стартовал (не удалось инициализировать логгер)".toList))
          pure false
        else do
          let TDBtype ← (m_ifp.getSectionContent pet_params.FILE_OBSERVER).2.at db_type
          match selectTDB TDBtype with
          | none => do
              act (.FAST_LOG "Демон не стартовал (указан неверный тип ТБД в конфиге)".toList)
              act (.cerr (daemonMessage d.m_serviceName
                "не стартовал (указан неверный тип ТБД в конфиге)".toList))
              pure false
          | some type =>
              let worker : iworker :=
                ⟨type, (m_ifp.getSectionContent pet_params.CONTENT_TDB).2⟩
              do
                act (.content worker)
                if worker.initWorker out.contentConnects = false then do
                  act (.FAST_LOG
                    "Демон не стартовал (не удалось инициализировать службу ТБД)".toList)
                  act (.cerr (daemonMessage d.m_serviceName
                    "не стартовал (не удалось инициализировать службу ТБД)".toList))
                  pure false
                else do
                  act (.FAST_LOG "Демон успешно стартовал".toList)
                  act (.cerr (daemonMessage d.m_serviceName
                    ("успешно стартовал. Демон сохраняет контент в ТБД [".toList ++
                      (worker.whoAmI ++ "]".toList))))
                  act (.m_canExit false)
                  pure true

/-! ## `httpServer` -/

def initializeLibevent (out : Outcomes) : Init Bool := do
  act (.event_init out.event_init)
  if out.event_init = false then do
    act (.FAST_LOG "Ошибка инициализации библиотеки libevent".toList)
    pure false
  else pure true

def httpStart (out : Outcomes) : Init Unit := do
  let ok ← initializeLibevent out
  if ok = false then pure ()
  else act (.evhttp_start out.evhttp_start)

/-- The constructor of `httpServer`. -/
def httpServer (m_ifp : iniFileParser) (serviceName : Text) (out : Outcomes) : Init Unit := do
  baseDaemon m_ifp serviceName
  httpStart out

def initTDBLogWorker (out : Outcomes) : Init Bool := do
  let d ← members
  match d.m_ifp with
  -- not reached: `initBaseDaemon` has tested the pointer
  | none => pure false
  | some m_ifp => do
      let TDBtype ← (m_ifp.getSectionContent pet_params.HTTP_DATA).2.at db_type
      match selectTDB TDBtype with
      | none => do
          act (.FAST_LOG ("Демону не удалось создать worker для логгирования http-запросов " ++
            "(указан неверный тип ТБД логов в конфиге)").toList)
          act (.cerr (daemonMessage d.m_serviceName
            "не стартовал (указан неверный тип ТБД логов в конфиге)".toList))
          pure false
      | some type =>
          let worker : iworker := ⟨type, (m_ifp.getSectionContent pet_params.LOGS_TDB).2⟩
          do
            act (.logs worker)
            if worker.initWorker out.logsConnects = false then do
              act (.FAST_LOG ("Демону не удалось создать worker для логгирования http-запросов " ++
                "(не удалось инициализировать службу ТБД логов)").toList)
              act (.cerr (daemonMessage d.m_serviceName
                "не стартовал (не удалось инициализировать службу ТБД логов)".toList))
              pure false
            else do
              act (.cerr (daemonMessage d.m_serviceName
                ("сохраняет логи запросов в ТБД [".toList ++ (worker.whoAmI ++ "]".toList))))
              pure true

def initializeHTTP_Handler : Init Bool := do
  let d ← members
  if d.m_httpStartedOK then do
    act .setHandler
    pure true
  else pure false

/-- `std::boolalpha`. -/
def boolalpha (b : Bool) : Text := if b then "true".toList else "false".toList

/-- The test of `m_pl` and `m_tdbworker_content` that both daemons make after `initBaseDaemon`. -/
def pointersAreValid : Init Bool := do
  let d ← members
  if d.m_pl = false ∨ d.m_tdbworker_content.isNone then do
    act (.cerr "Ошибка! Логгер или обработчик ТБД не валидны!".toList)
    act (.cerr ("m_pl == nullptr -> ".toList ++ (boolalpha (!d.m_pl) ++
      (", m_tdbworker_content == nullptr -> ".toList ++ boolalpha d.m_tdbworker_content.isNone))))
    pure false
  else pure true

def initServer (out : Outcomes) : Init Bool := do
  let ok ← initBaseDaemon out
  if ok = false then do
    act (.cerr "Ошибка в инициализации базового демона!".toList)
    pure false
  else do
    let ok ← pointersAreValid
    if ok = false then pure false
    else do
      let ok ← initTDBLogWorker out
      let d ← members
      if ok = false ∨ d.m_tdbworker_logs.isNone then pure false
      else if d.m_httpServer = false ∨ d.m_httpStartedOK = false then do
        act (.FAST_LOG "Http-сервер не стартовал".toList)
        pure false
      else do
        let ok ← initializeHTTP_Handler
        if ok = false then do
          act (.FAST_LOG "Не удалось инициализировать callback".toList)
          pure false
        else do
          act (.FAST_LOG "Http-сервер успешно запущен".toList)
          pure true

/-! ## `fileWatch` -/

/-- The constructor of `fileWatch`. -/
def fileWatch (m_ifp : iniFileParser) (serviceName : Text) (out : Outcomes) : Init Unit := do
  baseDaemon m_ifp serviceName
  if out.watchersConstructed = false then throwException .construction
  else act (.watchers out.isInitDone)

def initFileWatch (out : Outcomes) : Init Bool := do
  let ok ← initBaseDaemon out
  if ok = false then do
    act (.cerr "Ошибка в инициализации базового демона!".toList)
    pure false
  else do
    let ok ← pointersAreValid
    if ok = false then pure false
    else do
      let d ← members
      if d.isInitDone.1 = false ∨ d.isInitDone.2 = false then do
        act (.FAST_LOG "Не удалось инициализировать файловый наблюдатель".toList)
        pure false
      else do
        act .setWatchFunctions
        act (.FAST_LOG "Файловый наблюдатель инициализирован".toList)
        pure true

/-! ## Runs -/

section Runs

variable {α β : Type} (steps : List Step)

theorem bind_run (x : Init α) (f : α → Init β) :
    (x >>= f) steps = match x steps with
      | (.ok a, steps') => f a steps'
      | (.error e, steps') => (.error e, steps') := rfl

theorem pure_run (a : α) : (pure a : Init α) steps = (.ok a, steps) := rfl

theorem act_run (a : Step) : act a steps = (.ok (), steps ++ [a]) := rfl

theorem members_run : members steps = (.ok (replay steps), steps) := rfl

theorem throwException_run (e : Exception) :
    (throwException e : Init α) steps = (.error e, steps) := rfl

theorem ite_run {c : Prop} [Decidable c] (x y : Init α) :
    (if c then x else y) steps = if c then x steps else y steps := by
  split <;> rfl

theorem at_run (params : params_container_t) (key : Text) :
    params.at key steps = match params.lookup key with
      | some v => (.ok v, steps)
      | none => (.error .out_of_range, steps) := by
  unfold params_container_t.at
  cases params.lookup key <;> rfl

theorem replay_append (new : List Step) :
    replay (steps ++ new) = new.foldl Step.apply (replay steps) :=
  List.foldl_append

theorem replay_snoc (a : Step) : replay (steps ++ [a]) = a.apply (replay steps) := by
  simp only [replay_append, List.foldl_cons, List.foldl_nil]

end Runs

/-- A call through `m_pl` changes at most the count of the bad calls. -/
theorem throughLogger_eq (d : Members) : ∃ n, d.throughLogger = { d with nullCalls := n } := by
  unfold Members.throughLogger
  split
  · exact ⟨d.nullCalls, rfl⟩
  · exact ⟨d.nullCalls + 1, rfl⟩

end PetProject.Daemon
