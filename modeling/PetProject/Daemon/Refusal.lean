import Mathlib.Data.List.Basic
import PetProject.Daemon.Startup

/-!
# Bad configurations

The initialisers refuse a bad configuration by their return value, with two exceptions. The flag of
`getSectionContent` is tested for the section of the logger only: the type of a database is looked
up in a section that may be empty, and then `at` throws; and the parameters of a connection come
from a section that may be empty, which only the worker of PostgreSQL notices. `refuses_iff` says
when none of this happens.
-/

set_option autoImplicit false

namespace PetProject.Daemon

open PetProject.Foundation.TextSearch PetProject.Workers

/-! ## What is selected -/

/-- The type of database in a section. -/
def typeOf (m_ifp : iniFileParser) (typeSection : UInt8) : Option TDB_type :=
  ((m_ifp.getSectionContent typeSection).2.lookup db_type).bind selectTDB

/-- The worker of the selected type is initialised. -/
def workerStarts (m_ifp : iniFileParser) (typeSection tdbSection : UInt8) (connects : Bool) :
    Bool :=
  match typeOf m_ifp typeSection with
  | none => false
  | some type => iworker.initWorker ⟨type, (m_ifp.getSectionContent tdbSection).2⟩ connects

/-- The logger can be created and is initialised. -/
def loggerStarts (m_ifp : iniFileParser) (out : Outcomes) : Bool :=
  (m_ifp.getSectionContent pet_params.PET_LOGGER).1 && out.loggerInit

def contentStarts (m_ifp : iniFileParser) (out : Outcomes) : Bool :=
  workerStarts m_ifp pet_params.FILE_OBSERVER pet_params.CONTENT_TDB out.contentConnects

def logsStarts (m_ifp : iniFileParser) (out : Outcomes) : Bool :=
  workerStarts m_ifp pet_params.HTTP_DATA pet_params.LOGS_TDB out.logsConnects

/-! ## The functions -/

section Functions

variable {m_ifp : iniFileParser} {out : Outcomes} {steps : List Step}

/-- The ways through `initBaseDaemon` from the members `d`, in the order of the source, with what it
answers and the members behind it. -/
inductive BaseEnds (m_ifp : iniFileParser) (out : Outcomes) (d : Members) :
    Except Exception Bool → Members → Prop
  | noParameters : (m_ifp.getSectionContent pet_params.PET_LOGGER).1 = false →
      BaseEnds m_ifp out d (.ok false) d
  | loggerFailed : (m_ifp.getSectionContent pet_params.PET_LOGGER).1 = true →
      out.loggerInit = false → BaseEnds m_ifp out d (.ok false) { d with m_pl := true }
  | noSection : loggerStarts m_ifp out = true →
      (m_ifp.getSectionContent pet_params.FILE_OBSERVER).2.lookup db_type = none →
      BaseEnds m_ifp out d (.error .out_of_range) { d with m_pl := true }
  | unknownType {TDBtype : Text} : loggerStarts m_ifp out = true →
      (m_ifp.getSectionContent pet_params.FILE_OBSERVER).2.lookup db_type = some TDBtype →
      contentStarts m_ifp out = false →
      BaseEnds m_ifp out d (.ok false) { d with m_pl := true }
  | workerFailed {TDBtype : Text} (worker : iworker) : loggerStarts m_ifp out = true →
      (m_ifp.getSectionContent pet_params.FILE_OBSERVER).2.lookup db_type = some TDBtype →
      contentStarts m_ifp out = false →
      BaseEnds m_ifp out d (.ok false)
        { d with m_pl := true, m_tdbworker_content := some worker }
  | started {TDBtype : Text} (worker : iworker) : loggerStarts m_ifp out = true →
      (m_ifp.getSectionContent pet_params.FILE_OBSERVER).2.lookup db_type = some TDBtype →
      contentStarts m_ifp out = true →
      BaseEnds m_ifp out d (.ok true)
        { d with m_pl := true, m_tdbworker_content := some worker, m_canExit := false }

theorem initBaseDaemon_ends (h : (replay steps).m_ifp = some m_ifp) :
    BaseEnds m_ifp out (replay steps) (initBaseDaemon out steps).1
      (replay (initBaseDaemon out steps).2) := by
  cases hlogger : (m_ifp.getSectionContent pet_params.PET_LOGGER).1 with
  | false =>
    simp only [initBaseDaemon, bind_run, members_run, h, act_run, ite_run, pure_run, hlogger,
      if_true, replay_snoc, Step.apply]
    exact .noParameters hlogger
  | true =>
    cases hinit : out.loggerInit with
    | false =>
      simp only [initBaseDaemon, bind_run, members_run, h, act_run, ite_run, pure_run, hlogger,
        hinit, if_true, Bool.true_eq_false, if_false]
      simp only [replay_snoc, Step.apply, Members.throughLogger, if_true]
      exact .loggerFailed hlogger hinit
    | true =>
      have hstarts : loggerStarts m_ifp out = true := by
        rw [loggerStarts, hlogger, hinit, Bool.and_self]
      cases htype : (m_ifp.getSectionContent pet_params.FILE_OBSERVER).2.lookup db_type with
      | none =>
        simp only [initBaseDaemon, bind_run, members_run, h, act_run, ite_run, hlogger, hinit,
          Bool.true_eq_false, if_false, at_run, htype]
        simp only [replay_snoc, Step.apply, Members.throughLogger, if_true]
        exact .noSection hstarts htype
      | some TDBtype =>
        cases hselect : selectTDB TDBtype with
        | none =>
          have hcontent : contentStarts m_ifp out = false := by
            rw [contentStarts, workerStarts, typeOf, htype, Option.bind_some, hselect]
          simp only [initBaseDaemon, bind_run, members_run, h, act_run, ite_run, pure_run,
            hlogger, hinit, Bool.true_eq_false, if_false, at_run, htype, hselect]
          simp only [replay_snoc, Step.apply, Members.throughLogger, if_true]
          exact .unknownType hstarts htype hcontent
        | some type =>
          have hcontent : contentStarts m_ifp out = iworker.initWorker
              ⟨type, (m_ifp.getSectionContent pet_params.CONTENT_TDB).2⟩ out.contentConnects := by
            rw [contentStarts, workerStarts, typeOf, htype, Option.bind_some, hselect]
          cases hworker : iworker.initWorker
              ⟨type, (m_ifp.getSectionContent pet_params.CONTENT_TDB).2⟩ out.contentConnects with
          | false =>
            simp only [initBaseDaemon, bind_run, members_run, h, act_run, ite_run, pure_run,
              hlogger, hinit, Bool.true_eq_false, if_false, at_run, htype, hselect, hworker,
              if_true]
            simp only [replay_snoc, Step.apply, Members.throughLogger, if_true]
            exact .workerFailed _ hstarts htype (hcontent.trans hworker)
          | true =>
            simp only [initBaseDaemon, bind_run, members_run, h, act_run, ite_run, pure_run,
              hlogger, hinit, Bool.true_eq_false, if_false, at_run, htype, hselect, hworker]
            simp only [replay_snoc, Step.apply, Members.throughLogger, if_true]
            exact .started _ hstarts htype (hcontent.trans hworker)

/-- What `initBaseDaemon` answers, and the members behind it. -/
structure BaseInit (m_ifp : iniFileParser) (out : Outcomes) (steps : List Step)
    (r : Except Exception Bool × List Step) : Prop where
  result : r.1 =
    if loggerStarts m_ifp out then
      if ((m_ifp.getSectionContent pet_params.FILE_OBSERVER).2.lookup db_type).isSome then
        .ok (contentStarts m_ifp out)
      else .error .out_of_range
    else .ok false
  m_pl : (replay r.2).m_pl =
    ((replay steps).m_pl || (m_ifp.getSectionContent pet_params.PET_LOGGER).1)
  nullCalls : (replay r.2).nullCalls = (replay steps).nullCalls
  m_ifp : (replay r.2).m_ifp = (replay steps).m_ifp
  content : r.1 = .ok true → (replay r.2).m_tdbworker_content.isSome = true
  http : (replay r.2).m_httpServer = (replay steps).m_httpServer ∧
    (replay r.2).m_httpStartedOK = (replay steps).m_httpStartedOK
  isInitDone : (replay r.2).isInitDone = (replay steps).isInitDone

theorem initBaseDaemon_spec (h : (replay steps).m_ifp = some m_ifp) :
    BaseInit m_ifp out steps (initBaseDaemon out steps) := by
  have hends : BaseEnds m_ifp out (replay steps) (initBaseDaemon out steps).1
      (replay (initBaseDaemon out steps).2) := initBaseDaemon_ends h
  generalize initBaseDaemon out steps = r at hends
  obtain ⟨answer, steps'⟩ := r
  generalize hd : replay steps' = d at hends
  cases hends with
  | noParameters hlogger =>
    constructor <;> simp [loggerStarts, hlogger, hd]
  | loggerFailed hlogger hinit =>
    constructor <;> simp [loggerStarts, hlogger, hinit, hd]
  | noSection hstarts htype =>
    have hlogger := (Bool.and_eq_true_iff.mp hstarts).1
    constructor <;> simp [hstarts, hlogger, htype, hd]
  | unknownType hstarts htype hcontent | workerFailed w hstarts htype hcontent
  | started w hstarts htype hcontent =>
    have hlogger := (Bool.and_eq_true_iff.mp hstarts).1
    constructor <;> simp [hstarts, hlogger, htype, hcontent, hd]

/-- The pointers are valid after a successful `initBaseDaemon`. -/
theorem pointersAreValid_run (hlogger : (replay steps).m_pl = true)
    (hcontent : (replay steps).m_tdbworker_content.isSome = true) :
    pointersAreValid steps = (.ok true, steps) := by
  have hnone : (replay steps).m_tdbworker_content.isNone = false := by
    simpa using hcontent
  simp only [pointersAreValid, bind_run, members_run, ite_run, pure_run, hlogger, hnone,
    Bool.true_eq_false, Bool.false_eq_true, or_self, if_false]

/-- The ways through `initTDBLogWorker`, in the order of the source. -/
inductive LogsEnds (m_ifp : iniFileParser) (out : Outcomes) (d : Members) :
    Except Exception Bool → Members → Prop
  | noSection : (m_ifp.getSectionContent pet_params.HTTP_DATA).2.lookup db_type = none →
      LogsEnds m_ifp out d (.error .out_of_range) d
  | unknownType {TDBtype : Text} :
      (m_ifp.getSectionContent pet_params.HTTP_DATA).2.lookup db_type = some TDBtype →
      logsStarts m_ifp out = false → LogsEnds m_ifp out d (.ok false) d.throughLogger
  | workerFailed {TDBtype : Text} (worker : iworker) :
      (m_ifp.getSectionContent pet_params.HTTP_DATA).2.lookup db_type = some TDBtype →
      logsStarts m_ifp out = false →
      LogsEnds m_ifp out d (.ok false) { d with m_tdbworker_logs := some worker }.throughLogger
  | started {TDBtype : Text} (worker : iworker) :
      (m_ifp.getSectionContent pet_params.HTTP_DATA).2.lookup db_type = some TDBtype →
      logsStarts m_ifp out = true →
      LogsEnds m_ifp out d (.ok true) { d with m_tdbworker_logs := some worker }

theorem initTDBLogWorker_ends (h : (replay steps).m_ifp = some m_ifp) :
    LogsEnds m_ifp out (replay steps) (initTDBLogWorker out steps).1
      (replay (initTDBLogWorker out steps).2) := by
  cases htype : (m_ifp.getSectionContent pet_params.HTTP_DATA).2.lookup db_type with
  | none =>
    simp only [initTDBLogWorker, bind_run, members_run, h, at_run, htype]
    exact .noSection htype
  | some TDBtype =>
    cases hselect : selectTDB TDBtype with
    | none =>
      have hlogs : logsStarts m_ifp out = false := by
        rw [logsStarts, workerStarts, typeOf, htype, Option.bind_some, hselect]
      simp only [initTDBLogWorker, bind_run, members_run, h, at_run, htype, hselect, act_run,
        pure_run]
      simp only [replay_snoc, Step.apply]
      exact .unknownType htype hlogs
    | some type =>
      have hlogs : logsStarts m_ifp out = iworker.initWorker
          ⟨type, (m_ifp.getSectionContent pet_params.LOGS_TDB).2⟩ out.logsConnects := by
        rw [logsStarts, workerStarts, typeOf, htype, Option.bind_some, hselect]
      cases hworker : iworker.initWorker
          ⟨type, (m_ifp.getSectionContent pet_params.LOGS_TDB).2⟩ out.logsConnects with
      | false =>
        simp only [initTDBLogWorker, bind_run, members_run, h, at_run, htype, hselect, act_run,
          pure_run, hworker, if_true]
        simp only [replay_snoc, Step.apply]
        exact .workerFailed _ htype (hlogs.trans hworker)
      | true =>
        simp only [initTDBLogWorker, bind_run, members_run, h, at_run, htype, hselect, act_run,
          pure_run, hworker, Bool.true_eq_false, if_false]
        simp only [replay_snoc, Step.apply]
        exact .started _ htype (hlogs.trans hworker)

/-- What `initTDBLogWorker` answers, and the members behind it. -/
structure LogsInit (m_ifp : iniFileParser) (out : Outcomes) (steps : List Step)
    (r : Except Exception Bool × List Step) : Prop where
  result : r.1 =
    if ((m_ifp.getSectionContent pet_params.HTTP_DATA).2.lookup db_type).isSome then
      .ok (logsStarts m_ifp out)
    else .error .out_of_range
  logs : r.1 = .ok true → (replay r.2).m_tdbworker_logs.isSome = true
  http : (replay r.2).m_httpServer = (replay steps).m_httpServer ∧
    (replay r.2).m_httpStartedOK = (replay steps).m_httpStartedOK

theorem initTDBLogWorker_spec (h : (replay steps).m_ifp = some m_ifp) :
    LogsInit m_ifp out steps (initTDBLogWorker out steps) := by
  have hends : LogsEnds m_ifp out (replay steps) (initTDBLogWorker out steps).1
      (replay (initTDBLogWorker out steps).2) := initTDBLogWorker_ends h
  generalize initTDBLogWorker out steps = r at hends
  obtain ⟨answer, steps'⟩ := r
  generalize hd : replay steps' = d at hends
  cases hends with
  | noSection htype =>
    constructor <;> simp [htype, hd]
  | unknownType htype hlogs =>
    obtain ⟨n, hn⟩ := throughLogger_eq (replay steps)
    constructor <;> simp [htype, hlogs, hd, hn]
  | workerFailed w htype hlogs =>
    obtain ⟨n, hn⟩ := throughLogger_eq { replay steps with m_tdbworker_logs := some w }
    constructor <;> simp [htype, hlogs, hd, hn]
  | started w htype hlogs =>
    constructor <;> simp [htype, hlogs, hd]

/-- Both daemons continue with `rest` when the base daemon has been initialised. -/
theorem afterBaseDaemon_result (h : (replay steps).m_ifp = some m_ifp) (rest : Init Bool)
    {result : Except Exception Bool}
    (hrest : ∀ steps₁, BaseInit m_ifp out steps (.ok true, steps₁) →
      (rest steps₁).1 = result) :
    (Prod.fst <| (do
      let ok ← initBaseDaemon out
      if ok = false then do
        act (.cerr "Ошибка в инициализации базового демона!".toList)
        pure false
      else do
        let ok ← pointersAreValid
        if ok = false then pure false else rest : Init Bool) steps) =
      if loggerStarts m_ifp out then
        if ((m_ifp.getSectionContent pet_params.FILE_OBSERVER).2.lookup db_type).isSome then
          if contentStarts m_ifp out then result else .ok false
        else .error .out_of_range
      else .ok false := by
  have hinit : BaseInit m_ifp out steps (initBaseDaemon out steps) := initBaseDaemon_spec h
  generalize hr : initBaseDaemon out steps = r at hinit
  obtain ⟨answer, steps₁⟩ := r
  have hanswer := hinit.result
  cases hlogger : loggerStarts m_ifp out with
  | false =>
    simp only [hlogger, Bool.false_eq_true, if_false] at hanswer ⊢
    subst hanswer
    simp only [bind_run, hr, if_true, act_run, pure_run]
  | true =>
    have hm_pl : (m_ifp.getSectionContent pet_params.PET_LOGGER).1 = true :=
      (Bool.and_eq_true_iff.mp hlogger).1
    cases htype : ((m_ifp.getSectionContent pet_params.FILE_OBSERVER).2.lookup db_type).isSome with
    | false =>
      simp only [hlogger, htype, Bool.false_eq_true, if_false, if_true] at hanswer ⊢
      subst hanswer
      simp only [bind_run, hr]
    | true =>
      cases hcontent : contentStarts m_ifp out with
      | false =>
        simp only [hlogger, htype, hcontent, Bool.false_eq_true, if_false, if_true] at hanswer ⊢
        subst hanswer
        simp only [bind_run, hr, if_true, act_run, pure_run]
      | true =>
        simp only [hlogger, htype, hcontent, if_true] at hanswer ⊢
        subst hanswer
        -- both pointers have been set when the base daemon answers `true`
        have hpointers : pointersAreValid steps₁ = (.ok true, steps₁) :=
          pointersAreValid_run (by rw [hinit.m_pl, hm_pl, Bool.or_true]) (hinit.content rfl)
        simp only [bind_run, hr, Bool.true_eq_false, if_false, hpointers]
        exact hrest steps₁ hinit

/-- What `initServer` answers. -/
theorem initServer_result (h : (replay steps).m_ifp = some m_ifp) :
    (initServer out steps).1 =
      if loggerStarts m_ifp out then
        if ((m_ifp.getSectionContent pet_params.FILE_OBSERVER).2.lookup db_type).isSome then
          if contentStarts m_ifp out then
            if ((m_ifp.getSectionContent pet_params.HTTP_DATA).2.lookup db_type).isSome then
              .ok (logsStarts m_ifp out && ((replay steps).m_httpServer &&
                (replay steps).m_httpStartedOK))
            else .error .out_of_range
          else .ok false
        else .error .out_of_range
      else .ok false := by
  unfold initServer
  apply afterBaseDaemon_result h
  intro steps₁ hinit
  have hlogs : LogsInit m_ifp out steps₁ (initTDBLogWorker out steps₁) :=
    initTDBLogWorker_spec (hinit.m_ifp.trans h)
  generalize hr : initTDBLogWorker out steps₁ = r at hlogs
  obtain ⟨answer, steps₂⟩ := r
  have hanswer := hlogs.result
  have hserver : (replay steps₂).m_httpServer = (replay steps).m_httpServer :=
    hlogs.http.1.trans hinit.http.1
  have hstarted : (replay steps₂).m_httpStartedOK = (replay steps).m_httpStartedOK :=
    hlogs.http.2.trans hinit.http.2
  cases htype : ((m_ifp.getSectionContent pet_params.HTTP_DATA).2.lookup db_type).isSome with
  | false =>
    simp only [htype, Bool.false_eq_true, if_false] at hanswer ⊢
    subst hanswer
    simp only [bind_run, hr]
  | true =>
    simp only [htype, if_true] at hanswer ⊢
    subst hanswer
    cases hstart : logsStarts m_ifp out with
    | false =>
      simp only [bind_run, hr, hstart, members_run, pure_run, true_or, if_true, Bool.false_and]
    | true =>
      have hworker : (replay steps₂).m_tdbworker_logs.isNone = false := by
        simpa using hlogs.logs (by rw [hstart])
      simp only [bind_run, hr, hstart, members_run, ite_run, hworker, Bool.true_eq_false,
        Bool.false_eq_true, or_self, if_false, hserver, hstarted, Bool.true_and]
      cases hhttp : (replay steps).m_httpServer with
      | false =>
        simp only [true_or, if_true, act_run, pure_run, Bool.false_and]
      | true =>
        cases hok : (replay steps).m_httpStartedOK with
        | false =>
          simp only [or_true, if_true, act_run, pure_run, Bool.and_false]
        | true =>
          simp only [initializeHTTP_Handler, bind_run, members_run, ite_run, hstarted, hok,
            act_run, pure_run, Bool.true_eq_false, or_self, if_true, if_false, Bool.and_self]

/-- What `initFileWatch` answers. -/
theorem initFileWatch_result (h : (replay steps).m_ifp = some m_ifp) :
    (initFileWatch out steps).1 =
      if loggerStarts m_ifp out then
        if ((m_ifp.getSectionContent pet_params.FILE_OBSERVER).2.lookup db_type).isSome then
          if contentStarts m_ifp out then
            .ok ((replay steps).isInitDone.1 && (replay steps).isInitDone.2)
          else .ok false
        else .error .out_of_range
      else .ok false := by
  unfold initFileWatch
  apply afterBaseDaemon_result h
  intro steps₁ hinit
  simp only [bind_run, members_run, ite_run, hinit.isInitDone]
  cases hdelete : (replay steps).isInitDone.1 with
  | false =>
    simp only [true_or, if_true, act_run, pure_run, Bool.false_and]
  | true =>
    cases hadd : (replay steps).isInitDone.2 with
    | false =>
      simp only [or_true, if_true, act_run, pure_run, Bool.and_false]
    | true =>
      simp only [Bool.true_eq_false, or_self, if_false, act_run, pure_run, Bool.and_self]

end Functions

/-! ## The constructors -/

section Constructors

variable (m_ifp : iniFileParser) (serviceName : Text) (out : Outcomes)

/-- The constructor of `httpServer` logs through the null pointer when `event_init` fails. -/
theorem httpServer_run :
    (httpServer m_ifp serviceName out []).1 = .ok () ∧
      replay (httpServer m_ifp serviceName out []).2 = { Members.initial with
        m_ifp := some m_ifp
        m_serviceName := serviceName
        handlers := [.SIGINT, .SIGTERM]
        nullCalls := if out.event_init then 0 else 1
        m_eventBase := out.event_init
        m_httpServer := out.event_init && out.evhttp_start
        m_httpStartedOK := out.event_init && out.evhttp_start } := by
  cases hinit : out.event_init with
  | false =>
    simp only [httpServer, baseDaemon, httpStart, initializeLibevent, bind_run, act_run, ite_run,
      pure_run, hinit, if_true]
    exact ⟨trivial, rfl⟩
  | true =>
    simp only [httpServer, baseDaemon, httpStart, initializeLibevent, bind_run, act_run, ite_run,
      pure_run, hinit, Bool.true_eq_false, if_false]
    exact ⟨trivial, rfl⟩

theorem fileWatch_run :
    (fileWatch m_ifp serviceName out []).1 =
        (if out.watchersConstructed then .ok () else .error .construction) ∧
      replay (fileWatch m_ifp serviceName out []).2 = { Members.initial with
        m_ifp := some m_ifp
        m_serviceName := serviceName
        handlers := [.SIGINT, .SIGTERM]
        isInitDone := if out.watchersConstructed then out.isInitDone else (false, false) } := by
  cases hconstructed : out.watchersConstructed with
  | false =>
    simp only [fileWatch, baseDaemon, bind_run, act_run, throwException_run, hconstructed, if_true,
      Bool.false_eq_true, if_false]
    exact ⟨trivial, rfl⟩
  | true =>
    simp only [fileWatch, baseDaemon, bind_run, act_run, hconstructed, if_true,
      Bool.true_eq_false, if_false]
    exact ⟨trivial, rfl⟩

/-- The members that the initialisers find after the constructor of `httpServer`. -/
theorem httpServer_members :
    (replay (httpServer m_ifp serviceName out []).2).m_ifp = some m_ifp ∧
      ((replay (httpServer m_ifp serviceName out []).2).m_httpServer &&
        (replay (httpServer m_ifp serviceName out []).2).m_httpStartedOK) =
          (out.event_init && out.evhttp_start) := by
  rw [(httpServer_run m_ifp serviceName out).2]
  exact ⟨rfl, Bool.and_self _⟩

/-- The members that the initialisers find after the constructor of `fileWatch`. -/
theorem fileWatch_members :
    (replay (fileWatch m_ifp serviceName out []).2).m_ifp = some m_ifp ∧
      ((replay (fileWatch m_ifp serviceName out []).2).isInitDone.1 &&
        (replay (fileWatch m_ifp serviceName out []).2).isInitDone.2) =
          (out.watchersConstructed && (out.isInitDone.1 && out.isInitDone.2)) := by
  rw [(fileWatch_run m_ifp serviceName out).2]
  refine ⟨rfl, ?_⟩
  cases out.watchersConstructed with
  | false => rfl
  | true => rfl

end Constructors

/-! ## Sections -/

section Sections

variable {m_ifp : iniFileParser} {typeSection tdbSection : UInt8} {connects : Bool}
  {pair : params_pair_t}

/-- `at("db_type")` succeeds exactly on a complete section. -/
theorem db_type_isSome_iff (hpair : selectedParamsPair typeSection = some pair)
    (hkey : db_type ∈ pair.2) :
    ((m_ifp.getSectionContent typeSection).2.lookup db_type).isSome = true ↔
      m_ifp.Complete typeSection := by
  constructor
  · intro h
    by_contra hc
    rw [getSectionContent_of_not_complete hc] at h
    cases h
  · intro h
    exact lookup_of_complete hpair h hkey

theorem FILE_OBSERVER_db_type :
    ((m_ifp.getSectionContent pet_params.FILE_OBSERVER).2.lookup db_type).isSome = true ↔
      m_ifp.Complete pet_params.FILE_OBSERVER :=
  db_type_isSome_iff rfl (List.mem_cons_of_mem _ (List.mem_singleton_self _))

theorem HTTP_DATA_db_type :
    ((m_ifp.getSectionContent pet_params.HTTP_DATA).2.lookup db_type).isSome = true ↔
      m_ifp.Complete pet_params.HTTP_DATA :=
  db_type_isSome_iff rfl
    (List.mem_cons_of_mem _ (List.mem_cons_of_mem _ (List.mem_singleton_self _)))

theorem typeOf_isSome_of_workerStarts
    (h : workerStarts m_ifp typeSection tdbSection connects = true) :
    (typeOf m_ifp typeSection).isSome = true := by
  unfold workerStarts at h
  cases htype : typeOf m_ifp typeSection with
  | none =>
    rw [htype] at h
    cases h
  | some type => rfl

/-- The worker of SQLite looks at none of its parameters, the worker of PostgreSQL at all. -/
theorem workerStarts_complete (h : workerStarts m_ifp typeSection tdbSection connects = true) :
    typeOf m_ifp typeSection = some .SQLITE ∨ m_ifp.Complete tdbSection := by
  unfold workerStarts at h
  cases htype : typeOf m_ifp typeSection with
  | none =>
    rw [htype] at h
    cases h
  | some type =>
    cases type with
    | SQLITE => exact Or.inl rfl
    | POSTGRESQL =>
      right
      by_contra hc
      rw [htype] at h
      simp only [iworker.initWorker, getSectionContent_of_not_complete hc] at h
      simp at h

end Sections

/-! ## The refusal -/

/-- What the watching daemon needs. -/
structure WatchReady (m_ifp : iniFileParser) (out : Outcomes) : Prop where
  PET_LOGGER : m_ifp.Complete pet_params.PET_LOGGER
  FILE_OBSERVER : m_ifp.Complete pet_params.FILE_OBSERVER
  CONTENT_TDB : m_ifp.Complete pet_params.CONTENT_TDB
  contentType : (typeOf m_ifp pet_params.FILE_OBSERVER).isSome = true
  logger : out.loggerInit = true
  contentWorker : contentStarts m_ifp out = true

/-- What the http daemon needs. -/
structure HttpReady (m_ifp : iniFileParser) (out : Outcomes) : Prop extends
    WatchReady m_ifp out where
  HTTP_DATA : m_ifp.Complete pet_params.HTTP_DATA
  LOGS_TDB : m_ifp.Complete pet_params.LOGS_TDB
  logsType : (typeOf m_ifp pet_params.HTTP_DATA).isSome = true
  logsWorker : logsStarts m_ifp out = true

/-- No exception, and `true` only when the daemon has what it needs. -/
def Refuses (result : Except Exception Bool) (Ready : Prop) : Prop :=
  ∃ answer, result = .ok answer ∧ (answer = true → Ready)

/-- The sections of the types are there when they are reached, and with everything else in order
the parameters of SQLite are there as well. -/
structure HttpChecked (m_ifp : iniFileParser) (out : Outcomes) : Prop where
  FILE_OBSERVER : loggerStarts m_ifp out = true → m_ifp.Complete pet_params.FILE_OBSERVER
  HTTP_DATA : loggerStarts m_ifp out = true → contentStarts m_ifp out = true →
    m_ifp.Complete pet_params.HTTP_DATA
  parameters : loggerStarts m_ifp out = true → contentStarts m_ifp out = true →
    logsStarts m_ifp out = true → (out.event_init && out.evhttp_start) = true →
      (typeOf m_ifp pet_params.FILE_OBSERVER = some .SQLITE →
        m_ifp.Complete pet_params.CONTENT_TDB) ∧
      (typeOf m_ifp pet_params.HTTP_DATA = some .SQLITE → m_ifp.Complete pet_params.LOGS_TDB)

structure WatchChecked (m_ifp : iniFileParser) (out : Outcomes) : Prop where
  FILE_OBSERVER : loggerStarts m_ifp out = true → m_ifp.Complete pet_params.FILE_OBSERVER
  parameters : loggerStarts m_ifp out = true → contentStarts m_ifp out = true →
    (out.watchersConstructed && (out.isInitDone.1 && out.isInitDone.2)) = true →
      typeOf m_ifp pet_params.FILE_OBSERVER = some .SQLITE → m_ifp.Complete pet_params.CONTENT_TDB

theorem refuses_ok_iff {answer : Bool} {Ready : Prop} :
    Refuses (.ok answer) Ready ↔ (answer = true → Ready) := by
  constructor
  · rintro ⟨b, hb, h⟩
    cases hb
    exact h
  · intro h
    exact ⟨answer, rfl, h⟩

theorem not_refuses_error {e : Exception} {Ready : Prop} : ¬ Refuses (.error e) Ready := by
  rintro ⟨b, hb, -⟩
  cases hb

section Refusal

variable {m_ifp : iniFileParser} {out : Outcomes}

theorem loggerStarts_iff :
    loggerStarts m_ifp out = true ↔
      m_ifp.Complete pet_params.PET_LOGGER ∧ out.loggerInit = true := by
  rw [← getSectionContent_fst_iff]
  exact Bool.and_eq_true_iff

/-- With the tests passed, the daemon lacks at most the parameters of its database. -/
theorem watchReady_iff (hlogger : loggerStarts m_ifp out = true)
    (hobserver : m_ifp.Complete pet_params.FILE_OBSERVER)
    (hcontent : contentStarts m_ifp out = true) :
    WatchReady m_ifp out ↔
      (typeOf m_ifp pet_params.FILE_OBSERVER = some .SQLITE →
        m_ifp.Complete pet_params.CONTENT_TDB) := by
  constructor
  · intro h _
    exact h.CONTENT_TDB
  · intro h
    obtain ⟨hpet, hinit⟩ := loggerStarts_iff.mp hlogger
    have hsection : m_ifp.Complete pet_params.CONTENT_TDB :=
      (workerStarts_complete hcontent).elim h id
    exact ⟨hpet, hobserver, hsection, typeOf_isSome_of_workerStarts hcontent, hinit, hcontent⟩

theorem httpReady_iff (hlogger : loggerStarts m_ifp out = true)
    (hobserver : m_ifp.Complete pet_params.FILE_OBSERVER)
    (hcontent : contentStarts m_ifp out = true) (hdata : m_ifp.Complete pet_params.HTTP_DATA)
    (hlogs : logsStarts m_ifp out = true) :
    HttpReady m_ifp out ↔
      (typeOf m_ifp pet_params.FILE_OBSERVER = some .SQLITE →
        m_ifp.Complete pet_params.CONTENT_TDB) ∧
      (typeOf m_ifp pet_params.HTTP_DATA = some .SQLITE →
        m_ifp.Complete pet_params.LOGS_TDB) := by
  rw [← watchReady_iff hlogger hobserver hcontent]
  constructor
  · intro h
    exact ⟨h.toWatchReady, fun _ => h.LOGS_TDB⟩
  · rintro ⟨hwatch, h⟩
    have hsection : m_ifp.Complete pet_params.LOGS_TDB :=
      (workerStarts_complete hlogs).elim h id
    exact ⟨hwatch, hdata, hsection, typeOf_isSome_of_workerStarts hlogs, hlogs⟩

/-- The part of the answer that both daemons share. -/
theorem refuses_base_iff {result : Except Exception Bool} {Ready : Prop} :
    Refuses
        (if loggerStarts m_ifp out then
          if ((m_ifp.getSectionContent pet_params.FILE_OBSERVER).2.lookup db_type).isSome then
            if contentStarts m_ifp out then result else .ok false
          else .error .out_of_range
        else .ok false) Ready ↔
      (loggerStarts m_ifp out = true → m_ifp.Complete pet_params.FILE_OBSERVER ∧
        (contentStarts m_ifp out = true → Refuses result Ready)) := by
  cases hlogger : loggerStarts m_ifp out with
  | false => simp [refuses_ok_iff]
  | true =>
    by_cases hobserver : m_ifp.Complete pet_params.FILE_OBSERVER
    · rw [if_pos rfl, if_pos (FILE_OBSERVER_db_type.mpr hobserver)]
      cases hcontent : contentStarts m_ifp out with
      | false => simp [refuses_ok_iff, hobserver]
      | true => simp [hobserver]
    · rw [if_pos rfl, if_neg (mt FILE_OBSERVER_db_type.mp hobserver)]
      simp [not_refuses_error, hobserver]

theorem initServer_refuses_iff (serviceName : Text) :
    Refuses (initServer out (httpServer m_ifp serviceName out []).2).1 (HttpReady m_ifp out) ↔
      HttpChecked m_ifp out := by
  obtain ⟨hm_ifp, hstarted⟩ := httpServer_members m_ifp serviceName out
  rw [initServer_result hm_ifp, refuses_base_iff, hstarted]
  constructor
  · intro h
    have hdata : loggerStarts m_ifp out = true → contentStarts m_ifp out = true →
        m_ifp.Complete pet_params.HTTP_DATA := by
      intro hlogger hcontent
      by_contra hc
      have hrefuses := (h hlogger).2 hcontent
      rw [if_neg (mt HTTP_DATA_db_type.mp hc)] at hrefuses
      exact not_refuses_error hrefuses
    refine ⟨fun hlogger => (h hlogger).1, hdata, ?_⟩
    intro hlogger hcontent hlogs hhttp
    have hcomplete := hdata hlogger hcontent
    have hrefuses := (h hlogger).2 hcontent
    rw [if_pos (HTTP_DATA_db_type.mpr hcomplete), refuses_ok_iff, hlogs, hhttp] at hrefuses
    exact (httpReady_iff hlogger (h hlogger).1 hcontent hcomplete hlogs).mp (hrefuses rfl)
  · intro h hlogger
    refine ⟨h.FILE_OBSERVER hlogger, ?_⟩
    intro hcontent
    have hcomplete := h.HTTP_DATA hlogger hcontent
    rw [if_pos (HTTP_DATA_db_type.mpr hcomplete), refuses_ok_iff]
    intro hanswer
    obtain ⟨hlogs, hhttp⟩ := Bool.and_eq_true_iff.mp hanswer
    apply (httpReady_iff hlogger (h.FILE_OBSERVER hlogger) hcontent hcomplete hlogs).mpr
    exact h.parameters hlogger hcontent hlogs hhttp

theorem initFileWatch_refuses_iff (serviceName : Text) :
    Refuses (initFileWatch out (fileWatch m_ifp serviceName out []).2).1 (WatchReady m_ifp out) ↔
      WatchChecked m_ifp out := by
  obtain ⟨hm_ifp, hwatchers⟩ := fileWatch_members m_ifp serviceName out
  rw [initFileWatch_result hm_ifp, refuses_base_iff, hwatchers, refuses_ok_iff]
  constructor
  · intro h
    refine ⟨fun hlogger => (h hlogger).1, ?_⟩
    intro hlogger hcontent hinit
    exact (watchReady_iff hlogger (h hlogger).1 hcontent).mp ((h hlogger).2 hcontent hinit)
  · intro h hlogger
    refine ⟨h.FILE_OBSERVER hlogger, ?_⟩
    intro hcontent hinit
    apply (watchReady_iff hlogger (h.FILE_OBSERVER hlogger) hcontent).mpr
    exact h.parameters hlogger hcontent hinit

end Refusal

/-- A bad configuration is refused by the return value exactly when the sections whose flag is
dropped are there. -/
theorem refuses_iff (m_ifp : iniFileParser) (serviceName : Text) (out : Outcomes) :
    (Refuses (initServer out (httpServer m_ifp serviceName out []).2).1 (HttpReady m_ifp out) ↔
      HttpChecked m_ifp out) ∧
    (Refuses (initFileWatch out (fileWatch m_ifp serviceName out []).2).1 (WatchReady m_ifp out) ↔
      WatchChecked m_ifp out) :=
  ⟨initServer_refuses_iff serviceName, initFileWatch_refuses_iff serviceName⟩

/-! A file that lacks the section of the observer, which the http daemon reads for the type of its
database. -/

def httpOnlyFile : IniFile where
  value sectionName key :=
    if sectionName = FILE_OBSERVER_PARAMS.1 then none
    else if key = db_type then some sqliteTDB
    else some "1".toList

def httpOnlyParser : iniFileParser where
  m_iniFile := some httpOnlyFile

/-- Everything outside succeeds. -/
def Outcomes.fine : Outcomes where
  event_init := true
  evhttp_start := true
  watchersConstructed := true
  isInitDone := (true, true)
  loggerInit := true
  contentConnects := true
  logsConnects := true

/-- `initServer` throws on that file. -/
theorem not_refuses_httpOnlyFile :
    ¬ ∀ (m_ifp : iniFileParser) (serviceName : Text) (out : Outcomes),
      Refuses (initServer out (httpServer m_ifp serviceName out []).2).1 (HttpReady m_ifp out) ∧
      Refuses (initFileWatch out (fileWatch m_ifp serviceName out []).2).1
        (WatchReady m_ifp out) := by
  intro h
  have hchecked : HttpChecked httpOnlyParser .fine :=
    (initServer_refuses_iff []).mp (h httpOnlyParser [] .fine).1
  have hobserver : httpOnlyParser.Complete pet_params.FILE_OBSERVER :=
    hchecked.FILE_OBSERVER (by decide)
  rw [← getSectionContent_fst_iff] at hobserver
  revert hobserver
  decide

end PetProject.Daemon
