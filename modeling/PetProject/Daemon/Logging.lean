import Mathlib.Data.List.Infix
import PetProject.Daemon.Life

/-!
# Calls through the pointer to the logger

`initBaseDaemon` creates the logger. Before it `initializeLibevent` logs a failure, and after a
failed start the destructor logs the end of the daemon, both without a test of `m_pl`.
`logger_exists_iff` says for which daemons all calls through the pointer, over the whole life, find
the logger.
-/

set_option autoImplicit false

namespace PetProject.Daemon

open PetProject.Foundation.TextSearch PetProject.Foundation.Transition PetProject.Workers

/-! ## Functions that find the logger -/

section Keeps

variable {α β : Type}

/-- With a logger before it, the function makes no bad call and leaves the logger in place. -/
def Keeps (x : Init α) : Prop :=
  ∀ steps, (replay steps).m_pl = true →
    (replay (x steps).2).m_pl = true ∧ (replay (x steps).2).nullCalls = (replay steps).nullCalls

theorem keeps_pure (a : α) : Keeps (pure a : Init α) :=
  fun _ h => ⟨h, rfl⟩

theorem keeps_members : Keeps members :=
  fun _ h => ⟨h, rfl⟩

theorem keeps_at (params : params_container_t) (key : Text) : Keeps (params.at key) := by
  intro steps h
  rw [at_run]
  cases params.lookup key with
  | none => exact ⟨h, rfl⟩
  | some v => exact ⟨h, rfl⟩

theorem keeps_bind {x : Init α} {f : α → Init β} (hx : Keeps x) (hf : ∀ a, Keeps (f a)) :
    Keeps (x >>= f) := by
  intro steps h
  rw [bind_run]
  obtain ⟨hpl, hcalls⟩ := hx steps h
  generalize x steps = r at hpl hcalls
  obtain ⟨answer, steps'⟩ := r
  cases answer with
  | ok a =>
    obtain ⟨hpl', hcalls'⟩ := hf a steps' hpl
    exact ⟨hpl', hcalls'.trans hcalls⟩
  | error e => exact ⟨hpl, hcalls⟩

theorem keeps_ite {c : Prop} [Decidable c] {x y : Init α} (hx : Keeps x) (hy : Keeps y) :
    Keeps (if c then x else y) := by
  split
  · exact hx
  · exact hy

/-- Every step but `deleteLogger` keeps the logger. -/
def Step.leavesLogger : Step → Bool
  | .deleteLogger => false
  | _ => true

theorem apply_leavesLogger {a : Step} (ha : a.leavesLogger = true) {d : Members}
    (hd : d.m_pl = true) : (a.apply d).m_pl = true ∧ (a.apply d).nullCalls = d.nullCalls := by
  cases a with
  | deleteLogger => cases ha
  | makeLogger => exact ⟨rfl, rfl⟩
  | initLogger =>
    simp only [Step.apply, Members.throughLogger, hd, if_true, and_self]
  | FAST_LOG message =>
    simp only [Step.apply, Members.throughLogger, hd, if_true, and_self]
  | _ => exact ⟨hd, rfl⟩

theorem keeps_act {a : Step} (ha : a.leavesLogger = true) : Keeps (act a) := by
  intro steps h
  rw [act_run]
  simp only [replay_append, List.foldl_cons, List.foldl_nil]
  exact apply_leavesLogger ha h

theorem keeps_act_bind {a : Step} (ha : a.leavesLogger = true) {x : Init β} (hx : Keeps x) :
    Keeps (act a >>= fun _ => x) :=
  keeps_bind (keeps_act ha) fun _ => hx

end Keeps

theorem keeps_pointersAreValid : Keeps pointersAreValid := by
  unfold pointersAreValid
  apply keeps_bind keeps_members
  intro d
  apply keeps_ite
  · exact keeps_act_bind rfl (keeps_act_bind rfl (keeps_pure false))
  · exact keeps_pure true

theorem keeps_initTDBLogWorker (out : Outcomes) : Keeps (initTDBLogWorker out) := by
  unfold initTDBLogWorker
  apply keeps_bind keeps_members
  intro d
  cases d.m_ifp with
  | none => exact keeps_pure false
  | some m_ifp =>
    apply keeps_bind (keeps_at _ _)
    intro TDBtype
    cases selectTDB TDBtype with
    | none => exact keeps_act_bind rfl (keeps_act_bind rfl (keeps_pure false))
    | some type =>
      apply keeps_act_bind rfl
      apply keeps_ite
      · exact keeps_act_bind rfl (keeps_act_bind rfl (keeps_pure false))
      · exact keeps_act_bind rfl (keeps_pure true)

theorem keeps_initializeHTTP_Handler : Keeps initializeHTTP_Handler := by
  unfold initializeHTTP_Handler
  apply keeps_bind keeps_members
  intro d
  apply keeps_ite
  · exact keeps_act_bind rfl (keeps_pure true)
  · exact keeps_pure false

/-! ## The initialisers -/

section Initialisers

variable {m_ifp : iniFileParser} {out : Outcomes} {steps : List Step}

/-- The members behind an initialiser: the logger is there if its section is complete, and no call
was bad. -/
def CreatesLogger (m_ifp : iniFileParser) (steps : List Step) (x : Init Bool) : Prop :=
  (replay (x steps).2).m_pl =
      ((replay steps).m_pl || (m_ifp.getSectionContent pet_params.PET_LOGGER).1) ∧
    (replay (x steps).2).nullCalls = (replay steps).nullCalls

/-- What follows `initBaseDaemon` runs with the logger. -/
theorem createsLogger_afterBaseDaemon (h : (replay steps).m_ifp = some m_ifp) {rest : Init Bool}
    (hrest : Keeps rest) :
    CreatesLogger m_ifp steps (do
      let ok ← initBaseDaemon out
      if ok = false then do
        act (.cerr "Ошибка в инициализации базового демона!".toList)
        pure false
      else do
        let ok ← pointersAreValid
        if ok = false then pure false else rest) := by
  have hinit : BaseInit m_ifp out steps (initBaseDaemon out steps) := initBaseDaemon_spec h
  generalize hr : initBaseDaemon out steps = r at hinit
  obtain ⟨answer, steps₁⟩ := r
  have hanswer := hinit.result
  unfold CreatesLogger
  cases answer with
  | error e =>
    simp only [bind_run, hr]
    exact ⟨hinit.m_pl, hinit.nullCalls⟩
  | ok answer =>
    cases answer with
    | false =>
      simp only [bind_run, hr, if_true, act_run, pure_run, replay_append, List.foldl_cons,
        List.foldl_nil, Step.apply]
      exact ⟨hinit.m_pl, hinit.nullCalls⟩
    | true =>
      have hlogger : (m_ifp.getSectionContent pet_params.PET_LOGGER).1 = true := by
        cases hlogger : (m_ifp.getSectionContent pet_params.PET_LOGGER).1 with
        | true => rfl
        | false =>
          have hstarts : loggerStarts m_ifp out = false := by
            rw [loggerStarts, hlogger, Bool.false_and]
          rw [hstarts] at hanswer
          cases hanswer
      have hkeeps : Keeps (do
          let ok ← pointersAreValid
          if ok = false then pure false else rest) :=
        keeps_bind keeps_pointersAreValid fun ok => keeps_ite (keeps_pure false) hrest
      have hpl : (replay steps₁).m_pl = true := by
        rw [hinit.m_pl, hlogger, Bool.or_true]
      obtain ⟨hpl', hcalls⟩ := hkeeps steps₁ hpl
      rw [bind_run, hr]
      simp only [Bool.true_eq_false, if_false]
      exact ⟨by rw [hpl', hlogger, Bool.or_true], hcalls.trans hinit.nullCalls⟩

theorem createsLogger_initServer (h : (replay steps).m_ifp = some m_ifp) :
    CreatesLogger m_ifp steps (initServer out) := by
  apply createsLogger_afterBaseDaemon h
  apply keeps_bind (keeps_initTDBLogWorker out)
  intro ok
  apply keeps_bind keeps_members
  intro d
  apply keeps_ite (keeps_pure false)
  apply keeps_ite
  · exact keeps_act_bind rfl (keeps_pure false)
  · apply keeps_bind keeps_initializeHTTP_Handler
    intro ok
    apply keeps_ite
    · exact keeps_act_bind rfl (keeps_pure false)
    · exact keeps_act_bind rfl (keeps_pure true)

theorem createsLogger_initFileWatch (h : (replay steps).m_ifp = some m_ifp) :
    CreatesLogger m_ifp steps (initFileWatch out) := by
  apply createsLogger_afterBaseDaemon h
  apply keeps_bind keeps_members
  intro d
  apply keeps_ite
  · exact keeps_act_bind rfl (keeps_pure false)
  · exact keeps_act_bind rfl (keeps_act_bind rfl (keeps_pure true))

end Initialisers

/-! ## The start -/

/-- The constructor does not fail: `event_init` of the http daemon, the watchers and threads of the
other one. -/
def Setup.constructed (c : Setup) : Bool :=
  match c.kind with
  | .httpServer => c.out.event_init
  | .fileWatch => c.out.watchersConstructed

/-- The logger is created, and the constructor has nothing to log. -/
def Setup.LoggerCreated (c : Setup) : Prop :=
  c.m_ifp.Complete pet_params.PET_LOGGER ∧ c.constructed = true

section Start

variable (m_ifp : iniFileParser) (serviceName : Text) (out : Outcomes)

/-- The only call through `m_pl` before `initServer`. -/
theorem httpServer_logger :
    (httpServer m_ifp serviceName out []).1 = .ok () ∧
      (replay (httpServer m_ifp serviceName out []).2).m_pl = false ∧
      (replay (httpServer m_ifp serviceName out []).2).nullCalls =
        if out.event_init then 0 else 1 := by
  obtain ⟨hresult, hmembers⟩ := httpServer_run m_ifp serviceName out
  rw [hmembers]
  exact ⟨hresult, rfl, rfl⟩

theorem fileWatch_logger :
    (fileWatch m_ifp serviceName out []).1 =
        (if out.watchersConstructed then .ok () else .error .construction) ∧
      (replay (fileWatch m_ifp serviceName out []).2).m_pl = false ∧
      (replay (fileWatch m_ifp serviceName out []).2).nullCalls = 0 := by
  obtain ⟨hresult, hmembers⟩ := fileWatch_run m_ifp serviceName out
  rw [hmembers]
  exact ⟨hresult, rfl, rfl⟩

end Start

section Life

variable {c : Setup}

/-- The initialiser that `main` calls after the constructor, on the steps of the constructor. -/
theorem start_eq (h : c.constructed = true ∨ c.kind = .httpServer) :
    ∃ steps init, c.start [] = init steps ∧ CreatesLogger c.m_ifp steps init ∧
      (replay steps).m_pl = false ∧
      (replay steps).nullCalls = (if c.constructed then 0 else 1) ∧
      (loggerStarts c.m_ifp c.out = false → (init steps).1 = .ok false) := by
  obtain ⟨kind, m_ifp, serviceName, out⟩ := c
  cases kind with
  | httpServer =>
    obtain ⟨hresult, hm_pl, hcalls⟩ := httpServer_logger m_ifp serviceName out
    have hm_ifp := (httpServer_members m_ifp serviceName out).1
    refine ⟨(httpServer m_ifp serviceName out []).2, initServer out, ?_,
      createsLogger_initServer hm_ifp, hm_pl, hcalls, ?_⟩
    · simp only [Setup.start, bind_run]
      rw [← Prod.eta (httpServer m_ifp serviceName out []), hresult]
    · intro hlogger
      rw [initServer_result hm_ifp, hlogger]
      rfl
  | fileWatch =>
    have hconstructed : out.watchersConstructed = true := by
      rcases h with h | h
      · exact h
      · cases h
    obtain ⟨hresult, hm_pl, hcalls⟩ := fileWatch_logger m_ifp serviceName out
    have hm_ifp := (fileWatch_members m_ifp serviceName out).1
    refine ⟨(fileWatch m_ifp serviceName out []).2, initFileWatch out, ?_,
      createsLogger_initFileWatch hm_ifp, hm_pl, ?_, ?_⟩
    · rw [hconstructed, if_pos rfl] at hresult
      simp only [Setup.start, bind_run]
      rw [← Prod.eta (fileWatch m_ifp serviceName out []), hresult]
    · simp only [Setup.constructed, hconstructed, if_true]
      exact hcalls
    · intro hlogger
      rw [initFileWatch_result hm_ifp, hlogger]
      rfl

/-- With the logger created, the start makes no bad call. -/
theorem startSteps_of_loggerCreated (h : c.LoggerCreated) :
    (replay c.startSteps).m_pl = true ∧ (replay c.startSteps).nullCalls = 0 := by
  obtain ⟨hcomplete, hconstructed⟩ := h
  obtain ⟨steps, init, hstart, hcreates, -, hcalls, -⟩ := start_eq (Or.inl hconstructed)
  obtain ⟨hpl, hcalls'⟩ := hcreates
  unfold Setup.startSteps
  rw [hstart, hpl, hcalls', hcalls, hconstructed, getSectionContent_fst_iff.mpr hcomplete]
  exact ⟨Bool.or_true _, rfl⟩

/-- Without it, there is a bad call, or the daemon ends without a logger. -/
theorem startSteps_of_not_loggerCreated (h : ¬ c.LoggerCreated) :
    0 < (replay c.startSteps).nullCalls ∨
      (c.starts = false ∧ (replay c.startSteps).m_pl = false) := by
  by_cases hrun : c.constructed = true ∨ c.kind = .httpServer
  · obtain ⟨steps, init, hstart, ⟨hpl, hcalls'⟩, hnone, hcalls, hrefuses⟩ := start_eq hrun
    -- either the section is incomplete, or the constructor of `httpServer` has logged
    by_cases hconstructed : c.constructed = true
    · right
      have hincomplete : ¬ c.m_ifp.Complete pet_params.PET_LOGGER :=
        fun hcomplete => h ⟨hcomplete, hconstructed⟩
      have hflag : (c.m_ifp.getSectionContent pet_params.PET_LOGGER).1 = false := by
        rw [getSectionContent_of_not_complete hincomplete]
      have hlogger : loggerStarts c.m_ifp c.out = false := by
        rw [loggerStarts, hflag, Bool.false_and]
      unfold Setup.starts Setup.startSteps
      rw [hstart, hrefuses hlogger, hpl, hnone, hflag]
      exact ⟨rfl, rfl⟩
    · left
      unfold Setup.startSteps
      rw [hstart, hcalls', hcalls, if_neg hconstructed]
      exact Nat.one_pos
  · right
    obtain ⟨hconstructed, hkind⟩ := not_or.mp hrun
    obtain ⟨kind, m_ifp, serviceName, out⟩ := c
    cases kind with
    | httpServer => exact absurd rfl hkind
    | fileWatch =>
      have hout : out.watchersConstructed = false := Bool.eq_false_iff.mpr hconstructed
      obtain ⟨hresult, hm_pl, -⟩ := fileWatch_logger m_ifp serviceName out
      rw [hout, if_neg Bool.false_ne_true] at hresult
      have hstart : Setup.start ⟨.fileWatch, m_ifp, serviceName, out⟩ [] =
          (.error .construction, (fileWatch m_ifp serviceName out []).2) := by
        simp only [Setup.start, bind_run]
        rw [← Prod.eta (fileWatch m_ifp serviceName out []), hresult]
      unfold Setup.starts Setup.startSteps
      rw [hstart]
      exact ⟨rfl, hm_pl⟩

/-- Steps see of the members only the logger when they touch it. -/
theorem foldl_logger {d d' : Members} (hpl : d.m_pl = d'.m_pl)
    (hcalls : d.nullCalls = d'.nullCalls) (steps : List Step) :
    (steps.foldl Step.apply d).m_pl = (steps.foldl Step.apply d').m_pl ∧
      (steps.foldl Step.apply d).nullCalls = (steps.foldl Step.apply d').nullCalls := by
  induction steps generalizing d d' with
  | nil => exact ⟨hpl, hcalls⟩
  | cons a steps ih =>
    apply ih
    · cases a with
      | initLogger | FAST_LOG =>
        simp only [Step.apply, Members.throughLogger, hpl]
        split <;> simp [hpl]
      | makeLogger | deleteLogger => rfl
      | _ => exact hpl
    · cases a with
      | initLogger | FAST_LOG =>
        simp only [Step.apply, Members.throughLogger, hpl]
        split <;> simp [hcalls]
      | _ => exact hcalls

theorem nullCalls_le_apply (a : Step) (d : Members) : d.nullCalls ≤ (a.apply d).nullCalls := by
  cases a with
  | initLogger | FAST_LOG =>
    simp only [Step.apply, Members.throughLogger]
    split
    · exact Nat.le_refl _
    · exact Nat.le_succ _
  | _ => exact Nat.le_refl _

theorem nullCalls_le_foldl (steps : List Step) (d : Members) :
    d.nullCalls ≤ (steps.foldl Step.apply d).nullCalls := by
  induction steps generalizing d with
  | nil => exact Nat.le_refl _
  | cons a steps ih => exact (nullCalls_le_apply a d).trans (ih (a.apply d))

/-- No bad call so far, and in each phase the logger is there when the rest of it needs it. -/
def LoggerThere (s : State) : Prop :=
  s.daemon.nullCalls = 0 ∧
    match s.phase with
    | .starting =>
        (s.todo.foldl Step.apply s.daemon).m_pl = true ∧
          (s.todo.foldl Step.apply s.daemon).nullCalls = 0
    | .serving => s.daemon.m_pl = true ∧ ∀ a ∈ s.todo, a.leavesLogger = true
    | .ending _ => s.todo <:+ destructor ∧ (s.todo ≠ [] → s.daemon.m_pl = true)

/-- What is left of the destructor keeps the logger up to its last step. -/
theorem destructor_suffix {a : Step} {rest : List Step} (h : a :: rest <:+ destructor) :
    rest = [] ∨ a.leavesLogger = true := by
  obtain ⟨before, hbefore⟩ := h
  match before, hbefore with
  | [], h => exact Or.inr (by cases h; rfl)
  | [_], h => exact Or.inr (by cases h; rfl)
  | [_, _], h => exact Or.inl (by cases h; rfl)
  | _ :: _ :: _ :: _, h =>
    simp [destructor] at h

theorem loggerThere_next {s : State} {a : Step} {rest : List Step} (hs : LoggerThere s)
    (htodo : s.todo = a :: rest) :
    LoggerThere { s with todo := rest, daemon := a.apply s.daemon } := by
  obtain ⟨hcalls, hphase⟩ := hs
  unfold LoggerThere
  cases hp : s.phase with
  | starting =>
    rw [hp, htodo] at hphase
    simp only
    refine ⟨?_, hphase⟩
    have hle := nullCalls_le_foldl rest (a.apply s.daemon)
    have hzero : (rest.foldl Step.apply (a.apply s.daemon)).nullCalls = 0 := hphase.2
    omega
  | serving =>
    rw [hp, htodo] at hphase
    obtain ⟨hpl, hrest⟩ := hphase
    obtain ⟨hpl', hcalls'⟩ := apply_leavesLogger (hrest a List.mem_cons_self) hpl
    exact ⟨hcalls'.trans hcalls, hpl', fun b hb => hrest b (List.mem_cons_of_mem a hb)⟩
  | ending served =>
    rw [hp, htodo] at hphase
    obtain ⟨hsuffix, hpl⟩ := hphase
    have hpl := hpl (List.cons_ne_nil a rest)
    simp only
    refine ⟨?_, (List.suffix_cons a rest).trans hsuffix, ?_⟩
    · cases ha : a.leavesLogger with
      | true => exact (apply_leavesLogger ha hpl).2.trans hcalls
      | false =>
        cases a with
        | deleteLogger => exact hcalls
        | _ => cases ha
    · intro hrest
      rcases destructor_suffix hsuffix with hnil | ha
      · exact absurd hnil hrest
      · exact (apply_leavesLogger ha hpl).1

/-- The service logs while the logger is there. -/
theorem loggerThere_working {s : State} (hs : LoggerThere s) (hworking : s.working c = true) :
    s.daemon.m_pl = true := by
  obtain ⟨-, hphase⟩ := hs
  unfold State.working at hworking
  cases hp : s.phase with
  | starting =>
    rw [hp] at hworking
    cases hworking
  | serving =>
    rw [hp] at hphase
    exact hphase.1
  | ending served =>
    rw [hp] at hphase hworking
    apply hphase.2
    intro hnil
    simp [hnil] at hworking

theorem serving_leavesLogger {a : Step} (ha : a ∈ c.kind.enterService ∨ a ∈ loopFailed) :
    a.leavesLogger = true := by
  rcases mem_serving ha with ⟨message, rfl⟩ | rfl
  · rfl
  · rfl

theorem loggerThere_moves {s : State} {phase : Phase} {todo : List Step} (hs : LoggerThere s)
    (hmoves : Moves c s phase todo) : LoggerThere { s with phase := phase, todo := todo } := by
  obtain ⟨hcalls, hphase⟩ := hs
  refine ⟨hcalls, ?_⟩
  cases hmoves with
  | serve hp htodo hstarts =>
    rw [hp, htodo] at hphase
    exact ⟨hphase.1, fun a ha => serving_leavesLogger (Or.inl ha)⟩
  | loopFailed hp =>
    rw [hp] at hphase
    exact ⟨hphase.1, fun a ha => serving_leavesLogger (c := c) (Or.inr ha)⟩
  | refused hp htodo =>
    rw [hp, htodo] at hphase
    exact ⟨List.suffix_refl _, fun _ => hphase.1⟩
  | stopped hp =>
    rw [hp] at hphase
    exact ⟨List.suffix_refl _, fun _ => hphase.1⟩

theorem loggerThere_step {s t : State} {l : Label} (hs : LoggerThere s)
    (hst : step c s l = some t) : LoggerThere t := by
  rcases step_cases hst with ⟨a, rest, -, htodo, rfl⟩ | ⟨sig, -, rfl⟩ |
    ⟨message, -, hworking, rfl⟩ | ⟨-, phase, todo, hmoves, rfl⟩
  · exact loggerThere_next hs htodo
  · obtain ⟨hcalls, hphase⟩ := hs
    unfold LoggerThere
    cases hp : s.phase with
    | starting =>
      rw [hp] at hphase
      -- the handler of the signal does not touch the logger, nor do the steps see what it does
      have hsame : (forceExit s.daemon).m_pl = s.daemon.m_pl := rfl
      have hnone : (forceExit s.daemon).nullCalls = s.daemon.nullCalls := rfl
      obtain ⟨hpl, hcalls'⟩ := foldl_logger hsame hnone s.todo
      exact ⟨hcalls, hpl.trans hphase.1, hcalls'.trans hphase.2⟩
    | serving =>
      rw [hp] at hphase
      exact ⟨hcalls, hphase⟩
    | ending served =>
      rw [hp] at hphase
      exact ⟨hcalls, hphase⟩
  · have hsame : s.daemon.throughLogger = s.daemon := by
      rw [Members.throughLogger, if_pos (loggerThere_working hs hworking)]
    rw [hsame]
    exact hs
  · exact loggerThere_moves hs hmoves

/-- Without the logger a run makes a bad call. -/
theorem bad_call_of_not_loggerCreated (h : ¬ c.LoggerCreated) :
    ∃ s, Reachable (step c) Always (fun s => s = c.initial) s ∧ 0 < s.daemon.nullCalls := by
  have hstart := run_todo (c := c) c.initial
  rcases startSteps_of_not_loggerCreated h with hcalls | ⟨hstarts, hpl⟩
  · exact ⟨_, ⟨c.initial, _, rfl, hstart⟩, hcalls⟩
  · -- the daemon is refused, and its destructor logs
    have hfinish : Run (step c) Always
        { c.initial with todo := [], daemon := replay c.startSteps } [.finish false]
        { c.initial with
          phase := .ending false, todo := destructor, daemon := replay c.startSteps } := by
      apply Run.single trivial
      simp only [step, Setup.initial, hstarts, Bool.false_eq_true, if_false]
    have hlog : Run (step c) Always
        { c.initial with
          phase := .ending false, todo := destructor, daemon := replay c.startSteps } [.next]
        { c.initial with
          phase := .ending false
          todo := [.joinPool, .deleteLogger]
          daemon := (replay c.startSteps).throughLogger } := Run.single trivial rfl
    refine ⟨_, ⟨c.initial, _, rfl, (hstart.append hfinish).append hlog⟩, ?_⟩
    simp only [Members.throughLogger, hpl, Bool.false_eq_true, if_false]
    exact Nat.succ_pos _

end Life

/-- Every call through `m_pl` finds the logger exactly when the section of the logger is complete
and the construction of the daemon succeeds. -/
theorem logger_exists_iff (c : Setup) :
    (∀ s, Reachable (step c) Always (fun s => s = c.initial) s → s.daemon.nullCalls = 0) ↔
      c.LoggerCreated := by
  constructor
  · intro h
    by_contra hc
    obtain ⟨s, hs, hcalls⟩ := bad_call_of_not_loggerCreated hc
    rw [h s hs] at hcalls
    exact Nat.lt_irrefl 0 hcalls
  · intro h s hs
    have hthere : LoggerThere s := by
      apply hs.invariant (I := LoggerThere)
      · rintro s rfl
        exact ⟨rfl, startSteps_of_loggerCreated h⟩
      · exact fun s l t hs _ hst => loggerThere_step hs hst
    exact hthere.1

/-! A file that lacks the section of the logger. -/

def silentFile : IniFile where
  value sectionName key :=
    if sectionName = PET_LOGGER_PARAMS.1 then none
    else if key = db_type then some sqliteTDB
    else some "1".toList

def silentSetup : Setup where
  kind := .fileWatch
  m_ifp := ⟨some silentFile⟩
  serviceName := []
  out := .fine

/-- The destructor logs without a logger. -/
theorem not_logger_exists_silent :
    ¬ ∀ (c : Setup) (s : State), Reachable (step c) Always (fun s => s = c.initial) s →
      s.daemon.nullCalls = 0 := by
  intro h
  have hexec : (exec (step silentSetup) Always silentSetup.initial
      (List.replicate 6 .next ++ [.finish false, .next])).any
        (fun s => s.daemon.nullCalls == 1) = true := by decide
  obtain ⟨s, hs, hcalls⟩ := (Option.any_eq_true _ _).mp hexec
  rw [h silentSetup s (reachable_of_exec rfl _ hs)] at hcalls
  cases hcalls

end PetProject.Daemon
