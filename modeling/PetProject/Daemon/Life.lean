import Mathlib.Data.List.Infix
import PetProject.Daemon.Refusal
import PetProject.Foundation.Transition

/-!
# The life of a daemon

`main` constructs the daemon, initialises it, runs the service and destroys the daemon, also when an
initialiser answers `false` or throws. One label of the machine takes the next call or assignment;
the signals and the work of the service come in between.

A handled signal is forgotten by the assignment at the end of `initBaseDaemon` and by nothing else
(`never_forgotten_iff`).
-/

set_option autoImplicit false

namespace PetProject.Daemon

open PetProject.Foundation.TextSearch PetProject.Foundation.Transition PetProject.Workers

/-! ## The machine -/

inductive Kind where
  | httpServer
  | fileWatch
  deriving DecidableEq, Repr

/-- A daemon with its configuration and what the libraries answer. -/
structure Setup where
  kind : Kind
  m_ifp : iniFileParser
  serviceName : Text
  out : Outcomes

/-- The part of `main` before the service. -/
def Setup.start (c : Setup) : Init Bool :=
  match c.kind with
  | .httpServer => do
      httpServer c.m_ifp c.serviceName c.out
      initServer c.out
  | .fileWatch => do
      fileWatch c.m_ifp c.serviceName c.out
      initFileWatch c.out

def Setup.startSteps (c : Setup) : List Step := (c.start []).2

/-- `main` gets to the service. -/
def Setup.starts (c : Setup) : Bool :=
  match (c.start []).1 with
  | .ok answer => answer
  | .error _ => false

/-- What `mainServerLoop` and `runService` do before their loops. -/
def Kind.enterService : Kind → List Step
  | .httpServer => []
  | .fileWatch => [.FAST_LOG "Файловый наблюдатель стартовал".toList]

/-- The branch of `mainServerLoop` after a failed `event_base_loop`. -/
def loopFailed : List Step :=
  [.FAST_LOG "Не удалось запустить обработчик сообщений [event_base_loop]".toList, .m_canExit true]

/-- The destructor of `baseDaemon`, and of its members. -/
def destructor : List Step :=
  [.FAST_LOG "Демон штатно завершен".toList, .joinPool, .deleteLogger]

inductive Phase where
  | starting
  | serving
  /-- The daemon is destroyed; `served` when there was a service. -/
  | ending (served : Bool)
  deriving DecidableEq, Repr

structure State where
  phase : Phase
  /-- The steps that the main thread has still to take in this phase. -/
  todo : List Step
  daemon : Members
  /-- `signalHandler` has run. -/
  signalled : Bool

def Setup.initial (c : Setup) : State where
  phase := .starting
  todo := c.startSteps
  daemon := Members.initial
  signalled := false

def forceExit (d : Members) : Members := { d with m_canExit := true }

def signalHandler (d : Members) : Signal → Members
  | .SIGINT | .SIGTERM => forceExit d

def State.canExit (s : State) : Bool := s.daemon.m_canExit

def Step.isJoinPool : Step → Bool
  | .joinPool => true
  | _ => false

/-- Requests are handled, or the threads of the watchers are running. -/
def State.working (c : Setup) (s : State) : Bool :=
  match s.phase with
  | .starting => false
  | .serving => true
  | .ending served => served && (c.kind = .fileWatch && s.todo.any Step.isJoinPool)

inductive Label where
  /-- The main thread takes its next step. -/
  | next
  | signal (sig : Signal)
  | serve
  /-- A request or an event is logged. -/
  | work (message : Text)
  /-- `event_base_loop` answers a value other than zero. -/
  | event_base_loop
  /-- The daemon goes out of scope, in the service also by an exception of a request. -/
  | finish (exception : Bool)

def step (c : Setup) (s : State) : Label → Option State
  | .next =>
      match s.todo with
      | [] => none
      | a :: rest => some { s with todo := rest, daemon := a.apply s.daemon }
  | .signal sig =>
      if sig ∈ s.daemon.handlers then
        some { s with daemon := signalHandler s.daemon sig, signalled := true }
      else none
  | .serve =>
      match s.phase, s.todo with
      | .starting, [] =>
          if c.starts then some { s with phase := .serving, todo := c.kind.enterService } else none
      | _, _ => none
  | .work message =>
      if s.working c then some { s with daemon := (Step.FAST_LOG message).apply s.daemon }
      else none
  | .event_base_loop =>
      match s.phase, s.todo with
      | .serving, [] =>
          if c.kind = .httpServer ∧ s.canExit = false then some { s with todo := loopFailed }
          else none
      | _, _ => none
  | .finish exception =>
      match s.phase, s.todo with
      | .starting, [] =>
          if c.starts then none
          else some { s with phase := .ending false, todo := destructor }
      | .serving, [] =>
          if s.canExit ∨ (c.kind = .httpServer ∧ exception) then
            some { s with phase := .ending true, todo := destructor }
          else none
      | _, _ => none

/-- The main thread enters a phase, or the branch of a failed `event_base_loop`. -/
inductive Moves (c : Setup) (s : State) : Phase → List Step → Prop
  | serve : s.phase = .starting → s.todo = [] → c.starts = true →
      Moves c s .serving c.kind.enterService
  | loopFailed : s.phase = .serving → Moves c s .serving loopFailed
  | refused : s.phase = .starting → s.todo = [] → c.starts = false →
      Moves c s (.ending false) destructor
  | stopped : s.phase = .serving → Moves c s (.ending true) destructor

/-- What a step can do. -/
theorem step_cases {c : Setup} {s t : State} {l : Label} (h : step c s l = some t) :
    (∃ a rest, l = .next ∧ s.todo = a :: rest ∧
      t = { s with todo := rest, daemon := a.apply s.daemon }) ∨
    (∃ sig, l = .signal sig ∧ t = { s with daemon := forceExit s.daemon, signalled := true }) ∨
    (∃ message, l = .work message ∧ s.working c = true ∧
      t = { s with daemon := s.daemon.throughLogger }) ∨
    (l ≠ .next ∧ ∃ phase todo, Moves c s phase todo ∧
      t = { s with phase := phase, todo := todo }) := by
  cases l with
  | next =>
    cases htodo : s.todo with
    | nil =>
      simp only [step, htodo] at h
      cases h
    | cons a rest =>
      simp only [step, htodo, Option.some.injEq] at h
      exact Or.inl ⟨a, rest, rfl, rfl, h.symm⟩
  | signal sig =>
    simp only [step] at h
    split at h
    · cases h
      exact Or.inr (Or.inl ⟨sig, rfl, by cases sig <;> rfl⟩)
    · cases h
  | work message =>
    simp only [step] at h
    split at h
    · rename_i hworking
      cases h
      exact Or.inr (Or.inr (Or.inl ⟨message, rfl, hworking, rfl⟩))
    · cases h
  | serve =>
    simp only [step] at h
    split at h
    · rename_i hphase htodo
      split at h
      · rename_i hstarts
        cases h
        exact Or.inr (Or.inr (Or.inr ⟨by simp, _, _, .serve hphase htodo hstarts, rfl⟩))
      · cases h
    · cases h
  | event_base_loop =>
    simp only [step] at h
    split at h
    · rename_i hphase htodo
      split at h
      · cases h
        exact Or.inr (Or.inr (Or.inr ⟨by simp, _, _, .loopFailed hphase, by rw [← hphase]⟩))
      · cases h
    · cases h
  | finish exception =>
    simp only [step] at h
    split at h
    · rename_i hphase htodo
      split at h
      · cases h
      · rename_i hstarts
        cases h
        exact Or.inr (Or.inr (Or.inr
          ⟨by simp, _, _, .refused hphase htodo (Bool.eq_false_iff.mpr hstarts), rfl⟩))
    · rename_i hphase htodo
      split at h
      · cases h
        exact Or.inr (Or.inr (Or.inr ⟨by simp, _, _, .stopped hphase, rfl⟩))
      · cases h
    · cases h

/-- Outside its loop the service logs, and asks itself to stop. -/
theorem mem_serving {k : Kind} {a : Step} (h : a ∈ k.enterService ∨ a ∈ loopFailed) :
    (∃ message, a = .FAST_LOG message) ∨ a = .m_canExit true := by
  rcases h with h | h
  · cases k with
    | httpServer => cases h
    | fileWatch => exact Or.inl ⟨_, List.mem_singleton.mp h⟩
  · simp only [loopFailed, List.mem_cons, List.not_mem_nil, or_false] at h
    exact h.imp_left fun heq => ⟨_, heq⟩

/-- The main thread takes all its steps. -/
theorem run_todo {c : Setup} (s : State) :
    Run (step c) Always s (List.replicate s.todo.length .next)
      { s with todo := [], daemon := s.todo.foldl Step.apply s.daemon } := by
  obtain ⟨phase, todo, daemon, signalled⟩ := s
  induction todo generalizing daemon with
  | nil => exact Run.nil
  | cons a rest ih =>
    have hnext : Run (step c) Always ⟨phase, a :: rest, daemon, signalled⟩ [.next]
        ⟨phase, rest, a.apply daemon, signalled⟩ := Run.single trivial rfl
    exact hnext.append (ih (a.apply daemon))

/-! ## Requests to stop -/

/-- Once the handler has run, the daemon can exit. -/
def KeepsRequest (s : State) : Prop := s.signalled = true → s.canExit = true

/-- The assignment at the end of `initBaseDaemon`. -/
def Step.isStarted : Step → Bool
  | .m_canExit value => !value
  | _ => false

/-- `m_canExit = false` is not executed after a handled signal. -/
def NotForgetting (s : State) : Label → Prop
  | .next => (s.todo.head?.any Step.isStarted && s.signalled) = false
  | _ => True

instance : DecidableRel NotForgetting := fun _ l =>
  match l with
  | .next => inferInstanceAs (Decidable (_ = false))
  | .signal _ | .serve | .work _ | .event_base_loop | .finish _ => isTrue trivial

section Requests

variable {c : Setup} {s t : State} {l : Label}

theorem throughLogger_m_canExit (d : Members) : d.throughLogger.m_canExit = d.m_canExit := by
  obtain ⟨n, hn⟩ := throughLogger_eq d
  rw [hn]

/-- Only one assignment takes the request back. -/
theorem apply_m_canExit {a : Step} {d : Members} (h : a.isStarted = false)
    (hd : d.m_canExit = true) : (a.apply d).m_canExit = true := by
  cases a with
  | m_canExit value =>
    cases value with
    | false => cases h
    | true => rfl
  | initLogger => exact (throughLogger_m_canExit d).trans hd
  | FAST_LOG message => exact (throughLogger_m_canExit d).trans hd
  | _ => exact hd

theorem keepsRequest_step (hs : KeepsRequest s) (hok : NotForgetting s l)
    (hst : step c s l = some t) : KeepsRequest t := by
  intro hsignalled
  rcases step_cases hst with ⟨a, rest, rfl, htodo, rfl⟩ | ⟨sig, rfl, rfl⟩ | ⟨message, rfl, -, rfl⟩ |
    ⟨-, phase, todo, -, rfl⟩
  · apply apply_m_canExit _ (hs hsignalled)
    have hnone : (a.isStarted && s.signalled) = false := by
      simpa only [NotForgetting, htodo, List.head?_cons, Option.any_some] using hok
    rwa [show s.signalled = true from hsignalled, Bool.and_true] at hnone
  · rfl
  · exact (throughLogger_m_canExit s.daemon).trans (hs hsignalled)
  · exact hs hsignalled

theorem not_keepsRequest_step (hok : ¬ NotForgetting s l) (hst : step c s l = some t) :
    ¬ KeepsRequest t := by
  intro ht
  cases l with
  | next =>
    rcases step_cases hst with ⟨a, rest, -, htodo, rfl⟩ | ⟨_, hl, -⟩ | ⟨_, hl, -⟩ | ⟨hl, -⟩
    · simp only [NotForgetting, htodo, List.head?_cons, Option.any_some, Bool.not_eq_false,
        Bool.and_eq_true] at hok
      obtain ⟨hstarted, hsignalled⟩ := hok
      have hcan : (a.apply s.daemon).m_canExit = true := ht hsignalled
      cases a with
      | m_canExit value =>
        have hvalue : value = true := hcan
        rw [hvalue] at hstarted
        cases hstarted
      | _ => cases hstarted
    · cases hl
    · cases hl
    · exact absurd rfl hl
  | _ => exact hok trivial

/-- After the start nothing is left that takes a request back. -/
theorem notForgetting_of_started {ls : List Label} (h : Run (step c) Always c.initial ls s)
    (hphase : s.phase ≠ .starting) : NotForgetting s l := by
  have hinv : s.phase ≠ .starting → ∀ a ∈ s.todo, a.isStarted = false := by
    refine h.invariant (I := fun s => s.phase ≠ .starting → ∀ a ∈ s.todo, a.isStarted = false)
      ?_ (fun hinit => absurd rfl hinit)
    intro s l t hs _ hst
    rcases step_cases hst with ⟨a, rest, -, htodo, rfl⟩ | ⟨sig, -, rfl⟩ | ⟨message, -, -, rfl⟩ |
      ⟨-, phase, todo, hmoves, rfl⟩
    · intro hstarted b hb
      exact hs hstarted b (by rw [htodo]; exact List.mem_cons_of_mem a hb)
    · exact hs
    · exact hs
    · intro _ a ha
      have hserving : a ∈ c.kind.enterService ∨ a ∈ loopFailed → a.isStarted = false := by
        intro hmem
        rcases mem_serving hmem with ⟨message, rfl⟩ | rfl
        · rfl
        · rfl
      cases hmoves with
      | serve => exact hserving (Or.inl ha)
      | loopFailed => exact hserving (Or.inr ha)
      | refused | stopped =>
        simp only [destructor, List.mem_cons, List.not_mem_nil, or_false] at ha
        rcases ha with rfl | rfl | rfl <;> rfl
  cases l with
  | next =>
    cases htodo : s.todo with
    | nil => simp only [NotForgetting, htodo, List.head?_nil, Option.any_none, Bool.false_and]
    | cons a rest =>
      have ha : a.isStarted = false := hinv hphase a (by rw [htodo]; exact List.mem_cons_self)
      simp only [NotForgetting, htodo, List.head?_cons, Option.any_some, ha, Bool.false_and]
  | _ => exact trivial

end Requests

/-- A request to stop is kept in every state of a run exactly when the daemon does not declare
itself started after the request. -/
theorem never_forgotten_iff (c : Setup) {ls : List Label} {s : State}
    (h : Run (step c) Always c.initial ls s) :
    Throughout (step c) KeepsRequest c.initial ls ↔ Run (step c) NotForgetting c.initial ls s := by
  apply Run.throughout_iff (I := KeepsRequest) _ _ _ h
  · intro hsignalled
    cases hsignalled
  · exact fun s hs => hs
  · exact fun s l t hs hok hst => keepsRequest_step hs hok hst
  · exact fun s l t _ hok hst => not_keepsRequest_step hok hst

/-! A file with all sections, with SQLite for both databases. -/

def fullFile : IniFile where
  value _ key := if key = db_type then some sqliteTDB else some "1".toList

def fineSetup : Setup where
  kind := .httpServer
  m_ifp := ⟨some fullFile⟩
  serviceName := []
  out := .fine

/-- A signal after the start is kept. -/
theorem never_forgotten_iff_started :
    Throughout (step fineSetup) KeepsRequest fineSetup.initial
      (List.replicate 15 .next ++ [.signal .SIGTERM]) := by
  have hexec : (exec (step fineSetup) NotForgetting fineSetup.initial
      (List.replicate 15 .next ++ [.signal .SIGTERM])).isSome = true := by decide
  obtain ⟨s, hs⟩ := Option.isSome_iff_exists.mp hexec
  have hrun := run_of_exec hs
  exact (never_forgotten_iff fineSetup hrun.always).mpr hrun

/-- A signal between the installation of the handlers and the end of `initBaseDaemon`. -/
def earlySignal : List Label := List.replicate 3 .next ++ .signal .SIGTERM :: List.replicate 8 .next

/-- The early signal is forgotten. -/
theorem not_never_forgotten_earlySignal :
    ¬ ∀ (c : Setup) (ls : List Label) (s : State), Run (step c) Always c.initial ls s →
      Throughout (step c) KeepsRequest c.initial ls := by
  intro h
  have hexec : (exec (step fineSetup) Always fineSetup.initial earlySignal).any
      (fun s => s.signalled && !s.canExit) = true := by decide
  obtain ⟨s, hs, hforgotten⟩ := (Option.any_eq_true _ _).mp hexec
  have hrun := run_of_exec hs
  have hkept : KeepsRequest s :=
    h fineSetup earlySignal s hrun earlySignal s (List.prefix_refl _) hrun
  obtain ⟨hsignalled, hcan⟩ := Bool.and_eq_true_iff.mp hforgotten
  rw [hkept hsignalled] at hcan
  cases hcan

end PetProject.Daemon
