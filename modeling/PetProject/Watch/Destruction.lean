import PetProject.Foundation.Transition
import PetProject.Watch.Inotify
import PetProject.Watch.SongData

/-!
# The shutdown of the watch daemon

The main thread of `runService` pushes the two loops to the pool and spins until `canExit()`. Then
the object of `fileWatch` is destroyed: the members in the reverse order of their declaration, then
the body of `~baseDaemon`, and last the members of `baseDaemon`, among them `m_th_pool`, whose
destructor joins the two threads.

Until that join nothing makes a loop leave `readInotyEvents`, so the destructor of a watcher can
start while its thread is inside. The shutdown is safe exactly when the destructors start while
the threads are outside (`no_dead_watcher`, `begin_safe_iff`).
-/

set_option autoImplicit false

namespace PetProject.Watch.Destruction

open PetProject.Foundation.Transition PetProject.Foundation.TextSearch

/-! ## Threads -/

/-- Where the thread of `loopInDelete` or `loopInAdd` is. -/
inductive LoopPos where
  /-- Not pushed to the pool yet. -/
  | unpushed
  | queued
  /-- At `while(!canExit())`. -/
  | check
  /-- Behind the check, at `m_i = 0`. -/
  | enter
  /-- In `read`. -/
  | blocked
  /-- At `while(m_i < len)`. -/
  | records (len : Nat)
  /-- At `sleep(0)`. -/
  | pause
  | done
  deriving DecidableEq

/-- The next step of the thread is a step of `readInotyEvents`. -/
def LoopPos.InReadInotyEvents : LoopPos → Prop
  | .enter | .blocked | .records _ => True
  | _ => False

instance : DecidablePred LoopPos.InReadInotyEvents
  | .enter | .blocked | .records _ => isTrue trivial
  | .unpushed | .queued | .check | .pause | .done => isFalse id

/-- What the main thread does after `runService` has returned. -/
inductive Teardown where
  /-- The destructor of a watcher starts. -/
  | begin (k : Watcher)
  /-- The destructor of a watcher ends. -/
  | finish (k : Watcher)
  /-- The body of `~baseDaemon`. -/
  | baseDaemon
  /-- `~CThreadPool`, which joins. -/
  | joinPool
  deriving DecidableEq

/-- The members of `fileWatch` with a destructor, as they are declared. -/
def fileWatchMembers : List Watcher := [.m_inotyInDelete, .m_inotyInAdd]

/-- The destruction of a `fileWatch`. -/
def teardown : List Teardown :=
  fileWatchMembers.reverse.flatMap (fun k => [.begin k, .finish k]) ++ [.baseDaemon, .joinPool]

inductive MainPos where
  | pushDelete
  | pushAdd
  /-- At `while(!canExit());`. -/
  | waiting
  | destroying (todo : List Teardown)
  deriving DecidableEq

/-- A watcher and the thread that reads it. -/
structure Side (σ : Type) where
  object : inotifyRAIIwrapper σ
  /-- The destructor of the object has started. -/
  destroyed : Bool
  pos : LoopPos

/-- The daemon; `env` is what the watch functions act on. -/
structure State (σ : Type) where
  m_canExit : Bool
  main : MainPos
  inDelete : Side σ
  inAdd : Side σ
  env : σ

section System

variable {σ : Type}

def State.side (s : State σ) : Watcher → Side σ
  | .m_inotyInDelete => s.inDelete
  | .m_inotyInAdd => s.inAdd

def State.setSide (s : State σ) (k : Watcher) (x : Side σ) : State σ :=
  match k with
  | .m_inotyInDelete => { s with inDelete := x }
  | .m_inotyInAdd => { s with inAdd := x }

/-! ## Steps -/

inductive Label where
  /-- SIGINT or SIGTERM. -/
  | signal
  /-- The main thread takes its next step. -/
  | main
  /-- The thread of a watcher takes its next step; `res` is the outcome of `read`, when the step is
  one. -/
  | loop (k : Watcher) (res : Option (List UInt8))

/-- The next step of the thread of a watcher: its side and what the watch function acts on. -/
def loopStep (m_canExit : Bool) (x : Side σ) (env : σ) (res : Option (List UInt8)) :
    Option (Side σ × σ) :=
  match x.pos with
  | .unpushed => none
  | .queued => some ({ x with pos := .check }, env)
  -- `while(!canExit())`
  | .check => some ({ x with pos := if m_canExit then .done else .enter }, env)
  -- `m_i = 0;`, the first access to the object
  | .enter => some ({ x with object := { x.object with m_i := 0 }, pos := .blocked }, env)
  -- `read` fails or stores at most `BUF_LEN` bytes in `m_buf`
  | .blocked =>
      match res with
      | none => some ({ x with pos := .pause }, env)
      | some bytes =>
          if bytes.length ≤ BUF_LEN then
            some ({ x with
              object := (x.object.loaded bytes env).wrapper, pos := .records bytes.length }, env)
          else none
  -- one round of the record loop, with the call of `m_func` in it
  | .records len =>
      if x.object.m_i.slt (BitVec.ofNat 64 len) then
        let r := (Reading.mk x.object env [] []).iterate
        some ({ x with object := r.wrapper }, r.env)
      else some ({ x with pos := .pause }, env)
  | .pause => some ({ x with pos := .check }, env)
  | .done => none

/-- The next step of the main thread. -/
def mainStep (s : State σ) : Option (State σ) :=
  match s.main with
  | .pushDelete =>
      some { s with inDelete := { s.inDelete with pos := .queued }, main := .pushAdd }
  | .pushAdd => some { s with inAdd := { s.inAdd with pos := .queued }, main := .waiting }
  -- `while(!canExit());`
  | .waiting => some (if s.m_canExit then { s with main := .destroying teardown } else s)
  | .destroying (.begin k :: todo) =>
      some { s.setSide k { s.side k with destroyed := true } with main := .destroying todo }
  | .destroying (.finish _ :: todo) => some { s with main := .destroying todo }
  | .destroying (.baseDaemon :: todo) => some { s with main := .destroying todo }
  -- `stop(true)` returns when both loops have ended
  | .destroying (.joinPool :: todo) =>
      if s.inDelete.pos = .done ∧ s.inAdd.pos = .done then
        some { s with main := .destroying todo }
      else none
  | .destroying [] => none

def step (s : State σ) : Label → Option (State σ)
  | .signal => some { s with m_canExit := true }
  | .main => mainStep s
  | .loop k res =>
      (loopStep s.m_canExit (s.side k) s.env res).map fun r =>
        { s.setSide k r.1 with env := r.2 }

/-- `runService` is called on a daemon that has been initialised. -/
def State.IsInit (s : State σ) : Prop :=
  s.main = .pushDelete ∧ ∀ k, (s.side k).destroyed = false ∧ (s.side k).pos = .unpushed

/-- The step is a step of `readInotyEvents` on an object whose destructor has started. -/
def UsesDeadWatcher (s : State σ) : Label → Prop
  | .loop k _ => (s.side k).destroyed = true ∧ (s.side k).pos.InReadInotyEvents
  | _ => False

/-- A destructor that starts does so while the thread of its watcher is outside
`readInotyEvents`. -/
def DestroysIdle (s : State σ) : Label → Prop
  | .main =>
      match s.main with
      | .destroying (.begin k :: _) => ¬ (s.side k).pos.InReadInotyEvents
      | _ => True
  | _ => True

/-! ## What a step can do -/

variable {s s' : State σ}

@[simp] theorem side_setSide_self (s : State σ) (k : Watcher) (x : Side σ) :
    (s.setSide k x).side k = x := by
  cases k <;> rfl

theorem side_setSide_ne (s : State σ) {k k' : Watcher} (h : k' ≠ k) (x : Side σ) :
    (s.setSide k x).side k' = s.side k' := by
  cases k <;> cases k' <;> first | rfl | exact absurd rfl h

theorem setSide_frame (s : State σ) (k : Watcher) (x : Side σ) :
    (s.setSide k x).m_canExit = s.m_canExit ∧ (s.setSide k x).main = s.main := by
  cases k <;> exact ⟨rfl, rfl⟩

/-- A loop step leaves the destructor's mark, and once `m_canExit` is set it does not lead into
`readInotyEvents`. -/
theorem loopStep_outside {m_canExit : Bool} {x x' : Side σ} {env env' : σ}
    {res : Option (List UInt8)} (h : loopStep m_canExit x env res = some (x', env')) :
    x'.destroyed = x.destroyed ∧
      (m_canExit = true → ¬ x.pos.InReadInotyEvents → ¬ x'.pos.InReadInotyEvents) := by
  obtain ⟨object, destroyed, pos⟩ := x
  cases pos with
  | unpushed => cases h
  | queued =>
    cases h
    exact ⟨rfl, fun _ _ => id⟩
  | check =>
    cases h
    constructor
    · rfl
    · rintro rfl _
      exact id
  | enter =>
    cases h
    exact ⟨rfl, fun _ hout => absurd trivial hout⟩
  | blocked =>
    refine ⟨?_, fun _ hout => absurd trivial hout⟩
    cases res with
    | none => cases h; rfl
    | some bytes =>
      simp only [loopStep] at h
      split at h
      · cases h; rfl
      · cases h
  | records len =>
    refine ⟨?_, fun _ hout => absurd trivial hout⟩
    simp only [loopStep] at h
    split at h <;> (cases h; rfl)
  | pause =>
    cases h
    exact ⟨rfl, fun _ _ => id⟩
  | done => cases h

/-- The main thread leaves the flag, destroys what its position says, and only after the flag. -/
theorem mainStep_cases (h : mainStep s = some s') :
    s'.m_canExit = s.m_canExit ∧
      (∀ todo, s'.main = .destroying todo →
        s.m_canExit = true ∨ ∃ before, s.main = .destroying before) ∧
      ∀ k,
        ((s'.side k).destroyed = true →
          (s.side k).destroyed = true ∨ ∃ todo, s.main = .destroying (.begin k :: todo)) ∧
        ((s'.side k).pos.InReadInotyEvents → (s.side k).pos.InReadInotyEvents) := by
  cases hmain : s.main with
  | pushDelete =>
    simp only [mainStep, hmain, Option.some.injEq] at h
    subst h
    refine ⟨rfl, ?_, fun k => ?_⟩
    · intro todo htodo
      cases htodo
    cases k with
    | m_inotyInDelete => exact ⟨Or.inl, False.elim⟩
    | m_inotyInAdd => exact ⟨Or.inl, id⟩
  | pushAdd =>
    simp only [mainStep, hmain, Option.some.injEq] at h
    subst h
    refine ⟨rfl, ?_, fun k => ?_⟩
    · intro todo htodo
      cases htodo
    cases k with
    | m_inotyInDelete => exact ⟨Or.inl, id⟩
    | m_inotyInAdd => exact ⟨Or.inl, False.elim⟩
  | waiting =>
    simp only [mainStep, hmain, Option.some.injEq] at h
    cases hexit : s.m_canExit with
    | true =>
      simp only [hexit, if_true] at h
      subst h
      refine ⟨rfl, fun _ _ => Or.inl rfl, fun k => ?_⟩
      cases k <;> exact ⟨Or.inl, id⟩
    | false =>
      simp only [hexit, Bool.false_eq_true, if_false] at h
      subst h
      refine ⟨hexit, fun todo htodo => ?_, fun k => ⟨Or.inl, id⟩⟩
      rw [hmain] at htodo
      cases htodo
  | destroying todo =>
    cases todo with
    | nil => simp [mainStep, hmain] at h
    | cons action todo =>
      have hrest : s.m_canExit = true ∨
          ∃ before, MainPos.destroying (action :: todo) = .destroying before :=
        Or.inr ⟨_, rfl⟩
      cases action with
      | begin k =>
        simp only [mainStep, hmain, Option.some.injEq] at h
        subst h
        refine ⟨(setSide_frame s k _).1, fun _ _ => hrest, fun k' => ?_⟩
        change (((s.setSide k _).side k').destroyed = true → _) ∧
          (((s.setSide k _).side k').pos.InReadInotyEvents → _)
        by_cases hk : k' = k
        · -- the destructor of `k` starts, its thread stays where it is
          subst hk
          rw [side_setSide_self]
          exact ⟨fun _ => Or.inr ⟨todo, rfl⟩, id⟩
        · rw [side_setSide_ne s hk]
          exact ⟨Or.inl, id⟩
      | finish k =>
        simp only [mainStep, hmain, Option.some.injEq] at h
        subst h
        exact ⟨rfl, fun _ _ => hrest, fun k' => by cases k' <;> exact ⟨Or.inl, id⟩⟩
      | baseDaemon =>
        simp only [mainStep, hmain, Option.some.injEq] at h
        subst h
        exact ⟨rfl, fun _ _ => hrest, fun k' => by cases k' <;> exact ⟨Or.inl, id⟩⟩
      | joinPool =>
        simp only [mainStep, hmain] at h
        split at h
        · cases h
          exact ⟨rfl, fun _ _ => hrest, fun k' => by cases k' <;> exact ⟨Or.inl, id⟩⟩
        · cases h

/-- What a step of a thread changes. -/
theorem step_loop {k : Watcher} {res : Option (List UInt8)}
    (h : step s (.loop k res) = some s') :
    ∃ x env, loopStep s.m_canExit (s.side k) s.env res = some (x, env) ∧ s'.side k = x ∧
      (∀ k', k' ≠ k → s'.side k' = s.side k') ∧ s'.m_canExit = s.m_canExit ∧
        s'.main = s.main := by
  obtain ⟨⟨x, env⟩, hloop, rfl⟩ := Option.map_eq_some_iff.mp h
  obtain ⟨hexit, hmain⟩ := setSide_frame s k x
  refine ⟨x, env, hloop, ?_, ?_, hexit, hmain⟩
  · cases k <;> rfl
  · intro k' hk
    rw [← side_setSide_ne s hk x]
    cases k' <;> rfl

/-- The flag stays set; the destruction starts after the flag, and a destructor in its turn; once
the flag is set, a thread that is outside `readInotyEvents` stays outside. -/
theorem step_cases {l : Label} (h : step s l = some s') :
    (s.m_canExit = true → s'.m_canExit = true) ∧
      (∀ todo, s'.main = .destroying todo →
        s.m_canExit = true ∨ ∃ before, s.main = .destroying before) ∧
      ∀ k,
        ((s'.side k).destroyed = true → (s.side k).destroyed = true ∨
          l = .main ∧ ∃ todo, s.main = .destroying (.begin k :: todo)) ∧
        (s.m_canExit = true → ¬ (s.side k).pos.InReadInotyEvents →
          ¬ (s'.side k).pos.InReadInotyEvents) := by
  cases l with
  | signal =>
    cases h
    refine ⟨fun _ => rfl, fun todo htodo => Or.inr ⟨todo, htodo⟩, fun k => ?_⟩
    cases k <;> exact ⟨Or.inl, fun _ => id⟩
  | main =>
    obtain ⟨hexit, hmain, hsides⟩ := mainStep_cases h
    refine ⟨fun hset => hexit.trans hset, hmain, fun k => ?_⟩
    obtain ⟨hdestroyed, hpos⟩ := hsides k
    exact ⟨fun hk => (hdestroyed hk).imp id fun hbegin => ⟨rfl, hbegin⟩,
      fun _ hout hin => hout (hpos hin)⟩
  | loop k res =>
    obtain ⟨x, env, hloop, hself, hothers, hexit, hmain⟩ := step_loop h
    obtain ⟨hmark, houtside⟩ := loopStep_outside hloop
    refine ⟨fun hset => hexit.trans hset, ?_, fun k' => ?_⟩
    · intro todo htodo
      rw [hmain] at htodo
      exact Or.inr ⟨todo, htodo⟩
    · by_cases hk : k' = k
      · subst hk
        rw [hself, hmark]
        exact ⟨Or.inl, houtside⟩
      · rw [hothers k' hk]
        exact ⟨Or.inl, fun _ => id⟩

/-! ## The invariants -/

/-- The destruction starts after the flag is set. -/
def Exiting (s : State σ) : Prop := ∀ todo, s.main = .destroying todo → s.m_canExit = true

/-- The thread of a watcher is outside `readInotyEvents`, and the flag keeps it there. -/
def Outside (k : Watcher) (s : State σ) : Prop :=
  s.m_canExit = true ∧ ¬ (s.side k).pos.InReadInotyEvents

/-- The thread of a watcher whose destructor has started is outside `readInotyEvents`. -/
def DeadOutside (s : State σ) : Prop := ∀ k, (s.side k).destroyed = true → Outside k s

theorem exiting_step {l : Label} (hs : Exiting s) (h : step s l = some s') : Exiting s' := by
  obtain ⟨hflag, hmain, -⟩ := step_cases h
  intro todo htodo
  apply hflag
  rcases hmain todo htodo with hset | ⟨before, hbefore⟩
  · exact hset
  · exact hs before hbefore

theorem outside_step {k : Watcher} {l : Label} (hs : Outside k s) (h : step s l = some s') :
    Outside k s' := by
  obtain ⟨hflag, -, hsides⟩ := step_cases h
  exact ⟨hflag hs.1, (hsides k).2 hs.1 hs.2⟩

theorem deadOutside_step {l : Label} (hexit : Exiting s) (hs : DeadOutside s)
    (hok : DestroysIdle s l) (h : step s l = some s') : DeadOutside s' := by
  obtain ⟨-, -, hsides⟩ := step_cases h
  intro k hk
  apply outside_step _ h
  rcases (hsides k).1 hk with hdead | ⟨rfl, todo, hbegin⟩
  · exact hs k hdead
  · -- the destructor starts in this step, with the thread outside
    simp only [DestroysIdle, hbegin] at hok
    exact ⟨hexit _ hbegin, hok⟩

theorem exiting_init (h : s.IsInit) : Exiting s := by
  intro todo htodo
  rw [h.1] at htodo
  cases htodo

theorem deadOutside_init (h : s.IsInit) : DeadOutside s := by
  intro k hk
  rw [(h.2 k).1] at hk
  cases hk

theorem exiting_of_reachable {ok : State σ → Label → Prop}
    (h : Reachable step ok State.IsInit s) : Exiting s :=
  h.invariant (fun _ => exiting_init) fun _ _ _ hs _ hst => exiting_step hs hst

/-! ## One destructor -/

/-- A thread inside `readInotyEvents` can always take a step: the outcome of `read` may be an
error. -/
theorem loopStep_isSome {x : Side σ} (hin : x.pos.InReadInotyEvents) (m_canExit : Bool) (env : σ) :
    (loopStep m_canExit x env none).isSome = true := by
  obtain ⟨object, destroyed, pos⟩ := x
  cases pos with
  | enter => rfl
  | blocked => rfl
  | records len =>
    simp only [loopStep]
    split <;> rfl
  | unpushed => exact absurd hin id
  | queued => exact absurd hin id
  | check => exact absurd hin id
  | pause => exact absurd hin id
  | done => exact absurd hin id

/-- What the start of a destructor does. -/
theorem step_begin {k : Watcher} {todo : List Teardown}
    (hmain : s.main = .destroying (.begin k :: todo)) (h : step s .main = some s') :
    (s'.side k).destroyed = true ∧ (s'.side k).pos = (s.side k).pos ∧
      s'.m_canExit = s.m_canExit := by
  simp only [step, mainStep, hmain, Option.some.injEq] at h
  subst h
  cases k <;> exact ⟨rfl, rfl, rfl⟩

/-- The start of a destructor is safe for all that follows exactly when the thread of the watcher
is outside `readInotyEvents` then. -/
theorem begin_safe_iff {k : Watcher} {todo : List Teardown}
    (hreach : Reachable step Always State.IsInit s)
    (hmain : s.main = .destroying (.begin k :: todo)) (h : step s .main = some s') :
    (∀ ls t, Run step Always s' ls t → ∀ res, (step t (.loop k res)).isSome →
        ¬ UsesDeadWatcher t (.loop k res)) ↔
      ¬ (s.side k).pos.InReadInotyEvents := by
  obtain ⟨hdead, hpos, hexit⟩ := step_begin hmain h
  constructor
  · intro hsafe hin
    rw [← hpos] at hin
    -- the next step of the thread is a step of `readInotyEvents`
    apply hsafe [] s' Run.nil none _ ⟨hdead, hin⟩
    simp only [step, Option.isSome_map]
    exact loopStep_isSome hin _ _
  · intro hout ls t hrun res _ huse
    -- the flag is set, so the thread never enters again
    have hbegin : Outside k s' := by
      refine ⟨hexit.trans (exiting_of_reachable hreach _ hmain), ?_⟩
      rw [hpos]
      exact hout
    have hend : Outside k t :=
      hrun.invariant (fun _ _ _ hs _ hst => outside_step hs hst) hbegin
    exact hend.2 huse.2

/-! ## The shutdown -/

/-- In every run whose destructors start while the threads of their watchers are outside
`readInotyEvents`, no step uses a watcher whose destructor has started. -/
theorem no_dead_watcher (h : Reachable step DestroysIdle State.IsInit s) (l : Label) :
    ¬ UsesDeadWatcher s l := by
  have hs : Exiting s ∧ DeadOutside s :=
    h.invariant (I := fun s => Exiting s ∧ DeadOutside s)
      (fun _ hinit => ⟨exiting_init hinit, deadOutside_init hinit⟩)
      fun _ _ _ hs hok hst => ⟨exiting_step hs.1 hst, deadOutside_step hs.1 hs.2 hok hst⟩
  cases l with
  | signal => exact id
  | main => exact id
  | loop k res =>
    rintro ⟨hdead, hin⟩
    exact (hs.2 k hdead).2 hin

end System

/-! ## Concrete runs -/

instance (s : State Nat) : DecidablePred (DestroysIdle s)
  | .main =>
      match h : s.main with
      | .destroying (.begin k :: _) =>
          decidable_of_iff (¬ (s.side k).pos.InReadInotyEvents) (by simp [DestroysIdle, h])
      | .destroying (.finish _ :: _) | .destroying (.baseDaemon :: _)
      | .destroying (.joinPool :: _) | .destroying [] | .pushDelete | .pushAdd | .waiting =>
          isTrue (by simp [DestroysIdle, h])
  | .signal | .loop _ _ => isTrue trivial

instance : DecidableRel (DestroysIdle (σ := Nat)) := fun _ _ => inferInstance

instance (s : State Nat) : DecidablePred (UsesDeadWatcher s)
  | .loop k _ =>
      inferInstanceAs
        (Decidable ((s.side k).destroyed = true ∧ (s.side k).pos.InReadInotyEvents))
  | .signal | .main => isFalse id

/-- A watcher that counts the names it handles. -/
def freshSide : Side Nat := ⟨⟨fun _ calls => (true, calls + 1), [], 0⟩, false, .unpushed⟩

def startState : State Nat := ⟨false, .pushDelete, freshSide, freshSide, 0⟩

theorem isInit_startState : startState.IsInit :=
  ⟨rfl, fun k => by cases k <;> exact ⟨rfl, rfl⟩⟩

/-- Both threads are pushed and come to `read`. -/
def startRun : List Label :=
  [.main, .main, .loop .m_inotyInDelete none, .loop .m_inotyInAdd none,
    .loop .m_inotyInDelete none, .loop .m_inotyInAdd none, .loop .m_inotyInDelete none,
    .loop .m_inotyInAdd none]

/-- `m_inotyInAdd` handles three events and its thread ends before the destructor starts, while
the other thread waits in `read`. -/
def idleRun : List Label :=
  startRun ++ [.loop .m_inotyInAdd (some (encodeEvents threeEvents)), .loop .m_inotyInAdd none,
    .loop .m_inotyInAdd none, .loop .m_inotyInAdd none, .signal, .main, .loop .m_inotyInAdd none,
    .loop .m_inotyInAdd none, .loop .m_inotyInAdd none, .main]

theorem no_dead_watcher_idleRun :
    ∃ s, exec step DestroysIdle startState idleRun = some s ∧
      s.main = .destroying [.finish .m_inotyInAdd, .begin .m_inotyInDelete,
        .finish .m_inotyInDelete, .baseDaemon, .joinPool] ∧
      s.inDelete.pos = .blocked ∧ ∀ l, ¬ UsesDeadWatcher s l := by
  have hexec : ((exec step DestroysIdle startState idleRun).map fun s =>
      decide (s.main = .destroying [.finish .m_inotyInAdd, .begin .m_inotyInDelete,
        .finish .m_inotyInDelete, .baseDaemon, .joinPool] ∧ s.inDelete.pos = .blocked)) =
      some true := by
    decide +kernel
  obtain ⟨s, hs, hmain, hblocked⟩ := exec_decide_sound hexec
  exact ⟨s, hs, hmain, hblocked,
    no_dead_watcher (reachable_of_exec isInit_startState idleRun hs)⟩

/-- The event that `inotify_rm_watch` raises. -/
def ignoredEvent : InotifyEvent := ⟨1, 0x8000, 0, none⟩

/-- The destructor of `m_inotyInAdd` starts while its thread waits in `read`. -/
def blockedRun : List Label := startRun ++ [.signal, .main, .main]

/-- The shutdown can use a dead watcher: the destructor wakes the `read`, whose thread goes on with
the object. -/
theorem not_no_dead_watcher_blockedRun :
    ¬ ∀ s : State Nat, Reachable step Always State.IsInit s →
      ∀ l, (step s l).isSome → ¬ UsesDeadWatcher s l := by
  intro hall
  have hexec : ((exec step Always startState blockedRun).map fun s =>
      decide ((step s (.loop .m_inotyInAdd (some (encodeEvents [ignoredEvent])))).isSome = true ∧
        UsesDeadWatcher s (.loop .m_inotyInAdd (some (encodeEvents [ignoredEvent]))))) =
      some true := by
    decide +kernel
  obtain ⟨s, hs, henabled, huse⟩ := exec_decide_sound hexec
  exact hall s (reachable_of_exec isInit_startState blockedRun hs) _ henabled huse

end PetProject.Watch.Destruction
