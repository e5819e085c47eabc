import PetProject.Foundation.FairRuns
import PetProject.ThreadPool.Unshrunk

/-!
# What a flagged worker still does

A worker reads its flag after each task and when its predicate finds the queue empty; the first pop,
the pop after the test and the pop of the predicate ignore it. So from any point of its loop a
flagged worker can start one more task. `Worker.startsLeft` is that allowance: no step of the
system raises it, and starting a task uses it up. `Worker.rank` counts down to the end of the
loop, so a fair run takes the worker there.
-/

set_option autoImplicit false

namespace PetProject.ThreadPool

open PetProject.Foundation.Tally PetProject.Foundation.Transition PetProject.Foundation.FairRuns

/-! ## Starts of tasks -/

/-- The step is the invocation of a wrapper by worker `w`. -/
def State.Starts (s : State) (w : ThreadId) : Label → Bool
  | .sched a (.run _) =>
      a == w && match s.procs[w]? with
        | some (.worker (.scope _)) => true
        | _ => false
  | _ => false

/-- The number of tasks that worker `w` starts in a run. -/
def taskStarts (w : ThreadId) (s : State) : List Label → Nat
  | [] => 0
  | l :: ls =>
      (if s.Starts w l then 1 else 0) +
        match step s l with
        | some t => taskStarts w t ls
        | none => 0

/-- The tasks that a flagged worker may still start. -/
def Worker.startsLeft : Worker → Nat
  | .running _ _ | .testFlag _ | .leaveScope _ | .exited => 0
  | .leaveWait next | .unlock next => if next.isSome then 1 else 0
  | _ => 1

/-- The worker runs a task, or leaves its loop without another pop. -/
def Worker.isLast : Worker → Bool
  | .running _ _ | .testFlag _ | .leaveScope _ | .exited => true
  | _ => false

/-- The steps of its loop that a flagged worker may still take. -/
def Worker.rank : Worker → Nat
  | .exited => 0
  | .leaveScope _ => 1
  | .testFlag _ => 2
  | .running _ _ => 3
  | .scope _ => 4
  | .unlock _ => 5
  | .leaveWait _ => 6
  | .predFlag => 7
  | .predDone => 8
  | .predPop _ => 9
  | .enterWait => 10
  | .lock => 11
  | .waiting => 12
  | .block => 13
  | .start | .endScope _ _ => 14
  | .popNext _ => 15

/-- A worker goes on in its loop, or the task that it runs takes a step. -/
inductive WorkerMove (p : CThreadPool) (a : ThreadId) : Choice → Worker → Worker → Prop
  | loop {wake : Option ThreadId} {p' : CThreadPool} {w w' : Worker} :
      workerStep a p w = some (p', w') → WorkerMove p a (.run wake) w w'
  | task {ch : Choice} (f : TaskId) (c c' : Call) :
      WorkerMove p a ch (.running f c) (.running f c')
  | ret (f : TaskId) : WorkerMove p a .ret (.running f .idle) (.testFlag f)

theorem workerMove_of_move {a fresh : ThreadId} {p p' : CThreadPool} {ch : Choice} {w : Worker}
    {pr' : Proc} {new : List Worker} (h : Move a fresh p ch (.worker w) p' pr' new) :
    ∃ w', pr' = .worker w' ∧ WorkerMove p a ch w w' := by
  cases h with
  | taskCall f r hr => exact ⟨_, rfl, .task f _ _⟩
  | taskReturn f => exact ⟨_, rfl, .ret f⟩
  | task f hc => exact ⟨_, rfl, .task f _ _⟩
  | worker hw => exact ⟨_, rfl, .loop hw⟩

section Flagged

variable {p p' : CThreadPool} {a : ThreadId} {w w' : Worker}

/-- A step of its loop brings a flagged worker nearer to the end. -/
theorem workerStep_rank (hflag : a ∈ p.flagged) (h : workerStep a p w = some (p', w')) :
    w'.rank < w.rank := by
  revert h
  fun_cases workerStep a p w <;> intro h <;> cases h
  all_goals simp_all [Worker.rank]

/-- A step of its loop uses up the allowance when it starts a task. -/
theorem workerStep_startsLeft (hflag : a ∈ p.flagged) (h : workerStep a p w = some (p', w')) :
    w'.startsLeft ≤ w.startsLeft ∧
      (∀ f, w = .scope f → w'.startsLeft = 0 ∧ w'.isLast = true) ∧
      (w.isLast = true → w'.isLast = true) := by
  revert h
  fun_cases workerStep a p w <;> intro h <;> cases h
  all_goals simp_all [Worker.startsLeft, Worker.isLast]

/-- A move of a flagged worker lowers its rank, or its task takes a step. -/
theorem workerMove_rank {ch : Choice} (hflag : a ∈ p.flagged) (h : WorkerMove p a ch w w') :
    (∃ f c c', w = .running f c ∧ w' = .running f c') ∨ w'.rank < w.rank := by
  cases h with
  | loop hw => exact Or.inr (workerStep_rank hflag hw)
  | task f c c' => exact Or.inl ⟨f, c, c', rfl, rfl⟩
  | ret f => exact Or.inr (Nat.lt_succ_self _)

end Flagged

section Steps

variable {s s' : State} {l : Label} {a : ThreadId} {w : Worker}

/-- The flags are never reset. -/
theorem flagged_mono (h : step s l = some s') : s.pool.flagged ⊆ s'.pool.flagged := by
  rcases step_cases h with ⟨b, ch, pr, p', pr', new, -, -, hmove, rfl⟩ | ⟨b, -, -, rfl⟩ | ⟨-, rfl⟩
  · exact (move_calls hmove).1.1
  · exact fun _ hx => hx
  · exact fun _ hx => hx

/-- A step leaves a worker where it is, or is the worker's own. -/
theorem step_worker_cases (hw : s.procs[a]? = some (.worker w)) (h : step s l = some s') :
    (s'.procs[a]? = some (.worker w) ∧ ∀ ch, l ≠ .sched a ch) ∨
      ∃ ch w', l = .sched a ch ∧ s'.procs[a]? = some (.worker w') ∧
        WorkerMove s.pool a ch w w' := by
  rcases step_cases h with ⟨b, ch, pr, p', pr', new, rfl, hpr, hmove, rfl⟩ | ⟨b, rfl, -, rfl⟩ |
    ⟨rfl, rfl⟩
  · by_cases hba : b = a
    · subst hba
      rw [hw] at hpr
      cases hpr
      obtain ⟨w', rfl, hstep⟩ := workerMove_of_move hmove
      exact Or.inr ⟨ch, w', rfl, getElem?_move_self hw _ _, hstep⟩
    · refine Or.inl ⟨getElem?_move_ne (Ne.symm hba) hw _ _, fun ch' heq => ?_⟩
      cases heq
      exact hba rfl
  · exact Or.inl ⟨hw, nofun⟩
  · exact Or.inl ⟨getElem?_arrive_of hw _, nofun⟩

/-- Only a scheduled worker in front of an invocation starts a task. -/
theorem starts_iff (hw : s.procs[a]? = some (.worker w)) :
    s.Starts a l = true ↔ (∃ wake, l = .sched a (.run wake)) ∧ ∃ f, w = .scope f := by
  cases l with
  | sched b ch =>
    cases ch with
    | run wake =>
      cases w <;> simp [State.Starts, hw]
    | _ => simp [State.Starts]
  | _ => simp [State.Starts]

/-- One step of the system and the allowance of a flagged worker. -/
theorem startsLeft_step (hw : s.procs[a]? = some (.worker w)) (hflag : a ∈ s.pool.flagged)
    (h : step s l = some s') :
    ∃ w', s'.procs[a]? = some (.worker w') ∧
      (if s.Starts a l then 1 else 0) + w'.startsLeft ≤ w.startsLeft ∧
      (s.Starts a l = true → w'.isLast = true) ∧ (w.isLast = true → w'.isLast = true) := by
  rcases step_worker_cases hw h with ⟨hw', hother⟩ | ⟨ch, w', rfl, hw', hmove⟩
  · have hnot : ¬ s.Starts a l = true := by
      rw [starts_iff hw]
      rintro ⟨⟨wake, heq⟩, -⟩
      exact hother _ heq
    refine ⟨w, hw', ?_, fun h => absurd h hnot, id⟩
    rw [if_neg hnot, Nat.zero_add]
  · refine ⟨w', hw', ?_⟩
    cases hmove with
    | @loop wake p' _ _ hstep =>
      obtain ⟨hle, hscope, hlast⟩ := workerStep_startsLeft hflag hstep
      by_cases hstart : s.Starts a (.sched a (.run wake)) = true
      · obtain ⟨-, f, rfl⟩ := (starts_iff hw).mp hstart
        obtain ⟨hzero, hrun⟩ := hscope f rfl
        rw [if_pos hstart, hzero]
        exact ⟨Nat.le_refl _, fun _ => hrun, hlast⟩
      · rw [if_neg hstart, Nat.zero_add]
        exact ⟨hle, fun h => absurd h hstart, hlast⟩
    | task f c c' =>
      have hnot : ¬ s.Starts a (.sched a ch) = true := by
        rw [starts_iff hw]
        rintro ⟨-, f, heq⟩
        cases heq
      rw [if_neg hnot]
      exact ⟨Nat.le_refl _, fun h => absurd h hnot, id⟩
    | ret f =>
      have hnot : ¬ s.Starts a (.sched a .ret) = true := by
        rw [starts_iff hw]
        rintro ⟨-, f, heq⟩
        cases heq
      rw [if_neg hnot]
      exact ⟨Nat.le_refl _, fun h => absurd h hnot, fun _ => rfl⟩

/-- A run of the system and the allowance of a flagged worker. -/
theorem startsLeft_run {ls : List Label} (h : Run step Always s ls s')
    (hw : s.procs[a]? = some (.worker w)) (hflag : a ∈ s.pool.flagged) :
    ∃ w', s'.procs[a]? = some (.worker w') ∧ taskStarts a s ls + w'.startsLeft ≤ w.startsLeft ∧
      (0 < taskStarts a s ls ∨ w.isLast = true → w'.isLast = true) := by
  induction ls generalizing s w with
  | nil =>
    rw [h.nil_inv]
    exact ⟨w, hw, by simp [taskStarts], by simp [taskStarts]⟩
  | cons l ls ih =>
    obtain ⟨t, -, hst, hrun⟩ := h.cons_inv
    obtain ⟨w₁, hw₁, hle, hstart, hlast⟩ := startsLeft_step hw hflag hst
    obtain ⟨w', hw', hle', hlast'⟩ := ih hrun hw₁ (flagged_mono hst hflag)
    refine ⟨w', hw', ?_, ?_⟩
    · simp only [taskStarts, hst]
      omega
    · intro hcase
      by_cases hnow : s.Starts a l = true
      · exact hlast' (Or.inr (hstart hnow))
      · rcases hcase with hpos | hw
        · simp only [taskStarts, hst, if_neg hnow, Nat.zero_add] at hpos
          exact hlast' (Or.inl hpos)
        · exact hlast' (Or.inr (hlast hw))

end Steps

/-! ## The mutex comes free -/

/-- The steps that a call takes before it releases the mutex. -/
def Call.lockRank : Call → Nat
  | .pushNotify | .allNotify _ => 2
  | .pushUnlock | .allUnlock _ => 1
  | _ => 0

/-- The steps that a worker takes before it releases the mutex. -/
def Worker.lockRank : Worker → Nat
  | .running _ c => c.lockRank
  | .enterWait => 6
  | .predPop _ => 5
  | .predDone => 4
  | .predFlag => 3
  | .leaveWait _ => 2
  | .block | .unlock _ => 1
  | _ => 0

def Proc.lockRank : Proc → Nat
  | .worker w => w.lockRank
  | .client c => c.lockRank

/-- The next step of its code is open to thread `a`. -/
def State.CanRun (s : State) (a : ThreadId) : Prop :=
  ∃ wake, (step s (.sched a (.run wake))).isSome = true

section Locks

variable {a fresh : ThreadId} {wake : Option ThreadId} {p p' : CThreadPool} {ch : Choice}
  {pr pr' : Proc} {new : List Worker}

theorem callStep_lockRank {c c' : Call} (hc : c.locked = true)
    (h : callStep a wake fresh p c = some (p', c', new)) : c'.lockRank < c.lockRank := by
  revert h
  fun_cases callStep a wake fresh p c <;> intro h <;> cases h
  all_goals simp_all [Call.locked, Call.lockRank]

theorem workerStep_lockRank {w w' : Worker} (hw : w.locked = true)
    (h : workerStep a p w = some (p', w')) : w'.lockRank < w.lockRank := by
  revert h
  fun_cases workerStep a p w <;> intro h <;> cases h
  all_goals simp_all [Worker.locked, Worker.lockRank]

/-- A move inside a critical section brings its end nearer. -/
theorem move_lockRank (hpr : pr.locked = true) (h : Move a fresh p ch pr p' pr' new) :
    pr'.lockRank < pr.lockRank := by
  cases h with
  | clientCall | taskCall | taskReturn => cases hpr
  | client hc => exact callStep_lockRank hpr hc
  | task f hc => exact callStep_lockRank hpr hc
  | worker hw => exact workerStep_lockRank hpr hw

theorem canRun_client {s : State} {c : Call} {r : CThreadPool × Call × List Worker}
    (hpr : s.procs[a]? = some (.client c))
    (h : callStep a wake s.procs.length s.pool c = some r) : s.CanRun a := by
  refine ⟨wake, ?_⟩
  simp only [step, hpr, procStep, h, Option.map_some, Option.isSome_some]

theorem canRun_task {s : State} {f : TaskId} {c : Call} {r : CThreadPool × Call × List Worker}
    (hpr : s.procs[a]? = some (.worker (.running f c)))
    (h : callStep a wake s.procs.length s.pool c = some r) : s.CanRun a := by
  refine ⟨wake, ?_⟩
  simp only [step, hpr, procStep, h, Option.map_some, Option.isSome_some]

theorem canRun_worker {s : State} {w w' : Worker} (hpr : s.procs[a]? = some (.worker w))
    (h : workerStep a s.pool w = some (p', w')) : s.CanRun a := by
  refine ⟨none, ?_⟩
  rw [step_worker hpr h]
  rfl

/-- A call is never stuck inside its critical section. -/
theorem callStep_of_locked {c : Call} (hc : c.locked = true) :
    ∃ wake r, callStep a wake fresh p c = some r := by
  cases c with
  | pushNotify =>
    cases hsl : p.sleepers with
    | nil => exact ⟨none, (p, .pushUnlock, []), by simp only [callStep, hsl, if_true]⟩
    | cons b bs =>
      refine ⟨some b, ({ p with sleepers := p.sleepers.erase b }, .pushUnlock, []), ?_⟩
      have hb : b ∈ p.sleepers := by
        rw [hsl]
        exact List.mem_cons_self
      simp only [callStep, if_pos hb]
  | pushUnlock => exact ⟨none, _, rfl⟩
  | allNotify nt | allUnlock nt => cases nt <;> exact ⟨none, _, rfl⟩
  | _ => cases hc

/-- A thread inside its critical section can run. -/
theorem canRun_of_locked {s : State} (hpr : s.procs[a]? = some pr) (hlocked : pr.locked = true) :
    s.CanRun a := by
  cases pr with
  | client c =>
    obtain ⟨wake, r, hstep⟩ := callStep_of_locked hlocked
    exact canRun_client hpr hstep
  | worker w =>
    cases w with
    | running f c =>
      obtain ⟨wake, r, hstep⟩ := callStep_of_locked hlocked
      exact canRun_task hpr hstep
    | predPop woken =>
      rcases s.pool.qPop_cases with ⟨-, hp⟩ | ⟨f, q, -, hp⟩
      · exact canRun_worker hpr (by simp only [workerStep, hp]; rfl)
      · exact canRun_worker hpr (by simp only [workerStep, hp]; rfl)
    | predDone =>
      cases hdone : s.pool.isDone with
      | true => exact canRun_worker hpr (by simp only [workerStep, hdone, if_true]; rfl)
      | false => exact canRun_worker hpr (by simp only [workerStep, hdone]; rfl)
    | predFlag =>
      by_cases hflag : a ∈ s.pool.flagged
      · exact canRun_worker hpr (by simp only [workerStep, if_pos hflag]; rfl)
      · exact canRun_worker hpr (by simp only [workerStep, if_neg hflag]; rfl)
    | enterWait | block | leaveWait next => exact canRun_worker hpr rfl
    | unlock next => cases next <;> exact canRun_worker hpr rfl
    | _ => cases hlocked

/-- A flagged worker outside its task can run when the mutex is free and it is awake. -/
theorem canRun_of_free {s : State} {w : Worker} (hw : s.procs[a]? = some (.worker w))
    (hrun : ∀ f c, w ≠ .running f c) (hexit : w ≠ .exited) (hfree : s.pool.mutex = none)
    (hawake : a ∉ s.pool.sleepers) : s.CanRun a := by
  cases w with
  | running f c => exact absurd rfl (hrun f c)
  | exited => exact absurd rfl hexit
  | start =>
    rcases s.pool.qPop_cases with ⟨-, hp⟩ | ⟨f, q, -, hp⟩
    · exact canRun_worker hw (by simp only [workerStep, hp]; rfl)
    · exact canRun_worker hw (by simp only [workerStep, hp]; rfl)
  | scope f | popNext f | leaveScope f => exact canRun_worker hw rfl
  | testFlag f =>
    by_cases hflag : a ∈ s.pool.flagged
    · exact canRun_worker hw (by simp only [workerStep, if_pos hflag]; rfl)
    · exact canRun_worker hw (by simp only [workerStep, if_neg hflag]; rfl)
  | endScope f next => cases next <;> exact canRun_worker hw rfl
  | lock => exact canRun_worker hw (by simp only [workerStep, if_pos hfree]; rfl)
  | waiting =>
    exact canRun_worker hw (by simp only [workerStep, if_neg hawake, if_pos hfree]; rfl)
  | _ => exact canRun_of_locked hw rfl

end Locks

/-- What a fair schedule does for a worker: every thread that can run again and again runs, the
tasks that the worker runs return, and the call that flagged it gets to its `notify_all`. -/
structure Proceeds (π : Path step) (w : ThreadId) : Prop where
  fair : ∀ a, StronglyFair π (fun s => s.CanRun a) fun _ l => ∃ wake, l = .sched a (.run wake)
  returns : ∀ n f c, (π.state n).procs[w]? = some (.worker (.running f c)) →
    ∃ m, n ≤ m ∧ ∀ f' c', (π.state m).procs[w]? ≠ some (.worker (.running f' c'))
  announced : ∃ n, w ∈ (π.state n).pool.signalled

section Fair

variable {π : Path step} {w : ThreadId}

/-- A step hands the mutex to nobody else. -/
theorem mutex_step {s s' : State} {l : Label} {a : ThreadId}
    (h : step s l = some s') (hm : s.pool.mutex = some a) :
    s'.pool.mutex = some a ∨ s'.pool.mutex = none := by
  rcases step_cases h with ⟨b, ch, pr, p', pr', new, -, hpr, hmove, rfl⟩ | ⟨b, -, -, rfl⟩ | ⟨-, rfl⟩
  · rcases move_mutex hmove with ⟨heq, -⟩ | ⟨hnone, -⟩ | ⟨hnone, -⟩
    · exact Or.inl (heq.trans hm)
    · rw [hm] at hnone
      cases hnone
    · exact Or.inr hnone
  · exact Or.inl hm
  · exact Or.inl hm

/-- The steps that thread `a` takes before it releases the mutex. -/
def lockRankAt (a : ThreadId) (s : State) : Nat := (s.procs[a]?.map Proc.lockRank).getD 0

/-- One step of the system and the critical section of the owner. -/
theorem lockRank_step {s s' : State} {l : Label} {a : ThreadId} (hs : Waiting s)
    (h : step s l = some s') (hm : s.pool.mutex = some a) :
    lockRankAt a s' ≤ lockRankAt a s ∧
      ((∃ wake, l = .sched a (.run wake)) → lockRankAt a s' < lockRankAt a s) := by
  obtain ⟨pr₀, hpr₀, hlocked⟩ := (hs.mutex a).mp hm
  rcases step_cases h with ⟨b, ch, pr, p', pr', new, rfl, hpr, hmove, rfl⟩ | ⟨b, rfl, -, rfl⟩ |
    ⟨rfl, rfl⟩
  · by_cases hba : b = a
    · subst hba
      rw [hpr₀] at hpr
      cases hpr
      have hlt := move_lockRank hlocked hmove
      simp only [lockRankAt, getElem?_move_self hpr₀, hpr₀, Option.map_some, Option.getD_some]
      exact ⟨Nat.le_of_lt hlt, fun _ => hlt⟩
    · simp only [lockRankAt, getElem?_move_ne (Ne.symm hba) hpr₀, hpr₀]
      refine ⟨Nat.le_refl _, ?_⟩
      rintro ⟨wake, heq⟩
      cases heq
      exact absurd rfl hba
  · exact ⟨Nat.le_refl _, nofun⟩
  · simp only [lockRankAt, getElem?_arrive_of hpr₀, hpr₀]
    exact ⟨Nat.le_refl _, nofun⟩

/-- In a fair run the mutex comes free again and again. -/
theorem mutex_recurs (hw : Waiting (π.state 0))
    (hfair : ∀ a, StronglyFair π (fun s => s.CanRun a)
      fun _ l => ∃ wake, l = .sched a (.run wake)) :
    Recurs fun n => (π.state n).pool.mutex = none := by
  have hwait : ∀ n, Waiting (π.state n) := fun n =>
    π.invariant (fun _ _ _ hs hst => waiting_step hs hst) (Nat.zero_le n) hw
  intro n
  cases hm : (π.state n).pool.mutex with
  | none => exact ⟨n, Nat.le_refl n, hm⟩
  | some a =>
    -- the owner leaves its critical section
    obtain ⟨k, hnk, hk⟩ := (hfair a).eventually n (fun k => (π.state k).pool.mutex ≠ some a)
      (fun k => lockRankAt a (π.state k))
      (fun k _ hk => (lockRank_step (hwait k) (π.next k) (not_not.mp hk)).1)
      (fun k _ hk hdone => (lockRank_step (hwait k) (π.next k) (not_not.mp hk)).2 hdone)
      (fun hnone k => by
        have hown := not_not.mp (hnone (max k n) (Nat.le_max_right k n))
        obtain ⟨pr, hpr, hlocked⟩ := ((hwait _).mutex a).mp hown
        exact ⟨max k n, Nat.le_max_left k n, canRun_of_locked hpr hlocked⟩)
    -- and in between the mutex is free
    have hkept : (∃ m, n ≤ m ∧ (π.state m).pool.mutex = none) ∨
        (π.state k).pool.mutex = some a := by
      clear hk
      induction k, hnk using Nat.le_induction with
      | base => exact Or.inr hm
      | succ k hnk ih =>
        rcases ih with hfree | hown
        · exact Or.inl hfree
        · rcases mutex_step (π.next k) hown with hown' | hfree
          · exact Or.inr hown'
          · exact Or.inl ⟨k + 1, Nat.le_succ_of_le hnk, hfree⟩
    rcases hkept with hfree | hown
    · exact hfree
    · exact absurd hown hk

/-- The position of the worker counts down to the end of its loop. -/
def rankAt (w : ThreadId) (s : State) : Nat :=
  match s.procs[w]? with
  | some (.worker wk) => wk.rank
  | _ => 0

/-- One step of the system and the rank of a flagged worker outside its task. -/
theorem rank_step {s s' : State} {l : Label} {wk : Worker} (h : step s l = some s')
    (hw : s.procs[w]? = some (.worker wk)) (hflag : w ∈ s.pool.flagged)
    (hrun : ∀ f c, wk ≠ .running f c) :
    rankAt w s' ≤ rankAt w s ∧
      ((∃ wake, l = .sched w (.run wake)) → rankAt w s' < rankAt w s) := by
  rcases step_worker_cases hw h with ⟨hw', hother⟩ | ⟨ch, wk', rfl, hw', hmove⟩
  · simp only [rankAt, hw, hw']
    refine ⟨Nat.le_refl _, ?_⟩
    rintro ⟨wake, heq⟩
    exact absurd heq (hother _)
  · have hlt : wk'.rank < wk.rank := by
      rcases workerMove_rank hflag hmove with ⟨f, c, c', heq, -⟩ | hlt
      · exact absurd heq (hrun f c)
      · exact hlt
    simp only [rankAt, hw, hw']
    exact ⟨Nat.le_of_lt hlt, fun _ => hlt⟩

/-- Where a flagged worker is along a path. -/
theorem flagged_along (hflag : w ∈ (π.state 0).pool.flagged) {wk : Worker}
    (hw : (π.state 0).procs[w]? = some (.worker wk)) (n : Nat) :
    w ∈ (π.state n).pool.flagged ∧ ∃ wk', (π.state n).procs[w]? = some (.worker wk') := by
  obtain ⟨ls, hrun⟩ := π.run (Nat.zero_le n)
  obtain ⟨wk', hwk', -⟩ := startsLeft_run hrun hw hflag
  exact ⟨π.invariant (fun _ _ _ hs hst => flagged_mono hst hs) (Nat.zero_le n) hflag, wk', hwk'⟩

/-- Once its flag is announced, the worker can run again and again as long as it is neither in a
task nor at the end. -/
theorem canRun_recurs (hwait : Waiting (π.state 0)) (hp : Proceeds π w) {n₀ : Nat}
    (hon : ∀ n, n₀ ≤ n → ∃ wk, (π.state n).procs[w]? = some (.worker wk) ∧
      (∀ f c, wk ≠ .running f c) ∧ wk ≠ .exited) :
    Recurs fun n => (π.state n).CanRun w := by
  intro n
  obtain ⟨k, hk⟩ := hp.announced
  obtain ⟨m, hm, hfree⟩ := mutex_recurs hwait hp.fair (max n (max k n₀))
  obtain ⟨wk, hwk, hrun, hexit⟩ := hon m (by omega)
  -- an announced worker is not asleep
  have hsig : w ∈ (π.state m).pool.signalled :=
    π.invariant (fun _ _ _ hs hst => (signalled_mono hst).1 hs) (by omega) hk
  have hwaiting : Waiting (π.state m) :=
    π.invariant (fun _ _ _ hs hst => waiting_step hs hst) (Nat.zero_le m) hwait
  exact ⟨m, by omega, canRun_of_free hwk hrun hexit hfree (hwaiting.signalled.flags w hsig).2.1⟩

/-- In a fair run a flagged worker gets to a task or to the end of its loop. -/
theorem exits_or_runs (hwait : Waiting (π.state 0)) (hp : Proceeds π w)
    (hflag : w ∈ (π.state 0).pool.flagged) {wk : Worker}
    (hw : (π.state 0).procs[w]? = some (.worker wk)) (n₀ : Nat) :
    ∃ n, n₀ ≤ n ∧ ((π.state n).procs[w]? = some (.worker .exited) ∨
      ∃ f c, (π.state n).procs[w]? = some (.worker (.running f c))) := by
  -- before the goal the worker is somewhere in its loop
  have hloop : ∀ n, ¬ ((π.state n).procs[w]? = some (.worker .exited) ∨
      ∃ f c, (π.state n).procs[w]? = some (.worker (.running f c))) →
      ∃ wk', (π.state n).procs[w]? = some (.worker wk') ∧ (∀ f c, wk' ≠ .running f c) ∧
        wk' ≠ .exited := by
    intro n hgoal
    obtain ⟨hexit, hrun⟩ := not_or.mp hgoal
    obtain ⟨-, wk', hwk'⟩ := flagged_along hflag hw n
    refine ⟨wk', hwk', fun f c heq => hrun ⟨f, c, ?_⟩, fun heq => hexit ?_⟩
    · rw [hwk', heq]
    · rw [hwk', heq]
  refine (hp.fair w).eventually n₀ _ (fun n => rankAt w (π.state n)) (fun n _ hgoal => ?_)
    (fun n _ hgoal hdone => ?_) fun hnone => ?_
  · obtain ⟨wk', hwk', hrun, -⟩ := hloop n hgoal
    exact (rank_step (π.next n) hwk' (flagged_along hflag hw n).1 hrun).1
  · obtain ⟨wk', hwk', hrun, -⟩ := hloop n hgoal
    exact (rank_step (π.next n) hwk' (flagged_along hflag hw n).1 hrun).2 hdone
  · exact canRun_recurs hwait hp fun n hn => hloop n (hnone n hn)

/-- The rank of a flagged worker never grows. -/
theorem rank_along (hflag : w ∈ (π.state 0).pool.flagged) {m n : Nat} (h : m ≤ n) {wk : Worker}
    (hw : (π.state m).procs[w]? = some (.worker wk)) :
    ∃ wk', (π.state n).procs[w]? = some (.worker wk') ∧ wk'.rank ≤ wk.rank := by
  have hm : w ∈ (π.state m).pool.flagged :=
    π.invariant (fun _ _ _ hs hst => flagged_mono hst hs) (Nat.zero_le m) hflag
  have key := π.invariant (I := fun t => w ∈ t.pool.flagged ∧
    ∃ wk', t.procs[w]? = some (.worker wk') ∧ wk'.rank ≤ wk.rank) ?_ h ⟨hm, wk, hw, Nat.le_refl _⟩
  · exact key.2
  · rintro s l t ⟨hf, wk₁, hw₁, hle⟩ hst
    refine ⟨flagged_mono hst hf, ?_⟩
    rcases step_worker_cases hw₁ hst with ⟨hw₂, -⟩ | ⟨ch, wk₂, rfl, hw₂, hmove⟩
    · exact ⟨wk₁, hw₂, hle⟩
    · refine ⟨wk₂, hw₂, ?_⟩
      rcases workerMove_rank hf hmove with ⟨f, c, c', rfl, rfl⟩ | hlt
      · exact hle
      · omega

/-- In a fair run a flagged worker leaves its loop for good. -/
theorem leaves_loop (hwait : Waiting (π.state 0)) (hp : Proceeds π w)
    (hflag : w ∈ (π.state 0).pool.flagged) {wk : Worker}
    (hw : (π.state 0).procs[w]? = some (.worker wk)) :
    ∃ n, ∀ m, n ≤ m → (π.state m).procs[w]? = some (.worker .exited) := by
  have hforever : ∀ n, (π.state n).procs[w]? = some (.worker .exited) →
      ∀ m, n ≤ m → (π.state m).procs[w]? = some (.worker .exited) := by
    intro n hn m hm
    obtain ⟨wk', hwk', hle⟩ := rank_along hflag hm hn
    cases wk' with
    | exited => exact hwk'
    | _ => cases hle
  obtain ⟨n, -, hexit | ⟨f, c, hrun⟩⟩ := exits_or_runs hwait hp hflag hw 0
  · exact ⟨n, hforever n hexit⟩
  · -- the task returns, and behind it the worker only reads its flag and leaves
    obtain ⟨m, hm, hreturned⟩ := hp.returns n f c hrun
    obtain ⟨wk', hwk', hle⟩ := rank_along hflag hm hrun
    have hlow : wk'.rank ≤ 2 := by
      cases wk' with
      | running f' c' => exact absurd hwk' (hreturned f' c')
      | testFlag | leaveScope | exited => simp [Worker.rank]
      | _ => simp [Worker.rank] at hle
    obtain ⟨k, hk, hexit | ⟨f', c', hrun'⟩⟩ := exits_or_runs hwait hp hflag hw m
    · exact ⟨k, hforever k hexit⟩
    · obtain ⟨wk'', hwk'', hle'⟩ := rank_along hflag hk hwk'
      rw [hrun'] at hwk''
      cases hwk''
      have hthree : 3 ≤ wk'.rank := hle'
      omega

end Fair

/-! ## The tasks of a stopped pool -/

/-- Every worker is flagged or has left its loop, and no call starts workers any more. -/
structure AllFlagged (s : State) : Prop where
  isStop : s.pool.isStop = true
  workers : ∀ (b : ThreadId) (w : Worker), s.procs[b]? = some (.worker w) →
    b ∈ s.pool.flagged ∨ w = .exited
  growing : ∀ (b : ThreadId) (pr : Proc) (n : Nat), s.procs[b]? = some pr →
    pr.call ≠ .resizeIsDone n ∧ pr.call ≠ .resizeGrow n

/-- The tasks that a thread may still start. -/
def Proc.startsLeft : Proc → Nat
  | .worker w => w.startsLeft
  | .client _ => 0

section Pool

variable {a fresh : ThreadId} {p p' : CThreadPool} {ch : Choice} {pr pr' : Proc}
  {new : List Worker} {s s' : State}

/-- A call that is not starting workers starts none once `isStop` is set. -/
theorem callStep_stopped {wake : Option ThreadId} {c c' : Call}
    (h : callStep a wake fresh p c = some (p', c', new)) (hstop : p.isStop = true)
    (hgrow : ∀ n, c ≠ .resizeIsDone n ∧ c ≠ .resizeGrow n) :
    new = [] ∧ p'.isStop = true ∧ p'.invoked = p.invoked ∧
      ∀ n, c' ≠ .resizeIsDone n ∧ c' ≠ .resizeGrow n := by
  obtain ⟨hinv, -⟩ := callStep_invocations h
  refine ⟨?_, (callStep_grows h).1 hstop, hinv, ?_⟩
  · rcases callStep_threads h with ⟨-, hnew⟩ | ⟨-, -, -, n, rfl⟩ | ⟨n, -, -, hnew⟩ |
      ⟨isWait, -, -, hnew⟩
    · exact hnew
    · exact absurd rfl (hgrow n).2
    · exact hnew
    · exact hnew
  · revert h
    fun_cases callStep a wake fresh p c <;> intro h <;> cases h
    all_goals simp_all

theorem workerStep_invoked {w w' : Worker} (hflag : a ∈ p.flagged)
    (h : workerStep a p w = some (p', w')) :
    p'.isStop = p.isStop ∧ p'.invoked.length + w'.startsLeft ≤ p.invoked.length + w.startsLeft := by
  obtain ⟨hctl, -⟩ := qPop_control p
  obtain ⟨-, -, hinv, -⟩ := qPop_frame p
  simp only [CThreadPool.control, Prod.mk.injEq] at hctl
  revert h
  fun_cases workerStep a p w <;> intro h <;> cases h
  all_goals simp_all [Worker.startsLeft]

/-- A move in a stopped pool: nobody is started, and a task is started on somebody's allowance. -/
theorem move_allFlagged (hs : AllFlagged s) (hpr : s.procs[a]? = some pr)
    (h : Move a fresh s.pool ch pr p' pr' new) :
    new = [] ∧ p'.isStop = true ∧
      p'.invoked.length + pr'.startsLeft ≤ s.pool.invoked.length + pr.startsLeft ∧
      ∀ n, pr'.call ≠ .resizeIsDone n ∧ pr'.call ≠ .resizeGrow n := by
  have hentry : ∀ (r : Request) (n : Nat), r.entry ≠ .resizeIsDone n ∧ r.entry ≠ .resizeGrow n := by
    intro r n
    cases r with
    | stop isWait => cases isWait <;> exact ⟨nofun, nofun⟩
    | _ => exact ⟨nofun, nofun⟩
  have hcall := fun n => hs.growing a pr n hpr
  cases h with
  | clientCall r => exact ⟨rfl, hs.isStop, Nat.le_refl _, hentry r⟩
  | taskCall f r hr => exact ⟨rfl, hs.isStop, Nat.le_refl _, hentry r⟩
  | taskReturn f => exact ⟨rfl, hs.isStop, Nat.le_refl _, fun n => ⟨nofun, nofun⟩⟩
  | client hc =>
    obtain ⟨hnew, hstop, hinv, hnext⟩ := callStep_stopped hc hs.isStop hcall
    exact ⟨hnew, hstop, by rw [hinv]; rfl, hnext⟩
  | task f hc =>
    obtain ⟨hnew, hstop, hinv, hnext⟩ := callStep_stopped hc hs.isStop hcall
    exact ⟨hnew, hstop, by rw [hinv]; rfl, hnext⟩
  | @worker wake w w' _ hw =>
    have hflag : a ∈ s.pool.flagged := by
      rcases hs.workers a w hpr with hmem | rfl
      · exact hmem
      · cases hw
    obtain ⟨hstop, hle⟩ := workerStep_invoked hflag hw
    refine ⟨rfl, hstop.trans hs.isStop, hle, fun n => ?_⟩
    cases w' with
    | running f c =>
      rw [workerStep_running hw]
      exact ⟨nofun, nofun⟩
    | _ => exact ⟨nofun, nofun⟩

theorem allFlagged_step {l : Label} (hs : AllFlagged s) (h : step s l = some s') :
    AllFlagged s' ∧ s'.pool.invoked.length + tally Proc.startsLeft s'.procs ≤
      s.pool.invoked.length + tally Proc.startsLeft s.procs := by
  have hmono := flagged_mono h
  rcases step_cases h with ⟨a, ch, pr, p', pr', new, -, hpr, hmove, rfl⟩ | ⟨b, -, -, rfl⟩ | ⟨-, rfl⟩
  · obtain ⟨rfl, hstop, hle, hnext⟩ := move_allFlagged hs hpr hmove
    have htally := tally_set Proc.startsLeft hpr pr'
    refine ⟨⟨hstop, fun b w hb => ?_, fun b q n hb => ?_⟩, ?_⟩
    · rcases getElem?_move hpr hmove hb with ⟨rfl, rfl⟩ | ⟨-, hold⟩ | ⟨rfl, -⟩
      · obtain ⟨w₀, rfl⟩ := (move_of_worker hmove).1 w rfl
        rcases hs.workers b w₀ hpr with hmem | rfl
        · exact Or.inl (hmono hmem)
        · exact absurd rfl (move_of_worker hmove).2
      · rcases hs.workers b w hold with hmem | hexit
        · exact Or.inl (hmono hmem)
        · exact Or.inr hexit
      · simp at hb
    · rcases getElem?_move hpr hmove hb with ⟨-, rfl⟩ | ⟨-, hold⟩ | ⟨rfl, -⟩
      · exact hnext n
      · exact hs.growing b q n hold
      · simp at hb
    · simp only [List.map_nil, List.append_nil]
      omega
  · exact ⟨⟨hs.isStop, hs.workers, hs.growing⟩, Nat.le_refl _⟩
  · refine ⟨⟨hs.isStop, fun b w hb => hs.workers b w (arrive_worker hb), fun b q n hb => ?_⟩, ?_⟩
    · rcases getElem?_arrive hb with hold | ⟨-, rfl⟩
      · exact hs.growing b q n hold
      · exact ⟨nofun, nofun⟩
    · simp [Proc.startsLeft]

/-- Along every run of a stopped pool the tasks started are within the allowances. -/
theorem invoked_run {ls : List Label} (hs : AllFlagged s) (h : Run step Always s ls s') :
    s'.pool.invoked.length ≤ s.pool.invoked.length + tally Proc.startsLeft s.procs := by
  have key := h.invariant (I := fun t => AllFlagged t ∧
    t.pool.invoked.length + tally Proc.startsLeft t.procs ≤
      s.pool.invoked.length + tally Proc.startsLeft s.procs)
    (fun t l u ht _ hst => by
      obtain ⟨hu, hle⟩ := allFlagged_step ht.1 hst
      exact ⟨hu, Nat.le_trans hle ht.2⟩)
    ⟨hs, Nat.le_refl _⟩
  exact Nat.le_trans (Nat.le_add_right _ _) key.2

/-- When the flags of a pool that was never shrunk are set, the workers that may start a task are
workers of the vector. -/
theorem startsLeft_le_threads (hs : Unshrunk s) :
    tally Proc.startsLeft s.procs ≤ s.pool.threads.length := by
  refine tally_le_length _ (fun pr => ?_) fun b pr hb hpos => ?_
  · cases pr with
    | client c => exact Nat.zero_le _
    | worker w =>
      cases w with
      | leaveWait next | unlock next => cases next <;> simp [Proc.startsLeft, Worker.startsLeft]
      | _ => simp [Proc.startsLeft, Worker.startsLeft]
  · cases pr with
    | client c => cases hpos
    | worker w =>
      rcases hs.listed b w hb with hmem | rfl
      · exact hmem
      · cases hpos

/-- Behind its loop over the flags `stop(false)` has flagged every worker of such a pool. -/
theorem allFlagged_of_stopClear (hs : Unshrunk s) {b : ThreadId} {fs : List ThreadId}
    (hb : s.procs[b]? = some (.client (.stopClear fs))) : AllFlagged s := by
  obtain ⟨hstop, hflags⟩ := hs.assured b _ hb
  refine ⟨hstop, fun d w hd => ?_, fun d pr n hd => ?_⟩
  · rcases hs.listed d w hd with hmem | hexit
    · exact Or.inl (hflags hmem)
    · exact Or.inr hexit
  · cases pr with
    | worker w =>
      cases w with
      | running f c =>
        have hother := (isQueue_other (hs.tasks d f c hd)).1
        constructor <;> rintro rfl <;> cases hother
      | _ => exact ⟨nofun, nofun⟩
    | client c =>
      -- `resize` does not overlap with this `stop`
      have hother : c.isResize = false := by
        by_contra hne
        have hbd : b ≠ d := by
          rintro rfl
          rw [hb] at hd
          cases hd
          exact hne rfl
        have hstopped := (hs.alone d b c _ hd hb hbd (Bool.eq_true_of_not_eq_false hne)).2
        cases hstopped
      constructor <;> rintro rfl <;> cases hother

end Pool

/-- From any point of its loop a flagged worker starts at most one task in the rest of the run,
behind it only reads its flag and leaves, and in a fair run has left its loop at some time for good;
when `stop(false)` has set the flags of a pool of `n` workers that was never shrunk, at most `n`
tasks are started in the rest of the run. -/
theorem at_most_one_more_task :
    (∀ (s : State) (w : ThreadId) (wk : Worker), Reachable step Always State.IsInit s →
      s.procs[w]? = some (.worker wk) → w ∈ s.pool.flagged →
        (∀ ls s', Run step Always s ls s' → taskStarts w s ls ≤ 1 ∧
          (taskStarts w s ls = 1 →
            ∃ wk', s'.procs[w]? = some (.worker wk') ∧ wk'.isLast = true)) ∧
        ∀ π : Path step, π.state 0 = s → Proceeds π w →
          ∃ n, ∀ m, n ≤ m → (π.state m).procs[w]? = some (.worker .exited)) ∧
    (∀ (s : State) (b : ThreadId) (fs : List ThreadId) (n : Nat),
      Reachable step (fun s l => growRun s l = true) State.IsInit s →
      s.procs[b]? = some (.client (.stopClear fs)) → s.pool.threads.length = n →
        ∀ ls s', Run step Always s ls s' →
          s'.pool.invoked.length ≤ s.pool.invoked.length + n) := by
  refine ⟨fun s w wk hs hw hflag => ⟨fun ls s' hrun => ?_, ?_⟩, ?_⟩
  · obtain ⟨wk', hwk', hle, hlast⟩ := startsLeft_run hrun hw hflag
    have hone : wk.startsLeft ≤ 1 := by
      cases wk with
      | leaveWait next | unlock next => cases next <;> simp [Worker.startsLeft]
      | _ => simp [Worker.startsLeft]
    exact ⟨by omega, fun heq => ⟨wk', hwk', hlast (Or.inl (by omega))⟩⟩
  · rintro π rfl hp
    exact leaves_loop (waiting_of_reachable hs) hp hflag hw
  · rintro s b fs n hs hb rfl ls s' hrun
    have hun := unshrunk_of_reachable hs
    have hle := invoked_run (allFlagged_of_stopClear hun hb) hrun
    have := startsLeft_le_threads hun
    omega

/-- The thread has no step of its code to take. -/
def Proc.rests (sleepers : List ThreadId) (a : ThreadId) : Proc → Bool
  | .client c => c == .idle
  | .worker .exited => true
  | .worker .waiting => decide (a ∈ sleepers)
  | .worker _ => false

theorem not_canRun_of_rests {s : State} {a : ThreadId}
    (h : ∀ pr, s.procs[a]? = some pr → pr.rests s.pool.sleepers a = true) : ¬ s.CanRun a := by
  rintro ⟨wake, hrun⟩
  simp only [step] at hrun
  split at hrun
  · cases hrun
  · rename_i pr hpr
    have hrest := h pr hpr
    cases pr with
    | client c =>
      rw [Proc.rests, beq_iff_eq] at hrest
      subst hrest
      simp [procStep, callStep] at hrun
    | worker w =>
      cases w with
      | waiting =>
        rw [Proc.rests, decide_eq_true_eq] at hrest
        simp [procStep, workerStep, hrest] at hrun
      | exited => simp [procStep, workerStep] at hrun
      | _ => cases hrest

/-- The state after `n` steps of the shrunk worker of `shrinkState`, and then after arrivals. -/
def shrinkAfter (n : Nat) : State :=
  let s := (exec step Always shrinkState (turns 2 (min n 6))).getD shrinkState
  { s with procs := s.procs ++ List.replicate (n - 6) (.client .idle) }

/-- The shrunk worker wakes and leaves its loop; then only outside threads arrive. -/
def shrinkPath : Path step where
  state := shrinkAfter
  label n := if n < 6 then .sched 2 (.run none) else .arrive
  next n := by
    by_cases hn : n < 6
    · rw [if_pos hn]
      interval_cases n <;> decide
    · obtain ⟨k, rfl⟩ := Nat.exists_eq_add_of_le (Nat.le_of_not_lt hn)
      rw [if_neg hn]
      simp only [step, shrinkAfter, Nat.min_eq_right (Nat.le_add_right 6 k),
        Nat.min_eq_right (Nat.le_add_right 6 (k + 1)), Nat.add_assoc, Nat.add_sub_cancel_left,
        List.replicate_succ', List.append_assoc]

theorem proceeds_shrinkPath : Proceeds shrinkPath 2 := by
  -- from the sixth step on the old threads rest and the new ones are idle
  have hend : ∀ n, 6 ≤ n → ∀ (a : ThreadId) (pr : Proc), (shrinkAfter n).procs[a]? = some pr →
      pr.rests (shrinkAfter n).pool.sleepers a = true := by
    intro n hn a pr hpr
    have hsleepers : (shrinkAfter n).pool.sleepers = [1] := by
      simp only [shrinkAfter, Nat.min_eq_right hn]
      decide
    rw [hsleepers]
    have hold : ∀ (b : Fin 3), (shrinkAfter 6).procs[b].rests [1] b = true := by decide
    simp only [shrinkAfter, Nat.min_eq_right hn] at hpr
    by_cases ha : a < 3
    · rw [List.getElem?_append_left ha] at hpr
      obtain ⟨hlt, rfl⟩ := List.getElem?_eq_some_iff.mp hpr
      exact hold ⟨a, ha⟩
    · rw [List.getElem?_append_right (Nat.le_of_not_lt ha), List.getElem?_replicate] at hpr
      split at hpr
      · cases hpr
        rfl
      · cases hpr
  refine ⟨fun a => StronglyFair.of_never fun n hn => not_canRun_of_rests (hend n hn a), ?_,
    0, by decide⟩
  intro n f c hrun
  refine ⟨max n 6, Nat.le_max_left n 6, fun f' c' hlate => ?_⟩
  have hrest := hend _ (Nat.le_max_right n 6) 2 _ hlate
  cases hrest

/-- Two workers and three tasks; `stop(false)` has flagged both workers, one of which is running. -/
def stoppingRun : List Label :=
  let push : List Label := .sched 0 (.call .push) :: turns 0 4
  [.arrive, .sched 0 (.call (.resize 2))] ++ turns 0 5 ++ push ++ push ++ push ++ turns 1 2 ++
    [.sched 0 (.call (.stop false))] ++ turns 0 5

/-- The state after `stoppingRun`. -/
def stoppingState : State where
  pool :=
    { CThreadPool.init with
      queue := [1, 2], isStop := true, flagged := [2, 1], threads := [1, 2]
      enqueued := [0, 1, 2], taken := [0], invoked := [0] }
  procs := [.client (.stopClear [2, 1]), .worker (.running 0 .idle), .worker .start]

theorem at_most_one_more_task_stoppingRun :
    ((∀ ls s', Run step Always shrinkState ls s' → taskStarts 2 shrinkState ls ≤ 1 ∧
        (taskStarts 2 shrinkState ls = 1 →
          ∃ wk', s'.procs[2]? = some (.worker wk') ∧ wk'.isLast = true)) ∧
      ∃ n, ∀ m, n ≤ m → (shrinkPath.state m).procs[2]? = some (.worker .exited)) ∧
    (∀ ls s', Run step Always stoppingState ls s' → s'.pool.invoked.length ≤ 1 + 2) :=
  ⟨⟨(at_most_one_more_task.1 shrinkState 2 .waiting (reachable_of_exec rfl shrinkRun (by decide))
      rfl (by decide)).1,
    (at_most_one_more_task.1 shrinkState 2 .waiting (reachable_of_exec rfl shrinkRun (by decide))
      rfl (by decide)).2 shrinkPath (by decide) proceeds_shrinkPath⟩,
    at_most_one_more_task.2 stoppingState 0 [2, 1] 2
      (reachable_of_exec rfl stoppingRun (by decide)) rfl rfl⟩

end PetProject.ThreadPool
