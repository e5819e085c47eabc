import PetProject.ThreadPool.Ownership
import PetProject.ThreadPool.Stopping

/-!
# No task starves

A fair run with one worker that is never flagged, whose tasks return, and no `stop(true)`: every
wrapper in the queue is taken out of it, and a wrapper that was taken is invoked, or was taken by
`pop()` or `clear_queue`. The tasks of the other workers may run forever.

Suppose that nothing is popped any more and the queue is not empty. A woken worker would evaluate
its predicate and pop, so no worker is woken; a push that is on its way would wake a sleeper, so
either none is on its way or nobody sleeps; the balance of the waiting protocol then leaves no
sleeper, and the worker comes around its loop to its next pop.
-/

set_option autoImplicit false

namespace PetProject.ThreadPool

open PetProject.Foundation.Tally PetProject.Foundation.Transition PetProject.Foundation.FairRuns

/-! ## Pops -/

section Local

variable {a fresh : ThreadId} {wake : Option ThreadId} {p p' : CThreadPool} {ch : Choice}
  {pr pr' : Proc} {new : List Worker}

theorem qPop_taken (p : CThreadPool) :
    p.qPop.1.taken = p.taken ∨ ∃ f, p.qPop.1.taken = p.taken ++ [f] := by
  rcases p.qPop_cases with ⟨-, hp⟩ | ⟨f, q, -, hp⟩
  · exact Or.inl (by rw [hp])
  · exact Or.inr ⟨f, by rw [hp]⟩

theorem callStep_taken {c c' : Call} (h : callStep a wake fresh p c = some (p', c', new)) :
    p'.taken = p.taken ∨ ∃ f, p'.taken = p.taken ++ [f] := by
  have hpop := qPop_taken p
  revert h
  fun_cases callStep a wake fresh p c <;> intro h <;> cases h <;> simp_all [CThreadPool.qPush]

theorem workerStep_taken {w w' : Worker} (h : workerStep a p w = some (p', w')) :
    p'.taken = p.taken ∨ ∃ f, p'.taken = p.taken ++ [f] := by
  have hpop := qPop_taken p
  revert h
  fun_cases workerStep a p w <;> intro h <;> cases h <;> simp_all

theorem move_taken (h : Move a fresh p ch pr p' pr' new) :
    p'.taken = p.taken ∨ ∃ f, p'.taken = p.taken ++ [f] := by
  cases h with
  | clientCall | taskCall | taskReturn => exact Or.inl rfl
  | client hc => exact callStep_taken hc
  | task f hc => exact callStep_taken hc
  | worker hw => exact workerStep_taken hw

end Local

section Steps

variable {s s' : State} {l : Label}

/-- A step takes at most one wrapper. -/
theorem taken_step (h : step s l = some s') :
    s'.pool.taken = s.pool.taken ∨ ∃ f, s'.pool.taken = s.pool.taken ++ [f] := by
  rcases step_cases h with ⟨a, ch, pr, p', pr', new, -, -, hmove, rfl⟩ | ⟨b, -, -, rfl⟩ | ⟨-, rfl⟩
  · exact move_taken hmove
  · exact Or.inl rfl
  · exact Or.inl rfl

theorem length_taken_step (h : step s l = some s') :
    s.pool.taken.length ≤ s'.pool.taken.length := by
  rcases taken_step h with heq | ⟨f, heq⟩
  · rw [heq]
  · rw [heq, List.length_append]
    exact Nat.le_add_right _ _

theorem enqueued_step {f : TaskId} (h : step s l = some s') (hf : f ∈ s.pool.enqueued) :
    f ∈ s'.pool.enqueued := by
  rcases step_cases h with ⟨a, ch, pr, p', pr', new, -, -, hmove, rfl⟩ | ⟨b, -, -, rfl⟩ | ⟨-, rfl⟩
  · rcases move_extends hmove with ⟨heq, -⟩ | ⟨heq, -, -⟩
    · change f ∈ p'.enqueued
      rwa [heq]
    · change f ∈ p'.enqueued
      rw [heq]
      exact List.mem_append_left _ hf
  · exact hf
  · exact hf

/-- The other threads, and what they do to the sleepers, leave a woken worker woken. -/
theorem notMem_sleepers_step {a : ThreadId} (h : step s l = some s') (ha : a ∉ s.pool.sleepers)
    (hblock : ∀ ch, l = .sched a ch → s.procs[a]? ≠ some (.worker .block)) :
    a ∉ s'.pool.sleepers := by
  rcases step_cases h with ⟨b, ch, pr, p', pr', new, rfl, hpr, hmove, rfl⟩ | ⟨b, -, -, rfl⟩ |
    ⟨-, rfl⟩
  · rcases move_sleepers hmove with ⟨hsub, -, -⟩ | ⟨heq, rfl, -⟩
    · exact fun hmem => ha (hsub hmem)
    · intro hmem
      change a ∈ p'.sleepers at hmem
      rw [heq, List.mem_cons] at hmem
      rcases hmem with rfl | hmem
      · exact hblock ch rfl hpr
      · exact ha hmem
  · exact fun hmem => ha (List.mem_of_mem_erase hmem)
  · exact ha

end Steps

/-! ## A woken worker -/

/-- The steps that a woken worker takes before its pop. -/
def wokenRank (a : ThreadId) (s : State) : Nat :=
  match s.procs[a]? with
  | some (.worker .waiting) => 2
  | some (.worker (.predPop _)) => 1
  | _ => 0

/-- As long as nothing is popped, a woken worker stays woken and comes nearer to its pop. -/
theorem woken_step {s s' : State} {l : Label} {a : ThreadId} (hs : Waiting s)
    (hwoken : s.Woken a) (hqueue : s.pool.queue ≠ []) (h : step s l = some s')
    (htaken : s'.pool.taken = s.pool.taken) :
    s'.Woken a ∧ wokenRank a s' ≤ wokenRank a s ∧
      ((∃ wake, l = .sched a (.run wake)) → wokenRank a s' < wokenRank a s) := by
  have hawake : a ∉ s.pool.sleepers := by
    rcases hwoken with ⟨-, hnot⟩ | hpred
    · exact hnot
    · intro hmem
      have hwaiting := hs.sleepers.2 a hmem
      rw [hpred] at hwaiting
      cases hwaiting
  obtain ⟨wk, hwk, hpos⟩ : ∃ wk, s.procs[a]? = some (.worker wk) ∧
      (wk = .waiting ∨ wk = .predPop true) := by
    rcases hwoken with ⟨hwaiting, -⟩ | hpred
    · exact ⟨_, hwaiting, Or.inl rfl⟩
    · exact ⟨_, hpred, Or.inr rfl⟩
  have hawake' : a ∉ s'.pool.sleepers := by
    refine notMem_sleepers_step h hawake fun ch _ hblock => ?_
    rw [hwk] at hblock
    cases hblock
    rcases hpos with hpos | hpos <;> cases hpos
  rcases step_cases h with ⟨b, ch, pr, p', pr', new, rfl, hpr, hmove, rfl⟩ | ⟨b, rfl, -, rfl⟩ |
    ⟨rfl, rfl⟩
  · by_cases hba : b = a
    · subst hba
      rw [hwk] at hpr
      cases hpr
      have hself := getElem?_move_self hwk pr' new
      cases hmove with
      | taskCall | taskReturn | task => rcases hpos with hpos | hpos <;> cases hpos
      | @worker wake _ wk' _ hw =>
        rcases hpos with rfl | rfl
        · -- it takes the mutex again, to evaluate the predicate
          simp only [workerStep, if_neg hawake] at hw
          split at hw
          · cases hw
            refine ⟨Or.inr hself, ?_, fun _ => ?_⟩
            · simp only [wokenRank, hself, hwk]
              omega
            · simp only [wokenRank, hself, hwk]
              omega
          · cases hw
        · -- the predicate pops
          rcases predPop_step hw with ⟨f, q, -, -, rfl⟩ | ⟨hq, -, -⟩
          · simp at htaken
          · exact absurd hq hqueue
    · have hself := getElem?_move_ne (Ne.symm hba) hwk pr' new
      refine ⟨?_, ?_, ?_⟩
      · rcases hpos with rfl | rfl
        · exact Or.inl ⟨hself, hawake'⟩
        · exact Or.inr hself
      · simp only [wokenRank, hself, hwk]
        exact Nat.le_refl _
      · rintro ⟨wake, heq⟩
        cases heq
        exact absurd rfl hba
  · refine ⟨?_, Nat.le_refl _, ?_⟩
    · rcases hpos with rfl | rfl
      · exact Or.inl ⟨hwk, hawake'⟩
      · exact Or.inr hwk
    · rintro ⟨wake, heq⟩
      cases heq
  · have hself := getElem?_arrive_of hwk (.client .idle)
    refine ⟨?_, ?_, ?_⟩
    · rcases hpos with rfl | rfl
      · exact Or.inl ⟨hself, hawake'⟩
      · exact Or.inr hself
    · simp only [wokenRank, hself, hwk]
      exact Nat.le_refl _
    · rintro ⟨wake, heq⟩
      cases heq

/-! ## A push on its way -/

/-- The steps that a push takes until it has notified. -/
def Call.pushRank : Call → Nat
  | .pushLock => 2
  | .pushNotify => 1
  | _ => 0

def pushRank (a : ThreadId) (s : State) : Nat := (s.procs[a]?.map fun pr => pr.call.pushRank).getD 0

theorem callStep_pending {a fresh : ThreadId} {wake : Option ThreadId} {p p' : CThreadPool}
    {c c' : Call} {new : List Worker} (hc : c.pending = true)
    (h : callStep a wake fresh p c = some (p', c', new)) :
    (c'.pending = true ∧ c'.pushRank < c.pushRank) ∨
      (p.sleepers = [] ∨ ∃ w ∈ p.sleepers, p'.sleepers = p.sleepers.erase w) := by
  cases c with
  | pushLock =>
    simp only [callStep] at h
    split at h
    · cases h
      exact Or.inl ⟨rfl, Nat.lt_succ_self 1⟩
    · cases h
  | pushNotify =>
    obtain ⟨-, ⟨hnone, -⟩ | ⟨w, hw, rfl⟩⟩ := notify_step h
    · exact Or.inr (Or.inl hnone)
    · exact Or.inr (Or.inr ⟨w, hw, rfl⟩)
  | _ => cases hc

theorem move_pending {a fresh : ThreadId} {p p' : CThreadPool} {ch : Choice} {pr pr' : Proc}
    {new : List Worker} (hpr : pr.pending = true) (h : Move a fresh p ch pr p' pr' new) :
    (pr'.pending = true ∧ pr'.call.pushRank < pr.call.pushRank) ∨
      (p.sleepers = [] ∨ ∃ w ∈ p.sleepers, p'.sleepers = p.sleepers.erase w) := by
  cases h with
  | clientCall | taskCall | taskReturn => cases hpr
  | client hc => exact callStep_pending hpr hc
  | task f hc => exact callStep_pending hpr hc
  | @worker wake w w' _ hw =>
    cases w with
    | running => simp [workerStep] at hw
    | _ => cases hpr

theorem canRun_of_pending {s : State} {a : ThreadId} {pr : Proc} (hpr : s.procs[a]? = some pr)
    (hpend : pr.pending = true) (hfree : s.pool.mutex = none) : s.CanRun a := by
  have hcall (c : Call) (hc : c.pending = true) :
      ∃ wake r, callStep a wake s.procs.length s.pool c = some r := by
    cases c with
    | pushLock => exact ⟨none, _, by simp only [callStep, if_pos hfree]; rfl⟩
    | pushNotify => exact callStep_of_locked rfl
    | _ => cases hc
  cases pr with
  | client c =>
    obtain ⟨wake, r, hstep⟩ := hcall c hpend
    exact canRun_client hpr hstep
  | worker wk =>
    cases wk with
    | running f c =>
      obtain ⟨wake, r, hstep⟩ := hcall c hpend
      exact canRun_task hpr hstep
    | _ => cases hpend

/-- With no push on its way and nobody woken, the queue is empty or nobody sleeps. -/
theorem queue_or_sleepers {s : State} (hs : Waiting s) (hpush : ∀ a, ¬ s.Pushing a)
    (hwoken : ∀ a, ¬ s.Woken a) : s.pool.queue = [] ∨ s.pool.sleepers = [] := by
  by_contra hcon
  obtain ⟨hq, hsl⟩ := not_or.mp hcon
  have hbal := hs.balanced (Or.inl hsl)
  have hnone : tally (weigh Proc.pending) s.procs = 0 := by
    refine (tally_eq_zero_iff _ _).mpr fun pr hpr => ?_
    obtain ⟨a, ha⟩ := List.mem_iff_getElem?.mp hpr
    have hpend : ¬ pr.pending = true := fun hp => hpush a ⟨pr, ha, hp⟩
    simp [weigh, hpend]
  have hwait := inWait_le_sleepers hwoken
  have := List.length_pos_iff.mpr hq
  omega

/-- As long as somebody sleeps and nobody is woken, a push on its way comes nearer to its
notification. -/
theorem pushing_step {s s' : State} {l : Label} {a : ThreadId} (hs : Waiting s)
    (hpush : s.Pushing a) (hsleep : s.pool.sleepers ≠ []) (h : step s l = some s')
    (hwoken : ∀ b, ¬ s'.Woken b) :
    s'.Pushing a ∧ pushRank a s' ≤ pushRank a s ∧
      ((∃ wake, l = .sched a (.run wake)) → pushRank a s' < pushRank a s) := by
  obtain ⟨pr₀, hpr₀, hpend⟩ := hpush
  rcases step_cases h with ⟨b, ch, pr, p', pr', new, rfl, hpr, hmove, rfl⟩ | ⟨b, rfl, -, rfl⟩ |
    ⟨rfl, rfl⟩
  · by_cases hba : b = a
    · subst hba
      rw [hpr₀] at hpr
      cases hpr
      have hself := getElem?_move_self hpr₀ pr' new
      rcases move_pending hpend hmove with ⟨hpend', hlt⟩ | hnone | ⟨w, hw, heq⟩
      · simp only [pushRank, hself, hpr₀, Option.map_some, Option.getD_some]
        exact ⟨⟨pr', hself, hpend'⟩, Nat.le_of_lt hlt, fun _ => hlt⟩
      · exact absurd hnone hsleep
      · -- the sleeper that was notified is woken
        have hwaiting := hs.sleepers.2 w hw
        have hne : w ≠ b := by
          rintro rfl
          rw [hpr₀] at hwaiting
          cases hwaiting
          cases hpend
        refine absurd (Or.inl ⟨getElem?_move_ne hne hwaiting pr' new, ?_⟩) (hwoken w)
        change w ∉ p'.sleepers
        rw [heq]
        exact fun hmem => ((hs.sleepers.1.mem_erase_iff).mp hmem).1 rfl
    · have hself := getElem?_move_ne (Ne.symm hba) hpr₀ pr' new
      refine ⟨⟨pr₀, hself, hpend⟩, ?_, ?_⟩
      · simp only [pushRank, hself, hpr₀]
        exact Nat.le_refl _
      · rintro ⟨wake, heq⟩
        cases heq
        exact absurd rfl hba
  · exact ⟨⟨pr₀, hpr₀, hpend⟩, Nat.le_refl _, nofun⟩
  · have hself := getElem?_arrive_of hpr₀ (.client .idle)
    refine ⟨⟨pr₀, hself, hpend⟩, ?_, nofun⟩
    simp only [pushRank, hself, hpr₀]
    exact Nat.le_refl _

/-- As long as nobody is woken, a sleeper sleeps on. -/
theorem sleepers_step {s s' : State} {l : Label} (hs : Waiting s) (h : step s l = some s')
    (hwoken : ∀ b, ¬ s'.Woken b) : s.pool.sleepers ⊆ s'.pool.sleepers := by
  intro w hw
  have hwaiting := hs.sleepers.2 w hw
  by_contra hnot
  refine hwoken w (Or.inl ⟨?_, hnot⟩)
  rcases step_cases h with ⟨b, ch, pr, p', pr', new, rfl, hpr, hmove, rfl⟩ | ⟨b, rfl, -, rfl⟩ |
    ⟨rfl, rfl⟩
  · refine getElem?_move_ne ?_ hwaiting pr' new
    rintro rfl
    rw [hwaiting] at hpr
    cases hpr
    -- a sleeper takes no step
    rcases move_sleepers hmove with ⟨-, -, hself⟩ | ⟨-, heq, -⟩
    · exact hself rfl hw
    · cases heq
  · exact hwaiting
  · exact getElem?_arrive_of hwaiting _

/-! ## The worker that stays -/

/-- The worker is on its way out of its loop. -/
def Worker.leaves : Worker → Bool
  | .leaveScope _ | .exited => true
  | .leaveWait next | .unlock next => next.isNone
  | _ => false

/-- Workers leave their loops by their flags or by `isDone`. -/
def LeavesByOrder (s : State) : Prop :=
  ∀ (a : ThreadId) (w : Worker), s.procs[a]? = some (.worker w) → w.leaves = true →
    a ∈ s.pool.flagged ∨ s.pool.isDone = true

theorem workerStep_leaves {a : ThreadId} {p p' : CThreadPool} {w w' : Worker}
    (h : workerStep a p w = some (p', w')) (hw : w.leaves = true → a ∈ p.flagged ∨ p.isDone = true)
    (hw' : w'.leaves = true) : a ∈ p.flagged ∨ p.isDone = true := by
  revert h
  fun_cases workerStep a p w <;> intro h <;> cases h
  all_goals simp_all [Worker.leaves]

theorem leavesByOrder_step {s s' : State} {l : Label} (hs : LeavesByOrder s)
    (h : step s l = some s') : LeavesByOrder s' := by
  rcases step_cases h with ⟨b, ch, pr, p', pr', new, rfl, hpr, hmove, rfl⟩ | ⟨b, rfl, -, rfl⟩ |
    ⟨rfl, rfl⟩
  · obtain ⟨⟨hflag, hdone⟩, -, -⟩ := move_calls hmove
    have hkeep {a : ThreadId} (ha : a ∈ s.pool.flagged ∨ s.pool.isDone = true) :
        a ∈ p'.flagged ∨ p'.isDone = true := ha.imp (fun hmem => hflag hmem) hdone
    intro a w hw hleaves
    rcases getElem?_move hpr hmove hw with ⟨rfl, rfl⟩ | ⟨-, hold⟩ | ⟨-, hstart⟩
    · apply hkeep
      cases hmove with
      | taskCall | taskReturn | task => cases hleaves
      | worker hstep => exact workerStep_leaves hstep (hs a _ hpr) hleaves
    · exact hkeep (hs a w hold hleaves)
    · cases hstart
      cases hleaves
  · exact hs
  · intro a w hw hleaves
    exact hs a w (arrive_worker hw) hleaves

/-- The steps that a worker takes before its next pop, when it finds a wrapper in the queue. -/
def Worker.popRank : Worker → Nat
  | .start => 1
  | .predPop _ => 3
  | .waiting | .enterWait => 4
  | .lock => 5
  | .popNext _ => 6
  | .testFlag _ => 7
  | .running _ _ => 8
  | .scope _ | .block => 9
  | .predFlag | .unlock _ => 10
  | .predDone | .leaveWait _ => 11
  | .endScope _ _ => 12
  | .leaveScope _ | .exited => 0

theorem workerStep_popRank {a : ThreadId} {p p' : CThreadPool} {w w' : Worker}
    (h : workerStep a p w = some (p', w')) (hqueue : p.queue ≠ []) (htaken : p'.taken = p.taken)
    (hstay : w'.leaves = false) : w'.popRank < w.popRank := by
  have hpop : p.qPop.1.taken ≠ p.taken ∧ p.qPop.2 ≠ none := by
    rcases p.qPop_cases with ⟨hq, -⟩ | ⟨f, q, -, hp⟩
    · exact absurd hq hqueue
    · rw [hp]
      simp
  revert h
  fun_cases workerStep a p w <;> intro h <;> cases h
  all_goals simp_all [Worker.leaves, Worker.popRank]

theorem workerMove_popRank {a : ThreadId} {p p' : CThreadPool} {ch : Choice} {w w' : Worker}
    {fresh : ThreadId} {new : List Worker}
    (h : Move a fresh p ch (.worker w) p' (.worker w') new) (hqueue : p.queue ≠ [])
    (htaken : p'.taken = p.taken) (hstay : w'.leaves = false) :
    (∃ f c c', w = .running f c ∧ w' = .running f c') ∨ w'.popRank < w.popRank := by
  cases h with
  | taskCall f r hr => exact Or.inl ⟨f, _, _, rfl, rfl⟩
  | taskReturn f => exact Or.inr (Nat.lt_succ_self 7)
  | task f hc => exact Or.inl ⟨f, _, _, rfl, rfl⟩
  | worker hw => exact Or.inr (workerStep_popRank hw hqueue htaken hstay)

/-! ## Fair runs -/

/-- What a fair schedule does for a worker that stays: every thread that can run again and again
runs, and the tasks that the worker runs return. -/
structure Serves (π : Path step) (w : ThreadId) : Prop where
  fair : ∀ a, StronglyFair π (fun s => s.CanRun a) fun _ l => ∃ wake, l = .sched a (.run wake)
  there : ∃ wk, (π.state 0).procs[w]? = some (.worker wk)
  returns : ∀ n f c, (π.state n).procs[w]? = some (.worker (.running f c)) →
    ∃ m, n ≤ m ∧ ∀ f' c', (π.state m).procs[w]? ≠ some (.worker (.running f' c'))
  stays : ∀ n, w ∉ (π.state n).pool.flagged ∧ (π.state n).pool.isDone = false

/-- From `n₀` on there is something in the queue, and nothing is taken. -/
def Starved (π : Path step) (n₀ : Nat) : Prop :=
  ∀ n, n₀ ≤ n → (π.state n).pool.queue ≠ [] ∧
    (π.state (n + 1)).pool.taken = (π.state n).pool.taken

section Paths

variable {π : Path step} {w : ThreadId} {n₀ : Nat}

theorem not_woken_of_starved (hwait : ∀ n, Waiting (π.state n)) (hserves : Serves π w)
    (hstarved : Starved π n₀) {n : Nat} (hn : n₀ ≤ n) (a : ThreadId) : ¬ (π.state n).Woken a := by
  intro hwoken
  have hstep {m : Nat} (hm : n ≤ m) (hwm : (π.state m).Woken a) :=
    woken_step (hwait m) hwm (hstarved m (Nat.le_trans hn hm)).1 (π.next m)
      (hstarved m (Nat.le_trans hn hm)).2
  have hall : ∀ m, n ≤ m → (π.state m).Woken a := by
    intro m hm
    induction m, hm using Nat.le_induction with
    | base => exact hwoken
    | succ m hm ih => exact (hstep hm ih).1
  -- it takes the mutex and pops
  obtain ⟨m, -, hfalse⟩ := (hserves.fair a).eventually n (fun _ => False)
    (fun m => wokenRank a (π.state m)) (fun m hm _ => (hstep hm (hall m hm)).2.1)
    (fun m hm _ hdone => (hstep hm (hall m hm)).2.2 hdone) fun _ k => by
      obtain ⟨m, hm, hfree⟩ := mutex_recurs (hwait 0) hserves.fair (max k n)
      refine ⟨m, by omega, ?_⟩
      rcases hall m (by omega) with ⟨hwaiting, hawake⟩ | hpred
      · exact canRun_of_free hwaiting nofun nofun hfree hawake
      · exact canRun_of_locked hpred rfl
  exact hfalse

theorem not_pushing_of_starved (hwait : ∀ n, Waiting (π.state n)) (hserves : Serves π w)
    (hstarved : Starved π n₀) {n : Nat} (hn : n₀ ≤ n) (hsleep : (π.state n).pool.sleepers ≠ [])
    (a : ThreadId) : ¬ (π.state n).Pushing a := by
  intro hpush
  have hnone {m : Nat} (hm : n ≤ m) (b : ThreadId) : ¬ (π.state m).Woken b :=
    not_woken_of_starved hwait hserves hstarved (Nat.le_trans hn hm) b
  have hasleep : ∀ m, n ≤ m → (π.state m).pool.sleepers ≠ [] := by
    intro m hm
    induction m, hm using Nat.le_induction with
    | base => exact hsleep
    | succ m hm ih =>
      obtain ⟨b, hb⟩ := List.exists_mem_of_ne_nil _ ih
      exact List.ne_nil_of_mem
        (sleepers_step (hwait m) (π.next m) (hnone (Nat.le_succ_of_le hm)) hb)
  have hstep {m : Nat} (hm : n ≤ m) (hpm : (π.state m).Pushing a) :=
    pushing_step (hwait m) hpm (hasleep m hm) (π.next m) (hnone (Nat.le_succ_of_le hm))
  have hall : ∀ m, n ≤ m → (π.state m).Pushing a := by
    intro m hm
    induction m, hm using Nat.le_induction with
    | base => exact hpush
    | succ m hm ih => exact (hstep hm ih).1
  -- it takes the mutex and notifies
  obtain ⟨m, -, hfalse⟩ := (hserves.fair a).eventually n (fun _ => False)
    (fun m => pushRank a (π.state m)) (fun m hm _ => (hstep hm (hall m hm)).2.1)
    (fun m hm _ hdone => (hstep hm (hall m hm)).2.2 hdone) fun _ k => by
      obtain ⟨m, hm, hfree⟩ := mutex_recurs (hwait 0) hserves.fair (max k n)
      obtain ⟨pr, hpr, hpend⟩ := hall m (by omega)
      exact ⟨m, by omega, canRun_of_pending hpr hpend hfree⟩
  exact hfalse

/-- The balance leaves no sleeper. -/
theorem sleepers_of_starved (hwait : ∀ n, Waiting (π.state n)) (hserves : Serves π w)
    (hstarved : Starved π n₀) {n : Nat} (hn : n₀ ≤ n) : (π.state n).pool.sleepers = [] := by
  by_contra hsleep
  rcases queue_or_sleepers (hwait n)
    (not_pushing_of_starved hwait hserves hstarved hn hsleep)
    (not_woken_of_starved hwait hserves hstarved hn) with hq | hsl
  · exact (hstarved n hn).1 hq
  · exact hsleep hsl

/-- Where the worker that stays is along a path. -/
theorem staying_along (hserves : Serves π w) (hleft : ∀ n, LeavesByOrder (π.state n)) (n : Nat) :
    ∃ wk, (π.state n).procs[w]? = some (.worker wk) ∧ wk.leaves = false := by
  have hthere : ∃ wk, (π.state n).procs[w]? = some (.worker wk) :=
    π.invariant (I := fun s => ∃ wk, s.procs[w]? = some (.worker wk))
      (fun s l t hs hst => by
        obtain ⟨wk, hwk⟩ := hs
        rcases step_worker_cases hwk hst with ⟨hwk', -⟩ | ⟨ch, wk', -, hwk', -⟩
        · exact ⟨wk, hwk'⟩
        · exact ⟨wk', hwk'⟩) (Nat.zero_le n) hserves.there
  obtain ⟨wk, hwk⟩ := hthere
  refine ⟨wk, hwk, ?_⟩
  cases hleaves : wk.leaves with
  | false => rfl
  | true =>
    obtain ⟨hflag, hdone⟩ := hserves.stays n
    rcases hleft n w wk hwk hleaves with hmem | htrue
    · exact absurd hmem hflag
    · rw [hdone] at htrue
      cases htrue

def popRankAt (w : ThreadId) (s : State) : Nat :=
  match s.procs[w]? with
  | some (.worker wk) => wk.popRank
  | _ => 0

theorem popRank_step (hserves : Serves π w) (hleft : ∀ n, LeavesByOrder (π.state n))
    (hstarved : Starved π n₀) {n : Nat} (hn : n₀ ≤ n) :
    popRankAt w (π.state (n + 1)) ≤ popRankAt w (π.state n) ∧
      ((∃ wake, π.label n = .sched w (.run wake)) →
        (∀ f c, (π.state n).procs[w]? ≠ some (.worker (.running f c))) →
        popRankAt w (π.state (n + 1)) < popRankAt w (π.state n)) := by
  obtain ⟨hqueue, htaken⟩ := hstarved n hn
  obtain ⟨wk, hwk, -⟩ := staying_along hserves hleft n
  obtain ⟨wk', hwk', hstay⟩ := staying_along hserves hleft (n + 1)
  have hnext := π.next n
  revert hnext
  generalize hl : π.label n = l
  intro hnext
  rcases step_cases hnext with ⟨b, ch, pr, p', pr', new, rfl, hpr, hmove, heq⟩ | ⟨b, rfl, -, heq⟩ |
    ⟨rfl, heq⟩
  · rw [heq] at htaken hwk' ⊢
    by_cases hbw : b = w
    · subst hbw
      rw [hwk] at hpr
      cases hpr
      have hself := getElem?_move_self hwk pr' new
      have hwk'' := hself.symm.trans hwk'
      cases hwk''
      simp only [popRankAt, hself, hwk]
      rcases workerMove_popRank hmove hqueue htaken hstay with ⟨f, c, c', rfl, rfl⟩ | hlt
      · exact ⟨Nat.le_refl _, fun _ hrun => absurd rfl (hrun f c)⟩
      · exact ⟨Nat.le_of_lt hlt, fun _ _ => hlt⟩
    · simp only [popRankAt, getElem?_move_ne (Ne.symm hbw) hwk, hwk]
      refine ⟨Nat.le_refl _, ?_⟩
      rintro ⟨wake, hsched⟩
      cases hsched
      exact absurd rfl hbw
  · rw [heq]
    exact ⟨Nat.le_refl _, nofun⟩
  · rw [heq]
    simp only [popRankAt, getElem?_arrive_of hwk, hwk]
    exact ⟨Nat.le_refl _, nofun⟩

/-- As long as something is in the queue, something is taken again and again. -/
theorem not_starved (hwait : ∀ n, Waiting (π.state n)) (hleft : ∀ n, LeavesByOrder (π.state n))
    (hserves : Serves π w) (n₀ : Nat) : ¬ Starved π n₀ := by
  intro hstarved
  let rank : Nat → Nat := fun n => popRankAt w (π.state n)
  have hmono : ∀ n, n₀ ≤ n → ¬ False → rank (n + 1) ≤ rank n :=
    fun n hn _ => (popRank_step hserves hleft hstarved hn).1
  have hdrop : Recurs fun n => rank (n + 1) < rank n := by
    intro n
    by_cases hrunning : ∃ m, max n n₀ ≤ m ∧
        ∃ f c, (π.state m).procs[w]? = some (.worker (.running f c))
    · -- its task returns, and the rank is lower behind it
      obtain ⟨m, hm, f, c, hrun⟩ := hrunning
      obtain ⟨m', hm', hreturned⟩ := hserves.returns m f c hrun
      have hle : rank m' ≤ rank m := rank_le hmono (fun _ _ h => h) (by omega) hm'
      obtain ⟨wk, hwk, -⟩ := staying_along hserves hleft m'
      have hne : rank m' ≠ rank m := by
        intro heq
        simp only [rank, popRankAt, hwk, hrun] at heq
        cases wk with
        | running f' c' => exact hreturned f' c' hwk
        | _ => simp [Worker.popRank] at heq
      obtain ⟨k, hk, -, hlt⟩ := exists_drop hm' (Nat.lt_of_le_of_ne hle hne)
      exact ⟨k, by omega, hlt⟩
    · -- it is awake, and runs when the mutex comes free
      have hnot : ∀ m, max n n₀ ≤ m → ∀ f c,
          (π.state m).procs[w]? ≠ some (.worker (.running f c)) :=
        fun m hm f c hrun => hrunning ⟨m, hm, f, c, hrun⟩
      have hcan : Recurs fun m => (π.state m).CanRun w := by
        intro k
        obtain ⟨m, hm, hfree⟩ := mutex_recurs (hwait 0) hserves.fair (max k (max n n₀))
        obtain ⟨wk, hwk, hstay⟩ := staying_along hserves hleft m
        refine ⟨m, by omega, canRun_of_free hwk (fun f c heq => ?_) (fun heq => ?_) hfree ?_⟩
        · exact hnot m (by omega) f c (by rw [hwk, heq])
        · rw [heq] at hstay
          cases hstay
        · rw [sleepers_of_starved hwait hserves hstarved (by omega)]
          exact List.not_mem_nil
      obtain ⟨m, hm, hdone⟩ := hserves.fair w hcan (max n n₀)
      exact ⟨m, by omega, (popRank_step hserves hleft hstarved (by omega)).2 hdone (hnot m hm)⟩
  obtain ⟨n, -, hfalse⟩ : ∃ n, n₀ ≤ n ∧ False := eventually_of_drops hmono fun _ => hdrop
  exact hfalse

/-- The wrappers are taken in the order of their numbers. -/
theorem mem_taken_iff {s : State} (hs : Owned s) (f : TaskId) :
    f ∈ s.pool.taken ↔ f < s.pool.taken.length := by
  have hprefix : s.pool.taken <+: List.range s.pool.enqueued.length := by
    rw [← hs.numbered, hs.fifo]
    exact List.prefix_append _ _
  have hrange : s.pool.taken = List.range s.pool.taken.length := by
    have htake := List.prefix_iff_eq_take.mp hprefix
    rw [List.take_range, Nat.min_eq_left] at htake
    · exact htake
    · have hlength := hprefix.length_le
      rwa [List.length_range] at hlength
  have hmem : f ∈ s.pool.taken ↔ f ∈ List.range s.pool.taken.length := by rw [← hrange]
  rw [hmem, List.mem_range]

/-- Every wrapper is taken out of the queue. -/
theorem eventually_taken (hwait : ∀ n, Waiting (π.state n)) (howned : ∀ n, Owned (π.state n))
    (hleft : ∀ n, LeavesByOrder (π.state n)) (hserves : Serves π w) {n : Nat} {f : TaskId}
    (hf : f ∈ (π.state n).pool.enqueued) : ∃ m, n ≤ m ∧ f ∈ (π.state m).pool.taken := by
  have henqueued : ∀ m, n ≤ m → f ∈ (π.state m).pool.enqueued := fun m hm =>
    π.invariant (I := fun s => f ∈ s.pool.enqueued) (fun _ _ _ hs hst => enqueued_step hst hs) hm hf
  let rank : Nat → Nat := fun m => f + 1 - (π.state m).pool.taken.length
  have hmono : ∀ m, n ≤ m → ¬ f ∈ (π.state m).pool.taken → rank (m + 1) ≤ rank m := by
    intro m _ _
    exact Nat.sub_le_sub_left (length_taken_step (π.next m)) (f + 1)
  refine eventually_of_drops hmono fun hnone k => ?_
  have hqueue : ∀ m, n ≤ m → (π.state m).pool.queue ≠ [] := by
    intro m hm
    have hmem := henqueued m hm
    rw [(howned m).fifo, List.mem_append] at hmem
    exact List.ne_nil_of_mem (hmem.resolve_left (hnone m hm))
  -- something is taken after `k`, and the rank is lower behind it
  obtain ⟨m, hm, htaken⟩ : ∃ m, max k n ≤ m ∧
      (π.state (m + 1)).pool.taken ≠ (π.state m).pool.taken := by
    by_contra hcon
    refine not_starved hwait hleft hserves (max k n) fun m hm => ⟨hqueue m (by omega), ?_⟩
    by_contra htaken
    exact hcon ⟨m, hm, htaken⟩
  refine ⟨m, by omega, ?_⟩
  have hnot : ¬ f < (π.state m).pool.taken.length :=
    fun hlt => hnone m (by omega) ((mem_taken_iff (howned m) f).mpr hlt)
  rcases taken_step (π.next m) with heq | ⟨g, heq⟩
  · exact absurd heq htaken
  · change f + 1 - (π.state (m + 1)).pool.taken.length < f + 1 - (π.state m).pool.taken.length
    rw [heq, List.length_append, List.length_singleton]
    exact Nat.sub_lt_sub_left (Nat.lt_succ_of_le (Nat.le_of_not_lt hnot)) (Nat.lt_succ_self _)

end Paths

/-! ## Behind the queue -/

/-- The wrapper that a worker has taken and not invoked yet. -/
def Worker.carried : Worker → List TaskId
  | .scope f => [f]
  | .running _ c => c.held
  | .endScope _ next | .leaveWait next | .unlock next => next.toList
  | _ => []

def Proc.carried : Proc → List TaskId
  | .worker w => w.carried
  | .client c => c.held

/-- What a thread holds is begun or carried. -/
theorem held_eq (pr : Proc) (t : TaskId) :
    pr.held.count t = pr.begun.count t + pr.carried.count t := by
  cases pr with
  | client c => simp [Proc.held, Proc.begun, Proc.carried]
  | worker w =>
    cases w <;>
      simp [Proc.held, Proc.begun, Proc.carried, Worker.held, Worker.begun, Worker.carried,
        List.count_cons, Nat.add_comm]

/-- The wrapper was invoked, or handed over by `pop()`, or discarded by `clear_queue`. -/
def State.Served (s : State) (f : TaskId) : Prop :=
  f ∈ s.pool.invoked ∨ f ∈ s.pool.handed ∨ f ∈ s.pool.discarded

/-- A wrapper that was taken is served, or a thread carries it. -/
theorem carried_of_taken {s : State} (hs : Owned s) {f : TaskId} (htaken : f ∈ s.pool.taken)
    (hnot : ¬ s.Served f) :
    ∃ (a : ThreadId) (pr : Proc), s.procs[a]? = some pr ∧ f ∈ pr.carried := by
  obtain ⟨hinvoked, hhanded, hdiscarded⟩ : f ∉ s.pool.invoked ∧ f ∉ s.pool.handed ∧
      f ∉ s.pool.discarded := by
    simpa only [State.Served, not_or] using hnot
  have hnodup := nodup_enqueued hs
  rw [hs.fifo] at hnodup
  have hqueue : f ∉ s.pool.queue := (List.disjoint_of_nodup_append hnodup) htaken
  have hone : s.pool.enqueued.count f = 1 := by
    apply List.count_eq_one_of_mem (nodup_enqueued hs)
    rw [hs.fifo]
    exact List.mem_append_left _ htaken
  have hplaces := hs.places f
  have hinvocations := hs.invocations f
  rw [List.count_eq_zero_of_not_mem hinvoked] at hinvocations
  simp only [CThreadPool.stored, List.count_append, List.count_eq_zero_of_not_mem hqueue,
    List.count_eq_zero_of_not_mem hhanded, List.count_eq_zero_of_not_mem hdiscarded] at hplaces
  obtain ⟨a, pr, hpr, hpos⟩ := exists_of_tally_pos (fun pr => pr.held.count f)
    (l := s.procs) (by omega)
  have hbegun := le_tally (fun pr : Proc => pr.begun.count f) hpr
  have hsplit := held_eq pr f
  exact ⟨a, pr, hpr, List.count_pos_iff.mp (by omega)⟩

/-- The steps that a thread takes until the wrapper that it carries is served. -/
def Worker.carryRank : Worker → Nat
  | .leaveWait _ => 3
  | .endScope _ _ | .unlock _ => 2
  | _ => 1

def carryRank (a : ThreadId) (s : State) : Nat :=
  match s.procs[a]? with
  | some (.worker w) => w.carryRank
  | _ => 1

section Carry

variable {a fresh : ThreadId} {wake : Option ThreadId} {p p' : CThreadPool} {f : TaskId}

theorem callStep_carried {c c' : Call} {new : List Worker} (hc : f ∈ c.held)
    (h : callStep a wake fresh p c = some (p', c', new)) : f ∈ p'.handed := by
  cases c with
  | popReturn g =>
    cases h
    exact List.mem_append_right _ hc
  | _ => cases hc

theorem workerStep_carried {w w' : Worker} (hw : f ∈ w.carried)
    (h : workerStep a p w = some (p', w')) :
    f ∈ p'.invoked ∨ f ∈ w'.carried ∧ w'.carryRank < w.carryRank := by
  revert h
  fun_cases workerStep a p w <;> intro h <;> cases h
  all_goals simp_all [Worker.carried, Worker.carryRank]

/-- A thread carries a wrapper until it is served. -/
theorem carried_step {s s' : State} {l : Label} {pr : Proc} (hpr : s.procs[a]? = some pr)
    (hf : f ∈ pr.carried) (h : step s l = some s') (hnot : ¬ s'.Served f) :
    ∃ pr', s'.procs[a]? = some pr' ∧ f ∈ pr'.carried ∧ carryRank a s' ≤ carryRank a s ∧
      ((∃ wake, l = .sched a (.run wake)) → carryRank a s' < carryRank a s) := by
  rcases step_cases h with ⟨b, ch, q, p', q', new, rfl, hq, hmove, rfl⟩ | ⟨b, rfl, -, rfl⟩ |
    ⟨rfl, rfl⟩
  · by_cases hba : b = a
    · subst hba
      rw [hpr] at hq
      cases hq
      have hself := getElem?_move_self hpr q' new
      cases hmove with
      | clientCall | taskCall | taskReturn => cases hf
      | client hc => exact absurd (Or.inr (Or.inl (callStep_carried hf hc))) hnot
      | task g hc => exact absurd (Or.inr (Or.inl (callStep_carried hf hc))) hnot
      | worker hw =>
        rcases workerStep_carried hf hw with hinvoked | ⟨hcarried, hlt⟩
        · exact absurd (Or.inl hinvoked) hnot
        · refine ⟨_, hself, hcarried, ?_⟩
          simp only [carryRank, hself, hpr]
          exact ⟨Nat.le_of_lt hlt, fun _ => hlt⟩
    · have hself := getElem?_move_ne (Ne.symm hba) hpr q' new
      refine ⟨pr, hself, hf, ?_, ?_⟩
      · simp only [carryRank, hself, hpr]
        exact Nat.le_refl _
      · rintro ⟨wake, heq⟩
        cases heq
        exact absurd rfl hba
  · exact ⟨pr, hpr, hf, Nat.le_refl _, nofun⟩
  · have hself := getElem?_arrive_of hpr (.client .idle)
    refine ⟨pr, hself, hf, ?_, nofun⟩
    simp only [carryRank, hself, hpr]
    exact Nat.le_refl _

theorem canRun_of_carried {s : State} {pr : Proc} (hpr : s.procs[a]? = some pr)
    (hf : f ∈ pr.carried) : s.CanRun a := by
  have hcall {c : Call} (hc : f ∈ c.held) :
      ∃ r, callStep a none s.procs.length s.pool c = some r := by
    cases c with
    | popReturn g => exact ⟨_, rfl⟩
    | _ => cases hc
  cases pr with
  | client c =>
    obtain ⟨r, hstep⟩ := hcall hf
    exact canRun_client hpr hstep
  | worker w =>
    cases w with
    | running g c =>
      obtain ⟨r, hstep⟩ := hcall hf
      exact canRun_task hpr hstep
    | scope g => exact canRun_worker hpr rfl
    | endScope g next => cases next <;> exact canRun_worker hpr rfl
    | leaveWait next => exact canRun_worker hpr rfl
    | unlock next => cases next <;> exact canRun_worker hpr rfl
    | _ => cases hf

end Carry

/-- In a fair run with a worker that stays and whose tasks return, every wrapper that was pushed is
invoked, or handed over by `pop()`, or discarded by `clear_queue`, whatever the other workers do. -/
theorem no_task_starves {π : Path step} {w : ThreadId}
    (hreach : Reachable step Always State.IsInit (π.state 0)) (hserves : Serves π w) {n : Nat}
    {f : TaskId} (hf : f ∈ (π.state n).pool.enqueued) :
    ∃ m, n ≤ m ∧ (π.state m).Served f := by
  have halong (m : Nat) : Reachable step Always State.IsInit (π.state m) := by
    obtain ⟨ls, hrun⟩ := π.run (Nat.zero_le m)
    exact hreach.trans hrun
  have hleft (m : Nat) : LeavesByOrder (π.state m) :=
    (halong m).invariant (fun s hs => by rw [hs]; exact nofun)
      fun _ _ _ hs _ hst => leavesByOrder_step hs hst
  obtain ⟨m₀, hm₀, htaken⟩ := eventually_taken (fun m => waiting_of_reachable (halong m))
    (fun m => owned_of_reachable (halong m)) hleft hserves hf
  by_contra hcon
  have hnot : ∀ m, n ≤ m → ¬ (π.state m).Served f := fun m hm hserved => hcon ⟨m, hm, hserved⟩
  -- whoever has taken it carries it on
  obtain ⟨a, pr₀, hpr₀, hcarried₀⟩ :=
    carried_of_taken (owned_of_reachable (halong m₀)) htaken (hnot m₀ hm₀)
  have hall : ∀ m, m₀ ≤ m → ∃ pr, (π.state m).procs[a]? = some pr ∧ f ∈ pr.carried := by
    intro m hm
    induction m, hm using Nat.le_induction with
    | base => exact ⟨pr₀, hpr₀, hcarried₀⟩
    | succ m hm ih =>
      obtain ⟨pr, hpr, hcarried⟩ := ih
      obtain ⟨pr', hpr', hcarried', -⟩ :=
        carried_step hpr hcarried (π.next m) (hnot (m + 1) (by omega))
      exact ⟨pr', hpr', hcarried'⟩
  have hstep {m : Nat} (hm : m₀ ≤ m) : carryRank a (π.state (m + 1)) ≤ carryRank a (π.state m) ∧
      ((∃ wake, π.label m = .sched a (.run wake)) →
        carryRank a (π.state (m + 1)) < carryRank a (π.state m)) := by
    obtain ⟨pr, hpr, hcarried⟩ := hall m hm
    obtain ⟨pr', -, -, hrank⟩ := carried_step hpr hcarried (π.next m) (hnot (m + 1) (by omega))
    exact hrank
  obtain ⟨m, -, hfalse⟩ := (hserves.fair a).eventually m₀ (fun _ => False)
    (fun m => carryRank a (π.state m)) (fun m hm _ => (hstep hm).1)
    (fun m hm _ hdone => (hstep hm).2 hdone) fun _ k => by
      obtain ⟨pr, hpr, hcarried⟩ := hall (max k m₀) (by omega)
      exact ⟨max k m₀, by omega, canRun_of_carried hpr hcarried⟩
  exact hfalse

/-! ## A worker beside an endless task -/

/-- Two workers and two tasks; the second worker is in the first task. -/
def endlessRun : List Label :=
  let push : List Label := .sched 0 (.call .push) :: turns 0 4
  [.arrive, .sched 0 (.call (.resize 2))] ++ turns 0 5 ++ push ++ push ++ turns 2 2

/-- The state after `endlessRun`. -/
def endlessState : State where
  pool :=
    { CThreadPool.init with
      queue := [1], threads := [1, 2], enqueued := [0, 1], taken := [0], invoked := [0] }
  procs := [.client .idle, .worker .start, .worker (.running 0 .idle)]

/-- The first worker makes one round of its loop and falls asleep. -/
def roundLabels : List Label := turns 1 2 ++ .sched 1 .ret :: turns 1 9

def endlessAfter (n : Nat) : State :=
  let s := (exec step Always endlessState (roundLabels.take n)).getD endlessState
  { s with procs := s.procs ++ List.replicate (n - 12) (.client .idle) }

/-- Behind the round only outside threads arrive. -/
def endlessPath : Path step where
  state := endlessAfter
  label n := (roundLabels[n]?).getD .arrive
  next n := by
    by_cases hn : n < 12
    · interval_cases n <;> decide
    · obtain ⟨k, rfl⟩ := Nat.exists_eq_add_of_le (Nat.le_of_not_lt hn)
      have hlength : roundLabels.length = 12 := rfl
      rw [List.getElem?_eq_none (by omega)]
      simp only [Option.getD_none, step, endlessAfter, Nat.add_assoc, Nat.add_sub_cancel_left,
        List.replicate_succ', List.append_assoc,
        List.take_of_length_le (show roundLabels.length ≤ 12 + k by omega),
        List.take_of_length_le (show roundLabels.length ≤ 12 + (k + 1) by omega)]

theorem endlessAfter_late {n : Nat} (hn : 12 ≤ n) :
    (endlessAfter n).pool.sleepers = [1] ∧ (endlessAfter n).pool.flagged = [] ∧
      (endlessAfter n).pool.isDone = false ∧
      (endlessAfter n).procs = [.client .idle, .worker .waiting, .worker (.running 0 .idle)] ++
        List.replicate (n - 12) (.client .idle) := by
  simp only [endlessAfter, List.take_of_length_le (show roundLabels.length ≤ n from hn)]
  exact ⟨by decide, by decide, by decide, congrArg (· ++ _) (by decide)⟩

theorem not_canRun_endless {n : Nat} (hn : 12 ≤ n) (a : ThreadId) :
    ¬ (endlessAfter n).CanRun a := by
  obtain ⟨hsleepers, -, -, hprocs⟩ := endlessAfter_late hn
  by_cases ha : a = 2
  · -- the endless task makes no call
    subst ha
    rintro ⟨wake, hrun⟩
    simp [step, hprocs, procStep, callStep] at hrun
  · apply not_canRun_of_rests
    intro pr hpr
    rw [hprocs] at hpr
    rw [hsleepers]
    rcases a with _ | _ | _ | a
    · cases hpr
      rfl
    · cases hpr
      rfl
    · exact absurd rfl ha
    · rw [List.getElem?_append_right (by simp), List.getElem?_replicate] at hpr
      split at hpr
      · cases hpr
        rfl
      · cases hpr

theorem serves_endlessPath : Serves endlessPath 1 where
  fair a := StronglyFair.of_never fun n hn => not_canRun_endless (n := n) hn a
  there := ⟨_, rfl⟩
  returns n f c _ := by
    refine ⟨max n 12, Nat.le_max_left n 12, fun f' c' hlate => ?_⟩
    have hprocs := (endlessAfter_late (Nat.le_max_right n 12)).2.2.2
    change (endlessAfter (max n 12)).procs[1]? = _ at hlate
    rw [hprocs] at hlate
    cases hlate
  stays n := by
    by_cases hn : n < 12
    · interval_cases n <;> decide
    · obtain ⟨-, hflagged, hdone, -⟩ := endlessAfter_late (Nat.le_of_not_lt hn)
      change _ ∉ (endlessAfter n).pool.flagged ∧ (endlessAfter n).pool.isDone = false
      rw [hflagged]
      exact ⟨List.not_mem_nil, hdone⟩

theorem no_task_starves_endlessPath :
    (∃ m, 0 ≤ m ∧ (endlessPath.state m).Served 1) ∧
      ∀ n, 12 ≤ n → (endlessPath.state n).procs[2]? = some (.worker (.running 0 .idle)) := by
  refine ⟨no_task_starves (reachable_of_exec rfl endlessRun (by decide)) serves_endlessPath
    (n := 0) (by decide), fun n hn => ?_⟩
  change (endlessAfter n).procs[2]? = _
  rw [(endlessAfter_late hn).2.2.2]
  rfl

end PetProject.ThreadPool
