import Mathlib.Data.List.Nodup
import PetProject.ThreadPool.Model

/-!
# Ownership of the task wrappers

A wrapper moves as a raw pointer from the queue into a variable of a worker, of `pop()` or of
`clear_queue`, and is deleted by whoever holds it. The ledger of a state counts, for one wrapper,
its places in the pool (`stored`) and in the hands of the threads (`Proc.held`). Every step keeps
the sum equal to the number of times the wrapper was enqueued (`Owned`), whatever the interleaving
of `push`, `pop`, `clear_queue`, `resize`, `stop` and the workers; a wrapper is enqueued once, so
it is in one place. The queue is first in first out: the wrappers taken so far followed by the
queue are the wrappers enqueued so far.
-/

set_option autoImplicit false

namespace PetProject.ThreadPool

open PetProject.Foundation.Tally PetProject.Foundation.Transition

/-! ## The ledger -/

/-- The wrappers that a call holds. -/
def Call.held : Call → List TaskId
  | .popReturn f => f.toList
  | _ => []

/-- The wrappers that a worker holds. At the end of a scope these can be two: the one that `func`
is about to delete and the one popped into `_f`. -/
def Worker.held : Worker → List TaskId
  | .scope f | .testFlag f | .popNext f | .leaveScope f => [f]
  | .running f c => f :: c.held
  | .endScope f next => f :: next.toList
  | .leaveWait next | .unlock next => next.toList
  | _ => []

def Proc.held : Proc → List TaskId
  | .worker w => w.held
  | .client c => c.held

/-- The wrapper whose invocation a worker has started and which it has not deleted. -/
def Worker.begun : Worker → List TaskId
  | .running f _ | .testFlag f | .popNext f | .endScope f _ | .leaveScope f => [f]
  | _ => []

def Proc.begun : Proc → List TaskId
  | .worker w => w.begun
  | .client _ => []

/-- The wrappers in the queue and the deleted ones. -/
def CThreadPool.stored (p : CThreadPool) : List TaskId :=
  p.queue ++ p.ran ++ p.handed ++ p.discarded

/-- The ledger of a reachable state. -/
structure Owned (s : State) : Prop where
  /-- A wrapper has as many places as it was enqueued times. -/
  places : ∀ t, s.pool.stored.count t + tally (fun pr => pr.held.count t) s.procs =
    s.pool.enqueued.count t
  /-- An invocation that was started belongs to a worker or to a wrapper deleted after it. -/
  invocations : ∀ t, s.pool.invoked.count t =
    s.pool.ran.count t + tally (fun pr => pr.begun.count t) s.procs
  fifo : s.pool.enqueued = s.pool.taken ++ s.pool.queue
  numbered : s.pool.enqueued = List.range s.pool.enqueued.length

/-! ## Steps of one thread -/

section Local

variable {a fresh : ThreadId} {wake : Option ThreadId} {p p' : CThreadPool} {new : List Worker}

theorem qPop_stored (p : CThreadPool) (t : TaskId) :
    p.qPop.1.stored.count t + p.qPop.2.toList.count t = p.stored.count t := by
  rcases p.qPop_cases with ⟨hq, hp⟩ | ⟨f, q, hq, hp⟩
  · simp [hp]
  · simp only [hp, hq, CThreadPool.stored, List.count_append, List.count_cons, Option.toList_some,
      List.count_nil]
    omega

/-- A pop changes the queue and the history of takings only. -/
theorem qPop_frame (p : CThreadPool) :
    p.qPop.1.enqueued = p.enqueued ∧ p.qPop.1.ran = p.ran ∧ p.qPop.1.invoked = p.invoked ∧
      p.qPop.1.taken ++ p.qPop.1.queue = p.taken ++ p.queue := by
  rcases p.qPop_cases with ⟨hq, hp⟩ | ⟨f, q, hq, hp⟩ <;> simp [hp, hq]

theorem callStep_stored {c c' : Call} (h : callStep a wake fresh p c = some (p', c', new))
    (t : TaskId) :
    p'.stored.count t + c'.held.count t + p.enqueued.count t =
      p.stored.count t + c.held.count t + p'.enqueued.count t := by
  have hpop := qPop_stored p t
  have henq := (qPop_frame p).1
  -- a wrapper moves between a list of the pool and the hands of the caller
  revert h
  fun_cases callStep a wake fresh p c <;> intro h <;> cases h
  all_goals simp_all [CThreadPool.stored, Call.held, CThreadPool.qPush, List.count_cons]
  all_goals omega

theorem workerStep_stored {w w' : Worker} (h : workerStep a p w = some (p', w')) (t : TaskId) :
    p'.stored.count t + w'.held.count t + p.enqueued.count t =
      p.stored.count t + w.held.count t + p'.enqueued.count t := by
  have hpop := qPop_stored p t
  have henq := (qPop_frame p).1
  revert h
  fun_cases workerStep a p w <;> intro h <;> cases h
  all_goals simp_all [CThreadPool.stored, Worker.held, Call.held, List.count_cons]
  all_goals omega

theorem callStep_invocations {c c' : Call} (h : callStep a wake fresh p c = some (p', c', new)) :
    p'.invoked = p.invoked ∧ p'.ran = p.ran := by
  obtain ⟨-, hran, hinv, -⟩ := qPop_frame p
  revert h
  fun_cases callStep a wake fresh p c <;> intro h <;> cases h <;> simp_all [CThreadPool.qPush]

theorem workerStep_invocations {w w' : Worker} (h : workerStep a p w = some (p', w'))
    (t : TaskId) :
    p'.invoked.count t + p.ran.count t + w.begun.count t =
      p.invoked.count t + p'.ran.count t + w'.begun.count t := by
  obtain ⟨-, hran, hinv, -⟩ := qPop_frame p
  revert h
  fun_cases workerStep a p w <;> intro h <;> cases h
  all_goals simp_all [Worker.begun, List.count_cons]
  all_goals omega

/-- What a step of one thread does to the history of the queue. -/
def Extends (p p' : CThreadPool) : Prop :=
  (p'.enqueued = p.enqueued ∧ p'.taken ++ p'.queue = p.taken ++ p.queue) ∨
    (p'.enqueued = p.enqueued ++ [p.enqueued.length] ∧ p'.taken = p.taken ∧
      p'.queue = p.queue ++ [p.enqueued.length])

theorem callStep_extends {c c' : Call} (h : callStep a wake fresh p c = some (p', c', new)) :
    Extends p p' := by
  obtain ⟨henq, -, -, hfifo⟩ := qPop_frame p
  revert h
  fun_cases callStep a wake fresh p c <;> intro h <;> cases h <;>
    simp_all [Extends, CThreadPool.qPush]

theorem workerStep_extends {w w' : Worker} (h : workerStep a p w = some (p', w')) :
    Extends p p' := by
  obtain ⟨henq, -, -, hfifo⟩ := qPop_frame p
  revert h
  fun_cases workerStep a p w <;> intro h <;> cases h <;> simp_all [Extends]

end Local

section Moves

variable {a fresh : ThreadId} {p p' : CThreadPool} {ch : Choice} {pr pr' : Proc}
  {new : List Worker}

@[simp] theorem held_idle : Call.idle.held = [] := rfl

@[simp] theorem request_held (r : Request) : r.entry.held = [] := by
  cases r with
  | stop isWait => cases isWait <;> rfl
  | _ => rfl

theorem move_places (h : Move a fresh p ch pr p' pr' new) (t : TaskId) :
    p'.stored.count t + pr'.held.count t + p.enqueued.count t =
      p.stored.count t + pr.held.count t + p'.enqueued.count t := by
  cases h with
  | clientCall r => simp [Proc.held]
  | taskCall f r hr => simp [Proc.held, Worker.held]
  | taskReturn f => simp [Proc.held, Worker.held]
  | client hc => exact callStep_stored hc t
  | task f hc =>
    have := callStep_stored hc t
    simp only [Proc.held, Worker.held, List.count_cons]
    omega
  | worker hw => exact workerStep_stored hw t

theorem move_invocations (h : Move a fresh p ch pr p' pr' new) (t : TaskId) :
    p'.invoked.count t + p.ran.count t + pr.begun.count t =
      p.invoked.count t + p'.ran.count t + pr'.begun.count t := by
  cases h with
  | clientCall r => rfl
  | taskCall f r hr => rfl
  | taskReturn f => rfl
  | client hc =>
    obtain ⟨hinv, hran⟩ := callStep_invocations hc
    rw [hinv, hran]
    rfl
  | task f hc =>
    obtain ⟨hinv, hran⟩ := callStep_invocations hc
    rw [hinv, hran]
    rfl
  | worker hw => exact workerStep_invocations hw t

theorem move_extends (h : Move a fresh p ch pr p' pr' new) : Extends p p' := by
  cases h with
  | clientCall r => exact Or.inl ⟨rfl, rfl⟩
  | taskCall f r hr => exact Or.inl ⟨rfl, rfl⟩
  | taskReturn f => exact Or.inl ⟨rfl, rfl⟩
  | client hc => exact callStep_extends hc
  | task f hc => exact callStep_extends hc
  | worker hw => exact workerStep_extends hw

end Moves

/-! ## The ledger in every reachable state -/

theorem owned_init {s : State} (h : s.IsInit) : Owned s := by
  subst h
  exact ⟨fun t => rfl, fun t => rfl, rfl, rfl⟩

theorem fifo_of_extends {p p' : CThreadPool} (h : Extends p p')
    (hfifo : p.enqueued = p.taken ++ p.queue)
    (hnum : p.enqueued = List.range p.enqueued.length) :
    p'.enqueued = p'.taken ++ p'.queue ∧ p'.enqueued = List.range p'.enqueued.length := by
  rcases h with ⟨henq, hpop⟩ | ⟨henq, htaken, hqueue⟩
  · -- at most a pop: the front of the queue goes to the end of `taken`
    rw [hpop, henq]
    exact ⟨hfifo, hnum⟩
  · -- a push: the new wrapper has the next number
    rw [henq, htaken, hqueue]
    constructor
    · rw [← List.append_assoc, ← hfifo]
    · rw [List.length_append, List.length_singleton, List.range_succ, ← hnum]

theorem owned_step {s s' : State} {l : Label} (hs : Owned s) (h : step s l = some s') :
    Owned s' := by
  rcases step_cases h with ⟨a, ch, pr, p', pr', new, -, hpr, hmove, rfl⟩ | ⟨w, -, -, rfl⟩ |
    ⟨-, rfl⟩
  · obtain ⟨hfifo, hnum⟩ := fifo_of_extends (move_extends hmove) hs.fifo hs.numbered
    -- the other threads keep their part of each sum, the moving thread balances its own
    refine ⟨fun t => ?_, fun t => ?_, hfifo, hnum⟩
    · have htally := tally_move (fun pr => pr.held.count t) rfl hpr hmove
      have hplaces := move_places hmove t
      have := hs.places t
      dsimp only at *
      omega
    · have htally := tally_move (fun pr => pr.begun.count t) rfl hpr hmove
      have hinv := move_invocations hmove t
      have := hs.invocations t
      dsimp only at *
      omega
  · exact ⟨hs.places, hs.invocations, hs.fifo, hs.numbered⟩
  · refine ⟨fun t => ?_, fun t => ?_, hs.fifo, hs.numbered⟩
    · simpa [Proc.held, Call.held] using hs.places t
    · simpa [Proc.begun] using hs.invocations t

theorem owned_of_reachable {s : State} {ok : State → Label → Prop}
    (h : Reachable step ok State.IsInit s) : Owned s :=
  h.invariant (fun _ => owned_init) fun _ _ _ hs _ hst => owned_step hs hst

theorem nodup_enqueued {s : State} (hs : Owned s) : s.pool.enqueued.Nodup := by
  rw [hs.numbered]
  exact List.nodup_range

/-! ## One place for each wrapper -/

/-- Where a wrapper can be. -/
inductive Place where
  | queue
  /-- Held by the worker `a` in its loop. -/
  | worker (a : ThreadId)
  /-- Held by the thread `a` inside `pop()`. -/
  | popCaller (a : ThreadId)
  /-- Deleted by the worker that ran it. -/
  | ran
  /-- Deleted by `pop()` after the function was copied out. -/
  | handed
  /-- Deleted by `clear_queue`. -/
  | discarded
  deriving DecidableEq, Repr

/-- The wrappers that a thread holds as a worker. -/
def Proc.own : Proc → List TaskId
  | .worker (.running f _) => [f]
  | .worker w => w.held
  | .client _ => []

/-- The number of occurrences of wrapper `t` at a place. -/
def State.copies (s : State) (t : TaskId) : Place → Nat
  | .queue => s.pool.queue.count t
  | .worker a => (s.procs[a]?.map fun pr => pr.own.count t).getD 0
  | .popCaller a => (s.procs[a]?.map fun pr => pr.call.held.count t).getD 0
  | .ran => s.pool.ran.count t
  | .handed => s.pool.handed.count t
  | .discarded => s.pool.discarded.count t

theorem begun_le_held (pr : Proc) (t : TaskId) : pr.begun.count t ≤ pr.held.count t := by
  cases pr with
  | client c => simp [Proc.begun]
  | worker w => cases w <;> simp [Proc.begun, Proc.held, Worker.begun, Worker.held, List.count_cons]

theorem held_count (pr : Proc) (t : TaskId) :
    pr.held.count t = pr.own.count t + pr.call.held.count t := by
  cases pr with
  | client c => simp [Proc.held, Proc.own, Proc.call]
  | worker w =>
    cases w with
    | running f c =>
      simp only [Proc.held, Proc.own, Proc.call, Worker.held, List.count_cons, List.count_nil]
      omega
    | _ => simp [Proc.held, Proc.own, Proc.call]

/-- What the thread `i` holds is split over its two places. -/
theorem copies_thread {s : State} {i : ThreadId} {pr : Proc} (h : s.procs[i]? = some pr)
    (t : TaskId) :
    s.copies t (.worker i) + s.copies t (.popCaller i) = pr.held.count t := by
  simp [State.copies, h, held_count]

/-- A wrapper that no thread holds is at no thread's place. -/
theorem copies_thread_eq_zero {s : State} {t : TaskId} (i : ThreadId)
    (h : ∀ pr, s.procs[i]? = some pr → pr.held.count t = 0) :
    s.copies t (.worker i) = 0 ∧ s.copies t (.popCaller i) = 0 := by
  cases hi : s.procs[i]? with
  | none => simp [State.copies, hi]
  | some pr =>
    have hsum := copies_thread hi t
    have := h pr hi
    omega

/-- The sum of the shared places. -/
theorem stored_count (s : State) (t : TaskId) :
    s.pool.stored.count t = s.copies t .queue + s.copies t .ran + s.copies t .handed +
      s.copies t .discarded := by
  simp only [CThreadPool.stored, State.copies, List.count_append]

/-- A wrapper with one occurrence in all has exactly one place. -/
theorem place_unique {s : State} {t : TaskId}
    (h : s.pool.stored.count t + tally (fun pr => pr.held.count t) s.procs = 1) :
    ∃ pl, s.copies t pl = 1 ∧ ∀ pl', pl' ≠ pl → s.copies t pl' = 0 := by
  have hstored := stored_count s t
  by_cases htally : tally (fun pr => pr.held.count t) s.procs = 1
  · -- a thread holds it, as a worker or inside `pop()`
    obtain ⟨i, pr, hi, hpr, hothers⟩ := exists_of_tally_eq_one _ htally
    have hsum := copies_thread hi t
    have hzero : ∀ j, j ≠ i → s.copies t (.worker j) = 0 ∧ s.copies t (.popCaller j) = 0 :=
      fun j hj => copies_thread_eq_zero j fun pr' hpr' => hothers j pr' hj hpr'
    have key : s.copies t (.worker i) = 1 ∧ s.copies t (.popCaller i) = 0 ∨
        s.copies t (.worker i) = 0 ∧ s.copies t (.popCaller i) = 1 := by omega
    rcases key with ⟨hw, hc⟩ | ⟨hw, hc⟩
    · refine ⟨.worker i, hw, fun pl hpl => ?_⟩
      cases pl with
      | worker j => exact (hzero j fun hj => hpl (by rw [hj])).1
      | popCaller j =>
        by_cases hj : j = i
        · rw [hj, hc]
        · exact (hzero j hj).2
      | _ => omega
    · refine ⟨.popCaller i, hc, fun pl hpl => ?_⟩
      cases pl with
      | popCaller j => exact (hzero j fun hj => hpl (by rw [hj])).2
      | worker j =>
        by_cases hj : j = i
        · rw [hj, hw]
        · exact (hzero j hj).1
      | _ => omega
  · -- it is in the queue or deleted
    have hnone : tally (fun pr => pr.held.count t) s.procs = 0 := by omega
    have hzero : ∀ j, s.copies t (.worker j) = 0 ∧ s.copies t (.popCaller j) = 0 :=
      fun j => copies_thread_eq_zero j fun pr hpr =>
        (tally_eq_zero_iff _ _).mp hnone pr (List.mem_of_getElem? hpr)
    have key : ∃ pl ∈ [Place.queue, .ran, .handed, .discarded], s.copies t pl = 1 ∧
        ∀ pl' ∈ [Place.queue, .ran, .handed, .discarded], pl' ≠ pl → s.copies t pl' = 0 := by
      rcases (by omega : s.copies t .queue = 1 ∨ s.copies t .ran = 1 ∨ s.copies t .handed = 1 ∨
        s.copies t .discarded = 1) with h1 | h1 | h1 | h1
      · exact ⟨.queue, by simp, h1, by simp; omega⟩
      · exact ⟨.ran, by simp, h1, by simp; omega⟩
      · exact ⟨.handed, by simp, h1, by simp; omega⟩
      · exact ⟨.discarded, by simp, h1, by simp; omega⟩
    obtain ⟨pl, -, hone, hrest⟩ := key
    refine ⟨pl, hone, fun pl' hpl' => ?_⟩
    cases pl' with
    | worker j => exact (hzero j).1
    | popCaller j => exact (hzero j).2
    | _ => exact hrest _ (by simp) hpl'

theorem nodup_invoked {s : State} (hs : Owned s) : s.pool.invoked.Nodup := by
  rw [List.nodup_iff_count]
  intro t
  have henq := List.nodup_iff_count.mp (nodup_enqueued hs) t
  have hplaces := hs.places t
  have hinv := hs.invocations t
  -- an invocation belongs to a deleted wrapper or to one that a worker holds
  have hbegun : tally (fun pr => pr.begun.count t) s.procs ≤
      tally (fun pr => pr.held.count t) s.procs := tally_le fun pr _ => begun_le_held pr t
  simp only [CThreadPool.stored, List.count_append] at hplaces
  omega

/-- In every reachable state each pushed wrapper is in exactly one place, the wrapper of a pending
push is in none, a worker invokes a wrapper at most once and deletes it after it was invoked, and
the wrappers were taken out of the queue in the order of enqueueing. -/
theorem wrapper_ownership {s : State} (h : Reachable step Always State.IsInit s) :
    (∀ t ∈ s.pool.enqueued,
        ∃ pl, s.copies t pl = 1 ∧ ∀ pl', pl' ≠ pl → s.copies t pl' = 0) ∧
      (∀ t, t ∉ s.pool.enqueued → ∀ pl, s.copies t pl = 0) ∧
      s.pool.invoked.Nodup ∧ (∀ t ∈ s.pool.ran, t ∈ s.pool.invoked) ∧
      s.pool.taken <+: s.pool.enqueued := by
  have hs := owned_of_reachable h
  refine ⟨fun t ht => ?_, fun t ht pl => ?_, nodup_invoked hs, fun t ht => ?_, ?_⟩
  · -- an enqueued wrapper occurs once in the whole ledger
    apply place_unique
    rw [hs.places t]
    exact List.nodup_iff_count_eq_one.mp (nodup_enqueued hs) t ht
  · -- a wrapper that is not enqueued occurs nowhere
    have hplaces := hs.places t
    rw [List.count_eq_zero_of_not_mem ht] at hplaces
    have hstored := stored_count s t
    have hnone : tally (fun pr => pr.held.count t) s.procs = 0 := by omega
    have hzero : ∀ j, s.copies t (.worker j) = 0 ∧ s.copies t (.popCaller j) = 0 :=
      fun j => copies_thread_eq_zero j fun pr hpr =>
        (tally_eq_zero_iff _ _).mp hnone pr (List.mem_of_getElem? hpr)
    cases pl with
    | worker j => exact (hzero j).1
    | popCaller j => exact (hzero j).2
    | _ => omega
  · -- what was deleted after a run had its invocation started
    have hinv := hs.invocations t
    have := List.count_pos_iff.mpr ht
    exact List.count_pos_iff.mp (by omega)
  · rw [hs.fifo]
    exact List.prefix_append _ _

/-- Four pushes; one wrapper is inside `pop()`, one is running, one was cleared. -/
def mixedRun : List Label :=
  let push : List Label := .sched 0 (.call .push) :: turns 0 4
  [.arrive, .sched 0 (.call (.resize 1))] ++ turns 0 4 ++ push ++ push ++ push ++ push ++
    [.sched 0 (.call .pop)] ++ turns 0 1 ++ turns 1 2 ++ [.arrive, .sched 2 (.call .clearQueue)] ++
    turns 2 1

/-- The state after `mixedRun`. -/
def mixedState : State where
  pool :=
    { CThreadPool.init with
      queue := [3], threads := [1], enqueued := [0, 1, 2, 3], taken := [0, 1, 2], invoked := [1]
      discarded := [2] }
  procs := [.client (.popReturn (some 0)), .worker (.running 1 .idle), .client .clearQueue]

theorem wrapper_ownership_mixedRun :
    (∀ t ∈ mixedState.pool.enqueued, ∃ pl, mixedState.copies t pl = 1 ∧
        ∀ pl', pl' ≠ pl → mixedState.copies t pl' = 0) ∧
      (∀ t, t ∉ mixedState.pool.enqueued → ∀ pl, mixedState.copies t pl = 0) ∧
      mixedState.pool.invoked.Nodup ∧
      (∀ t ∈ mixedState.pool.ran, t ∈ mixedState.pool.invoked) ∧
      mixedState.pool.taken <+: mixedState.pool.enqueued :=
  wrapper_ownership (reachable_of_exec rfl mixedRun (by decide))

end PetProject.ThreadPool
