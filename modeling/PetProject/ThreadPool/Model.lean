import PetProject.Foundation.Transition
import PetProject.Foundation.Tally

/-!
# The thread pool as a transition system

`threadpool::CThreadPool` of `base_daemon/include/CThreadPool.h`. A state is the pool object
(`CThreadPool`), together with the position of every thread that can touch it (`Proc`): the workers
that `set_thread` started and any number of outside threads that call `push`, `pop`, `clear_queue`,
`resize` and `stop`. A task that runs on a worker can itself call `push`, `pop` and `clear_queue`.

One step is one critical section of the queue's own mutex, one atomic access, or one event on
`this->mutex` and `this->cv`. The pool mutex is not one step: a thread holds it over several steps
(`CThreadPool.mutex`), so the accesses made while it is held interleave with everything that does
not take it. `cv.wait(lock, pred)` is the loop `while (!pred()) wait(lock)`: `wait` releases the
mutex and enters `sleepers` in one step, a thread leaves `sleepers` by a notification or spuriously,
and then takes the mutex again before it evaluates the predicate.

A wrapper (`std::function<void(int)>*`) is named by its place in the order in which `push`
enqueued the wrappers. The fields `enqueued`, `taken`, `invoked`, `ran`, `handed`, `discarded`,
`signalled` and `doneSignalled` record the history and are read by no step.
-/

set_option autoImplicit false

namespace PetProject.ThreadPool

open PetProject.Foundation.Tally

/-- A thread, numbered in the order of appearance. -/
abbrev ThreadId := Nat

/-- A task wrapper, numbered in the order of enqueueing. -/
abbrev TaskId := Nat

/-- The object `CThreadPool` and the history of its wrappers. `queue` is `CQueuePool::q`, `mutex`
the owner of `this->mutex`, `sleepers` the threads blocked in `cv.wait`. `threads` is the vector of
that name, which has the indices of `flags`; the worker whose `flags[i]` was set is in `flagged`,
the one whose `std::thread` object was detached or joined in `unjoinable`, the one whose thread
function has returned in `finished`.

Of the history, `enqueued` and `taken` keep the order of the queue; a taken wrapper is `invoked` by
a worker, which deletes it when it `ran`, `handed` over by `pop()`, or `discarded` by `clear_queue`.
`signalled` has the workers flagged by a call that has completed its `notify_all`, and
`doneSignalled` is set when a `stop(true)` that set `isDone` has completed its own. -/
structure CThreadPool where
  queue : List TaskId
  mutex : Option ThreadId
  sleepers : List ThreadId
  isDone : Bool
  isStop : Bool
  flagged : List ThreadId
  threads : List ThreadId
  unjoinable : List ThreadId
  finished : List ThreadId
  nWaiting : Int
  enqueued : List TaskId
  taken : List TaskId
  invoked : List TaskId
  ran : List TaskId
  handed : List TaskId
  discarded : List TaskId
  signalled : List ThreadId
  doneSignalled : Bool
  deriving DecidableEq, Repr

/-- `CThreadPool::init` on an empty object. -/
def CThreadPool.init : CThreadPool where
  queue := []
  mutex := none
  sleepers := []
  isDone := false
  isStop := false
  flagged := []
  threads := []
  unjoinable := []
  finished := []
  nWaiting := 0
  enqueued := []
  taken := []
  invoked := []
  ran := []
  handed := []
  discarded := []
  signalled := []
  doneSignalled := false

/-- `CQueuePool::push`. -/
def CThreadPool.qPush (p : CThreadPool) : CThreadPool :=
  { p with queue := p.queue ++ [p.enqueued.length], enqueued := p.enqueued ++ [p.enqueued.length] }

/-- `CQueuePool::pop`: the front wrapper, when there is one. -/
def CThreadPool.qPop (p : CThreadPool) : CThreadPool × Option TaskId :=
  match p.queue with
  | [] => (p, none)
  | f :: q => ({ p with queue := q, taken := p.taken ++ [f] }, some f)

/-- What a `notify_all` section announces: the workers `fs` that `resize(n)` or `stop(false)` has
flagged, or the `isDone` of `stop(true)`. -/
inductive Notice where
  | shrink (n : Nat) (fs : List ThreadId)
  | stop (fs : List ThreadId)
  | done
  deriving DecidableEq, Repr

/-- The position of a thread in a call of the pool's interface, as what it does next.

`push` runs `q.push(_f)`, locks `this->mutex`, runs `cv.notify_one()` and returns, which unlocks.
`pop` runs `q.pop(_f)` and returns with the wrapper in its `unique_ptr`. `clearQueue` is the head of
the loop of `clear_queue`.

`resize(n)` reads `isStop` and `isDone`, then is at the head of the loop that starts workers, or of
the loop that flags them (the indices below `i` are left), and cuts `threads` and `flags` to `n`
entries behind its `notify_all`. `stop(false)` reads and sets `isStop`, flags the workers
`i, .., n - 1` and clears the queue; `stop(true)` reads `isDone` and `isStop` and sets `isDone`.

The positions `all*` are the section with `notify_all`. Behind it `stop` is at index `i` of its join
loop, in its last `clear_queue`, or about to clear `threads` and `flags`. -/
inductive Call where
  | idle
  | pushQueue
  | pushLock
  | pushNotify
  | pushUnlock
  | popQueue
  | popReturn (f : Option TaskId)
  | clearQueue
  | resizeIsStop (n : Nat)
  | resizeIsDone (n : Nat)
  | resizeGrow (n : Nat)
  | resizeFlag (n i : Nat) (fs : List ThreadId)
  | resizeErase (n : Nat)
  | stopIsStop
  | stopSetStop
  | stopFlag (i n : Nat) (fs : List ThreadId)
  | stopClear (fs : List ThreadId)
  | waitIsDone
  | waitIsStop
  | waitSetDone
  | allLock (nt : Notice)
  | allNotify (nt : Notice)
  | allUnlock (nt : Notice)
  | join (isWait : Bool) (i : Nat)
  | joinClear (isWait : Bool)
  | joinErase (isWait : Bool)
  deriving DecidableEq, Repr

/-- The position of a worker in the lambda of `set_thread`, as what it does next.

At `start` it runs the first `isPop = this->q.pop(_f)`. In the loop over the tasks it takes `_f`
into `func` and invokes it (`scope`), is inside of `(*_f)(i)`, where `c` is the pool call that the
task is making (`running`), reads `_flag`, pops the next wrapper, and ends the scope of `func`, with
the next wrapper or by its return.

With an empty queue it locks `this->mutex` and runs `++this->nWaiting`. In the predicate of
`cv.wait`, also after a wakeup (`woken`), it pops and then reads `isDone` and `_flag`. If the
predicate is false it releases the mutex (`block`) and is asleep as long as it is in `sleepers`
(`waiting`), otherwise it runs `--this->nWaiting` and unlocks, to continue or to return. -/
inductive Worker where
  | start
  | scope (f : TaskId)
  | running (f : TaskId) (c : Call)
  | testFlag (f : TaskId)
  | popNext (f : TaskId)
  | endScope (f : TaskId) (next : Option TaskId)
  | leaveScope (f : TaskId)
  | lock
  | enterWait
  | predPop (woken : Bool)
  | predDone
  | predFlag
  | block
  | waiting
  | leaveWait (next : Option TaskId)
  | unlock (next : Option TaskId)
  | exited
  deriving DecidableEq, Repr

/-- A thread: a worker of the pool, or an outside thread. -/
inductive Proc where
  | worker (w : Worker)
  | client (c : Call)
  deriving DecidableEq, Repr

/-- The call that a thread is making. -/
def Proc.call : Proc → Call
  | .worker (.running _ c) => c
  | .worker _ => .idle
  | .client c => c

/-- The calls of the interface. -/
inductive Request where
  | push
  | pop
  | clearQueue
  | resize (n : Nat)
  | stop (isWait : Bool)
  deriving DecidableEq, Repr

/-- The first position of a call. -/
def Request.entry : Request → Call
  | .push => .pushQueue
  | .pop => .popQueue
  | .clearQueue => .clearQueue
  | .resize n => .resizeIsStop n
  | .stop false => .stopIsStop
  | .stop true => .waitIsDone

/-- The calls that a task may make; `resize` and `stop` belong to the pool's owner. -/
def Request.isQueueCall : Request → Bool
  | .push | .pop | .clearQueue => true
  | .resize _ | .stop _ => false

/-- One step of a call by thread `a`: the pool, the position, and the workers that it starts.
`wake` is the thread that a `notify_one` wakes. -/
def callStep (a : ThreadId) (wake : Option ThreadId) (fresh : ThreadId) (p : CThreadPool) :
    Call → Option (CThreadPool × Call × List Worker)
  | .idle => none
  -- `push`: `q.push` takes and releases the queue's own mutex inside
  | .pushQueue => some (p.qPush, .pushLock, [])
  | .pushLock =>
      if p.mutex = none then some ({ p with mutex := some a }, .pushNotify, []) else none
  | .pushNotify =>
      -- with a thread asleep exactly one of them is woken, otherwise the notification is lost
      match wake with
      | none => if p.sleepers = [] then some (p, .pushUnlock, []) else none
      | some w =>
          if w ∈ p.sleepers then
            some ({ p with sleepers := p.sleepers.erase w }, .pushUnlock, [])
          else none
  -- the lock object dies with the scope, after the future was taken
  | .pushUnlock => some ({ p with mutex := none }, .idle, [])
  -- `pop`: `_f` stays null when the queue is empty
  | .popQueue =>
      match p.qPop with
      | (p', f) => some (p', .popReturn f, [])
  -- `func` deletes the wrapper after its function was copied out
  | .popReturn f => some ({ p with handed := p.handed ++ f.toList }, .idle, [])
  -- `while (this->q.pop(_f)) delete _f;`
  | .clearQueue =>
      match p.qPop with
      | (p', some f) => some ({ p' with discarded := p'.discarded ++ [f] }, .clearQueue, [])
      | (p', none) => some (p', .idle, [])
  -- `if(!this->isStop && !this->isDone)` is two atomic reads
  | .resizeIsStop n => if p.isStop then some (p, .idle, []) else some (p, .resizeIsDone n, [])
  | .resizeIsDone n =>
      if p.isDone then some (p, .idle, [])
      else if p.threads.length ≤ n then some (p, .resizeGrow n, [])
      else some (p, .resizeFlag n p.threads.length [], [])
  -- one round of the loop with `set_thread(i)`; the entries that `threads.resize` has added and no
  -- round has filled yet are left out, because nobody reads them meanwhile
  | .resizeGrow n =>
      if p.threads.length < n then
        some ({ p with threads := p.threads ++ [fresh] }, .resizeGrow n, [.start])
      else some (p, .idle, [])
  -- one round of the loop downwards: `*this->flags[i] = true; this->threads[i]->detach();`
  | .resizeFlag n i fs =>
      if n < i then
        match p.threads[i - 1]? with
        | some w =>
            some ({ p with flagged := w :: p.flagged, unjoinable := w :: p.unjoinable },
              .resizeFlag n (i - 1) (w :: fs), [])
        | none => none
      else some (p, .allLock (.shrink n fs), [])
  -- the handles of the detached workers go, the workers keep their copies of the flags
  | .resizeErase n => some ({ p with threads := p.threads.take n }, .idle, [])
  -- `stop(false)`; the test and the set of `isStop` are two steps
  | .stopIsStop => if p.isStop then some (p, .idle, []) else some (p, .stopSetStop, [])
  | .stopSetStop => some ({ p with isStop := true }, .stopFlag 0 p.threads.length [], [])
  -- `n` is the size that the loop read at its start
  | .stopFlag i n fs =>
      if i < n then
        match p.threads[i]? with
        | some w => some ({ p with flagged := w :: p.flagged }, .stopFlag (i + 1) n (w :: fs), [])
        | none => none
      else some (p, .stopClear fs, [])
  | .stopClear fs =>
      match p.qPop with
      | (p', some f) => some ({ p' with discarded := p'.discarded ++ [f] }, .stopClear fs, [])
      | (p', none) => some (p', .allLock (.stop fs), [])
  -- `stop(true)`: `if(this->isDone || this->isStop) return;`
  | .waitIsDone => if p.isDone then some (p, .idle, []) else some (p, .waitIsStop, [])
  | .waitIsStop => if p.isStop then some (p, .idle, []) else some (p, .waitSetDone, [])
  | .waitSetDone => some ({ p with isDone := true }, .allLock .done, [])
  -- the block with `notify_all` that `resize` and both kinds of `stop` have
  | .allLock nt =>
      if p.mutex = none then some ({ p with mutex := some a }, .allNotify nt, []) else none
  | .allNotify nt =>
      match nt with
      | .shrink n fs =>
          some ({ p with sleepers := [], signalled := fs ++ p.signalled },
            .allUnlock (.shrink n fs), [])
      | .stop fs =>
          some ({ p with sleepers := [], signalled := fs ++ p.signalled },
            .allUnlock (.stop fs), [])
      | .done => some ({ p with sleepers := [], doneSignalled := true }, .allUnlock .done, [])
  | .allUnlock nt =>
      match nt with
      | .shrink n _ => some ({ p with mutex := none }, .resizeErase n, [])
      | .stop _ => some ({ p with mutex := none }, .join false 0, [])
      | .done => some ({ p with mutex := none }, .join true 0, [])
  -- `join` waits for the end of the thread function; a joined worker is joinable no more
  | .join isWait i =>
      match p.threads[i]? with
      | some w =>
          if w ∈ p.unjoinable then some (p, .join isWait (i + 1), [])
          else if w ∈ p.finished then
            some ({ p with unjoinable := w :: p.unjoinable }, .join isWait (i + 1), [])
          else none
      | none => some (p, .joinClear isWait, [])
  | .joinClear isWait =>
      match p.qPop with
      | (p', some f) =>
          some ({ p' with discarded := p'.discarded ++ [f] }, .joinClear isWait, [])
      | (p', none) => some (p', .joinErase isWait, [])
  -- `threads.clear(); flags.clear();`
  | .joinErase _ => some ({ p with threads := [] }, .idle, [])

/-- One step of worker `w` in its loop. Inside a task the task takes the steps. -/
def workerStep (w : ThreadId) (p : CThreadPool) : Worker → Option (CThreadPool × Worker)
  -- the first pop is outside of the loop
  | .start =>
      match p.qPop with
      | (p', some f) => some (p', .scope f)
      | (p', none) => some (p', .lock)
  | .scope f => some ({ p with invoked := p.invoked ++ [f] }, .running f .idle)
  | .running _ _ => none
  -- `if(_flag) return;` with the wrapper still owned by `func`
  | .testFlag f => if w ∈ p.flagged then some (p, .leaveScope f) else some (p, .popNext f)
  | .popNext f =>
      match p.qPop with
      | (p', next) => some (p', .endScope f next)
  -- `func` deletes the wrapper that ran, also when the next one has been popped already
  | .endScope f next =>
      match next with
      | some g => some ({ p with ran := p.ran ++ [f] }, .scope g)
      | none => some ({ p with ran := p.ran ++ [f] }, .lock)
  | .leaveScope f => some ({ p with ran := p.ran ++ [f], finished := w :: p.finished }, .exited)
  -- `isPop` is false: the loop ends and the worker gets ready to wait
  | .lock => if p.mutex = none then some ({ p with mutex := some w }, .enterWait) else none
  | .enterWait => some ({ p with nWaiting := p.nWaiting + 1 }, .predPop false)
  -- the predicate `isPop || this->isDone || _flag` pops first and reads the others only if it must
  | .predPop _ =>
      match p.qPop with
      | (p', some f) => some (p', .leaveWait (some f))
      | (p', none) => some (p', .predDone)
  | .predDone => if p.isDone then some (p, .leaveWait none) else some (p, .predFlag)
  | .predFlag => if w ∈ p.flagged then some (p, .leaveWait none) else some (p, .block)
  -- releasing the mutex and going to sleep is one step of `cv.wait`
  | .block => some ({ p with mutex := none, sleepers := w :: p.sleepers }, .waiting)
  | .waiting =>
      if w ∈ p.sleepers then none
      else if p.mutex = none then some ({ p with mutex := some w }, .predPop true)
      else none
  | .leaveWait next => some ({ p with nWaiting := p.nWaiting - 1 }, .unlock next)
  -- `if(!isPop) return;`, with the mutex released either way
  | .unlock next =>
      match next with
      | some f => some ({ p with mutex := none }, .scope f)
      | none => some ({ p with mutex := none, finished := w :: p.finished }, .exited)
  | .exited => none

/-- What a scheduled thread does: the next step of its code, where `wake` is the thread that a
`notify_one` wakes, or, for an outside thread or the task on a worker, a call, or the return of the
task. -/
inductive Choice where
  | run (wake : Option ThreadId)
  | call (r : Request)
  | ret
  deriving DecidableEq, Repr

/-- One step of thread `a`. -/
def procStep (a fresh : ThreadId) (p : CThreadPool) :
    Choice → Proc → Option (CThreadPool × Proc × List Worker)
  | .call r, .client .idle => some (p, .client r.entry, [])
  -- a task calls the pool it runs on
  | .call r, .worker (.running f .idle) =>
      if r.isQueueCall then some (p, .worker (.running f r.entry), []) else none
  | .ret, .worker (.running f .idle) => some (p, .worker (.testFlag f), [])
  | .run wake, .client c =>
      (callStep a wake fresh p c).map fun r => (r.1, .client r.2.1, r.2.2)
  | .run wake, .worker (.running f c) =>
      (callStep a wake fresh p c).map fun r => (r.1, .worker (.running f r.2.1), r.2.2)
  | .run _, .worker w => (workerStep a p w).map fun r => (r.1, .worker r.2, [])
  | _, _ => none

structure State where
  pool : CThreadPool
  procs : List Proc
  deriving DecidableEq, Repr

/-- A scheduled thread, a spurious wakeup, or a new outside thread. -/
inductive Label where
  | sched (a : ThreadId) (ch : Choice)
  | spurious (w : ThreadId)
  | arrive
  deriving DecidableEq, Repr

/-- One step of the system. -/
def step (s : State) : Label → Option State
  | .sched a ch =>
      match s.procs[a]? with
      | none => none
      | some pr =>
          match procStep a s.procs.length s.pool ch pr with
          | none => none
          | some (p, pr', new) =>
              some ⟨p, s.procs.set a pr' ++ new.map Proc.worker⟩
  | .spurious w =>
      if w ∈ s.pool.sleepers then
        some { s with pool := { s.pool with sleepers := s.pool.sleepers.erase w } }
      else none
  | .arrive => some { s with procs := s.procs ++ [.client .idle] }

/-- A pool after its constructor: no thread has been started and no outside thread is known. -/
def State.IsInit (s : State) : Prop := s = ⟨CThreadPool.init, []⟩

/-- Thread `a` takes `n` steps of its code, with nobody to notify. -/
def turns (a : ThreadId) (n : Nat) : List Label := List.replicate n (.sched a (.run none))

/-! ## What a step can do -/

theorem CThreadPool.qPop_cases (p : CThreadPool) :
    (p.queue = [] ∧ p.qPop = (p, none)) ∨
      ∃ f q, p.queue = f :: q ∧
        p.qPop = ({ p with queue := q, taken := p.taken ++ [f] }, some f) := by
  unfold CThreadPool.qPop
  cases h : p.queue with
  | nil => exact Or.inl ⟨rfl, rfl⟩
  | cons f q => exact Or.inr ⟨f, q, rfl, rfl⟩

/-- The moves of a scheduled thread `a`, by the kind of thread and of move. -/
inductive Move (a fresh : ThreadId) (p : CThreadPool) :
    Choice → Proc → CThreadPool → Proc → List Worker → Prop
  | clientCall (r : Request) : Move a fresh p (.call r) (.client .idle) p (.client r.entry) []
  | taskCall (f : TaskId) (r : Request) : r.isQueueCall = true →
      Move a fresh p (.call r) (.worker (.running f .idle)) p (.worker (.running f r.entry)) []
  | taskReturn (f : TaskId) :
      Move a fresh p .ret (.worker (.running f .idle)) p (.worker (.testFlag f)) []
  | client {wake : Option ThreadId} {c c' : Call} {p' : CThreadPool} {new : List Worker} :
      callStep a wake fresh p c = some (p', c', new) →
      Move a fresh p (.run wake) (.client c) p' (.client c') new
  | task {wake : Option ThreadId} {c c' : Call} {p' : CThreadPool} {new : List Worker}
      (f : TaskId) : callStep a wake fresh p c = some (p', c', new) →
      Move a fresh p (.run wake) (.worker (.running f c)) p' (.worker (.running f c')) new
  | worker {wake : Option ThreadId} {w w' : Worker} {p' : CThreadPool} :
      workerStep a p w = some (p', w') →
      Move a fresh p (.run wake) (.worker w) p' (.worker w') []

theorem procStep_move {a fresh : ThreadId} {p p' : CThreadPool} {ch : Choice} {pr pr' : Proc}
    {new : List Worker} (h : procStep a fresh p ch pr = some (p', pr', new)) :
    Move a fresh p ch pr p' pr' new := by
  revert h
  fun_cases procStep a fresh p ch pr with
  | case1 r =>
    intro h
    cases h
    exact Move.clientCall r
  | case2 r f hr =>
    intro h
    cases h
    exact Move.taskCall f r hr
  | case4 f =>
    intro h
    cases h
    exact Move.taskReturn f
  | case5 wake c =>
    intro h
    obtain ⟨⟨p₁, c₁, new₁⟩, hc, heq⟩ := Option.map_eq_some_iff.mp h
    cases heq
    exact Move.client hc
  | case6 wake f c =>
    intro h
    obtain ⟨⟨p₁, c₁, new₁⟩, hc, heq⟩ := Option.map_eq_some_iff.mp h
    cases heq
    exact Move.task f hc
  | case7 wake w =>
    intro h
    obtain ⟨⟨p₁, w₁⟩, hw, heq⟩ := Option.map_eq_some_iff.mp h
    cases heq
    exact Move.worker hw
  | case3 => exact fun h => nomatch h
  | case8 => exact fun h => nomatch h

/-- The three kinds of steps of the system. -/
theorem step_cases {s s' : State} {l : Label} (h : step s l = some s') :
    (∃ a ch pr p' pr' new, l = .sched a ch ∧ s.procs[a]? = some pr ∧
        Move a s.procs.length s.pool ch pr p' pr' new ∧
        s' = ⟨p', s.procs.set a pr' ++ new.map Proc.worker⟩) ∨
      (∃ w, l = .spurious w ∧ w ∈ s.pool.sleepers ∧
        s' = { s with pool := { s.pool with sleepers := s.pool.sleepers.erase w } }) ∨
      (l = .arrive ∧ s' = { s with procs := s.procs ++ [.client .idle] }) := by
  cases l with
  | sched a ch =>
    left
    simp only [step] at h
    split at h
    · cases h
    · rename_i pr hpr
      split at h
      · cases h
      · rename_i p' pr' new hmove
        cases h
        exact ⟨a, ch, pr, p', pr', new, rfl, hpr, procStep_move hmove, rfl⟩
  | spurious w =>
    simp only [step] at h
    split at h
    · rename_i hw
      cases h
      exact Or.inr (Or.inl ⟨w, rfl, hw, rfl⟩)
    · cases h
  | arrive =>
    cases h
    exact Or.inr (Or.inr ⟨rfl, rfl⟩)

/-- A call starts at most one worker, at the head of its thread function. -/
theorem callStep_new {a fresh : ThreadId} {wake : Option ThreadId} {p p' : CThreadPool}
    {c c' : Call} {new : List Worker} (h : callStep a wake fresh p c = some (p', c', new)) :
    new = [] ∨ new = [.start] := by
  revert h
  fun_cases callStep a wake fresh p c <;> intro h <;> cases h <;> simp

section Choices

variable {a fresh : ThreadId} {wake : Option ThreadId} {p p' : CThreadPool} {c' : Call}
  {new : List Worker}

/-- `notify_one` wakes a sleeper, if there is one. -/
theorem notify_step (h : callStep a wake fresh p .pushNotify = some (p', c', new)) :
    c' = .pushUnlock ∧ ((p.sleepers = [] ∧ p' = p) ∨
      ∃ w ∈ p.sleepers, p' = { p with sleepers := p.sleepers.erase w }) := by
  simp only [callStep] at h
  split at h
  · split at h
    · rename_i hnone
      cases h
      exact ⟨rfl, Or.inl ⟨hnone, rfl⟩⟩
    · cases h
  · split at h
    · rename_i w hw
      cases h
      exact ⟨rfl, Or.inr ⟨w, hw, rfl⟩⟩
    · cases h

/-- One round of the loop of `resize` that flags and detaches workers. -/
theorem flag_step {n i : Nat} {fs : List ThreadId}
    (h : callStep a wake fresh p (.resizeFlag n i fs) = some (p', c', new)) :
    (n < i ∧ ∃ w, p.threads[i - 1]? = some w ∧ c' = .resizeFlag n (i - 1) (w :: fs) ∧
        p' = { p with flagged := w :: p.flagged, unjoinable := w :: p.unjoinable }) ∨
      (i ≤ n ∧ c' = .allLock (.shrink n fs) ∧ p' = p) := by
  simp only [callStep] at h
  split at h
  · rename_i hi
    split at h
    · rename_i w hw
      cases h
      exact Or.inl ⟨hi, w, hw, rfl, rfl⟩
    · cases h
  · rename_i hi
    cases h
    exact Or.inr ⟨Nat.le_of_not_lt hi, rfl, rfl⟩

/-- One round of the loop of `stop` that joins the threads. -/
theorem join_step {isWait : Bool} {i : Nat}
    (h : callStep a wake fresh p (.join isWait i) = some (p', c', new)) :
    (∃ w, p.threads[i]? = some w ∧ c' = .join isWait (i + 1) ∧
        ((w ∈ p.unjoinable ∧ p' = p) ∨
          (w ∈ p.finished ∧ p' = { p with unjoinable := w :: p.unjoinable }))) ∨
      (p.threads.length ≤ i ∧ c' = .joinClear isWait ∧ p' = p) := by
  simp only [callStep] at h
  split at h
  · rename_i w hi
    split at h
    · rename_i hw
      cases h
      exact Or.inl ⟨w, hi, rfl, Or.inl ⟨hw, rfl⟩⟩
    · split at h
      · rename_i hw
        cases h
        exact Or.inl ⟨w, hi, rfl, Or.inr ⟨hw, rfl⟩⟩
      · cases h
  · rename_i hi
    cases h
    exact Or.inr ⟨List.getElem?_eq_none_iff.mp hi, rfl, rfl⟩

/-- The pop of the predicate of `cv.wait`. -/
theorem predPop_step {woken : Bool} {w' : Worker}
    (h : workerStep a p (.predPop woken) = some (p', w')) :
    (∃ f q, p.queue = f :: q ∧ w' = .leaveWait (some f) ∧
        p' = { p with queue := q, taken := p.taken ++ [f] }) ∨
      (p.queue = [] ∧ w' = .predDone ∧ p' = p) := by
  simp only [workerStep] at h
  rcases p.qPop_cases with ⟨hq, hp⟩ | ⟨f, q, hq, hp⟩
  · rw [hp] at h
    cases h
    exact Or.inr ⟨hq, rfl, rfl⟩
  · rw [hp] at h
    cases h
    exact Or.inl ⟨f, q, hq, rfl, rfl⟩

end Choices

section Procs

variable {a fresh : ThreadId} {p p' : CThreadPool} {ch : Choice} {pr pr' : Proc}
  {new : List Worker} {procs : List Proc}

theorem move_new (h : Move a fresh p ch pr p' pr' new) : new = [] ∨ new = [.start] := by
  cases h with
  | client hc => exact callStep_new hc
  | task f hc => exact callStep_new hc
  | _ => exact Or.inl rfl

theorem getElem?_move_self (hpr : procs[a]? = some pr) (pr' : Proc) (new : List Worker) :
    (procs.set a pr' ++ new.map Proc.worker)[a]? = some pr' := by
  obtain ⟨hlt, -⟩ := List.getElem?_eq_some_iff.mp hpr
  rw [List.getElem?_append_left (by simpa using hlt), List.getElem?_set_self hlt]

theorem getElem?_move_ne {b : ThreadId} {q : Proc} (hb : b ≠ a) (hq : procs[b]? = some q)
    (pr' : Proc) (new : List Worker) :
    (procs.set a pr' ++ new.map Proc.worker)[b]? = some q := by
  obtain ⟨hlt, -⟩ := List.getElem?_eq_some_iff.mp hq
  rw [List.getElem?_append_left (by simpa using hlt), List.getElem?_set_ne (Ne.symm hb), hq]

/-- A thread after a move is the moving one, an unchanged one, or a new worker. -/
theorem getElem?_move {b : Nat} {q : Proc} (hpr : procs[a]? = some pr)
    (h : Move a fresh p ch pr p' pr' new)
    (hq : (procs.set a pr' ++ new.map Proc.worker)[b]? = some q) :
    (b = a ∧ q = pr') ∨ (b ≠ a ∧ procs[b]? = some q) ∨ (b = procs.length ∧ q = .worker .start) := by
  by_cases hb : b < procs.length
  · rw [List.getElem?_append_left (by simpa using hb)] at hq
    by_cases hba : b = a
    · subst hba
      rw [List.getElem?_set_self hb] at hq
      exact Or.inl ⟨rfl, (Option.some.inj hq).symm⟩
    · rw [List.getElem?_set_ne (Ne.symm hba)] at hq
      exact Or.inr (Or.inl ⟨hba, hq⟩)
  · rw [List.getElem?_append_right (by simpa using hb), List.length_set] at hq
    right
    right
    rcases move_new h with rfl | rfl
    · simp at hq
    · have hlt : b - procs.length < 1 := (List.getElem?_eq_some_iff.mp hq).1
      have hlen : b = procs.length := by omega
      subst hlen
      simpa using hq.symm

/-- An outside thread after a move: the moving one or an unchanged one. -/
theorem client_move {b : ThreadId} {c : Call} (hpr : procs[a]? = some pr)
    (hmove : Move a fresh p ch pr p' pr' new)
    (hq : (procs.set a pr' ++ new.map Proc.worker)[b]? = some (.client c)) :
    (b = a ∧ pr' = .client c) ∨ (b ≠ a ∧ procs[b]? = some (.client c)) := by
  rcases getElem?_move hpr hmove hq with ⟨hb, heq⟩ | hold | ⟨-, heq⟩
  · exact Or.inl ⟨hb, heq.symm⟩
  · exact Or.inr hold
  · cases heq

/-- A thread after an arrival is an old one or the new outside thread. -/
theorem getElem?_arrive {b : Nat} {q : Proc} (hq : (procs ++ [.client .idle])[b]? = some q) :
    procs[b]? = some q ∨ (b = procs.length ∧ q = .client .idle) := by
  by_cases hlt : b < procs.length
  · rw [List.getElem?_append_left hlt] at hq
    exact Or.inl hq
  · rw [List.getElem?_append_right (by omega)] at hq
    have hone : b - procs.length < 1 := (List.getElem?_eq_some_iff.mp hq).1
    have hlen : b = procs.length := by omega
    subst hlen
    exact Or.inr ⟨rfl, by simpa using hq.symm⟩

/-- A worker was there before an arrival. -/
theorem arrive_worker {b : Nat} {w : Worker}
    (hb : (procs ++ [.client .idle])[b]? = some (.worker w)) : procs[b]? = some (.worker w) := by
  rcases getElem?_arrive hb with hold | ⟨-, heq⟩
  · exact hold
  · cases heq

theorem arrive_client {b : Nat} {c : Call}
    (hb : (procs ++ [.client .idle])[b]? = some (.client c)) :
    procs[b]? = some (.client c) ∨ c = .idle := by
  rcases getElem?_arrive hb with hold | ⟨-, heq⟩
  · exact Or.inl hold
  · cases heq
    exact Or.inr rfl

theorem getElem?_arrive_of {b : Nat} {q : Proc} (hq : procs[b]? = some q) (pr : Proc) :
    (procs ++ [pr])[b]? = some q := by
  obtain ⟨hlt, -⟩ := List.getElem?_eq_some_iff.mp hq
  rw [List.getElem?_append_left hlt, hq]

/-- A weight that a new worker does not have changes with the moving thread only. -/
theorem tally_move (f : Proc → Nat) (hf : f (.worker .start) = 0)
    (hpr : procs[a]? = some pr) (h : Move a fresh p ch pr p' pr' new) :
    tally f (procs.set a pr' ++ new.map Proc.worker) + f pr = tally f procs + f pr' := by
  have hset := tally_set f hpr pr'
  rcases move_new h with rfl | rfl
  · simpa using hset
  · simp only [List.map_cons, List.map_nil, tally_append, tally_cons, tally_nil, hf]
    omega

end Procs

end PetProject.ThreadPool
