import PetProject.ThreadPool.Ownership
import PetProject.ThreadPool.Wakeup

/-!
# Runs that end with `stop(true)`

The runs considered here (`waitRun`) are those in which the pool is used as the daemons use it:
outside threads push, grow the pool and call `stop(true)`; tasks push. A call of `resize` does not
overlap with another `resize` or with `stop`, as the header demands. `stop(true)` is called when no
other outside thread is inside of a call: outside pushes have returned, and two calls of
`stop(true)` do not overlap.

A worker leaves its loop only after its predicate has found the queue empty with `isDone` set, and
from the moment `isDone` is set only tasks push. So as long as a wrapper is queued some worker is
going to pop again (`Draining.drains`), and when the last join of `stop(true)` has returned nothing
is queued.
-/

set_option autoImplicit false

namespace PetProject.ThreadPool

open PetProject.Foundation.Tally PetProject.Foundation.Transition

/-! ## The runs -/

/-- Positions inside `push`. -/
def Call.isPush : Call → Bool
  | .pushQueue | .pushLock | .pushNotify | .pushUnlock => true
  | _ => false

/-- Positions inside `resize` when the pool does not shrink. -/
def Call.isGrow : Call → Bool
  | .resizeIsStop _ | .resizeIsDone _ | .resizeGrow _ => true
  | _ => false

def Notice.isDone : Notice → Bool
  | .done => true
  | _ => false

/-- Positions of `stop(true)` after it has set `isDone`. -/
def Call.isSet : Call → Bool
  | .allLock nt | .allNotify nt | .allUnlock nt => nt.isDone
  | .join isWait _ | .joinClear isWait | .joinErase isWait => isWait
  | _ => false

/-- Positions inside `stop(true)`. -/
def Call.isWait : Call → Bool
  | .waitIsDone | .waitIsStop | .waitSetDone => true
  | c => c.isSet

/-- The outside thread is not inside a call. -/
def Proc.isFree : Proc → Bool
  | .worker _ => true
  | .client c => c == .idle

/-- The outside thread is inside neither `resize` nor `stop`. -/
def Proc.isUser : Proc → Bool
  | .worker _ => true
  | .client c => c == .idle || c.isPush

/-- The calls of the considered runs. A task calls `push` only. Outside, `push` is called before the
first `stop(true)`, `resize` when no `resize` or `stop` is running, and `stop(true)` when no other
outside thread is inside of any call, so that two calls of `stop(true)` do not overlap. -/
def waitRun (s : State) : Label → Bool
  | .sched a (.call r) =>
      match s.procs[a]?, r with
      | some (.worker _), r => r == .push
      | some (.client _), .push =>
          !s.pool.isDone && s.procs.all fun pr => !pr.call.isWait
      | some (.client _), .resize n =>
          decide (s.pool.threads.length ≤ n) && s.procs.all Proc.isUser
      | some (.client _), .stop true =>
          (s.pool.isDone || !s.pool.threads.isEmpty) && s.procs.all Proc.isFree
      | _, _ => false
  | _ => true

/-! ## Positions of the workers -/

/-- The worker has decided to leave its loop, or has left it. -/
def Worker.gone : Worker → Bool
  | .leaveWait next | .unlock next => next.isNone
  | .leaveScope _ | .exited => true
  | _ => false

/-- The worker is going to pop again before it leaves its loop. -/
def Worker.willPop : Worker → Bool
  | .predDone => false
  | w => !w.gone

theorem willPop_of_not_gone {w : Worker} (hne : w ≠ .predDone) (hw : w.gone = false) :
    w.willPop = true := by
  cases w with
  | predDone => exact absurd rfl hne
  | _ =>
    rw [Worker.willPop, hw]
    · rfl
    · exact hne

/-- Nothing is queued and every worker has left its loop. -/
def State.Stopped (s : State) : Prop :=
  s.pool.queue = [] ∧ ∀ (a : ThreadId) (w : Worker), s.procs[a]? = some (.worker w) → w = .exited

/-- The invariant of the considered runs. -/
structure Draining (s : State) : Prop where
  unflagged : s.pool.flagged = [] ∧ s.pool.isStop = false
  kept : s.pool.handed = [] ∧ s.pool.discarded = []
  tasks : ∀ (a : ThreadId) (f : TaskId) (c : Call),
    s.procs[a]? = some (.worker (.running f c)) → c = .idle ∨ c.isPush = true
  clients : ∀ (a : ThreadId) (c : Call), s.procs[a]? = some (.client c) →
    c = .idle ∨ c.isPush = true ∨ c.isGrow = true ∨ c.isWait = true
  /-- A `resize` in progress does not shrink. -/
  grows : ∀ (a : ThreadId) (n : Nat), s.procs[a]? = some (.client (.resizeIsStop n)) ∨
    s.procs[a]? = some (.client (.resizeIsDone n)) → s.pool.threads.length ≤ n
  /-- During `stop(true)` the other outside threads are idle. -/
  alone : ∀ (a b : ThreadId) (c d : Call), s.procs[a]? = some (.client c) →
    s.procs[b]? = some (.client d) → b ≠ a → c.isWait = true → d = .idle
  aloneGrow : ∀ (a b : ThreadId) (c d : Call), s.procs[a]? = some (.client c) →
    s.procs[b]? = some (.client d) → b ≠ a → c.isGrow = true → d.isGrow = false
  exited : ∀ a ∈ s.pool.finished, s.procs[a]? = some (.worker .exited)
  joined : s.pool.unjoinable ⊆ s.pool.finished
  /-- The join loop has passed finished workers only. -/
  joining : ∀ (a : ThreadId) (i : Nat), s.procs[a]? = some (.client (.join true i)) →
    s.pool.threads.take i ⊆ s.pool.finished
  allJoined : ∀ (a : ThreadId), s.procs[a]? = some (.client (.joinClear true)) ∨
    s.procs[a]? = some (.client (.joinErase true)) → s.pool.threads ⊆ s.pool.finished
  staying : s.pool.isDone = false → ∀ (a : ThreadId) (w : Worker),
    s.procs[a]? = some (.worker w) → w.gone = false
  /-- After `isDone` is set no outside thread pushes or starts workers. -/
  closed : s.pool.isDone = true → ∀ (a : ThreadId) (c : Call), s.procs[a]? = some (.client c) →
    c.isPush = false ∧ ∀ n, c ≠ .resizeGrow n
  /-- After `isDone` is set a queued wrapper has a worker that is going to pop. -/
  drains : s.pool.isDone = true → s.pool.queue = [] ∨
    ∃ (a : ThreadId) (w : Worker), s.procs[a]? = some (.worker w) ∧ w.willPop = true
  listed : (s.pool.isDone = true ∧ s.Stopped) ∨
    ∀ (a : ThreadId) (w : Worker), s.procs[a]? = some (.worker w) → a ∈ s.pool.threads
  workers : ∀ a ∈ s.pool.threads, ∃ w, s.procs[a]? = some (.worker w)
  /-- `stop(true)` was called on a pool with a thread. -/
  nonempty : ∀ (a : ThreadId) (c : Call), s.procs[a]? = some (.client c) → c.isWait = true →
    s.pool.isDone = true ∨ s.pool.threads ≠ []
  set : s.pool.isDone = true → s.Stopped ∨
    ∃ (a : ThreadId) (c : Call), s.procs[a]? = some (.client c) ∧ c.isSet = true
  setDone : ∀ (a : ThreadId) (c : Call), s.procs[a]? = some (.client c) → c.isSet = true →
    s.pool.isDone = true

/-! ## Steps of the calls -/

section Local

variable {a fresh : ThreadId} {wake : Option ThreadId} {p p' : CThreadPool} {new : List Worker}

/-- The part of the pool that pushes and workers leave alone. -/
def CThreadPool.control (p : CThreadPool) :
    List ThreadId × Bool × Bool × List ThreadId × List ThreadId × List TaskId × List TaskId :=
  (p.flagged, p.isStop, p.isDone, p.threads, p.unjoinable, p.handed, p.discarded)

theorem qPop_control (p : CThreadPool) :
    p.qPop.1.control = p.control ∧ p.qPop.1.finished = p.finished := by
  rcases p.qPop_cases with ⟨hq, hp⟩ | ⟨f, q, hq, hp⟩ <;> simp [hp, CThreadPool.control]

theorem qPop_of_nil (hq : p.queue = []) : p.qPop = (p, none) := by
  rcases p.qPop_cases with ⟨-, hp⟩ | ⟨f, q, hq', -⟩
  · exact hp
  · simp [hq] at hq'

theorem push_step {c c' : Call} (hc : c.isPush = true)
    (h : callStep a wake fresh p c = some (p', c', new)) :
    new = [] ∧ (c' = .idle ∨ c'.isPush = true) ∧ p'.control = p.control ∧
      p'.finished = p.finished := by
  revert h
  fun_cases callStep a wake fresh p c <;> intro h <;> cases h <;>
    simp_all [Call.isPush, CThreadPool.control, CThreadPool.qPush]

/-- A step of a growing `resize` does nothing to the pool, or starts one worker. -/
theorem grow_step {c c' : Call} (hc : c.isGrow = true) (hstop : p.isStop = false)
    (hn : ∀ n, c = .resizeIsDone n → p.threads.length ≤ n)
    (h : callStep a wake fresh p c = some (p', c', new)) :
    (c' = .idle ∨ c'.isGrow = true) ∧
      ((p' = p ∧ new = [] ∧ (∀ n, c' = .resizeIsDone n → c = .resizeIsStop n) ∧
          (∀ n, c' ≠ .resizeIsStop n) ∧ (∀ n, c' = .resizeGrow n → p.isDone = false)) ∨
        (c' = c ∧ new = [.start] ∧ p' = { p with threads := p.threads ++ [fresh] } ∧
          ∃ n, c = .resizeGrow n)) := by
  revert h
  fun_cases callStep a wake fresh p c <;> intro h <;> cases h <;> simp_all [Call.isGrow]

theorem worker_control {w w' : Worker} (h : workerStep a p w = some (p', w')) :
    p'.control = p.control ∧ (p'.finished = p.finished ∨
      (p'.finished = a :: p.finished ∧ w' = .exited)) := by
  obtain ⟨hctl, hfin⟩ := qPop_control p
  revert h
  fun_cases workerStep a p w <;> intro h <;> cases h <;>
    simp_all [CThreadPool.control]

/-- A step of `stop(true)` keeps the flags and starts nothing; it discards only what it finds in
the queue. -/
theorem wait_frame {c c' : Call} (hc : c.isWait = true)
    (h : callStep a wake fresh p c = some (p', c', new)) :
    new = [] ∧ (c' = .idle ∨ c'.isWait = true) ∧ p'.flagged = p.flagged ∧ p'.isStop = p.isStop ∧
      p'.handed = p.handed ∧ p'.finished = p.finished ∧
      (p.queue = [] → p'.queue = [] ∧ p'.discarded = p.discarded) ∧
      (c ≠ .joinClear true → p'.queue = p.queue ∧ p'.discarded = p.discarded) := by
  obtain ⟨hctl, hfin⟩ := qPop_control p
  simp only [CThreadPool.control, Prod.mk.injEq] at hctl
  have hnil := qPop_of_nil (p := p)
  revert h
  fun_cases callStep a wake fresh p c <;> intro h <;> cases h
  all_goals simp_all [Call.isWait, Call.isSet, Notice.isDone]

/-- Where `stop(true)` goes: it returns with `isDone` set already or after its last section, and
it sets `isDone` in one place. -/
theorem wait_next {c c' : Call} (hc : c.isWait = true) (hstop : p.isStop = false)
    (h : callStep a wake fresh p c = some (p', c', new)) :
    (c' = .idle → (c = .waitIsDone ∧ p.isDone = true) ∨ c = .joinErase true) ∧
      (p'.threads = p.threads ∨ (p'.threads = [] ∧ c = .joinErase true ∧ c' = .idle)) ∧
      (p'.isDone = p.isDone ∨ (c = .waitSetDone ∧ p'.isDone = true)) ∧
      (c'.isSet = true → c.isSet = true ∨ p'.isDone = true) ∧
      (c.isSet = true → c'.isSet = true ∨ c = .joinErase true) ∧
      (c = .waitSetDone → c'.isSet = true) := by
  obtain ⟨hctl, -⟩ := qPop_control p
  simp only [CThreadPool.control, Prod.mk.injEq] at hctl
  revert h
  fun_cases callStep a wake fresh p c <;> intro h <;> cases h
  all_goals simp_all [Call.isWait, Call.isSet, Notice.isDone]

theorem take_succ_subset {l m : List ThreadId} {i : Nat} {w : ThreadId} (hi : l[i]? = some w)
    (hw : w ∈ m) (hl : l.take i ⊆ m) : l.take (i + 1) ⊆ m := by
  rw [List.take_add_one, hi]
  intro x hx
  rcases List.mem_append.mp hx with hx | hx
  · exact hl hx
  · rw [Option.toList_some, List.mem_singleton] at hx
    rw [hx]
    exact hw

/-- The join loop passes a thread that has finished, and ends after the last thread. -/
theorem wait_join {c c' : Call} (hjoined : p.unjoinable ⊆ p.finished)
    (hc : c.isWait = true)
    (hjoin : ∀ i, c = .join true i → p.threads.take i ⊆ p.finished)
    (hall : c = .joinClear true ∨ c = .joinErase true → p.threads ⊆ p.finished)
    (h : callStep a wake fresh p c = some (p', c', new)) :
    p'.unjoinable ⊆ p.finished ∧
      (∀ i, c' = .join true i → p.threads.take i ⊆ p.finished) ∧
      (c' = .joinClear true ∨ c' = .joinErase true → p.threads ⊆ p.finished) := by
  by_cases hloop : ∃ isWait i, c = .join isWait i
  · obtain ⟨isWait, i, rfl⟩ := hloop
    have hwait : isWait = true := hc
    subst hwait
    rcases join_step h with ⟨w, hi, rfl, hp⟩ | ⟨hend, rfl, rfl⟩
    · -- a thread that is joined already has finished as well
      have hfin : w ∈ p.finished ∧ p'.unjoinable ⊆ p.finished := by
        rcases hp with ⟨hw, rfl⟩ | ⟨hw, rfl⟩
        · exact ⟨hjoined hw, hjoined⟩
        · exact ⟨hw, List.cons_subset.mpr ⟨hw, hjoined⟩⟩
      refine ⟨hfin.2, ?_, nofun⟩
      intro j hj
      cases hj
      exact take_succ_subset hi hfin.1 (hjoin i rfl)
    · have hend' := hjoin i rfl
      rw [List.take_of_length_le hend] at hend'
      exact ⟨hjoined, nofun, fun _ => hend'⟩
  · obtain ⟨hctl, -⟩ := qPop_control p
    simp only [CThreadPool.control, Prod.mk.injEq] at hctl
    revert h
    fun_cases callStep a wake fresh p c <;> intro h <;> cases h
    all_goals simp_all [Call.isWait, Call.isSet, Notice.isDone]

/-- What a worker does outside its tasks, for a worker that is not flagged. -/
theorem worker_drain {w w' : Worker} (hflag : p.flagged = [])
    (h : workerStep a p w = some (p', w')) :
    (w'.gone = true → w.gone = true ∨ p.isDone = true) ∧
      (w.willPop = true → w'.willPop = true ∨ p'.queue = []) ∧
      (p.queue = [] → p'.queue = []) ∧
      (∀ f c, w' = .running f c → c = .idle) ∧ w ≠ .exited := by
  by_cases hpred : ∃ woken, w = .predPop woken
  · obtain ⟨woken, rfl⟩ := hpred
    rcases predPop_step h with ⟨f, q, hq, rfl, rfl⟩ | ⟨hq, rfl, rfl⟩
    · have hne : p.queue ≠ [] := by
        rw [hq]
        exact List.cons_ne_nil f q
      exact ⟨nofun, fun _ => Or.inl rfl, fun hnil => absurd hnil hne, nofun, nofun⟩
    · -- nothing is found: the worker is not going to pop again
      exact ⟨nofun, fun _ => Or.inr hq, id, nofun, nofun⟩
  · have hnil := qPop_of_nil (p := p)
    revert h
    fun_cases workerStep a p w <;> intro h <;> cases h
    all_goals simp_all [Worker.gone, Worker.willPop]

end Local

/-- The moves of the considered runs in a state that satisfies the invariant. -/
inductive DrainMove (s : State) (a : ThreadId) :
    Proc → CThreadPool → Proc → List Worker → Prop
  /-- An outside thread makes a call. -/
  | call (c : Call) : (c = .pushQueue ∧ s.pool.isDone = false ∧
          ∀ (b : ThreadId) (d : Call), s.procs[b]? = some (.client d) → d.isWait = false) ∨
        (∃ n, c = .resizeIsStop n ∧ s.pool.threads.length ≤ n ∧
          ∀ (b : ThreadId) (d : Call), s.procs[b]? = some (.client d) →
            d = .idle ∨ d.isPush = true) ∨
        (c = .waitIsDone ∧ (s.pool.isDone = true ∨ s.pool.threads ≠ []) ∧
          ∀ (b : ThreadId) (d : Call), s.procs[b]? = some (.client d) → d = .idle) →
      DrainMove s a (.client .idle) s.pool (.client c) []
  | push {wake : Option ThreadId} {p' : CThreadPool} {c c' : Call} {new : List Worker} :
      c.isPush = true → callStep a wake s.procs.length s.pool c = some (p', c', new) →
      DrainMove s a (.client c) p' (.client c') new
  | grow {wake : Option ThreadId} {p' : CThreadPool} {c c' : Call} {new : List Worker} :
      c.isGrow = true → callStep a wake s.procs.length s.pool c = some (p', c', new) →
      DrainMove s a (.client c) p' (.client c') new
  | wait {wake : Option ThreadId} {p' : CThreadPool} {c c' : Call} {new : List Worker} :
      c.isWait = true → callStep a wake s.procs.length s.pool c = some (p', c', new) →
      DrainMove s a (.client c) p' (.client c') new
  /-- A worker, or the task on it, makes a step. -/
  | worker {w w' : Worker} {p' : CThreadPool} : w ≠ .exited → p'.control = s.pool.control →
      (p'.finished = s.pool.finished ∨ (p'.finished = a :: s.pool.finished ∧ w' = .exited)) →
      (w'.gone = true → w.gone = true ∨ s.pool.isDone = true) →
      (w.willPop = true → w'.willPop = true ∨ p'.queue = []) →
      (p'.queue = [] ∨ w'.willPop = true ∨ s.pool.queue ≠ []) →
      (∀ f c, w' = .running f c → c = .idle ∨ c.isPush = true) →
      DrainMove s a (.worker w) p' (.worker w') []

theorem client_of_all {s : State} {f : Proc → Bool} (h : s.procs.all f = true) {b : ThreadId}
    {d : Call} (hb : s.procs[b]? = some (.client d)) : f (.client d) = true :=
  List.all_eq_true.mp h _ (List.mem_of_getElem? hb)

/-- A worker that runs a task and goes on to pop does not leave the loop. -/
theorem drainMove_running {s : State} {a : ThreadId} {f : TaskId} {c : Call} {w' : Worker}
    {p' : CThreadPool} (hctl : p'.control = s.pool.control)
    (hfin : p'.finished = s.pool.finished) (hgone : w'.gone = false) (hpop : w'.willPop = true)
    (hrun : ∀ g d, w' = .running g d → d = .idle ∨ d.isPush = true) :
    DrainMove s a (.worker (.running f c)) p' (.worker w') [] := by
  apply DrainMove.worker _ hctl (Or.inl hfin) _ (fun _ => Or.inl hpop) (Or.inr (Or.inl hpop)) hrun
  · intro hexited
    cases hexited
  · intro htrue
    rw [hgone] at htrue
    cases htrue

theorem push_queue {s : State} {a : ThreadId} {wake : Option ThreadId} {p' : CThreadPool}
    {c c' : Call} {new : List Worker} {f : TaskId}
    (hc : c = .idle ∨ c.isPush = true)
    (h : callStep a wake s.procs.length s.pool c = some (p', c', new)) :
    DrainMove s a (.worker (.running f c)) p' (.worker (.running f c')) new := by
  rcases hc with rfl | hc
  · cases h
  · obtain ⟨rfl, hclass, hctl, hfin⟩ := push_step hc h
    apply drainMove_running hctl hfin rfl rfl
    intro g d hd
    cases hd
    exact hclass

theorem drainMove_of_move {s : State} {a : ThreadId} {ch : Choice} {pr pr' : Proc}
    {p' : CThreadPool} {new : List Worker} (hs : Draining s)
    (hok : waitRun s (.sched a ch) = true) (hpr : s.procs[a]? = some pr)
    (hmove : Move a s.procs.length s.pool ch pr p' pr' new) : DrainMove s a pr p' pr' new := by
  cases hmove with
  | clientCall r =>
    refine DrainMove.call r.entry ?_
    cases r with
    | push =>
      simp only [waitRun, hpr, Bool.and_eq_true, Bool.not_eq_true'] at hok
      refine Or.inl ⟨rfl, hok.1, fun b d hd => ?_⟩
      simpa [Proc.call] using client_of_all hok.2 hd
    | resize n =>
      simp only [waitRun, hpr, Bool.and_eq_true, decide_eq_true_eq] at hok
      refine Or.inr (Or.inl ⟨n, rfl, hok.1, fun b d hd => ?_⟩)
      simpa [Proc.isUser] using client_of_all hok.2 hd
    | stop isWait =>
      cases isWait with
      | false => simp [waitRun, hpr] at hok
      | true =>
        simp only [waitRun, hpr, Bool.and_eq_true, Bool.or_eq_true, Bool.not_eq_true',
          List.isEmpty_eq_false_iff] at hok
        refine Or.inr (Or.inr ⟨rfl, hok.1, fun b d hd => ?_⟩)
        simpa [Proc.isFree] using client_of_all hok.2 hd
    | pop => simp [waitRun, hpr] at hok
    | clearQueue => simp [waitRun, hpr] at hok
  | taskCall f r hr =>
    have hpush : r = .push := by simpa [waitRun, hpr] using hok
    subst hpush
    apply drainMove_running rfl rfl rfl rfl
    intro g d hd
    cases hd
    exact Or.inr rfl
  | taskReturn f =>
    apply drainMove_running rfl rfl rfl rfl
    intro g d hd
    cases hd
  | client hc =>
    rcases hs.clients a _ hpr with rfl | hpush | hgrow | hwait
    · cases hc
    · exact DrainMove.push hpush hc
    · exact DrainMove.grow hgrow hc
    · exact DrainMove.wait hwait hc
  | task f hc => exact push_queue (hs.tasks a f _ hpr) hc
  | worker hw =>
    obtain ⟨hctl, hfin⟩ := worker_control hw
    obtain ⟨hgone, hpop, hnil, hrun, hne⟩ := worker_drain hs.unflagged.1 hw
    refine DrainMove.worker hne hctl hfin hgone hpop ?_ fun f c hf => Or.inl (hrun f c hf)
    by_cases hq : s.pool.queue = []
    · exact Or.inl (hnil hq)
    · exact Or.inr (Or.inr hq)

end PetProject.ThreadPool
