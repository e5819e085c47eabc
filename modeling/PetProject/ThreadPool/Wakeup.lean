import PetProject.ThreadPool.Model

/-!
# Wakeups

`push` enqueues under the queue's own mutex and takes `this->mutex` only for `notify_one`; flags
and `isDone` are written under no mutex at all. The invariants here relate the queue, the
notifications that are still to come and the woken workers that have not looked yet, over every
interleaving.

`MutexOwned` says that the owner of `this->mutex` is the thread whose position is inside a critical
section. `Balanced` says that, as soon as a worker is asleep or has found the queue empty in its
predicate, the queue is no longer than the pending notifications and the woken workers together
cover. `Signalled` says that a flag or `isDone` that was announced by `notify_all` keeps every
worker it concerns out of `cv.wait`.
-/

set_option autoImplicit false

namespace PetProject.ThreadPool

open PetProject.Foundation.Tally PetProject.Foundation.Transition

/-! ## Positions -/

/-- The call is inside its critical section of `this->mutex`. -/
def Call.locked : Call → Bool
  | .pushNotify | .pushUnlock | .allNotify _ | .allUnlock _ => true
  | _ => false

/-- The worker is inside its critical section of `this->mutex`. -/
def Worker.locked : Worker → Bool
  | .running _ c => c.locked
  | .enterWait | .predPop _ | .predDone | .predFlag | .block | .leaveWait _ | .unlock _ => true
  | _ => false

def Proc.locked : Proc → Bool
  | .worker w => w.locked
  | .client c => c.locked

/-- The push has enqueued its wrapper and has not yet run `notify_one`. -/
def Call.pending : Call → Bool
  | .pushLock | .pushNotify => true
  | _ => false

def Proc.pending (pr : Proc) : Bool := pr.call.pending

/-- In `wait`, or woken and about to evaluate the predicate again. -/
def Proc.inWait : Proc → Bool
  | .worker .waiting | .worker (.predPop true) => true
  | _ => false

/-- In the predicate, after its pop has found the queue empty. -/
def Proc.foundEmpty : Proc → Bool
  | .worker .predDone | .worker .predFlag | .worker .block => true
  | _ => false

/-- The worker is woken and has not yet evaluated its predicate again. -/
def State.Woken (s : State) (a : ThreadId) : Prop :=
  (s.procs[a]? = some (.worker .waiting) ∧ a ∉ s.pool.sleepers) ∨
    s.procs[a]? = some (.worker (.predPop true))

/-- The thread is between its enqueue and its `notify_one`. -/
def State.Pushing (s : State) (a : ThreadId) : Prop :=
  ∃ pr, s.procs[a]? = some pr ∧ pr.pending = true

/-! ## The pool mutex -/

/-- The owner of `this->mutex` is the thread inside a critical section. -/
def MutexOwned (s : State) : Prop :=
  ∀ a, s.pool.mutex = some a ↔ ∃ pr, s.procs[a]? = some pr ∧ pr.locked = true

section Local

variable {a fresh : ThreadId} {wake : Option ThreadId} {p p' : CThreadPool} {ch : Choice}
  {pr pr' : Proc} {new : List Worker}

theorem qPop_mutex (p : CThreadPool) : p.qPop.1.mutex = p.mutex := by
  rcases p.qPop_cases with ⟨hq, hp⟩ | ⟨f, q, hq, hp⟩ <;> simp [hp]

/-- What a step does to the mutex: nothing, a lock or an unlock by the moving thread. -/
def MutexMove (a : ThreadId) (m m' : Option ThreadId) (b b' : Bool) : Prop :=
  (m' = m ∧ b' = b) ∨ (m = none ∧ m' = some a ∧ b' = true) ∨ (m' = none ∧ b = true ∧ b' = false)

theorem callStep_mutex {c c' : Call} (h : callStep a wake fresh p c = some (p', c', new)) :
    MutexMove a p.mutex p'.mutex c.locked c'.locked := by
  have hpop := qPop_mutex p
  revert h
  fun_cases callStep a wake fresh p c <;> intro h <;> cases h <;>
    simp_all [MutexMove, Call.locked, CThreadPool.qPush]

theorem workerStep_mutex {w w' : Worker} (h : workerStep a p w = some (p', w')) :
    MutexMove a p.mutex p'.mutex w.locked w'.locked := by
  have hpop := qPop_mutex p
  revert h
  fun_cases workerStep a p w <;> intro h <;> cases h <;>
    simp_all [MutexMove, Worker.locked, Call.locked]

theorem request_locked (r : Request) : r.entry.locked = false := by
  cases r with
  | stop isWait => cases isWait <;> rfl
  | _ => rfl

theorem move_mutex (h : Move a fresh p ch pr p' pr' new) :
    MutexMove a p.mutex p'.mutex pr.locked pr'.locked := by
  cases h with
  | clientCall r => exact Or.inl ⟨rfl, request_locked r⟩
  | taskCall f r hr => exact Or.inl ⟨rfl, request_locked r⟩
  | taskReturn f => exact Or.inl ⟨rfl, rfl⟩
  | client hc => exact callStep_mutex hc
  | task f hc => exact callStep_mutex hc
  | worker hw => exact workerStep_mutex hw

end Local

theorem mutexOwned_step {s s' : State} {l : Label} (hs : MutexOwned s) (h : step s l = some s') :
    MutexOwned s' := by
  rcases step_cases h with ⟨a, ch, pr, p', pr', new, -, hpr, hmove, rfl⟩ | ⟨w, -, -, rfl⟩ |
    ⟨-, rfl⟩
  · have hm := move_mutex hmove
    intro b
    by_cases hb : b = a
    · -- the moving thread takes, keeps or gives back the mutex as its position says
      subst hb
      have hself := getElem?_move_self hpr pr' new
      have hold := hs b
      simp only [hpr, Option.some.injEq, exists_eq_left'] at hold
      simp only [hself, Option.some.injEq, exists_eq_left']
      rcases hm with ⟨hm', hb'⟩ | ⟨hm, hm', hb'⟩ | ⟨hm', hb, hb'⟩
      · rw [hm', hb']
        exact hold
      · simp [hm', hb']
      · simp [hm', hb']
    · -- no step of another thread makes or ends the ownership of `b`
      have hne : p'.mutex = some b ↔ s.pool.mutex = some b := by
        rcases hm with ⟨hm', -⟩ | ⟨hm, hm', -⟩ | ⟨hm', hlocked, -⟩
        · rw [hm']
        · simp [hm, hm', Ne.symm hb]
        · have hown := (hs a).mpr ⟨pr, hpr, hlocked⟩
          simp [hm', hown, Ne.symm hb]
      rw [show (⟨p', s.procs.set a pr' ++ new.map Proc.worker⟩ : State).pool.mutex = p'.mutex from
        rfl, hne, hs b]
      constructor
      · rintro ⟨q, hq, hlocked⟩
        exact ⟨q, getElem?_move_ne hb hq pr' new, hlocked⟩
      · rintro ⟨q, hq, hlocked⟩
        rcases getElem?_move hpr hmove hq with ⟨hba, -⟩ | ⟨-, hq'⟩ | ⟨-, rfl⟩
        · exact absurd hba hb
        · exact ⟨q, hq', hlocked⟩
        · simp [Proc.locked, Worker.locked] at hlocked
  · exact hs
  · intro b
    rw [show ({ s with procs := s.procs ++ [.client .idle] } : State).pool.mutex = s.pool.mutex
      from rfl, hs b]
    constructor
    · rintro ⟨q, hq, hlocked⟩
      exact ⟨q, getElem?_arrive_of hq _, hlocked⟩
    · rintro ⟨q, hq, hlocked⟩
      rcases getElem?_arrive hq with hq' | ⟨-, rfl⟩
      · exact ⟨q, hq', hlocked⟩
      · simp [Proc.locked, Call.locked] at hlocked

/-- Two threads are not inside a critical section of the mutex at once. -/
theorem MutexOwned.exclusive {s : State} (hs : MutexOwned s) {a b : ThreadId} {pr q : Proc}
    (hpr : s.procs[a]? = some pr) (ha : pr.locked = true) (hq : s.procs[b]? = some q)
    (hb : q.locked = true) : b = a := by
  have h₁ := (hs a).mpr ⟨pr, hpr, ha⟩
  have h₂ := (hs b).mpr ⟨q, hq, hb⟩
  rw [h₁] at h₂
  exact (Option.some.inj h₂).symm

/-! ## The sleepers -/

/-- The sleepers are distinct workers inside `wait`. -/
def SleepersWait (s : State) : Prop :=
  s.pool.sleepers.Nodup ∧ ∀ a ∈ s.pool.sleepers, s.procs[a]? = some (.worker .waiting)

section Local

variable {a fresh : ThreadId} {wake : Option ThreadId} {p p' : CThreadPool} {ch : Choice}
  {pr pr' : Proc} {new : List Worker}

theorem qPop_sleepers (p : CThreadPool) : p.qPop.1.sleepers = p.sleepers := by
  rcases p.qPop_cases with ⟨hq, hp⟩ | ⟨f, q, hq, hp⟩ <;> simp [hp]

theorem callStep_sleepers {c c' : Call} (h : callStep a wake fresh p c = some (p', c', new)) :
    p'.sleepers = p.sleepers ∨ (∃ w, p'.sleepers = p.sleepers.erase w) ∨ p'.sleepers = [] := by
  have hpop := qPop_sleepers p
  revert h
  fun_cases callStep a wake fresh p c <;> intro h <;> cases h <;>
    simp_all [CThreadPool.qPush]

theorem workerStep_sleepers {w w' : Worker} (h : workerStep a p w = some (p', w')) :
    (p'.sleepers = p.sleepers ∧ (w = .waiting → a ∉ p.sleepers)) ∨
      (p'.sleepers = a :: p.sleepers ∧ w = .block ∧ w' = .waiting) := by
  have hpop := qPop_sleepers p
  revert h
  fun_cases workerStep a p w <;> intro h <;> cases h <;> simp_all

/-- The sleepers change by wakeups, or by the moving worker going to sleep. -/
theorem move_sleepers (h : Move a fresh p ch pr p' pr' new) :
    (p'.sleepers ⊆ p.sleepers ∧ (p.sleepers.Nodup → p'.sleepers.Nodup) ∧
        (pr = .worker .waiting → a ∉ p.sleepers)) ∨
      (p'.sleepers = a :: p.sleepers ∧ pr = .worker .block ∧ pr' = .worker .waiting) := by
  have hcall : ∀ {c c' : Call} {wake : Option ThreadId},
      callStep a wake fresh p c = some (p', c', new) →
      p'.sleepers ⊆ p.sleepers ∧ (p.sleepers.Nodup → p'.sleepers.Nodup) := by
    intro c c' wake hc
    -- a call wakes nobody, the one thread of `notify_one`, or everybody
    rcases callStep_sleepers hc with heq | ⟨w, heq⟩ | heq <;> rw [heq]
    · exact ⟨fun _ hx => hx, id⟩
    · exact ⟨List.erase_subset, fun hnd => hnd.erase w⟩
    · exact ⟨List.nil_subset _, fun _ => List.nodup_nil⟩
  cases h with
  | clientCall r => exact Or.inl ⟨fun _ hx => hx, id, nofun⟩
  | taskCall f r hr => exact Or.inl ⟨fun _ hx => hx, id, nofun⟩
  | taskReturn f => exact Or.inl ⟨fun _ hx => hx, id, nofun⟩
  | client hc => exact Or.inl ⟨(hcall hc).1, (hcall hc).2, nofun⟩
  | task f hc => exact Or.inl ⟨(hcall hc).1, (hcall hc).2, nofun⟩
  | worker hw =>
    rcases workerStep_sleepers hw with ⟨heq, hwait⟩ | ⟨heq, rfl, rfl⟩
    · rw [heq]
      exact Or.inl ⟨fun _ hx => hx, id, fun hpr => hwait (Proc.worker.inj hpr)⟩
    · exact Or.inr ⟨heq, rfl, rfl⟩

end Local

theorem sleepersWait_step {s s' : State} {l : Label} (hs : SleepersWait s)
    (h : step s l = some s') : SleepersWait s' := by
  obtain ⟨hnd, hwait⟩ := hs
  rcases step_cases h with ⟨a, ch, pr, p', pr', new, -, hpr, hmove, rfl⟩ | ⟨w, -, -, rfl⟩ |
    ⟨-, rfl⟩
  · rcases move_sleepers hmove with ⟨hsub, hnd', hself⟩ | ⟨heq, hblock, hpr'⟩
    · -- threads were woken at most, and a sleeper takes no step
      refine ⟨hnd' hnd, fun b hb => ?_⟩
      have hq := hwait b (hsub hb)
      have hba : b ≠ a := by
        rintro rfl
        rw [hpr] at hq
        exact hself (Option.some.inj hq) (hsub hb)
      exact getElem?_move_ne hba hq pr' new
    · -- the moving worker goes to sleep, coming from the predicate
      subst hblock hpr'
      have ha : a ∉ s.pool.sleepers := by
        intro ha
        have hq := hwait a ha
        rw [hpr] at hq
        cases hq
      refine ⟨by rw [heq]; exact List.nodup_cons.mpr ⟨ha, hnd⟩, fun b hb => ?_⟩
      rw [heq, List.mem_cons] at hb
      rcases hb with rfl | hb
      · exact getElem?_move_self hpr _ new
      · have hba : b ≠ a := fun hba => ha (hba ▸ hb)
        exact getElem?_move_ne hba (hwait b hb) _ new
  · exact ⟨hnd.erase w, fun b hb => hwait b (List.mem_of_mem_erase hb)⟩
  · exact ⟨hnd, fun b hb => getElem?_arrive_of (hwait b hb) _⟩

/-! ## The queue is covered by notifications and woken workers -/

/-- The weight of a Boolean position. -/
def weigh (f : Proc → Bool) (pr : Proc) : Nat := if f pr then 1 else 0

/-- A worker is asleep, or has found the queue empty in its predicate. -/
def State.Settled (s : State) : Prop :=
  s.pool.sleepers ≠ [] ∨
    ∃ (a : ThreadId) (pr : Proc), s.procs[a]? = some pr ∧ pr.foundEmpty = true

/-- While a worker is settled, every wrapper in the queue is accounted for by a notification that
is still to come or by a woken worker. Sleepers stand on both sides: they are inside `wait`. -/
def Balanced (s : State) : Prop :=
  s.Settled → s.pool.queue.length + s.pool.sleepers.length ≤
    tally (weigh Proc.pending) s.procs + tally (weigh Proc.inWait) s.procs

section Local

variable {a fresh : ThreadId} {wake : Option ThreadId} {p p' : CThreadPool} {ch : Choice}
  {pr pr' : Proc} {new : List Worker}

theorem qPop_length (p : CThreadPool) :
    p.qPop.1.queue.length + p.qPop.2.toList.length = p.queue.length := by
  rcases p.qPop_cases with ⟨hq, hp⟩ | ⟨f, q, hq, hp⟩ <;> simp [hp, hq]

/-- The effect of a step on the balance: it keeps the inequality and settles no worker, or the
moving worker has just found the queue empty, or a notification finds or leaves no sleeper. -/
def BalanceMove (p p' : CThreadPool) (pr pr' : Proc) : Prop :=
  (p'.queue.length + p'.sleepers.length + weigh Proc.pending pr + weigh Proc.inWait pr ≤
      p.queue.length + p.sleepers.length + weigh Proc.pending pr' + weigh Proc.inWait pr' ∧
    (p'.sleepers ≠ [] → p.sleepers ≠ [] ∨ pr.foundEmpty = true) ∧
    (pr'.foundEmpty = true → pr.foundEmpty = true)) ∨
  (p'.queue = [] ∧ p'.sleepers = p.sleepers ∧ pr.locked = true) ∨
  (p'.sleepers = [] ∧ pr.locked = true ∧ pr'.foundEmpty = false)

theorem callStep_balance {c c' : Call} (h : callStep a wake fresh p c = some (p', c', new)) :
    (p'.queue.length + p'.sleepers.length + (if c.pending then 1 else 0) ≤
        p.queue.length + p.sleepers.length + (if c'.pending then 1 else 0) ∧
      (p'.sleepers ≠ [] → p.sleepers ≠ [])) ∨
    (p'.sleepers = [] ∧ c.locked = true) := by
  by_cases hnotify : c = .pushNotify
  · subst hnotify
    obtain ⟨rfl, ⟨hnone, rfl⟩ | ⟨w, hw, rfl⟩⟩ := notify_step h
    · exact Or.inr ⟨hnone, rfl⟩
    · -- one sleeper less, one pending notification less
      have hlen := List.length_erase_of_mem hw
      have hpos := List.length_pos_of_mem hw
      left
      simp only [Call.pending]
      exact ⟨by simp; omega, fun _ => List.ne_nil_of_mem hw⟩
  · have hlen := qPop_length p
    have hsleep := qPop_sleepers p
    revert h
    fun_cases callStep a wake fresh p c <;> intro h <;> cases h
    all_goals simp_all [Call.pending, Call.locked, CThreadPool.qPush]
    all_goals omega

theorem workerStep_balance {w w' : Worker} (h : workerStep a p w = some (p', w')) :
    BalanceMove p p' (.worker w) (.worker w') := by
  by_cases hpred : ∃ woken, w = .predPop woken
  · obtain ⟨woken, rfl⟩ := hpred
    rcases predPop_step h with ⟨f, q, hq, rfl, rfl⟩ | ⟨hq, rfl, rfl⟩
    · -- a wrapper is popped, on a wakeup or before the first sleep
      left
      cases woken <;> simp [weigh, Proc.pending, Proc.call, Call.pending, Proc.inWait,
        Proc.foundEmpty, hq]
    · -- the queue is empty, under the mutex
      exact Or.inr (Or.inl ⟨hq, rfl, rfl⟩)
  · have hlen := qPop_length p
    have hsleep := qPop_sleepers p
    revert h
    fun_cases workerStep a p w <;> intro h <;> cases h
    all_goals simp_all [BalanceMove, weigh, Proc.pending, Proc.call, Call.pending, Proc.inWait,
      Proc.foundEmpty, Proc.locked, Worker.locked]
    all_goals omega

@[simp] theorem pending_idle : Call.idle.pending = false := rfl

@[simp] theorem request_pending (r : Request) : r.entry.pending = false := by
  cases r with
  | stop isWait => cases isWait <;> rfl
  | _ => rfl

theorem move_balance (h : Move a fresh p ch pr p' pr' new) : BalanceMove p p' pr pr' := by
  cases h with
  | clientCall r =>
    refine Or.inl ⟨?_, Or.inl, nofun⟩
    simp [weigh, Proc.pending, Proc.call, Proc.inWait]
  | taskCall f r hr =>
    refine Or.inl ⟨?_, Or.inl, nofun⟩
    simp [weigh, Proc.pending, Proc.call, Proc.inWait]
  | taskReturn f => exact Or.inl ⟨Nat.le_refl _, Or.inl, nofun⟩
  | client hc =>
    rcases callStep_balance hc with ⟨hle, hsleep⟩ | ⟨hnil, hlocked⟩
    · exact Or.inl ⟨hle, fun h' => Or.inl (hsleep h'), nofun⟩
    · exact Or.inr (Or.inr ⟨hnil, hlocked, rfl⟩)
  | task f hc =>
    rcases callStep_balance hc with ⟨hle, hsleep⟩ | ⟨hnil, hlocked⟩
    · exact Or.inl ⟨hle, fun h' => Or.inl (hsleep h'), nofun⟩
    · exact Or.inr (Or.inr ⟨hnil, hlocked, rfl⟩)
  | worker hw => exact workerStep_balance hw

end Local

theorem foundEmpty_locked {pr : Proc} (h : pr.foundEmpty = true) : pr.locked = true := by
  cases pr with
  | client c => simp [Proc.foundEmpty] at h
  | worker w => cases w <;> simp_all [Proc.foundEmpty, Proc.locked, Worker.locked]

/-- After a step by the owner of the mutex that does not end in the predicate, nobody is past the
pop of the predicate. -/
theorem foundEmpty_false_of_locked {s : State} {a : ThreadId} {ch : Choice} {pr pr' : Proc}
    {p' : CThreadPool} {new : List Worker} (hmutex : MutexOwned s) (hpr : s.procs[a]? = some pr)
    (hmove : Move a s.procs.length s.pool ch pr p' pr' new) (hlocked : pr.locked = true)
    (hempty : pr'.foundEmpty = false) (b : ThreadId) (q : Proc)
    (hq : (s.procs.set a pr' ++ new.map Proc.worker)[b]? = some q) : q.foundEmpty = false := by
  rcases getElem?_move hpr hmove hq with ⟨-, rfl⟩ | ⟨hba, hq'⟩ | ⟨-, rfl⟩
  · exact hempty
  · cases hqe : q.foundEmpty with
    | false => rfl
    | true => exact absurd (hmutex.exclusive hpr hlocked hq' (foundEmpty_locked hqe)) hba
  · rfl

/-- Sleepers are inside `wait`. -/
theorem sleepers_le_inWait {s : State} (hs : SleepersWait s) :
    s.pool.sleepers.length ≤ tally (weigh Proc.inWait) s.procs :=
  length_le_tally _ hs.1 fun a ha => ⟨_, hs.2 a ha, by decide⟩

theorem balanced_step {s s' : State} {l : Label} (hmutex : MutexOwned s) (hwait : SleepersWait s)
    (hs : Balanced s) (h : step s l = some s') : Balanced s' := by
  have hwait' := sleepersWait_step hwait h
  rcases step_cases h with ⟨a, ch, pr, p', pr', new, -, hpr, hmove, rfl⟩ | ⟨w, -, hw, rfl⟩ |
    ⟨-, rfl⟩
  · intro hsettled
    have hpend := tally_move (weigh Proc.pending) rfl hpr hmove
    have hin := tally_move (weigh Proc.inWait) rfl hpr hmove
    rcases move_balance hmove with ⟨hle, hsleep, hempty⟩ | ⟨hq, hsl, hlocked⟩ |
      ⟨hsl, hlocked, hempty⟩
    · -- the inequality is kept, and some worker was settled before the step
      have hbefore : s.Settled := by
        rcases hsettled with hne | ⟨b, q, hq, hqe⟩
        · rcases hsleep hne with hne' | hpre
          · exact Or.inl hne'
          · exact Or.inr ⟨a, pr, hpr, hpre⟩
        · rcases getElem?_move hpr hmove hq with ⟨-, rfl⟩ | ⟨-, hq'⟩ | ⟨-, rfl⟩
          · exact Or.inr ⟨a, pr, hpr, hempty hqe⟩
          · exact Or.inr ⟨b, q, hq', hqe⟩
          · simp [Proc.foundEmpty] at hqe
      have := hs hbefore
      dsimp only at *
      omega
    · -- the queue is empty: the sleepers are inside `wait`
      have := sleepers_le_inWait hwait'
      simp only [hq, List.length_nil]
      dsimp only at *
      omega
    · -- the moving thread holds the mutex and nobody sleeps: no worker is settled
      rcases hsettled with hne | ⟨b, q, hq, hqe⟩
      · exact absurd hsl hne
      · rw [foundEmpty_false_of_locked hmutex hpr hmove hlocked hempty b q hq] at hqe
        exact absurd hqe (by decide)
  · -- a spurious wakeup: the woken thread is no sleeper, and it stays inside `wait`
    intro hsettled
    have hbefore : s.Settled := by
      rcases hsettled with - | hempty
      · exact Or.inl (List.ne_nil_of_mem hw)
      · exact Or.inr hempty
    have := hs hbefore
    have := List.length_erase_of_mem hw
    dsimp only at *
    omega
  · intro hsettled
    have hbefore : s.Settled := by
      rcases hsettled with hne | ⟨b, q, hq, hqe⟩
      · exact Or.inl hne
      · rcases getElem?_arrive hq with hq' | ⟨-, rfl⟩
        · exact Or.inr ⟨b, q, hq', hqe⟩
        · simp [Proc.foundEmpty] at hqe
    have := hs hbefore
    simp only [tally_append, tally_cons, tally_nil]
    omega

/-! ## Announced flags -/

/-- The workers that the call has flagged and not yet announced. -/
def Call.announces : Call → List ThreadId
  | .resizeFlag _ _ fs | .stopFlag _ _ fs | .stopClear fs => fs
  | .allLock (.shrink _ fs) | .allNotify (.shrink _ fs) => fs
  | .allLock (.stop fs) | .allNotify (.stop fs) => fs
  | _ => []

/-- The call has set `isDone` and not yet announced it. -/
def Call.announcesDone : Call → Bool
  | .allLock .done | .allNotify .done => true
  | _ => false

/-- What is announced by a call, or has been announced, keeps its workers out of `cv.wait`. -/
structure Signalled (s : State) : Prop where
  calls : ∀ (a : ThreadId) (pr : Proc), s.procs[a]? = some pr →
    pr.call.announces ⊆ s.pool.flagged ∧ (pr.call.announcesDone = true → s.pool.isDone = true)
  flags : ∀ w ∈ s.pool.signalled,
    w ∈ s.pool.flagged ∧ w ∉ s.pool.sleepers ∧ s.procs[w]? ≠ some (.worker .block)
  done : s.pool.doneSignalled = true → s.pool.isDone = true ∧ s.pool.sleepers = [] ∧
    ∀ a : ThreadId, s.procs[a]? ≠ some (.worker .predFlag) ∧ s.procs[a]? ≠ some (.worker .block)

section Local

variable {a fresh : ThreadId} {wake : Option ThreadId} {p p' : CThreadPool} {ch : Choice}
  {pr pr' : Proc} {new : List Worker}

theorem qPop_flags (p : CThreadPool) :
    p.qPop.1.flagged = p.flagged ∧ p.qPop.1.isDone = p.isDone ∧
      p.qPop.1.signalled = p.signalled ∧ p.qPop.1.doneSignalled = p.doneSignalled := by
  rcases p.qPop_cases with ⟨hq, hp⟩ | ⟨f, q, hq, hp⟩ <;> simp [hp]

/-- The lock in front of the notification changes nothing about it. -/
theorem announces_allNotify (nt : Notice) :
    (Call.allNotify nt).announces = (Call.allLock nt).announces ∧
      (Call.allNotify nt).announcesDone = (Call.allLock nt).announcesDone := by
  cases nt <;> exact ⟨rfl, rfl⟩

/-- Flags and `isDone` are never reset, and a call announces only what it has set. -/
theorem callStep_flags {c c' : Call} (h : callStep a wake fresh p c = some (p', c', new)) :
    (p.flagged ⊆ p'.flagged ∧ (p.isDone = true → p'.isDone = true)) ∧
      (c.announces ⊆ p.flagged → c'.announces ⊆ p'.flagged) ∧
      ((c.announcesDone = true → p.isDone = true) → c'.announcesDone = true →
        p'.isDone = true) := by
  by_cases hlock : ∃ nt, c = .allLock nt
  · obtain ⟨nt, rfl⟩ := hlock
    obtain ⟨hlist, hbool⟩ := announces_allNotify nt
    simp only [callStep] at h
    split at h
    · cases h
      rw [hlist, hbool]
      exact ⟨⟨fun _ hx => hx, id⟩, id, id⟩
    · cases h
  · obtain ⟨hflag, hdone, -, -⟩ := qPop_flags p
    revert h
    fun_cases callStep a wake fresh p c <;> intro h <;> cases h
    all_goals simp_all [Call.announces, Call.announcesDone, CThreadPool.qPush]

theorem callStep_signals {c c' : Call} (h : callStep a wake fresh p c = some (p', c', new)) :
    (p'.signalled = p.signalled ∧ p'.doneSignalled = p.doneSignalled) ∨
      (p'.signalled = c.announces ++ p.signalled ∧ p'.doneSignalled = p.doneSignalled ∧
        p'.sleepers = [] ∧ c.locked = true) ∨
      (p'.signalled = p.signalled ∧ p'.doneSignalled = true ∧ c.announcesDone = true ∧
        p'.sleepers = [] ∧ c.locked = true) := by
  obtain ⟨-, -, hsig, hdsig⟩ := qPop_flags p
  revert h
  fun_cases callStep a wake fresh p c <;> intro h <;> cases h
  all_goals simp_all [Call.announces, Call.announcesDone, Call.locked, CThreadPool.qPush]

theorem workerStep_flags {w w' : Worker} (h : workerStep a p w = some (p', w')) :
    p'.flagged = p.flagged ∧ p'.isDone = p.isDone ∧ p'.signalled = p.signalled ∧
      p'.doneSignalled = p.doneSignalled ∧ (w' = .block → a ∉ p.flagged) ∧
      (w' = .predFlag → p.isDone = false) ∧ (w' = .block → w = .predFlag) := by
  obtain ⟨hflag, hdone, hsig, hdsig⟩ := qPop_flags p
  revert h
  fun_cases workerStep a p w <;> intro h <;> cases h
  all_goals simp_all

/-- A step of a thread in terms of its call and of the flags. -/
theorem move_calls (h : Move a fresh p ch pr p' pr' new) :
    (p.flagged ⊆ p'.flagged ∧ (p.isDone = true → p'.isDone = true)) ∧
      (pr.call.announces ⊆ p.flagged → pr'.call.announces ⊆ p'.flagged) ∧
      ((pr.call.announcesDone = true → p.isDone = true) → pr'.call.announcesDone = true →
        p'.isDone = true) := by
  have hentry : ∀ r : Request, r.entry.announces = [] ∧ r.entry.announcesDone = false := by
    intro r
    cases r with
    | stop isWait => cases isWait <;> exact ⟨rfl, rfl⟩
    | _ => exact ⟨rfl, rfl⟩
  cases h with
  | clientCall r => simp [Proc.call, hentry r]
  | taskCall f r hr => simp [Proc.call, hentry r]
  | taskReturn f => simp [Proc.call, Call.announces, Call.announcesDone]
  | client hc => exact callStep_flags hc
  | task f hc => exact callStep_flags hc
  | @worker _ w w' _ hw =>
    obtain ⟨hflag, hdone, -⟩ := workerStep_flags hw
    have hidle : (Proc.worker w').call = .idle := by
      revert hw
      fun_cases workerStep a p w <;> intro hw <;> cases hw <;> rfl
    rw [hflag, hdone, hidle]
    exact ⟨⟨fun _ hx => hx, id⟩, fun _ => List.nil_subset _, nofun⟩

theorem move_signals (h : Move a fresh p ch pr p' pr' new) :
    (p'.signalled = p.signalled ∧ p'.doneSignalled = p.doneSignalled) ∨
      (p'.signalled = pr.call.announces ++ p.signalled ∧ p'.doneSignalled = p.doneSignalled ∧
        p'.sleepers = [] ∧ pr.locked = true ∧ pr'.foundEmpty = false) ∨
      (p'.signalled = p.signalled ∧ p'.doneSignalled = true ∧ pr.call.announcesDone = true ∧
        p'.sleepers = [] ∧ pr.locked = true ∧ pr'.foundEmpty = false) := by
  cases h with
  | clientCall | taskCall | taskReturn => exact Or.inl ⟨rfl, rfl⟩
  | client hc | task _ hc =>
    rcases callStep_signals hc with h | ⟨h₁, h₂, h₃, h₄⟩ | ⟨h₁, h₂, h₃, h₄, h₅⟩
    · exact Or.inl h
    · exact Or.inr (Or.inl ⟨h₁, h₂, h₃, h₄, rfl⟩)
    · exact Or.inr (Or.inr ⟨h₁, h₂, h₃, h₄, h₅, rfl⟩)
  | worker hw =>
    obtain ⟨-, -, hsig, hdsig, -⟩ := workerStep_flags hw
    exact Or.inl ⟨hsig, hdsig⟩

/-- A worker gets past its flag only when the flag is unset, and past `isDone` only when it is
unset. -/
theorem move_predicate (h : Move a fresh p ch pr p' pr' new) :
    (pr' = .worker .block → a ∉ p.flagged ∧ pr = .worker .predFlag) ∧
      (pr' = .worker .predFlag → p.isDone = false) := by
  cases h with
  | worker hw =>
    obtain ⟨-, -, -, -, hblock, hflag, hprev⟩ := workerStep_flags hw
    exact ⟨fun h => ⟨hblock (Proc.worker.inj h), by rw [hprev (Proc.worker.inj h)]⟩,
      fun h => hflag (Proc.worker.inj h)⟩
  | _ => exact ⟨nofun, nofun⟩

end Local

theorem signalled_calls_step {s s' : State} {l : Label} (hs : Signalled s)
    (h : step s l = some s') : ∀ (a : ThreadId) (pr : Proc), s'.procs[a]? = some pr →
      pr.call.announces ⊆ s'.pool.flagged ∧
        (pr.call.announcesDone = true → s'.pool.isDone = true) := by
  rcases step_cases h with ⟨a, ch, pr, p', pr', new, -, hpr, hmove, rfl⟩ | ⟨w, -, -, rfl⟩ |
    ⟨-, rfl⟩
  · obtain ⟨⟨hflag, hdone⟩, hann, hannDone⟩ := move_calls hmove
    intro b q hq
    rcases getElem?_move hpr hmove hq with ⟨-, rfl⟩ | ⟨-, hq'⟩ | ⟨-, rfl⟩
    · obtain ⟨h₁, h₂⟩ := hs.calls a pr hpr
      exact ⟨hann h₁, hannDone h₂⟩
    · obtain ⟨h₁, h₂⟩ := hs.calls b q hq'
      exact ⟨fun x hx => hflag (h₁ hx), fun hx => hdone (h₂ hx)⟩
    · exact ⟨List.nil_subset _, nofun⟩
  · exact hs.calls
  · intro b q hq
    rcases getElem?_arrive hq with hq' | ⟨-, rfl⟩
    · exact hs.calls b q hq'
    · exact ⟨List.nil_subset _, nofun⟩

/-- After a step that leaves the flags alone, an announced worker is still not going to sleep. -/
theorem signalled_flags_move {s : State} {a : ThreadId} {ch : Choice} {pr pr' : Proc}
    {p' : CThreadPool} {new : List Worker} (hs : Signalled s) (hpr : s.procs[a]? = some pr)
    (hmove : Move a s.procs.length s.pool ch pr p' pr' new) {w : ThreadId}
    (hw : w ∈ s.pool.signalled) :
    w ∈ p'.flagged ∧ w ∉ p'.sleepers ∧
      (s.procs.set a pr' ++ new.map Proc.worker)[w]? ≠ some (.worker .block) := by
  obtain ⟨hflagged, hasleep, hnblock⟩ := hs.flags w hw
  refine ⟨(move_calls hmove).1.1 hflagged, fun hmem => ?_, fun hq => ?_⟩
  · -- a thread falls asleep from `block` only, where no announced worker stands
    rcases move_sleepers hmove with ⟨hsub, -, -⟩ | ⟨heq, hblock, -⟩
    · exact hasleep (hsub hmem)
    · rw [heq, List.mem_cons] at hmem
      rcases hmem with rfl | hmem
      · exact hnblock (by rw [hpr, hblock])
      · exact hasleep hmem
  · rcases getElem?_move hpr hmove hq with ⟨rfl, heq⟩ | ⟨-, hq'⟩ | ⟨-, heq⟩
    · -- a worker comes to `block` only with its flag unset
      exact ((move_predicate hmove).1 heq.symm).1 hflagged
    · exact hnblock hq'
    · cases heq

/-- After a step that leaves `isDone` alone, no worker is going to sleep once it is announced. -/
theorem signalled_done_move {s : State} {a : ThreadId} {ch : Choice} {pr pr' : Proc}
    {p' : CThreadPool} {new : List Worker} (hs : Signalled s) (hpr : s.procs[a]? = some pr)
    (hmove : Move a s.procs.length s.pool ch pr p' pr' new)
    (hd : s.pool.doneSignalled = true) :
    p'.isDone = true ∧ p'.sleepers = [] ∧ ∀ b : ThreadId,
      (s.procs.set a pr' ++ new.map Proc.worker)[b]? ≠ some (.worker .predFlag) ∧
        (s.procs.set a pr' ++ new.map Proc.worker)[b]? ≠ some (.worker .block) := by
  obtain ⟨hdone, hsleep, hpred⟩ := hs.done hd
  refine ⟨(move_calls hmove).1.2 hdone, ?_, fun b => ⟨fun hq => ?_, fun hq => ?_⟩⟩
  · rcases move_sleepers hmove with ⟨hsub, -, -⟩ | ⟨-, hblock, -⟩
    · rw [hsleep] at hsub
      exact List.subset_nil.mp hsub
    · exact absurd (by rw [hpr, hblock]) (hpred a).2
  · rcases getElem?_move hpr hmove hq with ⟨rfl, heq⟩ | ⟨-, hq'⟩ | ⟨-, heq⟩
    · -- a worker comes to `predFlag` only with `isDone` unset
      have := (move_predicate hmove).2 heq.symm
      simp [hdone] at this
    · exact (hpred b).1 hq'
    · cases heq
  · rcases getElem?_move hpr hmove hq with ⟨rfl, heq⟩ | ⟨-, hq'⟩ | ⟨-, heq⟩
    · have hprev := ((move_predicate hmove).1 heq.symm).2
      exact (hpred b).1 (by rw [hpr, hprev])
    · exact (hpred b).2 hq'
    · cases heq

theorem signalled_step {s s' : State} {l : Label} (hmutex : MutexOwned s) (hs : Signalled s)
    (h : step s l = some s') : Signalled s' := by
  have hcalls := signalled_calls_step hs h
  rcases step_cases h with ⟨a, ch, pr, p', pr', new, -, hpr, hmove, rfl⟩ | ⟨w, -, -, rfl⟩ |
    ⟨-, rfl⟩
  · obtain ⟨hann, hannDone⟩ := hs.calls a pr hpr
    obtain ⟨⟨hflag, hdone⟩, -, -⟩ := move_calls hmove
    rcases move_signals hmove with ⟨hsig, hdsig⟩ | ⟨hsig, hdsig, hsl, hlocked, hempty⟩ |
      ⟨hsig, -, hset, hsl, hlocked, hempty⟩
    · refine ⟨hcalls, fun w hw => ?_, fun hd => ?_⟩
      · exact signalled_flags_move hs hpr hmove (hsig ▸ hw)
      · exact signalled_done_move hs hpr hmove (hdsig ▸ hd)
    · -- `notify_all` for flags
      have hnobody := foundEmpty_false_of_locked hmutex hpr hmove hlocked hempty
      refine ⟨hcalls, fun w hw => ⟨?_, by simp [hsl], fun hq => ?_⟩, fun hd => ?_⟩
      · rw [hsig, List.mem_append] at hw
        rcases hw with hw | hw
        · exact hflag (hann hw)
        · exact hflag (hs.flags w hw).1
      · exact absurd (hnobody w _ hq) (by decide)
      · exact signalled_done_move hs hpr hmove (hdsig ▸ hd)
    · -- `notify_all` for `isDone`
      have hnobody := foundEmpty_false_of_locked hmutex hpr hmove hlocked hempty
      refine ⟨hcalls, fun w hw => ?_, fun hd => ?_⟩
      · exact signalled_flags_move hs hpr hmove (hsig ▸ hw)
      · exact ⟨hdone (hannDone hset), hsl, fun b =>
          ⟨fun hq => absurd (hnobody b _ hq) (by decide),
            fun hq => absurd (hnobody b _ hq) (by decide)⟩⟩
  · refine ⟨hcalls, fun b hb => ?_, fun hd => ?_⟩
    · obtain ⟨h₁, h₂, h₃⟩ := hs.flags b hb
      exact ⟨h₁, fun hmem => h₂ (List.mem_of_mem_erase hmem), h₃⟩
    · obtain ⟨h₁, h₂, h₃⟩ := hs.done hd
      exact ⟨h₁, by simp [h₂], h₃⟩
  · have hold : ∀ {b : ThreadId} {w : Worker},
        (s.procs ++ [.client .idle])[b]? = some (.worker w) → s.procs[b]? = some (.worker w) := by
      intro b w hq
      rcases getElem?_arrive hq with hq' | ⟨-, heq⟩
      · exact hq'
      · cases heq
    refine ⟨hcalls, fun b hb => ?_, fun hd => ?_⟩
    · obtain ⟨h₁, h₂, h₃⟩ := hs.flags b hb
      exact ⟨h₁, h₂, fun hq => h₃ (hold hq)⟩
    · obtain ⟨h₁, h₂, h₃⟩ := hs.done hd
      exact ⟨h₁, h₂, fun b => ⟨fun hq => (h₃ b).1 (hold hq), fun hq => (h₃ b).2 (hold hq)⟩⟩

/-! ## No lost wakeup -/

/-- The invariants of the waiting protocol. -/
structure Waiting (s : State) : Prop where
  mutex : MutexOwned s
  sleepers : SleepersWait s
  balanced : Balanced s
  signalled : Signalled s

theorem waiting_init {s : State} (h : s.IsInit) : Waiting s := by
  subst h
  refine ⟨fun a => ?_, ⟨List.nodup_nil, nofun⟩, ?_, ⟨?_, nofun, nofun⟩⟩
  · simp [CThreadPool.init]
  · rintro (h | ⟨a, pr, hpr, -⟩)
    · exact absurd rfl h
    · simp at hpr
  · intro a pr hpr
    simp at hpr

theorem waiting_step {s s' : State} {l : Label} (hs : Waiting s) (h : step s l = some s') :
    Waiting s' :=
  ⟨mutexOwned_step hs.mutex h, sleepersWait_step hs.sleepers h,
    balanced_step hs.mutex hs.sleepers hs.balanced h, signalled_step hs.mutex hs.signalled h⟩

theorem waiting_of_reachable {s : State} {ok : State → Label → Prop}
    (h : Reachable step ok State.IsInit s) : Waiting s :=
  h.invariant (fun _ => waiting_init) fun _ _ _ hs _ hst => waiting_step hs hst

/-- The announcements only grow. -/
theorem signalled_mono {s s' : State} {l : Label} (h : step s l = some s') :
    s.pool.signalled ⊆ s'.pool.signalled ∧
      (s.pool.doneSignalled = true → s'.pool.doneSignalled = true) := by
  rcases step_cases h with ⟨a, ch, pr, p', pr', new, -, hpr, hmove, rfl⟩ | ⟨w, -, -, rfl⟩ |
    ⟨-, rfl⟩
  · rcases move_signals hmove with ⟨hsig, hdsig⟩ | ⟨hsig, hdsig, -⟩ | ⟨hsig, hdsig, -⟩
    · exact ⟨by rw [hsig]; exact fun _ hx => hx, fun hd => by rw [hdsig]; exact hd⟩
    · exact ⟨by rw [hsig]; exact List.subset_append_right _ _, fun hd => by rw [hdsig]; exact hd⟩
    · exact ⟨by rw [hsig]; exact fun _ hx => hx, fun _ => hdsig⟩
  · exact ⟨fun _ hx => hx, id⟩
  · exact ⟨fun _ hx => hx, id⟩

theorem signalled_mono_run {s s' : State} {ls : List Label} (h : Run step Always s ls s') :
    s.pool.signalled ⊆ s'.pool.signalled ∧
      (s.pool.doneSignalled = true → s'.pool.doneSignalled = true) :=
  h.related (r := fun s s' => s.pool.signalled ⊆ s'.pool.signalled ∧
      (s.pool.doneSignalled = true → s'.pool.doneSignalled = true))
    (fun _ => ⟨fun _ hx => hx, id⟩)
    fun _ _ _ _ hr _ hst =>
      have hm := signalled_mono hst
      ⟨fun _ hx => hm.1 (hr.1 hx), fun hd => hm.2 (hr.2 hd)⟩

/-- With nobody woken, the threads inside `wait` are the sleepers. -/
theorem inWait_le_sleepers {s : State} (h : ∀ a, ¬ s.Woken a) :
    tally (weigh Proc.inWait) s.procs ≤ s.pool.sleepers.length := by
  refine tally_le_length _ (fun pr => ?_) fun a pr hpr hpos => ?_
  · unfold weigh
    split <;> omega
  · by_contra hmem
    have hin : pr.inWait = true := by
      by_contra hne
      simp [weigh, hne] at hpos
    -- a thread inside `wait` that does not sleep is woken
    refine h a ?_
    unfold Proc.inWait at hin
    split at hin
    · exact Or.inl ⟨hpr, hmem⟩
    · exact Or.inr hpr
    · cases hin

/-- With no push between its enqueue and its `notify_one` and no woken worker about to look, the
queue is empty or nobody sleeps; a worker whose flag was announced, and every worker once `isDone`
was announced, is not asleep and never falls asleep again. -/
theorem no_lost_wakeup {s : State} (h : Reachable step Always State.IsInit s) :
    ((∀ a, ¬ s.Pushing a) → (∀ a, ¬ s.Woken a) → s.pool.queue = [] ∨ s.pool.sleepers = []) ∧
      (∀ w ∈ s.pool.signalled, ∀ ls s', Run step Always s ls s' → w ∉ s'.pool.sleepers) ∧
      (s.pool.doneSignalled = true → ∀ ls s', Run step Always s ls s' →
        s'.pool.sleepers = []) := by
  have hs := waiting_of_reachable h
  refine ⟨fun hpush hwoken => ?_, fun w hw ls s' hrun => ?_, fun hd ls s' hrun => ?_⟩
  · by_contra hcon
    -- a sleeper settles the state, and nothing is left that the queue could be balanced by
    obtain ⟨hq, hsl⟩ := not_or.mp hcon
    have hbal := hs.balanced (Or.inl hsl)
    have hnone : tally (weigh Proc.pending) s.procs = 0 := by
      refine (tally_eq_zero_iff _ _).mpr fun pr hpr => ?_
      obtain ⟨a, ha⟩ := List.mem_iff_getElem?.mp hpr
      have hpend : ¬ pr.pending = true := fun hp => hpush a ⟨pr, ha, hp⟩
      simp [weigh, hpend]
    have hwait := inWait_le_sleepers hwoken
    have := List.length_pos_iff.mpr hq
    omega
  · have hs' := waiting_of_reachable (h.trans hrun)
    exact (hs'.signalled.flags w ((signalled_mono_run hrun).1 hw)).2.1
  · have hs' := waiting_of_reachable (h.trans hrun)
    exact (hs'.signalled.done ((signalled_mono_run hrun).2 hd)).2.1

/-- Two workers fall asleep, the pool is shrunk to one of them, and that one falls asleep again. -/
def shrinkRun : List Label :=
  [.arrive, .sched 0 (.call (.resize 2))] ++ turns 0 5 ++ turns 1 7 ++ turns 2 7 ++
    [.sched 0 (.call (.resize 1))] ++ turns 0 8 ++ turns 1 5

/-- The state after `shrinkRun`. -/
def shrinkState : State where
  pool :=
    { CThreadPool.init with
      sleepers := [1], flagged := [2], threads := [1], unjoinable := [2], nWaiting := 2
      signalled := [2] }
  procs := [.client .idle, .worker .waiting, .worker .waiting]

theorem no_lost_wakeup_shrinkRun :
    ((∀ a, ¬ shrinkState.Pushing a) → (∀ a, ¬ shrinkState.Woken a) →
        shrinkState.pool.queue = [] ∨ shrinkState.pool.sleepers = []) ∧
      (∀ w ∈ shrinkState.pool.signalled, ∀ ls s', Run step Always shrinkState ls s' →
        w ∉ s'.pool.sleepers) ∧
      (shrinkState.pool.doneSignalled = true → ∀ ls s', Run step Always shrinkState ls s' →
        s'.pool.sleepers = []) :=
  no_lost_wakeup (reachable_of_exec rfl shrinkRun (by decide))

end PetProject.ThreadPool
