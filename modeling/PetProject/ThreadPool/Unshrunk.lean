import PetProject.ThreadPool.Outliving
import PetProject.ThreadPool.Shutdown

/-!
# Pools that were never shrunk

The runs considered here (`growRun`) are those in which `resize` only grows the pool and, as the
header demands, overlaps neither another `resize` nor `stop`. Tasks and outside threads push, pop,
clear the queue and call both kinds of `stop` at any time.

Then every worker is listed in `threads` until it has left its loop (`Unshrunk.listed`), and when
`stop(false)` has gone through its loop over `flags` every listed worker is flagged
(`Call.Assures`).
-/

set_option autoImplicit false

namespace PetProject.ThreadPool

open PetProject.Foundation.Tally PetProject.Foundation.Transition

/-! ## The runs -/

/-- Positions inside `stop`. -/
def Call.isStop : Call → Bool
  | .stopIsStop | .stopSetStop | .stopFlag _ _ _ | .stopClear _ => true
  | .waitIsDone | .waitIsStop | .waitSetDone => true
  | .allLock nt | .allNotify nt | .allUnlock nt => !nt.isShrink
  | .join _ _ | .joinClear _ | .joinErase _ => true
  | _ => false

/-- Positions inside `push`, `pop` and `clear_queue`. -/
def Call.isQueue : Call → Bool
  | .idle | .pushQueue | .pushLock | .pushNotify | .pushUnlock => true
  | .popQueue | .popReturn _ | .clearQueue => true
  | _ => false

/-- The calls of the considered runs. -/
def growRun (s : State) : Label → Bool
  | .sched _ (.call (.resize n)) =>
      decide (s.pool.threads.length ≤ n) &&
        s.procs.all fun pr => !pr.call.isResize && !pr.call.isStop
  | .sched _ (.call (.stop _)) => s.procs.all fun pr => !pr.call.isResize
  | _ => true

/-- What a position of `resize` or `stop` says about the pool. -/
def Call.Assures (p : CThreadPool) : Call → Prop
  | .resizeIsStop n | .resizeIsDone n => p.threads.length ≤ n
  | .resizeFlag _ _ _ | .resizeErase _ => False
  | .allLock nt | .allNotify nt | .allUnlock nt => nt.isShrink = false
  | .stopFlag i n _ => p.isStop = true ∧ p.threads.length ≤ n ∧ p.threads.take i ⊆ p.flagged
  | .stopClear _ => p.isStop = true ∧ p.threads ⊆ p.flagged
  | .join _ i => p.threads.take i ⊆ p.finished
  | .joinClear _ | .joinErase _ => p.threads ⊆ p.finished
  | _ => True

/-- The invariant of the considered runs. -/
structure Unshrunk (s : State) : Prop where
  listed : ∀ (b : ThreadId) (w : Worker), s.procs[b]? = some (.worker w) →
    b ∈ s.pool.threads ∨ w = .exited
  exited : ∀ b ∈ s.pool.finished, s.procs[b]? = some (.worker .exited)
  joined : s.pool.unjoinable ⊆ s.pool.finished
  tasks : ∀ (b : ThreadId) (f : TaskId) (c : Call),
    s.procs[b]? = some (.worker (.running f c)) → c.isQueue = true
  /-- During `resize` nobody else is in `resize` or `stop`. -/
  alone : ∀ (b d : ThreadId) (c c' : Call), s.procs[b]? = some (.client c) →
    s.procs[d]? = some (.client c') → d ≠ b → c.isResize = true →
    c'.isResize = false ∧ c'.isStop = false
  assured : ∀ (b : ThreadId) (c : Call), s.procs[b]? = some (.client c) → c.Assures s.pool

/-! ## Steps of the calls -/

section Local

variable {a fresh : ThreadId} {wake : Option ThreadId} {p p' : CThreadPool} {c c' : Call}
  {new : List Worker}

theorem assures_of_other (hresize : c.isResize = false) (hstop : c.isStop = false) :
    c.Assures p := by
  cases c with
  | resizeIsStop | resizeIsDone | resizeFlag | resizeErase => cases hresize
  | stopFlag | stopClear | join | joinClear | joinErase => cases hstop
  | allLock nt | allNotify nt | allUnlock nt => exact hresize
  | _ => trivial

theorem isQueue_other (hc : c.isQueue = true) : c.isResize = false ∧ c.isStop = false := by
  cases c with
  | idle | pushQueue | pushLock | pushNotify | pushUnlock => exact ⟨rfl, rfl⟩
  | popQueue | popReturn f | clearQueue => exact ⟨rfl, rfl⟩
  | _ => cases hc

theorem queue_step (hc : c.isQueue = true)
    (h : callStep a wake fresh p c = some (p', c', new)) :
    new = [] ∧ c'.isQueue = true ∧ p'.flagged = p.flagged ∧ p'.isStop = p.isStop ∧
      p'.threads = p.threads ∧ p'.unjoinable = p.unjoinable ∧ p'.finished = p.finished := by
  obtain ⟨hctl, hfin⟩ := qPop_control p
  simp only [CThreadPool.control, Prod.mk.injEq] at hctl
  revert h
  fun_cases callStep a wake fresh p c <;> intro h <;> cases h
  all_goals simp_all [Call.isQueue, CThreadPool.qPush]

/-- A step of a call stays in its class or returns. -/
theorem callStep_class (h : callStep a wake fresh p c = some (p', c', new)) :
    (c'.isResize = true → c.isResize = true) ∧ (c'.isStop = true → c.isStop = true) := by
  revert h
  fun_cases callStep a wake fresh p c <;> intro h <;> cases h
  all_goals simp_all [Call.isResize, Call.isStop, Notice.isShrink]

/-- `isStop` and the flags are only ever set. -/
theorem callStep_grows (h : callStep a wake fresh p c = some (p', c', new)) :
    (p.isStop = true → p'.isStop = true) ∧ p.flagged ⊆ p'.flagged := by
  obtain ⟨hctl, -⟩ := qPop_control p
  simp only [CThreadPool.control, Prod.mk.injEq] at hctl
  revert h
  fun_cases callStep a wake fresh p c <;> intro h <;> cases h
  all_goals simp_all [CThreadPool.qPush]

/-- A call that does not shrink detaches nobody and joins finished workers. -/
theorem callStep_joined (hc : c.Assures p) (h : callStep a wake fresh p c = some (p', c', new))
    (hjoined : p.unjoinable ⊆ p.finished) : p'.unjoinable ⊆ p'.finished := by
  by_cases hjoin : ∃ isWait i, c = .join isWait i
  · obtain ⟨isWait, i, rfl⟩ := hjoin
    rcases join_step h with ⟨w, -, -, ⟨-, rfl⟩ | ⟨hw, rfl⟩⟩ | ⟨-, -, rfl⟩
    · exact hjoined
    · exact List.cons_subset.mpr ⟨hw, hjoined⟩
    · exact hjoined
  · obtain ⟨hctl, hfin⟩ := qPop_control p
    simp only [CThreadPool.control, Prod.mk.injEq] at hctl
    revert h
    fun_cases callStep a wake fresh p c <;> intro h <;> cases h
    all_goals simp_all [Call.Assures, CThreadPool.qPush]

/-- One round of the loop of `stop(false)` that flags the workers. -/
theorem stopFlag_step {i n : Nat} {fs : List ThreadId}
    (h : callStep a wake fresh p (.stopFlag i n fs) = some (p', c', new)) :
    (i < n ∧ ∃ w, p.threads[i]? = some w ∧ c' = .stopFlag (i + 1) n (w :: fs) ∧
        p' = { p with flagged := w :: p.flagged }) ∨
      (n ≤ i ∧ c' = .stopClear fs ∧ p' = p) := by
  simp only [callStep] at h
  split at h
  · rename_i hi
    split at h
    · rename_i w hw
      cases h
      exact Or.inl ⟨hi, w, hw, rfl, rfl⟩
    · cases h
  · rename_i hi
    cases h
    exact Or.inr ⟨Nat.le_of_not_lt hi, rfl, rfl⟩

/-- A call goes on with what its position says. -/
theorem callStep_assures (hc : c.Assures p) (hjoined : p.unjoinable ⊆ p.finished)
    (h : callStep a wake fresh p c = some (p', c', new)) : c'.Assures p' := by
  by_cases hflag : ∃ i n fs, c = .stopFlag i n fs
  · obtain ⟨i, n, fs, rfl⟩ := hflag
    obtain ⟨hstop, hlen, hflags⟩ := hc
    rcases stopFlag_step h with ⟨-, w, hw, rfl, rfl⟩ | ⟨hn, rfl, rfl⟩
    · refine ⟨hstop, hlen, take_succ_subset hw List.mem_cons_self ?_⟩
      exact List.Subset.trans hflags (List.subset_cons_self _ _)
    · rw [List.take_of_length_le (Nat.le_trans hlen hn)] at hflags
      exact ⟨hstop, hflags⟩
  by_cases hjoin : ∃ isWait i, c = .join isWait i
  · obtain ⟨isWait, i, rfl⟩ := hjoin
    rcases join_step h with ⟨w, hi, rfl, ⟨hw, rfl⟩ | ⟨hw, rfl⟩⟩ | ⟨hend, rfl, rfl⟩
    · exact take_succ_subset hi (hjoined hw) hc
    · exact take_succ_subset hi hw hc
    · rw [Call.Assures, List.take_of_length_le hend] at hc
      exact hc
  -- the other calls do not change what their positions say
  obtain ⟨hctl, hfin⟩ := qPop_control p
  simp only [CThreadPool.control, Prod.mk.injEq] at hctl
  revert h
  fun_cases callStep a wake fresh p c <;> intro h <;> cases h
  all_goals simp_all [Call.Assures, Notice.isShrink]
  omega

/-- What a position says survives more flags, more finished workers and the end of `stop`, which
clears the vector. -/
theorem Call.Assures.mono (hc : c.Assures p)
    (hthreads : p'.threads = p.threads ∨ p'.threads = [])
    (hstop : p.isStop = true → p'.isStop = true) (hflagged : p.flagged ⊆ p'.flagged)
    (hfinished : p.finished ⊆ p'.finished) : c.Assures p' := by
  have hlen : p'.threads.length ≤ p.threads.length := by
    rcases hthreads with heq | heq <;> simp [heq]
  have htake : ∀ i, p'.threads.take i ⊆ p.threads.take i := by
    intro i
    rcases hthreads with heq | heq <;> simp [heq]
  have hsub : p'.threads ⊆ p.threads := by
    rcases hthreads with heq | heq <;> simp [heq]
  cases c with
  | resizeIsStop n | resizeIsDone n => exact Nat.le_trans hlen hc
  | resizeFlag | resizeErase => exact hc
  | allLock nt | allNotify nt | allUnlock nt => exact hc
  | stopFlag i n fs =>
    obtain ⟨h₁, h₂, h₃⟩ := hc
    exact ⟨hstop h₁, Nat.le_trans hlen h₂, fun _ hx => hflagged (h₃ (htake i hx))⟩
  | stopClear fs => exact ⟨hstop hc.1, fun _ hx => hflagged (hc.2 (hsub hx))⟩
  | join isWait i => exact fun _ hx => hfinished (hc (htake i hx))
  | joinClear | joinErase => exact fun _ hx => hfinished (hc (hsub hx))
  | _ => trivial

end Local

/-! ## The invariant is kept -/

section Moves

variable {s : State} {a : ThreadId} {ch : Choice} {pr pr' : Proc} {p' : CThreadPool}
  {new : List Worker}

/-- What a move of the considered runs does to the pool and to the moving thread. -/
structure Grows (s : State) (a : ThreadId) (pr : Proc) (p' : CThreadPool) (pr' : Proc)
    (new : List Worker) : Prop where
  isStop : s.pool.isStop = true → p'.isStop = true
  flagged : s.pool.flagged ⊆ p'.flagged
  joined : p'.unjoinable ⊆ p'.finished
  finished : p'.finished = s.pool.finished ∨
    (p'.finished = a :: s.pool.finished ∧ pr' = .worker .exited)
  /-- The vector stays, grows by a new worker, or is cleared when everybody has finished. -/
  threads : (p'.threads = s.pool.threads ∧ new = []) ∨
    (p'.threads = s.pool.threads ++ [s.procs.length] ∧
      ∃ c, pr = .client c ∧ c.isResize = true) ∨
    (p'.threads = [] ∧ new = [] ∧ s.pool.threads ⊆ s.pool.finished)
  /-- A call begins when the other threads permit it, and goes on in its class. -/
  kind : ∀ c', pr' = .client c' → ∃ c, pr = .client c ∧ c'.Assures p' ∧
    (c'.isResize = true → c.isResize = true ∨ ∀ q ∈ s.procs, q.call.isResize = false ∧
      q.call.isStop = false) ∧
    (c'.isStop = true → c.isStop = true ∨ ∀ q ∈ s.procs, q.call.isResize = false)
  worker : ∀ w', pr' = .worker w' → ∃ w, pr = .worker w ∧ w ≠ .exited
  tasks : ∀ f c, pr' = .worker (.running f c) → c.isQueue = true

theorem grows_of_request (hs : Unshrunk s) {r : Request}
    (hok : growRun s (.sched a (.call r)) = true) :
    Grows s a (.client .idle) s.pool (.client r.entry) [] := by
  refine ⟨id, fun _ hx => hx, hs.joined, Or.inl rfl, Or.inl ⟨rfl, rfl⟩, ?_, nofun, nofun⟩
  rintro c' heq
  cases heq
  refine ⟨.idle, rfl, ?_⟩
  cases r with
  | push | pop | clearQueue => exact ⟨trivial, nofun, nofun⟩
  | resize n =>
    simp only [growRun, Bool.and_eq_true, decide_eq_true_eq, List.all_eq_true,
      Bool.not_eq_true'] at hok
    exact ⟨hok.1, fun _ => Or.inr hok.2, nofun⟩
  | stop isWait =>
    simp only [growRun, List.all_eq_true, Bool.not_eq_true'] at hok
    cases isWait with
    | false => exact ⟨trivial, nofun, fun _ => Or.inr hok⟩
    | true => exact ⟨trivial, nofun, fun _ => Or.inr hok⟩

theorem grows_of_call (hs : Unshrunk s) {wake : Option ThreadId} {c c' : Call}
    (hpr : s.procs[a]? = some (.client c))
    (h : callStep a wake s.procs.length s.pool c = some (p', c', new)) :
    Grows s a (.client c) p' (.client c') new := by
  have hc := hs.assured a c hpr
  obtain ⟨hstop, hflagged⟩ := callStep_grows h
  obtain ⟨hresize, hisStop⟩ := callStep_class h
  obtain ⟨hfin, -⟩ := callStep_unjoinable h
  refine ⟨hstop, hflagged, callStep_joined hc h hs.joined, Or.inl hfin, ?_, ?_, nofun, nofun⟩
  · rcases callStep_threads h with ⟨hthreads, hnew⟩ | ⟨rfl, -, -, n, rfl⟩ | ⟨n, rfl, -⟩ |
      ⟨isWait, rfl, rfl, hnew⟩
    · exact Or.inl ⟨hthreads, hnew⟩
    · exact Or.inr (Or.inl ⟨rfl, _, rfl, rfl⟩)
    · exact False.elim hc
    · exact Or.inr (Or.inr ⟨rfl, hnew, hc⟩)
  · rintro d heq
    cases heq
    exact ⟨c, rfl, callStep_assures hc hs.joined h, fun hd => Or.inl (hresize hd),
      fun hd => Or.inl (hisStop hd)⟩

theorem grows_of_move (hs : Unshrunk s) (hok : growRun s (.sched a ch) = true)
    (hpr : s.procs[a]? = some pr) (hmove : Move a s.procs.length s.pool ch pr p' pr' new) :
    Grows s a pr p' pr' new := by
  cases hmove with
  | clientCall r => exact grows_of_request hs hok
  | client hc => exact grows_of_call hs hpr hc
  | taskCall f r hr =>
    refine ⟨id, fun _ hx => hx, hs.joined, Or.inl rfl, Or.inl ⟨rfl, rfl⟩, nofun, ?_, ?_⟩
    · exact fun _ _ => ⟨_, rfl, nofun⟩
    · rintro f' c heq
      cases heq
      cases r with
      | push | pop | clearQueue => rfl
      | resize | stop => cases hr
  | taskReturn f =>
    refine ⟨id, fun _ hx => hx, hs.joined, Or.inl rfl, Or.inl ⟨rfl, rfl⟩, nofun, ?_, nofun⟩
    exact fun _ _ => ⟨_, rfl, nofun⟩
  | task f hc =>
    obtain ⟨hnew, hq, hflagged, hstop, hthreads, hunj, hfin⟩ := queue_step (hs.tasks a f _ hpr) hc
    refine ⟨?_, ?_, ?_, Or.inl hfin, Or.inl ⟨hthreads, hnew⟩, nofun, ?_, ?_⟩
    · exact fun h => hstop.trans h
    · rw [hflagged]
      exact fun _ hx => hx
    · rw [hunj, hfin]
      exact hs.joined
    · exact fun _ _ => ⟨_, rfl, nofun⟩
    · rintro f' c heq
      cases heq
      exact hq
  | @worker wake w w' p' hw =>
    obtain ⟨hctl, hfin⟩ := worker_control hw
    obtain ⟨hflagged, hstop, -, hthreads, hunj, -, -⟩ := control_eq hctl
    refine ⟨?_, ?_, ?_, ?_, Or.inl ⟨hthreads, rfl⟩, nofun, ?_, ?_⟩
    · exact fun h => hstop.trans h
    · rw [hflagged]
      exact fun _ hx => hx
    · rw [hunj]
      rcases hfin with heq | ⟨heq, -⟩ <;> rw [heq]
      · exact hs.joined
      · exact List.Subset.trans hs.joined (List.subset_cons_self _ _)
    · rcases hfin with heq | ⟨heq, rfl⟩
      · exact Or.inl heq
      · exact Or.inr ⟨heq, rfl⟩
    · refine fun _ _ => ⟨w, rfl, ?_⟩
      rintro rfl
      cases hw
    · rintro f c heq
      cases heq
      rw [workerStep_running hw]
      rfl

theorem unshrunk_listed (hs : Unshrunk s) (hpr : s.procs[a]? = some pr)
    (hmove : Move a s.procs.length s.pool ch pr p' pr' new) (hg : Grows s a pr p' pr' new)
    (b : ThreadId) (w : Worker)
    (hb : (s.procs.set a pr' ++ new.map Proc.worker)[b]? = some (.worker w)) :
    b ∈ p'.threads ∨ w = .exited := by
  -- a worker that was there stays where it is listed, or has left its loop
  have hold : ∀ w₀, s.procs[b]? = some (.worker w₀) → b ∈ p'.threads ∨ w₀ = .exited := by
    intro w₀ hw₀
    rcases hs.listed b w₀ hw₀ with hmem | hexit
    · rcases hg.threads with ⟨heq, -⟩ | ⟨heq, -⟩ | ⟨-, -, hall⟩
      · rw [heq]
        exact Or.inl hmem
      · rw [heq]
        exact Or.inl (List.mem_append_left _ hmem)
      · have hex := hs.exited b (hall hmem)
        rw [hw₀] at hex
        cases hex
        exact Or.inr rfl
    · exact Or.inr hexit
  rcases getElem?_move hpr hmove hb with ⟨rfl, heq⟩ | ⟨-, hw⟩ | ⟨rfl, heq⟩
  · obtain ⟨w₀, rfl, hne⟩ := hg.worker w heq.symm
    rcases hold w₀ hpr with hmem | hexit
    · exact Or.inl hmem
    · exact absurd hexit hne
  · exact hold w hw
  · -- a new worker is the last one of the vector
    rcases hg.threads with ⟨-, rfl⟩ | ⟨heq', -⟩ | ⟨-, rfl, -⟩
    · simp at hb
    · rw [heq']
      exact Or.inl (List.mem_append_right _ List.mem_cons_self)
    · simp at hb

theorem unshrunk_exited (hs : Unshrunk s) (hpr : s.procs[a]? = some pr)
    (hg : Grows s a pr p' pr' new) (b : ThreadId) (hb : b ∈ p'.finished) :
    (s.procs.set a pr' ++ new.map Proc.worker)[b]? = some (.worker .exited) := by
  have hold : b ∈ s.pool.finished → b ≠ a := by
    rintro hmem rfl
    -- the moving thread has not left its loop
    have hex := hs.exited b hmem
    rw [hpr] at hex
    cases hex
    cases pr' with
    | worker w' =>
      obtain ⟨w, heq, hne⟩ := hg.worker w' rfl
      cases heq
      exact hne rfl
    | client c =>
      obtain ⟨c₀, heq, -⟩ := hg.kind c rfl
      cases heq
  rcases hg.finished with heq | ⟨heq, rfl⟩
  · rw [heq] at hb
    exact getElem?_move_ne (hold hb) (hs.exited b hb) _ _
  · rw [heq] at hb
    rcases List.mem_cons.mp hb with rfl | hb
    · exact getElem?_move_self hpr _ _
    · exact getElem?_move_ne (hold hb) (hs.exited b hb) _ _

theorem unshrunk_alone (hs : Unshrunk s) (hpr : s.procs[a]? = some pr)
    (hmove : Move a s.procs.length s.pool ch pr p' pr' new) (hg : Grows s a pr p' pr' new)
    (b d : ThreadId) (c c' : Call)
    (hb : (s.procs.set a pr' ++ new.map Proc.worker)[b]? = some (.client c))
    (hd : (s.procs.set a pr' ++ new.map Proc.worker)[d]? = some (.client c')) (hne : d ≠ b)
    (hc : c.isResize = true) : c'.isResize = false ∧ c'.isStop = false := by
  rcases client_move hpr hmove hb with ⟨rfl, rfl⟩ | ⟨hba, hb₀⟩
  · -- the moving thread is in `resize`
    obtain ⟨c₀, rfl, -, hresize, -⟩ := hg.kind c rfl
    rcases client_move hpr hmove hd with ⟨hda, -⟩ | ⟨-, hd₀⟩
    · exact absurd hda hne
    · rcases hresize hc with hc₀ | hnone
      · exact hs.alone b d c₀ c' hpr hd₀ hne hc₀
      · exact hnone _ (List.mem_of_getElem? hd₀)
  · rcases client_move hpr hmove hd with ⟨rfl, rfl⟩ | ⟨-, hd₀⟩
    · -- the moving thread starts neither call while `b` is in `resize`
      obtain ⟨c₀, rfl, -, hresize, hstop⟩ := hg.kind c' rfl
      obtain ⟨h₁, h₂⟩ := hs.alone b d c c₀ hb₀ hpr hne hc
      have hbusy : ¬ ∀ q ∈ s.procs, q.call.isResize = false := by
        intro hall
        have hfalse := hall _ (List.mem_of_getElem? hb₀)
        rw [Proc.call, hc] at hfalse
        cases hfalse
      constructor
      · cases hres : c'.isResize with
        | false => rfl
        | true =>
          rcases hresize hres with htrue | hall
          · rw [h₁] at htrue
            cases htrue
          · exact absurd (fun q hq => (hall q hq).1) hbusy
      · cases hst : c'.isStop with
        | false => rfl
        | true =>
          rcases hstop hst with htrue | hall
          · rw [h₂] at htrue
            cases htrue
          · exact absurd hall hbusy
    · exact hs.alone b d c c' hb₀ hd₀ hne hc

theorem unshrunk_assured (hs : Unshrunk s) (hpr : s.procs[a]? = some pr)
    (hmove : Move a s.procs.length s.pool ch pr p' pr' new) (hg : Grows s a pr p' pr' new)
    (b : ThreadId) (c : Call)
    (hb : (s.procs.set a pr' ++ new.map Proc.worker)[b]? = some (.client c)) :
    c.Assures p' := by
  rcases client_move hpr hmove hb with ⟨-, heq⟩ | ⟨hne, hb₀⟩
  · obtain ⟨-, -, hassured, -⟩ := hg.kind c heq
    exact hassured
  · have hfin : s.pool.finished ⊆ p'.finished := by
      rcases hg.finished with heq | ⟨heq, -⟩ <;> rw [heq]
      · exact fun _ hx => hx
      · exact List.subset_cons_self _ _
    rcases hg.threads with ⟨heq, -⟩ | ⟨-, c₀, rfl, hc₀⟩ | ⟨heq, -, -⟩
    · exact (hs.assured b c hb₀).mono (Or.inl heq) hg.isStop hg.flagged hfin
    · -- while a `resize` grows the vector nobody else is in `resize` or `stop`
      obtain ⟨h₁, h₂⟩ := hs.alone a b c₀ c hpr hb₀ hne hc₀
      exact assures_of_other h₁ h₂
    · exact (hs.assured b c hb₀).mono (Or.inr heq) hg.isStop hg.flagged hfin

theorem unshrunk_move (hs : Unshrunk s) (hpr : s.procs[a]? = some pr)
    (hmove : Move a s.procs.length s.pool ch pr p' pr' new) (hg : Grows s a pr p' pr' new) :
    Unshrunk ⟨p', s.procs.set a pr' ++ new.map Proc.worker⟩ := by
  refine ⟨unshrunk_listed hs hpr hmove hg, unshrunk_exited hs hpr hg, hg.joined, ?_,
    unshrunk_alone hs hpr hmove hg, unshrunk_assured hs hpr hmove hg⟩
  intro b f c hb
  rcases getElem?_move hpr hmove hb with ⟨-, heq⟩ | ⟨-, hold⟩ | ⟨-, heq⟩
  · exact hg.tasks f c heq.symm
  · exact hs.tasks b f c hold
  · cases heq

end Moves

theorem unshrunk_init {s : State} (h : s.IsInit) : Unshrunk s := by
  subst h
  constructor <;> simp [CThreadPool.init]

theorem unshrunk_arrive {s : State} (hs : Unshrunk s) :
    Unshrunk { s with procs := s.procs ++ [.client .idle] } := by
  refine ⟨fun b w hb => hs.listed b w (arrive_worker hb),
    fun b hb => getElem?_arrive_of (hs.exited b hb) _, hs.joined,
    fun b f c hb => hs.tasks b f c (arrive_worker hb), ?_, ?_⟩
  · intro b d c c' hb hd hne hc
    rcases arrive_client hb with hb₀ | rfl
    · rcases arrive_client hd with hd₀ | rfl
      · exact hs.alone b d c c' hb₀ hd₀ hne hc
      · exact ⟨rfl, rfl⟩
    · cases hc
  · intro b c hb
    rcases arrive_client hb with hb₀ | rfl
    · exact hs.assured b c hb₀
    · trivial

theorem unshrunk_step {s s' : State} {l : Label} (hs : Unshrunk s) (hok : growRun s l = true)
    (h : step s l = some s') : Unshrunk s' := by
  rcases step_cases h with ⟨a, ch, pr, p', pr', new, rfl, hpr, hmove, rfl⟩ | ⟨w, -, -, rfl⟩ |
    ⟨-, rfl⟩
  · exact unshrunk_move hs hpr hmove (grows_of_move hs hok hpr hmove)
  · refine ⟨hs.listed, hs.exited, hs.joined, hs.tasks, hs.alone, fun b c hb => ?_⟩
    exact (hs.assured b c hb).mono (Or.inl rfl) id (fun _ hx => hx) (fun _ hx => hx)
  · exact unshrunk_arrive hs

theorem unshrunk_of_reachable {s : State}
    (h : Reachable step (fun s l => growRun s l = true) State.IsInit s) : Unshrunk s :=
  h.invariant (fun _ => unshrunk_init) fun _ _ _ hs hok hst => unshrunk_step hs hok hst

end PetProject.ThreadPool
