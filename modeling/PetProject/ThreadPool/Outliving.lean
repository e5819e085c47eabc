import PetProject.ThreadPool.Draining

/-!
# Workers after the destructor

The runs considered here (`poolRun`) end with the destructor: outside threads push and resize, also
to fewer threads, and then `stop(true)` is called once, after the other calls have returned. A call
of `resize` does not overlap with another `resize` or with `stop`, as the header demands.

`stop(true)` joins the workers that are listed in `threads`. A worker that a shrinking `resize` has
detached is flagged and not listed any more, so nobody waits for it. `none_outlives_iff` says where
the detached workers must be when the destructor returns.
-/

set_option autoImplicit false

namespace PetProject.ThreadPool

open PetProject.Foundation.Tally PetProject.Foundation.Transition

/-! ## The runs -/

def Notice.isShrink : Notice → Bool
  | .shrink _ _ => true
  | _ => false

/-- Positions inside `resize`. -/
def Call.isResize : Call → Bool
  | .resizeIsStop _ | .resizeIsDone _ | .resizeGrow _ | .resizeFlag _ _ _ | .resizeErase _ => true
  | .allLock nt | .allNotify nt | .allUnlock nt => nt.isShrink
  | _ => false

/-- Positions of the calls that belong to the pool's owner. -/
def Call.isOwner (c : Call) : Bool := c.isResize || c.isWait

/-- The calls of the considered runs. -/
def poolRun (s : State) : Label → Bool
  | .sched a (.call r) =>
      match s.procs[a]?, r with
      | some (.worker _), r => r == .push
      | some (.client _), .push => !s.pool.isDone && s.procs.all fun pr => !pr.call.isWait
      | some (.client _), .resize _ => !s.pool.isDone && s.procs.all Proc.isUser
      | some (.client _), .stop true => !s.pool.isDone && s.procs.all Proc.isFree
      | _, _ => false
  | _ => true

/-! ## What must not happen -/

/-- The next step of the worker accesses a member of the pool. -/
def Worker.touchesPool : Worker → Bool
  | .start | .popNext _ | .lock | .enterWait | .predPop _ | .predDone | .block | .waiting
  | .leaveWait _ | .unlock _ => true
  | .scope _ | .running _ _ | .testFlag _ | .endScope _ _ | .leaveScope _ | .predFlag
  | .exited => false

def Worker.isRunning : Worker → Bool
  | .running _ _ => true
  | _ => false

/-- No worker runs a task, and none takes a step that touches the pool. -/
def State.LeavesPool (s : State) : Prop :=
  ∀ (b : ThreadId) (w : Worker), s.procs[b]? = some (.worker w) → w.isRunning = false ∧
    (w.touchesPool = true → ∀ wake, step s (.sched b (.run wake)) = none)

/-- Of a flagged worker: its task has returned, or it has left its loop. -/
def Worker.clear : Worker → Bool
  | .testFlag _ | .leaveScope _ | .exited => true
  | _ => false

/-! ## Where the workers are accounted for -/

/-- The worker is listed, flagged or finished. -/
def CThreadPool.Tracks (p : CThreadPool) (b : ThreadId) : Prop :=
  b ∈ p.threads ∨ b ∈ p.flagged ∨ b ∈ p.finished

def Notice.Covers (p : CThreadPool) : Notice → Prop
  | .shrink n _ => p.threads.drop n ⊆ p.flagged
  | _ => True

/-- What a position says about the pool: how far the workers are flagged, or joined. -/
def Call.Covers (p : CThreadPool) : Call → Prop
  | .resizeFlag _ i _ => p.threads.drop i ⊆ p.flagged
  | .allLock nt | .allNotify nt | .allUnlock nt => nt.Covers p
  | .resizeErase n => p.threads.drop n ⊆ p.flagged
  | .join _ i => p.threads.take i ⊆ p.unjoinable
  | .joinClear _ | .joinErase _ => p.threads ⊆ p.unjoinable
  | _ => True

section Local

variable {a fresh : ThreadId} {wake : Option ThreadId} {p p' : CThreadPool} {c c' : Call}
  {new : List Worker}

/-- What a call does to the vector `threads`. -/
theorem callStep_threads (h : callStep a wake fresh p c = some (p', c', new)) :
    (p'.threads = p.threads ∧ new = []) ∨
      (p' = { p with threads := p.threads ++ [fresh] } ∧ new = [.start] ∧ c' = c ∧
        ∃ n, c = .resizeGrow n) ∨
      (∃ n, c = .resizeErase n ∧ p' = { p with threads := p.threads.take n } ∧ new = []) ∨
      (∃ isWait, c = .joinErase isWait ∧ p' = { p with threads := [] } ∧ new = []) := by
  obtain ⟨hctl, -⟩ := qPop_control p
  simp only [CThreadPool.control, Prod.mk.injEq] at hctl
  revert h
  fun_cases callStep a wake fresh p c <;> intro h <;> cases h
  all_goals simp_all [CThreadPool.qPush]

/-- A call finishes no worker; it detaches the workers it flags and joins finished ones. -/
theorem callStep_unjoinable (h : callStep a wake fresh p c = some (p', c', new)) :
    p'.finished = p.finished ∧
      (p'.unjoinable = p.unjoinable ∨
        ∃ w, p'.unjoinable = w :: p.unjoinable ∧ (w ∈ p'.flagged ∨ w ∈ p.finished)) := by
  obtain ⟨hctl, hfin⟩ := qPop_control p
  simp only [CThreadPool.control, Prod.mk.injEq] at hctl
  revert h
  fun_cases callStep a wake fresh p c <;> intro h <;> cases h
  all_goals simp_all [CThreadPool.qPush]

theorem callStep_isStop (h : callStep a wake fresh p c = some (p', c', new)) :
    p'.isStop = p.isStop ∨ c = .stopSetStop := by
  obtain ⟨hctl, -⟩ := qPop_control p
  simp only [CThreadPool.control, Prod.mk.injEq] at hctl
  revert h
  fun_cases callStep a wake fresh p c <;> intro h <;> cases h
  all_goals simp_all [CThreadPool.qPush]

theorem drop_pred_subset {l m : List ThreadId} {i : Nat} {w : ThreadId} (hi : l[i - 1]? = some w)
    (hpos : 0 < i) (hl : l.drop i ⊆ m) : l.drop (i - 1) ⊆ w :: m := by
  obtain ⟨hlt, hw⟩ := List.getElem?_eq_some_iff.mp hi
  rw [List.drop_eq_getElem_cons hlt, hw, Nat.sub_add_cancel hpos]
  exact List.cons_subset_cons w hl

/-- A call goes on with what its position says. -/
theorem callStep_covers (hcov : c.Covers p) (h : callStep a wake fresh p c = some (p', c', new)) :
    c'.Covers p' := by
  by_cases hflag : ∃ n i fs, c = .resizeFlag n i fs
  · obtain ⟨n, i, fs, rfl⟩ := hflag
    rcases flag_step h with ⟨hi, w, hw, rfl, rfl⟩ | ⟨hi, rfl, rfl⟩
    · exact drop_pred_subset hw (Nat.zero_lt_of_lt hi) hcov
    · exact List.Subset.trans (List.drop_subset_drop_left _ hi) hcov
  by_cases hjoin : ∃ isWait i, c = .join isWait i
  · obtain ⟨isWait, i, rfl⟩ := hjoin
    rcases join_step h with ⟨w, hi, rfl, ⟨hw, rfl⟩ | ⟨-, rfl⟩⟩ | ⟨hend, rfl, rfl⟩
    · exact take_succ_subset hi hw hcov
    · exact take_succ_subset hi List.mem_cons_self
        (List.Subset.trans hcov (List.subset_cons_self _ _))
    · rw [Call.Covers, List.take_of_length_le hend] at hcov
      exact hcov
  -- the other calls do not change what their positions say
  obtain ⟨hctl, -⟩ := qPop_control p
  simp only [CThreadPool.control, Prod.mk.injEq] at hctl
  revert h
  fun_cases callStep a wake fresh p c <;> intro h <;> cases h
  all_goals simp_all [Call.Covers, Notice.Covers]

theorem resize_next (hc : c.isResize = true)
    (h : callStep a wake fresh p c = some (p', c', new)) :
    (c' = .idle ∨ c'.isResize = true) ∧ p'.isDone = p.isDone := by
  revert h
  fun_cases callStep a wake fresh p c <;> intro h <;> cases h
  all_goals simp_all [Call.isResize, Notice.isShrink]

/-- More flagged and joined workers keep what a position says. -/
theorem Call.Covers.mono (hcov : c.Covers p) (hthreads : p'.threads = p.threads)
    (hflagged : p.flagged ⊆ p'.flagged) (hunjoinable : p.unjoinable ⊆ p'.unjoinable) :
    c.Covers p' := by
  cases c with
  | resizeFlag n i fs =>
    rw [Call.Covers, hthreads]
    exact List.Subset.trans hcov hflagged
  | allLock nt | allNotify nt | allUnlock nt =>
    cases nt with
    | shrink n fs =>
      rw [Call.Covers, Notice.Covers, hthreads]
      exact List.Subset.trans hcov hflagged
    | _ => trivial
  | resizeErase n =>
    rw [Call.Covers, hthreads]
    exact List.Subset.trans hcov hflagged
  | join isWait i =>
    rw [Call.Covers, hthreads]
    exact List.Subset.trans hcov hunjoinable
  | joinClear isWait | joinErase isWait =>
    rw [Call.Covers, hthreads]
    exact List.Subset.trans hcov hunjoinable
  | _ => trivial

end Local

/-! ## The invariant -/

/-- The invariant of the considered runs. -/
structure Accounted (s : State) : Prop where
  isStop : s.pool.isStop = false
  tasks : ∀ (b : ThreadId) (f : TaskId) (c : Call),
    s.procs[b]? = some (.worker (.running f c)) → c = .idle ∨ c.isPush = true
  clients : ∀ (b : ThreadId) (c : Call), s.procs[b]? = some (.client c) →
    c = .idle ∨ c.isPush = true ∨ c.isOwner = true
  /-- Nobody else is in `resize` or `stop` at the same time. -/
  alone : ∀ (b d : ThreadId) (c c' : Call), s.procs[b]? = some (.client c) →
    s.procs[d]? = some (.client c') → d ≠ b → c.isOwner = true → c' = .idle ∨ c'.isPush = true
  /-- During `stop(true)` the other outside threads are idle. -/
  quiet : ∀ (b d : ThreadId) (c c' : Call), s.procs[b]? = some (.client c) →
    s.procs[d]? = some (.client c') → d ≠ b → c.isWait = true → c' = .idle
  set : ∀ (b : ThreadId) (c : Call), s.procs[b]? = some (.client c) → c.isSet = true →
    s.pool.isDone = true
  workers : ∀ (b : ThreadId) (w : Worker), s.procs[b]? = some (.worker w) → s.pool.Tracks b
  finished : ∀ b ∈ s.pool.finished, s.procs[b]? = some (.worker .exited)
  unjoinable : ∀ b ∈ s.pool.unjoinable, b ∈ s.pool.flagged ∨ b ∈ s.pool.finished
  covers : ∀ (b : ThreadId) (c : Call), s.procs[b]? = some (.client c) → c.Covers s.pool

/-- The call returns, goes on in its own class, or begins when the other threads permit it. -/
def Continues (s : State) (c c' : Call) : Prop :=
  c' = .idle ∨
    (c'.isPush = true ∧ (c.isPush = true ∨
      ∀ (d : ThreadId) (q : Call), s.procs[d]? = some (.client q) → q.isWait = false)) ∨
    (c'.isResize = true ∧ (c.isResize = true ∨
      ∀ (d : ThreadId) (q : Call), s.procs[d]? = some (.client q) → q = .idle ∨ q.isPush = true)) ∨
    (c'.isWait = true ∧ (c.isWait = true ∨
      ∀ (d : ThreadId) (q : Call), s.procs[d]? = some (.client q) → q = .idle))

/-- What a move of the considered runs does. -/
structure Effect (s : State) (a : ThreadId) (pr : Proc) (p' : CThreadPool) (pr' : Proc)
    (new : List Worker) : Prop where
  isStop : p'.isStop = false
  isDone : s.pool.isDone = true → p'.isDone = true
  flagged : s.pool.flagged ⊆ p'.flagged
  unjoinable : s.pool.unjoinable ⊆ p'.unjoinable
  joined : ∀ b ∈ p'.unjoinable, b ∈ p'.flagged ∨ b ∈ p'.finished
  tracks : ∀ b, s.pool.Tracks b → p'.Tracks b
  finished : p'.finished = s.pool.finished ∨
    (p'.finished = a :: s.pool.finished ∧ pr' = .worker .exited)
  new : new = [] ∨ s.procs.length ∈ p'.threads
  /-- Only the owner changes the vector. -/
  threads : p'.threads = s.pool.threads ∨ ∃ c, pr = .client c ∧ c.isOwner = true
  kind : ∀ c', pr' = .client c' → ∃ c, pr = .client c
  tasks : ∀ f c, pr' = .worker (.running f c) → c = .idle ∨ c.isPush = true
  covers : ∀ c, pr' = .client c → c.Covers p'
  set : ∀ c, pr' = .client c → c.isSet = true → p'.isDone = true
  next : ∀ c', pr' = .client c' → Continues s pr.call c'

section Effects

variable {s : State} {a : ThreadId} {ch : Choice} {pr pr' : Proc} {p' : CThreadPool}
  {new : List Worker}

theorem covers_of_isPush {c : Call} (hc : c.isPush = true) (p : CThreadPool) : c.Covers p := by
  cases c <;> trivial

/-- A call that pushes is none of the owner's. -/
theorem not_isOwner_of_isPush {c : Call} (hc : c.isPush = true) :
    c.isResize = false ∧ c.isWait = false := by
  cases c with
  | pushQueue | pushLock | pushNotify | pushUnlock => exact ⟨rfl, rfl⟩
  | _ => cases hc

theorem not_isPush_of_isOwner {c : Call} (hc : c.isOwner = true) :
    c ≠ .idle ∧ c.isPush = false := by
  cases c with
  | idle | pushQueue | pushLock | pushNotify | pushUnlock => cases hc
  | _ => exact ⟨nofun, rfl⟩

theorem not_isSet_of_isPush {c : Call} (hc : c.isPush = true) : c.isSet = false := by
  cases c with
  | pushQueue | pushLock | pushNotify | pushUnlock => rfl
  | _ => cases hc

theorem not_isWait_of_isResize {c : Call} (hc : c.isResize = true) :
    c.isSet = false ∧ c.isWait = false := by
  cases c with
  | allLock nt | allNotify nt | allUnlock nt =>
    cases nt with
    | shrink => exact ⟨rfl, rfl⟩
    | stop | done => cases hc
  | resizeIsStop | resizeIsDone | resizeGrow | resizeFlag | resizeErase => exact ⟨rfl, rfl⟩
  | _ => cases hc

/-- A move that leaves threads, flags and handles alone. -/
theorem effect_of_control (hs : Accounted s) (hctl : p'.control = s.pool.control)
    (hfin : p'.finished = s.pool.finished ∨
      (p'.finished = a :: s.pool.finished ∧ pr' = .worker .exited))
    (htasks : ∀ f c, pr' = .worker (.running f c) → c = .idle ∨ c.isPush = true)
    (hkind : ∀ c', pr' = .client c' → (∃ c, pr = .client c) ∧
      (c' = .idle ∨ (c'.isPush = true ∧ pr.call.isPush = true))) :
    Effect s a pr p' pr' [] := by
  simp only [CThreadPool.control, Prod.mk.injEq] at hctl
  obtain ⟨hflagged, hstop, hdone, hthreads, hunj, -, -⟩ := hctl
  have hsub : s.pool.finished ⊆ p'.finished := by
    rcases hfin with hfin | ⟨hfin, -⟩
    · rw [hfin]
      exact List.Subset.refl _
    · rw [hfin]
      exact List.subset_cons_self _ _
  have hclass : ∀ c', pr' = .client c' → c' = .idle ∨ c'.isPush = true := fun c' hc' =>
    (hkind c' hc').2.imp_right And.left
  refine
    { isStop := hstop.trans hs.isStop
      isDone := fun h => hdone.trans h
      flagged := by rw [hflagged]; exact List.Subset.refl _
      unjoinable := by rw [hunj]; exact List.Subset.refl _
      joined := ?_
      tracks := ?_
      finished := hfin
      new := Or.inl rfl
      threads := Or.inl hthreads
      kind := fun c' hc' => (hkind c' hc').1
      tasks := htasks
      covers := ?_
      set := ?_
      next := fun c' hc' => (hkind c' hc').2.imp_right fun h => Or.inl ⟨h.1, Or.inl h.2⟩ }
  · intro b hb
    rw [hunj] at hb
    rw [hflagged]
    exact (hs.unjoinable b hb).imp_right fun h => hsub h
  · intro b hb
    rw [CThreadPool.Tracks, hthreads, hflagged]
    exact hb.imp_right fun h => h.imp_right fun h => hsub h
  · intro c hc
    rcases hclass c hc with rfl | hpush
    · trivial
    · exact covers_of_isPush hpush p'
  · intro c hc hset
    rcases hclass c hc with rfl | hpush
    · cases hset
    · rw [not_isSet_of_isPush hpush] at hset
      cases hset

/-- A call begins. -/
theorem effect_call (hs : Accounted s) {r : Request} (hok : poolRun s (.sched a (.call r)) = true)
    (hpr : s.procs[a]? = some (.client .idle)) :
    Effect s a (.client .idle) s.pool (.client r.entry) [] := by
  have hbase : ∀ c : Call, (∀ p, c.Covers p) → c.isSet = false → Continues s .idle c →
      Effect s a (.client .idle) s.pool (.client c) [] := by
    intro c hcov hset hnext
    exact
      { isStop := hs.isStop
        isDone := id
        flagged := List.Subset.refl _
        unjoinable := List.Subset.refl _
        joined := hs.unjoinable
        tracks := fun _ => id
        finished := Or.inl rfl
        new := Or.inl rfl
        threads := Or.inl rfl
        kind := fun _ _ => ⟨_, rfl⟩
        tasks := fun _ _ h => nomatch h
        covers := fun c' hc' => by cases hc'; exact hcov _
        set := fun c' hc' h => by cases hc'; rw [hset] at h; cases h
        next := fun c' hc' => by cases hc'; exact hnext }
  cases r with
  | push =>
    simp only [poolRun, hpr, Bool.and_eq_true, Bool.not_eq_true'] at hok
    apply hbase .pushQueue (fun _ => trivial) rfl
    refine Or.inr (Or.inl ⟨rfl, Or.inr fun d q hq => ?_⟩)
    simpa [Proc.call] using client_of_all hok.2 hq
  | resize n =>
    simp only [poolRun, hpr, Bool.and_eq_true] at hok
    apply hbase (.resizeIsStop n) (fun _ => trivial) rfl
    refine Or.inr (Or.inr (Or.inl ⟨rfl, Or.inr fun d q hq => ?_⟩))
    simpa [Proc.isUser] using client_of_all hok.2 hq
  | stop isWait =>
    cases isWait with
    | false => simp [poolRun, hpr] at hok
    | true =>
      simp only [poolRun, hpr, Bool.and_eq_true] at hok
      apply hbase .waitIsDone (fun _ => trivial) rfl
      refine Or.inr (Or.inr (Or.inr ⟨rfl, Or.inr fun d q hq => ?_⟩))
      simpa [Proc.isFree] using client_of_all hok.2 hq
  | pop => simp [poolRun, hpr] at hok
  | clearQueue => simp [poolRun, hpr] at hok

theorem not_stopSetStop {c : Call} (hc : c.isOwner = true) : c ≠ .stopSetStop := by
  rintro rfl
  cases hc

/-- What a call detaches is flagged, and what it joins has finished. -/
theorem joined_call (hs : Accounted s) {fresh : ThreadId} {wake : Option ThreadId} {c c' : Call}
    (h : callStep a wake fresh s.pool c = some (p', c', new)) :
    ∀ b ∈ p'.unjoinable, b ∈ p'.flagged ∨ b ∈ p'.finished := by
  obtain ⟨⟨hflagged, -⟩, -, -⟩ := callStep_flags h
  obtain ⟨hfin, hunj⟩ := callStep_unjoinable h
  have hkeep : ∀ b ∈ s.pool.unjoinable, b ∈ p'.flagged ∨ b ∈ s.pool.finished :=
    fun b hb => (hs.unjoinable b hb).imp_left fun h => hflagged h
  intro b hb
  rw [hfin]
  rcases hunj with hunj | ⟨w, hunj, hw⟩
  · rw [hunj] at hb
    exact hkeep b hb
  · rw [hunj] at hb
    rcases List.mem_cons.mp hb with rfl | hb
    · exact hw
    · exact hkeep b hb

/-- The workers that a call cuts off the vector were flagged or joined. -/
theorem tracks_call (hs : Accounted s) {fresh : ThreadId} {wake : Option ThreadId} {c c' : Call}
    (hcov : c.Covers s.pool) (h : callStep a wake fresh s.pool c = some (p', c', new))
    {b : ThreadId} (hb : s.pool.Tracks b) : p'.Tracks b := by
  rcases callStep_threads h with ⟨hthreads, -⟩ | ⟨rfl, -⟩ | ⟨n, rfl, rfl, -⟩ |
    ⟨isWait, rfl, rfl, -⟩
  · obtain ⟨⟨hflagged, -⟩, -, -⟩ := callStep_flags h
    rw [CThreadPool.Tracks, hthreads, (callStep_unjoinable h).1]
    exact hb.imp_right fun h => h.imp_left fun h => hflagged h
  · exact hb.imp_left fun h => List.mem_append_left _ h
  · rcases hb with hb | hb
    · rw [← List.take_append_drop n s.pool.threads, List.mem_append] at hb
      exact hb.imp_right fun hb => Or.inl (hcov hb)
    · exact Or.inr hb
  · rcases hb with hb | hb
    · exact Or.inr (hs.unjoinable b (hcov hb))
    · exact Or.inr hb

/-- A call of the owner goes on. -/
theorem effect_owner (hs : Accounted s) {wake : Option ThreadId} {c c' : Call}
    (hc : c.isOwner = true) (hpr : s.procs[a]? = some (.client c))
    (h : callStep a wake s.procs.length s.pool c = some (p', c', new)) :
    Effect s a (.client c) p' (.client c') new := by
  obtain ⟨⟨hflagged, hdone⟩, -, -⟩ := callStep_flags h
  obtain ⟨hfin, hunj⟩ := callStep_unjoinable h
  have hcov := hs.covers a c hpr
  have hstop : p'.isStop = false := by
    rcases callStep_isStop h with hstop | rfl
    · exact hstop.trans hs.isStop
    · exact absurd rfl (not_stopSetStop hc)
  have hnew : new = [] ∨ s.procs.length ∈ p'.threads := by
    rcases callStep_threads h with ⟨-, hnew⟩ | ⟨rfl, -⟩ | ⟨n, -, -, hnew⟩ | ⟨isWait, -, -, hnew⟩
    · exact Or.inl hnew
    · exact Or.inr (List.mem_append_right _ List.mem_cons_self)
    · exact Or.inl hnew
    · exact Or.inl hnew
  have hclass : c' = .idle ∨ (c.isResize = true ∧ c'.isResize = true) ∨
      (c.isWait = true ∧ c'.isWait = true) := by
    rcases Bool.or_eq_true_iff.mp hc with hresize | hwait
    · exact (resize_next hresize h).1.imp_right fun h' => Or.inl ⟨hresize, h'⟩
    · exact (wait_frame hwait h).2.1.imp_right fun h' => Or.inr ⟨hwait, h'⟩
  refine
    { isStop := hstop
      isDone := hdone
      flagged := hflagged
      unjoinable := ?_
      joined := joined_call hs h
      tracks := fun _ hb => tracks_call hs hcov h hb
      finished := Or.inl hfin
      new := hnew
      threads := Or.inr ⟨c, rfl, hc⟩
      kind := fun _ _ => ⟨c, rfl⟩
      tasks := fun _ _ h => nomatch h
      covers := ?_
      set := ?_
      next := ?_ }
  · rcases hunj with hunj | ⟨w, hunj, -⟩
    · rw [hunj]
      exact List.Subset.refl _
    · rw [hunj]
      exact List.subset_cons_self _ _
  · intro d hd
    cases hd
    exact callStep_covers hcov h
  · intro d hd hset
    cases hd
    rcases Bool.or_eq_true_iff.mp hc with hresize | hwait
    · rcases (resize_next hresize h).1 with rfl | hresize'
      · cases hset
      · rw [(not_isWait_of_isResize hresize').1] at hset
        cases hset
    · rcases (wait_next hwait hs.isStop h).2.2.2.1 hset with hset' | hdone'
      · exact hdone (hs.set a c hpr hset')
      · exact hdone'
  · intro d hd
    cases hd
    rcases hclass with rfl | ⟨hresize, hresize'⟩ | ⟨hwait, hwait'⟩
    · exact Or.inl rfl
    · exact Or.inr (Or.inr (Or.inl ⟨hresize', Or.inl hresize⟩))
    · exact Or.inr (Or.inr (Or.inr ⟨hwait', Or.inl hwait⟩))

theorem workerStep_running {w : Worker} {f : TaskId} {c : Call}
    (h : workerStep a s.pool w = some (p', .running f c)) : c = .idle := by
  revert h
  generalize hw : Worker.running f c = w'
  fun_cases workerStep a s.pool w <;> intro h <;> cases h <;> simp_all

theorem effect_of_move (hs : Accounted s) (hok : poolRun s (.sched a ch) = true)
    (hpr : s.procs[a]? = some pr) (hmove : Move a s.procs.length s.pool ch pr p' pr' new) :
    Effect s a pr p' pr' new := by
  cases hmove with
  | clientCall r => exact effect_call hs hok hpr
  | taskCall f r hr =>
    have hpush : r = .push := by simpa [poolRun, hpr] using hok
    subst hpush
    apply effect_of_control hs rfl (Or.inl rfl)
    · intro g c hc
      cases hc
      exact Or.inr rfl
    · exact fun c' hc' => nomatch hc'
  | taskReturn f =>
    exact effect_of_control hs rfl (Or.inl rfl) (fun _ _ h => nomatch h) (fun _ h => nomatch h)
  | @client wake c c' _ _ hc =>
    rcases hs.clients a c hpr with rfl | hpush | howner
    · cases hc
    · obtain ⟨rfl, hclass, hctl, hfin⟩ := push_step hpush hc
      apply effect_of_control hs hctl (Or.inl hfin)
      · intro g d hd
        cases hd
      · intro d hd
        cases hd
        exact ⟨⟨c, rfl⟩, hclass.imp_right fun h => ⟨h, hpush⟩⟩
    · exact effect_owner hs howner hpr hc
  | @task wake c c' _ _ f hc =>
    rcases hs.tasks a f c hpr with rfl | hpush
    · cases hc
    · obtain ⟨rfl, hclass, hctl, hfin⟩ := push_step hpush hc
      apply effect_of_control hs hctl (Or.inl hfin)
      · intro g d hd
        cases hd
        exact hclass
      · exact fun d hd => nomatch hd
  | @worker wake w w' _ hw =>
    obtain ⟨hctl, hfin⟩ := worker_control hw
    apply effect_of_control hs hctl
    · exact hfin.imp_right fun h => ⟨h.1, by rw [h.2]⟩
    · intro f c hf
      rw [Proc.worker.injEq] at hf
      subst hf
      exact Or.inl (workerStep_running hw)
    · exact fun d hd => nomatch hd

end Effects

section Step

variable {s : State} {a : ThreadId} {ch : Choice} {pr pr' : Proc} {p' : CThreadPool}
  {new : List Worker}

/-- A move cannot take another thread into a call against an owner. -/
theorem continues_against (hs : Accounted s) {c d d' : Call} {b : ThreadId}
    (hb : s.procs[b]? = some (.client c)) (hd : s.procs[a]? = some (.client d)) (hne : a ≠ b)
    (hnext : Continues s d d') (hc : c.isOwner = true) :
    (d' = .idle ∨ d'.isPush = true) ∧ (c.isWait = true → d' = .idle) := by
  have hother := hs.alone b a c d hb hd hne hc
  have hnot : d.isResize = false ∧ d.isWait = false := by
    rcases hother with rfl | hpush
    · exact ⟨rfl, rfl⟩
    · exact not_isOwner_of_isPush hpush
  have hcnot := not_isPush_of_isOwner hc
  rcases hnext with rfl | ⟨hpush', h⟩ | ⟨hresize', h⟩ | ⟨hwait', h⟩
  · exact ⟨Or.inl rfl, fun _ => rfl⟩
  · refine ⟨Or.inr hpush', fun hwait => ?_⟩
    rcases h with hpush | hnone
    · rw [hs.quiet b a c d hb hd hne hwait] at hpush
      cases hpush
    · rw [hnone b c hb] at hwait
      cases hwait
  · rcases h with hresize | husers
    · rw [hnot.1] at hresize
      cases hresize
    · rcases husers b c hb with heq | hpush
      · exact absurd heq hcnot.1
      · rw [hcnot.2] at hpush
        cases hpush
  · rcases h with hwait | hidle
    · rw [hnot.2] at hwait
      cases hwait
    · exact absurd (hidle b c hb) hcnot.1

/-- The others while the moving thread is in a call of the owner. -/
theorem continues_owner (hs : Accounted s) {c c' d : Call} {b : ThreadId}
    (ha : s.procs[a]? = some (.client c)) (hb : s.procs[b]? = some (.client d)) (hne : b ≠ a)
    (hnext : Continues s c c') (hc' : c'.isOwner = true) :
    (d = .idle ∨ d.isPush = true) ∧ (c'.isWait = true → d = .idle) := by
  have hnot := not_isPush_of_isOwner hc'
  rcases hnext with heq | ⟨hpush', -⟩ | ⟨hresize', h⟩ | ⟨hwait', h⟩
  · exact absurd heq hnot.1
  · rw [hnot.2] at hpush'
    cases hpush'
  · rw [(not_isWait_of_isResize hresize').2]
    refine ⟨?_, nofun⟩
    rcases h with hresize | husers
    · exact hs.alone a b c d ha hb hne (by rw [Call.isOwner, hresize, Bool.true_or])
    · exact husers b d hb
  · have hidle : d = .idle := by
      rcases h with hwait | hidle
      · exact hs.quiet a b c d ha hb hne hwait
      · exact hidle b d hb
    exact ⟨Or.inl hidle, fun _ => hidle⟩

/-- Exclusion is kept. -/
theorem accounted_alone (hs : Accounted s) (hpr : s.procs[a]? = some pr)
    (hmove : Move a s.procs.length s.pool ch pr p' pr' new) (he : Effect s a pr p' pr' new)
    (b d : ThreadId) (c c' : Call)
    (hb : (s.procs.set a pr' ++ new.map Proc.worker)[b]? = some (.client c))
    (hd : (s.procs.set a pr' ++ new.map Proc.worker)[d]? = some (.client c')) (hne : d ≠ b)
    (hc : c.isOwner = true) :
    (c' = .idle ∨ c'.isPush = true) ∧ (c.isWait = true → c' = .idle) := by
  rcases client_move hpr hmove hb with ⟨rfl, rfl⟩ | ⟨hba, hb'⟩
  · -- the moving thread is the owner
    rcases client_move hpr hmove hd with ⟨rfl, -⟩ | ⟨hda, hd'⟩
    · exact absurd rfl hne
    · obtain ⟨e, rfl⟩ := he.kind c rfl
      exact continues_owner hs hpr hd' hda (he.next c rfl) hc
  · rcases client_move hpr hmove hd with ⟨rfl, rfl⟩ | ⟨hda, hd'⟩
    · obtain ⟨e, rfl⟩ := he.kind c' rfl
      exact continues_against hs hb' hpr hne (he.next c' rfl) hc
    · exact ⟨hs.alone b d c c' hb' hd' hne hc, hs.quiet b d c c' hb' hd' hne⟩

/-- A worker stays a worker, and after its loop it takes no step. -/
theorem move_of_worker (hmove : Move a s.procs.length s.pool ch pr p' pr' new) :
    (∀ w', pr' = .worker w' → ∃ w, pr = .worker w) ∧ pr ≠ .worker .exited := by
  cases hmove with
  | taskCall f r hr => exact ⟨fun _ _ => ⟨_, rfl⟩, nofun⟩
  | taskReturn f => exact ⟨fun _ _ => ⟨_, rfl⟩, nofun⟩
  | task f hc => exact ⟨fun _ _ => ⟨_, rfl⟩, nofun⟩
  | worker hw =>
    refine ⟨fun _ _ => ⟨_, rfl⟩, ?_⟩
    rintro ⟨⟩
    cases hw
  | clientCall | client => exact ⟨nofun, nofun⟩

theorem accounted_move (hs : Accounted s) (hpr : s.procs[a]? = some pr)
    (hmove : Move a s.procs.length s.pool ch pr p' pr' new) (he : Effect s a pr p' pr' new) :
    Accounted ⟨p', s.procs.set a pr' ++ new.map Proc.worker⟩ := by
  constructor
  case isStop => exact he.isStop
  case tasks =>
    intro b f c hb
    rcases getElem?_move hpr hmove hb with ⟨-, heq⟩ | ⟨-, hold⟩ | ⟨-, heq⟩
    · exact he.tasks f c heq.symm
    · exact hs.tasks b f c hold
    · cases heq
  case clients =>
    intro b c hb
    rcases client_move hpr hmove hb with ⟨-, rfl⟩ | ⟨-, hold⟩
    · rcases he.next c rfl with hidle | ⟨hpush, -⟩ | ⟨hresize, -⟩ | ⟨hwait, -⟩
      · exact Or.inl hidle
      · exact Or.inr (Or.inl hpush)
      · exact Or.inr (Or.inr (by rw [Call.isOwner, hresize, Bool.true_or]))
      · exact Or.inr (Or.inr (by rw [Call.isOwner, hwait, Bool.or_true]))
    · exact hs.clients b c hold
  case alone =>
    intro b d c c' hb hd hne hc
    exact (accounted_alone hs hpr hmove he b d c c' hb hd hne hc).1
  case quiet =>
    intro b d c c' hb hd hne hc
    have howner : c.isOwner = true := by rw [Call.isOwner, hc, Bool.or_true]
    exact (accounted_alone hs hpr hmove he b d c c' hb hd hne howner).2 hc
  case set =>
    intro b c hb hset
    rcases client_move hpr hmove hb with ⟨-, rfl⟩ | ⟨-, hold⟩
    · exact he.set c rfl hset
    · exact he.isDone (hs.set b c hold hset)
  case workers =>
    intro b w hb
    rcases getElem?_move hpr hmove hb with ⟨rfl, rfl⟩ | ⟨-, hold⟩ | ⟨rfl, -⟩
    · obtain ⟨w₀, rfl⟩ := (move_of_worker hmove).1 w rfl
      exact he.tracks b (hs.workers b w₀ hpr)
    · exact he.tracks b (hs.workers b w hold)
    · rcases he.new with rfl | hnew
      · simp at hb
      · exact Or.inl hnew
  case finished =>
    intro b hb
    have hold : b ∈ s.pool.finished →
        (s.procs.set a pr' ++ new.map Proc.worker)[b]? = some (.worker .exited) := by
      intro hfin
      have hexited := hs.finished b hfin
      by_cases hba : b = a
      · subst hba
        rw [hpr] at hexited
        exact absurd (Option.some.inj hexited) (move_of_worker hmove).2
      · exact getElem?_move_ne hba hexited pr' new
    rcases he.finished with heq | ⟨heq, rfl⟩
    · rw [heq] at hb
      exact hold hb
    · rw [heq] at hb
      rcases List.mem_cons.mp hb with rfl | hb
      · exact getElem?_move_self hpr _ new
      · exact hold hb
  case unjoinable => exact he.joined
  case covers =>
    intro b c hb
    rcases client_move hpr hmove hb with ⟨-, rfl⟩ | ⟨hba, hold⟩
    · exact he.covers c rfl
    · rcases he.threads with hthreads | ⟨c₀, rfl, howner⟩
      · exact (hs.covers b c hold).mono hthreads he.flagged he.unjoinable
      · -- beside the owner the others only push
        rcases hs.alone a b c₀ c hpr hold hba howner with rfl | hpush
        · trivial
        · exact covers_of_isPush hpush p'

end Step

theorem accounted_init {s : State} (h : s.IsInit) : Accounted s := by
  subst h
  constructor <;> simp [CThreadPool.init]

theorem accounted_arrive {s : State} (hs : Accounted s) :
    Accounted { s with procs := s.procs ++ [.client .idle] } := by
  constructor
  case isStop => exact hs.isStop
  case tasks => exact fun b f c hb => hs.tasks b f c (arrive_worker hb)
  case clients =>
    intro b c hb
    rcases arrive_client hb with hold | rfl
    · exact hs.clients b c hold
    · exact Or.inl rfl
  case alone =>
    intro b d c c' hb hd hne hc
    rcases arrive_client hb with hb' | rfl
    · rcases arrive_client hd with hd' | rfl
      · exact hs.alone b d c c' hb' hd' hne hc
      · exact Or.inl rfl
    · cases hc
  case quiet =>
    intro b d c c' hb hd hne hc
    rcases arrive_client hb with hb' | rfl
    · rcases arrive_client hd with hd' | rfl
      · exact hs.quiet b d c c' hb' hd' hne hc
      · rfl
    · cases hc
  case set =>
    intro b c hb hset
    rcases arrive_client hb with hold | rfl
    · exact hs.set b c hold hset
    · cases hset
  case workers => exact fun b w hb => hs.workers b w (arrive_worker hb)
  case finished => exact fun b hb => getElem?_arrive_of (hs.finished b hb) _
  case unjoinable => exact hs.unjoinable
  case covers =>
    intro b c hb
    rcases arrive_client hb with hold | rfl
    · exact hs.covers b c hold
    · trivial

theorem accounted_step {s s' : State} {l : Label} (hs : Accounted s) (hok : poolRun s l = true)
    (h : step s l = some s') : Accounted s' := by
  rcases step_cases h with ⟨a, ch, pr, p', pr', new, rfl, hpr, hmove, rfl⟩ | ⟨w, -, -, rfl⟩ |
    ⟨-, rfl⟩
  · exact accounted_move hs hpr hmove (effect_of_move hs hok hpr hmove)
  · exact ⟨hs.isStop, hs.tasks, hs.clients, hs.alone, hs.quiet, hs.set, hs.workers, hs.finished,
      hs.unjoinable, fun b c hb =>
        (hs.covers b c hb).mono rfl (List.Subset.refl _) (List.Subset.refl _)⟩
  · exact accounted_arrive hs

theorem accounted_of_reachable {s : State}
    (h : Reachable step (fun s l => poolRun s l = true) State.IsInit s) : Accounted s :=
  h.invariant (fun _ => accounted_init) fun _ _ _ hs hok hst => accounted_step hs hok hst

/-! ## After the return -/

/-- The destructor has returned: nobody outside calls the pool any more. -/
structure Returned (s : State) : Prop where
  isDone : s.pool.isDone = true
  idle : ∀ (b : ThreadId) (c : Call), s.procs[b]? = some (.client c) → c = .idle
  waiting : Waiting s

/-- Every worker has left its loop, or is about to leave it by its flag. -/
def State.AllClear (s : State) : Prop :=
  ∀ (b : ThreadId) (w : Worker), s.procs[b]? = some (.worker w) →
    w.clear = true ∧ (∀ f, w = .testFlag f → b ∈ s.pool.flagged)

/-- Some run from here has a worker that runs a task or touches the pool. -/
def State.Misused (s : State) : Prop :=
  ∃ ls u, Run step (fun s l => poolRun s l = true) s ls u ∧ ¬ u.LeavesPool

section After

variable {s t : State} {b : ThreadId}

/-- No outside thread moves any more. -/
theorem returned_move {a : ThreadId} {ch : Choice} {pr pr' : Proc} {p' : CThreadPool}
    {new : List Worker} (hs : Returned s) (hok : poolRun s (.sched a ch) = true)
    (hpr : s.procs[a]? = some pr) (hmove : Move a s.procs.length s.pool ch pr p' pr' new) :
    ∃ w w', pr = .worker w ∧ pr' = .worker w' := by
  cases hmove with
  | clientCall r =>
    cases r with
    | stop isWait => cases isWait <;> simp [poolRun, hpr, hs.isDone] at hok
    | _ => simp [poolRun, hpr, hs.isDone] at hok
  | client hc =>
    rw [hs.idle a _ hpr] at hc
    cases hc
  | taskCall | taskReturn | task | worker => exact ⟨_, _, rfl, rfl⟩

theorem returned_step {l : Label} (hs : Returned s) (hok : poolRun s l = true)
    (h : step s l = some t) : Returned t := by
  have hwaiting := waiting_step hs.waiting h
  rcases step_cases h with ⟨a, ch, pr, p', pr', new, rfl, hpr, hmove, rfl⟩ | ⟨w, -, -, rfl⟩ |
    ⟨-, rfl⟩
  · obtain ⟨w, w', rfl, rfl⟩ := returned_move hs hok hpr hmove
    refine ⟨(move_calls hmove).1.2 hs.isDone, ?_, hwaiting⟩
    intro b c hb
    rcases client_move hpr hmove hb with ⟨-, heq⟩ | ⟨-, hb⟩
    · cases heq
    · exact hs.idle b c hb
  · exact ⟨hs.isDone, hs.idle, hwaiting⟩
  · refine ⟨hs.isDone, ?_, hwaiting⟩
    intro b c hb
    exact (arrive_client hb).elim (hs.idle b c) id

/-- A worker about to leave its loop leaves it, and then it takes no step. -/
theorem clear_step {w w' : Worker} {p p' : CThreadPool} (hw : workerStep b p w = some (p', w'))
    (hclear : w.clear = true) (hflag : ∀ f, w = .testFlag f → b ∈ p.flagged) :
    w'.clear = true ∧ (∀ f, w' ≠ .testFlag f) ∧ p'.flagged = p.flagged := by
  cases w with
  | testFlag f =>
    rw [workerStep, if_pos (hflag f rfl)] at hw
    cases hw
    refine ⟨rfl, fun g hg => ?_, rfl⟩
    cases hg
  | leaveScope f =>
    cases hw
    refine ⟨rfl, fun g hg => ?_, rfl⟩
    cases hg
  | exited => cases hw
  | _ => cases hclear

theorem allClear_step {l : Label} (hs : Returned s) (hclear : s.AllClear)
    (hok : poolRun s l = true) (h : step s l = some t) : t.AllClear := by
  rcases step_cases h with ⟨a, ch, pr, p', pr', new, rfl, hpr, hmove, rfl⟩ | ⟨w, -, -, rfl⟩ |
    ⟨-, rfl⟩
  · obtain ⟨w, w', rfl, rfl⟩ := returned_move hs hok hpr hmove
    cases hmove with
    | taskCall | taskReturn | task => cases (hclear a _ hpr).1
    | worker hw =>
      obtain ⟨hw', hnot, hflagged⟩ := clear_step hw (hclear a w hpr).1 (hclear a w hpr).2
      intro b v hb
      have hmove : Move a s.procs.length s.pool (.run none) (.worker w) p' (.worker w') [] :=
        Move.worker hw
      rcases getElem?_move hpr hmove hb with ⟨rfl, heq⟩ | ⟨-, hb⟩ | ⟨rfl, -⟩
      · cases heq
        exact ⟨hw', fun f hf => absurd hf (hnot f)⟩
      · refine ⟨(hclear b v hb).1, fun f hf => ?_⟩
        rw [hflagged]
        exact (hclear b v hb).2 f hf
      · simp at hb
  · exact hclear
  · exact fun b w hb => hclear b w (arrive_worker hb)

theorem leavesPool_of_allClear (hclear : s.AllClear) : s.LeavesPool := by
  intro b w hb
  obtain ⟨hw, -⟩ := hclear b w hb
  cases w with
  | testFlag f | leaveScope f | exited => exact ⟨rfl, nofun⟩
  | _ => cases hw

/-- The step of a worker outside of its tasks. -/
theorem step_worker {w w' : Worker} {p' : CThreadPool} (hb : s.procs[b]? = some (.worker w))
    (hw : workerStep b s.pool w = some (p', w')) :
    step s (.sched b (.run none)) = some ⟨p', s.procs.set b (.worker w')⟩ := by
  have hproc : procStep b s.procs.length s.pool (.run none) (.worker w) =
      some (p', .worker w', []) := by
    cases w with
    | running f c => cases hw
    | _ => simp only [procStep, hw, Option.map_some]
  simp only [step, hb, hproc, List.map_nil, List.append_nil]

theorem misused_of_touches {w w' : Worker} {p' : CThreadPool}
    (hb : s.procs[b]? = some (.worker w)) (htouch : w.touchesPool = true)
    (hw : workerStep b s.pool w = some (p', w')) : s.Misused := by
  refine ⟨[], s, Run.nil, fun h => ?_⟩
  have hnone := (h b w hb).2 htouch none
  rw [step_worker hb hw] at hnone
  cases hnone

theorem misused_of_running {f : TaskId} {c : Call}
    (hb : s.procs[b]? = some (.worker (.running f c))) : s.Misused := by
  refine ⟨[], s, Run.nil, fun h => ?_⟩
  have hfalse := (h b _ hb).1
  cases hfalse

theorem misused_of_step {l : Label} (hok : poolRun s l = true) (h : step s l = some t)
    (ht : t.Misused) : s.Misused := by
  obtain ⟨ls, u, hrun, hu⟩ := ht
  have hfirst : Run step (fun s l => poolRun s l = true) s [l] t := Run.single hok h
  exact ⟨[l] ++ ls, u, hfirst.append hrun, hu⟩

/-- The worker takes a step to a position from which the pool is misused. -/
theorem misused_of_worker {w w' : Worker} {p' : CThreadPool}
    (hb : s.procs[b]? = some (.worker w)) (hw : workerStep b s.pool w = some (p', w'))
    (ht : ∀ t : State, t.pool = p' → t.procs[b]? = some (.worker w') → t.Misused) :
    s.Misused := by
  apply misused_of_step rfl (step_worker hb hw)
  apply ht _ rfl
  obtain ⟨hlt, -⟩ := List.getElem?_eq_some_iff.mp hb
  exact List.getElem?_set_self hlt

/-- The worker that holds the mutex goes on. -/
theorem misused_of_locked {w : Worker} (hb : s.procs[b]? = some (.worker w))
    (hlocked : w.locked = true) : s.Misused := by
  cases w with
  | running f c => exact misused_of_running hb
  | enterWait => exact misused_of_touches hb rfl rfl
  | predPop woken =>
    rcases s.pool.qPop_cases with ⟨-, hpop⟩ | ⟨f, q, -, hpop⟩
    · exact misused_of_touches hb rfl (by rw [workerStep, hpop])
    · exact misused_of_touches hb rfl (by rw [workerStep, hpop])
  | predDone =>
    by_cases hdone : s.pool.isDone = true
    · exact misused_of_touches hb rfl (by rw [workerStep, if_pos hdone])
    · exact misused_of_touches hb rfl (by rw [workerStep, if_neg hdone])
  | predFlag =>
    by_cases hflag : b ∈ s.pool.flagged
    · apply misused_of_worker hb (by rw [workerStep, if_pos hflag])
      intro t _ ht
      exact misused_of_touches ht rfl rfl
    · apply misused_of_worker hb (by rw [workerStep, if_neg hflag])
      intro t _ ht
      exact misused_of_touches ht rfl rfl
  | block => exact misused_of_touches hb rfl rfl
  | leaveWait next => exact misused_of_touches hb rfl rfl
  | unlock next => cases next <;> exact misused_of_touches hb rfl rfl
  | _ => cases hlocked

/-- The worker wants the mutex, and gets it or finds a worker that has it. -/
theorem misused_of_wanting {w w' : Worker} {p' : CThreadPool} (hs : Returned s)
    (hb : s.procs[b]? = some (.worker w)) (htouch : w.touchesPool = true)
    (hw : s.pool.mutex = none → workerStep b s.pool w = some (p', w')) : s.Misused := by
  cases hmutex : s.pool.mutex with
  | none => exact misused_of_touches hb htouch (hw hmutex)
  | some d =>
    obtain ⟨pr, hd, hlocked⟩ := (hs.waiting.mutex d).mp hmutex
    cases pr with
    | worker v => exact misused_of_locked hd hlocked
    | client c =>
      rw [hs.idle d c hd] at hlocked
      cases hlocked

/-- A worker that is not about to leave misuses the pool in some run. -/
theorem misused_of_not_clear {w : Worker} (hs : Returned s) (hb : s.procs[b]? = some (.worker w))
    (hw : ¬ w.clear = true) : s.Misused := by
  have hlock : ∀ t : State, Returned t → t.procs[b]? = some (.worker .lock) → t.Misused :=
    fun t ht hb => misused_of_wanting ht hb rfl fun hnone => by rw [workerStep, if_pos hnone]
  cases w with
  | start =>
    rcases s.pool.qPop_cases with ⟨-, hpop⟩ | ⟨f, q, -, hpop⟩
    · exact misused_of_touches hb rfl (by rw [workerStep, hpop])
    · exact misused_of_touches hb rfl (by rw [workerStep, hpop])
  | scope f =>
    apply misused_of_worker hb rfl
    intro t _ ht
    exact misused_of_running ht
  | popNext f => exact misused_of_touches hb rfl rfl
  | endScope f next =>
    cases next with
    | none =>
      have hst := step_worker hb rfl
      apply misused_of_step rfl hst
      apply hlock _ (returned_step hs rfl hst)
      obtain ⟨hlt, -⟩ := List.getElem?_eq_some_iff.mp hb
      exact List.getElem?_set_self hlt
    | some g =>
      apply misused_of_worker hb rfl
      intro t _ ht
      apply misused_of_worker ht rfl
      intro t _ ht
      exact misused_of_running ht
  | lock => exact hlock s hs hb
  | waiting =>
    have hawake : ∀ t : State, Returned t → t.procs[b]? = some (.worker .waiting) →
        b ∉ t.pool.sleepers → t.Misused :=
      fun t ht hb hsleep => misused_of_wanting ht hb rfl fun hnone => by
        rw [workerStep, if_neg hsleep, if_pos hnone]
    by_cases hsleep : b ∈ s.pool.sleepers
    · have hst : step s (.spurious b) =
          some { s with pool := { s.pool with sleepers := s.pool.sleepers.erase b } } := by
        rw [step, if_pos hsleep]
      apply misused_of_step rfl hst
      apply hawake _ (returned_step hs rfl hst) hb
      exact fun hmem => (hs.waiting.sleepers.1.mem_erase_iff.mp hmem).1 rfl
    · exact hawake s hs hb hsleep
  | testFlag | leaveScope | exited => exact absurd rfl hw
  | running f c => exact misused_of_running hb
  | _ => exact misused_of_locked hb rfl

end After

/-! ## The return of the destructor -/

section Return

variable {s t : State} {a : ThreadId} {wake : Option ThreadId}

/-- A worker at the return was joined, or was detached and is flagged. -/
theorem flagged_or_exited (hs : Accounted s)
    (ha : s.procs[a]? = some (.client (.joinErase true))) {b : ThreadId} {w : Worker}
    (hb : s.procs[b]? = some (.worker w)) : b ∈ s.pool.flagged ∨ w = .exited := by
  have hjoined : s.pool.threads ⊆ s.pool.unjoinable := hs.covers a _ ha
  have hfinished : b ∈ s.pool.finished → w = .exited := by
    intro hfin
    have hexited := hs.finished b hfin
    rw [hb] at hexited
    cases hexited
    rfl
  rcases hs.workers b w hb with hlisted | hflagged | hfin
  · exact (hs.unjoinable b (hjoined hlisted)).imp_right hfinished
  · exact Or.inl hflagged
  · exact Or.inr (hfinished hfin)

theorem return_step (ha : s.procs[a]? = some (.client (.joinErase true)))
    (hret : step s (.sched a (.run wake)) = some t) :
    t = ⟨{ s.pool with threads := [] }, s.procs.set a (.client .idle)⟩ := by
  simp only [step, ha, procStep, callStep, Option.map_some, List.map_nil, List.append_nil,
    Option.some.injEq] at hret
  exact hret.symm

theorem returned_of_return (hs : Accounted s) (hwaiting : Waiting s)
    (ha : s.procs[a]? = some (.client (.joinErase true)))
    (hret : step s (.sched a (.run wake)) = some t) : Returned t := by
  have hwaiting' := waiting_step hwaiting hret
  have heq := return_step ha hret
  subst heq
  refine ⟨hs.set a _ ha rfl, ?_, hwaiting'⟩
  intro b c hb
  by_cases hba : b = a
  · subst hba
    obtain ⟨hlt, -⟩ := List.getElem?_eq_some_iff.mp ha
    rw [List.getElem?_set_self hlt] at hb
    cases hb
    rfl
  · rw [List.getElem?_set_ne (Ne.symm hba)] at hb
    exact hs.quiet a b _ c ha hb hba rfl

/-- The workers do not move at the return. -/
theorem worker_of_return (ha : s.procs[a]? = some (.client (.joinErase true)))
    (hret : step s (.sched a (.run wake)) = some t) {b : ThreadId} {w : Worker} :
    t.procs[b]? = some (.worker w) ↔ s.procs[b]? = some (.worker w) := by
  rw [return_step ha hret]
  by_cases hba : b = a
  · subst hba
    obtain ⟨hlt, -⟩ := List.getElem?_eq_some_iff.mp ha
    rw [List.getElem?_set_self hlt, ha]
    exact ⟨nofun, nofun⟩
  · rw [List.getElem?_set_ne (Ne.symm hba)]

end Return

/-- After the return of the destructor no worker runs a task or touches the pool, in whatever run,
if and only if every detached worker has by then returned from its last task. -/
theorem none_outlives_iff {s t : State} {a : ThreadId} {wake : Option ThreadId}
    (h : Reachable step (fun s l => poolRun s l = true) State.IsInit s)
    (ha : s.procs[a]? = some (.client (.joinErase true)))
    (hret : step s (.sched a (.run wake)) = some t) :
    (∀ ls u, Run step (fun s l => poolRun s l = true) t ls u → u.LeavesPool) ↔
      ∀ (b : ThreadId) (w : Worker), s.procs[b]? = some (.worker w) → b ∈ s.pool.flagged →
        w.clear = true := by
  have hs : Accounted s := accounted_of_reachable h
  have ht : Returned t := returned_of_return hs (waiting_of_reachable h) ha hret
  constructor
  · intro hleaves b w hb _
    by_contra hw
    obtain ⟨ls, u, hrun, hu⟩ := misused_of_not_clear ht ((worker_of_return ha hret).mpr hb) hw
    exact hu (hleaves ls u hrun)
  · intro hclear ls u hrun
    have hall : t.AllClear := by
      intro b w hb
      have hb' := (worker_of_return ha hret).mp hb
      rcases flagged_or_exited hs ha hb' with hflagged | rfl
      · refine ⟨hclear b w hb' hflagged, fun f _ => ?_⟩
        rw [return_step ha hret]
        exact hflagged
      · exact ⟨rfl, nofun⟩
    have hinv : Returned u ∧ u.AllClear :=
      hrun.invariant (I := fun s => Returned s ∧ s.AllClear)
        (fun _ _ _ hs hok hst => ⟨returned_step hs.1 hok hst, allClear_step hs.1 hs.2 hok hst⟩)
        ⟨ht, hall⟩
    exact leavesPool_of_allClear hinv.2

/-- A worker runs a task, the pool is shrunk and destroyed; the run ends before the last step. -/
def detachRun : List Label :=
  [.arrive, .sched 0 (.call (.resize 1))] ++ turns 0 4 ++ [.sched 0 (.call .push)] ++ turns 0 4 ++
    turns 1 2 ++ [.sched 0 (.call (.resize 0))] ++ turns 0 8 ++
    [.sched 0 (.call (.stop true))] ++ turns 0 8

/-- The pool after `detachRun`. -/
def detachPool : CThreadPool :=
  { CThreadPool.init with
    isDone := true, flagged := [1], unjoinable := [1], enqueued := [0], taken := [0]
    invoked := [0], signalled := [1], doneSignalled := true }

/-- The task returns before the destructor does: the condition holds, and so does the promise. -/
theorem none_outlives_iff_detachRun :
    (∀ (b : ThreadId) (w : Worker),
      [Proc.client (.joinErase true), .worker (.testFlag 0)][b]? = some (.worker w) →
        b ∈ detachPool.flagged → w.clear = true) ∧
      ∀ ls u, Run step (fun s l => poolRun s l = true)
        ⟨detachPool, [.client .idle, .worker (.testFlag 0)]⟩ ls u → u.LeavesPool := by
  have hreach : Reachable step (fun s l => poolRun s l = true) State.IsInit
      ⟨detachPool, [.client (.joinErase true), .worker (.testFlag 0)]⟩ :=
    reachable_of_exec rfl (detachRun ++ [.sched 1 .ret]) (by decide)
  have hret : step ⟨detachPool, [.client (.joinErase true), .worker (.testFlag 0)]⟩
      (.sched 0 (.run none)) = some ⟨detachPool, [.client .idle, .worker (.testFlag 0)]⟩ := by
    decide
  have hclear : ∀ (b : ThreadId) (w : Worker),
      [Proc.client (.joinErase true), .worker (.testFlag 0)][b]? = some (.worker w) →
        b ∈ detachPool.flagged → w.clear = true := by
    intro b w hb _
    match b, hb with
    | 0, hb => cases hb
    | 1, hb =>
      cases hb
      rfl
  exact ⟨hclear, (none_outlives_iff hreach rfl hret).mpr hclear⟩

/-- The task is still running when the destructor has returned. -/
theorem not_none_outlives_detachRun :
    ¬ ∀ (s t : State) (a : ThreadId) (wake : Option ThreadId),
      Reachable step (fun s l => poolRun s l = true) State.IsInit s →
      s.procs[a]? = some (.client (.joinErase true)) → step s (.sched a (.run wake)) = some t →
      ∀ ls u, Run step (fun s l => poolRun s l = true) t ls u → u.LeavesPool := by
  intro h
  have hreach : Reachable step (fun s l => poolRun s l = true) State.IsInit
      ⟨detachPool, [.client (.joinErase true), .worker (.running 0 .idle)]⟩ :=
    reachable_of_exec rfl detachRun (by decide)
  have hret : step ⟨detachPool, [.client (.joinErase true), .worker (.running 0 .idle)]⟩
      (.sched 0 (.run none)) = some ⟨detachPool, [.client .idle, .worker (.running 0 .idle)]⟩ := by
    decide
  have hleaves := h _ _ 0 none hreach rfl hret [] _ Run.nil
  have hrunning := (hleaves 1 (.running 0 .idle) rfl).1
  cases hrunning

end PetProject.ThreadPool
