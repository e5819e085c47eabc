import PetProject.ThreadPool.Draining

/-!
# `stop(true)` finishes the work

The invariant `Draining` is kept by every step of the considered runs, field by field. When the
last join of `stop(true)` has returned, every worker has left its loop (`stopped_of_allJoined`), so
by `Draining.drains` nothing is queued, and the ledger of the wrappers (`Owned`) leaves no place
for a pushed wrapper but the deleted ones that a worker ran.
-/

set_option autoImplicit false

namespace PetProject.ThreadPool

open PetProject.Foundation.Tally PetProject.Foundation.Transition

/-! ## The invariant is kept -/

section Fields

variable {s : State} {a : ThreadId} {ch : Choice} {pr pr' : Proc} {p' : CThreadPool}
  {new : List Worker}

/-- When every listed thread is joined, nothing is queued and every worker is gone. -/
theorem stopped_of_allJoined (hs : Draining s) {b : ThreadId}
    (h : s.procs[b]? = some (.client (.joinClear true)) ∨
      s.procs[b]? = some (.client (.joinErase true))) : s.Stopped := by
  have hdone : s.pool.isDone = true := by
    rcases h with h | h <;> exact hs.setDone b _ h rfl
  rcases hs.listed with ⟨-, hst⟩ | hlisted
  · exact hst
  · -- every worker is listed, so it is joined, so it has left its loop
    have hexited : ∀ (d : ThreadId) (w : Worker), s.procs[d]? = some (.worker w) →
        w = .exited := by
      intro d w hw
      have hfin := hs.exited d (hs.allJoined b h (hlisted d w hw))
      rw [hw] at hfin
      cases hfin
      rfl
    refine ⟨?_, hexited⟩
    rcases hs.drains hdone with hq | ⟨d, w, hw, hpop⟩
    · exact hq
    · rw [hexited d w hw] at hpop
      cases hpop

theorem control_eq {p p' : CThreadPool} (h : p'.control = p.control) :
    p'.flagged = p.flagged ∧ p'.isStop = p.isStop ∧ p'.isDone = p.isDone ∧
      p'.threads = p.threads ∧ p'.unjoinable = p.unjoinable ∧ p'.handed = p.handed ∧
      p'.discarded = p.discarded := by
  simpa [CThreadPool.control] using h

/-- A step of `resize` in a considered run. -/
theorem grow_drain (hs : Draining s) {wake : Option ThreadId} {c c' : Call}
    (hpr : s.procs[a]? = some (.client c)) (hc : c.isGrow = true)
    (h : callStep a wake s.procs.length s.pool c = some (p', c', new)) :
    (c' = .idle ∨ c'.isGrow = true) ∧
      ((p' = s.pool ∧ new = [] ∧ (∀ n, c' = .resizeIsDone n → c = .resizeIsStop n) ∧
          (∀ n, c' ≠ .resizeIsStop n) ∧ (∀ n, c' = .resizeGrow n → s.pool.isDone = false)) ∨
        (c' = c ∧ new = [.start] ∧
          p' = { s.pool with threads := s.pool.threads ++ [s.procs.length] } ∧
          ∃ n, c = .resizeGrow n)) :=
  grow_step hc hs.unflagged.2 (fun n hn => hs.grows a n (Or.inr (by rw [hpr, hn]))) h

/-- The shared facts of one move: what it does to the parts of the pool that the invariant
mentions. -/
theorem drain_pool (hs : Draining s) (hpr : s.procs[a]? = some pr)
    (hmove : DrainMove s a pr p' pr' new) :
    (p'.flagged = [] ∧ p'.isStop = false) ∧ (p'.handed = [] ∧ p'.discarded = []) ∧
      s.pool.finished ⊆ p'.finished ∧
      ((p'.threads = s.pool.threads ∧ new = []) ∨
        (p'.threads = s.pool.threads ++ [s.procs.length] ∧ new = [.start] ∧
          ∃ n, pr = .client (.resizeGrow n) ∧ pr' = pr) ∨
        (p'.threads = [] ∧ new = [] ∧ pr = .client (.joinErase true) ∧ pr' = .client .idle)) ∧
      (p'.isDone = s.pool.isDone ∨ (pr = .client .waitSetDone ∧ p'.isDone = true)) := by
  obtain ⟨hflag, hstop⟩ := hs.unflagged
  obtain ⟨hhand, hdisc⟩ := hs.kept
  cases hmove with
  | call c hc =>
    exact ⟨⟨hflag, hstop⟩, ⟨hhand, hdisc⟩, fun _ hx => hx, Or.inl ⟨rfl, rfl⟩, Or.inl rfl⟩
  | push hc h =>
    obtain ⟨hnew, -, hctl, hfin⟩ := push_step hc h
    obtain ⟨h₁, h₂, h₃, h₄, -, h₆, h₇⟩ := control_eq hctl
    exact ⟨⟨h₁.trans hflag, h₂.trans hstop⟩, ⟨h₆.trans hhand, h₇.trans hdisc⟩,
      fun _ hx => hfin ▸ hx, Or.inl ⟨h₄, hnew⟩, Or.inl h₃⟩
  | @grow _ _ c c' _ hc h =>
    obtain ⟨-, ⟨rfl, hnew, -⟩ | ⟨heq, hnew, rfl, n, hn⟩⟩ := grow_drain hs hpr hc h
    · exact ⟨⟨hflag, hstop⟩, ⟨hhand, hdisc⟩, fun _ hx => hx, Or.inl ⟨rfl, hnew⟩, Or.inl rfl⟩
    · refine ⟨⟨hflag, hstop⟩, ⟨hhand, hdisc⟩, fun _ hx => hx, Or.inr (Or.inl ?_), Or.inl rfl⟩
      exact ⟨rfl, hnew, n, by rw [hn], by rw [heq]⟩
  | @wait _ _ c c' _ hc h =>
    obtain ⟨hnew, -, h₁, h₂, h₃, h₄, hnil, hne⟩ := wait_frame hc h
    obtain ⟨-, hthreads, hdone, -⟩ := wait_next hc hstop h
    have hdisc' : p'.discarded = s.pool.discarded := by
      by_cases hclear : c = .joinClear true
      · exact (hnil (stopped_of_allJoined hs (Or.inl (hclear ▸ hpr))).1).2
      · exact (hne hclear).2
    refine ⟨⟨h₁.trans hflag, h₂.trans hstop⟩, ⟨h₃.trans hhand, hdisc'.trans hdisc⟩,
      fun _ hx => h₄ ▸ hx, ?_, ?_⟩
    · rcases hthreads with heq | ⟨heq, rfl, rfl⟩
      · exact Or.inl ⟨heq, hnew⟩
      · exact Or.inr (Or.inr ⟨heq, hnew, rfl, rfl⟩)
    · rcases hdone with heq | ⟨rfl, heq⟩
      · exact Or.inl heq
      · exact Or.inr ⟨rfl, heq⟩
  | worker _ hctl hfin _ _ _ _ =>
    obtain ⟨h₁, h₂, h₃, h₄, -, h₆, h₇⟩ := control_eq hctl
    refine ⟨⟨h₁.trans hflag, h₂.trans hstop⟩, ⟨h₆.trans hhand, h₇.trans hdisc⟩, ?_,
      Or.inl ⟨h₄, rfl⟩, Or.inl h₃⟩
    rcases hfin with hfin | ⟨hfin, -⟩ <;> rw [hfin]
    · exact fun _ hx => hx
    · exact List.subset_cons_self _ _

theorem drain_tasks (hs : Draining s) (hpr : s.procs[a]? = some pr)
    (hmove : Move a s.procs.length s.pool ch pr p' pr' new) (hd : DrainMove s a pr p' pr' new)
    (b : ThreadId) (f : TaskId) (c : Call)
    (hq : (s.procs.set a pr' ++ new.map Proc.worker)[b]? = some (.worker (.running f c))) :
    c = .idle ∨ c.isPush = true := by
  rcases getElem?_move hpr hmove hq with ⟨-, heq⟩ | ⟨-, hold⟩ | ⟨-, heq⟩
  · cases hd with
    | worker _ _ _ _ _ _ hrun => exact hrun f c (Proc.worker.inj heq).symm
    | _ => cases heq
  · exact hs.tasks b f c hold
  · cases heq

theorem isPush_of_isGrow {c : Call} (h : c.isGrow = true) :
    c.isPush = false ∧ c.isWait = false := by
  cases c with
  | resizeIsStop | resizeIsDone | resizeGrow => exact ⟨rfl, rfl⟩
  | _ => cases h

theorem isPush_of_isWait {c : Call} (h : c.isWait = true) :
    c.isPush = false ∧ c.isGrow = false := by
  cases c with
  | pushQueue | pushLock | pushNotify | pushUnlock => cases h
  | resizeIsStop | resizeIsDone | resizeGrow => cases h
  | _ => exact ⟨rfl, rfl⟩

theorem isWait_of_isSet {c : Call} (h : c.isSet = true) : c.isWait = true := by
  cases c with
  | waitIsDone | waitIsStop | waitSetDone => rfl
  | _ => exact h

/-- Where an outside thread goes: a call goes on in its own class or returns. -/
theorem drain_class (hs : Draining s) (hpr : s.procs[a]? = some pr)
    (hd : DrainMove s a pr p' pr' new) {c : Call} (hc : pr' = .client c) :
    c = .idle ∨ c.isPush = true ∨ c.isGrow = true ∨ c.isWait = true := by
  cases hd with
  | call c' hcall =>
    cases hc
    rcases hcall with ⟨rfl, -⟩ | ⟨n, rfl, -⟩ | ⟨rfl, -⟩
    · exact Or.inr (Or.inl rfl)
    · exact Or.inr (Or.inr (Or.inl rfl))
    · exact Or.inr (Or.inr (Or.inr rfl))
  | push hpush h =>
    cases hc
    exact (push_step hpush h).2.1.imp_right Or.inl
  | grow hgrow h =>
    cases hc
    exact (grow_drain hs hpr hgrow h).1.imp_right fun hclass => Or.inr (Or.inl hclass)
  | wait hwait h =>
    cases hc
    exact (wait_frame hwait h).2.1.imp_right fun hclass => Or.inr (Or.inr hclass)
  | worker => cases hc

/-- A thread inside `stop(true)` has just called it, with the others idle, or was inside before. -/
theorem drain_wait (hs : Draining s) (hpr : s.procs[a]? = some pr)
    (hd : DrainMove s a pr p' pr' new) {c : Call} (hc : pr' = .client c) (hwait : c.isWait = true) :
    (c = .waitIsDone ∧ p' = s.pool ∧ (s.pool.isDone = true ∨ s.pool.threads ≠ []) ∧
        ∀ (b : ThreadId) (d : Call), s.procs[b]? = some (.client d) → d = .idle) ∨
      ∃ d wake, pr = .client d ∧ d.isWait = true ∧
        callStep a wake s.procs.length s.pool d = some (p', c, new) := by
  cases hd with
  | call c' hcall =>
    cases hc
    rcases hcall with ⟨rfl, -⟩ | ⟨n, rfl, -⟩ | ⟨rfl, hne, hidle⟩
    · cases hwait
    · cases hwait
    · exact Or.inl ⟨rfl, rfl, hne, hidle⟩
  | push hpush h =>
    cases hc
    rcases (push_step hpush h).2.1 with rfl | hpush'
    · cases hwait
    · rw [(isPush_of_isWait hwait).1] at hpush'
      cases hpush'
  | grow hgrow h =>
    cases hc
    rcases (grow_drain hs hpr hgrow h).1 with rfl | hgrow'
    · cases hwait
    · rw [(isPush_of_isWait hwait).2] at hgrow'
      cases hgrow'
  | wait hw h =>
    cases hc
    exact Or.inr ⟨_, _, rfl, hw, h⟩
  | worker => cases hc

/-- A thread inside `resize` has just called it, with the others idle or pushing, or was inside
before. -/
theorem drain_grow (hd : DrainMove s a pr p' pr' new) {c : Call} (hc : pr' = .client c)
    (hgrow : c.isGrow = true) :
    (∃ n, c = .resizeIsStop n ∧ p' = s.pool ∧ s.pool.threads.length ≤ n ∧
        ∀ (b : ThreadId) (d : Call), s.procs[b]? = some (.client d) →
          d = .idle ∨ d.isPush = true) ∨
      ∃ d wake, pr = .client d ∧ d.isGrow = true ∧
        callStep a wake s.procs.length s.pool d = some (p', c, new) := by
  cases hd with
  | call c' hcall =>
    cases hc
    rcases hcall with ⟨rfl, -⟩ | ⟨n, rfl, hn, huser⟩ | ⟨rfl, -⟩
    · cases hgrow
    · exact Or.inl ⟨n, rfl, rfl, hn, huser⟩
    · cases hgrow
  | push hpush h =>
    cases hc
    rcases (push_step hpush h).2.1 with rfl | hpush'
    · cases hgrow
    · rw [(isPush_of_isGrow hgrow).1] at hpush'
      cases hpush'
  | grow hg h =>
    cases hc
    exact Or.inr ⟨_, _, rfl, hg, h⟩
  | wait hw h =>
    cases hc
    rcases (wait_frame hw h).2.1 with rfl | hwait'
    · cases hgrow
    · rw [(isPush_of_isGrow hgrow).2] at hwait'
      cases hwait'
  | worker => cases hc

theorem drain_clients (hs : Draining s) (hpr : s.procs[a]? = some pr)
    (hmove : Move a s.procs.length s.pool ch pr p' pr' new) (hd : DrainMove s a pr p' pr' new)
    (b : ThreadId) (c : Call)
    (hq : (s.procs.set a pr' ++ new.map Proc.worker)[b]? = some (.client c)) :
    c = .idle ∨ c.isPush = true ∨ c.isGrow = true ∨ c.isWait = true := by
  rcases client_move hpr hmove hq with ⟨-, heq⟩ | ⟨-, hold⟩
  · exact drain_class hs hpr hd heq
  · exact hs.clients b c hold

/-- During `stop(true)` the others stay idle. -/
theorem drain_alone (hs : Draining s) (hpr : s.procs[a]? = some pr)
    (hmove : Move a s.procs.length s.pool ch pr p' pr' new) (hd : DrainMove s a pr p' pr' new)
    (x y : ThreadId) (c d : Call)
    (hx : (s.procs.set a pr' ++ new.map Proc.worker)[x]? = some (.client c))
    (hy : (s.procs.set a pr' ++ new.map Proc.worker)[y]? = some (.client d)) (hne : y ≠ x)
    (hc : c.isWait = true) : d = .idle := by
  rcases client_move hpr hmove hx with ⟨rfl, hx'⟩ | ⟨hxa, hx'⟩
  · -- the moving thread is the one in `stop(true)`
    rcases client_move hpr hmove hy with ⟨rfl, -⟩ | ⟨hya, hy'⟩
    · exact absurd rfl hne
    · rcases drain_wait hs hpr hd hx' hc with ⟨-, -, -, hidle⟩ | ⟨e, wake, rfl, hwait, -⟩
      · exact hidle y d hy'
      · exact hs.alone _ y e d hpr hy' hya hwait
  · rcases client_move hpr hmove hy with ⟨rfl, hy'⟩ | ⟨hya, hy'⟩
    · -- another thread moves: it was idle, and no call may begin
      cases hd with
      | call c' hcall =>
        rcases hcall with ⟨-, -, hnone⟩ | ⟨n, -, -, huser⟩ | ⟨-, -, hidle⟩
        · rw [hnone x c hx'] at hc
          cases hc
        · rcases huser x c hx' with rfl | hpush
          · cases hc
          · rw [(isPush_of_isWait hc).1] at hpush
            cases hpush
        · rw [hidle x c hx'] at hc
          cases hc
      | push hpush h =>
        rw [hs.alone x _ c _ hx' hpr (Ne.symm hxa) hc] at hpush
        cases hpush
      | grow hgrow h =>
        rw [hs.alone x _ c _ hx' hpr (Ne.symm hxa) hc] at hgrow
        cases hgrow
      | wait hwait h =>
        rw [hs.alone x _ c _ hx' hpr (Ne.symm hxa) hc] at hwait
        cases hwait
      | worker => cases hy'
    · exact hs.alone x y c d hx' hy' hne hc

/-- At most one `resize` is in progress. -/
theorem drain_aloneGrow (hs : Draining s) (hpr : s.procs[a]? = some pr)
    (hmove : Move a s.procs.length s.pool ch pr p' pr' new) (hd : DrainMove s a pr p' pr' new)
    (x y : ThreadId) (c d : Call)
    (hx : (s.procs.set a pr' ++ new.map Proc.worker)[x]? = some (.client c))
    (hy : (s.procs.set a pr' ++ new.map Proc.worker)[y]? = some (.client d)) (hne : y ≠ x)
    (hc : c.isGrow = true) : d.isGrow = false := by
  by_contra hdg
  rw [Bool.not_eq_false] at hdg
  -- one of the two is the moving thread, or both were there before
  have key : ∀ (z : ThreadId) (e e' : Call), s.procs[z]? = some (.client e) → z ≠ a →
      e.isGrow = true → pr' = .client e' → e'.isGrow = true → False := by
    intro z e e' hz hza he hpr' he'
    rcases drain_grow hd hpr' he' with ⟨n, -, -, -, huser⟩ | ⟨d', wake, rfl, hgrow, -⟩
    · rcases huser z e hz with rfl | hpush
      · cases he
      · rw [(isPush_of_isGrow he).1] at hpush
        cases hpush
    · rw [hs.aloneGrow z a e d' hz hpr (Ne.symm hza) he] at hgrow
      cases hgrow
  rcases client_move hpr hmove hx with ⟨rfl, hx'⟩ | ⟨hxa, hx'⟩
  · rcases client_move hpr hmove hy with ⟨rfl, -⟩ | ⟨hya, hy'⟩
    · exact absurd rfl hne
    · exact key y d c hy' hya hdg hx' hc
  · rcases client_move hpr hmove hy with ⟨rfl, hy'⟩ | ⟨hya, hy'⟩
    · exact key x c d hx' hxa hc hy' hdg
    · rw [hs.aloneGrow x y c d hx' hy' hne hc] at hdg
      cases hdg

/-- The worker that has finished stays, and a worker finishes when it leaves its loop. -/
theorem drain_exited (hs : Draining s) (hpr : s.procs[a]? = some pr)
    (hd : DrainMove s a pr p' pr' new) (b : ThreadId) (hb : b ∈ p'.finished) :
    (s.procs.set a pr' ++ new.map Proc.worker)[b]? = some (.worker .exited) := by
  -- a worker that has finished does not move
  have hold : b ∈ s.pool.finished → pr ≠ .worker .exited →
      (s.procs.set a pr' ++ new.map Proc.worker)[b]? = some (.worker .exited) := by
    intro hmem hne
    have hex := hs.exited b hmem
    have hba : b ≠ a := by
      rintro rfl
      rw [hpr] at hex
      exact hne (Option.some.inj hex)
    exact getElem?_move_ne hba hex pr' new
  cases hd with
  | call c hc => exact hold hb nofun
  | push hc h => exact hold ((push_step hc h).2.2.2 ▸ hb) nofun
  | grow hc h =>
    obtain ⟨-, ⟨rfl, -⟩ | ⟨-, -, rfl, -⟩⟩ := grow_drain hs hpr hc h
    · exact hold hb nofun
    · exact hold hb nofun
  | wait hc h => exact hold ((wait_frame hc h).2.2.2.2.2.1 ▸ hb) nofun
  | worker hne hctl hfin _ _ _ _ =>
    have hne' : Proc.worker _ ≠ .worker .exited := fun h => hne (Proc.worker.inj h)
    rcases hfin with hfin | ⟨hfin, hex⟩
    · exact hold (hfin ▸ hb) hne'
    · rw [hfin, List.mem_cons] at hb
      rcases hb with rfl | hb
      · rw [← hex]
        exact getElem?_move_self hpr _ _
      · exact hold hb hne'

/-- `isDone` is never reset. -/
theorem drain_isDone (hs : Draining s) (hpr : s.procs[a]? = some pr)
    (hd : DrainMove s a pr p' pr' new) (h : s.pool.isDone = true) : p'.isDone = true := by
  obtain ⟨-, -, -, -, hdone | ⟨-, hdone⟩⟩ := drain_pool hs hpr hd
  · exact hdone.trans h
  · exact hdone

/-- An unmoved thread inside `stop(true)`: only workers move, or idle threads begin nothing. -/
theorem drain_other (hs : Draining s) (hpr : s.procs[a]? = some pr)
    (hd : DrainMove s a pr p' pr' new) {b : ThreadId} {c : Call} (hba : b ≠ a)
    (hb : s.procs[b]? = some (.client c)) (hc : c.isWait = true) :
    p'.threads = s.pool.threads := by
  obtain ⟨-, -, -, ⟨hthreads, -⟩ | ⟨-, -, n, hgrow, -⟩ | ⟨-, -, herase, -⟩, -⟩ :=
    drain_pool hs hpr hd
  · exact hthreads
  · subst hgrow
    exact nomatch hs.alone b a c _ hb hpr (Ne.symm hba) hc
  · subst herase
    exact nomatch hs.alone b a c _ hb hpr (Ne.symm hba) hc

/-- Once the workers are gone and nothing is queued, this remains so. -/
theorem drain_stopped (hs : Draining s) (hpr : s.procs[a]? = some pr)
    (hmove : Move a s.procs.length s.pool ch pr p' pr' new) (hd : DrainMove s a pr p' pr' new)
    (hdone : s.pool.isDone = true) (hst : s.Stopped) :
    State.Stopped ⟨p', s.procs.set a pr' ++ new.map Proc.worker⟩ := by
  obtain ⟨hq, hgone⟩ := hst
  -- the moving thread is not a worker, and it neither pushes nor starts one
  have key : p'.queue = [] ∧ new = [] ∧ ∃ c, pr' = .client c := by
    cases hd with
    | call c hc => exact ⟨hq, rfl, c, rfl⟩
    | push hc h =>
      rw [(hs.closed hdone a _ hpr).1] at hc
      cases hc
    | grow hc h =>
      obtain ⟨-, ⟨rfl, hnew, -⟩ | ⟨-, -, -, n, hn⟩⟩ := grow_drain hs hpr hc h
      · exact ⟨hq, hnew, _, rfl⟩
      · exact absurd hn ((hs.closed hdone a _ hpr).2 n)
    | wait hc h =>
      obtain ⟨hnew, -, -, -, -, -, hnil, -⟩ := wait_frame hc h
      exact ⟨(hnil hq).1, hnew, _, rfl⟩
    | worker hne => exact absurd (hgone a _ hpr) hne
  obtain ⟨hq', rfl, c, rfl⟩ := key
  refine ⟨hq', fun b w hb => ?_⟩
  rcases getElem?_move hpr hmove hb with ⟨-, heq⟩ | ⟨-, hold⟩ | ⟨hlen, -⟩
  · cases heq
  · exact hgone b w hold
  · simp [hlen] at hb

theorem drain_grows (hs : Draining s) (hpr : s.procs[a]? = some pr)
    (hmove : Move a s.procs.length s.pool ch pr p' pr' new) (hd : DrainMove s a pr p' pr' new)
    (b : ThreadId) (n : Nat)
    (hq : (s.procs.set a pr' ++ new.map Proc.worker)[b]? = some (.client (.resizeIsStop n)) ∨
      (s.procs.set a pr' ++ new.map Proc.worker)[b]? = some (.client (.resizeIsDone n))) :
    p'.threads.length ≤ n := by
  have key : ∀ c : Call, c = .resizeIsStop n ∨ c = .resizeIsDone n →
      (s.procs.set a pr' ++ new.map Proc.worker)[b]? = some (.client c) →
      p'.threads.length ≤ n := by
    intro c hc hb
    -- the size is checked when the call begins and grows only in the loop of this `resize`
    have hgrow : c.isGrow = true := by rcases hc with rfl | rfl <;> rfl
    rcases client_move hpr hmove hb with ⟨rfl, heq⟩ | ⟨hba, hold⟩
    · rcases drain_grow hd heq hgrow with ⟨m, rfl, rfl, hm, -⟩ | ⟨d, wake, rfl, hgr, h⟩
      · rcases hc with hc | hc <;> cases hc
        exact hm
      · obtain ⟨-, ⟨rfl, -, hfrom, hnot, -⟩ | ⟨heq', -, -, m, hm⟩⟩ := grow_drain hs hpr hgr h
        · rcases hc with rfl | rfl
          · exact absurd rfl (hnot n)
          · exact hs.grows b n (Or.inl (hfrom n rfl ▸ hpr))
        · rcases hc with hc | hc <;> rw [← heq', hc] at hm <;> cases hm
    · have hle : s.pool.threads.length ≤ n := by
        rcases hc with rfl | rfl
        · exact hs.grows b n (Or.inl hold)
        · exact hs.grows b n (Or.inr hold)
      obtain ⟨-, -, -, ⟨hthreads, -⟩ | ⟨-, -, m, rfl, -⟩ | ⟨hthreads, -⟩, -⟩ :=
        drain_pool hs hpr hd
      · rw [hthreads]
        exact hle
      · exact nomatch hs.aloneGrow b a c _ hold hpr (Ne.symm hba) hgrow
      · simp [hthreads]
  rcases hq with hq | hq
  · exact key _ (Or.inl rfl) hq
  · exact key _ (Or.inr rfl) hq

/-- What the join loop of a thread has passed. -/
theorem passed (hs : Draining s) {b : ThreadId} {c : Call}
    (hb : s.procs[b]? = some (.client c)) :
    (∀ i, c = .join true i → s.pool.threads.take i ⊆ s.pool.finished) ∧
      (c = .joinClear true ∨ c = .joinErase true → s.pool.threads ⊆ s.pool.finished) := by
  refine ⟨fun i hi => hs.joining b i (hi ▸ hb), fun hc => hs.allJoined b ?_⟩
  rcases hc with rfl | rfl
  · exact Or.inl hb
  · exact Or.inr hb

theorem drain_joined (hs : Draining s) (hpr : s.procs[a]? = some pr)
    (hd : DrainMove s a pr p' pr' new) : p'.unjoinable ⊆ p'.finished := by
  obtain ⟨-, -, hfin, -, -⟩ := drain_pool hs hpr hd
  have hkeep : p'.unjoinable = s.pool.unjoinable → p'.unjoinable ⊆ p'.finished := by
    intro heq
    rw [heq]
    exact List.Subset.trans hs.joined hfin
  cases hd with
  | call c hc => exact hs.joined
  | push hc h => exact hkeep (control_eq (push_step hc h).2.2.1).2.2.2.2.1
  | grow hc h =>
    obtain ⟨-, ⟨rfl, -⟩ | ⟨-, -, rfl, -⟩⟩ := grow_drain hs hpr hc h
    · exact hs.joined
    · exact hs.joined
  | wait hc h =>
    have hjoin := wait_join hs.joined hc (passed hs hpr).1 (passed hs hpr).2 h
    exact List.Subset.trans hjoin.1 hfin
  | worker _ hctl => exact hkeep (control_eq hctl).2.2.2.2.1

/-- What the join loop has passed, after a step. -/
theorem drain_join (hs : Draining s) (hpr : s.procs[a]? = some pr)
    (hmove : Move a s.procs.length s.pool ch pr p' pr' new) (hd : DrainMove s a pr p' pr' new)
    {b : ThreadId} {c : Call} (hwait : c.isWait = true)
    (hq : (s.procs.set a pr' ++ new.map Proc.worker)[b]? = some (.client c)) :
    (∀ i, c = .join true i → p'.threads.take i ⊆ p'.finished) ∧
      (c = .joinClear true ∨ c = .joinErase true → p'.threads ⊆ p'.finished) := by
  have hfin := (drain_pool hs hpr hd).2.2.1
  rcases client_move hpr hmove hq with ⟨rfl, heq⟩ | ⟨hba, hold⟩
  · rcases drain_wait hs hpr hd heq hwait with ⟨rfl, -⟩ | ⟨d, wake, rfl, hdw, h⟩
    · exact ⟨nofun, nofun⟩
    · obtain ⟨-, hjoining, hall⟩ :=
        wait_join hs.joined hdw (passed hs hpr).1 (passed hs hpr).2 h
      obtain ⟨-, hthreads | ⟨-, -, rfl⟩, -⟩ := wait_next hdw hs.unflagged.2 h
      · rw [hthreads]
        exact ⟨fun i hi => List.Subset.trans (hjoining i hi) hfin,
          fun hc => List.Subset.trans (hall hc) hfin⟩
      · cases hwait
  · rw [drain_other hs hpr hd hba hold hwait]
    obtain ⟨hjoining, hall⟩ := passed hs hold
    exact ⟨fun i hi => List.Subset.trans (hjoining i hi) hfin,
      fun hc => List.Subset.trans (hall hc) hfin⟩

theorem drain_staying (hs : Draining s) (hpr : s.procs[a]? = some pr)
    (hmove : Move a s.procs.length s.pool ch pr p' pr' new) (hd : DrainMove s a pr p' pr' new)
    (hdone : p'.isDone = false) (b : ThreadId) (w : Worker)
    (hq : (s.procs.set a pr' ++ new.map Proc.worker)[b]? = some (.worker w)) :
    w.gone = false := by
  -- a worker leaves its loop only after it has read `isDone`, which is not set yet
  have hbefore : s.pool.isDone = false := by
    cases hcase : s.pool.isDone with
    | false => rfl
    | true =>
      rw [drain_isDone hs hpr hd hcase] at hdone
      cases hdone
  rcases getElem?_move hpr hmove hq with ⟨rfl, heq⟩ | ⟨-, hold⟩ | ⟨-, heq⟩
  · cases hd with
    | worker _ _ _ hgone _ _ _ =>
      cases heq
      cases hw : w.gone with
      | false => rfl
      | true =>
        rcases hgone hw with h | h
        · rw [hs.staying hbefore b _ hpr] at h
          cases h
        · rw [hbefore] at h
          cases h
    | _ => cases heq
  · exact hs.staying hbefore b w hold
  · cases heq
    rfl

/-- The only way to set `isDone`: `stop(true)`, with every other outside thread idle. -/
theorem drain_setDone_of (hs : Draining s) (hpr : s.procs[a]? = some pr)
    (hd : DrainMove s a pr p' pr' new) (hbefore : s.pool.isDone = false)
    (hdone : p'.isDone = true) :
    pr = .client .waitSetDone ∧ new = [] ∧ p'.queue = s.pool.queue ∧
      ∃ c, pr' = .client c ∧ c.isSet = true := by
  obtain ⟨-, -, -, -, heq | ⟨rfl, -⟩⟩ := drain_pool hs hpr hd
  · rw [heq, hbefore] at hdone
    cases hdone
  · cases hd with
    | push hc => cases hc
    | grow hc => cases hc
    | wait hc h =>
      obtain ⟨hnew, -, -, -, -, -, -, hqueue⟩ := wait_frame hc h
      obtain ⟨-, -, -, -, -, hset⟩ := wait_next hc hs.unflagged.2 h
      exact ⟨rfl, hnew, (hqueue nofun).1, _, rfl, hset rfl⟩

theorem drain_closed (hs : Draining s) (hpr : s.procs[a]? = some pr)
    (hmove : Move a s.procs.length s.pool ch pr p' pr' new) (hd : DrainMove s a pr p' pr' new)
    (hdone : p'.isDone = true) (b : ThreadId) (c : Call)
    (hq : (s.procs.set a pr' ++ new.map Proc.worker)[b]? = some (.client c)) :
    c.isPush = false ∧ ∀ n, c ≠ .resizeGrow n := by
  have hwait : c.isWait = true → c.isPush = false ∧ ∀ n, c ≠ .resizeGrow n := by
    intro hc
    refine ⟨(isPush_of_isWait hc).1, ?_⟩
    rintro n rfl
    cases hc
  cases hbefore : s.pool.isDone with
  | false =>
    -- the step sets `isDone`: the mover is in `stop(true)` and the others are idle
    obtain ⟨rfl, -, -, d, rfl, hset⟩ := drain_setDone_of hs hpr hd hbefore hdone
    rcases client_move hpr hmove hq with ⟨-, heq⟩ | ⟨hba, hold⟩
    · cases heq
      exact hwait (isWait_of_isSet hset)
    · have hidle := hs.alone a b _ c hpr hold hba rfl
      subst hidle
      exact ⟨rfl, nofun⟩
  | true =>
    rcases client_move hpr hmove hq with ⟨rfl, heq⟩ | ⟨-, hold⟩
    · cases hd with
      | call c' hcall =>
        cases heq
        rcases hcall with ⟨-, hfalse, -⟩ | ⟨n, rfl, -⟩ | ⟨rfl, -⟩
        · rw [hbefore] at hfalse
          cases hfalse
        · exact ⟨rfl, nofun⟩
        · exact ⟨rfl, nofun⟩
      | push hpush h =>
        rw [(hs.closed hbefore b _ hpr).1] at hpush
        cases hpush
      | grow hgrow h =>
        cases heq
        obtain ⟨hclass, ⟨-, -, -, -, hgr⟩ | ⟨-, -, -, n, hn⟩⟩ := grow_drain hs hpr hgrow h
        · refine ⟨?_, fun n hn => ?_⟩
          · rcases hclass with rfl | hclass
            · rfl
            · exact (isPush_of_isGrow hclass).1
          · rw [hgr n hn] at hbefore
            cases hbefore
        · exact absurd hn ((hs.closed hbefore b _ hpr).2 n)
      | wait hw h =>
        cases heq
        rcases (wait_frame hw h).2.1 with rfl | hclass
        · exact ⟨rfl, nofun⟩
        · exact hwait hclass
      | worker => cases heq
    · exact hs.closed hbefore b c hold

/-- When `stop(true)` sets `isDone`, a queued wrapper has a worker that is going to pop: otherwise
all workers stand behind the pop of the predicate, no push is pending, and the queue is empty. -/
theorem willPop_of_setDone (hs : Draining s) (hbal : Balanced s)
    (hpr : s.procs[a]? = some (.client .waitSetDone)) (hbefore : s.pool.isDone = false) :
    s.pool.queue = [] ∨
      ∃ (b : ThreadId) (w : Worker), s.procs[b]? = some (.worker w) ∧ w.willPop = true := by
  by_contra hcon
  obtain ⟨hq, hnone⟩ := not_or.mp hcon
  -- a worker that stays and is not going to pop stands at `predDone`
  have hall : ∀ (b : ThreadId) (w : Worker), s.procs[b]? = some (.worker w) → w = .predDone := by
    intro b w hb
    have hstay := hs.staying hbefore b w hb
    by_contra hne
    exact hnone ⟨b, w, hb, willPop_of_not_gone hne hstay⟩
  -- no push is pending, since the outside threads are idle and no task runs
  have hzero : tally (weigh Proc.pending) s.procs = 0 ∧
      tally (weigh Proc.inWait) s.procs = 0 := by
    constructor
    all_goals
      refine (tally_eq_zero_iff _ _).mpr fun pr hmem => ?_
      obtain ⟨b, hb⟩ := List.mem_iff_getElem?.mp hmem
      cases pr with
      | worker w =>
        rw [hall b w hb]
        rfl
      | client c =>
        by_cases hba : b = a
        · rw [hba, hpr] at hb
          cases hb
          rfl
        · rw [hs.alone a b _ c hpr hb hba rfl]
          rfl
  -- the pool has a worker, and its position settles the state
  obtain ⟨b, hb⟩ : ∃ b, b ∈ s.pool.threads := by
    rcases hs.nonempty a _ hpr rfl with h | h
    · rw [hbefore] at h
      cases h
    · exact List.exists_mem_of_ne_nil _ h
  obtain ⟨w, hw⟩ := hs.workers b hb
  have hle := hbal (Or.inr ⟨b, _, hw, by rw [hall b w hw]; rfl⟩)
  have := List.length_pos_iff.mpr hq
  omega

theorem drain_drains (hs : Draining s) (hbal : Balanced s) (hpr : s.procs[a]? = some pr)
    (hd : DrainMove s a pr p' pr' new) (hdone : p'.isDone = true) :
    p'.queue = [] ∨ ∃ (b : ThreadId) (w : Worker),
      (s.procs.set a pr' ++ new.map Proc.worker)[b]? = some (.worker w) ∧ w.willPop = true := by
  have hkeep : (∃ c, pr = .client c) →
      (∃ (b : ThreadId) (w : Worker), s.procs[b]? = some (.worker w) ∧ w.willPop = true) →
      ∃ (b : ThreadId) (w : Worker),
        (s.procs.set a pr' ++ new.map Proc.worker)[b]? = some (.worker w) ∧
          w.willPop = true := by
    rintro ⟨c, rfl⟩ ⟨b, w, hb, hw⟩
    have hba : b ≠ a := by
      rintro rfl
      rw [hpr] at hb
      cases hb
    exact ⟨b, w, getElem?_move_ne hba hb pr' new, hw⟩
  -- `isDone` is set by this step, or the invariant speaks of the state before it
  cases hbefore : s.pool.isDone with
  | false =>
    obtain ⟨rfl, -, hqueue, -⟩ := drain_setDone_of hs hpr hd hbefore hdone
    rw [hqueue]
    exact (willPop_of_setDone hs hbal hpr hbefore).imp_right (hkeep ⟨_, rfl⟩)
  | true =>
    have hold := hs.drains hbefore
    cases hd with
    | call c hc => exact hold.imp_right (hkeep ⟨_, rfl⟩)
    | push hc h =>
      rw [(hs.closed hbefore a _ hpr).1] at hc
      cases hc
    | grow hc h =>
      obtain ⟨-, ⟨rfl, -⟩ | ⟨-, -, -, n, hn⟩⟩ := grow_drain hs hpr hc h
      · exact hold.imp_right (hkeep ⟨_, rfl⟩)
      · exact absurd hn ((hs.closed hbefore a _ hpr).2 n)
    | wait hc h =>
      refine hold.imp (fun hq => ?_) (hkeep ⟨_, rfl⟩)
      exact ((wait_frame hc h).2.2.2.2.2.2.1 hq).1
    | @worker w w' _ _ _ _ _ hpop hqueue _ =>
      -- the mover pops again, or the queue was not empty and somebody else does
      rcases hqueue with hq | hw' | hne
      · exact Or.inl hq
      · exact Or.inr ⟨a, w', getElem?_move_self hpr _ _, hw'⟩
      · rcases hold with hq | ⟨b, v, hb, hv⟩
        · exact absurd hq hne
        · by_cases hba : b = a
          · rw [hba, hpr] at hb
            cases hb
            rcases hpop hv with hw' | hq
            · exact Or.inr ⟨a, w', getElem?_move_self hpr _ _, hw'⟩
            · exact Or.inl hq
          · exact Or.inr ⟨b, v, getElem?_move_ne hba hb _ _, hv⟩

theorem drain_listed (hs : Draining s) (hpr : s.procs[a]? = some pr)
    (hmove : Move a s.procs.length s.pool ch pr p' pr' new) (hd : DrainMove s a pr p' pr' new) :
    (p'.isDone = true ∧ State.Stopped ⟨p', s.procs.set a pr' ++ new.map Proc.worker⟩) ∨
      ∀ (b : ThreadId) (w : Worker),
        (s.procs.set a pr' ++ new.map Proc.worker)[b]? = some (.worker w) → b ∈ p'.threads := by
  -- the list of threads is cleared by the last section of `stop(true)` only
  rcases hs.listed with ⟨hdone, hst⟩ | hlisted
  · exact Or.inl ⟨drain_isDone hs hpr hd hdone, drain_stopped hs hpr hmove hd hdone hst⟩
  obtain ⟨-, -, -, ⟨hthreads, rfl⟩ | ⟨hthreads, rfl, n, rfl, rfl⟩ | ⟨-, -, rfl, -⟩, -⟩ :=
    drain_pool hs hpr hd
  · refine Or.inr fun b w hb => ?_
    rw [hthreads]
    rcases getElem?_move hpr hmove hb with ⟨rfl, heq⟩ | ⟨-, hold⟩ | ⟨hlen, -⟩
    · cases hd with
      | worker => exact hlisted b _ hpr
      | _ => cases heq
    · exact hlisted b w hold
    · simp [hlen] at hb
  · refine Or.inr fun b w hb => ?_
    rw [hthreads, List.mem_append]
    rcases getElem?_move hpr hmove hb with ⟨rfl, heq⟩ | ⟨-, hold⟩ | ⟨hlen, -⟩
    · cases heq
    · exact Or.inl (hlisted b w hold)
    · exact Or.inr (List.mem_singleton.mpr hlen)
  · have hdone := hs.setDone a _ hpr rfl
    exact Or.inl ⟨drain_isDone hs hpr hd hdone,
      drain_stopped hs hpr hmove hd hdone (stopped_of_allJoined hs (Or.inr hpr))⟩

theorem drain_workers (hs : Draining s) (hpr : s.procs[a]? = some pr)
    (hd : DrainMove s a pr p' pr' new) (b : ThreadId) (hb : b ∈ p'.threads) :
    ∃ w, (s.procs.set a pr' ++ new.map Proc.worker)[b]? = some (.worker w) := by
  have hold : b ∈ s.pool.threads →
      ∃ w, (s.procs.set a pr' ++ new.map Proc.worker)[b]? = some (.worker w) := by
    intro hmem
    obtain ⟨w, hw⟩ := hs.workers b hmem
    by_cases hba : b = a
    · subst hba
      rw [hpr] at hw
      cases hw
      cases hd with
      | worker => exact ⟨_, getElem?_move_self hpr _ _⟩
    · exact ⟨w, getElem?_move_ne hba hw pr' new⟩
  obtain ⟨-, -, -, ⟨hthreads, -⟩ | ⟨hthreads, rfl, -⟩ | ⟨hthreads, -⟩, -⟩ := drain_pool hs hpr hd
  · exact hold (hthreads ▸ hb)
  · rw [hthreads, List.mem_append, List.mem_singleton] at hb
    rcases hb with hb | rfl
    · exact hold hb
    · exact ⟨.start, by simp⟩
  · rw [hthreads] at hb
    cases hb

theorem drain_nonempty (hs : Draining s) (hpr : s.procs[a]? = some pr)
    (hmove : Move a s.procs.length s.pool ch pr p' pr' new) (hd : DrainMove s a pr p' pr' new)
    (b : ThreadId) (c : Call)
    (hq : (s.procs.set a pr' ++ new.map Proc.worker)[b]? = some (.client c))
    (hc : c.isWait = true) : p'.isDone = true ∨ p'.threads ≠ [] := by
  have hkeep : s.pool.isDone = true ∨ s.pool.threads ≠ [] → p'.threads = s.pool.threads →
      p'.isDone = true ∨ p'.threads ≠ [] := by
    intro hne hthreads
    rw [hthreads]
    exact hne.imp_left (drain_isDone hs hpr hd)
  rcases client_move hpr hmove hq with ⟨rfl, heq⟩ | ⟨hba, hold⟩
  · rcases drain_wait hs hpr hd heq hc with ⟨-, rfl, hne, -⟩ | ⟨d, wake, rfl, hdw, h⟩
    · exact hne
    · obtain ⟨-, hthreads | ⟨-, -, rfl⟩, -⟩ := wait_next hdw hs.unflagged.2 h
      · exact hkeep (hs.nonempty b d hpr hdw) hthreads
      · cases hc
  · exact hkeep (hs.nonempty b c hold hc) (drain_other hs hpr hd hba hold hc)

theorem drain_setDone (hs : Draining s) (hpr : s.procs[a]? = some pr)
    (hmove : Move a s.procs.length s.pool ch pr p' pr' new) (hd : DrainMove s a pr p' pr' new)
    (b : ThreadId) (c : Call)
    (hq : (s.procs.set a pr' ++ new.map Proc.worker)[b]? = some (.client c))
    (hc : c.isSet = true) : p'.isDone = true := by
  rcases client_move hpr hmove hq with ⟨rfl, heq⟩ | ⟨-, hold⟩
  · rcases drain_wait hs hpr hd heq (isWait_of_isSet hc) with ⟨rfl, -⟩ | ⟨d, wake, rfl, hdw, h⟩
    · cases hc
    · obtain ⟨-, -, -, hset, -⟩ := wait_next hdw hs.unflagged.2 h
      rcases hset hc with hdset | hdone
      · exact drain_isDone hs hpr hd (hs.setDone b d hpr hdset)
      · exact hdone
  · exact drain_isDone hs hpr hd (hs.setDone b c hold hc)

theorem drain_set (hs : Draining s) (hpr : s.procs[a]? = some pr)
    (hmove : Move a s.procs.length s.pool ch pr p' pr' new) (hd : DrainMove s a pr p' pr' new)
    (hdone : p'.isDone = true) :
    State.Stopped ⟨p', s.procs.set a pr' ++ new.map Proc.worker⟩ ∨
      ∃ (b : ThreadId) (c : Call),
        (s.procs.set a pr' ++ new.map Proc.worker)[b]? = some (.client c) ∧ c.isSet = true := by
  cases hbefore : s.pool.isDone with
  | false =>
    obtain ⟨-, -, -, c, rfl, hset⟩ := drain_setDone_of hs hpr hd hbefore hdone
    exact Or.inr ⟨a, c, getElem?_move_self hpr _ _, hset⟩
  | true =>
    rcases hs.set hbefore with hst | ⟨b, c, hb, hc⟩
    · exact Or.inl (drain_stopped hs hpr hmove hd hbefore hst)
    · by_cases hba : b = a
      · rw [hba, hpr] at hb
        cases hb
        have hwait := isWait_of_isSet hc
        cases hd with
        | call => cases hc
        | push hpush h =>
          rw [(isPush_of_isWait hwait).1] at hpush
          cases hpush
        | grow hgrow h =>
          rw [(isPush_of_isWait hwait).2] at hgrow
          cases hgrow
        | wait hw h =>
          obtain ⟨-, -, -, -, hset, -⟩ := wait_next hw hs.unflagged.2 h
          rcases hset hc with hc' | rfl
          · exact Or.inr ⟨a, _, getElem?_move_self hpr _ _, hc'⟩
          · -- the last section of `stop(true)`: everything was joined
            exact Or.inl (drain_stopped hs hpr hmove (DrainMove.wait hw h) hbefore
              (stopped_of_allJoined hs (Or.inr hpr)))
      · exact Or.inr ⟨b, c, getElem?_move_ne hba hb pr' new, hc⟩

theorem draining_move (hs : Draining s) (hbal : Balanced s) (hpr : s.procs[a]? = some pr)
    (hmove : Move a s.procs.length s.pool ch pr p' pr' new) (hd : DrainMove s a pr p' pr' new) :
    Draining ⟨p', s.procs.set a pr' ++ new.map Proc.worker⟩ where
  unflagged := (drain_pool hs hpr hd).1
  kept := (drain_pool hs hpr hd).2.1
  tasks := drain_tasks hs hpr hmove hd
  clients := drain_clients hs hpr hmove hd
  grows := drain_grows hs hpr hmove hd
  alone := drain_alone hs hpr hmove hd
  aloneGrow := drain_aloneGrow hs hpr hmove hd
  exited := drain_exited hs hpr hd
  joined := drain_joined hs hpr hd
  joining b i hb := (drain_join hs hpr hmove hd rfl hb).1 i rfl
  allJoined b hb := by
    rcases hb with hb | hb
    · exact (drain_join hs hpr hmove hd rfl hb).2 (Or.inl rfl)
    · exact (drain_join hs hpr hmove hd rfl hb).2 (Or.inr rfl)
  staying := drain_staying hs hpr hmove hd
  closed := drain_closed hs hpr hmove hd
  drains := drain_drains hs hbal hpr hd
  listed := drain_listed hs hpr hmove hd
  workers := drain_workers hs hpr hd
  nonempty := drain_nonempty hs hpr hmove hd
  set := drain_set hs hpr hmove hd
  setDone := drain_setDone hs hpr hmove hd

end Fields

/-- Waking sleepers changes nothing that the invariant mentions. -/
theorem draining_wake {s : State} (hs : Draining s) (sleepers : List ThreadId) :
    Draining { s with pool := { s.pool with sleepers := sleepers } } where
  unflagged := hs.unflagged
  kept := hs.kept
  tasks := hs.tasks
  clients := hs.clients
  grows := hs.grows
  alone := hs.alone
  aloneGrow := hs.aloneGrow
  exited := hs.exited
  joined := hs.joined
  joining := hs.joining
  allJoined := hs.allJoined
  staying := hs.staying
  closed := hs.closed
  drains := hs.drains
  listed := hs.listed
  workers := hs.workers
  nonempty := hs.nonempty
  set := hs.set
  setDone := hs.setDone

section Arrive

variable {s : State}

theorem arrive_stopped (hst : s.Stopped) :
    State.Stopped { s with procs := s.procs ++ [.client .idle] } :=
  ⟨hst.1, fun d w hd => hst.2 d w (arrive_worker hd)⟩

theorem draining_arrive (hs : Draining s) :
    Draining { s with procs := s.procs ++ [.client .idle] } where
  unflagged := hs.unflagged
  kept := hs.kept
  tasks a f c ha := hs.tasks a f c (arrive_worker ha)
  clients a c ha := (arrive_client ha).elim (hs.clients a c) Or.inl
  grows a n ha := hs.grows a n
    (ha.imp (fun h => (arrive_client h).resolve_right nofun)
      fun h => (arrive_client h).resolve_right nofun)
  alone x y c d hx hy hne hc := by
    rcases arrive_client hx with hx' | rfl
    · rcases arrive_client hy with hy' | rfl
      · exact hs.alone x y c d hx' hy' hne hc
      · rfl
    · cases hc
  aloneGrow x y c d hx hy hne hc := by
    rcases arrive_client hx with hx' | rfl
    · rcases arrive_client hy with hy' | rfl
      · exact hs.aloneGrow x y c d hx' hy' hne hc
      · rfl
    · cases hc
  exited a ha := getElem?_arrive_of (hs.exited a ha) _
  joined := hs.joined
  joining a i ha := hs.joining a i ((arrive_client ha).resolve_right nofun)
  allJoined a ha := hs.allJoined a
    (ha.imp (fun h => (arrive_client h).resolve_right nofun)
      fun h => (arrive_client h).resolve_right nofun)
  staying hdone a w ha := hs.staying hdone a w (arrive_worker ha)
  closed hdone a c ha := by
    rcases arrive_client ha with ha' | rfl
    · exact hs.closed hdone a c ha'
    · exact ⟨rfl, nofun⟩
  drains hdone := (hs.drains hdone).imp_right fun ⟨a, w, ha, hw⟩ =>
    ⟨a, w, getElem?_arrive_of ha _, hw⟩
  listed := hs.listed.imp (fun h => ⟨h.1, arrive_stopped h.2⟩)
    fun h a w ha => h a w (arrive_worker ha)
  workers a ha := (hs.workers a ha).imp fun _ hw => getElem?_arrive_of hw _
  nonempty a c ha hc := by
    rcases arrive_client ha with ha' | rfl
    · exact hs.nonempty a c ha' hc
    · cases hc
  set hdone := (hs.set hdone).imp arrive_stopped fun ⟨a, c, ha, hc⟩ =>
    ⟨a, c, getElem?_arrive_of ha _, hc⟩
  setDone a c ha hc := by
    rcases arrive_client ha with ha' | rfl
    · exact hs.setDone a c ha' hc
    · cases hc

end Arrive

theorem draining_init {s : State} (h : s.IsInit) : Draining s := by
  subst h
  constructor <;> simp [CThreadPool.init]

theorem draining_step {s s' : State} {l : Label} (hs : Draining s) (hbal : Balanced s)
    (hok : waitRun s l = true) (h : step s l = some s') : Draining s' := by
  rcases step_cases h with ⟨a, ch, pr, p', pr', new, rfl, hpr, hmove, rfl⟩ | ⟨w, -, -, rfl⟩ |
    ⟨-, rfl⟩
  · exact draining_move hs hbal hpr hmove (drainMove_of_move hs hok hpr hmove)
  · exact draining_wake hs _
  · exact draining_arrive hs

theorem draining_of_reachable {s : State}
    (h : Reachable step (fun s l => waitRun s l = true) State.IsInit s) : Draining s := by
  have hboth : Waiting s ∧ Draining s :=
    h.invariant (I := fun s => Waiting s ∧ Draining s)
      (fun _ hi => ⟨waiting_init hi, draining_init hi⟩)
      fun _ _ _ hs hok hst => ⟨waiting_step hs.1 hst, draining_step hs.2 hs.1.balanced hok hst⟩
  exact hboth.2

/-! ## The return of `stop(true)` -/

/-- When nothing is queued and the workers are gone, every wrapper was run by a worker. -/
theorem ran_of_stopped {s : State} (ho : Owned s) (hs : Draining s) (hst : s.Stopped)
    {t : TaskId} (ht : t ∈ s.pool.enqueued) :
    s.pool.invoked.count t = 1 ∧ s.pool.ran.count t = 1 := by
  -- workers at their end and outside threads that do not `pop()` hold nothing
  have hheld : tally (fun pr => pr.held.count t) s.procs = 0 := by
    refine (tally_eq_zero_iff _ _).mpr fun pr hmem => ?_
    obtain ⟨b, hb⟩ := List.mem_iff_getElem?.mp hmem
    cases pr with
    | worker w =>
      rw [hst.2 b w hb]
      rfl
    | client c =>
      rcases hs.clients b c hb with rfl | hc | hc | hc
      · rfl
      all_goals cases c <;> first | rfl | cases hc
  have hbegun : tally (fun pr => pr.begun.count t) s.procs ≤
      tally (fun pr => pr.held.count t) s.procs := tally_le fun pr _ => begun_le_held pr t
  have hplaces := ho.places t
  have hinv := ho.invocations t
  have henq := List.nodup_iff_count_eq_one.mp (nodup_enqueued ho) t ht
  obtain ⟨hhand, hdisc⟩ := hs.kept
  simp only [CThreadPool.stored, List.count_append, hst.1, hhand, hdisc, List.count_nil] at hplaces
  omega

/-- When `stop(true)` returns, the queue is empty, every worker has left its loop, and every task
pushed so far was invoked exactly once and has finished. -/
theorem stop_wait_finishes {s s' : State} {a : ThreadId} {wake : Option ThreadId} {c : Call}
    (h : Reachable step (fun s l => waitRun s l = true) State.IsInit s)
    (ha : s.procs[a]? = some (.client c)) (hc : c.isWait = true)
    (hst : step s (.sched a (.run wake)) = some s') (ha' : s'.procs[a]? = some (.client .idle)) :
    s'.pool.queue = [] ∧
      (∀ (b : ThreadId) (w : Worker), s'.procs[b]? = some (.worker w) → w = .exited) ∧
      ∀ t ∈ s'.pool.enqueued, s'.pool.invoked.count t = 1 ∧ s'.pool.ran.count t = 1 := by
  have hs := draining_of_reachable h
  have hrun : Run step (fun s l => waitRun s l = true) s [.sched a (.run wake)] s' :=
    Run.single rfl hst
  have h' := h.trans hrun
  have hs' := draining_of_reachable h'
  have hstopped : s'.Stopped := by
    rcases step_cases hst with ⟨b, ch, pr, p', pr', new, hl, hpr, hmove, rfl⟩ | ⟨w, hl, -⟩ |
      ⟨hl, -⟩
    · cases hl
      rw [ha] at hpr
      cases hpr
      have hd := drainMove_of_move hs rfl ha hmove
      rw [getElem?_move_self ha] at ha'
      cases ha'
      cases hmove with
      | client hcall =>
        rcases (wait_next hc hs.unflagged.2 hcall).1 rfl with ⟨rfl, hdone⟩ | rfl
        · -- another `stop(true)` has set `isDone` and has returned
          rcases hs.set hdone with hst | ⟨b, d, hb, hdset⟩
          · exact drain_stopped hs ha (Move.client hcall) hd hdone hst
          · by_cases hba : b = a
            · rw [hba, ha] at hb
              cases hb
              cases hdset
            · rw [hs.alone a b _ d ha hb hba rfl] at hdset
              cases hdset
        · exact drain_stopped hs ha (Move.client hcall) hd (hs.setDone a _ ha rfl)
            (stopped_of_allJoined hs (Or.inr ha))
    · cases hl
    · cases hl
  exact ⟨hstopped.1, hstopped.2, fun t ht => ran_of_stopped (owned_of_reachable h') hs' hstopped ht⟩

/-- One worker and two tasks, the second one pushed by the first one after `stop(true)` has set
`isDone`; the run ends before the last step of `stop(true)`. -/
def stopRun : List Label :=
  [.arrive, .sched 0 (.call (.resize 1))] ++ turns 0 4 ++ [.sched 0 (.call .push)] ++ turns 0 4 ++
    turns 1 2 ++ [.sched 0 (.call (.stop true))] ++ turns 0 6 ++ [.sched 1 (.call .push)] ++
    turns 1 4 ++ [.sched 1 .ret] ++ turns 1 4 ++ [.sched 1 .ret] ++ turns 1 9 ++ turns 0 3

/-- The pool after `stopRun`. -/
def stopPool : CThreadPool :=
  { CThreadPool.init with
    isDone := true, threads := [1], unjoinable := [1], finished := [1], enqueued := [0, 1]
    taken := [0, 1], invoked := [0, 1], ran := [0, 1], doneSignalled := true }

theorem stop_wait_finishes_stopRun :
    stopPool.queue = [] ∧
      (∀ (b : ThreadId) (w : Worker),
        ([.client .idle, .worker .exited] : List Proc)[b]? = some (.worker w) → w = .exited) ∧
      ∀ t ∈ stopPool.enqueued, stopPool.invoked.count t = 1 ∧ stopPool.ran.count t = 1 :=
  have hreach : Reachable step (fun s l => waitRun s l = true) State.IsInit
      ⟨stopPool, [.client (.joinErase true), .worker .exited]⟩ :=
    reachable_of_exec rfl stopRun (by decide)
  have hlast : step ⟨stopPool, [.client (.joinErase true), .worker .exited]⟩
      (.sched 0 (.run none)) =
        some ⟨{ stopPool with threads := [] }, [.client .idle, .worker .exited]⟩ := by decide
  stop_wait_finishes hreach rfl rfl hlast rfl

end PetProject.ThreadPool
