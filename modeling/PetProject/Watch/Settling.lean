import PetProject.Watch.Mirror

/-!
# The watch daemon settles

Once the directory is left alone the two threads of the watch daemon come to rest: each of their
steps takes an event or a name out of the system (`work_lt`), and as long as something is left there
is a step of a thread that handles events in order (`progress`). Where no such step is left, the
table mirrors the directory.

As in `Mirror`, the runs are those over names that the handlers record, the queues of the kernel
neither lose nor merge events, every statement succeeds, and every handled event is the oldest one
of its name.
-/

set_option autoImplicit false

namespace PetProject.Watch

open PetProject.Foundation.TextSearch PetProject.Foundation.Transition
open PetProject.Foundation.KeyedReplay PetProject.Workers

/-- A step of one of the two threads, in order. -/
def Label.OfThread (s : State) (l : Label) : Prop :=
  (∀ o, l ≠ .op o) ∧ l.InOrder s

/-- What is left to do for a watcher: an event is read and its name is handled. -/
def Channel.work (c : Channel) : Nat := 2 * c.queue.length + c.batch.length

def State.work (s : State) : Nat := s.inDelete.work + s.inAdd.work

section Steps

variable {t : TDB_type} {md5 : MD5} {codePosition : Text} {s s' : State}

theorem work_setChannel (s : State) (k : Watcher) (c : Channel) :
    (s.setChannel k c).work + (s.channel k).work = s.work + c.work := by
  cases k with
  | m_inotyInDelete =>
    change c.work + s.inAdd.work + s.inDelete.work = s.inDelete.work + s.inAdd.work + c.work
    omega
  | m_inotyInAdd =>
    change s.inDelete.work + c.work + s.inAdd.work = s.inDelete.work + s.inAdd.work + c.work
    omega

theorem length_eventNames (es : List InotifyEvent) : (eventNames es).length ≤ es.length :=
  List.length_filterMap_le _ _

/-- Every step of a thread leaves less to do, and the directory alone. -/
theorem work_lt {l : Label} (hl : ∀ o, l ≠ .op o) (h : step t md5 codePosition s l = some s') :
    s'.work < s.work ∧ s'.dir = s.dir := by
  cases l with
  | op o => exact absurd rfl (hl o)
  | read k count =>
    simp only [step] at h
    split at h
    · rename_i hread
      obtain ⟨hidle, hpos, hcount, hcap⟩ := hread
      cases h
      refine ⟨?_, (setChannel_frame s k _).1⟩
      have hwork := work_setChannel s k ⟨(s.channel k).queue.drop count,
        dispatched ((s.channel k).queue.take count)⟩
      have hnames := length_eventNames ((s.channel k).queue.take count)
      rw [List.length_take] at hnames
      simp only [Channel.work, dispatched_eq hcap, List.length_drop, hidle,
        List.length_nil] at hwork
      rw [dispatched_eq hcap]
      omega
    · cases h
  | handle k src =>
    simp only [step] at h
    split at h
    · cases h
    · rename_i name rest hbatch
      cases h
      refine ⟨?_, (setChannel_frame s k _).1⟩
      have hwork := work_setChannel s k ⟨(s.channel k).queue, rest⟩
      simp only [Channel.work, hbatch, List.length_cons] at hwork
      have hsame : (s.setChannel k ⟨(s.channel k).queue, rest⟩).work < s.work := by omega
      cases k <;> exact hsame

/-- One record always fits into the buffer. -/
theorem encodeEvent_fits (e : InotifyEvent) : (encodeEvents [e]).length ≤ BUF_LEN := by
  have hrec := length_encodeEvent e
  have hone : encodeEvents [e] = encodeEvent e := by simp [encodeEvents]
  have hname : (paddedName e.name).length ≤ 256 := by
    cases e.name with
    | none => simp [paddedName]
    | some n =>
      have hshort := n.short
      rw [length_paddedName_some]
      omega
  rw [hone, hrec]
  unfold BUF_LEN eventSize
  omega

/-- A thread that waits at `read` with an event in its queue can go on. -/
theorem read_possible {k : Watcher} (hidle : (s.channel k).batch = [])
    (hqueue : (s.channel k).queue ≠ []) :
    ∃ l, l.OfThread s ∧ (step t md5 codePosition s l).isSome := by
  refine ⟨.read k 1, ⟨fun o h => (by cases h), trivial⟩, ?_⟩
  obtain ⟨e, es, hes⟩ := List.exists_cons_of_ne_nil hqueue
  have htake : (s.channel k).queue.take 1 = [e] := by
    rw [hes]
    rfl
  have hlength : 1 ≤ (s.channel k).queue.length := List.length_pos_iff.mpr hqueue
  simp only [step, htake]
  rw [if_pos ⟨hidle, Nat.one_pos, hlength, encodeEvent_fits e⟩]
  rfl

/-- As long as something is left to do, a thread can go on in order. -/
theorem progress (hs : Tracks s) (hbusy : ¬ s.Quiet) :
    ∃ l, l.OfThread s ∧ (step t md5 codePosition s l).isSome := by
  by_cases hread : ∃ k, (s.channel k).batch = [] ∧ (s.channel k).queue ≠ []
  · obtain ⟨k, hidle, hqueue⟩ := hread
    exact read_possible hidle hqueue
  · -- no thread waits in front of an event, so the oldest pending one is the first of a batch
    have hwaits : ∀ k, (s.channel k).batch = [] → (s.channel k).queue = [] := fun k hidle => by
      by_contra hqueue
      exact hread ⟨k, hidle, hqueue⟩
    have hpending : s.pending ≠ [] := by
      intro hnone
      apply hbusy
      intro k
      have hfifo := hs.fifo k
      rw [hnone] at hfifo
      have hbatch := (List.append_eq_nil_iff.mp hfifo.symm).1
      exact ⟨hwaits k hbatch, hbatch⟩
    obtain ⟨⟨k, name⟩, es, hes⟩ := List.exists_cons_of_ne_nil hpending
    have hfifo := hs.fifo k
    rw [hes, ofKey, List.filter_cons, if_pos (decide_eq_true rfl), List.map_cons] at hfifo
    cases hbatch : (s.channel k).batch with
    | nil =>
      rw [hbatch, hwaits k hbatch] at hfifo
      cases hfifo
    | cons first rest =>
      rw [hbatch, List.cons_append, List.cons.injEq] at hfifo
      obtain rfl : name = first := hfifo.1
      refine ⟨.handle k (repeatedSources 'a'), ⟨fun o h => (by cases h), ?_⟩, ?_⟩
      · intro x hx
        rw [hbatch, List.head?_cons] at hx
        cases hx
        unfold IsOldest ofKey
        rw [hes, List.filter_cons, if_pos (decide_eq_true rfl)]
        rfl
      · simp only [step, hbatch]
        rfl

theorem tracks_thread {l : Label} (hs : Tracks s) (hl : l.OfThread s)
    (h : step t md5 codePosition s l = some s') : Tracks s' := by
  refine tracks_step hs ?_ hl.2 h
  cases l with
  | op o => exact absurd rfl (hl.1 o)
  | read k count => trivial
  | handle k src => trivial

/-- From every state the threads can come to rest. -/
theorem rest_reachable (hs : Tracks s) :
    ∃ ls s', Run (step t md5 codePosition) (fun s l => l.OfThread s) s ls s' ∧ s'.Quiet := by
  -- by induction on what is left to do
  induction hwork : s.work using Nat.strongRecOn generalizing s with
  | ind n ih =>
    by_cases hquiet : s.Quiet
    · exact ⟨[], s, Run.nil, hquiet⟩
    · have hprogress : ∃ l, l.OfThread s ∧ (step t md5 codePosition s l).isSome :=
        progress hs hquiet
      obtain ⟨l, hl, hsome⟩ := hprogress
      obtain ⟨s₁, hs₁⟩ := Option.isSome_iff_exists.mp hsome
      have hlt := (work_lt hl.1 hs₁).1
      obtain ⟨ls, s', hrun, hquiet'⟩ := ih s₁.work (by omega) (tracks_thread hs hl hs₁) rfl
      exact ⟨l :: ls, s', (Run.single hl hs₁).append hrun, hquiet'⟩

end Steps

/-- After the last operation of a run in order the threads of the watch daemon take at most two
steps for an event that is not read and one for a name that is, they are never stuck before they
come to rest, and where they rest the table has one row for each name of the directory. -/
theorem settles (t : TDB_type) (md5 : MD5) (codePosition : Text) {s₀ s : State} {ls : List Label}
    (h₀ : Reachable (step t md5 codePosition) (fun s l => l.IsRecordable ∧ l.InOrder s)
      State.IsInit s₀)
    (h : Run (step t md5 codePosition) (fun s l => l.OfThread s) s₀ ls s) :
    ls.length + s.work ≤ s₀.work ∧ s.dir = s₀.dir ∧
      (s.Quiet → s.Mirrors) ∧
      (¬ s.Quiet → ∃ l, l.OfThread s ∧ (step t md5 codePosition s l).isSome) ∧
      ∃ ms s', Run (step t md5 codePosition) (fun s l => l.OfThread s) s ms s' ∧ s'.Quiet ∧
        s'.dir = s₀.dir ∧ s'.Mirrors := by
  have hs₀ : Tracks s₀ :=
    h₀.invariant (fun _ => tracks_init) fun _ _ _ hs hok hst => tracks_step hs hok.1 hok.2 hst
  have htracks {s' : State} {ms : List Label}
      (hrun : Run (step t md5 codePosition) (fun s l => l.OfThread s) s₀ ms s') : Tracks s' :=
    hrun.invariant (fun _ _ _ hs hok hst => tracks_thread hs hok hst) hs₀
  have hdir {s' : State} {ms : List Label}
      (hrun : Run (step t md5 codePosition) (fun s l => l.OfThread s) s₀ ms s') :
      ms.length + s'.work ≤ s₀.work ∧ s'.dir = s₀.dir := by
    induction hrun with
    | nil => exact ⟨by simp, rfl⟩
    | snoc _ hok hst ih =>
      obtain ⟨hlt, hsame⟩ := work_lt hok.1 hst
      refine ⟨?_, hsame.trans ih.2⟩
      rw [List.length_append, List.length_singleton]
      omega
  refine ⟨(hdir h).1, (hdir h).2, mirrors_of_quiet (htracks h), progress (htracks h), ?_⟩
  have hrest : ∃ ls s', Run (step t md5 codePosition) (fun s l => l.OfThread s) s ls s' ∧
      s'.Quiet := rest_reachable (htracks h)
  obtain ⟨ms, s', hrun, hquiet⟩ := hrest
  have hall := h.append hrun
  exact ⟨ms, s', hrun, hquiet, (hdir hall).2, mirrors_of_quiet (htracks hall) hquiet⟩

/-- A file is replaced, and nothing is handled yet. -/
def replacedRun : List Label :=
  [.op (.create songA), .op (.unlink songA), .op (.moveIn songA 3)]

instance : DecidableRel fun (s : State) (l : Label) => l.OfThread s
  | _, .op o => isFalse fun h => h.1 o rfl
  | s, .read k count => decidable_of_iff ((Label.read k count).InOrder s)
      ⟨fun h => ⟨fun o ho => (by cases ho), h⟩, fun h => h.2⟩
  | s, .handle k src => decidable_of_iff ((Label.handle k src).InOrder s)
      ⟨fun h => ⟨fun o ho => (by cases ho), h⟩, fun h => h.2⟩

/-- All events are read, and the first one is handled. -/
def readSteps : List Label :=
  [.read .m_inotyInAdd 2, .read .m_inotyInDelete 1, .handle .m_inotyInAdd (repeatedSources 'a')]

theorem settles_replacedRun :
    ∃ s₀ s, exec (step .SQLITE headDigest []) (fun s l => l.IsRecordable ∧ l.InOrder s) emptyState
        replacedRun = some s₀ ∧
      exec (step .SQLITE headDigest []) (fun s l => l.OfThread s) s₀ readSteps = some s ∧
      readSteps.length + s.work ≤ s₀.work ∧ s.dir = s₀.dir ∧ (s.Quiet → s.Mirrors) ∧
      (¬ s.Quiet → ∃ l, l.OfThread s ∧ (step .SQLITE headDigest [] s l).isSome) ∧
      ∃ ms s', Run (step .SQLITE headDigest []) (fun s l => l.OfThread s) s ms s' ∧ s'.Quiet ∧
        s'.dir = s₀.dir ∧ s'.Mirrors := by
  have hexec : ((exec (step .SQLITE headDigest []) (fun s l => l.IsRecordable ∧ l.InOrder s)
      emptyState replacedRun).map fun s₀ =>
        decide ((exec (step .SQLITE headDigest []) (fun s l => l.OfThread s) s₀
          readSteps).isSome = true)) = some true := by
    decide +kernel
  obtain ⟨s₀, hs₀, hread⟩ := exec_decide_sound hexec
  obtain ⟨s, hs⟩ := Option.isSome_iff_exists.mp hread
  exact ⟨s₀, s, hs₀, hs, settles .SQLITE headDigest []
    (reachable_of_exec isInit_emptyState _ hs₀) (run_of_exec hs)⟩

end PetProject.Watch
