import Mathlib.Data.List.Basic
import PetProject.Foundation.Transition
import PetProject.Watch.FileOps

/-!
# The daemon's own writes

The database file lies in the watched directory, so a committed write of the daemon raises events of
its own: the journal of the database is created and deleted. Every event that waits for a handler
carries its origin, and every statement that a handler executes carries the origin of the event
behind it.

Both handlers ignore the names with the mark `.sqlite-journal`. No event of the daemon's own leads
to a statement, in any run, exactly when the journal's name has the mark, that is when the name of
the database file ends with `.sqlite` or has the mark itself (`no_feedback_iff`).
-/

set_option autoImplicit false

namespace PetProject.Watch.Feedback

open PetProject.Foundation.TextSearch PetProject.Foundation.SqlLexer
open PetProject.Foundation.Transition PetProject.Workers

/-! ## The journal -/

/-- What SQLite appends to the name of a database file. -/
def journalSuffix : Text := "-journal".toList

/-- A database file with the name of its journal. -/
structure Database where
  file : FileName
  journal : FileName
  journal_text : journal.text = file.text ++ journalSuffix

/-- The suffix of the database files that the handlers expect. -/
def sqliteSuffix : Text := ".sqlite".toList

/-! ## The system -/

/-- Who caused an event. -/
inductive Origin where
  | outside
  | own
  deriving DecidableEq, Repr

/-- A change of the directory that waits in a kernel queue. -/
structure Raised where
  change : DirOp
  origin : Origin

/-- A watcher: its kernel queue, and the names that its running call of `readInotyEvents` has not
handed to the handler yet. -/
structure Channel where
  queue : List Raised
  batch : List (Text × Origin)

structure State where
  dir : List FileName
  channel : Watcher → Channel
  /-- The statements executed so far. -/
  statements : List (Text × Origin)
  log : List Text
  /-- The number of events that other programs have raised. -/
  outsideEvents : Nat

def State.setChannel (s : State) (k : Watcher) (c : Channel) : State :=
  { s with channel := fun k' => if k' = k then c else s.channel k' }

/-- The event goes into the queues of the watchers that ask for its type. -/
def State.raise (s : State) (r : Raised) : State :=
  { s with
    channel := fun k =>
      if k.eventType &&& r.change.event.mask ≠ 0 then
        ⟨(s.channel k).queue ++ [r], (s.channel k).batch⟩
      else s.channel k }

/-- A change by another program. -/
def State.report (s : State) (o : DirOp) : State :=
  { s.raise ⟨o, .outside⟩ with outsideEvents := s.outsideEvents + 1 }

/-- The logger and the worker, while an event of the origin is handled. -/
def daemonServices (D : Database) (origin : Origin) (commits : Bool) : Services State where
  FAST_LOG record s := { s with log := s.log ++ [record] }
  execQuery q s :=
    let executed := { s with statements := s.statements ++ [(q, origin)] }
    -- a committed write creates the journal and deletes it
    (commits,
      if commits then
        (executed.raise ⟨.create D.journal, .own⟩).raise ⟨.unlink D.journal, .own⟩
      else executed)

inductive Label where
  /-- Another program changes the directory. -/
  | op (f : FileOp)
  /-- The watcher's `read` delivers the first `count` events of its queue. -/
  | read (k : Watcher) (count : Nat)
  /-- The watcher handles the next name of its batch; `commits` is the answer of the database. -/
  | handle (k : Watcher) (src : UuidSources) (commits : Bool)

/-- One step of the system. -/
def step (D : Database) (md5 : MD5) (codePosition : Text) (s : State) : Label → Option State
  | .op f => (f.run s.dir).map fun dir => { f.changes.foldl State.report s with dir := dir }
  | .read k count =>
      let c := s.channel k
      let events := (c.queue.take count).map fun r => r.change.event
      if c.batch = [] ∧ 0 < count ∧ count ≤ c.queue.length ∧
          (encodeEvents events).length ≤ BUF_LEN then
        some (s.setChannel k ⟨c.queue.drop count,
          (dispatched events).zip ((c.queue.take count).map Raised.origin)⟩)
      else none
  | .handle k src commits =>
      match (s.channel k).batch with
      | [] => none
      | (name, origin) :: rest =>
          some (handler (daemonServices D origin commits) codePosition (getDefaultUUID md5 src) k
            name (s.setChannel k ⟨(s.channel k).queue, rest⟩)).2

/-- The database file is in the directory and nothing has happened yet. -/
structure State.IsInit (D : Database) (s : State) : Prop where
  file : D.file ∈ s.dir
  quiet : ∀ k, s.channel k = ⟨[], []⟩
  statements : s.statements = []

/-- No event of the daemon's own led to a statement, and there are no more statements than events
from outside. -/
def State.NoFeedback (s : State) : Prop :=
  (∀ e ∈ s.statements, e.2 = .outside) ∧ s.statements.length ≤ s.outsideEvents

/-! ## The mark in the name of the journal -/

/-- No proper part of the journal's suffix stands at both of its ends. -/
theorem border_journalSuffix {a b c : Text} (hleft : journalSuffix = a ++ b)
    (hright : journalSuffix = b ++ c) : a = [] ∨ b = [] := by
  have hborders : ∀ n < 9, journalSuffix.drop n = journalSuffix.take (8 - n) → n = 0 ∨ n = 8 := by
    decide
  have hlen : a.length + b.length = 8 := by
    rw [← List.length_append, ← hleft]
    rfl
  have hdrop : journalSuffix.drop a.length = b := by
    rw [hleft, List.drop_left]
  have htake : journalSuffix.take (8 - a.length) = b := by
    have hb : 8 - a.length = b.length := by omega
    rw [hb, hright, List.take_left]
  rcases hborders a.length (by omega) (hdrop.trans htake.symm) with h | h
  · left
    exact List.length_eq_zero_iff.mp h
  · right
    apply List.length_eq_zero_iff.mp
    omega

/-- The name of the journal has the mark when the name of the database ends as expected, or has the
mark itself. -/
theorem mark_infix_journal_iff (D : Database) :
    journalMark <:+: D.journal.text ↔
      sqliteSuffix <:+ D.file.text ∨ journalMark <:+: D.file.text := by
  have hmark : journalMark = sqliteSuffix ++ journalSuffix := rfl
  rw [D.journal_text]
  constructor
  · rintro ⟨u, v, huv⟩
    have heq : D.file.text ++ journalSuffix = (u ++ sqliteSuffix) ++ (journalSuffix ++ v) := by
      rw [← huv, hmark]
      simp only [List.append_assoc]
    rcases List.append_eq_append_iff.mp heq with ⟨a, hstart, hrest⟩ | ⟨a, hfile, hrest⟩
    · -- the mark ends where the name ends
      have hlen := congrArg List.length hrest
      simp only [List.length_append] at hlen
      have ha : a = [] := List.length_eq_zero_iff.mp (by omega)
      rw [ha, List.append_nil] at hstart
      exact Or.inl ⟨u, hstart⟩
    · rcases List.append_eq_append_iff.mp hrest with ⟨b, hb, -⟩ | ⟨b, hleft, hright⟩
      · -- the whole mark stands in the name of the database
        refine Or.inr ⟨u, b, ?_⟩
        rw [hfile, hb, hmark]
        simp only [List.append_assoc]
      · rcases border_journalSuffix hleft hright with ha | hb
        · rw [ha, List.append_nil] at hfile
          exact Or.inl ⟨u, hfile.symm⟩
        · rw [hb, List.append_nil] at hleft
          refine Or.inr ⟨u, [], ?_⟩
          rw [hfile, ← hleft, hmark]
          simp only [List.append_assoc, List.append_nil]
  · rintro (⟨u, hu⟩ | hinfix)
    · refine ⟨u, [], ?_⟩
      rw [← hu, hmark]
      simp only [List.append_assoc, List.append_nil]
    · exact hinfix.trans (List.prefix_append _ _).isInfix

/-! ## Events on their way -/

/-- The events from outside that wait in a watcher. -/
def Channel.waiting (c : Channel) : Nat :=
  c.queue.countP (fun r => r.origin = .outside) + c.batch.countP (fun e => e.2 = .outside)

def State.waiting (s : State) : Nat :=
  (s.channel .m_inotyInDelete).waiting + (s.channel .m_inotyInAdd).waiting

section Raise

variable (s : State)

theorem setChannel_self (k : Watcher) (c : Channel) : (s.setChannel k c).channel k = c :=
  if_pos rfl

theorem setChannel_ne {k k' : Watcher} (h : k' ≠ k) (c : Channel) :
    (s.setChannel k c).channel k' = s.channel k' :=
  if_neg h

theorem waiting_setChannel (k : Watcher) (c : Channel) :
    (s.setChannel k c).waiting + (s.channel k).waiting = s.waiting + c.waiting := by
  cases k with
  | m_inotyInDelete =>
    simp only [State.waiting, State.setChannel, if_true, reduceCtorEq, if_false]
    omega
  | m_inotyInAdd =>
    simp only [State.waiting, State.setChannel, if_true, reduceCtorEq, if_false]
    omega

/-- One watcher hears of the change. -/
theorem raise_eq (r : Raised) :
    s.raise r = s.setChannel r.change.watcher
      ⟨(s.channel r.change.watcher).queue ++ [r], (s.channel r.change.watcher).batch⟩ := by
  unfold State.raise State.setChannel
  congr 1
  funext k
  by_cases hk : k = r.change.watcher
  · rw [if_pos ((eventType_and_mask r.change k).mpr hk), if_pos hk, hk]
  · rw [if_neg fun hmask => hk ((eventType_and_mask r.change k).mp hmask), if_neg hk]

end Raise

/-! ## Runs with the mark -/

/-- Events of the daemon's own are events of the journal, and every statement is paid for by an
event from outside. `debt` is one while such an event is with its handler. -/
structure Contained (D : Database) (debt : Nat) (s : State) : Prop where
  queued : ∀ k, ∀ r ∈ (s.channel k).queue, r.origin = .own → r.change.name = D.journal
  batched : ∀ k, ∀ e ∈ (s.channel k).batch, e.2 = .own → e.1 = D.journal.text
  statements : ∀ e ∈ s.statements, e.2 = .outside
  bound : s.statements.length + s.waiting + debt ≤ s.outsideEvents

section Steps

variable {D : Database} {md5 : MD5} {codePosition : Text} {debt : Nat} {s s' : State}

theorem contained_of_debt (hs : Contained D debt s) : Contained D 0 s := by
  have hbound := hs.bound
  exact ⟨hs.queued, hs.batched, hs.statements, by omega⟩

/-- A watcher gets another channel, whose events from outside are paid for. -/
theorem contained_setChannel {k : Watcher} {c : Channel} {debt' : Nat} (hs : Contained D debt s)
    (hqueue : ∀ r ∈ c.queue, r.origin = .own → r.change.name = D.journal)
    (hbatch : ∀ e ∈ c.batch, e.2 = .own → e.1 = D.journal.text)
    (hpaid : c.waiting + debt' ≤ (s.channel k).waiting + debt) :
    Contained D debt' (s.setChannel k c) := by
  have hset := waiting_setChannel s k c
  have hbound := hs.bound
  refine ⟨fun k' r hr => ?_, fun k' e he => ?_, hs.statements, ?_⟩
  · by_cases hk : k' = k
    · subst hk
      rw [setChannel_self] at hr
      exact hqueue r hr
    · rw [setChannel_ne s hk] at hr
      exact hs.queued k' r hr
  · by_cases hk : k' = k
    · subst hk
      rw [setChannel_self] at he
      exact hbatch e he
    · rw [setChannel_ne s hk] at he
      exact hs.batched k' e he
  · change s.statements.length + (s.setChannel k c).waiting + debt' ≤ s.outsideEvents
    omega

theorem contained_raise {r : Raised} (hs : Contained D debt s)
    (hr : r.origin = .own → r.change.name = D.journal) :
    Contained D debt { s.raise r with
      outsideEvents := s.outsideEvents + if r.origin = .outside then 1 else 0 } := by
  -- the event itself pays for the place that it takes
  have hpaid : Contained D (debt + if r.origin = .outside then 1 else 0) { s with
      outsideEvents := s.outsideEvents + if r.origin = .outside then 1 else 0 } := by
    refine ⟨hs.queued, hs.batched, hs.statements, ?_⟩
    have hbound := hs.bound
    change s.statements.length + s.waiting + _ ≤ s.outsideEvents + _
    omega
  rw [raise_eq]
  apply contained_setChannel hpaid
  · intro r' hr'
    rcases List.mem_append.mp hr' with hold | hnew
    · exact hs.queued _ r' hold
    · rw [List.mem_singleton.mp hnew]
      exact hr
  · exact hs.batched _
  · simp only [Channel.waiting, List.countP_append, List.countP_singleton, decide_eq_true_eq]
    omega

theorem contained_report (hs : Contained D debt s) (o : DirOp) :
    Contained D debt (s.report o) := by
  apply contained_raise hs (r := ⟨o, .outside⟩)
  intro h
  cases h

theorem contained_reports (os : List DirOp) (hs : Contained D debt s) :
    Contained D debt (os.foldl State.report s) := by
  induction os generalizing s with
  | nil => exact hs
  | cons o os ih => exact ih (contained_report hs o)

theorem contained_read {k : Watcher} {count : Nat} (hs : Contained D debt s)
    (hidle : (s.channel k).batch = [])
    (hcap : (encodeEvents (((s.channel k).queue.take count).map fun r => r.change.event)).length ≤
      BUF_LEN) :
    Contained D debt (s.setChannel k ⟨(s.channel k).queue.drop count,
      (dispatched (((s.channel k).queue.take count).map fun r => r.change.event)).zip
        (((s.channel k).queue.take count).map Raised.origin)⟩) := by
  -- what was read goes from the queue to the batch, with its origins
  have hbatch : (dispatched (((s.channel k).queue.take count).map fun r => r.change.event)).zip
      (((s.channel k).queue.take count).map Raised.origin) =
        ((s.channel k).queue.take count).map fun r => (r.change.name.text, r.origin) := by
    have hnames := eventNames_events (((s.channel k).queue.take count).map Raised.change)
    rw [List.map_map, List.map_map] at hnames
    rw [dispatched_eq hcap]
    exact (congrArg (List.zip · _) hnames).trans List.zip_map'
  have hsplit : (s.channel k).queue.countP (fun r => r.origin = .outside) =
      ((s.channel k).queue.take count).countP (fun r => r.origin = .outside) +
        ((s.channel k).queue.drop count).countP (fun r => r.origin = .outside) := by
    rw [← List.countP_append, List.take_append_drop]
  rw [hbatch]
  apply contained_setChannel hs
  · exact fun r hr => hs.queued k r (List.mem_of_mem_drop hr)
  · intro e he hown
    obtain ⟨r, hr, rfl⟩ := List.mem_map.mp he
    rw [hs.queued k r (List.mem_of_mem_take hr) hown]
  · simp only [Channel.waiting, hidle, List.countP_nil, List.countP_map, Function.comp_def]
    omega

/-- An event leaves its batch. -/
theorem contained_pop {k : Watcher} {name : Text} {origin : Origin} {rest : List (Text × Origin)}
    (hs : Contained D 0 s) (hbatch : (s.channel k).batch = (name, origin) :: rest) :
    Contained D (if origin = .outside then 1 else 0)
      (s.setChannel k ⟨(s.channel k).queue, rest⟩) := by
  have hmem : ∀ e ∈ rest, e ∈ (s.channel k).batch := by
    intro e he
    rw [hbatch]
    exact List.mem_cons_of_mem _ he
  apply contained_setChannel hs
  · exact hs.queued k
  · exact fun e he => hs.batched k e (hmem e he)
  · simp only [Channel.waiting, hbatch, List.countP_cons, decide_eq_true_eq]
    omega

/-- A statement that an event from outside has paid for. -/
theorem contained_execQuery {commits : Bool} (q record : Text) (hs : Contained D 1 s) :
    Contained D 0 ((daemonServices D .outside commits).execQuery q
      ((daemonServices D .outside commits).FAST_LOG record s)).2 := by
  have hexecuted : Contained D 0 { s with
      log := s.log ++ [record], statements := s.statements ++ [(q, .outside)] } := by
    refine ⟨hs.queued, hs.batched, fun e he => ?_, ?_⟩
    · rcases List.mem_append.mp he with hold | hnew
      · exact hs.statements e hold
      · rw [List.mem_singleton.mp hnew]
    · have hbound := hs.bound
      have hlen : (s.statements ++ [(q, Origin.outside)]).length = s.statements.length + 1 := by
        simp
      change (s.statements ++ [(q, Origin.outside)]).length + s.waiting + 0 ≤ s.outsideEvents
      omega
  cases commits with
  | false => exact hexecuted
  | true =>
    have hcreated := contained_raise hexecuted (r := ⟨.create D.journal, .own⟩) (fun _ => rfl)
    exact contained_raise hcreated (r := ⟨.unlink D.journal, .own⟩) (fun _ => rfl)

theorem contained_step {l : Label} (hmark : journalMark <:+: D.journal.text) (hs : Contained D 0 s)
    (h : step D md5 codePosition s l = some s') : Contained D 0 s' := by
  cases l with
  | op f =>
    obtain ⟨dir, -, rfl⟩ := Option.map_eq_some_iff.mp h
    have hreports := contained_reports f.changes hs
    exact ⟨hreports.queued, hreports.batched, hreports.statements, hreports.bound⟩
  | read k count =>
    simp only [step] at h
    split at h
    · rename_i hread
      cases h
      exact contained_read hs hread.1 hread.2.2.2
    · cases h
  | handle k src commits =>
    simp only [step] at h
    split at h
    · cases h
    · rename_i name origin rest hbatch
      cases h
      have hpop := contained_pop hs hbatch
      by_cases hname : journalMark <:+: name
      · rw [handler_journal _ _ _ _ _ hname]
        exact contained_of_debt hpop
      · -- an event of the daemon's own would have the mark
        have horigin : origin = .outside := by
          cases origin with
          | outside => rfl
          | own =>
            have hjournal : name = D.journal.text := by
              apply hs.batched k (name, .own) _ rfl
              rw [hbatch]
              exact List.mem_cons_self
            exact absurd (hjournal ▸ hmark) hname
        subst horigin
        rw [handler_statement _ _ _ _ _ hname]
        exact contained_execQuery _ _ hpop

theorem contained_init (hs : s.IsInit D) : Contained D 0 s := by
  refine ⟨fun k r hr => ?_, fun k e he => ?_, fun e he => ?_, ?_⟩
  · rw [hs.quiet k] at hr
    cases hr
  · rw [hs.quiet k] at he
    cases he
  · rw [hs.statements] at he
    cases he
  · simp [State.waiting, Channel.waiting, hs.quiet, hs.statements]

end Steps

/-! ## Runs without the mark -/

section Rounds

variable (D : Database) (md5 : MD5) (codePosition : Text)

/-- The adding thread reads one event and executes its INSERT. -/
def round : List Label :=
  [.read .m_inotyInAdd 1, .handle .m_inotyInAdd (repeatedSources 'a') true]

/-- A round on the only event of the adding thread leaves the thread with the creation of the
journal. -/
theorem round_run {s : State} {n : FileName} {origin : Origin} (hn : ¬ journalMark <:+: n.text)
    (hadd : s.channel .m_inotyInAdd = ⟨[⟨.create n, origin⟩], []⟩) :
    ∃ s' q, Run (step D md5 codePosition) Always s round s' ∧
      s'.channel .m_inotyInAdd = ⟨[⟨.create D.journal, .own⟩], []⟩ ∧
      s'.statements = s.statements ++ [(q, origin)] ∧ s'.outsideEvents = s.outsideEvents := by
  have hread : step D md5 codePosition s (.read .m_inotyInAdd 1) =
      some (s.setChannel .m_inotyInAdd ⟨[], [(n.text, origin)]⟩) := by
    have hcap := length_encodeEvents_event (.create n)
    have hnames := dispatched_event (.create n)
    simp only [step, hadd, List.take_succ_cons, List.take_zero, List.map_cons, List.map_nil, hcap,
      hnames]
    rfl
  have hrun := handler_statement (daemonServices D origin true) codePosition
    (getDefaultUUID md5 (repeatedSources 'a')) .m_inotyInAdd
    ((s.setChannel .m_inotyInAdd ⟨[], [(n.text, origin)]⟩).setChannel .m_inotyInAdd ⟨[], []⟩) hn
  have hhandle : step D md5 codePosition (s.setChannel .m_inotyInAdd ⟨[], [(n.text, origin)]⟩)
      (.handle .m_inotyInAdd (repeatedSources 'a') true) = _ :=
    congrArg (fun r : Bool × State => some r.2) hrun
  refine ⟨_, _, Run.append (Run.single trivial hread) (Run.single trivial hhandle), ?_, rfl, rfl⟩
  -- of the two events of the journal the adding thread hears of the creation
  change (State.raise (State.raise _ ⟨.create D.journal, .own⟩) ⟨.unlink D.journal, .own⟩).channel
    .m_inotyInAdd = _
  rw [raise_eq, raise_eq]
  rfl

/-- One event from outside is followed by any number of statements of the daemon's own. -/
theorem rounds_run {s : State} {n : FileName} (hn : ¬ journalMark <:+: n.text)
    (hjournal : ¬ journalMark <:+: D.journal.text)
    (hadd : s.channel .m_inotyInAdd = ⟨[⟨.create n, .outside⟩], []⟩) (rounds : Nat) :
    ∃ s' ls, Run (step D md5 codePosition) Always s ls s' ∧
      s'.channel .m_inotyInAdd = ⟨[⟨.create D.journal, .own⟩], []⟩ ∧
      s'.statements.countP (fun e => e.2 = .own) =
        s.statements.countP (fun e => e.2 = .own) + rounds ∧
      s'.outsideEvents = s.outsideEvents := by
  induction rounds with
  | zero =>
    obtain ⟨s', q, hrun, hchannel, hstatements, hevents⟩ := round_run D md5 codePosition hn hadd
    refine ⟨s', round, hrun, hchannel, ?_, hevents⟩
    simp [hstatements]
  | succ rounds ih =>
    obtain ⟨s₁, ls, hrun₁, hchannel₁, hcount₁, hevents₁⟩ := ih
    obtain ⟨s', q, hrun, hchannel, hstatements, hevents⟩ :=
      round_run D md5 codePosition hjournal hchannel₁
    refine ⟨s', ls ++ round, hrun₁.append hrun, hchannel, ?_, hevents.trans hevents₁⟩
    simp [hstatements, hcount₁, Nat.add_assoc]

end Rounds

theorem not_noFeedback_of_own {s : State} (h : 0 < s.statements.countP fun e => e.2 = .own) :
    ¬ s.NoFeedback := by
  rintro ⟨houtside, -⟩
  obtain ⟨e, he, hown⟩ := List.countP_pos_iff.mp h
  have horigin := houtside e he
  rw [of_decide_eq_true hown] at horigin
  cases horigin

/-- A name that is not the name of the database file. -/
def otherSong (D : Database) : FileName := if D.file = songA then songB else songA

theorem otherSong_notMem (D : Database) : otherSong D ∉ [D.file] := by
  unfold otherSong
  rw [List.mem_singleton]
  split
  · rename_i h
    rw [h]
    decide
  · rename_i h
    exact fun heq => h heq.symm

theorem mark_not_infix_otherSong (D : Database) : ¬ journalMark <:+: (otherSong D).text := by
  unfold otherSong
  split <;> decide

/-- The directory with the database file only. -/
def databaseOnly (D : Database) : State := ⟨[D.file], fun _ => ⟨[], []⟩, [], [], 0⟩

theorem isInit_databaseOnly (D : Database) : (databaseOnly D).IsInit D :=
  ⟨List.mem_singleton_self D.file, fun _ => rfl, rfl⟩

/-- Without the mark a single new file makes the daemon write for ever: for every number there is a
run with so many statements of the daemon's own. -/
theorem feedback_run (D : Database) (md5 : MD5) (codePosition : Text)
    (hmark : ¬ journalMark <:+: D.journal.text) (rounds : Nat) :
    ∃ s' ls, Run (step D md5 codePosition) Always (databaseOnly D) ls s' ∧ s'.outsideEvents = 1 ∧
      s'.statements.countP (fun e => e.2 = .own) = rounds := by
  have hcreate : step D md5 codePosition (databaseOnly D) (.op (.create (otherSong D))) =
      some { (databaseOnly D).report (.create (otherSong D)) with
        dir := [otherSong D, D.file] } := by
    have hrun : FileOp.run [D.file] (.create (otherSong D)) = some [otherSong D, D.file] :=
      if_neg (otherSong_notMem D)
    exact congrArg (Option.map _) hrun
  have hadd : State.channel { (databaseOnly D).report (.create (otherSong D)) with
      dir := [otherSong D, D.file] } .m_inotyInAdd = ⟨[⟨.create (otherSong D), .outside⟩], []⟩ := by
    change ((databaseOnly D).raise ⟨.create (otherSong D), .outside⟩).channel .m_inotyInAdd = _
    rw [raise_eq]
    rfl
  obtain ⟨s', ls, hrun, -, hcount, hevents⟩ :=
    rounds_run D md5 codePosition (mark_not_infix_otherSong D) hmark hadd rounds
  refine ⟨s', _, Run.append (Run.single trivial hcreate) hrun, hevents, ?_⟩
  rw [hcount]
  exact Nat.zero_add rounds

/-- The daemon does not feed itself, in any run, if and only if the name of the database file ends
with `.sqlite` or has the mark of journals. -/
theorem no_feedback_iff (D : Database) (md5 : MD5) (codePosition : Text) :
    (∀ (s s' : State) (ls : List Label), s.IsInit D →
        Run (step D md5 codePosition) Always s ls s' → s'.NoFeedback) ↔
      sqliteSuffix <:+ D.file.text ∨ journalMark <:+: D.file.text := by
  rw [← mark_infix_journal_iff]
  constructor
  · intro hall
    by_contra hmark
    obtain ⟨s', ls, hrun, -, hcount⟩ := feedback_run D md5 codePosition hmark 1
    apply not_noFeedback_of_own _ (hall _ s' ls (isInit_databaseOnly D) hrun)
    rw [hcount]
    exact Nat.one_pos
  · intro hmark s s' ls hs hrun
    have hcontained := hrun.invariant (fun _ _ _ hs _ hst => contained_step hmark hs hst)
      (contained_init hs)
    have hbound := hcontained.bound
    exact ⟨hcontained.statements, by omega⟩

/-- `songs.db` -/
def songsDb : Database where
  file := ⟨[115, 111, 110, 103, 115, 46, 100, 98], by decide, by decide, by decide⟩
  journal := ⟨[115, 111, 110, 103, 115, 46, 100, 98, 45, 106, 111, 117, 114, 110, 97, 108],
    by decide, by decide, by decide⟩
  journal_text := by decide

/-- A database file with another suffix makes the daemon write for ever. -/
theorem not_no_feedback_songsDb :
    ¬ ∀ (D : Database) (md5 : MD5) (codePosition : Text) (s s' : State) (ls : List Label),
      s.IsInit D → Run (step D md5 codePosition) Always s ls s' → s'.NoFeedback := by
  intro hall
  have hmark : ¬ journalMark <:+: songsDb.journal.text := by decide
  obtain ⟨s', ls, hrun, -, hcount⟩ := feedback_run songsDb headDigest [] hmark 1
  apply not_noFeedback_of_own _
    (hall songsDb headDigest [] _ s' ls (isInit_databaseOnly songsDb) hrun)
  rw [hcount]
  exact Nat.one_pos

end PetProject.Watch.Feedback
