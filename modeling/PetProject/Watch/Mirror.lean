import Mathlib.Data.List.Nodup
import PetProject.Foundation.KeyedReplay
import PetProject.Foundation.Transition
import PetProject.Watch.Inotify
import PetProject.Watch.SongData

/-!
# The watch daemon as a transition system

A state is the watched directory, the two watchers with their kernel queues, the table of songs and
the records of the logger. One step is a directory operation, which raises an event in the queue of
every watcher whose mask it matches, the `read` of one watcher's `readInotyEvents`, or one iteration
of its loop, which calls the watcher's handler and so executes one statement.

The field `pending` records the events that were raised and are not handled yet, over both queues
and in the order of raising; no step reads it.

The two watchers are drained by two threads, so an event of one watcher can be handled before an
older event of the same name of the other one. The table follows the directory as long as this
does not happen (`table_follows_directory`).
-/

set_option autoImplicit false

namespace PetProject.Watch

open PetProject.Foundation.TextSearch PetProject.Foundation.SqlLexer
open PetProject.Foundation.Transition PetProject.Foundation.KeyedReplay PetProject.Workers

/-! ## Events of the directory -/

def IN_MOVED_FROM : UInt32 := 0x40

def IN_MOVED_TO : UInt32 := 0x80

def IN_CREATE : UInt32 := 0x100

def IN_DELETE : UInt32 := 0x200

/-- The event types that the constructor of `fileWatch` gives the watcher. -/
def Watcher.eventType : Watcher → UInt32
  | .m_inotyInDelete => IN_DELETE ||| IN_MOVED_FROM
  | .m_inotyInAdd => IN_CREATE ||| IN_MOVED_TO

/-- The operations by which a name appears or disappears. -/
inductive DirOp where
  | create (n : FileName)
  | moveIn (n : FileName) (cookie : UInt32)
  | unlink (n : FileName)
  | moveOut (n : FileName) (cookie : UInt32)
  deriving DecidableEq

def DirOp.name : DirOp → FileName
  | .create n | .moveIn n _ | .unlink n | .moveOut n _ => n

/-- The name appears. -/
def DirOp.appears : DirOp → Bool
  | .create _ | .moveIn _ _ => true
  | .unlink _ | .moveOut _ _ => false

/-- The event that the operation raises in a watched directory. -/
def DirOp.event : DirOp → InotifyEvent
  | .create n => ⟨1, IN_CREATE, 0, some n⟩
  | .moveIn n cookie => ⟨1, IN_MOVED_TO, cookie, some n⟩
  | .unlink n => ⟨1, IN_DELETE, 0, some n⟩
  | .moveOut n cookie => ⟨1, IN_MOVED_FROM, cookie, some n⟩

/-- The directory after the operation, when it is possible. -/
def DirOp.run (dir : List FileName) (o : DirOp) : Option (List FileName) :=
  if o.appears then if o.name ∈ dir then none else some (o.name :: dir)
  else if o.name ∈ dir then some (dir.filter fun n => n ≠ o.name) else none

/-! ## The system -/

/-- A watcher: its kernel queue, and the names that its running call of `readInotyEvents` has not
handed to the handler yet. -/
structure Channel where
  queue : List InotifyEvent
  batch : List Text

structure State where
  dir : List FileName
  inDelete : Channel
  inAdd : Channel
  db : SongList
  log : List Text
  pending : List (Watcher × Text)

def State.channel (s : State) : Watcher → Channel
  | .m_inotyInDelete => s.inDelete
  | .m_inotyInAdd => s.inAdd

def State.setChannel (s : State) (k : Watcher) (c : Channel) : State :=
  match k with
  | .m_inotyInDelete => { s with inDelete := c }
  | .m_inotyInAdd => { s with inAdd := c }

/-- The names that `readInotyEvents` hands to the handler, when `read` delivers the events. They do
not depend on what the handler does (`readInotyEvents_encode`). -/
def dispatched (es : List InotifyEvent) : List Text :=
  (((inotifyRAIIwrapper.mk (fun _ _ => (true, ())) [] 0).readInotyEvents
    (some (encodeEvents es)) ()).map Reading.calls).getD []

/-- The event goes into the queue of the watchers that ask for its type. -/
def State.raise (s : State) (e : InotifyEvent) (k : Watcher) : State :=
  if k.eventType &&& e.mask ≠ 0 then
    { s.setChannel k ⟨(s.channel k).queue ++ [e], (s.channel k).batch⟩ with
      pending := s.pending ++ (e.name.toList.map fun n => (k, n.text)) }
  else s

/-- The handler of a watcher, as `initFileWatch` sets it. -/
def watchFunction (t : TDB_type) (md5 : MD5) (codePosition : Text) (src : UuidSources)
    (k : Watcher) : WatchFunction (SongList × List Text) :=
  handler (tableServices t) codePosition (getDefaultUUID md5 src) k

inductive Label where
  | op (o : DirOp)
  /-- The watcher's `read` delivers the first `count` events of its queue. -/
  | read (k : Watcher) (count : Nat)
  /-- The watcher handles the next name of its batch. -/
  | handle (k : Watcher) (src : UuidSources)

/-- One step of the system. -/
def step (t : TDB_type) (md5 : MD5) (codePosition : Text) (s : State) : Label → Option State
  | .op o =>
      (o.run s.dir).map fun dir =>
        -- the kernel offers the event to both queues
        { (s.raise o.event .m_inotyInDelete).raise o.event .m_inotyInAdd with dir := dir }
  | .read k count =>
      let c := s.channel k
      -- the thread is at `read`, which delivers whole records that fit into the buffer
      if c.batch = [] ∧ 0 < count ∧ count ≤ c.queue.length ∧
          (encodeEvents (c.queue.take count)).length ≤ BUF_LEN then
        some (s.setChannel k ⟨c.queue.drop count, dispatched (c.queue.take count)⟩)
      else none
  | .handle k src =>
      match (s.channel k).batch with
      | [] => none
      | name :: rest =>
          -- one iteration of the record loop: the statement of the handler is executed
          let res := (watchFunction t md5 codePosition src k name (s.db, s.log)).2
          some { s.setChannel k ⟨(s.channel k).queue, rest⟩ with
            db := res.1, log := res.2, pending := s.pending.erase (k, name) }

/-- The table has one row for each name of the directory and no other row. -/
def State.Mirrors (s : State) : Prop :=
  (∀ n ∈ s.dir, s.db.rows.countP (fun r => r.song_name = n.text) = 1) ∧
    ∀ r ∈ s.db.rows, ∃ n ∈ s.dir, n.text = r.song_name

/-- Both queues are empty and both threads are idle. -/
def State.Quiet (s : State) : Prop :=
  ∀ k, (s.channel k).queue = [] ∧ (s.channel k).batch = []

def State.IsInit (s : State) : Prop := s.Mirrors ∧ s.Quiet ∧ s.pending = []

/-- Names of operations are free of quotes and of the mark of journals. -/
def Label.IsRecordable : Label → Prop
  | .op o => Recordable o.name.text
  | _ => True

/-- The event that is handled is the oldest unhandled event of its name. -/
def Label.InOrder (s : State) : Label → Prop
  | .handle k _ => ∀ name ∈ (s.channel k).batch.head?, IsOldest Prod.snd (k, name) s.pending
  | _ => True

/-! ## Names and their strings -/

theorem char_ofNat_byte_injective : Function.Injective fun b : UInt8 => Char.ofNat b.toNat := by
  intro a b h
  have hval : ∀ n, n < 256 → (Char.ofNat n).toNat = n := by decide +kernel
  have heq := congrArg Char.toNat h
  dsimp only at heq
  rw [hval _ a.toNat_lt, hval _ b.toNat_lt] at heq
  exact UInt8.toNat_inj.mp heq

theorem text_injective {m n : FileName} (h : m.text = n.text) : m = n := by
  have hbytes : m.bytes = n.bytes := List.map_injective_iff.mpr char_ofNat_byte_injective h
  cases m
  cases n
  cases hbytes
  rfl

theorem dispatched_eq {es : List InotifyEvent} (h : (encodeEvents es).length ≤ BUF_LEN) :
    dispatched es = eventNames es := by
  obtain ⟨r, hread, hcalls, -⟩ :=
    readInotyEvents_encode (inotifyRAIIwrapper.mk (fun _ _ => (true, ())) [] 0) () h
  unfold dispatched
  rw [hread, Option.map_some, Option.getD_some, hcalls]

/-! ## The table under one statement -/

/-- The number of rows with a name. -/
def countName (db : SongList) (x : Text) : Nat := db.rows.countP fun r => r.song_name = x

/-- The effect of an event on the number of rows with its name. -/
def rowEffect (e : Watcher × Text) (c : Nat) : Nat :=
  match e.1 with
  | .m_inotyInDelete => 0
  | .m_inotyInAdd => c + 1

theorem countName_delete (t : TDB_type) (db : SongList) (name x : Text) :
    countName (db.apply t (.deleteSong name)) x = if x = name then 0 else countName db x := by
  unfold countName SongList.apply
  rw [List.countP_filter]
  split
  · rename_i hx
    subst hx
    apply List.countP_eq_zero.mpr
    intro r _
    simp
  · rename_i hx
    apply List.countP_congr
    intro r _
    simp only [Bool.and_eq_true, decide_eq_true_eq, ne_eq]
    constructor
    · exact fun h => h.1
    · intro h
      exact ⟨h, fun hname => hx (h.symm.trans hname)⟩

theorem countName_insert (t : TDB_type) (db : SongList) (name uid x : Text) :
    countName (db.apply t (.insertSong name uid)) x =
      if x = name then countName db x + 1 else countName db x := by
  unfold countName SongList.apply
  rw [List.countP_append, List.countP_singleton]
  by_cases hx : x = name
  · simp [hx]
  · simp [hx, Ne.symm hx]

theorem watchFunction_table (t : TDB_type) (md5 : MD5) (codePosition : Text) (src : UuidSources)
    (k : Watcher) {name : Text} (hname : Recordable name) (db : SongList) (log : List Text) :
    watchFunction t md5 codePosition src k name (db, log) =
      (true, (db.apply t (handlerStatement (getDefaultUUID md5 src) name k),
        log ++ [handlerRecord codePosition name k])) :=
  handler_table t codePosition hname (plain_getDefaultUUID md5 src) k db log

/-- A handler changes the rows of its name as its watcher's events say, and no other rows. -/
theorem countName_watchFunction (t : TDB_type) (md5 : MD5) (codePosition : Text)
    (src : UuidSources) (k : Watcher) {name : Text} (hname : Recordable name) (db : SongList)
    (log : List Text) (x : Text) :
    countName (watchFunction t md5 codePosition src k name (db, log)).2.1 x =
      if x = name then rowEffect (k, name) (countName db x) else countName db x := by
  rw [watchFunction_table t md5 codePosition src k hname]
  cases k with
  | m_inotyInDelete => exact countName_delete t db name x
  | m_inotyInAdd => exact countName_insert t db name _ x

/-! ## The invariant of runs in order -/

/-- The rows of a name are on the way to the directory: the unhandled events of the name, replayed
on its rows, leave one row if the name is in the directory and none otherwise. -/
structure Tracks (s : State) : Prop where
  fifo : ∀ k, (ofKey Prod.fst k s.pending).map Prod.snd =
    (s.channel k).batch ++ eventNames (s.channel k).queue
  counts : ∀ x, replay rowEffect (ofKey Prod.snd x s.pending) (countName s.db x) =
    if ∃ n ∈ s.dir, n.text = x then 1 else 0
  recordable : ∀ e ∈ s.pending, Recordable e.2

theorem countName_of_mirrors {s : State} (h : s.Mirrors) (x : Text) :
    countName s.db x = if ∃ n ∈ s.dir, n.text = x then 1 else 0 := by
  obtain ⟨hone, hothers⟩ := h
  split
  · rename_i hx
    obtain ⟨n, hn, rfl⟩ := hx
    exact hone n hn
  · rename_i hx
    apply List.countP_eq_zero.mpr
    intro r hr heq
    obtain ⟨n, hn, htext⟩ := hothers r hr
    exact hx ⟨n, hn, htext.trans (of_decide_eq_true heq)⟩

theorem mirrors_of_countName {s : State}
    (h : ∀ x, countName s.db x = if ∃ n ∈ s.dir, n.text = x then 1 else 0) : s.Mirrors := by
  constructor
  · intro n hn
    have hcount := h n.text
    rw [if_pos ⟨n, hn, rfl⟩] at hcount
    exact hcount
  · intro r hr
    by_contra hnone
    have hcount := h r.song_name
    rw [if_neg hnone] at hcount
    exact (List.countP_eq_zero.mp hcount) r hr (by simp)

theorem tracks_init {s : State} (h : s.IsInit) : Tracks s := by
  obtain ⟨hmirrors, hquiet, hpending⟩ := h
  refine ⟨fun k => ?_, fun x => ?_, fun e he => ?_⟩
  · obtain ⟨hqueue, hbatch⟩ := hquiet k
    rw [hpending, hqueue, hbatch]
    rfl
  · rw [hpending]
    exact countName_of_mirrors hmirrors x
  · rw [hpending] at he
    cases he

/-! ## Steps -/

section Steps

variable {t : TDB_type} {md5 : MD5} {codePosition : Text} {s s' : State}

@[simp] theorem channel_setChannel_self (s : State) (k : Watcher) (c : Channel) :
    (s.setChannel k c).channel k = c := by
  cases k <;> rfl

theorem channel_setChannel_ne (s : State) {k k' : Watcher} (h : k' ≠ k) (c : Channel) :
    (s.setChannel k c).channel k' = s.channel k' := by
  cases k <;> cases k' <;> first | rfl | exact absurd rfl h

@[simp] theorem setChannel_frame (s : State) (k : Watcher) (c : Channel) :
    (s.setChannel k c).dir = s.dir ∧ (s.setChannel k c).db = s.db ∧
      (s.setChannel k c).pending = s.pending := by
  cases k <;> exact ⟨rfl, rfl, rfl⟩

/-- The watcher that hears of an operation. -/
def DirOp.watcher (o : DirOp) : Watcher := if o.appears then .m_inotyInAdd else .m_inotyInDelete

/-- The mask of a watcher matches the operations that it hears of, and no others. -/
theorem eventType_and_mask (o : DirOp) (k : Watcher) :
    k.eventType &&& o.event.mask ≠ 0 ↔ k = o.watcher := by
  have hmasks : ∀ k : Watcher, ∀ up : Bool, ∀ mask : UInt32,
      mask = (if up then IN_CREATE else IN_DELETE) ∨
        mask = (if up then IN_MOVED_TO else IN_MOVED_FROM) →
      (k.eventType &&& mask ≠ 0 ↔ k = if up then .m_inotyInAdd else .m_inotyInDelete) := by
    rintro (_ | _) (_ | _) mask (rfl | rfl) <;> decide
  apply hmasks
  cases o <;> simp [DirOp.appears, DirOp.event]

theorem raise_of_ne {s : State} {o : DirOp} {k : Watcher} (h : k ≠ o.watcher) :
    s.raise o.event k = s := by
  apply if_neg
  intro hmask
  exact h ((eventType_and_mask o k).mp hmask)

theorem raise_watcher (s : State) (o : DirOp) :
    s.raise o.event o.watcher =
      { s.setChannel o.watcher
          ⟨(s.channel o.watcher).queue ++ [o.event], (s.channel o.watcher).batch⟩ with
        pending := s.pending ++ [(o.watcher, o.name.text)] } := by
  unfold State.raise
  rw [if_pos ((eventType_and_mask o o.watcher).mpr rfl)]
  cases o <;> rfl

/-- Of the two queues, an operation changes the one that hears of it. -/
theorem raise_event (s : State) (o : DirOp) :
    (s.raise o.event .m_inotyInDelete).raise o.event .m_inotyInAdd =
      { s.setChannel o.watcher
          ⟨(s.channel o.watcher).queue ++ [o.event], (s.channel o.watcher).batch⟩ with
        pending := s.pending ++ [(o.watcher, o.name.text)] } := by
  cases hk : o.watcher with
  | m_inotyInDelete =>
    have hadd : Watcher.m_inotyInAdd ≠ o.watcher := by simp [hk]
    rw [← hk, ← raise_watcher, raise_of_ne hadd, hk]
  | m_inotyInAdd =>
    have hdelete : Watcher.m_inotyInDelete ≠ o.watcher := by simp [hk]
    rw [← hk, ← raise_watcher, raise_of_ne hdelete]

/-- Whether a string is a name in the directory after an operation. -/
theorem mem_run {dir dir' : List FileName} {o : DirOp} (h : o.run dir = some dir') (x : Text) :
    (∃ n ∈ dir', n.text = x) ↔
      if x = o.name.text then o.appears = true else ∃ n ∈ dir, n.text = x := by
  unfold DirOp.run at h
  cases happ : o.appears with
  | true =>
    rw [happ, if_pos rfl] at h
    split at h
    · cases h
    · cases h
      simp only [List.mem_cons]
      split
      · rename_i hx
        simp only [iff_true]
        exact ⟨o.name, Or.inl rfl, hx.symm⟩
      · rename_i hx
        constructor
        · rintro ⟨n, rfl | hn, htext⟩
          · exact absurd htext.symm hx
          · exact ⟨n, hn, htext⟩
        · rintro ⟨n, hn, htext⟩
          exact ⟨n, Or.inr hn, htext⟩
  | false =>
    rw [happ, if_neg (by simp)] at h
    split at h
    · cases h
      simp only [List.mem_filter, decide_eq_true_eq]
      split
      · rename_i hx
        simp only [Bool.false_eq_true, iff_false]
        rintro ⟨n, ⟨-, hne⟩, htext⟩
        exact hne (text_injective (htext.trans hx))
      · rename_i hx
        constructor
        · rintro ⟨n, ⟨hn, -⟩, htext⟩
          exact ⟨n, hn, htext⟩
        · rintro ⟨n, hn, htext⟩
          refine ⟨n, ⟨hn, ?_⟩, htext⟩
          rintro rfl
          exact hx htext.symm
    · cases h

/-- An operation is possible when its name is absent, or present. -/
theorem run_enabled {dir dir' : List FileName} {o : DirOp} (h : o.run dir = some dir') :
    (∃ n ∈ dir, n.text = o.name.text) ↔ o.appears = false := by
  have hmem : (∃ n ∈ dir, n.text = o.name.text) ↔ o.name ∈ dir := by
    constructor
    · rintro ⟨n, hn, htext⟩
      rw [← text_injective htext]
      exact hn
    · intro hn
      exact ⟨o.name, hn, rfl⟩
  rw [hmem]
  unfold DirOp.run at h
  cases happ : o.appears with
  | true =>
    rw [happ, if_pos rfl] at h
    split at h
    · cases h
    · rename_i hn
      simpa using hn
  | false =>
    rw [happ, if_neg (by simp)] at h
    split at h
    · rename_i hn
      simpa using hn
    · cases h

theorem tracks_op {o : DirOp} {dir : List FileName} (hs : Tracks s)
    (hname : Recordable o.name.text) (h : o.run s.dir = some dir) :
    Tracks { (s.raise o.event .m_inotyInDelete).raise o.event .m_inotyInAdd with dir := dir } := by
  rw [raise_event]
  refine ⟨fun k => ?_, fun x => ?_, fun e he => ?_⟩
  · -- the event is the last one of its watcher
    have hfifo := hs.fifo k
    change (ofKey Prod.fst k (s.pending ++ [(o.watcher, o.name.text)])).map Prod.snd =
      ((s.setChannel o.watcher _).channel k).batch ++
        eventNames ((s.setChannel o.watcher _).channel k).queue
    rw [ofKey_append, List.map_append, hfifo]
    by_cases hk : k = o.watcher
    · subst hk
      have hself : ofKey Prod.fst o.watcher [(o.watcher, o.name.text)] = _ :=
        ofKey_singleton_self (o.watcher, o.name.text)
      rw [hself, channel_setChannel_self]
      have hevent : eventNames [o.event] = [o.name.text] := by cases o <;> rfl
      have happend : eventNames ((s.channel o.watcher).queue ++ [o.event]) =
          eventNames (s.channel o.watcher).queue ++ eventNames [o.event] :=
        List.filterMap_append
      rw [happend, hevent, List.append_assoc]
      rfl
    · have hne : ofKey Prod.fst k [(o.watcher, o.name.text)] = [] := ofKey_singleton_ne hk
      rw [hne, channel_setChannel_ne s hk]
      simp
  · have hcount := hs.counts x
    change replay rowEffect (ofKey Prod.snd x (s.pending ++ [(o.watcher, o.name.text)]))
      (countName (s.setChannel o.watcher _).db x) = if ∃ n ∈ dir, n.text = x then 1 else 0
    rw [(setChannel_frame s o.watcher _).2.1, ofKey_append, replay_append, hcount]
    by_cases hx : x = o.name.text
    · -- the new event is the last one of its name
      subst hx
      have hself : ofKey Prod.snd o.name.text [(o.watcher, o.name.text)] = _ :=
        ofKey_singleton_self (o.watcher, o.name.text)
      rw [hself]
      simp only [run_enabled h, mem_run h, if_true]
      unfold replay rowEffect DirOp.watcher
      cases o.appears <;> simp
    · have hne : ofKey Prod.snd x [(o.watcher, o.name.text)] = [] := ofKey_singleton_ne hx
      rw [hne]
      simp only [mem_run h, if_neg hx]
      rfl
  · have he' : e ∈ s.pending ++ [(o.watcher, o.name.text)] := he
    rcases List.mem_append.mp he' with hold | hnew
    · exact hs.recordable e hold
    · rw [List.mem_singleton.mp hnew]
      exact hname

theorem tracks_read {k : Watcher} {count : Nat} (hs : Tracks s)
    (hidle : (s.channel k).batch = [])
    (hcap : (encodeEvents ((s.channel k).queue.take count)).length ≤ BUF_LEN) :
    Tracks (s.setChannel k ⟨(s.channel k).queue.drop count,
      dispatched ((s.channel k).queue.take count)⟩) := by
  obtain ⟨hdir, hdb, hpending⟩ := setChannel_frame s k ⟨(s.channel k).queue.drop count,
    dispatched ((s.channel k).queue.take count)⟩
  refine ⟨fun k' => ?_, fun x => ?_, fun e he => ?_⟩
  · rw [hpending, hs.fifo k']
    by_cases hk : k' = k
    · subst hk
      -- what was read goes from the queue to the batch
      have hsplit : eventNames (s.channel k').queue =
          eventNames ((s.channel k').queue.take count) ++
            eventNames ((s.channel k').queue.drop count) := by
        unfold eventNames
        rw [← List.filterMap_append, List.take_append_drop]
      rw [channel_setChannel_self, hidle, hsplit, dispatched_eq hcap]
      rfl
    · rw [channel_setChannel_ne s hk]
  · rw [hpending, hdb, hdir]
    exact hs.counts x
  · rw [hpending] at he
    exact hs.recordable e he

theorem tracks_handle {k : Watcher} {src : UuidSources} {name : Text} {rest : List Text}
    (hs : Tracks s) (hbatch : (s.channel k).batch = name :: rest)
    (hold : IsOldest Prod.snd (k, name) s.pending) :
    Tracks { s.setChannel k ⟨(s.channel k).queue, rest⟩ with
      db := (watchFunction t md5 codePosition src k name (s.db, s.log)).2.1
      log := (watchFunction t md5 codePosition src k name (s.db, s.log)).2.2
      pending := s.pending.erase (k, name) } := by
  have hmem : (k, name) ∈ s.pending := by
    have hhead : (k, name) ∈ ofKey Prod.snd name s.pending := List.mem_of_mem_head? hold
    exact List.mem_of_mem_filter hhead
  have hname : Recordable name := hs.recordable (k, name) hmem
  refine ⟨fun k' => ?_, fun x => ?_, fun e he => ?_⟩
  · change (ofKey Prod.fst k' (s.pending.erase (k, name))).map Prod.snd =
      ((s.setChannel k _).channel k').batch ++ eventNames ((s.setChannel k _).channel k').queue
    have hfifo := hs.fifo k'
    by_cases hk : k' = k
    · subst hk
      -- the handled event is the first one of its watcher
      obtain ⟨e, es, hes⟩ : ∃ e es, ofKey Prod.fst k' s.pending = e :: es := by
        cases hcase : ofKey Prod.fst k' s.pending with
        | nil => simp [hcase, hbatch] at hfifo
        | cons e es => exact ⟨e, es, rfl⟩
      have hfirst : e.1 = k' := by
        have hmem : e ∈ ofKey Prod.fst k' s.pending := by simp [hes]
        exact of_decide_eq_true (List.mem_filter.mp hmem).2
      rw [hes, hbatch, List.map_cons, List.cons_append, List.cons.injEq] at hfifo
      have he : e = (k', name) := Prod.ext hfirst hfifo.1
      have herase : ofKey Prod.fst k' (s.pending.erase (k', name)) = _ :=
        ofKey_erase_self (k', name) s.pending
      rw [herase]
      change (List.erase (ofKey Prod.fst k' s.pending) _).map Prod.snd = _
      rw [hes, he, List.erase_cons_head, hfifo.2, channel_setChannel_self]
    · have hne : ofKey Prod.fst k' (s.pending.erase (k, name)) = ofKey Prod.fst k' s.pending :=
        ofKey_erase_ne hk s.pending
      rw [hne, hfifo, channel_setChannel_ne s hk]
  · change replay rowEffect (ofKey Prod.snd x (s.pending.erase (k, name)))
      (countName (watchFunction t md5 codePosition src k name (s.db, s.log)).2.1 x) =
        if ∃ n ∈ (s.setChannel k ⟨(s.channel k).queue, rest⟩).dir, n.text = x then 1 else 0
    rw [countName_watchFunction t md5 codePosition src k hname, (setChannel_frame s k _).1,
      ← hs.counts x]
    -- by `replay_of_isOldest` the statement does what the replay would have done first
    by_cases hx : x = name
    · subst hx
      rw [if_pos rfl]
      exact replay_of_isOldest rowEffect hold _
    · have hne : ofKey Prod.snd x (s.pending.erase (k, name)) = ofKey Prod.snd x s.pending :=
        ofKey_erase_ne hx s.pending
      rw [if_neg hx, hne]
  · exact hs.recordable e (List.mem_of_mem_erase he)

theorem tracks_step {l : Label} (hs : Tracks s) (hname : l.IsRecordable) (hl : l.InOrder s)
    (h : step t md5 codePosition s l = some s') : Tracks s' := by
  cases l with
  | op o =>
    obtain ⟨dir, hrun, rfl⟩ := Option.map_eq_some_iff.mp h
    exact tracks_op hs hname hrun
  | read k count =>
    simp only [step] at h
    split at h
    · rename_i hread
      cases h
      exact tracks_read hs hread.1 hread.2.2.2
    · cases h
  | handle k src =>
    simp only [step] at h
    split at h
    · cases h
    · rename_i name rest hbatch
      cases h
      apply tracks_handle hs hbatch
      apply hl
      simp [hbatch]

end Steps

/-- In a quiet state nothing is pending. -/
theorem pending_of_quiet {s : State} (hs : Tracks s) (hquiet : s.Quiet) : s.pending = [] := by
  apply List.eq_nil_iff_forall_not_mem.mpr
  intro e he
  have hfifo := hs.fifo e.1
  obtain ⟨hqueue, hbatch⟩ := hquiet e.1
  rw [hqueue, hbatch] at hfifo
  have hmem : e ∈ ofKey Prod.fst e.1 s.pending := List.mem_filter.mpr ⟨he, by simp⟩
  -- a pending event would be in the queue or the batch of its watcher
  rw [List.map_eq_nil_iff.mp hfifo] at hmem
  cases hmem

theorem mirrors_of_quiet {s : State} (hs : Tracks s) (hquiet : s.Quiet) : s.Mirrors := by
  apply mirrors_of_countName
  intro x
  have hcount := hs.counts x
  rw [pending_of_quiet hs hquiet] at hcount
  exact hcount

/-- In every run whose handled events are the oldest of their names, whenever both queues are empty
and both threads are idle, the table has one row for each name of the directory and no other row. -/
theorem table_follows_directory (t : TDB_type) (md5 : MD5) (codePosition : Text) {s : State}
    (h : Reachable (step t md5 codePosition) (fun s l => l.IsRecordable ∧ l.InOrder s)
      State.IsInit s) (hquiet : s.Quiet) : s.Mirrors := by
  have hs : Tracks s :=
    h.invariant (fun _ => tracks_init) fun _ _ _ hs hok hst => tracks_step hs hok.1 hok.2 hst
  exact mirrors_of_quiet hs hquiet

/-! ## Concrete runs -/

instance (s : State) : Decidable s.Mirrors :=
  inferInstanceAs (Decidable (_ ∧ _))

instance (s : State) : Decidable s.Quiet :=
  decidable_of_iff
    ((s.inDelete.queue = [] ∧ s.inDelete.batch = []) ∧ s.inAdd.queue = [] ∧ s.inAdd.batch = [])
    ⟨fun h k => by cases k; exacts [h.1, h.2], fun h => ⟨h .m_inotyInDelete, h .m_inotyInAdd⟩⟩

instance (n : Text) : Decidable (Recordable n) :=
  decidable_of_iff (quote ∉ n ∧ nul ∉ n ∧ ¬ journalMark <:+: n)
    ⟨fun h => ⟨h.1, h.2.1, h.2.2⟩, fun h => ⟨h.quoteFree, h.nulFree, h.notJournal⟩⟩

instance : DecidablePred Label.IsRecordable
  | .op o => inferInstanceAs (Decidable (Recordable o.name.text))
  | .read _ _ | .handle _ _ => isTrue trivial

instance : DecidableRel Label.InOrder
  | s, .handle k _ =>
      inferInstanceAs
        (Decidable (∀ name ∈ (s.channel k).batch.head?, IsOldest Prod.snd (k, name) s.pending))
  | _, .op _ | _, .read _ _ => isTrue trivial

/-- An empty directory, and the daemon waiting. -/
def emptyState : State := ⟨[], ⟨[], []⟩, ⟨[], []⟩, ⟨[], 1⟩, [], []⟩

theorem isInit_emptyState : emptyState.IsInit := ⟨by decide, by decide, rfl⟩

/-- One file comes and goes, another one is moved in; the events of `songA` are handled in order. -/
def orderedRun : List Label :=
  [.op (.create songA), .op (.moveIn songB 7), .op (.unlink songA), .read .m_inotyInDelete 1,
    .read .m_inotyInAdd 2, .handle .m_inotyInAdd (repeatedSources 'a'),
    .handle .m_inotyInDelete (repeatedSources 'b'), .handle .m_inotyInAdd (repeatedSources 'c')]

theorem table_follows_directory_orderedRun :
    ∃ s, exec (step .SQLITE headDigest []) (fun s l => l.IsRecordable ∧ l.InOrder s) emptyState
        orderedRun = some s ∧ s.Quiet ∧ s.dir = [songB] ∧ s.Mirrors := by
  have hexec : ((exec (step .SQLITE headDigest []) (fun s l => l.IsRecordable ∧ l.InOrder s)
      emptyState orderedRun).map fun s => decide (s.Quiet ∧ s.dir = [songB])) = some true := by
    decide +kernel
  obtain ⟨s, hs, hquiet, hdir⟩ := exec_decide_sound hexec
  exact ⟨s, hs, hquiet, hdir,
    table_follows_directory .SQLITE headDigest [] (reachable_of_exec isInit_emptyState _ hs) hquiet⟩

/-- The thread of the deletions is faster: the row of a file that is gone stays in the table. -/
def phantomRun : List Label :=
  [.op (.create songA), .op (.unlink songA), .read .m_inotyInDelete 1,
    .handle .m_inotyInDelete (repeatedSources 'a'), .read .m_inotyInAdd 1,
    .handle .m_inotyInAdd (repeatedSources 'a')]

/-- Without the order of handling the table does not follow the directory. -/
theorem not_table_follows_directory_phantomRun :
    ¬ ∀ (t : TDB_type) (md5 : MD5) (codePosition : Text) (s : State),
      Reachable (step t md5 codePosition) (fun _ l => l.IsRecordable) State.IsInit s →
        s.Quiet → s.Mirrors := by
  intro hall
  have hexec : ((exec (step .SQLITE headDigest []) (fun _ l => l.IsRecordable)
      emptyState phantomRun).map fun s => decide (s.Quiet ∧ ¬ s.Mirrors)) = some true := by
    decide +kernel
  obtain ⟨s, hs, hquiet, hphantom⟩ := exec_decide_sound hexec
  exact hphantom (hall _ _ _ s (reachable_of_exec isInit_emptyState _ hs) hquiet)

end PetProject.Watch
