import PetProject.Foundation.LockedCalls
import PetProject.Logger.Retention

/-!
# Logging from several threads

`FAST_LOG` of `pet_logger/src/pet_logger.cpp` statement by statement. The threads of a daemon share
one logger: its members, the stream `m_out` with its buffer, the stringstream `m_ss` in which the
date is put together. `m_mtx` is held from the first statement to the last.

Every interleaving of the threads leaves what the calls leave one after the other in the order in
which they took the mutex (`calls_serialize`), so that what holds along the runs of `FAST_LOG` holds
of the threads. At any moment, with the mutex held or not, the files hold whole records, and behind
them at most one part of the record that is being written.

The buffer of `m_out` has an arbitrary size. `m_timeData` is a static value of `localtime`; no other
thread of a daemon calls `localtime` while its logger is in use.
-/

set_option autoImplicit false

namespace PetProject.Logger

open PetProject.Foundation PetProject.Foundation.TextSearch PetProject.Foundation.NumberedFiles
open PetProject.Foundation.Transition PetProject.Workers

universe u

/-! ## The statements of `FAST_LOG` -/

/-- What the threads share. -/
structure Shared where
  logger : petLogger
  /-- `m_tv` and the value that `m_timeData` points to. -/
  m_tv : Option (LocalTime × Nat)
  m_ss : Text
  /-- What was written to `m_out` and is not in its file yet. -/
  buffer : Bytes
  disk : Text → Bytes
  cerr : List Text

inductive Point where
  | isOpen
  | gettimeofday
  /-- `m_ss.str(std::string())`. -/
  | clear
  /-- The operand `k` is next in `m_ss << .. << ..`. -/
  | format (k : Nat)
  /-- `return m_ss.str()`. -/
  | str
  /-- The operands that are left of `m_out << .. << ..`. -/
  | insert (operands : List Bytes)
  | flush
  | getFilesize
  | close
  | createNewLogfile (message : Text)
  | complain (message : Text)

/-- The operands of `m_ss << .. << ..`. -/
def dateOperands : LocalTime × Nat → List Text
  | (t, tv_usec) =>
      [decimal t.tm_mday, " ".toList, m_monthNames.getD t.tm_mon [], " ".toList,
        decimalInt (1900 + t.tm_year), " ".toList, decimal t.tm_hour, ":".toList, decimal t.tm_min,
        ":".toList, decimal t.tm_sec, ":".toList, decimal tv_usec, logFieldsDelimeter]

/-- The operands of `m_out << .. << ..`, when `getHumanReadableDate` has returned `date`. -/
def operands (date : Text) (c : LogCall) : List Bytes :=
  [utf8 date, utf8 (decimal c.threadID), c.codeInfoAndMessage, utf8 ['\n']]

/-- The insertion of one operand into `m_out`. When the buffer cannot take it, both are written. -/
def Shared.put (bufferSize : Nat) (s : Shared) (bs : Bytes) : Shared :=
  match s.logger.m_out with
  | none => s
  | some out =>
      let logger := { s.logger with m_out := some ⟨out.path, out.tellp + bs.length⟩ }
      if s.buffer.length + bs.length ≤ bufferSize then
        { s with logger := logger, buffer := s.buffer ++ bs }
      else
        { s with
          logger := logger
          buffer := []
          disk := Function.update s.disk out.path (s.disk out.path ++ (s.buffer ++ bs)) }

/-- `m_out.flush()`. -/
def Shared.flush (s : Shared) : Shared :=
  match s.logger.m_out with
  | none => s
  | some out =>
      { s with
        buffer := []
        disk := Function.update s.disk out.path (s.disk out.path ++ s.buffer) }

/-- `m_out.tellp()`. -/
def Shared.getFilesize (s : Shared) : Nat :=
  match s.logger.m_out with
  | none => 2 ^ 64 - 1
  | some out => out.tellp

/-- One statement, and where the call goes on; `none` at the end of `FAST_LOG`. -/
def next (bufferSize : Nat) (l : LogCall × Point) (s : Shared) :
    Shared × Option (LogCall × Point) :=
  let c := l.1
  match l.2 with
  | .isOpen =>
      (s, some (c, if s.logger.m_out.isSome then .gettimeofday else .createNewLogfile reopenError))
  | .gettimeofday =>
      match c.timeOfDay with
      | none => (s, some (c, .insert (operands (getHumanReadableDate none) c)))
      | some now => ({ s with m_tv := some now }, some (c, .clear))
  | .clear => ({ s with m_ss := [] }, some (c, .format 0))
  | .format k =>
      match (s.m_tv.elim [] dateOperands)[k]? with
      | some operand => ({ s with m_ss := s.m_ss ++ operand }, some (c, .format (k + 1)))
      | none => (s, some (c, .str))
  | .str => (s, some (c, .insert (operands s.m_ss c)))
  | .insert [] => (s, some (c, .flush))
  | .insert (bs :: rest) => (s.put bufferSize bs, some (c, .insert rest))
  | .flush => (s.flush, some (c, .getFilesize))
  | .getFilesize =>
      if s.logger.m_maxFileSize ≤ s.getFilesize then (s, some (c, .close)) else (s, none)
  | .close =>
      -- the file is open: nothing has closed it since the first statement
      let flushed := s.flush
      ({ flushed with logger := { flushed.logger with m_out := none } },
        some (c, .createNewLogfile rotationError))
  | .createNewLogfile message =>
      if c.opens then
        let path := s.logger.logfilePath c.time
        ({ s with
            logger := { s.logger with m_out := some ⟨path, 0⟩ }
            disk := Function.update s.disk path [] }, none)
      else ({ s with logger := { s.logger with m_out := none } }, some (c, .complain message))
  | .complain message => ({ s with cerr := s.cerr ++ [message] }, none)

/-- `FAST_LOG` under `m_mtx`. -/
def fastLog (bufferSize : Nat) : LockedCalls.Body Shared (LogCall × Point) LogCall where
  start c := (c, .isOpen)
  next := next bufferSize

/-! ## What the files hold -/

/-- The bytes of a file. -/
def contents (lines : List (Line Bytes)) : Bytes := lines.flatMap Line.content

@[simp] theorem contents_append (f : Files Text Bytes) (path : Text) (l : Line Bytes) (k : Text) :
    contents (append f path l k) = contents (f k) ++ if k = path then l.content else [] := by
  unfold append contents
  by_cases h : k = path
  · subst h
    simp
  · simp [h]

theorem contents_empty (f : Files Text Bytes) (path k : Text) :
    contents (empty f path k) = Function.update (fun k => contents (f k)) path [] k := by
  unfold empty contents
  by_cases h : k = path
  · subst h
    simp
  · simp [h]

/-- Between two calls: nothing is in the buffer, and the files hold the records. -/
structure Shows (s : Shared) (w : World) : Prop where
  logger : s.logger = w.logger
  buffer : s.buffer = []
  disk : ∀ path, s.disk path = contents (w.disk path)
  cerr : s.cerr = w.cerr

/-- The bytes `bs` were written to the open file, and those in the buffer are not in it yet. -/
structure Writing (s : Shared) (w : World) (out : OutStream) (bs : Bytes) : Prop where
  logger : s.logger = { w.logger with m_out := some ⟨out.path, out.tellp + bs.length⟩ }
  disk : ∃ part, part ++ s.buffer = bs ∧
    ∀ path, s.disk path = contents (w.disk path) ++ if path = out.path then part else []
  cerr : s.cerr = w.cerr

theorem Shows.writing {s : Shared} {w : World} (h : Shows s w) {out : OutStream}
    (hout : w.logger.m_out = some out) : Writing s w out [] where
  logger := by
    rw [h.logger]
    cases hw : w.logger with
    | mk name dir size m_out =>
      rw [hw] at hout
      cases hout
      rfl
  disk := ⟨[], by simp [h.buffer], fun path => by simp [h.disk]⟩
  cerr := h.cerr

theorem Writing.put {s : Shared} {w : World} {out : OutStream} {bs : Bytes}
    (h : Writing s w out bs) (bufferSize : Nat) (more : Bytes) :
    Writing (s.put bufferSize more) w out (bs ++ more) := by
  obtain ⟨part, hpart, hdisk⟩ := h.disk
  have hout : s.logger.m_out = some ⟨out.path, out.tellp + bs.length⟩ := by rw [h.logger]
  unfold Shared.put
  simp only [hout]
  split
  · refine ⟨?_, ⟨part, ?_, hdisk⟩, h.cerr⟩
    · simp [h.logger, Nat.add_assoc]
    · simp [← hpart]
  · refine ⟨?_, ⟨bs ++ more, by simp, fun path => ?_⟩, h.cerr⟩
    · simp [h.logger, Nat.add_assoc]
    · by_cases hpath : path = out.path
      · subst hpath
        simp [hdisk, ← hpart]
      · simp [hdisk, hpath]

theorem Writing.flush {s : Shared} {w : World} {out : OutStream} {bs : Bytes}
    (h : Writing s w out bs) : Writing s.flush w out bs ∧ s.flush.buffer = [] := by
  obtain ⟨part, hpart, hdisk⟩ := h.disk
  have hout : s.logger.m_out = some ⟨out.path, out.tellp + bs.length⟩ := by rw [h.logger]
  unfold Shared.flush
  simp only [hout]
  refine ⟨⟨h.logger, ⟨bs, by simp, fun path => ?_⟩, h.cerr⟩, trivial⟩
  by_cases hpath : path = out.path
  · subst hpath
    simp [hdisk, ← hpart]
  · simp [hdisk, hpath]

/-- The whole record is written and the buffer is empty. -/
theorem Writing.shows {s : Shared} {w : World} {out : OutStream} {c : LogCall}
    (h : Writing s w out (record c)) (hbuffer : s.buffer = []) (n : Nat) :
    Shows s (write n c out w) where
  logger := h.logger
  buffer := hbuffer
  disk := by
    obtain ⟨part, hpart, hdisk⟩ := h.disk
    rw [hbuffer, List.append_nil] at hpart
    intro path
    rw [hdisk, hpart]
    simp [write]
  cerr := h.cerr

/-! ## What holds in front of each statement -/

/-- The call `c` with the number `n` was begun when the logger showed `w`. -/
def Holds (n : Nat) (c : LogCall) (w : World) (s : Shared) : Point → Prop
  | .isOpen => Shows s w
  | .gettimeofday => Shows s w ∧ w.isOpen = true
  | .clear => Shows s w ∧ w.isOpen = true ∧ ∃ now, c.timeOfDay = some now ∧ s.m_tv = some now
  | .format k =>
      Shows s w ∧ w.isOpen = true ∧ ∃ now, c.timeOfDay = some now ∧ s.m_tv = some now ∧
        s.m_ss = ((dateOperands now).take k).flatten
  | .str => Shows s w ∧ w.isOpen = true ∧ s.m_ss = getHumanReadableDate c.timeOfDay
  | .insert rest =>
      ∃ out done, w.logger.m_out = some out ∧
        done ++ rest = operands (getHumanReadableDate c.timeOfDay) c ∧
        Writing s w out done.flatten
  | .flush => ∃ out, w.logger.m_out = some out ∧ Writing s w out (record c)
  | .getFilesize => ∃ out, w.logger.m_out = some out ∧ Writing s w out (record c) ∧ s.buffer = []
  | .close =>
      ∃ out, w.logger.m_out = some out ∧ Writing s w out (record c) ∧ s.buffer = [] ∧
        w.logger.fillsUp out c
  | .createNewLogfile message =>
      ∃ v, Shows s v ∧ FAST_LOG n c w = reopen v c message ∧
        (v.disk = w.disk ∨ ∃ out, w.logger.m_out = some out ∧ v.disk = (write n c out w).disk)
  | .complain message =>
      ∃ v, Shows s v ∧ FAST_LOG n c w = { v with cerr := v.cerr ++ [message] }

/-- What holds behind the statement that led to `u`. -/
def HoldsAfter (n : Nat) (c : LogCall) (w : World) : Shared × Option (LogCall × Point) → Prop
  | (u, some l) => l.1 = c ∧ Holds n c w u l.2
  | (u, none) => Shows u (FAST_LOG n c w)

theorem flatten_dateOperands (now : LocalTime × Nat) :
    (dateOperands now).flatten = getHumanReadableDate (some now) := by
  obtain ⟨t, tv_usec⟩ := now
  have hspace : " ".toList = [' '] := by decide
  have hcolon : ":".toList = [':'] := by decide
  unfold getHumanReadableDate
  simp only [dateOperands, hspace, hcolon, List.flatten_cons, List.flatten_nil, List.append_nil,
    List.singleton_append]

theorem flatten_operands (c : LogCall) :
    (operands (getHumanReadableDate c.timeOfDay) c).flatten = record c := by
  simp [operands, record]

section Statements

variable {n bufferSize : Nat} {c : LogCall} {w : World} {s : Shared}

theorem holds_insert_operands (h : Shows s w) (hopen : w.isOpen = true) :
    Holds n c w s (.insert (operands (getHumanReadableDate c.timeOfDay) c)) := by
  obtain ⟨out, hout⟩ := Option.isSome_iff_exists.mp hopen
  exact ⟨out, [], hout, rfl, h.writing hout⟩

theorem holds_date {p : Point} (h : Holds n c w s p)
    (hp : p = .gettimeofday ∨ p = .clear ∨ (∃ k, p = .format k) ∨ p = .str) :
    HoldsAfter n c w (next bufferSize (c, p) s) := by
  rcases hp with rfl | rfl | ⟨k, rfl⟩ | rfl
  · obtain ⟨hshows, hopen⟩ := h
    cases htime : c.timeOfDay with
    | none =>
      have hinsert := holds_insert_operands (n := n) (c := c) hshows hopen
      simp only [next, htime]
      rw [htime] at hinsert
      exact ⟨rfl, hinsert⟩
    | some now =>
      simp only [next, htime]
      exact ⟨rfl, ⟨hshows.logger, hshows.buffer, hshows.disk, hshows.cerr⟩, hopen, now, htime, rfl⟩
  · obtain ⟨hshows, hopen, now, htime, htv⟩ := h
    exact ⟨rfl, ⟨hshows.logger, hshows.buffer, hshows.disk, hshows.cerr⟩, hopen, now, htime, htv,
      rfl⟩
  · obtain ⟨hshows, hopen, now, htime, htv, hss⟩ := h
    simp only [next, htv, Option.elim_some]
    cases hk : (dateOperands now)[k]? with
    | some operand =>
      refine ⟨rfl, ⟨hshows.logger, hshows.buffer, hshows.disk, hshows.cerr⟩, hopen, now, htime, rfl,
        ?_⟩
      rw [List.take_add_one, hk]
      simp [hss]
    | none =>
      refine ⟨rfl, hshows, hopen, ?_⟩
      rw [hss, List.take_of_length_le (List.getElem?_eq_none_iff.mp hk), flatten_dateOperands,
        htime]
  · obtain ⟨hshows, hopen, hss⟩ := h
    have hinsert := holds_insert_operands (n := n) (c := c) hshows hopen
    simp only [next]
    rw [← hss] at hinsert
    exact ⟨rfl, hinsert⟩

theorem holds_isOpen (h : Holds n c w s .isOpen) :
    HoldsAfter n c w (next bufferSize (c, .isOpen) s) := by
  have hshows : Shows s w := h
  cases hout : w.logger.m_out with
  | some out =>
    simp only [next, hshows.logger, hout, Option.isSome_some, if_true]
    exact ⟨rfl, hshows, by rw [World.isOpen, hout]; rfl⟩
  | none =>
    simp only [next, hshows.logger, hout, Option.isSome_none, Bool.false_eq_true, if_false]
    refine ⟨rfl, w, hshows, ?_, Or.inl rfl⟩
    simp only [FAST_LOG, hout]

theorem holds_insert {rest : List Bytes} (h : Holds n c w s (.insert rest)) :
    HoldsAfter n c w (next bufferSize (c, .insert rest) s) := by
  obtain ⟨out, done, hout, hoperands, hwriting⟩ := h
  cases rest with
  | nil =>
    rw [List.append_nil] at hoperands
    refine ⟨rfl, out, hout, ?_⟩
    rw [← flatten_operands, ← hoperands]
    exact hwriting
  | cons bs rest =>
    refine ⟨rfl, out, done ++ [bs], hout, by simpa using hoperands, ?_⟩
    simpa using hwriting.put bufferSize bs

theorem holds_getFilesize (h : Holds n c w s .getFilesize) :
    HoldsAfter n c w (next bufferSize (c, .getFilesize) s) := by
  obtain ⟨out, hout, hwriting, hbuffer⟩ := h
  have hsize : s.logger.m_maxFileSize ≤ s.getFilesize ↔ w.logger.fillsUp out c := by
    rw [Shared.getFilesize, hwriting.logger]
    exact Iff.rfl
  simp only [next]
  split
  · rename_i hfull
    exact ⟨rfl, out, hout, hwriting, hbuffer, hsize.mp hfull⟩
  · rename_i hfull
    have hrun : FAST_LOG n c w = write n c out w := by
      simp only [FAST_LOG, hout, mt hsize.mpr hfull, if_false]
    change Shows s (FAST_LOG n c w)
    rw [hrun]
    exact hwriting.shows hbuffer n

theorem holds_close (h : Holds n c w s .close) :
    HoldsAfter n c w (next bufferSize (c, .close) s) := by
  obtain ⟨out, hout, hwriting, -, hfull⟩ := h
  obtain ⟨hwriting, hbuffer⟩ := hwriting.flush
  have hshows := hwriting.shows hbuffer n
  let written := write n c out w
  refine ⟨rfl, { written with logger := { written.logger with m_out := none } },
    ⟨?_, hshows.buffer, hshows.disk, hshows.cerr⟩, ?_, Or.inr ⟨out, hout, rfl⟩⟩
  · exact congrArg (fun lg => { lg with m_out := none }) hshows.logger
  · simp only [FAST_LOG, hout, hfull, if_true, written]

theorem holds_createNewLogfile {message : Text} (h : Holds n c w s (.createNewLogfile message)) :
    HoldsAfter n c w (next bufferSize (c, .createNewLogfile message) s) := by
  obtain ⟨v, hshows, hrun, -⟩ := h
  cases hopens : c.opens with
  | true =>
    simp only [next, hopens, if_true]
    change Shows _ (FAST_LOG n c w)
    rw [hrun]
    simp only [reopen, createNewLogfile, hopens, if_true]
    refine ⟨?_, hshows.buffer, fun path => ?_, hshows.cerr⟩
    · rw [hshows.logger]
    · simp only [contents_empty, hshows.logger]
      congr 1
      exact funext hshows.disk
  | false =>
    simp only [next, hopens, Bool.false_eq_true, if_false]
    refine ⟨rfl, { v with logger := { v.logger with m_out := none } },
      ⟨?_, hshows.buffer, hshows.disk, hshows.cerr⟩, ?_⟩
    · rw [hshows.logger]
    · rw [hrun]
      simp only [reopen, createNewLogfile, hopens, Bool.false_eq_true, if_false]

theorem holds_complain {message : Text} (h : Holds n c w s (.complain message)) :
    HoldsAfter n c w (next bufferSize (c, .complain message) s) := by
  obtain ⟨v, hshows, hrun⟩ := h
  change Shows _ (FAST_LOG n c w)
  rw [hrun]
  exact ⟨hshows.logger, hshows.buffer, hshows.disk, by rw [hshows.cerr]⟩

/-- Each statement leads from what holds in front of it to what holds in front of the next one. -/
theorem holds_next {p : Point} (h : Holds n c w s p) :
    HoldsAfter n c w (next bufferSize (c, p) s) := by
  cases p with
  | isOpen => exact holds_isOpen h
  | gettimeofday => exact holds_date h (Or.inl rfl)
  | clear => exact holds_date h (Or.inr (Or.inl rfl))
  | format k => exact holds_date h (Or.inr (Or.inr (Or.inl ⟨k, rfl⟩)))
  | str => exact holds_date h (Or.inr (Or.inr (Or.inr rfl)))
  | insert rest => exact holds_insert h
  | flush =>
    obtain ⟨out, hout, hwriting⟩ := h
    exact ⟨rfl, out, hout, hwriting.flush⟩
  | getFilesize => exact holds_getFilesize h
  | close => exact holds_close h
  | createNewLogfile message => exact holds_createNewLogfile h
  | complain message => exact holds_complain h

end Statements

section Call

variable {bufferSize : Nat} {c : LogCall} {w : World} {s u : Shared}

theorem holds_of_at (n : Nat) (h : Shows s w) {l : LogCall × Point}
    (hat : (fastLog bufferSize).At c s l u) : l.1 = c ∧ Holds n c w u l.2 := by
  induction hat with
  | start => exact ⟨rfl, h⟩
  | next hat hnext ih =>
    obtain ⟨hc, hholds⟩ := ih
    cases hc
    have hafter : HoldsAfter n _ w (next bufferSize _ _) := holds_next hholds
    have heq : next bufferSize _ _ = _ := hnext
    rw [heq] at hafter
    exact hafter

/-- A whole call leaves what `FAST_LOG` leaves. -/
theorem shows_of_ends (n : Nat) (h : Shows s w) (hends : (fastLog bufferSize).Ends c s u) :
    Shows u (FAST_LOG n c w) := by
  obtain ⟨l, t, hat, hnext⟩ := hends
  obtain ⟨hc, hholds⟩ := holds_of_at n h hat
  cases hc
  have hafter : HoldsAfter n _ w (next bufferSize _ _) := holds_next hholds
  have heq : next bufferSize _ _ = _ := hnext
  rw [heq] at hafter
  exact hafter

/-- What the files hold while the call with the number `n` is on its way: the records from before
and a part of its own record, or what the call leaves. -/
def Midway (disk : Text → Bytes) (n : Nat) (c : LogCall) (w : World) : Prop :=
  (∃ part, part <+: record c ∧ ∀ path, disk path = contents (w.disk path) ++
    if w.logger.m_out.map OutStream.path = some path then part else []) ∨
  ∀ path, disk path = contents ((FAST_LOG n c w).disk path)

theorem Shows.midway (h : Shows s w) (n : Nat) (c : LogCall) : Midway s.disk n c w :=
  Or.inl ⟨[], List.nil_prefix, fun path => by simp [h.disk]⟩

theorem Writing.midway {out : OutStream} {bs : Bytes} (h : Writing s w out bs)
    (hout : w.logger.m_out = some out) (hbs : bs <+: record c) (n : Nat) :
    Midway s.disk n c w := by
  obtain ⟨part, hpart, hdisk⟩ := h.disk
  have hprefix : part <+: record c := by
    rw [← hpart] at hbs
    exact (List.prefix_append part s.buffer).trans hbs
  refine Or.inl ⟨part, hprefix, fun path => ?_⟩
  rw [hdisk, hout]
  simp only [Option.map_some, Option.some.injEq, eq_comm]

theorem midway_of_holds {n : Nat} {p : Point} (h : Holds n c w s p) : Midway s.disk n c w := by
  cases p with
  | isOpen => exact Shows.midway h n c
  | gettimeofday => exact h.1.midway n c
  | clear => exact h.1.midway n c
  | format k => exact h.1.midway n c
  | str => exact h.1.midway n c
  | insert rest =>
    obtain ⟨out, done, hout, hoperands, hwriting⟩ := h
    refine hwriting.midway hout ?_ n
    rw [← flatten_operands, ← hoperands, List.flatten_append]
    exact List.prefix_append ..
  | flush =>
    obtain ⟨out, hout, hwriting⟩ := h
    exact hwriting.midway hout (List.prefix_refl _) n
  | getFilesize =>
    obtain ⟨out, hout, hwriting, -⟩ := h
    exact hwriting.midway hout (List.prefix_refl _) n
  | close =>
    obtain ⟨out, hout, hwriting, -⟩ := h
    exact hwriting.midway hout (List.prefix_refl _) n
  | createNewLogfile message =>
    obtain ⟨v, hshows, -, hdisk | ⟨out, hout, hdisk⟩⟩ := h
    · refine Or.inl ⟨[], List.nil_prefix, fun path => ?_⟩
      simp [hshows.disk, hdisk]
    · refine Or.inl ⟨record c, List.prefix_refl _, fun path => ?_⟩
      simp [hshows.disk, hdisk, hout, write, eq_comm]
  | complain message =>
    obtain ⟨v, hshows, hrun⟩ := h
    right
    rw [hrun]
    exact hshows.disk

end Call

/-! ## Runs of the threads -/

section Threads

variable {τ : Type u} [DecidableEq τ] {bufferSize : Nat} {st₀ : State} {s₀ : Shared}
  {program : τ → List LogCall} {ls : List (LockedCalls.Label τ)}
  {s : LockedCalls.State τ Shared (LogCall × Point) LogCall}

/-- One call in the run of `FAST_LOG`. -/
def oneCall (c : LogCall) (st : State) : State := (step st c).getD st

omit [DecidableEq τ] in
theorem run_after (st₀ : State) (log : List (τ × LogCall)) :
    Run step Always st₀ (log.map Prod.snd) (LockedCalls.after oneCall st₀ log) := by
  induction log using List.reverseRecOn with
  | nil => exact Run.nil
  | append_singleton log e ih =>
    rw [List.map_append, LockedCalls.after, List.foldl_concat]
    exact Run.snoc ih trivial rfl

theorem serial_fastLog (h₀ : Shows s₀ st₀.world)
    (h : Run (LockedCalls.step (fastLog bufferSize)) Always (LockedCalls.initial s₀ program) ls s) :
    LockedCalls.Serial (fastLog bufferSize) (fun s st => Shows s st.world) oneCall st₀ program s :=
  LockedCalls.serial_of_run (fun _ _ _ st hshows hends => shows_of_ends st.calls hshows hends) h₀ h

/-- The number of statements that are left, at most. -/
def Point.rank : Point → Nat
  | .isOpen => 28
  | .gettimeofday => 27
  | .clear => 26
  | .format k => 11 + (14 - k)
  | .str => 10
  | .insert operands => 5 + operands.length
  | .flush => 4
  | .getFilesize => 3
  | .close => 2
  | .createNewLogfile _ => 1
  | .complain _ => 0

theorem rank_next {l l' : LogCall × Point} {s u : Shared}
    (h : next bufferSize l s = (u, some l')) : l'.2.rank < l.2.rank := by
  obtain ⟨c, p⟩ := l
  cases p with
  | isOpen =>
    cases h
    split <;> simp [Point.rank]
  | gettimeofday =>
    simp only [next] at h
    split at h
    · cases h
      simp [Point.rank, operands]
    · cases h
      simp [Point.rank]
  | clear =>
    cases h
    simp [Point.rank]
  | format k =>
    simp only [next] at h
    split at h
    · rename_i operand hk
      cases h
      have hlt := (List.getElem?_eq_some_iff.mp hk).1
      have hlength : (s.m_tv.elim [] dateOperands).length ≤ 14 := by
        cases s.m_tv with
        | none => exact Nat.zero_le _
        | some now => exact Nat.le_refl 14
      simp only [Point.rank]
      omega
    · cases h
      simp only [Point.rank]
      omega
  | str =>
    cases h
    simp [Point.rank, operands]
  | insert rest =>
    cases rest with
    | nil =>
      cases h
      simp [Point.rank]
    | cons bs rest =>
      cases h
      simp only [Point.rank, List.length_cons]
      omega
  | flush =>
    cases h
    simp [Point.rank]
  | getFilesize =>
    simp only [next] at h
    split at h
    · cases h
      simp [Point.rank]
    · cases h
  | close =>
    cases h
    simp [Point.rank]
  | createNewLogfile message =>
    simp only [next] at h
    split at h
    · cases h
    · cases h
      simp [Point.rank]
  | complain message => cases h

theorem midway_of_runs {c : LogCall} {th : LockedCalls.Thread (LogCall × Point) LogCall}
    {w : World} {begun shared : Shared} (n : Nat) (hshows : Shows begun w)
    (hruns : th.Runs (fastLog bufferSize) begun shared) (hcall : th.progress.call = [c]) :
    Midway shared.disk n c w := by
  unfold LockedCalls.Thread.Runs at hruns
  cases hprogress : th.progress with
  | waiting =>
    rw [hprogress] at hruns
    exact hruns.elim
  | inside c' l =>
    rw [hprogress] at hruns hcall
    cases hcall
    exact midway_of_holds (holds_of_at n hshows hruns).2
  | ended c' =>
    rw [hprogress] at hruns hcall
    cases hcall
    exact Or.inr (shows_of_ends n hshows hruns).disk

/-- In whatever order the threads take their steps, the calls that are over make a run of `FAST_LOG`
in the order of the mutex, which keeps the order of each thread. With the mutex free the logger, the
files and `cerr` are what that run leaves; with the mutex held the files are what it leaves and a
part of one more record behind it, or what one more call leaves. The steps are bounded, and where no
thread can take one, all calls are over. -/
theorem calls_serialize [Fintype τ] (h₀ : Shows s₀ st₀.world)
    (h : Run (LockedCalls.step (fastLog bufferSize)) Always
      (LockedCalls.initial s₀ program) ls s) :
    ∃ st, Run step Always st₀ (s.log.map Prod.snd) st ∧
      (∀ t, s.made t <+: program t) ∧
      (s.mutex = none → Shows s.shared st.world) ∧
      (∀ t, s.mutex = some t → ∃ c, s.made t ++ [c] <+: program t ∧
        Midway s.shared.disk st.calls c st.world) ∧
      ls.length ≤ (∑ t, (program t).length) * 31 ∧
      ((∀ l, LockedCalls.step (fastLog bufferSize) s l = none) →
        s.mutex = none ∧ ∀ t, s.made t = program t) := by
  have hserial := serial_fastLog h₀ h
  refine ⟨_, run_after st₀ s.log, fun t => ?_, fun hmutex => (hserial.free hmutex).1,
    fun t hmutex => ?_, ?_, hserial.all_made_of_stuck⟩
  · rw [← hserial.order t]
    exact List.prefix_append ..
  · obtain ⟨⟨begun, hshows, hruns⟩, -⟩ := hserial.held t hmutex
    obtain ⟨c, hcall⟩ := hruns.call
    refine ⟨c, ?_, midway_of_runs _ hshows hruns hcall⟩
    rw [← hserial.order t, hcall, ← List.append_assoc]
    exact List.prefix_append ..
  · exact LockedCalls.length_le (fun l => l.2.rank) 28 (fun _ => Nat.le_refl 28)
      (fun _ _ _ _ hnext => rank_next hnext) h

end Threads

/-! ## Two threads -/

/-- An opened logger, in the model of the whole calls. -/
def openedState : State :=
  ⟨⟨⟨"pet_http".toList, "/var/log".toList, mbToBytes, some ⟨"/var/log/a.log".toList, 0⟩⟩,
    fun _ => [], []⟩, 0, []⟩

/-- The same logger, in the model of the statements. -/
def openedShared : Shared :=
  ⟨openedState.world.logger, none, [], [], fun _ => [], []⟩

/-- Each of the two threads makes one call. -/
def twoThreads : Bool → List LogCall
  | false => [callAt (utf8 "b".toList) 101 true]
  | true => [callAt (utf8 "a".toList) 101 true]

/-- The first thread makes its call, the second one comes to the middle of its own. -/
def interleaving : List (LockedCalls.Label Bool) :=
  .lock false :: (List.replicate 9 (.next false) ++ .unlock false :: .lock true ::
    List.replicate 5 (.next true))

theorem calls_serialize_twoThreads :
    ∃ (s : LockedCalls.State Bool Shared (LogCall × Point) LogCall) (st : State),
      s.shared.disk "/var/log/a.log".toList =
        record (callAt (utf8 "b".toList) 101 true) ++ utf8 "not defined1".toList ∧
      s.mutex = some true ∧ Run step Always openedState (s.log.map Prod.snd) st ∧
      ∃ c, s.made true ++ [c] <+: twoThreads true ∧ Midway s.shared.disk st.calls c st.world := by
  have hexec : ((exec (LockedCalls.step (fastLog 11)) Always
      (LockedCalls.initial openedShared twoThreads) interleaving).map fun s =>
        decide (Shared.disk s.shared "/var/log/a.log".toList =
            record (callAt (utf8 "b".toList) 101 true) ++ utf8 "not defined1".toList ∧
          s.mutex = some true)) = some true := by
    decide +kernel
  obtain ⟨s, hs, hdisk, hmutex⟩ := exec_decide_sound hexec
  have hshows : Shows openedShared openedState.world := ⟨rfl, rfl, fun _ => rfl, rfl⟩
  obtain ⟨st, hrun, -, -, hheld, -⟩ := calls_serialize hshows (run_of_exec hs)
  exact ⟨s, st, hdisk, hmutex, hrun, hheld true hmutex⟩

end PetProject.Logger
