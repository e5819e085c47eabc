import Mathlib.Data.List.Basic
import PetProject.Watch.Uuid
import PetProject.Workers.Sql

/-!
# The handlers of file events

`fileWatch::deleteSongDataFromTDB` and `fileWatch::insertSongDataIntoTDB` of
`filewatch_daemon/src/filewatch_daemon.cpp`, the watch functions of the two watchers. A name with
the mark of a journal file is ignored; for any other name the handler logs a record and executes
one statement.
-/

set_option autoImplicit false

namespace PetProject.Watch

open PetProject.Foundation.TextSearch PetProject.Foundation.SqlLexer PetProject.Workers

/-- The two watchers of `fileWatch`, in the order of their declaration. -/
inductive Watcher where
  | m_inotyInDelete
  | m_inotyInAdd
  deriving DecidableEq, Repr

/-- The mark of the names that both handlers ignore. -/
def journalMark : Text := ".sqlite-journal".toList

/-- The parts of the daemon that a handler uses, over the state `σ` of the logger and the
database. -/
structure Services (σ : Type) where
  FAST_LOG : Text → σ → σ
  execQuery : Text → σ → Bool × σ

def deleteSongDataQuery (filename : Text) : Text :=
  "DELETE FROM song_list WHERE song_name ='".toList ++ (filename ++ "';".toList)

def insertSongDataQuery (filename uid : Text) : Text :=
  "INSERT INTO song_list(song_name, song_uid) VALUES ('".toList ++
    (filename ++ ("', '".toList ++ (uid ++ "');".toList)))

variable {σ : Type}

/-- `deleteSongDataFromTDB`; `codePosition` is the value of `CODE_POSITION()`. -/
def deleteSongDataFromTDB (sv : Services σ) (codePosition filename : Text) (s : σ) : Bool × σ :=
  if (find journalMark filename).isSome then (true, s)
  else
    sv.execQuery (deleteSongDataQuery filename)
      (sv.FAST_LOG (codePosition ++ "Удаляется файл: ".toList ++ filename) s)

/-- `insertSongDataIntoTDB`; `uid` is the value of `getNewUUID()`. -/
def insertSongDataIntoTDB (sv : Services σ) (codePosition uid filename : Text) (s : σ) :
    Bool × σ :=
  if (find journalMark filename).isSome then (true, s)
  else
    sv.execQuery (insertSongDataQuery filename uid)
      (sv.FAST_LOG (codePosition ++ "Добавлен файл: ".toList ++ filename) s)

/-- The handler of a watcher, as `initFileWatch` sets it. -/
def handler (sv : Services σ) (codePosition uid : Text) : Watcher → Text → σ → Bool × σ
  | .m_inotyInDelete => deleteSongDataFromTDB sv codePosition
  | .m_inotyInAdd => insertSongDataIntoTDB sv codePosition uid

/-- A name that the handlers record: free of quotes, of NUL and of the mark of journals. -/
structure Recordable (filename : Text) : Prop where
  quoteFree : quote ∉ filename
  nulFree : nul ∉ filename
  notJournal : ¬ journalMark <:+: filename

/-- The statement of a handler. -/
def handlerQuery (uid filename : Text) : Watcher → Text
  | .m_inotyInDelete => deleteSongDataQuery filename
  | .m_inotyInAdd => insertSongDataQuery filename uid

/-- What the statement of a handler says. -/
def handlerStatement (uid filename : Text) : Watcher → Statement
  | .m_inotyInDelete => .deleteSong filename
  | .m_inotyInAdd => .insertSong filename uid

/-- The record that a handler logs before its statement. -/
def handlerRecord (codePosition filename : Text) : Watcher → Text
  | .m_inotyInDelete => codePosition ++ "Удаляется файл: ".toList ++ filename
  | .m_inotyInAdd => codePosition ++ "Добавлен файл: ".toList ++ filename

section Handlers

variable (sv : Services σ) (codePosition uid : Text) (k : Watcher) {name : Text} (s : σ)

theorem handler_journal (h : journalMark <:+: name) :
    handler sv codePosition uid k name s = (true, s) := by
  have hfind : (find journalMark name).isSome = true := find_isSome_of_infix h
  cases k with
  | m_inotyInDelete => exact if_pos hfind
  | m_inotyInAdd => exact if_pos hfind

/-- For any other name a handler logs a record and executes one statement. -/
theorem handler_statement (h : ¬ journalMark <:+: name) :
    handler sv codePosition uid k name s =
      sv.execQuery (handlerQuery uid name k)
        (sv.FAST_LOG (handlerRecord codePosition name k) s) := by
  have hfind : ¬ (find journalMark name).isSome = true := by
    intro hfind
    exact h (find_isSome_iff.mp hfind)
  cases k with
  | m_inotyInDelete => exact if_neg hfind
  | m_inotyInAdd => exact if_neg hfind

end Handlers

/-! ## The handlers on the table of songs -/

theorem nul_notMem_uid {uid : Text} (h : IsUID uid) : nul ∉ uid := by
  intro hmem
  exact absurd (h.2 _ hmem) (by decide)

theorem quote_notMem_uid {uid : Text} (h : IsUID uid) : quote ∉ uid := by
  intro hmem
  exact absurd (h.2 _ hmem) (by decide)

theorem plain_getDefaultUUID (md5 : MD5) (src : UuidSources) :
    quote ∉ getDefaultUUID md5 src ∧ nul ∉ getDefaultUUID md5 src :=
  ⟨quote_notMem_uid (isUID_getDefaultUUID md5 src), nul_notMem_uid (isUID_getDefaultUUID md5 src)⟩

theorem nul_notMem_insertSongDataQuery {filename uid : Text} (hname : nul ∉ filename)
    (huid : nul ∉ uid) : nul ∉ insertSongDataQuery filename uid := by
  unfold insertSongDataQuery
  simp only [List.mem_append, not_or]
  exact ⟨by decide +kernel, hname, by decide +kernel, huid, by decide +kernel⟩

theorem nul_notMem_deleteSongDataQuery {filename : Text} (hname : nul ∉ filename) :
    nul ∉ deleteSongDataQuery filename := by
  unfold deleteSongDataQuery
  simp only [List.mem_append, not_or]
  exact ⟨by decide +kernel, hname, by decide +kernel⟩

/-- The text that a handler sends for a recordable name, as the database reads it. -/
theorem parseStatement_handlerQuery {filename uid : Text} (hname : Recordable filename)
    (huid : quote ∉ uid ∧ nul ∉ uid) (k : Watcher) :
    parseStatement (tokens (cStr (handlerQuery uid filename k))) =
      some (handlerStatement uid filename k) := by
  cases k with
  | m_inotyInDelete =>
    change parseStatement (tokens (cStr (deleteSongDataQuery filename))) = _
    rw [cStr_of_nulFree (nul_notMem_deleteSongDataQuery hname.nulFree)]
    exact parseStatement_delete hname.quoteFree
  | m_inotyInAdd =>
    change parseStatement (tokens (cStr (insertSongDataQuery filename uid))) = _
    rw [cStr_of_nulFree (nul_notMem_insertSongDataQuery hname.nulFree huid.2)]
    exact parseStatement_insert hname.quoteFree huid.1

theorem exec_handlerQuery (t : TDB_type) (db : SongList) {filename uid : Text}
    (hname : Recordable filename) (huid : quote ∉ uid ∧ nul ∉ uid) (k : Watcher) :
    db.exec t (handlerQuery uid filename k) =
      some (db.apply t (handlerStatement uid filename k)) := by
  unfold SongList.exec
  rw [parseStatement_handlerQuery hname huid k]
  rfl

/-- The services of a daemon whose every database call succeeds, over the table of songs; the
records of the logger are kept. -/
def tableServices (t : TDB_type) : Services (SongList × List Text) where
  FAST_LOG record s := (s.1, s.2 ++ [record])
  execQuery q s :=
    match s.1.exec t q with
    | some db => (true, (db, s.2))
    | none => (false, s)

/-- A handler on a recordable name, over the table. -/
theorem handler_table (t : TDB_type) (codePosition : Text) {filename uid : Text}
    (hname : Recordable filename) (huid : quote ∉ uid ∧ nul ∉ uid) (k : Watcher) (db : SongList)
    (log : List Text) :
    handler (tableServices t) codePosition uid k filename (db, log) =
      (true, (db.apply t (handlerStatement uid filename k),
        log ++ [handlerRecord codePosition filename k])) := by
  rw [handler_statement _ _ _ _ _ hname.notJournal]
  simp only [tableServices, exec_handlerQuery t db hname huid k]

theorem insertSongData_table (t : TDB_type) (codePosition : Text) {filename uid : Text}
    (hname : Recordable filename) (huid : quote ∉ uid ∧ nul ∉ uid) (db : SongList)
    (log : List Text) :
    insertSongDataIntoTDB (tableServices t) codePosition uid filename (db, log) =
      (true, (db.apply t (.insertSong filename uid),
        log ++ [codePosition ++ "Добавлен файл: ".toList ++ filename])) :=
  handler_table t codePosition hname huid .m_inotyInAdd db log

theorem deleteSongData_table (t : TDB_type) (codePosition : Text) {filename : Text}
    (hname : Recordable filename) (db : SongList) (log : List Text) :
    deleteSongDataFromTDB (tableServices t) codePosition filename (db, log) =
      (true, (db.apply t (.deleteSong filename),
        log ++ [codePosition ++ "Удаляется файл: ".toList ++ filename])) :=
  -- the handler of deletions makes no identifier
  have hempty : quote ∉ ([] : Text) ∧ nul ∉ ([] : Text) := ⟨List.not_mem_nil, List.not_mem_nil⟩
  handler_table t codePosition hname hempty .m_inotyInDelete db log

end PetProject.Watch
