import Mathlib.Data.List.Basic
import PetProject.Workers.Sql

/-!
# The database workers

`SQLiteWorker` and `postgreWorker` of `TDB_workers/src`, behind the interface `iworker`. A worker
builds a statement text, hands it to its database and turns the answer into a string. The database
answers with a failed connection, a failed query or the first column of a result.

`std::string` built from a null pointer throws `std::logic_error` (`makeString`).
-/

set_option autoImplicit false

namespace PetProject.Workers

open PetProject.Foundation.TextSearch PetProject.Foundation.SqlLexer

/-- `pet::errorTDBResponce`. -/
def errorTDBResponce : Text :=
  "\x7b\"error\":\"Ошибка при получении данных из ТБД\"\x7d".toList

/-- The answer of a database to a query with one column. -/
inductive QueryResult where
  | connectionFailure
  | queryError
  | rows (column : List Text)
  deriving DecidableEq, Repr

/-- `std::string` from a pointer to characters; the error is `std::logic_error`. -/
def makeString : Option Text → Except Unit Text
  | some s => .ok s
  | none => .error ()

/-- `try { .. } catch(...) { return std::string(); }`. -/
def orEmpty : Except Unit Text → Text
  | .ok s => s
  | .error _ => []

/-! ## Decimal numbers in a stream -/

def decimal (n : Nat) : Text := Nat.toDigits 10 n

def decimalInt : Int → Text
  | .ofNat n => decimal n
  | .negSucc n => '-' :: decimal (n + 1)

/-- `std::setw(2)` with the fill character `0`. -/
def decimal2 (n : Nat) : Text := (decimal n).leftpad 2 '0'

/-- The members of `struct tm` that `getTimestamp` prints. -/
structure LocalTime where
  tm_year : Int
  tm_mon : Nat
  tm_mday : Nat
  tm_hour : Nat
  tm_min : Nat
  tm_sec : Nat
  deriving DecidableEq, Repr

/-! ## SQLite -/

namespace SQLiteWorker

/-- `getTimestamp`, with the local time and the microseconds, or `none` when `gettimeofday`
fails. -/
def getTimestamp : Option (LocalTime × Nat) → Text
  | none => "N/A".toList
  | some (t, tv_usec) =>
      quote :: (decimalInt (1900 + t.tm_year) ++ '-' :: (decimal2 (t.tm_mon + 1) ++
        '-' :: (decimal2 t.tm_mday ++ ' ' :: (decimal t.tm_hour ++ ':' :: (decimal t.tm_min ++
          ':' :: (decimal t.tm_sec ++ '.' :: (decimal tv_usec ++ [quote])))))))

def getFilenameByUIDQuery (songUID : Text) : Text :=
  "SELECT song_name FROM song_list WHERE song_uid = '".toList ++ (songUID ++ "';".toList)

def getFilenameByUID (db : Text → QueryResult) (songUID : Text) : Text :=
  match db (getFilenameByUIDQuery songUID) with
  | .connectionFailure => []
  -- without a statement the text of the column is a null pointer, as it is without a row
  | .queryError => orEmpty (makeString none)
  | .rows column => orEmpty (makeString column.head?)

def jsonQuery : Text :=
  ("SELECT json_group_array(json_object('id', id, 'song name', song_name, 'song uid', song_uid)) " ++
    "AS result FROM (SELECT * FROM song_list ORDER BY id);").toList

/-- `getSongsListAsJson`; `none` when the function ends without a return value. -/
def getSongsListAsJson (db : Text → QueryResult) : Option Text :=
  match db jsonQuery with
  | .connectionFailure => some errorTDBResponce
  | .queryError => none
  | .rows column =>
      match makeString column.head? with
      | .error _ => some errorTDBResponce
      | .ok jsonFromDB =>
          -- the array of SQLite is wrapped, unless it is empty
          some (if jsonFromDB = "[]".toList then jsonFromDB
            else "\x7b\"songs\":".toList ++ (jsonFromDB ++ "\x7d".toList))

end SQLiteWorker

/-! ## PostgreSQL -/

namespace postgreWorker

def getTimestamp : Text := "now()".toList

def getFilenameByUIDQuery (songUID : Text) : Text :=
  "SELECT song_name FROM song_list WHERE song_uid = '".toList ++ (songUID ++ "';".toList)

def getFilenameByUID (db : Text → QueryResult) (songUID : Text) : Text :=
  match db (getFilenameByUIDQuery songUID) with
  | .connectionFailure => errorTDBResponce
  | .queryError => errorTDBResponce
  | .rows column => orEmpty (makeString column.head?)

def getSongsRequest : Text :=
  ("SELECT to_json(r) AS RESULT FROM (SELECT json_agg(row_to_json(t)) " ++
    "AS songs FROM (SELECT * FROM song_list)t)r;").toList

/-- `getSongsListAsJson`; `none` when the conversion of the answer throws. -/
def getSongsListAsJson (db : Text → QueryResult) : Option Text :=
  match db getSongsRequest with
  | .connectionFailure => some errorTDBResponce
  | .queryError => some errorTDBResponce
  | .rows column =>
      match makeString column.head? with
      | .error _ => none
      | .ok json =>
          some (if json = "\x7b\"songs\":null\x7d".toList then "[]".toList else json)

end postgreWorker

/-! ## The interface -/

/-- `iworker::getTimestamp`. -/
def getTimestamp (t : TDB_type) (now : Option (LocalTime × Nat)) : Text :=
  match t with
  | .POSTGRESQL => postgreWorker.getTimestamp
  | .SQLITE => SQLiteWorker.getTimestamp now

/-- The text that `iworker::getFilenameByUID` hands to the database. -/
def getFilenameByUIDQuery (t : TDB_type) (songUID : Text) : Text :=
  match t with
  | .POSTGRESQL => postgreWorker.getFilenameByUIDQuery songUID
  | .SQLITE => SQLiteWorker.getFilenameByUIDQuery songUID

/-- `iworker::getFilenameByUID`. -/
def getFilenameByUID (t : TDB_type) (db : Text → QueryResult) (songUID : Text) : Text :=
  match t with
  | .POSTGRESQL => postgreWorker.getFilenameByUID db songUID
  | .SQLITE => SQLiteWorker.getFilenameByUID db songUID

/-- A database that answers every query from the table. -/
def answers (db : SongList) (TDBquery : Text) : QueryResult :=
  match db.query TDBquery with
  | some column => .rows column
  | none => .queryError

theorem getFilenameByUIDQuery_eq (t : TDB_type) (songUID : Text) :
    getFilenameByUIDQuery t songUID =
      "SELECT song_name FROM song_list WHERE song_uid = '".toList ++
        (songUID ++ "';".toList) := by
  cases t <;> rfl

/-- With an answer from the table both workers return the name in the first matching row, and the
empty string when there is none. -/
theorem getFilenameByUID_answers (t : TDB_type) (db : SongList) {songUID : Text}
    (hquote : quote ∉ songUID) (hnul : nul ∉ songUID) :
    getFilenameByUID t (answers db) songUID =
      (((db.rows.filter fun r => r.song_uid = songUID).map SongRow.song_name).head?).getD [] := by
  have hquery : answers db (getFilenameByUIDQuery t songUID) =
      .rows (db.answer (.selectName songUID)) := by
    have hnul' : nul ∉ getFilenameByUIDQuery t songUID := by
      rw [getFilenameByUIDQuery_eq]
      simp only [List.mem_append, not_or]
      exact ⟨by decide, hnul, by decide⟩
    unfold answers SongList.query
    rw [cStr_of_nulFree hnul', getFilenameByUIDQuery_eq, parseStatement_select hquote]
    rfl
  have hempty : ∀ column : List Text, orEmpty (makeString column.head?) = column.head?.getD [] := by
    intro column
    cases column <;> rfl
  cases t with
  | POSTGRESQL =>
    unfold getFilenameByUID postgreWorker.getFilenameByUID
    unfold getFilenameByUIDQuery at hquery
    simp only [hquery, hempty, SongList.answer]
  | SQLITE =>
    unfold getFilenameByUID SQLiteWorker.getFilenameByUID
    unfold getFilenameByUIDQuery at hquery
    simp only [hquery, hempty, SongList.answer]

/-! ## Texts without quotes -/

theorem quote_notMem_decimal (n : Nat) : quote ∉ decimal n := by
  intro h
  have hdigit := Nat.isDigit_of_mem_toDigits (by decide) (by decide) h
  exact absurd hdigit (by decide)

theorem quote_notMem_decimal2 (n : Nat) : quote ∉ decimal2 n := by
  unfold decimal2 List.leftpad
  rw [List.mem_append, not_or]
  constructor
  · intro h
    exact absurd (List.eq_of_mem_replicate h) (by decide)
  · exact quote_notMem_decimal n

theorem quote_notMem_decimalInt (i : Int) : quote ∉ decimalInt i := by
  cases i with
  | ofNat n => exact quote_notMem_decimal n
  | negSucc n =>
    unfold decimalInt
    rw [List.mem_cons, not_or]
    exact ⟨by decide, quote_notMem_decimal _⟩

/-- A timestamp is a function call, a word or one literal. -/
theorem count_getTimestamp (t : TDB_type) (now : Option (LocalTime × Nat)) :
    (getTimestamp t now).count quote ≤ 2 := by
  cases t with
  | POSTGRESQL =>
    have hnow : (getTimestamp .POSTGRESQL now).count quote = 0 := rfl
    omega
  | SQLITE =>
    cases now with
    | none =>
      have hna : (getTimestamp .SQLITE none).count quote = 0 := rfl
      omega
    | some n =>
      obtain ⟨lt, usec⟩ := n
      have hminus : ('-' : Char) ≠ quote := by decide
      have hspace : (' ' : Char) ≠ quote := by decide
      have hcolon : (':' : Char) ≠ quote := by decide
      have hdot : ('.' : Char) ≠ quote := by decide
      have hdec := fun n => List.count_eq_zero_of_not_mem (quote_notMem_decimal n)
      have hdec2 := fun n => List.count_eq_zero_of_not_mem (quote_notMem_decimal2 n)
      have hint := List.count_eq_zero_of_not_mem (quote_notMem_decimalInt (1900 + lt.tm_year))
      simp only [getTimestamp, SQLiteWorker.getTimestamp, List.count_append, List.count_cons_self,
        List.count_cons_of_ne hminus, List.count_cons_of_ne hspace, List.count_cons_of_ne hcolon,
        List.count_cons_of_ne hdot, hdec, hdec2, hint, List.count_nil]
      omega

end PetProject.Workers
