import Mathlib.Data.List.Basic
import PetProject.Foundation.SqlLexer

/-!
# The table of songs and the statements on it

The daemons reach the table `song_list` (`DBs_scripts/sqlite.sql`, `DBs_scripts/postgre.sql`)
through three statements only. A statement is a text; its meaning goes through its tokens: a text
is one of the three statements when its tokens are those of the pattern, with any literals in the
places of the literals (`fill`).
-/

set_option autoImplicit false

namespace PetProject.Workers

open PetProject.Foundation.TextSearch PetProject.Foundation.SqlLexer

/-- The database behind a worker. -/
inductive TDB_type where
  | POSTGRESQL
  | SQLITE
  deriving DecidableEq, Repr

/-- A row of `song_list`. -/
structure SongRow where
  id : Nat
  song_name : Text
  song_uid : Text
  deriving DecidableEq, Repr

/-- The table `song_list` in the order of insertion; `serial` is the next value of the sequence
behind `bigserial`. -/
structure SongList where
  rows : List SongRow
  serial : Nat
  deriving DecidableEq, Repr

/-- The identifier of an inserted row: the sequence, or one more than the largest identifier. -/
def SongList.nextId (t : TDB_type) (db : SongList) : Nat :=
  match t with
  | .POSTGRESQL => db.serial
  | .SQLITE => (db.rows.map SongRow.id).foldl max 0 + 1

/-! ## Statements -/

inductive Statement where
  | insertSong (song_name song_uid : Text)
  | deleteSong (song_name : Text)
  | selectName (song_uid : Text)
  deriving DecidableEq, Repr

/-- The literals of a token list that has the tokens of the pattern in all other places. -/
def fill : List Token → List Token → Option (List Text)
  | [], [] => some []
  | .literal _ :: ps, .literal v :: ts => (fill ps ts).map (v :: ·)
  | p :: ps, t :: ts => if p = t then fill ps ts else none
  | _, _ => none

/-- The tokens of the three statements, with empty literals. -/
def insertPattern : List Token :=
  tokens "INSERT INTO song_list(song_name, song_uid) VALUES ('', '');".toList

def deletePattern : List Token := tokens "DELETE FROM song_list WHERE song_name ='';".toList

def selectPattern : List Token :=
  tokens "SELECT song_name FROM song_list WHERE song_uid = '';".toList

/-- The statement that a token list is. -/
def parseStatement (ts : List Token) : Option Statement :=
  -- the patterns differ in their first token, so the order does not matter
  match fill insertPattern ts, fill deletePattern ts, fill selectPattern ts with
  | some [n, u], _, _ => some (.insertSong n u)
  | _, some [n], _ => some (.deleteSong n)
  | _, _, some [u] => some (.selectName u)
  | _, _, _ => none

/-- The table after a statement. -/
def SongList.apply (t : TDB_type) (db : SongList) : Statement → SongList
  | .insertSong n u => ⟨db.rows ++ [⟨db.nextId t, n, u⟩], db.serial + 1⟩
  | .deleteSong n => ⟨db.rows.filter fun r => r.song_name ≠ n, db.serial⟩
  | .selectName _ => db

/-- The column `song_name` of the answer to a statement. -/
def SongList.answer (db : SongList) : Statement → List Text
  | .selectName u => (db.rows.filter fun r => r.song_uid = u).map SongRow.song_name
  | _ => []

/-- A statement text is executed; `none` when the text is none of the three statements. The database
gets the text as a C string. -/
def SongList.exec (t : TDB_type) (db : SongList) (TDBquery : Text) : Option SongList :=
  (parseStatement (tokens (cStr TDBquery))).map (db.apply t)

/-- The answer to a query text; `none` when the text is none of the three statements. -/
def SongList.query (db : SongList) (TDBquery : Text) : Option (List Text) :=
  (parseStatement (tokens (cStr TDBquery))).map db.answer

/-! ## The meaning of the texts with their literals filled in -/

/-- The fixed part in front of the name. -/
theorem run_insertPrefix :
    run .neutral "INSERT INTO song_list(song_name, song_uid) VALUES ('".toList =
      (.literal [], insertPattern.take 10) := by
  decide +kernel

theorem run_deletePrefix :
    run .neutral "DELETE FROM song_list WHERE song_name ='".toList =
      (.literal [], deletePattern.take 6) := by
  decide +kernel

theorem run_quotedEnd (v : Text) :
    run (.literal v) "';".toList = (.neutral, [.literal v, .symbol ';']) := rfl

theorem tokens_insert {n u : Text} (hn : quote ∉ n) (hu : quote ∉ u) :
    tokens ("INSERT INTO song_list(song_name, song_uid) VALUES ('".toList ++
      (n ++ ("', '".toList ++ (u ++ "');".toList)))) =
        insertPattern.take 10 ++
          [.literal n, .symbol ',', .literal u, .symbol ')', .symbol ';'] := by
  have hmid : ∀ v, run (.literal v) "', '".toList =
      (.literal [], [.literal v, .symbol ',']) := fun _ => rfl
  have hend : ∀ v, run (.literal v) "');".toList =
      (.neutral, [.literal v, .symbol ')', .symbol ';']) := fun _ => rfl
  unfold tokens
  rw [tokensFrom_append run_insertPrefix, tokensFrom_slot hn hmid, tokensFrom_lastSlot hu hend]
  rfl

theorem tokens_delete {n : Text} (hn : quote ∉ n) :
    tokens ("DELETE FROM song_list WHERE song_name ='".toList ++ (n ++ "';".toList)) =
      deletePattern.take 6 ++ [.literal n, .symbol ';'] := by
  unfold tokens
  rw [tokensFrom_append run_deletePrefix, tokensFrom_lastSlot hn run_quotedEnd]
  rfl

theorem parseStatement_insert {n u : Text} (hn : quote ∉ n) (hu : quote ∉ u) :
    parseStatement (tokens ("INSERT INTO song_list(song_name, song_uid) VALUES ('".toList ++
      (n ++ ("', '".toList ++ (u ++ "');".toList))))) = some (.insertSong n u) := by
  rw [tokens_insert hn hu]
  rfl

theorem parseStatement_delete {n : Text} (hn : quote ∉ n) :
    parseStatement (tokens ("DELETE FROM song_list WHERE song_name ='".toList ++
      (n ++ "';".toList))) = some (.deleteSong n) := by
  rw [tokens_delete hn]
  rfl

theorem parseStatement_select {u : Text} (hu : quote ∉ u) :
    parseStatement (tokens ("SELECT song_name FROM song_list WHERE song_uid = '".toList ++
      (u ++ "';".toList))) = some (.selectName u) := by
  have hpre : run .neutral "SELECT song_name FROM song_list WHERE song_uid = '".toList =
      (.literal [], selectPattern.take 7) := by decide +kernel
  unfold tokens
  rw [tokensFrom_append hpre, tokensFrom_lastSlot hu run_quotedEnd]
  rfl

end PetProject.Workers
