import Mathlib.Data.List.Sort
import PetProject.Foundation.JsonDocument
import PetProject.Workers.Model

/-!
# The two workers behind one interface

The documents of songs that the two databases build, and the answers of the two workers next to each
other. The functions `json_object` and `json_group_array` of SQLite and `row_to_json`, `json_agg`
and `to_json` of PostgreSQL print objects and arrays with the same escapes; the white space that
`json_agg` puts behind a comma is left open.

SQLite names the members `song name` and `song uid` where PostgreSQL takes the names of the columns,
and `postgreWorker::getFilenameByUID` answers a failure with an error document where
`SQLiteWorker::getFilenameByUID` answers with the empty string (`workers_agree_iff`).
-/

set_option autoImplicit false

namespace PetProject.Workers

open PetProject.Foundation.TextSearch PetProject.Foundation.JsonText

/-- White space that means nothing in a document. -/
abbrev Whitespace := { ws : Text // ∀ c ∈ ws, isWhitespace c = true }

/-! ## The answers of the databases -/

/-- The members of a row, under the names of the database. -/
def SongRow.members (t : TDB_type) (r : SongRow) : List (Text × Text) :=
  match t with
  | .SQLITE =>
      [("id".toList, decimal r.id), ("song name".toList, stringText r.song_name),
        ("song uid".toList, stringText r.song_uid)]
  | .POSTGRESQL =>
      [("id".toList, decimal r.id), ("song_name".toList, stringText r.song_name),
        ("song_uid".toList, stringText r.song_uid)]

/-- `SELECT * FROM song_list ORDER BY id`. -/
def SongList.orderById (db : SongList) : List SongRow :=
  db.rows.insertionSort fun a b => a.id ≤ b.id

/-- `json_group_array(json_object(..))` over the ordered rows. -/
def SongList.json_group_array (db : SongList) : Text :=
  arrayText [] (db.orderById.map fun r => objectText (r.members .SQLITE))

/-- `json_agg(row_to_json(t))`: null over no rows. -/
def SongList.json_agg (ws : Whitespace) (db : SongList) : Text :=
  if db.rows = [] then "null".toList
  else arrayText ws.1 (db.rows.map fun r => objectText (r.members .POSTGRESQL))

/-- An SQLite database that answers the query of the songs. -/
def sqliteSongs (db : SongList) (TDBquery : Text) : QueryResult :=
  if TDBquery = SQLiteWorker.jsonQuery then .rows [db.json_group_array] else .queryError

/-- A PostgreSQL database that answers the query of the songs. -/
def postgreSongs (ws : Whitespace) (db : SongList) (TDBquery : Text) : QueryResult :=
  if TDBquery = postgreWorker.getSongsRequest then
    .rows [objectText [("songs".toList, db.json_agg ws)]]
  else .queryError

/-- Both workers return the same document of songs. -/
def SameSongs (ws : Whitespace) (db : SongList) : Prop :=
  ∃ a b, SQLiteWorker.getSongsListAsJson (sqliteSongs db) = some a ∧
    postgreWorker.getSongsListAsJson (postgreSongs ws db) = some b ∧ SameDocument a b

/-- The name in the first row, and the empty string otherwise. -/
def QueryResult.foundName : QueryResult → Text
  | .rows (name :: _) => name
  | _ => []

/-- Both workers return the name that was found. -/
def SameName (outcome : QueryResult) (songUID : Text) : Prop :=
  SQLiteWorker.getFilenameByUID (fun _ => outcome) songUID = outcome.foundName ∧
    postgreWorker.getFilenameByUID (fun _ => outcome) songUID = outcome.foundName

/-- The query was executed. -/
def QueryResult.Delivered : QueryResult → Prop
  | .rows _ => True
  | _ => False

/-! ## The documents -/

/-- The value of a row. -/
def SongRow.json (t : TDB_type) (r : SongRow) : Json :=
  match t with
  | .SQLITE =>
      .obj [("id".toList, .atom (decimal r.id)), ("song name".toList, .str r.song_name),
        ("song uid".toList, .str r.song_uid)]
  | .POSTGRESQL =>
      .obj [("id".toList, .atom (decimal r.id)), ("song_name".toList, .str r.song_name),
        ("song_uid".toList, .str r.song_uid)]

theorem represents_row (t : TDB_type) (r : SongRow) :
    Represents (objectText (r.members t)) (r.json t) := by
  have hid : Represents (decimal r.id) (.atom (decimal r.id)) := represents_decimal r.id
  cases t with
  | SQLITE =>
    apply represents_object
    exact .cons ⟨rfl, hid⟩ (.cons ⟨rfl, represents_string _⟩
      (.cons ⟨rfl, represents_string _⟩ .nil))
  | POSTGRESQL =>
    apply represents_object
    exact .cons ⟨rfl, hid⟩ (.cons ⟨rfl, represents_string _⟩
      (.cons ⟨rfl, represents_string _⟩ .nil))

theorem represents_rows (t : TDB_type) {ws : Text} (hws : ∀ c ∈ ws, isWhitespace c = true)
    (rows : List SongRow) :
    Represents (arrayText ws (rows.map fun r => objectText (r.members t)))
      (.arr (rows.map (SongRow.json t))) := by
  apply represents_array hws
  induction rows with
  | nil => exact .nil
  | cons r rows ih => exact .cons (represents_row t r) ih

theorem represents_json_group_array (db : SongList) :
    Represents db.json_group_array (.arr (db.orderById.map (SongRow.json .SQLITE))) :=
  represents_rows .SQLITE (by simp) db.orderById

theorem represents_nil : Represents "[]".toList (.arr []) := by
  have hnil : Represents (arrayText [] []) (.arr []) := represents_array (by simp) .nil
  exact hnil

/-- The object with the one member `songs`. -/
theorem represents_songs {text : Text} {j : Json} (h : Represents text j) :
    Represents (objectText [("songs".toList, text)]) (.obj [("songs".toList, j)]) :=
  represents_object (.cons ⟨rfl, h⟩ .nil)

theorem represents_null : Represents "null".toList (.atom "null".toList) :=
  represents_atom (by decide) (List.all_eq_true.mp (by decide)) (by decide)

theorem orderById_ne_nil {db : SongList} (h : db.rows ≠ []) : db.orderById ≠ [] := by
  intro hnil
  apply h
  have hlength := congrArg List.length hnil
  unfold SongList.orderById at hlength
  rw [List.length_insertionSort] at hlength
  exact List.length_eq_zero_iff.mp hlength

/-- Texts of different values are different. -/
theorem ne_of_represents {a b : Text} {j j' : Json} (ha : Represents a j) (hb : Represents b j')
    (hne : j ≠ j') : a ≠ b := by
  rintro rfl
  have hparse := parse_of_represents ha
  rw [parse_of_represents hb] at hparse
  exact hne (Option.some.inj hparse).symm

theorem getSongsListAsJson_sqlite (db : SongList) :
    SQLiteWorker.getSongsListAsJson (sqliteSongs db) =
      some (if db.rows = [] then "[]".toList
        else objectText [("songs".toList, db.json_group_array)]) := by
  have hanswer : SQLiteWorker.getSongsListAsJson (sqliteSongs db) =
      some (if db.json_group_array = "[]".toList then db.json_group_array
        else "\x7b\"songs\":".toList ++ (db.json_group_array ++ "\x7d".toList)) := by
    have hquery : sqliteSongs db SQLiteWorker.jsonQuery = .rows [db.json_group_array] := if_pos rfl
    unfold SQLiteWorker.getSongsListAsJson
    rw [hquery]
    rfl
  rw [hanswer]
  by_cases hempty : db.rows = []
  · have hnil : db.json_group_array = "[]".toList := by
      unfold SongList.json_group_array SongList.orderById
      rw [hempty]
      decide
    rw [if_pos hnil, if_pos hempty, hnil]
  · -- an array with an item is another document than the empty one
    have hne : db.json_group_array ≠ "[]".toList := by
      apply ne_of_represents (represents_json_group_array db) represents_nil
      simpa using orderById_ne_nil hempty
    have hprefix : "\x7b\"songs\":".toList = openBrace :: (stringText "songs".toList ++ [':']) := by
      decide
    rw [if_neg hne, if_neg hempty, hprefix]
    simp [objectText, List.intercalate, closeBrace]

theorem getSongsListAsJson_postgre (ws : Whitespace) (db : SongList) :
    postgreWorker.getSongsListAsJson (postgreSongs ws db) =
      some (if db.rows = [] then "[]".toList
        else objectText [("songs".toList, db.json_agg ws)]) := by
  have hnull : objectText [("songs".toList, "null".toList)] = "\x7b\"songs\":null\x7d".toList := by
    decide
  have hanswer : postgreWorker.getSongsListAsJson (postgreSongs ws db) =
      some (if objectText [("songs".toList, db.json_agg ws)] =
          objectText [("songs".toList, "null".toList)] then "[]".toList
        else objectText [("songs".toList, db.json_agg ws)]) := by
    have hquery : postgreSongs ws db postgreWorker.getSongsRequest =
        .rows [objectText [("songs".toList, db.json_agg ws)]] := if_pos rfl
    unfold postgreWorker.getSongsListAsJson
    rw [hquery, hnull]
    rfl
  rw [hanswer]
  unfold SongList.json_agg
  by_cases hempty : db.rows = []
  · rw [if_pos hempty, if_pos rfl, if_pos hempty]
  · have hne : objectText [("songs".toList,
          arrayText ws.1 (db.rows.map fun r => objectText (r.members .POSTGRESQL)))] ≠
        objectText [("songs".toList, "null".toList)] := by
      apply ne_of_represents (represents_songs (represents_rows .POSTGRESQL ws.2 db.rows))
        (represents_songs represents_null)
      intro heq
      cases heq
    rw [if_neg hempty, if_neg hne, if_neg hempty]

/-- The member that only one of the two databases has. -/
def songNamePath : List PathStep :=
  [.name "songs".toList, .index 0, .name "song name".toList]

theorem get?_songNamePath (t : TDB_type) (r : SongRow) (rows : List SongRow) :
    (Json.obj [("songs".toList, .arr ((r :: rows).map (SongRow.json t)))]).get? songNamePath =
      match t with
      | .SQLITE => some (.str r.song_name)
      | .POSTGRESQL => none := by
  cases t <;> rfl

theorem sameSongs_of_empty (ws : Whitespace) {db : SongList} (hempty : db.rows = []) :
    SameSongs ws db := by
  refine ⟨"[]".toList, "[]".toList, ?_, ?_, _, _, parse_of_represents represents_nil,
    parse_of_represents represents_nil, fun _ => rfl⟩
  · rw [getSongsListAsJson_sqlite, if_pos hempty]
  · rw [getSongsListAsJson_postgre, if_pos hempty]

/-- The first row has a member `song name` in one document and not in the other. -/
theorem not_sameSongs (ws : Whitespace) {db : SongList} (hsongs : db.rows ≠ []) :
    ¬ SameSongs ws db := by
  rintro ⟨a, b, ha, hb, hsame⟩
  rw [getSongsListAsJson_sqlite, if_neg hsongs] at ha
  rw [getSongsListAsJson_postgre, if_neg hsongs] at hb
  cases ha
  cases hb
  have hsqlite := parse_of_represents (represents_songs (represents_json_group_array db))
  have hpostgre := parse_of_represents
    (represents_songs (represents_rows .POSTGRESQL ws.2 db.rows))
  have hagg : db.json_agg ws =
      arrayText ws.1 (db.rows.map fun r => objectText (r.members .POSTGRESQL)) := if_neg hsongs
  rw [← hagg] at hpostgre
  -- the two documents differ at the name of the first song
  have hpath := (sameDocument_iff hsqlite hpostgre).mp hsame songNamePath
  obtain ⟨r, rows, hrows⟩ := List.exists_cons_of_ne_nil hsongs
  obtain ⟨r', rows', hrows'⟩ := List.exists_cons_of_ne_nil (orderById_ne_nil hsongs)
  rw [hrows, hrows', get?_songNamePath, get?_songNamePath] at hpath
  cases hpath

/-- The workers return the same document exactly over the empty table. -/
theorem sameSongs_iff (ws : Whitespace) (db : SongList) : SameSongs ws db ↔ db.rows = [] := by
  constructor
  · intro hsame
    by_contra hsongs
    exact not_sameSongs ws hsongs hsame
  · exact sameSongs_of_empty ws

/-! ## The names -/

theorem sameName_iff (outcome : QueryResult) (songUID : Text) :
    SameName outcome songUID ↔ outcome.Delivered := by
  have herror : errorTDBResponce ≠ [] := by decide
  cases outcome with
  | connectionFailure =>
    constructor
    · intro h
      exact absurd h.2 herror
    · exact False.elim
  | queryError =>
    constructor
    · intro h
      exact absurd h.2 herror
    · exact False.elim
  | rows column =>
    constructor
    · intro _
      exact trivial
    · intro _
      cases column <;> exact ⟨rfl, rfl⟩

/-- The workers return the same document exactly over the empty table, and the name that was found
exactly when the query was executed. -/
theorem workers_agree_iff (ws : Whitespace) :
    (∀ db, SameSongs ws db ↔ db.rows = []) ∧
      ∀ outcome songUID, SameName outcome songUID ↔ outcome.Delivered :=
  ⟨sameSongs_iff ws, sameName_iff⟩

/-- One song is enough for different documents, and a failed query for different names. -/
theorem not_workers_agree_oneSong :
    ¬ ((∀ (ws : Whitespace) (db : SongList), (db.rows.map SongRow.song_uid).Nodup →
          SameSongs ws db) ∧
        ∀ (outcome : QueryResult) (songUID : Text), '\x27' ∉ songUID →
          SameName outcome songUID) := by
  intro h
  have hsame := h.1 ⟨[' '], List.all_eq_true.mp (by decide)⟩
    ⟨[⟨1, "a.mp3".toList, "A1".toList⟩], 2⟩ (by decide)
  exact not_sameSongs _ (by simp) hsame

end PetProject.Workers
