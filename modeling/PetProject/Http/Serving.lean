import PetProject.Http.Handling
import PetProject.Http.Resolve
import PetProject.Watch.Settling
import PetProject.Workers.Interchange

/-!
# What the HTTP daemon serves of the watched directory

The two daemons meet at the table of songs: the watch daemon fills it, the HTTP daemon answers from
it. When the watch daemon rests after a run in order over names that it records (`Mirror`), and the
HTTP daemon answers from the same table and directory (`Shares`), the document of songs names every
file of the directory once, and the URI that is made of an identifier in the document makes the HTTP
daemon open the file of the name that stands beside it and no other (`songs_served`).
-/

set_option autoImplicit false

namespace PetProject.Http

open PetProject.Foundation PetProject.Foundation.TextSearch PetProject.Foundation.JsonText
open PetProject.Foundation.Transition PetProject.Foundation.KeyedReplay
open PetProject.Workers PetProject.Watch PetProject.Daemon

/-! ## The database of the content -/

/-- A database that answers the query of the document and the queries of names from the table. -/
def contentDatabase (t : TDB_type) (ws : Whitespace) (db : SongList) (TDBquery : Text) :
    QueryResult :=
  match t with
  | .SQLITE =>
      if TDBquery = SQLiteWorker.jsonQuery then sqliteSongs db TDBquery else answers db TDBquery
  | .POSTGRESQL =>
      if TDBquery = postgreWorker.getSongsRequest then postgreSongs ws db TDBquery
      else answers db TDBquery

/-- The rows in the order of the document. -/
def documentRows (t : TDB_type) (db : SongList) : List SongRow :=
  match t with
  | .SQLITE => db.orderById
  | .POSTGRESQL => db.rows

/-- The document of songs: the empty array, or an object with the array of the rows. -/
def songsDocument (t : TDB_type) (ws : Whitespace) (db : SongList) : Text :=
  if db.rows = [] then "[]".toList
  else objectText [("songs".toList, match t with
    | .SQLITE => db.json_group_array
    | .POSTGRESQL => db.json_agg ws)]

/-- The name and the identifier in an item of the document. -/
def listedSong : Json → Option (Text × Text)
  | .obj [_, (_, .str song_name), (_, .str song_uid)] => some (song_name, song_uid)
  | _ => none

/-- The songs in a document. -/
def listedSongs : Json → List (Text × Text)
  | .obj [(_, .arr items)] => items.filterMap listedSong
  | _ => []

section Documents

variable {t : TDB_type} {ws : Whitespace} {db : SongList}

theorem getSongsListAsJson_content (t : TDB_type) (ws : Whitespace) (db : SongList) :
    getSongsListAsJson t (contentDatabase t ws db) = some (songsDocument t ws db) := by
  cases t with
  | SQLITE =>
    have hquery : contentDatabase .SQLITE ws db SQLiteWorker.jsonQuery =
        sqliteSongs db SQLiteWorker.jsonQuery := by
      unfold contentDatabase
      rw [if_pos rfl]
    have hsame : SQLiteWorker.getSongsListAsJson (contentDatabase .SQLITE ws db) =
        SQLiteWorker.getSongsListAsJson (sqliteSongs db) := by
      unfold SQLiteWorker.getSongsListAsJson
      rw [hquery]
    exact hsame.trans (getSongsListAsJson_sqlite db)
  | POSTGRESQL =>
    have hquery : contentDatabase .POSTGRESQL ws db postgreWorker.getSongsRequest =
        postgreSongs ws db postgreWorker.getSongsRequest := by
      unfold contentDatabase
      rw [if_pos rfl]
    have hsame : postgreWorker.getSongsListAsJson (contentDatabase .POSTGRESQL ws db) =
        postgreWorker.getSongsListAsJson (postgreSongs ws db) := by
      unfold postgreWorker.getSongsListAsJson
      rw [hquery]
    exact hsame.trans (getSongsListAsJson_postgre ws db)

/-- The document lists the rows. -/
theorem parse_songsDocument (t : TDB_type) (ws : Whitespace) (db : SongList) :
    ∃ j, parse (songsDocument t ws db) = some j ∧
      listedSongs j = (documentRows t db).map fun r => (r.song_name, r.song_uid) := by
  have hlisted (rows : List SongRow) :
      listedSongs (.obj [("songs".toList, .arr (rows.map (SongRow.json t)))]) =
        rows.map fun r => (r.song_name, r.song_uid) := by
    have hrow (r : SongRow) : listedSong (r.json t) = some (r.song_name, r.song_uid) := by
      cases t <;> rfl
    have hitems : listedSongs (.obj [("songs".toList, .arr (rows.map (SongRow.json t)))]) =
        (rows.map (SongRow.json t)).filterMap listedSong := rfl
    rw [hitems, List.filterMap_map, ← List.filterMap_eq_map]
    exact List.filterMap_congr fun r _ => hrow r
  unfold songsDocument
  by_cases hempty : db.rows = []
  · rw [if_pos hempty]
    refine ⟨_, parse_of_represents represents_nil, ?_⟩
    have hnone : documentRows t db = [] := by
      unfold documentRows SongList.orderById
      rw [hempty]
      cases t <;> rfl
    rw [hnone]
    rfl
  · rw [if_neg hempty]
    cases t with
    | SQLITE =>
      exact ⟨_, parse_of_represents (represents_songs (represents_json_group_array db)),
        hlisted db.orderById⟩
    | POSTGRESQL =>
      have hagg : db.json_agg ws =
          arrayText ws.1 (db.rows.map fun r => objectText (r.members .POSTGRESQL)) :=
        if_neg hempty
      refine ⟨_, ?_, hlisted db.rows⟩
      simp only [hagg]
      exact parse_of_represents (represents_songs (represents_rows .POSTGRESQL ws.2 db.rows))

theorem documentRows_perm (t : TDB_type) (db : SongList) : (documentRows t db).Perm db.rows := by
  cases t with
  | SQLITE => exact List.perm_insertionSort _ db.rows
  | POSTGRESQL => exact List.Perm.refl _

/-! ### The document as a string of C -/

theorem nul_notMem_escapeChar (c : Char) : nul ∉ escapeChar c := by
  have hcontrol : ∀ n < 32, nul ∉ escapeChar (Char.ofNat n) := by decide +kernel
  by_cases hc : c.toNat < 32
  · have h := hcontrol c.toNat hc
    rwa [Char.ofNat_toNat] at h
  · have hne : nul ≠ c := by
      rintro rfl
      exact hc (by decide)
    unfold escapeChar
    split
    · simp only [List.mem_cons, List.not_mem_nil, or_false, not_or]
      exact ⟨by decide, hne⟩
    · rw [if_pos (Nat.le_of_not_lt hc), List.mem_singleton]
      exact hne

theorem nul_notMem_stringText (x : Text) : nul ∉ stringText x := by
  unfold stringText
  simp only [List.mem_cons, List.mem_append, List.mem_flatMap, List.not_mem_nil, or_false, not_or,
    not_exists, not_and]
  exact ⟨by decide, fun c _ => nul_notMem_escapeChar c, by decide⟩

theorem nul_notMem_decimal (n : Nat) : nul ∉ decimal n := by
  intro h
  exact absurd (toDigits_all_isDigit n nul h) (by decide)

theorem nul_notMem_intercalate {sep : Text} (hsep : nul ∉ sep) {items : List Text}
    (hitems : ∀ x ∈ items, nul ∉ x) : nul ∉ sep.intercalate items := by
  induction items with
  | nil => simp
  | cons x items ih =>
    have hx := hitems x List.mem_cons_self
    have hrest := ih fun y hy => hitems y (List.mem_cons_of_mem x hy)
    cases items with
    | nil => simpa using hx
    | cons y items =>
      rw [List.intercalate_cons_cons]
      simp only [List.mem_append, not_or]
      exact ⟨⟨hx, hsep⟩, hrest⟩

theorem nul_notMem_objectText {members : List (Text × Text)}
    (h : ∀ m ∈ members, nul ∉ m.2) : nul ∉ objectText members := by
  unfold objectText
  simp only [List.mem_cons, List.mem_append, List.not_mem_nil, or_false, not_or]
  refine ⟨by decide, nul_notMem_intercalate (by decide) ?_, by decide⟩
  intro x hx
  obtain ⟨m, hm, rfl⟩ := List.mem_map.mp hx
  simp only [List.mem_append, List.mem_cons, not_or]
  exact ⟨nul_notMem_stringText m.1, by decide, h m hm⟩

theorem nul_notMem_rows (t : TDB_type) (ws : Whitespace) (rows : List SongRow) :
    nul ∉ arrayText ws.1 (rows.map fun r => objectText (r.members t)) := by
  have hws : nul ∉ ws.1 := fun h => absurd (ws.2 nul h) (by decide)
  unfold arrayText
  simp only [List.mem_cons, List.mem_append, List.not_mem_nil, or_false, not_or]
  refine ⟨by decide, nul_notMem_intercalate ?_ ?_, by decide⟩
  · simp only [List.mem_cons, not_or]
    exact ⟨by decide, hws⟩
  · intro x hx
    obtain ⟨r, -, rfl⟩ := List.mem_map.mp hx
    apply nul_notMem_objectText
    cases t <;>
      simp [SongRow.members, nul_notMem_decimal, nul_notMem_stringText]

theorem nul_notMem_songsDocument (t : TDB_type) (ws : Whitespace) (db : SongList) :
    nul ∉ songsDocument t ws db := by
  unfold songsDocument
  split
  · decide
  · apply nul_notMem_objectText
    intro m hm
    rw [List.mem_singleton.mp hm]
    cases t with
    | SQLITE => exact nul_notMem_rows .SQLITE ⟨[], nofun⟩ db.orderById
    | POSTGRESQL =>
      rename_i hsongs
      have hagg : db.json_agg ws =
          arrayText ws.1 (db.rows.map fun r => objectText (r.members .POSTGRESQL)) :=
        if_neg hsongs
      simp only [hagg]
      exact nul_notMem_rows .POSTGRESQL ws db.rows

end Documents

/-! ## Names -/

section Names

variable {t : TDB_type} {ws : Whitespace} {db : SongList} {uid : Text}

/-- The query of a name is none of the queries of the document. -/
theorem contentDatabase_name (t : TDB_type) (ws : Whitespace) (db : SongList) (songUID : Text) :
    contentDatabase t ws db (getFilenameByUIDQuery t songUID) =
      answers db (getFilenameByUIDQuery t songUID) := by
  have hhead : (getFilenameByUIDQuery t songUID).take 9 = "SELECT so".toList := by
    rw [getFilenameByUIDQuery_eq]
    rfl
  unfold contentDatabase
  cases t with
  | SQLITE =>
    refine if_neg fun h => ?_
    rw [h] at hhead
    exact absurd hhead (by decide +kernel)
  | POSTGRESQL =>
    refine if_neg fun h => ?_
    rw [h] at hhead
    exact absurd hhead (by decide +kernel)

theorem getFilenameByUID_content (huid : IsUID uid) :
    getFilenameByUID t (contentDatabase t ws db) uid =
      (((db.rows.filter fun r => r.song_uid = uid).map SongRow.song_name).head?).getD [] := by
  rw [← getFilenameByUID_answers t db (quote_notMem_uid huid) (nul_notMem_uid huid)]
  have hname := contentDatabase_name t ws db uid
  cases t with
  | SQLITE =>
    unfold getFilenameByUIDQuery at hname
    unfold getFilenameByUID SQLiteWorker.getFilenameByUID
    simp only at hname ⊢
    rw [hname]
  | POSTGRESQL =>
    unfold getFilenameByUIDQuery at hname
    unfold getFilenameByUID postgreWorker.getFilenameByUID
    simp only at hname ⊢
    rw [hname]

end Names

/-! ## Identifiers of rows -/

/-- Every row has an identifier of the form that is issued. -/
def IssuedUIDs (db : SongList) : Prop := ∀ r ∈ db.rows, IsUID r.song_uid

/-- A handler keeps the form of the identifiers. -/
theorem issuedUIDs_watchFunction {t : TDB_type} {md5 : MD5} {codePosition : Text}
    (src : UuidSources) (k : Watcher) {name : Text} (hname : Recordable name) {db : SongList}
    (log : List Text) (h : IssuedUIDs db) :
    IssuedUIDs (watchFunction t md5 codePosition src k name (db, log)).2.1 := by
  rw [watchFunction_table t md5 codePosition src k hname]
  cases k with
  | m_inotyInDelete => exact fun r hr => h r (List.mem_of_mem_filter hr)
  | m_inotyInAdd =>
    intro r hr
    rcases List.mem_append.mp hr with hold | hnew
    · exact h r hold
    · rw [List.mem_singleton.mp hnew]
      exact isUID_getDefaultUUID md5 src

/-- In a run in order the table tracks the directory with identifiers of the form that is issued. -/
theorem tracks_of_reachable {t : TDB_type} {md5 : MD5} {codePosition : Text} {s : Watch.State}
    (h : Reachable (Watch.step t md5 codePosition) (fun s l => l.IsRecordable ∧ l.InOrder s)
      (fun s => s.IsInit ∧ IssuedUIDs s.db) s) : Tracks s ∧ IssuedUIDs s.db := by
  refine h.invariant (I := fun s => Tracks s ∧ IssuedUIDs s.db)
    (fun s hs => ⟨tracks_init hs.1, hs.2⟩) ?_
  rintro s l s' ⟨htracks, huids⟩ hok hst
  refine ⟨tracks_step htracks hok.1 hok.2 hst, ?_⟩
  cases l with
  | op o =>
    obtain ⟨dir, -, rfl⟩ := Option.map_eq_some_iff.mp hst
    rw [raise_event]
    have hdb := (setChannel_frame s o.watcher
      ⟨(s.channel o.watcher).queue ++ [o.event], (s.channel o.watcher).batch⟩).2.1
    exact hdb ▸ huids
  | read k count =>
    simp only [Watch.step] at hst
    split at hst
    · cases hst
      rw [(setChannel_frame s k _).2.1]
      exact huids
    · cases hst
  | handle k src =>
    simp only [Watch.step] at hst
    split at hst
    · cases hst
    · rename_i name rest hbatch
      cases hst
      refine issuedUIDs_watchFunction src k ?_ s.log huids
      -- the name of the batch is pending
      have hfifo := htracks.fifo k
      rw [hbatch, List.cons_append] at hfifo
      obtain ⟨e, he, hname⟩ : ∃ e ∈ ofKey Prod.fst k s.pending, e.2 = name :=
        List.mem_map.mp (hfifo ▸ List.mem_cons_self)
      rw [← hname]
      exact htracks.recordable e (List.mem_of_mem_filter he)

/-! ## Requests -/

/-- What the HTTP daemon works with belongs to the state of the watch daemon: the same table, and
the files of the configured directory. -/
structure Shares (t : TDB_type) (ws : Whitespace) (s : Watch.State) (dir : Text)
    (workers : Workers) (env : Externals) : Prop where
  worker : workers.m_tdbworker_content = t
  content : env.content = contentDatabase t ws s.db
  configured : (env.m_ifp.getSectionContent pet_params.FILE_OBSERVER).2.lookup "dir".toList =
    some dir
  files : ∀ n ∈ s.dir, env.fs_exists (dir ++ '/' :: n.text) = some true
  buffer : env.evbuffer_new = true

section Requests

variable {t : TDB_type} {ws : Whitespace} {s : Watch.State} {dir : Text} {workers : Workers}
  {env : Externals} {request : evhttp_request}

/-- What a call adds to the body of the reply. -/
def Action.printed : Action → Option Text
  | .evbuffer_add_printf text => some text
  | _ => none

/-- The file that a call opens, and whether it is opened. -/
def Action.opening : Action → Option (Text × Bool)
  | .open path ok => some (path, ok)
  | _ => none

def Action.replied : Action → Option Nat
  | .evhttp_send_reply code _ => some code
  | _ => none

/-- The calls in front of the `switch` are of no concern to an observer of the reply. -/
structure Unlogged {α : Type} (f : Action → Option α) : Prop where
  evbuffer_new (ok : Bool) : f (.evbuffer_new ok) = none
  execQuery (TDBquery : Text) : f (.execQuery TDBquery) = none
  FAST_LOG (message : Text) : f (.FAST_LOG message) = none

theorem unlogged_printed : Unlogged Action.printed := ⟨fun _ => rfl, fun _ => rfl, fun _ => rfl⟩

theorem unlogged_opening : Unlogged Action.opening := ⟨fun _ => rfl, fun _ => rfl, fun _ => rfl⟩

theorem unlogged_replied : Unlogged Action.replied := ⟨fun _ => rfl, fun _ => rfl, fun _ => rfl⟩

theorem uri_ne_nil {request : evhttp_request}
    (h : getRequestType request.uri ≠ .GET_UNKNOWN) : request.uri ≠ [] := by
  intro hnil
  rw [hnil] at h
  exact h (by decide)

/-- With a buffer and a URI a request does what its type asks for. -/
theorem ProcessRequest_dispatch {α : Type} {f : Action → Option α} (hf : Unlogged f)
    (hbuffer : env.evbuffer_new = true) (huri : request.uri ≠ []) :
    (ProcessRequest workers request env).1.filterMap f =
      (dispatch workers (getRequestInfo request) env).1.filterMap f := by
  have hURI : (getRequestInfo request).URI ≠ [] := huri
  -- what is saved of a request is a statement or a line of the log
  have hsaved : (saveRequest workers (getRequestInfo request) env).filterMap f = [] := by
    unfold saveRequest
    cases env.execQuery <;> simp [hf.execQuery, hf.FAST_LOG]
  unfold ProcessRequest
  rw [if_neg (by rw [hbuffer]; decide), if_neg hURI]
  change List.filterMap f (.evbuffer_new true :: (_ ++ _)) = _
  rw [List.filterMap_cons_none (hf.evbuffer_new true), List.filterMap_append, hsaved,
    List.nil_append]

/-- A request whose `switch` gets its answers returns. -/
theorem returned_of_answers (h : throws workers request env = false) :
    (ProcessRequest workers request env).2 = .returned := by
  cases hending : (ProcessRequest workers request env).2 with
  | returned => rfl
  | threw =>
    have hthrows := (threw_iff.mp hending).2.2
    rw [h] at hthrows
    cases hthrows

/-- The document of songs is sent, and nothing else. -/
theorem sends_songsDocument (henv : Shares t ws s dir workers env)
    (hlist : getRequestType request.uri = .GET_SONG_LIST) :
    (ProcessRequest workers request env).1.filterMap Action.printed = [songsDocument t ws s.db] ∧
      (ProcessRequest workers request env).1.filterMap Action.replied = [HTTP_OK] ∧
      (ProcessRequest workers request env).2 = .returned := by
  have huri := uri_ne_nil (by rw [hlist]; decide)
  have htype : getRequestType (getRequestInfo request).URI = .GET_SONG_LIST := hlist
  have hdocument : getSongsListAsJson workers.m_tdbworker_content env.content =
      some (songsDocument t ws s.db) := by
    rw [henv.worker, henv.content, getSongsListAsJson_content]
  have hactions : (dispatch workers (getRequestInfo request) env).1 =
      [.FAST_LOG ("JSON со списком песен отправлен получателю ".toList ++
          (getRequestInfo request).peer),
        .evbuffer_add_printf (songsDocument t ws s.db),
        .evhttp_add_header "Content-Type".toList "application/json".toList,
        .evhttp_send_reply HTTP_OK [], .evbuffer_free] := by
    unfold dispatch songListActions
    rw [htype, hdocument]
    simp only [cStr_of_nulFree (nul_notMem_songsDocument t ws s.db)]
  refine ⟨?_, ?_, returned_of_answers ?_⟩
  · rw [ProcessRequest_dispatch unlogged_printed henv.buffer huri, hactions]
    rfl
  · rw [ProcessRequest_dispatch unlogged_replied henv.buffer huri, hactions]
    rfl
  · rw [throws, htype]
    simp only [hdocument, Option.isNone_some]

/-- What `sendFile` opens and answers. -/
theorem sendFile_observed (env : Externals) (requestData : requestInfo) (filename path : Text) :
    (sendFile requestData env filename path).filterMap Action.opening = [(path, env.opened)] ∧
      (sendFile requestData env filename path).filterMap Action.replied =
        [match env.fstat with
          | none => HTTP_NOTFOUND
          | some st_size =>
              if env.opened && st_size != 0 && env.evbuffer_add_file then HTTP_OK
              else HTTP_NOTFOUND] := by
  unfold sendFile cannotOpen
  cases env.opened with
  | false => cases env.fstat <;> exact ⟨rfl, rfl⟩
  | true =>
    cases env.fstat with
    | none => exact ⟨rfl, rfl⟩
    | some st_size =>
      by_cases hsize : st_size = 0
      · subst hsize
        exact ⟨rfl, rfl⟩
      · have hbne : (st_size != 0) = true := by simpa using hsize
        cases env.evbuffer_add_file with
        | false =>
          simp only [hsize, hbne]
          exact ⟨rfl, rfl⟩
        | true =>
          simp only [hsize, hbne]
          exact ⟨rfl, rfl⟩

/-- The file of the row with the identifier is opened and no other one; it is sent when it can be
read and libevent takes it. -/
theorem opens_file (henv : Shares t ws s dir workers env) {r : SongRow} (hr : r ∈ s.db.rows)
    (huid : IsUID r.song_uid) (hdistinct : (s.db.rows.map SongRow.song_uid).Nodup)
    {n : FileName} (hn : n ∈ s.dir) (hname : n.text = r.song_name)
    (huri : request.uri = songURI r.song_uid) :
    (ProcessRequest workers request env).1.filterMap Action.opening =
        [(dir ++ '/' :: r.song_name, env.opened)] ∧
      (ProcessRequest workers request env).1.filterMap Action.replied =
        [if handsOver workers request env then HTTP_OK else HTTP_NOTFOUND] ∧
      (ProcessRequest workers request env).2 = .returned := by
  have htype : getRequestType (getRequestInfo request).URI = .GET_CONCRETE_SONG := by
    rw [← getRequestType_songURI huid, ← huri]
    rfl
  have hURI : (getRequestInfo request).URI = request.uri := rfl
  have hnonnil : request.uri ≠ [] := uri_ne_nil (by rw [← hURI, htype]; decide)
  have hfilename : downloadingFilename workers (getRequestInfo request) env = r.song_name := by
    unfold downloadingFilename
    rw [hURI, huri, getSongUIDOutOfURI_songURI huid, henv.worker, henv.content,
      getFilenameByUID_content huid, filter_uid_eq hdistinct hr]
    rfl
  have hnonempty : r.song_name ≠ [] := by
    rw [← hname]
    exact fun hnil => n.nonempty (List.map_eq_nil_iff.mp hnil)
  -- the file is looked for in the directory that is watched, where `n` is
  have hpath : downloadingFilePath env r.song_name = some (dir ++ '/' :: r.song_name) := by
    unfold downloadingFilePath
    rw [henv.configured]
    rfl
  have hexists : env.fs_exists (dir ++ '/' :: r.song_name) = some true := by
    rw [← hname]
    exact henv.files n hn
  have hactions : (dispatch workers (getRequestInfo request) env).1 =
      sendFile (getRequestInfo request) env r.song_name (dir ++ '/' :: r.song_name) := by
    unfold dispatch concreteSongActions
    rw [htype]
    simp only [hfilename, hpath, if_neg hnonempty, hexists]
  have hsends : handsOver workers request env =
      match env.fstat with
      | none => false
      | some st_size => env.opened && st_size != 0 && env.evbuffer_add_file := by
    rw [handsOver, htype]
    unfold concreteSongHandsOver
    simp only [hfilename, hpath]
    cases env.fstat with
    | none => rfl
    | some st_size => simp [hexists, hnonempty]
  obtain ⟨hopens, hreplies⟩ :=
    sendFile_observed env (getRequestInfo request) r.song_name (dir ++ '/' :: r.song_name)
  refine ⟨?_, ?_, returned_of_answers ?_⟩
  · rw [ProcessRequest_dispatch unlogged_opening henv.buffer hnonnil, hactions, hopens]
  · rw [ProcessRequest_dispatch unlogged_replied henv.buffer hnonnil, hactions, hreplies, hsends]
    cases env.fstat <;> rfl
  · rw [throws, htype]
    unfold concreteSongThrows
    simp [hfilename, hpath, hexists]

end Requests

/-- When the watch daemon rests after a run in order, and its identifiers are different, the HTTP
daemon serves the directory: the document that it sends names every file once and nothing else, and
the URI with the identifier beside a name makes it open the file of that name and no other, which
it sends when it can be read and libevent takes it. -/
theorem songs_served (t : TDB_type) (md5 : MD5) (codePosition : Text) (ws : Whitespace)
    {s : Watch.State} {dir : Text} {workers : Workers} {env : Externals}
    {request : evhttp_request}
    (h : Reachable (Watch.step t md5 codePosition) (fun s l => l.IsRecordable ∧ l.InOrder s)
      (fun s => s.IsInit ∧ IssuedUIDs s.db) s)
    (hquiet : s.Quiet) (hdistinct : (s.db.rows.map SongRow.song_uid).Nodup)
    (henv : Shares t ws s dir workers env)
    (hlist : getRequestType request.uri = .GET_SONG_LIST) :
    ∃ text j, (ProcessRequest workers request env).1.filterMap Action.printed = [text] ∧
      (ProcessRequest workers request env).1.filterMap Action.replied = [HTTP_OK] ∧
      (ProcessRequest workers request env).2 = .returned ∧
      parse text = some j ∧
      (∀ x, ((listedSongs j).map Prod.fst).count x = if ∃ n ∈ s.dir, n.text = x then 1 else 0) ∧
      ∀ song ∈ listedSongs j, ∀ (request' : evhttp_request) (env' : Externals),
        request'.uri = songURI song.2 → Shares t ws s dir workers env' →
        (ProcessRequest workers request' env').1.filterMap Action.opening =
            [(dir ++ '/' :: song.1, env'.opened)] ∧
          (ProcessRequest workers request' env').1.filterMap Action.replied =
            [if handsOver workers request' env' then HTTP_OK else HTTP_NOTFOUND] ∧
          (ProcessRequest workers request' env').2 = .returned := by
  obtain ⟨htracks, huids⟩ := tracks_of_reachable h
  have hmirrors := mirrors_of_quiet htracks hquiet
  obtain ⟨j, hparse, hlisted⟩ := parse_songsDocument t ws s.db
  have hperm := documentRows_perm t s.db
  obtain ⟨hprinted, hreplied, hreturned⟩ := sends_songsDocument henv hlist
  refine ⟨_, j, hprinted, hreplied, hreturned, hparse, fun x => ?_, ?_⟩
  · -- the order of the document does not change how often a name stands in it
    have hnames : (listedSongs j).map Prod.fst = (documentRows t s.db).map SongRow.song_name := by
      rw [hlisted, List.map_map]
      rfl
    rw [hnames, (hperm.map SongRow.song_name).count_eq, ← countName_of_mirrors hmirrors x,
      List.count_eq_countP, List.countP_map]
    apply List.countP_congr
    intro r _
    simp only [Function.comp, beq_iff_eq, decide_eq_true_eq]
  · -- a song of the document is a row, and a row of the mirror has its file
    intro song hsong request' env' huri henv'
    rw [hlisted] at hsong
    obtain ⟨r, hr, rfl⟩ := List.mem_map.mp hsong
    have hrow : r ∈ s.db.rows := hperm.mem_iff.mp hr
    obtain ⟨n, hn, hname⟩ := hmirrors.2 r hrow
    exact opens_file henv' hrow (huids r hrow) hdistinct hn hname huri

/-- A daemon over the state of the watch daemon, with the directory `music`. -/
def musicExternals (s : Watch.State) : Externals where
  evbuffer_new := true
  now := none
  execQuery := true
  content := contentDatabase .SQLITE ⟨[], nofun⟩ s.db
  m_ifp := ⟨some ⟨fun _ _ => some "music".toList⟩⟩
  fs_exists _ := some true
  opened := true
  fstat := none
  evbuffer_add_file := true

def listRequest : evhttp_request :=
  ⟨some .loopback, 50000, .EVHTTP_REQ_GET, "/get_song_list".toList⟩

theorem listRequest_type : getRequestType listRequest.uri = .GET_SONG_LIST := by decide

theorem songs_served_orderedRun :
    ∃ s, exec (Watch.step .SQLITE headDigest []) (fun s l => l.IsRecordable ∧ l.InOrder s)
        emptyState orderedRun = some s ∧ s.dir = [songB] ∧
      ∃ text j,
        (ProcessRequest ⟨.SQLITE, .SQLITE⟩ listRequest (musicExternals s)).1.filterMap
          Action.printed = [text] ∧
        (ProcessRequest ⟨.SQLITE, .SQLITE⟩ listRequest (musicExternals s)).1.filterMap
          Action.replied = [HTTP_OK] ∧
        (ProcessRequest ⟨.SQLITE, .SQLITE⟩ listRequest (musicExternals s)).2 = .returned ∧
        parse text = some j ∧
        (∀ x, ((listedSongs j).map Prod.fst).count x =
          if ∃ n ∈ s.dir, n.text = x then 1 else 0) ∧
        ∀ song ∈ listedSongs j, ∀ request' : evhttp_request, request'.uri = songURI song.2 →
          (ProcessRequest ⟨.SQLITE, .SQLITE⟩ request' (musicExternals s)).1.filterMap
              Action.opening = [("music".toList ++ '/' :: song.1, true)] ∧
            (ProcessRequest ⟨.SQLITE, .SQLITE⟩ request' (musicExternals s)).1.filterMap
              Action.replied =
              [if handsOver ⟨.SQLITE, .SQLITE⟩ request' (musicExternals s) then HTTP_OK
                else HTTP_NOTFOUND] ∧
            (ProcessRequest ⟨.SQLITE, .SQLITE⟩ request' (musicExternals s)).2 = .returned := by
  have hexec : ((exec (Watch.step .SQLITE headDigest [])
      (fun s l => l.IsRecordable ∧ l.InOrder s) emptyState orderedRun).map fun s =>
        decide ((s.Quiet ∧ (s.db.rows.map SongRow.song_uid).Nodup) ∧ s.dir = [songB])) =
      some true := by
    decide +kernel
  obtain ⟨s, hs, ⟨hquiet, hdistinct⟩, hdir⟩ := exec_decide_sound hexec
  have hinit : emptyState.IsInit ∧ IssuedUIDs emptyState.db := ⟨isInit_emptyState, nofun⟩
  have hshares : Shares .SQLITE ⟨[], nofun⟩ s "music".toList ⟨.SQLITE, .SQLITE⟩
      (musicExternals s) := ⟨rfl, rfl, rfl, fun _ _ => rfl, rfl⟩
  obtain ⟨text, j, hprinted, hreplied, hreturned, hparse, hcount, hfiles⟩ :=
    songs_served .SQLITE headDigest [] ⟨[], nofun⟩ (reachable_of_exec hinit _ hs) hquiet hdistinct
      hshares listRequest_type
  exact ⟨s, hs, hdir, text, j, hprinted, hreplied, hreturned, hparse, hcount,
    fun song hsong request' huri => hfiles song hsong request' _ huri hshares⟩

end PetProject.Http
