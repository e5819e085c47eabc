import Mathlib.Data.List.Basic
import PetProject.Daemon.Config
import PetProject.Http.Requests

/-!
# The handling of a request

`httpServer::ProcessRequest` as the calls it makes, in order, and whether it returns or lets an
exception through. What the libraries, the database and the configuration file answer during one
request is the record `Externals`.
-/

set_option autoImplicit false

namespace PetProject.Http

open PetProject.Foundation.TextSearch PetProject.Workers PetProject.Daemon

/-! ## Calls -/

def HTTP_OK : Nat := 200

def HTTP_BADREQUEST : Nat := 400

def HTTP_NOTFOUND : Nat := 404

/-- A call of `ProcessRequest`, with its outcome. -/
inductive Action where
  | evbuffer_new (ok : Bool)
  /-- `m_pl->FAST_LOG(CODE_POSITION() + message)`. -/
  | FAST_LOG (message : Text)
  /-- `m_tdbworker_logs->execQuery`. -/
  | execQuery (TDBquery : Text)
  | evbuffer_add_printf (text : Text)
  | evhttp_add_header (key value : Text)
  | evhttp_send_reply (code : Nat) (reason : Text)
  | evbuffer_free
  | open (path : Text) (ok : Bool)
  | fstat (ok : Bool)
  | evbuffer_add_file (size : Nat) (ok : Bool)
  | close
  deriving DecidableEq, Repr

/-- How a call of `ProcessRequest` ends. -/
inductive Ending where
  | returned
  /-- It has no answer of the database, of `at` or of `fs::exists` to go on with. -/
  | threw
  deriving DecidableEq, Repr

/-- What comes from outside during one request. -/
structure Externals where
  /-- `evbuffer_new()` does not return null. -/
  evbuffer_new : Bool
  /-- The time for the log of the requests. -/
  now : Option (LocalTime × Nat)
  /-- `execQuery` of the worker of the logs. -/
  execQuery : Bool
  /-- The database of the content. -/
  content : Text → QueryResult
  /-- The configuration file. -/
  m_ifp : iniFileParser
  /-- `fs::exists`; `none` when it throws. -/
  fs_exists : Text → Option Bool
  /-- `open` returns a descriptor. -/
  opened : Bool
  /-- `fstat` and the size of the file. -/
  fstat : Option Nat
  /-- `evbuffer_add_file` returns zero. -/
  evbuffer_add_file : Bool

/-- The types of the two workers. -/
structure Workers where
  m_tdbworker_logs : TDB_type
  m_tdbworker_content : TDB_type

/-- `iworker::getSongsListAsJson`; `none` when it throws or ends without a return value. -/
def getSongsListAsJson (t : TDB_type) (db : Text → QueryResult) : Option Text :=
  match t with
  | .POSTGRESQL => postgreWorker.getSongsListAsJson db
  | .SQLITE => SQLiteWorker.getSongsListAsJson db

/-! ## `ProcessRequest` -/

def errorWrongURIMsg : Text :=
  "empty URI (may be: /".toList ++ (getSongListURI ++ (" or /".toList ++ (getSongURI ++
    "?uid=SONG_FILE_UID)".toList)))

/-- `"[" + requestData.host + ":" + requestData.port + "]"`. -/
def requestInfo.peer (requestData : requestInfo) : Text :=
  '[' :: (requestData.host ++ (':' :: (requestData.port ++ "]".toList)))

/-- `saveRequestAttemptToTDB` and the test of its answer. -/
def saveRequest (workers : Workers) (requestData : requestInfo) (env : Externals) : List Action :=
  .execQuery (saveRequestAttemptToTDBQuery workers.m_tdbworker_logs env.now requestData) ::
    if env.execQuery then [] else [.FAST_LOG "Параметры запроса не сохранены в ТБД".toList]

/-- The case `GET_SONG_LIST`. -/
def songListActions (workers : Workers) (requestData : requestInfo) (env : Externals) :
    List Action × Ending :=
  match getSongsListAsJson workers.m_tdbworker_content env.content with
  | none => ([], .threw)
  | some songList =>
      ([.FAST_LOG ("JSON со списком песен отправлен получателю ".toList ++ requestData.peer),
        .evbuffer_add_printf (cStr songList),
        .evhttp_add_header "Content-Type".toList "application/json".toList,
        .evhttp_send_reply HTTP_OK [], .evbuffer_free], .returned)

/-- The name of the song that the URI asks for. -/
def downloadingFilename (workers : Workers) (requestData : requestInfo) (env : Externals) : Text :=
  getFilenameByUID workers.m_tdbworker_content env.content (getSongUIDOutOfURI requestData.URI)

/-- The path of a song; `none` when `at("dir")` throws. -/
def downloadingFilePath (env : Externals) (filename : Text) : Option Text :=
  ((env.m_ifp.getSectionContent pet_params.FILE_OBSERVER).2.lookup "dir".toList).map fun dir =>
    dir ++ '/' :: filename

/-- The answer of the branches that cannot send the file. -/
def cannotOpen (path : Text) : List Action :=
  [.evbuffer_add_printf ("Can't open file [".toList ++ (cStr path ++ "] for downloading".toList)),
    .evhttp_send_reply HTTP_NOTFOUND "File not found".toList, .evbuffer_free]

/-- The case `GET_CONCRETE_SONG` from `open` on. -/
def sendFile (requestData : requestInfo) (env : Externals) (filename path : Text) : List Action :=
  if env.opened = false then
    [.open path false,
      .FAST_LOG ("Не удалось открыть файл [".toList ++ (path ++ "]".toList))] ++ cannotOpen path
  else
    match env.fstat with
    | none =>
        [.open path true, .fstat false,
          .FAST_LOG ("Не удалось получить информацию о файле [".toList ++ (path ++ "]".toList))] ++
          cannotOpen path ++ [.close]
    | some st_size =>
        if st_size = 0 ∨ env.evbuffer_add_file = false then
          [.open path true, .fstat true] ++
            (if st_size = 0 then [] else [.evbuffer_add_file st_size false]) ++
            [.FAST_LOG ("Файл [".toList ++ (path ++ "] имеет нулевой размер".toList))] ++
            cannotOpen path ++ [.close]
        else
          [.open path true, .fstat true, .evbuffer_add_file st_size true,
            .FAST_LOG ("Файл [".toList ++ (filename ++ ("] отправлен получателю ".toList ++
              requestData.peer))),
            .evhttp_add_header "Content-Disposition".toList
              (cStr ("attachment; filename=\"".toList ++ (filename ++ "\"".toList))),
            .evhttp_add_header "Content-Type".toList "audio/mpeg".toList,
            .evhttp_send_reply HTTP_OK [], .evbuffer_free, .close]

/-- The case `GET_CONCRETE_SONG`. -/
def concreteSongActions (workers : Workers) (requestData : requestInfo) (env : Externals) :
    List Action × Ending :=
  let songUID := getSongUIDOutOfURI requestData.URI
  let filename := downloadingFilename workers requestData env
  match downloadingFilePath env filename with
  | none => ([], .threw)
  | some path =>
      -- `downloadingFilename.empty() || (!fs::exists(downloadingFilePath))`
      match (if filename = [] then some false else env.fs_exists path) with
      | none => ([], .threw)
      | some false =>
          ([.FAST_LOG ("Не найден файл с UID [".toList ++ (songUID ++ "]".toList)),
            .evbuffer_add_printf ("File with UID [".toList ++ (cStr songUID ++
              "] not found".toList)),
            .evhttp_send_reply HTTP_NOTFOUND "File not found".toList, .evbuffer_free], .returned)
      | some true => (sendFile requestData env filename path, .returned)

/-- The case `GET_UNKNOWN`. -/
def unknownActions (requestData : requestInfo) : List Action :=
  [.FAST_LOG ("Получен запрос с неверным URI [".toList ++ (requestData.URI ++ "]".toList)),
    .evbuffer_add_printf errorWrongURIMsg, .evhttp_send_reply HTTP_BADREQUEST [], .evbuffer_free]

/-- The `switch` of `ProcessRequest`. -/
def dispatch (workers : Workers) (requestData : requestInfo) (env : Externals) :
    List Action × Ending :=
  match getRequestType requestData.URI with
  | .GET_SONG_LIST => songListActions workers requestData env
  | .GET_CONCRETE_SONG => concreteSongActions workers requestData env
  | .GET_UNKNOWN => (unknownActions requestData, .returned)

def ProcessRequest (workers : Workers) (request : evhttp_request) (env : Externals) :
    List Action × Ending :=
  if env.evbuffer_new = false then
    ([.evbuffer_new false, .FAST_LOG "Не удалось создать out-буфер".toList], .returned)
  else
    let requestData := getRequestInfo request
    if requestData.URI = [] then
      ([.evbuffer_new true,
        .FAST_LOG ("В запросе от ".toList ++ (requestData.peer ++ " получен пустой URI".toList)),
        .evbuffer_add_printf errorWrongURIMsg, .evhttp_send_reply HTTP_BADREQUEST [],
        .evbuffer_free], .returned)
    else
      let rest := dispatch workers requestData env
      (.evbuffer_new true :: (saveRequest workers requestData env ++ rest.1), rest.2)

/-! ## What a request comes to -/

/-- `at` or `fs::exists` throws in the case `GET_CONCRETE_SONG`. -/
def concreteSongThrows (workers : Workers) (requestData : requestInfo) (env : Externals) : Bool :=
  let filename := downloadingFilename workers requestData env
  match downloadingFilePath env filename with
  | none => true
  | some path => !filename.isEmpty && (env.fs_exists path).isNone

/-- The file of a song gets to `evbuffer_add_file`, which takes it. -/
def concreteSongHandsOver (workers : Workers) (requestData : requestInfo) (env : Externals) :
    Bool :=
  let filename := downloadingFilename workers requestData env
  match downloadingFilePath env filename, env.fstat with
  | some path, some st_size =>
      !filename.isEmpty && (env.fs_exists path == some true) &&
        (env.opened && st_size != 0 && env.evbuffer_add_file)
  | _, _ => false

/-- The `switch` ends before its reply. -/
def throws (workers : Workers) (request : evhttp_request) (env : Externals) : Bool :=
  let requestData := getRequestInfo request
  match getRequestType requestData.URI with
  | .GET_SONG_LIST => (getSongsListAsJson workers.m_tdbworker_content env.content).isNone
  | .GET_CONCRETE_SONG => concreteSongThrows workers requestData env
  | .GET_UNKNOWN => false

/-- The descriptor goes to libevent. -/
def handsOver (workers : Workers) (request : evhttp_request) (env : Externals) : Bool :=
  let requestData := getRequestInfo request
  match getRequestType requestData.URI with
  | .GET_CONCRETE_SONG => concreteSongHandsOver workers requestData env
  | _ => false

/-- The request is answered before the `switch`, or by it. -/
def answered (workers : Workers) (request : evhttp_request) (env : Externals) : Bool :=
  env.evbuffer_new && (request.uri.isEmpty || !throws workers request env)

/-- Where the descriptor of a request is. -/
inductive Stage where
  | unopened
  | opened
  /-- libevent has taken it. -/
  | handed
  | closed
  deriving DecidableEq, Repr

/-- The stage after a call; `none` for a call that is out of place. -/
def Stage.after (sends : Bool) : Stage → Action → Option Stage
  | .unopened, .open _ ok => some (if ok then .opened else .unopened)
  | .opened, .fstat _ => some .opened
  | .opened, .evbuffer_add_file _ ok =>
      if ok then (if sends then some .handed else none) else some .opened
  | .opened, .close => if sends then none else some .closed
  | .handed, .close => if sends then some .handed else none
  | _, .open _ _ | _, .fstat _ | _, .evbuffer_add_file _ _ | _, .close => none
  | st, _ => some st

/-- Every call is in its place, and an opened descriptor does not stay behind. -/
def Stage.accepts (sends : Bool) : Stage → List Action → Bool
  | st, [] => st != .opened
  | st, a :: rest =>
      match st.after sends a with
      | none => false
      | some st' => st'.accepts sends rest

def Action.isReply : Action → Bool
  | .evhttp_send_reply _ _ => true
  | _ => false

def Action.isFree : Action → Bool
  | .evbuffer_free => true
  | _ => false

/-- The calls keep the order of the stages, and answer and free `n` times. -/
structure Handles (sends : Bool) (n : Nat) (actions : List Action) : Prop where
  accepts : Stage.accepts sends .unopened actions = true
  replies : actions.countP Action.isReply = n
  frees : actions.countP Action.isFree = n

section Handles

variable {sends : Bool} {workers : Workers} {request : evhttp_request} {requestData : requestInfo}
  {env : Externals}

theorem handles_songList :
    Handles sends
      (if (getSongsListAsJson workers.m_tdbworker_content env.content).isNone then 0 else 1)
      (songListActions workers requestData env).1 := by
  unfold songListActions
  cases getSongsListAsJson workers.m_tdbworker_content env.content with
  | none => exact ⟨rfl, rfl, rfl⟩
  | some songList => exact ⟨rfl, rfl, rfl⟩

theorem handles_unknown : Handles sends 1 (unknownActions requestData) :=
  ⟨rfl, rfl, rfl⟩

/-- The branches of `sendFile` close the descriptor while it is theirs, but for the last one. -/
theorem handles_sendFile (filename path : Text) :
    Handles (match env.fstat with
      | none => false
      | some st_size => env.opened && st_size != 0 && env.evbuffer_add_file) 1
      (sendFile requestData env filename path) := by
  unfold sendFile cannotOpen
  cases hopened : env.opened with
  | false =>
    cases env.fstat with
    | none => exact ⟨rfl, rfl, rfl⟩
    | some st_size => exact ⟨rfl, rfl, rfl⟩
  | true =>
    cases hstat : env.fstat with
    | none => exact ⟨rfl, rfl, rfl⟩
    | some st_size =>
      by_cases hsize : st_size = 0
      · subst hsize
        exact ⟨rfl, rfl, rfl⟩
      · cases hadd : env.evbuffer_add_file with
        | false =>
          have hbne : (st_size != 0) = true := by simpa using hsize
          simp only [hsize, hbne]
          exact ⟨rfl, rfl, rfl⟩
        | true =>
          have hbne : (st_size != 0) = true := by simpa using hsize
          simp only [hsize, hbne]
          exact ⟨rfl, rfl, rfl⟩

theorem handles_concreteSong :
    Handles (concreteSongHandsOver workers requestData env)
      (if concreteSongThrows workers requestData env then 0 else 1)
      (concreteSongActions workers requestData env).1 := by
  unfold concreteSongActions concreteSongThrows concreteSongHandsOver
  generalize downloadingFilename workers requestData env = filename
  cases hpath : downloadingFilePath env filename with
  | none =>
    simp only [hpath]
    exact ⟨rfl, rfl, rfl⟩
  | some path =>
    simp only [hpath]
    cases filename with
    | nil => exact ⟨rfl, rfl, rfl⟩
    | cons x xs =>
      have hne : x :: xs ≠ [] := List.cons_ne_nil x xs
      simp only [if_neg hne]
      cases hexists : env.fs_exists path with
      | none => exact ⟨rfl, rfl, rfl⟩
      | some found =>
        cases found with
        | false => exact ⟨rfl, rfl, rfl⟩
        | true =>
          have hfile : Handles (match env.fstat with
              | none => false
              | some st_size => env.opened && st_size != 0 && env.evbuffer_add_file) 1
              (sendFile requestData env (x :: xs) path) := handles_sendFile (x :: xs) path
          cases hstat : env.fstat with
          | none =>
            simp only [hstat] at hfile
            exact hfile
          | some st_size =>
            simp only [hstat] at hfile
            have hfound : (!(x :: xs).isEmpty && (env.fs_exists path == some true)) = true := by
              rw [hexists]
              rfl
            simp only [hfound, Bool.true_and]
            exact hfile

/-- The `switch` answers once unless it throws. -/
theorem handles_dispatch :
    Handles (handsOver workers request env) (if throws workers request env then 0 else 1)
      (dispatch workers (getRequestInfo request) env).1 := by
  unfold dispatch
  cases htype : getRequestType (getRequestInfo request).URI with
  | GET_SONG_LIST =>
    have hthrows : throws workers request env =
        (getSongsListAsJson workers.m_tdbworker_content env.content).isNone := by
      rw [throws, htype]
    rw [hthrows]
    exact handles_songList
  | GET_CONCRETE_SONG =>
    have hthrows : throws workers request env =
        concreteSongThrows workers (getRequestInfo request) env := by
      rw [throws, htype]
    have hsends : handsOver workers request env =
        concreteSongHandsOver workers (getRequestInfo request) env := by
      rw [handsOver, htype]
    rw [hthrows, hsends]
    exact handles_concreteSong
  | GET_UNKNOWN =>
    have hthrows : throws workers request env = false := by
      rw [throws, htype]
    rw [hthrows]
    exact handles_unknown

/-- The log of the request does not touch descriptors, replies or buffers. -/
theorem handles_saveRequest {n : Nat} {actions : List Action} (h : Handles sends n actions) :
    Handles sends n (.evbuffer_new true :: (saveRequest workers requestData env ++ actions)) := by
  unfold saveRequest
  cases env.execQuery with
  | false => exact ⟨h.accepts, h.replies, h.frees⟩
  | true => exact ⟨h.accepts, h.replies, h.frees⟩

theorem handles_ProcessRequest :
    Handles (handsOver workers request env) (if answered workers request env then 1 else 0)
      (ProcessRequest workers request env).1 := by
  unfold ProcessRequest answered
  cases hnew : env.evbuffer_new with
  | false => exact ⟨rfl, rfl, rfl⟩
  | true =>
    cases huri : request.uri with
    | nil =>
      have hempty : (getRequestInfo request).URI = [] := huri
      simp only [hempty, if_true]
      exact ⟨rfl, rfl, rfl⟩
    | cons x xs =>
      have hne : (getRequestInfo request).URI ≠ [] := by
        rw [show (getRequestInfo request).URI = request.uri from rfl, huri]
        exact List.cons_ne_nil x xs
      simp only [Bool.true_eq_false, if_false, hne, Bool.true_and, List.isEmpty_cons,
        Bool.false_or]
      apply handles_saveRequest
      have hdispatch :
          Handles (handsOver workers request env) (if throws workers request env then 0 else 1)
            (dispatch workers (getRequestInfo request) env).1 := handles_dispatch
      cases hthrows : throws workers request env with
      | false => simpa [hthrows] using hdispatch
      | true => simpa [hthrows] using hdispatch

theorem songList_threw_iff : (songListActions workers requestData env).2 = .threw ↔
    (getSongsListAsJson workers.m_tdbworker_content env.content).isNone = true := by
  unfold songListActions
  cases getSongsListAsJson workers.m_tdbworker_content env.content with
  | none => exact ⟨fun _ => rfl, fun _ => rfl⟩
  | some songList => exact ⟨nofun, nofun⟩

theorem concreteSong_threw_iff : (concreteSongActions workers requestData env).2 = .threw ↔
    concreteSongThrows workers requestData env = true := by
  unfold concreteSongActions concreteSongThrows
  generalize downloadingFilename workers requestData env = filename
  cases hpath : downloadingFilePath env filename with
  | none =>
    simp only [hpath]
  | some path =>
    simp only [hpath]
    cases filename with
    | nil => exact ⟨nofun, nofun⟩
    | cons x xs =>
      simp only [if_neg (List.cons_ne_nil x xs)]
      rcases env.fs_exists path with _ | found
      · exact ⟨fun _ => rfl, fun _ => rfl⟩
      · cases found <;> exact ⟨nofun, nofun⟩

/-- Where the handling ends without a reply. -/
theorem threw_iff : (ProcessRequest workers request env).2 = .threw ↔
    env.evbuffer_new = true ∧ request.uri ≠ [] ∧ throws workers request env = true := by
  have hdispatch : (dispatch workers (getRequestInfo request) env).2 = .threw ↔
      throws workers request env = true := by
    cases htype : getRequestType (getRequestInfo request).URI with
    | GET_SONG_LIST =>
      rw [dispatch, throws, htype]
      exact songList_threw_iff
    | GET_CONCRETE_SONG =>
      rw [dispatch, throws, htype]
      exact concreteSong_threw_iff
    | GET_UNKNOWN =>
      rw [dispatch, throws, htype]
      exact ⟨nofun, nofun⟩
  have hURI : (getRequestInfo request).URI = request.uri := rfl
  unfold ProcessRequest
  cases hnew : env.evbuffer_new with
  | false => exact ⟨nofun, nofun⟩
  | true =>
    by_cases huri : request.uri = []
    · simp only [hURI, huri, Bool.true_eq_false, if_false, if_true]
      exact ⟨nofun, fun h => absurd rfl h.2.1⟩
    · simp only [hURI, huri, Bool.true_eq_false, if_false, hdispatch]
      exact ⟨fun h => ⟨trivial, huri, h⟩, fun h => h.2.2⟩

end Handles

end PetProject.Http
