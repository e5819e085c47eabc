import Mathlib.Data.List.Basic
import PetProject.Workers.Model

/-!
# Requests of the HTTP daemon

The parts of `httpServer` (`http_daemon/src/http_server.cpp`) that turn a request into calls of the
database workers: `getRequestInfo` collects the peer, the method and the URI, `getRequestType`
classifies the URI, `getSongUIDOutOfURI` cuts the identifier of a song out of it, and
`saveRequestAttemptToTDB` builds the statement that logs the request.
-/

set_option autoImplicit false

namespace PetProject.Http

open PetProject.Foundation.TextSearch PetProject.Foundation.SqlLexer PetProject.Workers

/-- `pet::get_type`. -/
inductive get_type where
  | GET_SONG_LIST
  | GET_CONCRETE_SONG
  | GET_UNKNOWN
  deriving DecidableEq, Repr

/-- `pet::getSongListURI`. -/
def getSongListURI : Text := "get_song_list".toList

/-- `pet::getSongURI`. -/
def getSongURI : Text := "get_by_uid".toList

/-- `pet::requestInfo`. -/
structure requestInfo where
  host : Text
  port : Text
  method : Text
  URI : Text
  deriving DecidableEq, Repr

/-- The commands of a request that the library knows. -/
inductive evhttp_cmd_type where
  | EVHTTP_REQ_GET
  | EVHTTP_REQ_POST
  | EVHTTP_REQ_HEAD
  | EVHTTP_REQ_PUT
  | EVHTTP_REQ_DELETE
  | EVHTTP_REQ_OPTIONS
  | EVHTTP_REQ_TRACE
  | EVHTTP_REQ_CONNECT
  | EVHTTP_REQ_PATCH
  /-- A command outside the table of `getRequestInfo`. -/
  | other
  deriving DecidableEq, Repr

/-- The address of the peer of a connection, as the library prints it: a numeric address. -/
structure PeerAddress where
  text : Text
  numeric : quote ∉ text

/-- A client on the host of the daemon. -/
def PeerAddress.loopback : PeerAddress := ⟨"127.0.0.1".toList, by decide⟩

/-- A request as the library hands it over: the peer, which is null when it is unknown, the port,
the command and the URI. -/
structure evhttp_request where
  clientIP : Option PeerAddress
  clientPort : UInt16
  command : evhttp_cmd_type
  uri : Text

/-- The table of method names. -/
def requestType : evhttp_cmd_type → Option Text
  | .EVHTTP_REQ_GET => some "GET".toList
  | .EVHTTP_REQ_POST => some "POST".toList
  | .EVHTTP_REQ_HEAD => some "HEAD".toList
  | .EVHTTP_REQ_PUT => some "PUT".toList
  | .EVHTTP_REQ_DELETE => some "DELETE".toList
  | .EVHTTP_REQ_OPTIONS => some "OPTIONS".toList
  | .EVHTTP_REQ_TRACE => some "TRACE".toList
  | .EVHTTP_REQ_CONNECT => some "CONNECT".toList
  | .EVHTTP_REQ_PATCH => some "PATCH".toList
  | .other => none

def notDefined : Text := "N/A".toList

def getRequestInfo (request : evhttp_request) : requestInfo :=
  let peer :=
    -- `if(clientIP && clientPort)`
    match request.clientIP with
    | some ip =>
        if request.clientPort ≠ 0 then (ip.text, decimal request.clientPort.toNat)
        else (notDefined, notDefined)
    | none => (notDefined, notDefined)
  { host := peer.1
    port := peer.2
    method := (requestType request.command).getD notDefined
    URI := request.uri }

def getRequestType (URI : Text) : get_type :=
  -- the command of the list is looked for first
  if (find getSongListURI URI).isSome then .GET_SONG_LIST
  else if (find getSongURI URI).isSome then .GET_CONCRETE_SONG
  else .GET_UNKNOWN

/-- `uriTag` of `getSongUIDOutOfURI`. -/
def uriTag : Text := "uid=".toList

/-- `UIDsize` of `getSongUIDOutOfURI`. -/
def UIDsize : Nat := 32

/-- `getSongUIDOutOfURI`. The second argument of `substr` is a number of characters; the function
passes `begPos + UIDsize`. -/
def getSongUIDOutOfURI (URI : Text) : Text :=
  match find uriTag URI with
  | none => "N/A".toList
  | some i =>
      let begPos := i + uriTag.length
      (substr URI begPos (begPos + UIDsize)).getD []

/-- The statement that `saveRequestAttemptToTDB` hands to the worker of the logs. -/
def saveRequestAttemptToTDBQuery (t : TDB_type) (now : Option (LocalTime × Nat))
    (requestData : requestInfo) : Text :=
  ("INSERT INTO request_logs (hostname, port, rest_method, uri, req_time) VALUES ('".toList) ++
    (requestData.host ++ ("', '".toList ++ (requestData.port ++ ("', '".toList ++
      (requestData.method ++ ("', '".toList ++ (requestData.URI ++ ("', ".toList ++
        (getTimestamp t now ++ ");".toList)))))))))

/-! ## The pieces of a request without quotes -/

theorem quote_notMem_host (request : evhttp_request) : quote ∉ (getRequestInfo request).host := by
  unfold getRequestInfo
  cases request.clientIP with
  | none => exact (by decide : quote ∉ notDefined)
  | some ip =>
    dsimp only
    split
    · exact ip.numeric
    · exact (by decide : quote ∉ notDefined)

theorem quote_notMem_port (request : evhttp_request) : quote ∉ (getRequestInfo request).port := by
  unfold getRequestInfo
  cases request.clientIP with
  | none => exact (by decide : quote ∉ notDefined)
  | some ip =>
    dsimp only
    split
    · exact quote_notMem_decimal _
    · exact (by decide : quote ∉ notDefined)

theorem quote_notMem_method (request : evhttp_request) :
    quote ∉ (getRequestInfo request).method := by
  have htable : ∀ c, quote ∉ (requestType c).getD notDefined := by
    intro c
    cases c <;> decide
  exact htable request.command

end PetProject.Http
