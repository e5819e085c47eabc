import Mathlib.Data.List.Basic
import PetProject.Http.Requests

/-!
# URIs and the statements built from them

The statements that the HTTP daemon builds put strings of the client between quotes as they are.
A statement keeps its tokens for every URI, with the URI as the value of one literal, exactly as
long as the strings have no quote.
-/

set_option autoImplicit false

namespace PetProject.Http

open PetProject.Foundation.TextSearch PetProject.Foundation.SqlLexer PetProject.Workers

/-- The tokens of the logging statement before the URI. -/
def requestLogTokens (requestData : requestInfo) : List Token :=
  tokens "INSERT INTO request_logs (hostname, port, rest_method, uri, req_time) VALUES (".toList ++
    [.literal requestData.host, .symbol ',', .literal requestData.port, .symbol ',',
      .literal requestData.method, .symbol ',']

/-- The part of the logging statement before the URI. -/
def requestLogPrefix (requestData : requestInfo) : Text :=
  ("INSERT INTO request_logs (hostname, port, rest_method, uri, req_time) VALUES ('".toList) ++
    (requestData.host ++ ("', '".toList ++ (requestData.port ++ ("', '".toList ++
      (requestData.method ++ "', '".toList)))))

theorem run_requestLogPrefix (request : evhttp_request) :
    run .neutral (requestLogPrefix (getRequestInfo request)) =
      (.literal [], requestLogTokens (getRequestInfo request)) := by
  have hpre : run .neutral
      "INSERT INTO request_logs (hostname, port, rest_method, uri, req_time) VALUES ('".toList =
      (.literal [], tokens
        "INSERT INTO request_logs (hostname, port, rest_method, uri, req_time) VALUES (".toList) :=
    by decide +kernel
  have hmid : ∀ v, run (.literal v) "', '".toList =
      (.literal [], [.literal v, .symbol ',']) := fun _ => rfl
  have hlast := run_slot (quote_notMem_method request) hmid []
  rw [List.append_nil] at hlast
  unfold requestLogPrefix
  rw [run_append, hpre, run_slot (quote_notMem_host request) hmid,
    run_slot (quote_notMem_port request) hmid, hlast]
  rfl

/-- The logging statement for two URIs of one request. -/
theorem saveRequest_sameButLiteral_iff (t : TDB_type) (now : Option (LocalTime × Nat))
    (request : evhttp_request) (u v : Text) :
    SameButLiteral
        (saveRequestAttemptToTDBQuery t now (getRequestInfo { request with uri := u }))
        (saveRequestAttemptToTDBQuery t now (getRequestInfo { request with uri := v })) u v ↔
      quote ∉ u ∧ quote ∉ v := by
  have hsplit : ∀ w, saveRequestAttemptToTDBQuery t now
      (getRequestInfo { request with uri := w }) =
        requestLogPrefix (getRequestInfo request) ++
          (w ++ quote :: ',' :: (' ' :: (getTimestamp t now ++ ");".toList))) := by
    intro w
    have hinfo : getRequestInfo { request with uri := w } =
        { getRequestInfo request with URI := w } := rfl
    have hclose : quote :: ',' :: (' ' :: (getTimestamp t now ++ ");".toList)) =
        "', ".toList ++ (getTimestamp t now ++ ");".toList) := rfl
    rw [hinfo, hclose]
    unfold saveRequestAttemptToTDBQuery requestLogPrefix
    iterate 6 rw [List.append_assoc]
  rw [hsplit u, hsplit v]
  apply sameButLiteral_iff (run_requestLogPrefix request)
  · -- the literals before the URI are the host, the port and the method
    intro w hw
    unfold requestLogTokens at hw
    rcases List.mem_append.mp hw with hfixed | hslots
    · exact absurd hfixed (literal_notMem_of_weight (by decide +kernel) w)
    · simp only [List.mem_cons, Token.literal.injEq, List.not_mem_nil, or_false, false_or,
        reduceCtorEq] at hslots
      rcases hslots with rfl | rfl | rfl
      · exact quote_notMem_host request
      · exact quote_notMem_port request
      · exact quote_notMem_method request
  · decide
  · -- behind the URI the timestamp is the only place for quotes
    have hnow := count_getTimestamp t now
    have hspace : (' ' : Char) ≠ quote := by decide
    have hend : (");".toList).count quote = 0 := rfl
    rw [List.count_cons_of_ne hspace, List.count_append, hend]
    exact hnow

/-- The part of a URI that `getSongUIDOutOfURI` returns has no quote. -/
def QuoteFreeUID (URI : Text) : Prop :=
  ∀ i, find uriTag URI = some i →
    quote ∉ (URI.drop (i + uriTag.length)).take (i + uriTag.length + UIDsize)

theorem quote_notMem_getSongUID_iff (URI : Text) :
    quote ∉ getSongUIDOutOfURI URI ↔ QuoteFreeUID URI := by
  unfold getSongUIDOutOfURI QuoteFreeUID
  cases hfind : find uriTag URI with
  | none =>
    constructor
    · intro _ i hi
      cases hi
    · intro _
      exact (by decide : quote ∉ "N/A".toList)
  | some i =>
    -- the tag was found, so `substr` starts inside the string
    have hle : i + uriTag.length ≤ URI.length := by
      have hsplit := congrArg List.length (find_split hfind)
      obtain ⟨hi, -⟩ := find_eq_some hfind
      simp only [List.length_append, List.length_take, List.length_drop] at hsplit
      omega
    simp only [substr, if_pos hle, Option.getD_some, Option.some.injEq]
    constructor
    · rintro h j rfl
      exact h
    · intro h
      exact h i rfl

/-- The query for the name of a song, for two URIs. -/
theorem getFilename_sameButLiteral_iff (t : TDB_type) (u v : Text) :
    SameButLiteral (getFilenameByUIDQuery t (getSongUIDOutOfURI u))
        (getFilenameByUIDQuery t (getSongUIDOutOfURI v)) (getSongUIDOutOfURI u)
        (getSongUIDOutOfURI v) ↔
      QuoteFreeUID u ∧ QuoteFreeUID v := by
  have hpre : run .neutral "SELECT song_name FROM song_list WHERE song_uid = '".toList =
      (.literal [], tokens "SELECT song_name FROM song_list WHERE song_uid =".toList) := by
    decide +kernel
  -- the fixed part has no literal of its own
  have hP : ∀ w, .literal w ∈ tokens "SELECT song_name FROM song_list WHERE song_uid =".toList →
      quote ∉ w := by
    intro w hw
    exact absurd hw (literal_notMem_of_weight (by decide +kernel) w)
  rw [getFilenameByUIDQuery_eq, getFilenameByUIDQuery_eq, ← quote_notMem_getSongUID_iff,
    ← quote_notMem_getSongUID_iff]
  exact sameButLiteral_iff hpre hP (by decide) (by decide) _ _

/-- For two URIs of one request the three statements have the same tokens but for the value of the
one literal that carries the URI or the identifier cut out of it. -/
def KeepsStatements (t : TDB_type) (now : Option (LocalTime × Nat)) (request : evhttp_request)
    (u v : Text) : Prop :=
  SameButLiteral
      (saveRequestAttemptToTDBQuery t now (getRequestInfo { request with uri := u }))
      (saveRequestAttemptToTDBQuery t now (getRequestInfo { request with uri := v })) u v ∧
    ∀ content : TDB_type,
      SameButLiteral (getFilenameByUIDQuery content (getSongUIDOutOfURI u))
        (getFilenameByUIDQuery content (getSongUIDOutOfURI v)) (getSongUIDOutOfURI u)
        (getSongUIDOutOfURI v)

theorem quoteFreeUID_of_quoteFree {URI : Text} (h : quote ∉ URI) : QuoteFreeUID URI := by
  intro i _ hmem
  exact h (List.mem_of_mem_drop (List.mem_of_mem_take hmem))

/-- Exactly the URIs without quotes leave all statements alone; for the query for the name it is
enough, and necessary, that the extracted part has no quote. -/
theorem statements_keep_tokens_iff (t : TDB_type) (now : Option (LocalTime × Nat))
    (request : evhttp_request) (u v : Text) :
    (KeepsStatements t now request u v ↔ quote ∉ u ∧ quote ∉ v) ∧
      ∀ content : TDB_type,
        SameButLiteral (getFilenameByUIDQuery content (getSongUIDOutOfURI u))
            (getFilenameByUIDQuery content (getSongUIDOutOfURI v)) (getSongUIDOutOfURI u)
            (getSongUIDOutOfURI v) ↔
          QuoteFreeUID u ∧ QuoteFreeUID v := by
  constructor
  · constructor
    · intro h
      exact (saveRequest_sameButLiteral_iff t now request u v).mp h.1
    · rintro ⟨hu, hv⟩
      constructor
      · exact (saveRequest_sameButLiteral_iff t now request u v).mpr ⟨hu, hv⟩
      · intro content
        apply (getFilename_sameButLiteral_iff content u v).mpr
        exact ⟨quoteFreeUID_of_quoteFree hu, quoteFreeUID_of_quoteFree hv⟩
  · intro content
    exact getFilename_sameButLiteral_iff content u v

/-- A URI with a quote in front of a condition of its own, against a plain one. -/
theorem not_keepsStatements_injection :
    ¬ ∀ (t : TDB_type) (now : Option (LocalTime × Nat)) (request : evhttp_request) (u v : Text),
      u ≠ [] → v ≠ [] → Char.ofNat 0 ∉ u → Char.ofNat 0 ∉ v →
        KeepsStatements t now request u v := by
  intro h
  have hkeep := h .SQLITE none ⟨some .loopback, 50000, .EVHTTP_REQ_GET, []⟩
    "/get_by_uid?uid=0".toList "/get_by_uid?uid=' OR '1'='1".toList (by decide) (by decide)
    (by decide) (by decide)
  have hfree := ((getFilename_sameButLiteral_iff .SQLITE _ _).mp (hkeep.2 .SQLITE)).2
  exact absurd (hfree 12 (by decide)) (by decide)

end PetProject.Http
