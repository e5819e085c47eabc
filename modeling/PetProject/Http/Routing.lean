import PetProject.Http.Handling
import PetProject.Http.Resolve

/-!
# What a URI asks for

`getSongUIDOutOfURI` and `getRequestType` of `http_daemon/src/http_server.cpp` on all URIs. The
identifier is cut out behind the first `uid=`; the length that the function passes to `substr` grows
with the position of the tag, so the cut is right only when little enough follows. The type is
decided by two searches over the whole URI, which are compared here with the forms that the error
message names: a path and, for a song, a query with the parameter `uid` (`documentedType`).
-/

set_option autoImplicit false

namespace PetProject.Http

open PetProject.Foundation.TextSearch PetProject.Workers PetProject.Daemon

/-! ## The identifier -/

/-- What the function returns when `r` follows the first tag. -/
theorem getSongUIDOutOfURI_of_split {URI pre r : Text} (h : FirstSplit uriTag URI pre r) :
    getSongUIDOutOfURI URI = r.take (pre.length + uriTag.length + UIDsize) := by
  have hlen : pre.length + uriTag.length ≤ URI.length := by
    rw [h.1, List.length_append, List.length_append]
    omega
  have hdrop : URI.drop (pre.length + uriTag.length) = r := by
    rw [h.1, ← List.drop_drop, List.drop_left, List.drop_left]
  simp only [getSongUIDOutOfURI, find_of_firstSplit h, substr, if_pos hlen, hdrop,
    Option.getD_some]

/-- The cut takes at most `UIDsize` characters exactly when no more follow. -/
theorem take_eq_iff {r : Text} {n : Nat} (hn : 0 < n) :
    (r.take (n + UIDsize) = r.take UIDsize ∧ (r.take (n + UIDsize)).length ≤ UIDsize) ↔
      r.length ≤ UIDsize := by
  constructor
  · rintro ⟨-, hle⟩
    rw [List.length_take] at hle
    omega
  · intro hle
    rw [List.take_of_length_le (Nat.le_trans hle (Nat.le_add_left _ _)),
      List.take_of_length_le hle]
    exact ⟨rfl, hle⟩

theorem firstSplit_songURI (x : Text) :
    FirstSplit uriTag (songURI x) "/get_by_uid?".toList x := by
  have hfind : find uriTag (songURI x) = some 12 := rfl
  have hsplit := firstSplit_of_find hfind
  exact hsplit

/-- With `r` behind the first `uid=` of a URI, the result is the first 32 characters of `r`, or all
of it when it is shorter, exactly when `r` has at most 32 characters; so the URI of a song yields
its identifier exactly when nothing follows it. -/
theorem uid_cut_iff (URI : Text) :
    (∀ pre r : Text, FirstSplit uriTag URI pre r →
      ((getSongUIDOutOfURI URI = r.take UIDsize ∧ (getSongUIDOutOfURI URI).length ≤ UIDsize) ↔
        r.length ≤ UIDsize)) ∧
    (∀ u s : Text, u.length = UIDsize → URI = songURI (u ++ s) →
      (getSongUIDOutOfURI URI = u ↔ s = [])) := by
  constructor
  · intro pre r h
    rw [getSongUIDOutOfURI_of_split h]
    exact take_eq_iff (Nat.lt_of_lt_of_le (by decide : 0 < uriTag.length) (Nat.le_add_left _ _))
  · rintro u s hu rfl
    rw [getSongUIDOutOfURI_of_split (firstSplit_songURI (u ++ s))]
    constructor
    · intro h
      -- the cut has room for 16 characters behind the identifier, so what follows shows
      have hlen := congrArg List.length h
      rw [List.length_take, List.length_append, hu] at hlen
      have hpre : "/get_by_uid?".toList.length + uriTag.length = 16 := by decide
      rw [hpre] at hlen
      exact List.length_eq_zero_iff.mp (by omega)
    · rintro rfl
      rw [List.append_nil]
      refine List.take_of_length_le ?_
      rw [hu]
      exact Nat.le_add_left _ _

/-- An identifier of 32 characters. -/
def sampleUID : Text := "0123456789ABCDEF0123456789ABCDEF".toList

theorem uid_cut_iff_sample :
    ((getSongUIDOutOfURI (songURI sampleUID) = sampleUID.take UIDsize ∧
        (getSongUIDOutOfURI (songURI sampleUID)).length ≤ UIDsize) ↔
      sampleUID.length ≤ UIDsize) ∧
    (getSongUIDOutOfURI (songURI sampleUID) = sampleUID ↔ ([] : Text) = []) :=
  ⟨(uid_cut_iff (songURI sampleUID)).1 _ _ (firstSplit_songURI sampleUID),
    (uid_cut_iff (songURI sampleUID)).2 sampleUID [] (by decide) (by rw [List.append_nil])⟩

/-- A parameter behind the identifier becomes a part of it. -/
theorem not_uid_cut_parameter :
    FirstSplit uriTag (songURI (sampleUID ++ "&x=1".toList)) "/get_by_uid?".toList
        (sampleUID ++ "&x=1".toList) ∧
      getSongUIDOutOfURI (songURI (sampleUID ++ "&x=1".toList)) ≠
        (sampleUID ++ "&x=1".toList).take UIDsize :=
  ⟨firstSplit_songURI _, by decide⟩

/-! ## The type of a request -/

/-- The characters that end a path. -/
def endsPath (c : Char) : Bool := c == '?' || c == '#'

/-- The part in front of the first `?` or `#`. -/
def pathOf (URI : Text) : Text := URI.takeWhile fun c => !endsPath c

/-- The part between a `?` that ends the path and the next `#`. -/
def queryOf (URI : Text) : Text :=
  match URI.dropWhile fun c => !endsPath c with
  | '?' :: query => query.takeWhile (· ≠ '#')
  | _ => []

/-- The names of the parameters of a query. -/
def parameterNames (query : Text) : List Text :=
  (query.splitOn '&').map fun p => p.takeWhile (· ≠ '=')

/-- The type by the two forms that the error message names. -/
def documentedType (URI : Text) : get_type :=
  if pathOf URI = '/' :: getSongListURI then .GET_SONG_LIST
  else if pathOf URI = '/' :: getSongURI ∧ "uid".toList ∈ parameterNames (queryOf URI) then
    .GET_CONCRETE_SONG
  else .GET_UNKNOWN

section Types

variable {URI : Text}

theorem getRequestType_songList_iff :
    getRequestType URI = .GET_SONG_LIST ↔ getSongListURI <:+: URI := by
  rw [← find_isSome_iff, getRequestType]
  cases find getSongListURI URI with
  | some i => simp
  | none => cases find getSongURI URI <;> simp

theorem getRequestType_song_iff :
    getRequestType URI = .GET_CONCRETE_SONG ↔
      getSongURI <:+: URI ∧ ¬ getSongListURI <:+: URI := by
  rw [← find_isSome_iff, ← find_isSome_iff, getRequestType]
  cases find getSongListURI URI with
  | some i => simp
  | none => cases find getSongURI URI <;> simp

theorem getRequestType_unknown_iff :
    getRequestType URI = .GET_UNKNOWN ↔
      ¬ getSongListURI <:+: URI ∧ ¬ getSongURI <:+: URI := by
  rw [← find_isSome_iff, ← find_isSome_iff, getRequestType]
  cases find getSongListURI URI with
  | some i => simp
  | none => cases find getSongURI URI <;> simp

/-- A command word that is the path occurs in the URI. -/
theorem infix_of_path {word : Text} (h : pathOf URI = '/' :: word) : word <:+: URI := by
  have hpath : pathOf URI <:+: URI := (List.takeWhile_prefix _).isInfix
  rw [h] at hpath
  exact (List.suffix_cons '/' word).isInfix.trans hpath

theorem documentedType_songList (h : documentedType URI = .GET_SONG_LIST) :
    getSongListURI <:+: URI := by
  by_cases hlist : pathOf URI = '/' :: getSongListURI
  · exact infix_of_path hlist
  · rw [documentedType, if_neg hlist] at h
    split at h <;> cases h

theorem documentedType_song (h : documentedType URI = .GET_CONCRETE_SONG) :
    getSongURI <:+: URI := by
  rw [documentedType] at h
  split at h
  · cases h
  · split at h
    · rename_i hsong
      exact infix_of_path hsong.1
    · cases h

/-- What is refused is outside of both forms. -/
theorem documentedType_unknown (h : getRequestType URI = .GET_UNKNOWN) :
    documentedType URI = .GET_UNKNOWN := by
  obtain ⟨hlist, hsong⟩ := getRequestType_unknown_iff.mp h
  cases hd : documentedType URI with
  | GET_SONG_LIST => exact absurd (documentedType_songList hd) hlist
  | GET_CONCRETE_SONG => exact absurd (documentedType_song hd) hsong
  | GET_UNKNOWN => rfl

/-- A URI of unknown type is answered with the message. -/
theorem ProcessRequest_unknown {workers : Workers} {request : evhttp_request} {env : Externals}
    (hbuf : env.evbuffer_new = true) (huri : request.uri ≠ [])
    (htype : getRequestType request.uri = .GET_UNKNOWN) :
    ∃ before, ProcessRequest workers request env =
      (before ++ [.evbuffer_add_printf errorWrongURIMsg, .evhttp_send_reply HTTP_BADREQUEST [],
        .evbuffer_free], .returned) := by
  have hbuf' : ¬ env.evbuffer_new = false := by
    rw [hbuf]
    exact Bool.noConfusion
  refine ⟨.evbuffer_new true :: (saveRequest workers (getRequestInfo request) env ++
    [.FAST_LOG ("Получен запрос с неверным URI [".toList ++ (request.uri ++ "]".toList))]), ?_⟩
  have hinfo : (getRequestInfo request).URI = request.uri := rfl
  rw [ProcessRequest, if_neg hbuf']
  simp only [hinfo, if_neg huri, dispatch, htype, unknownActions, List.cons_append,
    List.append_assoc, List.nil_append]

end Types

/-- The type is decided by the command words, wherever they stand in the URI, the word of the list
first. A path that is one of the two documented ones is accepted, the one of the list always and the
one of a song unless the other word occurs as well; a URI with neither word is outside of the
documented forms and, unless it is empty, answered with status 400 and the two forms. -/
theorem routed_by_words (URI : Text) :
    (getRequestType URI = .GET_SONG_LIST ↔ getSongListURI <:+: URI) ∧
    (getRequestType URI = .GET_CONCRETE_SONG ↔ getSongURI <:+: URI ∧ ¬ getSongListURI <:+: URI) ∧
    (getRequestType URI = .GET_UNKNOWN ↔ ¬ getSongListURI <:+: URI ∧ ¬ getSongURI <:+: URI) ∧
    (documentedType URI = .GET_SONG_LIST → getRequestType URI = .GET_SONG_LIST) ∧
    (documentedType URI = .GET_CONCRETE_SONG → ¬ getSongListURI <:+: URI →
      getRequestType URI = .GET_CONCRETE_SONG) ∧
    (getRequestType URI = .GET_UNKNOWN → documentedType URI = .GET_UNKNOWN) ∧
    (∀ (workers : Workers) (request : evhttp_request) (env : Externals), request.uri = URI →
      URI ≠ [] → env.evbuffer_new = true → getRequestType URI = .GET_UNKNOWN →
      ∃ before, ProcessRequest workers request env =
        (before ++ [.evbuffer_add_printf errorWrongURIMsg, .evhttp_send_reply HTTP_BADREQUEST [],
          .evbuffer_free], .returned)) ∧
    '/' :: getSongListURI <:+: errorWrongURIMsg ∧ '/' :: getSongURI <:+: errorWrongURIMsg := by
  refine ⟨getRequestType_songList_iff, getRequestType_song_iff, getRequestType_unknown_iff,
    fun h => getRequestType_songList_iff.mpr (documentedType_songList h),
    fun h hlist => getRequestType_song_iff.mpr ⟨documentedType_song h, hlist⟩,
    documentedType_unknown, ?_, by decide, by decide⟩
  rintro workers request env rfl huri hbuf htype
  exact ProcessRequest_unknown hbuf huri htype

/-- A request for the icon of the site, from an unknown peer. -/
def iconRequest : evhttp_request where
  clientIP := none
  clientPort := 0
  command := .EVHTTP_REQ_GET
  uri := "/favicon.ico".toList

/-- Nothing outside answers but the allocation of the buffer. -/
def silentExternals : Externals where
  evbuffer_new := true
  now := none
  execQuery := false
  content _ := .connectionFailure
  m_ifp := ⟨none⟩
  fs_exists _ := none
  opened := false
  fstat := none
  evbuffer_add_file := false

theorem routed_by_words_icon :
    getRequestType iconRequest.uri = .GET_UNKNOWN ∧ documentedType iconRequest.uri = .GET_UNKNOWN ∧
      ∃ before, ProcessRequest ⟨.SQLITE, .SQLITE⟩ iconRequest silentExternals =
        (before ++ [.evbuffer_add_printf errorWrongURIMsg, .evhttp_send_reply HTTP_BADREQUEST [],
          .evbuffer_free], .returned) :=
  have htype : getRequestType iconRequest.uri = .GET_UNKNOWN := by decide
  ⟨htype, (routed_by_words iconRequest.uri).2.2.2.2.2.1 htype,
    (routed_by_words iconRequest.uri).2.2.2.2.2.2.1 _ iconRequest silentExternals rfl (by decide)
      rfl htype⟩

/-- A command word in the value of a parameter decides the type. -/
theorem not_documentedType_parameter :
    getRequestType "/about?next=get_song_list".toList = .GET_SONG_LIST ∧
      pathOf "/about?next=get_song_list".toList ≠ '/' :: getSongListURI ∧
      documentedType "/about?next=get_song_list".toList = .GET_UNKNOWN := by
  decide

end PetProject.Http
