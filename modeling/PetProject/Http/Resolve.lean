import Mathlib.Data.List.Nodup
import PetProject.Http.Requests
import PetProject.Watch.SongData

/-!
# Issued identifiers resolve

The watch daemon fills `song_list` through its two handlers, the HTTP daemon resolves an identifier
from a URI. A row's identifier is one of the strings that `getNewUUID()` has issued, and when these
are pairwise different the documented URI of a row leads back to its name, and a URI with any other
identifier of the same form leads to the empty name.
-/

set_option autoImplicit false

namespace PetProject.Http

open PetProject.Foundation.TextSearch PetProject.Foundation.SqlLexer PetProject.Workers
open PetProject.Watch

/-! ## Histories of the table -/

/-- A call of a handler, with what `getNewUUID()` gets from outside. -/
inductive SongCall where
  | insert (filename : Text) (src : UuidSources)
  | delete (filename : Text)

def SongCall.filename : SongCall → Text
  | .insert filename _ => filename
  | .delete filename => filename

/-- The identifiers that `getNewUUID()` returns in a sequence of calls. -/
def issuedUIDs (md5 : MD5) (calls : List SongCall) : List Text :=
  calls.filterMap fun c =>
    match c with
    | .insert _ src => some (getDefaultUUID md5 src)
    | .delete _ => none

/-- One call on the table and the records of the logger. -/
def SongCall.run (t : TDB_type) (md5 : MD5) (codePosition : Text) (s : SongList × List Text) :
    SongCall → SongList × List Text
  | .insert filename src =>
      (insertSongDataIntoTDB (tableServices t) codePosition (getDefaultUUID md5 src) filename s).2
  | .delete filename => (deleteSongDataFromTDB (tableServices t) codePosition filename s).2

/-- The table after a sequence of calls. -/
def tableAfter (t : TDB_type) (md5 : MD5) (codePosition : Text) (db : SongList)
    (calls : List SongCall) : SongList :=
  (calls.foldl (SongCall.run t md5 codePosition) (db, [])).1

/-- One call appends an issued identifier to those of the table, or keeps some of them. -/
theorem run_uids (t : TDB_type) (md5 : MD5) (codePosition : Text) (s : SongList × List Text)
    {c : SongCall} (hname : Recordable c.filename) :
    ((c.run t md5 codePosition s).1.rows.map SongRow.song_uid).Sublist
      (s.1.rows.map SongRow.song_uid ++ issuedUIDs md5 [c]) := by
  obtain ⟨db, log⟩ := s
  cases c with
  | insert filename src =>
    have hrun : SongCall.run t md5 codePosition (db, log) (.insert filename src) = _ :=
      congrArg Prod.snd
        (insertSongData_table t codePosition hname (plain_getDefaultUUID md5 src) db log)
    rw [hrun]
    simp [SongList.apply, issuedUIDs]
  | delete filename =>
    have hrun : SongCall.run t md5 codePosition (db, log) (.delete filename) = _ :=
      congrArg Prod.snd (deleteSongData_table t codePosition hname db log)
    rw [hrun]
    simp only [SongList.apply, issuedUIDs, List.filterMap_cons, List.filterMap_nil,
      List.append_nil]
    exact List.filter_sublist.map SongRow.song_uid

theorem uids_sublist (t : TDB_type) (md5 : MD5) (codePosition : Text) {calls : List SongCall}
    (hnames : ∀ c ∈ calls, Recordable c.filename) (s : SongList × List Text) :
    ((calls.foldl (SongCall.run t md5 codePosition) s).1.rows.map SongRow.song_uid).Sublist
      (s.1.rows.map SongRow.song_uid ++ issuedUIDs md5 calls) := by
  -- on the calls, for every table that the rest starts with
  induction calls generalizing s with
  | nil => simp [issuedUIDs]
  | cons c calls ih =>
    have hrest := ih (fun d hd => hnames d (List.mem_cons_of_mem c hd))
      (c.run t md5 codePosition s)
    have hfirst := run_uids t md5 codePosition s (hnames c List.mem_cons_self)
    have hsplit : issuedUIDs md5 (c :: calls) = issuedUIDs md5 [c] ++ issuedUIDs md5 calls := by
      unfold issuedUIDs
      rw [← List.filterMap_append, List.singleton_append]
    rw [List.foldl_cons, hsplit, ← List.append_assoc]
    exact hrest.trans (hfirst.append_right _)

theorem isUID_of_mem_issuedUIDs {md5 : MD5} {calls : List SongCall} {u : Text}
    (h : u ∈ issuedUIDs md5 calls) : IsUID u := by
  obtain ⟨c, -, hc⟩ := List.mem_filterMap.mp h
  cases c with
  | insert filename src =>
    cases hc
    exact isUID_getDefaultUUID md5 src
  | delete filename => cases hc

/-! ## The documented URI -/

/-- `/get_by_uid?uid=` and an identifier. -/
def songURI (uid : Text) : Text := "/get_by_uid?uid=".toList ++ uid

theorem getRequestType_songURI {uid : Text} (h : IsUID uid) :
    getRequestType (songURI uid) = .GET_CONCRETE_SONG := by
  have hlist : ¬ (find getSongListURI (songURI uid)).isSome = true := by
    intro hfind
    -- the path of the list has a letter that occurs nowhere in the URI
    have hmem : 's' ∈ songURI uid := (find_isSome_iff.mp hfind).subset (by decide)
    unfold songURI at hmem
    rcases List.mem_append.mp hmem with hpath | huid
    · exact absurd hpath (by decide)
    · exact absurd (h.2 _ huid) (by decide)
  have hsong : (find getSongURI (songURI uid)).isSome = true := by
    apply find_isSome_of_infix
    exact ⟨"/".toList, "?uid=".toList ++ uid, rfl⟩
  unfold getRequestType
  rw [if_neg hlist, if_pos hsong]

theorem getSongUIDOutOfURI_songURI {uid : Text} (h : IsUID uid) :
    getSongUIDOutOfURI (songURI uid) = uid := by
  have hfind : find uriTag (songURI uid) = some 12 := rfl
  have hlen : (songURI uid).length = 16 + 32 := by
    unfold songURI
    rw [List.length_append, h.1]
    rfl
  have hle : 12 + uriTag.length ≤ (songURI uid).length := by
    rw [hlen]
    decide
  have hdrop : (songURI uid).drop (12 + uriTag.length) = uid := rfl
  unfold getSongUIDOutOfURI substr
  simp only [hfind, if_pos hle, hdrop, Option.getD_some]
  apply List.take_of_length_le
  rw [h.1]
  decide

/-! ## Rows and identifiers -/

/-- With pairwise different identifiers a row is the only one with its identifier. -/
theorem filter_uid_eq {rows : List SongRow} (hnd : (rows.map SongRow.song_uid).Nodup) {r : SongRow}
    (hr : r ∈ rows) : (rows.filter fun x => x.song_uid = r.song_uid) = [r] := by
  induction rows with
  | nil => cases hr
  | cons x xs ih =>
    rw [List.map_cons, List.nodup_cons] at hnd
    obtain ⟨hx, hxs⟩ := hnd
    rcases List.mem_cons.mp hr with rfl | hmem
    · have hnone : (xs.filter fun x => x.song_uid = r.song_uid) = [] := by
        apply List.filter_eq_nil_iff.mpr
        intro y hy heq
        apply hx
        rw [← of_decide_eq_true heq]
        exact List.mem_map_of_mem hy
      rw [List.filter_cons, if_pos (by simp), hnone]
    · have hne : ¬ x.song_uid = r.song_uid := by
        intro heq
        apply hx
        rw [heq]
        exact List.mem_map_of_mem hmem
      rw [List.filter_cons, if_neg (by simpa using hne), ih hxs hmem]

/-- The documented URI of every row leads back to its name, and the URI of any other identifier
leads to the empty name. -/
theorem issued_uid_resolves (t w : TDB_type) (md5 : MD5) (codePosition : Text) (serial : Nat)
    {calls : List SongCall} (hnames : ∀ c ∈ calls, Recordable c.filename)
    (hfresh : (issuedUIDs md5 calls).Nodup) :
    (∀ r ∈ (tableAfter t md5 codePosition ⟨[], serial⟩ calls).rows,
        getRequestType (songURI r.song_uid) = .GET_CONCRETE_SONG ∧
        getSongUIDOutOfURI (songURI r.song_uid) = r.song_uid ∧
        getFilenameByUID w (answers (tableAfter t md5 codePosition ⟨[], serial⟩ calls))
          (getSongUIDOutOfURI (songURI r.song_uid)) = r.song_name) ∧
      ∀ u, IsUID u →
        (∀ r ∈ (tableAfter t md5 codePosition ⟨[], serial⟩ calls).rows, r.song_uid ≠ u) →
        getRequestType (songURI u) = .GET_CONCRETE_SONG ∧ getSongUIDOutOfURI (songURI u) = u ∧
        getFilenameByUID w (answers (tableAfter t md5 codePosition ⟨[], serial⟩ calls))
          (getSongUIDOutOfURI (songURI u)) = [] := by
  have hsub : ((tableAfter t md5 codePosition ⟨[], serial⟩ calls).rows.map
      SongRow.song_uid).Sublist (issuedUIDs md5 calls) :=
    uids_sublist t md5 codePosition hnames (⟨[], serial⟩, [])
  constructor
  · intro r hr
    have huid : IsUID r.song_uid :=
      isUID_of_mem_issuedUIDs (hsub.subset (List.mem_map_of_mem hr))
    refine ⟨getRequestType_songURI huid, getSongUIDOutOfURI_songURI huid, ?_⟩
    rw [getSongUIDOutOfURI_songURI huid,
      getFilenameByUID_answers w _ (quote_notMem_uid huid) (nul_notMem_uid huid),
      filter_uid_eq (hsub.nodup hfresh) hr]
    rfl
  · intro u hu hnone
    refine ⟨getRequestType_songURI hu, getSongUIDOutOfURI_songURI hu, ?_⟩
    have hempty : ((tableAfter t md5 codePosition ⟨[], serial⟩ calls).rows.filter
        fun x => x.song_uid = u) = [] := by
      apply List.filter_eq_nil_iff.mpr
      intro r hr heq
      exact hnone r hr (of_decide_eq_true heq)
    rw [getSongUIDOutOfURI_songURI hu,
      getFilenameByUID_answers w _ (quote_notMem_uid hu) (nul_notMem_uid hu), hempty]
    rfl

/-- Two songs are recorded, and the first one is deleted. -/
def threeCalls : List SongCall :=
  [.insert "a.mp3".toList (repeatedSources 'a'), .insert "b.mp3".toList (repeatedSources 'b'),
    .delete "a.mp3".toList]

theorem issued_uid_resolves_threeCalls :
    (∀ r ∈ (tableAfter .SQLITE headDigest [] ⟨[], 1⟩ threeCalls).rows,
        getRequestType (songURI r.song_uid) = .GET_CONCRETE_SONG ∧
        getSongUIDOutOfURI (songURI r.song_uid) = r.song_uid ∧
        getFilenameByUID .SQLITE (answers (tableAfter .SQLITE headDigest [] ⟨[], 1⟩ threeCalls))
          (getSongUIDOutOfURI (songURI r.song_uid)) = r.song_name) ∧
      ∀ u, IsUID u →
        (∀ r ∈ (tableAfter .SQLITE headDigest [] ⟨[], 1⟩ threeCalls).rows, r.song_uid ≠ u) →
        getRequestType (songURI u) = .GET_CONCRETE_SONG ∧ getSongUIDOutOfURI (songURI u) = u ∧
        getFilenameByUID .SQLITE (answers (tableAfter .SQLITE headDigest [] ⟨[], 1⟩ threeCalls))
          (getSongUIDOutOfURI (songURI u)) = [] :=
  have hshort : ∀ n : Text, n.length < journalMark.length → ¬ journalMark <:+: n := by
    intro n hn hinfix
    have := hinfix.length_le
    omega
  have hnames : ∀ c ∈ threeCalls, Recordable c.filename := by
    intro c hc
    simp only [threeCalls, List.mem_cons, List.not_mem_nil, or_false] at hc
    rcases hc with rfl | rfl | rfl
    · exact ⟨by decide, by decide, hshort _ (by decide)⟩
    · exact ⟨by decide, by decide, hshort _ (by decide)⟩
    · exact ⟨by decide, by decide, hshort _ (by decide)⟩
  issued_uid_resolves .SQLITE .SQLITE headDigest [] 1 hnames (by decide +kernel)

end PetProject.Http
