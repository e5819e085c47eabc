import Mathlib.Data.List.Basic
import PetProject.Watch.Inotify
import PetProject.Watch.SongData

/-!
# The statements that record a file

The handlers put the name of a file between quotes as it is. The tokens of the two statements are
the fixed ones, with the name as the value of one literal, exactly when the name has no quote. Then
the insertion of a name followed by its deletion leaves the rows of the other names.
-/

set_option autoImplicit false

namespace PetProject.Watch

open PetProject.Foundation.TextSearch PetProject.Foundation.SqlLexer PetProject.Workers

/-- Hexadecimal digits of both cases. -/
def hexCharacters : Text := "0123456789ABCDEFabcdef".toList

/-- A string of thirty-two hexadecimal digits. -/
def IsHexUID (s : Text) : Prop := s.length = 32 ∧ ∀ c ∈ s, c ∈ hexCharacters

/-- Services that keep the statements they are sent. -/
def statementRecorder : Services (List Text) where
  FAST_LOG _ sent := sent
  execQuery q sent := (true, sent ++ [q])

/-- The tokens of one INSERT into `song_list`. -/
def insertTokens (filename uid : Text) : List Token :=
  [.word "INSERT".toList, .word "INTO".toList, .word "song_list".toList, .symbol '(',
    .word "song_name".toList, .symbol ',', .word "song_uid".toList, .symbol ')',
    .word "VALUES".toList, .symbol '(', .literal filename, .symbol ',', .literal uid, .symbol ')',
    .symbol ';']

/-- The tokens of one DELETE with a condition on `song_name` only. -/
def deleteTokens (filename : Text) : List Token :=
  [.word "DELETE".toList, .word "FROM".toList, .word "song_list".toList, .word "WHERE".toList,
    .word "song_name".toList, .symbol '=', .literal filename, .symbol ';']

/-- Recording a file touches the rows of its name and nothing else. -/
structure TouchesOwnRow (codePosition filename uid : Text) : Prop where
  insertion : ∃ q, (insertSongDataIntoTDB statementRecorder codePosition uid filename []).2 = [q] ∧
    tokens (cStr q) = insertTokens filename uid
  deletion : ∃ q, (deleteSongDataFromTDB statementRecorder codePosition filename []).2 = [q] ∧
    tokens (cStr q) = deleteTokens filename
  others : ∀ (t : TDB_type) (db : SongList) (log : List Text),
    (deleteSongDataFromTDB (tableServices t) codePosition filename
      (insertSongDataIntoTDB (tableServices t) codePosition uid filename (db, log)).2).2.1.rows =
        db.rows.filter fun r => r.song_name ≠ filename

theorem plain_of_isHexUID {uid : Text} (h : IsHexUID uid) : quote ∉ uid ∧ nul ∉ uid := by
  constructor
  · intro hmem
    exact absurd (h.2 _ hmem) (by decide)
  · intro hmem
    exact absurd (h.2 _ hmem) (by decide)

/-! ## The statements that are sent -/

section Sent

variable {filename uid : Text} (codePosition : Text)

theorem sent_insertion (hmark : ¬ journalMark <:+: filename) :
    (insertSongDataIntoTDB statementRecorder codePosition uid filename []).2 =
      [insertSongDataQuery filename uid] :=
  congrArg Prod.snd
    (handler_statement statementRecorder codePosition uid .m_inotyInAdd [] hmark)

theorem sent_deletion (hmark : ¬ journalMark <:+: filename) :
    (deleteSongDataFromTDB statementRecorder codePosition filename []).2 =
      [deleteSongDataQuery filename] :=
  -- the handler of deletions makes no identifier
  congrArg Prod.snd
    (handler_statement statementRecorder codePosition [] .m_inotyInDelete [] hmark)

end Sent

/-! ## Their tokens -/

theorem insertTokens_eq (filename uid : Text) : insertTokens filename uid =
    insertPattern.take 10 ++
      [.literal filename, .symbol ',', .literal uid, .symbol ')', .symbol ';'] := by
  have hfixed : insertPattern.take 10 = (insertTokens [] []).take 10 := by decide +kernel
  rw [hfixed]
  rfl

theorem deleteTokens_eq (filename : Text) :
    deleteTokens filename = deletePattern.take 6 ++ [.literal filename, .symbol ';'] := by
  have hfixed : deletePattern.take 6 = (deleteTokens []).take 6 := by decide +kernel
  rw [hfixed]
  rfl

theorem tokens_insertSongDataQuery {filename uid : Text} (hname : quote ∉ filename)
    (huid : quote ∉ uid) :
    tokens (insertSongDataQuery filename uid) = insertTokens filename uid := by
  rw [insertTokens_eq]
  exact tokens_insert hname huid

theorem tokens_deleteSongDataQuery {filename : Text} (hname : quote ∉ filename) :
    tokens (deleteSongDataQuery filename) = deleteTokens filename := by
  rw [deleteTokens_eq]
  exact tokens_delete hname

/-- A name with a quote is not the value of any literal of the INSERT. -/
theorem quoteFree_of_literal_insertion {filename uid : Text} (huid : quote ∉ uid)
    (h : .literal filename ∈ tokens (insertSongDataQuery filename uid)) : quote ∉ filename := by
  have hcount : (' ' :: quote :: (uid ++ "');".toList)).count quote ≤ 2 := by
    have hspace : (' ' : Char) ≠ quote := by decide
    have hend : ("');".toList).count quote = 1 := rfl
    rw [List.count_cons_of_ne hspace, List.count_cons_self, List.count_append, hend,
      List.count_eq_zero.mpr huid]
  apply quoteFree_of_mem run_insertPrefix _ (by decide : (',' : Char) ≠ quote) hcount h
  intro w hw
  exact absurd hw (literal_notMem_of_weight (by decide +kernel) w)

/-- The INSERT has the fixed tokens exactly for the names without a quote. -/
theorem tokens_insertSongDataQuery_iff {filename uid : Text} (huid : quote ∉ uid) :
    tokens (insertSongDataQuery filename uid) = insertTokens filename uid ↔ quote ∉ filename := by
  constructor
  · intro h
    apply quoteFree_of_literal_insertion huid
    rw [h]
    simp [insertTokens]
  · intro hname
    exact tokens_insertSongDataQuery hname huid

/-- The DELETE has the fixed tokens exactly for the names without a quote. -/
theorem tokens_deleteSongDataQuery_iff {filename : Text} :
    tokens (deleteSongDataQuery filename) = deleteTokens filename ↔ quote ∉ filename := by
  constructor
  · intro h
    have hmem : .literal filename ∈ tokens (deleteSongDataQuery filename) := by
      rw [h]
      simp [deleteTokens]
    have hcount : ([] : Text).count quote ≤ 2 := Nat.zero_le 2
    apply quoteFree_of_mem run_deletePrefix _ (by decide : (';' : Char) ≠ quote) hcount hmem
    intro w hw
    exact absurd hw (literal_notMem_of_weight (by decide +kernel) w)
  · exact tokens_deleteSongDataQuery

/-! ## Insertion and deletion on a table -/

theorem rows_insert_delete (t : TDB_type) (db : SongList) (filename uid : Text) :
    ((db.apply t (.insertSong filename uid)).apply t (.deleteSong filename)).rows =
      db.rows.filter fun r => r.song_name ≠ filename := by
  simp only [SongList.apply, List.filter_append]
  have hnew : [SongRow.mk (db.nextId t) filename uid].filter (fun r => r.song_name ≠ filename) =
      [] := by
    simp
  rw [hnew, List.append_nil]

theorem touchesOwnRow_of_quoteFree {filename uid : Text} (codePosition : Text)
    (hname : Recordable filename) (huid : quote ∉ uid ∧ nul ∉ uid) :
    TouchesOwnRow codePosition filename uid := by
  refine ⟨⟨_, sent_insertion codePosition hname.notJournal, ?_⟩,
    ⟨_, sent_deletion codePosition hname.notJournal, ?_⟩, fun t db log => ?_⟩
  · rw [cStr_of_nulFree (nul_notMem_insertSongDataQuery hname.nulFree huid.2)]
    exact (tokens_insertSongDataQuery_iff huid.1).mpr hname.quoteFree
  · rw [cStr_of_nulFree (nul_notMem_deleteSongDataQuery hname.nulFree)]
    exact tokens_deleteSongDataQuery_iff.mpr hname.quoteFree
  · rw [insertSongData_table t codePosition hname huid,
      deleteSongData_table t codePosition hname]
    exact rows_insert_delete t db filename uid

/-- The INSERT alone shows whether the name has a quote. -/
theorem quoteFree_of_touchesOwnRow {codePosition filename uid : Text}
    (hmark : ¬ journalMark <:+: filename) (hname : nul ∉ filename)
    (huid : quote ∉ uid ∧ nul ∉ uid) (h : TouchesOwnRow codePosition filename uid) :
    quote ∉ filename := by
  obtain ⟨q, hsent, htokens⟩ := h.insertion
  rw [sent_insertion codePosition hmark] at hsent
  cases hsent
  rw [cStr_of_nulFree (nul_notMem_insertSongDataQuery hname huid.2)] at htokens
  exact (tokens_insertSongDataQuery_iff huid.1).mp htokens

/-- Recording a file touches its own row only if and only if its name has no quote. -/
theorem recording_touches_own_row_iff (codePosition : Text) (filename : FileName) (uid : Text)
    (hmark : ¬ journalMark <:+: filename.text) (huid : IsHexUID uid) :
    TouchesOwnRow codePosition filename.text uid ↔ quote ∉ filename.text := by
  have hplain := plain_of_isHexUID huid
  constructor
  · intro h
    exact quoteFree_of_touchesOwnRow hmark filename.nul_notMem_text hplain h
  · intro hquote
    apply touchesOwnRow_of_quoteFree codePosition _ hplain
    exact ⟨hquote, filename.nul_notMem_text, hmark⟩

/-- A digest as the generator prints it, in lower case. -/
def lowerUID : Text := List.replicate 32 'a'

theorem isHexUID_lowerUID : IsHexUID lowerUID := by
  refine ⟨rfl, fun c hc => ?_⟩
  rw [List.eq_of_mem_replicate hc]
  decide

theorem recording_touches_own_row_songA : TouchesOwnRow [] songA.text lowerUID :=
  (recording_touches_own_row_iff [] songA lowerUID (by decide) isHexUID_lowerUID).mpr (by decide)

/-- `it's.mp3` -/
def quotedSong : FileName :=
  ⟨[105, 116, 39, 115, 46, 109, 112, 51], by decide, by decide, by decide⟩

/-- A song whose name has an apostrophe is not recorded as it should be. -/
theorem not_recording_touches_own_row_quotedSong :
    ¬ ∀ (codePosition : Text) (filename : FileName) (uid : Text), '/' ∉ filename.text →
      ¬ journalMark <:+: filename.text → IsHexUID uid →
        TouchesOwnRow codePosition filename.text uid := by
  intro hall
  have h := hall [] quotedSong lowerUID (by decide) (by decide) isHexUID_lowerUID
  have hquote := quoteFree_of_touchesOwnRow (by decide) quotedSong.nul_notMem_text
    (plain_of_isHexUID isHexUID_lowerUID) h
  exact absurd hquote (by decide)

end PetProject.Watch
