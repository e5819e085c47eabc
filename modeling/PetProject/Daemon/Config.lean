import Mathlib.Data.List.Basic
import PetProject.Workers.Model

/-!
# The configuration file

`iniFileParser` of `ini_file_parser/src/ini_file_parser.cpp`. A call of `getSectionContent` reads
the file and looks up every key of the requested section; when the file cannot be read or a key is
missing, it answers `false` with an empty container, and a later `at` on that container throws.
-/

set_option autoImplicit false

namespace PetProject.Daemon

open PetProject.Foundation.TextSearch PetProject.Workers

/-! ## Sections and keys -/

namespace pet_params

def HTTP_DATA : UInt8 := 0

def FILE_OBSERVER : UInt8 := 1

def LOGS_TDB : UInt8 := 2

def CONTENT_TDB : UInt8 := 3

def PET_LOGGER : UInt8 := 4

end pet_params

/-- The name of a section and the names of its values. -/
abbrev params_pair_t := Text × List Text

def HTTP_DATA_PARAMS : params_pair_t :=
  ("HTTP_DATA".toList, ["host".toList, "port".toList, "db_type".toList])

def FILE_OBSERVER_PARAMS : params_pair_t :=
  ("FILE_OBSERVER".toList, ["dir".toList, "db_type".toList])

def LOGS_TDB_PARAMS : params_pair_t :=
  ("LOGS_TDB".toList, ["host".toList, "port".toList, "user".toList, "dbname".toList,
    "passwd".toList])

def CONTENT_TDB_PARAMS : params_pair_t :=
  ("CONTENT_TDB".toList, ["host".toList, "port".toList, "user".toList, "dbname".toList,
    "passwd".toList])

def PET_LOGGER_PARAMS : params_pair_t :=
  ("PET_LOGGER".toList, ["dir".toList, "max_size_mb".toList])

/-- The `switch` of `getSectionContent`. -/
def selectedParamsPair (paramsType : UInt8) : Option params_pair_t :=
  if paramsType = pet_params.HTTP_DATA then some HTTP_DATA_PARAMS
  else if paramsType = pet_params.FILE_OBSERVER then some FILE_OBSERVER_PARAMS
  else if paramsType = pet_params.LOGS_TDB then some LOGS_TDB_PARAMS
  else if paramsType = pet_params.CONTENT_TDB then some CONTENT_TDB_PARAMS
  else if paramsType = pet_params.PET_LOGGER then some PET_LOGGER_PARAMS
  else none

/-! ## The parser -/

/-- The content of a readable file: the value of a key in a section. -/
structure IniFile where
  value : Text → Text → Option Text

/-- The pairs of a `std::map`. -/
abbrev params_container_t := List (Text × Text)

/-- The parser with what `read_ini` finds; `none` when it throws. -/
structure iniFileParser where
  m_iniFile : Option IniFile

/-- The loop over `sectionValueNames`; `none` when `pt.get` throws. -/
def readValues (file : IniFile) (sectionName : Text) : List Text → Option params_container_t
  | [] => some []
  | valueName :: rest =>
      match file.value sectionName valueName with
      | none => none
      | some paramValue => (readValues file sectionName rest).map ((valueName, paramValue) :: ·)

def iniFileParser.getSectionContent (m_ifp : iniFileParser) (paramsType : UInt8) :
    Bool × params_container_t :=
  match selectedParamsPair paramsType with
  | none => (false, [])
  | some (sectionName, sectionValueNames) =>
      match m_ifp.m_iniFile with
      | none => (false, [])
      | some file =>
          match readValues file sectionName sectionValueNames with
          | some m_paramsKeeper => (true, m_paramsKeeper)
          | none => (false, [])

/-- The file can be read and has every key of the section. -/
def iniFileParser.Complete (m_ifp : iniFileParser) (paramsType : UInt8) : Prop :=
  ∃ file pair, m_ifp.m_iniFile = some file ∧ selectedParamsPair paramsType = some pair ∧
    ∀ key ∈ pair.2, (file.value pair.1 key).isSome = true

/-! ## What a call finds -/

section Rules

variable {file : IniFile} {sectionName : Text}

theorem readValues_isSome_iff (keys : List Text) :
    (readValues file sectionName keys).isSome = true ↔
      ∀ key ∈ keys, (file.value sectionName key).isSome = true := by
  induction keys with
  | nil => simp [readValues]
  | cons key keys ih =>
    rw [List.forall_mem_cons, ← ih]
    cases hvalue : file.value sectionName key with
    | none => simp [readValues, hvalue]
    | some v => simp [readValues, hvalue]

theorem lookup_readValues {keys : List Text} {params : params_container_t}
    (h : readValues file sectionName keys = some params) {key : Text} (hkey : key ∈ keys) :
    (params.lookup key).isSome = true := by
  induction keys generalizing params with
  | nil => cases hkey
  | cons k keys ih =>
    cases hvalue : file.value sectionName k with
    | none => simp [readValues, hvalue] at h
    | some v =>
      simp only [readValues, hvalue] at h
      obtain ⟨rest, hrest, rfl⟩ := Option.map_eq_some_iff.mp h
      rw [List.lookup_cons]
      by_cases hk : key = k
      · simp [hk]
      · have hne : (key == k) = false := by simpa using hk
        rw [hne]
        exact ih hrest (List.mem_of_ne_of_mem hk hkey)

variable {m_ifp : iniFileParser} {paramsType : UInt8}

/-- The flag of the answer says whether the section is complete. -/
theorem getSectionContent_fst_iff :
    (m_ifp.getSectionContent paramsType).1 = true ↔ m_ifp.Complete paramsType := by
  unfold iniFileParser.getSectionContent iniFileParser.Complete
  cases hsection : selectedParamsPair paramsType with
  | none => simp
  | some pair =>
    cases hfile : m_ifp.m_iniFile with
    | none => simp
    | some file =>
      have hread : (readValues file pair.1 pair.2).isSome = true ↔ _ :=
        readValues_isSome_iff pair.2
      cases hvalues : readValues file pair.1 pair.2 with
      | none => simpa [hvalues] using hread
      | some params => simpa [hvalues] using hread

/-- `at` finds the keys of a complete section. -/
theorem lookup_of_complete {pair : params_pair_t}
    (hpair : selectedParamsPair paramsType = some pair)
    (h : m_ifp.Complete paramsType) {key : Text} (hkey : key ∈ pair.2) :
    ((m_ifp.getSectionContent paramsType).2.lookup key).isSome = true := by
  obtain ⟨file, pair', hfile, hpair', hall⟩ := h
  rw [hpair] at hpair'
  cases hpair'
  obtain ⟨params, hparams⟩ := Option.isSome_iff_exists.mp ((readValues_isSome_iff pair.2).mpr hall)
  unfold iniFileParser.getSectionContent
  rw [hpair, hfile]
  simp only [hparams]
  exact lookup_readValues hparams hkey

/-- An incomplete section has no values, so every `at` throws. -/
theorem getSectionContent_of_not_complete (h : ¬ m_ifp.Complete paramsType) :
    m_ifp.getSectionContent paramsType = (false, []) := by
  have hflag : ¬ (m_ifp.getSectionContent paramsType).1 = true := by
    rw [getSectionContent_fst_iff]
    exact h
  unfold iniFileParser.getSectionContent at *
  repeat' split at hflag
  all_goals simp_all

end Rules

end PetProject.Daemon
