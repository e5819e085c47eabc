import PetProject.Daemon.Config

/-!
# Reading sections one after the other

`iniFileParser` with its member `m_paramsKeeper`, which a call of `getSectionContent` clears, fills
key by key and leaves half-filled when a key is missing. `read_ini` is any function from the content
of the file to a tree of sections and keys or an exception, and the file may change between the
calls.

The answers of a sequence of calls are those of parsers without a member, one for each call
(`section_reads`), and each of them has every key of the section or nothing (`AllOrNothing`).
-/

set_option autoImplicit false

namespace PetProject.Daemon.SectionReads

open PetProject.Foundation.TextSearch

/-! ## The tree -/

/-- What `read_ini` builds: the sections with their keys and values. -/
structure ptree where
  sections : List (Text × List (Text × Text))

/-- The value of a key in a section. -/
def ptree.value (pt : ptree) (sectionName key : Text) : Option Text :=
  (pt.sections.lookup sectionName).bind fun keys => keys.lookup key

/-- `pt.get<std::string>(path)` for a path with two parts; `none` when it throws. -/
def ptree.get (pt : ptree) (path : Text) : Option Text :=
  match path.splitOn '.' with
  | [sectionName, key] => pt.value sectionName key
  | _ => none

/-! ## The parser -/

/-- The member of the parser. -/
structure State where
  m_paramsKeeper : params_container_t

/-- `m_paramsKeeper.insert(..)`: a key that is there keeps its value. -/
def insert (m_paramsKeeper : params_container_t) (key value : Text) : params_container_t :=
  if (m_paramsKeeper.lookup key).isSome then m_paramsKeeper else m_paramsKeeper ++ [(key, value)]

/-- The loop over `sectionValueNames`; `false` when `pt.get` throws. -/
def fill (pt : ptree) (sectionName : Text) :
    List Text → params_container_t → Bool × params_container_t
  | [], m_paramsKeeper => (true, m_paramsKeeper)
  | valueName :: rest, m_paramsKeeper =>
      match pt.get (sectionName ++ '.' :: valueName) with
      | some paramValue => fill pt sectionName rest (insert m_paramsKeeper valueName paramValue)
      | none => (false, m_paramsKeeper)

/-- `getSectionContent`; `read` is what `read_ini` finds, `none` when it throws. -/
def getSectionContent (read : Option ptree) (paramsType : UInt8) (s : State) :
    (Bool × params_container_t) × State :=
  match selectedParamsPair paramsType with
  | none => ((false, []), s)
  | some (sectionName, sectionValueNames) =>
      let cleared : params_container_t := []
      match read with
      | none => ((false, []), ⟨cleared⟩)
      | some pt =>
          match fill pt sectionName sectionValueNames cleared with
          | (true, m_paramsKeeper) => ((true, m_paramsKeeper), ⟨m_paramsKeeper⟩)
          -- the keys before the missing one stay in the member
          | (false, m_paramsKeeper) => ((false, []), ⟨m_paramsKeeper⟩)

/-- A call, with the content of the file at that moment. -/
structure Call (File : Type) where
  file : File
  paramsType : UInt8

/-- The parser after its constructor. -/
def start : State := ⟨[]⟩

section Reads

variable {File : Type} (read_ini : File → Option ptree)

/-- The answers to a sequence of calls. -/
def answers : State → List (Call File) → List (Bool × params_container_t)
  | _, [] => []
  | s, c :: calls =>
      let res := getSectionContent (read_ini c.file) c.paramsType s
      res.1 :: answers res.2 calls

/-- The answer to one call of a parser without a member. -/
def answerOf (c : Call File) : Bool × params_container_t :=
  iniFileParser.getSectionContent ⟨(read_ini c.file).map fun pt => ⟨pt.value⟩⟩ c.paramsType

end Reads

/-- An answer is `true` exactly if the section is known and the file parses and has every key of
it; then it has exactly these keys, with the values in the file, and otherwise nothing. -/
structure AllOrNothing (read : Option ptree) (paramsType : UInt8)
    (answer : Bool × params_container_t) : Prop where
  complete : answer.1 = true ↔ ∃ pair pt, selectedParamsPair paramsType = some pair ∧
    read = some pt ∧ ∀ key ∈ pair.2, (pt.value pair.1 key).isSome = true
  values : answer.1 = true → ∀ pair pt, selectedParamsPair paramsType = some pair →
    read = some pt → (answer.2.map Prod.fst).Nodup ∧
      ∀ key, answer.2.lookup key = if key ∈ pair.2 then pt.value pair.1 key else none
  nothing : answer.1 = false → answer.2 = []

/-! ## The five sections -/

/-- The names of a section and of its values have no separator, and the values different names. -/
theorem selectedParamsPair_spec {paramsType : UInt8} {pair : params_pair_t}
    (h : selectedParamsPair paramsType = some pair) :
    '.' ∉ pair.1 ∧ (∀ key ∈ pair.2, '.' ∉ key) ∧ pair.2.Nodup := by
  have hall : ∀ pair ∈ [HTTP_DATA_PARAMS, FILE_OBSERVER_PARAMS, LOGS_TDB_PARAMS,
      CONTENT_TDB_PARAMS, PET_LOGGER_PARAMS],
      '.' ∉ pair.1 ∧ (∀ key ∈ pair.2, '.' ∉ key) ∧ pair.2.Nodup := by
    decide +kernel
  apply hall
  unfold selectedParamsPair at h
  repeat' split at h
  all_goals cases h
  all_goals simp

theorem get_eq_value (pt : ptree) {sectionName key : Text} (hsection : '.' ∉ sectionName)
    (hkey : '.' ∉ key) : pt.get (sectionName ++ '.' :: key) = pt.value sectionName key := by
  have hsplit : (sectionName ++ '.' :: key).splitOn '.' = [sectionName, key] := by
    rw [List.splitOn_append_cons_self_of_not_mem hsection, List.splitOn_eq_singleton hkey]
  unfold ptree.get
  rw [hsplit]

/-! ## The loop -/

section Loop

variable {sectionName : Text}

theorem insert_of_none {m : params_container_t} {key : Text} (h : m.lookup key = none)
    (value : Text) : insert m key value = m ++ [(key, value)] := by
  unfold insert
  rw [h]
  rfl

/-- The loop appends what `readValues` finds, and fails when that does. -/
theorem fill_eq (pt : ptree) (hsection : '.' ∉ sectionName) {keys : List Text}
    {m : params_container_t} (hdots : ∀ key ∈ keys, '.' ∉ key) (hnodup : keys.Nodup)
    (hfresh : ∀ key ∈ keys, m.lookup key = none) :
    (∀ params, readValues ⟨pt.value⟩ sectionName keys = some params →
      fill pt sectionName keys m = (true, m ++ params)) ∧
    (readValues ⟨pt.value⟩ sectionName keys = none →
      (fill pt sectionName keys m).1 = false) := by
  induction keys generalizing m with
  | nil =>
    refine ⟨fun params h => ?_, fun h => by cases h⟩
    cases h
    rw [List.append_nil]
    rfl
  | cons key keys ih =>
    have hget := get_eq_value pt hsection (hdots key List.mem_cons_self)
    obtain ⟨hkey, hrest⟩ := List.nodup_cons.mp hnodup
    cases hvalue : pt.value sectionName key with
    | none =>
      refine ⟨fun params h => ?_, fun _ => ?_⟩
      · simp [readValues, hvalue] at h
      · rw [fill, hget, hvalue]
    | some value =>
      have hinsert := insert_of_none (hfresh key List.mem_cons_self) value
      -- the keys of a section are pairwise different, so the next ones are not there yet
      have hfresh' : ∀ k ∈ keys, (m ++ [(key, value)]).lookup k = none := by
        intro k hk
        have hne : (k == key) = false := by
          rw [beq_eq_false_iff_ne]
          rintro rfl
          exact hkey hk
        rw [List.lookup_append, hfresh k (List.mem_cons_of_mem key hk), List.lookup_cons, hne]
        rfl
      obtain ⟨hsome, hnone⟩ := ih (fun k hk => hdots k (List.mem_cons_of_mem key hk)) hrest hfresh'
      have hfill : fill pt sectionName (key :: keys) m =
          fill pt sectionName keys (m ++ [(key, value)]) := by
        rw [fill, hget, hvalue]
        simp only [hinsert]
      rw [hfill]
      simp only [readValues, hvalue]
      refine ⟨fun params h => ?_, fun h => ?_⟩
      · obtain ⟨rest, hrest', rfl⟩ := Option.map_eq_some_iff.mp h
        rw [hsome rest hrest', List.append_assoc]
        rfl
      · exact hnone (Option.map_eq_none_iff.mp h)

end Loop

/-! ## What one call answers -/

/-- A call answers what a parser without a member answers, whatever the member holds. -/
theorem getSectionContent_fst (read : Option ptree) (paramsType : UInt8) (s : State) :
    (getSectionContent read paramsType s).1 =
      iniFileParser.getSectionContent ⟨read.map fun pt => ⟨pt.value⟩⟩ paramsType := by
  unfold getSectionContent iniFileParser.getSectionContent
  cases hpair : selectedParamsPair paramsType with
  | none => rfl
  | some pair =>
    obtain ⟨hsection, hdots, hnodup⟩ := selectedParamsPair_spec hpair
    cases read with
    | none => rfl
    | some pt =>
      have hfresh : ∀ key ∈ pair.2, ([] : params_container_t).lookup key = none := fun _ _ => rfl
      obtain ⟨hsome, hnone⟩ := fill_eq pt hsection hdots hnodup hfresh
      simp only [Option.map_some]
      cases hvalues : readValues ⟨pt.value⟩ pair.1 pair.2 with
      | some params =>
        rw [hsome params hvalues]
        rfl
      | none =>
        have hfail := hnone hvalues
        cases hfill : fill pt pair.1 pair.2 [] with
        | mk flag keeper =>
          rw [hfill] at hfail
          cases hfail
          rfl

/-- The keys and values that `readValues` finds. -/
theorem readValues_spec {file : IniFile} {sectionName : Text} {keys : List Text}
    {params : params_container_t} (h : readValues file sectionName keys = some params) :
    params.map Prod.fst = keys ∧
      ∀ key, params.lookup key = if key ∈ keys then file.value sectionName key else none := by
  induction keys generalizing params with
  | nil =>
    cases h
    exact ⟨rfl, fun key => by simp⟩
  | cons k keys ih =>
    cases hvalue : file.value sectionName k with
    | none => simp [readValues, hvalue] at h
    | some v =>
      simp only [readValues, hvalue] at h
      obtain ⟨rest, hrest, rfl⟩ := Option.map_eq_some_iff.mp h
      obtain ⟨hkeys, hlookup⟩ := ih hrest
      refine ⟨by rw [List.map_cons, hkeys], fun key => ?_⟩
      rw [List.lookup_cons]
      by_cases hk : key = k
      · simp [hk, hvalue]
      · have hne : (key == k) = false := by simpa using hk
        rw [hne]
        simp only [hlookup key, List.mem_cons, hk, false_or]

/-- A parser without a member answers with all keys of a section or with nothing. -/
theorem allOrNothing (read : Option ptree) (paramsType : UInt8) :
    AllOrNothing read paramsType
      (iniFileParser.getSectionContent ⟨read.map fun pt => ⟨pt.value⟩⟩ paramsType) where
  complete := by
    rw [getSectionContent_fst_iff]
    unfold iniFileParser.Complete
    constructor
    · rintro ⟨file, pair, hfile, hpair, hall⟩
      obtain ⟨pt, hread, rfl⟩ := Option.map_eq_some_iff.mp hfile
      exact ⟨pair, pt, hpair, hread, hall⟩
    · rintro ⟨pair, pt, hpair, hread, hall⟩
      exact ⟨_, pair, by rw [hread]; rfl, hpair, hall⟩
  values htrue pair pt hpair hread := by
    obtain ⟨-, -, hnodup⟩ := selectedParamsPair_spec hpair
    unfold iniFileParser.getSectionContent at *
    simp only [hpair, hread, Option.map_some] at *
    cases hvalues : readValues ⟨pt.value⟩ pair.1 pair.2 with
    | none => simp [hvalues] at htrue
    | some params =>
      obtain ⟨hkeys, hlookup⟩ := readValues_spec hvalues
      simp only
      rw [hkeys]
      exact ⟨hnodup, hlookup⟩
  nothing hfalse := by
    have hincomplete : ¬ (iniFileParser.getSectionContent ⟨read.map fun pt => ⟨pt.value⟩⟩
        paramsType).1 = true := by
      rw [hfalse]
      exact Bool.false_ne_true
    rw [getSectionContent_fst_iff] at hincomplete
    rw [getSectionContent_of_not_complete hincomplete]

/-- The answers to a sequence of calls depend on nothing but the section and the file of each call,
and each of them has all keys of the section or nothing. -/
theorem section_reads {File : Type} (read_ini : File → Option ptree) (calls : List (Call File)) :
    answers read_ini start calls = calls.map (answerOf read_ini) ∧
      ∀ c ∈ calls, AllOrNothing (read_ini c.file) c.paramsType (answerOf read_ini c) := by
  refine ⟨?_, fun c _ => allOrNothing (read_ini c.file) c.paramsType⟩
  -- for every content of the member
  generalize start = s
  induction calls generalizing s with
  | nil => rfl
  | cons c calls ih =>
    rw [answers, List.map_cons, ih]
    congr 1
    exact getSectionContent_fst (read_ini c.file) c.paramsType s

end PetProject.Daemon.SectionReads
