import PetProject.Daemon.Life
import PetProject.Foundation.Numerals
import PetProject.Logger.Model

/-!
# The port of the http daemon

`main` of `http_daemon/complete_daemon/http_daemon.cpp`, which reads the section `HTTP_DATA`,
converts the text of its `port` with `std::strtoul` and constructs the server.

`std::strtoul` takes the base from the text, stops at the first character that is no digit, answers
zero without any digit and saturates, and the cast to `unsigned short` keeps sixteen bits; nothing
of this is tested. So a server is constructed for every text (`serverArgs_ok`), `main` ends the same
way for every text (`main_setPort`), and the port is the configured one for decimal numerals without
leading zeros, and for single digits below eight behind zeros (`passes_port_iff`).
-/

set_option autoImplicit false

namespace PetProject.Daemon.HttpMain

open PetProject.Foundation.TextSearch PetProject.Foundation.FixedWidth
open PetProject.Foundation.Numerals PetProject.Logger

/-! ## The conversion -/

/-- The characters of `c_str()` in front of the terminating zero. -/
def c_str (s : Text) : Text := s.takeWhile fun c => c.toNat ≠ 0

def ULONG_MAX : UInt64 := 18446744073709551615

/-- The optional sign; `true` for a minus. -/
def readSign : Text → Bool × Text
  | '-' :: s => (true, s)
  | '+' :: s => (false, s)
  | s => (false, s)

/-- The base that the beginning of a text stands for, and the text from its first digit on. -/
def detectBase : Text → Nat × Text
  | '0' :: x :: d :: s =>
      if (x = 'x' ∨ x = 'X') ∧ digit d < 16 then (16, d :: s) else (8, '0' :: x :: d :: s)
  | '0' :: s => (8, '0' :: s)
  | s => (10, s)

/-- `std::strtoul(nptr, nullptr, 0)`. -/
def strtoul (nptr : Text) : UInt64 :=
  let signed := readSign (nptr.dropWhile isSpace)
  let based := detectBase signed.2
  let n := numeral based.1 (leading based.1 based.2)
  if 2 ^ 64 ≤ n then ULONG_MAX
  else if signed.1 then -UInt64.ofNat n
  else UInt64.ofNat n

/-- The second argument of the constructor: `static_cast<unsigned short>(std::strtoul(..))`. -/
def portNumber (port : Text) : UInt16 := (strtoul (c_str port)).toUInt16

example : [portNumber "5555".toList, portNumber "05555".toList, portNumber "0x15B3".toList,
    portNumber "-1".toList, portNumber "x".toList] = [5555, 2925, 5555, 65535, 0] := by decide

/-! ## `main` -/

inductive exit_code where
  | NORMAL_EXIT
  | WRONG_ARGS
  | NO_CONFIG
  | CANT_INIT
  | ERROR_AFTER_EXCEPTION
  deriving DecidableEq, Repr

/-- The arguments of the constructor of `httpServer`. -/
structure ServerArgs where
  host : Text
  port : UInt16
  inifilePath : Text
  serviceName : Text
  deriving DecidableEq, Repr

/-- `main` up to the constructor: its arguments, or the exit code when no server is constructed.
`files` gives the parser of a path. -/
def serverArgs (files : Text → iniFileParser) : List Text → Except exit_code ServerArgs
  | serviceName :: iniFilePath :: _ =>
      let content := (files iniFilePath).getSectionContent pet_params.HTTP_DATA
      if content.1 = false then .error .NO_CONFIG
      else
        match content.2.lookup "host".toList, content.2.lookup "port".toList with
        | some host, some port => .ok ⟨host, portNumber port, iniFilePath, serviceName⟩
        -- `std::out_of_range` of `at` is caught
        | _, _ => .error .ERROR_AFTER_EXCEPTION
  | _ => .error .WRONG_ARGS

/-- The daemon that the constructor makes. -/
def ServerArgs.setup (args : ServerArgs) (files : Text → iniFileParser) (out : Outcomes) : Setup :=
  ⟨.httpServer, files args.inifilePath, args.serviceName, out⟩

/-- `main`; `exception` when an exception ends the service. -/
def main (files : Text → iniFileParser) (argv : List Text) (out : Outcomes) (exception : Bool) :
    exit_code :=
  match serverArgs files argv with
  | .error code => code
  | .ok args =>
      match ((args.setup files out).start []).1 with
      | .error _ => .ERROR_AFTER_EXCEPTION
      | .ok false => .CANT_INIT
      | .ok true => if exception then .ERROR_AFTER_EXCEPTION else .NORMAL_EXIT

/-- The configuration that `main` reads has the text as the value of `port`. -/
def PortText (files : Text → iniFileParser) (argv : List Text) (text : Text) : Prop :=
  ∃ serviceName iniFilePath rest, argv = serviceName :: iniFilePath :: rest ∧
    ((files iniFilePath).getSectionContent pet_params.HTTP_DATA).2.lookup "port".toList = some text

/-- A decimal numeral, with leading zeros or not, of a port. -/
structure DenotesPort (text : Text) (n : Nat) : Prop where
  ne_nil : text ≠ []
  digits : ∀ c ∈ text, c.isDigit = true
  value_eq : value text = n
  pos : 1 ≤ n
  le : n ≤ 65535

/-- The server gets the configured port, and without one there is no server. -/
structure PassesPort (constructed : Except exit_code ServerArgs) (text : Text) : Prop where
  configured : ∀ n, DenotesPort text n → ∃ args, constructed = .ok args ∧ args.port.toNat = n
  otherwise : (¬ ∃ n, DenotesPort text n) → ∀ args, constructed ≠ .ok args

/-! ## Every text gets a server -/

section Main

variable {files : Text → iniFileParser} {argv : List Text} {text : Text} {n : Nat}

/-- With a complete section the constructor is called, with the number for its text. -/
theorem serverArgs_of_flag {serviceName iniFilePath : Text} {rest : List Text}
    (hflag : ((files iniFilePath).getSectionContent pet_params.HTTP_DATA).1 = true) :
    ∃ host text, ((files iniFilePath).getSectionContent pet_params.HTTP_DATA).2.lookup
        "port".toList = some text ∧
      serverArgs files (serviceName :: iniFilePath :: rest) =
        .ok ⟨host, portNumber text, iniFilePath, serviceName⟩ := by
  have hcomplete := getSectionContent_fst_iff.mp hflag
  have hpair : selectedParamsPair pet_params.HTTP_DATA = some HTTP_DATA_PARAMS := rfl
  have hhost := lookup_of_complete hpair hcomplete List.mem_cons_self
  have hport := lookup_of_complete hpair hcomplete (List.mem_cons_of_mem _ List.mem_cons_self)
  obtain ⟨host, hhost⟩ := Option.isSome_iff_exists.mp hhost
  obtain ⟨text, hport⟩ := Option.isSome_iff_exists.mp hport
  refine ⟨host, text, hport, ?_⟩
  simp only [serverArgs, hflag, Bool.true_eq_false, if_false, hport, hhost]

theorem serverArgs_ok (h : PortText files argv text) :
    ∃ args, serverArgs files argv = .ok args ∧ args.port = portNumber text := by
  obtain ⟨serviceName, iniFilePath, rest, rfl, hport⟩ := h
  -- an incomplete section has no values
  have hflag : ((files iniFilePath).getSectionContent pet_params.HTTP_DATA).1 = true := by
    by_contra hc
    rw [getSectionContent_fst_iff] at hc
    rw [getSectionContent_of_not_complete hc] at hport
    cases hport
  obtain ⟨host, text', hport', hargs⟩ := serverArgs_of_flag hflag
  rw [hport] at hport'
  cases hport'
  exact ⟨_, hargs, rfl⟩

theorem DenotesPort.unique {m : Nat} (h : DenotesPort text n) (h' : DenotesPort text m) : n = m :=
  h.value_eq.symm.trans h'.value_eq

/-- So the text has to be a numeral, and the conversion has to give its value. -/
theorem passesPort_iff_portNumber (h : PortText files argv text) :
    PassesPort (serverArgs files argv) text ↔
      ∃ n, DenotesPort text n ∧ (portNumber text).toNat = n := by
  obtain ⟨args, hargs, hport⟩ := serverArgs_ok h
  rw [← hport]
  constructor
  · intro hpasses
    by_cases hdenotes : ∃ n, DenotesPort text n
    · obtain ⟨n, hn⟩ := hdenotes
      obtain ⟨args', hargs', heq⟩ := hpasses.configured n hn
      rw [hargs] at hargs'
      cases hargs'
      exact ⟨n, hn, heq⟩
    · exact absurd hargs (hpasses.otherwise hdenotes args)
  · rintro ⟨n, hn, heq⟩
    refine ⟨fun m hm => ⟨args, hargs, ?_⟩, fun hnone => absurd ⟨n, hn⟩ hnone⟩
    rw [heq]
    exact hn.unique hm

end Main

/-! ## The exit code -/

/-- The configurations have the same sections, apart from the text of the port. -/
structure DifferInPort (m_ifp m_ifp' : iniFileParser) : Prop where
  sections : ∀ paramsType ≠ pet_params.HTTP_DATA,
    m_ifp.getSectionContent paramsType = m_ifp'.getSectionContent paramsType
  flag : (m_ifp.getSectionContent pet_params.HTTP_DATA).1 =
    (m_ifp'.getSectionContent pet_params.HTTP_DATA).1
  keys : ∀ key ≠ "port".toList, (m_ifp.getSectionContent pet_params.HTTP_DATA).2.lookup key =
    (m_ifp'.getSectionContent pet_params.HTTP_DATA).2.lookup key

section Exit

variable {m_ifp m_ifp' : iniFileParser}

theorem start_httpServer (m_ifp : iniFileParser) (serviceName : Text) (out : Outcomes) :
    (Setup.start ⟨.httpServer, m_ifp, serviceName, out⟩ []).1 =
      (initServer out (httpServer m_ifp serviceName out []).2).1 := by
  have hresult := (httpServer_run m_ifp serviceName out).1
  simp only [Setup.start, bind_run]
  rw [← Prod.eta (httpServer m_ifp serviceName out []), hresult]

theorem DifferInPort.workerStarts_eq (h : DifferInPort m_ifp m_ifp')
    {typeSection tdbSection : UInt8}
    (htdb : tdbSection ≠ pet_params.HTTP_DATA) (connects : Bool) :
    workerStarts m_ifp typeSection tdbSection connects =
      workerStarts m_ifp' typeSection tdbSection connects := by
  have htype : typeOf m_ifp typeSection = typeOf m_ifp' typeSection := by
    by_cases hdata : typeSection = pet_params.HTTP_DATA
    · rw [hdata, typeOf, typeOf, h.keys db_type (by decide)]
    · rw [typeOf, typeOf, h.sections typeSection hdata]
  rw [workerStarts, workerStarts, htype, h.sections tdbSection htdb]

/-- Nothing in the initialisation looks at the port. -/
theorem DifferInPort.start_eq (h : DifferInPort m_ifp m_ifp') (serviceName : Text)
    (out : Outcomes) :
    (Setup.start ⟨.httpServer, m_ifp, serviceName, out⟩ []).1 =
      (Setup.start ⟨.httpServer, m_ifp', serviceName, out⟩ []).1 := by
  obtain ⟨hm, hstarted⟩ := httpServer_members m_ifp serviceName out
  obtain ⟨hm', hstarted'⟩ := httpServer_members m_ifp' serviceName out
  have hlogger : loggerStarts m_ifp out = loggerStarts m_ifp' out := by
    rw [loggerStarts, loggerStarts, h.sections pet_params.PET_LOGGER (by decide)]
  have hcontent : contentStarts m_ifp out = contentStarts m_ifp' out :=
    h.workerStarts_eq (by decide) out.contentConnects
  have hlogs : logsStarts m_ifp out = logsStarts m_ifp' out :=
    h.workerStarts_eq (by decide) out.logsConnects
  rw [start_httpServer, start_httpServer, initServer_result hm, initServer_result hm', hstarted,
    hstarted', hlogger, hcontent, hlogs, h.sections pet_params.FILE_OBSERVER (by decide),
    h.keys db_type (by decide)]

/-- The text of the port has no effect on the exit code, so no port is ever refused by `main`. -/
theorem main_eq_of_differInPort {files files' : Text → iniFileParser}
    (h : ∀ path, DifferInPort (files path) (files' path)) (argv : List Text) (out : Outcomes)
    (exception : Bool) : main files argv out exception = main files' argv out exception := by
  unfold main
  match argv with
  | [] => rfl
  | [_] => rfl
  | serviceName :: iniFilePath :: rest =>
    have hflag := (h iniFilePath).flag
    cases hdata : ((files iniFilePath).getSectionContent pet_params.HTTP_DATA).1 with
    | false =>
      rw [hdata] at hflag
      simp only [serverArgs, hdata, ← hflag, if_true]
    | true =>
      rw [hdata] at hflag
      obtain ⟨host, text, -, hargs⟩ := serverArgs_of_flag hdata
      obtain ⟨host', text', -, hargs'⟩ := serverArgs_of_flag hflag.symm
      rw [hargs, hargs']
      simp only [ServerArgs.setup]
      rw [(h iniFilePath).start_eq serviceName out]

end Exit

/-- The file with another text as the port of the daemon. -/
def setPort (file : IniFile) (text : Text) : IniFile where
  value sectionName key :=
    if sectionName = HTTP_DATA_PARAMS.1 ∧ key = "port".toList then some text
    else file.value sectionName key

theorem value_setPort_port (file : IniFile) (text : Text) :
    (setPort file text).value HTTP_DATA_PARAMS.1 "port".toList = some text := by
  simp only [setPort, and_self, if_true]

theorem value_setPort_of_ne (file : IniFile) (text : Text) {sectionName key : Text}
    (h : ¬ (sectionName = HTTP_DATA_PARAMS.1 ∧ key = "port".toList)) :
    (setPort file text).value sectionName key = file.value sectionName key := by
  simp only [setPort, if_neg h]

theorem readValues_setPort (file : IniFile) (text : Text) {sectionName : Text}
    (h : sectionName ≠ HTTP_DATA_PARAMS.1) (keys : List Text) :
    readValues (setPort file text) sectionName keys = readValues file sectionName keys := by
  induction keys with
  | nil => rfl
  | cons key keys ih =>
    have hvalue : (setPort file text).value sectionName key = file.value sectionName key :=
      value_setPort_of_ne file text fun hport => h hport.1
    rw [readValues, readValues, hvalue, ih]

theorem sectionName_ne {paramsType : UInt8} {pair : params_pair_t}
    (h : selectedParamsPair paramsType = some pair) (hdata : paramsType ≠ pet_params.HTTP_DATA) :
    pair.1 ≠ HTTP_DATA_PARAMS.1 := by
  unfold selectedParamsPair at h
  rw [if_neg hdata] at h
  repeat' split at h
  all_goals cases h
  all_goals decide

/-- The section of the daemon has the text as its port, when it has the other two keys. -/
theorem getSectionContent_setPort (file : IniFile) (text : Text) :
    iniFileParser.getSectionContent ⟨some (setPort file text)⟩ pet_params.HTTP_DATA =
      match file.value HTTP_DATA_PARAMS.1 "host".toList, file.value HTTP_DATA_PARAMS.1 db_type with
      | some host, some type =>
          (true, [("host".toList, host), ("port".toList, text), (db_type, type)])
      | _, _ => (false, []) := by
  have hhost : (setPort file text).value HTTP_DATA_PARAMS.1 "host".toList =
      file.value HTTP_DATA_PARAMS.1 "host".toList :=
    value_setPort_of_ne file text fun h => absurd h.2 (by decide)
  have hport := value_setPort_port file text
  have htype : (setPort file text).value HTTP_DATA_PARAMS.1 db_type =
      file.value HTTP_DATA_PARAMS.1 db_type :=
    value_setPort_of_ne file text fun h => absurd h.2 (by decide)
  have hkeys : HTTP_DATA_PARAMS.2 = ["host".toList, "port".toList, db_type] := rfl
  have hpair : selectedParamsPair pet_params.HTTP_DATA = some HTTP_DATA_PARAMS := rfl
  unfold iniFileParser.getSectionContent
  simp only [hpair, hkeys, readValues, hhost, hport, htype]
  cases file.value HTTP_DATA_PARAMS.1 "host".toList with
  | none => rfl
  | some host =>
    cases file.value HTTP_DATA_PARAMS.1 db_type with
    | none => rfl
    | some type => rfl

theorem differInPort_setPort (file : IniFile) (text text' : Text) :
    DifferInPort ⟨some (setPort file text)⟩ ⟨some (setPort file text')⟩ where
  sections paramsType hdata := by
    unfold iniFileParser.getSectionContent
    cases hpair : selectedParamsPair paramsType with
    | none => rfl
    | some pair =>
      have hname := sectionName_ne hpair hdata
      simp only [readValues_setPort file _ hname]
  flag := by
    rw [getSectionContent_setPort, getSectionContent_setPort]
    split <;> rfl
  keys key hkey := by
    have hne : (key == "port".toList) = false := by simpa using hkey
    rw [getSectionContent_setPort, getSectionContent_setPort]
    split
    · simp only [List.lookup_cons, hne]
    · rfl

/-- Whatever the text of the port is, `main` ends in the same way. -/
theorem main_setPort (file : IniFile) (text text' : Text) (argv : List Text) (out : Outcomes)
    (exception : Bool) :
    main (fun _ => ⟨some (setPort file text)⟩) argv out exception =
      main (fun _ => ⟨some (setPort file text')⟩) argv out exception :=
  main_eq_of_differInPort (fun _ => differInPort_setPort file text text') argv out exception

/-! ## The conversion of a decimal numeral -/

section Conversion

variable {c : Char} {text : Text} {n : Nat}

/-- The base in which `strtoul` reads a decimal numeral. -/
def baseOf (text : Text) : Nat := if text.head? = some '0' then 8 else 10

theorem c_str_of_digits (h : ∀ c ∈ text, c.isDigit = true) : c_str text = text := by
  apply List.takeWhile_eq_self_iff.mpr
  intro c hc
  have hlow := (digit_bounds (h c hc)).1
  exact decide_eq_true (by omega)

theorem isSpace_of_isDigit (h : c.isDigit = true) : isSpace c = false := by
  obtain ⟨hlow, -⟩ := digit_bounds h
  have hblank : c ≠ ' ' := by
    rintro rfl
    cases h
  have htab : ¬ c.toNat ≤ 13 := by omega
  simp [isSpace, hblank, htab]

theorem readSign_of_isDigit (h : c.isDigit = true) (s : Text) :
    readSign (c :: s) = (false, c :: s) := by
  unfold readSign
  split
  · rename_i heq
    obtain ⟨rfl, -⟩ := List.cons_eq_cons.mp heq
    cases h
  · rename_i heq
    obtain ⟨rfl, -⟩ := List.cons_eq_cons.mp heq
    cases h
  · rfl

/-- A zero at the beginning stands for the base eight; there is no `x` in a decimal numeral. -/
theorem detectBase_of_digits (h : ∀ c ∈ text, c.isDigit = true) :
    detectBase text = (baseOf text, text) := by
  unfold detectBase
  split
  · rename_i x d s
    have hx : x.isDigit = true := h x (List.mem_cons_of_mem _ List.mem_cons_self)
    have hnone : ¬ ((x = 'x' ∨ x = 'X') ∧ digit d < 16) := by
      rintro ⟨rfl | rfl, -⟩ <;> cases hx
    rw [if_neg hnone]
    rfl
  · rfl
  · rename_i hzero
    have hbase : baseOf text = 10 := by
      refine if_neg fun hhead => ?_
      obtain ⟨s, rfl⟩ := List.head?_eq_some_iff.mp hhead
      exact hzero s rfl
    rw [hbase]

/-- A port is read in that base, and nothing is lost. -/
theorem toNat_portNumber (h : DenotesPort text n) :
    (portNumber text).toNat = numeral (baseOf text) (leading (baseOf text) text) := by
  have hle : numeral (baseOf text) (leading (baseOf text) text) ≤ n := by
    have hbase : baseOf text ≤ 10 := by
      unfold baseOf
      split <;> decide
    have hvalue := leading_le hbase (by decide) text
    rwa [numeral_ten h.digits, h.value_eq] at hvalue
  have hmax := h.le
  have hstrtoul : strtoul text =
      UInt64.ofNat (numeral (baseOf text) (leading (baseOf text) text)) := by
    cases text with
    | nil => exact absurd rfl h.ne_nil
    | cons d ds =>
      have hd := h.digits d List.mem_cons_self
      have hblank : (d :: ds).dropWhile isSpace = d :: ds :=
        List.dropWhile_cons_of_neg (by rw [isSpace_of_isDigit hd]; decide)
      unfold strtoul
      simp only [hblank, readSign_of_isDigit hd, detectBase_of_digits h.digits]
      -- neither saturated nor negated
      rw [if_neg (by omega), if_neg Bool.false_ne_true]
  have hsize : UInt64.size = 2 ^ 64 := rfl
  rw [portNumber, c_str_of_digits h.digits, hstrtoul, UInt64.toNat_toUInt16,
    UInt64.toNat_ofNat_of_lt' (by omega)]
  omega

/-- The number is right without a leading zero, and when it is a single octal digit. -/
theorem portNumber_eq_iff (h : DenotesPort text n) :
    (portNumber text).toNat = n ↔ (text.head? ≠ some '0' ∨ n < 8) := by
  have hvalue : numeral 10 text = n := (numeral_ten h.digits).trans h.value_eq
  rw [toNat_portNumber h]
  by_cases hhead : text.head? = some '0'
  · have hbase : baseOf text = 8 := if_pos hhead
    have hiff : numeral 8 (leading 8 text) = numeral 10 text ↔ numeral 10 text < 8 :=
      leading_eq_iff (by decide) (by decide) text
    rw [hvalue] at hiff
    rw [hbase, hiff]
    exact ⟨Or.inr, fun hor => hor.resolve_left (not_not_intro hhead)⟩
  · have hbase : baseOf text = 10 := if_neg hhead
    have hall : leading 10 text = text := leading_of_digits fun c hc => digit_lt_ten (h.digits c hc)
    rw [hbase, hall, hvalue]
    exact iff_of_true rfl (Or.inl hhead)

end Conversion

/-- The server has the configured port, and there is none without one, exactly when the text is a
decimal numeral of a port that has no leading zero or is less than eight. -/
theorem passes_port_iff {files : Text → iniFileParser} {argv : List Text} {text : Text}
    (h : PortText files argv text) :
    PassesPort (serverArgs files argv) text ↔
      ∃ n, DenotesPort text n ∧ (text.head? ≠ some '0' ∨ n < 8) := by
  rw [passesPort_iff_portNumber h]
  constructor
  · rintro ⟨n, hn, heq⟩
    exact ⟨n, hn, (portNumber_eq_iff hn).mp heq⟩
  · rintro ⟨n, hn, hor⟩
    exact ⟨n, hn, (portNumber_eq_iff hn).mpr hor⟩

/-! ## Concrete configurations -/

/-- A file that has the text for every key. -/
def uniformFile (text : Text) : iniFileParser := ⟨some ⟨fun _ _ => some text⟩⟩

theorem portText_uniformFile (text : Text) :
    PortText (fun _ => uniformFile text) ["http_daemon".toList, "ini_example.ini".toList] text :=
  ⟨_, _, [], rfl, rfl⟩

/-- The port of the examples. -/
theorem passes_port_iff_example :
    PassesPort
      (serverArgs (fun _ => uniformFile "5555".toList)
        ["http_daemon".toList, "ini_example.ini".toList])
      "5555".toList := by
  have hport : DenotesPort "5555".toList 5555 := by
    refine ⟨by decide, ?_, by decide, by decide, by decide⟩
    exact List.all_eq_true.mp (by decide)
  exact (passes_port_iff (portText_uniformFile _)).mpr ⟨5555, hport, Or.inl (by decide)⟩

/-- A server is constructed for a number that is no port. -/
theorem not_passes_port_large :
    ¬ ∀ (files : Text → iniFileParser) (argv : List Text) (text : Text),
      PortText files argv text → PassesPort (serverArgs files argv) text := by
  intro hall
  have hpasses := hall _ _ _ (portText_uniformFile "70000".toList)
  obtain ⟨args, hargs, -⟩ := serverArgs_ok (portText_uniformFile "70000".toList)
  refine hpasses.otherwise ?_ args hargs
  rintro ⟨n, hn⟩
  have hvalue : value "70000".toList = 70000 := by decide
  have hle := hn.le
  rw [← hn.value_eq, hvalue] at hle
  exact absurd hle (by decide)

end PetProject.Daemon.HttpMain
