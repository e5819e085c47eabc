import Mathlib.Data.List.Basic
import PetProject.Foundation.NumberedFiles
import PetProject.Workers.Model

/-!
# The logger

`petLogger` of `pet_logger/src/pet_logger.cpp`. A call of `FAST_LOG` on an open file writes one
record and, when the file has reached the configured size, closes it and opens a new one; on a
closed file it tries to open one. The name of a log file holds the time in seconds, and opening a
file empties it.

What a call gets from outside (the time of day, the thread, the clock, whether the file can be
opened) is part of the call. A file is the list of the records in it; a record carries the number
of the call that wrote it, which no function of the logger reads.
-/

set_option autoImplicit false

namespace PetProject.Logger

open PetProject.Foundation.TextSearch PetProject.Foundation.NumberedFiles PetProject.Workers

abbrev Bytes := List UInt8

/-- The bytes of a text in the encoding of the source, UTF-8. -/
def utf8 (s : Text) : Bytes := s.flatMap String.utf8EncodeChar

/-! ## Configuration -/

/-- `common_defs::mbToBytes`. -/
def mbToBytes : Nat := 1024 * 1024

/-- `common_defs::logDirPathParam`. -/
def logDirPathParam : Text := "dir".toList

/-- `common_defs::logMaxSizeinMbParam`. -/
def logMaxSizeinMbParam : Text := "max_size_mb".toList

/-- `common_defs::logFieldsDelimeter`. -/
def logFieldsDelimeter : Text := " | ".toList

/-- `std::isspace` in the default locale. -/
def isSpace (c : Char) : Bool := c = ' ' || (9 ≤ c.toNat && c.toNat ≤ 13)

/-- The digits at the start of a text, as a number; `none` without a digit. -/
def leadingNumber (s : Text) : Option Nat :=
  match s.takeWhile Char.isDigit with
  | [] => none
  | ds => some (ds.foldl (fun n d => 10 * n + (d.toNat - '0'.toNat)) 0)

/-- `std::stol`; `none` when it throws. -/
def stol (s : Text) : Option Int :=
  let value : Option Int :=
    match s.dropWhile isSpace with
    | '-' :: ds => (leadingNumber ds).map fun n => -(n : Int)
    | '+' :: ds => (leadingNumber ds).map fun n => (n : Int)
    | ds => (leadingNumber ds).map fun n => (n : Int)
  value.filter fun n => -2 ^ 63 ≤ n ∧ n < 2 ^ 63

/-- The value of `m_maxFileSize`: the product in `size_t`. -/
def maxFileSize (mb : Int) : Nat := ((mb * mbToBytes) % 2 ^ 64).toNat

/-! ## State -/

/-- An open `m_out`: the path of the file and the value of `tellp`. -/
structure OutStream where
  path : Text
  tellp : Nat

structure petLogger where
  m_serviceName : Text
  /-- `m_loggerParams.at(logDirPathParam)`; the map does not change. -/
  logDir : Text
  m_maxFileSize : Nat
  m_out : Option OutStream

/-- The logger, the log files and the lines written to `cerr`. -/
structure World where
  logger : petLogger
  disk : Files Text Bytes
  cerr : List Text

/-- A call of `FAST_LOG` with what it gets from outside. -/
structure LogCall where
  codeInfoAndMessage : Bytes
  /-- The number that the identifier of the thread is printed as. -/
  threadID : Nat
  /-- `gettimeofday` and `localtime`; `none` for `-1`. -/
  timeOfDay : Option (LocalTime × Nat)
  /-- `getTimepointSinceEpoch()`, when the call reads it. -/
  time : Int
  /-- Whether `m_out.open` succeeds, when the call opens a file. -/
  opens : Bool

/-! ## Operations -/

def m_monthNames : List Text :=
  ["янв".toList, "фев".toList, "мар".toList, "апр".toList, "май".toList, "июн".toList,
    "июл".toList, "авг".toList, "сен".toList, "окт".toList, "ноя".toList, "дек".toList]

def getHumanReadableDate : Option (LocalTime × Nat) → Text
  | none => "not defined".toList
  | some (t, tv_usec) =>
      decimal t.tm_mday ++ ' ' :: (m_monthNames.getD t.tm_mon [] ++ ' ' ::
        (decimalInt (1900 + t.tm_year) ++ ' ' :: (decimal t.tm_hour ++ ':' :: (decimal t.tm_min ++
          ':' :: (decimal t.tm_sec ++ ':' :: (decimal tv_usec ++ logFieldsDelimeter))))))

/-- What a call writes. -/
def record (c : LogCall) : Bytes :=
  utf8 (getHumanReadableDate c.timeOfDay) ++
    (utf8 (decimal c.threadID) ++ (c.codeInfoAndMessage ++ utf8 ['\n']))

/-- `fs::path::filename`: the part behind the last slash, and `.` when that part is empty. -/
def filename (path : Text) : Text :=
  match path.reverse with
  | [] => []
  | '/' :: rest => if rest.all (· = '/') then ['/'] else ['.']
  | rev => (rev.takeWhile (· ≠ '/')).reverse

/-- The path that `createNewLogfile` builds. -/
def petLogger.logfilePath (lg : petLogger) (time : Int) : Text :=
  lg.logDir ++ '/' :: (filename lg.m_serviceName ++ '_' :: (decimalInt time ++ ".log".toList))

/-- `createNewLogfile` on a closed `m_out`. -/
def createNewLogfile (w : World) (time : Int) (opens : Bool) : Bool × World :=
  if opens then
    -- `std::ofstream::trunc` empties a file of that name
    let path := w.logger.logfilePath time
    (true, { w with
      logger := { w.logger with m_out := some ⟨path, 0⟩ }, disk := empty w.disk path })
  else (false, { w with logger := { w.logger with m_out := none } })

/-- `m_out << .. << "\n"; m_out.flush();`, as the call with the given number. -/
def write (number : Nat) (c : LogCall) (out : OutStream) (w : World) : World :=
  { w with
    logger := { w.logger with m_out := some ⟨out.path, out.tellp + (record c).length⟩ }
    disk := append w.disk out.path ⟨number, record c⟩ }

/-- `if(!createNewLogfile()) std::cerr << message;`. -/
def reopen (w : World) (c : LogCall) (message : Text) : World :=
  let res := createNewLogfile w c.time c.opens
  if res.1 then res.2 else { res.2 with cerr := res.2.cerr ++ [message] }

def rotationError : Text :=
  "Размер файла лога превысил заданный, но новый создать не удалось...".toList

def reopenError : Text := "Файл был внезапно удален. Новый создать не удалось...".toList

/-- Whether the record of the call brings the file to the configured size. -/
def petLogger.fillsUp (lg : petLogger) (out : OutStream) (c : LogCall) : Prop :=
  lg.m_maxFileSize ≤ out.tellp + (record c).length

instance (lg : petLogger) (out : OutStream) (c : LogCall) : Decidable (lg.fillsUp out c) :=
  inferInstanceAs (Decidable (_ ≤ _))

/-- `FAST_LOG`, as the call with the given number. -/
def FAST_LOG (number : Nat) (c : LogCall) (w : World) : World :=
  match w.logger.m_out with
  | some out =>
      -- the size is compared after the record was written
      let written := write number c out w
      if w.logger.fillsUp out c then
        reopen { written with logger := { written.logger with m_out := none } } c rotationError
      else written
  -- the record of this call is written nowhere, also when a file is opened
  | none => reopen w c reopenError

/-- `CODE_POSITION()`. -/
def CODE_POSITION (file func : Text) (line : Nat) : Text :=
  logFieldsDelimeter ++ file ++ ':' :: (func ++ ':' :: (decimal line ++ logFieldsDelimeter))

/-- The call that `init` makes. -/
def initCall (c : LogCall) : LogCall :=
  { c with
    codeInfoAndMessage := utf8 (CODE_POSITION "pet_logger.cpp".toList "init".toList 36 ++
      "Логгер успешно инициализирован".toList) }

/-- `init` up to its call of `FAST_LOG`; `none` when it returns `false`. `dirExists` is the value of
`createLogDirIfNotExists()`, `time` and `opens` are what its `createNewLogfile` gets from outside.
-/
def openLog (m_loggerParams : Text → Option Text) (m_serviceName : Text) (dirExists : Bool)
    (time : Int) (opens : Bool) : Option World :=
  -- a parameter that is missing or no number throws, and `init` returns `false`
  match (m_loggerParams logMaxSizeinMbParam).bind stol, m_loggerParams logDirPathParam with
  | some mb, some logDir =>
      if dirExists then
        let res := createNewLogfile ⟨⟨m_serviceName, logDir, maxFileSize mb, none⟩, fun _ => [], []⟩
          time opens
        if res.1 then some res.2 else none
      else none
  | _, _ => none

/-- `init`, with the outside of its two parts. -/
def init (m_loggerParams : Text → Option Text) (m_serviceName : Text) (dirExists : Bool)
    (time : Int) (opens : Bool) (c : LogCall) : Option World :=
  (openLog m_loggerParams m_serviceName dirExists time opens).map (FAST_LOG 0 (initCall c))

end PetProject.Logger
