import VoxiUtil.Err
import VoxiUtil.WordMap

/-!
The loggers of `logging.c` with the file driver or the dual-file driver. A logger keeps one
entry for each destination in a hash table, by its full name. Memory is there, and the
operations on files succeed; the loggers are those of `log_create`, whose table is there.
-/
namespace VoxiUtil.Logging
open VoxiUtil.CString VoxiUtil.Err VoxiUtil.Hash VoxiUtil.WordMap

inductive LogLevel where
  | none | critical | error | warning | info | debug | trace
deriving DecidableEq

/-- `LogLevelName`. -/
def logLevelName : LogLevel → Text
  | .none => lit "None"
  | .critical => lit "Critical"
  | .error => lit "Error"
  | .warning => lit "Warning"
  | .info => lit "Info"
  | .debug => lit "Debug"
  | .trace => lit "Trace"

inductive LogFormat where
  | legacy | standard
deriving DecidableEq

inductive LoggingDriver where
  | file | dualFile
deriving DecidableEq

def bufferLength : Nat := 65536

def maxFilenameLength : Nat := 4096

def logDestinationConsole : Text := lit "[console]"

def filelogDefaultExtension : Text := lit "log"

/-- What `snprintf` leaves in a buffer for file names. -/
def fileName (text : Text) : Text := text.take (maxFilenameLength - 1)

/-- A name with its extension. -/
def dotted (name extension : Text) : Text := name ++ 46 :: extension

/-- A date as `strftime` prints it by `%Y-%m-%d` into 15 bytes. -/
structure Date where
  text : Text
  plain : ∀ c ∈ text, isDigit c = true ∨ c = 45
  fits : text.length < 15
deriving DecidableEq

/-- What the clock tells: the date, the date of a week ago, and the parts of a time stamp. -/
structure Moment where
  date : Date
  weekAgo : Date
  apart : weekAgo ≠ date
  stamp : Text
  millitm : Nat

/-- Where an open `FILE` writes to. -/
inductive Stream where
  | stdout
  | stderr
  | file (path : Text)
deriving DecidableEq

/-- A line in a file, and the date on which it was written. -/
structure Line where
  date : Date
  text : Text
deriving DecidableEq

/-- `sLogFileEntry`, with the number of its block. Its streams are kept by that number. -/
structure LogFileEntry where
  address : Nat
  fullName : Text
  fileName : Option Text
  fileExtension : Option Text
deriving DecidableEq

def logFileHashTableHash (e : LogFileEntry) : Int32 := hashString e.fullName

def logFileHashTableComp (e1 e2 : LogFileEntry) : Int32 := strcmp e1.fullName e2.fullName

def logFileFuncs : Funcs LogFileEntry := ⟨16, by decide, logFileHashTableHash, logFileHashTableComp, true⟩

/-- The template has a full name only. -/
def logFileHashTableFind (ht : Hasht logFileFuncs) (fullName : Text) : Option LogFileEntry :=
  hashFind ht ⟨0, fullName, none, none⟩

/-- `sLogger`, with the streams of the entries, the lines that the logger wrote to the file
    that a stream leads to now, and the next block of memory. -/
structure Logger where
  driver : LoggingDriver
  applicationName : Text
  logFileFullName : Text
  date : Date
  logFormat : LogFormat
  logFiles : Hasht logFileFuncs
  commonFd : Nat → Option Stream
  errorFd : Nat → Option Stream
  lines : Stream → List Line
  unused : Nat

/-- A call of `log_logText`: its arguments, with what `format` makes of `args`, and what
    the clock and the system tell meanwhile. -/
structure Call where
  logDestination : Option Text
  moduleName : Text
  logLevel : LogLevel
  sourceFile : Text
  sourceLine : Int32
  message : Text
  thread : Nat
  now : Moment

/-- The name in front of the last dot and the extension behind it. -/
def splitName (name : Text) : Text × Text :=
  match strrchr name 46 with
  | some (before, extension) => (before, extension)
  | none => (name, filelogDefaultExtension)

/-- The path that a stream of an entry is opened at. -/
def logPath (name specifier extension : Text) : Text := fileName (dotted (name ++ specifier) extension)

def logFileEntryCreate (l : Logger) (name : Option Text) (dualFile : Bool) : Logger × LogFileEntry :=
  let theName := name.getD logDestinationConsole
  if strcaseEq theName logDestinationConsole then
    ({ l with
        commonFd := Function.update l.commonFd l.unused (some (if dualFile then .stdout else .stderr))
        errorFd := Function.update l.errorFd l.unused (if dualFile then some .stderr else none)
        unused := l.unused + 1 },
      ⟨l.unused, logDestinationConsole, none, none⟩)
  else
    let (before, extension) := splitName theName
    ({ l with
        commonFd := Function.update l.commonFd l.unused (some (.file (logPath before (lit "_Common") extension)))
        errorFd := Function.update l.errorFd l.unused (some (.file (logPath before (lit "_Error") extension)))
        unused := l.unused + 1 },
      ⟨l.unused, fileName (dotted before extension), some before, some extension⟩)

/-- The new entry is made an entry of the table; the result is what `HashAdd` returned. -/
def addEntry (l : Logger) (e : LogFileEntry) : Logger × Int :=
  let (logFiles, added) := hashAdd l.logFiles e (some l.unused)
  ({ l with logFiles := logFiles, unused := l.unused + 1 }, added)

/-- `loggerCreateCommon`, with the format that `log_create` sets. The full name is filled in later. -/
def loggerCreateCommon (driver : LoggingDriver) (appName : Text) (today : Date) : Logger :=
  ⟨driver, appName, [], today, .standard, hashCreateTable logFileFuncs, fun _ => none, fun _ => none, fun _ => [], 0⟩

/-- `fileCreate` and `dualFileCreate`. -/
def createWith (driver : LoggingDriver) (dualFile : Bool) (appName : Text) (args : Option Text) (today : Date) : Logger :=
  let (l, e) := logFileEntryCreate (loggerCreateCommon driver appName today) args dualFile
  (addEntry { l with logFileFullName := e.fullName } e).1

def fileCreate (appName : Text) (args : Option Text) (today : Date) : Logger := createWith .file false appName args today

def dualFileCreate (appName : Text) (args : Option Text) (today : Date) : Logger :=
  createWith .dualFile true appName args today

def logCreate (applicationName : Text) (driver : LoggingDriver) (driverArguments : Option Text) (today : Date) : Logger :=
  match driver with
  | .file => fileCreate applicationName driverArguments today
  | .dualFile => dualFileCreate applicationName driverArguments today

/-- `destToUse` of both drivers: the name by which the entry is looked for. -/
def destToUse (l : Logger) (logDestination : Option Text) : Text :=
  match logDestination with
  | none => l.logFileFullName
  | some destination =>
    if destination.length > 0 then
      if strcaseEq destination logDestinationConsole = false ∧ strrchr destination 46 = none then
        fileName (dotted destination filelogDefaultExtension)
      else destination
    else l.logFileFullName

/-- The entry that is found or made for the name. -/
def entryFor (l : Logger) (name : Text) (dualFile : Bool) : Logger × Except Error LogFileEntry :=
  match logFileHashTableFind l.logFiles name with
  | some e => (l, .ok e)
  | none =>
    let (l, e) := logFileEntryCreate l (some name) dualFile
    let (l, added) := addEntry l e
    if added = 0 then
      (l, .error (errNew .logging 0 none (lit "Failed to create log file entry for '" ++ name ++ lit "'.")))
    else (l, .ok e)

/-- The path that a file of the date is renamed to. -/
def datedPath (name specifier extension : Text) (date : Date) : Text := logPath name (specifier ++ 95 :: date.text) extension

/-- Closes the file, renames it after the date, opens a new one and removes the file of a
    week ago. A file keeps its lines when it is renamed. -/
def fileLogRotate (l : Logger) (logFileName logFileSpecifier logFileExtension : Text) (now : Moment) : Logger × Stream :=
  let currentLogFileName := logPath logFileName logFileSpecifier logFileExtension
  let fileName := datedPath logFileName logFileSpecifier logFileExtension now.date
  let renamed :=
    if currentLogFileName = fileName then l.lines
    else Function.update (Function.update l.lines (.file fileName) (l.lines (.file currentLogFileName)))
      (.file currentLogFileName) []
  let weekOld := datedPath logFileName logFileSpecifier logFileExtension now.weekAgo
  ({ l with lines := Function.update renamed (.file weekOld) [] }, .file currentLogFileName)

/-- The stream is neither null nor one of the console. -/
def isLogFile : Option Stream → Bool
  | some (.file _) => true
  | _ => false

/-- What `%s` prints of a string. -/
def printString (string : Option Text) : Text := string.getD (lit "(null)")

def rotateCommon (l : Logger) (e : LogFileEntry) (specifier : Text) (now : Moment) : Logger :=
  if isLogFile (l.commonFd e.address) then
    let (l, fd) := fileLogRotate l (printString e.fileName) specifier (printString e.fileExtension) now
    { l with commonFd := Function.update l.commonFd e.address (some fd) }
  else l

def rotateError (l : Logger) (e : LogFileEntry) (specifier : Text) (now : Moment) : Logger :=
  if isLogFile (l.errorFd e.address) then
    let (l, fd) := fileLogRotate l (printString e.fileName) specifier (printString e.fileExtension) now
    { l with errorFd := Function.update l.errorFd e.address (some fd) }
  else l

/-- `%03ld`. -/
def printMillis (millitm : Nat) : Text := List.replicate (3 - (decimal millitm).length) 48 ++ decimal millitm

/-- What `log_logText` leaves of `__FILE__`. -/
def sourceName (sourceFile : Text) : Text :=
  match strrchr sourceFile 47 with
  | some (_, name) => name
  | none => sourceFile

/-- What is printed between the time stamp and the message. -/
def lineHeader (l : Logger) (call : Call) : Text :=
  let place := sourceName call.sourceFile ++ 58 :: printInt call.sourceLine ++ [9]
  let thread := 91 :: decimal call.thread ++ [93]
  match l.logFormat with
  | .legacy =>
    46 :: printMillis call.now.millitm ++ 9 :: l.applicationName ++ 9 :: call.moduleName ++ 9 :: logLevelName call.logLevel ++
      9 :: thread ++ 9 :: place
  | .standard =>
    46 :: printMillis call.now.millitm ++ 9 :: logLevelName call.logLevel ++ 9 :: thread ++
      9 :: l.applicationName ++ 47 :: call.moduleName ++ 9 :: place

/-- The line in the buffer. The message is printed at the index that the stamp and the header
    would have reached, `none` when that is outside of the buffer, and also for a header whose
    length no `int` holds. -/
def fileLogBuildLine (l : Logger) (call : Call) : Option (Except Error Text) :=
  if call.now.stamp.length = 0 ∨ bufferLength ≤ call.now.stamp.length then
    some (.error (errNew .logging 0 none (lit "strftime failed.")))
  else if (call.now.stamp ++ lineHeader l call).length ≤ bufferLength then
    some (.ok ((call.now.stamp ++ lineHeader l call ++ call.message).take (bufferLength - 1)))
  else none

/-- `fileLogWrite`. A null stream is not written to. -/
def fileLogWrite (l : Logger) (f : Option Stream) (line : Line) : Logger :=
  match f with
  | some f => { l with lines := Function.update l.lines f (l.lines f ++ [line]) }
  | none => l

/-- The logger with the files of the entry rotated if the date is a new one, which it saves then. -/
def fileRotated (l : Logger) (e : LogFileEntry) (now : Moment) : Logger :=
  if strcmp now.date.text l.date.text ≠ 0 then { rotateCommon l e [] now with date := now.date } else l

def dualFileRotated (l : Logger) (e : LogFileEntry) (now : Moment) : Logger :=
  if strcmp now.date.text l.date.text ≠ 0 then
    { rotateError (rotateCommon l e (lit "_Common") now) e (lit "_Error") now with date := now.date }
  else l

def fileWritten (l : Logger) (e : LogFileEntry) (_ : Call) (line : Line) : Logger := fileLogWrite l (l.commonFd e.address) line

/-- Warnings, errors and critical messages go to the error file too. -/
def dualFileWritten (l : Logger) (e : LogFileEntry) (call : Call) (line : Line) : Logger :=
  let l :=
    match call.logLevel with
    | .critical | .error | .warning => fileLogWrite l (l.errorFd e.address) line
    | _ => l
  fileLogWrite l (l.commonFd e.address) line

/-- The common body of `fileLogText` and `dualFileLogText`: the logger afterwards and the
    error returned, `none` when the line leaves its buffer. -/
def logTextWith (dualFile : Bool) (rotated : Logger → LogFileEntry → Moment → Logger)
    (written : Logger → LogFileEntry → Call → Line → Logger) (l : Logger) (call : Call) : Option (Logger × Option Error) :=
  match entryFor l (destToUse l call.logDestination) dualFile with
  | (l, .error error) => some (l, some error)
  | (l, .ok e) =>
    let l := rotated l e call.now
    (fileLogBuildLine l call).map fun
      | .error error => (l, some error)
      | .ok text => (written l e call ⟨call.now.date, text⟩, none)

def fileLogText (l : Logger) (call : Call) : Option (Logger × Option Error) :=
  logTextWith false fileRotated fileWritten l call

def dualFileLogText (l : Logger) (call : Call) : Option (Logger × Option Error) :=
  logTextWith true dualFileRotated dualFileWritten l call

def logLogText (l : Logger) (call : Call) : Option (Logger × Option Error) :=
  match l.driver with
  | .file => fileLogText l call
  | .dualFile => dualFileLogText l call

end VoxiUtil.Logging
