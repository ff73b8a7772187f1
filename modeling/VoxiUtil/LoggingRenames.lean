import VoxiUtil.LoggingPaths

/-!
The paths at which the files of an entry are opened when it is made, and those at which a
rotation renames them away and opens them again: the two drivers build the latter from other
specifiers.
-/
namespace VoxiUtil.LoggingRenames
open VoxiUtil.CString VoxiUtil.Logging VoxiUtil.LoggingEntries VoxiUtil.LoggingPaths

/-- The stream of an entry. -/
def stream (l : Logger) (e : LogFileEntry) : Kind → Option Stream
  | .common => l.commonFd e.address
  | .error => l.errorFd e.address

/-- The streams that a driver rotates when the date has changed, and the specifiers that it passes for them. -/
def specifiers : LoggingDriver → List (Kind × Text)
  | .file => [(.common, [])]
  | .dualFile => [(.common, lit "_Common"), (.error, lit "_Error")]

/-- The rotation of the driver. -/
def rotated (driver : LoggingDriver) (l : Logger) (e : LogFileEntry) (now : Moment) : Logger :=
  match driver with
  | .file => fileRotated l e now
  | .dualFile => dualFileRotated l e now

/-- `currentLogFileName` of `fileLogRotate`: the file that it renames, and that it opens again. -/
def currentLogFileName (e : LogFileEntry) (logFileSpecifier : Text) : Text :=
  logPath (printString e.fileName) logFileSpecifier (printString e.fileExtension)

/-- What a new file of that name is renamed to. -/
def datedFileName (e : LogFileEntry) (logFileSpecifier : Text) (date : Date) : Text :=
  datedPath (printString e.fileName) logFileSpecifier (printString e.fileExtension) date

/-- For each stream that is opened for a new entry and rotated by the driver, the file that is rotated is the one that
    was opened. -/
def RotatesOpened (l : Logger) (name : Option Text) : Prop :=
  ∀ kind specifier path, (kind, specifier) ∈ specifiers l.driver →
    stream (logFileEntryCreate l name (isDual l)).1 (logFileEntryCreate l name (isDual l)).2 kind = some (.file path) →
    currentLogFileName (logFileEntryCreate l name (isDual l)).2 specifier = path

/-- No name of a file of the entry is cut. -/
def Untruncated (name : Text) : Prop :=
  (dotted ((splitName name).1 ++ Kind.common.specifier) (splitName name).2).length < maxFilenameLength

instance (name : Text) : Decidable (Untruncated name) := Nat.decLt _ _

section
variable {l : Logger} {e : LogFileEntry} {kind : Kind} {specifier name : Text} {now : Moment}

/-! ### What a rotation does -/

/-- A rotation of one stream, which is open at a file. -/
def rotateStream (l : Logger) (e : LogFileEntry) (now : Moment) : Kind × Text → Logger
  | (.common, specifier) => rotateCommon l e specifier now
  | (.error, specifier) => rotateError l e specifier now

/-- The drivers rotate just these streams, with these specifiers. -/
theorem rotated_specifiers (driver : LoggingDriver) (newDay : strcmp now.date.text l.date.text ≠ 0) :
    rotated driver l e now = { (specifiers driver).foldl (fun l each => rotateStream l e now each) l with date := now.date } := by
  cases driver with
  | file => exact if_pos newDay
  | dualFile => exact if_pos newDay

/-- A rotated stream leads to the file of its name. -/
theorem rotateStream_opens (isOpen : isLogFile (stream l e kind) = true) :
    stream (rotateStream l e now (kind, specifier)) e kind = some (.file (currentLogFileName e specifier)) := by
  cases kind with
  | common =>
    have opened : isLogFile (l.commonFd e.address) = true := isOpen
    simp [rotateStream, rotateCommon, opened, stream, fileLogRotate, currentLogFileName]
  | error =>
    have opened : isLogFile (l.errorFd e.address) = true := isOpen
    simp [rotateStream, rotateError, opened, stream, fileLogRotate, currentLogFileName]

/-- The lines of the file of its name are in the file of the date. -/
theorem rotateStream_renames (isOpen : isLogFile (stream l e kind) = true)
    (apart : currentLogFileName e specifier ≠ datedFileName e specifier now.date)
    (older : datedFileName e specifier now.weekAgo ≠ datedFileName e specifier now.date) :
    (rotateStream l e now (kind, specifier)).lines (.file (datedFileName e specifier now.date)) =
      l.lines (.file (currentLogFileName e specifier)) := by
  have moved : (fileLogRotate l (printString e.fileName) specifier (printString e.fileExtension) now).1.lines
      (.file (datedFileName e specifier now.date)) = l.lines (.file (currentLogFileName e specifier)) := by
    rw [currentLogFileName, datedFileName] at apart
    rw [datedFileName, datedFileName] at older
    simp [fileLogRotate, apart, apart.symm, older.symm, datedFileName, currentLogFileName]
  cases kind with
  | common =>
    have opened : isLogFile (l.commonFd e.address) = true := isOpen
    simpa [rotateStream, rotateCommon, opened] using moved
  | error =>
    have opened : isLogFile (l.errorFd e.address) = true := isOpen
    simpa [rotateStream, rotateError, opened] using moved

/-! ### The two drivers -/

theorem console_rotates (name : Option Text) (console : strcaseEq (name.getD logDestinationConsole) logDestinationConsole = true) :
    RotatesOpened l name := by
  obtain ⟨-, common, error⟩ := (created_entry l name (isDual l)).console console
  rw [← (created_entry l name (isDual l)).address] at common error
  intro kind specifier path _ opened
  cases kind with
  | common =>
    rw [stream] at opened
    rw [opened] at common
    cases common
  | error =>
    rw [stream] at opened
    rw [opened] at error
    cases error

/-- The names and streams of an entry with files. -/
theorem created_file (name : Option Text) (file : ¬ strcaseEq (name.getD logDestinationConsole) logDestinationConsole = true)
    (specifier : Text) (kind : Kind) :
    currentLogFileName (logFileEntryCreate l name (isDual l)).2 specifier =
        logPath (splitName (name.getD logDestinationConsole)).1 specifier (splitName (name.getD logDestinationConsole)).2 ∧
      stream (logFileEntryCreate l name (isDual l)).1 (logFileEntryCreate l name (isDual l)).2 kind =
        some (.file (logPath (splitName (name.getD logDestinationConsole)).1 kind.specifier
          (splitName (name.getD logDestinationConsole)).2)) := by
  have created := created_entry l name (isDual l)
  obtain ⟨fileName, extension, common, error⟩ := created.file file
  rw [← created.address] at common error
  refine ⟨by rw [currentLogFileName, fileName, extension]; rfl, ?_⟩
  cases kind with
  | common => exact common
  | error => exact error

theorem dualFile_rotates (name : Option Text) (dualFile : l.driver = .dualFile) : RotatesOpened l name := by
  by_cases console : strcaseEq (name.getD logDestinationConsole) logDestinationConsole = true
  · exact console_rotates name console
  · intro kind specifier path member opened
    obtain ⟨current, there⟩ := created_file (l := l) name console specifier kind
    rw [there, Option.some.injEq, Stream.file.injEq] at opened
    rw [current, ← opened]
    rw [dualFile] at member
    simp only [specifiers, List.mem_cons, Prod.mk.injEq, List.not_mem_nil, or_false] at member
    rcases member with ⟨rfl, rfl⟩ | ⟨rfl, rfl⟩ <;> rfl

/-- The file driver leaves the specifier out. -/
theorem file_misses (name : Option Text) (file : l.driver = .file)
    (named : ¬ strcaseEq (name.getD logDestinationConsole) logDestinationConsole = true)
    (untruncated : Untruncated (name.getD logDestinationConsole)) : ¬ RotatesOpened l name := by
  intro rotates
  obtain ⟨current, opened⟩ := created_file (l := l) name named [] .common
  have same := rotates .common [] _ (by simp [file, specifiers]) opened
  rw [current, logPath, logPath, List.append_nil] at same
  have lengths := congrArg List.length same
  have specifier : (Kind.common.specifier).length = 7 := rfl
  simp only [Untruncated, dotted, List.length_append, List.length_cons, specifier, maxFilenameLength] at untruncated
  simp only [fileName, dotted, List.length_take, List.length_append, List.length_cons, specifier, maxFilenameLength] at lengths
  omega

end

/-- For every logger and every name that is not cut, the files that are rotated are those that were opened just when
    the driver is the dual-file one or the name is the console's. -/
theorem rotates_opened_iff (l : Logger) (name : Option Text) (untruncated : Untruncated (name.getD logDestinationConsole)) :
    RotatesOpened l name ↔
      l.driver = .dualFile ∨ strcaseEq (name.getD logDestinationConsole) logDestinationConsole = true := by
  constructor
  · intro rotates
    by_contra neither
    obtain ⟨single, named⟩ := not_or.mp neither
    have file : l.driver = .file := by
      cases driver : l.driver with
      | file => rfl
      | dualFile => exact absurd driver single
    exact file_misses name file named untruncated rotates
  · rintro (dualFile | console)
    · exact dualFile_rotates name dualFile
    · exact console_rotates name console

theorem rotates_opened_iff_server :
    RotatesOpened (logCreate (lit "app") .dualFile none christmasEve.date) (some (lit "server.txt")) ↔
      (logCreate (lit "app") .dualFile none christmasEve.date).driver = .dualFile ∨
        strcaseEq (lit "server.txt") logDestinationConsole = true :=
  rotates_opened_iff _ (some (lit "server.txt")) (by decide)

/-- The file driver opens `server_Common.txt` and rotates `server.txt`. -/
theorem file_driver_misses : ¬ RotatesOpened (logCreate (lit "app") .file none christmasEve.date) (some (lit "server.txt")) :=
  file_misses (some (lit "server.txt")) rfl (by decide) (by decide)

end VoxiUtil.LoggingRenames
