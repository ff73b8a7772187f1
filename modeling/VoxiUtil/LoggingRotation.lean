import VoxiUtil.LoggingPaths

/-!
The rotation of the dual-file driver. The logger saves one date for all of its entries, so
that of the entries with lines of an earlier day only the first one that is used on a
new day is rotated.
-/
namespace VoxiUtil.LoggingRotation
open VoxiUtil.CString VoxiUtil.Hash VoxiUtil.HashSet VoxiUtil.Logging VoxiUtil.LoggingEntries VoxiUtil.LoggingPaths VoxiUtil.Runs

/-- The lines of the file that a stream writes to. -/
def linesOf (l : Logger) (fd : Option Stream) : List Line := (fd.map l.lines).getD []

/-- The lines in the current common file of an entry, and in its error file. -/
def commonLines (l : Logger) (e : LogFileEntry) : List Line := linesOf l (l.commonFd e.address)

def errorLines (l : Logger) (e : LogFileEntry) : List Line := linesOf l (l.errorFd e.address)

/-- No current log file mixes the lines of two dates, nor do the two files of an entry. -/
def OneDay (l : Logger) : Prop :=
  ∀ e ∈ entries l.logFiles, e.fileName.isSome →
    ∀ a ∈ commonLines l e ++ errorLines l e, ∀ b ∈ commonLines l e ++ errorLines l e, a.date = b.date

instance (l : Logger) : Decidable (OneDay l) :=
  inferInstanceAs (Decidable (∀ e ∈ entries l.logFiles, e.fileName.isSome →
    ∀ a ∈ commonLines l e ++ errorLines l e, ∀ b ∈ commonLines l e ++ errorLines l e, a.date = b.date))

/-- Both files of the entry were rotated: what was in them is in the files named by the date, and
    what is in them is of the date. -/
structure Rotated (l : Logger) (e : LogFileEntry) (date : Date) (l' : Logger) : Prop where
  common : l'.lines (.file (path (printString e.fileName) (printString e.fileExtension) .common (some date))) = commonLines l e
  error : l'.lines (.file (path (printString e.fileName) (printString e.fileExtension) .error (some date))) = errorLines l e
  current : ∀ a ∈ commonLines l' e ++ errorLines l' e, a.date = date

/-- The entry of a call has lines of another date in its current file. -/
def Outdated (l : Logger) (call : Call) (e : LogFileEntry) : Prop :=
  logFileHashTableFind l.logFiles (destToUse l call.logDestination) = some e ∧ e.fileName.isSome ∧
    ∃ a ∈ commonLines l e, a.date ≠ call.now.date

/-- Before a line is written to an entry on another date than the line before, the files of the
    entry are rotated, so that no file has lines of two dates. -/
structure Shifted (l : Logger) (call : Call) (l' : Logger) : Prop where
  rotated : Fits l call → ∀ e, Outdated l call e → Rotated l e call.now.date l'
  oneDay : OneDay l'

/-- A call that writes a line to an entry with lines of another date is the first one of
    the logger on its date. -/
def FirstOfDay (l : Logger) (call : Call) : Prop := Fits l call → ∀ e, Outdated l call e → l.date ≠ call.now.date

/-- Where there is an entry for the line, its header leaves the buffer only when the time stamp is refused. -/
def Printable (l : Logger) (call : Call) : Prop :=
  (entryFor l (destToUse l call.logDestination) true).2.toBool = true → call.now.stamp.length ≠ 0 →
    call.now.stamp.length < bufferLength → (call.now.stamp ++ lineHeader l call).length ≤ bufferLength

/-- Destinations that leave their place in the buffers for file names. -/
def Short (_ : Logger) (call : Call) : Prop := ∀ destination, call.logDestination = some destination → destination.length < 4000

/-- An entry with two files, open at their paths. -/
structure IsFile (l : Logger) (e : LogFileEntry) (name extension : Text) : Prop where
  parts : Parts name extension
  fullName : e.fullName = dotted name extension
  fileName : e.fileName = some name
  fileExtension : e.fileExtension = some extension
  common : l.commonFd e.address = some (.file (path name extension .common none))
  error : l.errorFd e.address = some (.file (path name extension .error none))

/-- The entry of the console has no files. -/
structure IsConsole (l : Logger) (e : LogFileEntry) : Prop where
  fileName : e.fileName = none
  common : isLogFile (l.commonFd e.address) = false
  error : isLogFile (l.errorFd e.address) = false

/-- The lines of the current files with these parts of a name are of one date, and those of the error
    file are in the common file too. -/
structure DayOf (lines : Stream → List Line) (name extension : Text) : Prop where
  covered : ∀ a ∈ lines (.file (path name extension .error none)), a ∈ lines (.file (path name extension .common none))
  oneDate : ∀ a ∈ lines (.file (path name extension .common none)),
    ∀ b ∈ lines (.file (path name extension .common none)), a.date = b.date

/-- What calls keep while each is the first of its day where it must be. -/
structure Filed (l : Logger) : Prop extends Inv (fun _ => none) l where
  driver : l.driver = .dualFile
  shapes : ∀ e ∈ entries l.logFiles, IsConsole l e ∨ ∃ name extension, IsFile l e name extension
  days : ∀ name extension, Parts name extension → DayOf l.lines name extension
  fresh : ∀ name extension kind, Parts name extension → (∀ e ∈ entries l.logFiles, e.fullName ≠ dotted name extension) →
    l.lines (.file (path name extension kind none)) = []

section
variable {l l' : Logger} {e : LogFileEntry} {call : Call} {name extension : Text}

/-- An entry keeps its two files where its streams are the same. -/
theorem isFile_of_streams {m : Logger} (file : IsFile l e name extension)
    (common : m.commonFd e.address = l.commonFd e.address) (error : m.errorFd e.address = l.errorFd e.address) :
    IsFile m e name extension :=
  ⟨file.parts, file.fullName, file.fileName, file.fileExtension, common.trans file.common, error.trans file.error⟩

/-- So does an entry of either kind. -/
theorem shape_of_streams {m : Logger} (shape : IsConsole l e ∨ ∃ name extension, IsFile l e name extension)
    (common : m.commonFd e.address = l.commonFd e.address) (error : m.errorFd e.address = l.errorFd e.address) :
    IsConsole m e ∨ ∃ name extension, IsFile m e name extension := by
  rcases shape with console | ⟨name, extension, file⟩
  · left
    refine ⟨console.fileName, ?_, ?_⟩
    · rw [common]
      exact console.common
    · rw [error]
      exact console.error
  · exact .inr ⟨name, extension, isFile_of_streams file common error⟩

/-- Whether the lines of the current files are of one date depends on these lines only. -/
theorem dayOf_congr {lines lines' : Stream → List Line} (day : DayOf lines name extension)
    (same : ∀ kind, lines' (.file (path name extension kind none)) = lines (.file (path name extension kind none))) :
    DayOf lines' name extension := by
  constructor
  · rw [same .common, same .error]
    exact day.covered
  · rw [same .common]
    exact day.oneDate

theorem commonLines_file (file : IsFile l e name extension) :
    commonLines l e = l.lines (.file (path name extension .common none)) := by
  rw [commonLines, linesOf, file.common]
  rfl

theorem errorLines_file (file : IsFile l e name extension) :
    errorLines l e = l.lines (.file (path name extension .error none)) := by
  rw [errorLines, linesOf, file.error]
  rfl

/-- An entry with a file name is one with two files. -/
theorem filed_file (filed : Filed l) (member : e ∈ entries l.logFiles) (named : e.fileName.isSome) :
    ∃ name extension, IsFile l e name extension := by
  rcases filed.shapes e member with console | file
  · rw [console.fileName] at named
    cases named
  · exact file

theorem filed_oneDay (filed : Filed l) : OneDay l := by
  intro e member named a inA b inB
  obtain ⟨name, extension, file⟩ := filed_file filed member named
  have day := filed.days name extension file.parts
  rw [commonLines_file file, errorLines_file file] at inA inB
  have inCommon : ∀ c ∈ l.lines (.file (path name extension .common none)) ++ l.lines (.file (path name extension .error none)),
      c ∈ l.lines (.file (path name extension .common none)) := by
    intro c there
    rcases List.mem_append.mp there with common | error
    · exact common
    · exact day.covered c error
  exact day.oneDate a (inCommon a inA) b (inCommon b inB)

/-- Other lines and another date leave the entries what they are. -/
theorem filed_lines {lines : Stream → List Line} {date : Date} (filed : Filed l)
    (days : ∀ name extension, Parts name extension → DayOf lines name extension)
    (fresh : ∀ name extension kind, Parts name extension → (∀ e ∈ entries l.logFiles, e.fullName ≠ dotted name extension) →
      lines (.file (path name extension kind none)) = []) : Filed { l with lines := lines, date := date } := by
  have framed : Framed l { l with lines := lines, date := date } := ⟨rfl, rfl, rfl, rfl, rfl, rfl, fun _ before => before⟩
  refine ⟨inv_framed filed.toInv framed, filed.driver, fun e member => ?_, days, fresh⟩
  exact shape_of_streams (filed.shapes e member) rfl rfl

theorem rotateCommon_file (file : IsFile l e name extension) (now : Moment) : rotateCommon l e (lit "_Common") now =
    { l with lines := (fileLogRotate l name Kind.common.specifier extension now).1.lines } := by
  obtain ⟨_, _, stream⟩ := rotate_own l .common file.parts now
  have same : Function.update l.commonFd e.address (some (.file (path name extension .common none))) = l.commonFd := by
    rw [← file.common]
    exact Function.update_eq_self ..
  rw [rotateCommon, file.common, file.fileName, file.fileExtension]
  change { (fileLogRotate l name Kind.common.specifier extension now).1 with
    commonFd := Function.update l.commonFd e.address (some (fileLogRotate l name Kind.common.specifier extension now).2) } = _
  rw [stream, same]
  rfl

theorem rotateError_file (file : IsFile l e name extension) (now : Moment) : rotateError l e (lit "_Error") now =
    { l with lines := (fileLogRotate l name Kind.error.specifier extension now).1.lines } := by
  obtain ⟨_, _, stream⟩ := rotate_own l .error file.parts now
  have same : Function.update l.errorFd e.address (some (.file (path name extension .error none))) = l.errorFd := by
    rw [← file.error]
    exact Function.update_eq_self ..
  rw [rotateError, file.error, file.fileName, file.fileExtension]
  change { (fileLogRotate l name Kind.error.specifier extension now).1 with
    errorFd := Function.update l.errorFd e.address (some (fileLogRotate l name Kind.error.specifier extension now).2) } = _
  rw [stream, same]
  rfl

/-- What the rotation of both files of an entry does to the lines. -/
structure Turned (l r : Logger) (name extension : Text) (now : Moment) : Prop where
  shape : r = { l with lines := r.lines, date := now.date }
  cleared : ∀ kind, r.lines (.file (path name extension kind none)) = []
  moved : ∀ kind, r.lines (.file (path name extension kind (some now.date))) = l.lines (.file (path name extension kind none))
  others : ∀ name' extension' kind date, Parts name' extension' → ¬ (name' = name ∧ extension' = extension) →
    r.lines (.file (path name' extension' kind date)) = l.lines (.file (path name' extension' kind date))

theorem same_date (now : Moment) (l : Logger) : strcmp now.date.text l.date.text = 0 ↔ l.date = now.date := by
  rw [strcmp_eq_zero]
  constructor
  · intro texts
    cases date : l.date
    cases today : now.date
    rw [date, today] at texts
    cases texts
    rfl
  · rintro same
    rw [same]

theorem rotated_same (l : Logger) (e : LogFileEntry) {now : Moment} (today : l.date = now.date) : dualFileRotated l e now = l := by
  rw [dualFileRotated, if_neg (not_not.mpr ((same_date now l).mpr today))]

theorem rotated_file (file : IsFile l e name extension) {now : Moment} (newDay : l.date ≠ now.date) :
    Turned l (dualFileRotated l e now) name extension now := by
  have first := rotateCommon_file file now
  have later : IsFile { l with lines := (fileLogRotate l name Kind.common.specifier extension now).1.lines } e name extension :=
    isFile_of_streams file rfl rfl
  obtain ⟨commonCleared, commonMoved, _⟩ := rotate_own l .common file.parts now
  obtain ⟨errorCleared, errorMoved, _⟩ :=
    rotate_own { l with lines := (fileLogRotate l name Kind.common.specifier extension now).1.lines } .error
      file.parts now
  have result : dualFileRotated l e now = { l with
      date := now.date
      lines := (fileLogRotate { l with lines := (fileLogRotate l name Kind.common.specifier extension now).1.lines } name
        Kind.error.specifier extension now).1.lines } := by
    rw [dualFileRotated, if_pos (fun same => newDay ((same_date now l).mp same)), first, rotateError_file later now]
  have commonKept : ∀ date, (fileLogRotate { l with lines := (fileLogRotate l name Kind.common.specifier extension now).1.lines } name
      Kind.error.specifier extension now).1.lines (.file (path name extension .common date)) =
      (fileLogRotate l name Kind.common.specifier extension now).1.lines (.file (path name extension .common date)) :=
    fun date => rotate_other file.parts file.parts now date (by simp)
  have errorKept : (fileLogRotate l name Kind.common.specifier extension now).1.lines (.file (path name extension .error none)) =
      l.lines (.file (path name extension .error none)) := rotate_other file.parts file.parts now none (by simp)
  rw [result]
  refine ⟨rfl, fun kind => ?_, fun kind => ?_, fun name' extension' kind date parts' differs => ?_⟩
  · cases kind with
    | common => exact (commonKept none).trans commonCleared
    | error => exact errorCleared
  · cases kind with
    | common => exact (commonKept (some now.date)).trans commonMoved
    | error => exact errorMoved.trans errorKept
  · refine (rotate_other file.parts parts' now date fun same => differs ⟨same.1, same.2.1⟩).trans ?_
    exact rotate_other file.parts parts' now date fun same => differs ⟨same.1, same.2.1⟩

theorem rotated_console (console : IsConsole l e) {now : Moment} (newDay : l.date ≠ now.date) :
    dualFileRotated l e now = { l with date := now.date } := by
  have first : rotateCommon l e (lit "_Common") now = l := by
    rw [rotateCommon, console.common]
    rfl
  have second : rotateError l e (lit "_Error") now = l := by
    rw [rotateError, console.error]
    rfl
  rw [dualFileRotated, if_pos (fun same => newDay ((same_date now l).mp same)), first, second]

/-- A call on any entry leaves the lines of each file of one date, rotating it or not. -/
theorem filed_rotated (filed : Filed l) (member : e ∈ entries l.logFiles) (now : Moment) : Filed (dualFileRotated l e now) := by
  by_cases today : l.date = now.date
  · rw [rotated_same l e today]
    exact filed
  · rcases filed.shapes e member with console | ⟨name, extension, file⟩
    · rw [rotated_console console today]
      exact filed_lines filed filed.days filed.fresh
    · have turned := rotated_file file today
      rw [turned.shape]
      refine filed_lines filed (fun name' extension' parts' => ?_) fun name' extension' kind parts' free => ?_
      · by_cases same : name' = name ∧ extension' = extension
        · obtain ⟨rfl, rfl⟩ := same
          constructor
          · rw [turned.cleared]
            simp
          · rw [turned.cleared]
            simp
        · refine dayOf_congr (filed.days name' extension' parts') fun kind => ?_
          exact turned.others name' extension' kind none parts' same
      · have same : ¬ (name' = name ∧ extension' = extension) := by
          rintro ⟨rfl, rfl⟩
          exact free e member file.fullName
        rw [turned.others name' extension' kind none parts' same]
        exact filed.fresh name' extension' kind parts' free

/-- What the writes of a line do to the lines of files. -/
structure Written (l w : Logger) (name extension : Text) (line : Line) : Prop where
  shape : w = { l with lines := w.lines }
  common : w.lines (.file (path name extension .common none)) = l.lines (.file (path name extension .common none)) ++ [line]
  error : ∀ a ∈ w.lines (.file (path name extension .error none)),
    a ∈ l.lines (.file (path name extension .error none)) ∨ a = line
  others : ∀ p, (∀ kind, p ≠ path name extension kind none) → w.lines (.file p) = l.lines (.file p)

theorem written_file (file : IsFile l e name extension) (call : Call) (line : Line) :
    Written l (dualFileWritten l e call line) name extension line := by
  have apart : Stream.file (path name extension .error none) ≠ Stream.file (path name extension .common none) := by
    intro same
    cases (path_inj file.parts file.parts (Stream.file.inj same)).2.2.1
  -- The error file has the line or not; the common file gets it after that.
  have writes : ∀ lines : Stream → List Line,
      lines (.file (path name extension .common none)) = l.lines (.file (path name extension .common none)) →
      (∀ a ∈ lines (.file (path name extension .error none)), a ∈ l.lines (.file (path name extension .error none)) ∨ a = line) →
      (∀ p, (∀ kind, p ≠ path name extension kind none) → lines (.file p) = l.lines (.file p)) →
      Written l (fileLogWrite { l with lines := lines } (l.commonFd e.address) line) name extension line := by
    intro lines common error others
    rw [file.common]
    refine ⟨rfl, ?_, fun a member => ?_, fun p differs => ?_⟩
    · refine (Function.update_self ..).trans ?_
      change lines (.file (path name extension .common none)) ++ [line] = _
      rw [common]
    · have kept := Function.update_of_ne apart (lines (.file (path name extension .common none)) ++ [line]) lines
      exact error a (kept ▸ member)
    · exact (Function.update_of_ne (fun same => differs .common (Stream.file.inj same)) ..).trans (others p differs)
  have plain := writes l.lines rfl (fun _ => .inl) fun _ _ => rfl
  have both := writes (Function.update l.lines (.file (path name extension .error none))
      (l.lines (.file (path name extension .error none)) ++ [line]))
    (Function.update_of_ne apart.symm ..)
    (fun a member => by
      rw [Function.update_self] at member
      simpa using member)
    (fun p differs => Function.update_of_ne (fun same => differs .error (Stream.file.inj same)) ..)
  unfold dualFileWritten
  rw [file.error]
  cases call.logLevel with
  | critical => exact both
  | error => exact both
  | warning => exact both
  | none => exact plain
  | info => exact plain
  | debug => exact plain
  | trace => exact plain

/-- The console's lines are in no file. -/
theorem written_console (console : IsConsole l e) (call : Call) (line : Line) :
    ∃ lines, dualFileWritten l e call line = { l with lines := lines } ∧ ∀ p, lines (.file p) = l.lines (.file p) := by
  have writes : ∀ (m : Logger) (fd : Option Stream), isLogFile fd = false →
      ∃ lines, fileLogWrite m fd line = { m with lines := lines } ∧ ∀ p, lines (.file p) = m.lines (.file p) := by
    intro m fd off
    cases fd with
    | none => exact ⟨m.lines, rfl, fun _ => rfl⟩
    | some fd =>
      refine ⟨_, rfl, fun p => Function.update_of_ne ?_ ..⟩
      rintro rfl
      cases off
  unfold dualFileWritten
  split
  all_goals first
    | obtain ⟨lines, first, same⟩ := writes l (l.errorFd e.address) console.error
      obtain ⟨more, second, again⟩ := writes { l with lines := lines } (l.commonFd e.address) console.common
      exact ⟨more, by rw [first]; exact second, fun p => (again p).trans (same p)⟩
    | exact writes l _ console.common

/-- A line keeps the files of one date when those of its entry have lines of its date only. -/
theorem filed_written (filed : Filed l) (member : e ∈ entries l.logFiles) (call : Call) (line : Line)
    (current : ∀ name extension, IsFile l e name extension →
      ∀ a ∈ l.lines (.file (path name extension .common none)), a.date = line.date) :
    Filed (dualFileWritten l e call line) := by
  rcases filed.shapes e member with console | ⟨name, extension, file⟩
  · obtain ⟨lines, result, same⟩ := written_console console call line
    rw [result]
    refine filed_lines filed (fun name extension parts => ?_) fun name extension kind parts free => ?_
    · exact dayOf_congr (filed.days name extension parts) fun _ => same _
    · rw [same]
      exact filed.fresh name extension kind parts free
  · have written := written_file file call line
    have others : ∀ name' extension' kind, Parts name' extension' → ¬ (name' = name ∧ extension' = extension) →
        (dualFileWritten l e call line).lines (.file (path name' extension' kind none)) =
          l.lines (.file (path name' extension' kind none)) := by
      intro name' extension' kind parts' differs
      exact written.others _ fun _ => path_ne parts' file.parts fun same => differs ⟨same.1, same.2.1⟩
    rw [written.shape]
    refine filed_lines filed (fun name' extension' parts' => ?_) fun name' extension' kind parts' free => ?_
    · have day := filed.days name' extension' parts'
      by_cases same : name' = name ∧ extension' = extension
      · obtain ⟨rfl, rfl⟩ := same
        have fits := current name' extension' file
        constructor
        · intro a there
          rw [written.common]
          rcases written.error a there with before | rfl
          · exact List.mem_append_left _ (day.covered a before)
          · simp
        · rw [written.common]
          have dated : ∀ a ∈ l.lines (.file (path name' extension' .common none)) ++ [line], a.date = line.date := by
            intro a there
            rcases List.mem_append.mp there with before | new
            · exact fits a before
            · rw [List.mem_singleton.mp new]
          exact fun a inA b inB => (dated a inA).trans (dated b inB).symm
      · exact dayOf_congr day fun kind => others name' extension' kind parts' same
    · rw [others _ _ kind parts' (by rintro ⟨rfl, rfl⟩; exact free e member file.fullName)]
      exact filed.fresh name' extension' kind parts' free

/-- A new entry leaves the streams of the others. -/
theorem shape_kept {m : Logger} {f : LogFileEntry} {key : Text} (created : Created l key m e) (older : f.address < l.unused)
    (shape : IsConsole l f ∨ ∃ name extension, IsFile l f name extension) :
    IsConsole m f ∨ ∃ name extension, IsFile m f name extension := by
  obtain ⟨common, error⟩ := created.others f.address (by omega)
  exact shape_of_streams shape common error

theorem splitName_parts {key : Text} (short : key.length < 4000 ∨ (46 : UInt8) ∈ key ∧ key.length < 4005) :
    Parts (splitName key).1 (splitName key).2 := by
  cases split : strrchr key 46 with
  | none =>
    have room := short.resolve_right fun dotted => strrchr_eq_none.mp split dotted.1
    have splits : splitName key = (key, filelogDefaultExtension) := by rw [splitName, split]
    have extension : filelogDefaultExtension.length = 3 := rfl
    rw [splits]
    refine ⟨show (46 : UInt8) ∉ filelogDefaultExtension by decide, ?_⟩
    change key.length + filelogDefaultExtension.length < 4005
    rw [extension]
    omega
  | some parts =>
    obtain ⟨before, extension⟩ := parts
    have splits : splitName key = (before, extension) := by rw [splitName, split]
    obtain ⟨rfl, dotless⟩ := strrchr_eq_some.mp split
    rw [List.length_append, List.length_cons] at short
    rw [splits]
    refine ⟨dotless, ?_⟩
    change before.length + extension.length < 4005
    omega

theorem created_shape {m : Logger} {key : Text} (created : Created l key m e)
    (short : strcaseEq key logDestinationConsole = true ∨ key.length < 4000 ∨ (46 : UInt8) ∈ key ∧ key.length < 4005) :
    IsConsole m e ∨ ∃ name extension, IsFile m e name extension := by
  by_cases console : strcaseEq key logDestinationConsole = true
  · obtain ⟨unnamed, common, error⟩ := created.console console
    exact .inl ⟨unnamed, by rw [created.address]; exact common, by rw [created.address]; exact error⟩
  · obtain ⟨fileName, fileExtension, common, error⟩ := created.file console
    have parts := splitName_parts (short.resolve_left console)
    have whole : e.fullName = dotted (splitName key).1 (splitName key).2 := by
      have room := parts.short
      rw [created.fullName, createdName, if_neg console]
      refine List.take_of_length_le ?_
      rw [dotted, List.length_append, List.length_cons, maxFilenameLength]
      omega
    exact .inr ⟨_, _, parts, whole, fileName, fileExtension, by rw [created.address]; exact common,
      by rw [created.address]; exact error⟩

/-- What `entryFor` leaves: the logger with its files of one date each, and an entry that is the one
    found or has no lines yet. -/
theorem filed_entryFor {m : Logger} {result : Except Err.Error LogFileEntry} (filed : Filed l) (short : Short l call)
    (entry : entryFor l (destToUse l call.logDestination) true = (m, result)) :
    Filed m ∧ m.date = l.date ∧ m.applicationName = l.applicationName ∧ m.logFormat = l.logFormat ∧
      ∀ e, result = .ok e → e ∈ entries m.logFiles ∧
        (logFileHashTableFind l.logFiles (destToUse l call.logDestination) = some e ∧ m = l ∨
          logFileHashTableFind l.logFiles (destToUse l call.logDestination) = none ∧
            ∀ name extension, IsFile m e name extension → m.lines (.file (path name extension .common none)) = []) := by
  rcases entryFor_cases filed.stands (destToUse l call.logDestination) true with
    ⟨e, found, is⟩ | ⟨missing, _, m', e, error, is, created⟩ | ⟨missing, free, m', e, made, is, created, stands, all, shape⟩
  · cases is.symm.trans entry
    refine ⟨filed, rfl, rfl, rfl, fun f same => ?_⟩
    cases same
    exact ⟨((find_iff filed.stands).mp found).1, .inl ⟨found, rfl⟩⟩
  · cases is.symm.trans entry
    refine ⟨⟨inv_refused filed.toInv created, created.driver.trans filed.driver, fun f member => ?_, ?_, ?_⟩, created.date,
      created.applicationName, created.logFormat, fun f same => by cases same⟩
    · have before : f ∈ entries l.logFiles := created.logFiles ▸ member
      exact shape_of_streams (shape_kept created (filed.opened f before).1 (filed.shapes f before)) rfl rfl
    · exact created.lines ▸ filed.days
    · change ∀ name extension kind, Parts name extension →
        (∀ e ∈ entries m'.logFiles, e.fullName ≠ dotted name extension) → m'.lines _ = []
      rw [created.logFiles, created.lines]
      exact filed.fresh
  · cases is.symm.trans entry
    have named : strcaseEq (destToUse l call.logDestination) logDestinationConsole = true ∨
        (destToUse l call.logDestination).length < 4000 ∨
        (46 : UInt8) ∈ destToUse l call.logDestination ∧ (destToUse l call.logDestination).length < 4005 := by
      rcases destToUse_cases (l := l) short with standard | dot | ⟨name, _, same, console⟩
      · obtain ⟨f, there, own⟩ := filed.standard
        exact absurd (own.trans standard.symm) ((find_none filed.stands).mp missing f there)
      · exact .inr (.inr dot)
      · exact .inl (same ▸ console)
    have lines : m.lines = l.lines := by rw [shape]; exact created.lines
    have shapeOf : ∀ f, (IsConsole made f ∨ ∃ name extension, IsFile made f name extension) →
        IsConsole m f ∨ ∃ name extension, IsFile m f name extension := by
      intro f before
      exact shape_of_streams before (by rw [shape]) (by rw [shape])
    have own := shapeOf e (created_shape created named)
    refine ⟨⟨inv_made filed.toInv created stands all shape, ?_, fun f member => ?_, ?_, ?_⟩, ?_, ?_, ?_, fun f same => ?_⟩
    · rw [shape]; exact created.driver.trans filed.driver
    · rcases List.mem_cons.mp (all.mem_iff.mp member) with rfl | before
      · exact own
      · exact shapeOf f (shape_kept created (filed.opened f before).1 (filed.shapes f before))
    · rw [lines]; exact filed.days
    · intro name extension kind parts apart
      rw [lines]
      exact filed.fresh name extension kind parts fun f before => apart f (all.mem_iff.mpr (List.mem_cons_of_mem _ before))
    · rw [shape]; exact created.date
    · rw [shape]; exact created.applicationName
    · rw [shape]; exact created.logFormat
    · cases same
      refine ⟨all.mem_iff.mpr List.mem_cons_self, .inr ⟨missing, fun name extension file => ?_⟩⟩
      rw [lines]
      exact filed.fresh name extension .common file.parts fun f before same =>
        free f before (same.trans (file.fullName.symm.trans created.fullName))

/-- What a call can do: refuse, fail to build its line, or write it. -/
theorem step_cases (filed : Filed l) (short : Short l call) (stepped : step l call = some l') :
    (∃ error, entryFor l (destToUse l call.logDestination) true = (l', .error error)) ∨
    ∃ m e, entryFor l (destToUse l call.logDestination) true = (m, .ok e) ∧
      (¬ Fits l call ∧ l' = dualFileRotated m e call.now ∨
        ∃ text, Fits l call ∧ l' = dualFileWritten (dualFileRotated m e call.now) e call ⟨call.now.date, text⟩) := by
  obtain ⟨⟨after, returned⟩, ran, rfl⟩ := Option.map_eq_some_iff.mp stepped
  rw [logLogText, filed.driver] at ran
  simp only [dualFileLogText, logTextWith] at ran
  cases entry : entryFor l (destToUse l call.logDestination) true with
  | mk m result =>
    rw [entry] at ran
    obtain ⟨_, _, application, format, _⟩ := filed_entryFor filed short entry
    cases result with
    | error error =>
      cases ran
      exact .inl ⟨error, rfl⟩
    | ok e =>
      have turned := framed_dualFileRotated m e call.now
      have sameLine := buildLine_congr (turned.applicationName.trans application) (turned.logFormat.trans format) call
      refine .inr ⟨m, e, rfl, ?_⟩
      simp only [sameLine] at ran
      obtain ⟨built, line, result⟩ := Option.map_eq_some_iff.mp ran
      cases built with
      | error error =>
        cases result
        refine .inl ⟨fun fits => ?_, rfl⟩
        obtain ⟨text, ok⟩ := (buildLine_iff l call).mpr fits
        cases ok.symm.trans line
      | ok text =>
        cases result
        exact .inr ⟨text, (buildLine_iff l call).mp ⟨text, line⟩, rfl⟩

/-- An entry that is found is the one that is used. -/
theorem entryFor_found {m : Logger} {result : Except Err.Error LogFileEntry} {key : Text}
    (found : logFileHashTableFind l.logFiles key = some e) (entry : entryFor l key true = (m, result)) : m = l ∧ result = .ok e := by
  rw [entryFor, found] at entry
  cases entry
  exact ⟨rfl, rfl⟩

/-- An entry that is used first on a new day gets its line after both of its files are rotated. -/
theorem rotated_written (file : IsFile l e name extension) (newDay : l.date ≠ call.now.date) (text : Text) :
    Rotated l e call.now.date (dualFileWritten (dualFileRotated l e call.now) e call ⟨call.now.date, text⟩) := by
  have moved := rotated_file file newDay
  have afterFile : IsFile (dualFileRotated l e call.now) e name extension := by
    rw [moved.shape]
    exact isFile_of_streams file rfl rfl
  have written := written_file afterFile call ⟨call.now.date, text⟩
  have lastFile : IsFile (dualFileWritten (dualFileRotated l e call.now) e call ⟨call.now.date, text⟩) e name extension := by
    rw [written.shape]
    exact isFile_of_streams afterFile rfl rfl
  have dated : ∀ kind, (dualFileWritten (dualFileRotated l e call.now) e call ⟨call.now.date, text⟩).lines
      (.file (path name extension kind (some call.now.date))) = l.lines (.file (path name extension kind none)) := by
    intro kind
    refine (written.others _ fun other => path_ne file.parts file.parts (by simp)).trans (moved.moved kind)
  constructor
  · rw [file.fileName, file.fileExtension, commonLines_file file]
    exact dated .common
  · rw [file.fileName, file.fileExtension, errorLines_file file]
    exact dated .error
  · intro a inA
    rw [commonLines_file lastFile, errorLines_file lastFile, written.common, moved.cleared, List.nil_append] at inA
    rcases List.mem_append.mp inA with common | error
    · rw [List.mem_singleton.mp common]
    · rcases written.error a error with before | rfl
      · rw [moved.cleared] at before
        cases before
      · rfl

/-- After the rotation for a call, the common file of its entry has lines of its date only, unless
    there were others and the date was saved already. -/
theorem current_rotated {now : Moment} (filed : Filed l) (member : e ∈ entries l.logFiles)
    (clean : l.date = now.date → ∀ name extension, IsFile l e name extension →
      ∀ a ∈ l.lines (.file (path name extension .common none)), a.date = now.date)
    (after : IsFile (dualFileRotated l e now) e name extension) :
    ∀ a ∈ (dualFileRotated l e now).lines (.file (path name extension .common none)), a.date = now.date := by
  intro a inA
  rcases filed.shapes e member with console | ⟨name', extension', file⟩
  · cases console.fileName.symm.trans after.fileName
  · cases file.fileName.symm.trans after.fileName
    cases file.fileExtension.symm.trans after.fileExtension
    by_cases today : l.date = now.date
    · rw [rotated_same l e today] at inA
      exact clean today name extension file a inA
    · rw [(rotated_file file today).cleared] at inA
      cases inA

/-- A call that is the first of the day where it must be keeps all files of one date. -/
theorem step_filed (filed : Filed l) (short : Short l call) (first : FirstOfDay l call) (stepped : step l call = some l') :
    Filed l' ∧ Shifted l call l' := by
  rcases step_cases filed short stepped with ⟨error, entry⟩ | ⟨m, e, entry, ⟨unfit, rfl⟩ | ⟨text, fits, rfl⟩⟩
  · have kept := (filed_entryFor filed short entry).1
    refine ⟨kept, fun _ f outdated => ?_, filed_oneDay kept⟩
    cases (entryFor_found outdated.1 entry).2
  · obtain ⟨kept, _, _, _, used⟩ := filed_entryFor filed short entry
    have after := filed_rotated kept (used e rfl).1 call.now
    exact ⟨after, fun fits => absurd fits unfit, filed_oneDay after⟩
  · obtain ⟨kept, date, _, _, used⟩ := filed_entryFor filed short entry
    obtain ⟨member, origin⟩ := used e rfl
    have there : e ∈ entries (dualFileRotated m e call.now).logFiles := by
      rw [(framed_dualFileRotated m e call.now).logFiles]
      exact member
    have clean : m.date = call.now.date → ∀ name extension, IsFile m e name extension →
        ∀ a ∈ m.lines (.file (path name extension .common none)), a.date = call.now.date := by
      intro today name extension file a inA
      rcases origin with ⟨found, rfl⟩ | ⟨_, fresh⟩
      · by_contra foreign
        exact first fits e ⟨found, by rw [file.fileName]; rfl, a, by rw [commonLines_file file]; exact inA, foreign⟩ today
      · rw [fresh name extension file] at inA
        cases inA
    have after := filed_written (filed_rotated kept member call.now) there call ⟨call.now.date, text⟩
      fun _ _ => current_rotated kept member clean
    refine ⟨after, fun _ f outdated => ?_, filed_oneDay after⟩
    obtain ⟨rfl, same⟩ := entryFor_found outdated.1 entry
    cases same
    obtain ⟨name, extension, file⟩ := filed_file filed member outdated.2.1
    exact rotated_written file (first fits e outdated) text

/-- A call that writes to an entry of another day when the date is saved already mixes two days. -/
theorem step_mixes (filed : Filed l) (short : Short l call) (late : ¬ FirstOfDay l call) (stepped : step l call = some l') :
    ¬ Shifted l call l' := by
  simp only [FirstOfDay, not_forall, not_not] at late
  obtain ⟨fits, e, ⟨found, named, a, inA, foreign⟩, saved⟩ := late
  intro shifted
  rcases step_cases filed short stepped with ⟨error, entry⟩ | ⟨m, f, entry, ⟨unfit, _⟩ | ⟨text, _, rfl⟩⟩
  · cases (entryFor_found found entry).2
  · exact unfit fits
  · obtain ⟨rfl, same⟩ := entryFor_found found entry
    cases same
    have member := ((find_iff filed.stands).mp found).1
    obtain ⟨name, extension, file⟩ := filed_file filed member named
    rw [rotated_same m e saved] at shifted
    have written := written_file file call ⟨call.now.date, text⟩
    have afterFile : IsFile (dualFileWritten m e call ⟨call.now.date, text⟩) e name extension := by
      rw [written.shape]
      exact isFile_of_streams file rfl rfl
    have still : e ∈ entries (dualFileWritten m e call ⟨call.now.date, text⟩).logFiles := by
      rw [written.shape]
      exact member
    have lines : commonLines (dualFileWritten m e call ⟨call.now.date, text⟩) e =
        m.lines (.file (path name extension .common none)) ++ [⟨call.now.date, text⟩] := by
      rw [commonLines_file afterFile, written.common]
    rw [commonLines_file file] at inA
    refine foreign (shifted.oneDay e still named a ?_ ⟨call.now.date, text⟩ ?_)
    · rw [lines]
      simp [inA]
    · rw [lines]
      simp

theorem create_filed (appName : Text) {args : Option Text} (short : ∀ name, args = some name → name.length < 4000) (today : Date) :
    Filed (logCreate appName .dualFile args today) := by
  obtain ⟨m, e, after, created, kept, only, shape⟩ := createWith_shape .dualFile true appName args today
  have named : strcaseEq (args.getD logDestinationConsole) logDestinationConsole = true ∨
      (args.getD logDestinationConsole).length < 4000 ∨
      (46 : UInt8) ∈ args.getD logDestinationConsole ∧ (args.getD logDestinationConsole).length < 4005 := by
    cases args with
    | none => exact .inl (by decide)
    | some name => exact .inr (.inl (short name rfl))
  have result : logCreate appName .dualFile args today =
      { m with logFileFullName := e.fullName, logFiles := after, unused := m.unused + 1 } := shape
  have empty : ∀ fd, m.lines fd = [] := fun fd => congrFun created.lines fd
  refine ⟨create_inv appName .dualFile args today, ?_, fun f member => ?_, fun name extension _ => ?_, fun name extension kind _ _ => ?_⟩
  · rw [result]; exact created.driver
  · rw [result] at member ⊢
    cases (only f).mp member
    exact shape_of_streams (created_shape created named) rfl rfl
  · rw [result]
    exact ⟨by simp [empty], by simp [empty]⟩
  · rw [result]
    exact empty _

/-- A call goes on just when its line can be printed. -/
theorem step_isSome_iff (filed : Filed l) (short : Short l call) : (step l call).isSome ↔ Printable l call := by
  rw [step, Option.isSome_map, logLogText, filed.driver, Printable]
  simp only [dualFileLogText, logTextWith]
  cases entry : entryFor l (destToUse l call.logDestination) true with
  | mk m result =>
    obtain ⟨_, _, application, format, _⟩ := filed_entryFor filed short entry
    cases result with
    | error error => simp [Except.toBool]
    | ok e =>
      have turned := framed_dualFileRotated m e call.now
      have sameLine := buildLine_congr (turned.applicationName.trans application) (turned.logFormat.trans format) call
      simp only [sameLine, Option.isSome_map]
      simp only [fileLogBuildLine, Except.toBool, true_imp_iff]
      by_cases refused : call.now.stamp.length = 0 ∨ bufferLength ≤ call.now.stamp.length
      · rw [if_pos refused]
        refine iff_of_true rfl fun some shorter => ?_
        omega
      · obtain ⟨some, shorter⟩ := not_or.mp refused
        rw [if_neg refused]
        by_cases room : (call.now.stamp ++ lineHeader l call).length ≤ bufferLength
        · rw [if_pos room]
          exact iff_of_true rfl fun _ _ => room
        · rw [if_neg room]
          exact iff_of_false (by simp) fun fits => room (fits some (Nat.not_le.mp shorter))

end

/-- For a dual-file logger and any sequence of calls, whenever a line is written to an entry on
    another date than the line before, both files of the entry are rotated first and no file
    has lines of two dates, exactly when no line leaves its buffer and each such call is the
    first one of the logger on its date. -/
theorem rotated_iff (applicationName : Text) {driverArguments : Option Text} (today : Date) {calls : List Call}
    (name : ∀ name, driverArguments = some name → name.length < 4000)
    (short : ∀ call ∈ calls, ∀ destination, call.logDestination = some destination → destination.length < 4000) :
    Meets step Shifted (logCreate applicationName .dualFile driverArguments today) calls ↔
      Guarded step (fun l call => Printable l call ∧ FirstOfDay l call)
        (logCreate applicationName .dualFile driverArguments today) calls := by
  have room : ∀ call ∈ calls, ∀ m, Short m call := fun call member _ => short call member
  refine meets_iff_total (fun l call filed short allowed => ?_) (fun l call l' filed short forbidden stepped shifted => ?_)
    (create_filed applicationName name today) (guarded_forall room)
  · obtain ⟨l', stepped⟩ := Option.isSome_iff_exists.mp ((step_isSome_iff filed short).mpr allowed.1)
    exact ⟨l', stepped, step_filed filed short allowed.2 stepped⟩
  · have printable := (step_isSome_iff filed short).mp (by rw [stepped]; rfl)
    exact step_mixes filed short (fun first => forbidden ⟨printable, first⟩) stepped shifted

/-- The moment a day after `christmasEve`. -/
def christmasDay : Moment :=
  ⟨⟨lit "2004-12-25", by decide +kernel, by decide⟩, ⟨lit "2004-12-18", by decide +kernel, by decide⟩, by decide,
    lit "Sat Dec 25 15:00:00 2004", 0⟩

theorem rotated_iff_server :
    Meets step Shifted (logCreate (lit "app") .dualFile (some (lit "server.txt")) christmasEve.date)
        [notice (lit "audit"), { notice (lit "audit") with now := christmasDay }] ↔
      Guarded step (fun l call => Printable l call ∧ FirstOfDay l call)
        (logCreate (lit "app") .dualFile (some (lit "server.txt")) christmasEve.date)
        [notice (lit "audit"), { notice (lit "audit") with now := christmasDay }] := by
  refine rotated_iff (lit "app") christmasEve.date (fun name given => ?_) (fun call member destination given => ?_)
  · cases given
    decide
  · simp only [List.mem_cons, List.not_mem_nil, or_false] at member
    rcases member with rfl | rfl <;> cases given <;> decide

/-- Of two entries with lines of yesterday, the one that is used first today is rotated, and the
    other one gets its line behind that of yesterday. -/
theorem second_entry_mixes : ¬ Meets step Shifted (logCreate (lit "app") .dualFile (some (lit "server.txt")) christmasEve.date)
    [notice (lit "audit"), notice (lit "billing"), { notice (lit "audit") with now := christmasDay },
      { notice (lit "billing") with now := christmasDay }] := by
  have mixes : (run step (logCreate (lit "app") .dualFile (some (lit "server.txt")) christmasEve.date)
      [notice (lit "audit"), notice (lit "billing"), { notice (lit "audit") with now := christmasDay },
        { notice (lit "billing") with now := christmasDay }]).any (fun l => decide (OneDay l)) = false := by decide +kernel
  rintro ⟨l₁, first, _, l₂, second, _, l₃, third, _, l₄, fourth, shifted, _⟩
  have ran : run step (logCreate (lit "app") .dualFile (some (lit "server.txt")) christmasEve.date)
      [notice (lit "audit"), notice (lit "billing"), { notice (lit "audit") with now := christmasDay },
        { notice (lit "billing") with now := christmasDay }] = some l₄ :=
    run_cons.mpr ⟨l₁, first, run_cons.mpr ⟨l₂, second, run_cons.mpr ⟨l₃, third, run_cons.mpr ⟨l₄, fourth, rfl⟩⟩⟩⟩
  rw [ran] at mixes
  exact of_decide_eq_false mixes shifted.oneDay

end VoxiUtil.LoggingRotation
