import VoxiUtil.LoggingThreads

/-!
The two accounts of a logger of `logging.c`. Where every `fopen` succeeds, a call of
`log_logText` that no other call comes into returns and writes by the account with `FILE`s
what it does by the one with streams.
-/
namespace VoxiUtil.LoggingStreams
open VoxiUtil.CString VoxiUtil.Err VoxiUtil.Hash VoxiUtil.HashSet VoxiUtil.WordMap VoxiUtil.Logging
  VoxiUtil.LoggingEntries VoxiUtil.LoggingFiles VoxiUtil.LoggingThreads

/-- Where a `FILE` leads to, by the paths of those that were opened. -/
def streamOf (path : Nat → Text) : File → Stream
  | .stdout => .stdout
  | .stderr => .stderr
  | .opened n => .file (path n)

/-- The logger has the table, names and date of the desk, and the streams of its entries are
    where their `FILE`s lead to. -/
def Shows (path : Nat → Text) (d : Desk) (l : Logger) : Prop :=
  ∃ common error lines, l = { d.logger with commonFd := common, errorFd := error, lines := lines } ∧
    ∀ e ∈ entries d.logger.logFiles,
      common e.address = (d.fd (e.address, .common)).map (streamOf path) ∧
      error e.address = (d.fd (e.address, .error)).map (streamOf path)

/-- The paths of what was opened before stay. -/
def Keeps (d : Desk) (path path' : Nat → Text) : Prop := ∀ n < d.given, path' n = path n

/-- A call that no other call comes into. -/
def logTextAlone (d : Desk) (call : Call) (opens : Opens) : Option (Desk × Option Error) := do
  match ← enterCall d call opens with
  | (d, .error error) => return (d, some error)
  | (d, .ok (e, text)) => return (← finishCall d e call text, none)

section
variable {path path' : Nat → Text} {d d' : Desk} {l : Logger} {slot : Nat × Field} {opens : Opens} {e : LogFileEntry}

theorem keeps_update (path : Nat → Text) (new : Text) : Keeps d path (Function.update path d.given new) :=
  fun _ before => Function.update_of_ne (Nat.ne_of_lt before) ..

/-- What a field holds leads to where it led. -/
theorem streamOf_kept (kept : Kept d) (keeps : Keeps d path path') (slot : Nat × Field) :
    (d.fd slot).map (streamOf path') = (d.fd slot).map (streamOf path) := by
  cases holds : d.fd slot with
  | none => rfl
  | some f =>
    cases f with
    | stdout => rfl
    | stderr => rfl
    | opened n =>
      have old := (kept.held slot n (by rw [holds, LoggingFiles.number])).1
      simp only [Option.map_some, streamOf, keeps n old]

/-- What is a file by one account is one by the other. -/
theorem isLogFile_opened (f : Option File) :
    isLogFile (f.map (streamOf path)) = true ↔ ∃ n, f = some (.opened n) := by
  rcases f with _ | _ | _ | n <;> simp [isLogFile, streamOf]

/-! ### An entry is made -/

/-- Both make the same entry, whose `FILE`s lead to its streams. -/
theorem create_shown (unused : l.unused = d.logger.unused) (name : Option Text) (dualFile : Bool)
    (succeeds : opens.common = true ∧ opens.error = true) (path : Nat → Text) :
    ∃ d' path', LoggingFiles.logFileEntryCreate d name dualFile opens =
        (d', .ok (Logging.logFileEntryCreate l name dualFile).2) ∧ Keeps d path path' ∧
      (Logging.logFileEntryCreate l name dualFile).1.commonFd d.logger.unused =
        (d'.fd (d.logger.unused, .common)).map (streamOf path') ∧
      (Logging.logFileEntryCreate l name dualFile).1.errorFd d.logger.unused =
        (d'.fd (d.logger.unused, .error)).map (streamOf path') := by
  unfold LoggingFiles.logFileEntryCreate Logging.logFileEntryCreate
  by_cases console : strcaseEq (name.getD logDestinationConsole) logDestinationConsole = true
  · simp only [console, ↓reduceIte, unused]
    refine ⟨_, path, rfl, fun _ _ => rfl, ?_, ?_⟩
    · cases dualFile <;> simp [setFd, streamOf]
    · cases dualFile <;> simp [setFd, streamOf]
  · rcases parts : splitName (name.getD logDestinationConsole) with ⟨before, extension⟩
    have paths : Keeps d path (Function.update (Function.update path d.given (logPath before (lit "_Common") extension))
        (d.given + 1) (logPath before (lit "_Error") extension)) := by
      intro n old
      rw [Function.update_of_ne (by omega), Function.update_of_ne (by omega)]
    simp only [console, parts, succeeds.1, succeeds.2, fopen, setFd, unused, Bool.false_eq_true, ↓reduceIte, reduceCtorEq]
    refine ⟨_, _, rfl, paths, ?_, ?_⟩
    · simp [streamOf]
    · simp [streamOf]

/-- A new entry is not in the table yet: the streams and the next block are what changes. -/
theorem created_rest (l : Logger) (name : Option Text) (dualFile : Bool) :
    (Logging.logFileEntryCreate l name dualFile).1 =
      { l with
        commonFd := (Logging.logFileEntryCreate l name dualFile).1.commonFd
        errorFd := (Logging.logFileEntryCreate l name dualFile).1.errorFd
        unused := l.unused + 1 } := by
  unfold Logging.logFileEntryCreate
  dsimp only
  split <;> rfl

theorem addEntry_streams (l : Logger) (e : LogFileEntry) (common error : Nat → Option Stream) (lines : Stream → List Line) :
    addEntry { l with commonFd := common, errorFd := error, lines := lines } e =
      ({ (addEntry l e).1 with commonFd := common, errorFd := error, lines := lines }, (addEntry l e).2) := rfl

theorem Shows.unused (shows : Shows path d l) : l.unused = d.logger.unused := by
  obtain ⟨_, _, _, rfl, _⟩ := shows
  rfl

/-- The entry that is found or made is the same, and so is the error. -/
theorem entryFor_shown (sound : Sound d) (shows : Shows path d l) (name : Text) (dualFile : Bool)
    (succeeds : opens.common = true ∧ opens.error = true) :
    ∃ d' path', LoggingFiles.entryFor d name dualFile opens = some (d', (Logging.entryFor l name dualFile).2) ∧
      Shows path' d' (Logging.entryFor l name dualFile).1 := by
  have unused := shows.unused
  obtain ⟨common, error, lines, rfl, streams⟩ := shows
  unfold LoggingFiles.entryFor Logging.entryFor
  dsimp only
  cases found : logFileHashTableFind d.logger.logFiles name with
  | some e => exact ⟨d, path, rfl, common, error, lines, rfl, streams⟩
  | none =>
    have created := created_entry { d.logger with commonFd := common, errorFd := error, lines := lines } (some name) dualFile
    obtain ⟨m, path', made, keeps, commonIs, errorIs⟩ := create_shown unused (some name) dualFile succeeds path
    obtain ⟨m', out, made', logger, kept, _, others, _⟩ :=
      create_cases sound.kept (fresh_fields sound) (some name) dualFile opens
    obtain ⟨here, _⟩ := Prod.mk.inj (made.symm.trans made')
    subst here
    have rest := created_rest { d.logger with commonFd := common, errorFd := error, lines := lines } (some name) dualFile
    have address := created.address
    have elsewhere := created.others
    generalize Logging.logFileEntryCreate { d.logger with commonFd := common, errorFd := error, lines := lines } (some name)
      dualFile = both at *
    obtain ⟨l', e⟩ := both
    dsimp only at rest address elsewhere commonIs errorIs made ⊢
    generalize l'.commonFd = common' at *
    generalize l'.errorFd = error' at *
    subst rest
    -- The entries of the table are in other blocks than the new one.
    have before : ∀ other ∈ entries d.logger.logFiles,
        common' other.address = (m.fd (other.address, .common)).map (streamOf path') ∧
          error' other.address = (m.fd (other.address, .error)).map (streamOf path') := by
      intro other member
      have apart : other.address ≠ d.logger.unused := Nat.ne_of_lt (sound.old other member)
      obtain ⟨commonBefore, errorBefore⟩ := streams other member
      obtain ⟨commonSame, errorSame⟩ := elsewhere other.address apart
      rw [others _ apart, others _ apart, streamOf_kept sound.kept keeps, streamOf_kept sound.kept keeps]
      exact ⟨commonSame.trans commonBefore, errorSame.trans errorBefore⟩
    have files : m.logger.logFiles = d.logger.logFiles := by rw [logger]
    obtain ⟨l', added, adding, _, _, _, _, outcome⟩ := addEntry_cases (by rw [files]; exact sound.stands) e
    have adding' := addEntry_streams m.logger e common' error' lines
    rw [adding, logger] at adding'
    dsimp only at adding'
    simp only [made, adding, adding']
    rcases outcome with ⟨rfl, table⟩ | ⟨rfl, _, all⟩
    · obtain ⟨d', destroyed, _, logger', _, fields⟩ := destroy_kept (d := { m with logger := l' }) kept e
      refine ⟨d', path', by simp [destroyed], common', error', lines, by simp [logger'], ?_⟩
      intro other member
      rw [logger', table, files] at member
      have apart : other.address ≠ e.address := by
        rw [address]
        exact Nat.ne_of_lt (sound.old other member)
      rw [fields]
      simpa [apart] using before other member
    · refine ⟨{ m with logger := l' }, path', by simp, common', error', lines, by simp, ?_⟩
      intro other member
      rcases List.mem_cons.mp (all.mem_iff.mp member) with rfl | held
      · rw [address]
        exact ⟨commonIs, errorIs⟩
      · rw [files] at held
        exact before other held

/-! ### The files of an entry are rotated -/

/-- The streams of a field when that of one block is rotated. -/
def rotatedStreams (streams : Nat → Option Stream) (address : Nat) (new : Text) : Nat → Option Stream :=
  if isLogFile (streams address) then Function.update streams address (some (.file new)) else streams

theorem rotateCommon_streams (l : Logger) (e : LogFileEntry) (specifier : Text) (now : Moment) :
    rotateCommon l e specifier now =
      { l with
        commonFd := rotatedStreams l.commonFd e.address
          (logPath (printString e.fileName) specifier (printString e.fileExtension))
        lines := (rotateCommon l e specifier now).lines } := by
  unfold rotateCommon rotatedStreams
  split <;> rfl

theorem rotateError_streams (l : Logger) (e : LogFileEntry) (specifier : Text) (now : Moment) :
    rotateError l e specifier now =
      { l with
        errorFd := rotatedStreams l.errorFd e.address (logPath (printString e.fileName) specifier (printString e.fileExtension))
        lines := (rotateError l e specifier now).lines } := by
  unfold rotateError rotatedStreams
  split <;> rfl

/-- A field that is rotated leads to the path that it is opened at; the others lead where they led. -/
theorem rotateField_leads (kept : Kept d) (slot : Nat × Field) (path : Nat → Text) (new : Text) :
    ∃ d' path', rotateField d slot true = some d' ∧ Kept d' ∧ d'.logger = d.logger ∧
      (∀ other, other ≠ slot → (d'.fd other).map (streamOf path') = (d.fd other).map (streamOf path)) ∧
      (d'.fd slot).map (streamOf path') =
        if isLogFile ((d.fd slot).map (streamOf path)) then some (.file new) else (d.fd slot).map (streamOf path) := by
  obtain ⟨d', rotation, kept', logger, _, _⟩ := rotateField_kept kept slot true
  unfold rotateField at rotation
  unfold rotateField
  split at rotation
  · rename_i n holds
    rw [fclose_kept kept holds] at rotation
    obtain rfl := Option.some.inj rotation
    simp only [holds, fclose_kept kept holds]
    refine ⟨_, Function.update path d.given new, rfl, kept', logger, fun other differs => ?_, ?_⟩
    · rw [← streamOf_kept kept (keeps_update path new)]
      simp [setFd, fopen, Function.update_of_ne differs]
    · simp [setFd, fopen, streamOf, isLogFile]
  · rename_i console
    have file : ¬ isLogFile ((d.fd slot).map (streamOf path)) = true := by
      rw [isLogFile_opened]
      rintro ⟨n, holds⟩
      exact console n holds
    exact ⟨d, path, rfl, kept, rfl, fun _ _ => rfl, (if_neg file).symm⟩

/-- The same for the streams that a logger has for the field. -/
theorem rotateField_shown (kept : Kept d) (member : e ∈ entries d.logger.logFiles) (field : LoggingFiles.Field) (new : Text)
    (streams : Nat → Option Stream)
    (shown : ∀ other ∈ entries d.logger.logFiles, streams other.address = (d.fd (other.address, field)).map (streamOf path)) :
    ∃ d' path', rotateField d (e.address, field) true = some d' ∧ Kept d' ∧ d'.logger = d.logger ∧
      (∀ slot, slot.2 ≠ field → (d'.fd slot).map (streamOf path') = (d.fd slot).map (streamOf path)) ∧
      ∀ other ∈ entries d.logger.logFiles,
        rotatedStreams streams e.address new other.address = (d'.fd (other.address, field)).map (streamOf path') := by
  obtain ⟨d', path', rotation, kept', logger, others, leads⟩ := rotateField_leads kept (e.address, field) path new
  rw [← shown e member] at leads
  refine ⟨d', path', rotation, kept', logger, fun slot differs => others slot ?_, fun other held => ?_⟩
  · rintro rfl
    exact differs rfl
  · unfold rotatedStreams
    by_cases same : other.address = e.address
    · rw [same, leads]
      split
      · exact Function.update_self ..
      · rfl
    · rw [others _ (by simp [same]), ← shown other held]
      split
      · exact Function.update_of_ne same ..
      · rfl

theorem rotateCommon_shown (kept : Kept d) (shows : Shows path d l) (member : e ∈ entries d.logger.logFiles) (specifier : Text)
    (now : Moment) :
    ∃ d' path', rotateField d (e.address, .common) true = some d' ∧ Kept d' ∧ d'.logger = d.logger ∧
      Shows path' d' (rotateCommon l e specifier now) := by
  obtain ⟨common, error, lines, rfl, streams⟩ := shows
  obtain ⟨d', path', rotation, kept', logger, others, leads⟩ := rotateField_shown kept member .common
    (logPath (printString e.fileName) specifier (printString e.fileExtension)) common fun other held => (streams other held).1
  refine ⟨d', path', rotation, kept', logger, _, _, _, (rotateCommon_streams ..).trans (by rw [logger]), ?_⟩
  rw [logger]
  exact fun other held => ⟨leads other held, (streams other held).2.trans (others _ (by simp)).symm⟩

theorem rotateError_shown (kept : Kept d) (shows : Shows path d l) (member : e ∈ entries d.logger.logFiles) (specifier : Text)
    (now : Moment) :
    ∃ d' path', rotateField d (e.address, .error) true = some d' ∧ Kept d' ∧ d'.logger = d.logger ∧
      Shows path' d' (rotateError l e specifier now) := by
  obtain ⟨common, error, lines, rfl, streams⟩ := shows
  obtain ⟨d', path', rotation, kept', logger, others, leads⟩ := rotateField_shown kept member .error
    (logPath (printString e.fileName) specifier (printString e.fileExtension)) error fun other held => (streams other held).2
  refine ⟨d', path', rotation, kept', logger, _, _, _, (rotateError_streams ..).trans (by rw [logger]), ?_⟩
  rw [logger]
  exact fun other held => ⟨(streams other held).1.trans (others _ (by simp)).symm, leads other held⟩

theorem Shows.dated (shows : Shows path d l) (date : Date) :
    Shows path { d with logger := { d.logger with date := date } } { l with date := date } := by
  obtain ⟨common, error, lines, rfl, streams⟩ := shows
  exact ⟨common, error, lines, rfl, streams⟩

theorem Shows.date (shows : Shows path d l) : l.date = d.logger.date := by
  obtain ⟨_, _, _, rfl, _⟩ := shows
  rfl

/-- What the drivers do with the files of an entry, and with a line. -/
def driverRotated (dualFile : Bool) : Logger → LogFileEntry → Moment → Logger :=
  if dualFile then dualFileRotated else fileRotated

def driverWritten (dualFile : Bool) : Logger → LogFileEntry → Call → Line → Logger :=
  if dualFile then dualFileWritten else fileWritten

/-- The common file of the file driver is opened without the word of its name. -/
theorem rotated_shown (kept : Kept d) (shows : Shows path d l) (member : e ∈ entries d.logger.logFiles) (now : Moment)
    (succeeds : opens.commonAgain = true ∧ opens.errorAgain = true) :
    ∃ d' path', rotated d (isDual d.logger) e now opens = some d' ∧
      Shows path' d' (driverRotated (isDual d.logger) l e now) := by
  unfold rotated driverRotated
  rw [succeeds.1, succeeds.2]
  by_cases anew : strcmp now.date.text d.logger.date.text ≠ 0
  · simp only [if_pos anew]
    by_cases dual : isDual d.logger = true
    · obtain ⟨m, path', first, keptM, loggerM, shownM⟩ := rotateCommon_shown kept shows member (lit "_Common") now
      obtain ⟨d', path'', second, _, logger', shown'⟩ :=
        rotateError_shown keptM shownM (by rw [loggerM]; exact member) (lit "_Error") now
      refine ⟨{ d' with logger := { d'.logger with date := now.date } }, path'', by simp [first, second, dual], ?_⟩
      rw [if_pos dual, dualFileRotated, shows.date, if_pos anew]
      exact shown'.dated now.date
    · obtain ⟨d', path', first, _, logger', shown'⟩ := rotateCommon_shown kept shows member [] now
      refine ⟨{ d' with logger := { d'.logger with date := now.date } }, path', by simp [first, dual], ?_⟩
      rw [if_neg dual, fileRotated, shows.date, if_pos anew]
      exact shown'.dated now.date
  · simp only [if_neg anew]
    refine ⟨d, path, rfl, ?_⟩
    split
    · rw [dualFileRotated, shows.date, if_neg anew]
      exact shows
    · rw [fileRotated, shows.date, if_neg anew]
      exact shows

/-! ### A line is written -/

theorem Shows.written (shows : Shows path d l) (more : List (File × Text)) :
    Shows path { d with written := d.written ++ more } l := shows

theorem Shows.write (shows : Shows path d l) (f : Option Stream) (line : Line) : Shows path d (Logging.fileLogWrite l f line) := by
  obtain ⟨common, error, lines, rfl, streams⟩ := shows
  cases f with
  | none => exact ⟨common, error, lines, rfl, streams⟩
  | some f => exact ⟨common, error, _, rfl, streams⟩

/-- The lines that go to a stream, from those that go to a `FILE`. -/
def linesTo (path : Nat → Text) (date : Date) (written : List (File × Text)) (stream : Stream) : List Line :=
  (written.filter fun (f, _) => streamOf path f = stream).map fun (_, text) => ⟨date, text⟩

theorem write_lines (l : Logger) (f : Option File) (date : Date) (text : Text) (stream : Stream) :
    (Logging.fileLogWrite l (f.map (streamOf path)) ⟨date, text⟩).lines stream =
      l.lines stream ++ linesTo path date (f.toList.map (·, text)) stream := by
  cases f with
  | none => simp [Logging.fileLogWrite, linesTo]
  | some f =>
    by_cases here : streamOf path f = stream
    · subst here
      simp [Logging.fileLogWrite, linesTo]
    · simp [Logging.fileLogWrite, linesTo, here, Function.update_of_ne (Ne.symm here)]

theorem linesTo_append (path : Nat → Text) (date : Date) (before after : List (File × Text)) (stream : Stream) :
    linesTo path date (before ++ after) stream = linesTo path date before stream ++ linesTo path date after stream := by
  simp [linesTo]

theorem driverWritten_eq (dualFile : Bool) (l : Logger) (e : LogFileEntry) (call : Call) (line : Line) :
    driverWritten dualFile l e call line = Logging.fileLogWrite
      (if dualFile ∧ isSevere call.logLevel then Logging.fileLogWrite l (l.errorFd e.address) line else l)
      (l.commonFd e.address) line := by
  have common : ∀ f, (Logging.fileLogWrite l f line).commonFd = l.commonFd := by
    intro f
    cases f <;> rfl
  unfold driverWritten dualFileWritten fileWritten
  cases dualFile with
  | true => cases level : call.logLevel <;> simp [level, isSevere, common]
  | false => simp

/-- What is written to the `FILE`s of the call is written to its streams. -/
theorem finishCall_shown (sound : Sound d) (shows : Shows path d l) (member : e ∈ entries d.logger.logFiles) (call : Call)
    (text : Text) (date : Date) :
    ∃ d', finishCall d e call text = some d' ∧ d'.written = d.written ++ linesOf d e call text ∧
      Shows path d' (driverWritten (isDual d.logger) l e call ⟨date, text⟩) ∧
      ∀ stream, (driverWritten (isDual d.logger) l e call ⟨date, text⟩).lines stream =
        l.lines stream ++ linesTo path date (linesOf d e call text) stream := by
  refine ⟨_, finishCall_eq sound member call text, rfl, ?_, fun stream => ?_⟩
  · rw [driverWritten_eq]
    refine Shows.write (Shows.written ?_ _) _ _
    split
    · exact shows.write _ _
    · exact shows
  · have streams : l.commonFd e.address = (d.fd (e.address, .common)).map (streamOf path) ∧
        l.errorFd e.address = (d.fd (e.address, .error)).map (streamOf path) := by
      obtain ⟨common, error, lines, rfl, streams⟩ := shows
      exact streams e member
    rw [driverWritten_eq, linesOf, linesTo_append, streams.1, streams.2, write_lines]
    split
    · rw [write_lines, List.append_assoc]
    · rfl

/-! ### A call -/

theorem logLogText_eq (l : Logger) (call : Call) :
    logLogText l call = logTextWith (isDual l) (driverRotated (isDual l)) (driverWritten (isDual l)) l call := by
  unfold logLogText isDual
  cases l.driver <;> rfl

theorem Shows.buildLine (shows : Shows path d l) (call : Call) : fileLogBuildLine l call = fileLogBuildLine d.logger call := by
  obtain ⟨common, error, lines, rfl, streams⟩ := shows
  rfl

/-- The first section returns the same error, or has the same entry and line. -/
theorem enterCall_shown (sound : Sound d) (shows : Shows path d l) (call : Call)
    (succeeds : opens.common = true ∧ opens.error = true ∧ opens.commonAgain = true ∧ opens.errorAgain = true) :
    (enterCall d call opens = none ∧ logLogText l call = none) ∨
    (∃ d' l' path' error, enterCall d call opens = some (d', .error error) ∧ logLogText l call = some (l', some error) ∧
      Shows path' d' l') ∨
    ∃ d' l' path' e text, enterCall d call opens = some (d', .ok (e, text)) ∧
      logLogText l call = some (driverWritten (isDual d'.logger) l' e call ⟨call.now.date, text⟩, none) ∧ Shows path' d' l' := by
  have dual : isDual l = isDual d.logger := by
    obtain ⟨_, _, _, rfl, _⟩ := shows
    rfl
  have dest : destToUse l call.logDestination = destToUse d.logger call.logDestination := by
    obtain ⟨_, _, _, rfl, _⟩ := shows
    rfl
  have same : ∀ m, Onwards d m → isDual m.logger = isDual d.logger := fun m onwards => by
    rw [isDual, isDual, onwards.driver]
  rw [logLogText_eq, dual, logTextWith, dest]
  obtain ⟨m, found, entry, soundM, onM, has⟩ :=
    entryFor_sound sound (destToUse d.logger call.logDestination) (isDual d.logger) opens
  obtain ⟨m', path', entry', shownM⟩ := entryFor_shown sound shows (destToUse d.logger call.logDestination)
    (isDual d.logger) ⟨succeeds.1, succeeds.2.1⟩
  obtain ⟨here, result⟩ := Prod.mk.inj (Option.some.inj (entry.symm.trans entry'))
  subst here
  generalize Logging.entryFor l (destToUse d.logger call.logDestination) (isDual d.logger) = pair at result shownM ⊢
  obtain ⟨l', out⟩ := pair
  dsimp only at result shownM
  subst result
  simp only [enterCall, entry, Option.bind_eq_bind, Option.bind_some]
  cases found with
  | error error => exact .inr (.inl ⟨m, l', path', error, rfl, rfl, shownM⟩)
  | ok e =>
    obtain ⟨k, rotation, _, onK⟩ := rotated_sound soundM (isDual m.logger) e call.now opens
    obtain ⟨k', path'', rotation', shownK⟩ := rotated_shown soundM.kept shownM (has e rfl) call.now succeeds.2.2
    obtain rfl := Option.some.inj (rotation.symm.trans rotation')
    rw [same m onM] at shownK
    simp only [rotation, Option.bind_some, shownK.buildLine]
    cases line : fileLogBuildLine k.logger call with
    | none => exact .inl ⟨rfl, rfl⟩
    | some built =>
      right
      cases built with
      | error error => exact .inl ⟨k, _, path'', error, rfl, rfl, shownK⟩
      | ok text => exact .inr ⟨k, _, path'', e, text, rfl, by rw [same k (onM.trans onK)]; rfl, shownK⟩

/-- A call that no other call comes into: both accounts stop, or return the same error or none. -/
theorem logTextAlone_shown (sound : Sound d) (shows : Shows path d l) (call : Call)
    (succeeds : opens.common = true ∧ opens.error = true ∧ opens.commonAgain = true ∧ opens.errorAgain = true) :
    (logTextAlone d call opens = none ∧ logLogText l call = none) ∨
      ∃ d' l' path' out, logTextAlone d call opens = some (d', out) ∧ logLogText l call = some (l', out) ∧ Sound d' ∧
        Shows path' d' l' := by
  have sections := (enterCall_sound sound call opens).1
  unfold logTextAlone
  rcases enterCall_shown sound shows call succeeds with ⟨stops, stops'⟩ | ⟨d', l', path', error, entered, text, shown⟩ |
    ⟨d', l', path', e, text, entered, written, shown⟩
  · exact .inl ⟨by simp [stops], stops'⟩
  · exact .inr ⟨d', l', path', some error, by simp [entered], text, (sections _ _ entered).1, shown⟩
  · obtain ⟨sound', _, has⟩ := sections _ _ entered
    have ends := finishCall_eq sound' (has e text rfl) call text
    obtain ⟨d'', finished, _, shown', _⟩ := finishCall_shown sound' shown (has e text rfl) call text call.now.date
    obtain rfl := Option.some.inj (ends.symm.trans finished)
    refine .inr ⟨_, _, path', none, by simp [entered, ends], written, ?_, shown'⟩
    exact ⟨sound'.stands, sound'.kept, sound'.old, sound'.common, sound'.owned⟩

/-- A desk whose logger has no entry yet. -/
def bare (logger : Logger) : Desk := ⟨logger, fun _ => none, 0, [], [], []⟩

/-- What `log_create` makes. -/
theorem logCreate_shown (applicationName : Text) (driver : LoggingDriver) (driverArguments : Option Text) (today : Date)
    (succeeds : opens.common = true ∧ opens.error = true) :
    ∃ d path, LoggingFiles.logCreate applicationName driver driverArguments today opens = some d ∧ Sound d ∧
      Shows path d (Logging.logCreate applicationName driver driverArguments today) := by
  have fields : Logging.logCreate applicationName driver driverArguments today =
      createWith driver (driver = .dualFile) applicationName driverArguments today := by
    cases driver <;> rfl
  have creates : ∀ m e, LoggingFiles.logFileEntryCreate (bare (loggerCreateCommon driver applicationName today))
      driverArguments (driver = .dualFile) opens = (m, .ok e) →
      LoggingFiles.logCreate applicationName driver driverArguments today opens =
        some { m with logger := (addEntry { m.logger with logFileFullName := e.fullName } e).1 } := by
    intro m e made
    rw [bare] at made
    rw [LoggingFiles.logCreate, made]
  rw [fields, createWith]
  have empty : (loggerCreateCommon driver applicationName today).logFiles = hashCreateTable logFileFuncs := rfl
  generalize loggerCreateCommon driver applicationName today = l at *
  obtain ⟨m, path, made, _, commonIs, errorIs⟩ :=
    create_shown (d := bare l) (l := l) rfl driverArguments (driver = .dualFile) succeeds fun _ => []
  obtain ⟨m', out, made', logger, _⟩ := create_cases (d := bare l)
    (Tickets.issued_none fun _ => rfl) (fun _ => rfl) driverArguments (driver = .dualFile) opens
  obtain ⟨here, _⟩ := Prod.mk.inj (made.symm.trans made')
  subst here
  have rest := created_rest l driverArguments (driver = .dualFile)
  have address := (created_entry l driverArguments (driver = .dualFile)).address
  generalize Logging.logFileEntryCreate l driverArguments (driver = .dualFile) = pair at *
  obtain ⟨l', e⟩ := pair
  dsimp only at made
  have created := creates m e made
  dsimp only [bare] at rest address commonIs errorIs logger ⊢
  generalize l'.commonFd = common at *
  generalize l'.errorFd = error at *
  subst rest
  refine ⟨_, path, created, logCreate_sound created, common, error, l.lines, by rw [logger]; rfl, fun other member => ?_⟩
  have only : other = e := by
    have files : m.logger.logFiles = hashCreateTable logFileFuncs := by rw [logger]; exact empty
    obtain ⟨l', added, adding, _, _, _, _, outcome⟩ := addEntry_cases (l := { m.logger with logFileFullName := e.fullName })
      (by rw [files]; exact create_stands _) e
    rw [adding] at member
    rcases outcome with ⟨_, table⟩ | ⟨_, _, all⟩
    · rw [table, files, entries_create] at member
      cases member
    · rw [files, entries_create] at all
      exact List.mem_singleton.mp (all.mem_iff.mp member)
  rw [only, address]
  exact ⟨commonIs, errorIs⟩

/-- Calls one after the other. -/
theorem logTexts_shown (sound : Sound d) (shows : Shows path d l) {calls : List Call} {l' : Logger}
    (succeeds : opens.common = true ∧ opens.error = true ∧ opens.commonAgain = true ∧ opens.errorAgain = true)
    (ran : Runs.run LoggingEntries.step l calls = some l') :
    ∃ d' path', Runs.run (fun d call => (logTextAlone d call opens).map Prod.fst) d calls = some d' ∧ Sound d' ∧ Shows path' d' l' := by
  induction calls generalizing d l path with
  | nil =>
    cases ran
    exact ⟨d, path, rfl, sound, shows⟩
  | cons call calls ih =>
    obtain ⟨m, first, rest⟩ := Runs.run_cons.mp ran
    rcases logTextAlone_shown sound shows call succeeds with ⟨_, stops⟩ | ⟨k, k', path', out, alone, text, soundK, shownK⟩
    · simp [LoggingEntries.step, stops] at first
    · have here : k' = m := by simpa [LoggingEntries.step, text] using first
      subst here
      obtain ⟨d', path'', after, sound', shown'⟩ := ih soundK shownK rest
      exact ⟨d', path'', Runs.run_cons.mpr ⟨k, by simp [alone], after⟩, sound', shown'⟩

end

end VoxiUtil.LoggingStreams
