import VoxiUtil.HashLife
import VoxiUtil.LoggingEntries
import VoxiUtil.Tickets

/-!
The `FILE`s of a logger of `logging.c`: which of them its entries hold, where opening one
fails, and what is closed when. Each is known by its number in the order of `fopen`. A
function gives `none` where it uses a `FILE` that was closed.
-/
namespace VoxiUtil.LoggingFiles
open VoxiUtil.CString VoxiUtil.Err VoxiUtil.Hash VoxiUtil.HashSet VoxiUtil.WordMap VoxiUtil.Logging
  VoxiUtil.LoggingEntries VoxiUtil.Runs VoxiUtil.Tickets

inductive File where
  | stdout
  | stderr
  | opened (number : Nat)
deriving DecidableEq

/-- The fields `commonFd` and `errorFd`. -/
inductive Field where
  | common
  | error
deriving DecidableEq

/-- A logger with the `FILE` fields of its entries, by the numbers of their blocks. Its table,
    names and date are those of `logger`, which has no streams here. -/
structure Desk where
  logger : Logger
  fd : Nat × Field → Option File
  /-- How often `fopen` succeeded. -/
  given : Nat
  closed : List Nat
  /-- What is still open when the entry that held it is freed. -/
  left : List Nat
  written : List (File × Text)

/-- Whether each `fopen` of a call succeeds, and what `errno` stands for when one does not. -/
structure Opens where
  common : Bool
  error : Bool
  commonAgain : Bool
  errorAgain : Bool
  reason : Error

def setFd (d : Desk) (slot : Nat × Field) (f : Option File) : Desk := { d with fd := Function.update d.fd slot f }

def fopen (d : Desk) (succeeds : Bool) : Desk × Option File :=
  if succeeds then ({ d with given := d.given + 1 }, some (.opened d.given)) else (d, none)

def fclose (d : Desk) (number : Nat) : Option Desk := do
  assert (number ∉ d.closed)
  return { d with closed := d.closed ++ [number] }

/-- Closes what is neither null nor of the console. The field is gone with its entry. -/
def closeField (d : Desk) (slot : Nat × Field) : Option Desk :=
  match d.fd slot with
  | some (.opened number) => (fclose d number).map fun d => setFd d slot none
  | _ => some (setFd d slot none)

def logFileEntryDestroy (d : Desk) (e : LogFileEntry) : Option Desk := do
  let d ← closeField d (e.address, .common)
  closeField d (e.address, .error)

/-- The entry is freed as it is. -/
def leaveField (d : Desk) (slot : Nat × Field) : Desk :=
  match d.fd slot with
  | some (.opened number) => setFd { d with left := d.left ++ [number] } slot none
  | _ => setFd d slot none

/-- The text of the error when `fopen` fails. -/
def openFailed (path : Text) (reason : Error) : Error :=
  errNew .logging 0 (some reason) (lit "Failed to open logging file '" ++ path ++ lit "'")

/-- An entry whose error file cannot be opened is freed with its common file open. -/
def logFileEntryCreate (d : Desk) (name : Option Text) (dualFile : Bool) (opens : Opens) : Desk × Except Error LogFileEntry :=
  let theName := name.getD logDestinationConsole
  let address := d.logger.unused
  let d := { d with logger := { d.logger with unused := address + 1 } }
  if strcaseEq theName logDestinationConsole then
    (setFd (setFd d (address, .common) (some (if dualFile then .stdout else .stderr))) (address, .error)
        (if dualFile then some .stderr else none),
      .ok ⟨address, logDestinationConsole, none, none⟩)
  else
    let (before, extension) := splitName theName
    let (d, commonFd) := fopen d opens.common
    let d := setFd d (address, .common) commonFd
    if commonFd = none then (d, .error (openFailed (logPath before (lit "_Common") extension) opens.reason))
    else
      let (d, errorFd) := fopen d opens.error
      let d := setFd d (address, .error) errorFd
      if errorFd = none then
        (leaveField d (address, .common), .error (openFailed (logPath before (lit "_Error") extension) opens.reason))
      else (d, .ok ⟨address, fileName (dotted before extension), some before, some extension⟩)

/-- The entry that is found or made for the name. -/
def entryFor (d : Desk) (name : Text) (dualFile : Bool) (opens : Opens) : Option (Desk × Except Error LogFileEntry) :=
  match logFileHashTableFind d.logger.logFiles name with
  | some e => some (d, .ok e)
  | none =>
    match logFileEntryCreate d (some name) dualFile opens with
    | (d, .error error) => some (d, .error error)
    | (d, .ok e) =>
      let (logger, added) := addEntry d.logger e
      if added = 0 then
        (logFileEntryDestroy { d with logger := logger } e).map fun d =>
          (d, .error (errNew .logging 0 none (lit "Failed to create log file entry for '" ++ name ++ lit "'.")))
      else some ({ d with logger := logger }, .ok e)

/-- `fileLogRotate` of a file that is neither null nor of the console: it is closed, and
    opened anew, or replaced by the error output. -/
def rotateField (d : Desk) (slot : Nat × Field) (again : Bool) : Option Desk :=
  match d.fd slot with
  | some (.opened number) =>
    (fclose d number).map fun d =>
      let (d, f) := fopen d again
      setFd d slot (some (f.getD .stderr))
  | _ => some d

/-- The rotation of both drivers, if the date is a new one, which is saved then. -/
def rotated (d : Desk) (dualFile : Bool) (e : LogFileEntry) (now : Moment) (opens : Opens) : Option Desk :=
  if strcmp now.date.text d.logger.date.text ≠ 0 then do
    let d ← rotateField d (e.address, .common) opens.commonAgain
    let d ← if dualFile then rotateField d (e.address, .error) opens.errorAgain else some d
    return { d with logger := { d.logger with date := now.date } }
  else some d

/-- The first section of `fileLogText` and `dualFileLogText`, up to where `fileLogBuildLine`
    unlocks the mutex: the entry and the line, or the error to return. -/
def enterCall (d : Desk) (call : Call) (opens : Opens) : Option (Desk × Except Error (LogFileEntry × Text)) := do
  let (d, found) ← entryFor d (destToUse d.logger call.logDestination) (isDual d.logger) opens
  match found with
  | .error error => return (d, .error error)
  | .ok e =>
    let d ← rotated d (isDual d.logger) e call.now opens
    match ← fileLogBuildLine d.logger call with
    | .error error => return (d, .error error)
    | .ok text => return (d, .ok (e, text))

/-- `fileLogWrite`; a null stream is not written to. -/
def fileLogWrite (d : Desk) (f : Option File) (text : Text) : Option Desk :=
  match f with
  | none => some d
  | some (.opened number) => do
    assert (number ∉ d.closed)
    return { d with written := d.written ++ [(.opened number, text)] }
  | some f => some { d with written := d.written ++ [(f, text)] }

/-- Warnings, errors and critical messages. -/
def isSevere : LogLevel → Bool
  | .critical | .error | .warning => true
  | _ => false

/-- The second section, from where the mutex is locked again; the entry is still in use. -/
def finishCall (d : Desk) (e : LogFileEntry) (call : Call) (text : Text) : Option Desk := do
  assert (e ∈ entries d.logger.logFiles)
  let d ← if isDual d.logger ∧ isSevere call.logLevel then fileLogWrite d (d.fd (e.address, .error)) text else some d
  fileLogWrite d (d.fd (e.address, .common)) text

/-- `log_create`; none when it returns an error. -/
def logCreate (applicationName : Text) (driver : LoggingDriver) (driverArguments : Option Text) (today : Date)
    (opens : Opens) : Option Desk :=
  match logFileEntryCreate ⟨loggerCreateCommon driver applicationName today, fun _ => none, 0, [], [], []⟩ driverArguments
      (driver = .dualFile) opens with
  | (_, .error _) => none
  | (d, .ok e) => some { d with logger := (addEntry { d.logger with logFileFullName := e.fullName } e).1 }

/-- `log_destroy`: the destroy function of the table gets every entry. -/
def logDestroy (d : Desk) : Option Desk := do
  let (_, all) ← HashLife.hashDestroyTable d.logger.logFiles
  all.foldlM logFileEntryDestroy d

/-! ### What each function keeps -/

/-- The number of a `FILE` that `fopen` gave. -/
def number : Option File → Option Nat
  | some (.opened n) => some n
  | _ => none

/-- Every `FILE` that `fopen` gave is in one field, or was closed or left once. -/
def Kept (d : Desk) : Prop := Issued (fun slot => number (d.fd slot)) (d.closed ++ d.left) d.given

section
variable {d d' : Desk} {slot : Nat × Field} {f : Option File} {opens : Opens} {e : LogFileEntry}

private theorem number_update (fd : Nat × Field → Option File) (slot : Nat × Field) (f : Option File) :
    (fun s => number (Function.update fd slot f s)) = Function.update (fun s => number (fd s)) slot (number f) := by
  funext s
  by_cases same : s = slot
  · rw [same, Function.update_self, Function.update_self]
  · rw [Function.update_of_ne same, Function.update_of_ne same]

/-- A field without a number gets something without one. -/
theorem kept_setFd (kept : Kept d) (before : number (d.fd slot) = none) (after : number f = none) :
    Kept (setFd d slot f) := by
  have same : Function.update (fun s => number (d.fd s)) slot (number f) = fun s => number (d.fd s) := by
    rw [after, ← before, Function.update_eq_self]
  rw [Kept, setFd, number_update, same]
  exact kept

/-- A field without a number gets what `fopen` gives. -/
theorem kept_fopen (kept : Kept d) (succeeds : Bool) (before : number (d.fd slot) = none) :
    Kept (setFd (fopen d succeeds).1 slot (fopen d succeeds).2) := by
  cases succeeds with
  | false => exact kept_setFd kept before rfl
  | true =>
    rw [Kept]
    simp only [fopen, setFd, ↓reduceIte, number_update]
    exact issued_take kept before

/-- What a field holds can be closed. -/
theorem fclose_kept {n : Nat} (kept : Kept d) (holds : d.fd slot = some (.opened n)) :
    fclose d n = some { d with closed := d.closed ++ [n] } := by
  have held : number (d.fd slot) = some n := by rw [holds, number]
  have out := (kept.held slot n held).2
  rw [List.mem_append, not_or] at out
  simp [fclose, out.1]

theorem kept_closed {n : Nat} (kept : Kept d) (holds : d.fd slot = some (.opened n)) :
    Kept (setFd { d with closed := d.closed ++ [n] } slot none) := by
  have held : number (d.fd slot) = some n := by rw [holds, number]
  have gone := issued_give kept held
  rw [Kept, setFd, number_update]
  refine issued_perm gone ?_
  rw [List.append_assoc, List.append_assoc]
  exact List.Perm.append_left _ List.perm_append_comm

/-- Closing a field always succeeds, and only empties it. -/
theorem closeField_kept (kept : Kept d) (slot : Nat × Field) :
    ∃ d', closeField d slot = some d' ∧ Kept d' ∧ d'.fd = Function.update d.fd slot none ∧ d'.logger = d.logger ∧
      d'.written = d.written := by
  rw [closeField]
  split
  · rename_i n holds
    rw [fclose_kept kept holds]
    exact ⟨_, rfl, kept_closed kept holds, rfl, rfl, rfl⟩
  · rename_i other
    refine ⟨_, rfl, kept_setFd kept ?_ rfl, rfl, rfl, rfl⟩
    cases holds : d.fd slot with
    | none => rfl
    | some f =>
      cases f with
      | opened n => exact absurd holds (other n)
      | stdout => rfl
      | stderr => rfl

theorem destroy_kept (kept : Kept d) (e : LogFileEntry) :
    ∃ d', logFileEntryDestroy d e = some d' ∧ Kept d' ∧ d'.logger = d.logger ∧ d'.written = d.written ∧
      d'.fd = Function.update (Function.update d.fd (e.address, .common) none) (e.address, .error) none := by
  obtain ⟨m, first, keptM, fdM, loggerM, writtenM⟩ := closeField_kept kept (e.address, .common)
  obtain ⟨d', second, kept', fd', logger', written'⟩ := closeField_kept keptM (e.address, .error)
  refine ⟨d', ?_, kept', logger'.trans loggerM, written'.trans writtenM, fdM ▸ fd'⟩
  rw [logFileEntryDestroy, first]
  exact second

/-- What is left open is not in a field any more. -/
theorem leaveField_kept (kept : Kept d) (slot : Nat × Field) :
    Kept (leaveField d slot) ∧ (leaveField d slot).fd = Function.update d.fd slot none ∧
      (leaveField d slot).logger = d.logger := by
  rw [leaveField]
  split
  · rename_i n holds
    have held : number (d.fd slot) = some n := by rw [holds, number]
    refine ⟨?_, rfl, rfl⟩
    rw [Kept, setFd, number_update, ← List.append_assoc]
    exact issued_give kept held
  · rename_i other
    refine ⟨kept_setFd kept ?_ rfl, rfl, rfl⟩
    cases holds : d.fd slot with
    | none => rfl
    | some f =>
      cases f with
      | opened n => exact absurd holds (other n)
      | stdout => rfl
      | stderr => rfl

/-- A rotation always succeeds, and its field holds something if it did before. -/
theorem rotateField_kept (kept : Kept d) (slot : Nat × Field) (again : Bool) :
    ∃ d', rotateField d slot again = some d' ∧ Kept d' ∧ d'.logger = d.logger ∧ d'.written = d.written ∧
      ∀ s, (d'.fd s).isSome = (d.fd s).isSome := by
  rw [rotateField]
  split
  · rename_i n holds
    rw [fclose_kept kept holds]
    have closed := kept_closed kept holds
    have empty : number ((setFd { d with closed := d.closed ++ [n] } slot none).fd slot) = none := by
      simp [setFd, number]
    have others : ∀ (f : File) (s : Nat × Field),
        (Function.update d.fd slot (some f) s).isSome = (d.fd s).isSome := by
      intro f s
      by_cases same : s = slot
      · rw [same, Function.update_self, holds]
        rfl
      · rw [Function.update_of_ne same]
    refine ⟨_, rfl, ?_, ?_⟩
    · have opened := kept_fopen closed again empty
      cases again with
      | false =>
        have replaced := kept_setFd (f := some .stderr) closed empty rfl
        simpa [setFd, fopen, Kept] using replaced
      | true => simpa [setFd, fopen, Kept] using opened
    · cases again
      · exact ⟨rfl, rfl, others .stderr⟩
      · exact ⟨rfl, rfl, others (.opened d.given)⟩
  · exact ⟨d, rfl, kept, rfl, rfl, fun _ => rfl⟩

end

end VoxiUtil.LoggingFiles
