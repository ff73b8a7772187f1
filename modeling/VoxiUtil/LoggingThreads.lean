import VoxiUtil.LoggingFiles

/-!
Threads that log with one logger of `logging.c`. The mutex is open while a message is
formatted, so that other calls come between the two sections of a call: they may add
entries and rotate the files of the entry that the call has. No call uses a `FILE` that is
closed, and `log_destroy` closes what is open.
-/
namespace VoxiUtil.LoggingThreads
open VoxiUtil.CString VoxiUtil.Err VoxiUtil.Hash VoxiUtil.HashSet VoxiUtil.WordMap VoxiUtil.LoggingEntries
  VoxiUtil.LoggingFiles VoxiUtil.Runs VoxiUtil.Tickets
open VoxiUtil.Logging hiding logFileEntryCreate entryFor fileLogWrite logCreate
variable {τ : Type}

/-- The logger, the calls whose message is being formatted, and the calls that returned. -/
structure State (τ : Type) where
  desk : Desk
  calls : τ → Option (LogFileEntry × Call × Text)
  returned : List (τ × Call × Option Error)

def idle (desk : Desk) : State τ := ⟨desk, fun _ => none, []⟩

inductive Move (τ : Type) where
  /-- A thread calls `log_logText` and formats its message, or returns an error. -/
  | enter (t : τ) (call : Call) (opens : Opens)
  /-- A thread has formatted its message. -/
  | finish (t : τ)

section
variable [DecidableEq τ]

def step (s : State τ) : Move τ → Option (State τ)
  | .enter t call opens => do
    assert ((s.calls t).isNone)
    match ← enterCall s.desk call opens with
    | (desk, .error error) => return { s with desk := desk, returned := s.returned ++ [(t, call, some error)] }
    | (desk, .ok (e, text)) => return { s with desk := desk, calls := Function.update s.calls t (some (e, call, text)) }
  | .finish t => do
    let (e, call, text) ← s.calls t
    let desk ← finishCall s.desk e call text
    return ⟨desk, Function.update s.calls t none, s.returned ++ [(t, call, none)]⟩

end

/-- Only entries of the table have `FILE`s, and each has one for its lines. -/
structure Sound (d : Desk) : Prop where
  stands : Stands lawful_entries d.logger.logFiles
  kept : Kept d
  old : ∀ e ∈ entries d.logger.logFiles, e.address < d.logger.unused
  common : ∀ e ∈ entries d.logger.logFiles, (d.fd (e.address, .common)).isSome
  owned : ∀ slot, (d.fd slot).isSome → ∃ e ∈ entries d.logger.logFiles, e.address = slot.1

/-- What a section does to the logger: entries are added, and nothing is written. -/
structure Onwards (d d' : Desk) : Prop where
  driver : d'.logger.driver = d.logger.driver
  applicationName : d'.logger.applicationName = d.logger.applicationName
  logFormat : d'.logger.logFormat = d.logger.logFormat
  entries : ∀ e ∈ entries d.logger.logFiles, e ∈ entries d'.logger.logFiles
  written : d'.written = d.written

section
variable {d d' m : Desk} {name : Text} {dualFile : Bool} {call : Call} {opens : Opens} {e : LogFileEntry}

theorem Onwards.trans (first : Onwards d m) (second : Onwards m d') : Onwards d d' :=
  ⟨second.driver.trans first.driver, second.applicationName.trans first.applicationName,
    second.logFormat.trans first.logFormat, fun e member => second.entries e (first.entries e member),
    second.written.trans first.written⟩

/-! ### The first section -/

/-- The next block is not an entry's yet. -/
theorem fresh_fields (sound : Sound d) (field : Field) : d.fd (d.logger.unused, field) = none := by
  rw [← Option.not_isSome_iff_eq_none]
  intro held
  obtain ⟨e, member, here⟩ := sound.owned _ held
  exact absurd (sound.old e member) (by simp only at here; omega)

/-- A new entry, which is not in the table yet: it has a `FILE`, or no trace of it is left. -/
theorem create_cases (kept : Kept d) (fresh : ∀ field, d.fd (d.logger.unused, field) = none) (name : Option Text)
    (dualFile : Bool) (opens : Opens) :
    ∃ d' out, logFileEntryCreate d name dualFile opens = (d', out) ∧
      d'.logger = { d.logger with unused := d.logger.unused + 1 } ∧ Kept d' ∧ d'.written = d.written ∧
      (∀ slot, slot.1 ≠ d.logger.unused → d'.fd slot = d.fd slot) ∧
      ((∃ error, out = .error error ∧ ∀ field, d'.fd (d.logger.unused, field) = none) ∨
        ∃ e, out = .ok e ∧ e.address = d.logger.unused ∧ (d'.fd (d.logger.unused, .common)).isSome) := by
  have apart : ∀ (slot : Nat × Field) (field : Field), slot.1 ≠ d.logger.unused → slot ≠ (d.logger.unused, field) := by
    rintro slot field differs rfl
    exact differs rfl
  have base : Kept { d with logger := { d.logger with unused := d.logger.unused + 1 } } := kept
  have none : ∀ field, number (d.fd (d.logger.unused, field)) = none := fun field => by rw [fresh field]; rfl
  simp only [logFileEntryCreate]
  split
  · -- The console.
    refine ⟨_, _, rfl, rfl, ?_, rfl, fun slot differs => ?_, .inr ⟨_, rfl, rfl, ?_⟩⟩
    · refine kept_setFd (kept_setFd base (none .common) ?_) ?_ ?_
      · cases dualFile <;> rfl
      · simp only [setFd, Function.update_of_ne (show (d.logger.unused, Field.error) ≠ (d.logger.unused, .common) by simp)]
        exact none .error
      · cases dualFile <;> rfl
    · simp only [setFd, Function.update_of_ne (apart slot _ differs)]
    · simp [setFd]
  · -- A file: by whether the common one is opened, and then the one for errors.
    have opened := kept_fopen base opens.common (none .common)
    cases first : opens.common with
    | false =>
      simp only [first] at opened
      refine ⟨_, _, rfl, rfl, by simpa [fopen] using opened, rfl, fun slot differs => ?_, .inl ⟨_, rfl, ?_⟩⟩
      · simp [fopen, setFd, Function.update_of_ne (apart slot _ differs)]
      · intro field
        cases field with
        | common => simp [fopen, setFd]
        | error => simpa [fopen, setFd] using fresh .error
    | true =>
      simp only [first] at opened
      have unset : number ((setFd (fopen { d with logger := { d.logger with unused := d.logger.unused + 1 } } true).1
          (d.logger.unused, .common) (fopen { d with logger := { d.logger with unused := d.logger.unused + 1 } } true).2).fd
          (d.logger.unused, .error)) = Option.none := by
        simpa [fopen, setFd] using none .error
      have both := kept_fopen opened opens.error unset
      cases second : opens.error with
      | false =>
        simp only [second] at both
        obtain ⟨left, fields, logger⟩ := leaveField_kept both (d.logger.unused, .common)
        refine ⟨_, _, rfl, ?_, by simpa [fopen] using left, ?_, fun slot differs => ?_, .inl ⟨_, rfl, ?_⟩⟩
        · simpa [fopen, setFd] using logger
        · simp [fopen, setFd, leaveField]
        · simpa [fopen, setFd, Function.update_of_ne (apart slot _ differs)] using congrFun fields slot
        · intro field
          have here := congrFun fields (d.logger.unused, field)
          cases field with
          | common => simpa [fopen, setFd] using here
          | error => simpa [fopen, setFd] using here
      | true =>
        simp only [second] at both
        refine ⟨_, _, rfl, rfl, by simpa [fopen] using both, rfl, fun slot differs => ?_, .inr ⟨_, rfl, rfl, ?_⟩⟩
        · simp [fopen, setFd, Function.update_of_ne (apart slot _ differs)]
        · simp [fopen, setFd]

/-- More blocks may be given; the rest is as it was. -/
theorem sound_unused (sound : Sound d) (files : d'.logger.logFiles = d.logger.logFiles)
    (more : d.logger.unused ≤ d'.logger.unused) (kept : Kept d') (fields : ∀ slot, d'.fd slot = d.fd slot) : Sound d' := by
  refine ⟨by rw [files]; exact sound.stands, kept, fun e member => ?_, fun e member => ?_, fun slot held => ?_⟩
  · rw [files] at member
    exact (sound.old e member).trans_le more
  · rw [files] at member
    rw [fields]
    exact sound.common e member
  · rw [fields] at held
    rw [files]
    exact sound.owned slot held

/-- A new entry is refused, or becomes an entry of the table. -/
theorem addEntry_cases {l : Logger} (stands : Stands lawful_entries l.logFiles) (e : LogFileEntry) :
    ∃ l' added, addEntry l e = (l', added) ∧ l'.unused = l.unused + 1 ∧ l'.driver = l.driver ∧
      l'.applicationName = l.applicationName ∧ l'.logFormat = l.logFormat ∧
      (added = 0 ∧ l'.logFiles = l.logFiles ∨
        added = 1 ∧ Stands lawful_entries l'.logFiles ∧ (entries l'.logFiles).Perm (e :: entries l.logFiles)) := by
  cases held : hashFind l.logFiles e with
  | some other =>
    refine ⟨{ l with unused := l.unused + 1 }, 0, ?_, rfl, rfl, rfl, rfl, .inl ⟨rfl, rfl⟩⟩
    rw [addEntry, hashAdd_held stands held]
  | none =>
    obtain ⟨table, added, stands', all⟩ := hashAdd_new stands held l.unused
    refine ⟨{ l with logFiles := table, unused := l.unused + 1 }, 1, ?_, rfl, rfl, rfl, rfl, .inr ⟨rfl, stands', all⟩⟩
    rw [addEntry, added]

/-- The entry for a name is there afterwards, or an error is returned. -/
theorem entryFor_sound (sound : Sound d) (name : Text) (dualFile : Bool) (opens : Opens) :
    ∃ d' out, entryFor d name dualFile opens = some (d', out) ∧ Sound d' ∧ Onwards d d' ∧
      ∀ e, out = .ok e → e ∈ entries d'.logger.logFiles := by
  unfold entryFor
  cases found : logFileHashTableFind d.logger.logFiles name with
  | some e =>
    refine ⟨d, .ok e, rfl, sound, ⟨rfl, rfl, rfl, fun _ member => member, rfl⟩, ?_⟩
    rintro e' ⟨⟩
    exact ((find_iff sound.stands).mp found).1
  | none =>
    obtain ⟨m, out, created, logger, kept, written, fields, cases⟩ :=
      create_cases sound.kept (fresh_fields sound) (some name) dualFile opens
    have files : m.logger.logFiles = d.logger.logFiles := by rw [logger]
    have more : m.logger.unused = d.logger.unused + 1 := by rw [logger]
    have names : m.logger.driver = d.logger.driver ∧ m.logger.applicationName = d.logger.applicationName ∧
        m.logger.logFormat = d.logger.logFormat := by rw [logger]; exact ⟨rfl, rfl, rfl⟩
    rcases cases with ⟨error, rfl, empty⟩ | ⟨e, rfl, address, has⟩
    · have same : ∀ slot, m.fd slot = d.fd slot := by
        rintro ⟨a, field⟩
        by_cases here : a = d.logger.unused
        · rw [here, empty, fresh_fields sound]
        · exact fields _ here
      refine ⟨m, .error error, by simp [created], sound_unused sound files (by omega) kept same, ?_, fun e ok => by cases ok⟩
      exact ⟨names.1, names.2.1, names.2.2, by rw [files]; exact fun _ member => member, written⟩
    · obtain ⟨l, added, adding, unused, driver, applicationName, logFormat, outcome⟩ :=
        addEntry_cases (by rw [files]; exact sound.stands) e
      rcases outcome with ⟨rfl, table⟩ | ⟨rfl, stands, all⟩
      · -- The table has an entry by the name of the new one, which is destroyed.
        obtain ⟨d', destroyed, kept', logger', written', fields'⟩ := destroy_kept (d := { m with logger := l }) kept e
        have same : ∀ slot, d'.fd slot = d.fd slot := by
          rintro ⟨a, field⟩
          rw [fields']
          by_cases here : a = d.logger.unused
          · rw [here, fresh_fields sound, ← address]
            cases field <;> simp
          · have common : (a, field) ≠ (e.address, Field.common) := by simp [address, here]
            have error : (a, field) ≠ (e.address, Field.error) := by simp [address, here]
            rw [Function.update_of_ne error, Function.update_of_ne common]
            exact fields _ here
        refine ⟨d', .error (errNew .logging 0 none (lit "Failed to create log file entry for '" ++ name ++ lit "'.")),
          by simp [created, adding, destroyed], sound_unused sound ?_ ?_ kept' same, ?_, fun e ok => by cases ok⟩
        · rw [logger', table, files]
        · rw [logger']
          simp only [unused]
          omega
        · refine ⟨?_, ?_, ?_, ?_, written'.trans written⟩
          · rw [logger', driver, names.1]
          · rw [logger', applicationName, names.2.1]
          · rw [logger', logFormat, names.2.2]
          · rw [logger', table, files]
            exact fun _ member => member
      · rw [files] at all
        refine ⟨{ m with logger := l }, .ok e, by simp [created, adding], ?_, ?_, ?_⟩
        · refine ⟨stands, kept, fun other member => ?_, fun other member => ?_, fun slot held => ?_⟩
          · rcases List.mem_cons.mp (all.mem_iff.mp member) with rfl | before
            · simp only [unused, address]
              omega
            · have old := sound.old other before
              simp only [unused]
              omega
          · rcases List.mem_cons.mp (all.mem_iff.mp member) with rfl | before
            · simpa only [address] using has
            · have old := sound.old other before
              rw [fields _ (by simp only; omega)]
              exact sound.common other before
          · by_cases here : slot.1 = d.logger.unused
            · exact ⟨e, all.mem_iff.mpr List.mem_cons_self, address.trans here.symm⟩
            · rw [fields slot here] at held
              obtain ⟨other, before, owns⟩ := sound.owned slot held
              exact ⟨other, all.mem_iff.mpr (List.mem_cons_of_mem _ before), owns⟩
        · exact ⟨driver.trans names.1, applicationName.trans names.2.1, logFormat.trans names.2.2,
            fun other before => all.mem_iff.mpr (List.mem_cons_of_mem _ before), written⟩
        · rintro e' ⟨⟩
          exact all.mem_iff.mpr List.mem_cons_self

/-- A rotation always succeeds; the entries keep their `FILE`s or get others. -/
theorem rotated_sound (sound : Sound d) (dualFile : Bool) (e : LogFileEntry) (now : Moment) (opens : Opens) :
    ∃ d', rotated d dualFile e now opens = some d' ∧ Sound d' ∧ Onwards d d' := by
  have settled : ∀ {m : Desk} (date : Date), Kept m → m.logger = d.logger → m.written = d.written →
      (∀ slot, (m.fd slot).isSome = (d.fd slot).isSome) →
      Sound { m with logger := { m.logger with date := date } } ∧ Onwards d { m with logger := { m.logger with date := date } } := by
    intro m date kept logger written fields
    refine ⟨⟨?_, kept, ?_, ?_, ?_⟩, ?_⟩
    · simpa only [logger] using sound.stands
    · simpa only [logger] using sound.old
    · intro e member
      simp only [logger] at member
      exact (fields _).trans (sound.common e member)
    · intro slot held
      simp only [logger]
      exact sound.owned slot ((fields slot).symm.trans held)
    · exact ⟨by simp only [logger], by simp only [logger], by simp only [logger],
        by simp only [logger]; exact fun _ member => member, written⟩
  unfold rotated
  split
  · obtain ⟨m, first, keptM, loggerM, writtenM, fieldsM⟩ :=
      rotateField_kept sound.kept (e.address, .common) opens.commonAgain
    cases dualFile with
    | false =>
      obtain ⟨ends, onwards⟩ := settled now.date keptM loggerM writtenM fieldsM
      exact ⟨_, by simp [first], ends, onwards⟩
    | true =>
      obtain ⟨k, second, keptK, loggerK, writtenK, fieldsK⟩ :=
        rotateField_kept keptM (e.address, .error) opens.errorAgain
      obtain ⟨ends, onwards⟩ := settled now.date keptK (loggerK.trans loggerM) (writtenK.trans writtenM)
        fun slot => (fieldsK slot).trans (fieldsM slot)
      exact ⟨_, by simp [first, second], ends, onwards⟩
  · exact ⟨d, rfl, sound, ⟨rfl, rfl, rfl, fun _ member => member, rfl⟩⟩

/-- The line depends on the names and on the format of the logger only. -/
theorem fileLogBuildLine_onwards (onwards : Onwards d d') (call : Call) :
    fileLogBuildLine d'.logger call = fileLogBuildLine d.logger call := by
  have header : lineHeader d'.logger call = lineHeader d.logger call := by
    unfold lineHeader
    rw [onwards.applicationName, onwards.logFormat]
  unfold fileLogBuildLine
  rw [header]

/-- The first section of a call succeeds if its line stays in the buffer. -/
theorem enterCall_sound (sound : Sound d) (call : Call) (opens : Opens) :
    (∀ d' out, enterCall d call opens = some (d', out) → Sound d' ∧ Onwards d d' ∧
      ∀ e text, out = .ok (e, text) → e ∈ entries d'.logger.logFiles) ∧
    ((fileLogBuildLine d.logger call).isSome → (enterCall d call opens).isSome) := by
  obtain ⟨m, found, entry, soundM, onM, has⟩ :=
    entryFor_sound sound (destToUse d.logger call.logDestination) (isDual d.logger) opens
  simp only [enterCall, entry, Option.bind_eq_bind, Option.bind_some]
  cases found with
  | error error =>
    refine ⟨fun d' out ran => ?_, fun _ => rfl⟩
    cases ran
    exact ⟨soundM, onM, fun e text ok => by cases ok⟩
  | ok e =>
    obtain ⟨k, rotation, soundK, onK⟩ := rotated_sound soundM (isDual m.logger) e call.now opens
    simp only [rotation, Option.bind_some, fileLogBuildLine_onwards (onM.trans onK)]
    cases line : fileLogBuildLine d.logger call with
    | none => simp
    | some built =>
      refine ⟨fun d' out ran => ?_, fun _ => ?_⟩
      · cases built with
        | error error =>
          cases ran
          exact ⟨soundK, onM.trans onK, fun e text ok => by cases ok⟩
        | ok text =>
          cases ran
          refine ⟨soundK, onM.trans onK, ?_⟩
          rintro e' text' ⟨⟩
          exact onK.entries e (has e rfl)
      · cases built <;> rfl

/-! ### The second section, and the end -/

/-- What a call writes: to the error file of a dual-file entry, if severe, and to the common one. -/
def linesOf (d : Desk) (e : LogFileEntry) (call : Call) (text : Text) : List (File × Text) :=
  (if isDual d.logger ∧ isSevere call.logLevel then (d.fd (e.address, .error)).toList.map (·, text) else []) ++
    (d.fd (e.address, .common)).toList.map (·, text)

/-- What a field holds can be written to. -/
theorem write_held (kept : Kept d) {slot : Nat × Field} {f : Option File} (held : d.fd slot = f) (text : Text) :
    fileLogWrite d f text = some { d with written := d.written ++ f.toList.map (·, text) } := by
  cases f with
  | none => simp [fileLogWrite]
  | some f =>
    cases f with
    | opened n =>
      have mine : LoggingFiles.number (d.fd slot) = some n := by rw [held, LoggingFiles.number]
      have out := (kept.held slot n mine).2
      rw [List.mem_append, not_or] at out
      simp [fileLogWrite, out.1]
    | stdout => rfl
    | stderr => rfl

/-- The second section always succeeds, and writes the lines of the call. -/
theorem finishCall_eq (sound : Sound d) (member : e ∈ entries d.logger.logFiles) (call : Call) (text : Text) :
    finishCall d e call text = some { d with written := d.written ++ linesOf d e call text } := by
  have common : ∀ more, fileLogWrite { d with written := more } (d.fd (e.address, .common)) text =
      some { d with written := more ++ (d.fd (e.address, .common)).toList.map (·, text) } :=
    fun more => write_held (d := { d with written := more }) sound.kept rfl text
  rw [finishCall, assert_true member]
  simp only [Option.bind_eq_bind, Option.bind_some]
  split
  · rename_i both
    rw [write_held sound.kept rfl text, Option.bind_some, common, linesOf, if_pos both, List.append_assoc]
  · rename_i one
    rw [common d.written, linesOf, if_neg one, List.nil_append]

/-- Entries one after the other give back what they hold. -/
theorem destroyAll_kept (kept : Kept d) (all : List LogFileEntry) :
    ∃ d', all.foldlM logFileEntryDestroy d = some d' ∧ Kept d' ∧
      ∀ slot, d'.fd slot = if slot.1 ∈ all.map LogFileEntry.address then none else d.fd slot := by
  induction all generalizing d with
  | nil => exact ⟨d, rfl, kept, fun slot => by simp⟩
  | cons e all ih =>
    obtain ⟨m, destroyed, keptM, _, _, fields⟩ := destroy_kept kept e
    obtain ⟨d', rest, kept', fields'⟩ := ih keptM
    refine ⟨d', ?_, kept', fun slot => ?_⟩
    · rw [List.foldlM_cons, destroyed]
      exact rest
    · rw [fields', fields]
      obtain ⟨a, field⟩ := slot
      by_cases here : a = e.address
      · subst here
        cases field <;> simp
      · simp [here]

/-- `log_destroy` closes what is open, but for what was left open. -/
theorem logDestroy_closes (sound : Sound d) :
    ∃ d', logDestroy d = some d' ∧ (d'.closed ++ d'.left).Perm (List.range d'.given) := by
  have released : ∀ record ∈ records d.logger.logFiles, HashLife.Released d.logger.logFiles record :=
    fun record _ => no_cursors sound.stands record.address
  have table := HashLife.hashDestroyTable_iff.mpr ⟨released, rfl, rfl⟩
  obtain ⟨d', destroyed, kept, fields⟩ := destroyAll_kept sound.kept (entries d.logger.logFiles)
  refine ⟨d', ?_, issued_all kept fun slot => ?_⟩
  · rw [logDestroy, table]
    exact destroyed
  · rw [fields]
    by_cases held : slot.1 ∈ (entries d.logger.logFiles).map LogFileEntry.address
    · rw [if_pos held]
      rfl
    · have empty : d.fd slot = none := by
        rw [← Option.not_isSome_iff_eq_none]
        intro has
        obtain ⟨e, member, owns⟩ := sound.owned slot has
        exact held (List.mem_map.mpr ⟨e, member, owns⟩)
      rw [if_neg held, empty]
      rfl

/-- What `log_create` makes. -/
theorem logCreate_sound {applicationName : Text} {driver : LoggingDriver} {driverArguments : Option Text} {today : Date}
    (created : logCreate applicationName driver driverArguments today opens = some d) : Sound d := by
  have kept : Kept ⟨loggerCreateCommon driver applicationName today, fun _ => none, 0, [], [], []⟩ :=
    issued_none fun _ => rfl
  obtain ⟨m, out, entry, logger, keptM, _, fields, cases⟩ :=
    create_cases kept (fun _ => rfl) driverArguments (driver = .dualFile) opens
  have files : m.logger.logFiles = hashCreateTable logFileFuncs := by rw [logger]; rfl
  rw [logCreate, entry] at created
  rcases cases with ⟨error, rfl, _⟩ | ⟨e, rfl, address, has⟩
  · cases created
  · simp only [Option.some.injEq] at created
    subst created
    have stands : Stands lawful_entries m.logger.logFiles := by rw [files]; exact create_stands _
    have empty : entries m.logger.logFiles = [] := by rw [files]; exact entries_create
    obtain ⟨l, added, adding, unused, _, _, _, outcome⟩ :=
      addEntry_cases (l := { m.logger with logFileFullName := e.fullName }) stands e
    have first : e.address < l.unused := by
      rw [unused, address]
      simp only [logger]
      omega
    have only : ∀ slot, (m.fd slot).isSome → slot.1 = e.address := by
      intro slot held
      by_contra other
      rw [address] at other
      rw [fields slot other] at held
      cases held
    simp only [adding]
    rcases outcome with ⟨rfl, table⟩ | ⟨rfl, stands', all⟩
    · -- The table is empty, so that nothing refuses the entry.
      have unheld : hashFind m.logger.logFiles e = none := by
        rw [hashFind_none stands, empty]
        simp
      obtain ⟨_, added, _⟩ := hashAdd_new stands unheld m.logger.unused
      simp only [addEntry, added, Prod.mk.injEq, one_ne_zero, and_false] at adding
    · rw [empty] at all
      have members : ∀ other, other ∈ entries l.logFiles ↔ other = e := by
        intro other
        rw [all.mem_iff, List.mem_singleton]
      refine ⟨stands', keptM, fun other member => ?_, fun other member => ?_, fun slot held => ?_⟩
      · rw [(members other).mp member]
        exact first
      · rw [(members other).mp member, address]
        exact has
      · exact ⟨e, (members e).mpr rfl, (only slot held).symm⟩

end

/-! ### Runs -/

/-- The entries that threads have are in use. -/
structure Steady (s : State τ) : Prop where
  sound : Sound s.desk
  entries : ∀ t e call text, s.calls t = some (e, call, text) → e ∈ entries s.desk.logger.logFiles

variable [DecidableEq τ] {s s' : State τ}

theorem step_steady (steady : Steady s) (move : Move τ) (stepped : step s move = some s') : Steady s' := by
  cases move with
  | enter t call opens =>
    simp only [step, Option.bind_eq_bind, Option.bind_eq_some_iff] at stepped
    obtain ⟨_, _, ⟨desk, out⟩, entered, done⟩ := stepped
    obtain ⟨sound, onwards, has⟩ := (enterCall_sound steady.sound call opens).1 desk out entered
    have kept : ∀ u e call text, s.calls u = some (e, call, text) → e ∈ HashSet.entries desk.logger.logFiles :=
      fun u e call text held => onwards.entries e (steady.entries u e call text held)
    cases out with
    | error error =>
      cases done
      exact ⟨sound, kept⟩
    | ok found =>
      cases done
      refine ⟨sound, fun u e other text held => ?_⟩
      change Function.update s.calls t _ u = _ at held
      by_cases mine : u = t
      · rw [mine, Function.update_self] at held
        cases held
        exact has _ _ rfl
      · rw [Function.update_of_ne mine] at held
        exact kept u e other text held
  | finish t =>
    simp only [step, Option.bind_eq_bind, Option.bind_eq_some_iff] at stepped
    obtain ⟨⟨e, call, text⟩, held, desk, finished, done⟩ := stepped
    rw [finishCall_eq steady.sound (steady.entries t e call text held)] at finished
    cases finished
    cases done
    refine ⟨⟨steady.sound.stands, steady.sound.kept, steady.sound.old, steady.sound.common, steady.sound.owned⟩, ?_⟩
    intro u e other text held
    change Function.update s.calls t none u = _ at held
    by_cases mine : u = t
    · rw [mine, Function.update_self] at held
      cases held
    · rw [Function.update_of_ne mine] at held
      exact steady.entries u e other text held

/-- What holds however threads call. -/
structure Safe (s : State τ) : Prop where
  /-- A thread can always call, unless the line leaves its buffer. -/
  enters : ∀ t call opens, s.calls t = none → (fileLogBuildLine s.desk.logger call).isSome →
    (step s (.enter t call opens)).isSome
  /-- A thread whose message is formatted writes it, to files that are open. -/
  finishes : ∀ t e call text, s.calls t = some (e, call, text) →
    (s.desk.fd (e.address, .common)).isSome ∧
      step s (.finish t) = some ⟨{ s.desk with written := s.desk.written ++ linesOf s.desk e call text },
        Function.update s.calls t none, s.returned ++ [(t, call, none)]⟩
  /-- After `log_destroy`, each `FILE` has been closed once, or was left open by an entry
      that could not be made. -/
  ends : ∃ d, logDestroy s.desk = some d ∧ (d.closed ++ d.left).Perm (List.range d.given)

/-- Whichever calls the threads make, and whenever opening a file fails. -/
theorem threads_safe {applicationName : Text} {driver : LoggingDriver} {driverArguments : Option Text} {today : Date}
    {opens : Opens} {d : Desk} (created : logCreate applicationName driver driverArguments today opens = some d)
    {moves : List (Move τ)} (ran : run step (idle d) moves = some s) : Safe s := by
  have start : Steady (idle d : State τ) := ⟨logCreate_sound created, by intro t e call text held; cases held⟩
  have each : ∀ (s : State τ) (move : Move τ) (s' : State τ), Steady s → step s move = some s' → Steady s' :=
    fun _ move _ steady stepped => step_steady steady move stepped
  have steady := run_invariant each start ran
  refine ⟨fun t call opens free fits => ?_, fun t e call text held => ?_, logDestroy_closes steady.sound⟩
  · obtain ⟨⟨desk, out⟩, entered⟩ := Option.isSome_iff_exists.mp ((enterCall_sound steady.sound call opens).2 fits)
    simp only [step, free, Option.isNone_none, assert_true, entered, Option.bind_eq_bind, Option.bind_some]
    cases out <;> rfl
  · have member := steady.entries t e call text held
    refine ⟨steady.sound.common e member, ?_⟩
    simp only [step, held, finishCall_eq steady.sound member, Option.bind_eq_bind, Option.bind_some]
    rfl

/-- Every `fopen` of a call succeeds, but for the common file when it is opened again. -/
def onceOnly : Opens := ⟨true, true, false, true, .root ⟨.errno, 24, lit "Too many open files"⟩⟩

/-- One thread rotates its entry, whose common file is not opened again; another one finds the
    same entry while the first formats its message. -/
theorem threads_safe_two : ∃ d, logCreate (lit "app") .dualFile (some (lit "server.txt")) christmasEve.weekAgo onceOnly = some d ∧
    ∃ s, run step (idle d : State Bool) [.enter false (notice (lit "audit")) onceOnly,
      .enter true (notice (lit "audit")) onceOnly, .finish true, .finish false] = some s ∧ Safe s := by
  obtain ⟨s, out⟩ := Option.isSome_iff_exists.mp (show
    ((logCreate (lit "app") .dualFile (some (lit "server.txt")) christmasEve.weekAgo onceOnly).bind fun d =>
      run step (idle d : State Bool) [.enter false (notice (lit "audit")) onceOnly,
        .enter true (notice (lit "audit")) onceOnly, .finish true, .finish false]).isSome from by decide +kernel)
  obtain ⟨d, created, ran⟩ := Option.bind_eq_some_iff.mp out
  exact ⟨d, created, s, ran, threads_safe created ran⟩

end VoxiUtil.LoggingThreads
