import VoxiUtil.Logging
import VoxiUtil.Runs

/-!
The entries of a logger. An entry is looked for by the name that the call makes of its
destination, and kept by the name that its creation makes; the two differ only for
the console, when it is not spelled as the source spells it.
-/
namespace VoxiUtil.LoggingEntries
open VoxiUtil.CString VoxiUtil.Err VoxiUtil.Hash VoxiUtil.HashSet VoxiUtil.WordMap VoxiUtil.Logging VoxiUtil.Runs

/-- The console, in other letters than the entry of the console has. -/
def Misspelt (name : Text) : Prop := strcaseEq name logDestinationConsole = true ∧ name ≠ logDestinationConsole

/-- The time stamp and the header leave the message a place in the buffer. -/
def Fits (l : Logger) (call : Call) : Prop :=
  call.now.stamp ≠ [] ∧ call.now.stamp.length < bufferLength ∧ (call.now.stamp ++ lineHeader l call).length ≤ bufferLength

/-- Every call but a misspelt one for the console, while there is an entry for it. -/
def Accepts (l : Logger) (call : Call) : Prop :=
  (∀ destination, call.logDestination = some destination → Misspelt destination →
    logFileHashTableFind l.logFiles logDestinationConsole = none) ∧ Fits l call

/-- The logger after a call, whatever the call returned. -/
def step (l : Logger) (call : Call) : Option Logger := (logLogText l call).map Prod.fst

/-- Whether the driver keeps two files for an entry. -/
def isDual (l : Logger) : Bool := l.driver = .dualFile

/-- What a call does with its entry: it returns no error, has the entry that an earlier call for
    the same destination had, finds it then, and leaves its line at the end of the
    entry's file. -/
structure Served (earlier : Option LogFileEntry) (l : Logger) (call : Call) (l' : Logger) (e : LogFileEntry) : Prop where
  returned : logLogText l call = some (l', none)
  used : (entryFor l (destToUse l call.logDestination) (isDual l)).2 = .ok e
  kept : e ∈ entries l'.logFiles
  again : ∀ before, earlier = some before →
    logFileHashTableFind l.logFiles (destToUse l call.logDestination) = some before ∧ e = before
  written : ∃ fd text, l'.commonFd e.address = some fd ∧ fileLogBuildLine l call = some (.ok text) ∧
    (l'.lines fd).getLast? = some ⟨call.now.date, text⟩

/-- All calls of a run are served; `given` are the entries that the destinations had so far. -/
def OneEntryEach (given : Option Text → Option LogFileEntry) (l : Logger) : List Call → Prop
  | [] => True
  | call :: rest => ∃ l' e, Served (given call.logDestination) l call l' e ∧
      OneEntryEach (Function.update given call.logDestination (some e)) l' rest

theorem comp_iff (a b : LogFileEntry) : logFileFuncs.compData a b = 0 ↔ a.fullName = b.fullName := strcmp_eq_zero _ _

theorem lawful_entries : Lawful logFileFuncs where
  refl a := (comp_iff a a).mpr rfl
  symm a b same := (comp_iff b a).mpr ((comp_iff a b).mp same).symm
  trans a b c first second := (comp_iff a c).mpr (((comp_iff a b).mp first).trans ((comp_iff b c).mp second))
  hash a b same := congrArg hashString ((comp_iff a b).mp same)

/-- What calls keep. -/
structure Inv (given : Option Text → Option LogFileEntry) (l : Logger) : Prop where
  stands : Stands lawful_entries l.logFiles
  standard : ∃ e ∈ entries l.logFiles, e.fullName = l.logFileFullName
  spelled : ∀ e ∈ entries l.logFiles, ¬ Misspelt e.fullName
  opened : ∀ e ∈ entries l.logFiles, e.address < l.unused ∧ ∃ fd, l.commonFd e.address = some fd
  remembered : ∀ destination e, given destination = some e → e ∈ entries l.logFiles ∧
    (e.fullName = destToUse l destination ∨
      e.fullName = logDestinationConsole ∧ ∃ name, destination = some name ∧ Misspelt name)

section
variable {given : Option Text → Option LogFileEntry} {l l' : Logger} {call : Call} {e : LogFileEntry} {name : Text}

theorem find_iff {ht : Hasht logFileFuncs} (stands : Stands lawful_entries ht) :
    logFileHashTableFind ht name = some e ↔ e ∈ entries ht ∧ e.fullName = name := by
  rw [logFileHashTableFind, hashFind_iff stands, comp_iff]

theorem find_none {ht : Hasht logFileFuncs} (stands : Stands lawful_entries ht) :
    logFileHashTableFind ht name = none ↔ ∀ e ∈ entries ht, e.fullName ≠ name := by
  rw [logFileHashTableFind, hashFind_none stands]
  simp only [ne_eq, comp_iff]

/-- Entries with the same full name are the same. -/
theorem entries_same {ht : Hasht logFileFuncs} (stands : Stands lawful_entries ht) {a b : LogFileEntry}
    (first : a ∈ entries ht) (second : b ∈ entries ht) (same : a.fullName = b.fullName) : a = b :=
  entries_separate stands first second ((comp_iff a b).mpr same)

theorem strcaseEq_length {a b : Text} (same : strcaseEq a b = true) : a.length = b.length := by
  have maps : a.map toLower = b.map toLower := by simpa [strcaseEq] using same
  simpa using congrArg List.length maps

/-- Every spelling of the console is without a dot. -/
theorem console_dotless (console : strcaseEq name logDestinationConsole = true) : (46 : UInt8) ∉ name := by
  have maps : name.map toLower = logDestinationConsole.map toLower := by simpa [strcaseEq] using console
  intro dot
  have lower : toLower 46 ∈ logDestinationConsole.map toLower := maps ▸ List.mem_map_of_mem dot
  exact absurd lower (by decide)

theorem not_misspelt (same : name = logDestinationConsole ∨ (46 : UInt8) ∈ name) : ¬ Misspelt name := by
  rintro ⟨console, differs⟩
  rcases same with same | dot
  · exact differs same
  · exact console_dotless console dot

/-- `l'` differs from `l` in the date, the lines and the streams, and no common stream is closed. -/
structure Framed (l l' : Logger) : Prop where
  driver : l'.driver = l.driver
  applicationName : l'.applicationName = l.applicationName
  logFileFullName : l'.logFileFullName = l.logFileFullName
  logFormat : l'.logFormat = l.logFormat
  logFiles : l'.logFiles = l.logFiles
  unused : l'.unused = l.unused
  opened : ∀ address, (∃ fd, l.commonFd address = some fd) → ∃ fd, l'.commonFd address = some fd

theorem Framed.trans {m : Logger} (first : Framed l m) (second : Framed m l') : Framed l l' :=
  ⟨second.driver.trans first.driver, second.applicationName.trans first.applicationName,
    second.logFileFullName.trans first.logFileFullName, second.logFormat.trans first.logFormat,
    second.logFiles.trans first.logFiles, second.unused.trans first.unused,
    fun address before => second.opened address (first.opened address before)⟩

theorem framed_rotateCommon (l : Logger) (e : LogFileEntry) (specifier : Text) (now : Moment) :
    Framed l (rotateCommon l e specifier now) := by
  unfold rotateCommon
  split
  · refine ⟨rfl, rfl, rfl, rfl, rfl, rfl, fun address before => ?_⟩
    by_cases same : address = e.address
    · exact ⟨_, by rw [same]; exact Function.update_self ..⟩
    · obtain ⟨fd, fdIs⟩ := before
      exact ⟨fd, (Function.update_of_ne same ..).trans fdIs⟩
  · exact ⟨rfl, rfl, rfl, rfl, rfl, rfl, fun _ before => before⟩

theorem framed_rotateError (l : Logger) (e : LogFileEntry) (specifier : Text) (now : Moment) :
    Framed l (rotateError l e specifier now) := by
  unfold rotateError
  split <;> exact ⟨rfl, rfl, rfl, rfl, rfl, rfl, fun _ before => before⟩

theorem framed_write (l : Logger) (f : Option Stream) (line : Line) : Framed l (fileLogWrite l f line) := by
  unfold fileLogWrite
  split <;> exact ⟨rfl, rfl, rfl, rfl, rfl, rfl, fun _ before => before⟩

theorem framed_dated (l : Logger) (date : Date) : Framed l { l with date := date } :=
  ⟨rfl, rfl, rfl, rfl, rfl, rfl, fun _ before => before⟩

theorem framed_fileRotated (l : Logger) (e : LogFileEntry) (now : Moment) : Framed l (fileRotated l e now) := by
  unfold fileRotated
  split
  · exact (framed_rotateCommon l e [] now).trans (framed_dated _ _)
  · exact framed_dated l l.date

theorem framed_dualFileRotated (l : Logger) (e : LogFileEntry) (now : Moment) : Framed l (dualFileRotated l e now) := by
  unfold dualFileRotated
  split
  · exact ((framed_rotateCommon l e _ now).trans (framed_rotateError _ e _ now)).trans (framed_dated _ _)
  · exact framed_dated l l.date

/-- A write to a stream puts the line at the end of its file. -/
theorem written_last {fd : Stream} {line : Line} : ((fileLogWrite l (some fd) line).lines fd).getLast? = some line := by
  rw [fileLogWrite]
  simp

/-- What the two drivers have in common. -/
structure Driven (dualFile : Bool) (rotated : Logger → LogFileEntry → Moment → Logger)
    (written : Logger → LogFileEntry → Call → Line → Logger) : Prop where
  rotates : ∀ l e now, Framed l (rotated l e now)
  writes : ∀ l e call line, Framed l (written l e call line)
  last : ∀ l e call line fd, l.commonFd e.address = some fd →
    (written l e call line).commonFd e.address = some fd ∧ ((written l e call line).lines fd).getLast? = some line

theorem driven_file : Driven false fileRotated fileWritten where
  rotates := framed_fileRotated
  writes l e _ line := framed_write l _ line
  last l e call line fd fdIs := by
    rw [fileWritten, fdIs]
    exact ⟨fdIs, written_last⟩

theorem driven_dualFile : Driven true dualFileRotated dualFileWritten where
  rotates := framed_dualFileRotated
  writes l e call line := by
    unfold dualFileWritten
    split
    all_goals first
      | exact (framed_write l _ line).trans (framed_write _ _ line)
      | exact framed_write l _ line
  last l e call line fd fdIs := by
    have common : ∀ f, (fileLogWrite l f line).commonFd e.address = some fd := by
      intro f
      cases f <;> exact fdIs
    have ends : ∀ m : Logger, m.commonFd e.address = some fd →
        (fileLogWrite m (m.commonFd e.address) line).commonFd e.address = some fd ∧
          ((fileLogWrite m (m.commonFd e.address) line).lines fd).getLast? = some line := by
      intro m there
      rw [there]
      exact ⟨there, written_last⟩
    unfold dualFileWritten
    split
    all_goals first
      | exact ends _ (common _)
      | exact ends l fdIs

theorem logLogText_driven (l : Logger) (call : Call) : ∃ rotated written,
    Driven (isDual l) rotated written ∧ logLogText l call = logTextWith (isDual l) rotated written l call := by
  unfold logLogText isDual
  cases l.driver with
  | file => exact ⟨_, _, driven_file, rfl⟩
  | dualFile => exact ⟨_, _, driven_dualFile, rfl⟩

/-- The full name of the entry that is made for a name. -/
def createdName (name : Text) : Text :=
  if strcaseEq name logDestinationConsole then logDestinationConsole
  else fileName (dotted (splitName name).1 (splitName name).2)

/-- The new entry is `e`: it has a block of its own and an open stream, and is in no table yet. -/
structure Created (l : Logger) (name : Text) (l' : Logger) (e : LogFileEntry) : Prop where
  fullName : e.fullName = createdName name
  address : e.address = l.unused
  unused : l'.unused = l.unused + 1
  driver : l'.driver = l.driver
  applicationName : l'.applicationName = l.applicationName
  logFileFullName : l'.logFileFullName = l.logFileFullName
  logFormat : l'.logFormat = l.logFormat
  logFiles : l'.logFiles = l.logFiles
  opened : ∃ fd, l'.commonFd l.unused = some fd
  others : ∀ address, address ≠ l.unused →
    l'.commonFd address = l.commonFd address ∧ l'.errorFd address = l.errorFd address
  lines : l'.lines = l.lines
  date : l'.date = l.date
  console : strcaseEq name logDestinationConsole = true →
    e.fileName = none ∧ isLogFile (l'.commonFd l.unused) = false ∧ isLogFile (l'.errorFd l.unused) = false
  file : ¬ strcaseEq name logDestinationConsole = true →
    e.fileName = some (splitName name).1 ∧ e.fileExtension = some (splitName name).2 ∧
    l'.commonFd l.unused = some (.file (logPath (splitName name).1 (lit "_Common") (splitName name).2)) ∧
    l'.errorFd l.unused = some (.file (logPath (splitName name).1 (lit "_Error") (splitName name).2))

theorem created_entry (l : Logger) (name : Option Text) (dualFile : Bool) :
    Created l (name.getD logDestinationConsole) (logFileEntryCreate l name dualFile).1 (logFileEntryCreate l name dualFile).2 := by
  unfold logFileEntryCreate
  by_cases console : strcaseEq (name.getD logDestinationConsole) logDestinationConsole = true
  · simp only [console, ↓reduceIte]
    refine ⟨by rw [createdName, if_pos console], rfl, rfl, rfl, rfl, rfl, rfl, rfl, ⟨_, Function.update_self ..⟩,
      fun _ other => ⟨Function.update_of_ne other .., Function.update_of_ne other ..⟩, rfl, rfl, fun _ => ⟨rfl, ?_, ?_⟩,
      fun other => absurd console other⟩
    · have stream := Function.update_self l.unused (some (if dualFile = true then Stream.stdout else .stderr)) l.commonFd
      refine (congrArg isLogFile stream).trans ?_
      cases dualFile <;> rfl
    · have stream := Function.update_self l.unused (if dualFile = true then some Stream.stderr else none) l.errorFd
      refine (congrArg isLogFile stream).trans ?_
      cases dualFile <;> rfl
  · simp only [console, Bool.false_eq_true, ↓reduceIte]
    exact ⟨by rw [createdName, if_neg console], rfl, rfl, rfl, rfl, rfl, rfl, rfl, ⟨_, Function.update_self ..⟩,
      fun _ other => ⟨Function.update_of_ne other .., Function.update_of_ne other ..⟩, rfl, rfl,
      fun same => absurd same console, fun _ => ⟨rfl, rfl, Function.update_self .., Function.update_self ..⟩⟩

/-- A name with a dot, if it fits the buffer, is put together again from its parts. -/
theorem createdName_dot (dot : (46 : UInt8) ∈ name) (short : name.length < maxFilenameLength) : createdName name = name := by
  have other : ¬ strcaseEq name logDestinationConsole = true := fun console => console_dotless console dot
  rw [createdName, if_neg other, splitName]
  cases split : strrchr name 46 with
  | none => exact absurd dot (strrchr_eq_none.mp split)
  | some parts =>
    obtain ⟨before, extension⟩ := parts
    obtain ⟨rfl, _⟩ := strrchr_eq_some.mp split
    exact List.take_of_length_le (Nat.le_sub_one_of_lt short)

/-- Names are never made that are a misspelt console. -/
theorem createdName_spelled (name : Text) : ¬ Misspelt (createdName name) := by
  unfold createdName
  split
  · exact not_misspelt (.inl rfl)
  · rintro ⟨console, _⟩
    -- A name that was cut is longer than the console's.
    have length := strcaseEq_length console
    by_cases cut : (dotted (splitName name).1 (splitName name).2).length ≤ maxFilenameLength - 1
    · rw [fileName, List.take_of_length_le cut] at console
      exact console_dotless console (by simp [dotted])
    · rw [fileName, List.length_take, Nat.min_eq_left (by omega)] at length
      exact absurd length (by decide)

/-- What `entryFor` can do: find the entry, make one, or refuse because the name that it makes
    has an entry already. -/
theorem entryFor_cases (stands : Stands lawful_entries l.logFiles) (name : Text) (dualFile : Bool) :
    (∃ e, logFileHashTableFind l.logFiles name = some e ∧ entryFor l name dualFile = (l, .ok e)) ∨
    (logFileHashTableFind l.logFiles name = none ∧ (∃ e ∈ entries l.logFiles, e.fullName = createdName name) ∧
      ∃ m e error, entryFor l name dualFile = ({ m with unused := m.unused + 1 }, .error error) ∧ Created l name m e) ∨
    (logFileHashTableFind l.logFiles name = none ∧ (∀ e ∈ entries l.logFiles, e.fullName ≠ createdName name) ∧
      ∃ l' e m, entryFor l name dualFile = (l', .ok e) ∧ Created l name m e ∧ Stands lawful_entries l'.logFiles ∧
        (entries l'.logFiles).Perm (e :: entries l.logFiles) ∧
        l' = { m with logFiles := l'.logFiles, unused := m.unused + 1 }) := by
  cases found : logFileHashTableFind l.logFiles name with
  | some e => exact .inl ⟨e, rfl, by simp only [entryFor, found]⟩
  | none =>
    right
    have created := created_entry l (some name) dualFile
    cases held : hashFind l.logFiles (logFileEntryCreate l (some name) dualFile).2 with
    | some before =>
      left
      obtain ⟨member, same⟩ := (hashFind_iff stands).mp held
      refine ⟨rfl, ⟨before, member, ((comp_iff _ _).mp same).trans created.fullName⟩, ?_⟩
      have refused := hashAdd_held stands held (logFileEntryCreate l (some name) dualFile).1.unused
      refine ⟨_, _, errNew .logging 0 none (lit "Failed to create log file entry for '" ++ name ++ lit "'."), ?_, created⟩
      simp only [entryFor, found, addEntry, created.logFiles, refused, ↓reduceIte]
    | none =>
      right
      obtain ⟨after, added, kept, all⟩ := hashAdd_new stands held (logFileEntryCreate l (some name) dualFile).1.unused
      refine ⟨rfl, fun e member same => ?_, ?_⟩
      · exact (hashFind_none stands).mp held e member ((comp_iff _ _).mpr (same.trans created.fullName.symm))
      · simp only [entryFor, found, addEntry, created.logFiles, added]
        exact ⟨_, _, _, rfl, created, kept, all, rfl⟩

theorem buildLine_iff (l : Logger) (call : Call) : (∃ text, fileLogBuildLine l call = some (.ok text)) ↔ Fits l call := by
  unfold fileLogBuildLine Fits
  by_cases stamped : call.now.stamp.length = 0 ∨ bufferLength ≤ call.now.stamp.length
  · rw [if_pos stamped]
    refine iff_of_false (by simp) ?_
    rintro ⟨some, shorter, _⟩
    rcases stamped with empty | long
    · exact some (List.length_eq_zero_iff.mp empty)
    · omega
  · rw [if_neg stamped]
    simp only [not_or, Nat.not_le] at stamped
    have some : call.now.stamp ≠ [] := fun empty => stamped.1 (by rw [empty, List.length_nil])
    by_cases room : (call.now.stamp ++ lineHeader l call).length ≤ bufferLength
    · rw [if_pos room]
      exact iff_of_true ⟨_, rfl⟩ ⟨some, stamped.2, room⟩
    · rw [if_neg room]
      exact iff_of_false (by simp) fun fits => room fits.2.2

/-- The name of the application and the format are all that a line has of the logger. -/
theorem buildLine_congr (application : l'.applicationName = l.applicationName) (format : l'.logFormat = l.logFormat)
    (call : Call) : fileLogBuildLine l' call = fileLogBuildLine l call := by
  have header : lineHeader l' call = lineHeader l call := by rw [lineHeader, lineHeader, application, format]
  rw [fileLogBuildLine, fileLogBuildLine, header]

/-- The names that entries are looked for by: the standard one, names with a dot, and the
    console in all spellings. -/
theorem destToUse_cases (short : ∀ destination, call.logDestination = some destination → destination.length < 4000) :
    destToUse l call.logDestination = l.logFileFullName ∨
    ((46 : UInt8) ∈ destToUse l call.logDestination ∧ (destToUse l call.logDestination).length < 4005) ∨
    ∃ destination, call.logDestination = some destination ∧ destToUse l call.logDestination = destination ∧
      strcaseEq destination logDestinationConsole = true := by
  cases given : call.logDestination with
  | none => exact .inl rfl
  | some destination =>
    have room : destination.length < 4000 := short destination given
    rw [destToUse]
    by_cases empty : destination.length > 0
    · rw [if_pos empty]
      right
      by_cases plain : strcaseEq destination logDestinationConsole = false ∧ strrchr destination 46 = none
      · rw [if_pos plain]
        have extension : filelogDefaultExtension.length = 3 := rfl
        have fits : (dotted destination filelogDefaultExtension).length ≤ maxFilenameLength - 1 := by
          rw [dotted, List.length_append, List.length_cons, extension, maxFilenameLength]
          omega
        rw [fileName, List.take_of_length_le fits]
        refine .inl ⟨by simp [dotted], ?_⟩
        rw [dotted, List.length_append, List.length_cons, extension]
        omega
      · rw [if_neg plain]
        by_cases dot : (46 : UInt8) ∈ destination
        · exact .inl ⟨dot, by omega⟩
        · refine .inr ⟨destination, rfl, rfl, ?_⟩
          by_contra other
          exact plain ⟨by simpa using other, strrchr_eq_none.mpr dot⟩
    · rw [if_neg empty]
      exact .inl rfl

theorem destToUse_misspelt {destination : Text} (given : call.logDestination = some destination) (misspelt : Misspelt destination) :
    destToUse l call.logDestination = destination := by
  have nonempty : destination.length > 0 := by
    rw [strcaseEq_length misspelt.1]
    decide
  rw [given, destToUse, if_pos nonempty, if_neg]
  simp [misspelt.1]

theorem destToUse_congr (same : l'.logFileFullName = l.logFileFullName) (destination : Option Text) :
    destToUse l' destination = destToUse l destination := by
  simp only [destToUse, same]

theorem inv_framed (inv : Inv given l) (framed : Framed l l') : Inv given l' := by
  have names := destToUse_congr framed.logFileFullName
  refine ⟨?_, ?_, ?_, ?_, ?_⟩
  · rw [framed.logFiles]; exact inv.stands
  · rw [framed.logFiles, framed.logFileFullName]; exact inv.standard
  · rw [framed.logFiles]; exact inv.spelled
  · rw [framed.logFiles, framed.unused]
    exact fun e member => ⟨(inv.opened e member).1, framed.opened _ (inv.opened e member).2⟩
  · intro destination e remembered
    rw [framed.logFiles, names]
    exact inv.remembered destination e remembered

/-- The entry of a call is remembered for its destination. -/
theorem inv_given (inv : Inv given l) (destination : Option Text) (member : e ∈ entries l.logFiles)
    (named : e.fullName = destToUse l destination ∨
      e.fullName = logDestinationConsole ∧ ∃ name, destination = some name ∧ Misspelt name) :
    Inv (Function.update given destination (some e)) l := by
  refine ⟨inv.stands, inv.standard, inv.spelled, inv.opened, fun other f remembered => ?_⟩
  by_cases same : other = destination
  · subst same
    cases (Function.update_self ..).symm.trans remembered
    exact ⟨member, named⟩
  · exact inv.remembered other f ((Function.update_of_ne same ..).symm.trans remembered)

/-- A new entry that the table refuses leaves blocks used. -/
theorem inv_refused {m : Logger} (inv : Inv given l) (created : Created l name m e) :
    Inv given { m with unused := m.unused + 1 } := by
  have unused : m.unused + 1 = l.unused + 2 := congrArg (· + 1) created.unused
  refine ⟨?_, ?_, ?_, ?_, ?_⟩
  · exact created.logFiles ▸ inv.stands
  · change ∃ e ∈ entries m.logFiles, e.fullName = m.logFileFullName
    rw [created.logFiles, created.logFileFullName]
    exact inv.standard
  · exact created.logFiles ▸ inv.spelled
  · intro f member
    obtain ⟨older, opened⟩ := inv.opened f (created.logFiles ▸ member)
    change f.address < m.unused + 1 ∧ ∃ fd, m.commonFd f.address = some fd
    refine ⟨by omega, ?_⟩
    rw [(created.others f.address (by omega)).1]
    exact opened
  · intro destination f remembered
    obtain ⟨member, named⟩ := inv.remembered destination f remembered
    have same : destToUse { m with unused := m.unused + 1 } destination = destToUse l destination :=
      destToUse_congr created.logFileFullName destination
    rw [same]
    exact ⟨created.logFiles.symm ▸ member, named⟩

theorem inv_made {m : Logger} (inv : Inv given l) (created : Created l name m e) (stands : Stands lawful_entries l'.logFiles)
    (all : (entries l'.logFiles).Perm (e :: entries l.logFiles))
    (shape : l' = { m with logFiles := l'.logFiles, unused := m.unused + 1 }) : Inv given l' := by
  have fullName : l'.logFileFullName = l.logFileFullName := by rw [shape]; exact created.logFileFullName
  have common : l'.commonFd = m.commonFd := by rw [shape]
  have unused : l'.unused = l.unused + 2 := by rw [shape]; exact congrArg (· + 1) created.unused
  have names := destToUse_congr fullName
  have old : ∀ f ∈ entries l.logFiles, f ∈ entries l'.logFiles := fun f member => all.mem_iff.mpr (List.mem_cons_of_mem _ member)
  refine ⟨stands, ?_, ?_, ?_, ?_⟩
  · obtain ⟨f, member, named⟩ := inv.standard
    exact ⟨f, old f member, named.trans fullName.symm⟩
  · intro f member
    rcases List.mem_cons.mp (all.mem_iff.mp member) with rfl | before
    · rw [created.fullName]
      exact createdName_spelled name
    · exact inv.spelled f before
  · intro f member
    rw [unused, common]
    rcases List.mem_cons.mp (all.mem_iff.mp member) with rfl | before
    · rw [created.address]
      exact ⟨by omega, created.opened⟩
    · obtain ⟨older, opened⟩ := inv.opened f before
      rw [(created.others f.address (by omega)).1]
      exact ⟨by omega, opened⟩
  · intro destination f remembered
    obtain ⟨member, named⟩ := inv.remembered destination f remembered
    rw [names]
    exact ⟨old f member, named⟩

/-- A call for which an entry is found or made. -/
theorem logTextWith_ok {dualFile : Bool} {rotated : Logger → LogFileEntry → Moment → Logger}
    {written : Logger → LogFileEntry → Call → Line → Logger} {m : Logger} {text : Text}
    (entry : entryFor l (destToUse l call.logDestination) dualFile = (m, .ok e))
    (line : fileLogBuildLine (rotated m e call.now) call = some (.ok text)) :
    logTextWith dualFile rotated written l call =
      some (written (rotated m e call.now) e call ⟨call.now.date, text⟩, none) := by
  simp only [logTextWith, entry, line, Option.map_some]

/-- The name of a new entry is the destination that was asked for, or that of the console. -/
theorem createdName_destination (inv : Inv given l)
    (short : ∀ destination, call.logDestination = some destination → destination.length < 4000)
    (missing : logFileHashTableFind l.logFiles (destToUse l call.logDestination) = none) :
    createdName (destToUse l call.logDestination) = destToUse l call.logDestination ∨
      createdName (destToUse l call.logDestination) = logDestinationConsole ∧
        ∃ name, call.logDestination = some name ∧ Misspelt name := by
  rcases destToUse_cases (l := l) short with standard | ⟨dot, room⟩ | ⟨name, destination, named, console⟩
  · obtain ⟨f, there, own⟩ := inv.standard
    exact absurd (own.trans standard.symm) ((find_none inv.stands).mp missing f there)
  · exact .inl (createdName_dot dot (by rw [maxFilenameLength]; omega))
  · rw [named, createdName, if_pos console]
    by_cases asIs : name = logDestinationConsole
    · exact .inl asIs.symm
    · exact .inr ⟨rfl, name, destination, console, asIs⟩

/-- Once an entry is there, all goes well with it. -/
theorem serves_entry {m : Logger} (fits : Fits l call) (kept : Inv given m)
    (entry : entryFor l (destToUse l call.logDestination) (isDual l) = (m, .ok e)) (member : e ∈ entries m.logFiles)
    (application : m.applicationName = l.applicationName) (format : m.logFormat = l.logFormat)
    (named : e.fullName = destToUse m call.logDestination ∨
      e.fullName = logDestinationConsole ∧ ∃ name, call.logDestination = some name ∧ Misspelt name)
    (again : ∀ before, given call.logDestination = some before →
      logFileHashTableFind l.logFiles (destToUse l call.logDestination) = some before ∧ e = before) :
    ∃ l' e, Served (given call.logDestination) l call l' e ∧
      Inv (Function.update given call.logDestination (some e)) l' := by
  obtain ⟨text, line⟩ := (buildLine_iff l call).mpr fits
  obtain ⟨rotated, written, driven, driverIs⟩ := logLogText_driven l call
  have turned := driven.rotates m e call.now
  have sameLine := (buildLine_congr (turned.applicationName.trans application) (turned.logFormat.trans format) call).trans line
  have framed := turned.trans (driven.writes (rotated m e call.now) e call ⟨call.now.date, text⟩)
  obtain ⟨fd, fdIs⟩ := turned.opened _ (kept.opened e member).2
  obtain ⟨still, last⟩ := driven.last (rotated m e call.now) e call ⟨call.now.date, text⟩ fd fdIs
  refine ⟨_, e, ⟨?_, by rw [entry], ?_, again, fd, text, still, line, last⟩, inv_framed (inv_given kept _ member named) framed⟩
  · rw [driverIs]
    exact logTextWith_ok entry sameLine
  · rw [framed.logFiles]
    exact member

/-- What an accepted call does. -/
theorem serves (inv : Inv given l) (short : ∀ destination, call.logDestination = some destination → destination.length < 4000)
    (accepts : Accepts l call) : ∃ l' e, Served (given call.logDestination) l call l' e ∧
      Inv (Function.update given call.logDestination (some e)) l' := by
  obtain ⟨spelling, fits⟩ := accepts
  rcases entryFor_cases inv.stands (destToUse l call.logDestination) (isDual l) with
    ⟨e, found, entry⟩ | ⟨missing, ⟨held, member, same⟩, _⟩ | ⟨missing, _, m, e, made, entry, created, stands, all, shape⟩
  · obtain ⟨member, named⟩ := (find_iff inv.stands).mp found
    refine serves_entry fits inv entry member rfl rfl (.inl named) fun before remembered => ?_
    obtain ⟨beforeMember, beforeNamed | ⟨console, name, destination, misspelt⟩⟩ := inv.remembered _ before remembered
    · have same := entries_same inv.stands member beforeMember (named.trans beforeNamed.symm)
      exact ⟨same ▸ found, same⟩
    · exact absurd console ((find_none inv.stands).mp (spelling name destination misspelt) before beforeMember)
  · exfalso
    rcases createdName_destination inv short missing with asked | ⟨console, name, destination, misspelt⟩
    · exact (find_none inv.stands).mp missing held member (same.trans asked)
    · exact (find_none inv.stands).mp (spelling name destination misspelt) held member (same.trans console)
  · have application : m.applicationName = l.applicationName := by rw [shape]; exact created.applicationName
    have format : m.logFormat = l.logFormat := by rw [shape]; exact created.logFormat
    have fullName : m.logFileFullName = l.logFileFullName := by rw [shape]; exact created.logFileFullName
    refine serves_entry fits (inv_made inv created stands all shape) entry (all.mem_iff.mpr List.mem_cons_self)
      application format ?_ ?_
    · rw [destToUse_congr fullName, created.fullName]
      exact createdName_destination inv short missing
    · intro before remembered
      obtain ⟨member, named | ⟨console, name, destination, misspelt⟩⟩ := inv.remembered _ before remembered
      · exact absurd named ((find_none inv.stands).mp missing before member)
      · exact absurd console ((find_none inv.stands).mp (spelling name destination misspelt) before member)

/-- A call that is served was accepted. -/
theorem served_accepts (inv : Inv given l) {earlier : Option LogFileEntry} (served : Served earlier l call l' e) : Accepts l call := by
  obtain ⟨_, text, _, line, _⟩ := served.written
  refine ⟨fun destination given misspelt => ?_, (buildLine_iff l call).mp ⟨text, line⟩⟩
  have used := served.used
  rw [destToUse_misspelt given misspelt] at used
  rw [find_none inv.stands]
  rcases entryFor_cases inv.stands destination (isDual l) with ⟨f, found, _⟩ | ⟨_, _, _, _, _, refused, _⟩ | ⟨_, free, _⟩
  · obtain ⟨member, named⟩ := (find_iff inv.stands).mp found
    exact absurd (named ▸ misspelt) (inv.spelled f member)
  · rw [refused] at used
    cases used
  · rw [createdName, if_pos misspelt.1] at free
    exact free

/-- A new logger has an entry for the name that it was given, and no other. -/
theorem createWith_shape (driver : LoggingDriver) (dualFile : Bool) (appName : Text) (args : Option Text) (today : Date) :
    ∃ m e after, Created (loggerCreateCommon driver appName today) (args.getD logDestinationConsole) m e ∧
      Stands lawful_entries after ∧ (∀ f, f ∈ entries after ↔ f = e) ∧
      createWith driver dualFile appName args today =
        { m with logFileFullName := e.fullName, logFiles := after, unused := m.unused + 1 } := by
  have created := created_entry (loggerCreateCommon driver appName today) args dualFile
  have stands : Stands lawful_entries (loggerCreateCommon driver appName today).logFiles := create_stands lawful_entries
  have empty : entries (loggerCreateCommon driver appName today).logFiles = [] := entries_create
  have unheld : hashFind (loggerCreateCommon driver appName today).logFiles
      (logFileEntryCreate (loggerCreateCommon driver appName today) args dualFile).2 = none := by
    rw [hashFind_none stands, empty]
    simp
  obtain ⟨after, added, kept, all⟩ := hashAdd_new stands unheld
    (logFileEntryCreate (loggerCreateCommon driver appName today) args dualFile).1.unused
  rw [empty] at all
  refine ⟨_, _, after, created, kept, by simp [all.mem_iff], ?_⟩
  simp only [createWith, addEntry, created.logFiles, added]

theorem createWith_inv (driver : LoggingDriver) (dualFile : Bool) (appName : Text) (args : Option Text) (today : Date) :
    Inv (fun _ => none) (createWith driver dualFile appName args today) := by
  obtain ⟨m, e, after, created, kept, only, shape⟩ := createWith_shape driver dualFile appName args today
  rw [shape]
  refine ⟨kept, ⟨e, (only e).mpr rfl, rfl⟩, ?_, ?_, fun _ _ remembered => by cases remembered⟩
  · intro f member
    rw [(only f).mp member, created.fullName]
    exact createdName_spelled _
  · intro f member
    rw [(only f).mp member, created.address]
    refine ⟨?_, created.opened⟩
    change (loggerCreateCommon driver appName today).unused < m.unused + 1
    rw [created.unused]
    omega

theorem create_inv (applicationName : Text) (driver : LoggingDriver) (driverArguments : Option Text) (today : Date) :
    Inv (fun _ => none) (logCreate applicationName driver driverArguments today) := by
  cases driver with
  | file => exact createWith_inv _ _ _ _ _
  | dualFile => exact createWith_inv _ _ _ _ _

end

/-- A new logger serves all calls with destinations of fewer than 4000 characters exactly when
    none of them is for the console, misspelt, while there is an entry for the console, and
    the header of each line leaves room in the buffer. -/
theorem one_entry_each_iff (applicationName : Text) (driver : LoggingDriver) (driverArguments : Option Text) (today : Date)
    {calls : List Call}
    (short : ∀ call ∈ calls, ∀ destination, call.logDestination = some destination → destination.length < 4000) :
    OneEntryEach (fun _ => none) (logCreate applicationName driver driverArguments today) calls ↔
      Guarded step Accepts (logCreate applicationName driver driverArguments today) calls := by
  suffices general : ∀ given l, Inv given l → (OneEntryEach given l calls ↔ Guarded step Accepts l calls) from
    general _ _ (create_inv applicationName driver driverArguments today)
  induction calls with
  | nil => exact fun _ _ _ => iff_of_true trivial trivial
  | cons call rest ih =>
    intro given l inv
    have later := ih fun call member => short call (List.mem_cons_of_mem _ member)
    constructor
    · rintro ⟨l', e, served, others⟩
      have accepts := served_accepts inv served
      obtain ⟨m, f, again, kept⟩ := serves inv (short call List.mem_cons_self) accepts
      cases again.returned.symm.trans served.returned
      cases again.used.symm.trans served.used
      refine ⟨accepts, fun t stepped => ?_⟩
      rw [step, served.returned] at stepped
      cases stepped
      exact (later _ _ kept).mp others
    · rintro ⟨accepts, others⟩
      obtain ⟨l', e, served, kept⟩ := serves inv (short call List.mem_cons_self) accepts
      exact ⟨l', e, served, (later _ _ kept).mpr (others l' (by rw [step, served.returned]; rfl))⟩

/-- A moment of the date that the default logger starts with. -/
def christmasEve : Moment :=
  ⟨⟨lit "2004-12-24", by decide +kernel, by decide⟩, ⟨lit "2004-12-17", by decide +kernel, by decide⟩, by decide,
    lit "Fri Dec 24 15:00:00 2004", 0⟩

/-- A short message for a destination. -/
def notice (destination : Text) : Call :=
  ⟨some destination, lit "Main", .info, lit "main.c", 12, lit "Started.", 1, christmasEve⟩

theorem one_entry_each_iff_server :
    OneEntryEach (fun _ => none) (logCreate (lit "app") .dualFile (some (lit "server.txt")) christmasEve.date)
        [notice (lit "audit"), notice (lit "[CONSOLE]"), notice (lit "audit")] ↔
      Guarded step Accepts (logCreate (lit "app") .dualFile (some (lit "server.txt")) christmasEve.date)
        [notice (lit "audit"), notice (lit "[CONSOLE]"), notice (lit "audit")] :=
  one_entry_each_iff _ _ _ _ fun call member destination given => by
    simp only [List.mem_cons, List.not_mem_nil, or_false] at member
    rcases member with rfl | rfl | rfl <;> cases given <;> decide

/-- The logger for the console has the entry of the console already, but does not find it by
    another spelling. -/
theorem misspelt_console_refused :
    ¬ OneEntryEach (fun _ => none) (logCreate (lit "app") .dualFile none christmasEve.date) [notice (lit "[Console]")] := by
  rintro ⟨l', e, served, _⟩
  have inv := create_inv (lit "app") .dualFile none christmasEve.date
  have absent := (served_accepts inv served).1 _ rfl ⟨by decide, by decide⟩
  obtain ⟨f, member, named⟩ := inv.standard
  exact (find_none inv.stands).mp absent f member named

end VoxiUtil.LoggingEntries
