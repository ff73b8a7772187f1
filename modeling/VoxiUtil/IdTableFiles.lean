import VoxiUtil.File
import VoxiUtil.IdTable

/-!
The files of `idTable.c`. The functions that write and read an element are the caller's:
a text for an element, and a change of the stream and the table.
-/
namespace VoxiUtil.IdTableFiles
open VoxiUtil.CString VoxiUtil.File VoxiUtil.IdTable VoxiUtil.Runs VoxiUtil.Stdio
open VoxiUtil.Limits.Signed (intMax)
variable {α : Type}

def MAX_LINE_LENGTH : Nat := 256

/-- What is written for the slot of an index, and whether it is counted. -/
def saveSlot (table : SIDTable α) (appVersion : Int32) (writeFunc : Int32 → α → Text) (i : Nat) : Option (Text × Int) := do
  let slot ← ELEMENT table i
  if slot.isFree then return ([], 0)
  else
    let element ← slot.element
    return (lit "# The element number\n" ++ printInt (Int32.ofInt i) ++ lit "\n" ++ lit "# application element data\n" ++
      writeFunc appVersion element, 1)

def idtSave (table : SIDTable α) (cookie : Text) (appVersion : Int32) (writeFunc : Int32 → α → Text) : Option Text := do
  assert (table.elementSize = sizeofPointer)
  let elements ← (List.range table.tableSize.toNat).mapM (saveSlot table appVersion writeFunc)
  assert ((elements.map Prod.snd).sum = table.elementCount)
  return lit "# cookie\n" ++ cookie ++ lit "# application data format version\n" ++
    (lit "\n" ++ printInt appVersion ++ lit "\n") ++ lit "# ID Table data format version\n" ++
    (printInt 1 ++ lit "\n") ++ lit "# Number of elements\n" ++ (printInt (Int32.ofInt table.elementCount) ++ lit "\n") ++
    lit "#\n# The elements\n#\n" ++ (elements.map Prod.fst).flatten

/-- The loop of `idt_load2`; the line buffer keeps what it holds at the end of the stream. -/
def loadElements (readFunc : FILE → SIDTable α → Int32 → Int → Option (FILE × SIDTable α)) (appVersion errno : Int32) :
    Nat → Text → FILE → SIDTable α → Option (SIDTable α)
  | 0, _, _, table => some table
  | count + 1, buffer, file, table => do
    let (_, buffer, file) ← fileReadLine file buffer MAX_LINE_LENGTH errno
    let (file, table) ← readFunc file table appVersion (atoi (cString buffer)).toInt
    loadElements readFunc appVersion errno count buffer file table

/-- `buffer` is what the line buffer holds at first. -/
def idtLoad2 (result : Option (SIDTable α)) (file : FILE) (cookie : Text)
    (readFunc : FILE → SIDTable α → Int32 → Int → Option (FILE × SIDTable α)) (buffer : Text) (errno : Int32) :
    Option (SIDTable α) := do
  let (_, buffer, file) ← fileReadLine file buffer MAX_LINE_LENGTH errno
  assert (strcmp (cString buffer) cookie = 0)
  assert (feof file = false)
  let (_, buffer, file) ← fileReadLine file buffer MAX_LINE_LENGTH errno
  let appVersion := atoi (cString buffer)
  let (_, buffer, file) ← fileReadLine file buffer MAX_LINE_LENGTH errno
  let idtVersion := atoi (cString buffer)
  assert (idtVersion = 1)
  let (_, buffer, file) ← fileReadLine file buffer MAX_LINE_LENGTH errno
  let count := (atoi (cString buffer)).toInt
  let table ← match result with
    | some table => some table
    | none => if 2 * count ≤ intMax then idtCreate (2 * count) else none
  loadElements readFunc appVersion errno count.toNat buffer file table

def idtLoad (file : FILE) (cookie : Text) (readFunc : FILE → SIDTable α → Int32 → Int → Option (FILE × SIDTable α))
    (buffer : Text) (errno : Int32) : Option (SIDTable α) := idtLoad2 none file cookie readFunc buffer errno

/-- What is behind the cookie in the file, from the blank line on. -/
private def header : Text := lit "# application data format version"

/-- The line behind the cookie, when it is read on its own: the comment and then the
    blank line, in which a byte in front of the buffer is looked at. -/
private theorem blank_line (more buffer : Text) (errno : Int32) :
    fileReadLine ⟨header ++ LF :: LF :: more, false⟩ buffer MAX_LINE_LENGTH errno = none := by
  have first : fgets 256 ⟨header ++ LF :: LF :: more, false⟩ = (some (header ++ [LF]), ⟨LF :: more, false⟩) :=
    fgets_line (by decide) (by decide) _
  have second : fgets 256 ⟨LF :: more, false⟩ = (some [LF], ⟨more, false⟩) := rfl
  have comment : isComment (header ++ [LF]) = true := rfl
  have read : readPastComments 256 ⟨header ++ LF :: LF :: more, false⟩ buffer = (true, [LF], ⟨more, false⟩) := by
    rw [readPastComments_eq, first]
    simp only [feof, comment, Bool.not_false, Bool.and_self, if_true]
    rw [readPastComments_eq, second]
    rfl
  exact (fileReadLine_line errno read).trans rfl

private theorem chomp_starts (text : Text) : chomp (cString text) <+: text :=
  (List.rdropWhile_prefix isNewline _).trans (List.takeWhile_prefix _)

/-- What is kept of a line is the beginning of its body. -/
private theorem kept_prefix {body newline : Text} (ending : newline = [LF] ∨ newline = []) :
    chomp (cString (body ++ newline)) <+: body := by
  rcases ending with rfl | rfl
  · by_cases inside : 0 ∈ body
    · have stops : cString (body ++ [LF]) = cString body := by
        rw [cString, List.takeWhile_append, if_neg, cString]
        intro whole
        have all := List.takeWhile_eq_self_iff.mp ((List.takeWhile_prefix _).eq_of_length whole) 0 inside
        cases all
      rw [stops]
      exact chomp_starts body
    · have clean : 0 ∉ body ++ [LF] := by simp [inside, LF]
      rw [cString_of_noNul clean, chomp_newline]
      exact List.rdropWhile_prefix isNewline _
  · rw [List.append_nil]
    exact chomp_starts body

/-- When the string of a line is the cookie, nothing of the comment behind it is in the line. -/
private theorem nothing_between {cookie between newline behind : Text} (noNul : 0 ∉ cookie)
    (parts : between ++ newline ++ behind = header ++ [LF])
    (same : chomp (cString (cookie ++ between ++ newline)) = cookie) : between = [] := by
  cases between with
  | nil => rfl
  | cons b others =>
    have hash : header = byte '#' :: header.tail := rfl
    have begins : b = byte '#' := by
      rw [hash] at parts
      exact (List.cons.inj parts).1
    have clean : 0 ∉ header ++ [LF] := by decide
    have noNulLine : 0 ∉ cookie ++ b :: (others ++ newline) := by
      intro member
      rcases List.mem_append.mp member with inCookie | inHeader
      · exact noNul inCookie
      · exact clean (parts ▸ List.mem_append_left behind inHeader)
    rw [List.append_assoc, List.cons_append, cString_of_noNul noNulLine, chomp_append _ (by rw [begins]; rfl)] at same
    have lengths := congrArg List.length same
    rw [List.length_append, List.length_cons] at lengths
    omega

/-- A line that begins like one that is not a comment is none either. -/
private theorem begins_plain {kept first line : Text} (nonempty : kept ≠ []) (start : kept <+: first)
    (plain : isComment first = false) {behind rest : Text} (joined : line ++ behind = kept ++ rest) :
    isComment line = false := by
  obtain ⟨c, others, rfl⟩ := List.exists_cons_of_ne_nil nonempty
  obtain ⟨suffix, rfl⟩ := start
  cases line with
  | nil => rfl
  | cons d ds =>
    obtain rfl : d = c := (List.cons.inj joined).1
    exact plain

/-- The first line that is read is not the cookie, as the comment is written right behind
    it; or it fills the buffer, and what is read next is the comment. -/
private theorem cookie_read {cookie line : Text} {result errno : Int32} {more stale : Text} {file : FILE}
    (read : fileReadLine ⟨cookie ++ header ++ [LF] ++ LF :: more, false⟩ stale MAX_LINE_LENGTH errno = some (result, line, file))
    (same : cString line = cookie) : file = ⟨header ++ LF :: LF :: more, false⟩ := by
  obtain ⟨first, rest, past, plain⟩ := readPastComments_stops (show 1 < MAX_LINE_LENGTH by decide)
    (.inr ⟨cookie ++ header, rfl⟩) more stale
  rw [fileReadLine_line errno past] at read
  obtain ⟨nonempty, kept⟩ := Option.ite_none_left_eq_some.mp read
  cases kept
  have noNul : 0 ∉ chomp (cString first) := by
    intro member
    have inString := (List.rdropWhile_prefix isNewline _).subset member
    simpa using List.mem_takeWhile_imp inString
  rw [cString_of_noNul noNul] at same
  obtain ⟨body, newline, behind, taken, free, cases⟩ := takeLine_sent 255 (cookie ++ header)
  have joined : body ++ newline ++ behind = cookie ++ header ++ [LF] := by
    rw [← takeLine_joined 255 (cookie ++ header ++ [LF]), taken]
  have ending : newline = [LF] ∨ newline = [] := cases.imp And.left And.left
  have got : fgets MAX_LINE_LENGTH ⟨cookie ++ header ++ [LF] ++ LF :: more, false⟩ =
      (some (body ++ newline), ⟨behind ++ LF :: more, false⟩) := by
    simp only [fgets, show MAX_LINE_LENGTH - 1 = 255 from rfl, takeLine_append taken (LF :: more), Bool.false_and,
      Bool.false_eq_true, if_false, Bool.or_false]
  -- The line is the first chunk of the cookie, since that begins like the line.
  have start : isComment (body ++ newline) = false :=
    begins_plain nonempty (chomp_starts first) plain (by rw [joined, same, List.append_assoc])
  have whole : first = body ++ newline ∧ rest = behind ++ LF :: more := by
    rw [readPastComments_eq, got] at past
    simp only [start, Bool.and_false, Bool.false_eq_true, if_false] at past
    cases past
    exact ⟨rfl, rfl⟩
  obtain ⟨rfl, rfl⟩ := whole
  obtain ⟨between, shape⟩ : cookie <+: body := same ▸ kept_prefix ending
  have parts : between ++ newline ++ behind = header ++ [LF] := by
    rw [← shape] at joined
    simpa using joined
  rw [same] at noNul
  rw [← shape] at same
  obtain rfl := nothing_between noNul parts same
  rcases ending with rfl | rfl
  · exact absurd (List.cons.inj parts).1 (by decide)
  · rw [List.nil_append, List.nil_append] at parts
    rw [parts, List.append_assoc]
    rfl

/-- The beginning of the file, up to the blank line. -/
private theorem save_text {table : SIDTable α} {cookie text : Text} {appVersion : Int32} {writeFunc : Int32 → α → Text}
    (saved : idtSave table cookie appVersion writeFunc = some text) :
    ∃ more, text = lit "# cookie" ++ LF :: (cookie ++ header ++ [LF] ++ LF :: more) := by
  obtain ⟨_, _, rest⟩ := Option.bind_eq_some_iff.mp saved
  obtain ⟨elements, _, counted⟩ := Option.bind_eq_some_iff.mp rest
  obtain ⟨_, _, same⟩ := Option.bind_eq_some_iff.mp counted
  cases same
  have first : lit "# cookie\n" = lit "# cookie" ++ [LF] := rfl
  have second : lit "# application data format version\n" = header ++ [LF] := rfl
  have third : lit "\n" = [LF] := rfl
  rw [first, second, third]
  simp only [List.append_assoc, List.singleton_append]
  exact ⟨_, rfl⟩

/-- A load fails on what a save wrote: on the cookie, or on the blank line behind it. -/
private theorem load_none {table : SIDTable α} {cookie text : Text} {appVersion : Int32} {writeFunc : Int32 → α → Text}
    (saved : idtSave table cookie appVersion writeFunc = some text)
    (readFunc : FILE → SIDTable α → Int32 → Int → Option (FILE × SIDTable α)) (buffer : Text) (errno : Int32) :
    idtLoad ⟨text, false⟩ cookie readFunc buffer errno = none := by
  obtain ⟨more, rfl⟩ := save_text saved
  have title : fgets MAX_LINE_LENGTH ⟨lit "# cookie" ++ LF :: (cookie ++ header ++ [LF] ++ LF :: more), false⟩ =
      (some (lit "# cookie" ++ [LF]), ⟨cookie ++ header ++ [LF] ++ LF :: more, false⟩) :=
    fgets_line (by decide) (by decide) _
  have comment : isComment (lit "# cookie" ++ [LF]) = true := rfl
  have skipped : fileReadLine ⟨lit "# cookie" ++ LF :: (cookie ++ header ++ [LF] ++ LF :: more), false⟩ buffer MAX_LINE_LENGTH
      errno = fileReadLine ⟨cookie ++ header ++ [LF] ++ LF :: more, false⟩ (lit "# cookie" ++ [LF]) MAX_LINE_LENGTH errno := by
    rw [fileReadLine, readPastComments_eq, title]
    simp only [feof, comment, Bool.not_false, Bool.and_self, if_true]
    rfl
  rw [idtLoad, idtLoad2, skipped]
  cases read : fileReadLine ⟨cookie ++ header ++ [LF] ++ LF :: more, false⟩ (lit "# cookie" ++ [LF]) MAX_LINE_LENGTH errno with
  | none => rfl
  | some result =>
    obtain ⟨err, line, file⟩ := result
    simp only [Option.bind_eq_bind, Option.bind_some, strcmp_eq_zero]
    by_cases same : cString line = cookie
    · rw [cookie_read read same, blank_line]
      simp
    · simp [same]

/-- The same indices are allocated, with the same elements. -/
def SameElements (a b : SIDTable α) : Prop :=
  ∀ index, 0 ≤ index → idtIsElementAllocated a index = idtIsElementAllocated b index ∧
    (idtIsElementAllocated b index = some true → idtGetElementAt a index = idtGetElementAt b index)

/-- The read function, when it is only ever called with the version that was saved. -/
def expecting (appVersion : Int32) (readFunc : FILE → SIDTable α → Int32 → Int → Option (FILE × SIDTable α))
    (file : FILE) (table : SIDTable α) (version : Int32) (index : Int) : Option (FILE × SIDTable α) :=
  if version = appVersion then readFunc file table version index else none

/-- A saved table is loaded as the same table, with its version passed on. -/
def RoundTrip (table : SIDTable α) (cookie : Text) (appVersion : Int32) (writeFunc : Int32 → α → Text)
    (readFunc : FILE → SIDTable α → Int32 → Int → Option (FILE × SIDTable α)) (buffer : Text) (errno : Int32) : Prop :=
  ∃ text loaded, idtSave table cookie appVersion writeFunc = some text ∧
    idtLoad ⟨text, false⟩ cookie (expecting appVersion readFunc) buffer errno = some loaded ∧ SameElements loaded table

/-- No table is loaded from its file. -/
theorem no_round_trip (table : SIDTable α) (cookie : Text) (appVersion : Int32) (writeFunc : Int32 → α → Text)
    (readFunc : FILE → SIDTable α → Int32 → Int → Option (FILE × SIDTable α)) (buffer : Text) (errno : Int32) :
    ¬ RoundTrip table cookie appVersion writeFunc readFunc buffer errno := by
  rintro ⟨text, loaded, saved, ran, _⟩
  rw [load_none saved] at ran
  cases ran

/-- Elements that are numbers, each on a line. -/
def writeNumber (_version : Int32) (element : Int32) : Text := printInt element ++ [LF]

def readNumber (file : FILE) (table : SIDTable Int32) (_version : Int32) (index : Int) : Option (FILE × SIDTable Int32) := do
  let (_, line, file) ← fileReadLine file [] MAX_LINE_LENGTH 0
  let table ← idtPutElementAt table index (atoi (cString line))
  return (file, table)

/-- A table with a number, whose file `readNumber` could read behind its header: the
    assertion on the cookie fails. -/
theorem objects_not_loaded : (∃ created table text, idtCreate 1 = some created ∧ idtAdd created 7 = some (table, 0) ∧
      idtSave table (lit "Objects") 3 writeNumber = some text ∧
      idtLoad ⟨text, false⟩ (lit "Objects") readNumber [] 0 = none) ∧
    ∀ version number rest table index, readNumber ⟨writeNumber version number ++ rest, false⟩ table version index =
      (idtPutElementAt table index number).map fun table => (⟨rest, false⟩, table) := by
  constructor
  · obtain ⟨created, table, text, made, added, saved⟩ : ∃ created table text, idtCreate 1 = some created ∧
        idtAdd created 7 = some (table, 0) ∧ idtSave table (lit "Objects") 3 writeNumber = some text :=
      ⟨_, _, _, rfl, rfl, rfl⟩
    exact ⟨created, table, text, made, added, saved, load_none saved readNumber [] 0⟩
  · intro version number rest table index
    have free : ∀ c : UInt8, c ≠ 45 → isDigit c = false → c ∉ printInt number := fun c => printInt_free number
    obtain ⟨c, more, shape, _, other, _⟩ := printInt_shape number
    have plain : printInt number ≠ [] ∧ isComment (printInt number) = false := by
      rw [shape]
      exact ⟨List.cons_ne_nil _ _, by simp [isComment, other]⟩
    have read := fileReadLine_body ⟨free LF (by decide) rfl, free 0 (by decide) rfl⟩
      (fun last => free CR (by decide) rfl (List.mem_of_getLast? last)) plain
      (show (printInt number).length + 1 < MAX_LINE_LENGTH by have := printInt_length number; unfold MAX_LINE_LENGTH; omega) rest [] 0
    have text : writeNumber version number ++ rest = printInt number ++ LF :: rest := by simp [writeNumber]
    rw [readNumber, text, read]
    simp only [Option.bind_eq_bind, Option.bind_some, cString_of_noNul (free 0 (by decide) rfl), atoi_printInt]
    cases idtPutElementAt table index number <;> rfl

end VoxiUtil.IdTableFiles
