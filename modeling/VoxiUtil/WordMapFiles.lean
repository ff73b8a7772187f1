import VoxiUtil.Err
import VoxiUtil.File
import VoxiUtil.HashTraversal
import VoxiUtil.WordMap

/-!
The file of a word map: `wordMap_save`, and the two readers of what it writes. `none` is
a failed assertion, or the use of memory that was not set.
-/
namespace VoxiUtil.WordMapFiles
open VoxiUtil.CString VoxiUtil.Err VoxiUtil.File VoxiUtil.Hash VoxiUtil.HashCursor VoxiUtil.HashCursorLists VoxiUtil.HashSet
open VoxiUtil.HashCursorRuns VoxiUtil.HashTraversal VoxiUtil.Stdio VoxiUtil.WordMap
open VoxiUtil.Limits (intMax)

/-- The value of the enumeration. -/
def code : WordMapType → Int32
  | .byName => 1
  | .byNumber => 2
  | .byNameNumber => 3

/-- An `int` as a `WordMapType`. Other values, and the maps they make, are left out. -/
def typeOf (type : Int32) : Option WordMapType :=
  if type = 1 then some .byName else if type = 2 then some .byNumber else if type = 3 then some .byNameNumber else none

/-- What is printed with a newline behind it. -/
def line (text : Text) : Text := text ++ [LF]

def entryText (entry : Entry) : Text := printInt entry.number.toInt32 ++ 32 :: entry.name

/-- A table on which no cursor is. -/
def idle {fs : Funcs Entry} (ht : Hasht fs) (unused : Nat) : Heap fs :=
  ⟨ht, fun _ => false, fun _ => none, fun _ => none, fun _ => 0, fun _ => none, unused⟩

/-- `wordMap_save` for the table that it saves. -/
def saveTable (map : SWordMap) {fs : Funcs Entry} (hashTable : Hasht fs) : Option Text := do
  let h ← hashCursorCreate (idle hashTable map.allocated)
  let (entries, h) ← visit (fun entry => line (entryText entry)) ((records hashTable).length + 1) h map.allocated
  let _ ← hashCursorDestroy h map.allocated
  return line (printInt 2) ++ line map.name ++ line (printInt (code map.type)) ++
    line (printInt (Int32.ofInt (hashGetElementCount hashTable))) ++ entries

def wordMapSave (map : SWordMap) : Option Text :=
  if map.type.hasName then saveTable map map.byName else saveTable map map.byNumber

/-- An entry of a file: the number up to the first blank, and the name behind it. Without
    a blank the name is null, which cannot be copied. -/
def loadEntry (map : SWordMap) (buffer : Text) : Option SWordMap :=
  match strsep (some buffer) [32] with
  | (some charPtr2, some charPtr1) => some (wordMapAdd map charPtr1 (atoi charPtr2))
  | _ => none

def unsupported (version : Int32) : Error :=
  errNew .app 0 none (lit "Unsupported version number (" ++ printInt version ++ lit ") in WordMap.")

/-- The name without its last character, which should be the newline. -/
def nameOf (buffer : Option Text) : Option Text :=
  match buffer with
  | some buffer => if cString buffer = [] then none else some (cString buffer).dropLast
  | none => none

/-- The loop of `wordMap_load`. `stale` is what `buffer` holds before a read. -/
def loadEntries (stale : Text) (errno : Int32) : Nat → FILE → SWordMap → Option SWordMap
  | 0, _, map => some map
  | count + 1, file, map =>
    (fileReadLine file stale 1024 errno).bind fun result =>
      (loadEntry map (cString result.2.1)).bind fun map => loadEntries stale errno count result.2.2 map

/-- The end of `wordMap_load`, once the type is known. -/
def loadTable (stale : Text) (errno : Int32) (name : Text) (type : WordMapType) (file : FILE) : Option (Except Error SWordMap) := do
  let (count, file) ← fscanfInt file
  let map ← wordMapCreate2 name type count
  let map ← loadEntries stale errno count.toInt.toNat file map
  return .ok map

def wordMapLoad (stale : Text) (errno : Int32) (file : FILE) : Option (Except Error SWordMap) := do
  let (version, file) ← fscanfInt file
  let (buffer, file) := fgets 256 file
  let name ← nameOf buffer
  if version = 1 then loadTable stale errno name .byNameNumber file
  else if version = 2 then
    let (type, file) ← fscanfInt file
    let type ← typeOf type
    loadTable stale errno name type file
  else return .error (unsupported version)

/-- The loop of `wordMap_createFromString`. -/
def addLines : Nat → List Text → SWordMap → Option SWordMap
  | 0, _, map => some map
  | _ + 1, [], _ => none
  | count + 1, buffer :: str, map => (loadEntry map buffer).bind fun map => addLines count str map

/-- The end of `wordMap_createFromString`, with the array from the count on. -/
def createTable (name : Text) (type : WordMapType) (str : List Text) : Option (Except Error SWordMap) := do
  let count := atoi (← str.head?)
  let map ← wordMapCreate2 name type count
  let map ← addLines count.toInt.toNat str.tail map
  return .ok map

def wordMapCreateFromString (str : List Text) : Option (Except Error SWordMap) := do
  let version := atoi (← str[0]?)
  let name ← str[1]?
  if version = 1 then createTable name .byNameNumber (str.drop 2)
  else if version = 2 then
    let type ← typeOf (atoi (← str[2]?))
    createTable name type (str.drop 3)
  else return .error (unsupported version)

/-- The table that is saved. -/
def saved (map : SWordMap) : List Entry := if map.type.hasName then entries map.byName else entries map.byNumber

/-- The lines of the file for these entries. -/
def fileLines (map : SWordMap) (saved : List Entry) : List Text :=
  [printInt 2, map.name, printInt (code map.type), printInt (Int32.ofInt saved.length)] ++ saved.map entryText

def linesText (lines : List Text) : Text := lines.flatMap line

/-- Text without a byte that ends lines or strings. -/
def Plain (text : Text) : Prop := LF ∉ text ∧ CR ∉ text ∧ 0 ∉ text

instance (text : Text) : Decidable (Plain text) := inferInstanceAs (Decidable (_ ∧ _ ∧ _))

/-- What is asked of a map that is saved: short plain lines, and a count that fits its `int`. -/
structure Savable (map : SWordMap) : Prop where
  name : map.name.length ≤ 254 ∧ Plain map.name
  entries : ∀ entry ∈ saved map, Plain entry.name ∧ (entryText entry).length < 1023
  counted : (saved map).length ≤ 2147483647

/-- Text that does not begin with white space. -/
def Solid (text : Text) : Prop := ∃ c rest, text = c :: rest ∧ isSpace c = false

/-- Adds of names and numbers, in order. -/
def addAll (map : SWordMap) (pairs : List (Text × Int32)) : SWordMap :=
  pairs.foldl (fun map pair => wordMapAdd map pair.1 pair.2) map

def pairOf (entry : Entry) : Text × Int32 := (entry.name, entry.number.toInt32)

/-- A table that stands for a set and has its records in different blocks. -/
def Sound {fs : Funcs Entry} (lawful : Lawful fs) (ht : Hasht fs) (unused : Nat) : Prop :=
  Stands lawful ht ∧ Parked (idle ht unused) none

section
variable {map : SWordMap} {fs : Funcs Entry} {lawful : Lawful fs} {ht : Hasht fs} {unused : Nat}

@[simp] theorem idle_unused : (idle ht unused).unused = unused := rfl

@[simp] theorem idle_table : (idle ht unused).table = ht := rfl

/-- The text that is saved: the header and the entries in the order of the buckets. An
    `int` has to count the buckets. -/
theorem saveTable_eq (sound : Sound lawful ht map.allocated) :
    saveTable map ht = if fs.size ≤ intMax then some (linesText (fileLines map (entries ht))) else none := by
  obtain ⟨stands, parked⟩ := sound
  have count : hashGetElementCount ht = (entries ht).length := elementCount_eq stands
  have start := create_on parked
  rw [idle_unused, idle_table] at start
  rcases start with ⟨h, created, on, _, small⟩ | ⟨stuck, large⟩
  · have enough : (records ht).length < (records ht).length + 1 := Nat.lt_succ_self _
    rcases visit_on (fun entry => line (entryText entry)) on enough with ⟨h', visited, past, _, more⟩ | ⟨stuck, large⟩
    · have fits : fs.size ≤ intMax := by
        by_cases empty : records ht = []
        · exact small empty
        · exact more empty
      have destroyed := destroy_on past
      rw [if_pos fits]
      simp only [saveTable, created, visited, destroyed, count, Option.bind_eq_bind, Option.bind_some]
      refine congrArg some ?_
      simp [linesText, fileLines, entries, List.flatMap_map]
    · rw [if_neg (Nat.not_le.mpr large)]
      simp [saveTable, created, stuck]
  · rw [if_neg (Nat.not_le.mpr large)]
    simp [saveTable, stuck]

/-- A table without cursors, whose records have different blocks. -/
private theorem idle_parked (unwatched : ∀ address, ht.firstCursor address = none)
    (unique : ((records ht).map HiPtr.address).Nodup) (old : ∀ record ∈ records ht, record.address < unused) :
    Parked (idle ht unused) none := by
  refine ⟨⟨unique, old, nofun, nofun⟩, nofun, fun address _ => ⟨[], unwatched address, fun c => ?_⟩⟩
  exact iff_of_false List.not_mem_nil (fun watched => Bool.false_ne_true watched.1)

theorem sound_create (lawful : Lawful fs) (unused : Nat) : Sound lawful (hashCreateTable fs) unused := by
  have empty : records (hashCreateTable fs) = [] := List.map_eq_nil_iff.mp entries_create
  exact ⟨create_stands lawful, idle_parked (fun _ => rfl) (by simp [empty]) (by simp [empty])⟩

theorem sound_later {later : Nat} (sound : Sound lawful ht unused) (more : unused ≤ later) : Sound lawful ht later :=
  ⟨sound.1, idle_parked (no_cursors sound.1) sound.2.unique
    fun record member => Nat.lt_of_lt_of_le (sound.2.old record member) more⟩

theorem sound_add (sound : Sound lawful ht unused) (data : Entry) :
    Sound lawful (hashAdd ht data (some unused)).1 (unused + 1) :=
  ⟨(hashFind_added sound.1 data data unused).1, step_kept (.add data true) sound.2 trivial trivial rfl⟩

theorem sound_delete {data : Entry} {after : Hasht fs} (sound : Sound lawful ht unused)
    (deleted : deleteOne ht data = some after) : Sound lawful after unused := by
  obtain ⟨⟨removed, count, destroyed⟩, ran, one⟩ := Option.bind_eq_some_iff.mp deleted
  obtain ⟨_, same⟩ := Option.ite_none_right_eq_some.mp one
  cases same
  have kept : Parked (idle removed unused) none := by
    refine step_kept (.delete data) sound.2 trivial (fun _ _ => no_cursors sound.1 _) ?_
    rw [HashCursor.step, idle_table, ran]
    rfl
  refine ⟨?_, kept⟩
  cases held : hashFind ht data with
  | none =>
    rw [hashDelete_absent sound.1 held] at ran
    cases ran
    exact sound.1
  | some e =>
    obtain ⟨after, result, stands, _⟩ := hashDelete_held sound.1 held
    cases ran.symm.trans result
    exact stands

end

end VoxiUtil.WordMapFiles
