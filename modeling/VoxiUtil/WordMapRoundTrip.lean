import VoxiUtil.WordMapDeletes
import VoxiUtil.WordMapReaders

/-!
What the two readers make of a saved word map. Both add the entries of the saved table
again, in its order; the white space that `fscanf` skips in front of the name is where
they part.
-/
namespace VoxiUtil.WordMapRoundTrip
open VoxiUtil.CString VoxiUtil.Err VoxiUtil.File VoxiUtil.Hash VoxiUtil.HashSet VoxiUtil.Runs
open VoxiUtil.Stdio VoxiUtil.WordMap VoxiUtil.WordMapDeletes VoxiUtil.WordMapFiles VoxiUtil.WordMapReaders
open VoxiUtil.Limits (intMax)

/-- Both tables can be walked. -/
structure Kept (map : SWordMap) : Prop where
  byName : Sound (lawfulName map.size map.sized) map.byName map.allocated
  byNumber : Sound (lawfulNumber map.size map.sized) map.byNumber map.allocated

/-- The two maps have the same name and type and give the same answers. -/
structure SameMap (a b : SWordMap) : Prop where
  name : a.name = b.name
  type : a.type = b.type
  elements : wordMapGetNoElements a = wordMapGetNoElements b
  byName : ∀ name, wordMapFindByName a name = wordMapFindByName b name
  byNumber : ∀ number, wordMapFindByNumber a number = wordMapFindByNumber b number

/-- In a map with both tables, the entry of a number has the name of the first saved entry
    with that number; a number without a saved entry is not in the map. -/
def NumbersSaved (map : SWordMap) : Prop :=
  map.type = .byNameNumber → ∀ number, wordMapFindByNumber map number =
    some (((saved map).find? fun entry => entry.number == number.toUInt32).map Entry.name)

/-- The new map of a reader, with the saved entries added to it. -/
def readBack (map : SWordMap) : Option (Except Error SWordMap) :=
  (wordMapCreate2 map.name map.type (Int32.ofInt (saved map).length)).map fun created =>
    .ok (addAll created ((saved map).map pairOf))

section
variable {map after : SWordMap}

theorem create_kept {name : Text} {type : WordMapType} {size : Int32} (created : wordMapCreate2 name type size = some map) :
    Kept map := by
  obtain ⟨sized, same⟩ := Option.dite_none_right_eq_some.mp created
  cases same
  exact ⟨sound_create _ _, sound_create _ _⟩

private theorem create_fields {name : Text} {type : WordMapType} {size : Int32}
    (created : wordMapCreate2 name type size = some map) : map.name = name ∧ map.type = type := by
  obtain ⟨_, same⟩ := Option.dite_none_right_eq_some.mp created
  cases same
  exact ⟨rfl, rfl⟩

theorem add_kept (kept : Kept map) (name : Text) (number : Int32) : Kept (wordMapAdd map name number) := by
  unfold wordMapAdd
  constructor
  · dsimp only
    split
    · exact sound_add kept.byName _
    · exact sound_later kept.byName (Nat.le_succ _)
  · dsimp only
    split
    · exact sound_add kept.byNumber _
    · exact sound_later kept.byNumber (Nat.le_succ _)

/-- What a delete leaves: tables with an entry less, or the same ones. -/
private theorem step_kept {op : WordMapOp} (kept : Kept map) (ran : step map op = some after) : Kept after := by
  cases op with
  | add name number =>
    cases ran
    exact add_kept kept name number
  | deleteByName name =>
    obtain ⟨_, deleting⟩ := Option.ite_none_right_eq_some.mp ran
    obtain ⟨entry, _, found⟩ := Option.bind_eq_some_iff.mp deleting
    obtain ⟨byName, deleted, rest⟩ := Option.bind_eq_some_iff.mp found
    split at rest
    · obtain ⟨byNumber, deletedToo, same⟩ := Option.map_eq_some_iff.mp rest
      cases same
      exact ⟨sound_delete kept.byName deleted, sound_delete kept.byNumber deletedToo⟩
    · cases rest
      exact ⟨sound_delete kept.byName deleted, kept.byNumber⟩
  | deleteByNumber number =>
    obtain ⟨_, deleting⟩ := Option.ite_none_right_eq_some.mp ran
    obtain ⟨entry, _, found⟩ := Option.bind_eq_some_iff.mp deleting
    obtain ⟨byNumber, deleted, rest⟩ := Option.bind_eq_some_iff.mp found
    split at rest
    · obtain ⟨byName, deletedToo, same⟩ := Option.map_eq_some_iff.mp rest
      cases same
      exact ⟨sound_delete kept.byName deletedToo, sound_delete kept.byNumber deleted⟩
    · cases rest
      exact ⟨kept.byName, sound_delete kept.byNumber deleted⟩

theorem run_kept {name : Text} {type : WordMapType} {size : Int32} {created : SWordMap} {ops : List WordMapOp}
    (start : wordMapCreate2 name type size = some created) (reached : run step created ops = some map) : Kept map :=
  run_invariant (fun _ _ _ kept ran => step_kept kept ran) (create_kept start) reached

/-- The saved text, for any of the types. -/
theorem wordMapSave_eq (kept : Kept map) :
    wordMapSave map = if map.size ≤ intMax then some (linesText (fileLines map (saved map))) else none := by
  rw [wordMapSave, saved]
  split
  · exact saveTable_eq kept.byName
  · exact saveTable_eq kept.byNumber

end

section
variable {text rest : Text}

/-- No white space is skipped in front of a solid text. -/
private theorem solid_kept (solid : Solid text) (rest : Text) :
    (text ++ rest).dropWhile isSpace = text ++ rest ∧ (text ++ rest).isEmpty = false := by
  obtain ⟨c, more, rfl, stop⟩ := solid
  exact ⟨List.dropWhile_cons_of_neg (by simp [stop]), rfl⟩

private theorem solid_printInt (n : Int32) : Solid (printInt n) := by
  obtain ⟨c, more, shape, stop, _⟩ := printInt_shape n
  exact ⟨c, more, shape, stop⟩

/-- A number in front of a solid line is read with its own newline only. -/
private theorem fscanfInt_solid (solid : Solid text) (n : Int32) (rest : Text) :
    fscanfInt ⟨line (printInt n) ++ (text ++ rest), false⟩ = some (n, ⟨text ++ rest, false⟩) := by
  obtain ⟨kept, more⟩ := solid_kept solid rest
  rw [line, List.append_assoc, List.singleton_append, fscanfInt_line, kept, more]

/-- The file, piece by piece. -/
private theorem fileText_eq (map : SWordMap) (saved : List Entry) :
    linesText (fileLines map saved) = line (printInt 2) ++ (map.name ++ ([LF] ++ (line (printInt (code map.type)) ++
      (line (printInt (Int32.ofInt saved.length)) ++ linesText (saved.map entryText))))) := by
  simp [fileLines, linesText, line]

end

section
variable {map : SWordMap}

/-- The end of `wordMap_load`, from the line of the count on. -/
private theorem loadTable_entries {list : List Entry} (good : ∀ entry ∈ list, Plain entry.name ∧ (entryText entry).length < 1023)
    (counted : list.length ≤ 2147483647) (stale : Text) (errno : Int32) (name : Text) (type : WordMapType) :
    loadTable stale errno name type ⟨line (printInt (Int32.ofInt list.length)) ++ linesText (list.map entryText), false⟩ =
      (wordMapCreate2 name type (Int32.ofInt list.length)).map fun created => .ok (addAll created (list.map pairOf)) := by
  have count := count_read counted
  cases list with
  | nil =>
    have read := fscanfInt_line (Int32.ofInt 0) []
    have refused : wordMapCreate2 name type (Int32.ofInt 0) = none := rfl
    simp only [loadTable, List.length_nil, Nat.cast_zero, List.map_nil, linesText, List.flatMap_nil, List.append_nil, line,
      read, refused, Option.bind_eq_bind, Option.bind_some, Option.bind_none, Option.map_none]
  | cons entry others =>
    have solid : Solid (entryText entry) := by
      obtain ⟨c, more, shape, stop⟩ := solid_printInt entry.number.toInt32
      exact ⟨c, _, by rw [entryText, shape]; rfl, stop⟩
    have split : linesText ((entry :: others).map entryText) =
        entryText entry ++ ([LF] ++ linesText (others.map entryText)) := by
      simp [linesText, line]
    have read := fscanfInt_solid solid (Int32.ofInt (entry :: others).length) ([LF] ++ linesText (others.map entryText))
    rw [← split] at read
    simp only [loadTable, read, Option.bind_eq_bind, Option.bind_some, count]
    cases wordMapCreate2 name type (Int32.ofInt (entry :: others).length) with
    | none => rfl
    | some created =>
      rw [Option.bind_some, loadEntries_entries good, Option.bind_some]
      rfl

/-- Without white space in front of the name, `wordMap_load` makes the new map of what
    `wordMap_save` wrote. -/
theorem load_solid (savable : Savable map) (solid : Solid map.name) (stale : Text) (errno : Int32) :
    wordMapLoad stale errno ⟨linesText (fileLines map (saved map)), false⟩ = readBack map := by
  obtain ⟨short, noLF, _, noNul⟩ := savable.name
  have room : map.name.length + 1 < 256 := by omega
  have named : nameOf (some (map.name ++ [LF])) = some map.name := by
    have whole : cString (map.name ++ [LF]) = map.name ++ [LF] := by
      refine cString_of_noNul fun member => ?_
      rcases List.mem_append.mp member with inName | last
      · exact noNul inName
      · simp [LF] at last
    simp [nameOf, whole]
  have nameRead := fgets_line noLF room (line (printInt (code map.type)) ++
    (line (printInt (Int32.ofInt (saved map).length)) ++ linesText ((saved map).map entryText)))
  have typeRead := fscanfInt_solid (solid_printInt (Int32.ofInt (saved map).length)) (code map.type)
    ([LF] ++ linesText ((saved map).map entryText))
  rw [← List.append_assoc (printInt _)] at typeRead
  simp only [wordMapLoad, fileText_eq, fscanfInt_solid solid, List.singleton_append, nameRead, named, Option.bind_eq_bind,
    Option.bind_some]
  rw [if_neg (by decide), if_pos trivial]
  change (fscanfInt ⟨line (printInt (code map.type)) ++ (line (printInt (Int32.ofInt (saved map).length)) ++ _), false⟩).bind _ = _
  rw [show line (printInt (Int32.ofInt (saved map).length)) = printInt (Int32.ofInt (saved map).length) ++ [LF] from rfl, typeRead]
  simp only [Option.bind_some, typeOf_code]
  exact loadTable_entries savable.entries savable.counted stale errno map.name map.type

/-- `wordMap_createFromString` makes the same of the lines of the file. -/
theorem createFromString_saved (savable : Savable map) :
    wordMapCreateFromString (splitLines (linesText (fileLines map (saved map)))).1 = readBack map := by
  have number : ∀ n : Int32, LF ∉ printInt n := fun n => printInt_free n (by decide) rfl
  have free : ∀ body ∈ fileLines map (saved map), LF ∉ body := by
    intro body member
    rcases List.mem_append.mp member with header | later
    · simp only [List.mem_cons, List.not_mem_nil, or_false] at header
      rcases header with rfl | rfl | rfl | rfl
      · exact number _
      · exact savable.name.2.1
      · exact number _
      · exact number _
    · obtain ⟨entry, isSaved, rfl⟩ := List.mem_map.mp later
      exact (entryText_plain (savable.entries entry isSaved).1).1
  rw [splitLines_linesText free]
  have version : atoi (printInt 2) = 2 := atoi_printInt 2
  simp only [wordMapCreateFromString, fileLines, createTable, List.cons_append, List.nil_append, List.getElem?_cons_zero,
    List.getElem?_cons_succ, List.drop_succ_cons, List.drop_zero, List.head?_cons, List.tail_cons, atoi_printInt, typeOf_code,
    Option.bind_eq_bind, Option.bind_some, readBack, count_read savable.counted]
  rw [if_neg (by decide), if_pos trivial]
  cases wordMapCreate2 map.name map.type (Int32.ofInt (saved map).length) with
  | none => rfl
  | some created =>
    rw [Option.bind_some, addLines_entries, Option.bind_some]
    rfl

end

section
variable {map : SWordMap}

/-- Adds keep the name and the type of a map. -/
private theorem addAll_fixed (map : SWordMap) (pairs : List (Text × Int32)) :
    (addAll map pairs).name = map.name ∧ (addAll map pairs).type = map.type := by
  induction pairs generalizing map with
  | nil => exact ⟨rfl, rfl⟩
  | cons pair pairs ih => exact ih (wordMapAdd map pair.1 pair.2)

private theorem addAll_kept (kept : Kept map) (pairs : List (Text × Int32)) : Kept (addAll map pairs) := by
  induction pairs generalizing map with
  | nil => exact kept
  | cons pair pairs ih => exact ih (add_kept kept pair.1 pair.2)

/-- The number that a name has, and the name that a number has. -/
private def numberOf (map : SWordMap) (name : Text) : Option UInt32 :=
  (hashFind map.byName (nameTemplate name)).map Entry.number

private def nameFor (map : SWordMap) (number : Int32) : Option Text :=
  (hashFind map.byNumber (numberTemplate number)).map Entry.name

/-- An answer that an add only gives where there was none is that of the first add for it. -/
private theorem answer_addAll {β : Type} (answer : SWordMap → Option β) {own : Text × Int32 → Bool} {value : Text × Int32 → β}
    {type : WordMapType} (each : ∀ map pair, Kept map → map.type = type →
      answer (wordMapAdd map pair.1 pair.2) = (answer map).or (if own pair = true then some (value pair) else none))
    (kept : Kept map) (typed : map.type = type) (pairs : List (Text × Int32)) :
    answer (addAll map pairs) = (answer map).or ((pairs.find? own).map value) := by
  induction pairs generalizing map with
  | nil => simp [addAll]
  | cons pair pairs ih =>
    have later := ih (add_kept kept pair.1 pair.2) typed
    change answer (addAll (wordMapAdd map pair.1 pair.2) pairs) = _
    rw [later, each map pair kept typed, Option.or_assoc]
    by_cases first : own pair = true
    · rw [if_pos first, List.find?_cons_of_pos first]
      rfl
    · rw [if_neg first, List.find?_cons_of_neg first, Option.none_or]

private theorem numberOf_addAll (kept : Kept map) (typed : map.type.hasName = true) (pairs : List (Text × Int32)) (name : Text) :
    numberOf (addAll map pairs) name =
      (numberOf map name).or ((pairs.find? fun pair => pair.1 == name).map fun pair => pair.2.toUInt32) := by
  refine answer_addAll (fun map => numberOf map name) ?_ kept rfl pairs
  intro map' pair kept' same
  have added := (hashFind_added kept'.byName.1 ⟨map'.allocated, pair.1, pair.2.toUInt32⟩ (nameTemplate name) map'.allocated).2
  simp only [numberOf, wordMapAdd, same, typed, if_true]
  rw [added]
  simp only [sameName_iff, nameTemplate, beq_iff_eq]
  cases hashFind map'.byName ⟨0, name, 0⟩ with
  | some entry => rfl
  | none => by_cases own : pair.1 = name <;> simp [own]

private theorem nameFor_addAll (kept : Kept map) (typed : map.type.hasNumber = true) (pairs : List (Text × Int32))
    (number : Int32) :
    nameFor (addAll map pairs) number =
      (nameFor map number).or ((pairs.find? fun pair => pair.2 == number).map Prod.fst) := by
  refine answer_addAll (fun map => nameFor map number) ?_ kept rfl pairs
  intro map' pair kept' same
  have added :=
    (hashFind_added kept'.byNumber.1 ⟨map'.allocated, pair.1, pair.2.toUInt32⟩ (numberTemplate number) map'.allocated).2
  have key : pair.2.toUInt32 = number.toUInt32 ↔ pair.2 = number :=
    ⟨fun equal => by simpa using congrArg UInt32.toInt32 equal, congrArg _⟩
  simp only [nameFor, wordMapAdd, same, typed, if_true]
  rw [added]
  simp only [sameNumber_iff, numberTemplate, key, beq_iff_eq]
  cases hashFind map'.byNumber ⟨0, [], number.toUInt32⟩ with
  | some entry => rfl
  | none => by_cases own : pair.2 = number <;> simp [own]

/-- The keys of a table are those that are found. -/
private theorem keys_found {κ : Type} {fs : Funcs Entry} {lawful : Lawful fs} {ht : Hasht fs} (stands : Stands lawful ht)
    (key : Entry → κ) (template : κ → Entry) (keyed : ∀ k, key (template k) = k)
    (compares : ∀ a b, fs.compData a b = 0 ↔ key a = key b) :
    ((entries ht).map key).Nodup ∧ ∀ k, k ∈ (entries ht).map key ↔ (hashFind ht (template k)).isSome := by
  refine ⟨List.pairwise_map.mpr ((entries_pairwise stands).imp fun differ same => differ ((compares _ _).mpr same)), fun k => ?_⟩
  rw [List.mem_map, Option.isSome_iff_exists]
  refine exists_congr fun e => ?_
  rw [hashFind_iff stands, compares, keyed]

/-- Tables that find the same keys have the same count. -/
private theorem counts_same {κ : Type} {fs gs : Funcs Entry} {lawful : Lawful fs} {lawful' : Lawful gs} {ht : Hasht fs}
    {ht' : Hasht gs} (stands : Stands lawful ht) (stands' : Stands lawful' ht') (key : Entry → κ) (template : κ → Entry)
    (keyed : ∀ k, key (template k) = k) (compares : ∀ a b, fs.compData a b = 0 ↔ key a = key b)
    (compares' : ∀ a b, gs.compData a b = 0 ↔ key a = key b)
    (same : ∀ k, (hashFind ht (template k)).isSome = (hashFind ht' (template k)).isSome) :
    hashGetElementCount ht = hashGetElementCount ht' := by
  obtain ⟨distinct, found⟩ := keys_found stands key template keyed compares
  obtain ⟨distinct', found'⟩ := keys_found stands' key template keyed compares'
  have all : ((entries ht).map key).Perm ((entries ht').map key) :=
    (List.perm_ext_iff_of_nodup distinct distinct').mpr fun k => by rw [found, found', same]
  have lengths := all.length_eq
  rw [List.length_map, List.length_map] at lengths
  rw [elementCount_eq stands, elementCount_eq stands', lengths]

/-- Maps of one type that answer alike count alike. -/
private theorem elements_same {a b : SWordMap} (first : Kept a) (second : Kept b) (type : a.type = b.type)
    (byName : a.type.hasName = true → ∀ name, numberOf a name = numberOf b name)
    (byNumber : a.type.hasNumber = true → ∀ number, nameFor a number = nameFor b number) :
    wordMapGetNoElements a = wordMapGetNoElements b := by
  unfold wordMapGetNoElements
  rw [← type]
  by_cases numbered : a.type.hasNumber = true
  · rw [if_pos numbered, if_pos numbered]
    refine counts_same first.byNumber.1 second.byNumber.1 Entry.number (fun k => numberTemplate k.toInt32)
      (fun k => k.toUInt32_toInt32) sameNumber_iff sameNumber_iff fun k => ?_
    have answers := congrArg Option.isSome (byNumber numbered k.toInt32)
    simpa [nameFor] using answers
  · have named : a.type.hasName = true := by
      revert numbered
      cases a.type <;> decide
    rw [if_neg numbered, if_neg numbered]
    refine counts_same first.byName.1 second.byName.1 Entry.name nameTemplate (fun k => rfl) sameName_iff sameName_iff
      fun k => ?_
    have answers := congrArg Option.isSome (byName named k)
    simpa [numberOf] using answers

private theorem findByName_eq (map : SWordMap) (name : Text) : wordMapFindByName map name =
    if map.type.hasName then ((numberOf map name).map UInt32.toInt32).getD (-1) else -1 := by
  rw [wordMapFindByName, numberOf]
  split
  · cases hashFind map.byName (nameTemplate name) <;> rfl
  · rfl

private theorem findByNumber_eq (map : SWordMap) (number : Int32) :
    wordMapFindByNumber map number = if map.type.hasNumber then some (nameFor map number) else none := rfl

/-- The answers of a map that the entries of `map` were added to. -/
private theorem readBack_answers {created : SWordMap} {size : Int32}
    (start : wordMapCreate2 map.name map.type size = some created) :
    (map.type.hasName = true → ∀ name, numberOf (addAll created ((saved map).map pairOf)) name =
      ((saved map).find? fun entry => entry.name == name).map Entry.number) ∧
    (map.type.hasNumber = true → ∀ number, nameFor (addAll created ((saved map).map pairOf)) number =
      ((saved map).find? fun entry => entry.number == number.toUInt32).map Entry.name) := by
  have kept := create_kept start
  obtain ⟨sized, same⟩ := Option.dite_none_right_eq_some.mp start
  cases same
  constructor
  · intro typed name
    have nothing : numberOf ⟨map.name, map.type, _, sized, hashCreateTable _, hashCreateTable _, 0⟩ name = none := rfl
    rw [numberOf_addAll kept typed, nothing, Option.none_or, List.find?_map, Option.map_map]
    rfl
  · intro typed number
    have nothing : nameFor ⟨map.name, map.type, _, sized, hashCreateTable _, hashCreateTable _, 0⟩ number = none := rfl
    have key : ((fun pair : Text × Int32 => pair.2 == number) ∘ pairOf) = fun entry => entry.number == number.toUInt32 := by
      funext entry
      rw [Bool.eq_iff_iff, Function.comp_apply, pairOf, beq_iff_eq, beq_iff_eq]
      constructor
      · intro equal
        rw [← equal, UInt32.toUInt32_toInt32]
      · intro equal
        rw [equal, Int32.toInt32_toUInt32]
    rw [nameFor_addAll kept typed, nothing, Option.none_or, List.find?_map, key, Option.map_map]
    rfl

/-- The answers of the saved table of a map. -/
private theorem saved_answers (kept : Kept map) :
    (map.type.hasName = true → ∀ name, numberOf map name =
      ((saved map).find? fun entry => entry.name == name).map Entry.number) ∧
    (map.type.hasName = false → ∀ number, nameFor map number =
      ((saved map).find? fun entry => entry.number == number.toUInt32).map Entry.name) := by
  constructor
  · intro typed name
    have test : (fun e => (nameFuncs map.size map.sized).compData e (nameTemplate name) == 0) = fun entry => entry.name == name := by
      funext entry
      rw [Bool.eq_iff_iff, beq_iff_eq, beq_iff_eq, sameName_iff]
      rfl
    rw [numberOf, hashFind_eq kept.byName.1, test, saved, if_pos typed]
  · intro typed number
    have test : (fun e => (numberFuncs map.size map.sized).compData e (numberTemplate number) == 0) =
        fun entry => entry.number == number.toUInt32 := by
      funext entry
      rw [Bool.eq_iff_iff, beq_iff_eq, beq_iff_eq, sameNumber_iff]
      rfl
    rw [nameFor, hashFind_eq kept.byNumber.1, test, saved, if_neg (by simp [typed])]

/-- What was read back is the same map, just when the numbers of a map with both tables
    are those of the saved entries. -/
private theorem readBack_same (kept : Kept map) {size : Int32} {created : SWordMap}
    (start : wordMapCreate2 map.name map.type size = some created) :
    SameMap (addAll created ((saved map).map pairOf)) map ↔ NumbersSaved map := by
  obtain ⟨name, type⟩ := addAll_fixed created ((saved map).map pairOf)
  rw [(create_fields start).1] at name
  rw [(create_fields start).2] at type
  have again := addAll_kept (create_kept start) ((saved map).map pairOf)
  obtain ⟨names, numbers⟩ := readBack_answers start
  obtain ⟨ownNames, ownNumbers⟩ := saved_answers kept
  constructor
  · intro same both number
    have typed : map.type.hasNumber = true := by rw [both]; rfl
    have answer := same.byNumber number
    rw [findByNumber_eq, type, if_pos typed, numbers typed] at answer
    exact answer.symm
  · intro first
    have byName : map.type.hasName = true → ∀ key, numberOf (addAll created ((saved map).map pairOf)) key = numberOf map key := by
      intro typed key
      rw [names typed, ownNames typed]
    have byNumber : map.type.hasNumber = true → ∀ number,
        nameFor (addAll created ((saved map).map pairOf)) number = nameFor map number := by
      intro typed number
      rw [numbers typed]
      by_cases both : map.type.hasName = true
      · have kind : map.type = .byNameNumber := by
          revert typed both
          cases map.type <;> decide
        have answer := first kind number
        rw [findByNumber_eq, if_pos typed] at answer
        exact (Option.some.inj answer).symm
      · rw [ownNumbers (Bool.eq_false_iff.mpr both)]
    refine ⟨name, type, ?_, fun key => ?_, fun number => ?_⟩
    · rw [← type] at byName byNumber
      exact elements_same again kept type byName byNumber
    · rw [findByName_eq, findByName_eq, type]
      split
      · rename_i typed
        rw [byName typed]
      · rfl
    · rw [findByNumber_eq, findByNumber_eq, type]
      split
      · rename_i typed
        rw [byNumber typed]
      · rfl

end

section
variable {map loaded : SWordMap}

private theorem loadEntries_name {stale : Text} {errno : Int32} {count : Nat} {file : FILE}
    (ran : loadEntries stale errno count file map = some loaded) : loaded.name = map.name := by
  induction count generalizing file map with
  | zero => cases ran; rfl
  | succ count ih =>
    obtain ⟨⟨_, buffer, behind⟩, _, adding⟩ := Option.bind_eq_some_iff.mp ran
    obtain ⟨added, add, later⟩ := Option.bind_eq_some_iff.mp adding
    rw [ih later]
    unfold loadEntry at add
    split at add
    · cases add
      rfl
    · cases add

private theorem loadTable_name {stale : Text} {errno : Int32} {name : Text} {type : WordMapType} {file : FILE}
    (ran : loadTable stale errno name type file = some (.ok loaded)) : loaded.name = name := by
  obtain ⟨⟨count, behind⟩, _, creating⟩ := Option.bind_eq_some_iff.mp ran
  obtain ⟨created, create, loading⟩ := Option.bind_eq_some_iff.mp creating
  obtain ⟨after, entries, same⟩ := Option.bind_eq_some_iff.mp loading
  cases same
  rw [loadEntries_name entries, (create_fields create).1]

/-- The name of a loaded map is what `fgets` gave behind the version. -/
private theorem load_name {stale : Text} {errno version : Int32} {file behind : FILE}
    (first : fscanfInt file = some (version, behind)) (ran : wordMapLoad stale errno file = some (.ok loaded)) :
    nameOf (fgets 256 behind).1 = some loaded.name := by
  rcases read : fgets 256 behind with ⟨buffer, later⟩
  simp only [wordMapLoad, first, read, Option.bind_eq_bind, Option.bind_some] at ran
  obtain ⟨name, named, loading⟩ := Option.bind_eq_some_iff.mp ran
  rw [named]
  split at loading
  · rw [loadTable_name loading]
  · split at loading
    · obtain ⟨⟨type, rest⟩, _, typing⟩ := Option.bind_eq_some_iff.mp loading
      obtain ⟨kind, _, table⟩ := Option.bind_eq_some_iff.mp typing
      rw [loadTable_name table]
    · cases loading

/-- A line behind skipped white space makes a name that does not begin with any. -/
private theorem nameOf_skipped {text name : Text} (ended : ∃ front, text = front ++ [LF]) (noNul : 0 ∉ text) {eof : Bool}
    (more : text.dropWhile isSpace ≠ []) (named : nameOf (fgets 256 ⟨text.dropWhile isSpace, eof⟩).1 = some name) :
    Solid name := by
  obtain ⟨front, rfl⟩ := ended
  obtain ⟨c, rest, shape⟩ := List.exists_cons_of_ne_nil more
  have solid : isSpace c = false := by
    have head := List.head?_dropWhile_not isSpace (front ++ [LF])
    rw [shape] at head
    simpa using head
  have suffix : c :: rest <:+ front ++ [LF] := shape ▸ List.dropWhile_suffix isSpace
  obtain ⟨d, others, longer⟩ : ∃ d others, rest = d :: others := by
    refine List.exists_cons_of_ne_nil fun alone => ?_
    obtain ⟨before, joined⟩ := suffix
    rw [alone] at joined
    obtain rfl : c = LF := (List.append_inj' joined rfl).2 |> List.cons.inj |>.1
    cases solid
  have newline : c ≠ LF := by
    rintro rfl
    cases solid
  have lineIs : (takeLine 255 (c :: rest)).1 = c :: (takeLine 254 rest).1 := by
    rw [takeLine, if_neg newline]
  have nonempty : (takeLine 254 rest).1 ≠ [] := by
    rw [longer, takeLine]
    split <;> exact List.cons_ne_nil _ _
  have whole : cString (c :: (takeLine 254 rest).1) = c :: (takeLine 254 rest).1 := by
    refine cString_of_noNul fun member => noNul (suffix.subset ?_)
    rw [← takeLine_joined 255 (c :: rest), lineIs]
    exact List.mem_append_left _ member
  rw [shape] at named
  simp only [fgets, lineIs, List.isEmpty_cons, Bool.and_false, Bool.false_eq_true, if_false, nameOf, whole, reduceCtorEq,
    List.dropLast_cons_of_ne_nil nonempty, Option.some.injEq] at named
  exact ⟨c, _, named.symm, solid⟩

/-- A text of lines ends with a newline, and has no NUL when the lines have none. -/
private theorem linesText_last {lines : List Text} (nonempty : lines ≠ []) (noNul : ∀ body ∈ lines, 0 ∉ body) :
    (∃ front, linesText lines = front ++ [LF]) ∧ 0 ∉ linesText lines := by
  constructor
  · obtain ⟨before, last, rfl⟩ := lines.eq_nil_or_concat.resolve_left nonempty
    exact ⟨_, by rw [linesText, List.concat_eq_append, List.flatMap_append, List.flatMap_singleton, line, ← List.append_assoc]⟩
  · intro member
    obtain ⟨body, inLines, inLine⟩ := List.mem_flatMap.mp member
    rcases List.mem_append.mp inLine with inBody | newline
    · exact noNul body inLines inBody
    · simp [LF] at newline

/-- Without a name, or with white space in front of it, a loaded map has another name. -/
private theorem load_unsolid (savable : Savable map) (unsolid : ¬ Solid map.name) {stale : Text} {errno : Int32}
    (ran : wordMapLoad stale errno ⟨linesText (fileLines map (saved map)), false⟩ = some (.ok loaded)) :
    loaded.name ≠ map.name := by
  obtain ⟨others, lines, header⟩ : ∃ others, fileLines map (saved map) = printInt 2 :: others ∧
      others = map.name :: printInt (code map.type) :: printInt (Int32.ofInt (saved map).length) :: (saved map).map entryText :=
    ⟨_, rfl, rfl⟩
  have noNul : ∀ body ∈ others, 0 ∉ body := by
    intro body member
    simp only [header, List.mem_cons, List.mem_map] at member
    rcases member with rfl | rfl | rfl | ⟨entry, isSaved, rfl⟩
    · exact savable.name.2.2.2
    · exact printInt_free _ (by decide) rfl
    · exact printInt_free _ (by decide) rfl
    · exact (entryText_plain (savable.entries entry isSaved).1).2.2
  obtain ⟨ended, clean⟩ := linesText_last (by simp [header]) noNul
  have more : (linesText others).dropWhile isSpace ≠ [] := by
    rw [Ne, List.dropWhile_eq_nil_iff]
    intro blank
    obtain ⟨c, rest, shape, solid⟩ := solid_printInt (code map.type)
    have member : c ∈ linesText others := by simp [linesText, header, line, shape]
    rw [blank c member] at solid
    cases solid
  have version := fscanfInt_line 2 (linesText others)
  have text : linesText (fileLines map (saved map)) = printInt 2 ++ LF :: linesText others := by
    simp [lines, linesText, line]
  rw [text] at ran
  intro same
  exact unsolid (same ▸ nameOf_skipped ended clean more (load_name version ran))

end

section
variable {name : Text} {type : WordMapType} {size : Int32} {created map : SWordMap} {ops : List WordMapOp}

/-- A map whose saved table is empty cannot be read back, and any other can. -/
private theorem readBack_some (savable : Savable map) :
    if saved map = [] then readBack map = none
    else ∃ created, wordMapCreate2 map.name map.type (Int32.ofInt (saved map).length) = some created ∧
      readBack map = some (.ok (addAll created ((saved map).map pairOf))) := by
  split
  · rename_i empty
    simp only [readBack, empty]
    rfl
  · rename_i nonempty
    have positive := List.length_pos_of_ne_nil nonempty
    have counted := savable.counted
    have sized : 0 < (Int32.ofInt (saved map).length).toUInt32.toNat := by
      refine Nat.pos_of_ne_zero fun zero => ?_
      have nothing : (Int32.ofInt (saved map).length).toUInt32 = (0 : Int32).toUInt32 := UInt32.toNat_inj.mp zero
      have count := count_read counted
      rw [← Int32.toInt32_toUInt32 (Int32.ofInt _), nothing] at count
      exact absurd count (Nat.ne_of_lt positive)
    have create : wordMapCreate2 map.name map.type (Int32.ofInt (saved map).length) = some _ := dif_pos sized
    exact ⟨_, create, by rw [readBack, create]; rfl⟩

/-- The map that is loaded is the saved one just when the saved table has an entry, the
    name does not begin with white space, an `int` can count the buckets, and the numbers
    are those of the saved entries. -/
theorem save_load_iff (start : wordMapCreate2 name type size = some created) (reached : run step created ops = some map)
    (savable : Savable map) (stale : Text) (errno : Int32) :
    (∃ text loaded, wordMapSave map = some text ∧ wordMapLoad stale errno ⟨text, false⟩ = some (.ok loaded) ∧
      SameMap loaded map) ↔
      saved map ≠ [] ∧ Solid map.name ∧ map.size ≤ intMax ∧ NumbersSaved map := by
  have kept := run_kept start reached
  have made := readBack_some savable
  rw [wordMapSave_eq kept]
  constructor
  · rintro ⟨text, loaded, wrote, ran, same⟩
    obtain ⟨counts, rfl⟩ : map.size ≤ intMax ∧ linesText (fileLines map (saved map)) = text := by simpa using wrote
    have solid : Solid map.name := by
      by_contra unsolid
      exact load_unsolid savable unsolid ran same.name
    rw [load_solid savable solid] at ran
    by_cases empty : saved map = []
    · rw [if_pos empty, ran] at made
      cases made
    · rw [if_neg empty] at made
      obtain ⟨created, create, read⟩ := made
      cases read.symm.trans ran
      exact ⟨empty, solid, counts, (readBack_same kept create).mp same⟩
  · rintro ⟨nonempty, solid, counts, numbers⟩
    rw [if_neg nonempty] at made
    obtain ⟨created, create, read⟩ := made
    refine ⟨_, _, if_pos counts, ?_, (readBack_same kept create).mpr numbers⟩
    rw [load_solid savable solid, read]

/-- The two readers make the same map of what was saved just when the saved table has an
    entry, the name does not begin with white space, and an `int` can count the buckets. -/
theorem loaders_agree_iff (start : wordMapCreate2 name type size = some created) (reached : run step created ops = some map)
    (savable : Savable map) (stale : Text) (errno : Int32) :
    (∃ text loaded made, wordMapSave map = some text ∧ wordMapLoad stale errno ⟨text, false⟩ = some (.ok loaded) ∧
      wordMapCreateFromString (splitLines text).1 = some (.ok made) ∧ SameMap loaded made) ↔
      saved map ≠ [] ∧ Solid map.name ∧ map.size ≤ intMax := by
  have kept := run_kept start reached
  have read := readBack_some savable
  rw [wordMapSave_eq kept]
  constructor
  · rintro ⟨text, loaded, made, wrote, ran, ranToo, same⟩
    obtain ⟨counts, rfl⟩ : map.size ≤ intMax ∧ linesText (fileLines map (saved map)) = text := by simpa using wrote
    rw [createFromString_saved savable] at ranToo
    by_cases empty : saved map = []
    · rw [if_pos empty, ranToo] at read
      cases read
    · rw [if_neg empty] at read
      obtain ⟨fresh, create, again⟩ := read
      cases again.symm.trans ranToo
      refine ⟨empty, ?_, counts⟩
      by_contra unsolid
      refine load_unsolid savable unsolid ran (same.name.trans ?_)
      rw [(addAll_fixed fresh _).1, (create_fields create).1]
  · rintro ⟨nonempty, solid, counts⟩
    rw [if_neg nonempty] at read
    obtain ⟨fresh, create, again⟩ := read
    have loads := (load_solid savable solid stale errno).trans again
    have makes := (createFromString_saved savable).trans again
    exact ⟨_, _, _, if_pos counts, loads, makes, rfl, rfl, rfl, fun _ => rfl, fun _ => rfl⟩

end

/-- A map of two names, with a blank in one of them. -/
theorem save_load_iff_two : ∃ created map, wordMapCreate2 (lit "m") .byNameNumber 2 = some created ∧
    run step created [.add (lit "a b") 1, .add (lit "c") 2] = some map ∧
    ((∃ text loaded, wordMapSave map = some text ∧ wordMapLoad [] 0 ⟨text, false⟩ = some (.ok loaded) ∧
      SameMap loaded map) ↔
      saved map ≠ [] ∧ Solid map.name ∧ map.size ≤ intMax ∧ NumbersSaved map) := by
  refine ⟨_, _, rfl, rfl, ?_⟩
  refine @save_load_iff (lit "m") .byNameNumber 2 _ _ [.add (lit "a b") 1, .add (lit "c") 2] rfl rfl ⟨?_, ?_, ?_⟩ [] 0
  · decide
  · decide
  · decide

/-- The map of the adds of two names with one number. -/
private def shared : SWordMap :=
  addAll ⟨lit "m", .byNameNumber, 2, Nat.two_pos, hashCreateTable _, hashCreateTable _, 0⟩ [(lit "a", 1), (lit "b", 1)]

/-- A map without entries is not loaded; and where two names have one number, the first
    entry of the file takes it, not the first one that was added. -/
theorem saved_map_differs : (∃ map text, wordMapCreate2 (lit "m") .byNameNumber 2 = some map ∧
      wordMapSave map = some text ∧ wordMapLoad [] 0 ⟨text, false⟩ = none) ∧
    ∃ created map text loaded, wordMapCreate2 (lit "m") .byNameNumber 2 = some created ∧
      run step created [.add (lit "a") 1, .add (lit "b") 1] = some map ∧ wordMapSave map = some text ∧
      wordMapLoad [] 0 ⟨text, false⟩ = some (.ok loaded) ∧ wordMapFindByNumber map 1 = some (some (lit "a")) ∧
      wordMapFindByNumber loaded 1 = some (some (lit "b")) := by
  constructor
  · exact ⟨_, _, rfl, rfl, rfl⟩
  · have savable : Savable shared := by
      exact ⟨by decide, by decide, by decide⟩
    have loads := load_solid savable ⟨_, _, rfl, rfl⟩ [] 0
    exact ⟨_, shared, linesText (fileLines shared (saved shared)), _, rfl, rfl, rfl, loads.trans rfl, rfl, rfl⟩

/-- The readers of a map whose name and entries have blanks inside. -/
theorem loaders_agree_iff_two : ∃ created map, wordMapCreate2 (lit "a map") .byName 2 = some created ∧
    run step created [.add (lit "a b") 1, .add (lit "c") 2] = some map ∧
    ((∃ text loaded made, wordMapSave map = some text ∧ wordMapLoad [] 0 ⟨text, false⟩ = some (.ok loaded) ∧
      wordMapCreateFromString (splitLines text).1 = some (.ok made) ∧ SameMap loaded made) ↔
      saved map ≠ [] ∧ Solid map.name ∧ map.size ≤ intMax) := by
  refine ⟨_, _, rfl, rfl, ?_⟩
  refine @loaders_agree_iff (lit "a map") .byName 2 _ _ [.add (lit "a b") 1, .add (lit "c") 2] rfl rfl ⟨?_, ?_, ?_⟩ [] 0
  · decide
  · decide
  · decide

/-- A blank in front of the name is lost by `wordMap_load` only. -/
theorem loaders_differ : ∃ created map text loaded made, wordMapCreate2 (lit " m") .byName 2 = some created ∧
    run step created [.add (lit "a") 1] = some map ∧ wordMapSave map = some text ∧
    wordMapLoad [] 0 ⟨text, false⟩ = some (.ok loaded) ∧ wordMapCreateFromString (splitLines text).1 = some (.ok made) ∧
    loaded.name = lit "m" ∧ made.name = lit " m" := by
  have good : ∀ entry ∈ [(⟨0, lit "a", 1⟩ : Entry)], Plain entry.name ∧ (entryText entry).length < 1023 := by
    decide
  have table := loadTable_entries good (by decide) [] 0 (lit "m") .byName
  exact ⟨_, _, _, _, _, rfl, rfl, rfl, (show wordMapLoad [] 0 _ = _ from rfl).trans table, rfl, rfl, rfl⟩

end VoxiUtil.WordMapRoundTrip
