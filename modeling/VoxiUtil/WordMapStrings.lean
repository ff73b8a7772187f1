import VoxiUtil.StrbufStringList
import VoxiUtil.WordMapRoundTrip

/-!
A word map in a string list of `strbuf.c`: `wordMap_saveToStringBuffer`, whose text says all of
the map, and `wordMap_createFromString`, which looks for another form of it.
-/
namespace VoxiUtil.WordMapStrings
open VoxiUtil.HashCursor (hashCursorCreate hashCursorDestroy)
open VoxiUtil.CString VoxiUtil.Hash VoxiUtil.HashSet VoxiUtil.HashTraversal VoxiUtil.Runs VoxiUtil.Strbuf VoxiUtil.StrbufCalls
open VoxiUtil.StrbufStringList VoxiUtil.WordMap VoxiUtil.WordMapDeletes VoxiUtil.WordMapFiles VoxiUtil.WordMapRoundTrip
open VoxiUtil.Limits (intMax)

/-- `strbuf_stringList_append2`, with what its format makes of its arguments, which has to fit the array `buf` with its NUL. -/
def strbufStringListAppend2 (s : Traced) (formatted : Text) : Option Traced :=
  if formatted.length < 1024 then strbufAppendBinary s (cString formatted ++ [0]) else none

/-- The strings of an entry. -/
def entryStrings (entry : Entry) : List Text := [printInt entry.number.toInt32, entry.name]

/-- `wordMap_saveToStringBuffer` for the table that it saves. -/
def saveTableStrings (map : SWordMap) {fs : Funcs Entry} (hashTable : Hasht fs) : Option Traced := do
  let memBlock ← run strbufStringListAppend2 (create 65536)
    [printInt 2, map.name, printInt (code map.type), printInt (Int32.ofInt (hashGetElementCount hashTable))]
  let h ← hashCursorCreate (idle hashTable map.allocated)
  let (entries, h) ← visit entryStrings ((records hashTable).length + 1) h map.allocated
  let memBlock ← run strbufStringListAppend2 memBlock entries
  let _ ← hashCursorDestroy h map.allocated
  return memBlock

def wordMapSaveToStringBuffer (map : SWordMap) : Option Traced :=
  if map.type.hasName then saveTableStrings map map.byName else saveTableStrings map map.byNumber

/-- The strings that stand for a map. -/
def stringsOf (map : SWordMap) : List Text :=
  [printInt 2, map.name, printInt (code map.type), printInt (Int32.ofInt (saved map).length)] ++ (saved map).flatMap entryStrings

/-- The names are C strings. -/
def Named (map : SWordMap) : Prop := 0 ∉ map.name ∧ ∀ entry ∈ saved map, 0 ∉ entry.name

/-- An `int` counts the buckets, and each name fits the array. -/
def Fits (map : SWordMap) : Prop := map.size ≤ intMax ∧ map.name.length < 1024 ∧ ∀ entry ∈ saved map, entry.name.length < 1024

section
variable {map other : SWordMap} {fs : Funcs Entry} {lawful : Lawful fs} {ht : Hasht fs} {s t : Traced} {strings : List Text}

/-! ### The string list -/

theorem append2_fits {string : Text} (noNul : 0 ∉ string) (short : string.length < 1024) :
    strbufStringListAppend2 s string = strbufStringListAppend s string := by
  rw [strbufStringListAppend2, if_pos short, cString_of_noNul noNul, strbufStringListAppend]

theorem appends2_fit (noNul : ∀ string ∈ strings, 0 ∉ string) (short : ∀ string ∈ strings, string.length < 1024) :
    run strbufStringListAppend2 s strings = run strbufStringListAppend s strings := by
  induction strings generalizing s with
  | nil => rfl
  | cons string rest ih =>
    rw [run, run, append2_fits (noNul string List.mem_cons_self) (short string List.mem_cons_self)]
    refine congrArg _ (funext fun t => ?_)
    exact ih (fun one member => noNul one (List.mem_cons_of_mem _ member)) fun one member => short one (List.mem_cons_of_mem _ member)

theorem appends2_short (ran : run strbufStringListAppend2 s strings = some t) : ∀ string ∈ strings, string.length < 1024 := by
  induction strings generalizing s with
  | nil => simp
  | cons string rest ih =>
    obtain ⟨m, appended, remaining⟩ := run_cons.mp ran
    intro one member
    rcases List.mem_cons.mp member with rfl | later
    · by_contra long
      rw [strbufStringListAppend2, if_neg long] at appended
      cases appended
    · exact ih remaining one later

/-- The strings can be told from their layout. -/
theorem layout_injective {strings others : List Text} (noNul : ∀ string ∈ strings, 0 ∉ string) (noNul' : ∀ string ∈ others, 0 ∉ string)
    (same : layout strings = layout others) : strings = others := by
  induction strings generalizing others with
  | nil =>
    cases others with
    | nil => rfl
    | cons other rest => simp [layout] at same
  | cons string rest ih =>
    cases others with
    | nil => simp [layout] at same
    | cons other more =>
      have texts : string ++ 0 :: layout rest = other ++ 0 :: layout more := by
        simpa [layout] using same
      have first : string = other := by
        have one := cString_ended (noNul string List.mem_cons_self) (layout rest)
        have two := cString_ended (noNul' other List.mem_cons_self) (layout more)
        rw [← one, texts, two]
      subst first
      have later : layout rest = layout more := List.cons_injective (List.append_cancel_left texts)
      rw [ih (fun one member => noNul one (List.mem_cons_of_mem _ member)) (fun one member => noNul' one (List.mem_cons_of_mem _ member)) later]

/-! ### The strings of a map -/

theorem printInt_noNul (n : Int32) : 0 ∉ printInt n := printInt_free n (by decide) rfl

theorem stringsOf_noNul (named : Named map) : ∀ string ∈ stringsOf map, 0 ∉ string := by
  intro string member
  rcases List.mem_append.mp member with header | later
  · simp only [List.mem_cons, List.not_mem_nil, or_false] at header
    rcases header with rfl | rfl | rfl | rfl
    · exact printInt_noNul _
    · exact named.1
    · exact printInt_noNul _
    · exact printInt_noNul _
  · obtain ⟨entry, isSaved, own⟩ := List.mem_flatMap.mp later
    simp only [entryStrings, List.mem_cons, List.not_mem_nil, or_false] at own
    rcases own with rfl | rfl
    · exact printInt_noNul _
    · exact named.2 entry isSaved

theorem stringsOf_short : (∀ string ∈ stringsOf map, string.length < 1024) ↔ map.name.length < 1024 ∧ ∀ entry ∈ saved map, entry.name.length < 1024 := by
  have number : ∀ n : Int32, (printInt n).length < 1024 := fun n => Nat.lt_of_le_of_lt (printInt_length n) (by decide)
  constructor
  · intro short
    refine ⟨short map.name (by simp [stringsOf]), fun entry isSaved => short entry.name ?_⟩
    exact List.mem_append_right _ (List.mem_flatMap.mpr ⟨entry, isSaved, by simp [entryStrings]⟩)
  · rintro ⟨name, names⟩ string member
    rcases List.mem_append.mp member with header | later
    · simp only [List.mem_cons, List.not_mem_nil, or_false] at header
      rcases header with rfl | rfl | rfl | rfl
      · exact number _
      · exact name
      · exact number _
      · exact number _
    · obtain ⟨entry, isSaved, own⟩ := List.mem_flatMap.mp later
      simp only [entryStrings, List.mem_cons, List.not_mem_nil, or_false] at own
      rcases own with rfl | rfl
      · exact number _
      · exact names entry isSaved

theorem saveTableStrings_eq (sound : Sound lawful ht map.allocated) :
    saveTableStrings map ht = if fs.size ≤ intMax then run strbufStringListAppend2 (create 65536)
      ([printInt 2, map.name, printInt (code map.type), printInt (Int32.ofInt (entries ht).length)] ++ (entries ht).flatMap entryStrings)
      else none := by
  obtain ⟨stands, parked⟩ := sound
  have count : hashGetElementCount ht = (entries ht).length := elementCount_eq stands
  have first := create_on parked
  rw [idle_unused, idle_table] at first
  have listed : (records ht).flatMap (fun record => entryStrings record.data) = (entries ht).flatMap entryStrings := by
    simp [entries, List.flatMap_map]
  set header := [printInt 2, map.name, printInt (code map.type), printInt (Int32.ofInt (hashGetElementCount ht))] with heading
  rw [← count, ← heading, saveTableStrings, ← heading]
  ext t
  simp only [Option.bind_eq_bind, Option.bind_eq_some_iff, Option.ite_none_right_eq_some, run_append]
  rcases first with ⟨h, created, on, _, small⟩ | ⟨stuck, large⟩
  · have enough : (records ht).length < (records ht).length + 1 := Nat.lt_succ_self _
    rcases visit_on entryStrings on enough with ⟨h', visited, past, _, more⟩ | ⟨stuck, large⟩
    · have fits : fs.size ≤ intMax := by
        by_cases empty : records ht = []
        · exact small empty
        · exact more empty
      have destroyed := destroy_on past
      simp [created, visited, destroyed, listed, fits]
    · simp [created, stuck, Nat.not_le.mpr large]
  · simp [stuck, Nat.not_le.mpr large]

theorem save_eq (kept : Kept map) :
    wordMapSaveToStringBuffer map = if map.size ≤ intMax then run strbufStringListAppend2 (create 65536) (stringsOf map) else none := by
  rw [wordMapSaveToStringBuffer, stringsOf, saved]
  split
  · exact saveTableStrings_eq kept.byName
  · exact saveTableStrings_eq kept.byNumber

theorem save_layout (named : Named map) (kept : Kept map) : (∃ memBlock, wordMapSaveToStringBuffer map = some memBlock) ↔ Fits map := by
  rw [save_eq kept]
  constructor
  · rintro ⟨memBlock, ran⟩
    obtain ⟨counts, ran⟩ := Option.ite_none_right_eq_some.mp ran
    exact ⟨counts, stringsOf_short.mp (appends2_short ran)⟩
  · rintro ⟨counts, names⟩
    rw [if_pos counts, appends2_fit (stringsOf_noNul named) (stringsOf_short.mpr names)]
    obtain ⟨memBlock, ran, -⟩ := appends_layout 65536 (stringsOf map)
    exact ⟨memBlock, ran⟩

theorem save_text (named : Named map) (kept : Kept map) {memBlock : Traced} (done : wordMapSaveToStringBuffer map = some memBlock) :
    memBlock.strbuf.string = layout (stringsOf map) := by
  rw [save_eq kept] at done
  obtain ⟨-, ran⟩ := Option.ite_none_right_eq_some.mp done
  rw [appends2_fit (stringsOf_noNul named) (appends2_short ran)] at ran
  obtain ⟨other, again, text⟩ := appends_layout 65536 (stringsOf map)
  rw [ran] at again
  cases again
  exact text

/-! ### Reading -/

theorem code_injective {a b : WordMapType} (same : code a = code b) : a = b := by
  have back := congrArg typeOf same
  rw [WordMapReaders.typeOf_code, WordMapReaders.typeOf_code] at back
  exact Option.some.inj back

theorem entryStrings_injective {list others : List Entry} (same : list.flatMap entryStrings = others.flatMap entryStrings) :
    list.map pairOf = others.map pairOf := by
  induction list generalizing others with
  | nil =>
    cases others with
    | nil => rfl
    | cons other rest => simp [entryStrings] at same
  | cons entry rest ih =>
    cases others with
    | nil => simp [entryStrings] at same
    | cons other more =>
      simp only [List.flatMap_cons, entryStrings, List.cons_append, List.nil_append, List.cons.injEq] at same
      obtain ⟨number, name, later⟩ := same
      have numbers : entry.number.toInt32 = other.number.toInt32 := by
        rw [← atoi_printInt entry.number.toInt32, number, atoi_printInt]
      rw [List.map_cons, List.map_cons, pairOf, pairOf, name, numbers, ih later]

/-- The strings say all of a map. -/
theorem stringsOf_injective (same : stringsOf map = stringsOf other) :
    map.name = other.name ∧ map.type = other.type ∧ (saved map).map pairOf = (saved other).map pairOf := by
  simp only [stringsOf, List.cons_append, List.nil_append, List.cons.injEq] at same
  obtain ⟨-, name, type, -, list⟩ := same
  have codes : code map.type = code other.type := by
    rw [← atoi_printInt (code map.type), type, atoi_printInt]
  exact ⟨name, code_injective codes, entryStrings_injective list⟩

/-- A number is no line of an entry. -/
theorem loadEntry_number (made : SWordMap) (n : Int32) : loadEntry made (printInt n) = none := by
  have free : ∀ b ∈ printInt n, b ∉ [(32 : UInt8)] := by
    intro b member blank
    rw [List.mem_singleton.mp blank] at member
    exact printInt_free _ (by decide) rfl member
  rw [loadEntry, strsep_last free]

theorem addLines_strings (made : SWordMap) (list : List Entry) {count : Nat} (positive : 0 < count) (some : list ≠ []) :
    addLines count (list.flatMap entryStrings) made = none := by
  obtain ⟨count, rfl⟩ := Nat.exists_eq_succ_of_ne_zero (Nat.ne_of_gt positive)
  obtain ⟨entry, rest, rfl⟩ := List.exists_cons_of_ne_nil some
  rw [List.flatMap_cons, entryStrings, List.cons_append, addLines, loadEntry_number, Option.bind_none]

/-- `wordMap_createFromString` takes a number and a name in one string. A count that is no `int` counts no entry at all. -/
theorem createFromString_strings (map : SWordMap) :
    wordMapCreateFromString (stringsOf map) = none ↔ 0 ≤ (Int32.ofInt (saved map).length).toInt := by
  have version : atoi (printInt 2) = 2 := atoi_printInt 2
  set count := Int32.ofInt (saved map).length with counting
  have made : wordMapCreateFromString (stringsOf map) = (wordMapCreate2 map.name map.type count).bind fun created =>
      (addLines count.toInt.toNat ((saved map).flatMap entryStrings) created).map .ok := by
    simp only [wordMapCreateFromString, stringsOf, createTable, List.cons_append, List.nil_append, List.getElem?_cons_zero,
      List.getElem?_cons_succ, List.drop_succ_cons, List.drop_zero, List.head?_cons, List.tail_cons, atoi_printInt,
      WordMapReaders.typeOf_code, Option.bind_eq_bind, Option.bind_some]
    rw [if_neg (by decide), if_pos trivial, ← counting]
    refine congrArg _ (funext fun created => ?_)
    cases addLines count.toInt.toNat ((saved map).flatMap entryStrings) created <;> rfl
  rw [made]
  constructor
  · intro fails
    by_contra negative
    have nothing : count.toInt.toNat = 0 := Int.toNat_of_nonpos (by omega)
    have sized : 0 < count.toUInt32.toNat := by
      refine Nat.pos_of_ne_zero fun zero => negative ?_
      have bits : count.toUInt32 = 0 := UInt32.toNat_inj.mp zero
      have same : count = 0 := by rw [← Int32.toInt32_toUInt32 count, bits]; rfl
      rw [same]
      decide
    rw [wordMapCreate2, dif_pos sized, Option.bind_some, nothing, addLines] at fails
    cases fails
  · intro counted
    by_cases zero : count = 0
    · rw [wordMapCreate2, dif_neg (by rw [zero]; decide), Option.bind_none]
    · have positive : 0 < count.toInt.toNat := by
        have apart : count.toInt ≠ 0 := fun same => zero (Int32.toInt_inj.mp same)
        omega
      have some : saved map ≠ [] := by
        intro empty
        rw [counting, empty] at zero
        exact zero rfl
      cases wordMapCreate2 map.name map.type count with
      | none => rfl
      | some created => rw [Option.bind_some, addLines_strings created (saved map) positive some, Option.map_none]

/-- A map is saved to a string buffer just when an `int` counts its buckets and its names fit the array of an append; the text then
    is the list of its strings, which no map of another name, type or list of entries has; and `wordMap_createFromString` fails on
    this list, unless the number of entries is no `int`. -/
theorem string_buffer_restores {name : Text} {type : WordMapType} {size : Int32} {created : SWordMap} {ops : List WordMapOp}
    (start : wordMapCreate2 name type size = some created) (reached : run step created ops = some map) (named : Named map) :
    ((∃ memBlock, wordMapSaveToStringBuffer map = some memBlock) ↔ Fits map) ∧
      (∀ memBlock, wordMapSaveToStringBuffer map = some memBlock → memBlock.strbuf.string = layout (stringsOf map)) ∧
      (∀ other, Named other → layout (stringsOf other) = layout (stringsOf map) →
        other.name = map.name ∧ other.type = map.type ∧ (saved other).map pairOf = (saved map).map pairOf) ∧
      (wordMapCreateFromString (stringsOf map) = none ↔ 0 ≤ (Int32.ofInt (saved map).length).toInt) := by
  have kept := run_kept start reached
  refine ⟨save_layout named kept, fun _ => save_text named kept, fun other plain same => ?_, createFromString_strings map⟩
  exact stringsOf_injective (layout_injective (stringsOf_noNul plain) (stringsOf_noNul named) same)

end

theorem string_buffer_restores_two : ∃ created map, wordMapCreate2 (lit "m") .byName 2 = some created ∧
    run step created [.add (lit "a b") 1, .add (lit "c") 2] = some map ∧
    ((∃ memBlock, wordMapSaveToStringBuffer map = some memBlock) ↔ Fits map) ∧
      (∀ memBlock, wordMapSaveToStringBuffer map = some memBlock → memBlock.strbuf.string = layout (stringsOf map)) ∧
      (∀ other, Named other → layout (stringsOf other) = layout (stringsOf map) →
        other.name = map.name ∧ other.type = map.type ∧ (saved other).map pairOf = (saved map).map pairOf) ∧
      (wordMapCreateFromString (stringsOf map) = none ↔ 0 ≤ (Int32.ofInt (saved map).length).toInt) := by
  refine ⟨_, _, rfl, rfl, ?_⟩
  refine @string_buffer_restores _ (lit "m") .byName 2 _ [.add (lit "a b") 1, .add (lit "c") 2] rfl rfl ⟨?_, ?_⟩
  · decide
  · decide

end VoxiUtil.WordMapStrings
