import VoxiUtil.WordMapFiles

/-!
The two readers of a word map's file, on the lines that `wordMap_save` writes.
-/
namespace VoxiUtil.WordMapReaders
open VoxiUtil.CString VoxiUtil.Err VoxiUtil.File VoxiUtil.Stdio VoxiUtil.WordMap VoxiUtil.WordMapFiles

/-- Each line of a text that ends with a newline. -/
theorem splitLines_line {body : Text} (free : LF ∉ body) (rest : Text) :
    splitLines (line body ++ rest) = (body :: (splitLines rest).1, (splitLines rest).2) := by
  induction body with
  | nil => simp [line, splitLines]
  | cons c body ih =>
    rw [List.mem_cons, not_or] at free
    have later := ih free.2
    rw [line, List.append_assoc] at later
    rw [line, List.cons_append, List.cons_append, List.append_assoc, splitLines, later]
    simp [Ne.symm free.1]

theorem splitLines_linesText {lines : List Text} (free : ∀ body ∈ lines, LF ∉ body) :
    splitLines (linesText lines) = (lines, []) := by
  induction lines with
  | nil => rfl
  | cons body lines ih =>
    rw [linesText, List.flatMap_cons, splitLines_line (free body List.mem_cons_self)]
    rw [show List.flatMap line lines = linesText lines from rfl, ih fun b member => free b (List.mem_cons_of_mem _ member)]

section
variable {entry : Entry}

theorem entryText_plain (plain : Plain entry.name) : Plain (entryText entry) := by
  have free : ∀ c : UInt8, c ≠ 45 → isDigit c = false → c ≠ 32 → c ∉ entry.name → c ∉ entryText entry := by
    intro c sign digit blank name member
    rcases List.mem_append.mp member with number | rest
    · exact printInt_free _ sign digit number
    · rcases List.mem_cons.mp rest with same | inName
      · exact blank same
      · exact name inName
  exact ⟨free LF (by decide) rfl (by decide) plain.1, free CR (by decide) rfl (by decide) plain.2.1,
    free 0 (by decide) rfl (by decide) plain.2.2⟩

/-- A line that was written for an entry is read as it is. -/
theorem fileReadLine_entry (plain : Plain entry.name) (short : (entryText entry).length < 1023) (rest stale : Text)
    (errno : Int32) :
    fileReadLine ⟨line (entryText entry) ++ rest, false⟩ stale 1024 errno = some (0, entryText entry, ⟨rest, false⟩) := by
  obtain ⟨noLF, noCR, noNul⟩ := entryText_plain plain
  have start : isComment (entryText entry) = false := by
    obtain ⟨c, more, shape, _, other, _⟩ := printInt_shape entry.number.toInt32
    simp [isComment, entryText, shape, other]
  have nonempty : entryText entry ≠ [] := by simp [entryText]
  rw [line, List.append_assoc]
  exact fileReadLine_body ⟨noLF, noNul⟩ (fun last => noCR (List.mem_of_getLast? last)) ⟨nonempty, start⟩ (by omega) rest stale errno

/-- The entry of a line is added again. -/
theorem loadEntry_entry (map : SWordMap) (entry : Entry) :
    loadEntry map (entryText entry) = some (wordMapAdd map entry.name entry.number.toInt32) := by
  have free : ∀ b ∈ printInt entry.number.toInt32, b ∉ [(32 : UInt8)] := by
    intro b member blank
    rw [List.mem_singleton.mp blank] at member
    exact printInt_free _ (by decide) rfl member
  rw [loadEntry, entryText, strsep_found free (List.mem_singleton.mpr rfl)]
  simp only [atoi_printInt]

theorem loadEntries_entries {list : List Entry} (good : ∀ entry ∈ list, Plain entry.name ∧ (entryText entry).length < 1023)
    (map : SWordMap) (stale : Text) (errno : Int32) :
    loadEntries stale errno list.length ⟨linesText (list.map entryText), false⟩ map = some (addAll map (list.map pairOf)) := by
  induction list generalizing map with
  | nil => rfl
  | cons entry list ih =>
    obtain ⟨plain, short⟩ := good entry List.mem_cons_self
    have later := ih (fun e member => good e (List.mem_cons_of_mem _ member)) (wordMapAdd map entry.name entry.number.toInt32)
    rw [List.length_cons, loadEntries, List.map_cons, linesText, List.flatMap_cons, fileReadLine_entry plain short,
      Option.bind_some, cString_of_noNul (entryText_plain plain).2.2, loadEntry_entry, Option.bind_some]
    exact later

theorem addLines_entries (list : List Entry) (map : SWordMap) :
    addLines list.length (list.map entryText) map = some (addAll map (list.map pairOf)) := by
  induction list generalizing map with
  | nil => rfl
  | cons entry list ih =>
    rw [List.length_cons, List.map_cons, addLines, loadEntry_entry, Option.bind_some, ih]
    rfl

end

/-- A count that fits an `int` is read as it is. -/
theorem count_read {n : Nat} (fits : n ≤ 2147483647) : (Int32.ofInt n).toInt.toNat = n := by
  rw [Int32.toInt_ofInt_of_le (by omega) (by omega)]
  rfl

theorem typeOf_code (type : WordMapType) : typeOf (code type) = some type := by
  cases type <;> rfl

end VoxiUtil.WordMapReaders
