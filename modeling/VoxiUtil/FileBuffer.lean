import VoxiUtil.File
import VoxiUtil.Limits

/-!
The buffer of the line reader of `file.c`, byte by byte: a load or a store outside of it
has no outcome. The reader keeps to its buffer when the line that it reads has a byte in
front of its first NUL that is no newline character.
-/
namespace VoxiUtil.FileBuffer
open VoxiUtil.CString VoxiUtil.Stdio VoxiUtil.File
open VoxiUtil.Limits (sizeMax)

def load (buffer : Text) (index : Nat) : Option UInt8 := buffer[index]?

def save (buffer : Text) (index : Nat) (c : UInt8) : Option Text :=
  if index < buffer.length then some (buffer.set index c) else none

/-- Stores of bytes one behind another. -/
def saveAll (buffer : Text) (index : Nat) : Text → Option Text
  | [] => some buffer
  | c :: rest => (save buffer index c).bind (fun buffer => saveAll buffer (index + 1) rest)

/-- `fgets` into the whole buffer: a line and a NUL, when there is a line. -/
def fgetsInto (file : FILE) (buffer : Text) : Option (Bool × Text × FILE) :=
  match fgets buffer.length file with
  | (none, behind) => some (false, buffer, behind)
  | (some line, behind) => (saveAll buffer 0 (line ++ [0])).map (fun buffer => (true, buffer, behind))

/-- `strlen` of the string at the buffer, from `index` on. -/
def strlen (buffer : Text) : Nat → Nat → Option Nat
  | 0, _ => none
  | turns + 1, index => (load buffer index).bind (fun c => if c = 0 then some index else strlen buffer turns (index + 1))

/-- One less, as a `size_t`. -/
def decrement (index : Nat) : Nat := if index = 0 then sizeMax else index - 1

/-- The loop of `file_readLine` over the newline characters. -/
def trim (buffer : Text) : Nat → Nat → Option Nat
  | 0, _ => none
  | turns + 1, lastIndex =>
    (load buffer lastIndex).bind (fun c => if isNewline c then trim buffer turns (decrement lastIndex) else some lastIndex)

/-- The loop of `file_readLine` over the comments. The first byte is only looked at when
    the stream has not ended. -/
def readPast : Nat → FILE → Text → Option (Bool × Text × FILE)
  | 0, _, _ => none
  | turns + 1, file, buffer => do
    let (got, buffer, behind) ← fgetsInto file buffer
    if !got || feof behind then return (got, buffer, behind)
    let first ← load buffer 0
    if first = byte '#' then readPast turns behind buffer else return (true, buffer, behind)

/-- `file_readLine` with a buffer of `bufSize` bytes. -/
def readLine (file : FILE) (buffer : Text) (errno : Int32) : Option (Int32 × Text × FILE) := do
  let (got, buffer, file) ← readPast (file.rest.length + 1) file buffer
  if got then
    let length ← strlen buffer buffer.length 0
    let lastIndex ← trim buffer (buffer.length + 1) (decrement length)
    let buffer ← save buffer (lastIndex + 1) 0
    return (0, buffer, file)
  else return (errno, buffer, file)

section
variable {buffer line text bytes behind rest : Text} {file after : FILE} {index turns length : Nat} {c : UInt8} {got : Bool}

/-! ### The buffer after `fgets` -/

theorem saveAll_inside (fits : index + bytes.length ≤ buffer.length) :
    saveAll buffer index bytes = some (buffer.take index ++ bytes ++ buffer.drop (index + bytes.length)) := by
  induction bytes generalizing buffer index with
  | nil => simp [saveAll]
  | cons c rest ih =>
    rw [List.length_cons] at fits
    have inside : index < buffer.length := by omega
    have shorter : index + 1 + rest.length ≤ (buffer.set index c).length := by
      rw [List.length_set]
      omega
    rw [saveAll, save, if_pos inside, Option.bind_some, ih shorter]
    congr 1
    have front : (buffer.set index c).take (index + 1) = buffer.take index ++ [c] := by
      rw [List.take_add_one, List.take_set_of_le (Nat.le_refl _)]
      simp [inside]
    have back : (buffer.set index c).drop (index + 1 + rest.length) = buffer.drop (index + (rest.length + 1)) := by
      rw [List.drop_set_of_lt (by omega)]
      congr 1
      omega
    rw [front, back]
    simp

theorem takeLine_length (n : Nat) (stream : Text) : (takeLine n stream).1.length ≤ n := by
  induction n generalizing stream with
  | zero => simp [takeLine]
  | succ n ih =>
    cases stream with
    | nil => simp [takeLine]
    | cons c rest =>
      rw [takeLine]
      split
      · simp
      · simpa using ih rest

theorem fgets_length {size : Nat} (read : fgets size file = (some line, after)) : line.length ≤ size - 1 := by
  have short := takeLine_length (size - 1) file.rest
  simp only [fgets, Prod.mk.injEq] at read
  obtain ⟨some_line, _⟩ := read
  split at some_line
  · cases some_line
  · cases some_line
    exact short

/-- The buffer has a string from its start on, and bytes behind it. -/
def Starts (buffer line : Text) : Prop := ∃ rest, buffer = line ++ 0 :: rest

/-- `fgets` stores its line inside of the buffer. -/
theorem fgetsInto_line (room : 1 < buffer.length) (read : fgets buffer.length file = (some line, after)) :
    ∃ buffer', fgetsInto file buffer = some (true, buffer', after) ∧ Starts buffer' line ∧ buffer'.length = buffer.length := by
  have short := fgets_length read
  have fits : 0 + (line ++ [0]).length ≤ buffer.length := by simp; omega
  refine ⟨line ++ 0 :: buffer.drop (line.length + 1), ?_, ⟨_, rfl⟩, ?_⟩
  · rw [fgetsInto, read]
    simp only [saveAll_inside fits]
    simp
  · simp
    omega

theorem starts_first (starts : Starts buffer line) : ∃ first, load buffer 0 = some first ∧ (first = byte '#' ↔ isComment line = true) := by
  obtain ⟨rest, rfl⟩ := starts
  cases line with
  | nil => exact ⟨0, rfl, by decide⟩
  | cons c more =>
    refine ⟨c, rfl, ?_⟩
    simp [isComment]

/-- The bytes in the buffer say the same as the text that the reader of `File` has: after
    a line they start with it. -/
structure Same (size : Nat) (buffer text : Text) (got : Bool) : Prop where
  length : buffer.length = size
  line : got = true → Starts buffer text
  string : cString buffer = cString text

theorem starts_string (starts : Starts buffer line) : cString buffer = cString line := by
  obtain ⟨rest, rfl⟩ := starts
  induction line with
  | nil => simp [cString]
  | cons c more ih =>
    rw [List.cons_append, cString, cString, List.takeWhile_cons, List.takeWhile_cons]
    rw [cString, cString] at ih
    rw [ih]

/-- The loop over the comments is the one of `File`, and stays inside of the buffer. -/
theorem readPast_same (room : 1 < buffer.length) (string : cString buffer = cString text) (enough : file.rest.length < turns) :
    ∃ buffer' text' got after, readPast turns file buffer = some (got, buffer', after) ∧
      readPastComments buffer.length file text = (got, text', after) ∧ Same buffer.length buffer' text' got := by
  induction turns generalizing file buffer text with
  | zero => exact absurd enough (Nat.not_lt_zero _)
  | succ turns ih =>
    rw [readPastComments_eq]
    rcases read : fgets buffer.length file with ⟨_ | line, after⟩
    · refine ⟨buffer, text, false, after, ?_, rfl, rfl, ?_, string⟩
      · simp [readPast, fgetsInto, read]
      · intro impossible
        cases impossible
    · obtain ⟨buffer', stored, starts, length⟩ := fgetsInto_line room read
      obtain ⟨first, loaded, comment⟩ := starts_first starts
      by_cases ended : feof after = true
      · refine ⟨buffer', line, true, after, ?_, ?_, length, fun _ => starts, starts_string starts⟩
        · simp [readPast, stored, ended]
        · simp [ended]
      · have going : feof after = false := Bool.eq_false_of_not_eq_true ended
        by_cases again : isComment line = true
        · have shorter := fgets_progress room read going
          rw [← length] at room
          obtain ⟨last, lastText, got, behind, ran, scanned, same⟩ :=
            ih room (starts_string starts) (Nat.lt_of_lt_of_le shorter (Nat.le_of_lt_succ enough))
          rw [length] at scanned same
          refine ⟨last, lastText, got, behind, ?_, ?_, same⟩
          · simpa [readPast, stored, going, loaded, comment, again] using ran
          · simpa [going, again] using scanned
        · refine ⟨buffer', line, true, after, ?_, ?_, length, fun _ => starts, starts_string starts⟩
          · simp [readPast, stored, going, loaded, comment, again]
          · simp [again]

/-! ### The string and its newline characters -/

theorem starts_cString (starts : Starts buffer line) : Starts buffer (cString line) := by
  obtain ⟨rest, rfl⟩ := starts
  induction line with
  | nil => exact ⟨rest, rfl⟩
  | cons c more ih =>
    rw [cString, List.takeWhile_cons]
    by_cases null : c = 0
    · subst null
      exact ⟨more ++ 0 :: rest, rfl⟩
    · obtain ⟨behind, same⟩ := ih
      rw [if_pos (by simpa using null)]
      exact ⟨behind, by rw [List.cons_append, same]; rfl⟩

theorem load_front (inside : index < text.length) : load (text ++ rest) index = some text[index] := by
  rw [load, List.getElem?_append_left inside, List.getElem?_eq_getElem inside]

theorem strlen_starts (starts : Starts buffer text) (noNul : 0 ∉ text) (before : index ≤ text.length)
    (enough : text.length < index + turns) : strlen buffer turns index = some text.length := by
  obtain ⟨rest, rfl⟩ := starts
  induction turns generalizing index with
  | zero => omega
  | succ turns ih =>
    rw [strlen]
    by_cases inside : index < text.length
    · have content : text[index] ≠ 0 := by
        intro null
        exact noNul (null ▸ List.getElem_mem inside)
      rw [load_front inside, Option.bind_some, if_neg content]
      exact ih inside (by omega)
    · obtain rfl : index = text.length := by omega
      have null : load (text ++ 0 :: rest) text.length = some 0 := by simp [load]
      rw [null, Option.bind_some, if_pos rfl]

/-- The loop gives the last byte that is no newline character; where there is none it reads
    at the largest `size_t`. -/
theorem trim_starts (starts : Starts buffer text) (small : buffer.length ≤ sizeMax) (bound : length ≤ text.length)
    (enough : length < turns) : trim buffer turns (decrement length) = (newlineTrim text length).map (fun n => n - 1) := by
  obtain ⟨rest, same⟩ := starts
  induction length generalizing turns with
  | zero =>
    obtain ⟨turns, rfl⟩ := Nat.exists_eq_succ_of_ne_zero (Nat.ne_of_gt enough)
    have outside : load buffer (decrement 0) = none := by
      rw [load, decrement, if_pos rfl]
      exact List.getElem?_eq_none small
    rw [trim, outside]
    rfl
  | succ n ih =>
    obtain ⟨turns, rfl⟩ := Nat.exists_eq_succ_of_ne_zero (Nat.ne_of_gt (Nat.lt_of_le_of_lt (Nat.zero_le _) enough))
    have inside : load buffer n = some text[n] := by
      rw [same]
      exact load_front bound
    have here : text.getD n 0 = text[n] := by simp [List.getD_eq_getElem?_getD, List.getElem?_eq_getElem bound]
    rw [trim, newlineTrim, here, decrement, if_neg (Nat.succ_ne_zero n), Nat.succ_sub_one, inside, Option.bind_some]
    by_cases newline : isNewline text[n] = true
    · rw [if_pos newline, if_pos newline]
      exact ih (Nat.le_of_lt bound) (Nat.lt_of_succ_lt_succ enough)
    · rw [if_neg newline, if_neg newline]
      rfl

theorem starts_cut (starts : Starts buffer text) (inside : length ≤ text.length) :
    Starts (buffer.set length 0) (text.take length) := by
  obtain ⟨rest, rfl⟩ := starts
  refine ⟨(text ++ 0 :: rest).drop (length + 1), ?_⟩
  rw [List.set_eq_take_append_cons_drop, if_pos (by simp; omega), List.take_append_of_le_length inside]

/-- The reader byte by byte and the reader of `File` have the same outcome, and each has
    one when the other has. -/
theorem readLine_refines (file : FILE) (errno : Int32) (room : 1 < buffer.length) (small : buffer.length ≤ sizeMax) :
    (readLine file buffer errno).map (fun (err, buffer, after) => (err, cString buffer, after)) =
      (fileReadLine file buffer buffer.length errno).map (fun (err, text, after) => (err, cString text, after)) := by
  obtain ⟨buffer', text, got, after, ran, scanned, same⟩ := @readPast_same buffer buffer file _ room rfl (Nat.lt_succ_self _)
  cases got with
  | false => simp [readLine, ran, fileReadLine, scanned, same.string]
  | true =>
    have starts := starts_cString (same.line rfl)
    have noNul := noNul_cString text
    have fits : (cString text).length < buffer'.length := by
      obtain ⟨rest, shape⟩ := starts
      rw [shape]
      simp
    have size : buffer'.length = buffer.length := same.length
    have measured := strlen_starts starts noNul (Nat.zero_le _) (by omega : (cString text).length < 0 + buffer'.length)
    have trimmed := trim_starts starts (size ▸ small) (Nat.le_refl _) (by omega : (cString text).length < buffer'.length + 1)
    rw [fileReadLine, scanned]
    simp only [readLine, ran, measured, trimmed, Option.bind_eq_bind, Option.bind_some, if_true]
    cases cut : newlineTrim (cString text) (cString text).length with
    | none => rfl
    | some length =>
      obtain ⟨positive, bound⟩ := newlineTrim_le cut
      have stored : save buffer' (length - 1 + 1) 0 = some (buffer'.set length 0) := by
        rw [Nat.sub_add_cancel positive, save, if_pos (by omega)]
      have kept : cString (buffer'.set length 0) = (cString text).take length := by
        rw [starts_string (starts_cut starts bound)]
        exact cString_of_noNul (fun null => noNul (List.mem_of_mem_take null))
      have again : cString ((cString text).take length) = (cString text).take length :=
        cString_of_noNul (fun null => noNul (List.mem_of_mem_take null))
      simp [stored, kept, again]

/-- The reader accesses nothing outside of its buffer exactly when the line that its loop
    stops at, if it gets one, has a byte before its first NUL that is no newline character. -/
theorem stays_inside_iff (file : FILE) (buffer : Text) (errno : Int32) (room : 2 ≤ buffer.length)
    (int : buffer.length ≤ 2147483647) :
    (readLine file buffer errno).isSome = true ↔
      ∀ line after, readPastComments buffer.length file buffer = (true, line, after) → ∃ c ∈ cString line, isNewline c = false := by
  have small : buffer.length ≤ sizeMax := Nat.le_trans int (by decide)
  have refines := congrArg Option.isSome (readLine_refines file errno room small)
  rw [Option.isSome_map, Option.isSome_map] at refines
  rw [refines]
  rcases scanned : readPastComments buffer.length file buffer with ⟨_ | _, line, after⟩
  · simp [fileReadLine, scanned]
  · rw [fileReadLine_line errno scanned]
    have blank : chomp (cString line) = [] ↔ ∀ c ∈ cString line, isNewline c = true := by
      rw [chomp, List.rdropWhile_eq_nil_iff]
    by_cases empty : chomp (cString line) = []
    · simpa [empty] using blank.mp empty
    · simpa [empty] using blank.not.mp empty

theorem stays_inside_iff_line : ∃ file buffer, 2 ≤ buffer.length ∧ buffer.length ≤ 2147483647 ∧
    ((readLine file buffer 0).isSome = true ↔
      ∀ line after, readPastComments buffer.length file buffer = (true, line, after) → ∃ c ∈ cString line, isNewline c = false) :=
  ⟨⟨lit "a\n", false⟩, List.replicate 8 7, by decide, by decide,
    stays_inside_iff ⟨lit "a\n", false⟩ (List.replicate 8 7) 0 (by decide) (by decide)⟩

/-- An empty line, a line that begins with a NUL byte and a last line of a carriage return
    make it read in front of the buffer. -/
theorem leaves_buffer : readLine ⟨[LF], false⟩ (List.replicate 8 7) 0 = none ∧
    readLine ⟨[0, 65, LF], false⟩ (List.replicate 8 7) 0 = none ∧ readLine ⟨[CR], false⟩ (List.replicate 8 7) 0 = none := by
  decide

end
end VoxiUtil.FileBuffer
