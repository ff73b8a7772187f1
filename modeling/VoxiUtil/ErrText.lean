import VoxiUtil.Err
import VoxiUtil.FileBuffer
import VoxiUtil.Runs

/-!
The text that `ErrToHumanReadableString` makes of a chain, in a block of the length that
is calculated for it. The block is written with `strcpy` and `strcat`, which know no bound;
a write outside of it has no outcome.
-/
namespace VoxiUtil.ErrText
open VoxiUtil.CString VoxiUtil.Err VoxiUtil.FileBuffer
open VoxiUtil.Runs (assert assert_true)
open VoxiUtil.Limits (sizeMax)

/-- `ERR_BECAUSE_STR`. -/
def errBecauseStr : Text := lit ", because "

def strncpy (buffer : Text) (offset : Nat) (text : Text) (n : Nat) : Option Text :=
  saveAll buffer offset ((cString text).take n ++ List.replicate (n - (cString text).length) 0)

def strcpy (buffer : Text) (offset : Nat) (text : Text) : Option Text := saveAll buffer offset (cString text ++ [0])

/-- Where the string at an offset ends. -/
def stringEnd (buffer : Text) (offset : Nat) : Option Nat := strlen buffer buffer.length offset

def strcat (buffer : Text) (offset : Nat) (text : Text) : Option Text :=
  (stringEnd buffer offset).bind fun last => saveAll buffer last (cString text ++ [0])

/-- A difference of two `size_t`. Their sums are lengths of strings in memory, which are not too long for one. -/
def subtract (a b : Nat) : Nat := if b ≤ a then a - b else a + (sizeMax + 1) - b

/-- The length of the required string, without its NUL. -/
def calculateHumanReadableStringLength : Error → Nat
  | .root head => (cString head.description).length
  | .because head reason =>
    (cString head.description).length + (errBecauseStr.length + calculateHumanReadableStringLength reason)

/-- `writeHumanReadableString` up to its recursive call: the block and the length that was added. -/
def writeDescription (head : Head) (buffer : Text) (string remainingLength : Nat) : Option (Text × Nat) := do
  assert (errBecauseStr.length + (cString head.description).length ≤ remainingLength)
  let buffer ← strcpy buffer string errBecauseStr
  let buffer ← strcat buffer string head.description
  let last ← stringEnd buffer string
  return (buffer, last - string)

/-- `writeHumanReadableString`, with an offset for its pointer. -/
def writeHumanReadableString : Error → Text → Nat → Nat → Option Text
  | .root head, buffer, string, remainingLength => do
    let (buffer, _) ← writeDescription head buffer string remainingLength
    return buffer
  | .because head reason, buffer, string, remainingLength => do
    let (buffer, addedLength) ← writeDescription head buffer string remainingLength
    writeHumanReadableString reason buffer (string + addedLength) (subtract remainingLength addedLength)

/-- The fields of the error itself. -/
def outermost : Error → Head
  | .root head => head
  | .because head _ => head

/-- `ErrToHumanReadableString` where `emalloc` has a block, with `garbage` in it. -/
def errToHumanReadableString (garbage : Nat → UInt8) (error : Error) : Option Text := do
  let stringLength := calculateHumanReadableStringLength error
  let description := (outermost error).description
  let string ← strncpy ((List.range (stringLength + 1)).map garbage) 0 description (stringLength + 1)
  let string ← save string stringLength 0
  match error with
  | .root _ => return string
  | .because _ reason =>
    let descriptionLength := (cString description).length
    writeHumanReadableString reason string descriptionLength (subtract stringLength descriptionLength)

/-- The descriptions with `errBecauseStr` between each two. -/
def humanReadable (error : Error) : Text := errBecauseStr.intercalate ((descriptions error).map cString)

section
variable {head : Head} {error reason : Error} {buffer front rest text : Text} {remaining : Nat}

theorem descriptions_ne_nil (error : Error) : descriptions error ≠ [] := by
  cases error <;> simp [descriptions]

theorem humanReadable_root (head : Head) : humanReadable (.root head) = cString head.description := by
  simp [humanReadable, descriptions, List.intercalate]

theorem humanReadable_because (head : Head) (reason : Error) :
    humanReadable (.because head reason) = cString head.description ++ (errBecauseStr ++ humanReadable reason) := by
  obtain ⟨first, more, same⟩ := List.exists_cons_of_ne_nil (descriptions_ne_nil reason)
  simp [humanReadable, descriptions, same, List.intercalate]

/-- The calculated length is that of the text. -/
theorem calculated_length (error : Error) : calculateHumanReadableStringLength error = (humanReadable error).length := by
  induction error with
  | root head => simp [calculateHumanReadableStringLength, humanReadable_root]
  | because head reason ih => simp [calculateHumanReadableStringLength, humanReadable_because, ih]

theorem noNul_because : 0 ∉ errBecauseStr := by decide

theorem cString_because : cString errBecauseStr = errBecauseStr := cString_of_noNul noNul_because

/-- A write behind what is there. -/
theorem saveAll_behind (room : text.length ≤ rest.length) :
    saveAll (front ++ rest) front.length text = some (front ++ text ++ rest.drop text.length) := by
  have fits : front.length + text.length ≤ (front ++ rest).length := by
    rw [List.length_append]
    omega
  rw [saveAll_inside fits, List.take_left, List.drop_length_add_append]

theorem stringEnd_behind (noNul : 0 ∉ front ++ text) :
    stringEnd (front ++ text ++ 0 :: rest) front.length = some (front ++ text).length := by
  refine strlen_starts ⟨rest, rfl⟩ noNul ?_ ?_
  · simp
  · simp
    omega

theorem strcpy_behind (room : (cString text).length < rest.length) :
    strcpy (front ++ rest) front.length text = some (front ++ cString text ++ 0 :: rest.drop ((cString text).length + 1)) := by
  rw [strcpy, saveAll_behind (by simp; omega)]
  simp

theorem strcat_behind {more : Text} (noNul : 0 ∉ front ++ text) (room : (cString more).length ≤ rest.length) :
    strcat (front ++ text ++ 0 :: rest) front.length more =
      some (front ++ text ++ cString more ++ 0 :: rest.drop (cString more).length) := by
  rw [strcat, stringEnd_behind noNul, Option.bind_some, saveAll_behind (by simp; omega)]
  simp

/-- One description and what stands in front of it, behind a string. -/
theorem writeDescription_behind (noNul : 0 ∉ front)
    (room : errBecauseStr.length + (cString head.description).length < rest.length)
    (enough : errBecauseStr.length + (cString head.description).length ≤ remaining) :
    ∃ more, writeDescription head (front ++ rest) front.length remaining =
        some (front ++ (errBecauseStr ++ cString head.description) ++ 0 :: more,
          errBecauseStr.length + (cString head.description).length) ∧
      more.length + 1 + (errBecauseStr.length + (cString head.description).length) = rest.length := by
  have clean : 0 ∉ front ++ errBecauseStr := by
    rw [List.mem_append, not_or]
    exact ⟨noNul, noNul_because⟩
  have copied : strcpy (front ++ rest) front.length errBecauseStr =
      some (front ++ errBecauseStr ++ 0 :: rest.drop (errBecauseStr.length + 1)) := by
    rw [strcpy_behind (by rw [cString_because]; omega), cString_because]
  have appended := @strcat_behind front (rest.drop (errBecauseStr.length + 1)) errBecauseStr head.description clean
    (by rw [List.length_drop]; omega)
  rw [List.drop_drop, List.append_assoc front errBecauseStr (cString head.description)] at appended
  have clean' : 0 ∉ front ++ (errBecauseStr ++ cString head.description) := by
    rw [← List.append_assoc, List.mem_append, not_or]
    exact ⟨clean, noNul_cString _⟩
  refine ⟨rest.drop (errBecauseStr.length + 1 + (cString head.description).length), ?_, ?_⟩
  · rw [writeDescription, assert_true enough, copied]
    simp only [Option.bind_eq_bind, Option.bind_some, appended, stringEnd_behind clean']
    simp
  · rw [List.length_drop]
    omega

/-- What is written of a chain fills the rest of the block, where that has the right length. -/
theorem writes_chain (noNul : 0 ∉ front) (room : rest.length = (errBecauseStr ++ humanReadable error).length + 1) :
    writeHumanReadableString error (front ++ rest) front.length (errBecauseStr ++ humanReadable error).length =
      some (front ++ (errBecauseStr ++ humanReadable error) ++ [0]) := by
  induction error generalizing front rest with
  | root head =>
    rw [humanReadable_root, List.length_append] at room ⊢
    obtain ⟨more, written, length⟩ := @writeDescription_behind head front rest _ noNul (by omega) (le_refl _)
    have empty : more = [] := List.length_eq_zero_iff.mp (by omega)
    rw [writeHumanReadableString, written, empty]
    rfl
  | because head reason ih =>
    have text : errBecauseStr ++ humanReadable (.because head reason) =
        errBecauseStr ++ cString head.description ++ (errBecauseStr ++ humanReadable reason) := by
      rw [humanReadable_because, List.append_assoc]
    have added : (errBecauseStr ++ humanReadable (.because head reason)).length =
        errBecauseStr.length + (cString head.description).length + (errBecauseStr ++ humanReadable reason).length := by
      rw [text, List.length_append, List.length_append]
    rw [added] at room ⊢
    obtain ⟨more, written, length⟩ := @writeDescription_behind head front rest
      (errBecauseStr.length + (cString head.description).length + (errBecauseStr ++ humanReadable reason).length)
      noNul (by omega) (by omega)
    have clean : 0 ∉ front ++ (errBecauseStr ++ cString head.description) := by
      simp only [List.mem_append, not_or]
      exact ⟨noNul, noNul_because, noNul_cString _⟩
    have left : subtract
        (errBecauseStr.length + (cString head.description).length + (errBecauseStr ++ humanReadable reason).length)
        (errBecauseStr.length + (cString head.description).length) = (errBecauseStr ++ humanReadable reason).length := by
      rw [subtract, if_pos (Nat.le_add_right _ _), Nat.add_sub_cancel_left]
    have place : front.length + (errBecauseStr.length + (cString head.description).length) =
        (front ++ (errBecauseStr ++ cString head.description)).length := by
      rw [List.length_append, List.length_append]
    have behind := @ih (front ++ (errBecauseStr ++ cString head.description)) (0 :: more) clean
      (by rw [List.length_cons]; omega)
    rw [writeHumanReadableString, written]
    simp only [Option.bind_eq_bind, Option.bind_some, left, place]
    rw [behind, text]
    simp

/-- `strncpy` over a whole block, with a NUL at its end after that. -/
theorem strncpy_whole {last : Nat} (whole : buffer.length = last + 1) (short : (cString text).length ≤ last) :
    ∃ buffer', strncpy buffer 0 text (last + 1) = some buffer' ∧
      save buffer' last 0 = some (cString text ++ List.replicate (last + 1 - (cString text).length) 0) := by
  have bytes : (cString text).take (last + 1) = cString text := List.take_of_length_le (by omega)
  have fits : 0 + (cString text ++ List.replicate (last + 1 - (cString text).length) 0).length ≤ buffer.length := by
    rw [List.length_append, List.length_replicate]
    omega
  have rest : buffer.drop (0 + (cString text ++ List.replicate (last + 1 - (cString text).length) 0).length) = [] := by
    rw [List.drop_eq_nil_iff, List.length_append, List.length_replicate]
    omega
  refine ⟨cString text ++ List.replicate (last + 1 - (cString text).length) 0, ?_, ?_⟩
  · rw [strncpy, bytes, saveAll_inside fits, rest, List.take_zero, List.nil_append, List.append_nil]
  · rw [save, if_pos (by simp; omega), List.set_append_right _ _ short, List.set_replicate_self]

end

/-- For every chain no assertion fails, nothing is written beside the block, and the block holds the descriptions joined. -/
theorem toHumanReadableString_joined (garbage : Nat → UInt8) (error : Error) :
    errToHumanReadableString garbage error = some (humanReadable error ++ [0]) := by
  have whole : ((List.range (calculateHumanReadableStringLength error + 1)).map garbage).length =
      calculateHumanReadableStringLength error + 1 := by
    rw [List.length_map, List.length_range]
  have short : (cString (outermost error).description).length ≤ calculateHumanReadableStringLength error := by
    cases error with
    | root head => exact le_refl _
    | because head reason => exact Nat.le_add_right _ _
  obtain ⟨string, copied, ended⟩ := strncpy_whole whole short
  simp only [errToHumanReadableString, copied, ended, Option.bind_eq_bind, Option.bind_some]
  cases error with
  | root head => simp [calculateHumanReadableStringLength, outermost, humanReadable_root]
  | because head reason =>
    have length : calculateHumanReadableStringLength (.because head reason) =
        (cString head.description).length + (errBecauseStr ++ humanReadable reason).length := by
      rw [calculateHumanReadableStringLength, calculated_length, List.length_append]
    have left : subtract ((cString head.description).length + (errBecauseStr ++ humanReadable reason).length)
        (cString head.description).length = (errBecauseStr ++ humanReadable reason).length := by
      rw [subtract, if_pos (Nat.le_add_right _ _), Nat.add_sub_cancel_left]
    simp only [outermost, length, left]
    rw [writes_chain (noNul_cString _) (by rw [List.length_replicate]; omega), humanReadable_because]

example : humanReadable (.because ⟨.tcpip, 2, lit "No host"⟩ (.root ⟨.errno, 13, lit "Refused"⟩)) =
    lit "No host, because Refused" := by decide

end VoxiUtil.ErrText
