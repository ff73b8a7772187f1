import Mathlib.Data.List.DropRight
import VoxiUtil.Stdio

/-!
The line reader of `file.c`.
-/
namespace VoxiUtil.File
open VoxiUtil.CString VoxiUtil.Stdio

def CR : UInt8 := 13

def isNewline (c : UInt8) : Bool := c == LF || c == CR

/-- A line that is a comment, by its first byte. -/
def isComment (line : Text) : Bool := line.head? == some (byte '#')

/-- The loop that reads past comments: whether the last `fgets` gave a line, and
    the buffer and the stream after it. A comment at the end of the stream stops it. -/
def readPastComments (bufSize : Nat) (file : FILE) (buffer : Text) : Bool × Text × FILE :=
  match _read : fgets bufSize file with
  | (none, behind) => (false, buffer, behind)
  | (some line, behind) =>
    if _again : (!feof behind && isComment line) = true then readPastComments bufSize behind line
    else (true, line, behind)
termination_by file.rest.length
decreasing_by
  refine fgets_shorter _read ?_
  rintro rfl
  simp [isComment] at _again

theorem readPastComments_eq (bufSize : Nat) (file : FILE) (buffer : Text) :
    readPastComments bufSize file buffer =
      match fgets bufSize file with
      | (none, behind) => (false, buffer, behind)
      | (some line, behind) =>
        if (!feof behind && isComment line) = true then readPastComments bufSize behind line else (true, line, behind) := by
  rw [readPastComments]
  split <;> rename_i read <;> simp [read]

/-- A blank line is no comment, so a line that is none is read there at the latest. -/
theorem readPastComments_stops {bufSize : Nat} (room : 1 < bufSize) {text : Text}
    (ended : text = [] ∨ ∃ front, text = front ++ [LF]) (more buffer : Text) :
    ∃ line rest, readPastComments bufSize ⟨text ++ LF :: more, false⟩ buffer = (true, line, ⟨rest, false⟩) ∧
      isComment line = false := by
  obtain ⟨n, rfl⟩ : ∃ n, bufSize = n + 2 := ⟨bufSize - 2, by omega⟩
  induction bytes : text.length using Nat.strong_induction_on generalizing text buffer with
  | _ length ih =>
    subst bytes
    rcases ended with rfl | ⟨front, rfl⟩
    · refine ⟨[LF], more, ?_, rfl⟩
      rw [readPastComments_eq]
      rfl
    · obtain ⟨body, newline, rest, taken, _⟩ := takeLine_sent (n + 1) front
      have joined : body ++ newline ++ rest = front ++ [LF] := by
        rw [← takeLine_joined (n + 1) (front ++ [LF]), taken]
      have got : fgets (n + 2) ⟨front ++ [LF] ++ LF :: more, false⟩ =
          (some (body ++ newline), ⟨rest ++ LF :: more, false⟩) := by
        simp only [fgets, show n + 2 - 1 = n + 1 from rfl, takeLine_append taken (LF :: more), Bool.false_and,
          Bool.false_eq_true, if_false, Bool.or_false]
      rw [readPastComments_eq, got]
      by_cases comment : isComment (body ++ newline) = true
      · have shorter : rest.length < (front ++ [LF]).length := by
          have nonempty : body ++ newline ≠ [] := by
            intro empty
            rw [empty] at comment
            cases comment
          have longer := List.length_pos_of_ne_nil nonempty
          rw [← joined, List.length_append]
          omega
        have later : rest = [] ∨ ∃ front, rest = front ++ [LF] := by
          rcases rest.eq_nil_or_concat with empty | ⟨before, last, rfl⟩
          · exact .inl empty
          · rw [List.concat_eq_append, ← List.append_assoc] at joined
            obtain ⟨_, same⟩ := List.append_inj' joined rfl
            exact .inr ⟨before, by rw [List.concat_eq_append, same]⟩
        simp only [feof, comment, Bool.not_false, Bool.and_self, if_true]
        exact ih _ shorter later (body ++ newline) rfl
      · rw [Bool.not_eq_true] at comment
        simp only [feof, comment, Bool.not_false, Bool.and_false, Bool.false_eq_true, if_false]
        exact ⟨_, _, rfl, comment⟩

theorem readPastComments_progress {bufSize : Nat} {file behind : FILE} {buffer line : Text} {got : Bool}
    (room : 1 < bufSize) (read : readPastComments bufSize file buffer = (got, line, behind))
    (more : feof behind = false) : behind.rest.length < file.rest.length := by
  induction bytes : file.rest.length using Nat.strong_induction_on generalizing file buffer with
  | _ n ih =>
    subst bytes
    rw [readPastComments_eq] at read
    rcases first : fgets bufSize file with ⟨_ | comment, after⟩
    · rw [first] at read
      cases read
      exact fgets_progress room first more
    · rw [first] at read
      simp only at read
      split at read
      · rename_i again
        simp only [Bool.and_eq_true, Bool.not_eq_true'] at again
        have shorter := fgets_progress room first again.1
        exact Nat.lt_trans (ih _ shorter read rfl) shorter
      · cases read
        exact fgets_progress room first more

/-- The length that is left when newline characters are taken off, from the
    byte before index `n` down. There is no byte before the first one. -/
def newlineTrim (buffer : Text) : Nat → Option Nat
  | 0 => none
  | n + 1 => if isNewline (buffer.getD n 0) then newlineTrim buffer n else some (n + 1)

/-- The result and the buffer and the stream after the call; none when the
    buffer is read in front of its first byte. `errno` is the value it has at
    the end of the stream. -/
def fileReadLine (file : FILE) (buffer : Text) (bufSize : Nat) (errno : Int32) : Option (Int32 × Text × FILE) :=
  match readPastComments bufSize file buffer with
  | (false, buffer, file) => some (errno, buffer, file)
  | (true, line, file) =>
    (newlineTrim (cString line) (cString line).length).map fun length => (0, (cString line).take length, file)

theorem fileReadLine_progress {file behind : FILE} {buffer line : Text} {bufSize : Nat} {errno err : Int32}
    (room : 1 < bufSize) (read : fileReadLine file buffer bufSize errno = some (err, line, behind))
    (more : feof behind = false) : behind.rest.length < file.rest.length := by
  rcases scanned : readPastComments bufSize file buffer with ⟨_ | _, last, after⟩
  · rw [fileReadLine, scanned] at read
    cases read
    exact readPastComments_progress room scanned more
  · rw [fileReadLine, scanned] at read
    obtain ⟨length, _, same⟩ := Option.map_eq_some_iff.mp read
    cases same
    exact readPastComments_progress room scanned more

/-- The value of a hexadecimal digit. -/
def hexDigitValue (c : UInt8) : Option Nat :=
  if 48 ≤ c ∧ c ≤ 57 then some (c.toNat - 48)
  else if 97 ≤ c ∧ c ≤ 102 then some (c.toNat - 87)
  else if 65 ≤ c ∧ c ≤ 70 then some (c.toNat - 55)
  else none

/-- `strtoul` to the base 16: white space, a sign and `0x` may come before the digits. -/
def strtoulHex (string : Text) : Nat :=
  let token := string.dropWhile isSpace
  let (negative, unsigned) := match token with
    | 45 :: rest => (true, rest)
    | 43 :: rest => (false, rest)
    | rest => (false, rest)
  let digits := match unsigned with
    | 48 :: 120 :: rest | 48 :: 88 :: rest => rest
    | rest => rest
  let value := (digits.map hexDigitValue).takeWhile Option.isSome |>.foldl (fun value digit => 16 * value + digit.getD 0) 0
  if 18446744073709551615 < value then 18446744073709551615
  else if negative && value != 0 then 18446744073709551616 - value
  else value

/-- `file_readHexAsBinary`, with the bytes it stores; none when an assertion fails. -/
def fileReadHexAsBinary : Nat → FILE → Option (Text × FILE)
  | 0, file => some ([], file)
  | byteCount + 1, file =>
    match file.rest with
    | high :: low :: rest =>
      let byteValue := strtoulHex (cString [high, low])
      if byteValue < 256 then
        (fileReadHexAsBinary byteCount { file with rest }).map fun (bytes, file) => (byteValue.toUInt8 :: bytes, file)
      else none
    | _ => none

/-- A line without the newline characters at its end. -/
def chomp (line : Text) : Text := line.rdropWhile isNewline

theorem newlineTrim_le {buffer : Text} {n length : Nat} (trimmed : newlineTrim buffer n = some length) :
    0 < length ∧ length ≤ n := by
  induction n with
  | zero => cases trimmed
  | succ n ih =>
    rw [newlineTrim] at trimmed
    split at trimmed
    · exact ⟨(ih trimmed).1, Nat.le_succ_of_le (ih trimmed).2⟩
    · cases trimmed
      exact ⟨Nat.succ_pos n, Nat.le_refl _⟩

private theorem newlineTrim_front {front : Text} {c : UInt8} {n : Nat} (bound : n ≤ front.length) :
    newlineTrim (front ++ [c]) n = newlineTrim front n := by
  induction n with
  | zero => rfl
  | succ n ih =>
    have same : (front ++ [c]).getD n 0 = front.getD n 0 := by
      simp [List.getD_eq_getElem?_getD, List.getElem?_append_left (show n < front.length by omega)]
    rw [newlineTrim, newlineTrim, same, ih (by omega)]

/-- The loop takes the newline characters off, when there is another byte. -/
theorem newlineTrim_chomp (buffer : Text) :
    (newlineTrim buffer buffer.length).map buffer.take = if chomp buffer = [] then none else some (chomp buffer) := by
  induction buffer using List.reverseRecOn with
  | nil => rfl
  | append_singleton front c ih =>
    have last : (front ++ [c]).getD front.length 0 = c := by simp
    rw [List.length_append, List.length_singleton, newlineTrim, last, chomp, List.rdropWhile_concat]
    split
    · rw [newlineTrim_front (Nat.le_refl _), ← chomp, ← ih]
      refine Option.map_congr fun length trimmed => ?_
      exact List.take_append_of_le_length (newlineTrim_le trimmed).2
    · rw [if_neg (by simp), Option.map_some, List.take_of_length_le (by simp)]

/-- What the reader makes of the line that its loop stopped at. -/
theorem fileReadLine_line {file behind : FILE} {buffer line : Text} {bufSize : Nat} (errno : Int32)
    (read : readPastComments bufSize file buffer = (true, line, behind)) :
    fileReadLine file buffer bufSize errno =
      if chomp (cString line) = [] then none else some (0, chomp (cString line), behind) := by
  have trimmed : (newlineTrim (cString line) (cString line).length).map
      (fun length => ((0 : Int32), (cString line).take length, behind)) =
      ((newlineTrim (cString line) (cString line).length).map (cString line).take).map (fun text => (0, text, behind)) := by
    rw [Option.map_map]; rfl
  rw [fileReadLine, read]
  simp only [trimmed, newlineTrim_chomp]
  split <;> rfl

theorem chomp_length (line : Text) : (chomp line).length ≤ line.length :=
  (List.rdropWhile_prefix isNewline (l := line)).length_le

theorem chomp_newline (line : Text) : chomp (line ++ [LF]) = chomp line := by
  simp [chomp, isNewline]

/-- The newline characters end behind the last byte that is none. -/
theorem chomp_append (front : Text) {c : UInt8} (solid : isNewline c = false) (line : Text) :
    chomp (front ++ c :: line) = front ++ c :: chomp line := by
  induction line using List.reverseRecOn with
  | nil => simp [chomp, solid]
  | append_singleton line last ih =>
    have shape : front ++ c :: (line ++ [last]) = (front ++ c :: line) ++ [last] := by simp
    rw [shape, chomp, List.rdropWhile_concat, chomp, List.rdropWhile_concat]
    split
    · exact ih
    · exact shape.symm

theorem chomp_self {text : Text} (oneLine : LF ∉ text) (ending : text.getLast? ≠ some CR) : chomp text = text := by
  rw [chomp, List.rdropWhile_eq_self_iff]
  intro nonempty
  have last := List.getLast?_eq_some_getLast nonempty
  have inside := List.getLast_mem nonempty
  simp only [isNewline, Bool.or_eq_true, beq_iff_eq, not_or]
  constructor
  · intro newline; rw [newline] at inside; exact oneLine inside
  · intro ret; rw [ret] at last; exact ending last

/-- A line that fits the buffer and has nothing to skip or to cut off is read as it is. -/
theorem fileReadLine_body {bufSize : Nat} {body : Text} (clean : LF ∉ body ∧ 0 ∉ body) (ending : body.getLast? ≠ some CR)
    (plain : body ≠ [] ∧ isComment body = false) (room : body.length + 1 < bufSize) (rest stale : Text) (errno : Int32) :
    fileReadLine ⟨body ++ LF :: rest, false⟩ stale bufSize errno = some (0, body, ⟨rest, false⟩) := by
  have start : isComment (body ++ [LF]) = false := by
    obtain ⟨c, more, rfl⟩ := List.exists_cons_of_ne_nil plain.1
    exact plain.2
  have read : readPastComments bufSize ⟨body ++ LF :: rest, false⟩ stale = (true, body ++ [LF], ⟨rest, false⟩) := by
    rw [readPastComments_eq, fgets_line clean.1 room]
    simp [start]
  have whole : cString (body ++ [LF]) = body ++ [LF] := cString_of_noNul (by simp [clean.2, LF])
  rw [fileReadLine_line errno read, whole, chomp_newline, chomp_self clean.1 ending, if_neg plain.1]

end VoxiUtil.File
