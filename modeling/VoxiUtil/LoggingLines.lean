import VoxiUtil.FileBuffer
import VoxiUtil.LoggingEntries
import VoxiUtil.Threading

/-!
The buffer in which `logging.c` builds a line, byte by byte. The index of the message is what
the time stamp and the header would take, and can be behind the end of the buffer.
-/
namespace VoxiUtil.LoggingLines
open VoxiUtil.CString VoxiUtil.Err VoxiUtil.FileBuffer VoxiUtil.Logging VoxiUtil.LoggingEntries
open VoxiUtil.Runs (assert assert_true assert_false)
open VoxiUtil.Limits (intMax)

/-- The buffer, and where formatting functions began to write with what sizes. -/
structure Formatted where
  buffer : Text
  passed : List (Nat × Nat)

/-- `strftime` into the whole buffer. What it leaves there when it returns 0 is not looked at. -/
def strftime (f : Formatted) (stamp : Text) : Option (Int × Formatted) :=
  let passed := f.passed ++ [(0, f.buffer.length)]
  if stamp.length < f.buffer.length then
    (saveAll f.buffer 0 (stamp ++ [0])).map fun buffer => ((stamp.length : Int), ⟨buffer, passed⟩)
  else some (0, ⟨f.buffer, passed⟩)

/-- As much of the text as the size allows, and a NUL. -/
def printed (size : Nat) (text : Text) : Text := if size = 0 then [] else text.take (size - 1) ++ [0]

/-- What `snprintf` returns: the length of the text, or a negative number when an `int` does not hold it. -/
def printedLength (text : Text) : Int := if text.length ≤ intMax then text.length else -1

/-- `snprintf` or `vsnprintf` of this text at the index. -/
def snprintf (f : Formatted) (index size : Nat) (text : Text) : Option (Int × Formatted) :=
  (saveAll f.buffer index (printed size text)).map fun buffer => (printedLength text, ⟨buffer, f.passed ++ [(index, size)]⟩)

/-- `buffer_length - index`, as a `size_t`. -/
def remaining (bufferLength : Nat) (index : Int) : Nat := ((bufferLength - index) % 18446744073709551616).toNat

/-- `fileLogBuildLine` with this buffer. An `int` beyond its range has no outcome. -/
def buildLine (buffer : Text) (l : Logger) (call : Call) : Option (Option Error × Formatted) := do
  let (index, f) ← strftime ⟨buffer, []⟩ call.now.stamp
  if index ≤ 0 then some (some (errNew .logging 0 none (lit "strftime failed.")), f)
  else
    let (tempInt, f) ← snprintf f index.toNat (remaining buffer.length index) (lineHeader l call)
    if 0 ≤ tempInt then
      assert (index + tempInt ≤ intMax)
      let index := index + tempInt
      let (_, f) ← snprintf f index.toNat (remaining buffer.length index) call.message
      let buffer ← save f.buffer (buffer.length - 1) 0
      some (none, { f with buffer := buffer })
    else some (none, f)

/-- Every size is at most the room behind its index, every byte is written into the buffer, and a line that is
    built ends in it. -/
def StaysInside (buffer : Text) (l : Logger) (call : Call) : Prop :=
  ∃ error f, buildLine buffer l call = some (error, f) ∧ f.buffer.length = buffer.length ∧
    (∀ index size, (index, size) ∈ f.passed → index + size ≤ buffer.length) ∧ (error = none → (0 : UInt8) ∈ f.buffer)

/-- `strftime` refuses the time stamp. -/
def Refused (buffer : Text) (call : Call) : Prop := call.now.stamp.length = 0 ∨ buffer.length ≤ call.now.stamp.length

section
variable {buffer bytes text : Text} {l : Logger} {call : Call} {f : Formatted} {index size : Nat}

/-! ### Formatting -/

theorem saveAll_outside (outside : buffer.length ≤ index) (some : bytes ≠ []) : saveAll buffer index bytes = none := by
  cases bytes with
  | nil => exact absurd rfl some
  | cons c rest =>
    rw [saveAll, save, if_neg (Nat.not_lt.mpr outside), Option.bind_none]

theorem remaining_inside (inside : index ≤ buffer.length) (small : buffer.length ≤ intMax) :
    remaining buffer.length index = buffer.length - index := by
  rw [intMax] at small
  rw [remaining, Int.emod_eq_of_lt (by omega) (by omega)]
  omega

/-- Behind the end of the buffer the room is almost the whole memory. -/
theorem remaining_outside (outside : buffer.length < index) (small : index ≤ intMax) : remaining buffer.length index ≠ 0 := by
  rw [intMax] at small
  rw [remaining]
  omega

theorem printed_length (size : Nat) (text : Text) : (printed size text).length ≤ size := by
  unfold printed
  split
  · exact Nat.zero_le size
  · rw [List.length_append, List.length_take, List.length_singleton]
    omega

/-- The buffer behind a write into it. -/
def overwritten (buffer : Text) (index : Nat) (bytes : Text) : Text := buffer.take index ++ bytes ++ buffer.drop (index + bytes.length)

theorem overwritten_length (fits : index + bytes.length ≤ buffer.length) : (overwritten buffer index bytes).length = buffer.length := by
  rw [overwritten, List.length_append, List.length_append, List.length_take, List.length_drop]
  omega

theorem snprintf_inside (text : Text) (room : index + size ≤ f.buffer.length) : snprintf f index size text =
    some (printedLength text, ⟨overwritten f.buffer index (printed size text), f.passed ++ [(index, size)]⟩) := by
  have short := printed_length size text
  rw [snprintf, saveAll_inside (by omega), Option.map_some, overwritten]

theorem snprintf_outside (text : Text) (outside : f.buffer.length ≤ index) (some : size ≠ 0) : snprintf f index size text = none := by
  have more : printed size text ≠ [] := by
    rw [printed, if_neg some]
    simp
  rw [snprintf, saveAll_outside outside more, Option.map_none]

theorem strftime_refuses (refused : Refused buffer call) :
    ∃ f, strftime ⟨buffer, []⟩ call.now.stamp = some (0, f) ∧ f.buffer.length = buffer.length ∧ f.passed = [(0, buffer.length)] := by
  unfold strftime
  rcases refused with empty | long
  · have none : call.now.stamp = [] := List.length_eq_zero_iff.mp empty
    by_cases room : call.now.stamp.length < buffer.length
    · have fits : 0 + (call.now.stamp ++ [0]).length ≤ buffer.length := by
        rw [List.length_append, List.length_singleton]
        omega
      rw [if_pos room, saveAll_inside fits]
      exact ⟨_, by rw [empty]; rfl, overwritten_length fits, rfl⟩
    · rw [if_neg room]
      exact ⟨_, rfl, rfl, rfl⟩
  · rw [if_neg (Nat.not_lt.mpr long)]
    exact ⟨_, rfl, rfl, rfl⟩

theorem strftime_stamps (room : call.now.stamp.length < buffer.length) : strftime ⟨buffer, []⟩ call.now.stamp =
    some ((call.now.stamp.length : Int), ⟨overwritten buffer 0 (call.now.stamp ++ [0]), [(0, buffer.length)]⟩) := by
  have fits : 0 + (call.now.stamp ++ [0]).length ≤ buffer.length := by
    rw [List.length_append, List.length_singleton]
    omega
  simp only [strftime, if_pos room, saveAll_inside fits, Option.map_some, overwritten, List.nil_append]

/-! ### Lines -/

/-- The buffer when the header was printed into it. -/
def headed (buffer : Text) (l : Logger) (call : Call) : Formatted :=
  ⟨overwritten (overwritten buffer 0 (call.now.stamp ++ [0])) call.now.stamp.length
      (printed (buffer.length - call.now.stamp.length) (lineHeader l call)),
    [(0, buffer.length), (call.now.stamp.length, buffer.length - call.now.stamp.length)]⟩

theorem headed_length (room : call.now.stamp.length < buffer.length) : (headed buffer l call).buffer.length = buffer.length := by
  have fits : 0 + (call.now.stamp ++ [0]).length ≤ buffer.length := by
    rw [List.length_append, List.length_singleton]
    omega
  have first := overwritten_length fits
  have short := printed_length (buffer.length - call.now.stamp.length) (lineHeader l call)
  exact (overwritten_length (by rw [first]; omega)).trans first

/-- What is left of the function when the time stamp and the header have been printed. -/
theorem buildLine_headed (small : buffer.length ≤ intMax) (accepted : ¬ Refused buffer call) :
    buildLine buffer l call = (if 0 ≤ printedLength (lineHeader l call) then do
      assert (call.now.stamp.length + printedLength (lineHeader l call) ≤ intMax)
      let index := call.now.stamp.length + printedLength (lineHeader l call)
      let (_, f) ← snprintf (headed buffer l call) index.toNat (remaining buffer.length index) call.message
      let buffer ← save f.buffer (buffer.length - 1) 0
      some (none, { f with buffer := buffer })
    else some (none, headed buffer l call)) := by
  obtain ⟨stamped, room⟩ := not_or.mp accepted
  rw [Nat.not_le] at room
  have fits : 0 + (call.now.stamp ++ [0]).length ≤ buffer.length := by
    rw [List.length_append, List.length_singleton]
    omega
  have positive : ¬ ((call.now.stamp.length : Int) ≤ 0) := by omega
  have rest := remaining_inside (Nat.le_of_lt room) small
  have first := overwritten_length fits
  have second := @snprintf_inside ⟨overwritten buffer 0 (call.now.stamp ++ [0]), [(0, buffer.length)]⟩ call.now.stamp.length
    (buffer.length - call.now.stamp.length) (lineHeader l call) (by simp only [first]; omega)
  simp only [buildLine, strftime_stamps room, Option.bind_eq_bind, Option.bind_some, if_neg positive, Int.toNat_natCast, rest, second]
  rfl

/-- The sizes of the time stamp and of the header. -/
theorem headed_passed (room : call.now.stamp.length < buffer.length) {index size : Nat}
    (member : (index, size) ∈ (headed buffer l call).passed) : index + size ≤ buffer.length := by
  simp only [headed, List.mem_cons, Prod.mk.injEq, List.not_mem_nil, or_false] at member
  omega

/-- A header that an `int` does not count ends in the buffer. -/
theorem headed_terminated (room : call.now.stamp.length < buffer.length) : (0 : UInt8) ∈ (headed buffer l call).buffer := by
  have some : buffer.length - call.now.stamp.length ≠ 0 := by omega
  simp [headed, overwritten, printed, some]

theorem refused_stays (refused : Refused buffer call) : StaysInside buffer l call := by
  obtain ⟨f, done, length, passed⟩ := strftime_refuses refused
  refine ⟨some (errNew .logging 0 none (lit "strftime failed.")), f, ?_, length, ?_, by simp⟩
  · simp only [buildLine, done, Option.bind_eq_bind, Option.bind_some, Int.le_refl, if_true]
  · intro index size member
    rw [passed] at member
    cases List.mem_singleton.mp member
    omega

/-- The message behind the time stamp and the header. -/
def finished (buffer : Text) (l : Logger) (call : Call) : Formatted :=
  let index := call.now.stamp.length + (lineHeader l call).length
  ⟨(overwritten (headed buffer l call).buffer index (printed (buffer.length - index) call.message)).set (buffer.length - 1) 0,
    (headed buffer l call).passed ++ [(index, buffer.length - index)]⟩

theorem message_length (room : call.now.stamp.length < buffer.length)
    (fits : call.now.stamp.length + (lineHeader l call).length ≤ buffer.length) :
    (overwritten (headed buffer l call).buffer (call.now.stamp.length + (lineHeader l call).length)
      (printed (buffer.length - (call.now.stamp.length + (lineHeader l call).length)) call.message)).length = buffer.length := by
  have short := printed_length (buffer.length - (call.now.stamp.length + (lineHeader l call).length)) call.message
  have length := headed_length (l := l) room
  exact (overwritten_length (by omega)).trans length

theorem buildLine_fits (small : buffer.length ≤ intMax) (accepted : ¬ Refused buffer call)
    (fits : call.now.stamp.length + (lineHeader l call).length ≤ buffer.length) :
    buildLine buffer l call = some (none, finished buffer l call) := by
  have room : call.now.stamp.length < buffer.length := Nat.not_le.mp (not_or.mp accepted).2
  have counted : printedLength (lineHeader l call) = (lineHeader l call).length := if_pos (by omega)
  have positive : (0 : Int) ≤ (lineHeader l call).length := Int.natCast_nonneg _
  have together : ((call.now.stamp.length + (lineHeader l call).length : Nat) : Int) ≤ intMax := by omega
  have behind := @snprintf_inside (headed buffer l call) (call.now.stamp.length + (lineHeader l call).length)
    (buffer.length - (call.now.stamp.length + (lineHeader l call).length)) call.message (by rw [headed_length room]; omega)
  have inside : buffer.length - 1 < (overwritten (headed buffer l call).buffer (call.now.stamp.length + (lineHeader l call).length)
      (printed (buffer.length - (call.now.stamp.length + (lineHeader l call).length)) call.message)).length := by
    rw [message_length room fits]
    omega
  simp only [buildLine_headed small accepted, counted, if_pos positive, ← Int.natCast_add, assert_true together, Int.toNat_natCast,
    remaining_inside fits small, behind, save, if_pos inside, Option.bind_eq_bind, Option.bind_some, finished]

/-- A header that fits, or one that an `int` does not count. -/
theorem fits_stays (small : buffer.length ≤ intMax) (accepted : ¬ Refused buffer call)
    (fits : call.now.stamp.length + (lineHeader l call).length ≤ buffer.length ∨ intMax < (lineHeader l call).length) :
    StaysInside buffer l call := by
  have room : call.now.stamp.length < buffer.length := Nat.not_le.mp (not_or.mp accepted).2
  by_cases counted : (lineHeader l call).length ≤ intMax
  · have inside : call.now.stamp.length + (lineHeader l call).length ≤ buffer.length := by omega
    have length := message_length (l := l) room inside
    refine ⟨none, _, buildLine_fits small accepted inside, by rw [finished, List.length_set, length], fun index size member => ?_, fun _ => ?_⟩
    · rcases List.mem_append.mp member with before | last
      · exact headed_passed room before
      · cases List.mem_singleton.mp last
        omega
    · exact List.mem_set (by rw [length]; omega) 0
  · have negative : ¬ (0 : Int) ≤ printedLength (lineHeader l call) := by
      rw [printedLength, if_neg counted]
      decide
    refine ⟨none, headed buffer l call, ?_, headed_length room, fun _ _ => headed_passed room, fun _ => headed_terminated room⟩
    rw [buildLine_headed small accepted, if_neg negative]

/-- A header that takes the index behind the end: the size for the message wraps. -/
theorem long_leaves (small : buffer.length ≤ intMax) (accepted : ¬ Refused buffer call)
    (long : buffer.length < call.now.stamp.length + (lineHeader l call).length) (counted : (lineHeader l call).length ≤ intMax) :
    buildLine buffer l call = none := by
  have room : call.now.stamp.length < buffer.length := Nat.not_le.mp (not_or.mp accepted).2
  have positive : (0 : Int) ≤ (lineHeader l call).length := Int.natCast_nonneg _
  have length : printedLength (lineHeader l call) = (lineHeader l call).length := if_pos counted
  rw [buildLine_headed small accepted, length, if_pos positive, ← Int.natCast_add]
  by_cases together : ((call.now.stamp.length + (lineHeader l call).length : Nat) : Int) ≤ intMax
  · have size := remaining_outside long (Int.ofNat_le.mp together)
    have outside : (headed buffer l call).buffer.length ≤ call.now.stamp.length + (lineHeader l call).length := by
      rw [headed_length room]
      omega
    simp only [assert_true together, Int.toNat_natCast, snprintf_outside call.message outside size, Option.bind_eq_bind,
      Option.bind_some, Option.bind_none]
  · simp only [assert_false together, Option.bind_eq_bind, Option.bind_none]

/-! ### The line -/

/-- Both formats make a header of the same length. -/
theorem lineHeader_length (l : Logger) (call : Call) : (lineHeader l call).length =
    (printMillis call.now.millitm).length + l.applicationName.length + call.moduleName.length + (logLevelName call.logLevel).length +
      (decimal call.thread).length + (sourceName call.sourceFile).length + (printInt call.sourceLine).length + 10 := by
  unfold lineHeader
  cases l.logFormat <;> simp only [List.length_append, List.length_cons, List.length_nil] <;> omega

theorem starts_overwritten (buffer : Text) (index : Nat) (text : Text) :
    Starts (overwritten buffer index (text ++ [0])) (buffer.take index ++ text) :=
  ⟨buffer.drop (index + (text ++ [0]).length), by simp [overwritten]⟩

theorem starts_set {line : Text} (starts : Starts buffer line) (behind : line.length ≤ index) : Starts (buffer.set index 0) line := by
  obtain ⟨rest, rfl⟩ := starts
  rw [List.set_append_right _ _ behind]
  cases place : index - line.length with
  | zero => exact ⟨rest, rfl⟩
  | succ i => exact ⟨rest.set i 0, rfl⟩

/-- The time stamp and as much of the header as there is room for. -/
theorem headed_starts (room : call.now.stamp.length < buffer.length) : Starts (headed buffer l call).buffer
    (call.now.stamp ++ (lineHeader l call).take (buffer.length - call.now.stamp.length - 1)) := by
  have some : buffer.length - call.now.stamp.length ≠ 0 := by omega
  have stamp : (overwritten buffer 0 (call.now.stamp ++ [0])).take call.now.stamp.length = call.now.stamp := by
    simp [overwritten]
  have starts := starts_overwritten (overwritten buffer 0 (call.now.stamp ++ [0])) call.now.stamp.length
    ((lineHeader l call).take (buffer.length - call.now.stamp.length - 1))
  rw [stamp] at starts
  simpa only [headed, printed, if_neg some] using starts

/-- The line in the buffer is the one that the drivers write. -/
theorem finished_line (accepted : ¬ Refused buffer call) (sized : buffer.length = bufferLength)
    (fits : call.now.stamp.length + (lineHeader l call).length ≤ buffer.length) :
    ∃ line, fileLogBuildLine l call = some (.ok line) ∧ Starts (finished buffer l call).buffer line := by
  have room : call.now.stamp.length < buffer.length := Nat.not_le.mp (not_or.mp accepted).2
  have starts := headed_starts (l := l) room
  have together : (call.now.stamp ++ lineHeader l call).length ≤ bufferLength := by
    rw [List.length_append]
    omega
  rw [Refused, sized] at accepted
  refine ⟨(call.now.stamp ++ lineHeader l call ++ call.message).take (buffer.length - 1), ?_, ?_⟩
  · rw [fileLogBuildLine, if_neg accepted, if_pos together, sized]
  · refine starts_set ?_ (by rw [List.length_take]; omega)
    by_cases full : call.now.stamp.length + (lineHeader l call).length = buffer.length
    · -- there is room for no message: the last byte of the header gives way to the NUL
      have cut : (call.now.stamp ++ lineHeader l call ++ call.message).take (buffer.length - 1) =
          call.now.stamp ++ (lineHeader l call).take (buffer.length - call.now.stamp.length - 1) := by
        rw [List.append_assoc, List.take_append, List.take_of_length_le (by omega),
          List.take_append_of_le_length (by omega)]
        congr 2
        omega
      rw [cut]
      simpa [full, printed, overwritten] using starts
    · have whole : (lineHeader l call).take (buffer.length - call.now.stamp.length - 1) = lineHeader l call :=
        List.take_of_length_le (by omega)
      rw [whole] at starts
      have front : (headed buffer l call).buffer.take (call.now.stamp.length + (lineHeader l call).length) =
          call.now.stamp ++ lineHeader l call := by
        obtain ⟨rest, same⟩ := starts
        rw [same, ← List.length_append, List.take_left]
      have more : buffer.length - (call.now.stamp.length + (lineHeader l call).length) ≠ 0 := by omega
      have message := starts_overwritten (headed buffer l call).buffer (call.now.stamp.length + (lineHeader l call).length)
        (call.message.take (buffer.length - (call.now.stamp.length + (lineHeader l call).length) - 1))
      have cut : (call.now.stamp ++ lineHeader l call ++ call.message).take (buffer.length - 1) = call.now.stamp ++ lineHeader l call ++
          call.message.take (buffer.length - (call.now.stamp.length + (lineHeader l call).length) - 1) := by
        rw [List.take_append, List.take_of_length_le (by rw [List.length_append]; omega), List.length_append]
        congr 2
        omega
      rw [cut]
      rw [front] at message
      simpa only [printed, if_neg more] using message

end

/-- For every buffer whose length is an `int`, every logger and every call, a line is built inside of the buffer just
    when the time stamp is refused, the time stamp and the header fit the buffer, or no `int` holds the length of the header. -/
theorem buildLine_inside_iff {buffer : Text} (small : buffer.length ≤ intMax) (l : Logger) (call : Call) :
    StaysInside buffer l call ↔ Refused buffer call ∨
      call.now.stamp.length + (lineHeader l call).length ≤ buffer.length ∨ intMax < (lineHeader l call).length := by
  constructor
  · intro stays
    by_contra neither
    obtain ⟨accepted, neither⟩ := not_or.mp neither
    obtain ⟨long, counted⟩ := not_or.mp neither
    obtain ⟨error, f, done, -⟩ := stays
    rw [long_leaves small accepted (Nat.not_le.mp long) (Nat.not_lt.mp counted)] at done
    cases done
  · rintro (refused | fits)
    · exact refused_stays refused
    · by_cases refused : Refused buffer call
      · exact refused_stays refused
      · exact fits_stays small refused fits

theorem buildLine_inside_iff_notice :
    StaysInside (List.replicate bufferLength 0) (logCreate (lit "app") .file none christmasEve.date) (notice (lit "server.txt")) ↔
      Refused (List.replicate bufferLength 0) (notice (lit "server.txt")) ∨
        (notice (lit "server.txt")).now.stamp.length +
            (lineHeader (logCreate (lit "app") .file none christmasEve.date) (notice (lit "server.txt"))).length ≤
          (List.replicate bufferLength (0 : UInt8)).length ∨
        intMax < (lineHeader (logCreate (lit "app") .file none christmasEve.date) (notice (lit "server.txt"))).length :=
  buildLine_inside_iff (by rw [List.length_replicate]; decide) _ _

/-- The name of the application is as long as the buffer. -/
theorem long_name_leaves : ¬ StaysInside (List.replicate bufferLength 0)
    (logCreate (List.replicate bufferLength 97) .file none christmasEve.date) (notice (lit "server.txt")) := by
  have header : (lineHeader (logCreate (List.replicate bufferLength 97) .file none christmasEve.date) (notice (lit "server.txt"))).length =
      bufferLength + 30 := by
    rw [lineHeader_length]
    have name : (logCreate (List.replicate bufferLength 97) .file none christmasEve.date).applicationName = List.replicate bufferLength 97 :=
      rfl
    rw [name, List.length_replicate]
    decide
  have stamp : (notice (lit "server.txt")).now.stamp.length = 24 := by decide
  have buffer : (List.replicate bufferLength (0 : UInt8)).length = 65536 := List.length_replicate
  rintro ⟨error, f, done, -⟩
  rw [long_leaves (by rw [buffer]; decide) (by rw [Refused, stamp, buffer]; decide) (by rw [header, stamp, buffer]; decide)
    (by rw [header]; decide)] at done
  cases done

end VoxiUtil.LoggingLines
