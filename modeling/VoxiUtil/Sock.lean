import VoxiUtil.File

/-!
The thread of `sock.c` that reads the lines of a connection and hands them to
the connection's handler, up to the end of the stream.
-/
namespace VoxiUtil.Sock
open VoxiUtil.CString VoxiUtil.Stdio VoxiUtil.File

/-- The calls of a connection's handler: `SOCK_MESSAGE` with a line, and `SOCK_DISCONNECT`. -/
inductive Event where
  | message (text : Text)
  | disconnect
deriving DecidableEq

def EINTR : Int32 := 4
def EBADF : Int32 := 9
def ESPIPE : Int32 := 29

/-- `_BUFSIZE` of the thread. -/
def bufSize : Nat := 10000

/-- The switch over the result of the reader: the events with those it adds, and `done`. -/
def dispatch (err : Int32) (buffer : Text) (events : List Event) : List Event × Bool :=
  if err = 0 then (events ++ [.message buffer], false)
  else if err = ESPIPE ∨ err = EBADF then (events ++ [.disconnect], true)
  else if err = EINTR then (events, false)
  else if err = -1 then (events ++ [.disconnect], true)
  else (events ++ [.disconnect], true)

/-- The loop of the thread, with the calls of the handler so far. `residue` is what
    the handler leaves in the buffer, which it may change. None when the reader
    leaves the buffer. -/
def connectionLoop (errno : Int32) (residue : List Event → Text) (stream : FILE) (buffer : Text)
    (events : List Event) : Option (List Event) :=
  match _read : fileReadLine stream buffer bufSize errno with
  | none => none
  | some (err, line, behind) =>
    let (called, done) := dispatch err line events
    if done then some called
    else if _ended : feof behind = true then some (called ++ [.disconnect])
    else connectionLoop errno residue behind (if err = 0 then residue called else line) called
termination_by stream.rest.length
decreasing_by exact fileReadLine_progress (by decide) _read (by simpa using _ended)

/-- All calls of the handler for a stream of bytes. `garbage` is in the buffer at
    first and `errno` is the value it has at the end of the stream. -/
def connectionThreadFunc (errno : Int32) (residue : List Event → Text) (garbage stream : Text) : Option (List Event) :=
  connectionLoop errno residue ⟨stream, false⟩ garbage []

theorem connectionLoop_eq (errno : Int32) (residue : List Event → Text) (stream : FILE) (buffer : Text)
    (events : List Event) :
    connectionLoop errno residue stream buffer events =
      match fileReadLine stream buffer bufSize errno with
      | none => none
      | some (err, line, behind) =>
        if (dispatch err line events).2 then some (dispatch err line events).1
        else if feof behind = true then some ((dispatch err line events).1 ++ [.disconnect])
        else connectionLoop errno residue behind
          (if err = 0 then residue (dispatch err line events).1 else line) (dispatch err line events).1 := by
  rw [connectionLoop]
  split <;> rename_i read <;> simp [read]

/-- The lines of a stream: those that a newline ends, and a last one without. -/
def streamLines (bodies : List Text) (tail : Text) : List Text := bodies ++ if tail = [] then [] else [tail]

/-- The calls that the stream asks for. -/
def wanted (bodies : List Text) (tail : Text) : List Event :=
  (((streamLines bodies tail).filter (fun line => !isComment line)).map (fun line => .message (chomp line))) ++ [.disconnect]

/-- No line but a comment is blank, the stream does not end inside a comment, and
    at an end behind a newline `errno` tells it from a line. -/
structure Readable (bodies : List Text) (tail : Text) (errno : Int32) : Prop where
  visible : ∀ line ∈ streamLines bodies tail, isComment line = false → chomp line ≠ []
  closed : tail ≠ [] → isComment tail = false
  noticed : tail = [] → errno ≠ 0

section
variable {errno : Int32} {residue : List Event → Text} {buffer : Text} {events : List Event}

private theorem read_line (buffer rest : Text) {body : Text} (free : LF ∉ body) (short : body.length < 9999) :
    readPastComments bufSize ⟨body ++ LF :: rest, false⟩ buffer =
      if isComment body = true then readPastComments bufSize ⟨rest, false⟩ (body ++ [LF])
      else (true, body ++ [LF], ⟨rest, false⟩) := by
  have first : isComment (body ++ [LF]) = isComment body := by cases body <;> rfl
  have room : body.length + 1 < bufSize := by simp only [bufSize]; omega
  rw [readPastComments_eq, fgets_line free room]
  simp [feof, first]

/-- A comment that a newline ends is skipped. -/
theorem loop_comment {body rest : Text} (free : LF ∉ body) (short : body.length < 9999) (comment : isComment body = true) :
    connectionLoop errno residue ⟨body ++ LF :: rest, false⟩ buffer events =
      connectionLoop errno residue ⟨rest, false⟩ (body ++ [LF]) events := by
  rw [connectionLoop_eq, connectionLoop_eq, fileReadLine, fileReadLine, read_line _ _ free short, if_pos comment]

private theorem string_newline {body : Text} (noNul : 0 ∉ body) : cString (body ++ [LF]) = body ++ [LF] :=
  cString_of_noNul (by simpa using ⟨noNul, by decide⟩)

/-- A line that is neither a comment nor blank is handed to the handler. -/
theorem loop_line {body rest : Text} (free : LF ∉ body) (noNul : 0 ∉ body) (short : body.length < 9999)
    (line : isComment body = false) (visible : chomp body ≠ []) :
    connectionLoop errno residue ⟨body ++ LF :: rest, false⟩ buffer events =
      connectionLoop errno residue ⟨rest, false⟩ (residue (events ++ [.message (chomp body)]))
        (events ++ [.message (chomp body)]) := by
  have read := fileReadLine_line errno
    ((read_line buffer rest free short).trans (if_neg (by simp [line])))
  rw [string_newline noNul, chomp_newline, if_neg visible] at read
  rw [connectionLoop_eq, read]
  simp [dispatch, feof]

/-- A blank line is trimmed beyond its start. -/
theorem loop_blank {body rest : Text} (free : LF ∉ body) (noNul : 0 ∉ body) (short : body.length < 9999)
    (line : isComment body = false) (blank : chomp body = []) :
    connectionLoop errno residue ⟨body ++ LF :: rest, false⟩ buffer events = none := by
  have read := fileReadLine_line errno
    ((read_line buffer rest free short).trans (if_neg (by simp [line])))
  rw [string_newline noNul, chomp_newline, if_pos blank] at read
  rw [connectionLoop_eq, read]

/-- At the end of the stream behind a newline the buffer still has the last line. -/
theorem loop_end : connectionLoop errno residue ⟨[], false⟩ buffer events =
    some (if errno = 0 then events ++ [.message buffer, .disconnect] else events ++ [.disconnect]) := by
  have stop : fgets bufSize ⟨[], false⟩ = (none, ⟨[], true⟩) := fgets_tail (by simp) (by decide)
  have read : fileReadLine ⟨[], false⟩ buffer bufSize errno = some (errno, buffer, ⟨[], true⟩) := by
    rw [fileReadLine, readPastComments_eq, stop]
  rw [connectionLoop_eq, read]
  simp only [dispatch, feof]
  split_ifs <;> simp_all

/-- The bytes behind the last newline are a line, also when they are a comment. -/
theorem loop_tail {tail : Text} (free : LF ∉ tail) (noNul : 0 ∉ tail) (short : tail.length < 9999) (nonempty : tail ≠ []) :
    connectionLoop errno residue ⟨tail, false⟩ buffer events =
      if chomp tail = [] then none else some (events ++ [.message (chomp tail), .disconnect]) := by
  have room : tail.length + 1 < bufSize := by simp only [bufSize]; omega
  have stop : readPastComments bufSize ⟨tail, false⟩ buffer = (true, tail, ⟨[], true⟩) := by
    rw [readPastComments_eq, fgets_tail free room, if_neg nonempty]
    rfl
  have read := fileReadLine_line errno stop
  rw [cString_of_noNul noNul] at read
  rw [connectionLoop_eq, read]
  by_cases blank : chomp tail = [] <;> simp [blank, dispatch, feof]

/-- The bytes of the lines, put together again. -/
private def joined (bodies : List Text) (tail : Text) : Text :=
  (bodies.map (fun body => body ++ [LF])).flatten ++ tail

private theorem joined_cons (body : Text) (more : List Text) (tail : Text) :
    joined (body :: more) tail = body ++ LF :: joined more tail := by
  simp [joined]

private theorem wanted_comment {body : Text} (comment : isComment body = true) (more : List Text) (tail : Text) :
    wanted (body :: more) tail = wanted more tail := by
  simp [wanted, streamLines, comment]

private theorem wanted_line {body : Text} (line : isComment body = false) (more : List Text) (tail : Text) :
    wanted (body :: more) tail = .message (chomp body) :: wanted more tail := by
  simp [wanted, streamLines, line]

private theorem readable_cons {body : Text} {more : List Text} {tail : Text} :
    Readable (body :: more) tail errno ↔ (isComment body = false → chomp body ≠ []) ∧ Readable more tail errno := by
  constructor
  · rintro ⟨visible, closed, noticed⟩
    exact ⟨visible body (by simp [streamLines]),
      fun line member => visible line (List.mem_cons_of_mem body member), closed, noticed⟩
  · rintro ⟨first, visible, closed, noticed⟩
    refine ⟨fun line member => ?_, closed, noticed⟩
    rcases List.mem_cons.mp member with rfl | later
    · exact first
    · exact visible line later

/-- The loop at the bytes behind the last newline. -/
private theorem loop_last {tail : Text} (free : LF ∉ tail) (noNul : 0 ∉ tail) (short : tail.length < 9999) :
    connectionLoop errno residue ⟨tail, false⟩ buffer events = some (events ++ wanted [] tail) ↔ Readable [] tail errno := by
  by_cases ended : tail = []
  · subst ended
    change connectionLoop errno residue ⟨[], false⟩ buffer events = some (events ++ [.disconnect]) ↔ _
    rw [loop_end]
    constructor
    · intro same
      refine ⟨by simp [streamLines], by simp, fun _ zero => ?_⟩
      rw [if_pos zero] at same
      simp at same
    · intro readable
      rw [if_neg (readable.noticed rfl)]
  have last : streamLines [] tail = [tail] := by simp [streamLines, ended]
  rw [loop_tail free noNul short ended]
  cases comment : isComment tail with
  | true =>
    constructor
    · intro same
      split at same
      · cases same
      · simp [wanted, last, comment] at same
    · intro readable
      rw [readable.closed ended] at comment
      cases comment
  | false =>
    constructor
    · intro same
      refine ⟨fun line member _ => ?_, fun _ => comment, fun absent => absurd absent ended⟩
      rw [last, List.mem_singleton] at member
      subst member
      intro blank
      rw [if_pos blank] at same
      cases same
    · intro readable
      rw [if_neg (readable.visible tail (by simp [last]) comment)]
      simp [wanted, last, comment]

end

/-- The loop by the lines that are left. -/
theorem loop_iff (errno : Int32) (residue : List Event → Text) (buffer : Text) (events : List Event)
    {bodies : List Text} {tail : Text} (free : ∀ line ∈ streamLines bodies tail, LF ∉ line)
    (noNul : ∀ line ∈ streamLines bodies tail, 0 ∉ line) (short : ∀ line ∈ streamLines bodies tail, line.length < 9999) :
    connectionLoop errno residue ⟨joined bodies tail, false⟩ buffer events = some (events ++ wanted bodies tail) ↔
      Readable bodies tail errno := by
  induction bodies generalizing buffer events with
  | nil =>
    have last : tail = [] ∨ tail ∈ streamLines [] tail := by
      by_cases ended : tail = [] <;> simp [streamLines, ended]
    rcases last with rfl | last
    · exact loop_last List.not_mem_nil List.not_mem_nil (by decide)
    · exact loop_last (free tail last) (noNul tail last) (short tail last)
  | cons body more ih =>
    have first : body ∈ streamLines (body :: more) tail := List.mem_cons_self
    have later : ∀ line ∈ streamLines more tail, line ∈ streamLines (body :: more) tail :=
      fun line member => List.mem_cons_of_mem body member
    have ih := fun buffer events => ih buffer events (fun line member => free line (later line member))
      (fun line member => noNul line (later line member)) (fun line member => short line (later line member))
    rw [joined_cons, readable_cons]
    cases comment : isComment body with
    | true =>
      rw [loop_comment (free body first) (short body first) comment, wanted_comment comment, ih]
      simp
    | false =>
      by_cases blank : chomp body = []
      · rw [loop_blank (free body first) (noNul body first) (short body first) comment blank]
        simp [blank]
      · rw [loop_line (free body first) (noNul body first) (short body first) comment blank, wanted_line comment,
          List.append_cons events (.message (chomp body)) (wanted more tail), ih]
        simp [blank]

/-- A closed stream is delivered line by line and then as a disconnection exactly
    when it is readable. -/
theorem connectionThread_iff (errno : Int32) (residue : List Event → Text) (garbage stream : Text) (noNul : 0 ∉ stream)
    (short : ∀ line ∈ streamLines (splitLines stream).1 (splitLines stream).2, line.length < 9999) :
    connectionThreadFunc errno residue garbage stream = some (wanted (splitLines stream).1 (splitLines stream).2) ↔
      Readable (splitLines stream).1 (splitLines stream).2 errno := by
  obtain ⟨whole, bodiesFree, tailFree⟩ := splitLines_lines stream
  have member : ∀ line ∈ streamLines (splitLines stream).1 (splitLines stream).2,
      line ∈ (splitLines stream).1 ∨ line = (splitLines stream).2 := by
    intro line member
    rw [streamLines, List.mem_append] at member
    refine member.imp_right fun last => ?_
    split at last
    · cases last
    · exact List.mem_singleton.mp last
  have free : ∀ line ∈ streamLines (splitLines stream).1 (splitLines stream).2, LF ∉ line := by
    intro line inLines
    rcases member line inLines with body | rfl
    · exact bodiesFree line body
    · exact tailFree
  have noNulLine : ∀ line ∈ streamLines (splitLines stream).1 (splitLines stream).2, 0 ∉ line := by
    intro line inLines zero
    refine noNul ?_
    rw [whole, List.mem_append, List.mem_flatten]
    rcases member line inLines with body | rfl
    · exact .inl ⟨line ++ [LF], List.mem_map.mpr ⟨line, body, rfl⟩, List.mem_append_left _ zero⟩
    · exact .inr zero
  have delivered := loop_iff errno residue garbage [] free noNulLine short
  rwa [joined, ← whole] at delivered

theorem connectionThread_iff_sample :
    connectionThreadFunc 0 (fun _ => []) [] (lit "C 1 x\n# no\nR 2") =
        some (wanted (splitLines (lit "C 1 x\n# no\nR 2")).1 (splitLines (lit "C 1 x\n# no\nR 2")).2) ↔
      Readable (splitLines (lit "C 1 x\n# no\nR 2")).1 (splitLines (lit "C 1 x\n# no\nR 2")).2 0 :=
  connectionThread_iff 0 (fun _ => []) [] (lit "C 1 x\n# no\nR 2") (by decide) (by decide)

/-- With `errno` 0 at the end of the stream its last line is delivered again. -/
theorem connectionThread_repeats :
    connectionThreadFunc 0 (fun _ => lit "ping") [] (lit "ping\n") =
        some [.message (lit "ping"), .message (lit "ping"), .disconnect] ∧
      wanted (splitLines (lit "ping\n")).1 (splitLines (lit "ping\n")).2 = [.message (lit "ping"), .disconnect] := by
  constructor
  · have split : (⟨lit "ping\n", false⟩ : FILE) = ⟨lit "ping" ++ LF :: [], false⟩ := by decide
    rw [connectionThreadFunc, split, loop_line (by decide) (by decide) (by decide) (by decide) (by decide), loop_end]
    decide
  · decide

end VoxiUtil.Sock
