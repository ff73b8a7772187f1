import VoxiUtil.Sock

/-!
The line reader that `sock.c` has for Windows, where a socket is not a stream of
`stdio.h`, beside the one of `file.c`. Both cut a stream into the same pieces; they
treat its end differently.
-/
namespace VoxiUtil.SockReader
open VoxiUtil.CString VoxiUtil.Stdio VoxiUtil.File VoxiUtil.Sock

def WSAEINTR : Int32 := 10004

/-- The loop over `recv` with so many bytes of room: the line, null when `recv` gives
    no byte, and the bytes behind. `lastError` is what `WSAGetLastError` gives at the
    end of the stream; none when the loop takes that for an interrupted call and goes
    on behind a byte that it has not received. -/
def sockGetsLoop (lastError : Int32) : Nat → Text → Option (Option Text × Text)
  | 0, sock => some (some [], sock)
  | _ + 1, [] => if lastError = WSAEINTR then none else some (none, [])
  | room + 1, c :: rest =>
    if c = LF then some (some [c], rest)
    else (sockGetsLoop lastError room rest).map fun out => (out.1.map (fun line => c :: line), out.2)

/-- The NUL behind the line is written even into a buffer of no bytes. -/
def sockGets (lastError : Int32) (size : Nat) (sock : Text) : Option (Option Text × Text) :=
  if size = 0 then none else sockGetsLoop lastError (size - 1) sock

/-- Up to the end of the stream, `recv` and `fgets` give the same lines. -/
theorem sockGetsLoop_eq (lastError : Int32) (room : Nat) (sock : Text) :
    sockGetsLoop lastError room sock =
      match takeLine room sock with
      | (line, behind, ended) =>
        if ended = true then (if lastError = WSAEINTR then none else some (none, [])) else some (some line, behind) := by
  induction room generalizing sock with
  | zero => rfl
  | succ room ih =>
    cases sock with
    | nil => simp [sockGetsLoop, takeLine]
    | cons c rest =>
      rw [sockGetsLoop, takeLine, ih]
      by_cases newline : c = LF
      · simp [newline]
      · rcases takeLine room rest with ⟨line, behind, ended⟩
        cases ended <;> by_cases stale : lastError = WSAEINTR <;> simp [newline, stale]

theorem takeLine_shorter {n : Nat} {stream line behind : Text} (taken : takeLine (n + 1) stream = (line, behind, false)) :
    behind.length < stream.length := by
  have joined := takeLine_joined (n + 1) stream
  have nonempty : line ≠ [] := by
    rintro rfl
    have ended := takeLine_empty n stream (by rw [taken])
    rw [taken] at ended
    cases ended
  have longer := List.length_pos_of_ne_nil nonempty
  simp only [taken] at joined
  rw [← joined, List.length_append]
  omega

private theorem sockGets_shorter {lastError : Int32} {size : Nat} {sock line behind : Text}
    (read : sockGets lastError size sock = some (some line, behind)) (nonempty : line ≠ []) :
    behind.length < sock.length := by
  unfold sockGets at read
  split at read
  · cases read
  · rw [sockGetsLoop_eq] at read
    rcases taken : takeLine (size - 1) sock with ⟨front, back, ended⟩
    have joined := takeLine_joined (size - 1) sock
    simp only [taken] at read joined
    cases ended with
    | true => by_cases stale : lastError = WSAEINTR <;> simp [stale] at read
    | false =>
      cases read
      have longer := List.length_pos_of_ne_nil nonempty
      rw [← joined, List.length_append]
      omega

/-- The loop that reads past comments. -/
def sockReadPastComments (lastError : Int32) (bufSize : Nat) (sock : Text) : Option (Option Text × Text) :=
  match _read : sockGets lastError bufSize sock with
  | none => none
  | some (none, behind) => some (none, behind)
  | some (some line, behind) =>
    if _again : isComment line = true then sockReadPastComments lastError bufSize behind else some (some line, behind)
termination_by sock.length
decreasing_by
  refine sockGets_shorter _read ?_
  rintro rfl
  simp [isComment] at _again

theorem sockReadPastComments_eq (lastError : Int32) (bufSize : Nat) (sock : Text) :
    sockReadPastComments lastError bufSize sock =
      match sockGets lastError bufSize sock with
      | none => none
      | some (none, behind) => some (none, behind)
      | some (some line, behind) =>
        if isComment line = true then sockReadPastComments lastError bufSize behind else some (some line, behind) := by
  rw [sockReadPastComments]
  split <;> rename_i read <;> simp [read]

/-- The result, the line and the bytes behind. At the end there is no line. -/
def sockReadLine (lastError : Int32) (bufSize : Nat) (sock : Text) : Option (Int32 × Text × Text) :=
  match sockReadPastComments lastError bufSize sock with
  | none => none
  | some (none, behind) => some (-1, [], behind)
  | some (some line, behind) =>
    if cString line = [] then some (0, [], behind)
    else (newlineTrim (cString line) (cString line).length).map fun length => (0, (cString line).take length, behind)

/-- The lines that calls of a reader give, up to the call that reports the end. -/
inductive Reads {σ : Type} (readLine : σ → Option (Int32 × Text × σ)) : σ → List Text → Prop where
  | ended {s t : σ} {err : Int32} {text : Text} (read : readLine s = some (err, text, t)) (reports : err ≠ 0) : Reads readLine s []
  | line {s t : σ} {text : Text} {lines : List Text} (read : readLine s = some (0, text, t)) (rest : Reads readLine t lines) :
      Reads readLine s (text :: lines)

/-- Calls of `file_readLine` with one buffer. -/
def fileReader (errno : Int32) (bufSize : Nat) (s : Text × FILE) : Option (Int32 × Text × (Text × FILE)) :=
  (fileReadLine s.2 s.1 bufSize errno).map fun out => (out.1, out.2.1, (out.2.1, out.2.2))

/-- The lines of a stream in the pieces that `n + 1` bytes have room for, and the bytes
    that are left at the end, too few for a piece. -/
def pieces (n : Nat) (stream : Text) : List Text × Text :=
  match _taken : takeLine (n + 1) stream with
  | (line, _, true) => ([], line)
  | (line, behind, false) => (line :: (pieces n behind).1, (pieces n behind).2)
termination_by stream.length
decreasing_by all_goals exact takeLine_shorter _taken

/-- The lines that a reader should give: the comments left out, the terminators
    taken off, with the last line even if it has none. -/
def wanted (n : Nat) (stream : Text) : List Text :=
  (((pieces n stream).1 ++ if (pieces n stream).2 = [] then [] else [(pieces n stream).2]).filter
    (fun piece => !isComment piece)).map chomp

/-- The buffer has room for a byte, both readers report the end of a stream, no piece
    but a comment is blank, and the stream ends with a piece. -/
structure Whole (errno lastError : Int32) (bufSize : Nat) (stream : Text) : Prop where
  room : 2 ≤ bufSize
  noticed : errno ≠ 0
  closed : lastError ≠ WSAEINTR
  visible : ∀ piece ∈ (pieces (bufSize - 2) stream).1, isComment piece = false → chomp piece ≠ []
  terminated : (pieces (bufSize - 2) stream).2 = []

theorem pieces_taken {n : Nat} {stream line behind : Text} (taken : takeLine (n + 1) stream = (line, behind, false)) :
    pieces n stream = (line :: (pieces n behind).1, (pieces n behind).2) := by
  rw [pieces]
  split <;> rename_i same <;> rw [taken] at same <;> cases same
  rfl

theorem pieces_tail {n : Nat} {stream line behind : Text} (taken : takeLine (n + 1) stream = (line, behind, true)) :
    pieces n stream = ([], line) := by
  rw [pieces]
  split <;> rename_i same <;> rw [taken] at same <;> cases same
  rfl

section
variable {n : Nat} {stream line behind : Text} {errno lastError : Int32}

private theorem taken_noNul {ended : Bool} (taken : takeLine (n + 1) stream = (line, behind, ended)) (noNul : 0 ∉ stream) :
    0 ∉ line ∧ 0 ∉ behind := by
  have joined := takeLine_joined (n + 1) stream
  simp only [taken] at joined
  rw [← joined, List.mem_append, not_or] at noNul
  exact noNul

private theorem takeLine_ended {m : Nat} (taken : takeLine m stream = (line, behind, true)) : behind = [] := by
  induction m generalizing stream line with
  | zero => cases taken
  | succ m ih =>
    cases stream with
    | nil => cases taken; rfl
    | cons c rest =>
      rw [takeLine] at taken
      split at taken
      · cases taken
      · rcases later : takeLine m rest with ⟨front, back, ended⟩
        rw [later] at taken
        cases taken
        exact ih later

/-! ### What one call gives -/

private theorem sockGets_eq : sockGets lastError (n + 2) stream = sockGetsLoop lastError (n + 1) stream := by
  simp [sockGets]

theorem sockReadLine_taken (taken : takeLine (n + 1) stream = (line, behind, false)) (noNul : 0 ∉ line) :
    sockReadLine lastError (n + 2) stream =
      if isComment line = true then sockReadLine lastError (n + 2) behind
      else if chomp line = [] then none else some (0, chomp line, behind) := by
  have got : sockGets lastError (n + 2) stream = some (some line, behind) := by
    simp [sockGets_eq, sockGetsLoop_eq, taken]
  have nonempty : line ≠ [] := by
    rintro rfl
    have ended := takeLine_empty n stream (by rw [taken])
    rw [taken] at ended
    cases ended
  by_cases comment : isComment line = true
  · rw [if_pos comment, sockReadLine, sockReadPastComments_eq, got]
    simp only [comment, if_true]
    rfl
  · have trimmed : (newlineTrim line line.length).map (fun length => ((0 : Int32), line.take length, behind)) =
        ((newlineTrim line line.length).map line.take).map (fun text => (0, text, behind)) := by
      rw [Option.map_map]
      rfl
    rw [if_neg comment, sockReadLine, sockReadPastComments_eq, got]
    simp only [comment, Bool.false_eq_true, if_false, cString_of_noNul noNul, nonempty, trimmed, newlineTrim_chomp]
    split <;> rfl

theorem sockReadLine_tail (taken : takeLine (n + 1) stream = (line, behind, true)) :
    sockReadLine lastError (n + 2) stream = if lastError = WSAEINTR then none else some (-1, [], []) := by
  rw [sockReadLine, sockReadPastComments_eq, sockGets_eq, sockGetsLoop_eq, taken]
  by_cases stale : lastError = WSAEINTR <;> simp [stale]

theorem fileReadLine_taken (buffer : Text) (taken : takeLine (n + 1) stream = (line, behind, false)) (noNul : 0 ∉ line) :
    fileReadLine ⟨stream, false⟩ buffer (n + 2) errno =
      if isComment line = true then fileReadLine ⟨behind, false⟩ line (n + 2) errno
      else if chomp line = [] then none else some (0, chomp line, ⟨behind, false⟩) := by
  have got : fgets (n + 2) ⟨stream, false⟩ = (some line, ⟨behind, false⟩) := by simp [fgets, taken]
  by_cases comment : isComment line = true
  · rw [if_pos comment, fileReadLine, fileReadLine, readPastComments_eq, got]
    simp only [feof, comment, Bool.not_false, Bool.and_self, if_true]
  · have stopped : readPastComments (n + 2) ⟨stream, false⟩ buffer = (true, line, ⟨behind, false⟩) := by
      rw [readPastComments_eq, got]
      simp [comment]
    rw [if_neg comment, fileReadLine_line errno stopped, cString_of_noNul noNul]

theorem fileReadLine_tail (buffer : Text) (taken : takeLine (n + 1) stream = (line, behind, true)) (noNul : 0 ∉ line) :
    fileReadLine ⟨stream, false⟩ buffer (n + 2) errno =
      if line = [] then some (errno, buffer, ⟨[], true⟩)
      else if chomp line = [] then none else some (0, chomp line, ⟨[], true⟩) := by
  obtain rfl := takeLine_ended taken
  by_cases empty : line = []
  · have got : fgets (n + 2) ⟨stream, false⟩ = (none, ⟨[], true⟩) := by simp [fgets, taken, empty]
    rw [if_pos empty, fileReadLine, readPastComments_eq, got]
  · have got : fgets (n + 2) ⟨stream, false⟩ = (some line, ⟨[], true⟩) := by simp [fgets, taken, empty]
    have stopped : readPastComments (n + 2) ⟨stream, false⟩ buffer = (true, line, ⟨[], true⟩) := by
      rw [readPastComments_eq, got]
      simp [feof]
    rw [if_neg empty, fileReadLine_line errno stopped, cString_of_noNul noNul]

theorem fileReadLine_end (buffer : Text) :
    fileReadLine ⟨[], true⟩ buffer (n + 2) errno = some (errno, buffer, ⟨[], true⟩) := by
  have got : fgets (n + 2) ⟨[], true⟩ = (none, ⟨[], true⟩) := by simp [fgets, takeLine]
  rw [fileReadLine, readPastComments_eq, got]

end

/-! ### What all calls give -/

section
variable {σ : Type} {readLine : σ → Option (Int32 × Text × σ)} {s t : σ} {lines : List Text}

/-- Calls that give the same are followed by the same. -/
theorem reads_congr (same : readLine s = readLine t) : Reads readLine s lines ↔ Reads readLine t lines := by
  constructor <;> intro reads <;> cases reads with
  | ended read reports => exact .ended (same ▸ read) reports
  | line read rest => exact .line (same ▸ read) rest

theorem reads_none (stuck : readLine s = none) : ¬ Reads readLine s lines := by
  intro reads
  cases reads with
  | ended read | line read => rw [stuck] at read; cases read

theorem reads_line {text : Text} (read : readLine s = some (0, text, t)) :
    Reads readLine s lines ↔ ∃ more, Reads readLine t more ∧ lines = text :: more := by
  constructor
  · intro reads
    cases reads with
    | ended other reports =>
      rw [read] at other
      cases other
      exact absurd rfl reports
    | line other rest =>
      rw [read] at other
      cases other
      exact ⟨_, rest, rfl⟩
  · rintro ⟨more, rest, rfl⟩
    exact .line read rest

theorem reads_end {err : Int32} {text : Text} (read : readLine s = some (err, text, t)) (reports : err ≠ 0) :
    Reads readLine s lines ↔ lines = [] := by
  constructor
  · intro reads
    cases reads with
    | ended => rfl
    | line other =>
      rw [read] at other
      cases other
      exact absurd rfl reports
  · rintro rfl
    exact .ended read reports

/-- A reader that gives lines from the same state on and on never reports the end. -/
theorem reads_never {P : σ → Prop} (again : ∀ s, P s → ∃ text t, readLine s = some (0, text, t) ∧ P t) (start : P s) :
    ¬ Reads readLine s lines := by
  intro reads
  induction reads with
  | ended read reports =>
    obtain ⟨text, t, other, _⟩ := again _ start
    rw [read] at other
    cases other
    exact reports rfl
  | line read _ ih =>
    obtain ⟨text, t, other, kept⟩ := again _ start
    rw [read] at other
    cases other
    exact ih kept

end

/-- The pieces that are lines, as a reader gives them. -/
private def whole (n : Nat) (stream : Text) : List Text :=
  ((pieces n stream).1.filter (fun piece => !isComment piece)).map chomp

/-- No piece but a comment is blank. -/
private def Visible (n : Nat) (stream : Text) : Prop :=
  ∀ piece ∈ (pieces n stream).1, isComment piece = false → chomp piece ≠ []

section
variable {n : Nat} {stream line behind : Text}

private theorem visible_taken (taken : takeLine (n + 1) stream = (line, behind, false)) :
    Visible n stream ↔ (isComment line = false → chomp line ≠ []) ∧ Visible n behind := by
  unfold Visible
  rw [pieces_taken taken, List.forall_mem_cons]

private theorem whole_taken (taken : takeLine (n + 1) stream = (line, behind, false)) :
    whole n stream = if isComment line = true then whole n behind else chomp line :: whole n behind := by
  unfold whole
  rw [pieces_taken taken]
  by_cases comment : isComment line = true <;> simp [comment]

/-- The socket's reader gives the pieces that are lines, and no more. -/
theorem sock_reads_iff (lastError : Int32) (n : Nat) {stream : Text} (noNul : 0 ∉ stream) (lines : List Text) :
    Reads (sockReadLine lastError (n + 2)) stream lines ↔
      lastError ≠ WSAEINTR ∧ Visible n stream ∧ lines = whole n stream := by
  induction size : stream.length using Nat.strong_induction_on generalizing stream lines with
  | _ k ih =>
    subst size
    rcases taken : takeLine (n + 1) stream with ⟨line, behind, _ | _⟩
    · have later := taken_noNul taken noNul
      have rest := fun lines => ih behind.length (takeLine_shorter taken) later.2 lines rfl
      have read : sockReadLine lastError (n + 2) stream = _ := sockReadLine_taken taken later.1
      rw [visible_taken taken, whole_taken taken]
      by_cases comment : isComment line = true
      · rw [if_pos comment] at read
        rw [reads_congr read, rest, if_pos comment]
        simp [comment]
      rw [if_neg comment] at read
      rw [if_neg comment]
      by_cases blank : chomp line = []
      · rw [if_pos blank] at read
        simp [reads_none read, blank, comment]
      · rw [if_neg blank] at read
        rw [reads_line read]
        simp [rest, blank, and_assoc]
    · rw [Visible, whole, pieces_tail taken]
      have read : sockReadLine lastError (n + 2) stream = _ := sockReadLine_tail taken
      by_cases stale : lastError = WSAEINTR
      · rw [if_pos stale] at read
        exact iff_of_false (reads_none read) fun held => held.1 stale
      · rw [if_neg stale] at read
        rw [reads_end read (by decide)]
        simp [stale]

/-- At the end the result is `errno`, which may be 0. -/
private theorem end_reads (errno : Int32) (n : Nat) (buffer : Text) (lines : List Text) :
    Reads (fileReader errno (n + 2)) (buffer, ⟨[], true⟩) lines ↔ errno ≠ 0 ∧ lines = [] := by
  have read : ∀ buffer, fileReader errno (n + 2) (buffer, ⟨[], true⟩) = some (errno, buffer, (buffer, ⟨[], true⟩)) := by
    intro buffer
    rw [fileReader, fileReadLine_end]
    rfl
  by_cases silent : errno = 0
  · subst silent
    have again : ∀ s : Text × FILE, s.2 = ⟨[], true⟩ → ∃ text t, fileReader 0 (n + 2) s = some (0, text, t) ∧ t.2 = ⟨[], true⟩ := by
      rintro ⟨buffer, _⟩ rfl
      exact ⟨_, _, read buffer, rfl⟩
    have never : ¬ Reads (fileReader 0 (n + 2)) (buffer, ⟨[], true⟩) lines := reads_never again rfl
    simp [never]
  · rw [reads_end (read buffer) silent]
    simp [silent]

/-- The stream's reader gives the bytes behind the last piece too, as they are. -/
theorem file_reads_iff (errno : Int32) (n : Nat) (buffer : Text) {stream : Text} (noNul : 0 ∉ stream) (lines : List Text) :
    Reads (fileReader errno (n + 2)) (buffer, ⟨stream, false⟩) lines ↔
      errno ≠ 0 ∧ Visible n stream ∧ ((pieces n stream).2 ≠ [] → chomp (pieces n stream).2 ≠ []) ∧
        lines = whole n stream ++ if (pieces n stream).2 = [] then [] else [chomp (pieces n stream).2] := by
  induction size : stream.length using Nat.strong_induction_on generalizing stream lines buffer with
  | _ k ih =>
    subst size
    rcases taken : takeLine (n + 1) stream with ⟨line, behind, _ | _⟩
    · have later := taken_noNul taken noNul
      have rest := fun buffer lines => ih behind.length (takeLine_shorter taken) buffer later.2 lines rfl
      have read := congrArg (Option.map fun out => (out.1, out.2.1, (out.2.1, out.2.2)))
        (show fileReadLine ⟨stream, false⟩ buffer (n + 2) errno = _ from fileReadLine_taken buffer taken later.1)
      have tails : (pieces n stream).2 = (pieces n behind).2 := by rw [pieces_taken taken]
      rw [visible_taken taken, whole_taken taken, tails]
      by_cases comment : isComment line = true
      · rw [if_pos comment] at read
        rw [reads_congr (t := (line, ⟨behind, false⟩)) read, rest, if_pos comment]
        simp [comment]
      rw [if_neg comment] at read
      rw [if_neg comment]
      by_cases blank : chomp line = []
      · rw [if_pos blank] at read
        have stuck : ¬ Reads (fileReader errno (n + 2)) (buffer, ⟨stream, false⟩) lines := reads_none read
        exact iff_of_false stuck fun held => held.2.1.1 (by simpa using comment) blank
      · rw [if_neg blank] at read
        have next : Reads (fileReader errno (n + 2)) (buffer, ⟨stream, false⟩) lines ↔ _ := reads_line read
        rw [next]
        simp [rest, blank, and_assoc]
    · have read := congrArg (Option.map fun out => (out.1, out.2.1, (out.2.1, out.2.2)))
        (show fileReadLine ⟨stream, false⟩ buffer (n + 2) errno = _ from fileReadLine_tail buffer taken (taken_noNul taken noNul).1)
      rw [Visible, whole, pieces_tail taken]
      by_cases empty : line = []
      · rw [if_pos empty] at read
        have same : fileReader errno (n + 2) (buffer, ⟨stream, false⟩) = fileReader errno (n + 2) (buffer, ⟨[], true⟩) := by
          rw [fileReader, fileReader, fileReadLine_end]
          exact read
        rw [reads_congr same, end_reads]
        simp [empty]
      rw [if_neg empty] at read
      by_cases blank : chomp line = []
      · rw [if_pos blank] at read
        have stuck : ¬ Reads (fileReader errno (n + 2)) (buffer, ⟨stream, false⟩) lines := reads_none read
        exact iff_of_false stuck fun held => held.2.2.1 empty blank
      · rw [if_neg blank] at read
        have last : Reads (fileReader errno (n + 2)) (buffer, ⟨stream, false⟩) lines ↔ _ := reads_line read
        rw [last]
        simp [end_reads, empty, blank]

/-- A buffer of one byte holds no line. -/
private theorem file_reads_room {errno : Int32} {bufSize : Nat} {buffer : Text} {file : FILE} {lines : List Text}
    (tight : bufSize < 2) : ¬ Reads (fileReader errno bufSize) (buffer, file) lines := by
  have got : fgets bufSize file = (some [], ⟨file.rest, file.eof⟩) := by
    rw [fgets, show bufSize - 1 = 0 by omega]
    simp [takeLine]
  have stopped : readPastComments bufSize file buffer = (true, [], ⟨file.rest, file.eof⟩) := by
    rw [readPastComments_eq, got]
    simp [isComment]
  refine reads_none ?_
  rw [fileReader, fileReadLine_line errno stopped]
  rfl

/-- The pieces of lines that fit are the lines. -/
theorem pieces_short {bodies : List Text} {tail : Text} (bodiesFree : ∀ body ∈ bodies, LF ∉ body) (tailFree : LF ∉ tail)
    (short : ∀ body ∈ bodies, body.length < n + 1) (tailShort : tail.length < n + 1) :
    pieces n ((bodies.map (fun body => body ++ [LF])).flatten ++ tail) = (bodies.map (fun body => body ++ [LF]), tail) := by
  induction bodies with
  | nil => exact pieces_tail (takeLine_tail tailFree tailShort)
  | cons body more ih =>
    rw [List.forall_mem_cons] at bodiesFree short
    have shape : ((body :: more).map (fun body => body ++ [LF])).flatten ++ tail =
        body ++ LF :: ((more.map (fun body => body ++ [LF])).flatten ++ tail) := by simp
    rw [shape, pieces_taken (takeLine_line bodiesFree.1 short.1 _), ih bodiesFree.2 short.2]
    rfl

/-- With room for each line, the lines wanted are those of the stream. -/
theorem wanted_short (short : ∀ line ∈ streamLines (splitLines stream).1 (splitLines stream).2, line.length < n + 1) :
    wanted n stream = ((streamLines (splitLines stream).1 (splitLines stream).2).filter (fun line => !isComment line)).map chomp := by
  obtain ⟨joined, bodiesFree, tailFree⟩ := splitLines_lines stream
  have bodiesShort : ∀ body ∈ (splitLines stream).1, body.length < n + 1 :=
    fun body member => short body (List.mem_append_left _ member)
  have tailShort : (splitLines stream).2.length < n + 1 := by
    by_cases ended : (splitLines stream).2 = []
    · simp [ended]
    · exact short _ (List.mem_append_right _ (by simp [ended]))
  have cut : pieces n stream = ((splitLines stream).1.map (fun body => body ++ [LF]), (splitLines stream).2) := by
    conv_lhs => rw [joined]
    exact pieces_short bodiesFree tailFree bodiesShort tailShort
  have comments : ∀ body : Text, isComment (body ++ [LF]) = isComment body := by
    intro body
    cases body <;> rfl
  rw [wanted, cut, streamLines, List.filter_append, List.filter_append, List.map_append, List.map_append, List.filter_map,
    List.map_map]
  congr 1
  have kept : (fun piece => !isComment piece) ∘ (fun body => body ++ [LF]) = fun body => !isComment body := by
    funext body
    simp [comments]
  rw [kept]
  exact List.map_congr_left fun body _ => chomp_newline body

end

/-- The two readers give one sequence of lines exactly when the stream ends with a
    whole piece and neither stumbles over a blank one or over the end. It is then the
    sequence of the lines that are no comments. -/
theorem readers_agree_iff (errno lastError : Int32) (bufSize : Nat) (buffer : Text) {stream : Text} (noNul : 0 ∉ stream) :
    ((∃ lines, Reads (fileReader errno bufSize) (buffer, ⟨stream, false⟩) lines ∧
        Reads (sockReadLine lastError bufSize) stream lines) ↔ Whole errno lastError bufSize stream) ∧
      ∀ lines, Reads (fileReader errno bufSize) (buffer, ⟨stream, false⟩) lines →
        Reads (sockReadLine lastError bufSize) stream lines → lines = wanted (bufSize - 2) stream := by
  by_cases tight : bufSize < 2
  · have stuck : ∀ lines, ¬ Reads (fileReader errno bufSize) (buffer, ⟨stream, false⟩) lines := fun _ => file_reads_room tight
    refine ⟨iff_of_false ?_ ?_, fun lines reads => absurd reads (stuck lines)⟩
    · rintro ⟨lines, reads, _⟩
      exact stuck lines reads
    · intro whole
      exact absurd whole.room (by omega)
  obtain ⟨n, rfl⟩ : ∃ n, bufSize = n + 2 := ⟨bufSize - 2, by omega⟩
  have agreed : ∀ lines, Reads (fileReader errno (n + 2)) (buffer, ⟨stream, false⟩) lines →
      Reads (sockReadLine lastError (n + 2)) stream lines →
      Whole errno lastError (n + 2) stream ∧ lines = wanted n stream := by
    intro lines fileReads sockReads
    obtain ⟨noticed, visible, _, fileLines⟩ := (file_reads_iff errno n buffer noNul lines).mp fileReads
    obtain ⟨closed, _, sockLines⟩ := (sock_reads_iff lastError n noNul lines).mp sockReads
    have terminated : (pieces n stream).2 = [] := by
      by_contra left
      rw [if_neg left, sockLines] at fileLines
      simp at fileLines
    refine ⟨⟨by omega, noticed, closed, visible, terminated⟩, ?_⟩
    rw [sockLines, wanted, terminated]
    simp [whole]
  refine ⟨⟨fun ⟨lines, fileReads, sockReads⟩ => (agreed lines fileReads sockReads).1, fun held => ?_⟩,
    fun lines fileReads sockReads => (agreed lines fileReads sockReads).2⟩
  refine ⟨whole n stream, (file_reads_iff errno n buffer noNul _).mpr ?_, (sock_reads_iff lastError n noNul _).mpr ?_⟩
  · exact ⟨held.noticed, held.visible, fun left => absurd held.terminated left, by simp [show (pieces n stream).2 = [] from held.terminated]⟩
  · exact ⟨held.closed, held.visible, rfl⟩

theorem readers_agree_iff_sample :
    ((∃ lines, Reads (fileReader 11 16) ([], ⟨lit "a\n# b\n", false⟩) lines ∧ Reads (sockReadLine 0 16) (lit "a\n# b\n") lines) ↔
        Whole 11 0 16 (lit "a\n# b\n")) ∧
      ∀ lines, Reads (fileReader 11 16) ([], ⟨lit "a\n# b\n", false⟩) lines →
        Reads (sockReadLine 0 16) (lit "a\n# b\n") lines → lines = wanted 14 (lit "a\n# b\n") :=
  readers_agree_iff 11 0 16 [] (by decide)

/-- A last line without a newline is lost on the socket. -/
theorem readers_differ : ¬ ∃ lines, Reads (fileReader 11 10000) ([], ⟨lit "ping", false⟩) lines ∧
    Reads (sockReadLine 0 10000) (lit "ping") lines := by
  rintro ⟨lines, fileReads, sockReads⟩
  have tail : pieces 9998 (lit "ping") = ([], lit "ping") := pieces_tail (takeLine_tail (by decide) (by decide))
  have fileLines := ((file_reads_iff 11 9998 [] (by decide) lines).mp fileReads).2.2.2
  have sockLines := ((sock_reads_iff 0 9998 (by decide) lines).mp sockReads).2.2
  rw [sockLines, whole, tail] at fileLines
  simp [lit] at fileLines

end VoxiUtil.SockReader
