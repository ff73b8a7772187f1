import VoxiUtil.CString

/-!
A stream of `stdio.h` whose sender has closed it, and the lines it has. The end
of the stream is noticed by a read that needs more bytes than there are.
-/
namespace VoxiUtil.Stdio
open VoxiUtil.CString

def LF : UInt8 := 10

structure FILE where
  rest : Text
  eof : Bool
deriving DecidableEq

/-- Bytes up to a newline, which is included, or up to a count; with the bytes
    behind and whether the end of the stream was met. -/
def takeLine : Nat → Text → Text × Text × Bool
  | 0, rest => ([], rest, false)
  | _ + 1, [] => ([], [], true)
  | n + 1, c :: rest =>
    if c = LF then ([c], rest, false)
    else
      let (line, behind, ended) := takeLine n rest
      (c :: line, behind, ended)

def feof (file : FILE) : Bool := file.eof

/-- `fgets` into a buffer of `size` bytes; null when the stream has ended before
    the first byte. -/
def fgets (size : Nat) (file : FILE) : Option Text × FILE :=
  let (line, behind, ended) := takeLine (size - 1) file.rest
  (if ended && line.isEmpty then none else some line, ⟨behind, file.eof || ended⟩)

/-- `fscanf` with the format `"%d\\n"`: a number, which white space may precede, and then
    all the white space that follows. None when there is no number to read. -/
def fscanfInt (file : FILE) : Option (Int32 × FILE) :=
  let token := file.rest.dropWhile isSpace
  let digits := match token with
    | 45 :: digits | 43 :: digits => digits
    | digits => digits
  let rest := (digits.dropWhile isDigit).dropWhile isSpace
  if (digits.takeWhile isDigit).isEmpty then none else some (atoi token, ⟨rest, file.eof || rest.isEmpty⟩)

/-- The bodies of the lines that a newline ends, and the bytes after the last newline. -/
def splitLines : Text → List Text × Text
  | [] => ([], [])
  | c :: rest =>
    match splitLines rest with
    | (bodies, tail) =>
      if c = LF then ([] :: bodies, tail)
      else match bodies with
        | [] => ([], c :: tail)
        | body :: more => ((c :: body) :: more, tail)

/-- A stream is made of the lines `bodies` and then `tail`. -/
structure Lines (stream : Text) (bodies : List Text) (tail : Text) : Prop where
  joined : stream = (bodies.map (fun body => body ++ [LF])).flatten ++ tail
  bodies : ∀ body ∈ bodies, LF ∉ body
  tail : LF ∉ tail

theorem splitLines_lines (stream : Text) : Lines stream (splitLines stream).1 (splitLines stream).2 := by
  induction stream with
  | nil => exact ⟨rfl, by simp [splitLines], by simp [splitLines]⟩
  | cons c rest ih =>
    rcases split : splitLines rest with ⟨bodies, tail⟩
    rw [split] at ih
    obtain ⟨joined, bodiesFree, tailFree⟩ := ih
    by_cases newline : c = LF
    · simp only [splitLines, split, newline, ↓reduceIte]
      exact ⟨by simp [joined], by simpa using bodiesFree, tailFree⟩
    · cases bodies with
      | nil =>
        simp only [splitLines, split, newline, ↓reduceIte]
        refine ⟨by simpa using joined, by simp, ?_⟩
        simpa [eq_comm, newline] using tailFree
      | cons body more =>
        simp only [splitLines, split, newline, ↓reduceIte]
        refine ⟨by simp [joined], ?_, tailFree⟩
        rw [List.forall_mem_cons] at bodiesFree ⊢
        exact ⟨by simpa [eq_comm, newline] using bodiesFree.1, bodiesFree.2⟩

/-- A printed `int` is read, with all the white space behind it. -/
theorem fscanfInt_line (n : Int32) (rest : Text) :
    fscanfInt ⟨printInt n ++ LF :: rest, false⟩ =
      some (n, ⟨rest.dropWhile isSpace, (rest.dropWhile isSpace).isEmpty⟩) := by
  obtain ⟨first, more, shape, solid, _, digits, nonempty, all, sign⟩ := printInt_shape n
  have stop : isDigit LF = false := rfl
  have token : (printInt n ++ LF :: rest).dropWhile isSpace = printInt n ++ LF :: rest := by
    rw [shape, List.cons_append]
    exact List.dropWhile_cons_of_neg (by simp [solid])
  have taken : ((digits ++ LF :: rest).takeWhile isDigit).isEmpty = false := by
    rw [List.takeWhile_append_of_pos all]
    cases digits with
    | nil => exact absurd rfl nonempty
    | cons d ds => rfl
  have behind : ((digits ++ LF :: rest).dropWhile isDigit).dropWhile isSpace = rest.dropWhile isSpace := by
    rw [List.dropWhile_append_of_pos all, List.dropWhile_cons_of_neg (by simp [stop])]
    exact List.dropWhile_cons_of_pos rfl
  have read := atoi_printInt_stop n stop rest
  simp only [fscanfInt, token]
  rw [shape] at read ⊢
  rcases sign with ⟨rfl, rfl⟩ | ⟨notMinus, notPlus, whole⟩
  · simp only [List.cons_append] at read ⊢
    rw [taken, behind, read]
    simp
  · rw [whole] at read ⊢
    have plain : (match digits ++ LF :: rest with
        | 45 :: digits | 43 :: digits => digits
        | digits => digits) = digits ++ LF :: rest := by
      rw [← whole, List.cons_append]
      split
      · rename_i minus
        exact absurd (List.cons.inj minus).1 notMinus
      · rename_i plus
        exact absurd (List.cons.inj plus).1 notPlus
      · rfl
    rw [plain, taken, behind, read]
    simp

theorem takeLine_joined (n : Nat) (stream : Text) : (takeLine n stream).1 ++ (takeLine n stream).2.1 = stream := by
  induction n generalizing stream with
  | zero => rfl
  | succ n ih =>
    cases stream with
    | nil => rfl
    | cons c rest =>
      rw [takeLine]
      split
      · rfl
      · simp [ih rest]

/-- What is behind the bytes that are taken does not matter. -/
theorem takeLine_append {n : Nat} {stream line rest : Text} (taken : takeLine n stream = (line, rest, false)) (more : Text) :
    takeLine n (stream ++ more) = (line, rest ++ more, false) := by
  induction n generalizing stream line with
  | zero =>
    cases taken
    rfl
  | succ n ih =>
    cases stream with
    | nil => cases taken
    | cons c stream =>
      rw [takeLine] at taken
      rw [List.cons_append, takeLine]
      by_cases newline : c = LF
      · rw [if_pos newline] at taken ⊢
        cases taken
        rfl
      · rw [if_neg newline] at taken ⊢
        rcases later : takeLine n stream with ⟨front, behind, ended⟩
        rw [later] at taken
        cases taken
        rw [ih later]

theorem takeLine_line {n : Nat} {body : Text} (free : LF ∉ body) (room : body.length < n) (rest : Text) :
    takeLine n (body ++ LF :: rest) = (body ++ [LF], rest, false) := by
  induction body generalizing n with
  | nil =>
    obtain ⟨m, rfl⟩ := Nat.exists_eq_succ_of_ne_zero (Nat.ne_of_gt room)
    simp [takeLine]
  | cons c more ih =>
    obtain ⟨m, rfl⟩ := Nat.exists_eq_succ_of_ne_zero (Nat.ne_of_gt (Nat.lt_of_le_of_lt (Nat.zero_le _) room))
    simp only [List.mem_cons, not_or] at free
    simp only [List.length_cons] at room
    rw [List.cons_append, takeLine, if_neg (Ne.symm free.1), ih free.2 (by omega)]
    rfl

theorem takeLine_tail {n : Nat} {tail : Text} (free : LF ∉ tail) (room : tail.length < n) :
    takeLine n tail = (tail, [], true) := by
  induction tail generalizing n with
  | nil =>
    obtain ⟨m, rfl⟩ := Nat.exists_eq_succ_of_ne_zero (Nat.ne_of_gt room)
    rfl
  | cons c more ih =>
    obtain ⟨m, rfl⟩ := Nat.exists_eq_succ_of_ne_zero (Nat.ne_of_gt (Nat.lt_of_le_of_lt (Nat.zero_le _) room))
    simp only [List.mem_cons, not_or] at free
    simp only [List.length_cons] at room
    rw [takeLine, if_neg (Ne.symm free.1), ih free.2 (by omega)]

/-- What is taken of a text and a newline behind it: up to the first newline, or as
    much as there is room for. -/
theorem takeLine_sent (n : Nat) (text : Text) : ∃ front newline rest,
    takeLine n (text ++ [LF]) = (front ++ newline, rest, false) ∧ LF ∉ front ∧
      ((newline = [LF] ∧ front.length < n ∧ (front = text ∧ rest = [] ∨ ∃ post, text = front ++ LF :: post)) ∨
        newline = [] ∧ front.length = n ∧ ∃ post, text = front ++ post ∧ rest = post ++ [LF]) := by
  induction text generalizing n with
  | nil =>
    cases n with
    | zero => exact ⟨[], [], [LF], rfl, by simp, .inr ⟨rfl, rfl, [], rfl, rfl⟩⟩
    | succ n => exact ⟨[], [LF], [], rfl, by simp, .inl ⟨rfl, Nat.succ_pos n, .inl ⟨rfl, rfl⟩⟩⟩
  | cons c more ih =>
    cases n with
    | zero => exact ⟨[], [], c :: more ++ [LF], rfl, by simp, .inr ⟨rfl, rfl, c :: more, rfl, rfl⟩⟩
    | succ n =>
      by_cases newline : c = LF
      · subst newline
        exact ⟨[], [LF], more ++ [LF], by simp [takeLine], by simp, .inl ⟨rfl, Nat.succ_pos n, .inr ⟨more, rfl⟩⟩⟩
      · obtain ⟨front, ending, rest, taken, free, cases⟩ := ih n
        refine ⟨c :: front, ending, rest, ?_, by simp [free, Ne.symm newline], ?_⟩
        · rw [List.cons_append, takeLine, if_neg newline, taken]; rfl
        · rcases cases with ⟨terminated, short, whole | ⟨post, split⟩⟩ | ⟨cut, full, post, split, behind⟩
          · exact .inl ⟨terminated, by simpa using short, .inl ⟨by rw [whole.1], whole.2⟩⟩
          · exact .inl ⟨terminated, by simpa using short, .inr ⟨post, by rw [split]; rfl⟩⟩
          · exact .inr ⟨cut, by simpa using full, post, by rw [split]; rfl, behind⟩

/-- Bytes without a newline in front are taken first. -/
theorem takeLine_front {front : Text} (free : LF ∉ front) (n : Nat) (rest : Text) :
    takeLine (front.length + n) (front ++ rest) =
      (front ++ (takeLine n rest).1, (takeLine n rest).2) := by
  induction front with
  | nil => simp
  | cons c more ih =>
    simp only [List.mem_cons, not_or] at free
    rw [List.length_cons, show more.length + 1 + n = more.length + n + 1 by omega, List.cons_append, takeLine,
      if_neg (Ne.symm free.1), ih free.2]
    rfl

/-- A line that fits the buffer is read with its newline. -/
theorem fgets_line {size : Nat} {body : Text} (free : LF ∉ body) (room : body.length + 1 < size) (rest : Text) :
    fgets size ⟨body ++ LF :: rest, false⟩ = (some (body ++ [LF]), ⟨rest, false⟩) := by
  simp [fgets, takeLine_line free (show body.length < size - 1 by omega)]

/-- The bytes after the last newline are read to the end of the stream. -/
theorem fgets_tail {size : Nat} {tail : Text} (free : LF ∉ tail) (room : tail.length + 1 < size) :
    fgets size ⟨tail, false⟩ = (if tail = [] then none else some tail, ⟨[], true⟩) := by
  simp [fgets, takeLine_tail free (show tail.length < size - 1 by omega)]

/-- A read that gives a byte leaves fewer of them. -/
theorem fgets_shorter {size : Nat} {file behind : FILE} {line : Text}
    (read : fgets size file = (some line, behind)) (nonempty : line ≠ []) : behind.rest.length < file.rest.length := by
  have joined := takeLine_joined (size - 1) file.rest
  rcases taken : takeLine (size - 1) file.rest with ⟨front, back, ended⟩
  simp only [taken, fgets, Prod.mk.injEq] at read joined
  obtain ⟨got, rfl⟩ := read
  split at got
  · cases got
  · cases got
    have longer := List.length_pos_of_ne_nil nonempty
    change back.length < file.rest.length
    rw [← joined, List.length_append]
    omega

theorem takeLine_empty (n : Nat) (stream : Text) (empty : (takeLine (n + 1) stream).1 = []) :
    (takeLine (n + 1) stream).2.2 = true := by
  cases stream with
  | nil => rfl
  | cons c rest =>
    rw [takeLine] at empty
    split at empty <;> cases empty

/-- A read that does not meet the end of the stream leaves fewer bytes. -/
theorem fgets_progress {size : Nat} {file behind : FILE} {result : Option Text} (room : 1 < size)
    (read : fgets size file = (result, behind)) (more : feof behind = false) :
    behind.rest.length < file.rest.length := by
  obtain ⟨n, rfl⟩ : ∃ n, size = n + 2 := ⟨size - 2, by omega⟩
  have atEnd := takeLine_empty n file.rest
  cases result with
  | some line =>
    refine fgets_shorter read ?_
    rintro rfl
    simp only [fgets, Prod.mk.injEq, show n + 2 - 1 = n + 1 from rfl] at read
    obtain ⟨got, rfl⟩ := read
    split at got
    · cases got
    · simp [feof, atEnd (Option.some.inj got)] at more
  | none =>
    simp only [fgets, Prod.mk.injEq, show n + 2 - 1 = n + 1 from rfl] at read
    obtain ⟨got, rfl⟩ := read
    split at got
    · simp_all [feof]
    · cases got

end VoxiUtil.Stdio
