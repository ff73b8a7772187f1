import VoxiUtil.Sock
import VoxiUtil.TextRpcLines

/-!
The way of a request and of its answer over the connection: written as a line,
read by the line reader of the peer and taken apart by its handler.
-/
namespace VoxiUtil.TextRpcFraming
open VoxiUtil.CString VoxiUtil.Stdio VoxiUtil.File VoxiUtil.Sock VoxiUtil.Hash VoxiUtil.Strbuf VoxiUtil.TextRpc
open VoxiUtil.TextRpcLines
variable {size : Nat} [NeZero size]

/-- The lines that are read from bytes on an open connection. A read that would need
    more bytes waits for them. -/
def receivedLines (bytes : Text) : Option (List Text) :=
  if _ended : feof (readPastComments bufSize ⟨bytes, false⟩ []).2.2 = true then some []
  else do
    let (_, line, _) ← fileReadLine ⟨bytes, false⟩ [] bufSize 0
    let rest ← receivedLines (readPastComments bufSize ⟨bytes, false⟩ []).2.2.rest
    return line :: rest
termination_by bytes.length
decreasing_by
  have shorter := @readPastComments_progress bufSize ⟨bytes, false⟩ _ [] _ _ (by decide) rfl (by simpa using _ended)
  exact shorter

/-- What the handler does for lines that come one after another, while nothing fails. -/
def handleLines (latest : Int32) (client : Connection size) : List Text → Option (List Effect)
  | [] => some []
  | line :: rest =>
    match connectionSockHandler latest ⟨true, true⟩ client line with
    | .error _ => none
    | .ok (after, effects) => (handleLines latest after rest).map (fun more => effects ++ more)

/-- What the handler does for received bytes. -/
def receive (latest : Int32) (client : Connection size) (bytes : Text) : Option (List Effect) :=
  (receivedLines bytes).bind (handleLines latest client)

theorem receivedLines_nil : receivedLines [] = some [] := by
  rw [receivedLines, readPastComments_eq, fgets_tail (by simp) (by decide)]
  rfl

/-- A read that fills the buffer or meets a newline gives a line. -/
theorem receivedLines_cons {bytes line rest : Text} (taken : takeLine 9999 bytes = (line, rest, false))
    (content : isComment line = false) (noNul : 0 ∉ line) :
    receivedLines bytes =
      if chomp line = [] then none else (receivedLines rest).map (fun lines => chomp line :: lines) := by
  have got : fgets bufSize ⟨bytes, false⟩ = (some line, ⟨rest, false⟩) := by
    simp [fgets, bufSize, taken]
  have scanned : readPastComments bufSize ⟨bytes, false⟩ [] = (true, line, ⟨rest, false⟩) := by
    rw [readPastComments_eq, got]
    simp [content]
  rw [receivedLines, scanned, fileReadLine_line 0 scanned, cString_of_noNul noNul]
  by_cases blank : chomp line = []
  · simp [blank, feof]
  · cases receivedLines rest <;> simp [blank, feof]

theorem receivedLines_blank : receivedLines [LF] = none := by
  have taken : takeLine 9999 [LF] = ([LF], [], false) := rfl
  rw [receivedLines_cons taken rfl (by decide)]
  rfl

/-- A request or an answer up to its text: the letter of its kind, and the id. -/
def head (kind : UInt8) (id : Int32) : Text := [kind, byte ' '] ++ printInt id ++ [byte ' ']

/-- The whole line. -/
def frame (kind : UInt8) (id : Int32) (text : Text) : Text := head kind id ++ text ++ [LF]

theorem head_length (kind : UInt8) (id : Int32) : (head kind id).length = (printInt id).length + 3 := by
  simp [head]

/-- A frame that is read whole has a text without newline characters to cut off. -/
structure Readable (kind : UInt8) (id : Int32) (text : Text) : Prop where
  oneLine : LF ∉ text
  ending : text.getLast? ≠ some CR
  fits : (frame kind id text).length ≤ 9999

private theorem head_free {kind c : UInt8} (id : Int32) (other : kind ≠ c) (sign : c ≠ 45) (digit : isDigit c = false)
    (blank : c ≠ byte ' ') : c ∉ head kind id := by
  have digits : c ∉ printInt id := printInt_free id sign digit
  simp [head, digits, other.symm, blank]

/-- The id keeps what is in front of the text. -/
private theorem head_chomp (kind : UInt8) (id : Int32) {newline : Text} (ending : newline = [LF] ∨ newline = [])
    (front : Text) : chomp (head kind id ++ (front ++ newline)) = head kind id ++ chomp front := by
  have blank : isNewline (byte ' ') = false := by decide
  have cut : chomp (front ++ newline) = chomp front := by
    rcases ending with rfl | rfl
    · exact chomp_newline front
    · rw [List.append_nil]
  have moved := chomp_append ([kind, byte ' '] ++ printInt id) blank (front ++ newline)
  rw [cut] at moved
  simpa [head] using moved

/-- What is read of a frame: it ends with the newline of the text, or with the first one
    in it, or where the buffer does. -/
private theorem frame_taken {kind : UInt8} (visible : kind ≠ LF) (id : Int32) (text : Text) : ∃ front newline rest,
    takeLine 9999 (frame kind id text) = (head kind id ++ (front ++ newline), rest, false) ∧ LF ∉ front ∧
      ((newline = [LF] ∧ front.length < 9999 - (head kind id).length ∧
        (front = text ∧ rest = [] ∨ ∃ post, text = front ++ LF :: post)) ∨
      newline = [] ∧ front.length = 9999 - (head kind id).length ∧ ∃ post, text = front ++ post ∧ rest = post ++ [LF]) := by
  have short : (head kind id).length ≤ 14 := by have := printInt_length id; rw [head_length]; omega
  have lead : LF ∉ head kind id := head_free id visible (by decide) rfl (by decide)
  obtain ⟨front, newline, rest, taken, free, cases⟩ := takeLine_sent (9999 - (head kind id).length) text
  have first := takeLine_front lead (9999 - (head kind id).length) (text ++ [LF])
  rw [taken, show (head kind id).length + (9999 - (head kind id).length) = 9999 by omega] at first
  refine ⟨front, newline, rest, ?_, free, cases⟩
  rw [frame, List.append_assoc, first]

/-- The first line that is read of a frame has the text up to where it is cut. It is
    the whole text only if nothing is left to read, or if just the newline is. -/
theorem frame_received (kind : UInt8) (visible : kind ≠ LF ∧ kind ≠ 0 ∧ kind ≠ byte '#') (id : Int32) {text : Text}
    (noNul : 0 ∉ text) : ∃ front rest,
    receivedLines (frame kind id text) =
      (receivedLines rest).map (fun lines => (head kind id ++ chomp front) :: lines) ∧
      (chomp front = text → Readable kind id text ∨ rest = [LF]) ∧
      (Readable kind id text → front = text ∧ rest = []) := by
  have total : (frame kind id text).length = (head kind id).length + text.length + 1 := by simp [frame]; omega
  obtain ⟨front, newline, rest, whole, free, cases⟩ := frame_taken visible.1 id text
  have ending : newline = [LF] ∨ newline = [] := cases.imp (fun left => left.1) (fun right => right.1)
  have start : ∃ post, text = front ++ post := by
    rcases cases with ⟨_, _, ⟨rfl, _⟩ | ⟨post, rfl⟩⟩ | ⟨_, _, post, rfl, _⟩
    · exact ⟨[], (List.append_nil front).symm⟩
    · exact ⟨LF :: post, rfl⟩
    · exact ⟨post, rfl⟩
  have shorter : front.length ≤ text.length := by
    obtain ⟨post, split⟩ := start
    rw [split, List.length_append]
    omega
  have lineNul : 0 ∉ head kind id ++ (front ++ newline) := by
    obtain ⟨post, split⟩ := start
    have leadNul : 0 ∉ head kind id := head_free id visible.2.1 (by decide) rfl (by decide)
    have frontNul : 0 ∉ front := fun zero => noNul (split ▸ List.mem_append_left post zero)
    have newlineNul : 0 ∉ newline := by rcases ending with rfl | rfl <;> decide
    simp only [List.mem_append, not_or]
    exact ⟨leadNul, frontNul, newlineNul⟩
  refine ⟨front, rest, ?_, fun same => ?_, fun readable => ?_⟩
  · have content : isComment (head kind id ++ (front ++ newline)) = false := by
      simpa [head, isComment] using visible.2.2
    rw [receivedLines_cons whole content lineNul, head_chomp kind id ending, if_neg (by simp [head])]
  · have lengths := chomp_length front
    rw [same] at lengths
    rcases cases with ⟨_, room, ⟨equal, _⟩ | ⟨post, split⟩⟩ | ⟨_, _, post, split, behind⟩
    · subst equal
      refine .inl ⟨free, fun ret => ?_, by omega⟩
      rw [chomp, List.rdropWhile_eq_self_iff] at same
      obtain ⟨init, shape⟩ := List.getLast?_eq_some_iff.mp ret
      have last := same (by simp [shape])
      simp [shape, isNewline] at last
    · rw [split] at lengths
      simp at lengths
    · right
      rw [split, List.length_append] at lengths
      rw [behind, List.eq_nil_of_length_eq_zero (show post.length = 0 by omega)]
      rfl
  · have fits := readable.fits
    rcases cases with ⟨_, _, equal | ⟨post, split⟩⟩ | ⟨_, full, _⟩
    · exact equal
    · exact absurd (by rw [split]; simp) readable.oneLine
    · omega

theorem keyword_head (kind : UInt8) (solid : kind ≠ byte ' ') (rest : Text) :
    keyword ([kind, byte ' '] ++ rest) = [kind] ∧ fields ([kind, byte ' '] ++ rest) = some rest :=
  word_line (show byte ' ' ∉ [kind] by simpa using solid.symm) rest

theorem printInt_blank (id : Int32) : ∀ b ∈ printInt id, b ∉ lit " \t" := by
  have blank : byte ' ' ∉ printInt id := printInt_free id (by decide) rfl
  have tab : byte '\t' ∉ printInt id := printInt_free id (by decide) rfl
  have delimiters : lit " \t" = [byte ' ', byte '\t'] := by decide
  intro b member
  simp only [delimiters, List.mem_cons, List.not_mem_nil, or_false, not_or]
  exact ⟨fun same => blank (same ▸ member), fun same => tab (same ▸ member)⟩

/-- What is sent for a request. -/
theorem callText_eq (id : Int32) (text : Text) :
    callText id text = if (frame (byte 'C') id text).length < 10000 then some (frame (byte 'C') id text) else none := rfl

theorem answerText_null (id : Int32) :
    answerText id (.result none) = some ([byte 'R', byte ' '] ++ printInt id ++ [LF]) := by
  have short := printInt_length id
  have first : strbufCreate 256 = ⟨[], 256, 256 - ([] : Text).length, 257⟩ := rfl
  rw [answerText, first, sprintf_cons, put_char _ (by simp), Option.bind_some, sprintf_cons, put_char _ (by simp),
    Option.bind_some, sprintf_cons, put_text (by simp; omega), Option.bind_some, sprintf_cons,
    put_char _ (by simp; omega), Option.bind_some, strbufSprintf, List.foldlM_nil, Option.pure_def, Option.bind_eq_bind,
    Option.bind_some, if_pos (by simp; omega), Option.map_some]
  rfl

theorem answerText_some (id : Int32) (text : Text) :
    answerText id (.result (some text)) =
      if (frame (byte 'R') id text).length = 512 ∨ (frame (byte 'R') id text).length = 513 then none
      else some (frame (byte 'R') id text) := by
  have short := printInt_length id
  have length := head_length (byte 'R') id
  have total : (frame (byte 'R') id text).length = (head (byte 'R') id).length + text.length + 1 := by simp [frame]; omega
  have first : strbufCreate 256 = ⟨[], 256, 256 - ([] : Text).length, 257⟩ := rfl
  have front : [] ++ [byte 'R'] ++ [byte ' '] ++ printInt id ++ [byte ' '] = head (byte 'R') id := by simp [head]
  rw [answerText, first, sprintf_cons, put_char _ (by simp), Option.bind_some, sprintf_cons, put_char _ (by simp),
    Option.bind_some, sprintf_cons, put_text (by simp; omega), Option.bind_some, sprintf_cons,
    put_char _ (by simp; omega), Option.bind_some, front, sprintf_first _ (by omega)]
  have same : (head (byte 'R') id).length + text.length = 511 ∨ (head (byte 'R') id).length + text.length = 512 ↔
      (frame (byte 'R') id text).length = 512 ∨ (frame (byte 'R') id text).length = 513 := by rw [total]; omega
  simp only [same]
  rfl

theorem head_append (kind : UInt8) (id : Int32) (text : Text) :
    head kind id ++ text = [kind, byte ' '] ++ (printInt id ++ byte ' ' :: text) := by
  simp [head]

/-- The handler of a request starts a thread with the id and the text. -/
theorem request_handled (latest : Int32) {peer : Connection size} (running : peer.protocolState = .running) (id : Int32)
    (text : Text) : connectionSockHandler latest ⟨true, true⟩ peer (head (byte 'C') id ++ text) =
      .ok (peer, [.runCall (printInt id ++ byte ' ' :: text)]) := by
  obtain ⟨word, rest⟩ := keyword_head (byte 'C') (by decide) (printInt id ++ byte ' ' :: text)
  simp only [connectionSockHandler, running, runningMessage_eq, head_append, word, rest]
  rfl

/-- That thread takes them apart again. -/
theorem request_parsed (id : Int32) (text : Text) :
    incomingCall (printInt id ++ byte ' ' :: text) = .ok (id, some text) := by
  have free : ∀ b ∈ printInt id, b ∉ lit " " := by
    have blank : byte ' ' ∉ printInt id := printInt_free id (by decide) rfl
    have delimiter : lit " " = [byte ' '] := by decide
    intro b member
    rw [delimiter, List.mem_singleton]
    exact fun same => blank (same ▸ member)
  simp [incomingCall, strsep_found free (show byte ' ' ∈ lit " " by decide), assertToken, atoi_printInt, bind,
    Except.bind, pure, Except.pure]

private theorem answer_stored (latest : Int32) {client : Connection size} (running : client.protocolState = .running)
    {call : OutstandingCall} {message : Text} {id : Int32} {result : Option Text}
    (parsed : strsep (some message) (lit " \t") = (some (printInt id), result))
    (outstanding : hashFind client.outstandingCalls ⟨id, 0⟩ = some call) :
    connectionSockHandler latest ⟨true, true⟩ client ([byte 'R', byte ' '] ++ message) =
      .ok (storeAnswer client call (.result result), [.finish call (.result result)]) := by
  obtain ⟨word, rest⟩ := keyword_head (byte 'R') (by decide) message
  have kind : strcaseEq [byte 'R'] (lit "C") = false ∧ strcaseEq [byte 'R'] (lit "R") = true := by decide
  simp only [connectionSockHandler, running, runningMessage_eq, word, rest, kind, handleReturn_eq, parsed, atoi_printInt,
    outstanding, makeAnswer, Bool.false_eq_true, if_false, if_true]

/-- The handler of an answer stores its text in the call of its id. -/
theorem answer_handled (latest : Int32) {client : Connection size} (running : client.protocolState = .running)
    {call : OutstandingCall} {id : Int32} (outstanding : hashFind client.outstandingCalls ⟨id, 0⟩ = some call)
    (text : Text) : connectionSockHandler latest ⟨true, true⟩ client (head (byte 'R') id ++ text) =
      .ok (storeAnswer client call (.result (some text)), [.finish call (.result (some text))]) := by
  rw [head_append]
  exact answer_stored latest running (strsep_found (printInt_blank id) (by decide)) outstanding

/-- The same for an answer without a text, which stands for a null result. -/
theorem null_handled (latest : Int32) {client : Connection size} (running : client.protocolState = .running)
    {call : OutstandingCall} {id : Int32} (outstanding : hashFind client.outstandingCalls ⟨id, 0⟩ = some call) :
    connectionSockHandler latest ⟨true, true⟩ client ([byte 'R', byte ' '] ++ printInt id) =
      .ok (storeAnswer client call (.result none), [.finish call (.result none)]) :=
  answer_stored latest running (strsep_last (printInt_blank id)) outstanding

/-- A request reaches the dispatch function of the peer once, with its id and text. -/
def RequestArrives (latest : Int32) (peer : Connection size) (id : Int32) (text : Text) : Prop :=
  ∃ bytes input, callText id text = some bytes ∧ receive latest peer bytes = some [.runCall input] ∧
    incomingCall input = .ok (id, some text)

/-- The result of a call is returned to it once. -/
def AnswerArrives (latest : Int32) (client : Connection size) (id : Int32) (call : OutstandingCall)
    (result : Option Text) : Prop :=
  ∃ bytes, answerText id (.result result) = some bytes ∧
    receive latest client bytes = some [.finish call (.result result)]

/-- What a result must be for its way back. -/
def Returnable (id : Int32) : Option Text → Prop
  | none => True
  | some text => Readable (byte 'R') id text ∧ (frame (byte 'R') id text).length ≠ 512 ∧
      (frame (byte 'R') id text).length ≠ 513

private theorem receive_frame {latest : Int32} {client after : Connection size} {bytes line rest : Text}
    {effects : List Effect} (lines : receivedLines bytes = (receivedLines rest).map (fun lines => line :: lines))
    (handled : connectionSockHandler latest ⟨true, true⟩ client line = .ok (after, effects)) :
    receive latest client bytes = (receive latest after rest).map (fun more => effects ++ more) := by
  rw [receive, lines, receive]
  cases receivedLines rest with
  | none => rfl
  | some more => simp [handleLines, handled]

private theorem receive_nil (latest : Int32) (client : Connection size) : receive latest client [] = some [] := by
  rw [receive, receivedLines_nil]; rfl

private theorem receive_blank (latest : Int32) (client : Connection size) : receive latest client [LF] = none := by
  rw [receive, receivedLines_blank]; rfl

private theorem chomp_readable {kind : UInt8} {id : Int32} {text : Text} (readable : Readable kind id text) :
    chomp text = text := chomp_self readable.oneLine readable.ending

/-- A request arrives just when its line is readable. -/
theorem request_iff (latest : Int32) {peer : Connection size} (running : peer.protocolState = .running) (id : Int32)
    {text : Text} (noNul : 0 ∉ text) : RequestArrives latest peer id text ↔ Readable (byte 'C') id text := by
  obtain ⟨front, rest, lines, whole, readableWhole⟩ := frame_received (byte 'C') (by decide) id noNul
  have received := receive_frame lines (request_handled latest running id (chomp front))
  constructor
  · rintro ⟨bytes, input, sent, arrived, parsed⟩
    rw [callText_eq] at sent
    split at sent
    · rename_i fits
      cases sent
      rw [received] at arrived
      obtain ⟨more, behind, same⟩ := Option.map_eq_some_iff.mp arrived
      simp only [List.singleton_append, List.cons.injEq, Effect.runCall.injEq] at same
      rw [← same.1, request_parsed] at parsed
      rcases whole (by simpa using parsed) with readable | blank
      · exact readable
      · rw [blank, receive_blank] at behind; cases behind
    · cases sent
  · intro readable
    obtain ⟨rfl, rfl⟩ := readableWhole readable
    refine ⟨_, _, ?_, by rw [received, receive_nil]; rfl, ?_⟩
    · have fits := readable.fits
      rw [callText_eq, if_pos (by omega)]
    · rw [request_parsed, chomp_readable readable]

/-- A short line is read as it was written. -/
theorem line_received {body : Text} (oneLine : LF ∉ body) (noNul : 0 ∉ body) (noReturn : CR ∉ body) (nonempty : body ≠ [])
    (content : isComment (body ++ [LF]) = false) (fits : body.length < 9999) :
    receivedLines (body ++ [LF]) = some [body] := by
  have taken := takeLine_line oneLine fits []
  have trimmed : chomp (body ++ [LF]) = body := by
    rw [chomp_newline]
    exact chomp_self oneLine (fun last => noReturn (List.mem_of_getLast? last))
  have lineNul : 0 ∉ body ++ [LF] := by
    rw [List.mem_append, not_or]
    exact ⟨noNul, by decide⟩
  rw [receivedLines_cons taken content lineNul, trimmed, if_neg nonempty, receivedLines_nil]
  rfl

private theorem null_received (id : Int32) :
    receivedLines ([byte 'R', byte ' '] ++ printInt id ++ [LF]) = some [[byte 'R', byte ' '] ++ printInt id] := by
  have short := printInt_length id
  have free : ∀ c : UInt8, c ≠ byte 'R' → c ≠ byte ' ' → c ∉ printInt id → c ∉ [byte 'R', byte ' '] ++ printInt id := by
    intro c letter blank digits
    simp [letter, blank, digits]
  refine line_received (free LF (by decide) (by decide) (printInt_free id (by decide) rfl))
    (free 0 (by decide) (by decide) (printInt_free id (by decide) rfl))
    (free CR (by decide) (by decide) (printInt_free id (by decide) rfl)) (by simp) rfl ?_
  simp
  omega

/-- A result arrives just when it is null or its line is readable and the buffer
    that it is written in does not overflow. -/
theorem answer_iff (latest : Int32) {client : Connection size} (running : client.protocolState = .running) {id : Int32}
    {call : OutstandingCall} (outstanding : hashFind client.outstandingCalls ⟨id, 0⟩ = some call) {result : Option Text}
    (noNul : ∀ text, result = some text → 0 ∉ text) :
    AnswerArrives latest client id call result ↔ Returnable id result := by
  cases result with
  | none =>
    refine ⟨fun _ => trivial, fun _ => ⟨_, answerText_null id, ?_⟩⟩
    have lines := (null_received id).trans (congrArg (Option.map _) receivedLines_nil).symm
    rw [receive_frame lines (null_handled latest running outstanding), receive_nil]
    rfl
  | some text =>
    obtain ⟨front, rest, lines, whole, readableWhole⟩ := frame_received (byte 'R') (by decide) id (noNul text rfl)
    have received := receive_frame lines (answer_handled latest running outstanding (chomp front))
    constructor
    · rintro ⟨bytes, sent, arrived⟩
      rw [answerText_some] at sent
      split at sent
      · cases sent
      · rename_i room
        cases sent
        rw [received] at arrived
        obtain ⟨more, behind, same⟩ := Option.map_eq_some_iff.mp arrived
        simp only [List.singleton_append, List.cons.injEq, Effect.finish.injEq, Answer.result.injEq, Option.some.injEq,
          true_and] at same
        rcases whole same.1 with readable | blank
        · exact ⟨readable, fun length => room (.inl length), fun length => room (.inr length)⟩
        · rw [blank, receive_blank] at behind; cases behind
    · rintro ⟨readable, notDoubled, notEnded⟩
      obtain ⟨rfl, rfl⟩ := readableWhole readable
      refine ⟨_, by rw [answerText_some, if_neg (by simp [notDoubled, notEnded])], ?_⟩
      rw [received, receive_nil, chomp_readable readable]
      rfl

/-- A request and its result make their way just when their lines are readable and
    the buffers that they are written in do not overflow. -/
theorem framing_iff (latest : Int32) {other : Nat} [NeZero other] {peer : Connection size} {client : Connection other}
    (peerRuns : peer.protocolState = .running) (clientRuns : client.protocolState = .running) (id : Int32)
    {text : Text} (textNoNul : 0 ∉ text)
    {call : OutstandingCall} (outstanding : hashFind client.outstandingCalls ⟨id, 0⟩ = some call) {result : Option Text}
    (resultNoNul : ∀ text, result = some text → 0 ∉ text) :
    (RequestArrives latest peer id text ↔ Readable (byte 'C') id text) ∧
      (AnswerArrives latest client id call result ↔ Returnable id result) :=
  ⟨request_iff latest peerRuns id textNoNul, answer_iff latest clientRuns outstanding resultNoNul⟩

/-- A running connection with one call, whose id is 1. -/
def oneCall : Connection 16 :=
  { (connectionCreate 0 false : Connection 16) with
    protocolState := .running
    outstandingCalls := (hashAdd (hashCreateTable (callFuncs 16)) ⟨1, 5⟩ (some 7)).1 }

theorem framing_iff_oneCall :
    (RequestArrives 0 oneCall 1 (lit "add 1 2") ↔ Readable (byte 'C') 1 (lit "add 1 2")) ∧
      (AnswerArrives 0 oneCall 1 ⟨1, 5⟩ (some []) ↔ Returnable 1 (some [])) :=
  framing_iff 0 rfl rfl 1 (by decide) rfl (by rintro _ ⟨⟩; simp)

/-- A request of two lines reaches the dispatch function with its first line only. -/
theorem framing_fails : receive 0 oneCall (frame (byte 'C') 1 (lit "a\nb")) = some [.runCall (lit "1 a")] ∧
    callText 1 (lit "a\nb") = some (frame (byte 'C') 1 (lit "a\nb")) ∧ ¬ RequestArrives 0 oneCall 1 (lit "a\nb") := by
  refine ⟨?_, by decide, ?_⟩
  · have first : takeLine 9999 (frame (byte 'C') 1 (lit "a\nb")) = (lit "C 1 a\n", lit "b\n", false) := by decide
    have second : takeLine 9999 (lit "b\n") = (lit "b\n", [], false) := by decide
    have cut : chomp (lit "C 1 a\n") = lit "C 1 a" ∧ chomp (lit "b\n") = lit "b" := by decide
    rw [receive, receivedLines_cons first (by decide) (by decide), receivedLines_cons second (by decide) (by decide),
      cut.1, cut.2, receivedLines_nil]
    decide
  · rw [request_iff 0 rfl 1 (by decide)]
    exact fun readable => readable.oneLine (by decide)

end VoxiUtil.TextRpcFraming
