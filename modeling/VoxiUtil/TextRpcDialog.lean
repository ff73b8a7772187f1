import VoxiUtil.TextRpcReplies

/-!
Two parties of `textRPC.c` that call each other over one socket. Each of them calls
and answers: the threads of `textRPC_call`, the thread that reads lines, and a thread
of `call_threadFunc` for each request that was read. What a party writes goes behind
what is in flight to the other one, byte by byte.
-/
namespace VoxiUtil.TextRpcDialog
open VoxiUtil.CString VoxiUtil.Stdio VoxiUtil.File VoxiUtil.Sock VoxiUtil.Hash VoxiUtil.Runs VoxiUtil.TextRpc
open VoxiUtil.TextRpcLines VoxiUtil.TextRpcFraming VoxiUtil.TextRpcCalls VoxiUtil.TextRpcReplies
open VoxiUtil.Err (errBuffSize)
variable {size other : Nat} [NeZero size] [NeZero other]

deriving instance DecidableEq for Dispatched

/-- One end of the connection: its own calls, the inputs of the threads that have not called
    the dispatch function yet, what the others have to answer, and all calls of that function,
    each with its id and text and what it gave. -/
structure Party (size : Nat) [NeZero size] where
  calls : State size
  threads : List Text
  answers : List (Int32 × Dispatched)
  log : List (Int32 × Option Text × Dispatched)

/-- A step of a call that writes and reads nothing, the writing of a request, the reading of a
    request and of a reply, and the two halves of `call_threadFunc`. -/
inductive Act where
  | own (a : Label)
  | request (k : Nat)
  | accept
  | settle (id : Int32) (reply : Dispatched)
  | dispatch (input : Text) (reply : Dispatched)
  | answer (id : Int32) (reply : Dispatched)

/-- A line from the bytes in flight. A read that needs more of them waits. -/
def readLine (incoming : Text) : Option (Text × Text) :=
  match fileReadLine ⟨incoming, false⟩ [] bufSize 0 with
  | some (_, line, behind) => if feof behind then none else some (line, behind.rest)
  | none => none

def onWire : Label → Bool
  | .send _ _ | .receive _ _ => true
  | _ => false

/-- The party after an act, the bytes that are still in flight to it, and those that it has
    written. `texts` has the text of each of its calls. -/
def partyStep (latest : Int32) (texts : Nat → Text) (p : Party size) (incoming : Text) :
    Act → Option (Party size × Text × Text)
  | .own a => if onWire a then none else (step p.calls a).map fun calls => ({ p with calls }, incoming, [])
  | .request k =>
    (callText (p.calls.ids k) (texts k)).bind fun bytes =>
      (step p.calls (.send k none)).map fun calls => ({ p with calls }, incoming, bytes)
  | .accept =>
    (readLine incoming).bind fun read =>
      match p.calls.receiver, connectionSockHandler latest ⟨true, true⟩ p.calls.connection read.1 with
      | .idle, .ok (_, [.runCall input]) => some ({ p with threads := input :: p.threads }, read.2, [])
      | _, _ => none
  | .settle id reply =>
    (readLine incoming).bind fun read =>
      if read.1 = replyLine id reply then
        (step p.calls (.receive id reply)).map fun calls => ({ p with calls }, read.2, [])
      else none
  | .dispatch input reply =>
    match incomingCall input with
    | .ok (id, text) =>
      if p.threads.contains input then
        some ({ p with threads := p.threads.erase input, answers := (id, reply) :: p.answers
                       log := (id, text, reply) :: p.log }, incoming, [])
      else none
    | .error _ => none
  | .answer id reply =>
    if p.answers.contains (id, reply) then
      (answerText id reply).map fun bytes => ({ p with answers := p.answers.erase (id, reply) }, incoming, bytes)
    else none

/-- Both parties, and what is in flight to each of them. -/
structure World (size other : Nat) [NeZero size] [NeZero other] where
  left : Party size
  right : Party other
  toLeft : Text
  toRight : Text

inductive Move where
  | left (a : Act)
  | right (a : Act)

def worldStep (latest : Int32) (textsLeft textsRight : Nat → Text) (w : World size other) : Move → Option (World size other)
  | .left a => (partyStep latest textsLeft w.left w.toLeft a).map fun out =>
      { w with left := out.1, toLeft := out.2.1, toRight := w.toRight ++ out.2.2 }
  | .right a => (partyStep latest textsRight w.right w.toRight a).map fun out =>
      { w with right := out.1, toRight := out.2.1, toLeft := w.toLeft ++ out.2.2 }

/-- A reply that comes out at the caller as the dispatch function gave it. -/
def Deliverable (id : Int32) : Dispatched → Prop
  | .result result => Returnable id result ∧ ∀ text, result = some text → 0 ∉ text
  | .error text => Readable (byte 'E') id text ∧ 0 ∉ text ∧ 37 ∉ text ∧ text.length < errBuffSize

/-- Fewer than 2^32 calls, with texts that can be sent, and such replies. -/
def Allowed (texts : Nat → Text) (p : Party size) : Act → Prop
  | .own a => Premise p.calls a
  | .request k => Readable (byte 'C') (p.calls.ids k) (texts k) ∧ 0 ∉ texts k
  | .dispatch input reply => ∀ id text, incomingCall input = .ok (id, text) → Deliverable id reply
  | _ => True

def Permitted (textsLeft textsRight : Nat → Text) (w : World size other) : Move → Prop
  | .left a => Allowed textsLeft w.left a
  | .right a => Allowed textsRight w.right a

def opening (size : Nat) [NeZero size] (first protocolVersion : Int32) : Party size :=
  ⟨initial size first protocolVersion true, [], [], []⟩

/-- The server counts its calls from 0 and the client from 1. -/
def start (size other : Nat) [NeZero size] [NeZero other] (protocolVersion : Int32) : World size other :=
  ⟨opening size 0 protocolVersion, opening other 1 protocolVersion, [], []⟩

/-! ### The lines in flight -/

/-- A request with its text, or a reply. -/
inductive Item where
  | call (id : Int32) (text : Text)
  | back (id : Int32) (reply : Dispatched)

def Item.line : Item → Text
  | .call id text => head (byte 'C') id ++ text
  | .back id reply => replyLine id reply

/-- The bytes that the lines are written as. -/
def stream (items : List Item) : Text := items.flatMap fun item => item.line ++ [LF]

def Item.Fits : Item → Prop
  | .call id text => Readable (byte 'C') id text ∧ 0 ∉ text
  | .back id reply => Deliverable id reply

def Item.asks : Item → Option (Int32 × Text)
  | .call id text => some (id, text)
  | .back _ _ => none

def Item.settles : Item → Option (Int32 × Dispatched)
  | .call _ _ => none
  | .back id reply => some (id, reply)

theorem stream_cons (item : Item) (items : List Item) : stream (item :: items) = item.line ++ LF :: stream items := by
  simp [stream]

theorem stream_concat (items : List Item) (item : Item) : stream (items ++ [item]) = stream items ++ (item.line ++ [LF]) := by
  simp [stream]

theorem stream_eq_nil {items : List Item} (nothing : stream items = []) : items = [] := by
  cases items with
  | nil => rfl
  | cons item items => simp [stream_cons] at nothing

/-- A line that is read as it was written. -/
structure Legible (line : Text) : Prop where
  clean : LF ∉ line ∧ 0 ∉ line
  ending : line.getLast? ≠ some CR
  plain : line ≠ [] ∧ isComment line = false
  room : line.length + 1 < bufSize

theorem legible_read {line : Text} (legible : Legible line) (rest : Text) :
    readLine (line ++ LF :: rest) = some (line, rest) := by
  rw [readLine, fileReadLine_body legible.clean legible.ending legible.plain legible.room]
  rfl

private theorem framed_legible {kind : UInt8} (visible : kind ≠ LF ∧ kind ≠ 0 ∧ kind ≠ byte '#') {id : Int32} {text : Text}
    (readable : Readable kind id text) (noNul : 0 ∉ text) : Legible (head kind id ++ text) := by
  have line : LF ∉ printInt id := printInt_free id (by decide) rfl
  have zero : 0 ∉ printInt id := printInt_free id (by decide) rfl
  have fits := readable.fits
  refine ⟨⟨?_, ?_⟩, ?_, ⟨by simp [head], ?_⟩, ?_⟩
  · simp [head, line, readable.oneLine, visible.1.symm, show LF ≠ byte ' ' by decide]
  · simp [head, zero, noNul, visible.2.1.symm, show (0 : UInt8) ≠ byte ' ' by decide]
  · cases last : text.getLast? with
    | none =>
      have shape : head kind id ++ text = [kind, byte ' '] ++ printInt id ++ [byte ' '] := by
        simp [head, List.getLast?_eq_none_iff.mp last]
      rw [shape, List.getLast?_concat]
      decide
    | some c => simpa [List.getLast?_append, last] using readable.ending
  · simpa [head, isComment] using visible.2.2
  · simp only [frame, List.length_append, List.length_singleton] at fits
    simp only [List.length_append, bufSize]
    omega

private theorem bare_legible (id : Int32) : Legible ([byte 'R', byte ' '] ++ printInt id) := by
  have free : ∀ c : UInt8, c ≠ byte 'R' → c ≠ byte ' ' → c ∉ printInt id → c ∉ [byte 'R', byte ' '] ++ printInt id := by
    intro c letter blank digits
    simp [letter, blank, digits]
  have short := printInt_length id
  refine ⟨⟨free LF (by decide) (by decide) (printInt_free id (by decide) rfl),
    free 0 (by decide) (by decide) (printInt_free id (by decide) rfl)⟩, fun last => ?_, ⟨by simp, rfl⟩, ?_⟩
  · exact free CR (by decide) (by decide) (printInt_free id (by decide) rfl) (List.mem_of_getLast? last)
  · simp only [List.length_append, List.length_cons, List.length_nil, bufSize]
    omega

theorem item_legible {item : Item} (fits : item.Fits) : Legible item.line := by
  rcases item with ⟨id, text⟩ | ⟨id, ⟨_ | text⟩ | text⟩
  · exact framed_legible ⟨by decide, by decide, by decide⟩ fits.1 fits.2
  · exact bare_legible id
  · exact framed_legible ⟨by decide, by decide, by decide⟩ fits.1.1 (fits.2 text rfl)
  · exact framed_legible ⟨by decide, by decide, by decide⟩ fits.1 fits.2.1

/-- What is read of the lines in flight is the first of them. -/
theorem stream_read {item : Item} (items : List Item) (fits : item.Fits) :
    readLine (stream (item :: items)) = some (item.line, stream items) := by
  rw [stream_cons]
  exact legible_read (item_legible fits) (stream items)

theorem readLine_nil : readLine [] = none := by
  have nothing : readPastComments bufSize ⟨[], false⟩ [] = (false, [], ⟨[], true⟩) := by
    rw [readPastComments_eq, fgets_tail (by simp) (by decide)]
    rfl
  simp [readLine, fileReadLine, nothing, feof]

/-! ### What a line can be taken for -/

/-- The letter of a reply, and its text. -/
def letter : Dispatched → UInt8
  | .result _ => byte 'R'
  | .error _ => byte 'E'

def behind : Dispatched → Option Text
  | .result text => text
  | .error text => some text

private theorem replyLine_parts (id : Int32) (reply : Dispatched) : keyword (replyLine id reply) = [letter reply] ∧
    strsep (fields (replyLine id reply)) (lit " \t") = (some (printInt id), behind reply) := by
  have blank : byte ' ' ∈ lit " \t" := by decide
  rcases reply with ⟨_ | text⟩ | text
  · obtain ⟨word, rest⟩ := keyword_head (byte 'R') (by decide) (printInt id)
    exact ⟨word, by rw [replyLine, rest]; exact strsep_last (printInt_blank id)⟩
  · obtain ⟨word, rest⟩ := keyword_head (byte 'R') (by decide) (printInt id ++ byte ' ' :: text)
    rw [replyLine, head_append]
    exact ⟨word, by rw [rest]; exact strsep_found (printInt_blank id) blank⟩
  · obtain ⟨word, rest⟩ := keyword_head (byte 'E') (by decide) (printInt id ++ byte ' ' :: text)
    rw [replyLine, head_append]
    exact ⟨word, by rw [rest]; exact strsep_found (printInt_blank id) blank⟩

/-- No two replies are written as one line. -/
theorem replyLine_injective {id id' : Int32} {reply reply' : Dispatched}
    (same : replyLine id reply = replyLine id' reply') : id = id' ∧ reply = reply' := by
  obtain ⟨kind, parts⟩ := replyLine_parts id reply
  obtain ⟨kind', parts'⟩ := replyLine_parts id' reply'
  rw [same, kind', List.cons.injEq] at kind
  rw [same, parts', Prod.mk.injEq, Option.some.injEq] at parts
  constructor
  · rw [← atoi_printInt id, ← parts.1, atoi_printInt]
  · have apart : byte 'R' ≠ byte 'E' := by decide
    cases reply <;> cases reply' <;> simp_all [letter, behind]

/-- A request is not taken for a reply. -/
theorem request_no_reply {id id' : Int32} {text : Text} {reply : Dispatched} :
    head (byte 'C') id ++ text ≠ replyLine id' reply := by
  intro same
  have word := (keyword_head (byte 'C') (by decide) (printInt id ++ byte ' ' :: text)).1
  rw [← head_append, same, (replyLine_parts id' reply).1, List.cons.injEq] at word
  cases reply with
  | result text => exact absurd word.1 (show byte 'R' ≠ byte 'C' by decide)
  | error text => exact absurd word.1 (show byte 'E' ≠ byte 'C' by decide)

/-- A reply starts no thread of a call. -/
theorem reply_no_request {latest : Int32} {client after : Connection size} (running : client.protocolState = .running)
    {id : Int32} {reply : Dispatched} {input : Text} :
    connectionSockHandler latest ⟨true, true⟩ client (replyLine id reply) ≠ .ok (after, [.runCall input]) := by
  rw [replyLine_handled latest _ running, handleReturn_eq, (replyLine_parts id reply).2]
  simp only
  split
  · simp
  · split <;> simp

/-- A reply that can be delivered is written as its line. -/
theorem answerText_line {id : Int32} {reply : Dispatched} (deliverable : Deliverable id reply) :
    answerText id reply = some (replyLine id reply ++ [LF]) := by
  rcases reply with ⟨_ | text⟩ | text
  · exact answerText_null id
  · have fits := deliverable.1.2
    rw [answerText_some, if_neg (by simp [fits])]
    rfl
  · have words : lit "E " = [byte 'E', byte ' '] ∧ lit " " = [byte ' '] ∧ lit "\n" = [LF] := by decide
    simp [answerText, replyLine, head, words]

/-- A request that can be sent is written as its line. -/
theorem callText_line {id : Int32} {text : Text} (readable : Readable (byte 'C') id text) :
    callText id text = some (head (byte 'C') id ++ text ++ [LF]) := by
  have fits := readable.fits
  rw [callText_eq, if_pos (by omega)]
  rfl

end VoxiUtil.TextRpcDialog
