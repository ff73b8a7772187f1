import VoxiUtil.ErrToString
import VoxiUtil.TextRpcCalls

/-!
The way of an `Error` of the remote dispatch function: written by `ErrToString` into a
line, read and taken apart by the handler of the caller, and made into the `Error` that
`textRPC_call` returns.
-/
namespace VoxiUtil.TextRpcExceptions
open VoxiUtil.CString VoxiUtil.Err VoxiUtil.Hash VoxiUtil.StrbufCalls VoxiUtil.TextRpc VoxiUtil.ErrToString
open VoxiUtil.Stdio VoxiUtil.File VoxiUtil.TextRpcLines VoxiUtil.TextRpcFraming VoxiUtil.TextRpcCalls
variable {size : Nat} [NeZero size]

def textRpcErrRemoteException : Int32 := 1

/-- The `Error` that `handleReturn` stores in a call, and `textRPC_call` returns. -/
def returnedError : Answer → Option Error
  | .result _ => none
  | .error description => some (errNew .textRpc textRpcErrRemoteException none description)

/-- The `Error` that is returned for an `Error` of the dispatch function has its text. -/
def ArrivesIntact (latest : Int32) (client : Connection size) (id : Int32) (call : OutstandingCall) (error : Error) : Prop :=
  ∃ reply answer, exceptionReply id error = some reply ∧
    receive latest client reply.strbuf.string = some [.finish call answer] ∧
    returnedError answer = some (.root ⟨.textRpc, textRpcErrRemoteException, errText error⟩)

/-- No description has a character that `ErrToString` quotes. -/
def Unquoted (error : Error) : Prop := ∀ description ∈ descriptions error, ∀ c ∈ description, c ∉ quotables

instance (error : Error) : Decidable (Unquoted error) :=
  inferInstanceAs (Decidable (∀ description ∈ descriptions error, ∀ c ∈ description, c ∉ quotables))

section
variable {error : Error} {head : Head} {description : Text}

/-- A quoted character is a `%` and two digits. -/
theorem quotation_percent (c : UInt8) : 37 ∈ quotation quoteChars c ↔ c ∈ quotables := by
  have table : ∀ c ∈ quotables, 37 ∈ quotation quoteChars c := by decide +kernel
  constructor
  · intro percent
    by_contra plain
    rw [quotation, if_neg (fun quotes => plain ((mem_quotables c).mpr quotes)), List.mem_singleton] at percent
    exact plain (percent ▸ List.mem_cons_self)
  · exact table c

theorem quoted_percent : 37 ∉ quoted description ↔ ∀ c ∈ description, c ∉ quotables := by
  simp only [quoted, List.mem_flatMap, not_exists, not_and, quotation_percent]

theorem headText_percent : 37 ∉ headText head ↔ ∀ c ∈ head.description, c ∉ quotables := by
  have numbers : ∀ n, 37 ∉ printInt n := fun n => printInt_free n (by decide) rfl
  rw [← quoted_percent]
  simp [headText, lit, byte, numbers]

/-- The text of an error has a `%` for each character that is quoted, and no other. -/
theorem errText_percent (error : Error) : 37 ∉ errText error ↔ Unquoted error := by
  unfold Unquoted
  induction error with
  | root head =>
    have fields := @headText_percent head
    simp only [errText, List.mem_append, not_or, descriptions, List.mem_singleton, forall_eq, fields]
    simp [lit, byte]
  | because head reason ih =>
    have fields := @headText_percent head
    simp only [errText, List.mem_append, not_or, descriptions, List.forall_mem_cons, fields, ih]
    simp [lit, byte]

theorem quoted_noNul (string : 0 ∉ description) : 0 ∉ quoted description := by
  have table : ∀ c ∈ quotables, 0 ∉ quotation quoteChars c := by decide +kernel
  simp only [quoted, List.mem_flatMap, not_exists, not_and]
  intro c member
  by_cases quotes : c ∈ quotables
  · exact table c quotes
  · rw [quotation, if_neg (fun special => quotes ((mem_quotables c).mpr special)), List.mem_singleton]
    rintro rfl
    exact string member

theorem errText_noNul (strings : ∀ description ∈ descriptions error, 0 ∉ description) : 0 ∉ errText error := by
  have numbers : ∀ n, 0 ∉ printInt n := fun n => printInt_free n (by decide) rfl
  have fields : ∀ head : Head, 0 ∉ head.description → 0 ∉ headText head := by
    intro head string
    simp [headText, lit, byte, numbers, quoted_noNul string]
  induction error with
  | root head =>
    have own := fields head (strings head.description List.mem_cons_self)
    simp [errText, lit, byte, own]
  | because head reason ih =>
    have own := fields head (strings head.description List.mem_cons_self)
    have inner := ih fun description member => strings description (List.mem_cons_of_mem _ member)
    simp [errText, lit, byte, own, inner]

/-- The line of an exception is received as it was sent. -/
theorem exception_line (id : Int32) (strings : ∀ description ∈ descriptions error, 0 ∉ description)
    (short : (errText error).length < errBuffSize) :
    ∃ reply, exceptionReply id error = some reply ∧
      receivedLines reply.strbuf.string = some [replyLine id (.error (errText error))] := by
  obtain ⟨reply, made, string⟩ := exceptionReply_spec id error
  obtain ⟨newline, ret⟩ := errText_oneLine error
  have free : ∀ c, c ≠ 69 → c ≠ 32 → c ∉ printInt id → c ∉ errText error → c ∉ replyLine id (.error (errText error)) := by
    intro c letter blank digits text
    simp [replyLine, TextRpcFraming.head, byte, letter, blank, digits, text]
  have length := printInt_length id
  refine ⟨reply, made, ?_⟩
  rw [string, show lit "E " ++ printInt id ++ lit " " ++ errText error ++ lit "\n" =
    replyLine id (.error (errText error)) ++ [LF] by rfl]
  apply line_received
  · exact free LF (by decide) (by decide) (printInt_free id (by decide) rfl) newline
  · exact free 0 (by decide) (by decide) (printInt_free id (by decide) rfl) (errText_noNul strings)
  · exact free CR (by decide) (by decide) (printInt_free id (by decide) rfl) ret
  · simp [replyLine, TextRpcFraming.head]
  · rfl
  · simp only [errBuffSize] at short
    simp [replyLine, TextRpcFraming.head]
    omega

/-- What the handler makes of a reply to a call that is outstanding. -/
theorem reply_handled (latest : Int32) {client : Connection size} (running : client.protocolState = .running)
    {id : Int32} {call : OutstandingCall} (outstanding : hashFind client.outstandingCalls ⟨id, 0⟩ = some call) (reply : Dispatched) :
    connectionSockHandler latest ⟨true, true⟩ client (replyLine id reply) =
      (answerOf reply).map fun answer => (storeAnswer client call answer, [.finish call answer]) := by
  obtain ⟨message, found, made⟩ := replyLine_parsed client.outstandingCalls id reply
  rw [replyLine_handled latest _ running]
  simp only [handleReturn, found, outstanding, made, bind, Except.bind, pure, Except.pure]
  cases answerOf reply <;> rfl

/-- The bytes of an exception are received as its answer, when there is one. -/
theorem exception_received (latest : Int32) {client : Connection size} (running : client.protocolState = .running)
    {id : Int32} {call : OutstandingCall} (outstanding : hashFind client.outstandingCalls ⟨id, 0⟩ = some call)
    (strings : ∀ description ∈ descriptions error, 0 ∉ description) (short : (errText error).length < errBuffSize) :
    ∃ reply, exceptionReply id error = some reply ∧
      receive latest client reply.strbuf.string =
        (answerOf (.error (errText error))).toOption.map fun answer => [.finish call answer] := by
  obtain ⟨reply, made, lines⟩ := exception_line id strings short
  refine ⟨reply, made, ?_⟩
  rw [receive, lines, Option.bind_some, handleLines, reply_handled latest running outstanding]
  cases answerOf (.error (errText error)) <;> rfl

/-- A description of the returned `Error` is the one of the answer when it was not cut. -/
theorem returned_iff {answer : Answer} {text : Text} (short : text.length < errBuffSize)
    (made : answerOf (.error text) = .ok answer) :
    returnedError answer = some (.root ⟨.textRpc, textRpcErrRemoteException, text⟩) ↔ answer = .error text := by
  have kept : text.take (errBuffSize - 1) = text := by
    apply List.take_of_length_le
    simp only [errBuffSize] at short
    simp only [errBuffSize]
    omega
  constructor
  · intro returned
    cases answer with
    | result value => cases returned
    | error description =>
      have cut : description.length ≤ errBuffSize - 1 := by
        simp only [answerOf, makeAnswer, Option.bind_some, if_true, vsnprintfBare] at made
        cases expanded : expandFormat text with
        | none =>
          rw [expanded] at made
          cases made
        | some whole =>
          rw [expanded] at made
          cases made
          exact List.length_take_le _ _
      have same : description.take (errBuffSize - 1) = text :=
        congrArg Head.description (Error.root.inj (Option.some.inj returned))
      rw [List.take_of_length_le cut] at same
      rw [same]
  · rintro rfl
    simp only [returnedError, errNew, kept]

/-- An `Error` of the remote dispatch function arrives with its text exactly when no
    description in its chain has a character that is quoted. -/
theorem exception_intact_iff (latest : Int32) {client : Connection size} (running : client.protocolState = .running)
    {id : Int32} {call : OutstandingCall} (outstanding : hashFind client.outstandingCalls ⟨id, 0⟩ = some call)
    (strings : ∀ description ∈ descriptions error, 0 ∉ description) (short : (errText error).length < errBuffSize) :
    ArrivesIntact latest client id call error ↔ Unquoted error := by
  obtain ⟨reply, made, received⟩ := exception_received latest running outstanding strings short
  have exact : ArrivesIntact latest client id call error ↔ answerOf (.error (errText error)) = .ok (.error (errText error)) := by
    constructor
    · rintro ⟨again, answer, same, arrived, returned⟩
      rw [made] at same
      cases same
      rw [received] at arrived
      cases answered : answerOf (.error (errText error)) with
      | error fault =>
        rw [answered] at arrived
        cases arrived
      | ok stored =>
        rw [answered] at arrived
        cases arrived
        rw [(returned_iff short answered).mp returned]
    · intro answered
      refine ⟨reply, _, made, ?_, (returned_iff short answered).mpr rfl⟩
      rw [received, answered]
      rfl
  rw [exact, exception_same, errText_percent]
  exact and_iff_left short

end

/-- An `Error` with a reason, in words of letters. -/
def refused : Error := .because ⟨.app, 7, lit "refused"⟩ (.root ⟨.errno, 13, lit "denied"⟩)

theorem exception_intact_refused : ArrivesIntact 0 oneCall 1 ⟨1, 5⟩ refused :=
  (exception_intact_iff 0 rfl rfl (by decide) (by decide)).mpr (by decide +kernel)

/-- An `Error` with two words does not: its text has a conversion, for which `ErrNew`
    has no argument. -/
theorem exception_unformattable : (errText (.root ⟨.app, 7, lit "not found"⟩)).length < errBuffSize ∧
    ¬ ArrivesIntact 0 oneCall 1 ⟨1, 5⟩ (.root ⟨.app, 7, lit "not found"⟩) := by
  refine ⟨by decide, ?_⟩
  obtain ⟨reply, made, received⟩ := @exception_received 16 _ (.root ⟨.app, 7, lit "not found"⟩) 0 oneCall rfl 1 ⟨1, 5⟩ rfl
    (by decide) (by decide)
  rintro ⟨again, answer, same, arrived, -⟩
  rw [made] at same
  cases same
  rw [received] at arrived
  have failed : answerOf (.error (errText (.root ⟨.app, 7, lit "not found"⟩))) = .error .badFormat := rfl
  rw [failed] at arrived
  cases arrived

end VoxiUtil.TextRpcExceptions
