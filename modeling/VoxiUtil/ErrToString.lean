import VoxiUtil.StrbufCalls
import VoxiUtil.TextRpc

/-!
The text that `ErrToString` makes of an error, in a string buffer, and the line that
`call_threadFunc` sends with it.
-/
namespace VoxiUtil.ErrToString
open VoxiUtil.CString VoxiUtil.Err VoxiUtil.Runs VoxiUtil.Strbuf VoxiUtil.StrbufCalls VoxiUtil.TextRpc

def quoteChars : Text := lit " \n\r'"

/-- What follows only if there was no error. -/
def unlessFailed (s : Traced) (next : Traced → Option Traced) : Option Traced :=
  if s.error = none then next s else some s

/-- The first call, for the fields of the error itself. -/
def headToString (head : Head) (s : Traced) : Option Traced :=
  strbufSprintfQuoteSubstrings2 s (some quoteChars) (lit "Error( %d %d '%s' ")
    [.int head.type.code, .int head.number, .string head.description]

def errToString : Error → Traced → Option Traced
  | .root head, s =>
    (headToString head s).bind fun s =>
      (unlessFailed s fun s => strbufSprintfQuoteSubstrings2 s none (lit "NULL") []).bind fun s =>
        unlessFailed s fun s => strbufSprintfQuoteSubstrings2 s none (lit " )") []
  | .because head reason, s =>
    (headToString head s).bind fun s =>
      (unlessFailed s fun s => errToString reason s).bind fun s =>
        unlessFailed s fun s => strbufSprintfQuoteSubstrings2 s none (lit " )") []

/-- The buffer of `call_threadFunc` for an `Error` of the dispatch function. -/
def exceptionReply (callId : Int32) (error : Error) : Option Traced :=
  (strbufSprintfQuoteSubstrings2 (create 256) none (lit "E %d ") [.int callId]).bind fun s =>
    (unlessFailed s fun s => errToString error s).bind fun s =>
      unlessFailed s fun s => strbufSprintfQuoteSubstrings2 s none (lit "\n") []

/-- A description with its quoted characters. -/
def quoted (description : Text) : Text := description.flatMap (quotation quoteChars)

/-- The text of the fields of an error. -/
def headText (head : Head) : Text :=
  lit "Error( " ++ (printInt head.type.code ++ 32 :: (printInt head.number ++ 32 :: 39 :: (quoted head.description ++ 39 :: [32])))

/-- The text that is appended for an error. -/
def errText : Error → Text
  | .root head => headText head ++ lit "NULL" ++ lit " )"
  | .because head reason => headText head ++ errText reason ++ lit " )"

/-! ### What is appended -/

section
variable {s : Traced}

private theorem sprintf_text (balanced : Balanced s.strbuf) {quoteString : Option Text} {format text : Text} {args : List Arg}
    (rendered : render quoteString format args = some text) :
    ∃ t, strbufSprintfQuoteSubstrings2 s quoteString format args = some t ∧ Appended s t text ∧ t.error = none := by
  have proper : (Call.sprintf quoteString format args).Proper := by
    rw [Call.Proper, Call.rendered, rendered]
    rfl
  obtain ⟨t, stepped, appended, success⟩ := call_spec balanced proper
  rw [Call.text, Call.rendered, rendered, Option.getD_some] at appended
  exact ⟨t, stepped, appended, success⟩

theorem headToString_spec (head : Head) (balanced : Balanced s.strbuf) :
    ∃ t, headToString head s = some t ∧ Appended s t (headText head) ∧ t.error = none := by
  apply sprintf_text balanced
  rfl

theorem errToString_spec (error : Error) (balanced : Balanced s.strbuf) :
    ∃ t, errToString error s = some t ∧ Appended s t (errText error) ∧ t.error = none := by
  induction error generalizing s with
  | root head =>
    obtain ⟨t, first, fields, success⟩ := headToString_spec head balanced
    obtain ⟨u, second, null, fine⟩ := @sprintf_text t fields.balanced none (lit "NULL") _ [] rfl
    obtain ⟨v, third, bracket, done⟩ := @sprintf_text u null.balanced none (lit " )") _ [] rfl
    refine ⟨v, ?_, (fields.append null).append bracket, done⟩
    simp only [errToString, first, unlessFailed, success, second, fine, third, Option.bind_some, if_true]
  | because head reason ih =>
    obtain ⟨t, first, fields, success⟩ := headToString_spec head balanced
    obtain ⟨u, second, inner, fine⟩ := ih fields.balanced
    obtain ⟨v, third, bracket, done⟩ := @sprintf_text u inner.balanced none (lit " )") _ [] rfl
    refine ⟨v, ?_, (fields.append inner).append bracket, done⟩
    simp only [errToString, first, unlessFailed, success, second, fine, third, Option.bind_some, if_true]

end

/-! ### No two errors have one text -/

/-- Words that can be told apart at the front of a text spell no text twice. -/
theorem flatMap_injective {α β : Type} {word : α → List β} (nonempty : ∀ a, word a ≠ [])
    (apart : ∀ a b x y, word a ++ x = word b ++ y → a = b ∧ x = y) : Function.Injective (fun text : List α => text.flatMap word) := by
  intro first
  induction first with
  | nil =>
    rintro (_ | ⟨b, second⟩) same
    · rfl
    · have empty : word b = [] ∧ ∀ c ∈ second, word c = [] := by simpa using same.symm
      exact absurd empty.1 (nonempty b)
  | cons a first ih =>
    rintro (_ | ⟨b, second⟩) same
    · have empty : word a = [] ∧ ∀ c ∈ first, word c = [] := by simpa using same
      exact absurd empty.1 (nonempty a)
    · simp only [List.flatMap_cons] at same
      obtain ⟨rfl, rest⟩ := apart a b _ _ same
      rw [ih rest]

/-- The characters that are quoted. -/
def quotables : Text := [37, 32, 10, 13, 39]

theorem mem_quotables (c : UInt8) : c ∈ quotables ↔ c = 37 ∨ c ∈ quoteChars := by
  simp [quotables, quoteChars, lit, byte]

private theorem quotation_plain {c : UInt8} (plain : c ∉ quotables) : quotation quoteChars c = [c] ∧ c ≠ 37 := by
  refine ⟨?_, fun same => plain (by rw [same]; exact List.mem_cons_self)⟩
  rw [quotation, if_neg (fun quotes => plain ((mem_quotables c).mpr quotes))]

private theorem quotation_table : ∀ c ∈ quotables, (quotation quoteChars c).length = 3 ∧
    (quotation quoteChars c).head? = some 37 ∧ ∀ d ∈ quotables, quotation quoteChars c = quotation quoteChars d → c = d := by
  decide +kernel

/-- A quoted character begins with the `%` that no other character is printed as. -/
theorem quotation_apart (c d : UInt8) (x y : Text) (same : quotation quoteChars c ++ x = quotation quoteChars d ++ y) :
    c = d ∧ x = y := by
  have clash : ∀ {c d : UInt8} {x y : Text}, c ∈ quotables → d ∉ quotables →
      quotation quoteChars c ++ x ≠ quotation quoteChars d ++ y := by
    intro c d x y quotes plain same
    have heads := congrArg List.head? same
    rw [List.head?_append, (quotation_table c quotes).2.1, (quotation_plain plain).1] at heads
    exact (quotation_plain plain).2 (Option.some.inj heads).symm
  by_cases first : c ∈ quotables
  · by_cases second : d ∈ quotables
    · obtain ⟨length, _, distinct⟩ := quotation_table c first
      obtain ⟨words, rest⟩ := List.append_inj same (length.trans (quotation_table d second).1.symm)
      exact ⟨distinct d second words, rest⟩
    · exact absurd same (clash first second)
  · by_cases second : d ∈ quotables
    · exact absurd same.symm (clash second first)
    · rw [(quotation_plain first).1, (quotation_plain second).1] at same
      exact List.cons_eq_cons.mp same

theorem quoted_injective : Function.Injective quoted := by
  refine flatMap_injective (fun c => ?_) quotation_apart
  by_cases quotes : c ∈ quotables
  · intro empty
    have length := (quotation_table c quotes).1
    rw [empty] at length
    cases length
  · rw [(quotation_plain quotes).1]
    exact List.cons_ne_nil c []

/-- A blank, a newline or a quote comes out of no description. -/
theorem quoted_free (description : Text) : 39 ∉ quoted description ∧ 10 ∉ quoted description ∧ 13 ∉ quoted description := by
  have table : ∀ c ∈ quotables, 39 ∉ quotation quoteChars c ∧ 10 ∉ quotation quoteChars c ∧ 13 ∉ quotation quoteChars c := by
    decide +kernel
  have each : ∀ c, 39 ∉ quotation quoteChars c ∧ 10 ∉ quotation quoteChars c ∧ 13 ∉ quotation quoteChars c := by
    intro c
    by_cases quotes : c ∈ quotables
    · exact table c quotes
    · rw [(quotation_plain quotes).1]
      simp only [quotables, List.mem_cons, not_or] at quotes
      simp only [List.mem_singleton]
      exact ⟨fun same => quotes.2.2.2.2.1 same.symm, fun same => quotes.2.2.1 same.symm, fun same => quotes.2.2.2.1 same.symm⟩
  unfold quoted
  simp only [List.mem_flatMap, not_exists, not_and]
  exact ⟨fun c _ => (each c).1, fun c _ => (each c).2.1, fun c _ => (each c).2.2⟩

theorem printInt_injective : Function.Injective printInt := Function.LeftInverse.injective atoi_printInt

/-- A field ends at the first delimiter. -/
theorem field_cancel {first second x y : Text} {c : UInt8} (firstFree : c ∉ first) (secondFree : c ∉ second)
    (same : first ++ c :: x = second ++ c :: y) : first = second ∧ x = y := by
  have delimited : ∀ {field : Text}, c ∉ field → ∀ b ∈ field, b ∉ [c] := by
    intro field free b member only
    exact free (List.mem_singleton.mp only ▸ member)
  have tokens := @strsep_found first x [c] c (delimited firstFree) List.mem_cons_self
  rw [same, strsep_found (delimited secondFree) List.mem_cons_self] at tokens
  simp only [Prod.mk.injEq, Option.some.injEq] at tokens
  exact ⟨tokens.1.symm, tokens.2.symm⟩

/-- The fields are read off the front of a text: a number ends at its blank and the
    description at its quote. -/
theorem headText_cancel {a b : Head} {x y : Text} (same : headText a ++ x = headText b ++ y) : a = b ∧ x = y := by
  have blank : ∀ n, 32 ∉ printInt n := fun n => printInt_free n (by decide) rfl
  simp only [headText, List.append_assoc, List.cons_append, List.append_cancel_left_eq] at same
  obtain ⟨types, afterType⟩ := field_cancel (blank _) (blank _) same
  obtain ⟨numbers, afterNumber⟩ := field_cancel (blank _) (blank _) afterType
  obtain ⟨descriptions, afterQuote⟩ := field_cancel (quoted_free _).1 (quoted_free _).1 (List.cons_eq_cons.mp afterNumber).2
  have type := code_injective (printInt_injective types)
  have number := printInt_injective numbers
  have description := quoted_injective descriptions
  refine ⟨?_, (List.cons_eq_cons.mp afterQuote).2⟩
  cases a
  cases b
  simp only at type number description
  rw [type, number, description]

/-- By induction on the chain: behind the fields of an error comes `NULL`, or another
    error, which begins with another letter. -/
theorem errText_cancel {a b : Error} {x y : Text} (same : errText a ++ x = errText b ++ y) : a = b ∧ x = y := by
  have letters : ∀ {head : Head} {x y : Text}, lit "NULL" ++ x ≠ headText head ++ y := by
    intro head x y same
    have first := congrArg List.head? same
    revert first
    simp [headText, lit, byte]
  have starts : ∀ (error : Error) (y : Text), ∃ head z, errText error ++ y = headText head ++ z := by
    intro error y
    cases error with
    | root head => exact ⟨head, _, by rw [errText, List.append_assoc, List.append_assoc]⟩
    | because head reason => exact ⟨head, _, by rw [errText, List.append_assoc, List.append_assoc]⟩
  induction a generalizing b x y with
  | root head =>
    cases b with
    | root other =>
      simp only [errText, List.append_assoc] at same
      obtain ⟨rfl, rest⟩ := headText_cancel same
      exact ⟨rfl, List.append_cancel_left (List.append_cancel_left rest)⟩
    | because other reason =>
      simp only [errText, List.append_assoc] at same
      obtain ⟨inner, z, begins⟩ := starts reason (lit " )" ++ y)
      have rest := (headText_cancel same).2
      rw [begins] at rest
      exact absurd rest letters
  | because head reason ih =>
    cases b with
    | root other =>
      simp only [errText, List.append_assoc] at same
      obtain ⟨inner, z, begins⟩ := starts reason (lit " )" ++ x)
      have rest := (headText_cancel same).2
      rw [begins] at rest
      exact absurd rest.symm letters
    | because other cause =>
      simp only [errText, List.append_assoc] at same
      obtain ⟨rfl, rest⟩ := headText_cancel same
      obtain ⟨rfl, last⟩ := ih rest
      exact ⟨rfl, List.append_cancel_left last⟩

/-! ### One line -/

theorem headText_oneLine (head : Head) : 10 ∉ headText head ∧ 13 ∉ headText head := by
  have newline : ∀ n, 10 ∉ printInt n := fun n => printInt_free n (by decide) rfl
  have ret : ∀ n, 13 ∉ printInt n := fun n => printInt_free n (by decide) rfl
  obtain ⟨_, noNewline, noRet⟩ := quoted_free head.description
  simp [headText, lit, byte, newline, ret, noNewline, noRet]

theorem errText_oneLine (error : Error) : 10 ∉ errText error ∧ 13 ∉ errText error := by
  induction error with
  | root head =>
    obtain ⟨newline, ret⟩ := headText_oneLine head
    simp [errText, lit, byte, newline, ret]
  | because head reason ih =>
    obtain ⟨newline, ret⟩ := headText_oneLine head
    simp [errText, lit, byte, newline, ret, ih.1, ih.2]

theorem exceptionReply_spec (callId : Int32) (error : Error) : ∃ t, exceptionReply callId error = some t ∧
    t.strbuf.string = lit "E " ++ printInt callId ++ lit " " ++ errText error ++ lit "\n" := by
  obtain ⟨t, first, head, success⟩ := @sprintf_text (create 256) (create_balanced 256) none (lit "E %d ")
    (lit "E " ++ (printInt callId ++ lit " ")) [.int callId] rfl
  obtain ⟨u, second, text, fine⟩ := errToString_spec error head.balanced
  obtain ⟨v, third, newline, _⟩ := @sprintf_text u text.balanced none (lit "\n") (lit "\n") [] rfl
  refine ⟨v, ?_, ?_⟩
  · simp only [exceptionReply, first, unlessFailed, success, second, fine, third, Option.bind_some, if_true]
  · rw [newline.string, text.string, head.string]
    simp [create]

/-- An error is appended as a text that no other error has and that is one line, and so
    is the reply with it. -/
theorem marshalling_unambiguous :
    (∀ error (s : Traced), Balanced s.strbuf → ∃ t, errToString error s = some t ∧
      t.strbuf.string = s.strbuf.string ++ errText error ∧ t.error = none) ∧
    (∀ a b, errText a = errText b → a = b) ∧
    (∀ error, byte '\n' ∉ errText error ∧ byte '\r' ∉ errText error) ∧
    ∀ callId error, ∃ t line, exceptionReply callId error = some t ∧ answerText callId (.error (errText error)) = some t.strbuf.string ∧
      t.strbuf.string = line ++ lit "\n" ∧ byte '\n' ∉ line ∧ byte '\r' ∉ line := by
  refine ⟨?_, ?_, errText_oneLine, ?_⟩
  · intro error s balanced
    obtain ⟨t, stepped, appended, success⟩ := errToString_spec error balanced
    exact ⟨t, stepped, appended.string, success⟩
  · intro a b same
    have longer : errText a ++ [] = errText b ++ [] := by rw [same]
    exact (errText_cancel longer).1
  · intro callId error
    obtain ⟨t, stepped, string⟩ := exceptionReply_spec callId error
    obtain ⟨newline, ret⟩ := errText_oneLine error
    have idNewline : 10 ∉ printInt callId := printInt_free callId (by decide) rfl
    have idRet : 13 ∉ printInt callId := printInt_free callId (by decide) rfl
    refine ⟨t, _, stepped, by rw [string]; rfl, string, ?_, ?_⟩
    · simp [lit, byte, newline, idNewline]
    · simp [lit, byte, ret, idRet]

end VoxiUtil.ErrToString
