import VoxiUtil.Err
import VoxiUtil.Runs
import VoxiUtil.Strbuf

/-!
The functions of `strbuf.c` that append to a buffer, with a record of every write:
where it starts, how many bytes it has, and how large the block is then. A call gives
`none` where an assertion fails, where a counter of bytes would wrap around, or where
the arguments are not those that the format asks for.
-/
namespace VoxiUtil.StrbufCalls
open VoxiUtil.CString VoxiUtil.Err VoxiUtil.Runs VoxiUtil.Strbuf

structure Write where
  start : Nat
  length : Nat
  size : Nat
deriving DecidableEq

/-- Each byte written has an index below the size of the block. -/
def Write.Inside (write : Write) : Prop :=
  ∀ index, write.start ≤ index → index < write.start + write.length → index < write.size

/-- A string buffer with the writes to it and what the last call returned. It is `blockless` since an allocation of no bytes:
    `realloc` has then freed the block and given NULL, so that the call returns an error and `string` dangles, or `malloc` was
    asked for `SIZE_MAX + 1` bytes. The other fields go on as if there were a block of no bytes. -/
structure Traced where
  strbuf : StringBuffer
  writes : List Write
  error : Option Error
  blockless : Bool
deriving DecidableEq

/-- `cursor - string == bufferSize - bufferRemaining`, the invariant that the code asserts. -/
def Balanced (strbuf : StringBuffer) : Prop := strbuf.string.length + strbuf.bufferRemaining = strbuf.bufferSize

instance (strbuf : StringBuffer) : Decidable (Balanced strbuf) := inferInstanceAs (Decidable (_ = _))

/-- `strbuf_create`. The size of the block is computed in a `size_t`. -/
def create (length : UInt64) : Traced :=
  ⟨⟨[], length.toNat, length.toNat, (length + 1).toNat⟩, [⟨0, 1, (length + 1).toNat⟩], none, length + 1 = 0⟩

/-- Bytes are written at the cursor, which moves on by `length`. -/
def put (s : Traced) (bytes : Text) (length : Nat) : Option Traced :=
  if s.strbuf.bufferRemaining < length then none
  else some { s with
    strbuf := { s.strbuf with string := s.strbuf.string ++ bytes.take length
                              bufferRemaining := s.strbuf.bufferRemaining - length }
    writes := s.writes ++ [⟨s.strbuf.string.length, bytes.length, s.strbuf.capacity⟩] }

/-- `strbuf_enlarge` asks `realloc` for no bytes. -/
def frees (strbuf : StringBuffer) (minFreeSpace : Nat) : Bool :=
  strbuf.bufferRemaining ≤ minFreeSpace && (strbufEnlarge strbuf minFreeSpace).bufferSize = 0

/-- `strbuf_enlarge`, which asserts its invariant only when it has got a new block. -/
def enlarge (s : Traced) (minFreeSpace : Nat) : Option Traced :=
  let strbuf := strbufEnlarge s.strbuf minFreeSpace
  if s.strbuf.bufferRemaining ≤ minFreeSpace ∧ ¬ Balanced strbuf then none
  else some { s with strbuf, blockless := s.blockless || frees s.strbuf minFreeSpace }

/-- An argument of a format. -/
inductive Arg where
  | int (n : Int32)
  | string (s : Text)
deriving DecidableEq

/-- What one turn of the loop over a format is about. -/
inductive Conversion where
  | char (c : UInt8)
  | int (n : Int32)
  | string (s : Text)
deriving DecidableEq

def unknownFormat (c : UInt8) : Error :=
  errNew .strbuf 1 none (lit "Unknown format character %" ++ [c] ++ lit ".")

/-- The turns of the loop over a format, up to a conversion that the code does not
    know, and the error that this one makes. -/
def conversions : Text → List Arg → Option (List Conversion × Option Error)
  | [], _ => some ([], none)
  | 37 :: 100 :: format, .int n :: args => (conversions format args).map fun out => (.int n :: out.1, out.2)
  | 37 :: 115 :: format, .string s :: args => (conversions format args).map fun out => (.string s :: out.1, out.2)
  | [37], _ => none
  | 37 :: c :: _, _ => if c = 100 ∨ c = 115 then none else some ([], some (unknownFormat c))
  | c :: format, args => (conversions format args).map fun out => (.char c :: out.1, out.2)

def hexDigit (d : Nat) : UInt8 := if d < 10 then (48 + d).toUInt8 else (87 + d).toUInt8

/-- The hexadecimal digits of a number, `fuel` of them at most. -/
def hexDigits : Nat → Nat → Text
  | 0, _ => []
  | fuel + 1, n => if n < 16 then [hexDigit n] else hexDigits fuel (n / 16) ++ [hexDigit (n % 16)]

/-- `%2x` pads with blanks, and its argument is a `char` that became an `int`. -/
def printHex (c : UInt8) : Text :=
  let digits := hexDigits 8 c.toInt8.toInt32.toUInt32.toNat
  List.replicate (2 - digits.length) 32 ++ digits

/-- What `sprintf` prints for a quoted character. -/
def quotedText (c : UInt8) : Text := 37 :: printHex c ++ [byte 'c']

/-- One turn of the loop over the characters of an argument, with `remainToCopy`. The
    NUL of `sprintf` goes behind the three characters that the cursor moves by. -/
def putQuotable (quoteString : Text) (s : Traced × Nat) (c : UInt8) : Option (Traced × Nat) :=
  if c = 37 ∨ c ∈ quoteString then
    let room := if s.1.strbuf.bufferRemaining < s.2 + 2 then enlarge s.1 (s.2 + 2) else some s.1
    (room.bind fun t => put t (quotedText c ++ [0]) 3).map fun t => (t, s.2 - 1)
  else (put s.1 [c] 1).map fun t => (t, s.2 - 1)

/-- `strcpy` to the cursor. -/
def putText (s : Traced) (text : Text) : Option Traced :=
  (enlarge s text.length).bind fun t => put t (text ++ [0]) text.length

def putString (quoteString : Option Text) (s : Traced) (text : Text) : Option Traced :=
  match quoteString with
  | none => putText s text
  | some quoteString =>
    (enlarge s text.length).bind fun t => (run (putQuotable quoteString) (t, text.length) text).map Prod.fst

/-- One turn of the loop over a format. -/
def putConversion (quoteString : Option Text) (s : Traced) : Conversion → Option Traced
  | .char c => (if s.strbuf.bufferRemaining = 0 then enlarge s 1 else some s).bind fun t => put t [c] 1
  | .int n => putText s (printInt n)
  | .string text => putString quoteString s text

/-- The NUL at the end, and the result. -/
def terminate (s : Traced) (error : Option Error) : Option Traced :=
  (put s [0] 0).bind fun t => if Balanced t.strbuf then some { t with error } else none

/-- `strbuf_sprintf` is this with a `quoteString` that is null. -/
def strbufSprintfQuoteSubstrings2 (s : Traced) (quoteString : Option Text) (format : Text) (args : List Arg) :
    Option Traced :=
  (conversions format args).bind fun turns =>
    (run (putConversion quoteString) s turns.1).bind fun t => terminate t turns.2

def strbufAppendBinary (s : Traced) (block : Text) : Option Traced :=
  ((enlarge s block.length).bind fun t => put t block block.length).map fun t => { t with error := none }

inductive Call where
  | sprintf (quoteString : Option Text) (format : Text) (args : List Arg)
  | appendBinary (block : Text)
deriving DecidableEq

def call (s : Traced) : Call → Option Traced
  | .sprintf quoteString format args => strbufSprintfQuoteSubstrings2 s quoteString format args
  | .appendBinary block => strbufAppendBinary s block

/-! ### What the pieces do -/

section
variable {s t : Traced}

@[simp] theorem enlarged_string (strbuf : StringBuffer) (minFreeSpace : Nat) :
    (strbufEnlarge strbuf minFreeSpace).string = strbuf.string := by
  unfold strbufEnlarge
  split <;> rfl

theorem enlarged_balanced {strbuf : StringBuffer} (balanced : Balanced strbuf) (minFreeSpace : Nat) :
    Balanced (strbufEnlarge strbuf minFreeSpace) := by
  unfold Balanced strbufEnlarge at *
  by_cases grows : strbuf.bufferRemaining ≤ minFreeSpace
  · rw [if_pos grows]
    simp only
    omega
  · rw [if_neg grows]
    exact balanced

/-- Both sizes that a block can grow by are enough. -/
theorem enlarged_room (strbuf : StringBuffer) (minFreeSpace : Nat) :
    minFreeSpace ≤ (strbufEnlarge strbuf minFreeSpace).bufferRemaining := by
  unfold strbufEnlarge
  by_cases grows : strbuf.bufferRemaining ≤ minFreeSpace
  · rw [if_pos grows]
    by_cases small : strbuf.bufferSize + strbuf.bufferRemaining < minFreeSpace
    · simp only [small, if_true]
      omega
    · simp only [small, if_false]
      omega
  · rw [if_neg grows]
    omega

theorem enlarge_eq (balanced : Balanced s.strbuf) (minFreeSpace : Nat) :
    enlarge s minFreeSpace = some { s with
      strbuf := strbufEnlarge s.strbuf minFreeSpace, blockless := s.blockless || frees s.strbuf minFreeSpace } := by
  have kept := enlarged_balanced balanced minFreeSpace
  simp [enlarge, kept]

theorem put_eq {bytes : Text} {length : Nat} (room : length ≤ s.strbuf.bufferRemaining) :
    put s bytes length = some { s with
      strbuf := { s.strbuf with string := s.strbuf.string ++ bytes.take length
                                bufferRemaining := s.strbuf.bufferRemaining - length }
      writes := s.writes ++ [⟨s.strbuf.string.length, bytes.length, s.strbuf.capacity⟩] } := by
  rw [put, if_neg (by omega)]

/-- The text behind the string, with the invariant kept. -/
structure Appended (s t : Traced) (text : Text) : Prop where
  string : t.strbuf.string = s.strbuf.string ++ text
  balanced : Balanced t.strbuf

theorem put_spec (bytes : Text) (length : Nat) (balanced : Balanced s.strbuf) (room : length ≤ s.strbuf.bufferRemaining)
    (printed : length ≤ bytes.length) : ∃ t, put s bytes length = some t ∧ Appended s t (bytes.take length) ∧
      t.strbuf.bufferRemaining + length = s.strbuf.bufferRemaining := by
  refine ⟨_, put_eq room, ⟨rfl, ?_⟩, ?_⟩
  · unfold Balanced at *
    simp only [List.length_append, List.length_take]
    omega
  · simp only
    omega

/-- With room asked for first. -/
theorem enlarge_put_spec (minFreeSpace : Nat) (bytes : Text) (length : Nat) (balanced : Balanced s.strbuf)
    (room : length ≤ minFreeSpace) (printed : length ≤ bytes.length) :
    ∃ t, (enlarge s minFreeSpace).bind (fun t => put t bytes length) = some t ∧ Appended s t (bytes.take length) ∧
      minFreeSpace ≤ t.strbuf.bufferRemaining + length := by
  have enough := enlarged_room s.strbuf minFreeSpace
  rw [enlarge_eq balanced, Option.bind_some]
  obtain ⟨t, stepped, appended, left⟩ := @put_spec { s with
    strbuf := strbufEnlarge s.strbuf minFreeSpace, blockless := s.blockless || frees s.strbuf minFreeSpace } bytes length
    (enlarged_balanced balanced minFreeSpace) (Nat.le_trans room enough) printed
  refine ⟨t, stepped, ⟨?_, appended.balanced⟩, ?_⟩
  · rw [appended.string, enlarged_string]
  · rw [left]
    exact enough

theorem Appended.append {u : Traced} {front text : Text} (first : Appended s t front) (second : Appended t u text) :
    Appended s u (front ++ text) := by
  refine ⟨?_, second.balanced⟩
  rw [second.string, first.string, List.append_assoc]

theorem putText_spec (balanced : Balanced s.strbuf) (text : Text) : ∃ t, putText s text = some t ∧ Appended s t text := by
  obtain ⟨t, stepped, appended, _⟩ := enlarge_put_spec text.length (text ++ [0]) text.length balanced (Nat.le_refl _) (by simp)
  rw [List.take_left] at appended
  exact ⟨t, stepped, appended⟩

/-- What is written for a character of an argument. -/
def quotation (quoteString : Text) (c : UInt8) : Text :=
  if c = 37 ∨ c ∈ quoteString then (quotedText c).take 3 else [c]

theorem printHex_length (c : UInt8) : 2 ≤ (printHex c).length := by
  simp only [printHex, List.length_append, List.length_replicate]
  omega

theorem quotedText_length (c : UInt8) : (quotedText c).length = (printHex c).length + 2 := by
  simp [quotedText]

/-- Each turn leaves room for the characters that remain. -/
theorem putQuotable_spec (quoteString : Text) {remainToCopy : Nat} (c : UInt8) (balanced : Balanced s.strbuf)
    (room : remainToCopy + 1 ≤ s.strbuf.bufferRemaining) :
    ∃ t, putQuotable quoteString (s, remainToCopy + 1) c = some (t, remainToCopy) ∧
      Appended s t (quotation quoteString c) ∧ remainToCopy ≤ t.strbuf.bufferRemaining := by
  unfold putQuotable quotation
  have longer := printHex_length c
  have whole := quotedText_length c
  by_cases quoted : c = 37 ∨ c ∈ quoteString
  · have printed : 3 ≤ (quotedText c ++ [0]).length := by simp; omega
    have prefixes : (quotedText c ++ [0]).take 3 = (quotedText c).take 3 := List.take_append_of_le_length (by omega)
    rw [if_pos quoted, if_pos quoted, ← prefixes]
    by_cases short : s.strbuf.bufferRemaining < remainToCopy + 1 + 2
    · obtain ⟨t, stepped, appended, left⟩ := enlarge_put_spec (remainToCopy + 1 + 2) _ 3 balanced (by omega) printed
      simp only [short, if_true, stepped]
      exact ⟨t, rfl, appended, by omega⟩
    · obtain ⟨t, stepped, appended, left⟩ := put_spec _ 3 balanced (by omega) printed
      simp only [short, if_false, Option.bind_some, stepped]
      exact ⟨t, rfl, appended, by omega⟩
  · obtain ⟨t, stepped, appended, left⟩ := put_spec [c] 1 balanced (by omega) (Nat.le_refl 1)
    rw [if_neg quoted, if_neg quoted, stepped]
    exact ⟨t, rfl, appended, by omega⟩

theorem putQuotables_spec (quoteString : Text) {text : Text} (balanced : Balanced s.strbuf)
    (room : text.length ≤ s.strbuf.bufferRemaining) :
    ∃ t, run (putQuotable quoteString) (s, text.length) text = some (t, 0) ∧
      Appended s t (text.flatMap (quotation quoteString)) := by
  induction text generalizing s with
  | nil => exact ⟨s, rfl, by simp, balanced⟩
  | cons c rest ih =>
    rw [List.length_cons] at room ⊢
    obtain ⟨m, stepped, first, left⟩ := putQuotable_spec quoteString c balanced room
    obtain ⟨t, ran, more⟩ := ih first.balanced left
    exact ⟨t, run_cons.mpr ⟨_, stepped, ran⟩, first.append more⟩

/-- What a turn of the loop over a format prints. -/
def emitted (quoteString : Option Text) : Conversion → Text
  | .char c => [c]
  | .int n => printInt n
  | .string text =>
    match quoteString with
    | none => text
    | some quoteString => text.flatMap (quotation quoteString)

theorem putString_spec (quoteString : Option Text) (balanced : Balanced s.strbuf) (text : Text) :
    ∃ t, putString quoteString s text = some t ∧ Appended s t (emitted quoteString (.string text)) := by
  cases quoteString with
  | none => exact putText_spec balanced text
  | some quoteString =>
    obtain ⟨t, ran, appended⟩ := @putQuotables_spec { s with
      strbuf := strbufEnlarge s.strbuf text.length, blockless := s.blockless || frees s.strbuf text.length } quoteString text
      (enlarged_balanced balanced text.length) (enlarged_room s.strbuf text.length)
    rw [putString, enlarge_eq balanced, Option.bind_some, ran]
    refine ⟨t, rfl, ?_, appended.balanced⟩
    rw [appended.string, enlarged_string]
    rfl

theorem putConversion_spec (quoteString : Option Text) (balanced : Balanced s.strbuf) (conversion : Conversion) :
    ∃ t, putConversion quoteString s conversion = some t ∧ Appended s t (emitted quoteString conversion) := by
  cases conversion with
  | char c =>
    rw [putConversion]
    by_cases full : s.strbuf.bufferRemaining = 0
    · obtain ⟨t, stepped, appended, _⟩ := enlarge_put_spec 1 [c] 1 balanced (Nat.le_refl 1) (Nat.le_refl 1)
      rw [if_pos full, stepped]
      exact ⟨t, rfl, appended⟩
    · obtain ⟨t, stepped, appended, _⟩ := put_spec [c] 1 balanced (by omega) (Nat.le_refl 1)
      rw [if_neg full, Option.bind_some, stepped]
      exact ⟨t, rfl, appended⟩
  | int n => exact putText_spec balanced (printInt n)
  | string text => exact putString_spec quoteString balanced text

theorem putConversions_spec (quoteString : Option Text) (balanced : Balanced s.strbuf) (turns : List Conversion) :
    ∃ t, run (putConversion quoteString) s turns = some t ∧ Appended s t (turns.flatMap (emitted quoteString)) := by
  have each : ∀ (s : Traced) conversion, Balanced s.strbuf → True → ∃ t, putConversion quoteString s conversion = some t ∧
      Balanced t.strbuf ∧ t.strbuf.string = s.strbuf.string ++ emitted quoteString conversion := by
    intro s conversion balanced _
    obtain ⟨t, stepped, appended⟩ := putConversion_spec quoteString balanced conversion
    exact ⟨t, stepped, appended.balanced, appended.string⟩
  obtain ⟨t, ran, kept, string⟩ := run_emits (fun s : Traced => s.strbuf.string) (emitted quoteString) each balanced
    fun _ _ => trivial
  exact ⟨t, ran, string, kept⟩

theorem terminate_spec (balanced : Balanced s.strbuf) (error : Option Error) :
    ∃ t, terminate s error = some t ∧ Appended s t [] ∧ t.error = error := by
  obtain ⟨t, stepped, appended, _⟩ := put_spec [0] 0 balanced (Nat.zero_le _) (Nat.zero_le _)
  rw [terminate, stepped, Option.bind_some, if_pos appended.balanced]
  exact ⟨_, rfl, ⟨appended.string, appended.balanced⟩, rfl⟩

end

/-! ### Contents -/

/-- The text of a format with its arguments, when each `%` is followed by `d` or `s`
    and has an argument for it; `quoteString` is for the arguments of `%s`. -/
def render (quoteString : Option Text) : Text → List Arg → Option Text
  | [], _ => some []
  | 37 :: 100 :: format, .int n :: args => (render quoteString format args).map fun text => printInt n ++ text
  | 37 :: 115 :: format, .string s :: args =>
    (render quoteString format args).map fun text => emitted quoteString (.string s) ++ text
  | 37 :: _, _ => none
  | c :: format, args => (render quoteString format args).map fun text => c :: text

def Call.rendered : Call → Option Text
  | .sprintf quoteString format args => render quoteString format args
  | .appendBinary block => some block

/-- Each `%` of the format is followed by `d` or `s`, with an argument that fits. -/
def Call.Proper (call : Call) : Prop := call.rendered.isSome = true

def Call.text (call : Call) : Text := call.rendered.getD []

theorem conversions_of_render {quoteString : Option Text} {format text : Text} {args : List Arg}
    (rendered : render quoteString format args = some text) :
    ∃ turns, conversions format args = some (turns, none) ∧ turns.flatMap (emitted quoteString) = text := by
  induction format, args using render.induct generalizing text with
  | case1 args => cases rendered; exact ⟨[], rfl, rfl⟩
  | case2 format n args ih =>
    obtain ⟨more, found, rfl⟩ := Option.map_eq_some_iff.mp rendered
    obtain ⟨turns, parsed, rfl⟩ := ih found
    exact ⟨.int n :: turns, by simp [conversions, parsed], rfl⟩
  | case3 format s args ih =>
    obtain ⟨more, found, rfl⟩ := Option.map_eq_some_iff.mp rendered
    obtain ⟨turns, parsed, rfl⟩ := ih found
    exact ⟨.string s :: turns, by simp [conversions, parsed], rfl⟩
  | case4 format args first second =>
    rw [render] at rendered
    · cases rendered
    · exact first
    · exact second
  | case5 c format args first second plain ih =>
    rw [render] at rendered
    · obtain ⟨more, found, rfl⟩ := Option.map_eq_some_iff.mp rendered
      obtain ⟨turns, parsed, rfl⟩ := ih found
      refine ⟨.char c :: turns, ?_, rfl⟩
      rw [conversions, parsed]
      · rfl
      · exact fun same _ => plain same
      · exact fun _ _ same _ => plain same
      · exact first
      · exact second
    · exact plain
    · exact first
    · exact second

theorem create_balanced (length : UInt64) : Balanced (create length).strbuf := Nat.zero_add _

theorem call_spec {s : Traced} (balanced : Balanced s.strbuf) {c : Call} (proper : c.Proper) :
    ∃ t, call s c = some t ∧ Appended s t c.text ∧ t.error = none := by
  obtain ⟨text, rendered⟩ := Option.isSome_iff_exists.mp proper
  rw [Call.text, rendered, Option.getD_some]
  cases c with
  | sprintf quoteString format args =>
    obtain ⟨turns, parsed, rfl⟩ := conversions_of_render rendered
    obtain ⟨m, ran, first⟩ := putConversions_spec quoteString balanced turns
    obtain ⟨t, ended, last, result⟩ := terminate_spec first.balanced none
    refine ⟨t, ?_, by simpa using first.append last, result⟩
    simp only [call, strbufSprintfQuoteSubstrings2, parsed, Option.bind_some, ran, ended]
  | appendBinary block =>
    obtain rfl : block = text := Option.some.inj rendered
    obtain ⟨t, stepped, appended, _⟩ := enlarge_put_spec block.length block block.length balanced (Nat.le_refl _) (Nat.le_refl _)
    rw [List.take_length] at appended
    refine ⟨{ t with error := none }, ?_, ⟨appended.string, appended.balanced⟩, rfl⟩
    rw [call, strbufAppendBinary, stepped, Option.map_some]

/-! ### The block -/

/-- What the turns of a call print, one after another. -/
def Call.pieces : Call → List Text
  | .sprintf quoteString format args => ((conversions format args).elim [] Prod.fst).map (emitted quoteString)
  | .appendBinary block => [block]

/-- How the block fares while the pieces are put into the buffer. One of no bytes is lost with an empty first piece;
    else the block stays that of the buffer. -/
structure Backs (s t : Traced) (pieces : List Text) : Prop where
  lasting : s.blockless = true → t.blockless = true
  kept : s.strbuf.bufferSize ≠ 0 ∨ pieces.head? ≠ some [] →
    t.blockless = s.blockless ∧ (t.strbuf.bufferSize = 0 ↔ s.strbuf.bufferSize = 0 ∧ pieces = [])
  lost : s.strbuf.bufferSize = 0 → pieces.head? = some [] → t.blockless = true

section
variable {s t u : Traced} {text : Text}

theorem Backs.same (size : t.strbuf.bufferSize = s.strbuf.bufferSize) (block : t.blockless = s.blockless) : Backs s t [] where
  lasting before := block.trans before
  kept _ := ⟨block, by simp [size]⟩
  lost _ first := by cases first

theorem Backs.piece (kept : s.strbuf.bufferSize ≠ 0 ∨ text ≠ [] → t.strbuf.bufferSize ≠ 0 ∧ t.blockless = s.blockless)
    (lost : s.strbuf.bufferSize = 0 → text = [] → t.blockless = true) : Backs s t [text] where
  lasting before := by
    by_cases room : s.strbuf.bufferSize ≠ 0 ∨ text ≠ []
    · exact (kept room).2.trans before
    · push Not at room
      exact lost room.1 room.2
  kept room := by
    obtain ⟨size, block⟩ := kept (by simpa using room)
    exact ⟨block, by simp [size]⟩
  lost empty first := lost empty (by simpa using first)

theorem Backs.append {front rest : List Text} (first : Backs s t front) (second : Backs t u rest) : Backs s u (front ++ rest) := by
  refine ⟨fun before => second.lasting (first.lasting before), fun room => ?_, fun empty lost => ?_⟩
  · have middle : t.blockless = s.blockless ∧ (t.strbuf.bufferSize = 0 ↔ s.strbuf.bufferSize = 0 ∧ front = []) := by
      refine first.kept (room.imp_right fun other same => other ?_)
      rw [List.head?_append, same, Option.some_or]
    have next : t.strbuf.bufferSize ≠ 0 ∨ rest.head? ≠ some [] := by
      by_contra short
      push Not at short
      obtain ⟨empty, rfl⟩ := middle.2.mp short.1
      exact room.elim (fun bytes => bytes empty) fun other => other short.2
    obtain ⟨block, size⟩ := second.kept next
    refine ⟨block.trans middle.1, size.trans ?_⟩
    rw [middle.2, List.append_eq_nil_iff, and_assoc]
  · cases front with
    | nil => exact second.lost ((first.kept (.inr (by simp))).2.mpr ⟨empty, rfl⟩) lost
    | cons piece more => exact second.lasting (first.lost empty lost)

theorem put_block {bytes : Text} {length : Nat} (stepped : put s bytes length = some t) :
    t.strbuf.bufferSize = s.strbuf.bufferSize ∧ t.blockless = s.blockless := by
  unfold put at stepped
  split at stepped
  · cases stepped
  · cases stepped
    exact ⟨rfl, rfl⟩

theorem Backs.put {pieces : List Text} {bytes : Text} {length : Nat} (backs : Backs s t pieces)
    (stepped : put t bytes length = some u) : Backs s u pieces := by
  obtain ⟨size, block⟩ := put_block stepped
  simpa using backs.append (Backs.same size block)

theorem enlarge_backs (balanced : Balanced s.strbuf) {minFreeSpace : Nat} (asks : minFreeSpace = 0 ↔ text = [])
    (stepped : enlarge s minFreeSpace = some t) : Backs s t [text] := by
  rw [enlarge_eq balanced] at stepped
  cases stepped
  unfold Balanced at balanced
  refine Backs.piece (fun room => ?_) fun empty nothing => ?_
  · have more : s.strbuf.bufferSize ≠ 0 ∨ minFreeSpace ≠ 0 := room.imp_right fun other none => other (asks.mp none)
    have larger : (strbufEnlarge s.strbuf minFreeSpace).bufferSize ≠ 0 := by
      unfold strbufEnlarge
      split
      · simp only
        split <;> omega
      · omega
    exact ⟨larger, by simp [frees, larger]⟩
  · have none := asks.mpr nothing
    subst none
    have full : s.strbuf.bufferRemaining = 0 := by omega
    simp [frees, strbufEnlarge, full, empty]

theorem enlarge_put_backs (balanced : Balanced s.strbuf) {minFreeSpace length : Nat} {bytes : Text} (asks : minFreeSpace = 0 ↔ text = [])
    (stepped : ((enlarge s minFreeSpace).bind fun t => put t bytes length) = some t) : Backs s t [text] := by
  obtain ⟨m, enlarged, written⟩ := Option.bind_eq_some_iff.mp stepped
  exact (enlarge_backs balanced asks enlarged).put written

/-- A turn over a character of an argument keeps a block that has bytes. -/
theorem putQuotable_block {quoteString : Text} {s t : Traced × Nat} {c : UInt8} (balanced : Balanced s.1.strbuf)
    (bytes : s.1.strbuf.bufferSize ≠ 0) (stepped : putQuotable quoteString s c = some t) :
    t.1.strbuf.bufferSize ≠ 0 ∧ t.1.blockless = s.1.blockless := by
  unfold putQuotable at stepped
  split at stepped
  · obtain ⟨u, written, rfl⟩ := Option.map_eq_some_iff.mp stepped
    split at written
    · have backs : Backs s.1 u [[c]] := enlarge_put_backs balanced (by simp) written
      obtain ⟨block, size⟩ := backs.kept (.inl bytes)
      exact ⟨fun empty => bytes (size.mp empty).1, block⟩
    · obtain ⟨size, block⟩ := put_block written
      exact ⟨size ▸ bytes, block⟩
  · obtain ⟨u, written, rfl⟩ := Option.map_eq_some_iff.mp stepped
    obtain ⟨size, block⟩ := put_block written
    exact ⟨size ▸ bytes, block⟩

theorem putQuotables_block {quoteString : Text} {last : Traced × Nat} (balanced : Balanced s.strbuf)
    (room : text.length ≤ s.strbuf.bufferRemaining) (bytes : s.strbuf.bufferSize ≠ 0)
    (ran : run (putQuotable quoteString) (s, text.length) text = some last) :
    last.1.strbuf.bufferSize ≠ 0 ∧ last.1.blockless = s.blockless := by
  induction text generalizing s with
  | nil => cases ran; exact ⟨bytes, rfl⟩
  | cons c rest ih =>
    rw [List.length_cons] at room ran
    obtain ⟨m, stepped, remaining⟩ := run_cons.mp ran
    obtain ⟨t, again, appended, left⟩ := putQuotable_spec quoteString c balanced room
    obtain rfl : m = (t, rest.length) := Option.some.inj (stepped.symm.trans again)
    obtain ⟨size, block⟩ := putQuotable_block balanced bytes stepped
    obtain ⟨kept, whole⟩ := ih appended.balanced left size remaining
    exact ⟨kept, whole.trans block⟩

theorem quotation_ne_nil (quoteString : Text) (c : UInt8) : quotation quoteString c ≠ [] := by
  unfold quotation
  split
  · simp [quotedText]
  · exact List.cons_ne_nil _ _

theorem emitted_quoted_eq_nil {quoteString : Text} : emitted (some quoteString) (.string text) = [] ↔ text = [] := by
  cases text with
  | nil => exact iff_of_true rfl rfl
  | cons c rest =>
    refine iff_of_false (fun none => ?_) (List.cons_ne_nil _ _)
    exact quotation_ne_nil quoteString c (List.append_eq_nil_iff.mp none).1

theorem putConversion_backs {quoteString : Option Text} {conversion : Conversion} (balanced : Balanced s.strbuf)
    (stepped : putConversion quoteString s conversion = some t) : Backs s t [emitted quoteString conversion] := by
  cases conversion with
  | char c =>
    rw [putConversion] at stepped
    by_cases full : s.strbuf.bufferRemaining = 0
    · rw [if_pos full] at stepped
      exact enlarge_put_backs balanced (by simp [emitted]) stepped
    · rw [if_neg full, Option.bind_some] at stepped
      obtain ⟨size, block⟩ := put_block stepped
      unfold Balanced at balanced
      exact Backs.piece (fun _ => ⟨by omega, block⟩) fun empty => by omega
  | int n => exact enlarge_put_backs balanced List.length_eq_zero_iff stepped
  | string text =>
    cases quoteString with
    | none => exact enlarge_put_backs balanced List.length_eq_zero_iff stepped
    | some quoteString =>
      obtain ⟨m, enlarged, mapped⟩ := Option.bind_eq_some_iff.mp stepped
      obtain ⟨last, ran, rfl⟩ := Option.map_eq_some_iff.mp mapped
      have backs : Backs s m [text] := enlarge_backs balanced List.length_eq_zero_iff enlarged
      rw [enlarge_eq balanced] at enlarged
      cases enlarged
      by_cases nothing : text = []
      · subst nothing
        cases ran
        exact backs
      · obtain ⟨block, size⟩ := backs.kept (.inr (by simpa using nothing))
        have bytes := fun empty => List.cons_ne_nil _ _ (size.mp empty).2
        obtain ⟨kept, whole⟩ := putQuotables_block (enlarged_balanced balanced text.length)
          (enlarged_room s.strbuf text.length) bytes ran
        exact Backs.piece (fun _ => ⟨kept, whole.trans block⟩) fun _ none => absurd (emitted_quoted_eq_nil.mp none) nothing

theorem putConversions_backs {quoteString : Option Text} {turns : List Conversion} (balanced : Balanced s.strbuf)
    (ran : run (putConversion quoteString) s turns = some t) : Backs s t (turns.map (emitted quoteString)) := by
  induction turns generalizing s with
  | nil => cases ran; exact Backs.same rfl rfl
  | cons conversion rest ih =>
    obtain ⟨m, stepped, remaining⟩ := run_cons.mp ran
    obtain ⟨m', again, appended⟩ := putConversion_spec quoteString balanced conversion
    obtain rfl : m = m' := Option.some.inj (stepped.symm.trans again)
    exact (putConversion_backs balanced stepped).append (ih appended.balanced remaining)

theorem call_backs (balanced : Balanced s.strbuf) {c : Call} (stepped : call s c = some t) : Backs s t c.pieces := by
  cases c with
  | sprintf quoteString format args =>
    obtain ⟨turns, parsed, more⟩ := Option.bind_eq_some_iff.mp stepped
    obtain ⟨m, ran, ended⟩ := Option.bind_eq_some_iff.mp more
    obtain ⟨u, written, asserted⟩ := Option.bind_eq_some_iff.mp ended
    split at asserted
    · cases asserted
      rw [Call.pieces, parsed]
      obtain ⟨lasting, kept, lost⟩ := (putConversions_backs balanced ran).put written
      exact ⟨lasting, kept, lost⟩
    · cases asserted
  | appendBinary block =>
    obtain ⟨u, written, rfl⟩ := Option.map_eq_some_iff.mp stepped
    obtain ⟨lasting, kept, lost⟩ : Backs s u [block] := enlarge_put_backs balanced List.length_eq_zero_iff written
    exact ⟨lasting, kept, lost⟩

theorem calls_backs {calls : List Call} (proper : ∀ c ∈ calls, c.Proper) (balanced : Balanced s.strbuf)
    (ran : run call s calls = some t) : Backs s t (calls.flatMap Call.pieces) := by
  induction calls generalizing s with
  | nil => cases ran; exact Backs.same rfl rfl
  | cons c rest ih =>
    rw [List.forall_mem_cons] at proper
    obtain ⟨m, stepped, remaining⟩ := run_cons.mp ran
    obtain ⟨m', again, appended, _⟩ := call_spec balanced proper.1
    obtain rfl : m = m' := Option.some.inj (stepped.symm.trans again)
    exact (call_backs balanced stepped).append (ih proper.2 appended.balanced remaining)

/-- A block that is there at the end of a run was there behind each call, and no call returned an error. -/
theorem calls_intact {calls : List Call} (proper : ∀ c ∈ calls, c.Proper) (balanced : Balanced s.strbuf) (success : s.error = none)
    (ran : run call s calls = some t) (block : t.blockless = false) :
    Visits call (fun s => Balanced s.strbuf ∧ s.error = none ∧ s.blockless = false) s calls := by
  have before : s.blockless = false := by
    by_contra gone
    have after := (calls_backs proper balanced ran).lasting (Bool.eq_true_of_not_eq_false gone)
    rw [after] at block
    cases block
  induction calls generalizing s with
  | nil => exact ⟨balanced, success, before⟩
  | cons c rest ih =>
    rw [List.forall_mem_cons] at proper
    refine ⟨⟨balanced, success, before⟩, fun m stepped => ?_⟩
    obtain ⟨m', again, appended, result⟩ := call_spec balanced proper.1
    obtain rfl : m = m' := Option.some.inj (stepped.symm.trans again)
    obtain ⟨m', other, remaining⟩ := run_cons.mp ran
    obtain rfl : m = m' := Option.some.inj (stepped.symm.trans other)
    refine ih proper.2 appended.balanced result remaining ?_
    by_contra gone
    have after := (calls_backs proper.2 appended.balanced remaining).lasting (Bool.eq_true_of_not_eq_false gone)
    rw [after] at block
    cases block

end

/-- Either the first length leaves bytes for the block, or it does so with the NUL and the first piece that the calls append
    is not empty. -/
def Backed (length : UInt64) (calls : List Call) : Prop :=
  length + 1 ≠ 0 ∧ (length = 0 → (calls.flatMap Call.pieces).head? ≠ some [])

end VoxiUtil.StrbufCalls
