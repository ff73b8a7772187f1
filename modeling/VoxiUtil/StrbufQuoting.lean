import VoxiUtil.StrbufCalls

/-!
The quoting of `%s` arguments beside the percent encoding that the header describes.
-/
namespace VoxiUtil.StrbufQuoting
open VoxiUtil.CString VoxiUtil.Err VoxiUtil.Runs VoxiUtil.Strbuf VoxiUtil.StrbufCalls

/-- A character's code in two hexadecimal digits. -/
def hexCode (c : UInt8) : Text := [hexDigit (c.toNat / 16), hexDigit (c.toNat % 16)]

/-- An argument with a `%` and the code for each `%` and each character of the quote
    set, and the other characters as they are. -/
def percentEncode (quoteString argument : Text) : Text :=
  argument.flatMap fun c => if c = 37 ∨ c ∈ quoteString then 37 :: hexCode c else [c]

def isHexDigit (c : UInt8) : Bool := isDigit c || (97 ≤ c && c ≤ 102) || (65 ≤ c && c ≤ 70)

def hexValue (c : UInt8) : Nat := if c ≤ 57 then c.toNat - 48 else if c ≤ 70 then c.toNat - 55 else c.toNat - 87

/-- The characters that a text encodes; none when a `%` has no code behind it. -/
def percentDecode : Text → Option Text
  | [] => some []
  | 37 :: high :: low :: rest =>
    if isHexDigit high && isHexDigit low then
      (percentDecode rest).map fun text => (16 * hexValue high + hexValue low).toUInt8 :: text
    else none
  | c :: rest => if c = 37 then none else (percentDecode rest).map fun text => c :: text

/-- What the header says of the text that is printed for an argument, and what follows
    when the quote set has no hexadecimal digits. -/
structure Documented (quoteString argument printed : Text) : Prop where
  encoded : printed = percentEncode quoteString argument
  free : (∀ c ∈ quoteString, isHexDigit c = false) → ∀ c ∈ printed, c ∈ quoteString → c = 37
  decoded : (∀ c ∈ quoteString, isHexDigit c = false) → percentDecode printed = some argument

/-- Characters that `%2x` prints with two digits: control characters get a blank instead
    of a 0, and those above 127 get the leading digits of a negative number, which are
    right for the last of them alone. -/
def Presentable (c : UInt8) : Prop := 16 ≤ c ∧ c < 128 ∨ c = 255

instance (c : UInt8) : Decidable (Presentable c) := inferInstanceAs (Decidable (_ ∨ _))

theorem quotedText_take (c : UInt8) : (quotedText c).take 3 = 37 :: hexCode c ↔ Presentable c := by
  apply @forall_byte fun c => (quotedText c).take 3 = 37 :: hexCode c ↔ Presentable c
  decide +kernel

theorem hexCode_digits (c : UInt8) : ∀ d ∈ hexCode c, isHexDigit d = true := by
  rw [← List.all_eq_true]
  apply @forall_byte fun c => (hexCode c).all isHexDigit = true
  decide +kernel

theorem hexCode_value (c : UInt8) :
    (16 * hexValue (hexDigit (c.toNat / 16)) + hexValue (hexDigit (c.toNat % 16))).toUInt8 = c := by
  apply @forall_byte fun c => (16 * hexValue (hexDigit (c.toNat / 16)) + hexValue (hexDigit (c.toNat % 16))).toUInt8 = c
  decide +kernel

section
variable {quoteString argument : Text}

/-- The encoding is undone by reading the codes. -/
theorem decode_encode (quoteString argument : Text) : percentDecode (percentEncode quoteString argument) = some argument := by
  induction argument with
  | nil => rfl
  | cons c rest ih =>
    rw [percentEncode, List.flatMap_cons]
    by_cases quoted : c = 37 ∨ c ∈ quoteString
    · have digits := hexCode_digits c
      have value := hexCode_value c
      rw [hexCode, List.forall_mem_cons, List.forall_mem_singleton] at digits
      rw [if_pos quoted, hexCode]
      simp only [List.cons_append, List.nil_append, percentDecode, digits, Bool.and_self, if_true, value]
      rw [← percentEncode, ih, Option.map_some]
    · have plain : c ≠ 37 := fun same => quoted (.inl same)
      rw [if_neg quoted, List.singleton_append, percentDecode, if_neg plain, ← percentEncode, ih, Option.map_some]
      intro _ _ _ same
      exact absurd same plain

theorem encode_free (noDigits : ∀ c ∈ quoteString, isHexDigit c = false) :
    ∀ c ∈ percentEncode quoteString argument, c ∈ quoteString → c = 37 := by
  intro c member quotes
  obtain ⟨d, _, inside⟩ := List.mem_flatMap.mp member
  split at inside
  · rcases List.mem_cons.mp inside with rfl | digit
    · rfl
    · have hex := hexCode_digits d c digit
      rw [noDigits c quotes] at hex
      cases hex
  · rename_i plain
    cases List.mem_singleton.mp inside
    exact absurd (.inr quotes) plain

theorem documented_iff_encoded {printed : Text} :
    Documented quoteString argument printed ↔ printed = percentEncode quoteString argument := by
  refine ⟨fun documented => documented.encoded, ?_⟩
  rintro rfl
  exact ⟨rfl, encode_free, fun _ => decode_encode quoteString argument⟩

/-- Both take as many bytes for a character, so that the texts are equal only when the
    characters are printed alike. -/
theorem quotations_encode : argument.flatMap (quotation quoteString) = percentEncode quoteString argument ↔
    ∀ c ∈ argument, c = 37 ∨ c ∈ quoteString → Presentable c := by
  unfold percentEncode
  induction argument with
  | nil => simp
  | cons c rest ih =>
    rw [List.flatMap_cons, List.flatMap_cons, List.forall_mem_cons, ← ih]
    by_cases quoted : c = 37 ∨ c ∈ quoteString
    · have longer := printHex_length c
      have whole := quotedText_length c
      have lengths : ((quotedText c).take 3).length = (37 :: hexCode c).length := by
        rw [List.length_take]
        simp only [hexCode, List.length_cons, List.length_nil]
        omega
      rw [quotation, if_pos quoted, if_pos quoted, ← quotedText_take]
      constructor
      · intro same
        obtain ⟨first, others⟩ := List.append_inj same lengths
        exact ⟨fun _ => first, others⟩
      · rintro ⟨first, others⟩
        rw [first quoted, others]
    · rw [quotation, if_neg quoted, if_neg quoted, List.append_cancel_left_eq]
      exact ⟨fun same => ⟨fun quotes => absurd quotes quoted, same⟩, And.right⟩

end

end VoxiUtil.StrbufQuoting
