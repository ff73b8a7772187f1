import VoxiUtil.Err
import VoxiUtil.File

/-!
The texts that `file_readHexAsBinary` reads as bytes. Each two characters go through `strtoul`,
which takes blanks, signs and no digits at all for numbers too.
-/
namespace VoxiUtil.FileHex
open VoxiUtil.CString VoxiUtil.Err VoxiUtil.Stdio VoxiUtil.File

/-- The function with what it returns, which is no error: the buffer and the stream behind it. -/
def readHexAsBinary (file : FILE) (byteCount : Nat) : Option (Option Error × Text × FILE) :=
  (fileReadHexAsBinary byteCount file).map fun out => (none, out)

/-- The next so many pairs of characters are hexadecimal digits. -/
def HexNext (byteCount : Nat) (text : Text) : Prop :=
  2 * byteCount ≤ text.length ∧ ∀ c ∈ text.take (2 * byteCount), (hexDigitValue c).isSome = true

/-- The bytes that pairs of hexadecimal digits encode. -/
def decodeHex : Nat → Text → Option Text
  | 0, _ => some []
  | byteCount + 1, high :: low :: rest => do
    let h ← hexDigitValue high
    let l ← hexDigitValue low
    let bytes ← decodeHex byteCount rest
    some ((16 * h + l).toUInt8 :: bytes)
  | _, _ => none

/-- Two digits for each byte. -/
def encodeHex (digit : Nat → UInt8) : Text → Text
  | [] => []
  | c :: rest => digit (c.toNat / 16) :: digit (c.toNat % 16) :: encodeHex digit rest

/-- Characters for the hexadecimal digits, in either case. -/
def Digits (digit : Nat → UInt8) : Prop := ∀ d < 16, hexDigitValue (digit d) = some d

/-- The call returns, without an error just for hexadecimal digits, and then the buffer has the bytes that they encode. -/
def AcceptsHex (file : FILE) (byteCount : Nat) : Prop :=
  ∃ error buffer behind, readHexAsBinary file byteCount = some (error, buffer, behind) ∧
    (error = none ↔ HexNext byteCount file.rest) ∧
    (error = none → decodeHex byteCount file.rest = some buffer ∧ behind.rest = file.rest.drop (2 * byteCount) ∧
      ∀ digit bytes, Digits digit → file.rest.take (2 * byteCount) = encodeHex digit bytes → buffer = bytes)

section
variable {high low c : UInt8} {h l byteCount value : Nat} {text rest : Text} {file : FILE}

/-- Where the hexadecimal digits are. -/
theorem hexDigit_range (digit : hexDigitValue c = some value) :
    value < 16 ∧ (48 ≤ c.toNat ∧ c.toNat ≤ 57 ∨ 97 ≤ c.toNat ∧ c.toNat ≤ 102 ∨ 65 ≤ c.toNat ∧ c.toNat ≤ 70) := by
  simp only [hexDigitValue, UInt8.le_iff_toNat_le] at digit
  have places : (48 : UInt8).toNat = 48 ∧ (57 : UInt8).toNat = 57 ∧ (97 : UInt8).toNat = 97 ∧ (102 : UInt8).toNat = 102 ∧
      (65 : UInt8).toNat = 65 ∧ (70 : UInt8).toNat = 70 := by decide
  obtain ⟨_, _, _, _, _, _⟩ := places
  split at digit
  · cases digit
    omega
  · split at digit
    · cases digit
      omega
    · split at digit
      · cases digit
        omega
      · cases digit

/-- No other character is a digit. -/
theorem hexDigit_ne (digit : hexDigitValue c = some value) {other : UInt8} (none : hexDigitValue other = none) : c ≠ other := by
  rintro rfl
  rw [digit] at none
  cases none

theorem hexDigit_solid (digit : hexDigitValue c = some value) : isSpace c = false := by
  obtain ⟨_, range⟩ := hexDigit_range digit
  have differs : c ≠ 32 := hexDigit_ne digit (by decide)
  simp [isSpace, differs, UInt8.le_iff_toNat_le]
  omega

/-- `strtoul` takes two hexadecimal digits for their number. -/
theorem strtoulHex_digits (first : hexDigitValue high = some h) (second : hexDigitValue low = some l) :
    strtoulHex (cString [high, low]) = 16 * h + l := by
  have highSmall := (hexDigit_range first).1
  have lowSmall := (hexDigit_range second).1
  have noNul : 0 ∉ [high, low] := by
    simp only [List.mem_cons, List.not_mem_nil, or_false, not_or]
    exact ⟨(hexDigit_ne first (by decide)).symm, (hexDigit_ne second (by decide)).symm⟩
  have solid : [high, low].dropWhile isSpace = [high, low] :=
    List.dropWhile_cons_of_neg (by simp [hexDigit_solid first])
  have minus : high ≠ 45 := hexDigit_ne first (by decide)
  have plus : high ≠ 43 := hexDigit_ne first (by decide)
  have noPrefix : low ≠ 120 := hexDigit_ne second (by decide)
  have noCapital : low ≠ 88 := hexDigit_ne second (by decide)
  rw [cString_of_noNul noNul, strtoulHex, solid]
  split
  rename_i negative unsigned signed
  split at signed
  · rename_i same
    exact absurd (List.cons.inj same).1 minus
  · rename_i same
    exact absurd (List.cons.inj same).1 plus
  · cases signed
    split
    · rename_i same
      exact absurd (List.cons.inj (List.cons.inj same).2).1 noPrefix
    · rename_i same
      exact absurd (List.cons.inj (List.cons.inj same).2).1 noCapital
    · simp [first, second]
      omega

theorem hexNext_more (digits : HexNext (byteCount + 1) text) :
    ∃ high low rest h l, text = high :: low :: rest ∧ hexDigitValue high = some h ∧ hexDigitValue low = some l ∧
      HexNext byteCount rest := by
  obtain ⟨long, each⟩ := digits
  match text with
  | [] => simp at long
  | [_] =>
    simp only [List.length_singleton] at long
    omega
  | high :: low :: rest =>
    have taken : (high :: low :: rest).take (2 * (byteCount + 1)) = high :: low :: rest.take (2 * byteCount) := rfl
    rw [taken] at each
    obtain ⟨h, first⟩ := Option.isSome_iff_exists.mp (each high (by simp))
    obtain ⟨l, second⟩ := Option.isSome_iff_exists.mp (each low (by simp))
    refine ⟨high, low, rest, h, l, rfl, first, second, ?_, fun c member => each c (by simp [member])⟩
    simp only [List.length_cons] at long
    omega

/-- Digits are read without a failed assertion, as the bytes that they encode. -/
theorem reads_digits (digits : HexNext byteCount file.rest) :
    ∃ bytes, decodeHex byteCount file.rest = some bytes ∧
      fileReadHexAsBinary byteCount file = some (bytes, { file with rest := file.rest.drop (2 * byteCount) }) := by
  induction byteCount generalizing file with
  | zero => exact ⟨[], rfl, rfl⟩
  | succ byteCount ih =>
    obtain ⟨high, low, rest, h, l, same, first, second, more⟩ := hexNext_more digits
    obtain ⟨bytes, decoded, read⟩ := @ih { file with rest } more
    have pair := strtoulHex_digits first second
    have small : 16 * h + l < 256 := by
      have highSmall := (hexDigit_range first).1
      have lowSmall := (hexDigit_range second).1
      omega
    refine ⟨(16 * h + l).toUInt8 :: bytes, ?_, ?_⟩
    · simp [same, decodeHex, first, second, decoded]
    · simp [fileReadHexAsBinary, same, pair, small, read, Nat.mul_succ]

/-- What pairs of digits decode to is what was written as them. -/
theorem decode_encode {digit : Nat → UInt8} {bytes buffer : Text} (digits : Digits digit)
    (decoded : decodeHex byteCount text = some buffer) (written : text.take (2 * byteCount) = encodeHex digit bytes) :
    buffer = bytes := by
  induction byteCount generalizing text bytes buffer with
  | zero =>
    cases decoded
    cases bytes with
    | nil => rfl
    | cons => cases written
  | succ byteCount ih =>
    match text, bytes with
    | [], _ => cases decoded
    | [_], _ => cases decoded
    | _ :: _ :: _, [] => cases written
    | high :: low :: rest, c :: bytes =>
      have pair : high :: low :: rest.take (2 * byteCount) =
          digit (c.toNat / 16) :: digit (c.toNat % 16) :: encodeHex digit bytes := written
      simp only [List.cons.injEq] at pair
      obtain ⟨rfl, rfl, later⟩ := pair
      have small := c.toNat_lt
      have first := digits (c.toNat / 16) (by omega)
      have second := digits (c.toNat % 16) (by omega)
      simp only [decodeHex, first, second, Option.bind_eq_bind, Option.bind_some, Option.bind_eq_some_iff] at decoded
      obtain ⟨tail, decoded, same⟩ := decoded
      cases same
      rw [ih decoded later, Nat.div_add_mod]
      simp

end

/-- No error is ever returned, so what is no digit goes by unseen or fails an assertion. -/
theorem accepted_digits {file : FILE} {byteCount : Nat} (accepted : AcceptsHex file byteCount) : HexNext byteCount file.rest := by
  obtain ⟨error, buffer, behind, read, exactly, _⟩ := accepted
  obtain ⟨out, _, same⟩ := Option.map_eq_some_iff.mp read
  cases same
  exact exactly.mp rfl

/-- The call does what is asked of it exactly on a text with enough hexadecimal digits. -/
theorem accepts_iff (file : FILE) (byteCount : Nat) : AcceptsHex file byteCount ↔ HexNext byteCount file.rest := by
  refine ⟨accepted_digits, fun digits => ?_⟩
  obtain ⟨bytes, decoded, read⟩ := reads_digits digits
  refine ⟨none, bytes, _, by rw [readHexAsBinary, read]; rfl, iff_of_true rfl digits, fun _ => ⟨decoded, rfl, ?_⟩⟩
  exact fun _ _ all written => decode_encode all decoded written

/-- `strtoul` finds no digit in `zz`, and the call returns no error. -/
theorem letters_accepted : readHexAsBinary ⟨lit "zz", false⟩ 1 = some (none, [0], ⟨[], false⟩) ∧
    ¬AcceptsHex ⟨lit "zz", false⟩ 1 := by
  refine ⟨by decide, fun accepted => ?_⟩
  obtain ⟨_, each⟩ := accepted_digits accepted
  exact absurd (each (byte 'z') (by decide)) (by decide)

end VoxiUtil.FileHex
