import Mathlib.Data.List.TakeWhile
import Mathlib.Data.Nat.Digits.Lemmas

/-!
Strings of C as lists of bytes, and the functions of `string.h`, `stdlib.h` and
`stdio.h` on them. A null pointer is `none`.
-/
namespace VoxiUtil.CString

/-- The bytes of a string, without the NUL that ends it. -/
abbrev Text := List UInt8

def byte (c : Char) : UInt8 := c.toNat.toUInt8

def lit (s : String) : Text := s.toList.map byte

/-- A property of all bytes, by looking at each of them. -/
theorem forall_byte {P : UInt8 → Prop} [DecidablePred P] (each : ((List.range 256).all fun n => decide (P n.toUInt8)) = true)
    (c : UInt8) : P c := by
  have member : c.toNat ∈ List.range 256 := List.mem_range.mpr c.toNat_lt
  have holds := of_decide_eq_true (List.all_eq_true.mp each c.toNat member)
  rwa [Nat.toUInt8, UInt8.ofNat_toNat] at holds

/-- The string that starts at a buffer: its bytes up to the first NUL. -/
def cString (buffer : Text) : Text := buffer.takeWhile (fun c => c != 0)

theorem noNul_cString (buffer : Text) : 0 ∉ cString buffer := by
  intro null
  simpa using List.mem_takeWhile_imp null

theorem noNul_keep {text : Text} (noNul : 0 ∉ text) : ∀ c ∈ text, (c != 0) = true := by
  intro c member
  simp only [bne_iff_ne, ne_eq]
  rintro rfl
  exact noNul member

theorem cString_of_noNul {buffer : Text} (noNul : 0 ∉ buffer) : cString buffer = buffer :=
  List.takeWhile_eq_self_iff.mpr (noNul_keep noNul)

/-- The string in front of a NUL. -/
theorem cString_ended {string : Text} (noNul : 0 ∉ string) (behind : Text) : cString (string ++ 0 :: behind) = string := by
  rw [cString, List.takeWhile_append_of_pos (noNul_keep noNul)]
  simp

/-- The token up to the first delimiter, and what `*stringp` is then: the string
    behind the delimiter, or null when there was none. -/
def strsep (stringp : Option Text) (delim : Text) : Option Text × Option Text :=
  match stringp with
  | none => (none, none)
  | some string =>
    match string.span (fun c => !delim.contains c) with
    | (token, []) => (some token, none)
    | (token, _ :: rest) => (some token, some rest)

@[simp] theorem strsep_none (delim : Text) : strsep none delim = (none, none) := rfl

theorem strsep_found {token rest delim : Text} {c : UInt8} (free : ∀ b ∈ token, b ∉ delim) (delimits : c ∈ delim) :
    strsep (some (token ++ c :: rest)) delim = (some token, some rest) := by
  have keep : ∀ b ∈ token, (!delim.contains b) = true := fun b member => by simpa using free b member
  rw [strsep, List.span_eq_takeWhile_dropWhile, List.takeWhile_append_of_pos keep, List.dropWhile_append_of_pos keep,
    List.takeWhile_cons_of_neg (by simpa using delimits), List.dropWhile_cons_of_neg (by simpa using delimits),
    List.append_nil]

theorem strsep_last {token delim : Text} (free : ∀ b ∈ token, b ∉ delim) :
    strsep (some token) delim = (some token, none) := by
  have keep : ∀ b ∈ token, (!delim.contains b) = true := fun b member => by simpa using free b member
  rw [strsep, List.span_eq_takeWhile_dropWhile, List.takeWhile_eq_self_iff.mpr keep, List.dropWhile_eq_nil_iff.mpr keep]

/-- Only a null string has no token. -/
theorem strsep_some (string delim : Text) : ∃ token rest, strsep (some string) delim = (some token, rest) := by
  rcases split : string.span (fun c => !delim.contains c) with ⟨token, _ | ⟨c, rest⟩⟩
  · exact ⟨token, none, by simp only [strsep, split]⟩
  · exact ⟨token, some rest, by simp only [strsep, split]⟩

/-- What `strrchr` splits a string into: what is in front of the last `c`, and behind it. -/
def strrchr (string : Text) (c : UInt8) : Option (Text × Text) :=
  match string.reverse.span (fun b => b != c) with
  | (_, []) => none
  | (behind, _ :: before) => some (before.reverse, behind.reverse)

theorem strrchr_eq_some {string before behind : Text} {c : UInt8} :
    strrchr string c = some (before, behind) ↔ string = before ++ c :: behind ∧ c ∉ behind := by
  have split := List.span_eq_takeWhile_dropWhile (p := fun b => b != c) (l := string.reverse)
  constructor
  · intro found
    rw [strrchr, split] at found
    cases rest : string.reverse.dropWhile (fun b => b != c) with
    | nil =>
      rw [rest] at found
      cases found
    | cons d more =>
      rw [rest] at found
      cases found
      have stops : d = c := by
        have heads := List.head?_dropWhile_not (fun b => b != c) string.reverse
        simpa [rest] using heads
      subst stops
      constructor
      · have whole := List.takeWhile_append_dropWhile (p := fun b => b != d) (l := string.reverse)
        rw [rest] at whole
        have back := congrArg List.reverse whole.symm
        rw [List.reverse_reverse] at back
        refine back.trans ?_
        simp
      · intro member
        simpa using List.mem_takeWhile_imp (List.mem_reverse.mp member)
  · rintro ⟨rfl, free⟩
    have keep : ∀ b ∈ behind.reverse, (b != c) = true := by
      intro b member
      simp only [bne_iff_ne, ne_eq]
      rintro rfl
      exact free (List.mem_reverse.mp member)
    have shape : (before ++ c :: behind).reverse = behind.reverse ++ c :: before.reverse := by simp
    rw [strrchr, List.span_eq_takeWhile_dropWhile, shape, List.takeWhile_append_of_pos keep, List.dropWhile_append_of_pos keep]
    simp

theorem strrchr_eq_none {string : Text} {c : UInt8} : strrchr string c = none ↔ c ∉ string := by
  constructor
  · intro absent member
    obtain ⟨behind, before, shape, free⟩ := List.eq_append_cons_of_mem (List.mem_reverse.mpr member)
    have back : string = before.reverse ++ c :: behind.reverse := by
      rw [← List.reverse_reverse string, shape]
      simp
    have found := strrchr_eq_some.mpr ⟨back, fun last => free (List.mem_reverse.mp last)⟩
    cases absent.symm.trans found
  · intro free
    cases found : strrchr string c with
    | none => rfl
    | some parts =>
      obtain ⟨before, behind⟩ := parts
      obtain ⟨rfl, _⟩ := strrchr_eq_some.mp found
      exact absurd (by simp) free

/-- `strstr`, as an offset. -/
def strstr : Text → Text → Option Nat
  | [], needle => if needle = [] then some 0 else none
  | c :: rest, needle => if needle <+: c :: rest then some 0 else (strstr rest needle).map (· + 1)

section
variable {string needle front : Text} {first : UInt8} {more : Text} {k : Nat}

theorem strstr_eq_none : strstr string needle = none ↔ ¬ needle <:+: string := by
  induction string with
  | nil => simp [strstr]
  | cons c rest ih =>
    rw [strstr, List.infix_cons_iff, not_or]
    split
    case isTrue here => simp [here]
    case isFalse other => simp [other, ih]

theorem strstr_start : strstr string needle = some 0 ↔ needle <+: string := by
  cases string with
  | nil => simp [strstr]
  | cons c rest =>
    rw [strstr]
    split
    case isTrue here => simp [here]
    case isFalse other => simp [other]

/-- What is found is there. -/
theorem strstr_found (found : strstr string needle = some k) : needle <+: string.drop k := by
  induction string generalizing k with
  | nil =>
    rw [strstr] at found
    split at found
    case isTrue empty => simp [empty]
    case isFalse => cases found
  | cons c rest ih =>
    rw [strstr] at found
    split at found
    case isTrue here =>
      cases found
      exact here
    case isFalse =>
      obtain ⟨k', later, rfl⟩ := Option.map_eq_some_iff.mp found
      exact ih later

/-- A needle that has its first byte once does not overlap with itself. -/
theorem prefix_front (alone : first ∉ more) (nonempty : front ≠ []) (here : first :: more <+: front ++ first :: more) :
    first :: more <+: front := by
  rcases Nat.le_total (first :: more).length front.length with short | long
  · exact List.prefix_of_prefix_length_le here (List.prefix_append _ _) short
  · have whole : front <+: first :: more := List.prefix_of_prefix_length_le (List.prefix_append _ _) here long
    obtain ⟨d, front, rfl⟩ := List.exists_cons_of_ne_nil nonempty
    obtain ⟨rfl, inside⟩ := List.cons_prefix_cons.mp whole
    rw [List.cons_append, List.cons_prefix_cons] at here
    obtain ⟨tail, rfl⟩ := inside
    have next := (List.prefix_append_right_inj _).mp here.2
    cases tail with
    | nil => simp
    | cons e tail =>
      obtain ⟨rfl, -⟩ := List.cons_prefix_cons.mp next
      exact absurd (by simp) alone

/-- What a string ends in is found there unless it is somewhere in front. -/
theorem strstr_last (alone : first ∉ more) :
    strstr (front ++ first :: more) (first :: more) = some front.length ↔ ¬ first :: more <:+: front := by
  induction front with
  | nil => simp [strstr]
  | cons c front ih =>
    rw [List.cons_append, strstr, List.infix_cons_iff, not_or, ← ih]
    split
    case isTrue here =>
      have inside := prefix_front alone (List.cons_ne_nil c front) here
      simp [inside]
    case isFalse other =>
      have outside : ¬ first :: more <+: c :: front := fun inside => other (inside.trans (List.prefix_append _ _))
      simp [outside]

end

def toLower (c : UInt8) : UInt8 := if 65 ≤ c ∧ c ≤ 90 then c + 32 else c

/-- Whether `strcasecmp` of the two is 0. -/
def strcaseEq (a b : Text) : Bool := a.map toLower == b.map toLower

/-- What `strcmp` says: 0 for equal strings, else the sign of the first difference. -/
def strcmp : Text → Text → Int32
  | [], [] => 0
  | [], _ :: _ => -1
  | _ :: _, [] => 1
  | x :: a, y :: b => if x = y then strcmp a b else if x < y then -1 else 1

theorem strcmp_eq_zero (a b : Text) : strcmp a b = 0 ↔ a = b := by
  induction a generalizing b with
  | nil => cases b <;> simp [strcmp]
  | cons x a ih =>
    cases b with
    | nil => simp [strcmp]
    | cons y b =>
      rw [strcmp]
      by_cases same : x = y
      · rw [if_pos same, ih, same]
        simp
      · rw [if_neg same]
        refine iff_of_false ?_ (by simp [same])
        split <;> decide

def isSpace (c : UInt8) : Bool := c == 32 || (9 ≤ c && c ≤ 13)

def isDigit (c : UInt8) : Bool := 48 ≤ c && c ≤ 57

/-- The decimal digits of a number, as `%d` and `%u` print them. -/
def decimal (n : Nat) : Text := if n = 0 then [48] else (Nat.digits 10 n).reverse.map (fun d => (48 + d).toUInt8)

/-- An `int` printed by `%d` or `%i`. -/
def printInt (n : Int32) : Text := if n.toInt < 0 then 45 :: decimal n.toInt.natAbs else decimal n.toInt.natAbs

/-- The value of the digits that a string starts with. -/
def number (string : Text) : Nat :=
  Nat.ofDigits 10 ((string.takeWhile isDigit).map (fun c => c.toNat - 48)).reverse

/-- A `long` of 64 bits nearest to the number, cut to an `int`. -/
def ofLong (n : Int) : Int32 := Int32.ofInt (max (-9223372036854775808) (min n 9223372036854775807))

def atoi (string : Text) : Int32 :=
  match string.dropWhile isSpace with
  | 45 :: digits => ofLong (-(number digits : Int))
  | 43 :: digits => ofLong (number digits)
  | digits => ofLong (number digits)

/-- The text of a format that no argument follows. Any conversion but `%%` would
    take one that is not there. -/
def expandFormat : Text → Option Text
  | [] => some []
  | 37 :: 37 :: rest => (expandFormat rest).map (fun text => 37 :: text)
  | 37 :: _ => none
  | c :: rest => (expandFormat rest).map (fun text => c :: text)

/-- `vsnprintf` of such a format into a buffer of `size` bytes. -/
def vsnprintfBare (size : Nat) (format : Text) : Option Text := (expandFormat format).map (fun text => text.take (size - 1))

theorem expandFormat_plain {format : Text} (plain : 37 ∉ format) : expandFormat format = some format := by
  induction format with
  | nil => rfl
  | cons c rest ih =>
    simp only [List.mem_cons, not_or] at plain
    have rest := ih plain.2
    unfold expandFormat
    split
    · rename_i empty; cases empty
    · simp_all
    · simp_all
    · rename_i first; cases first; rw [rest, Option.map_some]

/-- A conversion makes the text differ from the format, when there is one at all. -/
theorem expandFormat_length {format text : Text} (expanded : expandFormat format = some text) :
    text.length ≤ format.length ∧ (37 ∈ format → text.length < format.length) := by
  induction format using expandFormat.induct generalizing text with
  | case1 => cases expanded; simp
  | case2 rest ih =>
    obtain ⟨inner, found, rfl⟩ := Option.map_eq_some_iff.mp expanded
    have shorter := (ih found).1
    simp only [List.length_cons]
    exact ⟨by omega, fun _ => by omega⟩
  | case3 rest other => simp_all [expandFormat]
  | case4 c rest first second ih =>
    have step : expandFormat (c :: rest) = (expandFormat rest).map (fun text => c :: text) := by
      rw [expandFormat]
      · exact first
      · exact second
    rw [step] at expanded
    obtain ⟨inner, found, rfl⟩ := Option.map_eq_some_iff.mp expanded
    obtain ⟨shorter, strict⟩ := ih found
    simp only [List.length_cons]
    refine ⟨by omega, fun member => ?_⟩
    rcases List.mem_cons.mp member with rfl | later
    · exact absurd rfl second
    · have := strict later; omega

/-- A format is printed as it is when it has no conversion and fits. -/
theorem vsnprintfBare_same {size : Nat} {format : Text} (room : 0 < size) :
    vsnprintfBare size format = some format ↔ 37 ∉ format ∧ format.length < size := by
  constructor
  · intro same
    obtain ⟨text, expanded, cut⟩ := Option.map_eq_some_iff.mp same
    obtain ⟨shorter, strict⟩ := expandFormat_length expanded
    have lengths := congrArg List.length cut
    rw [List.length_take] at lengths
    refine ⟨fun conversion => ?_, by omega⟩
    have := strict conversion
    omega
  · rintro ⟨plain, short⟩
    rw [vsnprintfBare, expandFormat_plain plain, Option.map_some, List.take_of_length_le (by omega)]

private theorem digit_byte {d : Nat} (small : d < 10) : (48 + d).toUInt8.toNat = 48 + d := by
  simp [Nat.toUInt8, UInt8.toNat_ofNat']
  omega

theorem decimal_digits (n : Nat) : ∀ c ∈ decimal n, isDigit c = true := by
  intro c member
  rw [decimal] at member
  split at member
  · cases List.mem_singleton.mp member; rfl
  · obtain ⟨d, digit, rfl⟩ := List.mem_map.mp member
    have small := Nat.digits_lt_base (by omega) (List.mem_reverse.mp digit)
    have value := digit_byte small
    simp only [isDigit, Bool.and_eq_true, decide_eq_true_eq, UInt8.le_iff_toNat_le, value]
    constructor
    · simp
    · simp; omega

theorem decimal_ne_nil (n : Nat) : decimal n ≠ [] := by
  rw [decimal]
  split
  · simp
  · rename_i positive
    simpa using Nat.digits_ne_nil_iff_ne_zero.mpr positive

theorem number_decimal (n : Nat) : number (decimal n) = n := by
  rw [number, List.takeWhile_eq_self_iff.mpr (decimal_digits n), decimal]
  split
  · rename_i zero; subst zero; rfl
  · have digits : ((Nat.digits 10 n).reverse.map (fun d => (48 + d).toUInt8)).map (fun c => c.toNat - 48)
        = (Nat.digits 10 n).reverse := by
      rw [List.map_map, List.map_congr_left (g := id) ?_, List.map_id]
      intro d digit
      have small := Nat.digits_lt_base (by omega) (List.mem_reverse.mp digit)
      simp only [Function.comp_apply, digit_byte small, id_eq]
      omega
    rw [digits, List.reverse_reverse, Nat.ofDigits_digits]

private theorem digit_range {c : UInt8} (digit : isDigit c = true) : 48 ≤ c.toNat ∧ c.toNat ≤ 57 := by
  simpa [isDigit, UInt8.le_iff_toNat_le] using digit

private theorem digit_solid {c : UInt8} (digit : isDigit c = true) : isSpace c = false := by
  have range := digit_range digit
  have differs : c ≠ 32 := by rintro rfl; exact absurd range (by decide)
  simp [isSpace, differs, UInt8.lt_iff_toNat_lt]
  omega

private theorem dropWhile_head {c : UInt8} {rest : Text} (solid : isSpace c = false) :
    (c :: rest).dropWhile isSpace = c :: rest := List.dropWhile_cons_of_neg (by simp [solid])

private theorem ofLong_toInt (n : Int32) : ofLong n.toInt = n := by
  have low := n.le_toInt
  have high := n.toInt_lt
  rw [ofLong, min_eq_left (by omega), max_eq_right (by omega), Int32.ofInt_toInt]

/-- A printed `int` is read back. -/
theorem atoi_printInt (n : Int32) : atoi (printInt n) = n := by
  rw [printInt]
  split
  · rename_i negative
    have value : -(n.toInt.natAbs : Int) = n.toInt := by omega
    rw [atoi, dropWhile_head rfl]
    simp only [number_decimal, value, ofLong_toInt]
  · rename_i positive
    have value : (n.toInt.natAbs : Int) = n.toInt := by omega
    obtain ⟨c, rest, shape⟩ := List.exists_cons_of_ne_nil (decimal_ne_nil n.toInt.natAbs)
    have digit : isDigit c = true := decimal_digits n.toInt.natAbs c (by rw [shape]; exact List.mem_cons_self)
    have range := digit_range digit
    have read : number (c :: rest) = n.toInt.natAbs := by rw [← shape, number_decimal]
    rw [atoi, shape, dropWhile_head (digit_solid digit)]
    split
    · rename_i minus; cases minus; exact absurd range (by decide)
    · rename_i plus; cases plus; exact absurd range (by decide)
    · rw [read, value, ofLong_toInt]

/-- A number ends at the first byte that is no digit. -/
theorem number_stop {digits : Text} (all : ∀ c ∈ digits, isDigit c = true) {c : UInt8} (stop : isDigit c = false)
    (rest : Text) : number (digits ++ c :: rest) = number digits := by
  rw [number, number, List.takeWhile_append_of_pos all, List.takeWhile_cons_of_neg (by simp [stop]), List.append_nil,
    List.takeWhile_eq_self_iff.mpr all]

/-- The first byte of a printed `int`, and the digits. -/
theorem printInt_shape (n : Int32) : ∃ c rest, printInt n = c :: rest ∧ isSpace c = false ∧ c ≠ byte '#' ∧
    ∃ digits, digits ≠ [] ∧ (∀ d ∈ digits, isDigit d = true) ∧
      (c = 45 ∧ rest = digits ∨ c ≠ 45 ∧ c ≠ 43 ∧ c :: rest = digits) := by
  rw [printInt]
  have digits := decimal_digits n.toInt.natAbs
  split
  · exact ⟨45, _, rfl, rfl, by decide, _, decimal_ne_nil _, digits, .inl ⟨rfl, rfl⟩⟩
  · obtain ⟨c, rest, shape⟩ := List.exists_cons_of_ne_nil (decimal_ne_nil n.toInt.natAbs)
    have digit : isDigit c = true := digits c (by rw [shape]; exact List.mem_cons_self)
    have range := digit_range digit
    refine ⟨c, rest, shape, digit_solid digit, ?_, _, decimal_ne_nil _, digits, .inr ⟨?_, ?_, shape.symm⟩⟩
    · rintro rfl
      exact absurd range (by decide)
    · rintro rfl
      exact absurd range (by decide)
    · rintro rfl
      exact absurd range (by decide)

/-- A printed `int` is read back in front of a byte that is no digit. -/
theorem atoi_printInt_stop (n : Int32) {c : UInt8} (stop : isDigit c = false) (rest : Text) :
    atoi (printInt n ++ c :: rest) = n := by
  obtain ⟨first, more, shape, solid, _, digits, _, all, sign⟩ := printInt_shape n
  have same : atoi (printInt n ++ c :: rest) = atoi (printInt n) := by
    rw [shape, List.cons_append, atoi, atoi, dropWhile_head solid, dropWhile_head solid]
    rcases sign with ⟨rfl, rfl⟩ | ⟨notMinus, notPlus, whole⟩
    · simp only [number_stop all stop]
    · have read : number (first :: (more ++ c :: rest)) = number (first :: more) := by
        rw [← List.cons_append, whole, number_stop all stop]
      split
      · rename_i minus
        exact absurd (List.cons.inj minus).1 notMinus
      · rename_i plus
        exact absurd (List.cons.inj plus).1 notPlus
      · rw [read]
        split
        · rename_i minus
          exact absurd (List.cons.inj minus).1 notMinus
        · rename_i plus
          exact absurd (List.cons.inj plus).1 notPlus
        · rfl
  rw [same, atoi_printInt]

theorem decimal_length {n k : Nat} (small : n < 10 ^ k) (positive : 0 < k) : (decimal n).length ≤ k := by
  rw [decimal]
  split
  · exact positive
  · simpa using (Nat.digits_length_le_iff (by omega) n).mpr small

theorem printInt_length (n : Int32) : (printInt n).length ≤ 11 := by
  have low := n.le_toInt
  have high := n.toInt_lt
  have digits : (decimal n.toInt.natAbs).length ≤ 10 := decimal_length (by omega) (by omega)
  rw [printInt]
  split
  · rw [List.length_cons]; omega
  · omega

theorem printInt_bytes (n : Int32) : ∀ c ∈ printInt n, c = 45 ∨ isDigit c = true := by
  intro c member
  rw [printInt] at member
  split at member
  · rcases List.mem_cons.mp member with rfl | digit
    · exact .inl rfl
    · exact .inr (decimal_digits _ c digit)
  · exact .inr (decimal_digits _ c member)

/-- A printed `int` has no byte outside the digits and the sign. -/
theorem printInt_free (n : Int32) {c : UInt8} (sign : c ≠ 45) (digit : isDigit c = false) : c ∉ printInt n := by
  intro member
  rcases printInt_bytes n c member with same | other
  · exact sign same
  · rw [digit] at other; cases other

end VoxiUtil.CString
