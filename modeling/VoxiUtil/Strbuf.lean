import VoxiUtil.CString

/-!
The growing string buffers of `strbuf.c`. `capacity` is what the allocator was
asked for; an operation gives `none` where it writes behind that.
-/
namespace VoxiUtil.Strbuf
open VoxiUtil.CString

/-- `struct sStringBuffer`, with the bytes from `string` to `cursor`. -/
structure StringBuffer where
  string : Text
  bufferSize : Nat
  bufferRemaining : Nat
  capacity : Nat
deriving DecidableEq

def strbufCreate (length : Nat) : StringBuffer := ⟨[], length, length, length + 1⟩

/-- The first block has room for a NUL behind `bufferSize` bytes, a block that has
    grown has not. -/
def strbufEnlarge (strbuf : StringBuffer) (minFreeSpace : Nat) : StringBuffer :=
  if strbuf.bufferRemaining ≤ minFreeSpace then
    let sizeIncrease :=
      if strbuf.bufferSize + strbuf.bufferRemaining < minFreeSpace then minFreeSpace else strbuf.bufferSize
    { strbuf with bufferSize := strbuf.bufferSize + sizeIncrease
                  bufferRemaining := strbuf.bufferRemaining + sizeIncrease
                  capacity := strbuf.bufferSize + sizeIncrease }
  else strbuf

/-- What a format asks for: a character of its own, or the text of a `%s` or `%d`. -/
inductive Piece where
  | char (c : UInt8)
  | text (s : Text)

/-- One turn of the loop over the format. A text is copied with its NUL. -/
def putPiece (strbuf : StringBuffer) : Piece → Option StringBuffer
  | .char c =>
    let strbuf := if strbuf.bufferRemaining = 0 then strbufEnlarge strbuf 1 else strbuf
    if strbuf.string.length + 1 ≤ strbuf.capacity then
      some { strbuf with string := strbuf.string ++ [c], bufferRemaining := strbuf.bufferRemaining - 1 }
    else none
  | .text s =>
    let strbuf := strbufEnlarge strbuf s.length
    if strbuf.string.length + s.length + 1 ≤ strbuf.capacity then
      some { strbuf with string := strbuf.string ++ s, bufferRemaining := strbuf.bufferRemaining - s.length }
    else none

/-- The pieces one after another and a NUL behind them. -/
def strbufSprintf (strbuf : StringBuffer) (pieces : List Piece) : Option StringBuffer := do
  let strbuf ← pieces.foldlM putPiece strbuf
  if strbuf.string.length + 1 ≤ strbuf.capacity then some strbuf else none

theorem sprintf_cons (strbuf : StringBuffer) (piece : Piece) (pieces : List Piece) :
    strbufSprintf strbuf (piece :: pieces) = (putPiece strbuf piece).bind (fun strbuf => strbufSprintf strbuf pieces) := by
  simp only [strbufSprintf, List.foldlM_cons, Option.bind_eq_bind, Option.bind_assoc]

/-- A character and a text that fit the first block of 256 bytes. -/
theorem put_char {front : Text} (c : UInt8) (short : front.length ≤ 200) :
    putPiece ⟨front, 256, 256 - front.length, 257⟩ (.char c) =
      some ⟨front ++ [c], 256, 256 - (front ++ [c]).length, 257⟩ := by
  have still : ¬ 256 - front.length = 0 := by omega
  simp only [putPiece, still, ↓reduceIte, List.length_append, List.length_singleton]
  rw [if_pos (by omega)]
  rfl

theorem put_text {front text : Text} (short : (front ++ text).length ≤ 200) :
    putPiece ⟨front, 256, 256 - front.length, 257⟩ (.text text) =
      some ⟨front ++ text, 256, 256 - (front ++ text).length, 257⟩ := by
  rw [List.length_append] at short ⊢
  have still : ¬ 256 - front.length ≤ text.length := by omega
  simp only [putPiece, strbufEnlarge, still, ↓reduceIte]
  rw [if_pos (by omega), Nat.sub_sub]

section
variable {front text : Text} (c : UInt8)

/-- No growth. -/
private theorem sprintf_fitting (short : front.length ≤ 200) (fits : text.length < 256 - front.length) :
    strbufSprintf ⟨front, 256, 256 - front.length, 257⟩ [.text text, .char c] =
      some ⟨front ++ text ++ [c], 256, 256 - front.length - text.length - 1, 257⟩ := by
  have put : putPiece ⟨front, 256, 256 - front.length, 257⟩ (.text text) =
      some ⟨front ++ text, 256, 256 - front.length - text.length, 257⟩ := by
    have still : ¬ 256 - front.length ≤ text.length := by omega
    simp only [putPiece, strbufEnlarge, still, ↓reduceIte]
    rw [if_pos (by omega)]
  have ending : putPiece ⟨front ++ text, 256, 256 - front.length - text.length, 257⟩ (.char c) =
      some ⟨front ++ text ++ [c], 256, 256 - front.length - text.length - 1, 257⟩ := by
    have still : ¬ 256 - front.length - text.length = 0 := by omega
    simp only [putPiece, still, ↓reduceIte, List.length_append]
    rw [if_pos (by omega)]
  rw [sprintf_cons, put, Option.bind_some, sprintf_cons, ending, Option.bind_some]
  apply if_pos
  simp only [List.length_append, List.length_singleton]
  omega

/-- The block is doubled to 512 bytes. -/
private theorem sprintf_doubled (short : front.length ≤ 200) (full : 256 - front.length ≤ text.length)
    (double : text.length ≤ 512 - front.length) :
    strbufSprintf ⟨front, 256, 256 - front.length, 257⟩ [.text text, .char c] =
      if front.length + text.length = 511 ∨ front.length + text.length = 512 then none
      else some ⟨front ++ text ++ [c], 512, 512 - front.length - text.length - 1, 512⟩ := by
  have put : putPiece ⟨front, 256, 256 - front.length, 257⟩ (.text text) =
      if text.length = 512 - front.length then none
      else some ⟨front ++ text, 512, 512 - front.length - text.length, 512⟩ := by
    have increase : ¬ 256 + (256 - front.length) < text.length := by omega
    have remaining : 256 - front.length + 256 - text.length = 512 - front.length - text.length := by omega
    simp only [putPiece, strbufEnlarge, full, increase, remaining, ↓reduceIte]
    split_ifs <;> first | rfl | omega
  rw [sprintf_cons, put]
  by_cases copied : text.length = 512 - front.length
  · rw [if_pos copied, if_pos (by omega)]
    rfl
  · have ending : putPiece ⟨front ++ text, 512, 512 - front.length - text.length, 512⟩ (.char c) =
        some ⟨front ++ text ++ [c], 512, 512 - front.length - text.length - 1, 512⟩ := by
      have still : ¬ 512 - front.length - text.length = 0 := by omega
      simp only [putPiece, still, ↓reduceIte, List.length_append]
      rw [if_pos (by omega)]
    rw [if_neg copied, Option.bind_some, sprintf_cons, ending, Option.bind_some]
    simp only [strbufSprintf, List.foldlM_nil, Option.pure_def, Option.bind_eq_bind, Option.bind_some, List.length_append,
      List.length_singleton]
    split_ifs <;> first | rfl | omega

/-- The block grows by the length of the text. -/
private theorem sprintf_grown (short : front.length ≤ 200) (long : 512 - front.length < text.length) :
    strbufSprintf ⟨front, 256, 256 - front.length, 257⟩ [.text text, .char c] =
      some ⟨front ++ text ++ [c], 256 + text.length, 256 - front.length - 1, 256 + text.length⟩ := by
  have put : putPiece ⟨front, 256, 256 - front.length, 257⟩ (.text text) =
      some ⟨front ++ text, 256 + text.length, 256 - front.length, 256 + text.length⟩ := by
    have grows : 256 - front.length ≤ text.length := by omega
    have increase : 256 + (256 - front.length) < text.length := by omega
    simp only [putPiece, strbufEnlarge, grows, increase, ↓reduceIte, Nat.add_sub_cancel]
    rw [if_pos (by omega)]
  have ending : putPiece ⟨front ++ text, 256 + text.length, 256 - front.length, 256 + text.length⟩ (.char c) =
      some ⟨front ++ text ++ [c], 256 + text.length, 256 - front.length - 1, 256 + text.length⟩ := by
    have still : ¬ 256 - front.length = 0 := by omega
    simp only [putPiece, still, ↓reduceIte, List.length_append]
    rw [if_pos (by omega)]
  rw [sprintf_cons, put, Option.bind_some, sprintf_cons, ending, Option.bind_some]
  apply if_pos
  simp only [List.length_append, List.length_singleton]
  omega

/-- A text and a character printed into the first block of 256 bytes. The copy, or
    the NUL at the end, goes one byte beyond a block that has just been doubled. -/
theorem sprintf_first (short : front.length ≤ 200) :
    (strbufSprintf ⟨front, 256, 256 - front.length, 257⟩ [.text text, .char c]).map StringBuffer.string =
      if front.length + text.length = 511 ∨ front.length + text.length = 512 then none
      else some (front ++ text ++ [c]) := by
  by_cases fits : text.length < 256 - front.length
  · rw [sprintf_fitting c short fits, if_neg (by omega)]
    rfl
  · by_cases double : text.length ≤ 512 - front.length
    · rw [sprintf_doubled c short (Nat.le_of_not_lt fits) double]
      split <;> rfl
    · rw [sprintf_grown c short (Nat.lt_of_not_le double), if_neg (by omega)]
      rfl

end

end VoxiUtil.Strbuf
