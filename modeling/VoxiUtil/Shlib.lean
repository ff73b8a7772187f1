import Mathlib.Data.List.DropRight
import VoxiUtil.ErrText

/-!
The names of shared libraries, as `shlib.c` of the Win32 build makes them of those of other
systems, in a block that `malloc` has. A write outside of the block has no outcome.
-/
namespace VoxiUtil.Shlib
open VoxiUtil.CString VoxiUtil.FileBuffer VoxiUtil.ErrText

/-- Whether one pointer into a string is above another. A null pointer is below all of them. -/
def above : Option Nat → Option Nat → Bool
  | none, _ => false
  | some _, none => true
  | some a, some b => b < a

/-- The last slash or backslash. -/
def slashPos (filename : Text) : Option Nat :=
  let forwardslashPos := (strrchr filename 47).map fun split => split.1.length
  let backslashPos := (strrchr filename 92).map fun split => split.1.length
  if above forwardslashPos backslashPos then forwardslashPos else backslashPos

/-- The string in a block, if it ends there. -/
def readString (block : Text) : Option Text := (stringEnd block 0).map block.take

/-- The copy of the name, without the "lib" that its last element starts with. -/
def removeLib (realFilename filename : Text) : Option Text :=
  match strstr filename (lit "lib") with
  | none => strcpy realFilename 0 filename
  | some tmpPtr =>
    match slashPos filename with
    | none => if tmpPtr = 0 then strcpy realFilename 0 (filename.drop 3) else strcpy realFilename 0 filename
    | some slashPos => do
      let realFilename ← strcpy realFilename 0 filename
      if strstr (filename.drop slashPos) (lit "lib") = some 1 then
        strcpy realFilename (slashPos + 1) (filename.drop (slashPos + 4))
      else return realFilename

/-- The first ".so" is ended at, if nothing is behind it. -/
def removeSo (realFilename : Text) : Option Text := do
  let string ← readString realFilename
  match strstr string (lit ".so") with
  | none => return realFilename
  | some tmpPtr => if (string.drop tmpPtr).length = 3 then save realFilename tmpPtr 0 else return realFilename

def addDll (realFilename : Text) : Option Text := do
  let string ← readString realFilename
  if strstr string (lit ".dll") = none then strcat realFilename 0 (lit ".dll") else return realFilename

/-- `shlib_mangle_filename` of the Win32 build: the block, with `garbage` in it before. -/
def shlibMangleFilename (garbage : Nat → UInt8) (filename : Text) : Option Text := do
  let realFilename := (List.range (filename.length + (lit ".dll").length + 1)).map garbage
  let realFilename ← removeLib realFilename filename
  let realFilename ← removeSo realFilename
  addDll realFilename

/-! ### What the name is to be -/

def isSlash (c : UInt8) : Bool := c == 47 || c == 92

def directory (filename : Text) : Text := filename.rdropWhile fun c => !isSlash c

/-- The last element of a path. -/
def last (filename : Text) : Text := filename.rtakeWhile fun c => !isSlash c

def withoutPrefix (start string : Text) : Text := if start <+: string then string.drop start.length else string

def withoutSuffix (ending string : Text) : Text :=
  if ending <:+ string then string.take (string.length - ending.length) else string

def withSuffix (ending string : Text) : Text := if ending <:+ string then string else string ++ ending

/-- An element without the "lib" in front and without the ".so" at the end. -/
def stem (element : Text) : Text := withoutSuffix (lit ".so") (withoutPrefix (lit "lib") element)

/-- What an element of another system is called. -/
def dllName (element : Text) : Text := withSuffix (lit ".dll") (stem element)

section
variable {string needle front behind : Text} {c : UInt8}

/-! ### The last element -/

theorem directory_last (filename : Text) : directory filename ++ last filename = filename := List.rdropWhile_append_rtakeWhile

theorem last_free (filename : Text) : ∀ c ∈ last filename, isSlash c = false := by
  intro c member
  simpa using List.mem_rtakeWhile_imp member

theorem free_of_all (each : (string.all fun c => !isSlash c) = true) : ∀ c ∈ string, isSlash c = false := by
  simpa using each

/-- A directory ends in a slash. -/
theorem directory_cases (filename : Text) : directory filename = [] ∨ ∃ front c, directory filename = front ++ [c] ∧ isSlash c = true := by
  rcases List.eq_nil_or_concat (directory filename) with none | ⟨front, c, same⟩
  · exact .inl none
  · have nonempty : directory filename ≠ [] := by simp [same]
    have ends : ¬ (!isSlash ((directory filename).getLast nonempty)) = true := List.rdropWhile_last_not _ filename nonempty
    have final : (directory filename).getLast nonempty = c := by simp [same]
    rw [final] at ends
    exact .inr ⟨front, c, by simpa using same, by simpa using ends⟩

theorem directory_behind (free : ∀ c ∈ behind, isSlash c = false) (filename : Text) :
    directory (directory filename ++ behind) = directory filename := by
  have drops : ∀ c ∈ behind.reverse, (!isSlash c) = true := fun c member => by simp [free c (List.mem_reverse.mp member)]
  have cut : directory (directory filename ++ behind) = directory (directory filename) := by
    simp only [directory, List.rdropWhile, List.reverse_append, List.dropWhile_append_of_pos drops]
  exact cut.trans (List.rdropWhile_idempotent _ filename)

theorem last_behind (free : ∀ c ∈ behind, isSlash c = false) (filename : Text) : last (directory filename ++ behind) = behind := by
  have whole := directory_last (directory filename ++ behind)
  rw [directory_behind free] at whole
  exact List.append_cancel_left whole

/-- Where the slash is that the last element is behind. -/
theorem slashPos_behind (slash : isSlash c = true) (free : ∀ b ∈ behind, isSlash b = false) :
    slashPos (front ++ c :: behind) = some front.length := by
  have outside : ∀ b, isSlash b = true → b ∉ behind := fun b slash member => by simp [free b member] at slash
  have here : strrchr (front ++ c :: behind) c = some (front, behind) := strrchr_eq_some.mpr ⟨rfl, outside c slash⟩
  -- any other slash that is last of its kind is in front
  have below : ∀ d, isSlash d = true → d ≠ c →
      ∀ split, strrchr (front ++ c :: behind) d = some split → split.1.length < front.length := by
    rintro d slash' differs ⟨before, after⟩ found
    obtain ⟨same, -⟩ := strrchr_eq_some.mp found
    rcases List.append_eq_append_iff.mp same with ⟨between, shape, rest⟩ | ⟨between, shape, rest⟩
    · cases between with
      | nil => exact absurd (List.cons.inj rest).1.symm differs
      | cons e between =>
        have member : d ∈ behind := by rw [(List.cons.inj rest).2]; simp
        exact absurd member (outside d slash')
    · cases between with
      | nil => exact absurd (List.cons.inj rest).1 differs
      | cons e between => simp [shape]
  rcases (by simpa [isSlash] using slash : c = 47 ∨ c = 92) with rfl | rfl
  · rw [slashPos, here]
    cases other : strrchr (front ++ 47 :: behind) 92 with
    | none => rfl
    | some split => simp [above, below 92 rfl (by decide) split other]
  · rw [slashPos, here]
    cases other : strrchr (front ++ 92 :: behind) 47 with
    | none => rfl
    | some split =>
      have lower := below 47 rfl (by decide) split other
      simp [above, Nat.not_lt.mpr lower.le]

theorem slashPos_free (free : ∀ b ∈ string, isSlash b = false) : slashPos string = none := by
  have absent : ∀ b, isSlash b = true → strrchr string b = none := by
    intro b slash
    rw [strrchr_eq_none]
    intro member
    simp [free b member] at slash
  simp [slashPos, absent 47 rfl, absent 92 rfl, above]

/-- An ending without slashes is one of the last element. -/
theorem suffix_behind (free : ∀ b ∈ needle, isSlash b = false) (filename : Text) :
    needle <:+ directory filename ++ behind ↔ needle <:+ behind := by
  refine ⟨fun ending => ?_, List.suffix_append_of_suffix⟩
  rcases List.suffix_or_suffix_of_suffix ending (List.suffix_append _ behind) with inside | ⟨reached, rfl⟩
  · exact inside
  · rcases directory_cases filename with none | ⟨front, c, same, slash⟩
    · simpa [none] using ending
    · rcases List.eq_nil_or_concat reached with rfl | ⟨reached, d, rfl⟩
      · simp
      · obtain ⟨before, whole⟩ := ending
        rw [same, ← List.append_assoc] at whole
        have cancelled := List.append_cancel_right whole
        simp only [List.concat_eq_append, ← List.append_assoc] at cancelled
        obtain ⟨-, rfl⟩ := List.append_singleton_inj.mp cancelled
        have member := free d (by simp)
        simp [slash] at member

/-! ### The block -/

variable {block filename : Text}

theorem readString_starts (starts : Starts block string) (noNul : 0 ∉ string) : readString block = some string := by
  obtain ⟨rest, rfl⟩ := starts
  have ends : stringEnd (string ++ 0 :: rest) 0 = some string.length := @stringEnd_behind [] rest string noNul
  rw [readString, ends, Option.map_some, List.take_left]

/-- A block of the same length, with the string at its start. -/
def Holds (block : Text) (string : Text) (made : Option Text) : Prop :=
  ∃ block', made = some block' ∧ Starts block' string ∧ block'.length = block.length

theorem strcpy_holds (noNul : 0 ∉ string) (room : string.length < block.length) : Holds block string (strcpy block 0 string) := by
  have copied := @strcpy_behind [] block string (by rwa [cString_of_noNul noNul])
  rw [cString_of_noNul noNul] at copied
  refine ⟨_, copied, ⟨_, rfl⟩, ?_⟩
  simp
  omega

theorem withoutPrefix_length (start string : Text) : (withoutPrefix start string).length ≤ string.length := by
  rw [withoutPrefix]
  split
  · simp
  · exact le_refl _

theorem mem_withoutPrefix {start : Text} (member : c ∈ withoutPrefix start string) : c ∈ string := by
  rw [withoutPrefix] at member
  split at member
  · exact List.mem_of_mem_drop member
  · exact member

theorem mem_withoutSuffix {ending : Text} (member : c ∈ withoutSuffix ending string) : c ∈ string := by
  rw [withoutSuffix] at member
  split at member
  · exact List.mem_of_mem_take member
  · exact member

/-- A name that is a path of one element. -/
theorem removeLib_bare (free : ∀ b ∈ filename, isSlash b = false) (noNul : 0 ∉ filename) (room : filename.length < block.length) :
    Holds block (withoutPrefix (lit "lib") filename) (removeLib block filename) := by
  have shorter : (withoutPrefix (lit "lib") filename).length < block.length :=
    lt_of_le_of_lt (withoutPrefix_length _ _) room
  have copied := strcpy_holds (fun member => noNul (mem_withoutPrefix member)) shorter
  by_cases starts : lit "lib" <+: filename
  · rw [removeLib, strstr_start.mpr starts, slashPos_free free]
    rw [withoutPrefix, if_pos starts] at copied ⊢
    exact copied
  · rw [withoutPrefix, if_neg starts] at copied ⊢
    rw [removeLib, slashPos_free free]
    cases found : strstr filename (lit "lib") with
    | none => exact copied
    | some tmpPtr =>
      have elsewhere : tmpPtr ≠ 0 := by
        rintro rfl
        exact starts (strstr_start.mp found)
      simpa [elsewhere] using copied

/-- The last of several elements. -/
theorem removeLib_slashed (slash : isSlash c = true) (free : ∀ b ∈ behind, isSlash b = false) :
    removeLib block (front ++ c :: behind) = (strcpy block 0 (front ++ c :: behind)).bind fun realFilename =>
      if lit "lib" <+: behind then strcpy realFilename (front.length + 1) (behind.drop 3) else some realFilename := by
  have search : strstr (c :: behind) (lit "lib") = some 1 ↔ lit "lib" <+: behind := by
    have outside : ¬ lit "lib" <+: c :: behind := by
      intro inside
      obtain rfl : byte 'l' = c := (List.cons_prefix_cons.mp inside).1
      cases slash
    rw [strstr, if_neg outside, ← strstr_start]
    simp
  have place : (front ++ c :: behind).drop front.length = c :: behind := List.drop_left
  have tail : (front ++ c :: behind).drop (front.length + 4) = behind.drop 3 := by
    rw [← List.drop_drop, place]
    rfl
  rw [removeLib]
  cases found : strstr (front ++ c :: behind) (lit "lib") with
  | none =>
    have absent : ¬ lit "lib" <+: behind := by
      rintro ⟨more, rfl⟩
      exact strstr_eq_none.mp found ⟨front ++ [c], more, by simp⟩
    simp [absent]
  | some tmpPtr =>
    simp only [slashPos_behind slash free, place, tail, search]
    rfl

theorem removeLib_behind (slash : isSlash c = true) (free : ∀ b ∈ behind, isSlash b = false) (noNul : 0 ∉ front ++ c :: behind)
    (room : (front ++ c :: behind).length < block.length) :
    Holds block (front ++ c :: withoutPrefix (lit "lib") behind) (removeLib block (front ++ c :: behind)) := by
  obtain ⟨block', copied, ⟨rest, rfl⟩, length⟩ := strcpy_holds noNul room
  rw [removeLib_slashed slash free, copied, Option.bind_some, withoutPrefix]
  split
  case isFalse => exact ⟨_, rfl, ⟨rest, rfl⟩, length⟩
  case isTrue =>
    have clean : cString (behind.drop 3) = behind.drop 3 :=
      cString_of_noNul fun member => noNul (List.mem_append_right _ (List.mem_cons_of_mem _ (List.mem_of_mem_drop member)))
    have moved := @strcpy_behind (front ++ [c]) (behind ++ 0 :: rest) (behind.drop 3) (by simp [clean]; omega)
    rw [clean, List.length_append, List.length_singleton] at moved
    refine ⟨_, by simpa using moved, ⟨_, by simp; rfl⟩, ?_⟩
    rw [← length]
    simp
    omega

theorem removeLib_holds (noNul : 0 ∉ filename) (room : filename.length < block.length) :
    Holds block (directory filename ++ withoutPrefix (lit "lib") (last filename)) (removeLib block filename) := by
  have whole := directory_last filename
  have free := last_free filename
  rcases directory_cases filename with none | ⟨front, c, same, slash⟩
  · rw [none, List.nil_append] at whole ⊢
    rw [whole] at free ⊢
    exact removeLib_bare free noNul room
  · rw [same, List.append_assoc, List.singleton_append] at whole ⊢
    have made := @removeLib_behind _ _ c block slash free (whole.symm ▸ noNul) (whole.symm ▸ room)
    rwa [whole] at made

/-- What is left of a name where the first ".so" is the last of it. -/
def ended (string : Text) : Text :=
  match strstr string (lit ".so") with
  | none => string
  | some tmpPtr => if (string.drop tmpPtr).length = 3 then string.take tmpPtr else string

/-- A name with ".dll" somewhere. -/
def completed (string : Text) : Text := if strstr string (lit ".dll") = none then string ++ lit ".dll" else string

theorem ended_take (string : Text) : ∃ k, ended string = string.take k := by
  rw [ended]
  split
  · exact ⟨string.length, List.take_length.symm⟩
  · split
    · exact ⟨_, rfl⟩
    · exact ⟨string.length, List.take_length.symm⟩

theorem removeSo_holds (starts : Starts block string) (noNul : 0 ∉ string) : Holds block (ended string) (removeSo block) := by
  rw [removeSo, readString_starts starts noNul, Option.bind_eq_bind, Option.bind_some, ended]
  cases found : strstr string (lit ".so") with
  | none => exact ⟨block, rfl, starts, rfl⟩
  | some tmpPtr =>
    dsimp only
    split
    case isFalse => exact ⟨block, rfl, starts, rfl⟩
    case isTrue three =>
      rw [List.length_drop] at three
      have inside : tmpPtr < block.length := by
        obtain ⟨rest, rfl⟩ := starts
        simp
        omega
      exact ⟨block.set tmpPtr 0, by rw [save, if_pos inside], starts_cut starts (by omega), List.length_set⟩

theorem addDll_holds (starts : Starts block string) (noNul : 0 ∉ string) (room : string.length + 4 < block.length) :
    Holds block (completed string) (addDll block) := by
  rw [addDll, readString_starts starts noNul, Option.bind_eq_bind, Option.bind_some, completed]
  split
  case isFalse => exact ⟨block, rfl, starts, rfl⟩
  case isTrue =>
    obtain ⟨rest, rfl⟩ := starts
    have clean : cString (lit ".dll") = lit ".dll" := by decide
    have four : (lit ".dll").length = 4 := rfl
    have added := @strcat_behind [] rest string (lit ".dll") noNul (by rw [clean]; simp at room; omega)
    rw [clean] at added
    refine ⟨_, added, ⟨_, rfl⟩, ?_⟩
    simp at room ⊢
    omega

/-- The name that the code makes, for every name. -/
theorem mangled (garbage : Nat → UInt8) (noNul : 0 ∉ filename) :
    ∃ realFilename, shlibMangleFilename garbage filename = some realFilename ∧
      readString realFilename = some (completed (ended (directory filename ++ withoutPrefix (lit "lib") (last filename)))) := by
  have size : ((List.range (filename.length + (lit ".dll").length + 1)).map garbage).length = filename.length + 4 + 1 := by
    rw [List.length_map, List.length_range]
    rfl
  have whole := directory_last filename
  have clean : 0 ∉ directory filename ++ withoutPrefix (lit "lib") (last filename) := by
    rw [← whole, List.mem_append, not_or] at noNul
    rw [List.mem_append, not_or]
    exact ⟨noNul.1, fun member => noNul.2 (mem_withoutPrefix member)⟩
  have shorter : (directory filename ++ withoutPrefix (lit "lib") (last filename)).length ≤ filename.length := by
    have lengths := congrArg List.length whole
    have part := withoutPrefix_length (lit "lib") (last filename)
    rw [List.length_append] at lengths ⊢
    omega
  obtain ⟨k, cut⟩ := ended_take (directory filename ++ withoutPrefix (lit "lib") (last filename))
  obtain ⟨first, copied, starts, length⟩ := @removeLib_holds ((List.range _).map garbage) filename noNul (by rw [size]; omega)
  obtain ⟨second, shortened, starts', length'⟩ := removeSo_holds starts clean
  have clean' : 0 ∉ ended (directory filename ++ withoutPrefix (lit "lib") (last filename)) := by
    rw [cut]
    exact fun member => clean (List.mem_of_mem_take member)
  obtain ⟨third, added, starts'', -⟩ := addDll_holds starts' clean' (by
    rw [length', length, size, cut, List.length_take]
    omega)
  refine ⟨third, ?_, readString_starts starts'' ?_⟩
  · simp only [shlibMangleFilename, copied, shortened, Option.bind_eq_bind, Option.bind_some, added]
  · rw [completed]
    split
    · rw [List.mem_append, not_or]
      exact ⟨clean', by decide⟩
    · exact clean'

/-! ### The searches and the rules -/

theorem ended_cut (free : ¬ lit ".so" <:+: front) : ended (front ++ lit ".so") = front := by
  have found : strstr (front ++ lit ".so") (lit ".so") = some front.length := (strstr_last (by decide)).mpr free
  have three : ((front ++ lit ".so").drop front.length).length = 3 := by
    rw [List.drop_left]
    rfl
  rw [ended, found]
  simp only [three, if_true, List.take_left]

/-- Nothing is removed where another ".so" is in front, or none is at the end. -/
theorem ended_kept (other : ∀ front, string = front ++ lit ".so" → lit ".so" <:+: front) : ended string = string := by
  rw [ended]
  cases found : strstr string (lit ".so") with
  | none => rfl
  | some tmpPtr =>
    refine if_neg fun three => ?_
    have place : lit ".so" = string.drop tmpPtr := (strstr_found found).eq_of_length three.symm
    have whole : string.take tmpPtr ++ lit ".so" = string := by rw [place, List.take_append_drop]
    have inside : tmpPtr = (string.take tmpPtr).length := by
      rw [List.length_drop] at three
      rw [List.length_take]
      omega
    have last : strstr (string.take tmpPtr ++ lit ".so") (lit ".so") = some (string.take tmpPtr).length := by
      rw [whole, ← inside, found]
    exact (strstr_last (by decide)).mp last (other _ whole.symm)

theorem completed_held (somewhere : lit ".dll" <:+: string) : completed string = string :=
  if_neg fun absent => strstr_eq_none.mp absent somewhere

theorem completed_free (free : ¬ lit ".dll" <:+: string) : completed string = string ++ lit ".dll" :=
  if_pos (strstr_eq_none.mpr free)

/-- The ".dll" of the code and that of the rule. -/
theorem completed_iff : completed (directory filename ++ behind) = directory filename ++ withSuffix (lit ".dll") behind ↔
    (lit ".dll" <:+: directory filename ++ behind → lit ".dll" <:+ behind) := by
  rw [withSuffix]
  by_cases ending : lit ".dll" <:+ behind
  · rw [completed_held (List.suffix_append_of_suffix ending).isInfix, if_pos ending]
    simp [ending]
  · rw [if_neg ending]
    by_cases somewhere : lit ".dll" <:+: directory filename ++ behind
    · rw [completed_held somewhere]
      refine iff_of_false (fun same => ?_) fun rule => ending (rule somewhere)
      have lengths := congrArg List.length same
      simp [lit] at lengths
    · rw [completed_free somewhere]
      simp [somewhere]

theorem completed_length (string : Text) : (completed string).length = string.length ∨ (completed string).length = string.length + 4 := by
  rw [completed]
  split
  · exact .inr (List.length_append ..)
  · exact .inl rfl

theorem withSuffix_length (string : Text) : (withSuffix (lit ".dll") string).length = string.length ∨
    (withSuffix (lit ".dll") string).length = string.length + 4 := by
  rw [withSuffix]
  split
  · exact .inl rfl
  · exact .inr (List.length_append ..)

end

/-- The block has a name with the directory of the one given, and the rules are kept for its last element. -/
def Mangles (garbage : Nat → UInt8) (filename : Text) : Prop :=
  ∃ realFilename name, shlibMangleFilename garbage filename = some realFilename ∧ readString realFilename = some name ∧
    directory name = directory filename ∧ last name = dllName (last filename)

section
variable {filename : Text}

theorem stem_free (filename : Text) : ∀ c ∈ stem (last filename), isSlash c = false :=
  fun c member => last_free filename c (mem_withoutPrefix (mem_withoutSuffix member))

theorem dllName_free (filename : Text) : ∀ c ∈ dllName (last filename), isSlash c = false := by
  intro c member
  rw [dllName, withSuffix] at member
  split at member
  · exact stem_free filename c member
  · rcases List.mem_append.mp member with inside | ending
    · exact stem_free filename c inside
    · exact free_of_all (rfl : ((lit ".dll").all fun c => !isSlash c) = true) c ending

theorem mangles_eq (garbage : Nat → UInt8) (noNul : 0 ∉ filename) : Mangles garbage filename ↔
    completed (ended (directory filename ++ withoutPrefix (lit "lib") (last filename))) =
      directory filename ++ dllName (last filename) := by
  obtain ⟨made, done, read⟩ := mangled garbage noNul
  constructor
  · rintro ⟨realFilename, name, done', read', front, element⟩
    rw [← directory_last name, front, element] at read'
    rw [done] at done'
    cases done'
    exact Option.some.inj (read.symm.trans read')
  · intro same
    rw [same] at read
    exact ⟨made, _, done, read, directory_behind (dllName_free filename) filename, last_behind (dllName_free filename) filename⟩

theorem stem_of_suffix {element front : Text} (same : withoutPrefix (lit "lib") element = front ++ lit ".so") : stem element = front := by
  have length : (front ++ lit ".so").length - (lit ".so").length = front.length := by
    rw [List.length_append]
    exact Nat.add_sub_cancel ..
  rw [stem, same, withoutSuffix, if_pos (List.suffix_append _ _), length, List.take_left]

end

/-- For every name, the rule is kept just when no other ".so" is in front of the one that is removed, and what is left has
    ".dll" at its end if it has it at all. -/
theorem mangles_iff {filename : Text} (garbage : Nat → UInt8) (noNul : 0 ∉ filename) : Mangles garbage filename ↔
    (lit ".so" <:+ withoutPrefix (lit "lib") (last filename) → ¬ lit ".so" <:+: directory filename ++ stem (last filename)) ∧
      (lit ".dll" <:+: directory filename ++ stem (last filename) → lit ".dll" <:+ stem (last filename)) := by
  rw [mangles_eq garbage noNul, dllName]
  by_cases ending : lit ".so" <:+ withoutPrefix (lit "lib") (last filename)
  · obtain ⟨front, same⟩ := ending
    rw [stem_of_suffix same.symm, ← same, ← List.append_assoc]
    by_cases earlier : lit ".so" <:+: directory filename ++ front
    · refine iff_of_false (fun made => ?_) fun rule => rule.1 (List.suffix_append _ _) earlier
      rw [ended_kept fun front' split => List.append_cancel_right split ▸ earlier] at made
      have lengths : (completed (directory filename ++ front ++ lit ".so")).length =
          (directory filename).length + (withSuffix (lit ".dll") front).length := by
        rw [made, List.length_append]
      have three : (directory filename ++ front ++ lit ".so").length = (directory filename).length + front.length + 3 := by
        rw [List.length_append, List.length_append]
        rfl
      rcases completed_length (directory filename ++ front ++ lit ".so") with here | here <;>
        rcases withSuffix_length front with there | there <;> omega
    · rw [ended_cut earlier, completed_iff]
      simp [earlier]
  · have kept : stem (last filename) = withoutPrefix (lit "lib") (last filename) := if_neg ending
    have whole : ended (directory filename ++ withoutPrefix (lit "lib") (last filename)) =
        directory filename ++ withoutPrefix (lit "lib") (last filename) := by
      refine ended_kept fun front same => absurd ?_ ending
      rw [← suffix_behind (free_of_all rfl) filename, same]
      exact List.suffix_append _ _
    rw [whole, kept, completed_iff]
    simp [ending]

/-- The path of the source's own comment. -/
theorem mangles_iff_path : Mangles (fun _ => 1) (lit "bar/lib/libfoo.so") := (mangles_iff _ (by decide)).mpr (by decide)

/-- Of two ".so" none is removed, and a ".dll" in the middle is taken for the one at the end. -/
theorem repeated_ending_stays : ¬ Mangles (fun _ => 1) (lit "foo.so.so") ∧ ¬ Mangles (fun _ => 1) (lit "foo.dll.old") := by
  rw [mangles_eq _ (by decide), mangles_eq _ (by decide)]
  decide

example : (shlibMangleFilename (fun _ => 1) (lit "bar/lib/libfoo")).bind readString = some (lit "bar/lib/foo.dll") := by decide

end VoxiUtil.Shlib
