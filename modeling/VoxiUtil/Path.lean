import VoxiUtil.CString
import VoxiUtil.VectorList

/-!
The paths of `path.c`: lists of directories, with a delimiter between each two. A path is
taken apart in a copy of it, byte by byte in memory; allocation succeeds.
-/
namespace VoxiUtil.Path
open VoxiUtil.CString VoxiUtil.Vector VoxiUtil.VectorList
open VoxiUtil.Runs (assert assert_true)
open VoxiUtil.Limits (intMax sizeMax pointerSize)

/-- The systems that the source is built for. -/
inductive Build
  | unix
  | win32
deriving DecidableEq

/-- `PATH_DELIM`. -/
def pathDelim : Build → UInt8
  | .unix => 58
  | .win32 => 59

/-- `strpbrk`, as an offset. -/
def strpbrk (string accept : Text) : Option Nat := string.findIdx? fun c => accept.contains c

/-- `strsep` with a pointer into a buffer: the token, the buffer and what `*stringp` is then. -/
def strsepAt (buffer : Text) (stringp : Option Nat) (delim : Text) : Option Nat × Text × Option Nat :=
  match stringp with
  | none => (none, buffer, none)
  | some token =>
    match strpbrk (cString (buffer.drop token)) delim with
    | none => (some token, buffer, none)
    | some d => (some token, buffer.set (token + d) 0, some (token + d + 1))

section
variable (build : Build)

def pathSeparate (buffer : Text) (path : Option Nat) : Option Nat × Text × Option Nat := strsepAt buffer path [pathDelim build]

section
variable {τ : Type} [DecidableEq τ]

/-- The loop of `path_parse`, with the elements that `_strdup` makes of the tokens. -/
def parseLoop (t : τ) : Nat → Text → Option Nat → SVector τ Text → Option (SVector τ Text)
  | 0, _, _, _ => none
  | turns + 1, buffer, pathCopy, pathVec =>
    match pathSeparate build buffer pathCopy with
    | (none, _, _) => some pathVec
    | (some nextDir, buffer, pathCopy) => do
      let (_, pathVec) ← vectorAppendPtr t pathVec (cString (buffer.drop nextDir))
      parseLoop t turns buffer pathCopy pathVec

/-- `path_parse`: what `*pathVec` is then, NULL for a path that is NULL. -/
def pathParse (t thread : τ) (path : Option Text) : Option (Option (SVector τ Text)) :=
  match path with
  | none => some none
  | some path =>
    (vectorCreate thread pointerSize 1 1 true).bind fun pathVec =>
      (parseLoop build t (path.length + 2) (path ++ [0]) (some 0) pathVec).map some

end

/-- What `snprintf` leaves in a block of so many bytes. -/
def snprintf (size : Nat) (text : Text) : Text := text.take (size - 1)

def pathConcatPath (path str : Text) : Text :=
  snprintf (path.length + 1 + str.length + 1) (path ++ pathDelim build :: str)

end

/-! ### Tokens -/

section
variable {build : Build} {buffer rest token more : Text} {place : Nat}

theorem pathDelim_ne (build : Build) : pathDelim build ≠ 0 := by
  cases build <;> decide

theorem strpbrk_free (free : pathDelim build ∉ token) : strpbrk token [pathDelim build] = none := by
  rw [strpbrk, List.findIdx?_eq_none_iff]
  intro c member
  simp only [List.contains_cons, List.contains_nil, Bool.or_false, beq_eq_false_iff_ne]
  rintro rfl
  exact free member

/-- The last token is what is left of the path. -/
theorem pathSeparate_last (left : buffer.drop place = rest ++ [0]) (noNul : 0 ∉ rest) (free : pathDelim build ∉ rest) :
    pathSeparate build buffer (some place) = (some place, buffer, none) ∧ cString (buffer.drop place) = rest := by
  have string : cString (buffer.drop place) = rest := by rw [left, cString_ended noNul]
  refine ⟨?_, string⟩
  rw [pathSeparate, strsepAt, string, strpbrk_free free]

/-- A token ends where the NUL is put over the delimiter, and the rest is behind it. -/
theorem pathSeparate_found (left : buffer.drop place = token ++ pathDelim build :: more ++ [0])
    (noNul : 0 ∉ token ++ pathDelim build :: more) (free : pathDelim build ∉ token) :
    ∃ buffer', pathSeparate build buffer (some place) = (some place, buffer', some (place + token.length + 1)) ∧
      cString (buffer'.drop place) = token ∧ buffer'.drop (place + token.length + 1) = more ++ [0] := by
  have string : cString (buffer.drop place) = token ++ pathDelim build :: more := by rw [left, cString_ended noNul]
  have found : strpbrk (token ++ pathDelim build :: more) [pathDelim build] = some token.length := by
    have absent := strpbrk_free free
    rw [strpbrk] at absent ⊢
    rw [List.findIdx?_append, absent]
    simp [List.findIdx?_cons]
  have tokenNoNul : 0 ∉ token := fun member => noNul (List.mem_append_left _ member)
  refine ⟨buffer.set (place + token.length) 0, ?_, ?_, ?_⟩
  · rw [pathSeparate, strsepAt, string, found]
  · rw [List.drop_set, if_neg (by omega), left, Nat.add_sub_cancel_left]
    simp [cString_ended tokenNoNul]
  · rw [List.drop_set_of_lt (by omega), Nat.add_assoc, ← List.drop_drop, left]
    simp

end

/-! ### The parts of a list -/

section
variable {α : Type} [BEq α]

theorem splitOn_length (delim : α) (path : List α) : (path.splitOn delim).length = path.count delim + 1 := by
  induction path with
  | nil => simp
  | cons c path ih =>
    rw [List.splitOn_cons_eq_if_modifyHead, List.count_cons]
    split
    · simp [ih]
    · simp [ih]

variable [LawfulBEq α]

theorem splitOn_free (delim : α) (path : List α) : ∀ part ∈ path.splitOn delim, delim ∉ part := by
  induction path with
  | nil => simp
  | cons c path ih =>
    rw [List.splitOn_cons_eq_if_modifyHead]
    split
    case isTrue => simpa using ih
    case isFalse other =>
      cases parts : path.splitOn delim with
      | nil => simp
      | cons first more =>
        rw [parts, List.forall_mem_cons] at ih
        have differs : delim ≠ c := fun same => other (beq_iff_eq.mpr same.symm)
        rw [List.modifyHead_cons, List.forall_mem_cons, List.mem_cons, not_or]
        exact ⟨⟨differs, ih.1⟩, ih.2⟩

end

/-! ### The vector of the elements -/

section
variable {τ : Type} {t : τ} {vector vector' : SVector τ Text} {contents : List Text} {element : Text} {i : Nat}

/-- A vector of pointers that grows by one, and is locked by nobody. -/
structure Held (t : τ) (vector : SVector τ Text) (contents : List Text) : Prop where
  holding : Holding t vector 0 contents
  elementSize : vector.elementSize = pointerSize
  capacityIncrement : vector.capacityIncrement = 1
  capacity : vector.capacity ≤ intMax

theorem created_held (t thread : τ) : Held t (created thread pointerSize 1 1 true) [] where
  holding := create_holding t thread pointerSize 1 true Nat.one_pos
  elementSize := rfl
  capacityIncrement := rfl
  capacity := (by decide : 1 ≤ intMax)

theorem Held.short (held : Held t vector contents) : contents.length ≤ intMax := held.holding.room.trans held.capacity

variable [DecidableEq τ]

theorem lockDebug_capacity {whence last : Option String} (locked : vectorLockDebug t vector whence = some (vector', last)) :
    vector'.capacity = vector.capacity := by
  obtain ⟨_, -, same⟩ := Option.map_eq_some_iff.mp locked
  rw [← (Prod.mk.inj same).1]

theorem unlockDebug_capacity {prevLocker : Option String} (unlocked : vectorUnlockDebug t vector prevLocker = some vector') :
    vector'.capacity = vector.capacity := by
  obtain ⟨_, -, rfl⟩ := Option.map_eq_some_iff.mp unlocked
  rfl

/-- A capacity that has grown is an `int`. -/
theorem increaseCapacity_capacity (grown : increaseCapacity t vector = some vector') : vector'.capacity ≤ intMax := by
  obtain ⟨⟨locked, _⟩, lock, grown⟩ := Option.bind_eq_some_iff.mp grown
  obtain ⟨_, -, grown⟩ := Option.bind_eq_some_iff.mp grown
  obtain ⟨_, fits, grown⟩ := Option.bind_eq_some_iff.mp grown
  obtain ⟨_, -, grown⟩ := Option.bind_eq_some_iff.mp grown
  rw [unlockDebug_capacity grown]
  exact VoxiUtil.Runs.assert_eq_some.mp fits

theorem append_capacity {whence : String} (small : vector.capacity ≤ intMax)
    (added : appendElement t vector whence element = some (i, vector')) : vector'.capacity ≤ intMax := by
  obtain ⟨⟨locked, prevLocker⟩, lock, added⟩ := Option.bind_eq_some_iff.mp added
  obtain ⟨room, grown, added⟩ := Option.bind_eq_some_iff.mp added
  obtain ⟨_, -, added⟩ := Option.bind_eq_some_iff.mp added
  obtain ⟨data, -, added⟩ := Option.bind_eq_some_iff.mp added
  obtain ⟨last, unlocked, same⟩ := Option.bind_eq_some_iff.mp added
  cases same
  rw [unlockDebug_capacity unlocked]
  dsimp only at grown ⊢
  split at grown
  · exact increaseCapacity_capacity grown
  · cases grown
    rwa [lockDebug_capacity lock]

/-- One element more, where an `int` can count it. -/
theorem appendPtr_held (held : Held t vector contents) (small : contents.length < intMax) (element : Text) :
    ∃ vector', vectorAppendPtr t vector element = some (contents.length, vector') ∧ Held t vector' (contents ++ [element]) := by
  have fits : Fits vector True := by
    refine ⟨by rw [held.holding.lock.count]; decide, fun _ full => ⟨by rw [held.holding.lock.count]; decide, ?_⟩⟩
    refine capacityFits_pointers held.elementSize ?_
    rw [held.capacityIncrement, ← full, held.holding.count]
    exact small
  obtain ⟨vector', added, holding, same⟩ := append_holding held.holding fits "vectorAppendPtr" element
  refine ⟨vector', ?_, ⟨holding, same.elementSize.trans held.elementSize, same.capacityIncrement.trans held.capacityIncrement,
    append_capacity held.capacity added⟩⟩
  rw [vectorAppendPtr, assert_true held.elementSize, Option.bind_eq_bind, Option.bind_some, added]

theorem appendPtr_overflows (held : Held t vector contents) (full : contents.length = intMax) (element : Text) :
    vectorAppendPtr t vector element = none := by
  have large : ¬ Fits vector True := by
    intro fits
    have whole : vector.elementCount = vector.capacity := by
      have room := held.holding.room
      have capacity := held.capacity
      rw [held.holding.count]
      omega
    have growth := (fits.2 trivial whole).2.1
    rw [held.capacityIncrement, ← whole, held.holding.count, full] at growth
    exact absurd growth (Nat.not_succ_le_self intMax)
  rw [vectorAppendPtr, assert_true held.elementSize, Option.bind_eq_bind, Option.bind_some,
    append_overflows held.holding large]

/-! ### The loop -/

variable {build : Build} {buffer rest token more : Text} {place turns : Nat}

theorem parseLoop_last (left : buffer.drop place = rest ++ [0]) (noNul : 0 ∉ rest) (free : pathDelim build ∉ rest) :
    parseLoop build t (turns + 1) buffer (some place) vector =
      (vectorAppendPtr t vector rest).bind fun out => parseLoop build t turns buffer none out.2 := by
  obtain ⟨separated, string⟩ := pathSeparate_last left noNul free
  rw [parseLoop, separated]
  simp only [string]
  rfl

theorem parseLoop_found (t : τ) (vector : SVector τ Text) (turns : Nat) (left : buffer.drop place = token ++ pathDelim build :: more ++ [0])
    (noNul : 0 ∉ token ++ pathDelim build :: more) (free : pathDelim build ∉ token) :
    ∃ buffer', buffer'.drop (place + token.length + 1) = more ++ [0] ∧
      parseLoop build t (turns + 1) buffer (some place) vector =
        (vectorAppendPtr t vector token).bind fun out => parseLoop build t turns buffer' (some (place + token.length + 1)) out.2 := by
  obtain ⟨buffer', separated, string, behind⟩ := pathSeparate_found left noNul free
  refine ⟨buffer', behind, ?_⟩
  rw [parseLoop, separated]
  simp only [string]
  rfl

/-- The loop adds the parts of what is left of the path, if an `int` can count them. -/
theorem parseLoop_held (held : Held t vector contents) (left : buffer.drop place = rest ++ [0]) (noNul : 0 ∉ rest)
    (enough : rest.length + 2 ≤ turns) (fits : (contents ++ rest.splitOn (pathDelim build)).length ≤ intMax) :
    ∃ vector', parseLoop build t turns buffer (some place) vector = some vector' ∧
      Held t vector' (contents ++ rest.splitOn (pathDelim build)) := by
  induction turns generalizing buffer place rest vector contents with
  | zero => exact absurd enough (Nat.not_succ_le_zero _)
  | succ turns ih =>
    by_cases delimited : pathDelim build ∈ rest
    · obtain ⟨token, more, rfl, free⟩ := List.eq_append_cons_of_mem delimited
      rw [List.splitOn_append_cons_self_of_not_mem free] at fits ⊢
      obtain ⟨buffer', behind, turn⟩ := parseLoop_found t vector turns left noNul free
      have small : contents.length < intMax := by
        rw [List.length_append, List.length_cons] at fits
        omega
      obtain ⟨vector', added, longer⟩ := appendPtr_held held small token
      rw [turn, added, Option.bind_some]
      have moreNoNul : 0 ∉ more := fun member => noNul (List.mem_append_right _ (List.mem_cons_of_mem _ member))
      have shorter : more.length + 2 ≤ turns := by
        rw [List.length_append, List.length_cons] at enough
        omega
      rw [List.append_cons] at fits ⊢
      exact ih longer behind moreNoNul shorter fits
    · rw [List.splitOn_eq_singleton delimited] at fits ⊢
      have small : contents.length < intMax := by
        rw [List.length_append, List.length_singleton] at fits
        omega
      obtain ⟨vector', added, longer⟩ := appendPtr_held held small rest
      rw [parseLoop_last left noNul delimited, added, Option.bind_some]
      refine ⟨vector', ?_, longer⟩
      cases turns with
      | zero => omega
      | succ turns => rfl

/-- The element that an `int` does not count is added to no vector. -/
theorem parseLoop_overflows (held : Held t vector contents) (left : buffer.drop place = rest ++ [0]) (noNul : 0 ∉ rest)
    (large : intMax < (contents ++ rest.splitOn (pathDelim build)).length) :
    parseLoop build t turns buffer (some place) vector = none := by
  induction turns generalizing buffer place rest vector contents with
  | zero => rfl
  | succ turns ih =>
    by_cases delimited : pathDelim build ∈ rest
    · obtain ⟨token, more, rfl, free⟩ := List.eq_append_cons_of_mem delimited
      rw [List.splitOn_append_cons_self_of_not_mem free] at large
      obtain ⟨buffer', behind, turn⟩ := parseLoop_found t vector turns left noNul free
      rw [turn]
      by_cases full : contents.length = intMax
      · rw [appendPtr_overflows held full, Option.bind_none]
      · obtain ⟨vector', added, longer⟩ := appendPtr_held held (Nat.lt_of_le_of_ne held.short full) token
        rw [added, Option.bind_some]
        have moreNoNul : 0 ∉ more := fun member => noNul (List.mem_append_right _ (List.mem_cons_of_mem _ member))
        rw [List.append_cons] at large
        exact ih longer behind moreNoNul large
    · rw [List.splitOn_eq_singleton delimited, List.length_append, List.length_singleton] at large
      have full : contents.length = intMax := Nat.le_antisymm held.short (Nat.le_of_lt_succ large)
      rw [parseLoop_last left noNul delimited, appendPtr_overflows held full, Option.bind_none]

theorem pathParse_some (thread : τ) : pathParse build t thread (some rest) =
    (parseLoop build t (rest.length + 2) (rest ++ [0]) (some 0) (created thread pointerSize 1 1 true)).map some := by
  have bytes : pointerSize * 1 ≤ sizeMax := by decide
  simp only [pathParse, vectorCreate, assert_true bytes, Option.bind_eq_bind, Option.bind_some]

/-- The elements of the vector that `path_parse` makes. -/
def Yields (build : Build) (t thread : τ) (path : Text) (parts : List Text) : Prop :=
  ∃ vector, pathParse build t thread (some path) = some (some vector) ∧
    elements vector.data vector.elementCount = some parts

theorem yields_iff (noNul : 0 ∉ rest) (thread : τ) {parts : List Text} :
    Yields build t thread rest parts ↔ parts = rest.splitOn (pathDelim build) ∧ rest.count (pathDelim build) < intMax := by
  have start := created_held t thread
  have copied : (rest ++ [0]).drop 0 = rest ++ [0] := rfl
  have count := splitOn_length (pathDelim build) rest
  by_cases fits : rest.count (pathDelim build) < intMax
  · obtain ⟨vector, done, held⟩ := parseLoop_held start copied noNul (le_refl _) (by rw [List.nil_append, count]; exact fits)
    rw [List.nil_append] at held
    have listed := elements_contents held.holding.front
    rw [← held.holding.count] at listed
    rw [and_iff_left fits]
    constructor
    · rintro ⟨other, parsed, found⟩
      rw [pathParse_some, done] at parsed
      cases parsed
      exact Option.some.inj (found.symm.trans listed)
    · rintro rfl
      exact ⟨vector, by rw [pathParse_some, done]; rfl, listed⟩
  · refine iff_of_false ?_ fun both => fits both.2
    rintro ⟨vector, parsed, -⟩
    have stuck := @parseLoop_overflows τ t _ [] _ build _ _ 0 (rest.length + 2) start copied noNul
      (by rw [List.nil_append, count]; exact Nat.lt_succ_of_le (not_lt.mp fits))
    rw [pathParse_some, stuck] at parsed
    cases parsed

/-- What is parsed of two paths in one is what is parsed of the first and of the second, without delimiters, and joined with them
    again it is the path. -/
structure Inverse (build : Build) (t thread : τ) (p q : Text) (ps qs : List Text) : Prop where
  first : Yields build t thread p ps
  second : Yields build t thread q qs
  both : Yields build t thread (pathConcatPath build p q) (ps ++ qs)
  free : ∀ part ∈ ps ++ qs, pathDelim build ∉ part
  joined : [pathDelim build].intercalate ps = p

theorem pathConcatPath_eq (build : Build) (p q : Text) : pathConcatPath build p q = p ++ pathDelim build :: q := by
  rw [pathConcatPath, snprintf, List.take_of_length_le]
  rw [List.length_append, List.length_cons]
  omega

end

/-- For every two paths, parsing is the inverse of concatenation just when an `int` can count the elements of both. -/
theorem parse_concat_iff {τ : Type} [DecidableEq τ] {build : Build} {t thread : τ} {p q : Text} (noNulP : 0 ∉ p) (noNulQ : 0 ∉ q) :
    (∃ ps qs, Inverse build t thread p q ps qs) ↔
      p.count (pathDelim build) + q.count (pathDelim build) + 2 ≤ 2147483647 := by
  have whole : (pathConcatPath build p q).count (pathDelim build) = p.count (pathDelim build) + q.count (pathDelim build) + 1 := by
    rw [pathConcatPath_eq, List.count_append, List.count_cons_self]
    omega
  have noNul : 0 ∉ pathConcatPath build p q := by
    rw [pathConcatPath_eq, List.mem_append, List.mem_cons, not_or, not_or]
    exact ⟨noNulP, (pathDelim_ne build).symm, noNulQ⟩
  constructor
  · rintro ⟨ps, qs, inverse⟩
    have fits := ((yields_iff noNul thread).mp inverse.both).2
    rw [whole] at fits
    exact fits
  · intro fits
    have small : p.count (pathDelim build) + q.count (pathDelim build) + 1 < intMax := fits
    refine ⟨_, _, (yields_iff noNulP thread).mpr ⟨rfl, by omega⟩, (yields_iff noNulQ thread).mpr ⟨rfl, by omega⟩,
      (yields_iff noNul thread).mpr ⟨?_, by rw [whole]; exact small⟩, ?_, List.intercalate_splitOn _⟩
    · rw [pathConcatPath_eq, List.splitOn_append_cons_self]
    · intro part member
      exact (List.mem_append.mp member).elim (splitOn_free _ p part) (splitOn_free _ q part)

/-- Empty elements in front, in between and at the end. -/
theorem parse_concat_iff_empty : ∃ ps qs, Inverse .unix 0 0 (lit ":/usr/lib::") (lit "/lib") ps qs :=
  (parse_concat_iff (by decide) (by decide)).mpr (by decide)

/-- A path of so many delimiters that an `int` does not count the elements. -/
theorem long_path_overflows : 0 ∉ List.replicate 2147483647 (58 : UInt8) ∧
    ¬ ∃ ps qs, Inverse .unix 0 0 (List.replicate 2147483647 58) [] ps qs := by
  have noNul : 0 ∉ List.replicate 2147483647 (58 : UInt8) := fun member => absurd (List.eq_of_mem_replicate member) (by decide)
  refine ⟨noNul, ?_⟩
  rintro ⟨ps, qs, inverse⟩
  have fits := ((yields_iff noNul 0).mp inverse.first).2
  rw [pathDelim, List.count_replicate_self] at fits
  exact absurd fits (lt_irrefl _)

end VoxiUtil.Path
