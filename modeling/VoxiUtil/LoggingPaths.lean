import VoxiUtil.LoggingEntries

/-!
The paths of log files. The files of the entries, common and error, of today and of other
days, all have paths of their own, as long as no name is cut.
-/
namespace VoxiUtil.LoggingPaths
open VoxiUtil.CString VoxiUtil.Logging

/-- The two files of an entry of the dual-file driver. -/
inductive Kind where
  | common | error
deriving DecidableEq

def Kind.specifier : Kind → Text
  | .common => lit "_Common"
  | .error => lit "_Error"

/-- The path of a file of the entry named by the two parts: the current one, or that of a date. -/
def path (name extension : Text) (kind : Kind) : Option Date → Text
  | none => logPath name kind.specifier extension
  | some date => datedPath name kind.specifier extension date

/-- Two parts that make a path which fits the buffers, and can be told apart in it. -/
structure Parts (name extension : Text) : Prop where
  dotless : (46 : UInt8) ∉ extension
  short : name.length + extension.length < 4005

section
variable {name name' extension extension' : Text} {kind kind' : Kind} {date date' : Option Date}

/-- The last separator of a text splits it in one way only. -/
theorem split_unique {a a' b b' : Text} {c : UInt8} (free : c ∉ b) (free' : c ∉ b') (same : a ++ c :: b = a' ++ c :: b') :
    a = a' ∧ b = b' := by
  have first : strrchr (a ++ c :: b) c = some (a, b) := strrchr_eq_some.mpr ⟨rfl, free⟩
  have second : strrchr (a ++ c :: b) c = some (a', b') := strrchr_eq_some.mpr ⟨same, free'⟩
  have pair := Option.some.inj (first.symm.trans second)
  exact ⟨congrArg Prod.fst pair, congrArg Prod.snd pair⟩

/-- What the name is followed by, in front of the extension. -/
def suffix (kind : Kind) : Option Date → Text
  | none => kind.specifier
  | some date => kind.specifier ++ 95 :: date.text

theorem path_eq (parts : Parts name extension) (kind : Kind) (date : Option Date) :
    path name extension kind date = dotted (name ++ suffix kind date) extension := by
  have length : (suffix kind date).length ≤ 22 := by
    have specifier : kind.specifier.length ≤ 7 := by cases kind <;> decide
    cases date with
    | none => exact Nat.le_trans specifier (by omega)
    | some date =>
      have fits := date.fits
      rw [suffix, List.length_append, List.length_cons]
      omega
  have fits : (dotted (name ++ suffix kind date) extension).length ≤ maxFilenameLength - 1 := by
    have short := parts.short
    rw [dotted, List.length_append, List.length_append, List.length_cons, maxFilenameLength]
    omega
  cases date <;> exact List.take_of_length_le fits

/-- The letter that a current path has in front of its extension. -/
def Kind.letter : Kind → UInt8
  | .common => 110
  | .error => 114

theorem current_last (name : Text) (kind : Kind) : (name ++ suffix kind none).getLast? = some kind.letter := by
  have last : (suffix kind none).getLast? = some kind.letter := by cases kind <;> decide
  rw [List.getLast?_append, last, Option.some_or]

/-- In front of the extension of a dated path there is no letter. -/
theorem dated_last (name : Text) (kind kind' : Kind) (date : Date) :
    (name ++ suffix kind (some date)).getLast? ≠ some kind'.letter := by
  have tail : (name ++ suffix kind (some date)).getLast? = (95 :: date.text).getLast? := by
    rw [suffix, ← List.append_assoc, List.getLast?_append]
    simp [List.getLast?_cons]
  rw [tail]
  intro last
  rcases List.mem_cons.mp (List.mem_of_getLast? last) with same | member
  · cases kind' <;> exact absurd same (by decide)
  · rcases date.plain _ member with digit | sign
    · cases kind' <;> exact absurd digit (by decide)
    · cases kind' <;> exact absurd sign (by decide)

theorem current_inj (same : name ++ suffix kind none = name' ++ suffix kind' none) : name = name' ∧ kind = kind' := by
  have letters : kind.letter = kind'.letter := by
    have last := congrArg List.getLast? same
    rw [current_last, current_last] at last
    exact Option.some.inj last
  have kinds : kind = kind' := by
    cases kind <;> cases kind' <;> first | rfl | exact absurd letters (by decide)
  subst kinds
  exact ⟨List.append_cancel_right same, rfl⟩

/-- All these paths are different. -/
theorem path_inj (parts : Parts name extension) (parts' : Parts name' extension')
    (same : path name extension kind date = path name' extension' kind' date') :
    name = name' ∧ extension = extension' ∧ kind = kind' ∧ date = date' := by
  rw [path_eq parts, path_eq parts', dotted, dotted] at same
  obtain ⟨front, rfl⟩ := split_unique parts.dotless parts'.dotless same
  have sameLast := congrArg List.getLast? front
  cases date with
  | none =>
    cases date' with
    | none =>
      obtain ⟨rfl, rfl⟩ := current_inj front
      exact ⟨rfl, rfl, rfl, rfl⟩
    | some date' =>
      rw [current_last] at sameLast
      exact absurd sameLast.symm (dated_last name' kind' kind date')
  | some date =>
    cases date' with
    | none =>
      rw [current_last] at sameLast
      exact absurd sameLast (dated_last name kind kind' date)
    | some date' =>
      have free : ∀ d : Date, (95 : UInt8) ∉ d.text := fun d member => by
        rcases d.plain _ member with digit | sign
        · exact absurd digit (by decide)
        · exact absurd sign (by decide)
      rw [suffix, suffix, ← List.append_assoc, ← List.append_assoc] at front
      obtain ⟨current, texts⟩ := split_unique (free date) (free date') front
      obtain ⟨rfl, rfl⟩ := current_inj current
      have dates : date = date' := by
        cases date
        cases date'
        cases texts
        rfl
      exact ⟨rfl, rfl, rfl, by rw [dates]⟩

theorem path_ne (parts : Parts name extension) (parts' : Parts name' extension')
    (differs : ¬ (name = name' ∧ extension = extension' ∧ kind = kind' ∧ date = date')) :
    path name extension kind date ≠ path name' extension' kind' date' :=
  fun same => differs (path_inj parts parts' same)

end

section
variable {l : Logger} {name name' extension extension' : Text} {kind kind' : Kind}

/-- A rotation does not touch the files of other entries and of the other kind. -/
theorem rotate_other (parts : Parts name extension) (parts' : Parts name' extension') (now : Moment) (date : Option Date)
    (differs : ¬ (name' = name ∧ extension' = extension ∧ kind' = kind)) :
    (fileLogRotate l name kind.specifier extension now).1.lines (.file (path name' extension' kind' date)) =
      l.lines (.file (path name' extension' kind' date)) := by
  have apart : ∀ other, Stream.file (path name' extension' kind' date) ≠ Stream.file (path name extension kind other) := by
    intro other same
    obtain ⟨one, two, three, _⟩ := path_inj parts' parts (Stream.file.inj same)
    exact differs ⟨one, two, three⟩
  unfold fileLogRotate
  refine (Function.update_of_ne (apart (some now.weekAgo)) ..).trans ?_
  split
  · rfl
  · exact (Function.update_of_ne (apart none) ..).trans (Function.update_of_ne (apart (some now.date)) ..)

/-- What a rotation does to the current file and to that of the date. -/
theorem rotate_own (l : Logger) (kind : Kind) (parts : Parts name extension) (now : Moment) :
    (fileLogRotate l name kind.specifier extension now).1.lines (.file (path name extension kind none)) = [] ∧
      (fileLogRotate l name kind.specifier extension now).1.lines (.file (path name extension kind (some now.date))) =
        l.lines (.file (path name extension kind none)) ∧
      (fileLogRotate l name kind.specifier extension now).2 = .file (path name extension kind none) := by
  have apart : ∀ {a b : Option Date}, a ≠ b → Stream.file (path name extension kind a) ≠ Stream.file (path name extension kind b) := by
    intro a b differs same
    exact differs (path_inj parts parts (Stream.file.inj same)).2.2.2
  have renames : ¬ logPath name kind.specifier extension = datedPath name kind.specifier extension now.date :=
    fun same => apart (a := none) (b := some now.date) (by simp) (congrArg Stream.file same)
  have sameDay : (some now.date : Option Date) ≠ some now.weekAgo := fun same => now.apart (Option.some.inj same).symm
  unfold fileLogRotate
  simp only [renames, ↓reduceIte]
  refine ⟨?_, ?_, rfl⟩
  · exact (Function.update_of_ne (apart (a := none) (b := some now.weekAgo) (by simp)) ..).trans (Function.update_self ..)
  · refine (Function.update_of_ne (apart sameDay) ..).trans ?_
    exact (Function.update_of_ne (apart (a := some now.date) (b := none) (by simp)) ..).trans (Function.update_self ..)

end

end VoxiUtil.LoggingPaths
