import VoxiUtil.BlockHeap
import VoxiUtil.Err

/-!
`ErrCopy` over a memory whose allocations may fail. The helpers report a failed
allocation with an error that has to be allocated too, and `ErrNew` returns NULL
when there is no memory for it, which reads as no error.
-/
namespace VoxiUtil.ErrCopy
open VoxiUtil.CString VoxiUtil.BlockHeap
open VoxiUtil.Err (ErrType Head Error errBuffSize)

/-- `struct s_Error`. A field that was not written is `none`, and a NULL pointer in it `some none`. -/
structure SError where
  type : Option ErrType
  number : Option Int32
  description : Option (Option Nat)
  reason : Option (Option Nat)
deriving DecidableEq

inductive Block where
  | error (fields : SError)
  | string (text : Text)
deriving DecidableEq

/-- The blocks, the number of allocations that were tried and, read by nobody,
    the blocks that `emalloc` and `estrdup` have allocated. -/
structure Memory where
  blocks : List (Option Block)
  calls : Nat
  copied : List Nat
deriving DecidableEq

/-- Why a call does not return: a pointer is followed that is NULL or leads to no block of the right kind,
    or the process ends. -/
inductive Stop where
  | undefined
  | ended
deriving DecidableEq

/-- What a call gives: the error, the new block and the memory. -/
abbrev Outcome := Except Stop (Option Nat × Option Nat × Memory)

section
variable (succeeds : Nat → Bool)

/-- `malloc` or `strdup`, with what is then written to the new block. -/
def malloc (memory : Memory) (contents : Block) : Option Nat × Memory :=
  if succeeds memory.calls then
    (some memory.blocks.length, { memory with blocks := memory.blocks ++ [some contents], calls := memory.calls + 1 })
  else (none, { memory with calls := memory.calls + 1 })

/-- `ErrNew`, with the description that its format and arguments make. The warning of a failed `malloc` is only printed. -/
def errNew (memory : Memory) (type : ErrType) (number : Int32) (reason : Option Nat) (description : Text) :
    Except Stop (Option Nat × Memory) :=
  match malloc succeeds memory (.string (description.take (errBuffSize - 1))) with
  | (none, _) => .error .ended
  | (some string, memory) => .ok (malloc succeeds memory (.error ⟨some type, some number, some (some string), some reason⟩))

/-- What `emalloc` and `estrdup` do. -/
def newBlock (memory : Memory) (contents : Block) (message : Text) : Outcome :=
  match malloc succeeds memory contents with
  | (some result, memory) => .ok (none, some result, { memory with copied := result :: memory.copied })
  | (none, memory) => do
    let (error, memory) ← errNew succeeds memory .memory 0 none message
    return (error, none, memory)

/-- `emalloc` for a `struct s_Error`. -/
def emalloc (memory : Memory) (size : Nat) : Outcome :=
  newBlock succeeds memory (.error ⟨none, none, none, none⟩)
    (lit "Out of memory when allocating " ++ printInt (Int32.ofNat size) ++ lit " bytes")

def estrdup (memory : Memory) (originalString : Option Nat) : Outcome :=
  match originalString.bind (lookup memory.blocks) with
  | some (.string text) => newBlock succeeds memory (.string text)
      (lit "Out of memory when allocating copying a string (" ++ printInt (Int32.ofNat (text.length + 1)) ++ lit " bytes)")
  | _ => .error .undefined

end

/-- The struct that a pointer leads to. -/
def follow (memory : Memory) (pointer : Option Nat) : Except Stop SError :=
  match pointer.bind (lookup memory.blocks) with
  | some (.error fields) => .ok fields
  | _ => .error .undefined

/-- A field that was written. -/
def written {α : Type} (field : Option α) : Except Stop α :=
  match field with
  | some value => .ok value
  | none => .error .undefined

/-- The struct behind a pointer with some of its fields set. -/
def change (memory : Memory) (pointer : Option Nat) (fields : SError → SError) : Except Stop Memory := do
  let before ← follow memory pointer
  return { memory with blocks := memory.blocks.set (pointer.getD 0) (some (.error (fields before))) }

def free (memory : Memory) (pointer : Option Nat) : Except Stop Memory :=
  match pointer with
  | none => .ok memory
  | some a =>
    if (lookup memory.blocks a).isSome then .ok { memory with blocks := memory.blocks.set a none }
    else .error .undefined

section
variable (succeeds : Nat → Bool) (copyChain : Memory → Option Nat → Outcome)

/-- `ErrCopy` from the reason on, with what copies the rest of the chain. -/
def copyReason (memory : Memory) (errorCopy originalReason : Option Nat) : Outcome :=
  match originalReason with
  | none => do
    let memory ← change memory errorCopy fun copy => { copy with reason := some none }
    return (none, errorCopy, memory)
  | some reason => do
    let (error, reasonCopy, memory) ← copyChain memory (some reason)
    let memory ← change memory errorCopy fun copy => { copy with reason := some reasonCopy }
    if error.isNone then return (error, errorCopy, memory)
    let copy ← follow memory errorCopy
    let memory ← free memory (← written copy.description)
    let memory ← free memory errorCopy
    return (error, errorCopy, memory)

/-- `ErrCopy` from its first assignment on. -/
def copyFields (memory : Memory) (errorCopy originalError : Option Nat) : Outcome := do
  let original ← follow memory originalError
  let memory ← change memory errorCopy fun copy => { copy with type := original.type, number := original.number }
  let (error, description, memory) ← estrdup succeeds memory (← written original.description)
  let memory ← change memory errorCopy fun copy => { copy with description := some description }
  if error.isSome then
    let memory ← free memory errorCopy
    return (error, errorCopy, memory)
  copyReason copyChain memory errorCopy (← written original.reason)

end

/-- The error that is returned, what `*errorCopy` is then and the memory. As many levels as the fuel has are followed. -/
def errCopy (succeeds : Nat → Bool) (sizeofError : Nat) :
    Nat → Memory → Option Nat → Outcome
  | 0, _, _ => .error .undefined
  | fuel + 1, memory, originalError => do
    let (error, errorCopy, memory) ← emalloc succeeds memory sizeofError
    if error.isSome then return (error, errorCopy, memory)
    copyFields succeeds (errCopy succeeds sizeofError fuel) memory errorCopy originalError

/-- A description in memory, or NULL in its place. -/
def Described (blocks : List (Option Block)) (description : Option Nat) (text : Text) (present : Bool)
    (inUse : List Nat) : Prop :=
  (∃ d, description = some d ∧ lookup blocks d = some (.string text) ∧ present = true ∧ inUse = [d]) ∨
    description = none ∧ present = false ∧ inUse = []

/-- A chain in memory and its blocks; `whole` when no description of it is NULL. -/
def Laid (blocks : List (Option Block)) : Nat → Error → Bool → List Nat → Prop
  | p, .root head, whole, inUse => ∃ description strings,
      lookup blocks p = some (.error ⟨some head.type, some head.number, some description, some none⟩) ∧
      Described blocks description head.description whole strings ∧ inUse = p :: strings
  | p, .because head reason, whole, inUse => ∃ description present strings next more rest,
      lookup blocks p = some (.error ⟨some head.type, some head.number, some description, some (some next)⟩) ∧
      Described blocks description head.description present strings ∧ Laid blocks next reason more rest ∧
      whole = (present && more) ∧ inUse = p :: (strings ++ rest)

/-- The levels of a chain. -/
def depth : Error → Nat
  | .root _ => 1
  | .because _ reason => depth reason + 1

/-- What a pattern makes of an allocation by `emalloc` or `estrdup`. -/
inductive Attempt where
  | made
  | reported
  | ended
  | unreported
deriving DecidableEq

def attempt (succeeds : Nat → Bool) (i : Nat) : Attempt :=
  if succeeds i then .made else if !succeeds (i + 1) then .ended else if succeeds (i + 2) then .reported else .unreported

/-- The allocations of the call, from number `i` on: if any fails, then the last that does is reported or ends the process.
    `missed` says that the one before was not. -/
def Noticed (succeeds : Nat → Bool) : Bool → Nat → Error → Prop
  | missed, i, .root _ => match attempt succeeds i, attempt succeeds (i + 1) with
    | .made, .made => missed = false
    | .made, .unreported => False
    | .unreported, _ => False
    | _, _ => True
  | missed, i, .because _ reason => match attempt succeeds i, attempt succeeds (i + 1) with
    | .made, .made => Noticed succeeds missed (i + 2) reason
    | .made, .unreported => Noticed succeeds true (i + 4) reason
    | .unreported, _ => False
    | _, _ => True

/-- The call follows no NULL. It returns no error and a copy that shares nothing with the chain, or an error and has given
    back what it had for the copy; what was in memory before is there as it was. -/
def CopiesOrNothing (succeeds : Nat → Bool) (sizeofError fuel : Nat) (memory : Memory) (p : Nat) (chain : Error)
    (inUse : List Nat) : Prop :=
  errCopy succeeds sizeofError fuel memory (some p) = .error .ended ∨
    ∃ error errorCopy after made, errCopy succeeds sizeofError fuel memory (some p) = .ok (error, errorCopy, after) ∧
      memory.blocks <+: after.blocks ∧ after.copied = made ++ memory.copied ∧
      (error = none → ∃ copy new, errorCopy = some copy ∧ Laid after.blocks copy chain true new ∧ new.Disjoint inUse) ∧
      (error ≠ none → ∀ a ∈ made, lookup after.blocks a = none)

section
variable {succeeds : Nat → Bool} {sizeofError fuel i p d : Nat} {memory : Memory} {contents : Block} {message text : Text}
  {type : Option ErrType} {number : Option Int32} {reason : Option Nat}

/-- What an allocation can do. -/
theorem newBlock_cases (succeeds : Nat → Bool) (memory : Memory) (contents : Block) (message : Text) :
    (attempt succeeds memory.calls = .made ∧ newBlock succeeds memory contents message = .ok (none, some memory.blocks.length,
      ⟨memory.blocks ++ [some contents], memory.calls + 1, memory.blocks.length :: memory.copied⟩)) ∨
    (attempt succeeds memory.calls = .ended ∧ newBlock succeeds memory contents message = .error .ended) ∨
    (attempt succeeds memory.calls = .reported ∧ ∃ error string fields, newBlock succeeds memory contents message =
      .ok (some error, none, ⟨memory.blocks ++ [string, fields], memory.calls + 3, memory.copied⟩)) ∨
    (attempt succeeds memory.calls = .unreported ∧ ∃ string, newBlock succeeds memory contents message =
      .ok (none, none, ⟨memory.blocks ++ [string], memory.calls + 3, memory.copied⟩)) := by
  by_cases first : succeeds memory.calls = true
  · simp [attempt, newBlock, malloc, first]
  · by_cases second : succeeds (memory.calls + 1) = true
    · by_cases third : succeeds (memory.calls + 2) = true
      · simp [attempt, newBlock, errNew, malloc, first, second, third, bind, Except.bind, pure, Except.pure]
      · simp [attempt, newBlock, errNew, malloc, first, second, third, bind, Except.bind, pure, Except.pure]
    · simp [attempt, newBlock, errNew, malloc, first, second, bind, Except.bind]

theorem follow_error {fields : SError} (found : lookup memory.blocks p = some (.error fields)) :
    follow memory (some p) = .ok fields := by
  simp [follow, found]

theorem change_error {fields : SError} (found : lookup memory.blocks p = some (.error fields)) (fill : SError → SError) :
    change memory (some p) fill = .ok { memory with blocks := memory.blocks.set p (some (.error (fill fields))) } := by
  simp [change, follow_error found, bind, Except.bind, pure, Except.pure]

theorem change_new (base more : List (Option Block)) (fields : SError) (calls : Nat) (copied : List Nat)
    (fill : SError → SError) :
    change ⟨base ++ some (.error fields) :: more, calls, copied⟩ (some base.length) fill =
      .ok ⟨base ++ some (.error (fill fields)) :: more, calls, copied⟩ := by
  rw [change_error (lookup_new ..), set_new]

theorem free_new (base more : List (Option Block)) (contents : Block) (calls : Nat) (copied : List Nat) :
    free ⟨base ++ some contents :: more, calls, copied⟩ (some base.length) = .ok ⟨base ++ none :: more, calls, copied⟩ := by
  simp [free]

theorem estrdup_string (found : lookup memory.blocks d = some (.string text)) :
    ∃ message, estrdup succeeds memory (some d) = newBlock succeeds memory (.string text) message := by
  simp [estrdup, found]

/-- When there is no memory for the struct. -/
theorem errCopy_refused {fields : SError} (refused : attempt succeeds memory.calls ≠ .made)
    (struct : lookup memory.blocks p = some (.error fields)) :
    (attempt succeeds memory.calls = .ended ∧ errCopy succeeds sizeofError (fuel + 1) memory (some p) = .error .ended) ∨
    (attempt succeeds memory.calls = .unreported ∧ errCopy succeeds sizeofError (fuel + 1) memory (some p) = .error .undefined) ∨
    (attempt succeeds memory.calls = .reported ∧ ∃ error after, memory.blocks <+: after.blocks ∧ after.copied = memory.copied ∧
      errCopy succeeds sizeofError (fuel + 1) memory (some p) = .ok (some error, none, after)) := by
  rw [errCopy, emalloc]
  rcases newBlock_cases succeeds memory _ _ with ⟨made, _⟩ | ⟨ended, block⟩ | ⟨reported, error, string, fields, block⟩ |
    ⟨unreported, string, block⟩
  · exact absurd made refused
  · rw [block]
    exact .inl ⟨ended, rfl⟩
  · refine .inr (.inr ⟨reported, error, ⟨memory.blocks ++ [string, fields], memory.calls + 3, memory.copied⟩,
      List.prefix_append _ _, rfl, ?_⟩)
    rw [block]
    rfl
  · have same := lookup_kept (List.prefix_append memory.blocks [string]) struct
    refine .inr (.inl ⟨unreported, ?_⟩)
    rw [block]
    simp [copyFields, same, change, follow, bind, Except.bind]

/-- When there is. -/
theorem errCopy_made (made : attempt succeeds memory.calls = .made) :
    errCopy succeeds sizeofError (fuel + 1) memory (some p) = copyFields succeeds (errCopy succeeds sizeofError fuel)
      ⟨memory.blocks ++ [some (.error ⟨none, none, none, none⟩)], memory.calls + 1, memory.blocks.length :: memory.copied⟩
      (some memory.blocks.length) (some p) := by
  rw [errCopy, emalloc]
  rcases newBlock_cases succeeds memory _ _ with ⟨_, block⟩ | ⟨other, _⟩ | ⟨other, _⟩ | ⟨other, _⟩
  · rw [block]
    rfl
  · simp [made] at other
  · simp [made] at other
  · simp [made] at other

/-- The memory behind the allocations for a level, the second of which has left a block too. -/
def started (memory : Memory) (type : Option ErrType) (number : Option Int32) (description : Option Nat) (more : Option Block)
    (calls : Nat) (copied : List Nat) : Memory :=
  ⟨memory.blocks ++ [some (.error ⟨type, number, some description, none⟩), more], calls, copied⟩

/-- What the description's allocation can do to a level. -/
theorem copyFields_cases {copyChain : Memory → Option Nat → Outcome}
    {result : Outcome}
    (struct : lookup memory.blocks p = some (.error ⟨type, number, some (some d), some reason⟩))
    (string : lookup memory.blocks d = some (.string text))
    (run : copyFields succeeds copyChain
      ⟨memory.blocks ++ [some (.error ⟨none, none, none, none⟩)], memory.calls + 1, memory.blocks.length :: memory.copied⟩
      (some memory.blocks.length) (some p) = result) :
    (attempt succeeds (memory.calls + 1) = .made ∧ result = copyReason copyChain
      (started memory type number (some (memory.blocks.length + 1)) (some (.string text)) (memory.calls + 2)
        ((memory.blocks.length + 1) :: memory.blocks.length :: memory.copied)) (some memory.blocks.length) reason) ∨
    (attempt succeeds (memory.calls + 1) = .ended ∧ result = .error .ended) ∨
    (attempt succeeds (memory.calls + 1) = .reported ∧ ∃ error errorCopy after, result = .ok (some error, errorCopy, after) ∧
      memory.blocks <+: after.blocks ∧ after.copied = memory.blocks.length :: memory.copied ∧
      lookup after.blocks memory.blocks.length = none) ∨
    (attempt succeeds (memory.calls + 1) = .unreported ∧ ∃ more, result = copyReason copyChain
      (started memory type number none more (memory.calls + 4) (memory.blocks.length :: memory.copied))
      (some memory.blocks.length) reason) := by
  have original := lookup_kept (List.prefix_append memory.blocks [some (.error ⟨none, none, none, none⟩)]) struct
  have found := lookup_kept (List.prefix_append memory.blocks [some (.error ⟨type, number, none, none⟩)]) string
  obtain ⟨message, duplicated⟩ := @estrdup_string succeeds d
    ⟨memory.blocks ++ [some (.error ⟨type, number, none, none⟩)], memory.calls + 1, memory.blocks.length :: memory.copied⟩ _ found
  rw [copyFields, follow_error original] at run
  simp only [bind, Except.bind, pure, Except.pure, change_new, written, duplicated] at run
  rcases newBlock_cases succeeds
    ⟨memory.blocks ++ [some (.error ⟨type, number, none, none⟩)], memory.calls + 1, memory.blocks.length :: memory.copied⟩
    (.string text) message with ⟨made, block⟩ | ⟨ended, block⟩ | ⟨reported, error, first, second, block⟩ |
    ⟨unreported, more, block⟩
  · simp [block, change_new] at run
    exact .inl ⟨made, by simp [← run, started]⟩
  · simp [block] at run
    exact .inr (.inl ⟨ended, run.symm⟩)
  · simp [block, change_new, free_new] at run
    exact .inr (.inr (.inl ⟨reported, error, some memory.blocks.length, _, run.symm, List.prefix_append _ _, rfl, lookup_new ..⟩))
  · simp [block, change_new] at run
    exact .inr (.inr (.inr ⟨unreported, more, by simp [← run, started]⟩))

/-- The last level has no reason. -/
theorem copyReason_root {copyChain : Memory → Option Nat → Outcome}
    {description : Option Nat} {more : Option Block} {calls : Nat} {copied : List Nat} :
    copyReason copyChain (started memory type number description more calls copied) (some memory.blocks.length) none =
      .ok (none, some memory.blocks.length,
        ⟨memory.blocks ++ [some (.error ⟨type, number, some description, some none⟩), more], calls, copied⟩) := by
  simp [copyReason, started, change_new, bind, Except.bind, pure, Except.pure]

/-- What stops the copy of the rest stops the call. -/
theorem copyReason_stop {copyChain : Memory → Option Nat → Outcome} {stop : Stop} {errorCopy : Option Nat} {q : Nat}
    (stopped : copyChain memory (some q) = .error stop) : copyReason copyChain memory errorCopy (some q) = .error stop := by
  simp [copyReason, stopped, bind, Except.bind]

/-- What the copy of the rest can do to a level. -/
theorem copyReason_cases {copyChain : Memory → Option Nat → Outcome}
    {result rest : Outcome} {description : Option Nat} {more : Option Block} {calls q : Nat}
    {copied : List Nat}
    (inner : copyChain (started memory type number description more calls copied) (some q) = rest)
    (kept : ∀ error pointer after, rest = .ok (error, pointer, after) →
      (started memory type number description more calls copied).blocks <+: after.blocks)
    (named : ∀ a, description = some a → a = memory.blocks.length + 1 ∧ more.isSome)
    (run : copyReason copyChain (started memory type number description more calls copied) (some memory.blocks.length) (some q) =
      result) :
    (∃ stop, rest = .error stop ∧ result = .error stop) ∨
    (∃ pointer after, rest = .ok (none, pointer, after) ∧ result = .ok (none, some memory.blocks.length, { after with
      blocks := after.blocks.set memory.blocks.length (some (.error ⟨type, number, some description, some pointer⟩)) })) ∨
    (∃ error pointer after, rest = .ok (some error, pointer, after) ∧ ∃ after', result =
      .ok (some error, some memory.blocks.length, after') ∧ memory.blocks <+: after'.blocks ∧ after'.copied = after.copied ∧
      lookup after'.blocks memory.blocks.length = none ∧ (∀ a, description = some a → lookup after'.blocks a = none) ∧
      ∀ a, lookup after.blocks a = none → lookup after'.blocks a = none) := by
  rw [copyReason, inner] at run
  rcases rest with stop | ⟨error, pointer, after⟩
  · exact .inl ⟨stop, rfl, run.symm⟩
  · have grown := kept error pointer after rfl
    have copy : lookup after.blocks memory.blocks.length = some (.error ⟨type, number, some description, none⟩) :=
      lookup_kept grown (lookup_new ..)
    simp only [bind, Except.bind, change_error copy] at run
    rcases error with _ | error
    · exact .inr (.inl ⟨pointer, after, rfl, run.symm⟩)
    · have room : memory.blocks.length < after.blocks.length := lookup_lt copy
      have begun : memory.blocks <+: after.blocks := (List.prefix_append _ _).trans grown
      have filled : lookup (after.blocks.set memory.blocks.length
          (some (.error ⟨type, number, some description, some pointer⟩))) memory.blocks.length =
          some (.error ⟨type, number, some description, some pointer⟩) := lookup_set room
      refine .inr (.inr ⟨error, pointer, after, rfl, ?_⟩)
      rcases description with _ | a
      · simp [follow, filled, written, free] at run
        refine ⟨_, run.symm, prefix_set begun le_rfl, rfl, lookup_set room, by simp, fun a gone => lookup_released gone⟩
      · obtain ⟨rfl, used⟩ := named a rfl
        obtain ⟨contents, rfl⟩ := Option.isSome_iff_exists.mp used
        have string : lookup after.blocks (memory.blocks.length + 1) = some contents :=
          lookup_kept grown (by simp [started, lookup])
        have secondRoom : memory.blocks.length + 1 < after.blocks.length := lookup_lt string
        simp [follow, filled, written, free, lookup_set_other, string] at run
        refine ⟨_, run.symm, prefix_set (prefix_set (prefix_set begun le_rfl) (Nat.le_succ _)) le_rfl, rfl,
          lookup_set (by simpa using room), ?_, fun a gone => lookup_released (lookup_released ?_)⟩
        · rintro _ ⟨⟩
          exact lookup_released (lookup_set (by simpa using secondRoom))
        · rwa [lookup_set_other]
          rintro rfl
          rw [copy] at gone
          cases gone

/-- What becomes of a call. -/
inductive Fate where
  | undefined
  | ended
  | reported
  | done (whole : Bool)
deriving DecidableEq

/-- The fate of a level whose description is there or not, by that of the rest. -/
def Fate.after (present : Bool) : Fate → Fate
  | .done whole => .done (present && whole)
  | other => other

@[simp]
theorem after_ended {outcome : Fate} {present : Bool} : outcome.after present = .ended ↔ outcome = .ended := by
  cases outcome <;> simp [Fate.after]

@[simp]
theorem after_reported {outcome : Fate} {present : Bool} : outcome.after present = .reported ↔ outcome = .reported := by
  cases outcome <;> simp [Fate.after]

@[simp]
theorem after_whole {outcome : Fate} {present : Bool} :
    outcome.after present = .done true ↔ present = true ∧ outcome = .done true := by
  cases outcome <;> simp [Fate.after]

/-- The fate of the copy of a chain by the pattern of the allocations from number `i` on. -/
def fate (succeeds : Nat → Bool) : Nat → Error → Fate
  | i, .root _ => match attempt succeeds i, attempt succeeds (i + 1) with
    | .made, .made => .done true
    | .made, .unreported => .done false
    | .made, .ended | .ended, _ => .ended
    | .made, .reported | .reported, _ => .reported
    | .unreported, _ => .undefined
  | i, .because _ reason => match attempt succeeds i, attempt succeeds (i + 1) with
    | .made, .made => (fate succeeds (i + 2) reason).after true
    | .made, .unreported => (fate succeeds (i + 4) reason).after false
    | .made, .ended | .ended, _ => .ended
    | .made, .reported | .reported, _ => .reported
    | .unreported, _ => .undefined

/-- The result of a call with a fate. -/
def Meets (memory : Memory) (chain : Error) (result : Outcome) : Fate → Prop
  | .undefined => result = .error .undefined
  | .ended => result = .error .ended
  | .reported => ∃ error errorCopy after made, result = .ok (some error, errorCopy, after) ∧ memory.blocks <+: after.blocks ∧
      after.copied = made ++ memory.copied ∧ ∀ a ∈ made, lookup after.blocks a = none
  | .done whole => ∃ copy after made new, result = .ok (none, some copy, after) ∧ memory.blocks <+: after.blocks ∧
      after.copied = made ++ memory.copied ∧ Laid after.blocks copy chain whole new ∧ ∀ a ∈ new, memory.blocks.length ≤ a

theorem described_frame {blocks blocks' : List (Option Block)} {description : Option Nat} {present : Bool} {inUse : List Nat}
    (described : Described blocks description text present inUse) (same : ∀ a ∈ inUse, lookup blocks' a = lookup blocks a) :
    Described blocks' description text present inUse := by
  rcases described with ⟨d, rfl, found, rfl, rfl⟩ | empty
  · exact .inl ⟨d, rfl, by rw [same d (by simp), found], rfl, rfl⟩
  · exact .inr empty

theorem laid_frame {blocks blocks' : List (Option Block)} {chain : Error} {whole : Bool} {inUse : List Nat}
    (laid : Laid blocks p chain whole inUse) (same : ∀ a ∈ inUse, lookup blocks' a = lookup blocks a) :
    Laid blocks' p chain whole inUse := by
  induction chain generalizing p whole inUse with
  | root head =>
    obtain ⟨description, strings, struct, described, rfl⟩ := laid
    exact ⟨description, strings, by rw [same p (by simp), struct],
      described_frame described fun a member => same a (by simp [member]), rfl⟩
  | because head reason ih =>
    obtain ⟨description, present, strings, next, more, rest, struct, described, behind, rfl, rfl⟩ := laid
    exact ⟨description, present, strings, next, more, rest, by rw [same p (by simp), struct],
      described_frame described fun a member => same a (by simp [member]),
      ih behind fun a member => same a (by simp [member]), rfl, rfl⟩

theorem described_used {blocks : List (Option Block)} {description : Option Nat} {present : Bool} {inUse : List Nat}
    (described : Described blocks description text present inUse) : ∀ a ∈ inUse, a < blocks.length := by
  rcases described with ⟨d, rfl, found, rfl, rfl⟩ | ⟨_, _, rfl⟩
  · simpa using lookup_lt found
  · simp

theorem laid_used {blocks : List (Option Block)} {chain : Error} {whole : Bool} {inUse : List Nat}
    (laid : Laid blocks p chain whole inUse) : ∀ a ∈ inUse, a < blocks.length := by
  induction chain generalizing p whole inUse with
  | root head =>
    obtain ⟨description, strings, struct, described, rfl⟩ := laid
    exact List.forall_mem_cons.mpr ⟨lookup_lt struct, described_used described⟩
  | because head reason ih =>
    obtain ⟨description, present, strings, next, more, rest, struct, described, behind, rfl, rfl⟩ := laid
    exact List.forall_mem_cons.mpr ⟨lookup_lt struct, List.forall_mem_append.mpr ⟨described_used described, ih behind⟩⟩

/-- Memory that goes on from one with a chain has it too. -/
theorem laid_grown {blocks blocks' : List (Option Block)} {chain : Error} {whole : Bool} {inUse : List Nat}
    (laid : Laid blocks p chain whole inUse) (grown : blocks <+: blocks') : Laid blocks' p chain whole inUse :=
  laid_frame laid fun a member => lookup_before grown (laid_used laid a member)

theorem meets_kept {chain : Error} {result : Outcome} {outcome : Fate}
    {error pointer : Option Nat} {after : Memory} (meets : Meets memory chain result outcome)
    (returned : result = .ok (error, pointer, after)) : memory.blocks <+: after.blocks := by
  subst returned
  cases outcome with
  | undefined => cases meets
  | ended => cases meets
  | reported =>
    obtain ⟨_, _, _, _, same, grown, _⟩ := meets
    cases same
    exact grown
  | done whole =>
    obtain ⟨_, _, _, _, same, grown, _⟩ := meets
    cases same
    exact grown

/-- A level around the copy of the rest. -/
theorem meets_level {copyChain : Memory → Option Nat → Outcome} {head : Head} {chain : Error}
    {description : Option Nat} {more : Option Block} {calls q : Nat} {here strings : List Nat} {outcome : Fate} {present : Bool}
    (behind : Meets (started memory (some head.type) (some head.number) description more calls (here ++ memory.copied)) chain
      (copyChain (started memory (some head.type) (some head.number) description more calls (here ++ memory.copied)) (some q))
      outcome)
    (described : Described (started memory (some head.type) (some head.number) description more calls
      (here ++ memory.copied)).blocks description head.description present strings)
    (named : ∀ a, description = some a → a = memory.blocks.length + 1 ∧ more.isSome)
    (own : ∀ a ∈ here, a = memory.blocks.length ∨ description = some a) :
    Meets memory (.because head chain)
      (copyReason copyChain (started memory (some head.type) (some head.number) description more calls (here ++ memory.copied))
        (some memory.blocks.length) (some q)) (outcome.after present) := by
  have begun : memory.blocks <+:
      (started memory (some head.type) (some head.number) description more calls (here ++ memory.copied)).blocks :=
    List.prefix_append _ _
  have cases := copyReason_cases rfl (fun _ _ _ returned => meets_kept behind returned) named rfl
  cases outcome with
  | undefined => exact copyReason_stop behind
  | ended => exact copyReason_stop behind
  | reported =>
    obtain ⟨_, _, _, made, returned, _, copied, freed⟩ := behind
    rcases cases with ⟨stop, rest, _⟩ | ⟨_, _, rest, _⟩ |
      ⟨error, pointer, after, rest, after', result, grown, same, gone, names, kept⟩
    · cases rest.symm.trans returned
    · cases rest.symm.trans returned
    · cases rest.symm.trans returned
      refine ⟨_, _, after', made ++ here, result, grown, by rw [same, copied, List.append_assoc]; rfl, ?_⟩
      refine List.forall_mem_append.mpr ⟨fun a member => kept a (freed a member), fun a member => ?_⟩
      rcases own a member with rfl | name
      · exact gone
      · exact names a name
  | done whole =>
    obtain ⟨_, _, made, new, returned, grown, copied, laid, fresh⟩ := behind
    rcases cases with ⟨stop, rest, _⟩ | ⟨pointer, after, rest, result⟩ | ⟨_, _, _, rest, _⟩
    · cases rest.symm.trans returned
    · cases rest.symm.trans returned
      have string : ∀ a ∈ strings, a = memory.blocks.length + 1 := by
        intro a member
        rcases described with ⟨d, name, _, _, rfl⟩ | ⟨_, _, rfl⟩
        · rw [List.mem_singleton.mp member]
          exact (named d name).1
        · cases member
      have room : memory.blocks.length < (started memory (some head.type) (some head.number) description more calls
          (here ++ memory.copied)).blocks.length := by
        simp [started]
      have behindIt : ∀ a ∈ new, memory.blocks.length + 2 ≤ a := fun a member => by simpa [started] using fresh a member
      have placed := described_frame described fun a member => lookup_before grown (described_used described a member)
      refine ⟨_, _, made ++ here, _, result, prefix_set (begun.trans grown) le_rfl, by rw [copied, List.append_assoc]; rfl,
        ⟨description, present, strings, _, whole, new, lookup_set (room.trans_le grown.length_le), ?_, ?_, rfl, rfl⟩, ?_⟩
      · refine described_frame placed fun a member => lookup_set_other ?_
        have := string a member
        omega
      · refine laid_frame laid fun a member => lookup_set_other ?_
        have := behindIt a member
        omega
      · refine List.forall_mem_cons.mpr ⟨le_rfl, List.forall_mem_append.mpr ⟨fun a member => ?_, fun a member => ?_⟩⟩
        · have := string a member
          omega
        · have := behindIt a member
          omega
    · cases rest.symm.trans returned

/-- The struct of a level and its description, in a chain without NULL. -/
theorem described_whole {blocks : List (Option Block)} {description : Option Nat} {inUse : List Nat}
    (described : Described blocks description text true inUse) :
    ∃ d, description = some d ∧ lookup blocks d = some (.string text) := by
  rcases described with ⟨d, rfl, found, _, _⟩ | ⟨_, absent, _⟩
  · exact ⟨d, rfl, found⟩
  · cases absent

/-- A call that fails at the first level does so whatever comes behind. -/
theorem meets_refused {chain : Error} {fields : SError} (refused : attempt succeeds memory.calls ≠ .made)
    (struct : lookup memory.blocks p = some (.error fields)) :
    Meets memory chain (errCopy succeeds sizeofError (fuel + 1) memory (some p)) (fate succeeds memory.calls chain) := by
  rcases errCopy_refused refused struct with ⟨ended, result⟩ | ⟨unreported, result⟩ |
    ⟨reported, error, after, grown, copied, result⟩
  · rw [result, show fate succeeds memory.calls chain = .ended by cases chain <;> simp [fate, ended]]
    rfl
  · rw [result, show fate succeeds memory.calls chain = .undefined by cases chain <;> simp [fate, unreported]]
    rfl
  · rw [result, show fate succeeds memory.calls chain = .reported by cases chain <;> simp [fate, reported]]
    exact ⟨error, none, after, [], rfl, grown, copied, by simp⟩

/-- And so does one whose first description is not copied. -/
theorem meets_stopped {chain : Error} {result : Outcome} (made : attempt succeeds memory.calls = .made)
    (stopped : (attempt succeeds (memory.calls + 1) = .ended ∧ result = .error .ended) ∨
      (attempt succeeds (memory.calls + 1) = .reported ∧ ∃ error errorCopy after, result = .ok (some error, errorCopy, after) ∧
        memory.blocks <+: after.blocks ∧ after.copied = memory.blocks.length :: memory.copied ∧
        lookup after.blocks memory.blocks.length = none)) :
    Meets memory chain result (fate succeeds memory.calls chain) := by
  rcases stopped with ⟨ended, result⟩ | ⟨reported, error, errorCopy, after, result, grown, copied, gone⟩
  · rw [result, show fate succeeds memory.calls chain = .ended by cases chain <;> simp [fate, made, ended]]
    rfl
  · rw [result, show fate succeeds memory.calls chain = .reported by cases chain <;> simp [fate, made, reported]]
    exact ⟨error, errorCopy, after, [memory.blocks.length], rfl, grown, copied, by simpa using gone⟩

/-- Every call ends as the pattern of its allocations says. -/
theorem errCopy_meets {chain : Error} {inUse : List Nat} (held : Laid memory.blocks p chain true inUse)
    (enough : depth chain ≤ fuel) :
    Meets memory chain (errCopy succeeds sizeofError fuel memory (some p)) (fate succeeds memory.calls chain) := by
  induction chain generalizing p memory inUse fuel with
  | root head =>
    obtain ⟨description, strings, struct, described, rfl⟩ := held
    obtain ⟨d, rfl, string⟩ := described_whole described
    obtain ⟨fuel, rfl⟩ : ∃ more, fuel = more + 1 := ⟨fuel - 1, by rw [depth] at enough; omega⟩
    by_cases made : attempt succeeds memory.calls = .made
    · rw [errCopy_made made]
      rcases copyFields_cases struct string rfl with ⟨second, result⟩ | ended | reported | ⟨unreported, more, result⟩
      · rw [result, copyReason_root]
        simp only [fate, made, second]
        refine ⟨_, _, [memory.blocks.length + 1, memory.blocks.length], _, rfl, List.prefix_append _ _, rfl,
          ⟨some (memory.blocks.length + 1), [memory.blocks.length + 1], lookup_new .., .inl ⟨_, rfl, ?_, rfl, rfl⟩, rfl⟩, by simp⟩
        simp [lookup]
      · exact meets_stopped made (.inl ended)
      · exact meets_stopped made (.inr reported)
      · rw [result, copyReason_root]
        simp only [fate, made, unreported]
        exact ⟨_, _, [memory.blocks.length], _, rfl, List.prefix_append _ _, rfl,
          ⟨none, [], lookup_new .., .inr ⟨rfl, rfl, rfl⟩, rfl⟩, by simp⟩
    · exact meets_refused made struct
  | because head reason ih =>
    obtain ⟨description, present, strings, next, more, rest, struct, described, behind, whole, rfl⟩ := held
    rw [eq_comm, Bool.and_eq_true] at whole
    obtain ⟨rfl, rfl⟩ := whole
    obtain ⟨d, rfl, string⟩ := described_whole described
    obtain ⟨fuel, rfl⟩ : ∃ more, fuel = more + 1 := ⟨fuel - 1, by rw [depth] at enough; omega⟩
    have enoughBehind : depth reason ≤ fuel := Nat.le_of_succ_le_succ enough
    by_cases made : attempt succeeds memory.calls = .made
    · rw [errCopy_made made]
      rcases copyFields_cases struct string rfl with ⟨second, result⟩ | ended | reported | ⟨unreported, more, result⟩
      · rw [result]
        simp only [fate, made, second]
        change Meets _ _ (copyReason _
          (started _ _ _ _ _ _ ([memory.blocks.length + 1, memory.blocks.length] ++ memory.copied)) _ _) _
        refine meets_level (ih (laid_grown behind (List.prefix_append _ _)) enoughBehind)
          (.inl ⟨_, rfl, ?_, rfl, rfl⟩) (by simp) (by simp)
        simp [started, lookup]
      · exact meets_stopped made (.inl ended)
      · exact meets_stopped made (.inr reported)
      · rw [result]
        simp only [fate, made, unreported]
        change Meets _ _ (copyReason _ (started _ _ _ _ _ _ ([memory.blocks.length] ++ memory.copied)) _ _) _
        exact meets_level (ih (laid_grown behind (List.prefix_append _ _)) enoughBehind)
          (.inr ⟨rfl, rfl, rfl⟩) (by simp) (by simp)
    · exact meets_refused made struct

theorem described_same {blocks : List (Option Block)} {description : Option Nat} {present other : Bool} {inUse inUse' : List Nat}
    (one : Described blocks description text present inUse) (two : Described blocks description text other inUse') :
    present = other := by
  rcases one with ⟨d, rfl, _, rfl, _⟩ | ⟨rfl, rfl, _⟩
  · rcases two with ⟨_, _, _, rfl, _⟩ | ⟨absent, _⟩
    · rfl
    · cases absent
  · rcases two with ⟨_, absent, _⟩ | ⟨_, rfl, _⟩
    · cases absent
    · rfl

/-- A chain with a NULL for a description is not one without. -/
theorem laid_same {blocks : List (Option Block)} {chain : Error} {whole other : Bool} {inUse inUse' : List Nat}
    (one : Laid blocks p chain whole inUse) (two : Laid blocks p chain other inUse') : whole = other := by
  induction chain generalizing p whole other inUse inUse' with
  | root head =>
    obtain ⟨description, strings, struct, described, rfl⟩ := one
    obtain ⟨_, _, struct', described', rfl⟩ := two
    cases struct.symm.trans struct'
    exact described_same described described'
  | because head reason ih =>
    obtain ⟨description, present, strings, next, more, rest, struct, described, behind, rfl, rfl⟩ := one
    obtain ⟨_, _, _, _, _, _, struct', described', behind', rfl, rfl⟩ := two
    cases struct.symm.trans struct'
    rw [described_same described described', ih behind behind']

/-- The failures are noticed unless a NULL is followed or stays in the copy. -/
theorem noticed_fate {chain : Error} {missed : Bool} : Noticed succeeds missed i chain ↔
    fate succeeds i chain = .ended ∨ fate succeeds i chain = .reported ∨ fate succeeds i chain = .done true ∧ missed = false := by
  induction chain generalizing missed i with
  | root head =>
    cases first : attempt succeeds i <;> cases second : attempt succeeds (i + 1) <;> simp [Noticed, fate, first, second]
  | because head reason ih =>
    cases first : attempt succeeds i <;> cases second : attempt succeeds (i + 1) <;> simp [Noticed, fate, first, second, ih]

end

/-- The call copies the chain or cleans up behind it exactly when its last failure, if there is any, is noticed. -/
theorem copies_iff {succeeds : Nat → Bool} {sizeofError fuel p : Nat} {memory : Memory} {chain : Error} {inUse : List Nat}
    (held : Laid memory.blocks p chain true inUse) (enough : depth chain ≤ fuel) :
    CopiesOrNothing succeeds sizeofError fuel memory p chain inUse ↔ Noticed succeeds false memory.calls chain := by
  have meets := @errCopy_meets succeeds sizeofError fuel p memory chain inUse held enough
  rw [noticed_fate]
  cases outcome : fate succeeds memory.calls chain with
  | undefined =>
    rw [outcome] at meets
    refine iff_of_false ?_ (by simp)
    rintro (stopped | ⟨_, _, _, _, returned, _⟩)
    · cases meets.symm.trans stopped
    · cases meets.symm.trans returned
  | ended =>
    rw [outcome] at meets
    exact iff_of_true (.inl meets) (.inl rfl)
  | reported =>
    rw [outcome] at meets
    obtain ⟨error, errorCopy, after, made, returned, grown, copied, freed⟩ := meets
    exact iff_of_true (.inr ⟨_, _, _, made, returned, grown, copied, by simp, fun _ => freed⟩) (.inr (.inl rfl))
  | done whole =>
    rw [outcome] at meets
    obtain ⟨copy, after, made, new, returned, grown, copied, laid, fresh⟩ := meets
    cases whole with
    | true =>
      have apart : new.Disjoint inUse := fun a copies original =>
        absurd (laid_used held a original) (Nat.not_lt_of_le (fresh a copies))
      exact iff_of_true (.inr ⟨_, _, _, made, returned, grown, copied, fun _ => ⟨copy, new, rfl, laid, apart⟩, by simp⟩)
        (.inr (.inr ⟨rfl, rfl⟩))
    | false =>
      refine iff_of_false ?_ (by simp)
      rintro (stopped | ⟨error, _, _, _, same, _, _, copies, _⟩)
      · cases returned.symm.trans stopped
      · cases returned.symm.trans same
        obtain ⟨_, _, same, another, _⟩ := copies rfl
        cases same
        cases laid_same laid another

/-- An error with a reason, in memory, and its copy when the second description's allocation fails and that is reported. -/
private def refusal : Error := .because ⟨.tcpip, 2, lit "No host"⟩ (.root ⟨.errno, 13, lit "Refused"⟩)

private def refusalMemory : Memory :=
  ⟨[some (.error ⟨some .tcpip, some 2, some (some 2), some (some 1)⟩),
    some (.error ⟨some .errno, some 13, some (some 3), some none⟩),
    some (.string (lit "No host")), some (.string (lit "Refused"))], 0, []⟩

private theorem refusal_laid : Laid refusalMemory.blocks 0 refusal true [0, 2, 1, 3] :=
  ⟨some 2, true, [2], 1, true, [1, 3], rfl, .inl ⟨2, rfl, rfl, rfl, rfl⟩,
    ⟨some 3, [3], rfl, .inl ⟨3, rfl, rfl, rfl, rfl⟩, rfl⟩, rfl, rfl⟩

theorem copies_iff_refusal :
    CopiesOrNothing (fun i => i != 3) 24 2 refusalMemory 0 refusal [0, 2, 1, 3] ↔ Noticed (fun i => i != 3) false 0 refusal :=
  copies_iff refusal_laid (by decide)

/-- The struct's allocation fails and then the one in `ErrNew` does too: the first field is written through NULL. -/
theorem silent_failure_followed :
    errCopy (fun i => i == 1) 24 2 refusalMemory (some 0) = .error .undefined ∧
      ¬CopiesOrNothing (fun i => i == 1) 24 2 refusalMemory 0 refusal [0, 2, 1, 3] := by
  have followed : errCopy (fun i => i == 1) 24 2 refusalMemory (some 0) = .error .undefined := by decide
  refine ⟨followed, ?_⟩
  rintro (stopped | ⟨_, _, _, _, returned, _⟩)
  · cases followed.symm.trans stopped
  · cases followed.symm.trans returned

end VoxiUtil.ErrCopy
