import VoxiUtil.VectorList

/-!
A thread that calls the functions of `vector.c` in any order, with locks of its own
around the calls.
-/
namespace VoxiUtil.VectorRuns
open VoxiUtil.Vector
open VoxiUtil.VectorList
open VoxiUtil.Runs
open VoxiUtil.ThreadingMoves (bottom_tail)
open VoxiUtil.ThreadingCalls
open VoxiUtil.Limits (intMax sizeMax pointerSize)
variable {τ α : Type}

/-- A call. `clone` goes on with the clone or with the original; `unlock` ends the last lock
    that was not ended, with what that lock returned. -/
inductive Call (α : Type)
  | append (element : α)
  | appendPtr (ptr : α)
  | setElementAt (index : Nat) (element : α)
  | getElementAt (index : Nat)
  | removeLastElement
  | removeAll
  | clone (goOn : Bool)
  | lock
  | lockDebug (whence : String)
  | unlock

/-- What a call gives to the caller; of a clone, its elements. -/
inductive Output (α : Type)
  | index (index : Nat)
  | element (element : α)
  | destroyed (elements : List α)
  | cloned (elements : List α)
deriving DecidableEq

/-- `frames` has an entry for each lock of the caller: the argument of its unlock. -/
structure Caller (τ α : Type) where
  vector : SVector τ α
  frames : List (Option String)
  log : List (Output α)

def create (thread : τ) (elementSize initialCapacity capacityIncrement : Nat) (destroyFunc : Bool) : Option (Caller τ α) :=
  (vectorCreate thread elementSize initialCapacity capacityIncrement destroyFunc).map fun vector => ⟨vector, [], []⟩

section
variable [DecidableEq τ]

def call (t thread : τ) (c : Caller τ α) : Call α → Option (Caller τ α)
  | .append element => (vectorAppend t c.vector element).map fun out => ⟨out.2, c.frames, c.log ++ [.index out.1]⟩
  | .appendPtr ptr => (vectorAppendPtr t c.vector ptr).map fun out => ⟨out.2, c.frames, c.log ++ [.index out.1]⟩
  | .setElementAt index element => (vectorSetElementAt t c.vector index element).map fun vector => { c with vector := vector }
  | .getElementAt index => (vectorGetElementAt t c.vector index).map fun out => ⟨out.2, c.frames, c.log ++ [.element out.1]⟩
  | .removeLastElement => (vectorRemoveLastElement c.vector).map fun vector => { c with vector := vector }
  | .removeAll => (vectorRemoveAll c.vector).map fun out => ⟨out.2, c.frames, c.log ++ [.destroyed out.1]⟩
  | .clone goOn => do
    let b ← vectorClone thread c.vector
    let copied ← elements b.data b.elementCount
    let log := c.log ++ [.cloned copied]
    some (if goOn then ⟨b, [], log⟩ else { c with log := log })
  | .lock => (vectorLock t c.vector).map fun vector => { c with vector := vector, frames := none :: c.frames }
  | .lockDebug whence =>
    (vectorLockDebug t c.vector (some whence)).map fun out => { c with vector := out.1, frames := out.2 :: c.frames }
  | .unlock =>
    (vectorUnlockDebug t c.vector (c.frames.headD none)).map fun vector => { c with vector := vector, frames := c.frames.tail }

end

/-- The calls that are looked at: an index of the vector or just behind it, a pointer into a
    vector of pointers, an unlock behind a lock. -/
def Allowed (c : Caller τ α) : Call α → Prop
  | .appendPtr _ => c.vector.elementSize = pointerSize
  | .setElementAt index _ => index ≤ c.vector.elementCount
  | .getElementAt index => index < c.vector.elementCount
  | .removeLastElement => c.vector.elementCount ≠ 0
  | .unlock => c.frames ≠ []
  | _ => True

instance (c : Caller τ α) (function : Call α) : Decidable (Allowed c function) :=
  match function with
  | .appendPtr _ => inferInstanceAs (Decidable (c.vector.elementSize = pointerSize))
  | .setElementAt index _ => inferInstanceAs (Decidable (index ≤ c.vector.elementCount))
  | .getElementAt index => inferInstanceAs (Decidable (index < c.vector.elementCount))
  | .removeLastElement => inferInstanceAs (Decidable (c.vector.elementCount ≠ 0))
  | .unlock => inferInstanceAs (Decidable (c.frames ≠ []))
  | .append _ | .removeAll | .clone _ | .lock | .lockDebug _ => .isTrue trivial

/-- No `int` and no `size_t` goes beyond its range in the call, and elements have a size where a block for them is taken. -/
def InRange (c : Caller τ α) : Call α → Prop
  | .append _ | .appendPtr _ => Fits c.vector True
  | .setElementAt index _ => Fits c.vector (index = c.vector.elementCount)
  | .getElementAt _ => Fits c.vector False
  | .clone _ => CapacityFits c.vector (c.vector.elementCount + c.vector.capacityIncrement)
  | .lock | .lockDebug _ => c.vector.lock.count < intMax
  | .removeLastElement | .removeAll | .unlock => True

/-- What a call does to a list, and what it gives. -/
def listCall (destroyFunc : Bool) (list : List α × List (Output α)) : Call α → List α × List (Output α)
  | .append element | .appendPtr element => (list.1 ++ [element], list.2 ++ [.index list.1.length])
  | .setElementAt index element =>
    (if index = list.1.length then list.1 ++ [element] else list.1.set index element, list.2)
  | .getElementAt index => (list.1, list.2 ++ (list.1[index]?.map .element).toList)
  | .removeLastElement => (list.1.dropLast, list.2)
  | .removeAll => ([], list.2 ++ [.destroyed (if destroyFunc then list.1 else [])])
  | .clone _ => (list.1, list.2 ++ [.cloned list.1])
  | .lock | .lockDebug _ | .unlock => list

/-- A caller whose vector has these elements and has given this: inside its memory, and
    locked just as often as the caller has locked it. -/
structure Agrees (c : Caller τ α) (list : List α × List (Output α)) : Prop where
  contents : elements c.vector.data c.vector.elementCount = some list.1
  room : c.vector.elementCount ≤ c.vector.capacity
  allocated : c.vector.data.length = c.vector.capacity
  depth : c.vector.lock.count = c.frames.length
  log : c.log = list.2

/-- `Agrees`, with all that the calls rely on. -/
private structure Inv (t : τ) (destroyFunc : Bool) (c : Caller τ α) (list : List α × List (Output α)) : Prop where
  holding : Holding t c.vector c.frames.length list.1
  bottom : ∀ last, c.frames.getLast? = some last → last = none
  destroyFunc : c.vector.destroyFunc = destroyFunc
  log : c.log = list.2

section
variable {t thread : τ} {destroyFunc : Bool} {c c' : Caller τ α} {list : List α × List (Output α)} {function : Call α}

private theorem Inv.agrees (inv : Inv t destroyFunc c list) : Agrees c list where
  contents := by
    rw [inv.holding.count]
    exact elements_contents inv.holding.front
  room := inv.holding.count.trans_le inv.holding.room
  allocated := inv.holding.allocated
  depth := inv.holding.lock.count
  log := inv.log

/-- A call that leaves the locks of the caller as they are. -/
private theorem Inv.next (inv : Inv t destroyFunc c list) {vector : SVector τ α} {contents : List α} {log : List (Output α)}
    (holding : Holding t vector c.frames.length contents) (same : vector.destroyFunc = c.vector.destroyFunc) :
    Inv t destroyFunc ⟨vector, c.frames, log⟩ (contents, log) where
  holding := holding
  bottom := inv.bottom
  destroyFunc := same.trans inv.destroyFunc
  log := rfl

private theorem bottom_nil : ∀ last, ([] : List (Option String)).getLast? = some last → last = none := by
  intro last found
  cases found

private theorem bottom_cons {frames : List (Option String)} {last : Option String}
    (bottom : ∀ last, frames.getLast? = some last → last = none) (outermost : frames = [] → last = none) :
    ∀ first, (last :: frames).getLast? = some first → first = none := by
  intro first found
  cases frames with
  | nil =>
    cases found
    exact outermost rfl
  | cons next rest => exact bottom first (by simpa using found)

private theorem create_inv (t thread : τ) (elementSize initialCapacity : Nat) {capacityIncrement : Nat} (destroyFunc : Bool)
    (positive : 0 < capacityIncrement) :
    Inv t destroyFunc (⟨created thread elementSize initialCapacity capacityIncrement destroyFunc, [], []⟩ : Caller τ α) ([], []) where
  holding := create_holding t thread elementSize initialCapacity destroyFunc positive
  bottom := bottom_nil
  destroyFunc := rfl
  log := rfl

variable [DecidableEq τ]

/-- A call in range does what it does to a list. -/
private theorem call_inv (inv : Inv t destroyFunc c list) (allowed : Allowed c function) (inRange : InRange c function) :
    ∃ c', call t thread c function = some c' ∧ Inv t destroyFunc c' (listCall destroyFunc list function) := by
  obtain ⟨contents, log⟩ := list
  obtain rfl : c.log = log := inv.log
  obtain rfl : c.vector.destroyFunc = destroyFunc := inv.destroyFunc
  have holding := inv.holding
  cases function with
  | append element =>
    obtain ⟨vector, done, kept, same⟩ := append_holding holding inRange "vectorAppend" element
    exact ⟨_, congrArg (Option.map _) done, inv.next kept same.destroyFunc⟩
  | appendPtr ptr =>
    obtain ⟨vector, done, kept, same⟩ := append_holding holding inRange "vectorAppendPtr" ptr
    have sized : c.vector.elementSize = pointerSize := allowed
    refine ⟨⟨vector, c.frames, c.log ++ [.index contents.length]⟩, ?_, inv.next kept same.destroyFunc⟩
    simp only [call, vectorAppendPtr, assert_true sized, Option.bind_eq_bind, Option.bind_some, done, Option.map_some]
  | setElementAt index element =>
    by_cases behind : index = contents.length
    · subst behind
      have fits : Fits c.vector True := ⟨inRange.1, fun _ => inRange.2 holding.count.symm⟩
      obtain ⟨vector, done, kept, same, -⟩ := set_end_holding holding fits element
      refine ⟨_, congrArg (Option.map _) done, ?_⟩
      rw [listCall, if_pos rfl]
      exact inv.next kept same.destroyFunc
    · have inside : index < contents.length := Nat.lt_of_le_of_ne (allowed.trans_eq holding.count) behind
      obtain ⟨vector, done, kept, same⟩ := set_holding holding ⟨inRange.1, False.elim⟩ inside element
      refine ⟨_, congrArg (Option.map _) done, ?_⟩
      rw [listCall, if_neg behind]
      exact inv.next kept same.destroyFunc
  | getElementAt index =>
    have inside : index < contents.length := allowed.trans_eq holding.count
    obtain ⟨vector, done, kept, same⟩ := get_holding holding inRange inside
    refine ⟨_, congrArg (Option.map _) done, ?_⟩
    rw [listCall, List.getElem?_eq_getElem inside]
    exact inv.next kept same.destroyFunc
  | removeLastElement =>
    have some : contents ≠ [] := by
      rintro rfl
      exact allowed holding.count
    obtain ⟨done, kept⟩ := removeLast_holding holding some
    exact ⟨_, congrArg (Option.map _) done, inv.next kept rfl⟩
  | removeAll =>
    obtain ⟨done, kept⟩ := removeAll_holding holding
    exact ⟨_, congrArg (Option.map _) done, inv.next kept rfl⟩
  | clone goOn =>
    obtain ⟨b, done, copy, -, -, same⟩ := clone_holding holding thread inRange
    have copied : elements b.data b.elementCount = some contents := by
      rw [copy.count]
      exact elements_contents copy.front
    refine ⟨if goOn then ⟨b, [], c.log ++ [.cloned contents]⟩ else { c with log := c.log ++ [.cloned contents] }, ?_, ?_⟩
    · simp only [call, done, copied, Option.bind_eq_bind, Option.bind_some]
    · cases goOn with
      | true => exact ⟨copy, bottom_nil, same, rfl⟩
      | false => exact inv.next holding rfl
  | lock =>
    have small : c.frames.length < intMax := holding.lock.count.symm.trans_lt inRange
    refine ⟨_, by rw [call, vectorLock, lockDebug_holding holding small]; rfl, ?_⟩
    exact ⟨holding.locked none, bottom_cons inv.bottom fun _ => rfl, rfl, rfl⟩
  | lockDebug whence =>
    have small : c.frames.length < intMax := holding.lock.count.symm.trans_lt inRange
    refine ⟨_, by rw [call, lockDebug_holding holding small]; rfl, ?_⟩
    refine ⟨holding.locked (some whence), bottom_cons inv.bottom fun outermost => holding.lock.outside ?_, rfl, rfl⟩
    exact List.length_eq_zero_iff.mpr outermost
  | unlock =>
    obtain ⟨vector, frames, log⟩ := c
    cases frames with
    | nil => exact absurd rfl allowed
    | cons last rest =>
      have outermost : rest.length = 0 → last = none := by
        intro empty
        obtain rfl := List.length_eq_zero_iff.mp empty
        exact inv.bottom last rfl
      refine ⟨_, congrArg (Option.map _) (unlockDebug_holding holding outermost), ?_⟩
      exact ⟨holding.unlocked outermost, bottom_tail inv.bottom, rfl, rfl⟩

/-- A call that is not in range has no outcome that C defines. -/
private theorem call_stuck (inv : Inv t destroyFunc c list) (allowed : Allowed c function) (large : ¬ InRange c function) :
    call t thread c function = none := by
  have holding := inv.holding
  cases function with
  | append element => rw [call, vectorAppend, append_overflows holding large, Option.map_none]
  | appendPtr ptr =>
    have sized : c.vector.elementSize = pointerSize := allowed
    rw [call, vectorAppendPtr, assert_true sized, Option.bind_eq_bind, Option.bind_some, append_overflows holding large,
      Option.map_none]
  | setElementAt index element =>
    by_cases behind : index = c.vector.elementCount
    · have end_large : ¬ Fits c.vector True := fun fits => large ⟨fits.1, fun _ => fits.2 trivial⟩
      rw [call, behind, holding.count, set_end_overflows holding end_large, Option.map_none]
    · have inside_large : ¬ Fits c.vector False := fun fits => large ⟨fits.1, fun same => absurd same behind⟩
      rw [call, set_overflows holding inside_large, Option.map_none]
  | getElementAt index => rw [call, get_overflows holding large, Option.map_none]
  | clone goOn => rw [call, clone_overflows holding thread large, Option.bind_eq_bind, Option.bind_none]
  | lock =>
    have overflows : ¬ c.frames.length < intMax := fun small => large (holding.lock.count.trans_lt small)
    rw [call, vectorLock, lockDebug_overflows holding overflows, Option.map_none, Option.map_none]
  | lockDebug whence =>
    have overflows : ¬ c.frames.length < intMax := fun small => large (holding.lock.count.trans_lt small)
    rw [call, lockDebug_overflows holding overflows, Option.map_none]
  | removeLastElement => exact absurd trivial large
  | removeAll => exact absurd trivial large
  | unlock => exact absurd trivial large

/-- A vector is the list of its elements, inside its memory and with its lock balanced, just
    as long as no `int` and no `size_t` of it goes beyond its range and elements have a size. -/
theorem vector_list_iff (t thread : τ) (elementSize initialCapacity : Nat) {capacityIncrement : Nat} (destroyFunc : Bool)
    (positive : 0 < capacityIncrement) (calls : List (Call α))
    (allowed : ∀ new, create thread elementSize initialCapacity capacityIncrement destroyFunc = some new →
      Guarded (call t thread) Allowed new calls) :
    (∃ new c, create thread elementSize initialCapacity capacityIncrement destroyFunc = some new ∧
      run (call t thread) new calls = some c ∧ Agrees c (calls.foldl (listCall destroyFunc) ([], []))) ↔
      elementSize * initialCapacity ≤ sizeMax ∧
        ∀ new, create thread elementSize initialCapacity capacityIncrement destroyFunc = some new →
          Guarded (call t thread) InRange new calls := by
  by_cases bytes : elementSize * initialCapacity ≤ sizeMax
  · have made : create thread elementSize initialCapacity capacityIncrement destroyFunc =
        some (⟨created thread elementSize initialCapacity capacityIncrement destroyFunc, [], []⟩ : Caller τ α) := by
      simp only [create, vectorCreate, assert_true bytes, Option.bind_eq_bind, Option.bind_some, Option.map_some]
    simp only [made, Option.some.injEq, exists_and_left, exists_eq_left', forall_eq', bytes, true_and]
    refine simulates_iff_guarded (R := Inv t destroyFunc) ?_ ?_ (fun _ _ => Inv.agrees)
      (create_inv t thread elementSize initialCapacity destroyFunc positive) (allowed _ made)
    · exact fun _ _ _ inv allowed inRange => call_inv inv allowed inRange
    · exact fun _ _ _ inv allowed large => call_stuck inv allowed large
  · have fails : (create thread elementSize initialCapacity capacityIncrement destroyFunc : Option (Caller τ α)) = none := by
      simp only [create, vectorCreate, assert_false bytes, Option.bind_eq_bind, Option.bind_none, Option.map_none]
    simp [fails, bytes]

/-- A vector that grows under a lock of its caller, and its clone. -/
def sampleCalls : List (Call Nat) :=
  [.append 5, .lockDebug "caller", .append 6, .lock, .setElementAt 2 7, .setElementAt 0 8, .unlock, .getElementAt 0, .unlock,
    .clone true, .removeLastElement, .append 9, .removeAll]

theorem vector_list_iff_sample :
    (∃ new c, create () 4 0 1 true = some new ∧ run (call () ()) new sampleCalls = some c ∧
      Agrees c (sampleCalls.foldl (listCall true) ([], []))) ↔
      4 * 0 ≤ sizeMax ∧ ∀ new, create () 4 0 1 true = some new → Guarded (call () ()) InRange new sampleCalls := by
  apply vector_list_iff () () 4 0 true (by decide)
  rintro new ⟨⟩
  exact (checkedRun_some rfl).1

/-- Two elements in a vector of capacity 1 that grows by as many as an `int` can count, and one element of no bytes in a
    vector that has to grow for it. -/
theorem capacity_overflows :
    (∀ new, create () 4 1 2147483647 false = some new → Guarded (call () ()) Allowed new [Call.append 'a', .append 'b']) ∧
      (¬ ∃ new c, create () 4 1 2147483647 false = some new ∧ run (call () ()) new [Call.append 'a', .append 'b'] = some c ∧
        Agrees c ([Call.append 'a', .append 'b'].foldl (listCall false) ([], []))) ∧
      (∀ new, create () 0 0 1 false = some new → Guarded (call () ()) Allowed new [Call.append ()]) ∧
      ¬ ∃ new c, create () 0 0 1 false = some new ∧ run (call () ()) new [Call.append ()] = some c ∧
        Agrees c ([Call.append ()].foldl (listCall false) ([], [])) := by
  refine ⟨fun new _ => ⟨trivial, fun _ _ => ⟨trivial, fun _ _ => trivial⟩⟩, ?_, fun new _ => ⟨trivial, fun _ _ => trivial⟩, ?_⟩
  · rintro ⟨new, c, made, ran, -⟩
    cases made
    cases ran
  · rintro ⟨new, c, made, ran, -⟩
    cases made
    cases ran

end

end VoxiUtil.VectorRuns
