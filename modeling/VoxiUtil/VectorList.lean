import Mathlib.Order.Nat
import VoxiUtil.Vector

/-!
A vector as the list of its elements: what each function of `vector.c` does to the
list, and just when an `int` goes beyond its range in it.
-/
namespace VoxiUtil.VectorList
open VoxiUtil.Vector
open VoxiUtil.ThreadingCalls
open VoxiUtil.Runs (assert assert_true assert_false)
open VoxiUtil.Limits (intMax sizeMax pointerSize)
variable {τ α : Type}

/-! ### Memory -/

section
variable {data : List (Option α)} {contents : List α} {index : Nat}

theorem writeElement_inside (inside : index < data.length) (element : α) :
    writeElement data index element = some (data.set index (some element)) := by
  rw [writeElement, assert_true inside]
  rfl

theorem read_contents (front : data.take contents.length = contents.map some) (inside : index < contents.length) :
    readElement data index = some contents[index] := by
  have taken : data[index]? = (data.take contents.length)[index]? := (List.getElem?_take_of_lt inside).symm
  rw [readElement, taken, front, List.getElem?_map, List.getElem?_eq_getElem inside]
  rfl

theorem elements_contents (front : data.take contents.length = contents.map some) :
    elements data contents.length = some contents := by
  have each : ∀ count ≤ contents.length, elements data count = some (contents.take count) := by
    intro count
    induction count with
    | zero => intro _; rfl
    | succ count ih =>
      intro inside
      rw [elements, ih (by omega), Option.bind_eq_bind, Option.bind_some, read_contents front inside, Option.bind_eq_bind,
        Option.bind_some, List.take_append_getElem]
  rw [each _ (Nat.le_refl _), List.take_length]

theorem copy_inside {source : List (Option α)} {count : Nat} (reads : count ≤ source.length) (writes : count ≤ data.length) :
    copy data source count = some (source.take count ++ data.drop count) := by
  rw [copy, assert_true ⟨reads, writes⟩]
  rfl

theorem take_set_end (front : data.take contents.length = contents.map some) (inside : contents.length < data.length)
    (element : α) :
    (data.set contents.length (some element)).take (contents ++ [element]).length = (contents ++ [element]).map some := by
  rw [List.length_append, List.length_singleton, List.take_add_one, List.take_set_of_le (Nat.le_refl _), front,
    List.getElem?_set_self inside, List.map_append]
  rfl

theorem take_set_inside (front : data.take contents.length = contents.map some) (element : α) :
    (data.set index (some element)).take (contents.set index element).length = (contents.set index element).map some := by
  rw [List.length_set, List.take_set, front, List.map_set]

theorem realloc_front {capacity count : Nat} (small : count ≤ data.length) (larger : data.length ≤ capacity) :
    (realloc data capacity).take count = data.take count := by
  rw [realloc, List.take_of_length_le larger, List.take_append_of_le_length small]

theorem realloc_length {capacity : Nat} (larger : data.length ≤ capacity) : (realloc data capacity).length = capacity := by
  rw [realloc, List.take_of_length_le larger, List.length_append, allocate, List.length_replicate]
  omega

end

/-! ### The list of a vector -/

/-- A vector with these elements, locked so often by the thread `t` and by no other. -/
structure Holding (t : τ) (vector : SVector τ α) (depth : Nat) (contents : List α) : Prop where
  count : vector.elementCount = contents.length
  room : contents.length ≤ vector.capacity
  allocated : vector.data.length = vector.capacity
  front : vector.data.take contents.length = contents.map some
  increment : 0 < vector.capacityIncrement
  refCount : 0 < vector.refCount
  lock : Holds t vector.lock depth

/-- What no call changes. -/
structure Same (vector vector' : SVector τ α) : Prop where
  elementSize : vector'.elementSize = vector.elementSize
  capacityIncrement : vector'.capacityIncrement = vector.capacityIncrement
  destroyFunc : vector'.destroyFunc = vector.destroyFunc
  lastLockFrom : vector'.lock.lastLockFrom = vector.lock.lastLockFrom

/-- A capacity that an `int` can count, and a block for it. -/
def CapacityFits (vector : SVector τ α) (capacity : Nat) : Prop := capacity ≤ intMax ∧ BlockFits vector.elementSize capacity

instance (vector : SVector τ α) (capacity : Nat) : Decidable (CapacityFits vector capacity) := inferInstanceAs (Decidable (_ ∧ _))

/-- A vector of pointers has a block for each capacity that an `int` can count. -/
theorem capacityFits_pointers {vector : SVector τ α} {capacity : Nat} (pointers : vector.elementSize = pointerSize)
    (small : capacity ≤ intMax) : CapacityFits vector capacity := by
  refine ⟨small, by rw [pointers]; decide, ?_⟩
  rw [pointers]
  unfold pointerSize sizeMax
  unfold intMax at small
  omega

/-- Growth stays in range, its further lock and its capacity. -/
def GrowthFits (vector : SVector τ α) : Prop :=
  vector.lock.count + 1 < intMax ∧ CapacityFits vector (vector.capacity + vector.capacityIncrement)

/-- A call that locks the vector, and adds an element behind the last one or not. -/
def Fits (vector : SVector τ α) (adds : Prop) : Prop :=
  vector.lock.count < intMax ∧ (adds → vector.elementCount = vector.capacity → GrowthFits vector)

instance (vector : SVector τ α) : Decidable (GrowthFits vector) := inferInstanceAs (Decidable (_ ∧ _))

instance (vector : SVector τ α) (adds : Prop) [Decidable adds] : Decidable (Fits vector adds) :=
  inferInstanceAs (Decidable (_ ∧ _))

section
variable {t thread : τ} {vector : SVector τ α} {depth index : Nat} {contents : List α}

theorem create_holding (t thread : τ) (elementSize initialCapacity : Nat) {capacityIncrement : Nat} (destroyFunc : Bool)
    (positive : 0 < capacityIncrement) :
    Holding t (created thread elementSize initialCapacity capacityIncrement destroyFunc) 0 ([] : List α) where
  count := rfl
  room := Nat.zero_le _
  allocated := List.length_replicate
  front := rfl
  increment := positive
  refCount := Nat.one_pos
  lock := init_holds t thread

/-- A lock changes nothing but the lock. -/
theorem Holding.locked (holding : Holding t vector depth contents) (whence : Option String) :
    Holding t { vector with lock := locked t vector.lock whence } (depth + 1) contents :=
  { holding with lock := locked_holds holding.lock whence }

theorem Holding.unlocked (holding : Holding t vector (depth + 1) contents) {prevLocker : Option String}
    (outermost : depth = 0 → prevLocker = none) :
    Holding t { vector with lock := unlocked vector.lock prevLocker } depth contents :=
  { holding with lock := unlocked_holds holding.lock outermost }

/-- An element written behind the last one. -/
theorem Holding.extended (holding : Holding t vector depth contents) (room : contents.length < vector.capacity) (element : α) :
    Holding t { vector with data := vector.data.set contents.length (some element), elementCount := contents.length + 1 }
      depth (contents ++ [element]) :=
  { holding with
    count := by
      rw [List.length_append]
      rfl
    room := by
      rw [List.length_append]
      exact room
    allocated := (List.length_set).trans holding.allocated
    front := take_set_end holding.front (room.trans_eq holding.allocated.symm) element }

/-- An element written over another. -/
theorem Holding.replaced (holding : Holding t vector depth contents) (index : Nat) (element : α) :
    Holding t { vector with data := vector.data.set index (some element) } depth (contents.set index element) :=
  { holding with
    count := holding.count.trans (List.length_set).symm
    room := (List.length_set).trans_le holding.room
    allocated := (List.length_set).trans holding.allocated
    front := take_set_inside holding.front element }

/-- Without growth only the lock can be too many. -/
theorem depth_large (holding : Holding t vector depth contents) (large : ¬ Fits vector False) : ¬ depth < intMax :=
  fun small => large ⟨holding.lock.count.trans_lt small, False.elim⟩

/-- What `Fits` says of the depth and of the contents. -/
theorem Holding.fits (holding : Holding t vector depth contents) (fits : Fits vector True) :
    depth < intMax ∧ (contents.length = vector.capacity →
      depth + 1 < intMax ∧ CapacityFits vector (vector.capacity + vector.capacityIncrement)) := by
  obtain ⟨small, growing⟩ := fits
  rw [holding.lock.count] at small
  refine ⟨small, fun full => ?_⟩
  have growth := growing trivial (holding.count.trans full)
  exact ⟨holding.lock.count ▸ growth.1, growth.2⟩

variable [DecidableEq τ]

theorem lockDebug_holding (holding : Holding t vector depth contents) (small : depth < intMax) (whence : Option String) :
    vectorLockDebug t vector whence = some ({ vector with lock := locked t vector.lock whence }, vector.lock.lastLockFrom) := by
  rw [vectorLockDebug, lock_holds holding.lock small]
  rfl

theorem lockDebug_overflows (holding : Holding t vector depth contents) (large : ¬ depth < intMax) (whence : Option String) :
    vectorLockDebug t vector whence = none := by
  rw [vectorLockDebug, lock_overflows holding.lock large]
  rfl

theorem unlockDebug_holding (holding : Holding t vector (depth + 1) contents) {prevLocker : Option String}
    (outermost : depth = 0 → prevLocker = none) :
    vectorUnlockDebug t vector prevLocker = some { vector with lock := unlocked vector.lock prevLocker } := by
  rw [vectorUnlockDebug, unlock_holds holding.lock outermost]
  rfl

/-- Growth. -/
theorem increase_holding (holding : Holding t vector depth contents) (small : depth < intMax)
    (fits : CapacityFits vector (vector.capacity + vector.capacityIncrement)) :
    ∃ vector', increaseCapacity t vector = some vector' ∧ Holding t vector' depth contents ∧
      vector'.capacity = vector.capacity + vector.capacityIncrement ∧ vector'.elementCount = vector.elementCount ∧
      vector'.elementSize = vector.elementSize ∧ vector'.capacityIncrement = vector.capacityIncrement ∧
      vector'.destroyFunc = vector.destroyFunc := by
  have larger : vector.data.length ≤ vector.capacity + vector.capacityIncrement := by
    rw [holding.allocated]
    exact Nat.le_add_right _ _
  have inside : contents.length ≤ vector.data.length := holding.room.trans_eq holding.allocated.symm
  have grown : Holding t
      { vector with lock := locked t vector.lock (some "increaseCapacity"),
                    capacity := vector.capacity + vector.capacityIncrement,
                    data := realloc vector.data (vector.capacity + vector.capacityIncrement) } (depth + 1) contents :=
    { holding.locked (some "increaseCapacity") with
      room := Nat.le_trans holding.room (Nat.le_add_right _ _)
      allocated := realloc_length larger
      front := (realloc_front inside larger).trans holding.front }
  have returned : depth = 0 → (none : Option String) = none := fun _ => rfl
  refine ⟨_, ?_, grown.unlocked returned, rfl, rfl, rfl, rfl, rfl⟩
  rw [increaseCapacity, lockDebug_holding holding small, Option.bind_eq_bind, Option.bind_some]
  simp only [assert_true holding.increment, assert_true fits.1, assert_true fits.2, Option.bind_eq_bind, Option.bind_some]
  exact unlockDebug_holding grown returned

theorem increase_overflows (holding : Holding t vector depth contents)
    (large : ¬ (depth < intMax ∧ CapacityFits vector (vector.capacity + vector.capacityIncrement))) :
    increaseCapacity t vector = none := by
  by_cases small : depth < intMax
  · rw [increaseCapacity, lockDebug_holding holding small, Option.bind_eq_bind, Option.bind_some]
    simp only [assert_true holding.increment, Option.bind_eq_bind, Option.bind_some]
    by_cases counted : vector.capacity + vector.capacityIncrement ≤ intMax
    · rw [assert_true counted, Option.bind_some, assert_false (fun block => large ⟨small, counted, block⟩), Option.bind_none]
    · rw [assert_false counted, Option.bind_none]
  · rw [increaseCapacity, lockDebug_overflows holding small]
    rfl

/-- Room for one element more. -/
theorem room_holding (holding : Holding t vector depth contents)
    (fits : contents.length = vector.capacity → depth < intMax ∧ CapacityFits vector (vector.capacity + vector.capacityIncrement)) :
    ∃ vector', (if vector.elementCount = vector.capacity then increaseCapacity t vector else some vector) = some vector' ∧
      Holding t vector' depth contents ∧ contents.length < vector'.capacity ∧
      (contents.length < vector.capacity → vector'.capacity = vector.capacity) ∧ vector'.elementSize = vector.elementSize ∧
      vector'.capacityIncrement = vector.capacityIncrement ∧ vector'.destroyFunc = vector.destroyFunc := by
  by_cases full : vector.elementCount = vector.capacity
  · rw [if_pos full]
    have filled : contents.length = vector.capacity := holding.count.symm.trans full
    obtain ⟨vector', done, kept, capacity, -, elementSize, increment, destroyFunc⟩ :=
      increase_holding holding (fits filled).1 (fits filled).2
    refine ⟨vector', done, kept, ?_, fun less => absurd filled less.ne, elementSize, increment, destroyFunc⟩
    rw [capacity, filled]
    exact Nat.lt_add_of_pos_right holding.increment
  · rw [if_neg full]
    refine ⟨vector, rfl, holding, ?_, fun _ => rfl, rfl, rfl, rfl⟩
    exact Nat.lt_of_le_of_ne holding.room fun same => full (holding.count.trans same)

/-- What `vectorAppend` and `vectorAppendPtr` do. -/
theorem append_holding (holding : Holding t vector depth contents) (fits : Fits vector True) (whence : String) (element : α) :
    ∃ vector', appendElement t vector whence element = some (contents.length, vector') ∧
      Holding t vector' depth (contents ++ [element]) ∧ Same vector vector' := by
  obtain ⟨small, room⟩ := holding.fits fits
  have inside := holding.locked (some whence)
  obtain ⟨vector', grown, kept, more, -, elementSize, increment, destroyFunc⟩ :=
    room_holding inside room
  have extended := kept.extended more element
  refine ⟨_, ?_, extended.unlocked holding.lock.outside, ⟨elementSize, increment, destroyFunc, rfl⟩⟩
  have inBlock : contents.length < vector'.data.length := more.trans_eq kept.allocated.symm
  simp only [appendElement, lockDebug_holding holding small, Option.bind_eq_bind, Option.bind_some, grown, kept.count,
    assert_true more, writeElement_inside inBlock, unlockDebug_holding extended holding.lock.outside]

/-- `vectorGetElementAt`. -/
theorem get_holding (holding : Holding t vector depth contents) (fits : Fits vector False) (inside : index < contents.length) :
    ∃ vector', vectorGetElementAt t vector index = some (contents[index], vector') ∧ Holding t vector' depth contents ∧
      Same vector vector' := by
  have small := fits.1
  rw [holding.lock.count] at small
  have locked := holding.locked (some "vectorGetElementAt")
  refine ⟨_, ?_, locked.unlocked holding.lock.outside, ⟨rfl, rfl, rfl, rfl⟩⟩
  have counted : index < vector.elementCount := inside.trans_eq holding.count.symm
  simp only [vectorGetElementAt, lockDebug_holding holding small, Option.bind_eq_bind, Option.bind_some, assert_true counted,
    read_contents holding.front inside, unlockDebug_holding locked holding.lock.outside]

/-- The assertion of `vectorGetElementAt`. -/
theorem get_outside (holding : Holding t vector depth contents) (outside : contents.length ≤ index) :
    vectorGetElementAt t vector index = none := by
  by_cases small : depth < intMax
  · have fails : ¬ index < vector.elementCount := holding.count ▸ outside.not_gt
    simp only [vectorGetElementAt, lockDebug_holding holding small, Option.bind_eq_bind, Option.bind_some]
    rw [assert_false fails, Option.bind_none]
  · simp only [vectorGetElementAt, lockDebug_overflows holding small, Option.bind_eq_bind, Option.bind_none]

/-- `vectorSetElementAt`, over an element. -/
theorem set_holding (holding : Holding t vector depth contents) (fits : Fits vector False) (inside : index < contents.length)
    (element : α) :
    ∃ vector', vectorSetElementAt t vector index element = some vector' ∧
      Holding t vector' depth (contents.set index element) ∧ Same vector vector' := by
  have small := fits.1
  rw [holding.lock.count] at small
  have replaced := (holding.locked (some "vectorSetElementAt")).replaced index element
  refine ⟨_, ?_, replaced.unlocked holding.lock.outside, ⟨rfl, rfl, rfl, rfl⟩⟩
  have counted : index < vector.elementCount := inside.trans_eq holding.count.symm
  have inBlock : index < vector.data.length := (inside.trans_le holding.room).trans_eq holding.allocated.symm
  simp only [vectorSetElementAt, lockDebug_holding holding small, Option.bind_eq_bind, Option.bind_some,
    assert_true counted.le, if_neg counted.ne, writeElement_inside inBlock, unlockDebug_holding replaced holding.lock.outside]

/-- `vectorSetElementAt`, behind the last element. -/
theorem set_end_holding (holding : Holding t vector depth contents) (fits : Fits vector True) (element : α) :
    ∃ vector', vectorSetElementAt t vector contents.length element = some vector' ∧
      Holding t vector' depth (contents ++ [element]) ∧ Same vector vector' ∧
      (contents.length < vector.capacity → vector'.capacity = vector.capacity) := by
  obtain ⟨small, room⟩ := holding.fits fits
  have inside := holding.locked (some "vectorSetElementAt")
  obtain ⟨vector', grown, kept, more, still, elementSize, increment, destroyFunc⟩ := room_holding inside room
  have extended := kept.extended more element
  refine ⟨_, ?_, extended.unlocked holding.lock.outside, ⟨elementSize, increment, destroyFunc, rfl⟩, still⟩
  have inBlock : contents.length < vector'.data.length := more.trans_eq kept.allocated.symm
  have full : vector.capacity ≤ contents.length ↔ vector.elementCount = vector.capacity := by
    rw [holding.count]
    exact ⟨fun least => holding.room.antisymm least, fun same => same.ge⟩
  simp only [vectorSetElementAt, lockDebug_holding holding small, Option.bind_eq_bind, Option.bind_some, holding.count,
    assert_true (Nat.le_refl contents.length), if_true, full] at grown ⊢
  rw [grown]
  simp only [Option.map_some, Option.bind_some, kept.count, writeElement_inside inBlock,
    unlockDebug_holding extended holding.lock.outside]

/-- What does not fit, when the lock does. -/
theorem growth_overflows (holding : Holding t vector depth contents) (small : depth < intMax) (large : ¬ Fits vector True)
    (whence : String) :
    vector.elementCount = vector.capacity ∧
      increaseCapacity t { vector with lock := locked t vector.lock (some whence) } = none := by
  by_cases full : vector.elementCount = vector.capacity
  · refine ⟨full, increase_overflows (holding.locked (some whence)) ?_⟩
    intro fits
    refine large ⟨holding.lock.count.trans_lt small, fun _ _ => ⟨?_, fits.2⟩⟩
    exact (congrArg (· + 1) holding.lock.count).trans_lt fits.1
  · exact absurd ⟨holding.lock.count.trans_lt small, fun _ same => absurd same full⟩ large

theorem append_overflows (holding : Holding t vector depth contents) (large : ¬ Fits vector True) (whence : String)
    (element : α) : appendElement t vector whence element = none := by
  by_cases small : depth < intMax
  · obtain ⟨full, stuck⟩ := growth_overflows holding small large whence
    simp only [appendElement, lockDebug_holding holding small, Option.bind_eq_bind, Option.bind_some, if_pos full, stuck,
      Option.bind_none]
  · simp only [appendElement, lockDebug_overflows holding small, Option.bind_eq_bind, Option.bind_none]

theorem set_end_overflows (holding : Holding t vector depth contents) (large : ¬ Fits vector True) (element : α) :
    vectorSetElementAt t vector contents.length element = none := by
  by_cases small : depth < intMax
  · obtain ⟨full, stuck⟩ := growth_overflows holding small large "vectorSetElementAt"
    have filled : vector.capacity ≤ contents.length := (full.symm.trans holding.count).le
    simp only [vectorSetElementAt, lockDebug_holding holding small, Option.bind_eq_bind, Option.bind_some,
      assert_true holding.count.ge, if_pos holding.count.symm, if_pos filled, stuck, Option.map_none, Option.bind_none]
  · simp only [vectorSetElementAt, lockDebug_overflows holding small, Option.bind_eq_bind, Option.bind_none]

theorem set_overflows (holding : Holding t vector depth contents) (large : ¬ Fits vector False) (index : Nat) (element : α) :
    vectorSetElementAt t vector index element = none := by
  simp only [vectorSetElementAt, lockDebug_overflows holding (depth_large holding large), Option.bind_eq_bind, Option.bind_none]

theorem get_overflows (holding : Holding t vector depth contents) (large : ¬ Fits vector False) (index : Nat) :
    vectorGetElementAt t vector index = none := by
  simp only [vectorGetElementAt, lockDebug_overflows holding (depth_large holding large), Option.bind_eq_bind, Option.bind_none]

omit [DecidableEq τ]

theorem removeLast_holding (holding : Holding t vector depth contents) (some : contents ≠ []) :
    vectorRemoveLastElement vector = .some { vector with elementCount := vector.elementCount - 1 } ∧
      Holding t { vector with elementCount := vector.elementCount - 1 } depth contents.dropLast := by
  have counted : vector.elementCount ≠ 0 := by
    rw [holding.count]
    exact fun empty => some (List.length_eq_zero_iff.mp empty)
  refine ⟨by rw [vectorRemoveLastElement, assert_true counted]; rfl, ?_⟩
  have shorter : contents.dropLast.length ≤ contents.length := by
    rw [List.length_dropLast]
    exact Nat.sub_le _ _
  refine { holding with count := ?_, room := shorter.trans holding.room, front := ?_ }
  · rw [holding.count, List.length_dropLast]
  · rw [← Nat.min_eq_left shorter, ← List.take_take, holding.front, ← List.map_take, List.length_dropLast,
      List.dropLast_eq_take]

/-- The destroy function is given the elements from the first to the last. -/
theorem removeAll_holding (holding : Holding t vector depth contents) :
    vectorRemoveAll vector = some (if vector.destroyFunc then contents else [], { vector with elementCount := 0 }) ∧
      Holding t { vector with elementCount := 0 } depth ([] : List α) := by
  refine ⟨?_, { holding with count := rfl, room := Nat.zero_le _, front := rfl }⟩
  rw [vectorRemoveAll, holding.count, elements_contents holding.front, ← apply_ite some]
  rfl

theorem valid_iff (holding : Holding t vector depth contents) : vectorIsValid vector ↔ 0 < vector.elementSize := by
  have room : vector.elementCount ≤ vector.capacity := holding.count.trans_le holding.room
  exact ⟨And.left, fun size => ⟨size, holding.increment, holding.refCount, room⟩⟩

/-- A clone is a vector of its own with the same elements. -/
theorem clone_holding (holding : Holding t vector depth contents) (thread : τ)
    (fits : CapacityFits vector (vector.elementCount + vector.capacityIncrement)) :
    ∃ b, vectorClone thread vector = some b ∧ Holding t b 0 contents ∧ b.elementSize = vector.elementSize ∧
      b.capacityIncrement = vector.capacityIncrement ∧ b.destroyFunc = vector.destroyFunc := by
  have size : 0 < vector.elementSize := Nat.pos_of_ne_zero fits.2.1
  obtain ⟨b, create⟩ : ∃ b : SVector τ α, b = created thread vector.elementSize
      (vector.elementCount + vector.capacityIncrement) vector.capacityIncrement vector.destroyFunc := ⟨_, rfl⟩
  have allocated : b.data.length = vector.elementCount + vector.capacityIncrement := by
    rw [create]
    exact List.length_replicate
  have reads : vector.elementCount ≤ vector.data.length := by
    rw [holding.count, holding.allocated]
    exact holding.room
  have writes : vector.elementCount ≤ b.data.length := allocated.symm ▸ Nat.le_add_right _ _
  have copied : Holding t
      { b with data := vector.data.take vector.elementCount ++ b.data.drop vector.elementCount,
               elementCount := vector.elementCount } 0 contents := by
    refine { count := holding.count, room := ?_, allocated := ?_, front := ?_, increment := ?_, refCount := ?_, lock := ?_ }
    · rw [← holding.count, create]
      exact Nat.le_add_right _ _
    · have capacity : b.capacity = vector.elementCount + vector.capacityIncrement := by rw [create]; rfl
      rw [List.length_append, List.length_take, List.length_drop, Nat.min_eq_left reads, allocated, capacity,
        Nat.add_sub_cancel_left]
    · rw [holding.count, holding.front, List.take_left' (List.length_map some)]
    · rw [create]
      exact holding.increment
    · rw [create]
      exact Nat.one_pos
    · rw [create]
      exact init_holds t thread
  have size' : 0 < b.elementSize := create ▸ size
  have valid := (valid_iff holding).mpr size
  have validCopy := (valid_iff copied).mpr size'
  refine ⟨_, ?_, copied, ?_⟩
  · simp only [vectorClone, vectorCreate, assert_true valid, assert_true fits.1, assert_true fits.2.2, ← create, Option.bind_eq_bind, Option.bind_some,
      copy_inside reads writes, assert_true validCopy]
  · rw [create]
    exact ⟨rfl, rfl, rfl⟩

theorem clone_overflows (holding : Holding t vector depth contents) (thread : τ)
    (large : ¬ CapacityFits vector (vector.elementCount + vector.capacityIncrement)) : vectorClone thread vector = none := by
  by_cases size : 0 < vector.elementSize
  · by_cases counted : vector.elementCount + vector.capacityIncrement ≤ intMax
    · have block : ¬ vector.elementSize * (vector.elementCount + vector.capacityIncrement) ≤ sizeMax :=
        fun bytes => large ⟨counted, size.ne', bytes⟩
      rw [vectorClone, assert_true ((valid_iff holding).mpr size), assert_true counted, vectorCreate, assert_false block]
      rfl
    · rw [vectorClone, assert_true ((valid_iff holding).mpr size), assert_false counted]
      rfl
  · rw [vectorClone, assert_false (fun valid => size ((valid_iff holding).mp valid))]
    rfl

end

end VoxiUtil.VectorList
