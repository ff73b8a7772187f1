import VoxiUtil.Limits
import VoxiUtil.Runs
import VoxiUtil.ThreadingCalls

/-!
The vectors of `vector.c`. Memory is what the allocator was asked for, in elements;
`none` is a failed assertion, an access outside the allocated memory, or an `int` or the
`size_t` that is asked for beyond its range. Allocation succeeds, except that `realloc`
to no bytes gives NULL.
-/
namespace VoxiUtil.Vector
open VoxiUtil.Threading (VoxiMutex mutexInit)
open VoxiUtil.ThreadingCalls (threadingMutexLockDebug threadingMutexUnlockDebug)
open VoxiUtil.Runs (assert)
open VoxiUtil.Limits (intMax sizeMax pointerSize)

/-- `sVector`. An element of `data` that was not written yet is `none`; `destroyFunc` is
    whether there is one. -/
structure SVector (τ α : Type) where
  elementSize : Nat
  capacity : Nat
  capacityIncrement : Nat
  elementCount : Nat
  refCount : Nat
  destroyFunc : Bool
  lock : VoxiMutex τ String
  data : List (Option α)

section
variable {α : Type}

/-- `malloc`, for so many elements. -/
def allocate (capacity : Nat) : List (Option α) := List.replicate capacity none

def realloc (data : List (Option α)) (capacity : Nat) : List (Option α) :=
  data.take capacity ++ allocate (capacity - data.length)

/-- `memcpy` of an element into the block. -/
def writeElement (data : List (Option α)) (index : Nat) (element : α) : Option (List (Option α)) := do
  assert (index < data.length)
  some (data.set index (some element))

/-- `memcpy` of an element out of the block. -/
def readElement (data : List (Option α)) (index : Nat) : Option α := data[index]?.join

/-- The first elements of the block, read one after another. -/
def elements (data : List (Option α)) : Nat → Option (List α)
  | 0 => some []
  | count + 1 => do
    let front ← elements data count
    let element ← readElement data count
    some (front ++ [element])

/-- `memcpy` of so many elements from the front of a block to the front of another. -/
def copy (data source : List (Option α)) (count : Nat) : Option (List (Option α)) := do
  assert (count ≤ source.length ∧ count ≤ data.length)
  some (source.take count ++ data.drop count)

end

section
variable {τ α : Type}

/-- `vector_isValid`. -/
def vectorIsValid (vector : SVector τ α) : Prop :=
  0 < vector.elementSize ∧ 0 < vector.capacityIncrement ∧ 0 < vector.refCount ∧ vector.elementCount ≤ vector.capacity

instance (vector : SVector τ α) : Decidable (vectorIsValid vector) := inferInstanceAs (Decidable (_ ∧ _))

/-- A new vector. `thread` is what the memory of the mutex has where `threading_mutex_init` sets nothing. -/
def created (thread : τ) (elementSize initialCapacity capacityIncrement : Nat) (destroyFunc : Bool) : SVector τ α where
  elementSize := elementSize
  capacity := initialCapacity
  capacityIncrement := capacityIncrement
  elementCount := 0
  refCount := 1
  destroyFunc := destroyFunc
  lock := (mutexInit thread).mutex
  data := allocate initialCapacity

def vectorCreate (thread : τ) (elementSize initialCapacity capacityIncrement : Nat) (destroyFunc : Bool) :
    Option (SVector τ α) := do
  assert (elementSize * initialCapacity ≤ sizeMax)
  some (created thread elementSize initialCapacity capacityIncrement destroyFunc)

def vectorClone (thread : τ) (a : SVector τ α) : Option (SVector τ α) := do
  assert (vectorIsValid a)
  assert (a.elementCount + a.capacityIncrement ≤ intMax)
  let b ← vectorCreate thread a.elementSize (a.elementCount + a.capacityIncrement) a.capacityIncrement a.destroyFunc
  let data ← copy b.data a.data a.elementCount
  let b := { b with data := data, elementCount := a.elementCount }
  assert (vectorIsValid b)
  some b

def vectorGetElementCount (vector : SVector τ α) : Nat := vector.elementCount

def vectorRemoveLastElement (vector : SVector τ α) : Option (SVector τ α) := do
  assert (vector.elementCount ≠ 0)
  some { vector with elementCount := vector.elementCount - 1 }

/-- The elements given to the destroy function, and the empty vector. -/
def vectorRemoveAll (vector : SVector τ α) : Option (List α × SVector τ α) := do
  let destroyed ← (if vector.destroyFunc then elements vector.data vector.elementCount else some [])
  some (destroyed, { vector with elementCount := 0 })

variable [DecidableEq τ]

def vectorLockDebug (t : τ) (vector : SVector τ α) (whence : Option String) : Option (SVector τ α × Option String) :=
  (threadingMutexLockDebug t vector.lock whence).map fun out => ({ vector with lock := out.1 }, out.2)

/-- `threading_mutex_lock` passes NULL and drops what is returned. -/
def vectorLock (t : τ) (vector : SVector τ α) : Option (SVector τ α) := (vectorLockDebug t vector none).map Prod.fst

def vectorUnlockDebug (t : τ) (vector : SVector τ α) (prevLocker : Option String) : Option (SVector τ α) :=
  (threadingMutexUnlockDebug t vector.lock prevLocker).map fun lock => { vector with lock := lock }

def vectorUnlock (t : τ) (vector : SVector τ α) : Option (SVector τ α) := vectorUnlockDebug t vector none

/-- `realloc` gives a block of so many elements: of some bytes, which a `size_t` can count. -/
def BlockFits (elementSize capacity : Nat) : Prop := elementSize ≠ 0 ∧ elementSize * capacity ≤ sizeMax

instance (elementSize capacity : Nat) : Decidable (BlockFits elementSize capacity) := inferInstanceAs (Decidable (_ ∧ _))

def increaseCapacity (t : τ) (vector : SVector τ α) : Option (SVector τ α) := do
  let (vector, _) ← vectorLockDebug t vector (some "increaseCapacity")
  assert (0 < vector.capacityIncrement)
  assert (vector.capacity + vector.capacityIncrement ≤ intMax)
  let capacity := vector.capacity + vector.capacityIncrement
  assert (BlockFits vector.elementSize capacity)
  vectorUnlock t { vector with capacity := capacity, data := realloc vector.data capacity }

/-- What `vectorAppend` and `vectorAppendPtr` do. -/
def appendElement (t : τ) (vector : SVector τ α) (whence : String) (element : α) : Option (Nat × SVector τ α) := do
  let (vector, prevLocker) ← vectorLockDebug t vector (some whence)
  let vector ← (if vector.elementCount = vector.capacity then increaseCapacity t vector else some vector)
  assert (vector.elementCount < vector.capacity)
  let index := vector.elementCount
  let data ← writeElement vector.data index element
  let vector ← vectorUnlockDebug t { vector with data := data, elementCount := index + 1 } prevLocker
  some (index, vector)

def vectorAppend (t : τ) (vector : SVector τ α) (element : α) : Option (Nat × SVector τ α) :=
  appendElement t vector "vectorAppend" element

def vectorAppendPtr (t : τ) (vector : SVector τ α) (ptr : α) : Option (Nat × SVector τ α) := do
  assert (vector.elementSize = pointerSize)
  appendElement t vector "vectorAppendPtr" ptr

def vectorGetElementAt (t : τ) (vector : SVector τ α) (index : Nat) : Option (α × SVector τ α) := do
  let (vector, prevLocker) ← vectorLockDebug t vector (some "vectorGetElementAt")
  assert (index < vector.elementCount)
  let element ← readElement vector.data index
  let vector ← vectorUnlockDebug t vector prevLocker
  some (element, vector)

def vectorSetElementAt (t : τ) (vector : SVector τ α) (index : Nat) (element : α) : Option (SVector τ α) := do
  let (vector, prevLocker) ← vectorLockDebug t vector (some "vectorSetElementAt")
  assert (index ≤ vector.elementCount)
  let vector ←
    (if index = vector.elementCount then
      (if vector.capacity ≤ index then increaseCapacity t vector else some vector).map
        fun vector => { vector with elementCount := vector.elementCount + 1 }
    else some vector)
  let data ← writeElement vector.data index element
  vectorUnlockDebug t { vector with data := data } prevLocker

end

end VoxiUtil.Vector
