import VoxiUtil.VectorList

/-!
The circular buffers of `circularBuffer.c`, over a vector of pointers; NULL is
`none`. A function also gives the pointers that it passed to the destroy function.
-/
namespace VoxiUtil.CircularBuffer
open VoxiUtil.Vector
open VoxiUtil.Runs (assert)
open VoxiUtil.Limits (intMax pointerSize)

/-- `sCircularBuffer`; `destroyFunc` is whether there is one. -/
structure SCircularBuffer (τ α : Type) where
  size : Nat
  vector : SVector τ (Option α)
  headIndex : Nat
  tailIndex : Nat
  elementCount : Nat
  destroyFunc : Bool

/-- The index behind this one, around the end. -/
def nextIndex (size index : Nat) : Option Nat :=
  if index + 1 = size then some 0 else do
    assert (index < intMax)
    some (index + 1)

section
variable {τ α : Type} [DecidableEq τ]

/-- NULL at so many elements of a vector, from the first on. -/
def setNull (t : τ) (vector : SVector τ (Option α)) : Nat → Option (SVector τ (Option α))
  | 0 => some vector
  | count + 1 => do
    let vector ← setNull t vector count
    vectorSetElementAt t vector count none

def circBufCreate (t thread : τ) (size : Nat) (destroyFunc : Bool) : Option (SCircularBuffer τ α) := do
  let vector ← vectorCreate thread pointerSize size 1 false
  let vector ← setNull t vector size
  some { size := size, vector := vector, headIndex := 0, tailIndex := 1, elementCount := 0, destroyFunc := destroyFunc }

/-- What a push does to a full buffer first. -/
def discardTail (t : τ) (circBuf : SCircularBuffer τ α) : Option (List (Option α) × SCircularBuffer τ α) := do
  let (destroyed, vector) ←
    (if circBuf.destroyFunc then
      (vectorGetElementAt t circBuf.vector circBuf.tailIndex).map fun out => ([out.1], out.2)
    else some ([], circBuf.vector))
  let tailIndex ← nextIndex circBuf.size circBuf.tailIndex
  some (destroyed, { circBuf with vector := vector, tailIndex := tailIndex, elementCount := circBuf.elementCount - 1 })

def circBufPush (t : τ) (circBuf : SCircularBuffer τ α) (element : Option α) :
    Option (List (Option α) × SCircularBuffer τ α) := do
  let (destroyed, circBuf) ← (if circBuf.elementCount = circBuf.size then discardTail t circBuf else some ([], circBuf))
  let headIndex ← nextIndex circBuf.size circBuf.headIndex
  let vector ← vectorSetElementAt t circBuf.vector headIndex element
  assert (circBuf.elementCount + 1 ≤ circBuf.size)
  some (destroyed, { circBuf with headIndex := headIndex, vector := vector, elementCount := circBuf.elementCount + 1 })

/-- NULL is written over what is taken out, in a program with assertions. -/
def circBufPopTail (t : τ) (circBuf : SCircularBuffer τ α) : Option (Option α × SCircularBuffer τ α) := do
  assert (0 < circBuf.elementCount)
  let (element, vector) ← vectorGetElementAt t circBuf.vector circBuf.tailIndex
  let vector ← vectorSetElementAt t vector circBuf.tailIndex none
  let tailIndex ← nextIndex circBuf.size circBuf.tailIndex
  some (element, { circBuf with vector := vector, tailIndex := tailIndex, elementCount := circBuf.elementCount - 1 })

def circBufGetElementCount (circBuf : SCircularBuffer τ α) : Nat := circBuf.elementCount

/-- The loop of `circBuf_clear`, for at most so many turns. A call of NULL has no outcome. -/
def clearLoop (t : τ) : Nat → SCircularBuffer τ α → Option (List (Option α) × SCircularBuffer τ α)
  | 0, circBuf => if 0 < circBuf.elementCount then none else some ([], circBuf)
  | turns + 1, circBuf =>
    if 0 < circBuf.elementCount then do
      let (element, circBuf) ← circBufPopTail t circBuf
      assert circBuf.destroyFunc
      let (destroyed, circBuf) ← clearLoop t turns circBuf
      some (element :: destroyed, circBuf)
    else some ([], circBuf)

def circBufClear (t : τ) (circBuf : SCircularBuffer τ α) : Option (List (Option α) × SCircularBuffer τ α) :=
  clearLoop t circBuf.elementCount circBuf

/-- The loop of `circBuf_destroy`, with so many turns left. -/
def destroyLoop (t : τ) (size : Nat) : Nat → SVector τ (Option α) → Nat → Option (List (Option α))
  | 0, _, _ => some []
  | turns + 1, vector, vectorIndex => do
    let (element, vector) ← vectorGetElementAt t vector vectorIndex
    assert (vectorIndex < intMax)
    assert (vectorIndex + 1 ≤ size)
    let destroyed ← destroyLoop t size turns vector (if vectorIndex + 1 = size then 0 else vectorIndex + 1)
    some (element :: destroyed)

def circBufDestroy (t : τ) (circBuf : SCircularBuffer τ α) : Option (List (Option α)) := do
  let destroyed ←
    (if circBuf.destroyFunc then destroyLoop t circBuf.size circBuf.elementCount circBuf.vector circBuf.headIndex
    else some [])
  assert (0 < circBuf.vector.refCount)
  some destroyed

end

end VoxiUtil.CircularBuffer
