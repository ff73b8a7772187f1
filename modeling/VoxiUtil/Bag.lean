import VoxiUtil.Blocks
import VoxiUtil.Limits
import VoxiUtil.Runs

/-!
The bags of `bag.c`, over the bytes of their arrays. `none` is a failed assertion,
an access outside the allocated array or to a byte of it that was not written, or
a number beyond the range of its type, `int` or `size_t`. Allocation succeeds.
-/
namespace VoxiUtil.Bag
open VoxiUtil.Blocks
open VoxiUtil.Runs (assert)
open VoxiUtil.Limits (intMax pointerSize sizeMax)

/-- The bytes of an element. -/
abbrev Value := List UInt8

/-- A pointer, by its bytes. -/
def Pointer := { bytes : Value // bytes.length = pointerSize }

/-- `sBag`. -/
structure SBag where
  noElements : Nat
  capacity : Nat
  capacityIncrement : Nat
  elementSize : Nat
  array : Block UInt8

/-- `bag_isValid`. -/
def bagIsValid (bag : SBag) : Prop := 0 < bag.elementSize

instance (bag : SBag) : Decidable (bagIsValid bag) := inferInstanceAs (Decidable (0 < bag.elementSize))

/-- What `bagCreate2` makes. -/
def created (initialCapacity capacityIncrement elementSize : Nat) : SBag :=
  ⟨0, initialCapacity, capacityIncrement, elementSize, allocate (elementSize * initialCapacity)⟩

def bagCreate2 (initialCapacity capacityIncrement elementSize : Nat) : Option SBag := do
  assert (elementSize * initialCapacity ≤ sizeMax)
  let result := created initialCapacity capacityIncrement elementSize
  assert (bagIsValid result)
  some result

def bagCreate (initialCapacity capacityIncrement : Nat) : Option SBag :=
  bagCreate2 initialCapacity capacityIncrement pointerSize

/-- The capacity of a full bag that has grown. -/
def grownCapacity (bag : SBag) : Nat :=
  if bag.capacityIncrement = 0 then if bag.capacity = 0 then 1 else bag.capacity * 2
  else bag.capacity + bag.capacityIncrement

def ensureIncCapacity (bag : SBag) : Option SBag :=
  if bag.noElements = bag.capacity then do
    let capacity := grownCapacity bag
    assert (capacity ≤ intMax)
    assert (capacity ≠ 0)
    assert (capacity * bag.elementSize ≤ sizeMax)
    some { bag with capacity := capacity, array := realloc bag.array (capacity * bag.elementSize) }
  else some bag

/-- `data` are the bytes at the pointer, so many as the elements of the bag have. It does not lead into the array. -/
def bagAdd2 (bag : SBag) (data : Value) : Option SBag := do
  assert (bagIsValid bag)
  let bag ← ensureIncCapacity bag
  let array ← save bag.array (bag.noElements * bag.elementSize) data
  let bag := { bag with array := array, noElements := bag.noElements + 1 }
  assert (bagIsValid bag)
  some bag

/-- `bagAdd2` with a pointer into the array, `offset` bytes behind its front. It dangles when the array moves. -/
def bagAdd2Own (bag : SBag) (offset : Nat) : Option SBag := do
  assert (bagIsValid bag)
  let grown ← ensureIncCapacity bag
  assert (bag.noElements ≠ bag.capacity)
  let data ← load grown.array offset grown.elementSize
  let array ← save grown.array (grown.noElements * grown.elementSize) data
  let bag := { grown with array := array, noElements := grown.noElements + 1 }
  assert (bagIsValid bag)
  some bag

def bagAdd (bag : SBag) (obj : Pointer) : Option SBag := do
  assert (bag.elementSize = pointerSize)
  assert (bagIsValid bag)
  let bag ← ensureIncCapacity bag
  let array ← save bag.array (bag.noElements * pointerSize) obj.val
  let bag := { bag with array := array, noElements := bag.noElements + 1 }
  assert (bagIsValid bag)
  some bag

/-- The loop that removes an element, from the element `i` on and for so many turns. What is
    found is overwritten with the last element. -/
def removeLoop (bag : SBag) (size : Nat) (data : Value) : Nat → Nat → Option (Bool × SBag)
  | 0, _ => some (false, bag)
  | turns + 1, i => do
    let element ← load bag.array (i * size) size
    if element = data then do
      let last ← load bag.array ((bag.noElements - 1) * size) size
      let array ← save bag.array (i * size) last
      some (true, { bag with array := array, noElements := bag.noElements - 1 })
    else removeLoop bag size data turns (i + 1)

def bagRemoveMaybe (bag : SBag) (obj : Pointer) : Option (Bool × SBag) := do
  assert (bagIsValid bag)
  assert (bag.elementSize = pointerSize)
  removeLoop bag pointerSize obj.val bag.noElements 0

def bagRemoveMaybe2 (bag : SBag) (data : Value) : Option (Bool × SBag) := do
  assert (bagIsValid bag)
  removeLoop bag bag.elementSize data bag.noElements 0

/-- The loop of `bagContains2`, which looks at every element. -/
def containsLoop (bag : SBag) (element : Value) : Nat → Nat → Bool → Option Bool
  | 0, _, contains => some contains
  | turns + 1, i, contains => do
    let here ← load bag.array (i * bag.elementSize) bag.elementSize
    containsLoop bag element turns (i + 1) (if here = element then true else contains)

def bagContains2 (bag : SBag) (element : Value) : Option Bool := do
  assert (bagIsValid bag)
  let contains ← containsLoop bag element bag.noElements 0 false
  assert (bagIsValid bag)
  some contains

/-- The loop of `bagFilter2`, for at most so many turns. The filter may remember the elements that
    it has seen; `lastPtr` is in front of the array when the bag is empty. -/
def filterLoop (filterFunc : List Value → Value → Bool) : Nat → SBag → Nat → Int → List Value → Option SBag
  | 0, bag, i, _, _ => if i < bag.noElements then none else some bag
  | turns + 1, bag, i, lastPtr, seen =>
    if i < bag.noElements then do
      let element ← load bag.array (i * bag.elementSize) bag.elementSize
      if filterFunc seen element then filterLoop filterFunc turns bag (i + 1) lastPtr (seen ++ [element])
      else do
        assert (0 ≤ lastPtr)
        let last ← load bag.array lastPtr.toNat bag.elementSize
        let array ← save bag.array (i * bag.elementSize) last
        let bag := { bag with array := array, noElements := bag.noElements - 1 }
        filterLoop filterFunc turns bag i (lastPtr - bag.elementSize) (seen ++ [element])
    else some bag

def bagFilter2 (bag : SBag) (filterFunc : List Value → Value → Bool) : Option SBag := do
  assert (bagIsValid bag)
  filterLoop filterFunc bag.noElements bag 0 (((bag.noElements : Int) - 1) * bag.elementSize) []

def bagNoElements (bag : SBag) : Option Nat := do
  assert (bagIsValid bag)
  some bag.noElements

/-! ### Iterators

An iterator is the number of the element that it comes to. -/

def bagIteratorCreate2 (bag : SBag) : Option Nat := do
  assert (bagIsValid bag)
  some 0

def bagIteratorHasNext (bag : SBag) (current : Nat) : Option Bool := do
  assert (bagIsValid bag)
  some (decide (current < bag.noElements))

/-- The element that is copied, and the iterator behind it. -/
def bagIteratorGetNext (bag : SBag) (current : Nat) : Option (Value × Nat) := do
  assert (bagIsValid bag)
  let element ← load bag.array (current * bag.elementSize) bag.elementSize
  some (element, current + 1)

end VoxiUtil.Bag
