import VoxiUtil.BagAppend
import VoxiUtil.BagFilters

/-!
All that can be called on a bag, until `bagDestroy2`. A bag is one with its destroy function
and its lock; a function that is called with elements may remember them.
-/
namespace VoxiUtil.BagCalls
open VoxiUtil.Bag
open VoxiUtil.BagMultiset
open VoxiUtil.BagAdds
open VoxiUtil.BagAppend
open VoxiUtil.BagFilters
open VoxiUtil.Blocks
open VoxiUtil.Runs (assert)
open VoxiUtil.Limits (pointerSize)
variable {δ : Type}

/-- `sVoxiMutex`, as far as `threading_mutex_destroy` looks at it. -/
structure Lock where
  count : Int
  /-- `threading_mutex_init` was called on it. -/
  initialised : Bool
deriving DecidableEq

/-- `threading_mutex_init`. -/
def newLock : Lock := ⟨0, true⟩

/-- A whole `sBag`. -/
structure OwnedBag (δ : Type) where
  bag : SBag
  destroyFunc : Option δ
  lock : Lock

/-- What a bag has where its constructor writes nothing. -/
structure Uninitialised (δ : Type) where
  destroyFunc : Option δ
  lock : Lock

def bagDuplicate (original : OwnedBag δ) (memory : Uninitialised δ) : Option (OwnedBag δ) := do
  assert (bagIsValid original.bag)
  let size := original.bag.noElements * original.bag.elementSize
  let copied ← load original.bag.array 0 size
  let array ← save (allocate (original.bag.elementSize * original.bag.capacity)) 0 copied
  let result : SBag := { original.bag with array := array }
  assert (bagIsValid result)
  some ⟨result, memory.destroyFunc, memory.lock⟩

/-- A bag that a call gives back: what it holds, and what its own calls depend on. -/
structure Description (δ : Type) where
  contents : List Value
  capacity : Nat
  capacityIncrement : Nat
  elementSize : Nat
  destroyFunc : Option δ

def describe (bag : SBag) (destroyFunc : Option δ) : Option (Description δ) :=
  (elements bag bag.noElements).map fun contents => ⟨contents, bag.capacity, bag.capacityIncrement, bag.elementSize, destroyFunc⟩

/-- What a call tells its caller: what it returns, with what is at the pointers in it, and the elements
    that it has shown to a function of the caller. -/
inductive Result (δ : Type)
  | nothing
  | number (number : Nat)
  | flag (flag : Bool)
  | shown (elements : List Value)
  | found (shown : List Value) (element : Option Value)
  | bag (description : Description δ)

/-! ### Calls that only read -/

/-- The loops that look at the elements from the front, until a function says to stop. -/
def visitLoop (bag : SBag) (stop : List Value → Value → Bool) : Nat → Nat → List Value → Option (List Value × Option Value)
  | 0, _, seen => some (seen, none)
  | turns + 1, i, seen => do
    let element ← load bag.array (i * bag.elementSize) bag.elementSize
    if stop seen element then some (seen ++ [element], some element)
    else visitLoop bag stop turns (i + 1) (seen ++ [element])

def visit (bag : SBag) (stop : List Value → Value → Bool) : Option (List Value × Option Value) := do
  assert (bagIsValid bag)
  visitLoop bag stop bag.noElements 0 []

/-- The functions for pointers alone. -/
def ofPointers {β : Type} (bag : SBag) (call : Option β) : Option β := do
  assert (bag.elementSize = pointerSize)
  call

def bagGetElementSize (bag : SBag) : Option (Result δ) := some (.number bag.elementSize)

def bagGetCapacityIncrement (bag : SBag) : Option (Result δ) := some (.number bag.capacityIncrement)

/-- The elements at the pointer that it returns. -/
def bagElements2 (bag : SBag) : Option (Result δ) := do
  assert (bagIsValid bag)
  (elements bag bag.noElements).map .shown

def bagElements (bag : SBag) : Option (Result δ) := ofPointers bag (bagElements2 bag)

def bagContains (bag : SBag) (element : Pointer) : Option (Result δ) :=
  ofPointers bag ((visit bag fun _ other => decide (other = element.val)).map fun out => .flag out.2.isSome)

def bagContainsCompare (bag : SBag) (compareFunction : List Value → Value → Int) : Option (Result δ) :=
  ofPointers bag ((visit bag fun seen other => decide (compareFunction seen other = 0)).map fun out => .found out.1 out.2)

def bagForEach2 (bag : SBag) : Option (Result δ) := (visit bag fun _ _ => false).map fun out => .shown out.1

def bagForEach (bag : SBag) : Option (Result δ) := ofPointers bag (bagForEach2 bag)

/-- The filter is shown all of the elements, and the other function those that it accepts. -/
def bagFilterForEach (bag : SBag) (filterFunc : List Value → Value → Bool) : Option (Result δ) :=
  ofPointers bag ((visit bag fun _ _ => false).map fun out => .shown (kept filterFunc [] out.1))

def bagUntil2 (bag : SBag) (filterFunc : List Value → Value → Bool) : Option (Result δ) :=
  (visit bag filterFunc).map fun out => .found out.1 out.2

def bagUntil (bag : SBag) (filterFunc : List Value → Value → Bool) : Option (Result δ) := ofPointers bag (bagUntil2 bag filterFunc)

/-- It gives a pointer into the bag where `bagUntil2` copies the element. -/
def bagUntil2NoCopy (bag : SBag) (filterFunc : List Value → Value → Bool) : Option (Result δ) := bagUntil2 bag filterFunc

/-- The element that `rand` chooses. -/
def bagGetRandomElement2 (bag : SBag) (rand : Nat) : Option (Result δ) := do
  assert (bag.noElements ≠ 0)
  let element ← load bag.array (rand % bag.noElements * bag.elementSize) bag.elementSize
  some (.found [] (some element))

def bagGetRandomElement (bag : SBag) (rand : Nat) : Option (Result δ) :=
  ofPointers bag (if bag.noElements = 0 then some (.found [] none) else bagGetRandomElement2 bag rand)

/-- The bytes of an element at a pointer of the caller. -/
def bytesAt (data : Nat → UInt8) (size : Nat) : Value := (List.range size).map data

/-- A bag and another one. -/
def beside (bag other : SBag) : Bags := fun address => if address = 0 then some bag else if address = 1 then some other else none

inductive Look
  | getElementSize
  | getCapacityIncrement
  | noElements
  | elements
  | elements2
  | contains (element : Pointer)
  | contains2 (element : Nat → UInt8)
  | containsCompare (compareFunction : List Value → Value → Int)
  | forEach
  | forEach2
  | filterForEach (filterFunc : List Value → Value → Bool)
  | until (filterFunc : List Value → Value → Bool)
  | until2 (filterFunc : List Value → Value → Bool)
  | until2NoCopy (filterFunc : List Value → Value → Bool)
  | getRandomElement (rand : Nat)
  | getRandomElement2 (rand : Nat)
  /-- `bagAppend` to another bag. -/
  | appendTo (result : SBag)
  | lock
  | unlock

def look (bag : SBag) : Look → Option (Result δ)
  | .getElementSize => bagGetElementSize bag
  | .getCapacityIncrement => bagGetCapacityIncrement bag
  | .noElements => (bagNoElements bag).map .number
  | .elements => bagElements bag
  | .elements2 => bagElements2 bag
  | .contains element => bagContains bag element
  | .contains2 element => (bagContains2 bag (bytesAt element bag.elementSize)).map .flag
  | .containsCompare compareFunction => bagContainsCompare bag compareFunction
  | .forEach => bagForEach bag
  | .forEach2 => bagForEach2 bag
  | .filterForEach filterFunc => bagFilterForEach bag filterFunc
  | .until filterFunc => bagUntil bag filterFunc
  | .until2 filterFunc => bagUntil2 bag filterFunc
  | .until2NoCopy filterFunc => bagUntil2NoCopy bag filterFunc
  | .getRandomElement rand => bagGetRandomElement bag rand
  | .getRandomElement2 rand => bagGetRandomElement2 bag rand
  | .appendTo result => do
    let bags ← bagAppend bag.noElements (beside result bag) 0 1
    let result ← bags 0
    (describe result none).map .bag
  | .lock => some .nothing
  | .unlock => some .nothing

/-! ### Calls that change the bag -/

inductive Change
  | add (obj : Pointer)
  | add2 (data : Nat → UInt8)
  | remove (obj : Pointer)
  | remove2 (data : Nat → UInt8)
  | removeMaybe (obj : Pointer)
  | removeMaybe2 (data : Nat → UInt8)
  | filter2 (filterFunc : List Value → Value → Bool)
  /-- `bagAppend` of another bag. -/
  | append (source : SBag)

def change (bag : SBag) : Change → Option (Result δ × SBag)
  | .add obj => (bagAdd bag obj).map fun bag => (.nothing, bag)
  | .add2 data => (bagAdd2 bag (bytesAt data bag.elementSize)).map fun bag => (.nothing, bag)
  | .remove obj => (bagRemoveMaybe bag obj).map fun out => (.nothing, out.2)
  | .remove2 data => (bagRemoveMaybe2 bag (bytesAt data bag.elementSize)).map fun out => (.nothing, out.2)
  | .removeMaybe obj => (bagRemoveMaybe bag obj).map fun out => (.flag out.1, out.2)
  | .removeMaybe2 data => (bagRemoveMaybe2 bag (bytesAt data bag.elementSize)).map fun out => (.flag out.1, out.2)
  | .filter2 filterFunc => (bagFilter2Calls bag filterFunc).map fun out => (.shown out.2, out.1)
  | .append source => do
    let bags ← bagAppend source.noElements (beside bag source) 0 1
    let bag ← bags 0
    some (.nothing, bag)

/-! ### Sequences of calls -/

/-- A bag with its iterators. One that was destroyed is `none`. -/
structure Client (δ : Type) where
  bag : OwnedBag δ
  iterators : List (Option Nat)

inductive Op (δ : Type)
  | look (call : Look)
  | change (call : Change)
  | filter (filterFunc : List Value → Value → Bool)
  | duplicate (memory : Uninitialised δ)
  /-- `bagIteratorCreate2`, or `bagIteratorCreate`. -/
  | iteratorCreate
  | iteratorHasNext (iterator : Nat)
  /-- `bagIteratorNext`, or `bagIteratorGetNext`, where `bagIteratorHasNext` says that there is more. -/
  | iterate (iterator : Nat)
  | iteratorDestroy (iterator : Nat)

def step (c : Client δ) : Op δ → Option (Result δ × Client δ)
  | .look call => (look c.bag.bag call).map fun result => (result, c)
  | .change call => (change c.bag.bag call).map fun out => (out.1, { c with bag := { c.bag with bag := out.2 } })
  | .filter filterFunc => do
    let bags ← bagFilter (Function.update (fun _ => none) 0 (some c.bag.bag)) 0 1 filterFunc
    let result ← bags 1
    (describe result c.bag.destroyFunc).map fun description => (.bag description, c)
  | .duplicate memory => do
    let result ← bagDuplicate c.bag memory
    (describe result.bag result.destroyFunc).map fun description => (.bag description, c)
  | .iteratorCreate => do
    let iterator ← bagIteratorCreate2 c.bag.bag
    some (.nothing, { c with iterators := c.iterators ++ [some iterator] })
  | .iteratorHasNext iterator => do
    let current ← c.iterators[iterator]?.join
    let more ← bagIteratorHasNext c.bag.bag current
    some (.flag more, c)
  | .iterate iterator => do
    let current ← c.iterators[iterator]?.join
    if ← bagIteratorHasNext c.bag.bag current then do
      let (element, next) ← bagIteratorGetNext c.bag.bag current
      some (.found [] (some element), { c with iterators := c.iterators.set iterator (some next) })
    else some (.found [] none, c)
  | .iteratorDestroy iterator => some (.nothing, { c with iterators := c.iterators.set iterator none })

/-- The results of a sequence of calls, and the bag behind it. -/
def calls (c : Client δ) : List (Op δ) → Option (List (Result δ) × Client δ)
  | [] => some ([], c)
  | op :: rest => do
    let (result, c) ← step c op
    let (results, c) ← calls c rest
    some (result :: results, c)

/-- `threading_mutex_destroy`. -/
def mutexDestroy (lock : Lock) : Option Unit := do
  assert (lock.count = 0)
  assert (lock.initialised = true)

/-- The calls of the destroy function in the loop of `bagDestroy2`. -/
def destroyLoop (bag : OwnedBag δ) : Option (List (δ × Value)) :=
  match bag.destroyFunc with
  | none => some []
  | some destroyFunc => do
    let (passed, _) ← visitLoop bag.bag (fun _ _ => false) bag.bag.noElements 0 []
    some (passed.map fun element => (destroyFunc, element))

/-- `threads` says whether `_POSIX_THREADS` was defined when `bag.c` was compiled. -/
def bagDestroy2 (threads : Bool) (bag : OwnedBag δ) : Option (List (δ × Value)) := do
  assert (bagIsValid bag.bag)
  let destroyed ← destroyLoop bag
  if threads then mutexDestroy bag.lock else some ()
  some destroyed

/-- What is seen of a bag in a sequence of calls that `bagDestroy2` ends. -/
def behaviour (threads : Bool) (bag : OwnedBag δ) (ops : List (Op δ)) : Option (List (Result δ) × List (δ × Value)) := do
  let (results, c) ← calls ⟨bag, []⟩ ops
  let destroyed ← bagDestroy2 threads c.bag
  some (results, destroyed)

end VoxiUtil.BagCalls
