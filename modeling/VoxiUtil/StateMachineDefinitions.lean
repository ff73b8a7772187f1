import VoxiUtil.BagCalls
import VoxiUtil.BagCrossProd
import VoxiUtil.Err

/-!
The definitions of state machines in `stateMachine.c`: each has bags of its classes and
states, a class counts the states that name it, and a definition counts its machines. The
block of a class is not freed when the class is destroyed.
-/
namespace VoxiUtil.StateMachineDefinitions
open VoxiUtil.Bag
open VoxiUtil.BagMultiset
open VoxiUtil.BagCalls (bagGetRandomElement)
open VoxiUtil.BagCrossProd (bytesOf pointerOf)
open VoxiUtil.Blocks
open VoxiUtil.CString
open VoxiUtil.Err
open VoxiUtil.Runs
open VoxiUtil.Limits (intMax pointerSize)

/-- `sStateMachineDefinition`. -/
structure SStateMachineDefinition where
  machineCount : Int
  classes : SBag
  states : SBag

/-- `sStateClass`, as far as it is looked at here. -/
structure SStateClass where
  machineDefinition : Pointer
  stateCount : Int

/-- `sStateMachineState`, as far as it is looked at here. -/
structure SStateMachineState where
  machineDefinition : Pointer
  cls : Option Pointer

/-- The blocks of `stateMachine.c`, those of machines by their definitions, and what is recorded about
    them: the classes, states and machines that were created and not destroyed. -/
structure Memory where
  definitions : Pointer → Option SStateMachineDefinition
  classes : Pointer → Option SStateClass
  states : Pointer → Option SStateMachineState
  machines : Pointer → Option Pointer
  existingClasses : List Pointer
  existingStates : List Pointer
  existingMachines : List Pointer

def startMemory : Memory := ⟨fun _ => none, fun _ => none, fun _ => none, fun _ => none, [], [], []⟩

def nullPointer : Pointer := ⟨List.replicate pointerSize 0, rfl⟩

/-- A block that is given for this pointer is no other one's. -/
def Fresh (m : Memory) (block : Pointer) : Prop :=
  block ≠ nullPointer ∧ (m.definitions block).isNone ∧ (m.classes block).isNone ∧ (m.states block).isNone ∧ (m.machines block).isNone

instance (m : Memory) (block : Pointer) : Decidable (Fresh m block) := inferInstanceAs (Decidable (_ ∧ _))

/-- `emalloc`, where `malloc` gives this block, or `NULL`. -/
def emalloc (m : Memory) (size : Nat) : Option Pointer → Option (Except Error Pointer)
  | none => some (.error (errNew .memory 0 none (lit "Out of memory when allocating " ++ decimal size ++ lit " bytes")))
  | some block => do
    assert (Fresh m block)
    some (.ok block)

/-- `++` on an `int`. -/
def increment (count : Int) : Option Int := do
  assert (count < intMax)
  some (count + 1)

/-- `--` on an `int`. -/
def decrement (count : Int) : Option Int := do
  assert (-(intMax : Int) ≤ count)
  some (count - 1)

def bagRemove (bag : SBag) (obj : Pointer) : Option SBag := (bagRemoveMaybe bag obj).map (·.2)

/-- The pointer that `bagGetRandomElement` gives, when it is not `NULL`. -/
def randomElement (bag : SBag) (rand : Nat) : Option Pointer := do
  match ← @bagGetRandomElement Unit bag rand with
  | .found _ (some bytes) => if sized : bytes.length = pointerSize then some (pointerOf bytes sized) else none
  | _ => none

def setDefinition (m : Memory) (p : Pointer) (definition : Option SStateMachineDefinition) : Memory :=
  { m with definitions := Function.update m.definitions p definition }

/-! ### Definitions and machines -/

def defCreate (m : Memory) (block : Option Pointer) : Option (Option Error × Memory) := do
  match ← emalloc m 24 block with
  | .error error =>
    let text := "Failed to allocate 24 bytes of memory for state machine definition"
    some (some (errNew .stateMachine 1 (some error) (lit text)), m)
  | .ok definition =>
    let classes ← bagCreate 32 32
    let states ← bagCreate 32 32
    some (none, setDefinition m definition (some ⟨0, classes, states⟩))

def create (m : Memory) (definition : Pointer) (block : Option Pointer) : Option (Option Error × Memory) := do
  match ← emalloc m 40 block with
  | .error error => some (some error, m)
  | .ok machine =>
    let d ← m.definitions definition
    let machineCount ← increment d.machineCount
    let m := setDefinition m definition (some { d with machineCount := machineCount })
    some (none, { m with machines := Function.update m.machines machine (some definition)
                         existingMachines := machine :: m.existingMachines })

def destroy (m : Memory) (machine : Pointer) : Option (Option Error × Memory) := do
  let definition ← m.machines machine
  let d ← m.definitions definition
  let machineCount ← decrement d.machineCount
  let m := setDefinition m definition (some { d with machineCount := machineCount })
  some (none, { m with machines := Function.update m.machines machine none
                       existingMachines := m.existingMachines.erase machine })

/-! ### Classes and states -/

def createClass (m : Memory) (definition : Pointer) (block : Option Pointer) : Option (Option Error × Memory) := do
  match ← emalloc m 48 block with
  | .error error => some (some error, m)
  | .ok cls =>
    let d ← m.definitions definition
    let classes ← bagAdd d.classes cls
    let m := setDefinition m definition (some { d with classes := classes })
    some (none, { m with classes := Function.update m.classes cls (some ⟨definition, 0⟩)
                         existingClasses := cls :: m.existingClasses })

/-- The block of the class stays. -/
def destroyClass (m : Memory) (stateClass : Pointer) : Option (Option Error × Memory) := do
  let c ← m.classes stateClass
  if c.stateCount ≠ 0 then
    let count := printInt (Int32.ofInt c.stateCount)
    some (some (errNew .stateMachine 0 none (lit "The state class still had " ++ count ++ lit " states.")), m)
  else
    let d ← m.definitions c.machineDefinition
    let classes ← bagRemove d.classes stateClass
    let m := setDefinition m c.machineDefinition (some { d with classes := classes })
    some (none, { m with existingClasses := m.existingClasses.erase stateClass })

/-- A number of states is added to the count of a class, when there is one. -/
def countState (m : Memory) (change : Int → Option Int) : Option Pointer → Option Memory
  | none => some m
  | some cls => do
    let c ← m.classes cls
    let stateCount ← change c.stateCount
    some { m with classes := Function.update m.classes cls (some { c with stateCount := stateCount }) }

def createState (m : Memory) (definition : Pointer) (stateClass : Option Pointer) (block : Option Pointer) :
    Option (Option Error × Memory) := do
  match ← emalloc m 40 block with
  | .error error => some (some error, m)
  | .ok state =>
    let d ← m.definitions definition
    let states ← bagAdd d.states state
    let m := setDefinition m definition (some { d with states := states })
    let m ← countState m increment stateClass
    some (none, { m with states := Function.update m.states state (some ⟨definition, stateClass⟩)
                         existingStates := state :: m.existingStates })

def destroyState (m : Memory) (state : Pointer) : Option (Option Error × Memory) := do
  let s ← m.states state
  let m ← countState m decrement s.cls
  let d ← m.definitions s.machineDefinition
  let states ← bagRemove d.states state
  let m := setDefinition m s.machineDefinition (some { d with states := states })
  some (none, { m with states := Function.update m.states state none
                       existingStates := m.existingStates.erase state })

/-! ### Teardown -/

/-- The two loops of `stateMachine_defDestroy`, for fewer turns than this. The numbers are those that
    `rand` gives, one call after another. -/
def destroyAll (bag : SStateMachineDefinition → SBag) (destroyOne : Memory → Pointer → Option (Option Error × Memory)) (text : Text)
    (rand : Nat → Nat) (definition : Pointer) : Nat → Nat → Memory → Option (Option Error × Nat × Memory)
  | 0, _, _ => none
  | turns + 1, calls, m => do
    let d ← m.definitions definition
    if 0 < (← bagNoElements (bag d)) then
      let element ← randomElement (bag d) (rand calls)
      match ← destroyOne m element with
      | (some error, m) => some (some (errNew .stateMachine 0 (some error) text), calls + 1, m)
      | (none, m) => destroyAll bag destroyOne text rand definition turns (calls + 1) m
    else some (none, calls, m)

def destroyStates : (Nat → Nat) → Pointer → Nat → Nat → Memory → Option (Option Error × Nat × Memory) :=
  destroyAll SStateMachineDefinition.states destroyState (lit "Could not destroy state.")

def destroyClasses : (Nat → Nat) → Pointer → Nat → Nat → Memory → Option (Option Error × Nat × Memory) :=
  destroyAll SStateMachineDefinition.classes destroyClass (lit "stateMachine_destroyClass failed.")

def hasMachines (machineCount : Int) : Error :=
  errNew .stateMachine 2 none (lit "The state machine definition has " ++ printInt (Int32.ofInt machineCount) ++
    lit " state machines refering to it.")

def defDestroy (m : Memory) (definition : Pointer) (rand : Nat → Nat) (turns : Nat) : Option (Option Error × Memory) := do
  let d ← m.definitions definition
  if d.machineCount ≠ 0 then some (some (hasMachines d.machineCount), m)
  else
    match ← destroyStates rand definition turns 0 m with
    | (some error, _, m) => some (some error, m)
    | (none, calls, m) =>
      match ← destroyClasses rand definition turns calls m with
      | (some error, _, m) => some (some error, m)
      | (none, _, m) => some (none, setDefinition m definition none)

/-! ### Runs -/

/-- A call, with what `malloc` and `rand` give in it. -/
inductive Act
  | defCreate (block : Option Pointer)
  | defDestroy (definition : Pointer) (rand : Nat → Nat) (turns : Nat)
  | create (definition : Pointer) (block : Option Pointer)
  | destroy (machine : Pointer)
  | createClass (definition : Pointer) (block : Option Pointer)
  | destroyClass (stateClass : Pointer)
  | createState (definition : Pointer) (stateClass : Option Pointer) (block : Option Pointer)
  | destroyState (state : Pointer)

/-- The caller has the pointers of what was created and not destroyed. -/
def step (m : Memory) : Act → Option Memory
  | .defCreate block => (defCreate m block).map (·.2)
  | .defDestroy definition rand turns => (defDestroy m definition rand turns).map (·.2)
  | .create definition block => (create m definition block).map (·.2)
  | .destroy machine => do
    assert (machine ∈ m.existingMachines)
    (destroy m machine).map (·.2)
  | .createClass definition block => (createClass m definition block).map (·.2)
  | .destroyClass stateClass => do
    assert (stateClass ∈ m.existingClasses)
    (destroyClass m stateClass).map (·.2)
  | .createState definition stateClass block => do
    assert (∀ cls ∈ stateClass, cls ∈ m.existingClasses)
    (createState m definition stateClass block).map (·.2)
  | .destroyState state => do
    assert (state ∈ m.existingStates)
    (destroyState m state).map (·.2)

end VoxiUtil.StateMachineDefinitions
