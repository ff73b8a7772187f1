import VoxiUtil.Err

/-!
The state machines of `stateMachine.c`: a definition with its states and their
classes, and the loop that enters and leaves one state after the other. What the
callbacks do with the machine is a parameter of the run: after everything that was
called before, a callback makes its calls one by one and may look at each answer.
-/
namespace VoxiUtil.StateMachine
open VoxiUtil.CString VoxiUtil.Err

/-- `sStateClass`, up to what no run reads. -/
structure SStateClass (F : Type) where
  entryFunc : Option F
  exitFunc : Option F

/-- `sStateMachineState`. -/
structure SStateMachineState (K F : Type) where
  name : Text
  cls : Option K
  entryFunc : Option F
  exitFunc : Option F

/-- The classes and the states of a `sStateMachineDefinition`, by their addresses. -/
structure SStateMachineDefinition (S K F : Type) where
  classes : K → SStateClass F
  states : S → SStateMachineState K F

/-- `sStateMachine`. -/
structure SStateMachine (S : Type) where
  currentState : Option S
  nextState : Option S
  immediateExit : Bool
  nuanceSemantics : Bool
deriving DecidableEq

/-- What a callback does with the machine, call by call, until it returns. -/
inductive Callback (S : Type) where
  | done
  | setNextState (nextState : Option S) (answered : Option Error → Callback S)
  | setImmediateExit (rest : Callback S)

/-- A call that a callback made, with its answer. -/
inductive Act (S : Type) where
  | setNextState (nextState : Option S) (answer : Option Error)
  | setImmediateExit
deriving DecidableEq

/-- The four places of the loop that call a function. -/
inductive Place where
  | classEntry | stateEntry | stateExit | classExit
deriving DecidableEq

/-- A callback that was made and what it did. -/
structure Call (S F : Type) where
  place : Place
  func : F
  acts : List (Act S)
deriving DecidableEq

/-- One turn of the loop: the state and the callbacks that were made in it. -/
structure Visit (S F : Type) where
  state : S
  calls : List (Call S F)
deriving DecidableEq

/-- What each function does when it is called for a state, after the earlier visits and
    the earlier callbacks of this one. -/
abbrev Behaviour (S F : Type) := List (Visit S F) → List (Call S F) → F → S → Callback S

section
variable {S K F : Type}

/-- `ERR_STATE_MACHINE_NEXT_STATE_ALREADY_SET`. -/
def nextStateAlreadySet (name previous : Text) : Error :=
  errNew .stateMachine 3 none (lit "stateMachine_setNextState: trying to set next state to '" ++ name ++
    lit "', was previously set to '" ++ previous ++ lit "' (Illegal with Nuance semantics)")

/-- `stateMachine_setNextState`. The message reads the names of both states: `none` where
    the new one is `NULL`. -/
def setNextState (definition : SStateMachineDefinition S K F) (machine : SStateMachine S) (nextState : Option S) :
    Option (SStateMachine S × Option Error) :=
  match machine.nuanceSemantics, machine.nextState with
  | true, some previous =>
    nextState.map (fun next =>
      (machine, some (nextStateAlreadySet (definition.states next).name (definition.states previous).name)))
  | _, _ => some ({ machine with nextState := nextState }, none)

/-- `stateMachine_setImmediateExit`. -/
def setImmediateExit (machine : SStateMachine S) : SStateMachine S := { machine with immediateExit := true }

/-- A callback until it returns; `none` where one of its calls reads the name of `NULL`. -/
def Callback.perform (definition : SStateMachineDefinition S K F) :
    Callback S → SStateMachine S → Option (SStateMachine S × List (Act S))
  | .done, machine => some (machine, [])
  | .setNextState nextState answered, machine => do
    let (machine, answer) ← StateMachine.setNextState definition machine nextState
    let (machine, acts) ← (answered answer).perform definition machine
    return (machine, .setNextState nextState answer :: acts)
  | .setImmediateExit rest, machine => do
    let (machine, acts) ← rest.perform definition (StateMachine.setImmediateExit machine)
    return (machine, .setImmediateExit :: acts)

/-- A callback of the loop, where the state or its class has one. -/
def callback (definition : SStateMachineDefinition S K F) (behaviour : Behaviour S F) (visits : List (Visit S F)) (state : S)
    (place : Place) (func : Option F) (machine : SStateMachine S) (calls : List (Call S F)) :
    Option (SStateMachine S × List (Call S F)) :=
  match func with
  | none => some (machine, calls)
  | some func => do
    let (machine, acts) ← (behaviour visits calls func state).perform definition machine
    return (machine, calls ++ [⟨place, func, acts⟩])

/-- The body of the loop of `stateMachine_run`. Where it breaks, `immediateExit` is set, so
    that the condition of the loop fails as well. -/
def visit (definition : SStateMachineDefinition S K F) (behaviour : Behaviour S F) (visits : List (Visit S F))
    (machine : SStateMachine S) : Option (SStateMachine S × Visit S F) := do
  let currentState ← machine.currentState
  let state := definition.states currentState
  let cls := state.cls.map definition.classes
  let call := callback definition behaviour visits currentState
  let (machine, calls) ← call .classEntry (cls.bind (·.entryFunc)) machine []
  if machine.immediateExit then
    return (machine, ⟨currentState, calls⟩)
  let (machine, calls) ← call .stateEntry state.entryFunc machine calls
  if machine.immediateExit then
    return (machine, ⟨currentState, calls⟩)
  let (machine, calls) ← call .stateExit state.exitFunc machine calls
  if machine.immediateExit then
    return (machine, ⟨currentState, calls⟩)
  let (machine, calls) ← call .classExit (cls.bind (·.exitFunc)) machine calls
  return ({ machine with currentState := machine.nextState, nextState := none }, ⟨currentState, calls⟩)

/-- How far a run came: through its turns, back to its caller with `NULL`, or to a crash. -/
inductive Outcome where
  | unfinished | returned | crashed
deriving DecidableEq

structure Run (S F : Type) where
  visits : List (Visit S F)
  outcome : Outcome
deriving DecidableEq

/-- The loop of `stateMachine_run`, for at most `turns` more turns. -/
def runLoop (definition : SStateMachineDefinition S K F) (behaviour : Behaviour S F) :
    Nat → List (Visit S F) → SStateMachine S → Run S F
  | 0, visits, _ => ⟨visits, .unfinished⟩
  | turns+1, visits, machine =>
    match visit definition behaviour visits machine with
    | none => ⟨visits, .crashed⟩
    | some (machine, v) =>
      if !machine.immediateExit && machine.currentState.isSome then runLoop definition behaviour turns (visits ++ [v]) machine
      else ⟨visits ++ [v], .returned⟩

/-- `stateMachine_run`, for at most `turns` turns of its loop. -/
def run (definition : SStateMachineDefinition S K F) (behaviour : Behaviour S F) (turns : Nat) (machine : SStateMachine S)
    (initialState : S) : Run S F :=
  runLoop definition behaviour turns []
    { machine with currentState := some initialState, nextState := none, immediateExit := false }

end
end VoxiUtil.StateMachine
