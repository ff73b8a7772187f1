import Mathlib.Logic.Function.Basic
import VoxiUtil.Runs

/-!
The event ring of `event.c`: any number of threads in `em_postEvent` and the thread of
`em_mainLoop`, step by step. A step that is `none` cannot be taken: it waits, or its
assertion fails.
-/
namespace VoxiUtil.Event
open VoxiUtil.Runs (assert)

/-- `EVENT_MAX_EVENTS`. -/
def eventMaxEvents : Nat := 256

/-- The arguments of `em_postEvent`. -/
structure Request (V : Type) where
  source : Option V
  eventType : Int
  eventData : Option V
  freeFunc : Option V
  blocking : Bool

/-- `sEvent`. -/
structure SEvent (V : Type) where
  source : Option V
  eventType : Int
  eventData : Option V
  freeFunc : Option V
  isBlocking : Bool
  semaphore : Nat

/-- Where a thread is in `em_postEvent`: behind its check, with the lock, with its event in the
    ring's cell, with `backEvent` moved on, behind its unlock, and behind its `sem_post`. -/
inductive PosterAt (V : Type)
  | outside
  | checked (request : Request V)
  | locked (request : Request V)
  | stored (request : Request V) (event : Nat)
  | moved (request : Request V) (event : Nat)
  | unlocked (request : Request V) (event : Nat)
  | posted (event : Nat)

/-- Where the thread of `em_mainLoop` is: before its `sem_wait`, behind it, with the event that it
    read, with the lock, with `frontEvent` moved on, and behind its unlock. -/
inductive MainAt
  | waiting
  | woken
  | got (event : Nat)
  | locked (event : Nat)
  | moved (event : Nat)
  | unlocked (event : Nat)
deriving DecidableEq

/-- Who can have the lock. -/
inductive Party (τ : Type)
  | mainLoop
  | poster (t : τ)
deriving DecidableEq

/-- The data of `event.c` with its threads. Events are known by the number of their allocation.
    `handling` are those that have a thread of `em_handleOneEvent`; `inserted` and `taken` record
    the events that were put into the ring and read from it. -/
structure System (τ : Type) (V : Type) where
  frontEvent : Nat
  backEvent : Nat
  eventQueue : Nat → Nat
  eventsInQueue : Nat
  eventQueueModificationLock : Option (Party τ)
  events : Nat → Option (SEvent V)
  allocated : Nat
  poster : τ → PosterAt V
  main : MainAt
  handling : List Nat
  inserted : List Nat
  taken : List Nat

section
variable {τ : Type} {V : Type}

/-- Behind `em_startup`; the cells of the ring have what is there. -/
def emStartup (eventQueue : Nat → Nat) : System τ V where
  frontEvent := 0
  backEvent := 0
  eventQueue := eventQueue
  eventsInQueue := 0
  eventQueueModificationLock := none
  events := fun _ => none
  allocated := 0
  poster := fun _ => .outside
  main := .waiting
  handling := []
  inserted := []
  taken := []

variable [DecidableEq τ]

def setPoster (s : System τ V) (t : τ) (place : PosterAt V) : System τ V :=
  { s with poster := Function.update s.poster t place }

/-- The space check of `em_postEvent`, which needs no lock. -/
def enter (s : System τ V) (t : τ) (request : Request V) : Option (System τ V) :=
  match s.poster t with
  | .outside => do
    assert (request.source.isSome = true)
    assert ((s.backEvent + 1) % eventMaxEvents ≠ s.frontEvent)
    some (setPoster s t (.checked request))
  | _ => none

/-- The event of a request, with its semaphore initialized. -/
def newEvent (request : Request V) : SEvent V :=
  ⟨request.source, request.eventType, request.eventData, request.freeFunc, request.blocking, 0⟩

/-- The step of a thread inside `em_postEvent`. -/
def emPostEvent (s : System τ V) (t : τ) : Option (System τ V) :=
  match s.poster t with
  | .outside => none
  | .checked request => do
    assert (s.eventQueueModificationLock = none)
    some (setPoster { s with eventQueueModificationLock := some (.poster t) } t (.locked request))
  | .locked request =>
    let aEvent := s.allocated
    some (setPoster { s with allocated := s.allocated + 1
                             events := Function.update s.events aEvent (some (newEvent request))
                             eventQueue := Function.update s.eventQueue s.backEvent aEvent } t (.stored request aEvent))
  | .stored request aEvent =>
    some (setPoster { s with backEvent := (s.backEvent + 1) % eventMaxEvents, inserted := s.inserted ++ [aEvent] } t
      (.moved request aEvent))
  | .moved request aEvent => some (setPoster { s with eventQueueModificationLock := none } t (.unlocked request aEvent))
  | .unlocked request aEvent =>
    some (setPoster { s with eventsInQueue := s.eventsInQueue + 1 } t
      (if request.blocking then .posted aEvent else .outside))
  | .posted aEvent => do
    let event ← s.events aEvent
    assert (0 < event.semaphore)
    some (setPoster { s with events := Function.update s.events aEvent none } t .outside)

/-- The step of the main loop. -/
def emMainLoop (s : System τ V) : Option (System τ V) :=
  match s.main with
  | .waiting => do
    assert (0 < s.eventsInQueue)
    some { s with eventsInQueue := s.eventsInQueue - 1, main := .woken }
  | .woken => do
    assert (s.frontEvent ≠ s.backEvent)
    let event := s.eventQueue s.frontEvent
    some { s with main := .got event, taken := s.taken ++ [event] }
  | .got event => do
    assert (s.eventQueueModificationLock = none)
    some { s with eventQueueModificationLock := some .mainLoop, main := .locked event }
  | .locked event => some { s with frontEvent := (s.frontEvent + 1) % eventMaxEvents, main := .moved event }
  | .moved event => some { s with eventQueueModificationLock := none, main := .unlocked event }
  | .unlocked event => some { s with handling := s.handling ++ [event], main := .waiting }

/-- The end of a thread of `em_handleOneEvent`: a poster that waits frees the event itself. -/
def finishedWithEvent (s : System τ V) (event : Nat) : Option (System τ V) := do
  assert (event ∈ s.handling)
  let e ← s.events event
  some { s with
    handling := s.handling.erase event
    events := Function.update s.events event (if e.isBlocking then some { e with semaphore := e.semaphore + 1 } else none) }

/-- A thread calls `em_postEvent`, or goes on in it; the main loop goes on; an event was handled. -/
inductive Act (τ : Type) (V : Type)
  | post (t : τ) (request : Request V)
  | poster (t : τ)
  | main
  | finish (event : Nat)

def step (s : System τ V) : Act τ V → Option (System τ V)
  | .post t request => enter s t request
  | .poster t => emPostEvent s t
  | .main => emMainLoop s
  | .finish event => finishedWithEvent s event

end

end VoxiUtil.Event
