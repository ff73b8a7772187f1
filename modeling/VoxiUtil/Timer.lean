import Mathlib.Data.List.Basic
import Mathlib.Logic.Function.Basic
import VoxiUtil.Limits
import VoxiUtil.Runs

/-!
The timer manager of `timer.c`: a list of events in the order of their times, and a
callback that moves the clock on and takes the due ones out. An `int` has 32 bits and
a `long` 64; sums that do not fit wrap.
-/
namespace VoxiUtil.Timer
open VoxiUtil.Runs (assert)
open VoxiUtil.Limits.Signed (intMax)

/-- A value converted to `int`. -/
def toInt (value : Int) : Int := value.bmod 4294967296

/-- A value converted to `long`. -/
def toLong (value : Int) : Int := value.bmod 18446744073709551616

/-- `TIMER_STOP`. -/
def timerStop : Int := -1

inductive TimerType
  | oneShot
  | repetitive
  | random
deriving DecidableEq

/-- What is called when a timer fires, and how. -/
structure Client (V : Type) where
  timerHandler : Option V
  source : Option V
  eventType : Int
  eventData : Option V
  newThread : Bool

/-- `sTimerEvent`. -/
structure TimerEvent (V : Type) where
  atTimeMillis : Int
  client : Client V
  timerType : TimerType
  repetitiveInterval : Int
  randomMinInterval : Int
  randomMaxInterval : Int
  prevTE : Option Nat
  nextTE : Option Nat

/-- The data of `timer.c` and the heap; a freed event is `none`. `locked` is whether
    `timerCallbackFunction` runs, and `threads` are the events that it gave to threads which
    did not run yet. -/
structure Timers (V : Type) where
  firstTE : Option Nat
  callbackInterval : Int
  timerTimeMillis : Int
  events : Nat → Option (TimerEvent V)
  allocated : Nat
  locked : Bool
  threads : List Nat

/-- Behind `tem_startup`. -/
def temStartup (V : Type) (callbackInterval : Int) : Timers V :=
  ⟨none, callbackInterval, 0, fun _ => none, 0, false, []⟩

variable {V : Type}

/-! ### The list -/

/-- A field of an event is set. -/
def change (events : Nat → Option (TimerEvent V)) (event : Nat) (f : TimerEvent V → TimerEvent V) :
    Nat → Option (TimerEvent V) :=
  Function.update events event ((events event).map f)

/-- A back pointer is set, when there is an event. -/
def setPrev (events : Nat → Option (TimerEvent V)) (event prevTE : Option Nat) : Nat → Option (TimerEvent V) :=
  match event with
  | none => events
  | some event => change events event fun e => { e with prevTE := prevTE }

/-- A forward pointer is set, when there is an event. -/
def setNext (events : Nat → Option (TimerEvent V)) (event nextTE : Option Nat) : Nat → Option (TimerEvent V) :=
  match event with
  | none => events
  | some event => change events event fun e => { e with nextTE := nextTE }

/-- The loop of `insertAnEvent`: the event behind which the new one belongs, and the next one. -/
def searchEventPos (events : Nat → Option (TimerEvent V)) (absTimeMillis : Int) :
    Nat → Nat → Option Nat → Option (Nat × Option Nat)
  | 0, _, _ => none
  | turns + 1, prevSearchEventPos, searchEventPos' =>
    match searchEventPos' with
    | none => some (prevSearchEventPos, none)
    | some event => do
      let e ← events event
      if e.atTimeMillis < absTimeMillis then searchEventPos events absTimeMillis turns event e.nextTE
      else some (prevSearchEventPos, some event)

def insertAnEvent (s : Timers V) (aEvent : Nat) : Option (Timers V) := do
  let e ← s.events aEvent
  match s.firstTE with
  | none => some { s with firstTE := some aEvent
                          events := change s.events aEvent fun e => { e with nextTE := none, prevTE := none } }
  | some first => do
    let firstEvent ← s.events first
    if e.atTimeMillis ≤ firstEvent.atTimeMillis then
      let events := change s.events aEvent fun e => { e with nextTE := some first, prevTE := none }
      some { s with firstTE := some aEvent, events := setPrev events (some first) (some aEvent) }
    else do
      let (previous, next) ← searchEventPos s.events e.atTimeMillis s.allocated first firstEvent.nextTE
      let prevEvent ← s.events previous
      let events := setPrev s.events prevEvent.nextTE (some aEvent)
      let events := setNext events (some previous) (some aEvent)
      some { s with events := change events aEvent fun e => { e with nextTE := next, prevTE := some previous } }

def temCancel (s : Timers V) (event : Nat) : Option (Timers V) := do
  let e ← s.events event
  let firstTE := if e.prevTE = none then e.nextTE else s.firstTE
  let events := setNext s.events e.prevTE e.nextTE
  let events := setPrev events e.nextTE e.prevTE
  some { s with firstTE := firstTE, events := Function.update events event none }

/-! ### Adding -/

/-- A new event is allocated and inserted. -/
def addEvent (s : Timers V) (e : TimerEvent V) : Option (Timers V) :=
  insertAnEvent { s with events := Function.update s.events s.allocated (some e), allocated := s.allocated + 1 } s.allocated

def temAddOneShotAbsolute (s : Timers V) (absTimeMillis : Int) (client : Client V) : Option (Timers V) := do
  assert (client.timerHandler.isSome = true)
  addEvent s ⟨toInt absTimeMillis, client, .oneShot, 0, 0, 0, none, none⟩

def temAddOneShotRelative (s : Timers V) (relTimeMillis : Int) (client : Client V) : Option (Timers V) :=
  temAddOneShotAbsolute s (toLong (s.timerTimeMillis + relTimeMillis)) client

/-- An interval that is at least the resolution. -/
def atLeast (callbackInterval interval : Int) : Int := if interval < callbackInterval then callbackInterval else interval

def temAddRepetitive (s : Timers V) (intervalMillis : Int) (client : Client V) : Option (Timers V) :=
  if client.timerHandler = none then some s else
  let interval := atLeast s.callbackInterval intervalMillis
  addEvent s ⟨toInt (toLong (s.timerTimeMillis + interval)), client, .repetitive, interval, 0, 0, none, none⟩

/-- `calcRandomInterval`, where `random()` gives this number. -/
def calcRandomInterval (min max : Int) (random : Nat) : Option Int :=
  let range := toLong (max - min)
  if range = 0 then none else some (toLong (min + (random : Int).tmod range))

def temAddRandom (s : Timers V) (minIntervalMillis maxIntervalMillis : Int) (client : Client V) (random : Nat) :
    Option (Timers V) :=
  if client.timerHandler = none then some s else do
  let min := atLeast s.callbackInterval minIntervalMillis
  let max := atLeast s.callbackInterval maxIntervalMillis
  let interval ← calcRandomInterval min max random
  addEvent s ⟨toInt (toLong (s.timerTimeMillis + interval)), client, .random, 0, min, max, none, none⟩

/-! ### Firing -/

/-- The next time that `doOneEvent` proposes to the handler. -/
def proposed (e : TimerEvent V) (random : Nat) : Option Int :=
  match e.timerType with
  | .oneShot => some timerStop
  | .repetitive => some (toLong (e.atTimeMillis + e.repetitiveInterval))
  | .random => (calcRandomInterval e.randomMinInterval e.randomMaxInterval random).map fun interval =>
      toLong (e.atTimeMillis + interval)

/-- `doOneEvent`, where the handler answers so to the time of the event and the proposed next
    time. It also gives the time for which the event was inserted again. -/
def doOneEvent (s : Timers V) (currEvent : Nat) (timerHandler : Int → Int → Int) (random : Nat) :
    Option (Option Int × Timers V) := do
  let e ← s.events currEvent
  let nextTime ← proposed e random
  let handlerResultTime := timerHandler e.atTimeMillis nextTime
  if handlerResultTime ≠ timerStop ∧ s.timerTimeMillis < handlerResultTime then
    let events := change s.events currEvent fun e => { e with atTimeMillis := toInt handlerResultTime }
    (insertAnEvent { s with events := events } currEvent).map fun s => (some handlerResultTime, s)
  else some (none, { s with events := Function.update s.events currEvent none })

/-- The first event, when it is due. -/
def dueEvent (s : Timers V) : Option (Nat × TimerEvent V) := do
  let first ← s.firstTE
  let e ← s.events first
  if e.atTimeMillis ≤ s.timerTimeMillis then some (first, e) else none

/-- The first event is taken out of the list. -/
def removeFirst (s : Timers V) (e : TimerEvent V) : Timers V :=
  { s with firstTE := e.nextTE, events := setPrev s.events e.nextTE none }

/-! ### Runs -/

/-- The timer manager with what is recorded about its runs: the events that were added or inserted
    again and not cancelled or taken out since, the time that was given for an event, which is
    `none` when it was computed from an interval, the events of `tem_addRepetitive`, and with what
    clock events were taken out that had a time given for them. -/
structure System (V : Type) where
  timers : Timers V
  queued : List Nat
  due : Nat → Option Int
  repetitive : List Nat
  fired : List (Int × Int)

/-- Calls of the functions, the callback in its parts (the clock, one turn of the loop, the end of
    the loop), and a thread of `eventThreadFunc`. -/
inductive Act (V : Type)
  | addOneShotAbsolute (absTimeMillis : Int) (client : Client V)
  | addOneShotRelative (relTimeMillis : Int) (client : Client V)
  | addRepetitive (intervalMillis : Int) (client : Client V)
  | addRandom (minIntervalMillis maxIntervalMillis : Int) (client : Client V) (random : Nat)
  | cancel (event : Nat)
  | tick
  | next (timerHandler : Int → Int → Int) (random : Nat)
  | unlock
  | thread (event : Nat) (timerHandler : Int → Int → Int) (random : Nat)

def start (V : Type) (callbackInterval : Int) : System V := ⟨temStartup V callbackInterval, [], fun _ => none, [], []⟩

/-- The records of a new event. -/
def added (s : System V) (timers : Timers V) (due : Option Int) : System V :=
  { s with timers := timers
           queued := s.timers.allocated :: s.queued
           due := Function.update s.due s.timers.allocated due }

/-- The records of an event that was taken out for its handler. -/
def taken (s : System V) (timers : Timers V) (event : Nat) : System V :=
  { s with timers := timers
           queued := s.queued.erase event
           fired := s.fired ++ ((s.due event).map fun due => (due, timers.timerTimeMillis)).toList }

/-- The handler of an event that was taken out. -/
def handle (s : System V) (event : Nat) (timerHandler : Int → Int → Int) (random : Nat) : Option (System V) := do
  let (again, timers) ← doOneEvent s.timers event timerHandler random
  match again with
  | some due => some { s with timers := timers, queued := event :: s.queued, due := Function.update s.due event (some due) }
  | none => some { s with timers := timers }

/-- The callback has moved the clock on and taken the lock. -/
def ticked (s : Timers V) : Timers V :=
  { s with timerTimeMillis := toLong (s.timerTimeMillis + s.callbackInterval), locked := true }

/-- The callback has let the lock go. -/
def unlocked (s : Timers V) : Timers V := { s with locked := false }

/-- A thread of `eventThreadFunc` was created for an event. -/
def spawned (s : Timers V) (event : Nat) : Timers V := { s with threads := s.threads ++ [event] }

/-- The thread of an event runs. -/
def started (s : Timers V) (event : Nat) : Timers V := { s with threads := s.threads.erase event }

def step (s : System V) : Act V → Option (System V)
  | .addOneShotAbsolute absTimeMillis client => do
    assert (s.timers.locked = false)
    let timers ← temAddOneShotAbsolute s.timers absTimeMillis client
    some (added s timers (some absTimeMillis))
  | .addOneShotRelative relTimeMillis client => do
    assert (s.timers.locked = false)
    let timers ← temAddOneShotRelative s.timers relTimeMillis client
    some (added s timers (some (toLong (s.timers.timerTimeMillis + relTimeMillis))))
  | .addRepetitive intervalMillis client => do
    assert (s.timers.locked = false)
    let timers ← temAddRepetitive s.timers intervalMillis client
    some (if client.timerHandler = none then s
      else { added s timers none with repetitive := s.timers.allocated :: s.repetitive })
  | .addRandom minIntervalMillis maxIntervalMillis client random => do
    assert (s.timers.locked = false)
    let timers ← temAddRandom s.timers minIntervalMillis maxIntervalMillis client random
    some (if client.timerHandler = none then s else added s timers none)
  | .cancel event => do
    assert (s.timers.locked = false)
    let timers ← temCancel s.timers event
    some { s with timers := timers, queued := s.queued.erase event }
  | .tick => do
    assert (s.timers.locked = false)
    some { s with timers := ticked s.timers }
  | .next timerHandler random => do
    assert (s.timers.locked = true)
    let (currEvent, e) ← dueEvent s.timers
    let s := taken s (removeFirst s.timers e) currEvent
    if e.client.newThread = true then some { s with timers := spawned s.timers currEvent }
    else handle s currEvent timerHandler random
  | .unlock => do
    assert (s.timers.locked = true)
    assert ((dueEvent s.timers).isNone = true)
    some { s with timers := unlocked s.timers }
  | .thread event timerHandler random => do
    assert (event ∈ s.timers.threads)
    handle { s with timers := started s.timers event } event timerHandler random

end VoxiUtil.Timer
