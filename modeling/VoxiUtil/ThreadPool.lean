import Mathlib.Data.List.Basic
import Mathlib.Logic.Function.Basic

/-!
The thread pool of `threadpool.c`: the pool threads in their main loop, and the calls
of its users. A section under a mutex is one step, except that `threadPool_destroy`
keeps `threadListMutex` over many; a condition wait is its beginning, the wake-up, and
what follows once the mutex is taken again. `none` is a step that has to wait or that
is not the next one of its thread.
-/
namespace VoxiUtil.ThreadPool
universe u

inductive JoinState
  | runningUnjoined
  | runningJoined
  | finishedUnjoined
  | finishedJoined
  | complete
deriving DecidableEq

/-- What is next in `threadPoolThread_mainLoop`. Between `beforeStartWait` and its wait
    the thread has `startConditionMutex`. `absent` is a thread that was not created yet
    or is freed, `aborted` one that failed an assertion or called a null pointer. -/
inductive Place
  | lockStart
  | beforeStartWait
  | startWait
  | startWoken
  | testShuttingDown
  | callFunc
  | running (call : Nat)
  | lockJoinState
  | joinWait
  | joinWoken
  | clearFunc
  | lockList
  | testAgain
  | exited
  | absent
  | aborted
deriving DecidableEq

/-- A call of `threadPoolThread_join` on the thread that was returned to the given call
    of `threadPool_runThread`: where it is, and what it returned. -/
inductive Joiner (V : Type u)
  | idle
  | waiting (thread call : Nat)
  | woken (thread call : Nat)
  | joined (call : Nat) (result : Option V)
  | failed (call : Nat) (error : String)
  | aborted
deriving DecidableEq

/-- Where `threadPool_destroy` is. It has `threadListMutex` from `locked` to its end. -/
inductive Destroyer
  | notCalled
  | locked
  | loop
  | joiningAvailable (thread : Nat)
  | joiningInUse (thread : Nat)
  | done
deriving DecidableEq

/-- Whom a signal of `joinStateCondition` wakes. -/
inductive Wakes
  | nobody
  | poolThread
  | joiner (j : Nat)
deriving DecidableEq

/-- `sThreadPool`, with the fields of its threads by thread, and its callers. A function
    and its argument are known by the number of the call that passed them; `newThread`
    is what that call returns, once `returned` says so. `joinWaiters` are the joins in
    the wait of a thread's `joinStateCondition`. Not in the source are `serves`, the call
    that a thread is in use for, `executed`, the functions that were called, each with
    its thread, and `result`, what they returned. -/
structure SThreadPool (V : Type u) where
  isDetached : Bool
  isShuttingDown : Bool
  firstAvailableThread : Option Nat
  firstThreadInUse : Option Nat
  next : Nat → Option Nat
  prev : Nat → Option Nat
  threadFunc : Nat → Option Nat
  threadFuncResult : Nat → Option V
  state : Nat → JoinState
  joinWaiters : Nat → List Nat
  place : Nat → Place
  created : Nat
  calls : Nat
  newThread : Nat → Nat
  returned : Nat → Bool
  joiner : Nat → Joiner V
  destroyer : Destroyer
  serves : Nat → Option Nat
  executed : List (Nat × Nat)
  result : Nat → Option V

section
variable {V : Type u}

def SThreadPool.goto (p : SThreadPool V) (t : Nat) (place : Place) : SThreadPool V :=
  { p with place := Function.update p.place t place }

/-- A write to `prev` behind a pointer that may be null. -/
def SThreadPool.setPrev (p : SThreadPool V) (element value : Option Nat) : SThreadPool V :=
  match element with
  | some e => { p with prev := Function.update p.prev e value }
  | none => p

def SThreadPool.setNext (p : SThreadPool V) (element value : Option Nat) : SThreadPool V :=
  match element with
  | some e => { p with next := Function.update p.next e value }
  | none => p

def threadPoolMakeAvailable (p : SThreadPool V) (t : Nat) : SThreadPool V :=
  let tempElement := p.firstAvailableThread
  let p := p.setPrev tempElement (some t)
  { p with next := Function.update p.next t tempElement
           firstAvailableThread := some t
           prev := Function.update p.prev t none }

/-- The new thread, which starts its main loop. -/
def threadPoolThreadCreate (p : SThreadPool V) : Nat × SThreadPool V :=
  (p.created,
    { p with next := Function.update p.next p.created none
             prev := Function.update p.prev p.created none
             state := Function.update p.state p.created .runningUnjoined
             threadFunc := Function.update p.threadFunc p.created none
             threadFuncResult := Function.update p.threadFuncResult p.created none
             place := Function.update p.place p.created .lockStart
             created := p.created + 1 })

/-- A pool without threads. -/
def empty (isDetached : Bool) : SThreadPool V where
  isDetached := isDetached
  isShuttingDown := false
  firstAvailableThread := none
  firstThreadInUse := none
  next := fun _ => none
  prev := fun _ => none
  threadFunc := fun _ => none
  threadFuncResult := fun _ => none
  state := fun _ => .runningUnjoined
  joinWaiters := fun _ => []
  place := fun _ => .absent
  created := 0
  calls := 0
  newThread := fun _ => 0
  returned := fun _ => false
  joiner := fun _ => .idle
  destroyer := .notCalled
  serves := fun _ => none
  executed := []
  result := fun _ => none

def threadPoolCreate (isDetached : Bool) : Nat → SThreadPool V
  | 0 => empty isDetached
  | initialSize + 1 =>
    let (resource, pool) := threadPoolThreadCreate (threadPoolCreate isDetached initialSize)
    threadPoolMakeAvailable pool resource

/-- The first thread of the available list off the list. -/
def takeFirst (p : SThreadPool V) (theThread : Nat) : SThreadPool V :=
  { p with firstAvailableThread := p.next theThread }.setPrev (p.next theThread) none

def addInUse (p : SThreadPool V) (theThread : Nat) : SThreadPool V :=
  let tempElement := p.firstThreadInUse
  let p := p.setPrev tempElement (some theThread)
  { p with next := Function.update p.next theThread tempElement
           prev := Function.update p.prev theThread none
           firstThreadInUse := some theThread }

/-- The thread is in use for a new call. -/
def handOut (p : SThreadPool V) (theThread : Nat) : SThreadPool V :=
  { addInUse p theThread with
    calls := p.calls + 1
    newThread := Function.update p.newThread p.calls theThread
    serves := Function.update p.serves theThread (some p.calls) }

/-- The section of `threadPool_runThread` under `threadListMutex`, with the error that
    the call returns; `created` says whether a new thread can be had. -/
def threadPoolRunThread (p : SThreadPool V) (created : Bool) : Option (SThreadPool V × Option String) :=
  if p.destroyer ≠ .notCalled then none
  else if p.isShuttingDown then some (p, some "Cannot run thread, since pool is shutting down.")
  else
    match p.firstAvailableThread with
    | none =>
      if created then
        let (theThread, p) := threadPoolThreadCreate p
        some (handOut p theThread, none)
      else some (p, some "ThreadPool_create failed: Couldn't init new thread.")
    | some theThread => some (handOut (takeFirst p theThread) theThread, none)

/-- A signal of `startCondition`, for which only the thread itself can wait. -/
def signalStartCondition (p : SThreadPool V) (t : Nat) : SThreadPool V :=
  if p.place t = .startWait then p.goto t .startWoken else p

/-- The rest of `threadPool_runThread`, under `startConditionMutex`. -/
def threadPoolSetFunction (p : SThreadPool V) (call : Nat) : Option (SThreadPool V) :=
  if call < p.calls ∧ p.returned call = false ∧ p.place (p.newThread call) ≠ .beforeStartWait then
    let theThread := p.newThread call
    some { signalStartCondition { p with threadFunc := Function.update p.threadFunc theThread (some call) } theThread with
      returned := Function.update p.returned call true }
  else none

def Joiner.wake : Joiner V → Joiner V
  | .waiting thread call => .woken thread call
  | joiner => joiner

/-- A signal of `joinStateCondition`, which wakes one of those that wait for it. -/
def signalJoinStateCondition (p : SThreadPool V) (t : Nat) : Wakes → Option (SThreadPool V)
  | .nobody => if p.place t ≠ .joinWait ∧ p.joinWaiters t = [] then some p else none
  | .poolThread => if p.place t = .joinWait then some (p.goto t .joinWoken) else none
  | .joiner j =>
    if j ∈ p.joinWaiters t then
      some { p with joinWaiters := Function.update p.joinWaiters t ((p.joinWaiters t).erase j)
                    joiner := Function.update p.joiner j (p.joiner j).wake }
    else none

def SThreadPool.setState (p : SThreadPool V) (t : Nat) (state : JoinState) : SThreadPool V :=
  { p with state := Function.update p.state t state }

def SThreadPool.setJoiner (p : SThreadPool V) (j : Nat) (joiner : Joiner V) : SThreadPool V :=
  { p with joiner := Function.update p.joiner j joiner }

/-- The end of `threadPoolThread_join`, once the thread is finished. -/
def completeJoin (p : SThreadPool V) (j thread call : Nat) (wakes : Wakes) : Option (SThreadPool V) :=
  signalJoinStateCondition
    ((p.setJoiner j (.joined call (p.threadFuncResult thread))).setState thread .complete) thread wakes

/-- `threadPoolThread_join` up to its return or its wait. -/
def threadPoolThreadJoin (p : SThreadPool V) (j thread call : Nat) (wakes : Wakes) : Option (SThreadPool V) :=
  if p.isDetached then some (p.setJoiner j (.failed call "You cannot call join on detached thread pools"))
  else if p.state thread = .runningJoined ∨ p.state thread = .finishedJoined then
    some (p.setJoiner j (.failed call "Attempt to call join on already joined thread"))
  else if p.state thread = .runningUnjoined then
    some { (p.setState thread .runningJoined).setJoiner j (.waiting thread call) with
      joinWaiters := Function.update p.joinWaiters thread (j :: p.joinWaiters thread) }
  else completeJoin p j thread call wakes

/-- `threadPoolThread_join` after its wait. -/
def joinAfterWait (p : SThreadPool V) (j thread call : Nat) (wakes : Wakes) : Option (SThreadPool V) :=
  if p.state thread = .finishedJoined then completeJoin p j thread call wakes
  else some (p.setJoiner j .aborted)

/-- A pool thread takes itself off the list of threads in use. -/
def removeInUse (p : SThreadPool V) (self : Nat) : SThreadPool V :=
  let p := { p with firstThreadInUse := if p.firstThreadInUse = some self then p.next self else p.firstThreadInUse }
  let p := p.setNext (p.prev self) (p.next self)
  p.setPrev (p.next self) (p.prev self)

/-- The section of the main loop under `threadListMutex`. The assertion on the list in
    use comes first. -/
def returnToPool (p : SThreadPool V) (self : Nat) : SThreadPool V :=
  if p.isShuttingDown then p.goto self .testAgain
  else if p.firstThreadInUse = none then p.goto self .aborted
  else
    { threadPoolMakeAvailable (removeInUse p self) self with
      serves := Function.update p.serves self none }.goto self .testAgain

/-- The join state of a thread whose function has returned. -/
def finish : JoinState → JoinState
  | .runningJoined => .finishedJoined
  | .runningUnjoined => .finishedUnjoined
  | state => state

/-- The main loop's section under `joinStateMutex`, up to its wait. -/
def announceFinish (p : SThreadPool V) (self : Nat) (wakes : Wakes) : Option (SThreadPool V) :=
  (signalJoinStateCondition (p.setState self (finish (p.state self))) self wakes).map fun p =>
    if p.state self = .complete then (p.setState self .runningUnjoined).goto self .clearFunc
    else p.goto self .joinWait

/-- The assertion on the join state, and the call of the function. -/
def callThreadFunc (p : SThreadPool V) (self : Nat) : SThreadPool V :=
  if p.state self = .runningUnjoined ∨ p.state self = .runningJoined then
    match p.threadFunc self with
    | some call => { p.goto self (.running call) with executed := p.executed ++ [(call, self)] }
    | none => p.goto self .aborted
  else p.goto self .aborted

/-- One step of a pool thread; `wakes` is for the signal that it may send. -/
def threadPoolThreadMainLoop (p : SThreadPool V) (self : Nat) (wakes : Wakes) : Option (SThreadPool V) :=
  match p.place self with
  | .lockStart => some (p.goto self (if p.threadFunc self = none then .beforeStartWait else .testShuttingDown))
  | .beforeStartWait => some (p.goto self .startWait)
  | .startWoken => some (p.goto self .testShuttingDown)
  | .testShuttingDown => some (p.goto self (if p.isShuttingDown then .exited else .callFunc))
  | .callFunc => some (callThreadFunc p self)
  | .lockJoinState => announceFinish p self wakes
  | .joinWoken => some ((p.setState self .runningUnjoined).goto self .clearFunc)
  | .clearFunc => some ({ p with threadFunc := Function.update p.threadFunc self none }.goto self .lockList)
  | .lockList => if p.destroyer = .notCalled then some (returnToPool p self) else none
  | .testAgain => some (p.goto self (if p.isShuttingDown then .exited else .lockStart))
  | .startWait | .running _ | .joinWait | .exited | .absent | .aborted => none

/-- The function of a pool thread returns. -/
def functionReturns (p : SThreadPool V) (self : Nat) (value : V) : Option (SThreadPool V) :=
  match p.place self with
  | .running call =>
    some ({ p with threadFuncResult := Function.update p.threadFuncResult self (some value)
                   result := Function.update p.result call (some value) }.goto self
      (if p.isDetached then .clearFunc else .lockJoinState))
  | _ => none

/-- `threadPoolThread_destroy` once the thread has ended: its fields are cleared, and it is freed. -/
def threadPoolThreadDestroy (p : SThreadPool V) (t : Nat) : SThreadPool V :=
  { p with next := Function.update p.next t none
           prev := Function.update p.prev t none
           threadFunc := Function.update p.threadFunc t none
           threadFuncResult := Function.update p.threadFuncResult t none
           place := Function.update p.place t .absent }

/-- One step of `threadPool_destroy`. -/
def threadPoolDestroy (p : SThreadPool V) : Option (SThreadPool V) :=
  match p.destroyer with
  | .notCalled => some { p with destroyer := .locked }
  | .locked => some { p with isShuttingDown := true, destroyer := .loop }
  | .loop =>
    match p.firstAvailableThread, p.firstThreadInUse with
    | some theThread, _ => some { signalStartCondition p theThread with destroyer := .joiningAvailable theThread }
    | none, some theThread => some { p with destroyer := .joiningInUse theThread }
    | none, none => some { p with destroyer := .done }
  | .joiningAvailable theThread =>
    if p.place theThread = .exited then
      some { threadPoolThreadDestroy p theThread with firstAvailableThread := p.next theThread, destroyer := .loop }
    else none
  | .joiningInUse theThread =>
    if p.place theThread = .exited then
      some { threadPoolThreadDestroy p theThread with firstThreadInUse := p.next theThread, destroyer := .loop }
    else none
  | .done => none

/-- The steps. `join` and `joinAgain` are the two halves of a join; the last three are
    wake-ups that no signal caused. -/
inductive Act (V : Type u)
  | runThread (created : Bool)
  | setFunction (call : Nat)
  | work (t : Nat) (wakes : Wakes)
  | returns (t : Nat) (value : V)
  | join (j call : Nat) (wakes : Wakes)
  | joinAgain (j : Nat) (wakes : Wakes)
  | destroy
  | wakeStart (t : Nat)
  | wakeJoin (t : Nat)
  | wakeJoiner (j : Nat)

/-- A join is made once, on a thread that was returned. -/
def step (p : SThreadPool V) : Act V → Option (SThreadPool V)
  | .runThread created => (threadPoolRunThread p created).map Prod.fst
  | .setFunction call => threadPoolSetFunction p call
  | .work t wakes => threadPoolThreadMainLoop p t wakes
  | .returns t value => functionReturns p t value
  | .join j call wakes =>
    match p.joiner j with
    | .idle => if p.returned call then threadPoolThreadJoin p j (p.newThread call) call wakes else none
    | _ => none
  | .joinAgain j wakes =>
    match p.joiner j with
    | .woken thread call => joinAfterWait p j thread call wakes
    | _ => none
  | .destroy => threadPoolDestroy p
  | .wakeStart t => if p.place t = .startWait then some (p.goto t .startWoken) else none
  | .wakeJoin t => if p.place t = .joinWait then some (p.goto t .joinWoken) else none
  | .wakeJoiner j =>
    match p.joiner j with
    | .waiting thread _ => signalJoinStateCondition p thread (.joiner j)
    | _ => none

variable {p p' : SThreadPool V} {t : Nat}

@[simp] theorem setPrev_next (element value : Option Nat) : (p.setPrev element value).next = p.next := by
  cases element <;> rfl

@[simp] theorem setNext_prev (element value : Option Nat) : (p.setNext element value).prev = p.prev := by
  cases element <;> rfl

@[simp] theorem setPrev_self (e : Nat) (value : Option Nat) : (p.setPrev (some e) value).prev e = value := by
  simp [SThreadPool.setPrev]

@[simp] theorem setNext_self (e : Nat) (value : Option Nat) : (p.setNext (some e) value).next e = value := by
  simp [SThreadPool.setNext]

theorem setPrev_other {element value : Option Nat} (other : element ≠ some t) : (p.setPrev element value).prev t = p.prev t := by
  cases element with
  | none => rfl
  | some e => exact Function.update_of_ne (fun same => other (congrArg some same.symm)) value p.prev

theorem setNext_other {element value : Option Nat} (other : element ≠ some t) : (p.setNext element value).next t = p.next t := by
  cases element with
  | none => rfl
  | some e => exact Function.update_of_ne (fun same => other (congrArg some same.symm)) value p.next

/-- What a signal of `joinStateCondition` does: nothing when nobody waits, or it wakes
    the pool thread, or a join. -/
theorem signalJoinStateCondition_cases {wakes : Wakes} (ran : signalJoinStateCondition p t wakes = some p') :
    (p' = p ∧ p.place t ≠ .joinWait ∧ p.joinWaiters t = []) ∨
    (p' = p.goto t .joinWoken ∧ p.place t = .joinWait) ∨
    ∃ j ∈ p.joinWaiters t,
      p' = { p with joinWaiters := Function.update p.joinWaiters t ((p.joinWaiters t).erase j)
                    joiner := Function.update p.joiner j (p.joiner j).wake } := by
  cases wakes with
  | nobody =>
    obtain ⟨nobody, same⟩ := Option.ite_none_right_eq_some.mp ran
    exact .inl ⟨(Option.some.inj same).symm, nobody⟩
  | poolThread =>
    obtain ⟨waits, same⟩ := Option.ite_none_right_eq_some.mp ran
    exact .inr (.inl ⟨(Option.some.inj same).symm, waits⟩)
  | joiner j =>
    obtain ⟨member, same⟩ := Option.ite_none_right_eq_some.mp ran
    exact .inr (.inr ⟨j, member, (Option.some.inj same).symm⟩)

/-- The list surgery changes pointers of the lists only. -/
def Relinked (p p' : SThreadPool V) : Prop :=
  ∃ next prev available inUse,
    p' = { p with next := next, prev := prev, firstAvailableThread := available, firstThreadInUse := inUse }

theorem relinked_trans {p'' : SThreadPool V} (first : Relinked p p') (second : Relinked p' p'') : Relinked p p'' := by
  obtain ⟨_, _, _, _, rfl⟩ := first
  obtain ⟨next, prev, available, inUse, rfl⟩ := second
  exact ⟨next, prev, available, inUse, rfl⟩

theorem relinked_setPrev (p : SThreadPool V) (element value : Option Nat) : Relinked p (p.setPrev element value) := by
  cases element <;> exact ⟨_, _, _, _, rfl⟩

theorem relinked_setNext (p : SThreadPool V) (element value : Option Nat) : Relinked p (p.setNext element value) := by
  cases element <;> exact ⟨_, _, _, _, rfl⟩

theorem relinked_makeAvailable (p : SThreadPool V) (t : Nat) : Relinked p (threadPoolMakeAvailable p t) :=
  relinked_trans (relinked_setPrev p p.firstAvailableThread (some t)) ⟨_, _, _, _, rfl⟩

theorem relinked_takeFirst (p : SThreadPool V) (t : Nat) : Relinked p (takeFirst p t) :=
  relinked_trans ⟨_, _, _, _, rfl⟩ (relinked_setPrev _ (p.next t) none)

theorem relinked_addInUse (p : SThreadPool V) (t : Nat) : Relinked p (addInUse p t) :=
  relinked_trans (relinked_setPrev p p.firstThreadInUse (some t)) ⟨_, _, _, _, rfl⟩

theorem relinked_removeInUse (p : SThreadPool V) (t : Nat) : Relinked p (removeInUse p t) := by
  unfold removeInUse
  refine relinked_trans ?_ (relinked_setPrev _ _ _)
  exact relinked_trans ⟨_, _, _, _, rfl⟩ (relinked_setNext _ _ _)

end

end VoxiUtil.ThreadPool
