import VoxiUtil.Err
import VoxiUtil.Queue
import VoxiUtil.Runs

/-!
The operations of a blocking queue (`queue.c`) where any system call may fail. What the
calls of one operation return comes with it; the thread that runs the operation does not
hold the queue's mutex before. An operation gives `none` where it does not return: at a
failed assertion, and at a wait for a semaphore that has no value to give.
-/
namespace VoxiUtil.QueueCalls
open VoxiUtil.CString VoxiUtil.Err VoxiUtil.Runs VoxiUtil.Queue
universe u

/-- What the calls return: `emalloc` an address with what the entry's link holds there, or
    an Error, and the others 0 or a number that is not 0. `errno` and its text are those of
    a `sem_timedwait` that failed. -/
structure Calls where
  emalloc : Except Error (Nat × Option Nat)
  semWait : Int32
  semTimedwait : Int32
  errno : Int32
  strerror : Text
  mutexLock : Int32
  mutexUnlock : Int32
  semPost : Int32
  semDestroy : Int32
  mutexDestroy : Int32

/-- What is left of a queue: `queue_destroy` destroys its semaphore first, and frees it last. -/
inductive Life
  | whole | withoutSemaphore | freed
deriving DecidableEq

/-- A queue with what an operation did: whether its thread holds the mutex. -/
structure Held (α : Type u) where
  queue : SQueue α
  held : Bool
  life : Life

inductive Op (α : Type u)
  | push (userElement : α)
  | pop
  | waitFor
  | poll
  | destroy

def errQueueUnspecified : Int32 := 0
def errQueueTimedout : Int32 := 1
def errQueueNotEmpty : Int32 := 2

/-- `ETIMEDOUT`. -/
def eTimedout : Int32 := 110

def unspecified (reason : Option Error) (text : String) : Option Error :=
  some (errNew .queue errQueueUnspecified reason (lit text))

section
variable {α : Type u}

/-- A queue at the start of an operation. -/
def enter (queue : SQueue α) : Held α := ⟨queue, false, .whole⟩

/-- `pthread_mutex_lock` and `pthread_mutex_unlock`, which change nothing when they fail. -/
def lock (s : Held α) (err : Int32) : Held α := if err = 0 then { s with held := true } else s

def unlock (s : Held α) (err : Int32) : Held α := if err = 0 then { s with held := false } else s

/-- A wait for the semaphore that returns `err`. -/
def wait (queue : SQueue α) (err : Int32) : Option (SQueue α) :=
  if err ≠ 0 then some queue
  else if queue.semaphore = 0 then none
  else some { queue with semaphore := queue.semaphore - 1 }

/-- `queue_push`. -/
def queuePush (queue : SQueue α) (calls : Calls) (userElement : α) : Option (Held α × Option Error) :=
  match calls.emalloc with
  | .error error => some (enter queue, unspecified (some error) "queue_push: emalloc failed")
  | .ok (element, unset) =>
    let queue := allocate queue element unset userElement
    if calls.mutexLock ≠ 0 then some (enter queue, unspecified none "queue_push: pthread_mutex_lock failed")
    else
      (Queue.queuePush queue element).map fun queue =>
        let s := unlock (lock (enter queue) calls.mutexLock) calls.mutexUnlock
        if calls.mutexUnlock ≠ 0 then (s, unspecified none "queue_push: pthread_mutex_unlock failed")
        else if calls.semPost ≠ 0 then (s, unspecified none "queue_push: sem_post failed")
        else ({ s with queue := { s.queue with semaphore := s.queue.semaphore + 1 } }, none)

/-- `queue_poll`. -/
def queuePoll (queue : SQueue α) (calls : Calls) : Held α × Bool :=
  (unlock (lock (enter queue) calls.mutexLock) calls.mutexUnlock, Queue.queuePoll queue)

/-- `doPop`. -/
def doPop (queue : SQueue α) (calls : Calls) : Option (Held α × Option Nat) :=
  if calls.mutexLock ≠ 0 then some (enter queue, none)
  else
    (Queue.doPop queue).map fun (element, queue) =>
      (unlock (lock (enter queue) calls.mutexLock) calls.mutexUnlock, some element)

/-- What `queue_pop` and `queue_waitFor` do from `doPop` on, with what they return. -/
def takeOldest (queue : SQueue α) (calls : Calls) (text : String) : Option (Held α × Option Error × Option α) :=
  (doPop queue calls).bind fun (s, element) =>
    match element with
    | none => some (s, unspecified none text, none)
    | some element =>
      if element ∈ s.queue.entries then
        some ({ s with queue := free s.queue element }, none, some (s.queue.userData element))
      else none

/-- `queue_pop`, which goes on when the wait for the semaphore fails. -/
def queuePop (queue : SQueue α) (calls : Calls) : Option (Held α × Option Error × Option α) :=
  (wait queue calls.semWait).bind fun queue => takeOldest queue calls "queue_pop: doPop failed"

/-- `queue_waitFor`. -/
def queueWaitFor (queue : SQueue α) (calls : Calls) : Option (Held α × Option Error × Option α) :=
  (wait queue calls.semTimedwait).bind fun queue =>
    if calls.semTimedwait ≠ 0 then
      if calls.errno = eTimedout then
        some (enter queue, some (errNew .queue errQueueTimedout none (lit "Wait timed out")), none)
      else
        some (enter queue, unspecified (some (errErrno calls.errno calls.strerror)) "sem_timedwait failed", none)
    else takeOldest queue calls "queue_waitFor: doPop failed"

/-- `queue_destroy`. -/
def queueDestroy (queue : SQueue α) (calls : Calls) : Option (Held α × Option Error) :=
  if calls.mutexLock ≠ 0 then some (enter queue, unspecified none "queue_destroy: pthread_mutex_lock failed")
  else
    let s := lock (enter queue) calls.mutexLock
    if validate queue = false then none
    else if queue.newest ≠ none then
      some (s, some (errNew .queue errQueueNotEmpty none
        (lit "The queue was not empty, which it must be in order to be destroyed")))
    else if queue.oldest ≠ none then none
    else if calls.semDestroy ≠ 0 then
      some (unlock s calls.mutexUnlock, unspecified none "queue_destroy: sem_destroy failed")
    else
      let s := unlock { s with life := .withoutSemaphore } calls.mutexUnlock
      if calls.mutexUnlock ≠ 0 then some (s, unspecified none "queue_destroy: pthread_mutex_unlock failed")
      else if calls.mutexDestroy ≠ 0 then some (s, unspecified none "queue_destroy: pthread_mutex_destroy failed")
      else some ({ s with life := .freed }, none)

/-- An operation, with the Error that it returns. -/
def operate (queue : SQueue α) (calls : Calls) : Op α → Option (Held α × Option Error)
  | .push userElement => queuePush queue calls userElement
  | .pop => (queuePop queue calls).map fun (s, error, _) => (s, error)
  | .waitFor => (queueWaitFor queue calls).map fun (s, error, _) => (s, error)
  | .poll => some ((queuePoll queue calls).1, none)
  | .destroy => queueDestroy queue calls

/-- A whole operation on a queue that can be used after it. -/
def step (queue : SQueue α) (label : Op α × Calls) : Option (SQueue α) :=
  (operate queue label.2 label.1).bind fun (s, _) => if s.held = false ∧ s.life = .whole then some s.queue else none

/-- `emalloc` returns memory that is not in use. -/
def Fresh (queue : SQueue α) (label : Op α × Calls) : Prop :=
  ∀ element unset, label.2.emalloc = .ok (element, unset) → element ∉ queue.entries

/-- An Error that no failing call is the reason of: a time-out, or a queue that is not empty. -/
def Refusal (error : Error) : Prop :=
  ∃ text, error = errNew .queue errQueueTimedout none text ∨ error = errNew .queue errQueueNotEmpty none text

/-- When an operation returns, its thread does not hold the mutex, unless the queue was
    destroyed; and one that is refused leaves the queue as it was, ready for use. -/
def Contract (queue : SQueue α) (calls : Calls) (op : Op α) : Prop :=
  ∀ s error, operate queue calls op = some (s, error) →
    (s.life ≠ .freed → s.held = false) ∧
    (∀ e, error = some e → Refusal e → s.queue = queue ∧ s.held = false ∧ s.life = .whole)

/-- Once an operation has the mutex, its `pthread_mutex_unlock` succeeds, and a
    `queue_destroy` finds the queue empty. -/
def Unlocks (queue : SQueue α) (calls : Calls) : Op α → Prop
  | .push _ => calls.emalloc.isOk = true → calls.mutexLock = 0 → calls.mutexUnlock = 0
  | .pop => (calls.semWait = 0 → queue.semaphore ≠ 0) → calls.mutexLock = 0 → queue.newest ≠ none → calls.mutexUnlock = 0
  | .waitFor =>
    calls.semTimedwait = 0 → queue.semaphore ≠ 0 → calls.mutexLock = 0 → queue.newest ≠ none → calls.mutexUnlock = 0
  | .poll => calls.mutexLock = 0 → calls.mutexUnlock = 0
  | .destroy => calls.mutexLock = 0 → queue.newest = none ∧ calls.mutexUnlock = 0

variable {queue : SQueue α} {nodes : List Nat} {calls : Calls} {s : Held α} {error : Option Error} {value : Option α}

@[simp] theorem enter_held (queue : SQueue α) : (enter queue).held = false := rfl

theorem unlock_held (taken : calls.mutexLock = 0) :
    (unlock (lock (enter queue) calls.mutexLock) calls.mutexUnlock).held = false ↔ calls.mutexUnlock = 0 := by
  rw [lock, if_pos taken, unlock]
  by_cases unlocked : calls.mutexUnlock = 0
  · simp [unlocked]
  · simp [unlocked]

theorem unlock_ending (s : Held α) (life : Life) (err : Int32) : (unlock { s with life := life } err).held = (unlock s err).held := by
  unfold unlock
  split <;> rfl

@[simp] theorem lock_queue (s : Held α) (err : Int32) : (lock s err).queue = s.queue := by
  unfold lock
  split <;> rfl

@[simp] theorem unlock_queue (s : Held α) (err : Int32) : (unlock s err).queue = s.queue := by
  unfold unlock
  split <;> rfl

@[simp] theorem lock_life (s : Held α) (err : Int32) : (lock s err).life = s.life := by
  unfold lock
  split <;> rfl

@[simp] theorem unlock_life (s : Held α) (err : Int32) : (unlock s err).life = s.life := by
  unfold unlock
  split <;> rfl

/-- What a failing call is the reason of is no refusal. -/
theorem unspecified_not_refusal {reason : Option Error} {text : String} {e : Error}
    (returned : unspecified reason text = some e) : ¬ Refusal e := by
  rintro ⟨other, same⟩
  cases Option.some.inj returned
  cases reason with
  | none =>
    rcases same with same | same
    · have numbers : errQueueUnspecified = errQueueTimedout := congrArg Head.number (Error.root.inj same)
      exact absurd numbers (by decide)
    · have numbers : errQueueUnspecified = errQueueNotEmpty := congrArg Head.number (Error.root.inj same)
      exact absurd numbers (by decide)
  | some reason => rcases same with same | same <;> cases same

/-- What every operation does, whatever fails in it: the list is one afterwards, a queue
    that was freed is not locked, and a refusal changes neither the queue nor its calls. -/
structure Sound (queue : SQueue α) (s : Held α) (error : Option Error) : Prop where
  listing : ∃ nodes, Listing s.queue nodes
  freed : s.life = .freed → s.held = false
  refusal : ∀ e, error = some e → Refusal e → s.queue = queue ∧ s.life = .whole

/-- An outcome that is no refusal, and does not end the queue. -/
theorem sound_going (nodes : List Nat) (listing : Listing s.queue nodes) (alive : s.life ≠ .freed)
    (other : error = none ∨ ∃ reason text, error = unspecified reason text) : Sound queue s error where
  listing := ⟨nodes, listing⟩
  freed := fun ended => absurd ended alive
  refusal := by
    intro e returned refused
    rcases other with success | ⟨reason, text, failure⟩
    · rw [success] at returned
      cases returned
    · rw [failure] at returned
      exact absurd refused (unspecified_not_refusal returned)

theorem allocate_listing (listing : Listing queue nodes) {element : Nat} (fresh : element ∉ queue.entries)
    (unset : Option Nat) (userElement : α) : Listing (allocate queue element unset userElement) nodes := by
  apply listing.frame
  · rfl
  · rfl
  · intro c member
    have other : c ≠ element := by
      rintro rfl
      exact fresh (listing.allocated c member)
    exact Function.update_of_ne other unset queue.newer
  · intro c member
    exact List.mem_cons_of_mem element (listing.allocated c member)

theorem wait_listing {next : SQueue α} {err : Int32} (listing : Listing queue nodes) (waited : wait queue err = some next) :
    Listing next nodes ∧ next.newest = queue.newest := by
  unfold wait at waited
  by_cases failed : err ≠ 0
  · rw [if_pos failed] at waited
    cases waited
    exact ⟨listing, rfl⟩
  · rw [if_neg failed] at waited
    by_cases zero : queue.semaphore = 0
    · rw [if_pos zero] at waited
      cases waited
    · rw [if_neg zero] at waited
      cases waited
      exact ⟨⟨listing.chain, listing.newest, listing.distinct, listing.allocated⟩, rfl⟩

/-- Whether a wait returns. -/
theorem wait_returns {err : Int32} : (∃ next, wait queue err = some next) ↔ (err = 0 → queue.semaphore ≠ 0) := by
  unfold wait
  by_cases success : err = 0
  · by_cases zero : queue.semaphore = 0 <;> simp [success, zero]
  · simp [success]

/-- An entry that left the list is freed. -/
theorem free_listing {element : Nat} {rest : List Nat} (listing : Listing queue rest) (outside : element ∉ rest) :
    Listing (free queue element) rest := by
  apply listing.frame
  · rfl
  · rfl
  · intro c _
    rfl
  · intro c member
    have other : c ≠ element := by
      rintro rfl
      exact outside member
    exact (List.mem_erase_of_ne other).mpr (listing.allocated c member)

/-- `doPop` takes the oldest entry, once it has the mutex. -/
theorem takeOldest_locked {element : Nat} {rest : List Nat} (listing : Listing queue (element :: rest))
    (taken : calls.mutexLock = 0) (text : String) :
    ∃ next, takeOldest queue calls text =
        some ({ unlock (lock (enter next) calls.mutexLock) calls.mutexUnlock with queue := free next element }, none,
          some (next.userData element)) ∧
      Listing (free next element) rest := by
  obtain ⟨next, popped, shorter, same⟩ := doPop_listing listing
  have known : element ∈ next.entries := by
    rw [same.entries]
    exact listing.allocated element List.mem_cons_self
  refine ⟨next, ?_, free_listing shorter (List.nodup_cons.mp listing.distinct).1⟩
  unfold takeOldest doPop
  rw [if_neg (not_not.mpr taken), popped]
  simp only [Option.map_some, Option.bind_some, unlock_queue, lock_queue]
  exact if_pos known

/-- `doPop` fails with the mutex, stops at an empty list, or takes an entry and tries to
    unlock. None of these is a refusal. -/
theorem takeOldest_cases (before : SQueue α) (listing : Listing queue nodes) (text : String)
    (took : takeOldest queue calls text = some (s, error, value)) :
    Sound before s error ∧ (s.held = false ↔ (calls.mutexLock = 0 → calls.mutexUnlock = 0)) ∧
      (calls.mutexLock = 0 → queue.newest ≠ none) := by
  by_cases taken : calls.mutexLock = 0
  · cases nodes with
    | nil =>
      have empty : ¬ (validate queue = true ∧ queue.newest ≠ none) := by simp [listing.newest]
      rw [takeOldest, doPop, if_neg (not_not.mpr taken), Queue.doPop, if_neg empty] at took
      cases took
    | cons element rest =>
      obtain ⟨next, returned, shorter⟩ := takeOldest_locked listing taken text
      rw [returned] at took
      cases took
      refine ⟨sound_going _ shorter ?_ (.inl rfl), ?_, ?_⟩
      · simp [enter]
      · rw [unlock_held taken]
        simp [taken]
      · intro _
        simp [listing.newest]
  · rw [takeOldest, doPop, if_pos taken] at took
    cases took
    refine ⟨sound_going (s := enter queue) nodes listing (by simp [enter]) (.inr ⟨none, text, rfl⟩), ?_, ?_⟩
    · simp [taken]
    · intro locked
      exact absurd locked taken

theorem takeOldest_returns (listing : Listing queue nodes) (text : String) (possible : calls.mutexLock = 0 → queue.newest ≠ none) :
    ∃ s error value, takeOldest queue calls text = some (s, error, value) := by
  by_cases taken : calls.mutexLock = 0
  · cases nodes with
    | nil => exact absurd listing.newest (possible taken)
    | cons element rest =>
      obtain ⟨next, returned, -⟩ := takeOldest_locked listing taken text
      exact ⟨_, _, _, returned⟩
  · exact ⟨enter queue, unspecified none text, none, by rw [takeOldest, doPop, if_pos taken]; rfl⟩

theorem queuePush_cases {userElement : α} (listing : Listing queue nodes) (fresh : Fresh queue (.push userElement, calls)) :
    ∃ s error, queuePush queue calls userElement = some (s, error) ∧ Sound queue s error ∧
      (s.held = false ↔ Unlocks queue calls (.push userElement)) := by
  unfold queuePush Unlocks
  cases allocated : calls.emalloc with
  | error reason =>
    refine ⟨_, _, rfl, sound_going (s := enter queue) nodes listing (by simp [enter]) (.inr ⟨_, _, rfl⟩), ?_⟩
    simp [Except.isOk, Except.toBool]
  | ok memory =>
    obtain ⟨element, unset⟩ := memory
    have linked := allocate_listing listing (fresh element unset allocated) unset userElement
    simp only
    by_cases taken : calls.mutexLock = 0
    · have outside : element ∉ nodes := fun member => fresh element unset allocated (listing.allocated element member)
      obtain ⟨next, pushed, longer, -⟩ := queuePush_listing linked List.mem_cons_self outside
      have released : (unlock (lock (enter next) calls.mutexLock) calls.mutexUnlock).held = false ↔
          ((Except.ok (element, unset) : Except Error (Nat × Option Nat)).isOk = true → calls.mutexLock = 0 →
            calls.mutexUnlock = 0) := by
        rw [unlock_held taken]
        simp [taken, Except.isOk, Except.toBool]
      rw [if_neg (not_not.mpr taken), pushed, Option.map_some]
      by_cases unlocked : calls.mutexUnlock = 0
      · rw [if_neg (not_not.mpr unlocked)]
        by_cases posted : calls.semPost = 0
        · rw [if_neg (not_not.mpr posted)]
          refine ⟨_, _, rfl, sound_going (nodes ++ [element]) ?_ (by simp [enter]) (.inl rfl), released⟩
          simp only [unlock_queue, lock_queue]
          exact ⟨longer.chain, longer.newest, longer.distinct, longer.allocated⟩
        · rw [if_pos posted]
          refine ⟨_, _, rfl, sound_going (nodes ++ [element]) ?_ (by simp [enter]) (.inr ⟨_, _, rfl⟩), released⟩
          simpa [enter] using longer
      · rw [if_pos unlocked]
        refine ⟨_, _, rfl, sound_going (nodes ++ [element]) ?_ (by simp [enter]) (.inr ⟨_, _, rfl⟩), released⟩
        simpa [enter] using longer
    · rw [if_pos taken]
      refine ⟨_, _, rfl, sound_going nodes linked (by simp [enter]) (.inr ⟨_, _, rfl⟩), ?_⟩
      simp [taken]

/-- A wait for the semaphore with `doPop` behind it returns what `doPop` does, if it returns. -/
theorem waitAndTake_cases (calls : Calls) (listing : Listing queue nodes) (err : Int32) (text : String) :
    (∀ s error value, ((wait queue err).bind fun queue => takeOldest queue calls text) = some (s, error, value) →
      Sound queue s error ∧ (s.held = false ↔
        ((err = 0 → queue.semaphore ≠ 0) → calls.mutexLock = 0 → queue.newest ≠ none → calls.mutexUnlock = 0))) ∧
    ((∃ s error value, ((wait queue err).bind fun queue => takeOldest queue calls text) = some (s, error, value)) ∨
      ((err = 0 → queue.semaphore ≠ 0) → calls.mutexLock = 0 → queue.newest ≠ none → calls.mutexUnlock = 0)) := by
  constructor
  · intro s error value ran
    obtain ⟨next, waited, took⟩ := Option.bind_eq_some_iff.mp ran
    obtain ⟨kept, same⟩ := wait_listing listing waited
    obtain ⟨sound, released, any⟩ := takeOldest_cases queue kept _ took
    have given := wait_returns.mp ⟨next, waited⟩
    rw [same] at any
    exact ⟨sound, released.trans ⟨fun all _ taken _ => all taken, fun all taken => all given taken (any taken)⟩⟩
  · by_cases given : err = 0 → queue.semaphore ≠ 0
    · obtain ⟨next, waited⟩ := wait_returns.mpr given
      obtain ⟨kept, same⟩ := wait_listing listing waited
      by_cases any : calls.mutexLock = 0 → queue.newest ≠ none
      · obtain ⟨s, error, value, took⟩ := takeOldest_returns kept text (same ▸ any)
        exact .inl ⟨s, error, value, by rw [waited, Option.bind_some, took]⟩
      · right
        intro _ taken nonempty
        exact absurd (fun _ => nonempty) any
    · right
      intro possible
      exact absurd possible given

theorem queueWaitFor_cases (calls : Calls) (listing : Listing queue nodes) :
    (∀ s error value, queueWaitFor queue calls = some (s, error, value) →
      Sound queue s error ∧ (s.held = false ↔ Unlocks queue calls .waitFor)) ∧
    ((∃ s error value, queueWaitFor queue calls = some (s, error, value)) ∨ Unlocks queue calls .waitFor) := by
  by_cases waited : calls.semTimedwait = 0
  · have same : queueWaitFor queue calls =
        (wait queue calls.semTimedwait).bind fun queue => takeOldest queue calls "queue_waitFor: doPop failed" := by
      simp [queueWaitFor, waited]
    have cases := waitAndTake_cases calls listing calls.semTimedwait "queue_waitFor: doPop failed"
    rw [same, Unlocks]
    simpa [waited] using cases
  · have free : Unlocks queue calls .waitFor := fun success => absurd success waited
    refine ⟨?_, .inr free⟩
    intro s error value ran
    rw [queueWaitFor, wait, if_pos waited, Option.bind_some, if_pos waited] at ran
    by_cases late : calls.errno = eTimedout
    · rw [if_pos late] at ran
      cases ran
      exact ⟨⟨⟨nodes, listing⟩, fun _ => rfl, fun _ _ _ => ⟨rfl, rfl⟩⟩, by simp [free]⟩
    · rw [if_neg late] at ran
      cases ran
      exact ⟨sound_going (s := enter queue) nodes listing (by simp [enter]) (.inr ⟨_, _, rfl⟩), by simp [free]⟩

/-- A queue without a newest element has no oldest one. -/
theorem oldest_none (listing : Listing queue nodes) (empty : queue.newest = none) : queue.oldest = none := by
  have chain := listing.chain
  have last := listing.newest
  rw [empty] at last
  rw [List.getLast?_eq_none_iff.mp last.symm] at chain
  exact chain

theorem queueDestroy_cases (calls : Calls) (listing : Listing queue nodes) :
    ∃ s error, queueDestroy queue calls = some (s, error) ∧ Sound queue s error ∧
      (s.held = false ↔ Unlocks queue calls .destroy) := by
  unfold queueDestroy Unlocks
  by_cases taken : calls.mutexLock = 0
  · have valid : ¬ validate queue = false := by simp [listing.valid]
    rw [if_neg (not_not.mpr taken), if_neg valid]
    by_cases empty : queue.newest = none
    · have start := oldest_none listing empty
      have released : (unlock (lock (enter queue) calls.mutexLock) calls.mutexUnlock).held = false ↔
          (calls.mutexLock = 0 → queue.newest = none ∧ calls.mutexUnlock = 0) := by
        rw [unlock_held taken]
        simp [taken, empty]
      rw [if_neg (not_not.mpr empty), if_neg (not_not.mpr start)]
      by_cases ended : calls.semDestroy = 0
      · rw [if_neg (not_not.mpr ended)]
        rw [← unlock_ending _ .withoutSemaphore] at released
        by_cases unlocked : calls.mutexUnlock = 0
        · rw [if_neg (not_not.mpr unlocked)]
          by_cases destroyed : calls.mutexDestroy = 0
          · rw [if_neg (not_not.mpr destroyed)]
            refine ⟨_, _, rfl, ⟨⟨nodes, ?_⟩, fun _ => ?_, ?_⟩, released⟩
            · simpa [enter] using listing
            · exact released.mpr fun _ => ⟨empty, unlocked⟩
            · intro e returned
              cases returned
          · rw [if_pos destroyed]
            refine ⟨_, _, rfl, sound_going nodes ?_ (by simp) (.inr ⟨_, _, rfl⟩), released⟩
            simpa [enter] using listing
        · rw [if_pos unlocked]
          refine ⟨_, _, rfl, sound_going nodes ?_ (by simp) (.inr ⟨_, _, rfl⟩), released⟩
          simpa [enter] using listing
      · rw [if_pos ended]
        refine ⟨_, _, rfl, sound_going nodes ?_ (by simp [enter]) (.inr ⟨_, _, rfl⟩), released⟩
        simpa [enter] using listing
    · rw [if_pos empty]
      refine ⟨_, _, rfl, ⟨⟨nodes, ?_⟩, ?_, ?_⟩, ?_⟩
      · simpa [enter] using listing
      · simp [enter]
      · simp [enter]
      · simp [lock, taken, empty]
  · rw [if_pos taken]
    refine ⟨_, _, rfl, sound_going (s := enter queue) nodes listing (by simp [enter]) (.inr ⟨_, _, rfl⟩), ?_⟩
    simp [taken]

theorem queuePoll_cases (listing : Listing queue nodes) :
    Sound queue (queuePoll queue calls).1 none ∧
      ((queuePoll queue calls).1.held = false ↔ Unlocks queue calls .poll) := by
  unfold queuePoll Unlocks
  refine ⟨sound_going nodes ?_ (by simp [enter]) (.inl rfl), ?_⟩
  · simpa [enter] using listing
  · by_cases taken : calls.mutexLock = 0
    · rw [unlock_held taken]
      simp [taken]
    · simp only [taken, false_implies, iff_true]
      unfold lock unlock
      split <;> simp

private theorem outcome_one {β : Type u} {outcome : Option β} {P : β → Prop} {Q : Prop} (returns : ∃ b, outcome = some b ∧ P b) :
    (∀ b, outcome = some b → P b) ∧ ((∃ b, outcome = some b) ∨ Q) := by
  obtain ⟨b, rfl, holds⟩ := returns
  exact ⟨fun c same => Option.some.inj same ▸ holds, .inl ⟨b, rfl⟩⟩

private theorem outcome_map {β γ : Type u} {outcome : Option β} {f : β → γ} {P : γ → Prop} {Q : Prop}
    (cases : (∀ b, outcome = some b → P (f b)) ∧ ((∃ b, outcome = some b) ∨ Q)) :
    (∀ c, outcome.map f = some c → P c) ∧ ((∃ c, outcome.map f = some c) ∨ Q) := by
  constructor
  · intro c ran
    obtain ⟨b, returned, rfl⟩ := Option.map_eq_some_iff.mp ran
    exact cases.1 b returned
  · refine cases.2.imp_left ?_
    rintro ⟨b, rfl⟩
    exact ⟨f b, rfl⟩

/-- Every operation is sound, and leaves the mutex just when it `Unlocks` it. -/
theorem operate_cases {op : Op α} (listing : Listing queue nodes) (fresh : Fresh queue (op, calls)) :
    (∀ after, operate queue calls op = some after →
      Sound queue after.1 after.2 ∧ (after.1.held = false ↔ Unlocks queue calls op)) ∧
    ((∃ after, operate queue calls op = some after) ∨ Unlocks queue calls op) := by
  cases op with
  | push userElement =>
    obtain ⟨s, error, returned, sound, released⟩ := queuePush_cases listing fresh
    exact outcome_one ⟨(s, error), returned, sound, released⟩
  | pop =>
    obtain ⟨each, either⟩ := waitAndTake_cases calls listing calls.semWait "queue_pop: doPop failed"
    apply outcome_map
    exact ⟨fun after returned => each _ _ _ returned, either.imp_left fun ⟨s, error, value, returned⟩ => ⟨_, returned⟩⟩
  | waitFor =>
    obtain ⟨each, either⟩ := queueWaitFor_cases calls listing
    apply outcome_map
    exact ⟨fun after returned => each _ _ _ returned, either.imp_left fun ⟨s, error, value, returned⟩ => ⟨_, returned⟩⟩
  | poll => exact outcome_one ⟨_, rfl, queuePoll_cases listing⟩
  | destroy =>
    obtain ⟨s, error, returned, sound, released⟩ := queueDestroy_cases calls listing
    exact outcome_one ⟨(s, error), returned, sound, released⟩

/-- The contract comes down to the mutex: what else it says holds of every operation. -/
theorem contract_iff {op : Op α} (listing : Listing queue nodes) (fresh : Fresh queue (op, calls)) :
    Contract queue calls op ↔ Unlocks queue calls op := by
  obtain ⟨each, either⟩ := operate_cases listing fresh
  constructor
  · intro contract
    rcases either with ⟨⟨s, error⟩, returned⟩ | unlocks
    · obtain ⟨sound, released⟩ := each _ returned
      apply released.mp
      by_cases freed : s.life = .freed
      · exact sound.freed freed
      · exact (contract s error returned).1 freed
    · exact unlocks
  · intro unlocks s error returned
    obtain ⟨sound, released⟩ := each _ returned
    have free := released.mpr unlocks
    refine ⟨fun _ => free, ?_⟩
    intro e same refused
    exact ⟨(sound.refusal e same refused).1, free, (sound.refusal e same refused).2⟩

/-- A queue on which operations were done, one after another, has its list. -/
theorem step_listing {label : Op α × Calls} {next : SQueue α} (listed : ∃ nodes, Listing queue nodes)
    (fresh : Fresh queue label) (stepped : step queue label = some next) : ∃ nodes, Listing next nodes := by
  obtain ⟨nodes, listing⟩ := listed
  obtain ⟨⟨s, error⟩, returned, going⟩ := Option.bind_eq_some_iff.mp stepped
  by_cases usable : s.held = false ∧ s.life = .whole
  · simp only [if_pos usable] at going
    cases going
    exact ((operate_cases listing fresh).1 (s, error) returned).1.listing
  · simp only [if_neg usable] at going
    cases going

/-- After any operations on a queue, one more of them meets its contract, whatever fails in
    it, exactly when it unlocks the mutex that it took. -/
theorem operation_contract_iff (newer : Nat → Option Nat) (userData : Nat → α) (labels : List (Op α × Calls))
    (allocated : Guarded step Fresh (queueCreate newer userData) labels)
    (reached : run step (queueCreate newer userData) labels = some queue) (op : Op α) (fresh : Fresh queue (op, calls)) :
    Contract queue calls op ↔ Unlocks queue calls op := by
  have created : ∃ nodes, Listing (queueCreate newer userData) nodes :=
    ⟨[], rfl, rfl, List.nodup_nil, fun _ member => absurd member List.not_mem_nil⟩
  obtain ⟨nodes, listing⟩ := guarded_run (fun queue => ∃ nodes, Listing queue nodes)
    (fun _ _ _ listed fresh stepped => step_listing listed fresh stepped) created allocated reached
  exact contract_iff listing fresh

end

/-- The calls of an operation in which nothing fails. -/
def allSucceed (element : Nat) : Calls where
  emalloc := .ok (element, none)
  semWait := 0
  semTimedwait := 0
  errno := 0
  strerror := []
  mutexLock := 0
  mutexUnlock := 0
  semPost := 0
  semDestroy := 0
  mutexDestroy := 0

/-- A queue with one entry. -/
def onePushed : SQueue Nat where
  semaphore := 1
  oldest := some 0
  newest := some 0
  entries := [0]
  newer := Function.update (Function.update (fun _ => none) 0 none) 0 none
  userData := Function.update (fun _ => 0) 0 7

theorem onePushed_reached : run step (queueCreate (fun _ => none) fun _ => 0) [(.push 7, allSucceed 0)] = some onePushed := rfl

private theorem onePushed_fresh : Fresh onePushed (.pop, allSucceed 1) := by
  intro element unset same
  cases same
  decide

/-- The entry is popped, where nothing fails, and the queue is released. -/
theorem pop_releases : Contract onePushed (allSucceed 1) .pop := by
  apply (operation_contract_iff (fun _ => none) (fun _ => 0) [(.push 7, allSucceed 0)] ⟨?_, fun _ _ => trivial⟩
    onePushed_reached .pop onePushed_fresh).mpr
  · intro _ _ _
    rfl
  · intro element unset same
    cases same
    decide

/-- `queue_destroy` refuses to destroy the queue with one entry, and keeps its mutex. -/
theorem destroy_keeps_mutex :
    run step (queueCreate (fun _ => none) fun _ => 0) [(.push 7, allSucceed 0)] = some onePushed ∧
      ¬ Contract onePushed (allSucceed 1) .destroy := by
  refine ⟨rfl, ?_⟩
  intro contract
  have held := (contract _ _ rfl).1 (by decide)
  cases held

end VoxiUtil.QueueCalls
