import Mathlib.Logic.Function.Basic
import VoxiUtil.Limits

/-!
The recursive mutexes of `threading.c`. Each operation on the semaphore or on the
pthread mutex and each access to a field is a step of its own; `none` is a failed
assertion, an operation that has to wait, or one that C does not define.
-/
namespace VoxiUtil.Threading
open VoxiUtil.Limits (intMax)
universe u v

/-- `sVoxiMutex`, with the thread that has the pthread mutex. -/
structure VoxiMutex (τ : Type u) (ω : Type v) where
  mutex : Option τ
  thread : τ
  semaphore : Nat
  count : Nat
  lastLockFrom : Option ω

/-- What is next in `threading_mutex_lock_debug`. -/
inductive LockAt
  | semWait
  | semGetvalue
  | testCount
  | testThread
  | incrementRead
  | incrementWrite
  | semPost
  | mutexLock
  | semWaitAgain
  | semGetvalueAgain
  | assertCount
  | setCount
  | setThread
  | getLastLockFrom
  | setLastLockFrom
  | semPostLast
deriving DecidableEq

/-- What is next in `threading_mutex_unlock_debug`. -/
inductive UnlockAt
  | semWait
  | semGetvalue
  | assertThread
  | assertCount
  | setLastLockFrom
  | decrementRead
  | decrementWrite
  | testCount
  | mutexUnlock
  | assertOldWhere
  | semPost
deriving DecidableEq

/-- What is next in `threading_cond_wait`. `condReturn` is the end of
    `pthread_cond_wait`, which takes the pthread mutex again. -/
inductive WaitAt
  | semWait
  | semGetvalue
  | assertCount
  | getLastLockFrom
  | clearLastLockFrom
  | getCount
  | clearCount
  | semPost
  | condWait
  | condReturn
  | semWaitAgain
  | semGetvalueAgain
  | assertCountAgain
  | setCount
  | setLastLockFrom
  | setThread
  | semPostLast
deriving DecidableEq

inductive Pc
  | idle
  | locking (next : LockAt)
  | unlocking (next : UnlockAt)
  | waiting (next : WaitAt)
deriving DecidableEq

/-- A thread: where it is, and its locals. `whence` is the argument of a lock and
    `oldWhere` what it returns, unless it is `threading_mutex_lock`; `oldWhere` is also
    the argument of an unlock, and the saved string of a wait. `frames` has an entry
    for each lock that has returned and whose unlock has not: the argument of that
    unlock. `called` is the nesting depth at the call of the last wait. -/
structure Local (ω : Type v) where
  pc : Pc
  frames : List (Option ω)
  whence : Option ω
  returns : Bool
  oldWhere : Option ω
  oldCount : Nat
  tempInt : Nat
  called : Nat

/-- The nesting depth of a thread. -/
def Local.depth {ω : Type v} (l : Local ω) : Nat := l.frames.length

def Local.goto {ω : Type v} (l : Local ω) (pc : Pc) : Local ω := { l with pc := pc }

section
variable {τ : Type u} {ω : Type v} [DecidableEq τ]

/-- `sem_wait`, where it need not wait. -/
def semWait (m : VoxiMutex τ ω) : Option (VoxiMutex τ ω) :=
  if 0 < m.semaphore then some { m with semaphore := m.semaphore - 1 } else none

def semPost (m : VoxiMutex τ ω) : VoxiMutex τ ω := { m with semaphore := m.semaphore + 1 }

/-- `pthread_mutex_lock`, where it need not wait. -/
def mutexLock (m : VoxiMutex τ ω) (t : τ) : Option (VoxiMutex τ ω) :=
  if m.mutex.isNone then some { m with mutex := some t } else none

/-- `pthread_mutex_unlock`, by the thread that has the mutex. -/
def mutexUnlock (m : VoxiMutex τ ω) (t : τ) : Option (VoxiMutex τ ω) :=
  if m.mutex = some t then some { m with mutex := none } else none

/-- An assertion, and what is next. -/
def check (holds : Bool) (m : VoxiMutex τ ω) (l : Local ω) (pc : Pc) : Option (VoxiMutex τ ω × Local ω) :=
  if holds then some (m, l.goto pc) else none

/-- `threading_mutex_lock_debug`. -/
def mutexLockDebug (t : τ) (m : VoxiMutex τ ω) (l : Local ω) : LockAt → Option (VoxiMutex τ ω × Local ω)
  | .semWait => (semWait m).map fun m => (m, l.goto (.locking .semGetvalue))
  | .semGetvalue => check (m.semaphore == 0) m l (.locking .testCount)
  | .testCount => some (m, l.goto (.locking (if 0 < m.count then .testThread else .semPost)))
  | .testThread => some (m, l.goto (.locking (if m.thread = t then .incrementRead else .semPost)))
  | .incrementRead => some (m, { l with pc := .locking .incrementWrite, tempInt := m.count })
  | .incrementWrite =>
    if l.tempInt < intMax then some ({ m with count := l.tempInt + 1 }, l.goto (.locking .getLastLockFrom)) else none
  | .semPost => some (semPost m, l.goto (.locking .mutexLock))
  | .mutexLock => (mutexLock m t).map fun m => (m, l.goto (.locking .semWaitAgain))
  | .semWaitAgain => (semWait m).map fun m => (m, l.goto (.locking .semGetvalueAgain))
  | .semGetvalueAgain => check (m.semaphore == 0) m l (.locking .assertCount)
  | .assertCount => check (m.count == 0) m l (.locking .setCount)
  | .setCount => some ({ m with count := 1 }, l.goto (.locking .setThread))
  | .setThread => some ({ m with thread := t }, l.goto (.locking .getLastLockFrom))
  | .getLastLockFrom => some (m, { l with pc := .locking .setLastLockFrom, oldWhere := m.lastLockFrom })
  | .setLastLockFrom => some ({ m with lastLockFrom := l.whence }, l.goto (.locking .semPostLast))
  | .semPostLast =>
    some (semPost m, { l with pc := .idle, frames := (if l.returns then l.oldWhere else none) :: l.frames })

/-- `threading_mutex_unlock_debug`. -/
def mutexUnlockDebug (t : τ) (m : VoxiMutex τ ω) (l : Local ω) : UnlockAt → Option (VoxiMutex τ ω × Local ω)
  | .semWait => (semWait m).map fun m => (m, l.goto (.unlocking .semGetvalue))
  | .semGetvalue => check (m.semaphore == 0) m l (.unlocking .assertThread)
  | .assertThread => check (m.thread = t) m l (.unlocking .assertCount)
  | .assertCount => check (0 < m.count) m l (.unlocking .setLastLockFrom)
  | .setLastLockFrom => some ({ m with lastLockFrom := l.oldWhere }, l.goto (.unlocking .decrementRead))
  | .decrementRead => some (m, { l with pc := .unlocking .decrementWrite, tempInt := m.count })
  | .decrementWrite => some ({ m with count := l.tempInt - 1 }, l.goto (.unlocking .testCount))
  | .testCount => some (m, l.goto (.unlocking (if m.count = 0 then .mutexUnlock else .semPost)))
  | .mutexUnlock => (mutexUnlock m t).map fun m => (m, l.goto (.unlocking .assertOldWhere))
  | .assertOldWhere => check l.oldWhere.isNone m l (.unlocking .semPost)
  | .semPost => some (semPost m, { l with pc := .idle, frames := l.frames.tail })

/-- `threading_cond_wait`. -/
def condWait (t : τ) (m : VoxiMutex τ ω) (l : Local ω) : WaitAt → Option (VoxiMutex τ ω × Local ω)
  | .semWait => (semWait m).map fun m => (m, l.goto (.waiting .semGetvalue))
  | .semGetvalue => check (m.semaphore == 0) m l (.waiting .assertCount)
  | .assertCount => check (0 < m.count) m l (.waiting .getLastLockFrom)
  | .getLastLockFrom => some (m, { l with pc := .waiting .clearLastLockFrom, oldWhere := m.lastLockFrom })
  | .clearLastLockFrom => some ({ m with lastLockFrom := none }, l.goto (.waiting .getCount))
  | .getCount => some (m, { l with pc := .waiting .clearCount, oldCount := m.count })
  | .clearCount => some ({ m with count := 0 }, l.goto (.waiting .semPost))
  | .semPost => some (semPost m, l.goto (.waiting .condWait))
  | .condWait => (mutexUnlock m t).map fun m => (m, l.goto (.waiting .condReturn))
  | .condReturn => (mutexLock m t).map fun m => (m, l.goto (.waiting .semWaitAgain))
  | .semWaitAgain => (semWait m).map fun m => (m, l.goto (.waiting .semGetvalueAgain))
  | .semGetvalueAgain => check (m.semaphore == 0) m l (.waiting .assertCountAgain)
  | .assertCountAgain => check (m.count == 0) m l (.waiting .setCount)
  | .setCount => some ({ m with count := l.oldCount }, l.goto (.waiting .setLastLockFrom))
  | .setLastLockFrom => some ({ m with lastLockFrom := l.oldWhere }, l.goto (.waiting .setThread))
  | .setThread => some ({ m with thread := t }, l.goto (.waiting .semPostLast))
  | .semPostLast => some (semPost m, l.goto .idle)

/-- What a thread calls. -/
inductive Call (ω : Type v)
  | mutexLock
  | mutexLockDebug (whence : Option ω)
  | mutexUnlock
  | condWait

/-- A thread that calls a function. `threading_mutex_lock` passes NULL and drops what is
    returned; an unlock is given what its lock returned. -/
def enter (l : Local ω) : Call ω → Local ω
  | .mutexLock => { l with pc := .locking .semWait, whence := none, returns := false }
  | .mutexLockDebug whence => { l with pc := .locking .semWait, whence := whence, returns := true }
  | .mutexUnlock => { l with pc := .unlocking .semWait, oldWhere := l.frames.headD none }
  | .condWait => { l with pc := .waiting .semWait, called := l.depth }

/-- The next step of a thread inside a function. -/
def advance (t : τ) (m : VoxiMutex τ ω) (l : Local ω) : Option (VoxiMutex τ ω × Local ω) :=
  match l.pc with
  | .idle => none
  | .locking next => mutexLockDebug t m l next
  | .unlocking next => mutexUnlockDebug t m l next
  | .waiting next => condWait t m l next

/-- A mutex and all threads. -/
structure System (τ : Type u) (ω : Type v) where
  mutex : VoxiMutex τ ω
  threads : τ → Local ω

inductive Act (τ : Type u) (ω : Type v)
  | call (t : τ) (function : Call ω)
  | go (t : τ)

def step (s : System τ ω) : Act τ ω → Option (System τ ω)
  | .call t function => some { s with threads := Function.update s.threads t (enter (s.threads t) function) }
  | .go t => (advance t s.mutex (s.threads t)).map fun out => ⟨out.1, Function.update s.threads t out.2⟩

/-- A mutex behind `threading_mutex_init`, which does not set `thread`, and threads that
    have not used it. -/
def mutexInit (thread : τ) : System τ ω where
  mutex := ⟨none, thread, 1, 0, none⟩
  threads := fun _ => ⟨.idle, [], none, false, none, 0, 0, 0⟩

/-- The operation that is next need not wait. -/
def Ready (m : VoxiMutex τ ω) : Pc → Prop
  | .idle => False
  | .locking next =>
    match next with
    | .semWait | .semWaitAgain => 0 < m.semaphore
    | .mutexLock => m.mutex = none
    | _ => True
  | .unlocking next => next = .semWait → 0 < m.semaphore
  | .waiting next =>
    match next with
    | .semWait | .semWaitAgain => 0 < m.semaphore
    | .condReturn => m.mutex = none
    | _ => True

/-- The calls of each thread are properly nested, and what has to wait waits. -/
def Enabled (s : System τ ω) : Act τ ω → Prop
  | .call t function =>
    (s.threads t).pc = .idle ∧
      match function with
      | .mutexLock | .mutexLockDebug _ => True
      | .mutexUnlock | .condWait => (s.threads t).frames ≠ []
  | .go t => Ready s.mutex (s.threads t).pc

instance (m : VoxiMutex τ ω) (next : LockAt) : Decidable (Ready m (.locking next)) :=
  match next with
  | .semWait | .semWaitAgain => inferInstanceAs (Decidable (0 < m.semaphore))
  | .mutexLock => inferInstanceAs (Decidable (m.mutex = none))
  | .semGetvalue | .testCount | .testThread | .incrementRead | .incrementWrite | .semPost | .semGetvalueAgain | .assertCount
  | .setCount | .setThread | .getLastLockFrom | .setLastLockFrom | .semPostLast => .isTrue trivial

instance (m : VoxiMutex τ ω) (next : WaitAt) : Decidable (Ready m (.waiting next)) :=
  match next with
  | .semWait | .semWaitAgain => inferInstanceAs (Decidable (0 < m.semaphore))
  | .condReturn => inferInstanceAs (Decidable (m.mutex = none))
  | .semGetvalue | .assertCount | .getLastLockFrom | .clearLastLockFrom | .getCount | .clearCount | .semPost | .condWait
  | .semGetvalueAgain | .assertCountAgain | .setCount | .setLastLockFrom | .setThread | .semPostLast => .isTrue trivial

instance (m : VoxiMutex τ ω) (pc : Pc) : Decidable (Ready m pc) :=
  match pc with
  | .idle => .isFalse id
  | .locking next => inferInstanceAs (Decidable (Ready m (.locking next)))
  | .unlocking next => inferInstanceAs (Decidable (next = .semWait → 0 < m.semaphore))
  | .waiting next => inferInstanceAs (Decidable (Ready m (.waiting next)))

instance (s : System τ ω) (act : Act τ ω) : Decidable (Enabled s act) :=
  match act with
  | .call t .mutexLock => inferInstanceAs (Decidable ((s.threads t).pc = .idle ∧ True))
  | .call t (.mutexLockDebug _) => inferInstanceAs (Decidable ((s.threads t).pc = .idle ∧ True))
  | .call t .mutexUnlock => inferInstanceAs (Decidable ((s.threads t).pc = .idle ∧ (s.threads t).frames ≠ []))
  | .call t .condWait => inferInstanceAs (Decidable ((s.threads t).pc = .idle ∧ (s.threads t).frames ≠ []))
  | .go t => inferInstanceAs (Decidable (Ready s.mutex (s.threads t).pc))

end

end VoxiUtil.Threading
