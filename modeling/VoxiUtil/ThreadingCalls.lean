import VoxiUtil.ThreadingMoves

/-!
Whole calls of `threading_mutex_lock_debug` and `threading_mutex_unlock_debug` by a
thread that no other thread disturbs: the steps of the call, one after another, to
its end.
-/
namespace VoxiUtil.ThreadingCalls
open VoxiUtil.Threading
open VoxiUtil.ThreadingMoves (check_true)
open VoxiUtil.Limits (intMax)
universe u v
variable {τ : Type u} {ω : Type v}

/-- Only thread `t` has the mutex, and so often; or nobody has it. -/
structure Holds (t : τ) (m : VoxiMutex τ ω) (depth : Nat) : Prop where
  semaphore : m.semaphore = 1
  count : m.count = depth
  mutex : m.mutex = if depth = 0 then none else some t
  thread : depth ≠ 0 → m.thread = t
  outside : depth = 0 → m.lastLockFrom = none

/-- The mutex behind a further lock. -/
def locked (t : τ) (m : VoxiMutex τ ω) (whence : Option ω) : VoxiMutex τ ω := ⟨some t, t, 1, m.count + 1, whence⟩

/-- The mutex behind the end of a lock. -/
def unlocked (m : VoxiMutex τ ω) (oldWhere : Option ω) : VoxiMutex τ ω :=
  ⟨if m.count = 1 then none else m.mutex, m.thread, 1, m.count - 1, oldWhere⟩

section
variable {t : τ} {m : VoxiMutex τ ω} {depth : Nat}

theorem init_holds (t thread : τ) : Holds t (mutexInit (ω := ω) thread).mutex 0 where
  semaphore := rfl
  count := rfl
  mutex := rfl
  thread := fun nested => absurd rfl nested
  outside := fun _ => rfl

/-- The mutex inside a lock. -/
theorem Holds.nested (holds : Holds t m (depth + 1)) : m = ⟨some t, t, 1, depth + 1, m.lastLockFrom⟩ := by
  obtain ⟨mutex, thread, semaphore, count, last⟩ := m
  obtain ⟨rfl, rfl, same, own, -⟩ := holds
  dsimp only at same own
  obtain rfl := own (Nat.succ_ne_zero depth)
  obtain rfl := same.trans (if_neg (Nat.succ_ne_zero depth))
  rfl

theorem locked_holds (holds : Holds t m depth) (whence : Option ω) : Holds t (locked t m whence) (depth + 1) where
  semaphore := rfl
  count := congrArg (· + 1) holds.count
  mutex := (if_neg (Nat.succ_ne_zero depth)).symm
  thread := fun _ => rfl
  outside := fun zero => absurd zero (Nat.succ_ne_zero depth)

theorem unlocked_holds (holds : Holds t m (depth + 1)) {oldWhere : Option ω} (outermost : depth = 0 → oldWhere = none) :
    Holds t (unlocked m oldWhere) depth where
  semaphore := rfl
  count := by rw [unlocked, holds.count, Nat.add_sub_cancel]
  mutex := by simp [unlocked, holds.count, holds.mutex]
  thread := fun _ => holds.thread (Nat.succ_ne_zero depth)
  outside := outermost

end

section
variable [DecidableEq τ]

/-- At most so many further steps of a thread inside a function, to its end. -/
def finish (t : τ) : Nat → VoxiMutex τ ω → Local ω → Option (VoxiMutex τ ω × Local ω)
  | 0, _, _ => none
  | steps + 1, m, l =>
    match l.pc with
    | .idle => some (m, l)
    | _ => (advance t m l).bind fun out => finish t steps out.1 out.2

/-- `threading_mutex_lock_debug`, with what it returns. A lock has at most 13 steps. -/
def threadingMutexLockDebug (t : τ) (m : VoxiMutex τ ω) (whence : Option ω) : Option (VoxiMutex τ ω × Option ω) :=
  (finish t 14 m ⟨.locking .semWait, [], whence, true, none, 0, 0, 0⟩).map fun out => (out.1, out.2.oldWhere)

/-- `threading_mutex_unlock_debug`. An unlock has at most 11 steps. -/
def threadingMutexUnlockDebug (t : τ) (m : VoxiMutex τ ω) (oldWhere : Option ω) : Option (VoxiMutex τ ω) :=
  (finish t 12 m ⟨.unlocking .semWait, [], none, false, oldWhere, 0, 0, 0⟩).map Prod.fst

variable {t : τ} {m m' : VoxiMutex τ ω} {l l' : Local ω} {out : Option (VoxiMutex τ ω × Local ω)} {depth steps : Nat}

theorem finish_locking {next : LockAt} (here : l.pc = .locking next) (stepped : mutexLockDebug t m l next = some (m', l'))
    (later : finish t steps m' l' = out) : finish t (steps + 1) m l = out := by
  rw [finish, here]
  simpa only [advance, here, stepped, Option.bind_some] using later

theorem finish_unlocking {next : UnlockAt} (here : l.pc = .unlocking next) (stepped : mutexUnlockDebug t m l next = some (m', l'))
    (later : finish t steps m' l' = out) : finish t (steps + 1) m l = out := by
  rw [finish, here]
  simpa only [advance, here, stepped, Option.bind_some] using later

theorem finish_fails {next : LockAt} (here : l.pc = .locking next) (fails : mutexLockDebug t m l next = none) :
    finish t (steps + 1) m l = none := by
  rw [finish, here]
  simp only [advance, here, fails, Option.bind_none]

/-- The steps up to where a thread that has the mutex counts its lock. -/
theorem finish_relock {last whence : Option ω} (positive : 0 < depth) :
    finish t (steps + 5) ⟨some t, t, 1, depth, last⟩ ⟨.locking .semWait, [], whence, true, none, 0, 0, 0⟩ =
      finish t steps ⟨some t, t, 0, depth, last⟩ ⟨.locking .incrementWrite, [], whence, true, none, 0, depth, 0⟩ := by
  refine finish_locking rfl rfl ?_
  refine finish_locking rfl rfl ?_
  refine finish_locking rfl (congrArg (fun next => some (_, Local.goto _ (.locking next))) (if_pos positive)) ?_
  refine finish_locking rfl (congrArg (fun next => some (_, Local.goto _ (.locking next))) (if_pos rfl)) ?_
  exact finish_locking rfl rfl rfl

/-- A lock by the thread that has the mutex, or of a free one. -/
theorem lock_holds (holds : Holds t m depth) (small : depth < intMax) (whence : Option ω) :
    threadingMutexLockDebug t m whence = some (locked t m whence, m.lastLockFrom) := by
  obtain ⟨mutex, thread, semaphore, count, last⟩ := m
  obtain ⟨rfl, rfl, same, own, -⟩ := holds
  dsimp only at same own small
  rw [threadingMutexLockDebug, Option.map_eq_some_iff]
  by_cases free : count = 0
  · subst free
    obtain rfl : mutex = none := same
    refine ⟨(⟨some t, t, 1, 1, whence⟩, ⟨.idle, [last], whence, true, last, 0, 0, 0⟩), ?_, rfl⟩
    refine finish_locking rfl rfl ?_
    refine finish_locking rfl rfl ?_
    refine finish_locking rfl rfl ?_
    refine finish_locking rfl rfl ?_
    refine finish_locking rfl rfl ?_
    refine finish_locking rfl rfl ?_
    refine finish_locking rfl rfl ?_
    refine finish_locking rfl rfl ?_
    refine finish_locking rfl rfl ?_
    refine finish_locking rfl rfl ?_
    refine finish_locking rfl rfl ?_
    refine finish_locking rfl rfl ?_
    exact finish_locking rfl rfl rfl
  · have positive : 0 < count := Nat.pos_of_ne_zero free
    obtain rfl := own free
    obtain rfl := same.trans (if_neg free)
    refine ⟨(⟨some thread, thread, 1, count + 1, whence⟩, ⟨.idle, [last], whence, true, last, 0, count, 0⟩), ?_, rfl⟩
    refine (finish_relock positive).trans ?_
    refine finish_locking rfl (if_pos small) ?_
    refine finish_locking rfl rfl ?_
    refine finish_locking rfl rfl ?_
    exact finish_locking rfl rfl rfl

/-- One lock more than an `int` can count. -/
theorem lock_overflows (holds : Holds t m depth) (large : ¬ depth < intMax) (whence : Option ω) :
    threadingMutexLockDebug t m whence = none := by
  cases depth with
  | zero => exact absurd (by decide) large
  | succ depth =>
    rw [holds.nested, threadingMutexLockDebug, Option.map_eq_none_iff]
    exact (finish_relock (Nat.succ_pos depth)).trans (finish_fails rfl (if_neg large))

theorem unlock_holds (holds : Holds t m (depth + 1)) {oldWhere : Option ω} (outermost : depth = 0 → oldWhere = none) :
    threadingMutexUnlockDebug t m oldWhere = some (unlocked m oldWhere) := by
  rw [holds.nested, threadingMutexUnlockDebug, Option.map_eq_some_iff]
  refine ⟨(unlocked ⟨some t, t, 1, depth + 1, m.lastLockFrom⟩ oldWhere, ⟨.idle, [], none, false, oldWhere, 0, depth + 1, 0⟩), ?_, rfl⟩
  refine finish_unlocking rfl rfl ?_
  refine finish_unlocking rfl rfl ?_
  refine finish_unlocking rfl (check_true (decide_eq_true rfl)) ?_
  refine finish_unlocking rfl (check_true (decide_eq_true (Nat.succ_pos depth))) ?_
  refine finish_unlocking rfl rfl ?_
  refine finish_unlocking rfl rfl ?_
  refine finish_unlocking rfl rfl ?_
  by_cases last : depth = 0
  · subst last
    obtain rfl := outermost rfl
    refine finish_unlocking rfl rfl ?_
    refine finish_unlocking rfl (congrArg (Option.map _) (if_pos rfl)) ?_
    refine finish_unlocking rfl rfl ?_
    exact finish_unlocking rfl rfl rfl
  · refine finish_unlocking rfl (congrArg (fun next => some (_, Local.goto _ (.unlocking next))) (if_neg last)) ?_
    refine finish_unlocking rfl rfl ?_
    simp [finish, semPost, unlocked, Local.goto, last]

end

end VoxiUtil.ThreadingCalls
