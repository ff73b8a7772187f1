import VoxiUtil.Threading

/-!
What a thread knows of a recursive mutex at each step of the functions, and that each
step succeeds on it. Only the thread that has both the semaphore and the pthread mutex
writes the fields, so what a thread knows while it has one of the two stays true
whatever the others do.
-/
namespace VoxiUtil.ThreadingMoves
open VoxiUtil.Threading
open VoxiUtil.Limits (intMax)
universe u v

/-- Between a `sem_wait` and the next `sem_post`. -/
def holdsSemaphore : Pc → Bool
  | .idle => false
  | .locking next =>
    match next with
    | .semWait | .mutexLock | .semWaitAgain => false
    | _ => true
  | .unlocking next =>
    match next with
    | .semWait => false
    | _ => true
  | .waiting next =>
    match next with
    | .semWait | .condWait | .condReturn | .semWaitAgain => false
    | _ => true

section
variable {τ : Type u} {ω : Type v}

def HasSemaphore (l : Local ω) : Prop := holdsSemaphore l.pc = true

/-- A thread has the pthread mutex from its first lock to its last unlock, and not while
    it waits for the condition. -/
def Owns (l : Local ω) : Prop :=
  match l.pc with
  | .idle => 0 < l.depth
  | .locking next =>
    match next with
    | .semWait | .semGetvalue | .testCount | .testThread => 0 < l.depth
    | .semPost | .mutexLock => False
    | _ => True
  | .unlocking next =>
    match next with
    | .assertOldWhere => False
    | .semPost => 1 < l.depth
    | _ => True
  | .waiting next => next ≠ .condReturn

/-- The fields while a thread has locked the mutex so many times. -/
structure Deep (t : τ) (m : VoxiMutex τ ω) (depth : Nat) : Prop where
  count : m.count = depth
  thread : m.thread = t

/-- The fields while no thread has locked the mutex. -/
structure Clear (m : VoxiMutex τ ω) : Prop where
  count : m.count = 0
  lastLockFrom : m.lastLockFrom = none

/-- What a thread knows in `threading_mutex_lock_debug`. -/
def LockExpects (t : τ) (m : VoxiMutex τ ω) (l : Local ω) : LockAt → Prop
  | .semWait | .semGetvalue | .testCount => 0 < l.depth → Deep t m l.depth
  | .testThread => 0 < m.count ∧ (0 < l.depth → Deep t m l.depth)
  | .incrementRead => 0 < l.depth ∧ Deep t m l.depth
  | .incrementWrite => 0 < l.depth ∧ Deep t m l.depth ∧ l.tempInt = l.depth
  | .semPost | .mutexLock => l.depth = 0
  | .semWaitAgain | .semGetvalueAgain | .assertCount | .setCount => l.depth = 0 ∧ Clear m
  | .setThread => l.depth = 0 ∧ m.count = 1 ∧ m.lastLockFrom = none
  | .getLastLockFrom => Deep t m (l.depth + 1) ∧ (l.depth = 0 → m.lastLockFrom = none)
  | .setLastLockFrom | .semPostLast => Deep t m (l.depth + 1) ∧ (l.depth = 0 → l.oldWhere = none)

/-- What a thread knows in `threading_mutex_unlock_debug`. -/
def UnlockExpects (t : τ) (m : VoxiMutex τ ω) (l : Local ω) : UnlockAt → Prop
  | .semWait | .semGetvalue | .assertThread | .assertCount | .setLastLockFrom => Deep t m l.depth
  | .decrementRead => Deep t m l.depth ∧ (l.depth = 1 → m.lastLockFrom = none)
  | .decrementWrite => Deep t m l.depth ∧ (l.depth = 1 → m.lastLockFrom = none) ∧ l.tempInt = l.depth
  | .testCount => Deep t m (l.depth - 1) ∧ (l.depth = 1 → m.lastLockFrom = none)
  | .mutexUnlock | .assertOldWhere => l.depth = 1 ∧ Clear m
  | .semPost => (1 < l.depth → Deep t m (l.depth - 1)) ∧ (l.depth = 1 → Clear m)

/-- What a thread knows in `threading_cond_wait`. -/
def WaitExpects (t : τ) (m : VoxiMutex τ ω) (l : Local ω) : WaitAt → Prop
  | .semWait | .semGetvalue | .assertCount | .getLastLockFrom | .clearLastLockFrom => Deep t m l.depth
  | .getCount => Deep t m l.depth ∧ m.lastLockFrom = none
  | .clearCount => Deep t m l.depth ∧ m.lastLockFrom = none ∧ l.oldCount = l.depth
  | .condReturn => l.oldCount = l.depth
  | .semPost | .condWait | .semWaitAgain | .semGetvalueAgain | .assertCountAgain | .setCount =>
    Clear m ∧ l.oldCount = l.depth
  | .setLastLockFrom | .setThread => m.count = l.depth
  | .semPostLast => Deep t m l.depth

/-- What a thread knows, wherever it is. -/
def Expects (t : τ) (m : VoxiMutex τ ω) (l : Local ω) : Prop :=
  match l.pc with
  | .idle => 0 < l.depth → Deep t m l.depth
  | .locking next => l.depth < intMax ∧ LockExpects t m l next
  | .unlocking next => l.frames.head? = some l.oldWhere ∧ UnlockExpects t m l next
  | .waiting next => 0 < l.depth ∧ l.called = l.depth ∧ WaitExpects t m l next

/-- The last unlock is given NULL. -/
def Bottom (l : Local ω) : Prop := ∀ last, l.frames.getLast? = some last → last = none

/-- How a step of a thread changes the mutex and what the thread has of it. -/
inductive Moves (t : τ) (m : VoxiMutex τ ω) (l : Local ω) : VoxiMutex τ ω → Local ω → Prop
  | quiet {next : Local ω} (semaphore : HasSemaphore next ↔ HasSemaphore l) (mutex : Owns next ↔ Owns l) : Moves t m l m next
  | writes {m' : VoxiMutex τ ω} {next : Local ω} (same : m'.semaphore = m.semaphore ∧ m'.mutex = m.mutex)
      (semaphore : HasSemaphore l ∧ HasSemaphore next) (mutex : Owns l ∧ Owns next) : Moves t m l m' next
  | waits {next : Local ω} (positive : 0 < m.semaphore) (semaphore : ¬ HasSemaphore l ∧ HasSemaphore next)
      (mutex : Owns next ↔ Owns l) : Moves t m l { m with semaphore := m.semaphore - 1 } next
  | posts {next : Local ω} (semaphore : HasSemaphore l ∧ ¬ HasSemaphore next) (mutex : Owns next ↔ Owns l) :
      Moves t m l (semPost m) next
  | locks {next : Local ω} (free : m.mutex = none) (semaphore : HasSemaphore next ↔ HasSemaphore l)
      (mutex : Owns next) : Moves t m l { m with mutex := some t } next
  | unlocks {next : Local ω} (clear : Clear m) (semaphore : HasSemaphore next ↔ HasSemaphore l)
      (mutex : Owns l ∧ ¬ Owns next) : Moves t m l { m with mutex := none } next

/-- What a step of a thread relies on. -/
structure Relies (t : τ) (m : VoxiMutex τ ω) (l : Local ω) : Prop where
  semaphore : HasSemaphore l → m.semaphore = 0
  mutex : Owns l → m.mutex = some t
  clear : m.mutex = none → Clear m
  stranger : HasSemaphore l → ¬ Owns l → 0 < m.count → m.thread ≠ t
  bottom : Bottom l

/-- A step succeeds and leaves what the thread knows true. -/
def Succeeds (t : τ) (m : VoxiMutex τ ω) (l : Local ω) (out : Option (VoxiMutex τ ω × Local ω)) : Prop :=
  ∃ m' next, out = some (m', next) ∧ Moves t m l m' next ∧ Expects t m' next ∧ Bottom next

variable {t : τ} {m : VoxiMutex τ ω} {l : Local ω}

theorem check_true {holds : Bool} {pc : Pc} (true : holds = Bool.true) : check holds m l pc = some (m, l.goto pc) := if_pos true

theorem semWait_positive (positive : 0 < m.semaphore) : semWait m = some { m with semaphore := m.semaphore - 1 } := if_pos positive

theorem mutexLock_free (free : m.mutex = none) : mutexLock m t = some { m with mutex := some t } :=
  if_pos (by rw [free]; rfl)

theorem semaphore_zero (zero : m.semaphore = 0) : (m.semaphore == 0) = true := by
  rw [zero]
  rfl

/-! ### What a thread knows of what others do -/

theorem deep_same {holder : Option τ} {semaphore depth : Nat} :
    Deep t { m with mutex := holder, semaphore := semaphore } depth ↔ Deep t m depth :=
  ⟨fun deep => ⟨deep.count, deep.thread⟩, fun deep => ⟨deep.count, deep.thread⟩⟩

theorem clear_same {holder : Option τ} {semaphore : Nat} :
    Clear { m with mutex := holder, semaphore := semaphore } ↔ Clear m :=
  ⟨fun clear => ⟨clear.count, clear.lastLockFrom⟩, fun clear => ⟨clear.count, clear.lastLockFrom⟩⟩

/-- A thread knows nothing of the semaphore and the pthread mutex but what it has of them. -/
theorem expects_same {holder : Option τ} {semaphore : Nat} :
    Expects t { m with mutex := holder, semaphore := semaphore } l ↔ Expects t m l := by
  unfold Expects
  cases l.pc with
  | idle => simp only [deep_same]
  | locking next => cases next <;> simp only [LockExpects, deep_same, clear_same]
  | unlocking next => cases next <;> simp only [UnlockExpects, deep_same, clear_same]
  | waiting next => cases next <;> simp only [WaitExpects, deep_same, clear_same]

/-- A thread that has neither knows nothing of the fields. -/
theorem expects_stranger {m' : VoxiMutex τ ω} (expects : Expects t m l) (mutex : ¬ Owns l) (semaphore : ¬ HasSemaphore l) :
    Expects t m' l := by
  obtain ⟨pc, frames, whence, returns, oldWhere, oldCount, tempInt, called⟩ := l
  cases pc with
  | idle => exact fun deep => absurd deep mutex
  | locking next =>
    cases next with
    | semWait => exact ⟨expects.1, fun deep => absurd deep mutex⟩
    | mutexLock => exact expects
    | semWaitAgain => exact absurd trivial mutex
    | _ => exact absurd rfl semaphore
  | unlocking next =>
    cases next with
    | semWait => exact absurd trivial mutex
    | _ => exact absurd rfl semaphore
  | waiting next =>
    cases next with
    | condReturn => exact expects
    | semWait => exact absurd nofun mutex
    | condWait => exact absurd nofun mutex
    | semWaitAgain => exact absurd nofun mutex
    | _ => exact absurd rfl semaphore

/-- A count that is not 0 is the one of the thread that has the pthread mutex. -/
theorem expects_owner (expects : Expects t m l) (mutex : Owns l) (semaphore : ¬ HasSemaphore l) (counted : 0 < m.count) :
    Deep t m l.depth := by
  obtain ⟨pc, frames, whence, returns, oldWhere, oldCount, tempInt, called⟩ := l
  cases pc with
  | idle => exact expects mutex
  | locking next =>
    cases next with
    | semWait => exact expects.2 mutex
    | mutexLock => exact mutex.elim
    | semWaitAgain => exact absurd expects.2.2.count (Nat.ne_of_gt counted)
    | _ => exact absurd rfl semaphore
  | unlocking next =>
    cases next with
    | semWait => exact expects.2
    | _ => exact absurd rfl semaphore
  | waiting next =>
    cases next with
    | condReturn => exact absurd rfl mutex
    | semWait => exact expects.2.2
    | condWait => exact absurd expects.2.2.1.count (Nat.ne_of_gt counted)
    | semWaitAgain => exact absurd expects.2.2.1.count (Nat.ne_of_gt counted)
    | _ => exact absurd rfl semaphore

/-! ### What each function does -/

variable [DecidableEq τ]

theorem mutexUnlock_owned (owned : m.mutex = some t) : mutexUnlock m t = some { m with mutex := none } := if_pos owned

theorem lock_succeeds {next : LockAt} (pc : l.pc = .locking next) (expects : Expects t m l) (relies : Relies t m l)
    (ready : Ready m l.pc) : Succeeds t m l (mutexLockDebug t m l next) := by
  obtain ⟨_, frames, whence, returns, oldWhere, oldCount, tempInt, called⟩ := l
  cases pc
  obtain ⟨small, expects⟩ := expects
  obtain ⟨semaphore, mutex, clear, stranger, bottom⟩ := relies
  cases next with
  | semWait =>
    refine ⟨_, _, congrArg (Option.map _) (semWait_positive ready), ?_, ⟨small, ?_⟩, bottom⟩
    · exact .waits ready ⟨Bool.false_ne_true, rfl⟩ Iff.rfl
    · intro deep
      exact ⟨(expects deep).count, (expects deep).thread⟩
  | semGetvalue =>
    refine ⟨_, _, check_true (semaphore_zero (semaphore rfl)), ?_, ⟨small, expects⟩, bottom⟩
    exact .quiet Iff.rfl Iff.rfl
  | testCount =>
    by_cases counted : 0 < m.count
    · refine ⟨m, _, congrArg (fun pc => some (m, Local.goto _ (.locking pc))) (if_pos counted), ?_,
        ⟨small, counted, expects⟩, bottom⟩
      exact .quiet Iff.rfl Iff.rfl
    · have shallow : ¬ 0 < frames.length := by
        intro deep
        have count : m.count = frames.length := (expects deep).count
        omega
      refine ⟨m, _, congrArg (fun pc => some (m, Local.goto _ (.locking pc))) (if_neg counted), ?_,
        ⟨small, Nat.eq_zero_of_not_pos shallow⟩, bottom⟩
      exact .quiet Iff.rfl ⟨False.elim, shallow⟩
  | testThread =>
    obtain ⟨counted, expects⟩ := expects
    by_cases mine : m.thread = t
    · have deep : 0 < frames.length := by
        by_contra shallow
        exact stranger rfl shallow counted mine
      refine ⟨m, _, congrArg (fun pc => some (m, Local.goto _ (.locking pc))) (if_pos mine), ?_,
        ⟨small, deep, expects deep⟩, bottom⟩
      exact .quiet Iff.rfl ⟨fun _ => deep, fun _ => trivial⟩
    · have shallow : ¬ 0 < frames.length := fun deep => mine (expects deep).thread
      refine ⟨m, _, congrArg (fun pc => some (m, Local.goto _ (.locking pc))) (if_neg mine), ?_,
        ⟨small, Nat.eq_zero_of_not_pos shallow⟩, bottom⟩
      exact .quiet Iff.rfl ⟨False.elim, shallow⟩
  | incrementRead =>
    obtain ⟨deep, held⟩ := expects
    refine ⟨m, _, rfl, ?_, ⟨small, deep, held, held.count⟩, bottom⟩
    exact .quiet Iff.rfl Iff.rfl
  | incrementWrite =>
    obtain ⟨deep, held, temp⟩ := expects
    have depth : tempInt = frames.length := temp
    have inside : tempInt < intMax := by
      rw [depth]
      exact small
    refine ⟨_, _, if_pos inside, ?_, ⟨small, ⟨?_, held.thread⟩, ?_⟩, bottom⟩
    · exact .writes ⟨rfl, rfl⟩ ⟨rfl, rfl⟩ ⟨trivial, trivial⟩
    · exact congrArg (· + 1) depth
    · intro shallow
      exact absurd shallow (Nat.ne_of_gt deep)
  | semPost =>
    refine ⟨_, _, rfl, ?_, ⟨small, expects⟩, bottom⟩
    exact .posts ⟨rfl, Bool.false_ne_true⟩ Iff.rfl
  | mutexLock =>
    have free : m.mutex = none := ready
    refine ⟨_, _, congrArg (Option.map _) (mutexLock_free free), ?_, ⟨small, expects, ?_⟩, bottom⟩
    · exact .locks free Iff.rfl trivial
    · exact ⟨(clear free).count, (clear free).lastLockFrom⟩
  | semWaitAgain =>
    obtain ⟨shallow, clear⟩ := expects
    refine ⟨_, _, congrArg (Option.map _) (semWait_positive ready), ?_, ⟨small, shallow, ?_⟩, bottom⟩
    · exact .waits ready ⟨Bool.false_ne_true, rfl⟩ Iff.rfl
    · exact ⟨clear.count, clear.lastLockFrom⟩
  | semGetvalueAgain =>
    refine ⟨_, _, check_true (semaphore_zero (semaphore rfl)), ?_, ⟨small, expects⟩, bottom⟩
    exact .quiet Iff.rfl Iff.rfl
  | assertCount =>
    have zero : (m.count == 0) = true := by
      rw [expects.2.count]
      rfl
    refine ⟨_, _, check_true zero, ?_, ⟨small, expects⟩, bottom⟩
    exact .quiet Iff.rfl Iff.rfl
  | setCount =>
    obtain ⟨shallow, clear⟩ := expects
    refine ⟨_, _, rfl, ?_, ⟨small, shallow, rfl, clear.lastLockFrom⟩, bottom⟩
    exact .writes ⟨rfl, rfl⟩ ⟨rfl, rfl⟩ ⟨trivial, trivial⟩
  | setThread =>
    obtain ⟨shallow, one, unset⟩ := expects
    refine ⟨_, _, rfl, ?_, ⟨small, ⟨?_, rfl⟩, fun _ => unset⟩, bottom⟩
    · exact .writes ⟨rfl, rfl⟩ ⟨rfl, rfl⟩ ⟨trivial, trivial⟩
    · exact one.trans (congrArg (· + 1) shallow.symm)
  | getLastLockFrom =>
    obtain ⟨held, unset⟩ := expects
    refine ⟨m, _, rfl, ?_, ⟨small, held, unset⟩, bottom⟩
    exact .quiet Iff.rfl Iff.rfl
  | setLastLockFrom =>
    obtain ⟨held, unset⟩ := expects
    refine ⟨_, _, rfl, ?_, ⟨small, ⟨held.count, held.thread⟩, unset⟩, bottom⟩
    exact .writes ⟨rfl, rfl⟩ ⟨rfl, rfl⟩ ⟨trivial, trivial⟩
  | semPostLast =>
    obtain ⟨held, unset⟩ := expects
    refine ⟨_, _, rfl, ?_, ?_, ?_⟩
    · exact .posts ⟨rfl, Bool.false_ne_true⟩ ⟨fun _ => trivial, fun _ => Nat.succ_pos _⟩
    · intro _
      exact ⟨held.count, held.thread⟩
    · intro last ends
      cases frames with
      | nil =>
        have null : oldWhere = none := unset rfl
        subst null
        cases returns <;> exact (Option.some.inj ends).symm
      | cons frame rest =>
        apply bottom
        rw [← ends]
        exact List.getLast?_cons_cons.symm

/-- The argument of the last unlock. -/
theorem bottom_null {frames : List (Option ω)} {oldWhere : Option ω} (bottom : ∀ last, frames.getLast? = some last → last = none)
    (frame : frames.head? = some oldWhere) (single : frames.length = 1) : oldWhere = none := by
  obtain ⟨only, rfl⟩ := List.length_eq_one_iff.mp single
  cases frame
  exact bottom oldWhere rfl

theorem bottom_tail {frames : List (Option ω)} (bottom : ∀ last, frames.getLast? = some last → last = none) :
    ∀ last, frames.tail.getLast? = some last → last = none := by
  intro last ends
  cases frames with
  | nil => cases ends
  | cons frame rest =>
    cases rest with
    | nil => cases ends
    | cons next more =>
      apply bottom
      rw [List.getLast?_cons_cons]
      exact ends

theorem unlock_succeeds {next : UnlockAt} (pc : l.pc = .unlocking next) (expects : Expects t m l) (relies : Relies t m l)
    (ready : Ready m l.pc) : Succeeds t m l (mutexUnlockDebug t m l next) := by
  obtain ⟨_, frames, whence, returns, oldWhere, oldCount, tempInt, called⟩ := l
  cases pc
  obtain ⟨frame, expects⟩ := expects
  obtain ⟨semaphore, mutex, clear, stranger, bottom⟩ := relies
  have some : 0 < frames.length := by
    cases frames with
    | nil => cases frame
    | cons first rest => exact Nat.succ_pos _
  cases next with
  | semWait =>
    refine ⟨_, _, congrArg (Option.map _) (semWait_positive (ready rfl)), ?_, ⟨frame, ?_⟩, bottom⟩
    · exact .waits (ready rfl) ⟨Bool.false_ne_true, rfl⟩ Iff.rfl
    · exact ⟨expects.count, expects.thread⟩
  | semGetvalue =>
    refine ⟨_, _, check_true (semaphore_zero (semaphore rfl)), ?_, ⟨frame, expects⟩, bottom⟩
    exact .quiet Iff.rfl Iff.rfl
  | assertThread =>
    refine ⟨_, _, check_true (decide_eq_true expects.thread), ?_, ⟨frame, expects⟩, bottom⟩
    exact .quiet Iff.rfl Iff.rfl
  | assertCount =>
    have positive : 0 < m.count := by
      rw [expects.count]
      exact some
    refine ⟨_, _, check_true (decide_eq_true positive), ?_, ⟨frame, expects⟩, bottom⟩
    exact .quiet Iff.rfl Iff.rfl
  | setLastLockFrom =>
    refine ⟨_, _, rfl, ?_, ⟨frame, ⟨expects.count, expects.thread⟩, ?_⟩, bottom⟩
    · exact .writes ⟨rfl, rfl⟩ ⟨rfl, rfl⟩ ⟨trivial, trivial⟩
    · exact bottom_null bottom frame
  | decrementRead =>
    obtain ⟨held, unset⟩ := expects
    refine ⟨m, _, rfl, ?_, ⟨frame, held, unset, held.count⟩, bottom⟩
    exact .quiet Iff.rfl Iff.rfl
  | decrementWrite =>
    obtain ⟨held, unset, temp⟩ := expects
    refine ⟨_, _, rfl, ?_, ⟨frame, ⟨?_, held.thread⟩, unset⟩, bottom⟩
    · exact .writes ⟨rfl, rfl⟩ ⟨rfl, rfl⟩ ⟨trivial, trivial⟩
    · exact congrArg (· - 1) temp
  | testCount =>
    obtain ⟨held, unset⟩ := expects
    have count : m.count = frames.length - 1 := held.count
    by_cases zero : m.count = 0
    · have single : frames.length = 1 := by omega
      refine ⟨m, _, congrArg (fun pc => Option.some (m, Local.goto _ (.unlocking pc))) (if_pos zero), ?_,
        ⟨frame, single, zero, unset single⟩, bottom⟩
      exact .quiet Iff.rfl Iff.rfl
    · have deeper : 1 < frames.length := by omega
      refine ⟨m, _, congrArg (fun pc => Option.some (m, Local.goto _ (.unlocking pc))) (if_neg zero), ?_,
        ⟨frame, fun _ => held, ?_⟩, bottom⟩
      · exact .quiet Iff.rfl ⟨fun _ => trivial, fun _ => deeper⟩
      · intro single
        exact absurd single (Nat.ne_of_gt deeper)
  | mutexUnlock =>
    obtain ⟨single, cleared⟩ := expects
    refine ⟨_, _, congrArg (Option.map _) (mutexUnlock_owned (mutex trivial)), ?_, ⟨frame, single, ?_⟩, bottom⟩
    · exact .unlocks cleared Iff.rfl ⟨trivial, id⟩
    · exact clear_same.mpr cleared
  | assertOldWhere =>
    obtain ⟨single, cleared⟩ := expects
    have null : oldWhere = none := bottom_null bottom frame single
    refine ⟨_, _, check_true (Option.isNone_iff_eq_none.mpr null), ?_, ⟨frame, ?_, fun _ => cleared⟩, bottom⟩
    · refine .quiet Iff.rfl ⟨?_, False.elim⟩
      intro deeper
      exact absurd single (Nat.ne_of_gt deeper)
    · intro deeper
      exact absurd single (Nat.ne_of_gt deeper)
  | semPost =>
    have shorter : frames.tail.length = frames.length - 1 := List.length_tail
    refine ⟨_, _, rfl, ?_, ?_, bottom_tail bottom⟩
    · refine .posts ⟨rfl, Bool.false_ne_true⟩ ?_
      change 0 < frames.tail.length ↔ 1 < frames.length
      omega
    · intro deep
      have deeper : 0 < frames.tail.length := deep
      have held := expects.1 (show 1 < frames.length by omega)
      exact ⟨held.count.trans shorter.symm, held.thread⟩

theorem wait_succeeds {next : WaitAt} (pc : l.pc = .waiting next) (expects : Expects t m l) (relies : Relies t m l)
    (ready : Ready m l.pc) : Succeeds t m l (condWait t m l next) := by
  obtain ⟨_, frames, whence, returns, oldWhere, oldCount, tempInt, called⟩ := l
  cases pc
  obtain ⟨deep, asked, expects⟩ := expects
  obtain ⟨semaphore, mutex, clear, stranger, bottom⟩ := relies
  cases next with
  | semWait =>
    refine ⟨_, _, congrArg (Option.map _) (semWait_positive ready), ?_, ⟨deep, asked, ?_⟩, bottom⟩
    · exact .waits ready ⟨Bool.false_ne_true, rfl⟩ ⟨fun _ => nofun, fun _ => nofun⟩
    · exact ⟨expects.count, expects.thread⟩
  | semGetvalue =>
    refine ⟨_, _, check_true (semaphore_zero (semaphore rfl)), ?_, ⟨deep, asked, expects⟩, bottom⟩
    exact .quiet Iff.rfl ⟨fun _ => nofun, fun _ => nofun⟩
  | assertCount =>
    have positive : 0 < m.count := by
      rw [expects.count]
      exact deep
    refine ⟨_, _, check_true (decide_eq_true positive), ?_, ⟨deep, asked, expects⟩, bottom⟩
    exact .quiet Iff.rfl ⟨fun _ => nofun, fun _ => nofun⟩
  | getLastLockFrom =>
    refine ⟨m, _, rfl, ?_, ⟨deep, asked, expects⟩, bottom⟩
    exact .quiet Iff.rfl ⟨fun _ => nofun, fun _ => nofun⟩
  | clearLastLockFrom =>
    refine ⟨_, _, rfl, ?_, ⟨deep, asked, ⟨expects.count, expects.thread⟩, rfl⟩, bottom⟩
    exact .writes ⟨rfl, rfl⟩ ⟨rfl, rfl⟩ ⟨nofun, nofun⟩
  | getCount =>
    obtain ⟨held, unset⟩ := expects
    refine ⟨m, _, rfl, ?_, ⟨deep, asked, held, unset, held.count⟩, bottom⟩
    exact .quiet Iff.rfl ⟨fun _ => nofun, fun _ => nofun⟩
  | clearCount =>
    obtain ⟨held, unset, saved⟩ := expects
    refine ⟨_, _, rfl, ?_, ⟨deep, asked, ⟨rfl, unset⟩, saved⟩, bottom⟩
    exact .writes ⟨rfl, rfl⟩ ⟨rfl, rfl⟩ ⟨nofun, nofun⟩
  | semPost =>
    obtain ⟨cleared, saved⟩ := expects
    refine ⟨_, _, rfl, ?_, ⟨deep, asked, ⟨cleared.count, cleared.lastLockFrom⟩, saved⟩, bottom⟩
    exact .posts ⟨rfl, Bool.false_ne_true⟩ ⟨fun _ => nofun, fun _ => nofun⟩
  | condWait =>
    obtain ⟨cleared, saved⟩ := expects
    refine ⟨_, _, congrArg (Option.map _) (mutexUnlock_owned (mutex nofun)), ?_, ⟨deep, asked, saved⟩, bottom⟩
    exact .unlocks cleared Iff.rfl ⟨nofun, fun other => other rfl⟩
  | condReturn =>
    have free : m.mutex = none := ready
    refine ⟨_, _, congrArg (Option.map _) (mutexLock_free free), ?_, ⟨deep, asked, ?_, expects⟩, bottom⟩
    · exact .locks free Iff.rfl nofun
    · exact ⟨(clear free).count, (clear free).lastLockFrom⟩
  | semWaitAgain =>
    obtain ⟨cleared, saved⟩ := expects
    refine ⟨_, _, congrArg (Option.map _) (semWait_positive ready), ?_, ⟨deep, asked, ?_, saved⟩, bottom⟩
    · exact .waits ready ⟨Bool.false_ne_true, rfl⟩ ⟨fun _ => nofun, fun _ => nofun⟩
    · exact ⟨cleared.count, cleared.lastLockFrom⟩
  | semGetvalueAgain =>
    refine ⟨_, _, check_true (semaphore_zero (semaphore rfl)), ?_, ⟨deep, asked, expects⟩, bottom⟩
    exact .quiet Iff.rfl ⟨fun _ => nofun, fun _ => nofun⟩
  | assertCountAgain =>
    have zero : (m.count == 0) = true := by
      rw [expects.1.count]
      rfl
    refine ⟨_, _, check_true zero, ?_, ⟨deep, asked, expects⟩, bottom⟩
    exact .quiet Iff.rfl ⟨fun _ => nofun, fun _ => nofun⟩
  | setCount =>
    obtain ⟨cleared, saved⟩ := expects
    refine ⟨_, _, rfl, ?_, ⟨deep, asked, saved⟩, bottom⟩
    exact .writes ⟨rfl, rfl⟩ ⟨rfl, rfl⟩ ⟨nofun, nofun⟩
  | setLastLockFrom =>
    refine ⟨_, _, rfl, ?_, ⟨deep, asked, expects⟩, bottom⟩
    exact .writes ⟨rfl, rfl⟩ ⟨rfl, rfl⟩ ⟨nofun, nofun⟩
  | setThread =>
    refine ⟨_, _, rfl, ?_, ⟨deep, asked, expects, rfl⟩, bottom⟩
    exact .writes ⟨rfl, rfl⟩ ⟨rfl, rfl⟩ ⟨nofun, nofun⟩
  | semPostLast =>
    refine ⟨_, _, rfl, ?_, fun _ => ⟨expects.count, expects.thread⟩, bottom⟩
    exact .posts ⟨rfl, Bool.false_ne_true⟩ ⟨fun _ => nofun, fun _ => deep⟩

end

end VoxiUtil.ThreadingMoves
