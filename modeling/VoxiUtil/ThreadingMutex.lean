import VoxiUtil.Exclusion
import VoxiUtil.Runs
import VoxiUtil.ThreadingMoves

/-!
Recursive mutexes under any number of threads, in any interleaving of their steps.
-/
namespace VoxiUtil.ThreadingMutex
open VoxiUtil.Runs VoxiUtil.Exclusion VoxiUtil.Threading VoxiUtil.ThreadingMoves
open VoxiUtil.Limits (intMax)
universe u v

section
variable {τ : Type u} {ω : Type v}

/-- A thread with its lock, before the last unlock has let go of the mutex, and not inside
    `pthread_cond_wait`. -/
structure Past (l : Local ω) : Prop where
  locked : 0 < l.depth
  unlocking : l.pc ≠ .unlocking .assertOldWhere ∧ (l.pc = .unlocking .semPost → 1 < l.depth)
  waiting : l.pc ≠ .waiting .condReturn

/-- In `threading_cond_wait`, between the two sections that have the semaphore. -/
def Waits (pc : Pc) : Prop := pc = .waiting .condWait ∨ pc = .waiting .condReturn ∨ pc = .waiting .semWaitAgain

/-- What holds of a mutex after each step. Two threads are not past their locks at once:
    neither up to where the last unlock lets go of the mutex, if those inside
    `pthread_cond_wait` do not count, nor up to where it returns, if those that wait in
    `threading_cond_wait` do not count. -/
structure Safe (s : System τ ω) : Prop where
  exclusive : ∀ t u, Past (s.threads t) → Past (s.threads u) → t = u
  single : ∀ t u, 0 < (s.threads t).depth → ¬ Waits (s.threads t).pc → 0 < (s.threads u).depth →
    ¬ Waits (s.threads u).pc → t = u
  counted : ∀ t, 0 < (s.threads t).depth → 0 < s.mutex.semaphore → ¬ Waits (s.threads t).pc →
    s.mutex.count = (s.threads t).depth ∧ s.mutex.thread = t
  returns : ∀ t, (s.threads t).pc = .waiting .semPostLast →
    s.mutex.count = (s.threads t).called ∧ (s.threads t).depth = (s.threads t).called

/-- A lock is not called at the largest depth that an `int` can count. -/
def Fits (s : System τ ω) : Act τ ω → Prop
  | .call t .mutexLock => (s.threads t).depth < intMax
  | .call t (.mutexLockDebug _) => (s.threads t).depth < intMax
  | _ => True

/-- The invariant. The semaphore is 1 while no thread has it. -/
structure Inv (s : System τ ω) : Prop where
  semaphore : ∃ holder, HeldBy HasSemaphore s.threads holder ∧ s.mutex.semaphore = if holder.isNone then 1 else 0
  mutex : HeldBy Owns s.threads s.mutex.mutex
  clear : s.mutex.mutex = none → Clear s.mutex
  expects : ∀ t, Expects t s.mutex (s.threads t)
  bottom : ∀ t, Bottom (s.threads t)

variable {s : System τ ω} {t : τ}

theorem mutexInit_inv (thread : τ) : Inv (mutexInit (ω := ω) thread) where
  semaphore := ⟨none, fun _ => iff_of_false Bool.false_ne_true nofun, rfl⟩
  mutex := fun _ => iff_of_false (Nat.lt_irrefl 0) nofun
  clear := fun _ => ⟨rfl, rfl⟩
  expects := fun _ deep => absurd deep (Nat.lt_irrefl 0)
  bottom := by
    intro t last ends
    cases ends

theorem Inv.relies (inv : Inv s) (t : τ) : Relies t s.mutex (s.threads t) where
  semaphore := by
    intro has
    obtain ⟨holder, held, value⟩ := inv.semaphore
    rw [value, (held t).mp has]
    rfl
  mutex := (inv.mutex t).mp
  clear := inv.clear
  stranger := by
    intro has apart counted mine
    cases owner : s.mutex.mutex with
    | none => exact absurd (inv.clear owner).count (Nat.ne_of_gt counted)
    | some u =>
      have owns : Owns (s.threads u) := (inv.mutex u).mpr owner
      obtain ⟨holder, held, _⟩ := inv.semaphore
      have different : u ≠ t := by
        rintro rfl
        exact apart owns
      have deep := expects_owner (inv.expects u) owns (heldBy_apart held has different) counted
      exact different (deep.thread.symm.trans mine)
  bottom := inv.bottom t

instance (s : System τ ω) (act : Act τ ω) : Decidable (Fits s act) :=
  match act with
  | .call t .mutexLock => inferInstanceAs (Decidable ((s.threads t).depth < intMax))
  | .call t (.mutexLockDebug _) => inferInstanceAs (Decidable ((s.threads t).depth < intMax))
  | .call _ .mutexUnlock | .call _ .condWait | .go _ => .isTrue trivial

theorem past_owns {m : VoxiMutex τ ω} {l : Local ω} (expects : Expects t m l) (past : Past l) : Owns l := by
  obtain ⟨locked, unlocking, waiting⟩ := past
  obtain ⟨pc, frames, whence, returns, oldWhere, oldCount, tempInt, called⟩ := l
  have deep : 0 < frames.length := locked
  cases pc with
  | idle => exact deep
  | locking next =>
    cases next with
    | semWait => exact deep
    | semGetvalue => exact deep
    | testCount => exact deep
    | testThread => exact deep
    | semPost => exact absurd expects.2 (Nat.ne_of_gt deep)
    | mutexLock => exact absurd expects.2 (Nat.ne_of_gt deep)
    | _ => trivial
  | unlocking next =>
    cases next with
    | assertOldWhere => exact unlocking.1 rfl
    | semPost => exact unlocking.2 rfl
    | _ => trivial
  | waiting next =>
    rintro rfl
    exact waiting rfl

theorem expects_counted {m : VoxiMutex τ ω} {l : Local ω} (expects : Expects t m l) (locked : 0 < l.depth)
    (semaphore : ¬ HasSemaphore l) (waits : ¬ Waits l.pc) : Deep t m l.depth := by
  obtain ⟨pc, frames, whence, returns, oldWhere, oldCount, tempInt, called⟩ := l
  cases pc with
  | idle => exact expects locked
  | locking next =>
    cases next with
    | semWait => exact expects.2 locked
    | mutexLock => exact absurd expects.2 (Nat.ne_of_gt locked)
    | semWaitAgain => exact absurd expects.2.1 (Nat.ne_of_gt locked)
    | _ => exact absurd rfl semaphore
  | unlocking next =>
    cases next with
    | semWait => exact expects.2
    | _ => exact absurd rfl semaphore
  | waiting next =>
    cases next with
    | semWait => exact expects.2.2
    | condWait => exact absurd (.inl rfl) waits
    | condReturn => exact absurd (.inr (.inl rfl)) waits
    | semWaitAgain => exact absurd (.inr (.inr rfl)) waits
    | _ => exact absurd rfl semaphore

/-- A thread with its lock has the pthread mutex, or its last unlock has let go of it and
    is about to return. -/
theorem owns_or_released {m : VoxiMutex τ ω} {l : Local ω} (expects : Expects t m l) (locked : 0 < l.depth) (waits : ¬ Waits l.pc) :
    Owns l ∨ HasSemaphore l ∧ Clear m := by
  by_cases past : Past l
  · exact .inl (past_owns expects past)
  · obtain ⟨pc, frames, whence, returns, oldWhere, oldCount, tempInt, called⟩ := l
    by_cases checking : pc = .unlocking .assertOldWhere
    · subst checking
      exact .inr ⟨rfl, expects.2.2⟩
    by_cases posting : pc = .unlocking .semPost
    · subst posting
      by_cases deeper : 1 < frames.length
      · exact .inl deeper
      · have single : frames.length = 1 := Nat.le_antisymm (Nat.le_of_not_lt deeper) locked
        exact .inr ⟨rfl, expects.2.2 single⟩
    · refine absurd ⟨locked, ⟨checking, fun same => absurd same posting⟩, ?_⟩ past
      intro waiting
      exact waits (.inr (.inl waiting))

/-- While such an unlock is about to return, no thread has the lock. -/
theorem Inv.only (inv : Inv s) (released : HasSemaphore (s.threads t) ∧ Clear s.mutex) {u : τ} (locked : 0 < (s.threads u).depth)
    (waits : ¬ Waits (s.threads u).pc) : t = u := by
  obtain ⟨holder, held, _⟩ := inv.semaphore
  by_contra different
  have counted := expects_counted (inv.expects u) locked (heldBy_apart held released.1 (Ne.symm different)) waits
  have zero := released.2.count
  rw [counted.count] at zero
  exact absurd zero (Nat.ne_of_gt locked)

theorem Inv.safe (inv : Inv s) : Safe s where
  exclusive := by
    intro t u one other
    exact heldBy_unique inv.mutex (past_owns (inv.expects t) one) (past_owns (inv.expects u) other)
  single := by
    intro t u one oneWaits other otherWaits
    rcases owns_or_released (inv.expects t) one oneWaits with mine | released
    · rcases owns_or_released (inv.expects u) other otherWaits with yours | released
      · exact heldBy_unique inv.mutex mine yours
      · exact (inv.only released one oneWaits).symm
    · exact inv.only released other otherWaits
  counted := by
    intro t locked free waits
    have out : ¬ HasSemaphore (s.threads t) := by
      intro has
      exact absurd ((inv.relies t).semaphore has) (Nat.ne_of_gt free)
    have deep := expects_counted (inv.expects t) locked out waits
    exact ⟨deep.count, deep.thread⟩
  returns := by
    intro t pc
    have expects := inv.expects t
    unfold Expects at expects
    rw [pc] at expects
    obtain ⟨_, asked, deep⟩ := expects
    exact ⟨deep.count.trans asked.symm, asked.symm⟩

variable [DecidableEq τ]

/-- A step that keeps what its thread knows keeps the invariant. -/
theorem moves_inv (inv : Inv s) {next : Local ω} {m : VoxiMutex τ ω} (moves : Moves t s.mutex (s.threads t) m next)
    (expects : Expects t m next) (bottom : Bottom next) : Inv ⟨m, Function.update s.threads t next⟩ := by
  obtain ⟨holder, held, value⟩ := inv.semaphore
  have bottoms : ∀ u, Bottom (Function.update s.threads t next u) :=
    (Function.forall_update_iff s.threads fun _ l => Bottom l).mpr ⟨bottom, fun u _ => inv.bottom u⟩
  have each : (∀ u, u ≠ t → Expects u m (s.threads u)) → ∀ u, Expects u m (Function.update s.threads t next u) :=
    fun others => (Function.forall_update_iff s.threads fun u l => Expects u m l).mpr ⟨expects, others⟩
  have others : ∀ holder semaphore u, u ≠ t → Expects u { s.mutex with mutex := holder, semaphore := semaphore } (s.threads u) :=
    fun _ _ u _ => expects_same.mpr (inv.expects u)
  cases moves with
  | quiet semaphore mutex =>
    exact ⟨⟨holder, heldBy_keep held semaphore, value⟩, heldBy_keep inv.mutex mutex, inv.clear,
      each fun u _ => inv.expects u, bottoms⟩
  | writes same semaphore mutex =>
    have owned : s.mutex.mutex = some t := (inv.mutex t).mp mutex.1
    refine ⟨⟨holder, heldBy_keep held (iff_of_true semaphore.2 semaphore.1), same.1.trans value⟩, ?_, ?_, ?_, bottoms⟩
    · rw [same.2]
      exact heldBy_keep inv.mutex (iff_of_true mutex.2 mutex.1)
    · intro free
      rw [same.2, owned] at free
      cases free
    · apply each
      intro u different
      exact expects_stranger (inv.expects u) (heldBy_apart inv.mutex mutex.1 different) (heldBy_apart held semaphore.1 different)
  | waits positive semaphore mutex =>
    have free : holder = none := by
      cases holder with
      | none => rfl
      | some u => exact absurd value (Nat.ne_of_gt positive)
    subst free
    refine ⟨⟨some t, heldBy_take held semaphore.2, ?_⟩, heldBy_keep inv.mutex mutex, ?_, each (others _ _), bottoms⟩
    · exact congrArg (· - 1) value
    · intro free
      exact clear_same.mpr (inv.clear free)
  | posts semaphore mutex =>
    have mine : holder = some t := (held t).mp semaphore.1
    subst mine
    refine ⟨⟨none, heldBy_drop held semaphore.1 semaphore.2, ?_⟩, heldBy_keep inv.mutex mutex, ?_, each (others _ _), bottoms⟩
    · exact congrArg (· + 1) value
    · intro free
      exact clear_same.mpr (inv.clear free)
  | locks free semaphore mutex =>
    have unowned := inv.mutex
    rw [free] at unowned
    refine ⟨⟨holder, heldBy_keep held semaphore, value⟩, heldBy_take unowned mutex, ?_, each (others _ _), bottoms⟩
    intro free
    cases free
  | unlocks clear semaphore mutex =>
    refine ⟨⟨holder, heldBy_keep held semaphore, value⟩, heldBy_drop inv.mutex mutex.1 mutex.2, ?_, each (others _ _), bottoms⟩
    intro _
    exact clear_same.mpr clear

theorem call_inv (inv : Inv s) {function : Call ω} (enabled : Enabled s (.call t function)) (fits : Fits s (.call t function)) :
    Inv ⟨s.mutex, Function.update s.threads t (enter (s.threads t) function)⟩ := by
  have expects := inv.expects t
  have bottom := inv.bottom t
  have moves : Moves t s.mutex (s.threads t) s.mutex (enter (s.threads t) function) ∧
      Expects t s.mutex (enter (s.threads t) function) ∧ Bottom (enter (s.threads t) function) := by
    obtain ⟨idle, nested⟩ := enabled
    have small : ∀ whence, function = .mutexLock ∨ function = .mutexLockDebug whence → (s.threads t).depth < intMax := by
      rintro whence (rfl | rfl) <;> exact fits
    generalize s.threads t = l at *
    obtain ⟨pc, frames, whence, returns, oldWhere, oldCount, tempInt, called⟩ := l
    cases idle
    cases function with
    | mutexLock => exact ⟨.quiet Iff.rfl Iff.rfl, ⟨small none (.inl rfl), expects⟩, bottom⟩
    | mutexLockDebug whence => exact ⟨.quiet Iff.rfl Iff.rfl, ⟨small whence (.inr rfl), expects⟩, bottom⟩
    | mutexUnlock =>
      have deep : 0 < frames.length := List.length_pos_of_ne_nil nested
      refine ⟨.quiet Iff.rfl ⟨fun _ => deep, fun _ => trivial⟩, ⟨?_, expects deep⟩, bottom⟩
      cases frames with
      | nil => exact absurd rfl nested
      | cons frame rest => rfl
    | condWait =>
      have deep : 0 < frames.length := List.length_pos_of_ne_nil nested
      exact ⟨.quiet Iff.rfl ⟨fun _ => deep, fun _ => nofun⟩, ⟨deep, rfl, expects deep⟩, bottom⟩
  exact moves_inv inv moves.1 moves.2.1 moves.2.2

/-- Every step that need not wait succeeds. -/
theorem step_inv (inv : Inv s) {act : Act τ ω} (enabled : Enabled s act) (fits : Fits s act) :
    ∃ next, step s act = some next ∧ Inv next := by
  cases act with
  | call t function => exact ⟨_, rfl, call_inv inv enabled fits⟩
  | go t =>
    have succeeds : Succeeds t s.mutex (s.threads t) (advance t s.mutex (s.threads t)) := by
      have expects := inv.expects t
      have relies := inv.relies t
      unfold advance
      have ready : Ready s.mutex (s.threads t).pc := enabled
      cases pc : (s.threads t).pc with
      | idle =>
        rw [pc] at ready
        exact ready.elim
      | locking next => exact lock_succeeds pc expects relies ready
      | unlocking next => exact unlock_succeeds pc expects relies ready
      | waiting next => exact wait_succeeds pc expects relies ready
    obtain ⟨m, next, advanced, moves, expects, bottom⟩ := succeeds
    refine ⟨⟨m, Function.update s.threads t next⟩, ?_, moves_inv inv moves expects bottom⟩
    rw [step, advanced, Option.map_some]

/-- Whatever properly nested calls the threads make, and in whatever order they take
    steps: no assertion fails, and the mutex is safe. -/
theorem mutex_safe (thread : τ) (acts : List (Act τ ω))
    (guarded : Guarded step (fun s act => Enabled s act ∧ Fits s act) (mutexInit thread) acts) :
    ∃ s, run step (mutexInit thread) acts = some s ∧ Safe s := by
  obtain ⟨s, ran, inv⟩ := guarded_total (fun s act inv allowed => step_inv inv allowed.1 allowed.2) (mutexInit_inv thread) guarded
  exact ⟨s, ran, inv.safe⟩

end

/-! ### Waiting, and the largest depth -/

/-- One thread waits for a condition with its lock, and another locks. -/
def waitingRun : List (Act Bool String) :=
  .call false (.mutexLockDebug "reader") :: List.replicate 13 (.go false) ++
    .call false .condWait :: List.replicate 9 (.go false) ++ .call true .mutexLock :: List.replicate 13 (.go true)

theorem mutex_safe_sample : ∃ s, run step (mutexInit false) waitingRun = some s ∧ Safe s :=
  mutex_safe false waitingRun (checkedRun_some rfl).1

/-- A mutex that one thread has locked so many times, by `threading_mutex_lock`. -/
def nested (depth : Nat) : System Bool String :=
  ⟨⟨some false, false, 1, depth, none⟩, Function.update (mutexInit false).threads false
    ⟨.idle, List.replicate depth none, none, false, none, 0, depth - 1, 0⟩⟩

/-- The steps of a lock by the thread that has the mutex. -/
def relock : List (Act Bool String) := .call false .mutexLock :: List.replicate 9 (.go false)

/-- The steps of a lock by the first thread. -/
def firstLock : List (Act Bool String) := .call false .mutexLock :: List.replicate 13 (.go false)

/-- Locks of one thread, after the first. -/
def lockedRun (more : Nat) : List (Act Bool String) := firstLock ++ (List.replicate more relock).flatten

section
variable {m m' : VoxiMutex Bool String} {l next : Local String} {rest : List (Act Bool String)} {last : Option (System Bool String)}

/-- What the only thread that ever did anything does next. -/
def alone (m : VoxiMutex Bool String) (l : Local String) : System Bool String :=
  ⟨m, Function.update (mutexInit false).threads false l⟩

theorem alone_calls (function : Call String) (enabled : Enabled (alone m l) (.call false function))
    (later : Guarded step Enabled (alone m (enter l function)) rest ∧ run step (alone m (enter l function)) rest = last) :
    Guarded step Enabled (alone m l) (.call false function :: rest) ∧
      run step (alone m l) (.call false function :: rest) = last := by
  apply guarded_cons enabled _ later
  simp [step, alone]

theorem alone_goes (ready : Ready m l.pc) (advanced : advance false m l = some (m', next))
    (later : Guarded step Enabled (alone m' next) rest ∧ run step (alone m' next) rest = last) :
    Guarded step Enabled (alone m l) (.go false :: rest) ∧ run step (alone m l) (.go false :: rest) = last := by
  apply guarded_cons _ _ later
  · simpa [Enabled, alone] using ready
  · simp [step, alone, advanced]

/-- The last call of `alone_goes`. -/
theorem alone_stops (ready : Ready m l.pc) (stuck : advance false m l = none) :
    Guarded step Enabled (alone m l) [.go false] ∧ run step (alone m l) [.go false] = none := by
  have fails : step (alone m l) (.go false) = none := by simp [step, alone, stuck]
  refine ⟨⟨by simpa [Enabled, alone] using ready, ?_⟩, by rw [run, fails, Option.bind_none]⟩
  intro t stepped
  rw [fails] at stepped
  cases stepped

end

theorem first_nested :
    Guarded step Enabled (mutexInit false) firstLock ∧ run step (mutexInit false) firstLock = some (nested 1) := by
  have fresh : mutexInit false = alone ⟨none, false, 1, 0, none⟩ ⟨.idle, [], none, false, none, 0, 0, 0⟩ := by
    simp [mutexInit, alone]
  rw [fresh]
  refine alone_calls _ ⟨rfl, trivial⟩ ?_
  refine alone_goes Nat.one_pos rfl ?_
  refine alone_goes trivial rfl ?_
  refine alone_goes trivial rfl ?_
  refine alone_goes trivial rfl ?_
  refine alone_goes rfl rfl ?_
  refine alone_goes Nat.one_pos rfl ?_
  refine alone_goes trivial rfl ?_
  refine alone_goes trivial rfl ?_
  refine alone_goes trivial rfl ?_
  refine alone_goes trivial rfl ?_
  refine alone_goes trivial rfl ?_
  refine alone_goes trivial rfl ?_
  refine alone_goes trivial rfl ?_
  exact ⟨trivial, rfl⟩

/-- That thread inside a further lock, before it writes the count. -/
def counting (depth : Nat) : System Bool String :=
  alone ⟨some false, false, 0, depth, none⟩ ⟨.locking .incrementWrite, List.replicate depth none, none, false, none, 0, depth, 0⟩

theorem relock_counts {depth : Nat} {rest : List (Act Bool String)} {last : Option (System Bool String)} (locked : 0 < depth)
    (later : Guarded step Enabled (counting depth) rest ∧ run step (counting depth) rest = last) :
    Guarded step Enabled (nested depth) (.call false .mutexLock :: List.replicate 5 (.go false) ++ rest) ∧
      run step (nested depth) (.call false .mutexLock :: List.replicate 5 (.go false) ++ rest) = last := by
  refine alone_calls _ ⟨rfl, trivial⟩ ?_
  refine alone_goes Nat.one_pos rfl ?_
  refine alone_goes trivial rfl ?_
  refine alone_goes trivial (congrArg (fun pc => some (_, Local.goto _ (.locking pc))) (if_pos locked)) ?_
  refine alone_goes trivial rfl ?_
  refine alone_goes trivial rfl ?_
  exact later

theorem relock_nested {depth : Nat} (locked : 0 < depth) (small : depth < intMax) :
    Guarded step Enabled (nested depth) relock ∧ run step (nested depth) relock = some (nested (depth + 1)) := by
  refine relock_counts locked ?_
  refine alone_goes trivial (if_pos small) ?_
  refine alone_goes trivial rfl ?_
  refine alone_goes trivial rfl ?_
  refine alone_goes trivial rfl ?_
  exact ⟨trivial, rfl⟩

theorem lockedRun_nested {depth : Nat} (small : depth < intMax) :
    Guarded step Enabled (mutexInit false) (lockedRun depth) ∧
      run step (mutexInit false) (lockedRun depth) = some (nested (depth + 1)) := by
  induction depth with
  | zero =>
    rw [lockedRun, List.replicate_zero, List.flatten_nil, List.append_nil]
    exact first_nested
  | succ depth ih =>
    have more : lockedRun (depth + 1) = lockedRun depth ++ relock := by
      rw [lockedRun, List.replicate_succ', List.flatten_append, List.flatten_singleton, ← List.append_assoc]
      rfl
    rw [more]
    exact guarded_append (ih (by omega)) (relock_nested (Nat.succ_pos depth) small)

/-- One lock more than an `int` can count. -/
theorem nested_overflows {depth : Nat} (locked : 0 < depth) (large : ¬ depth < intMax) :
    Guarded step Enabled (nested depth) (.call false .mutexLock :: List.replicate 6 (.go false)) ∧
      run step (nested depth) (.call false .mutexLock :: List.replicate 6 (.go false)) = none := by
  refine relock_counts locked ?_
  exact alone_stops trivial (if_neg large)

/-- As many locks as an `int` can count, and one more. -/
def deepRun : List (Act Bool String) := lockedRun (intMax - 1) ++ .call false .mutexLock :: List.replicate 6 (.go false)

/-- A thread that waits has its lock while another has it too, and a lock too many has no
    outcome that C defines. -/
theorem mutex_unsafe :
    (∃ s, (Guarded step Enabled (mutexInit false) waitingRun ∧ run step (mutexInit false) waitingRun = some s) ∧
      ((s.threads false).depth = 1 ∧ (s.threads false).pc = .waiting .condReturn) ∧
        (s.threads true).depth = 1 ∧ (s.threads true).pc = .idle) ∧
    Guarded step Enabled (mutexInit false) deepRun ∧ run step (mutexInit false) deepRun = none := by
  have positive : 0 < intMax := by decide
  have reached := lockedRun_nested (Nat.sub_one_lt (Nat.ne_of_gt positive))
  rw [Nat.sub_add_cancel positive] at reached
  refine ⟨⟨_, checkedRun_some rfl, ⟨rfl, rfl⟩, rfl, rfl⟩, ?_⟩
  exact guarded_append reached (nested_overflows positive (Nat.lt_irrefl intMax))

end VoxiUtil.ThreadingMutex
