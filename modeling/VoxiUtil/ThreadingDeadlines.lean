import VoxiUtil.Runs
import VoxiUtil.ThreadingCalls

/-!
The timed waits of `threading.c`, where `long` has 64 bits. `pthread_cond_timedwait` is
given by what it is specified to do; the other threads have the mutex while it waits.
-/
namespace VoxiUtil.ThreadingDeadlines
open VoxiUtil.Threading VoxiUtil.ThreadingCalls
open VoxiUtil.Runs (assert assert_true)

structure Timeval where
  tvSec : Int64
  tvUsec : Int64

structure Timespec where
  tvSec : Int64
  tvNsec : Int64

/-- What `pthread_cond_timedwait` returns to a thread that has the mutex. -/
inductive Errno
  | none
  | einval
  | etimedout
deriving DecidableEq

/-- `wakeuptime` of `threading_cond_timedwait`. The sums have the type of `usec`. -/
def wakeuptime (now : Timeval) (usec : UInt64) : Timespec where
  tvSec := (now.tvSec.toUInt64 + usec / 1000000).toInt64
  tvNsec := ((now.tvUsec.toUInt64 + usec % 1000000) * 1000).toInt64

section
variable {τ ω : Type} [DecidableEq τ]

/-- `threading_cond_absolute_timedwait` up to the wait, with `oldCount` and `oldLastLockFrom`. -/
def leave (t : τ) (m : VoxiMutex τ ω) : Option (VoxiMutex τ ω × Nat × Option ω) := do
  let m ← semWait m
  assert (m.semaphore = 0)
  assert (m.thread = t)
  assert (0 < m.count)
  some (semPost { m with lastLockFrom := none, count := 0 }, m.count, m.lastLockFrom)

/-- What it does behind the wait. -/
def comeBack (t : τ) (m : VoxiMutex τ ω) (oldCount : Nat) (oldLastLockFrom : Option ω) : Option (VoxiMutex τ ω) := do
  let m ← semWait m
  assert (m.semaphore = 0)
  assert (m.count = 0)
  some (semPost { m with count := oldCount, lastLockFrom := oldLastLockFrom, thread := t })

/-- `threading_cond_absolute_timedwait`. `others` is what the other threads have made of the mutex when this one has the
    semaphore again. -/
def threadingCondAbsoluteTimedwait (t : τ) (m : VoxiMutex τ ω) (pthreadCondTimedwait : Timespec → Errno)
    (others : VoxiMutex τ ω → VoxiMutex τ ω) (wakeuptime : Timespec) : Option (VoxiMutex τ ω × Bool) := do
  let (m, oldCount, oldLastLockFrom) ← leave t m
  let timedout := decide (pthreadCondTimedwait wakeuptime = .etimedout)
  let m ← comeBack t (others m) oldCount oldLastLockFrom
  some (m, timedout)

/-- `threading_cond_timedwait`, with what `gettimeofday` gives it. -/
def threadingCondTimedwait (t : τ) (m : VoxiMutex τ ω) (pthreadCondTimedwait : Timespec → Errno)
    (others : VoxiMutex τ ω → VoxiMutex τ ω) (now : Timeval) (usec : UInt64) : Option (VoxiMutex τ ω × Bool) :=
  threadingCondAbsoluteTimedwait t m pthreadCondTimedwait others (wakeuptime now usec)

end

/-! ### Times, in nanoseconds -/

def Timespec.nanoseconds (time : Timespec) : Int := time.tvSec.toInt * 1000000000 + time.tvNsec.toInt

def Timeval.nanoseconds (time : Timeval) : Int := time.tvSec.toInt * 1000000000 + time.tvUsec.toInt * 1000

/-- A time that the call accepts. -/
def Timespec.Valid (time : Timespec) : Prop := 0 ≤ time.tvNsec.toInt ∧ time.tvNsec.toInt < 1000000000

/-- When the condition is signalled, and when a thread that waits for it is woken up all the same. -/
structure World where
  signal : Int → Prop
  spurious : Int → Prop

/-- Something has happened since the call. -/
def Since (event : Int → Prop) (called clock : Int) : Prop := ∃ time, called ≤ time ∧ time ≤ clock ∧ event time

/-- How and when a call of `pthread_cond_timedwait` may return. A time that it does not accept it refuses at once. -/
inductive Returns (world : World) (called : Int) (abstime : Timespec) : Errno → Int → Prop
  | refused : ¬ abstime.Valid → Returns world called abstime .einval called
  | signalled {clock : Int} : abstime.Valid → Since world.signal called clock → Returns world called abstime .none clock
  | woken {clock : Int} : abstime.Valid → Since world.spurious called clock → Returns world called abstime .none clock
  | passed {clock : Int} : abstime.Valid → called ≤ clock → abstime.nanoseconds ≤ clock →
      Returns world called abstime .etimedout clock

section
variable {τ ω : Type} {t : τ} {m : VoxiMutex τ ω} {others : VoxiMutex τ ω → VoxiMutex τ ω} {depth : Nat} {now : Timeval}
  {usec n : UInt64} {world : World} {called : Int}

/-! ### The deadline -/

theorem small_toInt (small : n.toNat < 9223372036854775808) : n.toBitVec.toInt = n.toNat := by
  have positive : 2 * n.toBitVec.toNat < 2 ^ 64 := by
    rw [UInt64.toNat_toBitVec]
    omega
  rw [BitVec.toInt_eq_toNat_of_lt positive, UInt64.toNat_toBitVec]

/-- A `long` and an `unsigned long` added up and stored as a `long`. -/
theorem sum_toInt (a : Int64) (small : n.toNat < 9223372036854775808) :
    (a.toUInt64 + n).toBitVec.toInt = (a.toInt + n.toNat).bmod 18446744073709551616 := by
  rw [UInt64.toBitVec_add, BitVec.toInt_add, Int64.toBitVec_toUInt64, Int64.toInt_toBitVec, small_toInt small]

theorem seconds_toInt (now : Timeval) (usec : UInt64) :
    (wakeuptime now usec).tvSec.toInt = (now.tvSec.toInt + (usec.toNat / 1000000 : Nat)).bmod 18446744073709551616 := by
  have whole : (usec / 1000000).toNat = usec.toNat / 1000000 := UInt64.toNat_div usec 1000000
  have small : (usec / 1000000).toNat < 9223372036854775808 := by
    have := usec.toNat_lt
    omega
  rw [← whole, ← sum_toInt now.tvSec small]
  rfl

theorem nanoseconds_toInt (low : 0 ≤ now.tvUsec.toInt) (high : now.tvUsec.toInt < 1000000) (usec : UInt64) :
    (wakeuptime now usec).tvNsec.toInt = (now.tvUsec.toInt + (usec.toNat % 1000000 : Nat)) * 1000 := by
  have rest : (usec % 1000000).toNat = usec.toNat % 1000000 := UInt64.toNat_mod usec 1000000
  have sum : (now.tvUsec.toUInt64 + usec % 1000000).toBitVec.toInt = now.tvUsec.toInt + (usec.toNat % 1000000 : Nat) := by
    rw [sum_toInt now.tvUsec (by omega), rest, Int.bmod_eq_of_le (by omega) (by omega)]
  have product : (wakeuptime now usec).tvNsec.toInt =
      ((now.tvUsec.toUInt64 + usec % 1000000) * 1000).toBitVec.toInt := rfl
  have factor : (1000 : UInt64).toBitVec.toInt = 1000 := rfl
  rw [product, UInt64.toBitVec_mul, BitVec.toInt_mul, sum, factor]
  exact Int.bmod_eq_of_le (by omega) (by omega)

/-- The deadline is accepted just when the microseconds do not carry. -/
theorem valid_iff (low : 0 ≤ now.tvUsec.toInt) (high : now.tvUsec.toInt < 1000000) :
    (wakeuptime now usec).Valid ↔ now.tvUsec.toInt + (usec.toNat % 1000000 : Nat) < 1000000 := by
  rw [Timespec.Valid, nanoseconds_toInt low high]
  omega

/-- The deadline is the right one just when the seconds fit, whether the microseconds carry or not. -/
theorem exact_iff (low : 0 ≤ now.tvUsec.toInt) (high : now.tvUsec.toInt < 1000000) :
    (wakeuptime now usec).nanoseconds = now.nanoseconds + usec.toNat * 1000 ↔
      now.tvSec.toInt + (usec.toNat / 1000000 : Nat) < 9223372036854775808 := by
  have least := now.tvSec.le_toInt
  have most := now.tvSec.toInt_lt
  have size := usec.toNat_lt
  rw [Timespec.nanoseconds, Timeval.nanoseconds, nanoseconds_toInt low high, seconds_toInt]
  constructor
  · intro same
    by_contra large
    have around := Int.bmod_lt (x := now.tvSec.toInt + (usec.toNat / 1000000 : Nat)) (m := 18446744073709551616) (by decide)
    omega
  · intro fits
    rw [Int.bmod_eq_of_le (by omega) (by omega)]
    omega

/-! ### The call -/

/-- The other threads leave the mutex to this one, with its semaphore. -/
def Left (t : τ) (m : VoxiMutex τ ω) : Prop := m.semaphore = 1 ∧ m.count = 0 ∧ m.mutex = some t

theorem comeBack_left (left : Left t m) (oldCount : Nat) (oldLastLockFrom : Option ω) :
    comeBack t m oldCount oldLastLockFrom = some ⟨some t, t, 1, oldCount, oldLastLockFrom⟩ := by
  obtain ⟨mutex, thread, semaphore, count, last⟩ := m
  obtain ⟨rfl, rfl, rfl⟩ := left
  rfl

variable [DecidableEq τ]

theorem leave_holds (holds : Holds t m (depth + 1)) :
    leave t m = some (⟨some t, t, 1, 0, none⟩, depth + 1, m.lastLockFrom) := by
  rw [holds.nested]
  simp [leave, semWait, semPost]

/-- A timed wait of a thread that has the mutex comes back with the mutex locked as often as before. -/
theorem absoluteTimedwait_holds (holds : Holds t m (depth + 1)) (left : ∀ m', Left t (others m')) (err : Timespec → Errno)
    (abstime : Timespec) :
    ∃ m', threadingCondAbsoluteTimedwait t m err others abstime = some (m', decide (err abstime = .etimedout)) ∧
      Holds t m' (depth + 1) := by
  refine ⟨⟨some t, t, 1, depth + 1, m.lastLockFrom⟩, ?_, ⟨rfl, rfl, rfl, fun _ => rfl, fun zero => nomatch zero⟩⟩
  simp only [threadingCondAbsoluteTimedwait, leave_holds holds, comeBack_left (left _), Option.bind_eq_bind, Option.bind_some]

/-- The deadline is accepted and is `usec` from now, and whatever `pthread_cond_timedwait` does with it, FALSE is not returned
    before the condition was signalled or the time had passed. -/
structure Timed (t : τ) (m : VoxiMutex τ ω) (others : VoxiMutex τ ω → VoxiMutex τ ω) (world : World) (called : Int)
    (now : Timeval) (usec : UInt64) : Prop where
  valid : (wakeuptime now usec).Valid
  exact : (wakeuptime now usec).nanoseconds = now.nanoseconds + usec.toNat * 1000
  notEarly : ∀ err clock m', Returns world called (wakeuptime now usec) (err (wakeuptime now usec)) clock →
    threadingCondTimedwait t m err others now usec = some (m', false) →
      Since world.signal called clock ∨ now.nanoseconds + usec.toNat * 1000 ≤ clock

/-- The thread is not woken up before the condition was signalled or the time had passed. -/
def Undisturbed (world : World) (called : Int) (now : Timeval) (usec : UInt64) : Prop :=
  ∀ clock, called ≤ clock → world.spurious clock →
    Since world.signal called clock ∨ now.nanoseconds + usec.toNat * 1000 ≤ clock

theorem not_early (valid : (wakeuptime now usec).Valid) (undisturbed : Undisturbed world called now usec) {err : Errno} {clock : Int}
    (returns : Returns world called (wakeuptime now usec) err clock) (early : err ≠ .etimedout) :
    Since world.signal called clock ∨ now.nanoseconds + usec.toNat * 1000 ≤ clock := by
  cases returns with
  | refused invalid => exact absurd valid invalid
  | signalled _ since => exact .inl since
  | woken _ since =>
    obtain ⟨time, after, before, spurious⟩ := since
    refine (undisturbed time after spurious).imp ?_ fun passed => Int.le_trans passed before
    rintro ⟨signal, later, sooner, event⟩
    exact ⟨signal, later, Int.le_trans sooner before, event⟩
  | passed _ _ _ => exact absurd rfl early

end

/-- Whatever time it is and whatever `usec`, a timed wait uses the right deadline and never returns FALSE early just when the
    microseconds do not carry, the seconds fit, and the thread is not woken up early. -/
theorem timed_iff {τ ω : Type} [DecidableEq τ] {t : τ} {m : VoxiMutex τ ω} {others : VoxiMutex τ ω → VoxiMutex τ ω} {depth : Nat}
    {world : World} {called : Int} {now : Timeval} {usec : UInt64} (holds : Holds t m (depth + 1))
    (left : ∀ m', Left t (others m')) (low : 0 ≤ now.tvUsec.toInt) (high : now.tvUsec.toInt < 1000000) :
    Timed t m others world called now usec ↔
      now.tvUsec.toInt + (usec.toNat % 1000000 : Nat) < 1000000 ∧
      now.tvSec.toInt + (usec.toNat / 1000000 : Nat) < 9223372036854775808 ∧ Undisturbed world called now usec := by
  rw [← valid_iff low high, ← exact_iff low high]
  constructor
  · rintro ⟨valid, deadline, notEarly⟩
    refine ⟨valid, deadline, fun clock after spurious => ?_⟩
    obtain ⟨m', done, -⟩ := absoluteTimedwait_holds holds left (fun _ => .none) (wakeuptime now usec)
    exact notEarly (fun _ => .none) clock m' (.woken valid ⟨clock, after, Int.le_refl clock, spurious⟩) done
  · rintro ⟨valid, deadline, undisturbed⟩
    refine ⟨valid, deadline, fun err clock m' returns done => ?_⟩
    obtain ⟨_, again, -⟩ := absoluteTimedwait_holds holds left err (wakeuptime now usec)
    have early : decide (err (wakeuptime now usec) = .etimedout) = false :=
      congrArg Prod.snd (Option.some.inj (again.symm.trans done))
    exact not_early valid undisturbed returns (of_decide_eq_false early)

/-- A world in which the condition is never signalled, and nobody is woken up. -/
private def quiet : World := ⟨fun _ => False, fun _ => False⟩

/-- The mutex that thread 0 has locked, also when it has it again. -/
private def own (count : Nat) : VoxiMutex Nat Nat := ⟨some 0, 0, 1, count, none⟩

private theorem own_holds : Holds 0 (own 1) 1 := ⟨rfl, rfl, rfl, fun _ => rfl, fun zero => nomatch zero⟩

theorem timed_iff_half : Timed 0 (own 1) (fun _ => own 0) quiet 100500000000 ⟨100, 500000⟩ 400000 :=
  (timed_iff own_holds (fun _ => ⟨rfl, rfl, rfl⟩) (by decide) (by decide)).mpr
    ⟨by decide, by decide, fun _ _ spurious => spurious.elim⟩

/-- Nine tenths into a second, a wait for another tenth is refused and returns FALSE at once. -/
theorem carry_refused :
    Returns quiet 100900000000 (wakeuptime ⟨100, 900000⟩ 100000) .einval 100900000000 ∧
    threadingCondTimedwait 0 (own 1) (fun _ => .einval) (fun _ => own 0) ⟨100, 900000⟩ 100000 = some (own 1, false) ∧
    ¬ Timed 0 (own 1) (fun _ => own 0) quiet 100900000000 ⟨100, 900000⟩ 100000 := by
  have invalid : ¬ (wakeuptime ⟨100, 900000⟩ 100000).Valid := fun valid => absurd valid.2 (by decide)
  exact ⟨.refused invalid, rfl, fun timed => invalid timed.valid⟩

end VoxiUtil.ThreadingDeadlines
