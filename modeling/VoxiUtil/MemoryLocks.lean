import VoxiUtil.Memory

/-!
The mutex of a memory pool that several threads call, one call at a time. An allocate
that finds no free block returns with the mutex locked.
-/
namespace VoxiUtil.MemoryLocks
open VoxiUtil.Memory VoxiUtil.Runs
variable {τ : Type}

/-- A pool with the thread that has its mutex, which has locked it `manager.mutex` times. -/
structure Pool (τ : Type) where
  manager : SMemoryManager
  holder : Option τ
  free : holder = none ↔ manager.mutex = 0

/-- The nesting depth of a thread on the mutex. -/
def depth [DecidableEq τ] (p : Pool τ) (t : τ) : Nat := if p.holder = some t then p.manager.mutex else 0

/-- The thread can lock the mutex without waiting. -/
def CanLock (p : Pool τ) (t : τ) : Prop := p.holder = none ∨ p.holder = some t

instance [DecidableEq τ] (p : Pool τ) (t : τ) : Decidable (CanLock p t) :=
  inferInstanceAs (Decidable (p.holder = none ∨ p.holder = some t))

/-- The call comes to its lock: a free does not when the block is free already, or has no manager. -/
def locks (manager : SMemoryManager) : MemOp → Bool
  | .allocate _ => true
  | .free block => (BLOCK_HEADER manager block).any fun header => !header.isFree && header.manager.isSome

def answer (manager : SMemoryManager) : MemOp → Option SMemoryManager
  | .allocate location => (memManagerAllocate manager location).map Prod.fst
  | .free block => (memManagerFree manager block).map Prod.fst

/-- Who has the mutex behind a call of a thread. -/
def holderAfter (p : Pool τ) (t : τ) (op : MemOp) (after : SMemoryManager) : Option τ :=
  if after.mutex = 0 then none else if locks p.manager op then some t else p.holder

section
variable {manager after : SMemoryManager} {op : MemOp}

/-- What an allocate does to the mutex: it keeps the lock when it finds no free block. -/
theorem allocate_mutex {location : Option CString.Text} {result : Option Nat} {messages : List Message}
    (ran : memManagerAllocate manager location = some (after, result, messages)) :
    after.mutex = if manager.firstFree = -1 then manager.mutex + 1 else manager.mutex := by
  unfold memManagerAllocate at ran
  dsimp only at ran
  by_cases full : (lock manager).firstFree = -1
  · rw [if_pos full] at ran
    obtain ⟨_, _, dumping⟩ := Option.bind_eq_some_iff.mp ran
    obtain ⟨_, _, done⟩ := Option.bind_eq_some_iff.mp dumping
    cases done
    rw [if_pos (show manager.firstFree = -1 from full)]
    rfl
  · rw [if_neg full] at ran
    obtain ⟨header, _, linking⟩ := Option.bind_eq_some_iff.mp ran
    obtain ⟨next, _, bounded⟩ := Option.bind_eq_some_iff.mp linking
    obtain ⟨_, _, unlocking⟩ := Option.bind_eq_some_iff.mp bounded
    obtain ⟨unlocked, released, checking⟩ := Option.bind_eq_some_iff.mp unlocking
    obtain ⟨_, _, asserting⟩ := Option.bind_eq_some_iff.mp checking
    obtain ⟨_, _, done⟩ := Option.bind_eq_some_iff.mp asserting
    cases done
    rw [if_neg (show ¬ manager.firstFree = -1 from full)]
    simp only [unlock, lock, Nat.zero_lt_succ, if_true, Option.some.injEq] at released
    cases released
    rfl

private theorem checkNext_mutex {index : Int} {messages : List Message} (ran : checkNext manager index = some (after, messages)) :
    after.mutex = manager.mutex := by
  unfold checkNext at ran
  split at ran
  · obtain ⟨header, _, checking⟩ := Option.bind_eq_some_iff.mp ran
    split at checking <;> cases checking <;> rfl
  · cases ran
    rfl

theorem free_mutex {block : Nat} {messages : List Message} (ran : memManagerFree manager block = some (after, messages)) :
    after.mutex = manager.mutex := by
  unfold memManagerFree at ran
  obtain ⟨header, _, looking⟩ := Option.bind_eq_some_iff.mp ran
  split at looking
  · obtain ⟨_, _, done⟩ := Option.bind_eq_some_iff.mp looking
    cases done
    rfl
  · split at looking
    · cases looking
      rfl
    · obtain ⟨_, _, indexing⟩ := Option.bind_eq_some_iff.mp looking
      obtain ⟨index, _, bounded⟩ := Option.bind_eq_some_iff.mp indexing
      obtain ⟨_, _, unlocking⟩ := Option.bind_eq_some_iff.mp bounded
      obtain ⟨unlocked, released, checking⟩ := Option.bind_eq_some_iff.mp unlocking
      simp only [unlock, lock, setHeader, Nat.zero_lt_succ, if_true, Option.some.injEq] at released
      cases released
      rw [checkNext_mutex checking]
      rfl

/-- An allocate on a manager without a free block. -/
def Exhausted (manager : SMemoryManager) : MemOp → Prop
  | .allocate _ => manager.firstFree = -1
  | .free _ => False

instance (manager : SMemoryManager) (op : MemOp) : Decidable (Exhausted manager op) :=
  match op with
  | .allocate _ => inferInstanceAs (Decidable (manager.firstFree = -1))
  | .free _ => .isFalse id

theorem answer_mutex (ran : answer manager op = some after) :
    after.mutex = if Exhausted manager op then manager.mutex + 1 else manager.mutex := by
  cases op with
  | allocate location =>
    obtain ⟨⟨m, result, messages⟩, allocated, rfl⟩ := Option.map_eq_some_iff.mp ran
    exact allocate_mutex allocated
  | free block =>
    obtain ⟨⟨m, messages⟩, freed, rfl⟩ := Option.map_eq_some_iff.mp ran
    exact free_mutex freed

/-- Somebody has the mutex behind a call just when it is locked. -/
theorem holderAfter_free {p : Pool τ} {t : τ} (ran : answer p.manager op = some after) :
    holderAfter p t op after = none ↔ after.mutex = 0 := by
  unfold holderAfter
  by_cases unlocked : after.mutex = 0
  · simp [unlocked]
  · rw [if_neg unlocked]
    refine iff_of_false ?_ unlocked
    by_cases locked : locks p.manager op = true
    · simp [locked]
    · rw [if_neg locked]
      have same := answer_mutex ran
      cases op with
      | allocate location => exact absurd rfl locked
      | free block => exact fun none => unlocked (same.trans (p.free.mp none))

end

section
variable [DecidableEq τ]

/-- A call by a thread; `none` is also a wait for the mutex. -/
def call (p : Pool τ) (t : τ) (op : MemOp) : Option (Pool τ) :=
  if locks p.manager op = true ∧ ¬ CanLock p t then none
  else
    match result : answer p.manager op with
    | none => none
    | some after => some ⟨after, holderAfter p t op after, holderAfter_free result⟩

/-- Every thread has its nesting depth of before, and can lock the mutex if it could before. -/
def Released (p p' : Pool τ) : Prop := ∀ t, depth p' t = depth p t ∧ (CanLock p t → CanLock p' t)

variable {p p' : Pool τ} {t : τ} {op : MemOp}

theorem call_cases (ran : call p t op = some p') : (locks p.manager op = true → CanLock p t) ∧
    answer p.manager op = some p'.manager ∧ p'.holder = holderAfter p t op p'.manager := by
  unfold call at ran
  split at ran
  · cases ran
  · rename_i goes
    split at ran
    · cases ran
    · rename_i after answered
      cases ran
      exact ⟨fun locked => by_contra fun waits => goes ⟨locked, waits⟩, answered, rfl⟩

/-- A thread that need not wait has locked the mutex as often as it is locked. -/
theorem depth_canLock (able : CanLock p t) : depth p t = p.manager.mutex := by
  unfold depth
  rcases able with free | mine
  · rw [p.free.mp free]
    split <;> rfl
  · rw [if_pos mine]

/-- A call that keeps the count of the mutex keeps its holder. -/
private theorem holder_same (ran : call p t op = some p') (same : p'.manager.mutex = p.manager.mutex) : p'.holder = p.holder := by
  obtain ⟨able, _, holder⟩ := call_cases ran
  rw [holder, holderAfter, same]
  by_cases unlocked : p.manager.mutex = 0
  · rw [if_pos unlocked, p.free.mpr unlocked]
  · rw [if_neg unlocked]
    by_cases locked : locks p.manager op = true
    · rw [if_pos locked]
      rcases able locked with free | mine
      · exact absurd (p.free.mp free) unlocked
      · exact mine.symm
    · rw [if_neg locked]

end

/-- In every state of a pool, a call that returns leaves the nesting depth of all threads on the
    mutex as it was, so that every thread can use the pool that could before, just when it is
    no allocate that finds no free block. -/
theorem released_iff [DecidableEq τ] {p p' : Pool τ} {t : τ} {op : MemOp} (returned : call p t op = some p') :
    Released p p' ↔ ¬ Exhausted p.manager op := by
  obtain ⟨able, answered, holder⟩ := call_cases returned
  have mutex := answer_mutex answered
  by_cases full : Exhausted p.manager op
  · rw [if_pos full] at mutex
    have locked : locks p.manager op = true := by
      cases op with
      | allocate location => rfl
      | free block => exact full.elim
    have mine : p'.holder = some t := by
      rw [holder, holderAfter, mutex, if_neg (Nat.succ_ne_zero _), if_pos locked]
    refine iff_of_false (fun released => ?_) (not_not.mpr full)
    have same := (released t).1
    rw [depth_canLock (able locked), depth_canLock (.inr mine), mutex] at same
    omega
  · rw [if_neg full] at mutex
    have same := holder_same returned mutex
    refine iff_of_true (fun u => ⟨?_, fun before => ?_⟩) full
    · rw [depth, depth, same, mutex]
    · rwa [CanLock, same]

/-- The pool of a new manager, which no thread has locked. -/
def newPool (manager : SMemoryManager) (unlocked : manager.mutex = 0) : Pool τ := ⟨manager, none, iff_of_true rfl unlocked⟩

/-- A call on one of the manager's blocks, or one that finds a free block. -/
def Supplied (p : Pool τ) (c : τ × MemOp) : Prop := Within p.manager.capacity c.2 ∧ ¬ Exhausted p.manager c.2

/-- While each allocate finds a free block, no thread ever waits for another one behind its call. -/
theorem calls_never_wait [DecidableEq τ] {elementSize : UInt64} {name : Option CString.Text} {capacity : Int} {result : Option Nat}
    {mutexMade dataMade : Bool} {manager : SMemoryManager}
    (made : memManagerCreate elementSize name capacity result mutexMade dataMade = some (some manager))
    (unlocked : manager.mutex = 0) {calls : List (τ × MemOp)}
    (supplied : Guarded (fun p c => call p c.1 c.2) Supplied (newPool manager unlocked) calls) :
    ∃ p, run (fun p c => call p c.1 c.2) (newPool manager unlocked) calls = some p ∧ ∀ t, CanLock p t := by
  have each : ∀ (p : Pool τ) (c : τ × MemOp), (∃ held, Inv p.manager held) ∧ p.holder = none → Supplied p c →
      ∃ p', call p c.1 c.2 = some p' ∧ (∃ held, Inv p'.manager held) ∧ p'.holder = none := by
    rintro p ⟨t, op⟩ ⟨⟨held, inv⟩, free⟩ ⟨within, found⟩
    obtain ⟨⟨after, held'⟩, stepped, _, kept⟩ := step_inv (s := (p.manager, held)) inv within
    have answered : answer p.manager op = some after := by
      cases op with
      | allocate location =>
        obtain ⟨out, ran, is⟩ := Option.map_eq_some_iff.mp stepped
        exact Option.map_eq_some_iff.mpr ⟨out, ran, congrArg Prod.fst is⟩
      | free block =>
        obtain ⟨out, ran, is⟩ := Option.map_eq_some_iff.mp stepped
        exact Option.map_eq_some_iff.mpr ⟨out, ran, congrArg Prod.fst is⟩
    have able : ¬ (locks p.manager op = true ∧ ¬ CanLock p t) := fun waits => waits.2 (.inl free)
    obtain ⟨p', called⟩ : ∃ p', call p t op = some p' := by
      unfold call
      rw [if_neg able]
      split
      · rename_i none
        cases none.symm.trans answered
      · exact ⟨_, rfl⟩
    have same := (call_cases called).2.1
    cases same.symm.trans answered
    have mutex := answer_mutex same
    rw [if_neg found] at mutex
    exact ⟨p', called, ⟨held', kept⟩, (holder_same called mutex).trans free⟩
  obtain ⟨p, ran, _, free⟩ := guarded_total each ⟨⟨∅, (create_inv made).2⟩, rfl⟩ supplied
  exact ⟨p, ran, fun _ => .inl free⟩

/-- A block of a new pool, and the call that found none. -/
theorem released_iff_allocate : ∃ (manager : SMemoryManager) (p p' : Pool Nat), memManagerCreate 8 none 1 (some 0) true true =
    some (some manager) ∧ p.manager = manager ∧ call p 0 (.allocate none) = some p' ∧
      (Released p p' ↔ ¬ Exhausted p.manager (.allocate none)) :=
  ⟨_, newPool _ rfl, _, rfl, rfl, rfl, released_iff rfl⟩

/-- The thread that finds the pool exhausted has the mutex afterwards, and another thread waits for ever. -/
theorem exhausted_keeps_lock : ∃ (manager : SMemoryManager) (p p' p'' : Pool Nat), memManagerCreate 8 none 1 (some 0) true true =
    some (some manager) ∧ p.manager = manager ∧ call p 0 (.allocate none) = some p' ∧ call p' 0 (.allocate none) = some p'' ∧
      ¬ Released p' p'' ∧ depth p' 0 = 0 ∧ depth p'' 0 = 1 ∧ call p'' 1 (.free 0) = none := by
  refine ⟨_, newPool _ rfl, _, _, rfl, rfl, rfl, rfl, fun released => ?_, rfl, rfl, rfl⟩
  cases (released 0).1

end VoxiUtil.MemoryLocks
