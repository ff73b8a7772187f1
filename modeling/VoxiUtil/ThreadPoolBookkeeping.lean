import VoxiUtil.Runs
import VoxiUtil.ThreadPoolJobs
import VoxiUtil.ThreadPoolLists
import VoxiUtil.ThreadPoolStates

/-!
Runs of a thread pool that is not destroyed and whose waits end by a signal only: the
lists, the functions and the join states after each step.
-/
namespace VoxiUtil.ThreadPoolBookkeeping
open VoxiUtil.DoublyLinked VoxiUtil.Runs VoxiUtil.ThreadPool VoxiUtil.ThreadPoolLists VoxiUtil.ThreadPoolJobs
open VoxiUtil.ThreadPoolStates
universe u
variable {V : Type u}

/-- The invariant of a pool that is not destroyed. -/
structure Inv (p : SThreadPool V) : Prop where
  kept : p.destroyer = .notCalled
  running : p.isShuttingDown = false
  lists : ∃ available inUse, Lists p available inUse
  jobs : Jobs p
  joins : Joins p

/-- Steps of `threadPool_runThread`, of pool threads and of joins, where a wait ends by a signal. -/
def Undisturbed : Act V → Prop
  | .destroy | .wakeStart _ | .wakeJoin _ | .wakeJoiner _ => False
  | _ => True

section
variable {p p' : SThreadPool V} {t : Nat} {place : Place}

/-- A thread that moves on, and changes nothing that the lists depend on. -/
private theorem lists_same (lists : ∃ available inUse, Lists p available inUse)
    (same : p'.next = p.next ∧ p'.prev = p.prev ∧ p'.firstAvailableThread = p.firstAvailableThread ∧
      p'.firstThreadInUse = p.firstThreadInUse ∧ p'.created = p.created ∧ p'.serves = p.serves) :
    ∃ available inUse, Lists p' available inUse := by
  obtain ⟨nextIs, prevIs, firstIs, firstInUseIs, createdIs, servesIs⟩ := same
  obtain ⟨available, inUse, lists⟩ := lists
  refine ⟨available, inUse, ?_, ?_, ?_, ?_⟩
  · rw [nextIs, prevIs, firstIs]
    exact lists.linked
  · rw [nextIs, prevIs, firstInUseIs]
    exact lists.linkedInUse
  · rw [createdIs, servesIs]
    exact lists.free
  · rw [createdIs, servesIs]
    exact lists.busy

private theorem inv_goto (inv : Inv p) (present : p.place t ≠ .absent) (jobs : Jobs (p.goto t place))
    (before : Apart (p.place t)) (after : Apart place) : Inv (p.goto t place) where
  kept := inv.kept
  running := inv.running
  lists := lists_same inv.lists ⟨rfl, rfl, rfl, rfl, rfl, rfl⟩
  jobs := jobs
  joins := joins_goto inv.joins (inv.jobs.created present) before after

private theorem handOut_open (p : SThreadPool V) (t : Nat) :
    (handOut p t).destroyer = p.destroyer ∧ (handOut p t).isShuttingDown = p.isShuttingDown := by
  obtain ⟨_, _, _, _, same⟩ := relinked_addInUse p t
  rw [handOut, same]
  exact ⟨rfl, rfl⟩

/-- The first section of `threadPool_runThread`: a thread is taken, which is in use for no call. -/
private theorem inv_runThread {created : Bool} {error : Option String} (inv : Inv p)
    (ran : threadPoolRunThread p created = some (p', error)) : Inv p' := by
  obtain ⟨available, inUse, lists⟩ := inv.lists
  rcases runThread_cases inv.running ran with ⟨rfl, _⟩ | ⟨t, _, first, rfl⟩ | ⟨_, rfl⟩
  · exact inv
  · obtain ⟨rest, rfl, after⟩ := handOut_available lists first
    obtain ⟨made, idle⟩ := (lists.free t).mp List.mem_cons_self
    obtain ⟨keptIs, runningIs⟩ := handOut_open (takeFirst p t) t
    have relinked := relinked_takeFirst p t
    have jobs := jobs_relinked inv.jobs relinked
    have joins := joins_relinked inv.joins relinked
    obtain ⟨_, _, _, _, same⟩ := relinked
    refine ⟨?_, ?_, ⟨_, _, after⟩, jobs_handOut jobs ?_ ?_, joins_handOut joins jobs.handed⟩
    · rw [keptIs, same]
      exact inv.kept
    · rw [runningIs, same]
      exact inv.running
    · rw [same]
      exact made
    · rw [same]
      exact idle
  · obtain ⟨keptIs, runningIs⟩ := handOut_open (threadPoolThreadCreate p).2 p.created
    have jobs := jobs_create inv.jobs
    refine ⟨keptIs.trans inv.kept, runningIs.trans inv.running, ⟨_, _, handOut_created lists⟩,
      jobs_handOut jobs (Nat.lt_succ_self _) (inv.jobs.unborn _ (Nat.le_refl _)).2,
      joins_handOut (joins_create inv.joins) jobs.handed⟩

private theorem inv_setFunction {call : Nat} (inv : Inv p) (ran : threadPoolSetFunction p call = some p') : Inv p' := by
  have jobs := jobs_setFunction inv.jobs ran
  obtain ⟨⟨below, pending, holds⟩, same⟩ := Option.ite_none_right_eq_some.mp ran
  have made := inv.jobs.made call below
  have given : ∀ {q : SThreadPool V}, Joins q → q.returned = p.returned →
      Joins { q with threadFunc := Function.update q.threadFunc (p.newThread call) (some call),
                     returned := Function.update p.returned call true } := by
    intro q joins same
    have stays : ∀ c, q.returned c = true → Function.update p.returned call true c = true := by
      intro c given
      rw [Function.update_apply]
      split
      · rfl
      · rw [← same, given]
    refine ⟨joins.phase, joins.fresh, fun j u c waits => ?_, fun j u c woke => ?_, joins.sound⟩
    · obtain ⟨listed, thread, given⟩ := joins.waiting j u c waits
      exact ⟨listed, thread, stays c given⟩
    · obtain ⟨thread, given⟩ := joins.woken j u c woke
      exact ⟨thread, stays c given⟩
  cases same
  unfold signalStartCondition at jobs ⊢
  by_cases waits : p.place (p.newThread call) = .startWait
  · rw [if_pos waits] at jobs ⊢
    refine ⟨inv.kept, inv.running, lists_same inv.lists ⟨rfl, rfl, rfl, rfl, rfl, rfl⟩, jobs, ?_⟩
    exact given (joins_goto inv.joins made (by simp [waits, Apart]) (by simp [Apart])) rfl
  · rw [if_neg waits] at jobs ⊢
    exact ⟨inv.kept, inv.running, lists_same inv.lists ⟨rfl, rfl, rfl, rfl, rfl, rfl⟩, jobs, given inv.joins rfl⟩

/-- The join state of a thread that is about to call its function. -/
theorem callFunc_sound (inv : Inv p) (at' : p.place t = .callFunc) :
    p.state t = .runningUnjoined ∨ p.state t = .runningJoined := by
  rcases joinPhase_apart (inv.joins.phase t) (by simp [at', Apart]) with ⟨state, _⟩ | ⟨state, _⟩
  · exact .inl state
  · exact .inr state

/-- One step of the main loop. -/
private theorem inv_mainLoop {wakes : Wakes} (inv : Inv p) (ran : threadPoolThreadMainLoop p t wakes = some p') : Inv p' := by
  have running : ¬ p.isShuttingDown = true := by simp [inv.running]
  unfold threadPoolThreadMainLoop at ran
  cases at' : p.place t <;> rw [at'] at ran <;> try cases ran
  case lockStart =>
    have phase := inv.jobs.phase t (inv.jobs.created (by simp [at']))
    rw [at'] at phase
    have next : Phase p t (if p.threadFunc t = none then .beforeStartWait else .testShuttingDown) := by
      rcases phase with ⟨serves, unset, _⟩ | ⟨call, serves, ⟨new, pending, unset, _⟩ | ⟨new, given, set, _⟩ | ⟨_, _, late, _⟩⟩
      · rw [if_pos unset]
        exact .inl ⟨serves, unset, by simp [Rests]⟩
      · rw [if_pos unset]
        exact .inr ⟨call, serves, .inl ⟨new, pending, unset, by simp [Rests]⟩⟩
      · rw [if_neg (by simp [set])]
        exact .inr ⟨call, serves, .inr (.inl ⟨new, given, set, by simp [Starts]⟩)⟩
      · simp [Follows] at late
    refine inv_goto inv (by simp [at']) (jobs_goto inv.jobs (by simp [at']) next) (by simp [at', Apart]) ?_
    split <;> simp [Apart]
  case beforeStartWait =>
    refine inv_goto inv (by simp [at']) (jobs_move inv.jobs (by simp [at']) ?_ ?_ ?_) (by simp [at', Apart]) (by simp [Apart])
    · simp [Rests]
    · simp [at', Starts]
    · simp [at', Follows]
  case startWoken =>
    refine inv_goto inv (by simp [at']) (jobs_move inv.jobs (by simp [at']) ?_ ?_ ?_) (by simp [at', Apart]) (by simp [Apart])
    · simp [at', Rests]
    · simp [Starts]
    · simp [at', Follows]
  case testShuttingDown =>
    rw [if_neg running]
    refine inv_goto inv (by simp [at']) (jobs_move inv.jobs (by simp [at']) ?_ ?_ ?_) (by simp [at', Apart]) (by simp [Apart])
    · simp [at', Rests]
    · simp [Starts]
    · simp [at', Follows]
  case callFunc =>
    have sound := callFunc_sound inv at'
    obtain ⟨call, result, _, jobs⟩ := jobs_callThreadFunc inv.jobs at' sound
    have made := inv.jobs.created (t := t) (by simp [at'])
    have joins : Joins (p.goto t (.running call)) := joins_goto inv.joins made (by simp [at', Apart]) (by simp [Apart])
    rw [result] at jobs ⊢
    exact ⟨inv.kept, inv.running, lists_same inv.lists ⟨rfl, rfl, rfl, rfl, rfl, rfl⟩, jobs, { joins with }⟩
  case lockJoinState =>
    have made := inv.jobs.created (t := t) (by simp [at'])
    obtain ⟨joins, state, waiters, joiner, _, rfl⟩ := joins_announceFinish inv.joins made at' ran
    have jobs : Jobs (p.goto t .joinWait) := jobs_move inv.jobs (by simp [at']) (by simp [at', Rests]) (by simp [at', Starts])
      (by simp [Follows])
    exact ⟨inv.kept, inv.running, lists_same inv.lists ⟨rfl, rfl, rfl, rfl, rfl, rfl⟩, { jobs with }, joins⟩
  case joinWoken =>
    have made := inv.jobs.created (t := t) (by simp [at'])
    have jobs : Jobs (p.goto t .clearFunc) := jobs_move inv.jobs (by simp [at']) (by simp [at', Rests]) (by simp [at', Starts])
      (by simp [Follows])
    exact ⟨inv.kept, inv.running, lists_same inv.lists ⟨rfl, rfl, rfl, rfl, rfl, rfl⟩, { jobs with },
      joins_reset inv.joins made at'⟩
  case clearFunc =>
    have made := inv.jobs.created (t := t) (by simp [at'])
    have joins : Joins (p.goto t .lockList) := joins_goto inv.joins made (by simp [at', Apart]) (by simp [Apart])
    exact ⟨inv.kept, inv.running, lists_same inv.lists ⟨rfl, rfl, rfl, rfl, rfl, rfl⟩, jobs_clearFunc inv.jobs at',
      { joins with }⟩
  case lockList =>
    rw [if_pos inv.kept] at ran
    cases ran
    have made := inv.jobs.created (t := t) (by simp [at'])
    obtain ⟨call, serves, _⟩ := phase_follows (inv.jobs.phase t made) (by simp [at', Rests, Starts])
    obtain ⟨available, inUse, lists⟩ := inv.lists
    obtain ⟨rest, result, after⟩ := returnToPool_lists lists inv.running ((lists.busy t).mpr ⟨made, by simp [serves]⟩)
    have joins : Joins (p.goto t .testAgain) := joins_goto inv.joins made (by simp [at', Apart]) (by simp [Apart])
    have jobs := jobs_returned inv.jobs at'
    have relinked := relinked_trans (relinked_removeInUse p t) (relinked_makeAvailable (removeInUse p t) t)
    obtain ⟨_, _, _, _, same⟩ := relinked
    rw [result, same] at after ⊢
    exact ⟨inv.kept, inv.running, ⟨_, _, after⟩, { jobs with }, { joins with }⟩
  case testAgain =>
    rw [if_neg running]
    refine inv_goto inv (by simp [at']) (jobs_move inv.jobs (by simp [at']) ?_ ?_ ?_) (by simp [at', Apart]) (by simp [Apart])
    · simp [Rests]
    · simp [Starts]
    · simp [at', Follows]

/-- A function returns. -/
private theorem inv_returns {value : V} (inv : Inv p) (ran : functionReturns p t value = some p') : Inv p' := by
  unfold functionReturns at ran
  cases at' : p.place t <;> rw [at'] at ran <;> try cases ran
  case running call =>
    have made := inv.jobs.created (t := t) (by simp [at'])
    have apart : Apart (if p.isDetached then .clearFunc else .lockJoinState) := by split <;> simp [Apart]
    have joins := joins_goto inv.joins made (by simp [at', Apart]) apart
    have jobs : Jobs (p.goto t (if p.isDetached then .clearFunc else .lockJoinState)) :=
      jobs_move inv.jobs (by simp [at']) (by simp [at', Rests]) (by simp [at', Starts]) (by split <;> simp [Follows])
    exact ⟨inv.kept, inv.running, lists_same inv.lists ⟨rfl, rfl, rfl, rfl, rfl, rfl⟩, { jobs with }, { joins with }⟩

/-- A thread that is joined goes on when it waits. -/
private theorem inv_joinedThread {j call : Nat} (inv : Inv p) (joins : Joins (joinedThread p j t call))
    (at' : p.place t = .joinWait ∨ p.place t = .joinWoken) : Inv (joinedThread p j t call) := by
  have present : p.place t ≠ .absent := by rcases at' with at' | at' <;> simp [at']
  have jobs : Jobs (p.goto t .joinWoken) := jobs_move inv.jobs present
    (by rcases at' with at' | at' <;> simp [at', Rests]) (by rcases at' with at' | at' <;> simp [at', Starts])
    (by simp [Follows])
  exact ⟨inv.kept, inv.running, lists_same inv.lists ⟨rfl, rfl, rfl, rfl, rfl, rfl⟩, { jobs with }, joins⟩

/-- Each step of an undisturbed pool keeps the invariant. -/
theorem step_inv {a : Act V} (inv : Inv p) (calm : Undisturbed a) (ran : step p a = some p') : Inv p' := by
  cases a with
  | runThread created =>
    obtain ⟨⟨q, error⟩, run, rfl⟩ := Option.map_eq_some_iff.mp ran
    exact inv_runThread inv run
  | setFunction call => exact inv_setFunction inv ran
  | work t wakes => exact inv_mainLoop inv ran
  | returns t value => exact inv_returns inv ran
  | join j call wakes =>
    simp only [step] at ran
    split at ran
    · rename_i idle
      obtain ⟨given, ran⟩ := Option.ite_none_right_eq_some.mp ran
      have made := inv.jobs.made call (inv.jobs.handed call given)
      obtain ⟨joins, ⟨_, rfl, _⟩ | ⟨rfl, _⟩ | ⟨rfl, finished⟩⟩ := join_cases inv.joins made idle ⟨rfl, given⟩ ran
      · exact { inv with joins := joins, lists := lists_same inv.lists ⟨rfl, rfl, rfl, rfl, rfl, rfl⟩, jobs := { inv.jobs with } }
      · exact { inv with joins := joins, lists := lists_same inv.lists ⟨rfl, rfl, rfl, rfl, rfl, rfl⟩, jobs := { inv.jobs with } }
      · exact inv_joinedThread inv joins (finished_phase (inv.joins.phase _) (by tauto)).1
    · cases ran
  | joinAgain j wakes =>
    simp only [step] at ran
    split at ran
    · rename_i thread call woken
      obtain ⟨newThread, given⟩ := inv.joins.woken j thread call woken
      have made := inv.jobs.made call (inv.jobs.handed call given)
      rw [newThread] at made
      obtain ⟨finished, rfl, joins⟩ := joinAfterWait_cases inv.joins made woken ran
      exact inv_joinedThread inv joins (finished_phase (inv.joins.phase _) (by tauto)).1
    · cases ran
  | destroy | wakeStart | wakeJoin | wakeJoiner => exact calm.elim

end

/-- Every pool that `threadPool_create` makes satisfies the invariant. -/
theorem create_inv (isDetached : Bool) (initialSize : Nat) :
    Inv (threadPoolCreate isDetached initialSize : SThreadPool V) := by
  obtain ⟨available, lists⟩ := (create_pool_lists (V := V) isDetached initialSize).1
  suffices rest : (threadPoolCreate isDetached initialSize : SThreadPool V).destroyer = .notCalled ∧
      (threadPoolCreate isDetached initialSize : SThreadPool V).isShuttingDown = false ∧
      Jobs (threadPoolCreate isDetached initialSize : SThreadPool V) ∧
      Joins (threadPoolCreate isDetached initialSize : SThreadPool V) from
    ⟨rest.1, rest.2.1, ⟨available, [], lists⟩, rest.2.2.1, rest.2.2.2⟩
  clear lists
  induction initialSize with
  | zero =>
    refine ⟨rfl, rfl, ⟨?_, fun _ _ => ⟨rfl, rfl⟩, ?_, ?_, ?_, ?_, List.nodup_nil, ?_⟩, ⟨?_, fun _ _ => rfl, ?_, ?_, ?_⟩⟩ <;>
      simp [threadPoolCreate, empty, JoinPhase, Apart, NoneWoken]
  | succ initialSize ih =>
    obtain ⟨kept, running, jobs, joins⟩ := ih
    have relinked := relinked_makeAvailable
      (threadPoolThreadCreate (threadPoolCreate isDetached initialSize : SThreadPool V)).2
      (threadPoolThreadCreate (threadPoolCreate isDetached initialSize : SThreadPool V)).1
    refine ⟨?_, ?_, jobs_relinked (jobs_create jobs) relinked, joins_relinked (joins_create joins) relinked⟩
    · obtain ⟨_, _, _, _, same⟩ := relinked
      rw [threadPoolCreate]
      simp only [same]
      exact kept
    · obtain ⟨_, _, _, _, same⟩ := relinked
      rw [threadPoolCreate]
      simp only [same]
      exact running

/-- No pool thread can go on, no function returns, and no call of `threadPool_runThread`
    is between its two sections. -/
def Quiet (p : SThreadPool V) : Prop :=
  (∀ t wakes, threadPoolThreadMainLoop p t wakes = none) ∧ (∀ t value, functionReturns p t value = none) ∧
    ∀ call, threadPoolSetFunction p call = none

/-- The lists are linked in both directions and share out the threads. A thread that is
    handed out is not in use. A function is called once at most, by the thread that was
    returned for it, and it has been called when nothing is left to do. -/
structure Bookkept (p : SThreadPool V) : Prop where
  lists : ∃ available inUse, Linked p.next p.prev p.firstAvailableThread available ∧
    Linked p.next p.prev p.firstThreadInUse inUse ∧ (∀ t, t ∈ available ∨ t ∈ inUse ↔ t < p.created) ∧
    ∀ t ∈ available, t ∉ inUse
  unused : ∀ created p', threadPoolRunThread p created = some (p', none) →
    ∀ inUse, Linked p.next p.prev p.firstThreadInUse inUse → p'.newThread p.calls ∉ inUse
  own : ∀ call t, (call, t) ∈ p.executed → call < p.calls ∧ t = p.newThread call
  once : (p.executed.map Prod.fst).Nodup
  every : Quiet p → ∀ call < p.calls, (call, p.newThread call) ∈ p.executed

section
variable {p p' : SThreadPool V} {t : Nat}

/-- A thread that was not called yet can go on, unless it waits for its start. -/
private theorem mainLoop_some (ready : Rests (p.place t) ∨ Starts (p.place t)) (waits : p.place t ≠ .startWait) :
    threadPoolThreadMainLoop p t .nobody ≠ none := by
  unfold threadPoolThreadMainLoop
  rcases ready with (at' | at' | at' | at') | (at' | at' | at' | at' | at')
  · simp [at']
  · simp [at']
  · simp [at']
  · exact absurd at' waits
  · simp [at']
  · simp [at']
  · simp [at']
  · simp [at']
  · simp [at']

private theorem quiet_executed (inv : Inv p) (quiet : Quiet p) {call : Nat} (below : call < p.calls) :
    (call, p.newThread call) ∈ p.executed := by
  obtain ⟨noStep, _, noSet⟩ := quiet
  suffices ran : Ran p call from (inv.jobs.ran ran).2.1
  by_contra new
  have mine := (inv.jobs.done call below).resolve_right new
  rcases inv.jobs.phase _ (inv.jobs.made call below) with ⟨idle, _⟩ | ⟨other, serves, working⟩
  · rw [idle] at mine
    cases mine
  · rw [serves] at mine
    cases mine
    rcases working with ⟨_, pending, _, rests⟩ | ⟨_, _, _, starts⟩ | ⟨old, _⟩
    · by_cases waits : p.place (p.newThread call) = .startWait
      · have set := noSet call
        rw [threadPoolSetFunction, if_pos ⟨below, pending, by simp [waits]⟩] at set
        cases set
      · exact mainLoop_some (.inl rests) waits (noStep _ _)
    · refine mainLoop_some (.inr starts) ?_ (noStep _ _)
      rcases starts with at' | at' | at' | at' | at' <;> simp [at']
    · exact new old

theorem Inv.bookkept (inv : Inv p) : Bookkept p where
  lists := by
    obtain ⟨available, inUse, lists⟩ := inv.lists
    refine ⟨available, inUse, lists.linked, lists.linkedInUse, fun t => ?_, fun t first second => ?_⟩
    · rw [lists.free, lists.busy]
      tauto
    · exact ((lists.busy t).mp second).2 ((lists.free t).mp first).2
  unused := by
    intro created p' ran inUse listed
    obtain ⟨available, all, lists⟩ := inv.lists
    obtain rfl : inUse = all := segment_unique listed lists.linkedInUse
    rcases runThread_cases inv.running ran with ⟨_, error⟩ | ⟨t, _, first, rfl⟩ | ⟨_, rfl⟩
    · exact absurd rfl error
    · have callsIs : (takeFirst p t).calls = p.calls := by
        obtain ⟨_, _, _, _, same⟩ := relinked_takeFirst p t
        rw [same]
      have threadIs : (handOut (takeFirst p t) t).newThread p.calls = t := by
        rw [← callsIs]
        exact Function.update_self ..
      rw [threadIs]
      obtain ⟨rest, rfl, _⟩ := handOut_available lists first
      intro member
      exact ((lists.busy t).mp member).2 ((lists.free t).mp List.mem_cons_self).2
    · have threadIs : (handOut (threadPoolThreadCreate p).2 p.created).newThread p.calls = p.created := Function.update_self ..
      rw [threadIs]
      intro member
      exact Nat.lt_irrefl _ ((lists.busy _).mp member).1
  own := by
    intro call t member
    obtain ⟨below, same, _⟩ := inv.jobs.mine call t member
    exact ⟨below, same.symm⟩
  once := inv.jobs.once
  every := fun quiet _ below => quiet_executed inv quiet below

end

/-! ### What the steps of a run do -/

/-- The calls of `threadPool_runThread` and the functions that were called stay as they are. -/
def SameCalls (p p' : SThreadPool V) : Prop :=
  p'.calls = p.calls ∧ p'.newThread = p.newThread ∧ p'.returned = p.returned ∧ p'.executed = p.executed

/-- The thread that a call of `threadPool_runThread` hands out when it returns no error. -/
def handsOut (p : SThreadPool V) : Act V → List Nat
  | .runThread created =>
    match threadPoolRunThread p created with
    | some (after, none) => [after.newThread p.calls]
    | _ => []
  | _ => []

/-- The function that a pool thread calls, by the call that passed it, with the thread. -/
def callsFunction (p : SThreadPool V) : Act V → List (Nat × Nat)
  | .work t _ => if p.place t = .callFunc then (p.threadFunc t).toList.map fun call => (call, t) else []
  | _ => []

/-- The pool has a number for each call that handed out a thread, in their order, and knows the functions that were passed and the
    ones that its threads called. -/
structure Recorded (start : SThreadPool V) (acts : List (Act V)) (p : SThreadPool V) : Prop where
  handed : (List.range p.calls).map p.newThread = outputs step handsOut start acts
  passed : ∀ call, p.returned call = true ↔ .setFunction call ∈ acts
  called : p.executed = outputs step callsFunction start acts

section
variable {p p' : SThreadPool V} {t : Nat}

/-- A signal moves nobody but the thread itself. -/
theorem signal_place {wakes : Wakes} (ran : signalJoinStateCondition p t wakes = some p') :
    SameCalls p p' ∧ ∀ u ≠ t, p'.place u = p.place u := by
  cases wakes with
  | nobody =>
    obtain ⟨_, same⟩ := Option.ite_none_right_eq_some.mp ran
    cases same
    exact ⟨⟨rfl, rfl, rfl, rfl⟩, fun _ _ => rfl⟩
  | poolThread =>
    obtain ⟨_, same⟩ := Option.ite_none_right_eq_some.mp ran
    cases same
    exact ⟨⟨rfl, rfl, rfl, rfl⟩, fun _ other => Function.update_of_ne other ..⟩
  | joiner j =>
    obtain ⟨_, same⟩ := Option.ite_none_right_eq_some.mp ran
    cases same
    exact ⟨⟨rfl, rfl, rfl, rfl⟩, fun _ _ => rfl⟩

/-- The thread moves from a place to another without a function. -/
def Moves (p p' : SThreadPool V) (t : Nat) : Prop :=
  SameCalls p p' ∧
    ((∀ call, p.place t ≠ .running call) ∧ ∀ call, p'.place t ≠ .running call) ∧ ∀ u ≠ t, p'.place u = p.place u

theorem moves_goto {q : SThreadPool V} {place : Place}
    (same : SameCalls p q) (others : ∀ u ≠ t, q.place u = p.place u)
    (before : ∀ call, p.place t ≠ .running call) (behind : ∀ call, place ≠ .running call) : Moves p (q.goto t place) t := by
  refine ⟨same, ⟨before, fun call => ?_⟩, fun u other => ?_⟩
  · change Function.update q.place t place t ≠ _
    rw [Function.update_self]
    exact behind call
  · change Function.update q.place t place u = _
    rw [Function.update_of_ne other, others u other]

/-- A step of a pool thread calls a function or has nothing to do with one. -/
theorem work_cases {wakes : Wakes} (ran : threadPoolThreadMainLoop p t wakes = some p') :
    (p.place t = .callFunc ∧ p' = callThreadFunc p t) ∨ Moves p p' t := by
  have same : ∀ (place : Place), (∀ call, p.place t ≠ .running call) → (∀ call, place ≠ .running call) →
      some (p.goto t place) = some p' → Moves p p' t := by
    rintro place before behind ⟨⟩
    exact moves_goto ⟨rfl, rfl, rfl, rfl⟩ (fun _ _ => rfl) before behind
  unfold threadPoolThreadMainLoop at ran
  split at ran
  · rename_i at'
    exact .inr (same _ (by simp [at']) (by split <;> simp) ran)
  · rename_i at'
    exact .inr (same _ (by simp [at']) (by simp) ran)
  · rename_i at'
    exact .inr (same _ (by simp [at']) (by simp) ran)
  · rename_i at'
    exact .inr (same _ (by simp [at']) (by split <;> simp) ran)
  · rename_i at'
    cases ran
    exact .inl ⟨at', rfl⟩
  · rename_i at'
    obtain ⟨q, signalled, rfl⟩ := Option.map_eq_some_iff.mp ran
    obtain ⟨unchanged, others⟩ := signal_place signalled
    right
    split
    · exact moves_goto (q := q.setState t .runningUnjoined) unchanged others (by simp [at']) (by simp)
    · exact moves_goto unchanged others (by simp [at']) (by simp)
  · rename_i at'
    cases ran
    exact .inr (moves_goto (q := p.setState t .runningUnjoined) ⟨rfl, rfl, rfl, rfl⟩ (fun _ _ => rfl) (by simp [at']) (by simp))
  · rename_i at'
    cases ran
    exact .inr (moves_goto (q := { p with threadFunc := Function.update p.threadFunc t none }) ⟨rfl, rfl, rfl, rfl⟩ (fun _ _ => rfl)
      (by simp [at']) (by simp))
  · rename_i at'
    obtain ⟨_, ran⟩ := Option.ite_none_right_eq_some.mp ran
    unfold returnToPool at ran
    split at ran
    · exact .inr (same _ (by simp [at']) (by simp) ran)
    · split at ran
      · exact .inr (same _ (by simp [at']) (by simp) ran)
      · obtain ⟨_, _, _, _, removed⟩ := relinked_removeInUse p t
        obtain ⟨_, _, _, _, added⟩ := relinked_makeAvailable (removeInUse p t) t
        cases ran
        refine .inr (moves_goto (q := { threadPoolMakeAvailable (removeInUse p t) t with
          serves := Function.update p.serves t none }) ?_ (fun u _ => ?_) (by simp [at']) (by simp))
        · rw [added, removed]
          exact ⟨rfl, rfl, rfl, rfl⟩
        · rw [added, removed]
  · rename_i at'
    exact .inr (same _ (by simp [at']) (by split <;> simp) ran)
  all_goals cases ran

/-- What one step records. -/
def Records (p : SThreadPool V) (a : Act V) (p' : SThreadPool V) : Prop :=
  (List.range p'.calls).map p'.newThread = (List.range p.calls).map p.newThread ++ handsOut p a ∧
    p'.executed = p.executed ++ callsFunction p a ∧
      ∀ call, p'.returned call = true ↔ p.returned call = true ∨ a = .setFunction call

theorem sameCalls_records {a : Act V} (same : SameCalls p p') (hands : handsOut p a = []) (calls : callsFunction p a = [])
    (passes : ∀ call, a ≠ .setFunction call) : Records p a p' := by
  obtain ⟨callsIs, threadIs, returnedIs, executedIs⟩ := same
  refine ⟨by rw [callsIs, threadIs, hands, List.append_nil], by rw [executedIs, calls, List.append_nil], fun call => ?_⟩
  rw [returnedIs, or_iff_left (passes call)]

private theorem handOut_records {q : SThreadPool V} {created : Bool} (same : SameCalls p q)
    (ran : threadPoolRunThread p created = some (handOut q t, none)) : Records p (.runThread created) (handOut q t) := by
  obtain ⟨callsIs, threadIs, returnedIs, executedIs⟩ := same
  obtain ⟨_, _, _, _, added⟩ := relinked_addInUse q t
  have after : SameCalls { q with calls := q.calls + 1, newThread := Function.update q.newThread q.calls t } (handOut q t) := by
    rw [handOut, added]
    exact ⟨rfl, rfl, rfl, rfl⟩
  obtain ⟨callsNow, threadNow, returnedNow, executedNow⟩ := after
  have hands : handsOut p (.runThread created) = [t] := by
    simp only [handsOut, ran, threadNow, callsIs, Function.update_self]
  refine ⟨?_, ?_, fun call => ?_⟩
  · rw [callsNow, threadNow, hands]
    simp only [callsIs, threadIs, List.range_succ, List.map_append, List.map_cons, List.map_nil, Function.update_self]
    congr 1
    refine List.map_congr_left fun call below => ?_
    rw [Function.update_of_ne (Nat.ne_of_lt (List.mem_range.mp below))]
  · rw [executedNow, show callsFunction p (.runThread created) = [] from rfl, List.append_nil]
    exact executedIs
  · rw [returnedNow, or_iff_left (by simp)]
    exact Iff.of_eq (congrArg (fun returned => returned call = true) returnedIs)

/-- Each step of an undisturbed pool records what it does. -/
theorem step_records {a : Act V} (inv : Inv p) (calm : Undisturbed a) (ran : step p a = some p') : Records p a p' := by
  cases a with
  | runThread created =>
    obtain ⟨⟨q, error⟩, taken, rfl⟩ := Option.map_eq_some_iff.mp ran
    rcases runThread_cases inv.running taken with ⟨rfl, failed⟩ | ⟨t, rfl, _, rfl⟩ | ⟨rfl, rfl⟩
    · refine sameCalls_records ⟨rfl, rfl, rfl, rfl⟩ ?_ rfl (by simp)
      cases error with
      | none => exact absurd rfl failed
      | some text => simp only [handsOut, taken]
    · refine handOut_records ?_ taken
      obtain ⟨_, _, _, _, same⟩ := relinked_takeFirst p t
      rw [same]
      exact ⟨rfl, rfl, rfl, rfl⟩
    · exact handOut_records (q := (threadPoolThreadCreate p).2) ⟨rfl, rfl, rfl, rfl⟩ taken
  | setFunction call =>
    obtain ⟨_, same⟩ := Option.ite_none_right_eq_some.mp ran
    cases same
    have frame : SameCalls p (signalStartCondition { p with threadFunc := Function.update p.threadFunc (p.newThread call) (some call) }
        (p.newThread call)) := by
      unfold signalStartCondition
      split <;> exact ⟨rfl, rfl, rfl, rfl⟩
    obtain ⟨callsIs, threadIs, _, executedIs⟩ := frame
    refine ⟨?_, ?_, fun other => ?_⟩
    · rw [show handsOut p (.setFunction call) = [] from rfl, List.append_nil]
      exact congrArg₂ (fun calls newThread => (List.range calls).map newThread) callsIs threadIs
    · rw [show callsFunction p (.setFunction call) = [] from rfl, List.append_nil]
      exact executedIs
    · change Function.update p.returned call true other = true ↔ _
      by_cases own : other = call
      · simp [own]
      · rw [Function.update_of_ne own, or_iff_left fun same => own (Act.setFunction.inj same).symm]
  | work t wakes =>
    have hands : handsOut p (.work t wakes) = [] := rfl
    by_cases at' : p.place t = .callFunc
    · have calls : callsFunction p (.work t wakes) = (p.threadFunc t).toList.map fun call => (call, t) := if_pos at'
      obtain rfl : callThreadFunc p t = p' := by simpa [step, threadPoolThreadMainLoop, at'] using ran
      rw [callThreadFunc, if_pos (callFunc_sound inv at')]
      cases func : p.threadFunc t with
      | none => exact sameCalls_records ⟨rfl, rfl, rfl, rfl⟩ hands (by rw [calls, func]; rfl) (by simp)
      | some call =>
        refine ⟨by rw [hands, List.append_nil]; rfl, by rw [calls, func]; rfl, fun other => ?_⟩
        rw [or_iff_left (by simp)]
        rfl
    · rcases work_cases ran with ⟨now, _⟩ | ⟨same, _⟩
      · exact absurd now at'
      · exact sameCalls_records same hands (if_neg at') (by simp)
  | returns t value =>
    simp only [step, functionReturns] at ran
    split at ran
    · cases ran
      exact sameCalls_records ⟨rfl, rfl, rfl, rfl⟩ rfl rfl (by simp)
    · cases ran
  | join j call wakes =>
    simp only [step] at ran
    split at ran
    · rename_i idle
      obtain ⟨given, ran⟩ := Option.ite_none_right_eq_some.mp ran
      have made := inv.jobs.made call (inv.jobs.handed call given)
      obtain ⟨_, ⟨_, rfl, _⟩ | ⟨rfl, _⟩ | ⟨rfl, _⟩⟩ := join_cases inv.joins made idle ⟨rfl, given⟩ ran
      all_goals exact sameCalls_records ⟨rfl, rfl, rfl, rfl⟩ rfl rfl (by simp)
    · cases ran
  | joinAgain j wakes =>
    simp only [step] at ran
    split at ran
    · rename_i thread call woken
      obtain ⟨newThread, given⟩ := inv.joins.woken j thread call woken
      have made := inv.jobs.made call (inv.jobs.handed call given)
      rw [newThread] at made
      obtain ⟨_, rfl, _⟩ := joinAfterWait_cases inv.joins made woken ran
      exact sameCalls_records ⟨rfl, rfl, rfl, rfl⟩ rfl rfl (by simp)
    · cases ran
  | destroy | wakeStart | wakeJoin | wakeJoiner => exact calm.elim

private theorem run_passes {start : SThreadPool V} {acts : List (Act V)} (inv : Inv start) (calm : ∀ a ∈ acts, Undisturbed a)
    (ran : run step start acts = some p) (call : Nat) :
    p.returned call = true ↔ start.returned call = true ∨ .setFunction call ∈ acts := by
  induction acts generalizing start with
  | nil =>
    cases ran
    simp
  | cons a rest ih =>
    obtain ⟨m, stepped, remaining⟩ := run_cons.mp ran
    obtain ⟨_, _, passes⟩ := step_records inv (calm a (by simp)) stepped
    rw [ih (step_inv inv (calm a (by simp)) stepped) (fun b member => calm b (by simp [member])) remaining, passes call,
      List.mem_cons, or_assoc, @eq_comm _ a]

end

theorem create_empty (isDetached : Bool) (initialSize : Nat) : let p : SThreadPool V := threadPoolCreate isDetached initialSize
    p.calls = 0 ∧ p.executed = [] ∧ ∀ call, p.returned call = false := by
  induction initialSize with
  | zero => exact ⟨rfl, rfl, fun _ => rfl⟩
  | succ initialSize ih =>
    obtain ⟨_, _, _, _, same⟩ := relinked_makeAvailable
      (threadPoolThreadCreate (threadPoolCreate isDetached initialSize : SThreadPool V)).2
      (threadPoolThreadCreate (threadPoolCreate isDetached initialSize : SThreadPool V)).1
    simp only [threadPoolCreate, same]
    exact ih

/-- After any steps of `threadPool_runThread`, of the pool threads and of joins, the lists and the functions of a pool are kept, and
    the calls and functions are those of the steps. -/
theorem pool_bookkept {isDetached : Bool} {initialSize : Nat} {acts : List (Act V)} {p : SThreadPool V}
    (calm : ∀ a ∈ acts, Undisturbed a) (ran : run step (threadPoolCreate isDetached initialSize) acts = some p) :
    Bookkept p ∧ Recorded (threadPoolCreate isDetached initialSize) acts p := by
  have created := create_inv (V := V) isDetached initialSize
  have guarded : Guarded step (fun _ => Undisturbed) (threadPoolCreate isDetached initialSize) acts :=
    guarded_forall fun a member _ => calm a member
  have inv : Inv p := guarded_run Inv (fun _ _ _ inv calm ran => step_inv inv calm ran) created guarded ran
  obtain ⟨noCalls, nothing, nobody⟩ := create_empty (V := V) isDetached initialSize
  refine ⟨inv.bookkept, ?_, fun call => ?_, ?_⟩
  · have records := run_outputs (fun p : SThreadPool V => (List.range p.calls).map p.newThread)
      (fun _ _ _ inv calm ran => ⟨step_inv inv calm ran, (step_records inv calm ran).1⟩) created guarded ran
    rwa [noCalls, List.range_zero, List.map_nil, List.nil_append] at records
  · rw [run_passes created calm ran call, nobody call]
    simp
  · have records := run_outputs SThreadPool.executed
      (fun _ _ _ inv calm ran => ⟨step_inv inv calm ran, (step_records inv calm ran).2.1⟩) created guarded ran
    rwa [nothing, List.nil_append] at records

/-- One thread is handed out twice, and a second one is created in between. -/
private def handedOutTwice : List (Act Nat) :=
  [.runThread true, .setFunction 0, .work 0 .nobody, .runThread true, .work 0 .nobody, .work 0 .nobody, .returns 0 5,
    .work 0 .nobody, .work 0 .nobody, .runThread true]

theorem pool_bookkept_twice : ∃ p, run step (threadPoolCreate true 1) handedOutTwice = some p ∧ p.calls = 3 ∧ p.executed = [(0, 0)] ∧
    Bookkept p ∧ Recorded (threadPoolCreate true 1) handedOutTwice p := by
  obtain ⟨p, ran, calls, executed⟩ : ∃ p, run step (threadPoolCreate true 1) handedOutTwice = some p ∧ p.calls = 3 ∧
      p.executed = [(0, 0)] := ⟨_, rfl, rfl, rfl⟩
  refine ⟨p, ran, calls, executed, pool_bookkept ?_ ran⟩
  simp [handedOutTwice, Undisturbed]

end VoxiUtil.ThreadPoolBookkeeping
