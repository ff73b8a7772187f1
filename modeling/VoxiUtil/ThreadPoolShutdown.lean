import VoxiUtil.Runs
import VoxiUtil.ThreadPool

/-!
The end of a thread pool. `threadPool_destroy` joins the pool threads with
`threadListMutex` taken, so a thread that still has to put itself back on the list
waits for it for ever; and it signals an available thread without a look at whether
the thread waits yet.
-/
namespace VoxiUtil.ThreadPoolShutdown
open VoxiUtil.Runs VoxiUtil.ThreadPool
universe u
variable {V : Type u}

/-- The destroyer waits in `pthread_join` for the thread. -/
def Joins (p : SThreadPool V) (t : Nat) : Prop := p.destroyer = .joiningAvailable t ∨ p.destroyer = .joiningInUse t

/-- The thread waits for a start signal that was sent: that of `threadPool_destroy`, or
    that of `threadPool_runThread`, which sets the function in the same section. -/
def MissedStart (p : SThreadPool V) (t : Nat) : Prop :=
  p.place t = .startWait ∧ (p.destroyer = .joiningAvailable t ∨ p.threadFunc t ≠ none)

/-- The destroyer, which has `threadListMutex`, waits for a thread that waits for this
    mutex or for a signal that was sent. -/
def Deadlocked (p : SThreadPool V) : Prop := ∃ t, Joins p t ∧ (p.place t = .lockList ∨ MissedStart p t)

/-- The thread found the pool not shutting down, and has not put itself back since. -/
def Busy : Place → Prop
  | .callFunc | .running _ | .lockJoinState | .joinWait | .joinWoken | .clearFunc | .lockList => True
  | _ => False

/-- The thread is about to wait for its start. -/
def BeforeWait : Place → Prop
  | .lockStart | .beforeStartWait => True
  | _ => False

/-- `isShuttingDown` is set while no pool thread is busy, and an available thread is
    signalled when it is not about to wait. -/
def Permitted (p : SThreadPool V) : Act V → Prop
  | .destroy =>
    (p.destroyer = .locked → ∀ t, ¬ Busy (p.place t)) ∧
    (p.destroyer = .loop → ∀ t, p.firstAvailableThread = some t → ¬ BeforeWait (p.place t))
  | _ => True

/-- What holds while each step is permitted. -/
structure Inv (p : SThreadPool V) : Prop where
  begun : p.destroyer = .notCalled ∨ p.destroyer = .locked ↔ p.isShuttingDown = false
  unset : ∀ t, p.place t = .beforeStartWait ∨ p.place t = .startWait → p.threadFunc t = none
  calm : p.isShuttingDown = true → ∀ t, ¬ Busy (p.place t)
  awake : ∀ t, p.destroyer = .joiningAvailable t → ¬ BeforeWait (p.place t) ∧ p.place t ≠ .startWait

/-- The destroyer has set `isShuttingDown` when it is past its first two places. -/
private theorem shutting_of {p : SThreadPool V} (inv : Inv p) (later : p.destroyer ≠ .notCalled ∧ p.destroyer ≠ .locked) :
    p.isShuttingDown = true := by
  rw [← Bool.not_eq_false, ← inv.begun]
  exact not_or.mpr later

theorem inv_safe {p : SThreadPool V} (inv : Inv p) : ¬ Deadlocked p := by
  rintro ⟨t, joins, stuck⟩
  have shutting : p.isShuttingDown = true := shutting_of inv (by rcases joins with joins | joins <;> simp [joins])
  rcases stuck with blocked | ⟨waits, sent⟩
  · apply inv.calm shutting t
    rw [blocked]
    trivial
  · rcases sent with sent | sent
    · exact (inv.awake t sent).2 waits
    · exact sent (inv.unset t (.inr waits))

/-- A step that leaves the threads where they are. -/
private theorem inv_same {p p' : SThreadPool V} (inv : Inv p) (places : p'.place = p.place)
    (destroyer : p'.destroyer = p.destroyer) (shutting : p'.isShuttingDown = p.isShuttingDown)
    (funcs : ∀ t, p.threadFunc t = none → p'.threadFunc t = none) : Inv p' := by
  refine ⟨?_, ?_, ?_, ?_⟩
  · rw [destroyer, shutting]
    exact inv.begun
  · intro t at'
    rw [places] at at'
    exact funcs t (inv.unset t at')
  · rw [places, shutting]
    exact inv.calm
  · rw [places, destroyer]
    exact inv.awake

/-- A thread goes to another place. -/
private theorem inv_goto {p : SThreadPool V} {t : Nat} {place : Place} (inv : Inv p)
    (unset : place = .beforeStartWait ∨ place = .startWait → p.threadFunc t = none)
    (calm : p.isShuttingDown = true → ¬ Busy place)
    (awake : p.isShuttingDown = true → ¬ BeforeWait (p.place t) ∧ p.place t ≠ .startWait →
      ¬ BeforeWait place ∧ place ≠ .startWait) : Inv (p.goto t place) := by
  refine ⟨inv.begun, ?_, ?_, ?_⟩
  · refine (Function.forall_update_iff p.place fun u at' =>
      at' = .beforeStartWait ∨ at' = .startWait → p.threadFunc u = none).mpr ⟨unset, fun u _ => inv.unset u⟩
  · intro shutting
    exact (Function.forall_update_iff p.place fun _ at' => ¬ Busy at').mpr ⟨calm shutting, fun u _ => inv.calm shutting u⟩
  · refine (Function.forall_update_iff p.place fun u at' =>
      p.destroyer = .joiningAvailable u → ¬ BeforeWait at' ∧ at' ≠ .startWait).mpr ⟨?_, fun u _ => inv.awake u⟩
    intro joining
    exact awake (shutting_of inv (by simp [joining])) (inv.awake t joining)

/-- A busy thread can go anywhere but before its start, since the pool is not shutting down. -/
private theorem inv_busy {p : SThreadPool V} {t : Nat} {place : Place} (inv : Inv p) (busy : Busy (p.place t))
    (later : place ≠ .beforeStartWait ∧ place ≠ .startWait) : Inv (p.goto t place) := by
  have calm : p.isShuttingDown = true → False := fun shutting => inv.calm shutting t busy
  refine inv_goto inv ?_ (fun shutting => (calm shutting).elim) (fun shutting => (calm shutting).elim)
  rintro (same | same)
  · exact absurd same later.1
  · exact absurd same later.2

/-- A function that is cleared stays so when one more is. -/
private theorem still_unset {funcs : Nat → Option Nat} (t : Nat) {u : Nat} (unset : funcs u = none) :
    Function.update funcs t none u = none := by
  by_cases same : u = t
  · rw [same, Function.update_self]
  · rw [Function.update_of_ne same, unset]

private theorem signal_inv {p p' : SThreadPool V} {t : Nat} {wakes : Wakes} (inv : Inv p)
    (ran : signalJoinStateCondition p t wakes = some p') : Inv p' := by
  rcases signalJoinStateCondition_cases ran with ⟨rfl, _⟩ | ⟨rfl, waits⟩ | ⟨j, _, rfl⟩
  · exact inv
  · exact inv_busy inv (by rw [waits]; trivial) (by simp)
  · exact inv_same inv rfl rfl rfl fun _ => id

private theorem signal_busy {p p' : SThreadPool V} {t u : Nat} {wakes : Wakes} (busy : Busy (p.place u))
    (ran : signalJoinStateCondition p t wakes = some p') : Busy (p'.place u) := by
  rcases signalJoinStateCondition_cases ran with ⟨rfl, _⟩ | ⟨rfl, _⟩ | ⟨j, _, rfl⟩
  · exact busy
  · have each := (Function.forall_update_iff p.place (a := t) (b := Place.joinWoken) fun v at' => v = u → Busy at').mpr
      ⟨fun _ => trivial, fun v _ same => same ▸ busy⟩
    exact each u rfl
  · exact busy

private theorem completeJoin_inv {p p' : SThreadPool V} {j thread call : Nat} {wakes : Wakes} (inv : Inv p)
    (ran : completeJoin p j thread call wakes = some p') : Inv p' := by
  have marked : Inv ((p.setJoiner j (.joined call (p.threadFuncResult thread))).setState thread .complete) :=
    inv_same inv rfl rfl rfl fun _ => id
  exact signal_inv marked ran

private theorem join_inv {p p' : SThreadPool V} {j thread call : Nat} {wakes : Wakes} (inv : Inv p)
    (ran : threadPoolThreadJoin p j thread call wakes = some p') : Inv p' := by
  unfold threadPoolThreadJoin at ran
  split at ran
  · cases ran
    exact inv_same inv rfl rfl rfl fun _ => id
  · split at ran
    · cases ran
      exact inv_same inv rfl rfl rfl fun _ => id
    · split at ran
      · cases ran
        exact inv_same inv rfl rfl rfl fun _ => id
      · exact completeJoin_inv inv ran

private theorem joinAfterWait_inv {p p' : SThreadPool V} {j thread call : Nat} {wakes : Wakes} (inv : Inv p)
    (ran : joinAfterWait p j thread call wakes = some p') : Inv p' := by
  unfold joinAfterWait at ran
  split at ran
  · exact completeJoin_inv inv ran
  · cases ran
    exact inv_same inv rfl rfl rfl fun _ => id

/-- The list surgery does not touch the places. -/
private theorem returnToPool_inv {p : SThreadPool V} {t : Nat} (inv : Inv p) (busy : Busy (p.place t)) :
    Inv (returnToPool p t) := by
  unfold returnToPool
  split
  · exact inv_busy inv busy (by simp)
  · split
    · exact inv_busy inv busy (by simp)
    · have relinked := relinked_trans (relinked_removeInUse p t) (relinked_makeAvailable (removeInUse p t) t)
      obtain ⟨next, prev, available, inUse, same⟩ := relinked
      rw [same]
      exact inv_busy (inv_same inv rfl rfl rfl fun _ => id) busy (by simp)

/-- A step of the main loop. -/
private theorem mainLoop_inv {p p' : SThreadPool V} {t : Nat} {wakes : Wakes} (inv : Inv p)
    (ran : threadPoolThreadMainLoop p t wakes = some p') : Inv p' := by
  unfold threadPoolThreadMainLoop at ran
  cases at' : p.place t <;> rw [at'] at ran <;> try cases ran
  case lockStart =>
    by_cases unset : p.threadFunc t = none
    · rw [if_pos unset]
      exact inv_goto inv (fun _ => unset) (fun _ => id) fun _ before => (before.1 (by rw [at']; trivial)).elim
    · rw [if_neg unset]
      exact inv_goto inv (by simp) (fun _ => id) (by simp [BeforeWait])
  case beforeStartWait =>
    exact inv_goto inv (fun _ => inv.unset t (.inl at')) (fun _ => id) fun _ before => (before.1 (by rw [at']; trivial)).elim
  case startWoken => exact inv_goto inv (by simp) (fun _ => id) (by simp [BeforeWait])
  case testShuttingDown =>
    by_cases shutting : p.isShuttingDown = true
    · rw [if_pos shutting]
      exact inv_goto inv (by simp) (fun _ => id) (by simp [BeforeWait])
    · rw [if_neg shutting]
      exact inv_goto inv (by simp) (fun set => absurd set shutting) (fun set => absurd set shutting)
  case callFunc =>
    have busy : Busy (p.place t) := by rw [at']; trivial
    unfold callThreadFunc
    split
    · split
      · exact inv_same (inv_busy inv busy (by simp)) rfl rfl rfl fun _ => id
      · exact inv_busy inv busy (by simp)
    · exact inv_busy inv busy (by simp)
  case lockJoinState =>
    obtain ⟨m, signalled, rfl⟩ := Option.map_eq_some_iff.mp ran
    have marked : Inv (p.setState t (finish (p.state t))) := inv_same inv rfl rfl rfl fun _ => id
    have kept := signal_inv marked signalled
    have busy : Busy (m.place t) := signal_busy (by change Busy (p.place t); rw [at']; trivial) signalled
    split
    · exact inv_busy (inv_same kept rfl rfl rfl fun _ => id) busy (by simp)
    · exact inv_busy kept busy (by simp)
  case joinWoken =>
    have busy : Busy (p.place t) := by rw [at']; trivial
    exact inv_busy (inv_same inv rfl rfl rfl fun _ => id) busy (by simp)
  case clearFunc =>
    have busy : Busy (p.place t) := by rw [at']; trivial
    exact inv_busy (inv_same inv rfl rfl rfl fun _ => still_unset t) busy (by simp)
  case lockList =>
    obtain ⟨_, same⟩ := Option.ite_none_right_eq_some.mp ran
    cases same
    exact returnToPool_inv inv (by rw [at']; trivial)
  case testAgain =>
    by_cases shutting : p.isShuttingDown = true
    · rw [if_pos shutting]
      exact inv_goto inv (by simp) (fun _ => id) (by simp [BeforeWait])
    · rw [if_neg shutting]
      exact inv_goto inv (by simp) (fun set => absurd set shutting) (fun set => absurd set shutting)

/-- A new thread waits for no signal yet. -/
private theorem create_inv {p : SThreadPool V} (inv : Inv p) (calm : p.isShuttingDown = false) :
    Inv (threadPoolThreadCreate p).2 := by
  have notShutting : p.isShuttingDown = true → False := by simp [calm]
  have started : Inv (p.goto p.created .lockStart) :=
    inv_goto inv (by simp) (fun set => (notShutting set).elim) (fun set => (notShutting set).elim)
  exact inv_same started rfl rfl rfl fun _ => still_unset p.created

private theorem handOut_inv {p : SThreadPool V} {t : Nat} (inv : Inv p) : Inv (handOut p t) := by
  obtain ⟨next, prev, available, inUse, same⟩ := relinked_addInUse p t
  rw [handOut, same]
  exact inv_same inv rfl rfl rfl fun _ => id

private theorem runThread_inv {p p' : SThreadPool V} {created : Bool} {error : Option String} (inv : Inv p)
    (ran : threadPoolRunThread p created = some (p', error)) : Inv p' := by
  unfold threadPoolRunThread at ran
  split at ran
  · cases ran
  · rename_i begun
    have calm : p.isShuttingDown = false := inv.begun.mp (.inl (not_not.mp begun))
    rw [if_neg (by simp [calm])] at ran
    split at ran
    · split at ran
      · cases ran
        exact handOut_inv (create_inv inv calm)
      · cases ran
        exact inv
    · rename_i theThread _
      cases ran
      obtain ⟨next, prev, available, inUse, same⟩ := relinked_takeFirst p theThread
      rw [same]
      exact handOut_inv (inv_same inv rfl rfl rfl fun _ => id)

/-- A function is set for a thread that does not wait for it. -/
private theorem inv_set {p : SThreadPool V} {t call : Nat} (inv : Inv p)
    (elsewhere : p.place t ≠ .beforeStartWait ∧ p.place t ≠ .startWait) :
    Inv { p with threadFunc := Function.update p.threadFunc t (some call) } := by
  refine ⟨inv.begun, ?_, inv.calm, inv.awake⟩
  intro u at'
  have other : u ≠ t := by
    rintro rfl
    exact at'.elim elsewhere.1 elsewhere.2
  change Function.update p.threadFunc t (some call) u = none
  rw [Function.update_of_ne other]
  exact inv.unset u at'

private theorem woken_inv {p : SThreadPool V} {t : Nat} (inv : Inv p) : Inv (p.goto t .startWoken) :=
  inv_goto inv (by simp) (fun _ => id) (by simp [BeforeWait])

private theorem setFunction_inv {p p' : SThreadPool V} {call : Nat} (inv : Inv p)
    (ran : threadPoolSetFunction p call = some p') : Inv p' := by
  obtain ⟨⟨_, _, holds⟩, same⟩ := Option.ite_none_right_eq_some.mp ran
  cases same
  unfold signalStartCondition
  by_cases waits : p.place (p.newThread call) = .startWait
  · rw [if_pos waits]
    have woken := woken_inv (t := p.newThread call) inv
    exact inv_same (inv_set (t := p.newThread call) woken (by simp [SThreadPool.goto])) rfl rfl rfl fun _ => id
  · rw [if_neg waits]
    exact inv_same (inv_set inv ⟨holds, waits⟩) rfl rfl rfl fun _ => id

/-- The destroyer goes on while the pool is shutting down. -/
private theorem inv_destroyer {p : SThreadPool V} {next : Destroyer} (inv : Inv p) (shutting : p.isShuttingDown = true)
    (later : next ≠ .notCalled ∧ next ≠ .locked)
    (awake : ∀ t, next = .joiningAvailable t → ¬ BeforeWait (p.place t) ∧ p.place t ≠ .startWait) :
    Inv { p with destroyer := next } := by
  refine ⟨?_, inv.unset, inv.calm, awake⟩
  simp only [shutting]
  exact iff_of_false (not_or.mpr later) (by simp)

/-- The thread that was joined is freed, and the loop goes on. -/
private theorem freed_inv {p : SThreadPool V} {t : Nat} (inv : Inv p) (shutting : p.isShuttingDown = true) :
    Inv { threadPoolThreadDestroy p t with destroyer := .loop } := by
  have absent : Inv (p.goto t .absent) := inv_goto inv (by simp) (fun _ => id) (by simp [BeforeWait])
  have freed : Inv (threadPoolThreadDestroy p t) := inv_same absent rfl rfl rfl fun _ => still_unset t
  exact inv_destroyer freed shutting (by simp) (by simp)

private theorem destroy_inv {p p' : SThreadPool V} (inv : Inv p) (permitted : Permitted p .destroy)
    (ran : threadPoolDestroy p = some p') : Inv p' := by
  unfold threadPoolDestroy at ran
  cases at' : p.destroyer with
  | notCalled =>
    rw [at'] at ran
    cases ran
    have open' := inv.begun.mp (.inl at')
    exact ⟨iff_of_true (.inr rfl) open', inv.unset, inv.calm, by simp⟩
  | locked =>
    rw [at'] at ran
    cases ran
    exact ⟨by simp, inv.unset, fun _ => permitted.1 at', by simp⟩
  | loop =>
    have shutting := shutting_of inv (by simp [at'])
    rw [at'] at ran
    simp only at ran
    split at ran <;> cases ran
    · rename_i theThread first
      have ready := permitted.2 at' theThread first
      unfold signalStartCondition
      by_cases waits : p.place theThread = .startWait
      · rw [if_pos waits]
        refine inv_destroyer (woken_inv inv) shutting (by simp) fun u joining => ?_
        cases joining
        simp [SThreadPool.goto, BeforeWait]
      · rw [if_neg waits]
        refine inv_destroyer inv shutting (by simp) fun u joining => ?_
        cases joining
        exact ⟨ready, waits⟩
    · exact inv_destroyer inv shutting (by simp) (by simp)
    · exact inv_destroyer inv shutting (by simp) (by simp)
  | joiningAvailable theThread =>
    rw [at'] at ran
    obtain ⟨_, same⟩ := Option.ite_none_right_eq_some.mp ran
    cases same
    exact inv_same (freed_inv inv (shutting_of inv (by simp [at']))) rfl rfl rfl fun _ => id
  | joiningInUse theThread =>
    rw [at'] at ran
    obtain ⟨_, same⟩ := Option.ite_none_right_eq_some.mp ran
    cases same
    exact inv_same (freed_inv inv (shutting_of inv (by simp [at']))) rfl rfl rfl fun _ => id
  | done =>
    rw [at'] at ran
    cases ran

/-- Each permitted step keeps the invariant. -/
theorem step_inv {p p' : SThreadPool V} {a : Act V} (inv : Inv p) (permitted : Permitted p a)
    (ran : step p a = some p') : Inv p' := by
  cases a with
  | runThread created =>
    obtain ⟨⟨q, error⟩, run, rfl⟩ := Option.map_eq_some_iff.mp ran
    exact runThread_inv inv run
  | setFunction call => exact setFunction_inv inv ran
  | work t wakes => exact mainLoop_inv inv ran
  | returns t value =>
    simp only [step, functionReturns] at ran
    split at ran
    · rename_i call running
      cases ran
      refine inv_busy (inv_same inv rfl rfl rfl fun _ => id) (by change Busy (p.place t); rw [running]; trivial) ?_
      split <;> simp
    · cases ran
  | join j call wakes =>
    simp only [step] at ran
    split at ran
    · obtain ⟨_, joined⟩ := Option.ite_none_right_eq_some.mp ran
      exact join_inv inv joined
    · cases ran
  | joinAgain j wakes =>
    simp only [step] at ran
    split at ran
    · exact joinAfterWait_inv inv ran
    · cases ran
  | destroy => exact destroy_inv inv permitted ran
  | wakeStart t =>
    obtain ⟨_, same⟩ := Option.ite_none_right_eq_some.mp ran
    cases same
    exact woken_inv inv
  | wakeJoin t =>
    obtain ⟨waits, same⟩ := Option.ite_none_right_eq_some.mp ran
    cases same
    exact inv_busy inv (by rw [waits]; trivial) (by simp)
  | wakeJoiner j =>
    simp only [step] at ran
    split at ran
    · exact signal_inv inv ran
    · cases ran

theorem create_pool_inv (isDetached : Bool) (initialSize : Nat) :
    Inv (threadPoolCreate isDetached initialSize : SThreadPool V) ∧
      (threadPoolCreate isDetached initialSize : SThreadPool V).isShuttingDown = false := by
  induction initialSize with
  | zero => exact ⟨⟨by simp [threadPoolCreate, empty], by simp [threadPoolCreate, empty], by simp [threadPoolCreate, empty],
      by simp [threadPoolCreate, empty]⟩, rfl⟩
  | succ initialSize ih =>
    have made := create_inv ih.1 ih.2
    obtain ⟨next, prev, available, inUse, same⟩ := relinked_makeAvailable
      (threadPoolThreadCreate (threadPoolCreate isDetached initialSize : SThreadPool V)).2
      (threadPoolThreadCreate (threadPoolCreate isDetached initialSize : SThreadPool V)).1
    rw [threadPoolCreate]
    simp only [same]
    exact ⟨inv_same made rfl rfl rfl fun _ => id, ih.2⟩

/-- The destruction of a pool does not deadlock, in no state of a run of any kind, when
    `isShuttingDown` is set while no thread is between its test of it and the end of its
    section on the lists, and no available thread that is signalled is still about to wait. -/
theorem destroy_safe {isDetached : Bool} {initialSize : Nat} {acts : List (Act V)}
    (permitted : Guarded step Permitted (threadPoolCreate isDetached initialSize) acts) :
    Visits step (fun p => ¬ Deadlocked p) (threadPoolCreate isDetached initialSize) acts :=
  visits_mono (fun _ inv => inv_safe inv)
    (guarded_visits (fun _ _ _ inv allowed ran => step_inv inv allowed ran) (create_pool_inv isDetached initialSize).1
      permitted)

/-- A thread that waits for its start when the pool is destroyed. -/
theorem destroy_safe_idle : Visits step (fun p => ¬ Deadlocked p) (threadPoolCreate true 1 : SThreadPool Unit)
    [.work 0 .nobody, .work 0 .nobody, .destroy, .destroy, .destroy, .work 0 .nobody] := by
  apply destroy_safe
  refine guarded_step trivial rfl ?_
  refine guarded_step trivial rfl ?_
  refine guarded_step ⟨fun at' => absurd at' (by decide), fun at' => absurd at' (by decide)⟩ rfl ?_
  refine guarded_step ⟨fun _ t => ?_, fun at' => absurd at' (by decide)⟩ rfl ?_
  · change ¬ Busy ((Function.update (Function.update (Function.update (fun _ => Place.absent) 0 .lockStart) 0
      .beforeStartWait) 0 .startWait : Nat → Place) t)
    by_cases same : t = 0
    · subst same
      exact id
    · rw [Function.update_of_ne same, Function.update_of_ne same, Function.update_of_ne same]
      exact id
  · refine ⟨⟨fun at' => absurd at' (by decide), fun _ t first => ?_⟩, fun _ _ => ⟨trivial, fun _ _ => trivial⟩⟩
    obtain rfl := Option.some.inj first
    exact id

/-- A function returns while the destroyer joins its thread; and a thread is signalled
    before it waits. -/
theorem destroy_deadlocks :
    (∃ p, run step (threadPoolCreate true 1 : SThreadPool Unit) [.work 0 .nobody, .work 0 .nobody, .runThread true,
        .setFunction 0, .work 0 .nobody, .work 0 .nobody, .work 0 .nobody, .destroy, .destroy, .destroy, .returns 0 (),
        .work 0 .nobody] = some p ∧ Deadlocked p) ∧
    ∃ p, run step (threadPoolCreate false 1 : SThreadPool Unit) [.destroy, .destroy, .destroy, .work 0 .nobody,
        .work 0 .nobody] = some p ∧ Deadlocked p :=
  ⟨⟨_, rfl, 0, .inr rfl, .inl rfl⟩, ⟨_, rfl, 0, .inl rfl, .inr ⟨rfl, .inl rfl⟩⟩⟩

end VoxiUtil.ThreadPoolShutdown
