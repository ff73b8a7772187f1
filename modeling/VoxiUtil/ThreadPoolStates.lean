import VoxiUtil.ThreadPool

/-!
The join states of pool threads. The thread and the joins on it wait on one condition,
and the state tells who does: at most one join while the function runs, and then the
thread itself.
-/
namespace VoxiUtil.ThreadPoolStates
open VoxiUtil.ThreadPool
universe u
variable {V : Type u}

/-- No join on the thread has been woken and not returned. -/
def NoneWoken (p : SThreadPool V) (t : Nat) : Prop := ∀ j call, p.joiner j ≠ .woken t call

/-- The thread does not wait for a join. -/
def Apart (place : Place) : Prop := place ≠ .joinWait ∧ place ≠ .joinWoken

/-- What the join state of a thread at `place` says: a thread that is running may have one
    join waiting for it; a finished thread waits, and its join, if there was one, is woken;
    and after the join the thread is woken. -/
def JoinPhase (p : SThreadPool V) (t : Nat) (place : Place) : Prop :=
  match p.state t with
  | .runningUnjoined => Apart place ∧ p.joinWaiters t = [] ∧ NoneWoken p t
  | .runningJoined =>
    Apart place ∧ (∃ j call, p.joinWaiters t = [j] ∧ p.joiner j = .waiting t call) ∧ NoneWoken p t
  | .finishedUnjoined => place = .joinWait ∧ p.joinWaiters t = [] ∧ NoneWoken p t
  | .finishedJoined =>
    place = .joinWait ∧ p.joinWaiters t = [] ∧ ∃ j, ∀ k, (∃ call, p.joiner k = .woken t call) ↔ k = j
  | .complete => place = .joinWoken ∧ p.joinWaiters t = [] ∧ NoneWoken p t

/-- The join states, and the threads that joins wait for. -/
structure Joins (p : SThreadPool V) : Prop where
  phase : ∀ t, JoinPhase p t (p.place t)
  fresh : ∀ t, p.created ≤ t → p.state t = .runningUnjoined
  waiting : ∀ j t call, p.joiner j = .waiting t call →
    j ∈ p.joinWaiters t ∧ p.newThread call = t ∧ p.returned call = true
  woken : ∀ j t call, p.joiner j = .woken t call → p.newThread call = t ∧ p.returned call = true
  sound : ∀ j, p.joiner j ≠ .aborted

section
variable {p p' : SThreadPool V} {t j : Nat} {place : Place}

/-- Another thread keeps its join phase while its own fields and the joins on it stay. -/
theorem joinPhase_frame {u : Nat} (phase : JoinPhase p u place) (state : p'.state u = p.state u)
    (waiters : p'.joinWaiters u = p.joinWaiters u)
    (joiners : ∀ k call, (p'.joiner k = .waiting u call ↔ p.joiner k = .waiting u call) ∧
      (p'.joiner k = .woken u call ↔ p.joiner k = .woken u call)) : JoinPhase p' u place := by
  have none : NoneWoken p u → NoneWoken p' u := fun before k call woken => before k call ((joiners k call).2.mp woken)
  unfold JoinPhase at phase ⊢
  rw [state, waiters]
  cases at' : p.state u <;> simp only [at'] at phase ⊢
  · exact ⟨phase.1, phase.2.1, none phase.2.2⟩
  · obtain ⟨apart, ⟨k, call, only, waits⟩, noneWoken⟩ := phase
    exact ⟨apart, ⟨k, call, only, (joiners k call).1.mpr waits⟩, none noneWoken⟩
  · exact ⟨phase.1, phase.2.1, none phase.2.2⟩
  · obtain ⟨waits, empty, k, only⟩ := phase
    refine ⟨waits, empty, k, fun l => ?_⟩
    rw [← only l]
    exact exists_congr fun call => (joiners l call).2
  · exact ⟨phase.1, phase.2.1, none phase.2.2⟩

/-- A step of a thread and of the joins on it. -/
theorem joins_step (joins : Joins p) (made : t < p.created)
    (same : p'.created = p.created ∧ p'.newThread = p.newThread ∧ p'.returned = p.returned)
    (others : ∀ u, u ≠ t → p'.place u = p.place u ∧ p'.state u = p.state u ∧ p'.joinWaiters u = p.joinWaiters u)
    (joiners : ∀ k u call, u ≠ t → (p'.joiner k = .waiting u call ↔ p.joiner k = .waiting u call) ∧
      (p'.joiner k = .woken u call ↔ p.joiner k = .woken u call))
    (phase : JoinPhase p' t (p'.place t))
    (waiting : ∀ k call, p'.joiner k = .waiting t call →
      k ∈ p'.joinWaiters t ∧ p.newThread call = t ∧ p.returned call = true)
    (woken : ∀ k call, p'.joiner k = .woken t call → p.newThread call = t ∧ p.returned call = true)
    (sound : ∀ k, p'.joiner k ≠ .aborted) : Joins p' := by
  obtain ⟨createdIs, newThreadIs, returnedIs⟩ := same
  refine ⟨?_, ?_, ?_, ?_, sound⟩
  · intro u
    by_cases mine : u = t
    · rw [mine]
      exact phase
    · obtain ⟨place, state, waiters⟩ := others u mine
      rw [place]
      exact joinPhase_frame (joins.phase u) state waiters fun k call => joiners k u call mine
  · intro u late
    rw [createdIs] at late
    have other : u ≠ t := by
      rintro rfl
      exact absurd made (Nat.not_lt.mpr late)
    rw [(others u other).2.1]
    exact joins.fresh u late
  · rw [newThreadIs, returnedIs]
    intro k u call waits
    by_cases mine : u = t
    · subst mine
      exact waiting k call waits
    · rw [(others u mine).2.2]
      exact joins.waiting k u call ((joiners k u call mine).1.mp waits)
  · rw [newThreadIs, returnedIs]
    intro k u call woke
    by_cases mine : u = t
    · subst mine
      exact woken k call woke
    · exact joins.woken k u call ((joiners k u call mine).2.mp woke)

/-- A step of a thread and of one join on it. -/
theorem joins_joiner {next : Joiner V} (joins : Joins p) (made : t < p.created)
    (same : p'.created = p.created ∧ p'.newThread = p.newThread ∧ p'.returned = p.returned)
    (others : ∀ u, u ≠ t → p'.place u = p.place u ∧ p'.state u = p.state u ∧ p'.joinWaiters u = p.joinWaiters u)
    (joiner : p'.joiner = Function.update p.joiner j next)
    (before : ∀ u call, u ≠ t → p.joiner j ≠ .waiting u call ∧ p.joiner j ≠ .woken u call)
    (after : ∀ u call, u ≠ t → next ≠ .waiting u call ∧ next ≠ .woken u call)
    (phase : JoinPhase p' t (p'.place t))
    (stays : ∀ k ∈ p.joinWaiters t, k ≠ j → k ∈ p'.joinWaiters t)
    (waiting : ∀ call, next = .waiting t call →
      j ∈ p'.joinWaiters t ∧ p.newThread call = t ∧ p.returned call = true)
    (woken : ∀ call, next = .woken t call → p.newThread call = t ∧ p.returned call = true)
    (sound : next ≠ .aborted) : Joins p' := by
  have mine : p'.joiner j = next := by rw [joiner, Function.update_self]
  have other : ∀ k, k ≠ j → p'.joiner k = p.joiner k := by
    intro k apart
    rw [joiner, Function.update_of_ne apart]
  refine joins_step joins made same others (fun k u c elsewhere => ?_) phase ?_ ?_ ?_
  · by_cases here : k = j
    · rw [here, mine]
      exact ⟨iff_of_false (after u c elsewhere).1 (before u c elsewhere).1,
        iff_of_false (after u c elsewhere).2 (before u c elsewhere).2⟩
    · rw [other k here]
      exact ⟨Iff.rfl, Iff.rfl⟩
  · intro k c waits
    by_cases here : k = j
    · rw [here, mine] at waits
      rw [here]
      exact waiting c waits
    · rw [other k here] at waits
      obtain ⟨listed, own⟩ := joins.waiting k t c waits
      exact ⟨stays k listed here, own⟩
  · intro k c woke
    by_cases here : k = j
    · rw [here, mine] at woke
      exact woken c woke
    · rw [other k here] at woke
      exact joins.woken k t c woke
  · intro k
    by_cases here : k = j
    · rw [here, mine]
      exact sound
    · rw [other k here]
      exact joins.sound k

theorem joinPhase_apart (phase : JoinPhase p t place) (apart : Apart place) :
    p.state t = .runningUnjoined ∧ p.joinWaiters t = [] ∧ NoneWoken p t ∨
    p.state t = .runningJoined ∧ (∃ k call, p.joinWaiters t = [k] ∧ p.joiner k = .waiting t call) ∧ NoneWoken p t := by
  unfold JoinPhase at phase
  cases at' : p.state t <;> simp only [at'] at phase
  · exact .inl ⟨rfl, phase.2⟩
  · exact .inr ⟨rfl, phase.2⟩
  · exact absurd phase.1 apart.1
  · exact absurd phase.1 apart.1
  · exact absurd phase.1 apart.2

theorem joinPhase_move {place' : Place} (phase : JoinPhase p t place) (before : Apart place) (after : Apart place') :
    JoinPhase p t place' := by
  unfold JoinPhase
  rcases joinPhase_apart phase before with ⟨state, rest⟩ | ⟨state, rest⟩
  · simp only [state]
    exact ⟨after, rest⟩
  · simp only [state]
    exact ⟨after, rest⟩

/-- A thread moves without a look at its joins. -/
theorem joins_goto (joins : Joins p) (made : t < p.created) (before : Apart (p.place t)) (after : Apart place) :
    Joins (p.goto t place) := by
  refine joins_step joins made ⟨rfl, rfl, rfl⟩ (fun u other => ⟨Function.update_of_ne other .., rfl, rfl⟩)
    (fun _ _ _ _ => ⟨Iff.rfl, Iff.rfl⟩) ?_ (fun k => joins.waiting k t) (fun k => joins.woken k t) joins.sound
  have at' : (p.goto t place).place t = place := Function.update_self ..
  rw [at']
  exact joinPhase_frame (joinPhase_move (joins.phase t) before after) rfl rfl fun _ _ => ⟨Iff.rfl, Iff.rfl⟩

/-- A thread that no join waits for is finished. -/
private theorem joins_finishedUnjoined (joins : Joins p) (made : t < p.created) (empty : p.joinWaiters t = [])
    (none : NoneWoken p t) : Joins ((p.setState t .finishedUnjoined).goto t .joinWait) := by
  refine joins_step joins made ⟨rfl, rfl, rfl⟩ (fun u other => ?_) (fun _ _ _ _ => ⟨Iff.rfl, Iff.rfl⟩) ?_
    (fun k => joins.waiting k t) (fun k => joins.woken k t) joins.sound
  · exact ⟨Function.update_of_ne other .., Function.update_of_ne other .., rfl⟩
  · unfold JoinPhase
    have stateIs : ((p.setState t .finishedUnjoined).goto t .joinWait).state t = .finishedUnjoined := Function.update_self ..
    simp only [stateIs]
    exact ⟨Function.update_self .., empty, none⟩

/-- A thread is finished, and the join that waits for it is woken. -/
private theorem joins_finishedJoined {call : Nat} (joins : Joins p) (made : t < p.created) (only : p.joinWaiters t = [j])
    (waits : p.joiner j = .waiting t call) (none : NoneWoken p t) :
    Joins { (p.setState t .finishedJoined).goto t .joinWait with
      joinWaiters := Function.update p.joinWaiters t ((p.joinWaiters t).erase j)
      joiner := Function.update p.joiner j (p.joiner j).wake } := by
  have wakeIs : (p.joiner j).wake = .woken t call := by rw [waits]; rfl
  have empty : (p.joinWaiters t).erase j = [] := by rw [only, List.erase_cons_head]
  rw [wakeIs, empty]
  refine joins_joiner joins made ⟨rfl, rfl, rfl⟩ (fun u other => ?_) rfl ?_ ?_ ?_ ?_ ?_ ?_ ?_
  · exact ⟨Function.update_of_ne other .., Function.update_of_ne other .., Function.update_of_ne other ..⟩
  · intro u c other
    simp [waits, Ne.symm other]
  · intro u c other
    simp [Ne.symm other]
  · unfold JoinPhase
    have stateIs : ∀ q : SThreadPool V, q.state = Function.update p.state t .finishedJoined → q.state t = .finishedJoined :=
      fun q same => by rw [same, Function.update_self]
    rw [stateIs _ rfl]
    refine ⟨Function.update_self .., Function.update_self .., j, fun l => ?_⟩
    change (∃ c, Function.update p.joiner j (.woken t call) l = _) ↔ _
    by_cases mine : l = j
    · rw [mine, Function.update_self]
      simp
    · rw [Function.update_of_ne mine]
      exact iff_of_false (fun ⟨c, woke⟩ => none l c woke) mine
  · intro k listed other
    rw [only, List.mem_singleton] at listed
    exact absurd listed other
  · intro c waiting
    cases waiting
  · intro c woke
    cases woke
    exact (joins.waiting j t call waits).2
  · simp

/-- The function of a thread has returned: the thread waits, and its join is woken. -/
theorem joins_announceFinish {wakes : Wakes} (joins : Joins p) (made : t < p.created)
    (at' : p.place t = .lockJoinState) (ran : announceFinish p t wakes = some p') :
    Joins p' ∧ ∃ state waiters joiner, (∀ k, joiner k = p.joiner k ∨ joiner k = (p.joiner k).wake) ∧
      p' = { p.goto t .joinWait with state := state, joinWaiters := waiters, joiner := joiner } := by
  obtain ⟨q, signalled, rfl⟩ := Option.map_eq_some_iff.mp ran
  have elsewhere : ∀ next, (p.setState t next).place t ≠ .joinWait := by
    intro next
    change p.place t ≠ .joinWait
    simp [at']
  rcases joinPhase_apart (joins.phase t) (by simp [at', Apart]) with
    ⟨state, empty, none⟩ | ⟨state, ⟨j, call, only, waits⟩, none⟩
  · rw [state] at signalled
    rcases signalJoinStateCondition_cases signalled with ⟨rfl, _⟩ | ⟨_, waits⟩ | ⟨k, member, _⟩
    · have next : (p.setState t (finish .runningUnjoined)).state t = .finishedUnjoined := Function.update_self ..
      rw [next, if_neg (by simp)]
      exact ⟨joins_finishedUnjoined joins made empty none, _, _, _, fun _ => .inl rfl, rfl⟩
    · exact absurd waits (elsewhere _)
    · rw [show (p.setState t (finish .runningUnjoined)).joinWaiters t = [] from empty] at member
      cases member
  · rw [state] at signalled
    rcases signalJoinStateCondition_cases signalled with ⟨_, _, empty⟩ | ⟨_, waits⟩ | ⟨k, member, rfl⟩
    · rw [show (p.setState t (finish .runningJoined)).joinWaiters t = [j] from only] at empty
      cases empty
    · exact absurd waits (elsewhere _)
    · rw [show (p.setState t (finish .runningJoined)).joinWaiters t = [j] from only, List.mem_singleton] at member
      subst member
      have next : ∀ q : SThreadPool V, q.state = Function.update p.state t (finish .runningJoined) →
          q.state t = .finishedJoined := fun q same => by rw [same, Function.update_self]; rfl
      rw [next _ rfl, if_neg (by simp)]
      refine ⟨joins_finishedJoined joins made only waits none, _, _, _, fun l => ?_, rfl⟩
      change Function.update p.joiner k (p.joiner k).wake l = _ ∨ Function.update p.joiner k (p.joiner k).wake l = _
      by_cases mine : l = k
      · rw [mine, Function.update_self]
        exact .inr rfl
      · rw [Function.update_of_ne mine]
        exact .inl rfl

/-- After its join, the thread clears the join state. -/
theorem joins_reset (joins : Joins p) (made : t < p.created) (at' : p.place t = .joinWoken) :
    Joins ((p.setState t .runningUnjoined).goto t .clearFunc) := by
  have phase := joins.phase t
  unfold JoinPhase at phase
  rw [at'] at phase
  have rest : p.joinWaiters t = [] ∧ NoneWoken p t := by
    cases state : p.state t <;> simp only [state] at phase
    · exact phase.2
    · exact absurd rfl phase.1.2
    · cases phase.1
    · cases phase.1
    · exact phase.2
  refine joins_step joins made ⟨rfl, rfl, rfl⟩ (fun u other => ?_) (fun _ _ _ _ => ⟨Iff.rfl, Iff.rfl⟩) ?_
    (fun k => joins.waiting k t) (fun k => joins.woken k t) joins.sound
  · exact ⟨Function.update_of_ne other .., Function.update_of_ne other .., rfl⟩
  · unfold JoinPhase
    have stateIs : ((p.setState t .runningUnjoined).goto t .clearFunc).state t = .runningUnjoined := Function.update_self ..
    have placeIs : ((p.setState t .runningUnjoined).goto t .clearFunc).place t = .clearFunc := Function.update_self ..
    simp only [stateIs]
    rw [placeIs]
    exact ⟨by simp [Apart], rest⟩

/-- The state of a pool after a join of a finished thread. -/
def joinedThread (p : SThreadPool V) (j t call : Nat) : SThreadPool V :=
  ((p.setJoiner j (.joined call (p.threadFuncResult t))).setState t .complete).goto t .joinWoken

/-- A thread that is joined when it is finished waits or was woken before. -/
theorem finished_phase (phase : JoinPhase p t place)
    (finished : p.state t = .finishedUnjoined ∨ p.state t = .complete ∨ p.state t = .finishedJoined) :
    (place = .joinWait ∨ place = .joinWoken) ∧ p.joinWaiters t = [] := by
  unfold JoinPhase at phase
  rcases finished with state | state | state <;> simp only [state] at phase
  · exact ⟨.inl phase.1, phase.2.1⟩
  · exact ⟨.inr phase.1, phase.2.1⟩
  · exact ⟨.inl phase.1, phase.2.1⟩

/-- A join that finds its thread finished takes the result and wakes the thread. -/
theorem joins_completeJoin {call : Nat} {wakes : Wakes} (joins : Joins p) (made : t < p.created)
    (mine : p.joiner j = .idle ∧ (p.state t = .finishedUnjoined ∨ p.state t = .complete) ∨
      p.joiner j = .woken t call ∧ p.state t = .finishedJoined)
    (ran : completeJoin p j t call wakes = some p') : p' = joinedThread p j t call ∧ Joins p' := by
  have phase := joins.phase t
  obtain ⟨at', empty⟩ := finished_phase phase (by tauto)
  have result : p' = joinedThread p j t call := by
    rcases signalJoinStateCondition_cases ran with ⟨rfl, notWaiting, _⟩ | ⟨rfl, _⟩ | ⟨k, member, _⟩
    · have woken : p.place t = .joinWoken := at'.resolve_left notWaiting
      rw [joinedThread, SThreadPool.goto]
      have same : Function.update p.place t .joinWoken = p.place := Function.update_eq_self_iff.mpr woken.symm
      change _ = { (p.setJoiner j (.joined call (p.threadFuncResult t))).setState t .complete with
        place := Function.update p.place t .joinWoken }
      rw [same]
      rfl
    · rfl
    · rw [show ((p.setJoiner j (.joined call (p.threadFuncResult t))).setState t .complete).joinWaiters t = [] from empty]
        at member
      cases member
  refine ⟨result, ?_⟩
  have noneWoken : NoneWoken (joinedThread p j t call) t := by
    intro k c woke
    change Function.update p.joiner j _ k = _ at woke
    by_cases same : k = j
    · rw [same, Function.update_self] at woke
      cases woke
    · rw [Function.update_of_ne same] at woke
      unfold JoinPhase at phase
      rcases mine with ⟨_, state | state⟩ | ⟨joiner, state⟩ <;> simp only [state] at phase
      · exact phase.2.2 k c woke
      · exact phase.2.2 k c woke
      · obtain ⟨_, _, l, only⟩ := phase
        exact same (((only k).mp ⟨c, woke⟩).trans ((only j).mp ⟨call, joiner⟩).symm)
  rw [result]
  refine joins_joiner joins made ⟨rfl, rfl, rfl⟩ (fun u other => ?_) rfl ?_ (by simp) ?_ (fun k listed _ => listed) nofun
    nofun (by simp)
  · exact ⟨Function.update_of_ne other .., Function.update_of_ne other .., rfl⟩
  · intro u c other
    rcases mine with ⟨joiner, _⟩ | ⟨joiner, _⟩ <;> simp [joiner, Ne.symm other]
  · unfold JoinPhase
    have stateIs : (joinedThread p j t call).state t = .complete := Function.update_self ..
    simp only [stateIs]
    exact ⟨Function.update_self .., empty, noneWoken⟩

/-- A join that returns an error changes nothing else. -/
theorem joins_failed {call : Nat} {error : String} (joins : Joins p) (idle : p.joiner j = .idle) :
    Joins (p.setJoiner j (.failed call error)) := by
  have joinerOther : ∀ k, k ≠ j → (p.setJoiner j (.failed call error)).joiner k = p.joiner k :=
    fun k other => Function.update_of_ne other ..
  have joinerMine : (p.setJoiner j (.failed call error)).joiner j = .failed call error := Function.update_self ..
  have joiners : ∀ k u c, ((p.setJoiner j (.failed call error)).joiner k = .waiting u c ↔ p.joiner k = .waiting u c) ∧
      ((p.setJoiner j (.failed call error)).joiner k = .woken u c ↔ p.joiner k = .woken u c) := by
    intro k u c
    by_cases same : k = j
    · rw [same, joinerMine, idle]
      simp
    · rw [joinerOther k same]
      exact ⟨Iff.rfl, Iff.rfl⟩
  refine ⟨fun t => ?_, joins.fresh, ?_, ?_, ?_⟩
  · exact joinPhase_frame (joins.phase t) rfl rfl fun k c => joiners k t c
  · intro k t c waits
    exact joins.waiting k t c ((joiners k t c).1.mp waits)
  · intro k t c woke
    exact joins.woken k t c ((joiners k t c).2.mp woke)
  · intro k
    by_cases same : k = j
    · rw [same, joinerMine]
      simp
    · rw [joinerOther k same]
      exact joins.sound k

/-- The state of a pool after a join of a running thread has begun to wait. -/
def waitedThread (p : SThreadPool V) (j t call : Nat) : SThreadPool V :=
  { (p.setState t .runningJoined).setJoiner j (.waiting t call) with
    joinWaiters := Function.update p.joinWaiters t (j :: p.joinWaiters t) }

/-- A join of a thread that still runs waits for it. -/
theorem joins_waits {call : Nat} (joins : Joins p) (made : t < p.created) (idle : p.joiner j = .idle)
    (mine : p.newThread call = t ∧ p.returned call = true) (state : p.state t = .runningUnjoined) :
    Joins (waitedThread p j t call) := by
  have phase := joins.phase t
  unfold JoinPhase at phase
  simp only [state] at phase
  obtain ⟨apart, empty, none⟩ := phase
  have waiters : (waitedThread p j t call).joinWaiters t = [j] := (Function.update_self ..).trans (by rw [empty])
  refine joins_joiner joins made ⟨rfl, rfl, rfl⟩ (fun u other => ?_) rfl (by simp [idle]) ?_ ?_ ?_ ?_ nofun (by simp)
  · exact ⟨rfl, Function.update_of_ne other .., Function.update_of_ne other ..⟩
  · intro u c other
    simp [Ne.symm other]
  · unfold JoinPhase
    have stateIs : (waitedThread p j t call).state t = .runningJoined := Function.update_self ..
    simp only [stateIs]
    refine ⟨apart, ⟨j, call, waiters, Function.update_self ..⟩, fun k c woke => ?_⟩
    change Function.update p.joiner j _ k = _ at woke
    by_cases same : k = j
    · rw [same, Function.update_self] at woke
      cases woke
    · rw [Function.update_of_ne same] at woke
      exact none k c woke
  · intro k listed _
    rw [empty] at listed
    cases listed
  · intro c waits
    cases waits
    rw [waiters]
    exact ⟨List.mem_singleton.mpr rfl, mine⟩

/-- What a join does up to its return or its wait. -/
theorem join_cases {call : Nat} {wakes : Wakes} (joins : Joins p) (made : t < p.created) (idle : p.joiner j = .idle)
    (mine : p.newThread call = t ∧ p.returned call = true) (ran : threadPoolThreadJoin p j t call wakes = some p') :
    Joins p' ∧ ((∃ error, p' = p.setJoiner j (.failed call error) ∧
          (p.isDetached = true ∨ p.state t = .runningJoined ∨ p.state t = .finishedJoined)) ∨
      (p' = waitedThread p j t call ∧ p.state t = .runningUnjoined) ∨
      (p' = joinedThread p j t call ∧ (p.state t = .finishedUnjoined ∨ p.state t = .complete))) := by
  unfold threadPoolThreadJoin at ran
  by_cases detached : p.isDetached = true
  · rw [if_pos detached] at ran
    cases ran
    exact ⟨joins_failed joins idle, .inl ⟨_, rfl, .inl detached⟩⟩
  · rw [if_neg detached] at ran
    by_cases twice : p.state t = .runningJoined ∨ p.state t = .finishedJoined
    · rw [if_pos twice] at ran
      cases ran
      exact ⟨joins_failed joins idle, .inl ⟨_, rfl, .inr twice⟩⟩
    · rw [if_neg twice] at ran
      by_cases running : p.state t = .runningUnjoined
      · rw [if_pos running] at ran
        cases ran
        exact ⟨joins_waits joins made idle mine running, .inr (.inl ⟨rfl, running⟩)⟩
      · rw [if_neg running] at ran
        have finished : p.state t = .finishedUnjoined ∨ p.state t = .complete := by
          cases at' : p.state t <;> simp_all
        obtain ⟨result, kept⟩ := joins_completeJoin joins made (.inl ⟨idle, finished⟩) ran
        exact ⟨kept, .inr (.inr ⟨result, finished⟩)⟩

/-- A woken join finds its thread finished and takes the result. -/
theorem joinAfterWait_cases {call : Nat} {wakes : Wakes} (joins : Joins p) (made : t < p.created)
    (woken : p.joiner j = .woken t call) (ran : joinAfterWait p j t call wakes = some p') :
    p.state t = .finishedJoined ∧ p' = joinedThread p j t call ∧ Joins p' := by
  have phase := joins.phase t
  have finished : p.state t = .finishedJoined := by
    unfold JoinPhase at phase
    cases state : p.state t <;> simp only [state] at phase
    · exact absurd woken (phase.2.2 j call)
    · exact absurd woken (phase.2.2 j call)
    · exact absurd woken (phase.2.2 j call)
    · rfl
    · exact absurd woken (phase.2.2 j call)
  rw [joinAfterWait, if_pos finished] at ran
  exact ⟨finished, joins_completeJoin joins made (.inr ⟨woken, finished⟩) ran⟩

/-- A thread gets to its first place. -/
theorem joins_create (joins : Joins p) : Joins (threadPoolThreadCreate p).2 := by
  have phase := joins.phase p.created
  unfold JoinPhase at phase
  rw [joins.fresh _ (Nat.le_refl _)] at phase
  refine ⟨?_, ?_, joins.waiting, joins.woken, joins.sound⟩
  · intro u
    change JoinPhase _ u (Function.update p.place p.created .lockStart u)
    by_cases new : u = p.created
    · rw [new, Function.update_self]
      unfold JoinPhase
      have stateIs : (threadPoolThreadCreate p).2.state p.created = .runningUnjoined := Function.update_self ..
      simp only [stateIs]
      exact ⟨by simp [Apart], phase.2⟩
    · rw [Function.update_of_ne new]
      exact joinPhase_frame (joins.phase u) (Function.update_of_ne new ..) rfl fun _ _ => ⟨Iff.rfl, Iff.rfl⟩
  · intro u late
    change Function.update p.state p.created .runningUnjoined u = _
    rw [Function.update_apply]
    split
    · rfl
    · exact joins.fresh u (Nat.le_of_succ_le late)

theorem joins_relinked (joins : Joins p) (relinked : Relinked p p') : Joins p' := by
  obtain ⟨_, _, _, _, rfl⟩ := relinked
  exact { joins with }

/-- The new call has no joins yet. -/
theorem joins_handOut (joins : Joins p) (handed : ∀ call, p.returned call = true → call < p.calls) :
    Joins (handOut p t) := by
  obtain ⟨_, _, _, _, same⟩ := relinked_addInUse p t
  have older : ∀ call, p.returned call = true → Function.update p.newThread p.calls t call = p.newThread call :=
    fun call given => Function.update_of_ne (Nat.ne_of_lt (handed call given)) ..
  rw [handOut, same]
  refine ⟨joins.phase, joins.fresh, ?_, ?_, joins.sound⟩
  · intro j u call waits
    obtain ⟨listed, thread, given⟩ := joins.waiting j u call waits
    exact ⟨listed, (older call given).trans thread, given⟩
  · intro j u call woke
    obtain ⟨thread, given⟩ := joins.woken j u call woke
    exact ⟨(older call given).trans thread, given⟩

end

end VoxiUtil.ThreadPoolStates
