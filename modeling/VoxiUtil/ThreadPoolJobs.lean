import Mathlib.Data.List.Nodup
import VoxiUtil.ThreadPool

/-!
The functions that pool threads are in use for. The function slot of a thread and its
place in the main loop fit the call that took the thread, from the section that took it
to the section that puts it back.
-/
namespace VoxiUtil.ThreadPoolJobs
open VoxiUtil.ThreadPool
universe u
variable {V : Type u}

/-- Places of a thread whose function is not set. -/
def Rests (place : Place) : Prop :=
  place = .testAgain ∨ place = .lockStart ∨ place = .beforeStartWait ∨ place = .startWait

/-- Places of a thread whose function is set and not called yet. -/
def Starts (place : Place) : Prop :=
  place = .testAgain ∨ place = .lockStart ∨ place = .startWoken ∨ place = .testShuttingDown ∨ place = .callFunc

/-- Places of a thread from the call of its function to its section on the lists. -/
def Follows (call : Nat) (place : Place) : Prop :=
  place = .running call ∨ place = .lockJoinState ∨ place = .joinWait ∨ place = .joinWoken ∨ place = .clearFunc ∨
    place = .lockList

/-- The function of the call was called. -/
def Ran (p : SThreadPool V) (call : Nat) : Prop := call ∈ p.executed.map Prod.fst

/-- A thread at `place` is available; or it was taken for a call, which has not set the
    function yet; or the function is set and not called yet; or it was called. -/
def Phase (p : SThreadPool V) (t : Nat) (place : Place) : Prop :=
  (p.serves t = none ∧ p.threadFunc t = none ∧ Rests place) ∨
  ∃ call, p.serves t = some call ∧
    ((¬ Ran p call ∧ p.returned call = false ∧ p.threadFunc t = none ∧ Rests place) ∨
      (¬ Ran p call ∧ p.returned call = true ∧ p.threadFunc t = some call ∧ Starts place) ∨
      (Ran p call ∧ p.returned call = true ∧ Follows call place ∧ (place = .lockList → p.threadFunc t = none)))

/-- The calls and their threads. -/
structure Jobs (p : SThreadPool V) : Prop where
  phase : ∀ t < p.created, Phase p t (p.place t)
  unborn : ∀ t, p.created ≤ t → p.place t = .absent ∧ p.serves t = none
  served : ∀ t call, p.serves t = some call →
    call < p.calls ∧ p.newThread call = t ∧ ∀ other < p.calls, p.newThread other = t → other ≤ call
  made : ∀ call < p.calls, p.newThread call < p.created
  done : ∀ call < p.calls, p.serves (p.newThread call) = some call ∨ Ran p call
  mine : ∀ call t, (call, t) ∈ p.executed → call < p.calls ∧ p.newThread call = t ∧ p.returned call = true
  once : (p.executed.map Prod.fst).Nodup
  handed : ∀ call, p.returned call = true → call < p.calls

section
variable {p p' : SThreadPool V} {t : Nat} {place : Place}

theorem Jobs.ran (jobs : Jobs p) {call : Nat} (ran : Ran p call) :
    call < p.calls ∧ (call, p.newThread call) ∈ p.executed ∧ p.returned call = true := by
  obtain ⟨⟨_, t⟩, member, rfl⟩ := List.mem_map.mp ran
  obtain ⟨below, rfl, returned⟩ := jobs.mine _ t member
  exact ⟨below, member, returned⟩

/-- A thread that is somewhere was created. -/
theorem Jobs.created (jobs : Jobs p) (present : p.place t ≠ .absent) : t < p.created := by
  by_contra late
  exact present (jobs.unborn t (Nat.le_of_not_lt late)).1

theorem jobs_relinked (jobs : Jobs p) (relinked : Relinked p p') : Jobs p' := by
  obtain ⟨_, _, _, _, rfl⟩ := relinked
  exact { jobs with }

/-- A thread goes to a place that its phase has too. -/
theorem jobs_goto (jobs : Jobs p) (present : p.place t ≠ .absent) (phase : Phase p t place) : Jobs (p.goto t place) where
  phase := (Function.forall_update_iff p.place fun u at' => u < p.created → Phase p u at').mpr
    ⟨fun _ => phase, fun u _ => jobs.phase u⟩
  unborn := by
    refine (Function.forall_update_iff p.place fun u at' => p.created ≤ u → at' = .absent ∧ p.serves u = none).mpr
      ⟨fun late => ?_, fun u _ => jobs.unborn u⟩
    exact absurd (jobs.created present) (Nat.not_lt.mpr late)
  served := jobs.served
  made := jobs.made
  done := jobs.done
  mine := jobs.mine
  once := jobs.once
  handed := jobs.handed

theorem phase_move {place' : Place} (phase : Phase p t place) (rests : Rests place → Rests place')
    (starts : Starts place → Starts place') (follows : ∀ call, Follows call place → Follows call place' ∧ place' ≠ .lockList) :
    Phase p t place' := by
  rcases phase with ⟨serves, unset, at'⟩ | ⟨call, serves, ⟨new, pending, unset, at'⟩ | ⟨new, given, set, at'⟩ | ⟨old, given, at', _⟩⟩
  · exact .inl ⟨serves, unset, rests at'⟩
  · exact .inr ⟨call, serves, .inl ⟨new, pending, unset, rests at'⟩⟩
  · exact .inr ⟨call, serves, .inr (.inl ⟨new, given, set, starts at'⟩)⟩
  · obtain ⟨later, notList⟩ := follows call at'
    exact .inr ⟨call, serves, .inr (.inr ⟨old, given, later, fun same => absurd same notList⟩)⟩

/-- A thread moves on within its phase. -/
theorem jobs_move (jobs : Jobs p) (present : p.place t ≠ .absent) (rests : Rests (p.place t) → Rests place)
    (starts : Starts (p.place t) → Starts place)
    (follows : ∀ call, Follows call (p.place t) → Follows call place ∧ place ≠ .lockList) : Jobs (p.goto t place) :=
  jobs_goto jobs present (phase_move (jobs.phase t (jobs.created present)) rests starts follows)

/-- Another thread keeps its phase while its own fields and those of its call stay. -/
theorem phase_frame {u : Nat} (phase : Phase p u place) (serves : p'.serves u = p.serves u)
    (func : p'.threadFunc u = p.threadFunc u)
    (calls : ∀ call, p.serves u = some call → (Ran p' call ↔ Ran p call) ∧ p'.returned call = p.returned call) :
    Phase p' u place := by
  unfold Phase
  rw [serves, func]
  rcases phase with idle | ⟨call, mine, working⟩
  · exact .inl idle
  · obtain ⟨ran, returned⟩ := calls call mine
    refine .inr ⟨call, mine, ?_⟩
    rw [ran, returned]
    exact working

theorem jobs_create (jobs : Jobs p) : Jobs (threadPoolThreadCreate p).2 := by
  have old : ∀ u, u < p.created → u ≠ p.created := fun u made => Nat.ne_of_lt made
  refine ⟨?_, ?_, jobs.served, ?_, jobs.done, jobs.mine, jobs.once, jobs.handed⟩
  · intro u made
    change Phase _ u (Function.update p.place p.created .lockStart u)
    by_cases new : u = p.created
    · subst new
      rw [Function.update_self]
      exact .inl ⟨(jobs.unborn _ (Nat.le_refl _)).2, Function.update_self .., .inr (.inl rfl)⟩
    · rw [Function.update_of_ne new]
      have earlier : u < p.created := Nat.lt_of_le_of_ne (Nat.le_of_lt_succ made) new
      exact phase_frame (jobs.phase u earlier) rfl (Function.update_of_ne new ..) fun _ _ => ⟨Iff.rfl, rfl⟩
  · intro u late
    have later : p.created ≤ u := Nat.le_of_succ_le late
    have new : u ≠ p.created := by
      rintro rfl
      exact absurd late (Nat.not_succ_le_self _)
    change Function.update p.place p.created .lockStart u = .absent ∧ p.serves u = none
    rw [Function.update_of_ne new]
    exact jobs.unborn u later
  · intro call below
    exact Nat.lt_succ_of_lt (jobs.made call below)

/-- A thread that is in use for no call is taken for the next one. -/
theorem jobs_handOut (jobs : Jobs p) (made : t < p.created) (idle : p.serves t = none) : Jobs (handOut p t) := by
  have fresh : ¬ Ran p p.calls := fun ran => Nat.lt_irrefl _ (jobs.ran ran).1
  have unset : p.returned p.calls = false := by
    by_contra given
    exact Nat.lt_irrefl _ (jobs.handed p.calls (by simpa using given))
  obtain ⟨_, _, _, _, same⟩ := relinked_addInUse p t
  have older : ∀ u call, p.serves u = some call → u ≠ t ∧ call < p.calls := by
    intro u call serves
    refine ⟨?_, (jobs.served u call serves).1⟩
    rintro rfl
    rw [idle] at serves
    cases serves
  rw [handOut, same]
  refine ⟨?_, ?_, ?_, ?_, ?_, ?_, jobs.once, ?_⟩
  · intro u below
    by_cases mine : u = t
    · subst mine
      refine .inr ⟨p.calls, Function.update_self .., .inl ⟨fresh, unset, ?_⟩⟩
      rcases jobs.phase u below with ⟨_, func, rests⟩ | ⟨call, serves, _⟩
      · exact ⟨func, rests⟩
      · exact absurd rfl (older u call serves).1
    · exact phase_frame (jobs.phase u below) (Function.update_of_ne mine ..) rfl fun _ _ => ⟨Iff.rfl, rfl⟩
  · intro u late
    have other : u ≠ t := by
      rintro rfl
      exact absurd made (Nat.not_lt.mpr late)
    change p.place u = .absent ∧ Function.update p.serves t _ u = none
    rw [Function.update_of_ne other]
    exact jobs.unborn u late
  · intro u call serves
    change call < p.calls + 1 ∧ Function.update p.newThread p.calls t call = u ∧ ∀ other < p.calls + 1,
      Function.update p.newThread p.calls t other = u → other ≤ call
    change Function.update p.serves t (some p.calls) u = some call at serves
    by_cases mine : u = t
    · rw [mine, Function.update_self] at serves
      cases serves
      exact ⟨Nat.lt_succ_self _, by rw [Function.update_self, mine], fun other below _ => Nat.le_of_lt_succ below⟩
    · rw [Function.update_of_ne mine] at serves
      obtain ⟨below, thread, last⟩ := jobs.served u call serves
      refine ⟨Nat.lt_succ_of_lt below, by rw [Function.update_of_ne (Nat.ne_of_lt below), thread], ?_⟩
      intro other bound same
      by_cases newest : other = p.calls
      · rw [newest, Function.update_self] at same
        exact absurd same.symm mine
      · rw [Function.update_of_ne newest] at same
        exact last other (Nat.lt_of_le_of_ne (Nat.le_of_lt_succ bound) newest) same
  · intro call below
    change Function.update p.newThread p.calls t call < p.created
    by_cases newest : call = p.calls
    · rw [newest, Function.update_self]
      exact made
    · rw [Function.update_of_ne newest]
      exact jobs.made call (Nat.lt_of_le_of_ne (Nat.le_of_lt_succ below) newest)
  · intro call below
    change Function.update p.serves t (some p.calls) (Function.update p.newThread p.calls t call) = some call ∨ Ran p call
    by_cases newest : call = p.calls
    · rw [newest, Function.update_self, Function.update_self]
      exact .inl rfl
    · rw [Function.update_of_ne newest]
      have before := jobs.done call (Nat.lt_of_le_of_ne (Nat.le_of_lt_succ below) newest)
      by_cases mine : p.newThread call = t
      · rw [mine, idle] at before
        exact .inr (before.resolve_left (by simp))
      · rw [Function.update_of_ne mine]
        exact before
  · intro call u member
    obtain ⟨below, thread, returned⟩ := jobs.mine call u member
    refine ⟨Nat.lt_succ_of_lt below, ?_, returned⟩
    change Function.update p.newThread p.calls t call = u
    rw [Function.update_of_ne (Nat.ne_of_lt below), thread]
  · intro call given
    exact Nat.lt_succ_of_lt (jobs.handed call given)

/-- A call whose function is not set has its thread. -/
theorem jobs_pending (jobs : Jobs p) {call : Nat} (below : call < p.calls) (pending : p.returned call = false) :
    ¬ Ran p call ∧ p.serves (p.newThread call) = some call ∧ p.threadFunc (p.newThread call) = none ∧
      Rests (p.place (p.newThread call)) := by
  have new : ¬ Ran p call := by
    intro ran
    rw [(jobs.ran ran).2.2] at pending
    cases pending
  have mine := (jobs.done call below).resolve_right new
  refine ⟨new, mine, ?_⟩
  rcases jobs.phase _ (jobs.made call below) with ⟨idle, _⟩ | ⟨other, serves, working⟩
  · rw [idle] at mine
    cases mine
  · rw [serves] at mine
    cases mine
    rcases working with ⟨_, _, unset, rests⟩ | ⟨_, given, _⟩ | ⟨_, given, _⟩
    · exact ⟨unset, rests⟩
    · rw [given] at pending
      cases pending
    · rw [given] at pending
      cases pending

/-- A step of a thread in use and of its call: what it may change, and the new phase. -/
theorem jobs_step {call : Nat} (jobs : Jobs p) (serves : p.serves t = some call)
    (same : p'.serves = p.serves ∧ p'.created = p.created ∧ p'.calls = p.calls ∧ p'.newThread = p.newThread)
    (others : ∀ u, u ≠ t → p'.place u = p.place u ∧ p'.threadFunc u = p.threadFunc u)
    (returned : p'.returned = p.returned ∨ p'.returned = Function.update p.returned call true)
    (executed : p'.executed = p.executed ∨
      p'.executed = p.executed ++ [(call, t)] ∧ ¬ Ran p call ∧ p.returned call = true)
    (phase : Phase p' t (p'.place t)) : Jobs p' := by
  obtain ⟨servesIs, createdIs, callsIs, newThreadIs⟩ := same
  obtain ⟨below, thread, _⟩ := jobs.served t call serves
  have made : t < p.created := thread ▸ jobs.made call below
  have returnedOther : ∀ c, c ≠ call → p'.returned c = p.returned c := by
    intro c other
    rcases returned with same | same
    · rw [same]
    · rw [same, Function.update_of_ne other]
  have returnedStays : ∀ c, p.returned c = true → p'.returned c = true := by
    intro c given
    rcases returned with same | same
    · rw [same, given]
    · rw [same, Function.update_apply]
      split
      · rfl
      · exact given
  have ranOther : ∀ c, c ≠ call → (Ran p' c ↔ Ran p c) := by
    intro c other
    unfold Ran
    rcases executed with same | ⟨same, _⟩
    · rw [same]
    · rw [same]
      simp [other]
  have ranStays : ∀ c, Ran p c → Ran p' c := by
    intro c old
    unfold Ran
    rcases executed with same | ⟨same, _⟩
    · rw [same]
      exact old
    · rw [same, List.map_append]
      exact List.mem_append_left _ old
  refine ⟨?_, ?_, ?_, ?_, ?_, ?_, ?_, ?_⟩
  · intro u bound
    by_cases mine : u = t
    · rw [mine]
      exact phase
    · obtain ⟨place, func⟩ := others u mine
      rw [place]
      refine phase_frame (jobs.phase u (createdIs ▸ bound)) (congrFun servesIs u) func fun c takes => ?_
      have other : c ≠ call := by
        rintro rfl
        exact mine ((jobs.served u c takes).2.1.symm.trans thread)
      exact ⟨ranOther c other, returnedOther c other⟩
  · intro u late
    rw [createdIs] at late
    have other : u ≠ t := by
      rintro rfl
      exact absurd made (Nat.not_lt.mpr late)
    rw [(others u other).1, servesIs]
    exact jobs.unborn u late
  · rw [servesIs, callsIs, newThreadIs]
    exact jobs.served
  · rw [callsIs, newThreadIs, createdIs]
    exact jobs.made
  · rw [callsIs, newThreadIs, servesIs]
    intro c bound
    exact (jobs.done c bound).imp_right (ranStays c)
  · rw [callsIs, newThreadIs]
    intro c u member
    have old : (c, u) ∈ p.executed ∨ (c, u) = (call, t) ∧ p.returned call = true := by
      rcases executed with same | ⟨same, _, given⟩
      · exact .inl (same ▸ member)
      · rw [same, List.mem_append, List.mem_singleton] at member
        exact member.imp_right fun equal => ⟨equal, given⟩
    rcases old with old | ⟨equal, given⟩
    · obtain ⟨bound, target, given⟩ := jobs.mine c u old
      exact ⟨bound, target, returnedStays c given⟩
    · cases equal
      exact ⟨below, thread, returnedStays call given⟩
  · rcases executed with same | ⟨same, new, _⟩
    · rw [same]
      exact jobs.once
    · rw [same, List.map_append, List.map_singleton]
      refine List.Nodup.append jobs.once (List.nodup_singleton call) fun c old last => ?_
      rw [List.mem_singleton.mp last] at old
      exact new old
  · rw [callsIs]
    intro c given
    by_cases mine : c = call
    · rw [mine]
      exact below
    · rw [returnedOther c mine] at given
      exact jobs.handed c given

/-- The second section of `threadPool_runThread`: the thread gets its function, and the
    signal, if it waits. -/
theorem jobs_setFunction {call : Nat} (jobs : Jobs p) (ran : threadPoolSetFunction p call = some p') : Jobs p' := by
  obtain ⟨⟨below, pending, holds⟩, same⟩ := Option.ite_none_right_eq_some.mp ran
  obtain ⟨new, serves, unset, rests⟩ := jobs_pending jobs below pending
  cases same
  unfold signalStartCondition
  by_cases waits : p.place (p.newThread call) = .startWait
  · rw [if_pos waits]
    refine jobs_step jobs serves ⟨rfl, rfl, rfl, rfl⟩ (fun u other => ?_) (.inr rfl) (.inl rfl) ?_
    · exact ⟨Function.update_of_ne other .., Function.update_of_ne other ..⟩
    · refine .inr ⟨call, serves, .inr (.inl ⟨new, Function.update_self .., Function.update_self .., ?_⟩)⟩
      exact .inr (.inr (.inl (Function.update_self ..)))
  · rw [if_neg waits]
    refine jobs_step jobs serves ⟨rfl, rfl, rfl, rfl⟩ (fun u other => ?_) (.inr rfl) (.inl rfl) ?_
    · exact ⟨rfl, Function.update_of_ne other ..⟩
    · refine .inr ⟨call, serves, .inr (.inl ⟨new, Function.update_self .., Function.update_self .., ?_⟩)⟩
      rcases rests with at' | at' | at' | at'
      · exact .inl at'
      · exact .inr (.inl at')
      · exact absurd at' holds
      · exact absurd at' waits

/-- The phase of a thread at the end of its loop, before its section on the lists. -/
theorem phase_follows (phase : Phase p t place) (apart : ¬ Rests place ∧ ¬ Starts place) :
    ∃ call, p.serves t = some call ∧ Ran p call ∧ p.returned call = true ∧ Follows call place ∧
      (place = .lockList → p.threadFunc t = none) := by
  rcases phase with ⟨_, _, rests⟩ | ⟨call, serves, ⟨_, _, _, rests⟩ | ⟨_, _, _, starts⟩ | late⟩
  · exact absurd rests apart.1
  · exact absurd rests apart.1
  · exact absurd starts apart.2
  · exact ⟨call, serves, late⟩

/-- The thread calls the function that was set for it. -/
theorem jobs_callThreadFunc (jobs : Jobs p) (at' : p.place t = .callFunc)
    (sound : p.state t = .runningUnjoined ∨ p.state t = .runningJoined) :
    ∃ call, callThreadFunc p t = { p.goto t (.running call) with executed := p.executed ++ [(call, t)] } ∧
      p.serves t = some call ∧ Jobs (callThreadFunc p t) := by
  have made := jobs.created (t := t) (by simp [at'])
  have phase := jobs.phase t made
  rw [at'] at phase
  have ready : ∃ call, p.serves t = some call ∧ ¬ Ran p call ∧ p.returned call = true ∧ p.threadFunc t = some call := by
    rcases phase with ⟨_, _, rests⟩ | ⟨call, serves, ⟨_, _, _, rests⟩ | ⟨new, given, set, _⟩ | ⟨_, _, follows, _⟩⟩
    · simp [Rests] at rests
    · simp [Rests] at rests
    · exact ⟨call, serves, new, given, set⟩
    · simp [Follows] at follows
  obtain ⟨call, serves, new, given, set⟩ := ready
  have result : callThreadFunc p t = { p.goto t (.running call) with executed := p.executed ++ [(call, t)] } := by
    rw [callThreadFunc, if_pos sound]
    simp only [set]
  rw [result]
  refine ⟨call, rfl, serves, jobs_step jobs serves ⟨rfl, rfl, rfl, rfl⟩ (fun u other => ?_) (.inl rfl)
    (.inr ⟨rfl, new, given⟩) ?_⟩
  · exact ⟨Function.update_of_ne other .., rfl⟩
  · refine .inr ⟨call, serves, .inr (.inr ⟨?_, given, .inl (Function.update_self ..), fun same => ?_⟩)⟩
    · simp [Ran]
    · change Function.update p.place t (.running call) t = .lockList at same
      rw [Function.update_self] at same
      cases same

/-- The thread clears its function before it goes to the lists. -/
theorem jobs_clearFunc (jobs : Jobs p) (at' : p.place t = .clearFunc) :
    Jobs ({ p with threadFunc := Function.update p.threadFunc t none }.goto t .lockList) := by
  have made := jobs.created (t := t) (by simp [at'])
  obtain ⟨call, serves, ran, given, _⟩ := phase_follows (jobs.phase t made) (by simp [at', Rests, Starts])
  refine jobs_step jobs serves ⟨rfl, rfl, rfl, rfl⟩ (fun u other => ?_) (.inl rfl) (.inl rfl) ?_
  · exact ⟨Function.update_of_ne other .., Function.update_of_ne other ..⟩
  · refine .inr ⟨call, serves, .inr (.inr ⟨ran, given, ?_, fun _ => Function.update_self ..⟩)⟩
    exact .inr (.inr (.inr (.inr (.inr (Function.update_self ..)))))

/-- The thread is available again. -/
theorem jobs_returned (jobs : Jobs p) (at' : p.place t = .lockList) :
    Jobs ({ p with serves := Function.update p.serves t none }.goto t .testAgain) := by
  have made := jobs.created (t := t) (by simp [at'])
  obtain ⟨call, serves, ran, _, _, cleared⟩ := phase_follows (jobs.phase t made) (by simp [at', Rests, Starts])
  refine ⟨?_, ?_, ?_, jobs.made, ?_, jobs.mine, jobs.once, jobs.handed⟩
  · intro u bound
    change Phase _ u (Function.update p.place t .testAgain u)
    by_cases mine : u = t
    · subst mine
      rw [Function.update_self]
      exact .inl ⟨Function.update_self .., cleared at', .inl rfl⟩
    · rw [Function.update_of_ne mine]
      exact phase_frame (jobs.phase u bound) (Function.update_of_ne mine ..) rfl fun _ _ => ⟨Iff.rfl, rfl⟩
  · intro u late
    have other : u ≠ t := by
      rintro rfl
      exact absurd made (Nat.not_lt.mpr late)
    change Function.update p.place t _ u = .absent ∧ Function.update p.serves t none u = none
    rw [Function.update_of_ne other, Function.update_of_ne other]
    exact jobs.unborn u late
  · intro u c takes
    change Function.update p.serves t none u = some c at takes
    by_cases mine : u = t
    · rw [mine, Function.update_self] at takes
      cases takes
    · rw [Function.update_of_ne mine] at takes
      exact jobs.served u c takes
  · intro c bound
    change Function.update p.serves t none (p.newThread c) = some c ∨ Ran p c
    by_cases mine : p.newThread c = t
    · refine .inr ((jobs.done c bound).elim (fun takes => ?_) id)
      rw [mine, serves] at takes
      cases takes
      exact ran
    · rw [Function.update_of_ne mine]
      exact jobs.done c bound

end

end VoxiUtil.ThreadPoolJobs
