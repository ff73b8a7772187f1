import VoxiUtil.ThreadPoolBookkeeping

/-!
Joins of the runs of a pool that is not detached. A thread is in use for its call until
one join has taken the result of the call; the joins after that are left out, except
where the thread refuses them.
-/
namespace VoxiUtil.ThreadPoolJoins
open VoxiUtil.Runs VoxiUtil.ThreadPool VoxiUtil.ThreadPoolLists VoxiUtil.ThreadPoolJobs
open VoxiUtil.ThreadPoolStates VoxiUtil.ThreadPoolBookkeeping
universe u
variable {V : Type u}

/-- The join waits for the thread, or is woken and has not returned. -/
def Awaits (t call : Nat) (joiner : Joiner V) : Prop := joiner = .waiting t call ∨ joiner = .woken t call

/-- The join was made on the handle of the call, and it is not refused. -/
def On (call : Nat) (joiner : Joiner V) : Prop := (∃ t, Awaits t call joiner) ∨ ∃ result, joiner = .joined call result

/-- A join on the handle of the call has returned `NULL`. -/
def Delivered (p : SThreadPool V) (call : Nat) : Prop := ∃ j result, p.joiner j = .joined call result

/-- One join for each run. A join that returns `NULL` gives the result of the function
    of its call; on one handle one join at most is not refused; no assertion has failed;
    and where a thread called two functions, the first one was joined. -/
structure OneJoin (p : SThreadPool V) : Prop where
  own : ∀ j call result, p.joiner j = .joined call result → ∃ value, p.result call = some value ∧ result = some value
  single : ∀ j k call, On call (p.joiner j) → On call (p.joiner k) → j = k
  sound : (∀ j, p.joiner j ≠ .aborted) ∧ ∀ t, p.place t ≠ .aborted
  order : p.executed.Pairwise fun a b => a.2 = b.2 → Delivered p a.1

/-- No second join once one has returned `NULL`, unless another join of the thread is
    under way, with which it is refused. -/
def FirstJoin (p : SThreadPool V) : Act V → Prop
  | .join _ call _ => ¬ Delivered p call ∨
      p.state (p.newThread call) = .runningJoined ∨ p.state (p.newThread call) = .finishedJoined
  | a => Undisturbed a

/-- Places of a thread after the join of its function. -/
def Late (place : Place) : Prop := place = .joinWoken ∨ place = .clearFunc ∨ place = .lockList

/-- Places of a thread with a result that was not joined. -/
def Holds (place : Place) : Prop := place = .lockJoinState ∨ place = .joinWait

/-- The results, and which calls are joined. -/
private structure Deliveries (p : SThreadPool V) : Prop where
  value : ∀ j call result, p.joiner j = .joined call result →
    call < p.calls ∧ ∃ value, p.result call = some value ∧ result = some value
  single : ∀ j k call, On call (p.joiner j) → On call (p.joiner k) → j = k
  unjoined : ∀ t call, p.serves t = some call → ¬ Late (p.place t) → ¬ Delivered p call
  joined : ∀ call, Ran p call → p.serves (p.newThread call) ≠ some call ∨ Late (p.place (p.newThread call)) →
    Delivered p call
  awaited : ∀ j t call, Awaits t call (p.joiner j) → p.serves t = some call ∧ ¬ Late (p.place t)
  kept : ∀ t call, p.serves t = some call → Holds (p.place t) →
    ∃ value, p.result call = some value ∧ p.threadFuncResult t = some value
  order : p.executed.Pairwise fun a b => a.2 = b.2 → Delivered p a.1

/-- Two joins that a pool thread cannot tell apart. -/
private def Alike (new old : Joiner V) : Prop :=
  (∀ t call, Awaits t call new ↔ Awaits t call old) ∧ ∀ call result, new = .joined call result ↔ old = .joined call result

private theorem alike_refl (joiner : Joiner V) : Alike joiner joiner := ⟨fun _ _ => Iff.rfl, fun _ _ => Iff.rfl⟩

private theorem alike_wake (joiner : Joiner V) : Alike joiner.wake joiner := by
  cases joiner <;> simp [Alike, Awaits, Joiner.wake]

private theorem on_alike {new old : Joiner V} (alike : Alike new old) (call : Nat) : On call new ↔ On call old :=
  or_congr (exists_congr fun t => alike.1 t call) (exists_congr fun result => alike.2 call result)

section
variable {p p' : SThreadPool V} {t j call : Nat}

private theorem delivered_alike (alike : ∀ k, Alike (p'.joiner k) (p.joiner k)) (call : Nat) :
    Delivered p' call ↔ Delivered p call :=
  exists_congr fun k => exists_congr fun result => (alike k).2 call result

/-- A step that no join sees: threads in use stay before or after their joins, and their
    results are the same. -/
private theorem deliveries_frame (before : Deliveries p)
    (same : p'.serves = p.serves ∧ p'.result = p.result ∧ p'.calls = p.calls ∧ p'.newThread = p.newThread ∧
      p'.executed = p.executed)
    (alike : ∀ k, Alike (p'.joiner k) (p.joiner k))
    (threads : ∀ u c, p.serves u = some c → (Late (p'.place u) ↔ Late (p.place u)) ∧
      (Holds (p'.place u) → Holds (p.place u)) ∧ p'.threadFuncResult u = p.threadFuncResult u) : Deliveries p' := by
  obtain ⟨servesIs, resultIs, callsIs, newThreadIs, executedIs⟩ := same
  have ran : ∀ c, Ran p' c ↔ Ran p c := by
    intro c
    rw [Ran, executedIs, Ran]
  refine ⟨?_, ?_, ?_, ?_, ?_, ?_, ?_⟩
  · rw [callsIs, resultIs]
    intro k c result joined
    exact before.value k c result (((alike k).2 c result).mp joined)
  · intro k l c first second
    exact before.single k l c ((on_alike (alike k) c).mp first) ((on_alike (alike l) c).mp second)
  · rw [servesIs]
    intro u c serves early delivered
    rw [(threads u c serves).1] at early
    exact before.unjoined u c serves early ((delivered_alike alike c).mp delivered)
  · rw [servesIs, newThreadIs]
    intro c old past
    rw [delivered_alike alike]
    refine before.joined c ((ran c).mp old) ?_
    by_cases serves : p.serves (p.newThread c) = some c
    · exact .inr ((threads _ c serves).1.mp (past.resolve_left (not_not_intro serves)))
    · exact .inl serves
  · rw [servesIs]
    intro k u c awaits
    obtain ⟨serves, early⟩ := before.awaited k u c (((alike k).1 u c).mp awaits)
    rw [(threads u c serves).1]
    exact ⟨serves, early⟩
  · rw [servesIs, resultIs]
    intro u c serves holds
    obtain ⟨_, held, result⟩ := threads u c serves
    rw [result]
    exact before.kept u c serves (held holds)
  · rw [executedIs]
    exact before.order.imp fun first sameThread => (delivered_alike alike _).mpr (first sameThread)

/-- A thread moves. -/
private theorem deliveries_goto {place : Place} (before : Deliveries p) (late : Late place ↔ Late (p.place t))
    (holds : Holds place → Holds (p.place t)) : Deliveries (p.goto t place) := by
  refine deliveries_frame before ⟨rfl, rfl, rfl, rfl, rfl⟩ (fun _ => alike_refl _) fun u c _ => ?_
  change (Late (Function.update p.place t place u) ↔ _) ∧ (Holds (Function.update p.place t place u) → _) ∧ _
  by_cases mine : u = t
  · rw [mine, Function.update_self]
    exact ⟨late, holds, rfl⟩
  · rw [Function.update_of_ne mine]
    exact ⟨Iff.rfl, id, rfl⟩

private theorem deliveries_relinked (before : Deliveries p) (relinked : Relinked p p') : Deliveries p' := by
  obtain ⟨_, _, _, _, rfl⟩ := relinked
  exact { before with }

private theorem deliveries_create (before : Deliveries p) (jobs : Jobs p) : Deliveries (threadPoolThreadCreate p).2 := by
  refine deliveries_frame before ⟨rfl, rfl, rfl, rfl, rfl⟩ (fun _ => alike_refl _) fun u c serves => ?_
  have old : u ≠ p.created := by
    rintro rfl
    rw [(jobs.unborn _ (Nat.le_refl _)).2] at serves
    cases serves
  change (Late (Function.update p.place p.created _ u) ↔ _) ∧ (Holds (Function.update p.place p.created _ u) → _) ∧
    Function.update p.threadFuncResult p.created none u = _
  rw [Function.update_of_ne old, Function.update_of_ne old]
  exact ⟨Iff.rfl, id, rfl⟩

/-- A thread is taken for a call. The call before was joined. -/
private theorem deliveries_handOut (before : Deliveries p) (jobs : Jobs p) (made : t < p.created) (idle : p.serves t = none) :
    Deliveries (handOut p t) := by
  obtain ⟨_, _, _, _, same⟩ := relinked_addInUse p t
  have rests : ¬ Holds (p.place t) := by
    rcases jobs.phase t made with ⟨_, _, at'⟩ | ⟨c, serves, _⟩
    · rcases at' with at' | at' | at' | at' <;> simp [at', Holds]
    · rw [idle] at serves
      cases serves
  rw [handOut, same]
  refine ⟨?_, before.single, ?_, ?_, ?_, ?_, before.order⟩
  · intro k c result joined
    obtain ⟨below, value⟩ := before.value k c result joined
    exact ⟨Nat.lt_succ_of_lt below, value⟩
  · intro u c serves early
    change Function.update p.serves t (some p.calls) u = some c at serves
    by_cases mine : u = t
    · rw [mine, Function.update_self] at serves
      cases serves
      rintro ⟨k, result, joined⟩
      exact Nat.lt_irrefl _ (before.value k _ result joined).1
    · rw [Function.update_of_ne mine] at serves
      exact before.unjoined u c serves early
  · intro c ran past
    have older : c ≠ p.calls := Nat.ne_of_lt (jobs.ran ran).1
    change Function.update p.serves t (some p.calls) (Function.update p.newThread p.calls t c) ≠ some c ∨
      Late (p.place (Function.update p.newThread p.calls t c)) at past
    rw [Function.update_of_ne older] at past
    refine before.joined c ran ?_
    by_cases mine : p.newThread c = t
    · rw [mine, idle]
      exact .inl (Option.some_ne_none c).symm
    · rw [Function.update_of_ne mine] at past
      exact past
  · intro k u c awaits
    obtain ⟨serves, early⟩ := before.awaited k u c awaits
    have other : u ≠ t := by
      rintro rfl
      rw [idle] at serves
      cases serves
    exact ⟨(Function.update_of_ne other ..).trans serves, early⟩
  · intro u c serves holds
    change Function.update p.serves t (some p.calls) u = some c at serves
    by_cases mine : u = t
    · subst mine
      exact absurd holds rests
    · rw [Function.update_of_ne mine] at serves
      exact before.kept u c serves holds

/-- A thread that is taken for a call calls its function; all calls before were joined. -/
private theorem deliveries_executed (before : Deliveries p) (jobs : Jobs p) (serves : p.serves t = some call)
    (new : ¬ Ran p call) (early : ¬ Late (p.place t)) :
    Deliveries { p with executed := p.executed ++ [(call, t)] } := by
  refine ⟨before.value, before.single, before.unjoined, ?_, before.awaited, before.kept, ?_⟩
  · intro c ran past
    have old : c = call ∨ Ran p c := by
      have member : c ∈ (p.executed ++ [(call, t)]).map Prod.fst := ran
      rw [List.map_append, List.mem_append] at member
      rcases member with member | member
      · exact .inr member
      · exact .inl (by simpa using member)
    rcases old with rfl | old
    · have thread : p.newThread c = t := (jobs.served t c serves).2.1
      change p.serves (p.newThread c) ≠ some c ∨ Late (p.place (p.newThread c)) at past
      rw [thread] at past
      rcases past with other | late
      · exact absurd serves other
      · exact absurd late early
    · exact before.joined c old past
  · refine List.pairwise_append.mpr ⟨before.order, List.pairwise_singleton .., ?_⟩
    intro a member b last sameThread
    rw [List.mem_singleton.mp last] at sameThread
    obtain ⟨_, thread, _⟩ := jobs.mine a.1 a.2 member
    have ran : Ran p a.1 := List.mem_map.mpr ⟨a, member, rfl⟩
    refine before.joined a.1 ran (.inl fun again => ?_)
    rw [thread, sameThread, serves] at again
    cases again
    exact new ran

/-- A call has one thread. -/
private theorem serves_one {u : Nat} (jobs : Jobs p) (takes : p.serves u = some call) (serves : p.serves t = some call) : u = t :=
  (jobs.served u call takes).2.1.symm.trans (jobs.served t call serves).2.1

/-- A function returns. -/
private theorem deliveries_returns {value : V} (before : Deliveries p) (jobs : Jobs p) (serves : p.serves t = some call)
    (early : ¬ Late (p.place t)) :
    Deliveries ({ p with threadFuncResult := Function.update p.threadFuncResult t (some value)
                         result := Function.update p.result call (some value) }.goto t .lockJoinState) := by
  have lateIs : ∀ u, Late (Function.update p.place t .lockJoinState u) ↔ Late (p.place u) := by
    intro u
    by_cases mine : u = t
    · rw [mine, Function.update_self]
      exact iff_of_false (by simp [Late]) early
    · rw [Function.update_of_ne mine]
  refine ⟨?_, before.single, ?_, ?_, ?_, ?_, before.order⟩
  · intro k c result joined
    have other : c ≠ call := by
      rintro rfl
      exact before.unjoined t c serves early ⟨k, result, joined⟩
    change c < p.calls ∧ ∃ v, Function.update p.result call (some value) c = some v ∧ result = some v
    rw [Function.update_of_ne other]
    exact before.value k c result joined
  · intro u c takes stillEarly
    exact before.unjoined u c takes fun late => stillEarly ((lateIs u).mpr late)
  · intro c ran past
    exact before.joined c ran (past.imp_right (lateIs _).mp)
  · intro k u c awaits
    obtain ⟨takes, stillEarly⟩ := before.awaited k u c awaits
    exact ⟨takes, fun late => stillEarly ((lateIs u).mp late)⟩
  · intro u c takes holds
    change Holds (Function.update p.place t .lockJoinState u) at holds
    change ∃ v, Function.update p.result call (some value) c = some v ∧
      Function.update p.threadFuncResult t (some value) u = some v
    by_cases mine : u = t
    · subst mine
      cases serves.symm.trans takes
      exact ⟨value, Function.update_self .., Function.update_self ..⟩
    · have other : c ≠ call := by
        rintro rfl
        exact mine (serves_one jobs takes serves)
      rw [Function.update_of_ne mine] at holds
      rw [Function.update_of_ne other, Function.update_of_ne mine]
      exact before.kept u c takes holds

/-- A thread whose function was joined is available again. -/
private theorem deliveries_returned (before : Deliveries p) (at' : p.place t = .lockList) :
    Deliveries ({ p with serves := Function.update p.serves t none }.goto t .testAgain) := by
  have late : Late (p.place t) := .inr (.inr at')
  refine ⟨before.value, before.single, ?_, ?_, ?_, ?_, before.order⟩
  · intro u c serves early
    change Function.update p.serves t none u = some c at serves
    change ¬ Late (Function.update p.place t _ u) at early
    by_cases mine : u = t
    · rw [mine, Function.update_self] at serves
      cases serves
    · rw [Function.update_of_ne mine] at serves early
      exact before.unjoined u c serves early
  · intro c ran past
    change Function.update p.serves t none (p.newThread c) ≠ some c ∨
      Late (Function.update p.place t _ (p.newThread c)) at past
    refine before.joined c ran ?_
    by_cases mine : p.newThread c = t
    · rw [mine]
      exact .inr late
    · rw [Function.update_of_ne mine, Function.update_of_ne mine] at past
      exact past
  · intro k u c awaits
    obtain ⟨serves, early⟩ := before.awaited k u c awaits
    have other : u ≠ t := by
      rintro rfl
      exact early late
    change Function.update p.serves t none u = some c ∧ ¬ Late (Function.update p.place t _ u)
    rw [Function.update_of_ne other, Function.update_of_ne other]
    exact ⟨serves, early⟩
  · intro u c serves holds
    change Function.update p.serves t none u = some c at serves
    change Holds (Function.update p.place t _ u) at holds
    by_cases mine : u = t
    · rw [mine, Function.update_self] at serves
      cases serves
    · rw [Function.update_of_ne mine] at serves holds
      exact before.kept u c serves holds

/-- A call that was not joined has its thread, before the join. -/
private theorem unjoined_call (before : Deliveries p) (jobs : Jobs p) (below : call < p.calls) (new : ¬ Delivered p call) :
    p.serves (p.newThread call) = some call ∧ ¬ Late (p.place (p.newThread call)) := by
  have serves : p.serves (p.newThread call) = some call := by
    by_contra other
    exact new (before.joined call ((jobs.done call below).resolve_left other) (.inl other))
  refine ⟨serves, fun late => ?_⟩
  obtain ⟨c, takes, ran, _⟩ := phase_follows (jobs.phase _ (jobs.made call below))
    (by rcases late with at' | at' | at' <;> simp [at', Rests, Starts])
  cases serves.symm.trans takes
  exact new (before.joined call ran (.inr late))

private theorem joined_mine : (joinedThread p j t call).joiner j = .joined call (p.threadFuncResult t) := Function.update_self ..

private theorem joined_other {k : Nat} (other : k ≠ j) : (joinedThread p j t call).joiner k = p.joiner k :=
  Function.update_of_ne other ..

private theorem joined_delivered (mine : p.joiner j = .idle ∨ p.joiner j = .woken t call) (c : Nat) :
    Delivered (joinedThread p j t call) c ↔ c = call ∨ Delivered p c := by
  constructor
  · rintro ⟨k, result, joined⟩
    by_cases same : k = j
    · rw [same, joined_mine] at joined
      cases joined
      exact .inl rfl
    · rw [joined_other same] at joined
      exact .inr ⟨k, result, joined⟩
  · rintro (rfl | ⟨k, result, joined⟩)
    · exact ⟨j, _, joined_mine⟩
    · have same : k ≠ j := by
        rintro rfl
        rcases mine with idle | woken
        · rw [idle] at joined
          cases joined
        · rw [woken] at joined
          cases joined
      exact ⟨k, result, (joined_other same).trans joined⟩

/-- A join takes the result of a thread that waits for it. -/
private theorem deliveries_joined (before : Deliveries p) (jobs : Jobs p) (serves : p.serves t = some call)
    (new : ¬ Delivered p call) (at' : p.place t = .joinWait) (others : ∀ k c, k ≠ j → ¬ Awaits t c (p.joiner k))
    (mine : p.joiner j = .idle ∨ p.joiner j = .woken t call) : Deliveries (joinedThread p j t call) := by
  have early : ¬ Late (p.place t) := by simp [at', Late]
  have below := (jobs.served t call serves).1
  have placeOther : ∀ u, u ≠ t → (joinedThread p j t call).place u = p.place u :=
    fun u other => Function.update_of_ne other ..
  have placeMine : (joinedThread p j t call).place t = .joinWoken := Function.update_self ..
  have delivered := joined_delivered mine
  have onlyMine : ∀ k, On call ((joinedThread p j t call).joiner k) → k = j := by
    intro k on
    by_contra same
    rw [joined_other same] at on
    rcases on with ⟨u, awaits⟩ | ⟨result, joined⟩
    · have target : u = t := serves_one jobs (before.awaited k u call awaits).1 serves
      rw [target] at awaits
      exact others k call same awaits
    · exact new ⟨k, result, joined⟩
  refine ⟨?_, ?_, ?_, ?_, ?_, ?_, ?_⟩
  · intro k c result joined
    by_cases same : k = j
    · rw [same, joined_mine] at joined
      cases joined
      obtain ⟨value, returned, held⟩ := before.kept t call serves (.inr at')
      exact ⟨below, value, returned, held⟩
    · rw [joined_other same] at joined
      exact before.value k c result joined
  · intro k l c first second
    by_cases ours : c = call
    · subst ours
      exact (onlyMine k first).trans (onlyMine l second).symm
    · have other : ∀ m, On c ((joinedThread p j t call).joiner m) → m ≠ j := by
        rintro m on rfl
        rw [joined_mine] at on
        rcases on with ⟨u, awaits⟩ | ⟨result, joined⟩
        · simp [Awaits] at awaits
        · cases joined
          exact ours rfl
      rw [joined_other (other k first)] at first
      rw [joined_other (other l second)] at second
      exact before.single k l c first second
  · intro u c takes stillEarly
    by_cases same : u = t
    · rw [same, placeMine] at stillEarly
      exact absurd (.inl rfl) stillEarly
    · rw [placeOther u same] at stillEarly
      rw [delivered]
      rintro (rfl | old)
      · exact same (serves_one jobs takes serves)
      · exact before.unjoined u c takes stillEarly old
  · intro c ran past
    rw [delivered]
    by_cases ours : c = call
    · exact .inl ours
    · refine .inr (before.joined c ran ?_)
      change p.serves (p.newThread c) ≠ some c ∨ Late ((joinedThread p j t call).place (p.newThread c)) at past
      by_cases same : p.newThread c = t
      · rw [same, serves]
        exact .inl fun equal => ours (Option.some.inj equal).symm
      · rw [placeOther _ same] at past
        exact past
  · intro k u c awaits
    have same : k ≠ j := by
      rintro rfl
      rw [joined_mine] at awaits
      simp [Awaits] at awaits
    rw [joined_other same] at awaits
    have other : u ≠ t := by
      rintro rfl
      exact others k c same awaits
    rw [placeOther u other]
    exact before.awaited k u c awaits
  · intro u c takes holds
    by_cases same : u = t
    · rw [same, placeMine] at holds
      simp [Holds] at holds
    · rw [placeOther u same] at holds
      exact before.kept u c takes holds
  · exact before.order.imp fun first sameThread => (delivered _).mpr (.inr (first sameThread))

/-- A join begins to wait. -/
private theorem deliveries_waits (before : Deliveries p) (jobs : Jobs p) (idle : p.joiner j = .idle)
    (serves : p.serves t = some call) (early : ¬ Late (p.place t)) (others : ∀ k c, ¬ Awaits t c (p.joiner k)) :
    Deliveries (waitedThread p j t call) := by
  have joinerOther : ∀ k, k ≠ j → (waitedThread p j t call).joiner k = p.joiner k :=
    fun k other => Function.update_of_ne other ..
  have joinerMine : (waitedThread p j t call).joiner j = .waiting t call := Function.update_self ..
  have joinedIs : ∀ k c result, (waitedThread p j t call).joiner k = .joined c result ↔ p.joiner k = .joined c result := by
    intro k c result
    by_cases same : k = j
    · rw [same, joinerMine, idle]
      simp
    · rw [joinerOther k same]
  have delivered : ∀ c, Delivered (waitedThread p j t call) c ↔ Delivered p c :=
    fun c => exists_congr fun k => exists_congr fun result => joinedIs k c result
  have awaits : ∀ k u c, Awaits u c ((waitedThread p j t call).joiner k) → k = j ∧ u = t ∧ c = call ∨
      k ≠ j ∧ Awaits u c (p.joiner k) := by
    intro k u c waits
    by_cases same : k = j
    · rw [same, joinerMine] at waits
      rcases waits with waits | woken
      · cases waits
        exact .inl ⟨same, rfl, rfl⟩
      · cases woken
    · rw [joinerOther k same] at waits
      exact .inr ⟨same, waits⟩
  have onlyMine : ∀ k, On call ((waitedThread p j t call).joiner k) → k = j := by
    rintro k (⟨u, waits⟩ | ⟨result, joined⟩)
    · rcases awaits k u call waits with ⟨same, _⟩ | ⟨_, old⟩
      · exact same
      · have target : u = t := serves_one jobs (before.awaited k u call old).1 serves
        rw [target] at old
        exact absurd old (others k call)
    · exact absurd ⟨k, result, (joinedIs k call result).mp joined⟩ (before.unjoined t call serves early)
  refine ⟨?_, ?_, ?_, ?_, ?_, before.kept, ?_⟩
  · intro k c result joined
    exact before.value k c result ((joinedIs k c result).mp joined)
  · intro k l c first second
    by_cases ours : c = call
    · subst ours
      exact (onlyMine k first).trans (onlyMine l second).symm
    · have old : ∀ m, On c ((waitedThread p j t call).joiner m) → On c (p.joiner m) := by
        rintro m (⟨u, waits⟩ | ⟨result, joined⟩)
        · rcases awaits m u c waits with ⟨_, _, same⟩ | ⟨_, waits⟩
          · exact absurd same ours
          · exact .inl ⟨u, waits⟩
        · exact .inr ⟨result, (joinedIs m c result).mp joined⟩
      exact before.single k l c (old k first) (old l second)
  · intro u c takes stillEarly new
    exact before.unjoined u c takes stillEarly ((delivered c).mp new)
  · intro c ran past
    exact (delivered c).mpr (before.joined c ran past)
  · intro k u c waits
    rcases awaits k u c waits with ⟨_, rfl, rfl⟩ | ⟨_, old⟩
    · exact ⟨serves, early⟩
    · exact before.awaited k u c old
  · exact before.order.imp fun first sameThread => (delivered _).mpr (first sameThread)

/-- The invariant of a pool that is not detached and has one join for each run. -/
private structure Inv (p : SThreadPool V) : Prop where
  pool : ThreadPoolBookkeeping.Inv p
  attached : p.isDetached = false
  deliveries : Deliveries p

private theorem handOut_attached (p : SThreadPool V) (t : Nat) : (handOut p t).isDetached = p.isDetached := by
  obtain ⟨_, _, _, _, same⟩ := relinked_addInUse p t
  rw [handOut, same]

private theorem runThread_kept {created : Bool} {error : Option String} (inv : Inv p)
    (ran : threadPoolRunThread p created = some (p', error)) : p'.isDetached = false ∧ Deliveries p' := by
  obtain ⟨available, inUse, lists⟩ := inv.pool.lists
  rcases runThread_cases inv.pool.running ran with ⟨rfl, _⟩ | ⟨t, _, first, rfl⟩ | ⟨_, rfl⟩
  · exact ⟨inv.attached, inv.deliveries⟩
  · obtain ⟨rest, rfl, _⟩ := handOut_available lists first
    obtain ⟨made, idle⟩ := (lists.free t).mp List.mem_cons_self
    have relinked := relinked_takeFirst p t
    have jobs := jobs_relinked inv.pool.jobs relinked
    have kept := deliveries_relinked inv.deliveries relinked
    rw [handOut_attached]
    obtain ⟨_, _, _, _, same⟩ := relinked
    refine ⟨by rw [same]; exact inv.attached, deliveries_handOut kept jobs ?_ ?_⟩
    · rw [same]
      exact made
    · rw [same]
      exact idle
  · rw [handOut_attached]
    exact ⟨inv.attached, deliveries_handOut (deliveries_create inv.deliveries inv.pool.jobs) (jobs_create inv.pool.jobs)
      (Nat.lt_succ_self _) (inv.pool.jobs.unborn _ (Nat.le_refl _)).2⟩

private theorem setFunction_kept (inv : Inv p) (ran : threadPoolSetFunction p call = some p') :
    p'.isDetached = false ∧ Deliveries p' := by
  obtain ⟨_, same⟩ := Option.ite_none_right_eq_some.mp ran
  cases same
  unfold signalStartCondition
  by_cases waits : p.place (p.newThread call) = .startWait
  · rw [if_pos waits]
    have moved : Deliveries (p.goto (p.newThread call) .startWoken) :=
      deliveries_goto inv.deliveries (by simp [waits, Late]) (by simp [Holds])
    exact ⟨inv.attached, { moved with }⟩
  · rw [if_neg waits]
    exact ⟨inv.attached, { inv.deliveries with }⟩

private theorem mainLoop_kept {wakes : Wakes} (inv : Inv p) (ran : threadPoolThreadMainLoop p t wakes = some p') :
    p'.isDetached = false ∧ Deliveries p' := by
  have running : ¬ p.isShuttingDown = true := by simp [inv.pool.running]
  have moves : ∀ place, (Late place ↔ Late (p.place t)) → (Holds place → Holds (p.place t)) →
      (p.goto t place).isDetached = false ∧ Deliveries (p.goto t place) :=
    fun _ late holds => ⟨inv.attached, deliveries_goto inv.deliveries late holds⟩
  unfold threadPoolThreadMainLoop at ran
  cases at' : p.place t <;> rw [at'] at ran <;> try cases ran
  case lockStart =>
    apply moves
    · split <;> simp [at', Late]
    · split <;> simp [Holds]
  case beforeStartWait => exact moves _ (by simp [at', Late]) (by simp [Holds])
  case startWoken => exact moves _ (by simp [at', Late]) (by simp [Holds])
  case testShuttingDown =>
    rw [if_neg running]
    exact moves _ (by simp [at', Late]) (by simp [Holds])
  case callFunc =>
    have sound := callFunc_sound inv.pool at'
    obtain ⟨c, result, serves, _⟩ := jobs_callThreadFunc inv.pool.jobs at' sound
    have made := inv.pool.jobs.created (t := t) (by simp [at'])
    have new : ¬ Ran p c := by
      rcases inv.pool.jobs.phase t made with ⟨idle, _⟩ | ⟨other, takes, ⟨new, _⟩ | ⟨new, _⟩ | ⟨_, _, follows, _⟩⟩
      · cases idle.symm.trans serves
      · cases takes.symm.trans serves
        exact new
      · cases takes.symm.trans serves
        exact new
      · simp [at', Follows] at follows
    rw [result]
    have executed := deliveries_executed inv.deliveries inv.pool.jobs serves new (by simp [at', Late])
    have moved : Deliveries ({ p with executed := p.executed ++ [(c, t)] }.goto t (.running c)) :=
      deliveries_goto executed (by simp [at', Late]) (by simp [Holds])
    exact ⟨inv.attached, { moved with }⟩
  case lockJoinState =>
    have made := inv.pool.jobs.created (t := t) (by simp [at'])
    obtain ⟨_, state, waiters, joiner, woken, rfl⟩ := joins_announceFinish inv.pool.joins made at' ran
    have moved : Deliveries (p.goto t .joinWait) := deliveries_goto inv.deliveries (by simp [at', Late]) (by simp [at', Holds])
    refine ⟨inv.attached, deliveries_frame moved ⟨rfl, rfl, rfl, rfl, rfl⟩ (fun k => ?_) fun _ _ _ => ⟨Iff.rfl, id, rfl⟩⟩
    change Alike (joiner k) (p.joiner k)
    rcases woken k with same | same <;> rw [same]
    · exact alike_refl _
    · exact alike_wake _
  case joinWoken =>
    have moved : Deliveries (p.goto t .clearFunc) := deliveries_goto inv.deliveries (by simp [at', Late]) (by simp [Holds])
    exact ⟨inv.attached, { moved with }⟩
  case clearFunc =>
    have moved : Deliveries (p.goto t .lockList) := deliveries_goto inv.deliveries (by simp [at', Late]) (by simp [Holds])
    exact ⟨inv.attached, { moved with }⟩
  case lockList =>
    rw [if_pos inv.pool.kept] at ran
    cases ran
    have made := inv.pool.jobs.created (t := t) (by simp [at'])
    obtain ⟨c, serves, _⟩ := phase_follows (inv.pool.jobs.phase t made) (by simp [at', Rests, Starts])
    obtain ⟨available, inUse, lists⟩ := inv.pool.lists
    obtain ⟨rest, result, _⟩ := returnToPool_lists lists inv.pool.running ((lists.busy t).mpr ⟨made, by simp [serves]⟩)
    have returned := deliveries_returned inv.deliveries at'
    have relinked := relinked_trans (relinked_removeInUse p t) (relinked_makeAvailable (removeInUse p t) t)
    obtain ⟨_, _, _, _, same⟩ := relinked
    rw [result, same]
    exact ⟨inv.attached, { returned with }⟩
  case testAgain =>
    rw [if_neg running]
    exact moves _ (by simp [at', Late]) (by simp [Holds])

private theorem returns_kept {value : V} (inv : Inv p) (ran : functionReturns p t value = some p') :
    p'.isDetached = false ∧ Deliveries p' := by
  unfold functionReturns at ran
  cases at' : p.place t <;> rw [at'] at ran <;> try cases ran
  case running call =>
    have made := inv.pool.jobs.created (t := t) (by simp [at'])
    obtain ⟨c, serves, _, _, follows, _⟩ := phase_follows (inv.pool.jobs.phase t made) (by simp [at', Rests, Starts])
    have same : call = c := by simpa [at', Follows] using follows
    subst same
    rw [if_neg (by simp [inv.attached])]
    exact ⟨inv.attached, deliveries_returns inv.deliveries inv.pool.jobs serves (by simp [at', Late])⟩

/-- No join waits for a thread that is neither waited for nor has woken one. -/
private theorem none_awaits (joins : Joins p) (empty : p.joinWaiters t = []) (none : NoneWoken p t) (k c : Nat) :
    ¬ Awaits t c (p.joiner k) := by
  rintro (waits | woken)
  · have listed := (joins.waiting k t c waits).1
    rw [empty] at listed
    cases listed
  · exact none k c woken

/-- A join, which is the first one on its handle or is refused. -/
private theorem join_kept {wakes : Wakes} (inv : Inv p) (first : FirstJoin p (.join j call wakes)) (idle : p.joiner j = .idle)
    (given : p.returned call = true) (ran : threadPoolThreadJoin p j (p.newThread call) call wakes = some p') :
    p'.isDetached = false ∧ Deliveries p' := by
  have jobs := inv.pool.jobs
  have below := jobs.handed call given
  have phase := inv.pool.joins.phase (p.newThread call)
  have unjoined : p.state (p.newThread call) ≠ .runningJoined → p.state (p.newThread call) ≠ .finishedJoined →
      ¬ Delivered p call := fun notRunning notFinished => first.resolve_right (not_or.mpr ⟨notRunning, notFinished⟩)
  obtain ⟨_, ⟨error, rfl, _⟩ | ⟨rfl, state⟩ | ⟨rfl, state⟩⟩ :=
    join_cases inv.pool.joins (jobs.made call below) idle ⟨rfl, given⟩ ran
  · refine ⟨inv.attached, deliveries_frame inv.deliveries ⟨rfl, rfl, rfl, rfl, rfl⟩ (fun k => ?_)
      fun _ _ _ => ⟨Iff.rfl, id, rfl⟩⟩
    change Alike (Function.update p.joiner j _ k) _
    by_cases same : k = j
    · rw [same, Function.update_self, idle]
      simp [Alike, Awaits]
    · rw [Function.update_of_ne same]
      exact alike_refl _
  · have new := unjoined (by simp [state]) (by simp [state])
    obtain ⟨serves, early⟩ := unjoined_call inv.deliveries jobs below new
    unfold JoinPhase at phase
    simp only [state] at phase
    exact ⟨inv.attached, deliveries_waits inv.deliveries jobs idle serves early
      fun k c => none_awaits inv.pool.joins phase.2.1 phase.2.2 k c⟩
  · have new := unjoined (by rcases state with state | state <;> simp [state]) (by rcases state with state | state <;> simp [state])
    obtain ⟨serves, early⟩ := unjoined_call inv.deliveries jobs below new
    have at' : p.place (p.newThread call) = .joinWait :=
      (finished_phase phase (by tauto)).1.resolve_right fun woken => early (.inl woken)
    have rest : p.joinWaiters (p.newThread call) = [] ∧ NoneWoken p (p.newThread call) := by
      unfold JoinPhase at phase
      rcases state with state | state <;> simp only [state] at phase <;> exact phase.2
    exact ⟨inv.attached, deliveries_joined inv.deliveries jobs serves new at'
      (fun k c _ => none_awaits inv.pool.joins rest.1 rest.2 k c) (.inl idle)⟩

/-- A join that waited takes the result of its own call. -/
private theorem joinAgain_kept {wakes : Wakes} (inv : Inv p) (woken : p.joiner j = .woken t call)
    (ran : joinAfterWait p j t call wakes = some p') : p'.isDetached = false ∧ Deliveries p' := by
  obtain ⟨newThread, given⟩ := inv.pool.joins.woken j t call woken
  have made := inv.pool.jobs.made call (inv.pool.jobs.handed call given)
  rw [newThread] at made
  obtain ⟨state, rfl, _⟩ := joinAfterWait_cases inv.pool.joins made woken ran
  obtain ⟨serves, early⟩ := inv.deliveries.awaited j t call (.inr woken)
  have phase := inv.pool.joins.phase t
  unfold JoinPhase at phase
  simp only [state] at phase
  obtain ⟨at', empty, k, only⟩ := phase
  have mine := (only j).mp ⟨call, woken⟩
  refine ⟨inv.attached, deliveries_joined inv.deliveries inv.pool.jobs serves
    (inv.deliveries.unjoined t call serves early) at' ?_ (.inr woken)⟩
  rintro l c other (waits | woke)
  · have listed := (inv.pool.joins.waiting l t c waits).1
    rw [empty] at listed
    cases listed
  · exact other (((only l).mp ⟨c, woke⟩).trans mine.symm)

private theorem first_undisturbed {a : Act V} (first : FirstJoin p a) : Undisturbed a := by
  cases a <;> first | exact trivial | exact first

private theorem step_inv {a : Act V} (inv : Inv p) (first : FirstJoin p a) (ran : step p a = some p') : Inv p' := by
  have pool := ThreadPoolBookkeeping.step_inv inv.pool (first_undisturbed first) ran
  suffices kept : p'.isDetached = false ∧ Deliveries p' from ⟨pool, kept.1, kept.2⟩
  cases a with
  | runThread created =>
    obtain ⟨⟨q, error⟩, run, rfl⟩ := Option.map_eq_some_iff.mp ran
    exact runThread_kept inv run
  | setFunction call => exact setFunction_kept inv ran
  | work t wakes => exact mainLoop_kept inv ran
  | returns t value => exact returns_kept inv ran
  | join j call wakes =>
    simp only [step] at ran
    split at ran
    · rename_i idle
      obtain ⟨given, ran⟩ := Option.ite_none_right_eq_some.mp ran
      exact join_kept inv first idle given ran
    · cases ran
  | joinAgain j wakes =>
    simp only [step] at ran
    split at ran
    · rename_i thread call woken
      exact joinAgain_kept inv woken ran
    · cases ran
  | destroy | wakeStart | wakeJoin | wakeJoiner => exact first.elim

private theorem Inv.oneJoin (inv : Inv p) : OneJoin p where
  own := fun j call result joined => (inv.deliveries.value j call result joined).2
  single := inv.deliveries.single
  sound := by
    refine ⟨inv.pool.joins.sound, fun t failed => ?_⟩
    have made := inv.pool.jobs.created (t := t) (by simp [failed])
    have phase := inv.pool.jobs.phase t made
    rw [failed] at phase
    simp [Phase, Rests, Starts, Follows] at phase
  order := inv.deliveries.order

end

private theorem create_inv (initialSize : Nat) : Inv (threadPoolCreate false initialSize : SThreadPool V) := by
  induction initialSize with
  | zero =>
    refine ⟨ThreadPoolBookkeeping.create_inv false 0, rfl, ?_, ?_, ?_, ?_, ?_, ?_, List.Pairwise.nil⟩ <;>
      simp [threadPoolCreate, empty, On, Awaits, Ran]
  | succ initialSize ih =>
    have relinked := relinked_makeAvailable
      (threadPoolThreadCreate (threadPoolCreate false initialSize : SThreadPool V)).2
      (threadPoolThreadCreate (threadPoolCreate false initialSize : SThreadPool V)).1
    refine ⟨ThreadPoolBookkeeping.create_inv false (initialSize + 1), ?_,
      deliveries_relinked (deliveries_create ih.deliveries ih.pool.jobs) relinked⟩
    obtain ⟨_, _, _, _, same⟩ := relinked
    rw [threadPoolCreate]
    simp only [same]
    exact ih.attached

/-- While a handle is joined once only, or the other joins are refused, every run of a pool
    that is not detached has one join. -/
theorem one_join {initialSize : Nat} {acts : List (Act V)}
    (first : Guarded step FirstJoin (threadPoolCreate false initialSize) acts) :
    Visits step OneJoin (threadPoolCreate false initialSize) acts :=
  visits_mono (fun _ inv => inv.oneJoin)
    (guarded_visits (fun _ _ _ inv allowed ran => step_inv inv allowed ran) (create_inv initialSize) first)

/-- A join that waits, and one that is refused. -/
theorem one_join_refused : Visits step OneJoin (threadPoolCreate false 1 : SThreadPool Nat)
    [.runThread true, .setFunction 0, .join 0 0 .nobody, .join 1 0 .nobody, .work 0 .nobody] := by
  apply one_join
  refine guarded_step trivial rfl ?_
  refine guarded_step trivial rfl ?_
  refine guarded_step (.inl ?_) rfl ?_
  · rintro ⟨j, result, joined⟩
    cases joined
  · refine guarded_step (.inr (.inl rfl)) rfl ?_
    exact ⟨trivial, fun _ _ => trivial⟩

/-- Two joins on the handle of one run return `NULL` when the second one comes before the
    thread goes on; and a join that comes later takes the result of the next run. -/
theorem second_join_succeeds :
    (∃ p, run step (threadPoolCreate false 1 : SThreadPool Nat) [.runThread true, .setFunction 0, .work 0 .nobody,
        .work 0 .nobody, .work 0 .nobody, .returns 0 5, .work 0 .nobody, .join 0 0 .poolThread, .join 1 0 .nobody] = some p ∧
      p.joiner 0 = .joined 0 (some 5) ∧ p.joiner 1 = .joined 0 (some 5)) ∧
    ∃ p, run step (threadPoolCreate false 1 : SThreadPool Nat) [.runThread true, .setFunction 0, .work 0 .nobody,
        .work 0 .nobody, .work 0 .nobody, .returns 0 5, .work 0 .nobody, .join 0 0 .poolThread, .work 0 .nobody,
        .work 0 .nobody, .work 0 .nobody, .work 0 .nobody, .runThread true, .setFunction 1, .work 0 .nobody,
        .work 0 .nobody, .work 0 .nobody, .join 1 0 .nobody, .returns 0 6, .work 0 (.joiner 1),
        .joinAgain 1 .poolThread] = some p ∧
      p.result 0 = some 5 ∧ p.joiner 1 = .joined 0 (some 6) :=
  ⟨⟨_, rfl, rfl, rfl⟩, ⟨_, rfl, rfl, rfl⟩⟩

end VoxiUtil.ThreadPoolJoins
