import VoxiUtil.TimerSurvival

/-!
The interval of a random timer of `timer.c`. `calcRandomInterval` takes `random()` modulo
the difference of the ends, after each was raised to the resolution; an event keeps the
ends for all of its repetitions.
-/
namespace VoxiUtil.TimerRandom
open VoxiUtil.Runs
open VoxiUtil.Timer
open VoxiUtil.TimerLists
open VoxiUtil.TimerQueue
open VoxiUtil.TimerSurvival (longMax intMin intMin_le_toInt toInt_toLong)
open VoxiUtil.Limits.Signed (intMax)
variable {V : Type}

/-- A delay that lies in the interval. -/
def Within (min max delay : Int) : Prop := min ≤ delay ∧ delay ≤ max

/-- Whatever `random()` gives, `tem_addRandom` adds its event for a time in the interval. -/
def StartsWithin (s : System V) (minIntervalMillis maxIntervalMillis : Int) (client : Client V) : Prop :=
  ∀ random : Nat, (random : Int) ≤ longMax → ∃ t, step s (.addRandom minIntervalMillis maxIntervalMillis client random) = some t ∧
    Within (atLeast s.timers.callbackInterval minIntervalMillis) (atLeast s.timers.callbackInterval maxIntervalMillis)
      (timeOf t.timers.events s.timers.allocated - s.timers.timerTimeMillis)

/-- In every run behind `tem_addRandom`, whatever `random()` gives, the next time that `doOneEvent` would propose for
    the event, as long as it was not freed, lies in the interval. -/
def RepeatsWithin (s : System V) (minIntervalMillis maxIntervalMillis : Int) (client : Client V) : Prop :=
  ∀ (first : Nat) (labels : List (Act V)) (t u : System V), (first : Int) ≤ longMax →
    step s (.addRandom minIntervalMillis maxIntervalMillis client first) = some t →
    Guarded step Enabled t labels → run step t labels = some u →
    ∀ e, u.timers.events s.timers.allocated = some e → ∀ random : Nat, (random : Int) ≤ longMax →
      ∃ nextTime, proposed e random = some nextTime ∧
        Within (atLeast s.timers.callbackInterval minIntervalMillis) (atLeast s.timers.callbackInterval maxIntervalMillis)
          (nextTime - e.atTimeMillis)

/-- The random timer stays in its interval, at its start and in all of its repetitions. -/
def StaysWithin (s : System V) (minIntervalMillis maxIntervalMillis : Int) (client : Client V) : Prop :=
  StartsWithin s minIntervalMillis maxIntervalMillis client ∧ RepeatsWithin s minIntervalMillis maxIntervalMillis client

/-- The clock stays a `long`. -/
def NoOverflow (s : System V) : Act V → Prop
  | .tick => s.timers.timerTimeMillis + s.timers.callbackInterval ≤ longMax
  | _ => True

/-- An event that still is the same random timer, at another time perhaps. -/
structure SameTimer (min max : Int) (e : TimerEvent V) : Prop where
  kind : e.timerType = .random
  low : e.randomMinInterval = min
  high : e.randomMaxInterval = max
  early : intMin ≤ e.atTimeMillis
  late : e.atTimeMillis ≤ intMax

/-- What is found at the address of the event is this timer. -/
structure Belongs (event : Nat) (min max : Int) (s : Timers V) : Prop where
  old : event < s.allocated
  same : ∀ e, s.events event = some e → SameTimer min max e

section
variable {s t : System V} {act : Act V} {event a : Nat} {e : TimerEvent V} {timerHandler : Int → Int → Int} {random : Nat}
  {min max time callbackInterval : Int} {client : Client V}

/-! ### One interval -/

theorem toLong_fits (low : -longMax - 1 ≤ time) (high : time ≤ longMax) : toLong time = time := by
  rw [longMax] at low high
  exact Int.bmod_eq_of_le_mul_two (by omega) (by omega)

theorem toInt_le_intMax (time : Int) : toInt time ≤ intMax := by
  have high : toInt time < (((4294967296 : Nat) : Int) + 1) / 2 := Int.bmod_lt (by decide)
  rw [intMax]
  omega

/-- Ends that differ are not divided by zero, and the upper one is never reached. -/
theorem calcRandomInterval_within (positive : 0 ≤ min) (order : min < max) (high : max ≤ longMax) (random : Nat) :
    calcRandomInterval min max random = some (min + (random : Int) % (max - min)) ∧
      min ≤ min + (random : Int) % (max - min) ∧ min + (random : Int) % (max - min) < max := by
  have range : toLong (max - min) = max - min := toLong_fits (by rw [longMax] at *; omega) (by omega)
  have low := Int.emod_nonneg (random : Int) (b := max - min) (by omega)
  have small := Int.emod_lt_of_pos (random : Int) (b := max - min) (by omega)
  have inside : toLong (min + (random : Int) % (max - min)) = min + (random : Int) % (max - min) :=
    toLong_fits (by rw [longMax] at *; omega) (by omega)
  refine ⟨?_, by omega, by omega⟩
  rw [calcRandomInterval, range, if_neg (by omega), Int.tmod_eq_emod_of_nonneg (Int.natCast_nonneg random), inside]

theorem calcRandomInterval_equal (random : Nat) : calcRandomInterval min min random = none := by
  rw [calcRandomInterval, Int.sub_self]
  exact if_pos rfl

theorem atLeast_mono (order : min ≤ max) : atLeast callbackInterval min ≤ atLeast callbackInterval max := by
  simp only [atLeast]
  split <;> split <;> omega

theorem atLeast_lt (order : min ≤ max) (apart : atLeast callbackInterval min ≠ atLeast callbackInterval max) :
    atLeast callbackInterval min < atLeast callbackInterval max :=
  Int.lt_iff_le_and_ne.mpr ⟨atLeast_mono order, apart⟩

theorem atLeast_positive (positive : 0 < callbackInterval) : 0 < atLeast callbackInterval min := by
  simp only [atLeast]
  split <;> omega

theorem atLeast_le_longMax (resolution : callbackInterval ≤ intMax) (high : max ≤ longMax) :
    atLeast callbackInterval max ≤ longMax := by
  rw [intMax] at resolution
  rw [longMax] at *
  simp only [atLeast]
  split <;> omega

/-- What is proposed for a random timer. -/
theorem proposed_within (same : SameTimer min max e) (positive : 0 ≤ min) (order : min < max) (high : max ≤ intMax + 1) (random : Nat) :
    ∃ nextTime, proposed e random = some nextTime ∧ Within min max (nextTime - e.atTimeMillis) := by
  have early := same.early
  have late := same.late
  rw [intMin] at early
  rw [intMax] at late high
  obtain ⟨found, low, small⟩ := calcRandomInterval_within positive order (by rw [longMax]; omega) random
  have fits : toLong (e.atTimeMillis + (min + (random : Int) % (max - min))) = e.atTimeMillis + (min + (random : Int) % (max - min)) :=
    toLong_fits (by rw [longMax]; omega) (by rw [longMax]; omega)
  refine ⟨e.atTimeMillis + (min + (random : Int) % (max - min)), ?_, by omega, by omega⟩
  simp only [proposed, same.kind, same.low, same.high, found, Option.map_some, fits]

/-! ### The event in a run -/

theorem same_content {e e' : TimerEvent V} (equal : content e' = content e) (same : SameTimer min max e) : SameTimer min max e' := by
  obtain ⟨kind, times, -⟩ := content_same equal
  have low := congrArg TimerEvent.randomMinInterval equal
  have high := congrArg TimerEvent.randomMaxInterval equal
  simp only [content] at low high
  exact ⟨kind.trans same.kind, low.trans same.low, high.trans same.high, times ▸ same.early, times ▸ same.late⟩

theorem relinked_belongs {s t : Timers V} (relinked : Relinked s t) (belongs : Belongs event min max s) : Belongs event min max t := by
  refine ⟨relinked.allocated ▸ belongs.old, fun e' there => ?_⟩
  obtain ⟨e, here, equal⟩ := present_content (relinked.contents event) there
  exact same_content equal.symm (belongs.same e here)

theorem withEvent_belongs {s : Timers V} (belongs : Belongs event min max s) (e : TimerEvent V) :
    Belongs event min max (withEvent s e) := by
  refine ⟨Nat.lt_succ_of_lt belongs.old, fun e' there => belongs.same e' ?_⟩
  simpa [withEvent, Nat.ne_of_lt belongs.old] using there

theorem forget_belongs {s : Timers V} (belongs : Belongs event min max s) (a : Nat) : Belongs event min max (forget s a) := by
  refine ⟨belongs.old, fun e' there => ?_⟩
  by_cases own : event = a
  · simp [forget, own] at there
  · exact belongs.same e' (by simpa [forget, own] using there)

theorem withTime_belongs {s : Timers V} (belongs : Belongs event min max s) (here : s.events a = some e) (time : Int) :
    Belongs event min max (withTime s a e (toInt time)) := by
  refine ⟨belongs.old, fun e' there => ?_⟩
  by_cases own : event = a
  · subst own
    have new : (withTime s event e (toInt time)).events event = some { e with atTimeMillis := toInt time } := Function.update_self _ _ _
    cases new.symm.trans there
    have same := belongs.same e here
    exact ⟨same.kind, same.low, same.high, intMin_le_toInt time, toInt_le_intMax time⟩
  · exact belongs.same e' (by simpa [withTime, own] using there)

theorem handled_belongs (belongs : Belongs event min max s.timers) (handled : Handled s a timerHandler random t) :
    Belongs event min max t.timers := by
  cases handled with
  | again here next goes later relinked => exact relinked_belongs relinked (withTime_belongs belongs here _)
  | ended here next stops => exact forget_belongs belongs a

theorem removeFirst_belongs {s : Timers V} (belongs : Belongs event min max s) (e : TimerEvent V) :
    Belongs event min max (removeFirst s e) := by
  refine ⟨belongs.old, fun e' there => ?_⟩
  have contents : ((removeFirst s e).events event).map content = (s.events event).map content := setPrev_content event
  obtain ⟨e'', here, equal⟩ := present_content contents there
  exact same_content equal.symm (belongs.same e'' here)

/-- No step makes another timer of an event. -/
theorem effect_belongs (belongs : Belongs event min max s.timers) (effect : Effect s act t) : Belongs event min max t.timers := by
  cases effect with
  | ignored => exact belongs
  | added unlocked adds relinked => exact relinked_belongs relinked (withEvent_belongs belongs _)
  | repetitive unlocked relinked => exact relinked_belongs relinked (withEvent_belongs belongs _)
  | cancelled unlocked member relinked => exact relinked_belongs relinked (forget_belongs belongs _)
  | ticked unlocked => exact ⟨belongs.old, belongs.same⟩
  | @spawned a e timerHandler random locked first member here early newThread =>
    have removed := removeFirst_belongs belongs e
    exact ⟨removed.old, removed.same⟩
  | fired locked first member here early newThread handled => exact handled_belongs (removeFirst_belongs belongs _) handled
  | unlocked locked late => exact ⟨belongs.old, belongs.same⟩
  | @thread a timerHandler random t member outside handled =>
    exact handled_belongs (s := { s with timers := started s.timers a }) ⟨belongs.old, belongs.same⟩ handled

/-- What `tem_addRandom` does, when the ends differ. -/
theorem addRandom_spec (inv : Inv s) (unlocked : s.timers.locked = false) (handler : client.timerHandler ≠ none)
    (positive : 0 < s.timers.callbackInterval) (resolution : s.timers.callbackInterval ≤ intMax) (high : max ≤ longMax)
    (apart : atLeast s.timers.callbackInterval min < atLeast s.timers.callbackInterval max) (random : Nat) :
    ∃ t interval, step s (.addRandom min max client random) = some t ∧ Inv t ∧
      interval = atLeast s.timers.callbackInterval min +
        (random : Int) % (atLeast s.timers.callbackInterval max - atLeast s.timers.callbackInterval min) ∧
      timeOf t.timers.events s.timers.allocated = toInt (s.timers.timerTimeMillis + interval) ∧
      Belongs s.timers.allocated (atLeast s.timers.callbackInterval min) (atLeast s.timers.callbackInterval max) t.timers := by
  have upper := atLeast_le_longMax resolution high
  have lower : 0 < atLeast s.timers.callbackInterval min := atLeast_positive positive
  obtain ⟨found, low, small⟩ := calcRandomInterval_within (Int.le_of_lt lower) apart upper random
  generalize interval : atLeast s.timers.callbackInterval min +
    (random : Int) % (atLeast s.timers.callbackInterval max - atLeast s.timers.callbackInterval min) = delay at *
  obtain ⟨nodes, listing, -⟩ := inv.list
  let e : TimerEvent V := ⟨toInt (toLong (s.timers.timerTimeMillis + delay)), client, .random, 0,
    atLeast s.timers.callbackInterval min, atLeast s.timers.callbackInterval max, none, none⟩
  obtain ⟨timers, -, done, -⟩ := addEvent_spec listing e
  have range : toLong (atLeast s.timers.callbackInterval max - atLeast s.timers.callbackInterval min) ≠ 0 := by
    rw [toLong_fits (by rw [longMax] at *; omega) (by omega)]
    omega
  obtain ⟨kept, relinked⟩ := added_inv inv none done fun _ => range
  have new : (withEvent s.timers e).events s.timers.allocated = some e := Function.update_self _ _ _
  obtain ⟨e', there, equal⟩ := relinked.present new
  have times : e'.atTimeMillis = toInt (s.timers.timerTimeMillis + delay) := (content_same equal).2.1.trans (toInt_toLong _)
  refine ⟨added s timers none, delay, ?_, kept, rfl, ?_, ?_⟩
  · simp only [e] at done
    simp [step, unlocked, temAddRandom, handler, found, done]
  · exact (timeOf_some there).trans times
  · refine relinked_belongs relinked ⟨Nat.lt_succ_self _, fun e'' here => ?_⟩
    cases new.symm.trans here
    exact ⟨rfl, rfl, rfl, intMin_le_toInt _, toInt_le_intMax _⟩

/-! ### The clock -/

/-- What holds in every state in which the clock stayed a `long`. -/
structure Clocked (callbackInterval : Int) (s : System V) : Prop where
  inv : Inv s
  clock : 0 ≤ s.timers.timerTimeMillis
  same : s.timers.callbackInterval = callbackInterval

theorem step_clocked (positive : 0 < callbackInterval) (clocked : Clocked callbackInterval s) (enabled : Enabled s act)
    (noOverflow : NoOverflow s act) (done : step s act = some t) : Clocked callbackInterval t := by
  obtain ⟨inv, effect⟩ := enabled_preserved s act t clocked.inv enabled done
  obtain ⟨same, clock⟩ := effect_clock effect
  refine ⟨inv, ?_, same.trans clocked.same⟩
  rcases clock with ⟨still, -⟩ | ⟨rfl, -, moved⟩ | ⟨stopped, -⟩
  · exact still ▸ clocked.clock
  · have low := clocked.clock
    have resolution := clocked.same
    have high : s.timers.timerTimeMillis + s.timers.callbackInterval ≤ longMax := noOverflow
    rw [moved]
    change 0 ≤ toLong (s.timers.timerTimeMillis + s.timers.callbackInterval)
    rw [toLong_fits (by rw [longMax]; omega) high]
    omega
  · rw [stopped]
    exact clocked.clock

/-! ### Random timers -/

theorem starts_within (clocked : Clocked callbackInterval s) (positive : 0 < callbackInterval) (resolution : callbackInterval ≤ intMax)
    (unlocked : s.timers.locked = false) (handler : client.timerHandler ≠ none) (order : min ≤ max) (high : max ≤ longMax)
    (apart : atLeast callbackInterval min ≠ atLeast callbackInterval max)
    (small : s.timers.timerTimeMillis + atLeast callbackInterval max ≤ intMax + 1) : StartsWithin s min max client := by
  obtain ⟨inv, clock, rfl⟩ := clocked
  intro random _
  have less := atLeast_lt order apart
  obtain ⟨t, interval, done, -, equal, time, -⟩ := addRandom_spec inv unlocked handler positive resolution high less random
  have lower : 0 < atLeast s.timers.callbackInterval min := atLeast_positive positive
  obtain ⟨-, low, below⟩ := calcRandomInterval_within (Int.le_of_lt lower) less (atLeast_le_longMax resolution high) random
  rw [← equal] at low below
  have fits : toInt (s.timers.timerTimeMillis + interval) = s.timers.timerTimeMillis + interval := by
    rw [intMax] at small
    exact Int.bmod_eq_of_le_mul_two (by omega) (by omega)
  exact ⟨t, done, by rw [time, fits]; exact ⟨by omega, by omega⟩⟩

theorem repeats_within (clocked : Clocked callbackInterval s) (positive : 0 < callbackInterval) (resolution : callbackInterval ≤ intMax)
    (unlocked : s.timers.locked = false) (handler : client.timerHandler ≠ none) (order : min ≤ max) (high : max ≤ longMax)
    (apart : atLeast callbackInterval min ≠ atLeast callbackInterval max)
    (small : s.timers.timerTimeMillis + atLeast callbackInterval max ≤ intMax + 1) : RepeatsWithin s min max client := by
  obtain ⟨inv, clock, rfl⟩ := clocked
  intro first labels t u _ done guarded ran e here random _
  have less := atLeast_lt order apart
  obtain ⟨t', interval, added, kept, -, -, belongs⟩ := addRandom_spec inv unlocked handler positive resolution high less first
  cases done.symm.trans added
  have later := @guarded_run _ _ _ Enabled
    (fun s' => Inv s' ∧ Belongs s.timers.allocated (atLeast s.timers.callbackInterval min) (atLeast s.timers.callbackInterval max) s'.timers)
    (fun s' act t' both enabled stepped => by
      obtain ⟨after, effect⟩ := enabled_preserved s' act t' both.1 enabled stepped
      exact ⟨after, effect_belongs both.2 effect⟩) _ _ _ ⟨kept, belongs⟩ guarded ran
  exact proposed_within (later.2.same e here) (Int.le_of_lt (atLeast_positive positive)) less (by omega) random

/-- Ends that are the same divide by zero. -/
theorem equal_ends_fail (handler : client.timerHandler ≠ none)
    (equal : atLeast s.timers.callbackInterval min = atLeast s.timers.callbackInterval max) : ¬ StartsWithin s min max client := by
  intro starts
  obtain ⟨t, done, -⟩ := starts 0 (by decide)
  have stuck : temAddRandom s.timers min max client 0 = none := by
    rw [temAddRandom, if_neg handler]
    simp only [equal, calcRandomInterval_equal, Option.bind_eq_bind, Option.bind_none]
  simp [step, stuck] at done

/-- A time that an `int` does not hold becomes an earlier one: the number is chosen that leads to the first such time. -/
theorem late_clock_fails (clocked : Clocked callbackInterval s) (positive : 0 < callbackInterval)
    (resolution : callbackInterval ≤ intMax) (unlocked : s.timers.locked = false) (handler : client.timerHandler ≠ none)
    (order : min ≤ max) (high : max ≤ longMax) (apart : atLeast callbackInterval min ≠ atLeast callbackInterval max)
    (large : intMax + 1 < s.timers.timerTimeMillis + atLeast callbackInterval max) : ¬ StartsWithin s min max client := by
  obtain ⟨inv, clock, rfl⟩ := clocked
  have less := atLeast_lt order apart
  have lower : 0 < atLeast s.timers.callbackInterval min := atLeast_positive positive
  have upper := atLeast_le_longMax resolution high
  intro starts
  obtain ⟨first, chosen⟩ : ∃ first, first = intMax + 1 - s.timers.timerTimeMillis - atLeast s.timers.callbackInterval min := ⟨_, rfl⟩
  have choice : (first.toNat : Int) = Max.max first 0 := Int.toNat_eq_max first
  obtain ⟨t, done, within⟩ := starts first.toNat (by rw [longMax] at *; rw [intMax] at chosen; omega)
  obtain ⟨t', interval, added, -, equal, time, -⟩ := addRandom_spec inv unlocked handler positive resolution high less first.toNat
  cases done.symm.trans added
  have modulo : (first.toNat : Int) % (atLeast s.timers.callbackInterval max - atLeast s.timers.callbackInterval min) = first.toNat :=
    Int.emod_eq_of_lt (by omega) (by omega)
  rw [modulo] at equal
  rw [time] at within
  have low := within.1
  have wrapped : toInt (s.timers.timerTimeMillis + interval) < s.timers.timerTimeMillis + atLeast s.timers.callbackInterval min := by
    rcases Int.le_total 0 first with ahead | behind
    · have border : s.timers.timerTimeMillis + interval = intMax + 1 := by omega
      rw [border]
      have lowest : toInt (intMax + 1) = -intMax - 1 := by decide
      rw [lowest]
      omega
    · have top := toInt_le_intMax (s.timers.timerTimeMillis + interval)
      omega
  omega

end

/-- In every state in which the clock stayed a `long`, a random timer stays in its interval just when the ends differ
    after they were raised to the resolution and an `int` holds every time at which it can begin. -/
theorem stays_iff {callbackInterval minIntervalMillis maxIntervalMillis : Int} (positive : 0 < callbackInterval)
    (resolution : callbackInterval ≤ intMax) {labels : List (Act V)} {s : System V}
    (guarded : Guarded step (fun s act => Enabled s act ∧ NoOverflow s act) (start V callbackInterval) labels)
    (ran : run step (start V callbackInterval) labels = some s) (unlocked : s.timers.locked = false) {client : Client V}
    (handler : client.timerHandler ≠ none) (order : minIntervalMillis ≤ maxIntervalMillis)
    (high : maxIntervalMillis ≤ longMax) :
    StaysWithin s minIntervalMillis maxIntervalMillis client ↔
      atLeast callbackInterval minIntervalMillis ≠ atLeast callbackInterval maxIntervalMillis ∧
        s.timers.timerTimeMillis + atLeast callbackInterval maxIntervalMillis ≤ intMax + 1 := by
  have begins : Clocked callbackInterval (start V callbackInterval) := ⟨start_inv callbackInterval, Int.le_refl 0, rfl⟩
  have clocked : Clocked callbackInterval s := by
    refine guarded_run (Clocked callbackInterval) ?_ begins guarded ran
    exact fun s act t clocked permitted done => step_clocked positive clocked permitted.1 permitted.2 done
  have same := clocked.same
  constructor
  · rintro ⟨starts, -⟩
    have apart : atLeast callbackInterval minIntervalMillis ≠ atLeast callbackInterval maxIntervalMillis :=
      fun equal => equal_ends_fail handler (same.symm ▸ equal) starts
    refine ⟨apart, Int.not_lt.mp fun large => ?_⟩
    exact late_clock_fails clocked positive resolution unlocked handler order high apart large starts
  · rintro ⟨apart, small⟩
    exact ⟨starts_within clocked positive resolution unlocked handler order high apart small,
      repeats_within clocked positive resolution unlocked handler order high apart small⟩

private def client : Client Unit := ⟨some (), none, 0, none, false⟩

theorem stays_iff_twenty : StaysWithin (start Unit 10) 20 30 client ↔
    atLeast 10 20 ≠ atLeast 10 30 ∧ (start Unit 10).timers.timerTimeMillis + atLeast 10 30 ≤ intMax + 1 :=
  @stays_iff Unit 10 20 30 (by decide) (by decide) [] _ trivial rfl rfl client (by decide) (by decide) (by decide)

/-- Both ends are raised to the resolution. -/
theorem short_interval_fails : ¬ StaysWithin (start Unit 10) 3 7 client := by
  intro stays
  exact equal_ends_fail (by decide) (by decide) stays.1

end VoxiUtil.TimerRandom
