import VoxiUtil.TimerQueue

/-!
When the timers of `timer.c` are never early. A time is a `long` in the functions and an
`int` in an event.
-/
namespace VoxiUtil.TimerEarly
open VoxiUtil.Runs
open VoxiUtil.Timer
open VoxiUtil.TimerLists
open VoxiUtil.TimerQueue
open VoxiUtil.Limits.Signed (intMax)
variable {V : Type}

/-- The clock with which the callback looks at the list next, or looks at it now. -/
def horizon (s : Timers V) : Int := if s.locked = true then s.timerTimeMillis else toLong (s.timerTimeMillis + s.callbackInterval)

/-- A time that is not shortened to an earlier one, or that has come when the list is looked at. -/
def Keeps (s : Timers V) (time : Int) : Prop := time ≤ intMax ∨ time ≤ horizon s

/-- What the handler of an event returns. -/
def resultOf (s : Timers V) (event : Nat) (timerHandler : Int → Int → Int) (random : Nat) : Option Int := do
  let e ← s.events event
  let nextTime ← proposed e random
  some (timerHandler e.atTimeMillis nextTime)

/-- The times that a step is given are kept. -/
def Permitted (s : System V) : Act V → Prop
  | .addOneShotAbsolute absTimeMillis _ => Keeps s.timers absTimeMillis
  | .addOneShotRelative relTimeMillis _ => Keeps s.timers (toLong (s.timers.timerTimeMillis + relTimeMillis))
  | .next timerHandler random => ∀ a e time, dueEvent s.timers = some (a, e) → e.client.newThread = false →
      resultOf s.timers a timerHandler random = some time → Keeps s.timers time
  | .thread event timerHandler random => ∀ time, resultOf s.timers event timerHandler random = some time → Keeps s.timers time
  | _ => True

/-- No event was taken out by a tick before the time that was given for it. -/
def NeverEarly (s : System V) : Prop := ∀ due clock, (due, clock) ∈ s.fired → due ≤ clock

/-- No event of the list is to be taken out before its time. -/
def Punctual (s : Timers V) (queued : List Nat) (due : Nat → Option Int) : Prop :=
  ∀ a ∈ queued, ∀ time, due a = some time → time ≤ timeOf s.events a ∨ time ≤ horizon s

section
variable {s t : Timers V} {queued : List Nat} {due : Nat → Option Int} {a : Nat} {e e' : TimerEvent V} {time : Int}

theorem le_toInt (small : time ≤ intMax) : time ≤ toInt time := by
  have low : -(((4294967296 : Nat) : Int) / 2) ≤ toInt time := Int.le_bmod (by decide)
  by_cases fits : -2147483648 ≤ time
  · have same : toInt time = time := by
      rw [intMax] at small
      exact Int.bmod_eq_of_le_mul_two (by omega) (by omega)
    exact Int.le_of_eq same.symm
  · omega

theorem kept_toInt (keeps : Keeps s time) : time ≤ toInt time ∨ time ≤ horizon s := keeps.imp_left le_toInt

theorem relinked_horizon (relinked : Relinked s t) : horizon t = horizon s := by
  rw [horizon, horizon, relinked.locked, relinked.timerTimeMillis, relinked.callbackInterval]

theorem withEvent_times (relinked : Relinked (withEvent s e) t) :
    timeOf t.events s.allocated = e.atTimeMillis ∧ (∀ b, b ≠ s.allocated → timeOf t.events b = timeOf s.events b) ∧
      horizon t = horizon s := by
  refine ⟨?_, ?_, (relinked_horizon relinked).trans rfl⟩
  · rw [relinked.timeOf]
    simp [withEvent, timeOf]
  · intro b other
    rw [relinked.timeOf]
    simp [withEvent, timeOf, other]

theorem withTime_times (relinked : Relinked (withTime s a e time) t) :
    timeOf t.events a = time ∧ (∀ b, b ≠ a → timeOf t.events b = timeOf s.events b) ∧ horizon t = horizon s := by
  refine ⟨?_, ?_, (relinked_horizon relinked).trans rfl⟩
  · rw [relinked.timeOf]
    simp [withTime, timeOf]
  · intro b other
    rw [relinked.timeOf]
    simp [withTime, timeOf, other]

theorem forget_times (relinked : Relinked (forget s a) t) :
    (∀ b, b ≠ a → timeOf t.events b = timeOf s.events b) ∧ horizon t = horizon s := by
  refine ⟨?_, (relinked_horizon relinked).trans rfl⟩
  intro b other
  rw [relinked.timeOf]
  simp [forget, timeOf, other]

/-- Links do not matter for what is proposed. -/
theorem proposed_content (same : content e' = content e) (random : Nat) : proposed e' random = proposed e random := by
  have bare : ∀ e : TimerEvent V, proposed e random = proposed (content e) random := fun _ => rfl
  rw [bare, same, ← bare]

theorem resultOf_content (same : (t.events a).map content = (s.events a).map content) (timerHandler : Int → Int → Int)
    (random : Nat) : resultOf t a timerHandler random = resultOf s a timerHandler random := by
  unfold resultOf
  cases here : t.events a with
  | none =>
    rw [here, Option.map_none, eq_comm, Option.map_eq_none_iff] at same
    rw [same]
  | some e =>
    obtain ⟨e', there, equal⟩ := present_content same here
    have times := (content_same equal).2.1
    simp only [there, Option.bind_eq_bind, Option.bind_some, proposed_content equal, times]

theorem punctual_insert {new : Option Int} (punctual : Punctual s queued due) (apart : ∀ b ∈ queued, b ≠ a)
    (times : ∀ b, b ≠ a → timeOf t.events b = timeOf s.events b) (same : horizon t = horizon s)
    (own : ∀ time, new = some time → time ≤ timeOf t.events a ∨ time ≤ horizon t) :
    Punctual t (a :: queued) (Function.update due a new) := by
  intro b member time given
  by_cases here : b = a
  · subst here
    rw [Function.update_self] at given
    exact own time given
  · have old : b ∈ queued := by simpa [here] using member
    rw [Function.update_of_ne here] at given
    rw [times b here, same]
    exact punctual b old time given

theorem punctual_frame {fewer : List Nat} (punctual : Punctual s queued due) (inside : ∀ b ∈ fewer, b ∈ queued)
    (times : ∀ b ∈ fewer, timeOf t.events b = timeOf s.events b) (same : horizon t = horizon s) : Punctual t fewer due := by
  intro b member time given
  rw [times b member, same]
  exact punctual b (inside b member) time given

end

/-! ### The steps -/

section
variable {s t : System V} {act : Act V} {a : Nat} {e : TimerEvent V} {timerHandler : Int → Int → Int} {random : Nat}

theorem handled_punctual (punctual : Punctual s.timers s.queued s.due) (outside : a ∉ s.queued)
    (keeps : ∀ time, resultOf s.timers a timerHandler random = some time → Keeps s.timers time)
    (handled : Handled s a timerHandler random t) : Punctual t.timers t.queued t.due ∧ t.fired = s.fired := by
  have apart : ∀ b ∈ s.queued, b ≠ a := by
    rintro b member rfl
    exact outside member
  cases handled with
  | @again e nextTime timers here next goes later relinked =>
    obtain ⟨own, others, same⟩ := withTime_times relinked
    refine ⟨punctual_insert punctual apart others same ?_, rfl⟩
    rintro time ⟨⟩
    have result : resultOf s.timers a timerHandler random = some (timerHandler e.atTimeMillis nextTime) := by
      simp only [resultOf, here, next, Option.bind_eq_bind, Option.bind_some]
    rw [own, same]
    exact kept_toInt (keeps _ result)
  | ended here next stops =>
    refine ⟨punctual_frame punctual (fun _ member => member) ?_ rfl, rfl⟩
    intro b member
    simp [forget, timeOf, apart b member]

theorem taken_early (punctual : Punctual s.timers s.queued s.due) (never : NeverEarly s) (locked : s.timers.locked = true)
    (member : a ∈ s.queued) (here : s.timers.events a = some e) (early : e.atTimeMillis ≤ s.timers.timerTimeMillis) :
    Punctual (removeFirst s.timers e) (s.queued.erase a) s.due ∧ NeverEarly (taken s (removeFirst s.timers e) a) := by
  constructor
  · refine punctual_frame punctual (fun b rest => List.mem_of_mem_erase rest) ?_ rfl
    exact fun b _ => timeOf_content (setPrev_content b)
  · intro time clock recorded
    rcases List.mem_append.mp recorded with old | new
    · exact never time clock old
    · rw [Option.mem_toList, Option.map_eq_some_iff] at new
      obtain ⟨given, promise, same⟩ := new
      cases same
      have come := punctual a member _ promise
      rw [timeOf_some here, horizon, if_pos locked] at come
      simp only [removeFirst]
      omega

/-- What a step preserves that keeps the times it is given. -/
theorem effect_early (inv : Inv s) (punctual : Punctual s.timers s.queued s.due) (never : NeverEarly s)
    (permitted : Permitted s act) (effect : Effect s act t) : Punctual t.timers t.queued t.due ∧ NeverEarly t := by
  have fresh : ∀ b ∈ s.queued, b ≠ s.timers.allocated := by
    intro b member
    obtain ⟨e, here⟩ := inv.present member
    exact Nat.ne_of_lt (inv.old here)
  cases effect with
  | ignored => exact ⟨punctual, never⟩
  | added unlocked adds relinked =>
    obtain ⟨own, others, same⟩ := withEvent_times relinked
    refine ⟨punctual_insert punctual fresh others same ?_, never⟩
    intro time given
    simp only [added]
    rw [own, same]
    cases adds with
    | oneShotAbsolute absTimeMillis client =>
      cases given
      exact kept_toInt permitted
    | oneShotRelative relTimeMillis client =>
      cases given
      exact kept_toInt permitted
    | random => cases given
  | repetitive unlocked relinked =>
    obtain ⟨own, others, same⟩ := withEvent_times relinked
    exact ⟨punctual_insert punctual fresh others same (by simp), never⟩
  | cancelled unlocked member relinked =>
    obtain ⟨others, same⟩ := forget_times relinked
    refine ⟨punctual_frame punctual (fun b rest => List.mem_of_mem_erase rest) ?_ same, never⟩
    intro b rest
    exact others b (inv.queued_nodup.mem_erase_iff.mp rest).1
  | ticked unlocked =>
    refine ⟨punctual_frame punctual (fun _ member => member) (fun _ _ => rfl) ?_, never⟩
    simp [horizon, ticked, unlocked]
  | spawned locked first member here early newThread =>
    obtain ⟨kept, sound⟩ := taken_early punctual never locked member here early
    exact ⟨kept, sound⟩
  | @fired a e timerHandler random t locked first member here early newThread handled =>
    obtain ⟨kept, sound⟩ := taken_early punctual never locked member here early
    have same : ∀ time, resultOf (removeFirst s.timers e) a timerHandler random = some time → Keeps (removeFirst s.timers e) time := by
      intro time result
      rw [resultOf_content (setPrev_content a)] at result
      exact permitted a e time first newThread result
    obtain ⟨after, fired⟩ := handled_punctual kept inv.queued_nodup.not_mem_erase same handled
    exact ⟨after, by rw [NeverEarly, fired]; exact sound⟩
  | unlocked locked late =>
    refine ⟨?_, never⟩
    intro b member time given
    have come := punctual b member time given
    have later := late b member
    rw [horizon, if_pos locked] at come
    left
    change time ≤ timeOf s.timers.events b
    omega
  | @thread a timerHandler random t member outside handled =>
    have kept : Punctual (started s.timers a) s.queued s.due :=
      punctual_frame punctual (fun _ member => member) (fun _ _ => rfl) rfl
    obtain ⟨after, fired⟩ := handled_punctual (s := { s with timers := started s.timers a }) kept outside permitted handled
    exact ⟨after, by rw [NeverEarly, fired]; exact never⟩

end

/-- In every run whose steps are given only times that an `int` can hold, or that have come when
    the list is looked at next, no event is taken out before the time that was given for it. -/
theorem never_early (callbackInterval : Int) {labels : List (Act V)}
    (guarded : Guarded step (fun s act => Enabled s act ∧ Permitted s act) (start V callbackInterval) labels) :
    Visits step NeverEarly (start V callbackInterval) labels := by
  let Good (s : System V) : Prop := Inv s ∧ Punctual s.timers s.queued s.due ∧ NeverEarly s
  have begins : Good (start V callbackInterval) :=
    ⟨start_inv callbackInterval, by simp [Punctual, start], by simp [NeverEarly, start]⟩
  have good : Visits step Good (start V callbackInterval) labels := by
    refine guarded_visits ?_ begins guarded
    intro s act t holds permitted done
    obtain ⟨inv, punctual, never⟩ := holds
    obtain ⟨kept, effect⟩ := enabled_preserved s act t inv permitted.1 done
    exact ⟨kept, effect_early inv punctual never permitted.2 effect⟩
  exact visits_mono (fun s holds => holds.2.2) good

private def alarm : Client Unit := ⟨some (), none, 0, none, false⟩

private def nearTimes : List (Act Unit) :=
  [.addOneShotAbsolute 15 alarm, .tick, .unlock, .tick, .next (fun _ _ => timerStop) 0, .unlock]

theorem never_early_sample :
    Visits step NeverEarly (start Unit 10) nearTimes ∧ ∃ s, run step (start Unit 10) nearTimes = some s ∧ s.fired = [(15, 20)] := by
  refine ⟨never_early 10 ?_, _, rfl, rfl⟩
  refine guarded_step ⟨⟨rfl, rfl⟩, .inl (by decide)⟩ rfl ?_
  refine guarded_step ⟨rfl, trivial⟩ rfl ?_
  refine guarded_step ⟨⟨rfl, rfl⟩, trivial⟩ rfl ?_
  refine guarded_step ⟨rfl, trivial⟩ rfl ?_
  refine guarded_step ⟨⟨rfl, rfl⟩, ?_⟩ rfl ?_
  · intro a e time _ _ result
    simp only [resultOf, Option.bind_eq_bind, Option.bind_eq_some_iff] at result
    obtain ⟨-, -, -, -, ⟨⟩⟩ := result
    exact .inl (by decide)
  · exact guarded_step ⟨⟨rfl, rfl⟩, trivial⟩ rfl trivial

/-- A time of 2^32 milliseconds is stored as 0: the first tick takes the event out. -/
theorem far_time_early :
    ∃ s, run step (start Unit 10) [.addOneShotAbsolute 4294967296 alarm, .tick, .next (fun _ _ => timerStop) 0] = some s ∧
      s.fired = [(4294967296, 10)] ∧ ¬ NeverEarly s := by
  refine ⟨_, rfl, rfl, ?_⟩
  intro never
  exact absurd (never 4294967296 10 List.mem_cons_self) (by decide)

end VoxiUtil.TimerEarly
