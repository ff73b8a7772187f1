import VoxiUtil.TimerEarly

/-!
When a repetitive timer of `timer.c` goes on for ever: each time its event is inserted,
the next time that will be proposed for it must be later than the clock is then.
-/
namespace VoxiUtil.TimerSurvival
open VoxiUtil.Runs
open VoxiUtil.Timer
open VoxiUtil.TimerLists
open VoxiUtil.TimerQueue
open VoxiUtil.TimerEarly (proposed_content)
open VoxiUtil.Limits.Signed (intMax)
variable {V : Type}

def intMin : Int := -2147483648

def longMax : Int := 9223372036854775807

/-- The clock with which the list is looked at next, or now. -/
def reach (s : Timers V) : Int := if s.locked = true then s.timerTimeMillis else s.timerTimeMillis + s.callbackInterval

/-- An event inserted for this time has a later next time when it is taken out. -/
def Lasts (s : Timers V) (time interval : Int) : Prop := reach s < toInt time + interval

/-- The handler returns what is proposed to it. -/
def Proposes (s : Timers V) (event : Nat) (timerHandler : Int → Int → Int) (random : Nat) : Prop :=
  ∀ e nextTime, s.events event = some e → proposed e random = some nextTime → timerHandler e.atTimeMillis nextTime = nextTime

/-- The clock stays an `int`, nobody cancels the event, and its handler returns what is proposed. -/
def Assumed (event : Nat) (s : System V) : Act V → Prop
  | .cancel other => other ≠ event
  | .tick => s.timers.timerTimeMillis + s.timers.callbackInterval ≤ intMax
  | .next timerHandler random => ∀ e, dueEvent s.timers = some (event, e) → Proposes s.timers event timerHandler random
  | .thread other timerHandler random => other = event → Proposes s.timers event timerHandler random
  | _ => True

/-- Each time the event is inserted it lasts, and a thread of its own runs before the clock has come
    to the next time. -/
def InTime (event : Nat) (s : System V) : Act V → Prop
  | .addRepetitive intervalMillis _ => s.timers.allocated = event →
      Lasts s.timers (s.timers.timerTimeMillis + atLeast s.timers.callbackInterval intervalMillis)
        (atLeast s.timers.callbackInterval intervalMillis)
  | .next _ _ => ∀ e, dueEvent s.timers = some (event, e) → e.client.newThread = false →
      e.atTimeMillis + e.repetitiveInterval ≤ longMax ∧
        Lasts s.timers (e.atTimeMillis + e.repetitiveInterval) e.repetitiveInterval
  | .thread other _ _ => other = event → ∀ e, s.timers.events event = some e →
      s.timers.timerTimeMillis < e.atTimeMillis + e.repetitiveInterval ∧ e.atTimeMillis + e.repetitiveInterval ≤ longMax ∧
        Lasts s.timers (e.atTimeMillis + e.repetitiveInterval) e.repetitiveInterval
  | _ => True

/-- The event is in the list, or was taken out and waits for its thread, and was not freed. -/
def Alive (event : Nat) (s : System V) : Prop :=
  (event ∈ s.queued ∨ event ∈ s.timers.threads) ∧ s.timers.events event ≠ none

/-- A repetitive event that will be inserted again when it is taken out of the list. -/
structure Survives (event : Nat) (s : System V) (e : TimerEvent V) : Prop where
  here : s.timers.events event = some e
  kind : e.timerType = .repetitive
  interval : s.timers.callbackInterval ≤ e.repetitiveInterval
  low : intMin ≤ e.atTimeMillis
  place : event ∈ s.queued ∧ reach s.timers < e.atTimeMillis + e.repetitiveInterval ∨ event ∈ s.timers.threads

structure Good (event : Nat) (s : System V) : Prop where
  inv : Inv s
  clock : 0 ≤ s.timers.timerTimeMillis
  positive : 0 < s.timers.callbackInterval
  survives : event ∈ s.repetitive → ∃ e, Survives event s e

section
variable {s t : System V} {act : Act V} {event a : Nat} {e : TimerEvent V} {timerHandler : Int → Int → Int} {random : Nat}
  {time nextTime : Int}

theorem intMin_le_toInt (time : Int) : intMin ≤ toInt time := by
  have low : -(((4294967296 : Nat) : Int) / 2) ≤ toInt time := Int.le_bmod (by decide)
  rw [intMin]
  omega

theorem toInt_toLong (time : Int) : toInt (toLong time) = toInt time := Int.bmod_bmod_of_dvd (by decide)

theorem relinked_reach {s t : Timers V} (relinked : Relinked s t) : reach t = reach s := by
  rw [reach, reach, relinked.locked, relinked.timerTimeMillis, relinked.callbackInterval]

/-- What is proposed for a repetitive event, when a `long` can hold it. -/
theorem proposed_repetitive (kind : e.timerType = .repetitive) (low : intMin ≤ e.atTimeMillis) (forward : 0 < e.repetitiveInterval)
    (fits : e.atTimeMillis + e.repetitiveInterval ≤ longMax) (random : Nat) :
    proposed e random = some (e.atTimeMillis + e.repetitiveInterval) := by
  have same : toLong (e.atTimeMillis + e.repetitiveInterval) = e.atTimeMillis + e.repetitiveInterval := by
    rw [intMin] at low
    rw [longMax] at fits
    exact Int.bmod_eq_of_le_mul_two (by omega) (by omega)
  simp only [proposed, kind, same]

theorem Good.alive (good : Good event s) (member : event ∈ s.repetitive) : Alive event s := by
  obtain ⟨e, survives⟩ := good.survives member
  constructor
  · exact survives.place.imp And.left id
  · rw [survives.here]
    simp

/-- A step that keeps what is in the event. -/
theorem survives_content (survives : Survives event s e)
    (same : (t.timers.events event).map content = (s.timers.events event).map content)
    (callbackInterval : t.timers.callbackInterval = s.timers.callbackInterval)
    (place : event ∈ t.queued ∧ reach t.timers < e.atTimeMillis + e.repetitiveInterval ∨ event ∈ t.timers.threads) :
    ∃ e', Survives event t e' := by
  rw [survives.here, Option.map_some, Option.map_eq_some_iff] at same
  obtain ⟨e', here, equal⟩ := same
  obtain ⟨kind, times, interval⟩ := content_same equal
  refine ⟨e', here, kind.trans survives.kind, ?_, ?_, ?_⟩
  · rw [callbackInterval, interval]
    exact survives.interval
  · rw [times]
    exact survives.low
  · rw [times, interval]
    exact place

/-- A step that does not see the event. -/
theorem survives_frame (survives : Survives event s e)
    (same : (t.timers.events event).map content = (s.timers.events event).map content)
    (callbackInterval : t.timers.callbackInterval = s.timers.callbackInterval)
    (place : event ∈ s.queued → event ∈ t.queued ∧ reach t.timers = reach s.timers)
    (threads : event ∈ s.timers.threads → event ∈ t.timers.threads) : ∃ e', Survives event t e' := by
  refine survives_content survives same callbackInterval ?_
  rcases survives.place with ⟨member, lasts⟩ | waits
  · obtain ⟨after, equal⟩ := place member
    exact .inl ⟨after, equal ▸ lasts⟩
  · exact .inr (threads waits)

/-- The handler of another event. -/
theorem handled_other (survives : Survives event s e) (apart : event ≠ a) (handled : Handled s a timerHandler random t) :
    ∃ e', Survives event t e' := by
  cases handled with
  | again here next goes later relinked =>
    refine survives_frame survives ?_ relinked.callbackInterval ?_ ?_
    · rw [relinked.contents]
      simp [withTime, apart]
    · exact fun member => ⟨List.mem_cons_of_mem a member, (relinked_reach relinked).trans rfl⟩
    · intro waits
      simp only [relinked.threads]
      exact waits
  | ended here next stops =>
    refine survives_frame survives ?_ rfl (fun member => ⟨member, rfl⟩) id
    simp [forget, apart]

/-- The handler of the event itself, which was taken out. -/
theorem handled_own (here : s.timers.events event = some e) (kind : e.timerType = .repetitive)
    (interval : s.timers.callbackInterval ≤ e.repetitiveInterval) (low : intMin ≤ e.atTimeMillis)
    (clock : 0 ≤ s.timers.timerTimeMillis) (positive : 0 < s.timers.callbackInterval)
    (later : s.timers.timerTimeMillis < e.atTimeMillis + e.repetitiveInterval)
    (fits : e.atTimeMillis + e.repetitiveInterval ≤ longMax)
    (lasts : Lasts s.timers (e.atTimeMillis + e.repetitiveInterval) e.repetitiveInterval)
    (proposes : Proposes s.timers event timerHandler random) (handled : Handled s event timerHandler random t) :
    ∃ e', Survives event t e' := by
  have next := proposed_repetitive kind low (by omega) fits random
  have result := proposes e _ here next
  cases handled with
  | again here' next' goes _ relinked =>
    cases here.symm.trans here'
    cases next.symm.trans next'
    rw [result] at relinked
    have new : (withTime s.timers event e (toInt (e.atTimeMillis + e.repetitiveInterval))).events event =
        some { e with atTimeMillis := toInt (e.atTimeMillis + e.repetitiveInterval) } := Function.update_self _ _ _
    obtain ⟨e', after, same⟩ := relinked.present new
    obtain ⟨kind', times, interval'⟩ := content_same same
    simp only at kind' times interval'
    refine ⟨e', after, kind'.trans kind, ?_, ?_, .inl ⟨List.mem_cons_self, ?_⟩⟩
    · rw [interval']
      simp only [relinked.callbackInterval]
      exact interval
    · rw [times]
      exact intMin_le_toInt _
    · rw [times, interval']
      simp only [relinked_reach relinked]
      exact lasts
  | ended here' next' stops =>
    cases here.symm.trans here'
    cases next.symm.trans next'
    rw [result, timerStop] at stops
    omega

/-- Links do not matter for what the handler is asked. -/
theorem proposes_content {s t : Timers V} (same : (t.events event).map content = (s.events event).map content)
    (proposes : Proposes s event timerHandler random) : Proposes t event timerHandler random := by
  intro e nextTime here next
  obtain ⟨e', there, equal⟩ := present_content same here
  rw [← (content_same equal).2.1]
  exact proposes e' nextTime there ((proposed_content equal random).trans next)

/-- The event itself is taken out, and its handler runs in the calling thread. -/
theorem fired_own (good : Good event s) (known : event ∈ s.repetitive) (locked : s.timers.locked = true)
    (first : dueEvent s.timers = some (event, e)) (member : event ∈ s.queued) (here : s.timers.events event = some e)
    (newThread : e.client.newThread = false) (assumed : Assumed event s (.next timerHandler random))
    (inTime : InTime event s (.next timerHandler random))
    (handled : Handled (taken s (removeFirst s.timers e) event) event timerHandler random t) : ∃ e', Survives event t e' := by
  obtain ⟨e', survives⟩ := good.survives known
  cases here.symm.trans survives.here
  obtain ⟨fits, lasts⟩ := inTime e first newThread
  have later : s.timers.timerTimeMillis < e.atTimeMillis + e.repetitiveInterval := by
    rcases survives.place with ⟨-, less⟩ | waits
    · rwa [reach, if_pos locked] at less
    · exact absurd waits (good.inv.apart member)
  have same : ((removeFirst s.timers e).events event).map content = (s.timers.events event).map content := setPrev_content event
  have proposes := proposes_content same (assumed e first)
  rw [here, Option.map_some, Option.map_eq_some_iff] at same
  obtain ⟨e', after, equal⟩ := same
  obtain ⟨kind, times, interval⟩ := content_same equal
  have own := @handled_own V (taken s (removeFirst s.timers e) event) t event e' timerHandler random after (kind.trans survives.kind)
  rw [times, interval] at own
  exact own survives.interval survives.low good.clock good.positive later fits lasts proposes handled

theorem ticked_clock (good : Good event s) (assumed : Assumed event s .tick) :
    (ticked s.timers).timerTimeMillis = s.timers.timerTimeMillis + s.timers.callbackInterval := by
  have low := good.clock
  have positive := good.positive
  have small : s.timers.timerTimeMillis + s.timers.callbackInterval ≤ intMax := assumed
  rw [intMax] at small
  exact Int.bmod_eq_of_le_mul_two (by omega) (by omega)

/-- Another event is added. -/
theorem survives_added {timers : Timers V} {new : TimerEvent V} {due : Option Int} {repetitive : List Nat}
    (survives : Survives event s e) (fresh : event ≠ s.timers.allocated) (relinked : Relinked (withEvent s.timers new) timers) :
    ∃ e', Survives event { added s timers due with repetitive := repetitive } e' := by
  refine survives_frame survives ?_ relinked.callbackInterval ?_ ?_
  · simp only [added]
    rw [relinked.contents]
    simp [withEvent, fresh]
  · exact fun member => ⟨List.mem_cons_of_mem _ member, (relinked_reach relinked).trans rfl⟩
  · intro waits
    simp only [added, relinked.threads]
    exact waits

/-- What a step preserves in which the event is inserted in time. -/
theorem effect_survives (good : Good event s) (known : event ∈ s.repetitive) (assumed : Assumed event s act)
    (inTime : InTime event s act) (effect : Effect s act t) : ∃ e', Survives event t e' := by
  obtain ⟨e, survives⟩ := good.survives known
  have fresh : event ≠ s.timers.allocated := Nat.ne_of_lt (good.inv.old survives.here)
  cases effect with
  | ignored => exact ⟨e, survives⟩
  | added unlocked adds relinked => exact survives_added survives fresh relinked
  | repetitive unlocked relinked => exact survives_added survives fresh relinked
  | cancelled unlocked member relinked =>
    have other : event ≠ _ := Ne.symm assumed
    refine survives_frame survives ?_ relinked.callbackInterval ?_ ?_
    · rw [relinked.contents]
      simp [forget, other]
    · exact fun member => ⟨(List.mem_erase_of_ne other).mpr member, (relinked_reach relinked).trans rfl⟩
    · intro waits
      simp only [relinked.threads]
      exact waits
  | ticked unlocked =>
    refine survives_frame survives rfl rfl (fun member => ⟨member, ?_⟩) id
    have moved := ticked_clock good assumed
    simp only [reach, unlocked]
    simpa [ticked] using moved
  | @spawned a e' timerHandler random locked first member here early newThread =>
    by_cases own : event = a
    · subst own
      exact survives_content survives (setPrev_content event) rfl (.inr (List.mem_append_right _ List.mem_cons_self))
    · refine survives_frame survives (setPrev_content event) rfl ?_ (List.mem_append_left [a])
      exact fun queued => ⟨(List.mem_erase_of_ne own).mpr queued, rfl⟩
  | @fired a e' timerHandler random t locked first member here early newThread handled =>
    by_cases own : event = a
    · subst own
      exact fired_own good known locked first member here newThread assumed inTime handled
    · obtain ⟨e'', kept⟩ : ∃ e'', Survives event (taken s (removeFirst s.timers e') a) e'' := by
        refine survives_frame survives (setPrev_content event) rfl ?_ id
        exact fun queued => ⟨(List.mem_erase_of_ne own).mpr queued, rfl⟩
      exact handled_other kept own handled
  | unlocked locked late =>
    refine survives_content survives rfl rfl ?_
    rcases survives.place with ⟨queued, -⟩ | waits
    · have later := late event queued
      have interval := survives.interval
      rw [timeOf_some survives.here] at later
      refine .inl ⟨queued, ?_⟩
      simp only [reach, Timer.unlocked]
      simp
      omega
    · exact .inr waits
  | @thread a timerHandler random t member outside handled =>
    by_cases own : event = a
    · subst own
      obtain ⟨later, fits, lasts⟩ := inTime rfl e survives.here
      exact handled_own (s := { s with timers := started s.timers event }) survives.here survives.kind survives.interval survives.low
        good.clock good.positive later fits lasts (assumed rfl) handled
    · obtain ⟨e', kept⟩ : ∃ e', Survives event { s with timers := started s.timers a } e' := by
        refine survives_frame survives rfl rfl (fun queued => ⟨queued, rfl⟩) ?_
        exact fun waits => (List.mem_erase_of_ne own).mpr waits
      exact handled_other kept own handled

/-- A new repetitive event. -/
theorem added_survives {intervalMillis : Int} {client : Client V} {timers : Timers V}
    (inTime : InTime s.timers.allocated s (.addRepetitive intervalMillis client))
    (relinked : Relinked (withEvent s.timers (repetitiveEvent s.timers intervalMillis client)) timers) :
    ∃ e', Survives s.timers.allocated
      { added s timers none with repetitive := s.timers.allocated :: s.repetitive } e' := by
  have new : (withEvent s.timers (repetitiveEvent s.timers intervalMillis client)).events s.timers.allocated =
      some (repetitiveEvent s.timers intervalMillis client) := Function.update_self _ _ _
  obtain ⟨e', after, same⟩ := relinked.present new
  obtain ⟨kind, times, interval⟩ := content_same same
  simp only [repetitiveEvent] at kind times interval
  refine ⟨e', after, kind, ?_, ?_, .inl ⟨List.mem_cons_self, ?_⟩⟩
  · rw [interval]
    simp only [added, relinked.callbackInterval]
    simp only [withEvent, atLeast]
    split <;> omega
  · rw [times]
    exact intMin_le_toInt _
  · rw [times, interval, toInt_toLong]
    simp only [added, relinked_reach relinked]
    exact inTime rfl

/-- The clock, the interval and the repetitive events after a step that is not a tick and adds none. -/
theorem handled_same (handled : Handled s a timerHandler random t) :
    t.timers.timerTimeMillis = s.timers.timerTimeMillis ∧ t.timers.callbackInterval = s.timers.callbackInterval ∧
      t.repetitive = s.repetitive := by
  cases handled with
  | again here next goes later relinked => exact ⟨relinked.timerTimeMillis, relinked.callbackInterval, rfl⟩
  | ended here next stops => exact ⟨rfl, rfl, rfl⟩

theorem good_same (good : Good event s) (assumed : Assumed event s act) (inTime : InTime event s act) (inv : Inv t)
    (effect : Effect s act t) (same : t.timers.timerTimeMillis = s.timers.timerTimeMillis ∧
      t.timers.callbackInterval = s.timers.callbackInterval ∧ t.repetitive = s.repetitive) : Good event t := by
  obtain ⟨clock, callbackInterval, repetitive⟩ := same
  refine ⟨inv, clock ▸ good.clock, callbackInterval ▸ good.positive, ?_⟩
  intro known
  exact effect_survives good (repetitive ▸ known) assumed inTime effect

theorem effect_good (good : Good event s) (assumed : Assumed event s act) (inTime : InTime event s act) (inv : Inv t)
    (effect : Effect s act t) : Good event t := by
  have whole := effect
  cases effect with
  | ignored => exact good
  | added unlocked adds relinked =>
    exact good_same good assumed inTime inv whole ⟨relinked.timerTimeMillis, relinked.callbackInterval, rfl⟩
  | repetitive unlocked relinked =>
    refine ⟨inv, ?_, ?_, ?_⟩
    · simp only [added, relinked.timerTimeMillis]
      exact good.clock
    · simp only [added, relinked.callbackInterval]
      exact good.positive
    · intro known
      rcases List.mem_cons.mp known with rfl | old
      · exact added_survives inTime relinked
      · exact effect_survives good old assumed inTime whole
  | cancelled unlocked member relinked =>
    exact good_same good assumed inTime inv whole ⟨relinked.timerTimeMillis, relinked.callbackInterval, rfl⟩
  | ticked unlocked =>
    refine ⟨inv, ?_, good.positive, fun known => effect_survives good known assumed inTime whole⟩
    have low := good.clock
    have positive := good.positive
    simp only [ticked_clock good assumed]
    omega
  | spawned locked first member here early newThread => exact good_same good assumed inTime inv whole ⟨rfl, rfl, rfl⟩
  | fired locked first member here early newThread handled =>
    obtain ⟨clock, callbackInterval, repetitive⟩ := handled_same handled
    exact good_same good assumed inTime inv whole ⟨clock, callbackInterval, repetitive⟩
  | unlocked locked late => exact good_same good assumed inTime inv whole ⟨rfl, rfl, rfl⟩
  | thread member outside handled =>
    obtain ⟨clock, callbackInterval, repetitive⟩ := handled_same handled
    exact good_same good assumed inTime inv whole ⟨clock, callbackInterval, repetitive⟩

end

/-- With a positive resolution, in every run in which the clock stays an `int`, the event of a
    repetitive timer is not cancelled and its handler returns the proposed time, the event is always
    in the list or waits for its thread, when each step that inserts it does so in time. -/
theorem never_dies {callbackInterval : Int} (positive : 0 < callbackInterval) (event : Nat) {labels : List (Act V)}
    (guarded : Guarded step (fun s act => Enabled s act ∧ Assumed event s act ∧ InTime event s act) (start V callbackInterval) labels) :
    Visits step (fun s => Sound s ∧ (event ∈ s.repetitive → Alive event s)) (start V callbackInterval) labels := by
  have begins : Good event (start V callbackInterval) := ⟨start_inv callbackInterval, Int.le_refl 0, positive, by simp [start]⟩
  have good : Visits step (Good event) (start V callbackInterval) labels := by
    refine guarded_visits ?_ begins guarded
    intro s act t good permitted done
    obtain ⟨enabled, assumed, inTime⟩ := permitted
    obtain ⟨inv, effect⟩ := enabled_preserved s act t good.inv enabled done
    exact effect_good good assumed inTime inv effect
  exact visits_mono (fun s good => ⟨good.inv.sound, good.alive⟩) good

/-- An event that is inserted for a later time than the clock's, which an `int` can hold, lasts. -/
theorem later_lasts {s : Timers V} {time interval : Int} (low : intMin ≤ time) (small : time ≤ intMax)
    (later : s.timerTimeMillis < time) (resolution : s.callbackInterval ≤ interval) (forward : 0 ≤ interval) :
    Lasts s time interval := by
  have same : toInt time = time := by
    rw [intMin] at low
    rw [intMax] at small
    exact Int.bmod_eq_of_le_mul_two (by omega) (by omega)
  rw [Lasts, same, reach]
  by_cases locked : s.locked = true
  · rw [if_pos locked]
    omega
  · rw [if_neg locked]
    omega

private def beat (newThread : Bool) : Client Unit := ⟨some (), none, 0, none, newThread⟩

private def inCallback : List (Act Unit) :=
  [.addRepetitive 5 (beat false), .tick, .next (fun _ nextTime => nextTime) 0, .unlock]

theorem never_dies_sample :
    Visits step (fun s => Sound s ∧ (0 ∈ s.repetitive → Alive 0 s)) (start Unit 10) inCallback := by
  refine never_dies (by decide) 0 ?_
  refine guarded_step ⟨rfl, trivial, fun _ => later_lasts (by decide) (by decide) (by decide) (by decide) (by decide)⟩ rfl ?_
  refine guarded_step ⟨rfl, (by decide : (0 : Int) + 10 ≤ intMax), trivial⟩ rfl ?_
  refine guarded_step ⟨⟨rfl, rfl⟩, ?_, ?_⟩ rfl ?_
  · intro e _ e' nextTime _ _
    rfl
  · intro e first _
    cases first
    exact ⟨by decide, later_lasts (by decide) (by decide) (by decide) (by decide) (by decide)⟩
  · exact guarded_step ⟨⟨rfl, rfl⟩, trivial, trivial⟩ rfl trivial

private def inThread : List (Act Unit) :=
  [.addRepetitive 10 (beat true), .tick, .next (fun _ nextTime => nextTime) 0, .unlock, .tick, .unlock,
    .thread 0 (fun _ nextTime => nextTime) 0]

/-- A second tick before the thread of the first has run: the event is freed. -/
theorem late_thread_dies :
    Guarded step (fun s act => Enabled s act ∧ Assumed 0 s act) (start Unit 10) inThread ∧
      ∃ s, run step (start Unit 10) inThread = some s ∧ 0 ∈ s.repetitive ∧ s.timers.timerTimeMillis = 20 ∧ ¬ Alive 0 s := by
  constructor
  · refine guarded_step ⟨rfl, trivial⟩ rfl ?_
    refine guarded_step ⟨rfl, (by decide : (0 : Int) + 10 ≤ intMax)⟩ rfl ?_
    refine guarded_step ⟨⟨rfl, rfl⟩, ?_⟩ rfl ?_
    · intro e _ e' nextTime _ _
      rfl
    · refine guarded_step ⟨⟨rfl, rfl⟩, trivial⟩ rfl ?_
      refine guarded_step ⟨rfl, (by decide : (10 : Int) + 10 ≤ intMax)⟩ rfl ?_
      refine guarded_step ⟨⟨rfl, rfl⟩, trivial⟩ rfl ?_
      refine guarded_step ⟨by decide, ?_⟩ rfl trivial
      intro _ e nextTime _ _
      rfl
  · refine ⟨_, rfl, List.mem_cons_self, rfl, ?_⟩
    intro alive
    exact alive.2 rfl

end VoxiUtil.TimerSurvival
