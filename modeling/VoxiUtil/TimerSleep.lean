import VoxiUtil.TimerEarly

/-!
`tem_sleep` of `timer.c` beside all other clients of the timer manager. A sleep has a
semaphore of its own, which it destroys when it has waited; the event of the sleep posts it.
The events of the sleeps that have not been posted are always in the list, each with the
end of its sleep, and no others are theirs.
-/
namespace VoxiUtil.TimerSleep
open VoxiUtil.Runs VoxiUtil.Timer VoxiUtil.TimerLists VoxiUtil.TimerQueue VoxiUtil.TimerEarly
open VoxiUtil.Limits.Signed (intMax)

/-- What a client of the timer manager points to: `sleep_wakeHandler`, which is static, the
    semaphore of a call of `tem_sleep`, or what `timer.c` does not know. -/
inductive Pointer where
  | sleepWakeHandler
  | semaphore (k : Nat)
  | other (address : Nat)
deriving DecidableEq

/-- A call of `tem_sleep`: the clock, its argument, and the event that was added. -/
structure Sleep where
  called : Int
  ms : Int32
  event : Nat

/-- The clock that a sleep is over with. -/
def Sleep.due (s : Sleep) : Int := s.called + s.ms.toInt

/-- The timer manager, the values of the semaphores that are not destroyed, all sleeps, what was
    posted by `sleep_wakeHandler` and with what clock, and the sleeps that have returned. -/
structure World where
  system : System Pointer
  semaphores : Nat → Option Nat
  sleeps : List Sleep
  posts : List (Nat × Int)
  woken : List Nat

/-- The first half of `tem_sleep`, the second one behind `sem_wait`, and all other acts. -/
inductive Move where
  | sleep (ms : Int32)
  | wake (k : Nat)
  | timer (act : Act Pointer)

def sleeper (k : Nat) : Client Pointer := ⟨some .sleepWakeHandler, some (.semaphore k), 0, none, false⟩

/-- What `sleep_wakeHandler` returns. -/
def sleepWakeHandler (_theTime nextTime : Int) : Int := nextTime

/-- `sem_post`, and the sleep whose semaphore it is. -/
def semPost (semaphores : Nat → Option Nat) : Option Pointer → Option (Nat × (Nat → Option Nat))
  | some (.semaphore k) => (semaphores k).map fun value => (k, Function.update semaphores k (some (value + 1)))
  | _ => none

/-- The client whose handler an act calls. -/
def handling (s : System Pointer) : Act Pointer → Option (Client Pointer)
  | .next _ _ => (dueEvent s.timers).bind fun first => if first.2.client.newThread = true then none else some first.2.client
  | .thread event _ _ => (s.timers.events event).map (·.client)
  | _ => none

def withHandler (timerHandler : Int → Int → Int) : Act Pointer → Act Pointer
  | .next _ random => .next timerHandler random
  | .thread event _ random => .thread event timerHandler random
  | act => act

/-- Whether a client is that of a sleep. -/
def Wakes (client : Client Pointer) : Prop := client.timerHandler = some .sleepWakeHandler

instance (client : Client Pointer) : Decidable (Wakes client) := inferInstanceAs (Decidable (_ = _))

def worldStep (w : World) : Move → Option World
  | .sleep ms => (step w.system (.addOneShotRelative ms.toInt (sleeper w.sleeps.length))).map fun system =>
      { w with
        system := system
        semaphores := Function.update w.semaphores w.sleeps.length (some 0)
        sleeps := w.sleeps ++ [⟨w.system.timers.timerTimeMillis, ms, w.system.timers.allocated⟩] }
  | .wake k =>
    match w.semaphores k with
    | some (_ + 1) => some { w with semaphores := Function.update w.semaphores k none, woken := k :: w.woken }
    | _ => none
  | .timer act =>
    match (handling w.system act).filter fun client => Wakes client with
    | some client => do
      let (k, semaphores) ← semPost w.semaphores client.source
      let system ← step w.system (withHandler sleepWakeHandler act)
      some { w with
        system := system
        semaphores := semaphores
        posts := w.posts ++ [(k, w.system.timers.timerTimeMillis)] }
    | none => (step w.system act).map fun system => { w with system := system }

def start (callbackInterval : Int) : World := ⟨Timer.start Pointer callbackInterval, fun _ => none, [], [], []⟩

/-- Other clients have other handlers, and cancel events of their own. -/
def Foreign (s : System Pointer) : Act Pointer → Prop
  | .addOneShotAbsolute _ client | .addOneShotRelative _ client | .addRepetitive _ client | .addRandom _ _ client _ =>
    ¬ Wakes client
  | .cancel event => ∀ e, s.timers.events event = some e → ¬ Wakes e.client
  | _ => True

/-- A sleep ends before the clock is larger than an `int`, and `sem_wait` waits for a post. -/
def Permitted (w : World) : Move → Prop
  | .sleep ms => Enabled w.system (.addOneShotRelative ms.toInt (sleeper w.sleeps.length)) ∧
      -2147483648 ≤ w.system.timers.timerTimeMillis + ms.toInt ∧ w.system.timers.timerTimeMillis + ms.toInt ≤ intMax
  | .wake k => ∃ value, w.semaphores k = some (value + 1)
  | .timer act => Enabled w.system act ∧ Foreign w.system act

/-! ### What a step of the timer manager leaves alone -/

/-- The event that an act takes out of the list. -/
def subject (s : System Pointer) : Act Pointer → Option Nat
  | .cancel event => some event
  | .next _ _ => (dueEvent s.timers).map Prod.fst
  | .thread event _ _ => some event
  | _ => none

section
variable {s t : System Pointer} {act : Act Pointer} {a : Nat} {e : TimerEvent Pointer}

theorem handled_frame {b : Nat} {timerHandler : Int → Int → Int} {random : Nat} (handled : Handled s b timerHandler random t)
    (other : a ≠ b) : (t.timers.events a).map content = (s.timers.events a).map content ∧ (a ∈ t.queued ↔ a ∈ s.queued) := by
  cases handled with
  | again here next goes later relinked =>
    refine ⟨?_, by simp [other]⟩
    rw [relinked.contents]
    simp [withTime, other]
  | ended here next stops => simp [forget, other]

theorem added_frame {e : TimerEvent Pointer} {timers : Timers Pointer} (relinked : Relinked (withEvent s.timers e) timers)
    (old : a ≠ s.timers.allocated) : (timers.events a).map content = (s.timers.events a).map content := by
  rw [relinked.contents]
  simp [withEvent, old]

/-- Other events than that of the act stay as they are, and where they are. -/
theorem effect_frame (effect : Effect s act t) (old : a ≠ s.timers.allocated)
    (other : subject s act ≠ some a) :
    (t.timers.events a).map content = (s.timers.events a).map content ∧ (a ∈ t.queued ↔ a ∈ s.queued) := by
  cases effect with
  | ignored => exact ⟨rfl, Iff.rfl⟩
  | added unlocked adds relinked => exact ⟨added_frame relinked old, by simp [added, old]⟩
  | repetitive unlocked relinked => exact ⟨added_frame relinked old, by simp [added, old]⟩
  | @cancelled event timers unlocked member relinked =>
    have apart : a ≠ event := fun same => other (congrArg some same.symm)
    refine ⟨?_, List.mem_erase_of_ne apart⟩
    rw [relinked.contents]
    simp [forget, apart]
  | ticked unlocked => exact ⟨rfl, Iff.rfl⟩
  | @spawned b e timerHandler random locked first member here early newThread =>
    have apart : a ≠ b := fun same => other (by rw [subject, first, same]; rfl)
    exact ⟨setPrev_content a, List.mem_erase_of_ne apart⟩
  | @fired b e timerHandler random t locked first member here early newThread handled =>
    have apart : a ≠ b := fun same => other (by rw [subject, first, same]; rfl)
    obtain ⟨same, queued⟩ := handled_frame handled apart
    exact ⟨same.trans (setPrev_content a), queued.trans (List.mem_erase_of_ne apart)⟩
  | unlocked locked late => exact ⟨rfl, Iff.rfl⟩
  | @thread b timerHandler random t member outside handled =>
    have apart : a ≠ b := fun same => other (congrArg some same.symm)
    have frame := handled_frame handled apart
    exact frame

theorem content_client {f : TimerEvent Pointer} (same : content e = content f) : e.client = f.client := by
  have clients := congrArg TimerEvent.client same
  exact clients

theorem handled_client {b : Nat} {timerHandler : Int → Int → Int} {random : Nat} (handled : Handled s b timerHandler random t)
    (there : t.timers.events a = some e) : ∃ old, s.timers.events a = some old ∧ old.client = e.client := by
  cases handled with
  | @again f nextTime timers here next goes later relinked =>
    obtain ⟨old, found, same⟩ := present_content (relinked.contents a) there
    have client := content_client same
    by_cases own : a = b
    · subst own
      simp only [withTime, Function.update_self, Option.some.injEq] at found
      exact ⟨f, here, by rw [← client, ← found]⟩
    · exact ⟨old, by simpa [withTime, own] using found, client⟩
  | ended here next stops =>
    by_cases own : a = b
    · simp [forget, own] at there
    · exact ⟨e, by simpa [forget, own] using there, rfl⟩

theorem relinked_client {u v : Timers Pointer} (relinked : Relinked u v) (there : v.events a = some e) :
    ∃ old, u.events a = some old ∧ old.client = e.client := by
  obtain ⟨old, found, same⟩ := present_content (relinked.contents a) there
  exact ⟨old, found, content_client same⟩

theorem added_client {new : TimerEvent Pointer} {timers : Timers Pointer} (relinked : Relinked (withEvent s.timers new) timers)
    (there : timers.events a = some e) (wakes : Wakes e.client) (foreign : ¬ Wakes new.client) :
    ∃ old, s.timers.events a = some old ∧ old.client = e.client := by
  obtain ⟨old, found, same⟩ := relinked_client relinked there
  by_cases fresh : a = s.timers.allocated
  · subst fresh
    simp only [withEvent, Function.update_self, Option.some.injEq] at found
    rw [found, same] at foreign
    exact absurd wakes foreign
  · exact ⟨old, by simpa [withEvent, fresh] using found, same⟩

/-- Acts of other clients make no events for sleeps. -/
theorem effect_client (effect : Effect s act t) (foreign : Foreign s act) (there : t.timers.events a = some e)
    (wakes : Wakes e.client) : ∃ old, s.timers.events a = some old ∧ old.client = e.client := by
  cases effect with
  | ignored => exact ⟨e, there, rfl⟩
  | added unlocked adds relinked =>
    refine added_client relinked there wakes ?_
    cases adds <;> exact foreign
  | repetitive unlocked relinked => exact added_client relinked there wakes foreign
  | @cancelled event timers unlocked member relinked =>
    obtain ⟨old, found, same⟩ := relinked_client relinked there
    by_cases own : a = event
    · simp [forget, own] at found
    · exact ⟨old, by simpa [forget, own] using found, same⟩
  | ticked unlocked => exact ⟨e, there, rfl⟩
  | spawned locked first member here early newThread =>
    obtain ⟨old, found, same⟩ := present_content (setPrev_content a) there
    exact ⟨old, found, content_client same⟩
  | fired locked first member here early newThread handled =>
    obtain ⟨middle, there, client⟩ := handled_client handled there
    obtain ⟨old, found, same⟩ := present_content (setPrev_content a) there
    exact ⟨old, found, (content_client same).trans client⟩
  | unlocked locked late => exact ⟨e, there, rfl⟩
  | thread member outside handled =>
    have frame := handled_client handled there
    exact frame

end

/-! ### The sleeps -/

theorem toLong_le {value : Int} (low : -9223372036854775808 ≤ value) : toLong value ≤ value := by
  rw [toLong, Int.bmod_def]
  split <;> omega

theorem le_toLong (value : Int) : -9223372036854775808 ≤ toLong value := by
  have low : -(((18446744073709551616 : Nat) : Int) / 2) ≤ toLong value := Int.le_bmod (by decide)
  omega

/-- The event of a sleep, without its links. -/
def wakeEvent (k : Nat) (s : Sleep) : TimerEvent Pointer := ⟨s.due, sleeper k, .oneShot, 0, 0, 0, none, none⟩

theorem wakeEvent_client {k : Nat} {s : Sleep} {e : TimerEvent Pointer} (own : content e = wakeEvent k s) : e.client = sleeper k := by
  have clients := congrArg TimerEvent.client own
  exact clients

/-- The last clock that a sleep may see without being over when the callback looks at the list. -/
def Sleep.latest (s : Sleep) : Int := max s.called (s.due - 1)

def World.clock (w : World) : Int := w.system.timers.timerTimeMillis

def World.posted (w : World) : List Nat := w.posts.map Prod.fst

/-- How far the clock has gone on for the callback that runs. -/
def World.ahead (w : World) : Int := if w.system.timers.locked = true then w.system.timers.callbackInterval else 0

/-- The events of sleeps are those of the sleeps that have not been posted, which are all queued
    for the end of their sleep. -/
structure Inv (callbackInterval : Int) (w : World) : Prop where
  base : TimerQueue.Inv w.system
  interval : w.system.timers.callbackInterval = callbackInterval
  range : -9223372036854775808 ≤ w.clock
  asleep : ∀ k s, w.sleeps[k]? = some s → k ∉ w.posted → s.event ∈ w.system.queued ∧ w.semaphores k = some 0 ∧
    ∃ e, w.system.timers.events s.event = some e ∧ content e = wakeEvent k s
  only : ∀ a e, w.system.timers.events a = some e → Wakes e.client → ∃ k s, w.sleeps[k]? = some s ∧ k ∉ w.posted ∧ s.event = a
  posts : ∀ p ∈ w.posts, ∃ s, w.sleeps[p.1]? = some s ∧ s.due ≤ p.2 ∧ p.2 ≤ s.latest + callbackInterval
  once : w.posted.Nodup
  values : ∀ k ∈ w.posted, w.semaphores k = if k ∈ w.woken then none else some 1
  returned : ∀ k ∈ w.woken, k ∈ w.posted
  fresh : ∀ k, w.sleeps.length ≤ k → w.semaphores k = none
  going : ∀ k s, w.sleeps[k]? = some s → k ∉ w.posted → w.clock ≤ s.latest + w.ahead

section
variable {callbackInterval : Int} {w v : World} {act : Act Pointer} {k : Nat} {s : Sleep} {system : System Pointer}

theorem start_inv (callbackInterval : Int) : Inv callbackInterval (start callbackInterval) where
  base := TimerQueue.start_inv callbackInterval
  interval := rfl
  range := by simp [World.clock, start, Timer.start, temStartup]
  asleep := by simp [start]
  only := by simp [start, Timer.start, temStartup]
  posts := by simp [start]
  once := by simp [World.posted, start]
  values := by simp [World.posted, start]
  returned := by simp [start]
  fresh := by simp [start]
  going := by simp [start]

theorem Inv.called (inv : Inv callbackInterval w) (member : k ∈ w.posted) : k < w.sleeps.length := by
  obtain ⟨p, posted, rfl⟩ := List.mem_map.mp member
  obtain ⟨s, slept, -, -⟩ := inv.posts p posted
  exact (List.getElem?_eq_some_iff.mp slept).1

/-- A sleep is known by its event. -/
theorem Inv.event_unique (inv : Inv callbackInterval w) {j : Nat} {r : Sleep} (slept : w.sleeps[k]? = some s) (asleep : k ∉ w.posted)
    (other : w.sleeps[j]? = some r) (too : j ∉ w.posted) (same : r.event = s.event) : j = k := by
  obtain ⟨-, -, e, here, own⟩ := inv.asleep k s slept asleep
  obtain ⟨-, -, f, there, others⟩ := inv.asleep j r other too
  rw [same, here] at there
  cases there
  have sources := congrArg (fun e => e.client.source) (others.symm.trans own)
  simpa [wakeEvent, sleeper] using sources

/-- The event that an act takes out, when it is that of a sleep. -/
theorem Inv.subject_sleeps (inv : Inv callbackInterval w) (enabled : Enabled w.system act) (foreign : Foreign w.system act)
    (slept : w.sleeps[k]? = some s) (asleep : k ∉ w.posted) (subject : subject w.system act = some s.event) :
    handling w.system act = some (sleeper k) := by
  obtain ⟨queued, -, e, here, own⟩ := inv.asleep k s slept asleep
  have client := wakeEvent_client own
  cases act with
  | cancel event =>
    cases subject
    exact absurd (by rw [client]; rfl) (foreign e here)
  | next timerHandler random =>
    obtain ⟨⟨a, f⟩, first, same⟩ := Option.map_eq_some_iff.mp subject
    obtain ⟨-, -, there, -, -⟩ := taken_inv inv.base first
    simp only at same
    rw [same, here] at there
    cases there
    simp [handling, first, client, sleeper]
  | thread event timerHandler random =>
    cases subject
    exact absurd queued (inv.base.waiting _ enabled).2
  | _ => cases subject

/-- What is queued for a sleep stays so, as long as no act takes its event out. -/
theorem Inv.asleep_kept (inv : Inv callbackInterval w) (effect : Effect w.system act system) (slept : w.sleeps[k]? = some s)
    (asleep : k ∉ w.posted) (other : subject w.system act ≠ some s.event) :
    s.event ∈ system.queued ∧ ∃ e, system.timers.events s.event = some e ∧ content e = wakeEvent k s := by
  obtain ⟨queued, -, e, here, own⟩ := inv.asleep k s slept asleep
  obtain ⟨same, iff⟩ := effect_frame effect (Nat.ne_of_lt (inv.base.old here)) other
  rw [here, Option.map_some] at same
  obtain ⟨f, there, equal⟩ := Option.map_eq_some_iff.mp same
  exact ⟨iff.mpr queued, f, there, equal.trans own⟩

theorem low_sum (inv : Inv callbackInterval w) (forward : 0 ≤ callbackInterval) :
    -9223372036854775808 ≤ w.clock + w.system.timers.callbackInterval := by
  have low := inv.range
  rw [inv.interval]
  omega

/-- Acts that wake nobody. -/
theorem quiet_inv (forward : 0 ≤ callbackInterval) (inv : Inv callbackInterval w) (enabled : Enabled w.system act) (foreign : Foreign w.system act)
    (quiet : (handling w.system act).filter (fun client => Wakes client) = none) (done : step w.system act = some system) :
    Inv callbackInterval { w with system := system } := by
  obtain ⟨base, effect⟩ := enabled_preserved w.system act system inv.base enabled done
  obtain ⟨interval, moved⟩ := effect_clock effect
  have apart : ∀ k s, w.sleeps[k]? = some s → k ∉ w.posted → subject w.system act ≠ some s.event := by
    intro k s slept asleep taken
    have client := inv.subject_sleeps enabled foreign slept asleep taken
    rw [client, Option.filter_some_eq_none] at quiet
    simp [Wakes, sleeper] at quiet
  refine ⟨base, interval.trans inv.interval, ?_, ?_, ?_, inv.posts, inv.once, inv.values, inv.returned, inv.fresh, ?_⟩
  · rcases moved with ⟨clock, -⟩ | ⟨-, -, ticked⟩ | ⟨unlocked, -⟩
    · simp only [World.clock, clock]
      exact inv.range
    · simp only [World.clock, ticked]
      exact le_toLong _
    · simp only [World.clock, unlocked]
      exact inv.range
  · intro k s slept asleep
    obtain ⟨queued, there⟩ := inv.asleep_kept effect slept asleep (apart k s slept asleep)
    exact ⟨queued, (inv.asleep k s slept asleep).2.1, there⟩
  · intro a e there wakes
    obtain ⟨old, here, same⟩ := effect_client effect foreign there wakes
    exact inv.only a old here (by rwa [same])
  · intro k s slept asleep
    have before := inv.going k s slept asleep
    rcases moved with ⟨clock, locked⟩ | ⟨-, idle, ticked⟩ | ⟨unlocked, late⟩
    · simpa only [World.clock, World.ahead, clock, locked, interval] using before
    · have behind : w.clock ≤ s.latest := by simpa [World.ahead, idle] using before
      have next := toLong_le (low_sum inv forward)
      have further : toLong (w.clock + w.system.timers.callbackInterval) ≤ s.latest + w.system.timers.callbackInterval := by omega
      simpa [World.clock, World.ahead, ticked, Timer.ticked] using further
    · obtain ⟨queued, -, e, here, own⟩ := inv.asleep k s slept asleep
      have due : timeOf w.system.timers.events s.event = s.due := by
        rw [timeOf_some here]
        exact congrArg TimerEvent.atTimeMillis own
      have later := late s.event queued
      have behind : w.system.timers.timerTimeMillis ≤ s.latest := by
        rw [Sleep.latest]
        omega
      simpa [World.clock, World.ahead, unlocked, Timer.unlocked] using behind

/-- An act that calls `sleep_wakeHandler` is a turn of the loop whose event is that of a sleep. -/
theorem Inv.wakes_cases (inv : Inv callbackInterval w) (enabled : Enabled w.system act) {client : Client Pointer}
    (calls : handling w.system act = some client) (wakes : Wakes client) :
    ∃ k s random e, withHandler sleepWakeHandler act = .next sleepWakeHandler random ∧ w.sleeps[k]? = some s ∧ k ∉ w.posted ∧
      client = sleeper k ∧ w.system.timers.locked = true ∧ dueEvent w.system.timers = some (s.event, e) ∧
      content e = wakeEvent k s := by
  cases act with
  | next timerHandler random =>
    obtain ⟨⟨a, e⟩, first, later⟩ := Option.bind_eq_some_iff.mp calls
    obtain ⟨-, -, here, -, -⟩ := taken_inv inv.base first
    split at later
    · cases later
    · cases later
      obtain ⟨k, s, slept, asleep, rfl⟩ := inv.only a e here wakes
      obtain ⟨-, -, f, there, own⟩ := inv.asleep k s slept asleep
      rw [here] at there
      cases there
      exact ⟨k, s, random, e, rfl, slept, asleep, wakeEvent_client own, enabled.1, first, own⟩
  | thread event timerHandler random =>
    obtain ⟨e, here, rfl⟩ := Option.map_eq_some_iff.mp calls
    obtain ⟨k, s, slept, asleep, rfl⟩ := inv.only event e here wakes
    exact absurd (inv.asleep k s slept asleep).1 (inv.base.waiting _ enabled).2
  | _ => cases calls

/-- The event of a sleep is taken out for good. -/
theorem wake_spec {s : System Pointer} {a : Nat} {e : TimerEvent Pointer} (random : Nat) (inv : TimerQueue.Inv s)
    (locked : s.timers.locked = true) (first : dueEvent s.timers = some (a, e)) (newThread : e.client.newThread = false)
    (kind : e.timerType = .oneShot) : ∃ t, step s (.next sleepWakeHandler random) = some t ∧ TimerQueue.Inv t ∧
      t.timers.events a = none ∧ t.timers.timerTimeMillis = s.timers.timerTimeMillis ∧
      t.timers.callbackInterval = s.timers.callbackInterval ∧ t.timers.locked = true ∧
      ∀ b, b ≠ a → (t.timers.events b).map content = (s.timers.events b).map content ∧ (b ∈ t.queued ↔ b ∈ s.queued) := by
  obtain ⟨kept, member, here, early, f, after, same⟩ := taken_inv inv first
  have gone : a ∉ s.queued.erase a := inv.queued_nodup.not_mem_erase
  obtain ⟨t, done, result, handled⟩ := handle_spec kept after gone (inv.apart member) sleepWakeHandler random
  refine ⟨t, ?_, result, ?_⟩
  · simp only [step, locked, assert_true, first, newThread, Option.bind_eq_bind, Option.bind_some, Bool.false_eq_true, if_false]
    exact done
  · have frame : ∀ b, b ≠ a → (t.timers.events b).map content = (s.timers.events b).map content ∧ (b ∈ t.queued ↔ b ∈ s.queued) := by
      intro b other
      obtain ⟨same, queued⟩ := handled_frame handled other
      exact ⟨same.trans (setPrev_content b), queued.trans (List.mem_erase_of_ne other)⟩
    cases handled with
    | @again g nextTime timers there next goes later relinked =>
      have oneShot : g.timerType = .oneShot := by
        have found : f = g := Option.some.inj (after.symm.trans there)
        rw [← found, (content_same same).1, kind]
      simp only [proposed, oneShot, Option.some.injEq] at next
      exact absurd next.symm goes
    | ended there next stops => exact ⟨by simp [forget], rfl, rfl, locked, frame⟩

/-- The turn of the loop that wakes a sleep. -/
theorem wakes_inv (inv : Inv callbackInterval w) (enabled : Enabled w.system act) {client : Client Pointer}
    (calls : handling w.system act = some client) (wakes : Wakes client) :
    ∃ v, worldStep w (.timer act) = some v ∧ Inv callbackInterval v := by
  obtain ⟨k, s, random, e, handler, slept, asleep, rfl, locked, first, own⟩ := inv.wakes_cases enabled calls wakes
  obtain ⟨-, value, -⟩ := inv.asleep k s slept asleep
  obtain ⟨-, -, here, early, -⟩ := taken_inv inv.base first
  have newThread : e.client.newThread = false := by rw [wakeEvent_client own]; rfl
  obtain ⟨t, done, base, gone, clock, interval, still, frame⟩ :=
    wake_spec random inv.base locked first newThread (congrArg TimerEvent.timerType own)
  have atTime : e.atTimeMillis = s.due := congrArg TimerEvent.atTimeMillis own
  have going := inv.going k s slept asleep
  have posted : ∀ j, j ∈ (w.posts ++ [(k, w.clock)]).map Prod.fst ↔ j ∈ w.posted ∨ j = k := by simp [World.posted]
  have others : ∀ j r, w.sleeps[j]? = some r → j ∉ w.posted → j ≠ k → r.event ≠ s.event :=
    fun j r slept' asleep' other same => other (inv.event_unique slept asleep slept' asleep' same)
  refine ⟨⟨t, Function.update w.semaphores k (some 1), w.sleeps, w.posts ++ [(k, w.clock)], w.woken⟩, ?_, ?_⟩
  · have filtered : (handling w.system act).filter (fun client => Wakes client) = some (sleeper k) := by
      rw [calls]
      simp [Option.filter_some, wakes]
    simp [worldStep, filtered, handler, semPost, sleeper, value, done, World.clock]
  · refine ⟨base, interval.trans inv.interval, ?_, ?_, ?_, ?_, ?_, ?_, ?_, ?_, ?_⟩
    · simpa [World.clock, clock] using inv.range
    · intro j r slept' asleep'
      obtain ⟨unposted, other⟩ := not_or.mp (mt (posted j).mpr asleep')
      obtain ⟨queued, zero, f, there, same⟩ := inv.asleep j r slept' unposted
      obtain ⟨kept, iff⟩ := frame r.event (others j r slept' unposted other)
      rw [there, Option.map_some] at kept
      obtain ⟨g, found, equal⟩ := Option.map_eq_some_iff.mp kept
      exact ⟨iff.mpr queued, by simpa [other] using zero, g, found, equal.trans same⟩
    · intro a f there wakes'
      have apart : a ≠ s.event := by
        rintro rfl
        simp only at there
        rw [gone] at there
        cases there
      obtain ⟨old, found, same⟩ := present_content (frame a apart).1 there
      obtain ⟨j, r, slept', unposted, rfl⟩ := inv.only a old found (by rwa [content_client same])
      refine ⟨j, r, slept', fun member => ?_, rfl⟩
      rcases (posted j).mp member with before | rfl
      · exact unposted before
      · rw [slept] at slept'
        cases slept'
        exact apart rfl
    · intro p member
      rcases List.mem_append.mp member with before | last
      · exact inv.posts p before
      · obtain rfl := List.mem_singleton.mp last
        refine ⟨s, slept, ?_, ?_⟩
        · rwa [← atTime]
        · simpa [World.ahead, locked, inv.interval] using going
    · rw [World.posted, List.map_append]
      refine List.nodup_append.mpr ⟨inv.once, by simp, ?_⟩
      rintro j member i last rfl
      obtain rfl := List.mem_singleton.mp last
      exact asleep member
    · intro j member
      rcases (posted j).mp member with before | rfl
      · have other : j ≠ k := fun same => asleep (same ▸ before)
        simpa [other] using inv.values j before
      · simp [mt (inv.returned j) asleep]
    · exact fun j back => (posted j).mpr (.inl (inv.returned j back))
    · intro j new
      have other : j ≠ k := by
        rintro rfl
        exact absurd (List.getElem?_eq_some_iff.mp slept).1 (Nat.not_lt.mpr new)
      simpa [other] using inv.fresh j new
    · intro j r slept' asleep'
      have before := inv.going j r slept' fun member => asleep' ((posted j).mpr (.inl member))
      simpa [World.clock, World.ahead, clock, interval, still, locked] using before

/-- The call of `tem_addOneShotRelative` in `tem_sleep`. -/
theorem sleep_spec {s : System Pointer} {ms : Int} {client : Client Pointer} (inv : TimerQueue.Inv s)
    (enabled : Enabled s (.addOneShotRelative ms client)) :
    ∃ timers, step s (.addOneShotRelative ms client) = some (added s timers (some (toLong (s.timers.timerTimeMillis + ms)))) ∧
      TimerQueue.Inv (added s timers (some (toLong (s.timers.timerTimeMillis + ms)))) ∧
      Relinked (withEvent s.timers ⟨toInt (toLong (s.timers.timerTimeMillis + ms)), client, .oneShot, 0, 0, 0, none, none⟩) timers := by
  obtain ⟨unlocked, handler⟩ := enabled
  obtain ⟨nodes, listing, -⟩ := inv.list
  obtain ⟨timers, -, done, -⟩ := addEvent_spec listing ⟨toInt (toLong (s.timers.timerTimeMillis + ms)), client, .oneShot, 0, 0, 0, none, none⟩
  obtain ⟨kept, relinked⟩ := added_inv inv (some (toLong (s.timers.timerTimeMillis + ms))) done (by simp)
  exact ⟨timers, by simp [step, unlocked, temAddOneShotRelative, temAddOneShotAbsolute, handler, done], kept, relinked⟩

/-- A time that an `int` holds. -/
theorem toInt_fits {time : Int} (low : -2147483648 ≤ time) (high : time ≤ intMax) : toInt (toLong time) = time := by
  rw [intMax] at high
  have long : toLong time = time := Int.bmod_eq_of_le_mul_two (by omega) (by omega)
  rw [long]
  exact Int.bmod_eq_of_le_mul_two (by omega) (by omega)

theorem sleep_inv {ms : Int32} (inv : Inv callbackInterval w) (permitted : Permitted w (.sleep ms)) :
    ∃ v, worldStep w (.sleep ms) = some v ∧ Inv callbackInterval v := by
  obtain ⟨enabled, low, high⟩ := permitted
  obtain ⟨timers, done, base, relinked⟩ := sleep_spec inv.base enabled
  have unlocked : w.system.timers.locked = false := enabled.1
  let new : Sleep := ⟨w.clock, ms, w.system.timers.allocated⟩
  have cases : ∀ {j r}, (w.sleeps ++ [new])[j]? = some r → w.sleeps[j]? = some r ∨ j = w.sleeps.length ∧ r = new := by
    intro j r slept
    rcases Nat.lt_or_ge j w.sleeps.length with old | late
    · exact .inl (by rwa [List.getElem?_append_left old] at slept)
    · rw [List.getElem?_append_right late, List.getElem?_singleton] at slept
      split at slept
      · cases slept
        exact .inr ⟨by omega, rfl⟩
      · cases slept
  have kept : ∀ {j r}, w.sleeps[j]? = some r → (w.sleeps ++ [new])[j]? = some r :=
    fun slept => by rwa [List.getElem?_append_left (List.getElem?_eq_some_iff.mp slept).1]
  have unposted : w.sleeps.length ∉ w.posted := fun member => Nat.lt_irrefl _ (inv.called member)
  have contents := relinked.contents w.system.timers.allocated
  simp only [withEvent, Function.update_self, Option.map_some] at contents
  obtain ⟨e, here, own⟩ := Option.map_eq_some_iff.mp contents
  rw [toInt_fits low high] at own
  have clock : timers.timerTimeMillis = w.system.timers.timerTimeMillis := relinked.timerTimeMillis
  have lock : timers.locked = w.system.timers.locked := relinked.locked
  have interval : timers.callbackInterval = w.system.timers.callbackInterval := relinked.callbackInterval
  refine ⟨⟨added w.system timers (some (toLong (w.clock + ms.toInt))), Function.update w.semaphores w.sleeps.length (some 0),
    w.sleeps ++ [new], w.posts, w.woken⟩, by simp only [worldStep, done, Option.map_some]; rfl, ?_⟩
  refine ⟨base, interval.trans inv.interval, ?_, ?_, ?_, ?_, inv.once, ?_, inv.returned, ?_, ?_⟩
  · simpa [World.clock, added, clock] using inv.range
  · intro j r slept asleep
    rcases cases slept with old | ⟨rfl, rfl⟩
    · obtain ⟨queued, zero, f, there, same⟩ := inv.asleep j r old asleep
      have frame := added_frame relinked (Nat.ne_of_lt (inv.base.old there))
      rw [there, Option.map_some] at frame
      obtain ⟨g, found, equal⟩ := Option.map_eq_some_iff.mp frame
      have other := Nat.ne_of_lt (List.getElem?_eq_some_iff.mp old).1
      exact ⟨List.mem_cons_of_mem _ queued, by simpa [other] using zero, g, found, equal.trans same⟩
    · exact ⟨List.mem_cons_self, by simp, e, here, own⟩
  · intro a f there wakes
    by_cases fresh : a = w.system.timers.allocated
    · exact ⟨w.sleeps.length, new, List.getElem?_concat_length, unposted, fresh.symm⟩
    · obtain ⟨old, found, same⟩ := present_content (added_frame relinked fresh) there
      obtain ⟨j, r, slept, asleep, rfl⟩ := inv.only a old found (by rwa [content_client same])
      exact ⟨j, r, kept slept, asleep, rfl⟩
  · intro p member
    obtain ⟨r, slept, bounds⟩ := inv.posts p member
    exact ⟨r, kept slept, bounds⟩
  · intro j member
    have other := Nat.ne_of_lt (inv.called member)
    simpa [other] using inv.values j member
  · intro j late
    rw [List.length_append, List.length_singleton] at late
    have other : j ≠ w.sleeps.length := by omega
    simpa [other] using inv.fresh j (by omega)
  · intro j r slept asleep
    have going : w.clock ≤ r.latest + w.ahead := by
      rcases cases slept with old | ⟨rfl, rfl⟩
      · exact inv.going j r old asleep
      · rw [World.ahead, if_neg (by simp [unlocked]), Int.add_zero, Sleep.latest]
        exact Int.le_max_left w.clock (new.due - 1)
    simpa [World.clock, World.ahead, added, clock, lock, interval] using going

theorem wake_inv (inv : Inv callbackInterval w) {value : Nat} (posted : w.semaphores k = some (value + 1)) :
    ∃ v, worldStep w (.wake k) = some v ∧ Inv callbackInterval v := by
  have member : k ∈ w.posted := by
    by_contra unposted
    rcases Nat.lt_or_ge k w.sleeps.length with old | late
    · have zero := (inv.asleep k _ (List.getElem?_eq_getElem old) unposted).2.1
      rw [posted] at zero
      cases zero
    · rw [inv.fresh k late] at posted
      cases posted
  refine ⟨⟨w.system, Function.update w.semaphores k none, w.sleeps, w.posts, k :: w.woken⟩, by simp [worldStep, posted], ?_⟩
  refine ⟨inv.base, inv.interval, inv.range, ?_, inv.only, inv.posts, inv.once, ?_, ?_, ?_, inv.going⟩
  · intro j r slept asleep
    have other : j ≠ k := fun same => asleep (same ▸ member)
    simpa [other] using inv.asleep j r slept asleep
  · intro j called
    by_cases own : j = k
    · simp [own]
    · simpa [own] using inv.values j called
  · intro j back
    rcases List.mem_cons.mp back with rfl | before
    · exact member
    · exact inv.returned j before
  · intro j late
    by_cases own : j = k
    · simp [own]
    · simpa [own] using inv.fresh j late

end

theorem move_inv {callbackInterval : Int} (forward : 0 ≤ callbackInterval) {w : World} {move : Move}
    (inv : Inv callbackInterval w) (permitted : Permitted w move) : ∃ v, worldStep w move = some v ∧ Inv callbackInterval v := by
  cases move with
  | sleep ms => exact sleep_inv inv permitted
  | wake k =>
    obtain ⟨value, posted⟩ := permitted
    exact wake_inv inv posted
  | timer act =>
    obtain ⟨enabled, foreign⟩ := permitted
    cases filtered : (handling w.system act).filter fun client => Wakes client with
    | none =>
      obtain ⟨system, done, -, -⟩ := step_spec inv.base enabled
      exact ⟨_, by simp only [worldStep, filtered, done, Option.map_some], quiet_inv forward inv enabled foreign filtered done⟩
    | some client =>
      obtain ⟨calls, wakes⟩ := Option.filter_eq_some_iff.mp filtered
      exact wakes_inv inv enabled calls (of_decide_eq_true wakes)

/-- What `tem_sleep` promises. -/
structure Sleeps (callbackInterval : Int) (w : World) : Prop where
  /-- The semaphore of a sleep is posted once, never before its time, and in the first callback
      that sees its time come. -/
  once : (w.posts.map Prod.fst).Nodup
  posts : ∀ p ∈ w.posts, ∃ s, w.sleeps[p.1]? = some s ∧ s.due ≤ p.2 ∧ p.2 ≤ max s.called (s.due - 1) + callbackInterval
  /-- Between the callbacks, who still sleeps has begun since the last one, or has time left. -/
  asleep : w.system.timers.locked = false → ∀ k s, w.sleeps[k]? = some s → k ∉ w.posts.map Prod.fst →
    w.semaphores k = some 0 ∧ (w.system.timers.timerTimeMillis ≤ s.called ∨ w.system.timers.timerTimeMillis < s.due)
  /-- Who was posted can return, and only they do. -/
  awake : ∀ k ∈ w.posts.map Prod.fst, k ∉ w.woken → (worldStep w (.wake k)).isSome
  returned : ∀ k ∈ w.woken, k ∈ w.posts.map Prod.fst

theorem Inv.sleeps {callbackInterval : Int} {w : World} (inv : Inv callbackInterval w) : Sleeps callbackInterval w where
  once := inv.once
  posts := inv.posts
  asleep := by
    intro idle k s slept asleep
    have going := inv.going k s slept asleep
    simp only [World.clock, World.ahead, idle, Sleep.latest, Bool.false_eq_true, if_false] at going
    exact ⟨(inv.asleep k s slept asleep).2.1, by omega⟩
  awake := by
    intro k posted asleep
    have value := inv.values k posted
    rw [if_neg asleep] at value
    simp [worldStep, value]
  returned := inv.returned

private def nap : List Move :=
  [.sleep 15, .timer .tick, .timer .unlock, .timer .tick, .timer (.next (fun _ _ => 0) 0), .timer .unlock, .wake 0]

end VoxiUtil.TimerSleep
