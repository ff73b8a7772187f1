import VoxiUtil.TimerLists

/-!
What each step of the timer manager of `timer.c` does to its events, and that the list
holds the right ones after every run.
-/
namespace VoxiUtil.TimerQueue
open VoxiUtil.DoublyLinked
open VoxiUtil.Runs
open VoxiUtil.Timer
open VoxiUtil.TimerLists
variable {V : Type}

/-- A new event, allocated and not yet inserted. -/
def withEvent (s : Timers V) (e : TimerEvent V) : Timers V :=
  { s with events := Function.update s.events s.allocated (some e), allocated := s.allocated + 1 }

/-- An event that was taken out has another time. -/
def withTime (s : Timers V) (event : Nat) (e : TimerEvent V) (atTimeMillis : Int) : Timers V :=
  { s with events := Function.update s.events event (some { e with atTimeMillis := atTimeMillis }) }

section
variable {s s' : Timers V} {nodes : List Nat} {a : Nat} {e : TimerEvent V} {random : Nat} {nextTime : Int}

/-! ### The functions of the timer manager -/

theorem listing_frame (listing : Listing s nodes) (same : ∀ d ∈ nodes, s'.events d = s.events d) (first : s'.firstTE = s.firstTE)
    (bounded : ∀ d e, s'.events d = some e → d < s'.allocated) : Listing s' nodes := by
  refine ⟨?_, ?_, ?_, bounded⟩
  · rw [first]
    refine linked_frame ?_ ?_ listing.linked
    · intro d member
      rw [nextOf, same d member, nextOf]
    · intro d member
      rw [prevOf, same d member, prevOf]
  · refine listing.sorted.imp_of_mem ?_
    intro c d first second less
    rwa [timeOf, same c first, timeOf, same d second]
  · intro d member
    rw [same d member]
    exact listing.present d member

theorem update_listing (listing : Listing s nodes) (outside : a ∉ nodes) (old : a < s.allocated) (after : Option (TimerEvent V)) :
    Listing { s with events := Function.update s.events a after } nodes := by
  refine listing_frame listing ?_ rfl ?_
  · intro d member
    refine Function.update_of_ne ?_ _ _
    rintro rfl
    exact outside member
  · intro d e' there
    by_cases here : d = a
    · rwa [here]
    · exact listing.bounded d e' (by simpa [here] using there)

theorem fresh_outside (listing : Listing s nodes) : s.allocated ∉ nodes := by
  intro member
  obtain ⟨e, here⟩ := listing.present _ member
  exact Nat.lt_irrefl _ (listing.bounded _ e here)

/-- A new event is one of the list. -/
theorem addEvent_spec (listing : Listing s nodes) (e : TimerEvent V) :
    ∃ s' nodes', addEvent s e = some s' ∧ nodes'.Perm (s.allocated :: nodes) ∧ Listing s' nodes' ∧ Relinked (withEvent s e) s' := by
  have outside := fresh_outside listing
  have extended : Listing (withEvent s e) nodes := by
    refine listing_frame listing ?_ rfl ?_
    · intro d member
      refine Function.update_of_ne ?_ _ _
      rintro rfl
      exact outside member
    · intro d e' there
      by_cases here : d = s.allocated
      · rw [here]
        exact Nat.lt_succ_self _
      · have old := listing.bounded d e' (by simpa [withEvent, here] using there)
        exact Nat.lt_succ_of_lt old
  have new : (withEvent s e).events s.allocated = some e := Function.update_self _ _ _
  obtain ⟨s', pre, post, inserted, rfl, listed, relinked⟩ := insert_listing extended new outside
  exact ⟨s', _, inserted, List.perm_middle, listed, relinked⟩

/-- An event that was taken out is inserted again where its later time belongs, or freed. -/
theorem doOneEvent_placed (listing : Listing s nodes) (here : s.events a = some e) (outside : a ∉ nodes)
    (next : proposed e random = some nextTime) (timerHandler : Int → Int → Int) :
    (∃ s' pre post, doOneEvent s a timerHandler random = some (some (timerHandler e.atTimeMillis nextTime), s') ∧
        timerHandler e.atTimeMillis nextTime ≠ timerStop ∧ s.timerTimeMillis < timerHandler e.atTimeMillis nextTime ∧
        nodes = pre ++ post ∧ Listing s' (pre ++ a :: post) ∧
        Relinked (withTime s a e (toInt (timerHandler e.atTimeMillis nextTime))) s') ∨
      doOneEvent s a timerHandler random = some (none, forget s a) ∧
        (timerHandler e.atTimeMillis nextTime = timerStop ∨ timerHandler e.atTimeMillis nextTime ≤ s.timerTimeMillis) ∧
        Listing (forget s a) nodes := by
  have old := listing.bounded a e here
  by_cases again : timerHandler e.atTimeMillis nextTime ≠ timerStop ∧ s.timerTimeMillis < timerHandler e.atTimeMillis nextTime
  · have moved := update_listing listing outside old (some { e with atTimeMillis := toInt (timerHandler e.atTimeMillis nextTime) })
    obtain ⟨s', pre, post, inserted, split, listed, relinked⟩ := insert_listing moved (Function.update_self _ _ _) outside
    refine .inl ⟨s', pre, post, ?_, again.1, again.2, split, listed, relinked⟩
    have same : change s.events a (fun f => { f with atTimeMillis := toInt (timerHandler e.atTimeMillis nextTime) }) =
        Function.update s.events a (some { e with atTimeMillis := toInt (timerHandler e.atTimeMillis nextTime) }) := by
      rw [change, here]
      rfl
    simp only [doOneEvent, here, next, Option.bind_eq_bind, Option.bind_some, if_pos again, same, inserted, Option.map_some]
  · refine .inr ⟨?_, ?_, update_listing listing outside old none⟩
    · simp only [doOneEvent, here, next, again, Option.bind_eq_bind, Option.bind_some, if_false, forget]
    · rw [not_and_or, not_not, Int.not_lt] at again
      exact again

/-- An event that was taken out is inserted again for a later time, or freed. -/
theorem doOneEvent_spec (listing : Listing s nodes) (here : s.events a = some e) (outside : a ∉ nodes)
    (next : proposed e random = some nextTime) (timerHandler : Int → Int → Int) :
    (∃ s' nodes', doOneEvent s a timerHandler random = some (some (timerHandler e.atTimeMillis nextTime), s') ∧
        timerHandler e.atTimeMillis nextTime ≠ timerStop ∧ s.timerTimeMillis < timerHandler e.atTimeMillis nextTime ∧
        nodes'.Perm (a :: nodes) ∧ Listing s' nodes' ∧
        Relinked (withTime s a e (toInt (timerHandler e.atTimeMillis nextTime))) s') ∨
      doOneEvent s a timerHandler random = some (none, forget s a) ∧
        (timerHandler e.atTimeMillis nextTime = timerStop ∨ timerHandler e.atTimeMillis nextTime ≤ s.timerTimeMillis) ∧
        Listing (forget s a) nodes := by
  rcases doOneEvent_placed listing here outside next timerHandler with
    ⟨s', pre, post, done, goes, later, rfl, listed, relinked⟩ | ended
  · exact .inl ⟨s', _, done, goes, later, List.perm_middle, listed, relinked⟩
  · exact .inr ended

/-- The first event of the list, when it is due. -/
theorem due_some (listing : Listing s nodes) (due : dueEvent s = some (a, e)) :
    ∃ rest, nodes = a :: rest ∧ s.events a = some e ∧ e.atTimeMillis ≤ s.timerTimeMillis := by
  simp only [dueEvent, Option.bind_eq_bind, Option.bind_eq_some_iff] at due
  obtain ⟨first, start, e', here, found⟩ := due
  by_cases early : e'.atTimeMillis ≤ s.timerTimeMillis
  · rw [if_pos early] at found
    cases found
    cases nodes with
    | nil =>
      have empty : s.firstTE = none := listing.linked
      rw [empty] at start
      cases start
    | cons b rest =>
      have head : s.firstTE = some b := listing.linked.1
      rw [head] at start
      cases start
      exact ⟨rest, rfl, here, early⟩
  · rw [if_neg early] at found
    cases found

/-- When the first event is not due, none is. -/
theorem due_none (listing : Listing s nodes) (due : dueEvent s = none) : ∀ b ∈ nodes, s.timerTimeMillis < timeOf s.events b := by
  cases nodes with
  | nil => simp
  | cons first rest =>
    have start : s.firstTE = some first := listing.linked.1
    obtain ⟨e, here⟩ := listing.present first List.mem_cons_self
    have late : s.timerTimeMillis < e.atTimeMillis := by
      simpa [dueEvent, start, here] using due
    intro b member
    rcases List.mem_cons.mp member with rfl | later
    · rwa [timeOf_some here]
    · have order := (List.pairwise_cons.mp listing.sorted).1 b later
      rw [timeOf_some here] at order
      omega

end

/-! ### The steps -/

/-- `calcRandomInterval` does not divide by zero for any event. -/
def Divisible (events : Nat → Option (TimerEvent V)) : Prop :=
  ∀ a e, events a = some e → e.timerType = .random → toLong (e.randomMaxInterval - e.randomMinInterval) ≠ 0

/-- A step that the program can take: the functions wait for the list to be unlocked, one-shot
    timers have a handler, `calcRandomInterval` does not divide by zero, and only events that are
    in the list are cancelled. -/
def Enabled (s : System V) : Act V → Prop
  | .addOneShotAbsolute _ client => s.timers.locked = false ∧ client.timerHandler.isSome = true
  | .addOneShotRelative _ client => s.timers.locked = false ∧ client.timerHandler.isSome = true
  | .addRepetitive _ _ => s.timers.locked = false
  | .addRandom min max _ _ => s.timers.locked = false ∧
      toLong (atLeast s.timers.callbackInterval max - atLeast s.timers.callbackInterval min) ≠ 0
  | .cancel event => s.timers.locked = false ∧ event ∈ s.queued
  | .tick => s.timers.locked = false
  | .next _ _ => s.timers.locked = true ∧ (dueEvent s.timers).isSome = true
  | .unlock => s.timers.locked = true ∧ (dueEvent s.timers).isNone = true
  | .thread event _ _ => event ∈ s.timers.threads

/-- The list from `firstTE` is in the order of the times, is linked both ways, and has exactly the
    events that were added or inserted again and not cancelled or taken out since, each once. -/
def Sound (s : System V) : Prop :=
  ∃ nodes, Linked (nextOf s.timers.events) (prevOf s.timers.events) s.timers.firstTE nodes ∧
    nodes.Pairwise (fun a b => timeOf s.timers.events a ≤ timeOf s.timers.events b) ∧ nodes.Perm s.queued ∧ nodes.Nodup

structure Inv (s : System V) : Prop where
  list : ∃ nodes, Listing s.timers nodes ∧ nodes.Perm s.queued
  waiting : ∀ a ∈ s.timers.threads, (∃ e, s.timers.events a = some e) ∧ a ∉ s.queued
  distinct : s.timers.threads.Nodup
  divisible : Divisible s.timers.events

/-- What the handler of an event that was taken out leads to. -/
inductive Handled (s : System V) (a : Nat) (timerHandler : Int → Int → Int) (random : Nat) : System V → Prop
  | again {e : TimerEvent V} {nextTime : Int} {timers : Timers V} (here : s.timers.events a = some e)
      (next : proposed e random = some nextTime) (goes : timerHandler e.atTimeMillis nextTime ≠ timerStop)
      (later : s.timers.timerTimeMillis < timerHandler e.atTimeMillis nextTime)
      (relinked : Relinked (withTime s.timers a e (toInt (timerHandler e.atTimeMillis nextTime))) timers) :
      Handled s a timerHandler random { s with
        timers := timers
        queued := a :: s.queued
        due := Function.update s.due a (some (timerHandler e.atTimeMillis nextTime)) }
  | ended {e : TimerEvent V} {nextTime : Int} (here : s.timers.events a = some e) (next : proposed e random = some nextTime)
      (stops : timerHandler e.atTimeMillis nextTime = timerStop ∨
        timerHandler e.atTimeMillis nextTime ≤ s.timers.timerTimeMillis) :
      Handled s a timerHandler random { s with timers := forget s.timers a }

/-- The event that a call adds, and the time that is given for it. -/
inductive Adds (s : Timers V) : Act V → TimerEvent V → Option Int → Prop
  | oneShotAbsolute (absTimeMillis : Int) (client : Client V) : Adds s (.addOneShotAbsolute absTimeMillis client)
      ⟨toInt absTimeMillis, client, .oneShot, 0, 0, 0, none, none⟩ (some absTimeMillis)
  | oneShotRelative (relTimeMillis : Int) (client : Client V) : Adds s (.addOneShotRelative relTimeMillis client)
      ⟨toInt (toLong (s.timerTimeMillis + relTimeMillis)), client, .oneShot, 0, 0, 0, none, none⟩
      (some (toLong (s.timerTimeMillis + relTimeMillis)))
  | random (minIntervalMillis maxIntervalMillis interval : Int) (client : Client V) (random : Nat) :
      Adds s (.addRandom minIntervalMillis maxIntervalMillis client random)
        ⟨toInt (toLong (s.timerTimeMillis + interval)), client, .random, 0, atLeast s.callbackInterval minIntervalMillis,
          atLeast s.callbackInterval maxIntervalMillis, none, none⟩ none

/-- The event of `tem_addRepetitive`. -/
def repetitiveEvent (s : Timers V) (intervalMillis : Int) (client : Client V) : TimerEvent V :=
  ⟨toInt (toLong (s.timerTimeMillis + atLeast s.callbackInterval intervalMillis)), client, .repetitive,
    atLeast s.callbackInterval intervalMillis, 0, 0, none, none⟩

/-- All that a step can do. -/
inductive Effect (s : System V) : Act V → System V → Prop
  | ignored {act : Act V} : Effect s act s
  | added {act : Act V} {e : TimerEvent V} {due : Option Int} {timers : Timers V} (unlocked : s.timers.locked = false)
      (adds : Adds s.timers act e due) (relinked : Relinked (withEvent s.timers e) timers) : Effect s act (added s timers due)
  | repetitive {intervalMillis : Int} {client : Client V} {timers : Timers V} (unlocked : s.timers.locked = false)
      (relinked : Relinked (withEvent s.timers (repetitiveEvent s.timers intervalMillis client)) timers) :
      Effect s (.addRepetitive intervalMillis client)
        { added s timers none with repetitive := s.timers.allocated :: s.repetitive }
  | cancelled {event : Nat} {timers : Timers V} (unlocked : s.timers.locked = false) (member : event ∈ s.queued)
      (relinked : Relinked (forget s.timers event) timers) :
      Effect s (.cancel event) { s with timers := timers, queued := s.queued.erase event }
  | ticked (unlocked : s.timers.locked = false) : Effect s .tick { s with timers := ticked s.timers }
  | spawned {a : Nat} {e : TimerEvent V} {timerHandler : Int → Int → Int} {random : Nat} (locked : s.timers.locked = true)
      (first : dueEvent s.timers = some (a, e)) (member : a ∈ s.queued) (here : s.timers.events a = some e)
      (early : e.atTimeMillis ≤ s.timers.timerTimeMillis) (newThread : e.client.newThread = true) : Effect s (.next timerHandler random)
        { taken s (removeFirst s.timers e) a with timers := spawned (removeFirst s.timers e) a }
  | fired {a : Nat} {e : TimerEvent V} {timerHandler : Int → Int → Int} {random : Nat} {t : System V}
      (locked : s.timers.locked = true) (first : dueEvent s.timers = some (a, e)) (member : a ∈ s.queued)
      (here : s.timers.events a = some e) (early : e.atTimeMillis ≤ s.timers.timerTimeMillis) (newThread : e.client.newThread = false)
      (handled : Handled (taken s (removeFirst s.timers e) a) a timerHandler random t) : Effect s (.next timerHandler random) t
  | unlocked (locked : s.timers.locked = true) (late : ∀ b ∈ s.queued, s.timers.timerTimeMillis < timeOf s.timers.events b) :
      Effect s .unlock { s with timers := Timer.unlocked s.timers }
  | thread {a : Nat} {timerHandler : Int → Int → Int} {random : Nat} {t : System V} (member : a ∈ s.timers.threads)
      (outside : a ∉ s.queued)
      (handled : Handled { s with timers := started s.timers a } a timerHandler random t) :
      Effect s (.thread a timerHandler random) t

section
variable {s t : System V} {act : Act V} {a : Nat} {e : TimerEvent V} {timerHandler : Int → Int → Int} {random : Nat}

theorem start_inv (callbackInterval : Int) : Inv (start V callbackInterval) where
  list := ⟨[], ⟨rfl, List.Pairwise.nil, by simp, by simp [start, temStartup]⟩, List.Perm.nil⟩
  waiting := by simp [start, temStartup]
  distinct := List.nodup_nil
  divisible := by simp [Divisible, start, temStartup]

theorem Inv.sound (inv : Inv s) : Sound s := by
  obtain ⟨nodes, listing, perm⟩ := inv.list
  exact ⟨nodes, listing.linked, listing.sorted, perm, linked_nodup listing.linked⟩

theorem relinked_divisible {s t : Timers V} (relinked : Relinked s t) (divisible : Divisible s.events) : Divisible t.events := by
  intro a e here random
  obtain ⟨e', there, same⟩ := present_content (relinked.contents a) here
  have kind := congrArg TimerEvent.timerType same
  have low := congrArg TimerEvent.randomMinInterval same
  have high := congrArg TimerEvent.randomMaxInterval same
  simp only [content] at kind low high
  rw [← low, ← high]
  exact divisible a e' there (kind.trans random)

theorem update_divisible {events : Nat → Option (TimerEvent V)} (divisible : Divisible events)
    (new : e.timerType = .random → toLong (e.randomMaxInterval - e.randomMinInterval) ≠ 0) :
    Divisible (Function.update events a (some e)) := by
  intro b e' there random
  by_cases here : b = a
  · subst here
    rw [Function.update_self] at there
    cases there
    exact new random
  · rw [Function.update_of_ne here] at there
    exact divisible b e' there random

theorem forget_divisible {s : Timers V} (divisible : Divisible s.events) : Divisible (forget s a).events := by
  intro b e' there random
  by_cases here : b = a
  · simp [forget, here] at there
  · exact divisible b e' (by simpa [forget, here] using there) random

theorem calcRandomInterval_some {min max : Int} (range : toLong (max - min) ≠ 0) (random : Nat) :
    ∃ interval, calcRandomInterval min max random = some interval := by
  refine ⟨toLong (min + (random : Int).tmod (toLong (max - min))), ?_⟩
  rw [calcRandomInterval]
  exact if_neg range

theorem proposed_some {events : Nat → Option (TimerEvent V)} (divisible : Divisible events) (here : events a = some e)
    (random : Nat) : ∃ nextTime, proposed e random = some nextTime := by
  unfold proposed
  cases kind : e.timerType with
  | oneShot => exact ⟨_, rfl⟩
  | repetitive => exact ⟨_, rfl⟩
  | random =>
    obtain ⟨interval, found⟩ := calcRandomInterval_some (divisible a e here kind) random
    exact ⟨_, by simp only [found, Option.map_some]; rfl⟩

/-- A queued event does not wait in a thread. -/
theorem Inv.apart (inv : Inv s) (member : a ∈ s.queued) : a ∉ s.timers.threads :=
  fun thread => (inv.waiting a thread).2 member

theorem Inv.queued_nodup (inv : Inv s) : s.queued.Nodup := by
  obtain ⟨nodes, listing, perm⟩ := inv.list
  exact perm.nodup_iff.mp (linked_nodup listing.linked)

theorem Inv.present (inv : Inv s) (member : a ∈ s.queued) : ∃ e, s.timers.events a = some e := by
  obtain ⟨nodes, listing, perm⟩ := inv.list
  exact listing.present a (perm.mem_iff.mpr member)

/-- A queued event was allocated. -/
theorem Inv.old (inv : Inv s) (here : s.timers.events a = some e) : a < s.timers.allocated := by
  obtain ⟨nodes, listing, -⟩ := inv.list
  exact listing.bounded a e here

theorem handle_spec (inv : Inv s) (here : s.timers.events a = some e) (outside : a ∉ s.queued) (free : a ∉ s.timers.threads)
    (timerHandler : Int → Int → Int) (random : Nat) :
    ∃ t, handle s a timerHandler random = some t ∧ Inv t ∧ Handled s a timerHandler random t := by
  obtain ⟨nodes, listing, perm⟩ := inv.list
  obtain ⟨nextTime, next⟩ := proposed_some inv.divisible here random
  have away : a ∉ nodes := fun member => outside (perm.mem_iff.mp member)
  have others : ∀ b ∈ s.timers.threads, b ≠ a := by
    rintro b member rfl
    exact free member
  rcases doOneEvent_spec listing here away next timerHandler with
    ⟨timers, nodes', done, goes, later, perm', listed, relinked⟩ | ⟨done, stops, listed⟩
  · refine ⟨_, by rw [handle, done]; rfl, ⟨⟨nodes', listed, perm'.trans (perm.cons a)⟩, ?_, ?_, ?_⟩,
      .again here next goes later relinked⟩
    · intro b member
      rw [relinked.threads] at member
      obtain ⟨⟨e', there⟩, notQueued⟩ := inv.waiting b member
      have kept : (withTime s.timers a e (toInt (timerHandler e.atTimeMillis nextTime))).events b = some e' := by
        simpa [withTime, others b member] using there
      obtain ⟨e'', after, -⟩ := relinked.present kept
      exact ⟨⟨e'', after⟩, by simp [others b member, notQueued]⟩
    · rw [relinked.threads]
      exact inv.distinct
    · exact relinked_divisible relinked (update_divisible inv.divisible (inv.divisible a e here))
  · refine ⟨{ s with timers := forget s.timers a }, by rw [handle, done]; rfl,
      ⟨⟨nodes, listed, perm⟩, ?_, inv.distinct, forget_divisible inv.divisible⟩, .ended here next stops⟩
    intro b member
    obtain ⟨⟨e', there⟩, notQueued⟩ := inv.waiting b member
    exact ⟨⟨e', by simpa [forget, others b member] using there⟩, notQueued⟩

/-- A call that adds an event. -/
theorem added_inv (inv : Inv s) {timers : Timers V} (due : Option Int) (done : addEvent s.timers e = some timers)
    (divisible : e.timerType = .random → toLong (e.randomMaxInterval - e.randomMinInterval) ≠ 0) :
    Inv (added s timers due) ∧ Relinked (withEvent s.timers e) timers := by
  obtain ⟨nodes, listing, perm⟩ := inv.list
  obtain ⟨timers', nodes', added', perm', listed, relinked⟩ := addEvent_spec listing e
  obtain rfl : timers = timers' := Option.some.inj (done.symm.trans added')
  refine ⟨⟨⟨nodes', listed, perm'.trans (perm.cons _)⟩, ?_, ?_, ?_⟩, relinked⟩
  · intro b member
    simp only [added] at member
    rw [relinked.threads] at member
    obtain ⟨⟨e', there⟩, notQueued⟩ := inv.waiting b member
    have other : b ≠ s.timers.allocated := Nat.ne_of_lt (inv.old there)
    have kept : (withEvent s.timers e).events b = some e' := by simpa [withEvent, other] using there
    obtain ⟨e'', after, -⟩ := relinked.present kept
    exact ⟨⟨e'', after⟩, by simp [added, other, notQueued]⟩
  · simp only [added]
    rw [relinked.threads]
    exact inv.distinct
  · exact relinked_divisible relinked (update_divisible inv.divisible divisible)

/-- The first event was taken out. -/
theorem taken_inv (inv : Inv s) (due : dueEvent s.timers = some (a, e)) :
    Inv (taken s (removeFirst s.timers e) a) ∧ a ∈ s.queued ∧ s.timers.events a = some e ∧
      e.atTimeMillis ≤ s.timers.timerTimeMillis ∧ ∃ e', (removeFirst s.timers e).events a = some e' ∧ content e' = content e := by
  obtain ⟨nodes, listing, perm⟩ := inv.list
  obtain ⟨rest, rfl, here, early⟩ := due_some listing due
  obtain ⟨listed, relinked⟩ := removeFirst_listing listing here
  refine ⟨⟨⟨rest, listed, ?_⟩, ?_, inv.distinct, relinked_divisible relinked inv.divisible⟩, perm.mem_iff.mp List.mem_cons_self, here, early,
    relinked.present here⟩
  · have erased := perm.erase a
    rwa [List.erase_cons_head] at erased
  · intro b member
    obtain ⟨⟨e', there⟩, notQueued⟩ := inv.waiting b member
    obtain ⟨e'', after, -⟩ := relinked.present there
    exact ⟨⟨e'', after⟩, fun queued => notQueued (List.mem_of_mem_erase queued)⟩

/-- Fields that the list does not depend on. -/
theorem same_list_inv (inv : Inv s) {timers : Timers V} (first : timers.firstTE = s.timers.firstTE)
    (events : timers.events = s.timers.events) (allocated : timers.allocated = s.timers.allocated)
    (threads : timers.threads = s.timers.threads) : Inv { s with timers := timers } := by
  obtain ⟨nodes, listing, perm⟩ := inv.list
  refine ⟨⟨nodes, listing_frame listing (fun d _ => congrFun events d) first ?_, perm⟩, ?_, ?_, ?_⟩
  · rw [events, allocated]
    exact listing.bounded
  · simp only [threads, events]
    exact inv.waiting
  · rw [threads]
    exact inv.distinct
  · rw [events]
    exact inv.divisible

theorem oneShotAbsolute_spec (inv : Inv s) {absTimeMillis : Int} {client : Client V}
    (enabled : Enabled s (.addOneShotAbsolute absTimeMillis client)) :
    ∃ t, step s (.addOneShotAbsolute absTimeMillis client) = some t ∧ Inv t ∧ Effect s (.addOneShotAbsolute absTimeMillis client) t := by
  obtain ⟨unlocked, handler⟩ := enabled
  obtain ⟨nodes, listing, -⟩ := inv.list
  obtain ⟨timers, -, done, -⟩ := addEvent_spec listing ⟨toInt absTimeMillis, client, .oneShot, 0, 0, 0, none, none⟩
  obtain ⟨kept, relinked⟩ := added_inv inv (some absTimeMillis) done (by simp)
  refine ⟨added s timers (some absTimeMillis), ?_, kept, .added unlocked (.oneShotAbsolute _ _) relinked⟩
  simp [step, unlocked, temAddOneShotAbsolute, handler, done]

theorem oneShotRelative_spec (inv : Inv s) {relTimeMillis : Int} {client : Client V}
    (enabled : Enabled s (.addOneShotRelative relTimeMillis client)) :
    ∃ t, step s (.addOneShotRelative relTimeMillis client) = some t ∧ Inv t ∧ Effect s (.addOneShotRelative relTimeMillis client) t := by
  obtain ⟨unlocked, handler⟩ := enabled
  obtain ⟨nodes, listing, -⟩ := inv.list
  obtain ⟨timers, -, done, -⟩ := addEvent_spec listing
    ⟨toInt (toLong (s.timers.timerTimeMillis + relTimeMillis)), client, .oneShot, 0, 0, 0, none, none⟩
  obtain ⟨kept, relinked⟩ := added_inv inv (some (toLong (s.timers.timerTimeMillis + relTimeMillis))) done (by simp)
  refine ⟨added s timers (some (toLong (s.timers.timerTimeMillis + relTimeMillis))), ?_, kept,
    .added unlocked (.oneShotRelative _ _) relinked⟩
  simp [step, unlocked, temAddOneShotRelative, temAddOneShotAbsolute, handler, done]

theorem repetitive_spec (inv : Inv s) {intervalMillis : Int} {client : Client V}
    (unlocked : Enabled s (.addRepetitive intervalMillis client)) :
    ∃ t, step s (.addRepetitive intervalMillis client) = some t ∧ Inv t ∧ Effect s (.addRepetitive intervalMillis client) t := by
  replace unlocked : s.timers.locked = false := unlocked
  obtain ⟨nodes, listing, -⟩ := inv.list
  by_cases handler : client.timerHandler = none
  · exact ⟨s, by simp [step, unlocked, temAddRepetitive, handler], inv, .ignored⟩
  · obtain ⟨timers, -, done, -⟩ := addEvent_spec listing (repetitiveEvent s.timers intervalMillis client)
    obtain ⟨kept, relinked⟩ := added_inv inv none done (by simp [repetitiveEvent])
    refine ⟨{ added s timers none with repetitive := s.timers.allocated :: s.repetitive }, ?_,
      ⟨kept.list, kept.waiting, kept.distinct, kept.divisible⟩, .repetitive unlocked relinked⟩
    rw [repetitiveEvent] at done
    simp [step, unlocked, temAddRepetitive, handler, done]

theorem random_spec (inv : Inv s) {min max : Int} {client : Client V} (enabled : Enabled s (.addRandom min max client random)) :
    ∃ t, step s (.addRandom min max client random) = some t ∧ Inv t ∧ Effect s (.addRandom min max client random) t := by
  obtain ⟨unlocked, range⟩ := enabled
  obtain ⟨nodes, listing, -⟩ := inv.list
  by_cases handler : client.timerHandler = none
  · exact ⟨s, by simp [step, unlocked, temAddRandom, handler], inv, .ignored⟩
  · obtain ⟨interval, found⟩ := calcRandomInterval_some range random
    obtain ⟨timers, -, done, -⟩ := addEvent_spec listing ⟨toInt (toLong (s.timers.timerTimeMillis + interval)), client, .random, 0,
      atLeast s.timers.callbackInterval min, atLeast s.timers.callbackInterval max, none, none⟩
    obtain ⟨kept, relinked⟩ := added_inv inv none done fun _ => range
    refine ⟨added s timers none, ?_, kept, .added unlocked (.random _ _ _ _ _) relinked⟩
    simp [step, unlocked, temAddRandom, handler, found, done]

theorem cancel_spec (inv : Inv s) (enabled : Enabled s (.cancel a)) :
    ∃ t, step s (.cancel a) = some t ∧ Inv t ∧ Effect s (.cancel a) t := by
  obtain ⟨unlocked, member⟩ := enabled
  obtain ⟨nodes, listing, perm⟩ := inv.list
  obtain ⟨pre, post, rfl⟩ := List.append_of_mem (perm.mem_iff.mpr member)
  obtain ⟨timers, done, listed, relinked⟩ := cancel_listing listing
  have first : a ∉ pre := fun inside => (List.nodup_append.mp (linked_nodup listing.linked)).2.2 a inside a (by simp) rfl
  refine ⟨{ s with timers := timers, queued := s.queued.erase a }, by simp [step, unlocked, done],
    ⟨⟨pre ++ post, listed, ?_⟩, ?_, ?_, ?_⟩, .cancelled unlocked member relinked⟩
  · have erased := perm.erase a
    rwa [List.erase_append_right _ first, List.erase_cons_head] at erased
  · intro b waits
    rw [relinked.threads] at waits
    obtain ⟨⟨e', there⟩, notQueued⟩ := inv.waiting b waits
    have other : b ≠ a := by
      rintro rfl
      exact notQueued member
    have kept : (forget s.timers a).events b = some e' := by simpa [forget, other] using there
    obtain ⟨e'', after, -⟩ := relinked.present kept
    exact ⟨⟨e'', after⟩, fun queued => notQueued (List.mem_of_mem_erase queued)⟩
  · rw [relinked.threads]
    exact inv.distinct
  · exact relinked_divisible relinked (forget_divisible inv.divisible)

theorem tick_spec (inv : Inv s) (unlocked : s.timers.locked = false) :
    ∃ t, step s .tick = some t ∧ Inv t ∧ Effect s .tick t := by
  refine ⟨{ s with timers := ticked s.timers }, ?_, same_list_inv inv rfl rfl rfl rfl, .ticked unlocked⟩
  simp only [step, unlocked, assert_true, Option.bind_eq_bind, Option.bind_some]

theorem unlock_spec (inv : Inv s) (enabled : Enabled s .unlock) : ∃ t, step s .unlock = some t ∧ Inv t ∧ Effect s .unlock t := by
  obtain ⟨locked, none⟩ := enabled
  obtain ⟨nodes, listing, perm⟩ := inv.list
  have late := due_none listing (Option.isNone_iff_eq_none.mp none)
  refine ⟨{ s with timers := unlocked s.timers }, ?_, same_list_inv inv rfl rfl rfl rfl,
    .unlocked locked fun b member => late b (perm.mem_iff.mpr member)⟩
  simp only [step, locked, none, assert_true, Option.bind_eq_bind, Option.bind_some]

theorem next_spec (inv : Inv s) (enabled : Enabled s (.next timerHandler random)) :
    ∃ t, step s (.next timerHandler random) = some t ∧ Inv t ∧ Effect s (.next timerHandler random) t := by
  obtain ⟨locked, some⟩ := enabled
  obtain ⟨⟨a, e⟩, due⟩ := Option.isSome_iff_exists.mp some
  obtain ⟨kept, member, here, early, e', after, same⟩ := taken_inv inv due
  have free := inv.apart member
  have gone : a ∉ s.queued.erase a := inv.queued_nodup.not_mem_erase
  by_cases newThread : e.client.newThread = true
  · refine ⟨{ taken s (removeFirst s.timers e) a with timers := spawned (removeFirst s.timers e) a }, ?_,
      ⟨?_, ?_, ?_, kept.divisible⟩, .spawned locked due member here early newThread⟩
    · simp only [step, locked, assert_true, due, newThread, Option.bind_eq_bind, Option.bind_some, if_true]
      rfl
    · obtain ⟨nodes, listing, perm⟩ := kept.list
      exact ⟨nodes, listing_frame listing (fun _ _ => rfl) rfl listing.bounded, perm⟩
    · intro b waits
      rcases List.mem_append.mp waits with before | last
      · exact kept.waiting b before
      · rw [List.mem_singleton.mp last]
        exact ⟨⟨e', after⟩, gone⟩
    · refine List.nodup_append.mpr ⟨inv.distinct, by simp, ?_⟩
      rintro b waits c last rfl
      exact free (List.mem_singleton.mp last ▸ waits)
  · obtain ⟨t, done, result, handled⟩ := handle_spec kept after gone free timerHandler random
    refine ⟨t, ?_, result, .fired locked due member here early (Bool.not_eq_true _ ▸ newThread) handled⟩
    simp only [step, locked, assert_true, due, if_neg newThread, Option.bind_eq_bind, Option.bind_some]
    exact done

theorem thread_spec (inv : Inv s) (waits : a ∈ s.timers.threads) :
    ∃ t, step s (.thread a timerHandler random) = some t ∧ Inv t ∧ Effect s (.thread a timerHandler random) t := by
  obtain ⟨⟨e, here⟩, outside⟩ := inv.waiting a waits
  obtain ⟨nodes, listing, perm⟩ := inv.list
  have kept : Inv { s with timers := started s.timers a } := by
    refine ⟨⟨nodes, listing_frame listing (fun _ _ => rfl) rfl listing.bounded, perm⟩, ?_, inv.distinct.erase a, inv.divisible⟩
    intro b member
    exact inv.waiting b (List.mem_of_mem_erase member)
  obtain ⟨t, done, result, handled⟩ := handle_spec kept here outside inv.distinct.not_mem_erase timerHandler random
  refine ⟨t, ?_, result, .thread waits outside handled⟩
  simp only [step, waits, assert_true, Option.bind_eq_bind, Option.bind_some]
  exact done

/-- An enabled step can be taken, keeps the list, and has no other effect than its own. -/
theorem step_spec (inv : Inv s) (enabled : Enabled s act) : ∃ t, step s act = some t ∧ Inv t ∧ Effect s act t := by
  cases act with
  | addOneShotAbsolute absTimeMillis client => exact oneShotAbsolute_spec inv enabled
  | addOneShotRelative relTimeMillis client => exact oneShotRelative_spec inv enabled
  | addRepetitive intervalMillis client => exact repetitive_spec inv enabled
  | addRandom min max client random => exact random_spec inv enabled
  | cancel event => exact cancel_spec inv enabled
  | tick => exact tick_spec inv enabled
  | next timerHandler random => exact next_spec inv enabled
  | unlock => exact unlock_spec inv enabled
  | thread event timerHandler random => exact thread_spec inv enabled

end

/-! ### Runs -/

instance (s : System V) (act : Act V) : Decidable (Enabled s act) :=
  match act with
  | .addOneShotAbsolute _ _ => inferInstanceAs (Decidable (_ ∧ _))
  | .addOneShotRelative _ _ => inferInstanceAs (Decidable (_ ∧ _))
  | .addRepetitive _ _ => inferInstanceAs (Decidable (_ = _))
  | .addRandom _ _ _ _ => inferInstanceAs (Decidable (_ ∧ ¬ _))
  | .cancel _ => inferInstanceAs (Decidable (_ ∧ _))
  | .tick => inferInstanceAs (Decidable (_ = _))
  | .next _ _ => inferInstanceAs (Decidable (_ ∧ _))
  | .unlock => inferInstanceAs (Decidable (_ ∧ _))
  | .thread _ _ _ => inferInstanceAs (Decidable (_ ∈ _))

theorem enabled_preserved (s : System V) (act : Act V) (t : System V) (inv : Inv s) (enabled : Enabled s act)
    (done : step s act = some t) : Inv t ∧ Effect s act t := by
  obtain ⟨t', done', kept⟩ := step_spec inv enabled
  rw [done] at done'
  cases done'
  exact kept

theorem handled_clock (handled : Handled s a timerHandler random t) :
    t.timers.callbackInterval = s.timers.callbackInterval ∧ t.timers.timerTimeMillis = s.timers.timerTimeMillis ∧
      t.timers.locked = s.timers.locked := by
  cases handled with
  | again here next goes later relinked => exact ⟨relinked.callbackInterval, relinked.timerTimeMillis, relinked.locked⟩
  | ended here next stops => exact ⟨rfl, rfl, rfl⟩

/-- The clock goes on with a tick, and after the loop no event of the list is due. -/
theorem effect_clock (effect : Effect s act t) : t.timers.callbackInterval = s.timers.callbackInterval ∧
    (t.timers.timerTimeMillis = s.timers.timerTimeMillis ∧ t.timers.locked = s.timers.locked ∨
      act = .tick ∧ s.timers.locked = false ∧ t.timers = ticked s.timers ∨
      t.timers = unlocked s.timers ∧ ∀ b ∈ s.queued, s.timers.timerTimeMillis < timeOf s.timers.events b) := by
  cases effect with
  | ignored => exact ⟨rfl, .inl ⟨rfl, rfl⟩⟩
  | added unlocked adds relinked => exact ⟨relinked.callbackInterval, .inl ⟨relinked.timerTimeMillis, relinked.locked⟩⟩
  | repetitive unlocked relinked => exact ⟨relinked.callbackInterval, .inl ⟨relinked.timerTimeMillis, relinked.locked⟩⟩
  | cancelled unlocked member relinked => exact ⟨relinked.callbackInterval, .inl ⟨relinked.timerTimeMillis, relinked.locked⟩⟩
  | ticked unlocked => exact ⟨rfl, .inr (.inl ⟨rfl, unlocked, rfl⟩)⟩
  | spawned locked first member here early newThread => exact ⟨rfl, .inl ⟨rfl, rfl⟩⟩
  | fired locked first member here early newThread handled =>
    obtain ⟨interval, clock, lock⟩ := handled_clock handled
    exact ⟨interval, .inl ⟨clock, lock⟩⟩
  | unlocked locked late => exact ⟨rfl, .inr (.inr ⟨rfl, late⟩)⟩
  | thread member outside handled =>
    obtain ⟨interval, clock, lock⟩ := handled_clock handled
    exact ⟨interval, .inl ⟨clock, lock⟩⟩

/-- For every sequence of adding, cancelling queued events and ticks, whatever the handlers return,
    every step can be taken, and the list is sorted, linked both ways and has the right events
    after each. -/
theorem queue_sound (callbackInterval : Int) {labels : List (Act V)}
    (enabled : Guarded step Enabled (start V callbackInterval) labels) :
    (∃ s, run step (start V callbackInterval) labels = some s) ∧ Visits step Sound (start V callbackInterval) labels := by
  constructor
  · have each : ∀ (s : System V) (act : Act V), Inv s → Enabled s act → ∃ t, step s act = some t ∧ Inv t := by
      intro s act inv enabled
      obtain ⟨t, done, kept, -⟩ := step_spec inv enabled
      exact ⟨t, done, kept⟩
    obtain ⟨s, ran, -⟩ := guarded_total each (start_inv callbackInterval) enabled
    exact ⟨s, ran⟩
  · refine visits_mono (fun s inv => Inv.sound inv) (guarded_visits ?_ (start_inv callbackInterval) enabled)
    exact fun s act t inv enabled done => (enabled_preserved s act t inv enabled done).1

private def client : Client Unit := ⟨some (), none, 0, none, false⟩

private def sample : List (Act Unit) :=
  [.addOneShotAbsolute 25 client, .addRepetitive 5 client, .addRandom 20 30 client 7, .cancel 0, .tick,
    .next (fun _ nextTime => nextTime) 0, .unlock]

theorem queue_sound_sample :
    (∃ s, run step (start Unit 10) sample = some s) ∧ Visits step Sound (start Unit 10) sample :=
  queue_sound 10 (checkedRun_some rfl).1

end VoxiUtil.TimerQueue
