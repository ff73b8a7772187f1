import VoxiUtil.Event
import VoxiUtil.Ring
import VoxiUtil.Tally

/-!
When the event ring of `event.c` loses no event. The check for a free cell is made
before the lock is taken, so that several posters can pass it for one cell.
-/
namespace VoxiUtil.EventRing
open VoxiUtil.Runs
open VoxiUtil.Event
open VoxiUtil.Ring
open VoxiUtil.Tally
variable {τ V : Type}

/-- The cell that the main loop reads next. -/
def next (s : System τ V) : Nat :=
  match s.main with
  | .got _ => (s.frontEvent + 1) % eventMaxEvents
  | .locked _ => (s.frontEvent + 1) % eventMaxEvents
  | _ => s.frontEvent

/-- The events in the ring, from the one that is read next up to `backEvent`. -/
def contents (s : System τ V) : List Nat :=
  held s.eventQueue eventMaxEvents (next s) ((s.backEvent + eventMaxEvents - next s) % eventMaxEvents)

/-- The ring loses no event: those that were inserted are in this order those that were taken and
    those in the ring, each once, and the assertion of the main loop holds. -/
structure Keeps (s : System τ V) : Prop where
  order : s.inserted = s.taken ++ contents s
  once : s.inserted.Nodup
  assertion : s.main = .woken → s.frontEvent ≠ s.backEvent

/-- A poster moves `backEvent` on only when the cell behind is not the next one that is read. -/
def Permitted (s : System τ V) : Act τ V → Prop
  | .poster t =>
    match s.poster t with
    | .stored _ _ => (s.backEvent + 1) % eventMaxEvents ≠ next s
    | _ => True
  | _ => True

/-- Posters that have inserted an event and not posted the semaphore. -/
def Owes : PosterAt V → Prop
  | .moved _ _ => True
  | .unlocked _ _ => True
  | _ => False

/-- Posters that have the lock. -/
def Inside : PosterAt V → Prop
  | .locked _ => True
  | .stored _ _ => True
  | .moved _ _ => True
  | _ => False

def MainInside : MainAt → Prop
  | .locked _ => True
  | .moved _ => True
  | _ => False

/-- A woken main loop has taken one from the semaphore. -/
def wakes (main : MainAt) : Nat := if main = .woken then 1 else 0

/-- There are so many events in the ring: those that the semaphore counts, those of the posters that
    did not post it yet, and the one that the main loop was woken for. -/
structure Filled (s : System τ V) (count : Nat) : Prop where
  room : count < eventMaxEvents
  back : s.backEvent = (next s + count) % eventMaxEvents
  order : s.inserted = s.taken ++ held s.eventQueue eventMaxEvents (next s) count
  balance : ∃ posting, Count s.poster Owes posting ∧ count = s.eventsInQueue + posting + wakes s.main

structure Inv (s : System τ V) : Prop where
  front : s.frontEvent < eventMaxEvents
  filled : ∃ count, Filled s count
  lock : ∀ t, Inside (s.poster t) → s.eventQueueModificationLock = some (.poster t)
  mainLock : MainInside s.main → s.eventQueueModificationLock = some .mainLoop
  stored : ∀ t request event, s.poster t = .stored request event →
    s.eventQueue s.backEvent = event ∧ event ∉ s.inserted ∧ event < s.allocated
  allocated : ∀ event ∈ s.inserted, event < s.allocated
  once : s.inserted.Nodup

section
variable {s s' : System τ V} {count : Nat}

theorem positive : 0 < eventMaxEvents := by
  decide

theorem Inv.next_small (inv : Inv s) : next s < eventMaxEvents := by
  unfold next
  cases s.main <;> first | exact inv.front | exact Nat.mod_lt _ positive

theorem Inv.contents_eq (inv : Inv s) (filled : Filled s count) : contents s = held s.eventQueue eventMaxEvents (next s) count := by
  rw [contents, filled.back, around_distance inv.next_small filled.room]

theorem Inv.keeps (inv : Inv s) : Keeps s := by
  obtain ⟨count, filled⟩ := inv.filled
  refine ⟨?_, inv.once, ?_⟩
  · rw [inv.contents_eq filled]
    exact filled.order
  · intro woken same
    have small := filled.room
    obtain ⟨posting, -, balance⟩ := filled.balance
    have reads : next s = s.frontEvent := by rw [next, woken]
    have some : 0 < count := by
      rw [wakes, if_pos woken] at balance
      omega
    have back := filled.back
    rw [reads] at back
    have whole := (around_iff inv.front some (Nat.le_of_lt small)).mp (same.trans back)
    omega

theorem startup_inv (eventQueue : Nat → Nat) : Inv (emStartup eventQueue : System τ V) where
  front := positive
  filled := ⟨0, positive, rfl, rfl, 0, count_none (by simp [emStartup, Owes]), rfl⟩
  lock := by simp [emStartup, Inside]
  mainLock := by simp [emStartup, MainInside]
  stored := by simp [emStartup]
  allocated := by simp [emStartup]
  once := List.nodup_nil

variable {t : τ}

/-- Nobody else has the lock when a poster has it. -/
theorem Inv.alone (inv : Inv s) (inside : Inside (s.poster t)) :
    (∀ u, u ≠ t → ¬ Inside (s.poster u)) ∧ ¬ MainInside s.main := by
  have mine := inv.lock t inside
  constructor
  · intro u different other
    have theirs := inv.lock u other
    rw [mine] at theirs
    cases theirs
    exact different rfl
  · intro other
    have theirs := inv.mainLock other
    rw [mine] at theirs
    cases theirs

/-- Nobody has the lock when it is free. -/
theorem Inv.free (inv : Inv s) (free : s.eventQueueModificationLock = none) :
    (∀ u, ¬ Inside (s.poster u)) ∧ ¬ MainInside s.main := by
  constructor
  · intro u other
    have theirs := inv.lock u other
    rw [free] at theirs
    cases theirs
  · intro other
    have theirs := inv.mainLock other
    rw [free] at theirs
    cases theirs

/-- The handling of events does not change the ring. -/
theorem Inv.handled (inv : Inv s) (events : Nat → Option (SEvent V)) (handling : List Nat) :
    Inv { s with events := events, handling := handling } := by
  obtain ⟨count, filled⟩ := inv.filled
  exact ⟨inv.front, ⟨count, filled.room, filled.back, filled.order, filled.balance⟩, inv.lock, inv.mainLock, inv.stored,
    inv.allocated, inv.once⟩

/-- Posters that do not have the lock have no event in a cell. -/
theorem stored_inside {poster : τ → PosterAt V} {P : Nat → Prop} (outside : ¬ Inside (poster t)) (request : Request V) (event : Nat)
    (stored : poster t = .stored request event) : P event := by
  rw [stored] at outside
  exact absurd trivial outside

/-! ### The steps of the posters -/

section
variable [DecidableEq τ] {place : PosterAt V} {request : Request V} {event : Nat}

theorem moved_inside {poster : τ → PosterAt V} {lock : Option (Party τ)} (mine : Inside place → lock = some (.poster t))
    (others : ∀ u, u ≠ t → Inside (poster u) → lock = some (.poster u)) :
    ∀ u, Inside (Function.update poster t place u) → lock = some (.poster u) :=
  (Function.forall_update_iff poster fun u place => Inside place → lock = some (.poster u)).mpr ⟨mine, others⟩

theorem moved_stored {poster : τ → PosterAt V} {P : Nat → Prop} (mine : ∀ request event, place = .stored request event → P event)
    (others : ∀ u, u ≠ t → ∀ request event, poster u = .stored request event → P event) :
    ∀ u request event, Function.update poster t place u = .stored request event → P event :=
  (Function.forall_update_iff poster fun _ place => ∀ request event, place = .stored request event → P event).mpr ⟨mine, others⟩

/-- A poster moves where neither the lock nor the ring sees it. -/
theorem move_inv (inv : Inv s) (owes : Owes (s.poster t) ↔ Owes place) (outside : ¬ Inside place) : Inv (setPoster s t place) := by
  obtain ⟨count, room, back, order, posting, counted, balance⟩ := inv.filled
  refine ⟨inv.front, ⟨count, room, back, order, posting, count_move counted owes, balance⟩, ?_, inv.mainLock, ?_,
    inv.allocated, inv.once⟩
  · exact moved_inside (fun inside => absurd inside outside) fun u _ => inv.lock u
  · refine moved_stored ?_ fun u _ => inv.stored u
    rintro request event rfl
    exact absurd trivial outside

theorem lock_inv (inv : Inv s) (here : s.poster t = .checked request) (free : s.eventQueueModificationLock = none) :
    Inv (setPoster { s with eventQueueModificationLock := some (.poster t) } t (.locked request)) := by
  obtain ⟨count, room, back, order, posting, counted, balance⟩ := inv.filled
  obtain ⟨posters, main⟩ := inv.free free
  refine ⟨inv.front, ⟨count, room, back, order, posting, count_move counted ?_, balance⟩, ?_, ?_, ?_, inv.allocated, inv.once⟩
  · simp [here, Owes]
  · exact moved_inside (fun _ => rfl) fun u _ inside => absurd inside (posters u)
  · exact fun inside => absurd inside main
  · exact moved_stored (by simp) fun u _ => inv.stored u

/-- The cell behind the ring is written. -/
theorem store_inv (inv : Inv s) (here : s.poster t = .locked request) (events : Nat → Option (SEvent V)) :
    Inv (setPoster { s with allocated := s.allocated + 1
                            events := events
                            eventQueue := Function.update s.eventQueue s.backEvent s.allocated } t
      (.stored request s.allocated)) := by
  obtain ⟨count, room, back, order, posting, counted, balance⟩ := inv.filled
  obtain ⟨others, main⟩ := inv.alone (t := t) (by simp [here, Inside])
  have same := held_update (next s) s.eventQueue room s.allocated
  refine ⟨inv.front, ⟨count, room, back, ?_, posting, count_move counted ?_, balance⟩, ?_, inv.mainLock, ?_, ?_, inv.once⟩
  · rw [← back] at same
    exact order.trans (congrArg _ same.symm)
  · simp [here, Owes]
  · exact moved_inside (fun _ => inv.lock t (by simp [here, Inside])) fun u _ => inv.lock u
  · refine moved_stored ?_ ?_
    · rintro _ _ ⟨⟩
      refine ⟨Function.update_self _ _ _, ?_, Nat.lt_succ_self _⟩
      intro old
      exact Nat.lt_irrefl _ (inv.allocated _ old)
    · intro u different
      exact stored_inside (others u different)
  · intro event old
    exact Nat.lt_succ_of_lt (inv.allocated event old)

/-- The event in the cell becomes the last one of the ring. -/
theorem insert_inv (inv : Inv s) (here : s.poster t = .stored request event) (free : (s.backEvent + 1) % eventMaxEvents ≠ next s) :
    Inv (setPoster { s with backEvent := (s.backEvent + 1) % eventMaxEvents, inserted := s.inserted ++ [event] } t
      (.moved request event)) := by
  obtain ⟨count, room, back, order, posting, counted, balance⟩ := inv.filled
  obtain ⟨others, main⟩ := inv.alone (t := t) (by simp [here, Inside])
  obtain ⟨cell, fresh, old⟩ := inv.stored t request event here
  have further : (s.backEvent + 1) % eventMaxEvents = (next s + (count + 1)) % eventMaxEvents := by
    rw [back, Nat.mod_add_mod, Nat.add_assoc]
  have room' : count + 1 < eventMaxEvents := by
    refine Nat.lt_of_le_of_ne room ?_
    intro full
    rw [further, full, Nat.add_mod_right, Nat.mod_eq_of_lt inv.next_small] at free
    exact free rfl
  refine ⟨inv.front, ⟨count + 1, room', further, ?_, posting + 1, count_enter counted ?_ trivial, ?_⟩, ?_, inv.mainLock, ?_, ?_, ?_⟩
  · have longer := held_succ s.eventQueue eventMaxEvents (next s) count
    rw [← back, cell] at longer
    simp only [order, List.append_assoc]
    exact congrArg _ longer.symm
  · simp [here, Owes]
  · simp only [setPoster]
    omega
  · exact moved_inside (fun _ => inv.lock t (by simp [here, Inside])) fun u _ => inv.lock u
  · refine moved_stored (by simp) ?_
    intro u different
    exact stored_inside (others u different)
  · intro other member
    rcases List.mem_append.mp member with before | last
    · exact inv.allocated other before
    · rw [List.mem_singleton.mp last]
      exact old
  · exact List.nodup_append.mpr ⟨inv.once, by simp, by
      rintro a member b last rfl
      exact fresh (List.mem_singleton.mp last ▸ member)⟩

theorem unlock_inv (inv : Inv s) (here : s.poster t = .moved request event) :
    Inv (setPoster { s with eventQueueModificationLock := none } t (.unlocked request event)) := by
  obtain ⟨count, room, back, order, posting, counted, balance⟩ := inv.filled
  obtain ⟨others, main⟩ := inv.alone (t := t) (by simp [here, Inside])
  refine ⟨inv.front, ⟨count, room, back, order, posting, count_move counted ?_, balance⟩, ?_, ?_, ?_, inv.allocated, inv.once⟩
  · simp [here, Owes]
  · exact moved_inside (by simp [Inside]) fun u different inside => absurd inside (others u different)
  · exact fun inside => absurd inside main
  · exact moved_stored (by simp) fun u _ => inv.stored u

theorem semPost_inv (inv : Inv s) (here : s.poster t = .unlocked request event) :
    Inv (setPoster { s with eventsInQueue := s.eventsInQueue + 1 } t (if request.blocking then .posted event else .outside)) := by
  obtain ⟨count, room, back, order, posting, counted, balance⟩ := inv.filled
  have owes : Owes (s.poster t) := by simp [here, Owes]
  have some := count_pos counted owes
  have settled : ¬ Owes (if request.blocking then PosterAt.posted (V := V) event else .outside) := by
    by_cases blocking : request.blocking <;> simp [blocking, Owes]
  have outside : ¬ Inside (if request.blocking then PosterAt.posted (V := V) event else .outside) := by
    by_cases blocking : request.blocking <;> simp [blocking, Inside]
  refine ⟨inv.front, ⟨count, room, back, order, posting - 1, count_leave counted owes settled, ?_⟩, ?_, inv.mainLock, ?_,
    inv.allocated, inv.once⟩
  · simp only [setPoster]
    omega
  · exact moved_inside (fun inside => absurd inside outside) fun u _ => inv.lock u
  · refine moved_stored ?_ fun u _ => inv.stored u
    intro other number same
    rw [same] at outside
    exact absurd trivial outside

theorem enter_inv (inv : Inv s) (done : enter s t request = some s') : Inv s' := by
  unfold enter at done
  split at done
  · rename_i here
    simp only [Option.bind_eq_bind, Option.bind_eq_some_iff, assert_eq_some] at done
    obtain ⟨-, -, -, -, ⟨⟩⟩ := done
    exact move_inv inv (by simp [here, Owes]) (by simp [Inside])
  · cases done

/-- What a step of a poster preserves. -/
theorem poster_inv (inv : Inv s) (permitted : Permitted s (.poster t)) (done : emPostEvent s t = some s') : Inv s' := by
  unfold Permitted at permitted
  unfold emPostEvent at done
  cases here : s.poster t with
  | outside => simp [here] at done
  | checked request =>
    simp only [here, Option.bind_eq_bind, Option.bind_eq_some_iff, assert_eq_some] at done
    obtain ⟨-, free, ⟨⟩⟩ := done
    exact lock_inv inv here free
  | locked request =>
    simp only [here] at done
    cases done
    exact store_inv inv here _
  | stored request event =>
    simp only [here] at done permitted
    cases done
    exact insert_inv inv here permitted
  | moved request event =>
    simp only [here] at done
    cases done
    exact unlock_inv inv here
  | unlocked request event =>
    simp only [here] at done
    cases done
    exact semPost_inv inv here
  | posted event =>
    simp only [here, Option.bind_eq_bind, Option.bind_eq_some_iff, assert_eq_some] at done
    obtain ⟨-, -, -, -, ⟨⟩⟩ := done
    exact move_inv (inv.handled _ s.handling) (by simp [here, Owes]) (by simp [Inside])

end

/-! ### The steps of the main loop -/

/-- The main loop moves and reads the same cell next. -/
theorem main_inv {main : MainAt} {lock : Option (Party τ)} {semaphore front : Nat} (inv : Inv s) (small : front < eventMaxEvents)
    (reads : next { s with frontEvent := front, main := main } = next s)
    (balance : s.eventsInQueue + wakes s.main = semaphore + wakes main)
    (posters : ∀ t, Inside (s.poster t) → lock = some (.poster t)) (inside : MainInside main → lock = some .mainLoop) :
    Inv { s with frontEvent := front, eventsInQueue := semaphore, eventQueueModificationLock := lock, main := main } := by
  obtain ⟨count, room, back, order, posting, counted, before⟩ := inv.filled
  refine ⟨small, ⟨count, room, ?_, ?_, posting, counted, ?_⟩, posters, inside, inv.stored, inv.allocated, inv.once⟩
  · rw [← reads] at back
    exact back
  · rw [← reads] at order
    exact order
  · simp only
    omega

/-- The first event of the ring is read. -/
theorem take_inv (inv : Inv s) (here : s.main = .woken) :
    Inv { s with main := .got (s.eventQueue s.frontEvent), taken := s.taken ++ [s.eventQueue s.frontEvent] } := by
  obtain ⟨count, room, back, order, posting, counted, balance⟩ := inv.filled
  have reads : next s = s.frontEvent := by rw [next, here]
  rw [wakes, if_pos here] at balance
  obtain ⟨rest, rfl⟩ : ∃ rest, count = rest + 1 := ⟨s.eventsInQueue + posting, by omega⟩
  refine ⟨inv.front, ⟨rest, by omega, ?_, ?_, posting, counted, ?_⟩, inv.lock, by simp [MainInside], inv.stored,
    inv.allocated, inv.once⟩
  · rw [back, reads]
    simp only [next]
    rw [Nat.mod_add_mod, Nat.add_assoc, Nat.add_comm 1]
  · rw [order, reads, held_first _ inv.front, List.append_assoc]
    rfl
  · simp only [wakes]
    simp
    omega

/-- What a step of the main loop preserves. -/
theorem mainLoop_inv (inv : Inv s) (done : emMainLoop s = some s') : Inv s' := by
  unfold emMainLoop at done
  cases here : s.main with
  | waiting =>
    simp only [here, Option.bind_eq_bind, Option.bind_eq_some_iff, assert_eq_some] at done
    obtain ⟨-, some, ⟨⟩⟩ := done
    refine main_inv inv inv.front (by simp [next, here]) ?_ inv.lock (by simp [MainInside])
    simp [wakes, here]
    omega
  | woken =>
    simp only [here, Option.bind_eq_bind, Option.bind_eq_some_iff, assert_eq_some] at done
    obtain ⟨-, -, ⟨⟩⟩ := done
    exact take_inv inv here
  | got event =>
    simp only [here, Option.bind_eq_bind, Option.bind_eq_some_iff, assert_eq_some] at done
    obtain ⟨-, free, ⟨⟩⟩ := done
    refine main_inv inv inv.front (by simp [next, here]) (by simp [wakes, here]) ?_ fun _ => rfl
    intro t inside
    exact absurd inside ((inv.free free).1 t)
  | locked event =>
    simp only [here] at done
    cases done
    have locked := inv.mainLock (by simp [here, MainInside])
    refine main_inv inv (Nat.mod_lt _ positive) (by simp [next, here]) (by simp [wakes, here]) inv.lock fun _ => locked
  | moved event =>
    simp only [here] at done
    cases done
    have locked := inv.mainLock (by simp [here, MainInside])
    refine main_inv inv inv.front (by simp [next, here]) (by simp [wakes, here]) ?_ (by simp [MainInside])
    intro t inside
    exact absurd (by simp [here, MainInside]) (inv.alone inside).2
  | unlocked event =>
    simp only [here] at done
    cases done
    have moved : Inv { s with main := .waiting } :=
      main_inv inv inv.front (by simp [next, here]) (by simp [wakes, here]) inv.lock (by simp [MainInside])
    exact moved.handled s.events _

/-! ### Runs -/

variable [DecidableEq τ] {a : Act τ V}

theorem step_inv (inv : Inv s) (permitted : Permitted s a) (done : step s a = some s') : Inv s' := by
  cases a with
  | post t request => exact enter_inv inv done
  | poster t => exact poster_inv inv permitted done
  | main => exact mainLoop_inv inv done
  | finish event =>
    simp only [step, finishedWithEvent, Option.bind_eq_bind, Option.bind_eq_some_iff] at done
    obtain ⟨-, -, -, -, ⟨⟩⟩ := done
    exact inv.handled _ _

/-- A poster that moves `backEvent` on to the next cell that is read empties the ring. -/
theorem step_loses (inv : Inv s) (forbidden : ¬ Permitted s a) (done : step s a = some s') : ¬ Keeps s' := by
  cases a with
  | poster t =>
    cases here : s.poster t with
    | stored request event =>
      simp only [Permitted, here, not_not] at forbidden
      simp only [step, emPostEvent, here] at done
      cases done
      intro keeps
      obtain ⟨count, filled⟩ := inv.filled
      have empty : contents (setPoster { s with backEvent := (s.backEvent + 1) % eventMaxEvents, inserted := s.inserted ++ [event] } t
          (.moved request event)) = [] := by
        have same : ((s.backEvent + 1) % eventMaxEvents + eventMaxEvents - next s) % eventMaxEvents = 0 := by
          rw [forbidden, Nat.add_sub_cancel_left, Nat.mod_self]
        exact congrArg (held s.eventQueue eventMaxEvents (next s)) same
      have order := keeps.order
      rw [empty] at order
      have lengths := congrArg List.length order
      simp [setPoster, filled.order] at lengths
    | _ => simp [Permitted, here] at forbidden
  | _ => exact absurd trivial forbidden

/-- In a run of any posters and the main loop that passes all assertions of `em_postEvent`, no
    event is lost just when no poster moves `backEvent` on to the cell that is read next. -/
theorem ring_keeps_iff (eventQueue : Nat → Nat) {labels : List (Act τ V)} {s : System τ V}
    (ran : run step (emStartup eventQueue) labels = some s) :
    Visits step Keeps (emStartup eventQueue) labels ↔ Guarded step Permitted (emStartup eventQueue) labels := by
  have always : Guarded step (fun (_ : System τ V) (_ : Act τ V) => True) (emStartup eventQueue) labels :=
    guarded_forall fun _ _ _ => trivial
  exact visits_iff_guarded (fun s a t _ inv permitted done => step_inv inv permitted done) (fun s inv => inv.keeps)
    (fun s a t _ inv forbidden done => step_loses inv forbidden done) always (startup_inv eventQueue) ran

end

/-- An event that nobody waits for. -/
def plain : Request Unit := ⟨some (), 0, none, none, false⟩

theorem ring_keeps_iff_sample :
    ∃ s : System Unit Unit, run step (emStartup fun _ => 0) (.post () plain :: List.replicate 5 (.poster ()) ++ [.main, .main]) = some s ∧
      s.taken = [0] ∧ Visits step Keeps (emStartup fun _ => 0) (.post () plain :: List.replicate 5 (.poster ()) ++ [.main, .main]) := by
  refine ⟨_, rfl, rfl, (ring_keeps_iff (fun _ => 0) rfl).mpr ?_⟩
  simp [Guarded, Permitted, step, enter, emPostEvent, emMainLoop, setPoster, emStartup, plain, newEvent, eventMaxEvents, next]

/-! ### Two posters and one free cell -/

section
variable {τ : Type} [DecidableEq τ] {s : System τ Unit} {t : τ} {n : Nat}

/-- What a poster behind its check does to the ring, up to its end. -/
private theorem inserts (here : s.poster t = .checked plain) (free : s.eventQueueModificationLock = none) :
    ∃ s', run step s (List.replicate 5 (.poster t)) = some s' ∧ s'.frontEvent = s.frontEvent ∧
      s'.backEvent = (s.backEvent + 1) % eventMaxEvents ∧ s'.eventsInQueue = s.eventsInQueue + 1 ∧
      s'.eventQueueModificationLock = none ∧ s'.poster = Function.update s.poster t .outside ∧ s'.main = s.main ∧
      s'.inserted.length = s.inserted.length + 1 ∧ s'.taken = s.taken := by
  simp [List.replicate, run, step, emPostEvent, setPoster, here, free, plain]

/-- So many events were posted, and nothing else happened. -/
private structure Quiet (s : System τ Unit) (n : Nat) : Prop where
  front : s.frontEvent = 0
  back : s.backEvent = n
  semaphore : s.eventsInQueue = n
  free : s.eventQueueModificationLock = none
  posters : ∀ t, s.poster t = .outside
  main : s.main = .waiting
  inserted : s.inserted.length = n
  taken : s.taken = []

private theorem Quiet.enters (quiet : Quiet s n) (room : n + 1 < eventMaxEvents) :
    enter s t plain = some (setPoster s t (.checked plain)) := by
  have space : (s.backEvent + 1) % eventMaxEvents ≠ s.frontEvent := by
    rw [quiet.back, quiet.front, Nat.mod_eq_of_lt room]
    exact Nat.succ_ne_zero n
  simp [enter, quiet.posters, plain, space]

private theorem Quiet.post (quiet : Quiet s n) (room : n + 1 < eventMaxEvents) (t : τ) :
    ∃ s', run step s (.post t plain :: List.replicate 5 (.poster t)) = some s' ∧ Quiet s' (n + 1) := by
  obtain ⟨s', ran, front, back, semaphore, free, posters, main, inserted, taken⟩ :=
    inserts (s := setPoster s t (.checked plain)) (t := t) (by simp [setPoster]) quiet.free
  refine ⟨s', run_cons.mpr ⟨_, quiet.enters room, ran⟩, front.trans quiet.front, ?_, ?_, free, ?_, main.trans quiet.main, ?_,
    taken.trans quiet.taken⟩
  · simp [back, setPoster, quiet.back, Nat.mod_eq_of_lt room]
  · simp [semaphore, setPoster, quiet.semaphore]
  · intro u
    by_cases same : u = t
    · simp [posters, same]
    · simp [posters, setPoster, same, quiet.posters]
  · simp [inserted, setPoster, quiet.inserted]

private theorem quiet_posts (t : τ) (room : n < eventMaxEvents) :
    ∃ labels s, run step (emStartup fun _ => 0) labels = some s ∧ Quiet (τ := τ) s n := by
  induction n with
  | zero => exact ⟨[], _, rfl, rfl, rfl, rfl, rfl, fun _ => rfl, rfl, rfl, rfl⟩
  | succ n ih =>
    obtain ⟨labels, s, ran, quiet⟩ := ih (by omega)
    obtain ⟨s', further, later⟩ := quiet.post room t
    exact ⟨labels ++ (.post t plain :: List.replicate 5 (.poster t)), s', run_append.mpr ⟨s, ran, further⟩, later⟩

end

/-- With 254 events in the ring two posters pass the check, and both insert: the ring looks empty,
    and the assertion of the main loop fails. -/
theorem ring_loses :
    ∃ (labels : List (Act Bool Unit)) (s : System Bool Unit), run step (emStartup fun _ => 0) labels = some s ∧
      s.main = .woken ∧ s.frontEvent = s.backEvent ∧ s.inserted.length = 256 ∧ s.taken = [] := by
  obtain ⟨labels, s, ran, quiet⟩ := quiet_posts (τ := Bool) (n := 254) true (by decide)
  -- both pass the check before one of them inserts
  have second : enter (setPoster s true (.checked plain)) false plain =
      some (setPoster (setPoster s true (.checked plain)) false (.checked plain)) := by
    simp [enter, setPoster, quiet.posters, quiet.front, quiet.back, plain, eventMaxEvents]
  obtain ⟨s1, ran1, front1, back1, semaphore1, free1, posters1, main1, inserted1, taken1⟩ :=
    inserts (s := setPoster (setPoster s true (.checked plain)) false (.checked plain)) (t := true) (by simp [setPoster]) quiet.free
  obtain ⟨s2, ran2, front2, back2, semaphore2, free2, posters2, main2, inserted2, taken2⟩ :=
    inserts (s := s1) (t := false) (by simp [posters1, setPoster]) free1
  simp only [setPoster] at front1 back1 semaphore1 main1 inserted1 taken1
  have waiting : s2.main = .waiting := by rw [main2, main1, quiet.main]
  have posted : s2.eventsInQueue = 256 := by rw [semaphore2, semaphore1, quiet.semaphore]
  let s3 : System Bool Unit := { s2 with eventsInQueue := 255, main := .woken }
  have woken : emMainLoop s2 = some s3 := by
    simp [emMainLoop, waiting, posted, s3]
  have both := run_append.mpr ⟨s1, ran1, ran2⟩
  have last : run step s2 [.main] = some s3 := run_cons.mpr ⟨_, woken, rfl⟩
  have all : run step s (.post true plain :: .post false plain :: (List.replicate 5 (.poster true) ++
      List.replicate 5 (.poster false) ++ [.main])) = some s3 :=
    run_cons.mpr ⟨_, quiet.enters (by decide), run_cons.mpr ⟨_, second, run_append.mpr ⟨s2, both, last⟩⟩⟩
  refine ⟨_, s3, run_append.mpr ⟨s, ran, all⟩, rfl, ?_, ?_, ?_⟩
  · simp only [s3, front2, front1, quiet.front, back2, back1, quiet.back, eventMaxEvents]
  · simp only [s3, inserted2, inserted1, quiet.inserted]
  · simp only [s3, taken2, taken1, quiet.taken]

end VoxiUtil.EventRing
