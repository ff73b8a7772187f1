import VoxiUtil.TimerEarly

/-!
A whole tick of `timer.c`: `timerCallbackFunction` moves the clock on and calls the handlers
of the events that are due. Each event is put back before the loop looks at the list again,
but behind the clock, so that no handler is called twice.
-/
namespace VoxiUtil.TimerTick
open VoxiUtil.DoublyLinked
open VoxiUtil.Runs
open VoxiUtil.Timer
open VoxiUtil.TimerLists
open VoxiUtil.TimerQueue
open VoxiUtil.TimerEarly (proposed_content)
open VoxiUtil.Limits.Signed (intMax)
variable {V : Type}

/-- What a handler is called with. The client has its `source`, `eventType` and `eventData`. -/
structure Call (V : Type) where
  event : Nat
  client : Client V
  theTime : Int
  nextTime : Int

/-- The calls of handlers, each with what it returned. -/
abbrev Log (V : Type) := List (Call V × Int)

/-- What the handlers return and what `random()` gives, behind the calls that were made before. -/
structure Handlers (V : Type) where
  returns : Log V → Call V → Int
  random : Log V → Nat

/-- The loop of `timerCallbackFunction`, for fewer turns than this. -/
def callbackLoop (handlers : Handlers V) : Nat → Timers V → Log V → Option (Timers V × Log V)
  | 0, _, _ => none
  | turns + 1, s, log =>
    match dueEvent s with
    | none => some (s, log)
    | some (currEvent, e) =>
      let s := removeFirst s e
      if e.client.newThread = true then callbackLoop handlers turns (spawned s currEvent) log
      else do
        assert (e.client.timerHandler.isSome = true)
        let nextTime ← proposed e (handlers.random log)
        let timerHandler := fun theTime nextTime => handlers.returns log ⟨currEvent, e.client, theTime, nextTime⟩
        let (_, s) ← doOneEvent s currEvent timerHandler (handlers.random log)
        let call : Call V := ⟨currEvent, e.client, e.atTimeMillis, nextTime⟩
        callbackLoop handlers turns s (log ++ [(call, handlers.returns log call)])

def timerCallbackFunction (handlers : Handlers V) (turns : Nat) (s : Timers V) : Option (Timers V × Log V) := do
  assert (s.locked = false)
  let (s, log) ← callbackLoop handlers turns (ticked s) []
  some (unlocked s, log)

/-- The handler runs in the calling thread and can be called. -/
structure Ready (e : TimerEvent V) : Prop where
  sameThread : e.client.newThread = false
  handler : e.client.timerHandler.isSome = true
  divisible : e.timerType = .random → toLong (e.randomMaxInterval - e.randomMinInterval) ≠ 0

/-- A list that nobody has locked, in the order of the times, of events that can be handled. -/
structure WellFormed (s : Timers V) (nodes : List Nat) : Prop where
  listing : Listing s nodes
  unlocked : s.locked = false
  ready : ∀ a ∈ nodes, ∀ e, s.events a = some e → Ready e

/-- The event is put back: its handler returned a later time than the clock, and not `TIMER_STOP`. -/
def Again (clock result : Int) : Prop := result ≠ timerStop ∧ clock < result

def FitsInt (value : Int) : Prop := -2147483648 ≤ value ∧ value ≤ intMax

instance (value : Int) : Decidable (FitsInt value) := inferInstanceAs (Decidable (_ ∧ _))

/-- What was called when the events `dues` were due, in this order, and what became of the events;
    `laters` was the list behind them. -/
structure Turned (handlers : Handlers V) (s : Timers V) (log : Log V) (dues laters : List Nat) (s' : Timers V) (more : Log V)
    (laters' : List Nat) : Prop where
  called : more.map (·.1.event) = dues
  own : ∀ entry ∈ more, ∃ e random, s.events entry.1.event = some e ∧ entry.1.client = e.client ∧
    entry.1.theTime = e.atTimeMillis ∧ proposed e random = some entry.1.nextTime
  answered : ∀ before entry after, more = before ++ entry :: after → entry.2 = handlers.returns (log ++ before) entry.1
  kept : laters.Sublist laters'
  members : ∀ a, a ∈ laters' ↔ a ∈ laters ∨ ∃ entry ∈ more, entry.1.event = a ∧ Again s.timerTimeMillis entry.2
  again : ∀ entry ∈ more, Again s.timerTimeMillis entry.2 → ∃ e e', s.events entry.1.event = some e ∧
    s'.events entry.1.event = some e' ∧ content e' = content { e with atTimeMillis := entry.2 }
  freed : ∀ entry ∈ more, ¬ Again s.timerTimeMillis entry.2 → s'.events entry.1.event = none
  untouched : ∀ a, a ∉ dues → (s'.events a).map content = (s.events a).map content
  timerTimeMillis : s'.timerTimeMillis = s.timerTimeMillis
  callbackInterval : s'.callbackInterval = s.callbackInterval
  locked : s'.locked = s.locked
  threads : s'.threads = s.threads

section
variable {handlers : Handlers V} {s s' t : Timers V} {log more rest' : Log V} {dues laters laters' laters'' nodes : List Nat} {a : Nat}
  {e : TimerEvent V}

theorem toInt_fits {value : Int} (fits : FitsInt value) : toInt value = value := by
  obtain ⟨low, high⟩ := fits
  rw [intMax] at high
  exact Int.bmod_eq_of_le (by omega) (by omega)

theorem ready_content {e e' : TimerEvent V} (same : content e' = content e) (ready : Ready e) : Ready e' := by
  have client := congrArg TimerEvent.client same
  have kind := congrArg TimerEvent.timerType same
  have low := congrArg TimerEvent.randomMinInterval same
  have high := congrArg TimerEvent.randomMaxInterval same
  simp only [content] at client kind low high
  refine ⟨client ▸ ready.sameThread, client ▸ ready.handler, fun random => ?_⟩
  rw [low, high]
  exact ready.divisible (kind.symm.trans random)

theorem turned_nil (handlers : Handlers V) (s : Timers V) (log : Log V) (laters : List Nat) :
    Turned handlers s log [] laters s [] laters where
  called := rfl
  own := by simp
  answered := by simp
  kept := List.Sublist.refl laters
  members := by simp
  again := by simp
  freed := by simp
  untouched _ _ := rfl
  timerTimeMillis := rfl
  callbackInterval := rfl
  locked := rfl
  threads := rfl

/-- The first event, and then the others. -/
theorem turned_cons {entry : Call V × Int} (first : Turned handlers s log [a] laters t [entry] laters')
    (later : Turned handlers t (log ++ [entry]) dues laters' s' more laters'') (apart : a ∉ dues) :
    Turned handlers s log (a :: dues) laters s' (entry :: more) laters'' := by
  have event : entry.1.event = a := by simpa using first.called
  have inside : ∀ other ∈ more, other.1.event ∈ dues := by
    intro other member
    rw [← later.called]
    exact List.mem_map_of_mem member
  have before : ∀ other ∈ more, (t.events other.1.event).map content = (s.events other.1.event).map content := by
    intro other member
    refine first.untouched _ fun same => apart ?_
    rw [← List.mem_singleton.mp same]
    exact inside other member
  have after : (s'.events entry.1.event).map content = (t.events entry.1.event).map content :=
    later.untouched _ (event.symm ▸ apart)
  constructor
  case called => rw [List.map_cons, event, later.called]
  case own =>
    intro other member
    rcases List.mem_cons.mp member with rfl | further
    · exact first.own _ List.mem_cons_self
    · obtain ⟨e, random, here, client, time, next⟩ := later.own other further
      obtain ⟨e', there, same⟩ := present_content (before other further) here
      refine ⟨e', random, there, client.trans (congrArg TimerEvent.client same).symm,
        time.trans (congrArg TimerEvent.atTimeMillis same).symm, ?_⟩
      rw [proposed_content same]
      exact next
  case answered =>
    intro pre other post split
    cases pre with
    | nil =>
      obtain ⟨rfl, -⟩ := List.cons_eq_cons.mp split
      exact first.answered [] _ [] rfl
    | cons head pre =>
      obtain ⟨rfl, tail⟩ := List.cons_eq_cons.mp split
      rw [List.append_cons]
      exact later.answered pre other post tail
  case kept => exact first.kept.trans later.kept
  case members =>
    intro b
    rw [later.members, first.members, first.timerTimeMillis]
    simp only [List.mem_cons, List.not_mem_nil, or_false, exists_eq_left, exists_eq_or_imp, or_assoc]
  case again =>
    intro other member goes
    rcases List.mem_cons.mp member with rfl | further
    · obtain ⟨e, e', here, there, same⟩ := first.again _ List.mem_cons_self goes
      rw [there, Option.map_some, Option.map_eq_some_iff] at after
      obtain ⟨e'', last, equal⟩ := after
      exact ⟨e, e'', here, last, equal.trans same⟩
    · rw [← first.timerTimeMillis] at goes
      obtain ⟨e, e', here, there, same⟩ := later.again other further goes
      obtain ⟨old, was, equal⟩ := present_content (before other further) here
      refine ⟨old, e', was, there, same.trans ?_⟩
      exact congrArg (fun e : TimerEvent V => { e with atTimeMillis := other.2 }) equal.symm
  case freed =>
    intro other member stops
    rcases List.mem_cons.mp member with rfl | further
    · rw [first.freed _ List.mem_cons_self stops, Option.map_none, Option.map_eq_none_iff] at after
      exact after
    · rw [← first.timerTimeMillis] at stops
      exact later.freed other further stops
  case untouched =>
    intro b outside
    rw [List.mem_cons, not_or] at outside
    exact (later.untouched b outside.2).trans (first.untouched b (by simpa using outside.1))
  case timerTimeMillis => exact later.timerTimeMillis.trans first.timerTimeMillis
  case callbackInterval => exact later.callbackInterval.trans first.callbackInterval
  case locked => exact later.locked.trans first.locked
  case threads => exact later.threads.trans first.threads

/-- A later event that is put back stands behind all that are due. -/
theorem put_behind {pre post : List Nat} {clock : Int} (split : dues ++ laters = pre ++ post)
    (sorted : (pre ++ a :: post).Pairwise fun a b => timeOf s.events a ≤ timeOf s.events b)
    (due : ∀ b ∈ dues, timeOf s.events b ≤ clock) (late : clock < timeOf s.events a) :
    ∃ front, pre = dues ++ front ∧ laters = front ++ post := by
  rcases List.append_eq_append_iff.mp split with ⟨front, pre_eq, laters_eq⟩ | ⟨back, dues_eq, post_eq⟩
  · exact ⟨front, pre_eq, laters_eq⟩
  · have none_behind : back = [] := by
      refine List.eq_nil_iff_forall_not_mem.mpr fun b member => ?_
      have early := due b (dues_eq ▸ List.mem_append_right pre member)
      have behind := (List.pairwise_cons.mp (List.pairwise_append.mp sorted).2.1).1 b (post_eq ▸ List.mem_append_left laters member)
      omega
    subst none_behind
    exact ⟨[], by rw [dues_eq, List.append_nil, List.append_nil], by rw [post_eq, List.nil_append, List.nil_append]⟩

/-- One call, by what it does to its event and to the others. -/
theorem turned_called {nextTime : Int} {random : Nat} (here : s.events a = some e) (next : proposed e random = some nextTime)
    (kept : laters.Sublist laters')
    (members : ∀ b, b ∈ laters' ↔ b ∈ laters ∨
      a = b ∧ Again s.timerTimeMillis (handlers.returns log ⟨a, e.client, e.atTimeMillis, nextTime⟩))
    (again : Again s.timerTimeMillis (handlers.returns log ⟨a, e.client, e.atTimeMillis, nextTime⟩) → ∃ e', t.events a = some e' ∧
      content e' = content { e with atTimeMillis := handlers.returns log ⟨a, e.client, e.atTimeMillis, nextTime⟩ })
    (freed : ¬ Again s.timerTimeMillis (handlers.returns log ⟨a, e.client, e.atTimeMillis, nextTime⟩) → t.events a = none)
    (untouched : ∀ b, b ≠ a → (t.events b).map content = (s.events b).map content)
    (timerTimeMillis : t.timerTimeMillis = s.timerTimeMillis) (callbackInterval : t.callbackInterval = s.callbackInterval)
    (locked : t.locked = s.locked) (threads : t.threads = s.threads) :
    Turned handlers s log [a] laters t [(⟨a, e.client, e.atTimeMillis, nextTime⟩,
      handlers.returns log ⟨a, e.client, e.atTimeMillis, nextTime⟩)] laters' where
  called := rfl
  own entry member := by
    obtain rfl := List.mem_singleton.mp member
    exact ⟨e, random, here, rfl, rfl, next⟩
  answered before entry after split := by
    cases before with
    | nil =>
      obtain ⟨rfl, -⟩ := List.cons_eq_cons.mp split
      rw [List.append_nil]
    | cons head before => simp at split
  kept := kept
  members b := by
    rw [members]
    simp only [List.mem_singleton, exists_eq_left]
  again entry member goes := by
    obtain rfl := List.mem_singleton.mp member
    obtain ⟨e', put, same⟩ := again goes
    exact ⟨e, e', here, put, same⟩
  freed entry member stops := by
    obtain rfl := List.mem_singleton.mp member
    exact freed stops
  untouched b apart := untouched b (by simpa using apart)
  timerTimeMillis := timerTimeMillis
  callbackInterval := callbackInterval
  locked := locked
  threads := threads

/-- A turn calls the handler of the first event when that is due. -/
theorem loop_turn {nextTime : Int} {again : Option Int} (first : dueEvent s = some (a, e)) (ready : Ready e)
    (next : proposed e (handlers.random log) = some nextTime)
    (done : doOneEvent (removeFirst s e) a (fun theTime nextTime => handlers.returns log ⟨a, e.client, theTime, nextTime⟩)
      (handlers.random log) = some (again, t)) (turns : Nat) :
    callbackLoop handlers (turns + 1) s log = callbackLoop handlers turns t (log ++
      [(⟨a, e.client, e.atTimeMillis, nextTime⟩, handlers.returns log ⟨a, e.client, e.atTimeMillis, nextTime⟩)]) := by
  have newThread : ¬ e.client.newThread = true := by simp [ready.sameThread]
  simp only [callbackLoop, first, newThread, ready.handler, assert_true, next, Option.bind_eq_bind, Option.bind_some]
  rw [done]
  rfl

/-- One turn of the loop. The event that is put back goes behind the others that are due. -/
theorem turn_spec (listing : Listing s (a :: (dues ++ laters))) (due : ∀ b ∈ a :: dues, timeOf s.events b ≤ s.timerTimeMillis)
    (here : s.events a = some e) (ready : Ready e) (fits : ∀ log (call : Call V), FitsInt (handlers.returns log call)) :
    ∃ t entry laters', Turned handlers s log [a] laters t [entry] laters' ∧ Listing t (dues ++ laters') ∧
      ∀ turns, callbackLoop handlers (turns + 1) s log = callbackLoop handlers turns t (log ++ [entry]) := by
  have first : dueEvent s = some (a, e) := by
    have start : s.firstTE = some a := listing.linked.1
    have early := due a List.mem_cons_self
    rw [timeOf_some here] at early
    simp [dueEvent, start, here, early]
  obtain ⟨removed, relinked⟩ := removeFirst_listing listing here
  obtain ⟨e', there, same⟩ := relinked.present here
  have outside : a ∉ dues ++ laters := (List.nodup_cons.mp (linked_nodup listing.linked)).1
  have divisible : Divisible fun _ : Nat => some e := by
    rintro _ _ ⟨⟩
    exact ready.divisible
  obtain ⟨nextTime, next⟩ := @proposed_some V a e (fun _ => some e) divisible rfl (handlers.random log)
  have next' : proposed e' (handlers.random log) = some nextTime := by rw [proposed_content same, next]
  have time : e'.atTimeMillis = e.atTimeMillis := (content_same same).2.1
  let call : Call V := ⟨a, e.client, e.atTimeMillis, nextTime⟩
  let timerHandler := fun theTime nextTime => handlers.returns log ⟨a, e.client, theTime, nextTime⟩
  have answer : timerHandler e'.atTimeMillis nextTime = handlers.returns log call := by rw [time]
  rcases doOneEvent_placed removed there outside next' timerHandler with
    ⟨t, pre, post, done, goes, later, split, listed, changed⟩ | ⟨done, stops, listed⟩
  · rw [answer] at goes later changed
    rw [toInt_fits (fits log call)] at changed
    have clock : (removeFirst s e).timerTimeMillis = s.timerTimeMillis := rfl
    rw [clock] at later
    have others : ∀ b, b ≠ a → (t.events b).map content = (s.events b).map content := by
      intro b apart
      rw [changed.contents b, withTime]
      dsimp only
      rw [Function.update_of_ne apart, relinked.contents b]
    obtain ⟨put, putIs, putSame⟩ := changed.present (Function.update_self _ _ _)
    have putTime : timeOf t.events a = handlers.returns log call := by
      rw [timeOf_some putIs]
      exact congrArg TimerEvent.atTimeMillis putSame
    have early : ∀ b ∈ dues, timeOf t.events b ≤ s.timerTimeMillis := by
      intro b member
      have apart : b ≠ a := by
        rintro rfl
        exact outside (List.mem_append_left _ member)
      rw [timeOf_content (others b apart)]
      exact due b (List.mem_cons_of_mem a member)
    obtain ⟨front, rfl, rfl⟩ := put_behind split listed.sorted early (putTime ▸ later)
    rw [List.append_assoc] at listed
    refine ⟨t, (call, handlers.returns log call), front ++ a :: post, turned_called here next
      (List.Sublist.append_left (List.sublist_cons_self a post) front) ?_ ?_ (fun stops => absurd ⟨goes, later⟩ stops) others
      changed.timerTimeMillis changed.callbackInterval changed.locked changed.threads, listed, loop_turn first ready next done⟩
    · intro b
      simp only [List.mem_append, List.mem_cons]
      constructor
      · rintro (inFront | rfl | inPost)
        · exact .inl (.inl inFront)
        · exact .inr ⟨rfl, goes, later⟩
        · exact .inl (.inr inPost)
      · rintro ((inFront | inPost) | ⟨rfl, -⟩)
        · exact .inl inFront
        · exact .inr (.inr inPost)
        · exact .inr (.inl rfl)
    · refine fun _ => ⟨put, putIs, putSame.trans ?_⟩
      exact congrArg (fun e : TimerEvent V => { e with atTimeMillis := handlers.returns log call }) same
  · rw [answer] at stops
    have ended : ¬ Again s.timerTimeMillis (handlers.returns log call) := by
      rintro ⟨goes, later⟩
      rcases stops with stop | early
      · exact goes stop
      · exact absurd later (Int.not_lt.mpr early)
    refine ⟨forget (removeFirst s e) a, (call, handlers.returns log call), laters, turned_called here next
      (List.Sublist.refl _) ?_ (fun goes => absurd goes ended) (fun _ => Function.update_self _ _ _) ?_ rfl rfl rfl rfl,
      listed, loop_turn first ready next done⟩
    · exact fun b => ⟨.inl, fun either => either.resolve_right fun both => ended both.2⟩
    · intro b apart
      rw [forget]
      dsimp only
      rw [Function.update_of_ne apart, relinked.contents b]

/-- The loop comes to its end when all that were due have been called. -/
theorem loop_spec (listing : Listing s (dues ++ laters)) (due : ∀ b ∈ dues, timeOf s.events b ≤ s.timerTimeMillis)
    (late : ∀ b ∈ laters, s.timerTimeMillis < timeOf s.events b) (ready : ∀ b ∈ dues, ∀ e, s.events b = some e → Ready e)
    (fits : ∀ log (call : Call V), FitsInt (handlers.returns log call)) :
    ∃ s' more laters', (∀ turns, dues.length < turns → callbackLoop handlers turns s log = some (s', log ++ more)) ∧
      Turned handlers s log dues laters s' more laters' ∧ Listing s' laters' := by
  induction dues generalizing s log laters with
  | nil =>
    have ended : dueEvent s = none := by
      cases found : dueEvent s with
      | none => rfl
      | some event =>
        obtain ⟨rest, rfl, here, early⟩ := due_some listing found
        have behind := late event.1 List.mem_cons_self
        rw [timeOf_some here] at behind
        omega
    refine ⟨s, [], laters, fun turns enough => ?_, turned_nil handlers s log laters, listing⟩
    obtain ⟨turns, rfl⟩ := Nat.exists_eq_succ_of_ne_zero (Nat.ne_of_gt enough)
    rw [callbackLoop, ended, List.append_nil]
  | cons a dues ih =>
    obtain ⟨e, here⟩ := listing.present a List.mem_cons_self
    obtain ⟨t, entry, laters₁, turned, listed, turn⟩ :=
      @turn_spec V handlers s log dues laters a e listing due here (ready a List.mem_cons_self e here) fits
    have distinct := linked_nodup listing.linked
    rw [List.cons_append, List.nodup_cons] at distinct
    have apart : ∀ b ∈ dues ++ laters, b ≠ a := fun b member same => distinct.1 (same ▸ member)
    have same : ∀ b ∈ dues ++ laters, (t.events b).map content = (s.events b).map content := fun b member =>
      turned.untouched b (by simpa using apart b member)
    have clock := turned.timerTimeMillis
    obtain ⟨s', more, laters', ends, others, final⟩ := ih listed
      (fun b member => by
        rw [timeOf_content (same b (List.mem_append_left _ member)), clock]
        exact due b (List.mem_cons_of_mem a member))
      (fun b member => by
        rw [clock]
        rcases (turned.members b).mp member with old | ⟨put, inside, rfl, again⟩
        · rw [timeOf_content (same b (List.mem_append_right _ old))]
          exact late b old
        · obtain ⟨e, e', -, there, put⟩ := turned.again _ inside again
          rw [timeOf_some there, (content_same put).2.1]
          exact again.2)
      (fun b member e there => by
        obtain ⟨e', was, equal⟩ := present_content (same b (List.mem_append_left _ member)) there
        exact ready_content equal.symm (ready b (List.mem_cons_of_mem a member) e' was))
    refine ⟨s', entry :: more, laters', fun turns enough => ?_,
      turned_cons turned others fun member => apart a (List.mem_append_left _ member) rfl, final⟩
    obtain ⟨turns, rfl⟩ := Nat.exists_eq_succ_of_ne_zero (Nat.ne_of_gt (Nat.lt_of_le_of_lt (Nat.zero_le _) enough))
    rw [turn, ends turns (Nat.lt_of_succ_lt_succ enough), List.append_assoc]
    rfl

end

/-! ### The lists of the timer manager -/

/-- All events have a handler. -/
def Callable (events : Nat → Option (TimerEvent V)) : Prop := ∀ a e, events a = some e → e.client.timerHandler.isSome = true

section
variable {s t : Timers V} {r u : System V} {act : Act V} {a : Nat} {e : TimerEvent V}

theorem callable_content (callable : Callable s.events)
    (same : ∀ a, (t.events a).map content = (s.events a).map content) : Callable t.events := by
  intro a e here
  obtain ⟨e', there, equal⟩ := present_content (same a) here
  have client := congrArg TimerEvent.client equal
  simp only [content] at client
  rw [← client]
  exact callable a e' there

theorem callable_update (callable : Callable s.events) (new : e.client.timerHandler.isSome = true) :
    Callable (Function.update s.events a (some e)) := by
  intro b e' here
  by_cases same : b = a
  · subst same
    rw [Function.update_self] at here
    cases here
    exact new
  · rw [Function.update_of_ne same] at here
    exact callable b e' here

theorem callable_forget (callable : Callable s.events) (a : Nat) : Callable (forget s a).events := by
  intro b e here
  by_cases same : b = a
  · rw [forget, same] at here
    dsimp only at here
    rw [Function.update_self] at here
    cases here
  · rw [forget] at here
    dsimp only at here
    rw [Function.update_of_ne same] at here
    exact callable b e here

theorem handled_callable {timerHandler : Int → Int → Int} {random : Nat} (callable : Callable r.timers.events)
    (handled : Handled r a timerHandler random u) : Callable u.timers.events := by
  cases handled with
  | @again e nextTime timers here next goes later relinked =>
    have put : Callable (withTime r.timers a e (toInt (timerHandler e.atTimeMillis nextTime))).events :=
      callable_update (e := { e with atTimeMillis := toInt (timerHandler e.atTimeMillis nextTime) }) callable (callable a e here)
    exact callable_content put relinked.contents
  | ended here next stops => exact callable_forget callable a

/-- Only what can be called is added. -/
theorem step_callable (inv : Inv r) (enabled : Enabled r act) (done : step r act = some u) (callable : Callable r.timers.events) :
    Callable u.timers.events := by
  have relinked_callable : ∀ {s t : Timers V}, Callable s.events → Relinked s t → Callable t.events := fun old relinked =>
    callable_content old relinked.contents
  obtain ⟨-, effect⟩ := enabled_preserved r act u inv enabled done
  cases effect with
  | ignored => exact callable
  | added unlocked adds relinked =>
    cases adds with
    | oneShotAbsolute absTimeMillis client =>
      exact relinked_callable (s := withEvent r.timers _) (callable_update callable enabled.2) relinked
    | oneShotRelative relTimeMillis client =>
      exact relinked_callable (s := withEvent r.timers _) (callable_update callable enabled.2) relinked
    | random minIntervalMillis maxIntervalMillis interval client random =>
      by_cases null : client.timerHandler = none
      · simp only [step, temAddRandom, null, unlocked, assert_true, if_true, Option.bind_eq_bind, Option.bind_some,
          Option.some.injEq] at done
        rw [← done]
        exact callable
      · refine relinked_callable (s := withEvent r.timers _) (callable_update callable ?_) relinked
        exact Option.isSome_iff_ne_none.mpr null
  | @repetitive intervalMillis client timers unlocked relinked =>
    by_cases null : client.timerHandler = none
    · simp only [step, temAddRepetitive, null, unlocked, assert_true, if_true, Option.bind_eq_bind, Option.bind_some,
        Option.some.injEq] at done
      rw [← done]
      exact callable
    · refine relinked_callable (s := withEvent r.timers _) (callable_update callable ?_) relinked
      exact Option.isSome_iff_ne_none.mpr null
  | cancelled unlocked member relinked => exact relinked_callable (callable_forget callable _) relinked
  | ticked unlocked => exact callable
  | spawned locked first member here early newThread =>
    exact callable_content (s := r.timers) callable fun d => setPrev_content d
  | fired locked first member here early newThread handled =>
    exact handled_callable (r := taken r _ _) (callable_content (s := r.timers) callable fun d => setPrev_content d) handled
  | unlocked locked late => exact callable
  | thread member outside handled => exact handled_callable (r := { r with timers := started r.timers _ }) callable handled

/-- The list that the calls and the ticks of a run have made is well-formed when no tick is under
    way, where no event runs in a thread of its own. -/
theorem reached_formed (callbackInterval : Int) {labels : List (Act V)}
    (enabled : Guarded step Enabled (start V callbackInterval) labels) (ran : run step (start V callbackInterval) labels = some r)
    (unlocked : r.timers.locked = false)
    (sameThread : ∀ a e, r.timers.events a = some e → e.client.newThread = false) :
    ∃ nodes, WellFormed r.timers nodes ∧ nodes.Perm r.queued := by
  have kept : Inv r ∧ Callable r.timers.events := by
    refine guarded_run (fun r => Inv r ∧ Callable r.timers.events) ?_ ⟨start_inv callbackInterval, ?_⟩ enabled ran
    · intro s act t inv permitted done
      exact ⟨(enabled_preserved s act t inv.1 permitted done).1, step_callable inv.1 permitted done inv.2⟩
    · simp [Callable, start, temStartup]
  obtain ⟨nodes, listing, perm⟩ := kept.1.list
  exact ⟨nodes, ⟨listing, unlocked, fun a _ e here =>
    ⟨sameThread a e here, kept.2 a e here, kept.1.divisible a e here⟩⟩, perm⟩

end

/-! ### A tick -/

/-- The event is due when the clock has moved on. -/
def Due (s : Timers V) (a : Nat) : Prop := timeOf s.events a ≤ (ticked s).timerTimeMillis

instance (s : Timers V) (a : Nat) : Decidable (Due s a) := inferInstanceAs (Decidable (_ ≤ _))

/-- A tick calls the handler of each event that is due, once and in the order of the times, puts
    back those whose handler asks for a time behind the clock, at that time, frees the others,
    and leaves the later events as they are. The list is `nodes` before and `nodes'` afterwards. -/
structure Serves (handlers : Handlers V) (s : Timers V) (nodes : List Nat) (s' : Timers V) (log : Log V) (nodes' : List Nat) :
    Prop where
  called : ∀ a, a ∈ log.map (·.1.event) ↔ a ∈ nodes ∧ Due s a
  once : (log.map (·.1.event)).Nodup
  ordered : log.Pairwise fun first second => first.1.theTime ≤ second.1.theTime
  own : ∀ entry ∈ log, ∃ e random, s.events entry.1.event = some e ∧ entry.1.client = e.client ∧
    entry.1.theTime = e.atTimeMillis ∧ proposed e random = some entry.1.nextTime
  answered : ∀ before entry after, log = before ++ entry :: after → entry.2 = handlers.returns before entry.1
  formed : WellFormed s' nodes'
  members : ∀ a, a ∈ nodes' ↔ a ∈ nodes ∧ ¬ Due s a ∨
    ∃ entry ∈ log, entry.1.event = a ∧ Again (ticked s).timerTimeMillis entry.2
  again : ∀ entry ∈ log, Again (ticked s).timerTimeMillis entry.2 → ∃ e e', s.events entry.1.event = some e ∧
    s'.events entry.1.event = some e' ∧ content e' = content { e with atTimeMillis := entry.2 }
  freed : ∀ entry ∈ log, ¬ Again (ticked s).timerTimeMillis entry.2 → s'.events entry.1.event = none
  untouched : ∀ a, ¬ (a ∈ nodes ∧ Due s a) → (s'.events a).map content = (s.events a).map content
  inOrder : (nodes.filter fun a => ¬ Due s a).Sublist nodes'
  clock : s'.timerTimeMillis = (ticked s).timerTimeMillis

section
variable {handlers : Handlers V} {s : Timers V} {nodes : List Nat}

/-- The events that are due are the first ones. -/
theorem due_first (sorted : nodes.Pairwise fun a b => timeOf s.events a ≤ timeOf s.events b) :
    nodes = nodes.filter (fun a => Due s a) ++ nodes.filter fun a => ¬ Due s a := by
  induction nodes with
  | nil => rfl
  | cons a rest ih =>
    obtain ⟨first, others⟩ := List.pairwise_cons.mp sorted
    by_cases due : Due s a
    · rw [List.filter_cons_of_pos (by simpa using due), List.filter_cons_of_neg (by simpa using due), List.cons_append, ← ih others]
    · have late : ∀ b ∈ rest, ¬ Due s b := fun b member early => due (Int.le_trans (first b member) early)
      rw [List.filter_cons_of_neg (by simpa using due), List.filter_cons_of_pos (by simpa using due),
        List.filter_eq_nil_iff.mpr fun b member => by simpa using late b member,
        List.filter_eq_self.mpr fun b member => by simpa using late b member]
      rfl

/-- For every well-formed queue, whatever the handlers return within an `int`, the tick comes to
    its end and serves what is due. -/
theorem tick_serves (formed : WellFormed s nodes) (fits : ∀ log (call : Call V), FitsInt (handlers.returns log call)) :
    ∃ s' log nodes', (∀ turns, nodes.length < turns → timerCallbackFunction handlers turns s = some (s', log)) ∧
      Serves handlers s nodes s' log nodes' := by
  have split := due_first formed.listing.sorted
  have listing : Listing (ticked s) (nodes.filter (fun a => Due s a) ++ nodes.filter fun a => ¬ Due s a) := by
    rw [← split]
    exact listing_frame formed.listing (fun _ _ => rfl) rfl formed.listing.bounded
  have early : ∀ b ∈ nodes.filter (fun a => Due s a), timeOf (ticked s).events b ≤ (ticked s).timerTimeMillis := by
    intro b member
    have due : Due s b := by simpa using (List.mem_filter.mp member).2
    exact due
  have late : ∀ b ∈ nodes.filter (fun a => ¬ Due s a), (ticked s).timerTimeMillis < timeOf (ticked s).events b := by
    intro b member
    have behind : ¬ Due s b := by simpa using (List.mem_filter.mp member).2
    exact Int.not_le.mp behind
  obtain ⟨t, log, nodes', ends, turned, listed⟩ := @loop_spec V handlers _ [] _ _ listing early late
    (fun b member e here => formed.ready b (List.mem_filter.mp member).1 e here) fits
  have whole : ∀ a, a ∈ log.map (·.1.event) ↔ a ∈ nodes ∧ Due s a := by
    intro a
    rw [turned.called]
    simp
  have untouched : ∀ a, ¬ (a ∈ nodes ∧ Due s a) → ((unlocked t).events a).map content = (s.events a).map content := by
    intro a outside
    refine turned.untouched a fun member => outside ?_
    simpa using member
  have members : ∀ a, a ∈ nodes' ↔ a ∈ nodes ∧ ¬ Due s a ∨
      ∃ entry ∈ log, entry.1.event = a ∧ Again (ticked s).timerTimeMillis entry.2 := by
    intro a
    rw [turned.members]
    simp
  refine ⟨unlocked t, log, nodes', fun turns enough => ?_, whole, ?_, ?_, turned.own, ?_, ⟨?_, rfl, ?_⟩, members, turned.again,
    turned.freed, untouched, turned.kept, turned.timerTimeMillis⟩
  · have shorter := Nat.lt_of_le_of_lt (List.length_filter_le (fun a => Due s a) nodes) enough
    simp only [timerCallbackFunction, formed.unlocked, assert_true, ends turns shorter, Option.bind_eq_bind, Option.bind_some,
      List.nil_append]
  · rw [turned.called]
    exact (linked_nodup formed.listing.linked).filter _
  · have times : ∀ entry ∈ log, entry.1.theTime = timeOf s.events entry.1.event := by
      intro entry member
      obtain ⟨e, -, here, -, time, -⟩ := turned.own entry member
      exact time.trans (timeOf_some here).symm
    have sorted : (log.map (·.1.event)).Pairwise fun a b => timeOf s.events a ≤ timeOf s.events b := by
      rw [turned.called]
      exact formed.listing.sorted.filter _
    refine (List.pairwise_map.mp sorted).imp_of_mem ?_
    intro first second inside alsoInside less
    rw [times first inside, times second alsoInside]
    exact less
  · intro before entry after shape
    have answer := turned.answered before entry after shape
    rwa [List.nil_append] at answer
  · exact listing_frame listed (fun _ _ => rfl) rfl listed.bounded
  · intro a member e' there
    rcases (members a).mp member with ⟨inside, behind⟩ | ⟨entry, inside, rfl, goes⟩
    · obtain ⟨e, was, same⟩ := present_content (untouched a fun both => behind both.2) there
      exact ready_content same.symm (formed.ready a inside e was)
    · obtain ⟨e, put, was, here, same⟩ := turned.again entry inside goes
      cases there.symm.trans here
      have old := formed.ready _ ((whole _).mp (List.mem_map_of_mem inside)).1 e was
      exact ready_content same ⟨old.sameThread, old.handler, old.divisible⟩

end

/-- A queue with a repetitive timer and a later one-shot timer. -/
private def twoTimers : Timers Unit where
  firstTE := some 0
  callbackInterval := 10
  timerTimeMillis := 0
  events := fun a =>
    if a = 0 then some ⟨10, ⟨some (), none, 0, none, false⟩, .repetitive, 10, 0, 0, none, some 1⟩
    else if a = 1 then some ⟨25, ⟨some (), none, 0, none, false⟩, .oneShot, 0, 0, 0, some 0, none⟩ else none
  allocated := 2
  locked := false
  threads := []

private theorem twoTimers_formed : WellFormed twoTimers [0, 1] where
  listing := by
    refine ⟨?_, ?_, ?_, ?_⟩
    · exact ⟨rfl, rfl, rfl, rfl, rfl⟩
    · simp [twoTimers, timeOf]
    · intro a member
      rcases List.mem_cons.mp member with rfl | last
      · exact ⟨_, rfl⟩
      · rw [List.mem_singleton.mp last]
        exact ⟨_, rfl⟩
    · intro a e here
      simp only [twoTimers] at here ⊢
      split at here
      · omega
      · split at here
        · omega
        · cases here
  unlocked := rfl
  ready a member e here := by
    rcases List.mem_cons.mp member with rfl | last
    · cases here
      exact ⟨rfl, rfl, by decide⟩
    · rw [List.mem_singleton.mp last] at here
      cases here
      exact ⟨rfl, rfl, by decide⟩

theorem tick_serves_two : ∃ s' log nodes',
    (∀ turns, [0, 1].length < turns → timerCallbackFunction ⟨fun _ _ => 20, fun _ => 0⟩ turns twoTimers = some (s', log)) ∧
      Serves ⟨fun _ _ => 20, fun _ => 0⟩ twoTimers [0, 1] s' log nodes' :=
  tick_serves twoTimers_formed fun _ _ => (by decide : FitsInt 20)

end VoxiUtil.TimerTick
