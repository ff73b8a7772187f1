import Mathlib.Data.List.Nodup
import Mathlib.Data.List.Perm.Subperm
import VoxiUtil.DoublyLinked
import VoxiUtil.Timer

/-!
The list of events of `timer.c` as a doubly linked list in the order of the times: what
inserting, cancelling and taking out the first event do to it.
-/
namespace VoxiUtil.TimerLists
open VoxiUtil.DoublyLinked
open VoxiUtil.Timer
variable {V : Type}

def nextOf (events : Nat → Option (TimerEvent V)) (event : Nat) : Option Nat := (events event).bind fun e => e.nextTE

def prevOf (events : Nat → Option (TimerEvent V)) (event : Nat) : Option Nat := (events event).bind fun e => e.prevTE

/-- An event without its links. -/
def content (e : TimerEvent V) : TimerEvent V := { e with prevTE := none, nextTE := none }

def timeOf (events : Nat → Option (TimerEvent V)) (event : Nat) : Int :=
  match events event with
  | none => 0
  | some e => e.atTimeMillis

/-- The list from `firstTE`, linked both ways, in the order of the times. -/
structure Listing (s : Timers V) (nodes : List Nat) : Prop where
  linked : Linked (nextOf s.events) (prevOf s.events) s.firstTE nodes
  sorted : nodes.Pairwise fun a b => timeOf s.events a ≤ timeOf s.events b
  present : ∀ a ∈ nodes, ∃ e, s.events a = some e
  bounded : ∀ a e, s.events a = some e → a < s.allocated

/-- Only links differ. -/
structure Relinked (s s' : Timers V) : Prop where
  contents : ∀ a, (s'.events a).map content = (s.events a).map content
  callbackInterval : s'.callbackInterval = s.callbackInterval
  timerTimeMillis : s'.timerTimeMillis = s.timerTimeMillis
  allocated : s'.allocated = s.allocated
  locked : s'.locked = s.locked
  threads : s'.threads = s.threads

section
variable {s s' : Timers V} {events events' : Nat → Option (TimerEvent V)} {first : Option Nat} {nodes pre post : List Nat} {aEvent a b : Nat}
  {e : TimerEvent V} {f : TimerEvent V → TimerEvent V}

/-! ### Links in the heap -/

theorem change_self : change events a f a = (events a).map f := Function.update_self _ _ _

theorem change_other (apart : b ≠ a) : change events a f b = events b := Function.update_of_ne apart _ _

theorem change_content (same : ∀ e, content (f e) = content e) (b : Nat) :
    (change events a f b).map content = (events b).map content := by
  by_cases here : b = a
  · rw [here, change_self, Option.map_map]
    congr 1
    exact funext same
  · rw [change_other here]

theorem setPrev_other {event prevTE : Option Nat} (apart : event ≠ some b) : setPrev events event prevTE b = events b := by
  cases event with
  | none => rfl
  | some a => exact change_other fun same => apart (congrArg some same.symm)

theorem setPrev_content {event prevTE : Option Nat} (b : Nat) :
    (setPrev events event prevTE b).map content = (events b).map content := by
  cases event with
  | none => rfl
  | some a => exact change_content (f := fun e => { e with prevTE := prevTE }) (fun _ => rfl) b

theorem setNext_other {event nextTE : Option Nat} (apart : event ≠ some b) : setNext events event nextTE b = events b := by
  cases event with
  | none => rfl
  | some a => exact change_other fun same => apart (congrArg some same.symm)

theorem setNext_content {event nextTE : Option Nat} (b : Nat) :
    (setNext events event nextTE b).map content = (events b).map content := by
  cases event with
  | none => rfl
  | some a => exact change_content (f := fun e => { e with nextTE := nextTE }) (fun _ => rfl) b

/-- Setting a link in one direction keeps the other one. -/
theorem setPrev_next {event prevTE : Option Nat} (b : Nat) : nextOf (setPrev events event prevTE) b = nextOf events b := by
  by_cases here : event = some b
  · rw [here, nextOf, setPrev, change_self, nextOf]
    cases events b <;> rfl
  · rw [nextOf, setPrev_other here, nextOf]

theorem setNext_prev {event nextTE : Option Nat} (b : Nat) : prevOf (setNext events event nextTE) b = prevOf events b := by
  by_cases here : event = some b
  · rw [here, prevOf, setNext, change_self, prevOf]
    cases events b <;> rfl
  · rw [prevOf, setNext_other here, prevOf]

theorem setPrev_prev {event prevTE : Option Nat} (here : events b = some e) :
    prevOf (setPrev events event prevTE) b = if event = some b then prevTE else prevOf events b := by
  by_cases link : event = some b
  · simp [prevOf, setPrev, link, change_self, here]
  · rw [prevOf, setPrev_other link, if_neg link, prevOf]

theorem setNext_next {event nextTE : Option Nat} (here : events b = some e) :
    nextOf (setNext events event nextTE) b = if event = some b then nextTE else nextOf events b := by
  by_cases link : event = some b
  · simp [nextOf, setNext, link, change_self, here]
  · rw [nextOf, setNext_other link, if_neg link, nextOf]

theorem timeOf_some (here : events a = some e) : timeOf events a = e.atTimeMillis := by
  rw [timeOf, here]

/-- Events that differ in their links only. -/
theorem content_same {e e' : TimerEvent V} (same : content e = content e') :
    e.timerType = e'.timerType ∧ e.atTimeMillis = e'.atTimeMillis ∧ e.repetitiveInterval = e'.repetitiveInterval := by
  have kind := congrArg TimerEvent.timerType same
  have times := congrArg TimerEvent.atTimeMillis same
  have interval := congrArg TimerEvent.repetitiveInterval same
  exact ⟨kind, times, interval⟩

theorem timeOf_content (same : (events' a).map content = (events a).map content) : timeOf events' a = timeOf events a := by
  unfold timeOf
  cases here : events a with
  | none =>
    rw [here, Option.map_none, Option.map_eq_none_iff] at same
    rw [same]
  | some e =>
    rw [here, Option.map_some, Option.map_eq_some_iff] at same
    obtain ⟨e', there, equal⟩ := same
    rw [there]
    exact (content_same equal).2.1

theorem present_content (same : (events' a).map content = (events a).map content) (here : events' a = some e) :
    ∃ e', events a = some e' ∧ content e' = content e := by
  rw [here, Option.map_some] at same
  exact Option.map_eq_some_iff.mp same.symm

theorem Relinked.present (relinked : Relinked s s') (here : s.events a = some e) :
    ∃ e', s'.events a = some e' ∧ content e' = content e := by
  have same := relinked.contents a
  rw [here, Option.map_some] at same
  exact Option.map_eq_some_iff.mp same

theorem Relinked.timeOf (relinked : Relinked s s') (a : Nat) : timeOf s'.events a = timeOf s.events a :=
  timeOf_content (relinked.contents a)

/-- There are at most as many events in the list as were allocated. -/
theorem Listing.length_le (listing : Listing s nodes) : nodes.length ≤ s.allocated := by
  have inside : nodes ⊆ List.range s.allocated := by
    intro a member
    obtain ⟨e, here⟩ := listing.present a member
    exact List.mem_range.mpr (listing.bounded a e here)
  have length := ((linked_nodup listing.linked).subperm inside).length_le
  rwa [List.length_range] at length

/-! ### Inserting -/

/-- The heap in which an event was put between two parts of the list. -/
structure Placed (events events' : Nat → Option (TimerEvent V)) (pre post : List Nat) (aEvent : Nat) (e : TimerEvent V) : Prop where
  new : events' aEvent = some { e with nextTE := post.head?, prevTE := pre.getLast? }
  before : ∀ d, pre.getLast? = some d → events' d = (events d).map fun e => { e with nextTE := some aEvent }
  behind : ∀ d, post.head? = some d → events' d = (events d).map fun e => { e with prevTE := some aEvent }
  others : ∀ d, d ≠ aEvent → pre.getLast? ≠ some d → post.head? ≠ some d → events' d = events d

theorem placed_content (here : s.events aEvent = some e) (placed : Placed s.events events' pre post aEvent e) (d : Nat) :
    (events' d).map content = (s.events d).map content := by
  by_cases same : d = aEvent
  · rw [same, placed.new, here]
    rfl
  · by_cases last : pre.getLast? = some d
    · rw [placed.before d last, Option.map_map]
      rfl
    · by_cases first : post.head? = some d
      · rw [placed.behind d first, Option.map_map]
        rfl
      · rw [placed.others d same last first]

theorem placed_listing (listing : Listing s (pre ++ post)) (here : s.events aEvent = some e) (outside : aEvent ∉ pre ++ post)
    (placed : Placed s.events events' pre post aEvent e) (start : pre = [] → first = some aEvent)
    (sameStart : pre ≠ [] → first = s.firstTE) (less : ∀ d ∈ pre, timeOf s.events d ≤ e.atTimeMillis)
    (greater : ∀ d ∈ post, e.atTimeMillis ≤ timeOf s.events d) :
    Listing { s with firstTE := first, events := events' } (pre ++ aEvent :: post) ∧
      Relinked s { s with firstTE := first, events := events' } := by
  have contents := placed_content here placed
  have times : timeOf events' = timeOf s.events := funext fun d => timeOf_content (contents d)
  have distinct := linked_nodup listing.linked
  have apart : ∀ d ∈ pre ++ post, d ≠ aEvent := by
    rintro d member rfl
    exact outside member
  have lastApart : ∀ d, pre.getLast? = some d → post.head? ≠ some d := by
    intro d last first
    exact (List.nodup_append.mp distinct).2.2 d (List.mem_of_getLast? last) d (List.mem_of_mem_head? first) rfl
  have relinked : Relinked s { s with firstTE := first, events := events' } := ⟨contents, rfl, rfl, rfl, rfl, rfl⟩
  refine ⟨⟨?_, ?_, ?_, ?_⟩, relinked⟩
  · refine linked_insert listing.linked ?_ ?_ start sameStart ?_ ?_ ?_ ?_
    · simp [nextOf, placed.new]
    · simp [prevOf, placed.new]
    · intro d last
      obtain ⟨e', there⟩ := listing.present d (List.mem_append_left _ (List.mem_of_getLast? last))
      simp [nextOf, placed.before d last, there]
    · intro d member notLast
      by_cases head : post.head? = some d
      · simp only [nextOf, placed.behind d head]
        cases s.events d <;> rfl
      · simp only [nextOf, placed.others d (apart d member) notLast head]
    · intro d head
      obtain ⟨e', there⟩ := listing.present d (List.mem_append_right _ (List.mem_of_mem_head? head))
      simp [prevOf, placed.behind d head, there]
    · intro d member notFirst
      by_cases last : pre.getLast? = some d
      · simp only [prevOf, placed.before d last]
        cases s.events d <;> rfl
      · simp only [prevOf, placed.others d (apart d member) last notFirst]
  · simp only [times]
    obtain ⟨left, right, across⟩ := List.pairwise_append.mp listing.sorted
    refine List.pairwise_append.mpr ⟨left, List.pairwise_cons.mpr ⟨?_, right⟩, ?_⟩
    · intro d member
      rw [timeOf_some here]
      exact greater d member
    · intro d inPre d' inPost
      rcases List.mem_cons.mp inPost with rfl | later
      · rw [timeOf_some here]
        exact less d inPre
      · exact across d inPre d' later
  · intro d member
    rcases List.mem_append.mp member with inPre | inPost
    · obtain ⟨e', there⟩ := listing.present d (List.mem_append_left _ inPre)
      obtain ⟨e'', after, -⟩ := relinked.present there
      exact ⟨e'', after⟩
    · rcases List.mem_cons.mp inPost with rfl | later
      · exact ⟨_, placed.new⟩
      · obtain ⟨e', there⟩ := listing.present d (List.mem_append_right _ later)
        obtain ⟨e'', after, -⟩ := relinked.present there
        exact ⟨e'', after⟩
  · intro d e' there
    obtain ⟨e'', old, -⟩ := present_content (contents d) there
    exact listing.bounded d e'' old

/-- The loop of `insertAnEvent` passes the events before the time. -/
theorem search_spec {rest : List Nat} {previous turns : Nat} {place : Option Nat} (absTimeMillis : Int)
    (segment : Segment (nextOf events) (prevOf events) (some previous) place rest none)
    (present : ∀ a ∈ rest, ∃ e, events a = some e) (enough : rest.length < turns) :
    ∃ small large last, rest = small ++ large ∧ (previous :: small).getLast? = some last ∧
      searchEventPos events absTimeMillis turns previous place = some (last, large.head?) ∧
      (∀ a ∈ small, timeOf events a < absTimeMillis) ∧ ∀ a, large.head? = some a → absTimeMillis ≤ timeOf events a := by
  induction rest generalizing previous place turns with
  | nil =>
    obtain rfl : place = none := segment
    cases turns with
    | zero => simp at enough
    | succ turns => exact ⟨[], [], previous, rfl, rfl, rfl, by simp, by simp⟩
  | cons a rest ih =>
    obtain ⟨rfl, -, further⟩ := segment
    obtain ⟨e, here⟩ := present a List.mem_cons_self
    have following : nextOf events a = e.nextTE := by simp [nextOf, here]
    rw [following] at further
    cases turns with
    | zero => simp at enough
    | succ turns =>
      have shorter : rest.length < turns := by simpa using enough
      by_cases less : e.atTimeMillis < absTimeMillis
      · obtain ⟨small, large, last, rfl, lastIs, found, smaller, larger⟩ :=
          ih further (fun b member => present b (List.mem_cons_of_mem a member)) shorter
        refine ⟨a :: small, large, last, rfl, ?_, ?_, ?_, larger⟩
        · rw [List.getLast?_cons_cons, lastIs]
        · simp [searchEventPos, here, less, found]
        · intro b member
          rcases List.mem_cons.mp member with rfl | later
          · rwa [timeOf_some here]
          · exact smaller b later
      · refine ⟨[], a :: rest, previous, rfl, rfl, ?_, by simp, ?_⟩
        · simp [searchEventPos, here, less]
        · rintro _ ⟨⟩
          rw [timeOf_some here]
          omega

/-- The link of the last event in front of a part of the list. -/
theorem last_next (linked : Linked (nextOf events) (prevOf events) first (pre ++ post)) {last : Nat}
    (lastIs : pre.getLast? = some last) : nextOf events last = post.head? := by
  obtain ⟨front, rfl⟩ := List.getLast?_eq_some_iff.mp lastIs
  rw [List.append_assoc] at linked
  obtain ⟨-, -, behind⟩ := linked_middle.mp linked
  simpa using segment_head behind

/-- `insertAnEvent` puts an event before the first one that is not earlier. -/
theorem insert_listing (listing : Listing s nodes) (here : s.events aEvent = some e) (outside : aEvent ∉ nodes) :
    ∃ s' pre post, insertAnEvent s aEvent = some s' ∧ nodes = pre ++ post ∧ Listing s' (pre ++ aEvent :: post) ∧ Relinked s s' := by
  cases nodes with
  | nil =>
    have empty : s.firstTE = none := listing.linked
    refine ⟨_, [], [], by simp only [insertAnEvent, here, empty]; rfl, rfl, ?_⟩
    refine placed_listing listing here outside ⟨?_, by simp, by simp, ?_⟩ (fun _ => rfl) (by simp) (by simp) (by simp)
    · simp [change_self, here]
    · intro d apart _ _
      exact change_other apart
  | cons first rest =>
    have start : s.firstTE = some first := listing.linked.1
    obtain ⟨firstEvent, there⟩ := listing.present first List.mem_cons_self
    have firstApart : first ≠ aEvent := by
      rintro rfl
      exact outside List.mem_cons_self
    obtain ⟨ordered, sorted⟩ := List.pairwise_cons.mp listing.sorted
    by_cases before : e.atTimeMillis ≤ firstEvent.atTimeMillis
    · refine ⟨_, [], first :: rest, by simp [insertAnEvent, here, start, there, before]; rfl, rfl, ?_⟩
      refine placed_listing listing here outside ⟨?_, by simp, ?_, ?_⟩ (fun _ => rfl) (by simp) (by simp) ?_
      · rw [setPrev_other (by simpa using firstApart), change_self, here]
        rfl
      · rintro _ ⟨⟩
        rw [setPrev, change_self, change_other firstApart]
      · intro d apart _ notFirst
        rw [setPrev_other (by simpa using notFirst), change_other apart]
      · intro d member
        rcases List.mem_cons.mp member with rfl | later
        · rwa [timeOf_some there]
        · have after := ordered d later
          rw [timeOf_some there] at after
          omega
    · obtain ⟨-, -, segment⟩ := listing.linked
      have following : nextOf s.events first = firstEvent.nextTE := by simp [nextOf, there]
      rw [following] at segment
      have enough : rest.length < s.allocated := listing.length_le
      obtain ⟨small, large, last, rfl, lastIs, found, smaller, larger⟩ :=
        search_spec e.atTimeMillis segment (fun a member => listing.present a (List.mem_cons_of_mem first member)) enough
      rw [← List.cons_append] at listing outside
      have inside : last ∈ first :: small := List.mem_of_getLast? lastIs
      obtain ⟨lastEvent, lastHere⟩ := listing.present last (List.mem_append_left large inside)
      have lastApart : last ≠ aEvent := by
        rintro rfl
        exact outside (List.mem_append_left large inside)
      have behind : lastEvent.nextTE = large.head? := by
        have link := last_next listing.linked lastIs
        simpa [nextOf, lastHere] using link
      have nextApart : ∀ d, large.head? = some d → d ≠ aEvent ∧ d ≠ last := by
        intro d head
        have later := List.mem_of_mem_head? head
        constructor
        · rintro rfl
          exact outside (List.mem_append_right (first :: small) later)
        · rintro rfl
          exact (List.nodup_append.mp (linked_nodup listing.linked)).2.2 d inside d later rfl
      refine ⟨_, first :: small, large, by simp [insertAnEvent, here, start, there, before, found, lastHere]; rfl, rfl, ?_⟩
      rw [behind]
      refine placed_listing listing here outside ⟨?_, ?_, ?_, ?_⟩ (by simp) (fun _ => start.symm) ?_ ?_
      · rw [change_self, setNext_other (by simpa using lastApart), setPrev_other fun head => (nextApart aEvent head).1 rfl, here, lastIs]
        rfl
      · intro d same
        obtain rfl : last = d := Option.some.inj (lastIs.symm.trans same)
        rw [change_other lastApart, setNext, change_self, setPrev_other fun head => (nextApart last head).2 rfl]
      · intro d head
        rw [change_other (nextApart d head).1, setNext_other (by simpa using Ne.symm (nextApart d head).2), head, setPrev, change_self]
      · intro d apart notLast notFirst
        have other : d ≠ last := by
          rintro rfl
          exact notLast lastIs
        rw [change_other apart, setNext_other (by simpa using Ne.symm other), setPrev_other notFirst]
      · intro d member
        rcases List.mem_cons.mp member with rfl | later
        · rw [timeOf_some there]
          omega
        · exact Int.le_of_lt (smaller d later)
      · intro d member
        cases large with
        | nil => cases member
        | cons b later =>
          have least := larger b rfl
          rcases List.mem_cons.mp member with rfl | further
          · exact least
          · have tail := (List.pairwise_append.mp listing.sorted).2.1
            exact Int.le_trans least ((List.pairwise_cons.mp tail).1 d further)

/-! ### Taking out -/

/-- The heap without an event. -/
def forget (s : Timers V) (event : Nat) : Timers V := { s with events := Function.update s.events event none }

theorem listing_apart (listing : Listing s (pre ++ a :: post)) : ∀ d ∈ pre ++ post, d ≠ a := by
  intro d member same
  have outside := (List.nodup_cons.mp (List.nodup_middle.mp (linked_nodup listing.linked))).1
  exact outside (same ▸ member)

theorem present_others (listing : Listing s (pre ++ a :: post)) : ∀ d ∈ pre ++ post, ∃ e, s.events d = some e :=
  fun d member => listing.present d (by
    simp only [List.mem_append, List.mem_cons] at member ⊢
    tauto)

/-- A list without one of its events, where the others have new links at most. -/
theorem forgotten_listing (listing : Listing s (pre ++ a :: post)) (relinked : Relinked (forget s a) s')
    (linked : Linked (nextOf s'.events) (prevOf s'.events) s'.firstTE (pre ++ post)) : Listing s' (pre ++ post) := by
  have apart := listing_apart listing
  refine ⟨linked, ?_, ?_, ?_⟩
  · have sorted : (pre ++ post).Pairwise fun a b => timeOf s.events a ≤ timeOf s.events b := by
      refine listing.sorted.sublist ?_
      exact List.Sublist.append_left (List.sublist_cons_self a post) pre
    refine sorted.imp_of_mem ?_
    intro c d first second less
    have times : ∀ d ∈ pre ++ post, timeOf s'.events d = timeOf s.events d := by
      intro d member
      rw [relinked.timeOf d]
      simp [forget, timeOf, apart d member]
    exact (times c first).symm ▸ (times d second).symm ▸ less
  · intro d member
    obtain ⟨e', there⟩ := present_others listing d member
    have there' : (forget s a).events d = some e' := by simpa [forget, apart d member] using there
    obtain ⟨e'', after, -⟩ := relinked.present there'
    exact ⟨e'', after⟩
  · intro d e' there
    obtain ⟨e'', old, -⟩ := present_content (relinked.contents d) there
    have other : d ≠ a := by
      rintro rfl
      simp [forget] at old
    rw [relinked.allocated]
    exact listing.bounded d e'' (by simpa [forget, other] using old)

theorem cancel_listing (listing : Listing s (pre ++ a :: post)) :
    ∃ s', temCancel s a = some s' ∧ Listing s' (pre ++ post) ∧ Relinked (forget s a) s' := by
  obtain ⟨e, here⟩ := listing.present a (by simp)
  obtain ⟨left, back, right⟩ := linked_middle.mp listing.linked
  have previous : e.prevTE = pre.getLast? := by simpa [prevOf, here] using back
  have following : e.nextTE = post.head? := by simpa [nextOf, here] using segment_head right
  have apart := listing_apart listing
  have kept := present_others listing
  let events := Function.update (setPrev (setNext s.events e.prevTE e.nextTE) e.nextTE e.prevTE) a none
  have relinked : Relinked (forget s a)
      { s with firstTE := if e.prevTE = none then e.nextTE else s.firstTE, events := events } := by
    refine ⟨?_, rfl, rfl, rfl, rfl, rfl⟩
    intro d
    by_cases other : d = a
    · simp [other, forget, events]
    · simp only [forget, events, Function.update_of_ne other]
      exact (setPrev_content d).trans (setNext_content d)
  have elsewhere : ∀ d, d ≠ a → events d = setPrev (setNext s.events e.prevTE e.nextTE) e.nextTE e.prevTE d :=
    fun d other => Function.update_of_ne other _ _
  have nexts : ∀ d ∈ pre ++ post, nextOf events d = if e.prevTE = some d then e.nextTE else nextOf s.events d := by
    intro d member
    obtain ⟨e', there⟩ := kept d member
    rw [nextOf, elsewhere d (apart d member)]
    exact (setPrev_next d).trans (setNext_next there)
  have prevs : ∀ d ∈ pre ++ post, prevOf events d = if e.nextTE = some d then e.prevTE else prevOf s.events d := by
    intro d member
    obtain ⟨e', there⟩ := kept d member
    obtain ⟨e'', after, -⟩ : ∃ e'', setNext s.events e.prevTE e.nextTE d = some e'' ∧ content e'' = content e' := by
      have contents : (setNext s.events e.prevTE e.nextTE d).map content = (s.events d).map content := setNext_content d
      rw [there] at contents
      exact Option.map_eq_some_iff.mp contents
    rw [prevOf, elsewhere d (apart d member)]
    refine (setPrev_prev after).trans ?_
    rw [setNext_prev]
  have starts : s.firstTE = some a ↔ e.prevTE = none := by
    rw [previous]
    cases pre with
    | nil => exact iff_of_true left rfl
    | cons c rest =>
      have head : s.firstTE = some c := left.1
      have other := apart c (by simp)
      simp [head, other]
  have thisNext : nextOf s.events a = e.nextTE := by simp [nextOf, here]
  have thisPrev : prevOf s.events a = e.prevTE := by simp [prevOf, here]
  have befores : ∀ d, e.prevTE = some d → d ∈ pre ++ post := fun d link =>
    List.mem_append_left _ (List.mem_of_getLast? (previous.symm.trans link))
  have behinds : ∀ d, e.nextTE = some d → d ∈ pre ++ post := fun d link =>
    List.mem_append_right _ (List.mem_of_mem_head? (following.symm.trans link))
  refine ⟨_, by rw [temCancel, here]; rfl, forgotten_listing listing relinked ?_, relinked⟩
  refine linked_remove listing.linked ?_ ?_ ?_ ?_ ?_ ?_
  · intro first
    rw [thisNext]
    exact if_pos (starts.mp first)
  · intro first
    exact if_neg fun bare => first (starts.mpr bare)
  · intro d link
    rw [thisPrev] at link
    rw [thisNext]
    exact (nexts d (befores d link)).trans (if_pos link)
  · intro d member link
    rw [thisPrev] at link
    exact (nexts d member).trans (if_neg link)
  · intro d link
    rw [thisNext] at link
    rw [thisPrev]
    exact (prevs d (behinds d link)).trans (if_pos link)
  · intro d member link
    rw [thisNext] at link
    exact (prevs d member).trans (if_neg link)

/-- Taking out the first event. -/
theorem removeFirst_listing (listing : Listing s (a :: post)) (here : s.events a = some e) :
    Listing (removeFirst s e) post ∧ Relinked s (removeFirst s e) := by
  have relinked : Relinked s (removeFirst s e) := ⟨fun d => setPrev_content d, rfl, rfl, rfl, rfl, rfl⟩
  have following : nextOf s.events a = e.nextTE := by simp [nextOf, here]
  have kept : ∀ d ∈ post, ∃ e, s.events d = some e := fun d member => listing.present d (List.mem_cons_of_mem a member)
  refine ⟨⟨?_, ?_, ?_, ?_⟩, relinked⟩
  · have start : (removeFirst s e).firstTE = nextOf s.events a := following.symm
    rw [start]
    refine linked_tail listing.linked (fun d _ => setPrev_next d) ?_ ?_
    · intro d link
      have head := segment_head listing.linked.2.2
      rw [link, Option.or_none] at head
      obtain ⟨e', there⟩ := kept d (List.mem_of_mem_head? head.symm)
      exact (setPrev_prev there).trans (if_pos (following.symm.trans link))
    · intro d member link
      rw [following] at link
      obtain ⟨e', there⟩ := kept d member
      exact (setPrev_prev there).trans (if_neg link)
  · refine (List.pairwise_cons.mp listing.sorted).2.imp ?_
    intro c d less
    rw [relinked.timeOf, relinked.timeOf]
    exact less
  · intro d member
    obtain ⟨e', there⟩ := kept d member
    obtain ⟨e'', after, -⟩ := relinked.present there
    exact ⟨e'', after⟩
  · intro d e' there
    obtain ⟨e'', old, -⟩ := present_content (relinked.contents d) there
    exact listing.bounded d e'' old

end

end VoxiUtil.TimerLists
