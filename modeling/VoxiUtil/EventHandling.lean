import VoxiUtil.EventListeners

/-!
The handling of events in `event.c`: any number of threads of `em_handleOneEvent` and the threads
that these create for their listeners, step by step. A step that is `none` cannot be taken: it
waits, or its assertion fails. `Moves` says what a step does to the event it is for.
-/
namespace VoxiUtil.EventHandling
open VoxiUtil.Hash VoxiUtil.Runs VoxiUtil.EventListeners

/-- `sEvent`, without the semaphore. -/
structure SEvent (D G : Type) where
  source : UInt64
  eventType : Int32
  eventData : D
  freeFunc : Option G
  isBlocking : Bool

def SEvent.key {D G : Type} (event : SEvent D G) : UInt64 × Int32 := (event.source, event.eventType)

/-- `sHandleOneListenerData`: the function of a listener and the arguments it is called with. -/
structure SHandleOneListenerData (F D : Type) where
  handlerFunc : F
  source : UInt64
  eventType : Int32
  eventData : D
  handlerData : D
deriving DecidableEq

/-- What is done for an event: a listener's function is called or returns, the function that
    frees the event's data is called or returns, and the event is posted back or freed. -/
inductive Happening (F D G : Type)
  | called (data : SHandleOneListenerData F D)
  | returned (data : SHandleOneListenerData F D)
  | freeCalled (freeFunc : G) (source : UInt64) (eventType : Int32) (eventData : D)
  | freeReturned
  | semPosted
  | eventFreed
deriving DecidableEq

/-- Where a thread for a listener is: created, in the listener's function, and at its end. -/
inductive ThreadAt
  | created
  | calling
  | ended
deriving DecidableEq

/-- Where a thread of `em_handleOneEvent` is: at its start, with the lock of the table, behind the
    search, without the lock, in the loop over the slots, in a listener's function, in the loop
    that joins, behind it, in the function that frees the data, behind that, and at its end. -/
inductive Place (F D : Type)
  | entered
  | tableLocked
  | searched (listenerList : Option SListenerList)
  | found (listenerList : Option SListenerList)
  | looping (listenerList : SListenerList) (listnCntr : Nat)
  | calling (listenerList : SListenerList) (listnCntr : Nat) (aListener : SListenerEntry F D)
  | joining (listnCntr : Nat)
  | finishing
  | freeing
  | freed
  | finished

/-- An event with its thread, the threads to wait for, and what was done for it so far. -/
structure Handling (F D G : Type) where
  event : SEvent D G
  place : Place F D
  threadWaitList : List (SHandleOneListenerData F D × ThreadAt)
  log : List (Happening F D G)

/-- The listeners, the locks by the event whose thread has them, and the events that were handed
    to threads, in this order. The lock of a list is known by the list's block. -/
structure System (F D G : Type) where
  manager : Manager F D
  listenersHashTableLock : Option Nat
  listenerListLock : Nat → Option Nat
  handling : List (Handling F D G)

section
variable {F D G : Type}

/-- Before the first event. -/
def idle (m : Manager F D) : System F D G := ⟨m, none, fun _ => none, []⟩

def listenerData (event : SEvent D G) (aListener : SListenerEntry F D) : SHandleOneListenerData F D :=
  ⟨aListener.handlerFunc, event.source, event.eventType, event.eventData, aListener.handlerData⟩

def setHandling (s : System F D G) (t : Nat) (h : Handling F D G) : System F D G :=
  { s with handling := s.handling.set t h }

/-- One round of the loop over the slots. -/
def listenerLoop (m : Manager F D) (h : Handling F D G) (listenerList : SListenerList) (listnCntr : Nat) :
    Option (Handling F D G) := do
  let slot ← (m.listenerEntryList listenerList.address)[listnCntr]?
  match slot with
  | none => some { h with place := .looping listenerList (listnCntr + 1) }
  | some aListener =>
    if aListener.makeNewThread then do
      assert (h.threadWaitList.length < llistNoElems)
      some { h with
        threadWaitList := h.threadWaitList ++ [(listenerData h.event aListener, .created)]
        place := .looping listenerList (listnCntr + 1) }
    else
      some { h with
        log := h.log ++ [.called (listenerData h.event aListener)]
        place := .calling listenerList listnCntr aListener }

/-- The end of the handling, by its three steps. -/
def finishedWithEvent (h : Handling F D G) : Option (Handling F D G) :=
  match h.place with
  | .finishing =>
    match h.event.freeFunc with
    | none => some { h with place := .freed }
    | some freeFunc =>
      some { h with
        log := h.log ++ [.freeCalled freeFunc h.event.source h.event.eventType h.event.eventData]
        place := .freeing }
  | .freeing => some { h with log := h.log ++ [.freeReturned], place := .freed }
  | .freed =>
    some { h with log := h.log ++ [if h.event.isBlocking then .semPosted else .eventFreed], place := .finished }
  | _ => none

/-- The next step of the thread of `em_handleOneEvent` for the event `h`, which has the number
    `t`; a listener's function that it called returns in a step of its own. -/
def emHandleOneEvent (s : System F D G) (t : Nat) (h : Handling F D G) : Option (System F D G) :=
  match h.place with
  | .entered => do
    assert (s.listenersHashTableLock = none)
    some { setHandling s t { h with place := .tableLocked } with listenersHashTableLock := some t }
  | .tableLocked =>
    let listenerList := hashFind s.manager.listenersHashTable (findTemplate h.event.source h.event.eventType)
    some (setHandling s t { h with place := .searched listenerList })
  | .searched listenerList =>
    some { setHandling s t { h with place := .found listenerList } with listenersHashTableLock := none }
  | .found none => some (setHandling s t { h with place := .finishing })
  | .found (some listenerList) => do
    assert (s.listenerListLock listenerList.address = none)
    some { setHandling s t { h with place := .looping listenerList 0 } with
      listenerListLock := Function.update s.listenerListLock listenerList.address (some t) }
  | .looping listenerList listnCntr =>
    if listnCntr < llistNoElems then (listenerLoop s.manager h listenerList listnCntr).map (setHandling s t)
    else
      some { setHandling s t { h with place := .joining 0 } with
        listenerListLock := Function.update s.listenerListLock listenerList.address none }
  | .calling listenerList listnCntr aListener =>
    some (setHandling s t { h with
      log := h.log ++ [.returned (listenerData h.event aListener)]
      place := .looping listenerList (listnCntr + 1) })
  | .joining listnCntr =>
    match h.threadWaitList[listnCntr]? with
    | none => some (setHandling s t { h with place := .finishing })
    | some thread => do
      assert (thread.2 = .ended)
      some (setHandling s t { h with place := .joining (listnCntr + 1) })
  | _ => (finishedWithEvent h).map (setHandling s t)

/-- The next step of the thread with the number `k` among those for the listeners of an event. -/
def emHandleOneListenerHandlerFunc (h : Handling F D G) (k : Nat) : Option (Handling F D G) := do
  let thread ← h.threadWaitList[k]?
  match thread.2 with
  | .created =>
    some { h with
      threadWaitList := h.threadWaitList.set k (thread.1, .calling)
      log := h.log ++ [.called thread.1] }
  | .calling =>
    some { h with
      threadWaitList := h.threadWaitList.set k (thread.1, .ended)
      log := h.log ++ [.returned thread.1] }
  | .ended => none

/-- The main loop hands an event to a new thread, the thread of an event goes on, or a thread for
    one of its listeners does. -/
inductive Act (D G : Type)
  | handle (event : SEvent D G)
  | go (t : Nat)
  | listener (t k : Nat)

def step (s : System F D G) : Act D G → Option (System F D G)
  | .handle event => some { s with handling := s.handling ++ [⟨event, .entered, [], []⟩] }
  | .go t => do
    let h ← s.handling[t]?
    emHandleOneEvent s t h
  | .listener t k => do
    let h ← s.handling[t]?
    (emHandleOneListenerHandlerFunc h k).map (setHandling s t)

/-- No new event. -/
def Internal : Act D G → Prop
  | .handle _ => False
  | _ => True

/-- The steps for an event, whoever takes them, apart from the locks. -/
inductive Moves (m : Manager F D) : Handling F D G → Handling F D G → Prop
  | lockTable {h} (at_ : h.place = .entered) : Moves m h { h with place := .tableLocked }
  | search {h} (at_ : h.place = .tableLocked) : Moves m h { h with place := .searched (listFor m h.event.key) }
  | unlockTable {h listenerList} (at_ : h.place = .searched listenerList) :
    Moves m h { h with place := .found listenerList }
  | noListeners {h} (at_ : h.place = .found none) : Moves m h { h with place := .finishing }
  | lockList {h listenerList} (at_ : h.place = .found (some listenerList)) :
    Moves m h { h with place := .looping listenerList 0 }
  | hole {h listenerList i} (at_ : h.place = .looping listenerList i) (inside : i < llistNoElems)
    (slot : (m.listenerEntryList listenerList.address)[i]? = some none) :
    Moves m h { h with place := .looping listenerList (i + 1) }
  | fork {h listenerList i aListener} (at_ : h.place = .looping listenerList i) (inside : i < llistNoElems)
    (slot : (m.listenerEntryList listenerList.address)[i]? = some (some aListener)) :
    Moves m h { h with
      threadWaitList := h.threadWaitList ++ [(listenerData h.event aListener, .created)]
      place := .looping listenerList (i + 1) }
  | call {h listenerList i aListener} (at_ : h.place = .looping listenerList i) (inside : i < llistNoElems)
    (slot : (m.listenerEntryList listenerList.address)[i]? = some (some aListener)) :
    Moves m h { h with
      log := h.log ++ [.called (listenerData h.event aListener)]
      place := .calling listenerList i aListener }
  | unlockList {h listenerList i} (at_ : h.place = .looping listenerList i) (outside : ¬ i < llistNoElems) :
    Moves m h { h with place := .joining 0 }
  | returns {h listenerList i aListener} (at_ : h.place = .calling listenerList i aListener) :
    Moves m h { h with
      log := h.log ++ [.returned (listenerData h.event aListener)]
      place := .looping listenerList (i + 1) }
  | join {h i data} (at_ : h.place = .joining i) (ended : h.threadWaitList[i]? = some (data, .ended)) :
    Moves m h { h with place := .joining (i + 1) }
  | joined {h i} (at_ : h.place = .joining i) (all : h.threadWaitList[i]? = none) : Moves m h { h with place := .finishing }
  | keep {h} (at_ : h.place = .finishing) (none : h.event.freeFunc = none) : Moves m h { h with place := .freed }
  | free {h freeFunc} (at_ : h.place = .finishing) (some : h.event.freeFunc = some freeFunc) :
    Moves m h { h with
      log := h.log ++ [.freeCalled freeFunc h.event.source h.event.eventType h.event.eventData]
      place := .freeing }
  | freeReturns {h} (at_ : h.place = .freeing) : Moves m h { h with log := h.log ++ [.freeReturned], place := .freed }
  | finish {h} (at_ : h.place = .freed) :
    Moves m h { h with log := h.log ++ [if h.event.isBlocking then .semPosted else .eventFreed], place := .finished }
  | begins {h k data} (thread : h.threadWaitList[k]? = some (data, .created)) :
    Moves m h { h with threadWaitList := h.threadWaitList.set k (data, .calling), log := h.log ++ [.called data] }
  | ends {h k data} (thread : h.threadWaitList[k]? = some (data, .calling)) :
    Moves m h { h with threadWaitList := h.threadWaitList.set k (data, .ended), log := h.log ++ [.returned data] }

/-- Where a thread has the lock of the table. -/
def HoldsTable : Place F D → Prop
  | .tableLocked | .searched _ => True
  | _ => False

/-- Where a thread has the lock of the list in a block. -/
def HoldsList (address : Nat) : Place F D → Prop
  | .looping listenerList _ | .calling listenerList _ _ => listenerList.address = address
  | _ => False

/-- A lock that is taken was taken by a thread at one of the places that hold it. -/
def Owned (lock : Option Nat) (holds : Place F D → Prop) (handling : List (Handling F D G)) : Prop :=
  ∀ t, lock = some t → ∃ h, handling[t]? = some h ∧ holds h.place

/-- The locks are with threads that hold them. -/
structure Locks (s : System F D G) : Prop where
  table : Owned s.listenersHashTableLock HoldsTable s.handling
  list : ∀ address, Owned (s.listenerListLock address) (HoldsList address) s.handling

section
variable {holds : Place F D → Prop} {handling : List (Handling F D G)} {lock : Option Nat} {t : Nat}
  {h h₁ : Handling F D G}

private theorem set_there (there : handling[t]? = some h) : (handling.set t h₁)[t]? = some h₁ := by
  obtain ⟨inside, -⟩ := List.getElem?_eq_some_iff.mp there
  exact List.getElem?_set_self inside

theorem owned_none : Owned none holds handling := fun _ taken => nomatch taken

private theorem owned_take (there : handling[t]? = some h) (here : holds h₁.place) :
    Owned (some t) holds (handling.set t h₁) := by
  rintro u taken
  cases taken
  exact ⟨h₁, set_there there, here⟩

private theorem owned_keep (owned : Owned lock holds handling) (there : handling[t]? = some h)
    (still : holds h.place → holds h₁.place) : Owned lock holds (handling.set t h₁) := by
  intro u taken
  obtain ⟨holder, present, here⟩ := owned u taken
  by_cases same : u = t
  · cases same
    cases there.symm.trans present
    exact ⟨h₁, set_there there, still here⟩
  · exact ⟨holder, by rw [List.getElem?_set_ne (Ne.symm same)]; exact present, here⟩

private theorem owned_append (owned : Owned lock holds handling) : Owned lock holds (handling ++ [h]) := by
  intro u taken
  obtain ⟨holder, present, here⟩ := owned u taken
  exact ⟨holder, List.getElem?_append_left (List.getElem?_eq_some_iff.mp present).1 ▸ present, here⟩

end

/-- A step of a thread, as seen from the whole: it moves its event and leaves the others. -/
structure Moved (s : System F D G) (t : Nat) (h h₁ : Handling F D G) (s₁ : System F D G) : Prop where
  there : s.handling[t]? = some h
  moves : Moves s.manager h h₁
  handling : s₁.handling = s.handling.set t h₁
  manager : s₁.manager = s.manager
  locks : Locks s → Locks s₁

section
variable {s s₁ : System F D G} {t : Nat} {h h₁ : Handling F D G}

/-- A step that takes and gives no lock. -/
private theorem moved_freely (there : s.handling[t]? = some h) (moves : Moves s.manager h h₁)
    (table : HoldsTable h.place → HoldsTable h₁.place)
    (list : ∀ address, HoldsList address h.place → HoldsList address h₁.place) : Moved s t h h₁ (setHandling s t h₁) :=
  ⟨there, moves, rfl, rfl, fun locks =>
    ⟨owned_keep locks.table there table, fun address => owned_keep (locks.list address) there (list address)⟩⟩

private theorem holds_not {place : Place F D} (at_ : h.place = place) (never : ¬ HoldsTable place) :
    HoldsTable h.place → HoldsTable h₁.place := fun holds => absurd (at_ ▸ holds) never

private theorem holdsList_not {place : Place F D} (at_ : h.place = place) (never : ∀ address, ¬ HoldsList address place)
    (address : Nat) : HoldsList address h.place → HoldsList address h₁.place :=
  fun holds => absurd (at_ ▸ holds) (never address)

private theorem loop_moved (there : s.handling[t]? = some h) {listenerList : SListenerList} {i : Nat}
    (at_ : h.place = .looping listenerList i) (inside : i < llistNoElems)
    (ran : listenerLoop s.manager h listenerList i = some h₁) : Moved s t h h₁ (setHandling s t h₁) := by
  unfold listenerLoop at ran
  obtain ⟨slot, slotIs, ran⟩ := Option.bind_eq_some_iff.mp ran
  have notTable : ¬ HoldsTable h.place := by rw [at_]; exact id
  have same : ∀ address, HoldsList address h.place → listenerList.address = address := by
    intro address holds
    rwa [at_] at holds
  cases slot with
  | none =>
    cases ran
    exact moved_freely there (.hole at_ inside slotIs) (absurd · notTable) same
  | some aListener =>
    dsimp only at ran
    split at ran
    · obtain ⟨-, -, ran⟩ := Option.bind_eq_some_iff.mp ran
      cases ran
      exact moved_freely there (.fork at_ inside slotIs) (absurd · notTable) same
    · cases ran
      exact moved_freely there (.call at_ inside slotIs) (absurd · notTable) same

private theorem finished_moved (there : s.handling[t]? = some h) (ran : finishedWithEvent h = some h₁) :
    Moved s t h h₁ (setHandling s t h₁) := by
  unfold finishedWithEvent at ran
  split at ran
  case h_1 at_ =>
    have table : HoldsTable h.place → HoldsTable h₁.place := holds_not at_ id
    have list : ∀ address, HoldsList address h.place → HoldsList address h₁.place := holdsList_not at_ fun _ => id
    split at ran
    case h_1 none =>
      cases ran
      exact moved_freely there (.keep at_ none) table list
    case h_2 freeFunc some =>
      cases ran
      exact moved_freely there (.free at_ some) table list
  case h_2 at_ =>
    cases ran
    exact moved_freely there (.freeReturns at_) (holds_not at_ id) (holdsList_not at_ fun _ => id)
  case h_3 at_ =>
    cases ran
    exact moved_freely there (.finish at_) (holds_not at_ id) (holdsList_not at_ fun _ => id)
  case h_4 => cases ran

/-- What a step of a thread of `em_handleOneEvent` does. -/
theorem go_moved (there : s.handling[t]? = some h) (ran : emHandleOneEvent s t h = some s₁) :
    ∃ h₁, Moved s t h h₁ s₁ := by
  unfold emHandleOneEvent at ran
  split at ran
  case h_1 at_ =>
    obtain ⟨-, -, ran⟩ := Option.bind_eq_some_iff.mp ran
    cases ran
    refine ⟨_, there, .lockTable at_, rfl, rfl, fun locks => ⟨owned_take there trivial, fun address => ?_⟩⟩
    exact owned_keep (locks.list address) there (holdsList_not at_ (fun _ => id) address)
  case h_2 at_ =>
    cases ran
    exact ⟨_, moved_freely there (.search at_) (fun _ => trivial) (holdsList_not at_ fun _ => id)⟩
  case h_3 listenerList at_ =>
    cases ran
    refine ⟨_, there, .unlockTable at_, rfl, rfl, fun locks => ⟨owned_none, fun address => ?_⟩⟩
    exact owned_keep (locks.list address) there (holdsList_not at_ (fun _ => id) address)
  case h_4 at_ =>
    cases ran
    exact ⟨_, moved_freely there (.noListeners at_) (holds_not at_ id) (holdsList_not at_ fun _ => id)⟩
  case h_5 listenerList at_ =>
    obtain ⟨-, -, ran⟩ := Option.bind_eq_some_iff.mp ran
    cases ran
    refine ⟨_, there, .lockList at_, rfl, rfl,
      fun locks => ⟨owned_keep locks.table there (holds_not at_ id), fun address => ?_⟩⟩
    dsimp only
    by_cases same : address = listenerList.address
    · rw [same, Function.update_self]
      exact owned_take there rfl
    · rw [Function.update_of_ne same]
      exact owned_keep (locks.list address) there (holdsList_not at_ (fun _ => id) address)
  case h_6 listenerList i at_ =>
    split at ran
    case isTrue inside =>
      obtain ⟨h₁, looped, rfl⟩ := Option.map_eq_some_iff.mp ran
      exact ⟨h₁, loop_moved there at_ inside looped⟩
    case isFalse outside =>
      cases ran
      refine ⟨_, there, .unlockList at_ outside, rfl, rfl,
        fun locks => ⟨owned_keep locks.table there (holds_not at_ id), fun address => ?_⟩⟩
      dsimp only
      by_cases same : address = listenerList.address
      · rw [same, Function.update_self]
        exact owned_none
      · rw [Function.update_of_ne same]
        refine owned_keep (locks.list address) there fun holds => ?_
        rw [at_] at holds
        exact absurd holds.symm same
  case h_7 listenerList i aListener at_ =>
    cases ran
    refine ⟨_, moved_freely there (.returns at_) (holds_not at_ id) fun address holds => ?_⟩
    rwa [at_] at holds
  case h_8 i at_ =>
    have list : ∀ place : Place F D, ∀ address, HoldsList address h.place → HoldsList address place := by
      intro place address holds
      rw [at_] at holds
      exact holds.elim
    have table : ∀ place : Place F D, HoldsTable h.place → HoldsTable place := by
      intro place holds
      rw [at_] at holds
      exact holds.elim
    split at ran
    case h_1 all =>
      cases ran
      exact ⟨_, moved_freely there (.joined at_ all) (table _) (list _)⟩
    case h_2 thread threadIs =>
      obtain ⟨_, ended, ran⟩ := Option.bind_eq_some_iff.mp ran
      cases ran
      obtain ⟨data, status⟩ := thread
      cases assert_eq_some.mp ended
      exact ⟨_, moved_freely there (.join at_ threadIs) (table _) (list _)⟩
  case h_9 =>
    obtain ⟨h₁, done, rfl⟩ := Option.map_eq_some_iff.mp ran
    exact ⟨h₁, finished_moved there done⟩

/-- What a step of a thread for a listener does. -/
theorem listener_moved (there : s.handling[t]? = some h) {k : Nat} (ran : emHandleOneListenerHandlerFunc h k = some h₁) :
    Moved s t h h₁ (setHandling s t h₁) := by
  unfold emHandleOneListenerHandlerFunc at ran
  obtain ⟨⟨data, status⟩, threadIs, ran⟩ := Option.bind_eq_some_iff.mp ran
  cases status with
  | created =>
    cases ran
    exact moved_freely there (.begins threadIs) id fun _ => id
  | calling =>
    cases ran
    exact moved_freely there (.ends threadIs) id fun _ => id
  | ended => cases ran

/-- A step that is no new event moves one event. -/
theorem step_moved {act : Act D G} (internal : Internal act) (stepped : step s act = some s₁) :
    ∃ t h h₁, Moved s t h h₁ s₁ := by
  cases act with
  | handle event => exact internal.elim
  | go t =>
    obtain ⟨h, there, ran⟩ := Option.bind_eq_some_iff.mp stepped
    obtain ⟨h₁, moved⟩ := go_moved there ran
    exact ⟨t, h, h₁, moved⟩
  | listener t k =>
    obtain ⟨h, there, ran⟩ := Option.bind_eq_some_iff.mp stepped
    obtain ⟨h₁, moved, rfl⟩ := Option.map_eq_some_iff.mp ran
    exact ⟨t, h, h₁, listener_moved there moved⟩

theorem locks_handle (locks : Locks s) (event : SEvent D G) :
    Locks { s with handling := s.handling ++ [⟨event, .entered, [], []⟩] } :=
  ⟨owned_append locks.table, fun address => owned_append (locks.list address)⟩

end

end

end VoxiUtil.EventHandling
