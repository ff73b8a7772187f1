import Mathlib.Algebra.Order.Group.Multiset
import Mathlib.Data.List.Perm.Basic
import VoxiUtil.EventHandling

/-!
The handling of an event calls the listeners of its source and type, each as often as it is
registered, and frees the event's data behind the last return. `Inv` balances what was called
against the slots that the loop has passed and the threads that have still to call.
-/
namespace VoxiUtil.EventDispatch
open VoxiUtil.Runs VoxiUtil.EventListeners VoxiUtil.EventHandling

section
variable {F D G : Type}

/-- The listener that is called, by its two keys. -/
def invoker (data : SHandleOneListenerData F D) : F × D := (data.handlerFunc, data.handlerData)

def calledOf : Happening F D G → Option (SHandleOneListenerData F D)
  | .called data => some data
  | _ => none

def returnedOf : Happening F D G → Option (SHandleOneListenerData F D)
  | .returned data => some data
  | _ => none

/-- The calls of listeners' functions. -/
def called (log : List (Happening F D G)) : List (SHandleOneListenerData F D) := log.filterMap calledOf

/-- The calls that returned. -/
def returned (log : List (Happening F D G)) : List (SHandleOneListenerData F D) := log.filterMap returnedOf

/-- A call of a listener's function, or its return. -/
def OfListener (happening : Happening F D G) : Prop := (calledOf happening).isSome ∨ (returnedOf happening).isSome

/-- The call of the event's `freeFunc`, where it has one. -/
def freeing (event : SEvent D G) : List (Happening F D G) :=
  match event.freeFunc with
  | none => []
  | some freeFunc => [.freeCalled freeFunc event.source event.eventType event.eventData, .freeReturned]

def ending (event : SEvent D G) : Happening F D G := if event.isBlocking then .semPosted else .eventFreed

/-- What is seen of the handling of an event: no listener is called for another event or too
    often, and at the end each was called as often as it was added and not removed, and
    returned; then the data was freed, once. -/
structure Served [DecidableEq F] [DecidableEq D] (l : Ledger F D) (h : Handling F D G) : Prop where
  own : ∀ data ∈ called h.log, data.source = h.event.source ∧ data.eventType = h.event.eventType ∧
    data.eventData = h.event.eventData
  most : ∀ listener, Multiset.count listener ((called h.log).map invoker) ≤
    (l.added h.event.key).count listener - (l.removed h.event.key).count listener
  exact : h.place = .finished → ∃ before, h.log = before ++ (freeing h.event ++ [ending h.event]) ∧
    (∀ happening ∈ before, OfListener happening) ∧ (returned before).Perm (called before) ∧
    ∀ listener, Multiset.count listener ((called before).map invoker) =
      (l.added h.event.key).count listener - (l.removed h.event.key).count listener

/-- The slots for an event's source and type. -/
def slotsFor (m : Manager F D) (event : SEvent D G) : List (Option (SListenerEntry F D)) :=
  match listFor m event.key with
  | none => []
  | some listenerList => m.listenerEntryList listenerList.address

/-- How many slots are behind the loop, with the one whose function it is in. -/
def seen : Place F D → Nat
  | .entered | .tableLocked | .searched _ | .found _ => 0
  | .looping _ listnCntr => listnCntr
  | .calling _ listnCntr _ => listnCntr + 1
  | _ => llistNoElems

/-- The listeners that the loop came to. -/
def reached (m : Manager F D) (event : SEvent D G) (place : Place F D) : List (SListenerEntry F D) :=
  occupants ((slotsFor m event).take (seen place))

/-- The call that the loop waits for. -/
def direct (event : SEvent D G) : Place F D → List (SHandleOneListenerData F D)
  | .calling _ _ aListener => [listenerData event aListener]
  | _ => []

theorem direct_looping (event : SEvent D G) (listenerList : SListenerList) (i : Nat) :
    direct event (.looping listenerList i : Place F D) = [] := rfl

/-- The threads for listeners that are at some place, by their data. -/
def waiting (at_ : ThreadAt) (threads : List (SHandleOneListenerData F D × ThreadAt)) :
    Multiset (SHandleOneListenerData F D) := (threads.filter (·.2 = at_)).map Prod.fst

/-- The thread was waited for. -/
def Joined (k : Nat) : Place F D → Prop
  | .joining listnCntr => k < listnCntr
  | .finishing | .freeing | .freed | .finished => True
  | _ => False

/-- What was done behind the join. -/
def closing (event : SEvent D G) : Place F D → List (Happening F D G)
  | .freeing => (freeing event).take 1
  | .freed => freeing event
  | .finished => freeing event ++ [ending event]
  | _ => []

/-- The handling is at the list of its event, and frees only what has a function for it. -/
def Located (m : Manager F D) (event : SEvent D G) : Place F D → Prop
  | .searched listenerList | .found listenerList => listenerList = listFor m event.key
  | .looping listenerList listnCntr => listFor m event.key = some listenerList ∧ listnCntr ≤ llistNoElems
  | .calling listenerList listnCntr _ => listFor m event.key = some listenerList ∧ listnCntr < llistNoElems
  | .freeing => event.freeFunc.isSome
  | _ => True

/-- What holds of an event that is handled. -/
structure Inv (m : Manager F D) (h : Handling F D G) : Prop where
  located : Located m h.event h.place
  invoked : ↑(called h.log) + waiting .created h.threadWaitList =
    (↑((reached m h.event h.place).map (listenerData h.event)) : Multiset (SHandleOneListenerData F D))
  returns : (↑(called h.log) : Multiset (SHandleOneListenerData F D)) =
    ↑(returned h.log) + (waiting .calling h.threadWaitList + ↑(direct h.event h.place))
  few : h.threadWaitList.length ≤ (reached m h.event h.place).length
  ended : ∀ k data status, h.threadWaitList[k]? = some (data, status) → Joined k h.place → status = .ended
  closed : ∃ before, h.log = before ++ closing h.event h.place ∧ ∀ happening ∈ before, OfListener happening

theorem called_append (log more : List (Happening F D G)) : called (log ++ more) = called log ++ called more :=
  List.filterMap_append ..

theorem returned_append (log more : List (Happening F D G)) : returned (log ++ more) = returned log ++ returned more :=
  List.filterMap_append ..

theorem called_call (log : List (Happening F D G)) (data : SHandleOneListenerData F D) :
    called (log ++ [.called data]) = called log ++ [data] := called_append ..

theorem called_return (log : List (Happening F D G)) (data : SHandleOneListenerData F D) :
    called (log ++ [.returned data]) = called log := (called_append ..).trans (List.append_nil _)

theorem returned_call (log : List (Happening F D G)) (data : SHandleOneListenerData F D) :
    returned (log ++ [.called data]) = returned log := (returned_append ..).trans (List.append_nil _)

theorem returned_return (log : List (Happening F D G)) (data : SHandleOneListenerData F D) :
    returned (log ++ [.returned data]) = returned log ++ [data] := returned_append ..

theorem waiting_one (at_ : ThreadAt) (data : SHandleOneListenerData F D) (status : ThreadAt) :
    waiting at_ [(data, status)] = if status = at_ then {data} else 0 := by
  by_cases same : status = at_ <;> simp [waiting, same]

theorem waiting_append (at_ : ThreadAt) (threads more : List (SHandleOneListenerData F D × ThreadAt)) :
    waiting at_ (threads ++ more) = waiting at_ threads + waiting at_ more := by
  rw [waiting, waiting, waiting, List.filter_append, List.map_append, Multiset.coe_add]

/-- A list with another element in the place of one. -/
theorem set_perm {α : Type} {l : List α} {k : Nat} {a : α} (there : l[k]? = some a) (b : α) :
    (a :: l.set k b).Perm (b :: l) := by
  obtain ⟨inside, rfl⟩ := List.getElem?_eq_some_iff.mp there
  have out := (List.set_perm_cons_eraseIdx inside b).cons l[k]
  exact out.trans ((List.Perm.swap ..).trans ((List.getElem_cons_eraseIdx_perm inside).cons b))

/-- A thread that goes on leaves the place it was at. -/
theorem waiting_set {threads : List (SHandleOneListenerData F D × ThreadAt)} {k : Nat}
    {thread : SHandleOneListenerData F D × ThreadAt} (there : threads[k]? = some thread) (at_ : ThreadAt)
    (next : SHandleOneListenerData F D × ThreadAt) :
    waiting at_ [thread] + waiting at_ (threads.set k next) = waiting at_ [next] + waiting at_ threads := by
  rw [← waiting_append, ← waiting_append]
  exact Multiset.coe_eq_coe.mpr (((set_perm there next).filter _).map Prod.fst)

/-- A thread that begins its call, and one that ends it. -/
theorem waiting_begins {threads : List (SHandleOneListenerData F D × ThreadAt)} {k : Nat} {data : SHandleOneListenerData F D}
    (there : threads[k]? = some (data, .created)) :
    {data} + waiting .created (threads.set k (data, .calling)) = waiting .created threads ∧
      waiting .calling (threads.set k (data, .calling)) = {data} + waiting .calling threads := by
  have created := waiting_set there .created (data, .calling)
  have calling := waiting_set there .calling (data, .calling)
  rw [waiting_one, waiting_one, if_pos rfl, if_neg (by decide), zero_add] at created
  rw [waiting_one, waiting_one, if_neg (by decide), if_pos rfl, zero_add] at calling
  exact ⟨created, calling⟩

theorem waiting_ends {threads : List (SHandleOneListenerData F D × ThreadAt)} {k : Nat} {data : SHandleOneListenerData F D}
    (there : threads[k]? = some (data, .calling)) :
    waiting .created (threads.set k (data, .ended)) = waiting .created threads ∧
      {data} + waiting .calling (threads.set k (data, .ended)) = waiting .calling threads := by
  have created := waiting_set there .created (data, .ended)
  have calling := waiting_set there .calling (data, .ended)
  rw [waiting_one, waiting_one, if_neg (by decide), if_neg (by decide), zero_add, zero_add] at created
  rw [waiting_one, waiting_one, if_pos rfl, if_neg (by decide), zero_add] at calling
  exact ⟨created, calling⟩

/-- The slot behind those that were seen. -/
theorem reached_next {m : Manager F D} {event : SEvent D G} {listenerList : SListenerList} {i : Nat}
    {slot : Option (SListenerEntry F D)} (found : listFor m event.key = some listenerList)
    (slotIs : (m.listenerEntryList listenerList.address)[i]? = some slot) :
    occupants ((slotsFor m event).take (i + 1)) = occupants ((slotsFor m event).take i) ++ slot.toList := by
  rw [slotsFor, found]
  dsimp only
  rw [List.take_add_one, slotIs, occupants, List.filterMap_append]
  cases slot <;> rfl

section
variable {m : Manager F D} {h h₁ : Handling F D G}

/-- A step that only changes the place. -/
private theorem Inv.moved (inv : Inv m h) {old place : Place F D} (at_ : h.place = old) (located : Located m h.event place)
    (same : reached m h.event place = reached m h.event old) (waits : direct h.event place = direct h.event old)
    (closes : closing h.event place = closing h.event old)
    (joined : ∀ k data status, h.threadWaitList[k]? = some (data, status) → Joined k place → status = .ended) :
    Inv m { h with place := place } where
  located := located
  invoked := inv.invoked.trans (by rw [at_, same])
  returns := inv.returns.trans (by rw [at_, waits])
  few := by
    dsimp only
    rw [same, ← at_]
    exact inv.few
  ended := joined
  closed := by
    dsimp only
    rw [closes, ← at_]
    exact inv.closed

/-- While nothing is freed, what a listener does is logged behind what listeners did. -/
private theorem Inv.logged (inv : Inv m h) (before : closing h.event h.place = []) {happening : Happening F D G}
    (ofListener : OfListener happening) {place : Place F D} (after : closing h.event place = []) :
    ∃ all, h.log ++ [happening] = all ++ closing h.event place ∧ ∀ happening ∈ all, OfListener happening := by
  obtain ⟨all, logIs, listeners⟩ := inv.closed
  rw [before, List.append_nil] at logIs
  refine ⟨h.log ++ [happening], by rw [after, List.append_nil], fun other member => ?_⟩
  rcases List.mem_append.mp member with old | new
  · exact listeners other (logIs ▸ old)
  · rw [List.mem_singleton.mp new]
    exact ofListener

/-- Nothing is freed while a thread was not waited for. -/
private theorem closing_nil {k : Nat} {place : Place F D} {event : SEvent D G} (running : ¬ Joined k place) :
    closing event place = [] := by
  cases place
  case finishing => exact absurd trivial running
  case freeing => exact absurd trivial running
  case freed => exact absurd trivial running
  case finished => exact absurd trivial running
  all_goals rfl

/-- A thread for a listener begins its call or ends it. -/
private theorem Inv.thread (inv : Inv m h) {k : Nat} {data : SHandleOneListenerData F D} {status next : ThreadAt}
    (there : h.threadWaitList[k]? = some (data, status)) (running : status ≠ .ended) {happening : Happening F D G}
    (ofListener : OfListener happening)
    (invoked : ↑(called (h.log ++ [happening])) + waiting .created (h.threadWaitList.set k (data, next)) =
      (↑(called h.log) + waiting .created h.threadWaitList : Multiset (SHandleOneListenerData F D)))
    (returns : (↑(called (h.log ++ [happening])) : Multiset (SHandleOneListenerData F D)) =
      ↑(returned (h.log ++ [happening])) +
        (waiting .calling (h.threadWaitList.set k (data, next)) + ↑(direct h.event h.place))) :
    Inv m { h with threadWaitList := h.threadWaitList.set k (data, next), log := h.log ++ [happening] } := by
  have unjoined : ¬ Joined k h.place := fun joined => running (inv.ended k data status there joined)
  refine ⟨inv.located, invoked.trans inv.invoked, returns, ?_, ?_, ?_⟩
  · dsimp only
    rw [List.length_set]
    exact inv.few
  · intro j other place thereNow joined
    dsimp only at thereNow joined
    by_cases same : k = j
    · exact absurd (same ▸ joined) unjoined
    · rw [List.getElem?_set_ne same] at thereNow
      exact inv.ended j other place thereNow joined
  · exact inv.logged (closing_nil unjoined) ofListener (closing_nil unjoined)

/-- A step behind the join. -/
private theorem Inv.closes (inv : Inv m h) {old place : Place F D} (at_ : h.place = old) (joined : ∀ k, Joined k old)
    {happening : Happening F D G} (quiet : calledOf happening = none ∧ returnedOf happening = none)
    (located : Located m h.event place) (same : reached m h.event place = reached m h.event old)
    (waits : direct h.event place = direct h.event old) (closes : closing h.event place = closing h.event old ++ [happening]) :
    Inv m { h with log := h.log ++ [happening], place := place } := by
  subst at_
  have calls : called (h.log ++ [happening]) = called h.log := by
    rw [called_append, called, called, List.filterMap_cons_none quiet.1]
    exact List.append_nil _
  have rests : returned (h.log ++ [happening]) = returned h.log := by
    rw [returned_append, returned, returned, List.filterMap_cons_none quiet.2]
    exact List.append_nil _
  refine ⟨located, ?_, ?_, same ▸ inv.few, fun k data status there _ => inv.ended k data status there (joined k), ?_⟩
  · dsimp only
    rw [calls, same]
    exact inv.invoked
  · dsimp only
    rw [calls, rests, waits]
    exact inv.returns
  · obtain ⟨before, logIs, listeners⟩ := inv.closed
    refine ⟨before, ?_, listeners⟩
    dsimp only
    rw [closes, logIs, List.append_assoc]

/-- The loop goes past an entry. -/
private theorem reached_entry {listenerList : SListenerList} {i : Nat} {aListener : SListenerEntry F D}
    (at_ : h.place = .looping listenerList i) (found : listFor m h.event.key = some listenerList)
    (slot : (m.listenerEntryList listenerList.address)[i]? = some (some aListener)) :
    occupants ((slotsFor m h.event).take (i + 1)) = reached m h.event h.place ++ [aListener] := by
  rw [reached_next found slot, reached, at_]
  rfl

/-- The loop makes a thread for an entry, which has still to call. -/
private theorem Inv.forks (inv : Inv m h) {listenerList : SListenerList} {i : Nat} {aListener : SListenerEntry F D}
    (at_ : h.place = .looping listenerList i) (inside : i < llistNoElems)
    (slot : (m.listenerEntryList listenerList.address)[i]? = some (some aListener)) :
    Inv m { h with
      threadWaitList := h.threadWaitList ++ [(listenerData h.event aListener, .created)]
      place := .looping listenerList (i + 1) } := by
  have located := inv.located
  rw [at_] at located
  have further := reached_entry at_ located.1 slot
  refine ⟨⟨located.1, inside⟩, ?_, ?_, ?_, fun _ _ _ _ joined => joined.elim, ?_⟩
  · dsimp only
    rw [reached, seen, further, List.map_append, ← Multiset.coe_add, ← inv.invoked, waiting_append, add_assoc]
    rfl
  · have before := inv.returns
    rw [at_] at before
    dsimp only
    rw [waiting_append, waiting_one, if_neg (by decide), add_zero]
    exact before
  · dsimp only
    rw [reached, seen, further, List.length_append, List.length_append]
    exact Nat.add_le_add_right inv.few 1
  · have before := inv.closed
    rw [at_] at before
    exact before

/-- The loop calls the function of an entry itself, and waits for it. -/
private theorem Inv.calls (inv : Inv m h) {listenerList : SListenerList} {i : Nat} {aListener : SListenerEntry F D}
    (at_ : h.place = .looping listenerList i) (inside : i < llistNoElems)
    (slot : (m.listenerEntryList listenerList.address)[i]? = some (some aListener)) :
    Inv m { h with
      log := h.log ++ [.called (listenerData h.event aListener)]
      place := .calling listenerList i aListener } := by
  have located := inv.located
  rw [at_] at located
  have further := reached_entry at_ located.1 slot
  have open_ : closing h.event h.place = [] := by rw [at_]; rfl
  refine ⟨⟨located.1, inside⟩, ?_, ?_, ?_, fun _ _ _ _ joined => joined.elim, inv.logged open_ (.inl rfl) rfl⟩
  · dsimp only
    rw [reached, seen, further, List.map_append, ← Multiset.coe_add, ← inv.invoked, called_call, ← Multiset.coe_add,
      add_right_comm]
    rfl
  · have before := inv.returns
    rw [at_] at before
    dsimp only
    rw [called_call, returned_call, ← Multiset.coe_add, before, direct_looping, Multiset.coe_nil, add_zero, add_assoc]
    rfl
  · dsimp only
    rw [reached, seen, further, List.length_append]
    exact Nat.le_add_right_of_le inv.few

/-- The function that the loop called returns to it. -/
private theorem Inv.comesBack (inv : Inv m h) {listenerList : SListenerList} {i : Nat} {aListener : SListenerEntry F D}
    (at_ : h.place = .calling listenerList i aListener) :
    Inv m { h with
      log := h.log ++ [.returned (listenerData h.event aListener)]
      place := .looping listenerList (i + 1) } := by
  have located := inv.located
  rw [at_] at located
  have open_ : closing h.event h.place = [] := by rw [at_]; rfl
  refine ⟨located, ?_, ?_, ?_, fun _ _ _ _ joined => joined.elim, inv.logged open_ (.inr rfl) rfl⟩
  · have before := inv.invoked
    rw [at_] at before
    dsimp only
    rw [called_return]
    exact before
  · have before := inv.returns
    rw [at_] at before
    dsimp only
    rw [called_return, returned_return, ← Multiset.coe_add, before, direct_looping, Multiset.coe_nil, add_zero,
      add_assoc, add_comm (waiting _ _)]
    rfl
  · have before := inv.few
    rw [at_] at before
    exact before

/-- Without a list for the event there is no listener, and no thread. -/
private theorem Inv.none_found (inv : Inv m h) (at_ : h.place = .found none) :
    (∀ place, reached m h.event place = []) ∧ h.threadWaitList = [] := by
  have located := inv.located
  rw [at_] at located
  have empty : slotsFor m h.event = [] := by
    rw [slotsFor, ← (located : none = listFor m h.event.key)]
  have nothing : ∀ place, reached m h.event place = [] := by
    intro place
    rw [reached, empty, List.take_nil]
    rfl
  have short := inv.few
  rw [nothing, List.length_nil, Nat.le_zero, List.length_eq_zero_iff] at short
  exact ⟨nothing, short⟩

/-- Every step keeps the balance. -/
theorem inv_moves (inv : Inv m h) (moves : Moves m h h₁) : Inv m h₁ := by
  have located := inv.located
  cases moves with
  | lockTable at_ => exact inv.moved at_ trivial rfl rfl rfl fun _ _ _ _ joined => joined.elim
  | search at_ => exact inv.moved at_ rfl rfl rfl rfl fun _ _ _ _ joined => joined.elim
  | unlockTable at_ =>
    rw [at_] at located
    exact inv.moved at_ located rfl rfl rfl fun _ _ _ _ joined => joined.elim
  | noListeners at_ =>
    obtain ⟨nothing, unthreaded⟩ := inv.none_found at_
    refine inv.moved at_ trivial (by rw [nothing, nothing]) rfl rfl fun k data status there => ?_
    rw [unthreaded] at there
    cases there
  | lockList at_ =>
    rw [at_] at located
    exact inv.moved at_ ⟨(located : _ = _).symm, Nat.zero_le _⟩ rfl rfl rfl fun _ _ _ _ joined => joined.elim
  | hole at_ inside slot =>
    rw [at_] at located
    refine inv.moved at_ ⟨located.1, inside⟩ ?_ rfl rfl fun _ _ _ _ joined => joined.elim
    exact (reached_next located.1 slot).trans (List.append_nil _)
  | fork at_ inside slot => exact inv.forks at_ inside slot
  | call at_ inside slot => exact inv.calls at_ inside slot
  | unlockList at_ outside =>
    rw [at_] at located
    refine inv.moved at_ trivial ?_ rfl rfl fun _ _ _ _ joined => absurd joined (Nat.not_lt_zero _)
    show occupants ((slotsFor m h.event).take llistNoElems) = occupants ((slotsFor m h.event).take _)
    rw [Nat.le_antisymm located.2 (Nat.le_of_not_lt outside)]
    rfl
  | returns at_ => exact inv.comesBack at_
  | join at_ ended =>
    refine inv.moved at_ trivial rfl rfl rfl fun k other status there joined => ?_
    rcases Nat.lt_succ_iff_lt_or_eq.mp joined with before | rfl
    · exact inv.ended k other status there (by rw [at_]; exact before)
    · cases ended.symm.trans there
      rfl
  | joined at_ all =>
    refine inv.moved at_ trivial rfl rfl rfl fun k other status there _ => ?_
    have inside := (List.getElem?_eq_some_iff.mp there).1
    have before := Nat.lt_of_lt_of_le inside (List.getElem?_eq_none_iff.mp all)
    exact inv.ended k other status there (by rw [at_]; exact before)
  | keep at_ none =>
    have nothing : (freeing h.event : List (Happening F D G)) = [] := by rw [freeing, none]
    exact inv.moved at_ trivial rfl rfl nothing fun k other status there _ =>
      inv.ended k other status there (by rw [at_]; trivial)
  | free at_ called =>
    refine inv.closes at_ (fun _ => trivial) ⟨rfl, rfl⟩ (Option.isSome_of_eq_some called) rfl rfl ?_
    show (freeing h.event).take 1 = _
    rw [freeing, called]
    rfl
  | freeReturns at_ =>
    rw [at_] at located
    obtain ⟨freeFunc, called⟩ := Option.isSome_iff_exists.mp located
    refine inv.closes at_ (fun _ => trivial) ⟨rfl, rfl⟩ trivial rfl rfl ?_
    show freeing h.event = (freeing h.event).take 1 ++ _
    rw [freeing, called]
    rfl
  | finish at_ =>
    refine inv.closes at_ (fun _ => trivial) ?_ trivial rfl rfl rfl
    split <;> exact ⟨rfl, rfl⟩
  | begins there =>
    obtain ⟨created, calling⟩ := waiting_begins there
    refine inv.thread there (by decide) (.inl rfl) ?_ ?_
    · rw [called_call, ← Multiset.coe_add, Multiset.coe_singleton, add_assoc, created]
    · rw [called_call, returned_call, ← Multiset.coe_add, Multiset.coe_singleton, inv.returns, calling]
      ac_rfl
  | ends there =>
    obtain ⟨created, calling⟩ := waiting_ends there
    refine inv.thread there (by decide) (.inr rfl) ?_ ?_
    · rw [called_return, created]
    · rw [called_return, returned_return, ← Multiset.coe_add, Multiset.coe_singleton, inv.returns, ← calling]
      ac_rfl

/-- A handling that begins. -/
theorem inv_entered (m : Manager F D) (event : SEvent D G) : Inv m ⟨event, .entered, [], []⟩ where
  located := trivial
  invoked := rfl
  returns := rfl
  few := Nat.zero_le _
  ended _ _ _ there := nomatch there
  closed := ⟨[], rfl, fun _ member => nomatch member⟩

/-- How many steps a thread for a listener has still to take. -/
def threadLeft : SHandleOneListenerData F D × ThreadAt → Nat
  | (_, .created) => 2
  | (_, .calling) => 1
  | (_, .ended) => 0

/-- More steps than the thread of `em_handleOneEvent` has still to take, with those of the threads
    that it has still to create. -/
def placeLeft (threads : Nat) : Place F D → Nat
  | .entered => 5 * llistNoElems + threads + 9
  | .tableLocked => 5 * llistNoElems + threads + 8
  | .searched _ => 5 * llistNoElems + threads + 7
  | .found _ => 5 * llistNoElems + threads + 6
  | .looping _ listnCntr => 5 * (llistNoElems - listnCntr) + threads + 5
  | .calling _ listnCntr _ => 5 * (llistNoElems - listnCntr) + threads + 4
  | .joining listnCntr => threads - listnCntr + 4
  | .finishing => 3
  | .freeing => 2
  | .freed => 1
  | .finished => 0

/-- A bound on the steps that an event has still to take. -/
def work (h : Handling F D G) : Nat := (h.threadWaitList.map threadLeft).sum + placeLeft h.threadWaitList.length h.place

/-- Sums over a list with another element. -/
theorem sum_set {α : Type} (f : α → Nat) {l : List α} {k : Nat} {a : α} (there : l[k]? = some a) (b : α) :
    f a + ((l.set k b).map f).sum = f b + (l.map f).sum := by
  simpa only [List.map_cons, List.sum_cons] using ((set_perm there b).map f).sum_eq

/-- Every step leaves less to do. -/
theorem work_moves (inv : Inv m h) (moves : Moves m h h₁) : work h₁ < work h := by
  have located := inv.located
  cases moves with
  | @begins _ data there =>
    have fewer := sum_set threadLeft there (data, .calling)
    rw [work, work, List.length_set]
    simp only [threadLeft] at fewer
    dsimp only
    omega
  | @ends _ data there =>
    have fewer := sum_set threadLeft there (data, .ended)
    rw [work, work, List.length_set]
    simp only [threadLeft] at fewer
    dsimp only
    omega
  | fork at_ inside slot =>
    simp only [work, at_, placeLeft, List.map_append, List.sum_append, List.length_append, List.map_cons, List.map_nil,
      List.sum_cons, List.sum_nil, threadLeft, List.length_cons, List.length_nil]
    omega
  | returns at_ =>
    rw [at_] at located
    have inside := located.2
    simp only [work, at_, placeLeft]
    omega
  | join at_ ended =>
    have inside := (List.getElem?_eq_some_iff.mp ended).1
    simp only [work, at_, placeLeft]
    omega
  | lockTable at_ | search at_ | unlockTable at_ | noListeners at_ | lockList at_ | hole at_ inside slot
  | call at_ inside slot | unlockList at_ outside | joined at_ all | keep at_ none | free at_ called
  | freeReturns at_ | finish at_ =>
    simp only [work, at_, placeLeft]
    omega

/-- The lists of the table have all their slots. -/
def Slotted (m : Manager F D) : Prop := ∀ key listenerList, listFor m key = some listenerList →
  (m.listenerEntryList listenerList.address).length = llistNoElems

theorem occupants_length_le (slots : List (Option (SListenerEntry F D))) : (occupants slots).length ≤ slots.length :=
  List.length_filterMap_le ..

/-- Where a thread of `em_handleOneEvent` can take a step, whatever the others do. -/
def Runs : Place F D → Prop
  | .entered | .found (some _) | .joining _ | .finished => False
  | _ => True

theorem runs_steps {s : System F D G} (slotted : Slotted s.manager) (inv : Inv s.manager h) (runs : Runs h.place) (t : Nat) :
    ∃ s₁, emHandleOneEvent s t h = some s₁ := by
  have located := inv.located
  have few := inv.few
  unfold emHandleOneEvent
  cases at_ : h.place with
  | looping listenerList i =>
    rw [at_] at located few
    by_cases inside : i < llistNoElems
    · have there : i < (s.manager.listenerEntryList listenerList.address).length := by
        rw [slotted _ _ located.1]
        exact inside
      have room : h.threadWaitList.length < llistNoElems := by
        refine Nat.lt_of_le_of_lt (few.trans (occupants_length_le _)) (Nat.lt_of_le_of_lt ?_ inside)
        exact List.length_take_le ..
      have loops : ∃ h₁, listenerLoop s.manager h listenerList i = some h₁ := by
        rw [listenerLoop, List.getElem?_eq_getElem there]
        cases (s.manager.listenerEntryList listenerList.address)[i] with
        | none => exact ⟨_, rfl⟩
        | some aListener =>
          simp only [Option.bind_eq_bind, Option.bind_some, assert_true room]
          split <;> exact ⟨_, rfl⟩
      obtain ⟨h₁, looped⟩ := loops
      exact ⟨setHandling s t h₁, by simp only [if_pos inside, looped, Option.map_some]⟩
    · simp only [if_neg inside]
      exact ⟨_, rfl⟩
  | found listenerList =>
    cases listenerList with
    | none => exact ⟨_, rfl⟩
    | some listenerList =>
      rw [at_] at runs
      exact runs.elim
  | finishing =>
    simp only [finishedWithEvent, at_]
    split <;> exact ⟨_, rfl⟩
  | freeing =>
    simp only [finishedWithEvent, at_]
    exact ⟨_, rfl⟩
  | freed =>
    simp only [finishedWithEvent, at_]
    exact ⟨_, rfl⟩
  | tableLocked | searched listenerList | calling listenerList i aListener => exact ⟨_, rfl⟩
  | entered | joining i | finished =>
    rw [at_] at runs
    exact runs.elim

/-- What holds of a system. -/
structure Sound (m : Manager F D) (s : System F D G) : Prop where
  manager : s.manager = m
  each : ∀ h ∈ s.handling, Inv m h
  locks : Locks s

theorem sound_idle (m : Manager F D) : Sound m (idle m : System F D G) where
  manager := rfl
  each _ member := nomatch member
  locks := ⟨owned_none, fun _ => owned_none⟩

/-- What a step of a thread does to the bound of a whole system. -/
def left (s : System F D G) : Nat := (s.handling.map work).sum

variable {s s₁ : System F D G} {t : Nat}

theorem sound_moved (sound : Sound m s) (moved : Moved s t h h₁ s₁) : Sound m s₁ ∧ left s₁ < left s := by
  obtain ⟨rfl, each, locks⟩ := sound
  have inv := each h (List.mem_of_getElem? moved.there)
  refine ⟨⟨moved.manager, fun other member => ?_, moved.locks locks⟩, ?_⟩
  · rw [moved.handling] at member
    rcases List.mem_or_eq_of_mem_set member with old | rfl
    · exact each other old
    · exact inv_moves inv moved.moves
  · have sums := sum_set work moved.there h₁
    have less := work_moves inv moved.moves
    rw [left, left, moved.handling]
    omega

theorem sound_step {act : Act D G} (sound : Sound m s) (stepped : step s act = some s₁) : Sound m s₁ := by
  by_cases internal : Internal act
  · obtain ⟨t, h, h₁, moved⟩ := step_moved internal stepped
    exact (sound_moved sound moved).1
  · cases act with
    | handle event =>
      cases stepped
      refine ⟨sound.manager, fun other member => ?_, locks_handle sound.locks event⟩
      rcases List.mem_append.mp member with old | new
      · exact sound.each other old
      · rw [List.mem_singleton.mp new]
        exact inv_entered m event
    | go t => exact absurd trivial internal
    | listener t k => exact absurd trivial internal

/-- Without a new event, there are only so many steps. -/
theorem bounded_run {acts : List (Act D G)} (sound : Sound m s) (internal : ∀ act ∈ acts, Internal act)
    (ran : run step s acts = some s₁) : acts.length ≤ left s := by
  induction acts generalizing s with
  | nil => exact Nat.zero_le _
  | cons act rest ih =>
    obtain ⟨next, stepped, remaining⟩ := run_cons.mp ran
    obtain ⟨t, h, h₁, moved⟩ := step_moved (internal act List.mem_cons_self) stepped
    obtain ⟨kept, less⟩ := sound_moved sound moved
    have fewer := ih kept (fun other member => internal other (List.mem_cons_of_mem act member)) remaining
    rw [List.length_cons]
    omega

/-- A thread that has a lock can go on. -/
private theorem owner_goes (slotted : Slotted m) (sound : Sound m s) {holds : Place F D → Prop} {lock : Option Nat}
    (owned : Owned lock holds s.handling) (runs : ∀ place, holds place → Runs place) (taken : lock ≠ none) :
    ∃ act s₁, Internal act ∧ step s act = some s₁ := by
  obtain ⟨u, taken⟩ := Option.ne_none_iff_exists'.mp taken
  obtain ⟨holder, there, here⟩ := owned u taken
  obtain ⟨rfl, each, -⟩ := sound
  obtain ⟨s₁, went⟩ := runs_steps slotted (each holder (List.mem_of_getElem? there)) (runs _ here) u
  exact ⟨.go u, s₁, trivial, Option.bind_eq_some_iff.mpr ⟨holder, there, went⟩⟩

/-- While an event is not finished, some thread can take a step. -/
theorem some_step (slotted : Slotted m) (sound : Sound m s) (there : s.handling[t]? = some h)
    (unfinished : h.place ≠ .finished) : ∃ act s₁, Internal act ∧ step s act = some s₁ := by
  have goes : (∃ s₁, emHandleOneEvent s t h = some s₁) → ∃ act s₁, Internal act ∧ step s act = some s₁ :=
    fun ⟨s₁, went⟩ => ⟨.go t, s₁, trivial, Option.bind_eq_some_iff.mpr ⟨h, there, went⟩⟩
  by_cases runs : Runs h.place
  · obtain ⟨rfl, each, -⟩ := sound
    exact goes (runs_steps slotted (each h (List.mem_of_getElem? there)) runs t)
  · cases at_ : h.place with
    | entered =>
      by_cases free : s.listenersHashTableLock = none
      · refine goes ?_
        simp only [emHandleOneEvent, at_, assert_true free, Option.bind_eq_bind, Option.bind_some]
        exact ⟨_, rfl⟩
      · refine owner_goes slotted sound sound.locks.table (fun place holds => ?_) free
        cases place <;> first | exact holds.elim | trivial
    | found listenerList =>
      cases listenerList with
      | none =>
        rw [at_] at runs
        exact absurd trivial runs
      | some listenerList =>
        by_cases free : s.listenerListLock listenerList.address = none
        · refine goes ?_
          simp only [emHandleOneEvent, at_, assert_true free, Option.bind_eq_bind, Option.bind_some]
          exact ⟨_, rfl⟩
        · refine owner_goes slotted sound (sound.locks.list listenerList.address) (fun place holds => ?_) free
          cases place <;> first | exact holds.elim | trivial
    | joining i =>
      cases threadIs : h.threadWaitList[i]? with
      | none =>
        refine goes ?_
        simp only [emHandleOneEvent, at_, threadIs]
        exact ⟨_, rfl⟩
      | some thread =>
        obtain ⟨data, status⟩ := thread
        by_cases ended : status = .ended
        · refine goes ?_
          simp only [emHandleOneEvent, at_, threadIs, assert_true ended, Option.bind_eq_bind, Option.bind_some]
          exact ⟨_, rfl⟩
        · have works : ∃ h₁, emHandleOneListenerHandlerFunc h i = some h₁ := by
            rw [emHandleOneListenerHandlerFunc, threadIs]
            cases status with
            | created => exact ⟨_, rfl⟩
            | calling => exact ⟨_, rfl⟩
            | ended => exact absurd rfl ended
          obtain ⟨h₁, went⟩ := works
          refine ⟨.listener t i, setHandling s t h₁, trivial, Option.bind_eq_some_iff.mpr ⟨h, there, ?_⟩⟩
          rw [went, Option.map_some]
    | finished => exact absurd at_ unfinished
    | tableLocked | searched listenerList | looping listenerList i | calling listenerList i aListener | finishing | freeing
    | freed =>
      rw [at_] at runs
      exact absurd trivial runs

/-- No thread for a listener is under way at the end. -/
private theorem waiting_none
    (ended : ∀ (k : Nat) data (status : ThreadAt), h.threadWaitList[k]? = some (data, status) → status = .ended) {at_ : ThreadAt}
    (differs : at_ ≠ .ended) : waiting at_ h.threadWaitList = 0 := by
  have nothing : h.threadWaitList.filter (·.2 = at_) = [] := by
    rw [List.filter_eq_nil_iff]
    rintro ⟨data, status⟩ member
    obtain ⟨k, there⟩ := List.mem_iff_getElem?.mp member
    rw [decide_eq_true_eq, ended k data status there]
    exact Ne.symm differs
  rw [waiting, nothing]
  rfl

/-- What frees an event is not done by a listener. -/
private theorem quiet_ending (event : SEvent D G) {happening : Happening F D G}
    (member : happening ∈ freeing event ++ [ending event]) : ¬ OfListener happening := by
  rcases List.mem_append.mp member with free | last
  · rw [freeing] at free
    split at free
    · cases free
    · rcases List.mem_cons.mp free with rfl | free
      · simp [OfListener, calledOf, returnedOf]
      · rw [List.mem_singleton.mp free]
        simp [OfListener, calledOf, returnedOf]
  · rw [List.mem_singleton.mp last, ending]
    split <;> simp [OfListener, calledOf, returnedOf]

/-- What was called are listeners that the loop came to. -/
private theorem called_reached (inv : Inv m h) :
    (↑((called h.log).map invoker) : Multiset (F × D)) ≤ ↑((reached m h.event h.place).map SListenerEntry.keys) := by
  have part : (↑(called h.log) : Multiset (SHandleOneListenerData F D)) ≤
      ↑((reached m h.event h.place).map (listenerData h.event)) := by
    rw [← inv.invoked]
    exact Multiset.le_add_right _ _
  have mapped := Multiset.map_le_map part (f := invoker)
  rwa [Multiset.map_coe, Multiset.map_coe, List.map_map] at mapped

variable [DecidableEq F] [DecidableEq D] {l : Ledger F D}

/-- The slots for an event hold the registered listeners. -/
theorem slotsFor_listeners (refines : Refines m l) (event : SEvent D G) :
    (slotsFor m event).length ≤ llistNoElems ∧ listeners (slotsFor m event) = l.standing event.key := by
  rw [slotsFor]
  cases found : listFor m event.key with
  | none => exact ⟨Nat.zero_le _, (standing_zero (refines.unlisted event.key found)).symm⟩
  | some listenerList =>
    obtain ⟨long, holds⟩ := refines.held event.key listenerList found
    exact ⟨Nat.le_of_eq long, holds⟩

theorem inv_served (refines : Refines m l) (inv : Inv m h) : Served l h where
  own data member := by
    have present : data ∈ (↑((reached m h.event h.place).map (listenerData h.event)) : Multiset _) := by
      rw [← inv.invoked]
      exact Multiset.mem_add.mpr (.inl member)
    obtain ⟨aListener, -, rfl⟩ := List.mem_map.mp present
    exact ⟨rfl, rfl, rfl⟩
  most listener := by
    obtain ⟨-, holds⟩ := slotsFor_listeners refines h.event
    rw [← Multiset.count_sub, ← Ledger.standing, ← holds]
    refine Multiset.count_le_of_le listener ((called_reached inv).trans ?_)
    exact (((List.take_sublist _ _).filterMap id).map SListenerEntry.keys).subperm
  exact finished := by
    obtain ⟨short, holds⟩ := slotsFor_listeners refines h.event
    obtain ⟨before, logIs, ofListener⟩ := inv.closed
    have invoked := inv.invoked
    have returns := inv.returns
    have ended : ∀ (k : Nat) data (status : ThreadAt), h.threadWaitList[k]? = some (data, status) → status = .ended :=
      fun k data status there => inv.ended k data status there (by rw [finished]; trivial)
    rw [finished] at logIs invoked returns
    have calls : called h.log = called before := by
      rw [logIs, called_append]
      refine (congrArg (called before ++ ·) (List.filterMap_eq_nil_iff.mpr fun happening member => ?_)).trans
        (List.append_nil _)
      exact Option.not_isSome_iff_eq_none.mp fun some => quiet_ending h.event member (.inl some)
    have rests : returned h.log = returned before := by
      rw [logIs, returned_append]
      refine (congrArg (returned before ++ ·) (List.filterMap_eq_nil_iff.mpr fun happening member => ?_)).trans
        (List.append_nil _)
      exact Option.not_isSome_iff_eq_none.mp fun some => quiet_ending h.event member (.inr some)
    have created : waiting .created h.threadWaitList = 0 := waiting_none ended (by decide)
    have calling : waiting .calling h.threadWaitList = 0 := waiting_none ended (by decide)
    rw [calls, created, add_zero] at invoked
    rw [calls, rests, calling, zero_add] at returns
    refine ⟨before, logIs, ofListener, ?_, fun listener => ?_⟩
    · exact (Multiset.coe_eq_coe.mp (returns.trans (add_zero _))).symm
    · have all := congrArg (Multiset.map invoker) invoked
      rw [Multiset.map_coe, Multiset.map_coe, List.map_map] at all
      have every : reached m h.event .finished = occupants (slotsFor m h.event) :=
        congrArg occupants (List.take_of_length_le short)
      rw [every] at all
      rw [← Multiset.count_sub, ← Ledger.standing, ← holds, all]
      rfl

end

end

/-- A listener is added twice and removed once, and its slot is used again. -/
def readded : List (Call Nat Nat) :=
  [.addListener (1, 7) 0 0 true, .addListener (1, 7) 0 0 false, .removeListener (1, 7) 0 0, .addListener (1, 7) 2 3 false]

end VoxiUtil.EventDispatch
