import Mathlib.Data.Multiset.AddSub
import VoxiUtil.HashSet

/-!
The listeners of `event.c`. Each pair of a source and an event type has a list of slots, which
is found through the hash table; a slot that is removed leaves a hole for the next listener.
A call is made when no other is under way, so its locks are free. `Refines` couples the lists
with the calls that were made.
-/
namespace VoxiUtil.EventListeners
open VoxiUtil.Hash VoxiUtil.HashSet VoxiUtil.Runs

/-- `LLIST_NO_ELEMS`. -/
def llistNoElems : Nat := 50

/-- `sListenerEntry`. -/
structure SListenerEntry (F D : Type) where
  handlerFunc : F
  handlerData : D
  makeNewThread : Bool
deriving DecidableEq

/-- `sListenerList` by its keys and its block; its slots are kept with the block. -/
structure SListenerList where
  source : UInt64
  eventType : Int32
  address : Nat
deriving DecidableEq

/-- The pointer is cut off to an `int`. -/
def calcHashCode (aList : SListenerList) : Int32 := aList.source.toUInt32.toInt32 ^^^ aList.eventType

def compHashEntrys (list1 list2 : SListenerList) : Int32 :=
  if list1.source = list2.source ∧ list1.eventType = list2.eventType then 0 else 4711

def listenersFuncs : Funcs SListenerList where
  size := 1024
  sized := by decide
  calcIndx := calcHashCode
  compData := compHashEntrys
  destrData := true

/-- `findTemplate`, by which the list of a source and a type is looked for. -/
def findTemplate (source : UInt64) (eventType : Int32) : SListenerList := ⟨source, eventType, 0⟩

/-- The data of `event.c` for its listeners: the table, the slots of the lists by block, and how
    many blocks were allocated. A slot is `none` where it is `NULL`. -/
structure Manager (F D : Type) where
  listenersHashTable : Hasht listenersFuncs
  listenerEntryList : Nat → List (Option (SListenerEntry F D))
  allocated : Nat

section
variable {F D : Type}

/-- Behind `em_startup`. -/
def emStartup : Manager F D := ⟨hashCreateTable listenersFuncs, fun _ => [], 0⟩

/-- The list of a source and a type, a new one where there was none. -/
def findOrCreate (m : Manager F D) (source : UInt64) (eventType : Int32) : Option (Manager F D × SListenerList) :=
  match hashFind m.listenersHashTable (findTemplate source eventType) with
  | some listenerList => some (m, listenerList)
  | none => do
    let listenerList := ⟨source, eventType, m.allocated⟩
    let added := hashAdd m.listenersHashTable listenerList (some (m.allocated + 1))
    assert (added.2 ≠ 0)
    some (⟨added.1, Function.update m.listenerEntryList m.allocated (List.replicate llistNoElems none), m.allocated + 2⟩,
      listenerList)

/-- The loop over the slots that takes the first empty one; the assertion fails where there is
    none. -/
def putEntry (entry : SListenerEntry F D) :
    List (Option (SListenerEntry F D)) → Option (List (Option (SListenerEntry F D)))
  | [] => none
  | none :: rest => some (some entry :: rest)
  | some other :: rest => (putEntry entry rest).map (some other :: ·)

def emAddListener (m : Manager F D) (source : UInt64) (eventType : Int32) (handlerFunc : F) (handlerData : D)
    (makeNewThread : Bool) : Option (Manager F D) := do
  let (m, listenerList) ← findOrCreate m source eventType
  let slots ← putEntry ⟨handlerFunc, handlerData, makeNewThread⟩ (m.listenerEntryList listenerList.address)
  some { m with listenerEntryList := Function.update m.listenerEntryList listenerList.address slots }

/-- What a slot holds, by the keys of its entry. -/
def SListenerEntry.keys (entry : SListenerEntry F D) : F × D := (entry.handlerFunc, entry.handlerData)

/-- The entries of a list in the order of their slots. -/
def occupants (slots : List (Option (SListenerEntry F D))) : List (SListenerEntry F D) := slots.filterMap id

/-- The listeners of a list, with the holes left out. -/
def listeners (slots : List (Option (SListenerEntry F D))) : Multiset (F × D) :=
  (occupants slots).map SListenerEntry.keys

theorem comp_iff (a b : SListenerList) :
    listenersFuncs.compData a b = 0 ↔ a.source = b.source ∧ a.eventType = b.eventType := by
  show (if a.source = b.source ∧ a.eventType = b.eventType then (0 : Int32) else 4711) = 0 ↔ _
  by_cases same : a.source = b.source ∧ a.eventType = b.eventType
  · rw [if_pos same]
    exact iff_of_true rfl same
  · rw [if_neg same]
    exact iff_of_false (by decide) same

theorem lawful_lists : Lawful listenersFuncs where
  refl a := (comp_iff a a).mpr ⟨rfl, rfl⟩
  symm a b same := by
    obtain ⟨sources, types⟩ := (comp_iff a b).mp same
    exact (comp_iff b a).mpr ⟨sources.symm, types.symm⟩
  trans a b c first second := by
    obtain ⟨sources, types⟩ := (comp_iff a b).mp first
    obtain ⟨others, kinds⟩ := (comp_iff b c).mp second
    exact (comp_iff a c).mpr ⟨sources.trans others, types.trans kinds⟩
  hash a b same := by
    obtain ⟨sources, types⟩ := (comp_iff a b).mp same
    show calcHashCode a = calcHashCode b
    rw [calcHashCode, calcHashCode, sources, types]

/-- The list that the table has for a source and a type. -/
def listFor (m : Manager F D) (key : UInt64 × Int32) : Option SListenerList :=
  hashFind m.listenersHashTable (findTemplate key.1 key.2)

@[simp] theorem listeners_nil : listeners ([] : List (Option (SListenerEntry F D))) = 0 := rfl

@[simp] theorem listeners_hole (rest : List (Option (SListenerEntry F D))) : listeners (none :: rest) = listeners rest := rfl

@[simp] theorem listeners_entry (entry : SListenerEntry F D) (rest : List (Option (SListenerEntry F D))) :
    listeners (some entry :: rest) = entry.keys ::ₘ listeners rest := rfl

@[simp] theorem listeners_holes (n : Nat) :
    listeners (List.replicate n (none : Option (SListenerEntry F D))) = 0 := by
  induction n with
  | zero => rfl
  | succ n ih => exact ih

/-- With a hole in the list, the entry gets a slot. -/
theorem putEntry_room (entry : SListenerEntry F D) {slots : List (Option (SListenerEntry F D))}
    (room : (listeners slots).card < slots.length) :
    ∃ after, putEntry entry slots = some after ∧ after.length = slots.length ∧
      listeners after = entry.keys ::ₘ listeners slots := by
  induction slots with
  | nil => exact absurd room (Nat.lt_irrefl 0)
  | cons slot rest ih =>
    cases slot with
    | none => exact ⟨some entry :: rest, rfl, rfl, rfl⟩
    | some other =>
      rw [listeners_entry, Multiset.card_cons, List.length_cons] at room
      obtain ⟨after, put, long, all⟩ := ih (Nat.lt_of_succ_lt_succ room)
      refine ⟨some other :: after, ?_, ?_, ?_⟩
      · rw [putEntry, put, Option.map_some]
      · rw [List.length_cons, List.length_cons, long]
      · rw [listeners_entry, listeners_entry, all, Multiset.cons_swap]

theorem listFor_iff {m : Manager F D} (stands : Stands lawful_lists m.listenersHashTable) {key : UInt64 × Int32}
    {listenerList : SListenerList} :
    listFor m key = some listenerList ↔
      listenerList ∈ entries m.listenersHashTable ∧ listenerList.source = key.1 ∧ listenerList.eventType = key.2 := by
  rw [listFor, hashFind_iff stands, comp_iff]
  rfl

/-- A list is found under the source and the type that it was made for. -/
theorem made_keyed (key other : UInt64 × Int32) (address : Nat) :
    listenersFuncs.compData ⟨key.1, key.2, address⟩ (findTemplate other.1 other.2) = 0 ↔ other = key := by
  rw [comp_iff]
  exact ⟨fun same => Prod.ext same.1.symm same.2.symm, fun same => same ▸ ⟨rfl, rfl⟩⟩

/-- The table gets a list for a source and a type that had none, and finds the others as before. -/
theorem listFor_made {m : Manager F D} (stands : Stands lawful_lists m.listenersHashTable) {key : UInt64 × Int32}
    (absent : listFor m key = none) (address newInfo : Nat) :
    ∃ table, hashAdd m.listenersHashTable ⟨key.1, key.2, address⟩ (some newInfo) = (table, 1) ∧ Stands lawful_lists table ∧
      (entries table).Perm (⟨key.1, key.2, address⟩ :: entries m.listenersHashTable) ∧
      ∀ other : UInt64 × Int32, hashFind table (findTemplate other.1 other.2) =
        (listFor m other).or (if other = key then some ⟨key.1, key.2, address⟩ else none) := by
  have unheld : hashFind m.listenersHashTable ⟨key.1, key.2, address⟩ = none := by
    rw [listFor] at absent
    rw [hashFind_none stands] at absent ⊢
    intro e member same
    exact absent e member (lawful_lists.trans _ _ _ same ((made_keyed key key address).mpr rfl))
  obtain ⟨table, added, kept, all⟩ := hashAdd_new stands unheld newInfo
  refine ⟨table, added, kept, all, fun other => ?_⟩
  have result := (hashFind_added stands ⟨key.1, key.2, address⟩ (findTemplate other.1 other.2) newInfo).2
  rw [added] at result
  simp only [made_keyed] at result
  exact result

variable [DecidableEq F] [DecidableEq D]

/-- The loop over the slots that empties the first one with the two keys, and the entry that it
    freed. -/
def dropEntry (handlerFunc : F) (handlerData : D) :
    List (Option (SListenerEntry F D)) → List (Option (SListenerEntry F D)) × Option (SListenerEntry F D)
  | [] => ([], none)
  | none :: rest =>
    let dropped := dropEntry handlerFunc handlerData rest
    (none :: dropped.1, dropped.2)
  | some entry :: rest =>
    if entry.handlerFunc = handlerFunc ∧ entry.handlerData = handlerData then (none :: rest, some entry)
    else
      let dropped := dropEntry handlerFunc handlerData rest
      (some entry :: dropped.1, dropped.2)

/-- The call, with the entry that it freed. -/
def emRemoveListener (m : Manager F D) (source : UInt64) (eventType : Int32) (handlerFunc : F) (handlerData : D) :
    Option (Manager F D × Option (SListenerEntry F D)) := do
  let listenerList ← hashFind m.listenersHashTable (findTemplate source eventType)
  let dropped := dropEntry handlerFunc handlerData (m.listenerEntryList listenerList.address)
  some ({ m with listenerEntryList := Function.update m.listenerEntryList listenerList.address dropped.1 }, dropped.2)

/-- A call, with the source and the type that it is for. -/
inductive Call (F D : Type)
  | addListener (key : UInt64 × Int32) (handlerFunc : F) (handlerData : D) (makeNewThread : Bool)
  | removeListener (key : UInt64 × Int32) (handlerFunc : F) (handlerData : D)

def step (m : Manager F D) : Call F D → Option (Manager F D)
  | .addListener key handlerFunc handlerData makeNewThread =>
    emAddListener m key.1 key.2 handlerFunc handlerData makeNewThread
  | .removeListener key handlerFunc handlerData => (emRemoveListener m key.1 key.2 handlerFunc handlerData).map Prod.fst

/-- How often each listener was added and successfully removed, by the calls alone. -/
structure Ledger (F D : Type) where
  added : UInt64 × Int32 → Multiset (F × D)
  removed : UInt64 × Int32 → Multiset (F × D)

def Ledger.empty : Ledger F D := ⟨fun _ => 0, fun _ => 0⟩

/-- The listeners that are registered. -/
def Ledger.standing (l : Ledger F D) (key : UInt64 × Int32) : Multiset (F × D) := l.added key - l.removed key

/-- A removal is successful when the listener is registered. -/
def Ledger.step (l : Ledger F D) : Call F D → Ledger F D
  | .addListener key handlerFunc handlerData _ =>
    { l with added := Function.update l.added key ((handlerFunc, handlerData) ::ₘ l.added key) }
  | .removeListener key handlerFunc handlerData =>
    if (handlerFunc, handlerData) ∈ l.standing key then
      { l with removed := Function.update l.removed key ((handlerFunc, handlerData) ::ₘ l.removed key) }
    else l

/-- Additions while there is room, and removals for a source and a type that were added to. -/
def Ledger.Allows (l : Ledger F D) : Call F D → Prop
  | .addListener key _ _ _ => (l.standing key).card < llistNoElems
  | .removeListener key _ _ => l.added key ≠ 0

instance (l : Ledger F D) : (call : Call F D) → Decidable (l.Allows call)
  | .addListener key _ _ _ => inferInstanceAs (Decidable ((l.standing key).card < llistNoElems))
  | .removeListener key _ _ => inferInstanceAs (Decidable (l.added key ≠ 0))

/-- Every call is allowed by those in front of it. -/
def Ledger.Permits (l : Ledger F D) : List (Call F D) → Prop
  | [] => True
  | call :: rest => l.Allows call ∧ (l.step call).Permits rest

instance (l : Ledger F D) : (calls : List (Call F D)) → Decidable (l.Permits calls)
  | [] => .isTrue trivial
  | call :: rest =>
    have := instDecidablePermits (l.step call) rest
    inferInstanceAs (Decidable (l.Allows call ∧ (l.step call).Permits rest))

/-- The table stands for the calls: there is a list with the registered listeners for every
    source and type that was added to, each in a block of its own. -/
structure Refines (m : Manager F D) (l : Ledger F D) : Prop where
  stands : Stands lawful_lists m.listenersHashTable
  apart : ∀ a ∈ entries m.listenersHashTable, ∀ b ∈ entries m.listenersHashTable, a.address = b.address → a = b
  old : ∀ a ∈ entries m.listenersHashTable, a.address < m.allocated
  unlisted : ∀ key, listFor m key = none → l.added key = 0
  removable : ∀ key, l.removed key ≤ l.added key
  held : ∀ key listenerList, listFor m key = some listenerList →
    (m.listenerEntryList listenerList.address).length = llistNoElems ∧
      listeners (m.listenerEntryList listenerList.address) = l.standing key

/-- The source and the type that a call is for. -/
def Call.key : Call F D → UInt64 × Int32
  | .addListener key _ _ _ => key
  | .removeListener key _ _ => key

section
variable {l : Ledger F D} {key : UInt64 × Int32} {handlerFunc : F} {handlerData : D} {makeNewThread : Bool}

/-- A call is only for its own source and type. -/
theorem step_other (call : Call F D) {other : UInt64 × Int32} (differs : other ≠ call.key) :
    (l.step call).added other = l.added other ∧ (l.step call).removed other = l.removed other := by
  cases call with
  | addListener key handlerFunc handlerData makeNewThread => exact ⟨Function.update_of_ne differs _ _, rfl⟩
  | removeListener key handlerFunc handlerData =>
    rw [Ledger.step]
    by_cases registered : (handlerFunc, handlerData) ∈ l.standing key
    · rw [if_pos registered]
      exact ⟨rfl, Function.update_of_ne differs _ _⟩
    · rw [if_neg registered]
      exact ⟨rfl, rfl⟩

theorem standing_other (call : Call F D) {other : UInt64 × Int32} (differs : other ≠ call.key) :
    (l.step call).standing other = l.standing other := by
  obtain ⟨added, removed⟩ := step_other (l := l) call differs
  rw [Ledger.standing, added, removed, Ledger.standing]

theorem standing_zero (none : l.added key = 0) : l.standing key = 0 := by
  rw [Ledger.standing, none, Multiset.zero_sub]

theorem standing_add (removable : l.removed key ≤ l.added key) :
    (l.step (.addListener key handlerFunc handlerData makeNewThread)).standing key =
      (handlerFunc, handlerData) ::ₘ l.standing key := by
  rw [Ledger.standing, Ledger.standing, Ledger.step]
  dsimp only
  rw [Function.update_self]
  exact Multiset.cons_sub_of_le _ removable

theorem standing_remove : (l.step (.removeListener key handlerFunc handlerData)).standing key =
    (l.standing key).erase (handlerFunc, handlerData) := by
  rw [Ledger.step]
  by_cases registered : (handlerFunc, handlerData) ∈ l.standing key
  · rw [if_pos registered, Ledger.standing, Ledger.standing]
    dsimp only
    rw [Function.update_self, ← Multiset.sub_singleton, ← Multiset.singleton_add, Multiset.add_comm,
      ← Multiset.sub_add_eq_sub_sub]
  · rw [if_neg registered, Multiset.erase_of_notMem registered]

/-- No listener is removed more often than it was added. -/
theorem step_removable (removable : ∀ key, l.removed key ≤ l.added key) (call : Call F D) (other : UInt64 × Int32) :
    (l.step call).removed other ≤ (l.step call).added other := by
  by_cases same : other = call.key
  · subst same
    cases call with
    | addListener key handlerFunc handlerData makeNewThread =>
      rw [Ledger.step, Call.key]
      dsimp only
      rw [Function.update_self]
      exact (removable key).trans (Multiset.le_cons_self _ _)
    | removeListener key handlerFunc handlerData =>
      rw [Ledger.step, Call.key]
      by_cases registered : (handlerFunc, handlerData) ∈ l.standing key
      · rw [if_pos registered]
        dsimp only
        have one : {(handlerFunc, handlerData)} ≤ l.added key - l.removed key := Multiset.singleton_le.mpr registered
        rw [Function.update_self, ← Multiset.sub_add_cancel (removable key), ← Multiset.singleton_add]
        exact Multiset.add_le_add_iff_right.mpr one
      · rw [if_neg registered]
        exact removable key
  · obtain ⟨added, removed⟩ := step_other (l := l) call same
    rw [added, removed]
    exact removable other

end

theorem dropEntry_length (handlerFunc : F) (handlerData : D) (slots : List (Option (SListenerEntry F D))) :
    (dropEntry handlerFunc handlerData slots).1.length = slots.length := by
  induction slots with
  | nil => rfl
  | cons slot rest ih =>
    cases slot with
    | none => exact congrArg Nat.succ ih
    | some entry =>
      rw [dropEntry]
      by_cases same : entry.handlerFunc = handlerFunc ∧ entry.handlerData = handlerData
      · rw [if_pos same]
        rfl
      · rw [if_neg same]
        exact congrArg Nat.succ ih

/-- A removal takes one listener with the keys off the list. -/
theorem dropEntry_listeners (handlerFunc : F) (handlerData : D) (slots : List (Option (SListenerEntry F D))) :
    listeners (dropEntry handlerFunc handlerData slots).1 = (listeners slots).erase (handlerFunc, handlerData) := by
  induction slots with
  | nil => rfl
  | cons slot rest ih =>
    cases slot with
    | none => exact ih
    | some entry =>
      rw [dropEntry, listeners_entry]
      by_cases same : entry.handlerFunc = handlerFunc ∧ entry.handlerData = handlerData
      · have keys : entry.keys = (handlerFunc, handlerData) := Prod.ext same.1 same.2
        rw [if_pos same, listeners_hole, keys, Multiset.erase_cons_head]
      · have keys : entry.keys ≠ (handlerFunc, handlerData) := fun equal =>
          same ⟨congrArg Prod.fst equal, congrArg Prod.snd equal⟩
        rw [if_neg same, listeners_entry, ih, Multiset.erase_cons_tail _ keys]

/-- The freed entry has the keys of the call, and there is one when such a listener is on the
    list. -/
theorem dropEntry_frees (handlerFunc : F) (handlerData : D) (slots : List (Option (SListenerEntry F D))) :
    (dropEntry handlerFunc handlerData slots).2.map SListenerEntry.keys =
      if (handlerFunc, handlerData) ∈ listeners slots then some (handlerFunc, handlerData) else none := by
  induction slots with
  | nil => rfl
  | cons slot rest ih =>
    cases slot with
    | none => exact ih
    | some entry =>
      rw [dropEntry, listeners_entry]
      by_cases same : entry.handlerFunc = handlerFunc ∧ entry.handlerData = handlerData
      · have keys : entry.keys = (handlerFunc, handlerData) := Prod.ext same.1 same.2
        rw [if_pos same, keys, if_pos (Multiset.mem_cons_self _ _), Option.map_some, keys]
      · have keys : (handlerFunc, handlerData) ≠ entry.keys := fun equal =>
          same ⟨(congrArg Prod.fst equal).symm, (congrArg Prod.snd equal).symm⟩
        rw [if_neg same, ih]
        simp only [Multiset.mem_cons, keys, false_or]

theorem refines_startup : Refines (emStartup : Manager F D) .empty where
  stands := create_stands lawful_lists
  apart a member := by
    rw [emStartup, entries_create] at member
    cases member
  old a member := by
    rw [emStartup, entries_create] at member
    cases member
  unlisted _ _ := rfl
  removable _ := le_refl _
  held key listenerList found := by
    obtain ⟨member, -⟩ := (listFor_iff (create_stands lawful_lists)).mp found
    rw [emStartup, entries_create] at member
    cases member

section
variable {m : Manager F D} {l : Ledger F D} {key : UInt64 × Int32} {listenerList : SListenerList}

/-- Lists of different sources and types are in different blocks. -/
theorem Refines.blocks (refines : Refines m l) {other : UInt64 × Int32} {otherList : SListenerList}
    (found : listFor m key = some listenerList) (alsoFound : listFor m other = some otherList) (differ : other ≠ key) :
    otherList.address ≠ listenerList.address := by
  intro same
  obtain ⟨member, source, eventType⟩ := (listFor_iff refines.stands).mp found
  obtain ⟨otherMember, otherSource, otherType⟩ := (listFor_iff refines.stands).mp alsoFound
  cases refines.apart _ otherMember _ member same
  exact differ (Prod.ext (otherSource.symm.trans source) (otherType.symm.trans eventType))

/-- New slots for the list of a call, when they hold what is registered then. -/
theorem Refines.reslot (refines : Refines m l) (call : Call F D) (found : listFor m call.key = some listenerList)
    {slots : List (Option (SListenerEntry F D))} (long : slots.length = llistNoElems)
    (holds : listeners slots = (l.step call).standing call.key) :
    Refines { m with listenerEntryList := Function.update m.listenerEntryList listenerList.address slots } (l.step call) where
  stands := refines.stands
  apart := refines.apart
  old := refines.old
  unlisted other absent := by
    have differs : other ≠ call.key := by
      rintro rfl
      exact Option.some_ne_none _ (found.symm.trans absent)
    rw [(step_other call differs).1]
    exact refines.unlisted other absent
  removable := step_removable refines.removable call
  held other otherList otherFound := by
    by_cases same : other = call.key
    · subst same
      cases found.symm.trans otherFound
      dsimp only
      rw [Function.update_self]
      exact ⟨long, holds⟩
    · dsimp only
      rw [Function.update_of_ne (refines.blocks found otherFound same), standing_other call same]
      exact refines.held other otherList otherFound

/-- The list of a source and a type is in the table after it was looked for. -/
theorem findOrCreate_refines (refines : Refines m l) (key : UInt64 × Int32) :
    ∃ after listenerList, findOrCreate m key.1 key.2 = some (after, listenerList) ∧
      listFor after key = some listenerList ∧ Refines after l := by
  cases found : listFor m key with
  | some listenerList =>
    refine ⟨m, listenerList, ?_, found, refines⟩
    rw [listFor] at found
    rw [findOrCreate, found]
  | none =>
    obtain ⟨table, added, stands, all, finds⟩ := listFor_made refines.stands found m.allocated (m.allocated + 1)
    refine ⟨⟨table, Function.update m.listenerEntryList m.allocated (List.replicate llistNoElems none), m.allocated + 2⟩,
      ⟨key.1, key.2, m.allocated⟩, ?_, ?_, stands, ?_, ?_, ?_, refines.removable, ?_⟩
    · have absent := found
      rw [listFor] at absent
      rw [findOrCreate, absent]
      dsimp only
      rw [added]
      rfl
    · rw [listFor, finds, found, Option.none_or, if_pos rfl]
    · intro a aMember b bMember same
      rcases List.mem_cons.mp (all.mem_iff.mp aMember) with rfl | aOld <;>
        rcases List.mem_cons.mp (all.mem_iff.mp bMember) with rfl | bOld
      · rfl
      · exact absurd same (Nat.ne_of_gt (refines.old b bOld))
      · exact absurd same (Nat.ne_of_lt (refines.old a aOld))
      · exact refines.apart a aOld b bOld same
    · intro a member
      rcases List.mem_cons.mp (all.mem_iff.mp member) with rfl | old
      · exact Nat.lt_add_of_pos_right (by decide)
      · exact Nat.lt_add_right 2 (refines.old a old)
    · intro other none
      rw [listFor, finds, Option.or_eq_none_iff] at none
      exact refines.unlisted other none.1
    · intro other otherList otherFound
      rw [listFor, finds] at otherFound
      dsimp only
      by_cases same : other = key
      · cases same
        rw [found, Option.none_or, if_pos rfl] at otherFound
        cases otherFound
        rw [Function.update_self, List.length_replicate, listeners_holes,
          standing_zero (refines.unlisted key found)]
        exact ⟨rfl, rfl⟩
      · rw [if_neg same, Option.or_none] at otherFound
        have member := ((listFor_iff refines.stands).mp otherFound).1
        rw [Function.update_of_ne (Nat.ne_of_lt (refines.old _ member))]
        exact refines.held other otherList otherFound

theorem add_refines (refines : Refines m l) {handlerFunc : F} {handlerData : D} {makeNewThread : Bool}
    (room : (l.standing key).card < llistNoElems) :
    ∃ after, emAddListener m key.1 key.2 handlerFunc handlerData makeNewThread = some after ∧
      Refines after (l.step (.addListener key handlerFunc handlerData makeNewThread)) := by
  obtain ⟨created, listenerList, looked, found, listed⟩ := findOrCreate_refines refines key
  obtain ⟨long, holds⟩ := listed.held key listenerList found
  obtain ⟨slots, put, slotsLong, slotsHold⟩ := putEntry_room ⟨handlerFunc, handlerData, makeNewThread⟩
    (by rw [holds, long]; exact room : (listeners (created.listenerEntryList listenerList.address)).card < _)
  refine ⟨{ created with listenerEntryList := Function.update created.listenerEntryList listenerList.address slots },
    ?_, ?_⟩
  · rw [emAddListener, looked]
    simp only [Option.bind_eq_bind, Option.bind_some, put]
  · refine listed.reslot (.addListener key handlerFunc handlerData makeNewThread) found (slotsLong.trans long) ?_
    rw [slotsHold, holds]
    exact (standing_add (refines.removable key)).symm

/-- A removal frees an entry with its keys just when one is registered. -/
theorem remove_refines (refines : Refines m l) {handlerFunc : F} {handlerData : D} (addedTo : l.added key ≠ 0) :
    ∃ after freed, emRemoveListener m key.1 key.2 handlerFunc handlerData = some (after, freed) ∧
      freed.map SListenerEntry.keys =
        (if (handlerFunc, handlerData) ∈ l.standing key then some (handlerFunc, handlerData) else none) ∧
      Refines after (l.step (.removeListener key handlerFunc handlerData)) := by
  cases found : listFor m key with
  | none => exact absurd (refines.unlisted key found) addedTo
  | some listenerList =>
    obtain ⟨long, holds⟩ := refines.held key listenerList found
    set slots := m.listenerEntryList listenerList.address with slotsIs
    have frees := dropEntry_frees handlerFunc handlerData slots
    rw [holds] at frees
    set dropped := dropEntry handlerFunc handlerData slots with droppedIs
    refine ⟨{ m with listenerEntryList := Function.update m.listenerEntryList listenerList.address dropped.1 },
      dropped.2, ?_, frees, ?_⟩
    · rw [listFor] at found
      rw [emRemoveListener, found]
      rfl
    · refine refines.reslot (.removeListener key handlerFunc handlerData) found ((dropEntry_length _ _ _).trans long) ?_
      rw [dropEntry_listeners, holds]
      exact standing_remove.symm

/-- Calls that are allowed are made, and the lists stand for them. -/
theorem run_refines {calls : List (Call F D)} (refines : Refines m l) (permitted : l.Permits calls) :
    ∃ after, run step m calls = some after ∧ Refines after (calls.foldl Ledger.step l) := by
  induction calls generalizing m l with
  | nil => exact ⟨m, rfl, refines⟩
  | cons call rest ih =>
    have made : ∃ middle, step m call = some middle ∧ Refines middle (l.step call) := by
      cases call with
      | addListener key handlerFunc handlerData makeNewThread => exact add_refines refines permitted.1
      | removeListener key handlerFunc handlerData =>
        obtain ⟨middle, freed, removed, -, kept⟩ := remove_refines refines permitted.1
        refine ⟨middle, ?_, kept⟩
        rw [step, removed]
        rfl
    obtain ⟨middle, stepped, kept⟩ := made
    obtain ⟨after, ran, stands⟩ := ih kept permitted.2
    exact ⟨after, run_cons.mpr ⟨middle, stepped, ran⟩, stands⟩

end

end

end VoxiUtil.EventListeners
