import VoxiUtil.DoublyLinked
import VoxiUtil.Hash
import VoxiUtil.HashSet
import VoxiUtil.Limits
import VoxiUtil.Runs

/-!
The cursors of `hash.c`. A cursor is parked on a record and linked into the
cursor list of that record. The fields of the cursors are kept by block, so that
the list surgery reads and writes single pointers as the source does. A step
gives `none` where an assertion fails, a null pointer is followed, or a freed
block is used.
-/
namespace VoxiUtil.HashCursor
open VoxiUtil.Hash VoxiUtil.DoublyLinked VoxiUtil.Runs
open VoxiUtil.Limits (intMax)
variable {α : Type} {fs : Funcs α}

/-- A table with its cursors, `struct sHashTableCursor`. `unused` is the next
    block that `malloc` gives, for records and cursors alike. -/
structure Heap (fs : Funcs α) where
  table : Hasht fs
  live : Nat → Bool
  nextCursor : Nat → Option Nat
  prevCursor : Nat → Option Nat
  hashIndex : Nat → Int
  element : Nat → Option Nat
  unused : Nat

/-- A record that is in its table, hence not freed. -/
def isLinked (ht : Hasht fs) (address : Nat) : Bool := (records ht).any (fun record => record.address == address)

/-- `record->next` of a linked record. -/
def following (ht : Hasht fs) (address : Nat) : Option (Option (HiPtr α)) :=
  (List.ofFn ht.infoArray).findSome? fun chain =>
    match chain.dropWhile (fun record => record.address != address) with
    | [] => none
    | _ :: rest => some rest.head?

def setFirstCursor (h : Heap fs) (address : Nat) (cursor : Option Nat) : Heap fs :=
  { h with table := { h.table with firstCursor := Function.update h.table.firstCursor address cursor } }

def setElement (h : Heap fs) (c : Nat) (address : Option Nat) : Heap fs :=
  { h with element := Function.update h.element c address }

def setHashIndex (h : Heap fs) (c : Nat) (index : Int) : Heap fs :=
  { h with hashIndex := Function.update h.hashIndex c index }

@[simp] theorem setElement_element (h : Heap fs) (c : Nat) (address : Option Nat) :
    (setElement h c address).element c = address := Function.update_self _ _ _

@[simp] theorem setElement_table (h : Heap fs) (c : Nat) (address : Option Nat) :
    (setElement h c address).table = h.table := rfl

@[simp] theorem setElement_hashIndex (h : Heap fs) (c : Nat) (address : Option Nat) :
    (setElement h c address).hashIndex = h.hashIndex := rfl

@[simp] theorem setHashIndex_hashIndex (h : Heap fs) (c : Nat) (index : Int) :
    (setHashIndex h c index).hashIndex c = index := Function.update_self _ _ _

@[simp] theorem setHashIndex_table (h : Heap fs) (c : Nat) (index : Int) :
    (setHashIndex h c index).table = h.table := rfl

def removeCursorFromList (h : Heap fs) (c : Nat) : Option (Heap fs) := do
  let element ← h.element c
  guard (isLinked h.table element)
  let h ← match h.prevCursor c with
    | some prev =>
      if h.live prev then
        some { h with nextCursor := Function.update h.nextCursor prev (h.nextCursor c)
                      prevCursor := Function.update h.prevCursor c none }
      else none
    | none => some (setFirstCursor h element (h.nextCursor c))
  match h.nextCursor c with
  | some next =>
    -- `prevCursor` of the cursor has been cleared by now.
    if h.live next then
      some { h with prevCursor := Function.update h.prevCursor next (h.prevCursor c)
                    nextCursor := Function.update h.nextCursor c none }
    else none
  | none => some h

def addCursorToList (h : Heap fs) (c : Nat) : Option (Heap fs) := do
  let element ← h.element c
  guard (isLinked h.table element)
  let first := h.table.firstCursor element
  let h := setFirstCursor
    { h with nextCursor := Function.update h.nextCursor c first
             prevCursor := Function.update h.prevCursor c none } element (some c)
  match first with
  | some next => if h.live next then some { h with prevCursor := Function.update h.prevCursor next (some c) } else none
  | none => some h

/-- The loop over empty buckets: the first index from `index` on that is past the
    table or has a record. -/
def skipEmpty (ht : Hasht fs) : Nat → Nat → Nat
  | 0, index => index
  | fuel + 1, index =>
    if inside : index < fs.size then
      if (ht.infoArray ⟨index, inside⟩).isEmpty then skipEmpty ht fuel (index + 1) else index
    else index

/-- `hashIndex` is an `int`, which the loop must not increment beyond its range. -/
def moveCursorToNextIndex (h : Heap fs) (c : Nat) : Option (Heap fs) := do
  guard (h.element c).isNone
  let index := skipEmpty h.table fs.size (h.hashIndex c + 1).toNat
  guard (index ≤ intMax)
  let h := setHashIndex h c index
  if inside : index < fs.size then
    match h.table.infoArray ⟨index, inside⟩ with
    | [] => none
    | first :: _ => addCursorToList (setElement h c (some first.address)) c
  else some (setElement h c none)

def hashCursorGoFirst (h : Heap fs) (c : Nat) : Option (Heap fs) := do
  let h ← if (h.element c).isSome then (removeCursorFromList h c).map (fun h => setElement h c none) else some h
  moveCursorToNextIndex (setHashIndex h c (-1)) c

def hashCursorCreate (h : Heap fs) : Option (Heap fs) :=
  hashCursorGoFirst
    { h with live := Function.update h.live h.unused true
             prevCursor := Function.update h.prevCursor h.unused none
             nextCursor := Function.update h.nextCursor h.unused none
             element := Function.update h.element h.unused none
             unused := h.unused + 1 } h.unused

def hashCursorDestroy (h : Heap fs) (c : Nat) : Option (Heap fs) := do
  let h ← if (h.element c).isSome then removeCursorFromList h c else some h
  some { h with live := Function.update h.live c false }

def hashCursorGoNext (h : Heap fs) (c : Nat) : Option (Heap fs) := do
  let element ← h.element c
  let next ← following h.table element
  match next with
  | none =>
    let h ← removeCursorFromList h c
    moveCursorToNextIndex (setElement h c none) c
  | some record =>
    let h ← removeCursorFromList h c
    addCursorToList (setElement h c (some record.address)) c

def hashCursorPastLastElement (h : Heap fs) (c : Nat) : Bool := decide ((fs.size : Int) ≤ h.hashIndex c)

def hashCursorGetElement (h : Heap fs) (c : Nat) : Option α := do
  let element ← h.element c
  let record ← (records h.table).find? (fun record => record.address == element)
  return record.data

/-- The calls on a table and its cursors. A call on a cursor is on a live one:
    the caller may not use a cursor that it destroyed. `allocated` says whether
    the memory for a new record is there. -/
inductive Op (α : Type) where
  | add (data : α) (allocated : Bool)
  | delete (data : α)
  | destroy (data : α)
  | cursorCreate
  | cursorGoFirst (c : Nat)
  | cursorGoNext (c : Nat)
  | cursorDestroy (c : Nat)

def step (h : Heap fs) : Op α → Option (Heap fs)
  | .add data allocated =>
    some { h with table := (hashAdd h.table data (if allocated then some h.unused else none)).1
                  unused := h.unused + 1 }
  | .delete data => (hashDelete h.table data).map (fun out => { h with table := out.1 })
  | .destroy data => (hashDestroy h.table data).map (fun out => { h with table := out.1 })
  | .cursorCreate => hashCursorCreate h
  | .cursorGoFirst c => if h.live c then hashCursorGoFirst h c else none
  | .cursorGoNext c => if h.live c then hashCursorGoNext h c else none
  | .cursorDestroy c => if h.live c then hashCursorDestroy h c else none

/-- A new table with no cursor. -/
def start (fs : Funcs α) : Heap fs := ⟨hashCreateTable fs, fun _ => false, fun _ => none, fun _ => none,
  fun _ => 0, fun _ => none, 0⟩

end VoxiUtil.HashCursor
