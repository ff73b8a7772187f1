import VoxiUtil.FreeList
import VoxiUtil.Limits
import VoxiUtil.Runs

/-!
The table of `idTable.c` for elements that are pointers. A slot is a record of its own;
`none` is a failed assertion, or what C does not define.
-/
namespace VoxiUtil.IdTable
open VoxiUtil.FreeList VoxiUtil.Runs
open VoxiUtil.Limits.Signed (intMax)
variable {α : Type}

/-- The union of a slot, by the member that was written last. -/
inductive SlotData (α : Type)
  | nextFree (next : Int)
  | element (element : α)

structure TableSlot (α : Type) where
  isFree : Bool
  data : SlotData α

/-- The member of the union that links free slots, where it is the one that was written. -/
def TableSlot.nextFree (slot : TableSlot α) : Option Int :=
  match slot.data with
  | .nextFree next => some next
  | .element _ => none

def TableSlot.element (slot : TableSlot α) : Option α :=
  match slot.data with
  | .nextFree _ => none
  | .element element => some element

structure SIDTable (α : Type) where
  table : List (TableSlot α)
  tableSize : Int
  firstFree : Int
  elementCount : Int
  elementSize : Nat

def sizeofPointer : Nat := 8

/-- The slot of an index. -/
def ELEMENT (idTable : SIDTable α) (index : Int) : Option (TableSlot α) :=
  if 0 ≤ index then idTable.table[index.toNat]? else none

/-- The loop that links the slots from `start` to `stop`, and the link of the last one. -/
def freeSlots (start stop : Nat) (last : Int) : List (TableSlot α) :=
  (List.range' start (stop - start)).map fun i => ⟨true, .nextFree (if i + 1 = stop then last else ((i + 1 : Nat) : Int))⟩

/-- Without a slot, the last link would be written in front of the array. -/
def idtCreate2 (initialCount : Int) (elementSize : Nat) : Option (SIDTable α) :=
  if 1 ≤ initialCount then some ⟨freeSlots 0 initialCount.toNat (-1), initialCount, 0, 0, elementSize⟩ else none

def idtCreate (initialCount : Int) : Option (SIDTable α) := idtCreate2 initialCount sizeofPointer

/-- The doubled size has to be an `int`, with a slot. -/
def idtEnlarge (idt : SIDTable α) : Option (SIDTable α) :=
  let oldSize := idt.tableSize
  let newSize := oldSize * 2
  if 1 ≤ newSize ∧ newSize ≤ intMax then
    some { idt with
      table := idt.table ++ freeSlots oldSize.toNat newSize.toNat idt.firstFree
      tableSize := newSize
      firstFree := oldSize }
  else none

/-- The table with another slot at an index. -/
def setSlot (idt : SIDTable α) (index : Int) (slot : TableSlot α) : SIDTable α :=
  { idt with table := idt.table.set index.toNat slot }

/-- The end of `idt_add`, on a table with a free slot. -/
def addFirst (table : SIDTable α) (element : α) : Option (SIDTable α × Int) := do
  let slot ← ELEMENT table table.firstFree
  assert (slot.isFree = true)
  let next ← slot.nextFree
  let after := setSlot table table.firstFree ⟨false, .element element⟩
  return ({ after with firstFree := next, elementCount := table.elementCount + 1 }, table.firstFree)

def idtAdd (table : SIDTable α) (element : α) : Option (SIDTable α × Int) := do
  assert (table.elementSize = sizeofPointer)
  if table.firstFree = -1 then
    let table ← idtEnlarge table
    assert (table.firstFree ≠ -1)
    addFirst table element
  else addFirst table element

def idtGetElementAt (idt : SIDTable α) (index : Int) : Option α := do
  assert (index < idt.tableSize)
  let slot ← ELEMENT idt index
  assert (slot.isFree = false)
  assert (idt.elementSize = sizeofPointer)
  slot.element

def idtRemove (idt : SIDTable α) (index : Int) : Option (SIDTable α) := do
  assert (index < idt.tableSize)
  let slot ← ELEMENT idt index
  assert (slot.isFree = false)
  let after := setSlot idt index ⟨true, .nextFree idt.firstFree⟩
  assert (0 ≤ idt.elementCount - 1)
  return { after with firstFree := index, elementCount := idt.elementCount - 1 }

def idtIsElementAllocated (table : SIDTable α) (index : Int) : Option Bool :=
  if index ≥ table.tableSize then some false else (ELEMENT table index).map fun slot => !slot.isFree

/-- The loop that doubles the array until it has the index. -/
def enlargeTo (index : Int) : Nat → SIDTable α → Option (SIDTable α)
  | 0, _ => none
  | fuel + 1, table => if index ≥ table.tableSize then (idtEnlarge table).bind (enlargeTo index fuel) else some table

/-- The loop that looks for the slot in front of an index in the free list. A list with
    more slots than the array does not end. -/
def freeBefore (table : SIDTable α) (index : Int) : Nat → Int → Option Int
  | 0, _ => none
  | fuel + 1, prevFree => do
    let slot ← ELEMENT table prevFree
    let next ← slot.nextFree
    if next ≠ index ∧ next ≠ -1 then freeBefore table index fuel next else some prevFree

/-- With the assertions on, an occupied slot is only complained about. -/
def idtPutElementAt (table : SIDTable α) (index : Int) (element : α) : Option (SIDTable α) := do
  assert (table.elementSize = sizeofPointer)
  let table ← enlargeTo index (index.toNat + 1) table
  if table.firstFree = index then
    let added ← addFirst table element
    return added.1
  else
    let prevFree ← freeBefore table index (table.table.length + 1) table.firstFree
    let before ← ELEMENT table prevFree
    let next ← before.nextFree
    if next = -1 then return table
    else if prevFree = -1 then return { table with firstFree := -1 }
    else
      assert (before.isFree = true)
      let slot ← ELEMENT table index
      assert (slot.isFree = true)
      let behind ← slot.nextFree
      let unlinked := setSlot table prevFree { before with data := .nextFree behind }
      let put := setSlot unlinked index ⟨false, .element element⟩
      return { put with elementCount := table.elementCount + 1 }

inductive IdOp (α : Type)
  | add (element : α)
  | remove (index : Int)

/-- The table and, by the calls alone, the elements under the indices that their adds
    returned. -/
def step (s : SIDTable α × (Int → Option α)) : IdOp α → Option (SIDTable α × (Int → Option α))
  | .add element => (idtAdd s.1 element).map fun result => (result.1, Function.update s.2 result.2 (some element))
  | .remove index => (idtRemove s.1 index).map fun idt => (idt, Function.update s.2 index none)

/-- Removes are called with allocated indices, and an add that doubles the array gets it. -/
def Permitted (s : SIDTable α × (Int → Option α)) : IdOp α → Prop
  | .add _ => s.1.firstFree = -1 → s.1.tableSize * 2 ≤ intMax
  | .remove index => idtIsElementAllocated s.1 index = some true

/-- The table stands for a map from its allocated indices to their elements, and its free
    list visits the other slots. -/
structure Refines (idt : SIDTable α) (stored : Int → Option α) : Prop where
  chain : ∃ visited, Chain TableSlot.nextFree idt.table idt.firstFree visited ∧ visited.Nodup ∧
    ∀ i, i ∈ visited ↔ ∃ slot, idt.table[i]? = some slot ∧ slot.isFree = true
  counted : idt.elementCount = idt.table.countP fun slot => !slot.isFree
  allocated : ∀ index, 0 ≤ index → idtIsElementAllocated idt index = some (stored index).isSome
  elements : ∀ index element, stored index = some element → idtGetElementAt idt index = some element
  new : ∀ element after index, idtAdd idt element = some (after, index) → 0 ≤ index ∧ stored index = none

/-- A slot whose flag tells which member of the union it has. -/
def TableSlot.Tagged (slot : TableSlot α) : Prop := slot.isFree = slot.nextFree.isSome

structure Inv (idt : SIDTable α) (stored : Int → Option α) : Prop where
  pointers : idt.elementSize = sizeofPointer
  sized : idt.tableSize = idt.table.length
  positive : 0 < idt.table.length
  tagged : ∀ slot ∈ idt.table, slot.Tagged
  free : ∃ visited, Threaded TableSlot.nextFree idt.table idt.firstFree visited
  counted : idt.elementCount = idt.table.countP fun slot => !slot.isFree
  holds : ∀ i : Nat, stored i = idt.table[i]?.bind TableSlot.element
  natural : ∀ index, (stored index).isSome → 0 ≤ index

section
variable {idt : SIDTable α} {stored : Int → Option α}

@[simp] theorem nextFree_free (next : Int) : (⟨true, .nextFree next⟩ : TableSlot α).nextFree = some next := rfl

@[simp] theorem nextFree_used (element : α) : (⟨false, .element element⟩ : TableSlot α).nextFree = none := rfl

@[simp] theorem ELEMENT_ofNat (idt : SIDTable α) (i : Nat) : ELEMENT idt i = idt.table[i]? := by
  rw [ELEMENT, if_pos (Int.natCast_nonneg i), Int.toNat_natCast]

theorem freeSlots_length (start stop : Nat) (last : Int) : (freeSlots start stop last : List (TableSlot α)).length = stop - start := by
  rw [freeSlots, List.length_map, List.length_range']

theorem freeSlots_free {start stop : Nat} {last : Int} {slot : TableSlot α} (member : slot ∈ freeSlots start stop last) :
    ∃ next, slot = ⟨true, .nextFree next⟩ := by
  obtain ⟨i, _, rfl⟩ := List.mem_map.mp member
  exact ⟨_, rfl⟩

/-- New slots are linked in order. -/
theorem freeSlots_linked {start stop : Nat} (more : start < stop) (last : Int) :
    Linked TableSlot.nextFree start last (freeSlots start stop last : List (TableSlot α)) := by
  intro k inside
  rw [freeSlots_length] at inside
  have slot : (freeSlots start stop last : List (TableSlot α))[k]? =
      some ⟨true, .nextFree (if start + k + 1 = stop then last else ((start + k + 1 : Nat) : Int))⟩ := by
    rw [freeSlots, List.getElem?_map, List.getElem?_range' inside, Option.map_some, Nat.one_mul]
  rw [linkAt, slot, Option.bind_some, nextFree_free, freeSlots_length]
  have same : start + k + 1 = stop ↔ k + 1 = stop - start := by omega
  simp only [same]

/-- New slots have no elements. -/
theorem freeSlots_nothing (start stop : Nat) (last : Int) :
    (∀ slot ∈ (freeSlots start stop last : List (TableSlot α)), slot.Tagged) ∧
    (freeSlots start stop last : List (TableSlot α)).countP (fun slot => !slot.isFree) = 0 ∧
    ∀ i : Nat, (freeSlots start stop last : List (TableSlot α))[i]?.bind TableSlot.element = none := by
  refine ⟨fun slot member => ?_, ?_, fun i => ?_⟩
  · obtain ⟨next, rfl⟩ := freeSlots_free member
    rfl
  · rw [List.countP_eq_zero]
    intro slot member
    obtain ⟨next, rfl⟩ := freeSlots_free member
    nofun
  · cases found : (freeSlots start stop last)[i]? with
    | none => rfl
    | some slot =>
      obtain ⟨next, rfl⟩ := freeSlots_free (List.mem_of_getElem? found)
      rfl

theorem create_inv {initialCount : Int} (positive : 1 ≤ initialCount) :
    ∃ idt : SIDTable α, idtCreate initialCount = some idt ∧ Inv idt fun _ => none := by
  have more : 0 < initialCount.toNat := by omega
  have length := freeSlots_length (α := α) 0 initialCount.toNat (-1)
  obtain ⟨tagged, count, empty⟩ := freeSlots_nothing (α := α) 0 initialCount.toNat (-1)
  have nonempty := List.ne_nil_of_length_pos (by rw [length]; exact more)
  refine ⟨_, if_pos positive, rfl, ?_, ?_, tagged, ?_, ?_, fun i => (empty i).symm, nofun⟩
  · change initialCount = ((freeSlots 0 initialCount.toNat (-1)).length : Int)
    rw [length]
    omega
  · change 0 < (freeSlots 0 initialCount.toNat (-1)).length
    rw [length]
    exact more
  · exact ⟨_, threaded_create nonempty (freeSlots_linked more (-1))⟩
  · change (0 : Int) = ((freeSlots 0 initialCount.toNat (-1)).countP _ : Nat)
    rw [count]
    rfl

/-- Doubling the array keeps the elements, and the new slots become the front of the free list. -/
theorem enlarge_inv (inv : Inv idt stored) (room : idt.tableSize * 2 ≤ intMax) :
    ∃ after, idtEnlarge idt = some after ∧ after.firstFree = idt.tableSize ∧ Inv after stored := by
  obtain ⟨visited, free⟩ := inv.free
  have sized := inv.sized
  have positive := inv.positive
  have old : idt.tableSize.toNat = idt.table.length := by omega
  have new : (idt.tableSize * 2).toNat = 2 * idt.table.length := by omega
  have length := freeSlots_length (α := α) idt.table.length (2 * idt.table.length) idt.firstFree
  obtain ⟨tagged, count, empty⟩ := freeSlots_nothing (α := α) idt.table.length (2 * idt.table.length) idt.firstFree
  have nonempty := List.ne_nil_of_length_pos (by rw [length]; omega)
  refine ⟨_, if_pos ⟨by omega, room⟩, rfl, ?_⟩
  rw [old, new]
  refine ⟨inv.pointers, ?_, ?_, fun slot member => ?_, ?_, ?_, fun i => ?_, inv.natural⟩
  · change idt.tableSize * 2 = _
    rw [List.length_append, length]
    omega
  · rw [List.length_append]
    omega
  · rcases List.mem_append.mp member with before | behind
    · exact inv.tagged slot before
    · exact tagged slot behind
  · rw [sized]
    exact ⟨_, threaded_extend free nonempty (freeSlots_linked (by omega) _)⟩
  · rw [List.countP_append, count]
    exact inv.counted
  · rw [inv.holds]
    by_cases before : i < idt.table.length
    · rw [List.getElem?_append_left before]
    · rw [List.getElem?_append_right (Nat.not_lt.mp before), List.getElem?_eq_none (Nat.not_lt.mp before), empty]
      rfl

/-- What a slot holds, by its flag. -/
theorem tagged_cases (inv : Inv idt stored) {i : Nat} {slot : TableSlot α} (found : idt.table[i]? = some slot) :
    (slot.isFree = true ∧ ∃ next, slot.nextFree = some next ∧ stored i = none) ∨
      (slot.isFree = false ∧ slot.nextFree = none ∧ ∃ element, slot.element = some element ∧ stored i = some element) := by
  have tagged : slot.isFree = slot.nextFree.isSome := inv.tagged slot (List.mem_of_getElem? found)
  have holds := inv.holds i
  rw [found, Option.bind_some] at holds
  rcases slot with ⟨isFree, next | element⟩
  · exact .inl ⟨tagged, next, rfl, holds⟩
  · exact .inr ⟨tagged, rfl, element, rfl, holds⟩

/-- A slot that is written, with what the element under its index is then. -/
private theorem write_inv (inv : Inv idt stored) {i : Nat} {old : TableSlot α} (slot : TableSlot α) {first : Int} (count : Int)
    {visited : List Nat} (found : idt.table[i]? = some old) (tagged : slot.Tagged)
    (free : Threaded TableSlot.nextFree (idt.table.set i slot) first visited)
    (counted : count + (if old.isFree then 0 else 1) = idt.elementCount + (if slot.isFree then 0 else 1)) :
    Inv { setSlot idt i slot with firstFree := first, elementCount := count } (Function.update stored i slot.element) := by
  obtain ⟨inside, same⟩ := List.getElem?_eq_some_iff.mp found
  refine ⟨inv.pointers, ?_, ?_, fun other member => ?_, ⟨visited, free⟩, ?_, fun j => ?_, fun index has => ?_⟩
  · change idt.tableSize = (idt.table.set i slot).length
    rw [List.length_set]
    exact inv.sized
  · change 0 < (idt.table.set i slot).length
    rw [List.length_set]
    exact inv.positive
  · rcases List.mem_or_eq_of_mem_set member with before | rfl
    · exact inv.tagged other before
    · exact tagged
  · change count = ((idt.table.set i slot).countP fun slot => !slot.isFree : Nat)
    have all := inv.counted
    rw [List.countP_set inside, same]
    have atLeast : (if (!old.isFree) = true then 1 else 0) ≤ idt.table.countP fun slot => !slot.isFree := by
      split
      · rename_i used
        exact List.countP_pos_iff.mpr ⟨old, List.mem_of_getElem? found, used⟩
      · exact Nat.zero_le _
    generalize idt.table.countP (fun slot => !slot.isFree) = used at all atLeast ⊢
    cases oldFree : old.isFree <;> cases newFree : slot.isFree <;>
      simp only [oldFree, newFree, Bool.not_true, Bool.not_false, if_true, Bool.false_eq_true, if_false] at counted atLeast ⊢ <;> omega
  · change Function.update stored i slot.element j = (idt.table.set i slot)[j]?.bind TableSlot.element
    rw [List.getElem?_set]
    by_cases here : i = j
    · rw [if_pos here, if_pos inside, here, Function.update_self, Option.bind_some]
    · have apart : (j : Int) ≠ i := by omega
      rw [if_neg here, Function.update_of_ne apart, inv.holds]
  · by_cases here : index = i
    · omega
    · rw [Function.update_of_ne here] at has
      exact inv.natural index has

/-- The first free slot takes the element. -/
theorem addFirst_inv (inv : Inv idt stored) (more : idt.firstFree ≠ -1) (element : α) :
    ∃ after, addFirst idt element = some (after, idt.firstFree) ∧ 0 ≤ idt.firstFree ∧ stored idt.firstFree = none ∧
      Inv after (Function.update stored idt.firstFree (some element)) := by
  obtain ⟨visited, free⟩ := inv.free
  rcases threaded_cases free with ⟨ended, _⟩ | ⟨i, rest, first, rfl, inside⟩
  · exact absurd ended more
  · obtain ⟨next, link, taken⟩ := threaded_take free (nextFree_used element)
    obtain ⟨slot, found, linked⟩ := Option.bind_eq_some_iff.mp link
    rcases tagged_cases inv found with ⟨isFree, _, _, unstored⟩ | ⟨_, unlinked, _⟩
    · have written := write_inv inv ⟨false, .element element⟩ (idt.elementCount + 1) found rfl taken (by simp [isFree])
      rw [first]
      refine ⟨_, ?_, Int.natCast_nonneg i, unstored, written⟩
      simp [addFirst, first, found, isFree, linked]
    · rw [unlinked] at linked
      cases linked

theorem add_inv (inv : Inv idt stored) (room : idt.firstFree = -1 → idt.tableSize * 2 ≤ intMax) (element : α) :
    ∃ after index, idtAdd idt element = some (after, index) ∧ 0 ≤ index ∧ stored index = none ∧
      Inv after (Function.update stored index (some element)) := by
  by_cases full : idt.firstFree = -1
  · obtain ⟨larger, enlarged, first, kept⟩ := enlarge_inv inv (room full)
    have more : larger.firstFree ≠ -1 := by
      have sized := inv.sized
      omega
    obtain ⟨after, added, natural, unstored, done⟩ := addFirst_inv kept more element
    refine ⟨after, _, ?_, natural, unstored, done⟩
    simp [idtAdd, inv.pointers, full, enlarged, more, added]
  · obtain ⟨after, added, natural, unstored, done⟩ := addFirst_inv inv full element
    refine ⟨after, _, ?_, natural, unstored, done⟩
    simp [idtAdd, inv.pointers, full, added]

theorem isElementAllocated_eq (inv : Inv idt stored) {index : Int} (natural : 0 ≤ index) :
    idtIsElementAllocated idt index = some (stored index).isSome := by
  obtain ⟨i, rfl⟩ := Int.eq_ofNat_of_zero_le natural
  have sized := inv.sized
  have holds := inv.holds i
  rw [idtIsElementAllocated, ELEMENT_ofNat]
  by_cases inside : i < idt.table.length
  · rw [if_neg (by omega), List.getElem?_eq_getElem inside, Option.map_some]
    rcases tagged_cases inv (List.getElem?_eq_getElem inside) with ⟨isFree, _, _, unstored⟩ | ⟨isFree, _, element, _, has⟩
    · rw [isFree, unstored]
      rfl
    · rw [isFree, has]
      rfl
  · rw [if_pos (by omega), holds, List.getElem?_eq_none (Nat.not_lt.mp inside)]
    rfl

/-- The slot of an index with an element. -/
private theorem stored_slot (inv : Inv idt stored) {index : Int} {element : α} (has : stored index = some element) :
    ∃ (i : Nat) (slot : TableSlot α), index = i ∧ i < idt.table.length ∧ idt.table[i]? = some slot ∧
      slot.isFree = false ∧ slot.nextFree = none ∧ slot.element = some element := by
  obtain ⟨i, rfl⟩ := Int.eq_ofNat_of_zero_le (inv.natural index (by rw [has]; rfl))
  have holds := inv.holds i
  rw [has] at holds
  obtain ⟨slot, found, held⟩ := Option.bind_eq_some_iff.mp holds.symm
  refine ⟨i, slot, rfl, (List.getElem?_eq_some_iff.mp found).1, found, ?_⟩
  rcases tagged_cases inv found with ⟨_, _, _, unstored⟩ | ⟨isFree, unlinked, _⟩
  · rw [unstored] at has
    cases has
  · exact ⟨isFree, unlinked, held⟩

theorem getElementAt_eq (inv : Inv idt stored) {index : Int} {element : α} (has : stored index = some element) :
    idtGetElementAt idt index = some element := by
  obtain ⟨i, slot, rfl, inside, found, isFree, _, held⟩ := stored_slot inv has
  have below : (i : Int) < idt.tableSize := by
    have sized := inv.sized
    omega
  simp [idtGetElementAt, below, found, isFree, inv.pointers, held]

/-- A slot that is removed becomes the first free one. -/
theorem remove_inv (inv : Inv idt stored) {index : Int} {element : α} (has : stored index = some element) :
    ∃ after, idtRemove idt index = some after ∧ Inv after (Function.update stored index none) := by
  obtain ⟨i, slot, rfl, inside, found, isFree, unlinked, _⟩ := stored_slot inv has
  obtain ⟨visited, free⟩ := inv.free
  have unlinkedAt : linkAt TableSlot.nextFree idt.table i = none := by rw [linkAt, found, Option.bind_some, unlinked]
  have given := threaded_give free inside unlinkedAt (nextFree_free idt.firstFree)
  have below : (i : Int) < idt.tableSize := by
    have sized := inv.sized
    omega
  have positive : 1 ≤ idt.elementCount := by
    have atLeast : 0 < idt.table.countP fun slot => !slot.isFree :=
      List.countP_pos_iff.mpr ⟨slot, List.mem_of_getElem? found, by rw [isFree]; rfl⟩
    have counted := inv.counted
    omega
  have written := write_inv inv ⟨true, .nextFree idt.firstFree⟩ (idt.elementCount - 1) found rfl given (by simp [isFree])
  refine ⟨_, ?_, written⟩
  simp [idtRemove, found, isFree, positive, below]

/-- What the invariant says to a user of the table. -/
theorem inv_refines (inv : Inv idt stored) : Refines idt stored := by
  obtain ⟨visited, free⟩ := inv.free
  refine ⟨⟨visited, free.chain, free.distinct, fun i => ?_⟩, inv.counted, fun index natural => isElementAllocated_eq inv natural,
    fun index element has => getElementAt_eq inv has, fun element after index added => ?_⟩
  · rw [free.all, linkAt]
    cases found : idt.table[i]? with
    | none => simp
    | some slot =>
      have tagged : slot.isFree = slot.nextFree.isSome := inv.tagged slot (List.mem_of_getElem? found)
      simp [tagged]
  · by_cases room : idt.firstFree = -1 → idt.tableSize * 2 ≤ intMax
    · obtain ⟨_, _, result, natural, unstored, _⟩ := add_inv inv room element
      cases result.symm.trans added
      exact ⟨natural, unstored⟩
    · obtain ⟨full, large⟩ := Classical.not_imp.mp room
      have stuck : idtEnlarge idt = none := if_neg fun fits => large fits.2
      simp [idtAdd, full, stuck] at added

theorem step_inv {s : SIDTable α × (Int → Option α)} {op : IdOp α} (inv : Inv s.1 s.2) (permitted : Permitted s op) :
    ∃ after, step s op = some after ∧ Inv after.1 after.2 := by
  cases op with
  | add element =>
    obtain ⟨after, index, added, _, _, kept⟩ := add_inv inv permitted element
    exact ⟨_, by rw [step, added, Option.map_some], kept⟩
  | remove index =>
    have natural : 0 ≤ index := by
      by_contra negative
      have sized := inv.sized
      rw [Permitted, idtIsElementAllocated, if_neg (by omega), ELEMENT, if_neg negative] at permitted
      cases permitted
    have allocated := (isElementAllocated_eq inv natural).symm.trans permitted
    obtain ⟨element, has⟩ := Option.isSome_iff_exists.mp (Option.some.inj allocated)
    obtain ⟨after, removed, kept⟩ := remove_inv inv has
    exact ⟨_, by rw [step, removed, Option.map_some], kept⟩

end

/-- The table stands for the map of what was added and not removed, after any adds and
    removes of allocated indices, with the free list through the other slots. -/
theorem idTable_refines {initialCount : Int} (positive : 1 ≤ initialCount) (ops : List (IdOp α)) :
    ∃ created, idtCreate initialCount = some created ∧
      (Guarded step Permitted (created, fun _ => none) ops →
        ∃ idt stored, run step (created, fun _ => none) ops = some (idt, stored) ∧ Refines idt stored) := by
  obtain ⟨created, made, inv⟩ := create_inv (α := α) positive
  refine ⟨created, made, fun guarded => ?_⟩
  obtain ⟨⟨idt, stored⟩, ran, kept⟩ := guarded_total (fun s op => step_inv) inv guarded
  exact ⟨idt, stored, ran, inv_refines kept⟩

/-- A table of one slot that grows, and whose first index is used again. -/
theorem idTable_refines_reuse : ∃ created, idtCreate 1 = some created ∧
    ∃ idt stored, run step (created, fun _ => none) [.add 10, .add 11, .remove 0, .add 12] = some (idt, stored) ∧
      Refines idt stored := by
  obtain ⟨created, made, refines⟩ := idTable_refines (α := Nat) (show (1 : Int) ≤ 1 by decide) [.add 10, .add 11, .remove 0, .add 12]
  refine ⟨created, made, refines ?_⟩
  cases made
  refine guarded_step (fun _ => by decide) rfl ?_
  refine guarded_step (fun _ => by decide) rfl ?_
  refine guarded_step rfl rfl ?_
  exact ⟨fun _ => by decide, fun _ _ => trivial⟩

end VoxiUtil.IdTable
