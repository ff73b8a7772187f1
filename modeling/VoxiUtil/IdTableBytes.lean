import Mathlib.Data.Nat.Digits.Defs
import VoxiUtil.Limits
import VoxiUtil.Ring
import VoxiUtil.Runs

/-!
The table of `idTable.c` for elements of any size, in memory as bytes. `idt_add2` copies an
element into its slot, and `idt_getElementAt2` copies from where the slot's bytes point to.
`none` is a failed assertion, or what C does not define.
-/
namespace VoxiUtil.IdTableBytes
open VoxiUtil.Ring VoxiUtil.Runs
open VoxiUtil.Limits.Signed (intMax)

def sizeofInt : Nat := 4

def sizeofPointer : Nat := 8

/-- `sTableSlot`: an `int`, its padding, and the union of an `int` and a pointer. -/
def sizeofTableSlot : Nat := 16

/-- Where the union is in a slot. -/
def dataOffset : Nat := 8

/-- What `malloc` has at most. -/
def ptrdiffMax : Nat := 9223372036854775807

/-- The bytes of an `int`, the least first. -/
def encodeInt (value : Int) : List UInt8 :=
  (List.range sizeofInt).map fun i => UInt8.ofNat ((BitVec.ofInt 32 value).toNat / 256 ^ i)

def decodePointer (bytes : List UInt8) : Nat := Nat.ofDigits 256 (bytes.map UInt8.toNat)

def decodeInt (bytes : List UInt8) : Int := (BitVec.ofNat 32 (decodePointer bytes)).toInt

/-- `sIDTable`; `table` is the address of the array. -/
structure SIDTable where
  table : Nat
  tableSize : Int
  firstFree : Int
  elementCount : Int
  elementSize : Nat
  slotSize : Nat

/-- A table with the bytes of its array, and the memory beside the array as far as it can be
    read. -/
structure Memory where
  idt : SIDTable
  block : Nat → UInt8
  rest : Nat → Option UInt8

/-- How many bytes the array has. -/
def SIDTable.bytes (idt : SIDTable) : Nat := idt.slotSize * idt.tableSize.toNat

def byteAt (m : Memory) (address : Nat) : Option UInt8 :=
  if m.idt.table ≤ address ∧ address < m.idt.table + m.idt.bytes then some (m.block (address - m.idt.table))
  else m.rest address

/-- The bytes that `memcpy` reads. -/
def copyFrom (m : Memory) (source : Nat) : Nat → Option (List UInt8)
  | 0 => some []
  | n + 1 => do
    let first ← byteAt m source
    let others ← copyFrom m (source + 1) n
    some (first :: others)

/-- Where the slot of an index is in the array. -/
def ELEMENT (idt : SIDTable) (index : Int) : Option Nat :=
  if 0 ≤ index ∧ index < idt.tableSize then some (index.toNat * idt.slotSize) else none

/-- `table[ index ].isFree`, where the array has slots of the size of `sTableSlot`. -/
def isFreeAt (m : Memory) (index : Int) : Option Int :=
  if 0 ≤ index ∧ index < m.idt.tableSize then some (decodeInt (slice m.block (index.toNat * sizeofTableSlot) sizeofInt))
  else none

/-- A slot's two `int`s. -/
def linkSlot (block : Nat → UInt8) (offset : Nat) (isFree nextFree : Int) : Nat → UInt8 :=
  store (store block offset (encodeInt isFree)) (offset + dataOffset) (encodeInt nextFree)

/-- The loop that links `n` slots from `i` on, and the link of the last one. -/
def linkSlots (slotSize : Nat) (last : Int) : Nat → Nat → (Nat → UInt8) → (Nat → UInt8)
  | _, 0, block => block
  | i, n + 1, block =>
    linkSlots slotSize last (i + 1) n (linkSlot block (i * slotSize) 1 (if n = 0 then last else ((i + 1 : Nat) : Int)))

def slotSizeFor (elementSize : Nat) : Nat :=
  sizeofTableSlot + (if elementSize ≥ sizeofInt then elementSize else sizeofInt) - sizeofInt

/-- `malloc` gives a block at `table` with some `contents`. A size that does not fit it does not
    give, and where one goes round a slot is written outside of the block. Without a slot,
    the last link would be written in front of the block. -/
def idtCreate2 (initialCount : Int) (elementSize table : Nat) (contents : Nat → UInt8) (rest : Nat → Option UInt8) :
    Option Memory := do
  let slotSize := slotSizeFor elementSize
  assert (1 ≤ initialCount ∧ slotSize * initialCount.toNat ≤ ptrdiffMax)
  some ⟨⟨table, initialCount, 0, 0, elementSize, slotSize⟩, linkSlots slotSize (-1) 0 initialCount.toNat contents, rest⟩

/-- `realloc` gives a block at `table` with the old bytes in front of some `contents`. -/
def idtEnlarge (m : Memory) (table : Nat) (contents : Nat → UInt8) : Option Memory := do
  let oldSize := m.idt.tableSize
  let newSize := oldSize * 2
  assert (1 ≤ newSize ∧ newSize ≤ intMax ∧ m.idt.slotSize * newSize.toNat ≤ ptrdiffMax)
  let moved := fun offset => if offset < m.idt.bytes then m.block offset else contents offset
  some { m with
    idt := { m.idt with table := table, tableSize := newSize, firstFree := oldSize }
    block := linkSlots m.idt.slotSize m.idt.firstFree oldSize.toNat (newSize.toNat - oldSize.toNat) moved }

/-- The end of `idt_add2`, on a table with a free slot: the table, the index and the bytes that
    were copied. -/
def addFirst (m : Memory) (element : Nat) : Option (Memory × Int × List UInt8) := do
  let index := m.idt.firstFree
  let offset ← ELEMENT m.idt index
  assert (decodeInt (slice m.block offset sizeofInt) ≠ 0)
  let nextFree := decodeInt (slice m.block (offset + dataOffset) sizeofInt)
  let taken := { m with idt := { m.idt with firstFree := nextFree }, block := store m.block offset (encodeInt 0) }
  let bytes ← copyFrom taken element taken.idt.elementSize
  some ({ taken with
    idt := { taken.idt with elementCount := m.idt.elementCount + 1 }
    block := store taken.block (offset + dataOffset) bytes }, index, bytes)

/-- `table` and `contents` are what `realloc` gives where the array is full. -/
def idtAdd2 (m : Memory) (element table : Nat) (contents : Nat → UInt8) : Option (Memory × Int × List UInt8) :=
  if m.idt.firstFree = -1 then do
    let larger ← idtEnlarge m table contents
    assert (larger.idt.firstFree ≠ -1)
    addFirst larger element
  else addFirst m element

/-- The bytes that are copied out. -/
def idtGetElementAt2 (m : Memory) (index : Int) : Option (List UInt8) := do
  assert (index < m.idt.tableSize)
  let isFree ← isFreeAt m index
  assert (isFree = 0)
  let offset ← ELEMENT m.idt index
  copyFrom m (decodePointer (slice m.block (offset + dataOffset) sizeofPointer)) m.idt.elementSize

def idtRemove (m : Memory) (index : Int) : Option Memory := do
  assert (index < m.idt.tableSize)
  let isFree ← isFreeAt m index
  assert (isFree = 0)
  let offset ← ELEMENT m.idt index
  assert (0 ≤ m.idt.elementCount - 1)
  some { m with
    idt := { m.idt with firstFree := index, elementCount := m.idt.elementCount - 1 }
    block := linkSlot m.block offset 1 m.idt.firstFree }

/-- A call, or anything that the rest of the program does with its own memory. -/
inductive Op
  | add2 (element table : Nat) (contents : Nat → UInt8)
  | remove (index : Int)
  | elsewhere (rest : Nat → Option UInt8)

/-- The table and, by the calls alone, the bytes that were copied in under the indices that their
    adds returned. -/
def step (s : Memory × (Int → Option (List UInt8))) : Op → Option (Memory × (Int → Option (List UInt8)))
  | .add2 element table contents =>
    (idtAdd2 s.1 element table contents).map fun result => (result.1, Function.update s.2 result.2.1 (some result.2.2))
  | .remove index => (idtRemove s.1 index).map fun m => (m, Function.update s.2 index none)
  | .elsewhere rest => some ({ s.1 with rest := rest }, s.2)

/-- The slots of the elements are taken, and hold the elements' bytes. -/
structure Inv (m : Memory) (stored : Int → Option (List UInt8)) : Prop where
  slotted : m.idt.slotSize = slotSizeFor m.idt.elementSize
  kept : ∀ index bytes, stored index = some bytes → (0 ≤ index ∧ index < m.idt.tableSize) ∧
    slice m.block (index.toNat * m.idt.slotSize) sizeofInt = encodeInt 0 ∧
    slice m.block (index.toNat * m.idt.slotSize + dataOffset) m.idt.elementSize = bytes

theorem encodeInt_length (value : Int) : (encodeInt value).length = sizeofInt := by
  simp [encodeInt]

theorem decode_false : decodeInt (encodeInt 0) = 0 := by decide

/-- A slot has room for what is written to it. -/
theorem slotSizeFor_room (elementSize : Nat) :
    dataOffset + sizeofInt ≤ slotSizeFor elementSize ∧ dataOffset + elementSize ≤ slotSizeFor elementSize := by
  unfold slotSizeFor dataOffset sizeofTableSlot sizeofInt
  split <;> omega

/-- Elements that are no larger than an `int` have slots of the size of `sTableSlot`. -/
theorem slotSizeFor_small {elementSize : Nat} (small : elementSize ≤ sizeofInt) :
    slotSizeFor elementSize = sizeofTableSlot := by
  unfold slotSizeFor
  by_cases whole : elementSize ≥ sizeofInt
  · rw [if_pos whole, Nat.le_antisymm small whole]
    rfl
  · rw [if_neg whole]
    rfl

theorem copyFrom_length {m : Memory} {source n : Nat} {bytes : List UInt8} (copied : copyFrom m source n = some bytes) :
    bytes.length = n := by
  induction n generalizing source bytes with
  | zero =>
    cases copied
    rfl
  | succ n ih =>
    obtain ⟨first, -, copied⟩ := Option.bind_eq_some_iff.mp copied
    obtain ⟨others, further, same⟩ := Option.bind_eq_some_iff.mp copied
    cases same
    rw [List.length_cons, ih further]

section
variable {block : Nat → UInt8} {slotSize i j within length : Nat} {elements : List UInt8}

/-- What is written to a slot leaves the others alone. -/
theorem slot_store_other (offset : Nat) (differ : i ≠ j) (part : within + length ≤ slotSize)
    (fits : offset + elements.length ≤ slotSize) :
    slice (store block (j * slotSize + offset) elements) (i * slotSize + within) length =
      slice block (i * slotSize + within) length := by
  apply slice_store_other
  rcases Nat.lt_or_gt_of_ne differ with before | behind
  · have next := Nat.mul_le_mul_right slotSize before
    rw [Nat.succ_mul] at next
    omega
  · have next := Nat.mul_le_mul_right slotSize behind
    rw [Nat.succ_mul] at next
    omega

theorem linkSlot_other (differ : i ≠ j) (part : within + length ≤ slotSize) (room : dataOffset + sizeofInt ≤ slotSize)
    (isFree nextFree : Int) :
    slice (linkSlot block (j * slotSize) isFree nextFree) (i * slotSize + within) length =
      slice block (i * slotSize + within) length := by
  have first : 0 + (encodeInt isFree).length ≤ slotSize := by
    rw [encodeInt_length, Nat.zero_add]
    exact Nat.le_trans (Nat.le_add_left ..) room
  rw [linkSlot, slot_store_other dataOffset differ part (by rw [encodeInt_length]; exact room)]
  exact slot_store_other 0 differ part first

/-- The slots in front of those that are linked. -/
theorem linkSlots_before {last : Int} {start n : Nat} (before : i < start) (part : within + length ≤ slotSize)
    (room : dataOffset + sizeofInt ≤ slotSize) :
    slice (linkSlots slotSize last start n block) (i * slotSize + within) length =
      slice block (i * slotSize + within) length := by
  induction n generalizing start block with
  | zero => rfl
  | succ n ih =>
    rw [linkSlots, ih (Nat.lt_succ_of_lt before)]
    exact linkSlot_other (Nat.ne_of_lt before) part room _ _

end

section
variable {m after : Memory} {stored : Int → Option (List UInt8)} {index : Int} {bytes : List UInt8}

private theorem toNat_ne {i j : Int} (differ : i ≠ j) (first : 0 ≤ i) (second : 0 ≤ j) : i.toNat ≠ j.toNat := by
  omega

/-- The rest of the program may do what it wants with its own memory. -/
theorem inv_elsewhere (inv : Inv m stored) (rest : Nat → Option UInt8) : Inv { m with rest := rest } stored :=
  ⟨inv.slotted, inv.kept⟩

theorem inv_create {initialCount : Int} {elementSize table : Nat} {contents : Nat → UInt8} {rest : Nat → Option UInt8}
    (created : idtCreate2 initialCount elementSize table contents rest = some m) : Inv m (fun _ => none) := by
  obtain ⟨-, -, created⟩ := Option.bind_eq_some_iff.mp created
  cases created
  exact ⟨rfl, fun _ _ none => nomatch none⟩

theorem enlarge_inv (inv : Inv m stored) {table : Nat} {contents : Nat → UInt8}
    (enlarged : idtEnlarge m table contents = some after) : Inv after stored := by
  obtain ⟨_, fits, enlarged⟩ := Option.bind_eq_some_iff.mp enlarged
  have sizes := assert_eq_some.mp fits
  cases enlarged
  refine ⟨inv.slotted, fun index bytes there => ?_⟩
  obtain ⟨⟨low, high⟩, isFree, data⟩ := inv.kept index bytes there
  obtain ⟨room, space⟩ := slotSizeFor_room m.idt.elementSize
  rw [← inv.slotted] at room space
  have before : index.toNat < m.idt.tableSize.toNat := by omega
  -- The old slots are in front of the new ones, and were moved as they are.
  have same : ∀ within length, within + length ≤ m.idt.slotSize →
      slice (linkSlots m.idt.slotSize m.idt.firstFree m.idt.tableSize.toNat
        ((m.idt.tableSize * 2).toNat - m.idt.tableSize.toNat)
        fun offset => if offset < m.idt.bytes then m.block offset else contents offset)
        (index.toNat * m.idt.slotSize + within) length = slice m.block (index.toNat * m.idt.slotSize + within) length := by
    intro within length part
    rw [linkSlots_before before part room]
    unfold slice
    apply List.map_congr_left
    intro k member
    have small := List.mem_range.mp member
    have whole := Nat.mul_le_mul_right m.idt.slotSize before
    rw [Nat.succ_mul, Nat.mul_comm m.idt.tableSize.toNat] at whole
    apply if_pos
    unfold SIDTable.bytes
    omega
  refine ⟨⟨low, ?_⟩, ?_, ?_⟩
  · dsimp only
    omega
  · exact (same 0 sizeofInt (by unfold dataOffset at room; omega)).trans isFree
  · exact (same dataOffset m.idt.elementSize space).trans data

/-- The element's slot was a free one, and is its own now. -/
theorem addFirst_inv (inv : Inv m stored) {element : Nat} (added : addFirst m element = some (after, index, bytes)) :
    Inv after (Function.update stored index (some bytes)) := by
  obtain ⟨offset, located, added⟩ := Option.bind_eq_some_iff.mp added
  obtain ⟨_, free, added⟩ := Option.bind_eq_some_iff.mp added
  obtain ⟨copied, copy, added⟩ := Option.bind_eq_some_iff.mp added
  cases added
  have wasFree := assert_eq_some.mp free
  have long := copyFrom_length copy
  obtain ⟨room, space⟩ := slotSizeFor_room m.idt.elementSize
  rw [← inv.slotted] at room space
  rw [ELEMENT] at located
  split at located
  case isFalse => cases located
  case isTrue inside =>
    cases located
    refine ⟨inv.slotted, fun other otherBytes there => ?_⟩
    by_cases same : other = m.idt.firstFree
    · cases same
      rw [Function.update_self] at there
      cases there
      have marked : slice (store m.block (m.idt.firstFree.toNat * m.idt.slotSize) (encodeInt 0))
          (m.idt.firstFree.toNat * m.idt.slotSize) sizeofInt = encodeInt 0 := slice_store ..
      refine ⟨inside, (slice_store_other (.inl ?_)).trans marked, ?_⟩
      · exact Nat.add_le_add_left (by decide : sizeofInt ≤ dataOffset) _
      · dsimp only
        rw [← long, slice_store]
    · rw [Function.update_of_ne same] at there
      obtain ⟨low, isFree, data⟩ := inv.kept other otherBytes there
      have differ := toNat_ne same low.1 inside.1
      have copies : dataOffset + bytes.length ≤ m.idt.slotSize := by rw [long]; exact space
      have marks : 0 + (encodeInt 0).length ≤ m.idt.slotSize := by
        rw [encodeInt_length, Nat.zero_add]
        exact Nat.le_trans (Nat.le_add_left ..) room
      have kept : ∀ within length, within + length ≤ m.idt.slotSize →
          slice (store (store m.block (m.idt.firstFree.toNat * m.idt.slotSize) (encodeInt 0))
            (m.idt.firstFree.toNat * m.idt.slotSize + dataOffset) bytes) (other.toNat * m.idt.slotSize + within) length =
            slice m.block (other.toNat * m.idt.slotSize + within) length := fun within length part =>
        (slot_store_other dataOffset differ part copies).trans (slot_store_other 0 differ part marks)
      exact ⟨low, (kept 0 sizeofInt (by unfold dataOffset at room; omega)).trans isFree, (kept dataOffset _ space).trans data⟩

theorem add2_inv (inv : Inv m stored) {element table : Nat} {contents : Nat → UInt8}
    (added : idtAdd2 m element table contents = some (after, index, bytes)) :
    Inv after (Function.update stored index (some bytes)) := by
  rw [idtAdd2] at added
  by_cases full : m.idt.firstFree = -1
  · rw [if_pos full] at added
    obtain ⟨larger, enlarged, added⟩ := Option.bind_eq_some_iff.mp added
    obtain ⟨_, -, added⟩ := Option.bind_eq_some_iff.mp added
    exact addFirst_inv (enlarge_inv inv enlarged) added
  · rw [if_neg full] at added
    exact addFirst_inv inv added

theorem remove_inv (inv : Inv m stored) (removed : idtRemove m index = some after) :
    Inv after (Function.update stored index none) := by
  obtain ⟨_, -, removed⟩ := Option.bind_eq_some_iff.mp removed
  obtain ⟨isFree, -, removed⟩ := Option.bind_eq_some_iff.mp removed
  obtain ⟨_, -, removed⟩ := Option.bind_eq_some_iff.mp removed
  obtain ⟨offset, located, removed⟩ := Option.bind_eq_some_iff.mp removed
  obtain ⟨_, -, removed⟩ := Option.bind_eq_some_iff.mp removed
  cases removed
  obtain ⟨room, space⟩ := slotSizeFor_room m.idt.elementSize
  rw [← inv.slotted] at room space
  rw [ELEMENT] at located
  split at located
  case isFalse => cases located
  case isTrue inside =>
    cases located
    refine ⟨inv.slotted, fun other otherBytes there => ?_⟩
    by_cases same : other = index
    · rw [same, Function.update_self] at there
      cases there
    · rw [Function.update_of_ne same] at there
      obtain ⟨low, taken, data⟩ := inv.kept other otherBytes there
      have differ := toNat_ne same low.1 inside.1
      have kept : ∀ within length, within + length ≤ m.idt.slotSize →
          slice (linkSlot m.block (index.toNat * m.idt.slotSize) 1 m.idt.firstFree) (other.toNat * m.idt.slotSize + within)
            length = slice m.block (other.toNat * m.idt.slotSize + within) length := fun within length part =>
        linkSlot_other differ part room _ _
      exact ⟨low, (kept 0 sizeofInt (by unfold dataOffset at room; omega)).trans taken, (kept dataOffset _ space).trans data⟩

theorem step_inv {s s₁ : Memory × (Int → Option (List UInt8))} {op : Op} (inv : Inv s.1 s.2)
    (stepped : step s op = some s₁) : Inv s₁.1 s₁.2 := by
  cases op with
  | add2 element table contents =>
    obtain ⟨⟨after, index, bytes⟩, added, rfl⟩ := Option.map_eq_some_iff.mp stepped
    exact add2_inv inv added
  | remove index =>
    obtain ⟨after, removed, rfl⟩ := Option.map_eq_some_iff.mp stepped
    exact remove_inv inv removed
  | elsewhere rest =>
    cases stepped
    exact inv_elsewhere inv rest

/-- The bytes that are taken for an address: the first of the element, filled up by those that
    are behind it in the slot. -/
def pointerBytes (m : Memory) (index : Int) (bytes : List UInt8) : List UInt8 :=
  (bytes ++ slice m.block (index.toNat * m.idt.slotSize + dataOffset + bytes.length) (sizeofPointer - bytes.length)).take
    sizeofPointer

/-- The element has no bytes, or those that are taken for an address lead to a copy of it. -/
def LeadsToCopy (m : Memory) (index : Int) (bytes : List UInt8) : Prop :=
  bytes = [] ∨ copyFrom m (decodePointer (pointerBytes m index bytes)) bytes.length = some bytes

/-- The assertion looks at the slot of the index, or where it looks there is 0. -/
def AssertionHolds (m : Memory) (index : Int) : Prop :=
  m.idt.elementSize ≤ sizeofInt ∨ index = 0 ∨ decodeInt (slice m.block (index.toNat * sizeofTableSlot) sizeofInt) = 0

theorem pointer_slice (data : slice m.block (index.toNat * m.idt.slotSize + dataOffset) m.idt.elementSize = bytes) :
    slice m.block (index.toNat * m.idt.slotSize + dataOffset) sizeofPointer = pointerBytes m index bytes := by
  have long : bytes.length = m.idt.elementSize := by rw [← data, slice_length]
  rw [pointerBytes, long, ← data]
  by_cases short : m.idt.elementSize ≤ sizeofPointer
  · rw [← slice_add, Nat.add_sub_cancel' short, List.take_of_length_le (Nat.le_of_eq slice_length)]
  · have more : m.idt.elementSize = sizeofPointer + (m.idt.elementSize - sizeofPointer) := by omega
    rw [Nat.sub_eq_zero_of_le (by omega), more, slice_add, List.append_assoc,
      List.take_left' slice_length]

theorem assertion_iff (inv : Inv m stored) (there : stored index = some bytes) :
    decodeInt (slice m.block (index.toNat * sizeofTableSlot) sizeofInt) = 0 ↔ AssertionHolds m index := by
  obtain ⟨inside, isFree, -⟩ := inv.kept index bytes there
  constructor
  · exact fun holds => .inr (.inr holds)
  · rintro (small | first | holds)
    · rw [← slotSizeFor_small small, ← inv.slotted, isFree, decode_false]
    · subst first
      have same := isFree
      rw [Int.toNat_zero, Nat.zero_mul] at same ⊢
      rw [same, decode_false]
    · exact holds

/-- In every state of every run, an element comes back just when the assertion, which looks into
    the array as if all slots had the size of `sTableSlot`, lets the call go on, and the
    element's own bytes lead to a copy of the element. -/
theorem element_back_iff {initialCount : Int} {elementSize table : Nat} {contents : Nat → UInt8}
    {rest : Nat → Option UInt8} {s : Memory × (Int → Option (List UInt8))} {ops : List Op}
    (created : idtCreate2 initialCount elementSize table contents rest = some m)
    (ran : run step (m, fun _ => none) ops = some s) (there : s.2 index = some bytes) :
    idtGetElementAt2 s.1 index = some bytes ↔ AssertionHolds s.1 index ∧ LeadsToCopy s.1 index bytes := by
  have inv : Inv s.1 s.2 :=
    @run_invariant _ _ step (fun s => Inv s.1 s.2) (fun _ _ _ => step_inv) _ _ _ (inv_create created) ran
  obtain ⟨inside, isFree, data⟩ := inv.kept index bytes there
  have long : bytes.length = s.1.idt.elementSize := by rw [← data, slice_length]
  have empty : bytes = [] → copyFrom s.1 (decodePointer (pointerBytes s.1 index bytes)) bytes.length = some bytes := by
    rintro rfl
    rfl
  have copies : copyFrom s.1 (decodePointer (pointerBytes s.1 index bytes)) s.1.idt.elementSize = some bytes ↔
      LeadsToCopy s.1 index bytes := by
    rw [← long]
    exact ⟨.inr, fun leads => leads.elim empty id⟩
  rw [← assertion_iff inv there, ← copies, idtGetElementAt2, isFreeAt, ELEMENT, if_pos inside, if_pos inside]
  simp only [Option.bind_eq_bind, Option.bind_some]
  rw [pointer_slice data, assert_true inside.2, Option.bind_some]
  by_cases holds : decodeInt (slice s.1.block (index.toNat * sizeofTableSlot) sizeofInt) = 0
  · rw [assert_true holds, Option.bind_some]
    exact (and_iff_right holds).symm
  · rw [assert_false holds, Option.bind_none]
    exact iff_of_false nofun fun both => holds both.1

/-- Memory that can be read where some bytes are. -/
def bytesAt (base : Nat) (bytes : List UInt8) (address : Nat) : Option UInt8 :=
  if base ≤ address then bytes[address - base]? else none

/-- The address 2000, as the eight bytes at this address. -/
def ownAddress : List UInt8 := [208, 7, 0, 0, 0, 0, 0, 0]

theorem element_back_iff_own : ∃ m s, idtCreate2 1 8 1000 (fun _ => 0) (bytesAt 2000 ownAddress) = some m ∧
    run step (m, fun _ => none) [.add2 2000 0 fun _ => 0] = some s ∧ s.2 0 = some ownAddress ∧
    idtGetElementAt2 s.1 0 = some ownAddress := by
  refine ⟨_, _, rfl, rfl, rfl, (@element_back_iff _ 0 ownAddress 1 8 1000 (fun _ => 0) (bytesAt 2000 ownAddress) _
    [.add2 2000 0 fun _ => 0] rfl rfl rfl).mpr ⟨.inr (.inl rfl), .inr ?_⟩⟩
  decide +kernel

/-- An element of eight bytes that are the address of others: the others come back. -/
theorem element_lost : ∃ m s, idtCreate2 1 8 1000 (fun _ => 0)
      (fun address => (bytesAt 2000 [184, 11, 0, 0, 0, 0, 0, 0] address).or (bytesAt 3000 [1, 2, 3, 4, 5, 6, 7, 8] address)) =
        some m ∧
    run step (m, fun _ => none) [.add2 2000 0 fun _ => 0] = some s ∧ s.2 0 = some [184, 11, 0, 0, 0, 0, 0, 0] ∧
    idtGetElementAt2 s.1 0 = some [1, 2, 3, 4, 5, 6, 7, 8] := by
  refine ⟨_, _, rfl, rfl, rfl, ?_⟩
  decide +kernel

end

end VoxiUtil.IdTableBytes
