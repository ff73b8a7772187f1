import VoxiUtil.IdTableBytes

/-!
Where `idTable.c` looks for a slot of a table: through `ELEMENT`, by the table's own
`slotSize`, or through `table[ index ]`, by the size of `sTableSlot`. Offsets are those
that a machine with pointers of four or of eight bytes calculates.
-/
namespace VoxiUtil.IdTableSlots
open VoxiUtil.IdTableBytes (sizeofInt)
open VoxiUtil.Limits.Signed (intMax)

/-- The machines, by the size of their pointers. -/
inductive Machine
  | pointers4
  | pointers8
deriving DecidableEq

def Machine.sizeofPointer : Machine → Nat
  | .pointers4 => 4
  | .pointers8 => 8

/-- How many values a `size_t` has. -/
def Machine.sizes (machine : Machine) : Nat := 256 ^ machine.sizeofPointer

/-- The next offset at which a field of this alignment may lie. -/
def align (offset alignment : Nat) : Nat := (offset + alignment - 1) / alignment * alignment

section
variable (machine : Machine)

/-- Where the union of an `sTableSlot` is, behind the `int` of its `Boolean`. -/
def dataOffset : Nat := align sizeofInt machine.sizeofPointer

def sizeofTableSlot : Nat := align (dataOffset machine + max sizeofInt machine.sizeofPointer) machine.sizeofPointer

/-- `sIDTable`, as far as the places of slots depend on it. -/
structure SIDTable where
  tableSize : Nat
  elementSize : Nat
  slotSize : Nat

def slotSizeFor (elementSize : Nat) : Nat :=
  (sizeofTableSlot machine + (if elementSize ≥ sizeofInt then elementSize else sizeofInt) - sizeofInt) % machine.sizes

/-- `idt_create2`. -/
def idtCreate2 (initialCount elementSize : Nat) : SIDTable := ⟨initialCount, elementSize, slotSizeFor machine elementSize⟩

/-- `idt_enlarge`. -/
def idtEnlarge (idt : SIDTable) : SIDTable := { idt with tableSize := idt.tableSize * 2 }

/-- The tables that `idt_create2` makes for elements of a size, however often they were enlarged. -/
inductive Made (elementSize : Nat) : SIDTable → Prop
  | create (initialCount : Nat) : Made elementSize (idtCreate2 machine initialCount elementSize)
  | enlarge {idt : SIDTable} : Made elementSize idt → Made elementSize (idtEnlarge idt)

/-- Where `ELEMENT( idt, index )` is. -/
def ELEMENT (idt : SIDTable) (index : Nat) : Nat := index * idt.slotSize % machine.sizes

/-- Where `idt->table[ index ]` is. -/
def tableAt (index : Nat) : Nat := index * sizeofTableSlot machine % machine.sizes

/-- What is written of a slot, by its offset in the slot: `isFree`, and in the union `nextFree`, the pointer of a table with
    elements of the size of a pointer, or the bytes of the element. -/
def Field (idt : SIDTable) (within : Nat) : Prop :=
  within < sizeofInt ∨
    dataOffset machine ≤ within ∧ (within < dataOffset machine + sizeofInt ∨
      idt.elementSize = machine.sizeofPointer ∧ within < dataOffset machine + machine.sizeofPointer ∨
      within < dataOffset machine + idt.elementSize)

/-- The offsets of the bytes that are written for a slot. -/
def Written (idt : SIDTable) (index offset : Nat) : Prop :=
  ∃ within, Field machine idt within ∧ offset = (ELEMENT machine idt index + within) % machine.sizes

/-- The offsets of a slot's bytes. -/
def InSlot (idt : SIDTable) (index offset : Nat) : Prop :=
  ∃ within < idt.slotSize, offset = (ELEMENT machine idt index + within) % machine.sizes

/-- Both ways to a slot lead to the same place, and nothing that is written for a slot is in another. -/
structure Addressed (idt : SIDTable) : Prop where
  same : ∀ index < idt.tableSize, tableAt machine index = ELEMENT machine idt index
  apart : ∀ i < idt.tableSize, ∀ j < idt.tableSize, i ≠ j → ∀ offset, Written machine idt i offset → ¬ InSlot machine idt j offset

end

section
variable {machine : Machine} {elementSize index : Nat} {idt : SIDTable}

theorem made_slotSize (made : Made machine elementSize idt) :
    idt.elementSize = elementSize ∧ idt.slotSize = slotSizeFor machine elementSize := by
  induction made with
  | create initialCount => exact ⟨rfl, rfl⟩
  | enlarge made ih => exact ih

/-- The slots of elements that are no larger than an `int`. -/
theorem slotSizeFor_small (small : elementSize ≤ sizeofInt) : slotSizeFor machine elementSize = sizeofTableSlot machine := by
  have least : (if elementSize ≥ sizeofInt then elementSize else sizeofInt) = sizeofInt := by
    split <;> omega
  rw [slotSizeFor, least, Nat.add_sub_cancel]
  cases machine <;> rfl

/-- The slots of larger elements have another size, even where the sum goes round. -/
theorem slotSizeFor_large (large : sizeofInt < elementSize) (fits : elementSize < machine.sizes) :
    slotSizeFor machine elementSize ≠ sizeofTableSlot machine := by
  rw [slotSizeFor, if_pos large.le]
  cases machine with
  | pointers4 =>
    have slot : sizeofTableSlot .pointers4 = 8 := rfl
    have sizes : Machine.sizes .pointers4 = 4294967296 := rfl
    simp only [slot, sizes, sizeofInt] at *
    omega
  | pointers8 =>
    have slot : sizeofTableSlot .pointers8 = 16 := rfl
    have sizes : Machine.sizes .pointers8 = 18446744073709551616 := rfl
    simp only [slot, sizes, sizeofInt] at *
    omega

/-- The whole memory is a number of slots of `sTableSlot`. -/
theorem sizes_slots (machine : Machine) :
    0 < sizeofTableSlot machine ∧ machine.sizes / sizeofTableSlot machine * sizeofTableSlot machine = machine.sizes := by
  cases machine <;> exact ⟨by decide, by decide⟩

theorem slotSizeFor_lt (machine : Machine) (elementSize : Nat) : slotSizeFor machine elementSize < machine.sizes :=
  Nat.mod_lt _ (Nat.pow_pos (by decide))

theorem sizeofTableSlot_lt (machine : Machine) : sizeofTableSlot machine < machine.sizes := by
  cases machine <;> decide

/-- What is written of a slot of `sTableSlot` is inside of it. -/
theorem field_inside {within : Nat} (small : idt.elementSize ≤ sizeofInt) (field : Field machine idt within) :
    within < sizeofTableSlot machine := by
  unfold sizeofInt at small
  cases machine with
  | pointers4 =>
    have data : dataOffset .pointers4 = 4 := rfl
    have slot : sizeofTableSlot .pointers4 = 8 := rfl
    simp only [Field, data, sizeofInt, Machine.sizeofPointer] at field
    omega
  | pointers8 =>
    have data : dataOffset .pointers8 = 8 := rfl
    have slot : sizeofTableSlot .pointers8 = 16 := rfl
    simp only [Field, data, sizeofInt, Machine.sizeofPointer] at field
    omega

/-- A place in a table that fits into the memory. -/
theorem place_lt {size within count : Nat} (inside : index < count) (part : within < size) : index * size + within < count * size := by
  have next := Nat.mul_le_mul_right size (Nat.succ_le_of_lt inside)
  rw [Nat.succ_mul] at next
  omega

/-- Places inside slots of one size belong to one slot only. -/
theorem place_unique {size i j within other : Nat} (part : within < size) (rest : other < size)
    (same : i * size + within = j * size + other) : i = j := by
  have positive : 0 < size := Nat.zero_lt_of_lt part
  have first : (i * size + within) / size = i := by
    rw [Nat.mul_comm, Nat.mul_add_div positive, Nat.div_eq_of_lt part, Nat.add_zero]
  have second : (j * size + other) / size = j := by
    rw [Nat.mul_comm, Nat.mul_add_div positive, Nat.div_eq_of_lt rest, Nat.add_zero]
  rw [← first, same, second]

theorem small_addressed (small : idt.elementSize ≤ sizeofInt) (slotted : idt.slotSize = sizeofTableSlot machine)
    (fits : idt.tableSize * sizeofTableSlot machine ≤ machine.sizes) : Addressed machine idt where
  same := fun index _ => by rw [tableAt, ELEMENT, slotted]
  apart := by
    rintro i insideI j insideJ differ _ ⟨within, field, rfl⟩ ⟨other, part, same⟩
    have inside := field_inside small field
    rw [slotted] at part
    have first := (place_lt insideI inside).trans_le fits
    have second := (place_lt insideJ part).trans_le fits
    rw [ELEMENT, ELEMENT, slotted, Nat.mod_add_mod, Nat.mod_add_mod, Nat.mod_eq_of_lt first, Nat.mod_eq_of_lt second] at same
    exact differ (place_unique inside part same)

/-- In a larger table another slot begins where the first one does. -/
theorem around_first (large : machine.sizes < idt.tableSize * sizeofTableSlot machine) (slotted : idt.slotSize = sizeofTableSlot machine) :
    ¬ Addressed machine idt := by
  intro addressed
  obtain ⟨positive, whole⟩ := sizes_slots machine
  have inside : machine.sizes / sizeofTableSlot machine < idt.tableSize := by
    rw [← Nat.mul_lt_mul_right positive, whole]
    exact large
  have differ : machine.sizes / sizeofTableSlot machine ≠ 0 := by
    intro none
    rw [none, Nat.zero_mul] at whole
    exact absurd whole.symm (Nat.pow_pos (by decide)).ne'
  have start : ∀ offset, 0 = (ELEMENT machine idt offset + 0) % machine.sizes ↔ ELEMENT machine idt offset % machine.sizes = 0 :=
    fun offset => by rw [Nat.add_zero, eq_comm]
  refine addressed.apart _ inside 0 (Nat.zero_lt_of_lt inside) differ 0 ⟨0, .inl (by decide), (start _).mpr ?_⟩
    ⟨0, by rw [slotted]; exact positive, (start _).mpr ?_⟩
  · rw [ELEMENT, slotted, whole, Nat.mod_self, Nat.zero_mod]
  · rw [ELEMENT, Nat.zero_mul, Nat.zero_mod, Nat.zero_mod]

end

/-! ### The table in memory -/

section
open VoxiUtil.IdTableBytes (Memory isFreeAt decodeInt ptrdiffMax)
variable {m : Memory} {index : Int}

/-- The places in a table whose bytes are in memory. -/
def places (idt : IdTableBytes.SIDTable) : SIDTable := ⟨idt.tableSize.toNat, idt.elementSize, idt.slotSize⟩

theorem ELEMENT_places (fits : m.idt.bytes ≤ ptrdiffMax) (inside : 0 ≤ index ∧ index < m.idt.tableSize) :
    ELEMENT .pointers8 (places m.idt) index.toNat = index.toNat * m.idt.slotSize := by
  have whole : index.toNat * m.idt.slotSize ≤ m.idt.bytes := by
    rw [IdTableBytes.SIDTable.bytes, Nat.mul_comm m.idt.slotSize]
    exact Nat.mul_le_mul_right _ (by omega)
  exact Nat.mod_eq_of_lt ((whole.trans fits).trans_lt (by decide))

theorem tableAt_places (count : m.idt.tableSize ≤ intMax) (inside : 0 ≤ index ∧ index < m.idt.tableSize) :
    tableAt .pointers8 index.toNat = index.toNat * IdTableBytes.sizeofTableSlot := by
  have sizes : Machine.sizes .pointers8 = 18446744073709551616 := rfl
  have slot : sizeofTableSlot .pointers8 = 16 := rfl
  rw [intMax] at count
  rw [tableAt, sizes, slot, IdTableBytes.sizeofTableSlot]
  exact Nat.mod_eq_of_lt (by omega)

/-- The assertions on `table[ index ].isFree` look at the flag of the slot itself, in a table whose slots are addressed alike. -/
theorem isFreeAt_own (fits : m.idt.bytes ≤ ptrdiffMax) (count : m.idt.tableSize ≤ intMax)
    (addressed : Addressed .pointers8 (places m.idt)) :
    isFreeAt m index = (IdTableBytes.ELEMENT m.idt index).map fun offset => decodeInt (Ring.slice m.block offset sizeofInt) := by
  rw [isFreeAt, IdTableBytes.ELEMENT]
  by_cases inside : 0 ≤ index ∧ index < m.idt.tableSize
  · have same := addressed.same index.toNat ((Int.toNat_lt_toNat (inside.1.trans_lt inside.2)).mpr inside.2)
    rw [tableAt_places count inside, ELEMENT_places fits inside] at same
    rw [if_pos inside, if_pos inside, Option.map_some, same]
  · rw [if_neg inside, if_neg inside, Option.map_none]

end

/-- For every element size of type `size_t` and every table made with it, `ELEMENT` and `table[ index ]` lead to the same slots
    and the slots are kept apart just when there is one slot at most, or the elements are no larger than an `int` and the
    table fits into the memory. -/
theorem addressed_iff {machine : Machine} {elementSize : Nat} {idt : SIDTable} (size : elementSize < machine.sizes)
    (made : Made machine elementSize idt) :
    Addressed machine idt ↔
      idt.tableSize ≤ 1 ∨ elementSize ≤ sizeofInt ∧ idt.tableSize * sizeofTableSlot machine ≤ machine.sizes := by
  obtain ⟨rfl, slotted⟩ := made_slotSize made
  by_cases single : idt.tableSize ≤ 1
  · refine iff_of_true ⟨fun index inside => ?_, fun i insideI j insideJ differ => ?_⟩ (.inl single)
    · obtain rfl : index = 0 := by omega
      rw [tableAt, ELEMENT, Nat.zero_mul, Nat.zero_mul]
    · exact absurd (show i = j by omega) differ
  · rw [or_iff_right single]
    by_cases small : idt.elementSize ≤ sizeofInt
    · rw [slotSizeFor_small small] at slotted
      rw [and_iff_right small]
      refine ⟨fun addressed => ?_, small_addressed small slotted⟩
      by_contra large
      exact around_first (not_le.mp large) slotted addressed
    · refine iff_of_false (fun addressed => ?_) fun both => small both.1
      -- the second slot already lies somewhere else
      have second := addressed.same 1 (not_le.mp single)
      rw [tableAt, ELEMENT, slotted, Nat.one_mul, Nat.one_mul, Nat.mod_eq_of_lt (sizeofTableSlot_lt machine),
        Nat.mod_eq_of_lt (slotSizeFor_lt machine _)] at second
      exact slotSizeFor_large (not_le.mp small) size second.symm

theorem addressed_iff_small : Addressed .pointers8 (idtEnlarge (idtCreate2 .pointers8 10 4)) :=
  (addressed_iff (by decide) (.enlarge (.create 10))).mpr (.inr ⟨by decide, by decide⟩)

/-- The table of `idt_create( 2 )` with pointers of eight bytes: the slots begin 20 bytes apart, and are looked for 16 bytes apart. -/
theorem pointer_slots_missed :
    Made .pointers8 8 (idtCreate2 .pointers8 2 8) ∧ ¬ Addressed .pointers8 (idtCreate2 .pointers8 2 8) :=
  ⟨.create 2, fun addressed => absurd (addressed.same 1 (by decide)) (by decide)⟩

end VoxiUtil.IdTableSlots
