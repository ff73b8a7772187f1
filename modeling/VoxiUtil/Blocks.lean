import Mathlib.Order.Nat
import VoxiUtil.Ring
import VoxiUtil.Runs

/-!
A block of memory with values of one size in it, one behind another. A cell that
was not written is `none`; an access outside the block, or to such a cell, has no
outcome.
-/
namespace VoxiUtil.Blocks
open VoxiUtil.Ring (slice store slice_store slice_store_other slice_length)
open VoxiUtil.Runs (assert assert_true)

structure Block (β : Type) where
  size : Nat
  cell : Nat → Option β

variable {β : Type}

def allocate (size : Nat) : Block β := ⟨size, fun _ => none⟩

/-- What was in the block, as far as it reaches, in one of another size. -/
def realloc (block : Block β) (size : Nat) : Block β := ⟨size, fun i => if i < block.size then block.cell i else none⟩

def load (block : Block β) (offset length : Nat) : Option (List β) := do
  assert (offset + length ≤ block.size)
  (slice block.cell offset length).mapM id

def save (block : Block β) (offset : Nat) (value : List β) : Option (Block β) := do
  assert (offset + value.length ≤ block.size)
  some { block with cell := store block.cell offset (value.map some) }

/-- The values of the block, each of `size` cells. -/
structure Packed (size : Nat) (block : Block β) (values : List (List β)) : Prop where
  room : values.length * size ≤ block.size
  value : ∀ i (inside : i < values.length), slice block.cell (i * size) size = values[i].map some

section
variable {size i offset : Nat} {block : Block β} {value : List β} {values : List (List β)}

theorem mapM_some (value : List β) : (value.map some).mapM id = some value := by
  induction value with
  | nil => rfl
  | cons first rest ih =>
    rw [List.map_cons, List.mapM_cons, ih]
    rfl

theorem Packed.length (packed : Packed size block values) (inside : i < values.length) : values[i].length = size := by
  have same := congrArg List.length (packed.value i inside)
  rwa [slice_length, List.length_map, eq_comm] at same

/-- Where a value ends. -/
theorem end_le {count : Nat} (inside : i < count) : i * size + size ≤ count * size := by
  have next : (i + 1) * size ≤ count * size := Nat.mul_le_mul_right size inside
  rwa [Nat.succ_mul] at next

theorem load_packed (packed : Packed size block values) (inside : i < values.length) :
    load block (i * size) size = some values[i] := by
  rw [load, assert_true ((end_le inside).trans packed.room), packed.value i inside, Option.bind_eq_bind, Option.bind_some,
    mapM_some]

/-- What the values cover is written. -/
theorem load_within {length : Nat} (packed : Packed size block values) (inside : offset + length ≤ values.length * size) :
    ∃ value, load block offset length = some value ∧ value.length = length := by
  have written : ∀ k < values.length * size, ∃ b, block.cell k = some b := by
    intro k before
    have positive : 0 < size := by
      by_contra zero
      rw [Nat.eq_zero_of_not_pos zero, Nat.mul_zero] at before
      omega
    have index : k / size < values.length := Nat.div_lt_of_lt_mul (by rwa [Nat.mul_comm])
    have column := Nat.mod_lt k positive
    have cells := congrArg (·[k % size]?) (packed.value (k / size) index)
    have long : k % size < values[k / size].length := by rwa [packed.length index]
    simp only [slice, List.getElem?_map, List.getElem?_range column, List.getElem?_eq_getElem long, Option.map_some,
      Option.some.injEq, Nat.div_add_mod'] at cells
    exact ⟨_, cells⟩
  have cells : ∃ value : List β, slice block.cell offset length = value.map some := by
    choose byte there using fun i (before : i < length) => written (offset + i) (by omega)
    refine ⟨(List.range length).pmap byte fun i member => List.mem_range.mp member, ?_⟩
    rw [List.map_pmap, slice, ← List.pmap_eq_map fun _ _ => trivial]
    exact List.pmap_congr_left _ fun i _ _ before => there i before
  obtain ⟨value, is⟩ := cells
  refine ⟨value, ?_, ?_⟩
  · rw [load, assert_true (inside.trans packed.room), is, Option.bind_eq_bind, Option.bind_some, mapM_some]
  · rw [← List.length_map, ← is, slice_length]

theorem save_inside (fits : offset + value.length ≤ block.size) :
    save block offset value = some { block with cell := store block.cell offset (value.map some) } := by
  rw [save, assert_true fits]
  rfl

theorem empty_packed (size : Nat) (block : Block β) : Packed size block [] :=
  ⟨by simp, fun i inside => absurd inside (Nat.not_lt_zero i)⟩

/-- A value over another. -/
theorem save_packed (packed : Packed size block values) (inside : i < values.length) (length : value.length = size) :
    ∃ block', save block (i * size) value = some block' ∧ block'.size = block.size ∧ Packed size block' (values.set i value) := by
  have fits : i * size + value.length ≤ block.size := by
    rw [length]
    exact (end_le inside).trans packed.room
  refine ⟨_, save_inside fits, rfl, by rw [List.length_set]; exact packed.room, fun j other => ?_⟩
  rw [List.length_set] at other
  rw [List.getElem_set]
  by_cases same : i = j
  · subst same
    rw [if_pos rfl]
    have written := slice_store block.cell (i * size) (value.map some)
    rwa [List.length_map, length] at written
  · rw [if_neg same, ← packed.value j other]
    apply slice_store_other
    rw [List.length_map, length]
    rcases Nat.lt_or_gt_of_ne same with before | behind
    · exact .inr (end_le before)
    · exact .inl (end_le behind)

/-- A value behind the last one. -/
theorem append_packed (packed : Packed size block values) (room : (values.length + 1) * size ≤ block.size)
    (length : value.length = size) :
    ∃ block', save block (values.length * size) value = some block' ∧ block'.size = block.size ∧
      Packed size block' (values ++ [value]) := by
  have fits : values.length * size + value.length ≤ block.size := by rwa [length, ← Nat.succ_mul]
  refine ⟨_, save_inside fits, rfl, by simpa using room, fun j other => ?_⟩
  rw [List.length_append, List.length_singleton] at other
  by_cases inside : j < values.length
  · rw [List.getElem_append_left inside, ← packed.value j inside]
    apply slice_store_other
    exact .inl (end_le inside)
  · obtain rfl : j = values.length := by omega
    have written := slice_store block.cell (values.length * size) (value.map some)
    rw [List.length_map, length] at written
    rw [List.getElem_append_right (Nat.le_refl _)]
    simpa using written

/-- The values but the last. -/
theorem dropLast_packed (packed : Packed size block values) : Packed size block values.dropLast := by
  refine ⟨?_, fun i inside => ?_⟩
  · rw [List.length_dropLast]
    exact (Nat.mul_le_mul_right size (Nat.sub_le _ 1)).trans packed.room
  · rw [List.getElem_dropLast]
    exact packed.value i _

/-- The values in a block that has grown. -/
theorem realloc_packed (packed : Packed size block values) {larger : Nat} (grows : block.size ≤ larger) :
    Packed size (realloc block larger) values := by
  refine ⟨packed.room.trans grows, fun i inside => ?_⟩
  rw [← packed.value i inside]
  apply List.map_congr_left
  intro j member
  have small := List.mem_range.mp member
  have fits := (end_le inside).trans packed.room
  exact if_pos (by omega)

end

end VoxiUtil.Blocks
