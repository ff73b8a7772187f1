import VoxiUtil.BagMultiset

/-!
How far a bag can grow: sequences of `bagAdd2`, and the bags that a call finds in memory.
-/
namespace VoxiUtil.BagAdds
open VoxiUtil.Bag
open VoxiUtil.BagMultiset
open VoxiUtil.Blocks
open VoxiUtil.Runs
open VoxiUtil.Limits (pointerSize)

/-- The bags in memory, by their addresses. -/
abbrev Bags := Nat → Option SBag

/-- `bagAdd` to one of the bags in memory. -/
def bagAddAt (bags : Bags) (address : Nat) (obj : Pointer) : Option Bags := do
  let bag ← bags address
  let bag ← bagAdd bag obj
  some (Function.update bags address (some bag))

/-- The capacity of a bag that has grown so many times. -/
def capacityAfter (bag : SBag) : Nat → Nat
  | 0 => bag.capacity
  | turns + 1 => grownCapacity { bag with capacity := capacityAfter bag turns }

/-- There is room for so many elements, or one of the capacities that the bag comes to is enough and fits. -/
def CanHold (bag : SBag) (count : Nat) : Prop :=
  count ≤ bag.capacity ∨ ∃ turns, count ≤ capacityAfter bag turns ∧ CapacityFits bag (capacityAfter bag turns)

section
variable {bag : SBag} {contents : List Value} {value : Value} {count : Nat}

/-- Only the capacity decides how a bag grows, and how it was created. -/
theorem capacityAfter_congr {bag' : SBag} (capacity : bag'.capacity = bag.capacity)
    (increment : bag'.capacityIncrement = bag.capacityIncrement) (turns : Nat) : capacityAfter bag' turns = capacityAfter bag turns := by
  induction turns with
  | zero => exact capacity
  | succ turns ih => simp only [capacityAfter, grownCapacity, increment, ih]

theorem canHold_congr {bag' : SBag} (capacity : bag'.capacity = bag.capacity)
    (increment : bag'.capacityIncrement = bag.capacityIncrement) (size : bag'.elementSize = bag.elementSize) (count : Nat) :
    CanHold bag' count ↔ CanHold bag count := by
  simp only [CanHold, CapacityFits, capacityAfter_congr capacity increment, capacity, size]

theorem capacityAfter_grown (bag : SBag) (turns : Nat) :
    capacityAfter { bag with capacity := grownCapacity bag } turns = capacityAfter bag (turns + 1) := by
  induction turns with
  | zero => rfl
  | succ turns ih => simp only [capacityAfter, ih]

theorem capacity_le (bag : SBag) (turns : Nat) : bag.capacity ≤ capacityAfter bag turns := by
  induction turns with
  | zero => exact Nat.le_refl _
  | succ turns ih => exact ih.trans (grown_larger { bag with capacity := capacityAfter bag turns }).le

/-- A full bag can hold more than its capacity when it can hold it grown. -/
theorem canHold_grown (more : bag.capacity < count) : CanHold bag count ↔
    CapacityFits bag (grownCapacity bag) ∧ CanHold { bag with capacity := grownCapacity bag } count := by
  simp only [CanHold, CapacityFits, capacityAfter_grown]
  constructor
  · rintro (room | ⟨turns, enough, fits, bytes⟩)
    · exact absurd room (Nat.not_le.mpr more)
    · cases turns with
      | zero => exact absurd enough (Nat.not_le.mpr more)
      | succ turns =>
        have first := capacity_le { bag with capacity := grownCapacity bag } turns
        rw [capacityAfter_grown] at first
        exact ⟨⟨first.trans fits, (Nat.mul_le_mul_right _ first).trans bytes⟩, .inr ⟨turns, enough, fits, bytes⟩⟩
  · rintro ⟨fits, room | ⟨turns, enough, later⟩⟩
    · exact .inr ⟨1, room, fits⟩
    · exact .inr ⟨turns + 1, enough, later⟩

theorem ensured_fields {middle : SBag} (ensured : ensureIncCapacity bag = some middle) :
    middle.elementSize = bag.elementSize ∧ middle.noElements = bag.noElements := by
  unfold ensureIncCapacity at ensured
  split at ensured
  · simp only [Option.bind_eq_bind, Option.bind_eq_some_iff, assert_eq_some] at ensured
    obtain ⟨_, _, _, _, _, _, ⟨⟩⟩ := ensured
    exact ⟨rfl, rfl⟩
  · cases ensured
    exact ⟨rfl, rfl⟩

theorem add2_size {bag' : SBag} (added : bagAdd2 bag value = some bag') : bag'.elementSize = bag.elementSize := by
  simp only [bagAdd2, Option.bind_eq_bind, Option.bind_eq_some_iff, assert_eq_some] at added
  obtain ⟨_, _, middle, ensured, _, _, _, _, ⟨⟩⟩ := added
  exact (ensured_fields ensured).1

/-- What one `bagAdd2` does to what the bag can hold, or why it fails. -/
theorem add2_canHold (holding : Holding bag contents) (length : value.length = bag.elementSize)
    (more : contents.length < count) :
    (∃ bag', bagAdd2 bag value = some bag' ∧ Holding bag' (contents ++ [value]) ∧ bag'.elementSize = bag.elementSize ∧
        (CanHold bag' count ↔ CanHold bag count)) ∨
      bagAdd2 bag value = none ∧ ¬ CanHold bag count := by
  by_cases full : bag.noElements = bag.capacity
  · have beyond : bag.capacity < count := full ▸ holding.count ▸ more
    by_cases fits : CapacityFits bag (grownCapacity bag)
    · obtain ⟨bag', added, kept, size⟩ := add2_holding holding (fun _ => fits) length
      have grown : bag'.capacity = { bag with capacity := grownCapacity bag }.capacity ∧
          bag'.capacityIncrement = bag.capacityIncrement := by
        simp only [bagAdd2, ensureIncCapacity, if_pos full, Option.bind_eq_bind, Option.bind_eq_some_iff, assert_eq_some] at added
        obtain ⟨_, _, _, ⟨_, _, _, _, _, _, ⟨⟩⟩, _, _, _, _, ⟨⟩⟩ := added
        exact ⟨rfl, rfl⟩
      refine .inl ⟨bag', added, kept, size, ?_⟩
      have same : CanHold bag' count ↔ CanHold { bag with capacity := grownCapacity bag } count :=
        canHold_congr grown.1 grown.2 size count
      rw [same, canHold_grown beyond, and_iff_right fits]
    · refine .inr ⟨?_, fun able => fits ((canHold_grown beyond).mp able).1⟩
      have stuck : ensureIncCapacity bag = none := by
        by_contra grows
        obtain ⟨middle, ensured⟩ := Option.ne_none_iff_exists'.mp grows
        simp only [ensureIncCapacity, if_pos full, Option.bind_eq_bind, Option.bind_eq_some_iff, assert_eq_some] at ensured
        obtain ⟨_, small, _, _, _, bytes, _⟩ := ensured
        exact fits ⟨small, bytes⟩
      simp [bagAdd2, stuck]
  · obtain ⟨bag', added, kept, size⟩ := add2_holding holding (fun same => absurd same full) length
    have same : bag'.capacity = bag.capacity ∧ bag'.capacityIncrement = bag.capacityIncrement := by
      simp only [bagAdd2, ensureIncCapacity, if_neg full, Option.bind_eq_bind, Option.bind_eq_some_iff, assert_eq_some] at added
      obtain ⟨_, _, _, ⟨⟩, _, _, _, _, ⟨⟩⟩ := added
      exact ⟨rfl, rfl⟩
    exact .inl ⟨bag', added, kept, size, canHold_congr same.1 same.2 size count⟩

/-- A sequence of `bagAdd2` ends just when the bag can hold all of the elements. -/
theorem adds_iff {values : List Value} (holding : Holding bag contents)
    (lengths : ∀ value ∈ values, value.length = bag.elementSize) :
    (run bagAdd2 bag values).isSome ↔ CanHold bag (contents.length + values.length) := by
  induction values generalizing bag contents with
  | nil =>
    exact iff_of_true rfl (.inl holding.room)
  | cons value rest ih =>
    have more : contents.length < contents.length + (value :: rest).length := by simp
    rcases add2_canHold holding (lengths value List.mem_cons_self) more with
      ⟨bag', added, kept, size, same⟩ | ⟨failed, unable⟩
    · have later := ih kept fun other member => size ▸ lengths other (List.mem_cons_of_mem _ member)
      rw [run, added, Option.bind_some, later, ← same, List.length_append, List.length_singleton, List.length_cons,
        Nat.add_assoc, Nat.add_comm 1]
    · rw [run, failed]
      exact iff_of_false (by simp) unable

theorem adds_holding {values : List Value} {bag' : SBag} (holding : Holding bag contents)
    (lengths : ∀ value ∈ values, value.length = bag.elementSize) (added : run bagAdd2 bag values = some bag') : Holding bag' (contents ++ values) := by
  induction values generalizing bag contents with
  | nil =>
    cases added
    simpa using holding
  | cons value rest ih =>
    obtain ⟨middle, first, later⟩ := run_cons.mp added
    rcases add2_canHold holding (lengths value List.mem_cons_self) (Nat.lt_succ_self _) with
      ⟨bag', again, kept, size, -⟩ | ⟨failed, -⟩
    · cases again.symm.trans first
      have all := ih kept (fun other member => size ▸ lengths other (List.mem_cons_of_mem _ member)) later
      simpa using all
    · cases failed.symm.trans first

/-- A pointer is added by `bagAdd` as its bytes are by `bagAdd2`. -/
theorem add_same (sized : bag.elementSize = pointerSize) (obj : Pointer) : bagAdd bag obj = bagAdd2 bag obj.val := by
  simp only [bagAdd, bagAdd2, assert_true sized, Option.bind_eq_bind, Option.bind_some]
  refine congrArg _ (funext fun _ => ?_)
  cases ensured : ensureIncCapacity bag with
  | none => rfl
  | some middle => simp only [Option.bind_some, (ensured_fields ensured).1, sized]

/-- A bag that grows by the same number each time. -/
theorem capacityAfter_adds (increases : bag.capacityIncrement ≠ 0) (turns : Nat) :
    capacityAfter bag turns = bag.capacity + turns * bag.capacityIncrement := by
  induction turns with
  | zero => simp [capacityAfter]
  | succ turns ih =>
    rw [capacityAfter, grownCapacity, if_neg increases, ih, Nat.succ_mul, Nat.add_assoc]

end

/-- A full bag of the same pointer. -/
def repeated (count : Nat) (byte : UInt8) : SBag := ⟨count, count, 0, pointerSize, ⟨count * pointerSize, fun _ => some byte⟩⟩

theorem repeated_holding (count : Nat) (byte : UInt8) :
    Holding (repeated count byte) (List.replicate count (List.replicate pointerSize byte)) := by
  refine ⟨by simp [repeated], by simp [repeated], rfl, ⟨by simp [repeated], fun i inside => ?_⟩, Nat.succ_pos 7⟩
  simp [repeated, Ring.slice, pointerSize, List.replicate, List.range_succ]

end VoxiUtil.BagAdds
