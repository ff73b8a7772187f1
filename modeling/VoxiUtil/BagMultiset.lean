import Mathlib.Data.List.Perm.Basic
import Mathlib.Data.Multiset.AddSub
import VoxiUtil.Bag

/-!
A bag as the multiset of its elements. The elements lie one behind another from the
front of the array; removal puts the last one in the place of what it takes away.
-/
namespace VoxiUtil.BagMultiset
open VoxiUtil.Bag
open VoxiUtil.Blocks
open VoxiUtil.Runs
open VoxiUtil.Limits (intMax pointerSize sizeMax)

/-! ### Taking out of a list by its last element -/

section
variable {α : Type} {front : List α} {last : α} {i : Nat}

/-- The last element in the place of another. -/
theorem swap_perm (inside : i < front.length) : (front ++ [last]).Perm (front[i] :: front.set i last) := by
  calc
    (front ++ [last]).Perm (last :: front) := List.perm_append_singleton last front
    _ |>.Perm (last :: front[i] :: front.eraseIdx i) := (List.getElem_cons_eraseIdx_perm inside).symm.cons last
    _ |>.Perm (front[i] :: last :: front.eraseIdx i) := List.Perm.swap _ _ _
    _ |>.Perm (front[i] :: front.set i last) := (List.set_perm_cons_eraseIdx inside last).symm.cons front[i]

end

/-- The first elements of a bag, read one after another. -/
def elements (bag : SBag) : Nat → Option (List Value)
  | 0 => some []
  | count + 1 => do
    let front ← elements bag count
    let element ← load bag.array (count * bag.elementSize) bag.elementSize
    some (front ++ [element])

/-- A bag with these elements in its array. -/
structure Holding (bag : SBag) (contents : List Value) : Prop where
  count : bag.noElements = contents.length
  room : contents.length ≤ bag.capacity
  allocated : bag.array.size = bag.capacity * bag.elementSize
  packed : Packed bag.elementSize bag.array contents
  valid : 0 < bag.elementSize

/-- The elements are all of one size. -/
theorem Holding.value_length {bag : SBag} {contents : List Value} (holding : Holding bag contents) {value : Value}
    (member : value ∈ contents) : value.length = bag.elementSize := by
  obtain ⟨i, inside, rfl⟩ := List.getElem_of_mem member
  exact holding.packed.length inside

/-- The capacity and the bytes of the array are in the range of their types. -/
def CapacityFits (bag : SBag) (capacity : Nat) : Prop := capacity ≤ intMax ∧ capacity * bag.elementSize ≤ sizeMax

/-- A bag that has to grow can. -/
def GrowthFits (bag : SBag) : Prop := bag.noElements = bag.capacity → CapacityFits bag (grownCapacity bag)

section
variable {bag : SBag} {contents : List Value} {value : Value} {i turns : Nat}

theorem created_holding (initialCapacity capacityIncrement : Nat) {elementSize : Nat} (positive : 0 < elementSize) :
    Holding (created initialCapacity capacityIncrement elementSize) [] :=
  ⟨rfl, Nat.zero_le _, Nat.mul_comm _ _, empty_packed _ _, positive⟩

theorem create_iff {initialCapacity capacityIncrement elementSize : Nat} (positive : 0 < elementSize) :
    bagCreate2 initialCapacity capacityIncrement elementSize = some bag ↔
      elementSize * initialCapacity ≤ sizeMax ∧ bag = created initialCapacity capacityIncrement elementSize := by
  have valid : bagIsValid (created initialCapacity capacityIncrement elementSize) := positive
  simp only [bagCreate2, assert_true valid, Option.bind_eq_bind, Option.bind_some, Option.bind_eq_some_iff, assert_eq_some, exists_const,
    Option.some.injEq]
  rw [eq_comm (a := bag)]

theorem grown_larger (bag : SBag) : bag.capacity < grownCapacity bag := by
  unfold grownCapacity
  by_cases doubling : bag.capacityIncrement = 0
  · rw [if_pos doubling]
    by_cases empty : bag.capacity = 0
    · rw [if_pos empty, empty]
      exact Nat.one_pos
    · rw [if_neg empty]
      omega
  · rw [if_neg doubling]
    exact Nat.lt_add_of_pos_right (Nat.pos_of_ne_zero doubling)

/-- Room for one element more, in either way of growing. -/
theorem ensure_holding (holding : Holding bag contents) (fits : GrowthFits bag) :
    ∃ bag', ensureIncCapacity bag = some bag' ∧ Holding bag' contents ∧ contents.length < bag'.capacity ∧
      bag'.elementSize = bag.elementSize := by
  unfold ensureIncCapacity
  by_cases full : bag.noElements = bag.capacity
  · have larger := grown_larger bag
    have positive : grownCapacity bag ≠ 0 := Nat.ne_of_gt (Nat.zero_lt_of_lt larger)
    have grows : bag.array.size ≤ grownCapacity bag * bag.elementSize := by
      rw [holding.allocated]
      exact Nat.mul_le_mul_right _ larger.le
    refine ⟨{ bag with capacity := grownCapacity bag, array := realloc bag.array (grownCapacity bag * bag.elementSize) },
      ?_, ?_, holding.room.trans_lt larger, rfl⟩
    · simp [full, (fits full).1, (fits full).2, positive, assert]
    · exact { holding with
              room := holding.room.trans larger.le
              allocated := rfl
              packed := realloc_packed holding.packed grows }
  · rw [if_neg full]
    exact ⟨bag, rfl, holding, Nat.lt_of_le_of_ne holding.room fun same => full (holding.count.trans same), rfl⟩

/-- An element written behind the last one. -/
theorem written_holding (holding : Holding bag contents) (room : contents.length < bag.capacity)
    (length : value.length = bag.elementSize) :
    ∃ array, save bag.array (bag.noElements * bag.elementSize) value = some array ∧
      Holding { bag with array := array, noElements := bag.noElements + 1 } (contents ++ [value]) := by
  have fits : (contents.length + 1) * bag.elementSize ≤ bag.array.size := by
    rw [holding.allocated]
    exact Nat.mul_le_mul_right _ room
  obtain ⟨array, saved, size, packed⟩ := append_packed holding.packed fits length
  refine ⟨array, by rw [holding.count, saved], ?_⟩
  exact { count := by simp [holding.count]
          room := by simpa using Nat.succ_le_of_lt room
          allocated := size.trans holding.allocated
          packed := packed
          valid := holding.valid }

theorem add2_holding (holding : Holding bag contents) (fits : GrowthFits bag) (length : value.length = bag.elementSize) :
    ∃ bag', bagAdd2 bag value = some bag' ∧ Holding bag' (contents ++ [value]) ∧ bag'.elementSize = bag.elementSize := by
  obtain ⟨middle, ensured, kept, room, size⟩ := ensure_holding holding fits
  obtain ⟨array, saved, written⟩ := written_holding kept room (length.trans size.symm)
  refine ⟨_, ?_, written, size⟩
  have valid : bagIsValid bag := holding.valid
  have after : bagIsValid { middle with array := array, noElements := middle.noElements + 1 } := written.valid
  simp only [bagAdd2, assert_true valid, ensured, saved, assert_true after, Option.bind_eq_bind, Option.bind_some]

theorem add2Own_holding {offset : Nat} (holding : Holding bag contents) (room : bag.noElements ≠ bag.capacity)
    (inside : offset + bag.elementSize ≤ bag.noElements * bag.elementSize) :
    ∃ data bag', load bag.array offset bag.elementSize = some data ∧ bagAdd2Own bag offset = some bag' ∧
      Holding bag' (contents ++ [data]) := by
  have more : contents.length < bag.capacity := Nat.lt_of_le_of_ne holding.room fun same => room (holding.count.trans same)
  rw [holding.count] at inside
  obtain ⟨data, loaded, length⟩ := load_within holding.packed inside
  obtain ⟨array, saved, written⟩ := written_holding holding more length
  have valid : bagIsValid bag := holding.valid
  have after : bagIsValid { bag with array := array, noElements := bag.noElements + 1 } := written.valid
  have still : ensureIncCapacity bag = some bag := if_neg room
  refine ⟨data, _, loaded, ?_, written⟩
  simp only [bagAdd2Own, assert_true valid, still, assert_true room, loaded, saved, assert_true after, Option.bind_eq_bind,
    Option.bind_some]

theorem add_holding (holding : Holding bag contents) (fits : GrowthFits bag) (sized : bag.elementSize = pointerSize)
    (obj : Pointer) :
    ∃ bag', bagAdd bag obj = some bag' ∧ Holding bag' (contents ++ [obj.val]) ∧ bag'.elementSize = bag.elementSize := by
  have length : obj.val.length = bag.elementSize := obj.property.trans sized.symm
  obtain ⟨middle, ensured, kept, room, size⟩ := ensure_holding holding fits
  obtain ⟨array, saved, written⟩ := written_holding kept room (length.trans size.symm)
  refine ⟨_, ?_, written, size⟩
  have valid : bagIsValid bag := holding.valid
  have after : bagIsValid { middle with array := array, noElements := middle.noElements + 1 } := written.valid
  rw [size, sized] at saved
  simp only [bagAdd, assert_true sized, assert_true valid, ensured, saved, assert_true after, Option.bind_eq_bind,
    Option.bind_some]

/-- The last element over another, and one element less. -/
theorem swap_holding (holding : Holding bag contents) (inside : i < contents.length) :
    ∃ last array contents', load bag.array ((bag.noElements - 1) * bag.elementSize) bag.elementSize = some last ∧
      save bag.array (i * bag.elementSize) last = some array ∧
      Holding { bag with array := array, noElements := bag.noElements - 1 } contents' ∧
      contents.Perm (contents[i] :: contents') ∧ contents'.take i = contents.take i := by
  rcases List.eq_nil_or_concat' contents with rfl | ⟨front, last, rfl⟩
  · exact absurd inside (Nat.not_lt_zero i)
  · have lengths : (front ++ [last]).length = front.length + 1 := by simp
    have behind : front.length < (front ++ [last]).length := by simp
    have newest := load_packed holding.packed behind
    rw [List.getElem_append_right (Nat.le_refl _)] at newest
    simp only [Nat.sub_self, List.getElem_cons_zero] at newest
    have size : last.length = bag.elementSize := by simpa using holding.packed.length behind
    obtain ⟨array, saved, same, packed⟩ := save_packed holding.packed inside size
    have shorter : bag.noElements - 1 = front.length := by rw [holding.count, lengths, Nat.add_sub_cancel]
    have kept : Holding { bag with array := array, noElements := bag.noElements - 1 } ((front ++ [last]).set i last).dropLast :=
      { count := by simp [shorter]
        room := by
          have room := holding.room
          simp only [List.length_dropLast, List.length_set, lengths] at room ⊢
          omega
        allocated := same.trans holding.allocated
        packed := dropLast_packed packed
        valid := holding.valid }
    refine ⟨last, array, _, shorter ▸ newest, saved, kept, ?_⟩
    by_cases before : i < front.length
    · have taken : ((front ++ [last]).set i last).dropLast = front.set i last := by
        rw [List.set_append_left _ _ before, List.dropLast_concat]
      rw [taken, List.getElem_append_left before]
      exact ⟨swap_perm before, by simp [List.take_set_of_le, List.take_append_of_le_length before.le]⟩
    · obtain rfl : i = front.length := by omega
      have taken : ((front ++ [last]).set front.length last).dropLast = front := by
        rw [List.set_append_right _ _ (Nat.le_refl _), Nat.sub_self, List.set_cons_zero, List.dropLast_concat]
      rw [taken, List.getElem_append_right (Nat.le_refl _)]
      simp only [Nat.sub_self, List.getElem_cons_zero]
      exact ⟨List.perm_append_singleton last front, by simp⟩

/-- The rest of the elements behind a removal. -/
theorem swap_drop {rest : List Value} (inside : i < contents.length) (swapped : contents.Perm (contents[i] :: rest))
    (front : rest.take i = contents.take i) : (contents.drop i).Perm (contents[i] :: rest.drop i) := by
  have parts : (contents.take i ++ contents.drop i).Perm (contents.take i ++ contents[i] :: rest.drop i) := by
    calc
      (contents.take i ++ contents.drop i).Perm contents := by rw [List.take_append_drop]
      _ |>.Perm (contents[i] :: rest) := swapped
      _ |>.Perm (contents[i] :: (contents.take i ++ rest.drop i)) := by rw [← front, List.take_append_drop]
      _ |>.Perm (contents.take i ++ contents[i] :: rest.drop i) := List.perm_middle.symm
  exact (List.perm_append_left_iff _).mp parts

/-! ### Loops -/

/-- The first element that is equal, from `i` on, or none. -/
theorem removeLoop_holding (holding : Holding bag contents) (ends : turns + i = contents.length) (value : Value) :
    (value ∉ contents.drop i ∧ removeLoop bag bag.elementSize value turns i = some (false, bag)) ∨
      ∃ bag' contents', removeLoop bag bag.elementSize value turns i = some (true, bag') ∧ Holding bag' contents' ∧
        contents.Perm (value :: contents') ∧ bag'.elementSize = bag.elementSize := by
  induction turns generalizing i with
  | zero =>
    left
    simp [removeLoop, List.drop_of_length_le (show contents.length ≤ i by omega)]
  | succ turns ih =>
    have inside : i < contents.length := by omega
    have loaded := load_packed holding.packed inside
    rw [removeLoop, loaded, Option.bind_eq_bind, Option.bind_some]
    by_cases found : contents[i] = value
    · right
      obtain ⟨last, array, rest, newest, saved, kept, swapped, -⟩ := swap_holding holding inside
      refine ⟨_, rest, ?_, kept, found ▸ swapped, rfl⟩
      simp [found, newest, saved]
    · rw [if_neg found]
      rcases ih (i := i + 1) (by omega) with ⟨absent, done⟩ | removed
      · left
        refine ⟨?_, done⟩
        rw [List.drop_eq_getElem_cons inside, List.mem_cons]
        exact not_or.mpr ⟨fun same => found same.symm, absent⟩
      · exact .inr removed

theorem containsLoop_holding (holding : Holding bag contents) (ends : turns + i = contents.length) (value : Value)
    (contains : Bool) :
    containsLoop bag value turns i contains = some (contains || decide (value ∈ contents.drop i)) := by
  induction turns generalizing i contains with
  | zero => simp [containsLoop, List.drop_of_length_le (show contents.length ≤ i by omega)]
  | succ turns ih =>
    have inside : i < contents.length := by omega
    have here : value ∈ contents.drop i ↔ value = contents[i] ∨ value ∈ contents.drop (i + 1) := by
      rw [List.drop_eq_getElem_cons inside, List.mem_cons]
    rw [containsLoop, load_packed holding.packed inside, Option.bind_eq_bind, Option.bind_some, ih (by omega)]
    by_cases found : contents[i] = value
    · simp [here, found]
    · have other : value ≠ contents[i] := fun same => found same.symm
      simp [here, found, other]

/-- What a filter keeps of the elements that it is shown one after another. -/
def kept (filterFunc : List Value → Value → Bool) : List Value → List Value → List Value
  | _, [] => []
  | seen, element :: rest =>
    if filterFunc seen element then element :: kept filterFunc (seen ++ [element]) rest
    else kept filterFunc (seen ++ [element]) rest

/-- The loop of `bagFilter2` together with what the filter has been shown. -/
def filterCalls (filterFunc : List Value → Value → Bool) : Nat → SBag → Nat → Int → List Value → Option (SBag × List Value)
  | 0, bag, i, _, seen => if i < bag.noElements then none else some (bag, seen)
  | turns + 1, bag, i, lastPtr, seen =>
    if i < bag.noElements then do
      let element ← load bag.array (i * bag.elementSize) bag.elementSize
      if filterFunc seen element then filterCalls filterFunc turns bag (i + 1) lastPtr (seen ++ [element])
      else do
        assert (0 ≤ lastPtr)
        let last ← load bag.array lastPtr.toNat bag.elementSize
        let array ← save bag.array (i * bag.elementSize) last
        let bag := { bag with array := array, noElements := bag.noElements - 1 }
        filterCalls filterFunc turns bag i (lastPtr - bag.elementSize) (seen ++ [element])
    else some (bag, seen)

theorem filterCalls_fst (filterFunc : List Value → Value → Bool) (turns : Nat) (bag : SBag) (i : Nat) (lastPtr : Int) (seen : List Value) :
    (filterCalls filterFunc turns bag i lastPtr seen).map Prod.fst = filterLoop filterFunc turns bag i lastPtr seen := by
  induction turns generalizing bag i lastPtr seen with
  | zero =>
    unfold filterCalls filterLoop
    split <;> rfl
  | succ turns ih =>
    unfold filterCalls filterLoop
    by_cases more : i < bag.noElements
    · simp only [if_pos more, Option.bind_eq_bind, Option.map_bind]
      refine congrArg _ (funext fun element => ?_)
      by_cases verdict : filterFunc seen element = true
      · simp only [Function.comp_apply, if_pos verdict, ih]
      · simp only [Function.comp_def, if_neg verdict, Option.map_bind, ih]
    · simp only [if_neg more, Option.map_some]

/-- Every element from `i` on is shown once, and stays when the filter says so. -/
theorem filterCalls_holding (filterFunc : List Value → Value → Bool) (seen : List Value) {lastPtr : Int} (holding : Holding bag contents)
    (enough : contents.length ≤ turns + i)
    (last : lastPtr = ((bag.noElements : Int) - 1) * bag.elementSize) :
    ∃ bag' contents' shown, filterCalls filterFunc turns bag i lastPtr seen = some (bag', seen ++ shown) ∧ Holding bag' contents' ∧
      bag'.elementSize = bag.elementSize ∧ shown.Perm (contents.drop i) ∧
      contents'.Perm (contents.take i ++ kept filterFunc seen shown) := by
  induction turns generalizing bag contents i seen lastPtr with
  | zero =>
    have behind : ¬ i < bag.noElements := by
      rw [holding.count]
      omega
    refine ⟨bag, contents, [], by rw [filterCalls, if_neg behind, List.append_nil], holding, rfl, ?_, ?_⟩
    · rw [List.drop_of_length_le (by omega)]
    · rw [List.take_of_length_le (by omega), kept, List.append_nil]
  | succ turns ih =>
    by_cases more : i < bag.noElements
    · have inside : i < contents.length := holding.count ▸ more
      have loaded := load_packed holding.packed inside
      have dropped := List.drop_eq_getElem_cons inside
      simp only [filterCalls, if_pos more, loaded, Option.bind_eq_bind, Option.bind_some]
      cases verdict : filterFunc seen contents[i] with
      | true =>
        obtain ⟨bag', contents', shown, done, after, size, all, result⟩ :=
          ih (i := i + 1) (seen ++ [contents[i]]) holding (by omega) last
        refine ⟨bag', contents', contents[i] :: shown, by simpa using done, after, size, ?_, ?_⟩
        · rw [dropped]
          exact all.cons contents[i]
        · rw [kept, verdict, if_pos rfl]
          rwa [← List.take_append_getElem inside, List.append_assoc, List.singleton_append] at result
      | false =>
        obtain ⟨newest, array, rest, read, saved, swapped, same, front⟩ := swap_holding holding inside
        have shorter := same.length_eq
        rw [List.length_cons] at shorter
        have address : lastPtr = ((bag.noElements - 1) * bag.elementSize : Nat) := by
          rw [last, Int.natCast_mul, Int.natCast_sub (Nat.succ_le_of_lt (Nat.zero_lt_of_lt more)), Int.natCast_one]
        have next : lastPtr - bag.elementSize = (((bag.noElements - 1 : Nat) : Int) - 1) * bag.elementSize := by
          rw [address, Int.natCast_mul, Int.sub_mul, Int.one_mul]
        obtain ⟨bag', contents', shown, done, after, size, all, result⟩ :=
          ih (i := i) (seen ++ [contents[i]]) swapped (by omega) next
        refine ⟨bag', contents', contents[i] :: shown, ?_, after, size, ?_, ?_⟩
        · have inFront : 0 ≤ lastPtr := address ▸ Int.natCast_nonneg _
          have offset : lastPtr.toNat = (bag.noElements - 1) * bag.elementSize := by rw [address, Int.toNat_natCast]
          simpa [inFront, offset, read, saved] using done
        · exact (all.cons contents[i]).trans (swap_drop inside same front).symm
        · rw [kept, verdict, if_neg Bool.false_ne_true, ← front]
          exact result
    · refine ⟨bag, contents, [], by rw [filterCalls, if_neg more, List.append_nil], holding, rfl, ?_, ?_⟩
      · rw [List.drop_of_length_le (by rw [← holding.count]; omega)]
      · rw [List.take_of_length_le (by rw [← holding.count]; omega), kept, List.append_nil]

theorem filterLoop_holding (filterFunc : List Value → Value → Bool) (seen : List Value) {lastPtr : Int} (holding : Holding bag contents)
    (enough : contents.length ≤ turns + i)
    (last : lastPtr = ((bag.noElements : Int) - 1) * bag.elementSize) :
    ∃ bag' contents' shown, filterLoop filterFunc turns bag i lastPtr seen = some bag' ∧ Holding bag' contents' ∧
      bag'.elementSize = bag.elementSize ∧ shown.Perm (contents.drop i) ∧
      contents'.Perm (contents.take i ++ kept filterFunc seen shown) := by
  obtain ⟨bag', contents', shown, done, rest⟩ := filterCalls_holding filterFunc seen holding enough last
  exact ⟨bag', contents', shown, by rw [← filterCalls_fst, done]; rfl, rest⟩

theorem elements_holding (holding : Holding bag contents) : elements bag bag.noElements = some contents := by
  have each : ∀ count ≤ contents.length, elements bag count = some (contents.take count) := by
    intro count
    induction count with
    | zero => intro _; rfl
    | succ count ih =>
      intro inside
      simp [elements, ih (by omega), load_packed holding.packed inside]
  rw [holding.count, each _ (Nat.le_refl _), List.take_length]

theorem remove2_holding (holding : Holding bag contents) (value : Value) :
    (value ∉ contents ∧ bagRemoveMaybe2 bag value = some (false, bag)) ∨
      ∃ bag' contents', bagRemoveMaybe2 bag value = some (true, bag') ∧ Holding bag' contents' ∧
        contents.Perm (value :: contents') := by
  have valid : bagIsValid bag := holding.valid
  simp only [bagRemoveMaybe2, assert_true valid, Option.bind_eq_bind, Option.bind_some, holding.count]
  rcases removeLoop_holding (i := 0) holding (Nat.add_zero _) value with ⟨absent, done⟩ | ⟨bag', rest, done, kept, same, -⟩
  · exact .inl ⟨absent, done⟩
  · exact .inr ⟨bag', rest, done, kept, same⟩

/-- The pointers are looked at where the elements are. -/
theorem removeMaybe_same (bag : SBag) (sized : bag.elementSize = pointerSize) (obj : Pointer) :
    bagRemoveMaybe bag obj = bagRemoveMaybe2 bag obj.val := by
  simp [bagRemoveMaybe, bagRemoveMaybe2, sized]

end

/-! ### Runs -/

inductive Call
  | add (obj : Pointer)
  | add2 (data : Value)
  | add2Own (offset : Nat)
  | removeMaybe (obj : Pointer)
  | removeMaybe2 (data : Value)
  | filter2 (filterFunc : List Value → Value → Bool)
  | contains2 (element : Value)

/-- A bag, and what the last call returned. -/
structure Client where
  bag : SBag
  result : Option Bool

def call (c : Client) : Call → Option Client
  | .add obj => (bagAdd c.bag obj).map fun bag => ⟨bag, none⟩
  | .add2 data => (bagAdd2 c.bag data).map fun bag => ⟨bag, none⟩
  | .add2Own offset => (bagAdd2Own c.bag offset).map fun bag => ⟨bag, none⟩
  | .removeMaybe obj => (bagRemoveMaybe c.bag obj).map fun out => ⟨out.2, some out.1⟩
  | .removeMaybe2 data => (bagRemoveMaybe2 c.bag data).map fun out => ⟨out.2, some out.1⟩
  | .filter2 filterFunc => (bagFilter2 c.bag filterFunc).map fun bag => ⟨bag, none⟩
  | .contains2 element => (bagContains2 c.bag element).map fun contains => ⟨c.bag, some contains⟩

/-- Values are of the size of the elements, pointers into the array lead to bytes of the elements, those that are added as
    elements are for bags of pointers, and a capacity stays below 2^30. -/
def Permitted (c : Client) : Call → Prop
  | .add _ => c.bag.elementSize = pointerSize ∧ (c.bag.noElements = c.bag.capacity → grownCapacity c.bag < 2 ^ 30)
  | .add2 data => data.length = c.bag.elementSize ∧ (c.bag.noElements = c.bag.capacity → grownCapacity c.bag < 2 ^ 30)
  | .add2Own offset => offset + c.bag.elementSize ≤ c.bag.noElements * c.bag.elementSize ∧
    (c.bag.noElements = c.bag.capacity → grownCapacity c.bag < 2 ^ 30)
  | .removeMaybe _ => c.bag.elementSize = pointerSize
  | .removeMaybe2 data => data.length = c.bag.elementSize
  | .filter2 _ => True
  | .contains2 element => element.length = c.bag.elementSize

instance (c : Client) (function : Call) : Decidable (Permitted c function) :=
  match function with
  | .add _ => inferInstanceAs (Decidable (_ ∧ _))
  | .add2 _ => inferInstanceAs (Decidable (_ ∧ _))
  | .add2Own _ => inferInstanceAs (Decidable (_ ∧ _))
  | .removeMaybe _ => inferInstanceAs (Decidable (c.bag.elementSize = pointerSize))
  | .removeMaybe2 data => inferInstanceAs (Decidable (data.length = c.bag.elementSize))
  | .filter2 _ => .isTrue trivial
  | .contains2 element => inferInstanceAs (Decidable (element.length = c.bag.elementSize))

/-- The bytes of an array that grows are a `size_t`, and an element that is added is not in the array that moves. -/
def Supported (c : Client) : Call → Prop
  | .add2 _ => c.bag.noElements = c.bag.capacity → grownCapacity c.bag * c.bag.elementSize ≤ sizeMax
  | .add2Own _ => c.bag.noElements ≠ c.bag.capacity
  | .add _ | .removeMaybe _ | .removeMaybe2 _ | .filter2 _ | .contains2 _ => True

/-- The elements are inside the array, and the array is what was allocated. -/
def InBounds (bag : SBag) : Prop := bag.noElements ≤ bag.capacity ∧ bag.array.size = bag.capacity * bag.elementSize

/-- One copy is taken out if there is one, and nothing is changed if there is none. -/
def Removes (c c' : Client) (before after : Multiset Value) (value : Value) : Prop :=
  c'.result = some (decide (value ∈ before)) ∧ after = before.erase value ∧ (value ∉ before → c'.bag = c.bag)

/-- What a call does to the multiset. A filter is shown each element once. -/
def Changes (c c' : Client) (before after : Multiset Value) : Call → Prop
  | .add obj => after = obj.val ::ₘ before
  | .add2 data => after = data ::ₘ before
  | .add2Own offset => ∃ data, load c.bag.array offset c.bag.elementSize = some data ∧ after = data ::ₘ before
  | .removeMaybe obj => Removes c c' before after obj.val
  | .removeMaybe2 data => Removes c c' before after data
  | .filter2 filterFunc => ∃ shown : List Value, before = shown ∧ after = kept filterFunc [] shown
  | .contains2 element => c'.result = some (decide (element ∈ before)) ∧ c'.bag = c.bag

/-- The contract of a call: the elements before and behind it. -/
def Contract (c : Client) (function : Call) (c' : Client) : Prop :=
  InBounds c.bag ∧ InBounds c'.bag ∧ ∃ before after : List Value, elements c.bag c.bag.noElements = some before ∧
    elements c'.bag c'.bag.noElements = some after ∧ Changes c c' before after function

section
variable {c : Client} {contents : List Value} {function : Call}

theorem Holding.inBounds {bag : SBag} (holding : Holding bag contents) : InBounds bag :=
  ⟨holding.count.trans_le holding.room, holding.allocated⟩

private theorem contract_of {c' : Client} {contents' : List Value} (before : Holding c.bag contents) (after : Holding c'.bag contents')
    (changes : Changes c c' contents contents' function) : Contract c function c' :=
  ⟨before.inBounds, after.inBounds, contents, contents', elements_holding before, elements_holding after, changes⟩

private theorem remove_contract (holding : Holding c.bag contents) (value : Value) :
    ∃ c' : Client, (bagRemoveMaybe2 c.bag value).map (fun out => ⟨out.2, some out.1⟩) = some c' ∧
      ∃ contents', Holding c'.bag contents' ∧ Removes c c' contents contents' value := by
  rcases remove2_holding holding value with ⟨absent, done⟩ | ⟨bag', rest, done, kept, same⟩
  · refine ⟨_, congrArg (Option.map _) done, contents, holding, ?_, ?_, fun _ => rfl⟩
    · simp [absent]
    · rw [Multiset.erase_of_notMem (by simpa using absent)]
  · have member : value ∈ contents := same.mem_iff.mpr List.mem_cons_self
    refine ⟨_, congrArg (Option.map _) done, rest, kept, ?_, ?_, fun absent => absurd member (by simpa using absent)⟩
    · simp [member]
    · rw [Multiset.coe_eq_coe.mpr same, ← Multiset.cons_coe, Multiset.erase_cons_head]

private theorem call_holding (holding : Holding c.bag contents) (permitted : Permitted c function) (supported : Supported c function) :
    ∃ c', call c function = some c' ∧ (∃ contents', Holding c'.bag contents') ∧ Contract c function c' := by
  cases function with
  | add obj =>
    have fits : GrowthFits c.bag := by
      intro full
      have small := permitted.2 full
      unfold CapacityFits intMax sizeMax
      rw [permitted.1, pointerSize]
      omega
    obtain ⟨bag, done, kept, -⟩ := add_holding holding fits permitted.1 obj
    refine ⟨_, congrArg (Option.map _) done, ⟨_, kept⟩, contract_of holding kept ?_⟩
    exact Multiset.coe_eq_coe.mpr (List.perm_append_singleton _ _)
  | add2 data =>
    have fits : GrowthFits c.bag := fun full => ⟨(permitted.2 full).le.trans (by decide), supported full⟩
    obtain ⟨bag, done, kept, -⟩ := add2_holding holding fits permitted.1
    refine ⟨_, congrArg (Option.map _) done, ⟨_, kept⟩, contract_of holding kept ?_⟩
    exact Multiset.coe_eq_coe.mpr (List.perm_append_singleton _ _)
  | add2Own offset =>
    obtain ⟨data, bag, loaded, done, kept⟩ := add2Own_holding holding supported permitted.1
    refine ⟨_, congrArg (Option.map _) done, ⟨_, kept⟩, contract_of holding kept ⟨data, loaded, ?_⟩⟩
    exact Multiset.coe_eq_coe.mpr (List.perm_append_singleton _ _)
  | removeMaybe obj =>
    obtain ⟨c', done, contents', kept, removes⟩ := remove_contract holding obj.val
    refine ⟨c', ?_, ⟨contents', kept⟩, contract_of holding kept removes⟩
    rw [call, removeMaybe_same c.bag permitted, done]
  | removeMaybe2 data =>
    obtain ⟨c', done, contents', kept, removes⟩ := remove_contract holding data
    exact ⟨c', done, ⟨contents', kept⟩, contract_of holding kept removes⟩
  | filter2 filterFunc =>
    have valid : bagIsValid c.bag := holding.valid
    obtain ⟨bag, contents', shown, done, kept, -, all, result⟩ :=
      filterLoop_holding (i := 0) filterFunc [] holding (holding.count.symm.le.trans (Nat.le_add_right _ 0)) rfl
    refine ⟨⟨bag, none⟩, ?_, ⟨contents', kept⟩, contract_of holding kept ⟨shown, ?_, ?_⟩⟩
    · simp [call, bagFilter2, assert_true valid, done]
    · exact Multiset.coe_eq_coe.mpr all.symm
    · exact Multiset.coe_eq_coe.mpr result
  | contains2 element =>
    have valid : bagIsValid c.bag := holding.valid
    have done := containsLoop_holding (i := 0) holding (Nat.add_zero _) element false
    refine ⟨⟨c.bag, some (decide (element ∈ contents))⟩, ?_, ⟨contents, holding⟩, contract_of holding holding ⟨?_, rfl⟩⟩
    · simp [call, bagContains2, assert_true valid, holding.count, done]
    · simp

/-- What is not supported has no outcome. -/
private theorem call_stuck (unsupported : ¬ Supported c function) : call c function = none := by
  cases function with
  | add2 data =>
    obtain ⟨full, large⟩ : c.bag.noElements = c.bag.capacity ∧ ¬ grownCapacity c.bag * c.bag.elementSize ≤ sizeMax := by
      simpa [Supported] using unsupported
    simp [call, bagAdd2, ensureIncCapacity, full, assert_false large]
  | add2Own offset =>
    have full : c.bag.noElements = c.bag.capacity := not_not.mp unsupported
    simp [call, bagAdd2Own, full, assert]
  | add _ => exact absurd trivial unsupported
  | removeMaybe _ => exact absurd trivial unsupported
  | removeMaybe2 _ => exact absurd trivial unsupported
  | filter2 _ => exact absurd trivial unsupported
  | contains2 _ => exact absurd trivial unsupported

/-- A bag is the multiset of its elements, over every sequence of calls in which no size wraps around and no pointer into
    the array is added to a full bag. -/
theorem bag_multiset_iff (initialCapacity capacityIncrement : Nat) {elementSize : Nat} (positive : 0 < elementSize)
    {calls : List Call} (permitted : Guarded call Permitted ⟨created initialCapacity capacityIncrement elementSize, none⟩ calls) :
    (∃ bag, bagCreate2 initialCapacity capacityIncrement elementSize = some bag ∧ bag.noElements = 0 ∧
        Meets call Contract ⟨bag, none⟩ calls) ↔
      elementSize * initialCapacity ≤ sizeMax ∧
        Guarded call Supported ⟨created initialCapacity capacityIncrement elementSize, none⟩ calls := by
  have holding := created_holding initialCapacity capacityIncrement positive
  have each : ∀ (c : Client) function, (∃ contents, Holding c.bag contents) → Permitted c function → Supported c function →
      ∃ c', call c function = some c' ∧ (∃ contents, Holding c'.bag contents) ∧ Contract c function c' := by
    rintro c function ⟨contents, holding⟩ allowed supported
    exact call_holding holding allowed supported
  have broken : ∀ (c : Client) function c', (∃ contents, Holding c.bag contents) → Permitted c function → ¬ Supported c function →
      call c function = some c' → ¬ Contract c function c' := by
    intro c function c' _ _ unsupported done
    rw [call_stuck unsupported] at done
    cases done
  have meets := meets_iff_total each broken ⟨[], holding⟩ permitted
  rw [← meets]
  constructor
  · rintro ⟨bag, made, _, met⟩
    obtain ⟨fits, rfl⟩ := (create_iff positive).mp made
    exact ⟨fits, met⟩
  · rintro ⟨fits, met⟩
    exact ⟨_, (create_iff positive).mpr ⟨fits, rfl⟩, rfl, met⟩

/-- A bag of two-byte elements that doubles, and a filter that keeps every other element. -/
theorem bag_multiset_iff_sample :
    (∃ bag, bagCreate2 0 0 2 = some bag ∧ bag.noElements = 0 ∧
        Meets call Contract ⟨bag, none⟩ [.add2 [1, 2], .add2 [3, 4], .add2 [1, 2], .add2Own 2, .removeMaybe2 [1, 2],
          .filter2 fun seen _ => seen.length % 2 == 0, .contains2 [3, 4], .removeMaybe2 [5, 6]]) ↔
      2 * 0 ≤ sizeMax ∧
        Guarded call Supported ⟨created 0 0 2, none⟩ [.add2 [1, 2], .add2 [3, 4], .add2 [1, 2], .add2Own 2, .removeMaybe2 [1, 2],
          .filter2 fun seen _ => seen.length % 2 == 0, .contains2 [3, 4], .removeMaybe2 [5, 6]] := by
  apply bag_multiset_iff 0 0 (by decide)
  exact (checkedRun_some rfl).1

/-- An element of a full bag is gone before it is added again; and the bytes of 2^29 elements of 2^35 bytes are no `size_t`. -/
theorem own_element_lost :
    Guarded call Permitted ⟨created 1 0 2, none⟩ [.add2 [1, 2], .add2Own 0] ∧
      run call ⟨created 1 0 2, none⟩ [.add2 [1, 2], .add2Own 0] = none ∧ bagCreate2 (2 ^ 29) 0 (2 ^ 35) = none :=
  ⟨⟨⟨by decide, by decide⟩, by rintro t ⟨⟩; exact ⟨⟨by decide, by decide⟩, fun _ _ => trivial⟩⟩, rfl, rfl⟩

end

end VoxiUtil.BagMultiset
