import Mathlib.Data.Multiset.Filter
import VoxiUtil.BagAdds

/-!
`bagFilter`, which puts what it keeps into a new bag that grows by ten elements each
time, beside `bagFilter2`, which keeps it in the bag itself.
-/
namespace VoxiUtil.BagFilters
open VoxiUtil.Bag
open VoxiUtil.BagMultiset
open VoxiUtil.BagAdds
open VoxiUtil.Blocks
open VoxiUtil.Runs
open VoxiUtil.Limits (intMax pointerSize sizeMax)

theorem load_length {block : Block UInt8} {offset length : Nat} {value : Value} (loaded : load block offset length = some value) :
    value.length = length := by
  obtain ⟨_, _, read⟩ := Option.bind_eq_some_iff.mp loaded
  have cells : ∀ (cells : List (Option UInt8)) (value : Value), cells.mapM id = some value → value.length = cells.length := by
    intro cells
    induction cells with
    | nil =>
      rintro value ⟨⟩
      rfl
    | cons first rest ih =>
      intro value done
      rw [List.mapM_cons] at done
      obtain ⟨byte, _, reading⟩ := Option.bind_eq_some_iff.mp done
      obtain ⟨bytes, others, ⟨⟩⟩ := Option.bind_eq_some_iff.mp reading
      rw [List.length_cons, List.length_cons, ih bytes others]
  rw [cells _ _ read, Ring.slice_length]

/-- The pointer at an index of an array of pointers. -/
def loadPointer (array : Block UInt8) (i : Nat) : Option Pointer :=
  match loaded : load array (i * pointerSize) pointerSize with
  | none => none
  | some bytes => some ⟨bytes, load_length loaded⟩

/-- The loop of `bagFilter`, from the element `i` on and for so many turns. The filter may remember the
    elements that it has seen. -/
def filterIntoLoop (filterFunc : List Value → Value → Bool) (address result : Nat) : Nat → Nat → List Value → Bags → Option Bags
  | 0, _, _, bags => some bags
  | turns + 1, i, seen, bags => do
    let bag ← bags address
    let obj ← loadPointer bag.array i
    let bags ← if filterFunc seen obj.val then bagAddAt bags result obj else some bags
    filterIntoLoop filterFunc address result turns (i + 1) (seen ++ [obj.val]) bags

/-- The new bag is at the address `result`. -/
def bagFilter (bags : Bags) (address result : Nat) (filterFunc : List Value → Value → Bool) : Option Bags := do
  let bag ← bags address
  assert (bagIsValid bag)
  let created ← bagCreate 10 10
  assert (bag.elementSize = pointerSize)
  filterIntoLoop filterFunc address result bag.noElements 0 [] (Function.update bags result (some created))

/-- `bagFilter2` together with what the filter is shown. -/
def bagFilter2Calls (bag : SBag) (filterFunc : List Value → Value → Bool) : Option (SBag × List Value) := do
  assert (bagIsValid bag)
  filterCalls filterFunc bag.noElements bag 0 (((bag.noElements : Int) - 1) * bag.elementSize) []

/-- `bagFilter2` ends, and shows the filter each element of the bag once; `bagFilter` ends and leaves the
    bag; both keep the multiset of the elements that the filter accepts. -/
def FiltersAgree (bags : Bags) (address result : Nat) (bag : SBag) (contents : List Value) (filterFunc : Value → Bool) : Prop :=
  ∃ after shown left, bagFilter2 bag (fun _ => filterFunc) = some after ∧
    bagFilter2Calls bag (fun _ => filterFunc) = some (after, shown) ∧ (shown : Multiset Value) = contents ∧
    elements after after.noElements = some left ∧ (left : Multiset Value) = (contents : Multiset Value).filter (filterFunc ·) ∧
    ∃ bags' made found, bagFilter bags address result (fun _ => filterFunc) = some bags' ∧ bags' address = some bag ∧
      bags' result = some made ∧ elements made made.noElements = some found ∧ (found : Multiset Value) = left

section
variable {bags : Bags} {address result i turns : Nat} {bag made : SBag} {contents : List Value} {filterFunc : Value → Bool}

theorem filter2Calls_fst (bag : SBag) (filterFunc : List Value → Value → Bool) :
    (bagFilter2Calls bag filterFunc).map Prod.fst = bagFilter2 bag filterFunc := by
  simp only [bagFilter2Calls, bagFilter2, Option.bind_eq_bind, Option.map_bind, Function.comp_def, filterCalls_fst]

theorem kept_filter (seen shown : List Value) : kept (fun _ => filterFunc) seen shown = shown.filter filterFunc := by
  induction shown generalizing seen with
  | nil => rfl
  | cons element rest ih => rw [kept, ih, List.filter_cons]

theorem loadPointer_holding (holding : Holding bag contents) (sized : bag.elementSize = pointerSize) (inside : i < contents.length) :
    ∃ obj, loadPointer bag.array i = some obj ∧ obj.val = contents[i] := by
  have loaded := load_packed holding.packed inside
  rw [sized] at loaded
  unfold loadPointer
  split
  · rename_i failed
    cases failed.symm.trans loaded
  · rename_i bytes read
    cases read.symm.trans loaded
    exact ⟨_, rfl, rfl⟩

/-- The loop adds what the filter accepts, and the bag that it reads stays. -/
theorem filterInto_adds (there : bags address = some bag) (new : bags result = some made) (apart : address ≠ result)
    (holding : Holding bag contents) (sized : bag.elementSize = pointerSize) (size : made.elementSize = pointerSize)
    (seen : List Value) (ends : turns + i = contents.length) :
    filterIntoLoop (fun _ => filterFunc) address result turns i seen bags =
      (run bagAdd2 made ((contents.drop i).filter filterFunc)).map fun made => Function.update bags result (some made) := by
  induction turns generalizing bags made i seen with
  | zero =>
    have ended : contents.drop i = [] := List.drop_of_length_le (by omega)
    rw [filterIntoLoop, ended, List.filter_nil, run_nil, Option.map_some, ← new, Function.update_eq_self]
  | succ turns ih =>
    have inside : i < contents.length := by omega
    obtain ⟨obj, loaded, bytes⟩ := loadPointer_holding holding sized inside
    rw [filterIntoLoop, there, Option.bind_eq_bind, Option.bind_some, loaded, Option.bind_eq_bind, Option.bind_some,
      List.drop_eq_getElem_cons inside, List.filter_cons, ← bytes]
    by_cases accepted : filterFunc obj.val = true
    · simp only [if_pos accepted, bagAddAt, new, Option.bind_eq_bind, Option.bind_some, add_same size, run]
      cases added : bagAdd2 made obj.val with
      | none => rfl
      | some more =>
        have kept : Function.update bags result (some more) address = some bag := by rw [Function.update_of_ne apart, there]
        simp only [Option.bind_some]
        rw [ih kept (Function.update_self _ _ _) ((add2_size added).trans size) _ (by omega)]
        simp only [Function.update_idem]
    · rw [if_neg accepted, if_neg accepted, Option.bind_eq_bind, Option.bind_some]
      exact ih there new size _ (by omega)

/-- A new bag gets what the filter accepts. -/
theorem bagFilter_adds (there : bags address = some bag) (apart : address ≠ result) (holding : Holding bag contents)
    (sized : bag.elementSize = pointerSize) (filterFunc : Value → Bool) :
    bagFilter bags address result (fun _ => filterFunc) =
      (run bagAdd2 ⟨0, 10, 10, pointerSize, allocate (pointerSize * 10)⟩ (contents.filter filterFunc)).map
        fun made => Function.update bags result (some made) := by
  have valid : bagIsValid bag := holding.valid
  have created : bagCreate 10 10 = some ⟨0, 10, 10, pointerSize, allocate (pointerSize * 10)⟩ := rfl
  have still : Function.update bags result (some ⟨0, 10, 10, pointerSize, allocate (pointerSize * 10)⟩) address = some bag := by
    rw [Function.update_of_ne apart, there]
  have loop : filterIntoLoop (fun _ => filterFunc) address result contents.length 0 []
      (Function.update bags result (some ⟨0, 10, 10, pointerSize, allocate (pointerSize * 10)⟩)) = _ :=
    filterInto_adds still (Function.update_self _ _ _) apart holding sized rfl [] (Nat.add_zero _)
  simp only [Function.update_idem, List.drop_zero] at loop
  simp only [bagFilter, there, created, assert_true valid, assert_true sized, Option.bind_eq_bind, Option.bind_some,
    holding.count, loop]

/-- The bag that `bagFilter` makes. -/
theorem started_holding : Holding ⟨0, 10, 10, pointerSize, allocate (pointerSize * 10)⟩ [] :=
  created_holding 10 10 (by decide)

theorem created_canHold {count : Nat} : CanHold ⟨0, 10, 10, pointerSize, allocate (pointerSize * 10)⟩ count ↔ count ≤ 2147483640 := by
  have capacity (turns : Nat) : capacityAfter ⟨0, 10, 10, pointerSize, allocate (pointerSize * 10)⟩ turns = 10 + turns * 10 :=
    capacityAfter_adds (by decide) turns
  simp only [CanHold, CapacityFits, capacity]
  simp only [intMax, pointerSize, sizeMax]
  constructor
  · rintro (room | ⟨turns, enough, fits, _⟩)
    · omega
    · omega
  · intro small
    exact .inr ⟨214748363, by omega, by omega, by omega⟩

end

/-- In every memory, for every bag of pointers and every filter whose answer depends only on the element,
    the two filters agree just when the filter accepts at most 2147483640 of the elements: those that a
    bag which grows by ten can hold. -/
theorem filters_agree_iff {bags : Bags} {address result : Nat} {bag : SBag} {contents : List Value} (there : bags address = some bag)
    (fresh : bags result = none) (holding : Holding bag contents) (sized : bag.elementSize = pointerSize) (filterFunc : Value → Bool) :
    FiltersAgree bags address result bag contents filterFunc ↔ contents.countP filterFunc ≤ 2147483640 := by
  have apart : address ≠ result := by
    rintro rfl
    cases fresh.symm.trans there
  have valid : bagIsValid bag := holding.valid
  have lengths : ∀ value ∈ contents.filter filterFunc, value.length = pointerSize := fun value member =>
    (holding.value_length (List.mem_of_mem_filter member)).trans sized
  have filtered := bagFilter_adds there apart holding sized filterFunc
  have able := adds_iff started_holding lengths
  rw [created_canHold, List.length_nil, Nat.zero_add, ← List.countP_eq_length_filter] at able
  rw [← able]
  constructor
  · rintro ⟨_, _, _, _, _, _, _, _, _, _, _, done, _⟩
    rw [filtered] at done
    obtain ⟨_, ran, _⟩ := Option.map_eq_some_iff.mp done
    rw [ran]
    rfl
  · intro fits
    obtain ⟨made, ran⟩ := Option.isSome_iff_exists.mp fits
    have all := adds_holding started_holding lengths ran
    obtain ⟨after, left, shown, ended, kept, -, once, result_of⟩ :=
      filterCalls_holding (i := 0) (fun _ => filterFunc) [] holding (holding.count.symm.le.trans (Nat.le_add_right _ 0)) rfl
    have calls : bagFilter2Calls bag (fun _ => filterFunc) = some (after, shown) := by
      simp [bagFilter2Calls, assert_true valid, ended]
    have accepted : (left : Multiset Value) = (contents : Multiset Value).filter (filterFunc ·) := by
      rw [List.take_zero, List.nil_append, kept_filter] at result_of
      rw [Multiset.filter_coe, Multiset.coe_eq_coe]
      simpa using result_of.trans (once.filter filterFunc)
    refine ⟨after, shown, left, by rw [← filter2Calls_fst, calls]; rfl, calls, Multiset.coe_eq_coe.mpr once, elements_holding kept,
      accepted, _, made, _, by rw [filtered, ran]; rfl, ?_, Function.update_self _ _ _, elements_holding all, ?_⟩
    · rw [Function.update_of_ne apart, there]
    · rw [accepted, Multiset.filter_coe, List.nil_append]
      simp

theorem filters_agree_iff_repeated :
    FiltersAgree (Function.update (fun _ => none) 0 (some (repeated 2 7))) 0 1 (repeated 2 7)
        (List.replicate 2 (List.replicate pointerSize 7)) (fun _ => true) ↔
      (List.replicate 2 (List.replicate pointerSize (7 : UInt8))).countP (fun _ => true) ≤ 2147483640 :=
  filters_agree_iff (Function.update_self _ _ _) rfl (repeated_holding 2 7) rfl _

/-- A bag that holds what the new one cannot. -/
theorem filters_differ :
    ¬ FiltersAgree (Function.update (fun _ => none) 0 (some (repeated 2147483641 7))) 0 1 (repeated 2147483641 7)
        (List.replicate 2147483641 (List.replicate pointerSize 7)) fun _ => true := by
  rw [filters_agree_iff (Function.update_self _ _ _) rfl (repeated_holding 2147483641 7) rfl, List.countP_true,
    List.length_replicate]
  decide

end VoxiUtil.BagFilters
