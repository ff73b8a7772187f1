import VoxiUtil.BagCalls

/-!
A bag beside one with the same elements, through every call: what is behind the elements in
the two arrays, the destroy functions and the locks may differ.
-/
namespace VoxiUtil.BagDuplicate
open VoxiUtil.Bag
open VoxiUtil.BagMultiset
open VoxiUtil.BagAdds
open VoxiUtil.BagAppend
open VoxiUtil.BagFilters
open VoxiUtil.BagCalls
open VoxiUtil.Blocks
open VoxiUtil.Ring (slice store)
open VoxiUtil.Runs (assert assert_true assert_eq_some)
open VoxiUtil.Limits (pointerSize)
variable {δ : Type}

/-- Two blocks of one size with the same cells in front of a bound. -/
def SameCells (bound : Nat) (block block' : Block UInt8) : Prop :=
  block'.size = block.size ∧ ∀ i < bound, block'.cell i = block.cell i

/-- Two bags with the same elements. -/
structure Alike (bag bag' : SBag) : Prop where
  noElements : bag'.noElements = bag.noElements
  capacity : bag'.capacity = bag.capacity
  capacityIncrement : bag'.capacityIncrement = bag.capacityIncrement
  elementSize : bag'.elementSize = bag.elementSize
  array : SameCells (bag.noElements * bag.elementSize) bag.array bag'.array

theorem alike_refl (bag : SBag) : Alike bag bag := ⟨rfl, rfl, rfl, rfl, rfl, fun _ _ => rfl⟩

section
variable {bag bag' after : SBag} {block block' written : Block UInt8} {bound offset length i turns count : Nat} {value : Value}
  {seen : List Value}

/-! ### Reading and writing -/

theorem load_same (same : SameCells bound block block') (inside : offset + length ≤ bound) :
    load block' offset length = load block offset length := by
  have cells : slice block'.cell offset length = slice block.cell offset length := by
    apply List.map_congr_left
    intro j member
    have small := List.mem_range.mp member
    exact same.2 _ (by omega)
  rw [load, load, same.1, cells]

theorem save_same (same : SameCells bound block block') (reach : offset ≤ bound) (saved : save block offset value = some written) :
    ∃ array', save block' offset value = some array' ∧ SameCells (max bound (offset + value.length)) written array' := by
  simp only [save, Option.bind_eq_bind, Option.bind_eq_some_iff, assert_eq_some, Option.some.injEq] at saved
  obtain ⟨_, fits, writes⟩ := saved
  refine ⟨{ block' with cell := store block'.cell offset (value.map some) }, ?_, ?_⟩
  · rw [save, same.1, assert_true fits]
    rfl
  · rw [← writes]
    refine ⟨same.1, fun j inside => ?_⟩
    simp only [store]
    split
    · rfl
    · rename_i other
      apply same.2
      rw [List.length_map] at other
      omega

theorem Alike.load (alike : Alike bag bag') (inside : i < bag.noElements) :
    Blocks.load bag'.array (i * bag.elementSize) bag.elementSize = Blocks.load bag.array (i * bag.elementSize) bag.elementSize :=
  load_same alike.array (end_le inside)

theorem Alike.valid (alike : Alike bag bag') : bagIsValid bag' = bagIsValid bag := by
  rw [bagIsValid, bagIsValid, alike.elementSize]

theorem elements_alike (alike : Alike bag bag') (inside : count ≤ bag.noElements) : elements bag' count = elements bag count := by
  induction count with
  | zero => rfl
  | succ count ih => rw [elements, elements, ih (by omega), alike.elementSize, alike.load inside]

theorem describe_alike (alike : Alike bag bag') (destroyFunc : Option δ) : describe bag' destroyFunc = describe bag destroyFunc := by
  rw [describe, describe, alike.noElements, alike.capacity, alike.capacityIncrement, alike.elementSize,
    elements_alike alike (Nat.le_refl _)]

theorem visitLoop_alike (stop : List Value → Value → Bool) (alike : Alike bag bag') (ends : turns + i ≤ bag.noElements) :
    visitLoop bag' stop turns i seen = visitLoop bag stop turns i seen := by
  induction turns generalizing i seen with
  | zero => rfl
  | succ turns ih =>
    rw [visitLoop, visitLoop, alike.elementSize, alike.load (by omega)]
    refine congrArg _ (funext fun element => ?_)
    rw [ih (by omega)]

theorem visit_alike (stop : List Value → Value → Bool) (alike : Alike bag bag') : visit bag' stop = visit bag stop := by
  simp only [visit, alike.valid, alike.noElements, visitLoop_alike stop alike (Nat.le_of_eq (Nat.add_zero _))]

theorem containsLoop_alike (alike : Alike bag bag') (contains : Bool) (ends : turns + i ≤ bag.noElements) :
    containsLoop bag' value turns i contains = containsLoop bag value turns i contains := by
  induction turns generalizing i contains with
  | zero => rfl
  | succ turns ih =>
    rw [containsLoop, containsLoop, alike.elementSize, alike.load (by omega)]
    refine congrArg _ (funext fun element => ?_)
    rw [ih _ (by omega)]

/-! ### Adding and removing -/

theorem ensure_alike (alike : Alike bag bag') (ensured : ensureIncCapacity bag = some after) :
    ∃ after', ensureIncCapacity bag' = some after' ∧ Alike after after' := by
  have grown : grownCapacity bag' = grownCapacity bag := by
    rw [grownCapacity, grownCapacity, alike.capacity, alike.capacityIncrement]
  unfold ensureIncCapacity at ensured ⊢
  by_cases full : bag.noElements = bag.capacity
  · rw [if_pos full] at ensured
    simp only [Option.bind_eq_bind, Option.bind_eq_some_iff, assert_eq_some] at ensured
    obtain ⟨_, fits, _, positive, _, bytes, ⟨⟩⟩ := ensured
    refine ⟨{ bag' with capacity := grownCapacity bag, array := realloc bag'.array (grownCapacity bag * bag.elementSize) }, ?_, ?_⟩
    · rw [if_pos (by rw [alike.noElements, alike.capacity, full])]
      simp [grown, fits, positive, bytes, alike.elementSize]
    · refine ⟨alike.noElements, rfl, alike.capacityIncrement, alike.elementSize, rfl, fun j inside => ?_⟩
      simp only [realloc, alike.array.1, alike.array.2 j inside]
  · rw [if_neg full] at ensured
    cases ensured
    exact ⟨bag', if_neg (by rw [alike.noElements, alike.capacity]; exact full), alike⟩

/-- The array with an element more. -/
theorem written_alike {array : Block UInt8} (alike : Alike bag bag') (length : value.length = bag.elementSize)
    (saved : save bag.array (bag.noElements * bag.elementSize) value = some array) :
    ∃ array', save bag'.array (bag.noElements * bag.elementSize) value = some array' ∧
      Alike { bag with array := array, noElements := bag.noElements + 1 }
        { bag' with array := array', noElements := bag'.noElements + 1 } := by
  obtain ⟨array', saved', same⟩ := save_same alike.array (Nat.le_refl _) saved
  refine ⟨array', saved', congrArg (· + 1) alike.noElements, alike.capacity, alike.capacityIncrement, alike.elementSize, same.1,
    fun j inside => same.2 j ?_⟩
  rw [length, ← Nat.succ_mul]
  exact Nat.lt_of_lt_of_le inside (Nat.le_max_right _ _)

theorem add2_alike (alike : Alike bag bag') (length : value.length = bag.elementSize) (added : bagAdd2 bag value = some after) :
    ∃ after', bagAdd2 bag' value = some after' ∧ Alike after after' := by
  simp only [bagAdd2, Option.bind_eq_bind, Option.bind_eq_some_iff, assert_eq_some] at added
  obtain ⟨_, valid, middle, ensured, array, saved, _, still, ⟨⟩⟩ := added
  obtain ⟨middle', ensured', similar⟩ := ensure_alike alike ensured
  obtain ⟨array', saved', written⟩ := written_alike similar (length.trans (ensured_fields ensured).1.symm) saved
  refine ⟨_, ?_, written⟩
  have positive : 0 < bag.elementSize := valid
  have kept : 0 < middle.elementSize := still
  simp only [bagAdd2, bagIsValid, alike.elementSize, assert_true positive, ensured', similar.noElements, similar.elementSize, saved',
    assert_true kept, Option.bind_eq_bind, Option.bind_some]

theorem add_alike {obj : Pointer} (alike : Alike bag bag') (added : bagAdd bag obj = some after) :
    ∃ after', bagAdd bag' obj = some after' ∧ Alike after after' := by
  have sized : bag.elementSize = pointerSize := by
    obtain ⟨_, sized, _⟩ := Option.bind_eq_some_iff.mp added
    exact assert_eq_some.mp sized
  rw [add_same sized] at added
  rw [add_same (alike.elementSize.trans sized)]
  exact add2_alike alike (obj.property.trans sized.symm) added

/-- The last element over another one, and one element less. -/
theorem swap_alike {array : Block UInt8} {last : Value} (alike : Alike bag bag') (inside : i < bag.noElements)
    (length : last.length = bag.elementSize) (saved : save bag.array (i * bag.elementSize) last = some array) :
    ∃ array', save bag'.array (i * bag.elementSize) last = some array' ∧
      Alike { bag with array := array, noElements := bag.noElements - 1 }
        { bag' with array := array', noElements := bag'.noElements - 1 } := by
  have reach : i * bag.elementSize + bag.elementSize ≤ bag.noElements * bag.elementSize := end_le inside
  obtain ⟨array', saved', same⟩ := save_same alike.array (by omega) saved
  refine ⟨array', saved', congrArg (· - 1) alike.noElements, alike.capacity, alike.capacityIncrement, alike.elementSize, same.1,
    fun j below => same.2 j ?_⟩
  have fewer : (bag.noElements - 1) * bag.elementSize ≤ bag.noElements * bag.elementSize := Nat.mul_le_mul_right _ (Nat.sub_le _ 1)
  exact Nat.lt_of_lt_of_le below (fewer.trans (Nat.le_max_left _ _))

theorem removeLoop_alike {removed : Bool} (alike : Alike bag bag') (ends : turns + i ≤ bag.noElements)
    (ran : removeLoop bag bag.elementSize value turns i = some (removed, after)) :
    ∃ after', removeLoop bag' bag.elementSize value turns i = some (removed, after') ∧ Alike after after' := by
  induction turns generalizing i with
  | zero =>
    cases ran
    exact ⟨bag', rfl, alike⟩
  | succ turns ih =>
    have inside : i < bag.noElements := by omega
    have newest := alike.load (show bag.noElements - 1 < bag.noElements by omega)
    obtain ⟨element, loaded, found⟩ := Option.bind_eq_some_iff.mp ran
    rw [removeLoop, alike.load inside, loaded, Option.bind_eq_bind, Option.bind_some]
    by_cases equal : element = value
    · rw [if_pos equal] at found ⊢
      simp only [Option.bind_eq_bind, Option.bind_eq_some_iff] at found
      obtain ⟨last, read, array, saved, ⟨⟩⟩ := found
      obtain ⟨array', saved', swapped⟩ := swap_alike alike inside (load_length read) saved
      refine ⟨_, ?_, swapped⟩
      simp only [alike.noElements, newest, read, saved', Option.bind_eq_bind, Option.bind_some]
    · rw [if_neg equal] at found ⊢
      exact ih (by omega) found

theorem removeMaybe2_alike {removed : Bool} (alike : Alike bag bag') (ran : bagRemoveMaybe2 bag value = some (removed, after)) :
    ∃ after', bagRemoveMaybe2 bag' value = some (removed, after') ∧ Alike after after' := by
  obtain ⟨_, valid, looped⟩ := Option.bind_eq_some_iff.mp ran
  have positive : 0 < bag.elementSize := assert_eq_some.mp valid
  obtain ⟨after', looped', similar⟩ := removeLoop_alike alike (Nat.le_of_eq (Nat.add_zero _)) looped
  refine ⟨after', ?_, similar⟩
  simp only [bagRemoveMaybe2, bagIsValid, alike.elementSize, alike.noElements, assert_true positive, looped', Option.bind_eq_bind,
    Option.bind_some]

theorem removeMaybe_alike {removed : Bool} {obj : Pointer} (alike : Alike bag bag') (ran : bagRemoveMaybe bag obj = some (removed, after)) :
    ∃ after', bagRemoveMaybe bag' obj = some (removed, after') ∧ Alike after after' := by
  have sized : bag.elementSize = pointerSize := by
    obtain ⟨_, _, sizing⟩ := Option.bind_eq_some_iff.mp ran
    obtain ⟨_, sized, _⟩ := Option.bind_eq_some_iff.mp sizing
    exact assert_eq_some.mp sized
  rw [removeMaybe_same bag sized] at ran
  rw [removeMaybe_same bag' (alike.elementSize.trans sized)]
  exact removeMaybe2_alike alike ran

/-- The loop of `bagFilter2`; `lastPtr` is at the last element. -/
theorem filterCalls_alike {filterFunc : List Value → Value → Bool} {shown : List Value} {lastPtr : Int} (alike : Alike bag bag')
    (last : lastPtr = ((bag.noElements : Int) - 1) * bag.elementSize)
    (ran : filterCalls filterFunc turns bag i lastPtr seen = some (after, shown)) :
    ∃ after', filterCalls filterFunc turns bag' i lastPtr seen = some (after', shown) ∧ Alike after after' := by
  induction turns generalizing bag bag' i lastPtr seen with
  | zero =>
    unfold filterCalls at ran ⊢
    rw [alike.noElements]
    by_cases more : i < bag.noElements
    · rw [if_pos more] at ran
      cases ran
    · rw [if_neg more] at ran ⊢
      cases ran
      exact ⟨bag', rfl, alike⟩
  | succ turns ih =>
    unfold filterCalls at ran ⊢
    rw [alike.noElements]
    by_cases more : i < bag.noElements
    · rw [if_pos more] at ran ⊢
      obtain ⟨element, loaded, judging⟩ := Option.bind_eq_some_iff.mp ran
      rw [alike.elementSize, alike.load more, loaded, Option.bind_eq_bind, Option.bind_some]
      by_cases accepted : filterFunc seen element = true
      · rw [if_pos accepted] at judging ⊢
        exact ih alike last judging
      · rw [if_neg accepted] at judging ⊢
        simp only [Option.bind_eq_bind, Option.bind_eq_some_iff, assert_eq_some] at judging
        obtain ⟨_, inFront, newest, read, array, saved, further⟩ := judging
        have offset : lastPtr.toNat = (bag.noElements - 1) * bag.elementSize := by
          rw [last, ← Int.natCast_one, ← Int.natCast_sub (Nat.succ_le_of_lt (Nat.zero_lt_of_lt more)), ← Int.natCast_mul,
            Int.toNat_natCast]
        have same_newest := alike.load (show bag.noElements - 1 < bag.noElements by omega)
        obtain ⟨array', saved', swapped⟩ := swap_alike alike more (load_length read) saved
        have next : lastPtr - bag.elementSize = (((bag.noElements - 1 : Nat) : Int) - 1) * bag.elementSize := by
          rw [last, Int.natCast_sub (Nat.succ_le_of_lt (Nat.zero_lt_of_lt more)), Int.natCast_one, Int.sub_mul (_ - _) 1, Int.one_mul]
        obtain ⟨after', further', similar⟩ := ih swapped next further
        refine ⟨after', ?_, similar⟩
        rw [offset] at read
        simp only [assert_true inFront, offset, same_newest, read, saved', Option.bind_eq_bind, Option.bind_some]
        rw [← further']
        simp only [alike.noElements, alike.elementSize]
    · rw [if_neg more] at ran ⊢
      cases ran
      exact ⟨bag', rfl, alike⟩

/-! ### Calls with another bag -/

theorem loadPointer_same (same : load block' (i * pointerSize) pointerSize = load block (i * pointerSize) pointerSize) :
    loadPointer block' i = loadPointer block i := by
  unfold loadPointer
  split
  · rename_i failed
    split
    · rfl
    · rename_i bytes loaded
      cases failed.symm.trans (same.trans loaded)
  · rename_i bytes loaded
    split
    · rename_i failed
      cases loaded.symm.trans (same.trans failed)
    · rename_i others also
      cases loaded.symm.trans (same.trans also)
      rfl

/-- The loop of `bagFilter`, which reads the first bag and adds to the second one. -/
theorem filterInto_alike {filterFunc : List Value → Value → Bool} {bags bags' out : Bags} (there : bags 0 = some bag)
    (there' : bags' 0 = some bag') (alike : Alike bag bag') (same : bags' 1 = bags 1) (sized : bag.elementSize = pointerSize)
    (ends : turns + i ≤ bag.noElements) (ran : filterIntoLoop filterFunc 0 1 turns i seen bags = some out) :
    ∃ out', filterIntoLoop filterFunc 0 1 turns i seen bags' = some out' ∧ out' 1 = out 1 := by
  induction turns generalizing i seen bags bags' with
  | zero =>
    cases ran
    exact ⟨bags', rfl, same⟩
  | succ turns ih =>
    have loads := alike.load (show i < bag.noElements by omega)
    rw [sized] at loads
    simp only [filterIntoLoop, there, there', loadPointer_same loads, Option.bind_eq_bind, Option.bind_some,
      Option.bind_eq_some_iff] at ran ⊢
    obtain ⟨obj, loaded, further⟩ := ran
    by_cases accepted : filterFunc seen obj.val = true
    · simp only [if_pos accepted, bagAddAt, Option.bind_eq_bind, Option.bind_eq_some_iff] at further
      obtain ⟨_, ⟨made, at_made, more, adding, ⟨⟩⟩, further⟩ := further
      have still : Function.update bags 1 (some more) 0 = some bag := by rw [Function.update_of_ne Nat.zero_ne_one, there]
      have still' : Function.update bags' 1 (some more) 0 = some bag' := by rw [Function.update_of_ne Nat.zero_ne_one, there']
      obtain ⟨out', further', similar⟩ := ih still still' (by rw [Function.update_self, Function.update_self]) (by omega) further
      refine ⟨out', ⟨obj, loaded, ?_⟩, similar⟩
      simp only [if_pos accepted, bagAddAt, same, at_made, adding, Option.bind_eq_bind, Option.bind_some, further']
    · simp only [if_neg accepted] at further
      obtain ⟨out', further', similar⟩ := ih there there' same (by omega) further
      exact ⟨out', ⟨obj, loaded, by simp only [if_neg accepted, further']⟩, similar⟩

theorem filter_alike {filterFunc : List Value → Value → Bool} {out : Bags} (alike : Alike bag bag')
    (ran : bagFilter (Function.update (fun _ => none) 0 (some bag)) 0 1 filterFunc = some out) :
    ∃ out', bagFilter (Function.update (fun _ => none) 0 (some bag')) 0 1 filterFunc = some out' ∧ out' 1 = out 1 := by
  simp only [bagFilter, Function.update_self, Option.bind_eq_bind, Option.bind_some, Option.bind_eq_some_iff, assert_eq_some] at ran ⊢
  obtain ⟨_, valid, made, created, _, sized, looped⟩ := ran
  have there : ∀ b : SBag, (Function.update (Function.update (fun _ => none) 0 (some b)) 1 (some made) : Bags) 0 = some b := by
    intro b
    rw [Function.update_of_ne Nat.zero_ne_one, Function.update_self]
  have same : ∀ b : SBag, (Function.update (Function.update (fun _ => none) 0 (some b)) 1 (some made) : Bags) 1 = some made :=
    fun b => Function.update_self ..
  obtain ⟨out', looped', similar⟩ := filterInto_alike (there bag) (there bag') alike ((same bag').trans (same bag).symm) sized
    (Nat.le_of_eq (Nat.add_zero _)) looped
  exact ⟨out', ⟨(), alike.valid ▸ valid, made, created, (), alike.elementSize.trans sized, alike.noElements ▸ looped'⟩, similar⟩

/-- Two bags beside two that have their elements, as `bagAppend` needs them. -/
structure AlikeBags (bags bags' : Bags) (result result' source source' : SBag) : Prop where
  at_result : bags 0 = some result
  at_result' : bags' 0 = some result'
  results : Alike result result'
  at_source : bags 1 = some source
  at_source' : bags' 1 = some source'
  sources : Alike source source'
  sized : result.elementSize = source.elementSize

section
variable {bags bags' out : Bags} {result result' source source' : SBag}

theorem addElement_alike (alike : AlikeBags bags bags' result result' source source') (inside : i < source.noElements)
    (ran : addElement 0 1 i bags = some out) :
    ∃ out' after after', addElement 0 1 i bags' = some out' ∧ AlikeBags out out' after after' source source' := by
  simp only [addElement, alike.at_result, alike.at_source, Option.bind_eq_bind, Option.bind_some, Option.bind_eq_some_iff,
    assert_eq_some] at ran
  obtain ⟨_, valid, grown, ensured, _, apart, data, loaded, array, saved, _, still, ⟨⟩⟩ := ran
  obtain ⟨grown', ensured', similar⟩ := ensure_alike alike.results ensured
  have size := (ensured_fields ensured).1
  have width : source.elementSize = grown.elementSize := alike.sized.symm.trans size.symm
  have width' : source'.elementSize = grown.elementSize := alike.sources.elementSize.trans width
  have loads := alike.sources.load inside
  rw [width] at loads loaded
  obtain ⟨array', saved', written⟩ := written_alike similar (load_length loaded) saved
  have valid' : bagIsValid result' := alike.results.valid ▸ valid
  have kept : 0 < grown.elementSize := still
  have other : ¬ (0 = 1 ∧ result'.noElements = result'.capacity) := fun same => absurd same.1 Nat.zero_ne_one
  refine ⟨Function.update bags' 0 (some { grown' with array := array', noElements := grown'.noElements + 1 }), _, _, ?_,
    Function.update_self _ _ _, Function.update_self _ _ _, written, ?_, ?_, alike.sources, size.trans alike.sized⟩
  · simp only [addElement, bagIsValid, alike.at_result', alike.at_source', width', ensured', similar.elementSize, similar.noElements,
      assert_true kept, assert_true other, loads, loaded, saved', Option.bind_eq_bind, Option.bind_some]
    change (assert (bagIsValid result')).bind _ = _
    rw [assert_true valid', Option.bind_some]
  · exact (Function.update_of_ne Nat.one_ne_zero _ _).trans alike.at_source
  · exact (Function.update_of_ne Nat.one_ne_zero _ _).trans alike.at_source'

theorem forEach_alike (alike : AlikeBags bags bags' result result' source source')
    (ran : forEachLoop 1 (addElement 0 1) turns i bags = some out) :
    ∃ out' after after', forEachLoop 1 (addElement 0 1) turns i bags' = some out' ∧ AlikeBags out out' after after' source source' := by
  induction turns generalizing i bags bags' result result' with
  | zero =>
    simp only [forEachLoop, alike.at_source, alike.at_source', alike.sources.noElements, Option.bind_eq_bind, Option.bind_some] at ran ⊢
    by_cases more : i < source.noElements
    · rw [if_pos more] at ran
      cases ran
    · rw [if_neg more] at ran ⊢
      cases ran
      exact ⟨bags', result, result', rfl, alike⟩
  | succ turns ih =>
    simp only [forEachLoop, alike.at_source, alike.at_source', alike.sources.noElements, Option.bind_eq_bind, Option.bind_some] at ran ⊢
    by_cases more : i < source.noElements
    · rw [if_pos more] at ran ⊢
      obtain ⟨bags1, added, further⟩ := Option.bind_eq_some_iff.mp ran
      obtain ⟨bags1', after, after', added', similar⟩ := addElement_alike alike more added
      rw [added', Option.bind_some]
      exact ih similar further
    · rw [if_neg more] at ran ⊢
      cases ran
      exact ⟨bags', result, result', rfl, alike⟩

/-- `bagAppend` of a bag to another one. -/
theorem append_alike (results : Alike result result') (sources : Alike source source')
    (ran : bagAppend turns (beside result source) 0 1 = some out) :
    ∃ out' after after', bagAppend turns (beside result' source') 0 1 = some out' ∧ out 0 = some after ∧ out' 0 = some after' ∧
      Alike after after' := by
  have at_zero (bag other : SBag) : beside bag other 0 = some bag := rfl
  have at_one (bag other : SBag) : beside bag other 1 = some other := rfl
  simp only [bagAppend, BagAppend.bagForEach2, at_zero, at_one, Option.bind_eq_bind, Option.bind_some, Option.bind_eq_some_iff,
    assert_eq_some] at ran ⊢
  obtain ⟨_, valid, _, sized, _, _, looped⟩ := ran
  obtain ⟨out', after, after', looped', similar⟩ :=
    forEach_alike ⟨at_zero _ _, at_zero result' source', results, at_one _ _, at_one _ _, sources, sized⟩ looped
  have valid' : bagIsValid source' := sources.valid ▸ valid
  have sized' : result'.elementSize = source'.elementSize := by rw [results.elementSize, sources.elementSize, sized]
  exact ⟨out', after, after', ⟨(), valid', (), sized', (), valid', looped'⟩, similar.at_result, similar.at_result', similar.results⟩

end

/-! ### Every call -/

theorem random_alike {rand : Nat} (alike : Alike bag bag') :
    bagGetRandomElement2 (δ := δ) bag' rand = bagGetRandomElement2 bag rand := by
  unfold bagGetRandomElement2
  rw [alike.noElements, alike.elementSize]
  by_cases filled : bag.noElements ≠ 0
  · rw [assert_true filled, alike.load (Nat.mod_lt _ (Nat.pos_of_ne_zero filled))]
  · rw [Runs.assert_false filled]
    rfl

theorem look_alike {call : Look} {result : Result δ} (alike : Alike bag bag') (ran : look bag call = some result) :
    look bag' call = some result := by
  have all := elements_alike alike (Nat.le_refl _)
  cases call with
  | appendTo other =>
    simp only [look, Option.bind_eq_bind, Option.bind_eq_some_iff] at ran ⊢
    obtain ⟨out, appended, last, at_last, described⟩ := ran
    obtain ⟨out', after, after', appended', at_after, at_after', similar⟩ := append_alike (alike_refl other) alike appended
    cases at_after.symm.trans at_last
    exact ⟨out', alike.noElements ▸ appended', after', at_after', by rw [describe_alike similar, described]⟩
  | getRandomElement rand =>
    rw [look, bagGetRandomElement, ofPointers, alike.elementSize, alike.noElements, random_alike alike]
    exact ran
  | getRandomElement2 rand =>
    rw [look, random_alike alike]
    exact ran
  | contains2 element =>
    have looped : containsLoop bag' (bytesAt element bag.elementSize) bag.noElements 0 false =
        containsLoop bag (bytesAt element bag.elementSize) bag.noElements 0 false :=
      containsLoop_alike alike false (Nat.le_refl _)
    simp only [look, bagContains2, alike.valid, alike.elementSize, alike.noElements, looped]
    exact ran
  | _ =>
    simp only [look, bagGetElementSize, bagGetCapacityIncrement, bagNoElements, bagElements, bagElements2, bagContains,
      bagContainsCompare, BagCalls.bagForEach2, bagForEach, bagFilterForEach, bagUntil, bagUntil2, bagUntil2NoCopy, ofPointers,
      visit_alike _ alike, alike.valid, alike.elementSize, alike.noElements, alike.capacityIncrement, all] at ran ⊢
    exact ran

theorem hasNext_alike {current : Nat} (alike : Alike bag bag') : bagIteratorHasNext bag' current = bagIteratorHasNext bag current := by
  simp only [bagIteratorHasNext, alike.noElements, alike.valid]

theorem getNext_alike {current : Nat} (alike : Alike bag bag') (has : bagIteratorHasNext bag current = some true) :
    bagIteratorGetNext bag' current = bagIteratorGetNext bag current := by
  obtain ⟨_, _, decided⟩ := Option.bind_eq_some_iff.mp has
  have more : current < bag.noElements := of_decide_eq_true (Option.some.inj decided)
  simp only [bagIteratorGetNext, alike.valid, alike.elementSize, alike.load more]

theorem change_alike {call : Change} {result : Result δ} (alike : Alike bag bag') (ran : change bag call = some (result, after)) :
    ∃ after', change bag' call = some (result, after') ∧ Alike after after' := by
  cases call with
  | add obj =>
    obtain ⟨_, added, ⟨⟩⟩ := Option.map_eq_some_iff.mp ran
    obtain ⟨after', added', similar⟩ := add_alike alike added
    exact ⟨after', by rw [change, added']; rfl, similar⟩
  | add2 data =>
    obtain ⟨_, added, ⟨⟩⟩ := Option.map_eq_some_iff.mp ran
    obtain ⟨after', added', similar⟩ := add2_alike alike (by simp [bytesAt]) added
    exact ⟨after', by rw [change, alike.elementSize, added']; rfl, similar⟩
  | remove obj =>
    obtain ⟨_, removed, ⟨⟩⟩ := Option.map_eq_some_iff.mp ran
    obtain ⟨after', removed', similar⟩ := removeMaybe_alike alike removed
    exact ⟨after', by rw [change, removed']; rfl, similar⟩
  | remove2 data =>
    obtain ⟨_, removed, ⟨⟩⟩ := Option.map_eq_some_iff.mp ran
    obtain ⟨after', removed', similar⟩ := removeMaybe2_alike alike removed
    exact ⟨after', by rw [change, alike.elementSize, removed']; rfl, similar⟩
  | removeMaybe obj =>
    obtain ⟨_, removed, ⟨⟩⟩ := Option.map_eq_some_iff.mp ran
    obtain ⟨after', removed', similar⟩ := removeMaybe_alike alike removed
    exact ⟨after', by rw [change, removed']; rfl, similar⟩
  | removeMaybe2 data =>
    obtain ⟨_, removed, ⟨⟩⟩ := Option.map_eq_some_iff.mp ran
    obtain ⟨after', removed', similar⟩ := removeMaybe2_alike alike removed
    exact ⟨after', by rw [change, alike.elementSize, removed']; rfl, similar⟩
  | filter2 filterFunc =>
    obtain ⟨_, filtered, ⟨⟩⟩ := Option.map_eq_some_iff.mp ran
    obtain ⟨_, valid, looped⟩ := Option.bind_eq_some_iff.mp filtered
    have positive : 0 < bag.elementSize := assert_eq_some.mp valid
    obtain ⟨after', looped', similar⟩ := filterCalls_alike alike rfl looped
    refine ⟨after', ?_, similar⟩
    simp only [change, bagFilter2Calls, bagIsValid, alike.elementSize, alike.noElements, assert_true positive, looped',
      Option.bind_eq_bind, Option.bind_some, Option.map_some]
  | append source =>
    simp only [change, Option.bind_eq_bind, Option.bind_eq_some_iff] at ran ⊢
    obtain ⟨out, appended, last, at_last, ⟨⟩⟩ := ran
    obtain ⟨out', after, after', appended', at_after, at_after', similar⟩ := append_alike alike (alike_refl source) appended
    cases at_after.symm.trans at_last
    exact ⟨after', ⟨out', appended', after', at_after', rfl⟩, similar⟩

theorem duplicate_same {original original' : OwnedBag δ} (alike : Alike original.bag original'.bag) (memory : Uninitialised δ) :
    bagDuplicate original' memory = bagDuplicate original memory := by
  have copies : load original'.bag.array 0 (original.bag.noElements * original.bag.elementSize) =
      load original.bag.array 0 (original.bag.noElements * original.bag.elementSize) :=
    load_same alike.array (Nat.le_of_eq (Nat.zero_add _))
  simp only [bagDuplicate, alike.valid, alike.noElements, alike.capacity, alike.capacityIncrement, alike.elementSize, copies]

end

/-- A call of `bagFilter`, which hands the destroy function on to its new bag. -/
def Filters : Op δ → Prop
  | .filter _ => True
  | _ => False

/-- Two clients whose bags have the same elements, with their destroy functions. -/
structure Twins (destroyFunc destroyFunc' : Option δ) (lock' : Lock) (c c' : Client δ) : Prop where
  bags : Alike c.bag.bag c'.bag.bag
  destroyFunc : c.bag.destroyFunc = destroyFunc
  destroyFunc' : c'.bag.destroyFunc = destroyFunc'
  lock' : c'.bag.lock = lock'
  iterators : c'.iterators = c.iterators

section
variable {destroyFunc destroyFunc' : Option δ} {lock' : Lock} {c c' d : Client δ} {op : Op δ} {ops : List (Op δ)} {result : Result δ}
  {results : List (Result δ)}

/-- A call tells the same of two twins, but for the destroy function of a bag that `bagFilter` makes. -/
theorem step_twins (twins : Twins destroyFunc destroyFunc' lock' c c') (ran : step c op = some (result, d)) :
    ∃ result' d', step c' op = some (result', d') ∧ Twins destroyFunc destroyFunc' lock' d d' ∧
      (result' = result ↔ destroyFunc' = destroyFunc ∨ ¬ Filters op) := by
  have unfiltered (other : ¬ Filters op) : result = result ↔ destroyFunc' = destroyFunc ∨ ¬ Filters op :=
    iff_of_true rfl (.inr other)
  cases op with
  | look call =>
    obtain ⟨_, looked, ⟨⟩⟩ := Option.map_eq_some_iff.mp ran
    exact ⟨result, c', by rw [step, look_alike twins.bags looked]; rfl, twins, unfiltered id⟩
  | change call =>
    obtain ⟨_, changed, ⟨⟩⟩ := Option.map_eq_some_iff.mp ran
    obtain ⟨after', changed', similar⟩ := change_alike twins.bags changed
    refine ⟨_, _, congrArg (Option.map _) changed', ?_, unfiltered id⟩
    exact ⟨similar, twins.destroyFunc, twins.destroyFunc', twins.lock', twins.iterators⟩
  | filter filterFunc =>
    simp only [step, Option.bind_eq_bind, Option.bind_eq_some_iff, Option.map_eq_some_iff] at ran
    obtain ⟨out, filtered, made, at_made, _, described, ⟨⟩⟩ := ran
    obtain ⟨out', filtered', same⟩ := filter_alike twins.bags filtered
    obtain ⟨contents, listed, ⟨⟩⟩ := Option.map_eq_some_iff.mp described
    refine ⟨.bag ⟨contents, made.capacity, made.capacityIncrement, made.elementSize, c'.bag.destroyFunc⟩, c', ?_, twins, ?_⟩
    · simp only [step, filtered', same, at_made, describe, listed, Option.bind_eq_bind, Option.bind_some, Option.map_some]
    · rw [twins.destroyFunc, twins.destroyFunc']
      simp [Filters]
  | duplicate memory =>
    rw [step, ← duplicate_same twins.bags memory] at ran
    simp only [Option.bind_eq_bind, Option.bind_eq_some_iff, Option.map_eq_some_iff] at ran
    obtain ⟨made, duplicated, description, described, ⟨⟩⟩ := ran
    refine ⟨.bag description, c', ?_, twins, unfiltered id⟩
    simp only [step, duplicated, described, Option.bind_eq_bind, Option.bind_some, Option.map_some]
  | iteratorCreate =>
    obtain ⟨iterator, created, ⟨⟩⟩ := Option.bind_eq_some_iff.mp ran
    have created' : bagIteratorCreate2 c'.bag.bag = some iterator := by
      simp only [← created, bagIteratorCreate2, twins.bags.valid]
    refine ⟨.nothing, { c' with iterators := c'.iterators ++ [some iterator] }, ?_, ?_, unfiltered id⟩
    · rw [step, created']
      rfl
    · exact ⟨twins.bags, twins.destroyFunc, twins.destroyFunc', twins.lock', congrArg (· ++ [some iterator]) twins.iterators⟩
  | iteratorHasNext iterator =>
    simp only [step, Option.bind_eq_bind, Option.bind_eq_some_iff] at ran
    obtain ⟨current, there, more, has, ⟨⟩⟩ := ran
    refine ⟨.flag more, c', ?_, twins, unfiltered id⟩
    simp only [step, twins.iterators, there, hasNext_alike twins.bags, has, Option.bind_eq_bind, Option.bind_some]
  | iterate iterator =>
    simp only [step, Option.bind_eq_bind, Option.bind_eq_some_iff] at ran
    obtain ⟨current, there, more, has, reading⟩ := ran
    cases more with
    | false =>
      cases reading
      refine ⟨.found [] none, c', ?_, twins, unfiltered id⟩
      simp only [step, twins.iterators, there, hasNext_alike twins.bags, has, Option.bind_eq_bind, Option.bind_some,
        Bool.false_eq_true, if_false]
    | true =>
      simp only [if_true, Option.bind_eq_some_iff] at reading
      obtain ⟨⟨element, next⟩, read, ⟨⟩⟩ := reading
      refine ⟨.found [] (some element), { c' with iterators := c'.iterators.set iterator (some next) }, ?_, ?_, unfiltered id⟩
      · simp only [step, twins.iterators, there, hasNext_alike twins.bags, has, getNext_alike twins.bags has, read, if_true,
          Option.bind_eq_bind, Option.bind_some]
      · exact ⟨twins.bags, twins.destroyFunc, twins.destroyFunc', twins.lock', congrArg (List.set · iterator (some next)) twins.iterators⟩
  | iteratorDestroy iterator =>
    cases ran
    refine ⟨.nothing, { c' with iterators := c'.iterators.set iterator none }, rfl, ?_, unfiltered id⟩
    exact ⟨twins.bags, twins.destroyFunc, twins.destroyFunc', twins.lock', congrArg (List.set · iterator none) twins.iterators⟩

/-- The two clients' calls, one after another. -/
theorem calls_twins (twins : Twins destroyFunc destroyFunc' lock' c c') (ran : calls c ops = some (results, d)) :
    ∃ results' d', calls c' ops = some (results', d') ∧ Twins destroyFunc destroyFunc' lock' d d' ∧
      (results' = results ↔ destroyFunc' = destroyFunc ∨ ∀ op ∈ ops, ¬ Filters op) := by
  induction ops generalizing c c' results with
  | nil =>
    cases ran
    exact ⟨[], c', rfl, twins, iff_of_true rfl (.inr (by simp))⟩
  | cons op rest ih =>
    simp only [calls, Option.bind_eq_bind, Option.bind_eq_some_iff] at ran
    obtain ⟨⟨result, middle⟩, stepped, ⟨later, last⟩, others, ⟨⟩⟩ := ran
    obtain ⟨result', middle', stepped', between, same⟩ := step_twins twins stepped
    obtain ⟨later', last', others', behind, rest_same⟩ := ih between others
    refine ⟨result' :: later', last', ?_, behind, ?_⟩
    · simp only [calls, stepped', others', Option.bind_eq_bind, Option.bind_some]
    · rw [List.cons.injEq, same, rest_same, ← or_and_left, List.forall_mem_cons]

end

/-! ### The duplicate -/

section
variable {b : OwnedBag δ} {contents : List Value}

/-- The bytes of the elements are written. -/
theorem packed_cell {size i : Nat} {block : Block UInt8} (packed : Packed size block contents) (inside : i < contents.length * size) :
    ∃ byte, block.cell i = some byte := by
  have positive : 0 < size := Nat.pos_of_mul_pos_left (Nat.zero_lt_of_lt inside)
  have element : i / size < contents.length := Nat.div_lt_of_lt_mul (Nat.mul_comm _ _ ▸ inside)
  have byte : i % size < size := Nat.mod_lt _ positive
  have same := congrArg (·[i % size]?) (packed.value _ element)
  have reach : i % size < contents[i / size].length := by rwa [packed.length element]
  simp only [slice, List.getElem?_map, List.getElem?_range byte, Option.map_some, Nat.mul_comm (i / size), Nat.div_add_mod] at same
  rw [List.getElem?_eq_getElem reach] at same
  exact ⟨_, Option.some.inj same⟩

/-- What is read where everything is written. -/
theorem load_written {block : Block UInt8} {length : Nat} (room : length ≤ block.size) {bytes : Nat → UInt8}
    (written : ∀ i < length, block.cell i = some (bytes i)) : load block 0 length = some ((List.range length).map bytes) := by
  have cells : slice block.cell 0 length = ((List.range length).map bytes).map some := by
    rw [slice, List.map_map]
    apply List.map_congr_left
    intro i member
    rw [Nat.zero_add]
    exact written i (List.mem_range.mp member)
  rw [load, assert_true (by omega), cells, Option.bind_eq_bind, Option.bind_some, mapM_some]

theorem duplicate_alike (holding : Holding b.bag contents) (memory : Uninitialised δ) :
    ∃ d, bagDuplicate b memory = some d ∧ Alike b.bag d.bag ∧ d.destroyFunc = memory.destroyFunc ∧ d.lock = memory.lock := by
  have valid : bagIsValid b.bag := holding.valid
  have all_written : ∀ i, ∃ byte, i < b.bag.noElements * b.bag.elementSize → b.bag.array.cell i = some byte := by
    intro i
    by_cases inside : i < b.bag.noElements * b.bag.elementSize
    · obtain ⟨byte, there⟩ := packed_cell holding.packed (holding.count ▸ inside)
      exact ⟨byte, fun _ => there⟩
    · exact ⟨0, fun other => absurd other inside⟩
  choose bytes written using all_written
  have room : b.bag.noElements * b.bag.elementSize ≤ b.bag.array.size := holding.count ▸ holding.packed.room
  have loaded := load_written room written
  let copied := (List.range (b.bag.noElements * b.bag.elementSize)).map bytes
  have length : copied.length = b.bag.noElements * b.bag.elementSize := by simp [copied]
  let fresh : Block UInt8 := allocate (b.bag.elementSize * b.bag.capacity)
  have fits : 0 + copied.length ≤ fresh.size := by
    rw [Nat.zero_add, length, show fresh.size = b.bag.capacity * b.bag.elementSize from Nat.mul_comm _ _]
    exact Nat.mul_le_mul_right _ (holding.count ▸ holding.room)
  have saved := save_inside fits
  refine ⟨⟨{ b.bag with array := { fresh with cell := store fresh.cell 0 (copied.map some) } }, memory.destroyFunc, memory.lock⟩, ?_,
    ⟨rfl, rfl, rfl, rfl, ?_, ?_⟩, rfl, rfl⟩
  · have valid' : bagIsValid { b.bag with array := { fresh with cell := store fresh.cell 0 (copied.map some) } } := valid
    simp only [bagDuplicate, assert_true valid, loaded, Option.bind_eq_bind, Option.bind_some]
    rw [show save (allocate _) 0 _ = _ from saved, Option.bind_some, assert_true valid']
    rfl
  · exact (Nat.mul_comm _ _).trans holding.allocated.symm
  · intro i inside
    have written_there : 0 ≤ i ∧ i < 0 + (copied.map some).length := by simpa [length] using inside
    rw [written i inside]
    simp only [store, dif_pos written_there]
    simp [copied]

/-- No element is left when the calls have been made. -/
def EmptyAtLast (b : OwnedBag δ) (ops : List (Op δ)) : Prop :=
  ∀ results last, calls ⟨b, []⟩ ops = some (results, last) → last.bag.bag.noElements = 0

theorem visitLoop_length {bag : SBag} {turns i : Nat} {seen passed : List Value} {found : Option Value}
    (ran : visitLoop bag (fun _ _ => false) turns i seen = some (passed, found)) : passed.length = seen.length + turns := by
  induction turns generalizing i seen with
  | zero =>
    cases ran
    rfl
  | succ turns ih =>
    obtain ⟨element, _, further⟩ := Option.bind_eq_some_iff.mp ran
    rw [ih further, List.length_append, List.length_singleton, Nat.add_right_comm, Nat.add_assoc]

/-- Two functions are called with the same elements alike when they are the same, or there are none. -/
private theorem calls_equal {f f' : δ} (passed : List Value) :
    passed.map (fun element => (f', element)) = passed.map (fun element => (f, element)) ↔ f' = f ∨ passed.length = 0 := by
  cases passed with
  | nil => simp
  | cons first rest =>
    constructor
    · intro same
      exact .inl (congrArg Prod.fst (List.cons.inj same).1)
    · rintro (rfl | none)
      · rfl
      · cases none

theorem destroyLoop_alike {b' : OwnedBag δ} {destroyed : List (δ × Value)} (alike : Alike b.bag b'.bag)
    (ran : destroyLoop b = some destroyed) :
    destroyLoop b' = some destroyed ↔ b'.destroyFunc = b.destroyFunc ∨ b.bag.noElements = 0 := by
  have visits : visitLoop b'.bag (fun _ _ => false) b.bag.noElements 0 [] =
      visitLoop b.bag (fun _ _ => false) b.bag.noElements 0 [] :=
    visitLoop_alike (fun _ _ => false) alike (Nat.le_of_eq (Nat.add_zero _))
  unfold destroyLoop at ran ⊢
  cases before : b.destroyFunc with
  | none =>
    rw [before] at ran
    cases ran
    cases after : b'.destroyFunc with
    | none => simp
    | some f' =>
      rw [alike.noElements, visits]
      constructor
      · intro same
        obtain ⟨⟨passed, found⟩, visited, nothing⟩ := Option.bind_eq_some_iff.mp same
        have length := visitLoop_length visited
        rw [List.map_eq_nil_iff.mp (Option.some.inj nothing), List.length_nil, Nat.zero_add] at length
        exact .inr length.symm
      · rintro (⟨⟨⟩⟩ | empty)
        rw [empty]
        rfl
  | some f =>
    rw [before] at ran
    obtain ⟨⟨passed, found⟩, visited, ⟨⟩⟩ := Option.bind_eq_some_iff.mp ran
    have length := visitLoop_length visited
    rw [List.length_nil, Nat.zero_add] at length
    cases after : b'.destroyFunc with
    | none =>
      simp only [Option.some.injEq, reduceCtorEq, false_or]
      rw [eq_comm, List.map_eq_nil_iff, ← List.length_eq_zero_iff, length]
    | some f' =>
      simp only [alike.noElements, visits, visited, Option.bind_eq_bind, Option.bind_some, Option.some.injEq, calls_equal, length]

theorem destroy2_iff {threads : Bool} {destroyed : List (δ × Value)} : bagDestroy2 threads b = some destroyed ↔
    bagIsValid b.bag ∧ destroyLoop b = some destroyed ∧ (threads = true → b.lock.count = 0 ∧ b.lock.initialised = true) := by
  cases threads with
  | false => simp [bagDestroy2, Option.bind_eq_some_iff]
  | true =>
    simp only [bagDestroy2, mutexDestroy, if_true, Option.bind_eq_bind, Option.bind_eq_some_iff, assert_eq_some, exists_const,
      true_imp_iff]
    refine and_congr_right fun _ => ?_
    constructor
    · rintro ⟨_, looped, unlocked, ⟨⟩⟩
      exact ⟨looped, unlocked⟩
    · rintro ⟨looped, unlocked⟩
      exact ⟨destroyed, looped, unlocked, rfl⟩

end

/-- For every bag, every memory that its duplicate gets, and every sequence of calls that the bag ends with
    `bagDestroy2`: the duplicate tells the same results and calls the destroy function in the same way just
    when the memory has an initialised, unlocked mutex, if there is one, and the same destroy function;
    for the destroy function it is enough that there are no calls of `bagFilter` and no elements at last. -/
theorem duplicate_behaves_iff {threads : Bool} {b : OwnedBag δ} {contents : List Value} (holding : Holding b.bag contents)
    (memory : Uninitialised δ) {ops : List (Op δ)} {seen : List (Result δ) × List (δ × Value)}
    (ran : behaviour threads b ops = some seen) :
    ∃ d, bagDuplicate b memory = some d ∧ (behaviour threads d ops = some seen ↔
      (threads = true → memory.lock.count = 0 ∧ memory.lock.initialised = true) ∧
        (memory.destroyFunc = b.destroyFunc ∨ (∀ op ∈ ops, ¬ Filters op) ∧ EmptyAtLast b ops)) := by
  obtain ⟨d, duplicated, alike, destroyFunc, lock⟩ := duplicate_alike holding memory
  refine ⟨d, duplicated, ?_⟩
  obtain ⟨⟨results, last⟩, called, ending⟩ := Option.bind_eq_some_iff.mp ran
  obtain ⟨destroyed, destroying, ⟨⟩⟩ := Option.bind_eq_some_iff.mp ending
  obtain ⟨valid, looped, -⟩ := destroy2_iff.mp destroying
  have start : Twins b.destroyFunc memory.destroyFunc memory.lock ⟨b, []⟩ ⟨d, []⟩ := ⟨alike, rfl, destroyFunc, lock, rfl⟩
  obtain ⟨results', last', called', twins, same⟩ := calls_twins start called
  have empty : EmptyAtLast b ops ↔ last.bag.bag.noElements = 0 := by
    refine ⟨fun at_last => at_last _ _ called, fun none results last again => ?_⟩
    cases called.symm.trans again
    exact none
  have ends : behaviour threads d ops = some (results, destroyed) ↔
      bagDestroy2 threads last'.bag = some destroyed ∧ results' = results := by
    simp only [behaviour, called', Option.bind_eq_bind, Option.bind_some, Option.bind_eq_some_iff]
    constructor
    · rintro ⟨_, destroying', ⟨⟩⟩
      exact ⟨destroying', rfl⟩
    · rintro ⟨destroying', rfl⟩
      exact ⟨destroyed, destroying', rfl⟩
  have valid' : bagIsValid last'.bag.bag := twins.bags.valid ▸ valid
  have destroys := destroyLoop_alike twins.bags looped
  rw [twins.destroyFunc, twins.destroyFunc'] at destroys
  rw [ends, destroy2_iff, and_iff_right valid', destroys, same, twins.lock', empty, or_and_left]
  constructor
  · rintro ⟨⟨atEnd, unlocked⟩, filters⟩
    exact ⟨unlocked, filters, atEnd⟩
  · rintro ⟨unlocked, filters, atEnd⟩
    exact ⟨⟨atEnd, unlocked⟩, filters⟩

/-- A bag of one element, which is to be destroyed by the function 5. -/
def destroyable : OwnedBag Nat := ⟨repeated 1 7, some 5, newLock⟩

theorem duplicate_behaves_iff_removed :
    ∃ d, bagDuplicate destroyable ⟨none, newLock⟩ = some d ∧
      (behaviour true d [.look .forEach2, .change (.remove2 fun _ => 7)] = some ([.shown [List.replicate 8 7], .nothing], []) ↔
        (true = true → newLock.count = 0 ∧ newLock.initialised = true) ∧
          (none = destroyable.destroyFunc ∨
            (∀ op ∈ [Op.look .forEach2, Op.change (.remove2 fun _ => 7)], ¬ Filters (δ := Nat) op) ∧
              EmptyAtLast destroyable [.look .forEach2, .change (.remove2 fun _ => 7)])) :=
  duplicate_behaves_iff (repeated_holding 1 7) ⟨none, newLock⟩ rfl

/-- The bag's element is destroyed by its function, and the duplicate's is not, or by what is no function. -/
theorem duplicate_differs : ∃ d d', bagDuplicate destroyable ⟨none, newLock⟩ = some d ∧ bagDuplicate destroyable ⟨some 9, newLock⟩ = some d' ∧
    behaviour false destroyable [] = some ([], [(5, List.replicate 8 7)]) ∧ behaviour false d [] = some ([], []) ∧
    behaviour false d' [] = some ([], [(9, List.replicate 8 7)]) ∧
    ∃ e, bagDuplicate destroyable ⟨some 5, ⟨0, false⟩⟩ = some e ∧ behaviour true e [] = none :=
  ⟨_, _, rfl, rfl, rfl, rfl, rfl, _, rfl, rfl⟩

end VoxiUtil.BagDuplicate
