import VoxiUtil.BagAdds

/-!
`bagAppend`, which adds to one bag while it goes through another, or through the same one.
-/
namespace VoxiUtil.BagAppend
open VoxiUtil.Bag
open VoxiUtil.BagMultiset
open VoxiUtil.BagAdds
open VoxiUtil.Blocks
open VoxiUtil.Runs
open VoxiUtil.Limits (pointerSize)

/-- `bagAdd2` of what is at the element `i` of a bag. When that bag is the one that grows,
    its array moves and the pointer to the element leads nowhere. -/
def addElement (result source i : Nat) (bags : Bags) : Option Bags := do
  let bag ← bags result
  assert (bagIsValid bag)
  let grown ← ensureIncCapacity bag
  assert (¬ (result = source ∧ bag.noElements = bag.capacity))
  let other ← bags source
  let data ← load other.array (i * other.elementSize) grown.elementSize
  let array ← save grown.array (grown.noElements * grown.elementSize) data
  let bag := { grown with array := array, noElements := grown.noElements + 1 }
  assert (bagIsValid bag)
  some (Function.update bags result (some bag))

/-- The loop of `bagForEach2` from the element `i` on, for at most so many turns. -/
def forEachLoop (source : Nat) (forEachFunc : Nat → Bags → Option Bags) : Nat → Nat → Bags → Option Bags
  | 0, i, bags => do
    let bag ← bags source
    if i < bag.noElements then none else some bags
  | turns + 1, i, bags => do
    let bag ← bags source
    if i < bag.noElements then do
      let bags ← forEachFunc i bags
      forEachLoop source forEachFunc turns (i + 1) bags
    else some bags

def bagForEach2 (turns : Nat) (bags : Bags) (source : Nat) (forEachFunc : Nat → Bags → Option Bags) : Option Bags := do
  let bag ← bags source
  assert (bagIsValid bag)
  forEachLoop source forEachFunc turns 0 bags

def bagAppend (turns : Nat) (bags : Bags) (result source : Nat) : Option Bags := do
  let from_bag ← bags source
  assert (bagIsValid from_bag)
  let to_bag ← bags result
  assert (to_bag.elementSize = from_bag.elementSize)
  bagForEach2 turns bags source (addElement result source)

/-- The call ends with all of the elements in the result. -/
def Appends (bags : Bags) (result source : Nat) (before added : List Value) : Prop :=
  ∃ turns bags' bag after, bagAppend turns bags result source = some bags' ∧ bags' result = some bag ∧
    elements bag bag.noElements = some after ∧ (after : Multiset Value) = (before : Multiset Value) + added

section
variable {bags : Bags} {result source i turns : Nat} {bag other : SBag} {contents added : List Value}

/-- With another bag as the source an element is added by its value. -/
theorem addElement_apart (apart : result ≠ source) (there : bags result = some bag) (at_source : bags source = some other)
    (holding : Holding other added) (sized : bag.elementSize = other.elementSize) (inside : i < added.length) :
    addElement result source i bags = (bagAdd2 bag added[i]).map fun bag => Function.update bags result (some bag) := by
  have loaded := load_packed holding.packed inside
  have other_bag : ¬ (result = source ∧ bag.noElements = bag.capacity) := fun same => apart same.1
  simp only [addElement, bagAdd2, there, at_source, assert_true other_bag, Option.bind_eq_bind, Option.bind_some, Option.map_bind]
  refine congrArg _ (funext fun _ => ?_)
  cases ensured : ensureIncCapacity bag with
  | none => rfl
  | some grown =>
    have size : grown.elementSize = other.elementSize := (ensured_fields ensured).1.trans sized
    simp only [Option.bind_some, size, loaded, Function.comp_def, Option.map_bind, Option.map_some]

/-- With the same bag as the source an element is one of its own. -/
theorem addElement_same (there : bags source = some bag) :
    addElement source source i bags = (bagAdd2Own bag (i * bag.elementSize)).map fun bag => Function.update bags source (some bag) := by
  simp only [addElement, bagAdd2Own, there, Option.bind_eq_bind, Option.bind_some, Option.map_bind, true_and]
  refine congrArg _ (funext fun _ => ?_)
  unfold ensureIncCapacity
  by_cases full : bag.noElements = bag.capacity
  · simp [full, assert]
  · simp only [if_neg full, Option.bind_some, Function.comp_def, Option.map_bind, Option.map_some, ne_eq]

/-- A loop that ends does not need more turns. -/
theorem forEach_mono {forEachFunc : Nat → Bags → Option Bags} {out : Bags} {more : Nat}
    (ended : forEachLoop source forEachFunc turns i bags = some out) (enough : turns ≤ more) :
    forEachLoop source forEachFunc more i bags = some out := by
  induction turns generalizing more i bags with
  | zero =>
    obtain ⟨bag, there, tested⟩ := Option.bind_eq_some_iff.mp ended
    by_cases further : i < bag.noElements
    · rw [if_pos further] at tested
      cases tested
    · cases more with
      | zero => exact ended
      | succ more => simpa only [forEachLoop, there, Option.bind_eq_bind, Option.bind_some, if_neg further] using tested
  | succ turns ih =>
    cases more with
    | zero => omega
    | succ more =>
      obtain ⟨bag, there, tested⟩ := Option.bind_eq_some_iff.mp ended
      simp only [forEachLoop, there, Option.bind_eq_bind, Option.bind_some]
      by_cases further : i < bag.noElements
      · rw [if_pos further] at tested ⊢
        obtain ⟨bags', called, later⟩ := Option.bind_eq_some_iff.mp tested
        rw [called, Option.bind_some]
        exact ih later (by omega)
      · rw [if_neg further] at tested ⊢
        exact tested

theorem forEach_behind {forEachFunc : Nat → Bags → Option Bags} (at_source : bags source = some other) (past : other.noElements ≤ i) :
    forEachLoop source forEachFunc turns i bags = some bags := by
  have ended : ¬ i < other.noElements := Nat.not_lt.mpr past
  cases turns <;> simp only [forEachLoop, at_source, Option.bind_eq_bind, Option.bind_some, if_neg ended]

theorem forEach_adds (apart : result ≠ source) (there : bags result = some bag) (at_source : bags source = some other)
    (holding : Holding other added) (sized : bag.elementSize = other.elementSize) (enough : added.length ≤ turns + i) :
    forEachLoop source (addElement result source) turns i bags =
      (run bagAdd2 bag (added.drop i)).map fun bag => Function.update bags result (some bag) := by
  induction turns generalizing bags bag i with
  | zero =>
    have past : added.length ≤ i := by omega
    rw [forEach_behind at_source (holding.count ▸ past), List.drop_of_length_le past, run_nil, Option.map_some, ← there,
      Function.update_eq_self]
  | succ turns ih =>
    by_cases inside : i < added.length
    · have more : i < other.noElements := holding.count ▸ inside
      simp only [forEachLoop, at_source, Option.bind_eq_bind, Option.bind_some, if_pos more,
        addElement_apart apart there at_source holding sized inside, List.drop_eq_getElem_cons inside, run]
      cases stepped : bagAdd2 bag added[i] with
      | none => rfl
      | some longer =>
        have still : Function.update bags result (some longer) source = some other := by
          rw [Function.update_of_ne (Ne.symm apart), at_source]
        simp only [Option.map_some, Option.bind_some]
        rw [ih (Function.update_self _ _ _) still ((add2_size stepped).trans sized) (by omega)]
        simp only [Function.update_idem]
    · have past : added.length ≤ i := by omega
      rw [forEach_behind at_source (holding.count ▸ past), List.drop_of_length_le past, run_nil, Option.map_some, ← there,
        Function.update_eq_self]

/-- Another bag's elements are added one after another. -/
theorem append_adds (apart : result ≠ source) (there : bags result = some bag) (at_source : bags source = some other)
    (holding : Holding other added) (sized : bag.elementSize = other.elementSize) (enough : added.length ≤ turns) :
    bagAppend turns bags result source = (run bagAdd2 bag added).map fun bag => Function.update bags result (some bag) := by
  have valid : bagIsValid other := holding.valid
  simp only [bagAppend, bagForEach2, there, at_source, assert_true valid, assert_true sized, Option.bind_eq_bind, Option.bind_some]
  rw [forEach_adds apart there at_source holding sized enough, List.drop_zero]

/-- The same bag has one element more behind each turn, so that its end is never reached. -/
theorem forEach_same (there : bags source = some bag) (more : i < bag.noElements) :
    forEachLoop source (addElement source source) turns i bags = none := by
  induction turns generalizing bags bag i with
  | zero => simp only [forEachLoop, there, Option.bind_eq_bind, Option.bind_some, if_pos more]
  | succ turns ih =>
    simp only [forEachLoop, there, Option.bind_eq_bind, Option.bind_some, if_pos more]
    cases stepped : addElement source source i bags with
    | none => rfl
    | some bags' =>
      simp only [addElement, there, Option.bind_eq_bind, Option.bind_some, Option.bind_eq_some_iff, assert_eq_some] at stepped
      obtain ⟨_, _, grown, ensured, _, _, _, _, _, _, _, _, ⟨⟩⟩ := stepped
      have count : grown.noElements = bag.noElements := (ensured_fields ensured).2
      exact ih (Function.update_self _ _ _) (by simp only [count]; omega)

end

/-- For every two bags of one element size in memory, or one bag twice, `bagAppend` ends with the sum of
    the multisets in the result just when the bags are different, or there is nothing to add, and the
    result can hold all of the elements. -/
theorem appends_iff {bags : Bags} {result source : Nat} {bag other : SBag} {before added : List Value} (there : bags result = some bag)
    (at_source : bags source = some other) (holding : Holding bag before) (held : Holding other added)
    (sized : bag.elementSize = other.elementSize) :
    Appends bags result source before added ↔ (result ≠ source ∨ added = []) ∧ CanHold bag (before.length + added.length) := by
  have valid : bagIsValid other := held.valid
  have loop (turns : Nat) : bagAppend turns bags result source =
      forEachLoop source (addElement result source) turns 0 bags := by
    simp only [bagAppend, bagForEach2, there, at_source, assert_true valid, assert_true sized, Option.bind_eq_bind, Option.bind_some]
  have lengths : ∀ value ∈ added, value.length = bag.elementSize := fun value member =>
    (held.value_length member).trans sized.symm
  have able := adds_iff holding lengths
  by_cases apart : result = source
  · subst apart
    cases there.symm.trans at_source
    by_cases empty : added = []
    · subst empty
      have fits : CanHold bag (before.length + ([] : List Value).length) := by
        rw [← able]
        rfl
      refine iff_of_true ⟨0, bags, bag, before, ?_, there, elements_holding holding, by simp⟩ ⟨.inr rfl, fits⟩
      have none_behind : bag.noElements ≤ 0 := held.count.le
      rw [loop, forEach_behind there none_behind]
    · have more : 0 < bag.noElements := held.count ▸ List.length_pos_iff.mpr empty
      refine iff_of_false ?_ (by simp [empty])
      rintro ⟨turns, _, _, _, ended, _⟩
      rw [loop, forEach_same there more] at ended
      cases ended
  · rw [← able, and_iff_right (.inl apart)]
    constructor
    · rintro ⟨turns, bags', _, _, ended, _⟩
      rw [loop] at ended
      have longer := forEach_mono ended (Nat.le_add_right turns added.length)
      rw [← loop, append_adds apart there at_source held sized (Nat.le_add_left _ _)] at longer
      obtain ⟨_, ran, _⟩ := Option.map_eq_some_iff.mp longer
      rw [ran]
      rfl
    · intro fits
      obtain ⟨bag', ran⟩ := Option.isSome_iff_exists.mp fits
      have all := adds_holding holding lengths ran
      have ended : bagAppend added.length bags result source = some (Function.update bags result (some bag')) := by
        rw [append_adds apart there at_source held sized (Nat.le_refl _), ran]
        rfl
      exact ⟨added.length, _, bag', _, ended, Function.update_self _ _ _, elements_holding all, by simp⟩

theorem appends_iff_repeated :
    Appends (Function.update (fun _ => some (repeated 1 7)) 1 (some (repeated 2 3))) 0 1
        (List.replicate 1 (List.replicate pointerSize 7)) (List.replicate 2 (List.replicate pointerSize 3)) ↔
      (0 ≠ 1 ∨ List.replicate 2 (List.replicate pointerSize (3 : UInt8)) = []) ∧ CanHold (repeated 1 7) (1 + 2) :=
  appends_iff rfl rfl (repeated_holding 1 7) (repeated_holding 2 3) rfl

/-- A bag appended to itself. -/
theorem appends_to_itself :
    ¬ Appends (fun _ => some (repeated 1 7)) 0 0 (List.replicate 1 (List.replicate pointerSize 7))
      (List.replicate 1 (List.replicate pointerSize 7)) := by
  rw [appends_iff rfl rfl (repeated_holding 1 7) (repeated_holding 1 7) rfl]
  simp

end VoxiUtil.BagAppend
