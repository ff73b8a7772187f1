import VoxiUtil.BagAppend
import VoxiUtil.BagFilters
import VoxiUtil.CString

/-!
`bagCrossProd`, which puts each two strings together in a buffer of 512 bytes.
-/
namespace VoxiUtil.BagCrossProd
open VoxiUtil.Bag
open VoxiUtil.BagMultiset
open VoxiUtil.BagAdds
open VoxiUtil.BagAppend
open VoxiUtil.BagFilters (created_canHold started_holding)
open VoxiUtil.Blocks
open VoxiUtil.CString
open VoxiUtil.Runs
open VoxiUtil.Limits (pointerSize)

instance : DecidableEq Pointer := inferInstanceAs (DecidableEq { bytes : Value // bytes.length = pointerSize })

/-- The bags and the strings in memory, and the pointers that `_strdup` will give. -/
structure Memory where
  bags : Bags
  strings : Pointer → Option Text
  free : List Pointer

def pointerOf (bytes : Value) (sized : bytes.length = pointerSize) : Pointer := ⟨bytes, sized⟩

def bytesOf (pointers : List Pointer) : List Value := pointers.map fun pointer => pointer.val

/-- The string at a pointer with these bytes. -/
def textOf (strings : Pointer → Option Text) (bytes : Value) : Option Text :=
  if sized : bytes.length = pointerSize then strings (pointerOf bytes sized) else none

/-- `_strdup`. It gets memory where no string is. -/
def strdup (m : Memory) (text : Text) : Option (Pointer × Memory) :=
  match m.free with
  | [] => none
  | pointer :: free =>
    if (m.strings pointer).isNone then some (pointer, { m with strings := Function.update m.strings pointer (some text), free := free })
    else none

/-- What `snprintf( buf, 512, "%s %s", str1, str2 )` leaves in the buffer. -/
def joined (str1 str2 : Text) : Text := (str1 ++ byte ' ' :: str2).take 511

/-- `bagAdd( bag, _strdup( buf ) )`. -/
def addCopy (result : Nat) (m : Memory) (buf : Text) : Option Memory := do
  let (copy, m) ← strdup m buf
  let bags ← bagAddAt m.bags result copy
  some { m with bags := bags }

/-- The loop over the second bag, for at most so many turns. -/
def innerLoop (bag2 result : Nat) (str1 : Value) : Nat → Nat → Memory → Option Memory
  | 0, _, _ => none
  | turns + 1, bi2, m => do
    let bag ← m.bags bag2
    if ← bagIteratorHasNext bag bi2 then do
      let (str2, bi2) ← bagIteratorGetNext bag bi2
      let text1 ← textOf m.strings str1
      let text2 ← textOf m.strings str2
      let m ← addCopy result m (joined text1 text2)
      innerLoop bag2 result str1 turns bi2 m
    else some m

/-- The loop over the first bag, for at most so many turns. -/
def outerLoop (bag1 bag2 result : Nat) : Nat → Nat → Memory → Option Memory
  | 0, _, _ => none
  | turns + 1, bi, m => do
    let bag ← m.bags bag1
    if ← bagIteratorHasNext bag bi then do
      let (str1, bi) ← bagIteratorGetNext bag bi
      let other ← m.bags bag2
      let bi2 ← bagIteratorCreate2 other
      let m ← innerLoop bag2 result str1 (other.noElements + 1) bi2 m
      outerLoop bag1 bag2 result turns bi m
    else some m

/-- The new bag is at the address `result`. -/
def bagCrossProd (m : Memory) (bag1 bag2 result : Nat) : Option Memory := do
  let bag ← bagCreate 10 10
  let m := { m with bags := Function.update m.bags result (some bag) }
  let first ← m.bags bag1
  let second ← m.bags bag2
  if (← bagNoElements first) = 0 then do
    let bags ← bagAppend second.noElements m.bags result bag2
    some { m with bags := bags }
  else do
    let bi ← bagIteratorCreate2 first
    outerLoop bag1 bag2 result (first.noElements + 1) bi m

/-- The strings of a bag. -/
def textsOf (strings : Pointer → Option Text) (contents : List Value) : Option (List Text) := contents.mapM (textOf strings)

/-- Every string of one bag with every one of the other. -/
def product (texts1 texts2 : List Text) : List Text := texts1.flatMap fun s1 => texts2.map fun s2 => s1 ++ byte ' ' :: s2

/-- The call ends with the cross product of the strings in the new bag. -/
def Crosses (m : Memory) (bag1 bag2 result : Nat) (texts1 texts2 : List Text) : Prop :=
  ∃ m' bag after texts, bagCrossProd m bag1 bag2 result = some m' ∧ m'.bags result = some bag ∧
    elements bag bag.noElements = some after ∧ textsOf m'.strings after = some texts ∧
    bag.noElements = texts1.length * texts2.length ∧ (texts : Multiset Text) = product texts1 texts2

section
variable {m m' : Memory} {bag1 bag2 result i turns : Nat} {bag first other made : SBag} {contents contents1 contents2 : List Value}
  {text : Text} {texts texts1 texts2 : List Text}

/-- What a call leaves of the memory: the other bags, and all strings. -/
def Keeps (result : Nat) (m m' : Memory) : Prop :=
  (∀ address ≠ result, m'.bags address = m.bags address) ∧ ∀ bytes text, textOf m.strings bytes = some text →
    textOf m'.strings bytes = some text

theorem keeps_refl (result : Nat) (m : Memory) : Keeps result m m := ⟨fun _ _ => rfl, fun _ _ same => same⟩

theorem Keeps.trans {last : Memory} (before : Keeps result m m') (behind : Keeps result m' last) : Keeps result m last :=
  ⟨fun address other => (behind.1 address other).trans (before.1 address other),
    fun bytes text there => behind.2 bytes text (before.2 bytes text there)⟩

theorem addCopy_cases (added : addCopy result m text = some m') :
    ∃ pointer bag after, m.free = pointer :: m'.free ∧ m.bags result = some bag ∧ bagAdd bag pointer = some after ∧
      m'.bags = Function.update m.bags result (some after) ∧ m.strings pointer = none ∧
      m'.strings = Function.update m.strings pointer (some text) := by
  unfold addCopy strdup at added
  cases pointers : m.free with
  | nil =>
    rw [pointers] at added
    cases added
  | cons pointer free =>
    rw [pointers] at added
    by_cases unused : (m.strings pointer).isNone = true
    · simp only [if_pos unused, bagAddAt, Option.bind_eq_bind, Option.bind_some, Option.bind_eq_some_iff] at added
      obtain ⟨_, ⟨bag, there, after, stored, ⟨⟩⟩, ⟨⟩⟩ := added
      exact ⟨pointer, bag, after, rfl, there, stored, rfl, Option.isNone_iff_eq_none.mp unused, rfl⟩
    · simp only [if_neg unused] at added
      cases added

theorem addCopy_keeps (added : addCopy result m text = some m') : Keeps result m m' := by
  obtain ⟨pointer, bag, after, -, -, -, bags, unused, strings⟩ := addCopy_cases added
  constructor
  · intro address other
    rw [bags, Function.update_of_ne other]
  · intro bytes old there
    unfold textOf at there ⊢
    split at there
    · rename_i sized
      have apart : pointerOf bytes sized ≠ pointer := by
        rintro rfl
        cases unused.symm.trans there
      rw [dif_pos sized, strings, Function.update_of_ne apart, there]
    · cases there

theorem copies_keep (ran : run (addCopy result) m texts = some m') : Keeps result m m' :=
  @run_invariant _ _ (addCopy result) (Keeps result m) (fun _ _ _ kept added => kept.trans (addCopy_keeps added)) _ _ _
    (keeps_refl result m) ran

theorem textsOf_cons {strings : Pointer → Option Text} {bytes : Value} : textsOf strings (bytes :: contents) = some texts ↔
    ∃ text rest, textOf strings bytes = some text ∧ textsOf strings contents = some rest ∧ texts = text :: rest := by
  simp only [textsOf, List.mapM_cons, Option.bind_eq_bind, Option.bind_eq_some_iff, Option.pure_def, Option.some.injEq]
  constructor
  · rintro ⟨text, here, rest, others, rfl⟩
    exact ⟨text, rest, here, others, rfl⟩
  · rintro ⟨text, rest, here, others, rfl⟩
    exact ⟨text, here, rest, others, rfl⟩

theorem textsOf_getElem {strings : Pointer → Option Text} (read : textsOf strings contents = some texts) :
    texts.length = contents.length ∧ ∀ i, ∀ inside : i < contents.length, ∀ also : i < texts.length,
      textOf strings contents[i] = some texts[i] := by
  induction contents generalizing texts with
  | nil =>
    cases read
    exact ⟨rfl, fun i inside => absurd inside (Nat.not_lt_zero i)⟩
  | cons bytes rest ih =>
    obtain ⟨text, others, here, there, rfl⟩ := textsOf_cons.mp read
    obtain ⟨length, each⟩ := ih there
    refine ⟨by rw [List.length_cons, List.length_cons, length], fun i inside also => ?_⟩
    cases i with
    | zero => exact here
    | succ i => exact each i (Nat.lt_of_succ_lt_succ inside) (Nat.lt_of_succ_lt_succ also)

theorem keeps_texts (keeps : Keeps result m m') (read : textsOf m.strings contents = some texts) :
    textsOf m'.strings contents = some texts := by
  induction contents generalizing texts with
  | nil => exact read
  | cons bytes rest ih =>
    obtain ⟨text, others, here, there, rfl⟩ := textsOf_cons.mp read
    exact textsOf_cons.mpr ⟨text, others, keeps.2 bytes text here, ih there, rfl⟩

/-! ### The loops -/

/-- A turn of an iterator over a bag. -/
theorem iterator_holding (holding : Holding bag contents) (i : Nat) :
    bagIteratorHasNext bag i = some (decide (i < contents.length)) ∧
      ∀ inside : i < contents.length, bagIteratorGetNext bag i = some (contents[i], i + 1) := by
  have valid : bagIsValid bag := holding.valid
  constructor
  · simp [bagIteratorHasNext, assert_true valid, holding.count]
  · intro inside
    simp [bagIteratorGetNext, assert_true valid, load_packed holding.packed inside]

theorem innerLoop_copies {str1 : Value} {text1 : Text} (there : m.bags bag2 = some other) (holding : Holding other contents2)
    (apart : bag2 ≠ result) (first : textOf m.strings str1 = some text1) (second : textsOf m.strings contents2 = some texts2)
    (place : i ≤ contents2.length) (enough : contents2.length < turns + i) :
    innerLoop bag2 result str1 turns i m = run (addCopy result) m ((texts2.drop i).map (joined text1)) := by
  induction turns generalizing m i with
  | zero => omega
  | succ turns ih =>
    obtain ⟨length, each⟩ := textsOf_getElem second
    obtain ⟨hasNext, getNext⟩ := iterator_holding holding i
    by_cases inside : i < contents2.length
    · have also : i < texts2.length := length ▸ inside
      simp only [innerLoop, there, hasNext, inside, getNext inside, first, each i inside also, Option.bind_eq_bind, Option.bind_some,
        decide_true, if_true, List.drop_eq_getElem_cons also, List.map_cons, run]
      cases added : addCopy result m (joined text1 texts2[i]) with
      | none => rfl
      | some m' =>
        have keeps := addCopy_keeps added
        exact ih ((keeps.1 bag2 apart).trans there) (keeps.2 _ _ first) (keeps_texts keeps second) inside (by omega)
    · simp only [innerLoop, there, hasNext, inside, Option.bind_eq_bind, Option.bind_some, decide_false, Bool.false_eq_true, if_false]
      rw [List.drop_of_length_le (by omega), List.map_nil, run_nil]

private theorem run_append_bind (texts behind : List Text) :
    run (addCopy result) m (texts ++ behind) = (run (addCopy result) m texts).bind fun m => run (addCopy result) m behind := by
  induction texts generalizing m with
  | nil => rfl
  | cons text rest ih =>
    rw [List.cons_append, run, run]
    cases addCopy result m text with
    | none => rfl
    | some m' => exact ih

theorem outerLoop_copies (at_first : m.bags bag1 = some first) (holding1 : Holding first contents1) (apart1 : bag1 ≠ result)
    (at_second : m.bags bag2 = some other) (holding2 : Holding other contents2) (apart2 : bag2 ≠ result)
    (read1 : textsOf m.strings contents1 = some texts1) (read2 : textsOf m.strings contents2 = some texts2)
    (place : i ≤ contents1.length) (enough : contents1.length < turns + i) :
    outerLoop bag1 bag2 result turns i m =
      run (addCopy result) m ((texts1.drop i).flatMap fun s1 => texts2.map (joined s1)) := by
  induction turns generalizing m i with
  | zero => omega
  | succ turns ih =>
    obtain ⟨length, each⟩ := textsOf_getElem read1
    obtain ⟨hasNext, getNext⟩ := iterator_holding holding1 i
    by_cases inside : i < contents1.length
    · have also : i < texts1.length := length ▸ inside
      have valid : bagIsValid other := holding2.valid
      have inner := innerLoop_copies at_second holding2 apart2 (each i inside also) read2 (Nat.zero_le _)
        (show contents2.length < other.noElements + 1 + 0 by rw [holding2.count]; omega)
      simp only [outerLoop, at_first, at_second, hasNext, inside, getNext inside, bagIteratorCreate2, assert_true valid, inner,
        Option.bind_eq_bind, Option.bind_some, decide_true, if_true, List.drop_zero, List.drop_eq_getElem_cons also,
        List.flatMap_cons, run_append_bind]
      cases ran : run (addCopy result) m (texts2.map (joined texts1[i])) with
      | none => rfl
      | some m' =>
        have keeps := copies_keep ran
        exact ih ((keeps.1 bag1 apart1).trans at_first) ((keeps.1 bag2 apart2).trans at_second) (keeps_texts keeps read1)
          (keeps_texts keeps read2) inside (by omega)
    · simp only [outerLoop, at_first, hasNext, inside, Option.bind_eq_bind, Option.bind_some, decide_false, Bool.false_eq_true,
        if_false]
      rw [List.drop_of_length_le (by omega), List.flatMap_nil, run_nil]

/-- There are pointers for so many more strings. -/
structure Supplied (m : Memory) (count : Nat) : Prop where
  enough : count ≤ m.free.length
  distinct : m.free.Nodup
  unused : ∀ pointer ∈ m.free, m.strings pointer = none

/-- Copies are added to a bag as their pointers are, and at the pointers are the strings. -/
theorem copies_adds (supplied : Supplied m texts.length) (there : m.bags result = some made) (size : made.elementSize = pointerSize) :
    run (addCopy result) m texts = none ∧ run bagAdd2 made (bytesOf (m.free.take texts.length)) = none ∨
      ∃ m' bag, run (addCopy result) m texts = some m' ∧
        run bagAdd2 made (bytesOf (m.free.take texts.length)) = some bag ∧ m'.bags result = some bag ∧
        textsOf m'.strings (bytesOf (m.free.take texts.length)) = some texts := by
  induction texts generalizing m made with
  | nil => exact .inr ⟨m, made, rfl, rfl, there, rfl⟩
  | cons text rest ih =>
    cases pointers : m.free with
    | nil =>
      have enough := supplied.enough
      rw [pointers] at enough
      cases enough
    | cons pointer free =>
      have unused : m.strings pointer = none := supplied.unused pointer (pointers ▸ List.mem_cons_self)
      have distinct := supplied.distinct
      rw [pointers, List.nodup_cons] at distinct
      have copied : addCopy result m text = (bagAdd2 made pointer.val).map fun bag =>
          ⟨Function.update m.bags result (some bag), Function.update m.strings pointer (some text), free⟩ := by
        simp only [addCopy, strdup, pointers, unused, Option.isNone_none, if_true, Option.bind_eq_bind, Option.bind_some, bagAddAt,
          there, add_same size, Option.bind_assoc]
        cases bagAdd2 made pointer.val <;> rfl
      rw [List.length_cons, List.take_succ_cons, bytesOf, List.map_cons, run, run, copied]
      cases added : bagAdd2 made pointer.val with
      | none => exact .inl ⟨rfl, rfl⟩
      | some bag =>
        let m' : Memory := ⟨Function.update m.bags result (some bag), Function.update m.strings pointer (some text), free⟩
        have later : Supplied m' rest.length := by
          refine ⟨?_, distinct.2, fun other member => ?_⟩
          · have enough := supplied.enough
            rw [pointers] at enough
            exact Nat.le_of_succ_le_succ enough
          · have apart : other ≠ pointer := ne_of_mem_of_not_mem member distinct.1
            exact (Function.update_of_ne apart _ _).trans (supplied.unused other (pointers ▸ List.mem_cons_of_mem _ member))
        have again : m'.bags result = some bag := Function.update_self _ _ _
        rcases ih later again ((add2_size added).trans size) with ⟨failed, fails⟩ | ⟨last, all, ran, adds, held, read⟩
        · exact .inl ⟨failed, fails⟩
        · refine .inr ⟨last, all, ran, adds, held, textsOf_cons.mpr ⟨text, rest, ?_, read, rfl⟩⟩
          have written : textOf m'.strings pointer.val = some text := by
            rw [textOf, dif_pos pointer.property]
            exact Function.update_self _ _ _
          exact (copies_keep ran).2 _ _ written

/-- What is in memory when the loops begin. -/
def started (m : Memory) (result : Nat) : Memory :=
  { m with bags := Function.update m.bags result (some ⟨0, 10, 10, pointerSize, allocate (pointerSize * 10)⟩) }

private theorem crossProd_started (m : Memory) (bag1 bag2 result : Nat) : bagCrossProd m bag1 bag2 result = (do
    let first ← (started m result).bags bag1
    let second ← (started m result).bags bag2
    if (← bagNoElements first) = 0 then do
      let bags ← bagAppend second.noElements (started m result).bags result bag2
      some { started m result with bags := bags }
    else do
      let bi ← bagIteratorCreate2 first
      outerLoop bag1 bag2 result (first.noElements + 1) bi (started m result)) := rfl

/-- An empty first bag gets the second one's pointers appended to the result. -/
theorem cross_empty (at_first : (started m result).bags bag1 = some first) (at_second : (started m result).bags bag2 = some other)
    (apart2 : bag2 ≠ result) (holding1 : Holding first []) (holding2 : Holding other contents2) (sized : other.elementSize = pointerSize) :
    bagCrossProd m bag1 bag2 result = (run bagAdd2 ⟨0, 10, 10, pointerSize, allocate (pointerSize * 10)⟩ contents2).map
      fun bag => { started m result with bags := Function.update (started m result).bags result (some bag) } := by
  have valid : bagIsValid first := holding1.valid
  have none_first : first.noElements = 0 := holding1.count
  have new : (started m result).bags result = some ⟨0, 10, 10, pointerSize, allocate (pointerSize * 10)⟩ :=
    Function.update_self _ _ _
  have appended := append_adds (Ne.symm apart2) new at_second holding2 sized.symm holding2.count.ge
  simp only [crossProd_started, at_first, at_second, bagNoElements, assert_true valid, none_first, appended, Option.bind_eq_bind,
    Option.bind_some, if_true]
  cases run bagAdd2 ⟨0, 10, 10, pointerSize, allocate (pointerSize * 10)⟩ contents2 <;> rfl

/-- Otherwise copies of the joined strings are added. -/
theorem cross_copies (at_first : (started m result).bags bag1 = some first) (at_second : (started m result).bags bag2 = some other)
    (apart1 : bag1 ≠ result) (apart2 : bag2 ≠ result) (holding1 : Holding first contents1) (holding2 : Holding other contents2)
    (filled : contents1 ≠ []) (read1 : textsOf m.strings contents1 = some texts1) (read2 : textsOf m.strings contents2 = some texts2) :
    bagCrossProd m bag1 bag2 result = run (addCopy result) (started m result) (texts1.flatMap fun s1 => texts2.map (joined s1)) := by
  have valid : bagIsValid first := holding1.valid
  have some_first : first.noElements ≠ 0 := by
    rw [holding1.count]
    exact mt List.length_eq_zero_iff.mp filled
  have enough : contents1.length < first.noElements + 1 + 0 := by
    rw [holding1.count]
    omega
  have outer := outerLoop_copies (m := started m result) at_first holding1 apart1 at_second holding2 apart2 read1 read2
    (Nat.zero_le _) enough
  rw [List.drop_zero] at outer
  simp only [crossProd_started, at_first, at_second, bagNoElements, bagIteratorCreate2, assert_true valid, some_first, Option.bind_eq_bind,
    Option.bind_some, if_false]
  exact outer

/-! ### What is in the result -/

theorem joined_product (texts1 texts2 : List Text) :
    (texts1.flatMap fun s1 => texts2.map (joined s1)) = (product texts1 texts2).map (List.take 511) := by
  simp only [product, List.map_flatMap, List.map_map, Function.comp_def]
  rfl

theorem product_length (texts1 texts2 : List Text) : (product texts1 texts2).length = texts1.length * texts2.length := by
  simp [product, List.length_flatMap, List.map_const', List.sum_replicate]

/-- No string is cut just when all of them are short enough. -/
theorem uncut_iff (texts : List Text) :
    ((texts.map (List.take 511) : List Text) : Multiset Text) = texts ↔ ∀ text ∈ texts, text.length ≤ 511 := by
  constructor
  · intro same text member
    have cut : text ∈ texts.map (List.take 511) := (Multiset.coe_eq_coe.mp same).symm.subset member
    obtain ⟨whole, _, rfl⟩ := List.mem_map.mp cut
    exact List.length_take_le _ _
  · intro short
    congr 1
    conv => rhs; rw [← List.map_id texts]
    exact List.map_congr_left fun text member => List.take_of_length_le (short text member)

theorem short_iff (texts1 texts2 : List Text) : (∀ text ∈ product texts1 texts2, text.length ≤ 511) ↔
    ∀ s1 ∈ texts1, ∀ s2 ∈ texts2, s1.length + 1 + s2.length ≤ 511 := by
  simp only [product, List.mem_flatMap, List.mem_map]
  constructor
  · intro short s1 member1 s2 member2
    have length := short _ ⟨s1, member1, s2, member2, rfl⟩
    rw [List.length_append, List.length_cons] at length
    omega
  · rintro short _ ⟨s1, member1, s2, member2, rfl⟩
    have length := short s1 member1 s2 member2
    rw [List.length_append, List.length_cons]
    omega

end

/-- With no string in the first bag the second one must have none either. -/
private theorem crosses_none {m : Memory} {bag1 bag2 result : Nat} {first other : SBag} {contents2 : List Value} {texts2 : List Text}
    (at_first : (started m result).bags bag1 = some first) (at_second : (started m result).bags bag2 = some other)
    (apart2 : bag2 ≠ result) (holding1 : Holding first []) (holding2 : Holding other contents2)
    (sized : other.elementSize = pointerSize) (read2 : textsOf m.strings contents2 = some texts2) :
    Crosses m bag1 bag2 result [] texts2 ↔ texts2 = [] := by
  have ended := cross_empty at_first at_second apart2 holding1 holding2 sized
  have length2 := (textsOf_getElem read2).1
  constructor
  · rintro ⟨m', bag, after, texts, crossed, held, -, -, count, -⟩
    rw [ended] at crossed
    obtain ⟨all, ran, rfl⟩ := Option.map_eq_some_iff.mp crossed
    obtain rfl : all = bag := by simpa using held
    have lengths : ∀ value ∈ contents2, value.length = pointerSize := fun value member =>
      (holding2.value_length member).trans sized
    have size := (adds_holding started_holding lengths ran).count
    rw [count, List.nil_append, ← length2] at size
    exact List.length_eq_zero_iff.mp (by simpa using size.symm)
  · rintro rfl
    obtain rfl : contents2 = [] := List.length_eq_zero_iff.mp length2.symm
    exact ⟨_, _, [], [], ended, Function.update_self _ _ _, elements_holding started_holding, rfl, rfl, rfl⟩

/-- Otherwise every pair must fit the buffer, and the pairs the bag. -/
private theorem crosses_some {m : Memory} {bag1 bag2 result : Nat} {first other : SBag} {contents1 contents2 : List Value}
    {texts1 texts2 : List Text} (at_first : (started m result).bags bag1 = some first)
    (at_second : (started m result).bags bag2 = some other) (apart1 : bag1 ≠ result) (apart2 : bag2 ≠ result)
    (holding1 : Holding first contents1) (holding2 : Holding other contents2) (filled : contents1 ≠ [])
    (read1 : textsOf m.strings contents1 = some texts1) (read2 : textsOf m.strings contents2 = some texts2)
    (supplied : Supplied m (texts1.length * texts2.length)) :
    Crosses m bag1 bag2 result texts1 texts2 ↔
      (∀ s1 ∈ texts1, ∀ s2 ∈ texts2, s1.length + 1 + s2.length ≤ 511) ∧ texts1.length * texts2.length ≤ 2147483640 := by
  have ended := cross_copies at_first at_second apart1 apart2 holding1 holding2 filled read1 read2
  rw [joined_product] at ended
  have total : ((product texts1 texts2).map (List.take 511)).length = texts1.length * texts2.length := by
    rw [List.length_map, product_length]
  have pointers : Supplied (started m result) ((product texts1 texts2).map (List.take 511)).length := by
    rw [total]
    exact ⟨supplied.enough, supplied.distinct, supplied.unused⟩
  set added := bytesOf ((started m result).free.take ((product texts1 texts2).map (List.take 511)).length) with addedIs
  have lengths : ∀ value ∈ added, value.length = pointerSize := by
    intro value member
    obtain ⟨pointer, -, rfl⟩ := List.mem_map.mp member
    exact pointer.property
  have count : added.length = texts1.length * texts2.length := by
    rw [addedIs, bytesOf, List.length_map, List.length_take, total]
    exact Nat.min_eq_left supplied.enough
  have able := adds_iff started_holding lengths
  rw [count, List.length_nil, Nat.zero_add, created_canHold] at able
  rw [← short_iff, ← uncut_iff]
  rcases copies_adds pointers (Function.update_self _ _ _) rfl with ⟨failed, fails⟩ | ⟨m', bag, ran, adds, held, read⟩
  · rw [← addedIs] at fails
    rw [fails] at able
    refine iff_of_false ?_ fun ⟨_, fits⟩ => by simpa using able.mpr fits
    rintro ⟨_, _, _, _, crossed, _⟩
    rw [ended, failed] at crossed
    cases crossed
  · have all := adds_holding started_holding lengths adds
    rw [← addedIs] at adds
    rw [adds] at able
    rw [and_iff_left (able.mp rfl)]
    constructor
    · rintro ⟨m'', bag', after, texts, crossed, held', listed, reads, -, same⟩
      cases (ended.trans ran).symm.trans crossed
      cases held.symm.trans held'
      cases (elements_holding all).symm.trans listed
      cases read.symm.trans reads
      exact same
    · intro uncut
      refine ⟨m', bag, _, _, ended.trans ran, held, elements_holding all, read, ?_, uncut⟩
      rw [all.count, List.nil_append, count]

/-- In every memory, for every two bags of strings, `bagCrossProd` gives a bag with every string of the
    first put together with every one of the second just when the first bag is not empty, or both are,
    no two strings together with the space are longer than 511 bytes, and there are no more than
    2147483640 pairs. -/
theorem crosses_iff {m : Memory} {bag1 bag2 result : Nat} {first other : SBag} {contents1 contents2 : List Value}
    {texts1 texts2 : List Text} (at_first : m.bags bag1 = some first) (at_second : m.bags bag2 = some other)
    (fresh : m.bags result = none) (holding1 : Holding first contents1) (holding2 : Holding other contents2)
    (sized : other.elementSize = pointerSize) (read1 : textsOf m.strings contents1 = some texts1)
    (read2 : textsOf m.strings contents2 = some texts2) (supplied : Supplied m (texts1.length * texts2.length)) :
    Crosses m bag1 bag2 result texts1 texts2 ↔ (texts1 ≠ [] ∨ texts2 = []) ∧
      (∀ s1 ∈ texts1, ∀ s2 ∈ texts2, s1.length + 1 + s2.length ≤ 511) ∧ texts1.length * texts2.length ≤ 2147483640 := by
  have apart1 : bag1 ≠ result := by
    rintro rfl
    cases fresh.symm.trans at_first
  have apart2 : bag2 ≠ result := by
    rintro rfl
    cases fresh.symm.trans at_second
  have first_there : (started m result).bags bag1 = some first := (Function.update_of_ne apart1 _ _).trans at_first
  have second_there : (started m result).bags bag2 = some other := (Function.update_of_ne apart2 _ _).trans at_second
  by_cases nothing : contents1 = []
  · subst nothing
    obtain rfl : texts1 = [] := List.length_eq_zero_iff.mp (textsOf_getElem read1).1
    rw [crosses_none first_there second_there apart2 holding1 holding2 sized read2]
    constructor
    · intro none_second
      exact ⟨.inr none_second, by simp, by simp⟩
    · rintro ⟨both, -, -⟩
      simpa using both
  · have some_texts : texts1 ≠ [] := by
      rintro rfl
      exact nothing (List.length_eq_zero_iff.mp (textsOf_getElem read1).1.symm)
    have filled : texts1 ≠ [] ∨ texts2 = [] := .inl some_texts
    rw [crosses_some first_there second_there apart1 apart2 holding1 holding2 nothing read1 read2 supplied, and_iff_right filled]

/-- A bag of so many of one string, a bag of another string, and room for a third one. -/
def twoBags (count : Nat) (text1 text2 : Text) : Memory where
  bags := fun address => if address = 0 then some (repeated count 7) else if address = 1 then some (repeated 1 3) else none
  strings := fun pointer =>
    if pointer.val = List.replicate pointerSize 7 then some text1
    else if pointer.val = List.replicate pointerSize 3 then some text2 else none
  free := [pointerOf (List.replicate pointerSize 9) rfl]

private theorem twoBags_supplied (count : Nat) (text1 text2 : Text) : Supplied (twoBags count text1 text2) 1 := by
  refine ⟨Nat.le_refl 1, List.nodup_singleton _, ?_⟩
  intro pointer member
  obtain rfl : pointer = pointerOf (List.replicate pointerSize 9) rfl := List.mem_singleton.mp member
  rfl

theorem crosses_iff_words : Crosses (twoBags 1 (lit "call") (lit "home")) 0 1 2 [lit "call"] [lit "home"] ↔
    ([lit "call"] ≠ [] ∨ [lit "home"] = []) ∧
      (∀ s1 ∈ [lit "call"], ∀ s2 ∈ [lit "home"], s1.length + 1 + s2.length ≤ 511) ∧ 1 * 1 ≤ 2147483640 :=
  crosses_iff rfl rfl rfl (repeated_holding 1 7) (repeated_holding 1 3) rfl rfl rfl (twoBags_supplied 1 _ _)

/-- An empty bag first, and two strings that are too long for the buffer. -/
theorem crosses_wrongly : ¬ Crosses (twoBags 0 [] (lit "home")) 0 1 2 [] [lit "home"] ∧
    ¬ Crosses (twoBags 1 (List.replicate 300 97) (List.replicate 300 98)) 0 1 2 [List.replicate 300 97] [List.replicate 300 98] := by
  have supplied : Supplied (twoBags 0 [] (lit "home")) (0 * 1) := { twoBags_supplied 0 [] (lit "home") with enough := Nat.zero_le _ }
  constructor
  · intro crosses
    have met := (@crosses_iff (twoBags 0 [] (lit "home")) 0 1 2 _ _ [] _ [] [lit "home"] rfl rfl rfl (repeated_holding 0 7)
      (repeated_holding 1 3) rfl rfl rfl supplied).mp crosses
    simpa using met.1
  · intro crosses
    have met := (crosses_iff rfl rfl rfl (repeated_holding 1 7) (repeated_holding 1 3) rfl rfl rfl (twoBags_supplied 1 _ _)).mp crosses
    have short := met.2.1 _ List.mem_cons_self _ List.mem_cons_self
    rw [List.length_replicate, List.length_replicate] at short
    omega

end VoxiUtil.BagCrossProd
