import VoxiUtil.StateMachineDefinitions

/-!
What the counts of `stateMachine.c` count: in every run a class counts the existing states
that name it, a definition its existing machines, and the bags of a definition hold its
classes and states.
-/
namespace VoxiUtil.StateMachineCounts
open VoxiUtil.Bag
open VoxiUtil.BagMultiset
open VoxiUtil.BagCrossProd (bytesOf pointerOf)
open VoxiUtil.Blocks
open VoxiUtil.Err
open VoxiUtil.Runs
open VoxiUtil.StateMachineDefinitions
open VoxiUtil.Limits (intMax pointerSize)

/-! ### Bags of pointers -/

/-- A bag with just these pointers in it. -/
def Holds (bag : SBag) (pointers : List Pointer) : Prop :=
  ∃ contents, contents.Perm pointers ∧ Holding bag (bytesOf contents) ∧ bag.elementSize = pointerSize

section
variable {bag bag' : SBag} {pointers : List Pointer} {p : Pointer}

theorem bytesOf_perm {contents : List Pointer} {bytes : List Value} (perm : (bytesOf contents).Perm (p.val :: bytes)) :
    ∃ rest, bytesOf rest = bytes ∧ contents.Perm (p :: rest) := by
  have sized : ∀ value ∈ bytes, value.length = pointerSize := by
    intro value member
    obtain ⟨q, -, same⟩ := List.mem_map.mp (perm.mem_iff.mpr (List.mem_cons_of_mem _ member))
    exact same ▸ q.property
  have same : bytesOf (bytes.pmap pointerOf sized) = bytes := by simp [bytesOf, List.map_pmap, pointerOf]
  refine ⟨_, same, (List.map_perm_map_iff Subtype.val_injective).mp ?_⟩
  rw [← same] at perm
  exact perm

theorem create_holds : ∃ bag, bagCreate 32 32 = some bag ∧ Holds bag [] := by
  have positive : 0 < pointerSize := by decide
  exact ⟨_, (create_iff positive).mpr ⟨by decide, rfl⟩, [], List.Perm.nil, created_holding 32 32 positive, rfl⟩

theorem add_holds (holds : Holds bag pointers) (done : bagAdd bag p = some bag') : Holds bag' (p :: pointers) := by
  obtain ⟨contents, perm, holding, size⟩ := holds
  have fits : GrowthFits bag := by
    intro full
    by_contra large
    simp [bagAdd, ensureIncCapacity, full, Option.bind_eq_some_iff, assert_eq_some] at done
    exact large ⟨done.2.2.1.1, done.2.2.1.2.2⟩
  obtain ⟨bag'', done', kept, same⟩ := add_holding holding fits size p
  cases done.symm.trans done'
  refine ⟨contents ++ [p], ?_, by simpa [bytesOf] using kept, same.trans size⟩
  exact (List.perm_append_singleton p contents).trans (perm.cons p)

theorem remove_holds (holds : Holds bag pointers) (member : p ∈ pointers) :
    ∃ bag', bagRemove bag p = some bag' ∧ Holds bag' (pointers.erase p) := by
  obtain ⟨contents, perm, holding, size⟩ := holds
  have valid : bagIsValid bag := holding.valid
  have there : p.val ∈ bytesOf contents := List.mem_map_of_mem (perm.mem_iff.mpr member)
  rcases removeLoop_holding (i := 0) holding (Nat.add_zero _) p.val with ⟨absent, -⟩ | ⟨bag', rest, done, kept, same, after⟩
  · exact absurd there (by simpa using absent)
  · obtain ⟨others, rfl, split⟩ := bytesOf_perm same
    refine ⟨bag', ?_, others, ?_, kept, after.trans size⟩
    · rw [bagRemove, removeMaybe_same bag size]
      simp only [bagRemoveMaybe2, assert_true valid, Option.bind_eq_bind, Option.bind_some, holding.count, done, Option.map_some]
    · have both := (split.symm.trans perm).erase p
      rwa [List.erase_cons_head] at both

theorem noElements_holds (holds : Holds bag pointers) : bagNoElements bag = some pointers.length := by
  obtain ⟨contents, perm, holding, size⟩ := holds
  have valid : bagIsValid bag := holding.valid
  rw [bagNoElements, assert_true valid, holding.count, bytesOf, List.length_map, perm.length_eq]
  rfl

/-- What `rand` chooses, by its place in the array. -/
theorem randomElement_at {contents : List Pointer} (holding : Holding bag (bytesOf contents)) (size : bag.elementSize = pointerSize)
    {rand : Nat} (inside : rand % bag.noElements < contents.length) :
    randomElement bag rand = some contents[rand % bag.noElements] := by
  have count : bag.noElements = contents.length := holding.count.trans (List.length_map _)
  have more : bag.noElements ≠ 0 := by omega
  have bound : rand % bag.noElements < (bytesOf contents).length := by simpa [bytesOf] using inside
  have loaded := load_packed holding.packed bound
  have element : (bytesOf contents)[rand % bag.noElements] = (contents[rand % bag.noElements]).val := List.getElem_map _
  rw [element] at loaded
  have sized := (contents[rand % bag.noElements]).property
  simp only [randomElement, BagCalls.bagGetRandomElement, BagCalls.ofPointers, assert_true size, if_neg more,
    BagCalls.bagGetRandomElement2, assert_true more, loaded, Option.bind_eq_bind, Option.bind_some, dif_pos sized]
  rfl

theorem random_holds (holds : Holds bag pointers) (more : pointers ≠ []) (rand : Nat) :
    ∃ p ∈ pointers, randomElement bag rand = some p := by
  obtain ⟨contents, perm, holding, size⟩ := holds
  have count : bag.noElements = contents.length := holding.count.trans (List.length_map _)
  have positive : 0 < contents.length := perm.length_eq ▸ List.length_pos_iff.mpr more
  have inside : rand % bag.noElements < contents.length := count ▸ Nat.mod_lt _ (count ▸ positive)
  exact ⟨_, perm.mem_iff.mp (List.getElem_mem inside), randomElement_at holding size inside⟩

theorem random_chooses (holds : Holds bag pointers) (member : p ∈ pointers) : ∃ rand, randomElement bag rand = some p := by
  obtain ⟨contents, perm, holding, size⟩ := holds
  have count : bag.noElements = contents.length := holding.count.trans (List.length_map _)
  obtain ⟨i, inside, rfl⟩ := List.getElem_of_mem (perm.mem_iff.mpr member)
  have same : i % bag.noElements = i := Nat.mod_eq_of_lt (count ▸ inside)
  refine ⟨i, ?_⟩
  rw [randomElement_at holding size (same.symm ▸ inside)]
  simp only [same]

end

/-! ### What belongs to what -/

/-- The items whose field has this pointer. -/
def part (items : List Pointer) (field : Pointer → Option Pointer) (p : Pointer) : List Pointer := items.filter fun a => field a = some p

def stateDefinition (m : Memory) (state : Pointer) : Option Pointer := (m.states state).map (·.machineDefinition)

def stateClass (m : Memory) (state : Pointer) : Option Pointer := (m.states state).bind (·.cls)

def classDefinition (m : Memory) (cls : Pointer) : Option Pointer := (m.classes cls).map (·.machineDefinition)

/-- The existing states of a definition. -/
def statesOf (m : Memory) (definition : Pointer) : List Pointer := part m.existingStates (stateDefinition m) definition

/-- The existing classes of a definition. -/
def classesOf (m : Memory) (definition : Pointer) : List Pointer := part m.existingClasses (classDefinition m) definition

/-- The existing machines of a definition. -/
def machinesOf (m : Memory) (definition : Pointer) : List Pointer := part m.existingMachines m.machines definition

/-- The existing states that name a class. -/
def namersOf (m : Memory) (cls : Pointer) : List Pointer := part m.existingStates (stateClass m) cls

section
variable {items : List Pointer} {field field' : Pointer → Option Pointer} {a p : Pointer}

theorem mem_part : a ∈ part items field p ↔ a ∈ items ∧ field a = some p := by simp [part]

theorem part_congr (same : ∀ a ∈ items, field' a = field a) : part items field' p = part items field p := by
  refine List.filter_congr fun a member => ?_
  rw [same a member]

theorem part_cons (p : Pointer) : part (a :: items) field p = if field a = some p then a :: part items field p else part items field p := by
  by_cases here : field a = some p <;> simp [part, here]

theorem part_erase (nodup : items.Nodup) (p : Pointer) : part (items.erase a) field p = (part items field p).erase a := by
  rw [part, part, nodup.erase_eq_filter, (nodup.filter _).erase_eq_filter, List.filter_filter, List.filter_filter]
  refine List.filter_congr fun b _ => ?_
  rw [Bool.and_comm]

/-- An item is in no part but its own. -/
theorem erase_other (own : field a = some p) {q : Pointer} (other : q ≠ p) : (part items field q).erase a = part items field q :=
  List.erase_of_not_mem fun here => other (Option.some.inj ((mem_part.mp here).2.symm.trans own))

/-- The part of one pointer is what an item leaves. -/
theorem part_erase_length (nodup : items.Nodup) (member : a ∈ items) (p : Pointer) :
    (part items field p).length = (part (items.erase a) field p).length + if field a = some p then 1 else 0 := by
  rw [part_erase nodup]
  by_cases here : field a = some p
  · have inside : a ∈ part items field p := mem_part.mpr ⟨member, here⟩
    have positive := List.length_pos_of_mem inside
    rw [List.length_erase_of_mem inside, if_pos here]
    omega
  · rw [List.erase_of_not_mem fun inside => here (mem_part.mp inside).2, if_neg here]
    rfl

theorem part_empty (none : ∀ a ∈ items, field a ≠ some p) : part items field p = [] := by
  refine List.filter_eq_nil_iff.mpr fun a member => ?_
  simpa using none a member

end

/-! ### The invariant -/

/-- Some definition is at this address. -/
def Defined (m : Memory) (p : Pointer) : Prop := ∃ d, m.definitions p = some d

structure Inv (m : Memory) : Prop where
  states : ∀ p d, m.definitions p = some d → Holds d.states (statesOf m p)
  classes : ∀ p d, m.definitions p = some d → Holds d.classes (classesOf m p)
  machineCount : ∀ p d, m.definitions p = some d → d.machineCount = (machinesOf m p).length
  stateCount : ∀ k c, m.classes k = some c → c.stateCount = (namersOf m k).length
  state : ∀ a ∈ m.existingStates, ∃ s, m.states a = some s ∧ Defined m s.machineDefinition ∧ ∀ k ∈ s.cls, k ∈ m.existingClasses
  cls : ∀ k ∈ m.existingClasses, ∃ c, m.classes k = some c ∧ Defined m c.machineDefinition
  machine : ∀ a ∈ m.existingMachines, ∃ p, m.machines a = some p ∧ Defined m p
  statesOnce : m.existingStates.Nodup
  classesOnce : m.existingClasses.Nodup
  machinesOnce : m.existingMachines.Nodup

section
variable {m t : Memory} {definition p q a k : Pointer} {block : Option Pointer} {error : Option Error} {d new : SStateMachineDefinition}

theorem start_inv : Inv startMemory := by
  constructor <;> simp [startMemory]

theorem update_some {α : Type} {f : Pointer → Option α} {new old : α} (there : Function.update f p (some new) q = some old) :
    q = p ∧ old = new ∨ q ≠ p ∧ f q = some old := by
  by_cases here : q = p
  · subst here
    rw [Function.update_self] at there
    exact .inl ⟨rfl, (Option.some.inj there).symm⟩
  · rw [Function.update_of_ne here] at there
    exact .inr ⟨here, there⟩

/-- What holds of all values holds when one of them is replaced, if it does of that. -/
theorem update_all {α : Type} {f : Pointer → Option α} {new old : α} {P : Pointer → α → Prop}
    (after : Function.update f p (some new) q = some old) (all : ∀ q d, f q = some d → P q d) (replaced : P p new) : P q old := by
  rcases update_some after with ⟨rfl, rfl⟩ | ⟨-, before⟩
  · exact replaced
  · exact all q old before

theorem defined_set (defined : Defined m q) : Defined (setDefinition m p (some new)) q := by
  obtain ⟨d, there⟩ := defined
  by_cases here : q = p
  · exact ⟨new, by simp [setDefinition, here]⟩
  · exact ⟨d, by simp [setDefinition, here, there]⟩

theorem Inv.mem_statesOf (inv : Inv m) (member : a ∈ statesOf m p) : Defined m p := by
  obtain ⟨exists', own⟩ := mem_part.mp member
  obtain ⟨s, there, defined, -⟩ := inv.state a exists'
  rw [stateDefinition, there, Option.map_some, Option.some.injEq] at own
  exact own ▸ defined

/-- Nothing belongs to an address without a definition. -/
theorem Inv.undefined (inv : Inv m) (absent : m.definitions p = none) : statesOf m p = [] ∧ classesOf m p = [] ∧ machinesOf m p = [] := by
  have nothing : ¬ Defined m p := by
    rintro ⟨d, there⟩
    rw [absent] at there
    cases there
  refine ⟨part_empty fun a member own => nothing ?_, part_empty fun k member own => nothing ?_, part_empty fun a member own => nothing ?_⟩
  · exact inv.mem_statesOf (mem_part.mpr ⟨member, own⟩)
  · obtain ⟨c, there, defined⟩ := inv.cls k member
    rw [classDefinition, there, Option.map_some, Option.some.injEq] at own
    exact own ▸ defined
  · obtain ⟨q, there, defined⟩ := inv.machine a member
    cases there.symm.trans own
    exact defined

/-- Definitions alone change. -/
theorem setDefinition_inv (inv : Inv m) (states : Holds new.states (statesOf m p)) (classes : Holds new.classes (classesOf m p))
    (machineCount : new.machineCount = (machinesOf m p).length) : Inv (setDefinition m p (some new)) where
  states q d there := by
    rcases update_some there with ⟨rfl, rfl⟩ | ⟨-, old⟩
    · exact states
    · exact inv.states q d old
  classes q d there := by
    rcases update_some there with ⟨rfl, rfl⟩ | ⟨-, old⟩
    · exact classes
    · exact inv.classes q d old
  machineCount q d there := by
    rcases update_some there with ⟨rfl, rfl⟩ | ⟨-, old⟩
    · exact machineCount
    · exact inv.machineCount q d old
  stateCount := inv.stateCount
  state a member := by
    obtain ⟨s, there, defined, named⟩ := inv.state a member
    exact ⟨s, there, defined_set defined, named⟩
  cls k member := by
    obtain ⟨c, there, defined⟩ := inv.cls k member
    exact ⟨c, there, defined_set defined⟩
  machine a member := by
    obtain ⟨q, there, defined⟩ := inv.machine a member
    exact ⟨q, there, defined_set defined⟩
  statesOnce := inv.statesOnce
  classesOnce := inv.classesOnce
  machinesOnce := inv.machinesOnce

theorem emalloc_cases {size : Nat} {result : Except Error Pointer} (done : emalloc m size block = some result) :
    (∃ e, result = .error e) ∨ ∃ p, result = .ok p ∧ Fresh m p := by
  cases block with
  | none => exact .inl ⟨_, (Option.some.inj done).symm⟩
  | some p =>
    by_cases fresh : Fresh m p
    · simp only [emalloc, assert_true fresh, Option.bind_eq_bind, Option.bind_some] at done
      exact .inr ⟨p, (Option.some.inj done).symm, fresh⟩
    · simp [emalloc, assert_false fresh] at done

theorem defCreate_inv (inv : Inv m) (done : defCreate m block = some (error, t)) : Inv t := by
  simp only [defCreate, Option.bind_eq_bind, Option.bind_eq_some_iff] at done
  obtain ⟨result, allocated, done⟩ := done
  rcases emalloc_cases allocated with ⟨e, rfl⟩ | ⟨p, rfl, fresh⟩
  · cases done
    exact inv
  · obtain ⟨bag, created, holds⟩ := create_holds
    simp only [created, Option.bind_some, Option.some.injEq, Prod.mk.injEq] at done
    obtain ⟨-, rfl⟩ := done
    obtain ⟨states, classes, machines⟩ := inv.undefined (Option.isNone_iff_eq_none.mp fresh.2.1)
    exact setDefinition_inv inv (states ▸ holds) (classes ▸ holds) (by simp [machines])

theorem increment_some {count result : Int} (done : increment count = some result) : result = count + 1 := by
  by_cases small : count < intMax
  · simp only [increment, assert_true small, Option.bind_eq_bind, Option.bind_some, Option.some.injEq] at done
    exact done.symm
  · simp [increment, assert_false small] at done

theorem decrement_some {count : Int} (positive : 0 ≤ count) : decrement count = some (count - 1) := by
  have large : -(intMax : Int) ≤ count := by omega
  simp only [decrement, assert_true large, Option.bind_eq_bind, Option.bind_some]

/-- A new machine, of one definition. -/
theorem machines_new (fresh : a ∉ m.existingMachines) (q : Pointer) :
    part (a :: m.existingMachines) (Function.update m.machines a (some p)) q =
      if p = q then a :: machinesOf m q else machinesOf m q := by
  have same : part m.existingMachines (Function.update m.machines a (some p)) q = machinesOf m q := by
    refine part_congr fun b member => Function.update_of_ne ?_ _ _
    rintro rfl
    exact fresh member
  rw [part_cons, same, Function.update_self]
  simp only [Option.some.injEq]

theorem create_inv (inv : Inv m) (done : create m definition block = some (error, t)) : Inv t := by
  simp only [create, Option.bind_eq_bind, Option.bind_eq_some_iff] at done
  obtain ⟨result, allocated, done⟩ := done
  rcases emalloc_cases allocated with ⟨e, rfl⟩ | ⟨a, rfl, fresh⟩
  · cases done
    exact inv
  · simp only [Option.bind_eq_some_iff, Option.some.injEq, Prod.mk.injEq] at done
    obtain ⟨d, there, count, counted, -, rfl⟩ := done
    have outside : a ∉ m.existingMachines := by
      intro member
      obtain ⟨q, used, -⟩ := inv.machine a member
      simp [Fresh, used] at fresh
    exact {
      states := fun q d' after => update_all after inv.states (inv.states _ d there)
      classes := fun q d' after => update_all after inv.classes (inv.classes _ d there)
      machineCount := fun q d' after => by
        change d'.machineCount = ((part (a :: m.existingMachines) (Function.update m.machines a (some definition)) q).length : Int)
        rw [machines_new outside]
        rcases update_some after with ⟨rfl, rfl⟩ | ⟨other, old⟩
        · rw [if_pos rfl, increment_some counted, inv.machineCount q d there, List.length_cons, Int.natCast_add, Int.natCast_one]
        · rw [if_neg (Ne.symm other)]
          exact inv.machineCount q d' old
      stateCount := inv.stateCount
      state := fun b member => by
        obtain ⟨s, used, defined, named⟩ := inv.state b member
        exact ⟨s, used, defined_set defined, named⟩
      cls := fun k member => by
        obtain ⟨c, used, defined⟩ := inv.cls k member
        exact ⟨c, used, defined_set defined⟩
      machine := fun b member => by
        rcases List.mem_cons.mp member with rfl | old
        · exact ⟨definition, Function.update_self _ _ _, defined_set ⟨d, there⟩⟩
        · obtain ⟨q, used, defined⟩ := inv.machine b old
          have other : b ≠ a := fun same => outside (same ▸ old)
          exact ⟨q, (Function.update_of_ne other _ _).trans used, defined_set defined⟩
      statesOnce := inv.statesOnce
      classesOnce := inv.classesOnce
      machinesOnce := List.nodup_cons.mpr ⟨outside, inv.machinesOnce⟩ }

theorem destroy_inv (inv : Inv m) (member : a ∈ m.existingMachines) (done : destroy m a = some (error, t)) : Inv t := by
  obtain ⟨p, used, d, there⟩ := inv.machine a member
  have positive : 0 ≤ d.machineCount := inv.machineCount p d there ▸ Int.natCast_nonneg _
  simp only [destroy, used, there, decrement_some positive, Option.bind_eq_bind, Option.bind_some, Option.some.injEq,
    Prod.mk.injEq] at done
  obtain ⟨-, rfl⟩ := done
  have gone : a ∉ m.existingMachines.erase a := inv.machinesOnce.not_mem_erase
  have rest : ∀ q, part (m.existingMachines.erase a) (Function.update m.machines a none) q =
      part (m.existingMachines.erase a) m.machines q := by
    refine fun q => part_congr fun b inside => Function.update_of_ne ?_ _ _
    rintro rfl
    exact gone inside
  exact {
    states := fun q d' after => update_all after inv.states (inv.states _ d there)
    classes := fun q d' after => update_all after inv.classes (inv.classes _ d there)
    machineCount := fun q d' after => by
      have fewer : (part m.existingMachines m.machines q).length =
          (part (m.existingMachines.erase a) m.machines q).length + if m.machines a = some q then 1 else 0 :=
        part_erase_length inv.machinesOnce member q
      change d'.machineCount = ((part (m.existingMachines.erase a) (Function.update m.machines a none) q).length : Int)
      rw [rest]
      rcases update_some after with ⟨rfl, rfl⟩ | ⟨other, old⟩
      · have counted := inv.machineCount q d there
        rw [if_pos used] at fewer
        rw [machinesOf, fewer] at counted
        simp only [counted]
        omega
      · have counted := inv.machineCount q d' old
        rw [if_neg (by simpa [used] using Ne.symm other)] at fewer
        rwa [machinesOf, fewer] at counted
    stateCount := inv.stateCount
    state := fun b inside => by
      obtain ⟨s, here, defined, named⟩ := inv.state b inside
      exact ⟨s, here, defined_set defined, named⟩
    cls := fun k inside => by
      obtain ⟨c, here, defined⟩ := inv.cls k inside
      exact ⟨c, here, defined_set defined⟩
    machine := fun b inside => by
      obtain ⟨q, here, defined⟩ := inv.machine b (List.mem_of_mem_erase inside)
      have other : b ≠ a := fun same => gone (same ▸ inside)
      exact ⟨q, (Function.update_of_ne other _ _).trans here, defined_set defined⟩
    statesOnce := inv.statesOnce
    classesOnce := inv.classesOnce
    machinesOnce := inv.machinesOnce.erase a }

/-- A new class, of one definition. -/
theorem classes_new (fresh : k ∉ m.existingClasses) (count : Int) (q : Pointer) :
    classesOf { m with classes := Function.update m.classes k (some ⟨p, count⟩), existingClasses := k :: m.existingClasses } q =
      if p = q then k :: classesOf m q else classesOf m q := by
  have same : part m.existingClasses (classDefinition { m with
      classes := Function.update m.classes k (some ⟨p, count⟩), existingClasses := k :: m.existingClasses }) q = classesOf m q := by
    refine part_congr fun b member => ?_
    have other : b ≠ k := by
      rintro rfl
      exact fresh member
    simp [classDefinition, other]
  rw [classesOf, part_cons, same]
  simp [classDefinition]

theorem createClass_inv (inv : Inv m) (done : createClass m definition block = some (error, t)) : Inv t := by
  simp only [createClass, Option.bind_eq_bind, Option.bind_eq_some_iff] at done
  obtain ⟨result, allocated, done⟩ := done
  rcases emalloc_cases allocated with ⟨e, rfl⟩ | ⟨k, rfl, fresh⟩
  · cases done
    exact inv
  · simp only [Option.bind_eq_some_iff, Option.some.injEq, Prod.mk.injEq] at done
    obtain ⟨d, there, bag, added, -, rfl⟩ := done
    have outside : k ∉ m.existingClasses := by
      intro member
      obtain ⟨c, used, -⟩ := inv.cls k member
      simp [Fresh, used] at fresh
    exact {
      states := fun q d' after => update_all after inv.states (inv.states _ d there)
      classes := fun q d' after => by
        have new := classes_new (p := definition) outside 0 q
        rcases update_some after with ⟨rfl, rfl⟩ | ⟨other, old⟩
        · rw [if_pos rfl] at new
          exact new ▸ add_holds (inv.classes q d there) added
        · rw [if_neg (Ne.symm other)] at new
          exact new ▸ inv.classes q d' old
      machineCount := fun q d' after => update_all after inv.machineCount (inv.machineCount _ d there)
      stateCount := fun k' c after => by
        rcases update_some after with ⟨rfl, rfl⟩ | ⟨-, old⟩
        · have none : namersOf m k' = [] := by
            refine part_empty fun a member own => outside ?_
            obtain ⟨s, here, -, named⟩ := inv.state a member
            exact named k' (by simpa [stateClass, here] using own)
          change (0 : Int) = ((namersOf m k').length : Int)
          rw [none]
          rfl
        · exact inv.stateCount k' c old
      state := fun b member => by
        obtain ⟨s, used, defined, named⟩ := inv.state b member
        exact ⟨s, used, defined_set defined, fun k' own => List.mem_cons_of_mem _ (named k' own)⟩
      cls := fun k' member => by
        rcases List.mem_cons.mp member with rfl | old
        · exact ⟨_, Function.update_self _ _ _, defined_set ⟨d, there⟩⟩
        · obtain ⟨c, used, defined⟩ := inv.cls k' old
          have other : k' ≠ k := fun same => outside (same ▸ old)
          exact ⟨c, (Function.update_of_ne other _ _).trans used, defined_set defined⟩
      machine := fun b member => by
        obtain ⟨q, used, defined⟩ := inv.machine b member
        exact ⟨q, used, defined_set defined⟩
      statesOnce := inv.statesOnce
      classesOnce := List.nodup_cons.mpr ⟨outside, inv.classesOnce⟩
      machinesOnce := inv.machinesOnce }

/-- What destroying a class leaves as it was. -/
structure ClassGone (m : Memory) (k : Pointer) (t : Memory) : Prop where
  existing : t.existingClasses = m.existingClasses.erase k
  classes : t.classes = m.classes
  states : t.states = m.states
  existingStates : t.existingStates = m.existingStates
  machines : t.machines = m.machines
  existingMachines : t.existingMachines = m.existingMachines
  defined : ∀ q, Defined m q → Defined t q

/-- A class that a state names is refused, every other one is destroyed. -/
theorem destroyClass_spec (inv : Inv m) (member : k ∈ m.existingClasses) :
    (namersOf m k ≠ [] ∧ ∃ e, destroyClass m k = some (some e, m)) ∨
      namersOf m k = [] ∧ ∃ t, destroyClass m k = some (none, t) ∧ Inv t ∧ ClassGone m k t := by
  obtain ⟨c, used, d, there⟩ := inv.cls k member
  have counted := inv.stateCount k c used
  by_cases named : namersOf m k = []
  · right
    refine ⟨named, ?_⟩
    have zero : c.stateCount = 0 := by simpa [named] using counted
    have own : classDefinition m k = some c.machineDefinition := by simp [classDefinition, used]
    have inside : k ∈ classesOf m c.machineDefinition := mem_part.mpr ⟨member, own⟩
    obtain ⟨bag, removed, holds⟩ := remove_holds (inv.classes _ d there) inside
    have erased : ∀ q, part (m.existingClasses.erase k) (classDefinition m) q = (classesOf m q).erase k := part_erase inv.classesOnce
    have done : destroyClass m k = some (none, { setDefinition m c.machineDefinition (some { d with classes := bag }) with
        existingClasses := m.existingClasses.erase k }) := by
      simp [destroyClass, used, zero, there, removed, setDefinition]
    refine ⟨_, done, ?_, ⟨rfl, rfl, rfl, rfl, rfl, rfl, fun _ => defined_set⟩⟩
    exact {
      states := fun q d' after => update_all after inv.states (inv.states _ d there)
      classes := fun q d' after => by
        change Holds d'.classes (part (m.existingClasses.erase k) (classDefinition m) q)
        rw [erased]
        rcases update_some after with ⟨rfl, rfl⟩ | ⟨other, old⟩
        · exact holds
        · rw [classesOf, erase_other own other]
          exact inv.classes q d' old
      machineCount := fun q d' after => update_all after inv.machineCount (inv.machineCount _ d there)
      stateCount := inv.stateCount
      state := fun b inside => by
        obtain ⟨s, here, defined, names⟩ := inv.state b inside
        refine ⟨s, here, defined_set defined, fun k' name => ?_⟩
        have other : k' ≠ k := by
          rintro rfl
          have namer : b ∈ namersOf m k' := mem_part.mpr ⟨inside, by simpa [stateClass, here] using name⟩
          rw [named] at namer
          cases namer
        exact (List.mem_erase_of_ne other).mpr (names k' name)
      cls := fun k' inside => by
        obtain ⟨c', here, defined⟩ := inv.cls k' (List.mem_of_mem_erase inside)
        exact ⟨c', here, defined_set defined⟩
      machine := fun b inside => by
        obtain ⟨q, here, defined⟩ := inv.machine b inside
        exact ⟨q, here, defined_set defined⟩
      statesOnce := inv.statesOnce
      classesOnce := inv.classesOnce.erase k
      machinesOnce := inv.machinesOnce }
  · left
    have some : c.stateCount ≠ 0 := by simpa [counted] using named
    exact ⟨named, _, by simp only [destroyClass, used, Option.bind_eq_bind, Option.bind_some, if_pos some]; rfl⟩

/-- A new state, of one definition and of a class or none. -/
theorem states_new {named : Option Pointer} (fresh : a ∉ m.existingStates) (q : Pointer) :
    statesOf { m with states := Function.update m.states a (some ⟨p, named⟩), existingStates := a :: m.existingStates } q =
        (if p = q then a :: statesOf m q else statesOf m q) ∧
      namersOf { m with states := Function.update m.states a (some ⟨p, named⟩), existingStates := a :: m.existingStates } q =
        if named = some q then a :: namersOf m q else namersOf m q := by
  have others : ∀ b ∈ m.existingStates, b ≠ a := by
    rintro b member rfl
    exact fresh member
  have same : part m.existingStates (stateDefinition { m with
      states := Function.update m.states a (some ⟨p, named⟩), existingStates := a :: m.existingStates }) q = statesOf m q :=
    part_congr fun b member => by simp [stateDefinition, others b member]
  have alike : part m.existingStates (stateClass { m with
      states := Function.update m.states a (some ⟨p, named⟩), existingStates := a :: m.existingStates }) q = namersOf m q :=
    part_congr fun b member => by simp [stateClass, others b member]
  constructor
  · rw [statesOf, part_cons, same]
    simp [stateDefinition]
  · rw [namersOf, part_cons, alike]
    simp [stateClass]

/-- The states without one of them. -/
theorem states_gone (once : m.existingStates.Nodup) (existing : t.existingStates = m.existingStates.erase a)
    (others : ∀ b, b ≠ a → t.states b = m.states b) (q : Pointer) :
    statesOf t q = (statesOf m q).erase a ∧ namersOf t q = part (m.existingStates.erase a) (stateClass m) q := by
  have kept : ∀ b ∈ m.existingStates.erase a, t.states b = m.states b := by
    refine fun b inside => others b ?_
    rintro rfl
    exact once.not_mem_erase inside
  constructor
  · rw [statesOf, existing, statesOf, ← part_erase once]
    exact part_congr fun b inside => by rw [stateDefinition, kept b inside, stateDefinition]
  · rw [namersOf, existing]
    exact part_congr fun b inside => by rw [stateClass, kept b inside, stateClass]

/-- Counting in a class changes nothing but its count. -/
theorem countState_some {change : Int → Option Int} {named : Option Pointer} (done : countState m change named = some t) :
    ∃ classes, t = { m with classes := classes } ∧ (fun k => (classes k).map (·.machineDefinition)) = classDefinition m ∧
      ∀ k c', classes k = some c' → ∃ c, m.classes k = some c ∧
        if named = some k then change c.stateCount = some c'.stateCount else c'.stateCount = c.stateCount := by
  cases named with
  | none =>
    cases done
    exact ⟨m.classes, rfl, rfl, fun k c' here => ⟨c', here, rfl⟩⟩
  | some cls =>
    simp only [countState, Option.bind_eq_bind, Option.bind_eq_some_iff] at done
    obtain ⟨c, used, count, changed, done⟩ := done
    cases done
    refine ⟨_, rfl, funext fun k => ?_, fun k c' here => ?_⟩
    · by_cases same : k = cls
      · simp [classDefinition, same, used]
      · simp [classDefinition, same]
    · rcases update_some here with ⟨rfl, rfl⟩ | ⟨other, old⟩
      · exact ⟨c, used, by simpa using changed⟩
      · exact ⟨c', old, by simp [Ne.symm other]⟩

/-- The classes of `Inv` where only counts changed. -/
theorem counted_cls {classes : Pointer → Option SStateClass} (inv : Inv m)
    (same : (fun k => (classes k).map (·.machineDefinition)) = classDefinition m) (member : k ∈ m.existingClasses) :
    ∃ c, classes k = some c ∧ Defined m c.machineDefinition := by
  obtain ⟨c, used, defined⟩ := inv.cls k member
  have own : (classes k).map (·.machineDefinition) = some c.machineDefinition := by
    rw [congrFun same k, classDefinition, used]
    rfl
  obtain ⟨c', here, equal⟩ := Option.map_eq_some_iff.mp own
  exact ⟨c', here, equal ▸ defined⟩

theorem createState_inv (inv : Inv m) {named : Option Pointer} (known : ∀ cls ∈ named, cls ∈ m.existingClasses)
    (done : createState m definition named block = some (error, t)) : Inv t := by
  simp only [createState, Option.bind_eq_bind, Option.bind_eq_some_iff] at done
  obtain ⟨result, allocated, done⟩ := done
  rcases emalloc_cases allocated with ⟨e, rfl⟩ | ⟨a, rfl, fresh⟩
  · cases done
    exact inv
  · simp only [Option.bind_eq_some_iff, Option.some.injEq, Prod.mk.injEq] at done
    obtain ⟨d, there, bag, added, u, counted, -, rfl⟩ := done
    obtain ⟨classes, rfl, same, counts⟩ := countState_some counted
    have outside : a ∉ m.existingStates := by
      intro member
      obtain ⟨s, used, -⟩ := inv.state a member
      simp [Fresh, used] at fresh
    have new := fun q => @states_new m definition a named outside q
    exact {
      states := fun q d' after => by
        have own := (new q).1
        rcases update_some after with ⟨rfl, rfl⟩ | ⟨other, old⟩
        · rw [if_pos rfl] at own
          exact own ▸ add_holds (inv.states q d there) added
        · rw [if_neg (Ne.symm other)] at own
          exact own ▸ inv.states q d' old
      classes := fun q d' after => by
        change Holds d'.classes (part m.existingClasses (fun k => (classes k).map (·.machineDefinition)) q)
        rw [same]
        rcases update_some after with ⟨rfl, rfl⟩ | ⟨-, old⟩
        · exact inv.classes q d there
        · exact inv.classes q d' old
      machineCount := fun q d' after => update_all after inv.machineCount (inv.machineCount _ d there)
      stateCount := fun k c' here => by
        obtain ⟨c, used, change⟩ := counts k c' here
        have before := inv.stateCount k c used
        have own := (new k).2
        by_cases names : named = some k
        · rw [if_pos names] at own change
          have after := congrArg List.length own
          rw [increment_some change, before]
          exact_mod_cast after.symm
        · rw [if_neg names] at own change
          rw [change, before]
          exact_mod_cast (congrArg List.length own).symm
      state := fun b member => by
        rcases List.mem_cons.mp member with rfl | old
        · exact ⟨_, Function.update_self _ _ _, defined_set ⟨d, there⟩, known⟩
        · obtain ⟨s, used, defined, names⟩ := inv.state b old
          have other : b ≠ a := fun same => outside (same ▸ old)
          exact ⟨s, (Function.update_of_ne other _ _).trans used, defined_set defined, names⟩
      cls := fun k member => by
        obtain ⟨c, here, defined⟩ := counted_cls inv same member
        exact ⟨c, here, defined_set defined⟩
      machine := fun b member => by
        obtain ⟨q, used, defined⟩ := inv.machine b member
        exact ⟨q, used, defined_set defined⟩
      statesOnce := List.nodup_cons.mpr ⟨outside, inv.statesOnce⟩
      classesOnce := inv.classesOnce
      machinesOnce := inv.machinesOnce }

/-- What destroying a state leaves as it was. -/
structure StateGone (m : Memory) (a : Pointer) (t : Memory) : Prop where
  existing : t.existingStates = m.existingStates.erase a
  states : ∀ b, b ≠ a → t.states b = m.states b
  existingClasses : t.existingClasses = m.existingClasses
  classDefinition : classDefinition t = classDefinition m
  machines : t.machines = m.machines
  existingMachines : t.existingMachines = m.existingMachines
  defined : ∀ q, Defined m q → Defined t q

/-- The class of an existing state can be counted down. -/
theorem countState_down (inv : Inv m) (member : a ∈ m.existingStates) {s : SStateMachineState} (used : m.states a = some s) :
    ∃ t, countState m decrement s.cls = some t := by
  cases names : s.cls with
  | none => exact ⟨m, rfl⟩
  | some k =>
    obtain ⟨s', used', -, known⟩ := inv.state a member
    cases used.symm.trans used'
    obtain ⟨c, here, -⟩ := inv.cls k (known k names)
    have positive : 0 ≤ c.stateCount := inv.stateCount k c here ▸ Int.natCast_nonneg _
    exact ⟨_, by simp only [countState, here, decrement_some positive, Option.bind_eq_bind, Option.bind_some]; rfl⟩

theorem destroyState_spec (inv : Inv m) (member : a ∈ m.existingStates) :
    ∃ t, destroyState m a = some (none, t) ∧ Inv t ∧ StateGone m a t := by
  obtain ⟨s, used, ⟨d, there⟩, known⟩ := inv.state a member
  obtain ⟨u, counted⟩ := countState_down inv member used
  obtain ⟨classes, rfl, same, counts⟩ := countState_some counted
  have own : stateDefinition m a = some s.machineDefinition := by simp [stateDefinition, used]
  have class' : stateClass m a = s.cls := by simp [stateClass, used]
  obtain ⟨bag, removed, holds⟩ := remove_holds (inv.states _ d there) (mem_part.mpr ⟨member, own⟩)
  let t : Memory := { m with
    definitions := Function.update m.definitions s.machineDefinition (some { d with states := bag })
    classes := classes
    states := Function.update m.states a none
    existingStates := m.existingStates.erase a }
  have done : destroyState m a = some (none, t) := by
    simp [destroyState, used, counted, there, removed, setDefinition, t]
  have others : ∀ b, b ≠ a → t.states b = m.states b := fun b other => Function.update_of_ne other _ _
  have left := fun q => @states_gone m t a inv.statesOnce rfl others q
  refine ⟨t, done, ?_, ⟨rfl, others, rfl, same, rfl, rfl,
    fun _ => @defined_set _ _ _ { d with states := bag }⟩⟩
  exact {
    states := fun q d' after => by
      rw [(left q).1]
      rcases update_some after with ⟨rfl, rfl⟩ | ⟨other, old⟩
      · exact holds
      · rw [statesOf, erase_other own other]
        exact inv.states q d' old
    classes := fun q d' after => by
      change Holds d'.classes (part m.existingClasses (fun k => (classes k).map (·.machineDefinition)) q)
      rw [same]
      rcases update_some after with ⟨rfl, rfl⟩ | ⟨-, old⟩
      · exact inv.classes _ d there
      · exact inv.classes q d' old
    machineCount := fun q d' after => update_all after inv.machineCount (inv.machineCount _ d there)
    stateCount := fun k c' here => by
      obtain ⟨c, old, change⟩ := counts k c' here
      have before := inv.stateCount k c old
      have positive : 0 ≤ c.stateCount := before ▸ Int.natCast_nonneg _
      have fewer : (part m.existingStates (stateClass m) k).length =
          (part (m.existingStates.erase a) (stateClass m) k).length + if stateClass m a = some k then 1 else 0 :=
        part_erase_length inv.statesOnce member k
      rw [namersOf, fewer, class'] at before
      rw [(left k).2]
      by_cases names : s.cls = some k
      · rw [if_pos names] at before change
        rw [decrement_some positive, Option.some.injEq] at change
        omega
      · rw [if_neg names] at before change
        omega
    state := fun b inside => by
      obtain ⟨s', here, defined, names⟩ := inv.state b (List.mem_of_mem_erase inside)
      have other : b ≠ a := by
        rintro rfl
        exact inv.statesOnce.not_mem_erase inside
      exact ⟨s', (others b other).trans here, defined_set defined, names⟩
    cls := fun k inside => by
      obtain ⟨c, here, defined⟩ := counted_cls inv same inside
      exact ⟨c, here, defined_set defined⟩
    machine := fun b inside => by
      obtain ⟨q, here, defined⟩ := inv.machine b inside
      exact ⟨q, here, defined_set defined⟩
    statesOnce := inv.statesOnce.erase a
    classesOnce := inv.classesOnce
    machinesOnce := inv.machinesOnce }

end

end VoxiUtil.StateMachineCounts
