import VoxiUtil.StateMachineCounts

/-!
`stateMachine_defDestroy` destroys the states of a definition and then its classes. A class
that a state of another definition names is found only behind that, so that the call can
fail with a definition that has lost its states.
-/
namespace VoxiUtil.StateMachineTeardown
open VoxiUtil.Bag
open VoxiUtil.CString
open VoxiUtil.Err
open VoxiUtil.Runs
open VoxiUtil.StateMachineDefinitions
open VoxiUtil.StateMachineCounts

/-- The counts are those of what exists, and no existing state names a destroyed class. -/
structure Counted (m : Memory) : Prop where
  stateCount : ∀ k ∈ m.existingClasses, ∃ c, m.classes k = some c ∧ c.stateCount = (namersOf m k).length
  machineCount : ∀ p d, m.definitions p = some d → d.machineCount = (machinesOf m p).length
  named : ∀ a ∈ m.existingStates, ∀ k, stateClass m a = some k → k ∈ m.existingClasses

/-- The definition has the states and classes that it had. -/
def Unchanged (m t : Memory) (definition : Pointer) : Prop :=
  Defined t definition ∧ (∀ a, a ∈ statesOf t definition ↔ a ∈ statesOf m definition) ∧
    ∀ k, k ∈ classesOf t definition ↔ k ∈ classesOf m definition

/-- Whatever `rand` gives, `stateMachine_defDestroy` ends, and when it returns an error nothing was destroyed. -/
def AllOrNothing (m : Memory) (definition : Pointer) : Prop :=
  ∀ rand, ∃ error t, (∀ turns, (statesOf m definition).length < turns → (classesOf m definition).length < turns →
      defDestroy m definition rand turns = some (error, t)) ∧
    (error ≠ none → Unchanged m t definition)

/-- A state of another definition names the class. -/
def NamedElsewhere (m : Memory) (definition k : Pointer) : Prop :=
  ∃ a ∈ m.existingStates, stateClass m a = some k ∧ stateDefinition m a ≠ some definition

/-- The definition is refused for its machines, or no other one's state is in the way, or the first thing that
    is tried fails. -/
def Separable (m : Memory) (definition : Pointer) : Prop :=
  machinesOf m definition ≠ [] ∨ (∀ k ∈ classesOf m definition, ¬ NamedElsewhere m definition k) ∨
    statesOf m definition = [] ∧ ∀ k ∈ classesOf m definition, NamedElsewhere m definition k

section
variable {m t : Memory} {definition a k : Pointer} {rand : Nat → Nat} {turns calls : Nat} {error : Option Error}

/-! ### The loops -/

/-- The rule of the loops: each turn destroys one of the members, or stops at one that is in the way. -/
theorem destroyAll_rule (bag : SStateMachineDefinition → SBag) (destroyOne : Memory → Pointer → Option (Option Error × Memory))
    (text : Text) (rand : Nat → Nat) (members : Memory → List Pointer) (Good : Memory → Prop) (Blocked : Memory → Pointer → Prop)
    (holds : ∀ m, Good m → ∃ d, m.definitions definition = some d ∧ Holds (bag d) (members m))
    (each : ∀ m p, Good m → p ∈ members m → (Blocked m p ∧ ∃ e, destroyOne m p = some (some e, m)) ∨
      ∃ t, destroyOne m p = some (none, t) ∧ Good t ∧ (members t).length < (members m).length)
    (good : Good m) (calls : Nat) :
    ∃ error calls' t, (∀ turns, (members m).length < turns →
        destroyAll bag destroyOne text rand definition turns calls m = some (error, calls', t)) ∧ Good t ∧
      (error = none → members t = []) ∧ (error ≠ none → ∃ p ∈ members t, Blocked t p) ∧ (members m = [] → t = m) := by
  induction size : (members m).length using Nat.strong_induction_on generalizing m calls with
  | _ size ih =>
    subst size
    obtain ⟨d, there, holds'⟩ := holds m good
    have count := noElements_holds holds'
    by_cases none : members m = []
    · refine ⟨Option.none, calls, m, fun turns enough => ?_, good, fun _ => none, by simp, fun _ => rfl⟩
      obtain ⟨turns, rfl⟩ := Nat.exists_eq_succ_of_ne_zero (Nat.ne_of_gt (Nat.zero_lt_of_lt enough))
      simp [destroyAll, there, count, none]
    · obtain ⟨p, member, chosen⟩ := random_holds holds' none (rand calls)
      have positive := List.length_pos_iff.mpr none
      rcases each m p good member with ⟨blocked, e, done⟩ | ⟨u, done, kept, shorter⟩
      · refine ⟨some (errNew .stateMachine 0 (some e) text), calls + 1, m, fun turns enough => ?_, good, by simp,
          fun _ => ⟨p, member, blocked⟩, fun _ => rfl⟩
        obtain ⟨turns, rfl⟩ := Nat.exists_eq_succ_of_ne_zero (Nat.ne_of_gt (Nat.zero_lt_of_lt enough))
        simp [destroyAll, there, count, positive, chosen, done]
      · obtain ⟨error, calls', t, ends, result, emptied, stopped, -⟩ := ih _ shorter kept (calls + 1) rfl
        refine ⟨error, calls', t, fun turns enough => ?_, result, emptied, stopped, fun empty => absurd empty none⟩
        obtain ⟨turns, rfl⟩ := Nat.exists_eq_succ_of_ne_zero (Nat.ne_of_gt (Nat.zero_lt_of_lt enough))
        have later := ends turns (by omega)
        simp [destroyAll, there, count, positive, chosen, done, later]

/-- More turns than it takes make no difference. -/
theorem destroyAll_more {bag : SStateMachineDefinition → SBag} {destroyOne : Memory → Pointer → Option (Option Error × Memory)}
    {text : Text} {more : Nat} {result : Option Error × Nat × Memory}
    (done : destroyAll bag destroyOne text rand definition turns calls m = some result) (longer : turns ≤ more) :
    destroyAll bag destroyOne text rand definition more calls m = some result := by
  induction turns generalizing more calls m with
  | zero => cases done
  | succ turns ih =>
    obtain ⟨more, rfl⟩ := Nat.exists_eq_succ_of_ne_zero (Nat.ne_of_gt (Nat.lt_of_lt_of_le (Nat.succ_pos turns) longer))
    simp only [destroyAll, Option.bind_eq_bind, Option.bind_eq_some_iff] at done ⊢
    obtain ⟨d, there, count, counted, done⟩ := done
    refine ⟨d, there, count, counted, ?_⟩
    by_cases positive : 0 < count
    · rw [if_pos positive, Option.bind_eq_some_iff] at done ⊢
      obtain ⟨element, chosen, done⟩ := done
      refine ⟨element, chosen, ?_⟩
      rw [Option.bind_eq_some_iff] at done ⊢
      obtain ⟨⟨error, u⟩, destroyed, done⟩ := done
      refine ⟨(error, u), destroyed, ?_⟩
      cases error with
      | some error => exact done
      | none => exact ih done (Nat.succ_le_succ_iff.mp longer)
    · rw [if_neg positive] at done ⊢
      exact done

/-- What the loop over the states has left. -/
structure Emptying (definition : Pointer) (m t : Memory) : Prop where
  inside : ∀ a ∈ t.existingStates, a ∈ m.existingStates ∧ t.states a = m.states a
  others : ∀ a ∈ m.existingStates, stateDefinition m a ≠ some definition → a ∈ t.existingStates
  existingClasses : t.existingClasses = m.existingClasses
  classDefinition : classDefinition t = classDefinition m
  machines : t.machines = m.machines
  existingMachines : t.existingMachines = m.existingMachines
  defined : ∀ q, Defined m q → Defined t q

/-- What the loop over the classes has left. -/
structure Thinning (m t : Memory) : Prop where
  existingClasses : ∀ k ∈ t.existingClasses, k ∈ m.existingClasses
  named : ∀ k ∈ m.existingClasses, namersOf m k ≠ [] → k ∈ t.existingClasses
  classes : t.classes = m.classes
  states : t.states = m.states
  existingStates : t.existingStates = m.existingStates
  machines : t.machines = m.machines
  existingMachines : t.existingMachines = m.existingMachines
  defined : ∀ q, Defined m q → Defined t q

theorem emptying_step {u : Memory} (inv : Inv t) (emptying : Emptying definition m t) (member : a ∈ statesOf t definition)
    (gone : StateGone t a u) : Emptying definition m u where
  inside b there := by
    rw [gone.existing] at there
    obtain ⟨old, same⟩ := emptying.inside b (List.mem_of_mem_erase there)
    have other : b ≠ a := by
      rintro rfl
      exact inv.statesOnce.not_mem_erase there
    exact ⟨old, (gone.states b other).trans same⟩
  others b old foreign := by
    have there := emptying.others b old foreign
    have same := (emptying.inside b there).2
    have other : b ≠ a := by
      rintro rfl
      refine foreign ?_
      rw [stateDefinition, ← same]
      exact (mem_part.mp member).2
    rw [gone.existing]
    exact (List.mem_erase_of_ne other).mpr there
  existingClasses := gone.existingClasses.trans emptying.existingClasses
  classDefinition := gone.classDefinition.trans emptying.classDefinition
  machines := gone.machines.trans emptying.machines
  existingMachines := gone.existingMachines.trans emptying.existingMachines
  defined q defined := gone.defined q (emptying.defined q defined)

theorem states_loop (inv : Inv m) (defined : Defined m definition) (rand : Nat → Nat) (calls : Nat) :
    ∃ calls' t, (∀ turns, (statesOf m definition).length < turns →
        destroyStates rand definition turns calls m = some (none, calls', t)) ∧
      Inv t ∧ Emptying definition m t ∧ statesOf t definition = [] ∧ (statesOf m definition = [] → t = m) := by
  have start : Emptying definition m m :=
    ⟨fun a member => ⟨member, rfl⟩, fun a member _ => member, rfl, rfl, rfl, rfl, fun _ => id⟩
  obtain ⟨error, calls', t, ends, ⟨inv', emptying⟩, emptied, stopped, still⟩ :=
    destroyAll_rule SStateMachineDefinition.states destroyState (lit "Could not destroy state.") rand
      (fun t => statesOf t definition) (fun t => Inv t ∧ Emptying definition m t) (fun _ _ => False)
      (fun t good => by
        obtain ⟨d, there⟩ := good.2.defined definition defined
        exact ⟨d, there, good.1.states definition d there⟩)
      (fun t p good member => by
        obtain ⟨exists', -⟩ := mem_part.mp member
        obtain ⟨u, done, after, gone⟩ := destroyState_spec good.1 exists'
        have both := emptying_step good.1 good.2 member gone
        refine .inr ⟨u, done, ⟨after, both⟩, ?_⟩
        have fewer : ∀ b ∈ statesOf u definition, b ∈ (statesOf t definition).erase p := by
          intro b inside
          obtain ⟨new, own⟩ := mem_part.mp inside
          rw [gone.existing] at new
          have other : b ≠ p := by
            rintro rfl
            exact good.1.statesOnce.not_mem_erase new
          rw [stateDefinition, gone.states b other] at own
          exact (List.mem_erase_of_ne other).mpr (mem_part.mpr ⟨List.mem_of_mem_erase new, own⟩)
        have once : (statesOf u definition).Nodup := after.statesOnce.filter _
        have short := (once.subperm fewer).length_le
        have positive := List.length_pos_of_mem member
        rw [List.length_erase_of_mem member] at short
        omega) ⟨inv, start⟩ calls
  have none : error = none := by
    by_contra some
    obtain ⟨_, _, blocked⟩ := stopped some
    exact blocked
  subst none
  exact ⟨calls', t, ends, inv', emptying, emptied rfl, still⟩

theorem thinning_step {u : Memory} (thinning : Thinning m t) (unnamed : namersOf t k = []) (gone : ClassGone t k u) : Thinning m u where
  existingClasses k' member := thinning.existingClasses k' (List.mem_of_mem_erase (gone.existing ▸ member))
  named k' member named := by
    have same : namersOf t k' = namersOf m k' := by
      rw [namersOf, namersOf, thinning.existingStates]
      exact part_congr fun a _ => by rw [stateClass, stateClass, thinning.states]
    have other : k' ≠ k := by
      rintro rfl
      exact named (same.symm.trans unnamed)
    rw [gone.existing]
    exact (List.mem_erase_of_ne other).mpr (thinning.named k' member named)
  classes := gone.classes.trans thinning.classes
  states := gone.states.trans thinning.states
  existingStates := gone.existingStates.trans thinning.existingStates
  machines := gone.machines.trans thinning.machines
  existingMachines := gone.existingMachines.trans thinning.existingMachines
  defined q defined := gone.defined q (thinning.defined q defined)

theorem thinning_refl (m : Memory) : Thinning m m :=
  ⟨fun _ => id, fun _ member _ => member, rfl, rfl, rfl, rfl, rfl, fun _ => id⟩

theorem thinning_states (thinning : Thinning m t) (definition : Pointer) : statesOf t definition = statesOf m definition := by
  rw [statesOf, thinning.existingStates]
  exact part_congr fun a _ => by rw [stateDefinition, stateDefinition, thinning.states]

theorem classes_loop (inv : Inv m) (defined : Defined m definition) (rand : Nat → Nat) (calls : Nat) :
    ∃ error calls' t, (∀ turns, (classesOf m definition).length < turns →
        destroyClasses rand definition turns calls m = some (error, calls', t)) ∧
      Inv t ∧ Thinning m t ∧ (error = none → classesOf t definition = []) ∧
      (error ≠ none → ∃ k ∈ classesOf t definition, namersOf t k ≠ []) := by
  obtain ⟨error, calls', t, ends, ⟨inv', thinning⟩, emptied, stopped, -⟩ :=
    destroyAll_rule SStateMachineDefinition.classes destroyClass (lit "stateMachine_destroyClass failed.") rand
      (fun t => classesOf t definition) (fun t => Inv t ∧ Thinning m t) (fun t k => namersOf t k ≠ [])
      (fun t good => by
        obtain ⟨d, there⟩ := good.2.defined definition defined
        exact ⟨d, there, good.1.classes definition d there⟩)
      (fun t k good member => by
        obtain ⟨exists', -⟩ := mem_part.mp member
        rcases destroyClass_spec good.1 exists' with refused | ⟨unnamed, u, done, after, gone⟩
        · exact .inl refused
        · refine .inr ⟨u, done, ⟨after, thinning_step good.2 unnamed gone⟩, ?_⟩
          have fewer : classesOf u definition = (classesOf t definition).erase k := by
            have same : classesOf u definition = part (t.existingClasses.erase k) (classDefinition t) definition := by
              rw [classesOf, gone.existing]
              exact part_congr fun k' _ => by rw [classDefinition, classDefinition, gone.classes]
            rw [same, part_erase good.1.classesOnce, classesOf]
          have positive := List.length_pos_of_mem member
          rw [fewer, List.length_erase_of_mem member]
          omega) ⟨inv, thinning_refl m⟩ calls
  exact ⟨error, calls', t, ends, inv', thinning, emptied, stopped⟩

/-! ### Definitions -/

/-- What `stateMachine_defDestroy` leaves when its loops have come to an end with this error. -/
def torn (u : Memory) (definition : Pointer) : Option Error → Memory
  | some _ => u
  | none => setDefinition u definition none

/-- The two loops of a definition without machines. -/
theorem defDestroy_spec (inv : Inv m) (defined : Defined m definition) (free : machinesOf m definition = []) (rand : Nat → Nat) :
    ∃ t calls error u, Emptying definition m t ∧ Inv t ∧ statesOf t definition = [] ∧ (statesOf m definition = [] → t = m) ∧
      Thinning t u ∧ Inv u ∧ (error = none → classesOf u definition = []) ∧
      (error ≠ none → ∃ k ∈ classesOf u definition, namersOf u k ≠ []) ∧
      (∃ calls', ∀ turns, (classesOf t definition).length < turns →
        destroyClasses rand definition turns calls t = some (error, calls', u)) ∧
      ∀ turns, (statesOf m definition).length < turns → (classesOf m definition).length < turns →
        defDestroy m definition rand turns = some (error, torn u definition error) := by
  obtain ⟨calls, t, first, inv', emptying, empty, still⟩ := states_loop inv defined rand 0
  obtain ⟨error, calls', u, second, inv'', thinning, emptied, stopped⟩ := classes_loop inv' (emptying.defined _ defined) rand calls
  refine ⟨t, calls, error, u, emptying, inv', empty, still, thinning, inv'', emptied, stopped, ⟨calls', second⟩, ?_⟩
  intro turns enough more
  obtain ⟨d, there⟩ := defined
  have zero : d.machineCount = 0 := by simpa [free] using inv.machineCount definition d there
  have same : classesOf t definition = classesOf m definition := by
    rw [classesOf, emptying.existingClasses, emptying.classDefinition, classesOf]
  simp only [defDestroy, there, zero, first turns enough, second turns (same ▸ more), Option.bind_eq_bind, Option.bind_some, ne_eq,
    not_true_eq_false, if_false]
  cases error <;> rfl

/-- The machines of a definition keep it. -/
theorem defDestroy_refuses (inv : Inv m) (defined : Defined m definition) (used : machinesOf m definition ≠ []) (rand : Nat → Nat) :
    ∃ e, ∀ turns, defDestroy m definition rand turns = some (some e, m) := by
  obtain ⟨d, there⟩ := defined
  have some : d.machineCount ≠ 0 := by simpa [inv.machineCount definition d there] using used
  refine ⟨hasMachines d.machineCount, fun turns => ?_⟩
  simp only [defDestroy, there, Option.bind_eq_bind, Option.bind_some, if_pos some]

theorem defDestroy_more {more : Nat} {result : Option Error × Memory} (done : defDestroy m definition rand turns = some result)
    (longer : turns ≤ more) : defDestroy m definition rand more = some result := by
  simp only [defDestroy, Option.bind_eq_bind, Option.bind_eq_some_iff] at done ⊢
  obtain ⟨d, there, done⟩ := done
  refine ⟨d, there, ?_⟩
  by_cases machines : d.machineCount ≠ 0
  · rwa [if_pos machines] at done ⊢
  · rw [if_neg machines, Option.bind_eq_some_iff] at done ⊢
    obtain ⟨⟨error, calls, t⟩, first, done⟩ := done
    refine ⟨_, destroyAll_more first longer, ?_⟩
    cases error with
    | some error => exact done
    | none =>
      simp only [Option.bind_eq_some_iff] at done ⊢
      obtain ⟨⟨error, calls', u⟩, second, done⟩ := done
      exact ⟨_, destroyAll_more second longer, done⟩

/-- A definition to which nothing belongs goes. -/
theorem removed_inv (inv : Inv m) (states : statesOf m definition = []) (classes : classesOf m definition = [])
    (machines : machinesOf m definition = []) : Inv (setDefinition m definition none) := by
  have kept : ∀ q d, (setDefinition m definition none).definitions q = some d → m.definitions q = some d := by
    intro q d there
    by_cases here : q = definition
    · simp [setDefinition, here] at there
    · simpa [setDefinition, here] using there
  have defined : ∀ q, q ≠ definition → Defined m q → Defined (setDefinition m definition none) q := by
    rintro q other ⟨d, there⟩
    exact ⟨d, by simp [setDefinition, other, there]⟩
  exact {
    states := fun q d there => inv.states q d (kept q d there)
    classes := fun q d there => inv.classes q d (kept q d there)
    machineCount := fun q d there => inv.machineCount q d (kept q d there)
    stateCount := inv.stateCount
    state := fun a member => by
      obtain ⟨s, there, known, named⟩ := inv.state a member
      refine ⟨s, there, defined _ ?_ known, named⟩
      rintro same
      have own : a ∈ statesOf m definition := mem_part.mpr ⟨member, by simp [stateDefinition, there, same]⟩
      rw [states] at own
      cases own
    cls := fun k member => by
      obtain ⟨c, there, known⟩ := inv.cls k member
      refine ⟨c, there, defined _ ?_ known⟩
      rintro same
      have own : k ∈ classesOf m definition := mem_part.mpr ⟨member, by simp [classDefinition, there, same]⟩
      rw [classes] at own
      cases own
    machine := fun a member => by
      obtain ⟨q, there, known⟩ := inv.machine a member
      refine ⟨q, there, defined _ ?_ known⟩
      rintro rfl
      have own : a ∈ machinesOf m q := mem_part.mpr ⟨member, there⟩
      rw [machines] at own
      cases own
    statesOnce := inv.statesOnce
    classesOnce := inv.classesOnce
    machinesOnce := inv.machinesOnce }

theorem defDestroy_inv (inv : Inv m) (done : defDestroy m definition rand turns = some (error, t)) : Inv t := by
  have defined : Defined m definition := by
    simp only [defDestroy, Option.bind_eq_bind, Option.bind_eq_some_iff] at done
    obtain ⟨d, there, -⟩ := done
    exact ⟨d, there⟩
  by_cases free : machinesOf m definition = []
  · obtain ⟨v, calls, error', u, emptying, -, empty, -, thinning, inv', emptied, -, -, ends⟩ := defDestroy_spec inv defined free rand
    have enough := ends (turns + (statesOf m definition).length + (classesOf m definition).length + 1) (by omega) (by omega)
    cases (defDestroy_more done (by omega)).symm.trans enough
    cases error with
    | some error => exact inv'
    | none =>
      have states : statesOf u definition = statesOf v definition := thinning_states thinning definition
      have machines : machinesOf u definition = machinesOf m definition := by
        rw [machinesOf, thinning.existingMachines, thinning.machines, emptying.existingMachines, emptying.machines, machinesOf]
      exact removed_inv inv' (states.trans empty) (emptied rfl) (machines.trans free)
  · obtain ⟨e, refused⟩ := defDestroy_refuses inv defined free rand
    cases done.symm.trans (refused turns)
    exact inv

theorem step_inv (m : Memory) (act : Act) (t : Memory) (inv : Inv m) (done : step m act = some t) : Inv t := by
  cases act with
  | defCreate block =>
    obtain ⟨out, returned, rfl⟩ := Option.map_eq_some_iff.mp done
    exact defCreate_inv inv returned
  | defDestroy definition rand turns =>
    obtain ⟨out, returned, rfl⟩ := Option.map_eq_some_iff.mp done
    exact defDestroy_inv inv returned
  | create definition block =>
    obtain ⟨out, returned, rfl⟩ := Option.map_eq_some_iff.mp done
    exact create_inv inv returned
  | destroy machine =>
    simp only [step, Option.bind_eq_bind, Option.bind_eq_some_iff, assert_eq_some] at done
    obtain ⟨_, member, done⟩ := done
    obtain ⟨out, returned, rfl⟩ := Option.map_eq_some_iff.mp done
    exact destroy_inv inv member returned
  | createClass definition block =>
    obtain ⟨out, returned, rfl⟩ := Option.map_eq_some_iff.mp done
    exact createClass_inv inv returned
  | destroyClass stateClass =>
    simp only [step, Option.bind_eq_bind, Option.bind_eq_some_iff, assert_eq_some] at done
    obtain ⟨_, member, done⟩ := done
    obtain ⟨out, returned, rfl⟩ := Option.map_eq_some_iff.mp done
    rcases destroyClass_spec inv member with ⟨-, e, refused⟩ | ⟨-, u, destroyed, after, -⟩
    · cases returned.symm.trans refused
      exact inv
    · cases returned.symm.trans destroyed
      exact after
  | createState definition stateClass block =>
    simp only [step, Option.bind_eq_bind, Option.bind_eq_some_iff, assert_eq_some] at done
    obtain ⟨_, known, done⟩ := done
    obtain ⟨out, returned, rfl⟩ := Option.map_eq_some_iff.mp done
    exact createState_inv inv known returned
  | destroyState state =>
    simp only [step, Option.bind_eq_bind, Option.bind_eq_some_iff, assert_eq_some] at done
    obtain ⟨_, member, done⟩ := done
    obtain ⟨out, returned, rfl⟩ := Option.map_eq_some_iff.mp done
    obtain ⟨u, destroyed, after, -⟩ := destroyState_spec inv member
    cases returned.symm.trans destroyed
    exact after

theorem reached_inv (reached : Reachable step startMemory m) : Inv m := reachable_invariant start_inv step_inv reached

theorem counted (inv : Inv m) : Counted m where
  stateCount k member := by
    obtain ⟨c, there, -⟩ := inv.cls k member
    exact ⟨c, there, inv.stateCount k c there⟩
  machineCount := inv.machineCount
  named a member k names := by
    obtain ⟨s, there, -, known⟩ := inv.state a member
    exact known k (by simpa [stateClass, there] using names)

/-! ### All or nothing -/

theorem unchanged_refl (defined : Defined m definition) : Unchanged m m definition :=
  ⟨defined, fun _ => Iff.rfl, fun _ => Iff.rfl⟩

/-- What names a class behind the loop over the states, is of another definition. -/
theorem namers_elsewhere (emptying : Emptying definition m t) (empty : statesOf t definition = []) :
    namersOf t k ≠ [] ↔ NamedElsewhere m definition k := by
  constructor
  · intro some
    obtain ⟨a, member⟩ := List.exists_mem_of_ne_nil _ some
    obtain ⟨there, names⟩ := mem_part.mp member
    obtain ⟨old, same⟩ := emptying.inside a there
    refine ⟨a, old, ?_, fun own => ?_⟩
    · rwa [stateClass, same] at names
    · have inside : a ∈ statesOf t definition := mem_part.mpr ⟨there, by rwa [stateDefinition, same]⟩
      rw [empty] at inside
      cases inside
  · rintro ⟨a, old, names, foreign⟩ none
    have there := emptying.others a old foreign
    have inside : a ∈ namersOf t k := mem_part.mpr ⟨there, by rwa [stateClass, (emptying.inside a there).2]⟩
    rw [none] at inside
    cases inside

theorem thinning_namers (thinning : Thinning m t) : namersOf t k = namersOf m k := by
  rw [namersOf, thinning.existingStates]
  exact part_congr fun a _ => by rw [stateClass, stateClass, thinning.states]

theorem thinning_classes (thinning : Thinning m t) (member : k ∈ classesOf t definition) : k ∈ classesOf m definition := by
  obtain ⟨there, own⟩ := mem_part.mp member
  refine mem_part.mpr ⟨thinning.existingClasses k there, ?_⟩
  rwa [classDefinition, thinning.classes] at own

theorem emptying_classes (emptying : Emptying definition m t) : classesOf t definition = classesOf m definition := by
  rw [classesOf, emptying.existingClasses, emptying.classDefinition, classesOf]

/-- A class that is named stays. -/
theorem thinning_stays (thinning : Thinning m t) (member : k ∈ classesOf m definition) (named : namersOf m k ≠ []) :
    k ∈ classesOf t definition := by
  obtain ⟨there, own⟩ := mem_part.mp member
  refine mem_part.mpr ⟨thinning.named k there named, ?_⟩
  rwa [classDefinition, thinning.classes]

theorem separable_works (inv : Inv m) (defined : Defined m definition) (separable : Separable m definition) :
    AllOrNothing m definition := by
  intro rand
  by_cases free : machinesOf m definition = []
  · obtain ⟨t, calls, error, u, emptying, -, empty, still, thinning, -, -, stopped, -, ends⟩ := defDestroy_spec inv defined free rand
    refine ⟨error, torn u definition error, ends, fun failed => ?_⟩
    obtain ⟨k, member, named⟩ := stopped failed
    rw [thinning_namers thinning] at named
    have inside := thinning_classes thinning member
    rw [emptying_classes emptying] at inside
    have elsewhere := (namers_elsewhere emptying empty).mp named
    rcases separable with used | none | ⟨stateless, all⟩
    · exact absurd free used
    · exact absurd elsewhere (none k inside)
    · cases still stateless
      obtain ⟨e, rfl⟩ := Option.ne_none_iff_exists'.mp failed
      refine ⟨thinning.defined _ defined, fun a => ?_, fun k => ⟨thinning_classes thinning, fun old => ?_⟩⟩
      · simp only [torn, thinning_states thinning]
      · exact thinning_stays thinning old ((namers_elsewhere emptying empty).mpr (all k old))
  · obtain ⟨e, refused⟩ := defDestroy_refuses inv defined free rand
    exact ⟨some e, m, fun turns _ _ => refused turns, fun _ => unchanged_refl defined⟩

/-- The class that is chosen first is destroyed, when no state names it. -/
theorem first_gone (rand : Nat → Nat) (inv : Inv m) {d : SStateMachineDefinition} (there : m.definitions definition = some d)
    (member : k ∈ classesOf m definition) (unnamed : namersOf m k = []) (chosen : randomElement d.classes (rand calls) = some k)
    {calls' : Nat} (ends : ∀ turns, (classesOf m definition).length < turns →
      destroyClasses rand definition turns calls m = some (error, calls', t)) : k ∉ t.existingClasses := by
  have count := noElements_holds (inv.classes definition d there)
  have positive := List.length_pos_of_mem member
  rcases destroyClass_spec inv (mem_part.mp member).1 with ⟨named, -⟩ | ⟨-, u, done, after, gone⟩
  · exact absurd unnamed named
  · obtain ⟨error', calls'', t', ends', -, thinning, -⟩ := classes_loop after (gone.defined _ ⟨d, there⟩) rand (calls + 1)
    have turn := ends ((classesOf m definition).length + (classesOf u definition).length + 2) (by omega)
    have rest := ends' ((classesOf m definition).length + (classesOf u definition).length + 1) (by omega)
    have same : destroyClasses rand definition ((classesOf m definition).length + (classesOf u definition).length + 2) calls m =
        destroyClasses rand definition ((classesOf m definition).length + (classesOf u definition).length + 1) (calls + 1) u := by
      simp [destroyClasses, destroyAll, there, count, positive, chosen, done]
    cases (turn.symm.trans same).trans rest
    intro stays
    exact inv.classesOnce.not_mem_erase (gone.existing ▸ thinning.existingClasses k stays)

/-- Every call ends with an error, behind the loop over the states, when a class is named elsewhere. -/
theorem fails_elsewhere (inv : Inv m) (defined : Defined m definition) (free : machinesOf m definition = [])
    (member : k ∈ classesOf m definition) (elsewhere : NamedElsewhere m definition k) (works : AllOrNothing m definition)
    (rand : Nat → Nat) :
    ∃ t calls u error calls', Emptying definition m t ∧ statesOf t definition = [] ∧ (statesOf m definition = [] → t = m) ∧
      Thinning t u ∧ Unchanged m u definition ∧ ∀ turns, (classesOf t definition).length < turns →
        destroyClasses rand definition turns calls t = some (error, calls', u) := by
  obtain ⟨t, calls, error, u, emptying, -, empty, still, thinning, -, emptied, -, ⟨calls', second⟩, ends⟩ :=
    defDestroy_spec inv defined free rand
  obtain ⟨error', v, ends', kept⟩ := works rand
  have one := ends ((statesOf m definition).length + (classesOf m definition).length + 1) (by omega) (by omega)
  have other := ends' ((statesOf m definition).length + (classesOf m definition).length + 1) (by omega) (by omega)
  obtain ⟨rfl, rfl⟩ : error = error' ∧ torn u definition error = v := by simpa using one.symm.trans other
  have stays : k ∈ classesOf u definition := by
    refine thinning_stays thinning ?_ ((namers_elsewhere emptying empty).mpr elsewhere)
    rwa [emptying_classes emptying]
  have failed : error ≠ none := by
    intro none
    rw [emptied none] at stays
    cases stays
  have unchanged := kept failed
  obtain ⟨e, rfl⟩ := Option.ne_none_iff_exists'.mp failed
  exact ⟨t, calls, u, _, calls', emptying, empty, still, thinning, unchanged, second⟩

theorem works_separable (inv : Inv m) (defined : Defined m definition) (works : AllOrNothing m definition) :
    Separable m definition := by
  by_contra inseparable
  simp only [Separable, not_or, not_and, not_forall, not_not, ne_eq] at inseparable
  obtain ⟨free, ⟨k, member, elsewhere⟩, mixed⟩ := inseparable
  have fails := fails_elsewhere inv defined free member elsewhere works
  have stateless : statesOf m definition = [] := by
    obtain ⟨t, calls, u, -, -, -, empty, -, thinning, unchanged, -⟩ := fails fun _ => 0
    refine List.eq_nil_iff_forall_not_mem.mpr fun a inside => ?_
    have after := (unchanged.2.1 a).mpr inside
    rw [thinning_states thinning, empty] at after
    cases after
  obtain ⟨other, inside, alone⟩ := mixed stateless
  obtain ⟨d, there⟩ := defined
  obtain ⟨choice, chosen⟩ := random_chooses (inv.classes definition d there) inside
  obtain ⟨t, calls, u, error, calls', emptying, empty, still, thinning, unchanged, ends⟩ := fails fun _ => choice
  obtain rfl := still stateless
  have unnamed : namersOf t other = [] := by
    by_contra named
    exact alone ((namers_elsewhere emptying empty).mp named)
  have gone := first_gone (fun _ => choice) inv there inside unnamed chosen ends
  exact gone (mem_part.mp ((unchanged.2.2 other).mpr inside)).1

end

/-- In every state that is reached by creating and destroying, the counts are right, and
    `stateMachine_defDestroy` destroys all of a definition or nothing just when it has machines, or no state of
    another definition names a class of it, or such states name all of its classes and it has no states. -/
theorem all_or_nothing_iff {m : Memory} (reached : Reachable step startMemory m) {definition : Pointer}
    (defined : Defined m definition) : Counted m ∧ AllOrNothing m definition ↔ Separable m definition := by
  have inv := reached_inv reached
  exact ⟨fun both => works_separable inv defined both.2, fun separable => ⟨counted inv, separable_works inv defined separable⟩⟩

private def blockAt (n : UInt8) : Pointer := ⟨[n, 0, 0, 0, 0, 0, 0, 0], rfl⟩

/-- Two definitions, of which the first has a class and a state and the second a state of that class. -/
private def shared : List Act :=
  [.defCreate (some (blockAt 1)), .defCreate (some (blockAt 2)), .createClass (blockAt 1) (some (blockAt 3)),
    .createState (blockAt 1) none (some (blockAt 4)), .createState (blockAt 2) (some (blockAt 3)) (some (blockAt 5))]

theorem all_or_nothing_iff_shared : ∃ m, run step startMemory shared = some m ∧
    (Counted m ∧ AllOrNothing m (blockAt 2) ↔ Separable m (blockAt 2)) :=
  ⟨_, rfl, all_or_nothing_iff ⟨shared, rfl⟩ ⟨_, rfl⟩⟩

/-- The state of the first definition is destroyed before its class turns out to be named. -/
theorem half_destroyed : ∃ m, run step startMemory shared = some m ∧ Defined m (blockAt 1) ∧
    ¬ (Counted m ∧ AllOrNothing m (blockAt 1)) := by
  refine ⟨_, rfl, ⟨_, rfl⟩, fun both => ?_⟩
  have reached : Reachable step startMemory _ := ⟨shared, rfl⟩
  rcases works_separable (reached_inv reached) ⟨_, rfl⟩ both.2 with used | none | ⟨stateless, -⟩
  · exact used (by decide)
  · exact none (blockAt 3) (by decide) ⟨blockAt 5, by decide, by decide, by decide⟩
  · exact absurd stateless (by decide)

end VoxiUtil.StateMachineTeardown
