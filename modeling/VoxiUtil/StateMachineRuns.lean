import VoxiUtil.StateMachine
import Mathlib.Data.List.Chain

/-!
The discipline of a run, whatever the callbacks do: in every state the callbacks that
are there come in their order until one sets immediate exit, the run goes on with the
state that was set last, and it returns where none was set or a callback asked for it.
-/
namespace VoxiUtil.StateMachineRuns
open VoxiUtil.CString VoxiUtil.Err
open VoxiUtil.StateMachine

section
variable {S K F : Type}

/-- The next state after `acts`, when `set` was the next state before them. -/
def setBy (set : Option S) : List (Act S) → Option S
  | [] => set
  | .setImmediateExit :: rest => setBy set rest
  | .setNextState nextState none :: rest => setBy nextState rest
  | .setNextState _ (some _) :: rest => setBy set rest

/-- What was set last with success. -/
def lastSet (acts : List (Act S)) : Option S := setBy none acts

/-- The first state that a callback tried to set. -/
def firstSet : List (Act S) → Option S
  | [] => none
  | .setNextState (some next) _ :: _ => some next
  | _ :: rest => firstSet rest

/-- With Nuance semantics an attempt is refused when a state is set, and the answer names
    both; every other attempt succeeds. -/
def Answer (definition : SStateMachineDefinition S K F) (nuance : Bool) (set nextState : Option S) (answer : Option Error) : Prop :=
  match nuance, set with
  | true, some previous => ∃ next, nextState = some next ∧
      answer = some (nextStateAlreadySet (definition.states next).name (definition.states previous).name)
  | _, _ => answer = none

/-- The callbacks of a state, without those that are missing. -/
def callbacks (definition : SStateMachineDefinition S K F) (state : S) : List (Place × F) :=
  let cls := (definition.states state).cls.map definition.classes
  ((cls.bind (·.entryFunc)).map (Place.classEntry, ·)).toList ++
    (((definition.states state).entryFunc.map (Place.stateEntry, ·)).toList ++
    (((definition.states state).exitFunc.map (Place.stateExit, ·)).toList ++
    ((cls.bind (·.exitFunc)).map (Place.classExit, ·)).toList))

/-- A callback that set immediate exit. -/
def Exits (c : Call S F) : Prop := .setImmediateExit ∈ c.acts

/-- Everything that the callbacks did in the state. -/
def actsOf (calls : List (Call S F)) : List (Act S) := calls.flatMap (·.acts)

def made (calls : List (Call S F)) : List (Place × F) := calls.map (fun c => (c.place, c.func))

/-- One visit as it should be. -/
structure Disciplined (definition : SStateMachineDefinition S K F) (nuance : Bool) (v : Visit S F) : Prop where
  ordered : made v.calls <+: callbacks definition v.state
  complete : (∀ c ∈ v.calls, ¬ Exits c) → made v.calls = callbacks definition v.state
  stops : ∀ c ∈ v.calls.dropLast, ¬ Exits c
  answers : ∀ before nextState answer after, actsOf v.calls = before ++ .setNextState nextState answer :: after →
    Answer definition nuance (lastSet before) nextState answer
  first : nuance = true → lastSet (actsOf v.calls) = firstSet (actsOf v.calls)
  noneSet : (∀ answer, .setNextState none answer ∉ actsOf v.calls) →
    (lastSet (actsOf v.calls) = none ↔ ∀ nextState answer, .setNextState nextState answer ∉ actsOf v.calls)

/-- The visit was left for the state. -/
def LeftFor (v : Visit S F) (next : S) : Prop := (∀ c ∈ v.calls, ¬ Exits c) ∧ lastSet (actsOf v.calls) = some next

/-- The visits as they should be, from `initialState` on. -/
structure Trace (definition : SStateMachineDefinition S K F) (nuance : Bool) (initialState : S) (visits : List (Visit S F)) :
    Prop where
  disciplined : ∀ v ∈ visits, Disciplined definition nuance v
  starts : ∀ v ∈ visits.head?, v.state = initialState
  follows : visits.IsChain (fun v w => LeftFor v w.state)

/-- The run as it should be, over at most `turns` turns: it returns after the first visit
    that was left for no state. -/
structure Orderly (definition : SStateMachineDefinition S K F) (nuance : Bool) (initialState : S) (turns : Nat) (r : Run S F) :
    Prop where
  trace : Trace definition nuance initialState r.visits
  returns : r.outcome = .returned ↔ ∃ v ∈ r.visits.getLast?, (∃ c ∈ v.calls, Exits c) ∨ lastSet (actsOf v.calls) = none
  unfinished : r.outcome = .unfinished → r.visits.length = turns

/-- No call of the callback passes `NULL` for a state. -/
def NamesStates : Callback S → Prop
  | .done => True
  | .setNextState nextState answered => nextState ≠ none ∧ ∀ answer, NamesStates (answered answer)
  | .setImmediateExit rest => NamesStates rest

/-! ### What the callbacks do -/

variable {definition : SStateMachineDefinition S K F} {behaviour : Behaviour S F} {machine m : SStateMachine S}
  {nextState set : Option S} {answer : Option Error} {acts rest : List (Act S)} {nuance : Bool}

@[simp] theorem setBy_append : setBy set (acts ++ rest) = setBy (setBy set acts) rest := by
  induction acts generalizing set with
  | nil => rfl
  | cons act others ih =>
    rcases act with ⟨nextState, _ | error⟩ | _
    · simp [setBy, ih]
    · simp [setBy, ih]
    · simp [setBy, ih]

/-- Every attempt is answered by what was set before it. -/
def Answered (definition : SStateMachineDefinition S K F) (nuance : Bool) : Option S → List (Act S) → Prop
  | _, [] => True
  | set, .setImmediateExit :: rest => Answered definition nuance set rest
  | set, .setNextState nextState answer :: rest => Answer definition nuance set nextState answer ∧
      Answered definition nuance (setBy set [.setNextState nextState answer]) rest

theorem answered_append : Answered definition nuance set (acts ++ rest) ↔
    Answered definition nuance set acts ∧ Answered definition nuance (setBy set acts) rest := by
  induction acts generalizing set with
  | nil => simp [Answered, setBy]
  | cons act others ih =>
    rcases act with ⟨nextState, answer⟩ | _
    · rw [List.cons_append, Answered, Answered, ih, and_assoc, ← setBy_append, List.singleton_append]
    · rw [List.cons_append, Answered, Answered, ih, setBy]

/-- `stateMachine_setNextState` changes what is set as its answer says, and nothing else. -/
theorem setNextState_spec (answered : setNextState definition machine nextState = some (m, answer)) :
    m = { machine with nextState := setBy machine.nextState [.setNextState nextState answer] } ∧
      Answer definition machine.nuanceSemantics machine.nextState nextState answer := by
  rcases machine with ⟨current, _ | previous, exits, _ | _⟩
  · cases answered
    exact ⟨rfl, rfl⟩
  · cases answered
    exact ⟨rfl, rfl⟩
  · cases answered
    exact ⟨rfl, rfl⟩
  · cases nextState with
    | none => cases answered
    | some next =>
      cases answered
      exact ⟨rfl, next, rfl, rfl⟩

/-- With Nuance semantics what is set stays set. -/
private theorem setBy_held {previous : S} (answered : Answered definition true (some previous) acts) :
    setBy (some previous) acts = some previous := by
  induction acts with
  | nil => rfl
  | cons act others ih =>
    rcases act with ⟨nextState, answer⟩ | _
    · obtain ⟨⟨next, _, refused⟩, later⟩ := answered
      subst refused
      exact ih later
    · exact ih answered

theorem setBy_first (answered : Answered definition true none acts) : setBy none acts = firstSet acts := by
  induction acts with
  | nil => rfl
  | cons act others ih =>
    rcases act with ⟨nextState, answer⟩ | _
    · obtain ⟨free, later⟩ := answered
      have succeeded : answer = none := free
      subst succeeded
      cases nextState with
      | none => exact ih later
      | some next => exact setBy_held later
    · exact ih answered

private theorem setBy_kept {previous : S} (named : ∀ answer, .setNextState none answer ∉ acts) : setBy (some previous) acts ≠ none := by
  induction acts generalizing previous with
  | nil => simp [setBy]
  | cons act others ih =>
    have others_named : ∀ answer, .setNextState none answer ∉ others := by
      intro answer member
      exact named answer (List.mem_cons_of_mem _ member)
    rcases act with ⟨_ | next, _ | error⟩ | _
    · exact absurd List.mem_cons_self (named none)
    · exact ih others_named
    · exact ih others_named
    · exact ih others_named
    · exact ih others_named

/-- Where every attempt names a state, none is set only if nobody tried. -/
theorem setBy_none (answered : Answered definition nuance none acts) (named : ∀ answer, .setNextState none answer ∉ acts) :
    setBy none acts = none ↔ ∀ nextState answer, .setNextState nextState answer ∉ acts := by
  induction acts with
  | nil => simp [setBy]
  | cons act others ih =>
    have others_named : ∀ answer, .setNextState none answer ∉ others := by
      intro answer member
      exact named answer (List.mem_cons_of_mem _ member)
    rcases act with ⟨nextState, answer⟩ | _
    · have succeeded : answer = none := by
        cases nuance
        · exact answered.1
        · exact answered.1
      subst succeeded
      cases nextState with
      | none => exact absurd List.mem_cons_self (named none)
      | some next =>
        constructor
        · intro empty
          exact absurd empty (setBy_kept others_named)
        · intro nobody
          exact absurd List.mem_cons_self (nobody (some next) none)
    · simp [setBy, ih answered others_named]

/-- What a callback leaves of the machine. -/
structure Performed (definition : SStateMachineDefinition S K F) (machine m : SStateMachine S) (acts : List (Act S)) : Prop where
  currentState : m.currentState = machine.currentState
  nuanceSemantics : m.nuanceSemantics = machine.nuanceSemantics
  nextState : m.nextState = setBy machine.nextState acts
  immediateExit : m.immediateExit = true ↔ machine.immediateExit = true ∨ .setImmediateExit ∈ acts
  answered : Answered definition machine.nuanceSemantics machine.nextState acts

theorem perform_spec {c : Callback S} (performed : c.perform definition machine = some (m, acts)) :
    Performed definition machine m acts := by
  induction c generalizing machine m acts with
  | done =>
    cases performed
    exact ⟨rfl, rfl, rfl, by simp, trivial⟩
  | setNextState nextState answered ih =>
    simp only [Callback.perform, Option.bind_eq_bind, Option.bind_eq_some_iff, Option.pure_def, Option.some.injEq,
      Prod.exists, Prod.mk.injEq] at performed
    obtain ⟨between, answer, set, after, others, went, rfl, rfl⟩ := performed
    obtain ⟨rfl, right⟩ := setNextState_spec set
    have later := ih answer went
    refine ⟨later.currentState, later.nuanceSemantics, ?_, ?_, right, later.answered⟩
    · rw [later.nextState, ← setBy_append, List.singleton_append]
    · rw [later.immediateExit]
      simp
  | setImmediateExit rest ih =>
    simp only [Callback.perform, Option.bind_eq_bind, Option.bind_eq_some_iff, Option.pure_def, Option.some.injEq,
      Prod.exists, Prod.mk.injEq] at performed
    obtain ⟨after, others, went, rfl, rfl⟩ := performed
    have later := ih went
    refine ⟨later.currentState, later.nuanceSemantics, later.nextState, ?_, later.answered⟩
    rw [later.immediateExit]
    simp [setImmediateExit]

/-- A callback only crashes on `NULL`, and only with Nuance semantics. -/
theorem perform_succeeds {c : Callback S} (safe : machine.nuanceSemantics = false ∨ NamesStates c) :
    ∃ m acts, c.perform definition machine = some (m, acts) := by
  induction c generalizing machine with
  | done => exact ⟨machine, [], rfl⟩
  | setNextState nextState answered ih =>
    have able : ∃ m answer, setNextState definition machine nextState = some (m, answer) := by
      rcases machine with ⟨current, _ | previous, exits, _ | _⟩
      · exact ⟨_, _, rfl⟩
      · exact ⟨_, _, rfl⟩
      · exact ⟨_, _, rfl⟩
      · cases nextState with
        | none => simp [NamesStates] at safe
        | some next => exact ⟨_, _, rfl⟩
    obtain ⟨m, answer, set⟩ := able
    obtain ⟨same, _⟩ := setNextState_spec set
    have still : m.nuanceSemantics = false ∨ NamesStates (answered answer) := by
      rw [same]
      exact safe.imp_right (fun names => names.2 answer)
    obtain ⟨after, others, went⟩ := ih answer still
    exact ⟨after, .setNextState nextState answer :: others, by simp [Callback.perform, set, went]⟩
  | setImmediateExit rest ih =>
    obtain ⟨after, others, went⟩ := @ih (setImmediateExit machine) safe
    exact ⟨after, .setImmediateExit :: others, by simp [Callback.perform, went]⟩

/-! ### One visit -/

variable {visits : List (Visit S F)} {calls calls' : List (Call S F)} {state : S} {places : List (Place × F)} {place : Place}
  {func : Option F} {v : Visit S F}

/-- Inside a visit: `places` are behind, and the machine is what their callbacks made of it. -/
structure Visiting (definition : SStateMachineDefinition S K F) (nuance : Bool) (state : S) (places : List (Place × F))
    (machine : SStateMachine S) (calls : List (Call S F)) : Prop where
  currentState : machine.currentState = some state
  nuanceSemantics : machine.nuanceSemantics = nuance
  nextState : machine.nextState = lastSet (actsOf calls)
  immediateExit : machine.immediateExit = true ↔ ∃ c ∈ calls, Exits c
  answered : Answered definition nuance none (actsOf calls)
  stops : ∀ c ∈ calls.dropLast, ¬ Exits c
  made : made calls = places

/-- A place of the loop keeps the visit, whether there is a callback or not. -/
theorem callback_spec (visiting : Visiting definition nuance state places machine calls) (going : machine.immediateExit = false)
    (called : callback definition behaviour visits state place func machine calls = some (m, calls')) :
    Visiting definition nuance state (places ++ (func.map (place, ·)).toList) m calls' := by
  cases func with
  | none =>
    cases called
    simpa using visiting
  | some func =>
    simp only [callback, Option.bind_eq_bind, Option.bind_eq_some_iff, Option.pure_def, Option.some.injEq, Prod.exists,
      Prod.mk.injEq] at called
    obtain ⟨after, acts, performed, rfl, rfl⟩ := called
    have did := perform_spec performed
    have quiet : ∀ c ∈ calls, ¬ Exits c := by
      intro c member exits
      rw [visiting.immediateExit.mpr ⟨c, member, exits⟩] at going
      cases going
    have joined : actsOf (calls ++ [⟨place, func, acts⟩]) = actsOf calls ++ acts := by simp [actsOf]
    constructor
    · rw [did.currentState, visiting.currentState]
    · rw [did.nuanceSemantics, visiting.nuanceSemantics]
    · rw [did.nextState, visiting.nextState, joined, lastSet, lastSet, setBy_append]
    · rw [did.immediateExit, visiting.immediateExit]
      simp [Exits, or_and_right, exists_or]
    · rw [joined, answered_append]
      refine ⟨visiting.answered, ?_⟩
      have here := did.answered
      rwa [visiting.nuanceSemantics, visiting.nextState] at here
    · simpa using quiet
    · have earlier := visiting.made
      rw [StateMachineRuns.made] at earlier ⊢
      simp [earlier]

theorem callback_succeeds (visiting : Visiting definition nuance state places machine calls)
    (safe : nuance = false ∨ ∀ visits calls func state, NamesStates (behaviour visits calls func state)) :
    ∃ m calls', callback definition behaviour visits state place func machine calls = some (m, calls') := by
  cases func with
  | none => exact ⟨machine, calls, rfl⟩
  | some func =>
    have able : machine.nuanceSemantics = false ∨ NamesStates (behaviour visits calls func state) := by
      rw [visiting.nuanceSemantics]
      exact safe.imp_right (fun names => names visits calls func state)
    obtain ⟨m, acts, performed⟩ : ∃ m acts, (behaviour visits calls func state).perform definition machine = some (m, acts) :=
      perform_succeeds able
    exact ⟨m, calls ++ [⟨place, func, acts⟩], by simp [callback, performed]⟩

/-- After a visit: it was as it should be, and the machine goes on with what was set. -/
structure Visited (definition : SStateMachineDefinition S K F) (nuance : Bool) (state : S) (m : SStateMachine S) (v : Visit S F) :
    Prop where
  disciplined : Disciplined definition nuance v
  state : v.state = state
  nuanceSemantics : m.nuanceSemantics = nuance
  immediateExit : m.immediateExit = true ↔ ∃ c ∈ v.calls, Exits c
  goesOn : m.immediateExit = false → m.currentState = lastSet (actsOf v.calls) ∧ m.nextState = none

private theorem visiting_disciplined (visiting : Visiting definition nuance state places machine calls)
    (ordered : places <+: callbacks definition state)
    (complete : machine.immediateExit = false → places = callbacks definition state) :
    Disciplined definition nuance ⟨state, calls⟩ := by
  constructor
  · rw [visiting.made]
    exact ordered
  · intro quiet
    rw [visiting.made]
    apply complete
    rw [← Bool.not_eq_true, visiting.immediateExit]
    rintro ⟨c, member, exits⟩
    exact quiet c member exits
  · exact visiting.stops
  · intro before nextState answer after split
    have answered := visiting.answered
    rw [show actsOf calls = before ++ .setNextState nextState answer :: after from split, answered_append] at answered
    exact answered.2.1
  · intro nuanced
    have answered := visiting.answered
    rw [nuanced] at answered
    exact setBy_first answered
  · intro named
    exact setBy_none visiting.answered named

/-- Immediate exit breaks the loop off at any place. -/
private theorem visiting_broken (visiting : Visiting definition nuance state places machine calls)
    (broken : machine.immediateExit = true) (ordered : places <+: callbacks definition state) :
    Visited definition nuance state machine ⟨state, calls⟩ := by
  refine ⟨visiting_disciplined visiting ordered ?_, rfl, visiting.nuanceSemantics, visiting.immediateExit, ?_⟩
  · simp [broken]
  · simp [broken]

private theorem visiting_through (visiting : Visiting definition nuance state (callbacks definition state) machine calls) :
    Visited definition nuance state { machine with currentState := machine.nextState, nextState := none } ⟨state, calls⟩ := by
  refine ⟨visiting_disciplined visiting (List.prefix_refl _) (fun _ => rfl), rfl, visiting.nuanceSemantics,
    visiting.immediateExit, ?_⟩
  intro _
  exact ⟨visiting.nextState, rfl⟩

private theorem visiting_start (current : machine.currentState = some state) (nuanced : machine.nuanceSemantics = nuance)
    (unset : machine.nextState = none) (going : machine.immediateExit = false) :
    Visiting definition nuance state [] machine [] := by
  refine ⟨current, nuanced, unset, ?_, trivial, ?_, rfl⟩
  · simp [going]
  · simp

theorem visit_spec (current : machine.currentState = some state) (nuanced : machine.nuanceSemantics = nuance)
    (unset : machine.nextState = none) (going : machine.immediateExit = false)
    (visited : visit definition behaviour visits machine = some (m, v)) : Visited definition nuance state m v := by
  have start : Visiting definition nuance state [] machine ([] : List (Call S F)) := visiting_start current nuanced unset going
  unfold visit at visited
  simp only [current, Option.bind_eq_bind, Option.bind_some] at visited
  obtain ⟨⟨m₁, calls₁⟩, first, visited⟩ := Option.bind_eq_some_iff.mp visited
  have one := callback_spec start going first
  by_cases broken : m₁.immediateExit = true
  · rw [if_pos broken] at visited
    cases visited
    exact visiting_broken one broken (by simp [callbacks])
  rw [if_neg broken] at visited
  obtain ⟨⟨m₂, calls₂⟩, second, visited⟩ := Option.bind_eq_some_iff.mp visited
  have two := callback_spec one (Bool.eq_false_of_not_eq_true broken) second
  by_cases broken : m₂.immediateExit = true
  · rw [if_pos broken] at visited
    cases visited
    exact visiting_broken two broken (by simp [callbacks])
  rw [if_neg broken] at visited
  obtain ⟨⟨m₃, calls₃⟩, third, visited⟩ := Option.bind_eq_some_iff.mp visited
  have three := callback_spec two (Bool.eq_false_of_not_eq_true broken) third
  by_cases broken : m₃.immediateExit = true
  · rw [if_pos broken] at visited
    cases visited
    exact visiting_broken three broken (by simp [callbacks])
  rw [if_neg broken] at visited
  obtain ⟨⟨m₄, calls₄⟩, fourth, visited⟩ := Option.bind_eq_some_iff.mp visited
  have four := callback_spec three (Bool.eq_false_of_not_eq_true broken) fourth
  cases visited
  apply visiting_through
  simpa [callbacks] using four

theorem visit_succeeds (current : machine.currentState = some state) (nuanced : machine.nuanceSemantics = nuance)
    (unset : machine.nextState = none) (going : machine.immediateExit = false)
    (safe : nuance = false ∨ ∀ visits calls func state, NamesStates (behaviour visits calls func state)) :
    ∃ m v, visit definition behaviour visits machine = some (m, v) := by
  have start : Visiting definition nuance state [] machine ([] : List (Call S F)) := visiting_start current nuanced unset going
  unfold visit
  simp only [current, Option.bind_eq_bind, Option.bind_some]
  obtain ⟨m₁, calls₁, first⟩ := callback_succeeds start safe
  have one := callback_spec start going first
  rw [first, Option.bind_some]
  by_cases broken : m₁.immediateExit = true
  · exact ⟨m₁, ⟨state, calls₁⟩, if_pos broken⟩
  obtain ⟨m₂, calls₂, second⟩ := callback_succeeds one safe
  have two := callback_spec one (Bool.eq_false_of_not_eq_true broken) second
  rw [if_neg broken, second, Option.bind_some]
  by_cases broken : m₂.immediateExit = true
  · exact ⟨m₂, ⟨state, calls₂⟩, if_pos broken⟩
  obtain ⟨m₃, calls₃, third⟩ := callback_succeeds two safe
  have three := callback_spec two (Bool.eq_false_of_not_eq_true broken) third
  rw [if_neg broken, third, Option.bind_some]
  by_cases broken : m₃.immediateExit = true
  · exact ⟨m₃, ⟨state, calls₃⟩, if_pos broken⟩
  obtain ⟨m₄, calls₄, fourth⟩ := callback_succeeds three safe
  rw [if_neg broken, fourth, Option.bind_some]
  exact ⟨{ m₄ with currentState := m₄.nextState, nextState := none }, ⟨state, calls₄⟩, rfl⟩

/-! ### The loop -/

variable {initialState : S} {turns : Nat}

theorem trace_append (trace : Trace definition nuance initialState visits) (disciplined : Disciplined definition nuance v)
    (first : visits = [] → v.state = initialState) (left : ∀ last ∈ visits.getLast?, LeftFor last v.state) :
    Trace definition nuance initialState (visits ++ [v]) := by
  constructor
  · intro w member
    rcases List.mem_append.mp member with earlier | latest
    · exact trace.disciplined w earlier
    · rw [List.mem_singleton.mp latest]
      exact disciplined
  · cases visits with
    | nil => simpa using first rfl
    | cons w rest => simpa using trace.starts
  · apply trace.follows.append (List.isChain_singleton v)
    simpa using left

/-- Between two turns: the last visit was left for the current state. -/
structure Between (definition : SStateMachineDefinition S K F) (nuance : Bool) (initialState : S) (visits : List (Visit S F))
    (machine : SStateMachine S) (state : S) : Prop where
  currentState : machine.currentState = some state
  nuanceSemantics : machine.nuanceSemantics = nuance
  nextState : machine.nextState = none
  immediateExit : machine.immediateExit = false
  trace : Trace definition nuance initialState visits
  first : visits = [] → state = initialState
  left : ∀ v ∈ visits.getLast?, LeftFor v state

/-- A turn adds a visit that is as it should be and, where the loop goes on, is left for
    the new current state. -/
theorem between_turn (between : Between definition nuance initialState visits machine state)
    (visited : visit definition behaviour visits machine = some (m, v)) :
    Trace definition nuance initialState (visits ++ [v]) ∧
      (m.immediateExit = true ∨ m.currentState = none ↔ (∃ c ∈ v.calls, Exits c) ∨ lastSet (actsOf v.calls) = none) ∧
      ∀ next, m.immediateExit = false → m.currentState = some next →
        Between definition nuance initialState (visits ++ [v]) m next := by
  have after := visit_spec between.currentState between.nuanceSemantics between.nextState between.immediateExit visited
  have trace : Trace definition nuance initialState (visits ++ [v]) := by
    apply trace_append between.trace after.disciplined
    · rw [after.state]
      exact between.first
    · rw [after.state]
      exact between.left
  refine ⟨trace, ?_, ?_⟩
  · by_cases broken : m.immediateExit = true
    · have exits := after.immediateExit.mp broken
      simp [broken, exits]
    · have quiet : ¬ ∃ c ∈ v.calls, Exits c := fun exits => broken (after.immediateExit.mpr exits)
      obtain ⟨current, _⟩ := after.goesOn (Bool.eq_false_of_not_eq_true broken)
      rw [current]
      simp [broken, quiet]
  · intro next going current
    obtain ⟨set, unset⟩ := after.goesOn going
    refine ⟨current, after.nuanceSemantics, unset, going, trace, ?_, ?_⟩
    · simp
    · have left : LeftFor v next := by
        refine ⟨?_, ?_⟩
        · intro c member exits
          rw [after.immediateExit.mpr ⟨c, member, exits⟩] at going
          cases going
        · rw [← set, current]
      simpa using left

private theorem between_open (between : Between definition nuance initialState visits machine state) :
    ¬ ∃ v ∈ visits.getLast?, (∃ c ∈ v.calls, Exits c) ∨ lastSet (actsOf v.calls) = none := by
  rintro ⟨v, last, ⟨c, member, exits⟩ | nothing⟩
  · exact (between.left v last).1 c member exits
  · rw [(between.left v last).2] at nothing
    cases nothing

private theorem turn_cases (m : SStateMachine S) :
    (∃ next, m.immediateExit = false ∧ m.currentState = some next ∧ (!m.immediateExit && m.currentState.isSome) = true) ∨
      ((m.immediateExit = true ∨ m.currentState = none) ∧ (!m.immediateExit && m.currentState.isSome) ≠ true) := by
  rcases m with ⟨_ | next, _, _ | _, _⟩
  · exact .inr ⟨.inr rfl, by simp⟩
  · exact .inr ⟨.inr rfl, by simp⟩
  · exact .inl ⟨next, rfl, rfl, rfl⟩
  · exact .inr ⟨.inl rfl, by simp⟩

theorem runLoop_orderly (between : Between definition nuance initialState visits machine state) :
    Orderly definition nuance initialState (visits.length + turns) (runLoop definition behaviour turns visits machine) := by
  induction turns generalizing visits machine state with
  | zero => exact ⟨between.trace, by simpa [runLoop] using between_open between, by simp [runLoop]⟩
  | succ turns ih =>
    rw [runLoop]
    cases visited : visit definition behaviour visits machine with
    | none => exact ⟨between.trace, by simpa using between_open between, by simp⟩
    | some result =>
      obtain ⟨m, v⟩ := result
      obtain ⟨trace, ends, onward⟩ := between_turn between visited
      rcases turn_cases m with ⟨next, going, current, again⟩ | ⟨ended, no_more⟩
      · have later := ih (onward next going current)
        simp only [List.length_append, List.length_singleton, Nat.add_assoc, Nat.add_comm 1] at later
        simpa only [if_pos again] using later
      · simp only [if_neg no_more]
        exact ⟨trace, by simpa using ends.mp ended, by simp⟩

private theorem runLoop_extends : visits <+: (runLoop definition behaviour turns visits machine).visits := by
  induction turns generalizing visits machine with
  | zero => exact List.prefix_refl visits
  | succ turns ih =>
    rw [runLoop]
    cases visited : visit definition behaviour visits machine with
    | none => exact List.prefix_refl visits
    | some result =>
      obtain ⟨m, v⟩ := result
      rcases turn_cases m with ⟨_, _, _, again⟩ | ⟨_, no_more⟩
      · simp only [if_pos again]
        exact (List.prefix_append visits [v]).trans ih
      · simp only [if_neg no_more]
        exact List.prefix_append visits [v]

/-- More turns only add visits, and none where the run is over. -/
theorem runLoop_more (more : Nat) :
    (runLoop definition behaviour turns visits machine).visits <+:
        (runLoop definition behaviour (turns + more) visits machine).visits ∧
      ((runLoop definition behaviour turns visits machine).outcome ≠ .unfinished →
        runLoop definition behaviour (turns + more) visits machine = runLoop definition behaviour turns visits machine) := by
  induction turns generalizing visits machine with
  | zero => exact ⟨runLoop_extends, by simp [runLoop]⟩
  | succ turns ih =>
    rw [Nat.add_right_comm, runLoop, runLoop]
    cases visited : visit definition behaviour visits machine with
    | none => simp
    | some result =>
      obtain ⟨m, v⟩ := result
      rcases turn_cases m with ⟨_, _, _, again⟩ | ⟨_, no_more⟩
      · simpa only [if_pos again] using ih
      · simp only [if_neg no_more]
        exact ⟨List.prefix_refl _, fun _ => trivial⟩

theorem runLoop_safe (between : Between definition nuance initialState visits machine state)
    (safe : nuance = false ∨ ∀ visits calls func state, NamesStates (behaviour visits calls func state)) :
    (runLoop definition behaviour turns visits machine).outcome ≠ .crashed := by
  induction turns generalizing visits machine state with
  | zero => simp [runLoop]
  | succ turns ih =>
    obtain ⟨m, v, visited⟩ : ∃ m v, visit definition behaviour visits machine = some (m, v) :=
      visit_succeeds between.currentState between.nuanceSemantics between.nextState between.immediateExit safe
    obtain ⟨_, _, onward⟩ := between_turn between visited
    rw [runLoop, visited]
    rcases turn_cases m with ⟨next, going, current, again⟩ | ⟨_, no_more⟩
    · simpa only [if_pos again] using ih (onward next going current)
    · simp only [if_neg no_more]
      exact Outcome.noConfusion

/-- Whatever the callbacks do: every visit makes the callbacks of its state in their order
    until one sets immediate exit, the next state is the one set last, with Nuance
    semantics the first, every later attempt being refused without a change, and the run
    returns exactly after a visit that set none or set immediate exit. Only `NULL` for a
    state, where one is set already under Nuance semantics, crashes it. -/
theorem run_discipline (definition : SStateMachineDefinition S K F) (behaviour : Behaviour S F) (machine : SStateMachine S)
    (initialState : S) (turns : Nat) :
    Orderly definition machine.nuanceSemantics initialState turns (run definition behaviour turns machine initialState) ∧
      (∀ more, (run definition behaviour turns machine initialState).visits <+:
          (run definition behaviour (turns + more) machine initialState).visits ∧
        ((run definition behaviour turns machine initialState).outcome ≠ .unfinished →
          run definition behaviour (turns + more) machine initialState = run definition behaviour turns machine initialState)) ∧
      (machine.nuanceSemantics = false ∨ (∀ visits calls func state, NamesStates (behaviour visits calls func state)) →
        (run definition behaviour turns machine initialState).outcome ≠ .crashed) ∧
      ∀ before nextState after error, setNextState definition before nextState = some (after, some error) → after = before := by
  have between : Between definition machine.nuanceSemantics initialState ([] : List (Visit S F))
      { machine with currentState := some initialState, nextState := none, immediateExit := false } initialState := by
    refine ⟨rfl, rfl, rfl, rfl, ⟨?_, ?_, List.isChain_nil⟩, fun _ => rfl, ?_⟩
    · simp
    · simp
    · simp
  refine ⟨?_, ?_, ?_, ?_⟩
  · have orderly : Orderly definition machine.nuanceSemantics initialState (0 + turns)
        (run definition behaviour turns machine initialState) := runLoop_orderly between
    rwa [Nat.zero_add] at orderly
  · intro more
    exact runLoop_more more
  · intro safe
    exact runLoop_safe between safe
  · intro before nextState after error refused
    obtain ⟨same, _⟩ := setNextState_spec refused
    exact same

end

/-- The state `false` tries to go on to `true` and, refused with Nuance semantics, to stay. -/
example : (run (S := Bool) (K := Unit) (F := Unit) ⟨fun _ => ⟨some (), some ()⟩, fun _ => ⟨lit "s", some (), none, some ()⟩⟩
    (fun _ calls _ state =>
      if state then .setImmediateExit .done
      else if calls = [] then .setNextState (some true) (fun _ => .setNextState (some false) (fun _ => .done)) else .done)
    9 ⟨none, none, true, true⟩ false).visits.map (fun v => (v.state, v.calls.map (·.place))) =
      [(false, [.classEntry, .stateExit, .classExit]), (true, [.classEntry])] := by decide

end VoxiUtil.StateMachineRuns
