import Mathlib.Logic.Function.Basic
import Mathlib.Data.List.Basic

/-!
Runs of a partial labelled step. A step gives `none` where the program would
fail; the label carries every choice of the environment, so a run is determined
by its labels.
-/
namespace VoxiUtil.Runs
universe u v w
variable {σ : Type u} {ℓ : Type v} {step : σ → ℓ → Option σ}

/-- An assertion of the program; what follows it is only run where it holds. -/
def assert (holds : Prop) [Decidable holds] : Option Unit := if holds then some () else none

@[simp] theorem assert_true {holds : Prop} [Decidable holds] (met : holds) : assert holds = some () := if_pos met

theorem assert_false {holds : Prop} [Decidable holds] (fails : ¬ holds) : assert holds = none := if_neg fails

@[simp] theorem assert_eq_some {holds : Prop} [Decidable holds] {u : Unit} : assert holds = some u ↔ holds := by
  simp [assert]

/-- The state after the steps of `labels`, when all of them succeed. -/
def run (step : σ → ℓ → Option σ) (s : σ) : List ℓ → Option σ
  | [] => some s
  | a :: rest => (step s a).bind (fun t => run step t rest)

/-- States that some run reaches from `init`. -/
def Reachable (step : σ → ℓ → Option σ) (init s : σ) : Prop := ∃ labels, run step init labels = some s

/-- Every step of the run is taken in a state that permits it. -/
def Guarded (step : σ → ℓ → Option σ) (permitted : σ → ℓ → Prop) : σ → List ℓ → Prop
  | _, [] => True
  | s, a :: rest => permitted s a ∧ ∀ t, step s a = some t → Guarded step permitted t rest

/-- Every state that the run passes, its first and its last included, satisfies `P`. -/
def Visits (step : σ → ℓ → Option σ) (P : σ → Prop) : σ → List ℓ → Prop
  | s, [] => P s
  | s, a :: rest => P s ∧ ∀ t, step s a = some t → Visits step P t rest

/-- Every step of the run can be taken and meets its contract. -/
def Meets (step : σ → ℓ → Option σ) (contract : σ → ℓ → σ → Prop) : σ → List ℓ → Prop
  | _, [] => True
  | s, a :: rest => ∃ t, step s a = some t ∧ contract s a t ∧ Meets step contract t rest

/-- What the steps of the run put out, one after the other. -/
def outputs {α : Type w} (step : σ → ℓ → Option σ) (out : σ → ℓ → List α) : σ → List ℓ → List α
  | _, [] => []
  | s, a :: rest => out s a ++ match step s a with
    | some t => outputs step out t rest
    | none => []

@[simp] theorem run_nil (s : σ) : run step s [] = some s := rfl

theorem run_cons {s t : σ} {a : ℓ} {rest : List ℓ} :
    run step s (a :: rest) = some t ↔ ∃ m, step s a = some m ∧ run step m rest = some t := by
  simp [run, Option.bind_eq_some_iff]

theorem run_append {s t : σ} {first second : List ℓ} :
    run step s (first ++ second) = some t ↔ ∃ m, run step s first = some m ∧ run step m second = some t := by
  induction first generalizing s with
  | nil => simp
  | cons a rest ih =>
    simp only [List.cons_append, run_cons, ih]
    constructor
    · rintro ⟨m, stepped, middle, ran, further⟩
      exact ⟨middle, ⟨m, stepped, ran⟩, further⟩
    · rintro ⟨middle, ⟨m, stepped, ran⟩, further⟩
      exact ⟨m, stepped, middle, ran, further⟩

/-- The rule of invariants for a run whose steps are all permitted. -/
theorem guarded_run {permitted : σ → ℓ → Prop} (Inv : σ → Prop)
    (preserved : ∀ s a t, Inv s → permitted s a → step s a = some t → Inv t)
    {s t : σ} {labels : List ℓ} (start : Inv s) (guarded : Guarded step permitted s labels)
    (ran : run step s labels = some t) : Inv t := by
  induction labels generalizing s with
  | nil => cases ran; exact start
  | cons a rest ih =>
    obtain ⟨m, stepped, remaining⟩ := run_cons.mp ran
    exact ih (preserved s a m start guarded.1 stepped) (guarded.2 m stepped) remaining

/-- The rule of invariants for the states on the way. -/
theorem guarded_visits {permitted : σ → ℓ → Prop} {Inv : σ → Prop}
    (preserved : ∀ s a t, Inv s → permitted s a → step s a = some t → Inv t)
    {s : σ} {labels : List ℓ} (start : Inv s) (guarded : Guarded step permitted s labels) : Visits step Inv s labels := by
  induction labels generalizing s with
  | nil => exact start
  | cons a rest ih =>
    exact ⟨start, fun t stepped => ih (preserved s a t start guarded.1 stepped) (guarded.2 t stepped)⟩

theorem visits_mono {P Q : σ → Prop} (weaken : ∀ s, P s → Q s) {s : σ} {labels : List ℓ}
    (visits : Visits step P s labels) : Visits step Q s labels := by
  induction labels generalizing s with
  | nil => exact weaken s visits
  | cons a rest ih => exact ⟨weaken s visits.1, fun t stepped => ih (visits.2 t stepped)⟩

/-- The last state is one of those on the way. -/
theorem visits_last {P : σ → Prop} {s t : σ} {labels : List ℓ} (visits : Visits step P s labels) (ran : run step s labels = some t) :
    P t := by
  induction labels generalizing s with
  | nil => cases ran; exact visits
  | cons a rest ih =>
    obtain ⟨m, stepped, remaining⟩ := run_cons.mp ran
    exact ih (visits.2 m stepped) remaining

/-- A condition that the labels meet in every state. -/
theorem guarded_forall {permitted : σ → ℓ → Prop} {s : σ} {labels : List ℓ}
    (always : ∀ a ∈ labels, ∀ m, permitted m a) : Guarded step permitted s labels := by
  induction labels generalizing s with
  | nil => trivial
  | cons a rest ih => exact ⟨always a (by simp) s, fun _ _ => ih (fun b member => always b (by simp [member]))⟩

/-- Two conditions that agree in the states of a run are met by the same runs. -/
theorem guarded_congr {P Q : σ → ℓ → Prop} (Inv : σ → Prop) (preserved : ∀ s a t, Inv s → step s a = some t → Inv t)
    (agree : ∀ s a, Inv s → (P s a ↔ Q s a)) {s : σ} {labels : List ℓ} (start : Inv s) :
    Guarded step P s labels ↔ Guarded step Q s labels := by
  induction labels generalizing s with
  | nil => exact Iff.rfl
  | cons a rest ih =>
    simp only [Guarded, agree s a start]
    refine and_congr_right fun _ => forall_congr' fun t => ?_
    exact forall_congr' fun stepped => ih (preserved s a t start stepped)

/-- Where the first forbidden step breaks `P`, a run keeps `P` just when all of its
    steps are permitted. -/
theorem visits_iff_guarded {assumed permitted : σ → ℓ → Prop} {Inv P : σ → Prop}
    (preserved : ∀ s a t, assumed s a → Inv s → permitted s a → step s a = some t → Inv t) (sound : ∀ s, Inv s → P s)
    (broken : ∀ s a t, assumed s a → Inv s → ¬ permitted s a → step s a = some t → ¬ P t)
    {s t : σ} {labels : List ℓ} (assumption : Guarded step assumed s labels) (start : Inv s)
    (ran : run step s labels = some t) : Visits step P s labels ↔ Guarded step permitted s labels := by
  induction labels generalizing s with
  | nil => exact ⟨fun _ => trivial, fun _ => sound s start⟩
  | cons a rest ih =>
    obtain ⟨m, stepped, remaining⟩ := run_cons.mp ran
    have others := assumption.2 m stepped
    have only : ∀ t, step s a = some t → t = m := fun t again => Option.some.inj (again.symm.trans stepped)
    constructor
    · rintro ⟨_, visits⟩
      have good : P m := by
        have tail := visits m stepped
        cases rest with
        | nil => exact tail
        | cons b more => exact tail.1
      have allowed : permitted s a := by
        by_contra forbidden
        exact broken s a m assumption.1 start forbidden stepped good
      have kept := preserved s a m assumption.1 start allowed stepped
      exact ⟨allowed, fun t again => only t again ▸ (ih others kept remaining).mp (visits m stepped)⟩
    · rintro ⟨allowed, guarded⟩
      have kept := preserved s a m assumption.1 start allowed stepped
      exact ⟨sound s start, fun t again => only t again ▸ (ih others kept remaining).mpr (guarded m stepped)⟩

/-- The rule of invariants for every run. -/
theorem run_invariant {Inv : σ → Prop} (preserved : ∀ s a t, Inv s → step s a = some t → Inv t)
    {s t : σ} {labels : List ℓ} (start : Inv s) (ran : run step s labels = some t) : Inv t := by
  induction labels generalizing s with
  | nil => cases ran; exact start
  | cons a rest ih =>
    obtain ⟨m, stepped, remaining⟩ := run_cons.mp ran
    exact ih (preserved s a m start stepped) remaining

/-- A permitted step in front of permitted ones. -/
theorem guarded_step {permitted : σ → ℓ → Prop} {s t : σ} {a : ℓ} {rest : List ℓ} (allowed : permitted s a)
    (stepped : step s a = some t) (later : Guarded step permitted t rest) : Guarded step permitted s (a :: rest) := by
  refine ⟨allowed, fun m again => ?_⟩
  rw [stepped] at again
  cases again
  exact later

/-- A permitted step in front of a run. -/
theorem guarded_cons {permitted : σ → ℓ → Prop} {s t : σ} {a : ℓ} {rest : List ℓ} {u : Option σ} (allowed : permitted s a)
    (stepped : step s a = some t) (later : Guarded step permitted t rest ∧ run step t rest = u) :
    Guarded step permitted s (a :: rest) ∧ run step s (a :: rest) = u := by
  refine ⟨guarded_step allowed stepped later.1, ?_⟩
  rw [run, stepped, Option.bind_some]
  exact later.2

/-- A run of permitted steps in front of another. -/
theorem guarded_append {permitted : σ → ℓ → Prop} {s t : σ} {first later : List ℓ} {u : Option σ}
    (one : Guarded step permitted s first ∧ run step s first = some t)
    (other : Guarded step permitted t later ∧ run step t later = u) :
    Guarded step permitted s (first ++ later) ∧ run step s (first ++ later) = u := by
  induction first generalizing s with
  | nil =>
    cases one.2
    exact other
  | cons a rest ih =>
    obtain ⟨m, stepped, remaining⟩ := run_cons.mp one.2
    exact guarded_cons one.1.1 stepped (ih ⟨one.1.2 m stepped, remaining⟩)

/-- A run that looks on its way whether each step is permitted. -/
def checkedRun (step : σ → ℓ → Option σ) (permitted : σ → ℓ → Prop) [∀ s a, Decidable (permitted s a)] (s : σ) :
    List ℓ → Option σ
  | [] => some s
  | a :: rest => if permitted s a then (step s a).bind fun t => checkedRun step permitted t rest else none

theorem checkedRun_some {permitted : σ → ℓ → Prop} [∀ s a, Decidable (permitted s a)] {s t : σ} {labels : List ℓ}
    (ran : checkedRun step permitted s labels = some t) : Guarded step permitted s labels ∧ run step s labels = some t := by
  induction labels generalizing s with
  | nil => exact ⟨trivial, ran⟩
  | cons a rest ih =>
    unfold checkedRun at ran
    by_cases allowed : permitted s a
    · rw [if_pos allowed] at ran
      obtain ⟨m, stepped, later⟩ := Option.bind_eq_some_iff.mp ran
      exact guarded_cons allowed stepped (ih later)
    · rw [if_neg allowed] at ran
      cases ran

/-- A run whose steps can be taken wherever they are permitted. -/
theorem guarded_total {permitted : σ → ℓ → Prop} {Inv : σ → Prop}
    (each : ∀ s a, Inv s → permitted s a → ∃ t, step s a = some t ∧ Inv t) {s : σ} {labels : List ℓ} (start : Inv s)
    (guarded : Guarded step permitted s labels) : ∃ t, run step s labels = some t ∧ Inv t := by
  induction labels generalizing s with
  | nil => exact ⟨s, rfl, start⟩
  | cons a rest ih =>
    obtain ⟨m, stepped, kept⟩ := each s a start guarded.1
    obtain ⟨t, ran, held⟩ := ih kept (guarded.2 m stepped)
    exact ⟨t, run_cons.mpr ⟨m, stepped, ran⟩, held⟩

/-- The rule of contracts: an invariant that makes every permitted step meet its contract. -/
theorem guarded_meets {permitted : σ → ℓ → Prop} {contract : σ → ℓ → σ → Prop} {Inv : σ → Prop}
    (each : ∀ s a, Inv s → permitted s a → ∃ t, step s a = some t ∧ Inv t ∧ contract s a t) {s : σ} {labels : List ℓ}
    (start : Inv s) (guarded : Guarded step permitted s labels) : Meets step contract s labels := by
  induction labels generalizing s with
  | nil => trivial
  | cons a rest ih =>
    obtain ⟨t, stepped, kept, met⟩ := each s a start guarded.1
    exact ⟨t, stepped, met, ih kept (guarded.2 t stepped)⟩

/-- Steps that meet their contracts make a run. -/
theorem meets_run {contract : σ → ℓ → σ → Prop} {s : σ} {labels : List ℓ} (meets : Meets step contract s labels) :
    ∃ t, run step s labels = some t := by
  induction labels generalizing s with
  | nil => exact ⟨s, rfl⟩
  | cons a rest ih =>
    obtain ⟨m, stepped, _, more⟩ := meets
    obtain ⟨t, ran⟩ := ih more
    exact ⟨t, run_cons.mpr ⟨m, stepped, ran⟩⟩

/-- Where the first forbidden step breaks its contract, a run meets the contracts just when
    all of its steps are permitted. -/
theorem meets_iff_guarded {assumed permitted : σ → ℓ → Prop} {contract : σ → ℓ → σ → Prop} {Inv : σ → Prop}
    (each : ∀ s a t, assumed s a → Inv s → permitted s a → step s a = some t → Inv t ∧ contract s a t)
    (broken : ∀ s a t, assumed s a → Inv s → ¬ permitted s a → step s a = some t → ¬ contract s a t)
    {s t : σ} {labels : List ℓ} (assumption : Guarded step assumed s labels) (start : Inv s)
    (ran : run step s labels = some t) : Meets step contract s labels ↔ Guarded step permitted s labels := by
  induction labels generalizing s with
  | nil => exact iff_of_true trivial trivial
  | cons a rest ih =>
    obtain ⟨m, stepped, remaining⟩ := run_cons.mp ran
    have others := assumption.2 m stepped
    constructor
    · rintro ⟨t, again, met, more⟩
      cases again.symm.trans stepped
      have allowed : permitted s a := by
        by_contra forbidden
        exact broken s a m assumption.1 start forbidden stepped met
      exact guarded_step allowed stepped ((ih others (each s a m assumption.1 start allowed stepped).1 remaining).mp more)
    · rintro ⟨allowed, guarded⟩
      obtain ⟨kept, met⟩ := each s a m assumption.1 start allowed stepped
      exact ⟨m, stepped, met, (ih others kept remaining).mpr (guarded m stepped)⟩

/-- Where a step that is not permitted fails or breaks the contract, a run meets it just when its steps are permitted. -/
theorem meets_iff_total {assumed permitted : σ → ℓ → Prop} {contract : σ → ℓ → σ → Prop} {Inv : σ → Prop}
    (each : ∀ s a, Inv s → assumed s a → permitted s a → ∃ t, step s a = some t ∧ Inv t ∧ contract s a t)
    (broken : ∀ s a t, Inv s → assumed s a → ¬ permitted s a → step s a = some t → ¬ contract s a t) {s : σ} {labels : List ℓ}
    (start : Inv s) (assumption : Guarded step assumed s labels) : Meets step contract s labels ↔ Guarded step permitted s labels := by
  induction labels generalizing s with
  | nil => exact iff_of_true trivial trivial
  | cons a rest ih =>
    by_cases allowed : permitted s a
    · obtain ⟨m, stepped, kept, met⟩ := each s a start assumption.1 allowed
      have later := ih kept (assumption.2 m stepped)
      constructor
      · rintro ⟨t, again, _, more⟩
        cases again.symm.trans stepped
        exact guarded_step allowed stepped (later.mp more)
      · rintro ⟨_, guarded⟩
        exact ⟨m, stepped, met, later.mpr (guarded m stepped)⟩
    · refine iff_of_false ?_ fun guarded => allowed guarded.1
      rintro ⟨t, stepped, met, _⟩
      exact broken s a t start assumption.1 allowed stepped met

/-- Where a step can be taken just when it is permitted, so can a run. -/
theorem total_iff_guarded {assumed permitted : σ → ℓ → Prop} {Inv : σ → Prop}
    (preserved : ∀ s a t, Inv s → step s a = some t → Inv t)
    (each : ∀ s a, Inv s → assumed s a → ((step s a).isSome ↔ permitted s a)) {s : σ} {labels : List ℓ} (start : Inv s)
    (assumption : Guarded step assumed s labels) : (run step s labels).isSome ↔ Guarded step permitted s labels := by
  induction labels generalizing s with
  | nil => simp [Guarded]
  | cons a rest ih =>
    rw [Guarded, ← each s a start assumption.1, run]
    cases stepped : step s a with
    | none => simp
    | some m =>
      rw [Option.bind_some, ih (preserved s a m start stepped) (assumption.2 m stepped)]
      simp

theorem run_total {Inv : σ → Prop} {allowed : ℓ → Prop} (each : ∀ s a, Inv s → allowed a → ∃ t, step s a = some t ∧ Inv t)
    {s : σ} {labels : List ℓ} (start : Inv s) (all : ∀ a ∈ labels, allowed a) : ∃ t, run step s labels = some t ∧ Inv t :=
  guarded_total each start (guarded_forall fun a member _ => all a member)

/-- A count that each step moves on by what its label weighs. -/
theorem run_counts (view : σ → Nat) (weighs : ℓ → Bool) {s t : σ} {labels : List ℓ}
    (each : ∀ s a t, step s a = some t → view t = view s + (weighs a).toNat) (ran : run step s labels = some t) :
    view t = view s + labels.countP weighs := by
  induction labels generalizing s with
  | nil => cases ran; rfl
  | cons a rest ih =>
    obtain ⟨m, stepped, later⟩ := run_cons.mp ran
    rw [ih later, each s a m stepped, List.countP_cons, Nat.add_assoc, Nat.add_comm (weighs a).toNat]
    cases weighs a <;> rfl

/-- The rule of simulation: a run goes along with a fold over its labels just as long as its
    steps are permitted, when it has no other outcome. -/
theorem simulates_iff_guarded {β : Type w} {R P : σ → β → Prop} {spec : β → ℓ → β} {assumed permitted : σ → ℓ → Prop}
    (each : ∀ s b a, R s b → assumed s a → permitted s a → ∃ t, step s a = some t ∧ R t (spec b a))
    (stuck : ∀ s b a, R s b → assumed s a → ¬ permitted s a → step s a = none) (sound : ∀ s b, R s b → P s b)
    {s : σ} {b : β} {labels : List ℓ} (start : R s b) (assumption : Guarded step assumed s labels) :
    (∃ t, run step s labels = some t ∧ P t (labels.foldl spec b)) ↔ Guarded step permitted s labels := by
  induction labels generalizing s b with
  | nil => exact ⟨fun _ => trivial, fun _ => ⟨s, rfl, sound s b start⟩⟩
  | cons a rest ih =>
    by_cases allowed : permitted s a
    · obtain ⟨m, stepped, kept⟩ := each s b a start assumption.1 allowed
      have later := ih kept (assumption.2 m stepped)
      rw [List.foldl_cons, run, stepped, Option.bind_some, later]
      refine ⟨fun guarded => guarded_step allowed stepped guarded, fun guarded => guarded.2 m stepped⟩
    · constructor
      · rintro ⟨t, ran, -⟩
        rw [run, stuck s b a start assumption.1 allowed, Option.bind_none] at ran
        cases ran
      · exact fun guarded => absurd guarded.1 allowed

/-- A run whose steps each append something of their own to what is seen of the state. -/
theorem run_emits {α : Type w} {Inv : σ → Prop} (view : σ → List α) (out : ℓ → List α) {allowed : ℓ → Prop}
    (each : ∀ s a, Inv s → allowed a → ∃ t, step s a = some t ∧ Inv t ∧ view t = view s ++ out a)
    {s : σ} {labels : List ℓ} (start : Inv s) (all : ∀ a ∈ labels, allowed a) :
    ∃ t, run step s labels = some t ∧ Inv t ∧ view t = view s ++ labels.flatMap out := by
  induction labels generalizing s with
  | nil => exact ⟨s, rfl, start, by simp⟩
  | cons a rest ih =>
    obtain ⟨m, stepped, kept, seen⟩ := each s a start (all a List.mem_cons_self)
    obtain ⟨t, ran, held, more⟩ := ih kept fun b member => all b (List.mem_cons_of_mem a member)
    refine ⟨t, run_cons.mpr ⟨m, stepped, ran⟩, held, ?_⟩
    rw [more, seen, List.flatMap_cons, List.append_assoc]

/-- What a state has recorded is what the steps of the run put out, when each step records its own. -/
theorem run_outputs {α : Type w} {permitted : σ → ℓ → Prop} {Inv : σ → Prop} {out : σ → ℓ → List α} (view : σ → List α)
    (each : ∀ s a t, Inv s → permitted s a → step s a = some t → Inv t ∧ view t = view s ++ out s a)
    {s t : σ} {labels : List ℓ} (start : Inv s) (guarded : Guarded step permitted s labels)
    (ran : run step s labels = some t) : view t = view s ++ outputs step out s labels := by
  induction labels generalizing s with
  | nil => cases ran; simp [outputs]
  | cons a rest ih =>
    obtain ⟨m, stepped, remaining⟩ := run_cons.mp ran
    obtain ⟨kept, records⟩ := each s a m start guarded.1 stepped
    rw [ih kept (guarded.2 m stepped) remaining, records, outputs, stepped, List.append_assoc]

/-- A property of the outcome, when each step adds a condition of its own to it. -/
theorem property_iff_guarded {permitted : σ → ℓ → Prop} {Inv P : σ → Prop}
    (preserved : ∀ s a t, Inv s → step s a = some t → Inv t)
    (exact : ∀ s a t, Inv s → step s a = some t → (P t ↔ P s ∧ permitted s a)) {s t : σ} {labels : List ℓ}
    (start : Inv s) (ran : run step s labels = some t) : P t ↔ P s ∧ Guarded step permitted s labels := by
  induction labels generalizing s with
  | nil => cases ran; exact (and_iff_left trivial).symm
  | cons a rest ih =>
    obtain ⟨m, stepped, remaining⟩ := run_cons.mp ran
    rw [ih (preserved s a m start stepped) remaining, exact s a m start stepped, and_assoc]
    have only : (∀ t, step s a = some t → Guarded step permitted t rest) ↔ Guarded step permitted m rest :=
      ⟨fun all => all m stepped, fun one t again => Option.some.inj (stepped.symm.trans again) ▸ one⟩
    rw [Guarded, only]

theorem reachable_invariant {Inv : σ → Prop} {init s : σ} (start : Inv init)
    (preserved : ∀ s a t, Inv s → step s a = some t → Inv t) (reached : Reachable step init s) : Inv s :=
  let ⟨_, ran⟩ := reached
  run_invariant preserved start ran

end VoxiUtil.Runs
