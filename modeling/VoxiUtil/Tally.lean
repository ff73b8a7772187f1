import Mathlib.Data.Finset.Card
import Mathlib.Logic.Function.Basic

/-!
Counting the threads that are at some place of a program, when one thread moves at a
time. There may be any number of threads.
-/
namespace VoxiUtil.Tally
universe u v
variable {τ : Type u} {π : Type v}

/-- There are `n` threads at places of a kind. -/
def Count (place : τ → π) (kind : π → Prop) (n : Nat) : Prop :=
  ∃ threads : Finset τ, threads.card = n ∧ ∀ t, t ∈ threads ↔ kind (place t)

theorem count_none {place : τ → π} {kind : π → Prop} (none : ∀ t, ¬ kind (place t)) : Count place kind 0 :=
  ⟨∅, rfl, fun t => iff_of_false (by simp) (none t)⟩

section
variable {place : τ → π} {kind : π → Prop} {n : Nat} {t : τ} {next : π}

/-- A thread that is there. -/
theorem count_pos (count : Count place kind n) (here : kind (place t)) : 0 < n := by
  obtain ⟨threads, rfl, members⟩ := count
  exact Finset.card_pos.mpr ⟨t, (members t).mpr here⟩

variable [DecidableEq τ]

/-- A thread comes. -/
theorem count_enter (count : Count place kind n) (before : ¬ kind (place t)) (after : kind next) :
    Count (Function.update place t next) kind (n + 1) := by
  obtain ⟨threads, rfl, members⟩ := count
  have outside : t ∉ threads := fun inside => before ((members t).mp inside)
  refine ⟨insert t threads, Finset.card_insert_of_notMem outside, fun u => ?_⟩
  by_cases same : u = t
  · subst same
    simpa using after
  · rw [Function.update_of_ne same, Finset.mem_insert, members]
    exact or_iff_right same

/-- A thread leaves. -/
theorem count_leave (count : Count place kind n) (before : kind (place t)) (after : ¬ kind next) :
    Count (Function.update place t next) kind (n - 1) := by
  obtain ⟨threads, rfl, members⟩ := count
  refine ⟨threads.erase t, Finset.card_erase_of_mem ((members t).mpr before), fun u => ?_⟩
  by_cases same : u = t
  · subst same
    simpa using after
  · rw [Function.update_of_ne same, Finset.mem_erase, members]
    exact and_iff_right same

/-- A thread moves without coming or leaving. -/
theorem count_move (count : Count place kind n) (unchanged : kind (place t) ↔ kind next) :
    Count (Function.update place t next) kind n := by
  obtain ⟨threads, rfl, members⟩ := count
  refine ⟨threads, rfl, fun u => ?_⟩
  by_cases same : u = t
  · subst same
    rw [Function.update_self, members, unchanged]
  · rw [Function.update_of_ne same, members]

end

end VoxiUtil.Tally
