import Mathlib.Logic.Function.Basic

/-!
Things that one thread has at a time, when one thread moves at a time.
-/
namespace VoxiUtil.Exclusion
universe u v
variable {τ : Type u} {π : Type v}

/-- The threads whose place has the thing: the holder, or none. -/
def HeldBy (has : π → Prop) (place : τ → π) (holder : Option τ) : Prop := ∀ t, has (place t) ↔ holder = some t

section
variable {has : π → Prop} {place : τ → π} {holder : Option τ} {t u : τ} {next : π}

theorem heldBy_unique (held : HeldBy has place holder) (one : has (place t)) (other : has (place u)) : t = u := by
  have first := (held t).mp one
  rw [(held u).mp other] at first
  exact (Option.some.inj first).symm

/-- While one thread has it, no other does. -/
theorem heldBy_apart (held : HeldBy has place holder) (one : has (place t)) (different : u ≠ t) : ¬ has (place u) := by
  intro other
  exact different (heldBy_unique held other one)

theorem heldBy_free (held : HeldBy has place none) : ¬ has (place t) := by
  intro one
  have some := (held t).mp one
  cases some

variable [DecidableEq τ]

theorem heldBy_take (held : HeldBy has place none) (after : has next) : HeldBy has (Function.update place t next) (some t) := by
  intro u
  by_cases same : u = t
  · subst same
    rw [Function.update_self]
    exact iff_of_true after rfl
  · rw [Function.update_of_ne same]
    refine iff_of_false (heldBy_free held) ?_
    intro equal
    exact same (Option.some.inj equal).symm

theorem heldBy_drop (held : HeldBy has place holder) (before : has (place t)) (after : ¬ has next) :
    HeldBy has (Function.update place t next) none := by
  intro u
  by_cases same : u = t
  · subst same
    rw [Function.update_self]
    exact iff_of_false after (by simp)
  · rw [Function.update_of_ne same]
    exact iff_of_false (heldBy_apart held before same) (by simp)

theorem heldBy_keep (held : HeldBy has place holder) (unchanged : has next ↔ has (place t)) :
    HeldBy has (Function.update place t next) holder := by
  intro u
  by_cases same : u = t
  · subst same
    rw [Function.update_self, unchanged]
    exact held u
  · rw [Function.update_of_ne same]
    exact held u

end

end VoxiUtil.Exclusion
