import Mathlib.Data.List.Nodup
import Mathlib.Logic.Function.Basic

/-!
Numbers handed out in order to threads, each of which gives its number back.
-/
namespace VoxiUtil.Tickets
universe u v
variable {τ : Type u} {κ : Type v}

/-- No two threads hold the same thing. -/
def Apart (holds : τ → Option κ) : Prop := ∀ t u k, holds t = some k → holds u = some k → t = u

/-- The first numbers up to `next`: one thread holds each of them, or it was given back once. -/
structure Issued (holds : τ → Option Nat) (back : List Nat) (next : Nat) : Prop where
  apart : Apart holds
  held : ∀ t k, holds t = some k → k < next ∧ k ∉ back
  given : ∀ k ∈ back, k < next
  once : back.Nodup
  whole : ∀ k < next, (∃ t, holds t = some k) ∨ k ∈ back

theorem issued_none {holds : τ → Option Nat} (none : ∀ t, holds t = none) : Issued holds [] 0 where
  apart := by
    intro t u k first
    rw [none t] at first
    cases first
  held := by
    intro t k first
    rw [none t] at first
    cases first
  given := by simp
  once := List.nodup_nil
  whole := by
    intro k below
    omega

section
variable [DecidableEq τ] {t : τ}

/-- A thread takes what no other thread holds. -/
theorem apart_take {holds : τ → Option κ} {k : κ} (apart : Apart holds) (free : ∀ u, holds u ≠ some k) :
    Apart (Function.update holds t (some k)) := by
  intro u w l first second
  by_cases left : u = t
  · by_cases right : w = t
    · exact left.trans right.symm
    · rw [left, Function.update_self] at first
      rw [Function.update_of_ne right, ← first] at second
      exact absurd second (free w)
  · rw [Function.update_of_ne left] at first
    by_cases right : w = t
    · rw [right, Function.update_self] at second
      rw [← second] at first
      exact absurd first (free u)
    · rw [Function.update_of_ne right] at second
      exact apart u w l first second

/-- A thread lets go of what it holds. -/
theorem apart_drop {holds : τ → Option κ} (apart : Apart holds) : Apart (Function.update holds t none) := by
  intro u w l first second
  by_cases left : u = t
  · rw [left, Function.update_self] at first
    cases first
  · by_cases right : w = t
    · rw [right, Function.update_self] at second
      cases second
    · rw [Function.update_of_ne left] at first
      rw [Function.update_of_ne right] at second
      exact apart u w l first second

variable {holds : τ → Option Nat} {back : List Nat} {next k : Nat}

omit [DecidableEq τ] in
/-- In which order the numbers were given back does not matter. -/
theorem issued_perm {other : List Nat} (issued : Issued holds back next) (same : back.Perm other) :
    Issued holds other next where
  apart := issued.apart
  held t k has := ⟨(issued.held t k has).1, fun member => (issued.held t k has).2 (same.mem_iff.mpr member)⟩
  given k member := issued.given k (same.mem_iff.mpr member)
  once := same.nodup_iff.mp issued.once
  whole k below := (issued.whole k below).imp id same.mem_iff.mp

omit [DecidableEq τ] in
/-- When no thread holds a number, all that were handed out are back. -/
theorem issued_all (issued : Issued holds back next) (none : ∀ t, holds t = none) : back.Perm (List.range next) := by
  refine (List.perm_ext_iff_of_nodup issued.once List.nodup_range).mpr fun k => ?_
  rw [List.mem_range]
  refine ⟨issued.given k, fun below => ?_⟩
  rcases issued.whole k below with ⟨t, has⟩ | member
  · rw [none t] at has
    cases has
  · exact member

/-- The next number is handed out. -/
theorem issued_take (issued : Issued holds back next) (empty : holds t = none) :
    Issued (Function.update holds t (some next)) back (next + 1) where
  apart := by
    apply apart_take issued.apart
    intro u same
    have below := (issued.held u next same).1
    omega
  held := by
    intro u k has
    by_cases mine : u = t
    · rw [mine, Function.update_self] at has
      cases has
      refine ⟨Nat.lt_succ_self next, fun member => ?_⟩
      have below := issued.given next member
      omega
    · rw [Function.update_of_ne mine] at has
      obtain ⟨below, out⟩ := issued.held u k has
      exact ⟨by omega, out⟩
  given := by
    intro k member
    have below := issued.given k member
    omega
  once := issued.once
  whole := by
    intro k below
    by_cases last : k = next
    · subst last
      exact .inl ⟨t, Function.update_self t _ holds⟩
    · rcases issued.whole k (by omega) with ⟨u, has⟩ | given
      · have other : u ≠ t := by
          rintro rfl
          rw [empty] at has
          cases has
        exact .inl ⟨u, by rw [Function.update_of_ne other, has]⟩
      · exact .inr given

/-- A number is given back. -/
theorem issued_give (issued : Issued holds back next) (has : holds t = some k) :
    Issued (Function.update holds t none) (back ++ [k]) next where
  apart := apart_drop issued.apart
  held := by
    intro u l other
    by_cases mine : u = t
    · rw [mine, Function.update_self] at other
      cases other
    · rw [Function.update_of_ne mine] at other
      obtain ⟨below, out⟩ := issued.held u l other
      refine ⟨below, fun member => ?_⟩
      rcases List.mem_append.mp member with earlier | last
      · exact out earlier
      · rw [List.mem_singleton.mp last] at other
        exact mine (issued.apart u t k other has)
  given := by
    intro l member
    rcases List.mem_append.mp member with earlier | last
    · exact issued.given l earlier
    · rw [List.mem_singleton.mp last]
      exact (issued.held t k has).1
  once := by
    apply List.Nodup.append issued.once (List.nodup_singleton k)
    intro l earlier last
    rw [List.mem_singleton.mp last] at earlier
    exact (issued.held t k has).2 earlier
  whole := by
    intro l below
    by_cases given : l = k
    · exact .inr (by simp [given])
    · rcases issued.whole l below with ⟨u, holding⟩ | earlier
      · have other : u ≠ t := by
          rintro rfl
          exact given (Option.some.inj (holding.symm.trans has))
        exact .inl ⟨u, by rw [Function.update_of_ne other, holding]⟩
      · exact .inr (List.mem_append_left _ earlier)

end

end VoxiUtil.Tickets
