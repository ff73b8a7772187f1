import VoxiUtil.BlockHeap
import Mathlib.Data.List.Nodup
import Mathlib.Data.List.Perm.Basic

/-!
Who has the blocks of a memory. A ledger names each block in use once, and the rules
say what becomes of it when blocks are allocated, written and given back.
-/
namespace VoxiUtil.BlockHeap

variable {β : Type} {heap heap' heap'' : List (Option β)} {a b : Nat} {block : Option β} {contents : β}
  {freed freed' owned owned' old fresh : List Nat}

@[simp]
theorem lookup_second (heap : List (Option β)) (first second : Option β) (more : List (Option β)) :
    lookup (heap ++ first :: second :: more) (heap.length + 1) = second := by
  simp [lookup]

theorem set_second (heap : List (Option β)) (first second other : Option β) (more : List (Option β)) :
    (heap ++ first :: second :: more).set (heap.length + 1) other = heap ++ first :: other :: more := by
  simp

/-- These blocks were given back and the others are as they were. -/
def Freed (heap : List (Option β)) (freed : List Nat) (heap' : List (Option β)) : Prop :=
  ∀ a, lookup heap' a = if a ∈ freed then none else lookup heap a

theorem freed_lookup (gone : Freed heap freed heap') (other : a ∉ freed) : lookup heap' a = lookup heap a := by
  rw [gone a, if_neg other]

theorem freed_trans (first : Freed heap freed heap') (second : Freed heap' freed' heap'') :
    Freed heap (freed ++ freed') heap'' := by
  intro a
  rw [second a, first a]
  by_cases early : a ∈ freed <;> by_cases late : a ∈ freed' <;> simp [early, late]

theorem freed_perm (same : freed.Perm freed') (gone : Freed heap freed heap') : Freed heap freed' heap' := by
  intro a
  rw [gone a]
  simp [same.mem_iff]

theorem freed_set (found : lookup heap a = some contents) : Freed heap [a] (heap.set a none) := by
  intro b
  by_cases same : a = b
  · subst same
    simpa using lookup_set (lookup_lt found)
  · simp [lookup_set_other same, Ne.symm same]

/-- The blocks in use are these, each named once. -/
structure Owned (heap : List (Option β)) (owned : List Nat) : Prop where
  apart : owned.Nodup
  all : ∀ a, (lookup heap a).isSome ↔ a ∈ owned

theorem owned_nothing : Owned ([] : List (Option β)) [] :=
  ⟨List.nodup_nil, by simp [lookup]⟩

theorem owned_perm (same : owned.Perm owned') (holds : Owned heap owned) : Owned heap owned' :=
  ⟨same.nodup_iff.mp holds.apart, fun a => (holds.all a).trans same.mem_iff⟩

theorem owned_live (holds : Owned heap owned) (member : a ∈ owned) : ∃ contents, lookup heap a = some contents :=
  Option.isSome_iff_exists.mp ((holds.all a).mpr member)

theorem owned_lt (holds : Owned heap owned) (member : a ∈ owned) : a < heap.length := by
  obtain ⟨_, found⟩ := owned_live holds member
  exact lookup_lt found

/-- Nothing else is in use. -/
theorem owned_none (holds : Owned heap []) (a : Nat) : lookup heap a = none := by
  simpa using holds.all a

theorem owned_less (holds : Owned heap (freed ++ owned)) (gone : Freed heap freed heap') : Owned heap' owned := by
  obtain ⟨_, apart, disjoint⟩ := List.nodup_append.mp holds.apart
  refine ⟨apart, fun a => ?_⟩
  rw [gone a]
  by_cases member : a ∈ freed
  · simp only [member, if_true, Option.isSome_none, Bool.false_eq_true, false_iff]
    exact fun other => disjoint a member a other rfl
  · rw [if_neg member, holds.all a]
    simp [member]

/-- What is left after some blocks were given back is as it was. -/
theorem owned_kept (holds : Owned heap (freed ++ owned)) (gone : Freed heap freed heap') (member : a ∈ owned) :
    lookup heap' a = lookup heap a :=
  freed_lookup gone fun other => (List.nodup_append.mp holds.apart).2.2 a other a member rfl

/-- The blocks behind all that was in memory come to those from before. -/
theorem owned_more (holds : Owned heap owned) (grown : heap <+: heap') (apart : fresh.Nodup)
    (new : ∀ a, a ∈ fresh ↔ heap.length ≤ a ∧ (lookup heap' a).isSome) : Owned heap' (fresh ++ owned) := by
  refine ⟨List.nodup_append.mpr ⟨apart, holds.apart, ?_⟩, fun a => ?_⟩
  · rintro a behind _ member rfl
    exact absurd (owned_lt holds member) (Nat.not_lt_of_le ((new a).mp behind).1)
  · rw [List.mem_append, new]
    by_cases before : a < heap.length
    · rw [lookup_before grown before, holds.all a]
      simp [Nat.not_le_of_lt before]
    · have behind := Nat.le_of_not_lt before
      have other : a ∉ owned := fun member => before (owned_lt holds member)
      simp only [behind, other, true_and, or_false]

/-- Blocks that are allocated one after another. -/
theorem owned_all {more : List (Option β)} (holds : Owned heap owned) (present : ∀ block ∈ more, block.isSome) :
    Owned (heap ++ more) (List.range' heap.length more.length ++ owned) := by
  refine owned_more holds (List.prefix_append _ _) List.nodup_range' fun a => ?_
  rw [List.mem_range'_1]
  refine and_congr_right fun behind => ?_
  obtain ⟨i, rfl⟩ := Nat.exists_eq_add_of_le behind
  rw [lookup, List.getElem?_append_right behind, Nat.add_sub_cancel_left]
  by_cases inside : i < more.length
  · simpa [inside] using present _ (List.getElem_mem inside)
  · simp [inside]

/-- Blocks that were given back at once. -/
theorem owned_gone (holds : Owned heap owned) (count : Nat) : Owned (heap ++ List.replicate count none) owned := by
  have grown : heap <+: heap ++ List.replicate count none := List.prefix_append _ _
  refine @owned_more _ heap _ owned [] holds grown List.nodup_nil fun a => ?_
  simp only [List.not_mem_nil, false_iff, not_and]
  intro behind
  rw [lookup, List.getElem?_append_right behind, List.getElem?_replicate]
  split <;> simp

end VoxiUtil.BlockHeap
