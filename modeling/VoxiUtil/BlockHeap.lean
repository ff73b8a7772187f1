import Mathlib.Data.List.Infix

/-!
A memory whose blocks are numbered as they are allocated. A block that was given
back has no contents, and its number is not used again.
-/
namespace VoxiUtil.BlockHeap

variable {β : Type} {heap heap' : List (Option β)} {a b : Nat} {block : Option β}

/-- The contents of a block that is in use. -/
def lookup (heap : List (Option β)) (a : Nat) : Option β := heap[a]?.join

theorem lookup_lt {contents : β} (found : lookup heap a = some contents) : a < heap.length := by
  by_contra beyond
  rw [lookup, List.getElem?_eq_none (Nat.le_of_not_lt beyond)] at found
  cases found

@[simp]
theorem lookup_new (heap : List (Option β)) (block : Option β) (more : List (Option β)) :
    lookup (heap ++ block :: more) heap.length = block := by
  simp [lookup]

theorem set_new (heap : List (Option β)) (block other : Option β) (more : List (Option β)) :
    (heap ++ block :: more).set heap.length other = heap ++ other :: more := by
  simp

/-- What was there before is there in a memory that goes on from it. -/
theorem lookup_before (grown : heap <+: heap') (inside : a < heap.length) : lookup heap' a = lookup heap a := by
  obtain ⟨more, rfl⟩ := grown
  rw [lookup, List.getElem?_append_left inside, lookup]

theorem lookup_kept {contents : β} (grown : heap <+: heap') (found : lookup heap a = some contents) :
    lookup heap' a = some contents := by
  rw [lookup_before grown (lookup_lt found), found]

theorem lookup_set (inside : a < heap.length) : lookup (heap.set a block) a = block := by
  simp [lookup, inside]

theorem lookup_set_other (other : a ≠ b) : lookup (heap.set a block) b = lookup heap b := by
  simp [lookup, List.getElem?_set_ne other]

/-- A block that is given back stays so whatever else is. -/
theorem lookup_released (gone : lookup heap b = none) : lookup (heap.set a none) b = none := by
  by_cases same : a = b
  · subst same
    by_cases inside : a < heap.length
    · exact lookup_set inside
    · rwa [List.set_eq_of_length_le (Nat.le_of_not_lt inside)]
  · rwa [lookup_set_other same]

/-- Writing behind what was there before. -/
theorem prefix_set (grown : heap <+: heap') (behind : heap.length ≤ a) : heap <+: heap'.set a block := by
  obtain ⟨more, rfl⟩ := grown
  rw [List.set_append_right _ _ behind]
  exact List.prefix_append _ _

end VoxiUtil.BlockHeap
