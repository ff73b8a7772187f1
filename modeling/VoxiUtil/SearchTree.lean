import Mathlib.Data.List.Perm.Basic
import Mathlib.Data.Tree.Basic

/-!
Binary search trees for a comparison whose sign is the order. Elements that compare
as 0 need not be equal.
-/
namespace VoxiUtil.SearchTree
universe u
variable {β : Type u}

/-- The signs of a comparison are those of a strict order. -/
structure Lawful (compare : β → β → Int) : Prop where
  antisymm : ∀ a b, compare a b < 0 ↔ 0 < compare b a
  trans : ∀ a b c, compare a b < 0 → compare b c < 0 → compare a c < 0

/-- A total order on what elements stand for: those that compare as 0 stand for the same. -/
structure Weak (compare : β → β → Int) : Prop extends Lawful compare where
  zero_trans : ∀ a b c, compare a b = 0 → compare b c = 0 → compare a c = 0

/-- A total order: only equal elements compare as 0. -/
structure Total (compare : β → β → Int) : Prop extends Lawful compare where
  equal : ∀ a b, compare a b = 0 → a = b

theorem Total.self {compare : β → β → Int} (total : Total compare) (a : β) : compare a a = 0 := by
  have flipped := total.antisymm a a
  omega

theorem Total.weak {compare : β → β → Int} (total : Total compare) : Weak compare := by
  refine ⟨total.toLawful, fun a b c same also => ?_⟩
  rwa [total.equal a b same]

theorem Lawful.zero_symm {compare : β → β → Int} (lawful : Lawful compare) {a b : β} (same : compare a b = 0) :
    compare b a = 0 := by
  have less := lawful.antisymm a b
  have greater := lawful.antisymm b a
  omega

def inorder : BinaryTree β → List β
  | .nil => []
  | .node element left right => inorder left ++ element :: inorder right

/-- What is on the left of an element is less than it, and what is on its right is greater. -/
def Ordered (compare : β → β → Int) : BinaryTree β → Prop
  | .nil => True
  | .node element left right =>
    Ordered compare left ∧ Ordered compare right ∧ (∀ other ∈ inorder left, compare other element < 0) ∧
      ∀ other ∈ inorder right, compare element other < 0

/-- The element where the search ends that goes to the side given by a sign. -/
def search (side : β → Int) : BinaryTree β → Option β
  | .nil => none
  | .node element left right =>
    if side element < 0 then search side left else if 0 < side element then search side right else some element

/-- A new element at the leaf where the search ends. -/
def insert (side : β → Int) (new : β) : BinaryTree β → BinaryTree β
  | .nil => .node new .nil .nil
  | .node element left right =>
    if side element < 0 then .node element (insert side new left) right
    else if 0 < side element then .node element left (insert side new right)
    else .node element left right

section
variable {compare : β → β → Int} {side : β → Int} {t : BinaryTree β} {found : β}

@[simp] theorem inorder_nil : inorder (.nil : BinaryTree β) = [] := rfl

@[simp] theorem inorder_node (element : β) (left right : BinaryTree β) :
    inorder (.node element left right) = inorder left ++ element :: inorder right := rfl

@[simp] theorem inorder_length (t : BinaryTree β) : (inorder t).length = t.numNodes := by
  induction t with
  | nil => rfl
  | node element left right ihLeft ihRight =>
    simp [ihLeft, ihRight]
    omega

/-- The elements of an ordered tree in ascending order. -/
theorem ordered_pairwise (lawful : Lawful compare) (ordered : Ordered compare t) :
    (inorder t).Pairwise fun a b => compare a b < 0 := by
  induction t with
  | nil => exact List.Pairwise.nil
  | node element left right ihLeft ihRight =>
    obtain ⟨before, behind, less, greater⟩ := ordered
    rw [inorder_node, List.pairwise_append, List.pairwise_cons]
    refine ⟨ihLeft before, ⟨greater, ihRight behind⟩, ?_⟩
    intro a member b other
    rcases List.mem_cons.mp other with rfl | later
    · exact less a member
    · exact lawful.trans a element b (less a member) (greater b later)

theorem search_mem (done : search side t = some found) : found ∈ inorder t ∧ side found = 0 := by
  induction t with
  | nil => cases done
  | node element left right ihLeft ihRight =>
    unfold search at done
    by_cases less : side element < 0
    · rw [if_pos less] at done
      have deeper := ihLeft done
      simp [deeper]
    · rw [if_neg less] at done
      by_cases greater : 0 < side element
      · rw [if_pos greater] at done
        have deeper := ihRight done
        simp [deeper]
      · rw [if_neg greater] at done
        cases done
        constructor
        · simp
        · omega

/-- The search passes by none that it looks for. -/
theorem search_none (new : β) (lawful : Lawful compare) (ordered : Ordered compare t) (done : search (compare new) t = none) :
    ∀ other ∈ inorder t, compare new other ≠ 0 := by
  induction t with
  | nil => simp
  | node element left right ihLeft ihRight =>
    obtain ⟨before, behind, lesser, greater⟩ := ordered
    unfold search at done
    intro other member
    rw [inorder_node, List.mem_append, List.mem_cons] at member
    by_cases less : compare new element < 0
    · rw [if_pos less] at done
      rcases member with inLeft | rfl | inRight
      · exact ihLeft before done other inLeft
      · omega
      · have beyond := lawful.trans _ _ _ less (greater other inRight)
        omega
    · rw [if_neg less] at done
      by_cases more : 0 < compare new element
      · rw [if_pos more] at done
        rcases member with inLeft | rfl | inRight
        · have beyond := lawful.trans _ _ _ (lesser other inLeft) ((lawful.antisymm _ _).mpr more)
          have greater := (lawful.antisymm _ _).mp beyond
          omega
        · omega
        · exact ihRight behind done other inRight
      · rw [if_neg more] at done
        cases done

theorem insert_perm (new : β) (absent : search side t = none) : (inorder (insert side new t)).Perm (new :: inorder t) := by
  induction t with
  | nil => simp [insert]
  | node element left right ihLeft ihRight =>
    unfold search at absent
    unfold insert
    by_cases less : side element < 0
    · rw [if_pos less] at absent ⊢
      exact (ihLeft absent).append_right _
    · rw [if_neg less] at absent ⊢
      by_cases greater : 0 < side element
      · rw [if_pos greater] at absent ⊢
        calc
          (inorder left ++ element :: inorder (insert side new right)).Perm
              (inorder left ++ element :: new :: inorder right) := ((ihRight absent).cons element).append_left _
          _ |>.Perm (inorder left ++ new :: element :: inorder right) := (List.Perm.swap _ _ _).append_left _
          _ |>.Perm (new :: (inorder left ++ element :: inorder right)) := List.perm_middle
      · rw [if_neg greater] at absent
        cases absent

theorem insert_ordered (new : β) (lawful : Lawful compare) (ordered : Ordered compare t) (absent : search (compare new) t = none) :
    Ordered compare (insert (compare new) new t) := by
  induction t with
  | nil => simp [insert, Ordered]
  | node element left right ihLeft ihRight =>
    obtain ⟨before, behind, lesser, greater⟩ := ordered
    unfold search at absent
    unfold insert
    by_cases less : compare new element < 0
    · rw [if_pos less] at absent ⊢
      refine ⟨ihLeft before absent, behind, ?_, greater⟩
      intro other member
      rcases List.mem_cons.mp ((insert_perm new absent).mem_iff.mp member) with rfl | old
      · exact less
      · exact lesser other old
    · rw [if_neg less] at absent ⊢
      by_cases more : 0 < compare new element
      · rw [if_pos more] at absent ⊢
        refine ⟨before, ihRight behind absent, lesser, ?_⟩
        intro other member
        rcases List.mem_cons.mp ((insert_perm new absent).mem_iff.mp member) with rfl | old
        · exact (lawful.antisymm _ _).mpr more
        · exact greater other old
      · rw [if_neg more] at absent
        cases absent

end

end VoxiUtil.SearchTree
