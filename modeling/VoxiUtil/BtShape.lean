import VoxiUtil.Bt
import VoxiUtil.SearchTree

/-!
The heap of a tree of `bt.c` as a search tree of its nodes: every link goes to the
root of a subtree, and every node has the father and the direction of the link that
leads to it.
-/
namespace VoxiUtil.BtShape
open VoxiUtil.Bt
open VoxiUtil.SearchTree
variable {α : Type}

/-- A pointer to the nodes of a tree, from this father in this direction. An element of the tree
    is the address of its node and the value. -/
def Shape (nodes : Nat → Option (Node α)) : Option Nat → Direction → Option Nat → BinaryTree (Nat × α) → Prop
  | _, _, root, .nil => root = none
  | father, direction, root, .node (address, value) left right =>
    root = some address ∧ ∃ cur, nodes address = some cur ∧ cur.value = value ∧ cur.father = father ∧
      cur.direction = direction ∧ Shape nodes (some address) .left cur.left left ∧
      Shape nodes (some address) .right cur.right right

def addresses (t : BinaryTree (Nat × α)) : List Nat := (inorder t).map Prod.fst

/-- Where the search ends: the father of what would be there, and the direction from it. -/
def leafOf (side : Nat × α → Int) : Option Nat → Direction → BinaryTree (Nat × α) → Option Nat × Direction
  | father, direction, .nil => (father, direction)
  | _, _, .node (address, value) left right =>
    if side (address, value) < 0 then leafOf side (some address) .left left
    else if 0 < side (address, value) then leafOf side (some address) .right right
    else (some address, .none)

section
variable {compare : α → α → Int} {side : Nat × α → Int} {nodes nodes' : Nat → Option (Node α)} {father root : Option Nat}
  {direction : Direction} {t left right : BinaryTree (Nat × α)} {value key : α} {new address turns : Nat}

@[simp] theorem addresses_nil : addresses (.nil : BinaryTree (Nat × α)) = [] := rfl

@[simp] theorem addresses_node (element : Nat × α) (left right : BinaryTree (Nat × α)) :
    addresses (.node element left right) = addresses left ++ element.1 :: addresses right := by
  simp [addresses]

theorem shape_frame (same : ∀ a ∈ addresses t, nodes' a = nodes a) (shape : Shape nodes father direction root t) :
    Shape nodes' father direction root t := by
  induction t generalizing father direction root with
  | nil => exact shape
  | node element left right ihLeft ihRight =>
    obtain ⟨address, value⟩ := element
    obtain ⟨rfl, cur, here, rfl, rfl, rfl, before, behind⟩ := shape
    have agree : ∀ a, a ∈ addresses left ∨ a = address ∨ a ∈ addresses right → nodes' a = nodes a := by
      intro a member
      exact same a (by simpa using member)
    refine ⟨rfl, cur, (agree _ (.inr (.inl rfl))).trans here, rfl, rfl, rfl, ?_, ?_⟩
    · exact ihLeft (fun a member => agree a (.inl member)) before
    · exact ihRight (fun a member => agree a (.inr (.inr member))) behind

theorem leaf_mem (filled : t ≠ .nil) (side : Nat × α → Int) (father : Option Nat) (direction : Direction) :
    ∃ a ∈ addresses t, (leafOf side father direction t).1 = some a := by
  induction t generalizing father direction with
  | nil => exact absurd rfl filled
  | node element left right ihLeft ihRight =>
    unfold leafOf
    by_cases less : side element < 0
    · rw [if_pos less]
      cases left with
      | nil => exact ⟨element.1, by simp, rfl⟩
      | node other before behind =>
        obtain ⟨a, member, found⟩ := ihLeft (by simp) (some element.1) .left
        exact ⟨a, by rw [addresses_node]; exact List.mem_append_left _ member, found⟩
    · rw [if_neg less]
      by_cases greater : 0 < side element
      · rw [if_pos greater]
        cases right with
        | nil => exact ⟨element.1, by simp, rfl⟩
        | node other before behind =>
          obtain ⟨a, member, found⟩ := ihRight (by simp) (some element.1) .right
          exact ⟨a, by rw [addresses_node]; exact List.mem_append_right _ (List.mem_cons_of_mem _ member), found⟩
      · rw [if_neg greater]
        exact ⟨element.1, by simp, rfl⟩

/-! ### The loops down the tree -/

theorem descend_shape (shape : Shape nodes father direction root t) (enough : t.height < turns) :
    descend compare nodes value turns root father direction =
      some (match search (fun element => compare value element.2) t with
        | some _ => none
        | none => some (leafOf (fun element => compare value element.2) father direction t)) := by
  induction t generalizing father direction root turns with
  | nil =>
    cases turns with
    | zero => exact absurd enough (Nat.not_lt_zero _)
    | succ turns =>
      obtain rfl : root = none := shape
      rfl
  | node element left right ihLeft ihRight =>
    cases turns with
    | zero => exact absurd enough (Nat.not_lt_zero _)
    | succ turns =>
      obtain ⟨address, here⟩ := element
      obtain ⟨rfl, cur, found, rfl, -, -, before, behind⟩ := shape
      rw [BinaryTree.height] at enough
      have notLower : left.height < turns := by omega
      have notHigher : right.height < turns := by omega
      have lower := ihLeft before notLower
      have higher := ihRight behind notHigher
      simp only [descend, found, search, leafOf, Option.bind_eq_bind, Option.bind_some]
      by_cases less : compare value cur.value < 0
      · simp only [if_pos less, lower]
      · simp only [if_neg less]
        by_cases greater : 0 < compare value cur.value
        · simp only [if_pos greater, higher]
        · simp only [if_neg greater]

theorem nodefind_shape (shape : Shape nodes father direction root t) (enough : t.height < turns) :
    btNodefind compare nodes key turns root = some ((search (fun element => compare key element.2) t).map Prod.snd) := by
  induction t generalizing father direction root turns with
  | nil =>
    cases turns with
    | zero => exact absurd enough (Nat.not_lt_zero _)
    | succ turns =>
      obtain rfl : root = none := shape
      rfl
  | node element left right ihLeft ihRight =>
    cases turns with
    | zero => exact absurd enough (Nat.not_lt_zero _)
    | succ turns =>
      obtain ⟨address, here⟩ := element
      obtain ⟨rfl, cur, found, rfl, -, -, before, behind⟩ := shape
      rw [BinaryTree.height] at enough
      have notLower : left.height < turns := by omega
      have notHigher : right.height < turns := by omega
      have lower := ihLeft before notLower
      have higher := ihRight behind notHigher
      simp only [btNodefind, found, search, Option.bind_eq_bind, Option.bind_some]
      by_cases less : compare key cur.value < 0
      · have other : ¬ compare key cur.value = 0 := by omega
        simp only [if_neg other, if_pos less, lower]
      · by_cases greater : 0 < compare key cur.value
        · have other : ¬ compare key cur.value = 0 := by omega
          simp only [if_neg other, if_neg less, if_pos greater, higher]
        · have same : compare key cur.value = 0 := by omega
          simp only [if_pos same, if_neg less, if_neg greater, Option.map_some]

/-! ### A new leaf -/

theorem attach_other {a : Nat} (old : a ≠ new) (other : father ≠ some a) : attach nodes new value father direction a = nodes a := by
  cases father with
  | none => exact Function.update_of_ne old _ _
  | some node =>
    have apart : a ≠ node := fun same => other (congrArg some same.symm)
    rw [attach, Function.update_of_ne apart, Function.update_of_ne old]

theorem attach_new (old : father ≠ some new) :
    attach nodes new value father direction new = some ⟨none, none, father, direction, value⟩ := by
  cases father with
  | none => exact Function.update_self _ _ _
  | some node =>
    have apart : new ≠ node := fun same => old (congrArg some same.symm)
    rw [attach, Function.update_of_ne apart, Function.update_self]

theorem attach_father {node : Nat} (old : node ≠ new) :
    attach nodes new value (some node) direction node = (nodes node).map fun cur => setLink cur direction new := by
  rw [attach, Function.update_self, Function.update_of_ne old]

/-- The pointer to a subtree behind the new node. -/
def linkTo (new : Nat) (root : Option Nat) : BinaryTree (Nat × α) → Option Nat
  | .nil => some new
  | .node _ _ _ => root

/-- The father of the new node, when that node is put into the left subtree. -/
theorem attach_left {cur : Node α} (here : nodes address = some cur) (old : address ≠ new) (outside : address ∉ addresses left) :
    attach nodes new value (leafOf side (some address) .left left).1 (leafOf side (some address) .left left).2 address =
      some { cur with left := linkTo new cur.left left } := by
  cases left with
  | nil =>
    rw [leafOf, attach_father old, here]
    rfl
  | node element before behind =>
    obtain ⟨a, member, found⟩ := leaf_mem (t := .node element before behind) (by simp) side (some address) .left
    rw [found, attach_other old, here, linkTo]
    rintro ⟨⟩
    exact outside member

theorem attach_right {cur : Node α} (here : nodes address = some cur) (old : address ≠ new) (outside : address ∉ addresses right) :
    attach nodes new value (leafOf side (some address) .right right).1 (leafOf side (some address) .right right).2 address =
      some { cur with right := linkTo new cur.right right } := by
  cases right with
  | nil =>
    rw [leafOf, attach_father old, here]
    rfl
  | node element before behind =>
    obtain ⟨a, member, found⟩ := leaf_mem (t := .node element before behind) (by simp) side (some address) .right
    rw [found, attach_other old, here, linkTo]
    rintro ⟨⟩
    exact outside member

/-- The new node is put under one of the nodes of a subtree, or under what is above it. -/
theorem leaf_father (side : Nat × α → Int) (father : Option Nat) (direction : Direction) (t : BinaryTree (Nat × α)) {a : Nat}
    (found : (leafOf side father direction t).1 = some a) : father = some a ∨ a ∈ addresses t := by
  cases t with
  | nil => exact .inl found
  | node element left right =>
    obtain ⟨b, member, same⟩ := leaf_mem (t := .node element left right) (by simp) side father direction
    rw [found] at same
    cases same
    exact .inr member

/-- The heap with the new node has the shape of the tree with the new element. -/
theorem attach_shape (value : α) (shape : Shape nodes father direction root t) (absent : search side t = none) (fresh : new ∉ addresses t)
    (distinct : (addresses t).Nodup) (above : ∀ a, father = some a → a ≠ new ∧ a ∉ addresses t) :
    Shape (attach nodes new value (leafOf side father direction t).1 (leafOf side father direction t).2) father direction
      (linkTo new root t) (insert side (new, value) t) := by
  induction t generalizing father direction root with
  | nil =>
    refine ⟨rfl, _, attach_new ?_, rfl, rfl, rfl, rfl, rfl⟩
    intro same
    exact (above new same).1 rfl
  | node element left right ihLeft ihRight =>
    obtain ⟨address, here⟩ := element
    obtain ⟨rfl, cur, found, rfl, rfl, rfl, before, behind⟩ := shape
    rw [addresses_node, List.mem_append, List.mem_cons, not_or, not_or] at fresh
    rw [addresses_node, List.nodup_append, List.nodup_cons] at distinct
    obtain ⟨inLeft, ⟨notRight, inRight⟩, apart⟩ := distinct
    obtain ⟨freshLeft, freshHere, freshRight⟩ := fresh
    have notLeft : address ∉ addresses left := fun member => apart address member address List.mem_cons_self rfl
    unfold search at absent
    unfold leafOf SearchTree.insert
    by_cases less : side (address, cur.value) < 0
    · rw [if_pos less] at absent
      simp only [if_pos less]
      have lower := ihLeft before absent freshLeft inLeft fun a same => by
        cases same
        exact ⟨Ne.symm freshHere, notLeft⟩
      refine ⟨rfl, _, attach_left found (Ne.symm freshHere) notLeft, rfl, rfl, rfl, lower, shape_frame ?_ behind⟩
      intro a member
      apply attach_other
      · rintro rfl
        exact freshRight member
      · intro same
        rcases leaf_father _ _ _ _ same with ⟨⟨⟩⟩ | other
        · exact notRight member
        · exact apart a other a (List.mem_cons_of_mem _ member) rfl
    · rw [if_neg less] at absent
      simp only [if_neg less]
      by_cases greater : 0 < side (address, cur.value)
      · rw [if_pos greater] at absent
        simp only [if_pos greater]
        have higher := ihRight behind absent freshRight inRight fun a same => by
          cases same
          exact ⟨Ne.symm freshHere, notRight⟩
        refine ⟨rfl, _, attach_right found (Ne.symm freshHere) notRight, rfl, rfl, rfl, shape_frame ?_ before, higher⟩
        intro a member
        apply attach_other
        · rintro rfl
          exact freshLeft member
        · intro same
          rcases leaf_father _ _ _ _ same with ⟨⟨⟩⟩ | other
          · exact notLeft member
          · exact apart a member a (List.mem_cons_of_mem _ other) rfl
      · rw [if_neg greater] at absent
        cases absent

end

end VoxiUtil.BtShape
