import Mathlib.Logic.Function.Basic
import VoxiUtil.Limits
import VoxiUtil.Runs

/-!
The binary trees of `bt.c`, as nodes in a heap. A node that was never allocated is
`none`, and so is what a loop gives that takes more turns than there are nodes.
-/
namespace VoxiUtil.Bt
open VoxiUtil.Limits (intMax)
open VoxiUtil.Runs (assert run)
variable {α : Type}

/-- `bt_direction`. -/
inductive Direction
  | left
  | right
  | none
deriving DecidableEq

/-- `struct node`. -/
structure Node (α : Type) where
  right : Option Nat
  left : Option Nat
  father : Option Nat
  direction : Direction
  value : α

/-- `struct bt_treestruct`, and the heap. The next node is allocated at `allocated`. The functions here count the nodes without a
    bound; what the `int` of the source does to them is in `btAddCounted`. -/
structure BtTree (α : Type) where
  root : Option Nat
  currentNode : Option Nat
  count : Int
  nodes : Nat → Option (Node α)
  allocated : Nat

/-- `currentNode` is what the memory of the tree has there. -/
def btCreate (currentNode : Option Nat) : BtTree α := ⟨none, currentNode, 0, fun _ => none, 0⟩

/-! ### Adding and finding -/

section
variable (compare : α → α → Int)

/-- The loop of `bt_add`: where a node for the value belongs, or nothing when the value is there. -/
def descend (nodes : Nat → Option (Node α)) (value : α) :
    Nat → Option Nat → Option Nat → Direction → Option (Option (Option Nat × Direction))
  | 0, _, _, _ => none
  | turns + 1, curNode, father, direction =>
    match curNode with
    | none => some (some (father, direction))
    | some node => do
      let cur ← nodes node
      let tempint := compare value cur.value
      if tempint < 0 then descend nodes value turns cur.left (some node) .left
      else if 0 < tempint then descend nodes value turns cur.right (some node) .right
      else some none

end

/-- The link from a father to its new node. -/
def setLink (cur : Node α) (direction : Direction) (node : Nat) : Node α :=
  if direction = .left then { cur with left := some node } else { cur with right := some node }

/-- The heap with a new node, linked to its father. -/
def attach (nodes : Nat → Option (Node α)) (new : Nat) (value : α) (father : Option Nat) (direction : Direction) :
    Nat → Option (Node α) :=
  let nodes := Function.update nodes new (some ⟨none, none, father, direction, value⟩)
  match father with
  | none => nodes
  | some node => Function.update nodes node ((nodes node).map fun cur => setLink cur direction new)

/-- The tree with a new node for the value, where the loop has ended. -/
def withNode (tree : BtTree α) (value : α) (father : Option Nat) (direction : Direction) : BtTree α :=
  let new := tree.allocated
  { tree with root := if father = none then some new else tree.root
              nodes := attach tree.nodes new value father direction
              allocated := new + 1
              count := tree.count + 1 }

def btAdd (compare : α → α → Int) (tree : BtTree α) (value : α) : Option (Int × BtTree α) := do
  let place ← descend compare tree.nodes value (tree.allocated + 1) tree.root none .none
  match place with
  | none => some (-1, tree)
  | some (father, direction) => some (0, withNode tree value father direction)

/-- `bt_nodefind`, to at most so many nodes below each other. -/
def btNodefind (compare : α → α → Int) (nodes : Nat → Option (Node α)) (key : α) : Nat → Option Nat → Option (Option α)
  | 0, _ => none
  | turns + 1, node =>
    match node with
    | none => some none
    | some node => do
      let cur ← nodes node
      let tempint := compare key cur.value
      if tempint = 0 then some (some cur.value)
      else if tempint < 0 then btNodefind compare nodes key turns cur.left
      else btNodefind compare nodes key turns cur.right

def btFind (compare : α → α → Int) (tree : BtTree α) (key : α) : Option (Option α) :=
  btNodefind compare tree.nodes key (tree.allocated + 1) tree.root

/-! ### Going through -/

/-- The loop to the left of `bt_GoFirst` and `bt_GoNext`. -/
def goLeft (nodes : Nat → Option (Node α)) : Nat → Nat → Option Nat
  | 0, _ => none
  | turns + 1, node => do
    let cur ← nodes node
    match cur.left with
    | none => some node
    | some left => goLeft nodes turns left

/-- The loop upwards of `bt_GoNext`. -/
def climb (nodes : Nat → Option (Node α)) : Nat → Direction → Option Nat → Option (Option Nat)
  | 0, _, _ => none
  | turns + 1, dir, node =>
    match node with
    | none => some none
    | some node =>
      if dir = .left then some (some node) else do
        let cur ← nodes node
        climb nodes turns cur.direction cur.father

def btEOT (tree : BtTree α) : Bool := tree.currentNode.isNone

def btGoFirst (tree : BtTree α) : Option (BtTree α) :=
  match tree.root with
  | none => some { tree with currentNode := none }
  | some root => (goLeft tree.nodes tree.allocated root).map fun node => { tree with currentNode := some node }

def btGetCur (tree : BtTree α) : Option α := do
  let node ← tree.currentNode
  let cur ← tree.nodes node
  some cur.value

def btGoNext (tree : BtTree α) : Option (BtTree α) := do
  let node ← tree.currentNode
  let cur ← tree.nodes node
  match cur.right with
  | some right => (goLeft tree.nodes tree.allocated right).map fun node => { tree with currentNode := some node }
  | none => (climb tree.nodes (tree.allocated + 1) cur.direction cur.father).map fun node => { tree with currentNode := node }

def btGetCount (tree : BtTree α) : Int := tree.count

/-- The loop over a tree that `bt_dup` makes, behind `bt_GoFirst`: the values that it gets. -/
def goThroughLoop : Nat → BtTree α → Option (List α)
  | 0, tree => if btEOT tree then some [] else none
  | turns + 1, tree =>
    if btEOT tree then some [] else do
      let value ← btGetCur tree
      let tree ← btGoNext tree
      let rest ← goThroughLoop turns tree
      some (value :: rest)

def goThrough (tree : BtTree α) : Option (List α) := do
  let tree ← btGoFirst tree
  goThroughLoop tree.allocated tree

/-- A sequence of `bt_add`. -/
def adds (compare : α → α → Int) (tree : BtTree α) (values : List α) : Option (BtTree α) :=
  run (fun tree value => (btAdd compare tree value).map Prod.snd) tree values

/-- `bt_add` with the `int` that `count` is: it counts up without a check, and a sum beyond the range has no outcome. -/
def btAddCounted (compare : α → α → Int) (tree : BtTree α) (value : α) : Option (Int × BtTree α) := do
  let (result, after) ← btAdd compare tree value
  assert (result = 0 → after.count ≤ intMax)
  some (result, after)

def addsCounted (compare : α → α → Int) (tree : BtTree α) (values : List α) : Option (BtTree α) :=
  run (fun tree value => (btAddCounted compare tree value).map Prod.snd) tree values

end VoxiUtil.Bt
