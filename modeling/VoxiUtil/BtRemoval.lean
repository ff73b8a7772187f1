import Mathlib.Data.Set.Card
import VoxiUtil.BtAdds

/-!
`bt_remove`, which never changes the link to the node that it removes: the node and its
value stay in the tree.
-/
namespace VoxiUtil.BtRemoval
open VoxiUtil.Bt
open VoxiUtil.SearchTree
open VoxiUtil.BtShape
open VoxiUtil.BtTraversal
open VoxiUtil.BtAdds
open VoxiUtil.Runs
variable {α : Type}

section
variable (compare : α → α → Int)

/-- `bt_findnode`, to at most so many nodes below each other. -/
def btFindnode (nodes : Nat → Option (Node α)) (key : α) : Nat → Option Nat → Option (Option Nat)
  | 0, _ => none
  | turns + 1, node =>
    match node with
    | none => some none
    | some node => do
      let cur ← nodes node
      let tempint := compare key cur.value
      if tempint = 0 then some (some node)
      else if tempint < 0 then btFindnode nodes key turns cur.left
      else btFindnode nodes key turns cur.right

/-- The tree that `bt_remove` leaves, with one of its nodes changed. -/
def withoutNode (tree : BtTree α) (node : Nat) (cur : Node α) : BtTree α :=
  { tree with nodes := Function.update tree.nodes node (some cur), count := tree.count - 1 }

def btRemove (tree : BtTree α) (value : α) : Option (Bool × BtTree α) := do
  let found ← btFindnode compare tree.nodes value (tree.allocated + 1) tree.root
  match found with
  | none => some (false, tree)
  | some deletenode => do
    let cur ← tree.nodes deletenode
    match cur.right with
    | none => some (true, withoutNode tree deletenode { cur with father := cur.left })
    | some right => do
      let rightnode ← goLeft tree.nodes tree.allocated right
      let last ← tree.nodes rightnode
      some (true, withoutNode tree rightnode { last with left := cur.left })

end

/-! ### Calls -/

inductive Op (α : Type)
  | add (value : α)
  | remove (value : α)

/-- A tree with the values that its calls have put into it. -/
structure Calls (α : Type) where
  tree : BtTree α
  stored : List α

/-- What a link leads to. -/
inductive Reaches (nodes : Nat → Option (Node α)) : Option Nat → Nat → Prop
  | here {node : Nat} {cur : Node α} : nodes node = some cur → Reaches nodes (some node) node
  | left {node target : Nat} {cur : Node α} : nodes node = some cur → Reaches nodes cur.left target → Reaches nodes (some node) target
  | right {node target : Nat} {cur : Node α} : nodes node = some cur → Reaches nodes cur.right target → Reaches nodes (some node) target

section
variable (compare : α → α → Int) [DecidableEq α]

def step (s : Calls α) : Op α → Option (Calls α)
  | .add value => (btAdd compare s.tree value).map fun out => ⟨out.2, s.stored.insert value⟩
  | .remove value => (btRemove compare s.tree value).map fun out => ⟨out.2, s.stored.erase value⟩

/-- The value was removed: it is found no more, the others are, and the count, the nodes and the
    traversal are those of the others. -/
structure Removed (s : Calls α) (value : α) (after : Calls α) : Prop where
  result : btRemove compare s.tree value = some (true, after.tree)
  gone : btFind compare after.tree value = some none
  others : ∀ other ∈ s.stored, other ≠ value → btFind compare after.tree other = btFind compare s.tree other
  count : btGetCount after.tree = Set.ncard {node | Reaches after.tree.nodes after.tree.root node}
  traversal : ∃ passed, goThrough after.tree = some passed ∧ passed.Pairwise (fun a b => compare a b < 0) ∧
    ∀ v, v ∈ passed ↔ v ∈ s.stored ∧ v ≠ value

/-- What `bt_remove` is to do for a value that is in the tree, and for one that is not. -/
def Removes (s : Calls α) (op : Op α) (after : Calls α) : Prop :=
  match op with
  | .add _ => True
  | .remove value => if value ∈ s.stored then Removed compare s value after else btRemove compare s.tree value = some (false, s.tree)

end

/-- A call that removes nothing. -/
def Absent (s : Calls α) : Op α → Prop
  | .add _ => True
  | .remove value => value ∉ s.stored

section
variable {compare : α → α → Int} {nodes : Nat → Option (Node α)} {tree : BtTree α} {t : BinaryTree (Nat × α)} {key value : α}
  {father root : Option Nat} {direction : Direction} {turns a : Nat}

/-! ### Searching for the node -/

/-- `bt_nodefind` gives the value of the node that `bt_findnode` finds. -/
theorem nodefind_findnode (turns : Nat) (root : Option Nat) : btNodefind compare nodes key turns root =
    (btFindnode compare nodes key turns root).bind fun node =>
      match node with
      | none => some none
      | some node => (nodes node).map fun cur => some cur.value := by
  induction turns generalizing root with
  | zero => rfl
  | succ turns ih =>
    cases root with
    | none => rfl
    | some node =>
      simp only [btNodefind, btFindnode, Option.bind_eq_bind]
      cases here : nodes node with
      | none => rfl
      | some cur =>
        simp only [Option.bind_some]
        by_cases same : compare key cur.value = 0
        · simp only [if_pos same, Option.bind_some, here, Option.map_some]
        · simp only [if_neg same]
          by_cases less : compare key cur.value < 0
          · simp only [if_pos less, ih]
          · simp only [if_neg less, ih]

/-- The part of a tree below the node that the search finds. The search comes to the node in every heap
    that has the same nodes outside of that part, and the same value in the node. -/
theorem found_below (shape : Shape nodes father direction root t) (distinct : (addresses t).Nodup)
    (found : search (fun element => compare key element.2) t = some (a, value)) :
    ∃ father direction left right, Shape nodes father direction (some a) (.node (a, value) left right) ∧
      (∀ b ∈ addresses (.node (a, value) left right), b ∈ addresses t) ∧ a ∉ addresses right ∧ right.height ≤ t.height ∧
      ∀ nodes' cur, (∀ b ∉ addresses (.node (a, value) left right), nodes' b = nodes b) → nodes' a = some cur → cur.value = value →
        ∀ turns, t.height < turns → btFindnode compare nodes' key turns root = some (some a) := by
  induction t generalizing father direction root with
  | nil => cases found
  | node element left right ihLeft ihRight =>
    obtain ⟨address, here⟩ := element
    have whole := shape
    obtain ⟨rfl, cur, at_root, rfl, rfl, rfl, before, behind⟩ := shape
    have split := distinct
    rw [addresses_node, List.nodup_append, List.nodup_cons] at split
    obtain ⟨inLeft, ⟨notRight, inRight⟩, apart⟩ := split
    have notLeft : address ∉ addresses left := fun member => apart address member address List.mem_cons_self rfl
    unfold search at found
    by_cases less : compare key cur.value < 0
    · rw [if_pos less] at found
      obtain ⟨father, direction, lower, higher, part, inside, apart, low, finds⟩ := ihLeft before inLeft found
      refine ⟨father, direction, lower, higher, part, ?_, apart, ?_, ?_⟩
      · intro b member
        rw [addresses_node]
        exact List.mem_append_left _ (inside b member)
      · rw [BinaryTree.height]
        omega
      · intro nodes' found_cur outside at_found same turns enough
        rw [BinaryTree.height] at enough
        cases turns with
        | zero => omega
        | succ turns =>
          have unchanged := outside address fun member => notLeft (inside _ member)
          have differs : compare key cur.value ≠ 0 := by omega
          simp only [btFindnode, unchanged, at_root, Option.bind_eq_bind, Option.bind_some, if_neg differs, if_pos less]
          exact finds nodes' found_cur outside at_found same turns (by omega)
    · rw [if_neg less] at found
      by_cases greater : 0 < compare key cur.value
      · rw [if_pos greater] at found
        obtain ⟨father, direction, lower, higher, part, inside, apart, low, finds⟩ := ihRight behind inRight found
        refine ⟨father, direction, lower, higher, part, ?_, apart, ?_, ?_⟩
        · intro b member
          rw [addresses_node]
          exact List.mem_append_right _ (List.mem_cons_of_mem _ (inside b member))
        · rw [BinaryTree.height]
          omega
        · intro nodes' found_cur outside at_found same turns enough
          rw [BinaryTree.height] at enough
          cases turns with
          | zero => omega
          | succ turns =>
            have unchanged := outside address fun member => notRight (inside _ member)
            have differs : compare key cur.value ≠ 0 := by omega
            simp only [btFindnode, unchanged, at_root, Option.bind_eq_bind, Option.bind_some, if_neg differs, if_neg less]
            exact finds nodes' found_cur outside at_found same turns (by omega)
      · rw [if_neg greater] at found
        cases found
        refine ⟨_, _, left, right, whole, fun b member => member, notRight, ?_, ?_⟩
        · rw [BinaryTree.height]
          omega
        · intro nodes' found_cur outside at_found same turns enough
          cases turns with
          | zero => omega
          | succ turns =>
            have equal : compare key found_cur.value = 0 := by
              rw [same]
              omega
            simp only [btFindnode, at_found, Option.bind_eq_bind, Option.bind_some, if_pos equal]

theorem shape_nodes (shape : Shape nodes father direction root t) (member : a ∈ addresses t) : ∃ cur, nodes a = some cur := by
  induction t generalizing father direction root with
  | nil => cases member
  | node element left right ihLeft ihRight =>
    obtain ⟨address, here⟩ := element
    obtain ⟨rfl, cur, found, rfl, rfl, rfl, before, behind⟩ := shape
    rw [addresses_node, List.mem_append, List.mem_cons] at member
    rcases member with inLeft | rfl | inRight
    · exact ihLeft before inLeft
    · exact ⟨cur, found⟩
    · exact ihRight behind inRight

/-- The links of a tree lead to its nodes. -/
theorem reaches_shape (shape : Shape nodes father direction root t) : Reaches nodes root a ↔ a ∈ addresses t := by
  induction t generalizing father direction root with
  | nil =>
    obtain rfl : root = none := shape
    exact iff_of_false nofun List.not_mem_nil
  | node element left right ihLeft ihRight =>
    obtain ⟨address, here⟩ := element
    obtain ⟨rfl, cur, found, rfl, rfl, rfl, before, behind⟩ := shape
    rw [addresses_node, List.mem_append, List.mem_cons, ← ihLeft before, ← ihRight behind]
    constructor
    · intro reaches
      cases reaches with
      | here => exact .inr (.inl rfl)
      | left there lower =>
        cases there.symm.trans found
        exact .inl lower
      | right there higher =>
        cases there.symm.trans found
        exact .inr (.inr higher)
    · rintro (lower | rfl | higher)
      · exact .left found lower
      · exact .here found
      · exact .right found higher

/-- The count is that of the nodes, as long as no node is to be removed. -/
theorem count_reaches (represents : Represents compare tree t) :
    btGetCount tree = Set.ncard {node | Reaches tree.nodes tree.root node} := by
  have nodes_are : {node | Reaches tree.nodes tree.root node} = ↑(addresses t).toFinset := by
    ext node
    simp [reaches_shape represents.shape]
  rw [nodes_are, Set.ncard_coe_finset, List.toFinset_card_of_nodup represents.distinct, addresses, List.length_map, inorder_length]
  exact represents.count.symm

private theorem entry_mem {last : Option Nat} (entered : entry t last = some a) : last = some a ∨ a ∈ addresses t := by
  unfold entry at entered
  cases passed : addresses t with
  | nil =>
    rw [passed] at entered
    exact .inl entered
  | cons first rest =>
    rw [passed] at entered
    cases entered
    exact .inr List.mem_cons_self

/-! ### Removing -/

theorem remove_absent (total : Total compare) (represents : Represents compare tree t) (missing : value ∉ valuesOf t) :
    btRemove compare tree value = some (false, tree) := by
  rcases search_values total represents value with ⟨a, -, member⟩ | ⟨absent, -⟩
  · exact absurd member missing
  · have nothing : btNodefind compare tree.nodes value (tree.allocated + 1) tree.root = _ :=
      nodefind_shape represents.shape (represents_height represents)
    rw [absent, nodefind_findnode] at nothing
    obtain ⟨node, ended, value_of⟩ := Option.bind_eq_some_iff.mp nothing
    cases node with
    | none => simp [btRemove, ended]
    | some node =>
      obtain ⟨cur, -, wrong⟩ := Option.map_eq_some_iff.mp value_of
      cases wrong

/-- A value that is removed is found afterwards. -/
theorem remove_present (total : Total compare) (represents : Represents compare tree t) (member : value ∈ valuesOf t) :
    ∃ tree', btRemove compare tree value = some (true, tree') ∧ btFind compare tree' value = some (some value) := by
  rcases search_values total represents value with ⟨a, found, -⟩ | ⟨-, missing⟩
  · have height := represents_height represents
    obtain ⟨father, direction, left, right, part, inside, outer, low, finds⟩ := found_below represents.shape represents.distinct found
    obtain ⟨-, cur, here, valued, -, -, before, behind⟩ := part
    have started := finds tree.nodes cur (fun _ _ => rfl) here valued _ height
    -- The search in a heap with one node changed in the part below.
    have again (node : Nat) (changed found_cur : Node α) (below : node ∈ addresses (.node (a, value) left right))
        (at_found : Function.update tree.nodes node (some changed) a = some found_cur) (same : found_cur.value = value) :
        btFind compare (withoutNode tree node changed) value = some (some value) := by
      have outside : ∀ b ∉ addresses (.node (a, value) left right), Function.update tree.nodes node (some changed) b = tree.nodes b :=
        fun b other => Function.update_of_ne (ne_of_mem_of_not_mem below other).symm _ _
      have ended := finds _ found_cur outside at_found same _ height
      simp only [btFind, nodefind_findnode, withoutNode, ended, Option.bind_some, at_found, Option.map_some, same]
    cases at_right : cur.right with
    | none =>
      have removed : btRemove compare tree value = some (true, withoutNode tree a { cur with father := cur.left }) := by
        simp [btRemove, started, here, at_right]
      exact ⟨_, removed, again a _ _ (by simp) (Function.update_self _ _ _) valued⟩
    | some top =>
      rw [at_right] at behind
      have enough : right.height ≤ tree.allocated := by omega
      obtain ⟨last, gone, entered⟩ := goLeft_shape behind enough none
      have lower : last ∈ addresses right := by simpa using entry_mem entered
      obtain ⟨last_cur, at_last⟩ := shape_nodes behind lower
      have apart : a ≠ last := by
        rintro rfl
        exact outer lower
      have removed : btRemove compare tree value = some (true, withoutNode tree last { last_cur with left := cur.left }) := by
        simp [btRemove, started, here, at_right, gone, at_last]
      refine ⟨_, removed, again last _ cur ?_ ?_ valued⟩
      · simp [lower]
      · rw [Function.update_of_ne apart, here]
  · exact absurd member missing

/-- The tree has the values that its calls have put into it. -/
def Inv (compare : α → α → Int) (s : Calls α) : Prop :=
  ∃ t, Represents compare s.tree t ∧ ∀ v, v ∈ valuesOf t ↔ v ∈ s.stored

theorem step_absent [DecidableEq α] (total : Total compare) {s : Calls α} {op : Op α} (inv : Inv compare s) (absent : Absent s op) :
    ∃ after, step compare s op = some after ∧ Inv compare after ∧ Removes compare s op after := by
  obtain ⟨t, represents, members⟩ := inv
  cases op with
  | add value =>
    obtain ⟨tree', t', added, -, kept, values⟩ := add_spec total represents value
    refine ⟨⟨tree', s.stored.insert value⟩, ?_, ⟨t', kept, ?_⟩, trivial⟩
    · rw [step, added]
      rfl
    · intro v
      rw [values, members, List.mem_insert_iff]
  | remove value =>
    have missing : value ∉ s.stored := absent
    have removed := remove_absent total represents (mt (members value).mp missing)
    refine ⟨⟨s.tree, s.stored.erase value⟩, ?_, ⟨t, represents, ?_⟩, ?_⟩
    · rw [step, removed]
      rfl
    · rw [List.erase_of_not_mem missing]
      exact members
    · rw [Removes, if_neg missing, removed]

theorem step_present [DecidableEq α] (total : Total compare) {s after : Calls α} {op : Op α} (inv : Inv compare s)
    (present : ¬ Absent s op) (stepped : step compare s op = some after) : ¬ Removes compare s op after := by
  obtain ⟨t, represents, members⟩ := inv
  cases op with
  | add value => exact absurd trivial present
  | remove value =>
    have stored : value ∈ s.stored := not_not.mp present
    obtain ⟨tree', removed, found⟩ := remove_present total represents ((members value).mpr stored)
    rw [step, removed] at stepped
    cases stepped
    rw [Removes, if_pos stored]
    intro removal
    cases found.symm.trans removal.gone

end

/-- For a comparison that is a total order, every call of a sequence of `bt_add` and `bt_remove` on a
    new tree ends, and each `bt_remove` in it returns FALSE and leaves the tree for a value that is not
    there, and TRUE with the value taken out of the tree for one that is, just when no value that is
    there is removed. -/
theorem removes_iff [DecidableEq α] {compare : α → α → Int} (total : Total compare) (currentNode : Option Nat) (ops : List (Op α)) :
    Meets (step compare) (Removes compare) ⟨btCreate currentNode, []⟩ ops ↔
      Guarded (step compare) Absent ⟨btCreate currentNode, []⟩ ops := by
  have start : Inv compare ⟨btCreate currentNode, []⟩ := ⟨.nil, represents_create currentNode, by simp [valuesOf]⟩
  constructor
  · intro meets
    obtain ⟨last, ran⟩ := meets_run meets
    have unassuming : Guarded (step compare) (fun _ _ => True) ⟨btCreate currentNode, []⟩ ops := guarded_forall fun _ _ _ => trivial
    refine (meets_iff_guarded ?_ ?_ unassuming start ran).mp meets
    · intro s op after _ inv absent stepped
      obtain ⟨same, again, kept, met⟩ := step_absent total inv absent
      cases again.symm.trans stepped
      exact ⟨kept, met⟩
    · intro s op after _ inv present stepped
      exact step_present total inv present stepped
  · exact guarded_meets (fun s op inv absent => step_absent total inv absent) start

theorem removes_iff_sample : Meets (step fun a b : Int => a - b) (Removes fun a b => a - b) ⟨btCreate none, []⟩
      [.add 3, .add 1, .remove 2] ↔
    Guarded (step fun a b : Int => a - b) Absent ⟨btCreate none, []⟩ [.add 3, .add 1, .remove 2] :=
  removes_iff difference_total none _

/-- A removed value is still found and passed in a tree of count 0. -/
theorem removed_value_stays : ¬ Meets (step fun a b : Int => a - b) (Removes fun a b => a - b) ⟨btCreate none, []⟩ [.add 1, .remove 1] ∧
    ∃ tree tree', adds (fun a b : Int => a - b) (btCreate none) [1] = some tree ∧
      btRemove (fun a b => a - b) tree 1 = some (true, tree') ∧ btFind (fun a b => a - b) tree' 1 = some (some 1) ∧
      btGetCount tree' = 0 ∧ goThrough tree' = some [1] := by
  constructor
  · rintro ⟨_, added, -, _, removed, met, -⟩
    cases added
    cases removed
    cases met.gone
  · exact ⟨_, _, rfl, rfl, rfl, rfl, rfl⟩

end VoxiUtil.BtRemoval
