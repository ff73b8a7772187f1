import VoxiUtil.BtShape

/-!
`bt_GoFirst` and `bt_GoNext` on a tree of `bt.c`: they pass its elements in order.
-/
namespace VoxiUtil.BtTraversal
open VoxiUtil.Bt
open VoxiUtil.SearchTree
open VoxiUtil.BtShape
variable {α : Type}

/-- The tree with its cursor on a node, or behind the end. -/
def on (tree : BtTree α) (place : Option Nat) : BtTree α := { tree with currentNode := place }

/-- From its first place the cursor passes these values and comes to its last place. -/
def Walk (tree : BtTree α) : Option Nat → List α → Option Nat → Prop
  | place, [], last => place = last
  | place, value :: rest, last =>
    btGetCur (on tree place) = some value ∧ ∃ next, btGoNext (on tree place) = some (on tree next) ∧ Walk tree next rest last

section
variable {tree : BtTree α} {nodes : Nat → Option (Node α)} {place next last father root : Option Nat} {direction : Direction}
  {first behind : List α} {t : BinaryTree (Nat × α)} {turns : Nat}

theorem walk_append (start : Walk tree place first next) (rest : Walk tree next behind last) :
    Walk tree place (first ++ behind) last := by
  induction first generalizing place with
  | nil =>
    obtain rfl : place = next := start
    exact rest
  | cons value first ih =>
    obtain ⟨here, after, moved, further⟩ := start
    exact ⟨here, after, moved, ih further⟩

/-- The loop that gets what the cursor passes. -/
theorem goThrough_walk {values : List α} (walk : Walk tree place values none) (enough : values.length ≤ turns) :
    goThroughLoop turns (on tree place) = some values := by
  induction values generalizing place turns with
  | nil =>
    obtain rfl : place = none := walk
    cases turns <;> rfl
  | cons value rest ih =>
    cases turns with
    | zero => simp at enough
    | succ turns =>
      obtain ⟨here, after, moved, further⟩ := walk
      have passed : btEOT (on tree place) = false := by
        cases place with
        | none => cases here
        | some node => rfl
      have shorter : rest.length ≤ turns := by simpa using enough
      simp [goThroughLoop, passed, here, moved, ih further shorter]

/-! ### Loops over the links -/

theorem climb_mono {turns more : Nat} (done : climb nodes turns direction father = some last) (enough : turns ≤ more) :
    climb nodes more direction father = some last := by
  induction turns generalizing more direction father with
  | zero => cases done
  | succ turns ih =>
    cases more with
    | zero => omega
    | succ more =>
      cases father with
      | none => exact done
      | some node =>
        unfold climb at done ⊢
        by_cases left : direction = .left
        · simpa [left] using done
        · simp only [if_neg left, Option.bind_eq_bind, Option.bind_eq_some_iff] at done ⊢
          obtain ⟨cur, here, further⟩ := done
          exact ⟨cur, here, ih further (by omega)⟩

/-- The first address of a subtree, or where its traversal ends. -/
def entry (t : BinaryTree (Nat × α)) (last : Option Nat) : Option Nat :=
  match addresses t with
  | [] => last
  | first :: _ => some first

theorem entry_node (element : Nat × α) (left right : BinaryTree (Nat × α)) (last : Option Nat) :
    entry (.node element left right) last = entry left (some element.1) := by
  simp only [entry, addresses_node]
  cases addresses left <;> rfl

theorem goLeft_shape {node : Nat} (shape : Shape nodes father direction (some node) t) (enough : t.height ≤ turns)
    (last : Option Nat) : ∃ first, goLeft nodes turns node = some first ∧ entry t last = some first := by
  induction t generalizing father direction node turns last with
  | nil => cases shape
  | node element left right ihLeft ihRight =>
    obtain ⟨address, value⟩ := element
    obtain ⟨⟨⟩, cur, here, rfl, rfl, rfl, before, after⟩ := shape
    rw [BinaryTree.height] at enough
    cases turns with
    | zero => omega
    | succ turns =>
      have lower : left.height ≤ turns := by omega
      cases left with
      | nil =>
        have bottom : cur.left = none := before
        exact ⟨node, by simp [goLeft, here, bottom], by simp [entry]⟩
      | node element before' behind' =>
        have link := before.1
        rw [link] at before
        obtain ⟨first, gone, same⟩ := ihLeft before lower (some node)
        exact ⟨first, by simp [goLeft, here, link, gone], by rw [entry_node, same]⟩

/-- The cursor passes a subtree in order. It comes to the place above the subtree that the
    loop upwards finds. -/
theorem walk_shape (shape : Shape tree.nodes father direction root t) (above : climb tree.nodes turns direction father = some last)
    (enough : t.height + turns ≤ tree.allocated + 1) : Walk tree (entry t last) ((inorder t).map Prod.snd) last := by
  induction t generalizing father direction root turns last with
  | nil => rfl
  | node element left right ihLeft ihRight =>
    obtain ⟨address, value⟩ := element
    obtain ⟨rfl, cur, here, rfl, rfl, rfl, before, after⟩ := shape
    rw [BinaryTree.height] at enough
    have under : climb tree.nodes 1 .left (some address) = some (some address) := by simp [climb]
    have beside : climb tree.nodes (turns + 1) .right (some address) = some last := by
      simp [climb, here, above]
    have lower := ihLeft before under (by omega)
    have higher := ihRight after beside (by omega)
    have moved : btGoNext (on tree (some address)) = some (on tree (entry right last)) := by
      have low : right.height ≤ tree.allocated := by omega
      cases right with
      | nil =>
        have bottom : cur.right = none := after
        have room : turns ≤ tree.allocated + 1 := by omega
        have up := climb_mono above room
        simp [btGoNext, on, here, bottom, up, entry]
      | node element before' behind' =>
        obtain ⟨first, gone, same⟩ := goLeft_shape (after.1 ▸ after) low last
        simp [btGoNext, on, here, after.1, gone, same]
    rw [entry_node, inorder_node, List.map_append, List.map_cons]
    refine walk_append lower ⟨?_, entry right last, moved, higher⟩
    simp [btGetCur, on, here]

theorem goFirst_shape (shape : Shape tree.nodes none .none tree.root t) (enough : t.height ≤ tree.allocated) :
    btGoFirst tree = some (on tree (entry t none)) := by
  cases t with
  | nil =>
    have empty : tree.root = none := shape
    simp [btGoFirst, empty, entry, on]
  | node element left right =>
    obtain ⟨first, gone, same⟩ := goLeft_shape (shape.1 ▸ shape) enough none
    simp [btGoFirst, shape.1, gone, same, on]

/-- The cursor passes a whole tree. -/
theorem walk_tree (shape : Shape tree.nodes none .none tree.root t) (enough : t.height ≤ tree.allocated) :
    Walk tree (entry t none) ((inorder t).map Prod.snd) none := by
  have above : climb tree.nodes 1 .none none = some none := rfl
  exact walk_shape shape above (by omega)

theorem goThrough_shape (shape : Shape tree.nodes none .none tree.root t) (enough : t.numNodes ≤ tree.allocated) :
    goThrough tree = some ((inorder t).map Prod.snd) := by
  have low : t.height ≤ tree.allocated := Nat.le_trans t.height_le_numNodes enough
  have shorter : ((inorder t).map Prod.snd).length ≤ (on tree (entry t none)).allocated := by simpa [on] using enough
  rw [goThrough, goFirst_shape shape low]
  exact goThrough_walk (walk_tree shape low) shorter

end

end VoxiUtil.BtTraversal
