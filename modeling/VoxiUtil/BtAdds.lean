import Mathlib.Data.List.Dedup
import VoxiUtil.BtTraversal

/-!
Sequences of `bt_add` from a new tree: the values that were added, each once.
-/
namespace VoxiUtil.BtAdds
open VoxiUtil.Bt
open VoxiUtil.Limits (intMax)
open VoxiUtil.Runs (assert assert_true assert_false run_cons)
open VoxiUtil.SearchTree
open VoxiUtil.BtShape
open VoxiUtil.BtTraversal
variable {α : Type}

/-- The tree has the nodes, the links and the count of a search tree. -/
structure Represents (compare : α → α → Int) (tree : BtTree α) (t : BinaryTree (Nat × α)) : Prop where
  shape : Shape tree.nodes none .none tree.root t
  ordered : Ordered (fun a b => compare a.2 b.2) t
  distinct : (addresses t).Nodup
  entries : ∀ a ∈ addresses t, a < tree.allocated
  allocated : t.numNodes = tree.allocated
  count : t.numNodes = tree.count

/-- The values of a search tree in ascending order. -/
def valuesOf (t : BinaryTree (Nat × α)) : List α := (inorder t).map Prod.snd

section
variable {compare : α → α → Int} {tree : BtTree α} {t : BinaryTree (Nat × α)} {value : α}

theorem represents_create (currentNode : Option Nat) : Represents compare (btCreate currentNode) .nil := by
  constructor <;> simp [btCreate, Shape, Ordered]

/-- The comparison of a tree's elements, which are values with addresses. -/
theorem lawful_elements (lawful : Lawful compare) : Lawful fun a b : Nat × α => compare a.2 b.2 := by
  constructor
  · intro a b
    exact lawful.antisymm a.2 b.2
  · intro a b c
    exact lawful.trans a.2 b.2 c.2

theorem represents_height (represents : Represents compare tree t) : t.height < tree.allocated + 1 := by
  have low := t.height_le_numNodes
  have size := represents.allocated
  omega

/-- The search for a value ends at that value, or not at all. -/
theorem search_values (total : Total compare) (represents : Represents compare tree t) (value : α) :
    (∃ a, search (fun element => compare value element.2) t = some (a, value) ∧ value ∈ valuesOf t) ∨
      search (fun element => compare value element.2) t = none ∧ value ∉ valuesOf t := by
  cases done : search (fun element => compare value element.2) t with
  | none =>
    refine .inr ⟨rfl, ?_⟩
    intro member
    obtain ⟨other, inside, rfl⟩ := List.mem_map.mp member
    have differs := search_none other (lawful_elements total.toLawful) represents.ordered done other inside
    exact differs (total.self other.2)
  | some element =>
    obtain ⟨member, same⟩ := search_mem done
    obtain ⟨a, found⟩ := element
    obtain rfl : value = found := total.equal value found same
    exact .inl ⟨a, rfl, List.mem_map.mpr ⟨_, member, rfl⟩⟩

theorem find_spec [DecidableEq α] (total : Total compare) (represents : Represents compare tree t) (key : α) :
    btFind compare tree key = some (if key ∈ valuesOf t then some key else none) := by
  rw [btFind, nodefind_shape represents.shape (represents_height represents)]
  rcases search_values total represents key with ⟨a, found, member⟩ | ⟨absent, missing⟩
  · simp [found, member]
  · simp [absent, missing]

/-- A value that the search does not find gets a node. -/
theorem add_new (lawful : Lawful compare) (represents : Represents compare tree t)
    (absent : search (fun element => compare value element.2) t = none) :
    ∃ tree' t', btAdd compare tree value = some (0, tree') ∧ Represents compare tree' t' ∧
      (valuesOf t').Perm (value :: valuesOf t) := by
  have fresh : tree.allocated ∉ addresses t := fun member => Nat.lt_irrefl _ (represents.entries _ member)
  have perm := insert_perm (tree.allocated, value) absent
  have longer := perm.length_eq
  rw [List.length_cons, inorder_length, inorder_length] at longer
  let place := leafOf (fun element => compare value element.2) none .none t
  refine ⟨withNode tree value place.1 place.2, _, ?_, ?_, perm.map Prod.snd⟩
  · rw [btAdd, descend_shape represents.shape (represents_height represents), absent]
    rfl
  · have shape := attach_shape value represents.shape absent fresh represents.distinct (by simp)
    constructor
    · have link : linkTo tree.allocated tree.root t = if place.1 = none then some tree.allocated else tree.root := by
        cases t with
        | nil => rfl
        | node element left right =>
          obtain ⟨a, -, found⟩ := leaf_mem (t := .node element left right) (by simp)
            (fun element => compare value element.2) none .none
          simp [place, found, linkTo]
      rw [link] at shape
      exact shape
    · exact insert_ordered (tree.allocated, value) (lawful_elements lawful) represents.ordered absent
    · exact ((perm.map Prod.fst).nodup_iff).mpr (List.nodup_cons.mpr ⟨fresh, represents.distinct⟩)
    · intro a member
      rcases List.mem_cons.mp ((perm.map Prod.fst).mem_iff.mp member) with rfl | old
      · exact Nat.lt_succ_self _
      · exact Nat.lt_succ_of_lt (represents.entries a old)
    · rw [longer, represents.allocated]
      rfl
    · rw [longer, Int.natCast_succ, represents.count]
      rfl

/-- One that it finds leaves the tree. -/
theorem add_old (represents : Represents compare tree t) {element : Nat × α}
    (found : search (fun element => compare value element.2) t = some element) : btAdd compare tree value = some (-1, tree) := by
  rw [btAdd, descend_shape represents.shape (represents_height represents)]
  simp [found]

theorem add_present (total : Total compare) (represents : Represents compare tree t) (member : value ∈ valuesOf t) :
    btAdd compare tree value = some (-1, tree) := by
  rcases search_values total represents value with ⟨a, found, -⟩ | ⟨absent, missing⟩
  · exact add_old represents found
  · exact absurd member missing

theorem add_absent (total : Total compare) (represents : Represents compare tree t) (missing : value ∉ valuesOf t) :
    ∃ tree' t', btAdd compare tree value = some (0, tree') ∧ Represents compare tree' t' ∧
      (valuesOf t').Perm (value :: valuesOf t) := by
  rcases search_values total represents value with ⟨a, found, member⟩ | ⟨absent, -⟩
  · exact absurd member missing
  · exact add_new total.toLawful represents absent

/-- What one `bt_add` preserves. -/
theorem add_spec [DecidableEq α] (total : Total compare) (represents : Represents compare tree t) (value : α) :
    ∃ tree' t', btAdd compare tree value = some (if value ∈ valuesOf t then -1 else 0, tree') ∧
      (value ∈ valuesOf t → tree' = tree) ∧ Represents compare tree' t' ∧
      ∀ v, v ∈ valuesOf t' ↔ v = value ∨ v ∈ valuesOf t := by
  by_cases member : value ∈ valuesOf t
  · refine ⟨tree, t, ?_, fun _ => rfl, represents, ?_⟩
    · simpa [member] using add_present total represents member
    · intro v
      constructor
      · exact .inr
      · rintro (rfl | old)
        · exact member
        · exact old
  · obtain ⟨tree', t', added, kept, perm⟩ := add_absent total represents member
    refine ⟨tree', t', by simpa [member] using added, fun other => absurd other member, kept, ?_⟩
    intro v
    rw [perm.mem_iff, List.mem_cons]

theorem adds_represents [DecidableEq α] (total : Total compare) (represents : Represents compare tree t) (values : List α) :
    ∃ tree' t', adds compare tree values = some tree' ∧ Represents compare tree' t' ∧
      ∀ v, v ∈ valuesOf t' ↔ v ∈ values ∨ v ∈ valuesOf t := by
  induction values generalizing tree t with
  | nil => exact ⟨tree, t, rfl, represents, by simp⟩
  | cons value rest ih =>
    obtain ⟨middle, m, added, -, kept, members⟩ := add_spec total represents value
    obtain ⟨tree', t', further, last, others⟩ := ih kept
    refine ⟨tree', t', ?_, last, ?_⟩
    · rw [adds, Runs.run, added]
      exact further
    · intro v
      rw [others, members, List.mem_cons]
      constructor
      · rintro (later | rfl | old)
        · exact .inl (.inr later)
        · exact .inl (.inl rfl)
        · exact .inr old
      · rintro ((rfl | later) | old)
        · exact .inr (.inl rfl)
        · exact .inl later
        · exact .inr (.inr old)

theorem values_ascending (lawful : Lawful compare) (represents : Represents compare tree t) :
    (valuesOf t).Pairwise fun a b => compare a b < 0 := by
  rw [valuesOf, List.pairwise_map]
  exact ordered_pairwise (lawful_elements lawful) represents.ordered

theorem values_nodup (total : Total compare) (represents : Represents compare tree t) : (valuesOf t).Nodup := by
  refine (values_ascending total.toLawful represents).imp ?_
  rintro a _ less rfl
  rw [total.self] at less
  exact absurd less (by decide)

theorem values_count (total : Total compare) (represents : Represents compare tree t) [DecidableEq α] {values : List α}
    (members : ∀ v, v ∈ valuesOf t ↔ v ∈ values) : tree.count = values.dedup.length := by
  have perm : (valuesOf t).Perm values.dedup := by
    rw [List.perm_ext_iff_of_nodup (values_nodup total represents) values.nodup_dedup]
    simpa using members
  rw [← perm.length_eq, valuesOf, List.length_map, inorder_length]
  exact represents.count.symm

/-! ### The count as an `int` -/

/-- A value that is there leaves the count, and another one counts. -/
theorem add_count {result : Int} {after : BtTree α} (added : btAdd compare tree value = some (result, after)) :
    (result = -1 ∧ after = tree) ∨ result = 0 ∧ after.count = tree.count + 1 := by
  obtain ⟨place, -, done⟩ := Option.bind_eq_some_iff.mp added
  cases place with
  | none =>
    cases done
    exact .inl ⟨rfl, rfl⟩
  | some leaf =>
    cases done
    exact .inr ⟨rfl, rfl⟩

theorem addCounted_iff {result : Int} {after : BtTree α} (small : tree.count ≤ intMax) :
    btAddCounted compare tree value = some (result, after) ↔
      btAdd compare tree value = some (result, after) ∧ after.count ≤ intMax := by
  cases added : btAdd compare tree value with
  | none => simp [btAddCounted, added]
  | some out =>
    obtain ⟨r, m⟩ := out
    have counted : (r = 0 → m.count ≤ intMax) ↔ m.count ≤ intMax := by
      rcases add_count added with ⟨rfl, rfl⟩ | ⟨rfl, -⟩
      · simp [small]
      · simp
    simp only [btAddCounted, added, Option.bind_eq_bind, Option.bind_some, counted]
    by_cases fits : m.count ≤ intMax
    · rw [assert_true fits, Option.bind_some]
      constructor
      · intro same
        cases same
        exact ⟨rfl, fits⟩
      · exact And.left
    · rw [assert_false fits, Option.bind_none]
      refine iff_of_false nofun ?_
      rintro ⟨same, low⟩
      cases same
      exact fits low

theorem adds_count {values : List α} {after : BtTree α} (added : adds compare tree values = some after) : tree.count ≤ after.count := by
  induction values generalizing tree with
  | nil =>
    cases added
    exact Int.le_refl _
  | cons value rest ih =>
    obtain ⟨m, stepped, further⟩ := run_cons.mp added
    obtain ⟨⟨result, _⟩, one, rfl⟩ := Option.map_eq_some_iff.mp stepped
    have more := ih further
    rcases add_count one with ⟨-, same⟩ | ⟨-, count⟩
    · rwa [← same]
    · simp only at more
      omega

/-- The calls go through just as far as the count fits. -/
theorem addsCounted_iff {values : List α} {after : BtTree α} (small : tree.count ≤ intMax) :
    addsCounted compare tree values = some after ↔ adds compare tree values = some after ∧ after.count ≤ intMax := by
  induction values generalizing tree with
  | nil =>
    constructor
    · intro same
      cases same
      exact ⟨rfl, small⟩
    · exact And.left
  | cons value rest ih =>
    constructor
    · intro counted
      obtain ⟨m, stepped, further⟩ := run_cons.mp counted
      obtain ⟨⟨result, _⟩, one, rfl⟩ := Option.map_eq_some_iff.mp stepped
      obtain ⟨added, fits⟩ := (addCounted_iff small).mp one
      obtain ⟨others, last⟩ := (ih fits).mp further
      exact ⟨run_cons.mpr ⟨_, by rw [added]; rfl, others⟩, last⟩
    · rintro ⟨added, last⟩
      obtain ⟨m, stepped, further⟩ := run_cons.mp added
      obtain ⟨⟨result, _⟩, one, rfl⟩ := Option.map_eq_some_iff.mp stepped
      have fits := Int.le_trans (adds_count further) last
      exact run_cons.mpr ⟨_, by rw [(addCounted_iff small).mpr ⟨one, fits⟩]; rfl, (ih fits).mpr ⟨further, last⟩⟩

end

/-- The tree is a search tree whose nodes have the father and direction of the link to them, a further `bt_add` that an `int` can
    count fails exactly for what is there and leaves the tree then, `bt_find` finds what was added, the count is that of the different
    values, and the loop of `bt_GoFirst`, `bt_EOT`, `bt_GetCur` and `bt_GoNext` gives them in ascending order. -/
structure TreeOf [DecidableEq α] (compare : α → α → Int) (values : List α) (tree : BtTree α) : Prop where
  searchTree : ∃ t, Shape tree.nodes none .none tree.root t ∧ Ordered (fun a b => compare a.2 b.2) t ∧ (addresses t).Nodup
  adds : ∀ value, (value ∈ values ∨ tree.count < intMax) → ∃ tree',
    btAddCounted compare tree value = some (if value ∈ values then -1 else 0, tree') ∧ (value ∈ values → tree' = tree)
  finds : ∀ key, btFind compare tree key = some (if key ∈ values then some key else none)
  count : btGetCount tree = values.dedup.length
  passes : ∃ passed, goThrough tree = some passed ∧ passed.Pairwise (fun a b => compare a b < 0) ∧ ∀ v, v ∈ passed ↔ v ∈ values

theorem represents_treeOf [DecidableEq α] {compare : α → α → Int} {tree : BtTree α} {t : BinaryTree (Nat × α)} {values : List α}
    (total : Total compare) (represents : Represents compare tree t) (small : tree.count ≤ intMax)
    (members : ∀ v, v ∈ valuesOf t ↔ v ∈ values) : TreeOf compare values tree where
  searchTree := ⟨t, represents.shape, represents.ordered, represents.distinct⟩
  adds := by
    intro value room
    obtain ⟨tree', -, done, same, -⟩ := add_spec total represents value
    simp only [members] at done same
    refine ⟨tree', (addCounted_iff small).mpr ⟨done, ?_⟩, same⟩
    rcases add_count done with ⟨-, rfl⟩ | ⟨added, count⟩
    · exact small
    · have missing : value ∉ values := by
        intro member
        rw [if_pos member] at added
        cases added
      have below := room.resolve_left missing
      omega
  finds := by
    intro key
    simpa only [members] using find_spec total represents key
  count := values_count total represents members
  passes := ⟨valuesOf t, goThrough_shape represents.shape (Nat.le_of_eq represents.allocated),
    values_ascending total.toLawful represents, members⟩

/-- The calls of `bt_add` on a new tree all have an outcome just when an `int` can count the different values. -/
private theorem create_adds [DecidableEq α] {compare : α → α → Int} (total : Total compare) (currentNode : Option Nat)
    (values : List α) : ∃ tree t, adds compare (btCreate currentNode) values = some tree ∧ Represents compare tree t ∧
      (∀ v, v ∈ valuesOf t ↔ v ∈ values) ∧
      ∀ after, addsCounted compare (btCreate currentNode) values = some after ↔ after = tree ∧ values.dedup.length ≤ intMax := by
  obtain ⟨tree, t, added, represents, members⟩ := adds_represents total (represents_create currentNode) values
  replace members : ∀ v, v ∈ valuesOf t ↔ v ∈ values := by
    intro v
    simpa [valuesOf] using members v
  refine ⟨tree, t, added, represents, members, fun after => ?_⟩
  have start : (btCreate currentNode : BtTree α).count ≤ intMax := show (0 : Int) ≤ intMax by decide
  have count := values_count total represents members
  rw [addsCounted_iff start, added]
  constructor
  · rintro ⟨same, fits⟩
    cases same
    exact ⟨rfl, by omega⟩
  · rintro ⟨rfl, fits⟩
    exact ⟨rfl, by omega⟩

/-- For a comparison that is a total order, a sequence of `bt_add` on a new tree makes the tree of its values just when an `int` can
    count them. -/
theorem adds_search_tree_iff [DecidableEq α] {compare : α → α → Int} (total : Total compare) (currentNode : Option Nat)
    (values : List α) :
    (∃ tree, addsCounted compare (btCreate currentNode) values = some tree ∧ TreeOf compare values tree) ↔
      values.dedup.length ≤ intMax := by
  obtain ⟨tree, t, -, represents, members, counted⟩ := create_adds total currentNode values
  constructor
  · rintro ⟨after, done, -⟩
    exact ((counted after).mp done).2
  · intro fits
    have count := values_count total represents members
    exact ⟨tree, (counted tree).mpr ⟨rfl, fits⟩, represents_treeOf total represents (by omega) members⟩

theorem difference_total : Total fun a b : Int => a - b := by
  constructor
  · constructor
    · intro a b
      omega
    · intro a b c
      omega
  · intro a b
    omega

theorem adds_search_tree_iff_sample :
    (∃ tree, addsCounted (fun a b : Int => a - b) (btCreate none) [3, 1, 2, 1] = some tree ∧ TreeOf (fun a b => a - b) [3, 1, 2, 1] tree) ↔
      [3, 1, 2, 1].dedup.length ≤ intMax :=
  adds_search_tree_iff difference_total none [3, 1, 2, 1]

/-- One number more than an `int` can count. -/
theorem count_of_values_overflows : ¬ ∃ tree, addsCounted (fun a b : Int => a - b) (btCreate none) ((List.range (intMax + 1)).map Nat.cast) = some tree ∧
    TreeOf (fun a b => a - b) ((List.range (intMax + 1)).map Nat.cast) tree := by
  rintro ⟨after, done, -⟩
  obtain ⟨_, _, _, _, _, counted⟩ := create_adds difference_total none ((List.range (intMax + 1)).map Nat.cast)
  have fits := ((counted after).mp done).2
  have apart : ((List.range (intMax + 1)).map (Nat.cast : Nat → Int)).Nodup := List.nodup_range.map fun _ _ => Int.ofNat_inj.mp
  rw [apart.dedup, List.length_map, List.length_range] at fits
  exact Nat.not_succ_le_self _ fits

end VoxiUtil.BtAdds
