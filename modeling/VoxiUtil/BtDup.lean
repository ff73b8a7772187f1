import Mathlib.Data.List.Pairwise
import VoxiUtil.BtAdds

/-!
`bt_dup`: the values of a tree, in the order of its own cursor, added to another tree.
-/
namespace VoxiUtil.BtDup
open VoxiUtil.Bt
open VoxiUtil.SearchTree
open VoxiUtil.BtShape
open VoxiUtil.BtTraversal
open VoxiUtil.BtAdds
variable {α : Type}

/-- What `bt_dup` adds for a value. -/
def copyOf (dupfunc : Option (α → α)) (value : α) : α :=
  match dupfunc with
  | none => value
  | some dup => dup value

/-- The loop of `bt_dup`. -/
def dupLoop (compare : α → α → Int) (dupfunc : Option (α → α)) : Nat → BtTree α → BtTree α → Option (BtTree α × BtTree α)
  | 0, bt, result => if btEOT bt then some (bt, result) else none
  | turns + 1, bt, result =>
    if btEOT bt then some (bt, result) else do
      let value ← btGetCur bt
      let (_, result) ← btAdd compare result (copyOf dupfunc value)
      let bt ← btGoNext bt
      dupLoop compare dupfunc turns bt result

/-- The original and its duplicate. `currentNode` is what the memory of the duplicate has there. -/
def btDup (compare : α → α → Int) (bt : BtTree α) (dupfunc : Option (α → α)) (currentNode : Option Nat) :
    Option (BtTree α × BtTree α) := do
  let oldnode := bt.currentNode
  let bt ← btGoFirst bt
  let (bt, result) ← dupLoop compare dupfunc bt.allocated bt (btCreate currentNode)
  some ({ bt with currentNode := oldnode }, { result with count := bt.count })

/-- A function that keeps the results of the comparison. -/
def Preserves (compare : α → α → Int) (dup : α → α) : Prop := ∀ a b, (compare (dup a) (dup b)).sign = (compare a b).sign

section
variable {compare : α → α → Int} {dupfunc : Option (α → α)} {tree result : BtTree α} {t r : BinaryTree (Nat × α)}
  {place : Option Nat} {turns : Nat} {value key : α}

theorem copy_preserves (preserves : ∀ dup, dupfunc = some dup → Preserves compare dup) : Preserves compare (copyOf dupfunc) := by
  cases dupfunc with
  | none => exact fun _ _ => rfl
  | some dup => exact preserves dup rfl

theorem preserves_neg {dup : α → α} (preserves : Preserves compare dup) (a b : α) :
    compare (dup a) (dup b) < 0 ↔ compare a b < 0 := by
  rw [← Int.sign_neg_iff, preserves a b, Int.sign_neg_iff]

/-! ### Trees under a comparison that is lawful -/

/-- A value that compares as 0 to none of a tree gets a node. -/
theorem add_apart (lawful : Lawful compare) (represents : Represents compare tree t)
    (apart : ∀ other ∈ valuesOf t, compare value other ≠ 0) :
    ∃ tree' t', btAdd compare tree value = some (0, tree') ∧ Represents compare tree' t' ∧
      (valuesOf t').Perm (value :: valuesOf t) := by
  refine add_new lawful represents ?_
  cases done : search (fun element => compare value element.2) t with
  | none => rfl
  | some element =>
    obtain ⟨member, same⟩ := search_mem done
    exact absurd same (apart _ (List.mem_map.mpr ⟨_, member, rfl⟩))

theorem adds_lawful (lawful : Lawful compare) (represents : Represents compare tree t) (values : List α) :
    ∃ tree' t', adds compare tree values = some tree' ∧ Represents compare tree' t' := by
  have each : ∀ (tree : BtTree α) (value : α), (∃ t, Represents compare tree t) → value ∈ values →
      ∃ tree', (btAdd compare tree value).map Prod.snd = some tree' ∧ ∃ t, Represents compare tree' t := by
    rintro tree value ⟨t, represents⟩ -
    cases done : search (fun element => compare value element.2) t with
    | none =>
      obtain ⟨tree', t', added, kept, -⟩ := add_new lawful represents done
      exact ⟨tree', by rw [added]; rfl, t', kept⟩
    | some element => exact ⟨tree, by rw [add_old represents done]; rfl, t, represents⟩
  obtain ⟨tree', ran, t', kept⟩ := Runs.run_total each ⟨t, represents⟩ fun _ member => member
  exact ⟨tree', t', ran, kept⟩

/-- A search finds the only value that compares as 0. -/
theorem find_weak (weak : Weak compare) (represents : Represents compare tree t) (key : α) :
    (∃ found ∈ valuesOf t, compare key found = 0 ∧ btFind compare tree key = some (some found) ∧
      ∀ other ∈ valuesOf t, compare key other = 0 → other = found) ∨
    btFind compare tree key = some none ∧ ∀ other ∈ valuesOf t, compare key other ≠ 0 := by
  have differ : Std.Symm fun a b => compare a b ≠ 0 := ⟨fun _ _ => mt weak.zero_symm⟩
  have distinct := (values_ascending weak.toLawful represents).imp fun less => Int.ne_of_lt less
  rw [btFind, nodefind_shape represents.shape (represents_height represents)]
  cases done : search (fun element => compare key element.2) t with
  | none =>
    refine .inr ⟨rfl, ?_⟩
    intro other member
    obtain ⟨⟨a, _⟩, inside, rfl⟩ := List.mem_map.mp member
    exact search_none (a, key) (lawful_elements weak.toLawful) represents.ordered done _ inside
  | some element =>
    obtain ⟨inside, same⟩ := search_mem done
    have member : element.2 ∈ valuesOf t := List.mem_map.mpr ⟨element, inside, rfl⟩
    refine .inl ⟨element.2, member, same, rfl, ?_⟩
    intro other also equal
    by_contra apart
    exact distinct.forall also member apart (weak.zero_trans _ _ _ (weak.zero_symm equal) same)

/-! ### The loop -/

/-- The loop adds the copies of the values that the cursor passes, all of which are new. -/
theorem dupLoop_walk (lawful : Lawful compare) (preserves : Preserves compare (copyOf dupfunc)) {values : List α}
    (walk : Walk tree place values none) (enough : values.length ≤ turns) (ascending : values.Pairwise fun a b => compare a b < 0)
    (represents : Represents compare result r) (before : ∀ copy ∈ valuesOf r, ∀ v ∈ values, compare copy (copyOf dupfunc v) < 0) :
    ∃ result' r', dupLoop compare dupfunc turns (on tree place) result = some (on tree none, result') ∧
      Represents compare result' r' ∧ (valuesOf r').Perm (values.map (copyOf dupfunc) ++ valuesOf r) := by
  induction values generalizing place turns result r with
  | nil =>
    obtain rfl : place = none := walk
    exact ⟨result, r, by cases turns <;> rfl, represents, .refl _⟩
  | cons value rest ih =>
    cases turns with
    | zero => simp at enough
    | succ turns =>
      obtain ⟨here, after, moved, further⟩ := walk
      obtain ⟨less, ascending⟩ := List.pairwise_cons.mp ascending
      have passed : btEOT (on tree place) = false := by
        cases place with
        | none => cases here
        | some node => rfl
      have apart : ∀ other ∈ valuesOf r, compare (copyOf dupfunc value) other ≠ 0 := by
        intro other member same
        have below := before other member value List.mem_cons_self
        have equal := lawful.zero_symm same
        omega
      obtain ⟨longer, l, added, kept, perm⟩ := add_apart lawful represents apart
      have behind : ∀ copy ∈ valuesOf l, ∀ v ∈ rest, compare copy (copyOf dupfunc v) < 0 := by
        intro copy member v later
        rcases List.mem_cons.mp (perm.mem_iff.mp member) with rfl | old
        · exact (preserves_neg preserves value v).mpr (less v later)
        · exact before copy old v (List.mem_cons_of_mem _ later)
      obtain ⟨result', r', ended, last, all⟩ := ih further (by simpa using enough) ascending kept behind
      refine ⟨result', r', ?_, last, all.trans ?_⟩
      · simp [dupLoop, passed, here, added, moved, ended]
      · exact (perm.append_left _).trans List.perm_middle

theorem dup_values (lawful : Lawful compare) (preserves : Preserves compare (copyOf dupfunc)) (represents : Represents compare tree t)
    (place currentNode : Option Nat) :
    ∃ result r, btDup compare (on tree place) dupfunc currentNode = some (on tree place, result) ∧ Represents compare result r ∧
      valuesOf r = (valuesOf t).map (copyOf dupfunc) := by
  have low : t.height ≤ tree.allocated := Nat.le_of_lt_succ (represents_height represents)
  have ascending := values_ascending lawful represents
  have enough : (valuesOf t).length ≤ tree.allocated := by
    rw [valuesOf, List.length_map, inorder_length]
    exact Nat.le_of_eq represents.allocated
  obtain ⟨result, r, ended, kept, perm⟩ := dupLoop_walk lawful preserves (walk_tree represents.shape low) enough ascending
    (represents_create currentNode) (by simp [valuesOf])
  have all : (valuesOf r).Perm ((valuesOf t).map (copyOf dupfunc)) := by simpa [valuesOf] using perm
  have same_count : (result.count : Int) = tree.count := by
    have size := all.length_eq
    rw [List.length_map, valuesOf, valuesOf, List.length_map, List.length_map, inorder_length, inorder_length] at size
    rw [← kept.count, ← represents.count, size]
  refine ⟨{ result with count := tree.count }, r, ?_, { kept with count := kept.count.trans same_count }, ?_⟩
  · have started : btGoFirst (on tree place) = some (on tree (entry t none)) := goFirst_shape represents.shape low
    have ended : dupLoop compare dupfunc (on tree (entry t none)).allocated (on tree (entry t none)) (btCreate currentNode) =
        some (on tree none, result) := ended
    rw [btDup, started, Option.bind_eq_bind, Option.bind_some, ended]
    rfl
  · refine all.eq_of_pairwise ?_ (values_ascending lawful kept) ?_
    · intro a b _ _ less greater
      have flipped := (lawful.antisymm a b).mp less
      omega
    · rw [List.pairwise_map]
      exact ascending.imp fun less => (preserves_neg preserves _ _).mpr less

end

/-- For every tree built by `bt_add` under a comparison that is a total order on what the values stand for,
    with its cursor anywhere, and every function that keeps the results of the comparison, or none:
    `bt_dup` leaves the tree and its cursor, and gives a search tree of the same count whose traversal
    is the image of the tree's. A key that compares to the copies as another one does to the values
    finds the copy of what that one finds. -/
theorem dup_copies {compare : α → α → Int} (weak : Weak compare) {values : List α} {currentNode : Option Nat} {tree : BtTree α}
    (added : adds compare (btCreate currentNode) values = some tree) {dupfunc : Option (α → α)}
    (preserves : ∀ dup, dupfunc = some dup → Preserves compare dup) (place resultNode : Option Nat) :
    ∃ result passed, btDup compare (on tree place) dupfunc resultNode = some (on tree place, result) ∧
      (∃ r, Shape result.nodes none .none result.root r ∧ Ordered (fun a b => compare a.2 b.2) r ∧ (addresses r).Nodup) ∧
      goThrough (on tree place) = some passed ∧ goThrough result = some (passed.map (copyOf dupfunc)) ∧
      btGetCount result = btGetCount (on tree place) ∧
      ∀ key key', (∀ v ∈ passed, (compare key' (copyOf dupfunc v)).sign = (compare key v).sign) →
        btFind compare result key' = (btFind compare (on tree place) key).map (Option.map (copyOf dupfunc)) := by
  obtain ⟨_, t, again, represents⟩ := adds_lawful weak.toLawful (represents_create currentNode) values
  cases again.symm.trans added
  have keeps := copy_preserves preserves
  obtain ⟨result, r, duplicated, kept, same⟩ := dup_values weak.toLawful keeps represents place resultNode
  have there : Represents compare (on tree place) t := { represents with }
  refine ⟨result, valuesOf t, duplicated, ⟨r, kept.shape, kept.ordered, kept.distinct⟩, ?_, ?_, ?_, ?_⟩
  · exact goThrough_shape there.shape (Nat.le_of_eq there.allocated)
  · rw [← same]
    exact goThrough_shape kept.shape (Nat.le_of_eq kept.allocated)
  · have size := congrArg List.length same
    rw [List.length_map, valuesOf, valuesOf, List.length_map, List.length_map, inorder_length, inorder_length] at size
    rw [btGetCount, btGetCount, ← kept.count, ← there.count, size]
  · intro key key' alike
    have zero : ∀ v ∈ valuesOf t, compare key' (copyOf dupfunc v) = 0 ↔ compare key v = 0 := by
      intro v member
      rw [← Int.sign_eq_zero_iff_zero, alike v member, Int.sign_eq_zero_iff_zero]
    rcases find_weak weak there key with ⟨found, member, equal, finds, -⟩ | ⟨finds, apart⟩
    · rcases find_weak weak kept key' with ⟨copy, -, -, copyFinds, only⟩ | ⟨-, apart⟩
      · have image : copyOf dupfunc found ∈ valuesOf r := same ▸ List.mem_map.mpr ⟨found, member, rfl⟩
        rw [finds, copyFinds, ← only _ image ((zero found member).mpr equal)]
        rfl
      · have image : copyOf dupfunc found ∈ valuesOf r := same ▸ List.mem_map.mpr ⟨found, member, rfl⟩
        exact absurd ((zero found member).mpr equal) (apart _ image)
    · rcases find_weak weak kept key' with ⟨copy, image, equal, -, -⟩ | ⟨copyFinds, -⟩
      · rw [same] at image
        obtain ⟨v, member, rfl⟩ := List.mem_map.mp image
        exact absurd ((zero v member).mp equal) (apart v member)
      · rw [finds, copyFinds]
        rfl

private theorem shifted (dup : Int → Int) (is_shift : some (· + 10) = some dup) : Preserves (fun a b => a - b) dup := by
  cases is_shift
  intro a b
  exact congrArg Int.sign (Int.add_sub_add_right a 10 b)

theorem dup_copies_moved : ∃ tree result passed, adds (fun a b : Int => a - b) (btCreate none) [3, 1, 2, 1] = some tree ∧
    btDup (fun a b => a - b) (on tree (some 2)) (some (· + 10)) none = some (on tree (some 2), result) ∧
    goThrough (on tree (some 2)) = some passed ∧ goThrough result = some (passed.map (· + 10)) := by
  obtain ⟨result, passed, duplicated, -, before, behind, -, -⟩ := dup_copies difference_total.weak
    (rfl : adds (fun a b : Int => a - b) (btCreate none) [3, 1, 2, 1] = some _) shifted (some 2) none
  exact ⟨_, result, passed, rfl, duplicated, before, behind⟩

end VoxiUtil.BtDup
