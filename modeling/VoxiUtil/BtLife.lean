import VoxiUtil.BtRemoval

/-!
The end of a tree of `bt.c`. `bt_destroy` goes along the links and frees what they lead to,
so it frees every node once just when no node is at the end of two ways from the root. The
calls only ever add links, and it is `bt_remove` of a node with two children that makes a
second way, to its left child.
-/
namespace VoxiUtil.BtLife
open VoxiUtil.Bt
open VoxiUtil.BtShape
open VoxiUtil.BtRemoval
open VoxiUtil.Runs
variable {α : Type}

/-- What is behind the test of a link for null. -/
def ifLinked {σ : Type} (visit : Nat → Option σ) (heap : σ) : Option Nat → Option σ
  | none => some heap
  | some node => visit node

/-- `bt_destroynode`, to at most so many nodes below each other. A node that was freed is `none`,
    which is neither read nor freed again. -/
def btDestroynode : Nat → (Nat → Option (Node α)) → Nat → Option (Nat → Option (Node α))
  | 0, _, _ => none
  | turns + 1, nodes, node => do
    let cur ← nodes node
    let nodes ← ifLinked (btDestroynode turns nodes) nodes cur.left
    let cur ← nodes node
    let nodes ← ifLinked (btDestroynode turns nodes) nodes cur.right
    let _ ← nodes node
    some (Function.update nodes node none)

/-- The nodes that are left when `bt_destroy` frees the tree itself. -/
def btDestroy (turns : Nat) (tree : BtTree α) : Option (Nat → Option (Node α)) :=
  ifLinked (btDestroynode turns tree.nodes) tree.nodes tree.root

inductive Call (α : Type)
  | add (value : α)
  | remove (value : α)
  | goFirst
  | goNext

def call (compare : α → α → Int) (tree : BtTree α) : Call α → Option (BtTree α)
  | .add value => (btAdd compare tree value).map Prod.snd
  | .remove value => (btRemove compare tree value).map Prod.snd
  | .goFirst => btGoFirst tree
  | .goNext => btGoNext tree

/-- No call removes a value whose node has two children. -/
def Unforked (compare : α → α → Int) (tree : BtTree α) : Call α → Prop
  | .remove value => ∀ node cur, btFindnode compare tree.nodes value (tree.allocated + 1) tree.root = some (some node) →
      tree.nodes node = some cur → cur.left = none ∨ cur.right = none
  | _ => True

/-! ### Ways through the heap -/

def link (cur : Node α) : Direction → Option Nat
  | .left => cur.left
  | .right => cur.right
  | .none => none

/-- The way from a link to a node, its last step first. -/
inductive Leads (nodes : Nat → Option (Node α)) (root : Option Nat) : List Direction → Nat → Prop
  | here {a : Nat} : root = some a → Leads nodes root [] a
  | step {path : List Direction} {a b : Nat} {cur : Node α} {direction : Direction} :
      Leads nodes root path a → nodes a = some cur → link cur direction = some b → Leads nodes root (direction :: path) b

/-- No node is at the end of two ways. -/
def Single (nodes : Nat → Option (Node α)) (root : Option Nat) : Prop :=
  ∀ p q a, Leads nodes root p a → Leads nodes root q a → p = q

/-- The heap has all links that the other one has. -/
def Extends (nodes nodes' : Nat → Option (Node α)) : Prop :=
  ∀ a cur, nodes a = some cur → ∃ cur', nodes' a = some cur' ∧ ∀ d b, link cur d = some b → link cur' d = some b

section
variable {nodes nodes' after : Nat → Option (Node α)} {root : Option Nat} {path p q : List Direction} {a b node : Nat}

theorem leads_functional (one : Leads nodes root p a) (other : Leads nodes root p b) : a = b := by
  induction one generalizing b with
  | here start =>
    cases other with
    | here again => exact Option.some.inj (start.symm.trans again)
  | step before there linked ih =>
    cases other with
    | step before' there' linked' =>
      cases ih before'
      cases there.symm.trans there'
      exact Option.some.inj (linked.symm.trans linked')

theorem leads_extends (more : Extends nodes nodes') (leads : Leads nodes root p a) : Leads nodes' root p a := by
  induction leads with
  | here start => exact .here start
  | step _ there linked ih =>
    obtain ⟨cur', there', kept⟩ := more _ _ there
    exact .step ih there' (kept _ _ linked)

theorem single_extends (more : Extends nodes nodes') (single : Single nodes' root) : Single nodes root :=
  fun p q a one other => single p q a (leads_extends more one) (leads_extends more other)

theorem leads_nowhere : ¬ Leads nodes none p a := by
  intro leads
  induction leads with
  | here start => cases start
  | step _ _ _ ih => exact ih

private theorem leads_below {cur : Node α} {d : Direction} (there : nodes node = some cur)
    (leads : Leads nodes (link cur d) p a) : Leads nodes (some node) (p ++ [d]) a := by
  induction leads with
  | here start => exact .step (.here rfl) there start
  | step _ there' linked ih => exact .step ih there' linked

/-- A way by its first step. -/
theorem leads_node {cur : Node α} (there : nodes node = some cur) : Leads nodes (some node) p a ↔ p = [] ∧ a = node ∨
    (∃ path, p = path ++ [.left] ∧ Leads nodes cur.left path a) ∨
      ∃ path, p = path ++ [.right] ∧ Leads nodes cur.right path a := by
  constructor
  · intro leads
    induction leads with
    | here start => exact .inl ⟨rfl, (Option.some.inj start).symm⟩
    | @step _ _ _ _ d _ here linked ih =>
      rcases ih with ⟨rfl, rfl⟩ | ⟨path, rfl, before⟩ | ⟨path, rfl, before⟩
      · cases there.symm.trans here
        cases d with
        | left => exact .inr (.inl ⟨[], rfl, .here linked⟩)
        | right => exact .inr (.inr ⟨[], rfl, .here linked⟩)
        | none => cases linked
      · exact .inr (.inl ⟨d :: path, rfl, .step before here linked⟩)
      · exact .inr (.inr ⟨d :: path, rfl, .step before here linked⟩)
  · rintro (⟨rfl, rfl⟩ | ⟨path, rfl, below⟩ | ⟨path, rfl, below⟩)
    · exact .here rfl
    · exact leads_below (d := .left) there below
    · exact leads_below (d := .right) there below

end

/-! ### What is freed -/

/-- The heap after everything that a link leads to was freed, each node once. -/
structure Cleared (nodes : Nat → Option (Node α)) (root : Option Nat) (after : Nat → Option (Node α)) : Prop where
  single : Single nodes root
  there : ∀ p a, Leads nodes root p a → (nodes a).isSome
  gone : ∀ p a, Leads nodes root p a → after a = none
  rest : ∀ a, (∀ p, ¬ Leads nodes root p a) → after a = nodes a

section
variable {nodes before after : Nat → Option (Node α)} {root : Option Nat} {p q : List Direction} {a node turns : Nat}
variable {cur : Node α}

theorem cleared_none : Cleared nodes none nodes :=
  ⟨fun _ _ _ one => absurd one leads_nowhere, fun _ _ leads => absurd leads leads_nowhere,
    fun _ _ leads => absurd leads leads_nowhere, fun _ _ => rfl⟩

/-- What is left where something was freed was there before. -/
private theorem left_over (cleared : Cleared nodes root before) (left : before a = some cur) : nodes a = some cur := by
  by_cases leads : ∃ p, Leads nodes root p a
  · obtain ⟨p, leads⟩ := leads
    rw [cleared.gone p a leads] at left
    cases left
  · rwa [← cleared.rest a (not_exists.mp leads)]

/-- The ways in what is left are ways that were there. -/
private theorem leads_before {start : Option Nat} (cleared : Cleared nodes root before) (leads : Leads before start p a) :
    Leads nodes start p a := by
  refine leads_extends (fun b cur there => ⟨cur, left_over cleared there, fun _ _ linked => linked⟩) leads

/-- The ways behind the other link are all left when they are freed without a fault. -/
private theorem leads_after {start : Option Nat} (cleared : Cleared nodes root before) (next : Cleared before start after)
    (leads : Leads nodes start p a) : Leads before start p a := by
  induction leads with
  | here begun => exact .here begun
  | step _ there linked ih =>
    obtain ⟨cur, left⟩ := Option.isSome_iff_exists.mp (next.there _ _ ih)
    cases (left_over cleared left).symm.trans there
    exact .step ih left linked

/-- A node, both of whose links were cleared, and which was then still there itself. -/
theorem cleared_node {last : Node α} (there : nodes node = some cur) (left : Cleared nodes cur.left before)
    (kept : before node = some cur) (right : Cleared before cur.right after) (still : after node = some last) :
    Cleared nodes (some node) (Function.update after node none) := by
  have notLeft : ∀ p, ¬ Leads nodes cur.left p node := fun p leads => by
    rw [left.gone p node leads] at kept
    cases kept
  have notRight : ∀ p, ¬ Leads nodes cur.right p node := fun p leads => by
    rw [right.gone p node (leads_after left right leads)] at still
    cases still
  have apart : ∀ p q a, Leads nodes cur.left p a → ¬ Leads nodes cur.right q a := fun p q a one other => by
    have present := right.there q a (leads_after left right other)
    rw [left.gone p a one] at present
    cases present
  have first : ∀ p, Leads nodes (some node) p node → p = [] := by
    intro p leads
    rcases (leads_node there).mp leads with ⟨start, _⟩ | ⟨path, _, below⟩ | ⟨path, _, below⟩
    · exact start
    · exact absurd below (notLeft path)
    · exact absurd below (notRight path)
  refine ⟨fun p q a one other => ?_, fun p a leads => ?_, fun p a leads => ?_, fun a nowhere => ?_⟩
  · rcases (leads_node there).mp one with ⟨rfl, rfl⟩ | ⟨path, rfl, below⟩ | ⟨path, rfl, below⟩
    · exact (first q other).symm
    · rcases (leads_node there).mp other with ⟨rfl, rfl⟩ | ⟨path', rfl, below'⟩ | ⟨path', rfl, below'⟩
      · exact absurd below (notLeft path)
      · rw [left.single path path' a below below']
      · exact absurd below' (apart path path' a below)
    · rcases (leads_node there).mp other with ⟨rfl, rfl⟩ | ⟨path', rfl, below'⟩ | ⟨path', rfl, below'⟩
      · exact absurd below (notRight path)
      · exact absurd below (apart path' path a below')
      · rw [right.single path path' a (leads_after left right below) (leads_after left right below')]
  · rcases (leads_node there).mp leads with ⟨_, rfl⟩ | ⟨path, _, below⟩ | ⟨path, _, below⟩
    · rw [there]; rfl
    · exact left.there path a below
    · obtain ⟨other, present⟩ := Option.isSome_iff_exists.mp (right.there path a (leads_after left right below))
      rw [left_over left present]; rfl
  · by_cases own : a = node
    · rw [own, Function.update_self]
    rw [Function.update_of_ne own]
    rcases (leads_node there).mp leads with ⟨_, same⟩ | ⟨path, _, below⟩ | ⟨path, _, below⟩
    · exact absurd same own
    · rw [right.rest a fun q leads => apart path q a below (leads_before left leads)]
      exact left.gone path a below
    · exact right.gone path a (leads_after left right below)
  · have other : a ≠ node := by
      rintro rfl
      exact nowhere [] (.here rfl)
    have outside : (∀ path, ¬ Leads nodes cur.left path a) ∧ ∀ path, ¬ Leads nodes cur.right path a :=
      ⟨fun path below => nowhere _ ((leads_node there).mpr (.inr (.inl ⟨path, rfl, below⟩))),
        fun path below => nowhere _ ((leads_node there).mpr (.inr (.inr ⟨path, rfl, below⟩)))⟩
    rw [Function.update_of_ne other, right.rest a fun path leads => outside.2 path (leads_before left leads),
      left.rest a outside.1]

/-- What is behind a link is freed once when it is freed without a fault. -/
theorem destroyed_cleared (done : ifLinked (btDestroynode turns nodes) nodes root = some after) : Cleared nodes root after := by
  induction turns generalizing nodes root after with
  | zero =>
    cases root with
    | none => cases done; exact cleared_none
    | some node => cases done
  | succ turns ih =>
    cases root with
    | none => cases done; exact cleared_none
    | some node =>
      simp only [ifLinked, btDestroynode, Option.bind_eq_bind, Option.bind_eq_some_iff] at done
      obtain ⟨cur, there, before, left, cur', kept, later, right, last, still, same⟩ := done
      have cleared := ih left
      cases (left_over cleared kept).symm.trans there
      cases same
      exact cleared_node there cleared kept (ih right) still

/-- Where the ways are single, lead to nodes and are short enough, all is freed. -/
theorem single_destroyed (single : Single nodes root) (there : ∀ p a, Leads nodes root p a → (nodes a).isSome)
    (short : ∀ p a, Leads nodes root p a → p.length < turns) :
    ∃ after, ifLinked (btDestroynode turns nodes) nodes root = some after := by
  induction turns generalizing nodes root with
  | zero =>
    cases root with
    | none => exact ⟨nodes, rfl⟩
    | some node => exact absurd (short [] node (.here rfl)) (Nat.not_lt_zero _)
  | succ turns ih =>
    cases root with
    | none => exact ⟨nodes, rfl⟩
    | some node =>
      obtain ⟨cur, here⟩ := Option.isSome_iff_exists.mp (there [] node (.here rfl))
      have goLeft : ∀ {p a}, Leads nodes cur.left p a → Leads nodes (some node) (p ++ [.left]) a :=
        fun below => (leads_node here).mpr (.inr (.inl ⟨_, rfl, below⟩))
      have goRight : ∀ {p a}, Leads nodes cur.right p a → Leads nodes (some node) (p ++ [.right]) a :=
        fun below => (leads_node here).mpr (.inr (.inr ⟨_, rfl, below⟩))
      obtain ⟨before, left⟩ := @ih nodes cur.left
        (fun p q a one other => List.append_cancel_right (single _ _ a (goLeft one) (goLeft other)))
        (fun p a below => there _ a (goLeft below)) (fun p a below => by simpa using short _ a (goLeft below))
      have cleared := destroyed_cleared left
      have kept : before node = some cur := by
        rw [cleared.rest node fun p below => by simpa using single _ _ node (goLeft below) (.here rfl)]
        exact here
      obtain ⟨after, right⟩ := @ih before cur.right
        (fun p q a one other => List.append_cancel_right
          (single _ _ a (goRight (leads_before cleared one)) (goRight (leads_before cleared other))))
        (fun p a below => by
          have old := goRight (leads_before cleared below)
          rw [cleared.rest a fun q other => by simpa using single _ _ a (goLeft other) old]
          exact there _ a old)
        (fun p a below => by simpa using short _ a (goRight (leads_before cleared below)))
      have again : after node = some cur := by
        rw [(destroyed_cleared right).rest node fun p below => by
          simpa using single _ _ node (goRight (leads_before cleared below)) (.here rfl)]
        exact kept
      refine ⟨Function.update after node none, ?_⟩
      show btDestroynode (turns + 1) nodes node = _
      simp only [btDestroynode, Option.bind_eq_bind, here, Option.bind_some, left, kept, right, again]

end

/-! ### What the calls do to the heap -/

/-- The heap of a tree on which only calls were made: no call frees a node or takes a link away. -/
structure Grown (tree : BtTree α) : Prop where
  nodes : ∀ a, (tree.nodes a).isSome ↔ a < tree.allocated
  linked : ∀ p a, Leads tree.nodes tree.root p a → a < tree.allocated
  reached : ∀ a < tree.allocated, ∃ p, Leads tree.nodes tree.root p a

section
variable {compare : α → α → Int} {nodes : Nat → Option (Node α)} {tree after : BtTree α} {father curNode : Option Nat}
variable {direction : Direction} {value : α} {p q : List Direction} {a node new turns : Nat} {cur : Node α}

/-- What is in a direction from a node that can be reached, or at the root. -/
inductive Place (nodes : Nat → Option (Node α)) (root : Option Nat) : Option Nat → Direction → Option Nat → Prop
  | root {direction : Direction} {target : Option Nat} : root = target → Place nodes root none direction target
  | below {path : List Direction} {a : Nat} {cur : Node α} {direction : Direction} {target : Option Nat} :
      Leads nodes root path a → nodes a = some cur → direction = .left ∨ direction = .right → link cur direction = target →
      Place nodes root (some a) direction target

/-- The loop of `bt_add` ends where nothing is. -/
theorem descend_place {root father' : Option Nat} {direction' : Direction} (place : Place nodes root father direction curNode)
    (ended : descend compare nodes value turns curNode father direction = some (some (father', direction'))) :
    Place nodes root father' direction' none := by
  induction turns generalizing curNode father direction with
  | zero => cases ended
  | succ turns ih =>
    cases curNode with
    | none => cases ended; exact place
    | some node =>
      have reached : ∃ p, Leads nodes root p node := by
        cases place with
        | root start => exact ⟨[], .here start⟩
        | below leads there _ linked => exact ⟨_, .step leads there linked⟩
      obtain ⟨path, leads⟩ := reached
      simp only [descend, Option.bind_eq_bind, Option.bind_eq_some_iff] at ended
      obtain ⟨cur, there, ended⟩ := ended
      split at ended
      · exact ih (.below leads there (.inl rfl) rfl) ended
      · split at ended
        · exact ih (.below leads there (.inr rfl) rfl) ended
        · cases ended

theorem grown_create (currentNode : Option Nat) : Grown (btCreate currentNode : BtTree α) :=
  ⟨fun a => by simp [btCreate], fun p a leads => absurd leads leads_nowhere, fun a before => absurd before (Nat.not_lt_zero a)⟩

private theorem setLink_link (father' : Node α) (side : direction = .left ∨ direction = .right) (d : Direction) :
    link (setLink father' direction new) d = if d = direction then some new else link father' d := by
  rcases side with rfl | rfl <;> cases d <;> rfl

/-- A new leaf is at the end of one way for each way to its father, and no other way changes. -/
theorem attach_leads {root : Option Nat} {a : Nat} (place : Place nodes root (some a) direction none) (fresh : nodes new = none)
    (leads : Leads (attach nodes new value (some a) direction) root p node) (apart : ∀ p, ¬ Leads nodes root p new) :
    Leads nodes root p node ∨ node = new ∧ ∃ before, p = direction :: before ∧ Leads nodes root before a := by
  obtain _ | @⟨_, _, cur, _, _, _, there, side, free⟩ := place
  have old : a ≠ new := by
    rintro rfl
    rw [fresh] at there
    cases there
  induction leads with
  | here start => exact .inl (.here start)
  | @step path b c other d _ here linked ih =>
    rcases ih with leads | ⟨rfl, _⟩
    · have known : b ≠ new := by
        rintro rfl
        exact apart _ leads
      by_cases father : b = a
      · subst father
        rw [attach_father known, there] at here
        cases here
        rw [setLink_link cur side] at linked
        split at linked
        · rename_i same
          cases linked
          exact .inr ⟨rfl, path, by rw [same], leads⟩
        · exact .inl (.step leads there linked)
      · rw [attach_other known fun same => father (Option.some.inj same).symm] at here
        exact .inl (.step leads here linked)
    · rw [attach_new fun same => old (Option.some.inj same)] at here
      cases here
      cases d <;> cases linked

/-- The heap has its links still when a leaf is added where nothing is. -/
theorem attach_extends {root : Option Nat} (place : Place nodes root father direction none) (fresh : nodes new = none) :
    Extends nodes (attach nodes new value father direction) := by
  intro b other there
  have old : b ≠ new := by
    rintro rfl
    rw [fresh] at there
    cases there
  by_cases own : father = some b
  · subst own
    obtain _ | ⟨_, here, side, free⟩ := place
    cases there.symm.trans here
    refine ⟨setLink other direction new, by rw [attach_father old, there]; rfl, fun d c linked => ?_⟩
    rw [setLink_link other side, if_neg]
    · exact linked
    · rintro rfl
      rw [free] at linked
      cases linked
  · exact ⟨other, by rw [attach_other old own]; exact there, fun _ _ linked => linked⟩

private theorem attach_isSome {root : Option Nat} (place : Place nodes root father direction none) (fresh : nodes new = none) :
    (attach nodes new value father direction a).isSome ↔ (nodes a).isSome ∨ a = new := by
  have apart : father ≠ some new := by
    rintro rfl
    obtain _ | ⟨_, there, _, _⟩ := place
    rw [fresh] at there
    cases there
  by_cases own : a = new
  · simp [own, attach_new apart]
  · by_cases under : father = some a
    · rw [under, attach_father own]
      simp [own]
    · rw [attach_other own under]
      simp [own]

/-- The first leaf is the only node. -/
private theorem first_leads (leads : Leads (attach nodes new value none direction) (some new) p a) : p = [] ∧ a = new := by
  induction leads with
  | here start => exact ⟨rfl, (Option.some.inj start).symm⟩
  | @step _ _ _ _ d _ there linked ih =>
    obtain ⟨_, rfl⟩ := ih
    rw [attach_new (by simp)] at there
    cases there
    cases d <;> cases linked

/-- `bt_add` leaves every way single that was so. -/
theorem add_grown (grown : Grown tree) (place : Place tree.nodes tree.root father direction none) :
    Grown (withNode tree value father direction) ∧
      (Single (withNode tree value father direction).nodes (withNode tree value father direction).root ↔
        Single tree.nodes tree.root) := by
  have fresh : tree.nodes tree.allocated = none := by
    have absent := mt (grown.nodes tree.allocated).mp (Nat.lt_irrefl _)
    simpa using absent
  have apart : ∀ p, ¬ Leads tree.nodes tree.root p tree.allocated := fun p leads => absurd (grown.linked p _ leads) (Nat.lt_irrefl _)
  have more : Extends tree.nodes (attach tree.nodes tree.allocated value father direction) := attach_extends place fresh
  have nodes : ∀ a, (attach tree.nodes tree.allocated value father direction a).isSome ↔ a < tree.allocated + 1 := by
    intro a
    rw [attach_isSome place fresh, grown.nodes]
    omega
  cases father with
  | none =>
    obtain ⟨start⟩ | _ := place
    refine ⟨⟨nodes, fun p a leads => ?_, fun a before => ⟨[], .here ?_⟩⟩, fun _ => ?_, fun _ p q a one other => ?_⟩
    · obtain ⟨_, rfl⟩ := first_leads leads
      exact Nat.lt_succ_self _
    · have first : a = tree.allocated := by
        by_contra other
        obtain ⟨p, leads⟩ := grown.reached a (by simp only [withNode] at before; omega)
        rw [start] at leads
        exact leads_nowhere leads
      rw [first]
      rfl
    · rw [start]
      exact fun _ _ _ one => absurd one leads_nowhere
    · exact (first_leads one).1.trans (first_leads other).1.symm
  | some father =>
    have ways : ∀ p a, Leads (attach tree.nodes tree.allocated value (some father) direction) tree.root p a →
        Leads tree.nodes tree.root p a ∨ a = tree.allocated ∧ ∃ before, p = direction :: before ∧
          Leads tree.nodes tree.root before father := fun p a leads => attach_leads place fresh leads apart
    refine ⟨⟨nodes, fun p a leads => ?_, fun a before => ?_⟩, fun single => single_extends more single, fun single p q a one other => ?_⟩
    · rcases ways p a leads with old | ⟨rfl, _⟩
      · exact Nat.lt_succ_of_lt (grown.linked p a old)
      · exact Nat.lt_succ_self _
    · by_cases new : a = tree.allocated
      · subst new
        obtain _ | @⟨path, _, cur, _, _, leads, there, side, _⟩ := place
        have old : father ≠ tree.allocated := by
          rintro rfl
          exact apart _ leads
        have linked : attach tree.nodes tree.allocated value (some father) direction father =
            some (setLink cur direction tree.allocated) := by
          rw [attach_father old, there]
          rfl
        refine ⟨direction :: path, .step (leads_extends more leads) linked ?_⟩
        rw [setLink_link cur side, if_pos rfl]
      · obtain ⟨p, leads⟩ := grown.reached a (by simp only [withNode] at before; omega)
        exact ⟨p, leads_extends more leads⟩
    · rcases ways p a one with old | ⟨rfl, before, rfl, leads⟩
      · rcases ways q a other with old' | ⟨rfl, _⟩
        · exact single p q a old old'
        · exact absurd old (apart p)
      · rcases ways q _ other with old' | ⟨_, before', rfl, leads'⟩
        · exact absurd old' (apart q)
        · rw [single before before' father leads leads']

/-! ### Removing -/

private theorem update_extends (cur' : Node α) (there : nodes node = some cur) (kept : ∀ d b, link cur d = some b → link cur' d = some b) :
    Extends nodes (Function.update nodes node (some cur')) := by
  intro a other here
  by_cases own : a = node
  · subst own
    cases there.symm.trans here
    exact ⟨cur', Function.update_self _ _ _, kept⟩
  · exact ⟨other, by rw [Function.update_of_ne own]; exact here, fun _ _ linked => linked⟩

/-- A node that changes and keeps its links. -/
theorem withoutNode_same {cur' : Node α} (grown : Grown tree) (there : tree.nodes node = some cur) (equal : ∀ d, link cur' d = link cur d) :
    Grown (withoutNode tree node cur') ∧
      (Single (withoutNode tree node cur').nodes (withoutNode tree node cur').root ↔ Single tree.nodes tree.root) := by
  have more : Extends tree.nodes (withoutNode tree node cur').nodes :=
    update_extends cur' there fun d b linked => (equal d).trans linked
  have fewer : Extends (withoutNode tree node cur').nodes tree.nodes := by
    have back := update_extends cur (Function.update_self node (some cur') tree.nodes) fun d b linked => (equal d).symm.trans linked
    rwa [Function.update_idem, ← there, Function.update_eq_self] at back
  refine ⟨⟨fun a => ?_, fun p a leads => grown.linked p a (leads_extends fewer leads), fun a before => ?_⟩,
    single_extends more, single_extends fewer⟩
  · rw [withoutNode, ← grown.nodes a]
    by_cases own : a = node
    · simp [own, there]
    · simp [own]
  · obtain ⟨p, leads⟩ := grown.reached a before
    exact ⟨p, leads_extends more leads⟩

theorem goLeft_last (gone : goLeft nodes turns a = some node) : ∃ last, nodes node = some last ∧ last.left = none := by
  induction turns generalizing a with
  | zero => cases gone
  | succ turns ih =>
    simp only [goLeft, Option.bind_eq_bind, Option.bind_eq_some_iff] at gone
    obtain ⟨cur, there, gone⟩ := gone
    split at gone
    · rename_i nothing
      cases gone
      exact ⟨cur, there, nothing⟩
    · exact ih gone

/-- A second link to the left child of a node makes a second way to it. -/
theorem forked {last : Node α} {left : Nat} (grown : Grown tree) (there : tree.nodes a = some cur) (child : cur.left = some left)
    (at_last : tree.nodes node = some last) (free : last.left = none) :
    Grown (withoutNode tree node { last with left := some left }) ∧
      ¬ Single (Function.update tree.nodes node (some { last with left := some left })) tree.root := by
  have apart : a ≠ node := by
    rintro rfl
    cases there.symm.trans at_last
    rw [child] at free
    cases free
  have more : Extends tree.nodes (Function.update tree.nodes node (some { last with left := some left })) := by
    refine update_extends _ at_last fun d b linked => ?_
    cases d with
    | left => rw [link, free] at linked; cases linked
    | _ => exact linked
  have inside : ∀ b other, tree.nodes b = some other → ∃ p, Leads tree.nodes tree.root p b := fun b other here =>
    grown.reached b ((grown.nodes b).mp (Option.isSome_iff_exists.mpr ⟨other, here⟩))
  have here := Function.update_of_ne apart (some { last with left := some left }) tree.nodes
  have there' : Function.update tree.nodes node (some { last with left := some left }) node = some { last with left := some left } :=
    Function.update_self _ _ _
  obtain ⟨p, leads⟩ := inside a cur there
  obtain ⟨q, leads'⟩ := inside node last at_last
  constructor
  · refine ⟨fun b => ?_, fun path b ways => ?_, fun b before => ?_⟩
    · rw [withoutNode, ← grown.nodes b]
      by_cases own : b = node
      · subst own
        simp [at_last]
      · simp [own]
    · induction ways with
      | here start => exact grown.linked [] _ (.here start)
      | @step _ b c other d _ at_b linked ih =>
        obtain ⟨way, known⟩ := grown.reached b ih
        by_cases own : b = node
        · subst own
          cases there'.symm.trans at_b
          cases d with
          | left =>
            cases linked
            have way : Leads tree.nodes tree.root (.left :: p) left := .step leads there child
            exact grown.linked _ _ way
          | right =>
            have way : Leads tree.nodes tree.root (.right :: q) c := .step leads' at_last linked
            exact grown.linked _ _ way
          | none => cases linked
        · have at_b : tree.nodes b = some other := (Function.update_of_ne own _ _).symm.trans at_b
          exact grown.linked _ _ (.step known at_b linked)
    · obtain ⟨path, ways⟩ := grown.reached b before
      exact ⟨path, leads_extends more ways⟩
  · intro single
    have one : Leads (Function.update tree.nodes node (some { last with left := some left })) tree.root (.left :: p) left :=
      .step (leads_extends more leads) (here.trans there) child
    have other : Leads (Function.update tree.nodes node (some { last with left := some left })) tree.root (.left :: q) left :=
      .step (leads_extends more leads') there' rfl
    have same := single _ _ left one other
    rw [List.cons.injEq] at same
    exact apart (leads_functional leads (same.2 ▸ leads'))

/-- `bt_remove` leaves the ways single just when the node that it finds has not two children. -/
theorem remove_grown {out : Bool × BtTree α} (grown : Grown tree) (removed : btRemove compare tree value = some out) :
    Grown out.2 ∧ (Single out.2.nodes out.2.root ↔ Single tree.nodes tree.root ∧ Unforked compare tree (.remove value)) := by
  simp only [btRemove, Option.bind_eq_bind, Option.bind_eq_some_iff] at removed
  obtain ⟨found, search, removed⟩ := removed
  have unforked : Unforked compare tree (.remove value) ↔
      ∀ node cur, found = some node → tree.nodes node = some cur → cur.left = none ∨ cur.right = none := by
    rw [Unforked, search]
    simp
  rw [unforked]
  cases found with
  | none =>
    cases removed
    exact ⟨grown, by simp⟩
  | some a =>
    simp only [Option.bind_eq_some_iff] at removed
    obtain ⟨cur, there, removed⟩ := removed
    have children : (∀ node other, some a = some node → tree.nodes node = some other → other.left = none ∨ other.right = none) ↔
        cur.left = none ∨ cur.right = none := by
      constructor
      · exact fun all => all a cur rfl there
      · rintro one _ other ⟨⟩ here
        cases there.symm.trans here
        exact one
    rw [children]
    cases right : cur.right with
    | none =>
      rw [right] at removed
      cases removed
      have equal : ∀ d, link ⟨none, cur.left, cur.left, cur.direction, cur.value⟩ d = link cur d := by
        intro d
        cases d with
        | right => exact right.symm
        | _ => rfl
      have same := withoutNode_same grown there equal
      exact ⟨same.1, same.2.trans (by simp)⟩
    | some child =>
      rw [right] at removed
      simp only [Option.bind_eq_some_iff] at removed
      obtain ⟨node, gone, last, at_last, same⟩ := removed
      cases same
      obtain ⟨last', here, free⟩ := goLeft_last gone
      cases at_last.symm.trans here
      cases left : cur.left with
      | none =>
        have equal : ∀ d, link { last with left := none } d = link last d := by
          intro d
          cases d with
          | left => exact free.symm
          | _ => rfl
        have same := withoutNode_same grown at_last equal
        exact ⟨same.1, same.2.trans (by simp)⟩
      | some left =>
        obtain ⟨grown', double⟩ := forked grown there left at_last free
        exact ⟨grown', by simpa [withoutNode] using double⟩

/-! ### Whole runs -/

/-- What a call does to the ways. -/
theorem call_grown {op : Call α} (grown : Grown tree) (called : call compare tree op = some after) :
    Grown after ∧ (Single after.nodes after.root ↔ Single tree.nodes tree.root ∧ Unforked compare tree op) := by
  have moved : ∀ currentNode, Grown { tree with currentNode } ∧
      (Single tree.nodes tree.root ↔ Single tree.nodes tree.root ∧ True) := fun currentNode =>
    ⟨⟨grown.nodes, grown.linked, grown.reached⟩, by simp⟩
  cases op with
  | add value =>
    obtain ⟨out, added, rfl⟩ := Option.map_eq_some_iff.mp called
    simp only [btAdd, Option.bind_eq_bind, Option.bind_eq_some_iff] at added
    obtain ⟨place, ended, added⟩ := added
    cases place with
    | none => cases added; exact moved _
    | some place =>
      cases added
      have grown' := @add_grown α tree place.1 place.2 value grown (descend_place (.root rfl) ended)
      exact ⟨grown'.1, by simpa [Unforked] using grown'.2⟩
  | remove value =>
    obtain ⟨out, removed, rfl⟩ := Option.map_eq_some_iff.mp called
    exact remove_grown grown removed
  | goFirst =>
    simp only [call, btGoFirst] at called
    split at called
    · cases called; exact moved _
    · obtain ⟨_, _, rfl⟩ := Option.map_eq_some_iff.mp called
      exact moved _
  | goNext =>
    simp only [call, btGoNext, Option.bind_eq_bind, Option.bind_eq_some_iff] at called
    obtain ⟨_, _, _, _, called⟩ := called
    split at called <;> obtain ⟨_, _, rfl⟩ := Option.map_eq_some_iff.mp called <;> exact moved _

/-- The nodes on a single way are different ones. -/
private theorem way_nodes {root : Option Nat} (single : Single nodes root) (leads : Leads nodes root p a) :
    ∃ passed : List Nat, passed.length = p.length + 1 ∧ passed.Nodup ∧
      ∀ b ∈ passed, ∃ q, Leads nodes root q b ∧ q.length ≤ p.length := by
  induction leads with
  | @here a start =>
    exact ⟨[a], rfl, List.nodup_singleton a, fun b member => ⟨[], .here (by rw [start, List.mem_singleton.mp member]), Nat.le_refl _⟩⟩
  | @step path a b cur d before there linked ih =>
    obtain ⟨passed, length, distinct, ways⟩ := ih
    have leads := Leads.step before there linked
    refine ⟨b :: passed, by simp [length], List.nodup_cons.mpr ⟨fun member => ?_, distinct⟩, fun c member => ?_⟩
    · obtain ⟨q, way, shorter⟩ := ways b member
      rw [single q _ b way leads, List.length_cons] at shorter
      omega
    · rcases List.mem_cons.mp member with rfl | earlier
      · exact ⟨_, leads, Nat.le_refl _⟩
      · obtain ⟨q, way, shorter⟩ := ways c earlier
        exact ⟨q, way, Nat.le_succ_of_le shorter⟩

/-- `bt_destroy` comes to its end just when the ways are single, and no node is left then. -/
theorem destroy_single (grown : Grown tree) : ((∃ turns left, btDestroy turns tree = some left) ↔ Single tree.nodes tree.root) ∧
    ∀ turns left, btDestroy turns tree = some left → ∀ node, left node = none := by
  refine ⟨⟨?_, fun single => ⟨tree.allocated, ?_⟩⟩, fun turns left done node => ?_⟩
  · rintro ⟨turns, left, done⟩
    exact (destroyed_cleared done).single
  · refine single_destroyed single (fun p a leads => (grown.nodes a).mpr (grown.linked p a leads)) fun p a leads => ?_
    obtain ⟨passed, length, distinct, ways⟩ := way_nodes single leads
    have inside : passed ⊆ List.range tree.allocated := fun b member => by
      obtain ⟨q, way, _⟩ := ways b member
      exact List.mem_range.mpr (grown.linked q b way)
    have few := (List.subperm_of_subset distinct inside).length_le
    rw [List.length_range] at few
    omega
  · have cleared := destroyed_cleared done
    by_cases known : node < tree.allocated
    · obtain ⟨p, leads⟩ := grown.reached node known
      exact cleared.gone p node leads
    · have absent : tree.nodes node = none := by simpa using mt (grown.nodes node).mp known
      rw [cleared.rest node fun p leads => known (grown.linked p node leads), absent]

end

/-- After any calls on a new tree, whatever its comparison, `bt_destroy` frees each node once, without
    reading or freeing one that is gone, just when no call has removed a value whose node had two
    children. No node is left then, those of removed values included. -/
theorem tree_destroyed_iff (compare : α → α → Int) (currentNode : Option Nat) {calls : List (Call α)} {tree : BtTree α}
    (ran : run (call compare) (btCreate currentNode) calls = some tree) :
    ((∃ turns left, btDestroy turns tree = some left) ↔ Guarded (call compare) (Unforked compare) (btCreate currentNode) calls) ∧
      ∀ turns left, btDestroy turns tree = some left → ∀ node, left node = none := by
  have grown := run_invariant (fun _ _ _ inv called => (call_grown inv called).1) (grown_create currentNode) ran
  have ways := property_iff_guarded (fun _ _ _ inv called => (call_grown inv called).1)
    (fun _ _ _ inv called => (call_grown inv called).2) (grown_create currentNode) ran
  obtain ⟨ends, nothing⟩ := destroy_single grown
  refine ⟨ends.trans (ways.trans (and_iff_right ?_)), nothing⟩
  exact fun _ _ _ one => absurd one leads_nowhere

theorem tree_destroyed_iff_fork : ∃ tree, run (call fun a b : Int => a - b) (btCreate none) [.add 2, .add 1, .add 3, .remove 2] = some tree ∧
    ((∃ turns left, btDestroy turns tree = some left) ↔ Guarded (call fun a b : Int => a - b) (Unforked fun a b => a - b)
      (btCreate none) [.add 2, .add 1, .add 3, .remove 2]) ∧
    ∀ turns left, btDestroy turns tree = some left → ∀ node, left node = none :=
  ⟨_, rfl, tree_destroyed_iff _ none rfl⟩

end VoxiUtil.BtLife
