import Mathlib.Data.List.Nodup
import Mathlib.Data.List.Perm.Subperm
import Mathlib.Data.List.Range

/-!
A free list that is threaded through an array: a free slot holds the index of the next
one, and -1 ends the list.
-/
namespace VoxiUtil.FreeList
universe u
variable {β : Type u}

/-- The link that the slot of an index holds, when it holds one. -/
def linkAt (linkOf : β → Option Int) (slots : List β) (i : Nat) : Option Int := slots[i]?.bind linkOf

/-- The indices that the links visit from `first` on, up to -1. -/
def Chain (linkOf : β → Option Int) (slots : List β) (first : Int) : List Nat → Prop
  | [] => first = -1
  | i :: rest => first = i ∧ ∃ next, linkAt linkOf slots i = some next ∧ Chain linkOf slots next rest

/-- The list visits just the slots that hold a link, each once. -/
structure Threaded (linkOf : β → Option Int) (slots : List β) (first : Int) (visited : List Nat) : Prop where
  chain : Chain linkOf slots first visited
  distinct : visited.Nodup
  all : ∀ i, i ∈ visited ↔ (linkAt linkOf slots i).isSome

section
variable {linkOf : β → Option Int} {slots : List β} {first : Int} {visited : List Nat} {i : Nat} {slot : β}

theorem linkAt_lt (link : (linkAt linkOf slots i).isSome) : i < slots.length := by
  by_contra outside
  rw [linkAt, List.getElem?_eq_none (Nat.not_lt.mp outside)] at link
  cases link

theorem linkAt_set (inside : i < slots.length) (j : Nat) :
    linkAt linkOf (slots.set i slot) j = if i = j then linkOf slot else linkAt linkOf slots j := by
  rw [linkAt, List.getElem?_set]
  by_cases same : i = j
  · rw [if_pos same, if_pos same, if_pos inside, Option.bind_some]
  · rw [if_neg same, if_neg same, linkAt]

/-- A chain depends on the links of its own slots only. -/
theorem chain_frame {slots' : List β} (same : ∀ i ∈ visited, linkAt linkOf slots' i = linkAt linkOf slots i)
    (chain : Chain linkOf slots first visited) : Chain linkOf slots' first visited := by
  induction visited generalizing first with
  | nil => exact chain
  | cons i rest ih =>
    obtain ⟨start, next, link, later⟩ := chain
    refine ⟨start, next, (same i List.mem_cons_self).trans link, ?_⟩
    exact ih (fun j member => same j (List.mem_cons_of_mem i member)) later

/-- The list is empty just when it starts with -1; else it starts with a slot. -/
theorem threaded_cases (free : Threaded linkOf slots first visited) :
    first = -1 ∧ visited = [] ∨
      ∃ (i : Nat) (rest : List Nat), first = i ∧ visited = i :: rest ∧ i < slots.length := by
  cases visited with
  | nil => exact .inl ⟨free.chain, rfl⟩
  | cons i rest => exact .inr ⟨i, rest, free.chain.1, rfl, linkAt_lt ((free.all i).mp List.mem_cons_self)⟩

/-- The first slot leaves the list. -/
theorem threaded_take {rest : List Nat} (free : Threaded linkOf slots first (i :: rest)) (used : linkOf slot = none) :
    ∃ next, linkAt linkOf slots i = some next ∧ Threaded linkOf (slots.set i slot) next rest := by
  obtain ⟨⟨_, next, link, later⟩, distinct, all⟩ := free
  obtain ⟨apart, distinct⟩ := List.nodup_cons.mp distinct
  have inside : i < slots.length := linkAt_lt (by rw [link]; rfl)
  have other : ∀ j ∈ rest, i ≠ j := fun j member same => apart (same ▸ member)
  refine ⟨next, link, chain_frame (fun j member => ?_) later, distinct, fun j => ?_⟩
  · rw [linkAt_set inside, if_neg (other j member)]
  · rw [linkAt_set inside]
    by_cases same : i = j
    · rw [if_pos same, used]
      exact iff_of_false (same ▸ apart) nofun
    · rw [if_neg same, ← all, List.mem_cons, or_iff_right (Ne.symm same)]

/-- A slot becomes the first one of the list. -/
theorem threaded_give (free : Threaded linkOf slots first visited) (inside : i < slots.length)
    (used : linkAt linkOf slots i = none) (link : linkOf slot = some first) :
    Threaded linkOf (slots.set i slot) i (i :: visited) := by
  obtain ⟨chain, distinct, all⟩ := free
  have apart : i ∉ visited := by
    rw [all, used]
    nofun
  refine ⟨⟨rfl, first, ?_, chain_frame (fun j member => ?_) chain⟩, List.nodup_cons.mpr ⟨apart, distinct⟩, fun j => ?_⟩
  · rw [linkAt_set inside, if_pos rfl, link]
  · have other : i ≠ j := fun same => apart (same ▸ member)
    rw [linkAt_set inside, if_neg other]
  · rw [linkAt_set inside, List.mem_cons]
    by_cases same : i = j
    · rw [if_pos same, link]
      exact iff_of_true (.inl same.symm) rfl
    · rw [if_neg same, ← all, or_iff_right (Ne.symm same)]

/-- The list is not longer than the array. -/
theorem threaded_length (free : Threaded linkOf slots first visited) : visited.length ≤ slots.length := by
  have inside : visited ⊆ List.range slots.length :=
    fun i member => List.mem_range.mpr (linkAt_lt ((free.all i).mp member))
  simpa using (free.distinct.subperm inside).length_le

/-- What a chain visits from one of its slots on. -/
theorem chain_at {pre rest : List Nat} (chain : Chain linkOf slots first (pre ++ i :: rest)) :
    ∃ next, linkAt linkOf slots i = some next ∧ Chain linkOf slots next rest := by
  induction pre generalizing first with
  | nil => exact chain.2
  | cons j pre ih =>
    obtain ⟨_, _, _, later⟩ := chain
    exact ih later

/-- The slot behind another one leaves a chain when that one gets its link. -/
theorem chain_unlink {slots' : List β} {pre post : List Nat} {p : Nat} {next : Int}
    (chain : Chain linkOf slots first (pre ++ p :: i :: post)) (link : linkAt linkOf slots i = some next)
    (relinked : linkAt linkOf slots' p = some next)
    (others : ∀ j ∈ pre ++ post, linkAt linkOf slots' j = linkAt linkOf slots j) :
    Chain linkOf slots' first (pre ++ p :: post) := by
  induction pre generalizing first with
  | nil =>
    obtain ⟨start, _, _, _, behind, same, later⟩ := chain
    cases link.symm.trans same
    exact ⟨start, next, relinked, chain_frame others later⟩
  | cons j pre ih =>
    obtain ⟨start, after, here, later⟩ := chain
    refine ⟨start, after, (others j (by simp)).trans here, ih later fun k member => ?_⟩
    exact others k (List.mem_cons_of_mem j member)

/-- A slot inside the list leaves it. -/
theorem threaded_unlink {pre post : List Nat} {p : Nat} {before : β} {next : Int}
    (free : Threaded linkOf slots first (pre ++ p :: i :: post)) (link : linkAt linkOf slots i = some next)
    (relinked : linkOf before = some next) (used : linkOf slot = none) :
    Threaded linkOf ((slots.set p before).set i slot) first (pre ++ p :: post) := by
  obtain ⟨chain, distinct, all⟩ := free
  have split : (pre ++ p :: i :: post).Perm (p :: i :: (pre ++ post)) :=
    List.perm_middle.trans (List.perm_middle.cons p)
  obtain ⟨apartP, apartI, rest⟩ := by simpa only [List.nodup_cons] using split.nodup_iff.mp distinct
  have differ : p ≠ i := fun same => apartP (same ▸ List.mem_cons_self)
  have insideP : p < slots.length := linkAt_lt ((all p).mp (by simp))
  have insideI : i < (slots.set p before).length := by
    rw [List.length_set]
    exact linkAt_lt (by rw [link]; rfl)
  have set : ∀ j, linkAt linkOf ((slots.set p before).set i slot) j =
      if i = j then none else if p = j then some next else linkAt linkOf slots j := by
    intro j
    rw [linkAt_set insideI, linkAt_set insideP, used, relinked]
  refine ⟨chain_unlink chain link ?_ fun j member => ?_, ?_, fun j => ?_⟩
  · rw [set, if_neg differ.symm, if_pos rfl]
  · have otherI : i ≠ j := fun same => apartI (same ▸ member)
    have otherP : p ≠ j := fun same => apartP (same ▸ List.mem_cons_of_mem i member)
    rw [set, if_neg otherI, if_neg otherP]
  · refine List.perm_middle.nodup_iff.mpr (List.nodup_cons.mpr ⟨fun member => ?_, rest⟩)
    exact apartP (List.mem_cons_of_mem i member)
  · rw [set, List.perm_middle.mem_iff, List.mem_cons]
    by_cases sameI : i = j
    · rw [if_pos sameI]
      refine iff_of_false ?_ nofun
      rintro (sameP | member)
      · exact differ (sameP.symm.trans sameI.symm)
      · exact apartI (sameI ▸ member)
    · rw [if_neg sameI]
      by_cases sameP : p = j
      · rw [if_pos sameP]
        exact iff_of_true (.inl sameP.symm) rfl
      · rw [if_neg sameP, ← all, split.mem_iff, List.mem_cons, List.mem_cons, or_iff_right (Ne.symm sameP),
          or_iff_right (Ne.symm sameP), or_iff_right (Ne.symm sameI)]

/-- Slots that link each other in order, and the last one to `first`. -/
def Linked (linkOf : β → Option Int) (start : Nat) (first : Int) (more : List β) : Prop :=
  ∀ k < more.length, linkAt linkOf more k = some (if k + 1 = more.length then first else ((start + k + 1 : Nat) : Int))

/-- The links of the slots behind the array, from the `k`-th of them on. -/
private theorem chain_extend {more : List β} (chain : Chain linkOf slots first visited)
    (old : ∀ i ∈ visited, i < slots.length) (linked : Linked linkOf slots.length first more) {k r : Nat}
    (total : k + r = more.length) :
    Chain linkOf (slots ++ more) (if r = 0 then first else ((slots.length + k : Nat) : Int))
      (List.range' (slots.length + k) r ++ visited) := by
  induction r generalizing k with
  | zero =>
    refine chain_frame (fun i member => ?_) chain
    rw [linkAt, linkAt, List.getElem?_append_left (old i member)]
  | succ r ih =>
    have link := linked k (by omega)
    have here : linkAt linkOf (slots ++ more) (slots.length + k) = linkAt linkOf more k := by
      rw [linkAt, linkAt, List.getElem?_append_right (Nat.le_add_right _ _), Nat.add_sub_cancel_left]
    have later := ih (k := k + 1) (by omega)
    rw [List.range'_succ, List.cons_append]
    refine ⟨if_neg (Nat.succ_ne_zero r), _, here.trans link, ?_⟩
    by_cases last : r = 0
    · rw [if_pos (by omega)]
      rwa [if_pos last] at later
    · rw [if_neg (by omega)]
      rwa [if_neg last] at later

/-- Slots behind the array, linked in order, become the front of the list. -/
theorem threaded_extend {more : List β} (free : Threaded linkOf slots first visited) (nonempty : more ≠ [])
    (linked : Linked linkOf slots.length first more) :
    Threaded linkOf (slots ++ more) slots.length (List.range' slots.length more.length ++ visited) := by
  obtain ⟨chain, distinct, all⟩ := free
  have old : ∀ i ∈ visited, i < slots.length := fun i member => linkAt_lt ((all i).mp member)
  have positive := List.length_pos_of_ne_nil nonempty
  refine ⟨?_, ?_, fun i => ?_⟩
  · have whole := chain_extend chain old linked (Nat.zero_add more.length)
    rwa [if_neg (by omega)] at whole
  · refine List.nodup_append.mpr ⟨List.nodup_range', distinct, fun i new j member same => ?_⟩
    have behind := (List.mem_range'_1.mp new).1
    have before := old j member
    omega
  · rw [List.mem_append, List.mem_range'_1, all, linkAt, linkAt]
    by_cases before : i < slots.length
    · rw [List.getElem?_append_left before, or_iff_right (by omega)]
    · obtain ⟨k, rfl⟩ := Nat.exists_eq_add_of_le (Nat.not_lt.mp before)
      rw [List.getElem?_append_right (Nat.le_add_right _ _), Nat.add_sub_cancel_left,
        List.getElem?_eq_none (Nat.not_lt.mp before), Option.bind_none]
      constructor
      · rintro (inside | nothing)
        · have link := linked k (by omega)
          rw [linkAt] at link
          rw [link]
          rfl
        · cases nothing
      · intro link
        have inside : k < more.length := linkAt_lt link
        exact .inl (by omega)

/-- An array whose slots are linked in order is all in the list. -/
theorem threaded_create (nonempty : slots ≠ []) (linked : Linked linkOf 0 (-1) slots) :
    Threaded linkOf slots 0 (List.range' 0 slots.length) := by
  have nothing : Threaded linkOf [] (-1) [] := ⟨rfl, List.nodup_nil, fun i => by simp [linkAt]⟩
  simpa using threaded_extend nothing nonempty linked

end

end VoxiUtil.FreeList
