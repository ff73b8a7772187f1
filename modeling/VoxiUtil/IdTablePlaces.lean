import Mathlib.Algebra.Ring.Int.Defs
import VoxiUtil.IdTable

/-!
`idt_putElementAt`, which looks for its slot in the free list. It assumes that there is
a free slot.
-/
namespace VoxiUtil.IdTablePlaces
open VoxiUtil.FreeList VoxiUtil.IdTable VoxiUtil.Runs
open VoxiUtil.Limits.Signed (intMax)
variable {α : Type}

inductive Op (α : Type)
  | add (element : α)
  | remove (index : Int)
  | put (index : Int) (element : α)

def step (idt : SIDTable α) : Op α → Option (SIDTable α)
  | .add element => (idtAdd idt element).map Prod.fst
  | .remove index => idtRemove idt index
  | .put index element => idtPutElementAt idt index element

/-- The free list visits these slots, which are just the free ones. -/
def FreeListed (idt : SIDTable α) (visited : List Nat) : Prop :=
  Chain TableSlot.nextFree idt.table idt.firstFree visited ∧ visited.Nodup ∧
    ∀ i, i ∈ visited ↔ ∃ slot, idt.table[i]? = some slot ∧ slot.isFree = true

/-- The element was put at the index, unless its slot was occupied. What was free in the table, or is
    new in it, stays free but for that slot. -/
structure Placed (idt : SIDTable α) (index : Int) (element : α) (after : SIDTable α) : Prop where
  free : idtIsElementAllocated idt index = some false →
    idtGetElementAt after index = some element ∧ after.elementCount = idt.elementCount + 1
  occupied : idtIsElementAllocated idt index = some true → after = idt
  others : ∀ other, 0 ≤ other → other ≠ index →
    idtIsElementAllocated after other = idtIsElementAllocated idt other ∧ idtGetElementAt after other = idtGetElementAt idt other
  list : ∃ visited visited', FreeListed idt visited ∧ FreeListed after visited' ∧
    (idtIsElementAllocated idt index = some false → ∀ i : Nat, i ∈ visited' ↔
      (i ∈ visited ∨ idt.tableSize ≤ i ∧ i < after.tableSize) ∧ (i : Int) ≠ index)

/-- The call ends, in the bounds of the table and without a failed assertion, with the element put. -/
def Places (idt : SIDTable α) (index : Int) (element : α) : Prop :=
  ∃ after, idtPutElementAt idt index element = some after ∧ Placed idt index element after

/-- An occupied slot is in a table with a free one, and an index behind the table is in one
    whose doubled size is an `int`. -/
structure Placeable (idt : SIDTable α) (index : Int) : Prop where
  occupied : idtIsElementAllocated idt index = some true → idt.firstFree ≠ -1
  behind : idt.tableSize ≤ index → ∃ k, index < idt.tableSize * 2 ^ k ∧ idt.tableSize * 2 ^ k ≤ intMax

section
variable {idt : SIDTable α} {stored : Int → Option α} {index : Int} {element : α}

/-! ### The search for the slot in front -/

/-- The link of a slot, as the loop reads it. -/
private theorem slot_link {i : Nat} {next : Int} (link : linkAt TableSlot.nextFree idt.table i = some next) :
    ∃ slot, ELEMENT idt i = some slot ∧ slot.nextFree = some next := by
  rw [ELEMENT_ofNat]
  exact Option.bind_eq_some_iff.mp link

/-- The loop passes the slots of the list up to the first whose link is the index, or ends the list. -/
theorem freeBefore_stops {first next : Int} {pre rest : List Nat} {p fuel : Nat}
    (chain : Chain TableSlot.nextFree idt.table first (pre ++ p :: rest)) (apart : ∀ i ∈ pre ++ [p], (i : Int) ≠ index)
    (link : linkAt TableSlot.nextFree idt.table p = some next) (stops : next = index ∨ next = -1) (enough : pre.length < fuel) :
    freeBefore idt index fuel first = some p := by
  induction pre generalizing first fuel with
  | nil =>
    obtain ⟨fuel, rfl⟩ := Nat.exists_eq_succ_of_ne_zero (Nat.ne_of_gt enough)
    obtain ⟨rfl, _⟩ := chain
    obtain ⟨slot, found, linked⟩ := slot_link link
    have ends : ¬ (next ≠ index ∧ next ≠ -1) := by omega
    simp [freeBefore, found, linked, ends]
  | cons j pre ih =>
    obtain ⟨fuel, rfl⟩ := Nat.exists_eq_succ_of_ne_zero (Nat.ne_of_gt (Nat.zero_lt_of_lt enough))
    obtain ⟨rfl, after, here, later⟩ := chain
    obtain ⟨slot, found, linked⟩ := slot_link here
    have further := ih later (fun i member => apart i (List.mem_cons_of_mem j member)) (Nat.lt_of_succ_lt_succ enough)
    obtain ⟨k, is, member⟩ : ∃ k : Nat, after = k ∧ k ∈ pre ++ [p] := by
      cases pre with
      | nil => exact ⟨p, later.1, by simp⟩
      | cons k pre => exact ⟨k, later.1, by simp⟩
    have other : after ≠ index := is ▸ apart k (List.mem_cons_of_mem j member)
    have more : after ≠ -1 := by omega
    simp [freeBefore, found, linked, other, more, further]

/-! ### The slots of a table -/

/-- The list visits the slots that have no element. -/
theorem visited_iff (inv : Inv idt stored) {visited : List Nat}
    (free : Threaded TableSlot.nextFree idt.table idt.firstFree visited) (i : Nat) :
    i ∈ visited ↔ i < idt.table.length ∧ stored i = none := by
  rw [free.all, linkAt]
  cases found : idt.table[i]? with
  | none =>
    have outside := List.getElem?_eq_none_iff.mp found
    exact iff_of_false (by simp) fun inside => absurd inside.1 (Nat.not_lt.mpr outside)
  | some slot =>
    have inside := (List.getElem?_eq_some_iff.mp found).1
    rw [Option.bind_some]
    rcases tagged_cases inv found with ⟨_, next, linked, unstored⟩ | ⟨_, unlinked, element, _, has⟩
    · rw [linked]
      exact iff_of_true rfl ⟨inside, unstored⟩
    · rw [unlinked, has]
      exact iff_of_false (by simp) fun other => Option.some_ne_none _ other.2

theorem inv_freeListed (inv : Inv idt stored) :
    ∃ visited, FreeListed idt visited ∧ ∀ i : Nat, i ∈ visited ↔ i < idt.table.length ∧ stored i = none := by
  obtain ⟨visited, free⟩ := inv.free
  refine ⟨visited, ⟨free.chain, free.distinct, fun i => ?_⟩, visited_iff inv free⟩
  rw [free.all, linkAt]
  cases found : idt.table[i]? with
  | none => simp
  | some slot =>
    have tagged : slot.isFree = slot.nextFree.isSome := inv.tagged slot (List.mem_of_getElem? found)
    simp [tagged]

/-- An index without an element cannot be read. -/
theorem getElementAt_none (inv : Inv idt stored) {i : Nat} (unstored : stored i = none) : idtGetElementAt idt i = none := by
  have sized := inv.sized
  unfold idtGetElementAt
  by_cases inside : i < idt.table.length
  · rcases tagged_cases inv (List.getElem?_eq_getElem inside) with ⟨isFree, _⟩ | ⟨_, _, element, _, has⟩
    · simp [List.getElem?_eq_getElem inside, isFree, assert]
    · rw [has] at unstored
      cases unstored
  · have outside : ¬ (i : Int) < idt.tableSize := by omega
    simp [assert_false outside]

theorem getElementAt_stored (inv : Inv idt stored) (i : Nat) : idtGetElementAt idt i = stored i := by
  cases has : stored i with
  | none => exact getElementAt_none inv has
  | some element => exact getElementAt_eq inv has

/-! ### Putting an element -/

/-- The slot `i`, behind the slot `p` in the free list, leaves it for an element. -/
private theorem unlink_inv (inv : Inv idt stored) {i p : Nat} {pre post : List Nat} {before slot : TableSlot α} {behind : Int}
    (free : Threaded TableSlot.nextFree idt.table idt.firstFree (pre ++ p :: i :: post)) (foundP : idt.table[p]? = some before)
    (freeP : before.isFree = true) (foundI : idt.table[i]? = some slot) (freeI : slot.isFree = true)
    (link : slot.nextFree = some behind) (element : α) :
    Inv { setSlot (setSlot idt p { before with data := .nextFree behind }) i ⟨false, .element element⟩ with
        elementCount := idt.elementCount + 1 } (Function.update stored i (some element)) := by
  obtain ⟨insideP, isP⟩ := List.getElem?_eq_some_iff.mp foundP
  obtain ⟨insideI, isI⟩ := List.getElem?_eq_some_iff.mp foundI
  have unstored : stored p = none := ((visited_iff inv free p).mp (by simp)).2
  have differ : p ≠ i := by
    rintro rfl
    have distinct := (List.nodup_append.mp free.distinct).2.1
    exact (List.nodup_cons.mp distinct).1 List.mem_cons_self
  have linkAtI : linkAt TableSlot.nextFree idt.table i = some behind := by rw [linkAt, foundI, Option.bind_some, link]
  refine ⟨inv.pointers, ?_, ?_, fun other member => ?_, ⟨pre ++ p :: post, ?_⟩, ?_, fun j => ?_, fun index has => ?_⟩
  · simpa [setSlot] using inv.sized
  · simpa [setSlot] using inv.positive
  · rcases List.mem_or_eq_of_mem_set member with inner | rfl
    · rcases List.mem_or_eq_of_mem_set inner with old | rfl
      · exact inv.tagged other old
      · exact freeP
    · rfl
  · exact threaded_unlink free linkAtI rfl rfl
  · have all := inv.counted
    simp [setSlot, List.countP_set, insideP, insideI, isP, freeP, isI, freeI, differ, all]
  · change Function.update stored i (some element) j = ((idt.table.set p _).set i _)[j]?.bind TableSlot.element
    rw [List.getElem?_set, List.length_set]
    by_cases here : i = j
    · rw [if_pos here, if_pos insideI, here, Function.update_self]
      rfl
    · have apart : (j : Int) ≠ i := by omega
      rw [if_neg here, Function.update_of_ne apart, List.getElem?_set]
      by_cases there : p = j
      · rw [if_pos there, if_pos insideP, ← there, unstored]
        rfl
      · rw [if_neg there, inv.holds]
  · by_cases here : index = i
    · omega
    · rw [Function.update_of_ne here] at has
      exact inv.natural index has

private theorem addFirst_counts {after : SIDTable α} {first : Int} (added : addFirst idt element = some (after, first)) :
    after.elementCount = idt.elementCount + 1 ∧ after.tableSize = idt.tableSize := by
  unfold addFirst at added
  simp only [Option.bind_eq_bind, Option.bind_eq_some_iff, Option.pure_def, Option.some.injEq, Prod.mk.injEq] at added
  obtain ⟨slot, _, _, _, next, _, rfl, _⟩ := added
  exact ⟨rfl, rfl⟩

/-- The head of the list, or a slot behind another one. -/
private theorem visited_cases {visited : List Nat} {i : Nat} (free : Threaded TableSlot.nextFree idt.table idt.firstFree visited)
    (member : i ∈ visited) : idt.firstFree = i ∨ ∃ pre p post, visited = pre ++ p :: i :: post ∧ i ∉ pre ++ [p] := by
  obtain ⟨front, post, rfl⟩ := List.append_of_mem member
  rcases List.eq_nil_or_concat front with rfl | ⟨pre, p, rfl⟩
  · exact .inl free.chain.1
  · refine .inr ⟨pre, p, post, by simp, fun inFront => ?_⟩
    have distinct := (List.nodup_append.mp free.distinct).2.2
    exact distinct i (by simpa using inFront) i List.mem_cons_self rfl

/-- A free slot of the table takes the element. -/
theorem put_free {larger : SIDTable α} (inv : Inv larger stored) {i : Nat} (pointers : idt.elementSize = sizeofPointer)
    (enlarged : enlargeTo i (i + 1) idt = some larger) (inside : i < larger.table.length) (unstored : stored i = none)
    (element : α) : ∃ after, idtPutElementAt idt i element = some after ∧ Inv after (Function.update stored i (some element)) ∧
      after.elementCount = larger.elementCount + 1 ∧ after.tableSize = larger.tableSize := by
  obtain ⟨visited, free⟩ := inv.free
  rcases visited_cases free ((visited_iff inv free i).mpr ⟨inside, unstored⟩) with first | ⟨pre, p, post, rfl, apart⟩
  · obtain ⟨after, added, _, _, kept⟩ := addFirst_inv inv (by omega) element
    obtain ⟨counted, size⟩ := addFirst_counts added
    rw [first] at kept
    refine ⟨after, ?_, kept, counted, size⟩
    simp [idtPutElementAt, pointers, enlarged, first, added]
  · obtain ⟨next, link, behind⟩ := chain_at free.chain
    obtain ⟨is, _⟩ := behind
    have notFirst : larger.firstFree ≠ i := by
      have start := free.chain
      cases pre with
      | nil => exact fun same => apart (by simp [Int.ofNat.inj (same.symm.trans start.1)])
      | cons j pre => exact fun same => apart (by simp [Int.ofNat.inj (same.symm.trans start.1)])
    have enough : pre.length < larger.table.length + 1 := by
      have long := threaded_length free
      rw [List.length_append] at long
      omega
    have others : ∀ j ∈ pre ++ [p], (j : Int) ≠ i := by
      intro j member same
      exact apart (Int.ofNat.inj same ▸ member)
    have searched := freeBefore_stops free.chain others link (.inl is) enough
    obtain ⟨before, foundP, linked⟩ := Option.bind_eq_some_iff.mp link
    have chain : Chain TableSlot.nextFree larger.table larger.firstFree ((pre ++ [p]) ++ i :: post) := by simpa using free.chain
    obtain ⟨behind, linkI, _⟩ := chain_at chain
    obtain ⟨slot, foundI, linkedI⟩ := Option.bind_eq_some_iff.mp linkI
    have freeP : before.isFree = true := by
      have tagged : before.isFree = before.nextFree.isSome := inv.tagged before (List.mem_of_getElem? foundP)
      rw [tagged, linked]
      rfl
    have freeI : slot.isFree = true := by
      have tagged : slot.isFree = slot.nextFree.isSome := inv.tagged slot (List.mem_of_getElem? foundI)
      rw [tagged, linkedI]
      rfl
    have kept := unlink_inv inv free foundP freeP foundI freeI linkedI element
    refine ⟨_, ?_, kept, rfl, rfl⟩
    have more : next ≠ -1 := by omega
    simp [idtPutElementAt, pointers, enlarged, notFirst, searched, foundP, linked, more, freeP, foundI, freeI, linkedI]

/-- An index that is not in the list leaves the table as it is, or takes the search in front of it when
    the list is empty. -/
theorem put_absent (inv : Inv idt stored) (inside : index < idt.tableSize)
    (absent : ∀ i : Nat, i < idt.table.length → stored i = none → (i : Int) ≠ index) (element : α) :
    idtPutElementAt idt index element = if idt.firstFree = -1 then none else some idt := by
  have pointers := inv.pointers
  have enlarged : enlargeTo index (index.toNat + 1) idt = some idt := by
    rw [enlargeTo, if_neg (by omega)]
  obtain ⟨visited, free⟩ := inv.free
  have outside : ∀ i ∈ visited, (i : Int) ≠ index := fun i member =>
    absent i ((visited_iff inv free i).mp member).1 ((visited_iff inv free i).mp member).2
  rcases List.eq_nil_or_concat visited with rfl | ⟨pre, p, is⟩
  · have full : idt.firstFree = -1 := free.chain
    rw [if_pos full]
    by_cases first : idt.firstFree = index
    · have none : ELEMENT idt idt.firstFree = none := if_neg (by omega)
      simp [idtPutElementAt, pointers, enlarged, first, addFirst, first ▸ none]
    · have none : ELEMENT idt idt.firstFree = none := if_neg (by omega)
      simp [idtPutElementAt, pointers, enlarged, first, freeBefore, none]
  · rw [List.concat_eq_append] at is
    subst is
    have more : idt.firstFree ≠ -1 ∧ idt.firstFree ≠ index := by
      obtain ⟨j, first, member⟩ : ∃ j : Nat, idt.firstFree = j ∧ j ∈ pre ++ [p] := by
        have start := free.chain
        cases pre with
        | nil => exact ⟨p, start.1, by simp⟩
        | cons j pre => exact ⟨j, start.1, by simp⟩
      exact ⟨by omega, first ▸ outside j member⟩
    have enough : pre.length < idt.table.length + 1 := by
      have long := threaded_length free
      rw [List.length_append] at long
      omega
    obtain ⟨next, link, last⟩ := chain_at free.chain
    have ended : next = -1 := last
    have searched := freeBefore_stops free.chain outside link (.inr ended) enough
    obtain ⟨slot, found, linked⟩ := Option.bind_eq_some_iff.mp link
    rw [if_neg more.1]
    simp [idtPutElementAt, pointers, enlarged, more.2, searched, found, linked, ended]

/-! ### Growing to an index -/

private theorem enlarge_sizes {after : SIDTable α} (enlarged : idtEnlarge idt = some after) :
    after.tableSize = idt.tableSize * 2 ∧ after.elementCount = idt.elementCount ∧ after.elementSize = idt.elementSize ∧
      idt.tableSize * 2 ≤ intMax := by
  unfold idtEnlarge at enlarged
  dsimp only at enlarged
  split at enlarged
  · rename_i fits
    cases enlarged
    exact ⟨rfl, rfl, rfl, fits.2⟩
  · cases enlarged

theorem enlargeTo_sizes {fuel : Nat} {larger : SIDTable α} (enlarged : enlargeTo index fuel idt = some larger) :
    index < larger.tableSize ∧ (∃ k, larger.tableSize = idt.tableSize * 2 ^ k) ∧
      (larger.tableSize = idt.tableSize ∨ larger.tableSize ≤ intMax) := by
  induction fuel generalizing idt with
  | zero => cases enlarged
  | succ fuel ih =>
    rw [enlargeTo] at enlarged
    by_cases more : index ≥ idt.tableSize
    · rw [if_pos more] at enlarged
      obtain ⟨after, once, further⟩ := Option.bind_eq_some_iff.mp enlarged
      obtain ⟨size, _, _, fits⟩ := enlarge_sizes once
      obtain ⟨reached, ⟨k, total⟩, bound⟩ := ih further
      refine ⟨reached, ⟨k + 1, ?_⟩, .inr ?_⟩
      · rw [total, size, Int.pow_succ, Int.mul_assoc, Int.mul_comm 2]
      · rcases bound with same | fits'
        · omega
        · exact fits'
    · rw [if_neg more] at enlarged
      cases enlarged
      exact ⟨Int.not_le.mp more, ⟨0, by simp⟩, .inl rfl⟩

/-- The table grows until it has the index, when the sizes on the way are `int`s. -/
theorem enlargeTo_inv {k fuel : Nat} (inv : Inv idt stored) (reaches : index < idt.tableSize * 2 ^ k)
    (room : idt.tableSize ≤ index → idt.tableSize * 2 ^ k ≤ intMax) (enough : index < idt.tableSize * 2 ^ fuel) :
    ∃ larger, enlargeTo index (fuel + 1) idt = some larger ∧ Inv larger stored ∧ larger.elementCount = idt.elementCount ∧
      idt.tableSize ≤ larger.tableSize := by
  induction k generalizing idt fuel with
  | zero =>
    have inside : ¬ index ≥ idt.tableSize := by simpa using reaches
    exact ⟨idt, by rw [enlargeTo, if_neg inside], inv, rfl, Int.le_refl _⟩
  | succ k ih =>
    by_cases more : index ≥ idt.tableSize
    · cases fuel with
      | zero => exact absurd (by simpa using enough) (Int.not_lt.mpr more)
      | succ fuel =>
        have twice : ∀ n : Nat, idt.tableSize * 2 ^ (n + 1) = idt.tableSize * 2 * 2 ^ n := by
          intro n
          rw [Int.pow_succ, Int.mul_assoc, Int.mul_comm 2]
        have positive : (0 : Int) < 2 ^ k := Int.pow_pos (by decide)
        have size : 0 < idt.tableSize := by
          have sized := inv.sized
          have length := inv.positive
          omega
        have small : idt.tableSize * 2 ≤ idt.tableSize * 2 * 2 ^ k := by
          simpa using Int.mul_le_mul_of_nonneg_left (show (1 : Int) ≤ 2 ^ k from positive) (show 0 ≤ idt.tableSize * 2 by omega)
        rw [twice] at reaches enough
        have fits := twice k ▸ room more
        obtain ⟨after, once, _, kept⟩ := enlarge_inv inv (Int.le_trans small fits)
        obtain ⟨size', counted, _⟩ := enlarge_sizes once
        rw [← size'] at reaches fits enough
        obtain ⟨larger, further, last, same, grown⟩ := ih kept reaches (fun _ => fits) enough
        refine ⟨larger, ?_, last, same.trans counted, by omega⟩
        rw [enlargeTo, if_pos more, once, Option.bind_some, further]
    · exact ⟨idt, by rw [enlargeTo, if_neg more], inv, rfl, Int.le_refl _⟩

/-! ### Every call -/

/-- What a call with an index can do, when the table grows as far as it needs. -/
theorem put_cases (inv : Inv idt stored) (i : Nat) (element : α) :
    (∃ k, (i : Int) < idt.tableSize * 2 ^ k ∧ (idt.tableSize ≤ i → idt.tableSize * 2 ^ k ≤ intMax)) ∧
        (stored i = none ∧ (∃ after, idtPutElementAt idt i element = some after ∧
            Inv after (Function.update stored i (some element)) ∧ after.elementCount = idt.elementCount + 1 ∧
            idt.tableSize ≤ after.tableSize) ∨
          (stored i).isSome ∧ idtPutElementAt idt i element = if idt.firstFree = -1 then none else some idt) ∨
      idt.tableSize ≤ i ∧ (¬ ∃ k, (i : Int) < idt.tableSize * 2 ^ k ∧ idt.tableSize * 2 ^ k ≤ intMax) ∧
        idtPutElementAt idt i element = none := by
  have sized := inv.sized
  by_cases room : ∃ k, (i : Int) < idt.tableSize * 2 ^ k ∧ (idt.tableSize ≤ i → idt.tableSize * 2 ^ k ≤ intMax)
  · left
    refine ⟨room, ?_⟩
    cases has : stored i with
    | none =>
      left
      obtain ⟨k, reaches, fits⟩ := room
      have enough : (i : Int) < idt.tableSize * 2 ^ i := by
        have positive := inv.positive
        have power : (i : Int) < 2 ^ i := by exact_mod_cast Nat.lt_two_pow_self
        have more := Int.mul_le_mul_of_nonneg_right (show 1 ≤ idt.tableSize by omega) (show (0 : Int) ≤ 2 ^ i by omega)
        omega
      obtain ⟨larger, enlarged, kept, counted, grown⟩ := enlargeTo_inv inv reaches fits enough
      have inside : i < larger.table.length := by
        have reached := (enlargeTo_sizes enlarged).1
        have sized' := kept.sized
        omega
      obtain ⟨after, put, last, count, size⟩ := put_free kept inv.pointers enlarged inside has element
      exact ⟨rfl, after, put, last, by omega, by omega⟩
    | some old =>
      right
      have inside : i < idt.table.length := by
        by_contra outside
        have holds := inv.holds i
        rw [has, List.getElem?_eq_none (Nat.not_lt.mp outside)] at holds
        cases holds
      refine ⟨rfl, put_absent inv (by omega) (fun j _ unstored same => ?_) element⟩
      rw [Int.ofNat.inj same, has] at unstored
      cases unstored
  · right
    have behind : idt.tableSize ≤ i := by
      by_contra inside
      exact room ⟨0, by simpa using Int.not_le.mp inside, fun other => absurd other inside⟩
    refine ⟨behind, fun ⟨k, reaches, fits⟩ => room ⟨k, reaches, fun _ => fits⟩, ?_⟩
    cases put : idtPutElementAt idt i element with
    | none => rfl
    | some after =>
      obtain ⟨_, _, growing⟩ := Option.bind_eq_some_iff.mp put
      obtain ⟨larger, enlarged, _⟩ := Option.bind_eq_some_iff.mp growing
      obtain ⟨reached, ⟨k, total⟩, same | fits⟩ := enlargeTo_sizes enlarged
      · have natural : ((i : Int).toNat : Int) = i := by omega
        omega
      · exact absurd ⟨k, total ▸ reached, fun _ => total ▸ fits⟩ room

theorem step_inv {after : SIDTable α} {op : Op α} (inv : Inv idt stored) (stepped : step idt op = some after) :
    ∃ stored', Inv after stored' := by
  have sized := inv.sized
  cases op with
  | add element =>
    obtain ⟨⟨result, first⟩, added, rfl⟩ := Option.map_eq_some_iff.mp stepped
    by_cases room : idt.firstFree = -1 → idt.tableSize * 2 ≤ intMax
    · obtain ⟨_, _, again, _, _, kept⟩ := add_inv inv room element
      cases again.symm.trans added
      exact ⟨_, kept⟩
    · obtain ⟨full, large⟩ := Classical.not_imp.mp room
      have stuck : idtEnlarge idt = none := if_neg fun fits => large fits.2
      simp [idtAdd, full, stuck] at added
  | remove index =>
    have removed : idtRemove idt index = some after := stepped
    obtain ⟨_, _, looking⟩ := Option.bind_eq_some_iff.mp removed
    obtain ⟨slot, found, asserted⟩ := Option.bind_eq_some_iff.mp looking
    obtain ⟨_, used, _⟩ := Option.bind_eq_some_iff.mp asserted
    have natural : 0 ≤ index := by
      by_contra negative
      rw [ELEMENT, if_neg negative] at found
      cases found
    obtain ⟨i, rfl⟩ := Int.eq_ofNat_of_zero_le natural
    rw [ELEMENT_ofNat] at found
    rcases tagged_cases inv found with ⟨isFree, _⟩ | ⟨_, _, element, _, has⟩
    · rw [isFree] at used
      cases assert_eq_some.mp used
    · obtain ⟨_, again, kept⟩ := remove_inv inv has
      cases again.symm.trans removed
      exact ⟨_, kept⟩
  | put index element =>
    have put : idtPutElementAt idt index element = some after := stepped
    by_cases natural : 0 ≤ index
    · obtain ⟨i, rfl⟩ := Int.eq_ofNat_of_zero_le natural
      rcases put_cases inv i element with ⟨_, ⟨_, _, again, kept, _⟩ | ⟨_, result⟩⟩ | ⟨_, _, stuck⟩
      · cases again.symm.trans put
        exact ⟨_, kept⟩
      · rw [result] at put
        split at put
        · cases put
        · cases put
          exact ⟨_, inv⟩
      · cases stuck.symm.trans put
    · rw [put_absent inv (by omega) (fun i _ _ same => by omega)] at put
      split at put
      · cases put
      · cases put
        exact ⟨_, inv⟩

/-- What a put of an element into a free slot leaves, by the map of the table. -/
private theorem placed_free {after : SIDTable α} {i : Nat} (inv : Inv idt stored) (unstored : stored i = none)
    (kept : Inv after (Function.update stored i (some element))) (counted : after.elementCount = idt.elementCount + 1)
    (grown : idt.tableSize ≤ after.tableSize) : Placed idt i element after := by
  have sized := inv.sized
  have sized' := kept.sized
  obtain ⟨visited, listed, members⟩ := inv_freeListed inv
  obtain ⟨visited', listed', members'⟩ := inv_freeListed kept
  have outside : ∀ j : Nat, ¬ j < idt.table.length → stored j = none := by
    intro j behind
    rw [inv.holds, List.getElem?_eq_none (Nat.not_lt.mp behind)]
    rfl
  constructor
  · intro _
    rw [getElementAt_stored kept, Function.update_self]
    exact ⟨rfl, counted⟩
  · intro allocated
    rw [isElementAllocated_eq inv (Int.natCast_nonneg i), unstored] at allocated
    cases allocated
  · intro other natural differs
    obtain ⟨j, rfl⟩ := Int.eq_ofNat_of_zero_le natural
    rw [isElementAllocated_eq kept natural, isElementAllocated_eq inv natural, getElementAt_stored kept,
      getElementAt_stored inv, Function.update_of_ne differs]
    exact ⟨rfl, rfl⟩
  · refine ⟨visited, visited', listed, listed', fun _ j => ?_⟩
    rw [members, members']
    by_cases here : (j : Int) = i
    · simp [here]
    · rw [Function.update_of_ne here]
      constructor
      · rintro ⟨inside, free⟩
        exact ⟨by by_cases old : j < idt.table.length; exacts [.inl ⟨old, free⟩, .inr (by omega)], here⟩
      · rintro ⟨⟨old, free⟩ | new, _⟩
        · exact ⟨by omega, free⟩
        · exact ⟨by omega, outside j (by omega)⟩

private theorem placed_occupied {i : Nat} (inv : Inv idt stored) (has : (stored i).isSome) : Placed idt i element idt := by
  obtain ⟨visited, listed, _⟩ := inv_freeListed inv
  have allocated : idtIsElementAllocated idt i = some true := by
    rw [isElementAllocated_eq inv (Int.natCast_nonneg i), has]
  refine ⟨fun free => ?_, fun _ => rfl, fun _ _ _ => ⟨rfl, rfl⟩, visited, visited, listed, listed, fun free => ?_⟩
  · rw [allocated] at free
    cases free
  · rw [allocated] at free
    cases free

theorem inv_places_iff (inv : Inv idt stored) (i : Nat) (element : α) : Places idt i element ↔ Placeable idt i := by
  have allocated := isElementAllocated_eq inv (Int.natCast_nonneg i)
  rcases put_cases inv i element with
    ⟨⟨k, reaches, fits⟩, ⟨unstored, after, put, kept, counted, grown⟩ | ⟨has, result⟩⟩ | ⟨behind, small, stuck⟩
  · refine iff_of_true ⟨after, put, placed_free inv unstored kept counted grown⟩
      ⟨fun occupied => ?_, fun outside => ⟨k, reaches, fits outside⟩⟩
    rw [allocated, unstored] at occupied
    cases occupied
  · constructor
    · rintro ⟨after, put, _⟩
      refine ⟨fun _ full => ?_, fun outside => ⟨k, reaches, fits outside⟩⟩
      rw [result, if_pos full] at put
      cases put
    · intro placeable
      have more := placeable.occupied (by rw [allocated, has])
      exact ⟨idt, by rw [result, if_neg more], placed_occupied inv has⟩
  · refine iff_of_false ?_ fun placeable => small (placeable.behind behind)
    rintro ⟨after, put, _⟩
    cases stuck.symm.trans put

end

/-- On every table that adds, removes and puts lead to, an element is put at an index as it should be
    just when the index is not occupied in a table without a free slot, and the table can grow
    to it. -/
theorem put_places_iff {initialCount : Int} {created idt : SIDTable α} {ops : List (Op α)}
    (made : idtCreate initialCount = some created) (ran : run step created ops = some idt) {index : Int} (natural : 0 ≤ index)
    (element : α) : Places idt index element ↔ Placeable idt index := by
  have positive : 1 ≤ initialCount := by
    by_contra small
    rw [idtCreate, idtCreate2, if_neg small] at made
    cases made
  obtain ⟨_, again, start⟩ := create_inv (α := α) positive
  cases again.symm.trans made
  have preserved : ∀ (s : SIDTable α) (op : Op α) (t : SIDTable α), (∃ stored, Inv s stored) → step s op = some t →
      ∃ stored, Inv t stored := fun _ _ _ ⟨_, inv⟩ stepped => step_inv inv stepped
  obtain ⟨_, inv⟩ := run_invariant preserved ⟨_, start⟩ ran
  obtain ⟨i, rfl⟩ := Int.eq_ofNat_of_zero_le natural
  exact inv_places_iff inv i element

/-- The table of one slot grows to the index 2. -/
theorem put_places_iff_behind : ∃ created idt : SIDTable Nat, idtCreate 1 = some created ∧
    run step created [.add 10] = some idt ∧ (Places idt 2 11 ↔ Placeable idt 2) :=
  ⟨_, _, rfl, rfl, @put_places_iff Nat 1 _ _ [.add 10] rfl rfl 2 (by decide) 11⟩

/-- In a table without a free slot the search starts at the slot in front of the array. -/
theorem full_table_fails : ∃ created idt : SIDTable Nat, idtCreate 1 = some created ∧
    run step created [.add 10] = some idt ∧ ¬ Places idt 0 11 := by
  refine ⟨_, _, rfl, rfl, ?_⟩
  rintro ⟨after, put, _⟩
  cases put

end VoxiUtil.IdTablePlaces
