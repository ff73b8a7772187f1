import VoxiUtil.Hash
import VoxiUtil.Limits
import VoxiUtil.Representatives
import VoxiUtil.Runs

/-!
The hash table is a finite set of representatives. `Refines` couples the table
with the abstract set; every operation keeps it and answers as the set does, so
it holds after any sequence of operations from an empty table.
-/
namespace VoxiUtil.HashSet
open VoxiUtil.Hash VoxiUtil.Representatives VoxiUtil.Runs
open VoxiUtil.Limits (intMax)
variable {α : Type} {fs : Funcs α}

/-- What a user of the table promises of the two functions: equality is an
    equivalence, and equal data have equal hash values. -/
structure Lawful (fs : Funcs α) : Prop where
  refl : ∀ a, fs.compData a a = 0
  symm : ∀ a b, fs.compData a b = 0 → fs.compData b a = 0
  trans : ∀ a b c, fs.compData a b = 0 → fs.compData b c = 0 → fs.compData a c = 0
  hash : ∀ a b, fs.compData a b = 0 → fs.calcIndx a = fs.calcIndx b

/-- Equality of data according to the comparison function. -/
def Lawful.setoid (lawful : Lawful fs) : Setoid α where
  r a b := fs.compData a b = 0
  iseqv := ⟨lawful.refl, fun h => lawful.symm _ _ h, fun h k => lawful.trans _ _ _ h k⟩

theorem Lawful.hashval_eq (lawful : Lawful fs) {a b : α} (same : fs.compData a b = 0) :
    hashval fs a = hashval fs b := by
  simp [hashval, lawful.hash a b same]

/-- Records sit in the bucket of their hash value, no two of the whole table are
    equal, and the counter counts them. -/
structure WellFormed (ht : Hasht fs) : Prop where
  placed : ∀ bucket, ∀ record ∈ ht.infoArray bucket, hashval fs record.data = bucket
  separate : (records ht).Pairwise (fun a b => fs.compData a.data b.data ≠ 0)
  counted : ht.elementCount = (records ht).length

/-- The calls on the table. `newInfo` is the block that a successful `malloc`
    gives for the new record. -/
inductive TableOp (α : Type) where
  | add (data : α) (newInfo : Nat)
  | delete (data : α)
  | destroy (data : α)
  | find (data : α)

/-- `HashAdd` with the `int` that `elementCount` is: it counts up without a check, and a sum beyond the range has no outcome. -/
def hashAddCounted (ht : Hasht fs) (data : α) (newInfo : Option Nat) : Option (Hasht fs × Int) := do
  let (after, added) := hashAdd ht data newInfo
  assert (added = 1 → after.elementCount ≤ intMax)
  some (after, added)

def tableStep (ht : Hasht fs) : TableOp α → Option (Hasht fs)
  | .add data newInfo => (hashAddCounted ht data (some newInfo)).map Prod.fst
  | .delete data => (hashDelete ht data).map Prod.fst
  | .destroy data => (hashDestroy ht data).map Prod.fst
  | .find _ => some ht

/-- The same calls on a set of representatives. -/
noncomputable def setStep {r : Setoid α} (S : Reps r) : TableOp α → Reps r
  | .add data _ => S.add data
  | .delete data => S.remove data
  | .destroy data => S.remove data
  | .find _ => S

/-- The pointers that were added and not removed since, by the calls alone. -/
noncomputable def members (lawful : Lawful fs) (ops : List (TableOp α)) : Reps lawful.setoid :=
  ops.foldl setStep (Reps.empty lawful.setoid)

/-- The table stands for the set `S`, and no cursor is on it. -/
structure Refines (lawful : Lawful fs) (ht : Hasht fs) (S : Reps lawful.setoid) : Prop where
  wellFormed : WellFormed ht
  same : ∀ data, data ∈ S.carrier ↔ ∃ record ∈ records ht, record.data = data
  unwatched : ∀ address, ht.firstCursor address = none

/-- An `int` counts the records with the new one. -/
def Room (ht : Hasht fs) : TableOp α → Prop
  | .add data _ => hashFind ht data = none → ht.elementCount < intMax
  | _ => True

/-- `HashAdd` of a held class returns 0 and changes nothing; otherwise it returns
    1 and the new record joins the others. -/
def AddOutcome (ht : Hasht fs) (held : Prop) (data : α) (newInfo : Nat) : Prop :=
  (held → hashAddCounted ht data (some newInfo) = some (ht, 0)) ∧
  (¬ held → ∃ after, hashAddCounted ht data (some newInfo) = some (after, 1) ∧
    (records after).Perm (⟨newInfo, data⟩ :: records ht))

/-- A removal of a held class returns 1 and takes out just the equal record,
    whose data it passes on when it destroys; otherwise it returns 0 and changes nothing. -/
def RemoveOutcome (result : Option (Hasht fs × Int × List α)) (destroys : Bool) (ht : Hasht fs) (held : Prop)
    (data : α) : Prop :=
  (¬ held → result = some (ht, 0, [])) ∧
  (held → ∃ after record, result = some (after, 1, if destroys then [record.data] else []) ∧
    fs.compData record.data data = 0 ∧ (records ht).Perm (record :: records after))

section
variable {lawful : Lawful fs} {ht : Hasht fs} {S : Reps lawful.setoid}

private theorem placed_record (formed : WellFormed ht) {record : HiPtr α} :
    record ∈ records ht ↔ record ∈ ht.infoArray (hashval fs record.data) := by
  rw [mem_records]
  constructor
  · rintro ⟨bucket, member⟩
    rwa [formed.placed bucket record member]
  · intro member; exact ⟨_, member⟩

/-- Only the bucket of `data` can hold a record equal to it. -/
private theorem matching_none (lawful : Lawful fs) (formed : WellFormed ht) {data : α}
    (absent : matching ht data = none) (record : HiPtr α) (member : record ∈ records ht) :
    fs.compData record.data data ≠ 0 := by
  intro same
  rw [placed_record formed, lawful.hashval_eq same] at member
  have differs := List.find?_eq_none.mp absent record member
  simp [same] at differs

private theorem matching_some {data : α} {record : HiPtr α} (found : matching ht data = some record) :
    record ∈ records ht ∧ fs.compData record.data data = 0 :=
  ⟨mem_records.mpr ⟨_, List.mem_of_find?_eq_some found⟩, by simpa using List.find?_some found⟩

/-- The abstract set holds a class exactly when the table has a record of it. -/
theorem holds_iff (refines : Refines lawful ht S) (data : α) :
    S.Holds data ↔ ∃ record ∈ records ht, fs.compData record.data data = 0 := by
  constructor
  · rintro ⟨x, xIn, related⟩
    obtain ⟨record, member, rfl⟩ := (refines.same x).mp xIn
    exact ⟨record, member, related⟩
  · rintro ⟨record, member, related⟩
    exact ⟨record.data, (refines.same _).mpr ⟨record, member, rfl⟩, related⟩

private theorem holds_matching (refines : Refines lawful ht S) (data : α) :
    S.Holds data ↔ ∃ record, matching ht data = some record := by
  rw [holds_iff refines]
  constructor
  · rintro ⟨record, member, same⟩
    cases found : matching ht data with
    | none => exact absurd same (matching_none lawful refines.wellFormed found record member)
    | some other => exact ⟨other, rfl⟩
  · rintro ⟨record, found⟩
    exact ⟨record, matching_some found⟩

/-- The search of `FindInfo` is that of the removals with the comparison turned round. -/
private theorem findInfo_eq (lawful : Lawful fs) (ht : Hasht fs) (data : α) :
    findInfo ht data (hashval fs data) = matching ht data := by
  have turned : (fun tmp : HiPtr α => fs.compData data tmp.data == 0) = fun tmp => fs.compData tmp.data data == 0 := by
    funext tmp
    rw [Bool.eq_iff_iff, beq_iff_eq, beq_iff_eq]
    exact ⟨lawful.symm _ _, lawful.symm _ _⟩
  rw [findInfo, matching, turned]

/-- `HashFind` returns the pointer that stands for the class of its key. -/
theorem find_correct (refines : Refines lawful ht S) (key : α) : hashFind ht key = S.find key := by
  rw [hashFind, findInfo_eq lawful]
  cases found : matching ht key with
  | none =>
    symm
    rw [Option.map_none, Reps.find_eq_none_iff, holds_matching refines]
    simp [found]
  | some record =>
    symm
    obtain ⟨member, same⟩ := matching_some found
    rw [Option.map_some, Reps.find_eq_some_iff]
    exact ⟨(refines.same _).mpr ⟨record, member, rfl⟩, same⟩

private theorem symmetric (lawful : Lawful fs) {a b : HiPtr α} (differ : fs.compData a.data b.data ≠ 0) :
    fs.compData b.data a.data ≠ 0 := fun same => differ (lawful.symm _ _ same)

private theorem add_new (refines : Refines lawful ht S) (data : α) (newInfo : Nat) (unheld : ¬ S.Holds data) :
    ∃ after, hashAdd ht data (some newInfo) = (after, 1) ∧ Refines lawful after (S.add data) ∧
      (records after).Perm (⟨newInfo, data⟩ :: records ht) := by
  have absent : findInfo ht data (hashval fs data) = none := by
    rw [findInfo_eq lawful, Option.eq_none_iff_forall_ne_some]
    exact fun record found => unheld ((holds_matching refines data).mpr ⟨record, found⟩)
  have joined := flatten_update
    (Function.update ht.infoArray (hashval fs data) (⟨newInfo, data⟩ :: ht.infoArray (hashval fs data)))
    (hashval fs data) ⟨newInfo, data⟩ (ht.infoArray (hashval fs data)) (by simp)
  rw [Function.update_idem, Function.update_eq_self] at joined
  obtain ⟨after, added, bucketsAre, countIs, cursorsAre⟩ : ∃ after : Hasht fs,
      hashAdd ht data (some newInfo) = (after, 1) ∧
      after.infoArray = Function.update ht.infoArray (hashval fs data)
        (⟨newInfo, data⟩ :: ht.infoArray (hashval fs data)) ∧
      after.elementCount = ht.elementCount + 1 ∧
      after.firstCursor = Function.update ht.firstCursor newInfo none := by
    exact ⟨_, by rw [hashAdd, absent], rfl, rfl, rfl⟩
  have all : (records after).Perm (⟨newInfo, data⟩ :: records ht) := by rwa [records, bucketsAre]
  refine ⟨after, added, ⟨⟨?_, ?_, ?_⟩, ?_, ?_⟩, all⟩
  · intro bucket record member
    rw [bucketsAre] at member
    by_cases here : bucket = hashval fs data
    · subst here
      rw [Function.update_self, List.mem_cons] at member
      rcases member with rfl | member
      · rfl
      · exact refines.wellFormed.placed _ record member
    · rw [Function.update_of_ne here] at member
      exact refines.wellFormed.placed bucket record member
  · refine (all.pairwise_iff (symmetric lawful)).mpr (List.pairwise_cons.mpr ⟨?_, refines.wellFormed.separate⟩)
    intro record member same
    exact unheld ((holds_iff refines data).mpr ⟨record, member, lawful.symm _ _ same⟩)
  · rw [countIs, refines.wellFormed.counted, all.length_eq]
    simp
  · intro x
    rw [Reps.mem_add_new unheld, refines.same x]
    simp only [all.mem_iff, List.mem_cons, exists_eq_or_imp, eq_comm]
  · intro address
    rw [cursorsAre]
    by_cases new : address = newInfo
    · rw [new, Function.update_self]
    · rw [Function.update_of_ne new, refines.unwatched]

/-- A removal of a held class, whatever releases the record: the record leaves
    its bucket and the set, and nothing else changes. -/
private theorem remove_held (refines : Refines lawful ht S) {data : α} {release : HiPtr α → Option (List α)}
    (destroys : Bool) (released : ∀ record, release record = some (if destroys then [record.data] else []))
    (held : S.Holds data) :
    ∃ after record, unlink release ht data = some (after, 1, if destroys then [record.data] else []) ∧
      fs.compData record.data data = 0 ∧ (records ht).Perm (record :: records after) ∧
      Refines lawful after (S.remove data) := by
  obtain ⟨record, found⟩ := (holds_matching refines data).mp held
  obtain ⟨pre, post, chain, removal⟩ := unlink_present release found
  obtain ⟨member, same⟩ := matching_some found
  have all := records_unlinked chain
  have apart := List.pairwise_cons.mp ((all.pairwise_iff (symmetric lawful)).mp refines.wellFormed.separate)
  have count : (unlinked ht (hashval fs data) (pre ++ post)).elementCount =
      (records (unlinked ht (hashval fs data) (pre ++ post))).length := by
    change ht.elementCount - 1 = _
    rw [refines.wellFormed.counted, all.length_eq]
    simp
  have enough : 0 ≤ (unlinked ht (hashval fs data) (pre ++ post)).elementCount := by rw [count]; omega
  refine ⟨_, record, ?_, same, all, ⟨?_, apart.2, count⟩, ?_, refines.unwatched⟩
  · rw [removal, countOff, released, Option.bind_some, if_pos enough]
  · intro bucket other inBucket
    change other ∈ Function.update ht.infoArray (hashval fs data) (pre ++ post) bucket at inBucket
    by_cases here : bucket = hashval fs data
    · subst here
      rw [Function.update_self] at inBucket
      refine refines.wellFormed.placed _ other ?_
      rw [chain]
      rcases List.mem_append.mp inBucket with h | h
      · exact List.mem_append_left _ h
      · exact List.mem_append_right _ (List.mem_cons_of_mem _ h)
    · rw [Function.update_of_ne here] at inBucket
      exact refines.wellFormed.placed bucket other inBucket
  · intro x
    rw [Reps.mem_remove, refines.same x]
    simp only [all.mem_iff, List.mem_cons]
    constructor
    · rintro ⟨⟨other, rfl | there, rfl⟩, differs⟩
      · exact absurd same differs
      · exact ⟨other, there, rfl⟩
    · rintro ⟨other, there, rfl⟩
      refine ⟨⟨other, .inr there, rfl⟩, fun equal => ?_⟩
      exact apart.1 other there (lawful.trans _ _ _ same (lawful.symm _ _ equal))

private theorem remove_unheld (refines : Refines lawful ht S) {data : α} {release : HiPtr α → Option (List α)}
    (unheld : ¬ S.Holds data) : unlink release ht data = some (ht, 0, []) := by
  refine unlink_absent (Option.eq_none_iff_forall_ne_some.mpr fun record found => unheld ?_)
  exact (holds_matching refines data).mpr ⟨record, found⟩

private theorem hashAdd_unchanged (refines : Refines lawful ht S) {data : α} (held : S.Holds data) (newInfo : Nat) :
    hashAdd ht data (some newInfo) = (ht, 0) := by
  obtain ⟨record, found⟩ := (holds_matching refines data).mp held
  rw [hashAdd, findInfo_eq lawful, found]

private theorem hashFind_unheld (refines : Refines lawful ht S) {data : α} : hashFind ht data = none ↔ ¬ S.Holds data := by
  rw [find_correct refines, Reps.find_eq_none_iff]

/-- A new record, where an `int` can count it. -/
private theorem addCounted_new (refines : Refines lawful ht S) {data : α} {newInfo : Nat} (unheld : ¬ S.Holds data)
    (room : ht.elementCount < intMax) :
    ∃ after, hashAddCounted ht data (some newInfo) = some (after, 1) ∧ Refines lawful after (S.add data) ∧
      (records after).Perm (⟨newInfo, data⟩ :: records ht) := by
  obtain ⟨after, added, kept, all⟩ := add_new refines data newInfo unheld
  refine ⟨after, ?_, kept, all⟩
  have counts : after.elementCount ≤ intMax := by
    rw [kept.wellFormed.counted, all.length_eq, List.length_cons]
    rw [refines.wellFormed.counted] at room
    omega
  rw [hashAddCounted, added]
  simp [counts]

private theorem addCounted_full (refines : Refines lawful ht S) {data : α} {newInfo : Nat} (unheld : ¬ S.Holds data)
    (full : ¬ ht.elementCount < intMax) : hashAddCounted ht data (some newInfo) = none := by
  obtain ⟨after, added, kept, all⟩ := add_new refines data newInfo unheld
  have beyond : ¬ after.elementCount ≤ intMax := by
    rw [kept.wellFormed.counted, all.length_eq, List.length_cons]
    rw [refines.wellFormed.counted] at full
    omega
  rw [hashAddCounted, added]
  simp [assert_false, beyond]

private theorem addCounted_held (refines : Refines lawful ht S) {data : α} {newInfo : Nat} (held : S.Holds data) :
    hashAddCounted ht data (some newInfo) = some (ht, 0) := by
  rw [hashAddCounted, hashAdd_unchanged refines held]
  simp

private theorem add_outcome (refines : Refines lawful ht S) (data : α) (newInfo : Nat) (room : Room ht (.add data newInfo)) :
    AddOutcome ht (S.Holds data) data newInfo := by
  refine ⟨addCounted_held refines, fun unheld => ?_⟩
  obtain ⟨after, added, _, all⟩ := addCounted_new refines unheld (room ((hashFind_unheld refines).mpr unheld))
  exact ⟨after, added, all⟩

/-- `HashAdd` does to the table what it does to the set, when nothing counts the records. -/
theorem add_refines (refines : Refines lawful ht S) (data : α) (newInfo : Nat) :
    Refines lawful (hashAdd ht data (some newInfo)).1 (S.add data) := by
  by_cases held : S.Holds data
  · rwa [hashAdd_unchanged refines held, Reps.add_held held]
  · obtain ⟨after, added, kept, _⟩ := add_new refines data newInfo held
    rwa [added]

private theorem remove_outcome (refines : Refines lawful ht S) (data : α) {release : HiPtr α → Option (List α)}
    (destroys : Bool) (released : ∀ record, release record = some (if destroys then [record.data] else [])) :
    RemoveOutcome (unlink release ht data) destroys ht (S.Holds data) data := by
  refine ⟨remove_unheld refines, fun held => ?_⟩
  obtain ⟨after, record, ran, same, all, _⟩ := remove_held refines destroys released held
  exact ⟨after, record, ran, same, all⟩

private theorem remove_refines (refines : Refines lawful ht S) (data : α) {release : HiPtr α → Option (List α)}
    (destroys : Bool) (released : ∀ record, release record = some (if destroys then [record.data] else [])) :
    ∃ after, (unlink release ht data).map Prod.fst = some after ∧ Refines lawful after (S.remove data) := by
  by_cases held : S.Holds data
  · obtain ⟨after, record, ran, _, _, kept⟩ := remove_held refines destroys released held
    exact ⟨after, by rw [ran, Option.map_some], kept⟩
  · exact ⟨ht, by rw [remove_unheld refines held, Option.map_some], by rwa [Reps.remove_unheld held]⟩

/-- No cursor is on any record, so the assertion of `DestroyInfo` holds. -/
private theorem destroyInfo_unwatched (refines : Refines lawful ht S) (record : HiPtr α) :
    destroyInfo ht record = some (if fs.destrData then [record.data] else []) := by
  simp [destroyInfo, refines.unwatched]

/-- Every call on a table that stands for a set succeeds and keeps it so, where an `int` can count the records. -/
theorem step_refines (refines : Refines lawful ht S) (op : TableOp α) (room : Room ht op) :
    ∃ after, tableStep ht op = some after ∧ Refines lawful after (setStep S op) := by
  cases op with
  | add data newInfo =>
    by_cases held : S.Holds data
    · refine ⟨ht, by rw [tableStep, addCounted_held refines held]; rfl, ?_⟩
      rwa [setStep, Reps.add_held held]
    · obtain ⟨after, added, kept, _⟩ := addCounted_new refines held (room ((hashFind_unheld refines).mpr held))
      exact ⟨after, by rw [tableStep, added]; rfl, kept⟩
  | delete data => exact remove_refines refines data false (fun _ => rfl)
  | destroy data => exact remove_refines refines data fs.destrData (destroyInfo_unwatched refines)
  | find data => exact ⟨ht, rfl, refines⟩

theorem step_stuck (refines : Refines lawful ht S) (op : TableOp α) (full : ¬ Room ht op) : tableStep ht op = none := by
  cases op with
  | add data newInfo =>
    obtain ⟨absent, large⟩ := Classical.not_imp.mp full
    rw [tableStep, addCounted_full refines ((hashFind_unheld refines).mp absent) large, Option.map_none]
  | _ => exact absurd trivial full

end

theorem create_refines (lawful : Lawful fs) : Refines lawful (hashCreateTable fs) (Reps.empty lawful.setoid) := by
  have empty : records (hashCreateTable fs) = [] := by simp [records, hashCreateTable]
  refine ⟨⟨?_, ?_, ?_⟩, ?_, fun _ => rfl⟩
  · intro bucket record member; simp [hashCreateTable] at member
  · simp [empty]
  · rw [empty]; rfl
  · simp [empty, Reps.empty]

/-- The records are placed, pairwise different and counted, they are the pointers of the set, and each further call answers and
    acts as it does on the set, as long as an `int` can count the records. -/
structure Represents (lawful : Lawful fs) (ht : Hasht fs) (S : Reps lawful.setoid) : Prop where
  wellFormed : WellFormed ht
  same : ∀ data, data ∈ S.carrier ↔ ∃ record ∈ records ht, record.data = data
  found : ∀ key, hashFind ht key = S.find key
  adds : ∀ data newInfo, Room ht (.add data newInfo) → AddOutcome ht (S.Holds data) data newInfo
  deletes : ∀ data, RemoveOutcome (hashDelete ht data) false ht (S.Holds data) data
  destroys : ∀ data, RemoveOutcome (hashDestroy ht data) fs.destrData ht (S.Holds data) data

theorem refines_represents {lawful : Lawful fs} {ht : Hasht fs} {S : Reps lawful.setoid} (refines : Refines lawful ht S) :
    Represents lawful ht S where
  wellFormed := refines.wellFormed
  same := refines.same
  found := find_correct refines
  adds := add_outcome refines
  deletes data := remove_outcome refines data false (fun _ => rfl)
  destroys data := remove_outcome refines data fs.destrData (destroyInfo_unwatched refines)

/-- A table is the set that the calls make, just when no record is added that an `int` cannot count. -/
theorem hash_refines_set_iff (fs : Funcs α) (lawful : Lawful fs) (ops : List (TableOp α)) :
    (∃ ht, run tableStep (hashCreateTable fs) ops = some ht ∧ Represents lawful ht (members lawful ops)) ↔
      Guarded tableStep Room (hashCreateTable fs) ops := by
  have free : Guarded tableStep (fun _ _ => True) (hashCreateTable fs) ops := guarded_forall fun _ _ _ => trivial
  exact simulates_iff_guarded (R := Refines lawful) (fun _ _ op refines _ room => step_refines refines op room)
    (fun _ _ op refines _ full => step_stuck refines op full) (fun _ _ => refines_represents) (create_refines lawful) free

/-- The data of the records. -/
def entries (ht : Hasht fs) : List α := (records ht).map HiPtr.data

/-- The table stands for some set. -/
def Stands (lawful : Lawful fs) (ht : Hasht fs) : Prop := ∃ S, Refines lawful ht S

section
variable {lawful : Lawful fs} {ht : Hasht fs}

theorem create_stands (lawful : Lawful fs) : Stands lawful (hashCreateTable fs) := ⟨_, create_refines lawful⟩

theorem entries_create : entries (hashCreateTable fs) = [] := by simp [entries, records, hashCreateTable]

private theorem mem_entries {S : Reps lawful.setoid} (refines : Refines lawful ht S) (e : α) :
    e ∈ entries ht ↔ e ∈ S.carrier := by
  rw [entries, List.mem_map, refines.same]

/-- `HashFind` gives the entry that equals the key. -/
theorem hashFind_iff (stands : Stands lawful ht) {key e : α} :
    hashFind ht key = some e ↔ e ∈ entries ht ∧ fs.compData e key = 0 := by
  obtain ⟨S, refines⟩ := stands
  rw [find_correct refines, Reps.find_eq_some_iff, mem_entries refines]
  exact Iff.rfl

theorem hashFind_none (stands : Stands lawful ht) {key : α} :
    hashFind ht key = none ↔ ∀ e ∈ entries ht, fs.compData e key ≠ 0 := by
  rw [Option.eq_none_iff_forall_ne_some]
  constructor
  · exact fun absent e member same => absent e ((hashFind_iff stands).mpr ⟨member, same⟩)
  · intro differ e found
    obtain ⟨member, same⟩ := (hashFind_iff stands).mp found
    exact differ e member same

/-- Entries that are equal for the table are the same. -/
theorem entries_separate (stands : Stands lawful ht) {a b : α} (first : a ∈ entries ht) (second : b ∈ entries ht)
    (same : fs.compData a b = 0) : a = b := by
  obtain ⟨S, refines⟩ := stands
  exact S.separate a ((mem_entries refines a).mp first) b ((mem_entries refines b).mp second) same

theorem entries_pairwise (stands : Stands lawful ht) : (entries ht).Pairwise fun a b => fs.compData a b ≠ 0 := by
  obtain ⟨S, refines⟩ := stands
  exact List.pairwise_map.mpr refines.wellFormed.separate

/-- `HashFind` gives the first entry that equals the key, whatever the buckets. -/
theorem hashFind_eq (stands : Stands lawful ht) (key : α) :
    hashFind ht key = (entries ht).find? (fun e => fs.compData e key == 0) := by
  cases search : (entries ht).find? (fun e => fs.compData e key == 0) with
  | none =>
    refine (hashFind_none stands).mpr fun e member same => ?_
    have differs := List.find?_eq_none.mp search e member
    simp [same] at differs
  | some e =>
    refine (hashFind_iff stands).mpr ⟨List.mem_of_find?_eq_some search, ?_⟩
    simpa using List.find?_some search

theorem no_cursors (stands : Stands lawful ht) (address : Nat) : ht.firstCursor address = none := by
  obtain ⟨S, refines⟩ := stands
  exact refines.unwatched address

theorem elementCount_eq (stands : Stands lawful ht) : hashGetElementCount ht = (entries ht).length := by
  obtain ⟨S, refines⟩ := stands
  rw [entries, List.length_map]
  exact refines.wellFormed.counted

/-- `HashAdd` of data whose key is held changes nothing. -/
theorem hashAdd_held (stands : Stands lawful ht) {data e : α} (held : hashFind ht data = some e) (newInfo : Nat) :
    hashAdd ht data (some newInfo) = (ht, 0) := by
  obtain ⟨S, refines⟩ := stands
  refine hashAdd_unchanged refines ?_ newInfo
  rw [find_correct refines] at held
  obtain ⟨member, same⟩ := Reps.find_eq_some_iff.mp held
  exact ⟨e, member, same⟩

/-- `HashAdd` of data whose key is not held makes it an entry. -/
theorem hashAdd_new (stands : Stands lawful ht) {data : α} (unheld : hashFind ht data = none) (newInfo : Nat) :
    ∃ after, hashAdd ht data (some newInfo) = (after, 1) ∧ Stands lawful after ∧
      (entries after).Perm (data :: entries ht) := by
  obtain ⟨S, refines⟩ := stands
  rw [find_correct refines] at unheld
  obtain ⟨after, added, kept, all⟩ := add_new refines data newInfo (Reps.find_eq_none_iff.mp unheld)
  exact ⟨after, added, ⟨_, kept⟩, all.map HiPtr.data⟩

/-- `HashFind` after a `HashAdd`. -/
theorem hashFind_added (stands : Stands lawful ht) (data key : α) (newInfo : Nat) :
    Stands lawful (hashAdd ht data (some newInfo)).1 ∧
      hashFind (hashAdd ht data (some newInfo)).1 key =
        (hashFind ht key).or (if fs.compData data key = 0 then some data else none) := by
  cases held : hashFind ht data with
  | some e =>
    rw [hashAdd_held stands held newInfo]
    refine ⟨stands, ?_⟩
    by_cases same : fs.compData data key = 0
    · obtain ⟨member, equal⟩ := (hashFind_iff stands).mp held
      rw [(hashFind_iff stands).mpr ⟨member, lawful.trans _ _ _ equal same⟩, Option.some_or]
    · rw [if_neg same, Option.or_none]
  | none =>
    obtain ⟨after, added, kept, all⟩ := hashAdd_new stands held newInfo
    rw [added]
    refine ⟨kept, ?_⟩
    cases found : hashFind ht key with
    | some e =>
      obtain ⟨member, equal⟩ := (hashFind_iff stands).mp found
      rw [Option.some_or]
      exact (hashFind_iff kept).mpr ⟨all.mem_iff.mpr (List.mem_cons_of_mem _ member), equal⟩
    | none =>
      rw [Option.none_or]
      by_cases same : fs.compData data key = 0
      · rw [if_pos same]
        exact (hashFind_iff kept).mpr ⟨all.mem_iff.mpr List.mem_cons_self, same⟩
      · rw [if_neg same, hashFind_none kept]
        intro e member
        rcases List.mem_cons.mp (all.mem_iff.mp member) with rfl | old
        · exact same
        · exact (hashFind_none stands).mp found e old

theorem hashDelete_absent (stands : Stands lawful ht) {data : α} (unheld : hashFind ht data = none) :
    hashDelete ht data = some (ht, 0, []) := by
  obtain ⟨S, refines⟩ := stands
  rw [find_correct refines] at unheld
  exact remove_unheld refines (Reps.find_eq_none_iff.mp unheld)

/-- `HashDelete` takes out the entry that `HashFind` finds for the same data. -/
theorem hashDelete_held (stands : Stands lawful ht) {data e : α} (held : hashFind ht data = some e) :
    ∃ after, hashDelete ht data = some (after, 1, []) ∧ Stands lawful after ∧
      ∀ x, x ∈ entries after ↔ x ∈ entries ht ∧ x ≠ e := by
  have found := (hashFind_iff stands).mp held
  obtain ⟨S, refines⟩ := stands
  have holds : S.Holds data := (holds_iff refines data).mpr <| by
    obtain ⟨record, member, rfl⟩ := List.mem_map.mp found.1
    exact ⟨record, member, found.2⟩
  obtain ⟨after, _, ran, _, _, kept⟩ := remove_held refines false (fun _ => rfl) holds
  refine ⟨after, ran, ⟨_, kept⟩, fun x => ?_⟩
  rw [mem_entries kept, Reps.mem_remove, mem_entries refines]
  refine and_congr_right fun member => not_congr ?_
  constructor
  · intro same
    exact entries_separate ⟨S, refines⟩ ((mem_entries refines x).mpr member) found.1
      (lawful.trans _ _ _ same (lawful.symm _ _ found.2))
  · rintro rfl
    exact found.2

end

/-- Numbers modulo three, with negative hash values that collide in two buckets. -/
def residues : Funcs Nat :=
  ⟨2, by decide, fun n => -Int32.ofNat (n % 3), fun a b => if a % 3 = b % 3 then 0 else 1, true⟩

theorem residues_lawful : Lawful residues := by
  have zero : ∀ a b, residues.compData a b = 0 ↔ a % 3 = b % 3 := by
    intro a b
    simp only [residues]
    split <;> simp_all
  refine ⟨?_, ?_, ?_, ?_⟩
  · intro a; exact (zero a a).mpr rfl
  · intro a b same; exact (zero b a).mpr ((zero a b).mp same).symm
  · intro a b c first second; exact (zero a c).mpr (((zero a b).mp first).trans ((zero b c).mp second))
  · intro a b same; simp [residues, (zero a b).mp same]

def fewCalls : List (TableOp Nat) := [.add 4 0, .add 2 1, .add 7 2, .destroy 1]

theorem hash_refines_set_iff_residues :
    (∃ ht, run tableStep (hashCreateTable residues) fewCalls = some ht ∧ Represents residues_lawful ht (members residues_lawful fewCalls)) ↔
      Guarded tableStep Room (hashCreateTable residues) fewCalls :=
  hash_refines_set_iff residues residues_lawful fewCalls

/-- Numbers, all in one bucket. -/
def numbers : Funcs Nat := ⟨1, Nat.one_pos, fun _ => 0, fun a b => if a = b then 0 else 1, false⟩

theorem numbers_lawful : Lawful numbers := by
  have zero : ∀ a b, numbers.compData a b = 0 ↔ a = b := by
    intro a b
    simp only [numbers]
    split <;> simp_all
  exact ⟨fun a => (zero a a).mpr rfl, fun a b same => (zero b a).mpr ((zero a b).mp same).symm,
    fun a b c first second => (zero a c).mpr (((zero a b).mp first).trans ((zero b c).mp second)), fun _ _ _ => rfl⟩

/-- The first numbers, one after the other. -/
def adds (count : Nat) : List (TableOp Nat) := (List.range count).map fun i => .add i i

theorem adds_succ (count : Nat) : adds (count + 1) = adds count ++ [.add count count] := by
  simp [adds, List.range_succ]

private theorem numbers_unheld {ht : Hasht numbers} {count : Nat} (stands : Stands numbers_lawful ht)
    (all : (entries ht).Perm (List.range count)) : hashFind ht count = none := by
  refine (hashFind_none stands).mpr fun e member same => ?_
  have below := List.mem_range.mp (all.mem_iff.mp member)
  simp only [numbers] at same
  split at same
  · omega
  · cases same

private theorem numbers_counted {ht : Hasht numbers} {count : Nat} (stands : Stands numbers_lawful ht)
    (all : (entries ht).Perm (List.range count)) : ht.elementCount = count := by
  have counted := elementCount_eq stands
  rwa [all.length_eq, List.length_range] at counted

private theorem run_adds (count : Nat) (small : count ≤ intMax) :
    ∃ ht, run tableStep (hashCreateTable numbers) (adds count) = some ht ∧ Stands numbers_lawful ht ∧
      (entries ht).Perm (List.range count) := by
  induction count with
  | zero => exact ⟨_, rfl, create_stands numbers_lawful, by rw [entries_create]; exact List.Perm.nil⟩
  | succ count ih =>
    obtain ⟨ht, ran, stands, all⟩ := ih (Nat.le_of_succ_le small)
    obtain ⟨after, added, kept, more⟩ := hashAdd_new stands (numbers_unheld stands all) count
    have longer : (entries after).Perm (List.range (count + 1)) := by
      rw [List.range_succ]
      exact (more.trans (all.cons count)).trans (List.perm_append_singleton count _).symm
    have counts : after.elementCount ≤ intMax := by
      rw [numbers_counted kept longer]
      exact_mod_cast small
    refine ⟨after, ?_, kept, longer⟩
    rw [adds_succ]
    refine run_append.mpr ⟨ht, ran, run_cons.mpr ⟨after, ?_, rfl⟩⟩
    rw [tableStep, hashAddCounted, added]
    simp [counts]

/-- One number more than an `int` can count. -/
theorem count_overflows :
    ¬ ∃ ht, run tableStep (hashCreateTable numbers) (adds (intMax + 1)) = some ht ∧
      Represents numbers_lawful ht (members numbers_lawful (adds (intMax + 1))) := by
  rintro ⟨last, ran, -⟩
  obtain ⟨ht, first, stands, all⟩ := run_adds intMax le_rfl
  rw [adds_succ] at ran
  obtain ⟨again, middle, ran⟩ := run_append.mp ran
  cases Option.some.inj (first.symm.trans middle)
  obtain ⟨after, stepped, -⟩ := run_cons.mp ran
  have unheld := numbers_unheld stands all
  have counted := numbers_counted stands all
  obtain ⟨S, refines⟩ := stands
  rw [tableStep, addCounted_full refines ((hashFind_unheld refines).mp unheld) (by rw [counted]; exact lt_irrefl _)] at stepped
  cases stepped

end VoxiUtil.HashSet
