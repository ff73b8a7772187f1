import Mathlib.Algebra.BigOperators.Fin
import Mathlib.Algebra.Order.BigOperators.Group.Multiset
import Mathlib.Data.List.TakeWhile
import Mathlib.Data.Multiset.Basic
import Mathlib.Logic.Function.Basic

/-!
The hash table of `hash.c`. A bucket is the chain of its records in the order of
their `next` pointers; a record that is freed is in no bucket. An operation
gives `none` where an assertion of the source fails.
-/
namespace VoxiUtil.Hash
variable {α : Type}

/-- The fields of `struct Hasht` that `HashCreateTable` sets for good. Its
    `assert( sz != 0 )` is `sized`; `destrData` says whether a destroy function
    was given. The functions return C `int`s. -/
structure Funcs (α : Type) where
  size : Nat
  sized : 0 < size
  calcIndx : α → Int32
  compData : α → α → Int32
  destrData : Bool

/-- A record, `struct HiPtr`: the block that `malloc` gave for it and its data.
    Blocks are told apart by number and a freed block's number is not used again. -/
structure HiPtr (α : Type) where
  address : Nat
  data : α
deriving DecidableEq

/-- `struct Hasht`. The `firstCursor` fields of the records are kept by address. The functions here count the records without a
    bound; what the `int` of the source does to them is in `hashAddCounted`. -/
structure Hasht (fs : Funcs α) where
  elementCount : Int
  infoArray : Fin fs.size → List (HiPtr α)
  firstCursor : Nat → Option Nat

variable {fs : Funcs α}

/-- The bucket of `data`: the possibly negative hash value is converted to
    unsigned by the remainder with the unsigned size. -/
def hashval (fs : Funcs α) (data : α) : Fin fs.size :=
  ⟨(fs.calcIndx data).toUInt32.toNat % fs.size, Nat.mod_lt _ fs.sized⟩

def hashCreateTable (fs : Funcs α) : Hasht fs := ⟨0, fun _ => [], fun _ => none⟩

/-- The first record of the bucket whose data equals `data`. -/
def findInfo (ht : Hasht fs) (data : α) (bucket : Fin fs.size) : Option (HiPtr α) :=
  (ht.infoArray bucket).find? (fun tmp => fs.compData data tmp.data == 0)

def hashGetElementCount (ht : Hasht fs) : Int := ht.elementCount

def hashFind (ht : Hasht fs) (data : α) : Option α :=
  (findInfo ht data (hashval fs data)).map HiPtr.data

/-- `newInfo` is what `malloc` returns for the new record; none also when the
    semaphore of the record cannot be made. -/
def hashAdd (ht : Hasht fs) (data : α) (newInfo : Option Nat) : Hasht fs × Int :=
  match findInfo ht data (hashval fs data) with
  | some _ => (ht, 0)
  | none =>
    match newInfo with
    | none => (ht, 0)
    | some address =>
      ({ infoArray := Function.update ht.infoArray (hashval fs data)
            (⟨address, data⟩ :: ht.infoArray (hashval fs data))
         firstCursor := Function.update ht.firstCursor address none
         elementCount := ht.elementCount + 1 }, 1)

/-- The table with one record less, whose bucket has the chain `chain` now. -/
def unlinked (ht : Hasht fs) (bucket : Fin fs.size) (chain : List (HiPtr α)) : Hasht fs :=
  { ht with infoArray := Function.update ht.infoArray bucket chain, elementCount := ht.elementCount - 1 }

/-- The end of both removals: the record off the chain is released and counted
    off, and the count is asserted. -/
def countOff (release : HiPtr α → Option (List α)) (ht : Hasht fs) (bucket : Fin fs.size) (chain : List (HiPtr α))
    (toTrash : HiPtr α) : Option (Hasht fs × Int × List α) :=
  (release toTrash).bind fun destroyed =>
    if 0 ≤ (unlinked ht bucket chain).elementCount then some (unlinked ht bucket chain, 1, destroyed) else none

/-- The common body of `HashDestroy` and `HashDelete`, which differ in how they
    release the record: the result with the data passed to the destroy function. -/
def unlink (release : HiPtr α → Option (List α)) (ht : Hasht fs) (data : α) : Option (Hasht fs × Int × List α) :=
  match ht.infoArray (hashval fs data) with
  | [] => some (ht, 0, [])
  | first :: chain =>
    if fs.compData first.data data = 0 then
      -- The first record matched.
      countOff release ht (hashval fs data) chain first
    else
      -- The search walks while there is a next record that differs.
      match chain.span (fun tmp => fs.compData tmp.data data != 0) with
      | (_, []) => some (ht, 0, [])
      | (walked, toTrash :: rest) => countOff release ht (hashval fs data) (first :: (walked ++ rest)) toTrash

/-- Asserts that no cursor is on the record and hands its data to the destroy function. -/
def destroyInfo (ht : Hasht fs) (record : HiPtr α) : Option (List α) :=
  if ht.firstCursor record.address = none then some (if fs.destrData then [record.data] else []) else none

def hashDestroy (ht : Hasht fs) (data : α) : Option (Hasht fs × Int × List α) := unlink (destroyInfo ht) ht data

/-- The record is freed without a look at its cursors, and its data is kept. -/
def hashDelete (ht : Hasht fs) (data : α) : Option (Hasht fs × Int × List α) := unlink (fun _ => some []) ht data

/-- The record that a removal of `data` takes: the first match of its chain. -/
def matching (ht : Hasht fs) (data : α) : Option (HiPtr α) :=
  (ht.infoArray (hashval fs data)).find? (fun tmp => fs.compData tmp.data data == 0)

/-- All records, bucket after bucket. -/
def records (ht : Hasht fs) : List (HiPtr α) := (List.ofFn ht.infoArray).flatten

theorem mem_records {ht : Hasht fs} {record : HiPtr α} :
    record ∈ records ht ↔ ∃ bucket, record ∈ ht.infoArray bucket := by
  simp [records]

private theorem coe_flatten {β : Type} (L : List (List β)) :
    ((L.flatten : List β) : Multiset β) = (L.map (fun l : List β => (l : Multiset β))).sum := by
  induction L with
  | nil => rfl
  | cons l rest ih => rw [List.flatten_cons, ← Multiset.coe_add, ih, List.map_cons, List.sum_cons]

private theorem flatten_ofFn {β : Type} {n : Nat} (f : Fin n → List β) :
    (((List.ofFn f).flatten : List β) : Multiset β) = ∑ i, (f i : Multiset β) := by
  rw [coe_flatten, List.map_ofFn, List.sum_ofFn]
  rfl

/-- A member more in one bucket is a member more in all. -/
theorem flatten_update {β : Type} {n : Nat} (f : Fin n → List β) (i : Fin n) (x : β) (l : List β)
    (more : (f i).Perm (x :: l)) :
    ((List.ofFn f).flatten).Perm (x :: (List.ofFn (Function.update f i l)).flatten) := by
  rw [← Multiset.coe_eq_coe, ← Multiset.cons_coe, flatten_ofFn, flatten_ofFn]
  have bucket : ((f i : List β) : Multiset β) = x ::ₘ (l : Multiset β) := Multiset.coe_eq_coe.mpr more
  have others : ∑ j ∈ Finset.univ.erase i, ((Function.update f i l j : List β) : Multiset β)
      = ∑ j ∈ Finset.univ.erase i, ((f j : List β) : Multiset β) :=
    Finset.sum_congr rfl (fun j member => by rw [Function.update_of_ne (Finset.ne_of_mem_erase member)])
  rw [← Finset.add_sum_erase _ _ (Finset.mem_univ i), ← Finset.add_sum_erase _ _ (Finset.mem_univ i),
    others, bucket, Function.update_self, Multiset.cons_add]

/-- Taking a record off its chain takes it off the records. -/
theorem records_unlinked {ht : Hasht fs} {bucket : Fin fs.size} {pre post : List (HiPtr α)} {record : HiPtr α}
    (chain : ht.infoArray bucket = pre ++ record :: post) :
    (records ht).Perm (record :: records (unlinked ht bucket (pre ++ post))) :=
  flatten_update ht.infoArray bucket record (pre ++ post) (by rw [chain]; exact List.perm_middle)

/-- The two ways a removal unlinks, from the front of the chain or behind a
    record, take out the first match of the chain. -/
theorem unlink_eq (release : HiPtr α → Option (List α)) (ht : Hasht fs) (data : α) :
    unlink release ht data =
      match (ht.infoArray (hashval fs data)).span (fun tmp => fs.compData tmp.data data != 0) with
      | (_, []) => some (ht, 0, [])
      | (walked, toTrash :: rest) => countOff release ht (hashval fs data) (walked ++ rest) toTrash := by
  unfold unlink
  cases ht.infoArray (hashval fs data) with
  | nil => rfl
  | cons first chain =>
    simp only [List.span_eq_takeWhile_dropWhile]
    by_cases same : fs.compData first.data data = 0
    · simp [same]
    · simp only [same, ↓reduceIte, bne_iff_ne, ne_eq, not_false_eq_true, List.takeWhile_cons_of_pos,
        List.dropWhile_cons_of_pos]
      cases chain.dropWhile (fun tmp => fs.compData tmp.data data != 0) <;> rfl

/-- A removal that matches no record of the bucket leaves the table as it is. -/
theorem unlink_absent {release : HiPtr α → Option (List α)} {ht : Hasht fs} {data : α}
    (absent : matching ht data = none) : unlink release ht data = some (ht, 0, []) := by
  have drained : (ht.infoArray (hashval fs data)).dropWhile (fun tmp => fs.compData tmp.data data != 0) = [] := by
    rw [List.dropWhile_eq_nil_iff]
    intro record member
    simpa using List.find?_eq_none.mp absent record member
  rw [unlink_eq, List.span_eq_takeWhile_dropWhile, drained]

/-- A removal with a match splits the chain at it. -/
theorem unlink_present (release : HiPtr α → Option (List α)) {ht : Hasht fs} {data : α} {toTrash : HiPtr α}
    (present : matching ht data = some toTrash) :
    ∃ pre post, ht.infoArray (hashval fs data) = pre ++ toTrash :: post ∧
      unlink release ht data = countOff release ht (hashval fs data) (pre ++ post) toTrash := by
  obtain ⟨matched, pre, post, chain, earlier⟩ := List.find?_eq_some_iff_append.mp present
  have differ : ∀ tmp ∈ pre, (fs.compData tmp.data data != 0) = true := by simpa using earlier
  have stops : (fs.compData toTrash.data data != 0) = false := by simpa using matched
  refine ⟨pre, post, chain, ?_⟩
  rw [unlink_eq, List.span_eq_takeWhile_dropWhile, chain, List.takeWhile_append_of_pos differ,
    List.dropWhile_append_of_pos differ, List.takeWhile_cons_of_neg (by simp [stops]),
    List.dropWhile_cons_of_neg (by simp [stops]), List.append_nil]

/-- What a removal can do: nothing, when no record of the bucket matches, or
    take the first match out of its chain. -/
theorem unlink_cases {release : HiPtr α → Option (List α)} {ht : Hasht fs} {data : α}
    {out : Hasht fs × Int × List α} (ran : unlink release ht data = some out) :
    (matching ht data = none ∧ out = (ht, 0, [])) ∨
    ∃ pre toTrash post destroyed,
      matching ht data = some toTrash ∧ ht.infoArray (hashval fs data) = pre ++ toTrash :: post ∧
      release toTrash = some destroyed ∧
      out = (unlinked ht (hashval fs data) (pre ++ post), 1, destroyed) := by
  cases found : matching ht data with
  | none =>
    rw [unlink_absent found] at ran
    exact .inl ⟨rfl, (Option.some.inj ran).symm⟩
  | some toTrash =>
    obtain ⟨pre, post, chain, removal⟩ := unlink_present release found
    rw [removal] at ran
    obtain ⟨destroyed, released, counted⟩ := Option.bind_eq_some_iff.mp ran
    split at counted
    · exact .inr ⟨pre, toTrash, post, destroyed, rfl, chain, released, (Option.some.inj counted).symm⟩
    · cases counted

end VoxiUtil.Hash
