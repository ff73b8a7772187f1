import VoxiUtil.HashCursorPointers
import VoxiUtil.HashTraversal

/-!
The life of a hash table with its records, from `HashCreateTable` to `HashDestroyTable`:
no record is lost and none is freed twice, whatever the calls were and wherever their
cursors are.
-/
namespace VoxiUtil.HashLife
open VoxiUtil.Hash VoxiUtil.HashSet VoxiUtil.HashCursor VoxiUtil.HashCursorRecords VoxiUtil.HashCursorLists
  VoxiUtil.HashCursorPointers VoxiUtil.HashTraversal VoxiUtil.Runs
variable {α : Type} {fs : Funcs α}

/-- The loop of `HashDestroyTable` down a chain: the records it frees and the data that it
    passes to the destroy function. -/
def destroyChain (ht : Hasht fs) : List (HiPtr α) → Option (List (HiPtr α) × List α)
  | [] => some ([], [])
  | record :: chain => do
    let passed ← destroyInfo ht record
    let (freed, rest) ← destroyChain ht chain
    return (record :: freed, passed ++ rest)

def destroyChains (ht : Hasht fs) : List (List (HiPtr α)) → Option (List (HiPtr α) × List α)
  | [] => some ([], [])
  | chain :: chains => do
    let (freed, passed) ← destroyChain ht chain
    let (others, rest) ← destroyChains ht chains
    return (freed ++ others, passed ++ rest)

def hashDestroyTable (ht : Hasht fs) : Option (List (HiPtr α) × List α) := destroyChains ht (List.ofFn ht.infoArray)

/-- Asserts that there is an element, and again that a bucket with one was found. -/
def hashGetArbitraryElement (ht : Hasht fs) : Option α := do
  assert (0 < ht.elementCount)
  let hashIndex := skipEmpty ht fs.size 0
  if inside : hashIndex < fs.size then (ht.infoArray ⟨hashIndex, inside⟩).head?.map HiPtr.data else none

/-- A table and what became of its records: those that `HashAdd` linked, those that
    `HashDelete` and `HashDestroy` freed, and the data passed to the destroy function. -/
structure Life (fs : Funcs α) where
  heap : Heap fs
  added : List (HiPtr α)
  deleted : List (HiPtr α)
  destroyed : List (HiPtr α)
  passed : List α

def born (fs : Funcs α) : Life fs := ⟨start fs, [], [], [], []⟩

/-- A call, with what it does to the records. -/
def lifeStep (l : Life fs) (op : Op α) : Option (Life fs) :=
  (step l.heap op).map fun heap =>
    match op with
    | .add data allocated =>
      if (hashAdd l.heap.table data (if allocated then some l.heap.unused else none)).2 = 0 then { l with heap := heap }
      else { l with heap := heap, added := ⟨l.heap.unused, data⟩ :: l.added }
    | .delete data => { l with heap := heap, deleted := l.deleted ++ (matching l.heap.table data).toList }
    | .destroy data =>
      { l with heap := heap
               destroyed := l.destroyed ++ (matching l.heap.table data).toList
               passed := l.passed ++ ((hashDestroy l.heap.table data).elim [] fun out => out.2.2) }
    | _ => { l with heap := heap }

/-- What the destroy function is to get of the records. -/
def dataOf (fs : Funcs α) (freed : List (HiPtr α)) : List α := if fs.destrData then freed.map HiPtr.data else []

/-- The records are accounted for, each in a block of its own. -/
structure Balanced (l : Life fs) : Prop where
  counted : l.heap.table.elementCount = (records l.heap.table).length
  account : (l.deleted ++ l.destroyed ++ records l.heap.table).Perm l.added
  passed : l.passed = dataOf fs l.destroyed
  separate : (l.added.map HiPtr.address).Nodup
  old : ∀ record ∈ l.added, record.address < l.heap.unused

section
variable {h m : Heap fs} {c : Nat} {l l' : Life fs}

/-! ### Calls on cursors -/

/-- The records and their count are as they were. -/
structure Untouched (h m : Heap fs) : Prop where
  infoArray : m.table.infoArray = h.table.infoArray
  elementCount : m.table.elementCount = h.table.elementCount
  unused : h.unused ≤ m.unused

theorem Untouched.trans {k : Heap fs} (first : Untouched h m) (second : Untouched m k) : Untouched h k :=
  ⟨second.infoArray.trans first.infoArray, second.elementCount.trans first.elementCount, first.unused.trans second.unused⟩

theorem remove_untouched (ran : removeCursorFromList h c = some m) : Untouched h m := by
  have rewired := remove_rewired ran
  refine ⟨rewired.infoArray, ?_, rewired.unused.ge⟩
  simp only [removeCursorFromList, Option.bind_eq_bind, Option.bind_eq_some_iff] at ran
  obtain ⟨_, _, _, _, ran⟩ := ran
  -- As in `remove_rewired`, by both halves of the surgery.
  split at ran
  · split at ran
    · rw [Option.bind_some] at ran
      split at ran
      · split at ran <;> cases ran
        rfl
      · cases ran; rfl
    · cases ran
  · rw [Option.bind_some] at ran
    split at ran
    · split at ran <;> cases ran
      rfl
    · cases ran; rfl

theorem add_untouched (ran : addCursorToList h c = some m) : Untouched h m := by
  have rewired := add_rewired ran
  refine ⟨rewired.infoArray, ?_, rewired.unused.ge⟩
  simp only [addCursorToList, Option.bind_eq_bind, Option.bind_eq_some_iff] at ran
  obtain ⟨_, _, _, _, linked⟩ := ran
  split at linked
  · split at linked <;> cases linked
    rfl
  · cases linked; rfl

theorem move_untouched (ran : moveCursorToNextIndex h c = some m) : Untouched h m := by
  obtain ⟨index, rfl | ⟨address, added⟩⟩ := move_cases ran
  · exact ⟨rfl, rfl, le_rfl⟩
  · have kept := add_untouched added
    exact ⟨kept.infoArray, kept.elementCount, kept.unused⟩

theorem goFirst_untouched (ran : hashCursorGoFirst h c = some m) : Untouched h m := by
  obtain ⟨_, moved⟩ | ⟨r, removed, moved⟩ := goFirst_cases ran
  · have kept := move_untouched moved
    exact ⟨kept.infoArray, kept.elementCount, kept.unused⟩
  · have kept := move_untouched moved
    exact (remove_untouched removed).trans ⟨kept.infoArray, kept.elementCount, kept.unused⟩

theorem goNext_untouched (ran : hashCursorGoNext h c = some m) : Untouched h m := by
  simp only [hashCursorGoNext, Option.bind_eq_bind, Option.bind_eq_some_iff] at ran
  obtain ⟨_, _, next, _, ran⟩ := ran
  cases next with
  | none =>
    obtain ⟨r, removed, moved⟩ := Option.bind_eq_some_iff.mp ran
    have kept := move_untouched moved
    exact (remove_untouched removed).trans ⟨kept.infoArray, kept.elementCount, kept.unused⟩
  | some record =>
    obtain ⟨r, removed, added⟩ := Option.bind_eq_some_iff.mp ran
    have kept := add_untouched added
    exact (remove_untouched removed).trans ⟨kept.infoArray, kept.elementCount, kept.unused⟩

theorem destroy_untouched (ran : hashCursorDestroy h c = some m) : Untouched h m := by
  simp only [hashCursorDestroy, Option.bind_eq_bind] at ran
  split at ran
  · obtain ⟨r, removed, done⟩ := Option.bind_eq_some_iff.mp ran
    cases done
    have kept := remove_untouched removed
    exact ⟨kept.infoArray, kept.elementCount, kept.unused⟩
  · cases ran
    exact ⟨rfl, rfl, le_rfl⟩

/-! ### The account of each call -/

theorem records_untouched (kept : Untouched h m) : records m.table = records h.table := by
  simp [records, kept.infoArray]

theorem balanced_untouched (balanced : Balanced l) (kept : Untouched l.heap m) : Balanced { l with heap := m } := by
  have same := records_untouched kept
  refine ⟨?_, ?_, balanced.passed, balanced.separate, fun record member => ?_⟩
  · rw [kept.elementCount, balanced.counted, same]
  · simp only [same, balanced.account]
  · exact (balanced.old record member).trans_le kept.unused

/-- What a removal takes off the table, and by what the count goes down. -/
theorem unlink_account {release : HiPtr α → Option (List α)} {ht : Hasht fs} {data : α} {out : Hasht fs × Int × List α}
    (ran : unlink release ht data = some out) :
    (records ht).Perm ((matching ht data).toList ++ records out.1) ∧
      out.1.elementCount = ht.elementCount - (matching ht data).toList.length ∧
      (out.2.2 = [] ∧ matching ht data = none ∨
        ∃ record, matching ht data = some record ∧ release record = some out.2.2) := by
  obtain ⟨absent, rfl⟩ | ⟨pre, toTrash, post, destroyed, found, chain, released, rfl⟩ := unlink_cases ran
  · simp [absent]
  · simp only [found, Option.toList_some, List.cons_append, List.nil_append]
    exact ⟨records_unlinked chain, rfl, .inr ⟨toTrash, rfl, released⟩⟩

theorem balanced_add (balanced : Balanced l) (data : α) (allocated : Bool)
    (stepped : lifeStep l (.add data allocated) = some l') : Balanced l' := by
  simp only [lifeStep, step, Option.map_some, Option.some.injEq] at stepped
  cases found : findInfo l.heap.table data (hashval fs data) with
  | some record =>
    simp only [hashAdd, found, ↓reduceIte] at stepped
    subst stepped
    exact ⟨balanced.counted, balanced.account, balanced.passed, balanced.separate,
      fun record member => Nat.lt_succ_of_lt (balanced.old record member)⟩
  | none =>
    cases allocated with
    | false =>
      simp only [hashAdd, found, Bool.false_eq_true, ↓reduceIte] at stepped
      subst stepped
      exact ⟨balanced.counted, balanced.account, balanced.passed, balanced.separate,
        fun record member => Nat.lt_succ_of_lt (balanced.old record member)⟩
    | true =>
      have more := records_added l.heap.unused found
      have count : (hashAdd l.heap.table data (some l.heap.unused)).1.elementCount = l.heap.table.elementCount + 1 := by
        simp [hashAdd, found]
      have one : (hashAdd l.heap.table data (some l.heap.unused)).2 = 1 := by simp [hashAdd, found]
      simp only [↓reduceIte, one, one_ne_zero] at stepped
      subst stepped
      refine ⟨?_, ?_, balanced.passed, ?_, ?_⟩
      · simp only [count, more.length_eq, balanced.counted, List.length_cons, Nat.cast_succ]
      · exact ((List.Perm.append_left _ more).trans List.perm_middle).trans (balanced.account.cons _)
      · refine List.nodup_cons.mpr ⟨fun member => ?_, balanced.separate⟩
        obtain ⟨record, present, same⟩ := List.mem_map.mp member
        exact absurd (balanced.old record present) (by simp only at same; omega)
      · intro record member
        rcases List.mem_cons.mp member with rfl | present
        · exact Nat.lt_succ_self _
        · exact Nat.lt_succ_of_lt (balanced.old record present)

theorem balanced_delete (balanced : Balanced l) (data : α) (stepped : lifeStep l (.delete data) = some l') :
    Balanced l' := by
  obtain ⟨heap, removed, rfl⟩ := Option.map_eq_some_iff.mp stepped
  obtain ⟨out, ran, rfl⟩ := Option.map_eq_some_iff.mp removed
  obtain ⟨account, count, _⟩ := unlink_account ran
  refine ⟨?_, ?_, balanced.passed, balanced.separate, balanced.old⟩
  · have lengths := account.length_eq
    rw [List.length_append] at lengths
    have counted := balanced.counted
    simp only [count]
    omega
  · refine List.Perm.trans ?_ balanced.account
    have shifted := (List.Perm.append_left (l.deleted ++ l.destroyed) account).symm
    refine List.Perm.trans ?_ shifted
    simp only [List.append_assoc]
    refine List.Perm.append_left _ ?_
    rw [← List.append_assoc, ← List.append_assoc]
    exact List.perm_append_comm.append_right _

theorem balanced_destroy (balanced : Balanced l) (data : α) (stepped : lifeStep l (.destroy data) = some l') :
    Balanced l' := by
  obtain ⟨heap, removed, rfl⟩ := Option.map_eq_some_iff.mp stepped
  obtain ⟨out, ran, rfl⟩ := Option.map_eq_some_iff.mp removed
  obtain ⟨account, count, released⟩ := unlink_account ran
  refine ⟨?_, ?_, ?_, balanced.separate, balanced.old⟩
  · have lengths := account.length_eq
    rw [List.length_append] at lengths
    have counted := balanced.counted
    simp only [count]
    omega
  · refine List.Perm.trans ?_ balanced.account
    have shifted := (List.Perm.append_left (l.deleted ++ l.destroyed) account).symm
    refine List.Perm.trans ?_ shifted
    simp only [List.append_assoc, List.Perm.refl]
  · simp only [ran, Option.elim_some, balanced.passed]
    obtain ⟨none, absent⟩ | ⟨record, found, passed⟩ := released
    · simp [none, absent, dataOf]
    · simp only [destroyInfo] at passed
      split at passed
      · have passed := Option.some.inj passed
        rw [← passed, found, dataOf, dataOf]
        split <;> simp
      · cases passed

/-- Every call keeps the account. -/
theorem balanced_step (balanced : Balanced l) (op : Op α) (stepped : lifeStep l op = some l') : Balanced l' := by
  cases op with
  | add data allocated => exact balanced_add balanced data allocated stepped
  | delete data => exact balanced_delete balanced data stepped
  | destroy data => exact balanced_destroy balanced data stepped
  | cursorCreate =>
    obtain ⟨heap, ran, rfl⟩ := Option.map_eq_some_iff.mp stepped
    have kept := goFirst_untouched ran
    exact balanced_untouched balanced ⟨kept.infoArray, kept.elementCount, (Nat.le_succ _).trans kept.unused⟩
  | cursorGoFirst c =>
    obtain ⟨heap, ran, rfl⟩ := Option.map_eq_some_iff.mp stepped
    rw [step] at ran
    split at ran
    · exact balanced_untouched balanced (goFirst_untouched ran)
    · cases ran
  | cursorGoNext c =>
    obtain ⟨heap, ran, rfl⟩ := Option.map_eq_some_iff.mp stepped
    rw [step] at ran
    split at ran
    · exact balanced_untouched balanced (goNext_untouched ran)
    · cases ran
  | cursorDestroy c =>
    obtain ⟨heap, ran, rfl⟩ := Option.map_eq_some_iff.mp stepped
    rw [step] at ran
    split at ran
    · exact balanced_untouched balanced (destroy_untouched ran)
    · cases ran

theorem born_balanced : Balanced (born fs) := by
  refine ⟨?_, ?_, ?_, ?_, ?_⟩
  · simp [born, records_start]
    rfl
  · simp [born, records_start]
  · simp [born, dataOf]
  · simp [born]
  · simp [born]

theorem run_balanced {ops : List (Op α)} (ran : run lifeStep (born fs) ops = some l) : Balanced l := by
  have each : ∀ (s : Life fs) (op : Op α) (t : Life fs), Balanced s → lifeStep s op = some t → Balanced t :=
    fun _ op _ balanced stepped => balanced_step balanced op stepped
  exact run_invariant each born_balanced ran

/-! ### The end of the table -/

/-- The record has no first cursor, as `DestroyInfo` asserts. -/
def Released (ht : Hasht fs) (record : HiPtr α) : Prop := ht.firstCursor record.address = none

theorem dataOf_append (freed others : List (HiPtr α)) : dataOf fs (freed ++ others) = dataOf fs freed ++ dataOf fs others := by
  rw [dataOf, dataOf, dataOf]
  split <;> simp

theorem destroyInfo_released {ht : Hasht fs} {record : HiPtr α} (released : Released ht record) :
    destroyInfo ht record = some (dataOf fs [record]) := by
  have off : ht.firstCursor record.address = none := released
  rw [destroyInfo, if_pos off, dataOf]
  rfl

theorem destroyChain_eq {ht : Hasht fs} {chain : List (HiPtr α)} (released : ∀ record ∈ chain, Released ht record) :
    destroyChain ht chain = some (chain, dataOf fs chain) := by
  induction chain with
  | nil => simp [destroyChain, dataOf]
  | cons record chain ih =>
    rw [destroyChain, destroyInfo_released (released record List.mem_cons_self),
      ih fun other member => released other (List.mem_cons_of_mem _ member)]
    simp only [Option.bind_eq_bind, Option.bind_some, Option.pure_def, ← dataOf_append, List.singleton_append]

theorem destroyChain_released {ht : Hasht fs} {chain : List (HiPtr α)} {out : List (HiPtr α) × List α}
    (ran : destroyChain ht chain = some out) : ∀ record ∈ chain, Released ht record := by
  induction chain generalizing out with
  | nil => simp
  | cons record chain ih =>
    simp only [destroyChain, Option.bind_eq_bind, Option.bind_eq_some_iff] at ran
    obtain ⟨passed, first, rest, more, -⟩ := ran
    intro other member
    rcases List.mem_cons.mp member with rfl | inChain
    · rw [destroyInfo] at first
      split at first
      · assumption
      · cases first
    · exact ih more other inChain

theorem destroyChains_eq {ht : Hasht fs} {chains : List (List (HiPtr α))}
    (released : ∀ record ∈ chains.flatten, Released ht record) :
    destroyChains ht chains = some (chains.flatten, dataOf fs chains.flatten) := by
  induction chains with
  | nil => simp [destroyChains, dataOf]
  | cons chain chains ih =>
    rw [List.flatten_cons] at released ⊢
    rw [destroyChains, destroyChain_eq fun record member => released record (List.mem_append_left _ member),
      ih fun record member => released record (List.mem_append_right _ member)]
    simp only [Option.bind_eq_bind, Option.bind_some, Option.pure_def, ← dataOf_append]

theorem destroyChains_released {ht : Hasht fs} {chains : List (List (HiPtr α))} {out : List (HiPtr α) × List α}
    (ran : destroyChains ht chains = some out) : ∀ record ∈ chains.flatten, Released ht record := by
  induction chains generalizing out with
  | nil => simp
  | cons chain chains ih =>
    simp only [destroyChains, Option.bind_eq_bind, Option.bind_eq_some_iff] at ran
    obtain ⟨first, freed, rest, more, -⟩ := ran
    intro record member
    rw [List.flatten_cons] at member
    rcases List.mem_append.mp member with here | later
    · exact destroyChain_released freed record here
    · exact ih more record later

/-- The table can be destroyed just when no record has a first cursor, and then frees all records. -/
theorem hashDestroyTable_iff {ht : Hasht fs} {freed : List (HiPtr α)} {passed : List α} :
    hashDestroyTable ht = some (freed, passed) ↔
      (∀ record ∈ records ht, Released ht record) ∧ freed = records ht ∧ passed = dataOf fs (records ht) := by
  constructor
  · intro ran
    have released : ∀ record ∈ records ht, Released ht record := destroyChains_released ran
    have out := (destroyChains_eq released).symm.trans ran
    simp only [Option.some.injEq, Prod.mk.injEq] at out
    exact ⟨released, out.1.symm, out.2.symm⟩
  · rintro ⟨released, rfl, rfl⟩
    exact destroyChains_eq released

/-- The arbitrary element is the first of all; both assertions hold while there is one. -/
theorem hashGetArbitraryElement_eq {ht : Hasht fs} (counted : ht.elementCount = (records ht).length) :
    hashGetArbitraryElement ht = (entries ht).head? := by
  obtain ⟨bound, same⟩ := skipEmpty_records ht fs.size 0 (Nat.zero_le _)
  rw [recordsFrom_zero] at same
  rw [hashGetArbitraryElement, entries]
  cases found : records ht with
  | nil =>
    have none : ¬ 0 < ht.elementCount := by simp [counted, found]
    rw [assert_false none]
    rfl
  | cons first rest =>
    have some : 0 < ht.elementCount := by
      rw [counted, found, List.length_cons]
      omega
    rw [assert_true some, Option.bind_eq_bind, Option.bind_some]
    by_cases inside : skipEmpty ht fs.size 0 < fs.size
    · have stops := skipEmpty_stops ht fs.size 0 (by omega) inside
      have begins : recordsFrom ht (skipEmpty ht fs.size 0) = _ := recordsFrom_bucket ⟨_, inside⟩
      rw [same, found] at begins
      rw [dif_pos inside]
      cases chain : ht.infoArray ⟨skipEmpty ht fs.size 0, inside⟩ with
      | nil => exact absurd chain stops
      | cons record others =>
        rw [chain] at begins
        have firstIs : first = record := (List.cons.inj begins).1
        simp [firstIs]
    · rw [recordsFrom_end (by omega), found] at same
      cases same

end

/-- A record is released just when no cursor is on it, while the lists of cursors are intact. -/
theorem unwatched_iff {h : Heap fs} (intact : ListsIntact h) {record : HiPtr α} (member : record ∈ records h.table) :
    Released h.table record ↔ Unwatched h record := by
  obtain ⟨cursors, chain, -, members⟩ := intact record.address (isLinked_iff.mpr ⟨record, member, rfl⟩)
  have head : h.table.firstCursor record.address = cursors.head? := by simpa using DoublyLinked.segment_head chain
  rw [Released, head, List.head?_eq_none_iff]
  constructor
  · rintro rfl c live onElement
    cases (members c).mpr ⟨live, onElement⟩
  · intro unwatched
    refine List.eq_nil_iff_forall_not_mem.mpr fun c listed => ?_
    obtain ⟨live, onElement⟩ := (members c).mp listed
    exact unwatched c live onElement

/-- What calls may be made at the end of a run, and how the account stands then. -/
structure Settles (l : Life fs) : Prop where
  /-- Each record has a block of its own, also of those that were freed. -/
  separate : (l.added.map HiPtr.address).Nodup
  counted : hashGetElementCount l.heap.table = (entries l.heap.table).length
  arbitrary : hashGetArbitraryElement l.heap.table = (entries l.heap.table).head?
  deletes : ∀ data, (hashDelete l.heap.table data).isSome
  destroys : ∀ data, (hashDestroy l.heap.table data).isSome ↔
    ∀ record, matching l.heap.table data = some record → Released l.heap.table record
  /-- Cursors that leave their lists between two others break the lists, and then a record may have a cursor that is not its first. -/
  watched : ListsIntact l.heap → ∀ record ∈ records l.heap.table, (Released l.heap.table record ↔ Unwatched l.heap record)
  /-- When the table can be destroyed, every record that was added has been freed once, and the destroy function got the data
      of those that were not deleted. -/
  ends : (hashDestroyTable l.heap.table).isSome ↔ ∀ record ∈ records l.heap.table, Released l.heap.table record
  account : ∀ freed passed, hashDestroyTable l.heap.table = some (freed, passed) →
    (l.deleted ++ l.destroyed ++ freed).Perm l.added ∧ l.passed ++ passed = dataOf fs (l.destroyed ++ freed)

/-- A removal fails only where the record cannot be released. -/
theorem unlink_isSome {ht : Hasht fs} {release : HiPtr α → Option (List α)} {data : α}
    (counted : ht.elementCount = (records ht).length) :
    (unlink release ht data).isSome ↔ ∀ record, matching ht data = some record → (release record).isSome := by
  cases found : matching ht data with
  | none => simp [unlink_absent found]
  | some toTrash =>
    obtain ⟨pre, post, chain, removal⟩ := unlink_present release found
    have lengths := (records_unlinked chain).length_eq
    have enough : 0 ≤ (unlinked ht (hashval fs data) (pre ++ post)).elementCount := by
      rw [List.length_cons] at lengths
      change 0 ≤ ht.elementCount - 1
      omega
    rw [removal, countOff]
    cases released : release toTrash with
    | none => simp [released]
    | some destroyed => simp [released, enough]

/-- After any calls on a table and its cursors, whatever its functions are. -/
theorem life_settles {ops : List (Op α)} {l : Life fs} (ran : run lifeStep (born fs) ops = some l) : Settles l := by
  have balanced := run_balanced ran
  refine ⟨balanced.separate, ?_, hashGetArbitraryElement_eq balanced.counted, fun data => ?_, fun data => ?_, ?_, ?_, ?_⟩
  · rw [hashGetElementCount, balanced.counted, entries, List.length_map]
  · exact (unlink_isSome balanced.counted).mpr fun _ _ => rfl
  · rw [hashDestroy, unlink_isSome balanced.counted]
    refine forall_congr' fun record => forall_congr' fun _ => ?_
    rw [destroyInfo, Released]
    split
    · exact iff_of_true rfl ‹_›
    · exact iff_of_false (by simp) ‹_›
  · exact fun intact record member => unwatched_iff intact member
  · rw [Option.isSome_iff_exists]
    constructor
    · rintro ⟨⟨freed, passed⟩, destroyed⟩
      exact (hashDestroyTable_iff.mp destroyed).1
    · intro released
      exact ⟨_, hashDestroyTable_iff.mpr ⟨released, rfl, rfl⟩⟩
  · intro freed passed destroyed
    obtain ⟨-, rfl, rfl⟩ := hashDestroyTable_iff.mp destroyed
    exact ⟨balanced.account, by rw [balanced.passed, ← dataOf_append]⟩

/-- A record is deleted, one destroyed, and one left when a cursor has gone over the table. -/
theorem life_settles_residues : ∃ l, run lifeStep (born residues)
      [.add 4 true, .add 2 true, .add 7 true, .add 3 true, .delete 1, .cursorCreate, .cursorDestroy 4, .destroy 5] = some l ∧
    Settles l := by
  obtain ⟨l, ran⟩ := Option.isSome_iff_exists.mp (show (run lifeStep (born residues)
    [.add 4 true, .add 2 true, .add 7 true, .add 3 true, .delete 1, .cursorCreate, .cursorDestroy 4, .destroy 5]).isSome
    from by decide)
  exact ⟨l, ran, life_settles ran⟩

end VoxiUtil.HashLife
