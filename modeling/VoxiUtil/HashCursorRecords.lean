import VoxiUtil.HashCursor

/-!
The records under the cursors. Whatever happens to the cursor lists, a cursor
moves from record to record of the table, so it can only be left on a freed
record by the removal of that record.
-/
namespace VoxiUtil.HashCursorRecords
open VoxiUtil.Hash VoxiUtil.HashCursor VoxiUtil.Runs
variable {α : Type} {fs : Funcs α}

/-- Every live cursor is past the last element or on a record of the table. -/
def NoneDangles (h : Heap fs) : Prop :=
  ∀ c, h.live c = true →
    hashCursorPastLastElement h c = true ∨ ∃ address, h.element c = some address ∧ isLinked h.table address = true

/-- Records have blocks of their own, and each cursor but `away` is past the table
    or on a record of it. -/
structure Settled (h : Heap fs) (away : Option Nat) : Prop where
  unique : ((records h.table).map HiPtr.address).Nodup
  old : ∀ record ∈ records h.table, record.address < h.unused
  onRecord : ∀ c address, h.live c = true → some c ≠ away → h.element c = some address →
    isLinked h.table address = true ∧ h.hashIndex c < fs.size
  past : ∀ c, h.live c = true → some c ≠ away → h.element c = none → (fs.size : Int) ≤ h.hashIndex c

theorem settled_noneDangles {h : Heap fs} (settled : Settled h none) : NoneDangles h := by
  intro c live
  cases onElement : h.element c with
  | none => exact .inl (decide_eq_true (settled.past c live (by simp) onElement))
  | some address => exact .inr ⟨address, rfl, (settled.onRecord c address live (by simp) onElement).1⟩

theorem isLinked_iff {ht : Hasht fs} {address : Nat} :
    isLinked ht address = true ↔ ∃ record ∈ records ht, record.address = address := by
  simp [isLinked]

theorem isLinked_congr {ht ht' : Hasht fs} (same : ht'.infoArray = ht.infoArray) (address : Nat) :
    isLinked ht' address = isLinked ht address := by
  simp [isLinked, records, same]

/-- `h'` differs from `h` in pointers of cursor lists only. -/
structure Rewired (h h' : Heap fs) : Prop where
  infoArray : h'.table.infoArray = h.table.infoArray
  live : h'.live = h.live
  element : h'.element = h.element
  hashIndex : h'.hashIndex = h.hashIndex
  unused : h'.unused = h.unused

theorem remove_rewired {h h' : Heap fs} {c : Nat} (ran : removeCursorFromList h c = some h') : Rewired h h' := by
  simp only [removeCursorFromList, Option.bind_eq_bind, Option.bind_eq_some_iff] at ran
  obtain ⟨element, _, _, _, ran⟩ := ran
  -- Both halves of the surgery, at the previous cursor and at the next one.
  split at ran
  · split at ran
    · rw [Option.bind_some] at ran
      split at ran
      · split at ran <;> cases ran
        exact ⟨rfl, rfl, rfl, rfl, rfl⟩
      · cases ran; exact ⟨rfl, rfl, rfl, rfl, rfl⟩
    · cases ran
  · rw [Option.bind_some] at ran
    split at ran
    · split at ran <;> cases ran
      exact ⟨rfl, rfl, rfl, rfl, rfl⟩
    · cases ran; exact ⟨rfl, rfl, rfl, rfl, rfl⟩

theorem add_rewired {h h' : Heap fs} {c : Nat} (ran : addCursorToList h c = some h') : Rewired h h' := by
  simp only [addCursorToList, Option.bind_eq_bind, Option.bind_eq_some_iff] at ran
  obtain ⟨element, _, _, _, relinked⟩ := ran
  split at relinked
  · split at relinked
    · cases relinked; exact ⟨rfl, rfl, rfl, rfl, rfl⟩
    · cases relinked
  · cases relinked; exact ⟨rfl, rfl, rfl, rfl, rfl⟩

theorem settled_rewired {h h' : Heap fs} {away : Option Nat} (settled : Settled h away) (rewired : Rewired h h') :
    Settled h' away := by
  have sameRecords : records h'.table = records h.table := by simp [records, rewired.infoArray]
  refine ⟨?_, ?_, ?_, ?_⟩
  · rw [sameRecords]; exact settled.unique
  · rw [sameRecords, rewired.unused]; exact settled.old
  · intro c address live present onElement
    rw [rewired.live] at live
    rw [rewired.element] at onElement
    rw [isLinked_congr rewired.infoArray, rewired.hashIndex]
    exact settled.onRecord c address live present onElement
  · intro c live present off
    rw [rewired.live] at live
    rw [rewired.element] at off
    rw [rewired.hashIndex]
    exact settled.past c live present off

theorem settled_leaves {h : Heap fs} (settled : Settled h none) (c : Nat) : Settled h (some c) :=
  ⟨settled.unique, settled.old, fun d address live _ => settled.onRecord d address live (by simp),
    fun d live _ => settled.past d live (by simp)⟩

theorem settled_returns {h : Heap fs} {c : Nat} (settled : Settled h (some c))
    (on : ∀ address, h.element c = some address → isLinked h.table address = true ∧ h.hashIndex c < fs.size)
    (off : h.live c = true → h.element c = none → (fs.size : Int) ≤ h.hashIndex c) : Settled h none := by
  refine ⟨settled.unique, settled.old, ?_, ?_⟩
  · intro d address live _ onElement
    by_cases same : d = c
    · subst same; exact on address onElement
    · exact settled.onRecord d address live (by simpa using same) onElement
  · intro d live _ offRecord
    by_cases same : d = c
    · subst same; exact off live offRecord
    · exact settled.past d live (by simpa using same) offRecord

/-- A cursor in no list may point anywhere. -/
theorem settled_setElement {h : Heap fs} {c : Nat} (settled : Settled h (some c)) (address : Option Nat) :
    Settled (setElement h c address) (some c) := by
  have apart : ∀ d, some d ≠ some c → (setElement h c address).element d = h.element d :=
    fun d differs => Function.update_of_ne (by simpa using differs) _ _
  refine ⟨settled.unique, settled.old, fun d other live present onOther => ?_, fun d live present off => ?_⟩
  · exact settled.onRecord d other live present ((apart d present).symm.trans onOther)
  · exact settled.past d live present ((apart d present).symm.trans off)

theorem settled_setHashIndex {h : Heap fs} {c : Nat} (settled : Settled h (some c)) (index : Int) :
    Settled (setHashIndex h c index) (some c) := by
  have apart : ∀ d, some d ≠ some c → (setHashIndex h c index).hashIndex d = h.hashIndex d :=
    fun d differs => Function.update_of_ne (by simpa using differs) _ _
  refine ⟨settled.unique, settled.old, fun d other live present onOther => ?_, fun d live present off => ?_⟩
  · rw [apart d present]; exact settled.onRecord d other live present onOther
  · rw [apart d present]; exact settled.past d live present off

/-- A new record, in a block that no record has, is one record more. -/
theorem records_added {ht : Hasht fs} {data : α} (address : Nat)
    (absent : findInfo ht data (hashval fs data) = none) :
    (records (hashAdd ht data (some address)).1).Perm (⟨address, data⟩ :: records ht) := by
  have more := flatten_update (hashAdd ht data (some address)).1.infoArray (hashval fs data) ⟨address, data⟩
    (ht.infoArray (hashval fs data)) (by simp [hashAdd, absent])
  simpa [records, hashAdd, absent] using more

theorem isLinked_perm {ht ht' : Hasht fs} {record : HiPtr α}
    (more : (records ht).Perm (record :: records ht')) (address : Nat) :
    isLinked ht address = true ↔ record.address = address ∨ isLinked ht' address = true := by
  simp only [isLinked_iff, more.mem_iff, List.mem_cons, exists_eq_or_imp]

/-- A record that no live cursor is on. -/
def Unwatched (h : Heap fs) (record : HiPtr α) : Prop := ∀ c, h.live c = true → h.element c ≠ some record.address

theorem following_linked {ht : Hasht fs} {address : Nat} {record : HiPtr α}
    (found : following ht address = some (some record)) : isLinked ht record.address = true := by
  obtain ⟨chain, member, here⟩ := List.exists_of_findSome?_eq_some found
  obtain ⟨bucket, rfl⟩ := (List.mem_ofFn' _ _).mp member
  split at here
  · cases here
  · rename_i current rest split
    have inRest : record ∈ rest := List.mem_of_mem_head? (Option.some.inj here)
    have inChain : record ∈ ht.infoArray bucket := (List.dropWhile_sublist _).subset (split ▸ List.mem_cons_of_mem _ inRest)
    exact isLinked_iff.mpr ⟨record, mem_records.mpr ⟨bucket, inChain⟩, rfl⟩

/-- The same cursors over another table and another next block. -/
theorem settled_table {h : Heap fs} {ht : Hasht fs} {unused : Nat} {away : Option Nat} (settled : Settled h away)
    (unique : ((records ht).map HiPtr.address).Nodup) (old : ∀ record ∈ records ht, record.address < unused)
    (kept : ∀ c address, h.live c = true → some c ≠ away → h.element c = some address → isLinked ht address = true) :
    Settled { h with table := ht, unused := unused } away :=
  ⟨unique, old, fun c address live present onElement =>
    ⟨kept c address live present onElement, (settled.onRecord c address live present onElement).2⟩, settled.past⟩

theorem unused_unlinked {h : Heap fs} {away : Option Nat} (settled : Settled h away) : isLinked h.table h.unused ≠ true := by
  rw [ne_eq, isLinked_iff]
  rintro ⟨record, member, same⟩
  exact absurd (settled.old record member) (by omega)

/-- Records in blocks of their own, which were given before the block `unused`. -/
structure Housed (ht : Hasht fs) (unused : Nat) : Prop where
  unique : ((records ht).map HiPtr.address).Nodup
  old : ∀ record ∈ records ht, record.address < unused

theorem housed_add {ht : Hasht fs} {unused : Nat} (housed : Housed ht unused) (data : α) (newInfo : Option Nat)
    (fresh : newInfo = none ∨ newInfo = some unused) : Housed (hashAdd ht data newInfo).1 (unused + 1) := by
  have unchanged : Housed ht (unused + 1) :=
    ⟨housed.unique, fun record member => Nat.lt_succ_of_lt (housed.old record member)⟩
  cases absent : findInfo ht data (hashval fs data) with
  | some found => simpa [hashAdd, absent] using unchanged
  | none =>
    rcases fresh with rfl | rfl
    · simpa [hashAdd, absent] using unchanged
    · have more := records_added unused absent
      constructor
      · refine (more.map HiPtr.address).nodup_iff.mpr (List.nodup_cons.mpr ⟨?_, housed.unique⟩)
        intro member
        obtain ⟨record, present, same⟩ := List.mem_map.mp member
        exact absurd (housed.old record present) (by simp only at same; omega)
      · intro record member
        rcases List.mem_cons.mp (more.mem_iff.mp member) with rfl | present
        · exact Nat.lt_succ_self _
        · exact Nat.lt_succ_of_lt (housed.old record present)

theorem housed_unlinked {ht : Hasht fs} {unused : Nat} {bucket : Fin fs.size} {pre post : List (HiPtr α)} {record : HiPtr α}
    (housed : Housed ht unused) (chain : ht.infoArray bucket = pre ++ record :: post) :
    Housed (unlinked ht bucket (pre ++ post)) unused := by
  have more := records_unlinked chain
  constructor
  · exact (List.nodup_cons.mp ((more.map HiPtr.address).nodup_iff.mp housed.unique)).2
  · exact fun other present => housed.old other (more.mem_iff.mpr (List.mem_cons_of_mem _ present))

theorem settled_add {h : Heap fs} (settled : Settled h none) (data : α) (newInfo : Option Nat)
    (fresh : newInfo = none ∨ newInfo = some h.unused) :
    Settled { h with table := (hashAdd h.table data newInfo).1, unused := h.unused + 1 } none := by
  have housed := housed_add ⟨settled.unique, settled.old⟩ data newInfo fresh
  refine settled_table settled housed.unique housed.old fun c address live present onElement => ?_
  have linked := (settled.onRecord c address live present onElement).1
  cases absent : findInfo h.table data (hashval fs data) with
  | some found => simpa [hashAdd, absent] using linked
  | none =>
    rcases fresh with rfl | rfl
    · simpa [hashAdd, absent] using linked
    · exact (isLinked_perm (records_added h.unused absent) address).mpr (.inr linked)

/-- A removal that takes a record without cursors off its chain. -/
theorem settled_unlinked {h : Heap fs} {bucket : Fin fs.size} {pre post : List (HiPtr α)} {record : HiPtr α}
    (settled : Settled h none) (chain : h.table.infoArray bucket = pre ++ record :: post)
    (unwatched : Unwatched h record) : Settled { h with table := unlinked h.table bucket (pre ++ post) } none := by
  have housed := housed_unlinked ⟨settled.unique, settled.old⟩ chain
  refine settled_table settled housed.unique housed.old fun c address live present onElement => ?_
  have linked := (settled.onRecord c address live present onElement).1
  rcases (isLinked_perm (records_unlinked chain) address).mp linked with same | linked
  · exact absurd (same ▸ onElement) (unwatched c live)
  · exact linked

/-- A cursor in no list is put on a record. -/
theorem settled_on {h : Heap fs} {c address : Nat} (away : Settled h (some c)) (linked : isLinked h.table address = true)
    (inside : h.hashIndex c < fs.size) : Settled (setElement h c (some address)) none := by
  refine settled_returns (settled_setElement away (some address)) (fun other onOther => ?_) (fun _ off => ?_)
  · cases Option.some.inj ((setElement_element h c _).symm.trans onOther)
    exact ⟨linked, inside⟩
  · rw [setElement_element] at off; cases off

theorem settled_moved {h h' : Heap fs} {c : Nat} (away : Settled h (some c))
    (ran : moveCursorToNextIndex h c = some h') : Settled h' none := by
  simp only [moveCursorToNextIndex, Option.bind_eq_bind, Option.bind_eq_some_iff] at ran
  obtain ⟨_, _, _, _, ran⟩ := ran
  have moved := settled_setHashIndex away (skipEmpty h.table fs.size (h.hashIndex c + 1).toNat)
  split at ran
  case isTrue inside =>
    split at ran
    case h_1 => cases ran
    case h_2 first rest chain =>
      rw [setHashIndex_table] at chain
      have linked : isLinked h.table first.address = true :=
        isLinked_iff.mpr ⟨first, mem_records.mpr ⟨_, chain ▸ List.mem_cons_self⟩, rfl⟩
      exact settled_rewired (settled_on moved linked (by simpa using inside)) (add_rewired ran)
  case isFalse outside =>
    cases ran
    refine settled_returns (settled_setElement moved none) (fun address onElement => ?_) (fun _ _ => ?_)
    · rw [setElement_element] at onElement; cases onElement
    · rw [setElement_hashIndex, setHashIndex_hashIndex]
      exact_mod_cast Nat.le_of_not_lt outside

theorem settled_goFirst {h h' : Heap fs} {c : Nat} (settled : Settled h (some c))
    (ran : hashCursorGoFirst h c = some h') : Settled h' none := by
  simp only [hashCursorGoFirst, Option.bind_eq_bind] at ran
  split at ran
  · obtain ⟨_, left, moved⟩ := Option.bind_eq_some_iff.mp ran
    obtain ⟨m, removed, rfl⟩ := Option.map_eq_some_iff.mp left
    have off := settled_setElement (settled_rewired settled (remove_rewired removed)) none
    exact settled_moved (settled_setHashIndex off (-1)) moved
  · exact settled_moved (settled_setHashIndex settled (-1)) ran

/-- A new cursor is in no list and on no record yet. -/
theorem settled_created {h : Heap fs} (settled : Settled h none) :
    Settled { h with live := Function.update h.live h.unused true
                     prevCursor := Function.update h.prevCursor h.unused none
                     nextCursor := Function.update h.nextCursor h.unused none
                     element := Function.update h.element h.unused none
                     unused := h.unused + 1 } (some h.unused) := by
  have apart : ∀ c, some c ≠ some h.unused → c ≠ h.unused := fun c differs same => differs (congrArg some same)
  refine ⟨settled.unique, fun record member => Nat.lt_succ_of_lt (settled.old record member), ?_, ?_⟩
  · intro c address live present onElement
    simp only [Function.update_of_ne (apart c present)] at live onElement
    exact settled.onRecord c address live (by simp) onElement
  · intro c live present off
    simp only [Function.update_of_ne (apart c present)] at live off
    exact settled.past c live (by simp) off

theorem settled_goNext {h h' : Heap fs} {c : Nat} (settled : Settled h none) (live : h.live c = true)
    (ran : hashCursorGoNext h c = some h') : Settled h' none := by
  simp only [hashCursorGoNext, Option.bind_eq_bind, Option.bind_eq_some_iff] at ran
  obtain ⟨address, onElement, next, followed, ran⟩ := ran
  split at ran
  · obtain ⟨m, removed, moved⟩ := Option.bind_eq_some_iff.mp ran
    have away := settled_leaves (settled_rewired settled (remove_rewired removed)) c
    exact settled_moved (settled_setElement away none) moved
  · rename_i record
    obtain ⟨m, removed, added⟩ := Option.bind_eq_some_iff.mp ran
    have rewired := remove_rewired removed
    have away := settled_leaves (settled_rewired settled rewired) c
    refine settled_rewired (settled_on away ?_ ?_) (add_rewired added)
    · exact (isLinked_congr rewired.infoArray _).trans (following_linked followed)
    · rw [rewired.hashIndex]
      exact (settled.onRecord c address live (by simp) onElement).2

theorem settled_freed {h : Heap fs} {c : Nat} (away : Settled h (some c)) :
    Settled { h with live := Function.update h.live c false } none := by
  have stays : ∀ d, Function.update h.live c false d = true → h.live d = true ∧ some d ≠ some c := by
    intro d live
    have differs : d ≠ c := by rintro rfl; simp at live
    exact ⟨by simpa [Function.update_of_ne differs] using live, by simpa using differs⟩
  refine ⟨away.unique, away.old, ?_, ?_⟩
  · exact fun d address live _ onElement => away.onRecord d address (stays d live).1 (stays d live).2 onElement
  · exact fun d live _ off => away.past d (stays d live).1 (stays d live).2 off

theorem settled_destroy {h h' : Heap fs} {c : Nat} (settled : Settled h none)
    (ran : hashCursorDestroy h c = some h') : Settled h' none := by
  simp only [hashCursorDestroy, Option.bind_eq_bind] at ran
  split at ran
  · obtain ⟨m, removed, freed⟩ := Option.bind_eq_some_iff.mp ran
    cases freed
    exact settled_freed (settled_leaves (settled_rewired settled (remove_rewired removed)) c)
  · cases ran
    exact settled_freed (settled_leaves settled c)

/-- A removal finds its record without a cursor on it. -/
def RemovesUnwatched (h : Heap fs) : Op α → Prop
  | .delete data | .destroy data => ∀ record, matching h.table data = some record → Unwatched h record
  | _ => True

private theorem settled_unlink {h : Heap fs} {release : HiPtr α → Option (List α)} {data : α}
    {out : Hasht fs × Int × List α} (settled : Settled h none) (ran : unlink release h.table data = some out)
    (unwatched : ∀ record, matching h.table data = some record → Unwatched h record) :
    Settled { h with table := out.1 } none := by
  rcases unlink_cases ran with ⟨_, rfl⟩ | ⟨pre, toTrash, post, destroyed, found, chain, _, rfl⟩
  · exact settled
  · exact settled_unlinked settled chain (unwatched toTrash found)

theorem step_settled {h h' : Heap fs} (op : Op α) (settled : Settled h none) (permitted : RemovesUnwatched h op)
    (ran : step h op = some h') : Settled h' none := by
  cases op with
  | add data allocated =>
    cases ran
    exact settled_add settled data _ (by cases allocated <;> simp)
  | delete data =>
    obtain ⟨out, removed, rfl⟩ := Option.map_eq_some_iff.mp ran
    exact settled_unlink settled removed permitted
  | destroy data =>
    obtain ⟨out, removed, rfl⟩ := Option.map_eq_some_iff.mp ran
    exact settled_unlink settled removed permitted
  | cursorCreate => exact settled_goFirst (settled_created settled) ran
  | cursorGoFirst c =>
    cases live : h.live c with
    | false => simp [step, live] at ran
    | true => exact settled_goFirst (settled_leaves settled c) (by simpa [step, live] using ran)
  | cursorGoNext c =>
    cases live : h.live c with
    | false => simp [step, live] at ran
    | true => exact settled_goNext settled live (by simpa [step, live] using ran)
  | cursorDestroy c =>
    cases live : h.live c with
    | false => simp [step, live] at ran
    | true => exact settled_destroy settled (by simpa [step, live] using ran)

/-- A cursor whose record was removed is on a freed record. -/
private theorem unlink_dangles {h : Heap fs} {release : HiPtr α → Option (List α)} {data : α}
    {out : Hasht fs × Int × List α} (settled : Settled h none) (ran : unlink release h.table data = some out)
    (watched : ¬ ∀ record, matching h.table data = some record → Unwatched h record) :
    ¬ NoneDangles { h with table := out.1 } := by
  simp only [Unwatched, not_forall, not_not] at watched
  obtain ⟨record, found, c, live, onElement⟩ := watched
  rcases unlink_cases ran with ⟨absent, _⟩ | ⟨pre, toTrash, post, destroyed, found', chain, _, rfl⟩
  · rw [found] at absent; cases absent
  · cases Option.some.inj (found.symm.trans found')
    have more := records_unlinked chain
    intro none
    rcases none c live with past | ⟨address, onAddress, linked⟩
    · have inside := (settled.onRecord c _ live (by simp) onElement).2
      have beyond : (fs.size : Int) ≤ h.hashIndex c := of_decide_eq_true past
      omega
    · cases Option.some.inj (onElement.symm.trans onAddress)
      obtain ⟨other, member, same⟩ := isLinked_iff.mp linked
      have distinct := List.nodup_cons.mp ((more.map HiPtr.address).nodup_iff.mp settled.unique)
      exact distinct.1 (List.mem_map.mpr ⟨other, member, same⟩)

theorem step_dangles {h h' : Heap fs} (op : Op α) (settled : Settled h none) (forbidden : ¬ RemovesUnwatched h op)
    (ran : step h op = some h') : ¬ NoneDangles h' := by
  cases op with
  | delete data =>
    obtain ⟨out, removed, rfl⟩ := Option.map_eq_some_iff.mp ran
    exact unlink_dangles settled removed forbidden
  | destroy data =>
    obtain ⟨out, removed, rfl⟩ := Option.map_eq_some_iff.mp ran
    exact unlink_dangles settled removed forbidden
  | _ => exact absurd trivial forbidden

theorem records_start : records (start fs).table = [] := by
  simp only [records, start, hashCreateTable, List.flatten_eq_nil_iff, List.mem_ofFn]
  rintro chain ⟨bucket, rfl⟩
  rfl

theorem start_settled : Settled (start fs) none := by
  refine ⟨by simp [records_start], by simp [records_start], ?_, ?_⟩
  · intro c address live; cases live
  · intro c live; cases live

end VoxiUtil.HashCursorRecords
