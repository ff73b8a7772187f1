import VoxiUtil.HashCursorRuns

/-!
A traversal of a hash table by a cursor. While the table is not modified, the cursor
stands on the first of the records that are still to come, bucket after bucket.
-/
namespace VoxiUtil.HashTraversal
open VoxiUtil.Hash VoxiUtil.HashCursor VoxiUtil.HashCursorRecords VoxiUtil.HashCursorLists VoxiUtil.HashCursorRuns
open VoxiUtil.Limits (intMax)
variable {α β : Type} {fs : Funcs α}

/-- The loop over a table: until the cursor is past the last element, the body makes its
    output of the element, and the cursor goes on. -/
def visit (body : α → List β) : Nat → Heap fs → Nat → Option (List β × Heap fs)
  | 0, _, _ => none
  | fuel + 1, h, c =>
    if hashCursorPastLastElement h c then some ([], h)
    else do
      let element ← hashCursorGetElement h c
      let h ← hashCursorGoNext h c
      let (output, h) ← visit body fuel h c
      return (body element ++ output, h)

/-- The records from the bucket on. -/
def recordsFrom (ht : Hasht fs) (index : Nat) : List (HiPtr α) := ((List.ofFn ht.infoArray).drop index).flatten

/-- The cursor stands on the first of the records `todo`, or past the table. -/
def Place (h : Heap fs) (c : Nat) (todo : List (HiPtr α)) : Prop :=
  (todo = [] ∧ h.element c = none ∧ h.hashIndex c = fs.size) ∨
  ∃ bucket pre record post, h.table.infoArray bucket = pre ++ record :: post ∧ h.element c = some record.address ∧
    h.hashIndex c = (bucket : Nat) ∧ todo = record :: (post ++ recordsFrom h.table (bucket + 1))

/-- The cursor stands on the first of the records `todo`, in front of other cursors, or
    past the table. -/
structure On (h : Heap fs) (c : Nat) (todo : List (HiPtr α)) : Prop where
  parked : Parked h none
  live : h.live c = true
  position : (todo = [] ∧ h.element c = none ∧ h.hashIndex c = fs.size) ∨
    ∃ bucket pre record post, h.table.infoArray bucket = pre ++ record :: post ∧ h.element c = some record.address ∧
      h.hashIndex c = bucket ∧ h.prevCursor c = none ∧ todo = record :: (post ++ recordsFrom h.table (bucket + 1))

section
variable {h h' : Heap fs} {ht : Hasht fs} {c : Nat}

theorem recordsFrom_bucket (bucket : Fin fs.size) :
    recordsFrom ht bucket = ht.infoArray bucket ++ recordsFrom ht (bucket + 1) := by
  have inside : (bucket : Nat) < (List.ofFn ht.infoArray).length := by simp
  rw [recordsFrom, List.drop_eq_getElem_cons inside, List.flatten_cons, List.getElem_ofFn]
  rfl

theorem recordsFrom_end {index : Nat} (past : fs.size ≤ index) : recordsFrom ht index = [] := by
  rw [recordsFrom, List.drop_of_length_le (by simpa using past), List.flatten_nil]

theorem recordsFrom_zero : recordsFrom ht 0 = records ht := rfl

/-- The loop over empty buckets passes no record. -/
theorem skipEmpty_records (ht : Hasht fs) (fuel index : Nat) (inside : index ≤ fs.size) :
    skipEmpty ht fuel index ≤ fs.size ∧ recordsFrom ht (skipEmpty ht fuel index) = recordsFrom ht index := by
  induction fuel generalizing index with
  | zero => exact ⟨inside, rfl⟩
  | succ fuel ih =>
    rw [skipEmpty]
    by_cases within : index < fs.size
    · rw [dif_pos within]
      cases chain : ht.infoArray ⟨index, within⟩ with
      | nil =>
        obtain ⟨bound, same⟩ := ih (index + 1) within
        have here : recordsFrom ht index = _ := recordsFrom_bucket ⟨index, within⟩
        rw [chain, List.nil_append] at here
        exact ⟨bound, same.trans here.symm⟩
      | cons record rest => exact ⟨inside, rfl⟩
    · rw [dif_neg within]
      exact ⟨inside, rfl⟩

/-- A cursor that joins a list becomes its first one. -/
private theorem add_first {address : Nat} (parked : Parked h (some c)) (onElement : h.element c = some address)
    (ran : addCursorToList h c = some h') : h'.prevCursor c = none := by
  have linked : isLinked h.table address = true := by
    by_contra off
    simp [addCursorToList, onElement, off] at ran
  obtain ⟨cursors, chain, members⟩ := parked.lists address linked
  cases first : h.table.firstCursor address with
  | none =>
    have added : addCursorToList h c = some (setFirstCursor
        { h with nextCursor := Function.update h.nextCursor c none
                 prevCursor := Function.update h.prevCursor c none } address (some c)) := by
      simp [addCursorToList, onElement, linked, first]
    cases added.symm.trans ran
    exact Function.update_self ..
  | some n =>
    have headIs : h.table.firstCursor address = cursors.head? := by simpa using DoublyLinked.segment_head chain
    obtain ⟨nLive, nDiffers, _⟩ := (members n).mp (List.mem_of_mem_head? (headIs.symm.trans first))
    have differs : c ≠ n := fun same => nDiffers (congrArg some same.symm)
    have added : addCursorToList h c = some
        { setFirstCursor h address (some c) with
          nextCursor := Function.update h.nextCursor c (some n)
          prevCursor := Function.update (Function.update h.prevCursor c none) n (some c) } := by
      simp [addCursorToList, onElement, linked, first, setFirstCursor, nLive]
    cases added.symm.trans ran
    exact (Function.update_of_ne differs ..).trans (Function.update_self ..)

/-- A cursor in no list that is put on a record. -/
private theorem add_on {bucket : Fin fs.size} {pre post : List (HiPtr α)} {record : HiPtr α} (parked : Parked h (some c))
    (live : h.live c = true) (chain : h.table.infoArray bucket = pre ++ record :: post) (index : h.hashIndex c = bucket)
    (ran : addCursorToList (setElement h c (some record.address)) c = some h') (kept : Parked h' none) :
    On h' c (record :: (post ++ recordsFrom h.table (bucket + 1))) ∧ h'.table.infoArray = h.table.infoArray := by
  have rewired := add_rewired ran
  have first := add_first (away_setElement parked (some record.address)) (Function.update_self ..) ran
  have infoArray : h'.table.infoArray = h.table.infoArray := rewired.infoArray
  have onwards : recordsFrom h.table (bucket + 1) = recordsFrom h'.table (bucket + 1) := by
    rw [recordsFrom, recordsFrom, infoArray]
  refine ⟨⟨kept, by rw [rewired.live]; exact live, .inr ⟨bucket, pre, record, post, ?_, ?_, ?_, first, ?_⟩⟩, infoArray⟩
  · rw [infoArray, chain]
  · rw [rewired.element]
    exact Function.update_self ..
  · rw [rewired.hashIndex]
    exact index
  · rw [onwards]

/-- Where a cursor in no list moves on to from its bucket: past the table, on the first record
    that is left, or nowhere when an `int` cannot count the buckets. -/
theorem move_records {index : Nat} (off : h.element c = none) (before : h.hashIndex c + 1 = index) (inside : index ≤ fs.size) :
    (recordsFrom h.table index = [] ∧ fs.size ≤ intMax ∧
      moveCursorToNextIndex h c = some (setElement (setHashIndex h c fs.size) c none)) ∨
    (∃ (bucket : Fin fs.size) (record : HiPtr α) (rest : List (HiPtr α)), h.table.infoArray bucket = record :: rest ∧
      recordsFrom h.table index = record :: (rest ++ recordsFrom h.table (bucket + 1)) ∧
      moveCursorToNextIndex h c =
        addCursorToList (setElement (setHashIndex h c (bucket : Nat)) c (some record.address)) c) ∨
    moveCursorToNextIndex h c = none ∧ intMax < fs.size := by
  obtain ⟨bound, same⟩ := skipEmpty_records h.table fs.size index inside
  have start : (h.hashIndex c + 1).toNat = index := by rw [before]; rfl
  by_cases fits : skipEmpty h.table fs.size index ≤ intMax
  · by_cases within : skipEmpty h.table fs.size index < fs.size
    · have used := skipEmpty_stops h.table fs.size index (by omega) within
      obtain ⟨record, rest, chain⟩ := List.exists_cons_of_ne_nil used
      refine .inr (.inl ⟨⟨_, within⟩, record, rest, chain, ?_, ?_⟩)
      · have todo : recordsFrom h.table (skipEmpty h.table fs.size index) = _ := recordsFrom_bucket ⟨_, within⟩
        rw [← same, todo, chain, List.cons_append]
      · simp only [moveCursorToNextIndex, off, start, fits, within]
        simp only [setHashIndex_table, chain]
        rfl
    · have past : skipEmpty h.table fs.size index = fs.size := by omega
      refine .inl ⟨?_, by omega, ?_⟩
      · rw [← same, past, recordsFrom_end (Nat.le_refl _)]
      · rw [past] at fits
        simp [moveCursorToNextIndex, off, start, fits, past]
  · exact .inr (.inr ⟨by simp [moveCursorToNextIndex, off, start, fits], by omega⟩)

/-- A cursor in no list moves on to the records behind its bucket, if an `int` can count
    the buckets. -/
private theorem move_on {index : Nat} (parked : Parked h (some c)) (live : h.live c = true) (off : h.element c = none)
    (before : h.hashIndex c + 1 = index) (inside : index ≤ fs.size) :
    (∃ h', moveCursorToNextIndex h c = some h' ∧ On h' c (recordsFrom h.table index) ∧
      h'.table.infoArray = h.table.infoArray ∧ (recordsFrom h.table index = [] → fs.size ≤ intMax)) ∨
    moveCursorToNextIndex h c = none ∧ intMax < fs.size := by
  rcases move_records off before inside with ⟨empty, small, moved⟩ | ⟨bucket, record, rest, chain, todo, moved⟩ | stuck
  · have kept : Parked (setElement (setHashIndex h c fs.size) c none) none := by
      refine offRecord_back (away_setElement (away_setHashIndex parked _) none) (Function.update_self ..) fun _ => ?_
      rw [setElement_hashIndex, setHashIndex_hashIndex]
    refine .inl ⟨_, moved, ⟨kept, live, .inl ⟨empty, Function.update_self .., ?_⟩⟩, rfl, fun _ => small⟩
    rw [setElement_hashIndex, setHashIndex_hashIndex]
  · have away := away_setHashIndex parked (bucket : Nat)
    have indexIs : (setHashIndex h c (bucket : Nat)).hashIndex c = (bucket : Nat) := Function.update_self ..
    obtain ⟨h', added, kept⟩ := add_parked (away_setElement away (some record.address)) live (Function.update_self ..)
      (isLinked_iff.mpr ⟨record, mem_records.mpr ⟨bucket, by rw [setElement_table, setHashIndex_table, chain]; simp⟩, rfl⟩)
      (by rw [setElement_hashIndex, indexIs]; exact_mod_cast bucket.isLt)
    obtain ⟨on, infoArray⟩ := add_on away live (chain.trans (List.nil_append _).symm) indexIs added kept
    refine .inl ⟨h', moved.trans added, ?_, infoArray, fun empty => ?_⟩
    · rw [todo]
      exact on
    · rw [todo] at empty
      cases empty
  · exact .inr stuck

/-- Two linked records in one block are the same. -/
private theorem same_record (unique : ((records ht).map HiPtr.address).Nodup) {a b : HiPtr α} (first : a ∈ records ht)
    (second : b ∈ records ht) (same : a.address = b.address) : a = b :=
  List.inj_on_of_nodup_map unique first second same

theorem mem_bucket {bucket : Fin fs.size} {pre post : List (HiPtr α)} {record : HiPtr α}
    (chain : ht.infoArray bucket = pre ++ record :: post) : record ∈ records ht :=
  mem_records.mpr ⟨bucket, by rw [chain]; simp⟩

/-- The next record of a chain. -/
theorem following_chain {bucket : Fin fs.size} {pre post : List (HiPtr α)} {record : HiPtr α}
    (unique : ((records ht).map HiPtr.address).Nodup) (chain : ht.infoArray bucket = pre ++ record :: post) :
    following ht record.address = some post.head? := by
  have split : List.ofFn ht.infoArray =
      (List.ofFn ht.infoArray).take bucket ++ ht.infoArray bucket :: (List.ofFn ht.infoArray).drop (bucket + 1) := by
    have inside : (bucket : Nat) < (List.ofFn ht.infoArray).length := by simp
    rw [← List.getElem_ofFn inside, ← List.drop_eq_getElem_cons inside, List.take_append_drop]
  have flat : records ht = ((List.ofFn ht.infoArray).take bucket).flatten ++
      (pre ++ record :: (post ++ ((List.ofFn ht.infoArray).drop (bucket + 1)).flatten)) := by
    rw [records]
    nth_rewrite 1 [split]
    rw [List.flatten_append, List.flatten_cons, chain]
    simp
  rw [flat, List.map_append, List.map_append, List.map_cons] at unique
  have apart : ∀ other, other ∈ ((List.ofFn ht.infoArray).take bucket).flatten ∨ other ∈ pre →
      other.address ≠ record.address := by
    rintro other (member | member) same
    · refine (List.nodup_append.mp unique).2.2 _ (List.mem_map_of_mem member) record.address ?_ same
      simp
    · refine (List.nodup_append.mp (List.nodup_append.mp unique).2.1).2.2 _ (List.mem_map_of_mem member) record.address ?_ same
      simp
  have skips : ∀ chain ∈ (List.ofFn ht.infoArray).take bucket,
      chain.dropWhile (fun other => other.address != record.address) = [] := by
    intro chain member
    rw [List.dropWhile_eq_nil_iff]
    intro other inChain
    simpa using apart other (.inl (List.mem_flatten.mpr ⟨chain, member, inChain⟩))
  rw [following, split, List.findSome?_append,
    (List.findSome?_eq_none_iff (l := (List.ofFn ht.infoArray).take bucket)).mpr
      (fun chain member => by rw [skips chain member]),
    Option.none_or, List.findSome?_cons, chain,
    List.dropWhile_append_of_pos (fun other member => by simpa using apart other (.inr member)),
    List.dropWhile_cons_of_neg (by simp)]

theorem place_of_on {todo : List (HiPtr α)} (on : On h c todo) : Place h c todo := by
  rcases on.position with past | ⟨bucket, pre, record, post, chain, onElement, index, _, same⟩
  · exact .inl past
  · exact .inr ⟨bucket, pre, record, post, chain, onElement, index, same⟩

theorem past_place {todo : List (HiPtr α)} (place : Place h c todo) : hashCursorPastLastElement h c = true ↔ todo = [] := by
  rw [hashCursorPastLastElement, decide_eq_true_eq]
  rcases place with ⟨empty, _, index⟩ | ⟨bucket, _, _, _, _, _, index, rfl⟩
  · rw [index]
    exact iff_of_true (Int.le_refl _) empty
  · rw [index]
    exact iff_of_false (by omega) (by simp)

theorem past_iff {todo : List (HiPtr α)} (on : On h c todo) : hashCursorPastLastElement h c = true ↔ todo = [] :=
  past_place (place_of_on on)

/-- The element of a cursor on a linked record. -/
theorem getElement_record (unique : ((records h.table).map HiPtr.address).Nodup) {record : HiPtr α}
    (member : record ∈ records h.table) (onElement : h.element c = some record.address) :
    hashCursorGetElement h c = some record.data := by
  have found : (records h.table).find? (fun other => other.address == record.address) = some record := by
    cases search : (records h.table).find? (fun other => other.address == record.address) with
    | none =>
      have differs := List.find?_eq_none.mp search record member
      simp at differs
    | some other =>
      have address : other.address = record.address := by simpa using List.find?_some search
      rw [same_record unique (List.mem_of_find?_eq_some search) member address]
  simp [hashCursorGetElement, onElement, found]

theorem getElement_place {todo : List (HiPtr α)} {record : HiPtr α}
    (unique : ((records h.table).map HiPtr.address).Nodup) (place : Place h c (record :: todo)) :
    hashCursorGetElement h c = some record.data := by
  rcases place with ⟨empty, _⟩ | ⟨bucket, pre, current, post, chain, onElement, _, same⟩
  · cases empty
  · obtain ⟨rfl, _⟩ := List.cons.inj same
    exact getElement_record unique (mem_bucket chain) onElement

theorem getElement_on {todo : List (HiPtr α)} {record : HiPtr α} (on : On h c (record :: todo)) :
    hashCursorGetElement h c = some record.data := getElement_place on.parked.unique (place_of_on on)

/-- The cursor goes on to the next record. -/
theorem goNext_on {todo : List (HiPtr α)} {record : HiPtr α} (on : On h c (record :: todo)) :
    (∃ h', hashCursorGoNext h c = some h' ∧ On h' c todo ∧ h'.table.infoArray = h.table.infoArray ∧
      (todo = [] → fs.size ≤ intMax)) ∨ hashCursorGoNext h c = none ∧ intMax < fs.size := by
  rcases on.position with ⟨empty, _⟩ | ⟨bucket, pre, current, post, chain, onElement, index, first, same⟩
  · cases empty
  · obtain ⟨rfl, rfl⟩ := List.cons.inj same
    obtain ⟨m, removed, surgery, away⟩ := remove_parked on.parked on.live onElement (.inl first)
    have live : m.live c = true := by rw [surgery.live, on.live]
    have onward := following_chain on.parked.unique chain
    have sameRecords : ∀ index, recordsFrom m.table index = recordsFrom h.table index := by
      intro index
      rw [recordsFrom, recordsFrom, surgery.infoArray]
    cases post with
    | nil =>
      rw [List.nil_append]
      have moves : hashCursorGoNext h c = moveCursorToNextIndex (setElement m c none) c := by
        simp [hashCursorGoNext, onElement, onward, removed]
      rw [moves, ← sameRecords, ← surgery.infoArray]
      have indexIs : (setElement m c none).hashIndex c + 1 = ((bucket + 1 : Nat) : Int) := by
        rw [setElement_hashIndex, surgery.hashIndex, index]
        rfl
      refine move_on (away_setElement away none) live (Function.update_self ..) indexIs bucket.isLt
    | cons next rest =>
      left
      have moves : hashCursorGoNext h c = addCursorToList (setElement m c (some next.address)) c := by
        simp [hashCursorGoNext, onElement, onward, removed]
      have chain' : m.table.infoArray bucket = (pre ++ [record]) ++ next :: rest := by
        rw [surgery.infoArray, chain]
        simp
      have indexIs : m.hashIndex c = bucket := by rw [surgery.hashIndex, index]
      obtain ⟨h', added, kept⟩ := add_parked (away_setElement away (some next.address)) live (Function.update_self ..)
        (isLinked_iff.mpr ⟨next, mem_bucket chain', rfl⟩) (by rw [setElement_hashIndex, indexIs]; exact_mod_cast bucket.isLt)
      obtain ⟨there, infoArray⟩ := add_on away live chain' indexIs added kept
      rw [sameRecords] at there
      exact ⟨h', moves.trans added, there, infoArray.trans surgery.infoArray,
        fun empty => absurd empty (List.cons_ne_nil _ _)⟩

/-- A new cursor stands on the first record. -/
theorem create_on (parked : Parked h none) :
    (∃ h', hashCursorCreate h = some h' ∧ On h' h.unused (records h.table) ∧ h'.table.infoArray = h.table.infoArray ∧
      (records h.table = [] → fs.size ≤ intMax)) ∨ hashCursorCreate h = none ∧ intMax < fs.size := by
  have away := away_setHashIndex (created_kept parked) (-1)
  rw [← recordsFrom_zero]
  rcases move_on away (Function.update_self ..) (Function.update_self ..)
    (show _ = ((0 : Nat) : Int) by rw [setHashIndex_hashIndex]; rfl) (Nat.zero_le _) with ⟨h', moved, on, same, small⟩ | ⟨stuck, large⟩
  · exact .inl ⟨h', by simpa [hashCursorCreate, hashCursorGoFirst] using moved, on, same, small⟩
  · exact .inr ⟨by simpa [hashCursorCreate, hashCursorGoFirst] using stuck, large⟩

/-- A cursor past the table is destroyed. -/
theorem destroy_on (on : On h c []) : hashCursorDestroy h c = some { h with live := Function.update h.live c false } := by
  rcases on.position with ⟨_, off, _⟩ | ⟨_, _, _, _, _, _, _, _, same⟩
  · simp [hashCursorDestroy, off]
  · cases same

/-- The loop makes the output of all records that are still to come, if an `int` can
    count the buckets. -/
theorem visit_on (body : α → List β) {todo : List (HiPtr α)} {fuel : Nat} (on : On h c todo) (enough : todo.length < fuel) :
    (∃ h', visit body fuel h c = some (todo.flatMap (fun record => body record.data), h') ∧ On h' c [] ∧
      h'.table.infoArray = h.table.infoArray ∧ (todo ≠ [] → fs.size ≤ intMax)) ∨
    visit body fuel h c = none ∧ intMax < fs.size := by
  induction todo generalizing h fuel with
  | nil =>
    obtain ⟨fuel, rfl⟩ := Nat.exists_eq_succ_of_ne_zero (Nat.ne_of_gt enough)
    refine .inl ⟨h, ?_, on, rfl, fun nonempty => absurd rfl nonempty⟩
    rw [visit, if_pos ((past_iff on).mpr rfl)]
    rfl
  | cons record todo ih =>
    obtain ⟨fuel, rfl⟩ := Nat.exists_eq_succ_of_ne_zero (Nat.ne_of_gt (Nat.lt_of_le_of_lt (Nat.zero_le _) enough))
    have more : ¬ hashCursorPastLastElement h c = true := by simp [past_iff on]
    have shorter : todo.length < fuel := Nat.lt_of_succ_lt_succ enough
    rw [visit, if_neg more, getElement_on on]
    rcases goNext_on on with ⟨m, moved, there, same, last⟩ | ⟨stuck, large⟩
    · rcases ih there shorter with ⟨h', visited, past, kept, small⟩ | ⟨stuck, large⟩
      · refine .inl ⟨h', ?_, past, kept.trans same, fun _ => ?_⟩
        · simp [moved, visited]
        · by_cases empty : todo = []
          · exact last empty
          · exact small empty
      · exact .inr ⟨by simp [moved, stuck], large⟩
    · exact .inr ⟨by simp [stuck], large⟩

end

end VoxiUtil.HashTraversal
