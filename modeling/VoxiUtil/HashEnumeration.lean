import VoxiUtil.HashCursorPointers

/-!
The enumeration of a whole hash table by a cursor, on every table that calls lead to. The
records come bucket after bucket; each step reads the cursors that share a record
with this one, some of which may be freed.
-/
namespace VoxiUtil.HashEnumeration
open VoxiUtil.Hash VoxiUtil.HashCursor VoxiUtil.HashCursorRecords VoxiUtil.HashTraversal VoxiUtil.HashCursorPointers
open VoxiUtil.HashCursorLists VoxiUtil.HashCursorRuns VoxiUtil.DoublyLinked VoxiUtil.Runs
open VoxiUtil.Limits (intMax)
variable {α : Type} {fs : Funcs α}

/-- The data of all records. -/
def elements (h : Heap fs) : List α := (records h.table).map HiPtr.data

/-- The loop from the cursor on ends, asserts nothing false, and yields `all`. -/
def Complete (all : List α) (h : Heap fs) (c : Nat) : Prop :=
  ∃ after, visit (fun element => [element]) (all.length + 1) h c = some (all, after)

/-- The same, after the cursor was put first. -/
def Restarts (all : List α) (h : Heap fs) (c : Nat) : Prop :=
  ∃ m, hashCursorGoFirst h c = some m ∧ Complete all m c

/-- The heap after that many steps of the cursor. -/
def advance : Nat → Heap fs → Nat → Option (Heap fs)
  | 0, h, _ => some h
  | k + 1, h, c => (hashCursorGoNext h c).bind (fun h => advance k h c)

/-- A new cursor yields every element once, and can start again wherever it has got to;
    so can every cursor that is there already. -/
structure Enumerates (h : Heap fs) : Prop where
  loop : ∃ m, hashCursorCreate h = some m ∧ Complete (elements h) m h.unused ∧
    ∀ k ≤ (elements h).length, ∃ n, advance k m h.unused = some n ∧ Restarts (elements h) n h.unused
  restart : ∀ c, h.live c = true → Restarts (elements h) h c

section
variable {h m : Heap fs} {c : Nat} {todo : List (HiPtr α)}

/-- From `h`, where it is in no list, the cursor is put on the first record of `todo`. -/
structure Put (h m : Heap fs) (c : Nat) (todo : List (HiPtr α)) : Prop where
  infoArray : m.table.infoArray = h.table.infoArray
  live : m.live = h.live
  place : Place m c todo
  fine : ∀ record, todo.head? = some record → Fine h (h.table.firstCursor record.address)
  others : ∀ address, (∀ record, todo.head? = some record → record.address ≠ address) →
    m.table.firstCursor address = h.table.firstCursor address

theorem records_same (same : m.table.infoArray = h.table.infoArray) : records m.table = records h.table := by
  rw [records, records, same]

theorem recordsFrom_same (same : m.table.infoArray = h.table.infoArray) (index : Nat) :
    recordsFrom m.table index = recordsFrom h.table index := by
  rw [recordsFrom, recordsFrom, same]

/-- A cursor that joins the list of a record is put on it. -/
private theorem put_add {bucket : Fin fs.size} {pre post : List (HiPtr α)} {record : HiPtr α}
    (chain : h.table.infoArray bucket = pre ++ record :: post) (index : h.hashIndex c = (bucket : Nat))
    (ran : addCursorToList (setElement h c (some record.address)) c = some m) :
    Put h m c (record :: (post ++ recordsFrom h.table (bucket + 1))) := by
  obtain ⟨address, onElement, _, firstFine⟩ := add_reads ran
  obtain ⟨address', onElement', _, added⟩ := added_of_add ran
  cases (setElement_element h c (some record.address)).symm.trans onElement
  cases (setElement_element h c (some record.address)).symm.trans onElement'
  have infoArray : m.table.infoArray = h.table.infoArray := added.infoArray
  refine ⟨infoArray, added.live, .inr ⟨bucket, pre, record, post, ?_, ?_, ?_, ?_⟩, ?_, ?_⟩
  · rw [infoArray, chain]
  · rw [added.element]
    exact setElement_element h c _
  · rw [added.hashIndex]
    exact index
  · rw [recordsFrom_same infoArray]
  · intro head headIs
    cases headIs
    exact firstFine
  · intro other differs
    rw [added.first, if_neg (differs record rfl).symm]
    rfl

private theorem put_move {index : Nat} (off : h.element c = none) (before : h.hashIndex c + 1 = index) (inside : index ≤ fs.size)
    (ran : moveCursorToNextIndex h c = some m) : Put h m c (recordsFrom h.table index) := by
  rcases move_records off before inside with ⟨empty, small, moved⟩ | ⟨bucket, record, rest, chain, todo, moved⟩ | ⟨stuck, _⟩
  · cases moved.symm.trans ran
    rw [empty]
    refine ⟨rfl, rfl, .inl ⟨rfl, setElement_element .., setHashIndex_hashIndex ..⟩, ?_, fun _ _ => rfl⟩
    intro record headIs
    cases headIs
  · rw [todo]
    obtain ⟨infoArray, live, place, fine, others⟩ := put_add (h := setHashIndex h c (bucket : Nat))
      (chain.trans (List.nil_append _).symm) (setHashIndex_hashIndex ..) (moved.symm.trans ran)
    exact ⟨infoArray, live, place, fine, others⟩
  · cases stuck.symm.trans ran

private theorem add_whole {bucket : Fin fs.size} {pre post : List (HiPtr α)} {record : HiPtr α} (whole : Whole h (some c))
    (live : h.live c = true) (chain : h.table.infoArray bucket = pre ++ record :: post) :
    ∃ m, addCursorToList (setElement h c (some record.address)) c = some m ∧ Whole m none := by
  have linked : isLinked h.table record.address = true := isLinked_iff.mpr ⟨record, mem_bucket chain, rfl⟩
  have onElement := setElement_element h c (some record.address)
  obtain ⟨m, ran, added⟩ := add_added onElement linked (whole.first record.address linked)
  exact ⟨m, ran, whole_added (whole_setElement whole _) live onElement linked added⟩

private theorem move_whole {index : Nat} (whole : Whole h (some c)) (live : h.live c = true) (off : h.element c = none)
    (before : h.hashIndex c + 1 = index) (inside : index ≤ fs.size) (small : fs.size ≤ intMax) :
    ∃ m, moveCursorToNextIndex h c = some m ∧ Whole m none := by
  rcases move_records off before inside with ⟨_, _, moved⟩ | ⟨bucket, record, rest, chain, _, moved⟩ | ⟨_, large⟩
  · have put := whole_setElement (whole_setHashIndex whole fs.size) none
    exact ⟨_, moved, whole_off put (setElement_element ..)⟩
  · obtain ⟨m, ran, kept⟩ := add_whole (whole_setHashIndex whole (bucket : Nat)) live (chain.trans (List.nil_append _).symm)
    exact ⟨m, moved.trans ran, kept⟩
  · exact absurd small (Nat.not_le_of_lt large)

/-- The two ways to the next record: along the chain, or to the buckets behind it. -/
private theorem goNext_place {record : HiPtr α} (unique : ((records h.table).map HiPtr.address).Nodup)
    (place : Place h c (record :: todo)) :
    h.element c = some record.address ∧ ∃ bucket : Fin fs.size, h.hashIndex c = (bucket : Nat) ∧
      ((todo = recordsFrom h.table (bucket + 1) ∧ hashCursorGoNext h c =
          (removeCursorFromList h c).bind (fun r => moveCursorToNextIndex (setElement r c none) c)) ∨
        ∃ pre next rest, h.table.infoArray bucket = pre ++ next :: rest ∧
          todo = next :: (rest ++ recordsFrom h.table (bucket + 1)) ∧ hashCursorGoNext h c =
            (removeCursorFromList h c).bind (fun r => addCursorToList (setElement r c (some next.address)) c)) := by
  rcases place with ⟨empty, _⟩ | ⟨bucket, pre, current, post, chain, onElement, index, same⟩
  · cases empty
  · obtain ⟨rfl, rfl⟩ := List.cons.inj same
    have onward := following_chain unique chain
    refine ⟨onElement, bucket, index, ?_⟩
    cases post with
    | nil => exact .inl ⟨List.nil_append _, by simp [hashCursorGoNext, onElement, onward]⟩
    | cons next rest =>
      refine .inr ⟨pre ++ [record], next, rest, by rw [chain]; simp, rfl, ?_⟩
      simp [hashCursorGoNext, onElement, onward]

theorem goNext_put {record : HiPtr α} (unique : ((records h.table).map HiPtr.address).Nodup)
    (place : Place h c (record :: todo)) (ran : hashCursorGoNext h c = some m) :
    h.element c = some record.address ∧ ∃ r, removeCursorFromList h c = some r ∧ Put r m c todo := by
  obtain ⟨onElement, bucket, index, ⟨rfl, goes⟩ | ⟨pre, next, rest, chain, rfl, goes⟩⟩ := goNext_place unique place
  · obtain ⟨r, removed, moved⟩ := Option.bind_eq_some_iff.mp (goes.symm.trans ran)
    have rewired := remove_rewired removed
    have before : (setElement r c none).hashIndex c + 1 = ((bucket + 1 : Nat) : Int) := by
      rw [setElement_hashIndex, rewired.hashIndex, index]
      rfl
    obtain ⟨infoArray, live, place, fine, others⟩ := put_move (setElement_element r c none) before bucket.isLt moved
    rw [setElement_table, recordsFrom_same rewired.infoArray] at place fine others
    exact ⟨onElement, r, removed, infoArray, live, place, fine, others⟩
  · obtain ⟨r, removed, added⟩ := Option.bind_eq_some_iff.mp (goes.symm.trans ran)
    have rewired := remove_rewired removed
    have put := put_add (by rw [rewired.infoArray, chain]) (by rw [rewired.hashIndex, index]) added
    rw [recordsFrom_same rewired.infoArray] at put
    exact ⟨onElement, r, removed, put⟩

theorem goNext_whole {record : HiPtr α} (unique : ((records h.table).map HiPtr.address).Nodup)
    (place : Place h c (record :: todo)) (whole : Whole h none) (live : h.live c = true) (small : fs.size ≤ intMax) :
    ∃ m, hashCursorGoNext h c = some m ∧ Whole m none := by
  obtain ⟨onElement, bucket, index, goes⟩ := goNext_place unique place
  obtain ⟨linked, prevFine, nextFine⟩ := whole.cursor c _ live (by simp) onElement
  obtain ⟨r, removal, removed⟩ := remove_removed onElement linked prevFine nextFine
  have left := whole_removed whole live onElement removed
  have stillLive : r.live c = true := by rw [removed.live]; exact live
  rcases goes with ⟨_, goes⟩ | ⟨pre, next, rest, chain, _, goes⟩
  · have before : (setElement r c none).hashIndex c + 1 = ((bucket + 1 : Nat) : Int) := by
      rw [setElement_hashIndex, removed.hashIndex, index]
      rfl
    obtain ⟨m, moved, kept⟩ := move_whole (whole_setElement left none) stillLive (setElement_element r c none) before
      bucket.isLt small
    exact ⟨m, by rw [goes, removal]; exact moved, kept⟩
  · obtain ⟨m, added, kept⟩ := add_whole left stillLive (by rw [removed.infoArray, chain])
    exact ⟨m, by rw [goes, removal]; exact added, kept⟩

/-- A cursor in a heap whose pointers are all fine, with the records that it has still to pass. -/
structure Ready (h : Heap fs) (c : Nat) (todo : List (HiPtr α)) : Prop where
  whole : Whole h none
  live : h.live c = true
  unique : ((records h.table).map HiPtr.address).Nodup
  place : Place h c todo

private theorem ready_put {r : Heap fs} (put : Put r m c todo) (whole : Whole m none) (live : r.live c = true)
    (same : r.table.infoArray = h.table.infoArray) (unique : ((records h.table).map HiPtr.address).Nodup) :
    Ready m c todo ∧ records m.table = records h.table := by
  have sameRecords : records m.table = records h.table := records_same (put.infoArray.trans same)
  refine ⟨⟨whole, by rw [put.live]; exact live, ?_, put.place⟩, sameRecords⟩
  rw [sameRecords]
  exact unique

theorem ready_goNext {record : HiPtr α} (ready : Ready h c (record :: todo)) (small : fs.size ≤ intMax) :
    ∃ m, hashCursorGoNext h c = some m ∧ Ready m c todo ∧ records m.table = records h.table := by
  obtain ⟨m, ran, whole⟩ := goNext_whole ready.unique ready.place ready.whole ready.live small
  obtain ⟨_, r, removed, put⟩ := goNext_put ready.unique ready.place ran
  have rewired := remove_rewired removed
  exact ⟨m, ran, ready_put put whole (by rw [rewired.live]; exact ready.live) rewired.infoArray ready.unique⟩

/-- From off the records, a cursor is put on the first one. -/
private theorem ready_first (whole : Whole h (some c)) (live : h.live c = true) (off : h.element c = none)
    (unique : ((records h.table).map HiPtr.address).Nodup) (small : fs.size ≤ intMax) :
    ∃ m, moveCursorToNextIndex (setHashIndex h c (-1)) c = some m ∧ Ready m c (records h.table) ∧
      records m.table = records h.table := by
  have before : (setHashIndex h c (-1)).hashIndex c + 1 = ((0 : Nat) : Int) := by
    rw [setHashIndex_hashIndex]
    rfl
  obtain ⟨m, ran, kept⟩ := move_whole (whole_setHashIndex whole (-1)) live off before (Nat.zero_le _) small
  have put := put_move (h := setHashIndex h c (-1)) off before (Nat.zero_le _) ran
  rw [recordsFrom_zero, setHashIndex_table] at put
  exact ⟨m, ran, ready_put put kept live rfl unique⟩

theorem ready_goFirst (whole : Whole h none) (live : h.live c = true) (unique : ((records h.table).map HiPtr.address).Nodup)
    (small : fs.size ≤ intMax) : ∃ m, hashCursorGoFirst h c = some m ∧ Ready m c (records h.table) ∧
      records m.table = records h.table := by
  cases onElement : h.element c with
  | none =>
    obtain ⟨m, ran, ready⟩ := ready_first (whole_leaves whole c) live onElement unique small
    exact ⟨m, by simpa [hashCursorGoFirst, onElement] using ran, ready⟩
  | some address =>
    obtain ⟨linked, prevFine, nextFine⟩ := whole.cursor c _ live (by simp) onElement
    obtain ⟨r, removal, removed⟩ := remove_removed onElement linked prevFine nextFine
    have left := whole_setElement (whole_removed whole live onElement removed) none
    have sameRecords : records (setElement r c none).table = records h.table := records_same removed.infoArray
    obtain ⟨m, ran, ready, kept⟩ := ready_first left (show r.live c = true by rw [removed.live]; exact live)
      (setElement_element r c none) (by rw [sameRecords]; exact unique) small
    rw [sameRecords] at ready kept
    exact ⟨m, by simpa [hashCursorGoFirst, onElement, removal] using ran, ready, kept⟩

/-- From where it stands, the loop yields what is still to pass. -/
theorem visit_ready {fuel : Nat} (ready : Ready h c todo) (small : fs.size ≤ intMax) (enough : todo.length < fuel) :
    ∃ after, visit (fun element => [element]) fuel h c = some (todo.map HiPtr.data, after) := by
  induction todo generalizing h fuel with
  | nil =>
    obtain ⟨fuel, rfl⟩ := Nat.exists_eq_succ_of_ne_zero (Nat.ne_of_gt enough)
    refine ⟨h, ?_⟩
    rw [visit, if_pos ((past_place ready.place).mpr rfl)]
    rfl
  | cons record todo ih =>
    obtain ⟨fuel, rfl⟩ := Nat.exists_eq_succ_of_ne_zero (Nat.ne_of_gt (Nat.lt_of_le_of_lt (Nat.zero_le _) enough))
    have more : ¬ hashCursorPastLastElement h c = true := by simp [past_place ready.place]
    obtain ⟨m, moved, there, _⟩ := ready_goNext ready small
    obtain ⟨after, visited⟩ := ih there (Nat.lt_of_succ_lt_succ enough)
    refine ⟨after, ?_⟩
    rw [visit, if_neg more, getElement_place ready.unique ready.place]
    simp [moved, visited]

theorem complete_ready (ready : Ready h c (records h.table)) (small : fs.size ≤ intMax) : Complete (elements h) h c :=
  visit_ready ready small (by simp [elements])

theorem restarts_whole (whole : Whole h none) (live : h.live c = true) (unique : ((records h.table).map HiPtr.address).Nodup)
    (small : fs.size ≤ intMax) : Restarts (elements h) h c := by
  obtain ⟨m, ran, ready, same⟩ := ready_goFirst whole live unique small
  have complete := complete_ready (same.symm ▸ ready) small
  rw [elements, same] at complete
  exact ⟨m, ran, complete⟩

/-- Wherever the cursor gets to, it can start again. -/
theorem advance_ready {k : Nat} (ready : Ready h c todo) (small : fs.size ≤ intMax) (within : k ≤ todo.length) :
    ∃ n, advance k h c = some n ∧ Ready n c (todo.drop k) ∧ records n.table = records h.table := by
  induction k generalizing h todo with
  | zero => exact ⟨h, rfl, ready, rfl⟩
  | succ k ih =>
    cases todo with
    | nil => cases within
    | cons record todo =>
      obtain ⟨m, moved, there, same⟩ := ready_goNext ready small
      obtain ⟨n, advanced, ready, kept⟩ := ih there (Nat.le_of_succ_le_succ within)
      exact ⟨n, by rw [advance, moved]; exact advanced, ready, kept.trans same⟩

/-- The heap with the block of a new cursor, which is on no record yet. -/
def created (h : Heap fs) : Heap fs :=
  { h with live := Function.update h.live h.unused true
           prevCursor := Function.update h.prevCursor h.unused none
           nextCursor := Function.update h.nextCursor h.unused none
           element := Function.update h.element h.unused none
           unused := h.unused + 1 }

private theorem created_live (live : h.live c = true) : (created h).live c = true := by
  by_cases same : c = h.unused
  · rw [same]
    exact Function.update_self ..
  · exact (Function.update_of_ne same ..).trans live

private theorem created_whole (whole : Whole h none) : Whole (created h) none := by
  have fine : ∀ pointer, Fine h pointer → Fine (created h) pointer := fun _ fine c same => created_live (fine c same)
  have off : (created h).element h.unused = none := Function.update_self ..
  refine ⟨fun address linked => fine _ (whole.first address linked), fun c address live _ onElement => ?_⟩
  have differs : c ≠ h.unused := by
    rintro rfl
    cases off.symm.trans onElement
  obtain ⟨linked, prevFine, nextFine⟩ := whole.cursor c address ((Function.update_of_ne differs ..).symm.trans live) (by simp)
    ((Function.update_of_ne differs ..).symm.trans onElement)
  refine ⟨linked, ?_, ?_⟩
  · rw [show (created h).prevCursor c = h.prevCursor c from Function.update_of_ne differs ..]
    exact fine _ prevFine
  · rw [show (created h).nextCursor c = h.nextCursor c from Function.update_of_ne differs ..]
    exact fine _ nextFine

theorem whole_enumerates (whole : Whole h none) (unique : ((records h.table).map HiPtr.address).Nodup)
    (small : fs.size ≤ intMax) : Enumerates h := by
  have fresh : (created h).live h.unused = true := Function.update_self ..
  obtain ⟨m, made, ready, same⟩ := ready_goFirst (created_whole whole) fresh unique small
  have same : records m.table = records h.table := same
  have all : elements m = elements h := by rw [elements, same, elements]
  refine ⟨⟨m, made, ?_, fun k within => ?_⟩, fun c live => restarts_whole whole live unique small⟩
  · rw [← all]
    exact complete_ready (same.symm ▸ ready) small
  · obtain ⟨n, advanced, there, kept⟩ := advance_ready (k := k) ready small (by rw [elements, List.length_map] at within; exact within)
    have restarts := restarts_whole there.whole there.live there.unique small
    rw [elements, kept, same] at restarts
    exact ⟨n, advanced, restarts⟩

/-- A cursor that is put on the first of the records and goes on to the others reads them all as they
    were before. -/
private theorem put_reads (put : Put h m c todo) (distinct : (todo.map HiPtr.address).Nodup)
    (ahead : ∀ record ∈ todo.tail, Fine m (m.table.firstCursor record.address)) :
    ∀ record ∈ todo, Fine h (h.table.firstCursor record.address) := by
  intro record member
  cases todo with
  | nil => cases member
  | cons first rest =>
    rcases List.mem_cons.mp member with rfl | later
    · exact put.fine record rfl
    · have read := ahead record later
      have differs : first.address ≠ record.address := fun same =>
        (List.nodup_cons.mp distinct).1 (same ▸ List.mem_map_of_mem later)
      rw [fine_live put.live, put.others record.address fun head headIs => by cases headIs; exact differs] at read
      exact read

/-- The loop reads the first cursor of each record that it goes on to. -/
theorem visit_reads {β : Type} {body : α → List β} {fuel : Nat} {out : List β × Heap fs}
    (unique : ((records h.table).map HiPtr.address).Nodup) (distinct : (todo.map HiPtr.address).Nodup)
    (place : Place h c todo) (ran : visit body fuel h c = some out) :
    ∀ record ∈ todo.tail, Fine h (h.table.firstCursor record.address) := by
  induction fuel generalizing h todo out with
  | zero => cases ran
  | succ fuel ih =>
    cases todo with
    | nil =>
      intro record member
      cases member
    | cons current todo =>
      have more : ¬ hashCursorPastLastElement h c = true := by simp [past_place place]
      rw [visit, if_neg more] at ran
      obtain ⟨_, _, ran⟩ := Option.bind_eq_some_iff.mp ran
      obtain ⟨m, moved, ran⟩ := Option.bind_eq_some_iff.mp ran
      obtain ⟨⟨output, after⟩, visited, _⟩ := Option.bind_eq_some_iff.mp ran
      obtain ⟨onElement, r, removal, put⟩ := goNext_put unique place moved
      obtain ⟨address, onAddress, removed⟩ := removed_of_remove removal
      cases onElement.symm.trans onAddress
      obtain ⟨apart, distinct⟩ := List.nodup_cons.mp distinct
      -- Leaving `current` changes the first cursor of no other record.
      have untouched : ∀ record ∈ todo, r.table.firstCursor record.address = h.table.firstCursor record.address := by
        intro record member
        rcases removed.first record.address with same | ⟨same, _⟩
        · exact same
        · exact absurd (same ▸ List.mem_map_of_mem member) apart
      have unique' : ((records m.table).map HiPtr.address).Nodup := by
        rw [records_same (put.infoArray.trans removed.infoArray)]
        exact unique
      intro record member
      have member : record ∈ todo := member
      rw [← untouched record member, ← fine_live removed.live]
      exact put_reads put distinct (ih unique' distinct put.place visited) record member

theorem enumerates_whole (tidy : Tidy h) (enumerates : Enumerates h) : Whole h none := by
  constructor
  · intro address linked
    obtain ⟨record, member, rfl⟩ := isLinked_iff.mp linked
    obtain ⟨m, made, ⟨after, visited⟩, _⟩ := enumerates.loop
    have off : (created h).element h.unused = none := Function.update_self ..
    have before : (setHashIndex (created h) h.unused (-1)).hashIndex h.unused + 1 = ((0 : Nat) : Int) := by
      rw [setHashIndex_hashIndex]
      rfl
    have put : Put (setHashIndex (created h) h.unused (-1)) m h.unused (records h.table) := by
      rcases goFirst_cases made with ⟨_, moved⟩ | ⟨r, removed, _⟩
      · exact put_move (h := setHashIndex (created h) h.unused (-1)) off before (Nat.zero_le _) moved
      · obtain ⟨_, onElement, _⟩ := remove_reads removed
        cases off.symm.trans onElement
    have older : ∀ pointer, (∀ c, pointer = some c → c < h.unused) → Fine (created h) pointer → Fine h pointer := by
      intro pointer given fine c same
      have differs : c ≠ h.unused := Nat.ne_of_lt (given c same)
      exact (Function.update_of_ne differs ..).symm.trans (fine c same)
    refine older _ (tidy.first record.address) ?_
    have sameRecords : records m.table = records h.table := records_same put.infoArray
    have ahead := visit_reads (by rw [sameRecords]; exact tidy.housed.unique) tidy.housed.unique put.place visited
    exact put_reads put tidy.housed.unique ahead record member
  · intro c address live _ onElement
    obtain ⟨m, ran, _⟩ := enumerates.restart c live
    rcases goFirst_cases ran with ⟨off, _⟩ | ⟨r, removed, _⟩
    · cases off.symm.trans onElement
    · obtain ⟨address', onElement', linked, fine⟩ := remove_reads removed
      cases onElement.symm.trans onElement'
      exact ⟨linked, fine⟩

/-- Intact cursor lists lead to live cursors only. -/
theorem whole_parked (parked : Parked h none) : Whole h none := by
  have inside : ∀ address, isLinked h.table address = true → Fine h (h.table.firstCursor address) ∧
      ∀ c, h.live c = true → h.element c = some address → Fine h (h.prevCursor c) ∧ Fine h (h.nextCursor c) := by
    intro address linked
    obtain ⟨cursors, chain, members⟩ := parked.lists address linked
    obtain ⟨first, around⟩ := linked_inside chain
    have listed : ∀ d ∈ cursors, h.live d = true := fun d member => ((members d).mp member).1
    refine ⟨fun d same => listed d (first d same), fun c live onElement => ?_⟩
    obtain ⟨back, forward⟩ := around c ((members c).mpr ⟨live, by simp, onElement⟩)
    exact ⟨fun d same => listed d (back d same), fun d same => listed d (forward d same)⟩
  refine ⟨fun address linked => (inside address linked).1, fun c address live _ onElement => ?_⟩
  have linked := (parked.onRecord c address live (by simp) onElement).1
  exact ⟨linked, (inside address linked).2 c live onElement⟩

end

/-- On a table that any calls have led to, a cursor enumerates the elements, from the start
    and again from wherever it is, exactly when no pointer of a record in the table or
    of a cursor leads to a freed block. It is so after all calls that take cursors from
    the ends of their lists only and delete no record with cursors. -/
theorem enumerates_iff {ops : List (Op α)} {h : Heap fs} (ran : run step (start fs) ops = some h) (small : fs.size ≤ intMax) :
    (Enumerates h ↔ Whole h none) ∧
    (Guarded step (fun m op => LeavesEnd m op ∧ DeletesListless m op) (start fs) ops → Enumerates h) := by
  have tidy := run_tidy ran
  have enough : Whole h none → Enumerates h := fun whole => whole_enumerates whole tidy.housed.unique small
  refine ⟨⟨enumerates_whole tidy, enough⟩, fun guarded => enough (whole_parked ?_)⟩
  exact guarded_run (fun m => Parked m none) (fun _ op _ parked permitted stepped => step_kept op parked permitted.1 permitted.2 stepped)
    start_parked guarded ran

theorem enumerates_iff_oneBucket : ∃ h : Heap oneBucket,
    run step (start oneBucket) [.add 7 true, .add 8 true, .cursorCreate] = some h ∧ (Enumerates h ↔ Whole h none) ∧
      (Guarded step (fun m op => LeavesEnd m op ∧ DeletesListless m op) (start oneBucket)
        [.add 7 true, .add 8 true, .cursorCreate] → Enumerates h) := by
  have ran : run step (start oneBucket) [.add 7 true, .add 8 true, .cursorCreate] = some _ := rfl
  exact ⟨_, ran, enumerates_iff ran (by decide)⟩

/-- Three cursors come to the record of 8. When the middle one is destroyed, the last one loses
    its way back, so that the first one stays the record's `firstCursor` after it is freed. -/
theorem enumeration_breaks : ∃ h : Heap oneBucket, run step (start oneBucket) [.add 7 true, .add 8 true, .cursorCreate,
      .cursorCreate, .cursorCreate, .cursorDestroy 3, .cursorGoNext 2, .cursorDestroy 4, .cursorDestroy 2] = some h ∧
    (∀ c < h.unused, h.live c = false) ∧ ¬ Enumerates h := by
  refine ⟨_, rfl, by decide, fun enumerates => ?_⟩
  obtain ⟨m, made, _⟩ := enumerates.loop
  cases made

end VoxiUtil.HashEnumeration
