import VoxiUtil.HashCursorLists

/-!
The operations of `hash.c` on the invariant of the cursor lists, and runs of
them. A cursor that leaves its list between two others, and a record that
`HashDelete` frees under a cursor, are the two ways out of the invariant.
-/
namespace VoxiUtil.HashCursorRuns
open VoxiUtil.Hash VoxiUtil.HashCursor VoxiUtil.HashCursorRecords VoxiUtil.HashCursorLists
open VoxiUtil.DoublyLinked VoxiUtil.Runs
variable {α : Type} {fs : Funcs α}

/-- The lists over another table, on which the old records keep their list and a
    new record has none. -/
private theorem parked_table {h : Heap fs} {ht : Hasht fs} {unused : Nat} (parked : Parked h none)
    (settled : Settled { h with table := ht, unused := unused } none) (later : h.unused ≤ unused)
    (firsts : ∀ address, isLinked ht address = true →
      isLinked h.table address = true ∧ ht.firstCursor address = h.table.firstCursor address ∨
      ht.firstCursor address = none ∧ ∀ c, h.live c = true → h.element c ≠ some address) :
    Parked { h with table := ht, unused := unused } none := by
  refine ⟨settled, fun c live => Nat.lt_of_lt_of_le (parked.cursorOld c live) later, fun address linked => ?_⟩
  rcases firsts address linked with ⟨before, same⟩ | ⟨empty, unwatched⟩
  · change ∃ cursors, Linked _ _ (ht.firstCursor address) cursors ∧ _
    rw [same]
    exact parked.lists address before
  · refine ⟨[], empty, fun c => ?_⟩
    simp only [List.not_mem_nil, false_iff]
    rintro ⟨live, _, onElement⟩
    exact unwatched c live onElement

private theorem add_kept {h : Heap fs} (parked : Parked h none) (data : α) (newInfo : Option Nat)
    (fresh : newInfo = none ∨ newInfo = some h.unused) :
    Parked { h with table := (hashAdd h.table data newInfo).1, unused := h.unused + 1 } none := by
  refine parked_table parked (settled_add parked.toSettled data newInfo fresh) (Nat.le_succ _) ?_
  intro address linked
  cases absent : findInfo h.table data (hashval fs data) with
  | some found =>
    simp only [hashAdd, absent] at linked ⊢
    exact .inl ⟨linked, trivial⟩
  | none =>
    rcases fresh with rfl | rfl
    · simp only [hashAdd, absent] at linked ⊢
      exact .inl ⟨linked, trivial⟩
    · have more := records_added h.unused absent
      rcases (isLinked_perm more address).mp linked with rfl | before
      · right
        refine ⟨by simp [hashAdd, absent], fun c live onElement => ?_⟩
        exact unused_unlinked parked.toSettled (parked.onRecord c _ live (by simp) onElement).1
      · refine .inl ⟨before, ?_⟩
        have differs : address ≠ h.unused := by rintro rfl; exact unused_unlinked parked.toSettled before
        simp [hashAdd, absent, Function.update_of_ne differs]

private theorem unwatched_of_firstCursor {h : Heap fs} (parked : Parked h none) {record : HiPtr α}
    (member : record ∈ records h.table) (empty : h.table.firstCursor record.address = none) : Unwatched h record := by
  obtain ⟨cursors, chain, members⟩ := parked.lists record.address (isLinked_iff.mpr ⟨record, member, rfl⟩)
  have none : cursors = [] := by
    have head := segment_head chain
    rw [empty] at head
    exact List.head?_eq_none_iff.mp (by simpa using head.symm)
  intro c live onElement
  have listed := (members c).mpr ⟨live, by simp, onElement⟩
  simp [none] at listed

/-- A removal keeps the invariant when its record has an empty cursor list. -/
private theorem unlink_kept {h : Heap fs} {release : HiPtr α → Option (List α)} {data : α}
    {out : Hasht fs × Int × List α} (parked : Parked h none) (ran : unlink release h.table data = some out)
    (listless : ∀ record destroyed, matching h.table data = some record → release record = some destroyed →
      h.table.firstCursor record.address = none) : Parked { h with table := out.1 } none := by
  rcases unlink_cases ran with ⟨_, rfl⟩ | ⟨pre, toTrash, post, destroyed, found, chain, released, rfl⟩
  · exact parked
  · have more := records_unlinked chain
    have member : toTrash ∈ records h.table := more.mem_iff.mpr (by simp)
    have unwatched := unwatched_of_firstCursor parked member (listless toTrash destroyed found released)
    refine parked_table parked (settled_unlinked parked.toSettled chain unwatched) (Nat.le_refl _) ?_
    exact fun address linked => .inl ⟨(isLinked_perm more address).mpr (.inr linked), rfl⟩

/-- Off its list, a cursor is put before the first bucket and moved on from there. -/
private theorem moved_kept {h h' : Heap fs} {c : Nat} (index : Int) (away : Parked h (some c))
    (live : h.live c = true) (off : h.element c = none)
    (ran : moveCursorToNextIndex (setHashIndex h c index) c = some h') : Parked h' none := by
  rcases move_parked (away_setHashIndex away index) live off with ⟨m, result, kept⟩ | ⟨stuck, _⟩
  · rw [result] at ran; cases ran; exact kept
  · rw [stuck] at ran; cases ran

private theorem goFirst_kept {h h' : Heap fs} {c : Nat} (parked : Parked h none) (live : h.live c = true)
    (atEnd : h.element c ≠ none → h.prevCursor c = none ∨ h.nextCursor c = none)
    (ran : hashCursorGoFirst h c = some h') : Parked h' none := by
  cases onElement : h.element c with
  | none =>
    have moved : moveCursorToNextIndex (setHashIndex h c (-1)) c = some h' := by
      simpa [hashCursorGoFirst, onElement] using ran
    exact moved_kept (-1) (offRecord_away parked onElement) live onElement moved
  | some address =>
    obtain ⟨m, removed, surgery, away⟩ := remove_parked parked live onElement (atEnd (by simp [onElement]))
    have mLive : m.live c = true := by rw [surgery.live, live]
    refine moved_kept (-1) (away_setElement away none) mLive (Function.update_self _ _ _) ?_
    simpa [hashCursorGoFirst, onElement, removed] using ran

/-- A cursor that just got its block is in no list. -/
theorem created_kept {h : Heap fs} (parked : Parked h none) :
    Parked { h with live := Function.update h.live h.unused true
                    prevCursor := Function.update h.prevCursor h.unused none
                    nextCursor := Function.update h.nextCursor h.unused none
                    element := Function.update h.element h.unused none
                    unused := h.unused + 1 } (some h.unused) := by
  have older : ∀ c, h.live c = true → c ≠ h.unused := fun c live same => by
    have := parked.cursorOld c live; omega
  refine ⟨settled_created parked.toSettled, ?_, ?_⟩
  · intro c live
    by_cases same : c = h.unused
    · subst same; exact Nat.lt_succ_self _
    · exact Nat.lt_succ_of_lt (parked.cursorOld c (by simpa [Function.update_of_ne same] using live))
  · intro address linked
    obtain ⟨cursors, chain, members⟩ := parked.lists address linked
    have listed : ∀ c ∈ cursors, c ≠ h.unused := fun c member => older c ((members c).mp member).1
    refine ⟨cursors, linked_frame (fun c member => Function.update_of_ne (listed c member) _ _)
      (fun c member => Function.update_of_ne (listed c member) _ _) chain, fun c => ?_⟩
    rw [members c]
    by_cases same : c = h.unused
    · have dead : h.live c ≠ true := fun live => older c live same
      simp [same] at dead ⊢
      simp [dead]
    · simp [same]

private theorem create_kept {h h' : Heap fs} (parked : Parked h none) (ran : hashCursorCreate h = some h') :
    Parked h' none :=
  moved_kept (-1) (created_kept parked) (Function.update_self _ _ _) (Function.update_self _ _ _)
    (by simpa [hashCursorCreate, hashCursorGoFirst] using ran)

private theorem goNext_kept {h h' : Heap fs} {c : Nat} (parked : Parked h none) (live : h.live c = true)
    (atEnd : h.element c ≠ none → h.prevCursor c = none ∨ h.nextCursor c = none)
    (ran : hashCursorGoNext h c = some h') : Parked h' none := by
  cases onElement : h.element c with
  | none => simp [hashCursorGoNext, onElement] at ran
  | some address =>
    obtain ⟨m, removed, surgery, away⟩ := remove_parked parked live onElement (atEnd (by simp [onElement]))
    have mLive : m.live c = true := by rw [surgery.live, live]
    cases next : following h.table address with
    | none => simp [hashCursorGoNext, onElement, next] at ran
    | some following =>
      cases following with
      | none =>
        have ran : moveCursorToNextIndex (setElement m c none) c = some h' := by
          simpa [hashCursorGoNext, onElement, next, removed] using ran
        obtain ⟨m', result, kept⟩ | ⟨stuck, _⟩ := move_parked (away_setElement away none) mLive (Function.update_self _ _ _)
        · rw [result] at ran; cases ran; exact kept
        · rw [stuck] at ran; cases ran
      | some record =>
        have ran : addCursorToList (setElement m c (some record.address)) c = some h' := by
          simpa [hashCursorGoNext, onElement, next, removed] using ran
        obtain ⟨m', result, kept⟩ := add_parked (away_setElement away (some record.address)) mLive (Function.update_self _ _ _)
          ((isLinked_congr surgery.infoArray _).trans (following_linked next))
          (by
            change m.hashIndex c < _
            rw [surgery.hashIndex]
            exact (parked.onRecord c address live (by simp) onElement).2)
        rw [result] at ran; cases ran; exact kept

/-- A cursor in no list can be freed. -/
private theorem freed_kept {h : Heap fs} {c : Nat} (away : Parked h (some c)) :
    Parked { h with live := Function.update h.live c false } none := by
  have stays : ∀ d, Function.update h.live c false d = true → h.live d = true ∧ some d ≠ some c := by
    intro d live
    have differs : d ≠ c := by rintro rfl; simp at live
    exact ⟨by simpa [Function.update_of_ne differs] using live, by simpa using differs⟩
  refine ⟨settled_freed away.toSettled, fun d live => away.cursorOld d (stays d live).1, fun address linked => ?_⟩
  obtain ⟨cursors, chain, members⟩ := away.lists address linked
  refine ⟨cursors, chain, fun d => (members d).trans ?_⟩
  constructor
  · rintro ⟨live, differs, onElement⟩
    have apart : d ≠ c := by simpa using differs
    exact ⟨by simpa [Function.update_of_ne apart] using live, by simp, onElement⟩
  · rintro ⟨live, _, onElement⟩
    exact ⟨(stays d live).1, (stays d live).2, onElement⟩

private theorem destroy_kept {h h' : Heap fs} {c : Nat} (parked : Parked h none) (live : h.live c = true)
    (atEnd : h.element c ≠ none → h.prevCursor c = none ∨ h.nextCursor c = none)
    (ran : hashCursorDestroy h c = some h') : Parked h' none := by
  cases onElement : h.element c with
  | none =>
    have freed : some { h with live := Function.update h.live c false } = some h' := by
      simpa [hashCursorDestroy, onElement] using ran
    cases freed
    exact freed_kept (offRecord_away parked onElement)
  | some address =>
    obtain ⟨m, removed, _, away⟩ := remove_parked parked live onElement (atEnd (by simp [onElement]))
    have freed : some { m with live := Function.update m.live c false } = some h' := by
      simpa [hashCursorDestroy, onElement, removed] using ran
    cases freed
    exact freed_kept away

/-- No operation takes a cursor from between two others of its list. -/
def LeavesEnd (h : Heap fs) : Op α → Prop
  | .cursorGoFirst c | .cursorGoNext c | .cursorDestroy c =>
    h.element c ≠ none → h.prevCursor c = none ∨ h.nextCursor c = none
  | _ => True

/-- `HashDelete` finds its record with an empty cursor list, as `HashDestroy` asserts. -/
def DeletesListless (h : Heap fs) : Op α → Prop
  | .delete data => ∀ record, matching h.table data = some record → h.table.firstCursor record.address = none
  | _ => True

/-- Each operation of `hash.c` keeps the invariant, if it takes a cursor from an
    end of its list and deletes no record with cursors. -/
theorem step_kept {h h' : Heap fs} (op : Op α) (parked : Parked h none) (atEnd : LeavesEnd h op)
    (listless : DeletesListless h op) (ran : step h op = some h') : Parked h' none := by
  cases op with
  | add data allocated =>
    cases ran
    exact add_kept parked data _ (by cases allocated <;> simp)
  | delete data =>
    obtain ⟨out, removed, rfl⟩ := Option.map_eq_some_iff.mp ran
    exact unlink_kept parked removed (fun record _ found _ => listless record found)
  | destroy data =>
    obtain ⟨out, removed, rfl⟩ := Option.map_eq_some_iff.mp ran
    refine unlink_kept parked removed (fun record destroyed _ released => ?_)
    -- `DestroyInfo` asserts it.
    by_contra listed
    simp [destroyInfo, listed] at released
  | cursorCreate => exact create_kept parked ran
  | cursorGoFirst c =>
    cases live : h.live c with
    | false => simp [step, live] at ran
    | true => exact goFirst_kept parked live atEnd (by simpa [step, live] using ran)
  | cursorGoNext c =>
    cases live : h.live c with
    | false => simp [step, live] at ran
    | true => exact goNext_kept parked live atEnd (by simpa [step, live] using ran)
  | cursorDestroy c =>
    cases live : h.live c with
    | false => simp [step, live] at ran
    | true => exact destroy_kept parked live atEnd (by simpa [step, live] using ran)

theorem start_parked : Parked (start fs) none := by
  refine ⟨start_settled, ?_, ?_⟩
  · intro c live; cases live
  · intro address linked; simp [isLinked, records_start] at linked

/-- The cursor `p` is followed by `n`, which does not point back. -/
def Torn (h : Heap fs) (p n : Nat) : Prop :=
  h.live p = true ∧ (∃ address, h.element p = some address ∧ isLinked h.table address = true) ∧
    h.nextCursor p = some n ∧ h.prevCursor n ≠ some p

theorem torn_lists {h : Heap fs} {p n : Nat} (torn : Torn h p n) : ¬ ListsIntact h := by
  obtain ⟨live, ⟨address, onElement, linked⟩, forward, back⟩ := torn
  intro intact
  obtain ⟨cursors, chain, _, members⟩ := intact address linked
  obtain ⟨pre, post, rfl⟩ := List.append_of_mem ((members p).mpr ⟨live, onElement⟩)
  obtain ⟨_, _, right⟩ := linked_middle.mp chain
  rw [forward] at right
  cases post with
  | nil => cases right
  | cons next rest => cases right.1; exact back right.2.1

/-- Taking a cursor from between two others tears the list. -/
private theorem remove_torn {h m : Heap fs} {c p n : Nat} (parked : Parked h none) (live : h.live c = true)
    (onRecord : h.element c ≠ none) (prevIs : h.prevCursor c = some p) (nextIs : h.nextCursor c = some n)
    (ran : removeCursorFromList h c = some m) : Torn m p n ∧ p ≠ c := by
  obtain ⟨address, onElement⟩ := Option.ne_none_iff_exists'.mp onRecord
  have linked := (parked.onRecord c address live (by simp) onElement).1
  obtain ⟨cursors, chain, members⟩ := parked.lists address linked
  obtain ⟨pre, post, rfl⟩ := List.append_of_mem ((members c).mpr ⟨live, by simp, onElement⟩)
  obtain ⟨left, back, right⟩ := linked_middle.mp chain
  have pListed : p ∈ pre := List.mem_of_getLast? (back.symm.trans prevIs)
  have nListed : n ∈ post := by
    have forward : h.nextCursor c = post.head? := by simpa using segment_head right
    exact List.mem_of_mem_head? (forward.symm.trans nextIs)
  have distinct := linked_nodup chain
  have pDiffers : p ≠ c := by
    rintro rfl
    exact (List.nodup_append.mp distinct).2.2 _ pListed _ (by simp) rfl
  obtain ⟨pLive, _, pOn⟩ := (members p).mp (by simp [pListed])
  obtain ⟨nLive, _, _⟩ := (members n).mp (by simp [nListed])
  have result : removeCursorFromList h c = some
      { h with nextCursor := Function.update (Function.update h.nextCursor p (some n)) c none
               prevCursor := Function.update (Function.update h.prevCursor c none) n none } := by
    simp [removeCursorFromList, onElement, linked, prevIs, nextIs, pLive, nLive, Function.update_of_ne pDiffers.symm]
  rw [result] at ran
  cases ran
  refine ⟨⟨pLive, ⟨address, pOn, linked⟩, ?_, by simp⟩, pDiffers⟩
  exact (Function.update_of_ne pDiffers _ _).trans (Function.update_self _ _ _)

private theorem add_torn {h h' : Heap fs} {c p n : Nat} (torn : Torn h p n) (differs : p ≠ c)
    (ran : addCursorToList h c = some h') : Torn h' p n := by
  obtain ⟨live, ⟨address, onElement, linked⟩, forward, back⟩ := torn
  have rewired := add_rewired ran
  refine ⟨rewired.live ▸ live, ⟨address, rewired.element ▸ onElement, (isLinked_congr rewired.infoArray _).trans linked⟩, ?_⟩
  have backKept : Function.update h.prevCursor c none n ≠ some p := by
    by_cases same : n = c
    · rw [same, Function.update_self]; simp
    · rwa [Function.update_of_ne same]
  simp only [addCursorToList, Option.bind_eq_bind, Option.bind_eq_some_iff] at ran
  obtain ⟨_, _, _, _, ran⟩ := ran
  split at ran
  · rename_i first _
    split at ran
    · cases ran
      refine ⟨(Function.update_of_ne differs _ _).trans forward, ?_⟩
      change Function.update (Function.update h.prevCursor c none) first (some c) n ≠ some p
      by_cases same : n = first
      · rw [same, Function.update_self]
        exact fun equal => differs (Option.some.inj equal).symm
      · rwa [Function.update_of_ne same]
    · cases ran
  · cases ran
    exact ⟨(Function.update_of_ne differs _ _).trans forward, backKept⟩

private theorem torn_setElement {h : Heap fs} {c p n : Nat} (torn : Torn h p n) (differs : p ≠ c)
    (address : Option Nat) : Torn (setElement h c address) p n := by
  obtain ⟨live, ⟨own, onElement, linked⟩, pointers⟩ := torn
  exact ⟨live, ⟨own, (Function.update_of_ne differs _ _).trans onElement, linked⟩, pointers⟩

private theorem move_torn {h h' : Heap fs} {c p n : Nat} (torn : Torn h p n) (differs : p ≠ c)
    (ran : moveCursorToNextIndex h c = some h') : Torn h' p n := by
  simp only [moveCursorToNextIndex, Option.bind_eq_bind, Option.bind_eq_some_iff] at ran
  obtain ⟨_, _, _, _, ran⟩ := ran
  have moved : Torn (setHashIndex h c (skipEmpty h.table fs.size (h.hashIndex c + 1).toNat)) p n := torn
  split at ran
  · split at ran
    · cases ran
    · exact add_torn (torn_setElement moved differs _) differs ran
  · cases ran
    exact torn_setElement moved differs none

/-- An operation that takes a cursor from between two others leaves a broken list. -/
theorem step_torn {h h' : Heap fs} (op : Op α) (parked : Parked h none) (middle : ¬ LeavesEnd h op)
    (ran : step h op = some h') : ¬ ListsIntact h' := by
  have between : ∀ c, ¬ (h.element c ≠ none → h.prevCursor c = none ∨ h.nextCursor c = none) →
      h.element c ≠ none ∧ ∃ p n, h.prevCursor c = some p ∧ h.nextCursor c = some n := by
    intro c inner
    simp only [Classical.not_imp, not_or] at inner
    obtain ⟨onRecord, prev, next⟩ := inner
    obtain ⟨p, prevIs⟩ := Option.ne_none_iff_exists'.mp prev
    obtain ⟨n, nextIs⟩ := Option.ne_none_iff_exists'.mp next
    exact ⟨onRecord, p, n, prevIs, nextIs⟩
  cases op with
  | cursorGoFirst c =>
    cases live : h.live c with
    | false => simp [step, live] at ran
    | true =>
      obtain ⟨onRecord, p, n, prevIs, nextIs⟩ := between c middle
      simp only [step, live, ↓reduceIte, hashCursorGoFirst, Option.isSome_iff_ne_none, onRecord, ne_eq, not_false_eq_true,
        Option.bind_eq_bind, Option.bind_eq_some_iff, Option.map_eq_some_iff] at ran
      obtain ⟨_, ⟨m, removed, rfl⟩, moved⟩ := ran
      obtain ⟨torn, differs⟩ := remove_torn parked live onRecord prevIs nextIs removed
      have off : Torn (setHashIndex (setElement m c none) c (-1)) p n := torn_setElement torn differs none
      exact torn_lists (move_torn off differs moved)
  | cursorGoNext c =>
    cases live : h.live c with
    | false => simp [step, live] at ran
    | true =>
      obtain ⟨onRecord, p, n, prevIs, nextIs⟩ := between c middle
      simp only [step, live, ↓reduceIte, hashCursorGoNext, Option.bind_eq_bind, Option.bind_eq_some_iff] at ran
      obtain ⟨address, onElement, next, _, ran⟩ := ran
      split at ran
      · obtain ⟨m, removed, moved⟩ := Option.bind_eq_some_iff.mp ran
        obtain ⟨torn, differs⟩ := remove_torn parked live onRecord prevIs nextIs removed
        exact torn_lists (move_torn (torn_setElement torn differs none) differs moved)
      · obtain ⟨m, removed, added⟩ := Option.bind_eq_some_iff.mp ran
        obtain ⟨torn, differs⟩ := remove_torn parked live onRecord prevIs nextIs removed
        exact torn_lists (add_torn (torn_setElement torn differs _) differs added)
  | cursorDestroy c =>
    cases live : h.live c with
    | false => simp [step, live] at ran
    | true =>
      obtain ⟨onRecord, p, n, prevIs, nextIs⟩ := between c middle
      simp only [step, live, ↓reduceIte, hashCursorDestroy, Option.isSome_iff_ne_none, onRecord, ne_eq,
        not_false_eq_true, Option.bind_eq_bind, Option.bind_eq_some_iff] at ran
      obtain ⟨m, removed, freed⟩ := ran
      cases freed
      obtain ⟨⟨pLive, onElement, pointers⟩, differs⟩ := remove_torn parked live onRecord prevIs nextIs removed
      exact torn_lists ⟨(Function.update_of_ne differs _ _).trans pLive, onElement, pointers⟩
  | _ => exact absurd trivial middle

/-- The operations on cursors, as against those on the table. -/
def OnCursors : Op α → Prop
  | .cursorCreate | .cursorGoFirst _ | .cursorGoNext _ | .cursorDestroy _ => True
  | _ => False

private theorem listless_onCursors (h : Heap fs) {op : Op α} (onCursors : OnCursors op) : DeletesListless h op := by
  cases op with
  | delete data => exact onCursors.elim
  | _ => trivial

/-- Without cursors the lists are empty and stay so. -/
private theorem made_kept {h h' : Heap fs} (op : Op α) (parked : Parked h none ∧ ∀ c, h.live c = false)
    (onTable : ¬ OnCursors op) (ran : step h op = some h') : Parked h' none ∧ ∀ c, h'.live c = false := by
  have unwatched : DeletesListless h op := by
    cases op with
    | delete data =>
      intro record found
      have member : record ∈ records h.table := mem_records.mpr ⟨_, List.mem_of_find?_eq_some found⟩
      obtain ⟨cursors, chain, members⟩ := parked.1.lists record.address (isLinked_iff.mpr ⟨record, member, rfl⟩)
      have empty : cursors = [] := List.eq_nil_iff_forall_not_mem.mpr fun c listed => by
        have live := ((members c).mp listed).1
        rw [parked.2 c] at live
        cases live
      subst empty
      exact chain
    | _ => trivial
  have ends : LeavesEnd h op := by
    cases op with
    | add | delete | destroy => trivial
    | _ => exact absurd trivial onTable
  refine ⟨step_kept op parked.1 ends unwatched ran, ?_⟩
  cases op with
  | add data allocated => cases ran; exact parked.2
  | delete data =>
    obtain ⟨_, _, rfl⟩ := Option.map_eq_some_iff.mp ran
    exact parked.2
  | destroy data =>
    obtain ⟨_, _, rfl⟩ := Option.map_eq_some_iff.mp ran
    exact parked.2
  | _ => exact absurd trivial onTable

/-- A table that calls on the table alone have made. -/
theorem made_parked {build : List (Op α)} {h : Heap fs} (onTable : ∀ op ∈ build, ¬ OnCursors op)
    (made : run step (start fs) build = some h) : Parked h none := by
  have cursorless := guarded_run (fun m => Parked m none ∧ ∀ c, m.live c = false)
    (fun _ op _ parked permitted ran => made_kept op parked permitted ran)
    ⟨start_parked, fun _ => rfl⟩ (guarded_forall fun op member _ => onTable op member) made
  exact cursorless.1

/-- On every table, the cursor lists are intact after each cursor operation exactly
    when no operation takes a cursor from between two others of its list. -/
theorem cursor_lists_iff {build ops : List (Op α)} {h h' : Heap fs} (onTable : ∀ op ∈ build, ¬ OnCursors op)
    (made : run step (start fs) build = some h) (onCursors : ∀ op ∈ ops, OnCursors op)
    (ran : run step h ops = some h') : Visits step ListsIntact h ops ↔ Guarded step LeavesEnd h ops :=
  visits_iff_guarded
    (fun m op _ kind parked ends stepped => step_kept op parked ends (listless_onCursors m kind) stepped)
    (fun _ parked => parked_lists parked)
    (fun _ op _ _ parked middle stepped => step_torn op parked middle stepped)
    (guarded_forall fun op member _ => onCursors op member)
    (made_parked onTable made) ran

/-- A table of one bucket for numbers. -/
def oneBucket : Funcs Nat := ⟨1, by decide, fun _ => 0, fun a b => if a = b then 0 else 1, false⟩

theorem cursor_lists_iff_oneBucket : ∃ h h',
    run step (start oneBucket) [.add 7 true, .add 8 true] = some h ∧
      run step h [.cursorCreate, .cursorCreate, .cursorGoNext 3, .cursorDestroy 2] = some h' ∧
      (Visits step ListsIntact h [.cursorCreate, .cursorCreate, .cursorGoNext 3, .cursorDestroy 2] ↔
        Guarded step LeavesEnd h [.cursorCreate, .cursorCreate, .cursorGoNext 3, .cursorDestroy 2]) := by
  have made : run step (start oneBucket) [.add 7 true, .add 8 true] = some _ := rfl
  exact ⟨_, _, made, rfl, cursor_lists_iff (by simp [OnCursors]) made (by simp [OnCursors]) rfl⟩

/-- Of three cursors on one record the middle one is destroyed. -/
theorem cursor_lists_break : ∃ h h', run step (start oneBucket) [.add 7 true] = some h ∧
    run step h [.cursorCreate, .cursorCreate, .cursorCreate, .cursorDestroy 2] = some h' ∧ ¬ ListsIntact h' := by
  refine ⟨_, _, rfl, rfl, torn_lists (p := 3) (n := 1) ⟨rfl, ⟨0, rfl, rfl⟩, rfl, ?_⟩⟩
  decide

/-- Cursors never dangle exactly when each removal finds its record without a
    cursor. While cursors leave their lists at the ends only, `HashDestroy`
    asserts that itself and `HashDelete` needs a record with an empty list. -/
theorem none_dangles_iff {ops : List (Op α)} {h : Heap fs} (ran : run step (start fs) ops = some h) :
    (Visits step NoneDangles (start fs) ops ↔ Guarded step RemovesUnwatched (start fs) ops) ∧
    (Guarded step (fun m op => LeavesEnd m op ∧ DeletesListless m op) (start fs) ops →
      Visits step NoneDangles (start fs) ops) := by
  constructor
  · exact visits_iff_guarded (fun _ op _ _ settled permitted stepped => step_settled op settled permitted stepped)
      (fun _ settled => settled_noneDangles settled)
      (fun _ op _ _ settled forbidden stepped => step_dangles op settled forbidden stepped)
      (guarded_forall (fun _ _ _ => trivial)) start_settled ran
  · intro guarded
    refine visits_mono (fun m (parked : Parked m none) => settled_noneDangles parked.toSettled) ?_
    exact guarded_visits (fun _ op _ parked permitted stepped => step_kept op parked permitted.1 permitted.2 stepped)
      start_parked guarded

theorem none_dangles_iff_oneBucket :
    (Visits step NoneDangles (start oneBucket) [.add 7 true, .cursorCreate, .cursorGoNext 1, .delete 7] ↔
        Guarded step RemovesUnwatched (start oneBucket) [.add 7 true, .cursorCreate, .cursorGoNext 1, .delete 7]) ∧
      (Guarded step (fun m op => LeavesEnd m op ∧ DeletesListless m op) (start oneBucket)
          [.add 7 true, .cursorCreate, .cursorGoNext 1, .delete 7] →
        Visits step NoneDangles (start oneBucket) [.add 7 true, .cursorCreate, .cursorGoNext 1, .delete 7]) := by
  have ran : run step (start oneBucket) [.add 7 true, .cursorCreate, .cursorGoNext 1, .delete 7] = some _ := rfl
  exact none_dangles_iff ran

/-- A record is deleted under its cursor. -/
theorem none_dangles_fails : ∃ h, run step (start oneBucket) [.add 7 true, .cursorCreate, .delete 7] = some h ∧
    ¬ NoneDangles h := by
  refine ⟨_, rfl, fun none => ?_⟩
  rcases none 1 rfl with past | ⟨address, onElement, linked⟩
  · exact absurd past (by decide)
  · cases onElement
    exact absurd linked (by decide)

end VoxiUtil.HashCursorRuns
