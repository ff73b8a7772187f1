import VoxiUtil.HashTraversal

/-!
The pointers between records and cursors. What a call can read is a freed block when a
pointer of a linked record or of a live cursor leads there; what a call can write
are pointers that were there before, and pointers to the cursor that it moves.
-/
namespace VoxiUtil.HashCursorPointers
open VoxiUtil.Hash VoxiUtil.HashCursor VoxiUtil.HashCursorRecords VoxiUtil.Runs
variable {α : Type} {fs : Funcs α}

/-- A null pointer or a pointer to a cursor that is not freed. -/
def Fine (h : Heap fs) (pointer : Option Nat) : Prop := ∀ c, pointer = some c → h.live c = true

/-- No pointer of a linked record, and none of a live cursor on a record but of `away`,
    leads to a freed block. -/
structure Whole (h : Heap fs) (away : Option Nat) : Prop where
  first : ∀ address, isLinked h.table address = true → Fine h (h.table.firstCursor address)
  cursor : ∀ c address, h.live c = true → some c ≠ away → h.element c = some address →
    isLinked h.table address = true ∧ Fine h (h.prevCursor c) ∧ Fine h (h.nextCursor c)

/-- What `removeCursorFromList` writes. -/
structure Removed (h m : Heap fs) (c address : Nat) : Prop extends Rewired h m where
  first : ∀ other, m.table.firstCursor other = h.table.firstCursor other ∨
    other = address ∧ m.table.firstCursor other = h.nextCursor c
  next : ∀ d, m.nextCursor d = h.nextCursor d ∨ m.nextCursor d = h.nextCursor c ∨ m.nextCursor d = none
  prev : ∀ d, m.prevCursor d = h.prevCursor d ∨ m.prevCursor d = none

/-- What `addCursorToList` writes. -/
structure Added (h m : Heap fs) (c address : Nat) : Prop extends Rewired h m where
  first : ∀ other, m.table.firstCursor other = if other = address then some c else h.table.firstCursor other
  next : ∀ d, m.nextCursor d = if d = c then h.table.firstCursor address else h.nextCursor d
  prev : ∀ d, d ≠ c ∧ m.prevCursor d = h.prevCursor d ∨ m.prevCursor d = none ∨ m.prevCursor d = some c

section
variable {h m : Heap fs} {c address : Nat}

theorem fine_live {pointer : Option Nat} (live : m.live = h.live) : Fine m pointer ↔ Fine h pointer := by
  unfold Fine
  rw [live]

private theorem update_eq_or (pointers : Nat → Option Nat) (c : Nat) (pointer : Option Nat) (d : Nat) :
    Function.update pointers c pointer d = pointers d ∨ Function.update pointers c pointer d = pointer := by
  by_cases same : d = c
  · exact .inr (by rw [same, Function.update_self])
  · exact .inl (Function.update_of_ne same ..)

/-- The removal of a cursor from its list reads its two neighbours. -/
theorem remove_reads (ran : removeCursorFromList h c = some m) :
    ∃ address, h.element c = some address ∧ isLinked h.table address = true ∧
      Fine h (h.prevCursor c) ∧ Fine h (h.nextCursor c) := by
  cases onElement : h.element c with
  | none => simp [removeCursorFromList, onElement] at ran
  | some address =>
    have linked : isLinked h.table address = true := by
      by_contra off
      simp [removeCursorFromList, onElement, off] at ran
    refine ⟨address, rfl, linked, ?_, ?_⟩
    · intro prev prevIs
      by_contra freed
      simp [removeCursorFromList, onElement, prevIs, freed] at ran
    · intro next nextIs
      by_contra freed
      have onward : ∀ prev, Function.update h.nextCursor prev (some next) c = some next := fun prev => by
        rcases update_eq_or h.nextCursor prev (some next) c with same | same
        · rw [same, nextIs]
        · exact same
      cases prevIs : h.prevCursor c with
      | none => simp [removeCursorFromList, onElement, prevIs, nextIs, freed, setFirstCursor] at ran
      | some prev =>
        cases prevLive : h.live prev <;>
          simp [removeCursorFromList, onElement, prevIs, prevLive, nextIs, onward, freed] at ran

/-- A cursor with neighbours that are not freed can be removed from its list. -/
theorem remove_removed (onElement : h.element c = some address) (linked : isLinked h.table address = true)
    (prevFine : Fine h (h.prevCursor c)) (nextFine : Fine h (h.nextCursor c)) :
    ∃ m, removeCursorFromList h c = some m ∧ Removed h m c address := by
  have firstKept : ∀ other, h.table.firstCursor other = h.table.firstCursor other ∨
      other = address ∧ h.table.firstCursor other = h.nextCursor c := fun _ => .inl rfl
  have firstSet : ∀ other, Function.update h.table.firstCursor address (h.nextCursor c) other = h.table.firstCursor other ∨
      other = address ∧ Function.update h.table.firstCursor address (h.nextCursor c) other = h.nextCursor c := by
    intro other
    by_cases same : other = address
    · exact .inr ⟨same, by rw [same, Function.update_self]⟩
    · exact .inl (Function.update_of_ne same ..)
  cases prevIs : h.prevCursor c with
  | none =>
    cases nextIs : h.nextCursor c with
    | none =>
      refine ⟨setFirstCursor h address (h.nextCursor c), ?_, ⟨⟨rfl, rfl, rfl, rfl, rfl⟩, firstSet, fun _ => .inl rfl, fun _ => .inl rfl⟩⟩
      simp [removeCursorFromList, onElement, linked, prevIs, nextIs, setFirstCursor]
    | some next =>
      refine ⟨{ setFirstCursor h address (h.nextCursor c) with
        prevCursor := Function.update h.prevCursor next none, nextCursor := Function.update h.nextCursor c none }, ?_, ?_⟩
      · simp [removeCursorFromList, onElement, linked, prevIs, nextIs, setFirstCursor, nextFine next nextIs]
      · refine ⟨⟨rfl, rfl, rfl, rfl, rfl⟩, firstSet, fun d => ?_, update_eq_or h.prevCursor next none⟩
        exact (update_eq_or h.nextCursor c none d).imp_right .inr
  | some prev =>
    have prevLive := prevFine prev prevIs
    have cleared : ∀ d, Function.update h.prevCursor c none d = h.prevCursor d ∨
        Function.update h.prevCursor c none d = none := update_eq_or h.prevCursor c none
    have passed : ∀ d, Function.update h.nextCursor prev (h.nextCursor c) d = h.nextCursor d ∨
        Function.update h.nextCursor prev (h.nextCursor c) d = h.nextCursor c := update_eq_or h.nextCursor prev (h.nextCursor c)
    have onward : Function.update h.nextCursor prev (h.nextCursor c) c = h.nextCursor c := by
      rcases passed c with same | same <;> exact same
    cases nextIs : h.nextCursor c with
    | none =>
      rw [nextIs] at onward passed
      refine ⟨{ h with nextCursor := Function.update h.nextCursor prev none
                       prevCursor := Function.update h.prevCursor c none }, ?_, ?_⟩
      · simp [removeCursorFromList, onElement, linked, prevIs, prevLive, nextIs, onward]
      · exact ⟨⟨rfl, rfl, rfl, rfl, rfl⟩, firstKept, fun d => (passed d).imp_right .inr, cleared⟩
    | some next =>
      rw [nextIs] at onward passed
      refine ⟨{ h with nextCursor := Function.update (Function.update h.nextCursor prev (some next)) c none
                       prevCursor := Function.update (Function.update h.prevCursor c none) next none }, ?_, ?_⟩
      · simp [removeCursorFromList, onElement, linked, prevIs, prevLive, nextIs, onward, nextFine next nextIs]
      · refine ⟨⟨rfl, rfl, rfl, rfl, rfl⟩, firstKept, fun d => ?_, fun d => ?_⟩
        · rw [nextIs]
          rcases update_eq_or (Function.update h.nextCursor prev (some next)) c none d with same | same
          · exact (passed d).imp same.trans (fun other => .inl (same.trans other))
          · exact .inr (.inr same)
        · rcases update_eq_or (Function.update h.prevCursor c none) next none d with same | same
          · exact (cleared d).imp same.trans same.trans
          · exact .inr same

/-- A cursor that joins a list reads the first one of it. -/
theorem add_reads (ran : addCursorToList h c = some m) :
    ∃ address, h.element c = some address ∧ isLinked h.table address = true ∧ Fine h (h.table.firstCursor address) := by
  cases onElement : h.element c with
  | none => simp [addCursorToList, onElement] at ran
  | some address =>
    have linked : isLinked h.table address = true := by
      by_contra off
      simp [addCursorToList, onElement, off] at ran
    refine ⟨address, rfl, linked, fun first firstIs => ?_⟩
    by_contra freed
    simp [addCursorToList, onElement, linked, firstIs, freed, setFirstCursor] at ran

/-- A cursor can join a list whose first cursor is not freed. -/
theorem add_added (onElement : h.element c = some address) (linked : isLinked h.table address = true)
    (firstFine : Fine h (h.table.firstCursor address)) : ∃ m, addCursorToList h c = some m ∧ Added h m c address := by
  have firstSet : ∀ other, Function.update h.table.firstCursor address (some c) other =
      if other = address then some c else h.table.firstCursor other := fun _ => Function.update_apply ..
  have nextSet : ∀ d, Function.update h.nextCursor c (h.table.firstCursor address) d =
      if d = c then h.table.firstCursor address else h.nextCursor d := fun _ => Function.update_apply ..
  have cleared : ∀ d, d ≠ c ∧ Function.update h.prevCursor c none d = h.prevCursor d ∨
      Function.update h.prevCursor c none d = none := by
    intro d
    by_cases same : d = c
    · exact .inr (by rw [same, Function.update_self])
    · exact .inl ⟨same, Function.update_of_ne same ..⟩
  cases firstIs : h.table.firstCursor address with
  | none =>
    refine ⟨setFirstCursor { h with nextCursor := Function.update h.nextCursor c (h.table.firstCursor address)
                                    prevCursor := Function.update h.prevCursor c none } address (some c), ?_,
      ⟨⟨rfl, rfl, rfl, rfl, rfl⟩, firstSet, nextSet, fun d => (cleared d).imp_right .inl⟩⟩
    simp [addCursorToList, onElement, linked, firstIs]
  | some next =>
    refine ⟨{ setFirstCursor h address (some c) with
      nextCursor := Function.update h.nextCursor c (h.table.firstCursor address)
      prevCursor := Function.update (Function.update h.prevCursor c none) next (some c) }, ?_,
      ⟨⟨rfl, rfl, rfl, rfl, rfl⟩, firstSet, nextSet, fun d => ?_⟩⟩
    · simp [addCursorToList, onElement, linked, firstIs, setFirstCursor, firstFine next firstIs]
    · rcases update_eq_or (Function.update h.prevCursor c none) next (some c) d with same | same
      · exact (cleared d).imp (.imp_right same.trans) (fun other => .inl (same.trans other))
      · exact .inr (.inr same)

theorem removed_of_remove (ran : removeCursorFromList h c = some m) :
    ∃ address, h.element c = some address ∧ Removed h m c address := by
  obtain ⟨address, onElement, linked, prevFine, nextFine⟩ := remove_reads ran
  obtain ⟨m', again, removed⟩ := remove_removed onElement linked prevFine nextFine
  cases again.symm.trans ran
  exact ⟨address, onElement, removed⟩

theorem added_of_add (ran : addCursorToList h c = some m) :
    ∃ address, h.element c = some address ∧ isLinked h.table address = true ∧ Added h m c address := by
  obtain ⟨address, onElement, linked, firstFine⟩ := add_reads ran
  obtain ⟨m', again, added⟩ := add_added onElement linked firstFine
  cases again.symm.trans ran
  exact ⟨address, onElement, linked, added⟩

theorem whole_removed (whole : Whole h none) (live : h.live c = true) (onElement : h.element c = some address)
    (removed : Removed h m c address) : Whole m (some c) := by
  obtain ⟨_, _, nextFine⟩ := whole.cursor c address live (by simp) onElement
  constructor
  · intro other linked
    rw [fine_live removed.live]
    rcases removed.first other with same | ⟨_, same⟩
    · rw [same]
      exact whole.first other ((isLinked_congr removed.infoArray other).symm.trans linked)
    · rw [same]
      exact nextFine
  · intro d other dLive _ onOther
    rw [removed.live] at dLive
    rw [removed.element] at onOther
    obtain ⟨linked, dPrev, dNext⟩ := whole.cursor d other dLive (by simp) onOther
    rw [fine_live removed.live, fine_live removed.live]
    refine ⟨(isLinked_congr removed.infoArray other).trans linked, ?_, ?_⟩
    · rcases removed.prev d with same | same
      · rw [same]; exact dPrev
      · rw [same]; exact fun e null => by cases null
    · rcases removed.next d with same | same | same
      · rw [same]; exact dNext
      · rw [same]; exact nextFine
      · rw [same]; exact fun e null => by cases null

theorem whole_added (whole : Whole h (some c)) (live : h.live c = true) (onElement : h.element c = some address)
    (linked : isLinked h.table address = true) (added : Added h m c address) : Whole m none := by
  have self : Fine h (some c) := fun d same => by cases same; exact live
  have null : Fine h none := fun d same => by cases same
  constructor
  · intro other otherLinked
    rw [fine_live added.live, added.first]
    split
    · exact self
    · exact whole.first other ((isLinked_congr added.infoArray other).symm.trans otherLinked)
  · intro d other dLive _ onOther
    rw [added.live] at dLive
    rw [added.element] at onOther
    rw [fine_live added.live, fine_live added.live, isLinked_congr added.infoArray, added.next]
    by_cases same : d = c
    · subst same
      cases onElement.symm.trans onOther
      rw [if_pos rfl]
      refine ⟨linked, ?_, whole.first address linked⟩
      rcases added.prev d with ⟨differs, _⟩ | same | same
      · exact absurd rfl differs
      · rw [same]; exact null
      · rw [same]; exact self
    · obtain ⟨dLinked, dPrev, dNext⟩ := whole.cursor d other dLive (by simpa using same) onOther
      rw [if_neg same]
      refine ⟨dLinked, ?_, dNext⟩
      rcases added.prev d with ⟨_, same⟩ | same | same
      · rw [same]; exact dPrev
      · rw [same]; exact null
      · rw [same]; exact self

theorem whole_leaves (whole : Whole h none) (c : Nat) : Whole h (some c) :=
  ⟨whole.first, fun d address live _ => whole.cursor d address live (by simp)⟩

theorem whole_setElement (whole : Whole h (some c)) (address : Option Nat) : Whole (setElement h c address) (some c) := by
  refine ⟨whole.first, fun d other live away onElement => whole.cursor d other live away ?_⟩
  exact (Function.update_of_ne (by simpa using away) ..).symm.trans onElement

theorem whole_setHashIndex (whole : Whole h (some c)) (index : Int) : Whole (setHashIndex h c index) (some c) :=
  ⟨whole.first, whole.cursor⟩

/-- A cursor off the records has no neighbours to read. -/
theorem whole_off (whole : Whole h (some c)) (off : h.element c = none) : Whole h none := by
  refine ⟨whole.first, fun d address live _ onElement => whole.cursor d address live ?_ onElement⟩
  rintro ⟨⟩
  cases off.symm.trans onElement

/-- How a cursor is moved to the next used bucket: past the table, or on a record of it. -/
theorem move_cases (ran : moveCursorToNextIndex h c = some m) :
    ∃ index, m = setElement (setHashIndex h c index) c none ∨
      ∃ address, addCursorToList (setElement (setHashIndex h c index) c (some address)) c = some m := by
  simp only [moveCursorToNextIndex, Option.bind_eq_bind, Option.bind_eq_some_iff] at ran
  obtain ⟨_, _, _, _, ran⟩ := ran
  split at ran
  · split at ran
    · cases ran
    · exact ⟨_, .inr ⟨_, ran⟩⟩
  · exact ⟨_, .inl (Option.some.inj ran).symm⟩

theorem goFirst_cases (ran : hashCursorGoFirst h c = some m) :
    h.element c = none ∧ moveCursorToNextIndex (setHashIndex h c (-1)) c = some m ∨
    ∃ r, removeCursorFromList h c = some r ∧
      moveCursorToNextIndex (setHashIndex (setElement r c none) c (-1)) c = some m := by
  cases onElement : h.element c with
  | none => exact .inl ⟨rfl, by simpa [hashCursorGoFirst, onElement] using ran⟩
  | some address =>
    right
    simp only [hashCursorGoFirst, onElement, Option.isSome_some, ↓reduceIte, Option.bind_eq_bind] at ran
    obtain ⟨_, left, moved⟩ := Option.bind_eq_some_iff.mp ran
    obtain ⟨r, removed, rfl⟩ := Option.map_eq_some_iff.mp left
    exact ⟨r, removed, moved⟩

/-- What no call breaks: records have blocks of their own, and blocks that were not given
    yet are not pointed at. -/
structure Tidy (h : Heap fs) : Prop where
  housed : Housed h.table h.unused
  live : ∀ c, h.live c = true → c < h.unused
  first : ∀ address c, h.table.firstCursor address = some c → c < h.unused
  next : ∀ d c, h.nextCursor d = some c → c < h.unused

theorem tidy_rewired (tidy : Tidy h) (rewired : Rewired h m)
    (first : ∀ address c, m.table.firstCursor address = some c → c < h.unused)
    (next : ∀ d c, m.nextCursor d = some c → c < h.unused) : Tidy m := by
  have sameRecords : records m.table = records h.table := by simp [records, rewired.infoArray]
  refine ⟨⟨?_, ?_⟩, ?_, ?_, ?_⟩
  · rw [sameRecords]; exact tidy.housed.unique
  · rw [sameRecords, rewired.unused]; exact tidy.housed.old
  · rw [rewired.live, rewired.unused]; exact tidy.live
  · rw [rewired.unused]; exact first
  · rw [rewired.unused]; exact next

theorem tidy_remove (tidy : Tidy h) (ran : removeCursorFromList h c = some m) : Tidy m := by
  obtain ⟨address, onElement, removed⟩ := removed_of_remove ran
  refine tidy_rewired tidy removed.toRewired (fun other d firstIs => ?_) (fun e d nextIs => ?_)
  · rcases removed.first other with same | ⟨_, same⟩
    · exact tidy.first other d (same.symm.trans firstIs)
    · exact tidy.next c d (same.symm.trans firstIs)
  · rcases removed.next e with same | same | same
    · exact tidy.next e d (same.symm.trans nextIs)
    · exact tidy.next c d (same.symm.trans nextIs)
    · cases same.symm.trans nextIs

theorem tidy_add (tidy : Tidy h) (given : c < h.unused) (ran : addCursorToList h c = some m) : Tidy m := by
  obtain ⟨address, onElement, linked, added⟩ := added_of_add ran
  refine tidy_rewired tidy added.toRewired (fun other d firstIs => ?_) (fun e d nextIs => ?_)
  · rw [added.first] at firstIs
    split at firstIs
    · cases firstIs; exact given
    · exact tidy.first other d firstIs
  · rw [added.next] at nextIs
    split at nextIs
    · exact tidy.first address d nextIs
    · exact tidy.next e d nextIs

theorem tidy_setElement (tidy : Tidy h) (c : Nat) (address : Option Nat) : Tidy (setElement h c address) :=
  ⟨tidy.housed, tidy.live, tidy.first, tidy.next⟩

theorem tidy_setHashIndex (tidy : Tidy h) (c : Nat) (index : Int) : Tidy (setHashIndex h c index) :=
  ⟨tidy.housed, tidy.live, tidy.first, tidy.next⟩

theorem tidy_move (tidy : Tidy h) (given : c < h.unused) (ran : moveCursorToNextIndex h c = some m) : Tidy m := by
  obtain ⟨index, rfl | ⟨address, added⟩⟩ := move_cases ran
  · exact tidy_setElement (tidy_setHashIndex tidy c index) c none
  · exact tidy_add (tidy_setElement (tidy_setHashIndex tidy c index) c (some address)) given added

theorem tidy_goFirst (tidy : Tidy h) (given : c < h.unused) (ran : hashCursorGoFirst h c = some m) : Tidy m := by
  rcases goFirst_cases ran with ⟨_, moved⟩ | ⟨r, removed, moved⟩
  · exact tidy_move (tidy_setHashIndex tidy c (-1)) given moved
  · refine tidy_move (tidy_setHashIndex (tidy_setElement (tidy_remove tidy removed) c none) c (-1)) ?_ moved
    exact lt_of_lt_of_eq given (remove_rewired removed).unused.symm

theorem tidy_goNext (tidy : Tidy h) (given : c < h.unused) (ran : hashCursorGoNext h c = some m) : Tidy m := by
  simp only [hashCursorGoNext, Option.bind_eq_bind, Option.bind_eq_some_iff] at ran
  obtain ⟨_, _, next, _, ran⟩ := ran
  cases next with
  | none =>
    obtain ⟨r, removed, moved⟩ := Option.bind_eq_some_iff.mp ran
    refine tidy_move (tidy_setElement (tidy_remove tidy removed) c none) ?_ moved
    exact lt_of_lt_of_eq given (remove_rewired removed).unused.symm
  | some record =>
    obtain ⟨r, removed, added⟩ := Option.bind_eq_some_iff.mp ran
    refine tidy_add (tidy_setElement (tidy_remove tidy removed) c _) ?_ added
    exact lt_of_lt_of_eq given (remove_rewired removed).unused.symm

/-- The heap with the block of a new cursor, which is on no record yet. -/
theorem tidy_created (tidy : Tidy h) : Tidy
    { h with live := Function.update h.live h.unused true
             prevCursor := Function.update h.prevCursor h.unused none
             nextCursor := Function.update h.nextCursor h.unused none
             element := Function.update h.element h.unused none
             unused := h.unused + 1 } := by
  refine ⟨⟨tidy.housed.unique, fun record member => Nat.lt_succ_of_lt (tidy.housed.old record member)⟩, fun c live => ?_,
    fun address c firstIs => Nat.lt_succ_of_lt (tidy.first address c firstIs), fun d c nextIs => ?_⟩
  · by_cases same : c = h.unused
    · rw [same]; exact Nat.lt_succ_self _
    · exact Nat.lt_succ_of_lt (tidy.live c ((Function.update_of_ne same ..).symm.trans live))
  · by_cases same : d = h.unused
    · subst same
      cases (Function.update_self ..).symm.trans nextIs
    · exact Nat.lt_succ_of_lt (tidy.next d c ((Function.update_of_ne same ..).symm.trans nextIs))

theorem tidy_unlink {release : HiPtr α → Option (List α)} {data : α} {out : Hasht fs × Int × List α} (tidy : Tidy h)
    (ran : unlink release h.table data = some out) : Tidy { h with table := out.1 } := by
  rcases unlink_cases ran with ⟨_, rfl⟩ | ⟨pre, toTrash, post, destroyed, _, chain, _, rfl⟩
  · exact tidy
  · exact ⟨housed_unlinked tidy.housed chain, tidy.live, tidy.first, tidy.next⟩

theorem tidy_add_record (tidy : Tidy h) (data : α) (newInfo : Option Nat) (fresh : newInfo = none ∨ newInfo = some h.unused) :
    Tidy { h with table := (hashAdd h.table data newInfo).1, unused := h.unused + 1 } := by
  refine ⟨housed_add tidy.housed data newInfo fresh, fun c live => Nat.lt_succ_of_lt (tidy.live c live),
    fun address c firstIs => ?_, fun d c nextIs => Nat.lt_succ_of_lt (tidy.next d c nextIs)⟩
  refine Nat.lt_succ_of_lt (tidy.first address c ?_)
  simp only [hashAdd] at firstIs
  split at firstIs
  · exact firstIs
  · split at firstIs
    · exact firstIs
    · rcases update_eq_or h.table.firstCursor _ none address with same | same
      · exact same.symm.trans firstIs
      · cases same.symm.trans firstIs

theorem step_tidy {op : Op α} (tidy : Tidy h) (ran : step h op = some m) : Tidy m := by
  cases op with
  | add data allocated =>
    cases ran
    exact tidy_add_record tidy data _ (by cases allocated <;> simp)
  | delete data =>
    obtain ⟨out, removed, rfl⟩ := Option.map_eq_some_iff.mp ran
    exact tidy_unlink tidy removed
  | destroy data =>
    obtain ⟨out, removed, rfl⟩ := Option.map_eq_some_iff.mp ran
    exact tidy_unlink tidy removed
  | cursorCreate => exact tidy_goFirst (tidy_created tidy) (Nat.lt_succ_self _) ran
  | cursorGoFirst c =>
    cases live : h.live c with
    | false => simp [step, live] at ran
    | true => exact tidy_goFirst tidy (tidy.live c live) (by simpa [step, live] using ran)
  | cursorGoNext c =>
    cases live : h.live c with
    | false => simp [step, live] at ran
    | true => exact tidy_goNext tidy (tidy.live c live) (by simpa [step, live] using ran)
  | cursorDestroy c =>
    cases live : h.live c with
    | false => simp [step, live] at ran
    | true =>
      have freed : ∀ {r : Heap fs}, Tidy r → Tidy { r with live := Function.update r.live c false } := by
        intro r tidy
        refine ⟨tidy.housed, fun d dLive => tidy.live d ?_, tidy.first, tidy.next⟩
        by_cases same : d = c
        · subst same
          cases (Function.update_self ..).symm.trans dLive
        · exact (Function.update_of_ne same ..).symm.trans dLive
      simp only [step, live, ↓reduceIte, hashCursorDestroy, Option.bind_eq_bind] at ran
      split at ran
      · obtain ⟨r, removed, done⟩ := Option.bind_eq_some_iff.mp ran
        cases done
        exact freed (tidy_remove tidy removed)
      · cases ran
        exact freed tidy

/-- Every heap that calls on a new table lead to is tidy. -/
theorem run_tidy {ops : List (Op α)} (ran : run step (start fs) ops = some h) : Tidy h := by
  have each : ∀ (s : Heap fs) (op : Op α) (t : Heap fs), Tidy s → step s op = some t → Tidy t :=
    fun _ _ _ tidy stepped => step_tidy tidy stepped
  refine run_invariant each ?_ ran
  refine ⟨⟨by simp [records_start], by simp [records_start]⟩, ?_, ?_, ?_⟩
  · intro c live; cases live
  · intro address c firstIs; cases firstIs
  · intro d c nextIs; cases nextIs

end

end VoxiUtil.HashCursorPointers
