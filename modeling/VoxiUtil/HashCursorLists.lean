import VoxiUtil.HashCursorRecords

/-!
The cursor lists and the records under them. `Parked` is the invariant of the
heap, with one cursor `away` from its list while an operation moves it; each
operation takes its cursor away and puts it back. It is kept as long as no
cursor leaves the middle of a list and no record is deleted under a cursor.
-/
namespace VoxiUtil.HashCursorLists
open VoxiUtil.Hash VoxiUtil.HashCursor VoxiUtil.HashCursorRecords VoxiUtil.DoublyLinked VoxiUtil.Runs
open VoxiUtil.Limits (intMax)
variable {α : Type} {fs : Funcs α}

/-- The cursor list of each record, from `firstCursor` along `nextCursor` and
    with the predecessors in `prevCursor`, has just the live cursors parked on it. -/
def ListsIntact (h : Heap fs) : Prop :=
  ∀ address, isLinked h.table address = true →
    ∃ cursors, Linked h.nextCursor h.prevCursor (h.table.firstCursor address) cursors ∧ cursors.Nodup ∧
      ∀ c, c ∈ cursors ↔ h.live c = true ∧ h.element c = some address

/-- The invariant of the heap; `away` is the cursor that is in no list. -/
structure Parked (h : Heap fs) (away : Option Nat) : Prop extends Settled h away where
  cursorOld : ∀ c, h.live c = true → c < h.unused
  lists : ∀ address, isLinked h.table address = true →
    ∃ cursors, Linked h.nextCursor h.prevCursor (h.table.firstCursor address) cursors ∧
      ∀ c, c ∈ cursors ↔ h.live c = true ∧ some c ≠ away ∧ h.element c = some address

theorem parked_lists {h : Heap fs} (parked : Parked h none) : ListsIntact h := by
  intro address linked
  obtain ⟨cursors, chain, members⟩ := parked.lists address linked
  exact ⟨cursors, chain, linked_nodup chain, fun c => by simpa using members c⟩

/-- `h'` differs from `h` in pointers of the list of `address` only. -/
structure Surgery (h h' : Heap fs) (address : Nat) : Prop extends Rewired h h' where
  firsts : ∀ other, other ≠ address → h'.table.firstCursor other = h.table.firstCursor other
  nexts : ∀ c, h.element c ≠ some address → h'.nextCursor c = h.nextCursor c
  prevs : ∀ c, h.element c ≠ some address → h'.prevCursor c = h.prevCursor c

/-- A cursor joins or leaves the list of its record, and the other lists keep
    their cursors. -/
theorem parked_surgery {h h' : Heap fs} {away away' : Option Nat} (address : Nat) (parked : Parked h away)
    (surgery : Surgery h h' address) (settled : Settled h away')
    (others : ∀ c, h.element c ≠ some address → (some c ≠ away' ↔ some c ≠ away))
    (list : ∃ cursors, Linked h'.nextCursor h'.prevCursor (h'.table.firstCursor address) cursors ∧
      ∀ c, c ∈ cursors ↔ h.live c = true ∧ some c ≠ away' ∧ h.element c = some address) : Parked h' away' := by
  refine ⟨settled_rewired settled surgery.toRewired, ?_, ?_⟩
  · rw [surgery.live, surgery.unused]; exact parked.cursorOld
  · intro other linked
    rw [isLinked_congr surgery.infoArray] at linked
    rw [surgery.live, surgery.element]
    by_cases same : other = address
    · subst same; exact list
    · obtain ⟨cursors, chain, members⟩ := parked.lists other linked
      have elsewhere : ∀ c, h.element c = some other → h.element c ≠ some address := by
        intro c onOther
        rw [onOther]; simpa using same
      have member : ∀ c ∈ cursors, h.element c ≠ some address := fun c inList =>
        elsewhere c ((members c).mp inList).2.2
      refine ⟨cursors, ?_, fun c => ?_⟩
      · rw [surgery.firsts other same]
        exact linked_frame (fun c inList => surgery.nexts c (member c inList))
          (fun c inList => surgery.prevs c (member c inList)) chain
      · rw [members c]
        constructor
        · rintro ⟨live, present, onOther⟩; exact ⟨live, (others c (elsewhere c onOther)).mpr present, onOther⟩
        · rintro ⟨live, present, onOther⟩; exact ⟨live, (others c (elsewhere c onOther)).mp present, onOther⟩

private theorem mem_without {β : Type} {pre post : List β} {c : β} (distinct : (pre ++ c :: post).Nodup) (d : β) :
    d ∈ pre ++ post ↔ d ∈ pre ++ c :: post ∧ d ≠ c := by
  have apart := (List.nodup_cons.mp (List.nodup_middle.mp distinct)).1
  simp only [List.mem_append, List.mem_cons] at apart ⊢
  constructor
  · intro member
    refine ⟨by tauto, ?_⟩
    rintro rfl
    exact apart member
  · tauto

/-- What taking a cursor off the list of its record leaves. -/
private def TakenOff (h : Heap fs) (c address : Nat) (cursors : List Nat) : Prop :=
  ∃ h', removeCursorFromList h c = some h' ∧ Surgery h h' address ∧
    Linked h'.nextCursor h'.prevCursor (h'.table.firstCursor address) cursors

private theorem remove_only {h : Heap fs} {c address : Nat} (onElement : h.element c = some address)
    (linked : isLinked h.table address = true) (prevIs : h.prevCursor c = none) (nextIs : h.nextCursor c = none) :
    TakenOff h c address [] := by
  refine ⟨setFirstCursor h address none, ?_, ?_, ?_⟩
  · simp [removeCursorFromList, onElement, linked, prevIs, nextIs, setFirstCursor]
  · exact ⟨⟨rfl, rfl, rfl, rfl, rfl⟩, fun other differs => Function.update_of_ne differs _ _, fun _ _ => rfl,
      fun _ _ => rfl⟩
  · exact Function.update_self address none h.table.firstCursor

private theorem remove_first {h : Heap fs} {c n address : Nat} {more : List Nat} (onElement : h.element c = some address)
    (linked : isLinked h.table address = true)
    (chain : Linked h.nextCursor h.prevCursor (h.table.firstCursor address) (c :: n :: more))
    (nLive : h.live n = true) (nOn : h.element n = some address) : TakenOff h c address (n :: more) := by
  have apart := (List.nodup_cons.mp (linked_nodup chain)).1
  have prevIs : h.prevCursor c = none := chain.2.1
  have nextIs : h.nextCursor c = some n := segment_head chain.2.2
  refine ⟨{ setFirstCursor h address (some n) with
    prevCursor := Function.update h.prevCursor n none
    nextCursor := Function.update h.nextCursor c none }, ?_, ?_, ?_⟩
  · simp [removeCursorFromList, onElement, linked, prevIs, nextIs, setFirstCursor, nLive]
  · refine ⟨⟨rfl, rfl, rfl, rfl, rfl⟩, fun other differs => Function.update_of_ne differs _ _, ?_, ?_⟩
    · intro d elsewhere
      exact Function.update_of_ne (by rintro rfl; exact elsewhere onElement) _ _
    · intro d elsewhere
      exact Function.update_of_ne (by rintro rfl; exact elsewhere nOn) _ _
  · have startIs : (setFirstCursor h address (some n)).table.firstCursor address = h.nextCursor c := by
      rw [nextIs]; exact Function.update_self address (some n) h.table.firstCursor
    change Linked _ _ ((setFirstCursor h address (some n)).table.firstCursor address) _
    rw [startIs]
    apply linked_tail chain
    · intro d member
      exact Function.update_of_ne (by rintro rfl; exact apart member) _ _
    · intro d head
      rw [nextIs] at head
      cases head
      exact Function.update_self _ _ _
    · intro d _ notHead
      exact Function.update_of_ne (fun same => notHead (by rw [nextIs, same])) _ _

private theorem remove_last {h : Heap fs} {c p address : Nat} {before : List Nat} (onElement : h.element c = some address)
    (linked : isLinked h.table address = true)
    (chain : Linked h.nextCursor h.prevCursor (h.table.firstCursor address) (before ++ p :: [c]))
    (pLive : h.live p = true) (pOn : h.element p = some address) : TakenOff h c address (before ++ [p]) := by
  have split : before ++ p :: [c] = (before ++ [p]) ++ c :: [] := by simp
  obtain ⟨_, back, forward⟩ := linked_middle.mp (split ▸ chain)
  have prevIs : h.prevCursor c = some p := by simpa using back
  have nextIs : h.nextCursor c = none := forward
  have distinct := linked_nodup chain
  have pApart : p ∉ before := by
    have others := List.nodup_cons.mp (List.nodup_middle.mp distinct)
    intro member
    exact others.1 (List.mem_append_left _ member)
  have cApart : c ∉ before ++ [p] := by
    intro member
    exact ((mem_without (split ▸ distinct) c).mp (by simpa using member)).2 rfl
  refine ⟨{ h with nextCursor := Function.update h.nextCursor p none
                   prevCursor := Function.update h.prevCursor c none }, ?_, ?_, ?_⟩
  · have unread : Function.update h.nextCursor p (none : Option Nat) c = none := by
      by_cases same : c = p
      · rw [same, Function.update_self]
      · rw [Function.update_of_ne same, nextIs]
    simp [removeCursorFromList, onElement, linked, prevIs, nextIs, pLive, unread]
  · refine ⟨⟨rfl, rfl, rfl, rfl, rfl⟩, fun _ _ => rfl, ?_, ?_⟩
    · intro d elsewhere
      exact Function.update_of_ne (by rintro rfl; exact elsewhere pOn) _ _
    · intro d elsewhere
      exact Function.update_of_ne (by rintro rfl; exact elsewhere onElement) _ _
  · apply linked_init chain (Function.update_self _ _ _)
    · intro d member
      exact Function.update_of_ne (by rintro rfl; exact pApart member) _ _
    · intro d member
      exact Function.update_of_ne (by rintro rfl; exact cApart member) _ _

/-- A cursor at an end of its list can be taken off it. -/
theorem remove_parked {h : Heap fs} {c address : Nat} (parked : Parked h none) (live : h.live c = true)
    (onElement : h.element c = some address) (atEnd : h.prevCursor c = none ∨ h.nextCursor c = none) :
    ∃ h', removeCursorFromList h c = some h' ∧ Surgery h h' address ∧ Parked h' (some c) := by
  have linked := (parked.onRecord c address live (by simp) onElement).1
  obtain ⟨cursors, chain, members⟩ := parked.lists address linked
  have listed : c ∈ cursors := (members c).mpr ⟨live, by simp, onElement⟩
  obtain ⟨pre, post, rfl⟩ := List.append_of_mem listed
  have distinct := linked_nodup chain
  have remaining : ∀ d, d ∈ pre ++ post ↔ h.live d = true ∧ some d ≠ some c ∧ h.element d = some address := by
    intro d
    rw [mem_without distinct, members d]
    simp only [ne_eq, reduceCtorEq, not_false_eq_true, true_and, Option.some.injEq]
    tauto
  have taken : TakenOff h c address (pre ++ post) := by
    obtain ⟨_, back, right⟩ := linked_middle.mp chain
    have forward : h.nextCursor c = post.head? := by simpa using segment_head right
    rcases List.eq_nil_or_concat pre with rfl | ⟨before, p, rfl⟩
    · cases post with
      | nil => exact remove_only onElement linked (by simpa using back) (by simpa using forward)
      | cons n more =>
        obtain ⟨nLive, _, nOn⟩ := (remaining n).mp (by simp)
        exact remove_first onElement linked chain nLive nOn
    · -- There is a previous cursor, so the cursor is the last one.
      have last : post = [] := by
        apply List.head?_eq_none_iff.mp
        rw [← forward]
        exact atEnd.resolve_left (by simp [back])
      subst last
      obtain ⟨pLive, _, pOn⟩ := (remaining p).mp (by simp)
      simp only [List.append_nil, List.append_assoc, List.concat_eq_append, List.singleton_append] at chain ⊢
      exact remove_last onElement linked chain pLive pOn
  obtain ⟨h', ran, surgery, list⟩ := taken
  refine ⟨h', ran, surgery, ?_⟩
  apply parked_surgery address parked surgery (settled_leaves parked.toSettled c) ?_ ⟨pre ++ post, list, remaining⟩
  intro d elsewhere
  simp only [ne_eq, Option.some.injEq, reduceCtorEq, not_false_eq_true, iff_true]
  rintro rfl
  exact elsewhere onElement

/-- The cursors of a record that a cursor comes to. -/
private theorem joined_members {h : Heap fs} {c address : Nat} {cursors : List Nat} (live : h.live c = true)
    (onElement : h.element c = some address)
    (members : ∀ d, d ∈ cursors ↔ h.live d = true ∧ some d ≠ some c ∧ h.element d = some address) (d : Nat) :
    d ∈ c :: cursors ↔ h.live d = true ∧ some d ≠ (none : Option Nat) ∧ h.element d = some address := by
  rw [List.mem_cons, members d]
  simp only [ne_eq, Option.some.injEq, reduceCtorEq, not_false_eq_true, true_and]
  constructor
  · rintro (rfl | ⟨dLive, _, dOn⟩)
    · exact ⟨live, onElement⟩
    · exact ⟨dLive, dOn⟩
  · rintro ⟨dLive, dOn⟩
    by_cases same : d = c
    · exact .inl same
    · exact .inr ⟨dLive, same, dOn⟩

private theorem add_settled {h : Heap fs} {c address : Nat} (parked : Parked h (some c))
    (onElement : h.element c = some address) (linked : isLinked h.table address = true)
    (inside : h.hashIndex c < fs.size) : Settled h none := by
  refine settled_returns parked.toSettled (fun other onOther => ?_) (fun _ off => ?_)
  · obtain rfl := Option.some.inj (onElement.symm.trans onOther)
    exact ⟨linked, inside⟩
  · rw [onElement] at off
    cases off

/-- A cursor in no list is put on the list of the record it points at. -/
theorem add_parked {h : Heap fs} {c address : Nat} (parked : Parked h (some c)) (live : h.live c = true)
    (onElement : h.element c = some address) (linked : isLinked h.table address = true)
    (inside : h.hashIndex c < fs.size) : ∃ h', addCursorToList h c = some h' ∧ Parked h' none := by
  obtain ⟨cursors, chain, members⟩ := parked.lists address linked
  have unlisted : c ∉ cursors := fun member => ((members c).mp member).2.1 rfl
  have others : ∀ d, h.element d ≠ some address → (some d ≠ (none : Option Nat) ↔ some d ≠ some c) := by
    intro d elsewhere
    simp only [ne_eq, reduceCtorEq, not_false_eq_true, Option.some.injEq, true_iff]
    rintro rfl
    exact elsewhere onElement
  have settled := add_settled parked onElement linked inside
  have joined := joined_members live onElement members
  have headIs : h.table.firstCursor address = cursors.head? := by simpa using segment_head chain
  cases first : h.table.firstCursor address with
  | none =>
    have ran : addCursorToList h c = some (setFirstCursor
        { h with nextCursor := Function.update h.nextCursor c none
                 prevCursor := Function.update h.prevCursor c none } address (some c)) := by
      simp [addCursorToList, onElement, linked, first]
    refine ⟨_, ran, parked_surgery address parked
      ⟨⟨rfl, rfl, rfl, rfl, rfl⟩, fun other differs => Function.update_of_ne differs _ _, ?_, ?_⟩
      settled others ⟨c :: cursors, ?_, joined⟩⟩
    · intro d elsewhere
      exact Function.update_of_ne (by rintro rfl; exact elsewhere onElement) _ _
    · intro d elsewhere
      exact Function.update_of_ne (by rintro rfl; exact elsewhere onElement) _ _
    · have alone : cursors = [] := List.head?_eq_none_iff.mp (headIs.symm.trans first)
      subst alone
      change Linked (Function.update h.nextCursor c none) (Function.update h.prevCursor c none)
        (Function.update h.table.firstCursor address (some c) address) [c]
      rw [Function.update_self]
      exact ⟨rfl, Function.update_self _ _ _, Function.update_self _ _ _⟩
  | some n =>
    have nListed : n ∈ cursors := List.mem_of_mem_head? (headIs.symm.trans first)
    obtain ⟨nLive, nPresent, nOn⟩ := (members n).mp nListed
    have nDiffers : n ≠ c := by rintro rfl; exact unlisted nListed
    have ran : addCursorToList h c = some
        { setFirstCursor h address (some c) with
          nextCursor := Function.update h.nextCursor c (some n)
          prevCursor := Function.update (Function.update h.prevCursor c none) n (some c) } := by
      simp [addCursorToList, onElement, linked, first, setFirstCursor, nLive]
    refine ⟨_, ran, parked_surgery address parked
      ⟨⟨rfl, rfl, rfl, rfl, rfl⟩, fun other differs => Function.update_of_ne differs _ _, ?_, ?_⟩
      settled others ⟨c :: cursors, ?_, joined⟩⟩
    · intro d elsewhere
      exact Function.update_of_ne (by rintro rfl; exact elsewhere onElement) _ _
    · intro d elsewhere
      change Function.update (Function.update h.prevCursor c none) n (some c) d = _
      rw [Function.update_of_ne (by rintro rfl; exact elsewhere nOn),
        Function.update_of_ne (by rintro rfl; exact elsewhere onElement)]
    · change Linked _ _ (Function.update h.table.firstCursor address (some c) address) _
      rw [Function.update_self]
      rw [first] at chain
      refine linked_cons chain (Function.update_self _ _ _) ?_ ?_ ?_ ?_
      · exact (Function.update_of_ne nDiffers.symm _ _).trans (Function.update_self _ _ _)
      · intro d member
        exact Function.update_of_ne (by rintro rfl; exact unlisted member) _ _
      · intro d head
        cases head
        exact Function.update_self _ _ _
      · intro d member notHead
        have notFirst : d ≠ n := by rintro rfl; exact notHead rfl
        have notNew : d ≠ c := by rintro rfl; exact unlisted member
        exact (Function.update_of_ne notFirst _ _).trans (Function.update_of_ne notNew _ _)

theorem away_setElement {h : Heap fs} {c : Nat} (parked : Parked h (some c)) (address : Option Nat) :
    Parked (setElement h c address) (some c) := by
  have apart : ∀ d, some d ≠ some c → (setElement h c address).element d = h.element d :=
    fun d differs => Function.update_of_ne (by simpa using differs) _ _
  refine ⟨settled_setElement parked.toSettled address, parked.cursorOld, fun other linked => ?_⟩
  obtain ⟨cursors, chain, members⟩ := parked.lists other linked
  refine ⟨cursors, chain, fun d => ?_⟩
  rw [members d]
  constructor
  · rintro ⟨live, present, onOther⟩; exact ⟨live, present, (apart d present).trans onOther⟩
  · rintro ⟨live, present, onOther⟩; exact ⟨live, present, (apart d present).symm.trans onOther⟩

theorem away_setHashIndex {h : Heap fs} {c : Nat} (parked : Parked h (some c)) (index : Int) :
    Parked (setHashIndex h c index) (some c) :=
  ⟨settled_setHashIndex parked.toSettled index, parked.cursorOld, parked.lists⟩

private theorem offRecord_lists {h : Heap fs} {c : Nat} {away away' : Option Nat} (off : h.element c = none)
    (within : ∀ d, d ≠ c → (some d ≠ away ↔ some d ≠ away')) (d address : Nat) :
    h.live d = true ∧ some d ≠ away ∧ h.element d = some address ↔
      h.live d = true ∧ some d ≠ away' ∧ h.element d = some address := by
  by_cases same : d = c
  · subst same; simp [off]
  · rw [within d same]

/-- A cursor on no record is in no list, so it need not be away. -/
theorem offRecord_back {h : Heap fs} {c : Nat} (parked : Parked h (some c)) (off : h.element c = none)
    (past : h.live c = true → (fs.size : Int) ≤ h.hashIndex c) : Parked h none := by
  refine ⟨settled_returns parked.toSettled ?_ (fun live _ => past live), parked.cursorOld, fun address linked => ?_⟩
  · intro address onElement; rw [off] at onElement; cases onElement
  · obtain ⟨cursors, chain, members⟩ := parked.lists address linked
    exact ⟨cursors, chain, fun d => (members d).trans (offRecord_lists off (by simp) d address)⟩

theorem offRecord_away {h : Heap fs} {c : Nat} (parked : Parked h none) (off : h.element c = none) :
    Parked h (some c) := by
  refine ⟨settled_leaves parked.toSettled c, parked.cursorOld, fun address linked => ?_⟩
  obtain ⟨cursors, chain, members⟩ := parked.lists address linked
  exact ⟨cursors, chain, fun d => (members d).trans (offRecord_lists off (by simp) d address)⟩

theorem skipEmpty_stops (ht : Hasht fs) (fuel index : Nat) (enough : fs.size ≤ index + fuel)
    (inside : skipEmpty ht fuel index < fs.size) : ht.infoArray ⟨skipEmpty ht fuel index, inside⟩ ≠ [] := by
  induction fuel generalizing index with
  | zero => simp [skipEmpty] at inside; omega
  | succ fuel ih =>
    by_cases within : index < fs.size
    · by_cases empty : ht.infoArray ⟨index, within⟩ = []
      · have onward : skipEmpty ht (fuel + 1) index = skipEmpty ht fuel (index + 1) := by
          simp [skipEmpty, within, empty]
        simp only [onward] at inside ⊢
        exact ih _ (by omega) inside
      · have here : skipEmpty ht (fuel + 1) index = index := by simp [skipEmpty, within, empty]
        simp only [here]
        exact empty
    · simp [skipEmpty, within] at inside

/-- A cursor on no record moves to the first record of the next used bucket, or
    past the table; only an index beyond the range of `int` stops it. -/
theorem move_parked {h : Heap fs} {c : Nat} (parked : Parked h (some c)) (live : h.live c = true)
    (off : h.element c = none) :
    (∃ h', moveCursorToNextIndex h c = some h' ∧ Parked h' none) ∨
      (moveCursorToNextIndex h c = none ∧ intMax < skipEmpty h.table fs.size (h.hashIndex c + 1).toNat) := by
  set index := skipEmpty h.table fs.size (h.hashIndex c + 1).toNat with indexIs
  by_cases fits : index ≤ intMax
  · left
    have moved := away_setHashIndex parked index
    by_cases inside : index < fs.size
    · have used : h.table.infoArray ⟨index, inside⟩ ≠ [] := by
        have stops := skipEmpty_stops h.table fs.size (h.hashIndex c + 1).toNat (by omega)
        exact stops inside
      obtain ⟨first, rest, chain⟩ := List.exists_cons_of_ne_nil used
      have linked : isLinked h.table first.address = true :=
        isLinked_iff.mpr ⟨first, mem_records.mpr ⟨_, by rw [chain]; simp⟩, rfl⟩
      obtain ⟨h', added, kept⟩ := add_parked (away_setElement moved (some first.address)) live
        (Function.update_self _ _ _) linked (by
          change Function.update h.hashIndex c (index : Int) c < _
          rw [Function.update_self]
          exact_mod_cast inside)
      refine ⟨h', ?_, kept⟩
      simp only [moveCursorToNextIndex, off, ← indexIs, fits, inside]
      simp [setHashIndex, chain]
      exact added
    · refine ⟨setElement (setHashIndex h c index) c none, ?_, ?_⟩
      · simp [moveCursorToNextIndex, off, ← indexIs, fits, inside]
      · refine offRecord_back (away_setElement moved none) (Function.update_self _ _ _) (fun _ => ?_)
        change _ ≤ Function.update h.hashIndex c (index : Int) c
        rw [Function.update_self]
        exact_mod_cast Nat.le_of_not_lt inside
  · right
    exact ⟨by simp [moveCursorToNextIndex, off, ← indexIs, fits], by omega⟩

end VoxiUtil.HashCursorLists
