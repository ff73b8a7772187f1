import VoxiUtil.IdTable

/-!
Walks of `idt_forEach`, whose callbacks add elements to the table that is walked,
remove them, and walk it again. The loop reads the size and the slots anew in
front of each call, so the array that an add has doubled is the one it goes on in.
-/
namespace VoxiUtil.IdTableWalk
open VoxiUtil.IdTable VoxiUtil.Runs
open VoxiUtil.Limits.Signed (intMax)
variable {α : Type}

/-- The loop from an index up to its next call, which it makes with the slot's element.
    It ends behind the array. -/
def seek (table : SIDTable α) : Nat → Int → Option (Option (Int × α))
  | 0, _ => none
  | fuel + 1, i =>
    if i < table.tableSize then do
      let slot ← ELEMENT table i
      if slot.isFree then seek table fuel (i + 1)
      else
        let element ← slot.element
        return some (i, element)
    else some none

/-- A call of `idt_forEach`: the moment at which it came, and the calls that it made. -/
structure Walk (α : Type) where
  since : Nat
  calls : List (Int × α)

/-- The maps that the table stood for, the present one last, with the walks whose
    callbacks run (the innermost first, each with its index) and those that are finished (each
    with the moment at which it ended). -/
structure World (α : Type) where
  table : SIDTable α
  history : List (Int → Option α)
  running : List (Walk α × Int)
  finished : List (Walk α × Nat)

inductive Act (α : Type)
  | op (op : IdOp α)
  | forEach
  | returns

/-- The present moment. -/
def World.now (w : World α) : Nat := w.history.length - 1

/-- The innermost walk goes on at an index: to its next call, or to its end. -/
def goOn (w : World α) (walk : Walk α) (i : Int) : Option (World α) :=
  (seek w.table ((w.table.tableSize - i).toNat + 1) i).map fun
    | some (index, element) =>
      { w with running := ({ walk with calls := walk.calls ++ [(index, element)] }, index) :: w.running }
    | none => { w with finished := (walk, w.now) :: w.finished }

def idtForEach (w : World α) : Option (World α) := do
  assert (w.table.elementSize = sizeofPointer)
  goOn w ⟨w.now, []⟩ 0

def walkStep (w : World α) : Act α → Option (World α)
  | .op op => do
    let stored ← w.history.getLast?
    let after ← step (w.table, stored) op
    return { w with table := after.1, history := w.history ++ [after.2] }
  | .forEach => idtForEach w
  | .returns =>
    match w.running with
    | [] => none
    | (walk, i) :: outer => goOn { w with running := outer } walk (i + 1)

/-- The operations are those that a table permits, and what returns is a callback. -/
def WalkPermitted (w : World α) : Act α → Prop
  | .op op => ∀ stored, w.history.getLast? = some stored → Permitted (w.table, stored) op
  | .forEach => True
  | .returns => w.running ≠ []

/-- The element under an index at a moment. -/
def storedAt (history : List (Int → Option α)) (t : Nat) (index : Int) : Option α := history[t]?.bind fun stored => stored index

/-- What a loop calls that comes to the index of each place of `times` at the moment there. -/
def seen (history : List (Int → Option α)) (times : List Nat) : List (Int × α) :=
  times.zipIdx.filterMap fun p => (storedAt history p.1 p.2).map fun element => ((p.2 : Int), element)

/-- A walk came to its first indices one after the other, and called what was stored under
    each at that moment. -/
structure Passes (history : List (Int → Option α)) (walk : Walk α) (last : Nat) (times : List Nat) : Prop where
  began : walk.since ≤ last
  ascending : times.Pairwise (· ≤ ·)
  within : ∀ t ∈ times, walk.since ≤ t ∧ t ≤ last
  calls : walk.calls = seen history times

/-- A walk that has passed the indices below `bound`: no index is called twice, and what is
    stored under one of them all the time is called. -/
structure Follows (history : List (Int → Option α)) (walk : Walk α) (last : Nat) (bound : Int) : Prop where
  passes : ∃ times, Passes history walk last times ∧ (times.length : Int) = bound
  once : (walk.calls.map Prod.fst).Pairwise (· < ·)
  lasting : ∀ index element, 0 ≤ index → index < bound →
    (∀ t, walk.since ≤ t → t ≤ last → storedAt history t index = some element) → (index, element) ∈ walk.calls

structure WorldInv (w : World α) : Prop where
  table : ∃ stored, w.history.getLast? = some stored ∧ Inv w.table stored
  running : ∀ p ∈ w.running, ∃ times, Passes w.history p.1 w.now times ∧ (times.length : Int) = p.2 + 1
  finished : ∀ p ∈ w.finished, p.2 ≤ w.now ∧ ∃ times, Passes w.history p.1 p.2 times ∧
    ∀ index : Int, times.length ≤ index → storedAt w.history p.2 index = none

section
variable {history : List (Int → Option α)} {walk : Walk α} {last : Nat} {times : List Nat}

theorem storedAt_append {t : Nat} (before : t < history.length) (stored : Int → Option α) (index : Int) :
    storedAt (history ++ [stored]) t index = storedAt history t index := by
  rw [storedAt, List.getElem?_append_left before, storedAt]

theorem storedAt_last {stored : Int → Option α} (present : history.getLast? = some stored) (index : Int) :
    storedAt history (history.length - 1) index = stored index := by
  rw [storedAt, ← List.getLast?_eq_getElem?, present, Option.bind_some]

theorem mem_seen {index : Int} {element : α} :
    (index, element) ∈ seen history times ↔ ∃ i t, index = (i : Nat) ∧ times[i]? = some t ∧ storedAt history t i = some element := by
  rw [seen, List.mem_filterMap]
  constructor
  · rintro ⟨⟨t, i⟩, member, called⟩
    obtain ⟨held, found, same⟩ := Option.map_eq_some_iff.mp called
    cases same
    exact ⟨i, t, rfl, List.mem_zipIdx_iff_getElem?.mp member, found⟩
  · rintro ⟨i, t, rfl, there, found⟩
    exact ⟨(t, i), List.mem_zipIdx_iff_getElem?.mpr there, by rw [found, Option.map_some]⟩

theorem seen_append (more : List Nat) :
    seen history (times ++ more) = seen history times ++
      (more.zipIdx times.length).filterMap fun p => (storedAt history p.1 p.2).map fun element => ((p.2 : Int), element) := by
  rw [seen, List.zipIdx_append, List.filterMap_append, Nat.zero_add, seen]

/-- What has been seen stays so. -/
theorem seen_later (before : ∀ t ∈ times, t < history.length) (stored : Int → Option α) :
    seen (history ++ [stored]) times = seen history times := by
  refine List.filterMap_congr fun p member => ?_
  have there := List.mem_zipIdx_iff_getElem?.mp member
  rw [storedAt_append (before p.1 (List.mem_of_getElem? there)) stored]

theorem passes_later {later : Nat} (passes : Passes history walk last times) (inside : last < history.length)
    (stored : Int → Option α) (after : last ≤ later) : Passes (history ++ [stored]) walk later times := by
  refine ⟨passes.began.trans after, passes.ascending, fun t member => ?_, ?_⟩
  · have within := passes.within t member
    exact ⟨within.1, within.2.trans after⟩
  · rw [seen_later (fun t member => (passes.within t member).2.trans_lt inside)]
    exact passes.calls

/-- The loop comes to its next indices now. -/
theorem passes_more (passes : Passes history walk last times) (n : Nat) {calls : List (Int × α)}
    (seenThen : calls = seen history (times ++ List.replicate n last)) :
    Passes history { walk with calls := calls } last (times ++ List.replicate n last) := by
  refine ⟨passes.began, ?_, fun t member => ?_, seenThen⟩
  · refine List.pairwise_append.mpr ⟨passes.ascending, List.pairwise_replicate.mpr (.inr le_rfl), fun s earlier t now => ?_⟩
    rw [List.eq_of_mem_replicate now]
    exact (passes.within s earlier).2
  · rcases List.mem_append.mp member with earlier | now
    · exact passes.within t earlier
    · rw [List.eq_of_mem_replicate now]
      exact ⟨passes.began, le_rfl⟩

/-- Nothing is called for indices under which nothing is stored. -/
theorem passes_skip (passes : Passes history walk last times) {n : Nat}
    (empty : ∀ j, times.length ≤ j → j < times.length + n → storedAt history last (j : Nat) = none) :
    Passes history walk last (times ++ List.replicate n last) := by
  apply passes_more passes n
  rw [seen_append, passes.calls]
  refine (List.append_right_eq_self.mpr (List.filterMap_eq_nil_iff.mpr fun p member => ?_)).symm
  obtain ⟨above, below, same⟩ := List.mem_zipIdx member
  rw [List.length_replicate] at below
  rw [List.getElem_replicate] at same
  rw [same, empty p.2 above below, Option.map_none]

/-- The element under the next index is called. -/
theorem passes_call (passes : Passes history walk last times) {element : α}
    (found : storedAt history last times.length = some element) :
    Passes history { walk with calls := walk.calls ++ [((times.length : Int), element)] } last (times ++ [last]) := by
  apply passes_more passes 1
  rw [List.replicate_one, seen_append, passes.calls, List.zipIdx_singleton, List.filterMap_cons, found, Option.map_some,
    List.filterMap_nil]

theorem passes_once (passes : Passes history walk last times) : (walk.calls.map Prod.fst).Pairwise (· < ·) := by
  rw [passes.calls, seen, List.pairwise_map, List.pairwise_filterMap]
  have indices : times.zipIdx.Pairwise fun p q => p.2 < q.2 := by
    apply List.pairwise_map.mp
    rw [List.zipIdx_map_snd]
    exact List.pairwise_lt_range'
  apply indices.imp
  intro p q less first called second later
  obtain ⟨_, _, rfl⟩ := Option.map_eq_some_iff.mp called
  obtain ⟨_, _, rfl⟩ := Option.map_eq_some_iff.mp later
  exact Int.ofNat_lt.mpr less

theorem passes_follows (passes : Passes history walk last times) {bound : Int} (length : (times.length : Int) = bound) :
    Follows history walk last bound := by
  refine ⟨⟨times, passes, length⟩, passes_once passes, fun index element natural below always => ?_⟩
  obtain ⟨i, rfl⟩ := Int.eq_ofNat_of_zero_le natural
  have inside : i < times.length := by omega
  obtain ⟨after, before⟩ := passes.within times[i] (List.getElem_mem inside)
  rw [passes.calls, mem_seen]
  exact ⟨i, times[i], rfl, List.getElem?_eq_getElem inside, always _ after before⟩

end

/-! ### The loop -/

/-- What the loop finds from an index on, by the map that the table stands for. -/
def Finds (stored : Int → Option α) (i : Int) : Option (Int × α) → Prop
  | some (index, element) => i ≤ index ∧ stored index = some element ∧ ∀ j, i ≤ j → j < index → stored j = none
  | none => ∀ j, i ≤ j → stored j = none

theorem finds_behind {stored : Int → Option α} {i : Int} {found : Option (Int × α)} (here : stored i = none)
    (finds : Finds stored (i + 1) found) : Finds stored i found := by
  have all : ∀ j, i ≤ j → (i + 1 ≤ j → stored j = none) → stored j = none := by
    intro j above behind
    by_cases same : j = i
    · rw [same]
      exact here
    · exact behind (by omega)
  cases found with
  | none =>
    intro j above
    exact all j above (finds j)
  | some next =>
    obtain ⟨above, has, between⟩ := finds
    refine ⟨by omega, has, ?_⟩
    intro j onward below
    exact all j onward fun behind => between j behind below

/-- The loop ends or makes a call: it reads elements of occupied slots only. -/
theorem seek_finds {table : SIDTable α} {stored : Int → Option α} (inv : Inv table stored) {fuel : Nat} {i : Int}
    (natural : 0 ≤ i) (enough : (table.tableSize - i).toNat < fuel) :
    ∃ found, seek table fuel i = some found ∧ Finds stored i found := by
  induction fuel generalizing i with
  | zero => exact absurd enough (Nat.not_lt_zero _)
  | succ fuel ih =>
    obtain ⟨n, rfl⟩ := Int.eq_ofNat_of_zero_le natural
    have sized := inv.sized
    rw [seek]
    by_cases inside : (n : Int) < table.tableSize
    · have found := List.getElem?_eq_getElem (show n < table.table.length by omega)
      rw [if_pos inside, ELEMENT_ofNat, found]
      rcases tagged_cases inv found with ⟨isFree, _, _, unstored⟩ | ⟨isFree, _, element, held, has⟩
      · obtain ⟨next, reached, finds⟩ := ih (i := n + 1) (by omega) (by omega)
        exact ⟨next, by simp [isFree, reached], finds_behind unstored finds⟩
      · refine ⟨some (n, element), by simp [isFree, held], Int.le_refl _, has, ?_⟩
        intro j above below
        omega
    · refine ⟨none, if_neg inside, ?_⟩
      intro j above
      obtain ⟨m, rfl⟩ := Int.eq_ofNat_of_zero_le (show 0 ≤ j by omega)
      rw [inv.holds, List.getElem?_eq_none (by omega), Option.bind_none]

/-! ### Steps and runs -/

section
variable {w : World α}

/-- A walk that has passed the indices below the one where the loop goes on keeps the
    invariant there, whether it makes another call or ends. -/
theorem goOn_inv (inv : WorldInv w) {walk : Walk α} {times : List Nat} (passes : Passes w.history walk w.now times) :
    ∃ after, goOn w walk times.length = some after ∧ WorldInv after := by
  obtain ⟨stored, present, table⟩ := inv.table
  have now : ∀ index, storedAt w.history w.now index = stored index := storedAt_last present
  obtain ⟨found, reached, finds⟩ := seek_finds table (Int.natCast_nonneg times.length) (Nat.lt_succ_self _)
  rw [goOn, reached, Option.map_some]
  refine ⟨_, rfl, ?_⟩
  cases found with
  | none =>
    refine ⟨inv.table, inv.running, ?_⟩
    intro p member
    rcases List.mem_cons.mp member with rfl | earlier
    · refine ⟨le_rfl, times, passes, ?_⟩
      intro index above
      exact (now index).trans (finds index above)
    · exact inv.finished p earlier
  | some next =>
    obtain ⟨index, element⟩ := next
    obtain ⟨above, has, between⟩ := finds
    obtain ⟨n, rfl⟩ : ∃ n : Nat, index = (times.length + n : Nat) := ⟨(index - times.length).toNat, by omega⟩
    refine ⟨inv.table, ?_, inv.finished⟩
    intro p member
    rcases List.mem_cons.mp member with rfl | earlier
    · have skipped := passes_skip passes (n := n) fun j onward below =>
        (now j).trans (between j (by omega) (by omega))
      have length : (times ++ List.replicate n w.now).length = times.length + n := by
        rw [List.length_append, List.length_replicate]
      have present : storedAt w.history w.now (times ++ List.replicate n w.now).length = some element := by
        rw [length, now]
        exact has
      have called := passes_call skipped present
      rw [length] at called
      refine ⟨_, called, ?_⟩
      rw [List.length_append, length, List.length_singleton]
      omega
    · exact inv.running p earlier

/-- An add or a remove is the next moment, whatever walks are under way. -/
theorem op_inv (inv : WorldInv w) {op : IdOp α}
    (permitted : ∀ stored, w.history.getLast? = some stored → Permitted (w.table, stored) op) :
    ∃ after, walkStep w (.op op) = some after ∧ WorldInv after := by
  obtain ⟨stored, present, table⟩ := inv.table
  obtain ⟨after, stepped, kept⟩ := step_inv (s := (w.table, stored)) table (permitted stored present)
  have nonempty : 0 < w.history.length := List.length_pos_of_ne_nil (List.getLast?_isSome.mp (by rw [present]; rfl))
  have inside : w.now < w.history.length := Nat.sub_lt nonempty Nat.one_pos
  have later : w.now ≤ (w.history ++ [after.2]).length - 1 := by
    rw [List.length_append, List.length_singleton]
    exact Nat.le_of_lt inside
  refine ⟨{ w with table := after.1, history := w.history ++ [after.2] }, by simp [walkStep, present, stepped], ?_, ?_, ?_⟩
  · exact ⟨after.2, List.getLast?_concat, kept⟩
  · intro p member
    obtain ⟨times, passes, length⟩ := inv.running p member
    exact ⟨times, passes_later passes inside after.2 later, length⟩
  · intro p member
    obtain ⟨ended, times, passes, empty⟩ := inv.finished p member
    refine ⟨ended.trans later, times, passes_later passes (ended.trans_lt inside) after.2 le_rfl, ?_⟩
    intro index above
    exact (storedAt_append (ended.trans_lt inside) after.2 index).trans (empty index above)

theorem walkStep_inv {act : Act α} (inv : WorldInv w) (permitted : WalkPermitted w act) :
    ∃ after, walkStep w act = some after ∧ WorldInv after := by
  cases act with
  | op op => exact op_inv inv permitted
  | forEach =>
    obtain ⟨_, _, table⟩ := inv.table
    have began : Passes w.history ⟨w.now, []⟩ w.now [] := ⟨le_rfl, List.Pairwise.nil, nofun, rfl⟩
    obtain ⟨after, went, kept⟩ := goOn_inv inv began
    exact ⟨after, by simpa [walkStep, idtForEach, table.pointers] using went, kept⟩
  | returns =>
    cases callbacks : w.running with
    | nil => exact absurd callbacks permitted
    | cons inner outer =>
      obtain ⟨walk, i⟩ := inner
      obtain ⟨times, passes, length⟩ := inv.running (walk, i) (by rw [callbacks]; exact List.mem_cons_self)
      have left : WorldInv { w with running := outer } := by
        refine ⟨inv.table, ?_, inv.finished⟩
        intro p member
        exact inv.running p (by rw [callbacks]; exact List.mem_cons_of_mem _ member)
      obtain ⟨after, went, kept⟩ := goOn_inv left passes
      rw [length] at went
      exact ⟨after, by simp only [walkStep, callbacks]; exact went, kept⟩

end

/-- Whatever the callbacks add, remove and walk themselves, every walk calls what it finds
    under each index when it comes there, and a walk that is finished has passed them all. -/
theorem walks_follow {initialCount : Int} (positive : 1 ≤ initialCount) (acts : List (Act α)) :
    ∃ created, idtCreate initialCount = some created ∧
      (Guarded walkStep WalkPermitted ⟨created, [fun _ => none], [], []⟩ acts →
        ∃ w stored, run walkStep ⟨created, [fun _ => none], [], []⟩ acts = some w ∧ w.history.getLast? = some stored ∧
          Refines w.table stored ∧
          (∀ p ∈ w.running, Follows w.history p.1 w.now (p.2 + 1)) ∧
          ∀ p ∈ w.finished, ∃ bound, Follows w.history p.1 p.2 bound ∧ ∀ index, bound ≤ index → storedAt w.history p.2 index = none) := by
  obtain ⟨created, made, inv⟩ := create_inv (α := α) positive
  refine ⟨created, made, fun guarded => ?_⟩
  have start : WorldInv (⟨created, [fun _ => none], [], []⟩ : World α) := ⟨⟨_, rfl, inv⟩, nofun, nofun⟩
  obtain ⟨w, ran, kept⟩ := guarded_total (fun w act => walkStep_inv) start guarded
  obtain ⟨stored, present, table⟩ := kept.table
  refine ⟨w, stored, ran, present, inv_refines table, ?_, ?_⟩
  · intro p member
    obtain ⟨times, passes, length⟩ := kept.running p member
    exact passes_follows passes length
  · intro p member
    obtain ⟨_, times, passes, empty⟩ := kept.finished p member
    exact ⟨times.length, passes_follows passes rfl, empty⟩

/-- The first callback removes an element, adds two, for which the array is doubled, and
    walks the table. -/
def nestedWalks : List (Act Nat) :=
  [.op (.add 10), .op (.add 11), .forEach, .op (.remove 1), .op (.add 12), .op (.add 13), .forEach,
    .returns, .returns, .returns, .returns, .returns, .returns]

theorem walks_follow_nested : ∃ created, idtCreate 1 = some created ∧
    ∃ w stored, run walkStep ⟨created, [fun _ => none], [], []⟩ nestedWalks = some w ∧ w.history.getLast? = some stored ∧
      w.finished.map (fun p => p.1.calls) = [[(0, 10), (1, 12), (2, 13)], [(0, 10), (1, 12), (2, 13)]] ∧
      Refines w.table stored ∧
      (∀ p ∈ w.running, Follows w.history p.1 w.now (p.2 + 1)) ∧
      ∀ p ∈ w.finished, ∃ bound, Follows w.history p.1 p.2 bound ∧ ∀ index, bound ≤ index → storedAt w.history p.2 index = none := by
  obtain ⟨created, made, follow⟩ := walks_follow (show (1 : Int) ≤ 1 by decide) nestedWalks
  refine ⟨created, made, ?_⟩
  cases made
  obtain ⟨w, stored, ran, present, table, running, finished⟩ := follow (by
    refine guarded_step (fun _ _ _ => show (1 : Int) * 2 ≤ intMax by decide) rfl ?_
    refine guarded_step (fun _ _ _ => show (1 : Int) * 2 ≤ intMax by decide) rfl ?_
    refine guarded_step trivial rfl ?_
    refine guarded_step (fun _ _ => rfl) rfl ?_
    refine guarded_step (fun _ _ _ => show (2 : Int) * 2 ≤ intMax by decide) rfl ?_
    refine guarded_step (fun _ _ _ => show (2 : Int) * 2 ≤ intMax by decide) rfl ?_
    refine guarded_step trivial rfl ?_
    refine guarded_step (List.cons_ne_nil _ _) rfl ?_
    refine guarded_step (List.cons_ne_nil _ _) rfl ?_
    refine guarded_step (List.cons_ne_nil _ _) rfl ?_
    refine guarded_step (List.cons_ne_nil _ _) rfl ?_
    refine guarded_step (List.cons_ne_nil _ _) rfl ?_
    exact ⟨List.cons_ne_nil _ _, fun _ _ => trivial⟩)
  refine ⟨w, stored, ran, present, ?_, table, running, finished⟩
  cases ran
  rfl

end VoxiUtil.IdTableWalk
