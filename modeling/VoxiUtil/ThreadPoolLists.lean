import VoxiUtil.DoublyLinked
import VoxiUtil.Runs
import VoxiUtil.ThreadPool

/-!
The two lists of a thread pool, and the functions that its threads are in use for.
While the pool is not destroyed, each thread is on one of the lists, and the function
of a call is with the thread that the call took until this thread has called it.
-/
namespace VoxiUtil.ThreadPoolLists
open VoxiUtil.DoublyLinked VoxiUtil.Runs VoxiUtil.ThreadPool
universe u
variable {V : Type u}

section
variable {p : SThreadPool V} {t : Nat} {first start : Option Nat} {nodes others pre post : List Nat}

/-- A thread is put in front of the list that starts at `first`. -/
private theorem pushed_listed (listed : Linked p.next p.prev first nodes) (outside : t ∉ nodes) :
    Linked (Function.update p.next t first) (Function.update (p.setPrev first (some t)).prev t none) (some t)
      (t :: nodes) := by
  have apart : ∀ d ∈ nodes, d ≠ t := fun d member same => outside (same ▸ member)
  refine linked_cons listed (Function.update_self ..) (Function.update_self ..) ?_ ?_ ?_
  · intro d member
    exact Function.update_of_ne (apart d member) _ _
  · intro d isFirst
    have member : d ∈ nodes := List.mem_of_mem_head? (by simpa [isFirst] using (segment_head listed).symm)
    rw [Function.update_of_ne (apart d member), isFirst, setPrev_self]
  · intro d member later
    rw [Function.update_of_ne (apart d member), setPrev_other later]

private theorem pushed_other (listed : Linked p.next p.prev start others) (outside : t ∉ others)
    (apart : ∀ d ∈ others, first ≠ some d) :
    Linked (Function.update p.next t first) (Function.update (p.setPrev first (some t)).prev t none) start others := by
  have different : ∀ d ∈ others, d ≠ t := fun d member same => outside (same ▸ member)
  refine linked_frame (fun d member => Function.update_of_ne (different d member) _ _) ?_ listed
  intro d member
  rw [Function.update_of_ne (different d member), setPrev_other (apart d member)]

/-- The first thread of a list is in no other. -/
private theorem first_apart (listed : Linked p.next p.prev first nodes) (disjoint : ∀ d ∈ others, d ∉ nodes) :
    ∀ d ∈ others, first ≠ some d := by
  intro d member isFirst
  have head : d ∈ nodes := List.mem_of_mem_head? (by simpa [isFirst] using (segment_head listed).symm)
  exact disjoint d member head

private theorem takeFirst_listed (listed : Linked p.next p.prev p.firstAvailableThread (t :: nodes)) :
    Linked (takeFirst p t).next (takeFirst p t).prev (takeFirst p t).firstAvailableThread nodes := by
  have startIs : (takeFirst p t).firstAvailableThread = p.next t := by
    unfold takeFirst
    cases p.next t <;> rfl
  have nextIs : (takeFirst p t).next = p.next := setPrev_next _ _
  rw [startIs, nextIs]
  refine linked_tail listed (fun _ _ => rfl) ?_ ?_
  · intro d isNext
    unfold takeFirst
    rw [isNext, setPrev_self]
  · intro d _ later
    exact setPrev_other later

private theorem takeFirst_other (listed : Linked p.next p.prev p.firstAvailableThread (t :: nodes))
    (other : Linked p.next p.prev start others) (disjoint : ∀ d ∈ others, d ∉ t :: nodes) :
    Linked (takeFirst p t).next (takeFirst p t).prev start others := by
  have nextIs : (takeFirst p t).next = p.next := setPrev_next _ _
  have headIs : p.next t = nodes.head? := by simpa using segment_head listed.2.2
  rw [nextIs]
  refine linked_frame (fun _ _ => rfl) (fun d member => ?_) other
  refine setPrev_other fun isNext => disjoint d member (List.mem_cons_of_mem t ?_)
  rw [headIs] at isNext
  exact List.mem_of_mem_head? isNext

private theorem removeInUse_first (self : Nat) :
    (removeInUse p self).firstThreadInUse = if p.firstThreadInUse = some self then p.next self else p.firstThreadInUse := by
  unfold removeInUse SThreadPool.setPrev SThreadPool.setNext
  grind

private theorem removeInUse_available (self : Nat) : (removeInUse p self).firstAvailableThread = p.firstAvailableThread := by
  unfold removeInUse SThreadPool.setPrev SThreadPool.setNext
  grind

private theorem removeInUse_next (self : Nat) : (removeInUse p self).next = (p.setNext (p.prev self) (p.next self)).next := by
  unfold removeInUse
  rw [setPrev_next]
  cases p.prev self <;> rfl

private theorem removeInUse_prev {self : Nat} (apart : p.prev self ≠ some self) :
    (removeInUse p self).prev = (p.setPrev (p.next self) (p.prev self)).prev := by
  simp only [removeInUse, setNext_prev, setNext_other apart]
  cases p.next self <;> simp [SThreadPool.setPrev]

/-- A thread in use is taken off the list, and the other list stays as it is. -/
private theorem removeInUse_listed (listed : Linked p.next p.prev p.firstThreadInUse (pre ++ t :: post)) :
    Linked (removeInUse p t).next (removeInUse p t).prev (removeInUse p t).firstThreadInUse (pre ++ post) := by
  have distinct := linked_nodup listed
  have previous := (linked_middle.mp listed).2.1
  have apart : p.prev t ≠ some t := by
    rw [previous]
    intro last
    exact (List.nodup_append.mp distinct).2.2 t (List.mem_of_getLast? last) t List.mem_cons_self rfl
  rw [removeInUse_next, removeInUse_prev apart, removeInUse_first]
  refine linked_remove listed (fun same => if_pos same) (fun same => if_neg same) ?_ ?_ ?_ ?_
  · intro d isPrev
    rw [isPrev, setNext_self]
  · intro d _ other
    exact setNext_other other
  · intro d isNext
    rw [isNext, setPrev_self]
  · intro d _ other
    exact setPrev_other other

private theorem removeInUse_other (listed : Linked p.next p.prev p.firstThreadInUse (pre ++ t :: post))
    (other : Linked p.next p.prev start others) (disjoint : ∀ d ∈ others, d ∉ pre ++ t :: post) :
    Linked (removeInUse p t).next (removeInUse p t).prev start others := by
  have distinct := linked_nodup listed
  obtain ⟨_, previous, right⟩ := linked_middle.mp listed
  have following : p.next t = post.head? := by simpa using segment_head right
  have apart : p.prev t ≠ some t := by
    rw [previous]
    intro last
    exact (List.nodup_append.mp distinct).2.2 t (List.mem_of_getLast? last) t List.mem_cons_self rfl
  rw [removeInUse_next, removeInUse_prev apart]
  refine linked_frame (fun d member => setNext_other ?_) (fun d member => setPrev_other ?_) other
  · rw [previous]
    intro isLast
    exact disjoint d member (List.mem_append_left _ (List.mem_of_getLast? isLast))
  · rw [following]
    intro isHead
    exact disjoint d member (List.mem_append_right _ (List.mem_cons_of_mem t (List.mem_of_mem_head? isHead)))

end

/-- The threads on the two lists: those that are in use for no call, and the others. -/
structure Lists (p : SThreadPool V) (available inUse : List Nat) : Prop where
  linked : Linked p.next p.prev p.firstAvailableThread available
  linkedInUse : Linked p.next p.prev p.firstThreadInUse inUse
  free : ∀ t, t ∈ available ↔ t < p.created ∧ p.serves t = none
  busy : ∀ t, t ∈ inUse ↔ t < p.created ∧ p.serves t ≠ none

/-- The lists while the thread `t` is on neither, inside a section. -/
structure ListsBut (t : Nat) (p : SThreadPool V) (available inUse : List Nat) : Prop where
  linked : Linked p.next p.prev p.firstAvailableThread available
  linkedInUse : Linked p.next p.prev p.firstThreadInUse inUse
  free : ∀ u, u ∈ available ↔ u < p.created ∧ u ≠ t ∧ p.serves u = none
  busy : ∀ u, u ∈ inUse ↔ u < p.created ∧ u ≠ t ∧ p.serves u ≠ none
  made : t < p.created

section
variable {p : SThreadPool V} {t : Nat} {available inUse pre post : List Nat}

private theorem lists_disjoint (lists : Lists p available inUse) : ∀ d ∈ available, d ∉ inUse := by
  intro d first second
  exact ((lists.busy d).mp second).2 ((lists.free d).mp first).2

private theorem listsBut_disjoint (lists : ListsBut t p available inUse) : ∀ d ∈ available, d ∉ inUse := by
  intro d first second
  exact ((lists.busy d).mp second).2.2 ((lists.free d).mp first).2.2

private theorem listsBut_outside (lists : ListsBut t p available inUse) : t ∉ available ∧ t ∉ inUse :=
  ⟨fun member => ((lists.free t).mp member).2.1 rfl, fun member => ((lists.busy t).mp member).2.1 rfl⟩

private theorem takeFirst_lists (lists : Lists p (t :: available) inUse) : ListsBut t (takeFirst p t) available inUse := by
  obtain ⟨next, prev, first, firstInUse, same⟩ := relinked_takeFirst p t
  have distinct := List.nodup_cons.mp (linked_nodup lists.linked)
  have startIs : (takeFirst p t).firstThreadInUse = p.firstThreadInUse := by
    unfold takeFirst
    cases p.next t <;> rfl
  refine ⟨takeFirst_listed lists.linked, ?_, ?_, ?_, ?_⟩
  · rw [startIs]
    refine takeFirst_other lists.linked lists.linkedInUse fun d second first => ?_
    exact lists_disjoint lists d first second
  · rw [same]
    intro u
    have all := lists.free u
    rw [List.mem_cons] at all
    constructor
    · intro member
      refine ⟨(all.mp (.inr member)).1, ?_, (all.mp (.inr member)).2⟩
      rintro rfl
      exact distinct.1 member
    · rintro ⟨made, other, serves⟩
      exact (all.mpr ⟨made, serves⟩).resolve_left other
  · rw [same]
    intro u
    rw [lists.busy u]
    constructor
    · rintro ⟨made, serves⟩
      refine ⟨made, ?_, serves⟩
      rintro rfl
      exact serves ((lists.free u).mp List.mem_cons_self).2
    · rintro ⟨made, _, serves⟩
      exact ⟨made, serves⟩
  · rw [same]
    exact ((lists.free t).mp List.mem_cons_self).1

private theorem create_lists (lists : Lists p available inUse) :
    ListsBut p.created (threadPoolThreadCreate p).2 available inUse := by
  have old : ∀ d, d < p.created → d ≠ p.created := fun d made => Nat.ne_of_lt made
  have older : ∀ d q, d < p.created ∧ q ↔ d < p.created + 1 ∧ d ≠ p.created ∧ q := by
    intro d q
    constructor
    · rintro ⟨made, serves⟩
      exact ⟨Nat.lt_succ_of_lt made, old d made, serves⟩
    · rintro ⟨made, other, serves⟩
      exact ⟨Nat.lt_of_le_of_ne (Nat.le_of_lt_succ made) other, serves⟩
  refine ⟨?_, ?_, ?_, ?_, Nat.lt_succ_self _⟩
  · refine linked_frame (fun d member => ?_) (fun d member => ?_) lists.linked
    · exact Function.update_of_ne (old d ((lists.free d).mp member).1) _ _
    · exact Function.update_of_ne (old d ((lists.free d).mp member).1) _ _
  · refine linked_frame (fun d member => ?_) (fun d member => ?_) lists.linkedInUse
    · exact Function.update_of_ne (old d ((lists.busy d).mp member).1) _ _
    · exact Function.update_of_ne (old d ((lists.busy d).mp member).1) _ _
  · intro u
    rw [lists.free u]
    exact older u _
  · intro u
    rw [lists.busy u]
    exact older u _

private theorem handOut_lists (lists : ListsBut t p available inUse) : Lists (handOut p t) available (t :: inUse) := by
  obtain ⟨outside, outsideInUse⟩ := listsBut_outside lists
  have nextIs : (handOut p t).next = Function.update p.next t p.firstThreadInUse := by
    simp only [handOut, addInUse, setPrev_next]
  have startIs : (handOut p t).firstAvailableThread = p.firstAvailableThread := by
    simp only [handOut, addInUse, SThreadPool.setPrev]
    cases p.firstThreadInUse <;> rfl
  have createdIs : (handOut p t).created = p.created := by
    obtain ⟨_, _, _, _, same⟩ := relinked_addInUse p t
    simp only [handOut, same]
  refine ⟨?_, ?_, ?_, ?_⟩
  · rw [nextIs, startIs]
    exact pushed_other lists.linked outside (first_apart lists.linkedInUse (listsBut_disjoint lists))
  · rw [nextIs]
    exact pushed_listed lists.linkedInUse outsideInUse
  · intro u
    rw [lists.free u, createdIs]
    change _ ↔ _ ∧ Function.update p.serves t (some p.calls) u = none
    by_cases same : u = t
    · simp [same]
    · simp [same]
  · intro u
    rw [List.mem_cons, lists.busy u, createdIs]
    change _ ↔ _ ∧ Function.update p.serves t (some p.calls) u ≠ none
    by_cases same : u = t
    · simp [same, lists.made]
    · simp [same]

private theorem removeInUse_lists (lists : Lists p available (pre ++ t :: post)) :
    ListsBut t (removeInUse p t) available (pre ++ post) := by
  obtain ⟨next, prev, first, firstInUse, same⟩ := relinked_removeInUse p t
  have distinct := List.perm_middle.nodup_iff.mp (linked_nodup lists.linkedInUse)
  have mine := (lists.busy t).mp (List.mem_append_right pre List.mem_cons_self)
  refine ⟨?_, removeInUse_listed lists.linkedInUse, ?_, ?_, ?_⟩
  · rw [removeInUse_available]
    exact removeInUse_other lists.linkedInUse lists.linked (lists_disjoint lists)
  · rw [same]
    intro u
    rw [lists.free u]
    constructor
    · rintro ⟨made, serves⟩
      refine ⟨made, ?_, serves⟩
      rintro rfl
      exact mine.2 serves
    · rintro ⟨made, _, serves⟩
      exact ⟨made, serves⟩
  · rw [same]
    intro u
    have all := lists.busy u
    rw [List.perm_middle.mem_iff, List.mem_cons] at all
    constructor
    · intro member
      refine ⟨(all.mp (.inr member)).1, ?_, (all.mp (.inr member)).2⟩
      rintro rfl
      exact (List.nodup_cons.mp distinct).1 member
    · rintro ⟨made, other, serves⟩
      exact (all.mpr ⟨made, serves⟩).resolve_left other
  · rw [same]
    exact mine.1

/-- A thread puts itself back on the list of available threads. -/
private theorem makeAvailable_lists (lists : ListsBut t p available inUse) (place : Place) :
    Lists ({ threadPoolMakeAvailable p t with serves := Function.update p.serves t none }.goto t place)
      (t :: available) inUse := by
  obtain ⟨outside, outsideInUse⟩ := listsBut_outside lists
  have nextIs : (threadPoolMakeAvailable p t).next = Function.update p.next t p.firstAvailableThread := by
    simp only [threadPoolMakeAvailable, setPrev_next]
  have startIs : (threadPoolMakeAvailable p t).firstThreadInUse = p.firstThreadInUse := by
    simp only [threadPoolMakeAvailable, SThreadPool.setPrev]
    cases p.firstAvailableThread <;> rfl
  have createdIs : (threadPoolMakeAvailable p t).created = p.created := by
    obtain ⟨_, _, _, _, same⟩ := relinked_makeAvailable p t
    rw [same]
  refine ⟨?_, ?_, ?_, ?_⟩
  · change Linked (threadPoolMakeAvailable p t).next (threadPoolMakeAvailable p t).prev _ _
    rw [nextIs]
    exact pushed_listed lists.linked outside
  · change Linked (threadPoolMakeAvailable p t).next (threadPoolMakeAvailable p t).prev
      (threadPoolMakeAvailable p t).firstThreadInUse _
    rw [nextIs, startIs]
    refine pushed_other lists.linkedInUse outsideInUse (first_apart lists.linked fun d second first => ?_)
    exact listsBut_disjoint lists d first second
  · intro u
    change _ ↔ u < (threadPoolMakeAvailable p t).created ∧ Function.update p.serves t none u = none
    rw [List.mem_cons, lists.free u, createdIs]
    by_cases same : u = t
    · simp [same, lists.made]
    · simp [same]
  · intro u
    change _ ↔ u < (threadPoolMakeAvailable p t).created ∧ Function.update p.serves t none u ≠ none
    rw [lists.busy u, createdIs]
    by_cases same : u = t
    · simp [same]
    · simp [same]

/-- What `threadPool_runThread` does with a pool that is not destroyed: it returns an
    error, or it hands out an available thread or a new one. -/
theorem runThread_cases {p' : SThreadPool V} {created : Bool} {error : Option String} (running : p.isShuttingDown = false)
    (ran : threadPoolRunThread p created = some (p', error)) :
    (p' = p ∧ error ≠ none) ∨
    (∃ t, error = none ∧ p.firstAvailableThread = some t ∧ p' = handOut (takeFirst p t) t) ∨
    (error = none ∧ p' = handOut (threadPoolThreadCreate p).2 p.created) := by
  obtain ⟨_, ran⟩ := Option.ite_none_left_eq_some.mp ran
  rw [if_neg (by simp [running])] at ran
  split at ran
  · split at ran
    · cases ran
      exact .inr (.inr ⟨rfl, rfl⟩)
    · cases ran
      exact .inl ⟨rfl, by simp⟩
  · rename_i t first
    cases ran
    exact .inr (.inl ⟨t, rfl, first, rfl⟩)

/-- An available thread that is handed out. -/
theorem handOut_available (lists : Lists p available inUse) (first : p.firstAvailableThread = some t) :
    ∃ rest, available = t :: rest ∧ Lists (handOut (takeFirst p t) t) rest (t :: inUse) := by
  cases available with
  | nil =>
    have null : p.firstAvailableThread = none := lists.linked
    rw [null] at first
    cases first
  | cons u rest =>
    obtain rfl : t = u := Option.some.inj (first.symm.trans lists.linked.1)
    exact ⟨rest, rfl, handOut_lists (takeFirst_lists lists)⟩

/-- A new thread that is handed out. -/
theorem handOut_created (lists : Lists p available inUse) :
    Lists (handOut (threadPoolThreadCreate p).2 p.created) available (p.created :: inUse) :=
  handOut_lists (create_lists lists)

/-- A thread in use that comes back to a pool that is not destroyed. -/
theorem returnToPool_lists (lists : Lists p available inUse) (running : p.isShuttingDown = false) (mine : t ∈ inUse) :
    ∃ rest, returnToPool p t = { threadPoolMakeAvailable (removeInUse p t) t with
        serves := Function.update p.serves t none }.goto t .testAgain ∧
      Lists (returnToPool p t) (t :: available) rest := by
  obtain ⟨pre, post, rfl⟩ := List.append_of_mem mine
  have some : p.firstThreadInUse ≠ none := by
    intro null
    have head := segment_head lists.linkedInUse
    rw [null] at head
    cases pre <;> cases head
  have servesIs : (removeInUse p t).serves = p.serves := by
    obtain ⟨_, _, _, _, same⟩ := relinked_removeInUse p t
    rw [same]
  have result : returnToPool p t = { threadPoolMakeAvailable (removeInUse p t) t with
      serves := Function.update p.serves t none }.goto t .testAgain := by
    rw [returnToPool, if_neg (by simp [running]), if_neg some]
  refine ⟨pre ++ post, result, ?_⟩
  rw [result, ← servesIs]
  exact makeAvailable_lists (removeInUse_lists lists) _

/-- A new pool, with what else is known of its threads. -/
theorem create_pool_lists (isDetached : Bool) (initialSize : Nat) :
    (∃ available, Lists (threadPoolCreate isDetached initialSize : SThreadPool V) available []) ∧
      (threadPoolCreate isDetached initialSize : SThreadPool V).serves = fun _ => none := by
  induction initialSize with
  | zero => exact ⟨⟨[], rfl, rfl, by simp [threadPoolCreate, empty], by simp [threadPoolCreate, empty]⟩, rfl⟩
  | succ initialSize ih =>
    obtain ⟨⟨available, lists⟩, idle⟩ := ih
    have made := makeAvailable_lists (create_lists lists) .lockStart
    rw [threadPoolCreate]
    obtain ⟨next, prev, first, firstInUse, same⟩ := relinked_makeAvailable
      (threadPoolThreadCreate (threadPoolCreate isDetached initialSize : SThreadPool V)).2
      (threadPoolThreadCreate (threadPoolCreate isDetached initialSize : SThreadPool V)).1
    have serves : (threadPoolMakeAvailable (threadPoolThreadCreate (threadPoolCreate isDetached initialSize : SThreadPool V)).2
        (threadPoolThreadCreate (threadPoolCreate isDetached initialSize : SThreadPool V)).1).serves = fun _ => none := by
      rw [same]
      exact idle
    refine ⟨⟨_, made.linked, made.linkedInUse, fun u => ?_, fun u => ?_⟩, serves⟩
    · rw [made.free u, serves]
      change _ ∧ Function.update (threadPoolCreate isDetached initialSize : SThreadPool V).serves _ none u = none ↔ _
      rw [idle, Function.update_apply, ite_self]
      exact Iff.rfl
    · rw [made.busy u, serves]
      change _ ∧ Function.update (threadPoolCreate isDetached initialSize : SThreadPool V).serves _ none u ≠ none ↔ _
      rw [idle, Function.update_apply, ite_self]
      exact Iff.rfl

end

end VoxiUtil.ThreadPoolLists
