import Mathlib.Data.List.Basic
import Mathlib.Logic.Function.Basic

/-!
Doubly linked lists in a heap, given by what `next` and `prev` hold at each
node. `Segment` reads the nodes from a start pointer to a stop pointer and fixes
the back pointer of each; `Linked` is a whole list, ended by the null pointer.
-/
namespace VoxiUtil.DoublyLinked
universe u
variable {κ : Type u} {next prev : κ → Option κ}

/-- The nodes from `start` up to the pointer `stop`, where `before` is the node
    in front of the first. -/
def Segment (next prev : κ → Option κ) (before start : Option κ) : List κ → Option κ → Prop
  | [], stop => start = stop
  | c :: rest, stop => start = some c ∧ prev c = before ∧ Segment next prev (some c) (next c) rest stop

/-- A whole doubly linked list, whose first node has no predecessor. -/
def Linked (next prev : κ → Option κ) (start : Option κ) (nodes : List κ) : Prop :=
  Segment next prev none start nodes none

theorem segment_append {before start stop : Option κ} {first second : List κ} :
    Segment next prev before start (first ++ second) stop ↔
      ∃ middle, Segment next prev before start first middle ∧
        Segment next prev (first.getLast?.or before) middle second stop := by
  induction first generalizing before start with
  | nil => simp [Segment]
  | cons c rest ih =>
    have last : (c :: rest).getLast?.or before = rest.getLast?.or (some c) := by
      cases rest with
      | nil => rfl
      | cons d more =>
        rw [List.getLast?_cons_cons]
        cases found : (d :: more).getLast? with
        | none => simp at found
        | some e => rfl
    simp only [List.cons_append, Segment, ih, last]
    constructor
    · rintro ⟨head, back, middle, left, right⟩; exact ⟨middle, ⟨head, back, left⟩, right⟩
    · rintro ⟨middle, ⟨head, back, left⟩, right⟩; exact ⟨head, back, middle, left, right⟩

/-- A segment depends on the pointers of its own nodes only. -/
theorem segment_frame {next' prev' : κ → Option κ} {before start stop : Option κ} {nodes : List κ}
    (sameNext : ∀ c ∈ nodes, next' c = next c) (samePrev : ∀ c ∈ nodes, prev' c = prev c)
    (segment : Segment next prev before start nodes stop) : Segment next' prev' before start nodes stop := by
  induction nodes generalizing before start with
  | nil => exact segment
  | cons c rest ih =>
    obtain ⟨head, back, tail⟩ := segment
    refine ⟨head, (samePrev c (by simp)).trans back, ?_⟩
    rw [sameNext c (by simp)]
    exact ih (fun d member => sameNext d (by simp [member])) (fun d member => samePrev d (by simp [member])) tail

theorem linked_frame {next' prev' : κ → Option κ} {start : Option κ} {nodes : List κ}
    (sameNext : ∀ c ∈ nodes, next' c = next c) (samePrev : ∀ c ∈ nodes, prev' c = prev c)
    (linked : Linked next prev start nodes) : Linked next' prev' start nodes :=
  segment_frame sameNext samePrev linked

/-- The start pointer determines the nodes of a list. -/
theorem segment_unique {before before' start : Option κ} {first second : List κ}
    (left : Segment next prev before start first none) (right : Segment next prev before' start second none) :
    first = second := by
  induction first generalizing before before' start second with
  | nil =>
    cases second with
    | nil => rfl
    | cons d more => obtain ⟨head, _⟩ := right; rw [left] at head; cases head
  | cons c rest ih =>
    obtain ⟨head, _, tail⟩ := left
    cases second with
    | nil => rw [right] at head; cases head
    | cons d more =>
      obtain ⟨head', _, tail'⟩ := right
      cases Option.some.inj (head.symm.trans head')
      rw [ih tail tail']

/-- A list that ends passes no node twice. -/
theorem segment_nodup {before start : Option κ} {nodes : List κ}
    (segment : Segment next prev before start nodes none) : nodes.Nodup := by
  induction nodes generalizing before start with
  | nil => exact List.nodup_nil
  | cons c rest ih =>
    obtain ⟨_, _, tail⟩ := segment
    refine List.nodup_cons.mpr ⟨?_, ih tail⟩
    intro again
    -- The nodes after a second visit of `c` would be all the nodes after the first.
    obtain ⟨pre, post, split⟩ := List.append_of_mem again
    have whole := tail
    rw [split] at whole
    obtain ⟨_, _, head, _, after⟩ := segment_append.mp whole
    have same := segment_unique tail after
    have lengths := congrArg List.length (same.symm.trans split)
    simp at lengths
    omega

theorem linked_nodup {start : Option κ} {nodes : List κ} (linked : Linked next prev start nodes) : nodes.Nodup :=
  segment_nodup linked

/-- The pointers around a node inside a list. -/
theorem linked_middle {start : Option κ} {pre post : List κ} {c : κ} :
    Linked next prev start (pre ++ c :: post) ↔
      Segment next prev none start pre (some c) ∧ prev c = pre.getLast? ∧
        Segment next prev (some c) (next c) post none := by
  rw [Linked, segment_append]
  constructor
  · rintro ⟨middle, left, head, back, right⟩
    subst head
    exact ⟨left, by simpa using back, right⟩
  · rintro ⟨left, back, right⟩
    exact ⟨some c, left, rfl, by simpa using back, right⟩

theorem segment_head {before start stop : Option κ} {nodes : List κ}
    (segment : Segment next prev before start nodes stop) : start = nodes.head?.or stop := by
  cases nodes with
  | nil => simpa [Segment] using segment
  | cons c rest => simpa using segment.1

/-- No pointer of a list leads out of it. -/
theorem linked_inside {start : Option κ} {nodes : List κ} (linked : Linked next prev start nodes) :
    (∀ d, start = some d → d ∈ nodes) ∧
      ∀ c ∈ nodes, (∀ d, prev c = some d → d ∈ nodes) ∧ ∀ d, next c = some d → d ∈ nodes := by
  constructor
  · intro d startIs
    have head : start = nodes.head? := by simpa using segment_head linked
    exact List.mem_of_mem_head? (head.symm.trans startIs)
  · intro c member
    obtain ⟨pre, post, rfl⟩ := List.append_of_mem member
    obtain ⟨_, back, right⟩ := linked_middle.mp linked
    have forward : next c = post.head? := by simpa using segment_head right
    constructor
    · intro d prevIs
      exact List.mem_append_left _ (List.mem_of_getLast? (back.symm.trans prevIs))
    · intro d nextIs
      exact List.mem_append_right _ (List.mem_cons_of_mem _ (List.mem_of_mem_head? (forward.symm.trans nextIs)))

/-- A segment moved behind another node: only the first node's back pointer changes. -/
theorem segment_rebase {next' prev' : κ → Option κ} {before before' start stop : Option κ} {nodes : List κ}
    (sameNext : ∀ d ∈ nodes, next' d = next d) (headBack : ∀ d, nodes.head? = some d → prev' d = before')
    (samePrev : ∀ d ∈ nodes.tail, prev' d = prev d) (segment : Segment next prev before start nodes stop) :
    Segment next' prev' before' start nodes stop := by
  cases nodes with
  | nil => exact segment
  | cons c rest =>
    obtain ⟨head, _, tail⟩ := segment
    refine ⟨head, headBack c rfl, ?_⟩
    rw [sameNext c (by simp)]
    exact segment_frame (fun d member => sameNext d (by simp [member])) samePrev tail

/-- A new first node. -/
theorem linked_cons {next' prev' : κ → Option κ} {start : Option κ} {nodes : List κ} {c : κ}
    (linked : Linked next prev start nodes) (nextNew : next' c = start) (prevNew : prev' c = none)
    (sameNext : ∀ d ∈ nodes, next' d = next d) (headBack : ∀ d, start = some d → prev' d = some c)
    (samePrev : ∀ d ∈ nodes, start ≠ some d → prev' d = prev d) : Linked next' prev' (some c) (c :: nodes) := by
  have headIs : start = nodes.head? := by simpa using segment_head linked
  have distinct := linked_nodup linked
  refine ⟨rfl, prevNew, ?_⟩
  rw [nextNew]
  refine segment_rebase sameNext (fun d head => headBack d (headIs.trans head)) ?_ linked
  intro d member
  refine samePrev d (List.mem_of_mem_tail member) ?_
  rw [headIs]
  intro head
  cases nodes with
  | nil => cases head
  | cons e rest => cases head; exact (List.nodup_cons.mp distinct).1 member

/-- The list without its first node. -/
theorem linked_tail {next' prev' : κ → Option κ} {start : Option κ} {nodes : List κ} {c : κ}
    (linked : Linked next prev start (c :: nodes)) (sameNext : ∀ d ∈ nodes, next' d = next d)
    (headBack : ∀ d, next c = some d → prev' d = none) (samePrev : ∀ d ∈ nodes, next c ≠ some d → prev' d = prev d) :
    Linked next' prev' (next c) nodes := by
  obtain ⟨_, _, tail⟩ := linked
  have headIs : next c = nodes.head? := by simpa using segment_head tail
  have distinct := segment_nodup tail
  refine segment_rebase sameNext (fun d head => headBack d (headIs.trans head)) ?_ tail
  intro d member
  refine samePrev d (List.mem_of_mem_tail member) ?_
  rw [headIs]
  intro head
  cases nodes with
  | nil => cases head
  | cons e rest => cases head; exact (List.nodup_cons.mp distinct).1 member

/-- The list without its last node, which is not its first. -/
theorem linked_init {next' prev' : κ → Option κ} {start : Option κ} {nodes : List κ} {p c : κ}
    (linked : Linked next prev start (nodes ++ p :: [c])) (cut : next' p = none)
    (sameNext : ∀ d ∈ nodes, next' d = next d) (samePrev : ∀ d ∈ nodes ++ [p], prev' d = prev d) :
    Linked next' prev' start (nodes ++ [p]) := by
  obtain ⟨left, back, _⟩ := linked_middle.mp linked
  refine linked_middle.mpr ⟨?_, ?_, cut⟩
  · exact segment_frame sameNext (fun d member => samePrev d (by simp [member])) left
  · rw [samePrev p (by simp), back]

/-- The list without one of its nodes, whose neighbours are linked with each other. -/
theorem linked_remove {next' prev' : κ → Option κ} {start start' : Option κ} {pre post : List κ} {c : κ}
    (linked : Linked next prev start (pre ++ c :: post)) (first : start = some c → start' = next c)
    (sameFirst : start ≠ some c → start' = start)
    (gapNext : ∀ d, prev c = some d → next' d = next c) (sameNext : ∀ d ∈ pre ++ post, prev c ≠ some d → next' d = next d)
    (gapPrev : ∀ d, next c = some d → prev' d = prev c) (samePrev : ∀ d ∈ pre ++ post, next c ≠ some d → prev' d = prev d) :
    Linked next' prev' start' (pre ++ post) := by
  have distinct := linked_nodup linked
  obtain ⟨left, back, right⟩ := linked_middle.mp linked
  have following : next c = post.head? := by simpa using segment_head right
  have apart : ∀ d ∈ pre, d ≠ c ∧ d ∉ post := by
    intro d member
    have different := (List.nodup_append.mp distinct).2.2 d member
    exact ⟨different c List.mem_cons_self, fun later => different d (List.mem_cons_of_mem c later) rfl⟩
  have notFollowing : ∀ d ∈ pre, next c ≠ some d := by
    intro d member same
    rw [following] at same
    exact (apart d member).2 (List.mem_of_mem_head? same)
  refine segment_append.mpr ⟨next c, ?_, ?_⟩
  · rcases List.eq_nil_or_concat' pre with rfl | ⟨front, q, rfl⟩
    · exact first left
    · have firstIs := segment_head left
      have notFirst : start ≠ some c := by
        intro same
        rw [same] at firstIs
        have member : c ∈ front ++ [q] := by
          apply List.mem_of_mem_head?
          cases front <;> simpa using firstIs.symm
        exact (apart c member).1 rfl
      have previous : prev c = some q := by simpa using back
      obtain ⟨middle, front', head, backq, nextq⟩ := segment_append.mp left
      have frontApart : ∀ d ∈ front, d ≠ q := by
        intro d member
        exact (List.nodup_append.mp (List.nodup_append.mp distinct).1).2.2 d member q List.mem_cons_self
      rw [sameFirst notFirst]
      refine segment_append.mpr ⟨middle, ?_, head, ?_, gapNext q previous⟩
      · refine segment_frame (fun d member => sameNext d (by simp [member]) ?_)
          (fun d member => samePrev d (by simp [member]) (notFollowing d (by simp [member]))) front'
        rw [previous]
        intro same
        exact frontApart d member (Option.some.inj same).symm
      · rw [samePrev q (by simp) (notFollowing q (by simp)), backq]
  · refine segment_rebase (fun d member => sameNext d (by simp [member]) ?_) ?_ ?_ right
    · rw [back]
      intro same
      exact (apart d (List.mem_of_getLast? same)).2 member
    · intro d head
      rw [gapPrev d (following.trans head), back, Option.or_none]
    · intro d member
      refine samePrev d (List.mem_append_right pre (List.mem_of_mem_tail member)) ?_
      rw [following]
      intro head
      cases post with
      | nil => cases head
      | cons e rest =>
        cases head
        have tailDistinct := (List.nodup_cons.mp (List.nodup_append.mp distinct).2.1).2
        exact (List.nodup_cons.mp tailDistinct).1 member

/-- The list with a new node somewhere in it. -/
theorem linked_insert {next' prev' : κ → Option κ} {start start' : Option κ} {pre post : List κ} {c : κ}
    (linked : Linked next prev start (pre ++ post)) (nextNew : next' c = post.head?) (prevNew : prev' c = pre.getLast?)
    (first : pre = [] → start' = some c) (sameFirst : pre ≠ [] → start' = start)
    (gapNext : ∀ d, pre.getLast? = some d → next' d = some c)
    (sameNext : ∀ d ∈ pre ++ post, pre.getLast? ≠ some d → next' d = next d)
    (gapPrev : ∀ d, post.head? = some d → prev' d = some c)
    (samePrev : ∀ d ∈ pre ++ post, post.head? ≠ some d → prev' d = prev d) :
    Linked next' prev' start' (pre ++ c :: post) := by
  have distinct := linked_nodup linked
  obtain ⟨middle, left, right⟩ := segment_append.mp linked
  have apart : ∀ d ∈ pre, d ∉ post := fun d member later => (List.nodup_append.mp distinct).2.2 d member d later rfl
  have following : middle = post.head? := by simpa using segment_head right
  have notFollowing : ∀ d ∈ pre, post.head? ≠ some d := fun d member same => apart d member (List.mem_of_mem_head? same)
  have notPrevious : ∀ d ∈ post, pre.getLast? ≠ some d := fun d member same => apart d (List.mem_of_getLast? same) member
  refine linked_middle.mpr ⟨?_, prevNew, ?_⟩
  · rcases List.eq_nil_or_concat' pre with rfl | ⟨front, q, rfl⟩
    · exact first rfl
    · rw [sameFirst (by simp)]
      obtain ⟨place, front', head, back, -⟩ := segment_append.mp left
      have frontApart : ∀ d ∈ front, d ≠ q := by
        intro d member
        exact (List.nodup_append.mp (List.nodup_append.mp distinct).1).2.2 d member q List.mem_cons_self
      refine segment_append.mpr ⟨place, ?_, head, ?_, gapNext q (by simp)⟩
      · refine segment_frame (fun d member => sameNext d (by simp [member]) ?_)
          (fun d member => samePrev d (by simp [member]) (notFollowing d (by simp [member]))) front'
        intro same
        exact frontApart d member (by simpa using same.symm)
      · rw [samePrev q (by simp) (notFollowing q (by simp)), back]
  · rw [nextNew, ← following]
    refine segment_rebase (fun d member => sameNext d (by simp [member]) (notPrevious d member)) gapPrev ?_ right
    intro d member
    refine samePrev d (List.mem_append_right pre (List.mem_of_mem_tail member)) ?_
    intro head
    cases post with
    | nil => cases head
    | cons e rest =>
      cases head
      exact (List.nodup_cons.mp (List.nodup_append.mp distinct).2.1).1 member

end VoxiUtil.DoublyLinked
