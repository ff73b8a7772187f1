import Mathlib.Data.List.Nodup
import Mathlib.Data.List.Perm.Subperm
import VoxiUtil.SinglyLinked

/-!
The list of a blocking queue (`queue.c`): what its functions do while they hold the
queue's mutex. A failed assertion and the use of an entry that was freed give `none`.
-/
namespace VoxiUtil.Queue
open VoxiUtil.SinglyLinked
universe u

/-- A queue (`sQueue`), and the entries (`sQueueEntry`) that are allocated. -/
structure SQueue (α : Type u) where
  semaphore : Nat
  oldest : Option Nat
  newest : Option Nat
  entries : List Nat
  newer : Nat → Option Nat
  userData : Nat → α

section
variable {α : Type u}

/-- `queue_create`, over memory that holds anything. -/
def queueCreate (newer : Nat → Option Nat) (userData : Nat → α) : SQueue α where
  semaphore := 0
  oldest := none
  newest := none
  entries := []
  newer := newer
  userData := userData

/-- `emalloc` of an entry, whose link is not set yet, and its user data. -/
def allocate (queue : SQueue α) (element : Nat) (unset : Option Nat) (userElement : α) : SQueue α :=
  { queue with
    entries := element :: queue.entries
    newer := Function.update queue.newer element unset
    userData := Function.update queue.userData element userElement }

def free (queue : SQueue α) (element : Nat) : SQueue α := { queue with entries := queue.entries.erase element }

/-- The loop of `validate`: the entry where the links end. -/
def lastEntry (queue : SQueue α) : Nat → Nat → Option Nat
  | 0, _ => none
  | fuel + 1, element =>
    if element ∈ queue.entries then
      match queue.newer element with
      | none => some element
      | some newer => lastEntry queue fuel newer
    else none

/-- `validate`. -/
def validate (queue : SQueue α) : Bool :=
  match queue.oldest with
  | none => queue.newest.isNone
  | some oldest =>
    match lastEntry queue queue.entries.length oldest with
    | none => false
    | some element => queue.newest == some element && (queue.newer element).isNone

/-- The branch of `queue_push` that links the entry. -/
def linkEntry (queue : SQueue α) (element : Nat) : Option (SQueue α) :=
  match queue.newest with
  | none => if queue.oldest = none then some { queue with oldest := some element } else none
  | some newest =>
    if newest ∈ queue.entries then some { queue with newer := Function.update queue.newer newest (some element) }
    else none

/-- `queue_push` while it holds the mutex. -/
def queuePush (queue : SQueue α) (element : Nat) : Option (SQueue α) :=
  if validate queue = true ∧ element ∈ queue.entries then
    (linkEntry { queue with newer := Function.update queue.newer element none } element).bind fun linked =>
      let pushed := { linked with newest := some element }
      if validate pushed = true then some pushed else none
  else none

/-- The branch of `doPop` that takes the oldest entry out. -/
def unlinkEntry (queue : SQueue α) (element : Nat) : Option (SQueue α) :=
  if queue.newer element = none then
    if queue.newest = some element then some { queue with oldest := none, newest := none } else none
  else some { queue with oldest := queue.newer element }

/-- `doPop`. -/
def doPop (queue : SQueue α) : Option (Nat × SQueue α) :=
  if validate queue = true ∧ queue.newest ≠ none then
    match queue.oldest with
    | none => none
    | some element =>
      if element ∈ queue.entries then
        (unlinkEntry queue element).bind fun popped =>
          if validate popped = true then some (element, popped) else none
      else none
  else none

/-- `queue_poll`. -/
def queuePoll (queue : SQueue α) : Bool := queue.newest.isSome

/-- The entries that are in the queue, from the oldest to the newest. -/
structure Listing (queue : SQueue α) (nodes : List Nat) : Prop where
  chain : Chain queue.newer queue.oldest nodes
  newest : queue.newest = nodes.getLast?
  distinct : nodes.Nodup
  allocated : ∀ element ∈ nodes, element ∈ queue.entries

/-- Two states of a queue that differ at most in its list. -/
structure SameEntries (next queue : SQueue α) : Prop where
  semaphore : next.semaphore = queue.semaphore
  entries : next.entries = queue.entries
  userData : next.userData = queue.userData

variable {queue : SQueue α} {nodes rest : List Nat} {element : Nat}

theorem lastEntry_chain {start : Nat} {fuel : Nat} (chain : Chain queue.newer (some start) nodes)
    (allocated : ∀ element ∈ nodes, element ∈ queue.entries) (enough : nodes.length ≤ fuel) :
    lastEntry queue fuel start = nodes.getLast? := by
  induction nodes generalizing start fuel with
  | nil => cases chain
  | cons c rest ih =>
    obtain ⟨first, later⟩ := chain
    cases first
    cases fuel with
    | zero => cases enough
    | succ fuel =>
      rw [lastEntry, if_pos (allocated c List.mem_cons_self)]
      cases rest with
      | nil =>
        rw [show queue.newer c = none from later]
        rfl
      | cons d more =>
        have next : queue.newer c = some d := later.1
        rw [next] at later ⊢
        rw [List.getLast?_cons_cons]
        apply ih later
        · intro e member
          exact allocated e (List.mem_cons_of_mem c member)
        · exact Nat.le_of_succ_le_succ enough

/-- The links end at the last entry. -/
theorem chain_last {newer : Nat → Option Nat} {start : Option Nat} {last : Nat} (chain : Chain newer start nodes)
    (ends : nodes.getLast? = some last) : newer last = none := by
  induction nodes generalizing start with
  | nil => cases ends
  | cons c rest ih =>
    cases rest with
    | nil =>
      cases ends
      exact chain.2
    | cons d more =>
      rw [List.getLast?_cons_cons] at ends
      exact ih chain.2 ends

theorem Listing.valid (listing : Listing queue nodes) : validate queue = true := by
  unfold validate
  have chain := listing.chain
  cases start : queue.oldest with
  | none =>
    rw [start] at chain
    have empty : nodes = [] := by
      have first := chain_start chain
      cases nodes with
      | nil => rfl
      | cons c rest => cases first
    simp [listing.newest, empty]
  | some oldest =>
    rw [start] at chain
    have enough : nodes.length ≤ queue.entries.length := (listing.distinct.subperm listing.allocated).length_le
    have walked := lastEntry_chain chain listing.allocated enough
    cases ends : nodes.getLast? with
    | none =>
      rw [List.getLast?_eq_none_iff] at ends
      subst ends
      cases chain
    | some last => simp [walked, listing.newest, ends, chain_last chain ends]

/-- The section of `queue_push` puts the entry behind all others. -/
theorem queuePush_listing (listing : Listing queue nodes) (allocated : element ∈ queue.entries) (outside : element ∉ nodes) :
    ∃ next, queuePush queue element = some next ∧ Listing next (nodes ++ [element]) ∧ SameEntries next queue := by
  let cleared : SQueue α := { queue with newer := Function.update queue.newer element none }
  have frame : Chain cleared.newer queue.oldest nodes := by
    apply chain_frame _ listing.chain
    intro c member
    have other : c ≠ element := by
      rintro rfl
      exact outside member
    exact Function.update_of_ne other none queue.newer
  have null : cleared.newer element = none := Function.update_self element none queue.newer
  have distinct : (nodes ++ [element]).Nodup := by
    rw [List.nodup_append]
    refine ⟨listing.distinct, List.nodup_singleton element, ?_⟩
    rintro c member d last rfl
    rw [List.mem_singleton.mp last] at member
    exact outside member
  have known : ∀ c ∈ nodes ++ [element], c ∈ queue.entries := by
    intro c member
    rcases List.mem_append.mp member with earlier | last
    · exact listing.allocated c earlier
    · rw [List.mem_singleton.mp last]
      exact allocated
  have linked : ∃ linked, linkEntry cleared element = some linked ∧
      Listing { linked with newest := some element } (nodes ++ [element]) ∧
      SameEntries { linked with newest := some element } queue := by
    unfold linkEntry
    cases ends : nodes.getLast? with
    | none =>
      have empty : nodes = [] := List.getLast?_eq_none_iff.mp ends
      subst empty
      have alone : cleared.newest = none := listing.newest
      have start : cleared.oldest = none := listing.chain
      simp only [alone, start]
      exact ⟨_, rfl, ⟨⟨rfl, null⟩, by simp, distinct, known⟩, rfl, rfl, rfl⟩
    | some last =>
      have newest : cleared.newest = some last := listing.newest.trans ends
      have member : last ∈ cleared.entries := listing.allocated last (List.mem_of_getLast? ends)
      simp only [newest, if_pos member]
      exact ⟨_, rfl, ⟨chain_snoc frame listing.distinct ends outside null, by simp, distinct, known⟩, rfl, rfl, rfl⟩
  obtain ⟨next, stepped, pushed, same⟩ := linked
  refine ⟨{ next with newest := some element }, ?_, pushed, same⟩
  rw [queuePush, if_pos ⟨listing.valid, allocated⟩, stepped, Option.bind_some]
  exact if_pos pushed.valid

/-- `doPop` takes the oldest entry out. -/
theorem doPop_listing (listing : Listing queue (element :: rest)) :
    ∃ next, doPop queue = some (element, next) ∧ Listing next rest ∧ SameEntries next queue := by
  have start : queue.oldest = some element := listing.chain.1
  have later : Chain queue.newer (queue.newer element) rest := listing.chain.2
  have allocated : element ∈ queue.entries := listing.allocated element List.mem_cons_self
  have distinct : rest.Nodup := (List.nodup_cons.mp listing.distinct).2
  have known : ∀ c ∈ rest, c ∈ queue.entries := fun c member => listing.allocated c (List.mem_cons_of_mem element member)
  have any : queue.newest ≠ none := by
    rw [listing.newest]
    simp
  have unlinked : ∃ popped, unlinkEntry queue element = some popped ∧ Listing popped rest ∧ SameEntries popped queue := by
    unfold unlinkEntry
    cases rest with
    | nil =>
      have null : queue.newer element = none := later
      have newest : queue.newest = some element := listing.newest
      rw [if_pos null, if_pos newest]
      exact ⟨_, rfl, ⟨rfl, rfl, distinct, known⟩, rfl, rfl, rfl⟩
    | cons d more =>
      have next : queue.newer element = some d := later.1
      rw [if_neg (by simp [next])]
      have newest : queue.newest = (d :: more).getLast? := by rw [listing.newest, List.getLast?_cons_cons]
      exact ⟨_, rfl, ⟨later, newest, distinct, known⟩, rfl, rfl, rfl⟩
  obtain ⟨popped, stepped, shorter, same⟩ := unlinked
  refine ⟨popped, ?_, shorter, same⟩
  rw [doPop, if_pos ⟨listing.valid, any⟩]
  simp only [start, if_pos allocated, stepped, Option.bind_some, if_pos shorter.valid]

theorem Listing.poll (listing : Listing queue nodes) : queuePoll queue = true ↔ nodes ≠ [] := by
  rw [queuePoll, listing.newest]
  cases nodes <;> simp

/-- An entry outside the list changes. -/
theorem Listing.frame {next : SQueue α} (listing : Listing queue nodes) (oldest : next.oldest = queue.oldest)
    (newest : next.newest = queue.newest) (newer : ∀ element ∈ nodes, next.newer element = queue.newer element)
    (allocated : ∀ element ∈ nodes, element ∈ next.entries) : Listing next nodes where
  chain := by
    rw [oldest]
    exact chain_frame newer listing.chain
  newest := newest.trans listing.newest
  distinct := listing.distinct
  allocated := allocated

end

end VoxiUtil.Queue
