import VoxiUtil.Queue
import VoxiUtil.Runs
import VoxiUtil.Tally
import VoxiUtil.Tickets

/-!
Any number of threads on one blocking queue. The queue's semaphore is posted after an
entry was linked and waited for before one is unlinked, both outside the mutex: the
entries of the list are those that the semaphore counts, those of the pushes that did
not post yet, and those of the pops that did not unlink yet.
-/
namespace VoxiUtil.QueueThreads
open VoxiUtil.Runs VoxiUtil.SinglyLinked VoxiUtil.Queue VoxiUtil.Tally VoxiUtil.Tickets
universe u v

/-- Where a thread is: outside the queue's functions, in `queue_push` before its section
    and before its `sem_post`, in `queue_pop` or `queue_waitFor` before its wait, before
    its section, and with the entry that it unlinked, which was the `ticket`-th one. -/
inductive Pc
  | idle
  | pushing (element : Nat)
  | posting
  | waiting (timed : Bool)
  | popping
  | returning (element ticket : Nat)
deriving DecidableEq

/-- The entry that a thread has for itself. -/
def entry : Pc → Option Nat
  | .pushing element => some element
  | .returning element _ => some element
  | _ => none

/-- The number, among all entries that left, of the one that a thread returns. -/
def ticket : Pc → Option Nat
  | .returning _ ticket => some ticket
  | _ => none

/-- A queue and its threads, with the user data in the order in which pushes linked it,
    how many entries left the list, and what pops returned, each with its number. -/
structure System (τ : Type u) (α : Type v) where
  queue : SQueue α
  pc : τ → Pc
  linked : List α
  left : Nat
  returned : List (Nat × α)

/-- The steps of a thread. `push` carries the entry that `emalloc` returns and what its
    link holds before it is set. -/
inductive Act (τ : Type u) (α : Type v)
  | push (t : τ) (element : Nat) (unset : Option Nat) (userElement : α)
  | link (t : τ)
  | post (t : τ)
  | pop (t : τ)
  | waitFor (t : τ)
  | wait (t : τ)
  | timeOut (t : τ)
  | unlink (t : τ)
  | finish (t : τ)
  | poll (t : τ)

section
variable {τ : Type u} {α : Type v}

/-- A thread goes on, with the queue changed. -/
def move [DecidableEq τ] (s : System τ α) (t : τ) (next : Pc) (queue : SQueue α) : System τ α :=
  { s with queue := queue, pc := Function.update s.pc t next }

def step [DecidableEq τ] (s : System τ α) : Act τ α → Option (System τ α)
  | .push t element unset userElement => some (move s t (.pushing element) (allocate s.queue element unset userElement))
  | .link t =>
    match s.pc t with
    | .pushing element =>
      (queuePush s.queue element).map fun queue =>
        { move s t .posting queue with linked := s.linked ++ [s.queue.userData element] }
    | _ => none
  | .post t => some (move s t .idle { s.queue with semaphore := s.queue.semaphore + 1 })
  | .pop t => some (move s t (.waiting false) s.queue)
  | .waitFor t => some (move s t (.waiting true) s.queue)
  | .wait t => some (move s t .popping { s.queue with semaphore := s.queue.semaphore - 1 })
  | .timeOut t => some (move s t .idle s.queue)
  | .unlink t =>
    (doPop s.queue).map fun (element, queue) => { move s t (.returning element s.left) queue with left := s.left + 1 }
  | .finish t =>
    match s.pc t with
    | .returning element ticket =>
      if element ∈ s.queue.entries then
        some { move s t .idle (free s.queue element) with returned := s.returned ++ [(ticket, s.queue.userData element)] }
      else none
    | _ => none
  | .poll _ => some s

/-- What a thread can do next: `emalloc` gives a new entry, and a wait takes one from the
    semaphore. -/
def Enabled (s : System τ α) : Act τ α → Prop
  | .push t element _ _ => s.pc t = .idle ∧ element ∉ s.queue.entries
  | .link t => ∃ element, s.pc t = .pushing element
  | .post t => s.pc t = .posting
  | .pop t => s.pc t = .idle
  | .waitFor t => s.pc t = .idle
  | .wait t => (∃ timed, s.pc t = .waiting timed) ∧ 0 < s.queue.semaphore
  | .timeOut t => s.pc t = .waiting true
  | .unlink t => s.pc t = .popping
  | .finish t => ∃ element ticket, s.pc t = .returning element ticket
  | .poll t => s.pc t = .idle

/-- A new queue, with every thread outside its functions. -/
def create (newer : Nat → Option Nat) (userData : Nat → α) : System τ α where
  queue := queueCreate newer userData
  pc := fun _ => .idle
  linked := []
  left := 0
  returned := []

/-- What holds of a queue after each step. The entries that left are the first ones that
    pushes linked, and the list holds the others in their order. Each one that left is
    with one thread, or was returned once, with the user data of its push. -/
structure Safe (s : System τ α) : Prop where
  valid : validate s.queue = true
  found : ∀ t, s.pc t = .popping → s.queue.oldest ≠ none
  left : s.left ≤ s.linked.length
  order : ∃ nodes, Listing s.queue nodes ∧ nodes.map s.queue.userData = s.linked.drop s.left
  issued : Issued (ticket ∘ s.pc) (s.returned.map Prod.fst) s.left
  carried : ∀ t element k, s.pc t = .returning element k → s.linked[k]? = some (s.queue.userData element)
  returned : ∀ k value, (k, value) ∈ s.returned → s.linked[k]? = some value
  poll : queuePoll s.queue = true ↔ s.left < s.linked.length

/-- The invariant, for the entries of the list. -/
structure Inv (s : System τ α) (nodes : List Nat) : Prop where
  listing : Listing s.queue nodes
  left : s.left ≤ s.linked.length
  order : nodes.map s.queue.userData = s.linked.drop s.left
  balance : ∃ popping posting, Count s.pc (· = .popping) popping ∧ Count s.pc (· = .posting) posting ∧
    nodes.length = s.queue.semaphore + popping + posting
  apart : Apart (entry ∘ s.pc)
  owned : ∀ t element, entry (s.pc t) = some element → element ∈ s.queue.entries ∧ element ∉ nodes
  issued : Issued (ticket ∘ s.pc) (s.returned.map Prod.fst) s.left
  carried : ∀ t element k, s.pc t = .returning element k → s.linked[k]? = some (s.queue.userData element)
  returned : ∀ k value, (k, value) ∈ s.returned → s.linked[k]? = some value

variable {s : System τ α} {nodes : List Nat} {t : τ}

theorem create_inv (newer : Nat → Option Nat) (userData : Nat → α) : Inv (τ := τ) (create newer userData) [] where
  listing := ⟨rfl, rfl, List.nodup_nil, by simp⟩
  left := Nat.le_refl 0
  order := rfl
  balance := ⟨0, 0, count_none (by simp [create]), count_none (by simp [create]), rfl⟩
  apart := by
    intro t u element first
    cases first
  owned := by
    intro t element first
    cases first
  issued := issued_none fun _ => rfl
  carried := by
    intro t element k first
    cases first
  returned := by simp [create]

theorem Inv.safe (inv : Inv s nodes) : Safe s where
  valid := inv.listing.valid
  found := by
    intro t popping
    obtain ⟨poppers, pushers, counted, _, balance⟩ := inv.balance
    have some := count_pos counted popping
    rw [chain_start inv.listing.chain]
    cases nodes with
    | nil =>
      rw [List.length_nil] at balance
      omega
    | cons element rest => simp
  left := inv.left
  order := ⟨nodes, inv.listing, inv.order⟩
  issued := inv.issued
  carried := inv.carried
  returned := inv.returned
  poll := by
    have same := congrArg List.length inv.order
    rw [List.length_map, List.length_drop] at same
    rw [inv.listing.poll, ← List.length_pos_iff_ne_nil, same]
    omega

variable [DecidableEq τ]

theorem comp_move {κ : Type} (f : Pc → κ) {pc : τ → Pc} {next : Pc} (same : f next = f (pc t)) :
    f ∘ Function.update pc t next = f ∘ pc := by
  rw [Function.comp_update, same]
  exact Function.update_eq_self t (f ∘ pc)

/-- A fact about the entries that threads have, when one thread moves. -/
theorem moved_entries {pc : τ → Pc} {next : Pc} {P : Nat → Prop} (mine : ∀ element, entry next = some element → P element)
    (others : ∀ u, u ≠ t → ∀ element, entry (pc u) = some element → P element) :
    ∀ u element, entry (Function.update pc t next u) = some element → P element :=
  (Function.forall_update_iff pc fun _ place => ∀ element, entry place = some element → P element).mpr ⟨mine, others⟩

/-- A fact about the entries that threads return, when one thread moves. -/
theorem moved_returning {pc : τ → Pc} {next : Pc} {P : Nat → Nat → Prop}
    (mine : ∀ element k, next = .returning element k → P element k)
    (others : ∀ u, u ≠ t → ∀ element k, pc u = .returning element k → P element k) :
    ∀ u element k, Function.update pc t next u = .returning element k → P element k :=
  (Function.forall_update_iff pc fun _ place => ∀ element k, place = .returning element k → P element k).mpr ⟨mine, others⟩

/-- A thread without an entry goes on without one, and the queue changes at most its
    semaphore. -/
theorem Inv.bare (inv : Inv s nodes) {next : Pc} {semaphore : Nat} (before : entry (s.pc t) = none) (after : entry next = none)
    (balance : ∃ popping posting, Count (Function.update s.pc t next) (· = .popping) popping ∧
      Count (Function.update s.pc t next) (· = .posting) posting ∧ nodes.length = semaphore + popping + posting) :
    Inv (move s t next { s.queue with semaphore := semaphore }) nodes := by
  have none : ∀ pc, entry pc = none → ticket pc = none := by
    intro pc bare
    cases pc <;> first | rfl | cases bare
  have entries := comp_move entry (after.trans before.symm)
  have tickets := comp_move ticket ((none next after).trans (none _ before).symm)
  refine ⟨inv.listing.frame rfl rfl (fun _ _ => rfl) inv.listing.allocated, inv.left, inv.order, balance, ?_, ?_, ?_, ?_,
    inv.returned⟩
  · simp only [move, entries]
    exact inv.apart
  · intro u element has
    apply inv.owned u element
    exact (congrFun entries u).symm.trans has
  · simp only [move, tickets]
    exact inv.issued
  · apply moved_returning
    · rintro element k rfl
      cases after
    · exact fun u _ => inv.carried u

/-- A thread goes on where the queue does not count it. -/
theorem Inv.passes (inv : Inv s nodes) {pc next : Pc} (here : s.pc t = pc)
    (before : entry pc = none ∧ pc ≠ .popping ∧ pc ≠ .posting) (after : entry next = none ∧ next ≠ .popping ∧ next ≠ .posting) :
    Inv (move s t next s.queue) nodes := by
  subst here
  obtain ⟨popping, posting, poppers, pushers, balance⟩ := inv.balance
  refine inv.bare before.1 after.1 ⟨popping, posting, ?_, ?_, balance⟩
  · exact count_move poppers (iff_of_false before.2.1 after.2.1)
  · exact count_move pushers (iff_of_false before.2.2 after.2.2)

/-! ### The steps -/

theorem push_inv (inv : Inv s nodes) (idle : s.pc t = .idle) {element : Nat} (fresh : element ∉ s.queue.entries)
    (unset : Option Nat) (userElement : α) :
    Inv (move s t (.pushing element) (allocate s.queue element unset userElement)) nodes := by
  have apart : ∀ other ∈ s.queue.entries, other ≠ element := by
    rintro other allocated rfl
    exact fresh allocated
  have same : ∀ other ∈ s.queue.entries,
      (allocate s.queue element unset userElement).userData other = s.queue.userData other := by
    intro other allocated
    simp only [allocate, Function.update_of_ne (apart other allocated)]
  have later : ∀ other ∈ s.queue.entries, other ∈ (allocate s.queue element unset userElement).entries :=
    fun other allocated => List.mem_cons_of_mem element allocated
  refine ⟨?_, inv.left, ?_, ?_, ?_, ?_, ?_, ?_, inv.returned⟩
  · refine inv.listing.frame rfl rfl ?_ ?_
    · intro other member
      simp only [move, allocate, Function.update_of_ne (apart other (inv.listing.allocated other member))]
    · intro other member
      exact later other (inv.listing.allocated other member)
  · refine Eq.trans ?_ inv.order
    apply List.map_congr_left
    intro other member
    exact same other (inv.listing.allocated other member)
  · obtain ⟨popping, posting, poppers, pushers, balance⟩ := inv.balance
    refine ⟨popping, posting, count_move poppers ?_, count_move pushers ?_, balance⟩ <;> simp [idle]
  · simp only [move, Function.comp_update]
    apply apart_take inv.apart
    intro u has
    exact fresh (inv.owned u element has).1
  · apply moved_entries
    · rintro _ ⟨⟩
      exact ⟨List.mem_cons_self, fun member => fresh (inv.listing.allocated element member)⟩
    · intro u _ other has
      obtain ⟨allocated, outside⟩ := inv.owned u other has
      exact ⟨later other allocated, outside⟩
  · have tickets : ticket (.pushing element) = ticket (s.pc t) := by
      rw [idle]
      rfl
    simp only [move, comp_move ticket tickets]
    exact inv.issued
  · apply moved_returning
    · exact nofun
    · intro u _ other k has
      have allocated := (inv.owned u other (by rw [has]; rfl)).1
      simp only [move, same other allocated]
      exact inv.carried u other k has

/-- What is known of the entries that were linked stays known when one more is. -/
theorem linked_append {linked : List α} {k : Nat} {value more : α} (known : linked[k]? = some value) :
    (linked ++ [more])[k]? = some value := by
  obtain ⟨inside, _⟩ := List.getElem?_eq_some_iff.mp known
  rw [List.getElem?_append_left inside, known]

theorem link_inv (inv : Inv s nodes) {element : Nat} (pushing : s.pc t = .pushing element) :
    ∃ next, step s (.link t) = some next ∧ Inv next (nodes ++ [element]) := by
  obtain ⟨allocated, outside⟩ := inv.owned t element (by rw [pushing]; rfl)
  obtain ⟨queue, pushed, listing, same⟩ := queuePush_listing inv.listing allocated outside
  refine ⟨{ move s t .posting queue with linked := s.linked ++ [s.queue.userData element] }, ?_, ?_⟩
  · simp only [step, pushing, pushed, Option.map_some]
  have tickets : ticket .posting = ticket (s.pc t) := by
    rw [pushing]
    rfl
  have elsewhere : ∀ u, u ≠ t → ∀ other, entry (s.pc u) = some other → other ≠ element := by
    rintro u different other has rfl
    exact different (inv.apart u t other has (by rw [Function.comp_apply, pushing]; rfl))
  refine ⟨listing, ?_, ?_, ?_, ?_, ?_, ?_, ?_, ?_⟩
  · have left := inv.left
    simp only [move, List.length_append, List.length_singleton]
    omega
  · simp only [move]
    rw [List.drop_append_of_le_length inv.left, ← inv.order, same.userData, List.map_append, List.map_singleton]
  · obtain ⟨popping, posting, poppers, pushers, balance⟩ := inv.balance
    refine ⟨popping, posting + 1, count_move poppers ?_, count_enter pushers ?_ rfl, ?_⟩
    · simp [pushing]
    · simp [pushing]
    · simp only [move, same.semaphore, List.length_append, List.length_singleton]
      omega
  · simp only [move, Function.comp_update]
    exact apart_drop inv.apart
  · simp only [move, same.entries]
    apply moved_entries
    · exact nofun
    · intro u different other has
      obtain ⟨known, out⟩ := inv.owned u other has
      refine ⟨known, ?_⟩
      simp [out, elsewhere u different other has]
  · simp only [move, comp_move ticket tickets]
    exact inv.issued
  · simp only [move, same.userData]
    apply moved_returning
    · exact nofun
    · intro u _ other k has
      exact linked_append (inv.carried u other k has)
  · intro k value member
    exact linked_append (inv.returned k value member)

theorem unlink_inv (inv : Inv s nodes) (popping : s.pc t = .popping) :
    ∃ next rest, step s (.unlink t) = some next ∧ Inv next rest := by
  obtain ⟨poppers, pushers, counted, posting, balance⟩ := inv.balance
  have some := count_pos counted popping
  cases nodes with
  | nil =>
    rw [List.length_nil] at balance
    omega
  | cons element rest =>
    obtain ⟨queue, popped, listing, same⟩ := doPop_listing inv.listing
    have bare : (ticket ∘ s.pc) t = none := by
      rw [Function.comp_apply, popping]
      rfl
    have free : ∀ u, entry (s.pc u) ≠ Option.some element := by
      intro u has
      exact (inv.owned u element has).2 List.mem_cons_self
    have order : s.queue.userData element :: rest.map s.queue.userData = s.linked.drop s.left := inv.order
    have inside : s.left < s.linked.length := by
      have lengths := congrArg List.length order
      rw [List.length_cons, List.length_drop] at lengths
      omega
    rw [List.drop_eq_getElem_cons inside, List.cons.injEq] at order
    refine ⟨{ move s t (.returning element s.left) queue with left := s.left + 1 }, rest, ?_, ?_⟩
    · simp only [step, popped, Option.map_some]
    refine ⟨listing, inside, ?_, ?_, ?_, ?_, ?_, ?_, inv.returned⟩
    · simp only [move, same.userData]
      exact order.2
    · refine ⟨poppers - 1, pushers, count_leave counted popping (by simp), count_move posting (by simp [popping]), ?_⟩
      simp only [move, same.semaphore]
      rw [List.length_cons] at balance
      omega
    · simp only [move, Function.comp_update]
      exact apart_take inv.apart free
    · simp only [move, same.entries]
      apply moved_entries
      · rintro _ ⟨⟩
        exact ⟨inv.listing.allocated element List.mem_cons_self, (List.nodup_cons.mp inv.listing.distinct).1⟩
      · intro u _ other has
        obtain ⟨known, out⟩ := inv.owned u other has
        exact ⟨known, fun member => out (List.mem_cons_of_mem element member)⟩
    · simp only [move, Function.comp_update]
      exact issued_take inv.issued bare
    · simp only [move, same.userData]
      apply moved_returning
      · rintro _ _ ⟨⟩
        rw [List.getElem?_eq_getElem inside, order.1]
      · exact fun u _ => inv.carried u

theorem finish_inv (inv : Inv s nodes) {element number : Nat} (returning : s.pc t = .returning element number) :
    ∃ next, step s (.finish t) = some next ∧ Inv next nodes := by
  have mine : entry (s.pc t) = some element := by rw [returning]; rfl
  obtain ⟨allocated, outside⟩ := inv.owned t element mine
  have kept : ∀ other ∈ s.queue.entries, other ≠ element → other ∈ (free s.queue element).entries :=
    fun other known different => (List.mem_erase_of_ne different).mpr known
  refine ⟨{ move s t .idle (free s.queue element) with
    returned := s.returned ++ [(number, s.queue.userData element)] }, ?_, ?_⟩
  · simp only [step, returning, if_pos allocated]
  refine ⟨?_, inv.left, inv.order, ?_, ?_, ?_, ?_, ?_, ?_⟩
  · refine inv.listing.frame rfl rfl (fun _ _ => rfl) ?_
    intro other member
    apply kept other (inv.listing.allocated other member)
    rintro rfl
    exact outside member
  · obtain ⟨popping, posting, poppers, pushers, balance⟩ := inv.balance
    exact ⟨popping, posting, count_move poppers (by simp [returning]), count_move pushers (by simp [returning]), balance⟩
  · simp only [move, Function.comp_update]
    exact apart_drop inv.apart
  · apply moved_entries
    · exact nofun
    · intro u different other has
      obtain ⟨known, out⟩ := inv.owned u other has
      refine ⟨kept other known ?_, out⟩
      rintro rfl
      exact different (inv.apart u t other has mine)
  · simp only [move, Function.comp_update, List.map_append, List.map_singleton]
    apply issued_give inv.issued
    rw [Function.comp_apply, returning]
    rfl
  · apply moved_returning
    · exact nofun
    · exact fun u _ => inv.carried u
  · intro k value member
    rcases List.mem_append.mp member with earlier | last
    · exact inv.returned k value earlier
    · cases List.mem_singleton.mp last
      exact inv.carried t element number returning

/-- Every step that a thread can take succeeds. -/
theorem step_inv (inv : Inv s nodes) {act : Act τ α} (enabled : Enabled s act) :
    ∃ next rest, step s act = some next ∧ Inv next rest := by
  obtain ⟨popping, posting, poppers, pushers, balance⟩ := inv.balance
  cases act with
  | push t element unset userElement => exact ⟨_, nodes, rfl, push_inv inv enabled.1 enabled.2 unset userElement⟩
  | link t =>
    obtain ⟨element, pushing⟩ := enabled
    obtain ⟨next, stepped, kept⟩ := link_inv inv pushing
    exact ⟨next, _, stepped, kept⟩
  | post t =>
    have here : s.pc t = .posting := enabled
    have some := count_pos pushers here
    refine ⟨_, nodes, rfl, inv.bare (by rw [here]; rfl) rfl ⟨popping, posting - 1, ?_, ?_, by omega⟩⟩
    · exact count_move poppers (by simp [here])
    · exact count_leave pushers here (by simp)
  | pop t => exact ⟨_, nodes, rfl, inv.passes enabled (by decide) (by decide)⟩
  | waitFor t => exact ⟨_, nodes, rfl, inv.passes enabled (by decide) (by decide)⟩
  | wait t =>
    obtain ⟨⟨timed, here⟩, positive⟩ := enabled
    refine ⟨_, nodes, rfl, inv.bare (by rw [here]; rfl) rfl ⟨popping + 1, posting, ?_, ?_, by omega⟩⟩
    · exact count_enter poppers (by simp [here]) rfl
    · exact count_move pushers (by simp [here])
  | timeOut t => exact ⟨_, nodes, rfl, inv.passes enabled (by decide) (by decide)⟩
  | unlink t => exact unlink_inv inv enabled
  | finish t =>
    obtain ⟨element, ticket, returning⟩ := enabled
    obtain ⟨next, stepped, kept⟩ := finish_inv inv returning
    exact ⟨next, nodes, stepped, kept⟩
  | poll t => exact ⟨s, nodes, rfl, inv⟩

/-- Whatever the threads do, and in whatever order: no assertion of the queue fails, no
    entry is used after it was freed, and the queue is safe. -/
theorem queue_safe (newer : Nat → Option Nat) (userData : Nat → α) (acts : List (Act τ α))
    (guarded : Guarded step Enabled (create newer userData) acts) :
    ∃ s, run step (create newer userData) acts = some s ∧ Safe s := by
  have each : ∀ (s : System τ α) act, (∃ nodes, Inv s nodes) → Enabled s act →
      ∃ t, step s act = some t ∧ ∃ nodes, Inv t nodes := by
    rintro s act ⟨nodes, inv⟩ enabled
    obtain ⟨next, rest, stepped, kept⟩ := step_inv inv enabled
    exact ⟨next, stepped, rest, kept⟩
  obtain ⟨s, ran, nodes, inv⟩ := guarded_total each ⟨[], create_inv newer userData⟩ guarded
  exact ⟨s, ran, inv.safe⟩

end

/-- A pop between the link of one push and its post, which takes what another push
    posted. -/
theorem queue_safe_sample : ∃ s, run step (create (τ := Nat) (fun _ => none) (fun _ => 0))
    [.waitFor 0, .push 1 5 none 7, .push 2 6 (some 9) 8, .link 1, .link 2, .post 2, .wait 0, .unlink 0, .poll 3, .finish 0,
      .post 1] = some s ∧ Safe s := by
  apply queue_safe
  simp [Guarded, Enabled, step, move, create, queueCreate, allocate, free, queuePush, linkEntry, doPop, unlinkEntry, validate,
    lastEntry, Function.update_apply]

end VoxiUtil.QueueThreads
