import VoxiUtil.ByteQueueFifo

/-!
Any number of threads at one byte queue. Those that wait sleep on one condition, which is
signalled by a write into an empty queue, by an end of a stream and by a short read only.
That is enough: whoever sleeps and was not woken could not go on.
-/
namespace VoxiUtil.ByteQueueThreads
open VoxiUtil.CString VoxiUtil.Runs VoxiUtil.Ring VoxiUtil.ByteQueueC VoxiUtil.ByteQueueFifo
open VoxiUtil.Limits (intMax)

/-- Where a thread is: outside, behind the assertion of `byteQueue_writeData` (which needs no lock), or in one of the two
    loops that wait, with the bytes that it has read. One that sleeps has not been woken since it waits. -/
inductive Thread
  | outside
  | writing (data : Text)
  | starting (asleep : Bool)
  | reading (readRequest : Nat) (data : Text) (asleep : Bool)
deriving DecidableEq

def Thread.data : Thread → Text
  | .reading _ data _ => data
  | _ => []

def Thread.asleep : Thread → Bool
  | .starting asleep => asleep
  | .reading _ _ asleep => asleep
  | _ => false

def Thread.woken : Thread → Thread
  | .starting _ => .starting false
  | .reading readRequest data _ => .reading readRequest data false
  | thread => thread

/-- The queue and its threads, with a record: the bytes that were stored, each byte that was read with its reader, and
    what each read has returned. -/
structure World (τ : Type) where
  queue : ByteQueue
  threads : τ → Thread
  stored : Text
  taken : List (τ × UInt8)
  returned : List (τ × Text)

section
variable {τ : Type}

def start (queue : ByteQueue) : World τ := ⟨queue, fun _ => .outside, [], [], []⟩

/-- `pthread_cond_broadcast`. -/
def broadcast (w : World τ) : World τ := { w with threads := fun t => (w.threads t).woken }

variable [DecidableEq τ]

def setThread (w : World τ) (t : τ) (thread : Thread) : World τ := { w with threads := Function.update w.threads t thread }

/-- `byteQueue_writeData` behind its first assertion. -/
def writes (w : World τ) (t : τ) (data : Text) : Option (World τ) :=
  (writeLoop w.queue data (byteQueueIsEmpty w.queue)).map fun out =>
    let after := { w with queue := out.1, stored := w.stored ++ data.take (data.length - out.2.2.length) }
    setThread (if byteQueueIsEmpty w.queue && !data.isEmpty then broadcast after else after) t .outside

/-- The loop of `byteQueue_writeStartOfStream` and what is behind it. -/
def starts (w : World τ) (t : τ) : World τ :=
  match byteQueueWriteStartOfStream w.queue with
  | some queue => setThread { w with queue } t .outside
  | none => setThread w t (.starting true)

/-- The loop of `ByteQueue_readData` and what is behind it. -/
def reads (w : World τ) (t : τ) (readRequest : Nat) (data : Text) : Option (World τ) :=
  (readLoop w.queue (readRequest - data.length) data).bind fun out =>
    let after := { w with queue := out.2.1, taken := w.taken ++ (out.2.2.drop data.length).map (Prod.mk t) }
    match out.1 with
    | .waits => some (setThread after t (.reading readRequest out.2.2 true))
    | .ends => (readEnd out.2.1 readRequest out.2.2).map fun queue =>
      let after := { after with queue, returned := w.returned ++ [(t, out.2.2)] }
      setThread (if out.2.2.length < readRequest then broadcast after else after) t .outside

/-- A thread that is inside has its next turn at the mutex. One that waits may also come back without having been
    woken. -/
def goesOn (w : World τ) (t : τ) : Option (World τ) :=
  match w.threads t with
  | .outside => none
  | .writing data => writes w t data
  | .starting _ => some (starts w t)
  | .reading readRequest data _ => reads w t readRequest data

inductive Act (τ : Type)
  | writeData (t : τ) (data : Text)
  | writeStartOfStream (t : τ)
  | writeEndOfStream (t : τ)
  | readData (t : τ) (readRequest : Nat)
  | goesOn (t : τ)

def step (w : World τ) : Act τ → Option (World τ)
  | .writeData t data => do
    assert (w.threads t = .outside)
    assert (w.queue.endOfStream = false)
    some (setThread w t (.writing data))
  | .writeStartOfStream t => do
    assert (w.threads t = .outside)
    assert (w.queue.endOfStream = true)
    some (starts w t)
  | .writeEndOfStream t => do
    assert (w.threads t = .outside)
    let after := { w with queue := byteQueueWriteEndOfStream w.queue }
    some (if w.queue.endOfStream then after else broadcast after)
  | .readData t readRequest => do
    assert (w.threads t = .outside)
    assert (0 < readRequest)
    reads w t readRequest []
  | .goesOn t => goesOn w t

/-- The bytes that a thread took. -/
def takenBy (taken : List (τ × UInt8)) (t : τ) : Text := taken.filterMap fun part => if part.1 = t then some part.2 else none

/-- What the reads of a thread have returned. -/
def returnedBy (returned : List (τ × Text)) (t : τ) : Text := returned.flatMap fun part => if part.1 = t then part.2 else []

/-- Nothing is lost, neither bytes nor wake-ups: what was stored is what was taken and then what the queue holds, each
    thread has returned what it took up to what it has in hand; whoever is inside can go on without a failed assertion;
    to go on changes nothing for a thread that was not woken; and starts and reads do not sleep at the same time. -/
structure Sound (w : World τ) : Prop where
  bytes : ∃ contents, Holding w.queue contents ∧ w.stored = w.taken.map Prod.snd ++ contents
  readers : ∀ t, takenBy w.taken t = returnedBy w.returned t ++ (w.threads t).data
  goes : ∀ t, w.threads t ≠ .outside → ∃ v, goesOn w t = some v
  sleeps : ∀ t, (w.threads t).asleep = true → goesOn w t = some w
  apart : ∀ t u readRequest data, w.threads t = .starting true → w.threads u ≠ .reading readRequest data true

/-- A thread sleeps only while there is nothing for it. -/
def Rightly (queue : ByteQueue) (contents : Text) : Thread → Prop
  | .starting true => queue.endOfStreamReported = false
  | .reading readRequest data true => data.length < readRequest ∧ contents = [] ∧ ¬ Unreported queue
  | _ => True

/-- What the queue itself keeps. -/
structure Books (size : Nat) (w : World τ) (contents : Text) : Prop where
  sized : w.queue.size = size
  holding : Holding w.queue contents
  order : w.stored = w.taken.map Prod.snd ++ contents
  open' : w.queue.endOfStreamReported = false → w.queue.endOfStream = true

/-- What is kept for a thread: it has all that it took, and sleeps rightly. -/
structure Served (w : World τ) (contents : Text) (t : τ) (thread : Thread) : Prop where
  bytes : takenBy w.taken t = returnedBy w.returned t ++ thread.data
  right : Rightly w.queue contents thread

structure Inv (size : Nat) (w : World τ) (contents : Text) : Prop extends Books size w contents where
  served : ∀ t, Served w contents t (w.threads t)

variable {size : Nat} {w v : World τ} {t : τ} {contents data : Text} {thread : Thread} {readRequest : Nat}

@[simp] theorem woken_data (thread : Thread) : thread.woken.data = thread.data := by
  cases thread <;> rfl

theorem rightly_woken (queue : ByteQueue) (thread : Thread) : Rightly queue contents thread.woken := by
  cases thread <;> exact trivial

/-- Whoever slept in front of something that is there no longer does. -/
theorem rightly_mono {queue next : ByteQueue} {rest : Text} (right : Rightly queue contents thread)
    (starts : queue.endOfStreamReported = false → next.endOfStreamReported = false)
    (reads : contents = [] → ¬ Unreported queue → rest = [] ∧ ¬ Unreported next) : Rightly next rest thread := by
  rcases thread with _ | _ | asleep | ⟨readRequest, data, asleep⟩
  · trivial
  · trivial
  · cases asleep
    · trivial
    · exact starts right
  · cases asleep
    · trivial
    · exact ⟨right.1, reads right.2.1 right.2.2⟩

theorem takenBy_more (taken : List (τ × UInt8)) (u t : τ) (bytes : Text) :
    takenBy (taken ++ bytes.map (Prod.mk t)) u = takenBy taken u ++ if t = u then bytes else [] := by
  rw [takenBy, List.filterMap_append, List.filterMap_map]
  congr 1
  by_cases mine : t = u
  · simp [mine]
  · simp [mine]

theorem returnedBy_more (returned : List (τ × Text)) (u t : τ) (bytes : Text) :
    returnedBy (returned ++ [(t, bytes)]) u = returnedBy returned u ++ if t = u then bytes else [] := by
  simp [returnedBy]

/-- A thread in its new place. -/
theorem Books.moved (books : Books size w contents) (others : ∀ u, u ≠ t → Served w contents u (w.threads u))
    (own : Served w contents t thread) : Inv size (setThread w t thread) contents := by
  refine ⟨⟨books.sized, books.holding, books.order, books.open'⟩, fun u => ?_⟩
  by_cases same : u = t
  · subst same
    simpa [setThread] using (⟨own.bytes, own.right⟩ : Served (setThread w u thread) contents u thread)
  · have kept := others u same
    simpa [setThread, Function.update_of_ne same] using (⟨kept.bytes, kept.right⟩ : Served (setThread w t thread) contents u (w.threads u))

/-- After a broadcast, nobody sleeps. -/
theorem served_broadcast (bytes : takenBy w.taken t = returnedBy w.returned t ++ (w.threads t).data) :
    Served (broadcast w) contents t ((broadcast w).threads t) :=
  ⟨by simpa [broadcast] using bytes, rightly_woken _ _⟩

theorem writes_inv (small : size ≤ intMax) (inv : Inv size w contents) (here : w.threads t = .writing data) :
    ∃ v rest, writes w t data = some v ∧ Inv size v rest := by
  have fits : w.queue.size ≤ intMax := inv.sized ▸ small
  have below : w.queue.size ≤ 2 ^ 32 := by unfold intMax at fits; omega
  obtain ⟨⟨queue, noDrop, left⟩, ran⟩ := @writeLoop_defined _ _ data inv.holding fits (byteQueueIsEmpty w.queue)
  obtain ⟨kept, -, rfl, same⟩ := writeLoop_holding inv.holding below ran
  have own : takenBy w.taken t = returnedBy w.returned t ++ Thread.outside.data := by
    have before := (inv.served t).bytes
    rwa [here] at before
  rw [writes, ran, Option.map_some]
  refine ⟨_, contents ++ data.take (w.queue.size - contents.length), rfl, ?_⟩
  dsimp only
  set stored := w.stored ++ data.take (data.length - (data.drop (w.queue.size - contents.length)).length) with storing
  have books : Books size { w with queue, stored } (contents ++ data.take (w.queue.size - contents.length)) := by
    refine ⟨same.size.trans inv.sized, kept, ?_, ?_⟩
    · rw [storing, take_dropped, inv.order, List.append_assoc]
    · rw [same.reported, same.ended]
      exact inv.open'
  by_cases wakes : (byteQueueIsEmpty w.queue && !data.isEmpty) = true
  · rw [if_pos wakes]
    exact Books.moved ⟨books.sized, books.holding, books.order, books.open'⟩ (fun u _ => served_broadcast (inv.served u).bytes) ⟨own, trivial⟩
  · rw [if_neg wakes]
    refine books.moved (fun u _ => ⟨(inv.served u).bytes, ?_⟩) ⟨own, trivial⟩
    refine rightly_mono (inv.served u).right (fun unreported => same.reported.trans unreported) fun empty ended => ⟨?_, ?_⟩
    · have nothing : data = [] := by
        simpa [inv.holding.isEmpty_iff.mpr empty] using wakes
      rw [empty, nothing, List.take_nil, List.append_nil]
    · rwa [same.unreported]

theorem starts_inv (inv : Inv size w contents) (own : takenBy w.taken t = returnedBy w.returned t ++ []) :
    Inv size (starts w t) contents := by
  rw [starts, byteQueueWriteStartOfStream]
  by_cases reported : w.queue.endOfStreamReported = true
  · rw [if_pos reported]
    refine Books.moved ⟨inv.sized, inv.holding.flags false w.queue.endOfStreamReported, inv.order, by simp [reported]⟩ (fun u _ => ?_) ⟨own, trivial⟩
    exact ⟨(inv.served u).bytes, rightly_mono (inv.served u).right id fun empty _ => ⟨empty, by simp [Unreported]⟩⟩
  · rw [if_neg reported]
    exact inv.moved (fun u _ => inv.served u) ⟨own, by simpa [Rightly] using reported⟩

theorem reads_inv (small : size ≤ intMax) (inv : Inv size w contents) (readRequest : Nat)
    (own : takenBy w.taken t = returnedBy w.returned t ++ data) :
    ∃ v rest, reads w t readRequest data = some v ∧ Inv size v rest := by
  have fits : w.queue.size ≤ intMax := inv.sized ▸ small
  have below : w.queue.size ≤ 2 ^ 32 := by unfold intMax at fits; omega
  obtain ⟨⟨stop, queue, bytes⟩, ran⟩ := @readLoop_defined _ _ data (readRequest - data.length) inv.holding fits
  obtain ⟨rfl, kept, same, stopped⟩ := readLoop_holding inv.holding below ran
  set count := readRequest - data.length with counted
  have open' : queue.endOfStreamReported = false → queue.endOfStream = true := by
    rw [same.reported, same.ended]
    exact inv.open'
  set taken := w.taken ++ (contents.take count).map (Prod.mk t) with taking
  have order : w.stored = taken.map Prod.snd ++ contents.drop count := by
    rw [inv.order, taking, List.map_append, List.map_map, List.append_assoc]
    simp [Function.comp_def]
  have mine : takenBy taken t = returnedBy w.returned t ++ (data ++ contents.take count) := by
    rw [taking, takenBy_more, own, if_pos rfl, List.append_assoc]
  have others : ∀ u, u ≠ t → takenBy taken u = returnedBy w.returned u ++ (w.threads u).data := by
    intro u apart
    rw [taking, takenBy_more, (inv.served u).bytes, if_neg (Ne.symm apart), List.append_nil]
  have stays : ∀ u, Rightly queue (contents.drop count) (w.threads u) := by
    refine fun u => rightly_mono (inv.served u).right (fun unreported => same.reported.trans unreported) fun empty ended => ⟨?_, ?_⟩
    · rw [empty, List.drop_nil]
    · rwa [same.unreported]
  rw [reads, ran, Option.bind_some]
  dsimp only
  rw [List.drop_left, ← taking]
  by_cases enough : count ≤ contents.length ∨ Unreported w.queue
  · obtain rfl : stop = .ends := by rw [stopped, if_pos enough]
    have returns : ∀ u, u ≠ t → takenBy taken u = returnedBy (w.returned ++ [(t, data ++ contents.take count)]) u ++ (w.threads u).data := by
      intro u apart
      rw [returnedBy_more, if_neg (Ne.symm apart), List.append_nil, others u apart]
    have done : takenBy taken t = returnedBy (w.returned ++ [(t, data ++ contents.take count)]) t ++ Thread.outside.data := by
      rw [returnedBy_more, if_pos rfl, mine]
      exact (List.append_nil _).symm
    by_cases short : (data ++ contents.take count).length < readRequest
    · have ended : Unreported w.queue := by
        refine enough.resolve_left fun whole => ?_
        rw [List.length_append, List.length_take, Nat.min_eq_left whole] at short
        omega
      rw [readEnd, if_pos short, if_pos (same.ended.trans ended.1), Option.map_some]
      refine ⟨_, contents.drop count, rfl, ?_⟩
      rw [if_pos short]
      refine Books.moved ⟨same.size.trans inv.sized, kept.flags queue.endOfStream true, order, by simp [broadcast]⟩ (fun u apart => ?_) ⟨done, trivial⟩
      exact served_broadcast (returns u apart)
    · rw [readEnd, if_neg short, Option.map_some]
      refine ⟨_, contents.drop count, rfl, ?_⟩
      rw [if_neg short]
      exact Books.moved ⟨same.size.trans inv.sized, kept, order, open'⟩ (fun u apart => ⟨returns u apart, stays u⟩) ⟨done, trivial⟩
  · obtain rfl : stop = .waits := by rw [stopped, if_neg enough]
    refine ⟨_, contents.drop count, rfl, ?_⟩
    refine Books.moved ⟨same.size.trans inv.sized, kept, order, open'⟩ (fun u apart => ⟨others u apart, stays u⟩) ⟨mine, ?_, ?_, ?_⟩
    · rw [List.length_append, List.length_take]
      omega
    · exact List.drop_of_length_le (by omega)
    · rw [same.unreported]
      exact fun ended => enough (.inr ended)

theorem goesOn_inv (small : size ≤ intMax) (inv : Inv size w contents) (inside : w.threads t ≠ .outside) :
    ∃ v rest, goesOn w t = some v ∧ Inv size v rest := by
  have bytes := (inv.served t).bytes
  rw [goesOn]
  cases here : w.threads t with
  | outside => exact absurd here inside
  | writing data => exact writes_inv small inv here
  | starting asleep =>
    rw [here] at bytes
    exact ⟨_, contents, rfl, starts_inv inv bytes⟩
  | reading readRequest data asleep =>
    rw [here] at bytes
    exact reads_inv small inv readRequest bytes

theorem end_inv (inv : Inv size w contents) :
    Inv size (if w.queue.endOfStream then { w with queue := byteQueueWriteEndOfStream w.queue }
      else broadcast { w with queue := byteQueueWriteEndOfStream w.queue }) contents := by
  rw [byteQueueWriteEndOfStream]
  by_cases ended : w.queue.endOfStream = true
  · rw [if_pos ended, if_pos ended]
    exact inv
  · rw [if_neg ended, if_neg ended]
    exact ⟨⟨inv.sized, inv.holding.flags true false, inv.order, fun _ => rfl⟩, fun t => served_broadcast (inv.served t).bytes⟩

theorem step_inv (small : size ≤ intMax) (inv : Inv size w contents) {act : Act τ} (done : step w act = some v) :
    ∃ rest, Inv size v rest := by
  cases act with
  | writeData t data =>
    obtain ⟨_, outside, later⟩ := Option.bind_eq_some_iff.mp done
    obtain ⟨_, -, later⟩ := Option.bind_eq_some_iff.mp later
    cases later
    have bytes := (inv.served t).bytes
    rw [assert_eq_some.mp outside] at bytes
    exact ⟨contents, inv.moved (fun u _ => inv.served u) ⟨bytes, trivial⟩⟩
  | writeStartOfStream t =>
    obtain ⟨_, outside, later⟩ := Option.bind_eq_some_iff.mp done
    obtain ⟨_, -, later⟩ := Option.bind_eq_some_iff.mp later
    cases later
    have bytes := (inv.served t).bytes
    rw [assert_eq_some.mp outside] at bytes
    exact ⟨contents, starts_inv inv bytes⟩
  | writeEndOfStream t =>
    obtain ⟨_, -, later⟩ := Option.bind_eq_some_iff.mp done
    cases later
    exact ⟨contents, end_inv inv⟩
  | readData t readRequest =>
    obtain ⟨_, outside, later⟩ := Option.bind_eq_some_iff.mp done
    obtain ⟨_, -, later⟩ := Option.bind_eq_some_iff.mp later
    have bytes := (inv.served t).bytes
    rw [assert_eq_some.mp outside] at bytes
    have turn : ∃ v rest, reads w t readRequest [] = some v ∧ Inv size v rest := reads_inv small inv readRequest bytes
    obtain ⟨v', rest, ran, kept⟩ := turn
    rw [ran] at later
    cases later
    exact ⟨rest, kept⟩
  | goesOn t =>
    have inside : w.threads t ≠ .outside := by
      intro outside
      rw [step, goesOn, outside] at done
      cases done
    obtain ⟨v', rest, ran, kept⟩ := goesOn_inv small inv inside
    rw [step, ran] at done
    cases done
    exact ⟨rest, kept⟩

theorem same_thread (here : w.threads t = thread) : setThread w t thread = w := by
  rw [← here, setThread, Function.update_eq_self]

/-- A read of an empty queue. -/
theorem readLoop_empty {queue : ByteQueue} (holding : Holding queue []) (more : readRequest ≠ 0) (data : Text) :
    readLoop queue readRequest data = some (if Unreported queue then .ends else .waits, queue, data) := by
  rw [readLoop_eq, if_neg more, if_pos (holding.isEmpty_iff.mpr rfl)]
  by_cases ended : Unreported queue
  · rw [if_pos ended, if_pos (by simp [ended.1, ended.2])]
  · rw [if_neg ended, if_neg (by simpa [Unreported] using ended)]

/-- Whoever sleeps would go back to sleep. -/
theorem sleeps_inv (inv : Inv size w contents) (asleep : (w.threads t).asleep = true) : goesOn w t = some w := by
  have right := (inv.served t).right
  rw [goesOn]
  cases here : w.threads t with
  | outside => simp [here, Thread.asleep] at asleep
  | writing data => simp [here, Thread.asleep] at asleep
  | starting sleeping =>
    obtain rfl : sleeping = true := by simpa [here, Thread.asleep] using asleep
    have unreported : w.queue.endOfStreamReported = false := by simpa [here, Rightly] using right
    simp only [starts, byteQueueWriteStartOfStream, unreported, Bool.false_eq_true, if_false]
    rw [same_thread here]
  | reading readRequest data sleeping =>
    obtain rfl : sleeping = true := by simpa [here, Thread.asleep] using asleep
    rw [here] at right
    obtain ⟨more, rfl, open'⟩ := right
    have nothing : data.drop data.length = [] := List.drop_length
    simp only [reads, readLoop_empty inv.holding (Nat.sub_ne_zero_of_lt more), if_neg open', Option.bind_some, nothing,
      List.map_nil, List.append_nil]
    rw [same_thread here]

theorem sound_inv (small : size ≤ intMax) (inv : Inv size w contents) : Sound w := by
  refine ⟨⟨contents, inv.holding, inv.order⟩, fun t => (inv.served t).bytes, fun t inside => ?_, fun t => sleeps_inv inv, ?_⟩
  · obtain ⟨v, -, ran, -⟩ := goesOn_inv small inv inside
    exact ⟨v, ran⟩
  · intro t u readRequest data starting reading
    have unreported := (inv.served t).right
    have open' := (inv.served u).right
    rw [starting] at unreported
    rw [reading] at open'
    exact open'.2.2 ⟨inv.open' unreported, unreported⟩

theorem start_inv {queue : ByteQueue} {block : Nat → UInt8} (made : byteQueueCreate size block = some queue) :
    Inv size (start queue : World τ) [] := by
  have positive : 0 < size := by
    rw [byteQueueCreate] at made
    split at made
    · cases made
    · omega
  obtain rfl : fresh size block true false = queue := Option.some.inj ((create_fresh positive).symm.trans made)
  exact ⟨⟨rfl, fresh_holding positive true false, rfl, fun _ => rfl⟩, fun t => ⟨rfl, trivial⟩⟩

/-- In every run of any number of threads over a new byte queue, with whatever wake-ups besides those of the code, no
    byte and no wake-up is lost. -/
theorem no_wakeup_lost {block : Nat → UInt8} {queue : ByteQueue} {acts : List (Act τ)} (small : size ≤ intMax)
    (made : byteQueueCreate size block = some queue) (ran : run step (start queue) acts = some w) : Sound w := by
  have free : Guarded step (fun _ _ => True) (start queue) acts := guarded_forall fun _ _ _ => trivial
  have preserved : ∀ (w : World τ) act v, (∃ contents, Inv size w contents) → True → step w act = some v → ∃ contents, Inv size v contents :=
    fun w act v known _ done => known.elim fun _ inv => step_inv small inv done
  obtain ⟨contents, inv⟩ := guarded_run (fun w => ∃ contents, Inv size w contents) preserved ⟨[], start_inv made⟩ free ran
  exact sound_inv small inv

end

/-- A start waits for the short read of another thread, which then sleeps in front of the open stream. -/
theorem no_wakeup_lost_two : ∃ w : World Nat,
    run step (start ⟨fun _ => 0, 0, 0, false, 4, true, false⟩) [.writeStartOfStream 0, .readData 1 3, .goesOn 0, .readData 1 2] = some w ∧
      (w.threads 1).asleep = true ∧ Sound w := by
  have ends : readLoop ⟨fun _ => 0, 0, 0, false, 4, true, false⟩ 3 [] = some (.ends, ⟨fun _ => 0, 0, 0, false, 4, true, false⟩, []) :=
    readLoop_empty (fresh_holding (by decide) true false) (by decide) []
  have waits : readLoop ⟨fun _ => 0, 0, 0, false, 4, false, true⟩ 2 [] = some (.waits, ⟨fun _ => 0, 0, 0, false, 4, false, true⟩, []) :=
    readLoop_empty (fresh_holding (by decide) false true) (by decide) []
  obtain ⟨w, ran, asleep⟩ : ∃ w : World Nat, run step (start ⟨fun _ => 0, 0, 0, false, 4, true, false⟩)
      [.writeStartOfStream 0, .readData 1 3, .goesOn 0, .readData 1 2] = some w ∧ (w.threads 1).asleep = true := by
    simp [run, step, goesOn, starts, reads, setThread, broadcast, start, byteQueueWriteStartOfStream, readEnd, ends, waits, Thread.woken,
      Thread.asleep]
  exact ⟨w, ran, asleep, no_wakeup_lost (show 4 ≤ intMax by decide) rfl ran⟩

end VoxiUtil.ByteQueueThreads
